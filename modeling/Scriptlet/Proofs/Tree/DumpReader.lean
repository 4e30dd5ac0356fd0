import Scriptlet.Proofs.Lexer.Joined
import Scriptlet.Proofs.Number.ShownNumbers
import Scriptlet.Proofs.Tree.Likeness
import Scriptlet.Proofs.Tree.Proper

/-!
# Scriptlet — reading dumps

A dump is read from its end. Words and trees that were found wait, the leftmost
first, until the head of their form and its parenthesis are reached; a closing
parenthesis sets aside what waited so far. A name becomes a variable as soon as
`var` is found in front of it, so that a declaration starts with a variable and
no head of another form does. Nothing has to be guessed: the head and the number
of parts decide on the node, and a minus with two parts is no negation.

## Results

* `DumpItem`, `DumpItem.formed` — what is found, and the node that a form stands for.
* `DumpReader`              — reading, one character at a time.
* `ReadAs`, `readAs_form`   — texts that are read as items, and forms made of them.
* `Expr.Like.exists_readAs`, `Stmt.Like.exists_readAs` — dumps of trees.
* `Stmt.AllLike.map_ofDump` — the dumps of statements read back.
-/

namespace Scriptlet

open Scriptlet.Number

-- ---------------------------------------------------------------------------
-- Leaves
-- ---------------------------------------------------------------------------

/-- The kinds of the operators of unary, binary and logical nodes. -/
def operatorKinds : List TokenKind := [.bang, .andKw, .orKw] ++ binaryKinds

/-- The operators as they are spelled. -/
def operators : List (String × TokenKind) :=
  (fixedTokens.map (fun entry => (String.ofList entry.1, entry.2)) ++ keywords).filter
    fun entry => operatorKinds.contains entry.2

/-- The operator of a spelling. -/
def operator? (text : String) : Option Token :=
  (operators.lookup text).map fun kind => { kind, lexeme := text, line := 0 }

/-- The identifier of a spelling. -/
def nameToken (text : String) : Token where
  kind := .identifier
  lexeme := text
  line := 0

/-- The value that is shown by a text: a string if it can be nothing else. -/
def Value.ofShown (text : String) : Value :=
  if text = "nil" then .nil
  else if text = "true" then .bool true
  else if text = "false" then .bool false
  else ((shownNumber? text.toList).map .number).getD (.text text)

/-- A text that is one word of a dump, and not the one that makes a variable of the next. -/
structure IsWord (text : String) : Prop where
  ne_empty : text ≠ ""
  ne_var : text ≠ "var"
  plain : ∀ c ∈ text.toList, c ∉ [' ', '(', ')']

/-- A value is shown as one word and known from it. -/
structure Value.KnownFromShown (v : Value) : Prop where
  word : IsWord v.shown
  ofShown : Value.ofShown v.shown = v

/-- A token, and the value it stands for, is known but for its line from what a dump shows of it. -/
structure Token.KnownFromDump (t : Token) : Prop where
  operator : t.kind ∈ operatorKinds → IsWord t.lexeme ∧ operator? t.lexeme = some t.withoutLine
  name : t.kind = .identifier → IsWord t.lexeme ∧ nameToken t.lexeme = t.withoutLine
  literal : t.kind = .number ∨ t.kind = .string → t.literal.KnownFromShown

-- ---------------------------------------------------------------------------
-- The reader
-- ---------------------------------------------------------------------------

/-- What is found in a dump: a word, or the tree that a form or a variable stands for. -/
inductive DumpItem where
  | word (text : String)
  | expr (e : Expr)
  | stmt (s : Stmt)

namespace DumpItem

/-- An item as an expression; a word is a literal. -/
def toExpr : DumpItem → Expr
  | word text => .literal (Value.ofShown text)
  | expr e => e
  | stmt s => .stray (Stray.ofStmt s)

/-- An item as a statement. -/
def toStmt : DumpItem → Stmt
  | word text => .stray (Stray.ofExpr (.literal (Value.ofShown text)))
  | expr e => .stray (Stray.ofExpr e)
  | stmt s => s

/-- The node of an operator and its operands. -/
def operation (o : Token) : List DumpItem → DumpItem
  | [a] => expr (.unary o a.toExpr)
  | [a, b] =>
    if o.kind = .andKw ∨ o.kind = .orKw then expr (.logical a.toExpr o b.toExpr)
    else expr (.binary a.toExpr o b.toExpr)
  | _ => word ""

/-- The node of a form that starts with a word other than an operator. -/
def node (head : String) (parts : List DumpItem) : DumpItem :=
  match head, parts with
  | "group", [e] => expr (.grouping e.toExpr)
  | "assign", [word n, e] => expr (.assign (nameToken n) e.toExpr)
  | "expr", [e] => stmt (.expression e.toExpr)
  | "print", [e] => stmt (.print e.toExpr)
  | "block", body => stmt (.block (body.map toStmt))
  | "if", [c, s] => stmt (.ifElse c.toExpr s.toStmt none)
  | "if", [c, s, other] => stmt (.ifElse c.toExpr s.toStmt (some other.toStmt))
  | "while", [c, s] => stmt (.whileLoop c.toExpr s.toStmt)
  | _, _ => word ""

/-- What the items between two parentheses stand for; an empty word if that is nothing. -/
def formed : List DumpItem → DumpItem
  | word head :: parts =>
    match operator? head with
    | some o => operation o parts
    | none => node head parts
  | [expr (.variable n)] => stmt (.varDecl n none)
  | [expr (.variable n), e] => stmt (.varDecl n (some e.toExpr))
  | _ => word ""

/-- A word in front of the items found so far. -/
def cons (text : String) : List DumpItem → List DumpItem
  | word n :: rest =>
    if text = "var" then expr (.variable (nameToken n)) :: rest else word text :: word n :: rest
  | items => word text :: items

end DumpItem

/-- A place in a dump that is read from its end. -/
structure DumpReader where
  /-- The word that the cursor may stand in. -/
  word : List Char := []
  /-- What was found behind it in the same form. -/
  items : List DumpItem := []
  /-- What was found behind the forms around it, the innermost first. -/
  outer : List (List DumpItem) := []

namespace DumpReader

/-- The word that the cursor stood in is complete. -/
def flush (r : DumpReader) : DumpReader :=
  if r.word = [] then r
  else { r with word := [], items := DumpItem.cons (String.ofList r.word) r.items }

/-- Moves the cursor over a character. -/
def read (c : Char) (r : DumpReader) : DumpReader :=
  if c = ' ' then r.flush
  else if c = ')' then { outer := r.flush.items :: r.flush.outer }
  else if c = '(' then
    { items := .formed r.flush.items :: r.flush.outer.headD [], outer := r.flush.outer.tail }
  else { r with word := c :: r.word }

/-- Items that were found in front of all others. -/
def push (r : DumpReader) (items : List DumpItem) : DumpReader :=
  { r with items := items ++ r.items }

theorem push_push (r : DumpReader) (items later : List DumpItem) :
    (r.push later).push items = r.push (items ++ later) := by
  rw [push, push, push, List.append_assoc]

end DumpReader

/-- The item that a dump is read as. -/
def DumpItem.ofDump (text : String) : DumpItem :=
  (text.toList.foldr DumpReader.read {}).flush.items.headD (.word "")

-- ---------------------------------------------------------------------------
-- Texts that are read
-- ---------------------------------------------------------------------------

/-- In front of a space, a closing parenthesis or the end of a dump, the text is these items. -/
def ReadAs (text : String) (items : List DumpItem) : Prop :=
  ∀ r : DumpReader, r.word = [] → (text.toList.foldr DumpReader.read r).flush = r.push items

theorem ReadAs.ofDump {text : String} {item : DumpItem} (h : ReadAs text [item]) :
    DumpItem.ofDump text = item := by
  rw [DumpItem.ofDump, h {} rfl]
  rfl

theorem flush_of_word_eq_nil {r : DumpReader} (h : r.word = []) : r.flush = r := if_pos h

theorem foldr_read_plain {cs : List Char} (h : ∀ c ∈ cs, c ∉ [' ', '(', ')']) (r : DumpReader) :
    cs.foldr DumpReader.read r = { r with word := cs ++ r.word } := by
  induction cs with
  | nil => rfl
  | cons c cs ih =>
    obtain ⟨hFirst, hRest⟩ := List.forall_mem_cons.mp h
    simp only [List.mem_cons, List.not_mem_nil, or_false, not_or] at hFirst
    rw [List.foldr_cons, ih hRest, DumpReader.read, if_neg hFirst.1, if_neg hFirst.2.2,
      if_neg hFirst.2.1]
    rfl

theorem flush_foldr_read_plain {text : String} (hSome : text ≠ "")
    (h : ∀ c ∈ text.toList, c ∉ [' ', '(', ')']) {r : DumpReader} (hWord : r.word = []) :
    (text.toList.foldr DumpReader.read r).flush =
      { r with items := DumpItem.cons text r.items } := by
  have hNotNil : text.toList ≠ [] := fun hNil => hSome (String.toList_eq_nil_iff.mp hNil)
  rw [foldr_read_plain h, hWord, List.append_nil, DumpReader.flush, if_neg hNotNil,
    String.ofList_toList, ← hWord]

theorem cons_of_ne_var {text : String} (h : text ≠ "var") (items : List DumpItem) :
    DumpItem.cons text items = .word text :: items := by
  unfold DumpItem.cons
  split
  · rw [if_neg h]
  · rfl

theorem readAs_word {text : String} (h : IsWord text) : ReadAs text [.word text] := by
  intro r hWord
  rw [flush_foldr_read_plain h.ne_empty h.plain hWord, cons_of_ne_var h.ne_var]
  rfl

/-- A space completes the items behind it. -/
theorem foldr_read_space {text : String} {items : List DumpItem} (h : ReadAs text items)
    {r : DumpReader} (hWord : r.word = []) :
    (' ' :: text.toList).foldr DumpReader.read r = r.push items := by
  rw [List.foldr_cons, ← h r hWord]
  rfl

theorem readAs_append_space {text after : String} {items later : List DumpItem}
    (h : ReadAs text items) (hAfter : ReadAs after later) :
    ReadAs (text ++ " " ++ after) (items ++ later) := by
  intro r hWord
  have hText : (text ++ " " ++ after).toList = text.toList ++ ' ' :: after.toList := by simp
  have hPushed : (r.push later).word = [] := hWord
  rw [hText, List.foldr_append, foldr_read_space hAfter hWord, h _ hPushed, DumpReader.push_push]

theorem readAs_variable {name : String} (h : IsWord name) :
    ReadAs ("var " ++ name) [.expr (.variable (nameToken name))] := by
  intro r hWord
  have hText : ("var " ++ name).toList = "var".toList ++ ' ' :: name.toList := by simp
  have hPushed : (r.push [.word name]).word = [] := hWord
  rw [hText, List.foldr_append, foldr_read_space (readAs_word h) hWord,
    flush_foldr_read_plain (by decide) (by simp) hPushed]
  rfl

/-- Parts with a space in front of each. -/
theorem foldr_read_parts {parts : List String} {items : List DumpItem}
    (h : List.Forall₂ (fun part item => ReadAs part [item]) parts items) {r : DumpReader}
    (hWord : r.word = []) :
    (parts.flatMap fun part => ' ' :: part.toList).foldr DumpReader.read r = r.push items := by
  induction h with
  | nil => rfl
  | @cons part item parts items hFirst hRest ih =>
    have hPushed : (r.push items).word = [] := hWord
    rw [List.flatMap_cons, List.foldr_append, ih, foldr_read_space hFirst hPushed,
      DumpReader.push_push, List.singleton_append]

theorem toList_form (head : String) (parts : List String) :
    (form head parts).toList =
      '(' :: (head.toList ++ ((parts.flatMap fun part => ' ' :: part.toList) ++ [')'])) := by
  have hParts : (String.join (parts.map (" " ++ ·))).toList =
      parts.flatMap fun part => ' ' :: part.toList := by
    rw [String.toList_join, List.flatMap_map]
    congr 1
    funext part
    rw [String.toList_append]
    rfl
  rw [form, String.toList_append, String.toList_append, String.toList_append, hParts]
  simp

/-- A form is read as the node that its head and its parts stand for. -/
theorem readAs_form {head : String} {front items : List DumpItem} {parts : List String}
    (hHead : ReadAs head front)
    (hParts : List.Forall₂ (fun part item => ReadAs part [item]) parts items) :
    ReadAs (form head parts) [.formed (front ++ items)] := by
  intro r hWord
  let inner : DumpReader := { outer := r.items :: r.outer }
  have hClose : r.read ')' = inner := by
    show ({ outer := r.flush.items :: r.flush.outer } : DumpReader) = inner
    rw [flush_of_word_eq_nil hWord]
  have hPushed : (inner.push items).word = [] := rfl
  have hOpen (reader : DumpReader) : reader.read '(' =
      { items := .formed reader.flush.items :: reader.flush.outer.headD [],
        outer := reader.flush.outer.tail } := rfl
  rw [toList_form, List.foldr_cons, List.foldr_append, List.foldr_append, List.foldr_cons,
    List.foldr_nil, hClose, foldr_read_parts hParts rfl, hOpen, hHead _ hPushed,
    DumpReader.push_push, flush_of_word_eq_nil rfl]
  simp [DumpReader.push, inner, hWord]

-- ---------------------------------------------------------------------------
-- Nodes
-- ---------------------------------------------------------------------------

/-- A form whose head is an operator. -/
theorem formed_of_operator {text : String} {o : Token} (h : operator? text = some o)
    (parts : List DumpItem) :
    DumpItem.formed (.word text :: parts) = DumpItem.operation o parts := by
  rw [DumpItem.formed, h]

/-- A form whose head is a word that is no operator. -/
theorem formed_of_word {text : String} (h : operator? text = none) (parts : List DumpItem) :
    DumpItem.formed (.word text :: parts) = DumpItem.node text parts := by
  rw [DumpItem.formed, h]

/-- The heads that the language has no operators for. -/
theorem isWord_of_mem_heads :
    ∀ head ∈ ["group", "assign", "expr", "print", "block", "if", "while"],
      IsWord head ∧ operator? head = none := by
  have hNone : ∀ head ∈ ["group", "assign", "expr", "print", "block", "if", "while"],
      operator? head = none := by decide +kernel
  intro head hHead
  refine ⟨⟨?_, ?_, ?_⟩, hNone head hHead⟩
  all_goals
    simp only [List.mem_cons, List.not_mem_nil, or_false] at hHead
    rcases hHead with rfl | rfl | rfl | rfl | rfl | rfl | rfl
  all_goals simp

/-- A form with one of these heads. -/
theorem readAs_node {head : String}
    (hHead : head ∈ ["group", "assign", "expr", "print", "block", "if", "while"])
    {items : List DumpItem} {parts : List String}
    (hParts : List.Forall₂ (fun part item => ReadAs part [item]) parts items) :
    ReadAs (form head parts) [.node head items] := by
  obtain ⟨hWord, hNone⟩ := isWord_of_mem_heads head hHead
  rw [← formed_of_word hNone]
  exact readAs_form (readAs_word hWord) hParts

theorem readAs_assign {name text : String} {item : DumpItem} (hName : IsWord name)
    (hValue : ReadAs text [item]) :
    ReadAs (form ("assign " ++ name) [text]) [.expr (.assign (nameToken name) item.toExpr)] := by
  obtain ⟨hWord, hNone⟩ := isWord_of_mem_heads "assign" (by simp)
  have hSpace : "assign " ++ name = "assign" ++ " " ++ name := congrArg (· ++ name) (by decide)
  have hForm := readAs_form (readAs_append_space (readAs_word hWord) (readAs_word hName))
    (.cons hValue .nil)
  rw [List.append_assoc, List.singleton_append, formed_of_word hNone] at hForm
  rw [hSpace]
  exact hForm

theorem readAs_operation {o : Token} (hKnown : o.KnownFromDump) (hKind : o.kind ∈ operatorKinds)
    {items : List DumpItem} {parts : List String}
    (hParts : List.Forall₂ (fun part item => ReadAs part [item]) parts items) :
    ReadAs (form o.lexeme parts) [.operation o.withoutLine items] := by
  obtain ⟨hWord, hOperator⟩ := hKnown.operator hKind
  rw [← formed_of_operator hOperator]
  exact readAs_form (readAs_word hWord) hParts

section

variable {alike : Token → Token → Prop} {value : Value → Value → Prop}

/-- The dump of an expression is read as that expression but for the lines. -/
theorem Expr.Like.exists_readAs (hToken : ∀ t u, alike t u → t.KnownFromDump)
    (hValue : ∀ v w, value v w → v.KnownFromShown) {e e' : Expr}
    (h : e.Like alike alike value e') (hProper : e.Proper) :
    ∃ text item, e.dump = .ok text ∧ ReadAs text [item] ∧
      item.toExpr = e.mapTokens Token.withoutLine Token.withoutLine := by
  induction h with
  | literal hLiteral =>
    have hKnown := hValue _ _ hLiteral
    refine ⟨_, _, rfl, readAs_word hKnown.word, ?_⟩
    exact congrArg Expr.literal hKnown.ofShown
  | grouping _ ih =>
    obtain ⟨text, item, hDump, hReads, hItem⟩ := ih hProper
    refine ⟨form "group" [text], .expr (.grouping item.toExpr), ?_, ?_, ?_⟩
    · rw [Expr.dump, hDump]
      rfl
    · exact readAs_node (by simp) (.cons hReads .nil)
    · rw [Expr.mapTokens, ← hItem]
      rfl
  | @unary o _ _ _ ho _ ih =>
    obtain ⟨text, item, hDump, hReads, hItem⟩ := ih hProper.2
    have hKind : o.kind ∈ operatorKinds := by
      rcases hProper.1 with hBang | hMinus
      · rw [hBang]
        decide
      · rw [hMinus]
        decide
    refine ⟨form o.lexeme [text], .expr (.unary o.withoutLine item.toExpr), ?_, ?_, ?_⟩
    · rw [Expr.dump, hDump]
      rfl
    · exact readAs_operation (hToken _ _ ho) hKind (.cons hReads .nil)
    · rw [Expr.mapTokens, ← hItem]
      rfl
  | @binary o _ _ _ _ _ ho _ _ ihLeft ihRight =>
    obtain ⟨left, leftItem, hLeft, hReadsLeft, hLeftItem⟩ := ihLeft hProper.2.1
    obtain ⟨right, rightItem, hRight, hReadsRight, hRightItem⟩ := ihRight hProper.2.2
    have hBinary : ∀ kind ∈ binaryKinds, ¬(kind = .andKw ∨ kind = .orKw) := by decide
    have hOther : ¬(o.withoutLine.kind = .andKw ∨ o.withoutLine.kind = .orKw) :=
      hBinary _ hProper.1
    have hReads := readAs_operation (hToken _ _ ho) (List.mem_append_right _ hProper.1)
      (.cons hReadsLeft (.cons hReadsRight .nil))
    rw [DumpItem.operation, if_neg hOther] at hReads
    refine ⟨form o.lexeme [left, right], _, ?_, hReads, ?_⟩
    · rw [Expr.dump, hLeft, hRight]
      rfl
    · rw [Expr.mapTokens, ← hLeftItem, ← hRightItem]
      rfl
  | @logical o _ _ _ _ _ ho _ _ ihLeft ihRight =>
    obtain ⟨left, leftItem, hLeft, hReadsLeft, hLeftItem⟩ := ihLeft hProper.2.1
    obtain ⟨right, rightItem, hRight, hReadsRight, hRightItem⟩ := ihRight hProper.2.2
    have hKind : o.kind ∈ operatorKinds := by
      rcases hProper.1 with hAnd | hOr
      · rw [hAnd]
        decide
      · rw [hOr]
        decide
    have hLogical : o.withoutLine.kind = .andKw ∨ o.withoutLine.kind = .orKw := hProper.1
    have hReads := readAs_operation (hToken _ _ ho) hKind
      (.cons hReadsLeft (.cons hReadsRight .nil))
    rw [DumpItem.operation, if_pos hLogical] at hReads
    refine ⟨form o.lexeme [left, right], _, ?_, hReads, ?_⟩
    · rw [Expr.dump, hLeft, hRight]
      rfl
    · rw [Expr.mapTokens, ← hLeftItem, ← hRightItem]
      rfl
  | «variable» hn =>
    obtain ⟨hWord, hName⟩ := (hToken _ _ hn).name hProper
    refine ⟨_, _, rfl, readAs_variable hWord, ?_⟩
    exact congrArg Expr.variable hName
  | @assign n _ _ _ hn _ ih =>
    obtain ⟨text, item, hDump, hReads, hItem⟩ := ih hProper.2
    obtain ⟨hWord, hName⟩ := (hToken _ _ hn).name hProper.1
    refine ⟨form ("assign " ++ n.lexeme) [text], _, ?_, readAs_assign hWord hReads, ?_⟩
    · rw [Expr.dump, hDump]
      rfl
    · rw [Expr.mapTokens, ← hItem, ← hName]
      rfl
  | stray node => exact hProper.elim

mutual

/-- The dump of a statement is read as that statement but for the lines. -/
theorem Stmt.Like.exists_readAs (hToken : ∀ t u, alike t u → t.KnownFromDump)
    (hValue : ∀ v w, value v w → v.KnownFromShown) :
    (s : Stmt) → {s' : Stmt} → s.Like alike alike value s' → s.Proper →
      ∃ text, s.dump = .ok text ∧
        ReadAs text [.stmt (s.mapTokens Token.withoutLine Token.withoutLine)]
  | .expression e, _, h, hProper => by
    cases h with
    | expression h =>
      obtain ⟨text, item, hDump, hReads, hItem⟩ := h.exists_readAs hToken hValue hProper
      refine ⟨form "expr" [text], ?_, ?_⟩
      · rw [Stmt.dump, hDump]
        rfl
      · rw [Stmt.mapTokens, ← hItem]
        exact readAs_node (by simp) (.cons hReads .nil)
  | .print e, _, h, hProper => by
    cases h with
    | print h =>
      obtain ⟨text, item, hDump, hReads, hItem⟩ := h.exists_readAs hToken hValue hProper
      refine ⟨form "print" [text], ?_, ?_⟩
      · rw [Stmt.dump, hDump]
        rfl
      · rw [Stmt.mapTokens, ← hItem]
        exact readAs_node (by simp) (.cons hReads .nil)
  | .varDecl n none, _, h, hProper => by
    cases h with
    | declaration hn =>
      obtain ⟨hWord, hName⟩ := (hToken _ _ hn).name hProper
      refine ⟨form ("var " ++ n.lexeme) [], rfl, ?_⟩
      rw [Stmt.mapTokens, ← hName]
      exact readAs_form (readAs_variable hWord) .nil
  | .varDecl n (some e), _, h, hProper => by
    cases h with
    | definition hn h =>
      obtain ⟨hWord, hName⟩ := (hToken _ _ hn).name hProper.1
      obtain ⟨text, item, hDump, hReads, hItem⟩ := h.exists_readAs hToken hValue hProper.2
      refine ⟨form ("var " ++ n.lexeme) [text], ?_, ?_⟩
      · rw [Stmt.dump, hDump]
        rfl
      · rw [Stmt.mapTokens, ← hName, ← hItem]
        exact readAs_form (readAs_variable hWord) (.cons hReads .nil)
  | .block body, _, h, hProper => by
    cases h with
    | block hBody =>
      obtain ⟨lines, hDump, hReads⟩ := Stmt.AllLike.exists_readAs hToken hValue body hBody hProper
      refine ⟨form "block" lines, ?_, ?_⟩
      · rw [Stmt.dump, hDump]
        rfl
      · have hItems (trees : List Stmt) : (trees.map DumpItem.stmt).map DumpItem.toStmt = trees := by
          rw [List.map_map]
          exact List.map_id trees
        rw [Stmt.mapTokens, ← hItems (Stmt.mapAllTokens _ _ body)]
        exact readAs_node (by simp) hReads
  | .ifElse condition thenBranch none, _, h, hProper => by
    cases h with
    | ifThen hCondition hThen =>
      obtain ⟨c, item, hc, hReads, hItem⟩ := hCondition.exists_readAs hToken hValue hProper.1
      obtain ⟨t, ht, hReadsThen⟩ :=
        Stmt.Like.exists_readAs hToken hValue thenBranch hThen hProper.2
      refine ⟨form "if" [c, t], ?_, ?_⟩
      · rw [Stmt.dump, hc, ht]
        rfl
      · rw [Stmt.mapTokens, ← hItem]
        exact readAs_node (by simp) (.cons hReads (.cons hReadsThen .nil))
  | .ifElse condition thenBranch (some elseBranch), _, h, hProper => by
    cases h with
    | ifElse hCondition hThen hElse =>
      obtain ⟨c, item, hc, hReads, hItem⟩ := hCondition.exists_readAs hToken hValue hProper.1
      obtain ⟨t, ht, hReadsThen⟩ :=
        Stmt.Like.exists_readAs hToken hValue thenBranch hThen hProper.2.1
      obtain ⟨e, he, hReadsElse⟩ :=
        Stmt.Like.exists_readAs hToken hValue elseBranch hElse hProper.2.2
      refine ⟨form "if" [c, t, e], ?_, ?_⟩
      · rw [Stmt.dump, hc, ht, he]
        rfl
      · rw [Stmt.mapTokens, ← hItem]
        exact readAs_node (by simp) (.cons hReads (.cons hReadsThen (.cons hReadsElse .nil)))
  | .whileLoop condition body, _, h, hProper => by
    cases h with
    | whileLoop hCondition hBody =>
      obtain ⟨c, item, hc, hReads, hItem⟩ := hCondition.exists_readAs hToken hValue hProper.1
      obtain ⟨b, hb, hReadsBody⟩ := Stmt.Like.exists_readAs hToken hValue body hBody hProper.2
      refine ⟨form "while" [c, b], ?_, ?_⟩
      · rw [Stmt.dump, hc, hb]
        rfl
      · rw [Stmt.mapTokens, ← hItem]
        exact readAs_node (by simp) (.cons hReads (.cons hReadsBody .nil))
  | .stray node, _, _, hProper => hProper.elim

theorem Stmt.AllLike.exists_readAs (hToken : ∀ t u, alike t u → t.KnownFromDump)
    (hValue : ∀ v w, value v w → v.KnownFromShown) :
    (statements : List Stmt) → {others : List Stmt} →
      Stmt.AllLike alike alike value statements others → Stmt.AllProper statements →
      ∃ lines, Stmt.dumpAll statements = .ok lines ∧
        List.Forall₂ (fun line item => ReadAs line [item]) lines
          ((Stmt.mapAllTokens Token.withoutLine Token.withoutLine statements).map .stmt)
  | [], _, _, _ => ⟨[], rfl, .nil⟩
  | s :: rest, _, h, hProper => by
    cases h with
    | cons hFirst hRest =>
      obtain ⟨line, hLine, hReads⟩ := Stmt.Like.exists_readAs hToken hValue s hFirst hProper.1
      obtain ⟨lines, hLines, hReadsAll⟩ :=
        Stmt.AllLike.exists_readAs hToken hValue rest hRest hProper.2
      refine ⟨line :: lines, ?_, .cons hReads hReadsAll⟩
      rw [Stmt.dumpAll, hLine, hLines]
      rfl

end

/-- The statement that a dump is read as. -/
def Stmt.ofDump (text : String) : Stmt := (DumpItem.ofDump text).toStmt

theorem map_ofDump_of_readAs {lines : List String} {trees : List Stmt}
    (h : List.Forall₂ (fun line item => ReadAs line [item]) lines (trees.map .stmt)) :
    lines.map Stmt.ofDump = trees := by
  rw [List.forall₂_map_right_iff] at h
  induction h with
  | nil => rfl
  | cons hFirst hRest ih =>
    rw [List.map_cons, ih, Stmt.ofDump, hFirst.ofDump]
    rfl

/-- The dumps of statements read back: they show all there is but the lines. -/
theorem Stmt.AllLike.map_ofDump (hToken : ∀ t u, alike t u → t.KnownFromDump)
    (hValue : ∀ v w, value v w → v.KnownFromShown) {statements others : List Stmt}
    (h : Stmt.AllLike alike alike value statements others) (hProper : Stmt.AllProper statements) :
    ∃ lines, Stmt.dumpAll statements = .ok lines ∧
      lines.map Stmt.ofDump =
        Stmt.mapAllTokens Token.withoutLine Token.withoutLine statements := by
  obtain ⟨lines, hDump, hReads⟩ := h.exists_readAs hToken hValue statements hProper
  exact ⟨lines, hDump, map_ofDump_of_readAs hReads⟩

end

end Scriptlet
