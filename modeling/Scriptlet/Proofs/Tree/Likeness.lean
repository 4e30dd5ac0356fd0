import Mathlib.Data.List.Forall2
import Scriptlet.Proofs.Tree.MapTokens
import Scriptlet.Proofs.Tree.Names
import Scriptlet.Tree.Dump

/-!
# Scriptlet — trees of the same shape

Two trees of the same shape may hold other tokens and literals. What the leaves
of the one have to do with those of the other is left to three relations, one
for operators, one for names and one for literals; the trees are alike if the
leaves at every place are. A node out of place is like itself only.

## Results

* `Expr.Like`, `Stmt.Like`, `Stmt.AllLike` — trees alike in all leaves.
* `like_mapTokens`, `allLike_mapAllTokens` — trees with their tokens replaced.
* `Like.mapTokens_eq`, `AllLike.mapAllTokens_eq` — trees that become the same.
* `Like.dump_eq`, `AllLike.dumpAll_eq` — trees with the same dump.
-/

namespace Scriptlet

-- ---------------------------------------------------------------------------
-- Trees
-- ---------------------------------------------------------------------------

section

variable (operator name : Token → Token → Prop) (value : Value → Value → Prop)

/-- Expressions of the same shape with leaves that are alike. -/
inductive Expr.Like : Expr → Expr → Prop where
  | literal {v w : Value} (hValue : value v w) : Like (.literal v) (.literal w)
  | grouping {e e' : Expr} (hInner : Like e e') : Like (.grouping e) (.grouping e')
  | unary {o o' : Token} {e e' : Expr} (hOperator : operator o o') (hOperand : Like e e') :
      Like (.unary o e) (.unary o' e')
  | binary {o o' : Token} {left left' right right' : Expr} (hOperator : operator o o')
      (hLeft : Like left left') (hRight : Like right right') :
      Like (.binary left o right) (.binary left' o' right')
  | logical {o o' : Token} {left left' right right' : Expr} (hOperator : operator o o')
      (hLeft : Like left left') (hRight : Like right right') :
      Like (.logical left o right) (.logical left' o' right')
  | variable {n n' : Token} (hName : name n n') : Like (.variable n) (.variable n')
  | assign {n n' : Token} {e e' : Expr} (hName : name n n') (hValue : Like e e') :
      Like (.assign n e) (.assign n' e')
  | stray (node : Stray) : Like (.stray node) (.stray node)

/-- Statements of the same shape with leaves that are alike. -/
inductive Stmt.Like : Stmt → Stmt → Prop where
  | expression {e e' : Expr} (h : e.Like operator name value e') :
      Like (.expression e) (.expression e')
  | print {e e' : Expr} (h : e.Like operator name value e') : Like (.print e) (.print e')
  | declaration {n n' : Token} (hName : name n n') : Like (.varDecl n none) (.varDecl n' none)
  | definition {n n' : Token} {e e' : Expr} (hName : name n n')
      (hValue : e.Like operator name value e') : Like (.varDecl n (some e)) (.varDecl n' (some e'))
  | block {body body' : List Stmt} (hBody : List.Forall₂ Like body body') :
      Like (.block body) (.block body')
  | ifThen {e e' : Expr} {s s' : Stmt} (hCondition : e.Like operator name value e')
      (hThen : Like s s') : Like (.ifElse e s none) (.ifElse e' s' none)
  | ifElse {e e' : Expr} {s s' other other' : Stmt} (hCondition : e.Like operator name value e')
      (hThen : Like s s') (hElse : Like other other') :
      Like (.ifElse e s (some other)) (.ifElse e' s' (some other'))
  | whileLoop {e e' : Expr} {s s' : Stmt} (hCondition : e.Like operator name value e')
      (hBody : Like s s') : Like (.whileLoop e s) (.whileLoop e' s')
  | stray (node : Stray) : Like (.stray node) (.stray node)

/-- As many statements, each like the one at its place. -/
abbrev Stmt.AllLike : List Stmt → List Stmt → Prop :=
  List.Forall₂ (Stmt.Like operator name value)

end

-- ---------------------------------------------------------------------------
-- Replaced tokens
-- ---------------------------------------------------------------------------

section

variable {operator name : Token → Token → Prop} {f g : Token → Token}

/-- It is enough that the names that occur are like what they are replaced by. -/
theorem Expr.like_mapTokens (hOperator : ∀ t, operator t (f t)) {e : Expr}
    (hName : ∀ t, t.lexeme ∈ e.names → name t (g t)) :
    e.Like operator name Eq (e.mapTokens f g) := by
  induction e with
  | literal value => exact .literal rfl
  | grouping inner ih => exact .grouping (ih hName)
  | unary o operand ih => exact .unary (hOperator o) (ih hName)
  | binary left o right ihLeft ihRight =>
    exact .binary (hOperator o) (ihLeft fun t ht => hName t (List.mem_append_left _ ht))
      (ihRight fun t ht => hName t (List.mem_append_right _ ht))
  | logical left o right ihLeft ihRight =>
    exact .logical (hOperator o) (ihLeft fun t ht => hName t (List.mem_append_left _ ht))
      (ihRight fun t ht => hName t (List.mem_append_right _ ht))
  | «variable» n => exact .variable (hName n (List.mem_singleton_self _))
  | assign n value ih =>
    exact .assign (hName n (List.mem_cons_self ..))
      (ih fun t ht => hName t (List.mem_cons_of_mem _ ht))
  | stray node => exact .stray node

mutual

theorem Stmt.like_mapTokens (hOperator : ∀ t, operator t (f t)) :
    (s : Stmt) → (∀ t, t.lexeme ∈ s.names → name t (g t)) →
      s.Like operator name Eq (s.mapTokens f g)
  | .expression e, h => .expression (Expr.like_mapTokens hOperator h)
  | .print e, h => .print (Expr.like_mapTokens hOperator h)
  | .varDecl n none, h => .declaration (h n (List.mem_singleton_self _))
  | .varDecl n (some e), h =>
    .definition (h n (List.mem_cons_self ..))
      (Expr.like_mapTokens hOperator fun t ht => h t (List.mem_cons_of_mem _ ht))
  | .block body, h => .block (Stmt.allLike_mapAllTokens hOperator body h)
  | .ifElse condition thenBranch none, h =>
    .ifThen (Expr.like_mapTokens hOperator fun t ht => h t (List.mem_append_left _ ht))
      (Stmt.like_mapTokens hOperator thenBranch fun t ht => h t (List.mem_append_right _ ht))
  | .ifElse condition thenBranch (some elseBranch), h => by
    have hBranches : ∀ t, t.lexeme ∈ thenBranch.names ++ elseBranch.names → name t (g t) :=
      fun t ht => h t (List.mem_append_right _ ht)
    exact .ifElse (Expr.like_mapTokens hOperator fun t ht => h t (List.mem_append_left _ ht))
      (Stmt.like_mapTokens hOperator thenBranch fun t ht =>
        hBranches t (List.mem_append_left _ ht))
      (Stmt.like_mapTokens hOperator elseBranch fun t ht =>
        hBranches t (List.mem_append_right _ ht))
  | .whileLoop condition body, h =>
    .whileLoop (Expr.like_mapTokens hOperator fun t ht => h t (List.mem_append_left _ ht))
      (Stmt.like_mapTokens hOperator body fun t ht => h t (List.mem_append_right _ ht))
  | .stray node, _ => .stray node

theorem Stmt.allLike_mapAllTokens (hOperator : ∀ t, operator t (f t)) :
    (statements : List Stmt) → (∀ t, t.lexeme ∈ Stmt.allNames statements → name t (g t)) →
      Stmt.AllLike operator name Eq statements (Stmt.mapAllTokens f g statements)
  | [], _ => .nil
  | s :: rest, h =>
    .cons (Stmt.like_mapTokens hOperator s fun t ht => h t (List.mem_append_left _ ht))
      (Stmt.allLike_mapAllTokens hOperator rest fun t ht => h t (List.mem_append_right _ ht))

end

/-- A token as another that a function makes of it. -/
abbrev Token.Becomes (f : Token → Token) (t u : Token) : Prop := u = f t

theorem Stmt.allLike_becomes (f g : Token → Token) (statements : List Stmt) :
    Stmt.AllLike (Token.Becomes f) (Token.Becomes g) Eq statements
      (Stmt.mapAllTokens f g statements) := by
  have hBecomes : ∀ (h : Token → Token) (t : Token), Token.Becomes h t (h t) := fun _ _ => rfl
  exact Stmt.allLike_mapAllTokens (hBecomes f) statements fun t _ => hBecomes g t

/-- Statements are like themselves if their names are. -/
theorem Stmt.allLike_self (hOperator : ∀ t, operator t t) {statements : List Stmt}
    (hName : ∀ t, t.lexeme ∈ Stmt.allNames statements → name t t) :
    Stmt.AllLike operator name Eq statements statements := by
  have hLike : Stmt.AllLike operator name Eq statements (Stmt.mapAllTokens id id statements) :=
    Stmt.allLike_mapAllTokens hOperator statements hName
  rwa [Stmt.mapAllTokens_id] at hLike

end

-- ---------------------------------------------------------------------------
-- Trees that become the same
-- ---------------------------------------------------------------------------

section

variable {operator name : Token → Token → Prop} {f g : Token → Token}

/-- Trees are the same once what they differ in is replaced by something they agree in. -/
theorem Expr.Like.mapTokens_eq (hOperator : ∀ t u, operator t u → f t = f u)
    (hName : ∀ t u, name t u → g t = g u) {e e' : Expr} (h : e.Like operator name Eq e') :
    e.mapTokens f g = e'.mapTokens f g := by
  induction h with
  | literal hValue => rw [hValue]
  | grouping _ ih => rw [Expr.mapTokens, Expr.mapTokens, ih]
  | unary ho _ ih => rw [Expr.mapTokens, Expr.mapTokens, hOperator _ _ ho, ih]
  | binary ho _ _ ihLeft ihRight =>
    rw [Expr.mapTokens, Expr.mapTokens, hOperator _ _ ho, ihLeft, ihRight]
  | logical ho _ _ ihLeft ihRight =>
    rw [Expr.mapTokens, Expr.mapTokens, hOperator _ _ ho, ihLeft, ihRight]
  | «variable» hn => rw [Expr.mapTokens, Expr.mapTokens, hName _ _ hn]
  | assign hn _ ih => rw [Expr.mapTokens, Expr.mapTokens, hName _ _ hn, ih]
  | stray node => rfl

mutual

theorem Stmt.Like.mapTokens_eq (hOperator : ∀ t u, operator t u → f t = f u)
    (hName : ∀ t u, name t u → g t = g u) :
    (s : Stmt) → {s' : Stmt} → s.Like operator name Eq s' → s.mapTokens f g = s'.mapTokens f g
  | .expression e, _, h => by
    cases h with
    | expression h => rw [Stmt.mapTokens, Stmt.mapTokens, h.mapTokens_eq hOperator hName]
  | .print e, _, h => by
    cases h with
    | print h => rw [Stmt.mapTokens, Stmt.mapTokens, h.mapTokens_eq hOperator hName]
  | .varDecl n initializer, _, h => by
    cases h with
    | declaration hn => rw [Stmt.mapTokens, Stmt.mapTokens, hName _ _ hn]
    | definition hn hValue =>
      rw [Stmt.mapTokens, Stmt.mapTokens, hName _ _ hn, hValue.mapTokens_eq hOperator hName]
  | .block body, _, h => by
    cases h with
    | block hBody =>
      rw [Stmt.mapTokens, Stmt.mapTokens, Stmt.AllLike.mapAllTokens_eq hOperator hName body hBody]
  | .ifElse condition thenBranch none, _, h => by
    cases h with
    | ifThen hCondition hThen =>
      rw [Stmt.mapTokens, Stmt.mapTokens, hCondition.mapTokens_eq hOperator hName,
        Stmt.Like.mapTokens_eq hOperator hName thenBranch hThen]
  | .ifElse condition thenBranch (some elseBranch), _, h => by
    cases h with
    | ifElse hCondition hThen hElse =>
      rw [Stmt.mapTokens, Stmt.mapTokens, hCondition.mapTokens_eq hOperator hName,
        Stmt.Like.mapTokens_eq hOperator hName thenBranch hThen,
        Stmt.Like.mapTokens_eq hOperator hName elseBranch hElse]
  | .whileLoop condition body, _, h => by
    cases h with
    | whileLoop hCondition hBody =>
      rw [Stmt.mapTokens, Stmt.mapTokens, hCondition.mapTokens_eq hOperator hName,
        Stmt.Like.mapTokens_eq hOperator hName body hBody]
  | .stray node, _, h => by
    cases h
    rfl

theorem Stmt.AllLike.mapAllTokens_eq (hOperator : ∀ t u, operator t u → f t = f u)
    (hName : ∀ t u, name t u → g t = g u) :
    (statements : List Stmt) → {others : List Stmt} →
      Stmt.AllLike operator name Eq statements others →
        Stmt.mapAllTokens f g statements = Stmt.mapAllTokens f g others
  | [], _, h => by
    cases h
    rfl
  | s :: rest, _, h => by
    cases h with
    | cons hFirst hRest =>
      rw [Stmt.mapAllTokens, Stmt.mapAllTokens, Stmt.Like.mapTokens_eq hOperator hName s hFirst,
        Stmt.AllLike.mapAllTokens_eq hOperator hName rest hRest]

end

end

-- ---------------------------------------------------------------------------
-- Dumps
-- ---------------------------------------------------------------------------

section

variable {operator name : Token → Token → Prop}

/-- A dump shows the text of tokens and the values of literals. -/
theorem Expr.Like.dump_eq (hOperator : ∀ t u, operator t u → t.lexeme = u.lexeme)
    (hName : ∀ t u, name t u → t.lexeme = u.lexeme) {e e' : Expr}
    (h : e.Like operator name Eq e') : e.dump = e'.dump := by
  induction h with
  | literal hValue => rw [hValue]
  | grouping _ ih => rw [Expr.dump, Expr.dump, ih]
  | unary ho _ ih => rw [Expr.dump, Expr.dump, hOperator _ _ ho, ih]
  | binary ho _ _ ihLeft ihRight => rw [Expr.dump, Expr.dump, hOperator _ _ ho, ihLeft, ihRight]
  | logical ho _ _ ihLeft ihRight => rw [Expr.dump, Expr.dump, hOperator _ _ ho, ihLeft, ihRight]
  | «variable» hn => rw [Expr.dump, Expr.dump, hName _ _ hn]
  | assign hn _ ih => rw [Expr.dump, Expr.dump, hName _ _ hn, ih]
  | stray node => rfl

mutual

theorem Stmt.Like.dump_eq (hOperator : ∀ t u, operator t u → t.lexeme = u.lexeme)
    (hName : ∀ t u, name t u → t.lexeme = u.lexeme) :
    (s : Stmt) → {s' : Stmt} → s.Like operator name Eq s' → s.dump = s'.dump
  | .expression e, _, h => by
    cases h with
    | expression h => rw [Stmt.dump, Stmt.dump, h.dump_eq hOperator hName]
  | .print e, _, h => by
    cases h with
    | print h => rw [Stmt.dump, Stmt.dump, h.dump_eq hOperator hName]
  | .varDecl n initializer, _, h => by
    cases h with
    | declaration hn => rw [Stmt.dump, Stmt.dump, hName _ _ hn]
    | definition hn hValue =>
      rw [Stmt.dump, Stmt.dump, hName _ _ hn, hValue.dump_eq hOperator hName]
  | .block body, _, h => by
    cases h with
    | block hBody =>
      rw [Stmt.dump, Stmt.dump, Stmt.AllLike.dumpAll_eq hOperator hName body hBody]
  | .ifElse condition thenBranch none, _, h => by
    cases h with
    | ifThen hCondition hThen =>
      rw [Stmt.dump, Stmt.dump, hCondition.dump_eq hOperator hName,
        Stmt.Like.dump_eq hOperator hName thenBranch hThen]
  | .ifElse condition thenBranch (some elseBranch), _, h => by
    cases h with
    | ifElse hCondition hThen hElse =>
      rw [Stmt.dump, Stmt.dump, hCondition.dump_eq hOperator hName,
        Stmt.Like.dump_eq hOperator hName thenBranch hThen,
        Stmt.Like.dump_eq hOperator hName elseBranch hElse]
  | .whileLoop condition body, _, h => by
    cases h with
    | whileLoop hCondition hBody =>
      rw [Stmt.dump, Stmt.dump, hCondition.dump_eq hOperator hName,
        Stmt.Like.dump_eq hOperator hName body hBody]
  | .stray node, _, h => by
    cases h
    rfl

theorem Stmt.AllLike.dumpAll_eq (hOperator : ∀ t u, operator t u → t.lexeme = u.lexeme)
    (hName : ∀ t u, name t u → t.lexeme = u.lexeme) :
    (statements : List Stmt) → {others : List Stmt} →
      Stmt.AllLike operator name Eq statements others →
        Stmt.dumpAll statements = Stmt.dumpAll others
  | [], _, h => by
    cases h
    rfl
  | s :: rest, _, h => by
    cases h with
    | cons hFirst hRest =>
      rw [Stmt.dumpAll, Stmt.dumpAll, Stmt.Like.dump_eq hOperator hName s hFirst,
        Stmt.AllLike.dumpAll_eq hOperator hName rest hRest]

end

end

end Scriptlet
