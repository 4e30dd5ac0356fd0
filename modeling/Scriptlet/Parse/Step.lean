import Scriptlet.Complaint
import Scriptlet.Token

/-!
# Scriptlet — steps of a parse

A step reads tokens from the front of a list. It is done with a value, or it
abandons the construct at some place because of a complaint, or it runs off a
list that no end-of-file token closes. The type keeps the two facts that a
recursive descent needs: what is left is always a suffix of the tokens given,
and a step that is done has read at least one of them.

## Results

* `Shorter`     — a suffix with fewer tokens.
* `Step`        — the outcome of reading from a list.
* `Step.andThen`, `Step.bind`, `Step.map`, `Step.within` — composition.
* `expect`      — reads one token of a kind.
-/

namespace Scriptlet.Parse

/-- A complaint about a token and the number of tokens from it to the end of the list. -/
structure Report where
  token : Token
  left : Nat
  complaint : Complaint

/-- The report of a complaint about a token, given the tokens behind it. -/
def report (t : Token) (rest : List Token) (complaint : Complaint) : Report where
  token := t
  left := rest.length + 1
  complaint := complaint

/-- What is left of a list after at least one token was read from its front. -/
abbrev Shorter (rest tokens : List Token) : Prop :=
  rest <:+ tokens ∧ rest.length < tokens.length

/-- The tail of a list is shorter. -/
theorem shorter_tail (t : Token) (rest : List Token) : Shorter rest (t :: rest) :=
  ⟨List.suffix_cons t rest, Nat.lt_succ_self _⟩

/-- What is left behind the next token is a suffix too. -/
theorem Shorter.tail {t : Token} {rest tokens : List Token} (h : Shorter (t :: rest) tokens) :
    rest <:+ tokens :=
  (List.suffix_cons t rest).trans h.1

/-- What is left of a suffix is left of the list. -/
theorem Shorter.trans_suffix {a b c : List Token} (h : Shorter a b) (hb : b <:+ c) : Shorter a c :=
  ⟨h.1.trans hb, Nat.lt_of_lt_of_le h.2 hb.length_le⟩

/-- A suffix of what is left is shorter too. -/
theorem Shorter.suffix_trans {a b c : List Token} (ha : a <:+ b) (h : Shorter b c) : Shorter a c :=
  ⟨ha.trans h.1, Nat.lt_of_le_of_lt ha.length_le h.2⟩

/-- The outcome of reading a value from the front of `tokens`. -/
inductive Step (α : Type) (tokens : List Token) where
  /-- A value was read. -/
  | done (value : α) (rest : List Token) (reports : List Report) (h : Shorter rest tokens)
  /-- The construct was given up in front of `rest`. -/
  | abandoned (rest : List Token) (reports : List Report) (h : rest <:+ tokens)
  /-- No token was left, not even one for the end of the file. -/
  | ranOff (reports : List Report)

namespace Step

variable {α β : Type} {tokens shorter : List Token}

/-- The reports of a step. -/
def reports : Step α tokens → List Report
  | done _ _ reports _ => reports
  | abandoned _ reports _ => reports
  | ranOff reports => reports

/-- A step with more reports in front. -/
def prepend (earlier : List Report) : Step α tokens → Step α tokens
  | done value rest reports h => done value rest (earlier ++ reports) h
  | abandoned rest reports h => abandoned rest (earlier ++ reports) h
  | ranOff reports => ranOff (earlier ++ reports)

/-- A step from a suffix, as a step from the whole list. -/
def within (h : shorter <:+ tokens) : Step α shorter → Step α tokens
  | done value rest reports hr => done value rest reports (hr.trans_suffix h)
  | abandoned rest reports hr => abandoned rest reports (hr.trans h)
  | ranOff reports => ranOff reports

/-- Goes on after a step that is done. -/
def andThen (first : Step α tokens)
    (next : (value : α) → (rest : List Token) → Shorter rest tokens → Step β tokens) :
    Step β tokens :=
  match first with
  | done value rest reports h => (next value rest h).prepend reports
  | abandoned rest reports h => abandoned rest reports h
  | ranOff reports => ranOff reports

/-- Goes on after a step that is done, from the tokens that it left. -/
def bind (first : Step α tokens)
    (next : (value : α) → (rest : List Token) → Shorter rest tokens → Step β rest) :
    Step β tokens :=
  first.andThen fun value rest h => (next value rest h).within h.1

/-- Changes the value. -/
def map (f : α → β) : Step α tokens → Step β tokens
  | done value rest reports h => done (f value) rest reports h
  | abandoned rest reports h => abandoned rest reports h
  | ranOff reports => ranOff reports

end Step

/-- Gives a construct up in front of the next token and complains about it. -/
def abandon {α : Type} (complaint : Complaint) : (tokens : List Token) → Step α tokens
  | [] => .ranOff []
  | t :: rest =>
    .abandoned (t :: rest) [report t rest complaint] List.suffix_rfl

/-- Reads the next token if it is of a kind, and otherwise gives up with a complaint. -/
def expect (kind : TokenKind) (complaint : Complaint) : (tokens : List Token) → Step Token tokens
  | [] => .ranOff []
  | t :: rest =>
    if t.is kind then .done t rest [] (shorter_tail t rest) else abandon complaint (t :: rest)

end Scriptlet.Parse
