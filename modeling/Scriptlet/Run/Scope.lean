import Scriptlet.Value

/-!
# Scriptlet — scopes

A scope binds names to values and lists them in the order of their first
definition. A chain of scopes, the innermost first, resolves a name to the
nearest scope that binds it.

## Results

* `Scope.define`        — binds a name, in place if it is bound already.
* `lookupIn`            — the value of a name in a chain.
* `assignIn`            — rebinds a name in the nearest scope that binds it.
* `get?_define`         — a definition is what a look-up of its name finds.
* `names_define`        — a definition keeps the order of the names.
* `binds_iff`           — a scope binds the names that it lists.
* `isSome_assignIn`     — assigning succeeds exactly where looking up does.
-/

namespace Scriptlet

/-- The bindings of one scope, in the order of first definition. -/
structure Scope where
  bindings : List (String × Value) := []
  deriving Inhabited

/-- Binds a name in a list of bindings: in place if it is there, and else at the end. -/
def bindName (name : String) (value : Value) : List (String × Value) → List (String × Value)
  | [] => [(name, value)]
  | (n, v) :: rest =>
    if n = name then (n, value) :: rest else (n, v) :: bindName name value rest

namespace Scope

/-- The names of a scope, in the order of first definition. -/
def names (s : Scope) : List String := s.bindings.map (·.1)

/-- The value of a name. -/
def get? (s : Scope) (name : String) : Option Value := s.bindings.lookup name

/-- Whether a name is bound. -/
def binds (s : Scope) (name : String) : Bool := (s.get? name).isSome

/-- Binds a name. -/
def define (s : Scope) (name : String) (value : Value) : Scope :=
  { bindings := bindName name value s.bindings }

end Scope

/-- The value of a name in the nearest scope of a chain that binds it. -/
def lookupIn (scopes : List Scope) (name : String) : Option Value :=
  scopes.findSome? (·.get? name)

/-- Rebinds a name in the nearest scope of a chain that binds it, if there is one. -/
def assignIn (name : String) (value : Value) : List Scope → Option (List Scope)
  | [] => none
  | s :: rest =>
    if s.binds name then some (s.define name value :: rest)
    else (assignIn name value rest).map (s :: ·)

-- ---------------------------------------------------------------------------
-- Laws
-- ---------------------------------------------------------------------------

theorem lookup_bindName (name other : String) (value : Value) (bs : List (String × Value)) :
    (bindName name value bs).lookup other
      = if other = name then some value else bs.lookup other := by
  induction bs with
  | nil =>
    by_cases h : other = name
    · simp [bindName, h]
    · simp [bindName, h]
  | cons b rest ih =>
    obtain ⟨n, v⟩ := b
    by_cases hn : n = name
    · subst hn
      by_cases h : other = n
      · simp [bindName, h]
      · simp [bindName, h, List.lookup_cons, beq_eq_false_iff_ne.mpr h]
    · rw [bindName, if_neg hn, List.lookup_cons, List.lookup_cons, ih]
      by_cases h : other = n
      · subst h
        simp [hn]
      · simp [beq_eq_false_iff_ne.mpr h]

/-- A definition is what a look-up of its name finds; other names keep their values. -/
theorem Scope.get?_define (s : Scope) (name other : String) (value : Value) :
    (s.define name value).get? other = if other = name then some value else s.get? other :=
  lookup_bindName name other value s.bindings

theorem map_fst_bindName (name : String) (value : Value) (bs : List (String × Value)) :
    (bindName name value bs).map (·.1)
      = if name ∈ bs.map (·.1) then bs.map (·.1) else bs.map (·.1) ++ [name] := by
  induction bs with
  | nil => simp [bindName]
  | cons b rest ih =>
    obtain ⟨n, v⟩ := b
    by_cases hn : n = name
    · simp [bindName, hn]
    · rw [bindName, if_neg hn, List.map_cons, ih]
      by_cases hmem : name ∈ rest.map (·.1)
      · simp [hmem]
      · have : name ∉ ((n, v) :: rest).map (·.1) := by
          simp only [List.map_cons, List.mem_cons, not_or]
          exact ⟨fun h => hn h.symm, hmem⟩
        rw [if_neg hmem, if_neg this]
        rfl

/-- A new name goes to the end; a name that is bound already keeps its place. -/
theorem Scope.names_define (s : Scope) (name : String) (value : Value) :
    (s.define name value).names = if name ∈ s.names then s.names else s.names ++ [name] :=
  map_fst_bindName name value s.bindings

/-- A scope binds the names that it lists. -/
theorem Scope.binds_iff (s : Scope) (name : String) : s.binds name = true ↔ name ∈ s.names := by
  unfold binds get? names
  induction s.bindings with
  | nil => simp
  | cons b rest ih =>
    rw [List.lookup_cons, List.map_cons, List.mem_cons]
    by_cases h : name = b.1
    · simp [h]
    · simp [beq_eq_false_iff_ne.mpr h, h, ih]

/-- Defining a name that is bound already lists no new name. -/
theorem Scope.names_define_of_binds {s : Scope} {name : String} (h : s.binds name = true)
    (value : Value) : (s.define name value).names = s.names := by
  rw [names_define, if_pos ((binds_iff s name).mp h)]

/-- Other names keep their values. -/
theorem Scope.get?_define_of_ne (s : Scope) {name other : String} (h : other ≠ name)
    (value : Value) : (s.define name value).get? other = s.get? other := by
  rw [get?_define, if_neg h]

/-- Assigning succeeds exactly where looking up does. -/
theorem isSome_assignIn (name : String) (value : Value) (scopes : List Scope) :
    (assignIn name value scopes).isSome = (lookupIn scopes name).isSome := by
  induction scopes with
  | nil => rfl
  | cons s rest ih =>
    rw [assignIn, lookupIn, List.findSome?_cons]
    cases h : s.get? name with
    | some v => simp [Scope.binds, h]
    | none => simpa [Scope.binds, h, lookupIn] using ih

end Scriptlet
