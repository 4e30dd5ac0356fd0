import Scriptlet.Run.Scope
import Scriptlet.Run.Fault

/-!
# Scriptlet — forests of scopes

Scopes that share enclosing scopes form a forest: each scope knows the scope
around it, which is older. The path from a scope outwards is a chain, and names
are resolved along it.

## Results

* `Forest.new?`     — a new scope, inside an older one or on its own.
* `Forest.path`     — the scopes from one outwards.
* `Forest.binder?`  — the nearest scope on the path that binds a name.
* `Forest.get?`, `Forest.assign?`, `Forest.define` — the three uses of a name.
* `Forest.perform`, `Forest.after?` — one use with its answer, and uses one after another.
* `binder?_eq`      — the nearest binder is the scope itself or that of the scope around it.
* `get?_eq`         — the value of a name is the one in its nearest binder.
* `get?_define_of_binds` — where the value of a name changes when it is rebound.
-/

namespace Scriptlet

/-- A scope and the number of the scope around it. -/
structure Forest.Node where
  scope : Scope := {}
  parent : Option Nat := none
  deriving Inhabited

/-- Scopes by number, each inside an older one or on its own. -/
structure Forest where
  nodes : Array Forest.Node := #[]
  parent_lt : ∀ i (h : i < nodes.size), ∀ p ∈ nodes[i].parent, p < i := by simp

namespace Forest

/-- The scope of a number. -/
def scope? (f : Forest) (i : Nat) : Option Scope := f.nodes[i]?.map (·.scope)

/-- The number of the scope around one. -/
def parent? (f : Forest) (i : Nat) : Option Nat := f.nodes[i]?.bind (·.parent)

/-- The names of a scope, in the order of first definition. -/
def names (f : Forest) (i : Nat) : List String := (f.scope? i).elim [] Scope.names

/-- The value of a name in one scope, not searched outwards. -/
def binding? (f : Forest) (i : Nat) (name : String) : Option Value :=
  (f.scope? i).bind (·.get? name)

/-- Whether one scope binds a name. -/
def binds (f : Forest) (i : Nat) (name : String) : Bool := (f.binding? i name).isSome

/-- Adds an empty scope inside the given one, which has to exist; gives its number. -/
def new? (f : Forest) (parent : Option Nat) : Option (Nat × Forest) :=
  if h : ∀ p ∈ parent, p < f.nodes.size then
    some (f.nodes.size,
      { nodes := f.nodes.push { parent }
        parent_lt := by
          intro i hi p hp
          rw [Array.size_push] at hi
          rw [Array.getElem_push] at hp
          split at hp
          · next hlt => exact f.parent_lt i hlt p hp
          · next hge =>
            have := h p hp
            omega })
  else none

/-- The scopes from one outwards, by number. -/
def path (f : Forest) (i : Nat) : List Nat :=
  if h : i < f.nodes.size then
    match hp : f.nodes[i].parent with
    | none => [i]
    | some p => i :: path f p
  else []
termination_by i
decreasing_by exact f.parent_lt i h p hp

/-- The chain of scopes from one outwards. -/
def chain (f : Forest) (i : Nat) : List Scope := (f.path i).filterMap f.scope?

/-- The nearest scope outwards that binds a name. -/
def binder? (f : Forest) (i : Nat) (name : String) : Option Nat :=
  (f.path i).find? fun k => (f.scope? k).any (·.binds name)

/-- Changes one scope. -/
def modify (f : Forest) (i : Nat) (change : Scope → Scope) : Forest where
  nodes := f.nodes.modify i fun n => { n with scope := change n.scope }
  parent_lt := by
    intro k hk p hp
    rw [Array.size_modify] at hk
    rw [Array.getElem_modify] at hp
    split at hp <;> exact f.parent_lt k hk p hp

/-- Binds a name in one scope. -/
def define (f : Forest) (i : Nat) (name : String) (value : Value) : Forest :=
  f.modify i (·.define name value)

/-- The value of a name, searched outwards. -/
def get? (f : Forest) (i : Nat) (name : String) : Option Value := lookupIn (f.chain i) name

/-- Rebinds a name in the nearest scope outwards that binds it, if there is one. -/
def assign? (f : Forest) (i : Nat) (name : String) (value : Value) : Option Forest :=
  (f.binder? i name).map fun k => f.define k name value

/-- A use of a forest: a new scope, or a use of a name from one of the scopes. -/
inductive Use where
  | new (parent : Option Nat)
  | define (scope : Nat) (name : String) (value : Value)
  | get (scope : Nat) (name : Token)
  | assign (scope : Nat) (name : Token) (value : Value)

/-- What a use gives. -/
inductive Answer where
  /-- The number of a new scope. -/
  | scope (number : Nat)
  | value (v : Value)
  | done
  | fault (f : Fault)

/-- Performs a use, if the scopes that it refers to exist. -/
def perform (f : Forest) : Use → Option (Answer × Forest)
  | .new parent => (f.new? parent).map fun (number, f) => (.scope number, f)
  | .define i name value =>
    if i < f.nodes.size then some (.done, f.define i name value) else none
  | .get i name =>
    if i < f.nodes.size then
      match f.get? i name.lexeme with
      | some v => some (.value v, f)
      | none => some (.fault (.undefined name), f)
    else none
  | .assign i name value =>
    if i < f.nodes.size then
      match f.assign? i name.lexeme value with
      | some g => some (.done, g)
      | none => some (.fault (.undefined name), f)
    else none

/-- No scope at all. -/
def empty : Forest := {}

/-- The forest that uses one after another make, starting from no scope at all. -/
def after? (uses : List Use) : Option Forest :=
  uses.foldlM (fun f use => (f.perform use).map (·.2)) empty

-- ---------------------------------------------------------------------------
-- Laws
-- ---------------------------------------------------------------------------

theorem parent?_lt {f : Forest} {i p : Nat} (h : f.parent? i = some p) : p < i := by
  obtain ⟨node, hNode, hParent⟩ := Option.bind_eq_some_iff.mp h
  obtain ⟨hi, rfl⟩ := Array.getElem?_eq_some_iff.mp hNode
  exact f.parent_lt i hi p hParent

theorem path_eq (f : Forest) (i : Nat) :
    f.path i = if i < f.nodes.size then i :: (f.parent? i).elim [] f.path else [] := by
  rw [path]
  by_cases h : i < f.nodes.size
  · rw [dif_pos h, if_pos h]
    have hParent : f.parent? i = f.nodes[i].parent := by simp [parent?, h]
    split
    · next hNone => rw [hParent, hNone]; rfl
    · next p hSome => rw [hParent, hSome]; rfl
  · rw [dif_neg h, if_neg h]

theorem scope?_of_le {f : Forest} {i : Nat} (h : f.nodes.size ≤ i) : f.scope? i = none := by
  rw [scope?, Array.getElem?_eq_none h, Option.map_none]

theorem binds_eq (f : Forest) (i : Nat) (name : String) :
    f.binds i name = (f.scope? i).any (·.binds name) := by
  unfold binds binding?
  cases f.scope? i <;> rfl

/-- A scope binds the names that it lists. -/
theorem binds_iff (f : Forest) (i : Nat) (name : String) :
    f.binds i name = true ↔ name ∈ f.names i := by
  rw [binds_eq, names]
  cases f.scope? i with
  | none => simp
  | some s => exact s.binds_iff name

/-- The nearest binder is the scope itself, or else that of the scope around it. -/
theorem binder?_eq (f : Forest) (i : Nat) (name : String) :
    f.binder? i name =
      if f.binds i name then some i else (f.parent? i).bind (f.binder? · name) := by
  unfold binder?
  rw [path_eq, binds_eq]
  by_cases h : i < f.nodes.size
  · rw [if_pos h, List.find?_cons]
    cases (f.scope? i).any (·.binds name) with
    | true => rfl
    | false => cases f.parent? i <;> rfl
  · have hScope : f.scope? i = none := scope?_of_le (Nat.le_of_not_lt h)
    have hParent : f.parent? i = none := by simp [parent?, Nat.le_of_not_lt h]
    rw [if_neg h, hScope, hParent]
    rfl

/-- The value of a name is the one in its nearest binder. -/
theorem get?_eq (f : Forest) (i : Nat) (name : String) :
    f.get? i name = (f.binder? i name).bind (f.binding? · name) := by
  unfold get? chain lookupIn binder?
  induction f.path i with
  | nil => rfl
  | cons k rest ih =>
    have hBinds := f.binds_eq k name
    rw [List.find?_cons, ← hBinds]
    cases hScope : f.scope? k with
    | none =>
      have hNot : f.binds k name = false := by simp [binds, binding?, hScope]
      rw [List.filterMap_cons_none hScope, hNot, ih]
    | some s =>
      have hValue : f.binding? k name = s.get? name := by simp [binding?, hScope]
      rw [List.filterMap_cons_some hScope, List.findSome?_cons, ← hValue, binds]
      cases hGet : f.binding? k name with
      | none => simpa using ih
      | some v => simp [hGet]

theorem binds_of_binder? {f : Forest} {i k : Nat} {name : String}
    (h : f.binder? i name = some k) : f.binds k name = true := by
  rw [binds_eq]
  unfold binder? at h
  have hFound := List.find?_some h
  exact hFound

/-- Where a name is bound depends on the scopes and their names only. -/
theorem binder?_congr {f g : Forest} {name : String} (hParent : ∀ i, g.parent? i = f.parent? i)
    (hBinds : ∀ i, g.binds i name = f.binds i name) (i : Nat) :
    g.binder? i name = f.binder? i name := by
  induction i using Nat.strongRecOn with
  | ind i ih =>
    rw [binder?_eq, binder?_eq, hBinds, hParent]
    split
    · rfl
    · cases hAround : f.parent? i with
      | none => rfl
      | some p => exact ih p (parent?_lt hAround)

theorem lt_of_binds {f : Forest} {i : Nat} {name : String} (h : f.binds i name = true) :
    i < f.nodes.size := by
  rcases Nat.lt_or_ge i f.nodes.size with hlt | hge
  · exact hlt
  · rw [binds_eq, scope?_of_le hge] at h
    cases h

theorem lt_of_parent? {f : Forest} {i p : Nat} (h : f.parent? i = some p) :
    i < f.nodes.size := by
  obtain ⟨node, hNode, -⟩ := Option.bind_eq_some_iff.mp h
  exact (Array.getElem?_eq_some_iff.mp hNode).1

theorem lt_of_binder? {f : Forest} {i k : Nat} {name : String}
    (h : f.binder? i name = some k) : i < f.nodes.size := by
  rw [binder?_eq] at h
  split at h
  · next hBinds => exact lt_of_binds hBinds
  · obtain ⟨p, hParent, -⟩ := Option.bind_eq_some_iff.mp h
    exact lt_of_parent? hParent

-- A definition.

theorem size_define (f : Forest) (i : Nat) (name : String) (value : Value) :
    (f.define i name value).nodes.size = f.nodes.size := Array.size_modify

theorem scope?_define (f : Forest) (i k : Nat) (name : String) (value : Value) :
    (f.define i name value).scope? k =
      if k = i then (f.scope? i).map (·.define name value) else f.scope? k := by
  unfold define modify scope?
  dsimp only
  rw [Array.getElem?_modify]
  by_cases h : i = k
  · subst h
    rw [if_pos rfl, if_pos rfl, Option.map_map, Option.map_map]
    rfl
  · rw [if_neg h, if_neg (Ne.symm h)]

theorem parent?_define (f : Forest) (i k : Nat) (name : String) (value : Value) :
    (f.define i name value).parent? k = f.parent? k := by
  unfold define modify parent?
  dsimp only
  rw [Array.getElem?_modify]
  split
  · cases f.nodes[k]? <;> rfl
  · rfl

/-- A definition changes one binding of one scope. -/
theorem binding?_define {f : Forest} {i : Nat} (hi : i < f.nodes.size) (k : Nat)
    (name other : String) (value : Value) :
    (f.define i name value).binding? k other =
      if k = i ∧ other = name then some value else f.binding? k other := by
  unfold binding?
  rw [scope?_define]
  by_cases hk : k = i
  · subst hk
    have hScope : f.scope? k = some f.nodes[k].scope := by simp [scope?, hi]
    rw [if_pos rfl, hScope]
    simp only [Option.map_some, Option.bind_some, Scope.get?_define, true_and]
  · rw [if_neg hk, if_neg (fun h => hk h.1)]

theorem names_define {f : Forest} {i : Nat} (hi : i < f.nodes.size) (k : Nat)
    (name : String) (value : Value) :
    (f.define i name value).names k =
      if k = i ∧ name ∉ f.names i then f.names i ++ [name] else f.names k := by
  unfold names
  rw [scope?_define]
  by_cases hk : k = i
  · subst hk
    have hScope : f.scope? k = some f.nodes[k].scope := by simp [scope?, hi]
    rw [if_pos rfl, hScope]
    simp only [Option.map_some, Option.elim_some, Scope.names_define, true_and]
    split <;> simp_all
  · rw [if_neg hk, if_neg (fun h => hk h.1)]

theorem names_define_of_binds {f : Forest} {i : Nat} {name : String} (h : f.binds i name = true)
    (k : Nat) (value : Value) : (f.define i name value).names k = f.names k := by
  rw [names_define (lt_of_binds h), if_neg (fun hNew => hNew.2 ((f.binds_iff i name).mp h))]

theorem binder?_define_of_binds {f : Forest} {i : Nat} {name : String}
    (h : f.binds i name = true) (k : Nat) (other : String) (value : Value) :
    (f.define i name value).binder? k other = f.binder? k other := by
  apply binder?_congr (fun j => f.parent?_define i j name value)
  intro j
  rw [Bool.eq_iff_iff, binds_iff, binds_iff, names_define_of_binds h]

/-- Rebinding a name changes its value exactly where the scope is its nearest binder. -/
theorem get?_define_of_binds {f : Forest} {i : Nat} {name : String} (h : f.binds i name = true)
    (k : Nat) (other : String) (value : Value) :
    (f.define i name value).get? k other =
      if other = name ∧ f.binder? k other = some i then some value else f.get? k other := by
  rw [get?_eq, get?_eq, binder?_define_of_binds h]
  cases f.binder? k other with
  | none => simp
  | some j =>
    simp only [Option.bind_some, binding?_define (lt_of_binds h), Option.some.injEq]
    simp only [and_comm]

-- A new scope.

theorem exists_new? {f : Forest} {parent : Option Nat} (h : ∀ p ∈ parent, p < f.nodes.size) :
    ∃ g, f.new? parent = some (f.nodes.size, g) := by
  unfold new?
  rw [dif_pos h]
  exact ⟨_, rfl⟩

theorem nodes_of_new? {f g : Forest} {parent : Option Nat} {number : Nat}
    (h : f.new? parent = some (number, g)) :
    number = f.nodes.size ∧ g.nodes = f.nodes.push { parent } := by
  unfold new? at h
  split at h
  · cases h
    exact ⟨rfl, rfl⟩
  · cases h

theorem scope?_of_push {f g : Forest} {parent : Option Nat}
    (h : g.nodes = f.nodes.push { parent }) (k : Nat) :
    g.scope? k = if k = f.nodes.size then some {} else f.scope? k := by
  unfold scope?
  rw [h, Array.getElem?_push]
  split <;> rfl

theorem parent?_of_push {f g : Forest} {parent : Option Nat}
    (h : g.nodes = f.nodes.push { parent }) (k : Nat) :
    g.parent? k = if k = f.nodes.size then parent else f.parent? k := by
  unfold parent?
  rw [h, Array.getElem?_push]
  split <;> rfl

/-- A new scope binds nothing. -/
theorem binding?_of_push {f g : Forest} {parent : Option Nat}
    (h : g.nodes = f.nodes.push { parent }) (k : Nat) (name : String) :
    g.binding? k name = f.binding? k name := by
  unfold binding?
  rw [scope?_of_push h]
  split
  · next hk => rw [hk, scope?_of_le (Nat.le_refl _)]; rfl
  · rfl

theorem names_of_push {f g : Forest} {parent : Option Nat}
    (h : g.nodes = f.nodes.push { parent }) (k : Nat) : g.names k = f.names k := by
  unfold names
  rw [scope?_of_push h]
  split
  · next hk => rw [hk, scope?_of_le (Nat.le_refl _)]; rfl
  · rfl

end Forest

end Scriptlet
