import Mathlib.Logic.ExistsUnique
import Scriptlet.Run.Forest

/-!
# Scriptlet — what names mean in a forest of scopes

Scopes share the scopes around them, so an assignment in one is seen from some
scopes and not from others. What a name means can be told from the uses that
made the forest, without the forest itself: from the scopes that were made, the
names that were defined in each, and the last use that stored a value. The
forest agrees with such a record after every use.

## Results

* `Allowed`                 — uses that refer to scopes made before them.
* `Nearest`, `Unbound`      — where a name is bound, told from the uses.
* `LastStored`              — the value last stored under a name in a scope.
* `Performed`               — what each use gives and changes.
* `Recorded`                — the forest agrees with the uses that made it.
* `recorded_after`          — the uses can be performed, and it does after all of them.
* `Rebound`                 — what an assignment changes, and where it is seen.
* `Laws`                    — what names mean, told from the uses.
* `names_resolve`           — the laws hold after all uses.
-/

namespace Scriptlet

namespace Forest

-- ---------------------------------------------------------------------------
-- The record of the uses
-- ---------------------------------------------------------------------------

/-- The scope that a use makes: the scope around it, if there is one. -/
def Use.made : Use → List (Option Nat)
  | .new parent => [parent]
  | _ => []

/-- The name that a use defines in a scope. -/
def Use.defined (i : Nat) : Use → List String
  | .define k name _ => if k = i then [name] else []
  | _ => []

/-- The scopes that a use refers to. -/
def Use.refers : Use → List Nat
  | .new parent => parent.toList
  | .define i _ _ => [i]
  | .get i _ => [i]
  | .assign i _ _ => [i]

/-- The token of the name that a use looks for. -/
def Use.name? : Use → Option Token
  | .get _ name => some name
  | .assign _ name _ => some name
  | _ => none

/-- Uses that refer only to scopes made before them, after as many scopes as given. -/
def Allowed (scopes : Nat) : List Use → Prop
  | [] => True
  | use :: later =>
    (∀ i ∈ use.refers, i < scopes) ∧ Allowed (scopes + use.made.length) later

/-- The scopes that were made, by number: for each one the scope around it. -/
def made (uses : List Use) : List (Option Nat) := uses.flatMap Use.made

/-- The names that were defined in a scope, as often as they were. -/
def defined (uses : List Use) (i : Nat) : List String := uses.flatMap (Use.defined i)

/-- A scope is on the path from another one to the root. -/
inductive Outwards (uses : List Use) : Nat → Nat → Prop where
  | here {i : Nat} : Outwards uses i i
  | outer {i p k : Nat} (hParent : (made uses)[i]? = some (some p)) (hRest : Outwards uses p k) :
    Outwards uses i k

/-- A scope is the nearest one outwards from another in which a name was defined. -/
inductive Nearest (uses : List Use) (name : String) : Nat → Nat → Prop where
  | here {i : Nat} (hDefined : name ∈ defined uses i) : Nearest uses name i i
  | outer {i p k : Nat} (hDefined : name ∉ defined uses i)
    (hParent : (made uses)[i]? = some (some p)) (hRest : Nearest uses name p k) :
    Nearest uses name i k

/-- A name was not defined in any scope on the path to the root. -/
def Unbound (uses : List Use) (name : String) (i : Nat) : Prop :=
  ∀ k, Outwards uses i k → name ∉ defined uses k

/--
A use stores a value under a name in a scope: it defines the name there, or it
assigns to the name and that scope is the nearest one, by the uses before it.
-/
inductive Stores (uses : List Use) (k : Nat) (name : String) (value : Value) : Use → Prop where
  | define : Stores uses k name value (.define k name value)
  | assign {i : Nat} {t : Token} (hName : t.lexeme = name) (hNearest : Nearest uses name i k) :
    Stores uses k name value (.assign i t value)

/-- The value last stored under a name in a scope. -/
inductive LastStored : List Use → Nat → String → Value → Prop where
  | now {uses : List Use} {use : Use} {k : Nat} {name : String} {value : Value}
    (hStores : Stores uses k name value use) : LastStored (uses ++ [use]) k name value
  | before {uses : List Use} {use : Use} {k : Nat} {name : String} {value : Value}
    (hStores : ∀ other, ¬ Stores uses k name other use) (hBefore : LastStored uses k name value) :
    LastStored (uses ++ [use]) k name value

theorem Stores.unique {uses : List Use} {k : Nat} {name : String} {value other : Value} {use : Use}
    (h : Stores uses k name value use) (hOther : Stores uses k name other use) : value = other := by
  cases h <;> cases hOther <;> rfl

/-- The last use decides, if it stores a value there. -/
theorem lastStored_concat {uses : List Use} {use : Use} {k : Nat} {name : String} {value : Value} :
    LastStored (uses ++ [use]) k name value ↔
      Stores uses k name value use ∨
        (∀ other, ¬ Stores uses k name other use) ∧ LastStored uses k name value := by
  constructor
  · intro h
    -- A list that grows at its end is no index to split on, so the end is compared by itself.
    generalize hAll : uses ++ [use] = all at h
    cases h with
    | now hStores =>
      obtain ⟨rfl, hUse⟩ := List.append_inj' hAll rfl
      cases hUse
      exact .inl hStores
    | before hStores hBefore =>
      obtain ⟨rfl, hUse⟩ := List.append_inj' hAll rfl
      cases hUse
      exact .inr ⟨hStores, hBefore⟩
  · rintro (hStores | ⟨hStores, hBefore⟩)
    · exact .now hStores
    · exact .before hStores hBefore

theorem made_concat (uses : List Use) (use : Use) :
    made (uses ++ [use]) = made uses ++ use.made := by
  simp [made]

theorem defined_concat (uses : List Use) (use : Use) (i : Nat) :
    defined (uses ++ [use]) i = defined uses i ++ use.defined i := by
  simp [defined]

/-- A name that occurs already adds nothing to the names in the order of first occurrence. -/
theorem eraseDups_concat (names : List String) (name : String) :
    (names ++ [name]).eraseDups =
      if name ∈ names then names.eraseDups else names.eraseDups ++ [name] := by
  rw [List.eraseDups_append]
  by_cases h : name ∈ names
  · simp [h, List.removeAll]
  · simp [h, List.removeAll, List.eraseDups_cons]

-- ---------------------------------------------------------------------------
-- One use
-- ---------------------------------------------------------------------------

variable {uses : List Use} {f g : Forest} {use : Use} {answer : Answer}

/-- What a use gives and the forest that it leaves. -/
inductive Performed (f : Forest) : Use → Answer → Forest → Prop where
  | new {parent : Option Nat} {g : Forest} (hNodes : g.nodes = f.nodes.push { parent }) :
    Performed f (.new parent) (.scope f.nodes.size) g
  | define {i : Nat} {name : String} {value : Value} (hi : i < f.nodes.size) :
    Performed f (.define i name value) .done (f.define i name value)
  | get {i k : Nat} {name : Token} {value : Value} (hBinder : f.binder? i name.lexeme = some k)
    (hValue : f.binding? k name.lexeme = some value) :
    Performed f (.get i name) (.value value) f
  | getUnbound {i : Nat} {name : Token} (hBinder : f.binder? i name.lexeme = none) :
    Performed f (.get i name) (.fault (.undefined name)) f
  | assign {i k : Nat} {name : Token} {value : Value}
    (hBinder : f.binder? i name.lexeme = some k) :
    Performed f (.assign i name value) .done (f.define k name.lexeme value)
  | assignUnbound {i : Nat} {name : Token} {value : Value}
    (hBinder : f.binder? i name.lexeme = none) :
    Performed f (.assign i name value) (.fault (.undefined name)) f

theorem perform_get {f : Forest} {i : Nat} (hi : i < f.nodes.size) (name : Token) :
    f.perform (.get i name) =
      match f.get? i name.lexeme with
      | some v => some (.value v, f)
      | none => some (.fault (.undefined name), f) := by
  cases hGet : f.get? i name.lexeme with
  | none => rw [perform, if_pos hi, hGet]
  | some v => rw [perform, if_pos hi, hGet]

theorem perform_assign {f : Forest} {i : Nat} (hi : i < f.nodes.size) (name : Token)
    (value : Value) :
    f.perform (.assign i name value) =
      match f.binder? i name.lexeme with
      | some k => some (.done, f.define k name.lexeme value)
      | none => some (.fault (.undefined name), f) := by
  cases hBinder : f.binder? i name.lexeme with
  | none => rw [perform, if_pos hi, assign?, hBinder, Option.map_none]
  | some k => rw [perform, if_pos hi, assign?, hBinder, Option.map_some]

/-- A scope that binds a name has a value for it. -/
theorem exists_binding? {f : Forest} {i k : Nat} {name : String} (h : f.binder? i name = some k) :
    ∃ value, f.binding? k name = some value :=
  Option.isSome_iff_exists.mp (binds_of_binder? h)

/-- Every use that is performed is one of these. -/
theorem performed (h : f.perform use = some (answer, g)) : Performed f use answer g := by
  cases use with
  | new parent =>
    obtain ⟨⟨number, g⟩, hNew, hEnd⟩ := Option.map_eq_some_iff.mp h
    cases hEnd
    obtain ⟨rfl, hNodes⟩ := nodes_of_new? hNew
    exact .new hNodes
  | define i name value =>
    rw [perform] at h
    split at h
    · next hi => cases h; exact .define hi
    · cases h
  | get i name =>
    by_cases hi : i < f.nodes.size
    · rw [perform_get hi, get?_eq] at h
      cases hBinder : f.binder? i name.lexeme with
      | none =>
        rw [hBinder] at h
        cases h
        exact .getUnbound hBinder
      | some k =>
        obtain ⟨value, hValue⟩ := exists_binding? hBinder
        rw [hBinder, Option.bind_some, hValue] at h
        cases h
        exact .get hBinder hValue
    · rw [perform, if_neg hi] at h
      cases h
  | assign i name value =>
    by_cases hi : i < f.nodes.size
    · rw [perform_assign hi] at h
      cases hBinder : f.binder? i name.lexeme with
      | none =>
        rw [hBinder] at h
        cases h
        exact .assignUnbound hBinder
      | some k =>
        rw [hBinder] at h
        cases h
        exact .assign hBinder
    · rw [perform, if_neg hi] at h
      cases h

/-- A fault names the token that was given, and it changes nothing. -/
theorem Performed.fault {fault : Fault} (h : Performed f use (.fault fault) g) :
    g = f ∧ use.name? = some fault.token ∧
      fault.message = "Undefined variable '" ++ fault.token.lexeme ++ "'." := by
  cases h with
  | getUnbound | assignUnbound => exact ⟨rfl, rfl, rfl⟩

-- ---------------------------------------------------------------------------
-- The forest agrees with the record
-- ---------------------------------------------------------------------------

/-- A forest holds what the uses made, defined and stored. -/
structure Recorded (uses : List Use) (f : Forest) : Prop where
  size : f.nodes.size = (made uses).length
  parent : ∀ i, f.parent? i = (made uses)[i]?.join
  names : ∀ i, f.names i = (defined uses i).eraseDups
  stored : ∀ i name value, f.binding? i name = some value ↔ LastStored uses i name value

namespace Recorded

variable (hRec : Recorded uses f)
include hRec

theorem binds_iff (i : Nat) (name : String) : f.binds i name = true ↔ name ∈ defined uses i := by
  rw [Forest.binds_iff, hRec.names, List.mem_eraseDups]

theorem parent_iff (i p : Nat) : f.parent? i = some p ↔ (made uses)[i]? = some (some p) := by
  rw [hRec.parent, Option.join_eq_some_iff]

/-- By induction along the path, which goes to older scopes. -/
theorem nearest_iff (i k : Nat) (name : String) :
    Nearest uses name i k ↔ f.binder? i name = some k := by
  constructor
  · intro h
    induction h with
    | @here i hDefined => rw [binder?_eq, if_pos ((hRec.binds_iff i name).mpr hDefined)]
    | @outer i p k hDefined hParent hRest ih =>
      rw [binder?_eq, if_neg (fun h => hDefined ((hRec.binds_iff i name).mp h)),
        (hRec.parent_iff i p).mpr hParent]
      exact ih
  · intro h
    induction i using Nat.strongRecOn with
    | ind i ih =>
      rw [binder?_eq] at h
      by_cases hBinds : f.binds i name = true
      · rw [if_pos hBinds] at h
        cases h
        exact .here ((hRec.binds_iff _ name).mp hBinds)
      · rw [if_neg hBinds] at h
        obtain ⟨p, hParent, hBinder⟩ := Option.bind_eq_some_iff.mp h
        have hRest := ih p (parent?_lt hParent) hBinder
        exact .outer (fun h => hBinds ((hRec.binds_iff i name).mpr h))
          ((hRec.parent_iff i p).mp hParent) hRest

theorem unbound_iff (i : Nat) (name : String) :
    Unbound uses name i ↔ f.binder? i name = none := by
  constructor
  · intro h
    induction i using Nat.strongRecOn with
    | ind i ih =>
      rw [binder?_eq, if_neg (fun hBinds => h i .here ((hRec.binds_iff i name).mp hBinds))]
      cases hParent : f.parent? i with
      | none => rfl
      | some p =>
        have hUnbound : Unbound uses name p := fun k hRest =>
          h k (.outer ((hRec.parent_iff i p).mp hParent) hRest)
        exact ih p (parent?_lt hParent) hUnbound
  · intro h k hPath
    induction hPath with
    | @here i =>
      intro hDefined
      rw [binder?_eq, if_pos ((hRec.binds_iff i name).mpr hDefined)] at h
      cases h
    | @outer i p k hParent hRest ih =>
      apply ih
      rw [binder?_eq, (hRec.parent_iff i p).mpr hParent] at h
      split at h
      · cases h
      · exact h

/-- An assignment stores in the nearest binder of its name, and nowhere else. -/
theorem binder?_of_stores {i k : Nat} {t : Token} {name : String} {value stored : Value}
    (h : Stores uses k name stored (.assign i t value)) :
    name = t.lexeme ∧ f.binder? i t.lexeme = some k := by
  cases h with
  | assign hName hNearest =>
    subst hName
    exact ⟨rfl, (hRec.nearest_iff i k t.lexeme).mp hNearest⟩

/-- A use changes exactly the bindings that it stores. -/
theorem binding?_performed (h : Performed f use answer g) (k : Nat) (name : String) :
    (∃ value, Stores uses k name value use ∧ g.binding? k name = some value) ∨
      (∀ value, ¬ Stores uses k name value use) ∧ g.binding? k name = f.binding? k name := by
  cases h with
  | new hNodes => exact .inr ⟨nofun, binding?_of_push hNodes k name⟩
  | @define i other value hi =>
    rw [binding?_define hi]
    by_cases hHere : k = i ∧ name = other
    · obtain ⟨rfl, rfl⟩ := hHere
      exact .inl ⟨value, .define, if_pos ⟨rfl, rfl⟩⟩
    · refine .inr ⟨?_, if_neg hHere⟩
      rintro v ⟨⟩
      exact hHere ⟨rfl, rfl⟩
  | get | getUnbound => exact .inr ⟨nofun, rfl⟩
  | @assign i j t value hBinder =>
    rw [binding?_define (lt_of_binds (binds_of_binder? hBinder))]
    by_cases hHere : k = j ∧ name = t.lexeme
    · obtain ⟨rfl, rfl⟩ := hHere
      exact .inl ⟨value, .assign rfl ((hRec.nearest_iff i k _).mpr hBinder), if_pos ⟨rfl, rfl⟩⟩
    · refine .inr ⟨?_, if_neg hHere⟩
      intro v hStores
      obtain ⟨hName, hSame⟩ := hRec.binder?_of_stores hStores
      rw [hBinder] at hSame
      cases hSame
      exact hHere ⟨rfl, hName⟩
  | @assignUnbound i t value hBinder =>
    refine .inr ⟨?_, rfl⟩
    intro v hStores
    obtain ⟨-, hSome⟩ := hRec.binder?_of_stores hStores
    rw [hBinder] at hSome
    cases hSome

theorem stored_performed (h : Performed f use answer g) (k : Nat) (name : String) (value : Value) :
    g.binding? k name = some value ↔ LastStored (uses ++ [use]) k name value := by
  rw [lastStored_concat]
  rcases hRec.binding?_performed h k name with ⟨stored, hStores, hBinding⟩ | ⟨hStores, hBinding⟩
  · rw [hBinding, Option.some.injEq]
    constructor
    · rintro rfl
      exact .inl hStores
    · rintro (hValue | ⟨hNone, -⟩)
      · exact hStores.unique hValue
      · exact absurd hStores (hNone stored)
  · rw [hBinding, hRec.stored]
    constructor
    · exact fun hBefore => .inr ⟨hStores, hBefore⟩
    · rintro (hValue | ⟨-, hBefore⟩)
      · exact absurd hValue (hStores value)
      · exact hBefore

/-- Names stay in the order of their first definition; assigning defines none. -/
theorem names_performed (h : Performed f use answer g) (k : Nat) :
    g.names k = (defined (uses ++ [use]) k).eraseDups := by
  rw [defined_concat]
  cases h with
  | new hNodes => simpa [Use.defined, names_of_push hNodes] using hRec.names k
  | @define i name value hi =>
    rw [names_define hi]
    by_cases hHere : k = i
    · subst hHere
      -- The scope lists the name already just if it was defined there before.
      have hMem := hRec.binds_iff k name
      rw [Forest.binds_iff] at hMem
      simp [Use.defined, eraseDups_concat, hMem, ← hRec.names]
    · simpa [Use.defined, hHere, Ne.symm hHere] using hRec.names k
  | get | getUnbound | assignUnbound => simpa [Use.defined] using hRec.names k
  | @assign i j t value hBinder =>
    rw [names_define_of_binds (binds_of_binder? hBinder)]
    simpa [Use.defined] using hRec.names k

theorem parent?_performed (h : Performed f use answer g) (k : Nat) :
    g.parent? k = (made (uses ++ [use]))[k]?.join := by
  rw [made_concat]
  cases h with
  | @new parent g hNodes =>
    rw [parent?_of_push hNodes, hRec.size, hRec.parent, Use.made]
    by_cases hLast : k = (made uses).length
    · simp [hLast]
    · have hOld : (made uses ++ [parent])[k]? = (made uses)[k]? := by grind
      rw [if_neg hLast, hOld]
  | define | assign => simpa [Use.made, parent?_define] using hRec.parent k
  | get | getUnbound | assignUnbound => simpa [Use.made] using hRec.parent k

theorem size_performed (h : Performed f use answer g) :
    g.nodes.size = (made (uses ++ [use])).length := by
  rw [made_concat, List.length_append, ← hRec.size]
  cases h with
  | new hNodes => rw [hNodes, Array.size_push]; rfl
  | define | assign => exact size_define ..
  | get | getUnbound | assignUnbound => rfl

/-- The forest agrees with the record after one more use. -/
theorem performed (h : Performed f use answer g) : Recorded (uses ++ [use]) g where
  size := hRec.size_performed h
  parent := hRec.parent?_performed h
  names := hRec.names_performed h
  stored := hRec.stored_performed h

theorem exists_perform (h : ∀ i ∈ use.refers, i < (made uses).length) :
    ∃ answer g, f.perform use = some (answer, g) := by
  rw [← hRec.size] at h
  cases use with
  | new parent =>
    obtain ⟨g, hNew⟩ := exists_new? (fun p hp => h p (Option.mem_toList.mpr hp))
    exact ⟨_, g, by rw [perform, hNew, Option.map_some]⟩
  | define i name value =>
    rw [perform, if_pos (h i List.mem_cons_self)]
    exact ⟨_, _, rfl⟩
  | get i name =>
    rw [perform_get (h i List.mem_cons_self)]
    cases f.get? i name.lexeme <;> exact ⟨_, _, rfl⟩
  | assign i name value =>
    rw [perform_assign (h i List.mem_cons_self)]
    cases f.binder? i name.lexeme <;> exact ⟨_, _, rfl⟩

end Recorded

theorem recorded_nil : Recorded [] empty where
  size := rfl
  parent := fun i => rfl
  names := fun i => rfl
  stored := by
    intro i name value
    constructor
    · intro h
      cases h
    · intro h
      generalize hAll : ([] : List Use) = all at h
      cases h <;> simp at hAll

/--
Uses that refer to existing scopes can all be performed. By induction on them,
what was performed before being part of the record.
-/
theorem Recorded.later (hRec : Recorded uses f) {later : List Use}
    (h : Allowed (made uses).length later) :
    ∃ g, later.foldlM (fun f use => (f.perform use).map (·.2)) f = some g ∧
      Recorded (uses ++ later) g := by
  induction later generalizing uses f with
  | nil => exact ⟨f, rfl, by rwa [List.append_nil]⟩
  | cons use later ih =>
    obtain ⟨hRefers, hLater⟩ := h
    obtain ⟨answer, middle, hPerform⟩ := hRec.exists_perform hRefers
    have hMiddle := hRec.performed (Forest.performed hPerform)
    rw [← List.length_append, ← made_concat] at hLater
    obtain ⟨g, hEnd, hAll⟩ := ih hMiddle hLater
    refine ⟨g, ?_, ?_⟩
    · rw [List.foldlM_cons, hPerform]
      exact hEnd
    · rwa [List.append_assoc] at hAll

/-- After all uses the forest holds what they made, defined and stored. -/
theorem recorded_after (h : Allowed 0 uses) : ∃ f, after? uses = some f ∧ Recorded uses f :=
  recorded_nil.later h

-- ---------------------------------------------------------------------------
-- What names mean
-- ---------------------------------------------------------------------------

/-- A use is answered with a fault. -/
def Fails (f : Forest) (use : Use) : Prop := ∃ fault g, f.perform use = some (.fault fault, g)

/--
A forest is another one but for the value of a name in one scope, and the new
value is read just where that scope is the nearest one that binds the name.
-/
structure Rebound (uses : List Use) (k : Nat) (name : String) (value : Value)
    (f g : Forest) : Prop where
  bindings : ∀ j other,
    g.binding? j other = if j = k ∧ other = name then some value else f.binding? j other
  names : ∀ j, g.names j = f.names j
  seen : ∀ j t, t.lexeme = name → Nearest uses name j k →
    g.perform (.get j t) = some (.value value, g)
  unseen : ∀ j t, ¬ (t.lexeme = name ∧ Nearest uses name j k) →
    (g.perform (.get j t)).map (·.1) = (f.perform (.get j t)).map (·.1)

/-- What names mean in a forest, told from the uses that made it. -/
structure Laws (uses : List Use) (f : Forest) : Prop where
  /-- There is one nearest scope that binds a name, if any scope on the path does. -/
  resolves : ∀ name i, (∃! k, Nearest uses name i k) ↔ ¬ Unbound uses name i
  get_fails : ∀ i < (made uses).length, ∀ name,
    f.Fails (.get i name) ↔ Unbound uses name.lexeme i
  assign_fails : ∀ i < (made uses).length, ∀ name value,
    f.Fails (.assign i name value) ↔ Unbound uses name.lexeme i
  /-- A fault names the token that was given and changes nothing. -/
  fault : ∀ use fault g, f.perform use = some (.fault fault, g) →
    g = f ∧ use.name? = some fault.token ∧
      fault.message = "Undefined variable '" ++ fault.token.lexeme ++ "'."
  /-- A name has the value last stored under it in its nearest binder. -/
  get : ∀ i name k, Nearest uses name.lexeme i k →
    ∃ value, f.perform (.get i name) = some (.value value, f) ∧
      ∀ other, LastStored uses k name.lexeme other ↔ other = value
  /-- An assignment changes the binding of its name in the nearest binder. -/
  assign : ∀ i name value k, Nearest uses name.lexeme i k →
    ∃ g, f.perform (.assign i name value) = some (.done, g) ∧
      Rebound uses k name.lexeme value f g
  /-- A definition changes one binding of the scope itself. -/
  define : ∀ i < (made uses).length, ∀ name value,
    ∃ g, f.perform (.define i name value) = some (.done, g) ∧
      (∀ other, g.binding? i other = if other = name then some value else f.binding? i other) ∧
      ∀ j ≠ i, g.scope? j = f.scope? j
  new : ∀ parent : Option Nat, (∀ p ∈ parent, p < (made uses).length) →
    ∃ g, f.perform (.new parent) = some (.scope (made uses).length, g) ∧
      g.scope? (made uses).length = some {} ∧
      ∀ j ≠ (made uses).length, g.scope? j = f.scope? j
  /-- The names of a scope are in the order of their first definitions. -/
  names : ∀ i < (made uses).length,
    (f.scope? i).map Scope.names = some (defined uses i).eraseDups

namespace Recorded

variable (hRec : Recorded uses f)
include hRec

theorem resolves (name : String) (i : Nat) :
    (∃! k, Nearest uses name i k) ↔ ¬ Unbound uses name i := by
  simp only [hRec.nearest_iff, hRec.unbound_iff]
  cases f.binder? i name with
  | none => simp
  | some k => simp

theorem get_fails {i : Nat} (hi : i < (made uses).length) (name : Token) :
    f.Fails (.get i name) ↔ Unbound uses name.lexeme i := by
  rw [← hRec.size] at hi
  rw [hRec.unbound_iff]
  constructor
  · rintro ⟨fault, g, h⟩
    cases Forest.performed h with
    | getUnbound hBinder => exact hBinder
  · intro hBinder
    refine ⟨.undefined name, f, ?_⟩
    rw [perform_get hi, get?_eq, hBinder]
    rfl

theorem assign_fails {i : Nat} (hi : i < (made uses).length) (name : Token) (value : Value) :
    f.Fails (.assign i name value) ↔ Unbound uses name.lexeme i := by
  rw [← hRec.size] at hi
  rw [hRec.unbound_iff]
  constructor
  · rintro ⟨fault, g, h⟩
    cases Forest.performed h with
    | assignUnbound hBinder => exact hBinder
  · intro hBinder
    refine ⟨.undefined name, f, ?_⟩
    rw [perform_assign hi, hBinder]

theorem get {i k : Nat} {name : Token} (h : Nearest uses name.lexeme i k) :
    ∃ value, f.perform (.get i name) = some (.value value, f) ∧
      ∀ other, LastStored uses k name.lexeme other ↔ other = value := by
  have hBinder := (hRec.nearest_iff i k name.lexeme).mp h
  obtain ⟨value, hValue⟩ := exists_binding? hBinder
  refine ⟨value, ?_, ?_⟩
  · rw [perform_get (lt_of_binder? hBinder), get?_eq, hBinder, Option.bind_some, hValue]
  · intro other
    rw [← hRec.stored, hValue, Option.some.injEq]
    exact eq_comm

theorem rebound {k : Nat} {name : String} (hBinds : f.binds k name = true) (value : Value) :
    Rebound uses k name value f (f.define k name value) where
  bindings j other := binding?_define (lt_of_binds hBinds) j name other value
  names j := names_define_of_binds hBinds j value
  seen := by
    intro j t hName hNearest
    have hThere := (hRec.nearest_iff j k name).mp hNearest
    have hj : j < (f.define k name value).nodes.size := by
      rw [size_define]
      exact lt_of_binder? hThere
    rw [perform_get hj, get?_define_of_binds hBinds, hName, if_pos ⟨rfl, hThere⟩]
  unseen := by
    intro j t hNot
    have hElsewhere : ¬ (t.lexeme = name ∧ f.binder? j t.lexeme = some k) := by
      rintro ⟨rfl, hThere⟩
      exact hNot ⟨rfl, (hRec.nearest_iff j k t.lexeme).mpr hThere⟩
    rw [perform, perform, size_define, get?_define_of_binds hBinds, if_neg hElsewhere]
    split
    · cases f.get? j t.lexeme <;> rfl
    · rfl

theorem assign {i k : Nat} {name : Token} (h : Nearest uses name.lexeme i k) (value : Value) :
    ∃ g, f.perform (.assign i name value) = some (.done, g) ∧
      Rebound uses k name.lexeme value f g := by
  have hBinder := (hRec.nearest_iff i k name.lexeme).mp h
  refine ⟨_, ?_, hRec.rebound (binds_of_binder? hBinder) value⟩
  rw [perform_assign (lt_of_binder? hBinder), hBinder]

theorem define {i : Nat} (hi : i < (made uses).length) (name : String) (value : Value) :
    ∃ g, f.perform (.define i name value) = some (.done, g) ∧
      (∀ other, g.binding? i other = if other = name then some value else f.binding? i other) ∧
      ∀ j ≠ i, g.scope? j = f.scope? j := by
  rw [← hRec.size] at hi
  refine ⟨f.define i name value, ?_, ?_, ?_⟩
  · rw [perform, if_pos hi]
  · intro other
    rw [binding?_define hi]
    simp only [true_and]
  · intro j hj
    rw [scope?_define, if_neg hj]

theorem new {parent : Option Nat} (h : ∀ p ∈ parent, p < (made uses).length) :
    ∃ g, f.perform (.new parent) = some (.scope (made uses).length, g) ∧
      g.scope? (made uses).length = some {} ∧
      ∀ j ≠ (made uses).length, g.scope? j = f.scope? j := by
  rw [← hRec.size] at h ⊢
  obtain ⟨g, hNew⟩ := exists_new? h
  have hScope := scope?_of_push (nodes_of_new? hNew).2
  refine ⟨g, ?_, ?_, ?_⟩
  · rw [perform, hNew, Option.map_some]
  · rw [hScope, if_pos rfl]
  · intro j hj
    rw [hScope, if_neg hj]

theorem names_scope? {i : Nat} (hi : i < (made uses).length) :
    (f.scope? i).map Scope.names = some (defined uses i).eraseDups := by
  rw [← hRec.size] at hi
  have hScope : f.scope? i = some f.nodes[i].scope := by simp [scope?, hi]
  have hNames := hRec.names i
  rw [Forest.names, hScope] at hNames
  rw [hScope, ← hNames]
  rfl

theorem laws : Laws uses f where
  resolves := hRec.resolves
  get_fails _ hi := hRec.get_fails hi
  assign_fails _ hi := hRec.assign_fails hi
  fault _ _ _ h := (Forest.performed h).fault
  get _ _ _ h := hRec.get h
  assign _ _ value _ h := hRec.assign h value
  define _ hi := hRec.define hi
  new _ h := hRec.new h
  names _ hi := hRec.names_scope? hi

end Recorded

/--
Uses that refer to existing scopes can be performed one after another, and what
names mean in the forest that they make is told from the uses alone.
-/
theorem names_resolve (h : Allowed 0 uses) : ∃ f, after? uses = some f ∧ Laws uses f := by
  obtain ⟨f, hAfter, hRec⟩ := recorded_after h
  exact ⟨f, hAfter, hRec.laws⟩

/-- A scope that hides a name from the scope inside it, but not from another one. -/
theorem names_resolve_hidden :
    let name : Token := { kind := .identifier, lexeme := "a", line := 1 }
    let other : Token := { kind := .identifier, lexeme := "b", line := 2 }
    let before : List Use :=
      [.new none, .define 0 "a" .nil, .new (some 0), .new (some 1), .new (some 0),
        .define 1 "a" .nil, .assign 2 name (.bool true), .assign 3 other .nil]
    let uses := before ++ [.assign 3 name (.bool false)]
    Allowed 0 uses ∧ ∃ f, after? uses = some f ∧ Laws uses f ∧
      f.perform (.get 3 name) = some (.value (.bool false), f) ∧
      Nearest uses "a" 2 1 ∧ Nearest uses "a" 3 0 := by
  intro name other before uses
  have hAllowed : Allowed 0 uses := by simp [uses, before, Allowed, Use.refers, Use.made]
  have hHidden : Nearest uses "a" 2 1 :=
    .outer (by simp [uses, before, defined, Use.defined]) rfl
      (.here (by simp [uses, before, defined, Use.defined]))
  have hOpen : Nearest uses "a" 3 0 :=
    .outer (by simp [uses, before, defined, Use.defined]) rfl
      (.here (by simp [uses, before, defined, Use.defined]))
  have hBefore : Nearest before "a" 3 0 :=
    .outer (by simp [before, defined, Use.defined]) rfl
      (.here (by simp [before, defined, Use.defined]))
  obtain ⟨f, hAfter, hLaws⟩ := names_resolve hAllowed
  obtain ⟨value, hGet, hLast⟩ := hLaws.get 3 name 0 hOpen
  have hStored : LastStored uses 0 "a" (.bool false) := .now (.assign rfl hBefore)
  rw [← (hLast _).mp hStored] at hGet
  exact ⟨hAllowed, f, hAfter, hLaws, hGet, hHidden, hOpen⟩

end Forest

end Scriptlet
