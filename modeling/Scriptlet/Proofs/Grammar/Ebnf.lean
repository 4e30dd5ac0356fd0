import Mathlib

/-!
# Scriptlet — extended context-free grammars

Grammars whose right-hand sides may leave a part out or repeat it, the words
that they derive, and the way to prove something of every derived word: a family
of languages, one for each nonterminal, holds all derived words as soon as it is
closed under the rules.

* `Ebnf`                  — right-hand sides.
* `Derives`               — the words that a right-hand side derives.
* `Ebnf.language`         — the language of a right-hand side over given languages.
* `mem_language_of_derives` — families that are closed under the rules hold what is derived.
* `derives_many_snoc`     — a repetition goes on at its end as well.
-/

namespace Scriptlet.Grammar

/-- A right-hand side in extended Backus-Naur form. -/
inductive Ebnf (N T : Type) where
  | token (t : T)
  | rule (n : N)
  | seq (a b : Ebnf N T)
  | alt (a b : Ebnf N T)
  | opt (a : Ebnf N T)
  | many (a : Ebnf N T)

variable {N T A : Type}

instance : Append (Ebnf N T) := ⟨.seq⟩

instance : OrElse (Ebnf N T) := ⟨fun a b => .alt a (b ())⟩

/-- The words that a right-hand side derives with the rules of a grammar. -/
inductive Derives (g : N → Ebnf N T) : Ebnf N T → List T → Prop where
  | token {t : T} : Derives g (.token t) [t]
  | rule {n : N} {w : List T} : Derives g (g n) w → Derives g (.rule n) w
  | seq {a b : Ebnf N T} {v w : List T} :
      Derives g a v → Derives g b w → Derives g (a ++ b) (v ++ w)
  | left {a b : Ebnf N T} {w : List T} : Derives g a w → Derives g (a <|> b) w
  | right {a b : Ebnf N T} {w : List T} : Derives g b w → Derives g (a <|> b) w
  | absent {a : Ebnf N T} : Derives g (.opt a) []
  | present {a : Ebnf N T} {w : List T} : Derives g a w → Derives g (.opt a) w
  | none {a : Ebnf N T} : Derives g (.many a) []
  | more {a : Ebnf N T} {v w : List T} :
      Derives g a v → Derives g (.many a) w → Derives g (.many a) (v ++ w)

/--
The language of a right-hand side, given one for every nonterminal. Its letters
may carry more than the tokens of the grammar, which are read off by `f`.
-/
def Ebnf.language (f : A → T) (L : N → Language A) : Ebnf N T → Language A
  | token t => {w | ∃ a, f a = t ∧ w = [a]}
  | rule n => L n
  | seq a b => a.language f L * b.language f L
  | alt a b => a.language f L + b.language f L
  | opt a => 1 + a.language f L
  | many a => KStar.kstar (a.language f L)

section

variable {f : A → T} {L : N → Language A} {a b : Ebnf N T} {w : List A}

theorem mem_language_append :
    w ∈ (a ++ b).language f L ↔
      ∃ u ∈ a.language f L, ∃ v ∈ b.language f L, u ++ v = w :=
  Language.mem_mul

theorem mem_language_token_append {t : T} :
    w ∈ (Ebnf.token t ++ b).language f L ↔
      ∃ a, f a = t ∧ ∃ v ∈ b.language f L, a :: v = w := by
  rw [mem_language_append]
  constructor
  · intro h
    obtain ⟨u, ⟨a, ha, rfl⟩, v, hv, rfl⟩ := h
    exact ⟨a, ha, v, hv, rfl⟩
  · intro h
    obtain ⟨a, ha, v, hv, rfl⟩ := h
    exact ⟨[a], ⟨a, ha, rfl⟩, v, hv, rfl⟩

theorem mem_language_orElse :
    w ∈ (a <|> b).language f L ↔ w ∈ a.language f L ∨ w ∈ b.language f L :=
  Language.mem_add _ _ _

theorem mem_language_opt : w ∈ a.opt.language f L ↔ w = [] ∨ w ∈ a.language f L :=
  Language.mem_add _ _ _

theorem mem_language_many :
    w ∈ a.many.language f L ↔ ∃ ws : List (List A), w = ws.flatten ∧ ∀ v ∈ ws, v ∈ a.language f L :=
  Language.mem_kstar

end

/-- Languages that are closed under the rules hold every derived word. -/
theorem mem_language_of_derives {g : N → Ebnf N T} {f : A → T} {L : N → Language A}
    (hL : ∀ n, (g n).language f L ≤ L n) {e : Ebnf N T} {w : List T} (h : Derives g e w) :
    ∀ v : List A, v.map f = w → v ∈ e.language f L := by
  induction h with
  | token =>
    intro v hv
    obtain ⟨a, rfl, ha⟩ := List.map_eq_singleton_iff.mp hv
    exact ⟨a, ha, rfl⟩
  | rule h ih =>
    intro v hv
    exact hL _ (ih v hv)
  | seq ha hb iha ihb =>
    intro v hv
    obtain ⟨v₁, v₂, rfl, h₁, h₂⟩ := List.map_eq_append_iff.mp hv
    exact Language.append_mem_mul (iha v₁ h₁) (ihb v₂ h₂)
  | left h ih =>
    intro v hv
    exact (Language.mem_add _ _ v).mpr (.inl (ih v hv))
  | right h ih =>
    intro v hv
    exact (Language.mem_add _ _ v).mpr (.inr (ih v hv))
  | absent =>
    intro v hv
    rw [List.map_eq_nil_iff.mp hv]
    exact (Language.mem_add _ _ []).mpr (.inl Language.nil_mem_one)
  | present h ih =>
    intro v hv
    exact (Language.mem_add _ _ v).mpr (.inr (ih v hv))
  | none =>
    intro v hv
    rw [List.map_eq_nil_iff.mp hv]
    exact Language.nil_mem_kstar _
  | @more a _ _ ha hMany iha ihMany =>
    intro v hv
    obtain ⟨v₁, v₂, rfl, h₁, h₂⟩ := List.map_eq_append_iff.mp hv
    have hLe : a.language f L * KStar.kstar (a.language f L) ≤ KStar.kstar (a.language f L) :=
      mul_kstar_le_kstar
    exact hLe (Language.append_mem_mul (iha v₁ h₁) (ihMany v₂ h₂))

-- ---------------------------------------------------------------------------
-- Repetitions
-- ---------------------------------------------------------------------------

section

variable {g : N → Ebnf N T} {a b : Ebnf N T}

theorem derives_append_iff {w : List T} :
    Derives g (a ++ b) w ↔ ∃ u v, Derives g a u ∧ Derives g b v ∧ u ++ v = w := by
  constructor
  · intro h
    generalize hc : a ++ b = c at h
    cases h with
    | seq ha hb =>
      cases hc
      exact ⟨_, _, ha, hb, rfl⟩
    | _ => cases hc
  · intro h
    obtain ⟨u, v, ha, hb, rfl⟩ := h
    exact .seq ha hb

/-- A repetition goes on at its end as well as at its front. -/
theorem derives_many_snoc {v w : List T} (hMany : Derives g (.many a) v) (hw : Derives g a w) :
    Derives g (.many a) (v ++ w) := by
  generalize hb : Ebnf.many a = b at hMany
  induction hMany with
  | none =>
    cases hb
    have := Derives.more hw .none
    rwa [List.append_nil] at this
  | more hFirst _ _ ih =>
    cases hb
    rw [List.append_assoc]
    exact .more hFirst (ih rfl)
  | _ => cases hb

/-- The words of a list, one after the other. -/
theorem derives_many_flatMap {B : Type} {f : B → List T} {bs : List B}
    (h : ∀ b ∈ bs, Derives g a (f b)) : Derives g (.many a) (bs.flatMap f) := by
  induction bs with
  | nil => exact .none
  | cons b bs ih =>
    rw [List.flatMap_cons]
    exact .more (h b List.mem_cons_self) (ih fun c hc => h c (List.mem_cons_of_mem b hc))

end

end Scriptlet.Grammar
