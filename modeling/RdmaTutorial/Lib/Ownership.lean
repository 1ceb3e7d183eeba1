import Mathlib.Data.Set.Basic
import Mathlib.Logic.Function.Basic

/-!
# Tables whose entries own resources

A table `T : κ → Option ε` says which keys have an entry, and `own : ε → Set ρ`
what an entry owns. Two things are wanted of such a table: that no resource has
two owners (`Apart`), and that what is in use is exactly what has an owner
(`Exactly`). The rules say what keeps them when an entry comes, changes or
goes.
-/

namespace Ownership

open Function

variable {κ ε ρ : Type*} [DecidableEq κ] {T : κ → Option ε} {own : ε → Set ρ} {S S' : Set ρ}
  {x : κ} {e e' : ε}

/-- No resource belongs to two entries. -/
def Apart (T : κ → Option ε) (own : ε → Set ρ) : Prop :=
  ∀ ⦃x y e f r⦄, T x = some e → T y = some f → r ∈ own e → r ∈ own f → x = y

/-- The resources in `S` are those of the entries. -/
def Exactly (T : κ → Option ε) (own : ε → Set ρ) (S : Set ρ) : Prop :=
  ∀ r, r ∈ S ↔ ∃ x e, T x = some e ∧ r ∈ own e

theorem update_eq_some {o : Option ε} {y : κ} {f : ε} :
    update T x o y = some f ↔ (y = x ∧ o = some f) ∨ (y ≠ x ∧ T y = some f) := by
  by_cases h : y = x
  · subst h; simp
  · simp [h]

/-- What holds of all entries holds on, if it does of the new one. -/
theorem forall_update {Q : κ → ε → Prop} (h : ∀ y f, T y = some f → Q y f) (hnew : Q x e) :
    ∀ y f, update T x (some e) y = some f → Q y f := by
  intro y f hf
  rcases update_eq_some.mp hf with ⟨rfl, ⟨⟩⟩ | ⟨-, hf⟩
  · exact hnew
  · exact h y f hf

omit [DecidableEq κ] in
/-- Who owns part of what another resource stands for owns it alone too. -/
theorem Apart.of_map {ρ' : Type*} {own' : ε → Set ρ'} (h : Apart T own) (g : ρ' → ρ)
    (hg : ∀ e, ∀ r ∈ own' e, g r ∈ own e) : Apart T own' :=
  fun _ _ e f r hx hy he hf => h hx hy (hg e r he) (hg f r hf)

/-- An entry comes whose resources were not in use. -/
theorem Apart.insert (h : Apart T own) (hS : Exactly T own S) (hfresh : ∀ r ∈ own e, r ∉ S) :
    Apart (update T x (some e)) own := by
  intro y z f g r hy hz hf hg
  rw [update_eq_some] at hy hz
  rcases hy with ⟨rfl, ⟨⟩⟩ | ⟨-, hy⟩ <;> rcases hz with ⟨rfl, ⟨⟩⟩ | ⟨-, hz⟩
  · rfl
  · exact absurd ((hS r).mpr ⟨z, g, hz, hg⟩) (hfresh r hf)
  · exact absurd ((hS r).mpr ⟨y, f, hy, hf⟩) (hfresh r hg)
  · exact h hy hz hf hg

/-- An entry goes. -/
theorem Apart.erase (h : Apart T own) : Apart (update T x none) own := by
  intro y z f g r hy hz hf hg
  rw [update_eq_some] at hy hz
  rcases hy with ⟨-, ⟨⟩⟩ | ⟨-, hy⟩
  rcases hz with ⟨-, ⟨⟩⟩ | ⟨-, hz⟩
  exact h hy hz hf hg

/-- An entry changes and owns what it did. -/
theorem Apart.replace (h : Apart T own) (hx : T x = some e) (hown : own e' = own e) :
    Apart (update T x (some e')) own := by
  intro y z f g r hy hz hf hg
  rw [update_eq_some] at hy hz
  rcases hy with ⟨rfl, ⟨⟩⟩ | ⟨-, hy⟩ <;> rcases hz with ⟨rfl, ⟨⟩⟩ | ⟨-, hz⟩
  · rfl
  · exact h hx hz (hown ▸ hf) hg
  · exact h hy hx hf (hown ▸ hg)
  · exact h hy hz hf hg

theorem Exactly.insert (h : Exactly T own S) (hx : T x = none)
    (hS : ∀ r, r ∈ S' ↔ r ∈ S ∨ r ∈ own e) : Exactly (update T x (some e)) own S' := by
  intro r
  rw [hS, h r]
  constructor
  · rintro (⟨y, f, hy, hr⟩ | hr)
    · have hne : y ≠ x := by rintro rfl; simp [hx] at hy
      exact ⟨y, f, by simp [hne, hy], hr⟩
    · exact ⟨x, e, by simp, hr⟩
  · rintro ⟨y, f, hy, hr⟩
    rw [update_eq_some] at hy
    rcases hy with ⟨-, ⟨⟩⟩ | ⟨-, hy⟩
    · exact .inr hr
    · exact .inl ⟨y, f, hy, hr⟩

theorem Exactly.erase (h : Exactly T own S) (ha : Apart T own) (hx : T x = some e)
    (hS : ∀ r, r ∈ S' ↔ r ∈ S ∧ r ∉ own e) : Exactly (update T x none) own S' := by
  intro r
  rw [hS, h r]
  constructor
  · rintro ⟨⟨y, f, hy, hr⟩, hn⟩
    have hne : y ≠ x := by
      rintro rfl
      exact hn (Option.some.inj (hx.symm.trans hy) ▸ hr)
    exact ⟨y, f, by simp [hne, hy], hr⟩
  · rintro ⟨y, f, hy, hr⟩
    rw [update_eq_some] at hy
    rcases hy with ⟨-, ⟨⟩⟩ | ⟨hne, hy⟩
    exact ⟨⟨y, f, hy, hr⟩, fun hr' => hne (ha hy hx hr hr')⟩

theorem Exactly.replace (h : Exactly T own S) (hx : T x = some e) (hown : own e' = own e) :
    Exactly (update T x (some e')) own S := by
  intro r
  rw [h r]
  constructor
  · rintro ⟨y, f, hy, hr⟩
    by_cases hyx : y = x
    · subst hyx
      exact ⟨y, e', by simp, hown ▸ Option.some.inj (hx.symm.trans hy) ▸ hr⟩
    · exact ⟨y, f, by simp [hyx, hy], hr⟩
  · rintro ⟨y, f, hy, hr⟩
    rw [update_eq_some] at hy
    rcases hy with ⟨rfl, ⟨⟩⟩ | ⟨-, hy⟩
    · exact ⟨y, e, hx, hown ▸ hr⟩
    · exact ⟨y, f, hy, hr⟩

end Ownership
