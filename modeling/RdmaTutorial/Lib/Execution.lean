import Mathlib.Data.Set.Finite.Lattice
import Mathlib.Order.Interval.Finset.Nat
import RdmaTutorial.Lib.Run

/-!
# Executions that never end

Whether a loop terminates is a question about infinite executions of a machine
`step : σ → α → Option σ`. An execution is an infinite sequence of labels with the
states they lead to, each one enabled where it is taken.

* `Execution.invariant`: what every step preserves holds in every state;
* `finite_of_descending`: steps that lower a measure occur finitely often, if
  those that may raise it do;
* `exists_execution`: labels that are enabled one after the other, as an
  indexed invariant shows, are the labels of an execution;
* `idling`: the machine that may also stand still, so that an execution may stop
  for good; `WeakFair` then says which steps it must not put off for ever.
-/

namespace Run

variable {σ α : Type*} {step : σ → α → Option σ} {s : σ}

/-- An infinite run from `s`. -/
structure Execution (step : σ → α → Option σ) (s : σ) where
  state : ℕ → σ
  label : ℕ → α
  start : state 0 = s
  next : ∀ n, step (state n) (label n) = some (state (n + 1))

namespace Execution

theorem invariant {I : σ → Prop} (hstep : ∀ s a t, I s → step s a = some t → I t) (hs : I s)
    (x : Execution step s) (n : ℕ) : I (x.state n) := by
  induction n with
  | zero => rwa [x.start]
  | succ n ih => exact hstep _ _ _ ih (x.next n)

end Execution

/-! ## Measures -/

section Measure

variable {m : ℕ → ℕ} {D C G : ℕ → Prop}

/-- Behind the last step that may raise it, a measure does not rise. -/
theorem le_of_no_gain (hD : ∀ n, D (n + 1) → D n) (hle : ∀ n, D n → ¬G n → m (n + 1) ≤ m n)
    {N : ℕ} (hN : ∀ n, N ≤ n → D n → ¬G n) {n : ℕ} (hn : N ≤ n) (h : D n) : m n ≤ m N := by
  induction n, hn using Nat.le_induction with
  | base => exact Nat.le_refl _
  | succ n hn ih =>
    have hDn := hD n h
    exact Nat.le_trans (hle n hDn (hN n hn hDn)) (ih hDn)

theorem finite_of_no_gain (hD : ∀ n, D (n + 1) → D n)
    (hle : ∀ n, D n → ¬G n → m (n + 1) ≤ m n)
    (hlt : ∀ n, D n → ¬G n → C n → m (n + 1) < m n) (k : ℕ) :
    ∀ N, m N ≤ k → (∀ n, N ≤ n → D n → ¬G n) → {n | D n ∧ C n}.Finite := by
  -- The induction is on what is left of the measure: each cost takes some of it.
  induction k with
  | zero =>
    intro N hk hN
    refine (Set.finite_lt_nat N).subset fun n ⟨hDn, hcost⟩ => ?_
    by_contra hge
    have hn : N ≤ n := Nat.le_of_not_lt hge
    have hlow := le_of_no_gain hD hle hN hn hDn
    have hdrop := hlt n hDn (hN n hn hDn) hcost
    omega
  | succ k ih =>
    intro N hk hN
    by_cases hany : ∃ n, N ≤ n ∧ D n ∧ C n
    · obtain ⟨n, hn, hDn, hcost⟩ := hany
      have hlow := le_of_no_gain hD hle hN hn hDn
      have hdrop := hlt n hDn (hN n hn hDn) hcost
      exact ih (n + 1) (by omega) fun i hi => hN i (by omega)
    · refine (Set.finite_lt_nat N).subset fun n hn => ?_
      by_contra hge
      exact hany ⟨n, Nat.le_of_not_lt hge, hn⟩

/-- As long as `D` goes on: if the steps that may raise the measure are finitely
many, so are those that lower it. -/
theorem finite_of_descending (hD : ∀ n, D (n + 1) → D n)
    (hle : ∀ n, D n → ¬G n → m (n + 1) ≤ m n)
    (hlt : ∀ n, D n → ¬G n → C n → m (n + 1) < m n) (hG : {n | D n ∧ G n}.Finite) :
    {n | D n ∧ C n}.Finite := by
  obtain ⟨N, hN⟩ := hG.bddAbove
  refine finite_of_no_gain hD hle hlt _ (N + 1) (Nat.le_refl _) fun n hn hDn hg => ?_
  have := hN ⟨hDn, hg⟩
  omega

end Measure

/-! ## Executions from their labels -/

/-- Where the first `n` labels lead. -/
def after (step : σ → α → Option σ) (s : σ) (labels : ℕ → α) : ℕ → σ
  | 0 => s
  | n + 1 => (step (after step s labels n) (labels n)).getD (after step s labels n)

/-- An invariant that says of each label that it is enabled makes the labels
those of an execution. -/
theorem exists_execution {f : ℕ → α} {I : ℕ → σ → Prop}
    (hstep : ∀ n s, I n s → ∃ t, step s (f n) = some t ∧ I (n + 1) t) (hs : I 0 s) :
    ∃ x : Execution step s, x.label = f ∧ ∀ n, I n (x.state n) := by
  have hI : ∀ n, I n (after step s f n) := by
    intro n
    induction n with
    | zero => exact hs
    | succ n ih =>
      obtain ⟨t, ht, hnext⟩ := hstep n _ ih
      simpa [after, ht] using hnext
  refine ⟨⟨after step s f, f, rfl, fun n => ?_⟩, rfl, hI⟩
  obtain ⟨t, ht, -⟩ := hstep n _ (hI n)
  simp [after, ht]

/-! ## Executions that may stop -/

/-- `step`, or nothing at all. -/
def idling (step : σ → α → Option σ) (s : σ) : Option α → Option σ
  | none => some s
  | some a => step s a

namespace Execution

variable {F : α → Prop}

/-- The `n`th step has a label in `F`. -/
def Takes (x : Execution (idling step) s) (F : α → Prop) (n : ℕ) : Prop := ∃ a ∈ x.label n, F a

/-- Labels of `F` that are enabled from some point on are not put off for ever. -/
def WeakFair (x : Execution (idling step) s) (F : α → Prop) : Prop :=
  ∀ N, (∀ n, N ≤ n → ∃ a, F a ∧ (step (x.state n) a).isSome) → ∃ n, N ≤ n ∧ x.Takes F n

/-- A step, or nothing happens. -/
theorem cases_next (x : Execution (idling step) s) (n : ℕ) :
    (x.label n = none ∧ x.state (n + 1) = x.state n) ∨
      ∃ a, x.label n = some a ∧ step (x.state n) a = some (x.state (n + 1)) := by
  have hnext := x.next n
  cases hlabel : x.label n with
  | none =>
    rw [hlabel] at hnext
    exact .inl ⟨rfl, (Option.some.inj hnext).symm⟩
  | some a =>
    rw [hlabel] at hnext
    exact .inr ⟨a, rfl, hnext⟩

theorem Takes.next {x : Execution (idling step) s} {n : ℕ} (h : x.Takes F n) :
    ∃ a, F a ∧ step (x.state n) a = some (x.state (n + 1)) := by
  obtain ⟨a, hlabel, ha⟩ := h
  have hnext := x.next n
  rw [Option.mem_def.mp hlabel] at hnext
  exact ⟨a, ha, hnext⟩

/-- What every step preserves holds in every state. -/
theorem invariant_of_idling {I : σ → Prop} (hstep : ∀ s a t, I s → step s a = some t → I t)
    (hs : I s) (x : Execution (idling step) s) (n : ℕ) : I (x.state n) := by
  refine x.invariant (fun s a t hI h => ?_) hs n
  cases a with
  | none => exact Option.some.inj h ▸ hI
  | some a => exact hstep s a t hI h

/-- What is taken finitely often only is not enabled for ever. -/
theorem WeakFair.exists_disabled {x : Execution (idling step) s} (h : x.WeakFair F)
    (hfin : {n | x.Takes F n}.Finite) : ∃ n, ∀ a, F a → step (x.state n) a = none := by
  obtain ⟨N, hN⟩ := hfin.bddAbove
  by_contra hno
  obtain ⟨n, hn, htakes⟩ := h (N + 1) fun n _ => by
    by_contra hnone
    refine hno ⟨n, fun a ha => ?_⟩
    by_contra hsome
    exact hnone ⟨a, ha, Option.isSome_iff_ne_none.mpr hsome⟩
  exact absurd (hN htakes) (by omega)

end Execution

/-- A run, and behind it nothing. -/
theorem exists_execution_of_run {t : σ} {as : List α} (h : run step s as = some t) :
    ∃ x : Execution (idling step) s, (∀ n, x.label n = as[n]?) ∧
      (∀ n u, run step s (as.take n) = some u → x.state n = u) ∧
      ∀ n, as.length ≤ n → x.state n = t := by
  have hI : ∀ n u, run step s (as.take n) = some u →
      ∃ v, idling step u as[n]? = some v ∧ run step s (as.take (n + 1)) = some v := by
    intro n u hu
    by_cases hn : n < as.length
    · have htake : as.take (n + 1) = as.take n ++ [as[n]] := (List.take_append_getElem hn).symm
      have hsplit : as = as.take n ++ as[n] :: as.drop (n + 1) := by
        rw [List.getElem_cons_drop, List.take_append_drop]
      rw [hsplit] at h
      obtain ⟨w, hw, hrest⟩ := run_of_append h
      obtain rfl : u = w := Option.some.inj (hu.symm.trans hw)
      obtain ⟨v, hv, -⟩ := run_cons hrest
      refine ⟨v, by simpa [List.getElem?_eq_getElem hn, idling] using hv, ?_⟩
      rw [htake]
      exact run_append hu (by simp [run, hv])
    · have hle : as.length ≤ n := Nat.le_of_not_lt hn
      refine ⟨u, by simp [List.getElem?_eq_none hle, idling], ?_⟩
      rw [List.take_of_length_le (Nat.le_succ_of_le hle)]
      rwa [List.take_of_length_le hle] at hu
  obtain ⟨x, hlabel, hstate⟩ := exists_execution (s := s) (f := fun n => as[n]?)
    (I := fun n u => run step s (as.take n) = some u) hI (by simp)
  refine ⟨x, fun n => congrFun hlabel n, fun n u hu => ?_, fun n hn => ?_⟩
  · exact Option.some.inj ((hstate n).symm.trans hu)
  · have hn' := hstate n
    rw [List.take_of_length_le hn] at hn'
    exact Option.some.inj (hn'.symm.trans h)

end Run
