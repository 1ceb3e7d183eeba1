import Mathlib.Algebra.BigOperators.Group.List.Basic
import Mathlib.Algebra.Order.Ring.Nat
import RdmaTutorial.Lib.Run

/-!
# Runs that come to an end

`P` says which labels are progress. Where each of them lowers a measure, a run
of progress is short, and each one can be gone on with until no progress is
possible (`Stuck`); so what holds of every stuck state is what every schedule
ends in.

* `Meets.length_le`: the measure bounds the run;
* `Meets.length_le_fees`: the same where some labels, which are no progress, add
  to it;
* `Meets.reaches_stuck`: the run leads to a stuck state;
* `Meets.length_le_of_descent`: the same of a bound that is no function of the
  state;
* `reaches_stuck_of_length_le`: runs that are all bounded lead to a stuck state;
* `Meets.skip`: a run that also takes steps which change nothing is, without
  these, a run of progress, as long as its `count` says.
-/

namespace Run

variable {σ α : Type*} {step : σ → α → Option σ} {P : σ → α → Prop} {I : σ → Prop} {m : σ → Nat}

/-- No label that meets `P` is enabled. -/
def Stuck (step : σ → α → Option σ) (P : σ → α → Prop) (s : σ) : Prop :=
  ∀ a, P s a → step s a = none

theorem exists_of_not_stuck {s : σ} (h : ¬ Stuck step P s) : ∃ a t, P s a ∧ step s a = some t := by
  simp only [Stuck, not_forall] at h
  obtain ⟨a, hP, hne⟩ := h
  obtain ⟨t, ht⟩ := Option.ne_none_iff_exists'.mp hne
  exact ⟨a, t, hP, ht⟩

/-- What every step lowers, up to a fee, bounds the length of a run by the fees. -/
theorem Meets.length_le_fees {f : α → Nat}
    (hstep : ∀ s a t, I s → P s a → step s a = some t → I t ∧ m t < m s + f a) {s t : σ}
    {as : List α} (hm : Meets step P s as) (h : run step s as = some t) (hs : I s) :
    as.length + m t ≤ m s + (as.map f).sum := by
  induction as generalizing s with
  | nil => cases h; simp
  | cons a as ih =>
    obtain ⟨u, hu, hr⟩ := run_cons h
    obtain ⟨hI, hlt⟩ := hstep s a u hs hm.1 hu
    have hle := ih (hm.2 u hu) hr hI
    simp only [List.length_cons, List.map_cons, List.sum_cons]
    omega

/-- What every step that meets `P` lowers bounds the length of a run of them. -/
theorem Meets.length_le
    (hstep : ∀ s a t, I s → P s a → step s a = some t → I t ∧ m t < m s) {s t : σ} {as : List α}
    (hm : Meets step P s as) (h : run step s as = some t) (hs : I s) :
    as.length + m t ≤ m s := by
  have hle := hm.length_le_fees (f := fun _ => 0) hstep h hs
  simpa using hle

/-- And such a run can be continued until no step meets `P` any more. -/
theorem Meets.reaches_stuck
    (hstep : ∀ s a t, I s → P s a → step s a = some t → I t ∧ m t < m s) {s : σ} (hs : I s) :
    ∃ as t, run step s as = some t ∧ Meets step P s as ∧ I t ∧ Stuck step P t := by
  induction hk : m s using Nat.strongRecOn generalizing s with
  | ind k ih =>
    by_cases hstuck : Stuck step P s
    · exact ⟨[], s, rfl, trivial, hs, hstuck⟩
    · obtain ⟨a, u, hP, hu⟩ := exists_of_not_stuck hstuck
      obtain ⟨hI, hlt⟩ := hstep s a u hs hP hu
      obtain ⟨as, t, hrun, hmeets, ht, hend⟩ := ih (m u) (hk ▸ hlt) hI rfl
      refine ⟨a :: as, t, by simp [run, hu, hrun], ⟨hP, fun v hv => ?_⟩, ht, hend⟩
      obtain rfl : u = v := Option.some.inj (hu.symm.trans hv)
      exact hmeets

/-- A bound that every step of progress lowers bounds the run. -/
theorem Meets.length_le_of_descent {D : Nat → σ → Prop}
    (hstep : ∀ n s a t, D n s → P s a → step s a = some t → ∃ k < n, D k t) {n : Nat} {s t : σ}
    {as : List α} (hm : Meets step P s as) (h : run step s as = some t) (hs : D n s) :
    as.length ≤ n := by
  induction as generalizing n s with
  | nil => simp
  | cons a as ih =>
    obtain ⟨u, hu, hr⟩ := run_cons h
    obtain ⟨k, hlt, hk⟩ := hstep n s a u hs hm.1 hu
    have hle := ih (hm.2 u hu) hr hk
    simp only [List.length_cons]
    omega

/-- Where no run of progress is longer than `k`, one leads to a stuck state. -/
theorem reaches_stuck_of_length_le {k : Nat} {s : σ}
    (h : ∀ as t, run step s as = some t → Meets step P s as → as.length ≤ k) :
    ∃ as t, run step s as = some t ∧ Meets step P s as ∧ Stuck step P t := by
  induction k generalizing s with
  | zero =>
    refine ⟨[], s, rfl, trivial, ?_⟩
    by_contra hne
    obtain ⟨a, t, hP, ht⟩ := exists_of_not_stuck hne
    exact absurd (h [a] t (by simp [run, ht]) ⟨hP, fun _ _ => trivial⟩) (by simp)
  | succ k ih =>
    by_cases hstuck : Stuck step P s
    · exact ⟨[], s, rfl, trivial, hstuck⟩
    · obtain ⟨a, u, hP, hu⟩ := exists_of_not_stuck hstuck
      have hmeets : ∀ bs, Meets step P u bs → Meets step P s (a :: bs) := fun bs hbs =>
        ⟨hP, fun v hv => Option.some.inj (hu.symm.trans hv) ▸ hbs⟩
      obtain ⟨as, t, hrun, hm, hend⟩ := ih (s := u) fun bs v hv hbs =>
        Nat.le_of_succ_le_succ (h (a :: bs) v (by simp [run, hu, hv]) (hmeets bs hbs))
      exact ⟨a :: as, t, by simp [run, hu, hrun], hmeets as hm, hend⟩

/-! ## Steps that change nothing -/

section Count

variable [∀ s, DecidablePred (P s)] {Idle : σ → α → Prop}

/-- How many steps of a run are progress. -/
def count (step : σ → α → Option σ) (P : σ → α → Prop) [∀ s, DecidablePred (P s)] :
    σ → List α → Nat
  | _, [] => 0
  | s, a :: as => (if P s a then 1 else 0) + (step s a).elim 0 fun t => count step P t as

/-- Where the other steps change nothing, what a run does is done by its steps of
progress. -/
theorem Meets.skip (hidle : ∀ s a t, Idle s a → step s a = some t → t = s) {s t : σ}
    {as : List α} (hm : Meets step (fun s a => P s a ∨ Idle s a) s as)
    (h : run step s as = some t) : ∃ bs, bs.Sublist as ∧ run step s bs = some t ∧
      Meets step P s bs ∧ bs.length = count step P s as := by
  induction as generalizing s with
  | nil => exact ⟨[], .refl _, h, trivial, rfl⟩
  | cons a as ih =>
    obtain ⟨u, hu, hr⟩ := run_cons h
    obtain ⟨bs, hsub, hbs, hmeets, hlen⟩ := ih (hm.2 u hu) hr
    by_cases hP : P s a
    · refine ⟨a :: bs, hsub.cons_cons a, by simp [run, hu, hbs], ⟨hP, fun v hv => ?_⟩, ?_⟩
      · obtain rfl : u = v := Option.some.inj (hu.symm.trans hv)
        exact hmeets
      · simp only [count, if_pos hP, hu, Option.elim_some, List.length_cons, hlen]
        omega
    · obtain rfl := hidle s a u (hm.1.resolve_left hP) hu
      refine ⟨bs, hsub.cons a, hbs, hmeets, ?_⟩
      simp only [count, if_neg hP, hu, Option.elim_some, hlen]
      omega

end Count

end Run
