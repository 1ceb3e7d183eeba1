import Mathlib.Logic.Basic
import Mathlib.Data.List.Basic

/-!
# Runs of a partial step function

A machine is a function `step : σ → α → Option σ`: the label `α` is one
atomic move of one party (a statement of a program, a move of the transport,
an arrival), and `none` says the move is not enabled in that state. A run is
a list of labels, so an interleaving is a value and can be evaluated.

The rules here are the only inductions over runs the development makes:

* `run_invariant`: what every step preserves holds at the end of a run;
* `Meets.invariant`: the same for runs whose steps all meet a condition;
* `run_length_le`: what every step lowers bounds the run;
* `Projects.invariant`: an invariant of one component's machine, lifted to
  every component of a system that projects to it;
* `run_map`: a machine that keeps a history beside the state of another;
* `run_noted`: an invariant of the state and of what the steps have put down;
* `run_refined`: each step of one machine as a run of another;
* `run_projected`: each step of a machine as a step of its part, or none.
-/

namespace Run

variable {σ α : Type*} {step : σ → α → Option σ}

/-- The state after a list of labels, when every one of them is enabled. -/
def run (step : σ → α → Option σ) : σ → List α → Option σ
  | s, [] => some s
  | s, a :: as => (step s a).bind fun t => run step t as

/-- Every step of the run meets `P` in the state it is taken from. -/
def Meets (step : σ → α → Option σ) (P : σ → α → Prop) : σ → List α → Prop
  | _, [] => True
  | s, a :: as => P s a ∧ ∀ t, step s a = some t → Meets step P t as

@[simp] theorem run_nil (s : σ) : run step s [] = some s := rfl

theorem run_cons {s t : σ} {a : α} {as : List α} (h : run step s (a :: as) = some t) :
    ∃ u, step s a = some u ∧ run step u as = some t := by
  simpa [run, Option.bind_eq_some_iff] using h

theorem run_append {s t u : σ} {as bs : List α} (h : run step s as = some t)
    (h' : run step t bs = some u) : run step s (as ++ bs) = some u := by
  induction as generalizing s with
  | nil => cases h; exact h'
  | cons a as ih =>
    obtain ⟨v, hv, hr⟩ := run_cons h
    simpa [run, hv] using ih hr

theorem run_of_append {s t : σ} {as bs : List α} (h : run step s (as ++ bs) = some t) :
    ∃ u, run step s as = some u ∧ run step u bs = some t := by
  induction as generalizing s with
  | nil => exact ⟨s, rfl, h⟩
  | cons a as ih =>
    obtain ⟨v, hv, hr⟩ := run_cons h
    obtain ⟨u, hu, ht⟩ := ih hr
    exact ⟨u, by simp [run, hv, hu], ht⟩

/-- What every step meets is what the step behind every part of the run meets. -/
theorem meets_iff {P : σ → α → Prop} {s : σ} {as : List α} :
    Meets step P s as ↔
      ∀ bs a cs u, as = bs ++ a :: cs → run step s bs = some u → P u a := by
  induction as generalizing s with
  | nil => exact ⟨fun _ bs a cs u h => by simp at h, fun _ => trivial⟩
  | cons b as ih =>
    constructor
    · rintro ⟨hb, hrest⟩ bs a cs u heq hr
      cases bs with
      | nil =>
        obtain ⟨rfl, -⟩ : b = a ∧ as = cs := by simpa using heq
        cases hr
        exact hb
      | cons c bs =>
        obtain ⟨rfl, rfl⟩ : b = c ∧ as = bs ++ a :: cs := by simpa using heq
        obtain ⟨v, hv, hr⟩ := run_cons hr
        exact ih.mp (hrest v hv) bs a cs u rfl hr
    · refine fun h => ⟨h [] b as s rfl rfl, fun t ht => ih.mpr fun bs a cs u heq hr => ?_⟩
      exact h (b :: bs) a cs u (by simp [heq]) (by simp [run, ht, hr])

/-- Whether a run meets a condition that can be decided can be decided by
running it. -/
instance Meets.decidable {P : σ → α → Prop} [∀ s a, Decidable (P s a)] :
    ∀ (s : σ) (as : List α), Decidable (Meets step P s as)
  | _, [] => .isTrue trivial
  | s, a :: as =>
    match h : step s a with
    | none => decidable_of_iff (P s a) ⟨fun hP => ⟨hP, fun t ht => by simp [h] at ht⟩, And.left⟩
    | some t =>
      have := Meets.decidable (P := P) t as
      decidable_of_iff (P s a ∧ Meets step P t as)
        ⟨fun hP => ⟨hP.1, fun u hu => Option.some.inj (h.symm.trans hu) ▸ hP.2⟩,
          fun hP => ⟨hP.1, hP.2 t h⟩⟩

theorem Meets.mono {P Q : σ → α → Prop} (hPQ : ∀ s a, P s a → Q s a) :
    ∀ {s : σ} {as : List α}, Meets step P s as → Meets step Q s as
  | _, [], _ => trivial
  | _, _ :: _, h => ⟨hPQ _ _ h.1, fun t ht => (h.2 t ht).mono hPQ⟩

theorem Meets.and {P Q : σ → α → Prop} {s : σ} {as : List α} (hP : Meets step P s as)
    (hQ : Meets step Q s as) : Meets step (fun s a => P s a ∧ Q s a) s as := by
  induction as generalizing s with
  | nil => trivial
  | cons a as ih => exact ⟨⟨hP.1, hQ.1⟩, fun t ht => ih (hP.2 t ht) (hQ.2 t ht)⟩

/-- A condition on labels alone is met when every label of the run meets it. -/
theorem Meets.of_forall {Q : α → Prop} {s : σ} {as : List α} (h : ∀ a ∈ as, Q a) :
    Meets step (fun _ a => Q a) s as := by
  induction as generalizing s with
  | nil => trivial
  | cons a as ih => exact ⟨h a (by simp), fun t _ => ih fun b hb => h b (by simp [hb])⟩

theorem Meets.append {P : σ → α → Prop} {s t : σ} {as bs : List α} (h : run step s as = some t)
    (hs : Meets step P s as) (ht : Meets step P t bs) : Meets step P s (as ++ bs) := by
  induction as generalizing s with
  | nil => cases h; exact ht
  | cons a as ih =>
    obtain ⟨u, hu, hr⟩ := run_cons h
    refine ⟨hs.1, fun v hv => ?_⟩
    obtain rfl : u = v := Option.some.inj (hu.symm.trans hv)
    exact ih hr (hs.2 u hu)

/-- What a run meets, its first part meets. -/
theorem Meets.left {P : σ → α → Prop} {s : σ} {as bs : List α}
    (hm : Meets step P s (as ++ bs)) : Meets step P s as := by
  induction as generalizing s with
  | nil => trivial
  | cons a as ih => exact ⟨hm.1, fun t ht => ih (hm.2 t ht)⟩

/-- And its second part, from where the first one ends. -/
theorem Meets.right {P : σ → α → Prop} {s t : σ} {as bs : List α} (h : run step s as = some t)
    (hm : Meets step P s (as ++ bs)) : Meets step P t bs := by
  induction as generalizing s with
  | nil => cases h; exact hm
  | cons a as ih =>
    obtain ⟨u, hu, hr⟩ := run_cons h
    exact ih hr (hm.2 u hu)

/-- Every label of a run is enabled where it is taken. -/
theorem Meets.enabled {s t : σ} {as : List α} (h : run step s as = some t) :
    Meets step (fun s a => (step s a).isSome) s as := by
  induction as generalizing s with
  | nil => trivial
  | cons a as ih =>
    obtain ⟨u, hu, hr⟩ := run_cons h
    refine ⟨by simp [hu], fun v hv => ?_⟩
    obtain rfl : u = v := Option.some.inj (hu.symm.trans hv)
    exact ih hr

/-- Along a run, an invariant of its steps may be added to what they meet. -/
theorem Meets.keeping {P : σ → α → Prop} {I : σ → Prop}
    (hstep : ∀ s a t, I s → P s a → step s a = some t → I t) {s : σ} {as : List α}
    (hm : Meets step P s as) (hs : I s) : Meets step (fun s a => I s ∧ P s a) s as := by
  induction as generalizing s with
  | nil => trivial
  | cons a as ih => exact ⟨⟨hs, hm.1⟩, fun t ht => ih (hm.2 t ht) (hstep s a t hs hm.1 ht)⟩

/-- The run rule under a condition on the steps. -/
theorem Meets.invariant {P : σ → α → Prop} {I : σ → Prop}
    (hstep : ∀ s a t, I s → P s a → step s a = some t → I t) {s t : σ} {as : List α}
    (hm : Meets step P s as) (h : run step s as = some t) (hs : I s) : I t := by
  induction as generalizing s with
  | nil => cases h; exact hs
  | cons a as ih =>
    obtain ⟨u, hu, hr⟩ := run_cons h
    exact ih (hm.2 u hu) hr (hstep s a u hs hm.1 hu)

/-- What every step preserves holds in every state a run reaches. -/
theorem run_invariant {I : σ → Prop} (hstep : ∀ s a t, I s → step s a = some t → I t)
    {s t : σ} {as : List α} (h : run step s as = some t) (hs : I s) : I t :=
  Meets.invariant (P := fun _ _ => True) (fun s a t hi _ => hstep s a t hi)
    (Meets.of_forall (Q := fun _ => True) fun _ _ => trivial) h hs

/-- What every step lowers bounds the length of a run. -/
theorem run_length_le {m : σ → Nat} (hstep : ∀ s a t, step s a = some t → m t < m s) {s t : σ}
    {as : List α} (h : run step s as = some t) : as.length + m t ≤ m s := by
  induction as generalizing s with
  | nil => cases h; simp
  | cons a as ih =>
    obtain ⟨u, hu, hr⟩ := run_cons h
    have hlt := hstep s a u hu
    have hle := ih hr
    simp only [List.length_cons]
    omega

/-- A machine each of whose steps is, as seen through `f`, a step of another one
runs as that one does. -/
theorem run_map {τ : Type*} {step' : τ → α → Option τ} {f : τ → σ}
    (hstep : ∀ t a, (step' t a).map f = step (f t) a) (t : τ) (as : List α) :
    (run step' t as).map f = run step (f t) as := by
  induction as generalizing t with
  | nil => rfl
  | cons a as ih =>
    have h := hstep t a
    cases ht : step' t a with
    | none =>
      have hs : step (f t) a = none := by simpa [ht] using h.symm
      simp [run, ht, hs]
    | some u =>
      have hs : step (f t) a = some (f u) := by simpa [ht] using h.symm
      simpa [run, ht, hs] using ih u

/-- And meets what that one meets. -/
theorem Meets.of_map {τ : Type*} {step' : τ → α → Option τ} {f : τ → σ} {P : σ → α → Prop}
    (hstep : ∀ t a, (step' t a).map f = step (f t) a) {t : τ} {as : List α}
    (hm : Meets step P (f t) as) : Meets step' (fun t a => P (f t) a) t as := by
  induction as generalizing t with
  | nil => trivial
  | cons a as ih =>
    refine ⟨hm.1, fun u hu => ih (hm.2 (f u) ?_)⟩
    rw [← hstep, hu]
    rfl

/-- What the steps of a run put down, oldest first. -/
def noted {β : Type*} (step : σ → α → Option σ) (note : σ → α → List β) : σ → List α → List β
  | _, [] => []
  | s, a :: as =>
    note s a ++
      match step s a with
      | some t => noted step note t as
      | none => []

/-- What every step preserves of the state and of what has been put down so far. -/
theorem run_noted {β : Type*} {note : σ → α → List β} {Q : α → Prop} {I : σ → List β → Prop}
    (hstep : ∀ s a t ps, I s ps → Q a → step s a = some t → I t (ps ++ note s a)) {s t : σ}
    {as : List α} (ps : List β) (hQ : ∀ a ∈ as, Q a) (h : run step s as = some t) (hs : I s ps) :
    I t (ps ++ noted step note s as) := by
  induction as generalizing s ps with
  | nil => cases h; simpa [noted] using hs
  | cons a as ih =>
    obtain ⟨u, hu, hr⟩ := run_cons h
    have hnext := ih (ps ++ note s a) (fun b hb => hQ b (by simp [hb])) hr
      (hstep s a u ps hs (hQ a (by simp)) hu)
    simpa [noted, hu] using hnext

/-- A machine each of whose steps is a run of another one reaches nothing the
other does not reach. -/
theorem run_refined {β : Type*} {step' : σ → β → Option σ} {P : σ → α → Prop}
    {Q : σ → β → Prop}
    (hstep : ∀ s a t, P s a → step s a = some t →
      ∃ bs, run step' s bs = some t ∧ Meets step' Q s bs) {s t : σ} {as : List α}
    (hm : Meets step P s as) (h : run step s as = some t) :
    ∃ bs, run step' s bs = some t ∧ Meets step' Q s bs := by
  induction as generalizing s with
  | nil => exact ⟨[], h, trivial⟩
  | cons a as ih =>
    obtain ⟨u, hu, hr⟩ := run_cons h
    obtain ⟨bs, hbs, hbm⟩ := hstep s a u hm.1 hu
    obtain ⟨cs, hcs, hcm⟩ := ih (hm.2 u hu) hr
    exact ⟨bs ++ cs, run_append hbs hcs, hbm.append hbs hcm⟩

/-- A machine each of whose steps is, for a part `f` of its state, a step of
another one or none, runs there as that one does. -/
theorem run_projected {τ β : Type*} {step' : τ → β → Option τ} {f : σ → τ} {P : σ → α → Prop}
    {Q : τ → β → Prop}
    (hstep : ∀ s a t, P s a → step s a = some t →
      f t = f s ∨ ∃ b, Q (f s) b ∧ step' (f s) b = some (f t)) {s t : σ} {as : List α}
    (hm : Meets step P s as) (h : run step s as = some t) :
    ∃ bs, run step' (f s) bs = some (f t) ∧ Meets step' Q (f s) bs := by
  induction as generalizing s with
  | nil => cases h; exact ⟨[], rfl, trivial⟩
  | cons a as ih =>
    obtain ⟨u, hu, hr⟩ := run_cons h
    obtain ⟨bs, hbs, hmeets⟩ := ih (hm.2 u hu) hr
    rcases hstep s a u hm.1 hu with hsame | ⟨b, hQ, hb⟩
    · rw [hsame] at hbs hmeets
      exact ⟨bs, hbs, hmeets⟩
    · refine ⟨b :: bs, by simp [run, hb, hbs], hQ, fun v hv => ?_⟩
      obtain rfl : f u = v := Option.some.inj (hb.symm.trans hv)
      exact hmeets

/-! ## Components

A system with many components of one kind: `view s c` is component `c` as a
state of the component's own machine `lstep`, when it exists. -/

/-- Every step of the system that meets `P` leaves a component as it was,
creates it in an initial state, or is a step of the component's machine that
meets `Q`. `G` is what the system itself keeps and the projection rests on. -/
structure Projects {κ τ β : Type*} (step : σ → α → Option σ) (G : σ → Prop)
    (P : σ → α → Prop) (view : σ → κ → Option τ) (linit : κ → τ → Prop)
    (lstep : τ → β → Option τ) (Q : τ → β → Prop) : Prop where
  keeps : ∀ s a t, G s → step s a = some t → G t
  component : ∀ s a t, G s → P s a → step s a = some t → ∀ c l', view t c = some l' →
    view s c = some l' ∨ (view s c = none ∧ linit c l') ∨
      ∃ l b, view s c = some l ∧ Q l b ∧ lstep l b = some l'

section Projects

variable {κ τ β : Type*} {G : σ → Prop} {P : σ → α → Prop} {view : σ → κ → Option τ}
  {linit : κ → τ → Prop} {lstep : τ → β → Option τ} {Q : τ → β → Prop} {I : κ → τ → Prop}

/-- An invariant of the component's machine is kept by every step of the
system. -/
theorem Projects.preserves (hp : Projects step G P view linit lstep Q)
    (hinit : ∀ c l, linit c l → I c l)
    (hstep : ∀ c l b l', I c l → Q l b → lstep l b = some l' → I c l') {s t : σ} {a : α}
    (hG : G s) (hP : P s a) (ha : step s a = some t) (hs : ∀ c l, view s c = some l → I c l) :
    ∀ c l, view t c = some l → I c l := by
  intro c l' hl'
  rcases hp.component s a t hG hP ha c l' hl' with hv | ⟨-, hi⟩ | ⟨l, b, hv, hQ, hb⟩
  · exact hs c l' hv
  · exact hinit c l' hi
  · exact hstep c l b l' (hs c l hv) hQ hb

/-- So it holds of every component in every state a run of the system
reaches. -/
theorem Projects.invariant (hp : Projects step G P view linit lstep Q)
    (hinit : ∀ c l, linit c l → I c l)
    (hstep : ∀ c l b l', I c l → Q l b → lstep l b = some l' → I c l') {s t : σ} {as : List α}
    (h : run step s as = some t) (hm : Meets step P s as) (hG : G s)
    (hs : ∀ c l, view s c = some l → I c l) : G t ∧ ∀ c l, view t c = some l → I c l :=
  Meets.invariant (I := fun s => G s ∧ ∀ c l, view s c = some l → I c l)
    (fun s a t hI hP ha => ⟨hp.keeps s a t hI.1 ha, hp.preserves hinit hstep hI.1 hP ha hI.2⟩)
    hm h ⟨hG, hs⟩

end Projects

end Run
