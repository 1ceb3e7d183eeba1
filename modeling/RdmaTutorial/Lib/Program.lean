import Mathlib.Algebra.BigOperators.Group.Finset.Piecewise
import Mathlib.Logic.Function.Basic
import RdmaTutorial.Lib.Run

/-!
# Programs that call libraries

A sequential program makes calls `c`, each of which is answered by a value of
type `R c`, and in the end returns a value or exits the process. What the calls
do is the matter of a `World`, and one program can be run in several. Others may
change the state of the world between two calls of the program: `E` says what
they may do (`wp`), and `Eq` leaves the program alone.

* `wp_bind`, `wp_mono`, `wp_stable`: the rules of the weakest precondition;
* `wp_step`: a call that is answered leaves the weakest precondition of the rest;
* `Within`: a bound of the number of calls, for the programs without a loop that
  waits;
* `Parallel.Keeps.step`: programs that run side by side, where what each
  guarantees is what the others rely on;
* `Parallel.length_le`: such a run is short, where each program is.
-/

universe u v

/-- A program that returns an `α` or exits with an `ε`. -/
inductive Program (C : Type u) (R : C → Type v) (ε α : Type v) where
  | ret (a : α)
  | exit (e : ε)
  | call (c : C) (k : R c → Program C R ε α)

namespace Program

variable {C : Type u} {R : C → Type v} {ε α β : Type v}

def bind : Program C R ε α → (α → Program C R ε β) → Program C R ε β
  | ret a, f => f a
  | exit e, _ => exit e
  | call c k, f => call c fun r => (k r).bind f

instance : Monad (Program C R ε) where
  pure := ret
  bind := bind

@[simp] theorem pure_eq (a : α) : (pure a : Program C R ε α) = ret a := rfl

@[simp] theorem ret_bind (a : α) (f : α → Program C R ε β) : ret a >>= f = f a := rfl

@[simp] theorem exit_bind (e : ε) (f : α → Program C R ε β) :
    (exit e : Program C R ε α) >>= f = exit e := rfl

@[simp] theorem call_bind (c : C) (k : R c → Program C R ε α) (f : α → Program C R ε β) :
    call c k >>= f = call c fun r => k r >>= f := rfl

instance : LawfulMonad (Program C R ε) := by
  refine LawfulMonad.mk' _ ?_ (fun _ _ => rfl) ?_
  · intro α x
    induction x with
    | ret a => rfl
    | exit e => rfl
    | call c k ih => exact congrArg (call c) (funext ih)
  · intro α β γ x f g
    induction x with
    | ret a => rfl
    | exit e => rfl
    | call c k ih => exact congrArg (call c) (funext ih)

/-- The program that makes one call and returns what it is answered. -/
def lift (c : C) : Program C R ε (R c) := call c ret

@[simp] theorem lift_bind (c : C) (f : R c → Program C R ε β) : lift c >>= f = call c f := rfl

/-- What a program that is over has come to. -/
def outcome : Program C R ε α → Option (Except ε α)
  | ret a => some (.ok a)
  | exit e => some (.error e)
  | call .. => none

/-- The call it makes next. -/
def next : Program C R ε α → Option C
  | call c _ => some c
  | _ => none

/-- The rest of a program whose next call is `c`, when it is answered `r`. -/
def answer [DecidableEq C] : Program C R ε α → (c : C) → R c → Option (Program C R ε α)
  | call d k, c, r => if h : c = d then some (k (h ▸ r)) else none
  | _, _, _ => none

theorem answer_eq_some [DecidableEq C] {p q : Program C R ε α} {c : C} {r : R c} :
    p.answer c r = some q ↔ ∃ k, p = call c k ∧ k r = q := by
  cases p with
  | ret a => simp [answer]
  | exit e => simp [answer]
  | call d k =>
    constructor
    · intro h
      by_cases hd : c = d
      · subst hd
        exact ⟨k, rfl, by simpa [answer] using h⟩
      · simp [answer, hd] at h
    · rintro ⟨k', h, rfl⟩
      cases h
      simp [answer]

end Program

/-- What the calls of one program do: where they may be made, and the state
behind a call that is answered so, if it can be. -/
structure World (C : Type u) (R : C → Type v) (σ : Type*) where
  Allowed : σ → C → Prop
  effect : σ → (c : C) → R c → Option σ

namespace Program

variable {C : Type u} {R : C → Type v} {ε α β : Type v} {σ : Type*}

/-! ## The weakest precondition -/

/-- Every state meets `I`, and others change it only along `E`. Then the program
makes only calls that are allowed, and ends in `Q`. -/
def wp (W : World C R σ) (I : σ → Prop) (E : σ → σ → Prop) (Q : Except ε α → σ → Prop) :
    Program C R ε α → σ → Prop
  | ret a, s => ∀ t, E s t → I t → Q (.ok a) t
  | exit e, s => ∀ t, E s t → I t → Q (.error e) t
  | call c k, s => ∀ t, E s t → I t →
      W.Allowed t c ∧ ∀ r u, W.effect t c r = some u → (k r).wp W I E Q u

variable {W : World C R σ} {I : σ → Prop} {E : σ → σ → Prop} {Q P : Except ε α → σ → Prop}
  {s t : σ}

/-- What others do does not harm. -/
theorem wp_stable [IsTrans σ E] {p : Program C R ε α} (h : p.wp W I E Q s) (ht : E s t) :
    p.wp W I E Q t := by
  cases p with
  | ret a => exact fun u hu => h u (Trans.trans ht hu)
  | exit e => exact fun u hu => h u (Trans.trans ht hu)
  | call c k => exact fun u hu => h u (Trans.trans ht hu)

theorem wp_mono (hQ : ∀ o s, Q o s → P o s) {p : Program C R ε α} (h : p.wp W I E Q s) :
    p.wp W I E P s := by
  induction p generalizing s with
  | ret a => exact fun t ht hI => hQ _ _ (h t ht hI)
  | exit e => exact fun t ht hI => hQ _ _ (h t ht hI)
  | call c k ih =>
    intro t ht hI
    obtain ⟨hallowed, hk⟩ := h t ht hI
    exact ⟨hallowed, fun r u hu => ih r (hk r u hu)⟩

theorem wp_of_forall [Std.Refl E] {p : Program C R ε α}
    (h : ∀ t, E s t → I t → p.wp W I E Q t) : p.wp W I E Q s := by
  cases p with
  | ret a => exact fun t ht hI => h t ht hI t (Std.Refl.refl t) hI
  | exit e => exact fun t ht hI => h t ht hI t (Std.Refl.refl t) hI
  | call c k => exact fun t ht hI => h t ht hI t (Std.Refl.refl t) hI

/-- One program behind another. -/
theorem wp_bind [Std.Refl E] {p : Program C R ε α} {f : α → Program C R ε β}
    {P : Except ε α → σ → Prop} {Q : Except ε β → σ → Prop} (hp : p.wp W I E P s)
    (hok : ∀ a t, P (.ok a) t → I t → (f a).wp W I E Q t)
    (herror : ∀ e t, P (.error e) t → Q (.error e) t) : (p >>= f).wp W I E Q s := by
  induction p generalizing s with
  | ret a => exact wp_of_forall fun t ht hI => hok a t (hp t ht hI) hI
  | exit e => exact fun t ht hI => herror e t (hp t ht hI)
  | call c k ih =>
    intro t ht hI
    obtain ⟨hallowed, hk⟩ := hp t ht hI
    exact ⟨hallowed, fun r u hu => ih r (hk r u hu)⟩

/-- The program makes one call, from an assertion that others keep. -/
theorem wp_call {A : σ → Prop} (hs : A s) (hkeep : ∀ t u, A t → E t u → I u → A u) {c : C}
    {k : R c → Program C R ε α} (hallowed : ∀ t, A t → I t → W.Allowed t c)
    (hk : ∀ t r u, A t → I t → W.effect t c r = some u → (k r).wp W I E Q u) :
    (call c k).wp W I E Q s := by
  intro t ht hI
  have hA := hkeep s t hs ht hI
  exact ⟨hallowed t hA hI, fun r u hu => hk t r u hA hI hu⟩

/-- What a program does in a world that is part of a larger one, it does there: the
part is `v`, others leave it alone, and what the rest keeps through the calls of
the program is `A`. -/
theorem wp_lift {τ : Type*} {V : World C R τ} {v : σ → τ} {A : σ → Prop}
    {Q : Except ε α → τ → Prop} (hkeep : ∀ s t, A s → E s t → I t → A t ∧ v t = v s)
    (hallowed : ∀ s c, A s → I s → V.Allowed (v s) c → W.Allowed s c)
    (heffect : ∀ s c r t, A s → I s → V.Allowed (v s) c → W.effect s c r = some t →
      V.effect (v s) c r = some (v t) ∧ A t) {p : Program C R ε α} {s : σ} (hs : A s)
    (h : p.wp V (fun _ => True) Eq Q (v s)) : p.wp W I E (fun o t => A t ∧ Q o (v t)) s := by
  induction p generalizing s with
  | ret a =>
    intro t ht hI
    obtain ⟨hA, hv⟩ := hkeep s t hs ht hI
    exact ⟨hA, h (v t) hv.symm trivial⟩
  | exit e =>
    intro t ht hI
    obtain ⟨hA, hv⟩ := hkeep s t hs ht hI
    exact ⟨hA, h (v t) hv.symm trivial⟩
  | call c k ih =>
    intro t ht hI
    obtain ⟨hA, hv⟩ := hkeep s t hs ht hI
    obtain ⟨hc, hk⟩ := h (v t) hv.symm trivial
    refine ⟨hallowed t c hA hI hc, fun r u hu => ?_⟩
    obtain ⟨hV, hAu⟩ := heffect t c r u hA hI hc hu
    exact ih r hAu (hk r (v u) hV)

theorem wp_ret [Std.Refl E] {a : α} (h : (ret a : Program C R ε α).wp W I E Q s) (hs : I s) :
    Q (.ok a) s := h s (Std.Refl.refl s) hs

theorem wp_exit [Std.Refl E] {e : ε} (h : (exit e : Program C R ε α).wp W I E Q s) (hs : I s) :
    Q (.error e) s := h s (Std.Refl.refl s) hs

theorem wp_allowed [Std.Refl E] {p : Program C R ε α} (h : p.wp W I E Q s) (hs : I s) {c : C}
    (hc : p.next = some c) : W.Allowed s c := by
  cases p with
  | call d k => cases hc; exact (h s (Std.Refl.refl s) hs).1
  | ret a => cases hc
  | exit e => cases hc

/-- One call of the program. -/
theorem wp_step [Std.Refl E] [DecidableEq C] {p q : Program C R ε α} {c : C} {r : R c}
    (h : p.wp W I E Q s) (hs : I s) (hq : p.answer c r = some q) (ht : W.effect s c r = some t) :
    W.Allowed s c ∧ q.wp W I E Q t := by
  obtain ⟨k, rfl, rfl⟩ := answer_eq_some.mp hq
  obtain ⟨hallowed, hk⟩ := h s (Std.Refl.refl s) hs
  exact ⟨hallowed, hk r t ht⟩

theorem wp_outcome [Std.Refl E] {p : Program C R ε α} (h : p.wp W I E Q s) (hs : I s)
    {o : Except ε α} (ho : p.outcome = some o) : Q o s := by
  cases p with
  | ret a => cases ho; exact wp_ret h hs
  | exit e => cases ho; exact wp_exit h hs
  | call c k => cases ho

/-! ## By itself -/

/-- A program that runs alone has its next call answered. -/
def step [DecidableEq C] (W : World C R σ) (x : Program C R ε α × σ) (a : (c : C) × R c) :
    Option (Program C R ε α × σ) :=
  (x.1.answer a.1 a.2).bind fun p => (W.effect x.2 a.1 a.2).map fun t => (p, t)

theorem run_call [DecidableEq C] {c : C} {k : R c → Program C R ε α} {r : R c}
    {as : List ((c : C) × R c)} (h : W.effect s c r = some t) :
    Run.run (step W) (call c k, s) (⟨c, r⟩ :: as) = Run.run (step W) (k r, t) as := by
  have hstep : step W (call c k, s) ⟨c, r⟩ = some (k r, t) := by simp [step, answer, h]
  simp [Run.run, hstep]

/-- What the weakest precondition says of the start, the rest of the program keeps. -/
theorem wp_run [DecidableEq C] {p q : Program C R ε α} {as : List ((c : C) × R c)}
    (h : p.wp W (fun _ => True) Eq Q s) (hr : Run.run (step W) (p, s) as = some (q, t)) :
    q.wp W (fun _ => True) Eq Q t := by
  refine Run.run_invariant (I := fun x => x.1.wp W (fun _ => True) Eq Q x.2) ?_ hr h
  intro x a y hx hy
  obtain ⟨p, hp, hy⟩ := Option.bind_eq_some_iff.mp hy
  obtain ⟨u, hu, rfl⟩ := Option.map_eq_some_iff.mp hy
  exact (wp_step hx trivial hp hu).2

/-- Alone, a program meets the state it has left. -/
theorem wp_alone_ret {a : α} :
    (ret a : Program C R ε α).wp W (fun _ => True) Eq Q s ↔ Q (.ok a) s :=
  ⟨fun h => h s rfl trivial, fun h _ ht _ => ht ▸ h⟩

theorem wp_alone_exit {e : ε} :
    (exit e : Program C R ε α).wp W (fun _ => True) Eq Q s ↔ Q (.error e) s :=
  ⟨fun h => h s rfl trivial, fun h _ ht _ => ht ▸ h⟩

theorem wp_alone_call {c : C} {k : R c → Program C R ε α} :
    (call c k).wp W (fun _ => True) Eq Q s ↔ W.Allowed s c ∧
      ∀ r t, W.effect s c r = some t → (k r).wp W (fun _ => True) Eq Q t :=
  ⟨fun h => h s rfl trivial, fun h _ ht _ => ht ▸ h⟩

/-- Where each call that is allowed is answered, a program comes to its end. -/
theorem exists_run [DecidableEq C] {p : Program C R ε α}
    (h : p.wp W (fun _ => True) Eq Q s)
    (hanswer : ∀ t c, W.Allowed t c → ∃ r u, W.effect t c r = some u) :
    ∃ as q t o, Run.run (step W) (p, s) as = some (q, t) ∧ q.outcome = some o := by
  induction p generalizing s with
  | ret a => exact ⟨[], ret a, s, .ok a, rfl, rfl⟩
  | exit e => exact ⟨[], exit e, s, .error e, rfl, rfl⟩
  | call c k ih =>
    obtain ⟨hallowed, hk⟩ := wp_alone_call.mp h
    obtain ⟨r, u, hu⟩ := hanswer s c hallowed
    obtain ⟨as, q, t, o, hrun, ho⟩ := ih r (hk r u hu)
    exact ⟨⟨c, r⟩ :: as, q, t, o, (run_call hu).trans hrun, ho⟩

/-! ## How long a program goes on -/

/-- It makes at most `n` calls, whatever they are answered. -/
def Within : Nat → Program C R ε α → Prop
  | _, ret _ => True
  | _, exit _ => True
  | 0, call .. => False
  | n + 1, call _ k => ∀ r, (k r).Within n

theorem within_of_answer [DecidableEq C] {n : Nat} {p q : Program C R ε α} {c : C} {r : R c}
    (h : p.Within n) (hq : p.answer c r = some q) : ∃ m, n = m + 1 ∧ q.Within m := by
  obtain ⟨k, rfl, rfl⟩ := answer_eq_some.mp hq
  cases n with
  | zero => exact h.elim
  | succ n => exact ⟨n, rfl, h r⟩

theorem Within.mono {p : Program C R ε α} : ∀ {m n : Nat}, p.Within m → m ≤ n → p.Within n := by
  induction p with
  | ret a => intro m n _ _; cases n <;> trivial
  | exit e => intro m n _ _; cases n <;> trivial
  | call c k ih =>
    intro m n h hle
    cases m with
    | zero => exact h.elim
    | succ m =>
      cases n with
      | zero => omega
      | succ n => exact fun r => ih r (h r) (Nat.le_of_succ_le_succ hle)

theorem Within.bind {p : Program C R ε α} {f : α → Program C R ε β} {n : Nat} :
    ∀ {m : Nat}, p.Within m → (∀ a, (f a).Within n) → (p >>= f).Within (m + n) := by
  induction p with
  | ret a => intro m _ hf; exact (hf a).mono (Nat.le_add_left n m)
  | exit e => intro m _ _; cases h : m + n <;> trivial
  | call c k ih =>
    intro m h hf
    cases m with
    | zero => exact h.elim
    | succ m =>
      rw [Nat.add_right_comm]
      exact fun r => ih r (h r) hf

/-! ## Side by side -/

section Parallel

variable {ι : Type*} {κ : Type*}

/-- The programs, and the state of the world they share. -/
structure Parallel (ι : Type*) (C : Type u) (R : C → Type v) (ε α : Type v) (σ : Type*) where
  rest : ι → Program C R ε α
  world : σ

/-- A program has a call answered, or the world moves by itself. -/
inductive Move (ι : Type*) (C : Type u) (R : C → Type v) (κ : Type*) where
  | call (i : ι) (c : C) (r : R c)
  | env (x : κ)

variable [DecidableEq ι] [DecidableEq C]

def Parallel.step (W : ι → World C R σ) (env : σ → κ → Option σ) (s : Parallel ι C R ε α σ) :
    Move ι C R κ → Option (Parallel ι C R ε α σ)
  | .call i c r =>
    (s.rest i).answer c r |>.bind fun p =>
      (W i).effect s.world c r |>.map fun t => ⟨Function.update s.rest i p, t⟩
  | .env x => (env s.world x).map fun t => ⟨s.rest, t⟩

inductive Parallel.Step (W : ι → World C R σ) (env : σ → κ → Option σ)
    (s : Parallel ι C R ε α σ) : Move ι C R κ → Parallel ι C R ε α σ → Prop
  | call {i : ι} {c : C} {r : R c} {p : Program C R ε α} {t : σ}
    (hp : (s.rest i).answer c r = some p) (ht : (W i).effect s.world c r = some t) :
    Step W env s (.call i c r) ⟨Function.update s.rest i p, t⟩
  | env {x : κ} {t : σ} (ht : env s.world x = some t) : Step W env s (.env x) ⟨s.rest, t⟩

theorem Parallel.Step.of_step {W : ι → World C R σ} {env : σ → κ → Option σ}
    {s t : Parallel ι C R ε α σ} {a : Move ι C R κ} (h : Parallel.step W env s a = some t) :
    Parallel.Step W env s a t := by
  cases a with
  | call i c r =>
    obtain ⟨p, hp, h⟩ := Option.bind_eq_some_iff.mp h
    obtain ⟨u, hu, rfl⟩ := Option.map_eq_some_iff.mp h
    exact .call hp hu
  | env x =>
    obtain ⟨u, hu, rfl⟩ := Option.map_eq_some_iff.mp h
    exact .env hu

/-- A world that several programs share: an invariant of its own, and what each
program can rely on while it does not run. -/
structure Shared (ι : Type*) (C : Type u) (R : C → Type v) (κ σ : Type*) where
  world : ι → World C R σ
  env : σ → κ → Option σ
  Inv : σ → Prop
  Rely : ι → σ → σ → Prop
  refl : ∀ i, Std.Refl (Rely i)
  trans : ∀ i, IsTrans σ (Rely i)
  inv_call : ∀ i s c r t, Inv s → (world i).Allowed s c → (world i).effect s c r = some t → Inv t
  inv_env : ∀ s x t, Inv s → env s x = some t → Inv t
  rely_call : ∀ i j, j ≠ i → ∀ s c r t, Inv s → (world i).Allowed s c →
    (world i).effect s c r = some t → Rely j s t
  rely_env : ∀ i s x t, Inv s → env s x = some t → Rely i s t

/-- Each program has still to do what it promises. -/
structure Parallel.Keeps (S : Shared ι C R κ σ) (Q : ι → Except ε α → σ → Prop)
    (s : Parallel ι C R ε α σ) : Prop where
  inv : S.Inv s.world
  rest : ∀ i, (s.rest i).wp (S.world i) S.Inv (S.Rely i) (Q i) s.world

/-- **Programs side by side.** Each keeps what it promises, whatever the others and
the world do between its calls. -/
theorem Parallel.Keeps.step {S : Shared ι C R κ σ} {Q : ι → Except ε α → σ → Prop}
    {s t : Parallel ι C R ε α σ} {a : Move ι C R κ} (hs : s.Keeps S Q)
    (h : Parallel.step S.world S.env s a = some t) : t.Keeps S Q := by
  have := S.refl
  have := S.trans
  cases Parallel.Step.of_step h with
  | @call i c r p u hp hu =>
    obtain ⟨hallowed, hown⟩ := wp_step (hs.rest i) hs.inv hp hu
    refine ⟨S.inv_call i _ _ _ _ hs.inv hallowed hu, fun j => ?_⟩
    show (Function.update s.rest i p j).wp (S.world j) S.Inv (S.Rely j) (Q j) u
    by_cases hj : j = i
    · subst hj
      simpa using hown
    · rw [Function.update_of_ne hj]
      exact wp_stable (hs.rest j) (S.rely_call i j hj _ _ _ _ hs.inv hallowed hu)
  | env hu =>
    exact ⟨S.inv_env _ _ _ hs.inv hu,
      fun i => wp_stable (hs.rest i) (S.rely_env i _ _ _ hs.inv hu)⟩

omit [DecidableEq ι] [DecidableEq C] in
/-- So what a program does next is allowed, -/
theorem Parallel.Keeps.allowed {S : Shared ι C R κ σ} {Q : ι → Except ε α → σ → Prop}
    {s : Parallel ι C R ε α σ} (hs : s.Keeps S Q) {i : ι} {c : C}
    (hi : (s.rest i).next = some c) : (S.world i).Allowed s.world c := by
  have := S.refl
  exact wp_allowed (hs.rest i) hs.inv hi

omit [DecidableEq ι] [DecidableEq C] in
/-- and what it ends in is what it promised. -/
theorem Parallel.Keeps.outcome {S : Shared ι C R κ σ} {Q : ι → Except ε α → σ → Prop}
    {s : Parallel ι C R ε α σ} (hs : s.Keeps S Q) {i : ι} {o : Except ε α}
    (hi : (s.rest i).outcome = some o) : Q i o s.world := by
  have := S.refl
  exact wp_outcome (hs.rest i) hs.inv hi

/-- Only the programs of `S` run, each for so long, and what the world does by
itself comes to an end: so does every run. -/
theorem Parallel.length_le {W : ι → World C R σ} {env : σ → κ → Option σ} {S : Finset ι}
    {f : σ → Nat}
    (hcall : ∀ i s c r t, (W i).effect s c r = some t → i ∈ S ∧ f t ≤ f s)
    (henv : ∀ s x t, env s x = some t → f t < f s) {b : ι → Nat} {s t : Parallel ι C R ε α σ}
    {as : List (Move ι C R κ)} (hb : ∀ i, (s.rest i).Within (b i))
    (h : Run.run (Parallel.step W env) s as = some t) :
    as.length + f t.world ≤ f s.world + ∑ i ∈ S, b i := by
  induction as generalizing s b with
  | nil =>
    cases h
    simp
  | cons a as ih =>
    obtain ⟨u, hu, hr⟩ := Run.run_cons h
    cases Step.of_step hu with
    | @call i c r p v hp hv =>
      obtain ⟨hi, hf⟩ := hcall i s.world c r v hv
      obtain ⟨k, hk, hwithin⟩ := within_of_answer (hb i) hp
      have hle := ih (b := Function.update b i k) (fun j => ?_) hr
      · rw [Finset.sum_update_of_mem hi] at hle
        have hsum := Finset.sum_eq_add_sum_sdiff_singleton_of_mem hi b
        simp only [List.length_cons] at hle ⊢
        omega
      · show (Function.update s.rest i p j).Within (Function.update b i k j)
        by_cases hj : j = i
        · subst hj
          simpa using hwithin
        · rw [Function.update_of_ne hj, Function.update_of_ne hj]
          exact hb j
    | @env x v hv =>
      have hf := henv s.world x v hv
      have hle := ih (s := ⟨s.rest, v⟩) hb hr
      simp only [List.length_cons] at hle ⊢
      omega

end Parallel

end Program
