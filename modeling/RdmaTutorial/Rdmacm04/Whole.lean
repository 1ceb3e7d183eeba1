import RdmaTutorial.EchoLoop
import RdmaTutorial.Rdmacm04.Events

/-!
# rdmacm04/server.c: the threads with their connections

In `Rdmacm04.State` the loop of a worker is one program point; `EchoLoop.State`
is the loop of one worker on its connection, with no other thread. Here they are
one machine: a worker's statements, from `setup_connection` to the end of its
loop, are those of its `EchoLoop`, and its place in `handle_request` follows. So
a run of it is a run of the threads (`Whole.projects_threads`) and, for each
connection, a run of the loop (`Whole.projects_conns`).
-/

namespace RdmaTutorial.Rdmacm04

open Function

/-- Between `setup_connection` and the end of the loop. -/
def WorkerPc.connected : WorkerPc → Bool
  | .accept => true
  | .semWait => true
  | .loop => true
  | _ => false

/-- Where in `handle_request` a connection is. -/
def place (l : EchoLoop.State Visitor) : WorkerPc :=
  if l.status = .left then .disconnect
  else
    match l.pc with
    | .reqNotify => .accept
    | .createQp => .accept
    | .firstRecv => .accept
    | .accept => .accept
    | .wait => .semWait
    | _ => .loop

/-- The threads, and the connections by the numbers of their workers. -/
structure Whole where
  threads : System
  conns : Nat → Option (EchoLoop.State Visitor)

namespace Whole

inductive Action where
  /-- The event thread, or a worker outside of its loop. -/
  | threads (a : Rdmacm04.Action)
  /-- Worker `t` calls `setup_connection`. -/
  | setup (t recvId sendId : Nc) (r b : Block)
  /-- The next statement of worker `t` on its connection. -/
  | exec (t : Nat) (r : Result)
  /-- The HCA, the wire or the client, on the connection of worker `t`. -/
  | conn (t : Nat) (a : EchoLoop.Action Visitor.Action)
  deriving DecidableEq

def initial : Whole := { threads := .initial, conns := fun _ => none }

def setConn (s : Whole) (t : Nat) (l : EchoLoop.State Visitor) : Whole :=
  { s with conns := update s.conns t (some l) }

/-- A step of the threads. -/
def threadStep (s : Whole) (a : Rdmacm04.Action) : Option Whole :=
  (s.threads.step a).map fun u => { s with threads := u }

/-- The worker's statement has left its connection in `l`. -/
def follow (s : Whole) (t : Nat) (w : Worker) (r : Result) (l : EchoLoop.State Visitor) :
    Option Whole :=
  match l.status with
  | .died reason => (s.setConn t l).threadStep (.dies t reason)
  | .undefined =>
    some { s.setConn t l with
      threads := { s.threads with server := s.threads.server.setStatus .undefined } }
  | _ => if place l = w.pc then some (s.setConn t l) else (s.setConn t l).threadStep (.worker t r)

/-- Which steps of the threads are not those of a worker's connection. -/
def outside (s : Whole) : Rdmacm04.Action → Bool
  | .worker t _ => (s.threads.server.workers t).all fun w => !w.pc.connected && w.pc != .setup
  | .dies t _ => (s.threads.server.workers t).all fun w => w.pc == .setup
  | _ => true

/-- What `teardown` releases. -/
def release (s : Whole) : Rdmacm04.Action → Nat → Option (EchoLoop.State Visitor)
  | .worker t _ =>
    if (s.threads.server.workers t).any fun w => w.pc == .teardown then update s.conns t none
    else s.conns
  | _ => s.conns

def step (s : Whole) (a : Action) : Option Whole :=
  if s.threads.server.status = .running then
    match a with
    | .threads a =>
      if s.outside a then { s with conns := s.release a }.threadStep a else none
    | .setup t recvId sendId r b =>
      if (s.conns t).isNone && (s.threads.server.workers t).any fun w => w.pc == .setup then
        (s.setConn t (EchoLoop.opened Visitor.peer recvId sendId r b ())).threadStep (.worker t .ok)
      else none
    | .exec t r =>
      (s.threads.server.workers t).bind fun w =>
        (s.conns t).bind fun l =>
          if w.pc.connected then
            (EchoLoop.step EchoLoop.rdmacm04 Visitor.peer l (.exec r)).bind (s.follow t w r)
          else none
    | .conn t a =>
      (s.conns t).bind fun l =>
        match a with
        | .exec _ => none
        | a => (EchoLoop.step EchoLoop.rdmacm04 Visitor.peer l a).map (s.setConn t)
  else none

/-- What librdmacm promises. -/
def Allowed (s : Whole) : Action → Prop
  | .threads a => s.threads.Allowed a
  | _ => True

instance (s : Whole) : DecidablePred s.Allowed
  | .threads a => inferInstanceAs (Decidable (s.threads.Allowed a))
  | .setup .. => .isTrue trivial
  | .exec .. => .isTrue trivial
  | .conn .. => .isTrue trivial

/-! ## What it is made of -/

theorem threadStep_eq_some {s u : Whole} {a : Rdmacm04.Action} (h : s.threadStep a = some u) :
    s.threads.step a = some u.threads ∧ u.conns = s.conns := by
  obtain ⟨v, hv, rfl⟩ := Option.map_eq_some_iff.mp h
  exact ⟨hv, rfl⟩

/-- What follows a statement on a connection is no event. -/
theorem follow_eq_some {s u : Whole} {t : Nat} {w : Worker} {r : Result}
    {l : EchoLoop.State Visitor} (h : s.follow t w r l = some u) :
    u.conns = update s.conns t (some l) ∧
      (u.threads.server.status ≠ .running ∨ u.threads = s.threads ∨
        ∃ b, (∀ e, b ≠ .cmEvent e) ∧ s.threads.step b = some u.threads) := by
  unfold follow at h
  split at h
  · obtain ⟨hs, hc⟩ := threadStep_eq_some h
    exact ⟨hc, .inr (.inr ⟨_, by simp, hs⟩)⟩
  · cases h
    exact ⟨rfl, .inl (by simp [State.setStatus])⟩
  · split at h
    · cases h
      exact ⟨rfl, .inr (.inl rfl)⟩
    · obtain ⟨hs, hc⟩ := threadStep_eq_some h
      exact ⟨hc, .inr (.inr ⟨_, by simp, hs⟩)⟩

/-- `step`, by the two layers: what happens to the threads and what to the
connections. -/
inductive Step (s : Whole) : Action → Whole → Prop where
  | threads {a u} (hs : s.threads.step a = some u.threads) (hc : u.conns = s.release a) :
      Step s (.threads a) u
  | setup {t recvId sendId r b u} (hnone : s.conns t = none)
      (hs : s.threads.step (.worker t .ok) = some u.threads)
      (hc : u.conns = update s.conns t
        (some (EchoLoop.opened Visitor.peer recvId sendId r b ()))) :
      Step s (.setup t recvId sendId r b) u
  | exec {t r l l' u} (hl : s.conns t = some l)
      (hstep : EchoLoop.step EchoLoop.rdmacm04 Visitor.peer l (.exec r) = some l')
      (hc : u.conns = update s.conns t (some l'))
      (hs : u.threads.server.status ≠ .running ∨ u.threads = s.threads ∨
        ∃ b, (∀ e, b ≠ .cmEvent e) ∧ s.threads.step b = some u.threads) : Step s (.exec t r) u
  | conn {t a l l' u} (hl : s.conns t = some l)
      (hstep : EchoLoop.step EchoLoop.rdmacm04 Visitor.peer l a = some l')
      (hc : u.conns = update s.conns t (some l')) (hs : u.threads = s.threads) :
      Step s (.conn t a) u

theorem Step.of_step {s u : Whole} {a : Action} (h : s.step a = some u) : Step s a u := by
  unfold step at h
  split at h
  case isFalse => cases h
  cases a with
  | threads a =>
    simp only at h
    split at h
    · obtain ⟨hs, hc⟩ := threadStep_eq_some h
      exact .threads hs hc
    · cases h
  | setup t recvId sendId r b =>
    simp only at h
    split at h
    · rename_i hg
      obtain ⟨hs, hc⟩ := threadStep_eq_some h
      simp only [Bool.and_eq_true, Option.isNone_iff_eq_none] at hg
      exact .setup hg.1 hs hc
    · cases h
  | exec t r =>
    obtain ⟨w, -, h⟩ := Option.bind_eq_some_iff.mp h
    obtain ⟨l, hl, h⟩ := Option.bind_eq_some_iff.mp h
    split at h
    · obtain ⟨l', hstep, h⟩ := Option.bind_eq_some_iff.mp h
      obtain ⟨hc, hs⟩ := follow_eq_some h
      exact .exec hl hstep hc hs
    · cases h
  | conn t a =>
    obtain ⟨l, hl, h⟩ := Option.bind_eq_some_iff.mp h
    split at h
    · cases h
    · obtain ⟨l', hstep, rfl⟩ := Option.map_eq_some_iff.mp h
      exact .conn hl hstep rfl rfl

/-- **The threads.** Every step is one of theirs or none, while the process is
there. -/
theorem projects_threads : Run.Projects step (fun _ => True) Allowed
    (fun s (_ : Unit) => if s.threads.server.status = .running then some s.threads else none)
    (fun _ _ => False) System.step System.Allowed := by
  refine ⟨fun _ _ _ _ _ => trivial, fun s a u _ ha h c l' hl' => ?_⟩
  have hrun : s.threads.server.status = .running := by
    unfold step at h
    split at h
    · assumption
    · cases h
  split at hl'
  case isFalse => cases hl'
  rename_i hrun'
  cases hl'
  rw [if_pos hrun]
  cases Step.of_step h with
  | threads hs hc => exact .inr (.inr ⟨_, _, rfl, ha, hs⟩)
  | @setup t _ _ _ _ _ hnone hs hc =>
    exact .inr (.inr ⟨s.threads, .worker t .ok, rfl, trivial, hs⟩)
  | exec hl hstep hc hs =>
    rcases hs with hs | hs | ⟨b, hb, hs⟩
    · exact absurd hrun' hs
    · exact .inl (by rw [hs])
    · refine .inr (.inr ⟨_, b, rfl, ?_, hs⟩)
      cases b with
      | cmEvent e => exact absurd rfl (hb e)
      | _ => trivial
  | conn hl hstep hc hs => exact .inl (by rw [hs])

/-- **The connections.** Every step is one of the loop on one of them, opens one
or releases one. -/
theorem projects_conns : Run.Projects step (fun _ => True) (fun _ _ => True) conns
    (fun _ l => ∃ recvId sendId r b, l = EchoLoop.opened Visitor.peer recvId sendId r b ())
    (EchoLoop.step EchoLoop.rdmacm04 Visitor.peer) (fun _ _ => True) := by
  refine ⟨fun _ _ _ _ _ => trivial, fun s a u _ _ h c l' hl' => ?_⟩
  have hmoved : ∀ {t : Nat} {l l₁ : EchoLoop.State Visitor} {b : EchoLoop.Action Visitor.Action},
      s.conns t = some l → EchoLoop.step EchoLoop.rdmacm04 Visitor.peer l b = some l₁ →
      u.conns = update s.conns t (some l₁) → s.conns c = some l' ∨
        ∃ l b, s.conns c = some l ∧ True ∧
          EchoLoop.step EchoLoop.rdmacm04 Visitor.peer l b = some l' := by
    intro t l l₁ b hl hstep hc
    rw [hc] at hl'
    by_cases hct : c = t
    · subst hct
      obtain rfl : l₁ = l' := by simpa using hl'
      exact .inr ⟨l, b, hl, trivial, hstep⟩
    · rw [update_of_ne hct] at hl'
      exact .inl hl'
  cases Step.of_step h with
  | @threads a _ hs hc =>
    rw [hc] at hl'
    cases a with
    | worker t r =>
      simp only [release] at hl'
      split at hl'
      · by_cases hct : c = t
        · subst hct
          simp at hl'
        · rw [update_of_ne hct] at hl'
          exact .inl hl'
      · exact .inl hl'
    | _ => exact .inl hl'
  | @setup t recvId sendId r b _ hnone hs hc =>
    rw [hc] at hl'
    by_cases hct : c = t
    · subst hct
      obtain rfl := by simpa using hl'
      exact .inr (.inl ⟨hnone, recvId, sendId, r, b, rfl⟩)
    · rw [update_of_ne hct] at hl'
      exact .inl hl'
  | exec hl hstep hc hs => exact (hmoved hl hstep hc).imp id .inr
  | conn hl hstep hc hs => exact (hmoved hl hstep hc).imp id .inr

end Whole

end RdmaTutorial.Rdmacm04
