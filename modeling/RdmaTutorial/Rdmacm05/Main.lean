import RdmaTutorial.Lib.Program
import RdmaTutorial.Lib.Termination
import RdmaTutorial.Rdmacm05.EpollLoop

/-!
# rdmacm05/server.c: `main`

What `main` makes before its loop, the loop, and what it releases behind it.
`SIGINT` may come at any time, and lets the loop end with the batch that
`epoll_wait` has returned. The connections that are open then stay as they are:
`main` releases only what it has made itself.
-/

namespace RdmaTutorial.Rdmacm05.Main

open CmEvents Objects Program

inductive Call where
  | log (text : String)
  | createEventChannel
  | createId (ec : Nat)
  | getaddrinfo
  | bindAddr (id ai : Nat)
  | freeaddrinfo (ai : Nat)
  | listen (id backlog : Nat)
  /-- What it returns when it fails is negative; here it is `none`. -/
  | epollCreate1
  /-- `epoll_ctl(.., EPOLL_CTL_ADD, ..)` for the event channel. -/
  | register (fd ec : Nat)
  | destroyId (id : Nat)
  | destroyEventChannel (ec : Nat)
  | close (fd : Nat)
  deriving DecidableEq, Repr

def Call.Answer : Call → Type
  | log _ => Unit
  | createEventChannel => Option Nat
  | createId _ => Option Nat
  | getaddrinfo => Option Nat
  | bindAddr .. => Result
  | freeaddrinfo _ => Unit
  | listen .. => Result
  | epollCreate1 => Option Nat
  | register .. => Result
  | destroyId _ => Result
  | destroyEventChannel _ => Unit
  | close _ => Result

/-- A program that exits has given its reason to `die`. -/
abbrev Prog (α : Type) := Program Call Call.Answer String α

def call (c : Call) : Prog c.Answer := .lift c

/-- `if (!x) die(reason)`. -/
def orDie {α : Type} (reason : String) : Option α → Prog α
  | some a => .ret a
  | none => .exit reason

/-- `if (x) die(reason)`. -/
def zero (reason : String) : Result → Prog Unit
  | .ok => .ret ()
  | .fail => .exit reason

/-- What the loop works with. -/
structure Opened where
  ec : Nat
  listener : Nat
  epollFd : Nat
  deriving DecidableEq, Repr

/-- `main` before its loop. -/
def startup : Prog Opened := do
  let _ ← call (.log "create event channel")
  let ec ← orDie (ifNullDie "ec = rdma_create_event_channel()") (← call .createEventChannel)
  let listener ← orDie (ifNzeroDie "rdma_create_id(ec, &listener, NULL, RDMA_PS_TCP)")
    (← call (.createId ec))
  let ai ← orDie (ifNzeroDie "getaddrinfo(NULL, PORT, &hints, &ai)") (← call .getaddrinfo)
  zero (ifNzeroDie "rdma_bind_addr(listener, ai->ai_addr)") (← call (.bindAddr listener ai))
  let _ ← call (.freeaddrinfo ai)
  let _ ← call (.log "listen begin")
  zero (ifNzeroDie "rdma_listen(listener, 10)") (← call (.listen listener 10))
  let epollFd ← orDie "Failed to create epoll fd" (← call .epollCreate1)
  zero "Failed to register listen fd" (← call (.register epollFd ec))
  return ⟨ec, listener, epollFd⟩

/-- `main` behind its loop. -/
def cleanup (o : Opened) : Prog Int := do
  let _ ← call (.destroyId o.listener)
  let _ ← call (.destroyEventChannel o.ec)
  if o.epollFd > 0 then
    let _ ← call (.close o.epollFd)
  return 0

/-! ## What `main` holds -/

inductive Held where
  | channel (a : Nat)
  | listener (a : Nat)
  | addrinfo (a : Nat)
  | epoll (fd : Nat)
  deriving DecidableEq, Repr

def liveAfter (own : List (Object Held)) : (c : Call) → c.Answer → Option (List (Object Held))
  | .createEventChannel, some a => add own (.channel a) []
  | .createId ec, some a => add own (.listener a) [.channel ec]
  | .getaddrinfo, some a => add own (.addrinfo a) []
  | .freeaddrinfo a, _ => some (destroy own (.addrinfo a))
  | .epollCreate1, some fd => add own (.epoll fd) []
  | .destroyId a, .ok => some (destroy own (.listener a))
  | .destroyId a, .fail => if Busy own (.listener a) then some own else none
  | .destroyEventChannel a, _ => some (destroy own (.channel a))
  -- The descriptor is gone whatever `close` returns.
  | .close fd, _ => some (destroy own (.epoll fd))
  | _, _ => some own

/-- What the call uses is alive, and nothing `main` has made is built on what it
destroys. librdmacm also wants the ids of the connections gone before the event
channel, which those that are open are not: that is not among these. -/
def Call.Safe (own : List (Object Held)) : Call → Prop
  | createId ec => IsLive own (.channel ec)
  | bindAddr id ai => IsLive own (.listener id) ∧ IsLive own (.addrinfo ai)
  | freeaddrinfo ai => IsLive own (.addrinfo ai)
  | listen id _ => IsLive own (.listener id)
  | register fd ec => IsLive own (.epoll fd) ∧ IsLive own (.channel ec)
  | destroyId id => IsLive own (.listener id) ∧ ¬Busy own (.listener id)
  | destroyEventChannel ec => IsLive own (.channel ec) ∧ ¬Busy own (.channel ec)
  | close fd => IsLive own (.epoll fd)
  | _ => True

def world : World Call Call.Answer (List (Object Held)) where
  Allowed := fun own c => c.Safe own
  effect := liveAfter

/-- What `main` holds in its loop. -/
def Opened.objects (o : Opened) : List (Object Held) :=
  [⟨.channel o.ec, []⟩, ⟨.listener o.listener, [.channel o.ec]⟩, ⟨.epoll o.epollFd, []⟩]

/-! ## The steps -/

inductive Pc where
  | startup (p : Prog Opened)
  /-- In the `for` loop, or behind it at `while (keep_running)`. -/
  | loop (o : Opened)
  /-- At `epoll_wait`. -/
  | wait (o : Opened)
  | cleanup (p : Prog Int)

structure State where
  pc : Pc
  own : List (Object Held)
  loop : EpollLoop.State
  keepRunning : Bool

/-- What `epoll_wait` returns. -/
inductive Waited where
  /-- Negative, with `EINTR`. -/
  | interrupted
  /-- Negative, with any other error. -/
  | failed
  | timeout
  | events (events : List EpollLoop.Ready)
  deriving DecidableEq, Repr

inductive Action where
  /-- `sigint_handle`. -/
  | sigint
  | call (c : Call) (r : c.Answer)
  /-- `while (keep_running)`. -/
  | test
  | waited (w : Waited)
  /-- The next entry of the batch. -/
  | handle (a : EpollLoop.Action)

def initial : State :=
  { pc := .startup startup, own := [], loop := .initial, keepRunning := true }

def Pc.ofStartup : Prog Opened → Pc
  | .ret o => .loop o
  | p => .startup p

/-- One call of a program that goes on at `pc`. -/
def State.calls {α : Type} (s : State) (p : Prog α) (pc : Prog α → Pc) (c : Call)
    (r : c.Answer) : Option State :=
  (p.answer c r).bind fun q =>
    (liveAfter s.own c r).map fun own => { s with pc := pc q, own := own }

def State.waits (s : State) (o : Opened) : Waited → Option State
  | .interrupted => some { s with pc := .loop o }
  | .failed => some { s with pc := .cleanup (Main.cleanup o) }
  | .timeout => some { s with pc := .loop o }
  | .events events =>
    (EpollLoop.step s.loop (.wait events)).map fun l => { s with pc := .loop o, loop := l }

def step (s : State) : Action → Option State
  | .sigint => some { s with keepRunning := false }
  | .call c r =>
    match s.pc with
    | .startup p => s.calls p .ofStartup c r
    | .cleanup p => s.calls p .cleanup c r
    | _ => none
  | .test =>
    match s.pc with
    | .loop o =>
      if s.loop.batch = [] ∧ s.loop.status = .running then
        some { s with pc := if s.keepRunning then .wait o else .cleanup (Main.cleanup o) }
      else none
    | _ => none
  | .waited w =>
    match s.pc with
    | .wait o => s.waits o w
    | _ => none
  | .handle a =>
    match s.pc with
    | .loop _ =>
      if s.loop.batch = [] then none
      else (EpollLoop.step s.loop a).map fun l => { s with loop := l }
    | _ => none

namespace State

/-- The call of `main` that comes next. -/
def next (s : State) : Option Call :=
  match s.pc with
  | .startup p => p.next
  | .cleanup p => p.next
  | _ => none

/-- `main` has returned. -/
def Returned (s : State) : Prop := s.pc = .cleanup (.ret 0)

/-- The process has ended. -/
def Over (s : State) : Prop :=
  s.Returned ∨ (∃ reason, s.pc = .startup (.exit reason)) ∨ s.loop.status ≠ .running

end State

/-! ## The programs before and behind the loop -/

variable {α : Type} {own : List (Object Held)} {s t : State}

abbrev Alone (Q : Except String α → List (Object Held) → Prop) (p : Prog α)
    (own : List (Object Held)) : Prop := p.wp world (fun _ => True) Eq Q own

theorem alone_call {Q : Except String α → List (Object Held) → Prop} {c : Call}
    {f : c.Answer → Prog α} (hsafe : c.Safe own)
    (hf : ∀ r own', liveAfter own c r = some own' → Alone Q (f r) own') :
    Alone Q (call c >>= f) own := wp_alone_call.mpr ⟨hsafe, hf⟩

def StartedUp : Except String Opened → List (Object Held) → Prop
  | .ok o, own => own = o.objects
  | .error _, _ => True

theorem alone_startup : Alone StartedUp startup [] := by
  unfold startup
  refine alone_call trivial fun _ _ hlive => ?_
  cases hlive
  refine alone_call trivial ?_
  rintro (_ | ec) _ hlive
  · exact wp_alone_exit.mpr trivial
  obtain ⟨-, rfl⟩ := add_eq_some.mp hlive
  refine alone_call (by simp [Call.Safe]) ?_
  rintro (_ | listener) _ hlive
  · exact wp_alone_exit.mpr trivial
  obtain ⟨-, rfl⟩ := add_eq_some.mp hlive
  refine alone_call trivial ?_
  rintro (_ | ai) _ hlive
  · exact wp_alone_exit.mpr trivial
  obtain ⟨-, rfl⟩ := add_eq_some.mp hlive
  refine alone_call (by simp [Call.Safe]) ?_
  rintro (_ | _) _ hlive
  swap
  · exact wp_alone_exit.mpr trivial
  cases hlive
  refine alone_call (by simp [Call.Safe]) fun _ own hlive => ?_
  obtain rfl : own = [⟨.channel ec, []⟩, ⟨.listener listener, [.channel ec]⟩] := by
    rw [← Option.some.inj hlive]
    simp [destroy, Busy]
  refine alone_call trivial fun _ _ hlive => ?_
  cases hlive
  refine alone_call (by simp [Call.Safe]) ?_
  rintro (_ | _) _ hlive
  swap
  · exact wp_alone_exit.mpr trivial
  cases hlive
  refine alone_call trivial ?_
  rintro (_ | epollFd) _ hlive
  · exact wp_alone_exit.mpr trivial
  obtain ⟨-, rfl⟩ := add_eq_some.mp hlive
  refine alone_call (by simp [Call.Safe]) ?_
  rintro (_ | _) _ hlive
  swap
  · exact wp_alone_exit.mpr trivial
  cases hlive
  exact wp_alone_ret.mpr rfl

/-- Nothing is left, but for an `epoll_fd` of 0, which is not closed. -/
def CleanedUp : Except String Int → List (Object Held) → Prop
  | .ok n, own => n = 0 ∧ (own = [] ∨ own = [⟨.epoll 0, []⟩])
  | .error _, _ => False

theorem alone_cleanup (o : Opened) : Alone CleanedUp (cleanup o) o.objects := by
  refine alone_call (by simp [Call.Safe, Opened.objects, Busy]) fun r own hlive => ?_
  obtain rfl : own = [⟨.channel o.ec, []⟩, ⟨.epoll o.epollFd, []⟩] := by
    cases r with
    | ok =>
      rw [← Option.some.inj hlive]
      simp [destroy, Busy, Opened.objects]
    | fail => simp [liveAfter, Busy, Opened.objects] at hlive
  refine alone_call (by simp [Call.Safe, Busy]) fun r own hlive => ?_
  obtain rfl : own = [⟨.epoll o.epollFd, []⟩] := by
    rw [← Option.some.inj hlive]
    simp [destroy, Busy]
  split
  · refine alone_call (by simp [Call.Safe]) fun r own hlive => wp_alone_ret.mpr ⟨rfl, .inl ?_⟩
    rw [← Option.some.inj hlive]
    simp [destroy, Busy]
  · have hfd : o.epollFd = 0 := by omega
    exact wp_alone_ret.mpr ⟨rfl, .inr (by rw [hfd])⟩

/-- A call is answered somehow. -/
theorem exists_liveAfter (own : List (Object Held)) (c : Call) :
    ∃ r own', liveAfter own c r = some own' := by
  cases c with
  | createEventChannel | getaddrinfo | epollCreate1 | createId =>
    exact ⟨(none : Option Nat), own, rfl⟩
  | bindAddr | listen | register => exact ⟨Result.fail, own, rfl⟩
  | destroyId | close => exact ⟨Result.ok, _, rfl⟩
  | log | freeaddrinfo | destroyEventChannel => exact ⟨(), _, rfl⟩

/-! ## Every run -/

/-- What holds at a place of `main`. -/
def Pc.Keeps (own : List (Object Held)) (loop : EpollLoop.State) : Pc → Prop
  | .startup p => loop = .initial ∧ (∀ o, p ≠ .ret o) ∧ Alone StartedUp p own
  | .loop o => own = o.objects
  | .wait o => own = o.objects ∧ loop.batch = [] ∧ loop.status = .running
  | .cleanup p => loop.status = .running ∧ Alone CleanedUp p own

structure Keeps (s : State) : Prop where
  holds : Holds s.loop.sys
  pc : s.pc.Keeps s.own s.loop

theorem keeps_initial : Keeps initial where
  holds := fun _ => ⟨_, .initial⟩
  pc := ⟨rfl, fun _ => nofun, alone_startup⟩

/-- `step`, by the place it is taken at. -/
inductive Step (s : State) : Action → State → Prop where
  | sigint : Step s .sigint { s with keepRunning := false }
  | startup {p q c r own} (hpc : s.pc = .startup p) (hq : p.answer c r = some q)
    (hown : liveAfter s.own c r = some own) :
    Step s (.call c r) { s with pc := .ofStartup q, own := own }
  | cleanup {p q c r own} (hpc : s.pc = .cleanup p) (hq : p.answer c r = some q)
    (hown : liveAfter s.own c r = some own) :
    Step s (.call c r) { s with pc := .cleanup q, own := own }
  | test {o} (hpc : s.pc = .loop o) (hbatch : s.loop.batch = [])
    (hrunning : s.loop.status = .running) :
    Step s .test { s with pc := if s.keepRunning then .wait o else .cleanup (Main.cleanup o) }
  | failed {o} (hpc : s.pc = .wait o) :
    Step s (.waited .failed) { s with pc := .cleanup (Main.cleanup o) }
  | idle {o w} (hpc : s.pc = .wait o) : Step s (.waited w) { s with pc := .loop o }
  | events {o events l} (hpc : s.pc = .wait o)
    (hl : EpollLoop.step s.loop (.wait events) = some l) :
    Step s (.waited (.events events)) { s with pc := .loop o, loop := l }
  | handle {o a l} (hpc : s.pc = .loop o) (hbatch : s.loop.batch ≠ [])
    (hl : EpollLoop.step s.loop a = some l) : Step s (.handle a) { s with loop := l }

theorem calls_eq_some {p : Prog α} {pc : Prog α → Pc} {c : Call} {r : c.Answer} :
    s.calls p pc c r = some t ↔ ∃ q own, p.answer c r = some q ∧
      liveAfter s.own c r = some own ∧ { s with pc := pc q, own := own } = t := by
  simp [State.calls, Option.bind_eq_some_iff, Option.map_eq_some_iff]

theorem Step.of_step {a : Action} (h : step s a = some t) : Step s a t := by
  cases a with
  | sigint => cases h; exact .sigint
  | call c r =>
    simp only [step] at h
    split at h
    · obtain ⟨q, own, hq, hown, rfl⟩ := calls_eq_some.mp h
      exact .startup ‹_› hq hown
    · obtain ⟨q, own, hq, hown, rfl⟩ := calls_eq_some.mp h
      exact .cleanup ‹_› hq hown
    · cases h
  | test =>
    simp only [step] at h
    split at h
    · split at h
      · rename_i hpc hready
        cases h
        exact .test hpc hready.1 hready.2
      · cases h
    · cases h
  | waited w =>
    simp only [step] at h
    split at h
    · rename_i o hpc
      cases w with
      | interrupted => cases h; exact .idle hpc
      | failed => cases h; exact .failed hpc
      | timeout => cases h; exact .idle hpc
      | events events =>
        obtain ⟨l, hl, rfl⟩ := Option.map_eq_some_iff.mp h
        exact .events hpc hl
    · cases h
  | handle a =>
    simp only [step] at h
    split at h
    · split at h
      · cases h
      · obtain ⟨l, hl, rfl⟩ := Option.map_eq_some_iff.mp h
        exact .handle ‹_› ‹_› hl
    · cases h

theorem keeps_ofStartup {p : Prog Opened} (h : Alone StartedUp p own) :
    (Pc.ofStartup p).Keeps own .initial := by
  cases p with
  | ret o => exact wp_alone_ret.mp h
  | exit reason => exact ⟨rfl, fun _ => nofun, h⟩
  | call c k => exact ⟨rfl, fun _ => nofun, h⟩

theorem keeps_step (s : State) (a : Action) (t : State) (hs : Keeps s) (h : step s a = some t) :
    Keeps t := by
  have hpc := hs.pc
  cases Step.of_step h with
  | sigint => exact ⟨hs.holds, hpc⟩
  | startup heq hq hown =>
    rw [heq] at hpc
    obtain ⟨hloop, -, hp⟩ := hpc
    refine ⟨hs.holds, ?_⟩
    simp only [hloop]
    exact keeps_ofStartup (wp_step hp trivial hq hown).2
  | cleanup heq hq hown =>
    rw [heq] at hpc
    exact ⟨hs.holds, hpc.1, (wp_step hpc.2 trivial hq hown).2⟩
  | @test o heq hbatch hrunning =>
    rw [heq] at hpc
    refine ⟨hs.holds, ?_⟩
    have hown : s.own = o.objects := hpc
    cases hkeep : s.keepRunning with
    | true => exact ⟨hown, hbatch, hrunning⟩
    | false =>
      refine ⟨hrunning, ?_⟩
      simp only [hown]
      exact alone_cleanup o
  | @failed o heq =>
    rw [heq] at hpc
    obtain ⟨hown, -, hrunning⟩ := hpc
    refine ⟨hs.holds, hrunning, ?_⟩
    simp only [hown]
    exact alone_cleanup o
  | idle heq =>
    rw [heq] at hpc
    exact ⟨hs.holds, hpc.1⟩
  | events heq hl =>
    rw [heq] at hpc
    exact ⟨EpollLoop.holds_sys_step _ _ _ hs.holds hl, hpc.1⟩
  | handle heq hbatch hl =>
    rw [heq] at hpc
    refine ⟨EpollLoop.holds_sys_step _ _ _ hs.holds hl, ?_⟩
    rw [heq]
    exact hpc

theorem Keeps.next_safe (h : Keeps s) {c : Call} (hc : s.next = some c) : c.Safe s.own := by
  have hpc := h.pc
  unfold State.next at hc
  split at hc
  · rename_i p heq
    rw [heq] at hpc
    exact wp_allowed hpc.2.2 trivial hc
  · rename_i p heq
    rw [heq] at hpc
    exact wp_allowed hpc.2 trivial hc
  · cases hc

/-- The loop ends on `SIGINT`, where no `epoll_wait` fails. -/
theorem stopped_step (s : State) (a : Action) (t : State)
    (hs : ∀ p, s.pc = .cleanup p → s.keepRunning = false) (ha : a ≠ .waited .failed)
    (h : step s a = some t) : ∀ p, t.pc = .cleanup p → t.keepRunning = false := by
  intro p hp
  cases Step.of_step h with
  | sigint => rfl
  | @startup q r c _ _ heq hq hown =>
    cases r <;> cases hp
  | cleanup heq hq hown => exact hs _ heq
  | test heq hbatch hrunning =>
    cases hkeep : s.keepRunning with
    | true => simp [hkeep] at hp
    | false => rfl
  | failed heq => exact absurd rfl ha
  | idle heq => cases hp
  | events heq hl => cases hp
  | handle heq hbatch hl => exact hs p hp

/-- `main` up to its loop, in which a client connects. -/
def oneConnected : List Action :=
  [.call (.log "create event channel") (), .call .createEventChannel (some 0 : Option Nat),
    .call (.createId 0) (some 7 : Option Nat), .call .getaddrinfo (some 0 : Option Nat),
    .call (.bindAddr 7 0) Result.ok, .call (.freeaddrinfo 0) (), .call (.log "listen begin") (),
    .call (.listen 7 10) Result.ok, .call .epollCreate1 (some 4 : Option Nat),
    .call (.register 4 0) Result.ok, .test, .waited (.events [.ec]),
    .handle (.cmEvent ⟨.connectRequest, 1⟩ (returnsAt 10))]

/-- What is behind the loop. -/
def leaves : List Action :=
  [.test, .call (.destroyId 7) Result.ok, .call (.destroyEventChannel 0) (),
    .call (.close 4) Result.ok]

theorem batch_step {l l' : EpollLoop.State} {a : EpollLoop.Action} (hbatch : l.batch ≠ [])
    (h : EpollLoop.step l a = some l') : l'.batch.length < l.batch.length := by
  obtain ⟨p, hp⟩ := EpollLoop.batch_eq_cons h fun events ha =>
    hbatch (EpollLoop.wait_eq_some (ha ▸ h)).1
  simp [hp]

theorem batch_wait {l l' : EpollLoop.State} {events : List EpollLoop.Ready}
    (h : EpollLoop.step l (.wait events) = some l') : l'.batch.length ≤ EpollLoop.maxEvents := by
  obtain ⟨-, hcan, rfl⟩ := EpollLoop.wait_eq_some h
  exact hcan.1

theorem within_startup : startup.Within 10 := by
  refine fun _ => ?_
  rintro (_ | ec)
  · trivial
  rintro (_ | listener)
  · trivial
  rintro (_ | ai)
  · trivial
  rintro (_ | _)
  swap
  · trivial
  refine fun _ _ => ?_
  rintro (_ | _)
  swap
  · trivial
  rintro (_ | epollFd)
  · trivial
  rintro (_ | _) <;> trivial

theorem within_cleanup (o : Opened) : (cleanup o).Within 3 := by
  refine fun _ _ => ?_
  by_cases hfd : o.epollFd > 0
  · simp only [if_pos hfd]
    exact fun _ => trivial
  · simp only [if_neg hfd]
    trivial

/-- Without `keep_running` there are at most `n` steps of `main` to come. -/
def Pc.Soon (n : Nat) (batch : List EpollLoop.Ready) : Pc → Prop
  | .startup p => ∃ k, p.Within k ∧ k + 4 ≤ n
  | .loop _ => batch.length + 4 ≤ n
  | .wait _ => EpollLoop.maxEvents + 5 ≤ n
  | .cleanup p => p.Within n

def Soon (n : Nat) (s : State) : Prop := s.pc.Soon n s.loop.batch

theorem Soon.mono {m n : Nat} (h : Soon m s) (hle : m ≤ n) : Soon n s := by
  unfold Soon at h ⊢
  cases hpc : s.pc with
  | startup p =>
    rw [hpc] at h
    obtain ⟨k, hk, hkm⟩ := h
    exact ⟨k, hk, Nat.le_trans hkm hle⟩
  | loop o => rw [hpc] at h; exact Nat.le_trans h hle
  | wait o => rw [hpc] at h; exact Nat.le_trans h hle
  | cleanup p => rw [hpc] at h; exact Within.mono h hle

theorem soon_ofStartup {p : Prog Opened} {k : Nat} (hp : p.Within k) :
    (Pc.ofStartup p).Soon (k + 4) [] := by
  cases p with
  | ret o => exact Nat.le_add_left 4 k
  | exit reason => exact ⟨k, hp, Nat.le_refl _⟩
  | call c f => exact ⟨k, hp, Nat.le_refl _⟩

/-- Each step of `main` brings its end nearer, but for one that goes on to
`epoll_wait`. -/
theorem soon_step {n : Nat} {a : Action} (hs : Keeps s) (hn : Soon n s)
    (h : step s a = some t) : (a = .sigint ∧ Soon n t) ∨ (∃ k < n, Soon k t) ∨
      (s.keepRunning = true ∧ ∃ o, t.pc = .wait o) := by
  unfold Soon at hn
  have hpc := hs.pc
  cases Step.of_step h with
  | sigint => exact .inl ⟨rfl, hn⟩
  | startup heq hq hown =>
    rw [heq] at hn hpc
    obtain ⟨k, hk, hle⟩ := hn
    obtain ⟨m, rfl, hm⟩ := within_of_answer hk hq
    refine .inr (.inl ⟨m + 4, by omega, ?_⟩)
    simp only [Soon, hpc.1]
    exact soon_ofStartup hm
  | cleanup heq hq hown =>
    rw [heq] at hn
    obtain ⟨m, rfl, hm⟩ := within_of_answer hn hq
    exact .inr (.inl ⟨m, by omega, hm⟩)
  | @test o heq hbatch hrunning =>
    rw [heq] at hn
    have hle : s.loop.batch.length + 4 ≤ n := hn
    cases hkeep : s.keepRunning with
    | true => exact .inr (.inr ⟨rfl, o, rfl⟩)
    | false => exact .inr (.inl ⟨3, by omega, within_cleanup o⟩)
  | failed heq =>
    rw [heq] at hn
    have hle : EpollLoop.maxEvents + 5 ≤ n := hn
    exact .inr (.inl ⟨3, by omega, within_cleanup _⟩)
  | idle heq =>
    rw [heq] at hn hpc
    have hle : EpollLoop.maxEvents + 5 ≤ n := hn
    refine .inr (.inl ⟨4, by omega, ?_⟩)
    simp [Soon, Pc.Soon, hpc.2.1]
  | events heq hl =>
    rw [heq] at hn
    have hle : EpollLoop.maxEvents + 5 ≤ n := hn
    exact .inr (.inl ⟨EpollLoop.maxEvents + 4, by omega, Nat.add_le_add_right (batch_wait hl) 4⟩)
  | @handle o b l heq hbatch hl =>
    rw [heq] at hn
    have hle : s.loop.batch.length + 4 ≤ n := hn
    have hlt := batch_step hbatch hl
    refine .inr (.inl ⟨l.batch.length + 4, by omega, ?_⟩)
    simp [Soon, Pc.Soon, heq]

/-- The bound that always holds. -/
theorem reached_step (s : State) (a : Action) (t : State)
    (hs : Keeps s ∧ Soon (EpollLoop.maxEvents + 5) s) (h : step s a = some t) :
    Keeps t ∧ Soon (EpollLoop.maxEvents + 5) t := by
  refine ⟨keeps_step s a t hs.1 h, ?_⟩
  rcases soon_step hs.1 hs.2 h with ⟨-, hn⟩ | ⟨k, hlt, hk⟩ | ⟨-, o, ho⟩
  · exact hn
  · exact hk.mono (Nat.le_of_lt hlt)
  · simp [Soon, Pc.Soon, ho]

theorem keepRunning_step {a : Action} (hs : s.keepRunning = false) (h : step s a = some t) :
    t.keepRunning = false := by
  cases Step.of_step h with
  | sigint => rfl
  | _ => exact hs

/-- Behind `SIGINT`. -/
structure Stopping (n : Nat) (s : State) : Prop where
  keeps : Keeps s
  stopped : s.keepRunning = false
  soon : Soon n s

theorem stopping_step (n : Nat) (s : State) (a : Action) (t : State) (hs : Stopping n s)
    (ha : a ≠ .sigint) (h : step s a = some t) : ∃ k < n, Stopping k t := by
  rcases soon_step hs.keeps hs.soon h with ⟨hsig, -⟩ | ⟨k, hlt, hk⟩ | ⟨hkeep, -⟩
  · exact absurd hsig ha
  · exact ⟨k, hlt, keeps_step s a t hs.keeps h, keepRunning_step hs.stopped h, hk⟩
  · simp [hs.stopped] at hkeep

theorem exists_calls (s : State) (c : Call) (k : c.Answer → Prog α) (pc : Prog α → Pc) :
    ∃ r t, s.calls (.call c k) pc c r = some t := by
  obtain ⟨r, own, hown⟩ := exists_liveAfter s.own c
  exact ⟨r, _, calls_eq_some.mpr ⟨k r, own, by simp [answer], hown, rfl⟩⟩

/-- Where nothing but `SIGINT` is left, the process has ended. -/
theorem Keeps.over (h : Keeps s) (hstuck : Run.Stuck step (fun _ a => a ≠ .sigint) s) :
    s.Over := by
  have hpc := h.pc
  cases heq : s.pc with
  | startup p =>
    cases p with
    | ret o =>
      rw [heq] at hpc
      exact absurd rfl (hpc.2.1 o)
    | exit reason => exact .inr (.inl ⟨reason, heq⟩)
    | call c k =>
      obtain ⟨r, t, ht⟩ := exists_calls s c k .ofStartup
      have hnone := hstuck (.call c r) (by simp)
      simp [step, heq, ht] at hnone
  | loop o =>
    refine .inr (.inr fun hrunning => ?_)
    cases hb : s.loop.batch with
    | nil =>
      have hnone := hstuck .test (by simp)
      simp [step, heq, hb, hrunning] at hnone
    | cons p rest =>
      cases p with
      | ec =>
        have hnone := hstuck (.handle .noCmEvent) (by simp)
        simp [step, heq, hb, EpollLoop.step, hrunning] at hnone
      | channel c =>
        have hnone := hstuck (.handle (.cqEvent none)) (by simp)
        simp [step, heq, hb, EpollLoop.step, hrunning] at hnone
  | wait o =>
    have hnone := hstuck (.waited .timeout) (by simp)
    simp [step, heq, State.waits] at hnone
  | cleanup p =>
    rw [heq] at hpc
    cases p with
    | ret n =>
      obtain ⟨rfl, -⟩ := wp_alone_ret.mp hpc.2
      exact .inl heq
    | exit reason => exact (wp_alone_exit.mp hpc.2).elim
    | call c k =>
      obtain ⟨r, t, ht⟩ := exists_calls s c k .cleanup
      have hnone := hstuck (.call c r) (by simp)
      simp [step, heq, ht] at hnone

end RdmaTutorial.Rdmacm05.Main
