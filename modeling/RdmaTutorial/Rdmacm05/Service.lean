import Mathlib.Algebra.Order.BigOperators.Group.List
import RdmaTutorial.Rdmacm05.Joint
import RdmaTutorial.Rdmacm05.Sessions

/-!
# rdmacm05: the server serves its clients to their end

What `Sessions` says of the connections, for the whole server: `main` waits,
takes its batch entry by entry, and calls the handlers. What is left to do is
what is left on the connections and what `main` still has to look at, so no
schedule goes on for ever; and where nothing is left to do `main` waits, with its
batch empty, and every client is behind its loop.
-/

namespace RdmaTutorial.Rdmacm05.Joint

open CmEvents Verbs

/-- A step that gets the clients on: nothing fails, and what the batch names stays
open. -/
def Active (s : State Client) : Action Client.Args Client.Action → Prop
  | .wait fds => fds ≠ [] ∧ none ∉ fds
  | .cmEvent e r _ => e.event ≠ .connectRequest ∧ r.Succeed ∧ EpollLoop.Spares s.loop (.cmEvent e r)
  | .cqEvent _ => True
  | .conns a => Rdmacm05.Active s.conns a
  | _ => False

instance (s : State Client) : DecidablePred (Active s)
  | .wait fds => inferInstanceAs (Decidable (fds ≠ [] ∧ none ∉ fds))
  | .cmEvent e r _ => inferInstanceAs (Decidable
      (e.event ≠ .connectRequest ∧ r.Succeed ∧ EpollLoop.Spares s.loop (.cmEvent e r)))
  | .cqEvent _ => inferInstanceAs (Decidable True)
  | .conns a => inferInstanceAs (Decidable (Rdmacm05.Active s.conns a))
  | .noCmEvent | .noCqEvent => inferInstanceAs (Decidable False)

/-- Or one that brings more to do: an event of the connection manager comes, or a
client is accepted. -/
def Goes (s : State Client) : Action Client.Args Client.Action → Prop
  | .wait fds => fds ≠ []
  | .cmEvent e r _ => r.Succeed ∧ EpollLoop.Spares s.loop (.cmEvent e r)
  | a => Active s a

instance (s : State Client) : DecidablePred (Goes s)
  | .wait fds => inferInstanceAs (Decidable (fds ≠ []))
  | .cmEvent e r _ =>
    inferInstanceAs (Decidable (r.Succeed ∧ EpollLoop.Spares s.loop (.cmEvent e r)))
  | .noCmEvent => inferInstanceAs (Decidable (Active s .noCmEvent))
  | .cqEvent nc => inferInstanceAs (Decidable (Active s (.cqEvent nc)))
  | .noCqEvent => inferInstanceAs (Decidable (Active s .noCqEvent))
  | .conns a => inferInstanceAs (Decidable (Active s (.conns a)))

/-- A step that changes nothing: `epoll_wait` returns nothing, or a client polls an
empty queue. -/
def Idle (s : State Client) : Action Client.Args Client.Action → Prop
  | .wait fds => fds = []
  | .conns (.peer nc a) => ∀ l ∈ s.conns.links nc, l.peer.Idle a
  | _ => False

instance (s : State Client) : DecidablePred (Idle s)
  | .wait fds => inferInstanceAs (Decidable (fds = []))
  | .conns (.peer nc a) => inferInstanceAs (Decidable (∀ l ∈ s.conns.links nc, l.peer.Idle a))
  | .conns (.connect ..) | .conns (.disconnect _) | .conns (.cqEvent _) | .conns (.server _)
  | .conns (.poll _) | .conns (.hca ..) | .conns (.toServer ..) | .conns (.toPeer _)
  | .cmEvent .. | .noCmEvent | .cqEvent _ | .noCqEvent => inferInstanceAs (Decidable False)

variable {s t : State Client} {a : Action Client.Args Client.Action}

theorem Active.goes (h : Active s a) : Goes s a := by
  cases a with
  | wait fds => exact h.1
  | cmEvent e r x => exact h.2
  | _ => exact h

theorem Goes.spares (h : Goes s a) : Spares s a := by
  cases a with
  | cmEvent e r x => exact h.2
  | _ => trivial

theorem Goes.succeeds (h : Goes s a) : Succeeds a := by
  cases a with
  | cmEvent e r x => exact h.1
  | _ => trivial

theorem Idle.eq_of_step (s : State Client) (a : Action Client.Args Client.Action)
    (t : State Client) (h : Idle s a) (hs : step Client.peer s a = some t) : t = s := by
  cases Step.of_step hs with
  | wait hmain hready hl =>
    obtain rfl : _ = [] := h
    obtain ⟨hbatch, -, rfl⟩ := EpollLoop.wait_eq_some hl
    obtain ⟨⟨sys, batch⟩, conns⟩ := s
    obtain rfl : batch = [] := hbatch
    rfl
  | @conns b u hin hu =>
    cases b with
    | peer nc x =>
      cases Rdmacm05.Step.of_step hu with
      | @peer _ l _ q hl hq =>
        obtain rfl := (h l hl).eq_of_step hq
        obtain ⟨loop, ⟨status, thread, links, free⟩⟩ := s
        replace hl : links nc = some l := hl
        simp [Rdmacm05.State.setLink, ← hl]
    | _ => exact h.elim
  | _ => exact h.elim

/-! ## What a step is for the connections -/

/-- A connection is opened for the client whose `CONNECT_REQUEST` is handled. -/
def Carries (a : Action Client.Args Client.Action) (b : Rdmacm05.Action Client.Args Client.Action) :
    Prop :=
  ∀ nc i j x, b = .connect nc i j x →
    ∃ e r, a = .cmEvent e r x ∧ e.event = .connectRequest ∧ r.nc = nc

theorem Carries.of_ne {b : Rdmacm05.Action Client.Args Client.Action}
    (h : ∀ nc i j x, b ≠ .connect nc i j x) : Carries a b :=
  fun nc i j x hb => absurd hb (h nc i j x)

theorem carries_change {e : CmEvent} {r : Returns} {x : Client.Args}
    {b : Rdmacm05.Action Client.Args Client.Action} (h : s.change e r x = some b) :
    Allowed s.conns b ∧ Carries (.cmEvent e r x) b := by
  unfold State.change at h
  split at h
  · split at h
    · cases h
      exact ⟨trivial, fun nc i j y hb => by cases hb; exact ⟨e, r, rfl, ‹_›, rfl⟩⟩
    · cases h
  · obtain ⟨nc, -, rfl⟩ := Option.map_eq_some_iff.mp h
    exact ⟨trivial, .of_ne (by simp)⟩
  · cases h

theorem Goes.conns (h : Goes s a) (hs : step Client.peer s a = some t) :
    t.conns = s.conns ∨ ∃ b, Rdmacm05.step Client.peer s.conns b = some t.conns ∧
      Allowed s.conns b ∧ Carries a b := by
  cases Step.of_step hs with
  | wait | cmEvent => exact .inl rfl
  | changes hmain hchange hl hu => exact .inr ⟨_, hu, carries_change hchange⟩
  | cqEvent hmain hconn hhead hl hu => exact .inr ⟨_, hu, trivial, .of_ne (by simp)⟩
  | conns hin hu =>
    exact .inr ⟨_, hu, Rdmacm05.Active.allowed h, .of_ne (by rintro nc i j x rfl; cases hin)⟩
  | noCmEvent | noCqEvent => exact h.elim

/-! ## What is left to do -/

/-- What the server keeps. The connections are in `S`. -/
structure Serving (S : Finset Nc) (s : State Client) : Prop where
  joined : Joined s
  running : s.loop.status = .running
  orderly : Orderly s.conns
  inside : Inside S s.conns

/-- A new connection is in `S`. -/
def Names (S : Finset Nc) : Action Client.Args Client.Action → Prop
  | .cmEvent e r _ => e.event = .connectRequest → r.nc ∈ S
  | _ => True

/-- A new client has no more messages than there is room for sends. -/
def Modest : Action Client.Args Client.Action → Prop
  | .cmEvent e _ a => e.event = .connectRequest → a.count.val ≤ maxSendWr
  | _ => True

instance : DecidablePred Modest
  | .cmEvent e _ a =>
    inferInstanceAs (Decidable (e.event = .connectRequest → a.count.val ≤ maxSendWr))
  | .wait _ | .noCmEvent | .cqEvent _ | .noCqEvent | .conns _ => inferInstanceAs (Decidable True)

/-- What a step that brings more to do brings: the client, or an entry for the event
channel. -/
def fee : Action Client.Args Client.Action → Nat
  | .wait fds => if none ∈ fds then 2 else 0
  | .cmEvent e _ a => if e.event = .connectRequest then 66 * a.count.val + 16 else 0
  | _ => 0

/-- Twice what is left on the connections, because `main` looks at its batch in
between. -/
def State.work (S : Finset Nc) (s : State Client) : Nat :=
  2 * s.conns.work S + 2 * s.loop.batch.count .ec + if s.loop.batch = [] then 1 else 0

variable {S : Finset Nc} {b : Rdmacm05.Action Client.Args Client.Action}

/-- A step that gets the clients on brings nothing. -/
theorem Active.spends (h : Active s a) (S : Finset Nc) : Names S a ∧ fee a = 0 := by
  cases a with
  | wait fds => exact ⟨trivial, if_neg h.2⟩
  | cmEvent e r x => exact ⟨fun hev => absurd hev h.1, if_neg h.1⟩
  | _ => exact ⟨trivial, rfl⟩

theorem Carries.names (h : Carries a b) (ha : Names S a) : Rdmacm05.Names S b := by
  cases b with
  | connect nc i j x =>
    obtain ⟨e, r, rfl, hev, rfl⟩ := h nc i j x rfl
    exact ha hev
  | _ => trivial

theorem Carries.fee_le (h : Carries a b) : 2 * Rdmacm05.fee b ≤ fee a := by
  cases b with
  | connect nc i j x =>
    obtain ⟨e, r, rfl, hev, rfl⟩ := h nc i j x rfl
    simp only [Rdmacm05.fee, fee, hev, if_true]
    omega
  | _ => exact Nat.zero_le _

theorem Carries.modest (h : Carries a b) (ha : Modest a) : Rdmacm05.Brings maxSendWr b := by
  cases b with
  | connect nc i j x =>
    obtain ⟨e, r, rfl, hev, -⟩ := h nc i j x rfl
    exact ha hev
  | _ => trivial

theorem Serving.step (hs : Serving S s) (ha : Goes s a) (hS : Names S a)
    (h : Joint.step Client.peer s a = some t) : Serving S t := by
  have hjoined := joined_step s a t hs.joined ha.spares h
  have hrunning := hs.joined.running_step ha.succeeds h
  rcases ha.conns h with hsame | ⟨b, hb, hallowed, hcarries⟩
  · exact ⟨hjoined, hrunning, hsame ▸ hs.orderly, hsame ▸ hs.inside⟩
  · exact ⟨hjoined, hrunning, hs.orderly.step hallowed hb,
      hs.inside.step hs.orderly.tagged (hcarries.names hS) hb⟩

/-- A step of the connections lowers what is left on them, up to a fee. -/
theorem Serving.conns_work (hs : Serving S s) {v : Rdmacm05.State Client}
    (hb : Rdmacm05.step Client.peer s.conns b = some v) (hallowed : Allowed s.conns b)
    (hcarries : Carries a b) (hS : Names S a) : 2 * v.work S + 1 < 2 * s.conns.work S + fee a := by
  have hw := hs.orderly.work_step hs.inside hallowed (hcarries.names hS) hb
  have hle := hcarries.fee_le
  omega

/-- **The step lemma.** A step lowers what is left to do, up to what it brings. -/
theorem Serving.work_step (hs : Serving S s) (ha : Goes s a) (hS : Names S a)
    (h : Joint.step Client.peer s a = some t) : t.work S < s.work S + fee a := by
  cases Step.of_step h with
  | @wait fds l hmain hready hl =>
    obtain ⟨hbatch, hcan, rfl⟩ := EpollLoop.wait_eq_some hl
    have hne : fds ≠ [] := ha
    have hcount : 2 * (fds.map s.entry).count .ec ≤ fee (.wait fds) := by
      by_cases hec : none ∈ fds
      · have hone := List.nodup_iff_count_le_one.mp hcan.2.1 .ec
        simp only [fee, hec, if_true]
        omega
      · have hzero : (fds.map s.entry).count .ec = 0 := List.count_eq_zero.mpr fun hmem => by
          obtain ⟨fd, hfd, hentry⟩ := List.mem_map.mp hmem
          cases fd with
          | none => exact hec hfd
          | some nc => cases hentry
        omega
    simp only [State.work, hbatch, List.map_eq_nil_iff, hne, if_true, if_false, List.count_nil]
    omega
  | cmEvent hmain hchange hl =>
    obtain ⟨rest, u, hbatch, hu, rfl⟩ := EpollLoop.cmEvent_eq_some hl
    simp only [State.work, hbatch, List.count_cons_self, reduceCtorEq, if_false]
    split <;> omega
  | changes hmain hchange hl hv =>
    obtain ⟨rest, u, hbatch, hu, rfl⟩ := EpollLoop.cmEvent_eq_some hl
    obtain ⟨hallowed, hcarries⟩ := carries_change hchange
    have hw := hs.conns_work hv hallowed hcarries hS
    simp only [State.work, hbatch, List.count_cons_self, reduceCtorEq, if_false]
    split <;> omega
  | @cqEvent nc l v hmain hconn hhead hl hv =>
    obtain ⟨c, rest, hbatch, rfl⟩ := EpollLoop.cqEvent_eq_some hl
    have hw := hs.conns_work (a := .cqEvent nc) hv trivial (.of_ne (by simp)) hS
    have hcount : List.count EpollLoop.Ready.ec (.channel c :: rest) = rest.count .ec := by simp
    simp only [State.work, EpollLoop.handleCqEvent_batch, hbatch, hcount, reduceCtorEq, if_false]
    split <;> omega
  | @conns b u hin hu =>
    have hw := hs.conns_work (a := .conns b) hu (Rdmacm05.Active.allowed ha)
      (.of_ne (by rintro nc i j x rfl; cases hin)) hS
    simp only [State.work]
    omega
  | noCmEvent | noCqEvent => exact ha.elim

/-! ## Where nothing is left to do -/

/-- Where no step gets the clients on, none does on the connections, a call of
`handle_cq_event` apart. -/
theorem conns_stuck (hrun : s.loop.status = .running)
    (hstuck : Run.Stuck (step Client.peer) Active s)
    (hget : ∀ nc, Rdmacm05.step Client.peer s.conns (.cqEvent nc) = none) :
    Run.Stuck (Rdmacm05.step Client.peer) Rdmacm05.Active s.conns := by
  intro b hb
  by_cases hin : inside b
  · simpa [step, hrun, hin] using hstuck (.conns b) hb
  · cases b with
    | cqEvent nc => exact hget nc
    | connect | disconnect => exact hb.elim
    | _ => exact absurd rfl hin

theorem Serving.loop_of_stuck (hs : Serving S s) (hconns : s.conns.status = .running)
    (hstuck : Run.Stuck (Joint.step Client.peer) Active s) : s.conns.thread = .loop := by
  by_contra hne
  refine hne (hs.orderly.loop_of_stuck hconns (conns_stuck hs.running hstuck fun nc => ?_))
  simp [Rdmacm05.step, hne]

/-- `main` can always take the next entry. -/
theorem Serving.batch_of_stuck (hs : Serving S s) (hmain : s.InMain)
    (hstuck : Run.Stuck (Joint.step Client.peer) Active s) : s.loop.batch = [] := by
  cases hbatch : s.loop.batch with
  | nil => rfl
  | cons p rest =>
    cases p with
    | ec =>
      have hl : EpollLoop.step s.loop (.cmEvent ⟨.other 0, 0⟩ (returnsAt 0)) =
          some ⟨⟨s.loop.sys.server.use false .event, s.loop.sys.phase⟩, rest⟩ := by
        have hrun := hs.running
        simp only [EpollLoop.State.status] at hrun
        simp [EpollLoop.step, EpollLoop.State.status, hrun, hbatch, CmEvents.step,
          CmEvents.Allowed, handleCmEvent, nextPhase]
      have hsome := hs.joined.cmEvent_enabled (P := Client.peer) hmain hl Echoed.once
      have hnone := hstuck (.cmEvent ⟨.other 0, 0⟩ (returnsAt 0) Echoed.once)
        ⟨by simp, by decide, trivial⟩
      simp [hnone] at hsome
    | channel c =>
      obtain ⟨n, hsome⟩ := hs.joined.cqEvent_enabled (P := Client.peer) hs.running hmain hbatch
      simp [hstuck (.cqEvent n) trivial] at hsome

theorem Serving.finished (hs : Serving S s) (hconns : s.conns.status = .running)
    (hstuck : Run.Stuck (Joint.step Client.peer) Active s) :
    s.conns.thread = .loop ∧ s.loop.batch = [] ∧
      ∀ c l, s.conns.links c = some l → l.peer.pc = .cleanup l.peer.count.val := by
  have hloop := hs.loop_of_stuck hconns hstuck
  have hbatch := hs.batch_of_stuck ⟨hconns, hloop⟩ hstuck
  refine ⟨hloop, hbatch, fun c l hl => ?_⟩
  refine hs.orderly.finished hconns (conns_stuck hs.running hstuck fun nc => ?_) hl
  -- An event would make its channel one that `epoll_wait` returns.
  by_contra hsome
  have hev : 0 < eventsOf s.conns nc := by
    obtain ⟨v, hv⟩ := Option.ne_none_iff_exists'.mp hsome
    cases Rdmacm05.Step.of_step hv with
    | cqEvent hthread hk hev => simpa [eventsOf, hk] using hev
  have hwait := hs.joined.wait_enabled (P := Client.peer) hs.running ⟨hconns, hloop⟩ hbatch hev
  simp [hstuck (.wait [some nc]) ⟨by simp, by simp⟩] at hwait

/-! ## Runs -/

/-- The connections that a run opens. -/
def opened (as : List (Action Client.Args Client.Action)) : Finset Nc :=
  (as.filterMap fun
    | .cmEvent _ r _ => some r.nc
    | _ => none).toFinset

theorem names_opened {as : List (Action Client.Args Client.Action)} (ha : a ∈ as) :
    Names (opened as) a := by
  cases a with
  | cmEvent e r x =>
    intro _
    simp only [opened, List.mem_toFinset, List.mem_filterMap]
    exact ⟨_, ha, rfl⟩
  | _ => trivial

/-- With few messages from each client the process does not end. -/
theorem running_of_modest {heap : Nat → Block} {as : List (Action Client.Args Client.Action)}
    (hrun : Run.run (step Client.peer) (State.initial heap) as = some s)
    (hm : Run.Meets (step Client.peer) Goes (State.initial heap) as)
    (hmodest : ∀ a ∈ as, Modest a) : s.conns.status = .running := by
  refine ((hm.and (.of_forall hmodest)).invariant
    (I := fun s => Orderly s.conns ∧ Few maxSendWr s.conns ∧ Credits s.conns ∧
      s.conns.status = .running) (fun s a t hs ha h => ?_) hrun
    ⟨orderly_initial, ?_, ?_, rfl⟩).2.2.2
  · obtain ⟨hord, hfew, hcredits, halive⟩ := hs
    rcases ha.1.conns h with hsame | ⟨b, hb, hallowed, hcarries⟩
    · rw [hsame]
      exact ⟨hord, hfew, hcredits, halive⟩
    · have htag := hord.tagged
      refine ⟨hord.step hallowed hb, hfew.step htag (hcarries.modest ha.2) hb,
        hcredits.step htag (hord.room hfew hallowed hb) hb, ?_⟩
      rcases hord.status_step hallowed hb with ht | ht
      · exact ht.trans halive
      · rcases hcredits.died htag hb ht with hdied | ⟨rfl, -⟩
        · simp [halive] at hdied
        · cases hallowed
  · intro c l hl
    simp [State.initial, Rdmacm05.State.initial] at hl
  · intro c e he
    simp [State.initial, view, Rdmacm05.State.initial] at he

/-- **Every client is served to its end.** Any number of clients, each with a bound
of its own, connect and disconnect when they like; `main` takes whatever
`epoll_wait` returns in any order, as long as no `DISCONNECTED` is handled while
its batch still names the channel of that connection; and nothing fails. Then the
steps that are not idle polls are bounded by what the clients bring, however often
the clients poll; they can always be gone on with until none is left; and there, if
the server is still running, `main` is back at `epoll_wait` and every client that
is connected has done all its iterations. If it is not running any more, it has
found a send queue full, and a client with more than `max_send_wr` messages has
connected. -/
theorem clients_finish {heap : Nat → Block} {as : List (Action Client.Args Client.Action)}
    {s : State Client} (hrun : Run.run (step Client.peer) (State.initial heap) as = some s)
    (hm : Run.Meets (step Client.peer) (fun s a => Goes s a ∨ Idle s a) (State.initial heap) as) :
    Run.count (step Client.peer) Goes (State.initial heap) as ≤ 3 + (as.map fee).sum ∧
    (∃ bs t, Run.run (step Client.peer) s bs = some t ∧
      Run.Meets (step Client.peer) Active s bs ∧ Run.Stuck (step Client.peer) Active t) ∧
    (s.conns.status = .running → Run.Stuck (step Client.peer) Active s →
      s.conns.thread = .loop ∧ s.loop.batch = [] ∧
        ∀ c l, s.conns.links c = some l → l.peer.pc = .cleanup l.peer.count.val) ∧
    (s.conns.status ≠ .running → s.conns.status = .died postSendDie ∧
      ∃ e r a, .cmEvent e r a ∈ as ∧ e.event = .connectRequest ∧ maxSendWr < a.count.val) := by
  -- Without the idle steps it is a run of steps that each count.
  obtain ⟨bs, hsub, hbs, hmeets, hlen⟩ := hm.skip Idle.eq_of_step hrun
  have hstep : ∀ s a t, Serving (opened as) s → Goes s a ∧ Names (opened as) a →
      step Client.peer s a = some t →
      Serving (opened as) t ∧ t.work (opened as) < s.work (opened as) + fee a :=
    fun s a t hs ha h => ⟨hs.step ha.1 ha.2 h, hs.work_step ha.1 ha.2 h⟩
  have hinitial : Serving (opened as) (State.initial heap : State Client) :=
    ⟨joined_initial heap, rfl, orderly_initial, fun c hc => by
      simp [State.initial, Rdmacm05.State.initial] at hc⟩
  have hnamed := hmeets.and (.of_forall fun a ha => names_opened (hsub.subset ha))
  have hs := hnamed.invariant (fun s a t hs ha h => (hstep s a t hs ha h).1) hbs hinitial
  refine ⟨?_, ?_, hs.finished, fun hne => ⟨hs.orderly.status.resolve_left hne, ?_⟩⟩
  · have hle := hnamed.length_le_fees hstep hbs hinitial
    have hfees : (bs.map fee).sum ≤ (as.map fee).sum :=
      (hsub.map fee).sum_le_sum fun _ _ => Nat.zero_le _
    have hthree : (State.initial heap : State Client).work (opened as) = 3 := by
      simp [State.work, State.initial, EpollLoop.State.initial, Rdmacm05.State.work,
        Rdmacm05.State.initial, Thread.work]
    omega
  · have hactive : ∀ s a t, Serving (opened as) s → Active s a →
        step Client.peer s a = some t →
        Serving (opened as) t ∧ t.work (opened as) < s.work (opened as) := by
      intro s a t hs ha h
      obtain ⟨hnames, hfee⟩ := ha.spends (opened as)
      have ht := hstep s a t hs ⟨ha.goes, hnames⟩ h
      rwa [hfee, Nat.add_zero] at ht
    obtain ⟨cs, t, hcs, hmoves, -, hstuck⟩ := Run.Meets.reaches_stuck hactive hs
    exact ⟨cs, t, hcs, hmoves, hstuck⟩
  · by_contra hno
    refine hne (running_of_modest hbs hmeets fun a ha => ?_)
    cases a with
    | cmEvent e r x =>
      intro hev
      by_contra hgt
      exact hno ⟨e, r, x, hsub.subset ha, hev, Nat.lt_of_not_le hgt⟩
    | _ => trivial

/-- Two clients; the first has its first message echoed, and polls in between. -/
def twoClients : List (Action Client.Args Client.Action) :=
  joins 1 10 ++ joins 2 20 ++
  [.conns (.peer 10 (.exec .ok)), .conns (.peer 10 (.exec .ok)), .conns (.peer 10 (.exec .ok)),
    .wait [], .conns (.peer 10 (.hca (.read 0))), .conns (.toServer 10 .recv),
    .conns (.hca 10 .reportRecv), .wait [none, some 10],
    .cmEvent ⟨.established, 2⟩ (returnsAt 0) Echoed.once, .cqEvent 10,
    .conns (.server .ok), .conns (.server .ok), .conns (.poll 1)] ++
  List.replicate 5 (.conns (.server .ok)) ++
  [.conns (.poll 0), .conns (.hca 10 (.read 0)), .conns (.toPeer 10), .conns (.hca 10 .reportSend),
    .wait [none, some 10], .cmEvent ⟨.disconnected, 2⟩ (returnsAt 0) Echoed.once]

theorem clients_finish_twoClients : ∃ s bs t,
    Run.run (step Client.peer) (State.initial fun _ => zeros) twoClients = some s ∧
    Run.count (step Client.peer) Goes (State.initial fun _ => zeros) twoClients ≤ 1363 ∧
    Run.run (step Client.peer) s bs = some t ∧ Run.Stuck (step Client.peer) Active t ∧
    t.conns.status = .running ∧
    ∀ c l, t.conns.links c = some l → l.peer.pc = .cleanup l.peer.count.val := by
  have hsome : (Run.run (step Client.peer) (State.initial fun _ => zeros) twoClients).isSome := by
    decide +kernel
  obtain ⟨s, hs⟩ := Option.isSome_iff_exists.mp hsome
  have hm : Run.Meets (step Client.peer) (fun s a => Goes s a ∨ Idle s a)
      (State.initial fun _ => zeros) twoClients := by
    decide +kernel
  obtain ⟨hcount, ⟨bs, t, hbs, hmoves, hstuck⟩, -⟩ := clients_finish hs hm
  obtain ⟨-, -, hfinish, hdied⟩ := clients_finish (Run.run_append hs hbs)
    (hm.append hs (hmoves.mono fun s a h => .inl h.goes))
  have halive : t.conns.status = .running := by
    by_contra hne
    obtain ⟨-, e, r, x, ha, hev, hmany⟩ := hdied hne
    rcases List.mem_append.mp ha with ha | ha
    · have hmodest : ∀ a ∈ twoClients, Modest a := by decide
      exact absurd (hmodest _ ha hev) (Nat.not_le.mpr hmany)
    · -- What gets the clients on accepts none.
      obtain ⟨cs, ds, rfl⟩ := List.append_of_mem ha
      obtain ⟨u, hu, -⟩ := Run.run_of_append hbs
      exact (Run.meets_iff.mp hmoves cs _ ds u rfl hu).1 hev
  obtain ⟨-, -, hall⟩ := hfinish halive hstuck
  exact ⟨s, bs, t, hs, hcount.trans (by decide), hbs, hstuck, halive, hall⟩

end RdmaTutorial.Rdmacm05.Joint
