import Mathlib.Algebra.BigOperators.Group.Finset.Basic
import RdmaTutorial.Progress
import RdmaTutorial.Rdmacm05.Capacity
import RdmaTutorial.Rdmacm05.Echoes
import RdmaTutorial.Rdmacm05.Notify

/-!
# rdmacm05: what is left to do on the connections

One thread for any number of clients, each with a bound of its own. Each step
that is not an idle poll lowers what is left to do over all connections
(`State.work`), and where no such step is left the thread is in `main`, every
queue is empty, and every client is behind its loop. The one way for the handlers
to fail the clients is a full send queue, and that takes a client with more
messages than `max_send_wr`. When `main` calls the handlers is not said here
(`Rdmacm05.Joint`).
-/

namespace RdmaTutorial

open CString Verbs

/-- The messages a client has posted. -/
def Client.Pc.made : Client.Pc → Nat
  | .connecting => 0
  | .compose i => i
  | .postSend i => i
  | .pollSend i => i + 1
  | .notifySend i => i + 1
  | .pollRecv i => i + 1
  | .received i => i + 1
  | .postRecv i => i + 1
  | .notifyRecv i => i + 1
  | .cleanup i => i
  | .died i _ => i + 1

namespace Echo

section Load

variable {ρ σ α : Type} {P : Peer ρ σ α} {s t : State σ}

/-- Only an arrival adds to what the connection holds. -/
theorem Step.load_le {b : Move α} (h : Step P s b t) (hb : ∀ m, b = .hca m → m.Succeeds)
    (hne : ∀ opcode, b ≠ .toServer opcode) : t.load ≤ s.load := by
  cases h with
  | arm | event | firstRecv | established | done | postRecv | peer => exact Nat.le_refl _
  | poll c p n =>
    have hload := recvsIn_taken_add_le c.ep.cq n
    simp only [State.load, Stage.unread, Stage.copied, Connection.poll, Endpoint.poll]
    omega
  | next wc wcs c p =>
    simp only [State.load, dispatch_unread, dispatch_copied]
    exact Nat.le_refl _
  | copy hcopy =>
    simp only [State.load, Stage.unread, Stage.copied]
    omega
  | postSend hcap =>
    simp only [State.load, Stage.unread, Stage.copied, List.length_append, List.length_singleton]
    omega
  | hca he =>
    rcases Endpoint.hca_cases (hb _ rfl) he with
      ⟨k, w, -, -, -, rfl⟩ | ⟨wc, q, -, hq, rfl⟩ | ⟨wc, q, -, hq, rfl⟩
    · simp [State.load]
    · simp only [State.load, hq, Cq.add_entries, List.length_append, List.length_cons,
        List.length_nil]
      omega
    · simp only [State.load, hq, Cq.add_entries, List.length_append, List.length_cons,
        List.length_nil]
      omega
  | toServer => exact absurd rfl (hne _)
  | toPeer hout =>
    obtain ⟨-, w, q, hq⟩ := Endpoint.outgoing_eq_some hout
    simp only [State.load, hq, Connection.delivered, Endpoint.delivered_of_sq hq,
      List.length_append, List.length_cons, List.length_nil]
    omega

/-- And an arrival adds one. -/
theorem load_toServer {m : Payload} (hready : s.conn.ep.ready = true) (opcode : WcOpcode) (q : σ) :
    (⟨s.stage, s.conn.receive opcode m, q⟩ : State σ).load = s.load + 1 := by
  obtain ⟨-, w, l, hl⟩ := Endpoint.ready_eq_true hready
  obtain ⟨wc, f, he⟩ := Connection.receive_ep hl opcode m
  simp only [State.load, he, List.length_append, List.length_singleton]
  omega

end Load

variable {e e' : State Client}

/-- What the connection holds are messages that the client has posted. -/
def Budget (e : State Client) : Prop := e.peer.conn.ep.sq.length + e.load ≤ e.peer.pc.made

/-- Each statement of the client posts no more than it counts. -/
theorem made_exec {c c' : Client} (hown : c.Own) (he : c.exec .ok = some c') :
    c'.conn.ep.sq.length + c.pc.made ≤ c.conn.ep.sq.length + c'.pc.made := by
  cases Client.Exec.of_exec he with
  | spin => exact Nat.le_refl _
  | postSend hpc hcap =>
    simp only [hpc, Client.Pc.made, List.length_append, List.length_singleton]
    omega
  | @pollSend i x q hpc hq =>
    rcases Client.pollFor_cases hown.clean hq .send i (.notifySend i) with
      ⟨-, -, -, hp⟩ | ⟨-, -, -, hp⟩ <;> rw [hp] <;>
      simp [hpc, Client.Pc.made, Connection.poll, Endpoint.poll]
  | pollRecv hpc hq =>
    obtain ⟨hp, -⟩ := hown.pollRecv hpc hq
    simp [hp, hpc, Client.Pc.made, Connection.poll, Endpoint.poll]
  | breaks hpc => exact absurd he (Client.not_breaks hpc)
  | pollDies hpc => exact absurd he (Client.not_pollDies hpc)
  | compose hpc | notifySend hpc | received hpc | postRecv hpc | again hpc | finish hpc
  | sendDies hpc | recvDies hpc =>
    simp [hpc, Client.Pc.made, Connection.reqNotify, Endpoint.reqNotify]

theorem Budget.of_server (h : Budget e) (hpeer : e'.peer = e.peer) (hload : e'.load ≤ e.load) :
    Budget e' := by
  simp only [Budget, hpeer] at h ⊢
  omega

theorem Budget.of_client (h : Budget e) {c : Client}
    (hc : c.conn.ep.sq.length + e.peer.pc.made ≤ e.peer.conn.ep.sq.length + c.pc.made) :
    Budget { e with peer := c } := by
  have hload : ({ e with peer := c } : State Client).load = e.load := rfl
  simp only [Budget, hload] at h ⊢
  omega

theorem Budget.step (h : Budget e) (hs : LockStep e) {b : Move Client.Action} (hb : Succeeds b)
    (hsmooth : Smooth e b) (hstep : Step Client.peer e b e') : Budget e' := by
  have hload := hstep.load_le
  cases hstep with
  | arm | event | firstRecv | poll | done | next | copy | postRecv | postSend =>
    exact h.of_server rfl (hload (by simp) (by simp))
  | hca he => exact h.of_server rfl (hload (fun m hm => by cases hm; exact hb) (by simp))
  | established c p =>
    by_cases hpc : p.pc = .connecting
    · refine h.of_client (c := Client.established p) ?_
      rcases Client.established_cases hpc with ⟨-, he⟩ | ⟨-, he⟩ <;>
        simp [he, hpc, Client.Pc.made]
    · rw [show Client.peer.established p = p from Client.established_of_ne hpc]
      exact h
  | @toServer _ opcode m hoffer hready =>
    have hone := load_toServer (m := m) hready opcode (Client.peer.sent e.peer)
    obtain ⟨-, w, q, hq⟩ := Endpoint.outgoing_eq_some hoffer
    simp only [Budget, hq, List.length_cons] at h
    simp only [Budget, hone]
    simp only [Client.peer, Connection.delivered, Endpoint.delivered_of_sq hq]
    omega
  | @toPeer _ m hout hacc =>
    obtain ⟨-, w, q, hq⟩ := Endpoint.ready_eq_true hacc
    obtain ⟨wc, f, hep⟩ := Connection.receive_ep hq .recv m
    have hle := hload (by simp) (by simp)
    simp only [Budget] at h ⊢
    simp only [Client.peer, hep] at hle ⊢
    omega
  | @peer _ a c hc =>
    cases a with
    | exec r =>
      obtain rfl : r = .ok := hsmooth
      exact h.of_client (made_exec hs.own hc)
    | hca m =>
      obtain ⟨nc, hnc, rfl⟩ := Option.map_eq_some_iff.mp hc
      obtain ⟨f, hf, rfl⟩ := Connection.hca_eq_some hnc
      exact h.of_client (Nat.add_le_add_right (Endpoint.length_sq_hca hf) _)

theorem count_exec {c c' : Client} {r : Result} (he : c.exec r = some c') : c'.count = c.count := by
  cases Client.Exec.of_exec he with
  | pollSend hpc hq | pollRecv hpc hq => simp [Client.pollFor, hq]
  | _ => rfl

/-- The bound of a client's loop stays what it was. -/
theorem count_step {b : Move Client.Action} (hstep : Step Client.peer e b e') :
    e'.peer.count = e.peer.count := by
  cases hstep with
  | established c p =>
    show p.established.count = p.count
    unfold Client.established
    split <;> rfl
  | @peer _ a c hc =>
    cases a with
    | exec r => exact count_exec hc
    | hca m =>
      obtain ⟨nc, -, rfl⟩ := Option.map_eq_some_iff.mp hc
      rfl
  | _ => rfl

/-- A client of the repository is served. -/
structure Served (e : State Client) : Prop where
  lock : LockStep e
  budget : Budget e
  service : ∃ s, Echoed.Steady s ∧ Serves e s

theorem Served.step (h : Served e) {b : Move Client.Action} (hb : Succeeds b)
    (hsmooth : Smooth e b) (hstep : Step Client.peer e b e') : Served e' := by
  refine ⟨h.lock.step hb hstep, h.budget.step h.lock hb hsmooth hstep, ?_⟩
  obtain ⟨s, hsteady, hserves⟩ := h.service
  rcases hserves.step h.lock hb hstep with hstay | ⟨a, t, ha, hok, hf, hserves'⟩
  · exact ⟨s, hsteady, hstay⟩
  · exact ⟨t, hsteady.step hok (hf hsmooth) ha, hserves'⟩

theorem served_opened (recvId sendId : Nc) (r b : Block) (a : Client.Args) :
    Served ⟨.opening, .create recvId sendId r b, Client.fresh a⟩ :=
  ⟨lockStep_opened recvId sendId r b a, Nat.le_refl 0,
    Echoed.initial a, Echoed.steady_initial a, rfl, rfl, fun p hp => by cases hp⟩

/-- A client posts no more messages than its bound. -/
theorem Served.made_le (h : Served e) : e.peer.pc.made ≤ e.peer.count.val := by
  obtain ⟨⟨client, owed⟩, hsteady, hserves⟩ := h.service
  obtain rfl : client = e.peer := hserves.client
  have hlt : ∀ {p : Client.Pc}, e.peer.pc = p → p.running = true → p ≠ .connecting →
      p.iter < e.peer.count.val := fun hpc hrun hne => hsteady.lt hpc hrun hne
  cases hpc : e.peer.pc with
  | connecting => exact Nat.zero_le _
  | cleanup i => exact Nat.le_of_eq (hsteady.finished i hpc)
  | died i r => exact absurd hpc (hsteady.survives i r)
  | compose i | postSend i => exact Nat.le_of_lt (hlt hpc rfl (by simp))
  | pollSend i | notifySend i | pollRecv i | received i | postRecv i | notifyRecv i =>
    exact hlt hpc rfl (by simp)

/-- A client that has few messages finds room for each. -/
theorem Served.room (h : Served e) (hfew : e.peer.count.val ≤ maxSendWr) {m : Payload}
    (hoffer : e.peer.conn.ep.outgoing = some m) : e.load < maxSendWr := by
  obtain ⟨-, w, q, hq⟩ := Endpoint.outgoing_eq_some hoffer
  have hbudget := h.budget
  have hmade := h.made_le
  simp only [Budget, hq, List.length_cons] at hbudget
  omega

end Echo

namespace Rdmacm05

/-- A step that gets the clients on: nothing fails, no client polls an empty
queue, and each client's send is completed before the receive of its echo. -/
def Active (s : State Client) : Action Client.Args Client.Action → Prop
  | .connect .. => False
  | .disconnect _ => False
  | .server r => r = .ok
  | .hca _ m => m.Succeeds
  | .peer nc a => ∀ l ∈ s.links nc, l.peer.Active a
  | _ => True

instance (s : State Client) : DecidablePred (Active s)
  | .connect .. => inferInstanceAs (Decidable False)
  | .disconnect _ => inferInstanceAs (Decidable False)
  | .server r => inferInstanceAs (Decidable (r = .ok))
  | .cqEvent _ => inferInstanceAs (Decidable True)
  | .poll _ => inferInstanceAs (Decidable True)
  | .hca _ m => inferInstanceAs (Decidable m.Succeeds)
  | .toServer .. => inferInstanceAs (Decidable True)
  | .toPeer _ => inferInstanceAs (Decidable True)
  | .peer nc a => inferInstanceAs (Decidable (∀ l ∈ s.links nc, l.peer.Active a))

/-- Or the handler of an event lets a client in or out. -/
def Allowed (s : State Client) : Action Client.Args Client.Action → Prop
  | .connect .. => True
  | .disconnect _ => True
  | a => Active s a

instance (s : State Client) : DecidablePred (Allowed s)
  | .connect .. => inferInstanceAs (Decidable True)
  | .disconnect _ => inferInstanceAs (Decidable True)
  | .server r => inferInstanceAs (Decidable (Active s (.server r)))
  | .cqEvent nc => inferInstanceAs (Decidable (Active s (.cqEvent nc)))
  | .poll n => inferInstanceAs (Decidable (Active s (.poll n)))
  | .hca nc m => inferInstanceAs (Decidable (Active s (.hca nc m)))
  | .toServer nc p => inferInstanceAs (Decidable (Active s (.toServer nc p)))
  | .toPeer nc => inferInstanceAs (Decidable (Active s (.toPeer nc)))
  | .peer nc a => inferInstanceAs (Decidable (Active s (.peer nc a)))

theorem Active.allowed {s : State Client} {a : Action Client.Args Client.Action}
    (h : Active s a) : Allowed s a := by
  cases a with
  | connect | disconnect => trivial
  | _ => exact h

theorem Allowed.succeeds {s : State Client} {a : Action Client.Args Client.Action}
    (h : Allowed s a) {t : State Client} (hs : step Client.peer s a = some t) : Succeeds a := by
  cases a with
  | hca nc m => exact h
  | peer nc x =>
    cases x with
    | exec r => trivial
    | hca m =>
      obtain ⟨l, hl, -⟩ := Option.bind_eq_some_iff.mp hs
      exact Client.Active.succeeds (h l hl)
  | _ => trivial

theorem Allowed.smooth {s : State Client} {a : Action Client.Args Client.Action}
    (h : Allowed s a) {c : Nc} {b : Echo.Move Client.Action} (hl : label s a = some (c, b))
    {e : Echo.State Client} (he : view s c = some e) : Echo.Smooth e b := by
  cases b with
  | peer x =>
    obtain rfl := label_peer hl
    obtain ⟨l, hlink, rfl⟩ := Option.map_eq_some_iff.mp he
    exact Client.Active.smooth (h l hlink)
  | _ => trivial

/-! ## What the server keeps -/

/-- The thread is setting up connection `c`. -/
def Thread.accepting (c : Nc) : Thread → Bool
  | .setup nc _ => nc = c
  | _ => false

/-- A client that does not know of its connection yet has it set up. -/
def WaitsFor (accepting : Bool) (l : Link Client) : Prop :=
  l.peer.pc = .connecting → accepting = true

def Waits (s : State Client) : Prop :=
  ∀ c l, s.links c = some l → WaitsFor (s.thread.accepting c) l

structure Orderly (s : State Client) : Prop where
  tagged : Tagged s
  waking : Waking s
  conns : ∀ c e, view s c = some e → Echo.Served e
  waits : Waits s
  status : s.status = .running ∨ s.status = .died postSendDie

variable {s t : State Client}

theorem Orderly.served (h : Orderly s) {c : Nc} {l : Link Client} (hl : s.links c = some l) :
    Echo.Served ⟨s.thread.stage c, l.conn, l.peer⟩ := h.conns c _ (view_of_links hl)

/-- The thread works on one connection, whose client's program stays where it is
or goes on. -/
theorem Waits.keep (hs : Waits s) {c : Nc} {l l' : Link Client} {r : Thread}
    (hl : s.links c = some l) (hpc : l'.peer.pc = .connecting → l.peer.pc = .connecting)
    (hacc : ∀ c', r.accepting c' = s.thread.accepting c') :
    Waits ((s.setLink c l').goto r) :=
  State.forall_setLink (fun c t => t.accepting c) WaitsFor hs
    (fun hc => by rw [hacc]; exact hs c l hl (hpc hc)) fun c' _ => hacc c'

theorem Waits.goto (hs : Waits s) {th : Thread}
    (hacc : ∀ c, th.accepting c = s.thread.accepting c) : Waits (s.goto th) :=
  State.forall_goto (fun c t => t.accepting c) WaitsFor hs hacc

theorem Waits.step {a : Action Client.Args Client.Action} (hs : Waits s)
    (h : step Client.peer s a = some t) : Waits t := by
  cases Step.of_step h with
  | @connect nc i j a r b hthread hnew hr hb hij =>
    refine State.forall_setLink (s := s.take i j) (fun c t => t.accepting c) WaitsFor hs
      (fun _ => by simp [Thread.accepting]) fun c hc => ?_
    simp [Thread.accepting, hthread, Ne.symm hc]
  | @disconnect nc l hthread hl =>
    exact State.forall_release (fun c t => t.accepting c) WaitsFor hs nc l
  | setupArm hthread hl | firstRecv hthread hl =>
    exact hs.keep hl id fun c => by rw [hthread]; rfl
  | createQp hthread | register hthread | ack hthread | armFails hthread | pollFails hthread
  | pollEmpty hthread | done hthread =>
    exact hs.goto fun c => by rw [hthread]; rfl
  | @accept nc l hthread hl =>
    refine State.forall_setLink (fun c t => t.accepting c) WaitsFor hs
      (fun hc => absurd hc (Client.established_pc_ne l.peer)) fun c hc => ?_
    simp [Thread.accepting, hthread, Ne.symm hc]
  | cqEvent hthread hl | arm hthread hl | poll hthread hl | dispatch hthread hl
  | copy hthread hl | postRecv hthread hl | postSend hthread hl =>
    exact hs.keep hl id fun c => by rw [hthread]; rfl
  | hca hl | toServer hl | toPeer hl => exact hs.keep (r := s.thread) hl id fun _ => rfl
  | @peer nc l x q hl hq =>
    refine hs.keep (r := s.thread) hl (fun hc => ?_) fun _ => rfl
    cases x with
    | exec r => exact Client.connecting_of_exec hq hc
    | hca m =>
      obtain ⟨c, -, rfl⟩ := Option.map_eq_some_iff.mp hq
      exact hc
  | _ => exact hs

/-- `ibv_post_recv` finds room. -/
theorem Orderly.postRecv (hs : Orderly s) {c : Nc} {l : Link Client} (hl : s.links c = some l)
    (hst : (s.thread.stage c).unposted = 1 + (s.thread.stage c).unread) :
    l.conn.postRecv ≠ none := fun hnone => by
  have hr := (hs.served hl).lock.sound.receives
  simp only [Echo.State.receives, hst] at hr
  have hcap : l.conn.ep.recvSlots < maxRecvWr := by
    simp only [Endpoint.recvSlots, maxRecvWr]
    omega
  simp [Connection.postRecv, Endpoint.postRecv, hcap] at hnone

/-- And `strcpy` a string. -/
theorem Orderly.echo (hs : Orderly s) {c : Nc} {l : Link Client} (hl : s.links c = some l)
    {wcs : List (Wc Nc)} (hst : s.thread.stage c = .copy wcs) : l.conn.echo ≠ none := by
  obtain ⟨hterm, -⟩ := (hs.served hl).lock.arrived (by
    simp only [Echo.State.unread, hst, Echo.Stage.unread]
    omega)
  replace hterm : Terminated l.conn.recvBuff.bytes := hterm
  rw [Connection.echo, Buffer.strcpy_of_terminated l.conn.sendBuff hterm]
  simp

/-- With these clients the process ends only where a send finds no room. -/
theorem Orderly.status_step (hs : Orderly s) {a : Action Client.Args Client.Action}
    (ha : Allowed s a) (h : step Client.peer s a = some t) :
    t.status = s.status ∨ t.status = .died postSendDie := by
  have hok := hs.tagged.thread
  cases Step.of_step h with
  | setupFails => cases ha
  | firstRecvFails hthread hl hc =>
    refine absurd hc (hs.postRecv hl ?_)
    simp [hthread, SetupPc.stage, Echo.Stage.unposted, Echo.Stage.unread]
  | copyFails hthread hl hc =>
    rw [hthread] at hok
    obtain ⟨-, rfl, -⟩ := hok
    exact absurd hc (hs.echo hl (by rw [hthread, stage_cqEvent_self]; rfl))
  | @stray cc nc wcs pc r hthread hpc hl =>
    rw [hthread] at hok
    obtain ⟨hsome, htagged⟩ := hok
    have hnc : nc = cc := by
      rcases hpc with rfl | rfl | rfl <;> exact htagged.1
    simp [← hnc, hl] at hsome
  | postRecvFails hthread hl hc =>
    rw [hthread] at hok
    obtain ⟨-, rfl, -⟩ := hok
    refine absurd hc (hs.postRecv hl ?_)
    simp [hthread, CqEventPc.stage, Echo.Stage.unposted, Echo.Stage.unread, Nat.add_comm]
  | postSendFails => exact .inr rfl
  | _ => exact .inl rfl

/-- **The step lemma** of what the server keeps. -/
theorem Orderly.step (hs : Orderly s) {a : Action Client.Args Client.Action}
    (ha : Allowed s a) (h : step Client.peer s a = some t) : Orderly t := by
  refine ⟨tagged_step hs.tagged h, hs.waking.step hs.tagged ?_ h, ?_, hs.waits.step h, ?_⟩
  · unfold HandlerCallSucceeds
    split
    · cases ha
    · cases ha
    · trivial
  · refine (projects (P := Client.peer) fun e b => Echo.Succeeds b ∧ Echo.Smooth e b).preserves
      (I := fun _ e => Echo.Served e) (fun c e he => ?_)
      (fun c e b e' he hb hstep => he.step hb.1 hb.2 (Echo.Step.of_step hstep)) hs.tagged
      (fun m hm e he => ⟨succeeds_label (ha.succeeds h) hm, ha.smooth hm he⟩) h hs.conns
    obtain ⟨r, b, x, rfl⟩ := he
    exact Echo.served_opened c c r b x
  · rcases hs.status_step ha h with ht | ht <;> rw [ht]
    · exact hs.status
    · exact .inr rfl

theorem orderly_initial {heap : Nat → Block} : Orderly (State.initial heap : State Client) :=
  ⟨tagged_initial, fun c l hl => by simp [State.initial] at hl,
    fun c e he => by simp [view, State.initial] at he,
    fun c l hl => by simp [State.initial] at hl, .inl rfl⟩

/-! ## Where nothing is left to do -/

/-- Outside `main` the thread always has a statement to execute. -/
theorem Orderly.loop_of_stuck (hs : Orderly s) (hrun : s.status = .running)
    (hstuck : Run.Stuck (Rdmacm05.step Client.peer) Active s) : s.thread = .loop := by
  have hok := hs.tagged.thread
  have hnone := hstuck (.server .ok) rfl
  cases hthread : s.thread with
  | loop => rfl
  | setup nc pc =>
    rw [hthread] at hok
    obtain ⟨l, hl⟩ := Option.isSome_iff_exists.mp hok
    simp [Rdmacm05.step, hrun, hthread, hl] at hnone
  | cqEvent cc pc =>
    rw [hthread] at hok
    obtain ⟨l, hl⟩ := Option.isSome_iff_exists.mp hok.1
    cases pc with
    | poll =>
      cases hq : l.conn.ep.cq.entries with
      | nil =>
        have hpoll := hstuck (.poll 0) trivial
        simp [Rdmacm05.step, hrun, hthread, hl, pollStep, hq] at hpoll
      | cons x q =>
        have hpoll := hstuck (.poll 1) trivial
        simp [Rdmacm05.step, hrun, hthread, hl, pollStep, hq, maxBatch] at hpoll
    | dispatch wcs =>
      cases wcs <;> simp [Rdmacm05.step, hrun, hthread, hl, cqEventStep] at hnone
    | _ => simp [Rdmacm05.step, hrun, hthread, hl, cqEventStep] at hnone

/-- On no connection does anything happen by itself. -/
theorem Orderly.still (hrun : s.status = .running)
    (hstuck : Run.Stuck (Rdmacm05.step Client.peer) Active s) {c : Nc} {l : Link Client}
    (hl : s.links c = some l) : Echo.Still ⟨s.thread.stage c, l.conn, l.peer⟩ := by
  intro b hb
  cases b with
  | hca m =>
    have hnone := hstuck (.hca c m) hb
    simp only [Rdmacm05.step, hrun, hl, if_true, Option.bind_some,
      Option.map_eq_none_iff] at hnone
    simp [Echo.step, hnone]
  | toServer opcode =>
    have hnone := hstuck (.toServer c opcode) trivial
    refine Echo.toServer_eq_none opcode fun p hoffer hready => ?_
    replace hoffer : Client.peer.offer l.peer = some p := hoffer
    replace hready : l.conn.ep.ready = true := hready
    simp [Rdmacm05.step, hrun, hl, hoffer, hready] at hnone
  | toPeer =>
    have hnone := hstuck (.toPeer c) trivial
    refine Echo.toPeer_eq_none fun p hout hacc => ?_
    replace hout : l.conn.ep.outgoing = some p := hout
    replace hacc : Client.peer.accepts l.peer = true := hacc
    simp [Rdmacm05.step, hrun, hl, hout, hacc] at hnone
  | peer a =>
    have hnone := hstuck (.peer c a) fun k hk => by
      obtain rfl : l = k := Option.some.inj (hl.symm.trans hk)
      exact hb
    simp only [Rdmacm05.step, hl, Option.bind_some, Option.map_eq_none_iff] at hnone
    simp [Echo.step, hnone]
  | _ => exact hb.elim

/-- Every client is behind its loop. -/
theorem Orderly.finished (hs : Orderly s) (hrun : s.status = .running)
    (hstuck : Run.Stuck (Rdmacm05.step Client.peer) Active s) {c : Nc} {l : Link Client}
    (hl : s.links c = some l) : l.peer.pc = .cleanup l.peer.count.val := by
  have hloop := hs.loop_of_stuck hrun hstuck
  have hserved := hs.served hl
  have hstill := Orderly.still hrun hstuck hl
  have hwaking := hs.waking c l hl
  have hwaits := hs.waits c l hl
  rw [hloop] at hserved hstill hwaking hwaits
  -- The channel is empty, so it has told of every completion.
  have hnil : l.conn.ep.cq.entries = [] := by
    by_contra hne
    have hev := hwaking.pending hne
    have hnone := hstuck (.cqEvent c) trivial
    simp [Rdmacm05.step, hrun, hloop, hl, Cq.getEvent, Nat.ne_of_gt hev] at hnone
  obtain ⟨u, hsteady, hserves⟩ := hserved.service
  exact hserved.lock.finished hstill hserves hsteady rfl rfl hnil fun hc => by
    simpa [Thread.accepting] using hwaits hc

/-! ## What is left to do -/

def SetupPc.work : SetupPc → Nat
  | .reqNotify => 5
  | .createQp => 4
  | .postRecv => 3
  | .register => 2
  | .accept => 1

/-- The `for` loop, for the completions it has not looked at. -/
def batchWork (wcs : List (Wc Nc)) : Nat := wcs.length + 14 * recvsIn wcs

def CqEventPc.work : CqEventPc → Nat
  | .ack => 3
  | .reqNotify => 2
  | .poll => 1
  | .dispatch wcs => batchWork wcs + 2
  | .copy _ wcs => batchWork wcs + 16
  | .postRecv _ wcs => batchWork wcs + 15
  | .postSend _ wcs => batchWork wcs + 14

def Thread.work : Thread → Nat
  | .loop => 0
  | .setup _ pc => pc.work
  | .cqEvent _ pc => pc.work

def weights : Weights :=
  { send := 10, sendDone := 8, recvDone := 22, sends := 3, recvs := 17, event := 4 }

/-- A connection counts for one more, because it may be closed. -/
def linkWork (l : Link Client) : Nat := l.conn.ep.work weights + l.peer.work 24 + 1

/-- Over the connections in `S`. -/
def State.work (S : Finset Nc) (s : State Client) : Nat :=
  (if s.status = .running then 1 else 0) + s.thread.work +
    ∑ c ∈ S, (s.links c).elim 0 linkWork

/-- All connections are in `S`. -/
def Inside (S : Finset Nc) (s : State Client) : Prop := ∀ c, (s.links c).isSome → c ∈ S

/-- A new connection is in `S`. -/
def Names (S : Finset Nc) : Action Client.Args Client.Action → Prop
  | .connect nc _ _ _ => nc ∈ S
  | _ => True

/-- What a client brings: all it has to do, `setup_connection`, and its end. -/
def fee : Action Client.Args Client.Action → Nat
  | .connect _ _ _ a => 33 * a.count.val + 8
  | _ => 0

variable {S : Finset Nc}

theorem sum_update {c : Nc} (hc : c ∈ S) {f g : Nc → Nat} (h : ∀ x, x ≠ c → g x = f x) :
    ∑ x ∈ S, g x + f c = ∑ x ∈ S, f x + g c := by
  have hrest : ∑ x ∈ S.erase c, g x = ∑ x ∈ S.erase c, f x :=
    Finset.sum_congr rfl fun x hx => h x (Finset.ne_of_mem_erase hx)
  have hf := Finset.add_sum_erase S f hc
  have hg := Finset.add_sum_erase S g hc
  omega

/-- One connection changes, and the thread goes on. -/
theorem work_set (hin : Inside S s) {c : Nc} {l l' : Link Client} (hl : s.links c = some l)
    {r : Thread} (hwork : r.work + linkWork l' < s.thread.work + linkWork l) :
    ((s.setLink c l').goto r).work S < s.work S := by
  have hsum := sum_update (hin c (by simp [hl])) (f := fun x => (s.links x).elim 0 linkWork)
    (g := fun x => (((s.setLink c l').goto r).links x).elim 0 linkWork)
    fun x hx => by simp [State.goto, State.setLink, hx]
  simp only [hl, Option.elim_some, State.goto, State.setLink, Function.update_self] at hsum
  show (if s.status = .running then 1 else 0) + r.work +
    ∑ x ∈ S, (Function.update s.links c (some l') x).elim 0 linkWork < s.work S
  simp only [State.work]
  omega

theorem work_goto {th : Thread} (hwork : th.work < s.thread.work) :
    (s.goto th).work S < s.work S :=
  Nat.add_lt_add_right (Nat.add_lt_add_left hwork _) _

theorem work_stops {st : Status} (hrun : s.status = .running) (hst : st ≠ .running) :
    ({ s with status := st } : State Client).work S < s.work S := by
  simp only [State.work, hrun, if_neg hst, if_true]
  omega

theorem running_of_server {ρ σ α : Type} {P : Peer ρ σ α} {s t : State σ} {r : Result}
    (h : step P s (.server r) = some t) : s.status = .running := by
  simp only [step] at h
  split at h
  · assumption
  · cases h

/-- Most statements of the thread touch neither sends nor completions. -/
theorem work_next (hin : Inside S s) {c : Nc} {l l' : Link Client} (hl : s.links c = some l)
    {th : Thread} (hth : s.thread.work = th.work + 1)
    (hep : l'.conn.ep.work weights = l.conn.ep.work weights) (hpeer : l'.peer = l.peer) :
    ((s.setLink c l').goto th).work S < s.work S := by
  refine work_set hin hl ?_
  simp only [linkWork, hep, hpeer]
  omega

theorem dispatchPc_work (wc : Wc Nc) (wcs : List (Wc Nc)) :
    (CqEventPc.dispatch (wc :: wcs)).work = (dispatchPc wc wcs).work + 1 := by
  unfold dispatchPc
  cases hop : wc.opcode <;> simp [CqEventPc.work, batchWork, hop] <;> omega

/-- The batch is worth less than the completions were in the queue. -/
theorem work_poll (hin : Inside S s) {cc : Nc} {l : Link Client}
    (hthread : s.thread = .cqEvent cc .poll) (hl : s.links cc = some l) (hclean : l.conn.ep.Clean)
    {n : Nat} (hpos : 0 < n) (hlen : n ≤ l.conn.ep.cq.entries.length) :
    ((s.setConn cc l (l.conn.poll n)).goto
      (.cqEvent cc (.dispatch (l.conn.ep.cq.taken n)))).work S < s.work S := by
  have htaken := Endpoint.work_taken (w := weights) hclean n
  have hbatch : (l.conn.ep.cq.taken n).length = n := by
    rw [Cq.taken, List.length_map, List.length_take, Nat.min_eq_left hlen]
  have hle : recvsIn (l.conn.ep.cq.taken n) ≤ (l.conn.ep.cq.taken n).length :=
    List.countP_le_length
  refine work_set hin hl ?_
  simp only [weights] at htaken
  simp only [hthread, Thread.work, CqEventPc.work, batchWork, linkWork, Connection.poll, weights]
  omega

/-- A new connection brings what it counts for. -/
theorem work_opens {nc i j : Nat} {l : Link Client} (hnew : s.links nc = none) (hnc : nc ∈ S)
    (th : Thread) : (((s.take i j).setLink nc l).goto th).work S + s.thread.work =
      s.work S + th.work + linkWork l := by
  have hsum := sum_update hnc (f := fun x => (s.links x).elim 0 linkWork)
    (g := fun x => (Function.update s.links nc (some l) x).elim 0 linkWork)
    fun x hx => by simp [hx]
  simp only [hnew, Option.elim_none, Option.elim_some, Function.update_self] at hsum
  show (if s.status = .running then 1 else 0) + th.work +
    ∑ x ∈ S, (Function.update s.links nc (some l) x).elim 0 linkWork + s.thread.work = _
  simp only [State.work]
  omega

/-- A connection that is closed takes it away. -/
theorem work_closes (hin : Inside S s) {nc : Nc} {l : Link Client} (hl : s.links nc = some l) :
    (s.release nc l).work S + linkWork l = s.work S := by
  have hsum := sum_update (hin nc (by simp [hl])) (f := fun x => (s.links x).elim 0 linkWork)
    (g := fun x => (Function.update s.links nc none x).elim 0 linkWork)
    fun x hx => by simp [hx]
  simp only [hl, Option.elim_none, Option.elim_some, Function.update_self] at hsum
  show (if s.status = .running then 1 else 0) + s.thread.work +
    ∑ x ∈ S, (Function.update s.links nc none x).elim 0 linkWork + linkWork l = _
  simp only [State.work]
  omega

theorem Orderly.work_step (hs : Orderly s) (hin : Inside S s)
    {a : Action Client.Args Client.Action} (ha : Allowed s a) (hS : Names S a)
    (h : Rdmacm05.step Client.peer s a = some t) : t.work S < s.work S + fee a := by
  cases Step.of_step h with
  | @connect nc i j a r b hthread hnew hr hb hij =>
    have hw := work_opens (i := i) (j := j) (l := ⟨.create nc nc r b, i, j, Client.fresh a, []⟩)
      hnew hS (.setup nc .reqNotify)
    have hconn : (Connection.create nc nc r b).ep.work weights = 0 := rfl
    have hclient : (Client.fresh a).work 24 = 33 * a.count.val + 1 := rfl
    simp only [hthread, linkWork, hconn, hclient, Thread.work, SetupPc.work] at hw
    simp only [fee, Client.peer]
    omega
  | @disconnect nc l hthread hl =>
    have hw := work_closes hin hl
    simp only [linkWork] at hw
    omega
  | setupArm hthread hl => exact work_next hin hl (by rw [hthread]; rfl) rfl rfl
  | createQp hthread | register hthread | ack hthread | done hthread =>
    exact work_goto (by rw [hthread]; exact Nat.lt_succ_self _)
  | firstRecv hthread hl hc =>
    obtain ⟨-, rfl⟩ := Connection.postRecv_eq_some hc
    exact work_next hin hl (by rw [hthread]; rfl) rfl rfl
  | @accept nc l hthread hl =>
    refine work_set hin hl ?_
    have hle := Client.work_established_le 24 l.peer
    simp only [hthread, Thread.work, SetupPc.work, linkWork, Client.peer]
    omega
  | setupFails => cases ha
  | firstRecvFails | copyFails | postRecvFails | postSendFails | stray =>
    exact work_stops (running_of_server h) (by simp)
  | cqEvent hthread hl hev =>
    refine work_set hin hl ?_
    have hw := Endpoint.work_event (w := weights) hev
    simp only [weights] at hw
    simp only [hthread, Thread.work, CqEventPc.work, linkWork, weights]
    omega
  | arm hthread hl => exact work_next hin hl (by rw [hthread]; rfl) rfl rfl
  | armFails => cases ha
  | pollFails => cases ha
  | pollEmpty hthread hl hempty => exact work_goto (by rw [hthread]; exact Nat.lt_succ_self _)
  | poll hthread hl hpos hmax hlen =>
    exact work_poll hin hthread hl (hs.served hl).lock.sound.clean hpos hlen
  | dispatch hthread hl =>
    exact work_next hin hl (by rw [hthread]; exact dispatchPc_work _ _) rfl rfl
  | copy hthread hl hc =>
    have hok := hs.tagged.thread
    rw [hthread] at hok
    obtain ⟨-, rfl, -⟩ := hok
    obtain ⟨b, -, rfl⟩ := Connection.echo_eq_some hc
    exact work_next hin hl (by rw [hthread]; rfl) rfl rfl
  | postRecv hthread hl hc =>
    obtain ⟨-, rfl⟩ := Connection.postRecv_eq_some hc
    exact work_next hin hl (by rw [hthread]; rfl) rfl rfl
  | postSend hthread hl hc =>
    obtain ⟨-, rfl⟩ := Connection.postSend_eq_some hc
    refine work_set hin hl ?_
    simp only [hthread, Thread.work, CqEventPc.work, linkWork, Endpoint.work_postSend, weights]
    omega
  | hca hl hc =>
    obtain ⟨e, he, rfl⟩ := Connection.hca_eq_some hc
    have hw := Endpoint.work_hca (w := weights) ha (by decide) (by decide) he
    refine work_set (r := s.thread) hin hl ?_
    simp only [linkWork]
    omega
  | @toServer nc l opcode p hl hoffer hready =>
    replace hoffer : l.peer.conn.ep.outgoing = some p := hoffer
    obtain ⟨-, w, q, hq⟩ := Endpoint.outgoing_eq_some hoffer
    obtain ⟨hlen, -⟩ := (hs.served hl).lock.outgoing ⟨w, some p⟩ (by simp [hq]) p rfl
    have hserver := Endpoint.work_arrive (w := weights) hready p.length
    have hclient := Client.work_sent (k := 24) hoffer
    refine work_set (r := s.thread) hin hl ?_
    simp only [weights] at hserver
    simp only [linkWork, Connection.receive, if_pos hlen, Client.peer, weights]
    omega
  | @toPeer nc l m hl hout hacc =>
    replace hacc : l.peer.conn.ep.ready = true := hacc
    obtain ⟨-, w, q, hq⟩ := Endpoint.outgoing_eq_some hout
    obtain ⟨hlen, -⟩ := (hs.served hl).lock.returning ⟨w, some m⟩ (by simp [hq]) m rfl
    have hserver := Endpoint.work_delivered (w := weights) hout
    have hclient := Client.work_receive (k := 24) hacc hlen .recv
    refine work_set (r := s.thread) hin hl ?_
    simp only [weights] at hserver
    simp only [linkWork, Connection.delivered, Client.peer, weights] at hclient ⊢
    omega
  | @peer nc l x c hl hc =>
    refine work_set (r := s.thread) hin hl ?_
    have hx := ha l hl
    have hw : c.work 24 < l.peer.work 24 := by
      cases x with
      | exec r =>
        obtain ⟨rfl, hidle⟩ := hx
        obtain ⟨⟨client, owed⟩, hsteady, hserves⟩ := (hs.served hl).service
        obtain rfl : client = l.peer := hserves.client
        exact hsteady.work_exec 24 hc hidle
      | hca m =>
        obtain ⟨nc, hnc, rfl⟩ := Option.map_eq_some_iff.mp hc
        obtain ⟨e, he, rfl⟩ := Connection.hca_eq_some hnc
        exact Client.work_hca hx.succeeds he
    simp only [linkWork]
    omega

theorem Inside.step (hin : Inside S s) (htag : Tagged s)
    {a : Action Client.Args Client.Action} (hS : Names S a)
    (h : Rdmacm05.step Client.peer s a = some t) : Inside S t := by
  intro c hc
  cases step_local htag h with
  | same hlinks => exact hin c (by rwa [hlinks] at hc)
  | opens nc i j r b x haction hnew hr hb hlinks =>
    subst haction
    by_cases hnc : c = nc
    · exact hnc ▸ hS
    · exact hin c (by simpa [hlinks, hnc] using hc)
  | closes nc haction hlinks =>
    by_cases hnc : c = nc
    · simp [hlinks, hnc] at hc
    · exact hin c (by simpa [hlinks, hnc] using hc)
  | moves nc b l l' hlabel hl hmove hlinks =>
    by_cases hnc : c = nc
    · exact hin c (by simp [hnc, hl])
    · exact hin c (by simpa [hlinks, hnc] using hc)

/-! ## Room for every send -/

/-- No client has more than `n` messages. -/
def Few (n : Nat) (s : State Client) : Prop :=
  ∀ c l, s.links c = some l → l.peer.count.val ≤ n

/-- Nor has a new one. -/
def Brings (n : Nat) : Action Client.Args Client.Action → Prop
  | .connect _ _ _ a => a.count.val ≤ n
  | _ => True

theorem Few.step {n : Nat} (hs : Few n s) (htag : Tagged s)
    {a : Action Client.Args Client.Action} (ha : Brings n a)
    (h : Rdmacm05.step Client.peer s a = some t) : Few n t := by
  intro c k hk
  cases step_local htag h with
  | same hlinks => exact hs c k (by rwa [hlinks] at hk)
  | opens nc i j r b x haction hnew hr hb hlinks =>
    subst haction
    by_cases hnc : c = nc
    · subst hnc
      simp only [hlinks, Function.update_self, Option.some.injEq] at hk
      subst hk
      exact ha
    · exact hs c k (by simpa [hlinks, hnc] using hk)
  | closes nc haction hlinks =>
    by_cases hnc : c = nc
    · simp [hlinks, hnc] at hk
    · exact hs c k (by simpa [hlinks, hnc] using hk)
  | moves nc b l l' hlabel hl hmove hlinks =>
    by_cases hnc : c = nc
    · subst hnc
      simp only [hlinks, Function.update_self, Option.some.injEq] at hk
      subst hk
      have hcount := Echo.count_step (Echo.Step.of_step hmove)
      simp only at hcount
      rw [hcount]
      exact hs c l hl
    · exact hs c k (by simpa [hlinks, hnc] using hk)

/-- A message that arrives from a client with few messages finds room. -/
theorem Orderly.room (hs : Orderly s) (hfew : Few maxSendWr s)
    {a : Action Client.Args Client.Action} (ha : Allowed s a)
    (h : Rdmacm05.step Client.peer s a = some t) : OnMoves Echo.Room s a := by
  rintro ⟨c, b⟩ hm e he
  obtain ⟨l, hl, rfl⟩ := Option.map_eq_some_iff.mp he
  cases b with
  | hca m =>
    obtain rfl := label_hca hm
    cases m with
    | flushRecv | flushSend => exact ha.elim
    | _ => trivial
  | toServer opcode =>
    obtain rfl := label_toServer hm
    cases Step.of_step h with
    | @toServer _ k _ p hk hoffer hready =>
      obtain rfl : l = k := Option.some.inj (hl.symm.trans hk)
      exact (hs.served hl).room (hfew c l hl) hoffer
  | _ => trivial

end Rdmacm05

end RdmaTutorial
