import RdmaTutorial.Rdmacm05.Projection

/-!
# rdmacm05: no completion is stranded

`handle_cq_event` takes an event, arms the queue again, and then polls until
the queue is empty. What arrives before the arming is polled; what arrives
after it is polled or queues an event. So whenever the thread is elsewhere,
the channel of a connection tells of what its queue holds.
-/

namespace RdmaTutorial.Rdmacm05

open Verbs

variable {ρ σ α : Type} {P : Peer ρ σ α}

/-- Where the thread is with the notification of a connection. -/
inductive Phase where
  /-- `setup_connection` has not armed the queue. -/
  | unarmed
  /-- `handle_cq_event` has taken an event and not armed the queue again. -/
  | taken
  /-- `handle_cq_event` has armed the queue again. -/
  | rearmed
  | outside
  deriving DecidableEq

def SetupPc.phase : SetupPc → Phase
  | .reqNotify => .unarmed
  | _ => .outside

def CqEventPc.phase : CqEventPc → Phase
  | .ack => .taken
  | .reqNotify => .taken
  | _ => .rearmed

def Thread.phase (c : Nc) : Thread → Phase
  | .loop => .outside
  | .setup nc pc => if nc = c then pc.phase else .outside
  | .cqEvent cc pc => if cc = c then pc.phase else .outside

/-- What holds of a connection in each phase. -/
def Phase.Holds : Phase → Connection → Prop
  | .unarmed, c => c.ep.Idle
  | .taken, _ => True
  | .rearmed, c => c.ep.cq.Awake
  | .outside, c => c.ep.cq.Notified

/-- The invariant of all connections. -/
def Waking (s : State σ) : Prop :=
  ∀ c l, s.links c = some l → (s.thread.phase c).Holds l.conn

@[simp] theorem phase_loop (c : Nc) : Thread.loop.phase c = .outside := rfl

@[simp] theorem phase_setup_self (c : Nc) (pc : SetupPc) :
    (Thread.setup c pc).phase c = pc.phase := if_pos rfl

@[simp] theorem phase_cqEvent_self (c : Nc) (pc : CqEventPc) :
    (Thread.cqEvent c pc).phase c = pc.phase := if_pos rfl

theorem phase_setup_ne {c nc : Nc} (h : c ≠ nc) (pc : SetupPc) :
    (Thread.setup nc pc).phase c = .outside := if_neg (Ne.symm h)

theorem phase_cqEvent_ne {c cc : Nc} (h : c ≠ cc) (pc : CqEventPc) :
    (Thread.cqEvent cc pc).phase c = .outside := if_neg (Ne.symm h)

/-! ## What a connection's own moves keep -/

/-- A step of a connection that leaves its queue alone. -/
theorem Phase.Holds.of_cq {p : Phase} {c c' : Connection} (h : p.Holds c)
    (hcq : c'.ep.cq = c.ep.cq) (hp : p ≠ .unarmed) : p.Holds c' := by
  cases p with
  | unarmed => exact absurd rfl hp
  | taken => trivial
  | rearmed => simpa only [Phase.Holds, hcq] using h
  | outside => simpa only [Phase.Holds, hcq] using h

theorem Phase.Holds.hca {p : Phase} {c c' : Connection} (h : p.Holds c) {m : Hca}
    (hc : c.hca m = some c') : p.Holds c' := by
  obtain ⟨e, he, rfl⟩ := Connection.hca_eq_some hc
  cases p with
  | unarmed => exact Endpoint.Idle.hca h he
  | taken => trivial
  | rearmed =>
    rcases Endpoint.hca_cq he with hcq | ⟨x, hcq⟩
    · exact h.of_cq hcq (by decide)
    · simpa only [Phase.Holds, hcq] using Cq.Awake.add h x
  | outside =>
    rcases Endpoint.hca_cq he with hcq | ⟨x, hcq⟩
    · exact h.of_cq hcq (by decide)
    · simpa only [Phase.Holds, hcq] using Cq.Notified.add h x

theorem Phase.Holds.toServer {p : Phase} {c : Connection} (h : p.Holds c)
    (hready : c.ep.ready = true) (opcode : WcOpcode) (m : Payload) :
    p.Holds (c.receive opcode m) := by
  obtain ⟨-, w, q, hq⟩ := Endpoint.ready_eq_true hready
  obtain ⟨wc, f, he⟩ := Connection.receive_ep hq opcode m
  refine h.of_cq (by rw [he]) ?_
  rintro rfl
  simp [Endpoint.Idle.rq h] at hq

theorem Phase.Holds.toPeer {p : Phase} {c : Connection} (h : p.Holds c) {m : Payload}
    (hout : c.ep.outgoing = some m) : p.Holds c.delivered := by
  obtain ⟨-, w, q, hq⟩ := Endpoint.outgoing_eq_some hout
  refine h.of_cq (by simp only [Connection.delivered, Endpoint.delivered_of_sq hq]) ?_
  rintro rfl
  simp [Endpoint.Idle.sq h] at hq

/-! ## The thread -/

theorem Waking.set {s : State σ} (hs : Waking s) {c : Nc} {l : Link σ} {t : Thread}
    (hself : (t.phase c).Holds l.conn) (hothers : ∀ c', c' ≠ c → t.phase c' = s.thread.phase c') :
    Waking ((s.setLink c l).goto t) :=
  State.forall_setLink (fun c t => t.phase c) (fun p l => p.Holds l.conn) hs hself hothers

theorem Waking.goto {s : State σ} (hs : Waking s) {t : Thread}
    (hphase : ∀ c, t.phase c = s.thread.phase c) : Waking (s.goto t) :=
  State.forall_goto (fun c t => t.phase c) (fun p l => p.Holds l.conn) hs hphase

/-- A statement of `handle_cq_event` behind the arming, on its own
connection. -/
theorem Waking.inHandler {s : State σ} (hs : Waking s) {cc : Nc} {l l' : Link σ}
    {pc pc' : CqEventPc} (hthread : s.thread = .cqEvent cc pc) (hl : s.links cc = some l)
    (hpc : pc.phase = .rearmed) (hpc' : pc'.phase = .rearmed)
    (hcq : l.conn.ep.cq.Awake → l'.conn.ep.cq.Awake) :
    Waking ((s.setLink cc l').goto (.cqEvent cc pc')) := by
  have hself := hs cc l hl
  rw [hthread, phase_cqEvent_self, hpc] at hself
  refine hs.set ?_ fun c hc => ?_
  · rw [phase_cqEvent_self, hpc']
    exact hcq hself
  · rw [hthread, phase_cqEvent_ne hc, phase_cqEvent_ne hc]

theorem phase_dispatchPc (wc : Wc Nc) (wcs : List (Wc Nc)) :
    (dispatchPc wc wcs).phase = .rearmed := by
  unfold dispatchPc
  cases wc.opcode <;> rfl

theorem phase_cqEvent_congr {cc : Nc} {pc pc' : CqEventPc} (h : pc'.phase = pc.phase) (c : Nc) :
    (Thread.cqEvent cc pc').phase c = (Thread.cqEvent cc pc).phase c := by
  simp only [Thread.phase, h]

theorem phase_setup_outside {nc : Nc} {pc : SetupPc} (h : pc.phase = .outside) (c : Nc) :
    (Thread.setup nc pc).phase c = .outside := by
  simp only [Thread.phase, h, ite_self]

/-- The calls whose failure makes `handle_cq_event` return early. -/
def HandlerCallSucceeds (s : State σ) (a : Action ρ α) : Prop :=
  match s.thread, a with
  | .cqEvent _ .reqNotify, .server .fail => False
  | .cqEvent _ .poll, .server .fail => False
  | _, _ => True

instance (s : State σ) (a : Action ρ α) : Decidable (HandlerCallSucceeds s a) := by
  unfold HandlerCallSucceeds
  split <;> infer_instance

/-- **The step lemma.** The thread leaves `handle_cq_event` only with the queue
empty and armed. -/
theorem Waking.step {s t : State σ} (hs : Waking s) (htag : Tagged s) {a : Action ρ α}
    (ha : HandlerCallSucceeds s a) (h : step P s a = some t) : Waking t := by
  have hok := htag.thread
  cases Step.of_step h with
  | @connect nc i j a r b hthread hnew hr hb hij =>
    refine Waking.set (s := s.take i j) hs ?_ fun c hc => ?_
    · rw [phase_setup_self]
      exact Endpoint.Idle.create rfl
    · rw [State.take_thread, hthread, phase_setup_ne hc, phase_loop]
  | @disconnect nc l hthread hl =>
    exact State.forall_release (fun c t => t.phase c) (fun p l => p.Holds l.conn) hs nc l
  | setupArm hthread hl =>
    have hself := hs _ _ hl
    rw [hthread, phase_setup_self] at hself
    refine hs.set ?_ fun c hc => ?_
    · rw [phase_setup_self]
      exact (Cq.Awake.reqNotify _).notified (Endpoint.Idle.entries hself)
    · rw [hthread, phase_setup_ne hc, phase_setup_ne hc]
  | createQp hthread =>
    exact hs.goto fun c => by rw [hthread, phase_setup_outside rfl, phase_setup_outside rfl]
  | firstRecv hthread hl hc =>
    obtain ⟨-, rfl⟩ := Connection.postRecv_eq_some hc
    have hself := hs _ _ hl
    rw [hthread, phase_setup_self] at hself
    refine hs.set ?_ fun c hc => ?_
    · rw [phase_setup_self]
      exact hself
    · rw [hthread, phase_setup_outside rfl, phase_setup_outside rfl]
  | register hthread =>
    exact hs.goto fun c => by rw [hthread, phase_setup_outside rfl, phase_setup_outside rfl]
  | accept hthread hl =>
    have hself := hs _ _ hl
    rw [hthread, phase_setup_self] at hself
    refine hs.set hself fun c hc => ?_
    rw [hthread, phase_setup_outside rfl, phase_loop]
  | setupFails hthread hpc reason => exact hs
  | firstRecvFails hthread hl hc => exact hs
  | cqEvent hthread hl hev =>
    refine hs.set ?_ fun c hc => ?_
    · rw [phase_cqEvent_self]
      trivial
    · rw [hthread, phase_cqEvent_ne hc, phase_loop]
  | ack hthread => exact hs.goto fun c => by rw [hthread]; exact phase_cqEvent_congr rfl c
  | arm hthread hl =>
    -- Whatever the queue holds now is polled; what comes later is announced.
    refine hs.set ?_ fun c hc => ?_
    · rw [phase_cqEvent_self]
      exact Cq.Awake.reqNotify _
    · rw [hthread, phase_cqEvent_ne hc, phase_cqEvent_ne hc]
  | armFails hthread => simp [HandlerCallSucceeds, hthread] at ha
  | pollFails hthread => simp [HandlerCallSucceeds, hthread] at ha
  | @pollEmpty cc l hthread hl hempty =>
    intro c k hk
    have hself := hs c k hk
    rw [hthread] at hself
    -- The thread leaves its own connection with the queue empty.
    by_cases hc : c = cc
    · subst hc
      obtain rfl : l = k := Option.some.inj (hl.symm.trans hk)
      rw [phase_cqEvent_self] at hself
      exact Cq.Awake.notified hself hempty
    · rw [phase_cqEvent_ne hc] at hself
      exact hself
  | poll hthread hl hpos hmax hlen =>
    exact hs.inHandler hthread hl rfl rfl fun h => h.rest _
  | done hthread => exact hs.goto fun c => by rw [hthread]; exact phase_cqEvent_congr rfl c
  | dispatch hthread hl =>
    exact hs.inHandler hthread hl rfl (phase_dispatchPc _ _) id
  | copy hthread hl hc =>
    rw [hthread] at hok
    obtain ⟨-, rfl, -⟩ := hok
    obtain ⟨b, -, rfl⟩ := Connection.echo_eq_some hc
    exact hs.inHandler hthread hl rfl rfl id
  | postRecv hthread hl hc =>
    rw [hthread] at hok
    obtain ⟨-, rfl, -⟩ := hok
    obtain ⟨-, rfl⟩ := Connection.postRecv_eq_some hc
    exact hs.inHandler hthread hl rfl rfl id
  | postSend hthread hl hc =>
    rw [hthread] at hok
    obtain ⟨-, rfl, -⟩ := hok
    obtain ⟨-, rfl⟩ := Connection.postSend_eq_some hc
    exact hs.inHandler hthread hl rfl rfl id
  | copyFails hthread hl hc => exact hs
  | postRecvFails hthread hl hc => exact hs
  | postSendFails hthread hl hc => exact hs
  | stray hthread hpc hl => exact hs
  | hca hl hc => exact hs.set (t := s.thread) ((hs _ _ hl).hca hc) fun _ _ => rfl
  | toServer hl hoffer hready =>
    exact hs.set (t := s.thread) ((hs _ _ hl).toServer hready _ _) fun _ _ => rfl
  | toPeer hl hout hacc =>
    exact hs.set (t := s.thread) ((hs _ _ hl).toPeer hout) fun _ _ => rfl
  | @peer nc l x q hl hq => exact hs.set (t := s.thread) (hs nc l hl) fun _ _ => rfl

/-! ## The order in which completions are handled -/

/-- What the `for` loop has not looked at yet. -/
def CqEventPc.pending : CqEventPc → List (Wc Nc)
  | .dispatch wcs => wcs
  | .copy _ wcs => wcs
  | .postRecv _ wcs => wcs
  | .postSend _ wcs => wcs
  | _ => []

def Thread.pending (c : Nc) : Thread → List (Wc Nc)
  | .cqEvent cc pc => if cc = c then pc.pending else []
  | _ => []

/-- Every completion ever added has been handled, is in the batch, or is in
the queue, in the order of their arrival. -/
def InOrder (s : State σ) : Prop :=
  ∀ c l, s.links c = some l →
    l.handled ++ s.thread.pending c ++ l.conn.ep.cq.entries.map Cqe.wc = l.conn.ep.cq.added

theorem pending_cqEvent_ne {c cc : Nc} (h : c ≠ cc) (pc : CqEventPc) :
    (Thread.cqEvent cc pc).pending c = [] := if_neg (Ne.symm h)

@[simp] theorem pending_cqEvent_self (c : Nc) (pc : CqEventPc) :
    (Thread.cqEvent c pc).pending c = pc.pending := if_pos rfl

@[simp] theorem pending_dispatchPc (wc : Wc Nc) (wcs : List (Wc Nc)) :
    (dispatchPc wc wcs).pending = wcs := by
  unfold dispatchPc
  cases wc.opcode <;> rfl

/-- The part of `InOrder` that is about one connection. -/
def HandledInOrder (pending : List (Wc Nc)) (l : Link σ) : Prop :=
  l.handled ++ pending ++ l.conn.ep.cq.entries.map Cqe.wc = l.conn.ep.cq.added

theorem InOrder.set {s : State σ} (hs : InOrder s) {c : Nc} {l : Link σ} {t : Thread}
    (hself : l.handled ++ t.pending c ++ l.conn.ep.cq.entries.map Cqe.wc = l.conn.ep.cq.added)
    (hothers : ∀ c', c' ≠ c → t.pending c' = s.thread.pending c') :
    InOrder ((s.setLink c l).goto t) :=
  State.forall_setLink (fun c t => t.pending c) HandledInOrder hs hself hothers

/-- A step that hands no completion on. -/
theorem InOrder.keep {s : State σ} (hs : InOrder s) {c : Nc} {l l' : Link σ} {t : Thread}
    (hl : s.links c = some l) (he : l'.conn.ep.cq.entries = l.conn.ep.cq.entries)
    (ha : l'.conn.ep.cq.added = l.conn.ep.cq.added) (hh : l'.handled = l.handled)
    (hpending : ∀ c', t.pending c' = s.thread.pending c') :
    InOrder ((s.setLink c l').goto t) :=
  hs.set (by rw [hh, he, ha, hpending]; exact hs c l hl) fun c' _ => hpending c'

theorem InOrder.goto {s : State σ} (hs : InOrder s) {t : Thread}
    (hpending : ∀ c, t.pending c = s.thread.pending c) : InOrder (s.goto t) :=
  State.forall_goto (fun c t => t.pending c) HandledInOrder hs hpending

theorem pending_cqEvent_congr {cc : Nc} {pc pc' : CqEventPc} (h : pc'.pending = pc.pending)
    (c : Nc) : (Thread.cqEvent cc pc').pending c = (Thread.cqEvent cc pc).pending c := by
  simp only [Thread.pending, h]

theorem pending_cqEvent_nil {cc : Nc} {pc : CqEventPc} (h : pc.pending = []) (c : Nc) :
    (Thread.cqEvent cc pc).pending c = [] := by
  simp only [Thread.pending, h, ite_self]

theorem InOrder.step {s t : State σ} (hs : InOrder s) (htag : Tagged s) {a : Action ρ α}
    (h : step P s a = some t) : InOrder t := by
  have hok := htag.thread
  cases Step.of_step h with
  | @connect nc i j a r b hthread hnew hr hb hij =>
    exact InOrder.set (s := s.take i j) hs rfl fun c hc => by
      rw [State.take_thread, hthread]; rfl
  | @disconnect nc l hthread hl =>
    exact State.forall_release (fun c t => t.pending c) HandledInOrder hs nc l
  | setupArm hthread hl => exact hs.keep hl rfl rfl rfl fun c => by rw [hthread]; rfl
  | createQp hthread => exact hs.goto fun c => by rw [hthread]; rfl
  | firstRecv hthread hl hc =>
    obtain ⟨-, rfl⟩ := Connection.postRecv_eq_some hc
    exact hs.keep hl rfl rfl rfl fun c => by rw [hthread]; rfl
  | register hthread => exact hs.goto fun c => by rw [hthread]; rfl
  | accept hthread hl => exact hs.keep hl rfl rfl rfl fun c => by rw [hthread]; rfl
  | setupFails hthread hpc reason => exact hs
  | firstRecvFails hthread hl hc => exact hs
  | cqEvent hthread hl hev =>
    exact hs.keep hl rfl rfl rfl fun c => by rw [hthread]; exact pending_cqEvent_nil rfl c
  | ack hthread => exact hs.goto fun c => by rw [hthread]; exact pending_cqEvent_congr rfl c
  | arm hthread hl =>
    exact hs.keep hl rfl rfl rfl fun c => by rw [hthread]; exact pending_cqEvent_congr rfl c
  | armFails hthread | pollFails hthread | pollEmpty hthread =>
    exact hs.goto fun c => by rw [hthread]; exact (pending_cqEvent_nil rfl c).symm
  | @poll cc l n hthread hl hpos hmax hlen =>
    refine hs.set ?_ fun c hc => ?_
    · have hcc := hs cc l hl
      rw [hthread, pending_cqEvent_self] at hcc
      simpa [CqEventPc.pending, Connection.poll, Endpoint.poll, Cq.taken, Cq.rest,
        ← List.map_append, -List.map_take, -List.map_drop] using hcc
    · rw [hthread, pending_cqEvent_ne hc, pending_cqEvent_ne hc]
  | done hthread => exact hs.goto fun c => by rw [hthread]; exact pending_cqEvent_congr rfl c
  | @dispatch cc l wc wcs r hthread hl =>
    refine hs.set ?_ fun c hc => ?_
    · have hcc := hs cc l hl
      rw [hthread, pending_cqEvent_self] at hcc
      rw [pending_cqEvent_self, pending_dispatchPc]
      simpa [CqEventPc.pending] using hcc
    · rw [hthread, pending_cqEvent_ne hc, pending_cqEvent_ne hc]
  | copy hthread hl hc =>
    obtain ⟨b, -, rfl⟩ := Connection.echo_eq_some hc
    exact hs.keep hl rfl rfl rfl fun c => by rw [hthread]; exact pending_cqEvent_congr rfl c
  | postRecv hthread hl hc =>
    obtain ⟨-, rfl⟩ := Connection.postRecv_eq_some hc
    exact hs.keep hl rfl rfl rfl fun c => by rw [hthread]; exact pending_cqEvent_congr rfl c
  | postSend hthread hl hc =>
    obtain ⟨-, rfl⟩ := Connection.postSend_eq_some hc
    exact hs.keep hl rfl rfl rfl fun c => by rw [hthread]; exact pending_cqEvent_congr rfl c
  | copyFails hthread hl hc => exact hs
  | postRecvFails hthread hl hc => exact hs
  | postSendFails hthread hl hc => exact hs
  | stray hthread hpc hl => exact hs
  | @hca nc l m c hl hc =>
    obtain ⟨e, he, rfl⟩ := Connection.hca_eq_some hc
    rcases Endpoint.hca_cq he with hcq | ⟨x, hcq⟩
    · exact hs.keep (t := s.thread) hl (congrArg Cq.entries hcq) (congrArg Cq.added hcq) rfl
        fun _ => rfl
    · refine hs.set (t := s.thread) ?_ fun _ _ => rfl
      simp only [hcq, Cq.add_entries, Cq.add_added, List.map_append, ← hs nc l hl,
        List.append_assoc, List.map_cons, List.map_nil]
  | toServer hl hoffer hready =>
    obtain ⟨-, w, q, hq⟩ := Endpoint.ready_eq_true hready
    obtain ⟨wc, f, he⟩ := Connection.receive_ep hq _ _
    exact hs.keep (t := s.thread) hl (by rw [he]) (by rw [he]) rfl fun _ => rfl
  | toPeer hl hout hacc =>
    obtain ⟨-, w, q, hq⟩ := Endpoint.outgoing_eq_some hout
    exact hs.keep (t := s.thread) hl
      (by simp only [Connection.delivered, Endpoint.delivered_of_sq hq])
      (by simp only [Connection.delivered, Endpoint.delivered_of_sq hq]) rfl fun _ => rfl
  | peer hl hq => exact hs.keep (t := s.thread) hl rfl rfl rfl fun _ => rfl

/-- In every reachable state, each completion of a connection has been handled
once, in the order of the queue, or is still to be; and while the thread is
not in `handle_cq_event` for the connection, and has armed its queue, an
unpolled completion has an event in the channel and an empty channel has an
armed queue. -/
theorem no_stranded_completion {heap : Nat → Block} {as : List (Action ρ α)} {s : State σ}
    (hrun : Run.run (step P) (State.initial heap) as = some s)
    (hcalls : Run.Meets (step P) HandlerCallSucceeds (State.initial heap) as) {c : Nc} {l : Link σ}
    (hl : s.links c = some l) :
    l.handled ++ s.thread.pending c ++ l.conn.ep.cq.entries.map Cqe.wc = l.conn.ep.cq.added ∧
      (s.thread ≠ .setup c .reqNotify → (∀ pc, s.thread ≠ .cqEvent c pc) →
        (l.conn.ep.cq.entries ≠ [] → 0 < l.conn.ep.cq.events) ∧
        (l.conn.ep.cq.events = 0 → l.conn.ep.cq.armed = true)) := by
  have hinv := hcalls.invariant (I := fun s => Tagged s ∧ Waking s ∧ InOrder s)
    (fun s a t hs ha h => ⟨tagged_step hs.1 h, hs.2.1.step hs.1 ha h, hs.2.2.step hs.1 h⟩) hrun
    ⟨tagged_initial, fun c l hl => by simp [State.initial] at hl,
      fun c l hl => by simp [State.initial] at hl⟩
  refine ⟨hinv.2.2 c l hl, fun hsetup hhandler => ?_⟩
  have hphase : s.thread.phase c = .outside := by
    cases ht : s.thread with
    | loop => rfl
    | setup nc pc =>
      by_cases hc : c = nc
      · subst hc
        rw [phase_setup_self]
        cases pc with
        | reqNotify => exact absurd ht hsetup
        | _ => rfl
      · exact phase_setup_ne hc pc
    | cqEvent cc pc =>
      by_cases hc : c = cc
      · subst hc
        exact absurd ht (hhandler pc)
      · exact phase_cqEvent_ne hc pc
  have hw := hinv.2.1 c l hl
  rw [hphase] at hw
  exact ⟨hw.pending, hw.awake⟩

/-- A second message completes between the arming and the last poll of the
call that handles the first, and a send after that poll. -/
def lateArrivals : List (Action Unit AnyPeer.Action) :=
  setUp 7 0 1 () ++
  [.peer 7 .postRecv, .peer 7 (.send [0]), .peer 7 (.send [0]), .toServer 7 .recv,
    .hca 7 .reportRecv, .cqEvent 7, .server .ok, .server .ok, .poll 1, .server .ok, .server .ok,
    .server .ok, .server .ok, .server .ok, .toServer 7 .recv, .hca 7 .reportRecv, .poll 1,
    .server .ok, .server .ok, .server .ok, .server .ok, .server .ok, .poll 0,
    .hca 7 (.read 0), .toPeer 7, .hca 7 .reportSend]

theorem no_stranded_completion_lateArrivals : ∃ s l,
    Run.run (step AnyPeer.peer) (State.initial fun _ => zeros) lateArrivals = some s ∧
      s.links 7 = some l ∧ l.handled ++ l.conn.ep.cq.entries.map Cqe.wc = l.conn.ep.cq.added ∧
      (l.conn.ep.cq.entries ≠ [] → 0 < l.conn.ep.cq.events) ∧
      (l.conn.ep.cq.events = 0 → l.conn.ep.cq.armed = true) := by
  have hrun : ((Run.run (step AnyPeer.peer) (State.initial fun _ => zeros) lateArrivals).bind
      fun s => (s.links 7).map fun _ => s.thread) = some .loop := by decide +kernel
  obtain ⟨s, hs, h⟩ := Option.bind_eq_some_iff.mp hrun
  obtain ⟨l, hl, ht⟩ := Option.map_eq_some_iff.mp h
  obtain ⟨horder, hwake⟩ := no_stranded_completion hs (by decide +kernel) hl
  refine ⟨s, l, hs, hl, ?_, hwake (by simp [ht]) (by simp [ht])⟩
  simpa [ht, Thread.pending] using horder

end RdmaTutorial.Rdmacm05
