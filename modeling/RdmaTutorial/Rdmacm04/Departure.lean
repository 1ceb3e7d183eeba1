import RdmaTutorial.EchoCount
import RdmaTutorial.Rdmacm04.Whole

/-!
# rdmacm04/server.c: a client that leaves

`cm_event_loop` only logs a `DISCONNECTED`, and the queue pair of the server
stays as it is until its worker calls `rdma_disconnect`. So a worker learns of
a client that has left by nothing but its own count: after ten echoes it leaves
the loop. With fewer it polls an empty queue for ever and its slot stays taken,
however many messages the client has sent that the wire has not delivered.
-/

namespace RdmaTutorial.Rdmacm04

open Function

/-- In `do { ret = ibv_poll_cq(..); } while (ret == 0)`. -/
def polling : EchoLoop.Pc → Bool
  | .poll _ => true
  | _ => false

/-- The client has left; no work request but the receive is left on the
connection, and not that one either if the queue pair has failed, and the worker
polls. -/
structure Stuck (l : EchoLoop.State Visitor) : Prop where
  gone : l.peer.gone = true
  running : l.status = .running
  polls : polling l.pc = true
  sq : l.conn.ep.sq = []
  recvDone : l.conn.ep.recvDone = []
  sendDone : l.conn.ep.sendDone = []
  entries : l.conn.ep.cq.entries = []
  flushed : l.conn.ep.failed = true → l.conn.ep.rq = []

/-- No further completion can arrive: unless a poll or the queue pair fails, the
worker polls for ever. -/
theorem Stuck.step {l l' : EchoLoop.State Visitor} {a : EchoLoop.Action Visitor.Action}
    (h : Stuck l) (hs : EchoLoop.step EchoLoop.rdmacm04 Visitor.peer l a = some l')
    (hpoll : a ≠ .exec .fail) (hfail : a ≠ .hca .fail) : l' = l := by
  obtain ⟨hgone, hrunning, hpolls, hsq, hrecv, hsend, hcq, hflushed⟩ := h
  have hal : l.status.alive = true := by rw [hrunning]; rfl
  cases a with
  | exec r =>
    simp only [EchoLoop.step, hrunning, if_true, Option.some.injEq] at hs
    cases hpc : l.pc <;> simp only [hpc, polling, Bool.false_eq_true] at hpolls
    cases r with
    | ok => simpa [EchoLoop.exec, hpc, hcq] using hs.symm
    | fail => exact absurd rfl hpoll
  | hca m =>
    simp only [EchoLoop.step, hal, if_true, Option.map_eq_some_iff] at hs
    obtain ⟨c, hc, rfl⟩ := hs
    obtain ⟨e, he, rfl⟩ := Connection.hca_eq_some hc
    cases m with
    | fail => exact absurd rfl hfail
    | flushRecv op =>
      simp only [Verbs.Endpoint.hca] at he
      split at he
      · rename_i hf
        simp [hflushed hf] at he
      · cases he
    | _ => simp [Verbs.Endpoint.hca, hsq, hrecv, hsend] at he
  | toServer opcode => simp [EchoLoop.step, Visitor.peer, hgone, hal] at hs
  | toPeer => simp [EchoLoop.step, Verbs.Endpoint.outgoing, hsq, hal] at hs
  | peer x =>
    cases x <;> simp [EchoLoop.step, Visitor.peer, Visitor.step, hgone] at hs

/-- The worker has its slot and polls for a client that has left, and whose
`DISCONNECTED` has been taken up. -/
structure Stranded (s : Whole) (t : Nat) (w : Worker) (l : EchoLoop.State Visitor) : Prop where
  running : s.threads.server.status = .running
  worker : s.threads.server.workers t = some w
  conn : s.conns t = some l
  told : ∃ e ∈ s.threads.dispatched, e.event = .disconnected ∧ e.conn = w.conn
  loop : w.pc = .loop
  slot : (s.threads.server.slots w.ctx).id = some w.id
  stuck : Stuck l

/-! ## Ten echoes -/

/-- A client gets one echo by each delivery. -/
theorem got_step {l l' : EchoLoop.State Visitor} {a : EchoLoop.Action Visitor.Action}
    (hs : EchoLoop.step EchoLoop.rdmacm04 Visitor.peer l a = some l') :
    l'.peer.client.got.length = l.peer.client.got.length + a.deliveries := by
  cases a with
  | exec r =>
    simp only [EchoLoop.step] at hs
    split at hs
    · cases hs
      rcases EchoLoop.exec_peer (v := EchoLoop.rdmacm04) (P := Visitor.peer) l r with hp | hp <;>
        rw [hp] <;> rfl
    · cases hs
  | hca m =>
    simp only [EchoLoop.step] at hs
    split at hs
    · obtain ⟨c, -, rfl⟩ := Option.map_eq_some_iff.mp hs
      rfl
    · cases hs
  | toServer opcode =>
    simp only [EchoLoop.step] at hs
    split at hs
    · obtain ⟨p, -, hs⟩ := Option.bind_eq_some_iff.mp hs
      split at hs
      · cases hs
        rfl
      · cases hs
    · cases hs
  | toPeer =>
    obtain ⟨m, -, -, rfl⟩ := EchoLoop.step_toPeer hs
    exact List.length_append
  | peer x =>
    obtain ⟨q, hq, rfl⟩ := Option.map_eq_some_iff.mp hs
    cases x with
    | client b =>
      simp only [Visitor.peer, Visitor.step] at hq
      split at hq
      · cases hq
      · obtain ⟨c, hc, rfl⟩ := Option.map_eq_some_iff.mp hq
        cases b <;> cases hc <;> rfl
    | leave =>
      simp only [Visitor.peer, Visitor.step] at hq
      split at hq
      · cases hq
      · cases hq
        rfl

/-- In every run of the server, `i` of a worker counts the echoes its client has
got. -/
theorem counted_run {as : List Whole.Action} {s : Whole}
    (h : Run.run Whole.step .initial as = some s) {t : Nat} {l : EchoLoop.State Visitor}
    (hl : s.conns t = some l) :
    EchoLoop.Counted EchoLoop.rdmacm04 l.peer.client.got.length l := by
  have hinv := Whole.projects_conns.invariant
    (I := fun _ l => EchoLoop.Counted EchoLoop.rdmacm04 l.peer.client.got.length l)
    (fun _ l ⟨recvId, sendId, r, b, hl⟩ => hl ▸ EchoLoop.counted_opened recvId sendId r b ())
    (fun _ l a l' hc _ hs => got_step hs ▸ hc.step hs) h
    (Run.Meets.of_forall (Q := fun _ => True) fun _ _ => trivial) trivial
    (fun _ _ hl => by cases hl)
  exact hinv.2 t l hl

/-- A worker that is stranded has counted fewer echoes than it waits for. -/
theorem Stranded.lt {s : Whole} {t : Nat} {w : Worker} {l : EchoLoop.State Visitor}
    (h : Stranded s t w l)
    (hc : EchoLoop.Counted EchoLoop.rdmacm04 l.peer.client.got.length l) :
    l.peer.client.got.length < 10 := by
  have htotal := hc.total
  have hbound := hc.bound
  have hpolls := h.stuck.polls
  simp only [Verbs.Endpoint.unpolled, h.stuck.sendDone, h.stuck.entries,
    List.countP_nil] at htotal
  cases hpc : l.pc with
  | poll i =>
    rw [hpc] at htotal hbound
    have hi : i < EchoLoop.rounds := hbound rfl
    simp only [EchoLoop.Pc.count, EchoLoop.Pc.handed] at htotal
    simp only [EchoLoop.rounds] at hi
    omega
  | _ => rw [hpc] at hpolls; cases hpolls

/-! ## Fewer echoes -/

/-- Worker 0 gets to its loop with a connection, whose client is established. -/
def served : List Whole.Action :=
  (request 100 0 0).map .threads ++ [.setup 0 0 0 zeros zeros] ++ .replicate 4 (.exec 0 .ok) ++
    [.threads (.cmEvent ⟨.established, 100, 0⟩), .threads (.loop .ok), .threads (.loop .ok),
      .threads (.loop .ok)] ++ .replicate 3 (.exec 0 .ok)

/-- The client sends an empty string and gets its echo. -/
def echoed : List Whole.Action :=
  [.conn 0 (.peer (.client (.send [0]))), .conn 0 (.peer (.client .postRecv)),
    .conn 0 (.toServer .recv), .conn 0 (.hca .reportRecv)] ++ .replicate 7 (.exec 0 .ok) ++
    [.conn 0 (.hca (.read 0)), .conn 0 .toPeer, .conn 0 (.hca .reportSend)] ++
    .replicate 4 (.exec 0 .ok)

/-- A client gets `d` echoes. -/
def answered (d : Nat) : List Whole.Action := served ++ (List.replicate d echoed).flatten

/-- It sends `n` messages more, which the wire does not take, and leaves. -/
def parting (n : Nat) : List Visitor.Action :=
  .replicate n (.client (.send [0])) ++ [.leave]

def left : CmEvent := ⟨.disconnected, 100, 0⟩

/-- A client that has got `d` echoes leaves, with `n` messages undelivered. -/
def leaves (d n : Nat) : List Whole.Action :=
  answered d ++ ((parting n).map fun x => .conn 0 (.peer x)) ++
    [.threads (.cmEvent left), .threads (.loop .ok)]

/-- Where the echoes leave the connection. -/
structure Idle (d : Nat) (l : EchoLoop.State Visitor) : Prop where
  here : l.peer.gone = false
  sent : l.peer.client.log.length = d
  echoed : l.peer.client.got.length = d
  running : l.status = .running
  polls : polling l.pc = true
  sq : l.conn.ep.sq = []
  recvDone : l.conn.ep.recvDone = []
  sendDone : l.conn.ep.sendDone = []
  entries : l.conn.ep.cq.entries = []
  alive : l.conn.ep.failed = false

instance (d : Nat) (l : EchoLoop.State Visitor) : Decidable (Idle d l) :=
  decidable_of_iff (l.peer.gone = false ∧ l.peer.client.log.length = d ∧
      l.peer.client.got.length = d ∧ l.status = .running ∧ polling l.pc = true ∧
      l.conn.ep.sq = [] ∧ l.conn.ep.recvDone = [] ∧ l.conn.ep.sendDone = [] ∧
      l.conn.ep.cq.entries = [] ∧ l.conn.ep.failed = false)
    ⟨fun ⟨h₁, h₂, h₃, h₄, h₅, h₆, h₇, h₈, h₉, h₁₀⟩ => ⟨h₁, h₂, h₃, h₄, h₅, h₆, h₇, h₈, h₉, h₁₀⟩,
    fun h => ⟨h.here, h.sent, h.echoed, h.running, h.polls, h.sq, h.recvDone, h.sendDone,
      h.entries, h.alive⟩⟩

/-- Worker 0 waits in its loop, and the event thread for the next event. -/
def Waiting (s : System) : Prop :=
  s.server.status = .running ∧ s.server.workers 0 = some ⟨0, .loop, 100, 0⟩ ∧
    s.Allowed (.cmEvent left) ∧ s.server.loop = .getEvent

instance (s : System) : Decidable (Waiting s) := by
  unfold Waiting
  infer_instance

theorem answered_idle : ∀ d : Fin 10,
    (∃ s ∈ Run.run Whole.step .initial (answered d), Waiting s.threads ∧
      ∃ l ∈ s.conns 0, Idle d l) ∧
    Run.Meets Whole.step Whole.Allowed .initial (answered d) := by
  decide +kernel

/-- What the client does on its own changes nothing but the client. -/
theorem peer_run {s : Whole} (hrun : s.threads.server.status = .running) {t : Nat}
    {xs : List Visitor.Action} {l : EchoLoop.State Visitor} (hl : s.conns t = some l)
    {q : Visitor} (hq : Run.run Visitor.step l.peer xs = some q) :
    Run.run Whole.step s (xs.map fun x => .conn t (.peer x)) =
      some (s.setConn t { l with peer := q }) := by
  induction xs generalizing s l with
  | nil =>
    obtain rfl : l.peer = q := Option.some.inj hq
    have hself : s.setConn t l = s := by
      rw [Whole.setConn, ← hl, update_eq_self]
    simp [hself]
  | cons x xs ih =>
    obtain ⟨q', hx, hq⟩ := Run.run_cons hq
    have hstep : s.step (.conn t (.peer x)) = some (s.setConn t { l with peer := q' }) := by
      simp [Whole.step, hrun, hl, EchoLoop.step, Visitor.peer, hx]
    have hrest := ih (s := s.setConn t { l with peer := q' }) hrun
      (l := { l with peer := q' }) (by simp [Whole.setConn]) hq
    rw [List.map_cons, Run.run, hstep, Option.bind_some, hrest]
    simp [Whole.setConn]

/-- The client when it has left. -/
def parted (n : Nat) (c : AnyPeer) : Visitor :=
  { client := { c with
      outbox := c.outbox ++ .replicate n [0], log := c.log ++ .replicate n [0] },
    gone := true }

theorem parting_run (n : Nat) (c : AnyPeer) :
    Run.run Visitor.step ⟨c, false⟩ (parting n) = some (parted n c) := by
  induction n generalizing c with
  | zero => simp [parting, parted, Run.run, Visitor.step]
  | succ n ih =>
    have hnext := ih { c with outbox := c.outbox ++ [[0]], log := c.log ++ [[0]] }
    have hsplit : parting (n + 1) = .client (.send [0]) :: parting n := by
      simp [parting, List.replicate_succ]
    rw [hsplit, Run.run]
    simpa [Visitor.step, AnyPeer.step, parted, List.replicate_succ] using hnext

/-- The event has been taken up, and not yet acknowledged. -/
def logging (s : System) : System :=
  { s with server := s.server.goto (.ack false), dispatched := s.dispatched ++ [left] }

/-- It has been logged, and that is all. -/
def logged (s : System) : System := { s with dispatched := s.dispatched ++ [left] }

theorem told_run {s : Whole} (h : Waiting s.threads) :
    Run.run Whole.step s [.threads (.cmEvent left), .threads (.loop .ok)] =
        some { s with threads := logged s.threads } ∧
      Run.Meets Whole.step Whole.Allowed s [.threads (.cmEvent left), .threads (.loop .ok)] := by
  obtain ⟨hrun, -, hallowed, hloop⟩ := h
  have hevent : s.step (.threads (.cmEvent left)) =
      some { s with threads := logging s.threads } := by
    simp [Whole.step, hrun, Whole.outside, Whole.release, Whole.threadStep, System.step,
      Rdmacm04.step, hloop, left, dispatchPc, announced, State.goto, System.nextDispatched,
      System.nextHolder, logging]
  have hserver : (s.threads.server.goto (.ack false)).goto .getEvent = s.threads.server := by
    simp only [State.goto, ← hloop]
  have hack : { s with threads := logging s.threads }.step (.threads (.loop .ok)) =
      some { s with threads := logged s.threads } := by
    simp only [logged]
    rw [← hserver]
    simp [Whole.step, hrun, Whole.outside, Whole.release, Whole.threadStep, System.step,
      Rdmacm04.step, loopStep, State.goto, System.nextDispatched, System.nextHolder, logging]
  refine ⟨?_, hallowed, fun _ _ => ⟨trivial, fun _ _ => trivial⟩⟩
  rw [Run.run, hevent, Option.bind_some, Run.run, hack, Option.bind_some, Run.run_nil]

/-- The slots stay exclusive with the connections. -/
theorem whole_exclusive {as : List Whole.Action} {s : Whole}
    (h : Run.run Whole.step .initial as = some s)
    (ha : Run.Meets Whole.step Whole.Allowed .initial as)
    (hrun : s.threads.server.status = .running) : Exclusive s.threads.server := by
  have hinv := Whole.projects_threads.invariant (I := fun _ u => Exclusive u.server)
    (fun _ _ h => h.elim)
    (fun _ u a u' hu _ hs => by
      obtain ⟨v, hv, rfl⟩ := Option.map_eq_some_iff.mp hs
      exact exclusive_step _ _ _ hu hv) h ha trivial
    (fun _ u hu => by
      split at hu <;> cases hu
      exact .initial)
  exact hinv.2 () s.threads (if_pos hrun)

/-- A client with fewer than ten echoes strands its worker, with any number of
messages undelivered. -/
theorem leaves_stranded (d : Fin 10) (n : Nat) : ∃ s l,
    Run.run Whole.step .initial (leaves d n) = some s ∧
    Run.Meets Whole.step Whole.Allowed .initial (leaves d n) ∧ s.conns 0 = some l ∧
    l.peer.client.got.length = d ∧ l.peer.client.log.length = d + n ∧
    Stranded s 0 ⟨0, .loop, 100, 0⟩ l := by
  obtain ⟨⟨s, hs, hwait, l, hl, hidle⟩, hmeets⟩ := answered_idle d
  -- The client sends and goes: only its own state is different.
  have hpeer : l.peer = ⟨l.peer.client, false⟩ := by rw [← hidle.here]
  have hgone := peer_run hwait.1 hl (q := parted n l.peer.client) (by
    rw [hpeer]
    exact parting_run n _)
  have hmeetsGone : Run.Meets Whole.step Whole.Allowed s
      ((parting n).map fun x => .conn 0 (.peer x)) := by
    refine Run.Meets.mono (P := fun _ a => ∃ x, a = .conn 0 (.peer x)) ?_ (.of_forall ?_)
    · rintro _ _ ⟨x, rfl⟩
      trivial
    · simp
  have hconn : (s.setConn 0 { l with peer := parted n l.peer.client }).conns 0 =
      some { l with peer := parted n l.peer.client } := by simp [Whole.setConn]
  obtain ⟨htold, hmeetsTold⟩ := told_run (s := s.setConn 0 _) hwait
  have hrun := Run.run_append (Run.run_append hs hgone) htold
  have hall := Run.Meets.append (Run.run_append hs hgone) (.append hs hmeets hmeetsGone) hmeetsTold
  have hslot := ((whole_exclusive hrun hall hwait.1).owner hwait.2.1 rfl).id
  refine ⟨_, _, hrun, hall, hconn, hidle.echoed, ?_, hwait.1, hwait.2.1, hconn,
    ⟨left, by simp [logged], rfl, rfl⟩, rfl, hslot, ?_⟩
  · simp [parted, hidle.sent]
  · exact ⟨rfl, hidle.running, hidle.polls, hidle.sq, hidle.recvDone, hidle.sendDone,
      hidle.entries, fun hf => by simp [hidle.alive] at hf⟩

/-- For every number of echoes a client has got and of messages it has sent in
vain: no run strands the worker of such a client, exactly if the echoes are ten or
more. -/
theorem departed_gives_back_iff (echoes lost : Nat) :
    (∀ as s, Run.run Whole.step .initial as = some s →
      Run.Meets Whole.step Whole.Allowed .initial as → ∀ t w l, s.conns t = some l →
        l.peer.client.got.length = echoes → l.peer.client.log.length = echoes + lost →
          ¬Stranded s t w l) ↔
    10 ≤ echoes := by
  constructor
  · intro h
    by_contra hk
    obtain ⟨s, l, hs, ha, hl, hgot, hlog, hstranded⟩ := leaves_stranded ⟨echoes, by omega⟩ lost
    exact h _ s hs ha _ _ l hl hgot hlog hstranded
  · intro hk as s hs _ t w l hl hgot _ hstranded
    have hlt := hstranded.lt (counted_run hs hl)
    omega

/-- One message and its echo, and the client leaves. -/
theorem departed_unnoticed : ∃ s l, Run.run Whole.step .initial (leaves 1 0) = some s ∧
    Run.Meets Whole.step Whole.Allowed .initial (leaves 1 0) ∧ s.conns 0 = some l ∧
    l.peer.client.got.length = 1 ∧ l.peer.client.log.length = 1 ∧
    Stranded s 0 ⟨0, .loop, 100, 0⟩ l :=
  leaves_stranded 1 0

end RdmaTutorial.Rdmacm04
