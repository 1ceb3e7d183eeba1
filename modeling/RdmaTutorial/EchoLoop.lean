import Mathlib.Logic.Function.Basic
import RdmaTutorial.Lib.Run
import RdmaTutorial.Echo.Link

/-!
# rdmacm03/server.c and rdmacm04/server.c: the polling echo loop

`main` of rdmacm03 and `handle_request` of rdmacm04 run one loop on one
connection: poll one completion, handle it by its opcode, arm the queue, and
stop after ten completed sends. They differ in what they do when a call fails
(`Variant`). rdmacm04 runs the loop in one thread for each connection
(`Workers`).
-/

namespace RdmaTutorial.EchoLoop

open Verbs

inductive Status where
  | running
  /-- Behind the loop. -/
  | left
  | died (reason : String)
  /-- The program has read or written memory it does not own. -/
  | undefined
  deriving DecidableEq, Repr

/-- The process is there, and with it the queue pair. -/
def Status.alive : Status → Bool
  | .running => true
  | .left => true
  | _ => false

/-- The sends the loop waits for. -/
def rounds : Nat := 10

/-- Where the two programs differ, and the bound of the loop. -/
structure Variant where
  acceptDie : String
  pollFails : Status
  rounds : Nat

def rdmacm03 : Variant :=
  { acceptDie := ifNzeroDie "rdma_accept(client_id, &conn_parm)", pollFails := .died "ibv_poll_cq",
    rounds := rounds }

def rdmacm04 : Variant :=
  { acceptDie := ifNzeroDie "rdma_accept(ctx->id, &conn_parm)", pollFails := .left,
    rounds := rounds }

/-- The next statement; `i` counts the completed sends. -/
inductive Pc where
  /-- `ibv_req_notify_cq`, in `setup_connection`. -/
  | reqNotify
  /-- `rdma_create_qp`. -/
  | createQp
  /-- The first `ibv_post_recv`. -/
  | firstRecv
  | accept
  /-- Until `RDMA_CM_EVENT_ESTABLISHED`. -/
  | wait
  /-- `i = 0`. -/
  | begin
  /-- `while (i < 10)`. -/
  | head (i : Nat)
  /-- `ibv_poll_cq`, until it returns a completion. -/
  | poll (i : Nat)
  /-- The tests of `wc.status` and `wc.opcode`. -/
  | dispatch (i : Nat) (wc : Wc Nc)
  | copy (i : Nat)
  | postRecv (i : Nat)
  | postSend (i : Nat)
  /-- `ibv_req_notify_cq`, at the end of the loop. -/
  | notify (i : Nat)
  deriving DecidableEq, Repr

structure State (σ : Type) where
  status : Status
  pc : Pc
  conn : Connection
  peer : σ

variable {ρ σ α : Type}

namespace State

def goto (s : State σ) (pc : Pc) : State σ := { s with pc := pc }

def leave (s : State σ) : State σ := { s with status := .left }

def die (s : State σ) (reason : String) : State σ := { s with status := .died reason }

/-- A statement on the connection. -/
def onConn (s : State σ) (f : Connection → Option Connection) (next : Pc) (fails : Status) :
    State σ :=
  match f s.conn with
  | some c => { s with conn := c, pc := next }
  | none => { s with status := fails }

end State

/-- The connection at `setup_connection`, in the blocks `malloc` returns. -/
def opened (P : Peer ρ σ α) (recvId sendId : Nc) (r b : Block) (a : ρ) : State σ :=
  { status := .running, pc := .reqNotify, conn := .create recvId sendId r b, peer := P.fresh a }

/-- The next statement; `r` is what the library call in it returned, where
that is tested. -/
def exec (v : Variant) (P : Peer ρ σ α) (s : State σ) (r : Result) : State σ :=
  match s.pc, r with
  | .reqNotify, .ok => { s with conn := s.conn.reqNotify, pc := .createQp }
  | .reqNotify, .fail => s.die reqNotifyDie
  | .createQp, .ok => s.goto .firstRecv
  | .createQp, .fail => s.die createQpDie
  | .firstRecv, _ => s.onConn Connection.postRecv .accept (.died postRecvDie)
  | .accept, .ok => { s with peer := P.established s.peer, pc := .wait }
  | .accept, .fail => s.die v.acceptDie
  | .wait, _ => s.goto .begin
  | .begin, _ => s.goto (.head 0)
  | .head i, _ => if i < v.rounds then s.goto (.poll i) else s.leave
  | .poll i, .ok =>
    match s.conn.ep.cq.entries with
    | [] => s
    | x :: _ => { s with conn := s.conn.poll 1, pc := .dispatch i x.wc }
  | .poll _, .fail => { s with status := v.pollFails }
  | .dispatch i wc, _ =>
    if wc.status ≠ .success then s.leave
    else
      match wc.opcode with
      | .recv => s.goto (.copy i)
      | .send => s.goto (.notify (i + 1))
      | .other _ => s.goto (.notify i)
  | .copy i, _ => s.onConn Connection.echo (.postRecv i) .undefined
  | .postRecv i, _ => s.onConn Connection.postRecv (.postSend i) (.died postRecvDie)
  | .postSend i, _ => s.onConn Connection.postSend (.notify i) (.died postSendDie)
  | .notify i, .ok => { s with conn := s.conn.reqNotify, pc := .head i }
  | .notify _, .fail => s.leave

inductive Action (α : Type) where
  | exec (r : Result)
  | hca (m : Hca)
  | toServer (opcode : WcOpcode)
  | toPeer
  | peer (a : α)
  deriving DecidableEq

/-- While the process is there, messages may arrive and be delivered. -/
def step (v : Variant) (P : Peer ρ σ α) (s : State σ) : Action α → Option (State σ)
  | .exec r => if s.status = .running then some (exec v P s r) else none
  | .hca m =>
    if s.status.alive then (s.conn.hca m).map fun c => { s with conn := c } else none
  | .toServer opcode =>
    if s.status.alive then
      (P.offer s.peer).bind fun p =>
        if s.conn.ep.ready then
          some { s with conn := s.conn.receive opcode p, peer := P.sent s.peer }
        else none
    else none
  | .toPeer =>
    if s.status.alive then
      s.conn.ep.outgoing.bind fun p =>
        if P.accepts s.peer then
          some { s with conn := s.conn.delivered, peer := P.receive p s.peer }
        else none
    else none
  | .peer a => (P.step s.peer a).map fun q => { s with peer := q }

/-! ## The threads of rdmacm04 -/

/-- The threads of rdmacm04, by the addresses of their connections. -/
abbrev Workers (σ : Type) := Nc → Option (State σ)

inductive WorkerAction (ρ α : Type) where
  /-- `setup_connection` in a new thread. -/
  | start (nc recvId sendId : Nc) (r b : Block) (a : ρ)
  /-- The thread's connection is released. -/
  | finish (nc : Nc)
  | thread (nc : Nc) (a : Action α)

def workerStep (P : Peer ρ σ α) (w : Workers σ) : WorkerAction ρ α → Option (Workers σ)
  | .start nc recvId sendId r b a =>
    if (w nc).isNone then some (Function.update w nc (some (opened P recvId sendId r b a)))
    else none
  | .finish nc =>
    match w nc with
    | some s => if s.status = .left then some (Function.update w nc none) else none
    | none => none
  | .thread nc a =>
    (w nc).bind fun s => (step rdmacm04 P s a).map fun t => Function.update w nc (some t)

variable {v : Variant} {P : Peer ρ σ α}

/-- The program acts on the peer only by `rdma_accept`. -/
theorem exec_peer (s : State σ) (r : Result) :
    (exec v P s r).peer = s.peer ∨ (exec v P s r).peer = P.established s.peer := by
  obtain ⟨status, pc, c, p⟩ := s
  cases pc with
  | accept =>
    cases r with
    | ok => exact .inr rfl
    | fail => exact .inl rfl
  | firstRecv =>
    simp only [exec, State.onConn]
    cases c.postRecv <;> exact .inl rfl
  | head i =>
    simp only [exec]
    split <;> exact .inl rfl
  | poll i =>
    cases r with
    | fail => exact .inl rfl
    | ok =>
      simp only [exec]
      cases c.ep.cq.entries <;> exact .inl rfl
  | dispatch i wc =>
    simp only [exec]
    split
    · exact .inl rfl
    · cases wc.opcode <;> exact .inl rfl
  | copy i =>
    simp only [exec, State.onConn]
    cases c.echo <;> exact .inl rfl
  | postRecv i =>
    simp only [exec, State.onConn]
    cases c.postRecv <;> exact .inl rfl
  | postSend i =>
    simp only [exec, State.onConn]
    cases c.postSend <;> exact .inl rfl
  | _ => cases r <;> exact .inl rfl

/-! ## The loop is an echo connection -/

/-- How far the loop is with what it has polled. -/
def Pc.stage : Pc → Echo.Stage
  | .reqNotify => .opening
  | .createQp => .opening
  | .firstRecv => .opening
  | .head _ => .batch []
  | .dispatch _ wc => .batch [wc]
  | .copy _ => .copy []
  | .postRecv _ => .postRecv []
  | .postSend _ => .postSend []
  | .notify _ => .batch []
  | _ => .quiet

def view (s : State σ) : Echo.State σ := ⟨s.pc.stage, s.conn, s.peer⟩

/-- The move of the connection that a step is. -/
def label (s : State σ) : Action α → Option (Echo.Move α)
  | .exec r =>
    match s.pc, r with
    | .reqNotify, .ok => some .arm
    | .firstRecv, _ => some .firstRecv
    | .accept, .ok => some .established
    | .begin, _ => some (.poll 0)
    | .head _, _ => some .next
    | .poll _, .ok => some (.poll 1)
    | .dispatch _ _, _ => some .next
    | .copy _, _ => some .copy
    | .postRecv _, _ => some .postRecv
    | .postSend _, _ => some .postSend
    | .notify _, .ok => some .arm
    | _, _ => none
  | .hca m => some (.hca m)
  | .toServer opcode => some (.toServer opcode)
  | .toPeer => some .toPeer
  | .peer a => some (.peer a)

theorem view_onConn {s : State σ} {f : Connection → Option Connection} {next : Pc}
    {fails : Status} {b : Echo.Move α}
    (hmove : ∀ c, f s.conn = some c → Echo.step P (view s) b = some ⟨next.stage, c, s.peer⟩) :
    view (s.onConn f next fails) = view s ∨
      Echo.step P (view s) b = some (view (s.onConn f next fails)) := by
  unfold State.onConn
  cases hf : f s.conn with
  | none => exact .inl rfl
  | some c => exact .inr (hmove c hf)

/-- Every statement of the loop leaves the connection alone or is a move of
it. -/
theorem exec_view (s : State σ) (r : Result) :
    view (exec v P s r) = view s ∨
      ∃ b, label s (.exec r) = some b ∧ Echo.step P (view s) b = some (view (exec v P s r)) := by
  obtain ⟨status, pc, c, p⟩ := s
  cases pc with
  | reqNotify =>
    cases r with
    | ok => exact .inr ⟨.arm, rfl, rfl⟩
    | fail => exact .inl rfl
  | createQp => cases r <;> exact .inl rfl
  | firstRecv =>
    refine (view_onConn (b := .firstRecv) fun nc hnc => ?_).imp_right fun h => ⟨_, rfl, h⟩
    simp [view, Echo.step, Pc.stage, hnc]
  | accept =>
    cases r with
    | ok => exact .inr ⟨.established, rfl, rfl⟩
    | fail => exact .inl rfl
  | wait => exact .inl rfl
  | begin => exact .inr ⟨.poll 0, rfl, rfl⟩
  | head i =>
    simp only [exec]
    split
    · exact .inr ⟨.next, rfl, rfl⟩
    · exact .inl rfl
  | poll i =>
    cases r with
    | fail => exact .inl rfl
    | ok =>
      simp only [exec]
      split
      -- An empty queue is polled again.
      · exact .inl rfl
      · rename_i x q hq
        exact .inr ⟨.poll 1, rfl, by simp [view, Echo.step, Pc.stage, Cq.taken, hq]⟩
  | dispatch i wc =>
    simp only [exec]
    split
    -- The completion of a failure is left where it is, and the loop with it.
    · exact .inl rfl
    · refine .inr ⟨.next, rfl, ?_⟩
      cases h : wc.opcode <;> simp [view, Echo.step, Pc.stage, Echo.dispatch, State.goto, h]
  | copy i =>
    refine (view_onConn (b := .copy) fun nc hnc => ?_).imp_right fun h => ⟨_, rfl, h⟩
    simp [view, Echo.step, Pc.stage, hnc]
  | postRecv i =>
    refine (view_onConn (b := .postRecv) fun nc hnc => ?_).imp_right fun h => ⟨_, rfl, h⟩
    simp [view, Echo.step, Pc.stage, hnc]
  | postSend i =>
    refine (view_onConn (b := .postSend) fun nc hnc => ?_).imp_right fun h => ⟨_, rfl, h⟩
    simp [view, Echo.step, Pc.stage, hnc]
  | notify i =>
    cases r with
    | ok => exact .inr ⟨.arm, rfl, rfl⟩
    | fail => exact .inl rfl

/-- **Refinement.** So is every step. -/
theorem step_view {s t : State σ} {a : Action α} (h : step v P s a = some t) :
    view t = view s ∨ ∃ b, label s a = some b ∧ Echo.step P (view s) b = some (view t) := by
  cases a with
  | exec r =>
    simp only [step] at h
    split at h
    · cases h
      exact exec_view s r
    · cases h
  | hca m =>
    simp only [step] at h
    split at h
    · obtain ⟨c, hc, rfl⟩ := Option.map_eq_some_iff.mp h
      exact .inr ⟨.hca m, rfl, by simp [view, Echo.step, hc]⟩
    · cases h
  | toServer opcode =>
    simp only [step] at h
    split at h
    · obtain ⟨p, hp, h⟩ := Option.bind_eq_some_iff.mp h
      split at h
      · rename_i hready
        cases h
        exact .inr ⟨.toServer opcode, rfl, by simp [view, Echo.step, hp, hready]⟩
      · cases h
    · cases h
  | toPeer =>
    simp only [step] at h
    split at h
    · obtain ⟨p, hp, h⟩ := Option.bind_eq_some_iff.mp h
      split at h
      · rename_i hacc
        cases h
        exact .inr ⟨.toPeer, rfl, by simp [view, Echo.step, hp, hacc]⟩
      · cases h
    · cases h
  | peer a =>
    obtain ⟨q, hq, rfl⟩ := Option.map_eq_some_iff.mp h
    exact .inr ⟨.peer a, rfl, by simp [view, Echo.step, hq]⟩

/-! ## A record of what is delivered -/

/-- What has been delivered to the peer, oldest first. -/
def State.log (s : State (σ × List Payload)) : List Payload := s.peer.2

/-- The state without the record. -/
def State.erase (s : State (σ × List Payload)) : State σ := ⟨s.status, s.pc, s.conn, s.peer.1⟩

/-- The program knows nothing of the record. -/
theorem exec_erase (s : State (σ × List Payload)) (r : Result) :
    (exec v P.logged s r).erase = exec v P s.erase r ∧ (exec v P.logged s r).log = s.log := by
  obtain ⟨status, pc, c, q, l⟩ := s
  cases pc with
  | firstRecv =>
    simp only [exec, State.onConn, State.erase]
    cases c.postRecv <;> exact ⟨rfl, rfl⟩
  | head i =>
    simp only [exec, State.erase]
    split <;> exact ⟨rfl, rfl⟩
  | poll i =>
    cases r with
    | fail => exact ⟨rfl, rfl⟩
    | ok =>
      simp only [exec, State.erase]
      cases c.ep.cq.entries <;> exact ⟨rfl, rfl⟩
  | dispatch i wc =>
    simp only [exec, State.erase]
    split
    · exact ⟨rfl, rfl⟩
    · cases wc.opcode <;> exact ⟨rfl, rfl⟩
  | copy i =>
    simp only [exec, State.onConn, State.erase]
    cases c.echo <;> exact ⟨rfl, rfl⟩
  | postRecv i =>
    simp only [exec, State.onConn, State.erase]
    cases c.postRecv <;> exact ⟨rfl, rfl⟩
  | postSend i =>
    simp only [exec, State.onConn, State.erase]
    cases c.postSend <;> exact ⟨rfl, rfl⟩
  | _ => cases r <;> exact ⟨rfl, rfl⟩

theorem step_toPeer {s t : State σ} (h : step v P s .toPeer = some t) :
    ∃ m, s.conn.ep.outgoing = some m ∧ P.accepts s.peer = true ∧
      t = { s with conn := s.conn.delivered, peer := P.receive m s.peer } := by
  simp only [step] at h
  split at h
  · obtain ⟨m, hm, h⟩ := Option.bind_eq_some_iff.mp h
    split at h
    · rename_i hacc
      exact ⟨m, hm, hacc, (Option.some.inj h).symm⟩
    · cases h
  · cases h

/-- Nor does any other step, and only a delivery adds to it. -/
theorem step_erase {s t : State (σ × List Payload)} {a : Action α}
    (h : step v P.logged s a = some t) :
    step v P s.erase a = some t.erase ∧ (a ≠ .toPeer → t.log = s.log) := by
  cases a with
  | exec r =>
    simp only [step] at h ⊢
    split at h
    · rename_i hrun
      cases h
      obtain ⟨he, hl⟩ := exec_erase (v := v) (P := P) s r
      refine ⟨?_, fun _ => hl⟩
      rw [if_pos (show s.erase.status = .running from hrun), he]
    · cases h
  | hca m =>
    simp only [step] at h
    split at h
    · rename_i hal
      obtain ⟨c, hc, rfl⟩ := Option.map_eq_some_iff.mp h
      exact ⟨by simp [step, State.erase, hal, hc], fun _ => rfl⟩
    · cases h
  | toServer opcode =>
    simp only [step] at h
    split at h
    · rename_i hal
      obtain ⟨p, hp, h⟩ := Option.bind_eq_some_iff.mp h
      split at h
      · rename_i hready
        cases h
        replace hp : P.offer s.peer.1 = some p := hp
        exact ⟨by simp [step, State.erase, hal, hp, hready, Peer.logged], fun _ => rfl⟩
      · cases h
    · cases h
  | toPeer =>
    refine ⟨?_, fun hne => absurd rfl hne⟩
    have hal : s.status.alive = true := by
      simp only [step] at h
      split at h
      · assumption
      · cases h
    obtain ⟨m, hm, hacc, rfl⟩ := step_toPeer h
    replace hacc : P.accepts s.peer.1 = true := hacc
    simp [step, State.erase, hal, hm, hacc, Peer.logged]
  | peer a =>
    obtain ⟨q, hq, rfl⟩ := Option.map_eq_some_iff.mp h
    obtain ⟨p, hp, rfl⟩ := Option.map_eq_some_iff.mp hq
    exact ⟨by simp [step, State.erase, hp], fun _ => rfl⟩

end RdmaTutorial.EchoLoop
