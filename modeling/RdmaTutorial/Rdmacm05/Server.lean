import Mathlib.Logic.Function.Basic
import RdmaTutorial.Peer

/-!
# rdmacm05/server.c: the server and its connections

One thread serves all connections: it is in the main loop, inside
`setup_connection` for a new connection, or inside `handle_cq_event` for the
channel of one connection. Each step is one statement of that thread, one move
of an HCA, one delivery on the wire, or one move of a peer, so a run is any
interleaving of them.

A connection is named by the address of its `struct connection`, which is
also the `wr_id` of its work requests; `handle_cq_event` finds the connection
of a completion through `wr_id`, and the queue it polls through the channel.
The connection table, the CM events and epoll have a model of their own
(`Rdmacm05.CmEvents`); here a connection appears and disappears as a whole.
-/

namespace RdmaTutorial.Rdmacm05

open Verbs

/-- The next statement in `handle_new_request` and `setup_connection`. -/
inductive SetupPc where
  /-- `ibv_req_notify_cq`, behind the creation of channel and queue. -/
  | reqNotify
  /-- `rdma_create_qp`. -/
  | createQp
  /-- The first `ibv_post_recv`. -/
  | postRecv
  /-- `epoll_ctl(.., EPOLL_CTL_ADD, ..)`. -/
  | register
  /-- `rdma_accept`. -/
  | accept
  deriving DecidableEq, Repr

/-- The next statement in `handle_cq_event`, behind `ibv_get_cq_event`. `wcs`
is what the `for` loop has not looked at yet. -/
inductive CqEventPc where
  /-- `ibv_ack_cq_events`. -/
  | ack
  /-- `ibv_req_notify_cq`. -/
  | reqNotify
  /-- `ibv_poll_cq`. -/
  | poll
  /-- The head of the `for` loop. -/
  | dispatch (wcs : List (Wc Nc))
  /-- `strcpy`, in `case IBV_WC_RECV`. -/
  | copy (nc : Nc) (wcs : List (Wc Nc))
  /-- `ibv_post_recv`. -/
  | postRecv (nc : Nc) (wcs : List (Wc Nc))
  /-- `ibv_post_send`. -/
  | postSend (nc : Nc) (wcs : List (Wc Nc))
  deriving DecidableEq, Repr

inductive Thread where
  /-- In `main`, between two calls of a handler. -/
  | loop
  | setup (nc : Nc) (pc : SetupPc)
  /-- In `handle_cq_event(cc)`, `cc` being the channel of connection `cc`. -/
  | cqEvent (cc : Nc) (pc : CqEventPc)
  deriving DecidableEq, Repr

/-- `undefined`: the program has read or written memory it does not own. -/
inductive Status where
  | running
  | died (reason : String)
  | undefined
  deriving DecidableEq, Repr

/-- A connection, with the machine at its other end. `recvAt` and `sendAt` are
the addresses of its two buffers. `handled` is a history variable: the
completions the `for` loop has looked at, oldest first. -/
structure Link (σ : Type) where
  conn : Connection
  recvAt : Nat
  sendAt : Nat
  peer : σ
  handled : List (Wc Nc)

/-- `free` is the heap, as far as the buffers of connections go: the free
blocks by address, with the bytes their last owner left in them. -/
structure State (σ : Type) where
  status : Status
  thread : Thread
  links : Nc → Option (Link σ)
  free : Nat → Option Block

/-- `wcs` in `handle_cq_event` holds 16 completions. -/
def maxBatch : Nat := 16

inductive Action (ρ α : Type) where
  /-- `RDMA_CM_EVENT_CONNECT_REQUEST`; `recvAt` and `sendAt` are the free
  blocks `malloc` returns for the two buffers. -/
  | connect (nc : Nc) (recvAt sendAt : Nat) (a : ρ)
  /-- `RDMA_CM_EVENT_DISCONNECTED`. -/
  | disconnect (nc : Nc)
  /-- `main` calls `handle_cq_event` for a channel with an event. -/
  | cqEvent (cc : Nc)
  /-- The thread's next statement, and what it returned. -/
  | server (r : Result)
  /-- `ibv_poll_cq` hands out `n` completions. -/
  | poll (n : Nat)
  | hca (nc : Nc) (m : Hca)
  /-- A message of the peer arrives. -/
  | toServer (nc : Nc) (opcode : WcOpcode)
  /-- An echo arrives at the peer. -/
  | toPeer (nc : Nc)
  | peer (nc : Nc) (a : α)

/-! ## The reasons for `die` -/

def firstRecvDie : String := ifNzeroDie "ibv_post_recv(nc->qp, &nc->recv_wr, &bad_wr)"
def registerDie : String := "Failed to register cq event fd"
def acceptDie : String := ifNzeroDie "rdma_accept(cctx->id, &conn_parm)"

/-- Where no queue is full: a library call in `setup_connection` or
`handle_new_request` has failed. -/
def setupDies : List String := [reqNotifyDie, createQpDie, registerDie, acceptDie]

variable {ρ σ α : Type}

namespace State

/-- The server before the first connection, with `heap` in its free blocks. -/
def initial (heap : Nat → Block) : State σ :=
  { status := .running, thread := .loop, links := fun _ => none, free := fun i => some (heap i) }

def setLink (s : State σ) (nc : Nc) (l : Link σ) : State σ :=
  { s with links := Function.update s.links nc (some l) }

def setConn (s : State σ) (nc : Nc) (l : Link σ) (c : Connection) : State σ :=
  s.setLink nc { l with conn := c }

def goto (s : State σ) (t : Thread) : State σ := { s with thread := t }

def die (s : State σ) (reason : String) : State σ := { s with status := .died reason }

/-- `malloc` of two blocks. -/
def take (s : State σ) (i j : Nat) : State σ :=
  { s with free := Function.update (Function.update s.free i none) j none }

/-- The connection is gone and its buffers are free, with what they hold. -/
def release (s : State σ) (nc : Nc) (l : Link σ) : State σ :=
  { s with
    links := Function.update s.links nc none,
    free := Function.update (Function.update s.free l.sendAt (some l.conn.sendBuff)) l.recvAt
      (some l.conn.recvBuff) }

/-- A statement of `case IBV_WC_RECV`: `f` on the connection the completion's
`wr_id` points to; `fails` is what becomes of the process if `f` does not
succeed. -/
def onConn (s : State σ) (nc : Nc) (f : Connection → Option Connection) (next : Thread)
    (fails : Status) : State σ :=
  match s.links nc with
  | none => { s with status := .undefined }
  | some l =>
    match f l.conn with
    | some c => (s.setConn nc l c).goto next
    | none => { s with status := fails }

@[simp] theorem take_thread (s : State σ) (i j : Nat) : (s.take i j).thread = s.thread := rfl
@[simp] theorem take_links (s : State σ) (i j : Nat) : (s.take i j).links = s.links := rfl

section Everywhere

/-! What holds of every connection, given what the thread has to do with it:
`f c` is the part of the thread's position that concerns `c`. -/

variable {β : Type} (f : Nc → Thread → β) (R : β → Link σ → Prop) {s : State σ}

/-- One connection changes and the thread goes on. -/
theorem forall_setLink (hs : ∀ c l, s.links c = some l → R (f c s.thread) l) {c : Nc} {l : Link σ}
    {t : Thread} (hself : R (f c t) l) (hothers : ∀ c', c' ≠ c → f c' t = f c' s.thread) :
    ∀ c' l', ((s.setLink c l).goto t).links c' = some l' → R (f c' t) l' := by
  intro c' l' hl'
  by_cases hc : c' = c
  · subst hc
    simp only [goto, setLink, Function.update_self, Option.some.injEq] at hl'
    exact hl' ▸ hself
  · simp only [goto, setLink, Function.update_of_ne hc] at hl'
    rw [hothers c' hc]
    exact hs c' l' hl'

/-- The thread goes on. -/
theorem forall_goto (hs : ∀ c l, s.links c = some l → R (f c s.thread) l) {t : Thread}
    (hpart : ∀ c, f c t = f c s.thread) :
    ∀ c l, (s.goto t).links c = some l → R (f c t) l := by
  intro c l hl
  rw [hpart c]
  exact hs c l hl

/-- A connection goes. -/
theorem forall_release (hs : ∀ c l, s.links c = some l → R (f c s.thread) l) (nc : Nc)
    (k : Link σ) : ∀ c l, (s.release nc k).links c = some l → R (f c s.thread) l := by
  intro c l hl
  simp only [release, Function.update_apply] at hl
  split at hl
  · cases hl
  · exact hs c l hl

end Everywhere

end State

/-- `setup_connection` and `handle_new_request`. -/
def setupStep (P : Peer ρ σ α) (s : State σ) (nc : Nc) (l : Link σ) :
    SetupPc → Result → State σ
  | .reqNotify, .ok => (s.setConn nc l l.conn.reqNotify).goto (.setup nc .createQp)
  | .reqNotify, .fail => s.die reqNotifyDie
  | .createQp, .ok => s.goto (.setup nc .postRecv)
  | .createQp, .fail => s.die createQpDie
  | .postRecv, _ =>
    match l.conn.postRecv with
    | some c => (s.setConn nc l c).goto (.setup nc .register)
    | none => s.die firstRecvDie
  | .register, .ok => s.goto (.setup nc .accept)
  | .register, .fail => s.die registerDie
  | .accept, .ok => (s.setLink nc { l with peer := P.established l.peer }).goto .loop
  | .accept, .fail => s.die acceptDie

/-- What the thread does with the completion at the head of the `for` loop. -/
def dispatchPc (wc : Wc Nc) (wcs : List (Wc Nc)) : CqEventPc :=
  match wc.opcode with
  | .send => .dispatch wcs
  | .recv => .copy wc.wrId wcs
  | .other _ => .dispatch wcs

/-- `handle_cq_event`, without `ibv_poll_cq`. -/
def cqEventStep (s : State σ) (cc : Nc) : CqEventPc → Result → Option (State σ)
  | .ack, _ => some (s.goto (.cqEvent cc .reqNotify))
  | .reqNotify, .ok =>
    (s.links cc).map fun l => (s.setConn cc l l.conn.reqNotify).goto (.cqEvent cc .poll)
  | .reqNotify, .fail => some (s.goto .loop)
  | .poll, .ok => none
  | .poll, .fail => some (s.goto .loop)
  | .dispatch [], _ => some (s.goto (.cqEvent cc .poll))
  | .dispatch (wc :: wcs), _ =>
    (s.links cc).map fun l =>
      (s.setLink cc { l with handled := l.handled ++ [wc] }).goto
        (.cqEvent cc (dispatchPc wc wcs))
  | .copy nc wcs, _ =>
    some (s.onConn nc Connection.echo (.cqEvent cc (.postRecv nc wcs)) .undefined)
  | .postRecv nc wcs, _ =>
    some (s.onConn nc Connection.postRecv (.cqEvent cc (.postSend nc wcs)) (.died postRecvDie))
  | .postSend nc wcs, _ =>
    some (s.onConn nc Connection.postSend (.cqEvent cc (.dispatch wcs)) (.died postSendDie))

/-- `ibv_poll_cq` in `handle_cq_event`: zero only from an empty queue. -/
def pollStep (s : State σ) (cc : Nc) (l : Link σ) (n : Nat) : Option (State σ) :=
  if n = 0 then
    if l.conn.ep.cq.entries = [] then some (s.goto .loop) else none
  else if n ≤ maxBatch ∧ n ≤ l.conn.ep.cq.entries.length then
    some ((s.setConn cc l (l.conn.poll n)).goto
      (.cqEvent cc (.dispatch (l.conn.ep.cq.taken n))))
  else none

def step (P : Peer ρ σ α) (s : State σ) (a : Action ρ α) : Option (State σ) :=
  match a with
  | .peer nc a =>
    (s.links nc).bind fun l => (P.step l.peer a).map fun q => s.setLink nc { l with peer := q }
  | .connect nc i j a =>
    if s.status = .running ∧ s.thread = .loop ∧ (s.links nc).isNone ∧ i ≠ j then
      (s.free i).bind fun r => (s.free j).map fun b =>
        ((s.take i j).setLink nc
          { conn := .create nc nc r b, recvAt := i, sendAt := j, peer := P.fresh a,
            handled := [] }).goto (.setup nc .reqNotify)
    else none
  | .disconnect nc =>
    if s.status = .running ∧ s.thread = .loop then
      (s.links nc).map fun l => s.release nc l
    else none
  | .cqEvent cc =>
    if s.status = .running ∧ s.thread = .loop then
      (s.links cc).bind fun l => l.conn.ep.cq.getEvent.map fun q =>
        (s.setConn cc l { l.conn with ep := { l.conn.ep with cq := q } }).goto (.cqEvent cc .ack)
    else none
  | .server r =>
    if s.status = .running then
      match s.thread with
      | .loop => none
      | .setup nc pc => (s.links nc).map fun l => setupStep P s nc l pc r
      | .cqEvent cc pc => cqEventStep s cc pc r
    else none
  | .poll n =>
    if s.status = .running then
      match s.thread with
      | .cqEvent cc .poll => (s.links cc).bind fun l => pollStep s cc l n
      | _ => none
    else none
  | .hca nc m =>
    if s.status = .running then
      (s.links nc).bind fun l => (l.conn.hca m).map fun c => s.setConn nc l c
    else none
  | .toServer nc opcode =>
    if s.status = .running then
      (s.links nc).bind fun l =>
        (P.offer l.peer).bind fun p =>
          if l.conn.ep.ready then
            some (s.setLink nc { l with
              conn := l.conn.receive opcode p, peer := P.sent l.peer })
          else none
    else none
  | .toPeer nc =>
    if s.status = .running then
      (s.links nc).bind fun l =>
        l.conn.ep.outgoing.bind fun p =>
          if P.accepts l.peer then
            some (s.setLink nc { l with
              conn := l.conn.delivered, peer := P.receive p l.peer })
          else none
    else none

/-! ## Runs to start from -/

/-- A connection from `CONNECT_REQUEST` to the end of `handle_new_request`. -/
def setUp (nc : Nc) (recvAt sendAt : Nat) (a : ρ) : List (Action ρ α) :=
  [.connect nc recvAt sendAt a, .server .ok, .server .ok, .server .ok, .server .ok, .server .ok]

/-! ## What each step does -/

/-- `step`, statement by statement: where the thread is, what holds before,
and what is different after. -/
inductive Step (P : Peer ρ σ α) (s : State σ) : Action ρ α → State σ → Prop where
  | connect {nc i j a r b} (hthread : s.thread = .loop) (hnew : s.links nc = none)
      (hr : s.free i = some r) (hb : s.free j = some b) (hij : i ≠ j) :
      Step P s (.connect nc i j a)
        (((s.take i j).setLink nc
          { conn := .create nc nc r b, recvAt := i, sendAt := j, peer := P.fresh a,
            handled := [] }).goto (.setup nc .reqNotify))
  | disconnect {nc l} (hthread : s.thread = .loop) (hl : s.links nc = some l) :
      Step P s (.disconnect nc) (s.release nc l)
  | setupArm {nc l} (hthread : s.thread = .setup nc .reqNotify) (hl : s.links nc = some l) :
      Step P s (.server .ok) ((s.setConn nc l l.conn.reqNotify).goto (.setup nc .createQp))
  | createQp {nc} (hthread : s.thread = .setup nc .createQp) :
      Step P s (.server .ok) (s.goto (.setup nc .postRecv))
  | firstRecv {nc l c r} (hthread : s.thread = .setup nc .postRecv) (hl : s.links nc = some l)
      (hc : l.conn.postRecv = some c) :
      Step P s (.server r) ((s.setConn nc l c).goto (.setup nc .register))
  | register {nc} (hthread : s.thread = .setup nc .register) :
      Step P s (.server .ok) (s.goto (.setup nc .accept))
  | accept {nc l} (hthread : s.thread = .setup nc .accept) (hl : s.links nc = some l) :
      Step P s (.server .ok)
        ((s.setLink nc { l with peer := P.established l.peer }).goto .loop)
  | setupFails {nc pc} (hthread : s.thread = .setup nc pc) (hpc : pc ≠ .postRecv)
      (reason : String) (hreason : reason ∈ setupDies) : Step P s (.server .fail) (s.die reason)
  | firstRecvFails {nc l r} (hthread : s.thread = .setup nc .postRecv) (hl : s.links nc = some l)
      (hc : l.conn.postRecv = none) : Step P s (.server r) (s.die firstRecvDie)
  | cqEvent {cc l} (hthread : s.thread = .loop) (hl : s.links cc = some l)
      (hev : 0 < l.conn.ep.cq.events) :
      Step P s (.cqEvent cc)
        ((s.setConn cc l { l.conn with ep := { l.conn.ep with
            cq := { l.conn.ep.cq with events := l.conn.ep.cq.events - 1 } } }).goto
          (.cqEvent cc .ack))
  | ack {cc r} (hthread : s.thread = .cqEvent cc .ack) :
      Step P s (.server r) (s.goto (.cqEvent cc .reqNotify))
  | arm {cc l} (hthread : s.thread = .cqEvent cc .reqNotify) (hl : s.links cc = some l) :
      Step P s (.server .ok) ((s.setConn cc l l.conn.reqNotify).goto (.cqEvent cc .poll))
  | armFails {cc} (hthread : s.thread = .cqEvent cc .reqNotify) :
      Step P s (.server .fail) (s.goto .loop)
  | pollFails {cc} (hthread : s.thread = .cqEvent cc .poll) :
      Step P s (.server .fail) (s.goto .loop)
  | pollEmpty {cc l} (hthread : s.thread = .cqEvent cc .poll) (hl : s.links cc = some l)
      (hempty : l.conn.ep.cq.entries = []) : Step P s (.poll 0) (s.goto .loop)
  | poll {cc l n} (hthread : s.thread = .cqEvent cc .poll) (hl : s.links cc = some l)
      (hpos : 0 < n) (hmax : n ≤ maxBatch) (hlen : n ≤ l.conn.ep.cq.entries.length) :
      Step P s (.poll n)
        ((s.setConn cc l (l.conn.poll n)).goto (.cqEvent cc (.dispatch (l.conn.ep.cq.taken n))))
  | done {cc r} (hthread : s.thread = .cqEvent cc (.dispatch [])) :
      Step P s (.server r) (s.goto (.cqEvent cc .poll))
  | dispatch {cc l wc wcs r} (hthread : s.thread = .cqEvent cc (.dispatch (wc :: wcs)))
      (hl : s.links cc = some l) :
      Step P s (.server r)
        ((s.setLink cc { l with handled := l.handled ++ [wc] }).goto
          (.cqEvent cc (dispatchPc wc wcs)))
  | copy {cc nc wcs l c r} (hthread : s.thread = .cqEvent cc (.copy nc wcs))
      (hl : s.links nc = some l) (hc : l.conn.echo = some c) :
      Step P s (.server r) ((s.setConn nc l c).goto (.cqEvent cc (.postRecv nc wcs)))
  | postRecv {cc nc wcs l c r} (hthread : s.thread = .cqEvent cc (.postRecv nc wcs))
      (hl : s.links nc = some l) (hc : l.conn.postRecv = some c) :
      Step P s (.server r) ((s.setConn nc l c).goto (.cqEvent cc (.postSend nc wcs)))
  | postSend {cc nc wcs l c r} (hthread : s.thread = .cqEvent cc (.postSend nc wcs))
      (hl : s.links nc = some l) (hc : l.conn.postSend = some c) :
      Step P s (.server r) ((s.setConn nc l c).goto (.cqEvent cc (.dispatch wcs)))
  | copyFails {cc nc wcs l r} (hthread : s.thread = .cqEvent cc (.copy nc wcs))
      (hl : s.links nc = some l) (hc : l.conn.echo = none) :
      Step P s (.server r) { s with status := .undefined }
  | postRecvFails {cc nc wcs l r} (hthread : s.thread = .cqEvent cc (.postRecv nc wcs))
      (hl : s.links nc = some l) (hc : l.conn.postRecv = none) :
      Step P s (.server r) (s.die postRecvDie)
  | postSendFails {cc nc wcs l r} (hthread : s.thread = .cqEvent cc (.postSend nc wcs))
      (hl : s.links nc = some l) (hc : l.conn.postSend = none) :
      Step P s (.server r) (s.die postSendDie)
  /-- The `wr_id` of a completion points to no connection. -/
  | stray {cc nc wcs pc r} (hthread : s.thread = .cqEvent cc pc)
      (hpc : pc = .copy nc wcs ∨ pc = .postRecv nc wcs ∨ pc = .postSend nc wcs)
      (hl : s.links nc = none) : Step P s (.server r) { s with status := .undefined }
  | hca {nc l m c} (hl : s.links nc = some l) (hc : l.conn.hca m = some c) :
      Step P s (.hca nc m) (s.setConn nc l c)
  | toServer {nc l opcode p} (hl : s.links nc = some l) (hoffer : P.offer l.peer = some p)
      (hready : l.conn.ep.ready = true) :
      Step P s (.toServer nc opcode)
        (s.setLink nc { l with conn := l.conn.receive opcode p, peer := P.sent l.peer })
  | toPeer {nc l p} (hl : s.links nc = some l) (hout : l.conn.ep.outgoing = some p)
      (hacc : P.accepts l.peer = true) :
      Step P s (.toPeer nc)
        (s.setLink nc { l with conn := l.conn.delivered, peer := P.receive p l.peer })
  | peer {nc l a q} (hl : s.links nc = some l) (hq : P.step l.peer a = some q) :
      Step P s (.peer nc a) (s.setLink nc { l with peer := q })

theorem Step.of_setup {s t : State σ} {nc : Nc} {pc : SetupPc} {r : Result}
    (hthread : s.thread = .setup nc pc)
    (h : (s.links nc).map (fun l => setupStep P s nc l pc r) = some t) :
    Step P s (.server r) t := by
  obtain ⟨l, hl, rfl⟩ := Option.map_eq_some_iff.mp h
  cases pc with
  | postRecv =>
    simp only [setupStep]
    cases hc : l.conn.postRecv with
    | none => exact .firstRecvFails hthread hl hc
    | some c => exact .firstRecv hthread hl hc
  | reqNotify =>
    cases r with
    | ok => exact .setupArm hthread hl
    | fail => exact .setupFails hthread (by decide) _ (by simp [setupDies])
  | createQp =>
    cases r with
    | ok => exact .createQp hthread
    | fail => exact .setupFails hthread (by decide) _ (by simp [setupDies])
  | register =>
    cases r with
    | ok => exact .register hthread
    | fail => exact .setupFails hthread (by decide) _ (by simp [setupDies])
  | accept =>
    cases r with
    | ok => exact .accept hthread hl
    | fail => exact .setupFails hthread (by decide) _ (by simp [setupDies])

theorem Step.of_cqEvent {s t : State σ} {cc : Nc} {pc : CqEventPc} {r : Result}
    (hthread : s.thread = .cqEvent cc pc) (h : cqEventStep s cc pc r = some t) :
    Step P s (.server r) t := by
  cases pc with
  | ack => cases h; exact .ack hthread
  | reqNotify =>
    cases r with
    | ok =>
      obtain ⟨l, hl, rfl⟩ := Option.map_eq_some_iff.mp h
      exact .arm hthread hl
    | fail => cases h; exact .armFails hthread
  | poll =>
    cases r with
    | ok => cases h
    | fail => cases h; exact .pollFails hthread
  | dispatch wcs =>
    cases wcs with
    | nil => cases h; exact .done hthread
    | cons wc wcs =>
      obtain ⟨l, hl, rfl⟩ := Option.map_eq_some_iff.mp h
      exact .dispatch hthread hl
  | copy nc wcs =>
    cases h
    simp only [State.onConn]
    cases hl : s.links nc with
    | none => exact .stray hthread (.inl rfl) hl
    | some l =>
      cases hc : l.conn.echo with
      | none => simpa only [hc] using .copyFails hthread hl hc
      | some c => simpa only [hc] using .copy hthread hl hc
  | postRecv nc wcs =>
    cases h
    simp only [State.onConn]
    cases hl : s.links nc with
    | none => exact .stray hthread (.inr (.inl rfl)) hl
    | some l =>
      cases hc : l.conn.postRecv with
      | none => simpa only [hc] using .postRecvFails hthread hl hc
      | some c => simpa only [hc] using .postRecv hthread hl hc
  | postSend nc wcs =>
    cases h
    simp only [State.onConn]
    cases hl : s.links nc with
    | none => exact .stray hthread (.inr (.inr rfl)) hl
    | some l =>
      cases hc : l.conn.postSend with
      | none => simpa only [hc] using .postSendFails hthread hl hc
      | some c => simpa only [hc] using .postSend hthread hl hc

theorem Step.of_poll {s t : State σ} {cc : Nc} {n : Nat} (hthread : s.thread = .cqEvent cc .poll)
    (h : ((s.links cc).bind fun l => pollStep s cc l n) = some t) : Step P s (.poll n) t := by
  obtain ⟨l, hl, h⟩ := Option.bind_eq_some_iff.mp h
  unfold pollStep at h
  split at h
  · rename_i hn
    split at h
    · cases h
      subst hn
      exact .pollEmpty hthread hl ‹_›
    · cases h
  · rename_i hn
    split at h
    · rename_i hle
      cases h
      exact .poll hthread hl (Nat.pos_of_ne_zero hn) hle.1 hle.2
    · cases h

theorem Step.of_step {s t : State σ} {a : Action ρ α} (h : step P s a = some t) :
    Step P s a t := by
  cases a with
  | peer nc a =>
    simp only [step, Option.bind_eq_some_iff, Option.map_eq_some_iff] at h
    obtain ⟨l, hl, q, hq, rfl⟩ := h
    exact .peer hl hq
  | connect nc i j a =>
    simp only [step] at h
    split at h
    · rename_i hg
      simp only [Option.bind_eq_some_iff, Option.map_eq_some_iff] at h
      obtain ⟨r, hr, b, hb, rfl⟩ := h
      exact .connect hg.2.1 (by simpa using hg.2.2.1) hr hb hg.2.2.2
    · cases h
  | disconnect nc =>
    simp only [step] at h
    split at h
    · rename_i hg
      obtain ⟨l, hl, rfl⟩ := Option.map_eq_some_iff.mp h
      exact .disconnect hg.2 hl
    · cases h
  | cqEvent cc =>
    simp only [step] at h
    split at h
    · rename_i hg
      simp only [Option.bind_eq_some_iff, Option.map_eq_some_iff] at h
      obtain ⟨l, hl, q, hq, rfl⟩ := h
      obtain ⟨hev, rfl⟩ := Cq.getEvent_eq_some hq
      exact .cqEvent hg.2 hl hev
    · cases h
  | server r =>
    simp only [step] at h
    split at h
    · split at h
      · cases h
      · exact .of_setup ‹_› h
      · exact .of_cqEvent ‹_› h
    · cases h
  | poll n =>
    simp only [step] at h
    split at h
    · split at h
      · exact .of_poll ‹_› h
      · cases h
    · cases h
  | hca nc m =>
    simp only [step] at h
    split at h
    · simp only [Option.bind_eq_some_iff, Option.map_eq_some_iff] at h
      obtain ⟨l, hl, c, hc, rfl⟩ := h
      exact .hca hl hc
    · cases h
  | toServer nc opcode =>
    simp only [step] at h
    split at h
    · simp only [Option.bind_eq_some_iff] at h
      obtain ⟨l, hl, p, hp, h⟩ := h
      split at h
      · cases h
        exact .toServer hl hp ‹_›
      · cases h
    · cases h
  | toPeer nc =>
    simp only [step] at h
    split at h
    · simp only [Option.bind_eq_some_iff] at h
      obtain ⟨l, hl, p, hp, h⟩ := h
      split at h
      · cases h
        exact .toPeer hl hp ‹_›
      · cases h
    · cases h

end RdmaTutorial.Rdmacm05
