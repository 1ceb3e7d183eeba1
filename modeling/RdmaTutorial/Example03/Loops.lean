import RdmaTutorial.Common
import RdmaTutorial.Example03.Exchange

/-!
# example03: the message loops

`main` of client.c and of server.c behind the exchange, over the two queue
pairs. Each side has one buffer, for what it sends and for what it receives.
The HCA reads a send from it at some moment before the delivery, and as often as
it likes until the completion; a read after the delivery changes nothing, as the
receiver takes each message once.

`polled`, `echoes`, `got` and `received` are history variables.
-/

namespace RdmaTutorial.Example03

open CString Verbs

/-- `RDMA_BUFFER_SIZE`. -/
def rdmaBufferSize : Nat := 1024

/-- `max_send_wr` and `max_recv_wr`. -/
def maxSendWr : Nat := 10
def maxRecvWr : Nat := 10

/-- A work request: its `wr_id` and the length of its one element. -/
structure WorkRequest where
  wrId : Nat
  length : Nat
  deriving DecidableEq, Repr

/-- What the loops use of `struct rdma_context`. -/
structure Context where
  buf : Buffer rdmaBufferSize
  ep : Endpoint WorkRequest (List UInt8)

namespace Context

/-- The context `build_rdma_resources` has made. -/
def create : Context := { buf := .fill _ 0, ep := .create .create }

def postReceive (c : Context) : Option Context :=
  (c.ep.postRecv maxRecvWr ⟨0, rdmaBufferSize⟩).map fun e => { c with ep := e }

def postSend (len : Nat) (c : Context) : Option Context :=
  (c.ep.postSend maxSendWr ⟨1, len⟩).map fun e => { c with ep := e }

/-- `ibv_poll_cq` hands out `n` completions. -/
def poll (n : Nat) (c : Context) : Context := { c with ep := c.ep.poll n }

/-- The HCA reads the bytes of a send, for the first time or again. The sends that
have been delivered and are not complete come behind those that wait; what the
HCA reads of one of them, and sends again, the receiver drops. -/
def read (k : Nat) (c : Context) : Option Context :=
  if c.ep.failed then none
  else
    match c.ep.sq[k]? with
    | some x =>
      some { c with ep := { c.ep with
        sq := c.ep.sq.set k ⟨x.wrId, some (c.buf.bytes.take x.wrId.length)⟩ } }
    | none => if k < c.ep.sq.length + c.ep.sendDone.length then some c else none

/-- A move of the HCA at this end. -/
def hca (c : Context) : Hca → Option Context
  | .read k => c.read k
  | m => (c.ep.hca [] m).map fun e => { c with ep := e }

/-- The oldest send has been delivered. -/
def delivered (c : Context) : Context := { c with ep := c.ep.delivered }

/-- A message arrives in the posted receive. -/
def receive (p : List UInt8) (c : Context) : Context :=
  { buf := c.buf.write p,
    ep := if p.length ≤ rdmaBufferSize then c.ep.arrive p.length else c.ep.overrun .recv }

end Context

/-! ## The client -/

/-- `%d` of a value that is not negative. -/
def formatD (i : Nat) : List UInt8 :=
  if i = 0 then [48] else ((Nat.digits 10 i).map digitChar).reverse

/-- `"Message from client #%d"`. -/
def clientText (k : Nat) : List UInt8 :=
  [77, 101, 115, 115, 97, 103, 101, 32, 102, 114, 111, 109, 32, 99, 108, 105, 101, 110, 116, 32,
    35] ++ formatD k

/-- The next statement of the client; `k` is `msg_count`. -/
inductive ClientPc where
  /-- `snprintf(res.buf, ..)`. -/
  | compose (k : Nat)
  | postReceive (k len : Nat)
  | postSend (k len : Nat)
  /-- `ibv_poll_cq(res.cq, 2, wc)`. -/
  | poll (k completions : Nat)
  /-- The loop over the `n` completions it has returned, of which `wcs` are left. -/
  | handle (k completions n : Nat) (wcs : List (Wc WorkRequest))
  /-- `msg_count++`. -/
  | next (k : Nat)
  /-- `msg_count` is the largest `int`, and is incremented. -/
  | overflow (k : Nat)
  | died (k : Nat) (reason : String)
  deriving DecidableEq, Repr

/-- `polled` are the `wr_id`s polled in this iteration, `echoes` the strings
printed as echoes, each with its `msg_count`, `got` the messages that have
arrived. -/
structure ClientLoop where
  pc : ClientPc
  ctx : Context
  polled : List Nat
  echoes : List (Nat × List UInt8)
  got : List (List UInt8)

namespace ClientLoop

def initial : ClientLoop :=
  { pc := .compose 0, ctx := .create, polled := [], echoes := [], got := [] }

def goto (c : ClientLoop) (pc : ClientPc) : ClientLoop := { c with pc := pc }

/-- The next statement; `r` is what the call in it returned, and `n` the number
of completions `ibv_poll_cq` hands out. -/
def exec (c : ClientLoop) (r : Result) (n : Nat) : Option ClientLoop :=
  match c.pc, r with
  | .compose k, _ =>
    some { c with
      ctx := { c.ctx with buf := c.ctx.buf.snprint (clientText k) },
      pc := .postReceive k (clientText k).length }
  | .postReceive k len, .ok =>
    match c.ctx.postReceive with
    | some x => some { c with ctx := x, pc := .postSend k len }
    | none => some (c.goto (.died k "post_receive failed"))
  | .postReceive k _, .fail => some (c.goto (.died k "post_receive failed"))
  | .postSend k len, .ok =>
    match c.ctx.postSend (len + 1) with
    | some x => some { c with ctx := x, pc := .poll k 0 }
    | none => some (c.goto (.died k "post_send failed"))
  | .postSend k _, .fail => some (c.goto (.died k "post_send failed"))
  | .poll k completions, .ok =>
    if n ≤ 2 ∧ n ≤ c.ctx.ep.cq.entries.length then
      some { c with
        ctx := c.ctx.poll n,
        polled := c.polled ++ (c.ctx.ep.cq.taken n).map (·.wrId.wrId),
        pc := .handle k completions n (c.ctx.ep.cq.taken n) }
    else none
  | .poll k _, .fail => some (c.goto (.died k "poll_cq failed"))
  | .handle k completions n (wc :: wcs), _ =>
    if wc.status ≠ .success then
      some (c.goto (.died k "Work completion status is not success"))
    else
      some { c with
        echoes :=
          if wc.wrId.wrId = 0 then c.echoes ++ [(k, cstr c.ctx.buf.bytes)] else c.echoes,
        pc := .handle k completions n wcs }
  | .handle k completions n [], _ =>
    some (c.goto (if completions + n < 2 then .poll k (completions + n) else .next k))
  | .next k, _ =>
    if k + 1 < 2 ^ 31 then some { c with pc := .compose (k + 1), polled := [] }
    else some (c.goto (.overflow k))
  | .overflow _, _ => none
  | .died _ _, _ => none

end ClientLoop

/-! ## The server -/

/-- The next statement of the server. -/
inductive ServerPc where
  | postReceive
  /-- The first `ibv_poll_cq(res.cq, 1, &wc)`, until it returns a completion. -/
  | pollRecv
  /-- The tests of `wc.status` and `wc.opcode`. -/
  | received (wc : Wc WorkRequest)
  | postSend (len : Nat)
  /-- The second `ibv_poll_cq(res.cq, 1, &wc)`. -/
  | pollSend
  /-- The test of `wc.status`. -/
  | sent (wc : Wc WorkRequest)
  | died (reason : String)
  deriving DecidableEq, Repr

/-- `received` are the strings printed, each with its `byte_len`. -/
structure ServerLoop where
  pc : ServerPc
  ctx : Context
  received : List (List UInt8 × Nat)

namespace ServerLoop

def initial : ServerLoop := { pc := .postReceive, ctx := .create, received := [] }

def goto (s : ServerLoop) (pc : ServerPc) : ServerLoop := { s with pc := pc }

/-- `ibv_poll_cq(res.cq, 1, &wc)`: polls again on an empty queue. -/
def pollOne (s : ServerLoop) (next : Wc WorkRequest → ServerPc) : ServerLoop :=
  match s.ctx.ep.cq.entries with
  | [] => s
  | x :: _ => { s with ctx := s.ctx.poll 1, pc := next x.wc }

def exec (s : ServerLoop) (r : Result) : Option ServerLoop :=
  match s.pc, r with
  | .postReceive, .ok =>
    match s.ctx.postReceive with
    | some x => some { s with ctx := x, pc := .pollRecv }
    | none => some (s.goto (.died "post_receive failed"))
  | .postReceive, .fail => some (s.goto (.died "post_receive failed"))
  | .pollRecv, .ok => some (s.pollOne .received)
  | .pollRecv, .fail => some (s.goto (.died "poll_cq failed on receive"))
  | .received wc, _ =>
    if wc.status ≠ .success then some (s.goto (.died "poll_cq failed on receive"))
    else if wc.opcode = .recv then
      some { s with
        received := s.received ++ [(cstr s.ctx.buf.bytes, wc.byteLen)],
        pc := .postSend wc.byteLen }
    else some (s.goto .postReceive)
  | .postSend len, .ok =>
    match s.ctx.postSend len with
    | some x => some { s with ctx := x, pc := .pollSend }
    | none => some (s.goto (.died "post_send failed"))
  | .postSend _, .fail => some (s.goto (.died "post_send failed"))
  | .pollSend, .ok => some (s.pollOne .sent)
  | .pollSend, .fail => some (s.goto (.died "poll_cq failed on send"))
  | .sent wc, _ =>
    if wc.status ≠ .success then some (s.goto (.died "poll_cq failed on send"))
    else some (s.goto .postReceive)
  | .died _, _ => none

end ServerLoop

/-! ## Both, with the transport -/

structure Loops where
  client : ClientLoop
  server : ServerLoop

namespace Loops

inductive Action where
  | client (r : Result) (n : Nat)
  | server (r : Result)
  | clientHca (m : Hca)
  | serverHca (m : Hca)
  /-- The client's oldest message arrives. -/
  | toServer
  /-- The server's oldest message arrives. -/
  | toClient
  deriving DecidableEq

/-- Both queue pairs are in RTS. -/
def initial : Loops := { client := .initial, server := .initial }

def step (s : Loops) : Action → Option Loops
  | .client r n => (s.client.exec r n).map fun c => { s with client := c }
  | .server r => (s.server.exec r).map fun v => { s with server := v }
  | .clientHca m =>
    (s.client.ctx.hca m).map fun x => { s with client := { s.client with ctx := x } }
  | .serverHca m =>
    (s.server.ctx.hca m).map fun x => { s with server := { s.server with ctx := x } }
  | .toServer =>
    s.client.ctx.ep.outgoing.bind fun p =>
      if s.server.ctx.ep.ready then
        some {
          client := { s.client with ctx := s.client.ctx.delivered },
          server := { s.server with ctx := s.server.ctx.receive p } }
      else none
  | .toClient =>
    s.server.ctx.ep.outgoing.bind fun p =>
      if s.client.ctx.ep.ready then
        some {
          client := { s.client with ctx := s.client.ctx.receive p, got := s.client.got ++ [p] },
          server := { s.server with ctx := s.server.ctx.delivered } }
      else none

/-- No completion is unsuccessful. -/
def Succeeds : Action → Prop
  | .clientHca m => m.Succeeds
  | .serverHca m => m.Succeeds
  | _ => True

instance : DecidablePred Succeeds := fun a => by
  unfold Succeeds
  split <;> infer_instance

end Loops

end RdmaTutorial.Example03
