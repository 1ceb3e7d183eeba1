import RdmaTutorial.Peer

/-!
# client.c: the message loop

The clients of rdmacm03, rdmacm04 and rdmacm05 run one loop; rdmacm05 takes
the number of iterations from the command line, the others use 10. Each
constructor of `Pc` is the statement the program executes next, and `i` is the
loop variable.

`polled` is a history variable: the opcodes of the completions the program has
taken from the completion queue, each with the iteration it was taken in.
-/

namespace RdmaTutorial

open CString Verbs

/-- The bound of the loop, an `int`: 10, or the `count` of rdmacm05, whose
`main` lets only a positive one through. -/
abbrev Count := { n : Nat // n < 2 ^ 31 }

/-- One iteration. -/
def oneTime : Count := ⟨1, by decide⟩

/-- As often as the servers of rdmacm03 and rdmacm04 echo. -/
def tenTimes : Count := ⟨10, by decide⟩

namespace Client

/-- The statement the client executes next. -/
inductive Pc where
  /-- Before `RDMA_CM_EVENT_ESTABLISHED`. -/
  | connecting
  /-- `sprintf(nc->send_buff, "msg-%02d: hello", i)`. -/
  | compose (i : Nat)
  /-- `ibv_post_send`. -/
  | postSend (i : Nat)
  /-- The first polling loop of the iteration and the tests behind it. -/
  | pollSend (i : Nat)
  /-- `ibv_req_notify_cq` behind the first polling loop. -/
  | notifySend (i : Nat)
  /-- The second polling loop of the iteration and the tests behind it. -/
  | pollRecv (i : Nat)
  /-- `LOGF("received: %s\n", nc->recv_buff)`. -/
  | received (i : Nat)
  /-- `ibv_post_recv`. -/
  | postRecv (i : Nat)
  /-- `ibv_req_notify_cq` at the end of the iteration. -/
  | notifyRecv (i : Nat)
  /-- Behind the loop. -/
  | cleanup (i : Nat)
  /-- `die(reason)`. -/
  | died (i : Nat) (reason : String)
  deriving DecidableEq, Repr

end Client

structure Client where
  count : Count
  pc : Client.Pc
  conn : Connection
  polled : List (Nat × WcOpcode)

namespace Client

/-- The reasons the loop gives to `die`. -/
def unexpectedOpcode : String := "Unexpected opcode"
def pollFailed : String := "ibv_poll_cq"

/-- One polling loop with the tests behind it: spins on an empty queue, and
goes on to `next` only if the completion is a successful `expected`. -/
def pollFor (expected : WcOpcode) (i : Nat) (next : Pc) (c : Client) : Client :=
  match c.conn.ep.cq.entries with
  | [] => c
  | x :: _ =>
    { c with
      conn := c.conn.poll 1,
      polled := c.polled ++ [(i, x.wc.opcode)],
      pc :=
        if x.wc.status ≠ .success then .cleanup i
        else if x.wc.opcode = expected then next
        else .died i unexpectedOpcode }

/-- The next statement of the loop; `r` is what `ibv_poll_cq` or
`ibv_req_notify_cq` returned, where that is tested. -/
def exec (r : Result) (c : Client) : Option Client :=
  match c.pc, r with
  | .connecting, _ => none
  | .compose i, _ =>
    (c.conn.sendBuff.print (msgText i)).map fun b =>
      { c with conn := { c.conn with sendBuff := b }, pc := .postSend i }
  | .postSend i, _ =>
    match c.conn.postSend with
    | some nc => some { c with conn := nc, pc := .pollSend i }
    | none => some { c with pc := .died i postSendDie }
  | .pollSend i, .ok => some (c.pollFor .send i (.notifySend i))
  | .pollSend i, .fail => some { c with pc := .died i pollFailed }
  | .notifySend i, .ok => some { c with conn := c.conn.reqNotify, pc := .pollRecv i }
  | .notifySend i, .fail => some { c with pc := .cleanup i }
  | .pollRecv i, .ok => some (c.pollFor .recv i (.received i))
  | .pollRecv i, .fail => some { c with pc := .died i pollFailed }
  | .received i, _ => some { c with pc := .postRecv i }
  | .postRecv i, _ =>
    match c.conn.postRecv with
    | some nc => some { c with conn := nc, pc := .notifyRecv i }
    | none => some { c with pc := .died i postRecvDie }
  | .notifyRecv i, .ok =>
    some { c with
      conn := c.conn.reqNotify,
      pc := if i + 1 < c.count.val then .compose (i + 1) else .cleanup (i + 1) }
  | .notifyRecv i, .fail => some { c with pc := .cleanup i }
  | .cleanup _, _ => none
  | .died _ _, _ => none

/-- `sprintf` stays inside `send_buff`, so no iteration stops at it. -/
theorem print_msgText (b : Block) {i : Nat} (h : i < 2 ^ 31) : (b.print (msgText i)).isSome := by
  simp [Buffer.print, length_msgText_lt h]

inductive Action where
  | exec (r : Result)
  | hca (m : Hca)
  deriving DecidableEq

def step (c : Client) : Action → Option Client
  | .exec r => c.exec r
  | .hca m => (c.conn.hca m).map fun nc => { c with conn := nc }

/-- What a client starts from: its argument, and the two blocks and the
`wr_id`s `setup_connection` finds. -/
structure Args where
  count : Count
  recvId : Nc
  sendId : Nc
  recvBuff : Block
  sendBuff : Block

/-- The client when it calls `rdma_connect`. -/
def fresh (a : Args) : Client :=
  let nc := Connection.create a.recvId a.sendId a.recvBuff a.sendBuff
  match Connection.setupConnection a.recvId a.sendId a.recvBuff a.sendBuff with
  | some nc' => { count := a.count, pc := .connecting, conn := nc', polled := [] }
  | none => { count := a.count, pc := .died 0 postRecvDie, conn := nc, polled := [] }

/-- `RDMA_CM_EVENT_ESTABLISHED`: the loop begins. -/
def established (c : Client) : Client :=
  if c.pc = .connecting then
    { c with pc := if 0 < c.count.val then .compose 0 else .cleanup 0 }
  else c

/-- The client as the other end of a server's connection. -/
def peer : Peer Args Client Action where
  fresh := fresh
  established := established
  step := step
  offer c := c.conn.ep.outgoing
  sent c := { c with conn := c.conn.delivered }
  accepts c := c.conn.ep.ready
  receive p c := { c with conn := c.conn.receive .recv p }

end Client

end RdmaTutorial
