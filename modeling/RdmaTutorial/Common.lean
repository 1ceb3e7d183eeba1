import Mathlib.Data.Nat.Digits.Lemmas
import RdmaTutorial.Lib.CString
import RdmaTutorial.Lib.Verbs

/-!
# common.h and common.c

`struct connection` and `setup_connection`, which the clients and the servers
of rdmacm03, rdmacm04 and rdmacm05 share, and the text the clients send.

Only what the message loops read is kept of `struct connection`: the two
buffers, the `wr_id`s of the two work requests, and the queue pair with its
completion queue. Each work request has one element that covers all of its
buffer (`recv_sge.length`, `send_sge.length` are `BUFFER_SIZE`).
-/

namespace RdmaTutorial

open CString Verbs

/-- `BUFFER_SIZE`. -/
abbrev bufferSize : Nat := 1024

/-- A block of `BUFFER_SIZE` bytes. -/
abbrev Block := Buffer bufferSize

/-- A block of zeros. -/
def zeros : Block := .fill _ 0

/-- `qp_attr.cap.max_send_wr` and `qp_attr.cap.max_recv_wr`. -/
def maxSendWr : Nat := 10
def maxRecvWr : Nat := 10

/-- The entries asked of `ibv_create_cq`. -/
def cqEntries : Nat := 10

/-- The address of a `struct connection`. -/
abbrev Nc := Nat

/-- The bytes of one message on the wire. -/
abbrev Payload := List UInt8

/-- The reason `IF_NZERO_DIE(x)` gives to `die`. -/
def ifNzeroDie (x : String) : String := "ERROR: " ++ x ++ " failed, return value not zero"

def reqNotifyDie : String := ifNzeroDie "ibv_req_notify_cq(nc->cq, 0)"
def createQpDie : String := ifNzeroDie "rdma_create_qp(cm_id, nc->pd, &qp_attr)"
def postRecvDie : String := ifNzeroDie "ibv_post_recv(nc->qp, &nc->recv_wr, &bad_rwr)"
def postSendDie : String := ifNzeroDie "ibv_post_send(nc->qp, &nc->send_wr, &bad_swr)"

/-- `struct connection`. -/
structure Connection where
  recvBuff : Block
  sendBuff : Block
  recvWrId : Nc
  sendWrId : Nc
  ep : Endpoint Nc Payload

namespace Connection

/-- What `setup_connection` has built before it arms the completion queue and
posts the first receive. `r` and `s` are the blocks `malloc` returned, with
whatever they hold. -/
def create (recvId sendId : Nc) (r s : Block) : Connection :=
  { recvBuff := r, sendBuff := s, recvWrId := recvId, sendWrId := sendId,
    ep := Endpoint.create Cq.create }

/-- `ibv_req_notify_cq(nc->cq, 0)`. -/
def reqNotify (c : Connection) : Connection := { c with ep := c.ep.reqNotify }

/-- `ibv_post_recv(nc->qp, &nc->recv_wr, ..)`. -/
def postRecv (c : Connection) : Option Connection :=
  (c.ep.postRecv maxRecvWr c.recvWrId).map fun e => { c with ep := e }

/-- `ibv_post_send(nc->qp, &nc->send_wr, ..)`. -/
def postSend (c : Connection) : Option Connection :=
  (c.ep.postSend maxSendWr c.sendWrId).map fun e => { c with ep := e }

/-- `ibv_poll_cq(nc->cq, ..)` hands out `n` completions. -/
def poll (n : Nat) (c : Connection) : Connection := { c with ep := c.ep.poll n }

/-- `strcpy(nc->send_buff, nc->recv_buff)`. -/
def echo (c : Connection) : Option Connection :=
  (Buffer.strcpy c.sendBuff c.recvBuff).map fun b => { c with sendBuff := b }

/-- A move of the HCA at this end: a read takes all of `send_buff`. -/
def hca (m : Hca) (c : Connection) : Option Connection :=
  (c.ep.hca c.sendBuff.bytes m).map fun e => { c with ep := e }

/-- The oldest send has been delivered. -/
def delivered (c : Connection) : Connection := { c with ep := c.ep.delivered }

/-- A message arrives in the posted receive and overwrites the first bytes of
`recv_buff`. One that does not fit ends in a length error, with an arbitrary
opcode. -/
def receive (opcode : WcOpcode) (p : Payload) (c : Connection) : Connection :=
  { c with
    recvBuff := c.recvBuff.write p,
    ep := if p.length ≤ bufferSize then c.ep.arrive p.length else c.ep.overrun opcode }

/-- `setup_connection`, when every call in it succeeds. -/
def setupConnection (recvId sendId : Nc) (r s : Block) : Option Connection :=
  (create recvId sendId r s).reqNotify.postRecv

/-! ## What each operation does -/

theorem postRecv_eq_some {c c' : Connection} (h : c.postRecv = some c') :
    c.ep.recvSlots < maxRecvWr ∧
      c' = { c with ep := { c.ep with rq := c.ep.rq ++ [c.recvWrId] } } := by
  simp only [postRecv, Option.map_eq_some_iff] at h
  obtain ⟨e, he, rfl⟩ := h
  obtain ⟨hlt, rfl⟩ := Endpoint.postRecv_eq_some he
  exact ⟨hlt, rfl⟩

theorem postSend_eq_some {c c' : Connection} (h : c.postSend = some c') :
    c.ep.sendSlots < maxSendWr ∧
      c' = { c with ep := { c.ep with sq := c.ep.sq ++ [⟨c.sendWrId, none⟩] } } := by
  simp only [postSend, Option.map_eq_some_iff] at h
  obtain ⟨e, he, rfl⟩ := h
  obtain ⟨hlt, rfl⟩ := Endpoint.postSend_eq_some he
  exact ⟨hlt, rfl⟩

theorem echo_eq_some {c c' : Connection} (h : c.echo = some c') :
    ∃ b, Buffer.strcpy c.sendBuff c.recvBuff = some b ∧ c' = { c with sendBuff := b } := by
  simp only [echo, Option.map_eq_some_iff] at h
  obtain ⟨b, hb, rfl⟩ := h
  exact ⟨b, hb, rfl⟩

theorem hca_eq_some {m : Hca} {c c' : Connection} (h : c.hca m = some c') :
    ∃ e, c.ep.hca c.sendBuff.bytes m = some e ∧ c' = { c with ep := e } := by
  simp only [hca, Option.map_eq_some_iff] at h
  obtain ⟨e, he, rfl⟩ := h
  exact ⟨e, he, rfl⟩

/-- Whether it fits or not, a message that arrives consumes one receive. -/
theorem receive_ep {c : Connection} {w : Nc} {q : List Nc} (h : c.ep.rq = w :: q)
    (opcode : WcOpcode) (p : Payload) : ∃ wc f, (c.receive opcode p).ep =
      { c.ep with rq := q, recvDone := c.ep.recvDone ++ [wc], failed := f } := by
  simp only [receive]
  split
  · rw [Endpoint.arrive_of_rq h]
    exact ⟨_, _, rfl⟩
  · rw [Endpoint.overrun_of_rq h]
    exact ⟨_, _, rfl⟩

end Connection

/-! ## The text of a client's message -/

/-- The character of a decimal digit. -/
def digitChar (d : Nat) : UInt8 := UInt8.ofNat (48 + d)

/-- `%02d` of a value that is not negative: at least two digits. -/
def format02d (i : Nat) : List UInt8 :=
  let ds := ((Nat.digits 10 i).map digitChar).reverse
  List.replicate (2 - ds.length) 48 ++ ds

/-- `"msg-%02d: hello"`. -/
def msgText (i : Nat) : List UInt8 :=
  [109, 115, 103, 45] ++ format02d i ++ [58, 32, 104, 101, 108, 108, 111]

theorem digitChar_ne_zero {d : Nat} (h : d < 10) : digitChar d ≠ 0 := by
  interval_cases d <;> decide

theorem zero_notMem_format02d (i : Nat) : 0 ∉ format02d i := by
  intro h
  simp only [format02d, List.mem_append, List.mem_replicate, List.mem_reverse, List.mem_map] at h
  rcases h with ⟨-, h⟩ | ⟨d, hd, h⟩
  · exact absurd h (by decide)
  · exact digitChar_ne_zero (Nat.digits_lt_base (by decide) hd) h

/-- The text holds no NUL. -/
theorem zero_notMem_msgText (i : Nat) : 0 ∉ msgText i := by
  simp only [msgText, List.mem_append, not_or]
  exact ⟨⟨by decide, zero_notMem_format02d i⟩, by decide⟩

/-- The text of every `int` fits in a buffer with its NUL. -/
theorem length_msgText_lt {i : Nat} (h : i < 2 ^ 31) : (msgText i).length < bufferSize := by
  have hd : (Nat.digits 10 i).length ≤ 10 :=
    (Nat.digits_length_le_iff (by decide) i).mpr (by omega)
  simp only [msgText, format02d, bufferSize, List.length_append, List.length_replicate,
    List.length_reverse, List.length_map, List.length_cons, List.length_nil]
  omega

end RdmaTutorial
