import Mathlib.Data.List.Basic

/-!
# Queue pairs, completion queues and completion channels

One end of a reliable connection: a send queue and a receive queue that
complete into one completion queue, which is bound to a completion channel.
The wire between two ends is not here; a program puts two ends together.

* A posted send waits in `sq` until it is delivered. Its bytes are read by
  the HCA at some moment in between (`payload` is `none` until then), so what
  is sent is what the buffer holds at that moment, not at the post.
* A posted receive waits in `rq` until a message consumes it.
* Consumed receives and delivered sends wait in `recvDone` and `sendDone`
  until their completion appears in the completion queue; the two lists
  are independent, so no order holds between sends and receives.
* Arming is one-shot: the next completion added to an armed queue queues one
  event on the channel and disarms the queue.
* An end in the error state (`failed`) moves no more messages and flushes
  what is posted; the opcode of an unsuccessful completion is arbitrary.
-/

namespace Verbs

/-- What holds of all entries of a queue and of one more holds of the longer
queue. -/
theorem forall_mem_concat {γ : Type*} {p : γ → Prop} {l : List γ} {a : γ} (h : ∀ x ∈ l, p x)
    (ha : p a) : ∀ x ∈ l ++ [a], p x := by
  intro x hx
  rcases List.mem_append.mp hx with hx | hx
  · exact h x hx
  · rw [List.mem_singleton.mp hx]
    exact ha

/-- `enum ibv_wc_status`. -/
inductive WcStatus where
  | success
  | error (code : Nat)
  deriving DecidableEq, Repr

/-- `enum ibv_wc_opcode`. -/
inductive WcOpcode where
  | send
  | recv
  | other (code : Nat)
  deriving DecidableEq, Repr

/-- `struct ibv_wc`. -/
structure Wc (ι : Type) where
  wrId : ι
  status : WcStatus
  opcode : WcOpcode
  byteLen : Nat
  deriving DecidableEq, Repr

/-- An entry of a completion queue. `onSend` is the work queue it belongs to:
the driver knows it, the program sees only `wc`. -/
structure Cqe (ι : Type) where
  onSend : Bool
  wc : Wc ι
  deriving DecidableEq, Repr

/-- A completion queue with its channel. `added` is a history variable: every
completion ever added, oldest first. -/
structure Cq (ι : Type) where
  entries : List (Cqe ι)
  armed : Bool
  events : Nat
  added : List (Wc ι)

variable {ι β : Type}

namespace Cq

/-- `ibv_create_cq`. -/
def create : Cq ι := { entries := [], armed := false, events := 0, added := [] }

/-- A completion arrives. -/
def add (q : Cq ι) (x : Cqe ι) : Cq ι :=
  { entries := q.entries ++ [x],
    armed := false,
    events := if q.armed then q.events + 1 else q.events,
    added := q.added ++ [x.wc] }

/-- `ibv_req_notify_cq`. -/
def reqNotify (q : Cq ι) : Cq ι := { q with armed := true }

/-- `ibv_get_cq_event`: blocks (`none`) while the channel is empty. -/
def getEvent (q : Cq ι) : Option (Cq ι) :=
  if q.events = 0 then none else some { q with events := q.events - 1 }

/-- The completions `ibv_poll_cq` hands out when it takes `n`. -/
def taken (q : Cq ι) (n : Nat) : List (Wc ι) := (q.entries.take n).map Cqe.wc

/-- What `ibv_poll_cq` leaves when it takes `n`. -/
def rest (q : Cq ι) (n : Nat) : Cq ι := { q with entries := q.entries.drop n }

/-- Unpolled completions of sends. -/
def sends (q : Cq ι) : Nat := q.entries.countP (·.onSend)

/-- Unpolled completions of receives. -/
def recvs (q : Cq ι) : Nat := q.entries.countP (!·.onSend)

@[simp] theorem add_entries (q : Cq ι) (x : Cqe ι) : (q.add x).entries = q.entries ++ [x] := rfl
@[simp] theorem add_added (q : Cq ι) (x : Cqe ι) : (q.add x).added = q.added ++ [x.wc] := rfl
@[simp] theorem reqNotify_entries (q : Cq ι) : q.reqNotify.entries = q.entries := rfl
@[simp] theorem rest_entries (q : Cq ι) (n : Nat) : (q.rest n).entries = q.entries.drop n := rfl
@[simp] theorem reqNotify_sends (q : Cq ι) : q.reqNotify.sends = q.sends := rfl
@[simp] theorem reqNotify_recvs (q : Cq ι) : q.reqNotify.recvs = q.recvs := rfl
@[simp] theorem create_sends : (create : Cq ι).sends = 0 := rfl
@[simp] theorem create_recvs : (create : Cq ι).recvs = 0 := rfl

@[simp] theorem add_sends (q : Cq ι) (x : Cqe ι) :
    (q.add x).sends = q.sends + if x.onSend then 1 else 0 := by
  simp [sends, List.countP_append, List.countP_cons]

@[simp] theorem add_recvs (q : Cq ι) (x : Cqe ι) :
    (q.add x).recvs = q.recvs + if x.onSend then 0 else 1 := by
  cases h : x.onSend <;> simp [recvs, List.countP_append, h]

theorem length_entries (q : Cq ι) : q.entries.length = q.sends + q.recvs := by
  rw [List.length_eq_countP_add_countP (fun x : Cqe ι => x.onSend)]
  simp [sends, recvs]

theorem getEvent_eq_some {q q' : Cq ι} (h : q.getEvent = some q') :
    0 < q.events ∧ q' = { q with events := q.events - 1 } := by
  unfold getEvent at h
  split at h
  · cases h
  · exact ⟨Nat.pos_of_ne_zero ‹_›, (Option.some.inj h).symm⟩

end Cq

/-- A posted send: `payload` is what the HCA read from the send buffer, once
it has. -/
structure SendWqe (ι β : Type) where
  wrId : ι
  payload : Option β

/-- One end of a reliable connection. -/
structure Endpoint (ι β : Type) where
  rq : List ι
  sq : List (SendWqe ι β)
  recvDone : List (Wc ι)
  sendDone : List (Wc ι)
  cq : Cq ι
  failed : Bool

/-- What the HCA does on its own at one end. -/
inductive Hca where
  | read (k : Nat)
  | reportSend
  | reportRecv
  | fail
  | flushRecv (opcode : WcOpcode)
  | flushSend (opcode : WcOpcode)
  deriving DecidableEq, Repr

/-- The moves of a transport that works: nothing fails and nothing is
flushed. -/
def Hca.Succeeds : Hca → Prop
  | .fail => False
  | .flushRecv _ => False
  | .flushSend _ => False
  | _ => True

instance : DecidablePred Hca.Succeeds := fun m => by
  cases m <;> simp only [Hca.Succeeds] <;> infer_instance

/-- `IBV_WC_LOC_LEN_ERR` and `IBV_WC_WR_FLUSH_ERR`. -/
def locLenErr : WcStatus := .error 1
def wrFlushErr : WcStatus := .error 5

namespace Endpoint

/-- `rdma_create_qp`, over the completion queue `cq`. -/
def create (cq : Cq ι) : Endpoint ι β :=
  { rq := [], sq := [], recvDone := [], sendDone := [], cq := cq, failed := false }

/-- Send queue entries in use: a slot is given back when the completion of its
send is polled. -/
def sendSlots (e : Endpoint ι β) : Nat := e.sq.length + e.sendDone.length + e.cq.sends

/-- Receive queue entries in use. -/
def recvSlots (e : Endpoint ι β) : Nat := e.rq.length + e.recvDone.length + e.cq.recvs

/-- `ibv_post_recv`: fails (`none`) when all `cap` entries are in use. -/
def postRecv (cap : Nat) (w : ι) (e : Endpoint ι β) : Option (Endpoint ι β) :=
  if e.recvSlots < cap then some { e with rq := e.rq ++ [w] } else none

/-- `ibv_post_send`: fails (`none`) when all `cap` entries are in use. -/
def postSend (cap : Nat) (w : ι) (e : Endpoint ι β) : Option (Endpoint ι β) :=
  if e.sendSlots < cap then some { e with sq := e.sq ++ [⟨w, none⟩] } else none

/-- `ibv_poll_cq` takes `n` completions. -/
def poll (n : Nat) (e : Endpoint ι β) : Endpoint ι β := { e with cq := e.cq.rest n }

/-- `ibv_req_notify_cq`. -/
def reqNotify (e : Endpoint ι β) : Endpoint ι β := { e with cq := e.cq.reqNotify }

/-- The message that can be delivered next: sends are delivered in the order
they were posted, and only after the HCA has read them. -/
def outgoing (e : Endpoint ι β) : Option β :=
  if e.failed then none else e.sq.head?.bind SendWqe.payload

/-- The oldest send has been delivered. -/
def delivered (e : Endpoint ι β) : Endpoint ι β :=
  match e.sq with
  | [] => e
  | x :: q => { e with sq := q, sendDone := e.sendDone ++ [⟨x.wrId, .success, .send, 0⟩] }

/-- A receive is posted; otherwise a message waits at the sender. -/
def ready (e : Endpoint ι β) : Bool := !e.failed && !e.rq.isEmpty

/-- A message of `len` bytes consumes the oldest posted receive. -/
def arrive (len : Nat) (e : Endpoint ι β) : Endpoint ι β :=
  match e.rq with
  | [] => e
  | w :: q => { e with rq := q, recvDone := e.recvDone ++ [⟨w, .success, .recv, len⟩] }

/-- A message longer than the posted receive: the receive completes with a
length error and the end goes to the error state. -/
def overrun (opcode : WcOpcode) (e : Endpoint ι β) : Endpoint ι β :=
  match e.rq with
  | [] => e
  | w :: q =>
    { e with rq := q, failed := true, recvDone := e.recvDone ++ [⟨w, locLenErr, opcode, 0⟩] }

/-- A move of the HCA; `buff` is what the send buffer holds now. -/
def hca (buff : β) (e : Endpoint ι β) : Hca → Option (Endpoint ι β)
  | .read k =>
    if e.failed then none else
      match e.sq[k]? with
      | some ⟨w, none⟩ => some { e with sq := e.sq.set k ⟨w, some buff⟩ }
      | _ => none
  | .reportSend =>
    match e.sendDone with
    | [] => none
    | wc :: q => some { e with sendDone := q, cq := e.cq.add ⟨true, wc⟩ }
  | .reportRecv =>
    match e.recvDone with
    | [] => none
    | wc :: q => some { e with recvDone := q, cq := e.cq.add ⟨false, wc⟩ }
  | .fail => some { e with failed := true }
  | .flushRecv opcode =>
    if e.failed then
      match e.rq with
      | [] => none
      | w :: q => some { e with rq := q, recvDone := e.recvDone ++ [⟨w, wrFlushErr, opcode, 0⟩] }
    else none
  | .flushSend opcode =>
    if e.failed then
      match e.sq with
      | [] => none
      | x :: q =>
        some { e with sq := q, sendDone := e.sendDone ++ [⟨x.wrId, wrFlushErr, opcode, 0⟩] }
    else none

/-! ## What each operation does -/

theorem postRecv_eq_some {cap : Nat} {w : ι} {e e' : Endpoint ι β}
    (h : e.postRecv cap w = some e') :
    e.recvSlots < cap ∧ e' = { e with rq := e.rq ++ [w] } := by
  unfold postRecv at h
  split at h
  · exact ⟨‹_›, (Option.some.inj h).symm⟩
  · cases h

theorem postSend_eq_some {cap : Nat} {w : ι} {e e' : Endpoint ι β}
    (h : e.postSend cap w = some e') :
    e.sendSlots < cap ∧ e' = { e with sq := e.sq ++ [⟨w, none⟩] } := by
  unfold postSend at h
  split at h
  · exact ⟨‹_›, (Option.some.inj h).symm⟩
  · cases h

theorem outgoing_eq_some {e : Endpoint ι β} {p : β} (h : e.outgoing = some p) :
    e.failed = false ∧ ∃ w q, e.sq = ⟨w, some p⟩ :: q := by
  unfold outgoing at h
  split at h
  · cases h
  · rename_i hf
    refine ⟨by simpa using hf, ?_⟩
    cases hs : e.sq with
    | nil => simp [hs] at h
    | cons x q =>
      obtain ⟨w, o⟩ := x
      simp only [hs, List.head?_cons, Option.bind_some] at h
      exact ⟨w, q, by rw [h]⟩

theorem delivered_of_sq {e : Endpoint ι β} {x : SendWqe ι β} {q : List (SendWqe ι β)}
    (h : e.sq = x :: q) : e.delivered =
      { e with sq := q, sendDone := e.sendDone ++ [⟨x.wrId, .success, .send, 0⟩] } := by
  simp [delivered, h]

theorem ready_eq_true {e : Endpoint ι β} (h : e.ready = true) :
    e.failed = false ∧ ∃ w q, e.rq = w :: q := by
  simp only [ready, Bool.and_eq_true, Bool.not_eq_true'] at h
  refine ⟨h.1, ?_⟩
  cases hr : e.rq with
  | nil => simp [hr] at h
  | cons w q => exact ⟨w, q, rfl⟩

theorem arrive_of_rq {e : Endpoint ι β} {w : ι} {q : List ι} (h : e.rq = w :: q) (len : Nat) :
    e.arrive len = { e with rq := q, recvDone := e.recvDone ++ [⟨w, .success, .recv, len⟩] } := by
  simp [arrive, h]

theorem overrun_of_rq {e : Endpoint ι β} {w : ι} {q : List ι} (h : e.rq = w :: q)
    (opcode : WcOpcode) : e.overrun opcode = { e with
      rq := q, failed := true, recvDone := e.recvDone ++ [⟨w, locLenErr, opcode, 0⟩] } := by
  simp [overrun, h]

/-- The three moves of a working transport. -/
theorem hca_cases {buff : β} {e e' : Endpoint ι β} {m : Hca} (hm : m.Succeeds)
    (h : e.hca buff m = some e') :
    (∃ k w, m = .read k ∧ e.failed = false ∧ e.sq[k]? = some ⟨w, none⟩ ∧
      e' = { e with sq := e.sq.set k ⟨w, some buff⟩ }) ∨
    (∃ wc q, m = .reportSend ∧ e.sendDone = wc :: q ∧
      e' = { e with sendDone := q, cq := e.cq.add ⟨true, wc⟩ }) ∨
    (∃ wc q, m = .reportRecv ∧ e.recvDone = wc :: q ∧
      e' = { e with recvDone := q, cq := e.cq.add ⟨false, wc⟩ }) := by
  cases m with
  | read k =>
    refine .inl ?_
    simp only [hca] at h
    split at h
    · cases h
    · rename_i hf
      split at h
      · rename_i w hw
        exact ⟨k, w, rfl, by simpa using hf, hw, (Option.some.inj h).symm⟩
      · cases h
  | reportSend =>
    simp only [hca] at h
    split at h
    · cases h
    · rename_i wc q hq
      exact .inr (.inl ⟨wc, q, rfl, hq, (Option.some.inj h).symm⟩)
  | reportRecv =>
    simp only [hca] at h
    split at h
    · cases h
    · rename_i wc q hq
      exact .inr (.inr ⟨wc, q, rfl, hq, (Option.some.inj h).symm⟩)
  | fail => exact hm.elim
  | flushRecv opcode => exact hm.elim
  | flushSend opcode => exact hm.elim

/-- The moves that fail or flush. -/
theorem hca_failing {buff : β} {e e' : Endpoint ι β} {m : Hca} (hm : ¬ m.Succeeds)
    (h : e.hca buff m = some e') :
    (m = .fail ∧ e' = { e with failed := true }) ∨
    (∃ opcode w q, m = .flushRecv opcode ∧ e.failed = true ∧ e.rq = w :: q ∧
      e' = { e with rq := q, recvDone := e.recvDone ++ [⟨w, wrFlushErr, opcode, 0⟩] }) ∨
    (∃ opcode x q, m = .flushSend opcode ∧ e.failed = true ∧ e.sq = x :: q ∧
      e' = { e with sq := q, sendDone := e.sendDone ++ [⟨x.wrId, wrFlushErr, opcode, 0⟩] }) := by
  cases m with
  | read k => exact absurd trivial hm
  | reportSend => exact absurd trivial hm
  | reportRecv => exact absurd trivial hm
  | fail => exact .inl ⟨rfl, (Option.some.inj h).symm⟩
  | flushRecv opcode =>
    simp only [hca] at h
    split at h
    · rename_i hf
      split at h
      · cases h
      · rename_i w q hq
        exact .inr (.inl ⟨opcode, w, q, rfl, hf, hq, (Option.some.inj h).symm⟩)
    · cases h
  | flushSend opcode =>
    simp only [hca] at h
    split at h
    · rename_i hf
      split at h
      · cases h
      · rename_i x q hq
        exact .inr (.inr ⟨opcode, x, q, rfl, hf, hq, (Option.some.inj h).symm⟩)
    · cases h

/-- An end at which nothing has failed after a move, has not failed before, and
the move is one of a working transport. -/
theorem hca_alive {buff : β} {e e' : Endpoint ι β} {m : Hca} (h : e.hca buff m = some e')
    (hf : e'.failed = false) : e.failed = false ∧ m.Succeeds := by
  by_cases hm : m.Succeeds
  · refine ⟨?_, hm⟩
    rcases hca_cases hm h with ⟨k, w, -, hk, -⟩ | ⟨wc, q, -, -, rfl⟩ | ⟨wc, q, -, -, rfl⟩
    · exact hk
    · exact hf
    · exact hf
  · rcases hca_failing hm h with
      ⟨-, rfl⟩ | ⟨op, w, q, -, ht, -, rfl⟩ | ⟨op, x, q, -, ht, -, rfl⟩
    · cases hf
    · rw [show e.failed = false from hf] at ht
      cases ht
    · rw [show e.failed = false from hf] at ht
      cases ht

/-- The HCA posts no send, and only a flush takes one. -/
theorem length_sq_hca {buff : β} {e e' : Endpoint ι β} {m : Hca} (h : e.hca buff m = some e') :
    e'.sq.length ≤ e.sq.length := by
  by_cases hm : m.Succeeds
  · rcases hca_cases hm h with ⟨k, w, -, -, -, rfl⟩ | ⟨wc, q, -, -, rfl⟩ | ⟨wc, q, -, -, rfl⟩ <;>
      simp
  · rcases hca_failing hm h with
      ⟨-, rfl⟩ | ⟨op, w, q, -, -, -, rfl⟩ | ⟨op, x, q, -, -, hq, rfl⟩
    · exact Nat.le_refl _
    · exact Nat.le_refl _
    · simp [hq]

/-- Nor a receive. -/
theorem length_rq_hca {buff : β} {e e' : Endpoint ι β} {m : Hca} (h : e.hca buff m = some e') :
    e'.rq.length ≤ e.rq.length := by
  by_cases hm : m.Succeeds
  · rcases hca_cases hm h with ⟨k, w, -, -, -, rfl⟩ | ⟨wc, q, -, -, rfl⟩ | ⟨wc, q, -, -, rfl⟩ <;>
      simp
  · rcases hca_failing hm h with
      ⟨-, rfl⟩ | ⟨op, w, q, -, -, hq, rfl⟩ | ⟨op, x, q, -, -, -, rfl⟩
    · exact Nat.le_refl _
    · simp [hq]
    · exact Nat.le_refl _

/-- And takes no event from the channel. -/
theorem events_hca {buff : β} {e e' : Endpoint ι β} {m : Hca} (h : e.hca buff m = some e') :
    e.cq.events ≤ e'.cq.events := by
  by_cases hm : m.Succeeds
  · rcases hca_cases hm h with ⟨k, w, -, -, -, rfl⟩ | ⟨wc, q, -, -, rfl⟩ | ⟨wc, q, -, -, rfl⟩
    · exact Nat.le_refl _
    all_goals
      simp only [Cq.add]
      split <;> simp
  · rcases hca_failing hm h with
      ⟨-, rfl⟩ | ⟨op, w, q, -, -, -, rfl⟩ | ⟨op, x, q, -, -, -, rfl⟩ <;> exact Nat.le_refl _

/-! ## What all entries of an end have in common -/

/-- Every work request is posted with an identifier in `W`, and every
completion of a receive satisfies `R`, of a send `S`, wherever it is. -/
structure All (W : ι → Prop) (R S : Wc ι → Prop) (e : Endpoint ι β) : Prop where
  rq : ∀ w ∈ e.rq, W w
  sq : ∀ x ∈ e.sq, W x.wrId
  recvDone : ∀ wc ∈ e.recvDone, R wc
  sendDone : ∀ wc ∈ e.sendDone, S wc
  cq : ∀ x ∈ e.cq.entries, if x.onSend then S x.wc else R x.wc

section All

variable {W : ι → Prop} {R S : Wc ι → Prop} {e e' : Endpoint ι β}

theorem All.create {cq : Cq ι} (h : cq.entries = []) :
    (Endpoint.create cq : Endpoint ι β).All W R S := by
  constructor <;> simp [Endpoint.create, h]

theorem All.reqNotify (h : e.All W R S) : e.reqNotify.All W R S :=
  ⟨h.rq, h.sq, h.recvDone, h.sendDone, h.cq⟩

theorem All.poll (h : e.All W R S) (n : Nat) : (e.poll n).All W R S :=
  ⟨h.rq, h.sq, h.recvDone, h.sendDone, fun x hx => h.cq x (List.mem_of_mem_drop hx)⟩

theorem All.postRecv (h : e.All W R S) {cap : Nat} {w : ι} (hw : W w)
    (he : e.postRecv cap w = some e') : e'.All W R S := by
  obtain ⟨-, rfl⟩ := postRecv_eq_some he
  exact ⟨forall_mem_concat h.rq hw, h.sq, h.recvDone, h.sendDone, h.cq⟩

theorem All.postSend (h : e.All W R S) {cap : Nat} {w : ι} (hw : W w)
    (he : e.postSend cap w = some e') : e'.All W R S := by
  obtain ⟨-, rfl⟩ := postSend_eq_some he
  exact ⟨h.rq, forall_mem_concat h.sq hw, h.recvDone, h.sendDone, h.cq⟩

theorem All.delivered (h : e.All W R S)
    (hS : ∀ w, W w → S ⟨w, .success, .send, 0⟩) : e.delivered.All W R S := by
  cases hq : e.sq with
  | nil => simpa [Endpoint.delivered, hq] using h
  | cons x q =>
    rw [delivered_of_sq hq]
    have hx : W x.wrId := h.sq x (by simp [hq])
    exact ⟨h.rq, fun y hy => h.sq y (by simp [hq, hy]), h.recvDone,
      forall_mem_concat h.sendDone (hS _ hx), h.cq⟩

theorem All.arrive (h : e.All W R S) (len : Nat)
    (hR : ∀ w, W w → R ⟨w, .success, .recv, len⟩) : (e.arrive len).All W R S := by
  cases hq : e.rq with
  | nil => simpa [Endpoint.arrive, hq] using h
  | cons w q =>
    rw [arrive_of_rq hq]
    have hw : W w := h.rq w (by simp [hq])
    exact ⟨fun v hv => h.rq v (by simp [hq, hv]), h.sq,
      forall_mem_concat h.recvDone (hR _ hw), h.sendDone, h.cq⟩

theorem All.overrun (h : e.All W R S) (opcode : WcOpcode)
    (hR : ∀ w, W w → R ⟨w, locLenErr, opcode, 0⟩) : (e.overrun opcode).All W R S := by
  cases hq : e.rq with
  | nil => simpa [Endpoint.overrun, hq] using h
  | cons w q =>
    rw [overrun_of_rq hq]
    have hw : W w := h.rq w (by simp [hq])
    exact ⟨fun v hv => h.rq v (by simp [hq, hv]), h.sq,
      forall_mem_concat h.recvDone (hR _ hw), h.sendDone, h.cq⟩

theorem All.succeeds (h : e.All W R S) {buff : β} {m : Hca} (hm : m.Succeeds)
    (he : e.hca buff m = some e') : e'.All W R S := by
  rcases hca_cases hm he with ⟨k, w, -, -, hk, rfl⟩ | ⟨wc, q, -, hq, rfl⟩ | ⟨wc, q, -, hq, rfl⟩
  · have hw : W w := h.sq ⟨w, none⟩ (List.mem_of_getElem? hk)
    refine ⟨h.rq, fun x hx => ?_, h.recvDone, h.sendDone, h.cq⟩
    rcases List.mem_or_eq_of_mem_set hx with hx | rfl
    · exact h.sq x hx
    · exact hw
  · have hwc : S wc := h.sendDone wc (by simp [hq])
    exact ⟨h.rq, h.sq, h.recvDone, fun v hv => h.sendDone v (by simp [hq, hv]),
      forall_mem_concat h.cq hwc⟩
  · have hwc : R wc := h.recvDone wc (by simp [hq])
    exact ⟨h.rq, h.sq, fun v hv => h.recvDone v (by simp [hq, hv]), h.sendDone,
      forall_mem_concat h.cq hwc⟩

theorem All.hca (h : e.All W R S) {buff : β} {m : Hca}
    (hR : ∀ w opcode, W w → R ⟨w, wrFlushErr, opcode, 0⟩)
    (hS : ∀ w opcode, W w → S ⟨w, wrFlushErr, opcode, 0⟩)
    (he : e.hca buff m = some e') : e'.All W R S := by
  by_cases hm : m.Succeeds
  · exact h.succeeds hm he
  · rcases hca_failing hm he with
      ⟨-, rfl⟩ | ⟨op, w, q, -, -, hq, rfl⟩ | ⟨op, x, q, -, -, hq, rfl⟩
    · exact ⟨h.rq, h.sq, h.recvDone, h.sendDone, h.cq⟩
    · have hw : W w := h.rq w (by simp [hq])
      exact ⟨fun v hv => h.rq v (by simp [hq, hv]), h.sq,
        forall_mem_concat h.recvDone (hR _ _ hw), h.sendDone, h.cq⟩
    · have hx : W x.wrId := h.sq x (by simp [hq])
      exact ⟨h.rq, fun y hy => h.sq y (by simp [hq, hy]), h.recvDone,
        forall_mem_concat h.sendDone (hS _ _ hx), h.cq⟩

end All

/-! ## An end at which nothing has failed -/

/-- A successful completion of a receive, of a send. -/
def RecvOk (wc : Wc ι) : Prop := wc.status = .success ∧ wc.opcode = .recv
def SendOk (wc : Wc ι) : Prop := wc.status = .success ∧ wc.opcode = .send

/-- All completions of the end, reported or not, are successful. -/
structure Clean (e : Endpoint ι β) : Prop where
  alive : e.failed = false
  all : e.All (fun _ => True) RecvOk SendOk

section Clean

variable {e e' : Endpoint ι β}

theorem Clean.create {cq : Cq ι} (h : cq.entries = []) :
    (Endpoint.create cq : Endpoint ι β).Clean := ⟨rfl, All.create h⟩

theorem Clean.reqNotify (h : e.Clean) : e.reqNotify.Clean := ⟨h.alive, h.all.reqNotify⟩

theorem Clean.poll (h : e.Clean) (n : Nat) : (e.poll n).Clean := ⟨h.alive, h.all.poll n⟩

theorem Clean.postRecv (h : e.Clean) {cap : Nat} {w : ι} (he : e.postRecv cap w = some e') :
    e'.Clean :=
  ⟨by rw [(postRecv_eq_some he).2]; exact h.alive, h.all.postRecv trivial he⟩

theorem Clean.postSend (h : e.Clean) {cap : Nat} {w : ι} (he : e.postSend cap w = some e') :
    e'.Clean :=
  ⟨by rw [(postSend_eq_some he).2]; exact h.alive, h.all.postSend trivial he⟩

theorem Clean.delivered (h : e.Clean) : e.delivered.Clean := by
  refine ⟨?_, h.all.delivered fun _ _ => ⟨rfl, rfl⟩⟩
  cases hq : e.sq with
  | nil => simpa [Endpoint.delivered, hq] using h.alive
  | cons x q => rw [delivered_of_sq hq]; exact h.alive

theorem Clean.arrive (h : e.Clean) (len : Nat) : (e.arrive len).Clean := by
  refine ⟨?_, h.all.arrive len fun _ _ => ⟨rfl, rfl⟩⟩
  cases hq : e.rq with
  | nil => simpa [Endpoint.arrive, hq] using h.alive
  | cons w q => rw [arrive_of_rq hq]; exact h.alive

theorem Clean.succeeds (h : e.Clean) {buff : β} {m : Hca} (hm : m.Succeeds)
    (he : e.hca buff m = some e') : e'.Clean := by
  refine ⟨?_, h.all.succeeds hm he⟩
  rcases hca_cases hm he with ⟨k, w, -, -, -, rfl⟩ | ⟨wc, q, -, -, rfl⟩ | ⟨wc, q, -, -, rfl⟩ <;>
    exact h.alive

/-- At a clean end the opcode of an unpolled completion tells its queue. -/
theorem Clean.opcode_eq (h : e.Clean) {x : Cqe ι} (hx : x ∈ e.cq.entries) :
    x.wc.status = .success ∧ x.wc.opcode = if x.onSend then .send else .recv := by
  have := h.all.cq x hx
  cases hs : x.onSend <;> simp only [hs, Bool.false_eq_true, if_false, if_true] at this ⊢ <;>
    exact this

end Clean

end Endpoint

/-! ## What a successful completion says

Also where something has failed, each delivered send has one successful
completion, and the opcode of a successful completion tells its queue. -/

namespace Endpoint

/-- The opcode of every successful completion is that of its queue. -/
def Honest (e : Endpoint ι β) : Prop :=
  e.All (fun _ => True) (fun wc => wc.status = .success → wc.opcode = .recv)
    (fun wc => wc.status = .success → wc.opcode = .send)

/-- Delivered sends whose completion has not been polled. -/
def unpolled (e : Endpoint ι β) : Nat :=
  e.sendDone.countP (·.status = .success) +
    e.cq.entries.countP fun x => x.onSend ∧ x.wc.status = .success

/-- Messages that have arrived and whose completion has not been polled. -/
def arrived (e : Endpoint ι β) : Nat :=
  e.recvDone.countP (·.status = .success) +
    e.cq.entries.countP fun x => !x.onSend ∧ x.wc.status = .success

section Honest

variable {e e' : Endpoint ι β}

theorem Honest.opcode (h : e.Honest) {x : Cqe ι} (hx : x ∈ e.cq.entries)
    (hst : x.wc.status = .success) : x.wc.opcode = .send ↔ x.onSend = true := by
  have := h.cq x hx
  cases hs : x.onSend <;> simp_all

theorem Honest.opcode_recv (h : e.Honest) {x : Cqe ι} (hx : x ∈ e.cq.entries)
    (hst : x.wc.status = .success) : x.wc.opcode = .recv ↔ x.onSend = false := by
  have := h.cq x hx
  cases hs : x.onSend <;> simp_all

theorem Honest.hca (h : e.Honest) {buff : β} {m : Hca} (he : e.hca buff m = some e') :
    e'.Honest :=
  All.hca h (fun _ _ _ hst => by cases hst) (fun _ _ _ hst => by cases hst) he

theorem Honest.delivered (h : e.Honest) : e.delivered.Honest := All.delivered h fun _ _ _ => rfl

theorem unpolled_hca {buff : β} {m : Hca} (he : e.hca buff m = some e') :
    e'.unpolled = e.unpolled := by
  by_cases hm : m.Succeeds
  · rcases hca_cases hm he with
      ⟨k, w, -, -, -, rfl⟩ | ⟨wc, q, -, hq, rfl⟩ | ⟨wc, q, -, hq, rfl⟩
    · rfl
    · simp only [unpolled, hq, Cq.add_entries, List.countP_append, List.countP_cons,
        List.countP_nil, true_and]
      omega
    · simp [unpolled]
  · rcases hca_failing hm he with
      ⟨-, rfl⟩ | ⟨op, w, q, -, -, hq, rfl⟩ | ⟨op, x, q, -, -, hq, rfl⟩
    · rfl
    · rfl
    · simp [unpolled, wrFlushErr]

theorem unpolled_delivered {x : SendWqe ι β} {q : List (SendWqe ι β)} (hq : e.sq = x :: q) :
    e.delivered.unpolled = e.unpolled + 1 := by
  simp only [unpolled, delivered_of_sq hq, List.countP_append, List.countP_singleton,
    decide_true, if_true]
  omega

theorem arrived_hca {buff : β} {m : Hca} (he : e.hca buff m = some e') :
    e'.arrived = e.arrived := by
  by_cases hm : m.Succeeds
  · rcases hca_cases hm he with
      ⟨k, w, -, -, -, rfl⟩ | ⟨wc, q, -, hq, rfl⟩ | ⟨wc, q, -, hq, rfl⟩
    · rfl
    · simp [arrived]
    · simp only [arrived, hq, Cq.add_entries, List.countP_append, List.countP_cons,
        List.countP_nil, Bool.not_false, true_and]
      omega
  · rcases hca_failing hm he with
      ⟨-, rfl⟩ | ⟨op, w, q, -, -, hq, rfl⟩ | ⟨op, x, q, -, -, hq, rfl⟩
    · rfl
    · simp [arrived, wrFlushErr]
    · rfl

theorem arrived_delivered : e.delivered.arrived = e.arrived := by
  cases hq : e.sq with
  | nil => simp [delivered, hq]
  | cons x q => simp [arrived, delivered_of_sq hq]

/-- Where nothing has failed these are all completions of sends. -/
theorem Clean.unpolled (h : e.Clean) : e.unpolled = e.sendDone.length + e.cq.sends := by
  have hdone : e.sendDone.countP (·.status = .success) = e.sendDone.length :=
    List.countP_eq_length.mpr fun wc hwc => by simp [(h.all.sendDone wc hwc).1]
  have hcq : (e.cq.entries.countP fun x => x.onSend ∧ x.wc.status = .success) = e.cq.sends := by
    apply List.countP_congr
    intro x hx
    simp [(h.opcode_eq hx).1]
  rw [Endpoint.unpolled, hdone, hcq]

/-- And those are all completions of receives. -/
theorem Clean.arrived (h : e.Clean) : e.arrived = e.recvDone.length + e.cq.recvs := by
  have hdone : e.recvDone.countP (·.status = .success) = e.recvDone.length :=
    List.countP_eq_length.mpr fun wc hwc => by simp [(h.all.recvDone wc hwc).1]
  have hcq : (e.cq.entries.countP fun x => !x.onSend ∧ x.wc.status = .success) = e.cq.recvs := by
    apply List.countP_congr
    intro x hx
    simp [(h.opcode_eq hx).1]
  rw [Endpoint.arrived, hdone, hcq]

end Honest

end Endpoint

/-! ## Counting the receives in a batch -/

/-- The completions of receives in a batch the program has polled. -/
def recvsIn (wcs : List (Wc ι)) : Nat := wcs.countP (·.opcode = .recv)

@[simp] theorem recvsIn_nil : recvsIn ([] : List (Wc ι)) = 0 := rfl

@[simp] theorem recvsIn_cons (wc : Wc ι) (wcs : List (Wc ι)) :
    recvsIn (wc :: wcs) = recvsIn wcs + if wc.opcode = .recv then 1 else 0 := by
  simp [recvsIn, List.countP_cons]

/-- Polling moves completions of receives from the queue to the batch. -/
theorem recvsIn_taken {e : Endpoint ι β} (h : e.Clean) (n : Nat) :
    recvsIn (e.cq.taken n) + (e.cq.rest n).recvs = e.cq.recvs := by
  have hcount : recvsIn (e.cq.taken n) = (e.cq.entries.take n).countP (!·.onSend) := by
    simp only [recvsIn, Cq.taken, List.countP_map]
    apply List.countP_congr
    intro x hx
    have := (h.opcode_eq (List.mem_of_mem_take hx)).2
    cases hs : x.onSend <;> simp [hs, this]
  rw [hcount, Cq.recvs, Cq.recvs, Cq.rest_entries, ← List.countP_append, List.take_append_drop]

/-! ## Notification

A program that re-arms its queue and then polls it empty is told of every
completion: between the two the queue is `Awake`, and empty and awake is
`Notified`. -/

namespace Cq

/-- The next completion will be noticed. -/
def Awake (q : Cq ι) : Prop := q.events = 0 → q.armed = true

/-- The channel tells of what is unpolled, and the next completion will be
noticed. -/
structure Notified (q : Cq ι) : Prop where
  pending : q.entries ≠ [] → 0 < q.events
  awake : q.Awake

theorem Awake.reqNotify (q : Cq ι) : q.reqNotify.Awake := fun _ => rfl

theorem Awake.rest {q : Cq ι} (h : q.Awake) (n : Nat) : (q.rest n).Awake := h

/-- The completion that finds the queue awake queues an event, or there is one
already. -/
theorem Awake.events_add {q : Cq ι} (h : q.Awake) (x : Cqe ι) : 0 < (q.add x).events := by
  by_cases ha : q.armed = true
  · simp [Cq.add, ha]
  · have hne : q.events ≠ 0 := fun he => ha (h he)
    simp only [Cq.add, if_neg ha]
    omega

theorem Awake.add {q : Cq ι} (h : q.Awake) (x : Cqe ι) : (q.add x).Awake := fun he =>
  absurd he (Nat.ne_of_gt (h.events_add x))

theorem Notified.add {q : Cq ι} (h : q.Notified) (x : Cqe ι) : (q.add x).Notified :=
  ⟨fun _ => h.awake.events_add x, h.awake.add x⟩

theorem Awake.notified {q : Cq ι} (h : q.Awake) (he : q.entries = []) : q.Notified :=
  ⟨fun hne => absurd he hne, h⟩

end Cq

namespace Endpoint

/-- Nothing is posted and nothing has completed. -/
structure Idle (e : Endpoint ι β) : Prop where
  rq : e.rq = []
  sq : e.sq = []
  recvDone : e.recvDone = []
  sendDone : e.sendDone = []
  entries : e.cq.entries = []

theorem Idle.create {cq : Cq ι} (h : cq.entries = []) : (create cq : Endpoint ι β).Idle :=
  ⟨rfl, rfl, rfl, rfl, h⟩

/-- Nothing but a report changes the queue, and a report adds one
completion. -/
theorem hca_cq {buff : β} {e e' : Endpoint ι β} {m : Hca} (h : e.hca buff m = some e') :
    e'.cq = e.cq ∨ ∃ x, e'.cq = e.cq.add x := by
  by_cases hm : m.Succeeds
  · rcases hca_cases hm h with ⟨k, w, -, -, -, rfl⟩ | ⟨wc, q, -, -, rfl⟩ | ⟨wc, q, -, -, rfl⟩
    · exact .inl rfl
    · exact .inr ⟨_, rfl⟩
    · exact .inr ⟨_, rfl⟩
  · rcases hca_failing hm h with ⟨-, rfl⟩ | ⟨op, w, q, -, -, -, rfl⟩ | ⟨op, x, q, -, -, -, rfl⟩ <;>
      exact .inl rfl

theorem Idle.hca {buff : β} {e e' : Endpoint ι β} {m : Hca} (hi : e.Idle)
    (h : e.hca buff m = some e') : e'.Idle := by
  by_cases hm : m.Succeeds
  · rcases hca_cases hm h with ⟨k, w, -, -, hk, rfl⟩ | ⟨wc, q, -, hq, rfl⟩ | ⟨wc, q, -, hq, rfl⟩
    · simp [hi.sq] at hk
    · simp [hi.sendDone] at hq
    · simp [hi.recvDone] at hq
  · rcases hca_failing hm h with
      ⟨-, rfl⟩ | ⟨op, w, q, -, -, hq, rfl⟩ | ⟨op, x, q, -, -, hq, rfl⟩
    · exact ⟨hi.rq, hi.sq, hi.recvDone, hi.sendDone, hi.entries⟩
    · simp [hi.rq] at hq
    · simp [hi.sq] at hq

end Endpoint

/-! ## Work

What is still to happen at an end, as a number: every send, completion, entry
of the queue and event of the channel counts for what it leads to, and a send
for one more while the HCA has not read it. The HCA lowers it with every move,
if a completion counts for less once it is in the queue and announced. -/

/-- What an entry of each list counts for. -/
structure Weights where
  send : Nat
  sendDone : Nat
  recvDone : Nat
  sends : Nat
  recvs : Nat
  event : Nat

namespace Endpoint

/-- Sends that the HCA has not read. -/
def unsent (e : Endpoint ι β) : Nat := e.sq.countP (·.payload.isNone)

def work (w : Weights) (e : Endpoint ι β) : Nat :=
  w.send * e.sq.length + e.unsent + w.sendDone * e.sendDone.length +
    w.recvDone * e.recvDone.length + w.sends * e.cq.sends + w.recvs * e.cq.recvs +
    w.event * e.cq.events

variable {w : Weights} {e e' : Endpoint ι β}

theorem unsent_read {k : Nat} {i : ι} (h : e.sq[k]? = some ⟨i, none⟩) (b : β) :
    ({ e with sq := e.sq.set k ⟨i, some b⟩ } : Endpoint ι β).unsent + 1 = e.unsent := by
  obtain ⟨hk, hget⟩ := List.getElem?_eq_some_iff.mp h
  have hpos : 0 < e.sq.countP (·.payload.isNone) :=
    List.countP_pos_iff.mpr ⟨_, List.mem_of_getElem? h, rfl⟩
  simp only [unsent, List.countP_set hk, hget, Option.isNone_none, Option.isNone_some, if_true,
    Bool.false_eq_true, if_false]
  omega

theorem events_add_le (q : Cq ι) (x : Cqe ι) (n : Nat) :
    n * (q.add x).events ≤ n * q.events + n := by
  rw [← Nat.mul_succ]
  refine Nat.mul_le_mul_left n ?_
  simp only [Cq.add]
  split <;> omega

/-- A move of the HCA that succeeds. -/
theorem work_hca {buff : β} {m : Hca} (hm : m.Succeeds)
    (hsends : w.sends + w.event < w.sendDone) (hrecvs : w.recvs + w.event < w.recvDone)
    (he : e.hca buff m = some e') : e'.work w < e.work w := by
  rcases hca_cases hm he with ⟨k, i, -, -, hk, rfl⟩ | ⟨wc, q, -, hq, rfl⟩ | ⟨wc, q, -, hq, rfl⟩
  · have hlt := unsent_read hk buff
    simp only [work, List.length_set]
    omega
  · have hev := events_add_le e.cq ⟨true, wc⟩ w.event
    simp only [work, unsent, hq, List.length_cons, Cq.add_sends, Cq.add_recvs, if_true,
      Nat.mul_add]
    omega
  · have hev := events_add_le e.cq ⟨false, wc⟩ w.event
    simp only [work, unsent, hq, List.length_cons, Cq.add_sends, Cq.add_recvs,
      Bool.false_eq_true, if_false, Nat.mul_add]
    omega

/-- The oldest send is delivered. -/
theorem work_delivered {p : β} (h : e.outgoing = some p) :
    e.delivered.work w + w.send = e.work w + w.sendDone := by
  obtain ⟨-, i, q, hq⟩ := outgoing_eq_some h
  simp only [work, unsent, delivered_of_sq hq, hq, List.length_cons, List.length_append,
    List.length_nil, List.countP_cons, Option.isNone_some, Bool.false_eq_true, if_false,
    Nat.mul_add]
  omega

/-- A message arrives. -/
theorem work_arrive (h : e.ready = true) (len : Nat) :
    (e.arrive len).work w = e.work w + w.recvDone := by
  obtain ⟨-, i, q, hq⟩ := ready_eq_true h
  simp only [work, unsent, arrive_of_rq hq, List.length_append, List.length_cons,
    List.length_nil, Nat.mul_add]
  omega

theorem work_postRecv (q : List ι) : ({ e with rq := q } : Endpoint ι β).work w = e.work w := rfl

theorem work_postSend (i : ι) :
    ({ e with sq := e.sq ++ [⟨i, none⟩] } : Endpoint ι β).work w = e.work w + w.send + 1 := by
  simp only [work, unsent, List.length_append, List.length_cons, List.length_nil,
    List.countP_append, List.countP_cons, List.countP_nil, Option.isNone_none, if_true,
    Nat.mul_add]
  omega

theorem work_reqNotify : e.reqNotify.work w = e.work w := rfl

/-- An event is taken from the channel. -/
theorem work_event (h : 0 < e.cq.events) :
    ({ e with cq := { e.cq with events := e.cq.events - 1 } } : Endpoint ι β).work w + w.event =
      e.work w := by
  obtain ⟨n, hn⟩ := Nat.exists_eq_succ_of_ne_zero (Nat.ne_of_gt h)
  simp only [work, unsent, hn, Nat.succ_eq_add_one, Nat.add_sub_cancel, Nat.mul_add, Cq.sends,
    Cq.recvs]
  omega

/-- Completions are polled: `n` of them, among them the receives in the batch. -/
theorem work_taken (h : e.Clean) (n : Nat) :
    (e.poll n).work w + w.sends * ((e.cq.taken n).length - recvsIn (e.cq.taken n)) +
      w.recvs * recvsIn (e.cq.taken n) = e.work w := by
  have hrecvs := recvsIn_taken h n
  have hall := Cq.length_entries e.cq
  have hrest := Cq.length_entries (e.cq.rest n)
  have hlen : (e.cq.taken n).length + (e.cq.rest n).entries.length = e.cq.entries.length := by
    rw [Cq.taken, List.length_map, Cq.rest_entries, ← List.length_append, List.take_append_drop]
  have hsends : e.cq.sends =
      (e.cq.rest n).sends + ((e.cq.taken n).length - recvsIn (e.cq.taken n)) := by
    have : recvsIn (e.cq.taken n) ≤ (e.cq.taken n).length := List.countP_le_length
    omega
  have hevents : (e.cq.rest n).events = e.cq.events := rfl
  simp only [work, unsent, poll, hevents, hsends, ← hrecvs, Nat.mul_add]
  omega

/-- One completion is polled. -/
theorem work_poll {x : Cqe ι} {q : List (Cqe ι)} (h : e.cq.entries = x :: q) :
    (e.poll 1).work w + (if x.onSend then w.sends else w.recvs) = e.work w := by
  have hsends : e.cq.sends = (e.cq.rest 1).sends + if x.onSend then 1 else 0 := by
    simp [Cq.sends, h, List.countP_cons]
  have hrecvs : e.cq.recvs = (e.cq.rest 1).recvs + if x.onSend then 0 else 1 := by
    cases hx : x.onSend <;> simp [Cq.recvs, h, hx]
  have hevents : (e.cq.rest 1).events = e.cq.events := rfl
  simp only [work, unsent, poll, hsends, hrecvs, hevents]
  split <;> simp only [Nat.mul_add] <;> omega

end Endpoint

end Verbs
