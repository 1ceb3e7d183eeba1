import RdmaTutorial.Client

/-!
# The client's one receive and one send

Whatever the other end does, a client at whose end nothing fails has one
receive, which is posted, completed and not polled, or just taken from the
queue, and a send under way only while it polls for that send's completion.
`Own` says so and `Own.exec`, `Own.hca`, `Own.sent`, `Own.receive` keep it.
-/

namespace RdmaTutorial.Client

open CString Verbs

namespace Pc

/-- The loop variable. -/
def iter : Pc → Nat
  | .connecting => 0
  | .compose i => i
  | .postSend i => i
  | .pollSend i => i
  | .notifySend i => i
  | .pollRecv i => i
  | .received i => i
  | .postRecv i => i
  | .notifyRecv i => i
  | .cleanup i => i
  | .died i _ => i

/-- It is the client's turn: no message or echo of its is under way. -/
def holds : Pc → Nat
  | .pollSend _ => 0
  | .notifySend _ => 0
  | .pollRecv _ => 0
  | .cleanup _ => 0
  | .died _ r => if r = unexpectedOpcode then 1 else 0
  | _ => 1

/-- The receive has completed and is not posted again. -/
def unposted : Pc → Nat
  | .received _ => 1
  | .postRecv _ => 1
  | .died _ r => if r = unexpectedOpcode then 1 else 0
  | _ => 0

/-- The echo is taken from the queue and not yet read. -/
def unread : Pc → Nat
  | .received _ => 1
  | _ => 0

/-- The sends under way, while the loop runs. -/
def sends : Pc → Option Nat
  | .pollSend _ => some 1
  | .cleanup _ => none
  | .died _ _ => none
  | _ => some 0

end Pc

/-- `exec`, statement by statement. -/
inductive Exec (c : Client) : Client → Prop where
  | spin : Exec c c
  | compose {i b} (hpc : c.pc = .compose i) (hb : c.conn.sendBuff.print (msgText i) = some b) :
      Exec c { c with conn := { c.conn with sendBuff := b }, pc := .postSend i }
  | postSend {i} (hpc : c.pc = .postSend i) (hcap : c.conn.ep.sendSlots < maxSendWr) :
      Exec c { c with
        conn := { c.conn with
          ep := { c.conn.ep with sq := c.conn.ep.sq ++ [⟨c.conn.sendWrId, none⟩] } },
        pc := .pollSend i }
  | pollSend {i x q} (hpc : c.pc = .pollSend i) (hq : c.conn.ep.cq.entries = x :: q) :
      Exec c (c.pollFor .send i (.notifySend i))
  | notifySend {i} (hpc : c.pc = .notifySend i) :
      Exec c { c with conn := c.conn.reqNotify, pc := .pollRecv i }
  | pollRecv {i x q} (hpc : c.pc = .pollRecv i) (hq : c.conn.ep.cq.entries = x :: q) :
      Exec c (c.pollFor .recv i (.received i))
  | received {i} (hpc : c.pc = .received i) : Exec c { c with pc := .postRecv i }
  | postRecv {i} (hpc : c.pc = .postRecv i) (hcap : c.conn.ep.recvSlots < maxRecvWr) :
      Exec c { c with
        conn := { c.conn with
          ep := { c.conn.ep with rq := c.conn.ep.rq ++ [c.conn.recvWrId] } },
        pc := .notifyRecv i }
  | again {i} (hpc : c.pc = .notifyRecv i) (hi : i + 1 < c.count.val) :
      Exec c { c with conn := c.conn.reqNotify, pc := .compose (i + 1) }
  | finish {i} (hpc : c.pc = .notifyRecv i) (hi : c.count.val ≤ i + 1) :
      Exec c { c with conn := c.conn.reqNotify, pc := .cleanup (i + 1) }
  | breaks {i} (hpc : c.pc = .notifySend i ∨ c.pc = .notifyRecv i) :
      Exec c { c with pc := .cleanup i }
  | pollDies {i} (hpc : c.pc = .pollSend i ∨ c.pc = .pollRecv i) :
      Exec c { c with pc := .died i pollFailed }
  | sendDies {i} (hpc : c.pc = .postSend i) (hfull : maxSendWr ≤ c.conn.ep.sendSlots) :
      Exec c { c with pc := .died i postSendDie }
  | recvDies {i} (hpc : c.pc = .postRecv i) (hfull : maxRecvWr ≤ c.conn.ep.recvSlots) :
      Exec c { c with pc := .died i postRecvDie }

theorem postSend_cases (c : Connection) :
    (c.ep.sendSlots < maxSendWr ∧ c.postSend = some { c with
      ep := { c.ep with sq := c.ep.sq ++ [⟨c.sendWrId, none⟩] } }) ∨
    (maxSendWr ≤ c.ep.sendSlots ∧ c.postSend = none) := by
  by_cases h : c.ep.sendSlots < maxSendWr
  · exact .inl ⟨h, by simp [Connection.postSend, Endpoint.postSend, h]⟩
  · exact .inr ⟨by omega, by simp [Connection.postSend, Endpoint.postSend, h]⟩

theorem postRecv_cases (c : Connection) :
    (c.ep.recvSlots < maxRecvWr ∧ c.postRecv = some { c with
      ep := { c.ep with rq := c.ep.rq ++ [c.recvWrId] } }) ∨
    (maxRecvWr ≤ c.ep.recvSlots ∧ c.postRecv = none) := by
  by_cases h : c.ep.recvSlots < maxRecvWr
  · exact .inl ⟨h, by simp [Connection.postRecv, Endpoint.postRecv, h]⟩
  · exact .inr ⟨by omega, by simp [Connection.postRecv, Endpoint.postRecv, h]⟩

theorem pollFor_nil {c : Client} (h : c.conn.ep.cq.entries = []) (op : WcOpcode) (i : Nat)
    (next : Pc) : c.pollFor op i next = c := by
  simp [pollFor, h]

theorem Exec.of_exec {c c' : Client} {r : Result} (h : c.exec r = some c') : Exec c c' := by
  unfold exec at h
  split at h
  · cases h
  · rename_i i _ hpc
    simp only [Option.map_eq_some_iff] at h
    obtain ⟨b, hb, rfl⟩ := h
    exact .compose hpc hb
  · rename_i i _ hpc
    rcases postSend_cases c.conn with ⟨hlt, hp⟩ | ⟨hle, hp⟩ <;> rw [hp] at h <;> cases h
    · exact .postSend hpc hlt
    · exact .sendDies hpc hle
  · rename_i i hpc
    cases h
    cases hq : c.conn.ep.cq.entries with
    | nil => rw [pollFor_nil hq]; exact .spin
    | cons x q => exact .pollSend hpc hq
  · rename_i i hpc
    cases h
    exact .pollDies (.inl hpc)
  · rename_i i hpc
    cases h
    exact .notifySend hpc
  · rename_i i hpc
    cases h
    exact .breaks (.inl hpc)
  · rename_i i hpc
    cases h
    cases hq : c.conn.ep.cq.entries with
    | nil => rw [pollFor_nil hq]; exact .spin
    | cons x q => exact .pollRecv hpc hq
  · rename_i i hpc
    cases h
    exact .pollDies (.inr hpc)
  · rename_i i _ hpc
    cases h
    exact .received hpc
  · rename_i i _ hpc
    rcases postRecv_cases c.conn with ⟨hlt, hp⟩ | ⟨hle, hp⟩ <;> rw [hp] at h <;> cases h
    · exact .postRecv hpc hlt
    · exact .recvDies hpc hle
  · rename_i i hpc
    cases h
    by_cases hi : i + 1 < c.count.val
    · rw [if_pos hi]; exact .again hpc hi
    · rw [if_neg hi]; exact .finish hpc (by omega)
  · rename_i i hpc
    cases h
    exact .breaks (.inr hpc)
  · cases h
  · cases h

/-- The program does not make its queue pair fail, or work again. -/
theorem Exec.failed {c c' : Client} (h : Exec c c') :
    c'.conn.ep.failed = c.conn.ep.failed := by
  cases h with
  | pollSend hpc hq => simp [pollFor, hq, Connection.poll, Endpoint.poll]
  | pollRecv hpc hq => simp [pollFor, hq, Connection.poll, Endpoint.poll]
  | _ => rfl

/-- Before the connection is established the loop does not run. -/
theorem Exec.of_connecting {c c' : Client} (he : Exec c c') (hpc : c.pc = .connecting) :
    c' = c := by
  cases he with
  | spin => rfl
  | breaks h => rcases h with h | h <;> rw [hpc] at h <;> cases h
  | pollDies h => rcases h with h | h <;> rw [hpc] at h <;> cases h
  | _ => simp_all

/-- The client's end: nothing has failed there, its receive is in one place,
and a send is under way exactly while its completion is polled for. -/
structure Own (c : Client) : Prop where
  clean : c.conn.ep.Clean
  receives : c.conn.ep.rq.length + c.conn.ep.recvDone.length + c.conn.ep.cq.recvs +
    c.pc.unposted = 1
  sends : ∀ n, c.pc.sends = some n → c.conn.ep.sendSlots = n

/-- The client's share of the one message or echo under way. -/
def tokens (c : Client) : Nat :=
  c.pc.holds + c.conn.ep.sq.length + c.conn.ep.recvDone.length + c.conn.ep.cq.recvs

/-- Echoes that have arrived and are not yet read. -/
def unreadEcho (c : Client) : Nat :=
  c.conn.ep.recvDone.length + c.conn.ep.cq.recvs + c.pc.unread

theorem own_fresh (a : Args) : Own (fresh a) := by
  refine ⟨⟨rfl, ?_⟩, rfl, ?_⟩
  · constructor <;> simp [fresh, Connection.setupConnection, Connection.postRecv,
      Endpoint.postRecv, Connection.create, Connection.reqNotify, Endpoint.create, Cq.create,
      Endpoint.reqNotify, Cq.reqNotify, Endpoint.recvSlots, Cq.recvs, maxRecvWr]
  · intro n hn
    cases hn
    rfl

/-- What the first completion in the queue is: one entry, of a send or of a
receive, as its opcode says. -/
theorem pollFor_cases {c : Client} (hc : c.conn.ep.Clean) {x : Cqe Nc} {q : List (Cqe Nc)}
    (hq : c.conn.ep.cq.entries = x :: q) (op : WcOpcode) (i : Nat) (next : Pc) :
    (x.onSend = true ∧ c.conn.ep.cq.sends = (c.conn.ep.cq.rest 1).sends + 1 ∧
      c.conn.ep.cq.recvs = (c.conn.ep.cq.rest 1).recvs ∧
      c.pollFor op i next = { c with
        conn := c.conn.poll 1, polled := c.polled ++ [(i, .send)],
        pc := if op = .send then next else .died i unexpectedOpcode }) ∨
    (x.onSend = false ∧ c.conn.ep.cq.sends = (c.conn.ep.cq.rest 1).sends ∧
      c.conn.ep.cq.recvs = (c.conn.ep.cq.rest 1).recvs + 1 ∧
      c.pollFor op i next = { c with
        conn := c.conn.poll 1, polled := c.polled ++ [(i, .recv)],
        pc := if op = .recv then next else .died i unexpectedOpcode }) := by
  obtain ⟨hst, hop⟩ := hc.opcode_eq (x := x) (by simp [hq])
  cases hx : x.onSend with
  | true =>
    refine .inl ⟨rfl, ?_, ?_, ?_⟩
    · simp [Cq.sends, hq, hx]
    · simp [Cq.recvs, hq, hx]
    · simp only [hx, if_true] at hop
      simp [pollFor, hq, hst, hop, eq_comm]
  | false =>
    refine .inr ⟨rfl, ?_, ?_, ?_⟩
    · simp [Cq.sends, hq, hx]
    · simp [Cq.recvs, hq, hx]
    · simp only [hx, Bool.false_eq_true, if_false] at hop
      simp [pollFor, hq, hst, hop, eq_comm]

/-- The first polling loop: the completion of the send ends it, the
completion of the echo's receive kills the client. -/
theorem Own.pollSend {c : Client} (h : Own c) {i : Nat} (hpc : c.pc = .pollSend i) {x : Cqe Nc}
    {q : List (Cqe Nc)} (hq : c.conn.ep.cq.entries = x :: q) :
    Own (c.pollFor .send i (.notifySend i)) ∧
      (c.pollFor .send i (.notifySend i)).tokens = c.tokens := by
  have hr := h.receives
  have hs := h.sends 1 (by rw [hpc]; rfl)
  simp only [hpc, Pc.unposted, Endpoint.sendSlots] at hr hs
  rcases pollFor_cases h.clean hq .send i (.notifySend i) with
    ⟨-, hsn, hrn, he⟩ | ⟨-, hsn, hrn, he⟩ <;> rw [he]
  · refine ⟨⟨h.clean.poll 1, ?_, ?_⟩, ?_⟩
    · simp only [Connection.poll, Endpoint.poll, if_true, Pc.unposted]
      omega
    · intro n hn
      cases hn
      simp only [Endpoint.sendSlots, Connection.poll, Endpoint.poll]
      omega
    · simp only [tokens, hpc, Connection.poll, Endpoint.poll, if_true, Pc.holds]
      omega
  · -- The client dies with its receive taken and not posted again.
    refine ⟨⟨h.clean.poll 1, ?_, ?_⟩, ?_⟩
    · simp only [Connection.poll, Endpoint.poll, reduceCtorEq, if_false, if_true, Pc.unposted]
      omega
    · intro n hn
      cases hn
    · simp only [tokens, hpc, Connection.poll, Endpoint.poll, reduceCtorEq, if_false, if_true,
        Pc.holds]
      omega

/-- The second polling loop: no send is under way any more, so the completion
is the echo's. -/
theorem Own.pollRecv {c : Client} (h : Own c) {i : Nat} (hpc : c.pc = .pollRecv i) {x : Cqe Nc}
    {q : List (Cqe Nc)} (hq : c.conn.ep.cq.entries = x :: q) :
    c.pollFor .recv i (.received i) = { c with
        conn := c.conn.poll 1, polled := c.polled ++ [(i, .recv)], pc := .received i } ∧
      Own (c.pollFor .recv i (.received i)) ∧
      (c.pollFor .recv i (.received i)).tokens = c.tokens ∧ 0 < c.conn.ep.cq.recvs := by
  have hr := h.receives
  have hs := h.sends 0 (by rw [hpc]; rfl)
  simp only [hpc, Pc.unposted, Endpoint.sendSlots] at hr hs
  rcases pollFor_cases h.clean hq .recv i (.received i) with
    ⟨-, hsn, hrn, he⟩ | ⟨-, hsn, hrn, he⟩
  · -- A send's completion would be one more than are under way.
    omega
  · rw [he]
    refine ⟨by simp, ⟨h.clean.poll 1, ?_, ?_⟩, ?_, by omega⟩
    · simp only [Connection.poll, Endpoint.poll, if_true, Pc.unposted]
      omega
    · intro n hn
      cases hn
      simp only [Endpoint.sendSlots, Connection.poll, Endpoint.poll]
      omega
    · simp only [tokens, hpc, Connection.poll, Endpoint.poll, if_true, Pc.holds]
      omega

theorem Own.exec {c c' : Client} (h : Own c) (he : Exec c c') :
    Own c' ∧ c'.tokens ≤ c.tokens := by
  have hr := h.receives
  have hs := h.sends
  cases he with
  | spin => exact ⟨h, Nat.le_refl _⟩
  | compose hpc hb =>
    rw [hpc] at hr hs
    exact ⟨⟨h.clean, hr, hs⟩, by simp [tokens, hpc, Pc.holds]⟩
  | postSend hpc hcap =>
    rw [hpc] at hr hs
    have h0 := hs 0 rfl
    refine ⟨⟨h.clean.postSend (if_pos hcap), hr, ?_⟩, ?_⟩
    · intro n hn
      cases hn
      simp only [Endpoint.sendSlots] at h0
      simp only [Endpoint.sendSlots, List.length_append, List.length_singleton]
      omega
    · simp only [tokens, hpc, Pc.holds, List.length_append, List.length_singleton]
      omega
  | pollSend hpc hq =>
    obtain ⟨ho, ht⟩ := h.pollSend hpc hq
    exact ⟨ho, Nat.le_of_eq ht⟩
  | notifySend hpc =>
    rw [hpc] at hr hs
    exact ⟨⟨h.clean.reqNotify, hr, hs⟩, by
      simp [tokens, hpc, Pc.holds, Connection.reqNotify, Endpoint.reqNotify]⟩
  | pollRecv hpc hq =>
    obtain ⟨-, ho, ht, -⟩ := h.pollRecv hpc hq
    exact ⟨ho, Nat.le_of_eq ht⟩
  | received hpc =>
    rw [hpc] at hr hs
    exact ⟨⟨h.clean, hr, hs⟩, by simp [tokens, hpc, Pc.holds]⟩
  | postRecv hpc hcap =>
    rw [hpc] at hr hs
    refine ⟨⟨h.clean.postRecv (if_pos hcap), ?_, hs⟩, by simp [tokens, hpc, Pc.holds]⟩
    simp only [Pc.unposted, List.length_append, List.length_singleton] at hr ⊢
    omega
  | again hpc hi =>
    rw [hpc] at hr hs
    exact ⟨⟨h.clean.reqNotify, hr, hs⟩, by
      simp [tokens, hpc, Pc.holds, Connection.reqNotify, Endpoint.reqNotify]⟩
  | finish hpc hi =>
    rw [hpc] at hr hs
    refine ⟨⟨h.clean.reqNotify, hr, fun n hn => by cases hn⟩, ?_⟩
    simp only [tokens, hpc, Pc.holds, Connection.reqNotify, Endpoint.reqNotify,
      Cq.reqNotify_recvs]
    omega
  | breaks hpc =>
    refine ⟨⟨h.clean, ?_, fun n hn => by cases hn⟩, ?_⟩
    · rcases hpc with hpc | hpc <;> rw [hpc] at hr <;> exact hr
    · simp only [tokens, Pc.holds]
      omega
  | pollDies hpc =>
    have hne : pollFailed ≠ unexpectedOpcode := by decide
    refine ⟨⟨h.clean, ?_, fun n hn => by cases hn⟩, ?_⟩
    · rcases hpc with hpc | hpc <;> rw [hpc] at hr <;> simpa [Pc.unposted, hne] using hr
    · simp only [tokens, Pc.holds, if_neg hne]
      omega
  | sendDies hpc hfull =>
    have h0 := hs 0 (by rw [hpc]; rfl)
    simp only [maxSendWr] at hfull
    omega
  | recvDies hpc hfull =>
    simp only [hpc, Pc.unposted] at hr
    simp only [maxRecvWr, Endpoint.recvSlots] at hfull
    omega

theorem Own.hca {c : Client} (h : Own c) {m : Hca} (hm : m.Succeeds) {e : Endpoint Nc Payload}
    (he : c.conn.ep.hca c.conn.sendBuff.bytes m = some e) :
    Own { c with conn := { c.conn with ep := e } } ∧
      ({ c with conn := { c.conn with ep := e } } : Client).tokens = c.tokens := by
  have hr := h.receives
  have hclean := h.clean.succeeds hm he
  rcases Endpoint.hca_cases hm he with
    ⟨k, w, -, -, hk, rfl⟩ | ⟨wc, q, -, hq, rfl⟩ | ⟨wc, q, -, hq, rfl⟩
  · refine ⟨⟨hclean, hr, fun n hn => ?_⟩, by simp [tokens]⟩
    simpa [Endpoint.sendSlots] using h.sends n hn
  · refine ⟨⟨hclean, by simpa using hr, fun n hn => ?_⟩, by simp [tokens]⟩
    have := h.sends n hn
    simp only [Endpoint.sendSlots, hq, List.length_cons, Cq.add_sends, if_true] at this ⊢
    omega
  · simp only [hq, List.length_cons] at hr
    refine ⟨⟨hclean, ?_, fun n hn => ?_⟩, ?_⟩
    · simp only [Cq.add_recvs, Bool.false_eq_true, if_false]
      omega
    · simpa [Endpoint.sendSlots] using h.sends n hn
    · simp only [tokens, hq, List.length_cons, Cq.add_recvs, Bool.false_eq_true, if_false]
      omega

/-- The client's message is delivered. -/
theorem Own.sent {c : Client} (h : Own c) {m : Payload} (hm : c.conn.ep.outgoing = some m) :
    Own { c with conn := c.conn.delivered } ∧
      c.tokens = ({ c with conn := c.conn.delivered } : Client).tokens + 1 := by
  obtain ⟨-, w, q, hq⟩ := Endpoint.outgoing_eq_some hm
  refine ⟨⟨h.clean.delivered, ?_, fun n hn => ?_⟩, ?_⟩
  · simpa [Connection.delivered, Endpoint.delivered_of_sq hq] using h.receives
  · have := h.sends n hn
    simp only [Endpoint.sendSlots, hq, List.length_cons] at this
    simp only [Connection.delivered, Endpoint.delivered_of_sq hq, Endpoint.sendSlots,
      List.length_append, List.length_singleton]
    omega
  · simp only [tokens, Connection.delivered, Endpoint.delivered_of_sq hq, hq, List.length_cons]
    omega

/-- A message is delivered to the client. -/
theorem Own.receive {c : Client} (h : Own c) (hready : c.conn.ep.ready = true) {m : Payload}
    (hm : m.length ≤ bufferSize) (opcode : WcOpcode) :
    Own { c with conn := c.conn.receive opcode m } ∧
      ({ c with conn := c.conn.receive opcode m } : Client).tokens = c.tokens + 1 := by
  obtain ⟨-, w, q, hq⟩ := Endpoint.ready_eq_true hready
  have hr := h.receives
  simp only [hq, List.length_cons] at hr
  simp only [Connection.receive, if_pos hm]
  refine ⟨⟨h.clean.arrive _, ?_, fun n hn => ?_⟩, ?_⟩
  · simp only [Endpoint.arrive_of_rq hq, List.length_append, List.length_singleton]
    omega
  · simpa [Endpoint.arrive_of_rq hq, Endpoint.sendSlots] using h.sends n hn
  · simp only [tokens, Endpoint.arrive_of_rq hq, List.length_append, List.length_singleton]
    omega

/-- The first iteration, if there is one. -/
theorem established_cases {c : Client} (hpc : c.pc = .connecting) :
    (0 < c.count.val ∧ established c = { c with pc := .compose 0 }) ∨
      (c.count.val = 0 ∧ established c = { c with pc := .cleanup 0 }) := by
  by_cases h : 0 < c.count.val
  · exact .inl ⟨h, by simp [established, hpc, h]⟩
  · exact .inr ⟨by omega, by simp [established, hpc, h]⟩

theorem established_conn (c : Client) : (established c).conn = c.conn := by
  unfold established
  split <;> rfl

theorem established_of_ne {c : Client} (hpc : c.pc ≠ .connecting) : established c = c :=
  if_neg hpc

theorem Own.established {c : Client} (h : Own c) :
    Own (established c) ∧ (Client.established c).tokens ≤ c.tokens := by
  by_cases hpc : c.pc = .connecting
  · have hr := h.receives
    have hs := h.sends
    rw [hpc] at hr hs
    rcases established_cases hpc with ⟨-, he⟩ | ⟨-, he⟩ <;> rw [he]
    · exact ⟨⟨h.clean, hr, hs⟩, by simp [tokens, hpc, Pc.holds]⟩
    · refine ⟨⟨h.clean, hr, fun n hn => by cases hn⟩, ?_⟩
      simp only [tokens, Pc.holds]
      omega
  · rw [established_of_ne hpc]
    exact ⟨h, Nat.le_refl _⟩

end RdmaTutorial.Client
