import RdmaTutorial.Echo.Receives

/-!
# How much room a connection needs

Against any peer and any transport, one that fails included. What fills the
send queue and the completion queue is bounded by `State.load`: each consumed
receive adds one to it, and only a polled completion of a send takes one away,
so how far it grows is up to the peer. The receive queue is bounded by
`State.posts`, which does not grow at all while nothing fails.

A completion that is not successful has an arbitrary opcode, and
`handle_cq_event` handles it by that opcode, so a failed send may be taken for
a receive and have one receive more posted; `Cqe.asks` counts it as one.
-/

namespace RdmaTutorial.Echo

open Verbs

/-- A completion that belongs to a receive, or that the program takes for one. -/
def asks (x : Cqe Nc) : Bool := !x.onSend || x.wc.opcode = .recv

variable {ρ σ α : Type} {P : Peer ρ σ α}

namespace State

/-- Everything a completion of which is still to be polled or an echo of which
is still to be sent: the messages that have arrived and whose echo has not been
completed and polled. -/
def load (s : State σ) : Nat :=
  s.conn.ep.recvDone.length + s.conn.ep.sq.length + s.conn.ep.sendDone.length +
    s.conn.ep.cq.entries.length + s.stage.unread + s.stage.copied

/-- Receives in use or to be posted. -/
def posts (s : State σ) : Nat :=
  s.conn.ep.rq.length + s.conn.ep.recvDone.length + recvsIn s.conn.ep.sendDone +
    s.conn.ep.cq.entries.countP asks + s.stage.unposted

end State

/-- There is room for a move: before a receive is consumed, for one message
more; before a failed send is taken for a receive, for one receive more. -/
def Room (s : State σ) : Move α → Prop
  | .toServer _ => s.load < maxSendWr
  | .hca (.flushRecv _) => s.load < maxSendWr
  | .hca (.flushSend .recv) => s.posts < maxRecvWr
  | _ => True

instance (s : State σ) (b : Move α) : Decidable (Room s b) := by
  unfold Room
  split <;> infer_instance

/-- The connection holds no more than fits. -/
structure Credit (s : State σ) : Prop where
  load : s.load ≤ maxSendWr
  posts : s.posts ≤ maxRecvWr

theorem recvsIn_taken_le (q : Cq Nc) (n : Nat) :
    recvsIn (q.taken n) + (q.rest n).entries.countP asks ≤ q.entries.countP asks := by
  have hle : recvsIn (q.taken n) ≤ (q.entries.take n).countP asks := by
    simp only [recvsIn, Cq.taken, List.countP_map]
    exact List.countP_mono_left fun x _ hx => by simp_all [asks]
  calc recvsIn (q.taken n) + (q.rest n).entries.countP asks
      ≤ (q.entries.take n).countP asks + (q.entries.drop n).countP asks :=
        Nat.add_le_add_right hle _
    _ = q.entries.countP asks := by rw [← List.countP_append, List.take_append_drop]

theorem recvsIn_taken_add_le (q : Cq Nc) (n : Nat) :
    recvsIn (q.taken n) + (q.rest n).entries.length ≤ q.entries.length := by
  calc recvsIn (q.taken n) + (q.rest n).entries.length
      ≤ (q.taken n).length + (q.rest n).entries.length :=
        Nat.add_le_add_right List.countP_le_length _
    _ = (q.entries.take n).length + (q.entries.drop n).length := by
        rw [Cq.taken, List.length_map]; rfl
    _ = q.entries.length := by rw [← List.length_append, List.take_append_drop]

theorem Credit.hca {s : State σ} (hs : Credit s) {m : Hca} (hm : Room s (.hca m : Move α))
    {e : Endpoint Nc Payload} (he : s.conn.ep.hca s.conn.sendBuff.bytes m = some e) :
    Credit { s with conn := { s.conn with ep := e } } := by
  obtain ⟨hl, hp⟩ := hs
  simp only [State.load, State.posts] at hl hp
  by_cases hok : m.Succeeds
  · rcases Endpoint.hca_cases hok he with
      ⟨k, w, -, -, -, rfl⟩ | ⟨wc, q, -, hq, rfl⟩ | ⟨wc, q, -, hq, rfl⟩
    · exact ⟨by simpa [State.load] using hl, hp⟩
    · rw [hq] at hl hp
      constructor <;>
        simp only [State.load, State.posts, Cq.add_entries, List.length_append, List.length_cons,
          List.length_nil, List.countP_append, List.countP_singleton, asks, recvsIn_cons,
          Bool.not_true, Bool.false_or, decide_eq_true_eq] at hl hp ⊢ <;> omega
    · rw [hq] at hl hp
      constructor <;>
        simp only [State.load, State.posts, Cq.add_entries, List.length_append, List.length_cons,
          List.length_nil, List.countP_append, List.countP_singleton, asks, Bool.not_false,
          Bool.true_or, if_true] at hl hp ⊢ <;> omega
  · rcases Endpoint.hca_failing hok he with
      ⟨rfl, rfl⟩ | ⟨op, w, q, rfl, -, hq, rfl⟩ | ⟨op, x, q, rfl, -, hq, rfl⟩
    · exact ⟨hl, hp⟩
    · simp only [Room, State.load] at hm
      rw [hq] at hp
      constructor <;>
        simp only [State.load, State.posts, List.length_append, List.length_cons,
          List.length_nil] at hl hp ⊢ <;> omega
    · rw [hq] at hl
      constructor
      · simp only [State.load, List.length_append, List.length_cons, List.length_nil] at hl ⊢
        omega
      · -- A flushed send that says it is a receive asks for one more post.
        cases op with
        | recv =>
          simp only [Room, State.posts] at hm
          simp only [State.posts, recvsIn, List.countP_append, List.countP_singleton,
            decide_true, if_true] at hm ⊢
          omega
        | _ =>
          simpa [State.posts, recvsIn] using hp

/-- **The step lemma.** Only a consumed receive, or a failed send taken for
one, needs more room. -/
theorem Credit.step {s t : State σ} {b : Move α} (hs : Credit s) (hb : Room s b)
    (h : Step P s b t) : Credit t := by
  obtain ⟨hl, hp⟩ := hs
  cases h with
  | arm => exact ⟨hl, hp⟩
  | event => exact ⟨hl, hp⟩
  | firstRecv hcap =>
    refine ⟨hl, ?_⟩
    simp only [State.posts, Stage.unposted, Stage.unread, List.length_append,
      List.length_singleton] at hp ⊢
    omega
  | established => exact ⟨hl, hp⟩
  | poll c p n =>
    have hload := recvsIn_taken_add_le c.ep.cq n
    have hposts := recvsIn_taken_le c.ep.cq n
    simp only [State.load, State.posts, Stage.unread, Stage.unposted, Stage.copied] at hl hp
    constructor <;>
      simp only [State.load, State.posts, Stage.unread, Stage.unposted, Stage.copied,
        Connection.poll, Endpoint.poll] <;> omega
  | done => exact ⟨hl, hp⟩
  | next wc wcs c p =>
    constructor
    · simp only [State.load, dispatch_unread, dispatch_copied]
      exact hl
    · simp only [State.posts, dispatch_unposted]
      exact hp
  | copy hcopy =>
    refine ⟨?_, hp⟩
    simp only [State.load, Stage.unread, Stage.copied] at hl ⊢
    omega
  | postRecv hcap =>
    refine ⟨hl, ?_⟩
    simp only [State.posts, Stage.unposted, Stage.unread, List.length_append,
      List.length_singleton] at hp ⊢
    omega
  | postSend hcap =>
    refine ⟨?_, hp⟩
    simp only [State.load, Stage.unread, Stage.copied, List.length_append,
      List.length_singleton] at hl ⊢
    omega
  | hca he => exact Credit.hca ⟨hl, hp⟩ hb he
  | @toServer _ opcode m hoffer hready =>
    obtain ⟨-, w, q, hq⟩ := Endpoint.ready_eq_true hready
    obtain ⟨wc, f, he⟩ := Connection.receive_ep hq opcode m
    -- Here the echo that will follow gets its room.
    simp only [Room, State.load] at hb
    simp only [State.posts, hq, List.length_cons] at hp
    constructor <;>
      simp only [State.load, State.posts, he, List.length_append, List.length_singleton] <;>
      omega
  | toPeer hout =>
    -- The send moves from the queue to the completions, and counts the same.
    obtain ⟨-, w, q, hq⟩ := Endpoint.outgoing_eq_some hout
    simp only [State.load, hq, List.length_cons] at hl
    constructor
    · simp only [State.load, Connection.delivered, Endpoint.delivered_of_sq hq, List.length_append,
        List.length_singleton]
      omega
    · simpa [State.posts, Connection.delivered, Endpoint.delivered_of_sq hq, recvsIn] using hp
  | peer hq => exact ⟨hl, hp⟩

/-- A connection starts with one receive to post and nothing else. -/
theorem credit_opened (c : Nc) (r b : Block) (p : σ) :
    Credit ⟨.opening, .create c c r b, p⟩ := by
  constructor
  · exact Nat.zero_le _
  · exact (by decide : 1 ≤ maxRecvWr)

namespace Credit

variable {s : State σ}

theorem sendSlots_le (h : Credit s) : s.conn.ep.sendSlots + s.stage.copied ≤ maxSendWr := by
  have hl := h.load
  have := Cq.length_entries s.conn.ep.cq
  simp only [State.load] at hl
  simp only [Endpoint.sendSlots]
  omega

theorem entries_le (h : Credit s) : s.conn.ep.cq.entries.length ≤ cqEntries := by
  have hl := h.load
  simp only [State.load, maxSendWr] at hl
  simp only [cqEntries]
  omega

theorem recvSlots_le (h : Credit s) : s.conn.ep.recvSlots + s.stage.unposted ≤ maxRecvWr := by
  have hp := h.posts
  have hle : s.conn.ep.cq.recvs ≤ s.conn.ep.cq.entries.countP asks :=
    List.countP_mono_left fun x _ hx => by simp_all [asks]
  simp only [State.posts] at hp
  simp only [Endpoint.recvSlots]
  omega

/-- `ibv_post_send` finds room where the program calls it. -/
theorem postSend (h : Credit s) {q : List (Wc Nc)} (hst : s.stage = .postSend q) :
    s.conn.postSend.isSome := by
  have hle := h.sendSlots_le
  simp only [hst, Stage.copied] at hle
  simp only [Connection.postSend, Option.isSome_map, Endpoint.postSend]
  rw [if_pos (by omega)]
  rfl

/-- So does `ibv_post_recv`. -/
theorem postRecv (h : Credit s) (hst : 0 < s.stage.unposted) : s.conn.postRecv.isSome := by
  have hle := h.recvSlots_le
  simp only [Connection.postRecv, Option.isSome_map, Endpoint.postRecv]
  rw [if_pos (by omega)]
  rfl

end Credit

end RdmaTutorial.Echo
