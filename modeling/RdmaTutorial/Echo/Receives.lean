import RdmaTutorial.Echo.Link

/-!
# The server's one receive

While nothing fails, the receive that `setup_connection` posts is always in
exactly one place: posted, consumed by a message, completed and not polled, in
the batch, or in the hands of the program between the copy and the next
`ibv_post_recv`. This holds against every peer whose messages fit; everything
the servers guarantee about messages starts from it.
-/

namespace RdmaTutorial.Echo

open Verbs

/-- Messages polled and not yet copied out of `recv_buff`. -/
def Stage.unread : Stage → Nat
  | .opening => 0
  | .quiet => 0
  | .batch wcs => recvsIn wcs
  | .copy wcs => recvsIn wcs + 1
  | .postRecv wcs => recvsIn wcs
  | .postSend wcs => recvsIn wcs

/-- Receives consumed or never posted, up to the next `ibv_post_recv`. -/
def Stage.unposted : Stage → Nat
  | .opening => 1
  | .postRecv wcs => recvsIn wcs + 1
  | st => st.unread

/-- Echoes copied to `send_buff` and not yet posted. -/
def Stage.copied : Stage → Nat
  | .postRecv _ => 1
  | .postSend _ => 1
  | _ => 0

variable {ρ σ α : Type} {P : Peer ρ σ α}

namespace State

/-- Messages that have arrived and are not yet copied out of `recv_buff`. -/
def unread (s : State σ) : Nat :=
  s.conn.ep.recvDone.length + s.conn.ep.cq.recvs + s.stage.unread

/-- All receives of the connection, wherever they are. -/
def receives (s : State σ) : Nat :=
  s.conn.ep.rq.length + s.conn.ep.recvDone.length + s.conn.ep.cq.recvs + s.stage.unposted

/-- Echoes on their way: copied or posted, and not yet delivered. -/
def echoes (s : State σ) : Nat := s.stage.copied + s.conn.ep.sq.length

end State

/-- Nothing has failed at the server's end and its receive is in one place. -/
structure Sound (s : State σ) : Prop where
  clean : s.conn.ep.Clean
  receives : s.receives = 1

/-- A move in which nothing fails: the HCA succeeds and the message fits. -/
def Works (P : Peer ρ σ α) (s : State σ) : Move α → Prop
  | .hca m => m.Succeeds
  | .toServer _ => ∀ p, P.offer s.peer = some p → p.length ≤ bufferSize
  | _ => True

theorem dispatch_unread (wc : Wc Nc) (wcs : List (Wc Nc)) :
    (dispatch wc wcs).unread = recvsIn (wc :: wcs) := by
  unfold dispatch
  split <;> simp_all [Stage.unread]

theorem dispatch_unposted (wc : Wc Nc) (wcs : List (Wc Nc)) :
    (dispatch wc wcs).unposted = recvsIn (wc :: wcs) := by
  unfold dispatch
  split <;> simp_all [Stage.unposted, Stage.unread]

@[simp] theorem dispatch_copied (wc : Wc Nc) (wcs : List (Wc Nc)) :
    (dispatch wc wcs).copied = 0 := by
  unfold dispatch
  split <;> rfl

/-- A receive whose message fits is consumed without an error. -/
theorem receive_of_fits {c : Connection} {p : Payload} (hp : p.length ≤ bufferSize)
    (opcode : WcOpcode) :
    c.receive opcode p =
      { c with recvBuff := c.recvBuff.write p, ep := c.ep.arrive p.length } := by
  simp only [Connection.receive, if_pos hp]

theorem Sound.step {s t : State σ} {b : Move α} (hs : Sound s) (hw : Works P s b)
    (h : Step P s b t) : Sound t := by
  obtain ⟨hc, hr⟩ := hs
  cases h with
  | arm => exact ⟨hc.reqNotify, hr⟩
  | event =>
    exact ⟨⟨hc.alive, hc.all.rq, hc.all.sq, hc.all.recvDone, hc.all.sendDone, hc.all.cq⟩, hr⟩
  | firstRecv hcap =>
    refine ⟨hc.postRecv (if_pos hcap), ?_⟩
    simp only [State.receives, Stage.unposted, Stage.unread, List.length_append,
      List.length_singleton] at hr ⊢
    omega
  | established => exact ⟨hc, hr⟩
  | poll c p n =>
    refine ⟨hc.poll n, ?_⟩
    have hn : recvsIn (c.ep.cq.taken n) + (c.ep.cq.rest n).recvs = c.ep.cq.recvs :=
      recvsIn_taken hc n
    simp only [State.receives, Stage.unposted, Stage.unread, Connection.poll,
      Endpoint.poll] at hr ⊢
    omega
  | done => exact ⟨hc, hr⟩
  | next wc wcs c p =>
    refine ⟨hc, ?_⟩
    simp only [State.receives, dispatch_unposted]
    simpa [State.receives, Stage.unposted, Stage.unread] using hr
  | copy hcopy =>
    refine ⟨hc, ?_⟩
    simpa [State.receives, Stage.unposted, Stage.unread] using hr
  | postRecv hcap =>
    refine ⟨hc.postRecv (if_pos hcap), ?_⟩
    simp only [State.receives, Stage.unposted, Stage.unread, List.length_append,
      List.length_singleton] at hr ⊢
    omega
  | postSend hcap => exact ⟨hc.postSend (if_pos hcap), hr⟩
  | hca he =>
    refine ⟨hc.succeeds hw he, ?_⟩
    rcases Endpoint.hca_cases hw he with
      ⟨k, w, -, -, -, rfl⟩ | ⟨wc, q, -, hq, rfl⟩ | ⟨wc, q, -, hq, rfl⟩
    · exact hr
    · simpa [State.receives] using hr
    · simp only [State.receives, hq, List.length_cons, Cq.add_recvs, Bool.false_eq_true,
        if_false] at hr ⊢
      omega
  | toServer hoffer hready =>
    rw [receive_of_fits (hw _ hoffer)]
    obtain ⟨-, w, q, hq⟩ := Endpoint.ready_eq_true hready
    refine ⟨hc.arrive _, ?_⟩
    simp only [State.receives, Endpoint.arrive_of_rq hq, hq, List.length_cons, List.length_append,
      List.length_nil] at hr ⊢
    omega
  | toPeer hout =>
    obtain ⟨-, w, q, hq⟩ := Endpoint.outgoing_eq_some hout
    refine ⟨hc.delivered, ?_⟩
    simpa [State.receives, Connection.delivered, Endpoint.delivered_of_sq hq] using hr
  | peer => exact ⟨hc, hr⟩

/-- A poll moves completions of receives from the queue to the batch. -/
theorem unread_poll {c : Connection} {p : σ} (hc : c.ep.Clean) (n : Nat) :
    (⟨.batch (c.ep.cq.taken n), c.poll n, p⟩ : State σ).unread =
      (⟨.quiet, c, p⟩ : State σ).unread := by
  have hn : recvsIn (c.ep.cq.taken n) + (c.ep.cq.rest n).recvs = c.ep.cq.recvs :=
    recvsIn_taken hc n
  simp only [State.unread, Stage.unread, Connection.poll, Endpoint.poll]
  omega

theorem unread_dispatch (wc : Wc Nc) (wcs : List (Wc Nc)) (c : Connection) (p : σ) :
    (⟨dispatch wc wcs, c, p⟩ : State σ).unread =
      (⟨.batch (wc :: wcs), c, p⟩ : State σ).unread := by
  simp only [State.unread, dispatch_unread]
  rfl

/-- What the HCA reports is still to be read. -/
theorem unread_hca {s : State σ} {m : Hca} (hm : m.Succeeds) {buff : Payload}
    {e : Endpoint Nc Payload} (he : s.conn.ep.hca buff m = some e) :
    (⟨s.stage, { s.conn with ep := e }, s.peer⟩ : State σ).unread = s.unread := by
  rcases Endpoint.hca_cases hm he with
    ⟨k, w, -, -, -, rfl⟩ | ⟨wc, q, -, hq, rfl⟩ | ⟨wc, q, -, hq, rfl⟩
  · rfl
  · simp [State.unread]
  · simp only [State.unread, hq, List.length_cons, Cq.add_recvs, Bool.false_eq_true, if_false]
    omega

/-- A message can arrive only while none is still to be copied. -/
theorem Sound.unread_of_ready {s : State σ} (h : Sound s) (hready : s.conn.ep.ready = true) :
    s.unread = 0 ∧ s.conn.ep.rq.length = 1 := by
  obtain ⟨-, w, q, hq⟩ := Endpoint.ready_eq_true hready
  have hr := h.receives
  have hle : s.stage.unread ≤ s.stage.unposted := by
    cases s.stage <;> simp [Stage.unread, Stage.unposted]
  simp only [State.receives, State.unread, hq, List.length_cons] at hr ⊢
  omega

end RdmaTutorial.Echo
