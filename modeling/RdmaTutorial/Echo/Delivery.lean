import RdmaTutorial.Echo.Receives

/-!
# What a peer gets back

The peer may send at any rate. The strings it has sent are then, oldest first:
those it has got back, those the server still holds (one for each posted send,
one copied and not posted, one to be copied), and those the wire still holds.
A posted send that the HCA has not read carries whatever `send_buff` holds, so
the order breaks where a copy overwrites `send_buff` while such a send waits;
`Conveys.step` says that it breaks nowhere else.
-/

namespace RdmaTutorial.Echo

open CString Verbs

/-- A message as the clients send it: a C string that fits in a buffer. -/
def IsMessage (p : Payload) : Prop := Terminated p ∧ p.length ≤ bufferSize

instance : DecidablePred IsMessage := fun p =>
  inferInstanceAs (Decidable (Terminated p ∧ p.length ≤ bufferSize))

/-- The string a posted send carries: what the HCA has read, or else what it
will find in `send_buff`. -/
def carried (b : Block) (x : SendWqe Nc Payload) : List UInt8 :=
  cstr (x.payload.getD b.bytes)

/-- Some posted send of the connection has not been read by the HCA. -/
def AwaitsRead (c : Connection) : Prop := ∃ x ∈ c.ep.sq, x.payload = none

/-- The strings the server holds, oldest first. -/
def State.held {σ : Type} (s : State σ) : List (List UInt8) :=
  s.conn.ep.sq.map (carried s.conn.sendBuff) ++
    List.replicate s.stage.copied (cstr s.conn.sendBuff.bytes) ++
    List.replicate s.unread (cstr s.conn.recvBuff.bytes)

/-- The peer sends messages, and a copy writes a new string to `send_buff` only
when no posted send still has to be read. -/
def InTurn (s : State AnyPeer) : Move AnyPeer.Action → Prop
  | .peer (.send p) => IsMessage p
  | .copy => AwaitsRead s.conn → cstr s.conn.recvBuff.bytes = cstr s.conn.sendBuff.bytes
  | _ => True

/-- While nothing has failed, every string the peer has sent is in one place,
in order. -/
structure Conveys (s : State AnyPeer) : Prop where
  sound : Sound s
  whole : s.peer.got.map cstr ++ s.held ++ s.peer.outbox.map cstr = s.peer.log.map cstr

structure Delivery (s : State AnyPeer) : Prop where
  messages : ∀ p ∈ s.peer.outbox, IsMessage p
  inOrder : s.peer.got.map cstr <+: s.peer.log.map cstr
  alive : s.conn.ep.failed = false → Conveys s

/-- A read by the HCA does not change what a send carries. -/
theorem map_carried_set {b : Block} {q : List (SendWqe Nc Payload)} {k : Nat} {w : Nc}
    (hk : q[k]? = some ⟨w, none⟩) :
    (q.set k ⟨w, some b.bytes⟩).map (carried b) = q.map (carried b) := by
  have hsame : carried b ⟨w, some b.bytes⟩ = carried b ⟨w, none⟩ := rfl
  refine List.ext_getElem? fun i => ?_
  rw [List.getElem?_map, List.getElem?_map, List.getElem?_set]
  split
  · rename_i h
    subst h
    split
    · simp [hk, hsame]
    · rename_i hlen
      simp [List.getElem?_eq_none (Nat.le_of_not_lt hlen)]
  · rfl

/-- A write to `send_buff` changes only what the sends that wait for their read
carry. -/
theorem map_carried_write {b b' : Block} {q : List (SendWqe Nc Payload)}
    (h : (∃ x ∈ q, x.payload = none) → cstr b'.bytes = cstr b.bytes) :
    q.map (carried b') = q.map (carried b) := by
  apply List.map_congr_left
  intro x hx
  cases hp : x.payload with
  | none => simpa [carried, hp] using h ⟨x, hx, hp⟩
  | some p => simp [carried, hp]

variable {ρ σ α : Type} {P : Peer ρ σ α}

/-- An end that has failed stays so. -/
theorem Step.failed {s t : State σ} {b : Move α} (h : Step P s b t)
    (hs : s.conn.ep.failed = true) : t.conn.ep.failed = true := by
  cases h with
  | hca he =>
    by_contra hf
    have hs' := (Endpoint.hca_alive he (by simpa using hf)).1
    rw [hs] at hs'
    cases hs'
  | toServer hoffer hready =>
    simp [(Endpoint.ready_eq_true hready).1] at hs
  | toPeer hout =>
    simp [(Endpoint.outgoing_eq_some hout).1] at hs
  | _ => exact hs

/-- While the server's end has not failed its completions are successful,
whatever happens at the other end. -/
theorem Step.clean {s t : State σ} {b : Move α} (h : Step P s b t) (hs : s.conn.ep.Clean)
    (ht : t.conn.ep.failed = false) : t.conn.ep.Clean := by
  cases h with
  | arm => exact hs.reqNotify
  | event => exact ⟨hs.alive, hs.all.rq, hs.all.sq, hs.all.recvDone, hs.all.sendDone, hs.all.cq⟩
  | firstRecv hcap => exact hs.postRecv (if_pos hcap)
  | poll c p n => exact hs.poll n
  | postRecv hcap => exact hs.postRecv (if_pos hcap)
  | postSend hcap => exact hs.postSend (if_pos hcap)
  | hca he => exact hs.succeeds (Endpoint.hca_alive he ht).2 he
  | @toServer _ opcode m hoffer hready =>
    obtain ⟨-, w, q, hq⟩ := Endpoint.ready_eq_true hready
    simp only [Connection.receive] at ht ⊢
    split
    · exact hs.arrive _
    · rename_i hfit
      simp [if_neg hfit, Endpoint.overrun_of_rq hq] at ht
  | toPeer => exact hs.delivered
  | _ => exact hs

/-- Between two states without a failure the HCA has done nothing but work. -/
theorem Step.works {s t : State σ} {b : Move α} (h : Step P s b t)
    (hs : s.conn.ep.failed = false) (ht : t.conn.ep.failed = false)
    (hfit : ∀ p, P.offer s.peer = some p → p.length ≤ bufferSize) : Works P s b := by
  cases h with
  | hca he => exact (Endpoint.hca_alive he ht).2
  | toServer => exact hfit
  | _ => trivial

/-- **The step lemma.** A step in which nothing fails, and which overwrites
`send_buff` in turn, loses no string and swaps none. -/
theorem Conveys.step {s t : State AnyPeer} {b : Move AnyPeer.Action} (hs : Conveys s)
    (hmsg : ∀ p ∈ s.peer.outbox, IsMessage p) (hw : Works AnyPeer.peer s b) (hb : InTurn s b)
    (h : Step AnyPeer.peer s b t) : Conveys t := by
  obtain ⟨hsound, hwhole⟩ := hs
  refine ⟨hsound.step hw h, ?_⟩
  cases h with
  | arm => exact hwhole
  | event => exact hwhole
  | firstRecv hcap => exact hwhole
  | established => exact hwhole
  | poll c p n =>
    -- What is polled counts as unread until its copy.
    simp only [State.held, unread_poll hsound.clean n]
    exact hwhole
  | done => exact hwhole
  | next wc wcs c p =>
    simp only [State.held, unread_dispatch, dispatch_copied]
    exact hwhole
  | @copy wcs c p b hcopy =>
    obtain ⟨hstr, -⟩ := Buffer.strcpy_spec hcopy
    have hrecv := hsound.receives
    simp only [State.receives, Stage.unposted, Stage.unread] at hrecv
    -- the one receive is in the program's hands, so nothing else is unread
    have hu : (⟨.copy wcs, c, p⟩ : State AnyPeer).unread = 1 := by
      simp only [State.unread, Stage.unread]
      omega
    have hu' : (⟨.postRecv wcs, { c with sendBuff := b }, p⟩ : State AnyPeer).unread = 0 := by
      simp only [State.unread, Stage.unread]
      omega
    have hq : c.ep.sq.map (carried b) = c.ep.sq.map (carried c.sendBuff) :=
      map_carried_write fun hx => hstr.trans (hb hx)
    simp only [State.held, hu, Stage.copied] at hwhole
    simpa [State.held, hu', Stage.copied, hq, hstr] using hwhole
  | postRecv hcap => exact hwhole
  | postSend hcap =>
    simpa [State.held, Stage.copied, carried, State.unread, Stage.unread] using hwhole
  | hca he =>
    have hu := unread_hca hw he
    simp only [State.held, hu]
    rcases Endpoint.hca_cases hw he with
      ⟨k, w, -, -, hk, rfl⟩ | ⟨wc, q, -, -, rfl⟩ | ⟨wc, q, -, -, rfl⟩
    · -- A send carried the string of `send_buff` before it was read.
      simp only [map_carried_set hk]
      exact hwhole
    · exact hwhole
    · exact hwhole
  | @toServer s opcode m hoffer hready =>
    obtain ⟨rest, hrest⟩ : ∃ rest, s.peer.outbox = m :: rest :=
      List.head?_eq_some_iff.mp hoffer
    obtain ⟨hterm, hlen⟩ := hmsg m (by simp [hrest])
    -- A receive is posted, so the message before this one has been copied.
    obtain ⟨hu, -⟩ := hsound.unread_of_ready hready
    obtain ⟨-, w, q, hq⟩ := Endpoint.ready_eq_true hready
    have hu' : (⟨s.stage, s.conn.receive opcode m, AnyPeer.peer.sent s.peer⟩ :
        State AnyPeer).unread = 1 := by
      rw [receive_of_fits hlen]
      simp only [State.unread, Endpoint.arrive_of_rq hq, List.length_append,
        List.length_singleton] at hu ⊢
      omega
    have hbuff : cstr (s.conn.recvBuff.write m).bytes = cstr m :=
      Buffer.cstr_write _ hlen hterm
    simp only [State.held, hu, hrest] at hwhole
    rw [State.held, hu', receive_of_fits hlen, Endpoint.arrive_of_rq hq]
    simpa [hbuff, AnyPeer.peer, hrest] using hwhole
  | @toPeer s m hout hacc =>
    obtain ⟨-, w, q, hq⟩ := Endpoint.outgoing_eq_some hout
    simp only [State.held, hq, List.map_cons, carried, Option.getD_some] at hwhole
    simpa [State.held, State.unread, Connection.delivered, Endpoint.delivered_of_sq hq,
      AnyPeer.peer] using hwhole
  | @peer s a q hq =>
    cases a with
    | send p =>
      cases hq
      simp only [List.map_append, List.map_cons, List.map_nil, ← hwhole, List.append_assoc]
      rfl
    | postRecv => cases hq; exact hwhole

/-- What the peer has got only grows by what is delivered, and what it has sent
only by what it sends. -/
theorem Delivery.step {s t : State AnyPeer} {b : Move AnyPeer.Action} (hs : Delivery s)
    (hb : InTurn s b) (h : Step AnyPeer.peer s b t) : Delivery t := by
  have halive : t.conn.ep.failed = false → Conveys t := by
    intro ht
    have hsf : s.conn.ep.failed = false := by
      by_contra hf
      simp [h.failed (by simpa using hf)] at ht
    have hfit : ∀ p, AnyPeer.peer.offer s.peer = some p → p.length ≤ bufferSize := fun p hp =>
      (hs.messages p (List.mem_of_head? hp)).2
    exact (hs.alive hsf).step hs.messages (h.works hsf ht hfit) hb h
  refine ⟨?_, ?_, halive⟩
  · cases h with
    | toServer => exact fun p hp => hs.messages p (List.mem_of_mem_tail hp)
    | @peer _ a q hq =>
      cases a with
      | send p =>
        cases hq
        exact forall_mem_concat hs.messages hb
      | postRecv => cases hq; exact hs.messages
    | _ => exact hs.messages
  · cases h with
    | toPeer hout =>
      have hf := (Endpoint.outgoing_eq_some hout).1
      obtain ⟨-, w, q, hq⟩ := Endpoint.outgoing_eq_some hout
      have ht := halive (by simpa [Connection.delivered, Endpoint.delivered_of_sq hq] using hf)
      rw [← ht.whole, List.append_assoc]
      exact List.prefix_append _ _
    | @peer _ a q hq =>
      cases a with
      | send p =>
        cases hq
        rw [List.map_append]
        exact hs.inOrder.trans (List.prefix_append _ _)
      | postRecv => cases hq; exact hs.inOrder
    | _ => exact hs.inOrder

theorem delivery_opened (c : Nc) (r b : Block) :
    Delivery ⟨.opening, .create c c r b, AnyPeer.peer.fresh ()⟩ := by
  refine ⟨fun p hp => ?_, List.nil_prefix, fun _ => ⟨⟨Endpoint.Clean.create rfl, rfl⟩, rfl⟩⟩
  cases hp

end RdmaTutorial.Echo
