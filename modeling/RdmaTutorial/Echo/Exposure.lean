import Mathlib.Data.List.Forall2
import RdmaTutorial.Lib.Run
import RdmaTutorial.Echo.Delivery

/-!
# What a connection transmits of its first `send_buff`

An echo writes a string and its NUL to `send_buff` and transmits all of the
buffer, so behind the longest string written so far each payload holds what
the buffer held when it was allocated. `Twin` runs one connection twice, in
the same moves from two buffers: the payloads then differ exactly where the
two buffers differ behind what was covered when the HCA first read one of
them.
-/

namespace RdmaTutorial.Echo

open CString Verbs

/-- The payloads of a connection, oldest first: those delivered, and of each
posted send what the HCA has read. -/
def State.transmitted (s : State AnyPeer) : List (Option Payload) :=
  s.peer.got.map some ++ s.conn.ep.sq.map SendWqe.payload

/-- How much of `send_buff` has been written. -/
def cover (k : Nat) (s : State AnyPeer) : Move AnyPeer.Action → Nat
  | .copy => max k (cstr s.conn.recvBuff.bytes ++ [0]).length
  | _ => k

/-- How much had been when the HCA read it first. -/
def expose (x : Option Nat) (k : Nat) : Move AnyPeer.Action → Option Nat
  | .hca (.read _) => x.or (some k)
  | _ => x

/-- `expose` over a run. -/
def exposure (x : Option Nat) (k : Nat) (s : State AnyPeer) :
    List (Move AnyPeer.Action) → Option Nat
  | [] => x
  | b :: bs =>
    match step AnyPeer.peer s b with
    | none => x
    | some t => exposure (expose x k b) (cover k s b) t bs

/-- A payload of the one run and its counterpart. -/
def Seen (S S' : List UInt8) (x : Option Nat) (p p' : Payload) : Prop :=
  ∃ k ∈ x, ∃ m, k ≤ m ∧ Covered m S S' p p'

/-- What two runs have in common while nothing has failed. -/
structure TwinAlive (S S' : List UInt8) (k : Nat) (x : Option Nat) (s s' : State AnyPeer) :
    Prop where
  sound : Sound s
  messages : ∀ p ∈ s.peer.outbox, IsMessage p
  outbox : s.peer.outbox = s'.peer.outbox
  recv : 0 < s.unread → cstr s.conn.recvBuff.bytes = cstr s'.conn.recvBuff.bytes
  send : Covered k S S' s.conn.sendBuff.bytes s'.conn.sendBuff.bytes
  first : ∀ m ∈ x, m ≤ k ∧ ∃ (i : Nat) (p p' : Payload), s.transmitted[i]? = some (some p) ∧
    s'.transmitted[i]? = some (some p') ∧ Covered m S S' p p'

/-- Two runs of one connection, from the blocks `S` and `S'`. -/
structure Twin (S S' : List UInt8) (k : Nat) (x : Option Nat) (s s' : State AnyPeer) :
    Prop where
  failed : s.conn.ep.failed = s'.conn.ep.failed
  got : List.Forall₂ (Seen S S' x) s.peer.got s'.peer.got
  sq : List.Forall₂ (fun y y' => Option.Rel (Seen S S' x) y.payload y'.payload)
    s.conn.ep.sq s'.conn.ep.sq
  alive : s.conn.ep.failed = false → TwinAlive S S' k x s s'

variable {S S' : List UInt8} {k : Nat} {x : Option Nat} {s s' : State AnyPeer}

theorem Twin.transmitted (h : Twin S S' k x s s') :
    List.Forall₂ (Option.Rel (Seen S S' x)) s.transmitted s'.transmitted := by
  apply List.rel_append
  · rw [List.forall₂_map_left_iff, List.forall₂_map_right_iff]
    exact h.got.imp fun p p' hp => .some hp
  · rw [List.forall₂_map_left_iff, List.forall₂_map_right_iff]
    exact h.sq

/-- If the blocks agree behind what the first read covered, so do all
payloads. -/
theorem Twin.transmitted_eq (h : Twin S S' k x s s') (hx : ∀ m ∈ x, S.drop m = S'.drop m) :
    s.transmitted = s'.transmitted := by
  rw [← List.forall₂_eq_eq_eq]
  apply h.transmitted.imp
  intro o o' ho
  cases ho with
  | none => rfl
  | some hp =>
    obtain ⟨m, hm, n, hmn, hcov⟩ := hp
    rw [hcov.eq_of_drop hmn (hx m hm)]

/-- And only then. -/
theorem Twin.drop_eq (h : Twin S S' k x s s') (ha : s.conn.ep.failed = false)
    (he : s.transmitted = s'.transmitted) : ∀ m ∈ x, S.drop m = S'.drop m := by
  intro m hm
  obtain ⟨-, i, p, p', hp, hp', hcov⟩ := (h.alive ha).first m hm
  rw [he, hp'] at hp
  have hpp : p' = p := by simpa using hp
  exact hcov.drop_eq hpp.symm

/-! ## One move of both runs -/

/-- What `Twin` looks at. -/
def State.data (s : State AnyPeer) :=
  (s.conn.ep.sq, s.conn.ep.failed, s.conn.sendBuff, s.conn.recvBuff, s.peer.got, s.peer.outbox)

/-- A move that leaves all of it alone. -/
theorem Twin.keep (h : Twin S S' k x s s') {t t' : State AnyPeer} (hd : t.data = s.data)
    (hd' : t'.data = s'.data) (hsound : Sound s → Sound t)
    (hu : Sound s → t.unread = s.unread) : Twin S S' k x t t' := by
  simp only [State.data, Prod.mk.injEq] at hd hd'
  obtain ⟨hsq, hf, hsend, hrecv, hgot, hout⟩ := hd
  obtain ⟨hsq', hf', hsend', hrecv', hgot', hout'⟩ := hd'
  refine ⟨by rw [hf, hf']; exact h.failed, by rw [hgot, hgot']; exact h.got,
    by rw [hsq, hsq']; exact h.sq, fun ha => ?_⟩
  obtain ⟨hs, hm, ho, hr, hcov, hfirst⟩ := h.alive (hf ▸ ha)
  refine ⟨hsound hs, by rw [hout]; exact hm, by rw [hout, hout']; exact ho, ?_, ?_, ?_⟩
  · rw [hu hs, hrecv, hrecv']
    exact hr
  · rw [hsend, hsend']
    exact hcov
  · simp only [State.transmitted, hgot, hgot', hsq, hsq']
    exact hfirst

theorem forall₂_set {β γ : Type*} {R : β → γ → Prop} {l : List β} {l' : List γ}
    (h : List.Forall₂ R l l') {a : β} {a' : γ} (ha : R a a') (i : Nat) :
    List.Forall₂ R (l.set i a) (l'.set i a') := by
  induction h generalizing i with
  | nil => exact .nil
  | cons hb hl ih =>
    cases i with
    | zero => exact .cons ha hl
    | succ i => exact .cons hb (ih i)

theorem Seen.expose {p p' : Payload} (h : Seen S S' x p p') (b : Move AnyPeer.Action) :
    Seen S S' (expose x k b) p p' := by
  obtain ⟨m, hm, hcov⟩ := h
  refine ⟨m, ?_, hcov⟩
  unfold Echo.expose
  split
  · obtain rfl := Option.mem_def.mp hm
    rfl
  · exact hm

/-- The copy: the two runs write the same string. -/
theorem Twin.copy {wcs wcs' : List (Wc Nc)} {c c' : Connection} {p p' : AnyPeer}
    (h : Twin S S' k x ⟨.copy wcs, c, p⟩ ⟨.copy wcs', c', p'⟩) {b b' : Block}
    (hb : Buffer.strcpy c.sendBuff c.recvBuff = some b)
    (hb' : Buffer.strcpy c'.sendBuff c'.recvBuff = some b') :
    Twin S S' (max k (cstr c.recvBuff.bytes ++ [0]).length) x
      ⟨.postRecv wcs, { c with sendBuff := b }, p⟩
      ⟨.postRecv wcs', { c' with sendBuff := b' }, p'⟩ := by
  refine ⟨h.failed, h.got, h.sq, fun ha => ?_⟩
  obtain ⟨hs, hm, ho, hr, hcov, hfirst⟩ := h.alive ha
  have hstr := hr (by simp only [State.unread, Stage.unread]; omega)
  refine ⟨hs.step (P := AnyPeer.peer) (b := .copy) trivial (.copy hb), hm, ho, fun _ => hstr, ?_,
    fun m hx => ?_⟩
  · rw [Buffer.strcpy_bytes hb, Buffer.strcpy_bytes hb', ← hstr]
    exact hcov.write _
  · obtain ⟨hle, hpair⟩ := hfirst m hx
    exact ⟨Nat.le_trans hle (Nat.le_max_left _ _), hpair⟩

theorem Twin.postSend {wcs wcs' : List (Wc Nc)} {c c' : Connection} {p p' : AnyPeer}
    (h : Twin S S' k x ⟨.postSend wcs, c, p⟩ ⟨.postSend wcs', c', p'⟩)
    (hcap : c.ep.sendSlots < maxSendWr) :
    Twin S S' k x
      ⟨.batch wcs, { c with ep := { c.ep with sq := c.ep.sq ++ [⟨c.sendWrId, none⟩] } }, p⟩
      ⟨.batch wcs', { c' with ep := { c'.ep with sq := c'.ep.sq ++ [⟨c'.sendWrId, none⟩] } },
        p'⟩ := by
  refine ⟨h.failed, h.got, List.rel_append h.sq (.cons .none .nil), fun ha => ?_⟩
  obtain ⟨hs, hm, ho, hr, hcov, hfirst⟩ := h.alive ha
  refine ⟨hs.step (P := AnyPeer.peer) (b := .postSend) trivial (.postSend hcap), hm, ho, hr, hcov,
    fun m hx => ?_⟩
  obtain ⟨hle, i, q, q', hq, hq', hpair⟩ := hfirst m hx
  have happend : ∀ {l : List (Option Payload)} {o : Option Payload} (l' : List (Option Payload)),
      l[i]? = some o → (l ++ l')[i]? = some o := fun l' hl => by
    rw [List.getElem?_append_left (List.getElem?_eq_some_iff.mp hl).1]
    exact hl
  refine ⟨hle, i, q, q', ?_, ?_, hpair⟩
  · simpa [State.transmitted] using happend [none] hq
  · simpa [State.transmitted] using happend [none] hq'

/-- A message arrives: the same one in both runs. -/
theorem Twin.toServer (h : Twin S S' k x s s') {m m' : Payload} {opcode : WcOpcode}
    (hoffer : AnyPeer.peer.offer s.peer = some m) (hready : s.conn.ep.ready = true)
    (hoffer' : AnyPeer.peer.offer s'.peer = some m') (hready' : s'.conn.ep.ready = true) :
    Twin S S' k x
      { s with conn := s.conn.receive opcode m, peer := AnyPeer.peer.sent s.peer }
      { s' with conn := s'.conn.receive opcode m', peer := AnyPeer.peer.sent s'.peer } := by
  obtain ⟨hf, w, q, hq⟩ := Endpoint.ready_eq_true hready
  obtain ⟨hf', w', q', hq'⟩ := Endpoint.ready_eq_true hready'
  obtain ⟨hs, hm, ho, hr, hcov, hfirst⟩ := h.alive hf
  -- The peer has sent the same in both runs.
  obtain rfl : m = m' := by
    have : AnyPeer.peer.offer s.peer = AnyPeer.peer.offer s'.peer := congrArg List.head? ho
    rw [hoffer, hoffer'] at this
    exact Option.some.inj this
  obtain ⟨hterm, hlen⟩ := hm m (List.mem_of_head? hoffer)
  have hstep : Sound
      { s with conn := s.conn.receive opcode m, peer := AnyPeer.peer.sent s.peer } :=
    hs.step (b := .toServer opcode) (fun p hp => (hm p (List.mem_of_head? hp)).2)
      (.toServer hoffer hready)
  rw [receive_of_fits hlen, Endpoint.arrive_of_rq hq] at hstep ⊢
  rw [receive_of_fits hlen, Endpoint.arrive_of_rq hq']
  refine ⟨h.failed, h.got, h.sq, fun _ => ⟨hstep, fun p hp => hm p (List.mem_of_mem_tail hp),
    congrArg List.tail ho, fun _ => ?_, hcov, hfirst⟩⟩
  exact (Buffer.cstr_write _ hlen hterm).trans (Buffer.cstr_write _ hlen hterm).symm

/-- An echo is delivered: it moves from one list of payloads to the other. -/
theorem Twin.toPeer (h : Twin S S' k x s s') {m m' : Payload}
    (hout : s.conn.ep.outgoing = some m) (hacc : AnyPeer.peer.accepts s.peer = true)
    (hout' : s'.conn.ep.outgoing = some m') :
    Twin S S' k x
      { s with conn := s.conn.delivered, peer := AnyPeer.peer.receive m s.peer }
      { s' with conn := s'.conn.delivered, peer := AnyPeer.peer.receive m' s'.peer } := by
  obtain ⟨hf, w, q, hq⟩ := Endpoint.outgoing_eq_some hout
  obtain ⟨hf', w', q', hq'⟩ := Endpoint.outgoing_eq_some hout'
  have hsq := h.sq
  rw [hq, hq'] at hsq
  cases hsq with
  | cons hhead htail =>
    cases hhead with
    | some hhead =>
      obtain ⟨hs, hm, ho, hr, hcov, hfirst⟩ := h.alive hf
      have hsound := hs.step (P := AnyPeer.peer) (b := .toPeer) trivial (.toPeer hout hacc)
      have hu : (⟨s.stage, s.conn.delivered, AnyPeer.peer.receive m s.peer⟩ :
          State AnyPeer).unread = s.unread := by
        simp only [State.unread, Connection.delivered, Endpoint.delivered_of_sq hq]
      refine ⟨?_, List.rel_append h.got (.cons hhead .nil), ?_, fun _ => ⟨hsound, hm, ho, ?_, hcov,
        ?_⟩⟩
      · simp only [Connection.delivered, Endpoint.delivered_of_sq hq,
          Endpoint.delivered_of_sq hq']
        exact h.failed
      · simp only [Connection.delivered, Endpoint.delivered_of_sq hq,
          Endpoint.delivered_of_sq hq']
        exact htail
      · rw [hu]
        exact hr
      · simp only [State.transmitted, hq, hq', List.map_cons] at hfirst
        simpa [State.transmitted, Connection.delivered, Endpoint.delivered_of_sq hq,
          Endpoint.delivered_of_sq hq', AnyPeer.peer] using hfirst

theorem Seen.expose_rel {o o' : Option Payload} (h : Option.Rel (Seen S S' x) o o')
    (b : Move AnyPeer.Action) : Option.Rel (Seen S S' (Echo.expose x k b)) o o' := by
  cases h with
  | none => exact .none
  | some hp => exact .some (hp.expose b)

/-- Where nothing has been read, a read puts what was read. -/
theorem transmitted_set {s : State AnyPeer} {n : Nat} {w : Nc} {buff : Payload}
    (hk : s.conn.ep.sq[n]? = some ⟨w, none⟩) {i : Nat} {p : Payload}
    (hp : s.transmitted[i]? = some (some p) ∨ i = s.peer.got.length + n ∧ p = buff) :
    (s.peer.got.map some ++
      (s.conn.ep.sq.set n ⟨w, some buff⟩).map SendWqe.payload)[i]? = some (some p) := by
  have hset : s.peer.got.map some ++ (s.conn.ep.sq.set n ⟨w, some buff⟩).map SendWqe.payload =
      s.transmitted.set (s.peer.got.length + n) (some buff) := by
    rw [State.transmitted, List.set_append_right _ _ (by simp)]
    simp [List.map_set]
  have hat : s.transmitted[s.peer.got.length + n]? = some none := by
    rw [State.transmitted, List.getElem?_append_right (by simp)]
    simp [hk]
  rw [hset]
  rcases hp with hp | ⟨rfl, rfl⟩
  · rw [List.getElem?_set_ne, hp]
    rintro rfl
    simp [hat] at hp
  · rw [List.getElem?_set_self (List.getElem?_eq_some_iff.mp hat).1]

/-- The HCA reads a send: the first time, what is covered now is what is
exposed. -/
theorem Twin.read (h : Twin S S' k x s s') (hf : s.conn.ep.failed = false) {n : Nat} {w w' : Nc}
    (hk : s.conn.ep.sq[n]? = some ⟨w, none⟩) (hk' : s'.conn.ep.sq[n]? = some ⟨w', none⟩) :
    Twin S S' k (expose x k (.hca (.read n)))
      { s with conn := { s.conn with ep := { s.conn.ep with
          sq := s.conn.ep.sq.set n ⟨w, some s.conn.sendBuff.bytes⟩ } } }
      { s' with conn := { s'.conn with ep := { s'.conn.ep with
          sq := s'.conn.ep.sq.set n ⟨w', some s'.conn.sendBuff.bytes⟩ } } } := by
  obtain ⟨hs, hm, ho, hr, hcov, hfirst⟩ := h.alive hf
  have hread : s.conn.ep.hca s.conn.sendBuff.bytes (.read n) = some { s.conn.ep with
      sq := s.conn.ep.sq.set n ⟨w, some s.conn.sendBuff.bytes⟩ } := by
    simp [Endpoint.hca, hf, hk]
  have hsound := hs.step (P := AnyPeer.peer) (b := .hca (.read n)) trivial (.hca hread)
  have hlen : s.peer.got.length = s'.peer.got.length := h.got.length_eq
  have hseen : Seen S S' (expose x k (.hca (.read n))) s.conn.sendBuff.bytes
      s'.conn.sendBuff.bytes := by
    cases x with
    -- The first read: what is covered now is what everybody has seen.
    | none => exact ⟨k, rfl, k, Nat.le_refl k, hcov⟩
    | some j => exact ⟨j, rfl, k, (hfirst j rfl).1, hcov⟩
  refine ⟨h.failed, h.got.imp fun p p' hp => hp.expose _,
    forall₂_set (h.sq.imp fun y y' hy => Seen.expose_rel hy _) (.some hseen) n,
    fun _ => ⟨hsound, hm, ho, hr, hcov, fun m hx => ?_⟩⟩
  cases x with
  | none =>
    obtain rfl : k = m := Option.some.inj hx
    exact ⟨Nat.le_refl k, _, _, _, transmitted_set hk (.inr ⟨rfl, rfl⟩),
      transmitted_set hk' (.inr ⟨by rw [hlen], rfl⟩), hcov⟩
  | some j =>
    obtain ⟨hle, i, p, p', hp, hp', hpair⟩ := hfirst m hx
    exact ⟨hle, i, p, p', transmitted_set hk (.inl hp), transmitted_set hk' (.inl hp'), hpair⟩

theorem Twin.hca (h : Twin S S' k x s s') {m : Hca} {e e' : Endpoint Nc Payload}
    (he : s.conn.ep.hca s.conn.sendBuff.bytes m = some e)
    (he' : s'.conn.ep.hca s'.conn.sendBuff.bytes m = some e') :
    Twin S S' k (expose x k (.hca m)) { s with conn := { s.conn with ep := e } }
      { s' with conn := { s'.conn with ep := e' } } := by
  by_cases hm : m.Succeeds
  · have hu := unread_hca hm he
    have hsound : Sound s → Sound { s with conn := { s.conn with ep := e } } := fun hs =>
      hs.step (P := AnyPeer.peer) (b := .hca m) hm (.hca he)
    rcases Endpoint.hca_cases hm he with
      ⟨n, w, rfl, hf, hk, rfl⟩ | ⟨wc, q, rfl, -, rfl⟩ | ⟨wc, q, rfl, -, rfl⟩
    · rcases Endpoint.hca_cases hm he' with
        ⟨n', w', hn, -, hk', rfl⟩ | ⟨wc', q', hn, -⟩ | ⟨wc', q', hn, -⟩
      · cases hn
        exact h.read hf hk hk'
      · cases hn
      · cases hn
    · rcases Endpoint.hca_cases hm he' with
        ⟨n', w', hn, -⟩ | ⟨wc', q', -, -, rfl⟩ | ⟨wc', q', hn, -⟩
      · cases hn
      · exact h.keep rfl rfl hsound fun _ => hu
      · cases hn
    · rcases Endpoint.hca_cases hm he' with
        ⟨n', w', hn, -⟩ | ⟨wc', q', hn, -⟩ | ⟨wc', q', -, -, rfl⟩
      · cases hn
      · cases hn
      · exact h.keep rfl rfl hsound fun _ => hu
  · rcases Endpoint.hca_failing hm he with
      ⟨rfl, rfl⟩ | ⟨op, w, q, rfl, hf, -, rfl⟩ | ⟨op, y, q, rfl, hf, hq, rfl⟩
    · -- A failure: nothing more is said of this connection but what went before.
      rcases Endpoint.hca_failing hm he' with ⟨-, rfl⟩ | ⟨op', w', q', hn, -⟩ | ⟨op', y', q', hn, -⟩
      · exact ⟨rfl, h.got, h.sq, fun ha => by cases ha⟩
      · cases hn
      · cases hn
    · rcases Endpoint.hca_failing hm he' with
        ⟨hn, -⟩ | ⟨op', w', q', -, -, -, rfl⟩ | ⟨op', y', q', hn, -⟩
      · cases hn
      · exact ⟨h.failed, h.got, h.sq, fun ha => by simp [hf] at ha⟩
      · cases hn
    · rcases Endpoint.hca_failing hm he' with
        ⟨hn, -⟩ | ⟨op', w', q', hn, -⟩ | ⟨op', y', q', -, -, hq', rfl⟩
      · cases hn
      · cases hn
      · have hsq := h.sq
        rw [hq, hq'] at hsq
        exact ⟨h.failed, h.got, (List.forall₂_cons.mp hsq).2, fun ha => by simp [hf] at ha⟩

/-- What the peer of a connection sends are messages. -/
def SendsMessage : Move AnyPeer.Action → Prop
  | .peer (.send p) => IsMessage p
  | _ => True

instance : DecidablePred SendsMessage := fun b => by
  unfold SendsMessage
  split <;> infer_instance

/-- **The step lemma**, for two runs in step. -/
theorem Twin.step (h : Twin S S' k x s s') {b : Move AnyPeer.Action} (hb : SendsMessage b)
    {t t' : State AnyPeer} (hs : Step AnyPeer.peer s b t) (hs' : Step AnyPeer.peer s' b t') :
    Twin S S' (cover k s b) (expose x k b) t t' := by
  have hsound : Works AnyPeer.peer s b → Sound s → Sound t := fun hw hsd => hsd.step hw hs
  cases hs with
  | arm => cases hs'; exact h.keep rfl rfl (hsound trivial) fun _ => rfl
  | event => cases hs'; exact h.keep rfl rfl (hsound trivial) fun _ => rfl
  | firstRecv => cases hs'; exact h.keep rfl rfl (hsound trivial) fun _ => rfl
  | established => cases hs'; exact h.keep rfl rfl (hsound trivial) fun _ => rfl
  | poll c p n =>
    cases hs'
    exact h.keep rfl rfl (hsound trivial) fun hsd => unread_poll hsd.clean n
  | done => cases hs' <;> exact h.keep rfl rfl (hsound trivial) fun _ => rfl
  | next wc wcs c p =>
    cases hs' <;> exact h.keep rfl rfl (hsound trivial) fun _ => unread_dispatch wc wcs c p
  | copy hcopy =>
    cases hs' with
    | copy hcopy' => exact h.copy hcopy hcopy'
  | postRecv => cases hs'; exact h.keep rfl rfl (hsound trivial) fun _ => rfl
  | postSend hcap => cases hs'; exact h.postSend hcap
  | hca he =>
    cases hs' with
    | hca he' => exact h.hca he he'
  | toServer hoffer hready =>
    cases hs' with
    | toServer hoffer' hready' => exact h.toServer hoffer hready hoffer' hready'
  | toPeer hout hacc =>
    cases hs' with
    | toPeer hout' hacc' => exact h.toPeer hout hacc hout'
  | @peer _ a q hq =>
    cases hs' with
    | peer hq' =>
      cases a with
      | postRecv =>
        cases hq
        cases hq'
        exact h.keep rfl rfl (hsound trivial) fun _ => rfl
      | send p =>
        cases hq
        cases hq'
        refine ⟨h.failed, h.got, h.sq, fun ha => ?_⟩
        obtain ⟨hsd, hm, ho, hr, hcov, hfirst⟩ := h.alive ha
        exact ⟨hsound trivial hsd, forall_mem_concat hm hb, congrArg (· ++ [p]) ho, hr, hcov,
          hfirst⟩

/-- The run lemma. -/
theorem Twin.run {bs : List (Move AnyPeer.Action)} (hb : ∀ b ∈ bs, SendsMessage b)
    {t t' : State AnyPeer} (h : Twin S S' k x s s')
    (hs : Run.run (Echo.step AnyPeer.peer) s bs = some t)
    (hs' : Run.run (Echo.step AnyPeer.peer) s' bs = some t') :
    ∃ m, Twin S S' m (exposure x k s bs) t t' := by
  induction bs generalizing k x s s' with
  | nil => cases hs; cases hs'; exact ⟨k, h⟩
  | cons b bs ih =>
    obtain ⟨u, hu, hrun⟩ := Run.run_cons hs
    obtain ⟨u', hu', hrun'⟩ := Run.run_cons hs'
    simp only [exposure, hu]
    exact ih (fun c hc => hb c (by simp [hc]))
      (h.step (hb b (by simp)) (.of_step hu) (.of_step hu')) hrun hrun'

/-- Both runs start from what `malloc` returned. -/
theorem twin_opened (c c' : Nc) (r r' b b' : Block) :
    Twin b.bytes b'.bytes 0 none ⟨.opening, .create c c r b, AnyPeer.peer.fresh ()⟩
      ⟨.opening, .create c' c' r' b', AnyPeer.peer.fresh ()⟩ := by
  refine ⟨rfl, .nil, .nil, fun _ => ⟨⟨Endpoint.Clean.create rfl, rfl⟩, fun p hp => ?_, rfl,
    fun hu => ?_, .start _ _, fun m hm => ?_⟩⟩
  · cases hp
  · cases hu
  · cases hm

end RdmaTutorial.Echo
