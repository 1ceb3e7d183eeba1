import RdmaTutorial.Example03.Loops

/-!
# example03: one end of the two loops

What holds at each end while the messages that come from the other one are those
of one iteration: `Carries` for the queue pair, `ClientEnd` and `ServerEnd` with
the programs. Each statement of the programs and each move of the transport gets
a lemma here; that the ends are in step is in `RdmaTutorial.Example03.InStep`.
-/

namespace RdmaTutorial.Example03

open CString Verbs

/-- The completion of the receive of message `m`, and of a send. -/
structure IsRecv (m : List UInt8) (wc : Wc WorkRequest) : Prop where
  status : wc.status = .success
  opcode : wc.opcode = .recv
  wrId : wc.wrId.wrId = 0
  byteLen : wc.byteLen = m.length

structure IsSend (wc : Wc WorkRequest) : Prop where
  status : wc.status = .success
  opcode : wc.opcode = .send
  wrId : wc.wrId.wrId = 1

/-- Nothing has failed at this end, and the messages it holds are all `m`. -/
structure Carries (m : List UInt8) (e : Endpoint WorkRequest (List UInt8)) : Prop where
  alive : e.failed = false
  rq : ∀ w ∈ e.rq, w.wrId = 0
  sq : ∀ x ∈ e.sq, x.wrId = ⟨1, m.length⟩ ∧ ∀ p, x.payload = some p → p = m
  recvDone : ∀ wc ∈ e.recvDone, IsRecv m wc
  sendDone : ∀ wc ∈ e.sendDone, IsSend wc
  cq : ∀ x ∈ e.cq.entries, if x.onSend then IsSend x.wc else IsRecv m x.wc

/-- Messages that have arrived and have not been polled. -/
def arrivals (e : Endpoint WorkRequest (List UInt8)) : Nat := e.recvDone.length + e.cq.recvs

/-- Nothing an end counts is different. -/
structure SameCounts (e e' : Endpoint WorkRequest (List UInt8)) : Prop where
  recvSlots : e'.recvSlots = e.recvSlots
  sendSlots : e'.sendSlots = e.sendSlots
  sq : e'.sq.length = e.sq.length
  arrivals : arrivals e' = arrivals e

variable {m : List UInt8} {c c' : Context}

theorem Carries.create : Carries m (.create .create) := by
  constructor <;> simp [Endpoint.create, Cq.create]

/-- An end that holds no message carries any. -/
theorem Carries.change {e : Endpoint WorkRequest (List UInt8)} (h : Carries m e) (hsq : e.sq = [])
    (ha : arrivals e = 0) (m' : List UInt8) : Carries m' e := by
  obtain ⟨halive, hrq, -, hrecv, hsend, hcq⟩ := h
  simp only [arrivals, Nat.add_eq_zero_iff, List.length_eq_zero_iff] at ha
  refine ⟨halive, hrq, by simp [hsq], by simp [ha.1], hsend, fun x hx => ?_⟩
  have hx' := hcq x hx
  cases hs : x.onSend with
  | true => simpa [hs] using hx'
  | false =>
    have hpos : 0 < e.cq.recvs := List.countP_pos_iff.mpr ⟨x, hx, by simp [hs]⟩
    omega

/-- The HCA reads what the buffer starts with. -/
theorem Carries.read (h : Carries m c.ep) (hbuf : c.ep.sq ≠ [] → m <+: c.buf.bytes) {k : Nat}
    (hc : c.read k = some c') :
    Carries m c'.ep ∧ SameCounts c.ep c'.ep ∧ c'.buf = c.buf := by
  simp only [Context.read, h.alive, Bool.false_eq_true, if_false] at hc
  split at hc
  · rename_i x hx
    cases hc
    have hmem := List.mem_of_getElem? hx
    have hw := (h.sq x hmem).1
    refine ⟨⟨rfl, h.rq, fun y hy => ?_, h.recvDone, h.sendDone, h.cq⟩, ?_, rfl⟩
    · rcases List.mem_or_eq_of_mem_set hy with hy | rfl
      · exact h.sq y hy
      · refine ⟨hw, fun p hp => ?_⟩
        cases hp
        rw [hw]
        exact (List.prefix_iff_eq_take.mp (hbuf (List.ne_nil_of_mem hmem))).symm
    · constructor <;> simp [Endpoint.recvSlots, Endpoint.sendSlots, Example03.arrivals]
  -- It has been delivered.
  · split at hc
    · cases hc
      exact ⟨h, ⟨rfl, rfl, rfl, rfl⟩, rfl⟩
    · cases hc

/-- A completion is reported. -/
theorem Carries.report (h : Carries m c.ep) {x : Hca} (hx : x.Succeeds) (hread : ∀ k, x ≠ .read k)
    {e : Endpoint WorkRequest (List UInt8)} (he : c.ep.hca [] x = some e) :
    Carries m e ∧ SameCounts c.ep e := by
  rcases Endpoint.hca_cases hx he with
    ⟨k, w, rfl, -⟩ | ⟨wc, q, -, hq, rfl⟩ | ⟨wc, q, -, hq, rfl⟩
  · exact absurd rfl (hread k)
  · have hwc := h.sendDone wc (by simp [hq])
    refine ⟨⟨h.alive, h.rq, h.sq, h.recvDone, fun v hv => h.sendDone v (by simp [hq, hv]),
      forall_mem_concat h.cq hwc⟩, ?_⟩
    · constructor <;> simp only [Endpoint.recvSlots, Endpoint.sendSlots, arrivals, hq,
        Cq.add_sends, Cq.add_recvs, if_true, List.length_cons] <;> omega
  · have hwc := h.recvDone wc (by simp [hq])
    refine ⟨⟨h.alive, h.rq, h.sq, fun v hv => h.recvDone v (by simp [hq, hv]), h.sendDone,
      forall_mem_concat h.cq hwc⟩, ?_⟩
    · constructor <;> simp only [Endpoint.recvSlots, Endpoint.sendSlots, arrivals, hq,
        Cq.add_sends, Cq.add_recvs, Bool.false_eq_true, if_false, List.length_cons] <;> omega

theorem Carries.hca (h : Carries m c.ep) (hbuf : c.ep.sq ≠ [] → m <+: c.buf.bytes) {x : Hca}
    (hx : x.Succeeds) (hc : c.hca x = some c') :
    Carries m c'.ep ∧ SameCounts c.ep c'.ep ∧ c'.buf = c.buf := by
  cases x with
  | read k => exact h.read hbuf hc
  | fail => exact hx.elim
  | flushRecv opcode => exact hx.elim
  | flushSend opcode => exact hx.elim
  | _ =>
    obtain ⟨e, he, rfl⟩ := Option.map_eq_some_iff.mp hc
    obtain ⟨hcar, hsame⟩ := h.report hx (by simp) he
    exact ⟨hcar, hsame, rfl⟩

/-- The message leaves. -/
theorem Carries.delivered (h : Carries m c.ep) {p : List UInt8}
    (hout : c.ep.outgoing = some p) :
    p = m ∧ Carries m c.delivered.ep ∧ c.delivered.ep.recvSlots = c.ep.recvSlots ∧
      c.delivered.ep.sendSlots = c.ep.sendSlots ∧
      c.delivered.ep.sq.length + 1 = c.ep.sq.length ∧
      arrivals c.delivered.ep = arrivals c.ep := by
  obtain ⟨-, w, q, hq⟩ := Endpoint.outgoing_eq_some hout
  obtain ⟨hw, hp⟩ := h.sq ⟨w, some p⟩ (by simp [hq])
  rw [Context.delivered, Endpoint.delivered_of_sq hq]
  refine ⟨hp p rfl, ⟨h.alive, h.rq, fun y hy => h.sq y (by simp [hq, hy]), h.recvDone,
    forall_mem_concat h.sendDone ⟨rfl, rfl, by rw [hw]⟩, h.cq⟩, rfl, ?_, ?_, rfl⟩
  · simp only [Endpoint.sendSlots, hq, List.length_append, List.length_cons, List.length_nil]
    omega
  · simp [hq]

/-- A message that fits arrives. -/
theorem Carries.receive (h : Carries m c.ep) (hready : c.ep.ready = true)
    (hfits : m.length ≤ rdmaBufferSize) :
    Carries m (c.receive m).ep ∧ m <+: (c.receive m).buf.bytes ∧
      (c.receive m).ep.recvSlots = c.ep.recvSlots ∧
      (c.receive m).ep.sendSlots = c.ep.sendSlots ∧ (c.receive m).ep.sq = c.ep.sq ∧
      arrivals (c.receive m).ep = arrivals c.ep + 1 := by
  obtain ⟨-, w, q, hq⟩ := Endpoint.ready_eq_true hready
  rw [Context.receive, if_pos hfits, Endpoint.arrive_of_rq hq]
  have hw := h.rq w (by simp [hq])
  refine ⟨⟨h.alive, fun v hv => h.rq v (by simp [hq, hv]), h.sq,
    forall_mem_concat h.recvDone ⟨rfl, rfl, hw, rfl⟩, h.sendDone, h.cq⟩,
    Buffer.prefix_write c.buf hfits, ?_, rfl, rfl, ?_⟩
  · simp only [Endpoint.recvSlots, hq, List.length_append, List.length_cons, List.length_nil]
    omega
  · simp only [arrivals, List.length_append, List.length_cons, List.length_nil]
    omega

theorem Carries.postReceive (h : Carries m c.ep) (hc : c.postReceive = some c') :
    Carries m c'.ep ∧ c'.buf = c.buf ∧ c'.ep.recvSlots = c.ep.recvSlots + 1 ∧
      c'.ep.sendSlots = c.ep.sendSlots ∧ c'.ep.sq = c.ep.sq ∧
      arrivals c'.ep = arrivals c.ep := by
  obtain ⟨e, he, rfl⟩ := Option.map_eq_some_iff.mp hc
  obtain ⟨-, rfl⟩ := Endpoint.postRecv_eq_some he
  refine ⟨⟨h.alive, forall_mem_concat h.rq rfl, h.sq, h.recvDone, h.sendDone, h.cq⟩, rfl, ?_, rfl,
    rfl, rfl⟩
  · simp only [Endpoint.recvSlots, List.length_append, List.length_singleton]
    omega

theorem Carries.postSend (h : Carries m c.ep) (hc : c.postSend m.length = some c') :
    Carries m c'.ep ∧ c'.buf = c.buf ∧ c'.ep.recvSlots = c.ep.recvSlots ∧
      c'.ep.sendSlots = c.ep.sendSlots + 1 ∧ c'.ep.sq.length = c.ep.sq.length + 1 ∧
      arrivals c'.ep = arrivals c.ep := by
  obtain ⟨e, he, rfl⟩ := Option.map_eq_some_iff.mp hc
  obtain ⟨-, rfl⟩ := Endpoint.postSend_eq_some he
  refine ⟨⟨h.alive, h.rq, forall_mem_concat h.sq ⟨rfl, fun p hp => by cases hp⟩, h.recvDone,
    h.sendDone, h.cq⟩, rfl, rfl, ?_, ?_, rfl⟩
  · simp only [Endpoint.sendSlots, List.length_append, List.length_singleton]
    omega
  · simp

/-- The `wr_id` of a completion tells its queue. -/
theorem Carries.count_taken (h : Carries m c.ep) (n : Nat) :
    ((c.ep.cq.taken n).map (·.wrId.wrId)).count 0 + (c.ep.cq.rest n).recvs = c.ep.cq.recvs ∧
      ((c.ep.cq.taken n).map (·.wrId.wrId)).count 1 + (c.ep.cq.rest n).sends =
        c.ep.cq.sends := by
  have hid : ∀ x ∈ c.ep.cq.entries.take n, x.wc.wrId.wrId = if x.onSend then 1 else 0 := by
    intro x hx
    have := h.cq x (List.mem_of_mem_take hx)
    cases hs : x.onSend with
    | true => simp only [hs, if_true] at this; simpa using this.wrId
    | false => simp only [hs, Bool.false_eq_true, if_false] at this; simpa using this.wrId
  have hzero : ((c.ep.cq.taken n).map (·.wrId.wrId)).count 0 =
      (c.ep.cq.entries.take n).countP (!·.onSend) := by
    simp only [Cq.taken, List.count, List.map_map, List.countP_map]
    apply List.countP_congr
    intro x hx
    cases hs : x.onSend <;> simp [hid x hx, hs]
  have hone : ((c.ep.cq.taken n).map (·.wrId.wrId)).count 1 =
      (c.ep.cq.entries.take n).countP (·.onSend) := by
    simp only [Cq.taken, List.count, List.map_map, List.countP_map]
    apply List.countP_congr
    intro x hx
    cases hs : x.onSend <;> simp [hid x hx, hs]
  rw [hzero, hone]
  simp only [Cq.recvs, Cq.sends, Cq.rest_entries, ← List.countP_append, List.take_append_drop,
    and_self]

/-- What the polled completions are taken from. -/
theorem Carries.poll (h : Carries m c.ep) (n : Nat) :
    Carries m (c.poll n).ep ∧
      ((c.ep.cq.taken n).map (·.wrId.wrId)).count 0 + (c.poll n).ep.recvSlots = c.ep.recvSlots ∧
      ((c.ep.cq.taken n).map (·.wrId.wrId)).count 1 + (c.poll n).ep.sendSlots = c.ep.sendSlots ∧
      (c.poll n).ep.sq = c.ep.sq ∧
      ((c.ep.cq.taken n).map (·.wrId.wrId)).count 0 + arrivals (c.poll n).ep = arrivals c.ep := by
  obtain ⟨hzero, hone⟩ := h.count_taken n
  refine ⟨⟨h.alive, h.rq, h.sq, h.recvDone, h.sendDone,
    fun x hx => h.cq x (List.mem_of_mem_drop hx)⟩, ?_, ?_, rfl, ?_⟩
  · simp only [Context.poll, Endpoint.poll, Endpoint.recvSlots]
    omega
  · simp only [Context.poll, Endpoint.poll, Endpoint.sendSlots]
    omega
  · simp only [Context.poll, Endpoint.poll, arrivals]
    omega

theorem Carries.of_taken (h : Carries m c.ep) {n : Nat} {wc : Wc WorkRequest}
    (hwc : wc ∈ c.ep.cq.taken n) : IsSend wc ∨ IsRecv m wc := by
  obtain ⟨x, hx, rfl⟩ := List.mem_map.mp hwc
  have := h.cq x (List.mem_of_mem_take hx)
  cases hs : x.onSend with
  | true => exact .inl (by simpa [hs] using this)
  | false => exact .inr (by simpa [hs] using this)

/-! ## The message -/

theorem zero_notMem_formatD (i : Nat) : 0 ∉ formatD i := by
  unfold formatD
  split
  · decide
  · simp only [List.mem_reverse, List.mem_map, not_exists, not_and]
    intro d hd
    exact digitChar_ne_zero (Nat.digits_lt_base (by decide) hd)

theorem zero_notMem_clientText (k : Nat) : 0 ∉ clientText k := by
  simp only [clientText, List.mem_append, not_or]
  exact ⟨by decide, zero_notMem_formatD k⟩

/-- `snprintf` does not cut the text of any `int`. -/
theorem length_clientText_lt {k : Nat} (h : k < 2 ^ 31) :
    (clientText k).length < rdmaBufferSize := by
  have hd : (Nat.digits 10 k).length ≤ 10 :=
    (Nat.digits_length_le_iff (by decide) k).mpr (by omega)
  simp only [clientText, formatD, rdmaBufferSize, List.length_append, List.length_cons,
    List.length_nil]
  split
  · simp
  · simp only [List.length_reverse, List.length_map]
    omega

/-- What the client sends in iteration `k`. -/
def message (k : Nat) : List UInt8 := clientText k ++ [0]

theorem length_message (k : Nat) : (message k).length = (clientText k).length + 1 := by
  simp [message]

theorem message_fits {k : Nat} (h : k < 2 ^ 31) : (message k).length ≤ rdmaBufferSize := by
  rw [length_message]
  exact length_clientText_lt h

theorem cstr_of_message {b : Buffer rdmaBufferSize} {k : Nat} (h : message k <+: b.bytes) :
    cstr b.bytes = clientText k :=
  Buffer.cstr_of_prefix (zero_notMem_clientText k) h

/-! ## The client's end -/

namespace ClientPc

/-- `msg_count`. -/
def iter : ClientPc → Nat
  | .compose k => k
  | .postReceive k _ => k
  | .postSend k _ => k
  | .poll k _ => k
  | .handle k _ _ _ => k
  | .next k => k
  | .overflow k => k
  | .died k _ => k

/-- The message of this iteration is not posted yet. -/
def holds : ClientPc → Nat
  | .compose _ => 1
  | .postReceive _ _ => 1
  | .postSend _ _ => 1
  | _ => 0

/-- The receives posted in this iteration, while the loop runs. -/
def recvs : ClientPc → Option Nat
  | .compose _ => some 0
  | .postReceive _ _ => some 0
  | .postSend _ _ => some 1
  | .poll _ _ => some 1
  | .handle _ _ _ _ => some 1
  | .next _ => some 1
  | _ => none

/-- The sends posted in this iteration. -/
def sends : ClientPc → Option Nat
  | .compose _ => some 0
  | .postReceive _ _ => some 0
  | .postSend _ _ => some 0
  | .poll _ _ => some 1
  | .handle _ _ _ _ => some 1
  | .next _ => some 1
  | _ => none

/-- The completions polled in this iteration. -/
def polls : ClientPc → Option Nat
  | .compose _ => some 0
  | .postReceive _ _ => some 0
  | .postSend _ _ => some 0
  | .poll _ completions => some completions
  | .handle _ completions n _ => some (completions + n)
  | .next _ => some 2
  | _ => none

/-- The message has been written to the buffer. -/
def composed : ClientPc → Bool
  | .compose _ => false
  | _ => true

/-- `len`, where it is used. -/
def len : ClientPc → Option Nat
  | .postReceive _ len => some len
  | .postSend _ len => some len
  | _ => none

/-- The completions of the batch that are left. -/
def hand : ClientPc → List (Wc WorkRequest)
  | .handle _ _ _ wcs => wcs
  | _ => []

end ClientPc

/-- The receives in a list of `wr_id`s are the zeros, the sends the ones. -/
structure ClientEnd (c : ClientLoop) : Prop where
  carries : Carries (message c.pc.iter) c.ctx.ep
  small : c.pc.iter < 2 ^ 31
  recvs : ∀ n, c.pc.recvs = some n → c.ctx.ep.recvSlots + c.polled.count 0 = n
  sends : ∀ n, c.pc.sends = some n → c.ctx.ep.sendSlots + c.polled.count 1 = n
  polls : ∀ n, c.pc.polls = some n → c.polled.length = n
  ids : c.polled.length = c.polled.count 0 + c.polled.count 1
  composed : c.pc.composed = true → message c.pc.iter <+: c.ctx.buf.bytes
  len : ∀ n, c.pc.len = some n → n = (clientText c.pc.iter).length
  hand : ∀ wc ∈ c.pc.hand, IsSend wc ∨ IsRecv (message c.pc.iter) wc
  left : (c.pc.hand.map (·.wrId.wrId)).count 0 ≤ c.polled.count 0
  echoes : c.echoes = (List.range c.echoes.length).map fun i => (i, clientText i)
  printed : ∀ n, c.pc.recvs = some n →
    c.echoes.length + (c.pc.hand.map (·.wrId.wrId)).count 0 = c.pc.iter + c.polled.count 0

namespace ClientEnd

variable {d : ClientLoop}

theorem initial : ClientEnd .initial where
  carries := .create
  small := by decide
  recvs n hn := by cases hn; rfl
  sends n hn := by cases hn; rfl
  polls n hn := by cases hn; rfl
  ids := rfl
  composed hc := by cases hc
  len n hn := by cases hn
  hand wc hwc := by cases hwc
  left := Nat.zero_le _
  echoes := rfl
  printed n hn := rfl

/-- The message of the iteration that the client is sending or has not sent. -/
def out (c : ClientLoop) : Nat := c.pc.holds + c.ctx.ep.sq.length

/-- The echo, once it has arrived. -/
def back (c : ClientLoop) : Nat := arrivals c.ctx.ep + c.polled.count 0

/-- The program goes on within the iteration, with nothing in its hands. -/
theorem goto (h : ClientEnd d) {pc : ClientPc} (hiter : pc.iter = d.pc.iter)
    (hcomposed : d.pc.composed = true)
    (hrecvs : ∀ n, pc.recvs = some n → d.pc.recvs = some n ∧ d.pc.hand = [])
    (hsends : ∀ n, pc.sends = some n → d.pc.sends = some n)
    (hpolls : ∀ n, pc.polls = some n → d.polled.length = n)
    (hlen : pc.len = none) (hhand : pc.hand = []) : ClientEnd (d.goto pc) := by
  constructor <;> simp only [ClientLoop.goto, hiter, hlen, hhand]
  · exact h.carries
  · exact h.small
  · exact fun n hn => h.recvs n (hrecvs n hn).1
  · exact fun n hn => h.sends n (hsends n hn)
  · exact hpolls
  · exact h.ids
  · exact fun _ => h.composed hcomposed
  · simp
  · simp
  · exact Nat.zero_le _
  · exact h.echoes
  · intro n hn
    have hprinted := h.printed n (hrecvs n hn).1
    rwa [(hrecvs n hn).2] at hprinted

/-- The program dies or stops. -/
theorem stop (h : ClientEnd d) {pc : ClientPc} (hiter : pc.iter = d.pc.iter)
    (hcomposed : d.pc.composed = true) (hrecvs : pc.recvs = none) (hsends : pc.sends = none)
    (hpolls : pc.polls = none) (hlen : pc.len = none) (hhand : pc.hand = []) :
    ClientEnd (d.goto pc) := by
  refine h.goto hiter hcomposed ?_ ?_ ?_ hlen hhand
  · simp [hrecvs]
  · simp [hsends]
  · simp [hpolls]

theorem compose (h : ClientEnd d) {k : Nat} (hpc : d.pc = .compose k) : ClientEnd { d with
    ctx := { d.ctx with buf := d.ctx.buf.snprint (clientText k) },
    pc := .postReceive k (clientText k).length } := by
  have hk := h.small
  have hcarries := h.carries
  have hprinted := h.printed 0 (by rw [hpc]; rfl)
  rw [hpc] at hk hcarries hprinted
  exact {
    carries := hcarries
    small := hk
    recvs := fun n hn => h.recvs n (by rw [hpc]; exact hn)
    sends := fun n hn => h.sends n (by rw [hpc]; exact hn)
    polls := fun n hn => h.polls n (by rw [hpc]; exact hn)
    ids := h.ids
    composed := fun _ => Buffer.prefix_snprint _ (length_clientText_lt hk)
    len := fun n hn => by cases hn; rfl
    hand := fun wc hwc => by cases hwc
    left := Nat.zero_le _
    echoes := h.echoes
    printed := fun _ _ => hprinted }

theorem postReceive (h : ClientEnd d) {k len : Nat} (hpc : d.pc = .postReceive k len)
    {x : Context} (hx : d.ctx.postReceive = some x) :
    ClientEnd { d with ctx := x, pc := .postSend k len } ∧ x.ep.sq = d.ctx.ep.sq ∧
      arrivals x.ep = arrivals d.ctx.ep := by
  obtain ⟨hcarries, hbuf, hr, hs, hsq, ha⟩ := h.carries.postReceive hx
  have hk := h.small
  have hcomposed := h.composed (by rw [hpc]; rfl)
  have hlen := h.len len (by rw [hpc]; rfl)
  have hprinted := h.printed 0 (by rw [hpc]; rfl)
  have hrecvs := h.recvs 0 (by rw [hpc]; rfl)
  rw [hpc] at hk hcarries hcomposed hlen hprinted
  refine ⟨{
    carries := hcarries
    small := hk
    recvs := fun n hn => by
      cases hn
      simp only [hr]
      omega
    sends := fun n hn => by
      simp only [hs]
      exact h.sends n (by rw [hpc]; exact hn)
    polls := fun n hn => h.polls n (by rw [hpc]; exact hn)
    ids := h.ids
    composed := fun _ => hbuf ▸ hcomposed
    len := fun n hn => by cases hn; exact hlen
    hand := fun wc hwc => by cases hwc
    left := Nat.zero_le _
    echoes := h.echoes
    printed := fun _ _ => hprinted }, hsq, ha⟩

theorem postSend (h : ClientEnd d) {k len : Nat} (hpc : d.pc = .postSend k len)
    {x : Context} (hx : d.ctx.postSend (len + 1) = some x) :
    ClientEnd { d with ctx := x, pc := .poll k 0 } ∧
      x.ep.sq.length = d.ctx.ep.sq.length + 1 ∧ arrivals x.ep = arrivals d.ctx.ep := by
  have hlen := h.len len (by rw [hpc]; rfl)
  rw [hlen, ← length_message] at hx
  obtain ⟨hcarries, hbuf, hr, hs, hsq, ha⟩ := h.carries.postSend hx
  have hk := h.small
  have hcomposed := h.composed (by rw [hpc]; rfl)
  have hprinted := h.printed 1 (by rw [hpc]; rfl)
  have hsends := h.sends 0 (by rw [hpc]; rfl)
  rw [hpc] at hk hcarries hcomposed hprinted
  refine ⟨{
    carries := hcarries
    small := hk
    recvs := fun n hn => by
      simp only [hr]
      exact h.recvs n (by rw [hpc]; exact hn)
    sends := fun n hn => by
      cases hn
      simp only [hs]
      omega
    polls := fun n hn => h.polls n (by rw [hpc]; exact hn)
    ids := h.ids
    composed := fun _ => hbuf ▸ hcomposed
    len := fun n hn => by cases hn
    hand := fun wc hwc => by cases hwc
    left := Nat.zero_le _
    echoes := h.echoes
    printed := fun _ _ => hprinted }, hsq, ha⟩

theorem ids_append {l l' : List Nat} (h : l.length = l.count 0 + l.count 1)
    (h' : l'.length = l'.count 0 + l'.count 1) :
    (l ++ l').length = (l ++ l').count 0 + (l ++ l').count 1 := by
  simp only [List.length_append, List.count_append]
  omega

/-- Every completion is one of a receive or of a send. -/
theorem ids_taken {m : List UInt8} {wcs : List (Wc WorkRequest)}
    (h : ∀ wc ∈ wcs, IsSend wc ∨ IsRecv m wc) :
    (wcs.map (·.wrId.wrId)).length =
      (wcs.map (·.wrId.wrId)).count 0 + (wcs.map (·.wrId.wrId)).count 1 := by
  induction wcs with
  | nil => rfl
  | cons wc wcs ih =>
    have hrest := ih fun v hv => h v (by simp [hv])
    have hid : wc.wrId.wrId = 0 ∨ wc.wrId.wrId = 1 :=
      (h wc (by simp)).elim (fun hs => .inr hs.wrId) fun hr => .inl hr.wrId
    simp only [List.map_cons, List.length_cons, List.count_cons, hrest]
    rcases hid with hid | hid <;> simp [hid] <;> omega

/-- The completions of the poll are at the client's hands. -/
theorem poll (h : ClientEnd d) {k cpl n : Nat} (hpc : d.pc = .poll k cpl)
    (hn : n ≤ d.ctx.ep.cq.entries.length) :
    ClientEnd { d with
      ctx := d.ctx.poll n,
      polled := d.polled ++ (d.ctx.ep.cq.taken n).map (·.wrId.wrId),
      pc := .handle k cpl n (d.ctx.ep.cq.taken n) } ∧
    (d.ctx.poll n).ep.sq = d.ctx.ep.sq ∧
    arrivals (d.ctx.poll n).ep +
      (d.polled ++ (d.ctx.ep.cq.taken n).map (·.wrId.wrId)).count 0 = back d := by
  obtain ⟨hcarries, hr, hs, hsq, ha⟩ := h.carries.poll n
  have hhand : ∀ wc ∈ d.ctx.ep.cq.taken n, IsSend wc ∨ IsRecv (message d.pc.iter) wc :=
    fun wc hwc => h.carries.of_taken hwc
  have hids := ids_append h.ids (ids_taken hhand)
  have hk := h.small
  have hcomposed := h.composed (by rw [hpc]; rfl)
  have hprinted := h.printed 1 (by rw [hpc]; rfl)
  have hrecvs := h.recvs 1 (by rw [hpc]; rfl)
  have hsends := h.sends 1 (by rw [hpc]; rfl)
  have hpolls := h.polls cpl (by rw [hpc]; rfl)
  have hlen : (d.ctx.ep.cq.taken n).length = n := by
    rw [Cq.taken, List.length_map, List.length_take]
    omega
  rw [hpc] at hk hcarries hcomposed hhand hprinted
  refine ⟨{
    carries := hcarries
    small := hk
    recvs := fun j hj => by
      cases hj
      simp only [List.count_append]
      omega
    sends := fun j hj => by
      cases hj
      simp only [List.count_append]
      omega
    polls := fun j hj => by
      cases hj
      simp only [List.length_append, List.length_map, hpolls, hlen]
    ids := hids
    composed := fun _ => hcomposed
    len := fun j hj => by cases hj
    hand := hhand
    left := by
      simp only [ClientPc.hand, List.count_append]
      omega
    echoes := h.echoes
    printed := fun j _ => by
      simp only [ClientPc.hand, ClientPc.iter, List.map_nil, List.count_nil] at hprinted
      simp only [ClientPc.hand, ClientPc.iter, List.count_append]
      omega }, hsq, ?_⟩
  simp only [back, List.count_append]
  omega

/-- One completion of the batch: that of the receive has the echo printed. -/
theorem print (h : ClientEnd d) {k cpl n : Nat} {wc : Wc WorkRequest}
    {wcs : List (Wc WorkRequest)} (hpc : d.pc = .handle k cpl n (wc :: wcs)) :
    wc.status = .success ∧ ClientEnd { d with
      echoes :=
        if wc.wrId.wrId = 0 then d.echoes ++ [(k, cstr d.ctx.buf.bytes)] else d.echoes,
      pc := .handle k cpl n wcs } := by
  have hhand := h.hand
  have hleft := h.left
  have hk := h.small
  have hcarries := h.carries
  have hcomposed := h.composed (by rw [hpc]; rfl)
  have hprinted := h.printed 1 (by rw [hpc]; rfl)
  have hrecvs := h.recvs 1 (by rw [hpc]; rfl)
  rw [hpc] at hhand hleft hk hcarries hcomposed hprinted
  simp only [ClientPc.hand, ClientPc.iter, List.map_cons, List.count_cons] at hprinted hleft
  have hwc := hhand wc (by simp [ClientPc.hand])
  refine ⟨hwc.elim IsSend.status IsRecv.status, {
    carries := hcarries
    small := hk
    recvs := fun j hj => h.recvs j (by rw [hpc]; exact hj)
    sends := fun j hj => h.sends j (by rw [hpc]; exact hj)
    polls := fun j hj => h.polls j (by rw [hpc]; exact hj)
    ids := h.ids
    composed := fun _ => hcomposed
    len := fun j hj => by cases hj
    hand := fun v hv => hhand v (List.mem_cons_of_mem _ hv)
    left := Nat.le_trans (Nat.le_add_right _ _) hleft
    echoes := ?_
    printed := fun j _ => ?_ }⟩
  · split
    · rename_i hid
      -- It is the only receive of the iteration, so the echo is the next one.
      have hlen : d.echoes.length = k := by
        simp only [hid, BEq.rfl, if_true] at hprinted hleft
        omega
      rw [List.length_append, List.length_singleton, List.range_succ, List.map_append, ← h.echoes,
        List.map_singleton, hlen]
      simp only [cstr_of_message hcomposed, ClientPc.iter]
    · exact h.echoes
  · simp only [ClientPc.hand, ClientPc.iter]
    split
    · rename_i hid
      simp only [hid, BEq.rfl, if_true] at hprinted
      simp only [List.length_append, List.length_singleton]
      omega
    · rename_i hid
      simpa [hid] using hprinted

/-- Behind the batch: the loop goes on until both completions are there. -/
theorem turn (h : ClientEnd d) {k cpl n : Nat} (hpc : d.pc = .handle k cpl n []) :
    ClientEnd (d.goto (if cpl + n < 2 then .poll k (cpl + n) else .next k)) := by
  have hhand : d.pc.hand = [] := by rw [hpc]; rfl
  have hrecvs := h.recvs 1 (by rw [hpc]; rfl)
  have hsends := h.sends 1 (by rw [hpc]; rfl)
  have hpolls := h.polls (cpl + n) (by rw [hpc]; rfl)
  have hids := h.ids
  split
  · refine h.goto (by rw [hpc]; rfl) (by rw [hpc]; rfl) (fun j hj => ⟨?_, hhand⟩) (fun j hj => ?_)
      (fun j hj => ?_) rfl rfl
    · rw [hpc]; exact hj
    · rw [hpc]; exact hj
    · cases hj; exact hpolls
  · refine h.goto (by rw [hpc]; rfl) (by rw [hpc]; rfl) (fun j hj => ⟨?_, hhand⟩) (fun j hj => ?_)
      (fun j hj => ?_) rfl rfl
    · rw [hpc]; exact hj
    · rw [hpc]; exact hj
    -- One completion was of the receive, one of the send, and there are no more.
    · cases hj; omega

/-- When the loop over the completions is done, both have been polled, one of a
receive and one of a send, and nothing is left. -/
theorem idle_of_next (h : ClientEnd d) {k : Nat} (hpc : d.pc = .next k) :
    d.polled.count 0 = 1 ∧ d.polled.count 1 = 1 ∧ d.ctx.ep.recvSlots = 0 ∧
      d.ctx.ep.sendSlots = 0 := by
  have hrecvs := h.recvs 1 (by rw [hpc]; rfl)
  have hsends := h.sends 1 (by rw [hpc]; rfl)
  have hpolls := h.polls 2 (by rw [hpc]; rfl)
  have hids := h.ids
  omega

theorem next (h : ClientEnd d) {k : Nat} (hpc : d.pc = .next k) (hk : k + 1 < 2 ^ 31) :
    ClientEnd { d with pc := .compose (k + 1), polled := [] } := by
  obtain ⟨hzero, -, hr, hs⟩ := h.idle_of_next hpc
  have hcarries := h.carries
  have hprinted := h.printed 1 (by rw [hpc]; rfl)
  rw [hpc] at hcarries hprinted
  have hsq : d.ctx.ep.sq = [] := by
    simp only [Endpoint.sendSlots] at hs
    exact List.eq_nil_of_length_eq_zero (by omega)
  have ha : arrivals d.ctx.ep = 0 := by
    simp only [Endpoint.recvSlots] at hr
    simp only [arrivals]
    omega
  exact {
    carries := hcarries.change hsq ha _
    small := hk
    recvs := fun j hj => by cases hj; exact hr
    sends := fun j hj => by cases hj; exact hs
    polls := fun j hj => by cases hj; rfl
    ids := rfl
    composed := fun hc => by cases hc
    len := fun j hj => by cases hj
    hand := fun wc hwc => by cases hwc
    left := Nat.zero_le _
    echoes := h.echoes
    printed := fun j _ => by
      simp only [ClientPc.hand, ClientPc.iter, List.map_nil, List.count_nil, hzero] at hprinted
      simp only [ClientPc.hand, ClientPc.iter, List.map_nil, List.count_nil]
      omega }

/-- The program stands still. -/
theorem ofCtx (h : ClientEnd d) {x : Context} (hcarries : Carries (message d.pc.iter) x.ep)
    (hr : x.ep.recvSlots = d.ctx.ep.recvSlots) (hs : x.ep.sendSlots = d.ctx.ep.sendSlots)
    (hbuf : d.pc.composed = true → message d.pc.iter <+: x.buf.bytes) :
    ClientEnd { d with ctx := x } where
  carries := hcarries
  small := h.small
  recvs n hn := by simp only [hr]; exact h.recvs n hn
  sends n hn := by simp only [hs]; exact h.sends n hn
  polls := h.polls
  ids := h.ids
  composed := hbuf
  len := h.len
  hand := h.hand
  left := h.left
  echoes := h.echoes
  printed := h.printed

end ClientEnd

/-! ## The server's end -/

namespace ServerPc

/-- The message is polled and not yet looked at. -/
def unread : ServerPc → Nat
  | .received _ => 1
  | _ => 0

/-- The echo is not posted yet. -/
def echo : ServerPc → Nat
  | .postSend _ => 1
  | _ => 0

/-- The receives posted in this round, while the loop runs. -/
def recvs : ServerPc → Option Nat
  | .pollRecv => some 1
  | .died _ => none
  | _ => some 0

/-- The sends posted in this round. -/
def sends : ServerPc → Option Nat
  | .pollSend => some 1
  | .died _ => none
  | _ => some 0

end ServerPc

/-- What the server holds of message `m`. -/
structure ServerEnd (m : List UInt8) (v : ServerLoop) : Prop where
  carries : Carries m v.ctx.ep
  recvs : ∀ n, v.pc.recvs = some n → v.ctx.ep.recvSlots = n
  sends : ∀ n, v.pc.sends = some n → v.ctx.ep.sendSlots = n
  received : ∀ wc, v.pc = .received wc → IsRecv m wc
  sent : ∀ wc, v.pc = .sent wc → IsSend wc
  len : ∀ n, v.pc = .postSend n → n = m.length

namespace ServerEnd

variable {v v' : ServerLoop}

theorem initial : ServerEnd m .initial where
  carries := .create
  recvs n hn := by cases hn; rfl
  sends n hn := by cases hn; rfl
  received wc hwc := by cases hwc
  sent wc hwc := by cases hwc
  len n hn := by cases hn

/-- Messages that the server has not yet looked at. -/
def unread (v : ServerLoop) : Nat := arrivals v.ctx.ep + v.pc.unread

/-- Echoes that have not arrived yet. -/
def answers (v : ServerLoop) : Nat := v.pc.echo + v.ctx.ep.sq.length

/-- What the server does between two polls. -/
structure Goes (v v' : ServerLoop) : Prop where
  received : v'.received = v.received
  buf : v'.ctx.buf = v.ctx.buf
  unread : unread v' ≤ unread v
  answers : answers v' ≤ answers v

theorem Goes.refl (v : ServerLoop) : Goes v v := ⟨rfl, rfl, Nat.le_refl _, Nat.le_refl _⟩

theorem die (h : ServerEnd m v) (reason : String) :
    ServerEnd m (v.goto (.died reason)) ∧ Goes v (v.goto (.died reason)) := by
  refine ⟨⟨h.carries, ?_, ?_, ?_, ?_, ?_⟩, rfl, rfl, ?_, ?_⟩
  · intro n hn; cases hn
  · intro n hn; cases hn
  · intro wc hwc; cases hwc
  · intro wc hwc; cases hwc
  · intro n hn; cases hn
  · exact Nat.le_add_right _ _
  · simp [ServerEnd.answers, ServerLoop.goto, ServerPc.echo]

/-- The loop has `r` receives and `s` sends posted, and holds no completion and no
length. -/
theorem of_slots {r s : Nat} (hcarries : Carries m v.ctx.ep) (hpr : v.pc.recvs = some r)
    (hps : v.pc.sends = some s) (hr : v.ctx.ep.recvSlots = r) (hs : v.ctx.ep.sendSlots = s)
    (hidle : v.pc = .postReceive ∨ v.pc = .pollRecv ∨ v.pc = .pollSend) : ServerEnd m v where
  carries := hcarries
  recvs n hn := hr.trans (Option.some.inj (hpr.symm.trans hn))
  sends n hn := hs.trans (Option.some.inj (hps.symm.trans hn))
  received wc hwc := by rcases hidle with h | h | h <;> rw [h] at hwc <;> cases hwc
  sent wc hwc := by rcases hidle with h | h | h <;> rw [h] at hwc <;> cases hwc
  len n hn := by rcases hidle with h | h | h <;> rw [h] at hn <;> cases hn

theorem postReceive (h : ServerEnd m v) (hpc : v.pc = .postReceive) {x : Context}
    (hx : v.ctx.postReceive = some x) :
    ServerEnd m { v with ctx := x, pc := .pollRecv } ∧
      Goes v { v with ctx := x, pc := .pollRecv } := by
  obtain ⟨hcarries, hbuf, hr, hs, hsq, ha⟩ := h.carries.postReceive hx
  have hrecvs := h.recvs 0 (by rw [hpc]; rfl)
  have hsends := h.sends 0 (by rw [hpc]; rfl)
  refine ⟨.of_slots hcarries rfl rfl (by rw [hr, hrecvs]) (by rw [hs, hsends]) (.inr (.inl rfl)),
    rfl, hbuf, ?_, ?_⟩
  · simp [ServerEnd.unread, ServerPc.unread, ha]
  · simp [ServerEnd.answers, ServerPc.echo, hsq]

theorem postSend (h : ServerEnd m v) {len : Nat} (hpc : v.pc = .postSend len) {x : Context}
    (hx : v.ctx.postSend len = some x) :
    ServerEnd m { v with ctx := x, pc := .pollSend } ∧
      Goes v { v with ctx := x, pc := .pollSend } := by
  rw [h.len len hpc] at hx
  obtain ⟨hcarries, hbuf, hr, hs, hsq, ha⟩ := h.carries.postSend hx
  have hrecvs := h.recvs 0 (by rw [hpc]; rfl)
  have hsends := h.sends 0 (by rw [hpc]; rfl)
  refine ⟨.of_slots hcarries rfl rfl (by rw [hr, hrecvs]) (by rw [hs, hsends]) (.inr (.inr rfl)),
    rfl, hbuf, ?_, ?_⟩
  · simp [ServerEnd.unread, ServerPc.unread, ha]
  · simp only [ServerEnd.answers, ServerPc.echo, hpc, hsq]
    omega

/-- The first poll finds the completion of the receive: no send is posted. -/
theorem pollRecv (h : ServerEnd m v) (hpc : v.pc = .pollRecv) :
    ServerEnd m (v.pollOne .received) ∧ Goes v (v.pollOne .received) := by
  unfold ServerLoop.pollOne
  split
  · exact ⟨h, .refl v⟩
  rename_i x q hq
  obtain ⟨hcarries, hr, hs, hsq, ha⟩ := h.carries.poll 1
  have hrecvs := h.recvs 1 (by rw [hpc]; rfl)
  have hsends := h.sends 0 (by rw [hpc]; rfl)
  have htaken : v.ctx.ep.cq.taken 1 = [x.wc] := by simp [Cq.taken, hq]
  rw [htaken] at hr hs ha
  have hwc : IsRecv m x.wc := by
    have hmem : x.wc ∈ v.ctx.ep.cq.taken 1 := by rw [htaken]; exact List.mem_singleton_self _
    rcases h.carries.of_taken hmem with hsend | hrecv
    · simp only [List.map_cons, List.map_nil, hsend.wrId, List.count_singleton_self] at hs
      omega
    · exact hrecv
  simp only [List.map_cons, List.map_nil, hwc.wrId, List.count_singleton_self] at hr ha
  refine ⟨⟨hcarries, ?_, ?_, ?_, ?_, ?_⟩, rfl, rfl, ?_, ?_⟩
  · intro n hn
    cases hn
    simp only
    omega
  · intro n hn
    cases hn
    simp only
    omega
  · intro wc hwc'
    cases hwc'
    exact hwc
  · intro wc hwc'; cases hwc'
  · intro n hn; cases hn
  · simp only [ServerEnd.unread, ServerPc.unread, hpc]
    omega
  · simp [ServerEnd.answers, ServerPc.echo, hsq]

/-- The second one that of the send: no receive is posted. -/
theorem pollSend (h : ServerEnd m v) (hpc : v.pc = .pollSend) :
    ServerEnd m (v.pollOne .sent) ∧ Goes v (v.pollOne .sent) := by
  unfold ServerLoop.pollOne
  split
  · exact ⟨h, .refl v⟩
  rename_i x q hq
  obtain ⟨hcarries, hr, hs, hsq, ha⟩ := h.carries.poll 1
  have hrecvs := h.recvs 0 (by rw [hpc]; rfl)
  have hsends := h.sends 1 (by rw [hpc]; rfl)
  have htaken : v.ctx.ep.cq.taken 1 = [x.wc] := by simp [Cq.taken, hq]
  rw [htaken] at hr hs ha
  have hwc : IsSend x.wc := by
    have hmem : x.wc ∈ v.ctx.ep.cq.taken 1 := by rw [htaken]; exact List.mem_singleton_self _
    rcases h.carries.of_taken hmem with hsend | hrecv
    · exact hsend
    · simp only [List.map_cons, List.map_nil, hrecv.wrId, List.count_singleton_self] at hr
      omega
  simp only [List.map_cons, List.map_nil, hwc.wrId, List.count_singleton_self] at hs
  refine ⟨⟨hcarries, ?_, ?_, ?_, ?_, ?_⟩, rfl, rfl, ?_, ?_⟩
  · intro n hn
    cases hn
    simp only
    omega
  · intro n hn
    cases hn
    simp only
    omega
  · intro wc hwc'; cases hwc'
  · intro wc hwc'
    cases hwc'
    exact hwc
  · intro n hn; cases hn
  · simp only [ServerEnd.unread, ServerPc.unread, hpc]
    omega
  · simp [ServerEnd.answers, ServerPc.echo, hsq]

/-- The message is printed, and is to be echoed. -/
theorem print (h : ServerEnd m v) (rs : List (List UInt8 × Nat)) {wc : Wc WorkRequest}
    (hpc : v.pc = .received wc) :
    ServerEnd m { v with received := rs, pc := .postSend wc.byteLen } ∧
      unread { v with received := rs, pc := .postSend wc.byteLen } + 1 = unread v ∧
      answers { v with received := rs, pc := .postSend wc.byteLen } = answers v + 1 := by
  have hwc := h.received wc hpc
  refine ⟨⟨h.carries, ?_, ?_, ?_, ?_, ?_⟩, ?_, ?_⟩
  · intro n hn
    cases hn
    exact h.recvs 0 (by rw [hpc]; rfl)
  · intro n hn
    cases hn
    exact h.sends 0 (by rw [hpc]; rfl)
  · intro wc' hwc'; cases hwc'
  · intro wc' hwc'; cases hwc'
  · intro n hn
    cases hn
    exact hwc.byteLen
  · simp [ServerEnd.unread, ServerPc.unread, hpc]
  · simp only [ServerEnd.answers, ServerPc.echo, hpc]
    omega

/-- The round is over. -/
theorem roundOver (h : ServerEnd m v) {wc : Wc WorkRequest} (hpc : v.pc = .sent wc) :
    ServerEnd m (v.goto .postReceive) ∧ Goes v (v.goto .postReceive) := by
  have hrecvs := h.recvs 0 (by rw [hpc]; rfl)
  have hsends := h.sends 0 (by rw [hpc]; rfl)
  refine ⟨.of_slots h.carries rfl rfl hrecvs hsends (.inl rfl), rfl, rfl, ?_, ?_⟩
  · exact Nat.le_add_right _ _
  · simp [ServerEnd.answers, ServerLoop.goto, ServerPc.echo]

/-- The program stands still. -/
theorem ofCtx (h : ServerEnd m v) {x : Context} (hcarries : Carries m x.ep)
    (hr : x.ep.recvSlots = v.ctx.ep.recvSlots) (hs : x.ep.sendSlots = v.ctx.ep.sendSlots) :
    ServerEnd m { v with ctx := x } where
  carries := hcarries
  recvs n hn := by simp only [hr]; exact h.recvs n hn
  sends n hn := by simp only [hs]; exact h.sends n hn
  received := h.received
  sent := h.sent
  len := h.len

/-- A server that holds no message is ready for any. -/
theorem change (h : ServerEnd m v) (hu : unread v = 0) (ha : answers v = 0) (m' : List UInt8) :
    ServerEnd m' v := by
  simp only [ServerEnd.unread, ServerEnd.answers, Nat.add_eq_zero_iff] at hu ha
  refine ⟨h.carries.change (List.eq_nil_of_length_eq_zero ha.2) hu.1 m', h.recvs, h.sends,
    fun wc hpc => ?_, h.sent, fun n hpc => ?_⟩
  · rw [hpc] at hu
    cases hu.2
  · rw [hpc] at ha
    cases ha.1

end ServerEnd

end RdmaTutorial.Example03
