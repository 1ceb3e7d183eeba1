import RdmaTutorial.Example03.Ends

/-!
# example03: the two loops in step

A message and its echo are one token, with the client, on its way to the server,
at the server, or on its way back, and wherever it is the buffer there starts
with the message of the client's current iteration (`InStep`). The only thing an
earlier iteration leaves behind is the completion of the server's send, and the
server polls that before it posts its next receive.
-/

namespace RdmaTutorial.Example03

open CString Verbs

open ClientEnd (out back)
open ServerEnd (unread answers)

/-- Where the token is decides how many messages the server has printed, and how
many echoes have arrived. -/
structure InStep (s : Loops) : Prop where
  client : ClientEnd s.client
  server : ServerEnd (message s.client.pc.iter) s.server
  token : out s.client + unread s.server + answers s.server + back s.client ≤ 1
  arrived : 0 < unread s.server + answers s.server →
    message s.client.pc.iter <+: s.server.ctx.buf.bytes
  received : s.server.received = (List.range s.server.received.length).map fun i =>
    (clientText i, (message i).length)
  got : s.client.got = (List.range s.client.got.length).map message
  unsent : 0 < out s.client + unread s.server →
    s.server.received.length = s.client.pc.iter
  unanswered : 0 < out s.client + unread s.server + answers s.server →
    s.client.got.length = s.client.pc.iter
  served : 0 < answers s.server + back s.client →
    s.server.received.length = s.client.pc.iter + 1
  answered : 0 < back s.client → s.client.got.length = s.client.pc.iter + 1

namespace InStep

variable {s : Loops}

theorem initial : InStep .initial where
  client := .initial
  server := .initial
  token := Nat.le_refl 1
  arrived h := by cases h
  received := rfl
  got := rfl
  unsent _ := rfl
  unanswered _ := rfl
  served h := by cases h
  answered h := by cases h

/-- The client goes on in its iteration. -/
theorem of_client (h : InStep s) {c : ClientLoop} (hend : ClientEnd c)
    (hiter : c.pc.iter = s.client.pc.iter) (hout : out c ≤ out s.client)
    (hback : back c ≤ back s.client) (hgot : c.got = s.client.got) :
    InStep { s with client := c } := by
  have htoken := h.token
  refine ⟨hend, ?_, ?_, ?_, h.received, ?_, ?_, ?_, ?_, ?_⟩
  · rw [hiter]; exact h.server
  · simp only
    omega
  · rw [hiter]; exact h.arrived
  · rw [hgot]; exact h.got
  · intro hpos
    rw [hiter]
    exact h.unsent (Nat.lt_of_lt_of_le hpos (by simp only; omega))
  · intro hpos
    rw [hiter, hgot]
    exact h.unanswered (Nat.lt_of_lt_of_le hpos (by simp only; omega))
  · intro hpos
    rw [hiter]
    exact h.served (Nat.lt_of_lt_of_le hpos (by simp only; omega))
  · intro hpos
    rw [hiter, hgot]
    exact h.answered (Nat.lt_of_lt_of_le hpos hback)

/-- The server prints nothing. -/
theorem of_server (h : InStep s) {v : ServerLoop}
    (hend : ServerEnd (message s.client.pc.iter) v) (hgoes : ServerEnd.Goes s.server v) :
    InStep { s with server := v } := by
  have htoken := h.token
  obtain ⟨hreceived, hbuf, hunread, hanswers⟩ := hgoes
  refine ⟨h.client, hend, ?_, ?_, ?_, h.got, ?_, ?_, ?_, h.answered⟩
  · simp only
    omega
  · intro hpos
    rw [hbuf]
    exact h.arrived (Nat.lt_of_lt_of_le hpos (Nat.add_le_add hunread hanswers))
  · rw [hreceived]; exact h.received
  · intro hpos
    rw [hreceived]
    exact h.unsent (Nat.lt_of_lt_of_le hpos (by simp only; omega))
  · intro hpos
    exact h.unanswered (Nat.lt_of_lt_of_le hpos (by simp only; omega))
  · intro hpos
    rw [hreceived]
    exact h.served (Nat.lt_of_lt_of_le hpos (by simp only; omega))

/-- The client's next iteration: message and echo of the last one are done
with. -/
theorem next (h : InStep s) {k : Nat} (hpc : s.client.pc = .next k) (hk : k + 1 < 2 ^ 31) :
    InStep { s with client := { s.client with pc := .compose (k + 1), polled := [] } } := by
  obtain ⟨hzero, -, hr, hs⟩ := h.client.idle_of_next hpc
  have hback : 0 < back s.client := by
    simp only [back]
    omega
  have htoken := h.token
  have hreceived := h.served (by omega)
  have hgot := h.answered hback
  have hiter : s.client.pc.iter = k := by rw [hpc]; rfl
  have hback' : back { s.client with pc := .compose (k + 1), polled := [] } = 0 := by
    simp only [Endpoint.recvSlots] at hr
    simp only [back, arrivals, List.count_nil]
    omega
  have hout' : out { s.client with pc := .compose (k + 1), polled := [] } = 1 := by
    simp only [Endpoint.sendSlots] at hs
    simp only [out, ClientPc.holds]
    omega
  refine ⟨h.client.next hpc hk, h.server.change (by omega) (by omega) _, ?_, ?_, h.received,
    h.got, ?_, ?_, ?_, ?_⟩
  · simp only [hback', hout']
    omega
  · intro hpos
    simp only at hpos
    omega
  · intro _
    simp only [ClientPc.iter]
    omega
  · intro _
    simp only [ClientPc.iter]
    omega
  · intro hpos
    simp only [hback'] at hpos
    omega
  · intro hpos
    simp only [hback'] at hpos
    omega

theorem stop (h : InStep s) {pc : ClientPc} (hiter : pc.iter = s.client.pc.iter)
    (hcomposed : s.client.pc.composed = true) (hholds : pc.holds = 0) (hrecvs : pc.recvs = none)
    (hsends : pc.sends = none) (hpolls : pc.polls = none) (hlen : pc.len = none)
    (hhand : pc.hand = []) : InStep { s with client := s.client.goto pc } := by
  refine h.of_client (h.client.stop hiter hcomposed hrecvs hsends hpolls hlen hhand) hiter ?_
    (Nat.le_refl _) rfl
  simp [out, ClientLoop.goto, hholds]

/-- A statement of the client. -/
theorem clientExec (h : InStep s) {r : Result} {n : Nat} {c : ClientLoop}
    (hc : s.client.exec r n = some c) : InStep { s with client := c } := by
  unfold ClientLoop.exec at hc
  split at hc
  · rename_i k _ hpc
    cases hc
    exact h.of_client (h.client.compose hpc) (by rw [hpc]; rfl)
      (by simp [out, hpc, ClientPc.holds]) (Nat.le_refl _) rfl
  · rename_i k len hpc
    split at hc
    · rename_i x hx
      cases hc
      obtain ⟨hend, hsq, ha⟩ := h.client.postReceive hpc hx
      exact h.of_client hend (by rw [hpc]; rfl) (by simp [out, hpc, ClientPc.holds, hsq])
        (by simp [back, ha]) rfl
    · cases hc
      exact h.stop (by rw [hpc]; rfl) (by rw [hpc]; rfl) rfl rfl rfl rfl rfl rfl
  · rename_i k len hpc
    cases hc
    exact h.stop (by rw [hpc]; rfl) (by rw [hpc]; rfl) rfl rfl rfl rfl rfl rfl
  · rename_i k len hpc
    split at hc
    · rename_i x hx
      cases hc
      obtain ⟨hend, hsq, ha⟩ := h.client.postSend hpc hx
      refine h.of_client hend (by rw [hpc]; rfl) ?_ (by simp [back, ha]) rfl
      simp only [out, hpc, ClientPc.holds, hsq]
      omega
    · cases hc
      exact h.stop (by rw [hpc]; rfl) (by rw [hpc]; rfl) rfl rfl rfl rfl rfl rfl
  · rename_i k len hpc
    cases hc
    exact h.stop (by rw [hpc]; rfl) (by rw [hpc]; rfl) rfl rfl rfl rfl rfl rfl
  · rename_i k cpl hpc
    split at hc
    · rename_i hn
      cases hc
      obtain ⟨hend, hsq, hback⟩ := h.client.poll hpc hn.2
      exact h.of_client hend (by rw [hpc]; rfl) (by simp [out, hpc, ClientPc.holds, hsq])
        (Nat.le_of_eq hback) rfl
    · cases hc
  · rename_i k cpl hpc
    cases hc
    exact h.stop (by rw [hpc]; rfl) (by rw [hpc]; rfl) rfl rfl rfl rfl rfl rfl
  · rename_i k cpl m wc wcs _ hpc
    obtain ⟨hst, hend⟩ := h.client.print hpc
    rw [if_neg (not_not.mpr hst)] at hc
    cases hc
    exact h.of_client hend (by rw [hpc]; rfl) (by simp [out, hpc, ClientPc.holds])
      (Nat.le_refl _) rfl
  · rename_i k cpl m _ hpc
    cases hc
    refine h.of_client (h.client.turn hpc) ?_ ?_ (Nat.le_refl _) rfl
    · rw [hpc, ClientLoop.goto]
      split <;> rfl
    · simp only [out, ClientLoop.goto, hpc]
      split <;> exact Nat.le_refl _
  · rename_i k _ hpc
    split at hc
    · rename_i hk
      cases hc
      exact h.next hpc hk
    · cases hc
      exact h.stop (by rw [hpc]; rfl) (by rw [hpc]; rfl) rfl rfl rfl rfl rfl rfl
  · cases hc
  · cases hc

/-- The server prints the message, and is to echo it. -/
theorem print (h : InStep s) {wc : Wc WorkRequest} (hpc : s.server.pc = .received wc) :
    InStep { s with server := { s.server with
      received := s.server.received ++ [(cstr s.server.ctx.buf.bytes, wc.byteLen)],
      pc := .postSend wc.byteLen } } := by
  have hwc := h.server.received wc hpc
  obtain ⟨hend, hunread, hanswers⟩ := h.server.print
    (s.server.received ++ [(cstr s.server.ctx.buf.bytes, wc.byteLen)]) hpc
  have htoken := h.token
  have hlen := h.unsent (by omega)
  have hgot := h.unanswered (by omega)
  have hstr := cstr_of_message (h.arrived (by omega))
  refine ⟨h.client, hend, ?_, fun _ => h.arrived (by omega), ?_, h.got, ?_, fun _ => hgot, ?_, ?_⟩
  · simp only
    omega
  · simp only
    rw [List.length_append, List.length_singleton, List.range_succ, List.map_append, ← h.received,
      List.map_singleton, hstr, hwc.byteLen, hlen]
  · intro hpos
    simp only at hpos
    omega
  · intro _
    simp only [List.length_append, List.length_singleton]
    omega
  · intro hpos
    simp only at hpos
    omega

/-- A statement of the server. -/
theorem serverExec (h : InStep s) {r : Result} {v : ServerLoop} (hv : s.server.exec r = some v) :
    InStep { s with server := v } := by
  have hdie : ∀ reason, InStep { s with server := s.server.goto (.died reason) } := fun reason =>
    h.of_server (h.server.die reason).1 (h.server.die reason).2
  unfold ServerLoop.exec at hv
  split at hv
  · rename_i hpc
    split at hv
    · rename_i x hx
      cases hv
      obtain ⟨hend, hgoes⟩ := h.server.postReceive hpc hx
      exact h.of_server hend hgoes
    · cases hv
      exact hdie _
  · cases hv
    exact hdie _
  · rename_i hpc
    cases hv
    obtain ⟨hend, hgoes⟩ := h.server.pollRecv hpc
    exact h.of_server hend hgoes
  · cases hv
    exact hdie _
  · rename_i _ wc hpc
    have hwc := h.server.received wc hpc
    rw [if_neg (not_not.mpr hwc.status), if_pos hwc.opcode] at hv
    cases hv
    exact h.print hpc
  · rename_i len hpc
    split at hv
    · rename_i x hx
      cases hv
      obtain ⟨hend, hgoes⟩ := h.server.postSend hpc hx
      exact h.of_server hend hgoes
    · cases hv
      exact hdie _
  · cases hv
    exact hdie _
  · rename_i hpc
    cases hv
    obtain ⟨hend, hgoes⟩ := h.server.pollSend hpc
    exact h.of_server hend hgoes
  · cases hv
    exact hdie _
  · rename_i _ wc hpc
    have hwc := h.server.sent wc hpc
    rw [if_neg (not_not.mpr hwc.status)] at hv
    cases hv
    obtain ⟨hend, hgoes⟩ := h.server.roundOver hpc
    exact h.of_server hend hgoes
  · cases hv

/-- A move of the client's HCA. -/
theorem clientHca (h : InStep s) {m : Hca} (hm : m.Succeeds) {x : Context}
    (hx : s.client.ctx.hca m = some x) :
    InStep { s with client := { s.client with ctx := x } } := by
  have hbuf : s.client.ctx.ep.sq ≠ [] → message s.client.pc.iter <+: s.client.ctx.buf.bytes := by
    intro hne
    apply h.client.composed
    cases hpc : s.client.pc with
    | compose k =>
      have hs := h.client.sends 0 (by rw [hpc]; rfl)
      have hpos := List.length_pos_iff.mpr hne
      simp only [Endpoint.sendSlots] at hs
      omega
    | _ => rfl
  obtain ⟨hcarries, hsame, hb⟩ := h.client.carries.hca hbuf hm hx
  refine h.of_client (h.client.ofCtx hcarries hsame.recvSlots hsame.sendSlots fun hc => ?_) rfl
    ?_ ?_ rfl
  · rw [hb]; exact h.client.composed hc
  · simp [out, hsame.sq]
  · simp [back, hsame.arrivals]

/-- A move of the server's HCA. -/
theorem serverHca (h : InStep s) {m : Hca} (hm : m.Succeeds) {x : Context}
    (hx : s.server.ctx.hca m = some x) :
    InStep { s with server := { s.server with ctx := x } } := by
  have hbuf : s.server.ctx.ep.sq ≠ [] →
      message s.client.pc.iter <+: s.server.ctx.buf.bytes := by
    intro hne
    have hpos := List.length_pos_iff.mpr hne
    exact h.arrived (by simp only [answers]; omega)
  obtain ⟨hcarries, hsame, hb⟩ := h.server.carries.hca hbuf hm hx
  refine h.of_server (h.server.ofCtx hcarries hsame.recvSlots hsame.sendSlots) ⟨rfl, hb, ?_, ?_⟩
  · simp [unread, hsame.arrivals]
  · simp [answers, hsame.sq]

/-- The client's message arrives. -/
theorem toServer (h : InStep s) {p : List UInt8} (hout : s.client.ctx.ep.outgoing = some p)
    (hready : s.server.ctx.ep.ready = true) : InStep {
      client := { s.client with ctx := s.client.ctx.delivered },
      server := { s.server with ctx := s.server.ctx.receive p } } := by
  obtain ⟨rfl, hcc, hcr, hcs, hcsq, hca⟩ := h.client.carries.delivered hout
  obtain ⟨hsc, hbuf, hsr, hss, hssq, hsa⟩ := h.server.carries.receive hready
    (message_fits h.client.small)
  have htoken := h.token
  have hout' : out { s.client with ctx := s.client.ctx.delivered } + 1 = out s.client := by
    simp only [out]
    omega
  have hback' : back { s.client with ctx := s.client.ctx.delivered } = back s.client := by
    simp only [back, hca]
  have hunread' : unread { s.server with
      ctx := s.server.ctx.receive (message s.client.pc.iter) } = unread s.server + 1 := by
    simp only [unread, hsa]
    omega
  have hanswers' : answers { s.server with
      ctx := s.server.ctx.receive (message s.client.pc.iter) } = answers s.server := by
    simp only [answers, hssq]
  refine ⟨h.client.ofCtx hcc hcr hcs h.client.composed, h.server.ofCtx hsc hsr hss, ?_,
    fun _ => hbuf, h.received, h.got, fun _ => h.unsent (by omega),
    fun _ => h.unanswered (by omega), ?_, ?_⟩
  · simp only [hback', hunread', hanswers'] at hout' ⊢
    omega
  · intro hpos
    simp only [hback', hanswers'] at hpos
    exact h.served hpos
  · intro hpos
    simp only [hback'] at hpos
    exact h.answered hpos

/-- The echo arrives. -/
theorem toClient (h : InStep s) {p : List UInt8} (hout : s.server.ctx.ep.outgoing = some p)
    (hready : s.client.ctx.ep.ready = true) : InStep {
      client := { s.client with ctx := s.client.ctx.receive p, got := s.client.got ++ [p] },
      server := { s.server with ctx := s.server.ctx.delivered } } := by
  obtain ⟨rfl, hsc, hsr, hss, hssq, hsa⟩ := h.server.carries.delivered hout
  obtain ⟨hcc, hbuf, hcr, hcs, hcsq, hca⟩ := h.client.carries.receive hready
    (message_fits h.client.small)
  have htoken := h.token
  have hpos : 0 < answers s.server := by
    simp only [answers]
    omega
  have hgot := h.unanswered (by omega)
  have hreceived := h.served (by omega)
  have hend := h.client.ofCtx hcc hcr hcs fun _ => hbuf
  have hback' : back { s.client with
      ctx := s.client.ctx.receive (message s.client.pc.iter),
      got := s.client.got ++ [message s.client.pc.iter] } = back s.client + 1 := by
    simp only [back, hca]
    omega
  have hout' : out { s.client with
      ctx := s.client.ctx.receive (message s.client.pc.iter),
      got := s.client.got ++ [message s.client.pc.iter] } = out s.client := by
    simp only [out, hcsq]
  have hunread' : unread { s.server with ctx := s.server.ctx.delivered } = unread s.server := by
    simp only [unread, hsa]
  have hanswers' : answers { s.server with ctx := s.server.ctx.delivered } + 1 =
      answers s.server := by
    simp only [answers]
    omega
  refine ⟨⟨hend.carries, hend.small, hend.recvs, hend.sends, hend.polls, hend.ids, hend.composed,
    hend.len, hend.hand, hend.left, hend.echoes, hend.printed⟩, h.server.ofCtx hsc hsr hss, ?_,
    ?_, h.received, ?_, ?_, ?_, fun _ => hreceived, ?_⟩
  · simp only [hback', hout', hunread'] at hanswers' ⊢
    omega
  · intro hp
    simp only [hunread'] at hp hanswers'
    omega
  · simp only
    rw [List.length_append, List.length_singleton, List.range_succ, List.map_append, ← h.got,
      List.map_singleton, hgot]
  · intro hp
    simp only [hout', hunread'] at hp
    omega
  · intro hp
    simp only [hout', hunread'] at hp hanswers'
    omega
  · intro _
    simp only [List.length_append, List.length_singleton]
    omega

/-- **The step lemma.** -/
theorem step {t : Loops} {a : Loops.Action} (h : InStep s) (ha : Loops.Succeeds a)
    (hs : s.step a = some t) : InStep t := by
  cases a with
  | client r n =>
    obtain ⟨c, hc, rfl⟩ := Option.map_eq_some_iff.mp hs
    exact h.clientExec hc
  | server r =>
    obtain ⟨v, hv, rfl⟩ := Option.map_eq_some_iff.mp hs
    exact h.serverExec hv
  | clientHca m =>
    obtain ⟨x, hx, rfl⟩ := Option.map_eq_some_iff.mp hs
    exact h.clientHca ha hx
  | serverHca m =>
    obtain ⟨x, hx, rfl⟩ := Option.map_eq_some_iff.mp hs
    exact h.serverHca ha hx
  | toServer =>
    obtain ⟨p, hp, hs⟩ := Option.bind_eq_some_iff.mp hs
    split at hs
    · rename_i hready
      cases hs
      exact h.toServer hp hready
    · cases hs
  | toClient =>
    obtain ⟨p, hp, hs⟩ := Option.bind_eq_some_iff.mp hs
    split at hs
    · rename_i hready
      cases hs
      exact h.toClient hp hready
    · cases hs

end InStep

/-! ## What this says of the loops -/

theorem idle_of_slots {e : Endpoint WorkRequest (List UInt8)} (hr : e.recvSlots = 0)
    (hs : e.sendSlots = 0) : e.Idle := by
  simp only [Endpoint.recvSlots, Endpoint.sendSlots] at hr hs
  have hlen := Cq.length_entries e.cq
  exact ⟨List.eq_nil_of_length_eq_zero (by omega), List.eq_nil_of_length_eq_zero (by omega),
    List.eq_nil_of_length_eq_zero (by omega), List.eq_nil_of_length_eq_zero (by omega),
    List.eq_nil_of_length_eq_zero (by omega)⟩

/-- The iterations of the client are the rounds of the server, and each has its
own message. -/
structure OwnEchoes (s : Loops) : Prop where
  /-- What the client reads as the echo is the text it has composed. -/
  echoes : s.client.echoes = (List.range s.client.echoes.length).map fun k => (k, clientText k)
  /-- And these bytes have arrived. -/
  got : s.client.got = (List.range s.client.got.length).map fun k => clientText k ++ [0]
  arrived : ∀ k cpl n wc wcs, s.client.pc = .handle k cpl n (wc :: wcs) → wc.wrId.wrId = 0 →
    s.client.got.length = k + 1
  received : s.server.received = (List.range s.server.received.length).map fun k =>
    (clientText k, (clientText k).length + 1)
  clientStarts : ∀ k, s.client.pc = .compose k → s.client.ctx.ep.Idle ∧
    s.client.echoes.length = k ∧ s.client.got.length = k ∧ s.server.received.length = k
  serverStarts : s.server.pc = .postReceive → s.server.ctx.ep.Idle
  /-- The client's two completions are of its receive and of its send. -/
  clientPolls : ∀ k, s.client.pc = .next k → s.client.polled.Perm [0, 1]
  serverRecvs : ∀ wc, s.server.pc = .received wc → wc.wrId.wrId = 0 ∧ wc.opcode = .recv
  serverSends : ∀ wc, s.server.pc = .sent wc → wc.wrId.wrId = 1 ∧ wc.opcode = .send

theorem perm_of_counts {l : List Nat} (hzero : l.count 0 = 1) (hone : l.count 1 = 1)
    (hlen : l.length = l.count 0 + l.count 1) : l.Perm [0, 1] := by
  rw [hzero, hone] at hlen
  match l, hlen with
  | [a, b], _ =>
    simp only [List.count_cons, List.count_nil, beq_iff_eq] at hzero hone
    by_cases ha : a = 0
    · have hb : b = 1 := by simpa [ha] using hone
      rw [ha, hb]
    · have hb : b = 0 := by simpa [ha] using hzero
      have ha : a = 1 := by simpa [hb] using hone
      rw [ha, hb]
      exact .swap 0 1 []

theorem InStep.ownEchoes {s : Loops} (h : InStep s) : OwnEchoes s where
  echoes := h.client.echoes
  got := h.got
  arrived k cpl n wc wcs hpc hid := by
    have hleft := h.client.left
    have hiter : s.client.pc.iter = k := by rw [hpc]; rfl
    rw [hpc] at hleft
    simp only [ClientPc.hand, List.map_cons, hid, List.count_cons_self] at hleft
    rw [← hiter]
    exact h.answered (by simp only [back]; omega)
  received := by simpa only [length_message] using h.received
  clientStarts k hpc := by
    have hr := h.client.recvs 0 (by rw [hpc]; rfl)
    have hs := h.client.sends 0 (by rw [hpc]; rfl)
    have hpolls := h.client.polls 0 (by rw [hpc]; rfl)
    have hprinted := h.client.printed 0 (by rw [hpc]; rfl)
    have hids := h.client.ids
    have hiter : s.client.pc.iter = k := by rw [hpc]; rfl
    have hout : 0 < out s.client := by simp only [out, hpc, ClientPc.holds]; omega
    have hgot := h.unanswered (by omega)
    have hreceived := h.unsent (by omega)
    rw [hiter] at hprinted hgot hreceived
    simp only [hpc, ClientPc.hand, List.map_nil, List.count_nil] at hprinted
    exact ⟨idle_of_slots (by omega) (by omega), by omega, hgot, hreceived⟩
  serverStarts hpc :=
    idle_of_slots (h.server.recvs 0 (by rw [hpc]; rfl)) (h.server.sends 0 (by rw [hpc]; rfl))
  clientPolls k hpc := by
    obtain ⟨hzero, hone, -, -⟩ := h.client.idle_of_next hpc
    exact perm_of_counts hzero hone h.client.ids
  serverRecvs wc hpc :=
    have hwc := h.server.received wc hpc
    ⟨hwc.wrId, hwc.opcode⟩
  serverSends wc hpc :=
    have hwc := h.server.sent wc hpc
    ⟨hwc.wrId, hwc.opcode⟩

/-- In every interleaving of the two loops with the transport, as long as no
completion is unsuccessful. -/
theorem own_echoes {as : List Loops.Action} {s : Loops}
    (hrun : Run.run Loops.step .initial as = some s) (hok : ∀ a ∈ as, Loops.Succeeds a) :
    OwnEchoes s :=
  ((Run.Meets.of_forall hok).invariant (I := InStep) (fun _ _ _ h ha hs => h.step ha hs) hrun
    .initial).ownEchoes

/-- One iteration: the client's message is read twice, and once more when it has
arrived, its send completes before it is polled, the echo's receive after; the
server's send completes last. -/
def oneRound : List Loops.Action :=
  [.client .ok 0, .client .ok 0, .client .ok 0, .server .ok, .clientHca (.read 0),
    .clientHca (.read 0), .toServer, .clientHca (.read 0), .clientHca .reportSend,
    .client .ok 1, .client .ok 0, .client .ok 0, .serverHca .reportRecv, .server .ok,
    .server .ok, .server .ok, .serverHca (.read 0), .toClient, .clientHca .reportRecv,
    .client .ok 1, .client .ok 0, .client .ok 0, .client .ok 0, .serverHca .reportSend,
    .server .ok, .server .ok]

theorem own_echoes_oneRound : ∃ s, Run.run Loops.step .initial oneRound = some s ∧
    s.client.echoes.length = 1 ∧ s.server.received.length = 1 ∧ OwnEchoes s := by
  have hrun : (Run.run Loops.step .initial oneRound).map
      (fun s => (s.client.echoes.length, s.server.received.length)) = some (1, 1) := by
    decide +kernel
  obtain ⟨s, hs, hpair⟩ := Option.map_eq_some_iff.mp hrun
  obtain ⟨hechoes, hreceived⟩ := Prod.mk.inj hpair
  exact ⟨s, hs, hechoes, hreceived, own_echoes hs (by decide)⟩

end RdmaTutorial.Example03
