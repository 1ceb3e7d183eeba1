import RdmaTutorial.EchoLoop

/-!
# rdmacm03 and rdmacm04: what `i` counts

The loop ends by `i` alone. Against any peer, and whatever fails, `i` is the
number of sends that were delivered and whose completion the loop has handled:
each delivered send has one successful completion, which is not yet reported,
in the queue, in the hands of the loop, or counted.

`State.owed` counts what has arrived and is not yet delivered back; only an
arrival adds to it, and each delivery takes one.
-/

namespace RdmaTutorial.EchoLoop

open Verbs

/-- The value of `i`. -/
def Pc.count : Pc → Nat
  | .head i => i
  | .poll i => i
  | .dispatch i _ => i
  | .copy i => i
  | .postRecv i => i
  | .postSend i => i
  | .notify i => i
  | _ => 0

/-- A completion in the hands of the loop that it will count. -/
def Pc.handed : Pc → Nat
  | .dispatch _ wc => if wc.status = .success ∧ wc.opcode = .send then 1 else 0
  | _ => 0

/-- A message in the hands of the loop whose echo is not yet posted. -/
def Pc.owed : Pc → Nat
  | .dispatch _ wc => if wc.status = .success ∧ wc.opcode = .recv then 1 else 0
  | .copy _ => 1
  | .postRecv _ => 1
  | .postSend _ => 1
  | _ => 0

/-- Inside the loop. -/
def Pc.looping : Pc → Bool
  | .poll _ => true
  | .dispatch _ _ => true
  | .copy _ => true
  | .postRecv _ => true
  | .postSend _ => true
  | _ => false

/-- Messages that have arrived and whose echo is not delivered. -/
def State.owed {σ : Type} (s : State σ) : Nat :=
  s.conn.ep.arrived + s.pc.owed + s.conn.ep.sq.length

variable {ρ σ α : Type} {v : Variant} {P : Peer ρ σ α} {n : Nat}

/-- `n` sends have been delivered. -/
structure Counted (v : Variant) (n : Nat) (s : State σ) : Prop where
  honest : s.conn.ep.Honest
  total : n = s.pc.count + s.pc.handed + s.conn.ep.unpolled
  bound : s.pc.looping = true → s.pc.count < v.rounds

/-- A statement that leaves the completions alone. -/
theorem Counted.goto {s t : State σ} (h : Counted v n s) (hhonest : t.conn.ep.Honest)
    (hunpolled : t.conn.ep.unpolled = s.conn.ep.unpolled) (hcount : t.pc.count = s.pc.count)
    (hhanded : t.pc.handed = s.pc.handed) (hloop : t.pc.looping = true → s.pc.looping = true) :
    Counted v n t := by
  refine ⟨hhonest, ?_, fun ht => ?_⟩
  · rw [hcount, hhanded, hunpolled]
    exact h.total
  · rw [hcount]
    exact h.bound (hloop ht)

theorem Counted.onConn {s : State σ} (h : Counted v n s) {f : Connection → Option Connection}
    {next : Pc} {fails : Status}
    (hf : ∀ c, f s.conn = some c → c.ep.Honest ∧ c.ep.unpolled = s.conn.ep.unpolled)
    (hcount : next.count = s.pc.count) (hhanded : next.handed = s.pc.handed)
    (hloop : next.looping = true → s.pc.looping = true) :
    Counted v n (s.onConn f next fails) := by
  unfold State.onConn
  cases hc : f s.conn with
  | none => exact h.goto h.honest rfl rfl rfl id
  | some c => exact h.goto (hf c hc).1 (hf c hc).2 hcount hhanded hloop

theorem postRecv_unpolled {c c' : Connection} (h : c.ep.Honest) (hc : c.postRecv = some c') :
    c'.ep.Honest ∧ c'.ep.unpolled = c.ep.unpolled := by
  obtain ⟨hcap, rfl⟩ := Connection.postRecv_eq_some hc
  exact ⟨Endpoint.All.postRecv h trivial (if_pos hcap), rfl⟩

theorem postSend_unpolled {c c' : Connection} (h : c.ep.Honest) (hc : c.postSend = some c') :
    c'.ep.Honest ∧ c'.ep.unpolled = c.ep.unpolled := by
  obtain ⟨hcap, rfl⟩ := Connection.postSend_eq_some hc
  exact ⟨Endpoint.All.postSend h trivial (if_pos hcap), rfl⟩

theorem echo_unpolled {c c' : Connection} (h : c.ep.Honest) (hc : c.echo = some c') :
    c'.ep.Honest ∧ c'.ep.unpolled = c.ep.unpolled := by
  obtain ⟨b, -, rfl⟩ := Connection.echo_eq_some hc
  exact ⟨h, rfl⟩

/-- The poll takes a completion into the loop's hands. -/
theorem Counted.poll {s : State σ} (h : Counted v n s) {i : Nat} (hpc : s.pc = .poll i)
    {x : Cqe Nc} {q : List (Cqe Nc)} (hq : s.conn.ep.cq.entries = x :: q) :
    Counted v n { s with conn := s.conn.poll 1, pc := .dispatch i x.wc } := by
  have htotal := h.total
  have hbound := h.bound
  rw [hpc] at htotal hbound
  refine ⟨Endpoint.All.poll h.honest 1, ?_, fun _ => hbound rfl⟩
  have hop := h.honest.opcode (x := x) (by simp [hq])
  have hhanded : (Pc.dispatch i x.wc).handed =
      if x.onSend ∧ x.wc.status = .success then 1 else 0 := by
    by_cases hst : x.wc.status = .success
    · simp [Pc.handed, hst, hop hst]
    · simp [Pc.handed, hst]
  rw [hhanded]
  simp only [Pc.count, Pc.handed, Endpoint.unpolled, Connection.poll, Endpoint.poll, hq,
    Cq.rest_entries, List.drop_succ_cons, List.drop_zero, List.countP_cons,
    decide_eq_true_eq] at htotal ⊢
  omega

/-- A completion in hand is counted, or it is not one of a delivered send. -/
theorem Counted.dispatch {s : State σ} (h : Counted v n s) {i : Nat} {wc : Wc Nc}
    (hpc : s.pc = .dispatch i wc) (r : Result) : Counted v n (exec v P s r) := by
  obtain ⟨status, pc, c, p⟩ := s
  subst hpc
  have htotal := h.total
  simp only [exec]
  split
  · exact h.goto h.honest rfl rfl rfl id
  · rename_i hst
    simp only [ne_eq, not_not] at hst
    simp only [Pc.count, Pc.handed, hst, true_and] at htotal
    split
    · rename_i hop
      refine h.goto h.honest rfl rfl ?_ fun _ => rfl
      simp [State.goto, Pc.handed, hop]
    · rename_i hop
      refine ⟨h.honest, ?_, fun ht => by cases ht⟩
      simp only [hop, if_true] at htotal
      simp only [State.goto, Pc.count, Pc.handed]
      omega
    · rename_i hop
      refine h.goto h.honest rfl rfl ?_ fun _ => rfl
      simp [State.goto, Pc.handed, hop]

theorem Counted.exec {s : State σ} (h : Counted v n s) (r : Result) :
    Counted v n (exec v P s r) := by
  have hhonest := h.honest
  obtain ⟨status, pc, c, p⟩ := s
  cases pc with
  | firstRecv =>
    exact h.onConn (fun _ => postRecv_unpolled hhonest) rfl rfl fun ht => by cases ht
  | head i =>
    simp only [EchoLoop.exec]
    split
    · rename_i hi
      exact ⟨hhonest, h.total, fun _ => hi⟩
    · exact h.goto hhonest rfl rfl rfl id
  | poll i =>
    cases r with
    | fail => exact h.goto hhonest rfl rfl rfl id
    | ok =>
      simp only [EchoLoop.exec]
      split
      · exact h
      · rename_i x q hq
        exact h.poll rfl hq
  | dispatch i wc => exact h.dispatch rfl r
  | copy i => exact h.onConn (fun _ => echo_unpolled hhonest) rfl rfl fun _ => rfl
  | postRecv i => exact h.onConn (fun _ => postRecv_unpolled hhonest) rfl rfl fun _ => rfl
  | postSend i =>
    exact h.onConn (fun _ => postSend_unpolled hhonest) rfl rfl fun ht => by cases ht
  | reqNotify =>
    cases r with
    | ok => exact h.goto (Endpoint.All.reqNotify hhonest) rfl rfl rfl fun ht => by cases ht
    | fail => exact h.goto hhonest rfl rfl rfl id
  | notify i =>
    cases r with
    | ok => exact h.goto (Endpoint.All.reqNotify hhonest) rfl rfl rfl fun ht => by cases ht
    | fail => exact h.goto hhonest rfl rfl rfl id
  | _ => cases r <;> exact h.goto hhonest rfl rfl rfl fun ht => by cases ht

/-- The deliveries to the peer in a step. -/
def Action.deliveries : Action α → Nat
  | .toPeer => 1
  | _ => 0

theorem Action.deliveries_of_ne {a : Action α} (h : a ≠ .toPeer) : a.deliveries = 0 := by
  cases a with
  | toPeer => exact absurd rfl h
  | _ => rfl

/-- **The step lemma.** -/
theorem Counted.step {s t : State σ} {a : Action α} (h : Counted v n s)
    (hs : step v P s a = some t) : Counted v (n + a.deliveries) t := by
  cases a with
  | exec r =>
    simp only [EchoLoop.step] at hs
    split at hs
    · cases hs
      exact h.exec r
    · cases hs
  | hca m =>
    simp only [EchoLoop.step] at hs
    split at hs
    · obtain ⟨c, hc, rfl⟩ := Option.map_eq_some_iff.mp hs
      obtain ⟨e, he, rfl⟩ := Connection.hca_eq_some hc
      have hunpolled := Endpoint.unpolled_hca he
      exact h.goto (h.honest.hca he) hunpolled rfl rfl id
    · cases hs
  | toServer opcode =>
    simp only [EchoLoop.step] at hs
    split at hs
    · obtain ⟨p, -, hs⟩ := Option.bind_eq_some_iff.mp hs
      split at hs
      · rename_i hready
        cases hs
        obtain ⟨-, w, q, hq⟩ := Endpoint.ready_eq_true hready
        obtain ⟨wc, f, hep⟩ := Connection.receive_ep hq opcode p
        refine h.goto ?_ ?_ rfl rfl id
        · simp only [Connection.receive]
          split
          · exact Endpoint.All.arrive h.honest _ fun _ _ _ => rfl
          · exact Endpoint.All.overrun h.honest _ fun _ _ hst => by cases hst
        · simp only [hep]
          rfl
      · cases hs
    · cases hs
  | toPeer =>
    obtain ⟨m, hout, -, rfl⟩ := step_toPeer hs
    obtain ⟨-, w, q, hq⟩ := Endpoint.outgoing_eq_some hout
    refine ⟨h.honest.delivered, ?_, h.bound⟩
    have htotal := h.total
    simp only [Connection.delivered, Endpoint.unpolled_delivered hq, Action.deliveries]
    omega
  | peer x =>
    obtain ⟨q, -, rfl⟩ := Option.map_eq_some_iff.mp hs
    exact h.goto h.honest rfl rfl rfl id

/-! ## Echoes that are owed -/

theorem owed_onConn (s : State σ) {f : Connection → Option Connection} {next : Pc}
    {fails : Status}
    (hf : ∀ c, f s.conn = some c → c.ep.arrived = s.conn.ep.arrived ∧
      next.owed + c.ep.sq.length ≤ s.pc.owed + s.conn.ep.sq.length) :
    (s.onConn f next fails).owed ≤ s.owed := by
  unfold State.onConn
  cases hc : f s.conn with
  | none => exact Nat.le_refl _
  | some c =>
    obtain ⟨harrived, hnext⟩ := hf c hc
    simp only [State.owed, harrived]
    omega

/-- The poll takes a message into the loop's hands. -/
theorem owed_poll {s : State σ} (h : s.conn.ep.Honest) {i : Nat} (hpc : s.pc = .poll i)
    {x : Cqe Nc} {q : List (Cqe Nc)} (hq : s.conn.ep.cq.entries = x :: q) :
    ({ s with conn := s.conn.poll 1, pc := .dispatch i x.wc } : State σ).owed = s.owed := by
  have hop := h.opcode_recv (x := x) (by simp [hq])
  have howed : (Pc.dispatch i x.wc).owed =
      if !x.onSend ∧ x.wc.status = .success then 1 else 0 := by
    by_cases hst : x.wc.status = .success
    · simp [Pc.owed, hst, hop hst]
    · simp [Pc.owed, hst]
  rw [State.owed, State.owed, howed]
  simp only [hpc, Pc.owed, Endpoint.arrived, Connection.poll, Endpoint.poll,
    hq, Cq.rest_entries, List.drop_succ_cons, List.drop_zero, List.countP_cons,
    decide_eq_true_eq]
  omega

/-- The program owes no echo that has not arrived. -/
theorem owed_exec {s : State σ} (h : s.conn.ep.Honest) (r : Result) :
    (exec v P s r).owed ≤ s.owed := by
  obtain ⟨status, pc, c, p⟩ := s
  cases pc with
  | firstRecv =>
    apply owed_onConn
    intro c' hc
    obtain ⟨-, rfl⟩ := Connection.postRecv_eq_some hc
    exact ⟨rfl, Nat.le_refl _⟩
  | head i =>
    simp only [exec]
    split <;> exact Nat.le_refl _
  | poll i =>
    cases r with
    | fail => exact Nat.le_refl _
    | ok =>
      simp only [exec]
      split
      · exact Nat.le_refl _
      · rename_i x q hq
        exact Nat.le_of_eq (owed_poll h rfl hq)
  | dispatch i wc =>
    simp only [exec]
    split
    · exact Nat.le_refl _
    · rename_i hst
      simp only [ne_eq, not_not] at hst
      split
      · rename_i hop
        simp [State.owed, State.goto, Pc.owed, hst, hop]
      · simp [State.owed, State.goto, Pc.owed]
      · simp [State.owed, State.goto, Pc.owed]
  | copy i =>
    apply owed_onConn
    intro c' hc
    obtain ⟨b, -, rfl⟩ := Connection.echo_eq_some hc
    exact ⟨rfl, Nat.le_refl _⟩
  | postRecv i =>
    apply owed_onConn
    intro c' hc
    obtain ⟨-, rfl⟩ := Connection.postRecv_eq_some hc
    exact ⟨rfl, Nat.le_refl _⟩
  | postSend i =>
    apply owed_onConn
    intro c' hc
    obtain ⟨-, rfl⟩ := Connection.postSend_eq_some hc
    refine ⟨rfl, ?_⟩
    simp only [Pc.owed, List.length_append, List.length_singleton]
    omega
  | _ => cases r <;> exact Nat.le_refl _

/-- **The step lemma.** No step but an arrival adds to what is owed. -/
theorem owed_step {s t : State σ} {a : Action α} (h : s.conn.ep.Honest)
    (hs : step v P s a = some t) (hne : ∀ opcode, a ≠ .toServer opcode) :
    t.owed + a.deliveries ≤ s.owed := by
  cases a with
  | exec r =>
    simp only [EchoLoop.step] at hs
    split at hs
    · cases hs
      exact owed_exec h r
    · cases hs
  | hca m =>
    simp only [EchoLoop.step] at hs
    split at hs
    · obtain ⟨c, hc, rfl⟩ := Option.map_eq_some_iff.mp hs
      obtain ⟨e, he, rfl⟩ := Connection.hca_eq_some hc
      have harrived := Endpoint.arrived_hca he
      have hlen := Endpoint.length_sq_hca he
      simp only [State.owed, Action.deliveries, harrived]
      omega
    · cases hs
  | toServer opcode => exact absurd rfl (hne opcode)
  | toPeer =>
    obtain ⟨m, hout, -, rfl⟩ := step_toPeer hs
    obtain ⟨-, w, q, hq⟩ := Endpoint.outgoing_eq_some hout
    have hlen : s.conn.ep.delivered.sq.length + 1 = s.conn.ep.sq.length := by
      rw [Endpoint.delivered_of_sq hq, hq, List.length_cons]
    simp only [State.owed, Connection.delivered, Endpoint.arrived_delivered, Action.deliveries]
    omega
  | peer x =>
    obtain ⟨q, -, rfl⟩ := Option.map_eq_some_iff.mp hs
    exact Nat.le_refl _

theorem counted_opened (recvId sendId : Nc) (r b : Block) (a : ρ) :
    Counted v 0 (opened P recvId sendId r b a) :=
  ⟨Endpoint.All.create rfl, rfl, fun ht => by cases ht⟩

end RdmaTutorial.EchoLoop
