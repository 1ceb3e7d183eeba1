import RdmaTutorial.Lib.Run
import RdmaTutorial.ClientFlow

/-!
# The client against any echo server

One client, and a server of which only this is known: it returns the string of
each message, in order, whenever it likes. The client's queue holds the
completions of both its sends and its receives, and the loop takes for granted
that the completion of the send comes first. Nothing orders the two
(`unexpected_recvFirst`), but as long as they come so, every iteration takes
one of each from the queue.
-/

namespace RdmaTutorial

open CString Verbs

/-- A client and the messages the server has received and not yet returned. -/
structure Echoed where
  client : Client
  owed : List Payload

namespace Echoed

inductive Action where
  | established
  | client (a : Client.Action)
  /-- A message of the client is delivered. -/
  | toServer
  /-- The server's answer `q` to the oldest message is delivered. -/
  | toClient (q : Payload)
  deriving DecidableEq

def initial (a : Client.Args) : Echoed := { client := Client.fresh a, owed := [] }

def step (s : Echoed) : Action → Option Echoed
  | .established => some { s with client := s.client.established }
  | .client a => (s.client.step a).map fun c => { s with client := c }
  | .toServer =>
    s.client.conn.ep.outgoing.map fun p =>
      { client := { s.client with conn := s.client.conn.delivered }, owed := s.owed ++ [p] }
  | .toClient q =>
    match s.owed with
    | [] => none
    | p :: owed =>
      if cstr q = cstr p ∧ q.length ≤ bufferSize ∧ s.client.conn.ep.ready = true then
        some { client := { s.client with conn := s.client.conn.receive .recv q }, owed := owed }
      else none

/-- No completion is unsuccessful. -/
def Succeeds : Action → Prop
  | .client (.hca m) => m.Succeeds
  | _ => True

instance : DecidablePred Succeeds := fun a => by
  unfold Succeeds
  split <;> infer_instance

/-- The completion of a receive is added to the queue only when the client's
send has been completed and added before. -/
def SendFirst (s : Echoed) : Action → Prop
  | .client (.hca .reportRecv) =>
    s.client.conn.ep.sq.length = 0 ∧ s.client.conn.ep.sendDone.length = 0
  | _ => True

instance (s : Echoed) : DecidablePred s.SendFirst := fun a => by
  unfold SendFirst
  split <;> infer_instance

/-! ## What the loop has polled -/

/-- One SEND and one RECV for each of the first `n` iterations. -/
def rounds (n : Nat) : List (Nat × WcOpcode) :=
  (List.range n).flatMap fun i => [(i, .send), (i, .recv)]

theorem rounds_succ (n : Nat) : rounds (n + 1) = rounds n ++ [(n, .send), (n, .recv)] := by
  simp [rounds, List.range_succ]

/-- What the loop has polled in the current iteration, while it runs. -/
def polledIn : Client.Pc → Option (List (Nat × WcOpcode))
  | .notifySend i => some [(i, .send)]
  | .pollRecv i => some [(i, .send)]
  | .received i => some [(i, .send), (i, .recv)]
  | .postRecv i => some [(i, .send), (i, .recv)]
  | .notifyRecv i => some [(i, .send), (i, .recv)]
  | .cleanup _ => none
  | .died _ _ => none
  | _ => some []

/-- The queue starts with the completion of a send, if it holds any. -/
def SendHead (c : Client) : Prop := ∀ x q, c.conn.ep.cq.entries = x :: q → x.onSend = true

structure Ordered (s : Echoed) : Prop where
  own : s.client.Own
  token : s.client.tokens + s.owed.length ≤ 1
  head : ∀ i, s.client.pc = .pollSend i → SendHead s.client
  running : ∀ ps, polledIn s.client.pc = some ps →
    s.client.polled = rounds s.client.pc.iter ++ ps
  lower : rounds s.client.pc.iter <+: s.client.polled
  upper : s.client.polled <+: rounds (s.client.pc.iter + 1)
  alive : ∀ i, s.client.pc ≠ .died i Client.unexpectedOpcode

/-- While the loop runs, what it has polled in this iteration says it all. -/
theorem Ordered.of_running {s : Echoed} {p : List (Nat × WcOpcode)} (hown : s.client.Own)
    (htoken : s.client.tokens + s.owed.length ≤ 1)
    (hhead : ∀ i, s.client.pc = .pollSend i → SendHead s.client)
    (hpc : polledIn s.client.pc = some p)
    (hpolled : s.client.polled = rounds s.client.pc.iter ++ p)
    (hps : p <+: [(s.client.pc.iter, .send), (s.client.pc.iter, .recv)]) : Ordered s := by
  refine ⟨hown, htoken, hhead, fun qs hqs => ?_, ?_, ?_, fun i hi => ?_⟩
  · obtain rfl : p = qs := Option.some.inj (hpc.symm.trans hqs)
    exact hpolled
  · rw [hpolled]
    exact List.prefix_append _ _
  · rw [hpolled, rounds_succ]
    exact (List.prefix_append_right_inj _).mpr hps
  · rw [hi] at hpc
    cases hpc

/-- A step that polls nothing and stays in its statement. -/
theorem Ordered.of_same {s t : Echoed} (h : Ordered s) (hown : t.client.Own)
    (htoken : t.client.tokens + t.owed.length ≤ 1) (hpc : t.client.pc = s.client.pc)
    (hpolled : t.client.polled = s.client.polled)
    (hhead : ∀ i, s.client.pc = .pollSend i → SendHead t.client) : Ordered t := by
  obtain ⟨-, -, -, hrun, hlow, hup, halive⟩ := h
  refine ⟨hown, htoken, ?_, ?_, ?_, ?_, ?_⟩ <;> rw [hpc]
  · exact hhead
  · rw [hpolled]; exact hrun
  · rw [hpolled]; exact hlow
  · rw [hpolled]; exact hup
  · exact halive

/-- The first polling loop finds the completion of the send. -/
theorem Ordered.pollSend {s : Echoed} (h : Ordered s) {i : Nat} (hpc : s.client.pc = .pollSend i)
    {x : Cqe Nc} {q : List (Cqe Nc)} (hq : s.client.conn.ep.cq.entries = x :: q) :
    Ordered { s with client := s.client.pollFor .send i (.notifySend i) } := by
  obtain ⟨hown, htok⟩ := h.own.pollSend hpc hq
  have hpolled := h.running [] (by rw [hpc]; rfl)
  rw [hpc] at hpolled
  rcases Client.pollFor_cases h.own.clean hq .send i (.notifySend i) with
    ⟨-, -, -, he⟩ | ⟨hx, -⟩
  · refine Ordered.of_running (p := [(i, .send)]) hown (htok ▸ h.token) ?_ ?_ ?_ ?_ <;>
      simp only [he, if_true]
    · intro j hj
      cases hj
    · rfl
    · rw [hpolled, List.append_nil]
      rfl
    · exact ⟨[(i, .recv)], rfl⟩
  · simp [h.head i hpc x q hq] at hx

/-- The second one finds the completion of the receive. -/
theorem Ordered.pollRecv {s : Echoed} (h : Ordered s) {i : Nat} (hpc : s.client.pc = .pollRecv i)
    {x : Cqe Nc} {q : List (Cqe Nc)} (hq : s.client.conn.ep.cq.entries = x :: q) :
    Ordered { s with client := s.client.pollFor .recv i (.received i) } := by
  obtain ⟨he, hown, htok, -⟩ := h.own.pollRecv hpc hq
  have hpolled := h.running [(i, .send)] (by rw [hpc]; rfl)
  rw [hpc] at hpolled
  refine Ordered.of_running (p := [(i, .send), (i, .recv)]) hown (htok ▸ h.token) ?_ ?_ ?_ ?_ <;>
    simp only [he]
  · intro j hj
    cases hj
  · rfl
  · rw [hpolled, List.append_assoc]
    rfl
  · exact List.prefix_refl _

/-- Before a send is posted the queue is empty. -/
theorem Ordered.entries_nil {s : Echoed} (h : Ordered s) {i : Nat}
    (hpc : s.client.pc = .postSend i) : s.client.conn.ep.cq.entries = [] := by
  have htok := h.token
  have hsends := h.own.sends 0 (by rw [hpc]; rfl)
  have hlen := Cq.length_entries s.client.conn.ep.cq
  simp only [Client.tokens, hpc, Client.Pc.holds, Endpoint.sendSlots] at htok hsends
  exact List.eq_nil_of_length_eq_zero (by omega)

theorem Ordered.exec {s : Echoed} (h : Ordered s) {c : Client} (he : Client.Exec s.client c) :
    Ordered { s with client := c } := by
  obtain ⟨hown, htok⟩ := h.own.exec he
  have htoken : c.tokens + s.owed.length ≤ 1 := Nat.le_trans (Nat.add_le_add_right htok _) h.token
  have hrun := h.running
  cases he with
  | spin => exact h
  | compose hpc hb =>
    rw [hpc] at hrun
    exact .of_running hown htoken (fun j hj => by cases hj) rfl (hrun [] rfl) List.nil_prefix
  | postSend hpc hcap =>
    -- The queue is empty, so the send's completion will be the first.
    rw [hpc] at hrun
    refine .of_running hown htoken (fun j hj x q hq => ?_) rfl (hrun [] rfl) List.nil_prefix
    simp [h.entries_nil hpc] at hq
  | pollSend hpc hq => exact h.pollSend hpc hq
  | notifySend hpc =>
    rw [hpc] at hrun
    exact .of_running hown htoken (fun j hj => by cases hj) rfl (hrun _ rfl) ⟨[_], rfl⟩
  | pollRecv hpc hq => exact h.pollRecv hpc hq
  | received hpc =>
    rw [hpc] at hrun
    exact .of_running hown htoken (fun j hj => by cases hj) rfl (hrun _ rfl) (List.prefix_refl _)
  | postRecv hpc hcap =>
    rw [hpc] at hrun
    exact .of_running hown htoken (fun j hj => by cases hj) rfl (hrun _ rfl) (List.prefix_refl _)
  | @again i hpc hi =>
    rw [hpc] at hrun
    refine .of_running hown htoken (fun j hj => by cases hj) rfl ?_ List.nil_prefix
    simp only [Client.Pc.iter, rounds_succ, List.append_nil]
    exact hrun _ rfl
  | @finish i hpc hi =>
    rw [hpc] at hrun
    have hpolled : s.client.polled = rounds (i + 1) := by
      rw [rounds_succ]
      exact hrun _ rfl
    refine ⟨hown, htoken, (fun j hj => by cases hj), (fun ps hps => by cases hps), ?_, ?_,
      fun j hj => by cases hj⟩ <;> simp only [Client.Pc.iter, hpolled]
    · exact List.prefix_refl _
    · rw [rounds_succ (i + 1)]
      exact List.prefix_append _ _
  | @breaks i hpc =>
    have hiter : s.client.pc.iter = i := by rcases hpc with hpc | hpc <;> rw [hpc] <;> rfl
    exact ⟨hown, htoken, (fun j hj => by cases hj), (fun ps hps => by cases hps),
      hiter ▸ h.lower, hiter ▸ h.upper, fun j hj => by cases hj⟩
  | @pollDies i hpc =>
    have hiter : s.client.pc.iter = i := by rcases hpc with hpc | hpc <;> rw [hpc] <;> rfl
    exact ⟨hown, htoken, (fun j hj => by cases hj), (fun ps hps => by cases hps),
      hiter ▸ h.lower, hiter ▸ h.upper, fun j hj => by
        injection hj with _ hreason
        exact absurd hreason (by decide)⟩
  | sendDies hpc hfull =>
    -- Both queues have room: one message is under way at most.
    have := h.own.sends 0 (by rw [hpc]; rfl)
    simp only [maxSendWr] at hfull
    omega
  | recvDies hpc hfull =>
    have hr := h.own.receives
    simp only [hpc, Client.Pc.unposted] at hr
    simp only [maxRecvWr, Endpoint.recvSlots] at hfull
    omega

/-- A report keeps the completion of the send in front. -/
theorem Ordered.hca {s : Echoed} (h : Ordered s) {m : Hca} (hm : m.Succeeds)
    (hfirst : SendFirst s (.client (.hca m))) {e : Endpoint Nc Payload}
    (he : s.client.conn.ep.hca s.client.conn.sendBuff.bytes m = some e) :
    Ordered { s with client := { s.client with conn := { s.client.conn with ep := e } } } := by
  obtain ⟨hown, htok⟩ := h.own.hca hm he
  refine h.of_same hown (htok ▸ h.token) rfl rfl fun i hpc x q hq => ?_
  have hhead := h.head i hpc
  rcases Endpoint.hca_cases hm he with
    ⟨k, w, -, -, -, rfl⟩ | ⟨wc, l, -, -, rfl⟩ | ⟨wc, l, rfl, -, rfl⟩
  · exact hhead x q hq
  · cases hent : s.client.conn.ep.cq.entries with
    | nil =>
      simp only [Cq.add_entries, hent, List.nil_append, List.cons.injEq] at hq
      rw [← hq.1]
    | cons y r =>
      simp only [Cq.add_entries, hent, List.cons_append, List.cons.injEq] at hq
      rw [← hq.1]
      exact hhead y r hent
  · -- the send has been reported, and nothing has been polled since
    have hs := h.own.sends 1 (by rw [hpc]; rfl)
    simp only [SendFirst] at hfirst
    cases hent : s.client.conn.ep.cq.entries with
    | nil =>
      have hlen := Cq.length_entries s.client.conn.ep.cq
      simp only [hent, List.length_nil] at hlen
      simp only [Endpoint.sendSlots] at hs
      omega
    | cons y r =>
      simp only [Cq.add_entries, hent, List.cons_append, List.cons.injEq] at hq
      rw [← hq.1]
      exact hhead y r hent

theorem ordered_initial (a : Client.Args) : Ordered (initial a) := by
  refine .of_running (p := []) (Client.own_fresh a) ?_ (fun i hi => ?_) rfl rfl List.nil_prefix
  · exact Nat.le_refl 1
  · cases hi

/-- **The step lemma.** -/
theorem Ordered.step {s t : Echoed} {a : Action} (h : Ordered s) (ha : Succeeds a)
    (hfirst : SendFirst s a) (hs : s.step a = some t) : Ordered t := by
  cases a with
  | established =>
    cases hs
    obtain ⟨hown, htok⟩ := h.own.established
    have hrun := h.running
    have htoken := Nat.le_trans (Nat.add_le_add_right htok s.owed.length) h.token
    by_cases hpc : s.client.pc = .connecting
    · rw [hpc] at hrun
      rcases Client.established_cases hpc with ⟨-, he⟩ | ⟨-, he⟩ <;>
        simp only [he] at hown htoken ⊢
      · exact .of_running hown htoken (fun j hj => by cases hj) rfl (hrun [] rfl) List.nil_prefix
      · have hpolled : s.client.polled = [] := hrun [] rfl
        refine ⟨hown, htoken, (fun j hj => by cases hj), (fun ps hps => by cases hps), ?_, ?_,
          fun j hj => by cases hj⟩ <;> rw [hpolled]
        · exact List.prefix_refl _
        · exact List.nil_prefix
    · rw [Client.established_of_ne hpc]
      exact h
  | client a =>
    obtain ⟨c, hc, rfl⟩ := Option.map_eq_some_iff.mp hs
    cases a with
    | exec r => exact h.exec (.of_exec hc)
    | hca m =>
      obtain ⟨nc, hnc, rfl⟩ := Option.map_eq_some_iff.mp hc
      obtain ⟨e, he, rfl⟩ := Connection.hca_eq_some hnc
      exact h.hca ha hfirst he
  | toServer =>
    obtain ⟨p, hp, rfl⟩ := Option.map_eq_some_iff.mp hs
    obtain ⟨hown, htok⟩ := h.own.sent hp
    obtain ⟨-, w, q, hq⟩ := Endpoint.outgoing_eq_some hp
    refine h.of_same hown ?_ rfl rfl fun i hpc => ?_
    · have := h.token
      simp only [List.length_append, List.length_singleton]
      omega
    · have hhead := h.head i hpc
      simpa only [SendHead, Connection.delivered, Endpoint.delivered_of_sq hq] using hhead
  | toClient q =>
    simp only [Echoed.step] at hs
    split at hs
    · cases hs
    · rename_i p owed howed
      split at hs
      · rename_i hg
        obtain ⟨-, hlen, hready⟩ := hg
        cases hs
        obtain ⟨hown, htok⟩ := h.own.receive hready hlen .recv
        obtain ⟨-, w, l, hl⟩ := Endpoint.ready_eq_true hready
        obtain ⟨wc, f, hep⟩ := Connection.receive_ep hl .recv q
        refine h.of_same hown ?_ rfl rfl fun i hpc => ?_
        · have := h.token
          simp only [howed, List.length_cons] at this
          simp only
          omega
        · have hhead := h.head i hpc
          simpa only [SendHead, hep] using hhead
      · cases hs

/-- For every number of iterations: where the completion of the client's send
is always added to the queue before that of the echo, the client never dies of
an unexpected opcode, and it has taken exactly one SEND and one RECV
completion for every iteration it has finished, and at most these for the
current one. -/
theorem never_unexpected {args : Client.Args} {as : List Action} {s : Echoed}
    (hrun : Run.run step (initial args) as = some s) (hok : ∀ a ∈ as, Succeeds a)
    (hfirst : Run.Meets step SendFirst (initial args) as) :
    (∀ i, s.client.pc ≠ .died i Client.unexpectedOpcode) ∧
      rounds s.client.pc.iter <+: s.client.polled ∧
      s.client.polled <+: rounds (s.client.pc.iter + 1) := by
  have h := ((Run.Meets.of_forall hok).and hfirst).invariant (I := Ordered)
    (fun s a t h ha hs => h.step ha.1 ha.2 hs) hrun (ordered_initial args)
  exact ⟨h.alive, h.lower, h.upper⟩

/-- A client with one message. -/
def once : Client.Args :=
  { count := oneTime, recvId := 0, sendId := 0, recvBuff := zeros, sendBuff := zeros }

/-- Its iteration, up to the first poll; `reports` is the order in which the
two completions appear. -/
def oneRound (reports : List Hca) : List Action :=
  [.established, .client (.exec .ok), .client (.exec .ok), .client (.hca (.read 0)), .toServer,
    .toClient (msgText 0 ++ [0])] ++ reports.map (fun m => .client (.hca m)) ++
  [.client (.exec .ok)]

/-- And up to its end. -/
def wholeRound : List Action :=
  oneRound [.reportSend, .reportRecv] ++ List.replicate 5 (.client (.exec .ok))

theorem never_unexpected_sendFirst : ∃ s,
    Run.run step (initial once) wholeRound = some s ∧ s.client.pc = .cleanup 1 ∧
    (∀ i, s.client.pc ≠ .died i Client.unexpectedOpcode) ∧
    rounds 1 <+: s.client.polled ∧ s.client.polled <+: rounds 2 := by
  have hrun : (Run.run step (initial once) wholeRound).map (fun s => s.client.pc) =
      some (.cleanup 1) := by
    decide +kernel
  obtain ⟨s, hs, hpc⟩ := Option.map_eq_some_iff.mp hrun
  obtain ⟨halive, hlower, hupper⟩ := never_unexpected hs (by decide) (by decide +kernel)
  rw [hpc] at hlower hupper
  exact ⟨s, hs, hpc, halive, hlower, hupper⟩

/-- The completion of the echo appears before that of the send. -/
theorem unexpected_recvFirst : ∃ s,
    Run.run step (initial once) (oneRound [.reportRecv, .reportSend]) = some s ∧
    (∀ a ∈ oneRound [.reportRecv, .reportSend], Succeeds a) ∧
    s.client.pc = .died 0 Client.unexpectedOpcode ∧ s.client.polled = [(0, .recv)] := by
  have hrun : (Run.run step (initial once) (oneRound [.reportRecv, .reportSend])).map
      (fun s => (s.client.pc, s.client.polled)) =
      some (.died 0 Client.unexpectedOpcode, [(0, .recv)]) := by decide +kernel
  obtain ⟨s, hs, hpair⟩ := Option.map_eq_some_iff.mp hrun
  obtain ⟨hpc, hpolled⟩ := Prod.mk.inj hpair
  exact ⟨s, hs, by decide, hpc, hpolled⟩

end Echoed

end RdmaTutorial
