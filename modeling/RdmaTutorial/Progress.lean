import RdmaTutorial.Lib.Termination
import RdmaTutorial.EchoService

/-!
# Whoever has the message can move

While a client's loop runs, exactly one thing is under way for it: its turn, its
message, or the echo. So a client that cannot move waits for a message on the
wire or for an echo that the service owes it, and a server that owes an echo has
it in one of a few places, from each of which it goes on.
-/

namespace RdmaTutorial

open CString Verbs

/-- Neither behind the loop nor dead. -/
def Client.Pc.running : Client.Pc → Bool
  | .cleanup _ => false
  | .died _ _ => false
  | _ => true

/-- It calls `ibv_poll_cq`. -/
def Client.Pc.polls : Client.Pc → Bool
  | .pollSend _ => true
  | .pollRecv _ => true
  | _ => false

/-- A move that gets the client on: nothing fails, it does not poll an empty
queue, and the completion of a receive is added behind that of the send. -/
def Client.Active (c : Client) : Client.Action → Prop
  | .exec r => r = .ok ∧ ¬ (c.pc.polls = true ∧ c.conn.ep.cq.entries = [])
  | .hca .reportRecv => c.conn.ep.sq.length = 0 ∧ c.conn.ep.sendDone.length = 0
  | .hca m => m.Succeeds

instance (c : Client) : DecidablePred c.Active := fun a => by
  unfold Client.Active
  split <;> infer_instance

/-- A move that changes nothing: it polls an empty queue. -/
def Client.Idle (c : Client) : Client.Action → Prop
  | .exec r => r = .ok ∧ c.pc.polls = true ∧ c.conn.ep.cq.entries = []
  | .hca _ => False

instance (c : Client) : DecidablePred c.Idle := fun a => by
  unfold Client.Idle
  split <;> infer_instance

theorem Client.Idle.eq_of_step {c c' : Client} {a : Client.Action} (h : c.Idle a)
    (hs : c.step a = some c') : c' = c := by
  cases a with
  | hca m => exact h.elim
  | exec r =>
    obtain ⟨rfl, hpolls, hnil⟩ := h
    replace hs : c.exec .ok = some c' := hs
    cases hpc : c.pc with
    | pollSend i | pollRecv i =>
      simp only [Client.exec, hpc, Client.pollFor, hnil, Option.some.injEq] at hs
      exact hs.symm
    | _ => simp [hpc, Client.Pc.polls] at hpolls

theorem Client.Active.succeeds {c : Client} {m : Hca} (h : c.Active (.hca m)) : m.Succeeds := by
  cases m with
  | reportRecv => trivial
  | _ => exact h

theorem Client.Active.smooth {e : Echo.State Client} {a : Client.Action} (h : e.peer.Active a) :
    Echo.Smooth e (.peer a) := by
  cases a with
  | exec r => exact h.1
  | hca m =>
    cases m with
    | reportRecv => exact h
    | _ => trivial

/-- In the loop every statement has a next one. -/
theorem Client.exec_isSome {c : Client} (hrun : c.pc.running = true) (hconn : c.pc ≠ .connecting)
    (hiter : c.pc.iter < 2 ^ 31) : (c.exec .ok).isSome := by
  cases hpc : c.pc with
  | connecting => exact absurd hpc hconn
  | compose i =>
    rw [hpc] at hiter
    simp only [Client.exec, hpc, Option.isSome_map]
    exact Client.print_msgText c.conn.sendBuff hiter
  | postSend i =>
    simp only [Client.exec, hpc]
    split <;> rfl
  | postRecv i =>
    simp only [Client.exec, hpc]
    split <;> rfl
  | pollSend i | notifySend i | pollRecv i | received i | notifyRecv i =>
    simp [Client.exec, hpc]
  | cleanup i => simp [hpc, Client.Pc.running] at hrun
  | died i r => simp [hpc, Client.Pc.running] at hrun

/-- The completion that waits to be reported is, with that of the send first. -/
theorem Client.reports {c : Client} (h : c.conn.ep.sendDone ≠ [] ∨
    c.conn.ep.sq = [] ∧ c.conn.ep.recvDone ≠ []) :
    ∃ a c', c.Active a ∧ c.step a = some c' := by
  cases hd : c.conn.ep.sendDone with
  | cons wc q =>
    exact ⟨.hca .reportSend, _, trivial, by
      simp [Client.step, Connection.hca, Endpoint.hca, hd]; rfl⟩
  | nil =>
    obtain ⟨hsq, hne⟩ := h.resolve_left (by simp [hd])
    obtain ⟨wc, q, hq⟩ := List.exists_cons_of_ne_nil hne
    exact ⟨.hca .reportRecv, _, by simp [Client.Active, hsq, hd], by
      simp [Client.step, Connection.hca, Endpoint.hca, hq]; rfl⟩

/-- A posted send is read, and then it can be taken. -/
theorem Client.sends {c : Client} (hf : c.conn.ep.failed = false) (h : c.conn.ep.sq ≠ []) :
    (∃ a c', c.Active a ∧ c.step a = some c') ∨ ∃ p, c.conn.ep.outgoing = some p := by
  obtain ⟨⟨w, o⟩, q, hq⟩ := List.exists_cons_of_ne_nil h
  cases o with
  | none =>
    exact .inl ⟨.hca (.read 0), _, trivial, by
      simp [Client.step, Connection.hca, Endpoint.hca, hf, hq]; rfl⟩
  | some p => exact .inr ⟨p, by simp [Endpoint.outgoing, hf, hq]⟩

theorem Client.pollFor_pc (c : Client) (op : WcOpcode) (i : Nat) (next : Client.Pc) {p : Client.Pc}
    (h : (c.pollFor op i next).pc = p) :
    c.pc = p ∨ next = p ∨ .cleanup i = p ∨ .died i unexpectedOpcode = p := by
  unfold pollFor at h
  split at h
  · exact .inl h
  · simp only at h
    split at h
    · exact .inr (.inr (.inl h))
    · split at h
      · exact .inr (.inl h)
      · exact .inr (.inr (.inr h))

/-- `ibv_req_notify_cq` that succeeds does not end the loop. -/
theorem Client.not_breaks {c : Client} {i : Nat}
    (hpc : c.pc = .notifySend i ∨ c.pc = .notifyRecv i) :
    c.exec .ok ≠ some { c with pc := .cleanup i } := by
  intro he
  rcases hpc with hpc | hpc <;> simp only [Client.exec, hpc, Option.some.injEq] at he <;>
    have hpcs := congrArg Client.pc he
  · simp at hpcs
  · simp only at hpcs
    split at hpcs <;> simp at hpcs

/-- Nor does `ibv_poll_cq` end the program. -/
theorem Client.not_pollDies {c : Client} {i : Nat} (hpc : c.pc = .pollSend i ∨ c.pc = .pollRecv i) :
    c.exec .ok ≠ some { c with pc := .died i pollFailed } := by
  intro he
  have hne : Client.unexpectedOpcode ≠ Client.pollFailed := by decide
  rcases hpc with hpc | hpc <;> simp only [Client.exec, hpc, Option.some.injEq] at he <;>
    have hpcs := c.pollFor_pc _ i _ (congrArg Client.pc he) <;>
    simp [hpc, hne] at hpcs

/-- No statement of the loop leads back to waiting for the connection. -/
theorem Client.connecting_of_exec {c c' : Client} {r : Result} (he : c.exec r = some c')
    (hc : c'.pc = .connecting) : c.pc = .connecting := by
  cases Client.Exec.of_exec he with
  | spin => exact hc
  | pollSend hpc hq | pollRecv hpc hq =>
    rcases c.pollFor_pc _ _ _ hc with h | h | h | h
    · exact h
    all_goals cases h
  | again | finish | breaks | compose | postSend | notifySend | received | postRecv | pollDies
  | sendDies | recvDies => cases hc

namespace Echoed

/-- In a smooth run the client neither dies nor leaves its loop early, and while
it is in the loop one thing is under way for it. -/
structure Steady (s : Echoed) : Prop where
  ordered : Ordered s
  whole : s.client.pc.running = true → s.client.tokens + s.owed.length = 1
  next : s.client.pc.running = true → s.client.pc = .connecting ∨
    s.client.pc.iter < s.client.count.val
  survives : ∀ i r, s.client.pc ≠ .died i r
  finished : ∀ i, s.client.pc = .cleanup i → i = s.client.count.val

variable {s t : Echoed}

/-- A step that leaves the program where it is. -/
theorem Steady.of_same (h : Steady s) (hord : Ordered t) (hpc : t.client.pc = s.client.pc)
    (hcount : t.client.count = s.client.count)
    (htokens : t.client.tokens + t.owed.length = s.client.tokens + s.owed.length) : Steady t := by
  obtain ⟨-, hwhole, hnext, hlive, hfin⟩ := h
  refine ⟨hord, ?_, ?_, ?_, ?_⟩ <;> rw [hpc]
  · rw [htokens]; exact hwhole
  · rw [hcount]; exact hnext
  · exact hlive
  · rw [hcount]; exact hfin

/-- In the loop the variable is below the bound. -/
theorem Steady.lt (h : Steady s) {p : Client.Pc} (hpc : s.client.pc = p)
    (hrun : p.running = true) (hne : p ≠ .connecting) : p.iter < s.client.count.val := by
  subst hpc
  exact (h.next hrun).resolve_left hne

/-- A statement in the loop that stays in the loop. -/
theorem Steady.of_running (h : Steady s) {c : Client} {p : Client.Pc} (hpc : s.client.pc = p)
    (hord : Ordered { s with client := c }) (hp : p.running = true) (hrun : c.pc.running = true)
    (hiter : c.pc.iter < c.count.val) (htokens : c.tokens = s.client.tokens) :
    Steady { s with client := c } := by
  refine ⟨hord, fun _ => ?_, fun _ => .inr hiter, fun i r hi => ?_, fun i hi => ?_⟩
  · show c.tokens + s.owed.length = 1
    rw [htokens]
    exact h.whole (hpc ▸ hp)
  · simp only at hi
    simp [hi, Client.Pc.running] at hrun
  · simp only at hi
    simp [hi, Client.Pc.running] at hrun

theorem SendFirst.of_smooth {a : Action} (h : s.Smooth a) : SendFirst s a := by
  unfold SendFirst
  split
  · exact h
  · trivial

theorem Steady.exec (h : Steady s) {c : Client} (he : s.client.exec .ok = some c)
    (hord : Ordered { s with client := c }) : Steady { s with client := c } := by
  have hown := h.ordered.own
  cases Client.Exec.of_exec he with
  | spin => exact h
  | compose hpc hb =>
    have hi := h.lt hpc rfl (by simp)
    refine h.of_running hpc hord rfl rfl hi ?_
    simp [Client.tokens, hpc, Client.Pc.holds]
  | postSend hpc hcap =>
    have hi := h.lt hpc rfl (by simp)
    refine h.of_running hpc hord rfl rfl hi ?_
    simp only [Client.tokens, hpc, Client.Pc.holds, List.length_append, List.length_singleton]
    omega
  | @pollSend i x q hpc hq =>
    obtain ⟨-, htokens⟩ := hown.pollSend hpc hq
    rcases Client.pollFor_cases hown.clean hq .send i (.notifySend i) with
      ⟨-, -, -, hp⟩ | ⟨hx, -, -, -⟩
    · have hi := h.lt hpc rfl (by simp)
      exact h.of_running hpc hord rfl (by rw [hp]; rfl) (by rw [hp]; exact hi) htokens
    · -- The completion of a send is in front.
      have hsend := h.ordered.head i hpc x q hq
      simp [hx] at hsend
  | notifySend hpc =>
    have hi := h.lt hpc rfl (by simp)
    refine h.of_running hpc hord rfl rfl hi ?_
    simp [Client.tokens, hpc, Client.Pc.holds, Connection.reqNotify, Endpoint.reqNotify]
  | @pollRecv i x q hpc hq =>
    obtain ⟨hp, -, htokens, -⟩ := hown.pollRecv hpc hq
    have hi := h.lt hpc rfl (by simp)
    exact h.of_running hpc hord rfl (by rw [hp]; rfl) (by rw [hp]; exact hi) htokens
  | received hpc =>
    have hi := h.lt hpc rfl (by simp)
    refine h.of_running hpc hord rfl rfl hi ?_
    simp [Client.tokens, hpc, Client.Pc.holds]
  | postRecv hpc hcap =>
    have hi := h.lt hpc rfl (by simp)
    refine h.of_running hpc hord rfl rfl hi ?_
    simp [Client.tokens, hpc, Client.Pc.holds]
  | again hpc hi =>
    refine h.of_running hpc hord rfl rfl hi ?_
    simp [Client.tokens, hpc, Client.Pc.holds, Connection.reqNotify, Endpoint.reqNotify]
  | @finish i hpc hi =>
    have hiter := h.lt hpc rfl (by simp)
    refine ⟨hord, by simp [Client.Pc.running], by simp [Client.Pc.running], by simp, ?_⟩
    rintro j hj
    cases hj
    show i + 1 = s.client.count.val
    simp only [Client.Pc.iter] at hiter
    omega
  | breaks hpc => exact absurd he (Client.not_breaks hpc)
  | pollDies hpc => exact absurd he (Client.not_pollDies hpc)
  | sendDies hpc hfull =>
    have hs := hown.sends 0 (by rw [hpc]; rfl)
    simp only [maxSendWr] at hfull
    omega
  | recvDies hpc hfull =>
    have hr := hown.receives
    simp only [hpc, Client.Pc.unposted] at hr
    simp only [maxRecvWr, Endpoint.recvSlots] at hfull
    omega

theorem Steady.established (h : Steady s)
    (hord : Ordered { s with client := s.client.established }) :
    Steady { s with client := s.client.established } := by
  by_cases hpc : s.client.pc = .connecting
  · have hwhole := h.whole (by rw [hpc]; rfl)
    rcases Client.established_cases hpc with ⟨hpos, he⟩ | ⟨hzero, he⟩ <;> rw [he] at hord ⊢
    · refine ⟨hord, fun _ => ?_, fun _ => .inr hpos, by simp, by simp⟩
      simpa [Client.tokens, hpc, Client.Pc.holds] using hwhole
    · refine ⟨hord, by simp [Client.Pc.running], by simp [Client.Pc.running], by simp, ?_⟩
      rintro j hj
      cases hj
      exact hzero.symm
  · rw [Client.established_of_ne hpc]
    exact h

/-- **The step lemma.** -/
theorem Steady.step {a : Action} (h : Steady s) (ha : Succeeds a) (hsmooth : s.Smooth a)
    (hs : s.step a = some t) : Steady t := by
  have hord := h.ordered.step ha (SendFirst.of_smooth hsmooth) hs
  cases a with
  | established =>
    cases hs
    exact h.established hord
  | client a =>
    obtain ⟨c, hc, rfl⟩ := Option.map_eq_some_iff.mp hs
    cases a with
    | exec r =>
      obtain rfl : r = .ok := hsmooth
      exact h.exec hc hord
    | hca m =>
      obtain ⟨nc, hnc, rfl⟩ := Option.map_eq_some_iff.mp hc
      obtain ⟨e, he, rfl⟩ := Connection.hca_eq_some hnc
      obtain ⟨-, htokens⟩ := h.ordered.own.hca ha he
      exact h.of_same hord rfl rfl (congrArg (· + s.owed.length) htokens)
  | toServer =>
    obtain ⟨p, hp, rfl⟩ := Option.map_eq_some_iff.mp hs
    obtain ⟨-, htokens⟩ := h.ordered.own.sent hp
    refine h.of_same hord rfl rfl ?_
    simp only [List.length_append, List.length_singleton]
    omega
  | toClient q =>
    simp only [Echoed.step] at hs
    split at hs
    · cases hs
    · rename_i p owed howed
      split at hs
      · rename_i hg
        cases hs
        obtain ⟨-, hlen, hready⟩ := hg
        obtain ⟨-, htokens⟩ := h.ordered.own.receive hready hlen .recv
        refine h.of_same hord rfl rfl ?_
        simp only [howed, List.length_cons]
        omega
      · cases hs

theorem steady_initial (a : Client.Args) : Steady (initial a) := by
  refine ⟨ordered_initial a, fun _ => rfl, fun _ => .inl rfl, ?_, ?_⟩
  · intro i r hi
    cases hi
  · intro i hi
    cases hi

/-- A client in its loop gets on by itself, or its message can be taken, or an
echo is owed to it. -/
theorem Steady.moves (h : Steady s) (hrun : s.client.pc.running = true)
    (hconn : s.client.pc ≠ .connecting) :
    (∃ a c, s.client.Active a ∧ s.client.step a = some c) ∨
      (∃ p, s.client.conn.ep.outgoing = some p) ∨ s.owed ≠ [] := by
  by_cases hidle : s.client.pc.polls = true ∧ s.client.conn.ep.cq.entries = []
  · obtain ⟨hpolls, hnil⟩ := hidle
    have hclean := h.ordered.own.clean
    have hwhole := h.whole hrun
    have hholds : s.client.pc.holds = 0 := by
      cases hpc : s.client.pc <;> simp_all [Client.Pc.polls, Client.Pc.holds]
    have hrecvs : s.client.conn.ep.cq.recvs = 0 := by simp [Cq.recvs, hnil]
    simp only [Client.tokens, hholds, hrecvs] at hwhole
    by_cases hsq : s.client.conn.ep.sq = []
    · by_cases hdone : s.client.conn.ep.recvDone = []
      · -- Then what is under way is at the other end.
        refine .inr (.inr fun howed => ?_)
        simp [hsq, hdone, howed] at hwhole
      · exact .inl (Client.reports (.inr ⟨hsq, hdone⟩))
    · exact (Client.sends hclean.alive hsq).imp_right .inl
  · have hiter : s.client.pc.iter < 2 ^ 31 :=
      Nat.lt_trans ((h.next hrun).resolve_left hconn) s.client.count.property
    obtain ⟨c, hc⟩ := Option.isSome_iff_exists.mp (Client.exec_isSome hrun hconn hiter)
    exact .inl ⟨.exec .ok, c, ⟨rfl, hidle⟩, hc⟩

end Echoed

/-! ## What is left to the client

A statement counts for all that follow it, and a posted send for what it sets
going at the server until its echo has been polled: `k`, which is up to the
server. -/

namespace Client

def Pc.work (k n : Nat) : Pc → Nat
  | .connecting => (k + 9) * n + 1
  | .compose i => (k + 9) * (n - i)
  | .postSend i => (k + 9) * (n - i) - 1
  | .pollSend i => (k + 9) * (n - i) - (k + 3)
  | .notifySend i => (k + 9) * (n - i) - (k + 4)
  | .pollRecv i => (k + 9) * (n - i) - (k + 5)
  | .received i => (k + 9) * (n - i) - (k + 6)
  | .postRecv i => (k + 9) * (n - i) - (k + 7)
  | .notifyRecv i => (k + 9) * (n - i) - (k + 8)
  | .cleanup _ => 0
  | .died _ _ => 0

def weights (k : Nat) : Weights :=
  { send := k, sendDone := 1, recvDone := 1, sends := 0, recvs := 0, event := 0 }

def work (k : Nat) (c : Client) : Nat := c.pc.work k c.count.val + c.conn.ep.work (weights k)

variable {c : Client} {k : Nat}

theorem work_hca {m : Hca} (hm : m.Succeeds) {e : Endpoint Nc Payload}
    (he : c.conn.ep.hca c.conn.sendBuff.bytes m = some e) :
    ({ c with conn := { c.conn with ep := e } } : Client).work k < c.work k :=
  Nat.add_lt_add_left (Endpoint.work_hca hm (by simp [weights]) (by simp [weights]) he) _

theorem work_sent {p : Payload} (h : c.conn.ep.outgoing = some p) :
    ({ c with conn := c.conn.delivered } : Client).work k + k = c.work k + 1 := by
  have hw := Endpoint.work_delivered (w := weights k) h
  simp only [weights] at hw
  simp only [work, Connection.delivered, weights]
  omega

theorem work_receive {p : Payload} (h : c.conn.ep.ready = true) (hp : p.length ≤ bufferSize)
    (opcode : WcOpcode) :
    ({ c with conn := c.conn.receive opcode p } : Client).work k = c.work k + 1 := by
  have hw := Endpoint.work_arrive (w := weights k) h p.length
  simp only [weights] at hw
  simp only [work, Connection.receive, if_pos hp, weights]
  omega

/-- The connection is one thing less to wait for. -/
theorem work_established (hpc : c.pc = .connecting) : c.established.work k < c.work k := by
  rcases established_cases hpc with ⟨-, he⟩ | ⟨-, he⟩ <;> rw [he] <;>
    simp only [work, hpc, Pc.work, Nat.sub_zero] <;> omega

theorem work_established_le (k : Nat) (c : Client) : c.established.work k ≤ c.work k := by
  by_cases hpc : c.pc = .connecting
  · exact Nat.le_of_lt (work_established hpc)
  · rw [established_of_ne hpc]

theorem established_pc_ne (c : Client) : c.established.pc ≠ .connecting := by
  by_cases hpc : c.pc = .connecting
  · rcases established_cases hpc with ⟨-, he⟩ | ⟨-, he⟩ <;> simp [he]
  · rwa [established_of_ne hpc]

end Client

/-- Each statement of the loop, an idle poll apart. -/
theorem Echoed.Steady.work_exec {s : Echoed} (h : Steady s) (k : Nat) {c : Client}
    (he : s.client.exec .ok = some c)
    (hidle : ¬ (s.client.pc.polls = true ∧ s.client.conn.ep.cq.entries = [])) :
    c.work k < s.client.work k := by
  have hown := h.ordered.own
  have hround : ∀ {i}, i < s.client.count.val → (k + 9) * (s.client.count.val - i) =
      (k + 9) * (s.client.count.val - (i + 1)) + (k + 9) := fun {i} hi => by
    rw [← Nat.mul_succ]
    exact congrArg _ (by omega)
  have hlt : ∀ {p : Client.Pc}, s.client.pc = p → p.running = true → p ≠ .connecting →
      p.iter < s.client.count.val := fun hpc hrun hne => h.lt hpc hrun hne
  cases hpc : s.client.pc with
  | connecting | cleanup | died => simp [Client.exec, hpc] at he
  | compose i =>
    have hi := hround (i := i) (hlt hpc rfl (by simp))
    simp only [Client.exec, hpc, Option.map_eq_some_iff] at he
    obtain ⟨b, -, rfl⟩ := he
    simp only [Client.work, hpc, Client.Pc.work]
    omega
  | postSend i =>
    have hi := hround (i := i) (hlt hpc rfl (by simp))
    have hs := hown.sends 0 (by rw [hpc]; rfl)
    rcases Client.postSend_cases s.client.conn with ⟨-, hp⟩ | ⟨hfull, -⟩
    · simp only [Client.exec, hpc, hp, Option.some.injEq] at he
      subst he
      have hw := Endpoint.work_postSend (w := Client.weights k) (e := s.client.conn.ep)
        s.client.conn.sendWrId
      simp only [Client.weights] at hw
      simp only [Client.work, hpc, Client.Pc.work, hw, Client.weights]
      omega
    · simp only [maxSendWr] at hfull
      omega
  | postRecv i =>
    have hi := hround (i := i) (hlt hpc rfl (by simp))
    have hr := hown.receives
    simp only [hpc, Client.Pc.unposted] at hr
    rcases Client.postRecv_cases s.client.conn with ⟨-, hp⟩ | ⟨hfull, -⟩
    · simp only [Client.exec, hpc, hp, Option.some.injEq] at he
      subst he
      simp only [Client.work, hpc, Client.Pc.work, Endpoint.work_postRecv]
      omega
    · simp only [maxRecvWr, Endpoint.recvSlots] at hfull
      omega
  | notifySend i | received i =>
    have hi := hround (i := i) (hlt hpc rfl (by simp))
    simp only [Client.exec, hpc, Option.some.injEq] at he
    subst he
    simp only [Client.work, hpc, Client.Pc.work, Connection.reqNotify, Endpoint.work_reqNotify]
    omega
  | notifyRecv i =>
    have hi := hround (i := i) (hlt hpc rfl (by simp))
    simp only [Client.exec, hpc, Option.some.injEq] at he
    subst he
    simp only [Client.work, hpc, Connection.reqNotify, Endpoint.work_reqNotify]
    split <;> simp only [Client.Pc.work] <;> omega
  | pollSend i =>
    have hi := hround (i := i) (hlt hpc rfl (by simp))
    obtain ⟨x, q, hq⟩ := List.exists_cons_of_ne_nil fun hnil => hidle ⟨by rw [hpc]; rfl, hnil⟩
    simp only [Client.exec, hpc, Option.some.injEq] at he
    subst he
    have hw := Endpoint.work_poll (w := Client.weights k) hq
    rcases Client.pollFor_cases hown.clean hq .send i (.notifySend i) with
      ⟨-, -, -, hp⟩ | ⟨hx, -, -, -⟩
    · simp only [hp, Client.work, hpc, if_true, Connection.poll, Client.Pc.work]
      omega
    · simp [h.ordered.head i hpc x q hq] at hx
  | pollRecv i =>
    have hi := hround (i := i) (hlt hpc rfl (by simp))
    obtain ⟨x, q, hq⟩ := List.exists_cons_of_ne_nil fun hnil => hidle ⟨by rw [hpc]; rfl, hnil⟩
    simp only [Client.exec, hpc, Option.some.injEq] at he
    subst he
    have hw := Endpoint.work_poll (w := Client.weights k) hq
    obtain ⟨hp, -, -, -⟩ := hown.pollRecv hpc hq
    simp only [hp, Client.work, hpc, Connection.poll, Client.Pc.work]
    omega

namespace Echo

/-- The moves that need nothing of the server's program. -/
def Unaided (e : State Client) : Move Client.Action → Prop
  | .hca m => m.Succeeds
  | .toServer _ => True
  | .toPeer => True
  | .peer a => e.peer.Active a
  | _ => False

/-- A message waits for a receive. -/
theorem toServer_eq_none {ρ σ α : Type} {P : Peer ρ σ α} {s : State σ} (opcode : WcOpcode)
    (h : ∀ p, P.offer s.peer = some p → ¬ s.conn.ep.ready = true) :
    Echo.step P s (.toServer opcode) = none := by
  simp only [Echo.step]
  split
  · rename_i p hp
    exact if_neg (h p hp)
  · rfl

theorem toPeer_eq_none {ρ σ α : Type} {P : Peer ρ σ α} {s : State σ}
    (h : ∀ p, s.conn.ep.outgoing = some p → ¬ P.accepts s.peer = true) :
    Echo.step P s .toPeer = none := by
  simp only [Echo.step]
  split
  · rename_i p hp
    exact if_neg (h p hp)
  · rfl

/-- Nothing happens any more by itself. -/
def Still (e : State Client) : Prop := Run.Stuck (Echo.step Client.peer) Unaided e

variable {e : State Client} {s : Echoed}

/-- Then no completion is left to be reported, and no send to be delivered. -/
theorem LockStep.drained (hs : LockStep e) (h : Still e) :
    e.conn.ep.sendDone = [] ∧ e.conn.ep.recvDone = [] ∧ e.conn.ep.sq = [] := by
  have hf := hs.sound.clean.alive
  refine ⟨?_, ?_, ?_⟩
  · by_contra hne
    obtain ⟨wc, q, hq⟩ := List.exists_cons_of_ne_nil hne
    have hnone := h (.hca .reportSend) trivial
    simp [Echo.step, Connection.hca, Endpoint.hca, hq] at hnone
  · by_contra hne
    obtain ⟨wc, q, hq⟩ := List.exists_cons_of_ne_nil hne
    have hnone := h (.hca .reportRecv) trivial
    simp [Echo.step, Connection.hca, Endpoint.hca, hq] at hnone
  · by_contra hne
    obtain ⟨⟨w, o⟩, q, hq⟩ := List.exists_cons_of_ne_nil hne
    cases o with
    | none =>
      have hnone := h (.hca (.read 0)) trivial
      simp [Echo.step, Connection.hca, Endpoint.hca, hf, hq] at hnone
    | some p =>
      -- The echo can be delivered: the client has its receive posted.
      have hready : e.peer.conn.ep.ready = true := by
        obtain ⟨hrq, -⟩ := hs.client_ready hne
        have hnil : e.peer.conn.ep.rq ≠ [] := fun hnil => by simp [hnil] at hrq
        simp [Endpoint.ready, hs.own.clean.alive, hnil]
      have hnone := h .toPeer trivial
      simp [Echo.step, Endpoint.outgoing, hf, hq, Client.peer, hready] at hnone

/-- Nor can the client's message be taken. -/
theorem LockStep.outgoing_of_still (hs : LockStep e) (h : Still e) :
    e.peer.conn.ep.outgoing = none := by
  by_contra hne
  obtain ⟨p, hp⟩ := Option.ne_none_iff_exists'.mp hne
  obtain ⟨-, w, q, hq⟩ := Endpoint.outgoing_eq_some hp
  have hready : e.conn.ep.ready = true := by
    obtain ⟨hrq, -⟩ := hs.server_ready (by simp [hq])
    have hnil : e.conn.ep.rq ≠ [] := fun hnil => by simp [hnil] at hrq
    simp [Endpoint.ready, hs.sound.clean.alive, hnil]
  have hnone := h (.toServer .recv) trivial
  simp [Echo.step, Client.peer, hp, hready] at hnone

theorem LockStep.client_sq_of_still (hs : LockStep e) (h : Still e) :
    e.peer.conn.ep.sq = [] := by
  by_contra hne
  rcases Client.sends hs.own.clean.alive hne with ⟨a, c, ha, hc⟩ | ⟨p, hp⟩
  · have hnone := h (.peer a) ha
    simp [Echo.step, Client.peer, hc] at hnone
  · simp [hs.outgoing_of_still h] at hp

/-- **Nothing is left undone.** Where nothing happens by itself and the server has
nothing in its hands and nothing in its queue, the client has sent all its
messages and read all the echoes. -/
theorem LockStep.finished (hs : LockStep e) (h : Still e) (hserves : Serves e s)
    (hsteady : Echoed.Steady s) (hunread : e.stage.unread = 0) (hcopied : e.stage.copied = 0)
    (hnil : e.conn.ep.cq.entries = []) (hconn : e.peer.pc ≠ .connecting) :
    e.peer.pc = .cleanup e.peer.count.val := by
  obtain ⟨client, owed⟩ := s
  obtain rfl : client = e.peer := hserves.client
  by_cases hrun : e.peer.pc.running = true
  · rcases hsteady.moves hrun hconn with ⟨a, c, ha, hc⟩ | ⟨p, hp⟩ | hne
    · have hnone := h (.peer a) ha
      simp [Echo.step, Client.peer, hc] at hnone
    · simp [hs.outgoing_of_still h] at hp
    · -- What is owed would be under way at the server.
      obtain ⟨-, hdone, hsq⟩ := hs.drained h
      have howed := hserves.owed
      simp [State.unread, State.echoes, hunread, hcopied, hdone, hsq, Cq.recvs, hnil] at howed
      exact absurd howed hne
  · cases hpc : e.peer.pc with
    | cleanup i => exact congrArg _ (hsteady.finished i hpc)
    | died i r => exact absurd hpc (hsteady.survives i r)
    | _ => simp [hpc, Client.Pc.running] at hrun

end Echo

end RdmaTutorial
