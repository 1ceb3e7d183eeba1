import RdmaTutorial.Progress
import RdmaTutorial.Shutdown

/-!
# rdmacm03 and rdmacm04: every session comes to its end

A server and a client with the same bound, and nothing fails. Each step that is
not an idle poll lowers what is left to do (`State.work`), an idle poll changes
nothing, and where no other step is left the server is behind its loop, the client
behind its own, and all echoes are delivered. So whatever the order in which the
two programs, the two HCAs and the wire take their steps, and however often they
poll, the session ends, and in one state only.
-/

namespace RdmaTutorial

open CString Verbs

namespace Echo

variable {n : Nat} {e e' : State Client} {log : List Payload}

/-- A client behind its loop has sent a message in each iteration, and each is
under way or its echo delivered. -/
def Posted (e : State Client) (log : List Payload) : Prop :=
  ∀ i, e.peer.pc = .cleanup i → i ≤ log.length + e.inflight

theorem Posted.of_same (h : Posted e log) (hpc : e'.peer.pc = e.peer.pc)
    (hin : e'.inflight = e.inflight) : Posted e' log := by
  intro i hi
  rw [hin]
  exact h i (hpc ▸ hi)

theorem Posted.of_server (h : Posted e log) (hpeer : e'.peer = e.peer)
    (hunder : e'.unread + e'.echoes = e.unread + e.echoes) : Posted e' log := by
  refine h.of_same (by rw [hpeer]) ?_
  simp only [State.inflight, hpeer]
  omega

/-- Where nothing fails the last statement of the loop is the only way out. -/
theorem notifyRecv_of_cleanup {c c' : Client} (hown : c.Own) (he : c.exec .ok = some c')
    {i : Nat} (hc : c'.pc = .cleanup i) :
    ∃ j, c.pc = .notifyRecv j ∧ i = j + 1 ∧ c'.conn.ep.sq = c.conn.ep.sq := by
  cases Client.Exec.of_exec he with
  | spin => simp [Client.exec, hc] at he
  | @pollSend j x q hpc hq =>
    rcases Client.pollFor_cases hown.clean hq .send j (.notifySend j) with
      ⟨-, -, -, hp⟩ | ⟨-, -, -, hp⟩ <;> simp [hp] at hc
  | pollRecv hpc hq =>
    obtain ⟨hp, -⟩ := hown.pollRecv hpc hq
    simp [hp] at hc
  | finish hpc hi =>
    cases hc
    exact ⟨_, hpc, rfl, rfl⟩
  | breaks hpc => exact absurd he (Client.not_breaks hpc)
  | compose | postSend | notifySend | received | postRecv | again | pollDies | sendDies
  | recvDies => cases hc

theorem Posted.step (h : Posted e log) (hs : LockStep e) (hsent : Sent n e log)
    {b : Move Client.Action} (hb : Succeeds b) (hsmooth : Smooth e b)
    (hstep : Step Client.peer e b e') (hne : b ≠ .toPeer) : Posted e' log := by
  have server := hstep.underway hs hb
  cases hstep with
  | arm | event | firstRecv | poll | done | next | copy | postRecv | postSend | hca =>
    obtain ⟨hpeer, hunder⟩ := server (by simp) (by simp) (by simp) (by simp)
    exact h.of_server hpeer hunder
  | established c p =>
    by_cases hpc : p.pc = .connecting
    · intro i hi
      replace hi : p.established.pc = .cleanup i := hi
      rcases Client.established_cases hpc with ⟨-, he⟩ | ⟨-, he⟩ <;> rw [he] at hi <;> cases hi
      exact Nat.zero_le _
    · rw [show Client.peer.established p = p from Client.established_of_ne hpc]
      exact h
  | @toServer _ opcode m hoffer hready =>
    refine h.of_same rfl ?_
    obtain ⟨-, w, q, hq⟩ := Endpoint.outgoing_eq_some hoffer
    obtain ⟨-, w', q', hq'⟩ := Endpoint.ready_eq_true hready
    obtain ⟨wc, f, hep⟩ := Connection.receive_ep hq' opcode m
    simp only [State.inflight, State.unread, State.echoes, hep, Client.peer,
      Connection.delivered, Endpoint.delivered_of_sq hq, hq, List.length_cons,
      List.length_append, List.length_nil]
    omega
  | toPeer => exact absurd rfl hne
  | @peer _ a c hc =>
    cases a with
    | exec r =>
      obtain rfl : r = .ok := hsmooth
      intro i hi
      obtain ⟨j, hpc, rfl, hsq⟩ := notifyRecv_of_cleanup hs.own hc hi
      have hposted := hsent.posted (j + 1) (by rw [hpc]; rfl)
      simp only [State.inflight, State.unread, State.echoes, hsq] at hposted ⊢
      omega
    | hca m =>
      obtain ⟨nc, hnc, rfl⟩ := Option.map_eq_some_iff.mp hc
      obtain ⟨f, hf, rfl⟩ := Connection.hca_eq_some hnc
      refine h.of_same rfl ?_
      have hlen : f.sq.length = e.peer.conn.ep.sq.length := by
        rcases Endpoint.hca_cases hb hf with
          ⟨k, w, -, -, -, rfl⟩ | ⟨wc, q, -, -, rfl⟩ | ⟨wc, q, -, -, rfl⟩ <;> simp
      exact congrArg (· + e.unread + e.echoes) hlen

theorem Posted.toPeer (h : Posted e log) {m : Payload} (hout : e.conn.ep.outgoing = some m)
    (hacc : e.peer.conn.ep.ready = true) :
    Posted { e with conn := e.conn.delivered, peer := Client.peer.receive m e.peer }
      (log ++ [m]) := by
  intro i hi
  have hle := h i hi
  obtain ⟨-, w, q, hq⟩ := Endpoint.outgoing_eq_some hout
  obtain ⟨-, w', q', hq'⟩ := Endpoint.ready_eq_true hacc
  obtain ⟨wc, f, hep⟩ := Connection.receive_ep hq' .recv m
  simp only [State.inflight, State.unread, State.echoes, hq, List.length_cons] at hle
  simp only [State.inflight, State.unread, State.echoes, Client.peer, hep,
    Connection.delivered, Endpoint.delivered_of_sq hq, List.length_append, List.length_cons,
    List.length_nil]
  omega

end Echo

namespace EchoLoop

/-- It calls `ibv_poll_cq`. -/
def Pc.polls : Pc → Bool
  | .poll _ => true
  | _ => false

/-- The connection is not accepted yet. -/
def Pc.early : Pc → Bool
  | .reqNotify => true
  | .createQp => true
  | .firstRecv => true
  | .accept => true
  | _ => false

/-- A step that gets the session on: nothing fails, neither program polls an
empty queue, and the client's send is completed before the receive of its echo. -/
def Active (s : State (Client × List Payload)) : Action Client.Action → Prop
  | .exec r => r = .ok ∧ ¬ (s.pc.polls = true ∧ s.conn.ep.cq.entries = [])
  | .hca m => m.Succeeds
  | .toServer _ => True
  | .toPeer => True
  | .peer a => s.peer.1.Active a

instance (s : State (Client × List Payload)) : DecidablePred (Active s)
  | .exec r =>
    inferInstanceAs (Decidable (r = .ok ∧ ¬ (s.pc.polls = true ∧ s.conn.ep.cq.entries = [])))
  | .hca m => inferInstanceAs (Decidable m.Succeeds)
  | .toServer _ => inferInstanceAs (Decidable True)
  | .toPeer => inferInstanceAs (Decidable True)
  | .peer a => inferInstanceAs (Decidable (s.peer.1.Active a))

/-- A step that changes nothing: one of the programs polls an empty queue. -/
def Idle (s : State (Client × List Payload)) : Action Client.Action → Prop
  | .exec r => r = .ok ∧ s.pc.polls = true ∧ s.conn.ep.cq.entries = []
  | .peer a => s.peer.1.Idle a
  | _ => False

instance (s : State (Client × List Payload)) : DecidablePred (Idle s)
  | .exec r =>
    inferInstanceAs (Decidable (r = .ok ∧ s.pc.polls = true ∧ s.conn.ep.cq.entries = []))
  | .peer a => inferInstanceAs (Decidable (s.peer.1.Idle a))
  | .hca _ | .toServer _ | .toPeer => inferInstanceAs (Decidable False)

theorem Idle.eq_of_step {v : Variant} (s : State (Client × List Payload))
    (a : Action Client.Action) (t : State (Client × List Payload)) (h : Idle s a)
    (hs : step v Client.peer.logged s a = some t) : t = s := by
  cases a with
  | exec r =>
    obtain ⟨rfl, hpolls, hnil⟩ := h
    simp only [step] at hs
    split at hs
    · cases hs
      cases hpc : s.pc with
      | poll i => simp [exec, hpc, hnil]
      | _ => simp [hpc, Pc.polls] at hpolls
    · cases hs
  | peer x =>
    obtain ⟨q, hq, rfl⟩ := Option.map_eq_some_iff.mp hs
    obtain ⟨c, hc, rfl⟩ := Option.map_eq_some_iff.mp hq
    obtain rfl := Client.Idle.eq_of_step h hc
    rfl
  | _ => exact h.elim

/-! ## What is left to do -/

def Pc.work : Pc → Nat
  | .reqNotify => 7
  | .createQp => 6
  | .firstRecv => 5
  | .accept => 4
  | .wait => 3
  | .begin => 2
  | .head _ => 1
  | .poll _ => 0
  | .dispatch _ wc => if wc.opcode = .recv then 14 else 3
  | .copy _ => 13
  | .postRecv _ => 12
  | .postSend _ => 11
  | .notify _ => 2

def weights : Weights :=
  { send := 7, sendDone := 5, recvDone := 16, sends := 4, recvs := 15, event := 0 }

/-- The server's part of it, the program and its end of the connection. -/
def programWork (pc : Pc) (c : Connection) : Nat := pc.work + c.ep.work weights

def State.work (s : State (Client × List Payload)) : Nat :=
  (if s.status = .running then 1 else 0) + programWork s.pc s.conn + s.peer.1.work 18

variable {v : Variant} {n : Nat} {s t : State (Client × List Payload)}

/-- What holds of a session in which nothing fails. -/
structure Session (v : Variant) (n : Nat) (s : State (Client × List Payload)) : Prop where
  tally : Tally v n s
  server : s.conn.ep.failed = false
  client : s.peer.1.conn.ep.failed = false
  service : ∃ u, Echoed.Steady u ∧ Echo.Serves (view s.erase) u
  waits : s.peer.1.pc = .connecting → s.pc.early = true
  status : s.status = .running ∨ s.status = .left ∧ ∃ i, s.pc = .head i ∧ ¬ i < v.rounds
  handled : ∀ i wc, s.pc = .dispatch i wc → wc.status = .success
  posted : Echo.Posted (view s.erase) s.log

theorem Session.lock (h : Session v n s) : Echo.LockStep (view s.erase) :=
  (h.tally.inStep h.server h.client).1

theorem Session.sent (h : Session v n s) : Echo.Sent n (view s.erase) s.log :=
  (h.tally.inStep h.server h.client).2

/-! ## The server's statements -/

/-- A statement of the server's program that gets the session on. -/
structure Goes (v : Variant) (s t : State (Client × List Payload)) : Prop where
  waits : t.peer.1.pc = .connecting → t.pc.early = true
  status : t.status = .running ∨ t.status = .left ∧ ∃ i, t.pc = .head i ∧ ¬ i < v.rounds
  handled : ∀ i wc, t.pc = .dispatch i wc → wc.status = .success
  work : t.work < s.work

theorem Session.goes_to (h : Session v n s) (hrun : s.status = .running) {pc : Pc}
    {c : Connection} (hpc : s.pc.early = true → pc.early = true)
    (hhandled : ∀ i wc, pc = .dispatch i wc → wc.status = .success)
    (hwork : programWork pc c < programWork s.pc s.conn) :
    Goes v s { s with pc := pc, conn := c } := by
  refine ⟨fun hc => hpc (h.waits hc), .inl hrun, hhandled, ?_⟩
  exact Nat.add_lt_add_right (Nat.add_lt_add_left hwork _) _

/-- Most statements touch neither sends nor completions. -/
theorem Session.goes_next (h : Session v n s) (hrun : s.status = .running) {pc : Pc}
    {c : Connection} (hpc : s.pc.early = true → pc.early = true)
    (hhandled : ∀ i wc, pc = .dispatch i wc → wc.status = .success)
    (hwork : s.pc.work = pc.work + 1) (hep : c.ep.work weights = s.conn.ep.work weights) :
    Goes v s { s with pc := pc, conn := c } := by
  refine h.goes_to hrun hpc hhandled ?_
  simp only [programWork, hwork, hep]
  omega

/-- `ibv_post_recv` finds room. -/
theorem Session.postRecv (h : Session v n s) (hst : s.pc.stage.unposted = 1) :
    s.conn.postRecv = some { s.conn with
      ep := { s.conn.ep with rq := s.conn.ep.rq ++ [s.conn.recvWrId] } } := by
  have hr := h.lock.sound.receives
  simp only [Echo.State.receives, view, State.erase, hst] at hr
  have hcap : s.conn.ep.recvSlots < maxRecvWr := by
    simp only [Endpoint.recvSlots, maxRecvWr]
    omega
  simp [Connection.postRecv, Endpoint.postRecv, hcap]

/-- And `strcpy` a string. -/
theorem Session.echo (h : Session v n s) {i : Nat} (hpc : s.pc = .copy i) :
    ∃ b, s.conn.echo = some { s.conn with sendBuff := b } := by
  obtain ⟨hterm, -⟩ := h.lock.arrived (by
    simp only [Echo.State.unread, view, State.erase, hpc, Pc.stage, Echo.Stage.unread]
    omega)
  replace hterm : Terminated s.conn.recvBuff.bytes := hterm
  exact ⟨_, by rw [Connection.echo, Buffer.strcpy_of_terminated s.conn.sendBuff hterm]; rfl⟩

/-- And `ibv_post_send` room: an echo is posted before the one before it is
counted only if the client sent that many messages. -/
theorem Session.postSend (h : Session v n s) (hfit : n ≤ maxSendWr) {i : Nat}
    (hpc : s.pc = .postSend i) :
    s.conn.postSend = some { s.conn with
      ep := { s.conn.ep with sq := s.conn.ep.sq ++ [⟨s.conn.sendWrId, none⟩] } } := by
  have hbounded := h.sent.bounded
  have htotal := h.tally.counted.total
  simp only [hpc, Pc.count, Pc.handed, (h.tally.clean h.server).unpolled] at htotal
  simp only [Echo.State.inflight, Echo.State.unread, Echo.State.echoes, view, State.erase, hpc,
    Pc.stage, Echo.Stage.unread, Echo.Stage.copied] at hbounded
  have hcap : s.conn.ep.sendSlots < maxSendWr := by
    simp only [Endpoint.sendSlots]
    omega
  simp [Connection.postSend, Endpoint.postSend, hcap]

/-- The poll takes a completion of a send or of a receive. -/
theorem Session.poll (h : Session v n s) (hrun : s.status = .running) {i : Nat}
    (hpc : s.pc = .poll i) {x : Cqe Nc} {q : List (Cqe Nc)} (hq : s.conn.ep.cq.entries = x :: q) :
    Goes v s { s with conn := s.conn.poll 1, pc := .dispatch i x.wc } := by
  obtain ⟨hst, hop⟩ := (h.tally.clean h.server).opcode_eq (x := x) (by simp [hq])
  refine h.goes_to hrun (by simp [hpc, Pc.early]) ?_ ?_
  · intro j wc hj
    cases hj
    exact hst
  · have hw := Endpoint.work_poll (w := weights) hq
    simp only [weights] at hw
    simp only [programWork, Pc.work, hpc, Connection.poll, weights, hop]
    cases hx : x.onSend <;> simp [hx] at hw ⊢ <;> omega

/-- Every statement but an idle poll gets the session on. -/
theorem Session.goes (h : Session v n s) (hfit : n ≤ maxSendWr) (hrun : s.status = .running)
    (hidle : ¬ (s.pc.polls = true ∧ s.conn.ep.cq.entries = [])) :
    Goes v s (exec v Client.peer.logged s .ok) := by
  obtain ⟨status, pc, c, p⟩ := s
  cases pc with
  | reqNotify =>
    exact h.goes_next hrun (fun _ => rfl) (by simp) rfl rfl
  | createQp =>
    exact h.goes_next hrun (fun _ => rfl) (by simp) rfl rfl
  | firstRecv =>
    simp only [exec, State.onConn, h.postRecv rfl]
    exact h.goes_next hrun (fun _ => rfl) (by simp) rfl rfl
  | accept =>
    -- The one statement that the client learns of.
    obtain ⟨c', l⟩ := p
    refine ⟨fun hc => absurd hc (Client.established_pc_ne c'), .inl hrun,
      (fun i wc hj => by cases hj), ?_⟩
    exact Nat.add_lt_add_of_lt_of_le (Nat.add_lt_add_left (Nat.add_lt_add_right
      (Nat.lt_succ_self _) _) _) (Client.work_established_le 18 c')
  | wait =>
    exact h.goes_next hrun (fun he => by cases he) (by simp) rfl rfl
  | begin =>
    exact h.goes_next hrun (fun he => by cases he) (by simp) rfl rfl
  | head i =>
    simp only [exec]
    split
    · exact h.goes_next hrun (fun he => by cases he) (by simp) rfl rfl
    · rename_i hi
      refine ⟨h.waits, .inr ⟨rfl, i, rfl, hi⟩, (fun j wc hj => by cases hj), ?_⟩
      simp [State.work, State.leave, show status = .running from hrun]
  | poll i =>
    simp only [exec]
    split
    · rename_i hq
      exact absurd ⟨rfl, hq⟩ hidle
    · rename_i x q hq
      exact h.poll hrun rfl hq
  | dispatch i wc =>
    have hst := h.handled i wc rfl
    simp only [exec, hst, ne_eq, not_true_eq_false, if_false]
    split
    · rename_i hop
      exact h.goes_next hrun (fun he => by cases he) (by simp) (by simp [Pc.work, hop]) rfl
    · rename_i hop
      exact h.goes_next hrun (fun he => by cases he) (by simp) (by simp [Pc.work, hop]) rfl
    · rename_i hop
      exact h.goes_next hrun (fun he => by cases he) (by simp) (by simp [Pc.work, hop]) rfl
  | copy i =>
    obtain ⟨b, hb⟩ := h.echo rfl
    simp only [exec, State.onConn, hb]
    exact h.goes_next hrun (fun he => by cases he) (by simp) rfl rfl
  | postRecv i =>
    simp only [exec, State.onConn, h.postRecv rfl]
    exact h.goes_next hrun (fun he => by cases he) (by simp) rfl rfl
  | postSend i =>
    simp only [exec, State.onConn, h.postSend hfit rfl]
    refine h.goes_to hrun (fun he => by cases he) (by simp) ?_
    simp only [programWork, Endpoint.work_postSend, Pc.work, weights]
    omega
  | notify i =>
    exact h.goes_next hrun (fun he => by cases he) (by simp) rfl rfl

/-! ## All steps -/

/-- A step of the HCAs, of the wire or of the client leaves the program where it
is. -/
theorem Session.goes_on (h : Session v n s) {c : Connection} {q : Client × List Payload}
    (hq : q.1.pc = .connecting → s.peer.1.pc = .connecting)
    (hwork : c.ep.work weights + q.1.work 18 < s.conn.ep.work weights + s.peer.1.work 18) :
    Goes v s { s with conn := c, peer := q } := by
  refine ⟨fun hc => h.waits (hq hc), h.status, h.handled, ?_⟩
  simp only [State.work, programWork]
  omega

theorem Session.goes_step (h : Session v n s) (hfit : n ≤ maxSendWr) {a : Action Client.Action}
    (ha : Active s a) (hs : step v Client.peer.logged s a = some t) : Goes v s t := by
  cases a with
  | exec r =>
    obtain ⟨rfl, hidle⟩ := ha
    simp only [EchoLoop.step] at hs
    split at hs
    · rename_i hrun
      cases hs
      exact h.goes hfit hrun hidle
    · cases hs
  | hca m =>
    simp only [EchoLoop.step] at hs
    split at hs
    · obtain ⟨c, hc, rfl⟩ := Option.map_eq_some_iff.mp hs
      obtain ⟨e, he, rfl⟩ := Connection.hca_eq_some hc
      refine h.goes_on id (Nat.add_lt_add_right ?_ _)
      exact Endpoint.work_hca ha (by decide) (by decide) he
    · cases hs
  | toServer opcode =>
    simp only [EchoLoop.step] at hs
    split at hs
    · obtain ⟨p, hoffer, hs⟩ := Option.bind_eq_some_iff.mp hs
      split at hs
      · rename_i hready
        cases hs
        replace hoffer : s.peer.1.conn.ep.outgoing = some p := hoffer
        obtain ⟨-, w, q, hq⟩ := Endpoint.outgoing_eq_some hoffer
        obtain ⟨hlen, -⟩ := h.lock.outgoing ⟨w, some p⟩ (by simp [view, State.erase, hq]) p rfl
        have hserver := Endpoint.work_arrive (w := weights) hready p.length
        have hclient := Client.work_sent (k := 18) hoffer
        refine h.goes_on id ?_
        simp only [weights] at hserver
        simp only [Connection.receive, if_pos hlen, Peer.logged, Client.peer, weights]
        omega
      · cases hs
    · cases hs
  | toPeer =>
    obtain ⟨m, hout, hacc, rfl⟩ := step_toPeer hs
    replace hacc : s.peer.1.conn.ep.ready = true := hacc
    obtain ⟨-, w, q, hq⟩ := Endpoint.outgoing_eq_some hout
    obtain ⟨hlen, -⟩ := h.lock.returning ⟨w, some m⟩ (by simp [view, State.erase, hq]) m rfl
    have hserver := Endpoint.work_delivered (w := weights) hout
    have hclient := Client.work_receive (k := 18) hacc hlen .recv
    refine h.goes_on id ?_
    simp only [weights] at hserver
    simp only [Connection.delivered, Peer.logged, Client.peer, weights] at hclient ⊢
    omega
  | peer x =>
    obtain ⟨q, hq, rfl⟩ := Option.map_eq_some_iff.mp hs
    obtain ⟨c, hc, rfl⟩ := Option.map_eq_some_iff.mp hq
    cases x with
    | exec r =>
      obtain ⟨rfl, hidle⟩ := ha
      obtain ⟨⟨client, owed⟩, hsteady, hserves⟩ := h.service
      obtain rfl : client = s.peer.1 := hserves.client
      exact h.goes_on (Client.connecting_of_exec hc)
        (Nat.add_lt_add_left (hsteady.work_exec 18 hc hidle) _)
    | hca m =>
      obtain ⟨nc, hnc, rfl⟩ := Option.map_eq_some_iff.mp hc
      obtain ⟨e, he, rfl⟩ := Connection.hca_eq_some hnc
      exact h.goes_on id (Nat.add_lt_add_left (Client.work_hca ha.succeeds he) _)

theorem Active.succeeds {a : Action Client.Action} (ha : Active s a) : Succeeds a := by
  cases a with
  | hca m => exact ha
  | peer x =>
    cases x with
    | exec r => trivial
    | hca m => exact Client.Active.succeeds ha
  | _ => trivial

theorem Active.smooth {a : Action Client.Action} (ha : Active s a) {b : Echo.Move Client.Action}
    (hb : label s.erase a = some b) : Echo.Smooth (view s.erase) b := by
  cases a with
  | peer x =>
    cases hb
    exact Client.Active.smooth ha
  | exec r =>
    simp only [label] at hb
    split at hb <;> cases hb <;> trivial
  | _ => cases hb; trivial

/-- **The step lemma.** A step that gets the session on keeps it in order, and
lowers what is left to do. -/
theorem Session.step (h : Session v n s) (hfit : n ≤ maxSendWr) {a : Action Client.Action}
    (ha : Active s a) (hs : step v Client.peer.logged s a = some t) :
    Session v n t ∧ t.work < s.work := by
  have hgoes := h.goes_step hfit ha hs
  obtain ⟨herase, hlog⟩ := step_erase hs
  have hview := step_view herase
  have hmove : ∀ {b}, label s.erase a = some b → Echo.Succeeds b :=
    fun hb => succeeds_label ha.succeeds hb
  have hlock : Echo.LockStep (view t.erase) := by
    rcases hview with hv | ⟨b, hb, hstep⟩
    · rw [hv]; exact h.lock
    · exact h.lock.step (hmove hb) (Echo.Step.of_step hstep)
  refine ⟨⟨h.tally.step hs, hlock.sound.clean.alive, hlock.own.clean.alive, ?_, hgoes.waits,
    hgoes.status, hgoes.handled, ?_⟩, hgoes.work⟩
  · obtain ⟨u, hsteady, hserves⟩ := h.service
    rcases hview with hv | ⟨b, hb, hstep⟩
    · rw [hv]; exact ⟨u, hsteady, hserves⟩
    · rcases hserves.step h.lock (hmove hb) (Echo.Step.of_step hstep) with
        hstay | ⟨x, u', hx, hok, hsmooth, hserves'⟩
      · exact ⟨u, hsteady, hstay⟩
      · exact ⟨u', hsteady.step hok (hsmooth (ha.smooth hb)) hx, hserves'⟩
  · by_cases hpeer : a = .toPeer
    · subst hpeer
      obtain ⟨m, hout, hacc, rfl⟩ := step_toPeer hs
      exact h.posted.toPeer hout hacc
    · rw [hlog hpeer]
      rcases hview with hv | ⟨b, hb, hstep⟩
      · rw [hv]; exact h.posted
      · exact h.posted.step h.lock h.sent (hmove hb) (ha.smooth hb) (Echo.Step.of_step hstep)
          (label_ne_toPeer hpeer hb)

theorem session_opened (recvId sendId : Nc) (r b : Block) (a : Client.Args) :
    Session v a.count.val (opened Client.peer.logged recvId sendId r b a) := by
  refine ⟨tally_opened recvId sendId r b a, rfl, rfl, ⟨Echoed.initial a, Echoed.steady_initial a,
    rfl, rfl, fun p hp => by cases hp⟩, fun _ => rfl, .inl rfl, ?_, ?_⟩
  · intro i wc hi
    cases hi
  · intro i hi
    cases hi

theorem work_opened (recvId sendId : Nc) (r b : Block) (a : Client.Args) :
    (opened Client.peer.logged recvId sendId r b a).work = 27 * a.count.val + 9 := by
  have hprogram : programWork .reqNotify (.create recvId sendId r b) = 7 := rfl
  have hclient : (Client.fresh a).work 18 = 27 * a.count.val + 1 := rfl
  simp only [State.work, opened, if_true, hprogram, Peer.logged, Client.peer, hclient]
  omega

/-! ## Where it ends -/

theorem Session.alive (h : Session v n s) : s.status.alive = true := by
  rcases h.status with hrun | ⟨hleft, -⟩
  · rw [hrun]; rfl
  · rw [hleft]; rfl

/-- Where no step gets the session on, nothing happens on the connection by
itself. -/
theorem Session.still (h : Session v n s)
    (hstuck : Run.Stuck (EchoLoop.step v Client.peer.logged) Active s) :
    Echo.Still (view s.erase) := by
  intro b hb
  cases b with
  | hca m =>
    have hnone := hstuck (.hca m) hb
    simp only [EchoLoop.step, h.alive, if_true, Option.map_eq_none_iff] at hnone
    simp [Echo.step, view, State.erase, hnone]
  | toServer opcode =>
    have hnone := hstuck (.toServer opcode) trivial
    refine Echo.toServer_eq_none opcode fun p hoffer hready => ?_
    replace hoffer : Client.peer.offer s.peer.1 = some p := hoffer
    replace hready : s.conn.ep.ready = true := hready
    simp [EchoLoop.step, h.alive, Peer.logged, hoffer, hready] at hnone
  | toPeer =>
    have hnone := hstuck .toPeer trivial
    refine Echo.toPeer_eq_none fun p hout hacc => ?_
    replace hout : s.conn.ep.outgoing = some p := hout
    replace hacc : Client.peer.accepts s.peer.1 = true := hacc
    simp [EchoLoop.step, h.alive, Peer.logged, hout, hacc] at hnone
  | peer a =>
    have hnone := hstuck (.peer a) hb
    simp only [EchoLoop.step, Peer.logged, Option.map_eq_none_iff] at hnone
    simp [Echo.step, view, State.erase, hnone]
  | _ => exact hb.elim

/-- The server is then behind its loop. If it still polled, its queue would be
empty, and the client behind its own loop, with all echoes delivered: as many as
the server waits for. -/
theorem Session.left_of_stuck (h : Session v n s) (hn : n = v.rounds)
    (hstuck : Run.Stuck (EchoLoop.step v Client.peer.logged) Active s) :
    s.status = .left ∧ ∃ i, s.pc = .head i ∧ ¬ i < v.rounds := by
  refine h.status.resolve_left fun hrun => ?_
  have hidle : s.pc.polls = true ∧ s.conn.ep.cq.entries = [] := by
    by_contra hidle
    have hnone := hstuck (.exec .ok) ⟨rfl, hidle⟩
    simp [EchoLoop.step, hrun] at hnone
  obtain ⟨hpolls, hnil⟩ := hidle
  cases hpc : s.pc with
  | poll i =>
    have hstill := h.still hstuck
    obtain ⟨u, hsteady, hserves⟩ := h.service
    obtain ⟨hsend, hrecv, hsq⟩ := h.lock.drained hstill
    have hclient := h.lock.finished hstill hserves hsteady
      (by simp [view, State.erase, hpc, Pc.stage, Echo.Stage.unread])
      (by simp [view, State.erase, hpc, Pc.stage, Echo.Stage.copied]) hnil
      fun hc => by simpa [hpc, Pc.early] using h.waits hc
    have hposted := h.posted _ hclient
    have hcount := h.sent.count
    have htotal := h.tally.counted.total
    have hbound := h.tally.counted.bound (by rw [hpc]; rfl)
    replace hsend : s.conn.ep.sendDone = [] := hsend
    simp only [hpc, Pc.count, Pc.handed, (h.tally.clean h.server).unpolled, hsend, Cq.sends,
      hnil, List.length_nil, List.countP_nil] at htotal hbound
    replace hnil : (view s.erase).conn.ep.cq.entries = [] := hnil
    have hstage : (view s.erase).stage = .quiet := by simp [view, State.erase, hpc, Pc.stage]
    simp only [Echo.State.inflight, Echo.State.unread, Echo.State.echoes, hcount, hsq, hrecv,
      h.lock.client_sq_of_still hstill, Cq.recvs, hnil, hstage, Echo.Stage.unread,
      Echo.Stage.copied, List.length_nil, List.countP_nil] at hposted
    omega
  | _ => simp [hpc, Pc.polls] at hpolls

/-- And the client behind its own, with the echoes of all its messages. -/
theorem Session.over (h : Session v n s) (hn : n = v.rounds)
    (hstuck : Run.Stuck (EchoLoop.step v Client.peer.logged) Active s) :
    s.status = .left ∧ s.peer.1.pc = .cleanup n ∧
      s.log.map cstr = (List.range n).map msgText := by
  obtain ⟨hleft, i, hpc, hi⟩ := h.left_of_stuck hn hstuck
  obtain ⟨-, htexts, -, hdone⟩ := h.tally.drained hpc (by omega)
  obtain ⟨-, -, hnil⟩ := hdone h.server
  obtain ⟨u, hsteady, hserves⟩ := h.service
  have hclient := h.lock.finished (h.still hstuck) hserves hsteady
    (by simp [view, State.erase, hpc, Pc.stage, Echo.Stage.unread])
    (by simp [view, State.erase, hpc, Pc.stage, Echo.Stage.copied]) hnil
    fun hc => by simpa [hpc, Pc.early] using h.waits hc
  exact ⟨hleft, h.sent.count ▸ hclient, htexts⟩

/-- **The session ends, and in one way only.** Server and client have the same
bound, at most the depth of the send queue, and nothing fails. Then no order of
the steps of the two programs, the two HCAs and the wire has more than `27 n + 9`
steps that are not idle polls, however often the programs poll; it can always be
gone on with until none is left; and there the server is behind its loop, the
client has done all its iterations, and the echoes of all its messages are
delivered, in order. -/
theorem session_completes {v : Variant} {recvId sendId : Nc} {r b : Block} {args : Client.Args}
    (hbound : args.count.val = v.rounds) (hfit : v.rounds ≤ maxSendWr)
    {as : List (Action Client.Action)} {t : State (Client × List Payload)}
    (hrun : Run.run (step v Client.peer.logged) (opened Client.peer.logged recvId sendId r b args)
      as = some t)
    (hm : Run.Meets (step v Client.peer.logged) (fun s a => Active s a ∨ Idle s a)
      (opened Client.peer.logged recvId sendId r b args) as) :
    Run.count (step v Client.peer.logged) Active
      (opened Client.peer.logged recvId sendId r b args) as ≤ 27 * v.rounds + 9 ∧
    (∃ bs u, Run.run (step v Client.peer.logged) t bs = some u ∧
      Run.Meets (step v Client.peer.logged) Active t bs ∧
      Run.Stuck (step v Client.peer.logged) Active u) ∧
    (Run.Stuck (step v Client.peer.logged) Active t →
      t.status = .left ∧ t.peer.1.pc = .cleanup v.rounds ∧
        t.log.map cstr = (List.range v.rounds).map msgText) := by
  have hstep : ∀ s a u, Session v v.rounds s → Active s a →
      step v Client.peer.logged s a = some u → Session v v.rounds u ∧ u.work < s.work :=
    fun s a u h ha hs => h.step hfit ha hs
  have hopened := session_opened (v := v) recvId sendId r b args
  rw [hbound] at hopened
  -- Without the idle polls it is a run of steps that each lower the work.
  obtain ⟨cs, -, hcs, hmeets, hlen⟩ := hm.skip Idle.eq_of_step hrun
  have hsession : Session v v.rounds t :=
    hmeets.invariant (fun s a u h ha hs => (hstep s a u h ha hs).1) hcs hopened
  refine ⟨?_, ?_, hsession.over rfl⟩
  · have hle := hmeets.length_le hstep hcs hopened
    rw [work_opened, hbound] at hle
    omega
  · obtain ⟨bs, u, hbs, hmoves, -, hstuck⟩ := Run.Meets.reaches_stuck hstep hsession
    exact ⟨bs, u, hbs, hmoves, hstuck⟩

/-- Both programs poll before there is anything to find. -/
def impatient : List (Action Client.Action) :=
  List.replicate 9 (.exec .ok) ++ List.replicate 4 (.peer (.exec .ok)) ++
  [.peer (.hca (.read 0)), .toServer .recv, .exec .ok, .hca .reportRecv] ++
  List.replicate 7 (.exec .ok) ++ [.hca (.read 0), .toPeer]

theorem session_completes_impatient : ∃ bs u,
    Run.run (step rdmacm03 Client.peer.logged)
      (opened Client.peer.logged 0 0 zeros zeros { Echoed.once with count := tenTimes })
      (impatient ++ bs) = some u ∧
    Run.count (step rdmacm03 Client.peer.logged) Active
      (opened Client.peer.logged 0 0 zeros zeros { Echoed.once with count := tenTimes })
      (impatient ++ bs) ≤ 279 ∧
    u.status = .left ∧ u.peer.1.pc = .cleanup 10 ∧
      u.log.map cstr = (List.range 10).map msgText := by
  have hsome : (Run.run (step rdmacm03 Client.peer.logged)
      (opened Client.peer.logged 0 0 zeros zeros { Echoed.once with count := tenTimes })
      impatient).isSome = true := by
    decide +kernel
  obtain ⟨t, ht⟩ := Option.isSome_iff_exists.mp hsome
  have hm : Run.Meets (step rdmacm03 Client.peer.logged) (fun s a => Active s a ∨ Idle s a)
      (opened Client.peer.logged 0 0 zeros zeros { Echoed.once with count := tenTimes })
      impatient := by
    decide +kernel
  obtain ⟨-, ⟨bs, u, hbs, hmeets, hstuck⟩, -⟩ :=
    session_completes (v := rdmacm03) rfl (by decide) ht hm
  have hu := Run.run_append ht hbs
  obtain ⟨hcount, -, hover⟩ := session_completes (v := rdmacm03) rfl (by decide) hu
    (hm.append ht (hmeets.mono fun s a => Or.inl))
  exact ⟨bs, u, hu, hcount, hover hstuck⟩

end EchoLoop

end RdmaTutorial
