import RdmaTutorial.Directories
import RdmaTutorial.Echo.Delivery
import RdmaTutorial.EchoCount

/-!
# rdmacm03 and rdmacm04: what the server leaves behind

The echo loop ends when `i` completions of sends have been handled, without a
look at the client. Against the client with the same bound nothing is lost
then: a completed send is a delivered echo, the client sends its next message
only after the echo of the one before, and it sends no more than its bound.
`Sent` counts the client's messages over all the places they can be, while both
ends work; once one has failed no message moves, and `Tally` keeps what is
still owed then.
-/

namespace RdmaTutorial

open CString Verbs

/-- The messages the loop has sent, while it runs. -/
def Client.Pc.posted : Client.Pc → Option Nat
  | .connecting => some 0
  | .compose i => some i
  | .postSend i => some i
  | .pollSend i => some (i + 1)
  | .notifySend i => some (i + 1)
  | .pollRecv i => some (i + 1)
  | .received i => some (i + 1)
  | .postRecv i => some (i + 1)
  | .notifyRecv i => some (i + 1)
  | .cleanup _ => none
  | .died _ _ => none

namespace Echo

/-- Messages and echoes that are under way. -/
def State.inflight (e : State Client) : Nat :=
  e.peer.conn.ep.sq.length + e.unread + e.echoes

/-- `log`, what has been delivered to the client, are the echoes of its first
messages, what the client has sent is delivered or under way, and it sends no
more than `n` messages. -/
structure Sent (n : Nat) (e : State Client) (log : List Payload) : Prop where
  count : e.peer.count.val = n
  posted : ∀ k, e.peer.pc.posted = some k → log.length + e.inflight = k
  next : ∀ i, e.peer.pc = .compose i ∨ e.peer.pc = .postSend i → i < n
  bounded : log.length + e.inflight ≤ n
  current : 0 < e.inflight → log.length = e.peer.pc.iter
  texts : log.map cstr = (List.range log.length).map msgText

variable {n : Nat} {e e' : State Client} {log : List Payload}

/-- The client stays where it is. -/
theorem Sent.of_same (h : Sent n e log) (hpc : e'.peer.pc = e.peer.pc)
    (hcount : e'.peer.count = e.peer.count) (hin : e'.inflight = e.inflight) : Sent n e' log := by
  obtain ⟨hn, hposted, hnext, hbounded, hcurrent, htexts⟩ := h
  refine ⟨?_, ?_, ?_, ?_, ?_, htexts⟩
  · rw [hcount]; exact hn
  · rw [hpc, hin]; exact hposted
  · rw [hpc]; exact hnext
  · rw [hin]; exact hbounded
  · rw [hpc, hin]; exact hcurrent

/-- The client goes on and sends nothing: to its next iteration only while
nothing is under way. -/
theorem Sent.of_client (h : Sent n e log) {c : Client} (hcount : c.count = e.peer.count)
    (hsq : c.conn.ep.sq = e.peer.conn.ep.sq)
    (hposted : ∀ k, c.pc.posted = some k → e.peer.pc.posted = some k)
    (hnext : ∀ i, c.pc = .compose i ∨ c.pc = .postSend i → i < n)
    (hiter : c.pc.iter = e.peer.pc.iter ∨ e.inflight = 0) : Sent n { e with peer := c } log := by
  have hin : ({ e with peer := c } : State Client).inflight = e.inflight :=
    congrArg (fun q => q.length + e.unread + e.echoes) hsq
  refine ⟨?_, fun k hk => ?_, hnext, ?_, fun hpos => ?_, h.texts⟩
  · rw [hcount]; exact h.count
  · rw [hin]; exact h.posted k (hposted k hk)
  · rw [hin]; exact h.bounded
  · rw [hin] at hpos
    rcases hiter with hiter | hzero
    · rw [hiter]; exact h.current hpos
    · omega

theorem LockStep.inflight_of_turn (hs : LockStep e) (hpc : e.peer.pc.holds = 1) :
    e.inflight = 0 := by
  obtain ⟨hu, he, hq, -, -⟩ := hs.turn hpc
  simp [State.inflight, hu, he, hq]

theorem Sent.exec (h : Sent n e log) (hs : LockStep e) {c : Client}
    (he : Client.Exec e.peer c) : Sent n { e with peer := c } log := by
  cases he with
  | spin => exact h
  | compose hpc hb =>
    refine h.of_client rfl rfl (by rw [hpc]; exact fun k hk => hk) ?_ (.inl (by rw [hpc]; rfl))
    rintro j (hj | hj) <;> cases hj
    exact h.next _ (.inl hpc)
  | @postSend i hpc hcap =>
    have hzero := hs.inflight_of_turn (by rw [hpc]; rfl)
    have hlen : log.length = i := by
      have := h.posted i (by rw [hpc]; rfl)
      omega
    have hlt := h.next i (.inr hpc)
    simp only [State.inflight, State.unread, State.echoes] at hzero
    constructor
    · exact h.count
    · intro k hk
      cases hk
      simp only [State.inflight, State.unread, State.echoes, List.length_append,
        List.length_singleton]
      omega
    · rintro j (hj | hj) <;> cases hj
    · simp only [State.inflight, State.unread, State.echoes, List.length_append,
        List.length_singleton]
      omega
    · intro _
      exact hlen
    · exact h.texts
  | @pollSend i x q hpc hq =>
    rcases Client.pollFor_cases hs.own.clean hq .send i (.notifySend i) with
      ⟨-, -, -, he⟩ | ⟨-, -, -, he⟩ <;> rw [he]
    · exact h.of_client rfl rfl (by rw [hpc]; exact fun k hk => hk) (by simp)
        (.inl (by rw [hpc]; rfl))
    · exact h.of_client rfl rfl (fun k hk => by cases hk) (by simp) (.inl (by rw [hpc]; rfl))
  | notifySend hpc =>
    exact h.of_client rfl rfl (by rw [hpc]; exact fun k hk => hk) (by simp)
      (.inl (by rw [hpc]; rfl))
  | @pollRecv i x q hpc hq =>
    obtain ⟨he, -, -, -⟩ := hs.own.pollRecv hpc hq
    rw [he]
    exact h.of_client rfl rfl (by rw [hpc]; exact fun k hk => hk) (by simp)
      (.inl (by rw [hpc]; rfl))
  | received hpc =>
    exact h.of_client rfl rfl (by rw [hpc]; exact fun k hk => hk) (by simp)
      (.inl (by rw [hpc]; rfl))
  | postRecv hpc hcap =>
    exact h.of_client rfl rfl (by rw [hpc]; exact fun k hk => hk) (by simp)
      (.inl (by rw [hpc]; rfl))
  | again hpc hi =>
    refine h.of_client rfl rfl (by rw [hpc]; exact fun k hk => hk) ?_
      (.inr (hs.inflight_of_turn (by rw [hpc]; rfl)))
    rintro j (hj | hj) <;> cases hj
    rw [← h.count]
    exact hi
  | finish hpc hi =>
    exact h.of_client rfl rfl (fun k hk => by cases hk) (by simp)
      (.inr (hs.inflight_of_turn (by rw [hpc]; rfl)))
  | breaks hpc =>
    refine h.of_client rfl rfl (fun k hk => by cases hk) (by simp) (.inl ?_)
    rcases hpc with hpc | hpc <;> rw [hpc] <;> rfl
  | pollDies hpc =>
    refine h.of_client rfl rfl (fun k hk => by cases hk) (by simp) (.inl ?_)
    rcases hpc with hpc | hpc <;> rw [hpc] <;> rfl
  | sendDies hpc hfull =>
    exact h.of_client rfl rfl (fun k hk => by cases hk) (by simp) (.inl (by rw [hpc]; rfl))
  | recvDies hpc hfull =>
    exact h.of_client rfl rfl (fun k hk => by cases hk) (by simp) (.inl (by rw [hpc]; rfl))

theorem Sent.clientEstablished (h : Sent n e log) :
    Sent n { e with peer := Client.established e.peer } log := by
  by_cases hpc : e.peer.pc = .connecting
  · rcases Client.established_cases hpc with ⟨hpos, he⟩ | ⟨-, he⟩ <;> rw [he]
    · refine h.of_client rfl rfl (by rw [hpc]; exact fun k hk => hk) ?_ (.inl (by rw [hpc]; rfl))
      rintro j (hj | hj) <;> cases hj
      rw [← h.count]
      exact hpos
    · exact h.of_client rfl rfl (fun k hk => by cases hk) (by simp) (.inl (by rw [hpc]; rfl))
  · rw [Client.established_of_ne hpc]
    exact h

theorem Sent.clientHca (h : Sent n e log) {m : Hca} (hm : m.Succeeds) {f : Endpoint Nc Payload}
    (he : e.peer.conn.ep.hca e.peer.conn.sendBuff.bytes m = some f) :
    Sent n { e with peer := { e.peer with conn := { e.peer.conn with ep := f } } } log := by
  refine h.of_same rfl rfl ?_
  have hlen : f.sq.length = e.peer.conn.ep.sq.length := by
    rcases Endpoint.hca_cases hm he with
      ⟨k, w, -, -, -, rfl⟩ | ⟨wc, q, -, -, rfl⟩ | ⟨wc, q, -, -, rfl⟩ <;> simp
  exact congrArg (· + e.unread + e.echoes) hlen

/-- The client's message arrives. -/
theorem Sent.toServer (h : Sent n e log) (hs : LockStep e) {m : Payload} {opcode : WcOpcode}
    (hoffer : e.peer.conn.ep.outgoing = some m) (hready : e.conn.ep.ready = true) :
    Sent n { e with conn := e.conn.receive opcode m, peer := Client.peer.sent e.peer } log := by
  obtain ⟨-, w, q, hq⟩ := Endpoint.outgoing_eq_some hoffer
  obtain ⟨-, w', q', hq'⟩ := Endpoint.ready_eq_true hready
  obtain ⟨hlen, -⟩ := hs.outgoing ⟨w, some m⟩ (by simp [hq]) m rfl
  refine h.of_same rfl rfl ?_
  simp only [State.inflight, State.unread, State.echoes, receive_of_fits hlen, Client.peer,
    Connection.delivered, Endpoint.delivered_of_sq hq, Endpoint.arrive_of_rq hq', hq,
    List.length_cons, List.length_append, List.length_nil]
  omega

/-- The echo arrives: it is the one of the client's current message. -/
theorem Sent.toPeer (h : Sent n e log) (hs : LockStep e) {m : Payload}
    (hout : e.conn.ep.outgoing = some m) (hacc : e.peer.conn.ep.ready = true) :
    Sent n { e with conn := e.conn.delivered, peer := Client.peer.receive m e.peer }
      (log ++ [m]) := by
  obtain ⟨-, w, q, hq⟩ := Endpoint.outgoing_eq_some hout
  obtain ⟨-, w', q', hq'⟩ := Endpoint.ready_eq_true hacc
  obtain ⟨wc, f, hep⟩ := Connection.receive_ep hq' .recv m
  obtain ⟨-, -, htext⟩ := hs.returning ⟨w, some m⟩ (by simp [hq]) m rfl
  have hin : ({ e with conn := e.conn.delivered, peer := Client.peer.receive m e.peer } :
      State Client).inflight + 1 = e.inflight := by
    simp only [State.inflight, State.unread, State.echoes, Client.peer, hep,
      Connection.delivered, Endpoint.delivered_of_sq hq, hq, List.length_cons]
    omega
  have hcurrent : log.length = e.peer.pc.iter := h.current (by omega)
  have hone : e.inflight ≤ 1 := by
    have := hs.token
    simp only [State.inflight, Client.tokens] at this ⊢
    omega
  constructor
  · exact h.count
  · intro k hk
    have := h.posted k hk
    rw [List.length_append, List.length_singleton]
    omega
  · exact h.next
  · have := h.bounded
    rw [List.length_append, List.length_singleton]
    omega
  · intro hpos
    omega
  · rw [List.map_append, h.texts, List.length_append, List.length_singleton, List.range_succ,
      List.map_append, List.map_singleton, List.map_singleton, htext, hcurrent]

/-- **One step** at either end or of the wire, but for the delivery of an
echo. -/
theorem Sent.step (h : Sent n e log) (hs : LockStep e) {b : Move Client.Action} (hb : Succeeds b)
    (hstep : Step Client.peer e b e') (hne : b ≠ .toPeer) : Sent n e' log := by
  cases hstep with
  | arm => exact h.of_same rfl rfl rfl
  | event => exact h.of_same rfl rfl rfl
  | firstRecv => exact h.of_same rfl rfl rfl
  | established => exact h.clientEstablished
  | poll c p n =>
    refine h.of_same rfl rfl ?_
    have hu := unread_poll (p := p) hs.sound.clean n
    simp only [State.inflight, State.echoes] at hu ⊢
    rw [hu]
    rfl
  | done => exact h.of_same rfl rfl rfl
  | next wc wcs c p =>
    refine h.of_same rfl rfl ?_
    have hu := unread_dispatch wc wcs c p
    simp only [State.inflight, State.echoes, dispatch_copied] at hu ⊢
    rw [hu]
    rfl
  | copy hcopy =>
    refine h.of_same rfl rfl ?_
    simp only [State.inflight, State.unread, State.echoes, Stage.unread, Stage.copied]
    omega
  | postRecv hcap => exact h.of_same rfl rfl rfl
  | postSend hcap =>
    refine h.of_same rfl rfl ?_
    simp only [State.inflight, State.unread, State.echoes, Stage.unread, Stage.copied,
      List.length_append, List.length_singleton]
    omega
  | @hca _ m f he =>
    refine h.of_same rfl rfl ?_
    have hu := unread_hca (s := e) hb he
    have hlen : f.sq.length = e.conn.ep.sq.length := by
      rcases Endpoint.hca_cases hb he with
        ⟨k, w, -, -, -, rfl⟩ | ⟨wc, q, -, -, rfl⟩ | ⟨wc, q, -, -, rfl⟩ <;> simp
    simp only [State.inflight, State.echoes, hu, hlen]
  | toServer hoffer hready => exact h.toServer hs hoffer hready
  | toPeer => exact absurd rfl hne
  | @peer _ a q hq =>
    cases a with
    | exec r => exact h.exec hs (Client.Exec.of_exec hq)
    | hca m =>
      obtain ⟨nc, hnc, rfl⟩ := Option.map_eq_some_iff.mp hq
      obtain ⟨f, hf, rfl⟩ := Connection.hca_eq_some hnc
      exact h.clientHca hb hf

theorem sent_opened (recvId sendId : Nc) (r b : Block) (a : Client.Args) :
    Sent a.count.val ⟨.opening, .create recvId sendId r b, Client.fresh a⟩ [] := by
  constructor
  · rfl
  · intro k hk
    cases hk
    rfl
  · rintro j (hj | hj) <;> cases hj
  · exact Nat.zero_le _
  · intro _
    rfl
  · rfl

end Echo

namespace EchoLoop

variable {ρ α : Type} {v : Variant} {n : Nat}

/-- What the runs of the server and the client keep, whatever fails. While both
ends work they are in lock step; an end that has failed moves no message, so
that what has been delivered then is all that ever will be. -/
structure Tally (v : Variant) (n : Nat) (s : State (Client × List Payload)) : Prop where
  counted : Counted v s.log.length s
  owed : s.log.length + s.owed ≤ n
  texts : s.log.map cstr = (List.range s.log.length).map msgText
  clean : s.conn.ep.failed = false → s.conn.ep.Clean
  inStep : s.conn.ep.failed = false → s.peer.1.conn.ep.failed = false →
    Echo.LockStep (view s.erase) ∧ Echo.Sent n (view s.erase) s.log

/-- In lock step the echoes that are owed are under way. -/
theorem owed_of_sent {s : State (Client × List Payload)} (hc : s.conn.ep.Clean)
    (h : Echo.Sent n (view s.erase) s.log) : s.log.length + s.owed ≤ n := by
  have hbounded := h.bounded
  have hpc : s.pc.owed ≤ s.pc.stage.unread + s.pc.stage.copied := by
    cases hs : s.pc with
    | dispatch i wc =>
      simp only [Pc.owed, Pc.stage, Echo.Stage.unread, recvsIn_cons, recvsIn_nil]
      split
      · rename_i hop
        simp [hop.2]
      · exact Nat.zero_le _
    | _ => simp [Pc.owed, Pc.stage, Echo.Stage.unread, Echo.Stage.copied]
  simp only [Echo.State.inflight, Echo.State.unread, Echo.State.echoes, view,
    State.erase] at hbounded
  simp only [State.owed, hc.arrived]
  omega

theorem Tally.of_sent {s : State (Client × List Payload)} (hcounted : Counted v s.log.length s)
    (hlock : Echo.LockStep (view s.erase)) (hsent : Echo.Sent n (view s.erase) s.log) :
    Tally v n s :=
  ⟨hcounted, owed_of_sent hlock.sound.clean hsent, hsent.texts, fun _ => hlock.sound.clean,
    fun _ _ => ⟨hlock, hsent⟩⟩

/-! ### Ends that work -/

/-- A message moves only between two ends that work. -/
theorem alive_of_message {s t : State Client} {a : Action Client.Action}
    (h : step v Client.peer s a = some t) (ha : a = .toPeer ∨ ∃ opcode, a = .toServer opcode) :
    s.conn.ep.failed = false ∧ s.peer.conn.ep.failed = false := by
  rcases ha with rfl | ⟨opcode, rfl⟩
  · obtain ⟨m, hout, hacc, -⟩ := step_toPeer h
    exact ⟨(Endpoint.outgoing_eq_some hout).1, (Endpoint.ready_eq_true hacc).1⟩
  · simp only [step] at h
    split at h
    · obtain ⟨m, hoffer, h⟩ := Option.bind_eq_some_iff.mp h
      split at h
      · rename_i hready
        exact ⟨(Endpoint.ready_eq_true hready).1, (Endpoint.outgoing_eq_some hoffer).1⟩
      · cases h
    · cases h

/-- What a step does to the server's end. -/
theorem step_end {σ : Type} {P : Peer ρ σ α} {s t : State σ} {a : Action α}
    (h : step v P s a = some t) (ht : t.conn.ep.failed = false) :
    s.conn.ep.failed = false ∧ (s.conn.ep.Clean → t.conn.ep.Clean) := by
  rcases step_view h with hv | ⟨b, -, hmove⟩
  · have hconn : t.conn = s.conn := congrArg Echo.State.conn hv
    rw [hconn] at ht ⊢
    exact ⟨ht, id⟩
  · have hstep := Echo.Step.of_step hmove
    refine ⟨?_, fun hc => hstep.clean hc ht⟩
    by_contra hs
    have hf : t.conn.ep.failed = true := hstep.failed (by simpa [view] using hs)
    rw [ht] at hf
    cases hf

/-- Two ends that work have worked before, and in the step. -/
theorem works_of_alive {s t : State Client} {a : Action Client.Action}
    (h : step v Client.peer s a = some t) (hserver : t.conn.ep.failed = false)
    (hclient : t.peer.conn.ep.failed = false) :
    s.conn.ep.failed = false ∧ s.peer.conn.ep.failed = false ∧ Succeeds a := by
  cases a with
  | exec r =>
    refine ⟨(step_end h hserver).1, ?_, trivial⟩
    simp only [step] at h
    split at h
    · cases h
      rcases exec_peer (v := v) (P := Client.peer) s r with hp | hp
      · rwa [hp] at hclient
      · rwa [hp, show Client.peer.established = Client.established from rfl,
          Client.established_conn] at hclient
    · cases h
  | hca m =>
    simp only [step] at h
    split at h
    · obtain ⟨c, hc, rfl⟩ := Option.map_eq_some_iff.mp h
      obtain ⟨e, he, rfl⟩ := Connection.hca_eq_some hc
      obtain ⟨hf, hm⟩ := Endpoint.hca_alive he hserver
      exact ⟨hf, hclient, hm⟩
    · cases h
  | toServer opcode =>
    obtain ⟨hs, hc⟩ := alive_of_message h (.inr ⟨opcode, rfl⟩)
    exact ⟨hs, hc, trivial⟩
  | toPeer =>
    obtain ⟨hs, hc⟩ := alive_of_message h (.inl rfl)
    exact ⟨hs, hc, trivial⟩
  | peer x =>
    obtain ⟨q, hq, rfl⟩ := Option.map_eq_some_iff.mp h
    cases x with
    | exec r =>
      have hf := (Client.Exec.of_exec hq).failed
      exact ⟨hserver, hf.symm.trans hclient, trivial⟩
    | hca m =>
      obtain ⟨nc, hnc, rfl⟩ := Option.map_eq_some_iff.mp hq
      obtain ⟨f, he, rfl⟩ := Connection.hca_eq_some hnc
      obtain ⟨hf, hm⟩ := Endpoint.hca_alive he hclient
      exact ⟨hserver, hf, hm⟩

theorem label_ne_toPeer {s : State Client} {a : Action Client.Action} (ha : a ≠ .toPeer)
    {b : Echo.Move Client.Action} (hb : label s a = some b) : b ≠ .toPeer := by
  rintro rfl
  cases a with
  | exec r =>
    simp only [label] at hb
    split at hb <;> cases hb
  | toPeer => exact ha rfl
  | _ => cases hb

/-- A step in which nothing fails, between two ends that work. -/
theorem Tally.succeeds {s t : State (Client × List Payload)} {a : Action Client.Action}
    (h : Tally v n s) (hserver : s.conn.ep.failed = false)
    (hclient : s.peer.1.conn.ep.failed = false) (ha : Succeeds a)
    (hstep : step v Client.peer.logged s a = some t) : Tally v n t := by
  obtain ⟨hlock, hsent⟩ := h.inStep hserver hclient
  obtain ⟨herase, hlog⟩ := step_erase hstep
  have hview := step_view herase
  have hcounted := h.counted.step hstep
  have hlock' : Echo.LockStep (view t.erase) := by
    rcases hview with hv | ⟨b, hb, hmove⟩
    · rw [hv]; exact hlock
    · exact hlock.step (succeeds_label ha hb) (Echo.Step.of_step hmove)
  by_cases hpeer : a = .toPeer
  · subst hpeer
    obtain ⟨m, hout, hacc, rfl⟩ := step_toPeer hstep
    refine .of_sent ?_ hlock' (hsent.toPeer hlock hout hacc)
    rwa [State.log, Peer.logged, List.length_append, List.length_singleton]
  · have hl := hlog hpeer
    refine .of_sent ?_ hlock' ?_
    · rwa [hl, ← Nat.add_zero s.log.length, ← Action.deliveries_of_ne hpeer]
    · rw [hl]
      rcases hview with hv | ⟨b, hb, hmove⟩
      · rw [hv]; exact hsent
      · exact hsent.step hlock (succeeds_label ha hb) (Echo.Step.of_step hmove)
          (label_ne_toPeer hpeer hb)

/-- **The step lemma.** Where something has failed, or fails now, no message
moves. -/
theorem Tally.step {s t : State (Client × List Payload)} {a : Action Client.Action}
    (h : Tally v n s) (hstep : step v Client.peer.logged s a = some t) : Tally v n t := by
  obtain ⟨herase, hlog⟩ := step_erase hstep
  by_cases hworks : s.conn.ep.failed = false ∧ s.peer.1.conn.ep.failed = false ∧ Succeeds a
  · obtain ⟨hserver, hclient, ha⟩ := hworks
    exact h.succeeds hserver hclient ha hstep
  · have hmessage : ¬ (a = .toPeer ∨ ∃ opcode, a = .toServer opcode) := fun ha => by
      obtain ⟨hserver, hclient⟩ := alive_of_message herase ha
      refine hworks ⟨hserver, hclient, ?_⟩
      rcases ha with rfl | ⟨opcode, rfl⟩ <;> trivial
    have hpeer : a ≠ .toPeer := fun ha => hmessage (.inl ha)
    have hl := hlog hpeer
    have hcounted := h.counted.step hstep
    have howed := owed_step h.counted.honest hstep fun opcode ha => hmessage (.inr ⟨opcode, ha⟩)
    rw [Action.deliveries_of_ne hpeer, Nat.add_zero] at hcounted howed
    have hle := h.owed
    refine ⟨by rwa [hl], by rw [hl]; omega, by rw [hl]; exact h.texts, fun ht => ?_,
      fun hs hc => absurd (works_of_alive herase hs hc) hworks⟩
    obtain ⟨hs, hclean⟩ := step_end hstep ht
    exact hclean (h.clean hs)

theorem tally_opened (recvId sendId : Nc) (r b : Block) (a : Client.Args) :
    Tally v a.count.val (opened Client.peer.logged recvId sendId r b a) :=
  .of_sent (counted_opened recvId sendId r b a) (Echo.lockStep_opened recvId sendId r b a)
    (Echo.sent_opened recvId sendId r b a)

theorem tally_run {recvId sendId : Nc} {r b : Block} {args : Client.Args}
    {as : List (Action Client.Action)} {t : State (Client × List Payload)}
    (hrun : Run.run (step v Client.peer.logged) (opened Client.peer.logged recvId sendId r b args)
      as = some t) : Tally v args.count.val t :=
  Run.run_invariant (fun _ _ _ h hs => h.step hs) hrun (tally_opened recvId sendId r b args)

/-- Once the loop has counted as many sends as the client sends messages, all
of them are delivered, none is left to be sent, and no completion but those of
a failure. -/
theorem Tally.drained {i : Nat} {s : State (Client × List Payload)} (h : Tally v n s)
    (hpc : s.pc = .head i) (hi : n ≤ i) :
    i = n ∧ s.log.map cstr = (List.range n).map msgText ∧ s.conn.ep.sq = [] ∧
      (s.conn.ep.failed = false →
        s.conn.ep.sendDone = [] ∧ s.conn.ep.recvDone = [] ∧ s.conn.ep.cq.entries = []) := by
  have hcounted := h.counted.total
  have howed := h.owed
  simp only [hpc, Pc.count, Pc.handed] at hcounted
  simp only [hpc, State.owed, Pc.owed] at howed
  have hlog : s.log.length = n := by omega
  refine ⟨by omega, ?_, ?_, fun halive => ?_⟩
  · rw [h.texts, hlog]
  · exact List.eq_nil_of_length_eq_zero (by omega)
  · have hlen := Cq.length_entries s.conn.ep.cq
    rw [(h.clean halive).unpolled] at hcounted
    rw [(h.clean halive).arrived] at howed
    exact ⟨List.eq_nil_of_length_eq_zero (by omega), List.eq_nil_of_length_eq_zero (by omega),
      List.eq_nil_of_length_eq_zero (by omega)⟩

/-- Server and client have the same bound, any one, and anything may fail at
either end. Whenever the server finds in the test of its loop that `i` has
reached the bound, the echoes of all the client's messages have been delivered,
in order and as the strings they were sent as, no send is posted, and while its
queue pair works no completion is unreported or unpolled. -/
theorem no_echo_lost {v : Variant} {recvId sendId : Nc} {r b : Block} {args : Client.Args}
    (hbound : args.count.val = v.rounds) {as : List (Action Client.Action)}
    {t : State (Client × List Payload)}
    (hrun : Run.run (step v Client.peer.logged) (opened Client.peer.logged recvId sendId r b args)
      as = some t) {i : Nat} (hpc : t.pc = .head i) (hexit : ¬ i < v.rounds) :
    i = v.rounds ∧ t.log.map cstr = (List.range v.rounds).map msgText ∧ t.conn.ep.sq = [] ∧
      (t.conn.ep.failed = false →
        t.conn.ep.sendDone = [] ∧ t.conn.ep.recvDone = [] ∧ t.conn.ep.cq.entries = []) := by
  have h := tally_run hrun
  rw [hbound] at h
  exact h.drained hpc (by omega)

/-- One iteration of both: the client's message is echoed, and its own completions
come as soon as they can, the server's as late as they can. -/
def iteration : List (Action Client.Action) :=
  [.peer (.exec .ok), .peer (.exec .ok), .peer (.hca (.read 0)), .toServer .recv,
    .peer (.hca .reportSend), .peer (.exec .ok), .peer (.exec .ok), .hca .reportRecv] ++
  List.replicate 7 (.exec .ok) ++ [.hca (.read 0), .toPeer, .peer (.hca .reportRecv)] ++
  List.replicate 4 (.peer (.exec .ok)) ++ [.hca .reportSend] ++ List.replicate 4 (.exec .ok)

/-- A whole session of rdmacm03. -/
def tenEchoes : List (Action Client.Action) :=
  List.replicate 7 (.exec .ok) ++ (List.replicate 10 iteration).flatten

theorem no_echo_lost_tenEchoes : ∃ t,
    Run.run (step rdmacm03 Client.peer.logged)
      (opened Client.peer.logged 0 0 zeros zeros { Echoed.once with count := tenTimes })
      tenEchoes = some t ∧
    t.status = .left ∧ t.log.map cstr = (List.range 10).map msgText ∧ t.conn.ep.sq = [] ∧
    t.conn.ep.cq.entries = [] := by
  have hrun : (Run.run (step rdmacm03 Client.peer.logged)
      (opened Client.peer.logged 0 0 zeros zeros { Echoed.once with count := tenTimes })
      tenEchoes).map (fun t => (t.status, t.pc, t.conn.ep.failed)) =
      some (.left, .head 10, false) := by
    decide +kernel
  obtain ⟨t, ht, htriple⟩ := Option.map_eq_some_iff.mp hrun
  obtain ⟨hleft, hrest⟩ := Prod.mk.inj htriple
  obtain ⟨hpc, halive⟩ := Prod.mk.inj hrest
  obtain ⟨-, hlog, hsq, hdone⟩ := no_echo_lost (v := rdmacm03) rfl ht hpc (by decide)
  exact ⟨t, ht, hleft, hlog, hsq, (hdone halive).2.2⟩

end EchoLoop

end RdmaTutorial
