import RdmaTutorial.ClientFlow
import RdmaTutorial.Echo.Receives

/-!
# The repository's client at the other end

The client sends a message only after it has read the echo of the one before,
so message and echo together are one token: it is with the client, on its way
to the server, at the server, or on its way back. `LockStep` says that there
is at most one, that the client's receive and its send are each in one place,
and that every buffer the token is in holds the text of the client's current
iteration. Completions of the server's sends play no part: the server may
still wait for any number of them.
-/

namespace RdmaTutorial

open CString Verbs

/-- `bs` starts with the text of iteration `i`. -/
def Text (i : Nat) (bs : List UInt8) : Prop := Terminated bs ∧ cstr bs = msgText i

namespace Echo

/-- A move in which no HCA fails, at either end. -/
def Succeeds : Move Client.Action → Prop
  | .hca m => m.Succeeds
  | .peer (.hca m) => m.Succeeds
  | _ => True

structure LockStep (s : State Client) : Prop where
  sound : Sound s
  own : s.peer.Own
  opening : s.stage = .opening → s.peer.pc = .connecting
  token : s.peer.tokens + s.unread + s.echoes ≤ 1
  composed : (∃ i, s.peer.pc = .postSend i) ∨ s.peer.conn.ep.sq ≠ [] →
    Text s.peer.pc.iter s.peer.conn.sendBuff.bytes
  outgoing : ∀ x ∈ s.peer.conn.ep.sq, ∀ p, x.payload = some p →
    p.length ≤ bufferSize ∧ Text s.peer.pc.iter p
  arrived : 0 < s.unread → Text s.peer.pc.iter s.conn.recvBuff.bytes
  copied : 0 < s.echoes → Text s.peer.pc.iter s.conn.sendBuff.bytes
  returning : ∀ x ∈ s.conn.ep.sq, ∀ p, x.payload = some p →
    p.length ≤ bufferSize ∧ Text s.peer.pc.iter p
  echoed : 0 < s.peer.unreadEcho → Text s.peer.pc.iter s.peer.conn.recvBuff.bytes

theorem Text.write {i : Nat} {p : Payload} (hp : p.length ≤ bufferSize) (h : Text i p)
    (b : Block) : Text i (b.write p).bytes :=
  ⟨Buffer.terminated_write b hp h.1, by rw [Buffer.cstr_write b hp h.1]; exact h.2⟩

/-! ## The server's moves -/

/-- A move of the server that leaves the other end alone: what is left to show
is about the server's end. -/
theorem LockStep.of_server {s : State Client} (hs : LockStep s) {st : Stage} {c : Connection}
    (hsound : Sound ⟨st, c, s.peer⟩) (hopen : st = .opening → s.stage = .opening)
    (htoken : (⟨st, c, s.peer⟩ : State Client).unread + (⟨st, c, s.peer⟩ : State Client).echoes ≤
      s.unread + s.echoes)
    (harrived : 0 < (⟨st, c, s.peer⟩ : State Client).unread →
      Text s.peer.pc.iter c.recvBuff.bytes)
    (hcopied : 0 < (⟨st, c, s.peer⟩ : State Client).echoes →
      Text s.peer.pc.iter c.sendBuff.bytes)
    (hreturning : ∀ x ∈ c.ep.sq, ∀ p, x.payload = some p →
      p.length ≤ bufferSize ∧ Text s.peer.pc.iter p) :
    LockStep ⟨st, c, s.peer⟩ := by
  refine ⟨hsound, hs.own, fun h => hs.opening (hopen h), ?_, hs.composed, hs.outgoing, harrived,
    hcopied, hreturning, hs.echoed⟩
  have := hs.token
  simp only at htoken ⊢
  omega

theorem mem_set_payload {q : List (SendWqe Nc Payload)} {k : Nat} {w : Nc} {buff : Payload}
    {Q : Payload → Prop} (hq : ∀ x ∈ q, ∀ p, x.payload = some p → Q p) (hb : Q buff) :
    ∀ x ∈ q.set k ⟨w, some buff⟩, ∀ p, x.payload = some p → Q p := by
  intro x hx p hp
  rcases List.mem_or_eq_of_mem_set hx with hx | rfl
  · exact hq x hx p hp
  · cases hp; exact hb

/-- The HCA of the server: a read takes what `send_buff` holds, which is the
text of the echo it is read for. -/
theorem LockStep.hca {s : State Client} (hs : LockStep s) {m : Hca} (hm : m.Succeeds)
    {e : Endpoint Nc Payload} (he : s.conn.ep.hca s.conn.sendBuff.bytes m = some e)
    (hsound : Sound { s with conn := { s.conn with ep := e } }) :
    LockStep { s with conn := { s.conn with ep := e } } := by
  have hu := unread_hca (s := s) hm he
  have htoken := Nat.le_of_eq (congrArg (· + s.echoes) hu)
  have harrived : 0 < (⟨s.stage, { s.conn with ep := e }, s.peer⟩ : State Client).unread →
      Text s.peer.pc.iter s.conn.recvBuff.bytes := by
    rw [hu]
    exact hs.arrived
  rcases Endpoint.hca_cases hm he with
    ⟨k, w, -, -, hk, rfl⟩ | ⟨wc, q, -, hq, rfl⟩ | ⟨wc, q, -, hq, rfl⟩
  · have hpos : 0 < s.conn.ep.sq.length :=
      List.length_pos_of_mem (List.mem_of_getElem? hk)
    have hbuff : Text s.peer.pc.iter s.conn.sendBuff.bytes :=
      hs.copied (by simp only [State.echoes]; omega)
    refine hs.of_server hsound id ?_ harrived (fun _ => hbuff)
      (mem_set_payload hs.returning ⟨Nat.le_of_eq s.conn.sendBuff.length_eq, hbuff⟩)
    simp [State.unread, State.echoes]
  · exact hs.of_server hsound id htoken harrived hs.copied hs.returning
  · exact hs.of_server hsound id htoken harrived hs.copied hs.returning

/-! ## The wire -/

/-- The client's message arrives: the token moves to the server. -/
theorem LockStep.toServer {s : State Client} (hs : LockStep s) {m : Payload}
    (hoffer : s.peer.conn.ep.outgoing = some m) (hready : s.conn.ep.ready = true)
    {opcode : WcOpcode}
    (hsound : Sound { s with
      conn := s.conn.receive opcode m, peer := Client.peer.sent s.peer }) :
    LockStep { s with conn := s.conn.receive opcode m, peer := Client.peer.sent s.peer } := by
  obtain ⟨-, w, q, hq⟩ := Endpoint.outgoing_eq_some hoffer
  obtain ⟨-, w', q', hq'⟩ := Endpoint.ready_eq_true hready
  obtain ⟨hlen, htext⟩ := hs.outgoing ⟨w, some m⟩ (by simp [hq]) m rfl
  have htok := hs.token
  simp only [Client.tokens, hq, List.length_cons] at htok
  have hunread : s.unread = 0 := by omega
  have hechoes : s.echoes = 0 := by omega
  rw [receive_of_fits hlen] at hsound ⊢
  have hpeer : Client.peer.sent s.peer = { s.peer with conn := { s.peer.conn with
      ep := { s.peer.conn.ep with sq := q, sendDone := s.peer.conn.ep.sendDone ++
        [⟨w, .success, .send, 0⟩] } } } := by
    simp [Client.peer, Connection.delivered, Endpoint.delivered_of_sq hq]
  have hu : ∀ p, (⟨s.stage, { s.conn with
      recvBuff := s.conn.recvBuff.write m, ep := s.conn.ep.arrive m.length }, p⟩ :
        State Client).unread = 1 := by
    intro p
    simp only [State.unread] at hunread
    simp only [State.unread, Endpoint.arrive_of_rq hq', List.length_append, List.length_singleton]
    omega
  have he : ∀ p, (⟨s.stage, { s.conn with
      recvBuff := s.conn.recvBuff.write m, ep := s.conn.ep.arrive m.length }, p⟩ :
        State Client).echoes = 0 := by
    intro p
    simpa [State.echoes, Endpoint.arrive_of_rq hq'] using hechoes
  obtain ⟨hown, htokens⟩ := hs.own.sent hoffer
  have htotal := hs.token
  exact {
    sound := hsound
    own := hown
    opening := hs.opening
    token := by
      simp only [hu, he]
      simp only [Client.peer]
      omega
    composed := by
      intro hor
      simp only [hpeer] at hor ⊢
      exact hs.composed (hor.imp id fun _ => by simp [hq])
    outgoing := by
      intro x hx p hp
      simp only [hpeer] at hx ⊢
      exact hs.outgoing x (by simp [hq, hx]) p hp
    arrived := by
      intro _
      simp only [hpeer]
      exact Text.write hlen htext _
    copied := by
      intro hpos
      rw [he] at hpos
      omega
    returning := by
      intro x hx p hp
      have hsq : s.conn.ep.sq = [] := by
        simp only [State.echoes] at hechoes
        exact List.length_eq_zero_iff.mp (by omega)
      simp [Endpoint.arrive_of_rq hq', hsq] at hx
    echoed := by
      simpa [hpeer, Client.unreadEcho] using hs.echoed }

/-- The echo arrives: the token moves to the client. -/
theorem LockStep.toPeer {s : State Client} (hs : LockStep s) {m : Payload}
    (hout : s.conn.ep.outgoing = some m) (hacc : s.peer.conn.ep.ready = true)
    (hsound : Sound { s with
      conn := s.conn.delivered, peer := Client.peer.receive m s.peer }) :
    LockStep { s with conn := s.conn.delivered, peer := Client.peer.receive m s.peer } := by
  obtain ⟨-, w, q, hq⟩ := Endpoint.outgoing_eq_some hout
  obtain ⟨-, w', q', hq'⟩ := Endpoint.ready_eq_true hacc
  obtain ⟨hlen, htext⟩ := hs.returning ⟨w, some m⟩ (by simp [hq]) m rfl
  have htok := hs.token
  simp only [State.echoes, hq, List.length_cons] at htok
  have hunread : s.unread = 0 := by omega
  have hcopied : s.stage.copied = 0 := by omega
  have hlen0 : q.length = 0 := by omega
  have hpeer : Client.peer.receive m s.peer = { s.peer with conn := { s.peer.conn with
      recvBuff := s.peer.conn.recvBuff.write m, ep := s.peer.conn.ep.arrive m.length } } := by
    simp [Client.peer, receive_of_fits hlen]
  have hu : ∀ p, (⟨s.stage, s.conn.delivered, p⟩ : State Client).unread = 0 := by
    intro p
    simpa [State.unread, Connection.delivered, Endpoint.delivered_of_sq hq] using hunread
  have he : ∀ p, (⟨s.stage, s.conn.delivered, p⟩ : State Client).echoes = 0 := by
    intro p
    simp only [State.echoes, Connection.delivered, Endpoint.delivered_of_sq hq]
    omega
  obtain ⟨hown, htokens⟩ := hs.own.receive hacc hlen .recv
  have htotal := hs.token
  exact {
    sound := hsound
    own := hown
    opening := hs.opening
    token := by
      simp only [hu, he]
      simp only [Client.peer]
      omega
    composed := by
      intro hor
      simp only [hpeer, Endpoint.arrive_of_rq hq'] at hor ⊢
      exact hs.composed hor
    outgoing := by
      intro x hx p hp
      simp only [hpeer, Endpoint.arrive_of_rq hq'] at hx ⊢
      exact hs.outgoing x hx p hp
    arrived := by
      intro hpos
      rw [hu] at hpos
      omega
    copied := by
      intro hpos
      rw [he] at hpos
      omega
    returning := by
      intro x hx p hp
      simp [Connection.delivered, Endpoint.delivered_of_sq hq,
        List.length_eq_zero_iff.mp hlen0] at hx
    echoed := by
      intro _
      simp only [hpeer]
      exact Text.write hlen htext _ }

/-! ## The client's moves -/

theorem LockStep.of_client {s : State Client} (hs : LockStep s) {c : Client} (hown : c.Own)
    (htokens : c.tokens ≤ s.peer.tokens) (hopen : s.stage = .opening → c.pc = .connecting)
    (hiter : c.pc.iter = s.peer.pc.iter)
    (hcomposed : (∃ i, c.pc = .postSend i) ∨ c.conn.ep.sq ≠ [] →
      Text c.pc.iter c.conn.sendBuff.bytes)
    (houtgoing : ∀ x ∈ c.conn.ep.sq, ∀ p, x.payload = some p →
      p.length ≤ bufferSize ∧ Text c.pc.iter p)
    (hechoed : 0 < c.unreadEcho → Text c.pc.iter c.conn.recvBuff.bytes) :
    LockStep { s with peer := c } := by
  refine ⟨⟨hs.sound.clean, hs.sound.receives⟩, hown, hopen, ?_, hcomposed, houtgoing, ?_, ?_, ?_,
    hechoed⟩
  · have := hs.token
    simp only [State.unread, State.echoes] at this ⊢
    omega
  · rw [hiter]; exact hs.arrived
  · rw [hiter]; exact hs.copied
  · rw [hiter]; exact hs.returning

/-- While it is the client's turn nothing is under way, so the loop variable
can move on. -/
theorem LockStep.turn {s : State Client} (hs : LockStep s) (hpc : s.peer.pc.holds = 1) :
    s.unread = 0 ∧ s.echoes = 0 ∧ s.peer.conn.ep.sq = [] ∧ s.conn.ep.sq = [] ∧
      s.peer.conn.ep.recvDone.length + s.peer.conn.ep.cq.recvs = 0 := by
  have := hs.token
  simp only [Client.tokens, State.echoes] at this ⊢
  exact ⟨by omega, by omega, List.length_eq_zero_iff.mp (by omega),
    List.length_eq_zero_iff.mp (by omega), by omega⟩

/-- The client's turn, with nothing unread: it may go to another iteration. -/
theorem LockStep.of_turn {s : State Client} (hs : LockStep s) (hpc : s.peer.pc.holds = 1)
    {c : Client} (hown : c.Own) (htokens : c.tokens ≤ s.peer.tokens)
    (hopen : s.stage = .opening → c.pc = .connecting) (hc : ∀ i, c.pc ≠ .postSend i)
    (hsq : c.conn.ep.sq = s.peer.conn.ep.sq) (hunread : c.pc.unread = 0)
    (hdone : c.conn.ep.recvDone = s.peer.conn.ep.recvDone)
    (hrecvs : c.conn.ep.cq.recvs = s.peer.conn.ep.cq.recvs) : LockStep { s with peer := c } := by
  obtain ⟨hu, he, hq, hq', h0⟩ := hs.turn hpc
  exact {
    sound := ⟨hs.sound.clean, hs.sound.receives⟩
    own := hown
    opening := hopen
    token := by
      have := hs.token
      simp only [State.unread, State.echoes] at this ⊢
      omega
    composed := by
      rintro (⟨i, hi⟩ | hne)
      · exact absurd hi (hc i)
      · exact absurd (hsq.trans hq) hne
    outgoing := by
      intro x hx
      simp [hsq, hq] at hx
    arrived := by
      intro hpos
      simp only [State.unread] at hu hpos
      omega
    copied := by
      intro hpos
      simp only [State.echoes] at he hpos
      omega
    returning := by
      intro x hx
      simp [hq'] at hx
    echoed := by
      intro hpos
      simp only [Client.unreadEcho, hunread, hdone, hrecvs] at hpos
      omega }

/-- The client stays in its iteration, and touches neither buffer nor what it
has posted. -/
theorem LockStep.of_stay {s : State Client} (hs : LockStep s) {c : Client} (hown : c.Own)
    (htokens : c.tokens ≤ s.peer.tokens) (hopen : s.stage = .opening → c.pc = .connecting)
    (hiter : c.pc.iter = s.peer.pc.iter) (hp : ∀ i, c.pc ≠ .postSend i)
    (hsend : c.conn.sendBuff = s.peer.conn.sendBuff) (hsq : c.conn.ep.sq = s.peer.conn.ep.sq)
    (hrecv : c.conn.recvBuff = s.peer.conn.recvBuff)
    (hunread : 0 < c.unreadEcho → 0 < s.peer.unreadEcho) : LockStep { s with peer := c } := by
  refine hs.of_client hown htokens hopen hiter ?_ ?_ ?_
  · rintro (⟨i, hi⟩ | hne)
    · exact absurd hi (hp i)
    · rw [hiter, hsend]
      exact hs.composed (.inr (hsq ▸ hne))
  · rw [hiter, hsq]
    exact hs.outgoing
  · intro hpos
    rw [hiter, hrecv]
    exact hs.echoed (hunread hpos)

/-- The client leaves its loop or dies. -/
theorem LockStep.of_stop {s : State Client} (hs : LockStep s) {p : Client.Pc}
    (hown : ({ s.peer with pc := p } : Client).Own)
    (htokens : ({ s.peer with pc := p } : Client).tokens ≤ s.peer.tokens)
    (hopen : s.stage = .opening → p = .connecting) (hiter : p.iter = s.peer.pc.iter)
    (hp : ∀ i, p ≠ .postSend i) (hunread : p.unread = 0) :
    LockStep { s with peer := { s.peer with pc := p } } := by
  refine hs.of_stay hown htokens hopen hiter hp rfl rfl rfl fun hpos => ?_
  simp only [Client.unreadEcho, hunread] at hpos ⊢
  omega

theorem LockStep.exec {s : State Client} (hs : LockStep s) {c : Client}
    (he : Client.Exec s.peer c) : LockStep { s with peer := c } := by
  obtain ⟨hown, htokens⟩ := hs.own.exec he
  have hopen : s.stage = .opening → c.pc = .connecting := fun h => by
    rw [he.of_connecting (hs.opening h)]
    exact hs.opening h
  cases he with
  | spin => exact hs
  | compose hpc hb =>
    obtain ⟨-, -, hq, -, h0⟩ := hs.turn (by rw [hpc]; rfl)
    have htext := Buffer.print_spec (zero_notMem_msgText _) hb
    refine hs.of_client hown htokens hopen (by rw [hpc]; rfl) (fun _ => ⟨htext.2, htext.1⟩) ?_ ?_
    · intro x hx
      simp [hq] at hx
    · intro hpos
      simp only [Client.unreadEcho, Client.Pc.unread] at hpos
      omega
  | postSend hpc hcap =>
    obtain ⟨-, -, hq, -, h0⟩ := hs.turn (by rw [hpc]; rfl)
    have hcomp := hs.composed (.inl ⟨_, hpc⟩)
    rw [hpc] at hcomp
    refine hs.of_client hown htokens hopen (by rw [hpc]; rfl) (fun _ => hcomp) ?_ ?_
    · intro x hx p hp
      rw [hq, List.nil_append, List.mem_singleton] at hx
      subst hx
      cases hp
    · intro hpos
      simp only [Client.unreadEcho, Client.Pc.unread] at hpos
      omega
  | @pollSend i x q hpc hq =>
    -- Whichever completion it finds, it has not taken the echo's.
    rcases Client.pollFor_cases hs.own.clean hq .send i (.notifySend i) with
      ⟨-, -, hrn, he⟩ | ⟨-, -, hrn, he⟩ <;> rw [he] at hown htokens hopen ⊢
    · refine hs.of_stay hown htokens hopen (by rw [hpc]; rfl) (by simp) rfl rfl rfl fun hpos => ?_
      simp only [Client.unreadEcho, hpc, Connection.poll, Endpoint.poll, if_true,
        Client.Pc.unread] at hpos ⊢
      omega
    · refine hs.of_stay hown htokens hopen (by rw [hpc]; rfl) (by simp) rfl rfl rfl fun hpos => ?_
      simp only [Client.unreadEcho, hpc, Connection.poll, Endpoint.poll, reduceCtorEq, if_false,
        Client.Pc.unread] at hpos ⊢
      omega
  | notifySend hpc =>
    refine hs.of_stay hown htokens hopen (by rw [hpc]; rfl) (by simp) rfl rfl rfl fun hpos => ?_
    simpa [Client.unreadEcho, hpc, Connection.reqNotify, Endpoint.reqNotify,
      Client.Pc.unread] using hpos
  | @pollRecv i x q hpc hq =>
    -- The completion it takes is the echo's, so the echo was there to be read.
    obtain ⟨he, -, -, hpos⟩ := hs.own.pollRecv hpc hq
    rw [he] at hown htokens hopen ⊢
    refine hs.of_stay hown htokens hopen (by rw [hpc]; rfl) (by simp) rfl rfl rfl fun _ => ?_
    simp only [Client.unreadEcho]
    omega
  | received hpc =>
    exact hs.of_turn (by rw [hpc]; rfl) hown htokens hopen (by simp) rfl rfl rfl rfl
  | postRecv hpc hcap =>
    exact hs.of_turn (by rw [hpc]; rfl) hown htokens hopen (by simp) rfl rfl rfl rfl
  | again hpc hi =>
    exact hs.of_turn (by rw [hpc]; rfl) hown htokens hopen (by simp) rfl rfl rfl rfl
  | finish hpc hi =>
    exact hs.of_turn (by rw [hpc]; rfl) hown htokens hopen (by simp) rfl rfl rfl rfl
  | breaks hpc =>
    refine hs.of_stop hown htokens hopen ?_ (fun i hi => by cases hi) rfl
    rcases hpc with hpc | hpc <;> rw [hpc] <;> rfl
  | pollDies hpc =>
    refine hs.of_stop hown htokens hopen ?_ (fun i hi => by cases hi) rfl
    rcases hpc with hpc | hpc <;> rw [hpc] <;> rfl
  | sendDies hpc hfull =>
    exact hs.of_stop hown htokens hopen (by rw [hpc]; rfl) (fun i hi => by cases hi) rfl
  | recvDies hpc hfull =>
    exact hs.of_stop hown htokens hopen (by rw [hpc]; rfl) (fun i hi => by cases hi) rfl

/-- The HCA of the client: a read takes what its `send_buff` holds, which is
the text it is sending. -/
theorem LockStep.clientHca {s : State Client} (hs : LockStep s) {m : Hca} (hm : m.Succeeds)
    {e : Endpoint Nc Payload} (he : s.peer.conn.ep.hca s.peer.conn.sendBuff.bytes m = some e) :
    LockStep { s with peer := { s.peer with conn := { s.peer.conn with ep := e } } } := by
  obtain ⟨hown, htokens⟩ := hs.own.hca hm he
  rcases Endpoint.hca_cases hm he with
    ⟨k, w, -, -, hk, rfl⟩ | ⟨wc, q, -, hq, rfl⟩ | ⟨wc, q, -, hq, rfl⟩
  · have hbuff : Text s.peer.pc.iter s.peer.conn.sendBuff.bytes :=
      hs.composed (.inr (List.ne_nil_of_mem (List.mem_of_getElem? hk)))
    refine hs.of_client hown (Nat.le_of_eq htokens) hs.opening rfl (fun _ => hbuff)
      (mem_set_payload hs.outgoing ⟨?_, hbuff⟩) hs.echoed
    exact Nat.le_of_eq s.peer.conn.sendBuff.length_eq
  · refine hs.of_client hown (Nat.le_of_eq htokens) hs.opening rfl hs.composed hs.outgoing ?_
    simpa [Client.unreadEcho] using hs.echoed
  · refine hs.of_client hown (Nat.le_of_eq htokens) hs.opening rfl hs.composed hs.outgoing
      fun hpos => ?_
    apply hs.echoed
    simp only [Client.unreadEcho, hq, List.length_cons, Cq.add_recvs, Bool.false_eq_true,
      if_false] at hpos ⊢
    omega

theorem LockStep.clientEstablished {s : State Client} (hs : LockStep s)
    (hstage : s.stage = .quiet) :
    LockStep { s with peer := Client.established s.peer } := by
  obtain ⟨hown, htokens⟩ := hs.own.established
  by_cases hpc : s.peer.pc = .connecting
  · rcases Client.established_cases hpc with ⟨-, he⟩ | ⟨-, he⟩ <;> rw [he] at hown htokens ⊢ <;>
      exact hs.of_turn (by rw [hpc]; rfl) hown htokens (fun h => by simp [hstage] at h) (by simp)
        rfl rfl rfl rfl
  · rw [Client.established_of_ne hpc]
    exact hs

/-- The client's messages fit, so nothing fails at the server either. -/
theorem LockStep.works {s : State Client} (hs : LockStep s) {b : Move Client.Action}
    (hb : Succeeds b) : Works Client.peer s b := by
  cases b with
  | hca m => exact hb
  | toServer opcode =>
    intro p hp
    obtain ⟨-, w, q, hq⟩ := Endpoint.outgoing_eq_some hp
    exact (hs.outgoing ⟨w, some p⟩ (by simp [hq]) p rfl).1
  | _ => trivial

/-- **One step.** While nothing fails, every move of the server, of the client
and of the wire keeps the token and the texts. -/
theorem LockStep.step {s t : State Client} {b : Move Client.Action} (hs : LockStep s)
    (hb : Succeeds b) (h : Step Client.peer s b t) : LockStep t := by
  have hsound := hs.sound.step (hs.works hb) h
  cases h with
  | arm => exact hs.of_server hsound id (Nat.le_refl _) hs.arrived hs.copied hs.returning
  | event => exact hs.of_server hsound id (Nat.le_refl _) hs.arrived hs.copied hs.returning
  | firstRecv =>
    exact hs.of_server hsound (fun h => by cases h) (Nat.le_refl _) hs.arrived hs.copied
      hs.returning
  | established => exact hs.clientEstablished rfl
  | poll c p n =>
    have hu := unread_poll (p := p) hs.sound.clean n
    refine hs.of_server hsound (fun h => by cases h) (Nat.le_of_eq ?_) ?_ hs.copied hs.returning
    · rw [hu]; rfl
    · rw [hu]; exact hs.arrived
  | done =>
    exact hs.of_server hsound (fun h => by cases h) (Nat.le_refl _) hs.arrived hs.copied
      hs.returning
  | next wc wcs c p =>
    have hu := unread_dispatch wc wcs c p
    have he : (⟨dispatch wc wcs, c, p⟩ : State Client).echoes =
        (⟨.batch (wc :: wcs), c, p⟩ : State Client).echoes := by
      simp only [State.echoes, dispatch_copied]
      rfl
    refine hs.of_server hsound ?_ (Nat.le_of_eq (by rw [hu, he])) ?_ ?_ hs.returning
    · intro h
      simp only [dispatch] at h
      split at h <;> cases h
    · rw [hu]; exact hs.arrived
    · rw [he]; exact hs.copied
  | copy hcopy =>
    obtain ⟨hstr, hterm⟩ := Buffer.strcpy_spec hcopy
    have htext := hs.arrived (by simp only [State.unread, Stage.unread]; omega)
    refine hs.of_server hsound (fun h => by cases h) ?_ (fun _ => htext)
      (fun _ => ⟨hterm, hstr.trans htext.2⟩) hs.returning
    simp only [State.unread, State.echoes, Stage.unread, Stage.copied]
    omega
  | postRecv hcap =>
    exact hs.of_server hsound (fun h => by cases h) (Nat.le_refl _) hs.arrived hs.copied
      hs.returning
  | postSend hcap =>
    have htext := hs.copied (by simp only [State.echoes, Stage.copied]; omega)
    refine hs.of_server hsound (fun h => by cases h) ?_ hs.arrived (fun _ => htext) ?_
    · simp only [State.unread, State.echoes, Stage.unread, Stage.copied, List.length_append,
        List.length_singleton]
      omega
    · exact forall_mem_concat hs.returning fun p hp => by cases hp
  | hca he => exact hs.hca hb he hsound
  | toServer hoffer hready => exact hs.toServer hoffer hready hsound
  | toPeer hout hacc => exact hs.toPeer hout hacc hsound
  | @peer _ a q hq =>
    cases a with
    | exec r => exact hs.exec (Client.Exec.of_exec hq)
    | hca m =>
      simp only [Client.peer, Client.step, Option.map_eq_some_iff] at hq
      obtain ⟨nc, hnc, rfl⟩ := hq
      obtain ⟨e, he, rfl⟩ := Connection.hca_eq_some hnc
      exact hs.clientHca hb he

/-- Where everything starts: the server arms its queue and posts its first
receive, the client has posted its own and waits for the connection. -/
theorem lockStep_opened (recvId sendId : Nc) (r b : Block) (a : Client.Args) :
    LockStep ⟨.opening, .create recvId sendId r b, Client.fresh a⟩ := by
  refine ⟨⟨Endpoint.Clean.create rfl, rfl⟩, Client.own_fresh a, fun _ => rfl, Nat.le_refl _, ?_,
    fun x hx => ?_, fun h => ?_, fun h => ?_, fun x hx => ?_, fun h => ?_⟩
  · rintro (⟨i, hi⟩ | hne)
    · cases hi
    · exact absurd rfl hne
  · cases hx
  · cases h
  · cases h
  · cases hx
  · cases h

/-! ## What follows -/

/-- A client that has taken an echo from its queue reads the text it sent. -/
theorem LockStep.received {s : State Client} (hs : LockStep s) {i : Nat}
    (hpc : s.peer.pc = .received i) : Text i s.peer.conn.recvBuff.bytes := by
  have := hs.echoed (by simp only [Client.unreadEcho, hpc, Client.Pc.unread]; omega)
  rwa [hpc] at this

/-- While a message of the client is on its way the server has its receive
posted and nothing left to read. -/
theorem LockStep.server_ready {s : State Client} (hs : LockStep s)
    (hsq : s.peer.conn.ep.sq ≠ []) : s.conn.ep.rq.length = 1 ∧ s.unread = 0 := by
  have hpos := List.length_pos_iff.mpr hsq
  have htok := hs.token
  have hr := hs.sound.receives
  have hne : s.stage ≠ .opening := fun h => by
    simp only [Client.tokens, hs.opening h, Client.Pc.holds] at htok
    omega
  simp only [Client.tokens, State.echoes, State.unread] at htok ⊢
  have hst : s.stage.unposted = 0 := by
    cases hstage : s.stage <;>
      simp_all [Stage.unposted, Stage.unread, Stage.copied] <;> omega
  simp only [State.receives, hst] at hr
  omega

/-- While an echo is on its way the client has its receive posted and nothing
left to read. -/
theorem LockStep.client_ready {s : State Client} (hs : LockStep s) (hsq : s.conn.ep.sq ≠ []) :
    s.peer.conn.ep.rq.length = 1 ∧ s.peer.unreadEcho = 0 := by
  have hpos := List.length_pos_iff.mpr hsq
  have htok := hs.token
  have hr := hs.own.receives
  simp only [Client.tokens, State.echoes] at htok
  have hpc : s.peer.pc.unposted = 0 ∧ s.peer.pc.unread = 0 := by
    have : s.peer.pc.holds = 0 := by omega
    cases hp : s.peer.pc <;> simp_all [Client.Pc.holds, Client.Pc.unposted, Client.Pc.unread]
  simp only [Client.unreadEcho]
  omega

end Echo

end RdmaTutorial
