import RdmaTutorial.Example03.Exchange

/-!
# example03: the first message and the server's QP

The client needs the server's record, and the server sends that before it has
read anything. Nothing later makes the client wait for the server.
-/

namespace RdmaTutorial.Example03

open Function

/-- The QP receives what arrives. -/
def QpState.receives : QpState → Bool
  | .rtr => true
  | .rts => true
  | _ => false

/-- When the client posts a send, the server's QP has reached RTR. -/
def PeerReady (s : State) (a : Action) : Prop :=
  a = .stmt .client .ok → (program .client)[(s.party .client).pc]? = some .postSend →
    (s.party .server).qp.receives

instance (s : State) (a : Action) : Decidable (PeerReady s a) :=
  inferInstanceAs (Decidable (_ → _))

/-- Whether it is a statement of the client. -/
def Action.ofClient : Action → Bool
  | .stmt .client _ => true
  | _ => false

/-- The server has got through `k` statements and the client has taken `c` when
these steps are taken; in front of the client's eighth statement, the server has
got through four. -/
def ServerFirst : Nat → Nat → List Action → Prop
  | _, _, [] => True
  | k, c, a :: as =>
    (a = .stmt .client .ok → c = 7 → 4 ≤ k) ∧
      ServerFirst (k + if a = .stmt .server .ok then 1 else 0) (c + a.ofClient.toNat) as

instance ServerFirst.decidable : ∀ k c as, Decidable (ServerFirst k c as)
  | _, _, [] => .isTrue trivial
  | k, c, a :: as =>
    have := ServerFirst.decidable (k + if a = .stmt .server .ok then 1 else 0)
      (c + a.ofClient.toNat) as
    inferInstanceAs (Decidable (_ ∧ _))

/-- What the numbers of statements say about where the two are. The server may
have died in its `read`, at the end of the file, and `close` may have failed. -/
structure Counted (s : State) (k c : Nat) : Prop where
  client : (s.party .client).died = none → (s.party .client).pc = c
  least : min (s.party .server).pc 5 ≤ k
  most : k ≤ (s.party .server).pc ∨
    (s.party .server).died ≠ none ∧ (s.party .server).pc ≤ 1 ∧ k ≤ (s.party .server).pc + 1
  ready : (s.party .server).qp.receives ↔ 4 ≤ (s.party .server).pc

theorem Counted.ready_iff {s : State} {k c : Nat} (h : Counted s k c) :
    (s.party .server).qp.receives ↔ 4 ≤ k := by
  have hleast := h.least
  have hmost := h.most
  rw [h.ready]
  omega

theorem Counted.initial : Counted .initial 0 0 := by
  constructor <;> simp [State.initial, QpState.receives]

/-- A statement of the server that leaves the QP alone, or that changes it in its
turn. -/
theorem receives_of_becomes {s : State} {st : Stmt} {p : Party} (hat : At s .server st)
    (hp : Becomes (s.party .server) st p)
    (h : (s.party .server).qp.receives ↔ 4 ≤ (s.party .server).pc) :
    p.qp.receives ↔ 4 ≤ (s.party .server).pc + 1 := by
  have hpc := hat.idxOf
  cases hp <;> simp [program] at hpc <;>
    simp_all [QpState.receives] <;> omega

theorem Counted.server {s : State} {k c : Nat} (h : Counted s k c) {p : Party} {r : Result}
    (halive : (s.party .server).died = none) (hr : r = .ok ∨ (s.party .server).pc = 5)
    (hready : p.qp.receives ↔ 4 ≤ (s.party .server).pc + 1) :
    Counted (s.advance .server p) (k + if r = .ok then 1 else 0) c where
  client hc := by simpa using h.client (by simpa using hc)
  least := by
    have hleast := h.least
    rcases hr with rfl | hpc
    · simp only [State.advance_pc, if_true]
      omega
    · simp only [State.advance_pc, if_true]
      omega
  most := by
    have hmost := h.most.resolve_right fun hd => hd.1 halive
    refine .inl ?_
    simp only [State.advance_pc, if_true]
    split <;> omega
  ready := by simpa using hready

theorem Counted.setStream {s : State} {k c : Nat} (h : Counted s k c) (x : Side) (b : Stream) :
    Counted (s.setStream x b) k c := ⟨h.client, h.least, h.most, h.ready⟩

theorem Counted.clientAdvances {s : State} {k c : Nat} (h : Counted s k c) {p : Party}
    (halive : (s.party .client).died = none) : Counted (s.advance .client p) k (c + 1) where
  client _ := by simpa using h.client halive
  least := by simpa using h.least
  most := by simpa using h.most
  ready := by simpa using h.ready

theorem Counted.serverDies {s : State} {k c : Nat} (h : Counted s k c) (reason : String)
    {r : Result} (halive : (s.party .server).died = none)
    (hr : r = .ok → (s.party .server).pc = 1) :
    Counted (s.die .server reason) (k + if r = .ok then 1 else 0) c where
  client hc := by simpa using h.client (by simpa [State.die_died] using hc)
  least := by
    have hleast := h.least
    simp only [State.die_pc]
    omega
  most := by
    have hmost := h.most.resolve_right fun hd => hd.1 halive
    cases r with
    | fail => exact .inl (by simpa using hmost)
    | ok =>
      have hpc := hr rfl
      refine .inr ⟨by simp [State.die_died], ?_, ?_⟩ <;> simp only [State.die_pc, if_true] <;> omega
  ready := by simpa using h.ready

theorem Counted.clientDies {s : State} {k c : Nat} (h : Counted s k c) (reason : String) :
    Counted (s.die .client reason) k (c + 1) where
  client hc := by simp [State.die_died] at hc
  least := by simpa using h.least
  most := by simpa [State.die_died] using h.most
  ready := by simpa using h.ready

theorem Counted.step {host : Side → Host} {s t : State} {a : Action} {k c : Nat}
    (h : Counted s k c) (hs : Example03.step host s a = some t) :
    Counted t (k + if a = .stmt .server .ok then 1 else 0) (c + a.ofClient.toNat) := by
  cases Step.of_step hs with
  | @becomes x r st p hat hr hp =>
    cases x with
    | server =>
      have hclose : r = .ok ∨ (s.party .server).pc = 5 :=
        hr.imp_right fun hst => by rw [← hat.idxOf, hst]; rfl
      simpa [Action.ofClient] using
        h.server hat.alive hclose (receives_of_becomes hat hp h.ready)
    | client => simpa [Action.ofClient] using h.clientAdvances hat.alive (p := p)
  | @writeInfo x hat =>
    cases x with
    | server =>
      have hpc : (s.party .server).pc = 0 := hat.idxOf.symm
      have hready := h.ready
      have hadv := h.server (r := .ok) hat.alive (.inl rfl)
        (p := s.party .server) (by rw [hready]; omega)
      simpa [Action.ofClient] using hadv.setStream _ _
    | client =>
      have hadv := h.clientAdvances hat.alive (p := s.party .client)
      simpa [Action.ofClient] using hadv.setStream _ _
  | @readInfo x hat m hm =>
    cases x with
    | server =>
      have hpc : (s.party .server).pc = 1 := hat.idxOf.symm
      have hready := h.ready
      have hadv := h.server (r := .ok) hat.alive (.inl rfl) (p := { s.party .server with
        remoteInfo := some ((host .server).remoteInfo (.ofMemory (host .server).endian m)) })
        (by dsimp only; rw [hready]; omega)
      simpa [Action.ofClient] using hadv.setStream _ _
    | client =>
      have hadv := h.clientAdvances hat.alive (p := { s.party .client with
        remoteInfo := some ((host .client).remoteInfo (.ofMemory (host .client).endian m)) })
      simpa [Action.ofClient] using hadv.setStream _ _
  | @dies x r reason halive hr =>
    cases x with
    | server => simpa [Action.ofClient] using h.serverDies reason halive fun hok =>
        (hr hok).idxOf.symm
    | client => simpa [Action.ofClient] using h.clientDies reason
  | deliver hpos hn => simpa [Action.ofClient] using h.setStream _ _

/-- A step that is taken finds the server ready if the numbers say so. -/
theorem Counted.peerReady_iff {host : Side → Host} {s t : State} {a : Action} {k c : Nat}
    (h : Counted s k c) (hs : Example03.step host s a = some t) :
    PeerReady s a ↔ (a = .stmt .client .ok → c = 7 → 4 ≤ k) := by
  unfold PeerReady
  rw [h.ready_iff]
  apply imp_congr_right
  intro ha
  subst ha
  have halive : (s.party .client).died = none := by
    by_contra hd
    simp [Example03.step, hd] at hs
  have hnext : (program .client)[c]? = some .postSend ↔ c = 7 := by
    constructor
    · intro hc
      have hlt := (List.getElem?_eq_some_iff.mp hc).1
      rcases c with _ | _ | _ | _ | _ | _ | _ | _ | c <;> simp [program] at hc hlt ⊢
    · rintro rfl
      rfl
  rw [h.client halive, hnext]

theorem Counted.meets_iff {host : Side → Host} {s t : State} {as : List Action} {k c : Nat}
    (h : Counted s k c) (hr : Run.run (Example03.step host) s as = some t) :
    Run.Meets (Example03.step host) PeerReady s as ↔ ServerFirst k c as := by
  induction as generalizing s k c with
  | nil => exact ⟨fun _ => trivial, fun _ => trivial⟩
  | cons a as ih =>
    obtain ⟨u, hu, hr⟩ := Run.run_cons hr
    refine and_congr (h.peerReady_iff hu) ?_
    rw [← ih (h.step hu) hr]
    exact ⟨fun hm => hm u hu, fun hm v hv => Option.some.inj (hu.symm.trans hv) ▸ hm⟩

/-- The server's QP is ready for the client's first message if and only if the
server has been quicker than the client. -/
theorem peer_ready_iff {host : Side → Host} {as : List Action} {s : State}
    (h : Run.run (step host) .initial as = some s) :
    Run.Meets (step host) PeerReady .initial as ↔ ServerFirst 0 0 as :=
  Counted.initial.meets_iff h

theorem peer_ready_exchange : ∃ s,
    Run.run (step hosts) .initial (exchange ++ .replicate 2 (.stmt .client .ok)) = some s ∧
    s.Did .client .postSend ∧
    Run.Meets (step hosts) PeerReady .initial (exchange ++ .replicate 2 (.stmt .client .ok)) := by
  have hrun : (Run.run (step hosts) .initial
      (exchange ++ .replicate 2 (.stmt .client .ok))).map (fun s => (s.party .client).pc) =
        some 8 := by decide +kernel
  obtain ⟨s, hs, hpc⟩ := Option.map_eq_some_iff.mp hrun
  refine ⟨s, hs, ?_, (peer_ready_iff hs).mpr (by decide +kernel)⟩
  simp only [State.Did, hpc]
  decide

/-- The server has written its record, and is not scheduled again. -/
def serverSlow : List Action :=
  [.stmt .server .ok, .deliver .client 22] ++ .replicate 8 (.stmt .client .ok)

/-- The client has posted its first send; the server's QP is in RESET. -/
theorem sent_to_unready : ∃ s, Run.run (step hosts) .initial serverSlow = some s ∧
    s.Did .client .postSend ∧ (s.party .server).qp = .reset ∧
    ¬Run.Meets (step hosts) PeerReady .initial serverSlow := by
  have hrun : (Run.run (step hosts) .initial serverSlow).map
      (fun s => ((s.party .client).pc, (s.party .server).qp)) = some (8, .reset) := by
    decide +kernel
  obtain ⟨s, hs, heq⟩ := Option.map_eq_some_iff.mp hrun
  obtain ⟨hpc, hqp⟩ := Prod.mk.inj heq
  refine ⟨s, hs, ?_, hqp, by decide +kernel⟩
  simp only [State.Did, hpc]
  decide

end RdmaTutorial.Example03
