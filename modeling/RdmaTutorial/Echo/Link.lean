import RdmaTutorial.Peer

/-!
# One connection of an echo server, on its own

What the echo servers of the repository have in common, seen from one
connection: completions are polled in batches and handled one by one, and a
receive is handled by copying `recv_buff` to `send_buff`, posting the receive
again, and posting the send. The thread that does it, what else that thread
does, and when it polls are left open, so the event-driven server of rdmacm05
(for each of its connections) and the polling servers of rdmacm03 and rdmacm04
are refinements of this machine. The other end is any `Peer`.
-/

namespace RdmaTutorial.Echo

open Verbs

/-- How far the server is with the connection. The list is what it has polled
and not yet looked at. -/
inductive Stage where
  /-- Before the first receive is posted. -/
  | opening
  /-- Nothing polled is left to handle. -/
  | quiet
  | batch (wcs : List (Wc Nc))
  | copy (wcs : List (Wc Nc))
  | postRecv (wcs : List (Wc Nc))
  | postSend (wcs : List (Wc Nc))
  deriving DecidableEq, Repr

/-- The connection at the server with the peer at its other end. -/
structure State (σ : Type) where
  stage : Stage
  conn : Connection
  peer : σ

inductive Move (α : Type) where
  | arm
  | event
  | firstRecv
  | established
  | poll (n : Nat)
  | next
  | copy
  | postRecv
  | postSend
  | hca (m : Hca)
  | toServer (opcode : WcOpcode)
  | toPeer
  | peer (a : α)
  deriving DecidableEq

variable {ρ σ α : Type} {P : Peer ρ σ α}

/-- The stage a completion with this opcode leads to. -/
def dispatch (wc : Wc Nc) (wcs : List (Wc Nc)) : Stage :=
  if wc.opcode = .recv then .copy wcs else .batch wcs

def step (P : Peer ρ σ α) (s : State σ) : Move α → Option (State σ)
  | .arm => some { s with conn := s.conn.reqNotify }
  | .event =>
    s.conn.ep.cq.getEvent.map fun q =>
      { s with conn := { s.conn with ep := { s.conn.ep with cq := q } } }
  | .firstRecv =>
    match s.stage with
    | .opening => s.conn.postRecv.map fun nc => { s with stage := .quiet, conn := nc }
    | _ => none
  | .established =>
    match s.stage with
    | .quiet => some { s with peer := P.established s.peer }
    | _ => none
  | .poll n =>
    match s.stage with
    | .quiet => some { s with stage := .batch (s.conn.ep.cq.taken n), conn := s.conn.poll n }
    | _ => none
  | .next =>
    match s.stage with
    | .batch [] => some { s with stage := .quiet }
    | .batch (wc :: wcs) => some { s with stage := dispatch wc wcs }
    | _ => none
  | .copy =>
    match s.stage with
    | .copy wcs => s.conn.echo.map fun nc => { s with stage := .postRecv wcs, conn := nc }
    | _ => none
  | .postRecv =>
    match s.stage with
    | .postRecv wcs => s.conn.postRecv.map fun nc => { s with stage := .postSend wcs, conn := nc }
    | _ => none
  | .postSend =>
    match s.stage with
    | .postSend wcs => s.conn.postSend.map fun nc => { s with stage := .batch wcs, conn := nc }
    | _ => none
  | .hca m => (s.conn.hca m).map fun nc => { s with conn := nc }
  | .toServer opcode =>
    match P.offer s.peer with
    | some p =>
      if s.conn.ep.ready then
        some { s with conn := s.conn.receive opcode p, peer := P.sent s.peer }
      else none
    | none => none
  | .toPeer =>
    match s.conn.ep.outgoing with
    | some p =>
      if P.accepts s.peer then
        some { s with conn := s.conn.delivered, peer := P.receive p s.peer }
      else none
    | none => none
  | .peer a => (P.step s.peer a).map fun q => { s with peer := q }

/-- `step`, move by move: what holds before and what is different after. -/
inductive Step (P : Peer ρ σ α) : State σ → Move α → State σ → Prop where
  | arm (s) : Step P s .arm { s with conn := s.conn.reqNotify }
  | event (s) (hev : 0 < s.conn.ep.cq.events) : Step P s .event
      { s with conn := { s.conn with ep := { s.conn.ep with
          cq := { s.conn.ep.cq with events := s.conn.ep.cq.events - 1 } } } }
  | firstRecv {c p} (hcap : c.ep.recvSlots < maxRecvWr) : Step P ⟨.opening, c, p⟩ .firstRecv
      ⟨.quiet, { c with ep := { c.ep with rq := c.ep.rq ++ [c.recvWrId] } }, p⟩
  | established (c p) : Step P ⟨.quiet, c, p⟩ .established ⟨.quiet, c, P.established p⟩
  | poll (c p n) : Step P ⟨.quiet, c, p⟩ (.poll n) ⟨.batch (c.ep.cq.taken n), c.poll n, p⟩
  | done (c p) : Step P ⟨.batch [], c, p⟩ .next ⟨.quiet, c, p⟩
  | next (wc wcs c p) : Step P ⟨.batch (wc :: wcs), c, p⟩ .next ⟨dispatch wc wcs, c, p⟩
  | copy {wcs c p b} (hcopy : CString.Buffer.strcpy c.sendBuff c.recvBuff = some b) :
      Step P ⟨.copy wcs, c, p⟩ .copy ⟨.postRecv wcs, { c with sendBuff := b }, p⟩
  | postRecv {wcs c p} (hcap : c.ep.recvSlots < maxRecvWr) : Step P ⟨.postRecv wcs, c, p⟩ .postRecv
      ⟨.postSend wcs, { c with ep := { c.ep with rq := c.ep.rq ++ [c.recvWrId] } }, p⟩
  | postSend {wcs c p} (hcap : c.ep.sendSlots < maxSendWr) : Step P ⟨.postSend wcs, c, p⟩ .postSend
      ⟨.batch wcs, { c with ep := { c.ep with sq := c.ep.sq ++ [⟨c.sendWrId, none⟩] } }, p⟩
  | hca {s m e} (he : s.conn.ep.hca s.conn.sendBuff.bytes m = some e) :
      Step P s (.hca m) { s with conn := { s.conn with ep := e } }
  | toServer {s opcode m} (hoffer : P.offer s.peer = some m) (hready : s.conn.ep.ready = true) :
      Step P s (.toServer opcode)
        { s with conn := s.conn.receive opcode m, peer := P.sent s.peer }
  | toPeer {s m} (hout : s.conn.ep.outgoing = some m) (hacc : P.accepts s.peer = true) :
      Step P s .toPeer { s with conn := s.conn.delivered, peer := P.receive m s.peer }
  | peer {s a q} (hq : P.step s.peer a = some q) : Step P s (.peer a) { s with peer := q }

theorem Step.of_step {s t : State σ} {b : Move α} (h : step P s b = some t) : Step P s b t := by
  obtain ⟨stage, c, p⟩ := s
  cases b with
  | arm => cases h; exact .arm _
  | event =>
    simp only [step, Option.map_eq_some_iff] at h
    obtain ⟨q, hq, rfl⟩ := h
    obtain ⟨hpos, rfl⟩ := Cq.getEvent_eq_some hq
    exact .event _ hpos
  | firstRecv =>
    cases stage <;> simp only [step, Option.map_eq_some_iff, reduceCtorEq] at h
    obtain ⟨nc, hnc, rfl⟩ := h
    obtain ⟨hcap, rfl⟩ := Connection.postRecv_eq_some hnc
    exact .firstRecv hcap
  | established =>
    cases stage <;> simp only [step, Option.some.injEq, reduceCtorEq] at h
    subst h
    exact .established _ _
  | poll n =>
    cases stage <;> simp only [step, Option.some.injEq, reduceCtorEq] at h
    subst h
    exact .poll _ _ _
  | next =>
    cases stage with
    | batch wcs =>
      cases wcs with
      | nil => cases h; exact .done _ _
      | cons wc wcs => cases h; exact .next _ _ _ _
    | _ => simp [step] at h
  | copy =>
    cases stage <;> simp only [step, Option.map_eq_some_iff, reduceCtorEq] at h
    obtain ⟨nc, hnc, rfl⟩ := h
    obtain ⟨b, hb, rfl⟩ := Connection.echo_eq_some hnc
    exact .copy hb
  | postRecv =>
    cases stage <;> simp only [step, Option.map_eq_some_iff, reduceCtorEq] at h
    obtain ⟨nc, hnc, rfl⟩ := h
    obtain ⟨hcap, rfl⟩ := Connection.postRecv_eq_some hnc
    exact .postRecv hcap
  | postSend =>
    cases stage <;> simp only [step, Option.map_eq_some_iff, reduceCtorEq] at h
    obtain ⟨nc, hnc, rfl⟩ := h
    obtain ⟨hcap, rfl⟩ := Connection.postSend_eq_some hnc
    exact .postSend hcap
  | hca m =>
    simp only [step, Option.map_eq_some_iff] at h
    obtain ⟨nc, hnc, rfl⟩ := h
    obtain ⟨e, he, rfl⟩ := Connection.hca_eq_some hnc
    exact .hca he
  | toServer opcode =>
    simp only [step] at h
    split at h
    · rename_i m hm
      split at h
      · rename_i hr
        cases h
        exact .toServer hm hr
      · cases h
    · cases h
  | toPeer =>
    simp only [step] at h
    split at h
    · rename_i m hm
      split at h
      · rename_i hr
        cases h
        exact .toPeer hm hr
      · cases h
    · cases h
  | peer a =>
    simp only [step, Option.map_eq_some_iff] at h
    obtain ⟨q, hq, rfl⟩ := h
    exact .peer hq

end RdmaTutorial.Echo
