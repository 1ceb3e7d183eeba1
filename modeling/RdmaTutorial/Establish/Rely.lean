import RdmaTutorial.Establish.Network

/-!
# What the network keeps, and what each process can rely on

The two ends of a connection and the messages between them fit together
(`Conn.Ok`), an event tells the truth about the connection it is about
(`Net.Valid`), and no process changes what another one holds (`Net.Rely`).
-/

namespace RdmaTutorial.Establish

open Function Objects

/-! ## The two ends -/

namespace Active

/-- The address is resolved. -/
def hasAddr : Active → Bool
  | idle => false
  | resolvingAddr => false
  | addrFailed => false
  | _ => true

def hasRoute : Active → Bool
  | routed => true
  | connecting => true
  | connectFailed => true
  | connected => true
  | closed => true
  | _ => false

/-- The REQ has been sent. -/
def asked : Active → Bool
  | connecting => true
  | connectFailed => true
  | connected => true
  | closed => true
  | _ => false

/-- The REP has come. -/
def up : Active → Bool
  | connected => true
  | closed => true
  | _ => false

def failed : Active → Bool
  | addrFailed => true
  | routeFailed => true
  | connectFailed => true
  | _ => false

/-- Where the network takes a client's end that the client leaves alone. -/
def targets : Active → List Active
  | resolvingAddr => [resolvingAddr, bound, addrFailed]
  | resolvingRoute => [resolvingRoute, routed, routeFailed]
  | connecting => [connecting, connected, closed, connectFailed]
  | connected => [connected, closed]
  | a => [a]

def Drifts (a b : Active) : Prop := b ∈ a.targets

theorem Drifts.refl (a : Active) : a.Drifts a := by cases a <;> simp [Drifts, targets]

theorem Drifts.trans {a b c : Active} (h : a.Drifts b) (h' : b.Drifts c) : a.Drifts c := by
  have hsub : b.targets ⊆ a.targets := by
    cases a <;> cases b <;> simp_all [Drifts, targets]
  exact hsub h'

/-- The event that the end waits for. -/
def awaits : Active → Option CmEventType
  | resolvingAddr => some addrResolved
  | resolvingRoute => some routeResolved
  | connecting => some .established
  | _ => none

/-- And where that event leaves it. -/
def reached : Active → Active
  | resolvingAddr => bound
  | resolvingRoute => routed
  | connecting => connected
  | a => a

end Active

/-- The REP has been sent. -/
def Passive.answered : Passive → Bool
  | accepted => true
  | established => true
  | closed => true
  | _ => false

/-- The two ends and the messages on the wire fit together. -/
structure Conn.Ok (x : Conn) : Prop where
  req : x.req = true → x.passive = .none ∧ x.active.asked = true
  asked : x.passive ≠ .none → x.active.asked = true
  rep : x.rep = true → x.passive.answered = true ∧ x.active.up = false
  rtu : x.rtu = true → x.active.up = true
  up : x.active.up = true → x.passive.answered = true
  established : x.passive = .established → x.active.up = true
  connecting : x.active = .connecting →
    (x.passive = .none ∧ x.req = true) ∨ x.passive = .requested ∨ x.rep = true
  accepted : x.passive = .accepted → x.rep = true ∨ x.rtu = true

/-- What a call of the client makes of its connection. -/
inductive Conn.ClientCall (x : Conn) : Conn → Prop
  | same : ClientCall x x
  | resolveAddr (h : x.active = .idle) (id : Id) :
    ClientCall x { x with active := .resolvingAddr, cid := id }
  | resolveRoute (h : x.active = .bound) : ClientCall x { x with active := .resolvingRoute }
  | connect (h : x.active = .routed) : ClientCall x { x with active := .connecting, req := true }
  | hangUp (h : x.active = .connected) :
    ClientCall x { x with active := .closed, dreqToServer := true }

inductive Conn.ServerCall (x : Conn) : Conn → Prop
  | same : ServerCall x x
  | accept (h : x.passive = .requested) :
    ServerCall x { x with passive := .accepted, rep := true }
  | hangUp (h : x.passive = .accepted ∨ x.passive = .established) :
    ServerCall x { x with passive := .closed, dreqToClient := true }

theorem Conn.ClientCall.of_hangUp (x : Conn) : x.ClientCall x.hangUpActive := by
  unfold Conn.hangUpActive
  split
  · rename_i h
    exact .hangUp h
  · exact .same

theorem Conn.answered_hangUp (x : Conn) :
    x.hangUpPassive.passive.answered = x.passive.answered := by
  unfold Conn.hangUpPassive
  split
  · rename_i h
    rcases h with h | h <;> simp [h, Passive.answered]
  · rfl

theorem Conn.ServerCall.of_hangUp (x : Conn) : x.ServerCall x.hangUpPassive := by
  unfold Conn.hangUpPassive
  split
  · rename_i h
    exact .hangUp h
  · exact .same

theorem Conn.ClientCall.of_clientCall {x y : Conn} {c : Call} {r : c.Answer}
    (h : x.clientCall c r = some y) : x.ClientCall y := by
  unfold Conn.clientCall at h
  split at h
  · split at h
    · rename_i hx
      cases h
      exact .resolveAddr hx _
    · cases h
  · split at h
    · rename_i hx
      cases h
      exact .resolveRoute hx
    · cases h
  · split at h
    · rename_i hx
      cases h
      exact .connect hx
    · cases h
  · cases h
    exact .of_hangUp x
  · cases h
    exact .of_hangUp x
  · cases h
    exact .same

theorem Conn.ServerCall.of_serverCall {x y : Conn} {c : Call} {r : c.Answer}
    (h : x.serverCall c r = some y) : x.ServerCall y := by
  unfold Conn.serverCall at h
  split at h
  · split at h
    · rename_i hx
      cases h
      exact .accept hx
    · cases h
  · cases h
    exact .of_hangUp x
  · cases h
    exact .of_hangUp x
  · cases h
    exact .same

/-- What the network makes of it. -/
inductive Conn.Wired (x : Conn) : Wire → Conn → Prop
  | addr (h : x.active = .resolvingAddr) (ok : Bool) :
    Wired x (.addr ok) { x with active := if ok then .bound else .addrFailed }
  | route (h : x.active = .resolvingRoute) (ok : Bool) :
    Wired x (.route ok) { x with active := if ok then .routed else .routeFailed }
  | request (h : x.req = true) (hnone : x.passive = .none) (a : Id) :
    Wired x (.request a) { x with passive := .requested, sid := a, req := false }
  | reply (h : x.rep = true) (hactive : x.active = .connecting) :
    Wired x .reply { x with active := .connected, rep := false, rtu := true }
  | confirm (h : x.rtu = true) (hpassive : x.passive = .accepted) :
    Wired x .confirm { x with passive := .established, rtu := false }
  | refuse (h : x.active = .connecting) (k : Failure) :
    Wired x (.refuse k) { x with active := .connectFailed }
  | abort (h : x.passive = .accepted) (k : Failure) :
    Wired x (.abort k) { x with passive := .closed }
  | hangUpServer (h : x.dreqToServer = true)
    (hpassive : x.passive = .accepted ∨ x.passive = .established) :
    Wired x .hangUpServer { x with passive := .closed, dreqToServer := false }
  | hangUpClient (h : x.dreqToClient = true) (hactive : x.active = .connected) :
    Wired x .hangUpClient { x with active := .closed, dreqToClient := false }

theorem Conn.Wired.of_wire {x y : Conn} {w : Wire} (h : x.wire w = some y) : x.Wired w y := by
  unfold Conn.wire at h
  cases w with
  | addr ok | route ok | refuse k | abort k =>
    simp only at h
    split at h
    · rename_i hx
      cases h
      constructor
      exact hx
    · cases h
  | request a | reply | confirm | hangUpServer | hangUpClient =>
    simp only at h
    split at h
    · rename_i hx
      cases h
      constructor
      · exact hx.1
      · exact hx.2
    · cases h

theorem Conn.Ok.client {x y : Conn} (h : x.Ok) (hy : x.ClientCall y) : y.Ok := by
  obtain ⟨hreq, hasked, hrep, hrtu, hup, hest, hcon, hacc⟩ := h
  cases hy with
  | same => exact ⟨hreq, hasked, hrep, hrtu, hup, hest, hcon, hacc⟩
  | resolveAddr hx id | resolveRoute hx | connect hx | hangUp hx =>
    constructor <;> simp_all [Active.asked, Active.up]

theorem Conn.Ok.server {x y : Conn} (h : x.Ok) (hy : x.ServerCall y) : y.Ok := by
  obtain ⟨hreq, hasked, hrep, hrtu, hup, hest, hcon, hacc⟩ := h
  cases hy with
  | same => exact ⟨hreq, hasked, hrep, hrtu, hup, hest, hcon, hacc⟩
  | accept hx => constructor <;> simp_all [Passive.answered]
  | hangUp hx => rcases hx with hx | hx <;> constructor <;> simp_all [Passive.answered]

theorem Conn.Ok.wire {x y : Conn} (h : x.Ok) {w : Wire} (hy : x.Wired w y) : y.Ok := by
  obtain ⟨hreq, hasked, hrep, hrtu, hup, hest, hcon, hacc⟩ := h
  cases hy with
  | addr hx ok | route hx ok =>
    cases ok <;> constructor <;> simp_all [Active.asked, Active.up]
  | hangUpServer hx hpassive =>
    rcases hpassive with hp | hp <;> constructor <;> simp_all [Passive.answered]
  | request | reply | confirm | refuse | abort | hangUpClient =>
    constructor <;> simp_all [Active.asked, Active.up, Passive.answered]

/-- What no step takes back. -/
structure Conn.Goes (x y : Conn) : Prop where
  addr : x.active.hasAddr = true → y.active.hasAddr = true
  route : x.active.hasRoute = true → y.active.hasRoute = true
  up : x.active.up = true → y.active.up = true
  passive : x.passive ≠ .none → y.sid = x.sid ∧ y.passive ≠ .none

theorem Conn.Goes.refl (x : Conn) : x.Goes x := ⟨id, id, id, fun h => ⟨rfl, h⟩⟩

theorem Conn.ClientCall.goes {x y : Conn} (h : x.ClientCall y) : x.Goes y := by
  cases h with
  | same => exact .refl x
  | resolveAddr hx id | resolveRoute hx | connect hx | hangUp hx =>
    constructor <;> simp_all [Active.hasAddr, Active.hasRoute, Active.up]

theorem Conn.ServerCall.goes {x y : Conn} (h : x.ServerCall y) : x.Goes y := by
  cases h with
  | same => exact .refl x
  | accept hx | hangUp hx => constructor <;> simp

theorem Conn.Wired.goes {x y : Conn} {w : Wire} (h : x.Wired w y) : x.Goes y := by
  cases h with
  | addr hx ok | route hx ok =>
    cases ok <;> constructor <;> simp_all [Active.hasAddr, Active.hasRoute, Active.up]
  | request | reply | confirm | refuse | abort | hangUpServer | hangUpClient =>
    constructor <;> simp_all [Active.hasAddr, Active.hasRoute, Active.up]

/-- A client's end that the client leaves alone. -/
theorem Conn.Wired.drifts {x y : Conn} {w : Wire} (h : x.Wired w y) :
    x.active.Drifts y.active := by
  cases h with
  | addr hx ok | route hx ok => cases ok <;> simp [hx, Active.Drifts, Active.targets]
  | reply _ hx | refuse hx | hangUpClient _ hx => simp [hx, Active.Drifts, Active.targets]
  | request | confirm | abort | hangUpServer => exact .refl _

/-- Only the server answers a request. -/
theorem Conn.Wired.answered {x y : Conn} {w : Wire} (h : x.Wired w y) :
    y.passive.answered = x.passive.answered := by
  cases h with
  | request _ hx | confirm _ hx | abort hx => rw [hx]; rfl
  | hangUpServer _ hx => rcases hx with hx | hx <;> rw [hx] <;> rfl
  | addr | route | reply | refuse | hangUpClient => rfl

/-! ## What the network keeps -/

/-- What an event that a client has not fetched says about its end. -/
def Active.Told (a : Active) : CmEventType → Prop
  | addrResolved => a.hasAddr = true
  | routeResolved => a.hasRoute = true
  | .established => a.up = true
  | _ => True

/-- What an event that the server has not fetched says about the id it names. -/
def Net.Heard (s : Net) (id : Id) : CmEventType → Prop
  | .connectRequest => ∃ n, s.peers id = some n
  | .established => ∃ n, s.peers id = some n ∧ (s.conns n).active.up = true
  | _ => True

structure Net.Valid (m : Mode) (s : Net) : Prop where
  ok : ∀ n, (s.conns n).Ok
  peers : ∀ id n, s.peers id = some n ↔ (s.conns n).sid = id ∧ (s.conns n).passive ≠ .none
  told : ∀ n, ∀ e ∈ (s.clients n).queue, (s.conns n).active.Told e.1
  heard : ∀ e ∈ s.server.queue, s.Heard e.2 e.1
  fine : ∀ k ∈ m, (s.conns k).active.failed = false
  alone : ∀ k ∈ m, ∀ n, n ≠ k → (s.conns n).passive = .none
  /-- The server has answered one request at most. -/
  one : ∀ n k, (s.conns n).passive.answered = true → (s.conns k).passive.answered = true → n = k

namespace Net

variable {s t : Net}

@[simp] theorem setProc_self (s : Net) (p : Party) (l : Local) : (s.setProc p l).proc p = l := by
  cases p <;> simp [setProc, proc]

theorem setProc_ne (s : Net) {p q : Party} (h : q ≠ p) (l : Local) :
    (s.setProc p l).proc q = s.proc q := by
  cases p <;> cases q <;> simp_all [setProc, proc]

@[simp] theorem setProc_conns (s : Net) (p : Party) (l : Local) :
    (s.setProc p l).conns = s.conns := by cases p <;> rfl

@[simp] theorem setProc_peers (s : Net) (p : Party) (l : Local) :
    (s.setProc p l).peers = s.peers := by cases p <;> rfl

@[simp] theorem setProc_listening (s : Net) (p : Party) (l : Local) :
    (s.setProc p l).listening = s.listening := by cases p <;> rfl

/-- What a call of `p` changes. -/
structure Effect (heap : Option Nat → Bool) (m : Mode) (p : Party) (s : Net) (c : Call)
    (r : c.Answer) (t : Net) : Prop where
  admits : m.Admits p c r
  live : liveAfter heap (s.proc p).live c r = some (t.proc p).live
  queue : queueAfter (s.proc p).queue c r = some (t.proc p).queue
  conns : s.connAfter p c r = some t.conns
  peers : t.peers = s.peers
  others : ∀ q, q ≠ p → t.proc q = s.proc q
  listening : t.listening = if p = .server then listeningAfter s.listening c r else s.listening

theorem Effect.of_effect {heap : Option Nat → Bool} {m : Mode} {p : Party} {c : Call}
    {r : c.Answer} (h : effect heap m p s c r = some t) : Effect heap m p s c r t := by
  unfold effect at h
  split at h
  · rename_i hm
    simp only [Option.bind_eq_bind, Option.bind_eq_some_iff] at h
    obtain ⟨objs, hobjs, queue, hqueue, conns, hconns, h⟩ := h
    cases h
    refine ⟨hm, ?_, ?_, hconns, ?_, ?_, rfl⟩
    · rw [hobjs]
      cases p <;> simp [setProc, proc]
    · rw [hqueue]
      cases p <;> simp [setProc, proc]
    · cases p <;> rfl
    · intro q hq
      cases p <;> cases q <;> simp_all [setProc, proc]
  · cases h

/-- What an event changes. -/
structure Reports (s : Net) (p : Party) (e : CmEventType × Id) (t : Net) : Prop where
  queue : (t.proc p).queue = (s.proc p).queue ++ [e]
  others : ∀ q, q ≠ p → t.proc q = s.proc q
  live : ∀ q, (t.proc q).live = (s.proc q).live
  listening : t.listening = s.listening

theorem reports_report (s : Net) (p : Party) (event : CmEventType) (id : Id) :
    s.Reports p (event, id) (s.report p event id) := by
  refine ⟨by simp [report], fun q hq => setProc_ne s hq _, fun q => ?_, by simp [report]⟩
  by_cases hq : q = p
  · subst hq
    simp [report]
  · rw [report, setProc_ne s hq]

/-- What happens by itself. -/
inductive Happens (m : Mode) (s t : Net) : Prop
  | wire (n : Nat) (w : Wire) (hs : s.Admitted w) (hm : m.AdmitsWire n (s.conns n) w)
    (hx : (s.conns n).Wired w (t.conns n)) (hconns : ∀ k, k ≠ n → t.conns k = s.conns k)
    (hpeers : t.peers = s.peersAfter n w)
    (hreports : s.Reports (w.to n) (w.event, w.names (t.conns n)) t)
  | other (p : Party) (code : Nat) (id : Id) (hm : m = none)
    (hcode : .other code ≠ addrResolved ∧ .other code ≠ routeResolved)
    (hconns : t.conns = s.conns) (hpeers : t.peers = s.peers)
    (hreports : s.Reports p (.other code, id) t)

theorem Happens.of_happen {m : Mode} {x : Happening} (h : happen m s x = some t) :
    Happens m s t := by
  cases x with
  | wire n w =>
    simp only [happen] at h
    split at h
    · rename_i hw
      obtain ⟨x, hx, rfl⟩ := Option.map_eq_some_iff.mp h
      refine .wire n w hw.1 hw.2 ?_ ?_ ?_ ?_
      · simpa [report, setConn] using .of_wire hx
      · intro k hk
        simp [report, setConn, hk]
      · simp [report]
      · have hreports := reports_report { s.setConn n x with peers := s.peersAfter n w } (w.to n)
          w.event (w.names x)
        have hconn : (report { s.setConn n x with peers := s.peersAfter n w } (w.to n) w.event
            (w.names x)).conns n = x := by simp [report, setConn]
        rw [hconn]
        exact ⟨hreports.queue, hreports.others, hreports.live, hreports.listening⟩
    · cases h
  | other p code id =>
    simp only [happen] at h
    split at h
    · rename_i hw
      cases h
      exact .other p code id hw.1 hw.2 (by simp [report]) (by simp [report])
        (reports_report s p (.other code) id)
    · cases h

/-- What a call makes of a connection. -/
theorem Effect.conn {heap : Option Nat → Bool} {m : Mode} {p : Party} {c : Call} {r : c.Answer}
    (h : Effect heap m p s c r t) (n : Nat) :
    (p = .client n ∧ (s.conns n).ClientCall (t.conns n)) ∨
      (p = .server ∧ (s.conns n).ServerCall (t.conns n)) ∨ t.conns n = s.conns n := by
  have hconns := h.conns
  cases p with
  | client k =>
    obtain ⟨x, hx, ht⟩ := Option.map_eq_some_iff.mp hconns
    rw [← ht]
    by_cases hn : n = k
    · subst hn
      exact .inl ⟨rfl, by simpa using .of_clientCall hx⟩
    · exact .inr (.inr (update_of_ne hn ..))
  | server =>
    simp only [connAfter] at hconns
    split at hconns
    · rw [← Option.some.inj hconns]
      exact .inr (.inr rfl)
    · rename_i k hk
      obtain ⟨x, hx, ht⟩ := Option.map_eq_some_iff.mp hconns
      rw [← ht]
      by_cases hn : n = k
      · subst hn
        exact .inr (.inl ⟨rfl, by simpa using .of_serverCall hx⟩)
      · exact .inr (.inr (update_of_ne hn ..))

theorem queueAfter_subset {queue rest : List (CmEventType × Id)} {c : Call} {r : c.Answer}
    (h : queueAfter queue c r = some rest) : rest ⊆ queue := by
  unfold queueAfter at h
  split at h
  · split at h
    · cases h
    · split at h
      · cases h
        exact List.subset_cons_self ..
      · cases h
  · cases h
    exact List.Subset.refl _

theorem Effect.queue_subset {heap : Option Nat → Bool} {m : Mode} {p : Party} {c : Call}
    {r : c.Answer} (h : Effect heap m p s c r t) (q : Party) :
    (t.proc q).queue ⊆ (s.proc q).queue := by
  by_cases hq : q = p
  · subst hq
    exact queueAfter_subset h.queue
  · rw [h.others q hq]
    exact List.Subset.refl _

theorem Effect.goes {heap : Option Nat → Bool} {m : Mode} {p : Party} {c : Call} {r : c.Answer}
    (h : Effect heap m p s c r t) (n : Nat) : (s.conns n).Goes (t.conns n) := by
  rcases h.conn n with ⟨-, hx⟩ | ⟨-, hx⟩ | hx
  · exact hx.goes
  · exact hx.goes
  · rw [hx]
    exact .refl _

end Net

theorem Active.Told.goes {x y : Conn} (h : x.Goes y) {e : CmEventType} (ht : x.active.Told e) :
    y.active.Told e := by
  unfold Active.Told at ht ⊢
  split <;> simp_all [h.addr, h.route, h.up]

theorem Net.Heard.goes {s t : Net} (hconns : ∀ n, (s.conns n).Goes (t.conns n))
    (hpeers : ∀ id n, s.peers id = some n → t.peers id = some n) {id : Id} {e : CmEventType}
    (h : s.Heard id e) : t.Heard id e := by
  unfold Net.Heard at h ⊢
  split
  · obtain ⟨n, hn⟩ := h
    exact ⟨n, hpeers id n hn⟩
  · obtain ⟨n, hn, hup⟩ := h
    exact ⟨n, hpeers id n hn, (hconns n).up hup⟩
  · trivial

theorem Conn.ClientCall.failed {x y : Conn} (h : x.ClientCall y)
    (hx : x.active.failed = false) : y.active.failed = false := by
  cases h with
  | same => exact hx
  | resolveAddr | resolveRoute | connect | hangUp => rfl

theorem Conn.ServerCall.active {x y : Conn} (h : x.ServerCall y) : y.active = x.active := by
  cases h <;> rfl

/-- A connection keeps its id of the server. -/
theorem Conn.ClientCall.passive {x y : Conn} (h : x.ClientCall y) :
    y.sid = x.sid ∧ y.passive = x.passive := by
  cases h <;> exact ⟨rfl, rfl⟩

theorem Conn.ServerCall.passive {x y : Conn} (h : x.ServerCall y) :
    y.sid = x.sid ∧ (y.passive = .none ↔ x.passive = .none) := by
  cases h with
  | same => exact ⟨rfl, Iff.rfl⟩
  | accept hx => simp [hx]
  | hangUp hx => rcases hx with hx | hx <;> simp [hx]

/-- Only `rdma_accept` answers a request, and no other than that of its id. -/
theorem Net.Effect.answered {heap : Option Nat → Bool} {m : Mode} {p : Party} {s t : Net}
    {c : Call} {r : c.Answer} (h : Net.Effect heap m p s c r t) {n : Nat}
    (hn : (t.conns n).passive.answered = true) : (s.conns n).passive.answered = true ∨
      p = .server ∧ ∃ id param, c = .accept id param ∧ s.peers id = some n := by
  have hconns := h.conns
  cases p with
  | client k =>
    have hpassive : (t.conns n).passive = (s.conns n).passive := by
      rcases h.conn n with ⟨-, hx⟩ | ⟨hc, -⟩ | hx
      · exact hx.passive.2
      · cases hc
      · rw [hx]
    exact .inl (hpassive ▸ hn)
  | server =>
    simp only [connAfter] at hconns
    split at hconns
    · rw [← Option.some.inj hconns] at hn
      exact .inl hn
    · rename_i k hk
      obtain ⟨x, hx, ht⟩ := Option.map_eq_some_iff.mp hconns
      rw [← ht] at hn
      by_cases hnk : n = k
      · subst hnk
        rw [update_self] at hn
        unfold Conn.serverCall at hx
        split at hx
        · exact .inr ⟨rfl, _, _, rfl, hk⟩
        · cases hx
          exact .inl (Conn.answered_hangUp _ ▸ hn)
        · cases hx
          exact .inl (Conn.answered_hangUp _ ▸ hn)
        · cases hx
          exact .inl hn
      · rw [update_of_ne hnk] at hn
        exact .inl hn

/-- A request is answered only where none is. -/
theorem Net.Valid.call {heap : Option Nat → Bool} {m : Mode} {p : Party} {s t : Net} {c : Call}
    {r : c.Answer} (hs : s.Valid m) (h : Net.Effect heap m p s c r t)
    (hfirst : p = .server → ∀ id param, c = .accept id param →
      ∀ n, (s.conns n).passive.answered = false) : t.Valid m := by
  refine ⟨fun n => ?_, fun id n => ?_, fun n e he => ?_, fun e he => ?_, fun k hk => ?_,
    fun k hk n hn => ?_, fun n k hn hk => ?_⟩
  · rcases h.conn n with ⟨-, hx⟩ | ⟨-, hx⟩ | hx
    · exact (hs.ok n).client hx
    · exact (hs.ok n).server hx
    · rw [hx]
      exact hs.ok n
  · rw [h.peers, hs.peers]
    rcases h.conn n with ⟨-, hx⟩ | ⟨-, hx⟩ | hx
    · rw [hx.passive.1, hx.passive.2]
    · rw [hx.passive.1, ne_eq, ne_eq, hx.passive.2]
    · rw [hx]
  · exact .goes (h.goes n) (hs.told n e (h.queue_subset (.client n) he))
  · refine .goes h.goes ?_ (hs.heard e (h.queue_subset .server he))
    intro id n hn
    rwa [h.peers]
  · rcases h.conn k with ⟨-, hx⟩ | ⟨-, hx⟩ | hx
    · exact hx.failed (hs.fine k hk)
    · rw [hx.active]
      exact hs.fine k hk
    · rw [hx]
      exact hs.fine k hk
  · have hnone := hs.alone k hk n hn
    rcases h.conn n with ⟨-, hx⟩ | ⟨-, hx⟩ | hx
    · rw [hx.passive.2, hnone]
    · rw [hx.passive.2, hnone]
    · rw [hx, hnone]
  · rcases h.answered hn with hn | ⟨hp, id, param, rfl, hn⟩ <;>
      rcases h.answered hk with hk | ⟨hp', id', param', hc, hk⟩
    · exact hs.one n k hn hk
    · exact absurd hn (by simp [hfirst hp' id' param' hc n])
    · exact absurd hk (by simp [hfirst hp id param rfl k])
    · cases hc
      exact Option.some.inj (hn.symm.trans hk)

/-- What librdmacm tells a client is so. -/
theorem Conn.Wired.told {x y : Conn} {w : Wire} (h : x.Wired w y) (hw : w.toServer = false) :
    y.active.Told w.event := by
  cases h with
  | addr hx ok | route hx ok => cases ok <;> trivial
  | reply => rfl
  | refuse hx k => cases k <;> trivial
  | hangUpClient => trivial
  | request | confirm | abort | hangUpServer => cases hw

/-- Only a request brings a new id. -/
theorem Conn.Wired.sid {x y : Conn} {w : Wire} (h : x.Wired w y) (hw : ∀ a, w ≠ .request a) :
    y.sid = x.sid ∧ (y.passive = .none ↔ x.passive = .none) := by
  cases h with
  | request _ _ a => exact absurd rfl (hw a)
  | hangUpServer _ hx => rcases hx with hx | hx <;> simp [hx]
  | confirm _ hx | abort hx => simp [hx]
  | addr | route | reply | refuse | hangUpClient => exact ⟨rfl, Iff.rfl⟩

theorem Conn.Wired.failed {x y : Conn} {w : Wire} (h : x.Wired w y)
    (hw : w.orderly x = true) (hx : x.active.failed = false) : y.active.failed = false := by
  cases h with
  | addr _ ok | route _ ok =>
    cases hw
    rfl
  | refuse | abort => cases hw
  | reply | hangUpClient => rfl
  | request | confirm | hangUpServer => exact hx

theorem Net.Reports.mem {s t : Net} {p : Party} {e : CmEventType × Id} (h : s.Reports p e t)
    {q : Party} {x : CmEventType × Id} (hx : x ∈ (t.proc q).queue) :
    x ∈ (s.proc q).queue ∨ q = p ∧ x = e := by
  by_cases hq : q = p
  · subst hq
    rw [h.queue, List.mem_append, List.mem_singleton] at hx
    exact hx.imp_right fun hx => ⟨rfl, hx⟩
  · rw [h.others q hq] at hx
    exact .inl hx

theorem told_other {a : Active} {code : Nat}
    (h : .other code ≠ addrResolved ∧ .other code ≠ routeResolved) : a.Told (.other code) := by
  unfold Active.Told
  split <;> simp_all

theorem Net.Happens.goes {m : Mode} {s t : Net} (h : Net.Happens m s t) (n : Nat) :
    (s.conns n).Goes (t.conns n) := by
  cases h with
  | wire k w _ _ hx hconns =>
    by_cases hn : n = k
    · subst hn
      exact hx.goes
    · rw [hconns n hn]
      exact .refl _
  | other _ _ _ _ _ hconns =>
    rw [hconns]
    exact .refl _

theorem Net.Happens.peers {m : Mode} {s t : Net} (h : Net.Happens m s t) {id : Id} {n : Nat}
    (hn : s.peers id = some n) : t.peers id = some n := by
  cases h with
  | wire k w hs _ _ _ hpeers =>
    rw [hpeers]
    cases w with
    | request a =>
      have hne : id ≠ a := fun he => by
        subst he
        exact absurd (hs.2.2.symm.trans hn) (by simp)
      simpa [Net.peersAfter, update_of_ne hne] using hn
    | _ => exact hn
  | other _ _ _ _ _ _ hpeers => rwa [hpeers]

theorem Wire.to_eq_client {w : Wire} {n k : Nat} (h : .client k = w.to n) :
    w.toServer = false ∧ k = n := by
  unfold Wire.to at h
  split at h
  · cases h
  · rename_i hw
    cases h
    exact ⟨by simpa using hw, rfl⟩

theorem Wire.to_eq_server {w : Wire} {n : Nat} (h : .server = w.to n) : w.toServer = true := by
  unfold Wire.to at h
  split at h
  · assumption
  · cases h

/-- An id stands for a connection once its request has come. -/
theorem Net.Valid.peers_wire {m : Mode} {s t : Net} (hs : s.Valid m) {n : Nat} {w : Wire}
    (hadm : s.Admitted w) (hx : (s.conns n).Wired w (t.conns n))
    (hconns : ∀ k, k ≠ n → t.conns k = s.conns k) (hpeers : t.peers = s.peersAfter n w)
    (id : Id) (k : Nat) :
    t.peers id = some k ↔ (t.conns k).sid = id ∧ (t.conns k).passive ≠ .none := by
  rw [hpeers]
  by_cases hw : ∃ a, w = .request a
  · obtain ⟨a, rfl⟩ := hw
    by_cases hk : k = n
    · subst hk
      obtain ⟨hnone, hsid, hrequested⟩ : (s.conns k).passive = .none ∧ (t.conns k).sid = a ∧
          (t.conns k).passive = .requested := by
        generalize t.conns k = y at hx
        cases hx with
        | request _ hnone => exact ⟨hnone, rfl, rfl⟩
      by_cases hid : id = a
      · simp [Net.peersAfter, hid, hsid, hrequested]
      · have hold := hs.peers id k
        simp [Net.peersAfter, update_of_ne hid, hold, hnone, hsid, Ne.symm hid]
    · rw [hconns k hk, ← hs.peers]
      by_cases hid : id = a
      · subst hid
        simp [Net.peersAfter, hadm.2.2, Ne.symm hk]
      · simp [Net.peersAfter, update_of_ne hid]
  · have hold : s.peersAfter n w = s.peers := by
      cases w with
      | request a => exact absurd ⟨a, rfl⟩ hw
      | _ => rfl
    rw [hold, hs.peers]
    by_cases hk : k = n
    · subst hk
      obtain ⟨hsid, hpassive⟩ := hx.sid fun a ha => hw ⟨a, ha⟩
      rw [hsid, ne_eq, ne_eq, hpassive]
    · rw [hconns k hk]

/-- What librdmacm tells the server is so. -/
theorem Conn.Wired.heard {t : Net} {n : Nat} {x : Conn} {w : Wire} (h : x.Wired w (t.conns n))
    (hw : w.toServer = true) (hok : x.Ok)
    (hid : t.peers (w.names (t.conns n)) = some n ↔
      (t.conns n).sid = w.names (t.conns n) ∧ (t.conns n).passive ≠ .none) :
    t.Heard (w.names (t.conns n)) w.event := by
  generalize hy : t.conns n = y at h hid
  cases h with
  | request => exact ⟨n, hid.mpr ⟨rfl, by simp⟩⟩
  | confirm hx =>
    refine ⟨n, hid.mpr ⟨rfl, by simp⟩, ?_⟩
    rw [hy]
    exact hok.rtu hx
  | abort hx k => cases k <;> trivial
  | hangUpServer => trivial
  | addr | route | reply | refuse | hangUpClient => cases hw

theorem Net.Valid.happens {m : Mode} {s t : Net} (hs : s.Valid m) (h : Net.Happens m s t) :
    t.Valid m := by
  have hgoes := h.goes
  have hmono : ∀ id n, s.peers id = some n → t.peers id = some n := fun _ _ hn => h.peers hn
  cases h with
  | wire n w hadm hm hx hconns hpeers hreports =>
    have hids := hs.peers_wire hadm hx hconns hpeers
    have hok := (hs.ok n).wire hx
    refine ⟨fun k => ?_, hids, fun k e he => ?_, fun e he => ?_, fun k hk => ?_,
      fun k hk j hj => ?_, fun j k hj hk => ?_⟩
    · by_cases hk : k = n
      · subst hk
        exact hok
      · rw [hconns k hk]
        exact hs.ok k
    · rcases hreports.mem (q := .client k) he with he | ⟨hto, rfl⟩
      · exact .goes (hgoes k) (hs.told k e he)
      · obtain ⟨hw, rfl⟩ := Wire.to_eq_client hto
        exact hx.told hw
    · rcases hreports.mem (q := .server) he with he | ⟨hto, rfl⟩
      · exact .goes hgoes hmono (hs.heard e he)
      · have hw := Wire.to_eq_server hto
        exact hx.heard hw (hs.ok n) (hids _ n)
    · obtain ⟨rfl, hw⟩ := hm k hk
      exact hx.failed hw (hs.fine n hk)
    · obtain ⟨rfl, -⟩ := hm k hk
      rw [hconns j hj]
      exact hs.alone n hk j hj
    · have hanswered : ∀ i, (t.conns i).passive.answered = (s.conns i).passive.answered := by
        intro i
        by_cases hi : i = n
        · subst hi
          exact hx.answered
        · rw [hconns i hi]
      rw [hanswered] at hj hk
      exact hs.one j k hj hk
  | other p code id hm hcode hconns hpeers hreports =>
    refine ⟨fun k => ?_, fun id n => ?_, fun k e he => ?_, fun e he => ?_, fun k hk => ?_,
      fun k hk => ?_, by rw [hconns]; exact hs.one⟩
    · rw [hconns]
      exact hs.ok k
    · rw [hpeers, hconns]
      exact hs.peers id n
    · rcases hreports.mem (q := .client k) he with he | ⟨-, rfl⟩
      · exact .goes (hgoes k) (hs.told k e he)
      · exact told_other hcode
    · rcases hreports.mem (q := .server) he with he | ⟨-, rfl⟩
      · exact .goes hgoes hmono (hs.heard e he)
      · trivial
    · subst hm
      cases hk
    · subst hm
      cases hk

end RdmaTutorial.Establish
