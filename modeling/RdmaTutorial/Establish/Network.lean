import Mathlib.Logic.Function.Basic
import RdmaTutorial.Establish.Objects

/-!
# The network between the server and its clients

The two ends of each connection as librdmacm reports on them, and the messages
between them: REQ, REP and RTU set a connection up, DREQ ends it. RTU and DREQ
may overtake each other. In the mode `none` anything may fail at any time; in
the mode `some n` the client `n` is the only one that takes part, every call
succeeds, and its DREQ does not overtake its RTU.
-/

namespace RdmaTutorial.Establish

open Function Objects

/-- The client's end of a connection. -/
inductive Active where
  | idle
  | resolvingAddr
  | addrFailed
  /-- Bound to a device, behind ADDR_RESOLVED. -/
  | bound
  | resolvingRoute
  | routeFailed
  | routed
  | connecting
  | connectFailed
  | connected
  | closed
  deriving DecidableEq, Repr

/-- The server's end. -/
inductive Passive where
  | none
  | requested
  | accepted
  | established
  | closed
  deriving DecidableEq, Repr

/-- The connection of one client, and what is on the wire for it. -/
structure Conn where
  /-- The client's id and the server's. -/
  cid : Id
  sid : Id
  active : Active
  passive : Passive
  req : Bool
  rep : Bool
  rtu : Bool
  dreqToServer : Bool
  dreqToClient : Bool
  deriving DecidableEq, Repr

/-- One process: what it holds, and the events it has not fetched yet. -/
structure Local where
  live : List (Object Held)
  queue : List (CmEventType × Id)

inductive Party where
  | server
  | client (n : Nat)
  deriving DecidableEq, Repr

structure Net where
  server : Local
  clients : Nat → Local
  conns : Nat → Conn
  /-- The id of the server that listens. -/
  listening : Option Id
  /-- The client whose connection an id of the server stands for. -/
  peers : Id → Option Nat

def Net.initial : Net where
  server := ⟨[], []⟩
  clients := fun _ => ⟨[], []⟩
  conns := fun _ => ⟨0, 0, .idle, .none, false, false, false, false, false⟩
  listening := none
  peers := fun _ => none

namespace Net

def proc (s : Net) : Party → Local
  | .server => s.server
  | .client n => s.clients n

def setProc (s : Net) (p : Party) (l : Local) : Net :=
  match p with
  | .server => { s with server := l }
  | .client n => { s with clients := update s.clients n l }

def setConn (s : Net) (n : Nat) (x : Conn) : Net := { s with conns := update s.conns n x }

/-- librdmacm reports an event. -/
def report (s : Net) (p : Party) (event : CmEventType) (id : Id) : Net :=
  s.setProc p { s.proc p with queue := (s.proc p).queue ++ [(event, id)] }

end Net

/-! ## What the calls do to a connection -/

/-- The client hangs up. -/
def Conn.hangUpActive (x : Conn) : Conn :=
  if x.active = .connected then { x with active := .closed, dreqToServer := true } else x

/-- The server hangs up. -/
def Conn.hangUpPassive (x : Conn) : Conn :=
  if x.passive = .accepted ∨ x.passive = .established then
    { x with passive := .closed, dreqToClient := true }
  else x

/-- A call of a client on its connection, where librdmacm takes it. -/
def Conn.clientCall (x : Conn) : (c : Call) → c.Answer → Option Conn
  | .resolveAddr id _ _, .ok =>
    if x.active = .idle then some { x with active := .resolvingAddr, cid := id } else none
  | .resolveRoute .., .ok =>
    if x.active = .bound then some { x with active := .resolvingRoute } else none
  | .connect .., .ok =>
    if x.active = .routed then some { x with active := .connecting, req := true } else none
  | .disconnect _, .ok => some x.hangUpActive
  | .destroyId _, .ok => some x.hangUpActive
  | _, _ => some x

/-- A call of the server on the connection of one of its ids. -/
def Conn.serverCall (x : Conn) : (c : Call) → c.Answer → Option Conn
  | .accept .., .ok =>
    if x.passive = .requested then some { x with passive := .accepted, rep := true } else none
  | .disconnect _, .ok => some x.hangUpPassive
  | .destroyId _, .ok => some x.hangUpPassive
  | _, _ => some x

/-- The id whose connection a call of the server is about. -/
def Call.serverId : Call → Option Id
  | .accept id _ => some id
  | .disconnect id => some id
  | .destroyId id => some id
  | _ => none

/-- The listener after a call. -/
def listeningAfter (listening : Option Id) : (c : Call) → c.Answer → Option Id
  | .listen id _, .ok => some id
  | .destroyId id, .ok => if listening = some id then none else listening
  | _, _ => listening

/-- `rdma_get_cm_event` waits for the first event that is reported. -/
def queueAfter (queue : List (CmEventType × Id)) :
    (c : Call) → c.Answer → Option (List (CmEventType × Id))
  | .getCmEvent _, some e =>
    match queue with
    | [] => none
    | first :: rest => if first = (e.event, e.id) then some rest else none
  | _, _ => some queue

/-! ## What the network does to a connection -/

/-- The ways to end an attempt to connect. -/
inductive Failure where
  | connectError
  | unreachable
  | rejected
  deriving DecidableEq, Repr

def Failure.event : Failure → CmEventType
  | connectError => .connectError
  | unreachable => .unreachable
  | rejected => .rejected

inductive Wire where
  | addr (ok : Bool)
  | route (ok : Bool)
  /-- The REQ arrives, and the new id of the server is `a`. -/
  | request (a : Id)
  /-- The REP arrives, and the client answers it with the RTU. -/
  | reply
  /-- The RTU arrives. -/
  | confirm
  | refuse (k : Failure)
  | abort (k : Failure)
  /-- A DREQ arrives. -/
  | hangUpServer
  | hangUpClient
  deriving DecidableEq, Repr

def Wire.toServer : Wire → Bool
  | request _ => true
  | confirm => true
  | abort _ => true
  | hangUpServer => true
  | _ => false

/-- Whom librdmacm reports a move to, for the connection of client `n`. -/
def Wire.to (w : Wire) (n : Nat) : Party := if w.toServer then .server else .client n

/-- And the id it names. -/
def Wire.names (w : Wire) (x : Conn) : Id := if w.toServer then x.sid else x.cid

/-- The event it reports: the errors of the resolutions are 1 and 3. -/
def Wire.event : Wire → CmEventType
  | addr ok => if ok then addrResolved else .other 1
  | route ok => if ok then routeResolved else .other 3
  | request _ => .connectRequest
  | reply => .established
  | confirm => .established
  | refuse k => k.event
  | abort k => k.event
  | hangUpServer => .disconnected
  | hangUpClient => .disconnected

def Conn.wire (x : Conn) : Wire → Option Conn
  | .addr ok =>
    if x.active = .resolvingAddr then
      some { x with active := if ok then .bound else .addrFailed }
    else none
  | .route ok =>
    if x.active = .resolvingRoute then
      some { x with active := if ok then .routed else .routeFailed }
    else none
  | .request a =>
    if x.req = true ∧ x.passive = .none then
      some { x with passive := .requested, sid := a, req := false }
    else none
  | .reply =>
    if x.rep = true ∧ x.active = .connecting then
      some { x with active := .connected, rep := false, rtu := true }
    else none
  | .confirm =>
    if x.rtu = true ∧ x.passive = .accepted then
      some { x with passive := .established, rtu := false }
    else none
  | .refuse _ =>
    if x.active = .connecting then some { x with active := .connectFailed } else none
  | .abort _ => if x.passive = .accepted then some { x with passive := .closed } else none
  | .hangUpServer =>
    if x.dreqToServer = true ∧ (x.passive = .accepted ∨ x.passive = .established) then
      some { x with passive := .closed, dreqToServer := false }
    else none
  | .hangUpClient =>
    if x.dreqToClient = true ∧ x.active = .connected then
      some { x with active := .closed, dreqToClient := false }
    else none

/-! ## The world -/

/-- All runs, or those of one client in which nothing fails. -/
abbrev Mode := Option Nat

/-- The party takes part, and its call succeeds. -/
def Mode.Admits (m : Mode) (p : Party) (c : Call) (r : c.Answer) : Prop :=
  ∀ n ∈ m, c.succeeds r = true ∧ (p = .server ∨ p = .client n)

/-- A move of the network that is no failure, and where the DREQ comes behind the
RTU. -/
def Wire.orderly (x : Conn) : Wire → Bool
  | addr ok => ok
  | route ok => ok
  | refuse _ => false
  | abort _ => false
  | hangUpServer => x.passive ≠ .accepted
  | _ => true

/-- What happens by itself: a move of the network for one client, or some other
event of a process. -/
inductive Happening where
  | wire (n : Nat) (w : Wire)
  | other (p : Party) (code : Nat) (id : Id)
  deriving DecidableEq, Repr

def Mode.AdmitsWire (m : Mode) (n : Nat) (x : Conn) (w : Wire) : Prop :=
  ∀ k ∈ m, n = k ∧ w.orderly x = true

instance (m : Mode) (p : Party) (c : Call) (r : c.Answer) : Decidable (m.Admits p c r) :=
  inferInstanceAs (Decidable (∀ n ∈ m, c.succeeds r = true ∧ (p = .server ∨ p = .client n)))

instance (m : Mode) (n : Nat) (x : Conn) (w : Wire) : Decidable (m.AdmitsWire n x w) :=
  inferInstanceAs (Decidable (∀ k ∈ m, n = k ∧ w.orderly x = true))

namespace Net

/-- A request finds a listener, and gets an id that is neither the listener's nor
one of a connection. -/
def Admitted (s : Net) : Wire → Prop
  | .request a => s.listening ≠ none ∧ s.listening ≠ some a ∧ s.peers a = none
  | _ => True

instance (s : Net) : (w : Wire) → Decidable (s.Admitted w)
  | .request a =>
    inferInstanceAs (Decidable (s.listening ≠ none ∧ s.listening ≠ some a ∧ s.peers a = none))
  | .addr _ => .isTrue trivial
  | .route _ => .isTrue trivial
  | .reply => .isTrue trivial
  | .confirm => .isTrue trivial
  | .refuse _ => .isTrue trivial
  | .abort _ => .isTrue trivial
  | .hangUpServer => .isTrue trivial
  | .hangUpClient => .isTrue trivial

/-- The connection a request gets an id for. -/
def peersAfter (s : Net) (n : Nat) : Wire → Id → Option Nat
  | .request a => update s.peers a (some n)
  | _ => s.peers

def happen (m : Mode) (s : Net) : Happening → Option Net
  | .wire n w =>
    if s.Admitted w ∧ m.AdmitsWire n (s.conns n) w then
      ((s.conns n).wire w).map fun x =>
        ({ s.setConn n x with peers := s.peersAfter n w }).report (w.to n) w.event (w.names x)
    else none
  | .other p code id =>
    if m = none ∧ .other code ≠ addrResolved ∧ .other code ≠ routeResolved then
      some (s.report p (.other code) id)
    else none

/-- The connection that a call of a party is about, behind it. -/
def connAfter (s : Net) : Party → (c : Call) → c.Answer → Option (Nat → Conn)
  | .client n, c, r => ((s.conns n).clientCall c r).map (update s.conns n)
  | .server, c, r =>
    match c.serverId.bind s.peers with
    | none => some s.conns
    | some n => ((s.conns n).serverCall c r).map (update s.conns n)

def effect (heap : Option Nat → Bool) (m : Mode) (p : Party) (s : Net) (c : Call)
    (r : c.Answer) : Option Net :=
  if m.Admits p c r then do
    let objs ← liveAfter heap (s.proc p).live c r
    let queue ← queueAfter (s.proc p).queue c r
    let conns ← s.connAfter p c r
    let listening := if p = .server then listeningAfter s.listening c r else s.listening
    some { s.setProc p ⟨objs, queue⟩ with conns := conns, listening := listening }
  else none

end Net

end RdmaTutorial.Establish
