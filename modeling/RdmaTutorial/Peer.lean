import RdmaTutorial.Common

/-!
# The other end of a connection

`Peer` is all a server's connection sees of the machine at the other end: the
message its HCA holds ready for the wire, whether it has a receive posted, and
what it does when a message of ours is delivered. The servers are modelled
against any peer; the repository's client (`Client.peer`) and the peer that
sends what it likes when it likes (`AnyPeer.peer`) are two instances.
-/

namespace RdmaTutorial

/-- What a library call returned, for the calls whose result the programs
test. -/
inductive Result where
  | ok
  | fail
  deriving DecidableEq, Repr

/-- A peer with states `σ`, moves of its own `α`, and start values `ρ`. -/
structure Peer (ρ σ α : Type) where
  /-- The state when it asks for the connection. -/
  fresh : ρ → σ
  /-- It learns that the connection is established. -/
  established : σ → σ
  step : σ → α → Option σ
  /-- The message that the wire can take from it next. -/
  offer : σ → Option Payload
  /-- That message has been delivered. -/
  sent : σ → σ
  /-- It has a receive posted. -/
  accepts : σ → Bool
  /-- A message is delivered to it. -/
  receive : Payload → σ → σ

/-- `P` with a record of what is delivered to it, oldest first. -/
def Peer.logged {ρ σ α : Type} (P : Peer ρ σ α) : Peer ρ (σ × List Payload) α where
  fresh a := (P.fresh a, [])
  established q := (P.established q.1, q.2)
  step q a := (P.step q.1 a).map fun p => (p, q.2)
  offer q := P.offer q.1
  sent q := (P.sent q.1, q.2)
  accepts q := P.accepts q.1
  receive p q := (P.receive p q.1, q.2 ++ [p])

/-! ## A peer that sends anything at any time -/

/-- A peer without a program: `outbox` is what it has sent and the wire has
not delivered, `posted` the receives it has posted and no message has
consumed. `log` and `got` record what it has sent and received, oldest
first. -/
structure AnyPeer where
  outbox : List Payload
  posted : Nat
  log : List Payload
  got : List Payload

namespace AnyPeer

inductive Action where
  | send (p : Payload)
  | postRecv
  deriving DecidableEq

def step (q : AnyPeer) : Action → Option AnyPeer
  | .send p => some { q with outbox := q.outbox ++ [p], log := q.log ++ [p] }
  | .postRecv => some { q with posted := q.posted + 1 }

def peer : Peer Unit AnyPeer Action where
  fresh _ := { outbox := [], posted := 0, log := [], got := [] }
  established q := q
  step := step
  offer q := q.outbox.head?
  sent q := { q with outbox := q.outbox.tail }
  accepts q := decide (0 < q.posted)
  receive p q := { q with posted := q.posted - 1, got := q.got ++ [p] }

end AnyPeer

/-! ## A peer that leaves -/

/-- A client that calls `rdma_disconnect` when it likes: from then on its queue
pair moves no message. -/
structure Visitor where
  client : AnyPeer
  gone : Bool

namespace Visitor

inductive Action where
  | client (a : AnyPeer.Action)
  | leave
  deriving DecidableEq

def step (q : Visitor) : Action → Option Visitor
  | .client a =>
    if q.gone then none else (q.client.step a).map fun c => { q with client := c }
  | .leave => if q.gone then none else some { q with gone := true }

def peer : Peer Unit Visitor Action where
  fresh a := { client := AnyPeer.peer.fresh a, gone := false }
  established q := q
  step := step
  offer q := if q.gone then none else AnyPeer.peer.offer q.client
  sent q := { q with client := AnyPeer.peer.sent q.client }
  accepts q := !q.gone && AnyPeer.peer.accepts q.client
  receive p q := { q with client := AnyPeer.peer.receive p q.client }

end Visitor

end RdmaTutorial
