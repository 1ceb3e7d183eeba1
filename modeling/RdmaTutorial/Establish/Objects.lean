import RdmaTutorial.Establish.Programs

/-!
# What a process holds

The objects that the calls make and release, and what each is built on. The
world of a process by itself, `process`, knows no network; every call that makes
something may fail, and what `malloc` leaves in a block is among what `heap`
allows.
-/

namespace RdmaTutorial.Establish

open Objects

inductive Held where
  | channel (a : Nat)
  | id (a : Id)
  | addrinfo (a : Nat)
  /-- An event that is not acknowledged. -/
  | event (a : Nat)
  | conn (a : Nc)
  | verbs (h : Handle)
  deriving DecidableEq, Repr

/-- What is alive behind a call that is answered so. The event of a connection
request brings the id of the connection. No id is kept that nothing is built
on. -/
def liveAfter (heap : Option Nat → Bool) (objs : List (Object Held)) :
    (c : Call) → c.Answer → Option (List (Object Held))
  | .createEventChannel, some a => add objs (.channel a) []
  | .createId ec, some a => add objs (.id a) [.channel ec]
  | .getaddrinfo _, some a => add objs (.addrinfo a) []
  | .freeaddrinfo ai, _ => some (destroy objs (.addrinfo ai))
  | .getCmEvent ec, some e =>
    (if e.event = .connectRequest then add objs (.id e.id) [.channel ec] else some objs).bind
      fun objs => add objs (.event e.addr) [.channel ec, .id e.id]
  | .ackCmEvent e, _ => some (destroy objs (.event e))
  | .mallocConnection, some nc => if heap nc.next then add objs (.conn nc.addr) [] else none
  | .allocPd _, some a => add objs (.verbs (.pd a)) []
  | .createCompChannel _, some a => add objs (.verbs (.cc a)) []
  | .createCq _ _ cc, some a => add objs (.verbs (.cq a)) [.verbs (.cc cc)]
  | .createQp _ pd cq _ _, some a => add objs (.verbs (.qp a)) [.verbs (.pd pd), .verbs (.cq cq)]
  | .malloc _, some a => add objs (.verbs (.buff a)) []
  | .regMr pd _ _, some a => add objs (.verbs (.mr a)) [.verbs (.pd pd)]
  | .destroyId id, .ok => some (destroy objs (.id id))
  | .destroyId id, .fail => if Busy objs (.id id) then some objs else none
  | .destroyEventChannel ec, _ => some (destroy objs (.channel ec))
  | _, _ => some objs

/-- What the call uses is alive, nothing is built on what it destroys, a list of
work requests ends, and no event is fetched before the last one is acknowledged.
librdmacm also wants the queue pair of an id freed before the id, which no `main`
does: that is not among these. -/
def Call.Safe (objs : List (Object Held)) : Call → Prop
  | createId ec => IsLive objs (.channel ec)
  | freeaddrinfo ai => IsLive objs (.addrinfo ai)
  | bindAddr id ai => IsLive objs (.id id) ∧ IsLive objs (.addrinfo ai)
  | listen id _ => IsLive objs (.id id)
  | resolveAddr id ai _ => IsLive objs (.id id) ∧ IsLive objs (.addrinfo ai)
  | resolveRoute id _ => IsLive objs (.id id)
  | getCmEvent ec => IsLive objs (.channel ec) ∧ ∀ a, ¬IsLive objs (.event a)
  | ackCmEvent e => IsLive objs (.event e) ∧ ¬Busy objs (.event e)
  | allocPd id => IsLive objs (.id id)
  | createCompChannel id => IsLive objs (.id id)
  | createCq id _ cc => IsLive objs (.id id) ∧ IsLive objs (.verbs (.cc cc))
  | reqNotifyCq cq => IsLive objs (.verbs (.cq cq))
  | createQp id pd cq _ _ =>
    IsLive objs (.id id) ∧ IsLive objs (.verbs (.pd pd)) ∧ IsLive objs (.verbs (.cq cq))
  | regMr pd buff _ => IsLive objs (.verbs (.pd pd)) ∧ IsLive objs (.verbs (.buff buff))
  | postRecv qp wr =>
    IsLive objs (.verbs (.qp qp)) ∧ IsLive objs (.verbs (.buff wr.addr)) ∧
      IsLive objs (.verbs (.mr wr.mr)) ∧ wr.next = none
  | accept id _ => IsLive objs (.id id)
  | connect id _ => IsLive objs (.id id)
  | loop id nc => IsLive objs (.id id) ∧ IsLive objs (.conn nc)
  | disconnect id => IsLive objs (.id id)
  | destroyId id => IsLive objs (.id id) ∧ ¬Busy objs (.id id)
  | destroyEventChannel ec => IsLive objs (.channel ec) ∧ ¬Busy objs (.channel ec)
  | _ => True

/-- The call is answered as where nothing fails. -/
def Call.succeeds : (c : Call) → c.Answer → Bool
  | createEventChannel, none => false
  | createId _, none => false
  | getaddrinfo _, none => false
  | bindAddr .., .fail => false
  | listen .., .fail => false
  | resolveAddr .., .fail => false
  | resolveRoute .., .fail => false
  | getCmEvent _, none => false
  | mallocConnection, none => false
  | allocPd _, none => false
  | createCompChannel _, none => false
  | createCq .., none => false
  | reqNotifyCq _, .fail => false
  | createQp .., none => false
  | malloc _, none => false
  | regMr .., none => false
  | postRecv .., .fail => false
  | accept .., .fail => false
  | connect .., .fail => false
  | loop .., some _ => false
  | disconnect _, .fail => false
  | destroyId _, .fail => false
  | _, _ => true

/-- The call is no business of the network. -/
def Call.quiet : Call → Bool
  | listen .. => false
  | resolveAddr .. => false
  | resolveRoute .. => false
  | getCmEvent _ => false
  | accept .. => false
  | connect .. => false
  | loop .. => false
  | disconnect _ => false
  | destroyId _ => false
  | _ => true

/-- A process that leaves the network alone; where `ok` holds, nothing fails. -/
def process (heap : Option Nat → Bool) (ok : Bool) :
    World Call Call.Answer (List (Object Held)) where
  Allowed := fun objs c => c.quiet = true ∧ c.Safe objs
  effect := fun objs c r =>
    if ok = true → c.succeeds r = true then liveAfter heap objs c r else none

/-- The object of a handle, as the process holds it. -/
def held (o : Object Handle) : Object Held := ⟨.verbs o.handle, o.uses.map .verbs⟩

/-- What `setup_connection` makes, in this order. -/
def Connected.objects (nc : Connected) : List (Object Held) :=
  ⟨.conn nc.nc, []⟩ :: nc.handles.objects.map held

end RdmaTutorial.Establish
