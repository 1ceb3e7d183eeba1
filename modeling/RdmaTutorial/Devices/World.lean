import RdmaTutorial.Devices.Programs

/-!
# A host and its devices

What libibverbs answers on one host, and what the calls print, make and release.
-/

namespace RdmaTutorial.Devices

open ByteOrder Objects

inductive Held where
  | list (l : DeviceList)
  | context (c : Context)
  | pd (a : Nat)
  | buf (a : Nat)
  | mr (a : Nat)
  | cq (a : Nat)
  | qp (a : Nat)
  deriving DecidableEq, Repr

/-- What is alive, and what has been printed to stdout. -/
structure State where
  objs : List (Object Held)
  out : List String

/-- What a call that destroys `h` leaves. It fails only where something is built
on `h`. -/
def destroyed (objs : List (Object Held)) (h : Held) : Result → Option (List (Object Held))
  | .ok => some (destroy objs h)
  | .fail => if Busy objs h then some objs else none

/-- What is alive behind a call that is answered so. Only `ibv_close_device` may
fail where nothing is built on what it destroys. -/
def liveAfter (objs : List (Object Held)) : (c : Call) → c.Answer → Option (List (Object Held))
  | .getDeviceList, some l => add objs (.list l) []
  | .freeDeviceList l, _ => some (destroy objs (.list l))
  | .openDevice dev, some c => if c.device = dev then add objs (.context c) [] else none
  | .closeDevice c, .ok => some (destroy objs (.context c))
  | .allocPd c, some a => add objs (.pd a) [.context c]
  | .malloc _, some a => add objs (.buf a) []
  | .regMr pd buf _, some a => add objs (.mr a) [.pd pd, .buf buf]
  | .createCq c _, some a => add objs (.cq a) [.context c]
  | .createQp pd cq _ _, some a => add objs (.qp a) [.pd pd, .cq cq]
  | .destroyQp a, r => destroyed objs (.qp a) r
  | .destroyCq a, r => destroyed objs (.cq a) r
  | .deregMr a, r => destroyed objs (.mr a) r
  | .deallocPd a, r => destroyed objs (.pd a) r
  | .free a, _ => some (destroy objs (.buf a))
  | _, _ => some objs

/-- A device is named by a list that is alive. -/
def Names (objs : List (Object Held)) (dev : Nat) : Prop :=
  ∃ l, IsLive objs (.list l) ∧ dev ∈ l.devices

/-- What the call uses is alive, and nothing is built on what it destroys. -/
def Call.Safe (objs : List (Object Held)) : Call → Prop
  | freeDeviceList l => IsLive objs (.list l) ∧ ¬Busy objs (.list l)
  | getDeviceName dev => Names objs dev
  | getDeviceGuid dev => Names objs dev
  | transportType dev => Names objs dev
  | openDevice dev => Names objs dev
  | closeDevice c => IsLive objs (.context c) ∧ ¬Busy objs (.context c)
  | queryDeviceEx c => IsLive objs (.context c)
  | queryPort c _ => IsLive objs (.context c)
  | queryGid c _ _ => IsLive objs (.context c)
  | allocPd c => IsLive objs (.context c)
  | memset buf _ => IsLive objs (.buf buf)
  | regMr pd buf _ => IsLive objs (.pd pd) ∧ IsLive objs (.buf buf)
  | createCq c _ => IsLive objs (.context c)
  | createQp pd cq _ _ => IsLive objs (.pd pd) ∧ IsLive objs (.cq cq)
  | destroyQp a => IsLive objs (.qp a) ∧ ¬Busy objs (.qp a)
  | destroyCq a => IsLive objs (.cq a) ∧ ¬Busy objs (.cq a)
  | deregMr a => IsLive objs (.mr a) ∧ ¬Busy objs (.mr a)
  | deallocPd a => IsLive objs (.pd a) ∧ ¬Busy objs (.pd a)
  | free a => IsLive objs (.buf a) ∧ ¬Busy objs (.buf a)
  | _ => True

/-- What a call prints. -/
def Call.prints : Call → List String
  | printf text => [text]
  | _ => []

/-- A device of the host; its GUID as the bytes that come first to last. -/
structure Device where
  name : String
  guid : Example03.Bytes 8
  transportType : Int
  /-- What `ibv_open_device` and `ibv_close_device` come to. -/
  opens : Bool
  closes : Bool
  attr : Option DeviceAttr
  port : Nat → Option PortAttr

/-- `devices` is `none` where there is no list to get. -/
structure Host where
  endian : Endian
  devices : Option (List Nat)
  device : Nat → Device

def agrees {α : Type} [DecidableEq α] (a b : α) : Bool := a = b

/-- The answers that the host gives. -/
def Host.says (h : Host) : (c : Call) → c.Answer → Bool
  | .getDeviceList, l => agrees h.devices ((l : Option DeviceList).map (·.devices))
  | .getDeviceName dev, name => agrees (h.device dev).name name
  | .getDeviceGuid dev, guid => agrees (load h.endian (h.device dev).guid) guid
  | .transportType dev, t => agrees (h.device dev).transportType t
  | .openDevice dev, c => agrees (h.device dev).opens (c : Option Context).isSome
  | .closeDevice c, r => agrees (if (h.device c.device).closes then Result.ok else .fail) r
  | .queryDeviceEx c, a => agrees (h.device c.device).attr a
  | .queryPort c port, a => agrees ((h.device c.device).port port) a
  | _, _ => true

/-- A host on which any call may fail, and answer whatever it likes. -/
def anyHost : World Call Call.Answer State where
  Allowed := fun s c => c.Safe s.objs
  effect := fun s c r => (liveAfter s.objs c r).map fun objs => ⟨objs, s.out ++ c.prints⟩

/-- This host. -/
def Host.world (h : Host) : World Call Call.Answer State where
  Allowed := fun s c => c.Safe s.objs
  effect := fun s c r => if h.says c r then anyHost.effect s c r else none

end RdmaTutorial.Devices
