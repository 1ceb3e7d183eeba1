import RdmaTutorial.Example03.QpInfo
import RdmaTutorial.Lib.Hex
import RdmaTutorial.Lib.Objects
import RdmaTutorial.Lib.Program
import RdmaTutorial.Peer

/-!
# The programs that open a device

`main` of example01, which lists the devices, and of example02, which shows one of
them; `build_rdma_resources` and `cleanup_resources` (rdma_common.c of example03),
which open the first. All of them as the calls they make.
-/

namespace RdmaTutorial.Devices

open ByteOrder

/-- A `struct ibv_context`, with its `device`. -/
structure Context where
  addr : Nat
  device : Nat
  deriving DecidableEq, Repr

/-- What `ibv_get_device_list` returns: the array and the devices in it. -/
structure DeviceList where
  addr : Nat
  devices : List Nat
  deriving DecidableEq, Repr

/-- What is read of `ib_attr.orig_attr`. `node_guid` is in network order. -/
structure DeviceAttr where
  nodeGuid : Nat
  physPortCnt : UInt8
  maxQp : Int
  deriving DecidableEq, Repr

/-- What is read of a `struct ibv_port_attr`. -/
structure PortAttr where
  state : Nat
  activeMtu : Nat
  activeSpeed : UInt8
  lid : UInt16
  deriving DecidableEq, Repr

inductive Call where
  | printf (text : String)
  | perror (text : String)
  | getDeviceList
  | freeDeviceList (list : DeviceList)
  | getDeviceName (dev : Nat)
  /-- In network order. -/
  | getDeviceGuid (dev : Nat)
  /-- The read of `ib_dev->transport_type`. -/
  | transportType (dev : Nat)
  | openDevice (dev : Nat)
  | closeDevice (ctx : Context)
  | queryDeviceEx (ctx : Context)
  | queryPort (ctx : Context) (port : Nat)
  | queryGid (ctx : Context) (port index : Nat)
  | allocPd (ctx : Context)
  | malloc (size : Nat)
  | memset (buf size : Nat)
  | regMr (pd buf size : Nat)
  | createCq (ctx : Context) (cqe : Nat)
  | createQp (pd cq maxSendWr maxRecvWr : Nat)
  | destroyQp (qp : Nat)
  | destroyCq (cq : Nat)
  | deregMr (mr : Nat)
  | deallocPd (pd : Nat)
  | free (buf : Nat)
  deriving DecidableEq, Repr

def Call.Answer : Call → Type
  | printf _ => Unit
  | perror _ => Unit
  | getDeviceList => Option DeviceList
  | freeDeviceList _ => Unit
  | getDeviceName _ => String
  | getDeviceGuid _ => Nat
  | transportType _ => Int
  | openDevice _ => Option Context
  | closeDevice _ => Result
  | queryDeviceEx _ => Option DeviceAttr
  | queryPort .. => Option PortAttr
  | queryGid .. => Option Example03.Gid
  | allocPd _ => Option Nat
  | malloc _ => Option Nat
  | memset .. => Unit
  | regMr .. => Option Nat
  | createCq .. => Option Nat
  | createQp .. => Option Nat
  | destroyQp _ => Result
  | destroyCq _ => Result
  | deregMr _ => Result
  | deallocPd _ => Result
  | free _ => Unit

/-- A program that exits has given its reason to `die`. -/
abbrev Prog (α : Type) := Program Call Call.Answer String α

def call (c : Call) : Prog c.Answer := .lift c

def printf (text : String) : Prog Unit := call (.printf text)

/-! ## What is printed -/

/-- `%-16s`. -/
def leftAlign16 (s : String) : String := s ++ String.ofList (List.replicate (16 - s.length) ' ')

/-- `be64toh`. -/
def be64toh (e : Endian) (v : Nat) : Nat := hton e 8 v

/-- `%016llx`. -/
def format016llx (v : Nat) : String := String.ofList (Hex.format 16 v)

/-- An unsigned number taken for a `long long`. -/
def longLong (v : Nat) : Int := (BitVec.ofNat 64 v).toInt

/-- `%lld` of an unsigned number. -/
def formatLld (v : Nat) : String := toString (longLong v)

def header : List String :=
  [leftAlign16 "device" ++ "\tnode GUID\n", leftAlign16 "------" ++ "\t---------------\n"]

def deviceLine (e : Endian) (name : String) (guid : Nat) : String :=
  leftAlign16 name ++ "\t" ++ format016llx (be64toh e guid) ++ "\n"

/-- The line of one device. -/
def showGuid (e : Endian) (dev : Nat) : Prog Unit := do
  let name : String ← call (.getDeviceName dev)
  let guid : Nat ← call (.getDeviceGuid dev)
  printf (deviceLine e name guid)

/-! ## example01 and example02 -/

/-- `main` of example01, on a host of byte order `e`. -/
def example01Main (e : Endian) : Prog Int := do
  match (← call .getDeviceList : Option DeviceList) with
  | none =>
    let _ ← call (.perror "Failed to get IB device list")
    return -1
  | some list =>
    header.forM printf
    list.devices.forM (showGuid e)
    let _ ← call (.freeDeviceList list)
    return 0

/-- The first device of this name. -/
def findDevice (ibDevName : String) : List Nat → Prog (Option Nat)
  | [] => return none
  | dev :: devs => do
    let name : String ← call (.getDeviceName dev)
    if name = ibDevName then return some dev else findDevice ibDevName devs

def portText (port : Nat) (attr : PortAttr) : List String :=
  [s!"port:\t\t\t{port}\n", s!"state:\t\t\t({attr.state})\n",
    s!"active_mtu:\t\t({attr.activeMtu})\n", s!"active_speed:\t\t({attr.activeSpeed})\n"]

def portFailed (port : Nat) : String := s!"Failed to query port {port} props\n"

/-- The loop over the ports, from `port` on, with `n` of them left. -/
def showPorts (ctx : Context) : Nat → Nat → Prog Unit
  | _, 0 => return ()
  | port, n + 1 => do
    match (← call (.queryPort ctx port) : Option PortAttr) with
    | none => printf (portFailed port)
    | some attr =>
      (portText port attr).forM printf
      showPorts ctx (port + 1) n

def attrText (transport : Int) (attr : DeviceAttr) : List String :=
  [s!"transport:\t\t ({transport})\n", s!"node_guid:\t\t({formatLld attr.nodeGuid})\n",
    s!"phys_port_cnt:\t\t({attr.physPortCnt})\n", s!"max_qp:\t\t\t({attr.maxQp})\n"]

/-- Between `ibv_open_device` and the label `close`. -/
def showAttr (dev : Nat) (ctx : Context) : Prog Unit := do
  match (← call (.queryDeviceEx ctx) : Option DeviceAttr) with
  | none => printf "Failed to query device props\n"
  | some attr =>
    let transport : Int ← call (.transportType dev)
    (attrText transport attr).forM printf
    showPorts ctx 1 attr.physPortCnt.toNat

/-- At the label `close`. -/
def closing (ctx : Context) : Prog Unit := do
  match (← call (.closeDevice ctx) : Result) with
  | .ok => return ()
  | .fail => printf "Failed to close device\n"

/-- From the device that is found to the label `out`. -/
def showDevice (e : Endian) (dev : Nat) : Prog Unit := do
  header.forM printf
  showGuid e dev
  match (← call (.openDevice dev) : Option Context) with
  | none => return ()
  | some ctx =>
    showAttr dev ctx
    closing ctx

/-- `main` of example02 behind the check of its arguments; `ibDevName` is
`argv[1]`. -/
def example02Main (e : Endian) (ibDevName : String) : Prog Int := do
  match (← call .getDeviceList : Option DeviceList) with
  | none =>
    printf "Failed to get IB device list"
    return -1
  | some list =>
    match (← findDevice ibDevName list.devices) with
    | none => pure ()
    | some dev => showDevice e dev
    let _ ← call (.freeDeviceList list)
    return 0

/-! ## example03 -/

/-- What `build_rdma_resources` stores in a `struct rdma_context`. -/
structure RdmaContext where
  ctx : Context
  portAttr : PortAttr
  gid : Example03.Gid
  pd : Nat
  buf : Nat
  mr : Nat
  cq : Nat
  qp : Nat
  deriving DecidableEq

/-- `if (!x) die(reason)`. -/
def orDie {α : Type} (reason : String) : Option α → Prog α
  | some a => .ret a
  | none => .exit reason

/-- `RDMA_BUFFER_SIZE`. -/
def rdmaBufferSize : Nat := 1024

/-- On port `ib_port` of the first device. -/
def buildRdmaResources (ibPort : Nat) : Prog RdmaContext := do
  let list ← orDie "ibv_get_device_list failed" (← call .getDeviceList)
  let dev ← orDie "No IB devices found" list.devices.head?
  let ctx ← orDie "ibv_open_device failed" (← call (.openDevice dev))
  let _ ← call (.freeDeviceList list)
  let portAttr ← orDie "ibv_query_port failed" (← call (.queryPort ctx ibPort))
  let gid ← orDie "ibv_query_gid failed" (← call (.queryGid ctx ibPort 0))
  let pd ← orDie "ibv_alloc_pd failed" (← call (.allocPd ctx))
  let buf ← orDie "malloc failed" (← call (.malloc rdmaBufferSize))
  let _ ← call (.memset buf rdmaBufferSize)
  let mr ← orDie "ibv_reg_mr failed" (← call (.regMr pd buf rdmaBufferSize))
  let cq ← orDie "ibv_create_cq failed" (← call (.createCq ctx 10))
  let qp ← orDie "ibv_create_qp failed" (← call (.createQp pd cq 10 10))
  return ⟨ctx, portAttr, gid, pd, buf, mr, cq, qp⟩

/-- The pointers of a `struct rdma_context`, of which some may be NULL. -/
structure Pointers where
  ctx : Option Context
  pd : Option Nat
  buf : Option Nat
  mr : Option Nat
  cq : Option Nat
  qp : Option Nat
  deriving DecidableEq

/-- `if (x) c(x)`. -/
def ifSet {α : Type} (x : Option α) (c : α → Call) : Prog Unit :=
  match x with
  | some a => do
    let _ ← call (c a)
    return ()
  | none => return ()

def cleanupResources (res : Pointers) : Prog Unit := do
  ifSet res.qp .destroyQp
  ifSet res.cq .destroyCq
  ifSet res.mr .deregMr
  ifSet res.pd .deallocPd
  ifSet res.ctx .closeDevice
  ifSet res.buf .free

end RdmaTutorial.Devices
