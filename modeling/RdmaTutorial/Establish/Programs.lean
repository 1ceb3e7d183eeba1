import RdmaTutorial.Lib.Program
import RdmaTutorial.Peer
import RdmaTutorial.Resources

/-!
# The programs that set a connection up

`setup_connection` and `check_cm_event` (common.c of rdmacm01 to rdmacm05), and
the two `main`s of rdmacm01, as the calls they make. The `main`s of rdmacm03 and
the clients' of the others do the same and have their message loop between the
last event and the cleanup; here that loop is one call.
-/

namespace RdmaTutorial.Establish

inductive Directory where
  | rdmacm01
  | rdmacm02
  | rdmacm03
  | rdmacm04
  | rdmacm05
  deriving DecidableEq, Repr

/-- The values of `enum rdma_cm_event_type` that only a client expects. -/
@[match_pattern] abbrev addrResolved : CmEventType := .other 0
@[match_pattern] abbrev routeResolved : CmEventType := .other 2

/-- `conn_param` and `conn_parm`. -/
structure ConnParam where
  retryCount : Nat
  rnrRetryCount : Nat
  deriving DecidableEq, Repr

/-- A `struct ibv_recv_wr` with its one element. -/
structure RecvWr where
  next : Option Nat
  addr : Nat
  length : Nat
  /-- The region whose `lkey` the element has. -/
  mr : Nat
  deriving DecidableEq, Repr

/-- A fresh block for a `struct connection`, and the bytes that happen to stand
where `recv_wr.next` is. -/
structure Malloced where
  addr : Nat
  next : Option Nat
  deriving DecidableEq, Repr

/-- What `rdma_get_cm_event` hands out. -/
structure Fetched where
  addr : Nat
  event : CmEventType
  id : Id
  deriving DecidableEq, Repr

inductive Call where
  | log (text : String)
  | createEventChannel
  | createId (ec : Nat)
  | getaddrinfo (node : Option String)
  | freeaddrinfo (ai : Nat)
  | bindAddr (id : Id) (ai : Nat)
  | listen (id : Id) (backlog : Nat)
  | resolveAddr (id : Id) (ai timeout : Nat)
  | resolveRoute (id : Id) (timeout : Nat)
  | getCmEvent (ec : Nat)
  | ackCmEvent (event : Nat)
  | mallocConnection
  | allocPd (id : Id)
  | createCompChannel (id : Id)
  | createCq (id : Id) (cqe : Nat) (cc : Nat)
  | reqNotifyCq (cq : Nat)
  | createQp (id : Id) (pd cq maxSendWr maxRecvWr : Nat)
  | malloc (size : Nat)
  | regMr (pd buff size : Nat)
  | postRecv (qp : Nat) (wr : RecvWr)
  | accept (id : Id) (param : ConnParam)
  | connect (id : Id) (param : ConnParam)
  /-- The message loop on the connection of an id. -/
  | loop (id : Id) (nc : Nc)
  | disconnect (id : Id)
  | destroyId (id : Id)
  | destroyEventChannel (ec : Nat)
  deriving DecidableEq, Repr

/-- What a call returns: a pointer, or NULL; or whether it returns zero, with what
it stores through its arguments. -/
def Call.Answer : Call → Type
  | log _ => Unit
  | createEventChannel => Option Nat
  | createId _ => Option Id
  | getaddrinfo _ => Option Nat
  | freeaddrinfo _ => Unit
  | bindAddr .. => Result
  | listen .. => Result
  | resolveAddr .. => Result
  | resolveRoute .. => Result
  | getCmEvent _ => Option Fetched
  | ackCmEvent _ => Unit
  | mallocConnection => Option Malloced
  | allocPd _ => Option Nat
  | createCompChannel _ => Option Nat
  | createCq .. => Option Nat
  | reqNotifyCq _ => Result
  | createQp .. => Option Nat
  | malloc _ => Option Nat
  | regMr .. => Option Nat
  | postRecv .. => Result
  | accept .. => Result
  | connect .. => Result
  | loop .. => Option String
  | disconnect _ => Result
  | destroyId _ => Result
  | destroyEventChannel _ => Unit

/-- A program exits with the reason it gives to `die`, or with what it prints. -/
abbrev Prog (α : Type) := Program Call Call.Answer String α

def call (c : Call) : Prog c.Answer := .lift c

def ifNullDie (x : String) : String := "ERROR: " ++ x ++ " failed, return value is NULL"

/-- `IF_NULL_DIE(x)`. -/
def nonNull {α : Type} (x : String) : Option α → Prog α
  | some a => .ret a
  | none => .exit (ifNullDie x)

/-- `IF_NZERO_DIE(x)`, of a call that stores what it makes through an argument. -/
def stored {α : Type} (x : String) : Option α → Prog α
  | some a => .ret a
  | none => .exit (ifNzeroDie x)

/-- `IF_NZERO_DIE(x)`. -/
def zero (x : String) : Result → Prog Unit
  | .ok => .ret ()
  | .fail => .exit (ifNzeroDie x)

def log (text : String) : Prog Unit := call (.log text)

/-! ## common.c -/

def getEventString : CmEventType → String
  | .established => "RDMA_CM_EVENT_ESTABLISHED"
  | .disconnected => "RDMA_CM_EVENT_DISCONNECTED"
  | .other 11 => "RDMA_CM_EVENT_DEVICE_REMOVAL"
  | .connectError => "RDMA_CM_EVENT_CONNECT_ERROR"
  | .rejected => "RDMA_CM_EVENT_REJECTED"
  | .unreachable => "RDMA_CM_EVENT_UNREACHABLE"
  | .connectRequest => "RDMA_CM_EVENT_CONNECT_REQUEST"
  | .other _ => "Unknown event"

def checkCmEvent (event : Fetched) (exp : CmEventType) : Prog Unit :=
  if event.event = exp then .ret ()
  else do
    log ("Unexpected event: " ++ getEventString event.event ++ ", expect event is: " ++
      getEventString exp)
    .exit ""

/-- The text of the call that registers a buffer, as `#x` gives it: the two calls
of rdmacm01 are not spelled alike. -/
def regMrText (d : Directory) (mr buff : String) : String :=
  mr ++ " = ibv_reg_mr( nc->pd, " ++ buff ++ ", BUFFER_SIZE, IBV_ACCESS_LOCAL_WRITE" ++
    (if d = .rdmacm01 ∧ mr = "nc->send_mr" then "|" else " | ") ++ "IBV_ACCESS_REMOTE_WRITE)"

def postRecvText (d : Directory) : String :=
  "ibv_post_recv(nc->qp, &nc->recv_wr, " ++ (if d = .rdmacm03 then "&bad_rwr)" else "&bad_wr)")

/-- A `struct connection` that `setup_connection` returns. -/
structure Connected where
  nc : Nc
  handles : Handles
  deriving DecidableEq, Repr

/-- `nc->recv_wr` when it is posted: rdmacm01 leaves `next` as `malloc` returned
it. -/
def recvWr (d : Directory) (nc : Malloced) (buff mr : Nat) : RecvWr where
  next := if d = .rdmacm01 then nc.next else none
  addr := buff
  length := bufferSize
  mr := mr

def setupConnection (d : Directory) (cmId : Id) : Prog Connected := do
  let nc ← nonNull "nc = (struct connection *)malloc(sizeof(*nc))" (← call .mallocConnection)
  let pd ← nonNull "nc->pd = ibv_alloc_pd(cm_id->verbs)" (← call (.allocPd cmId))
  let cc ← nonNull "nc->cc = ibv_create_comp_channel(cm_id->verbs)"
    (← call (.createCompChannel cmId))
  let cq ← nonNull "nc->cq = ibv_create_cq(cm_id->verbs, 10, NULL, nc->cc, 0)"
    (← call (.createCq cmId cqEntries cc))
  zero "ibv_req_notify_cq(nc->cq, 0)" (← call (.reqNotifyCq cq))
  let qp ← stored "rdma_create_qp(cm_id, nc->pd, &qp_attr)"
    (← call (.createQp cmId pd cq maxSendWr maxRecvWr))
  let recvBuff ← nonNull "nc->recv_buff = malloc(BUFFER_SIZE)" (← call (.malloc bufferSize))
  let sendBuff ← nonNull "nc->send_buff = malloc(BUFFER_SIZE)" (← call (.malloc bufferSize))
  let recvMr ← nonNull (regMrText d "nc->recv_mr" "nc->recv_buff")
    (← call (.regMr pd recvBuff bufferSize))
  let sendMr ← nonNull (regMrText d "nc->send_mr" "nc->send_buff")
    (← call (.regMr pd sendBuff bufferSize))
  zero (postRecvText d) (← call (.postRecv qp (recvWr d nc recvBuff recvMr)))
  return ⟨nc.addr, ⟨pd, cc, cq, qp, recvBuff, sendBuff, recvMr, sendMr⟩⟩

/-! ## The two `main`s -/

/-- `retry_count` and `rnr_retry_count`, which both ends set alike. -/
def connParam : ConnParam := ⟨3, 7⟩

/-- `rdma_get_cm_event`, the check of what it hands out, what is logged if the
event is the one expected, and `rdma_ack_cm_event`. -/
def expect (ec : Nat) (exp : CmEventType) (before after : List String) : Prog Id := do
  let event ← stored "rdma_get_cm_event(ec, &event)" (← call (.getCmEvent ec))
  checkCmEvent event exp
  before.forM log
  let _ ← call (.ackCmEvent event.addr)
  after.forM log
  return event.id

def runLoop (id : Id) (nc : Nc) : Prog Unit := do
  match (← call (.loop id nc) : Option String) with
  | some reason => .exit reason
  | none => return ()

/-- The `main` of the server of rdmacm01, and of rdmacm03, which has a message
loop. -/
def serverMain (d : Directory) : Prog Unit := do
  log "create event channel"
  let ec ← nonNull "ec = rdma_create_event_channel()" (← call .createEventChannel)
  let listener ← stored "rdma_create_id(ec, &listener, NULL, RDMA_PS_TCP)"
    (← call (.createId ec))
  let ai ← stored "getaddrinfo(NULL, PORT, &hints, &ai)" (← call (.getaddrinfo none))
  zero "rdma_bind_addr(listener, ai->ai_addr)" (← call (.bindAddr listener ai))
  log "listen begin"
  zero "rdma_listen(listener, 10)" (← call (.listen listener 10))
  let _ ← call (.freeaddrinfo ai)
  let clientId ← expect ec .connectRequest ["event: CONNECT REQUEST"] []
  let nc ← setupConnection d clientId
  zero "rdma_accept(client_id, &conn_parm)" (← call (.accept clientId connParam))
  let _ ← expect ec .established ["event: CONNECT ESTABLISHED"] ["Client connected"]
  if d = .rdmacm03 then runLoop clientId nc.nc
  let _ ← call (.disconnect clientId)
  let _ ← call (.destroyId clientId)
  let _ ← call (.destroyId listener)
  let _ ← call (.destroyEventChannel ec)
  return ()

/-- The `main` of a client behind the check of its arguments; `ip` is
`argv[1]`. -/
def clientMain (d : Directory) (ip : String) : Prog Unit := do
  let ec ← nonNull "ec = rdma_create_event_channel()" (← call .createEventChannel)
  let conn ← stored "rdma_create_id(ec, &conn, NULL, RDMA_PS_TCP)" (← call (.createId ec))
  log "created id"
  let ai ← stored "getaddrinfo(argv[1], PORT, &hints, &ai)" (← call (.getaddrinfo (some ip)))
  zero "rdma_resolve_addr(conn, NULL, ai->ai_addr, 2000)" (← call (.resolveAddr conn ai 2000))
  let _ ← call (.freeaddrinfo ai)
  let _ ← expect ec addrResolved [] ["addr resolved"]
  zero "rdma_resolve_route(conn, 2000)" (← call (.resolveRoute conn 2000))
  let _ ← expect ec routeResolved [] ["route resolved"]
  let nc ← setupConnection d conn
  log "connect to server"
  zero "rdma_connect(conn, &conn_param)" (← call (.connect conn connParam))
  let _ ← expect ec .established [] ["enter ESTABLISHED"]
  if d = .rdmacm03 ∨ d = .rdmacm04 ∨ d = .rdmacm05 then runLoop conn nc.nc
  let _ ← call (.disconnect conn)
  let _ ← call (.destroyId conn)
  let _ ← call (.destroyEventChannel ec)
  return ()

end RdmaTutorial.Establish
