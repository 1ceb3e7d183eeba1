import RdmaTutorial.Lib.Run
import RdmaTutorial.Rdmacm05.Server
import RdmaTutorial.Resources

/-!
# rdmacm05/server.c: the connection table

`handle_cm_event` and `handle_new_request`, over everything the server keeps of
its connections: the ids with their `context`, the blocks of `conn_context` and
`connection`, the objects of libibverbs, and what is registered in `epoll_fd`.
One event is handled at a time, by one thread, so a step is a whole call of
`handle_cm_event`. What `handle_cq_event` does with a connection is in
`Rdmacm05.Server`.

Memory is explicit: each block and each object is live or not, and an access to
one that is not is recorded in `faults`. An access whose outcome the server
depends on ends in `undefined`; a write to a block that has been freed changes
nothing else.
-/

namespace RdmaTutorial.Rdmacm05.CmEvents

open Objects

/-- The address of a `struct conn_context`. -/
abbrev Ctx := Nat

/-- `enum conn_state`. -/
inductive ConnState where
  | accepting
  | established
  | disconnected
  deriving DecidableEq, Repr

/-- `struct conn_context`. A field `malloc` has left as it was is `none`. -/
structure ConnContext where
  id : Id
  conn : Option Nc
  state : Option ConnState
  deriving DecidableEq, Repr

/-- A use of what has been released. -/
inductive Fault where
  /-- The `struct rdma_cm_event`, behind `rdma_ack_cm_event`. -/
  | event
  | id (x : Id)
  | ctx (k : Ctx)
  | conn (n : Nc)
  | object (h : Handle)
  deriving DecidableEq, Repr

/-- `ids` maps the live ids to their `context`. `epoll` are the completion
channels registered in `epoll_fd`. -/
structure State where
  status : Status
  ids : Id → Option (Option Ctx)
  ctxs : Ctx → Option ConnContext
  conns : Nc → Option Handles
  objs : List (Object Handle)
  epoll : List Nat
  faults : List Fault

/-- The calls of `setup_connection` and `handle_new_request` that end the
process when they fail. -/
inductive SetupCall where
  | mallocNc
  | allocPd
  | createCompChannel
  | createCq
  | reqNotify
  | createQp
  | mallocRecv
  | mallocSend
  | regRecv
  | regSend
  | postRecv
  | register
  | accept
  deriving DecidableEq, Repr

/-- The reason `IF_NULL_DIE(x)` gives to `die`. -/
def ifNullDie (x : String) : String := "ERROR: " ++ x ++ " failed, return value is NULL"

def SetupCall.reason : SetupCall → String
  | .mallocNc => ifNullDie "nc = (struct connection *)malloc(sizeof(*nc))"
  | .allocPd => ifNullDie "nc->pd = ibv_alloc_pd(cm_id->verbs)"
  | .createCompChannel => ifNullDie "nc->cc = ibv_create_comp_channel(cm_id->verbs)"
  | .createCq => ifNullDie "nc->cq = ibv_create_cq(cm_id->verbs, 10, NULL, nc->cc, 0)"
  | .reqNotify => reqNotifyDie
  | .createQp => createQpDie
  | .mallocRecv => ifNullDie "nc->recv_buff = malloc(BUFFER_SIZE)"
  | .mallocSend => ifNullDie "nc->send_buff = malloc(BUFFER_SIZE)"
  | .regRecv => ifNullDie ("nc->recv_mr = ibv_reg_mr( nc->pd, nc->recv_buff, BUFFER_SIZE, " ++
      "IBV_ACCESS_LOCAL_WRITE | IBV_ACCESS_REMOTE_WRITE)")
  | .regSend => ifNullDie ("nc->send_mr = ibv_reg_mr( nc->pd, nc->send_buff, BUFFER_SIZE, " ++
      "IBV_ACCESS_LOCAL_WRITE | IBV_ACCESS_REMOTE_WRITE)")
  | .postRecv => ifNzeroDie "ibv_post_recv(nc->qp, &nc->recv_wr, &bad_wr)"
  | .register => registerDie
  | .accept => acceptDie

/-- What the calls made while one event is handled return. -/
structure Returns where
  /-- `malloc(sizeof(*cctx))`; `none` is NULL. -/
  ctx : Option Ctx
  nc : Nc
  handles : Handles
  /-- The first call of `SetupCall` that fails. -/
  failed : Option SetupCall
  /-- Whether `epoll_ctl(.., EPOLL_CTL_DEL, ..)` fails. -/
  delFails : Bool
  deriving DecidableEq, Repr

/-- What `handle_cm_event` reads of `*event`. -/
structure CmEvent where
  event : CmEventType
  id : Id
  deriving DecidableEq, Repr

namespace State

/-- Before the first event. -/
def initial : State :=
  { status := .running, ids := fun _ => none, ctxs := fun _ => none, conns := fun _ => none,
    objs := [], epoll := [], faults := [] }

/-- An access, which is a fault unless it is to something `live`. -/
def use (s : State) (live : Bool) (f : Fault) : State :=
  { s with faults := if live then s.faults else s.faults ++ [f] }

/-- The server goes on with what it finds in memory that is not its own. -/
def crash (s : State) (f : Fault) : State := { s.use false f with status := .undefined }

def die (s : State) (reason : String) : State := { s with status := .died reason }

def setCtx (s : State) (k : Ctx) (c : ConnContext) : State :=
  { s with ctxs := Function.update s.ctxs k (some c) }

/-- `id->context = cctx`. -/
def setContext (s : State) (x : Id) (k : Option Ctx) : State :=
  match s.ids x with
  | none => s.use false (.id x)
  | some _ => { s with ids := Function.update s.ids x (some k) }

@[simp] theorem setContext_status (s : State) (x : Id) (k : Option Ctx) :
    (s.setContext x k).status = s.status := by
  simp only [setContext]; split <;> rfl

@[simp] theorem setContext_ctxs (s : State) (x : Id) (k : Option Ctx) :
    (s.setContext x k).ctxs = s.ctxs := by
  simp only [setContext]; split <;> rfl

@[simp] theorem setContext_conns (s : State) (x : Id) (k : Option Ctx) :
    (s.setContext x k).conns = s.conns := by
  simp only [setContext]; split <;> rfl

@[simp] theorem setContext_objs (s : State) (x : Id) (k : Option Ctx) :
    (s.setContext x k).objs = s.objs := by
  simp only [setContext]; split <;> rfl

@[simp] theorem setContext_epoll (s : State) (x : Id) (k : Option Ctx) :
    (s.setContext x k).epoll = s.epoll := by
  simp only [setContext]; split <;> rfl

/-- A write to an id that has been destroyed is lost. -/
theorem setContext_ids {s : State} {x : Id} (hx : s.ids x = none) (k : Option Ctx) :
    (s.setContext x k).ids = s.ids := by
  simp [setContext, hx, use]

/-- `rdma_destroy_id`. -/
def destroyId (s : State) (x : Id) : State :=
  { s.use (s.ids x).isSome (.id x) with ids := Function.update s.ids x none }

/-- `epoll_ctl(.., EPOLL_CTL_ADD, ..)` for the channel `c`. -/
def register (s : State) (c : Nat) : State := { s with epoll := s.epoll ++ [c] }

/-- `epoll_ctl(.., EPOLL_CTL_DEL, ..)`; the server goes on when it fails. -/
def unregister (s : State) (c : Nat) (fails : Bool) : State :=
  { s with epoll := if fails then s.epoll else s.epoll.erase c }

/-- The call that destroys `h`. A channel that goes closes its descriptor, which
epoll then drops. -/
def destroy (s : State) (h : Handle) : State :=
  { s.use (IsLive s.objs h) (.object h) with
    objs := Objects.destroy s.objs h,
    epoll := if Busy s.objs h then s.epoll else s.epoll.filter fun c => .cc c ≠ h }

def freeConn (s : State) (n : Nc) : State :=
  { s.use (s.conns n).isSome (.conn n) with conns := Function.update s.conns n none }

def freeCtx (s : State) (k : Ctx) : State :=
  { s.use (s.ctxs k).isSome (.ctx k) with ctxs := Function.update s.ctxs k none }

end State

/-- The order in which the objects of a connection are destroyed. -/
def teardownOrder (h : Handles) : List Handle :=
  [.qp h.qp, .cq h.cq, .mr h.sendMr, .mr h.recvMr, .buff h.sendBuff, .buff h.recvBuff, .cc h.cc,
    .pd h.pd]

def teardown (s : State) (h : Handles) : State := (teardownOrder h).foldl State.destroy s

/-- `setup_connection`, when no call in it fails. -/
def setupConnection (s : State) (x : Id) (r : Returns) : State :=
  { s.use (s.ids x).isSome (.id x) with
    conns := Function.update s.conns r.nc (some r.handles),
    objs := s.objs ++ r.handles.objects }

def handleNewRequest (s : State) (k : Ctx) (r : Returns) : State :=
  match s.ctxs k, r.failed with
  | none, _ => s.crash (.ctx k)
  | some _, some call => s.die call.reason
  | some cctx, none =>
    ((setupConnection s cctx.id r).register r.handles.cc).setCtx k
      { cctx with conn := some r.nc, state := some .accepting }

/-- `case RDMA_CM_EVENT_CONNECT_REQUEST`. `rdma_get_cm_event` has created the id,
and a rejected one stays. -/
def connectRequest (s : State) (x : Id) (r : Returns) : State :=
  let t := { s with ids := Function.update s.ids x (some none) }
  match r.ctx with
  | none => t
  | some k =>
    handleNewRequest ((t.setCtx k ⟨x, none, none⟩).setContext x (some k)) k r

/-- `case RDMA_CM_EVENT_ESTABLISHED`. A `context` of NULL is not checked for. -/
def established (s : State) (x : Id) : State :=
  match s.ids x with
  | none => s.crash (.id x)
  | some none => { s with status := .undefined }
  | some (some k) =>
    match s.ctxs k with
    | none => s.crash (.ctx k)
    | some cctx => s.setCtx k { cctx with state := some .established }

/-- `case RDMA_CM_EVENT_DISCONNECTED`. The last line but one writes to the id
that has been destroyed. -/
def disconnected (s : State) (x : Id) (r : Returns) : State :=
  match s.ids x with
  | none => s.crash (.id x)
  -- `if (cctx == NULL) break`.
  | some none => s
  | some (some k) =>
    match s.ctxs k with
    | none => s.crash (.ctx k)
    | some cctx =>
      let t := (s.setCtx k { cctx with state := some .disconnected }).destroyId cctx.id
      match cctx.conn with
      -- A `conn` that `handle_new_request` has not set.
      | none => { t with status := .undefined }
      | some n =>
        match s.conns n with
        | none => t.crash (.conn n)
        | some h =>
          ((((teardown (t.unregister h.cc r.delFails) h).freeConn n).setContext x none).freeCtx k)

/-- `handle_cm_event`, for an event `rdma_get_cm_event` has returned. The
`default` branch logs `event->event`, which `rdma_ack_cm_event` has released. -/
def handleCmEvent (s : State) (e : CmEvent) (r : Returns) : State :=
  match e.event with
  | .connectRequest => connectRequest s e.id r
  | .established => established s e.id
  | .disconnected => disconnected s e.id r
  | _ => s.use false .event

/-! ## The events that occur -/

/-- Where an id is between its events. -/
inductive Phase where
  /-- Behind `CONNECT_REQUEST`. -/
  | requested
  | established
  deriving DecidableEq, Repr

/-- The state that goes with the phase. -/
def Phase.state : Phase → ConnState
  | .requested => .accepting
  | .established => .established

/-- The server, and what each id has seen; `none` is an id before its
`CONNECT_REQUEST` or behind its `DISCONNECTED`. -/
structure System where
  server : State
  phase : Id → Option Phase

def System.initial : System := { server := .initial, phase := fun _ => none }

/-- What `malloc` and libibverbs return is not live already. -/
def Fresh (s : State) (r : Returns) : Prop :=
  (∀ k ∈ r.ctx, s.ctxs k = none) ∧ s.conns r.nc = none ∧ (∀ h ∈ r.handles.all, ¬IsLive s.objs h) ∧
    r.handles.Distinct

instance (s : State) (r : Returns) : Decidable (Fresh s r) := inferInstanceAs (Decidable (_ ∧ _))

/-- Each id sees `CONNECT_REQUEST`, then at most one `ESTABLISHED`, then at most
one `DISCONNECTED`; its address may come back when it has been destroyed. -/
def Allowed (s : System) (e : CmEvent) (r : Returns) : Prop :=
  match e.event with
  | .connectRequest => s.server.ids e.id = none ∧ Fresh s.server r
  | .established => s.phase e.id = some .requested
  | .disconnected => s.phase e.id ≠ none
  | _ => True

instance (s : System) (e : CmEvent) (r : Returns) : Decidable (Allowed s e r) := by
  unfold Allowed
  split <;> infer_instance

/-- What the id has seen, the event included. One whose request was rejected
sees no other. -/
def nextPhase (s : System) (e : CmEvent) (r : Returns) : Id → Option Phase :=
  match e.event with
  | .connectRequest => Function.update s.phase e.id (r.ctx.map fun _ => .requested)
  | .established => Function.update s.phase e.id (some .established)
  | .disconnected => Function.update s.phase e.id none
  | _ => s.phase

/-- One call of `handle_cm_event`. -/
def step (s : System) (a : CmEvent × Returns) : Option System :=
  if s.server.status = .running ∧ Allowed s a.1 a.2 then
    some { server := handleCmEvent s.server a.1 a.2, phase := nextPhase s a.1 a.2 }
  else none

end RdmaTutorial.Rdmacm05.CmEvents
