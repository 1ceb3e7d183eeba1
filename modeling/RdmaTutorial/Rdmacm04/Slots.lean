import Mathlib.Logic.Function.Basic
import RdmaTutorial.Lib.Run
import RdmaTutorial.Peer
import RdmaTutorial.Resources

/-!
# rdmacm04/server.c: the slots

The event thread runs `cm_event_loop` and starts a worker, `handle_request`, for
each request it has a slot of `g_ctxs` for. Nothing but the program order keeps
the threads apart, so each access to a field of `g_ctxs` is a step of its own,
and a run is any interleaving of the event thread with the workers.

The loop of a worker over its completions is one program point here; it is in
`RdmaTutorial.EchoLoop`. Nothing is asked of the events: what librdmacm promises
is for the results that rest on it to say.
-/

namespace RdmaTutorial.Rdmacm04

/-- `MAX_THREADS`. -/
def maxThreads : Nat := 10

/-- An index into `g_ctxs`. -/
abbrev Index := Fin maxThreads

instance : NeZero maxThreads := ⟨by decide⟩

/-- `g_ctxs[n]`, for `n` inside the array. -/
def index? (n : Nat) : Option Index := if h : n < maxThreads then some ⟨n, h⟩ else none

theorem index?_eq_some {n : Nat} {k : Index} (h : index? n = some k) : n = k := by
  unfold index? at h
  split at h
  · cases h; rfl
  · cases h

/-- A connection, as the network knows it: the address of its id may be that of
an earlier one. -/
abbrev Conn := Nat

/-- `sem_t`. `sem_destroy` leaves the counter as it is. -/
structure Sem where
  alive : Bool
  value : Nat
  deriving DecidableEq, Repr

/-- `struct thread_context`. -/
structure Slot where
  id : Option Id
  established : Sem
  ctxIndex : Nat
  deriving DecidableEq, Repr

/-- `struct rdma_cm_event`. `conn` is a history variable. -/
structure CmEvent where
  event : CmEventType
  id : Id
  conn : Conn
  deriving DecidableEq, Repr

/-- The next statement of `cm_event_loop`. -/
inductive LoopPc where
  /-- `rdma_get_cm_event`. -/
  | getEvent
  /-- `g_ctxs[i].id == NULL`. -/
  | scan (e : CmEvent) (i : Nat)
  /-- `g_ctxs[i].id = event->id`. -/
  | storeId (e : CmEvent) (k : Index)
  /-- `g_ctxs[i].ctx_index = i`. -/
  | storeIndex (e : CmEvent) (k : Index)
  | semInit (e : CmEvent) (k : Index)
  /-- `pthread_create`. -/
  | create (e : CmEvent) (k : Index)
  /-- `rdma_reject`. -/
  | reject (e : CmEvent)
  /-- `g_ctxs[i].id == event->id`. -/
  | find (e : CmEvent) (i : Nat)
  | semPost (e : CmEvent) (k : Index)
  /-- `rdma_ack_cm_event`; `stop` is `should_break`. -/
  | ack (stop : Bool)
  /-- In `main`, behind `cm_event_loop`. -/
  | returned
  deriving DecidableEq, Repr

/-- The next statement of `handle_request`. -/
inductive WorkerPc where
  /-- `setup_connection(ctx->id)`. -/
  | setup
  /-- `rdma_accept(ctx->id, ..)`. -/
  | accept
  /-- `sem_wait(&ctx->established)`. -/
  | semWait
  /-- `while (i < 10)`. -/
  | loop
  /-- `rdma_disconnect(ctx->id)`. -/
  | disconnect
  /-- `rdma_destroy_id(ctx->id)`. -/
  | destroyId
  /-- What `setup_connection` created is released. -/
  | teardown
  /-- The read of `ctx->ctx_index` for the store of NULL. -/
  | loadIndex
  /-- `g_ctxs[n].id = NULL`. -/
  | clear (n : Nat)
  /-- The read of `ctx->ctx_index` for `sem_destroy`. -/
  | loadIndexAgain
  /-- `sem_destroy(&g_ctxs[n].established)`. -/
  | semDestroy (n : Nat)
  | done
  deriving DecidableEq, Repr

/-- The worker has not executed its store of NULL. -/
def WorkerPc.serving : WorkerPc → Bool
  | .loadIndexAgain => false
  | .semDestroy _ => false
  | .done => false
  | _ => true

/-- A thread in `handle_request`; `ctx` is `&g_ctxs[ctx]`. `id` and `conn` are
history variables: those of the request it was created for. -/
structure Worker where
  ctx : Index
  pc : WorkerPc
  id : Id
  conn : Conn
  deriving DecidableEq, Repr

inductive Status where
  | running
  | died (reason : String)
  /-- `main` has returned. -/
  | exited
  /-- The program has used memory it does not own. -/
  | undefined
  deriving DecidableEq, Repr

/-- `ids` are the live ids with their connections. The workers are numbered in
the order of their creation. -/
structure State where
  status : Status
  slots : Index → Slot
  loop : LoopPc
  workers : Nat → Option Worker
  created : Nat
  ids : Id → Option Conn

inductive Action where
  /-- `rdma_get_cm_event` returns `e`. -/
  | cmEvent (e : CmEvent)
  /-- The event thread's next statement, and what the call in it returned. -/
  | loop (r : Result)
  /-- The next statement of worker `t`. -/
  | worker (t : Nat) (r : Result)
  /-- A call of worker `t` fails that `handle_request` does not go on without. -/
  | dies (t : Nat) (reason : String)
  deriving DecidableEq, Repr

def getEventDie : String := ifNzeroDie "rdma_get_cm_event(ec, &event)"

namespace State

/-- `main` has stored NULL in each slot and calls `cm_event_loop`. -/
def initial : State :=
  { status := .running, slots := fun _ => ⟨none, ⟨false, 0⟩, 0⟩, loop := .getEvent,
    workers := fun _ => none, created := 0, ids := fun _ => none }

def goto (s : State) (pc : LoopPc) : State := { s with loop := pc }

def setSlot (s : State) (k : Index) (c : Slot) : State :=
  { s with slots := Function.update s.slots k c }

def setSem (s : State) (k : Index) (m : Sem) : State :=
  s.setSlot k { s.slots k with established := m }

@[simp] theorem setSem_id (s : State) (k j : Index) (m : Sem) :
    ((s.setSem k m).slots j).id = (s.slots j).id := by
  by_cases hj : j = k
  · subst hj; simp [setSem, setSlot]
  · simp [setSem, setSlot, hj]

@[simp] theorem setSem_ctxIndex (s : State) (k j : Index) (m : Sem) :
    ((s.setSem k m).slots j).ctxIndex = (s.slots j).ctxIndex := by
  by_cases hj : j = k
  · subst hj; simp [setSem, setSlot]
  · simp [setSem, setSlot, hj]

def setWorker (s : State) (t : Nat) (w : Worker) : State :=
  { s with workers := Function.update s.workers t (some w) }

def workerTo (s : State) (t : Nat) (w : Worker) (pc : WorkerPc) : State :=
  s.setWorker t { w with pc := pc }

def setStatus (s : State) (st : Status) : State := { s with status := st }

/-- A use of `g_ctxs[k].id`, which may be NULL. -/
def withId (s : State) (k : Index) (f : Id → State) : State :=
  match (s.slots k).id with
  | none => s.setStatus .undefined
  | some x => f x

/-- A use of `g_ctxs[n]`. -/
def withSlot (s : State) (n : Nat) (f : Index → State) : State :=
  match index? n with
  | none => s.setStatus .undefined
  | some k => f k

end State

/-- What the event thread turns to for an event. -/
def dispatchPc (e : CmEvent) : LoopPc :=
  match e.event with
  | .connectRequest => .scan e 0
  | .established => .find e 0
  | .disconnected => .ack false
  | _ => .ack true

/-- `rdma_get_cm_event` creates the id of a request. -/
def announced (s : State) (e : CmEvent) : Id → Option Conn :=
  if e.event = .connectRequest then Function.update s.ids e.id (some e.conn) else s.ids

/-- `cm_event_loop`, without `rdma_get_cm_event`. -/
def loopStep (s : State) (r : Result) : Option State :=
  match s.loop with
  | .getEvent => if r = .fail then some (s.setStatus (.died getEventDie)) else none
  | .scan e i =>
    match index? i with
    -- `i == MAX_THREADS`.
    | none => some (s.goto (.reject e))
    | some k => some (s.goto (if (s.slots k).id = none then .storeId e k else .scan e (i + 1)))
  | .storeId e k => some ((s.setSlot k { s.slots k with id := some e.id }).goto (.storeIndex e k))
  | .storeIndex e k => some ((s.setSlot k { s.slots k with ctxIndex := k }).goto (.semInit e k))
  | .semInit e k => some ((s.setSem k ⟨true, 0⟩).goto (.create e k))
  | .create e k =>
    match r with
    | .ok =>
      some { s with
        workers := Function.update s.workers s.created
          (some { ctx := k, pc := .setup, id := e.id, conn := e.conn }),
        created := s.created + 1,
        loop := .ack false }
    -- The slot keeps what has been stored in it.
    | .fail => some (s.goto (.reject e))
  | .reject _ => some (s.goto (.ack false))
  | .find e i =>
    match index? i with
    -- No slot has this id: nobody is told.
    | none => some (s.goto (.ack false))
    | some k =>
      some (s.goto (if (s.slots k).id = some e.id then .semPost e k else .find e (i + 1)))
  | .semPost _ k =>
    some ((s.setSem k { (s.slots k).established with
      value := (s.slots k).established.value + 1 }).goto (.ack false))
  | .ack stop => some (s.goto (if stop then .returned else .getEvent))
  | .returned => some (s.setStatus .exited)

/-- `handle_request`. -/
def workerStep (s : State) (t : Nat) (w : Worker) (r : Result) : Option State :=
  match w.pc with
  | .setup => some (s.withId w.ctx fun _ => s.workerTo t w .accept)
  | .accept => some (s.withId w.ctx fun _ => s.workerTo t w .semWait)
  | .semWait =>
    match r with
    | .ok =>
      if 0 < (s.slots w.ctx).established.value then
        some ((s.setSem w.ctx { (s.slots w.ctx).established with
          value := (s.slots w.ctx).established.value - 1 }).workerTo t w .loop)
      else none
    -- Interrupted: what `sem_wait` returns is not looked at.
    | .fail => some (s.workerTo t w .loop)
  | .loop => some (s.workerTo t w .disconnect)
  | .disconnect => some (s.withId w.ctx fun _ => s.workerTo t w .destroyId)
  | .destroyId =>
    some (s.withId w.ctx fun x =>
      { s with ids := Function.update s.ids x none }.workerTo t w .teardown)
  | .teardown => some (s.workerTo t w .loadIndex)
  | .loadIndex => some (s.workerTo t w (.clear (s.slots w.ctx).ctxIndex))
  | .clear n =>
    some (s.withSlot n fun k =>
      (s.setSlot k { s.slots k with id := none }).workerTo t w .loadIndexAgain)
  | .loadIndexAgain => some (s.workerTo t w (.semDestroy (s.slots w.ctx).ctxIndex))
  | .semDestroy n =>
    some (s.withSlot n fun k =>
      (s.setSem k { (s.slots k).established with alive := false }).workerTo t w .done)
  | .done => none

/-- Whether a failing call ends the process where the worker is. -/
def WorkerPc.mayDie : WorkerPc → Bool
  | .setup => true
  | .accept => true
  | .loop => true
  | _ => false

def step (s : State) (a : Action) : Option State :=
  if s.status = .running then
    match a with
    | .cmEvent e =>
      if s.loop = .getEvent then
        some { s with loop := dispatchPc e, ids := announced s e }
      else none
    | .loop r => loopStep s r
    | .worker t r => (s.workers t).bind fun w => workerStep s t w r
    | .dies t reason =>
      (s.workers t).bind fun w =>
        if w.pc.mayDie then some (s.setStatus (.died reason)) else none
  else none

/-! ## What each step does -/

/-- The statements of the event thread that change nothing but where it is. -/
inductive LoopMoves (slots : Index → Slot) : Result → LoopPc → LoopPc → Prop where
  | scanFull {r e i} (hi : index? i = none) : LoopMoves slots r (.scan e i) (.reject e)
  | scanFree {r e i k} (hk : index? i = some k) (hfree : (slots k).id = none) :
      LoopMoves slots r (.scan e i) (.storeId e k)
  | scanNext {r e i k} (hk : index? i = some k) (hused : (slots k).id ≠ none) :
      LoopMoves slots r (.scan e i) (.scan e (i + 1))
  | createFails {e k} : LoopMoves slots .fail (.create e k) (.reject e)
  | reject {r e} : LoopMoves slots r (.reject e) (.ack false)
  | findNone {r e i} (hi : index? i = none) : LoopMoves slots r (.find e i) (.ack false)
  | findHit {r e i k} (hk : index? i = some k) (hid : (slots k).id = some e.id) :
      LoopMoves slots r (.find e i) (.semPost e k)
  | findNext {r e i k} (hk : index? i = some k) (hid : (slots k).id ≠ some e.id) :
      LoopMoves slots r (.find e i) (.find e (i + 1))
  | next {r} : LoopMoves slots r (.ack false) .getEvent
  | stop {r} : LoopMoves slots r (.ack true) .returned

/-- The statements of a worker that change nothing but where it is; `c` is its
slot. -/
inductive WorkerMoves (c : Slot) : Result → WorkerPc → WorkerPc → Prop where
  | setup {r} (hid : c.id ≠ none) : WorkerMoves c r .setup .accept
  | accept {r} (hid : c.id ≠ none) : WorkerMoves c r .accept .semWait
  | interrupted : WorkerMoves c .fail .semWait .loop
  | loop {r} : WorkerMoves c r .loop .disconnect
  | disconnect {r} (hid : c.id ≠ none) : WorkerMoves c r .disconnect .destroyId
  | teardown {r} : WorkerMoves c r .teardown .loadIndex
  | loadIndex {r} : WorkerMoves c r .loadIndex (.clear c.ctxIndex)
  | loadIndexAgain {r} : WorkerMoves c r .loadIndexAgain (.semDestroy c.ctxIndex)

/-- `step`, statement by statement. -/
inductive Step (s : State) : Action → State → Prop where
  | cmEvent {e} (hloop : s.loop = .getEvent) :
      Step s (.cmEvent e) { s with loop := dispatchPc e, ids := announced s e }
  | loopMoves {r pc} (hmove : LoopMoves s.slots r s.loop pc) : Step s (.loop r) (s.goto pc)
  | storeId {r e k} (hloop : s.loop = .storeId e k) :
      Step s (.loop r) ((s.setSlot k { s.slots k with id := some e.id }).goto (.storeIndex e k))
  | storeIndex {r e k} (hloop : s.loop = .storeIndex e k) :
      Step s (.loop r) ((s.setSlot k { s.slots k with ctxIndex := k }).goto (.semInit e k))
  | semInit {r e k} (hloop : s.loop = .semInit e k) :
      Step s (.loop r) ((s.setSem k ⟨true, 0⟩).goto (.create e k))
  | create {e k} (hloop : s.loop = .create e k) :
      Step s (.loop .ok) { s with
        workers := Function.update s.workers s.created
          (some { ctx := k, pc := .setup, id := e.id, conn := e.conn }),
        created := s.created + 1,
        loop := .ack false }
  | semPost {r e k} (hloop : s.loop = .semPost e k) :
      Step s (.loop r) ((s.setSem k { (s.slots k).established with
        value := (s.slots k).established.value + 1 }).goto (.ack false))
  | workerMoves {t w r pc} (hw : s.workers t = some w)
      (hmove : WorkerMoves (s.slots w.ctx) r w.pc pc) :
      Step s (.worker t r) (s.workerTo t w pc)
  | semWait {t w} (hw : s.workers t = some w) (hpc : w.pc = .semWait)
      (hpos : 0 < (s.slots w.ctx).established.value) :
      Step s (.worker t .ok) ((s.setSem w.ctx { (s.slots w.ctx).established with
        value := (s.slots w.ctx).established.value - 1 }).workerTo t w .loop)
  | destroyId {t w r x} (hw : s.workers t = some w) (hpc : w.pc = .destroyId)
      (hx : (s.slots w.ctx).id = some x) :
      Step s (.worker t r)
        ({ s with ids := Function.update s.ids x none }.workerTo t w .teardown)
  | clear {t w r n k} (hw : s.workers t = some w) (hpc : w.pc = .clear n)
      (hk : index? n = some k) :
      Step s (.worker t r)
        ((s.setSlot k { s.slots k with id := none }).workerTo t w .loadIndexAgain)
  | semDestroy {t w r n k} (hw : s.workers t = some w) (hpc : w.pc = .semDestroy n)
      (hk : index? n = some k) :
      Step s (.worker t r)
        ((s.setSem k { (s.slots k).established with alive := false }).workerTo t w .done)
  | ends {a st} (hst : st ≠ Status.running) : Step s a (s.setStatus st)

theorem Step.of_loopStep {s t : State} {r : Result} (h : loopStep s r = some t) :
    Step s (.loop r) t := by
  unfold loopStep at h
  split at h
  case h_1 =>
    split at h
    · cases h; exact .ends (by simp)
    · cases h
  case h_2 e i hloop =>
    cases hi : index? i with
    | none =>
      simp only [hi, Option.some.injEq] at h
      exact h ▸ .loopMoves (hloop ▸ .scanFull hi)
    | some k =>
      simp only [hi, Option.some.injEq] at h
      split at h
      · exact h ▸ .loopMoves (hloop ▸ .scanFree hi ‹_›)
      · exact h ▸ .loopMoves (hloop ▸ .scanNext hi ‹_›)
  case h_3 hloop => cases h; exact .storeId hloop
  case h_4 hloop => cases h; exact .storeIndex hloop
  case h_5 hloop => cases h; exact .semInit hloop
  case h_6 hloop =>
    cases r with
    | ok => cases h; exact .create hloop
    | fail => cases h; exact .loopMoves (hloop ▸ .createFails)
  case h_7 hloop => cases h; exact .loopMoves (hloop ▸ .reject)
  case h_8 e i hloop =>
    cases hi : index? i with
    | none =>
      simp only [hi, Option.some.injEq] at h
      exact h ▸ .loopMoves (hloop ▸ .findNone hi)
    | some k =>
      simp only [hi, Option.some.injEq] at h
      split at h
      · exact h ▸ .loopMoves (hloop ▸ .findHit hi ‹_›)
      · exact h ▸ .loopMoves (hloop ▸ .findNext hi ‹_›)
  case h_9 hloop => cases h; exact .semPost hloop
  case h_10 stop hloop =>
    cases stop with
    | false => cases h; exact .loopMoves (hloop ▸ .next)
    | true => cases h; exact .loopMoves (hloop ▸ .stop)
  case h_11 => cases h; exact .ends (by simp)

/-- A statement that needs `ctx->id`: it ends the process if that is NULL. -/
theorem Step.of_withId {s t : State} {a : Action} {k : Index} {f : Id → State}
    (h : s.withId k f = t) (hf : ∀ x, (s.slots k).id = some x → Step s a (f x)) : Step s a t := by
  subst h
  unfold State.withId
  split
  · exact .ends (by simp)
  · exact hf _ ‹_›

theorem Step.of_withSlot {s t : State} {a : Action} {n : Nat} {f : Index → State}
    (h : s.withSlot n f = t) (hf : ∀ k, index? n = some k → Step s a (f k)) : Step s a t := by
  subst h
  unfold State.withSlot
  split
  · exact .ends (by simp)
  · exact hf _ ‹_›

theorem Step.of_workerStep {s u : State} {t : Nat} {w : Worker} {r : Result}
    (hw : s.workers t = some w) (h : workerStep s t w r = some u) : Step s (.worker t r) u := by
  unfold workerStep at h
  split at h
  case h_1 hpc =>
    exact .of_withId (Option.some.inj h) fun x hx =>
      .workerMoves hw (hpc ▸ .setup (by simp [hx]))
  case h_2 hpc =>
    exact .of_withId (Option.some.inj h) fun x hx =>
      .workerMoves hw (hpc ▸ .accept (by simp [hx]))
  case h_3 hpc =>
    cases r with
    | ok =>
      simp only at h
      split at h
      · cases h; exact .semWait hw hpc ‹_›
      · cases h
    | fail => cases h; exact .workerMoves hw (hpc ▸ .interrupted)
  case h_4 hpc => cases h; exact .workerMoves hw (hpc ▸ .loop)
  case h_5 hpc =>
    exact .of_withId (Option.some.inj h) fun x hx =>
      .workerMoves hw (hpc ▸ .disconnect (by simp [hx]))
  case h_6 hpc => exact .of_withId (Option.some.inj h) fun x hx => .destroyId hw hpc hx
  case h_7 hpc => cases h; exact .workerMoves hw (hpc ▸ .teardown)
  case h_8 hpc => cases h; exact .workerMoves hw (hpc ▸ .loadIndex)
  case h_9 n hpc => exact .of_withSlot (Option.some.inj h) fun k hk => .clear hw hpc hk
  case h_10 hpc => cases h; exact .workerMoves hw (hpc ▸ .loadIndexAgain)
  case h_11 n hpc => exact .of_withSlot (Option.some.inj h) fun k hk => .semDestroy hw hpc hk
  case h_12 => cases h

theorem Step.of_step {s t : State} {a : Action} (h : step s a = some t) : Step s a t := by
  unfold step at h
  split at h
  case isFalse => cases h
  cases a with
  | cmEvent e =>
    simp only at h
    split at h
    · cases h; exact .cmEvent ‹_›
    · cases h
  | loop r => exact .of_loopStep h
  | worker t r =>
    obtain ⟨w, hw, h⟩ := Option.bind_eq_some_iff.mp h
    exact .of_workerStep hw h
  | dies t reason =>
    obtain ⟨w, hw, h⟩ := Option.bind_eq_some_iff.mp h
    split at h
    · cases h; exact .ends (by simp)
    · cases h

end RdmaTutorial.Rdmacm04
