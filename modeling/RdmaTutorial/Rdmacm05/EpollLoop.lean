import RdmaTutorial.Rdmacm05.Table

/-!
# rdmacm05/server.c: the main loop

`epoll_wait` fills `events` with pointers, and the `for` loop hands each to
`handle_cm_event` or `handle_cq_event`. The pointers are as old as the call of
`epoll_wait`: a `DISCONNECTED` handled for one entry destroys the channel that
an entry behind it may name.
-/

namespace RdmaTutorial.Rdmacm05.EpollLoop

open CmEvents

/-- `events[i].data.ptr`: the event channel, or a completion channel. -/
inductive Ready where
  | ec
  | channel (c : Nat)
  deriving DecidableEq, Repr

/-- `MAX_EVENTS`. -/
def maxEvents : Nat := 16

/-- `batch` is what the `for` loop has not looked at yet. -/
structure State where
  sys : System
  batch : List Ready

inductive Action where
  /-- `epoll_wait` returns, with `events`. -/
  | wait (events : List Ready)
  /-- `handle_cm_event(ec)`. -/
  | cmEvent (e : CmEvent) (r : Returns)
  /-- `handle_cm_event(ec)`, when `rdma_get_cm_event` fails. -/
  | noCmEvent
  /-- `handle_cq_event(ptr)`; it may end the process. -/
  | cqEvent (dies : Option String)
  deriving DecidableEq, Repr

namespace State

def initial : State := { sys := .initial, batch := [] }

def status (s : State) : Status := s.sys.server.status

def setStatus (s : State) (t : Status) : State :=
  { s with sys := { s.sys with server := { s.sys.server with status := t } } }

end State

/-- What `epoll_wait` may return: any of the registered descriptors, in any
order, each once. -/
def CanReturn (s : State) (events : List Ready) : Prop :=
  events.length ≤ maxEvents ∧ events.Nodup ∧
    ∀ p ∈ events, p = .ec ∨ ∃ c ∈ s.sys.server.epoll, p = .channel c

instance (s : State) (events : List Ready) : Decidable (CanReturn s events) :=
  inferInstanceAs (Decidable (_ ∧ _))

/-- `handle_cq_event` keeps to the connections; a channel that is not alive is
memory the program does not own. -/
def handleCqEvent (s : State) (c : Nat) (dies : Option String) : State :=
  if Objects.IsLive s.sys.server.objs (.cc c) then
    match dies with
    | none => s
    | some reason => s.setStatus (.died reason)
  else s.setStatus .undefined

def step (s : State) (a : Action) : Option State :=
  if s.status = .running then
    match a, s.batch with
    | .wait events, [] => if CanReturn s events then some { s with batch := events } else none
    | .cmEvent e r, .ec :: rest => (CmEvents.step s.sys (e, r)).map fun t => ⟨t, rest⟩
    -- What `handle_cm_event` returns is not looked at.
    | .noCmEvent, .ec :: rest => some { s with batch := rest }
    | .cqEvent dies, .channel c :: rest => some (handleCqEvent { s with batch := rest } c dies)
    | _, _ => none
  else none

/-- The loop is about to call `handle_cq_event(c)`. -/
def Calls (s : State) (c : Nat) : Prop := s.status = .running ∧ s.batch.head? = some (.channel c)

instance (s : State) (c : Nat) : Decidable (Calls s c) := inferInstanceAs (Decidable (_ ∧ _))

/-- `c` is the completion channel of a connection between its `CONNECT_REQUEST`
and its `DISCONNECTED`. -/
def OfOpenConnection (s : State) (c : Nat) : Prop := ∃ x k n h, Open s.sys x k n h ∧ h.cc = c

/-- The channel behind an id's `context`. -/
def channelOf (s : CmEvents.State) (x : Id) : Option Nat :=
  (s.ids x).join.bind fun k => (s.ctxs k).bind fun cctx => cctx.conn.bind fun n =>
    (s.conns n).map (·.cc)

/-- A `DISCONNECTED` is handled only while no entry of the batch names the
channel of its connection. -/
def Spares (s : State) (a : Action) : Prop :=
  match a with
  | .cmEvent ⟨.disconnected, x⟩ _ => ∀ c ∈ channelOf s.sys.server x, .channel c ∉ s.batch
  | _ => True

instance (s : State) (a : Action) : Decidable (Spares s a) := by
  unfold Spares
  split <;> infer_instance

/-! ## What each step does -/

section Steps

variable {s t : State}

theorem wait_eq_some {events : List Ready} (h : step s (.wait events) = some t) :
    s.batch = [] ∧ CanReturn s events ∧ t = { s with batch := events } := by
  simp only [step] at h
  cases hb : s.batch <;> simp_all [eq_comm]

theorem cmEvent_eq_some {e : CmEvent} {r : Returns} (h : step s (.cmEvent e r) = some t) :
    ∃ rest u, s.batch = .ec :: rest ∧ CmEvents.step s.sys (e, r) = some u ∧ t = ⟨u, rest⟩ := by
  simp only [step] at h
  split at h
  case isFalse => cases h
  cases hb : s.batch with
  | nil => simp [hb] at h
  | cons p rest =>
    cases p with
    | channel c => simp [hb] at h
    | ec =>
      simp only [hb, Option.map_eq_some_iff] at h
      obtain ⟨u, hu, rfl⟩ := h
      exact ⟨rest, u, rfl, hu, rfl⟩

theorem noCmEvent_eq_some (h : step s .noCmEvent = some t) :
    ∃ rest, s.batch = .ec :: rest ∧ t = { s with batch := rest } := by
  simp only [step] at h
  split at h
  case isFalse => cases h
  cases hb : s.batch with
  | nil => simp [hb] at h
  | cons p rest =>
    cases p with
    | channel c => simp [hb] at h
    | ec =>
      simp only [hb, Option.some.injEq] at h
      exact ⟨rest, rfl, h.symm⟩

theorem cqEvent_eq_some {dies : Option String} (h : step s (.cqEvent dies) = some t) :
    ∃ c rest, s.batch = .channel c :: rest ∧
      t = handleCqEvent { s with batch := rest } c dies := by
  simp only [step] at h
  split at h
  case isFalse => cases h
  cases hb : s.batch with
  | nil => simp [hb] at h
  | cons p rest =>
    cases p with
    | ec => simp [hb] at h
    | channel c =>
      simp only [hb, Option.some.injEq] at h
      exact ⟨c, rest, rfl, h.symm⟩

end Steps

/-! ## What the batch names -/

theorem channelOf_eq {T : Table} {s : System} (hT : Represents T s) {x : Id} {e : Entry}
    (hx : T x = some e) : channelOf s.server x = some e.handles.cc := by
  simp [channelOf, hT.ids x e hx, hT.context x e hx, hT.conn x e hx, Entry.context]

/-- Only the `DISCONNECTED` of its own connection takes a channel out of
`epoll_fd`. -/
theorem registered_step {s t : System} {e : CmEvent} {r : Returns} (hs : Holds s)
    (h : CmEvents.step s (e, r) = some t) (hrun : t.server.status = .running) {c : Nat}
    (hc : c ∈ s.server.epoll)
    (hkeep : e.event = .disconnected → channelOf s.server e.id ≠ some c) :
    c ∈ t.server.epoll := by
  obtain ⟨hrunning, hallowed, rfl⟩ := step_eq_some h
  obtain ⟨T, hT⟩ := hs hrunning
  obtain ⟨ev, x⟩ := e
  cases ev with
  | connectRequest =>
    cases hk : r.ctx with
    | none => simpa [handleCmEvent, connectRequest, hk] using hc
    | some k =>
      cases hf : r.failed with
      | none => simp [handleCmEvent, Represents.connectRequest_ok s.server hk hf, hc]
      | some call =>
        have hdied := connectRequest_dies s.server (x := x) hk hf
        exact absurd (hdied.symm.trans hrun) (by simp)
  | established =>
    have hphase : s.phase x = some .requested := hallowed
    obtain ⟨e, hx⟩ := hT.entry_of_phase (x := x) (by simp [hphase])
    simpa [handleCmEvent, hT.established_eq hx, CmEvents.State.setCtx] using hc
  | disconnected =>
    obtain ⟨e, hx⟩ := hT.entry_of_phase hallowed
    have hne : c ≠ e.handles.cc := by
      rintro rfl
      exact hkeep rfl (channelOf_eq hT hx)
    exact ((hT.disconnected_removed hx r).mem_epoll c).mpr ⟨hc, hne⟩
  | _ => exact hc

/-- `handle_cq_event` leaves the table alone, or the process ends in it. -/
theorem handleCqEvent_cases (s : State) (c : Nat) (dies : Option String) :
    handleCqEvent s c dies = s ∨ (handleCqEvent s c dies).status ≠ .running := by
  simp only [handleCqEvent]
  split
  · cases dies with
    | none => exact .inl rfl
    | some reason => exact .inr (by simp [State.status, State.setStatus])
  · exact .inr (by simp [State.status, State.setStatus])

/-- In either case it opens and closes nothing. -/
theorem handleCqEvent_table (s : State) (c : Nat) (dies : Option String) :
    (handleCqEvent s c dies).sys.server.conns = s.sys.server.conns ∧
      (handleCqEvent s c dies).sys.server.objs = s.sys.server.objs := by
  simp only [handleCqEvent]
  split
  · cases dies <;> exact ⟨rfl, rfl⟩
  · exact ⟨rfl, rfl⟩

@[simp] theorem handleCqEvent_batch (s : State) (c : Nat) (dies : Option String) :
    (handleCqEvent s c dies).batch = s.batch := by
  simp only [handleCqEvent]
  split
  · cases dies <;> rfl
  · rfl

/-- `step`, by what it does to the batch and to the table. -/
inductive Step (s : State) : Action → State → Prop where
  | wait {events} (hcan : CanReturn s events) : Step s (.wait events) { s with batch := events }
  | cmEvent {e r t rest} (hbatch : s.batch = .ec :: rest)
      (ht : CmEvents.step s.sys (e, r) = some t) : Step s (.cmEvent e r) ⟨t, rest⟩
  | pop {a p rest} (hbatch : s.batch = p :: rest) : Step s a { s with batch := rest }
  | ends {a t} (ht : State.status t ≠ .running) : Step s a t

theorem Step.of_step {s t : State} {a : Action} (h : step s a = some t) : Step s a t := by
  cases a with
  | wait events =>
    obtain ⟨-, hcan, rfl⟩ := wait_eq_some h
    exact .wait hcan
  | cmEvent e r =>
    obtain ⟨rest, u, hbatch, hu, rfl⟩ := cmEvent_eq_some h
    exact .cmEvent hbatch hu
  | noCmEvent =>
    obtain ⟨rest, hbatch, rfl⟩ := noCmEvent_eq_some h
    exact .pop hbatch
  | cqEvent dies =>
    obtain ⟨c, rest, hbatch, rfl⟩ := cqEvent_eq_some h
    rcases handleCqEvent_cases { s with batch := rest } c dies with heq | hends
    · rw [heq]
      exact .pop hbatch
    · exact .ends hends

/-- A handler is called for the first entry of the batch. -/
theorem batch_eq_cons {s t : State} {a : Action} (h : step s a = some t)
    (hwait : ∀ events, a ≠ .wait events) : ∃ p, s.batch = p :: t.batch := by
  cases a with
  | wait events => exact absurd rfl (hwait events)
  | cmEvent e r =>
    obtain ⟨rest, u, hbatch, -, rfl⟩ := cmEvent_eq_some h
    exact ⟨_, hbatch⟩
  | noCmEvent =>
    obtain ⟨rest, hbatch, rfl⟩ := noCmEvent_eq_some h
    exact ⟨_, hbatch⟩
  | cqEvent dies =>
    obtain ⟨c, rest, hbatch, rfl⟩ := cqEvent_eq_some h
    exact ⟨_, by rw [handleCqEvent_batch]; exact hbatch⟩

theorem holds_sys_step (s : State) (a : Action) (t : State) (hs : Holds s.sys)
    (h : step s a = some t) : Holds t.sys := by
  cases Step.of_step h with
  | wait hcan => exact hs
  | cmEvent hbatch ht => exact holds_step _ _ _ hs ht
  | pop hbatch => exact hs
  | ends ht => exact fun hrun => absurd hrun ht

/-- As long as the server runs, the rest of the batch is registered. -/
structure Fits (s : State) : Prop where
  holds : Holds s.sys
  registered : s.status = .running → ∀ c, .channel c ∈ s.batch → c ∈ s.sys.server.epoll

theorem fits_step (s : State) (a : Action) (t : State) (hs : Fits s) (ha : Spares s a)
    (h : step s a = some t) : Fits t := by
  refine ⟨holds_sys_step s a t hs.holds h, fun hrun c hc => ?_⟩
  cases Step.of_step h with
  | wait hcan =>
    rcases hcan.2.2 _ hc with h | ⟨d, hd, h⟩
    · cases h
    · cases h; exact hd
  | @cmEvent e r u rest hbatch hu =>
    -- The one case that needs the condition: the event may end a connection.
    have hmem : .channel c ∈ s.batch := by simp [hbatch, hc]
    refine registered_step hs.holds hu hrun (hs.registered (step_eq_some hu).1 c hmem) ?_
    obtain ⟨ev, x⟩ := e
    rintro rfl hof
    exact ha c hof hmem
  | pop hbatch => exact hs.registered hrun c (by simp [hbatch, hc])
  | ends ht => exact absurd hrun ht

/-- In every run in which no `DISCONNECTED` is handled while an entry behind it
names the channel of its connection, each pointer handed to `handle_cq_event`
is the channel of a connection that is still open. -/
theorem calls_open {as : List Action} {s : State} (h : Run.run step .initial as = some s)
    (hm : Run.Meets step Spares .initial as) {c : Nat} (hc : Calls s c) :
    OfOpenConnection s c := by
  have hs : Fits s := hm.invariant fits_step h ⟨fun _ => ⟨_, .initial⟩, fun _ c hc => by cases hc⟩
  obtain ⟨hrun, hhead⟩ := hc
  obtain ⟨T, hT⟩ := hs.holds hrun
  exact (hT.consistent.registered c).mp (hs.registered hrun c (List.mem_of_mem_head? hhead))

/-- Connections 1 and 2 are open when `epoll_wait` returns both channels and the
event channel. -/
def twoOpen (events : List Ready) : List Action :=
  [.wait [.ec], .cmEvent ⟨.connectRequest, 1⟩ (returnsAt 10),
    .wait [.ec], .cmEvent ⟨.connectRequest, 2⟩ (returnsAt 20), .wait events]

/-- The channel of connection 1 comes before its `DISCONNECTED`. -/
theorem calls_open_inOrder : ∃ s, Run.run step .initial
      (twoOpen [.channel 10, .ec, .channel 20] ++
        [.cqEvent none, .cmEvent ⟨.disconnected, 1⟩ (returnsAt 0)]) = some s ∧
    OfOpenConnection s 20 := by
  have hrun : (Run.run step .initial (twoOpen [.channel 10, .ec, .channel 20] ++
      [.cqEvent none, .cmEvent ⟨.disconnected, 1⟩ (returnsAt 0)])).map
      (fun s => decide (Calls s 20)) = some true := by decide
  obtain ⟨s, hs, hcalls⟩ := Option.map_eq_some_iff.mp hrun
  exact ⟨s, hs, calls_open hs (by decide) (of_decide_eq_true hcalls)⟩

/-- It comes behind it, and is destroyed when `handle_cq_event` is called. -/
theorem stale_channel : ∃ s, Run.run step .initial
      (twoOpen [.ec, .channel 10, .channel 20] ++
        [.cmEvent ⟨.disconnected, 1⟩ (returnsAt 0)]) = some s ∧
    Calls s 10 ∧ ¬OfOpenConnection s 10 := by
  have hrun : (Run.run step .initial (twoOpen [.ec, .channel 10, .channel 20] ++
      [.cmEvent ⟨.disconnected, 1⟩ (returnsAt 0)])).map
      (fun s => decide (Calls s 10 ∧ 10 ∉ s.sys.server.epoll)) = some true := by decide
  obtain ⟨s, hs, h⟩ := Option.map_eq_some_iff.mp hrun
  obtain ⟨hcalls, hgone⟩ := of_decide_eq_true h
  obtain ⟨T, hT⟩ := Run.run_invariant (I := fun s => Holds s.sys) holds_sys_step hs
    (fun _ => ⟨_, .initial⟩) hcalls.1
  exact ⟨s, hs, hcalls, fun hopen => hgone ((hT.consistent.registered 10).mpr hopen)⟩

end RdmaTutorial.Rdmacm05.EpollLoop
