import RdmaTutorial.Lib.Lifetimes
import RdmaTutorial.Rdmacm05.Table

/-!
# rdmacm05/server.c: what `handle_cm_event` accesses

Every access of a call of `handle_cm_event` to the event, an id, a
`conn_context`, a `connection` or an object of libibverbs, in the order the code
makes them. `CmEvents` says what the call does to the server; here it is followed
address by address, and `live_step` says that the two agree on what is live.

Two accesses are to what has been released. The `default` branch reads
`event->event` behind `rdma_ack_cm_event`, and `DISCONNECTED` writes
`new_event.id->context` behind `rdma_destroy_id`.
-/

namespace RdmaTutorial.Rdmacm05.CmEvents

open Function Objects Lifetimes

inductive Resource where
  /-- The `struct rdma_cm_event`. -/
  | event
  | id (x : Id)
  | ctx (k : Ctx)
  | conn (n : Nc)
  | object (h : Handle)
  deriving DecidableEq, Repr

/-- No event is there between two calls of `handle_cm_event`. -/
def State.Alive (s : State) : Resource → Prop
  | .event => False
  | .id x => s.ids x ≠ none
  | .ctx k => s.ctxs k ≠ none
  | .conn n => s.conns n ≠ none
  | .object h => IsLive s.objs h

def State.live (s : State) : Set Resource := {i | s.Alive i}

instance (s : State) : DecidablePred (· ∈ s.live) := fun i =>
  match i with
  | .event => .isFalse id
  | .id x => inferInstanceAs (Decidable (s.ids x ≠ none))
  | .ctx k => inferInstanceAs (Decidable (s.ctxs k ≠ none))
  | .conn n => inferInstanceAs (Decidable (s.conns n ≠ none))
  | .object h => inferInstanceAs (Decidable (IsLive s.objs h))

/-- `rdma_get_cm_event`, `new_event = *event` and `rdma_ack_cm_event`. -/
def getEvent : List (Access Resource) := [.create .event, .use .event, .release .event]

/-- The calls of `setup_connection` and `handle_new_request` that may fail, each
with the accesses on the way to it, and those behind it when it has succeeded. -/
def setupCalls (x : Id) (k : Ctx) (n : Nc) (h : Handles) :
    List (SetupCall × List (Access Resource) × List (Access Resource)) :=
  [(.mallocNc, [.use (.ctx k)], [.create (.conn n), .use (.id x), .use (.conn n)]),
    (.allocPd, [.use (.id x)], [.create (.object (.pd h.pd)), .use (.conn n)]),
    (.createCompChannel, [.use (.id x)], [.create (.object (.cc h.cc)), .use (.conn n)]),
    (.createCq, [.use (.id x), .use (.conn n), .use (.object (.cc h.cc))],
      [.create (.object (.cq h.cq)), .use (.conn n)]),
    (.reqNotify, [.use (.conn n), .use (.object (.cq h.cq))], []),
    (.createQp,
      [.use (.conn n), .use (.id x), .use (.object (.pd h.pd)), .use (.object (.cq h.cq))],
      [.create (.object (.qp h.qp)), .use (.id x), .use (.conn n)]),
    (.mallocRecv, [], [.create (.object (.buff h.recvBuff)), .use (.conn n)]),
    (.mallocSend, [], [.create (.object (.buff h.sendBuff)), .use (.conn n)]),
    (.regRecv, [.use (.conn n), .use (.object (.pd h.pd)), .use (.object (.buff h.recvBuff))],
      [.create (.object (.mr h.recvMr)), .use (.conn n)]),
    (.regSend, [.use (.conn n), .use (.object (.pd h.pd)), .use (.object (.buff h.sendBuff))],
      [.create (.object (.mr h.sendMr)), .use (.conn n), .use (.object (.mr h.recvMr)),
        .use (.object (.mr h.sendMr))]),
    (.postRecv, [.use (.conn n), .use (.object (.qp h.qp)), .use (.object (.mr h.recvMr)),
      .use (.object (.buff h.recvBuff))], [.use (.ctx k)]),
    (.register, [.use (.conn n), .use (.object (.cc h.cc))], []),
    (.accept, [.use (.ctx k), .use (.id x)], [.use (.ctx k)])]

/-- The accesses up to the call that fails, with which the process ends. -/
def upTo (failed : Option SetupCall) :
    List (SetupCall × List (Access Resource) × List (Access Resource)) → List (Access Resource)
  | [] => []
  | (call, before, behind) :: calls =>
    before ++ if failed = some call then [] else behind ++ upTo failed calls

/-- `case RDMA_CM_EVENT_CONNECT_REQUEST`. -/
def connectRequestAccesses (x : Id) (r : Returns) : List (Access Resource) :=
  match r.ctx with
  -- `rdma_reject(new_event.id, NULL, 0)`.
  | none => [.use (.id x)]
  | some k =>
    [.create (.ctx k), .use (.ctx k), .use (.id x)] ++
      upTo r.failed (setupCalls x k r.nc r.handles)

/-- `case RDMA_CM_EVENT_ESTABLISHED`. -/
def establishedAccesses (s : State) (x : Id) : List (Access Resource) :=
  .use (.id x) ::
    match s.ids x with
    | some (some k) => [.use (.ctx k)]
    | _ => []

/-- `case RDMA_CM_EVENT_DISCONNECTED`, from `nc->cc->fd` to `free(nc)`: each
pointer is read from the connection, and what it points to is destroyed. -/
def releaseConn (n : Nc) (h : Handles) : List (Access Resource) :=
  [.use (.conn n), .use (.object (.cc h.cc))] ++
    (teardownOrder h).flatMap (fun d => [.use (.conn n), .release (.object d)]) ++
    [.release (.conn n)]

/-- `case RDMA_CM_EVENT_DISCONNECTED`. -/
def disconnectedAccesses (s : State) (x : Id) : List (Access Resource) :=
  .use (.id x) ::
    match s.ids x with
    | some (some k) =>
      .use (.ctx k) ::
        match s.ctxs k with
        | none => []
        | some cctx =>
          [.use (.ctx k), .use (.id cctx.id), .use (.ctx k), .release (.id cctx.id),
            .use (.ctx k)] ++
            match cctx.conn with
            | none => []
            | some n =>
              match s.conns n with
              | none => [.use (.conn n)]
              | some h => releaseConn n h ++ [.use (.id x), .release (.ctx k)]
    | _ => []

/-- `handle_cm_event`. The id of a request comes with its event. -/
def accesses (s : State) (e : CmEvent) (r : Returns) : List (Access Resource) :=
  match e.event with
  | .connectRequest => .create (.id e.id) :: (getEvent ++ connectRequestAccesses e.id r)
  | .established => getEvent ++ establishedAccesses s e.id
  | .disconnected => getEvent ++ disconnectedAccesses s e.id
  | _ => getEvent ++ [.use .event]

/-! ## What is live -/

section Live

variable {s : State}

@[simp] theorem event_notMem_live : .event ∉ s.live := id

@[simp] theorem id_mem_live {x : Id} : .id x ∈ s.live ↔ s.ids x ≠ none := Iff.rfl

@[simp] theorem ctx_mem_live {k : Ctx} : .ctx k ∈ s.live ↔ s.ctxs k ≠ none := Iff.rfl

@[simp] theorem conn_mem_live {n : Nc} : .conn n ∈ s.live ↔ s.conns n ≠ none := Iff.rfl

@[simp] theorem object_mem_live {h : Handle} : .object h ∈ s.live ↔ IsLive s.objs h := Iff.rfl

theorem live_initial : State.initial.live = ∅ := by
  ext i
  cases i <;> simp [State.initial, IsLive]

@[simp] theorem isLive_append {objs objs' : List (Object Handle)} {d : Handle} :
    IsLive (objs ++ objs') d ↔ IsLive objs d ∨ d ∈ objs'.map (·.handle) := by
  simp [IsLive, or_and_right, exists_or]

@[simp] theorem isLive_filter {objs : List (Object Handle)} {ds : List Handle} {d : Handle} :
    IsLive (objs.filter fun o => o.handle ∉ ds) d ↔ IsLive objs d ∧ d ∉ ds := by
  constructor
  · rintro ⟨o, ho, rfl⟩
    simp only [List.mem_filter, decide_eq_true_eq] at ho
    exact ⟨⟨o, ho.1, rfl⟩, ho.2⟩
  · rintro ⟨⟨o, ho, rfl⟩, hd⟩
    exact ⟨o, by simp [ho, hd], rfl⟩

/-- The event is gone when the branches are reached. -/
theorem after_getEvent (as : List (Access Resource)) :
    Lifetimes.after s.live (getEvent ++ as) = Lifetimes.after s.live as := by
  simp [getEvent]

theorem safe_getEvent (as : List (Access Resource)) :
    Safe s.live (getEvent ++ as) ↔ Safe s.live as := by
  simp [getEvent]

end Live

/-! ## The branches -/

/-- A failing call cuts the accesses short. -/
theorem upTo_prefix (failed : Option SetupCall)
    (calls : List (SetupCall × List (Access Resource) × List (Access Resource))) :
    upTo failed calls <+: upTo none calls := by
  induction calls with
  | nil => exact List.prefix_rfl
  | cons c calls ih =>
    obtain ⟨call, before, behind⟩ := c
    simp only [upTo]
    refine (List.prefix_append_right_inj _).mpr ?_
    split
    · exact List.nil_prefix
    · exact (List.prefix_append_right_inj _).mpr ih

/-- A request uses what it has created itself. -/
theorem safe_connectRequest (s : State) (x : Id) (r : Returns) :
    Safe s.live (.create (.id x) :: (getEvent ++ connectRequestAccesses x r)) := by
  unfold connectRequestAccesses
  cases r.ctx with
  | none => simp [getEvent]
  | some k =>
    have hall : Safe s.live (.create (.id x) :: (getEvent ++ ([.create (.ctx k), .use (.ctx k),
        .use (.id x)] ++ upTo none (setupCalls x k r.nc r.handles)))) := by
      simp [getEvent, setupCalls, upTo]
    refine hall.of_prefix ?_
    simpa using upTo_prefix r.failed (setupCalls x k r.nc r.handles)

/-- A `context` that is not NULL belongs to an id with an entry. -/
def Contextual (s : System) : Prop :=
  s.server.status = .running →
    ∃ T, Represents T s ∧ ∀ x k, s.server.ids x = some (some k) → T x ≠ none

theorem contextual_step (s : System) (a : CmEvent × Returns) (t : System) (hs : Contextual s)
    (h : step s a = some t) : Contextual t := by
  obtain ⟨hrun, hallowed, rfl⟩ := step_eq_some h
  obtain ⟨T, hT, hctx⟩ := hs hrun
  obtain ⟨⟨ev, x⟩, r⟩ := a
  intro hrun'
  cases ev with
  | connectRequest =>
    obtain ⟨hx, hf⟩ := hallowed
    cases hk : r.ctx with
    | none =>
      refine ⟨T, by simpa [handleCmEvent, nextPhase, hk] using hT.reject hx hk, fun y j hy => ?_⟩
      by_cases hyx : y = x
      · simp [handleCmEvent, connectRequest, hk, hyx] at hy
      · exact hctx y j (by simpa [handleCmEvent, connectRequest, hk, hyx] using hy)
    | some k =>
      cases hc : r.failed with
      | none =>
        refine ⟨update T x (some ⟨k, r.nc, r.handles, .requested⟩),
          by simpa [handleCmEvent, nextPhase, hk] using hT.connect hx hf hk hc, fun y j hy => ?_⟩
        by_cases hyx : y = x
        · simp [hyx]
        · simp only [handleCmEvent, Represents.connectRequest_ok s.server hk hc] at hy
          simpa [hyx] using hctx y j (by simpa [hyx] using hy)
      | some c =>
        have hdied := connectRequest_dies s.server (x := x) hk hc
        exact absurd (hdied.symm.trans hrun') (by simp)
  | established =>
    have hphase : s.phase x = some .requested := hallowed
    obtain ⟨e, hx⟩ := hT.entry_of_phase (x := x) (by simp [hphase])
    refine ⟨_, hT.establish hx, fun y j hy => ?_⟩
    simp only [handleCmEvent, hT.established_eq hx] at hy
    by_cases hyx : y = x
    · simp [hyx]
    · simpa [hyx] using hctx y j hy
  | disconnected =>
    obtain ⟨e, hx⟩ := hT.entry_of_phase hallowed
    refine ⟨_, hT.disconnect hx r, fun y j hy => ?_⟩
    simp only [handleCmEvent, (hT.disconnected_removed hx r).ids] at hy
    by_cases hyx : y = x
    · simp [hyx] at hy
    · simpa [hyx] using hctx y j (by simpa [hyx] using hy)
  | _ => exact ⟨T, { hT with }, hctx⟩

theorem contextual_run {as : List (CmEvent × Returns)} {s : System}
    (h : Run.run step .initial as = some s) : Contextual s :=
  Run.run_invariant contextual_step h fun _ =>
    ⟨_, .initial, fun x k hx => by simp [System.initial, State.initial] at hx⟩

section Branches

variable {T : Table} {s : System} {x : Id} {e : Entry}

theorem safe_established (hT : Represents T s) (hx : T x = some e) :
    Safe s.server.live (establishedAccesses s.server x) := by
  simp [establishedAccesses, hT.ids x e hx, hT.context x e hx]

theorem disconnectedAccesses_eq (hT : Represents T s) (hx : T x = some e) :
    disconnectedAccesses s.server x =
      [.use (.id x), .use (.ctx e.ctx), .use (.ctx e.ctx), .use (.id x), .use (.ctx e.ctx)] ++
        .release (.id x) :: ((.use (.ctx e.ctx) :: releaseConn e.nc e.handles) ++
          .use (.id x) :: [.release (.ctx e.ctx)]) := by
  simp [disconnectedAccesses, hT.ids x e hx, hT.context x e hx, hT.conn x e hx, Entry.context]

/-- `new_event.id->context = NULL`. -/
theorem not_safe_disconnected (hT : Represents T s) (hx : T x = some e) :
    ¬Safe s.server.live (disconnectedAccesses s.server x) := by
  rw [disconnectedAccesses_eq hT hx]
  exact not_safe_of_released (by simp [releaseConn]) _

end Branches

/-- The only access of `default` is to the event that has been released. -/
theorem not_safe_default (s : State) : ¬Safe s.live (getEvent ++ [.use .event]) := by
  simp [getEvent]

/-- In every state the server reaches, and for every event of an id that is there,
`handle_cm_event` uses only what is live exactly if it is a `CONNECT_REQUEST` or
an `ESTABLISHED`, or a `DISCONNECTED` of an id without a `context`. -/
theorem safe_iff {as : List (CmEvent × Returns)} {s : System}
    (hrun : Run.run step .initial as = some s) (hstatus : s.server.status = .running)
    {e : CmEvent} (hid : e.event = .connectRequest ∨ s.server.ids e.id ≠ none) (r : Returns) :
    Safe s.server.live (accesses s.server e r) ↔
      e.event = .connectRequest ∨ e.event = .established ∨
        e.event = .disconnected ∧ s.server.ids e.id = some none := by
  obtain ⟨T, hT, hctx⟩ := contextual_run hrun hstatus
  obtain ⟨ev, x⟩ := e
  have entry : ∀ k, s.server.ids x = some (some k) → ∃ f, T x = some f :=
    fun k hk => Option.ne_none_iff_exists'.mp (hctx x k hk)
  cases ev with
  | connectRequest => simpa [accesses] using safe_connectRequest s.server x r
  | established =>
    simp only [accesses, safe_getEvent]
    cases hx : s.server.ids x with
    | none => simp [hx] at hid
    | some o =>
      cases o with
      | none => simp [establishedAccesses, hx]
      | some k =>
        obtain ⟨f, hf⟩ := entry k hx
        simpa using safe_established hT hf
  | disconnected =>
    simp only [accesses, safe_getEvent]
    cases hx : s.server.ids x with
    | none => simp [hx] at hid
    | some o =>
      cases o with
      | none => simp [disconnectedAccesses, hx]
      | some k =>
        obtain ⟨f, hf⟩ := entry k hx
        simpa using not_safe_disconnected hT hf
  | _ => simpa [accesses] using not_safe_default s.server

/-- The first event of a connection, and the second. -/
def accepted : List (CmEvent × Returns) :=
  [(⟨.connectRequest, 1⟩, returnsAt 10), (⟨.established, 1⟩, returnsAt 0)]

/-- And a request that is turned down. -/
def oneRejected : List (CmEvent × Returns) :=
  accepted ++ [(⟨.connectRequest, 2⟩, { returnsAt 20 with ctx := none })]

/-- The id of that request has a `context` of NULL, the first one's has not. -/
theorem safe_iff_oneRejected : ∃ s, Run.run step .initial oneRejected = some s ∧
    s.server.ids 2 = some none ∧
    Safe s.server.live (accesses s.server ⟨.connectRequest, 3⟩ (returnsAt 20)) ∧
    Safe s.server.live (accesses s.server ⟨.disconnected, 2⟩ (returnsAt 0)) ∧
    ¬Safe s.server.live (accesses s.server ⟨.disconnected, 1⟩ (returnsAt 0)) := by
  have hrun : ∃ s ∈ Run.run step .initial oneRejected, s.server.status = .running ∧
      s.server.ids 2 = some none ∧ s.server.ids 1 = some (some 10) := by
    decide
  obtain ⟨s, hs, hst, hnull, hset⟩ := hrun
  refine ⟨s, hs, hnull, ?_, ?_, ?_⟩
  · exact (safe_iff hs hst (.inl rfl) _).mpr (.inl rfl)
  · exact (safe_iff hs hst (.inr (by simp [hnull])) _).mpr (.inr (.inr ⟨rfl, hnull⟩))
  · rw [safe_iff hs hst (.inr (by simp [hset]))]
    simp [hset]

/-- A client that disconnects, and any event the server does not expect. -/
theorem used_after_release : ∃ s ∈ Run.run step .initial accepted,
    ¬Safe s.server.live (accesses s.server ⟨.disconnected, 1⟩ (returnsAt 0)) ∧
      ¬Safe s.server.live (accesses s.server ⟨.rejected, 1⟩ (returnsAt 0)) := by
  decide

/-! ## The live sets and the server -/

theorem live_connectRequest {s : State} {x : Id} {r : Returns} {k : Ctx} (hk : r.ctx = some k)
    (hok : r.failed = none) :
    (connectRequest s x r).live =
      Lifetimes.after s.live (.create (.id x) :: (getEvent ++ connectRequestAccesses x r)) := by
  rw [Represents.connectRequest_ok s hk hok]
  ext i
  cases i with
  | event => simp [getEvent, connectRequestAccesses, hk, hok, upTo, setupCalls]
  | id y =>
    by_cases hy : y = x <;>
      simp [getEvent, connectRequestAccesses, hk, hok, upTo, setupCalls, hy]
  | ctx j =>
    by_cases hj : j = k <;>
      simp [getEvent, connectRequestAccesses, hk, hok, upTo, setupCalls, hj]
  | conn n =>
    by_cases hn : n = r.nc <;>
      simp [getEvent, connectRequestAccesses, hk, hok, upTo, setupCalls, hn]
  | object d =>
    simp [getEvent, connectRequestAccesses, hk, hok, upTo, setupCalls, Handles.objects]
    tauto

theorem live_disconnected {T : Table} {s : System} {x : Id} {e : Entry} (hT : Represents T s)
    (hx : T x = some e) (r : Returns) :
    (disconnected s.server x r).live =
      Lifetimes.after s.server.live (getEvent ++ disconnectedAccesses s.server x) := by
  have hr := hT.disconnected_removed hx r
  rw [after_getEvent, disconnectedAccesses_eq hT hx]
  ext i
  cases i with
  | event => simp [releaseConn, teardownOrder]
  | id y => by_cases hy : y = x <;> simp [hr.ids, releaseConn, teardownOrder, hy]
  | ctx k => by_cases hk : k = e.ctx <;> simp [hr.ctxs, releaseConn, teardownOrder, hk]
  | conn n => by_cases hn : n = e.nc <;> simp [hr.conns, releaseConn, teardownOrder, hn]
  | object d =>
    rw [object_mem_live, hr.objs, isLive_filter]
    simp [releaseConn, teardownOrder]
    tauto

/-- What is live in the server behind an event is what these accesses leave
live. -/
theorem live_step {as : List (CmEvent × Returns)} {s t : System} {a : CmEvent × Returns}
    (hrun : Run.run step .initial as = some s) (h : step s a = some t)
    (ht : t.server.status = .running) :
    t.server.live = Lifetimes.after s.server.live (accesses s.server a.1 a.2) := by
  obtain ⟨hst, hallowed, rfl⟩ := step_eq_some h
  obtain ⟨T, hT, -⟩ := contextual_run hrun hst
  obtain ⟨⟨ev, x⟩, r⟩ := a
  cases ev with
  | connectRequest =>
    cases hk : r.ctx with
    | none =>
      -- The request is rejected, and its id stays.
      ext i
      cases i with
      | id y =>
        by_cases hy : y = x <;>
          simp [accesses, handleCmEvent, connectRequest, connectRequestAccesses, hk, getEvent, hy]
      | _ =>
        simp [accesses, handleCmEvent, connectRequest, connectRequestAccesses, hk, getEvent]
    | some k =>
      cases hc : r.failed with
      | none => exact live_connectRequest hk hc
      | some c =>
        have hdied := connectRequest_dies s.server (x := x) hk hc
        exact absurd (hdied.symm.trans ht) (by simp)
  | established =>
    have hphase : s.phase x = some .requested := hallowed
    obtain ⟨e, hx⟩ := hT.entry_of_phase (x := x) (by simp [hphase])
    simp only [handleCmEvent, accesses, after_getEvent, hT.established_eq hx]
    ext i
    cases i with
    | ctx k =>
      by_cases hk : k = e.ctx <;>
        simp [State.setCtx, establishedAccesses, hT.ids x e hx, hT.context x e hx, hk]
    | _ => simp [State.setCtx, establishedAccesses, hT.ids x e hx]
  | disconnected =>
    obtain ⟨e, hx⟩ := hT.entry_of_phase hallowed
    exact live_disconnected hT hx r
  | _ =>
    simp only [handleCmEvent, accesses, after_getEvent]
    rfl

end RdmaTutorial.Rdmacm05.CmEvents
