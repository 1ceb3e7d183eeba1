import RdmaTutorial.Rdmacm04.Exclusive

/-!
# rdmacm04/server.c: the ids behind the slots

The event thread knows a connection by the address of its id alone. What
librdmacm promises about these addresses (`Allowed`) makes them good for that
as long as the ids live; a slot whose worker has destroyed its id still holds
the address.
-/

namespace RdmaTutorial.Rdmacm04

open Function Ownership

/-- The server with what has happened to it: the events `cm_event_loop` has
taken up, and for each semaphore the number of the worker it was initialised
for, until that worker destroys it. -/
structure System where
  server : State
  dispatched : List CmEvent
  holder : Index → Option Nat

namespace System

def initial : System := { server := .initial, dispatched := [], holder := fun _ => none }

def nextDispatched (s : System) : Action → List CmEvent
  | .cmEvent e => s.dispatched ++ [e]
  | _ => s.dispatched

def nextHolder (s : System) : Action → Index → Option Nat
  | .loop _ =>
    match s.server.loop with
    -- `pthread_create` comes next, and makes the worker with this number.
    | .semInit _ k => update s.holder k (some s.server.created)
    | _ => s.holder
  | .worker t _ =>
    match (s.server.workers t).map Worker.pc with
    | some (.semDestroy n) => fun k =>
      if (k : Nat) = n ∧ s.holder k = some t then none else s.holder k
    | _ => s.holder
  | _ => s.holder

def step (s : System) (a : Action) : Option System :=
  (Rdmacm04.step s.server a).map fun t => ⟨t, s.nextDispatched a, s.nextHolder a⟩

/-- What librdmacm promises: an id that is announced has no live id's address,
and its connection is a new one; any other event is for a live id. -/
def Allowed (s : System) : Action → Prop
  | .cmEvent e =>
    if e.event = .connectRequest then
      s.server.ids e.id = none ∧ ∀ d ∈ s.dispatched, d.conn ≠ e.conn
    else s.server.ids e.id = some e.conn
  | _ => True

instance (s : System) : DecidablePred s.Allowed
  | .cmEvent e => inferInstanceAs (Decidable (if e.event = .connectRequest then _ else _))
  | .loop _ => .isTrue trivial
  | .worker .. => .isTrue trivial
  | .dies .. => .isTrue trivial

/-- An `ESTABLISHED` of the connection has been taken up. -/
def Told (s : System) (c : Conn) : Prop :=
  ∃ e ∈ s.dispatched, e.event = .established ∧ e.conn = c

theorem mem_nextDispatched {s : System} (a : Action) {e : CmEvent} (h : e ∈ s.dispatched) :
    e ∈ s.nextDispatched a := by
  cases a <;> simp [nextDispatched, h]

theorem step_eq_some {s t : System} {a : Action} (h : s.step a = some t) :
    Step s.server a t.server ∧ t.dispatched = s.nextDispatched a ∧
      t.holder = s.nextHolder a := by
  obtain ⟨u, hu, rfl⟩ := Option.map_eq_some_iff.mp h
  exact ⟨.of_step hu, rfl, rfl⟩

end System

/-! ## Where a worker is -/

/-- The worker has not passed `sem_wait`. -/
def WorkerPc.waiting : WorkerPc → Bool
  | .setup => true
  | .accept => true
  | .semWait => true
  | _ => false

/-- The worker has not executed `rdma_destroy_id`. -/
def WorkerPc.hasId : WorkerPc → Bool
  | .loop => true
  | .disconnect => true
  | .destroyId => true
  | pc => pc.waiting

theorem WorkerPc.hasId_of_waiting {pc : WorkerPc} (h : pc.waiting) : pc.hasId := by
  cases pc <;> simp_all [waiting, hasId]

theorem WorkerPc.serving_of_hasId {pc : WorkerPc} (h : pc.hasId) : pc.serving := by
  cases pc <;> simp_all [waiting, hasId, serving]

/-- Most statements of a worker leave its id and its slot to it, and none takes
it back in front of `sem_wait`. -/
theorem WorkerMoves.keeps {c : Slot} {r : Result} {p q : WorkerPc} (h : WorkerMoves c r p q) :
    (q.hasId → p.hasId) ∧ q.serving = p.serving ∧ (q.waiting → p.waiting) := by
  cases h <;> simp [WorkerPc.hasId, WorkerPc.waiting, WorkerPc.serving]

/-- The request the event thread is at work on. -/
def LoopPc.request : LoopPc → Option CmEvent
  | .scan e _ => some e
  | .storeId e _ => some e
  | .storeIndex e _ => some e
  | .semInit e _ => some e
  | .create e _ => some e
  | _ => none

/-- The `ESTABLISHED` the event thread is at work on. -/
def LoopPc.finding : LoopPc → Option CmEvent
  | .find e _ => some e
  | .semPost e _ => some e
  | _ => none

/-! ## Live ids tell connections apart -/

/-- Nobody will ever clear the slot that holds `x`: `pthread_create` has failed
for it. The id is rejected, but not destroyed. -/
structure Abandoned (s : State) (x : Id) : Prop where
  live : s.ids x ≠ none
  unused : ∀ t w, s.workers t = some w → w.pc.hasId → w.id ≠ x
  other : ∀ e, s.loop.request = some e → e.id ≠ x

/-- While an id lives it stands for one connection, and what a slot holds is the
id of its worker, of the request at work, or of nobody any more. `ds` are the
events so far. -/
structure LiveIds (ds : List CmEvent) (s : State) : Prop where
  exclusive : Exclusive s
  bounded : ∀ t w, s.workers t = some w → t < s.created
  known : ∀ x c, s.ids x = some c → ∃ d ∈ ds, d.conn = c
  injective : ∀ x y c, s.ids x = some c → s.ids y = some c → x = y
  live : ∀ t w, s.workers t = some w → w.pc.hasId → s.ids w.id = some w.conn
  distinct : ∀ t w t' w', s.workers t = some w → s.workers t' = some w' → w.pc.hasId →
    w'.pc.hasId → w.id = w'.id → t = t'
  request : ∀ e, s.loop.request = some e → s.ids e.id = some e.conn ∧
    ∀ t w, s.workers t = some w → w.pc.hasId → w.id ≠ e.id
  slots : ∀ k x, (s.slots k).id = some x → s.loop.claimed = some k ∨
    (∃ t w, s.workers t = some w ∧ w.pc.serving ∧ w.ctx = k) ∨ Abandoned s x

theorem serving_workerTo {s : State} {t : Nat} {w : Worker} {pc : WorkerPc} {k : Index}
    (hw : s.workers t = some w) (hpc : w.pc.serving → pc.serving)
    (h : ∃ t' w', s.workers t' = some w' ∧ w'.pc.serving ∧ w'.ctx = k) :
    ∃ t' w', (s.workerTo t w pc).workers t' = some w' ∧ w'.pc.serving ∧ w'.ctx = k := by
  obtain ⟨t', h⟩ := h
  exact ⟨t', exists_workerTo hw (And.imp_left hpc) h⟩

namespace LiveIds

variable {ds : List CmEvent} {s : State}

theorem initial : LiveIds [] .initial where
  exclusive := .initial
  bounded := by simp [State.initial]
  known := by simp [State.initial]
  injective := by simp [State.initial]
  live := by simp [State.initial]
  distinct := by simp [State.initial]
  request := by simp [State.initial, LoopPc.request]
  slots := by simp [State.initial]

/-- A request comes with an address no live id has. -/
theorem connectRequest (h : LiveIds ds s) {e : CmEvent} (hloop : s.loop = .getEvent)
    (hx : s.ids e.id = none) (hc : ∀ d ∈ ds, d.conn ≠ e.conn)
    (hex : Exclusive { s with loop := .scan e 0, ids := update s.ids e.id (some e.conn) }) :
    LiveIds (ds ++ [e])
      { s with loop := .scan e 0, ids := update s.ids e.id (some e.conn) } where
  exclusive := hex
  bounded := h.bounded
  known := by
    intro x c hxc
    rcases update_eq_some.mp hxc with ⟨-, ⟨⟩⟩ | ⟨-, hxc⟩
    · exact ⟨e, by simp, rfl⟩
    · obtain ⟨d, hd, hdc⟩ := h.known x c hxc
      exact ⟨d, by simp [hd], hdc⟩
  injective := by
    have hnew : ∀ y, s.ids y ≠ some e.conn := by
      intro y hy
      obtain ⟨d, hd, hdc⟩ := h.known y _ hy
      exact hc d hd hdc
    intro x y c hxc hyc
    rcases update_eq_some.mp hxc with ⟨rfl, ⟨⟩⟩ | ⟨-, hxc⟩ <;>
      rcases update_eq_some.mp hyc with ⟨rfl, ⟨⟩⟩ | ⟨-, hyc⟩
    · rfl
    · exact absurd hyc (hnew y)
    · exact absurd hxc (hnew x)
    · exact h.injective x y c hxc hyc
  live := by
    intro t w hw hid
    have hlive := h.live t w hw hid
    have hne : w.id ≠ e.id := by
      intro heq
      simp [heq, hx] at hlive
    simp [hne, hlive]
  distinct := h.distinct
  request := by
    rintro _ ⟨⟩
    refine ⟨by simp, fun t w hw hid heq => ?_⟩
    have hlive := h.live t w hw hid
    simp [heq, hx] at hlive
  slots := by
    intro k x hk
    rcases h.slots k x hk with hcl | hw | hab
    · simp [hloop, LoopPc.claimed] at hcl
    · exact .inr (.inl hw)
    · have hne : x ≠ e.id := by
        rintro rfl
        exact hab.live hx
      refine .inr (.inr ⟨by simp [hne, hab.live], hab.unused, ?_⟩)
      rintro _ ⟨⟩
      exact hne.symm

/-- The event thread goes on with nothing but its own place different. -/
theorem goto (h : LiveIds ds s) {pc : LoopPc} (hex : Exclusive (s.goto pc))
    (hreq : ∀ e, pc.request = some e → s.loop.request = some e)
    (hclaim : ∀ k, s.loop.claimed = some k → pc.claimed = some k) : LiveIds ds (s.goto pc) where
  exclusive := hex
  bounded := h.bounded
  known := h.known
  injective := h.injective
  live := h.live
  distinct := h.distinct
  request e he := h.request e (hreq e he)
  slots k x hk := by
    rcases h.slots k x hk with hcl | hw | hab
    · exact .inl (hclaim k hcl)
    · exact .inr (.inl hw)
    · exact .inr (.inr ⟨hab.live, hab.unused, fun e he => hab.other e (hreq e he)⟩)

/-- `pthread_create` fails, and the slot stays as it is. -/
theorem createFails (h : LiveIds ds s) {e : CmEvent} {k : Index} (hloop : s.loop = .create e k)
    (hex : Exclusive (s.goto (.reject e))) : LiveIds ds (s.goto (.reject e)) where
  exclusive := hex
  bounded := h.bounded
  known := h.known
  injective := h.injective
  live := h.live
  distinct := h.distinct
  request := by
    rintro _ ⟨⟩
  slots j x hj := by
    obtain ⟨hlive, hunused⟩ := h.request e (by simp [hloop, LoopPc.request])
    rcases h.slots j x hj with hcl | hw | hab
    · have hfilled : (s.slots k).id = some e.id ∧ (s.slots k).ctxIndex = k := by
        simpa [hloop, Filled] using h.exclusive.filled
      obtain rfl : k = j := by simpa [hloop, LoopPc.claimed] using hcl
      obtain rfl : e.id = x := Option.some.inj (hfilled.1.symm.trans hj)
      refine .inr (.inr ⟨by simp [State.goto, hlive], hunused, ?_⟩)
      rintro _ ⟨⟩
    · exact .inr (.inl hw)
    · refine .inr (.inr ⟨hab.live, hab.unused, ?_⟩)
      rintro _ ⟨⟩

/-- The event thread writes to the slot it claims. -/
theorem fill (h : LiveIds ds s) {k : Index} {c : Slot} {pc : LoopPc}
    (hex : Exclusive ((s.setSlot k c).goto pc)) (hclaim : s.loop.claimed = some k)
    (hpc : pc.claimed = some k) (hreq : pc.request = s.loop.request) :
    LiveIds ds ((s.setSlot k c).goto pc) where
  exclusive := hex
  bounded := h.bounded
  known := h.known
  injective := h.injective
  live := h.live
  distinct := h.distinct
  request e he := h.request e (hreq ▸ he)
  slots j x hj := by
    by_cases hjk : j = k
    · exact .inl (hjk ▸ hpc)
    · have hold : (s.slots j).id = some x := by
        simpa [State.setSlot, State.goto, hjk] using hj
      rcases h.slots j x hold with hcl | hw | hab
      · exact absurd (Option.some.inj (hcl.symm.trans hclaim)) hjk
      · exact .inr (.inl hw)
      · exact .inr (.inr ⟨hab.live, hab.unused, fun e he => hab.other e (hreq ▸ he)⟩)

/-- A semaphore changes. -/
theorem setSem (h : LiveIds ds s) (k : Index) (m : Sem) : LiveIds ds (s.setSem k m) where
  exclusive := h.exclusive.setSem k m
  bounded := h.bounded
  known := h.known
  injective := h.injective
  live := h.live
  distinct := h.distinct
  request := h.request
  slots j x hj := by
    rw [State.setSem_id] at hj
    rcases h.slots j x hj with hcl | hw | hab
    · exact .inl hcl
    · exact .inr (.inl hw)
    · exact .inr (.inr ⟨hab.live, hab.unused, hab.other⟩)

/-- A worker starts, with the id of the request. -/
theorem create (h : LiveIds ds s) {e : CmEvent} {k : Index} (hloop : s.loop = .create e k) :
    LiveIds ds { s with
      workers := update s.workers s.created
        (some { ctx := k, pc := .setup, id := e.id, conn := e.conn }),
      created := s.created + 1,
      loop := .ack false } := by
  obtain ⟨hlive, hunused⟩ := h.request e (by simp [hloop, LoopPc.request])
  have hold : ∀ {t w}, s.workers t = some w → t ≠ s.created := fun hw =>
    Nat.ne_of_lt (h.bounded _ _ hw)
  exact {
    exclusive := h.exclusive.create hloop
    bounded := forall_update (fun t w hw => Nat.lt_succ_of_lt (h.bounded t w hw))
      (Nat.lt_succ_self _)
    known := h.known
    injective := h.injective
    live := forall_update h.live fun _ => hlive
    distinct := by
      intro t w t' w' hw hw' hid hid' heq
      rcases update_eq_some.mp hw with ⟨rfl, ⟨⟩⟩ | ⟨-, hw⟩ <;>
        rcases update_eq_some.mp hw' with ⟨rfl, ⟨⟩⟩ | ⟨-, hw'⟩
      · rfl
      · exact absurd heq.symm (hunused t' w' hw' hid')
      · exact absurd heq (hunused t w hw hid)
      · exact h.distinct t w t' w' hw hw' hid hid' heq
    request := by
      rintro _ ⟨⟩
    slots := by
      intro j x hj
      rcases h.slots j x hj with hcl | ⟨t, w, hw, hs, hctx⟩ | hab
      · obtain rfl : k = j := by simpa [hloop, LoopPc.claimed] using hcl
        exact .inr (.inl ⟨s.created, _, update_self .., rfl, rfl⟩)
      · exact .inr (.inl ⟨t, w, by simp [hold hw, hw], hs, hctx⟩)
      · refine .inr (.inr ⟨hab.live, forall_update hab.unused fun _ => ?_, ?_⟩)
        · exact hab.other e (by simp [hloop, LoopPc.request])
        · rintro _ ⟨⟩ }

/-- A worker goes on with its slot, and with its id if it has it still. -/
theorem workerTo (h : LiveIds ds s) {t : Nat} {w : Worker} {pc : WorkerPc}
    (hw : s.workers t = some w) (hex : Exclusive (s.workerTo t w pc))
    (hid : pc.hasId → w.pc.hasId) (hserving : w.pc.serving → pc.serving) :
    LiveIds ds (s.workerTo t w pc) := by
  have hback : ∀ {t' w'}, (s.workerTo t w pc).workers t' = some w' → w'.pc.hasId →
      ∃ v, s.workers t' = some v ∧ v.pc.hasId ∧ w'.id = v.id := by
    intro t' w' hw' hid'
    rcases workerTo_cases hw' with ⟨rfl, rfl⟩ | ⟨-, hw'⟩
    · exact ⟨w, hw, hid hid', rfl⟩
    · exact ⟨w', hw', hid', rfl⟩
  have hunused : ∀ {x : Id}, (∀ t w, s.workers t = some w → w.pc.hasId → w.id ≠ x) →
      ∀ t' w', (s.workerTo t w pc).workers t' = some w' → w'.pc.hasId → w'.id ≠ x := by
    intro x hx
    exact forall_workerTo hx fun hid' => hx t w hw (hid hid')
  exact {
    exclusive := hex
    bounded := forall_workerTo h.bounded (h.bounded t w hw)
    known := h.known
    injective := h.injective
    live := forall_workerTo h.live fun hid' => h.live t w hw (hid hid')
    distinct := by
      intro a u b v ha hb hu hv heq
      obtain ⟨u', hu', hua, hid₁⟩ := hback ha hu
      obtain ⟨v', hv', hvb, hid₂⟩ := hback hb hv
      exact h.distinct a u' b v' hu' hv' hua hvb (hid₁ ▸ hid₂ ▸ heq)
    request := fun e he => ⟨(h.request e he).1, hunused (h.request e he).2⟩
    slots := by
      intro k x hk
      rcases h.slots k x hk with hcl | hs | hab
      · exact .inl hcl
      · exact .inr (.inl (serving_workerTo hw hserving hs))
      · exact .inr (.inr ⟨hab.live, hunused hab.unused, hab.other⟩) }

/-- A worker destroys its id. -/
theorem destroyId (h : LiveIds ds s) {t : Nat} {w : Worker} (hw : s.workers t = some w)
    (hpc : w.pc = .destroyId)
    (hex : Exclusive ({ s with ids := update s.ids w.id none }.workerTo t w .teardown)) :
    LiveIds ds ({ s with ids := update s.ids w.id none }.workerTo t w .teardown) := by
  have hid : w.pc.hasId := by simp [hpc, WorkerPc.hasId]
  have hgone : LiveIds ds (s.workerTo t w .teardown) := by
    refine h.workerTo hw (h.exclusive.workerTo hw ?_ ?_) ?_ ?_ <;>
      simp [hpc, WorkerPc.hasId, WorkerPc.waiting, WorkerPc.serving]
  -- Whoever has its id still has another one.
  have hother : ∀ t' w', (s.workerTo t w .teardown).workers t' = some w' → w'.pc.hasId →
      w'.id ≠ w.id := by
    intro t' w' hw' hid'
    rcases workerTo_cases hw' with ⟨-, rfl⟩ | ⟨hne, hw'⟩
    · cases hid'
    · exact fun heq => hne (h.distinct t' w' t w hw' hw hid' hid heq)
  exact {
    exclusive := hex
    bounded := hgone.bounded
    known := by
      intro x c hxc
      rcases update_eq_some.mp hxc with ⟨-, ⟨⟩⟩ | ⟨-, hxc⟩
      exact h.known x c hxc
    injective := by
      intro x y c hxc hyc
      rcases update_eq_some.mp hxc with ⟨-, ⟨⟩⟩ | ⟨-, hxc⟩
      rcases update_eq_some.mp hyc with ⟨-, ⟨⟩⟩ | ⟨-, hyc⟩
      exact h.injective x y c hxc hyc
    live := by
      intro t' w' hw' hid'
      have hne := hother t' w' hw' hid'
      have hlive := hgone.live t' w' hw' hid'
      simpa [State.workerTo, State.setWorker, hne] using hlive
    distinct := hgone.distinct
    request := by
      intro e he
      have hne : e.id ≠ w.id := ((h.request e he).2 t w hw hid).symm
      refine ⟨?_, (hgone.request e he).2⟩
      have hlive := (h.request e he).1
      simpa [State.workerTo, State.setWorker, hne] using hlive
    slots := by
      intro k x hk
      rcases h.slots k x hk with hcl | hs | hab
      · exact .inl hcl
      · exact .inr (.inl (serving_workerTo (s := { s with ids := update s.ids w.id none }) hw
          (fun _ => rfl) hs))
      · have hne : x ≠ w.id := (hab.unused t w hw hid).symm
        refine .inr (.inr ⟨?_, ?_, hab.other⟩)
        · simpa [State.workerTo, State.setWorker, hne] using hab.live
        · exact forall_workerTo (s := { s with ids := update s.ids w.id none }) hab.unused
            fun hid' => by cases hid' }

/-- A worker stores NULL in its slot. -/
theorem clear (h : LiveIds ds s) {t : Nat} {w : Worker} {n : Nat} {k : Index}
    (hw : s.workers t = some w) (hpc : w.pc = .clear n) (hk : index? n = some k) :
    LiveIds ds ((s.setSlot k { s.slots k with id := none }).workerTo t w .loadIndexAgain) := by
  have hctx : w.ctx = k :=
    Fin.ext ((h.exclusive.clears t w n hw hpc).symm.trans (index?_eq_some hk))
  have hback : ∀ {t' w'}, (s.workerTo t w .loadIndexAgain).workers t' = some w' → w'.pc.hasId →
      s.workers t' = some w' := by
    intro t' w' hw' hid'
    rcases workerTo_cases hw' with ⟨-, rfl⟩ | ⟨-, hw'⟩
    · cases hid'
    · exact hw'
  exact {
    exclusive := h.exclusive.clear hw hpc hk
    bounded := forall_workerTo h.bounded (h.bounded t w hw)
    known := h.known
    injective := h.injective
    live := fun t' w' hw' hid' => h.live t' w' (hback hw' hid') hid'
    distinct := fun a u b v ha hb hu hv =>
      h.distinct a u b v (hback ha hu) (hback hb hv) hu hv
    request := fun e he => ⟨(h.request e he).1, fun t' w' hw' hid' =>
      (h.request e he).2 t' w' (hback hw' hid') hid'⟩
    slots := by
      intro j x hj
      have hjk : j ≠ k := by
        rintro rfl
        simp [State.setSlot, State.workerTo, State.setWorker] at hj
      have hold : (s.slots j).id = some x := by
        simpa [State.setSlot, State.workerTo, State.setWorker, hjk] using hj
      rcases h.slots j x hold with hcl | ⟨t', w', hw', hs, hctx'⟩ | hab
      · exact .inl hcl
      · have htt : t' ≠ t := by
          rintro rfl
          obtain rfl : w = w' := Option.some.inj (hw.symm.trans hw')
          exact hjk (hctx'.symm.trans hctx)
        refine .inr (.inl ⟨t', w', ?_, hs, hctx'⟩)
        simp [State.setSlot, State.workerTo, State.setWorker, htt, hw']
      · exact .inr (.inr ⟨hab.live, fun t' w' hw' hid' =>
          hab.unused t' w' (hback hw' hid') hid', hab.other⟩) }

end LiveIds

/-- While librdmacm keeps its promises, no statement of any thread makes an
address stand for two connections. -/
theorem liveIds_step (s : System) (a : Action) (t : System) (h : LiveIds s.dispatched s.server)
    (ha : s.Allowed a) (hs : s.step a = some t) : LiveIds t.dispatched t.server := by
  obtain ⟨u, hu, rfl⟩ := Option.map_eq_some_iff.mp hs
  have hex := exclusive_step s.server a u h.exclusive hu
  cases Step.of_step hu with
  | @cmEvent e hloop =>
    obtain ⟨ev, x, c⟩ := e
    have hsame : ev ≠ .connectRequest →
        LiveIds (s.dispatched ++ [⟨ev, x, c⟩]) (s.server.goto (dispatchPc ⟨ev, x, c⟩)) := by
      intro hev
      have hg : LiveIds s.dispatched (s.server.goto (dispatchPc ⟨ev, x, c⟩)) := by
        refine h.goto ?_ ?_ (by simp [hloop, LoopPc.claimed])
        · simpa [State.goto, announced, hev] using hex
        · cases ev <;> simp [dispatchPc, LoopPc.request] at hev ⊢
      refine { hg with known := fun y d hy => ?_ }
      obtain ⟨e, he, hc⟩ := hg.known y d hy
      exact ⟨e, by simp [he], hc⟩
    by_cases hev : ev = .connectRequest
    · subst hev
      have hfresh : s.server.ids x = none ∧ ∀ d ∈ s.dispatched, d.conn ≠ c := ha
      exact h.connectRequest hloop hfresh.1 hfresh.2 (by simpa [announced, dispatchPc] using hex)
    · simpa [announced, hev, System.nextDispatched, State.goto] using hsame hev
  | @loopMoves r pc hmove =>
    cases hloop : s.server.loop with
    | create e k =>
      rw [hloop] at hmove
      cases hmove
      exact h.createFails hloop hex
    | _ =>
      rw [hloop] at hmove
      refine h.goto hex ?_ ?_ <;> rw [hloop] <;>
        cases hmove <;> simp [LoopPc.request, LoopPc.claimed]
  | storeId hloop | storeIndex hloop | semInit hloop =>
    exact h.fill hex (by simp [hloop, LoopPc.claimed]) rfl (by simp [hloop, LoopPc.request])
  | create hloop => exact h.create hloop
  | semPost hloop =>
    refine (h.setSem _ _).goto hex (by simp [LoopPc.request]) ?_
    simp [State.setSem, State.setSlot, hloop, LoopPc.claimed]
  | @workerMoves t w r pc hw hmove =>
    obtain ⟨hid, hserving, -⟩ := hmove.keeps
    exact h.workerTo hw hex hid (fun hs => hserving.trans hs)
  | semWait hw hpc hpos =>
    exact (h.setSem _ _).workerTo hw hex (by simp [hpc, WorkerPc.hasId, WorkerPc.waiting])
      (by simp [WorkerPc.serving])
  | @destroyId t w r x hw hpc hx =>
    obtain rfl : w.id = x := Option.some.inj
      ((h.exclusive.owns t w hw (by simp [hpc, WorkerPc.serving])).1.symm.trans hx)
    exact h.destroyId hw hpc hex
  | clear hw hpc hk => exact h.clear hw hpc hk
  | @semDestroy t w r n k hw hpc hk =>
    exact (h.setSem _ _).workerTo hw hex (by simp [WorkerPc.hasId, WorkerPc.waiting])
      (by simp [hpc, WorkerPc.serving])
  | ends hst =>
    refine ⟨hex, h.bounded, fun x c hx => ?_, h.injective, h.live, h.distinct, h.request, ?_⟩
    · obtain ⟨d, hd, hc⟩ := h.known x c hx
      exact ⟨d, System.mem_nextDispatched a hd, hc⟩
    · exact fun k x hk => (h.slots k x hk).imp_right
        (Or.imp_right fun hab => ⟨hab.live, hab.unused, hab.other⟩)

/-- So it is in every run. -/
theorem liveIds_run {as : List Action} {s : System} (h : Run.run System.step .initial as = some s)
    (ha : Run.Meets System.step System.Allowed .initial as) : LiveIds s.dispatched s.server :=
  ha.invariant (I := fun s => LiveIds s.dispatched s.server)
    (fun s a t hi ha hs => liveIds_step s a t hi ha hs) h .initial

end RdmaTutorial.Rdmacm04
