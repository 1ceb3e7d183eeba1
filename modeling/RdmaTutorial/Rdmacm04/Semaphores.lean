import RdmaTutorial.Rdmacm04.Events

/-!
# rdmacm04/server.c: whose semaphore it is

A worker stores NULL in its slot before it destroys the slot's semaphore. In
between the event thread may take the slot for another connection and initialise
the semaphore again; the worker then destroys it under the other connection. A
post may come too late as well, when the search has found a slot whose worker is
on its way out.
-/

namespace RdmaTutorial.Rdmacm04

open Function Ownership

/-- `sem_init` comes only after the last worker of the slot has executed its
`sem_destroy`, and no `sem_destroy` between the moment the search has found the
slot and the post. This is about where the threads are in their programs; that each
`sem_wait`, `sem_post` and `sem_destroy` finds a semaphore that is initialised, and
its own, is what follows. -/
def Separate (s : System) (a : Action) : Prop :=
  match a with
  | .loop _ =>
    match s.server.loop with
    | .semInit _ k => ∀ t < s.server.created, ∀ w ∈ s.server.workers t, w.ctx = k → w.pc = .done
    | _ => True
  | .worker t _ =>
    match (s.server.workers t).map Worker.pc, s.server.loop with
    | some (.semDestroy n), .semPost _ k => n ≠ k
    | _, _ => True
  | _ => True

/-- The slot whose semaphore the event thread initialises next. -/
def LoopPc.initialises : LoopPc → Option Index
  | .semInit _ k => some k
  | _ => none

/-- The slot whose semaphore it posts next. -/
def LoopPc.posts : LoopPc → Option Index
  | .semPost _ k => some k
  | _ => none

theorem separate_loop {s : System} {r : Result} : Separate s (.loop r) ↔
    ∀ k ∈ s.server.loop.initialises, ∀ t < s.server.created, ∀ w ∈ s.server.workers t,
      w.ctx = k → w.pc = .done := by
  cases hl : s.server.loop <;> simp [Separate, hl, LoopPc.initialises]

theorem separate_worker {s : System} {t : Nat} {r : Result} : Separate s (.worker t r) ↔
    ∀ w ∈ s.server.workers t, ∀ k ∈ s.server.loop.posts, w.pc ≠ .semDestroy k := by
  cases hw : s.server.workers t with
  | none => simp [Separate, hw]
  | some w =>
    cases hp : w.pc <;> cases hl : s.server.loop <;> simp [Separate, hw, hp, hl, LoopPc.posts]

instance (s : System) : DecidablePred (Separate s)
  | .loop _ => decidable_of_iff _ separate_loop.symm
  | .worker .. => decidable_of_iff _ separate_worker.symm
  | .cmEvent _ => .isTrue trivial
  | .dies .. => .isTrue trivial

/-- The worker has executed its store of NULL, and not its `sem_destroy`. -/
def WorkerPc.ending : WorkerPc → Bool
  | .loadIndexAgain => true
  | .semDestroy _ => true
  | _ => false

/-- Every semaphore that is initialised belongs to a connection: to the worker
of its slot until that has destroyed it, or to the request the next worker is
made for, or, where `pthread_create` has failed, to nobody for good. -/
structure SemOwned (s : System) : Prop where
  exclusive : Exclusive s.server
  bounded : ∀ t w, s.server.workers t = some w → t < s.server.created
  index : ∀ t w, s.server.workers t = some w → (s.server.slots w.ctx).ctxIndex = w.ctx
  destroys : ∀ t w n, s.server.workers t = some w → w.pc = .semDestroy n → n = w.ctx
  own : ∀ t w, s.server.workers t = some w → w.pc ≠ .done →
    s.holder w.ctx = some t ∧ (s.server.slots w.ctx).established.alive
  ending : ∀ t w, s.server.workers t = some w → w.pc.ending →
    (s.server.slots w.ctx).id = none ∨ s.server.loop.claimed = some w.ctx
  starting : ∀ e k, s.server.loop = .create e k → s.holder k = some s.server.created ∧
    (s.server.slots k).established.alive ∧
      ∀ t w, s.server.workers t = some w → w.ctx = k → w.pc = .done
  occupied : ∀ k, (s.server.slots k).id ≠ none → s.server.loop.claimed ≠ some k →
    (s.server.slots k).established.alive
  held : ∀ k t, s.holder k = some t →
    (∃ w, s.server.workers t = some w ∧ w.ctx = k ∧ w.pc ≠ .done) ∨
    (∃ e, s.server.loop = .create e k) ∨
    ((s.server.slots k).id ≠ none ∧ s.server.loop.claimed ≠ some k ∧ Unowned s.server k)
  posting : ∀ e k, s.server.loop = .semPost e k → (s.server.slots k).established.alive

namespace SemOwned

variable {s : System}

theorem initial : SemOwned .initial where
  exclusive := .initial
  bounded := by simp [System.initial, State.initial]
  index := by simp [System.initial, State.initial]
  destroys := by simp [System.initial, State.initial]
  own := by simp [System.initial, State.initial]
  ending := by simp [System.initial, State.initial]
  starting := by simp [System.initial, State.initial]
  occupied := by simp [System.initial, State.initial]
  held := by simp [System.initial]
  posting := by simp [System.initial, State.initial]

/-- The event thread goes on, and neither takes up a slot nor gives one up. -/
theorem goto (h : SemOwned s) (ds : List CmEvent) (ids : Id → Option Conn) {pc : LoopPc}
    (hex : Exclusive { s.server with loop := pc, ids := ids })
    (hclaim : pc.claimed = none) (hold : s.server.loop.claimed = none)
    (hpost : ∀ e k, pc = .semPost e k → (s.server.slots k).id ≠ none) :
    SemOwned ⟨{ s.server with loop := pc, ids := ids }, ds, s.holder⟩ where
  exclusive := hex
  bounded := h.bounded
  index := h.index
  destroys := h.destroys
  own := h.own
  ending t w hw hend := by
    rcases h.ending t w hw hend with hid | hcl
    · exact .inl hid
    · simp [hold] at hcl
  starting := by
    rintro e k rfl
    simp [LoopPc.claimed] at hclaim
  occupied k hid _ := h.occupied k hid (by simp [hold])
  held k t hk := by
    rcases h.held k t hk with hw | ⟨e, hl⟩ | ⟨hid, -, hun⟩
    · exact .inl hw
    · simp [hl, LoopPc.claimed] at hold
    · exact .inr (.inr ⟨hid, by simp [hclaim], hun⟩)
  posting e k hl := h.occupied k (hpost e k hl) (by simp [hold])

/-- The scan has found a free slot. -/
theorem claim (h : SemOwned s) (ds : List CmEvent) {e : CmEvent} {k : Index}
    (hex : Exclusive (s.server.goto (.storeId e k))) (hold : s.server.loop.claimed = none)
    (hfree : (s.server.slots k).id = none) :
    SemOwned ⟨s.server.goto (.storeId e k), ds, s.holder⟩ where
  exclusive := hex
  bounded := h.bounded
  index := h.index
  destroys := h.destroys
  own := h.own
  ending t w hw hend := by
    rcases h.ending t w hw hend with hid | hcl
    · exact .inl hid
    · simp [hold] at hcl
  starting := by simp [State.goto]
  occupied j hid _ := h.occupied j hid (by simp [hold])
  held j t hj := by
    rcases h.held j t hj with hw | ⟨e', hl⟩ | ⟨hid, -, hun⟩
    · exact .inl hw
    · simp [hl, LoopPc.claimed] at hold
    · have hne : k ≠ j := by
        rintro rfl
        exact hid hfree
      exact .inr (.inr ⟨hid, by simp [State.goto, LoopPc.claimed, hne], hun⟩)
  posting := by simp [State.goto]

/-- The event thread writes an id or an index to the slot it claims. -/
theorem fill (h : SemOwned s) (ds : List CmEvent) {k : Index} {c : Slot} {pc : LoopPc}
    (hex : Exclusive ((s.server.setSlot k c).goto pc)) (hclaim : s.server.loop.claimed = some k)
    (hpc : pc.claimed = some k) (hcreate : ∀ e j, pc ≠ .create e j)
    (hnot : ∀ e j, s.server.loop ≠ .create e j)
    (hsem : c.established = (s.server.slots k).established)
    (hindex : c.ctxIndex = (s.server.slots k).ctxIndex ∨ c.ctxIndex = k) :
    SemOwned ⟨(s.server.setSlot k c).goto pc, ds, s.holder⟩ := by
  have hslot : ∀ j, j ≠ k → ((s.server.setSlot k c).goto pc).slots j = s.server.slots j :=
    fun j hj => by simp [State.setSlot, State.goto, hj]
  have hself : ((s.server.setSlot k c).goto pc).slots k = c := by
    simp [State.setSlot, State.goto]
  have hestab : ∀ j, (((s.server.setSlot k c).goto pc).slots j).established =
      (s.server.slots j).established := by
    intro j
    by_cases hj : j = k
    · rw [hj, hself, hsem]
    · rw [hslot j hj]
  exact {
    exclusive := hex
    bounded := h.bounded
    index := by
      intro t w hw
      by_cases hj : w.ctx = k
      · rcases hindex with hi | hi
        · simp only [hj, hself, hi]
          exact hj ▸ h.index t w hw
        · simp only [hj, hself, hi]
      · simp only [hslot _ hj]
        exact h.index t w hw
    destroys := h.destroys
    own := by
      intro t w hw hne
      simp only [hestab]
      exact h.own t w hw hne
    ending := by
      intro t w hw hend
      by_cases hj : w.ctx = k
      · exact .inr (hj ▸ hpc)
      · rcases h.ending t w hw hend with hid | hcl
        · refine .inl ?_
          simp only [hslot _ hj]
          exact hid
        · exact absurd (Option.some.inj (hcl.symm.trans hclaim)) hj
    starting := fun e j hl => absurd hl (hcreate e j)
    occupied := by
      intro j hid hcl
      have hj : j ≠ k := by
        rintro rfl
        exact hcl hpc
      simp only [hestab]
      simp only [hslot j hj] at hid
      exact h.occupied j hid (by simp [hclaim, hj.symm])
    held := by
      intro j t hj
      rcases h.held j t hj with hw | ⟨e', hl⟩ | ⟨hid, hcl, hun⟩
      · exact .inl hw
      · exact absurd hl (hnot e' j)
      · have hjk : j ≠ k := by
          rintro rfl
          exact hcl hclaim
        refine .inr (.inr ⟨?_, ?_, hun⟩)
        · simp only [hslot j hjk]
          exact hid
        · show pc.claimed ≠ some j
          simp [hpc, hjk.symm]
    posting := by
      intro e j hl
      have hl' : pc = .semPost e j := hl
      simp [hl', LoopPc.claimed] at hpc }

/-- `sem_init`, when no worker has the slot any more. -/
theorem semInit (h : SemOwned s) (ds : List CmEvent) {e : CmEvent} {k : Index}
    (hloop : s.server.loop = .semInit e k)
    (hex : Exclusive ((s.server.setSem k ⟨true, 0⟩).goto (.create e k)))
    (hdone : ∀ t w, s.server.workers t = some w → w.ctx = k → w.pc = .done) :
    SemOwned ⟨(s.server.setSem k ⟨true, 0⟩).goto (.create e k), ds,
      update s.holder k (some s.server.created)⟩ where
  exclusive := hex
  bounded := h.bounded
  index t w hw := by
    show ((s.server.setSem k ⟨true, 0⟩).slots w.ctx).ctxIndex = w.ctx
    rw [State.setSem_ctxIndex]
    exact h.index t w hw
  destroys := h.destroys
  own t w hw hne := by
    have hj : w.ctx ≠ k := fun heq => hne (hdone t w hw heq)
    simpa [State.setSem, State.setSlot, State.goto, hj] using h.own t w hw hne
  ending t w hw hend := by
    have hj : w.ctx ≠ k := fun heq => by
      simp [hdone t w hw heq, WorkerPc.ending] at hend
    rcases h.ending t w hw hend with hid | hcl
    · exact .inl (by simpa [State.goto] using hid)
    · simp [hloop, LoopPc.claimed, Ne.symm hj] at hcl
  starting := by
    rintro _ _ ⟨⟩
    exact ⟨by simp [State.setSem, State.setSlot, State.goto],
      by simp [State.setSem, State.setSlot, State.goto], hdone⟩
  occupied j hid hcl := by
    have hj : j ≠ k := by
      rintro rfl
      exact hcl rfl
    have hold : (s.server.slots j).established.alive :=
      h.occupied j (by simpa [State.goto] using hid) (by simp [hloop, LoopPc.claimed, hj.symm])
    simpa [State.setSem, State.setSlot, State.goto, hj] using hold
  held j t hj := by
    rcases update_eq_some.mp hj with ⟨rfl, -⟩ | ⟨hjk, hj⟩
    · exact .inr (.inl ⟨e, rfl⟩)
    · rcases h.held j t hj with hw | ⟨e', hl⟩ | ⟨hid, -, hun⟩
      · exact .inl hw
      · simp [hloop] at hl
      · refine .inr (.inr ⟨by simpa [State.goto] using hid, ?_, hun⟩)
        simp [State.goto, LoopPc.claimed, Ne.symm hjk]
  posting := by simp [State.goto]

/-- The slot a worker is made for is no other worker's any more. -/
theorem cleared (h : SemOwned s) {e : CmEvent} {k : Index} (hloop : s.server.loop = .create e k)
    {t : Nat} {w : Worker} (hw : s.server.workers t = some w) (hend : w.pc.ending) :
    (s.server.slots w.ctx).id = none := by
  rcases h.ending t w hw hend with hid | hcl
  · exact hid
  · obtain rfl : k = w.ctx := by simpa [hloop, LoopPc.claimed] using hcl
    simp [(h.starting e w.ctx hloop).2.2 t w hw rfl, WorkerPc.ending] at hend

/-- `pthread_create` fails: the semaphore stays initialised, and the slot
occupied, for good. -/
theorem createFails (h : SemOwned s) (ds : List CmEvent) {e : CmEvent} {k : Index}
    (hloop : s.server.loop = .create e k) (hex : Exclusive (s.server.goto (.reject e))) :
    SemOwned ⟨s.server.goto (.reject e), ds, s.holder⟩ := by
  obtain ⟨-, halive, -⟩ := h.starting e k hloop
  have hfilled : (s.server.slots k).id = some e.id ∧ (s.server.slots k).ctxIndex = k := by
    simpa [hloop, Filled] using h.exclusive.filled
  exact {
    exclusive := hex
    bounded := h.bounded
    index := h.index
    destroys := h.destroys
    own := h.own
    ending := fun t w hw hend => .inl (h.cleared hloop hw hend)
    starting := by simp [State.goto]
    occupied := by
      intro j hid _
      by_cases hj : j = k
      · subst hj
        exact halive
      · exact h.occupied j hid (by simp [hloop, LoopPc.claimed, Ne.symm hj])
    held := by
      intro j t hj
      rcases h.held j t hj with hw | ⟨e', hl⟩ | ⟨hid, -, hun⟩
      · exact .inl hw
      · obtain ⟨-, rfl⟩ : e = e' ∧ k = j := by simpa [hloop] using hl
        refine .inr (.inr ⟨by simp [State.goto, hfilled.1], by simp [State.goto, LoopPc.claimed],
          h.exclusive.unowned k (by simp [hloop, LoopPc.claimed])⟩)
      · exact .inr (.inr ⟨hid, by simp [State.goto, LoopPc.claimed], hun⟩)
    posting := by simp [State.goto] }

/-- A worker starts, with the semaphore initialised for it. -/
theorem create (h : SemOwned s) (ds : List CmEvent) {e : CmEvent} {k : Index}
    (hloop : s.server.loop = .create e k) :
    SemOwned ⟨{ s.server with
      workers := update s.server.workers s.server.created
        (some { ctx := k, pc := .setup, id := e.id, conn := e.conn }),
      created := s.server.created + 1,
      loop := .ack false }, ds, s.holder⟩ := by
  obtain ⟨hholder, halive, -⟩ := h.starting e k hloop
  have hfilled : (s.server.slots k).id = some e.id ∧ (s.server.slots k).ctxIndex = k := by
    simpa [hloop, Filled] using h.exclusive.filled
  exact {
    exclusive := h.exclusive.create hloop
    bounded := forall_update (fun t w hw => Nat.lt_succ_of_lt (h.bounded t w hw))
      (Nat.lt_succ_self _)
    index := forall_update h.index hfilled.2
    destroys := fun t w n => forall_update (fun t w => h.destroys t w n) (by simp) t w
    own := forall_update h.own fun _ => ⟨hholder, halive⟩
    ending := forall_update (fun t w hw hend => .inl (h.cleared hloop hw hend))
      (by simp [WorkerPc.ending])
    starting := by simp
    occupied := by
      intro j hid _
      by_cases hj : j = k
      · subst hj
        exact halive
      · exact h.occupied j hid (by simp [hloop, LoopPc.claimed, Ne.symm hj])
    held := by
      intro j t hj
      rcases h.held j t hj with ⟨w, hw, hctx, hne⟩ | ⟨e', hl⟩ | ⟨hid, hcl, hun⟩
      · have hlt : t ≠ s.server.created := Nat.ne_of_lt (h.bounded t w hw)
        exact .inl ⟨w, by simp [hlt, hw], hctx, hne⟩
      · obtain ⟨-, rfl⟩ : e = e' ∧ k = j := by simpa [hloop] using hl
        obtain rfl : s.server.created = t := Option.some.inj (hholder.symm.trans hj)
        exact .inl ⟨_, update_self .., rfl, by simp⟩
      · have hjk : k ≠ j := by
          rintro rfl
          simp [hloop, LoopPc.claimed] at hcl
        exact .inr (.inr ⟨hid, by simp [LoopPc.claimed], forall_update hun fun _ => hjk⟩)
    posting := by simp }

/-- A post, or a wait that is over: a counter changes. -/
theorem setSem (h : SemOwned s) (k : Index) (m : Sem)
    (hm : m.alive = (s.server.slots k).established.alive) :
    SemOwned ⟨s.server.setSem k m, s.dispatched, s.holder⟩ := by
  have halive : ∀ j, ((s.server.setSem k m).slots j).established.alive =
      (s.server.slots j).established.alive := by
    intro j
    by_cases hj : j = k
    · subst hj; simp [State.setSem, State.setSlot, hm]
    · simp [State.setSem, State.setSlot, hj]
  exact {
    exclusive := h.exclusive.setSem k m
    bounded := h.bounded
    index := by
      intro t w hw
      rw [State.setSem_ctxIndex]
      exact h.index t w hw
    destroys := h.destroys
    own := by
      intro t w hw hne
      rw [halive]
      exact h.own t w hw hne
    ending := by
      intro t w hw hend
      rw [State.setSem_id]
      exact h.ending t w hw hend
    starting := by
      intro e j hl
      rw [halive]
      exact h.starting e j hl
    occupied := by
      intro j hid hcl
      rw [State.setSem_id] at hid
      rw [halive]
      exact h.occupied j hid hcl
    held := by
      intro j t hj
      rw [State.setSem_id]
      exact h.held j t hj
    posting := by
      intro e j hl
      rw [halive]
      exact h.posting e j hl }

/-- A worker goes on, and is not done. -/
theorem workerTo (h : SemOwned s) (ds : List CmEvent) (ids : Id → Option Conn) {t : Nat}
    {w : Worker} {pc : WorkerPc} (hw : s.server.workers t = some w)
    (hex : Exclusive ({ s.server with ids := ids }.workerTo t w pc)) (hpc : w.pc ≠ .done)
    (hne : pc ≠ .done) (hend : pc.ending → w.pc.ending) (hserving : pc.serving → w.pc.serving)
    (hdestroy : ∀ n, pc = .semDestroy n → n = w.ctx) :
    SemOwned ⟨{ s.server with ids := ids }.workerTo t w pc, ds, s.holder⟩ := by
  exact {
    exclusive := hex
    bounded := forall_workerTo h.bounded (h.bounded t w hw)
    index := forall_workerTo h.index (h.index t w hw)
    destroys := fun t' w' n hw' =>
      forall_workerTo (fun a v hv => h.destroys a v n hv) (hdestroy n) t' w' hw'
    own := forall_workerTo h.own fun _ => h.own t w hw hpc
    ending := forall_workerTo h.ending fun hend' => h.ending t w hw (hend hend')
    starting := by
      intro e k hl
      obtain ⟨hholder, halive, hdone⟩ := h.starting e k hl
      refine ⟨hholder, halive, forall_workerTo hdone fun hctx => ?_⟩
      exact absurd (hdone t w hw hctx) hpc
    occupied := h.occupied
    held := by
      intro k t' hk
      rcases h.held k t' hk with hown | hcr | ⟨hid, hcl, hun⟩
      · exact .inl (exists_workerTo hw (And.imp_right fun _ => hne) hown)
      · exact .inr (.inl hcr)
      · refine .inr (.inr ⟨hid, hcl, forall_workerTo hun fun hs => ?_⟩)
        exact hun t w hw (hserving hs)
    posting := h.posting }

/-- A worker stores NULL. Its semaphore stays initialised. -/
theorem clear (h : SemOwned s) (ds : List CmEvent) {t : Nat} {w : Worker} {n : Nat} {k : Index}
    (hw : s.server.workers t = some w) (hpc : w.pc = .clear n) (hk : index? n = some k) :
    SemOwned ⟨(s.server.setSlot k { s.server.slots k with id := none }).workerTo t w
      .loadIndexAgain, ds, s.holder⟩ := by
  have hserving : w.pc.serving := by simp [hpc, WorkerPc.serving]
  have hctx : w.ctx = k :=
    Fin.ext ((h.exclusive.clears t w n hw hpc).symm.trans (index?_eq_some hk))
  have hslot : ∀ j, (update s.server.slots k { s.server.slots k with id := none }) j =
      { s.server.slots j with id := if j = k then none else (s.server.slots j).id } := by
    intro j
    by_cases hj : j = k
    · subst hj; simp
    · simp [hj]
  exact {
    exclusive := h.exclusive.clear hw hpc hk
    bounded := forall_workerTo h.bounded (h.bounded t w hw)
    index := by
      intro t' w' hw'
      show (update s.server.slots k _ w'.ctx).ctxIndex = w'.ctx
      rw [hslot]
      refine forall_workerTo h.index ?_ t' w' hw'
      exact h.index t w hw
    destroys := fun t' w' m hw' =>
      forall_workerTo (fun a v hv => h.destroys a v m hv) (by simp) t' w' hw'
    own := by
      intro t' w' hw' hne
      show s.holder w'.ctx = some t' ∧ (update s.server.slots k _ w'.ctx).established.alive
      rw [hslot]
      refine forall_workerTo h.own (fun _ => ?_) t' w' hw' hne
      exact h.own t w hw (by simp [hpc])
    ending := by
      intro t' w' hw' hend
      show (update s.server.slots k _ w'.ctx).id = none ∨ s.server.loop.claimed = some w'.ctx
      rw [hslot]
      rcases workerTo_cases (s := s.server) hw' with ⟨-, rfl⟩ | ⟨-, hw'⟩
      · exact .inl (if_pos hctx)
      · refine (h.ending t' w' hw' hend).imp_left fun hid => ?_
        simp [hid]
    starting := by
      intro e j hl
      obtain ⟨hholder, halive, hdone⟩ := h.starting e j hl
      refine ⟨hholder, ?_, fun t' w' hw' hctx' => ?_⟩
      · show (update s.server.slots k _ j).established.alive = true
        rw [hslot]
        exact halive
      · refine forall_workerTo hdone (fun hctx => ?_) t' w' hw' hctx'
        exact absurd (hdone t w hw hctx) (by simp [hpc])
    occupied := by
      intro j hid hcl
      have hid' : (update s.server.slots k _ j).id ≠ none := hid
      rw [hslot] at hid'
      show (update s.server.slots k _ j).established.alive = true
      rw [hslot]
      exact h.occupied j (fun hn => hid' (by simp [hn])) hcl
    held := by
      intro j t' hj
      rcases h.held j t' hj with hown | hcr | ⟨hid, hcl, hun⟩
      · exact .inl (exists_workerTo hw (And.imp_right fun _ => by simp) hown)
      · exact .inr (.inl hcr)
      · have hjk : j ≠ k := fun heq => hun t w hw hserving (hctx.trans heq.symm)
        refine .inr (.inr ⟨?_, hcl, fun t' w' hw' hs => ?_⟩)
        · show (update s.server.slots k _ j).id ≠ none
          rw [hslot]
          simpa [hjk] using hid
        · exact forall_workerTo hun (fun hs => by cases hs) t' w' hw' hs
    posting := by
      intro e j hl
      show (update s.server.slots k _ j).established.alive = true
      rw [hslot]
      exact h.posting e j hl }

/-- A worker destroys its own semaphore, and the event thread is not about to
post it. -/
theorem semDestroy (h : SemOwned s) (ds : List CmEvent) {t : Nat} {w : Worker} {n : Nat}
    {k : Index} (hw : s.server.workers t = some w) (hpc : w.pc = .semDestroy n)
    (hk : index? n = some k) (hpost : ∀ e j, s.server.loop = .semPost e j → n ≠ j) :
    SemOwned ⟨(s.server.setSem k { (s.server.slots k).established with alive := false }).workerTo
        t w .done,
      ds, fun j => if (j : Nat) = n ∧ s.holder j = some t then none else s.holder j⟩ := by
  have hnk : n = k := index?_eq_some hk
  have hctx : w.ctx = k := Fin.ext ((h.destroys t w n hw hpc).symm.trans hnk)
  have hend : w.pc.ending := by simp [hpc, WorkerPc.ending]
  obtain ⟨hheld, -⟩ := h.own t w hw (by simp [hpc])
  rw [hctx] at hheld
  -- Nobody else who is not done has this slot.
  have hother : ∀ {t' w'}, t' ≠ t → s.server.workers t' = some w' → w'.pc ≠ .done → w'.ctx ≠ k := by
    intro t' w' htt hw' hne heq
    have hown := (h.own t' w' hw' hne).1
    rw [heq, hheld] at hown
    exact htt (Option.some.inj hown).symm
  have halive : ∀ j, j ≠ k → ((s.server.setSem k { (s.server.slots k).established with
      alive := false }).slots j).established = (s.server.slots j).established := fun j hj => by
    simp [State.setSem, State.setSlot, hj]
  have hholder : ∀ j, j ≠ k →
      (if (j : Nat) = n ∧ s.holder j = some t then none else s.holder j) = s.holder j := by
    intro j hj
    have hne : (j : Nat) ≠ n := fun heq => hj (Fin.ext (heq.trans hnk))
    simp [hne]
  exact {
    exclusive := (h.exclusive.setSem k _).workerTo hw (by simp [WorkerPc.serving]) (by simp)
    bounded := forall_workerTo h.bounded (h.bounded t w hw)
    index := by
      intro t' w' hw'
      show ((s.server.setSem k _).slots w'.ctx).ctxIndex = w'.ctx
      rw [State.setSem_ctxIndex]
      refine forall_workerTo h.index ?_ t' w' hw'
      exact h.index t w hw
    destroys := fun t' w' m hw' =>
      forall_workerTo (fun a v hv => h.destroys a v m hv) (by simp) t' w' hw'
    own := by
      intro t' w' hw' hne
      rcases workerTo_cases (s := s.server) hw' with ⟨-, rfl⟩ | ⟨htt, hw'⟩
      · exact absurd rfl hne
      · have hj := hother htt hw' hne
        show (if _ then none else _) = _ ∧ ((s.server.setSem k _).slots w'.ctx).established.alive
        rw [hholder _ hj, halive _ hj]
        exact h.own t' w' hw' hne
    ending := by
      intro t' w' hw' hend'
      show ((s.server.setSem k _).slots w'.ctx).id = none ∨ s.server.loop.claimed = some w'.ctx
      rw [State.setSem_id]
      exact forall_workerTo h.ending (fun hend' => by cases hend') t' w' hw' hend'
    starting := by
      intro e j hl
      obtain ⟨hholder', halive', hdone⟩ := h.starting e j hl
      have hj : j ≠ k := fun heq => by
        have hd := hdone t w hw (hctx.trans heq.symm)
        simp [hpc] at hd
      refine ⟨?_, ?_, fun t' w' hw' hctx' => ?_⟩
      · exact (hholder j hj).trans hholder'
      · show ((s.server.setSem k _).slots j).established.alive = true
        rw [halive j hj]
        exact halive'
      · exact forall_workerTo hdone (fun _ => rfl) t' w' hw' hctx'
    occupied := by
      intro j hid hcl
      have hid' : ((s.server.setSem k _).slots j).id ≠ none := hid
      rw [State.setSem_id] at hid'
      -- The slot of a worker that is ending is free, or being taken.
      have hj : j ≠ k := by
        rintro rfl
        rcases h.ending t w hw hend with hn | hc
        · exact hid' (hctx ▸ hn)
        · exact hcl (hctx ▸ hc)
      show ((s.server.setSem k _).slots j).established.alive = true
      rw [halive j hj]
      exact h.occupied j hid' hcl
    held := by
      intro j t' hj
      have hjk : j ≠ k := by
        rintro rfl
        have hnone : (if (j : Nat) = n ∧ s.holder j = some t then none else s.holder j) = none :=
          if_pos ⟨hnk.symm, hheld⟩
        exact absurd (hnone.symm.trans hj) (by simp)
      rcases h.held j t' ((hholder j hjk).symm.trans hj) with
        ⟨v, hv, hctx', hne⟩ | hcr | ⟨hid, hcl, hun⟩
      · have htt : t' ≠ t := by
          rintro rfl
          obtain rfl : w = v := Option.some.inj (hw.symm.trans hv)
          exact hjk (hctx'.symm.trans hctx)
        refine .inl ⟨v, ?_, hctx', hne⟩
        simp [State.workerTo, State.setWorker, State.setSem, State.setSlot, htt, hv]
      · exact .inr (.inl hcr)
      · refine .inr (.inr ⟨?_, hcl, fun t' w' hw' hs => ?_⟩)
        · show ((s.server.setSem k _).slots j).id ≠ none
          rw [State.setSem_id]
          exact hid
        · exact forall_workerTo hun (fun hs => by cases hs) t' w' hw' hs
    posting := by
      intro e j hl
      have hj : j ≠ k := by
        rintro rfl
        exact hpost e j hl hnk
      show ((s.server.setSem k _).slots j).established.alive = true
      rw [halive j hj]
      exact h.posting e j hl }

end SemOwned

theorem nextHolder_loop {s : System} (h : ∀ e k, s.server.loop ≠ .semInit e k) (r : Result) :
    s.nextHolder (.loop r) = s.holder := by
  cases hl : s.server.loop <;> simp_all [System.nextHolder]

theorem nextHolder_worker {s : System} {t : Nat} {w : Worker} (hw : s.server.workers t = some w)
    (hpc : ∀ n, w.pc ≠ .semDestroy n) (r : Result) : s.nextHolder (.worker t r) = s.holder := by
  cases hp : w.pc <;> simp_all [System.nextHolder]

theorem SemOwned.step {s t : System} {a : Action} (h : SemOwned s) (ha : Separate s a)
    (hs : s.step a = some t) (hrun : t.server.status = .running) : SemOwned t := by
  obtain ⟨u, hu, rfl⟩ := Option.map_eq_some_iff.mp hs
  have hex := exclusive_step s.server a u h.exclusive hu
  cases Step.of_step hu with
  | @cmEvent e hloop =>
    obtain ⟨ev, x, c⟩ := e
    refine h.goto _ _ hex ?_ (by simp [hloop, LoopPc.claimed]) ?_ <;>
      cases ev <;> simp [dispatchPc, LoopPc.claimed]
  | @loopMoves r pc hmove =>
    rw [nextHolder_loop fun e k hl => by rw [hl] at hmove; cases hmove]
    cases hloop : s.server.loop with
    | create e k =>
      rw [hloop] at hmove
      cases hmove
      exact h.createFails _ hloop hex
    | scan e i =>
      rw [hloop] at hmove
      cases hmove with
      | scanFree hk hfree => exact h.claim _ hex (by simp [hloop, LoopPc.claimed]) hfree
      | scanFull hi => exact h.goto _ _ hex rfl (by simp [hloop, LoopPc.claimed]) (by simp)
      | scanNext hk hu => exact h.goto _ _ hex rfl (by simp [hloop, LoopPc.claimed]) (by simp)
    | find e i =>
      rw [hloop] at hmove
      cases hmove with
      | findHit hk hid =>
        refine h.goto _ _ hex rfl (by simp [hloop, LoopPc.claimed]) ?_
        rintro _ _ ⟨⟩
        simp [hid]
      | findNone hi => exact h.goto _ _ hex rfl (by simp [hloop, LoopPc.claimed]) (by simp)
      | findNext hk hid => exact h.goto _ _ hex rfl (by simp [hloop, LoopPc.claimed]) (by simp)
    | _ =>
      rw [hloop] at hmove
      refine h.goto _ _ hex ?_ ?_ ?_
      · cases hmove <;> rfl
      · cases hmove <;> simp [hloop, LoopPc.claimed]
      · cases hmove <;> simp
  | storeId hloop =>
    rw [nextHolder_loop (by simp [hloop])]
    exact h.fill _ hex (by simp [hloop, LoopPc.claimed]) rfl (by simp) (by simp [hloop]) rfl
      (.inl rfl)
  | storeIndex hloop =>
    rw [nextHolder_loop (by simp [hloop])]
    exact h.fill _ hex (by simp [hloop, LoopPc.claimed]) rfl (by simp) (by simp [hloop]) rfl
      (.inr rfl)
  | @semInit r e k hloop =>
    have hholder : s.nextHolder (.loop r) = update s.holder k (some s.server.created) := by
      simp [System.nextHolder, hloop]
    rw [hholder]
    simp only [Separate, hloop] at ha
    exact h.semInit _ hloop hex fun t w hw => ha t (h.bounded t w hw) w hw
  | create hloop =>
    rw [nextHolder_loop (by simp [hloop])]
    exact h.create _ hloop
  | @semPost r e k hloop =>
    rw [nextHolder_loop (by simp [hloop])]
    let sem : Sem := { (s.server.slots k).established with
      value := (s.server.slots k).established.value + 1 }
    have hsem := h.setSem k sem rfl
    exact hsem.goto _ s.server.ids hex rfl
      (by simp [State.setSem, State.setSlot, hloop, LoopPc.claimed]) (by simp)
  | @workerMoves t w r pc hw hmove =>
    have hne : w.pc ≠ .done := fun hd => by rw [hd] at hmove; cases hmove
    rw [nextHolder_worker hw fun n hn => by rw [hn] at hmove; cases hmove]
    have hindex := h.index t w hw
    refine h.workerTo _ s.server.ids hw hex hne ?_ ?_ (fun hs => hmove.keeps.2.1 ▸ hs) ?_ <;>
      generalize w.pc = q at hmove <;> cases hmove <;> simp_all [WorkerPc.ending]
  | @semWait t w hw hpc hpos =>
    rw [nextHolder_worker hw (by simp [hpc])]
    let sem : Sem := { (s.server.slots w.ctx).established with
      value := (s.server.slots w.ctx).established.value - 1 }
    have hsem := h.setSem w.ctx sem rfl
    exact hsem.workerTo _ s.server.ids hw hex (by simp [hpc]) (by simp)
      (by simp [WorkerPc.ending]) (by simp [hpc, WorkerPc.serving]) (by simp)
  | destroyId hw hpc hx =>
    rw [nextHolder_worker hw (by simp [hpc])]
    exact h.workerTo _ _ hw hex (by simp [hpc]) (by simp) (by simp [WorkerPc.ending])
      (by simp [hpc, WorkerPc.serving]) (by simp)
  | clear hw hpc hk =>
    rw [nextHolder_worker hw (by simp [hpc])]
    exact h.clear _ hw hpc hk
  | @semDestroy t w r n k hw hpc hk =>
    have hholder : s.nextHolder (.worker t r) =
        fun (j : Index) => if (j : Nat) = n ∧ s.holder j = some t then none else s.holder j := by
      simp [System.nextHolder, hw, hpc]
    rw [hholder]
    apply h.semDestroy _ hw hpc hk
    intro e j hl
    simpa [Separate, hw, hpc, hl] using ha
  | ends hst => exact absurd hrun hst

/-! ## What this says of the semaphores -/

/-- `sem_init` finds the semaphore nobody's. -/
def InitsFree (s : System) (a : Action) : Prop :=
  match a, s.server.loop with
  | .loop _, .semInit _ k => s.holder k = none
  | _, _ => True

theorem initsFree_loop {s : System} {r : Result} : InitsFree s (.loop r) ↔
    ∀ k ∈ s.server.loop.initialises, s.holder k = none := by
  cases hl : s.server.loop <;> simp [InitsFree, hl, LoopPc.initialises]

instance (s : System) : DecidablePred (InitsFree s)
  | .loop _ => decidable_of_iff _ initsFree_loop.symm
  | .worker .. => .isTrue trivial
  | .cmEvent _ => .isTrue trivial
  | .dies .. => .isTrue trivial

/-- Who is about to use a semaphore has one to use. -/
structure SemUsable (s : System) : Prop where
  /-- `sem_destroy` is for the worker's own semaphore. -/
  destroy : ∀ t w n k, s.server.workers t = some w → w.pc = .semDestroy n → index? n = some k →
    s.holder k = some t
  wait : ∀ t w, s.server.workers t = some w → w.pc = .semWait →
    (s.server.slots w.ctx).established.alive
  post : ∀ e k, s.server.loop = .semPost e k → (s.server.slots k).established.alive

theorem SemOwned.usable {s : System} (h : SemOwned s) : SemUsable s where
  destroy t w n k hw hpc hk := by
    obtain rfl : w.ctx = k :=
      Fin.ext ((h.destroys t w n hw hpc).symm.trans (index?_eq_some hk))
    exact (h.own t w hw (by simp [hpc])).1
  wait t w hw hpc := (h.own t w hw (by simp [hpc])).2
  post := h.posting

/-- Who would lose the semaphore by a `sem_init` is a worker that has not
destroyed it: it is nobody's when they all have. -/
theorem SemOwned.initsFree {s : System} (h : SemOwned s) {a : Action} (ha : Separate s a) :
    InitsFree s a := by
  unfold InitsFree
  split
  · rename_i e k hloop
    simp only [Separate, hloop] at ha
    cases hk : s.holder k with
    | none => rfl
    | some t =>
      rcases h.held k t hk with ⟨w, hw, hctx, hne⟩ | ⟨e', hl⟩ | ⟨-, hcl, -⟩
      · exact absurd (ha t (h.bounded t w hw) w hw hctx) hne
      · simp [hloop] at hl
      · simp [hloop, LoopPc.claimed] at hcl
  · trivial

/-- A run goes no further than the process. -/
theorem running_of_step {s t : System} {a : Action} (h : s.step a = some t) :
    s.server.status = .running := by
  obtain ⟨u, hu, -⟩ := Option.map_eq_some_iff.mp h
  unfold Rdmacm04.step at hu
  split at hu
  · assumption
  · cases hu

/-- When every worker is done with a slot before its semaphore is initialised
again, and with the search before it destroys it, nobody loses a semaphore it has
and nobody uses one that is destroyed. -/
theorem sem_lifetime {as : List Action} {s : System}
    (h : Run.run System.step .initial as = some s)
    (hsep : Run.Meets System.step Separate .initial as) :
    (s.server.status = .running → SemUsable s) ∧ Run.Meets System.step InitsFree .initial as := by
  have hstep : ∀ s a t, (s.server.status = .running → SemOwned s) → Separate s a →
      s.step a = some t → t.server.status = .running → SemOwned t :=
    fun s a t hi ha hs hrun => (hi (running_of_step hs)).step ha hs hrun
  have howned := hsep.invariant (I := fun s => s.server.status = .running → SemOwned s)
    hstep h fun _ => .initial
  refine ⟨fun hrun => (howned hrun).usable, ?_⟩
  have hkept := (hsep.keeping (I := fun s => s.server.status = .running → SemOwned s)
    hstep fun _ => .initial).and (.enabled h)
  apply hkept.mono
  intro s a hsa
  obtain ⟨t, ht⟩ := Option.isSome_iff_exists.mp hsa.2
  exact (hsa.1.1 (running_of_step ht)).initsFree hsa.1.2

/-- Connection 1 comes to slot 0. The worker of connection 0 has executed
`before` statements behind `sem_wait` by then; `after` more of it follow, and
`second` of the worker of connection 1. -/
def slotReused (before after second : Nat) : List Action :=
  request 100 0 0 ++ worker 0 2 ++
    [.cmEvent ⟨.established, 100, 0⟩, .loop .ok, .loop .ok, .loop .ok] ++
    worker 0 before ++ request 200 1 0 ++ worker 0 after ++ worker 1 second

/-- The first worker is done when slot 0 is taken again. -/
theorem sem_lifetime_reused : ∃ s, Run.run System.step .initial (slotReused 9 0 2) = some s ∧
    s.server.workers 1 = some ⟨0, .semWait, 200, 1⟩ ∧ SemUsable s ∧
    Run.Meets System.step InitsFree .initial (slotReused 9 0 2) := by
  have hrun : (Run.run System.step .initial (slotReused 9 0 2)).map
      (fun s => (s.server.status, s.server.workers 1)) =
      some (.running, some ⟨0, .semWait, 200, 1⟩) := by decide +kernel
  obtain ⟨s, hs, hpair⟩ := Option.map_eq_some_iff.mp hrun
  obtain ⟨hst, hw⟩ := Prod.mk.inj hpair
  obtain ⟨husable, hinits⟩ := sem_lifetime hs (by decide +kernel)
  exact ⟨s, hs, hw, husable hst, hinits⟩

/-- It has only stored NULL: the semaphore is initialised under it, and its
`sem_destroy` comes when the second worker waits. -/
theorem sem_destroyed_by_another : ∃ s,
    Run.run System.step .initial (slotReused 7 2 2) = some s ∧
    Run.Meets System.step System.Allowed .initial (slotReused 7 2 2) ∧
    ¬Run.Meets System.step InitsFree .initial (slotReused 7 2 2) ∧
    s.server.workers 1 = some ⟨0, .semWait, 200, 1⟩ ∧
    ¬(s.server.slots 0).established.alive ∧ ¬SemUsable s := by
  have hrun : (Run.run System.step .initial (slotReused 7 2 2)).map
      (fun s => (s.server.workers 1, (s.server.slots 0).established.alive)) =
      some (some ⟨0, .semWait, 200, 1⟩, false) := by decide +kernel
  obtain ⟨s, hs, hpair⟩ := Option.map_eq_some_iff.mp hrun
  obtain ⟨hw, hdead⟩ := Prod.mk.inj hpair
  refine ⟨s, hs, by decide +kernel, by decide +kernel, hw, by simp [hdead], fun husable => ?_⟩
  have halive := husable.wait 1 _ hw rfl
  simp [hdead] at halive

end RdmaTutorial.Rdmacm04
