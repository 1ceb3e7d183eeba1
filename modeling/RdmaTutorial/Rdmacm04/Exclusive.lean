import Mathlib.Data.Fintype.Card
import RdmaTutorial.Lib.Ownership
import RdmaTutorial.Rdmacm04.Slots

/-!
# rdmacm04/server.c: one worker, one slot

The event thread finds a free slot by a scan that workers may interrupt with
their stores of NULL. That is no harm: they only free slots, only their own,
and the slot the event thread is filling in is nobody's yet.
-/

namespace RdmaTutorial.Rdmacm04

open Function Ownership

/-- The slot the event thread is filling in. -/
def LoopPc.claimed : LoopPc → Option Index
  | .storeId _ k => some k
  | .storeIndex _ k => some k
  | .semInit _ k => some k
  | .create _ k => some k
  | _ => none

/-- What the event thread has stored in the slot so far. -/
def Filled (slots : Index → Slot) : LoopPc → Prop
  | .storeId _ k => (slots k).id = none
  | .storeIndex e k => (slots k).id = some e.id
  | .semInit e k => (slots k).id = some e.id ∧ (slots k).ctxIndex = k
  | .create e k => (slots k).id = some e.id ∧ (slots k).ctxIndex = k
  | _ => True

/-- No worker that serves has the slot `k`. -/
def Unowned (s : State) (k : Index) : Prop :=
  ∀ t w, s.workers t = some w → w.pc.serving → w.ctx ≠ k

/-- A worker of the next state is one of this state, further on. -/
theorem workerTo_cases {s : State} {t t' : Nat} {w w' : Worker} {pc : WorkerPc}
    (h : (s.workerTo t w pc).workers t' = some w') :
    (t' = t ∧ w' = { w with pc := pc }) ∨ (t' ≠ t ∧ s.workers t' = some w') := by
  rcases update_eq_some.mp h with ⟨rfl, ⟨⟩⟩ | h
  · exact .inl ⟨rfl, rfl⟩
  · exact .inr h

/-- What holds of all workers holds on, if it does of the one that moves. -/
theorem forall_workerTo {s : State} {t : Nat} {w : Worker} {pc : WorkerPc}
    {Q : Nat → Worker → Prop} (h : ∀ t' w', s.workers t' = some w' → Q t' w')
    (hself : Q t { w with pc := pc }) :
    ∀ t' w', (s.workerTo t w pc).workers t' = some w' → Q t' w' :=
  forall_update h hself

/-- A worker is there still, if the one that moves is what it was. -/
theorem exists_workerTo {s : State} {t t' : Nat} {w : Worker} {pc : WorkerPc}
    {Q : Worker → Prop} (hw : s.workers t = some w) (hself : Q w → Q { w with pc := pc })
    (h : ∃ w', s.workers t' = some w' ∧ Q w') :
    ∃ w', (s.workerTo t w pc).workers t' = some w' ∧ Q w' := by
  obtain ⟨w', hw', hq⟩ := h
  by_cases htt : t' = t
  · subst htt
    obtain rfl : w = w' := Option.some.inj (hw.symm.trans hw')
    exact ⟨_, update_self .., hself hq⟩
  · exact ⟨w', by simp [State.workerTo, State.setWorker, htt, hw'], hq⟩

structure Exclusive (s : State) : Prop where
  owns : ∀ t w, s.workers t = some w → w.pc.serving →
    (s.slots w.ctx).id = some w.id ∧ (s.slots w.ctx).ctxIndex = w.ctx
  alone : ∀ t w t' w', s.workers t = some w → s.workers t' = some w' → w.pc.serving →
    w'.pc.serving → w.ctx = w'.ctx → t = t'
  clears : ∀ t w n, s.workers t = some w → w.pc = .clear n → n = w.ctx
  unowned : ∀ k, s.loop.claimed = some k → Unowned s k
  filled : Filled s.slots s.loop

namespace Exclusive

variable {s : State}

theorem initial : Exclusive .initial where
  owns := by simp [State.initial]
  alone := by simp [State.initial]
  clears := by simp [State.initial]
  unowned := by simp [State.initial, LoopPc.claimed]
  filled := trivial

/-- A slot that holds NULL has no owner. -/
theorem unowned_of_free (h : Exclusive s) {k : Index} (hk : (s.slots k).id = none) :
    Unowned s k := by
  rintro t w hw hserving rfl
  simp [(h.owns t w hw hserving).1] at hk

/-- The event thread goes on, and claims no slot somebody has. -/
theorem goto (h : Exclusive s) {pc : LoopPc} (hpc : ∀ k, pc.claimed = some k → Unowned s k)
    (hfilled : Filled s.slots pc) : Exclusive (s.goto pc) :=
  ⟨h.owns, h.alone, h.clears, hpc, hfilled⟩

/-- The event thread writes to the slot it claims. -/
theorem fill (h : Exclusive s) {k : Index} {c : Slot} {pc : LoopPc} (hk : Unowned s k)
    (hpc : pc.claimed = some k) (hfilled : Filled (update s.slots k c) pc) :
    Exclusive ((s.setSlot k c).goto pc) where
  owns t w hw hserving := by
    simpa [State.setSlot, State.goto, hk t w hw hserving] using h.owns t w hw hserving
  alone := h.alone
  clears := h.clears
  unowned k' hk' := by
    cases hpc.symm.trans hk'
    exact hk
  filled := hfilled

/-- A semaphore changes. -/
theorem setSem (h : Exclusive s) (k : Index) (m : Sem) : Exclusive (s.setSem k m) where
  owns t w hw hserving := by
    rw [State.setSem_id, State.setSem_ctxIndex]
    exact h.owns t w hw hserving
  alone := h.alone
  clears := h.clears
  unowned := h.unowned
  filled := by
    have hf := h.filled
    show Filled (s.setSem k m).slots s.loop
    cases hloop : s.loop <;> simp_all [Filled]

/-- A worker goes on; it stops serving or serves as before. -/
theorem workerTo (h : Exclusive s) {t : Nat} {w : Worker} {pc : WorkerPc}
    (hw : s.workers t = some w) (hserving : pc.serving → w.pc.serving)
    (hclear : ∀ n, pc = .clear n → n = w.ctx) : Exclusive (s.workerTo t w pc) := by
  have hback : ∀ t' w', (s.workerTo t w pc).workers t' = some w' →
      ∃ v, s.workers t' = some v ∧ w'.ctx = v.ctx ∧ w'.id = v.id ∧
        (w'.pc.serving → v.pc.serving) ∧ (∀ n, w'.pc = .clear n → n = v.ctx) := by
    intro t' w' hw'
    rcases workerTo_cases hw' with ⟨rfl, rfl⟩ | ⟨-, hw'⟩
    · exact ⟨w, hw, rfl, rfl, hserving, hclear⟩
    · exact ⟨w', hw', rfl, rfl, id, fun n => h.clears t' w' n hw'⟩
  exact {
    owns := by
      intro t' w' hw' hs
      obtain ⟨v, hv, hctx, hid, hsv, -⟩ := hback t' w' hw'
      rw [hctx, hid]
      exact h.owns t' v hv (hsv hs)
    alone := by
      intro a u b v ha hb hu hv hctx
      obtain ⟨u', hu', hcu, -, hsu, -⟩ := hback a u ha
      obtain ⟨v', hv', hcv, -, hsv, -⟩ := hback b v hb
      exact h.alone a u' b v' hu' hv' (hsu hu) (hsv hv) (hcu ▸ hcv ▸ hctx)
    clears := by
      intro t' w' n hw' hn
      obtain ⟨v, hv, hctx, -, -, hc⟩ := hback t' w' hw'
      exact hctx ▸ hc n hn
    unowned := by
      intro k hk t' w' hw' hs
      obtain ⟨v, hv, hctx, -, hsv, -⟩ := hback t' w' hw'
      exact hctx ▸ h.unowned k hk t' v hv (hsv hs)
    filled := h.filled }

/-- A worker stores NULL in its slot. -/
theorem clear (h : Exclusive s) {t : Nat} {w : Worker} {n : Nat} {k : Index}
    (hw : s.workers t = some w) (hpc : w.pc = .clear n) (hk : index? n = some k) :
    Exclusive ((s.setSlot k { s.slots k with id := none }).workerTo t w .loadIndexAgain) := by
  have hserving : w.pc.serving := by simp [hpc, WorkerPc.serving]
  -- `ctx->ctx_index` led back to the worker's own slot.
  have hctx : w.ctx = k := Fin.ext ((h.clears t w n hw hpc).symm.trans (index?_eq_some hk))
  have hgone : Exclusive (s.workerTo t w .loadIndexAgain) :=
    h.workerTo hw (by simp [WorkerPc.serving]) (by simp)
  have hother : Unowned (s.workerTo t w .loadIndexAgain) k := by
    intro t' w' hw' hs'
    rcases workerTo_cases hw' with ⟨-, rfl⟩ | ⟨hne, hw'⟩
    · cases hs'
    · exact fun heq => hne (h.alone t' w' t w hw' hw hs' hserving (heq.trans hctx.symm))
  exact {
    owns := by
      intro t' w' hw' hs'
      have hne := hother t' w' hw' hs'
      simpa [State.setSlot, State.workerTo, State.setWorker, hne] using hgone.owns t' w' hw' hs'
    alone := hgone.alone
    clears := hgone.clears
    unowned := hgone.unowned
    filled := by
      -- The slot the event thread is filling in is another one.
      have hne : ∀ j, s.loop.claimed = some j → j ≠ k :=
        fun j hj heq => h.unowned j hj t w hw hserving (hctx.trans heq.symm)
      have hf := h.filled
      show Filled (update s.slots k { s.slots k with id := none }) s.loop
      cases hloop : s.loop <;> simp_all [Filled, LoopPc.claimed] }

/-- A worker starts in the slot that has been filled in for it. -/
theorem create (h : Exclusive s) {e : CmEvent} {k : Index} (hloop : s.loop = .create e k) :
    Exclusive { s with
      workers := update s.workers s.created
        (some { ctx := k, pc := .setup, id := e.id, conn := e.conn }),
      created := s.created + 1,
      loop := .ack false } := by
  have hfree : Unowned s k := h.unowned k (by simp [hloop, LoopPc.claimed])
  have hfilled : (s.slots k).id = some e.id ∧ (s.slots k).ctxIndex = k := by
    simpa [hloop, Filled] using h.filled
  exact {
    owns := forall_update h.owns fun _ => hfilled
    alone := by
      intro t w t' w' hw hw' hs hs' heq
      rcases update_eq_some.mp hw with ⟨rfl, ⟨⟩⟩ | ⟨-, hw⟩ <;>
        rcases update_eq_some.mp hw' with ⟨rfl, ⟨⟩⟩ | ⟨-, hw'⟩
      · rfl
      · exact absurd heq.symm (hfree t' w' hw' hs')
      · exact absurd heq (hfree t w hw hs)
      · exact h.alone t w t' w' hw hw' hs hs' heq
    clears := fun t w n => forall_update (fun t w => h.clears t w n) (by simp) t w
    unowned := by simp [LoopPc.claimed]
    filled := trivial }

end Exclusive

theorem exclusive_step (s : State) (a : Action) (t : State) (h : Exclusive s)
    (ha : step s a = some t) : Exclusive t := by
  cases Step.of_step ha with
  | @cmEvent e hloop =>
    obtain ⟨ev, x, c⟩ := e
    refine ⟨h.owns, h.alone, h.clears, ?_, ?_⟩
    · intro k hk
      cases ev <;> cases hk
    · cases ev <;> exact trivial
  | loopMoves hmove =>
    generalize s.loop = p at hmove
    cases hmove with
    -- Only the event thread fills slots, so the slot it found free stays so.
    | scanFree hk hfree =>
      refine h.goto (fun j hj => ?_) hfree
      cases hj
      exact h.unowned_of_free hfree
    | _ => exact h.goto (by simp [LoopPc.claimed]) trivial
  | @storeId r e k hloop =>
    refine h.fill (h.unowned k (by simp [hloop, LoopPc.claimed])) rfl ?_
    simp [Filled]
  | @storeIndex r e k hloop =>
    refine h.fill (h.unowned k (by simp [hloop, LoopPc.claimed])) rfl ?_
    simpa [Filled, hloop] using h.filled
  | @semInit r e k hloop =>
    refine (h.setSem k _).goto (fun j hj => ?_) ?_
    · cases hj
      exact h.unowned k (by simp [hloop, LoopPc.claimed])
    · simpa [Filled, hloop, State.setSem, State.setSlot] using h.filled
  | create hloop => exact h.create hloop
  | semPost hloop => exact (h.setSem _ _).goto (by simp [LoopPc.claimed]) trivial
  | @workerMoves t w r pc hw hmove =>
    have howns := h.owns t w hw
    refine h.workerTo hw ?_ ?_ <;> generalize w.pc = q at hmove howns
    · cases hmove <;> simp [WorkerPc.serving]
    · cases hmove with
      | loadIndex =>
        rintro n ⟨⟩
        exact (howns rfl).2
      | _ => simp
  | semWait hw hpc hpos =>
    exact (h.setSem _ _).workerTo hw (by simp [hpc, WorkerPc.serving]) (by simp)
  | @destroyId t w r x hw hpc hx =>
    have hids : Exclusive { s with ids := update s.ids x none } :=
      ⟨h.owns, h.alone, h.clears, h.unowned, h.filled⟩
    exact hids.workerTo hw (by simp [hpc, WorkerPc.serving]) (by simp)
  | clear hw hpc hk => exact h.clear hw hpc hk
  | semDestroy hw hpc hk =>
    exact (h.setSem _ _).workerTo hw (by simp [WorkerPc.serving]) (by simp)
  | ends hst => exact ⟨h.owns, h.alone, h.clears, h.unowned, h.filled⟩

/-! ## What this says of the slots -/

/-- Worker `t` has the slot `k`, and no other worker that serves has it. -/
structure Owns (s : State) (t : Nat) (w : Worker) (k : Index) : Prop where
  ctx : w.ctx = k
  index : (s.slots k).ctxIndex = k
  id : (s.slots k).id = some w.id
  alone : ∀ t' w', s.workers t' = some w' → w'.pc.serving → w'.ctx = k → t' = t

structure SlotPerWorker (s : State) : Prop where
  owns : ∀ t w, s.workers t = some w → w.pc.serving → ∃ k, Owns s t w k
  /-- No request is stored over another. -/
  stores : ∀ e k, s.loop = .storeId e k → (s.slots k).id = none
  /-- The slot that is being filled in is no worker's. -/
  fills : ∀ k, s.loop.claimed = some k → Unowned s k
  /-- NULL is stored in the worker's own slot. -/
  clears : ∀ t w n, s.workers t = some w → w.pc = .clear n →
    ∃ k, index? n = some k ∧ Owns s t w k
  /-- At most `MAX_THREADS` workers serve. -/
  served : ∀ ts : List Nat, ts.Nodup →
    (∀ t ∈ ts, ∃ w, s.workers t = some w ∧ w.pc.serving) → ts.length ≤ maxThreads

namespace Exclusive

variable {s : State}

theorem owner (h : Exclusive s) {t : Nat} {w : Worker} (hw : s.workers t = some w)
    (hs : w.pc.serving) : Owns s t w w.ctx where
  ctx := rfl
  index := (h.owns t w hw hs).2
  id := (h.owns t w hw hs).1
  alone t' w' hw' hs' hctx := h.alone t' w' t w hw' hw hs' hs hctx

/-- Different workers that serve have different slots. -/
theorem served_le (h : Exclusive s) {ts : List Nat} (hnodup : ts.Nodup)
    (hts : ∀ t ∈ ts, ∃ w, s.workers t = some w ∧ w.pc.serving) : ts.length ≤ maxThreads := by
  let slotOf (t : Nat) : Index := (s.workers t).elim ⟨0, by decide⟩ Worker.ctx
  have hinj : ∀ t ∈ ts, ∀ t' ∈ ts, slotOf t = slotOf t' → t = t' := by
    intro t ht t' ht' heq
    obtain ⟨w, hw, hs⟩ := hts t ht
    obtain ⟨w', hw', hs'⟩ := hts t' ht'
    exact h.alone t w t' w' hw hw' hs hs' (by simpa [slotOf, hw, hw'] using heq)
  have hslots : (ts.map slotOf).Nodup := hnodup.map_on hinj
  simpa using hslots.length_le_card

theorem slotPerWorker (h : Exclusive s) : SlotPerWorker s where
  owns t w hw hs := ⟨w.ctx, h.owner hw hs⟩
  stores e k hloop := by simpa [hloop, Filled] using h.filled
  fills := h.unowned
  clears t w n hw hpc := by
    refine ⟨w.ctx, ?_, h.owner hw (by simp [hpc, WorkerPc.serving])⟩
    simp [h.clears t w n hw hpc, index?]
  served ts := h.served_le

end Exclusive

/-- In every interleaving of the event thread with the workers, whatever the
events. -/
theorem slot_exclusive {as : List Action} {s : State}
    (h : Run.run step .initial as = some s) : SlotPerWorker s :=
  (Run.run_invariant exclusive_step h .initial).slotPerWorker

/-- `n` statements of worker `t`. -/
def worker (t n : Nat) : List Action := .replicate n (.worker t .ok)

/-- A request for which slot `k` is the first one free. -/
def request (x : Id) (c : Conn) (k : Nat) : List Action :=
  .cmEvent ⟨.connectRequest, x, c⟩ :: .replicate (k + 6) (.loop .ok)

/-- Two requests are served at once; while a third one is handled, whose scan
has passed slot 0, the worker of that slot stores NULL in it. -/
def overlapping : List Action :=
  request 100 0 0 ++ worker 0 2 ++
    [.cmEvent ⟨.established, 100, 0⟩, .loop .ok, .loop .ok, .loop .ok] ++ worker 0 6 ++
    request 200 1 1 ++ [.cmEvent ⟨.connectRequest, 300, 2⟩, .loop .ok] ++ worker 0 2 ++
    .replicate 7 (.loop .ok) ++ worker 1 2

theorem slot_exclusive_overlapping : ∃ s, Run.run step .initial overlapping = some s ∧
    SlotPerWorker s := by
  obtain ⟨s, hs⟩ := Option.isSome_iff_exists.mp
    (show (Run.run step .initial overlapping).isSome by decide)
  exact ⟨s, hs, slot_exclusive hs⟩

end RdmaTutorial.Rdmacm04
