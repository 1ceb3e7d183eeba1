import Mathlib.Data.Finset.Card
import Mathlib.Data.Fintype.Basic
import RdmaTutorial.Rdmacm02.Slots

/-!
# The slots of rdmacm02 and rdmacm04 account for the workers

Between two events an occupied slot of `g_ctxs` is that of a worker, unless
`pthread_create` has failed for it: the event thread fills the slot before it
makes the worker, and only that worker would have freed it. Such a slot is lost
for good.

The two servers differ in what a worker does for its connection; what a worker
does to the table is the same in both.
-/

namespace RdmaTutorial.Accounts

open Function Ownership Rdmacm04

/-- The servers that have a slot for each worker. -/
inductive Server where
  | rdmacm02
  | rdmacm04
  deriving DecidableEq, Repr

def Server.step : Server → State → Action → Option State
  | .rdmacm02 => Rdmacm02.step
  | .rdmacm04 => Rdmacm04.step

/-- The slots that do not hold NULL. -/
def occupied (s : State) : Finset Index := Finset.univ.filter fun k => (s.slots k).id ≠ none

/-- The workers that have been created and have not released their slot. -/
def serving (s : State) : Finset Nat :=
  (Finset.range s.created).filter fun t => (s.workers t).any fun w => w.pc.serving

/-- `pthread_create` fails. -/
def CreateFails (s : State) (a : Action) : Prop := a = .loop .fail ∧ ∃ e k, s.loop = .create e k

/-- What the worker's next statement writes to the table. -/
def writes (w : Worker) (r : Result) (T : Index → Slot) : Index → Slot :=
  match w.pc, r with
  | .semWait, .ok => update T w.ctx { T w.ctx with established :=
      { (T w.ctx).established with value := (T w.ctx).established.value - 1 } }
  | .clear n, _ => (index? n).elim T fun k => update T k { T k with id := none }
  | .semDestroy n, _ =>
    (index? n).elim T fun k =>
      update T k { T k with established := { (T k).established with alive := false } }
  | _, _ => T

/-- What a worker's statement writes, and nothing for any other step. -/
def workerWrites (s : State) (a : Action) (T : Index → Slot) : Index → Slot :=
  match a with
  | .worker t r => (s.workers t).elim T fun w => writes w r T
  | _ => T

/-- The server, with what the workers alone have made of a table. -/
structure Watched where
  server : State
  table : Index → Slot

def Watched.step (p : Server) (x : Watched) (a : Action) : Option Watched :=
  (p.step x.server a).map fun t => ⟨t, workerWrites x.server a x.table⟩

/-- Between any two events, as many slots are occupied as there are workers that
have not released theirs. -/
def Balanced (p : Server) (as : List Action) : Prop :=
  ∀ bs cs u, as = bs ++ cs → Run.run p.step .initial bs = some u → u.loop = .getEvent →
    (occupied u).card = (serving u).card

/-- Behind every request for which no worker has been created, the table is what
it was before, but for what the workers have written to it meanwhile. -/
def Restores (p : Server) (as : List Action) : Prop :=
  ∀ bs e cs ds u x, as = bs ++ .cmEvent e :: cs ++ ds → Run.run p.step .initial bs = some u →
    e.event = .connectRequest → (∀ f, .cmEvent f ∉ cs) →
      Run.run (Watched.step p) ⟨u, u.slots⟩ (.cmEvent e :: cs) = some x →
        x.server.loop = .getEvent → x.server.created = u.created → x.server.slots = x.table

/-! ## What a step does to the table -/

/-- The worker stores NULL in its slot. -/
def clearing : WorkerPc → Bool
  | .clear _ => true
  | _ => false

inductive WorkerDoes (s : State) (t : Nat) (r : Result) : State → Prop where
  | ends {w st} (hw : s.workers t = some w) (hsame : ∀ T, writes w r T = T) :
      WorkerDoes s t r (s.setStatus st)
  | moves {w pc ids} (hw : s.workers t = some w)
      (hserving : pc.serving = (w.pc.serving && !clearing w.pc)) :
      WorkerDoes s t r ({ s with slots := writes w r s.slots, ids := ids }.workerTo t w pc)

inductive Does (s : State) : Action → State → Prop where
  | cmEvent {e} (hloop : s.loop = .getEvent) :
      Does s (.cmEvent e) { s with loop := dispatchPc e, ids := announced s e }
  | loop {r t} (h : loopStep s r = some t) : Does s (.loop r) t
  | worker {t r u} (h : WorkerDoes s t r u) : Does s (.worker t r) u
  | dies {t reason} : Does s (.dies t reason) (s.setStatus (.died reason))

section Does

variable {s u : State} {t : Nat} {w : Worker} {r : Result}

/-- A statement that writes nothing to the table. -/
theorem WorkerDoes.quiet (hw : s.workers t = some w) {pc : WorkerPc}
    (hsame : ∀ T, writes w r T = T) (hserving : pc.serving = (w.pc.serving && !clearing w.pc)) :
    WorkerDoes s t r (s.workerTo t w pc) := by
  have h := @WorkerDoes.moves s t r w pc s.ids hw hserving
  rwa [hsame] at h

theorem WorkerDoes.of_withId (hw : s.workers t = some w) {f : Id → State}
    (hsame : ∀ T, writes w r T = T) (hf : ∀ x, WorkerDoes s t r (f x)) :
    WorkerDoes s t r (s.withId w.ctx f) := by
  unfold State.withId
  split
  · exact .ends hw hsame
  · exact hf _

theorem WorkerDoes.semWait (hw : s.workers t = some w) (hpc : w.pc = .semWait) {pc : WorkerPc}
    (hserving : pc.serving) :
    WorkerDoes s t .ok ((s.setSem w.ctx { (s.slots w.ctx).established with
      value := (s.slots w.ctx).established.value - 1 }).workerTo t w pc) := by
  have h := @WorkerDoes.moves s t .ok w pc s.ids hw
    (by rw [hserving, hpc]; rfl)
  simp only [writes, hpc] at h
  exact h

theorem WorkerDoes.clear (hw : s.workers t = some w) {n : Nat} (hpc : w.pc = .clear n) :
    WorkerDoes s t r (s.withSlot n fun k =>
      (s.setSlot k { s.slots k with id := none }).workerTo t w .loadIndexAgain) := by
  unfold State.withSlot
  cases hn : index? n with
  | none => exact .ends hw fun T => by simp [writes, hpc, hn]
  | some k =>
    have h := @WorkerDoes.moves s t r w .loadIndexAgain s.ids hw
      (by simp [hpc, WorkerPc.serving, clearing])
    simp only [writes, hpc, hn, Option.elim_some] at h
    exact h

theorem WorkerDoes.semDestroy (hw : s.workers t = some w) {n : Nat} (hpc : w.pc = .semDestroy n) :
    WorkerDoes s t r (s.withSlot n fun k =>
      (s.setSem k { (s.slots k).established with alive := false }).workerTo t w .done) := by
  unfold State.withSlot
  cases hn : index? n with
  | none => exact .ends hw fun T => by simp [writes, hpc, hn]
  | some k =>
    have h := @WorkerDoes.moves s t r w .done s.ids hw
      (by simp [hpc, WorkerPc.serving])
    simp only [writes, hpc, hn, Option.elim_some] at h
    exact h

theorem WorkerDoes.destroyId (hw : s.workers t = some w) (hpc : w.pc = .destroyId)
    {pc : WorkerPc} (hserving : pc.serving) :
    WorkerDoes s t r (s.withId w.ctx fun x =>
      { s with ids := update s.ids x none }.workerTo t w pc) := by
  refine .of_withId hw (by simp [writes, hpc]) fun x => ?_
  have h := @WorkerDoes.moves s t r w pc (update s.ids x none) hw
    (by rw [hserving, hpc]; rfl)
  simp only [writes, hpc] at h
  exact h

theorem WorkerDoes.of_rdmacm04 (hw : s.workers t = some w)
    (h : Rdmacm04.workerStep s t w r = some u) : WorkerDoes s t r u := by
  cases hpc : w.pc with
  | semWait =>
    cases r with
    | ok =>
      simp only [Rdmacm04.workerStep, hpc] at h
      split at h
      · cases h
        exact .semWait hw hpc rfl
      · cases h
    | fail =>
      simp only [Rdmacm04.workerStep, hpc, Option.some.injEq] at h
      subst h
      exact .quiet hw (by simp [writes, hpc]) (by rw [hpc]; rfl)
  | destroyId =>
    simp only [Rdmacm04.workerStep, hpc, Option.some.injEq] at h
    exact h ▸ .destroyId hw hpc rfl
  | clear n =>
    simp only [Rdmacm04.workerStep, hpc, Option.some.injEq] at h
    exact h ▸ .clear hw hpc
  | semDestroy n =>
    simp only [Rdmacm04.workerStep, hpc, Option.some.injEq] at h
    exact h ▸ .semDestroy hw hpc
  | done => simp [Rdmacm04.workerStep, hpc] at h
  | setup | accept | disconnect =>
    simp only [Rdmacm04.workerStep, hpc, Option.some.injEq] at h
    subst h
    exact .of_withId hw (by simp [writes, hpc]) fun x =>
      .quiet hw (by simp [writes, hpc]) (by rw [hpc]; rfl)
  | _ =>
    simp only [Rdmacm04.workerStep, hpc, Option.some.injEq] at h
    subst h
    exact .quiet hw (by simp [writes, hpc]) (by rw [hpc]; rfl)

/-- Where a worker of rdmacm02 is not at one of the two statements behind which
that of rdmacm04 has one more, it does the same. -/
theorem WorkerDoes.of_rdmacm02 (hw : s.workers t = some w)
    (h : Rdmacm02.workerStep s t w r = some u) : WorkerDoes s t r u := by
  cases hpc : w.pc with
  | semWait =>
    cases r with
    | ok =>
      simp only [Rdmacm02.workerStep, hpc] at h
      split at h
      · cases h
        exact .semWait hw hpc rfl
      · cases h
    | fail =>
      simp only [Rdmacm02.workerStep, hpc, Option.some.injEq] at h
      subst h
      exact .quiet hw (by simp [writes, hpc]) (by rw [hpc]; rfl)
  | destroyId =>
    simp only [Rdmacm02.workerStep, hpc, Option.some.injEq] at h
    exact h ▸ .destroyId hw hpc rfl
  | loop => simp [Rdmacm02.workerStep, hpc] at h
  | teardown => simp [Rdmacm02.workerStep, hpc] at h
  | _ =>
    apply WorkerDoes.of_rdmacm04 hw
    simpa only [Rdmacm02.workerStep, Rdmacm04.workerStep, hpc] using h

theorem Server.does {p : Server} {a : Action} (h : p.step s a = some u) : Does s a u := by
  have dies : ∀ {t reason} {b : Bool} (w : Worker),
      (if b then some (s.setStatus (.died reason)) else none) = some u →
        Does s (.dies t reason) u := by
    intro t reason b w h
    cases b with
    | true => cases h; exact .dies
    | false => cases h
  cases p with
  | rdmacm02 =>
    simp only [Server.step, Rdmacm02.step] at h
    split at h
    case isFalse => cases h
    cases a with
    | cmEvent e =>
      simp only at h
      split at h
      · cases h; exact .cmEvent ‹_›
      · cases h
    | loop r => exact .loop h
    | worker t r =>
      obtain ⟨w, hw, h⟩ := Option.bind_eq_some_iff.mp h
      exact .worker (.of_rdmacm02 hw h)
    | dies t reason =>
      obtain ⟨w, -, h⟩ := Option.bind_eq_some_iff.mp h
      exact dies w h
  | rdmacm04 =>
    simp only [Server.step, Rdmacm04.step] at h
    split at h
    case isFalse => cases h
    cases a with
    | cmEvent e =>
      simp only at h
      split at h
      · cases h; exact .cmEvent ‹_›
      · cases h
    | loop r => exact .loop h
    | worker t r =>
      obtain ⟨w, hw, h⟩ := Option.bind_eq_some_iff.mp h
      exact .worker (.of_rdmacm04 hw h)
    | dies t reason =>
      obtain ⟨w, -, h⟩ := Option.bind_eq_some_iff.mp h
      exact dies w h

theorem Server.exclusive_step {p : Server} {a : Action} (hs : Exclusive s)
    (h : p.step s a = some u) : Exclusive u := by
  cases p with
  | rdmacm04 => exact Rdmacm04.exclusive_step s a u hs h
  | rdmacm02 =>
    rcases Rdmacm02.step_refines h with hu | ⟨t, r, n, rfl, hn⟩
    · exact Rdmacm04.exclusive_step s a u hs hu
    · exact Run.run_invariant Rdmacm04.exclusive_step hn hs

end Does

/-! ## Slots nobody will free -/

/-- The slot is occupied, but it is no worker's, and the event thread is not
filling it in. -/
structure Lost (s : State) (k : Index) : Prop where
  occupied : (s.slots k).id ≠ none
  unowned : Unowned s k
  unclaimed : s.loop.claimed ≠ some k

/-- What the rest builds on. -/
structure Kept (s : State) : Prop where
  exclusive : Exclusive s
  bounded : ∀ t w, s.workers t = some w → t < s.created

theorem Kept.initial : Kept .initial := ⟨.initial, by simp [State.initial]⟩

section Lost

variable {s u : State} {k : Index}

theorem claimed_dispatchPc (e : CmEvent) : (dispatchPc e).claimed = none := by
  unfold dispatchPc
  split <;> rfl

/-- Only the store of NULL changes the id in a slot. -/
theorem writes_id {w : Worker} {r : Result} {T : Index → Slot}
    (hk : ∀ n, w.pc = .clear n → index? n ≠ some k) : (writes w r T k).id = (T k).id := by
  cases hpc : w.pc with
  | semWait =>
    cases r with
    | ok => by_cases h : k = w.ctx <;> simp [writes, hpc, h]
    | fail => simp [writes, hpc]
  | clear n =>
    cases hn : index? n with
    | none => simp [writes, hpc, hn]
    | some j =>
      have hne : k ≠ j := fun h => hk n hpc (h ▸ hn)
      simp [writes, hpc, hn, hne]
  | semDestroy n =>
    cases hn : index? n with
    | none => simp [writes, hpc, hn]
    | some j => by_cases h : k = j <;> simp [writes, hpc, hn, h]
  | _ => simp [writes, hpc]

/-- Where nothing of it changes, a slot is as lost as before. -/
theorem lost_congr (hid : (u.slots k).id = (s.slots k).id) (hworkers : Unowned u k ↔ Unowned s k)
    (hclaim : u.loop.claimed = some k ↔ s.loop.claimed = some k) : Lost u k ↔ Lost s k :=
  ⟨fun h => ⟨hid ▸ h.occupied, hworkers.mp h.unowned, fun hk => h.unclaimed (hclaim.mpr hk)⟩,
    fun h => ⟨hid ▸ h.occupied, hworkers.mpr h.unowned, fun hk => h.unclaimed (hclaim.mp hk)⟩⟩

/-- A worker loses no slot and finds none. -/
theorem lost_worker (hs : Kept s) {t : Nat} {r : Result} (h : WorkerDoes s t r u) :
    Lost u k ↔ Lost s k := by
  cases h with
  | ends hw hsame => exact lost_congr rfl Iff.rfl Iff.rfl
  | @moves w pc ids hw hserving =>
    by_cases hclear : ∃ n, w.pc = .clear n ∧ index? n = some k
    · -- The slot is the worker's own, and is free behind the store.
      obtain ⟨n, hpc, hn⟩ := hclear
      have hctx : w.ctx = k :=
        Fin.ext ((hs.exclusive.clears t w n hw hpc).symm.trans (index?_eq_some hn))
      constructor
      · intro hl
        exact absurd (by simp [State.workerTo, State.setWorker, writes, hpc, hn]) hl.occupied
      · intro hl
        exact absurd hctx (hl.unowned t w hw (by simp [hpc, WorkerPc.serving]))
    · rw [not_exists] at hclear
      have hid : (writes w r s.slots k).id = (s.slots k).id :=
        writes_id fun n hpc hn => hclear n ⟨hpc, hn⟩
      refine lost_congr hid ⟨fun hu t' w' hw' hs' hctx => ?_, fun hu t' w' hw' hs' => ?_⟩ Iff.rfl
      · by_cases ht : t' = t
        · subst ht
          obtain rfl : w = w' := Option.some.inj (hw.symm.trans hw')
          have hnot : clearing w.pc = false := by
            cases hpc : w.pc with
            | clear n =>
              have hn := hs.exclusive.clears t' w n hw hpc
              exact absurd ⟨hpc, by simp [hn, hctx, index?]⟩ (hclear n)
            | _ => rfl
          have hpc : pc.serving := by rw [hserving, hs', hnot]; rfl
          exact hu t' { w with pc := pc } (by simp [State.workerTo, State.setWorker]) hpc hctx
        · exact hu t' w' (by simp [State.workerTo, State.setWorker, ht, hw']) hs' hctx
      · rcases workerTo_cases hw' with ⟨rfl, rfl⟩ | ⟨-, hw'⟩
        · refine hu t' w hw ?_
          simp only [hserving, Bool.and_eq_true] at hs'
          exact hs'.1
        · exact hu t' w' hw' hs'

/-- The event thread writes to the slot it claims, and claims it still. -/
theorem lost_fill {j : Index} {c : Slot} {pc : LoopPc} (hclaim : s.loop.claimed = some j)
    (hpc : pc.claimed = some j) : Lost ((s.setSlot j c).goto pc) k ↔ Lost s k := by
  by_cases hk : k = j
  · subst hk
    exact ⟨fun h => absurd hpc h.unclaimed, fun h => absurd hclaim h.unclaimed⟩
  · refine lost_congr (by simp [State.setSlot, State.goto, hk]) Iff.rfl ?_
    simp [State.goto, hclaim, hpc]

/-- The new worker takes over the slot that the event thread has claimed. -/
theorem lost_create (hs : Kept s) {e : CmEvent} {j : Index} (hloop : s.loop = .create e j)
    {w : Worker} (hctx : w.ctx = j) (hserving : w.pc.serving) :
    Lost { s with
      workers := update s.workers s.created (some w),
      created := s.created + 1,
      loop := .ack false } k ↔ Lost s k := by
  have hnew : s.workers s.created = none := by
    cases hw : s.workers s.created with
    | none => rfl
    | some w => exact absurd (hs.bounded _ w hw) (Nat.lt_irrefl _)
  constructor
  · intro hl
    have hjk : j ≠ k := hctx ▸ hl.unowned s.created w (update_self ..) hserving
    refine ⟨hl.occupied, fun t w hw => hl.unowned t w ?_, by simp [hloop, LoopPc.claimed, hjk]⟩
    have ht : t ≠ s.created := by rintro rfl; simp [hnew] at hw
    simp [ht, hw]
  · intro hl
    have hjk : j ≠ k := by simpa [hloop, LoopPc.claimed] using hl.unclaimed
    exact ⟨hl.occupied, forall_update hl.unowned fun _ => hctx ▸ hjk, by simp [LoopPc.claimed]⟩

/-- No worker takes over the slot when `pthread_create` fails: it holds the id of
the request. -/
theorem lost_createFails (hs : Kept s) {e : CmEvent} {j : Index} (hloop : s.loop = .create e j) :
    Lost (s.goto (.reject e)) k ↔ Lost s k ∨ j = k := by
  have hfilled : (s.slots j).id = some e.id ∧ (s.slots j).ctxIndex = j := by
    simpa [hloop, Filled] using hs.exclusive.filled
  constructor
  · intro hl
    by_cases hjk : j = k
    · exact .inr hjk
    · exact .inl ⟨hl.occupied, hl.unowned, by simp [hloop, LoopPc.claimed, hjk]⟩
  · rintro (hl | rfl)
    · exact ⟨hl.occupied, hl.unowned, by simp [State.goto, LoopPc.claimed]⟩
    · exact ⟨by simp [State.goto, hfilled.1],
        hs.exclusive.unowned j (by simp [hloop, LoopPc.claimed]),
        by simp [State.goto, LoopPc.claimed]⟩

/-- Among the steps of the servers only a failing `pthread_create` loses a slot,
and none finds one again. -/
theorem lost_step (hs : Kept s) {a : Action} (h : Does s a u) :
    Lost u k ↔ Lost s k ∨ CreateFails s a ∧ s.loop.claimed = some k := by
  have other : ¬CreateFails s a → (Lost u k ↔ Lost s k) →
      (Lost u k ↔ Lost s k ∨ CreateFails s a ∧ s.loop.claimed = some k) := by
    intro hno hiff
    simp [hno, hiff]
  cases h with
  | @cmEvent e hloop =>
    refine other (by simp [CreateFails]) (lost_congr rfl Iff.rfl ?_)
    rw [claimed_dispatchPc, hloop]
    rfl
  | dies => exact other (by simp [CreateFails]) (lost_congr rfl Iff.rfl Iff.rfl)
  | worker h => exact other (by simp [CreateFails]) (lost_worker hs h)
  | @loop r _ h =>
    have hno : ∀ {pc}, s.loop = pc → (∀ e j, pc ≠ .create e j) → ¬CreateFails s (.loop r) := by
      rintro _ hloop hpc ⟨-, e, j, hcreate⟩
      exact hpc e j (hloop.symm.trans hcreate)
    cases Step.of_loopStep h with
    | @ends _ st hst =>
      refine other ?_ (lost_congr rfl Iff.rfl Iff.rfl)
      rintro ⟨hr, e, j, hloop⟩
      cases hr
      simp only [loopStep, hloop, Option.some.injEq] at h
      have hpc : LoopPc.reject e = s.loop := congrArg State.loop h
      simp [hloop] at hpc
    | storeId hloop | storeIndex hloop | semInit hloop =>
      exact other (hno hloop (by simp)) (lost_fill (by rw [hloop]; rfl) rfl)
    | create hloop => exact other (by simp [CreateFails]) (lost_create hs hloop rfl rfl)
    | semPost hloop =>
      refine other (hno hloop (by simp)) (lost_congr (State.setSem_id ..) Iff.rfl ?_)
      rw [hloop]
      simp [State.goto, LoopPc.claimed]
    | @loopMoves _ pc hmove =>
      have idle : (∀ e j, s.loop ≠ .create e j) → s.loop.claimed = none → pc.claimed = none →
          (Lost (s.goto pc) k ↔
            Lost s k ∨ CreateFails s (.loop r) ∧ s.loop.claimed = some k) := by
        intro hne hclaim hpc
        refine other (hno rfl hne) (lost_congr rfl Iff.rfl ?_)
        rw [hclaim, State.goto, hpc]
      generalize hloop : s.loop = q at hmove idle
      cases hmove with
      | @scanFree _ e i j hj hfree =>
        rw [← hloop]
        refine other (hno hloop (by simp)) ?_
        have hne : (s.slots k).id ≠ none → j ≠ k := by
          rintro h rfl
          exact h hfree
        constructor
        · exact fun hl => ⟨hl.occupied, hl.unowned, by simp [hloop, LoopPc.claimed]⟩
        · intro hl
          exact ⟨hl.occupied, hl.unowned, by
            simpa [State.goto, LoopPc.claimed] using hne hl.occupied⟩
      | @createFails e j =>
        have hfails : CreateFails s (.loop .fail) := ⟨rfl, e, j, hloop⟩
        simpa [hfails, LoopPc.claimed] using lost_createFails hs hloop
      | _ => exact idle (by simp) rfl rfl

theorem kept_step {p : Server} {a : Action} (hs : Kept s) (h : p.step s a = some u) : Kept u := by
  refine ⟨Server.exclusive_step hs.exclusive h, ?_⟩
  cases Server.does h with
  | cmEvent => exact hs.bounded
  | dies => exact hs.bounded
  | worker h =>
    cases h with
    | ends => exact hs.bounded
    | moves hw => exact forall_workerTo hs.bounded (hs.bounded _ _ hw)
  | loop h =>
    cases Step.of_loopStep h with
    | create hloop =>
      exact forall_update (fun t w hw => Nat.lt_succ_of_lt (hs.bounded t w hw))
        (Nat.lt_succ_self _)
    | _ => exact hs.bounded

end Lost

section Run

variable {p : Server} {s : State} {as : List Action}

theorem kept_run (hrun : Run.run p.step .initial as = some s) : Kept s :=
  Run.run_invariant (fun _ _ _ hs h => kept_step hs h) hrun .initial

/-- A slot has been lost exactly if `pthread_create` has failed. -/
theorem exists_lost_iff (hrun : Run.run p.step .initial as = some s) :
    (∃ k, Lost s k) ↔ ¬Run.Meets p.step (fun s a => ¬CreateFails s a) .initial as := by
  constructor
  · rintro ⟨k, hk⟩ hm
    have hnone : Kept s ∧ ∀ k, ¬Lost s k := by
      refine Run.Meets.invariant (I := fun s => Kept s ∧ ∀ k, ¬Lost s k) ?_ hm hrun ⟨.initial, ?_⟩
      · intro s a t hs hno h
        refine ⟨kept_step hs.1 h, fun k hl => ?_⟩
        rcases (lost_step hs.1 (Server.does h)).mp hl with hl | ⟨hf, -⟩
        · exact hs.2 k hl
        · exact hno hf
      · exact fun k hl => hl.occupied rfl
    exact hnone.2 k hk
  · intro hno
    obtain ⟨bs, a, cs, u, rfl, hu, hf⟩ : ∃ bs a cs u, as = bs ++ a :: cs ∧
        Run.run p.step .initial bs = some u ∧ CreateFails u a := by
      by_contra hnever
      exact hno (Run.meets_iff.mpr fun bs a cs u has hu hf => hnever ⟨bs, a, cs, u, has, hu, hf⟩)
    obtain ⟨u', hu', hrest⟩ := Run.run_of_append hrun
    obtain rfl : u = u' := Option.some.inj (hu.symm.trans hu')
    obtain ⟨v, hv, hrest⟩ := Run.run_cons hrest
    obtain ⟨e, k, hloop⟩ := hf.2
    have hlost : Kept v ∧ Lost v k := by
      refine ⟨kept_step (kept_run hu) hv, (lost_step (kept_run hu) (Server.does hv)).mpr ?_⟩
      exact .inr ⟨hf, by simp [hloop, LoopPc.claimed]⟩
    have hend : Kept s ∧ Lost s k := by
      refine Run.run_invariant (I := fun s => Kept s ∧ Lost s k) ?_ hrest hlost
      intro s a t hs h
      exact ⟨kept_step hs.1 h, (lost_step hs.1 (Server.does h)).mpr (.inl hs.2)⟩
    exact ⟨k, hend.2⟩

end Run

/-! ## The count -/

section Count

variable {s : State}

theorem mem_serving (hs : Kept s) {t : Nat} :
    t ∈ serving s ↔ ∃ w, s.workers t = some w ∧ w.pc.serving := by
  simp only [serving, Finset.mem_filter, Finset.mem_range, Option.any_eq_true]
  exact ⟨fun h => h.2, fun ⟨w, hw, hp⟩ => ⟨hs.bounded t w hw, w, hw, hp⟩⟩

theorem mem_occupied {k : Index} : k ∈ occupied s ↔ (s.slots k).id ≠ none := by
  simp [occupied]

/-- The slot of a worker. -/
def slotOf (s : State) (t : Nat) : Index := (s.workers t).elim 0 Worker.ctx

/-- Different workers that serve have different slots. -/
theorem card_image_slotOf (hs : Kept s) :
    ((serving s).image (slotOf s)).card = (serving s).card := by
  apply Finset.card_image_of_injOn
  intro t ht t' ht' heq
  obtain ⟨w, hw, hp⟩ := (mem_serving hs).mp ht
  obtain ⟨w', hw', hp'⟩ := (mem_serving hs).mp ht'
  exact hs.exclusive.alone t w t' w' hw hw' hp hp' (by simpa [slotOf, hw, hw'] using heq)

theorem image_slotOf_subset (hs : Kept s) : (serving s).image (slotOf s) ⊆ occupied s := by
  intro k hk
  obtain ⟨t, ht, rfl⟩ := Finset.mem_image.mp hk
  obtain ⟨w, hw, hp⟩ := (mem_serving hs).mp ht
  simp [mem_occupied, slotOf, hw, (hs.exclusive.owns t w hw hp).1]

/-- The slots that are occupied are those of the workers, and those lost. -/
theorem card_eq_iff (hs : Kept s) (hclaim : s.loop.claimed = none) :
    (occupied s).card = (serving s).card ↔ ∀ k, ¬Lost s k := by
  rw [← card_image_slotOf hs]
  constructor
  · intro hcard k hl
    have himage := Finset.eq_of_subset_of_card_le (image_slotOf_subset hs) (Nat.le_of_eq hcard)
    have hk : k ∈ (serving s).image (slotOf s) := himage ▸ mem_occupied.mpr hl.occupied
    obtain ⟨t, ht, htk⟩ := Finset.mem_image.mp hk
    obtain ⟨w, hw, hp⟩ := (mem_serving hs).mp ht
    exact hl.unowned t w hw hp (by simpa [slotOf, hw] using htk)
  · intro hno
    congr 1
    refine (image_slotOf_subset hs).antisymm' fun k hk => ?_
    by_contra hnot
    refine hno k ⟨mem_occupied.mp hk, fun t w hw hp hctx => hnot ?_, by simp [hclaim]⟩
    exact Finset.mem_image.mpr ⟨t, (mem_serving hs).mpr ⟨w, hw, hp⟩, by simp [slotOf, hw, hctx]⟩

end Count

/-! ## A request that fails -/

section Watched

variable {p : Server} {u : State}

/-- While a request is handled that came when `u.created` workers had been created:
as long as that is so, and the event thread is not filling a slot in, it has
written nothing to the table. -/
def Untouched (u : State) (x : Watched) : Prop :=
  u.created ≤ x.server.created ∧
    match x.server.loop with
    | .storeId _ _ => True
    | .storeIndex _ _ => True
    | .semInit _ _ => True
    | .create _ _ => True
    | .find _ _ => False
    | .semPost _ _ => False
    | _ => x.server.created = u.created → x.server.slots = x.table

/-- A worker writes the same to the table as it is and as it would be. -/
theorem untouched_worker {x : Watched} {t : Nat} {r : Result} {v : State} (hx : Untouched u x)
    (h : WorkerDoes x.server t r v) :
    Untouched u ⟨v, workerWrites x.server (.worker t r) x.table⟩ := by
  cases h with
  | ends hw hsame =>
    have htable : workerWrites x.server (.worker t r) x.table = x.table := by
      simp [workerWrites, hw, hsame]
    rw [htable]
    exact hx
  | @moves w pc ids hw hserving =>
    have htable : workerWrites x.server (.worker t r) x.table = writes w r x.table := by
      simp [workerWrites, hw]
    rw [htable]
    refine ⟨hx.1, ?_⟩
    have hmatch := hx.2
    simp only [State.workerTo, State.setWorker]
    cases hloop : x.server.loop with
    | find => simp [hloop] at hmatch
    | semPost => simp [hloop] at hmatch
    | storeId => trivial
    | storeIndex => trivial
    | semInit => trivial
    | create => trivial
    | _ =>
      simp only [hloop] at hmatch
      exact fun hc => by rw [hmatch hc]

theorem untouched_step (x : Watched) (a : Action) (y : Watched) (hx : Untouched u x)
    (ha : (∀ f, a ≠ .cmEvent f) ∧ ¬CreateFails x.server a) (h : Watched.step p x a = some y) :
    Untouched u y := by
  obtain ⟨v, hv, rfl⟩ := Option.map_eq_some_iff.mp h
  cases Server.does hv with
  | cmEvent => exact absurd rfl (ha.1 _)
  | dies => exact hx
  | worker h => exact untouched_worker hx h
  | @loop r _ h =>
    have hmatch := hx.2
    cases Step.of_loopStep h with
    | ends => exact hx
    | storeId hloop | storeIndex hloop | semInit hloop => exact ⟨hx.1, trivial⟩
    | create hloop =>
      refine ⟨Nat.le_succ_of_le hx.1, fun hc => ?_⟩
      have hle := hx.1
      have hc' : x.server.created + 1 = u.created := hc
      omega
    | semPost hloop => simp [hloop] at hmatch
    | @loopMoves _ pc hmove =>
      refine ⟨hx.1, ?_⟩
      generalize hloop : x.server.loop = q at hmove hmatch
      cases hmove with
      | createFails => exact absurd ⟨rfl, _, _, hloop⟩ ha.2
      | scanFree => trivial
      | findNone | findHit | findNext => exact hmatch.elim
      | _ => exact hmatch

/-- The workers go by the server. -/
theorem watched_map (x : Watched) (a : Action) :
    (Watched.step p x a).map Watched.server = p.step x.server a := by
  simp [Watched.step, Function.comp_def]

theorem untouched_run {e : CmEvent} {cs : List Action} {x : Watched}
    (hm : Run.Meets p.step (fun s a => ¬CreateFails s a) u (.cmEvent e :: cs))
    (he : e.event = .connectRequest) (hcs : ∀ f, .cmEvent f ∉ cs)
    (h : Run.run (Watched.step p) ⟨u, u.slots⟩ (.cmEvent e :: cs) = some x) : Untouched u x := by
  obtain ⟨y, hy, hx⟩ := Run.run_cons h
  obtain ⟨v, hv, rfl⟩ := Option.map_eq_some_iff.mp hy
  have hfirst : Untouched u ⟨v, workerWrites u (.cmEvent e) u.slots⟩ := by
    cases Server.does hv with
    | cmEvent => exact ⟨Nat.le_refl _, by simp [dispatchPc, he, workerWrites]⟩
  have hrest : Run.Meets (Watched.step p) (fun x a => ¬CreateFails x.server a)
      ⟨v, workerWrites u (.cmEvent e) u.slots⟩ cs :=
    Run.Meets.of_map (P := fun s a => ¬CreateFails s a) watched_map (hm.2 v hv)
  have hlabels : ∀ a ∈ cs, ∀ f, a ≠ .cmEvent f := by
    rintro a ha f rfl
    exact hcs f ha
  exact Run.Meets.invariant untouched_step
    ((Run.Meets.of_forall (Q := fun a => ∀ f, a ≠ Action.cmEvent f) hlabels).and hrest) hx hfirst

end Watched

/-- Take any run of either server that ends between two events, whatever the events
and however the workers go on meanwhile. The slots account for the workers between
any two of its events, and every request that failed has left the table alone,
exactly if `pthread_create` has not failed in the run. -/
theorem accounts_iff {p : Server} {as : List Action} {s : State}
    (hrun : Run.run p.step .initial as = some s) (hloop : s.loop = .getEvent) :
    Balanced p as ∧ Restores p as ↔
      Run.Meets p.step (fun s a => ¬CreateFails s a) .initial as := by
  constructor
  · rintro ⟨hbal, -⟩
    by_contra hno
    obtain ⟨k, hk⟩ := (exists_lost_iff hrun).mpr hno
    have hcard := hbal as [] s (by simp) hrun hloop
    exact (card_eq_iff (kept_run hrun) (by rw [hloop]; rfl)).mp hcard k hk
  · intro hm
    constructor
    · rintro bs cs u rfl hu hgetEvent
      refine (card_eq_iff (kept_run hu) (by rw [hgetEvent]; rfl)).mpr fun k hk => ?_
      exact (exists_lost_iff hu).mp ⟨k, hk⟩ hm.left
    · rintro bs e cs ds u x rfl hu he hcs hx hgetEvent hcreated
      have hend := untouched_run (hm.left.right hu) he hcs hx
      have hmatch := hend.2
      simp only [hgetEvent] at hmatch
      exact hmatch hcreated

/-- A request that is served, and one that finds no slot free. -/
def servedAndFull : List Action :=
  (List.range 11).flatMap fun n => .cmEvent ⟨.connectRequest, n, n⟩ ::
    .replicate (if n < 10 then n + 6 else 13) (.loop .ok)

theorem accounts_iff_servedAndFull : ∃ s,
    Run.run Server.rdmacm04.step .initial servedAndFull = some s ∧
      (serving s).card = maxThreads ∧
        (Balanced .rdmacm04 servedAndFull ∧ Restores .rdmacm04 servedAndFull ↔
          Run.Meets Server.rdmacm04.step (fun s a => ¬CreateFails s a) .initial
            servedAndFull) := by
  have hrun : ∃ s ∈ Run.run Server.rdmacm04.step .initial servedAndFull, s.loop = .getEvent ∧
      (serving s).card = maxThreads := by
    decide +kernel
  obtain ⟨s, hs, hloop, hserving⟩ := hrun
  exact ⟨s, hs, hserving, accounts_iff hs hloop⟩

/-- From `pthread_create`, which fails, to the next event. -/
def afterFailure : List Action := .replicate 4 (.loop .ok) ++ [.loop .fail, .loop .ok, .loop .ok]

/-- `pthread_create` fails for the first request. -/
def firstFails : List Action := .cmEvent ⟨.connectRequest, 100, 0⟩ :: afterFailure

theorem not_balanced_firstFails (p : Server) : ¬Balanced p firstFails := by
  intro h
  have hrun : ∃ s ∈ Run.run p.step .initial firstFails,
      s.loop = .getEvent ∧ (occupied s).card ≠ (serving s).card := by
    cases p <;> decide +kernel
  obtain ⟨s, hs, hloop, hne⟩ := hrun
  exact hne (h firstFails [] s (by simp) hs hloop)

theorem not_restores_firstFails (p : Server) : ¬Restores p firstFails := by
  intro h
  have hrun : ∃ x ∈ Run.run (Watched.step p) ⟨.initial, State.initial.slots⟩ firstFails,
      x.server.loop = .getEvent ∧ x.server.created = 0 ∧ x.server.slots 0 ≠ x.table 0 := by
    cases p <;> decide +kernel
  obtain ⟨x, hx, hloop, hcreated, hne⟩ := hrun
  exact hne (congrFun (h [] ⟨.connectRequest, 100, 0⟩ afterFailure [] .initial x
    (by simp [firstFails]) rfl rfl (by simp [afterFailure]) hx hloop hcreated) 0)

/-- The slot of the request stays occupied, and nobody serves it. -/
theorem slot_lost :
    (¬Balanced .rdmacm02 firstFails ∧ ¬Restores .rdmacm02 firstFails) ∧
      ¬Balanced .rdmacm04 firstFails ∧ ¬Restores .rdmacm04 firstFails :=
  ⟨⟨not_balanced_firstFails _, not_restores_firstFails _⟩,
    not_balanced_firstFails _, not_restores_firstFails _⟩

end RdmaTutorial.Accounts
