import RdmaTutorial.Rdmacm04.Exclusive

/-!
# rdmacm02/server.c: the slots

The event thread is that of rdmacm04. A worker echoes nothing: when it has
passed `sem_wait` it disconnects, and it does not release what
`setup_connection` has created. So its steps are those of rdmacm04's worker with
two statements left out, and no run of this server reaches a state that no run
of the other reaches.
-/

namespace RdmaTutorial.Rdmacm02

open Function Rdmacm04

/-- `handle_request`. -/
def workerStep (s : State) (t : Nat) (w : Worker) (r : Result) : Option State :=
  match w.pc with
  | .setup => some (s.withId w.ctx fun _ => s.workerTo t w .accept)
  | .accept => some (s.withId w.ctx fun _ => s.workerTo t w .semWait)
  | .semWait =>
    match r with
    | .ok =>
      if 0 < (s.slots w.ctx).established.value then
        some ((s.setSem w.ctx { (s.slots w.ctx).established with
          value := (s.slots w.ctx).established.value - 1 }).workerTo t w .disconnect)
      else none
    -- Interrupted: what `sem_wait` returns is not looked at.
    | .fail => some (s.workerTo t w .disconnect)
  | .disconnect => some (s.withId w.ctx fun _ => s.workerTo t w .destroyId)
  | .destroyId =>
    some (s.withId w.ctx fun x =>
      { s with ids := update s.ids x none }.workerTo t w .loadIndex)
  | .loadIndex => some (s.workerTo t w (.clear (s.slots w.ctx).ctxIndex))
  | .clear n =>
    some (s.withSlot n fun k =>
      (s.setSlot k { s.slots k with id := none }).workerTo t w .loadIndexAgain)
  | .loadIndexAgain => some (s.workerTo t w (.semDestroy (s.slots w.ctx).ctxIndex))
  | .semDestroy n =>
    some (s.withSlot n fun k =>
      (s.setSem k { (s.slots k).established with alive := false }).workerTo t w .done)
  -- These two are rdmacm04's.
  | .loop => none
  | .teardown => none
  | .done => none

/-- Whether a failing call ends the process where the worker is. -/
def mayDie : WorkerPc → Bool
  | .setup => true
  | .accept => true
  | _ => false

def step (s : State) (a : Action) : Option State :=
  if s.status = .running then
    match a with
    | .cmEvent e =>
      if s.loop = .getEvent then
        some { s with loop := dispatchPc e, ids := announced s e }
      else none
    | .loop r => loopStep s r
    | .worker t r => (s.workers t).bind fun w => workerStep s t w r
    | .dies t reason =>
      (s.workers t).bind fun w =>
        if mayDie w.pc then some (s.setStatus (.died reason)) else none
  else none

/-! ## Its runs are runs of rdmacm04's server -/

variable {s u : State} {t : Nat} {w : Worker} {r : Result}

/-- A step of a worker of rdmacm04. -/
theorem step_worker (hrun : s.status = .running) (hw : s.workers t = some w) :
    Rdmacm04.step s (.worker t r) = Rdmacm04.workerStep s t w r := by
  simp [Rdmacm04.step, hrun, hw]

/-- Behind `sem_wait`, and behind `rdma_destroy_id`, rdmacm04's worker has one
statement more. -/
theorem workerStep_refines (hrun : s.status = .running) (hw : s.workers t = some w)
    (h : workerStep s t w r = some u) :
    ∃ n, Run.run Rdmacm04.step s (.replicate n (.worker t r)) = some u := by
  -- The statement of rdmacm04 does the same, or it leads to `v`, and the one
  -- behind it does.
  have once : Rdmacm04.workerStep s t w r = some u →
      ∃ n, Run.run Rdmacm04.step s (.replicate n (.worker t r)) = some u := fun h' =>
    ⟨1, by simp [Run.run, step_worker hrun hw, h']⟩
  have twice : ∀ (v : State) (pc : WorkerPc), v.status = .running →
      Rdmacm04.workerStep s t w r = some (v.workerTo t w pc) →
      Rdmacm04.workerStep (v.workerTo t w pc) t { w with pc := pc } r = some u →
      ∃ n, Run.run Rdmacm04.step s (.replicate n (.worker t r)) = some u := by
    intro v pc hvrun hv hu
    have hvw : (v.workerTo t w pc).workers t = some { w with pc := pc } := update_self ..
    have hvrun' : (v.workerTo t w pc).status = .running := hvrun
    refine ⟨2, ?_⟩
    simp [List.replicate, Run.run, step_worker hrun hw, hv, step_worker hvrun' hvw, hu]
  cases hpc : w.pc with
  | semWait =>
    cases r with
    | ok =>
      by_cases hpos : 0 < (s.slots w.ctx).established.value
      · simp only [workerStep, hpc, if_pos hpos, Option.some.injEq] at h
        refine twice (s.setSem w.ctx { (s.slots w.ctx).established with
          value := (s.slots w.ctx).established.value - 1 }) .loop hrun ?_ ?_
        · simp only [Rdmacm04.workerStep, hpc, if_pos hpos]
        · simp [← h, Rdmacm04.workerStep, State.workerTo, State.setWorker]
      · simp [workerStep, hpc, hpos] at h
    | fail =>
      simp only [workerStep, hpc, Option.some.injEq] at h
      refine twice s .loop hrun ?_ ?_
      · simp only [Rdmacm04.workerStep, hpc]
      · simp [← h, Rdmacm04.workerStep, State.workerTo, State.setWorker]
  | destroyId =>
    cases hid : (s.slots w.ctx).id with
    | none =>
      apply once
      simpa [workerStep, Rdmacm04.workerStep, hpc, State.withId, hid] using h
    | some x =>
      simp only [workerStep, hpc, State.withId, hid, Option.some.injEq] at h
      refine twice { s with ids := update s.ids x none } .teardown hrun ?_ ?_
      · simp only [Rdmacm04.workerStep, hpc, State.withId, hid]
      · simp [← h, Rdmacm04.workerStep, State.workerTo, State.setWorker]
  | loop => simp [workerStep, hpc] at h
  | teardown => simp [workerStep, hpc] at h
  | _ =>
    apply once
    simpa only [workerStep, Rdmacm04.workerStep, hpc] using h

/-- The same for the other threads, which do the same in both. -/
theorem step_refines {a : Action} (h : step s a = some u) :
    Rdmacm04.step s a = some u ∨ ∃ t r n, a = .worker t r ∧
      Run.run Rdmacm04.step s (.replicate n a) = some u := by
  unfold step at h
  split at h
  case isFalse => cases h
  case isTrue hrun =>
    cases a with
    | cmEvent e => exact .inl (by simpa only [Rdmacm04.step, if_pos hrun] using h)
    | loop r => exact .inl (by simpa only [Rdmacm04.step, if_pos hrun] using h)
    | worker t r =>
      obtain ⟨w, hw, h⟩ := Option.bind_eq_some_iff.mp h
      obtain ⟨n, hn⟩ := workerStep_refines hrun hw h
      exact .inr ⟨t, r, n, rfl, hn⟩
    | dies t reason =>
      obtain ⟨w, hw, h⟩ := Option.bind_eq_some_iff.mp h
      refine .inl ?_
      split at h
      · rename_i hdie
        have hdie' : w.pc.mayDie = true := by
          cases hpc : w.pc <;> simp_all [mayDie, WorkerPc.mayDie]
        simpa [Rdmacm04.step, hrun, hw, hdie'] using h
      · cases h

/-- What is asked of the events, and not of the workers, is met by a run of
rdmacm04's server that reaches the same state. -/
theorem run_refines {P : State → Action → Prop} (hP : ∀ s t r, P s (.worker t r))
    {as : List Action} (h : Run.run step s as = some u) (hm : Run.Meets step P s as) :
    ∃ bs, Run.run Rdmacm04.step s bs = some u ∧ Run.Meets Rdmacm04.step P s bs := by
  refine Run.run_refined (fun s a u ha hs => ?_) hm h
  rcases step_refines hs with hu | ⟨t, r, n, rfl, hn⟩
  · exact ⟨[a], by simp [Run.run, hu], ha, fun _ _ => trivial⟩
  · refine ⟨_, hn, Run.Meets.mono (P := fun _ b => b = .worker t r) ?_ (.of_forall ?_)⟩
    · rintro s _ rfl
      exact hP s t r
    · exact fun b hb => List.eq_of_mem_replicate hb

/-- So its workers have slots of their own, too. -/
theorem exclusive_run {as : List Action} (h : Run.run step .initial as = some s) :
    Exclusive s := by
  obtain ⟨bs, hbs, -⟩ := run_refines (P := fun _ _ => True) (fun _ _ _ => trivial) h
    (.of_forall (Q := fun _ => True) fun _ _ => trivial)
  exact Run.run_invariant exclusive_step hbs .initial

end RdmaTutorial.Rdmacm02
