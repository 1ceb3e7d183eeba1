import RdmaTutorial.Rdmacm02.Slots

/-!
# rdmacm02 and rdmacm04: when the server goes down

`cm_event_loop` returns behind the first event that is none of the three it
knows, whosever it is, and `main` then destroys the listener and the channel
that the workers' ids belong to.
-/

namespace RdmaTutorial.Teardown

open Function Rdmacm04

/-- The servers that start a thread for each connection. -/
inductive Program where
  | rdmacm02
  | rdmacm04
  deriving DecidableEq, Repr

def Program.step : Program → State → Action → Option State
  | .rdmacm02 => Rdmacm02.step
  | .rdmacm04 => Rdmacm04.step

/-- The events behind which `cm_event_loop` does not go on. -/
def stops (ev : CmEventType) : Bool :=
  match ev with
  | .connectRequest => false
  | .established => false
  | .disconnected => false
  | _ => true

/-- `should_break` is set, or the loop is behind. -/
def leaving (pc : LoopPc) : Bool :=
  match pc with
  | .ack stop => stop
  | .returned => true
  | _ => false

theorem leaving_dispatchPc (e : CmEvent) : leaving (dispatchPc e) = stops e.event := by
  cases h : e.event <;> simp [dispatchPc, h, stops, leaving]

/-- An event that stops the server arrives only while every slot is free. This is
about the moment of its arrival; that nothing fills a slot from there to the end of
`main`, and that no worker uses an id whose slot is free, is what follows. -/
def StopsIdle (s : State) : Action → Prop
  | .cmEvent e => stops e.event → ∀ k, (s.slots k).id = none
  | _ => True

instance (s : State) : DecidablePred (StopsIdle s)
  | .cmEvent e => inferInstanceAs (Decidable (stops e.event → _))
  | .loop _ => .isTrue trivial
  | .worker .. => .isTrue trivial
  | .dies .. => .isTrue trivial

/-- Nobody uses an id of the channel. -/
structure Idle (s : State) : Prop where
  free : ∀ k, (s.slots k).id = none
  unserved : ∀ t w, s.workers t = some w → ¬w.pc.serving

theorem idle_of_free {s : State} (h : Exclusive s) (hfree : ∀ k, (s.slots k).id = none) :
    Idle s := by
  refine ⟨hfree, fun t w hw hserving => ?_⟩
  have hown := (h.owns t w hw hserving).1
  simp [hfree] at hown

/-- No worker fills a slot, and no statement of the event thread does once
`should_break` is set. -/
theorem step_leaving {s t : State} {a : Action} (h : Rdmacm04.step s a = some t)
    (ha : StopsIdle s a) (hs : leaving s.loop → ∀ k, (s.slots k).id = none)
    (ht : leaving t.loop) : ∀ k, (t.slots k).id = none := by
  cases Step.of_step h with
  | cmEvent hloop => exact ha ((leaving_dispatchPc _).symm.trans ht)
  | loopMoves hmove =>
    apply hs
    generalize s.loop = pc at hmove
    cases hmove <;> simp_all [State.goto, leaving]
  | storeId hloop => cases ht
  | storeIndex hloop => cases ht
  | semInit hloop => cases ht
  | create hloop => cases ht
  | semPost hloop => cases ht
  | workerMoves hw hmove => exact hs ht
  | semWait hw hpc hpos => exact fun k => (State.setSem_id ..).trans (hs ht k)
  | destroyId hw hpc hx => exact hs ht
  | @clear t w r n k hw hpc hk =>
    intro j
    by_cases hj : j = k
    · simp [State.workerTo, State.setWorker, State.setSlot, hj]
    · simpa [State.workerTo, State.setWorker, State.setSlot, hj] using hs ht j
  | semDestroy hw hpc hk => exact fun k => (State.setSem_id ..).trans (hs ht k)
  | ends hst => exact hs ht

theorem idle_of_leaving {as : List Action} {s : State}
    (h : Run.run Rdmacm04.step .initial as = some s)
    (hidle : Run.Meets Rdmacm04.step StopsIdle .initial as) (hl : leaving s.loop) : Idle s := by
  have hfree := hidle.invariant (I := fun s => leaving s.loop → ∀ k, (s.slots k).id = none)
    (fun s a t hs ha h => step_leaving h ha hs) h fun hl => by cases hl
  exact idle_of_free (Run.run_invariant exclusive_step h .initial) (hfree hl)

/-- When the events that stop the server find it idle, it is idle from the moment
one of them is taken up until `main` has destroyed the channel. -/
theorem orderly_teardown {p : Program} {as : List Action} {s : State}
    (h : Run.run p.step .initial as = some s) (hidle : Run.Meets p.step StopsIdle .initial as)
    (hl : leaving s.loop) : Idle s := by
  cases p with
  | rdmacm04 => exact idle_of_leaving h hidle hl
  | rdmacm02 =>
    obtain ⟨bs, hbs, hbm⟩ := Rdmacm02.run_refines (fun _ _ _ => trivial) h hidle
    exact idle_of_leaving hbs hbm hl

/-- A connection that is served to its end by `n` statements of the worker. -/
def served (n : Nat) : List Action :=
  request 100 0 0 ++ worker 0 2 ++
    [.cmEvent ⟨.established, 100, 0⟩, .loop .ok, .loop .ok, .loop .ok] ++ worker 0 n

/-- Of the two servers the second has two statements more. Then the server
stops. -/
theorem orderly_teardown_served :
    (∃ s, Run.run Program.rdmacm02.step .initial
      (served 7 ++ [.cmEvent ⟨.other 15, 100, 0⟩, .loop .ok]) = some s ∧ s.loop = .returned ∧
        Idle s) ∧
    ∃ s, Run.run Program.rdmacm04.step .initial
      (served 9 ++ [.cmEvent ⟨.other 15, 100, 0⟩, .loop .ok]) = some s ∧ s.loop = .returned ∧
        Idle s := by
  have h02 : (Run.run Program.rdmacm02.step .initial
      (served 7 ++ [.cmEvent ⟨.other 15, 100, 0⟩, .loop .ok])).map State.loop =
        some .returned := by decide +kernel
  have h04 : (Run.run Program.rdmacm04.step .initial
      (served 9 ++ [.cmEvent ⟨.other 15, 100, 0⟩, .loop .ok])).map State.loop =
        some .returned := by decide +kernel
  obtain ⟨s, hs, hl⟩ := Option.map_eq_some_iff.mp h02
  obtain ⟨u, hu, hl'⟩ := Option.map_eq_some_iff.mp h04
  exact ⟨⟨s, hs, hl, orderly_teardown hs (by decide +kernel) (by simp [hl, leaving])⟩,
    u, hu, hl', orderly_teardown hu (by decide +kernel) (by simp [hl', leaving])⟩

/-- Two connections are accepted, and the second one fails. -/
def oneFails : List Action :=
  request 100 0 0 ++ worker 0 2 ++ request 200 1 1 ++ worker 1 2 ++
    [.cmEvent ⟨.established, 100, 0⟩, .loop .ok, .loop .ok, .loop .ok] ++ worker 0 1 ++
    [.cmEvent ⟨.connectError, 200, 1⟩, .loop .ok]

/-- Both are in their slots, and the first is being served, when the loop
returns. -/
theorem stopped_by_another :
    (∃ s, Run.run Program.rdmacm02.step .initial oneFails = some s ∧ s.loop = .returned ∧
      (s.slots 0).id = some 100 ∧ s.workers 0 = some ⟨0, .disconnect, 100, 0⟩ ∧ ¬Idle s) ∧
    ∃ s, Run.run Program.rdmacm04.step .initial oneFails = some s ∧ s.loop = .returned ∧
      (s.slots 0).id = some 100 ∧ s.workers 0 = some ⟨0, .loop, 100, 0⟩ ∧ ¬Idle s := by
  have h02 : (Run.run Program.rdmacm02.step .initial oneFails).map
      (fun s => (s.loop, (s.slots 0).id, s.workers 0)) =
        some (.returned, some 100, some ⟨0, .disconnect, 100, 0⟩) := by decide +kernel
  have h04 : (Run.run Program.rdmacm04.step .initial oneFails).map
      (fun s => (s.loop, (s.slots 0).id, s.workers 0)) =
        some (.returned, some 100, some ⟨0, .loop, 100, 0⟩) := by decide +kernel
  obtain ⟨s, hs, h⟩ := Option.map_eq_some_iff.mp h02
  obtain ⟨u, hu, h'⟩ := Option.map_eq_some_iff.mp h04
  obtain ⟨hl, hid, hw⟩ : s.loop = _ ∧ (s.slots 0).id = _ ∧ s.workers 0 = _ := by simpa using h
  obtain ⟨hl', hid', hw'⟩ : u.loop = _ ∧ (u.slots 0).id = _ ∧ u.workers 0 = _ := by simpa using h'
  exact ⟨⟨s, hs, hl, hid, hw, fun hi => by simp [hi.free] at hid⟩,
    u, hu, hl', hid', hw', fun hi => by simp [hi.free] at hid'⟩

end RdmaTutorial.Teardown
