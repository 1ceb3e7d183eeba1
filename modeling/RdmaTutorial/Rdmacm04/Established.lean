import RdmaTutorial.Rdmacm04.Events

/-!
# rdmacm04/server.c: who is told of an `ESTABLISHED`

`cm_event_loop` looks for the slot with the id of the event and posts the
semaphore of the first one it finds. A worker destroys its id before it clears
its slot, so for a while the table holds an address that librdmacm may have
given to a later connection, and the post may go there.

What a worker is let through `sem_wait` by is its own connection's event all the
same: `sem_init` has forgotten every post before, and while the worker waits its
id lives, so no other event matches its slot.
-/

namespace RdmaTutorial.Rdmacm04

open Function Ownership

/-- Between `rdma_destroy_id` and the store of NULL: the slot holds an id that
is not there. -/
def WorkerPc.stale : WorkerPc → Bool
  | .teardown => true
  | .loadIndex => true
  | .clear _ => true
  | _ => false

theorem WorkerPc.stale_of_serving {pc : WorkerPc} (h : pc.serving) (hid : ¬pc.hasId) :
    pc.stale := by
  cases pc <;> simp_all [serving, hasId, waiting, stale]

/-- The slot `k` holds `x`, which its worker has destroyed. -/
def Stale (s : State) (k : Index) (x : Id) : Prop :=
  ∃ t < s.created, ∃ w ∈ s.workers t, w.ctx = k ∧ w.id = x ∧ w.pc.stale

/-- The worker of the connection has not passed `sem_wait`. -/
def Waits (s : State) (c : Conn) : Prop :=
  ∃ t < s.created, ∃ w ∈ s.workers t, w.conn = c ∧ w.pc.waiting

instance (s : State) (k : Index) (x : Id) : Decidable (Stale s k x) :=
  inferInstanceAs (Decidable (∃ t < s.created, _))

instance (s : State) (c : Conn) : Decidable (Waits s c) :=
  inferInstanceAs (Decidable (∃ t < s.created, _))

/-- What waits after a step of a worker waited before it. -/
theorem waiting_workerTo {s : State} {t : Nat} {w : Worker} {pc : WorkerPc}
    (hw : s.workers t = some w) (hpc : pc.waiting → w.pc.waiting) {t' : Nat} {w' : Worker}
    (hw' : (s.workerTo t w pc).workers t' = some w') (hwait : w'.pc.waiting) :
    ∃ v, s.workers t' = some v ∧ v.pc.waiting ∧ w'.ctx = v.ctx ∧ w'.id = v.id ∧
      w'.conn = v.conn := by
  rcases workerTo_cases hw' with ⟨rfl, rfl⟩ | ⟨-, hw'⟩
  · exact ⟨w, hw, hpc hwait, rfl, rfl, rfl⟩
  · exact ⟨w', hw', hwait, rfl, rfl, rfl⟩

/-! ## The search finds the slot of the worker that waits -/

/-- While a worker waits for it, the search for its `ESTABLISHED` looks at no
slot with the event's id in it whose worker has destroyed that id. -/
def Recognised (s : System) (a : Action) : Prop :=
  match a, s.server.loop with
  | .loop _, .find e i =>
    Waits s.server e.conn → ∀ k, index? i = some k → ¬Stale s.server k e.id
  | _, _ => True

instance (s : System) (a : Action) : Decidable (Recognised s a) := by
  unfold Recognised
  split <;> infer_instance

/-- The search has not passed the slot of the worker that waits for it. -/
structure Searching (s : State) : Prop where
  finds : ∀ e i, s.loop = .find e i → ∀ t w, s.workers t = some w → w.pc.waiting →
    w.conn = e.conn → w.id = e.id ∧ i ≤ w.ctx
  posts : ∀ e k, s.loop = .semPost e k → ∀ t w, s.workers t = some w → w.pc.waiting →
    w.conn = e.conn → w.ctx = k

theorem Searching.of_loop {s : State} (hf : ∀ e i, s.loop ≠ .find e i)
    (hp : ∀ e k, s.loop ≠ .semPost e k) : Searching s :=
  ⟨fun e i h => absurd h (hf e i), fun e k h => absurd h (hp e k)⟩

/-- The event thread stays where it is, and nobody new waits. -/
theorem Searching.of_waiting {s s' : State} (h : Searching s) (hloop : s'.loop = s.loop)
    (hback : ∀ t w, s'.workers t = some w → w.pc.waiting → ∃ v, s.workers t = some v ∧
      v.pc.waiting ∧ w.ctx = v.ctx ∧ w.id = v.id ∧ w.conn = v.conn) : Searching s' where
  finds e i hl t w hw hwait hconn := by
    obtain ⟨v, hv, hvw, hctx, hid, hc⟩ := hback t w hw hwait
    rw [hctx, hid]
    exact h.finds e i (hloop ▸ hl) t v hv hvw (hc ▸ hconn)
  posts e k hl t w hw hwait hconn := by
    obtain ⟨v, hv, hvw, hctx, -, hc⟩ := hback t w hw hwait
    rw [hctx]
    exact h.posts e k (hloop ▸ hl) t v hv hvw (hc ▸ hconn)

/-- The search compares one id. -/
theorem Searching.find {s : System} (h : Searching s.server)
    (hids : LiveIds s.dispatched s.server) {e : CmEvent} {i : Nat} {r : Result} {pc : LoopPc}
    (hloop : s.server.loop = .find e i) (hrec : Recognised s (.loop r))
    (hmove : LoopMoves s.server.slots r (.find e i) pc) : Searching (s.server.goto pc) := by
  have hfinds := h.finds e i hloop
  cases hmove with
  | findNone hi => exact .of_loop (by simp [State.goto]) (by simp [State.goto])
  | @findHit r e i k hk hid =>
    refine ⟨by simp [State.goto], ?_⟩
    rintro _ _ ⟨⟩ t w hw hwait hconn
    have hhas := WorkerPc.hasId_of_waiting hwait
    obtain ⟨hwid, -⟩ := hfinds t w hw hwait hconn
    -- Who has the slot that holds this id?
    rcases hids.slots k e.id hid with hcl | ⟨t', w', hw', hs, hctx⟩ | hab
    · simp [hloop, LoopPc.claimed] at hcl
    · have hw'id : w'.id = e.id := by
        have hown := (hids.exclusive.owns t' w' hw' hs).1
        exact Option.some.inj (hown.symm.trans (hctx ▸ hid))
      by_cases hid' : w'.pc.hasId
      · obtain rfl := hids.distinct t' w' t w hw' hw hid' hhas (hw'id.trans hwid.symm)
        exact Option.some.inj (hw.symm.trans hw') ▸ hctx
      · have hwaits : Waits s.server e.conn := ⟨t, hids.bounded t w hw, w, hw, hconn, hwait⟩
        have hstale : Stale s.server k e.id :=
          ⟨t', hids.bounded t' w' hw', w', hw', hctx, hw'id, WorkerPc.stale_of_serving hs hid'⟩
        simp only [Recognised, hloop] at hrec
        exact absurd hstale (hrec hwaits k hk)
    · exact absurd hwid (hab.unused t w hw hhas)
  | @findNext r e i k hk hne =>
    refine ⟨?_, by simp [State.goto]⟩
    rintro _ _ ⟨⟩ t w hw hwait hconn
    obtain ⟨hwid, hle⟩ := hfinds t w hw hwait hconn
    have hown := (hids.exclusive.owns t w hw
      (WorkerPc.serving_of_hasId (WorkerPc.hasId_of_waiting hwait))).1
    have hik : i ≠ w.ctx := by
      rintro rfl
      obtain rfl : w.ctx = k := Fin.ext (index?_eq_some hk)
      exact hne (hwid ▸ hown)
    exact ⟨hwid, by omega⟩

theorem Searching.step {s t : System} {a : Action} (h : Searching s.server)
    (hids : LiveIds s.dispatched s.server) (ha : s.Allowed a) (hrec : Recognised s a)
    (hs : s.step a = some t) : Searching t.server := by
  obtain ⟨u, hu, rfl⟩ := Option.map_eq_some_iff.mp hs
  cases Step.of_step hu with
  | @cmEvent e hloop =>
    obtain ⟨ev, x, c⟩ := e
    refine ⟨?_, ?_⟩
    · intro e' i hl t w hw hwait hconn
      cases ev <;> cases hl
      -- The event's id is live, and so is that of the worker that waits.
      have hev : s.server.ids x = some c := ha
      have hlive := hids.live t w hw (WorkerPc.hasId_of_waiting hwait)
      rw [hconn] at hlive
      exact ⟨hids.injective w.id x c hlive hev, Nat.zero_le _⟩
    · intro e' k hl
      cases ev <;> cases hl
  | @loopMoves r pc hmove =>
    cases hloop : s.server.loop with
    | find e i => exact h.find hids hloop hrec (hloop ▸ hmove)
    | _ =>
      rw [hloop] at hmove
      refine .of_loop ?_ ?_ <;> cases hmove <;> simp [State.goto]
  | storeId hloop | storeIndex hloop | semInit hloop | semPost hloop =>
    exact .of_loop (by simp [State.goto]) (by simp [State.goto])
  | create hloop => exact .of_loop (by simp) (by simp)
  | workerMoves hw hmove =>
    exact h.of_waiting rfl fun t' w' hw' => waiting_workerTo hw hmove.keeps.2.2 hw'
  | semWait hw hpc hpos =>
    exact h.of_waiting rfl fun t' w' hw' => waiting_workerTo hw (by simp [WorkerPc.waiting]) hw'
  | destroyId hw hpc hx =>
    exact h.of_waiting rfl fun t' w' hw' => waiting_workerTo hw (by simp [WorkerPc.waiting]) hw'
  | clear hw hpc hk =>
    exact h.of_waiting rfl fun t' w' hw' => waiting_workerTo hw (by simp [WorkerPc.waiting]) hw'
  | semDestroy hw hpc hk =>
    exact h.of_waiting rfl fun t' w' hw' => waiting_workerTo hw (by simp [WorkerPc.waiting]) hw'
  | ends hst => exact ⟨h.finds, h.posts⟩

/-- Where an `ESTABLISHED` goes whose worker waits for it: to that worker's slot,
and not past it. -/
structure PostsToOwn (s : State) : Prop where
  posts : ∀ e k, s.loop = .semPost e k → ∀ t w, s.workers t = some w → w.pc.waiting →
    w.conn = e.conn → Owns s t w k
  finds : ∀ e i, s.loop = .find e i → index? i = none → ∀ t w, s.workers t = some w →
    w.pc.waiting → w.conn ≠ e.conn

/-- In every interleaving in which the search is not misled by an address that
came back too early, whoever waits for its `ESTABLISHED` is the one it is posted
to. -/
theorem posts_to_own {as : List Action} {s : System}
    (h : Run.run System.step .initial as = some s)
    (ha : Run.Meets System.step System.Allowed .initial as)
    (hrec : Run.Meets System.step Recognised .initial as) : PostsToOwn s.server := by
  obtain ⟨hids, hsearch⟩ := (ha.and hrec).invariant
    (I := fun s => LiveIds s.dispatched s.server ∧ Searching s.server)
    (fun s a t hi ha hs => ⟨liveIds_step s a t hi.1 ha.1 hs, hi.2.step hi.1 ha.1 ha.2 hs⟩) h
    ⟨.initial, .of_loop (by simp [System.initial, State.initial])
      (by simp [System.initial, State.initial])⟩
  refine ⟨fun e k hloop t w hw hwait hconn => ?_, fun e i hloop hi t w hw hwait hconn => ?_⟩
  · obtain rfl := hsearch.posts e k hloop t w hw hwait hconn
    exact hids.exclusive.owner hw (WorkerPc.serving_of_hasId (WorkerPc.hasId_of_waiting hwait))
  · have hle := (hsearch.finds e i hloop t w hw hwait hconn).2
    have hlt := w.ctx.isLt
    simp [index?, show i < maxThreads by omega] at hi

/-- Connection 0 is served until its id is destroyed; `worker` is where its
worker stops. Connection 1 comes, to slot `k`, with the address of that id, and
its worker waits when its `ESTABLISHED` is taken up. -/
def addressReused (worker k : Nat) : List Action :=
  request 100 0 0 ++ Rdmacm04.worker 0 2 ++
    [.cmEvent ⟨.established, 100, 0⟩, .loop .ok, .loop .ok, .loop .ok] ++
    Rdmacm04.worker 0 worker ++ request 100 1 k ++ Rdmacm04.worker 1 2 ++
    [.cmEvent ⟨.established, 100, 1⟩, .loop .ok]

/-- Slot 0 is clear before the address comes back. -/
theorem posts_to_own_cleared : ∃ s, Run.run System.step .initial (addressReused 7 0) = some s ∧
    (∃ e, s.server.loop = .semPost e 0) ∧ PostsToOwn s.server := by
  have hrun : (Run.run System.step .initial (addressReused 7 0)).map (·.server.loop) =
      some (.semPost ⟨.established, 100, 1⟩ 0) := by decide +kernel
  obtain ⟨s, hs, hloop⟩ := Option.map_eq_some_iff.mp hrun
  exact ⟨s, hs, ⟨_, hloop⟩, posts_to_own hs (by decide +kernel) (by decide +kernel)⟩

/-- Slot 0 still holds it: connection 1 is served in slot 1, and its
`ESTABLISHED` is posted to slot 0. -/
theorem posted_to_another : ∃ s, Run.run System.step .initial (addressReused 4 1) = some s ∧
    Run.Meets System.step System.Allowed .initial (addressReused 4 1) ∧
    ¬PostsToOwn s.server := by
  have hrun : (Run.run System.step .initial (addressReused 4 1)).map
      (fun s => (s.server.loop, s.server.workers 1)) =
      some (.semPost ⟨.established, 100, 1⟩ 0, some ⟨1, .semWait, 100, 1⟩) := by decide +kernel
  obtain ⟨s, hs, hpair⟩ := Option.map_eq_some_iff.mp hrun
  obtain ⟨hloop, hw⟩ := Prod.mk.inj hpair
  refine ⟨s, hs, by decide +kernel, fun hown => ?_⟩
  exact absurd (hown.posts _ _ hloop 1 _ hw rfl rfl).ctx (by decide)

/-! ## What lets a worker through -/

/-- No `sem_wait` is interrupted. -/
def Uninterrupted (s : System) : Action → Prop
  | .worker t .fail => ∀ w ∈ s.server.workers t, w.pc ≠ .semWait
  | _ => True

instance (s : System) : DecidablePred (Uninterrupted s) := fun a => by
  unfold Uninterrupted
  split <;> infer_instance

/-- What the counter of a semaphore counts, for the worker that waits for it:
posts for its own connection. -/
structure Gate (s : System) : Prop where
  fresh : ∀ e k, s.server.loop = .create e k → (s.server.slots k).established.value = 0
  told : ∀ e, s.server.loop.finding = some e → s.Told e.conn
  matching : ∀ e, s.server.loop.finding = some e → ∀ t w, s.server.workers t = some w →
    w.pc.waiting → w.id = e.id → w.conn = e.conn
  posts : ∀ e k, s.server.loop = .semPost e k → ∀ t w, s.server.workers t = some w →
    w.pc.waiting → w.ctx = k → w.conn = e.conn
  counted : ∀ t w, s.server.workers t = some w → w.pc.waiting →
    0 < (s.server.slots w.ctx).established.value → s.Told w.conn
  passed : ∀ t w, s.server.workers t = some w → ¬w.pc.waiting → s.Told w.conn

theorem System.Told.next {s : System} {c : Conn} (h : s.Told c) (a : Action) (u : State)
    (holder : Index → Option Nat) : System.Told ⟨u, s.nextDispatched a, holder⟩ c := by
  obtain ⟨e, he, hev⟩ := h
  exact ⟨e, mem_nextDispatched a he, hev⟩

/-- A step of a worker: nobody new waits, no counter rises, and who is through
had a right to. -/
theorem Gate.of_worker {s : System} (h : Gate s) {u : State} (a : Action)
    (holder : Index → Option Nat) (hloop : u.loop = s.server.loop)
    (hvalue : ∀ k, (u.slots k).established.value ≤ (s.server.slots k).established.value)
    (hback : ∀ t w, u.workers t = some w → w.pc.waiting → ∃ v, s.server.workers t = some v ∧
      v.pc.waiting ∧ w.ctx = v.ctx ∧ w.id = v.id ∧ w.conn = v.conn)
    (hpassed : ∀ t w, u.workers t = some w → ¬w.pc.waiting → s.Told w.conn) :
    Gate ⟨u, s.nextDispatched a, holder⟩ where
  fresh e k hl := by
    have hzero := h.fresh e k (hloop ▸ hl)
    exact Nat.le_zero.mp (hzero ▸ hvalue k)
  told e he := (h.told e (hloop ▸ he)).next a u holder
  matching e he t w hw hwait hid := by
    obtain ⟨v, hv, hvw, -, hvid, hc⟩ := hback t w hw hwait
    rw [hc]
    exact h.matching e (hloop ▸ he) t v hv hvw (hvid ▸ hid)
  posts e k hl t w hw hwait hctx := by
    obtain ⟨v, hv, hvw, hvctx, -, hc⟩ := hback t w hw hwait
    rw [hc]
    exact h.posts e k (hloop ▸ hl) t v hv hvw (hvctx ▸ hctx)
  counted t w hw hwait hpos := by
    obtain ⟨v, hv, hvw, hvctx, -, hc⟩ := hback t w hw hwait
    rw [hc]
    exact (h.counted t v hv hvw (hvctx ▸ Nat.lt_of_lt_of_le hpos (hvalue w.ctx))).next a u holder
  passed t w hw hwait := (hpassed t w hw hwait).next a u holder

/-- A step of the event thread that is not at work on an `ESTABLISHED` behind
it, starts no worker and makes no post. -/
theorem Gate.of_loop {s : System} (h : Gate s) {u : State} (a : Action)
    (holder : Index → Option Nat) (hfinding : u.loop.finding = none)
    (hworkers : u.workers = s.server.workers)
    (hfresh : ∀ e k, u.loop = .create e k → (u.slots k).established.value = 0)
    (hvalue : ∀ k, (u.slots k).established.value ≤ (s.server.slots k).established.value) :
    Gate ⟨u, s.nextDispatched a, holder⟩ where
  fresh := hfresh
  told e he := by simp [hfinding] at he
  matching e he := by simp [hfinding] at he
  posts e k hl := by simp [show u.loop = .semPost e k from hl, LoopPc.finding] at hfinding
  counted t w hw hwait hpos := by
    rw [hworkers] at hw
    exact (h.counted t w hw hwait (Nat.lt_of_lt_of_le hpos (hvalue w.ctx))).next a u holder
  passed t w hw hwait := by
    rw [hworkers] at hw
    exact (h.passed t w hw hwait).next a u holder

/-- The event thread takes up an event. -/
theorem Gate.cmEvent {s : System} (h : Gate s) (hids : LiveIds s.dispatched s.server)
    {e : CmEvent} (ha : s.Allowed (.cmEvent e)) :
    Gate ⟨{ s.server with loop := dispatchPc e, ids := announced s.server e },
      s.dispatched ++ [e], s.holder⟩ := by
  by_cases hev : e.event = .established
  · have hlive : s.server.ids e.id = some e.conn := by
      simpa [System.Allowed, hev] using ha
    have hloop : dispatchPc e = .find e 0 := by simp [dispatchPc, hev]
    rw [hloop]
    exact {
      fresh := by simp
      told := by
        rintro _ ⟨⟩
        exact ⟨e, by simp, hev, rfl⟩
      matching := by
        rintro _ ⟨⟩ t w hw hwait hid
        -- Both ids are live, and they are the same.
        have hown := hids.live t w hw (WorkerPc.hasId_of_waiting hwait)
        rw [hid, hlive] at hown
        exact (Option.some.inj hown).symm
      posts := by simp
      counted := fun t w hw hwait hpos =>
        (h.counted t w hw hwait hpos).next (.cmEvent e) _ s.holder
      passed := fun t w hw hwait => (h.passed t w hw hwait).next (.cmEvent e) _ s.holder }
  · refine h.of_loop (.cmEvent e) s.holder ?_ rfl ?_ (fun k => Nat.le_refl _)
    · cases h' : e.event <;> simp_all [dispatchPc, LoopPc.finding]
    · intro e' k hl
      cases h' : e.event <;> simp_all [dispatchPc]

/-- The search comes to a slot with the id of the event. -/
theorem Gate.found {s : System} (h : Gate s) (hex : Exclusive s.server) {e : CmEvent} {i : Nat}
    {k : Index} (hloop : s.server.loop = .find e i) (hid : (s.server.slots k).id = some e.id)
    (a : Action) (holder : Index → Option Nat) :
    Gate ⟨s.server.goto (.semPost e k), s.nextDispatched a, holder⟩ where
  fresh := by simp [State.goto]
  told := by
    rintro _ ⟨⟩
    exact (h.told e (by simp [hloop, LoopPc.finding])).next a _ holder
  matching := by
    rintro _ ⟨⟩
    exact h.matching e (by simp [hloop, LoopPc.finding])
  posts := by
    rintro _ _ ⟨⟩ t w hw hwait rfl
    have hown := (hex.owns t w hw (WorkerPc.serving_of_hasId (WorkerPc.hasId_of_waiting hwait))).1
    exact h.matching e (by simp [hloop, LoopPc.finding]) t w hw hwait
      (Option.some.inj (hown.symm.trans hid))
  counted t w hw hwait hpos := (h.counted t w hw hwait hpos).next a _ holder
  passed t w hw hwait := (h.passed t w hw hwait).next a _ holder

/-- The search goes on to the next slot. -/
theorem Gate.next {s : System} (h : Gate s) {e : CmEvent} {i : Nat}
    (hloop : s.server.loop = .find e i) (a : Action) (holder : Index → Option Nat) :
    Gate ⟨s.server.goto (.find e (i + 1)), s.nextDispatched a, holder⟩ where
  fresh := by simp [State.goto]
  told := by
    rintro _ ⟨⟩
    exact (h.told e (by simp [hloop, LoopPc.finding])).next a _ holder
  matching := by
    rintro _ ⟨⟩
    exact h.matching e (by simp [hloop, LoopPc.finding])
  posts := by simp [State.goto]
  counted t w hw hwait hpos := (h.counted t w hw hwait hpos).next a _ holder
  passed t w hw hwait := (h.passed t w hw hwait).next a _ holder

/-- `sem_post`. -/
theorem Gate.semPost {s : System} (h : Gate s) {e : CmEvent} {k : Index}
    (hloop : s.server.loop = .semPost e k) (a : Action) (holder : Index → Option Nat) (m : Sem) :
    Gate ⟨(s.server.setSem k m).goto (.ack false), s.nextDispatched a, holder⟩ where
  fresh := by simp [State.goto]
  told := by simp [State.goto, LoopPc.finding]
  matching := by simp [State.goto, LoopPc.finding]
  posts := by simp [State.goto]
  counted t w hw hwait hpos := by
    by_cases hk : w.ctx = k
    · rw [h.posts e k hloop t w hw hwait hk]
      exact (h.told e (by simp [hloop, LoopPc.finding])).next a _ holder
    · have hpos' : 0 < (s.server.slots w.ctx).established.value := by
        simpa [State.setSem, State.setSlot, State.goto, hk] using hpos
      exact (h.counted t w hw hwait hpos').next a _ holder
  passed t w hw hwait := (h.passed t w hw hwait).next a _ holder

/-- A worker starts, and the counter of its semaphore with it. -/
theorem Gate.create {s : System} (h : Gate s) {e : CmEvent} {k : Index}
    (hloop : s.server.loop = .create e k) (a : Action) (holder : Index → Option Nat) :
    Gate ⟨{ s.server with
      workers := update s.server.workers s.server.created
        (some { ctx := k, pc := .setup, id := e.id, conn := e.conn }),
      created := s.server.created + 1,
      loop := .ack false }, s.nextDispatched a, holder⟩ where
  fresh := by simp
  told := by simp [LoopPc.finding]
  matching := by simp [LoopPc.finding]
  posts := by simp
  counted := by
    refine forall_update (fun t w hw hwait hpos => ?_) fun _ hpos => ?_
    · exact (h.counted t w hw hwait hpos).next a _ holder
    · have hzero := h.fresh e k hloop
      exact absurd hpos (by simp [hzero])
  passed := by
    refine forall_update (fun t w hw hwait => ?_) fun hwait => ?_
    · exact (h.passed t w hw hwait).next a _ holder
    · simp [WorkerPc.waiting] at hwait

/-- No statement but `sem_wait` takes a worker past it. -/
theorem WorkerMoves.passes {c : Slot} {r : Result} {p q : WorkerPc} (h : WorkerMoves c r p q)
    (hr : r = .fail → p ≠ .semWait) (hq : ¬q.waiting) : ¬p.waiting := by
  cases h <;> simp_all [WorkerPc.waiting]

theorem Gate.step {s t : System} {a : Action} (h : Gate s)
    (hids : LiveIds s.dispatched s.server) (ha : s.Allowed a) (hun : Uninterrupted s a)
    (hs : s.step a = some t) : Gate t := by
  obtain ⟨u, hu, rfl⟩ := Option.map_eq_some_iff.mp hs
  cases Step.of_step hu with
  | cmEvent hloop => exact h.cmEvent hids ha
  | @loopMoves r pc hmove =>
    cases hloop : s.server.loop with
    | find e i =>
      rw [hloop] at hmove
      cases hmove with
      | findNone hi => exact h.of_loop _ _ rfl rfl (by simp [State.goto]) fun k => Nat.le_refl _
      | findHit hk hid => exact h.found hids.exclusive hloop hid _ _
      | findNext hk hid => exact h.next hloop _ _
    | _ =>
      rw [hloop] at hmove
      refine h.of_loop _ _ ?_ rfl ?_ fun k => Nat.le_refl _
      · cases hmove <;> rfl
      · cases hmove <;> simp [State.goto]
  | @storeId r e k hloop =>
    refine h.of_loop _ _ rfl rfl (by simp [State.goto]) fun j => ?_
    by_cases hj : j = k <;> simp [State.setSlot, State.goto, hj]
  | @storeIndex r e k hloop =>
    refine h.of_loop _ _ rfl rfl (by simp [State.goto]) fun j => ?_
    by_cases hj : j = k <;> simp [State.setSlot, State.goto, hj]
  | @semInit r e k hloop =>
    refine h.of_loop _ _ rfl rfl ?_ fun j => ?_
    · rintro _ _ ⟨⟩
      simp [State.setSem, State.setSlot, State.goto]
    · by_cases hj : j = k <;> simp [State.setSem, State.setSlot, State.goto, hj]
  | create hloop => exact h.create hloop _ _
  | semPost hloop => exact h.semPost hloop _ _ _
  | @workerMoves t w r pc hw hmove =>
    have hr : r = .fail → w.pc ≠ .semWait := by
      rintro rfl
      exact hun w hw
    refine h.of_worker _ _ rfl (fun k => Nat.le_refl _)
      (fun t' w' hw' => waiting_workerTo hw hmove.keeps.2.2 hw')
      (forall_workerTo h.passed fun hq => ?_)
    exact h.passed t w hw (hmove.passes hr hq)
  | @semWait t w hw hpc hpos =>
    have hwait : w.pc.waiting := by simp [hpc, WorkerPc.waiting]
    refine h.of_worker _ _ rfl (fun k => ?_)
      (fun t' w' hw' => waiting_workerTo hw (by simp [WorkerPc.waiting]) hw')
      (forall_workerTo h.passed fun _ => h.counted t w hw hwait hpos)
    by_cases hk : k = w.ctx <;>
      simp [State.setSem, State.setSlot, State.workerTo, State.setWorker, hk]
  | @destroyId t w r x hw hpc hx =>
    have htold := h.passed t w hw (by simp [hpc, WorkerPc.waiting])
    exact h.of_worker _ _ rfl (fun k => Nat.le_refl _)
      (fun t' w' hw' => waiting_workerTo hw (by simp [WorkerPc.waiting]) hw')
      (forall_workerTo h.passed fun _ => htold)
  | @clear t w r n k hw hpc hk =>
    have htold := h.passed t w hw (by simp [hpc, WorkerPc.waiting])
    refine h.of_worker _ _ rfl (fun j => ?_)
      (fun t' w' hw' => waiting_workerTo hw (by simp [WorkerPc.waiting]) hw')
      (forall_workerTo h.passed fun _ => htold)
    by_cases hj : j = k <;> simp [State.setSlot, State.workerTo, State.setWorker, hj]
  | @semDestroy t w r n k hw hpc hk =>
    -- `sem_destroy` leaves the counter as it is.
    have htold := h.passed t w hw (by simp [hpc, WorkerPc.waiting])
    refine h.of_worker _ _ rfl (fun j => ?_)
      (fun t' w' hw' => waiting_workerTo hw (by simp [WorkerPc.waiting]) hw')
      (forall_workerTo h.passed fun _ => htold)
    by_cases hj : j = k <;>
      simp [State.setSem, State.setSlot, State.workerTo, State.setWorker, hj]
  | ends hst =>
    exact ⟨h.fresh, fun e he => (h.told e he).next a _ _, h.matching, h.posts,
      fun t w hw hwait hpos => (h.counted t w hw hwait hpos).next a _ _,
      fun t w hw hwait => (h.passed t w hw hwait).next a _ _⟩

/-- A worker that is past `sem_wait`, in its polling loop or behind it, serves a
connection whose `ESTABLISHED` the event thread has taken up. -/
theorem established_first {as : List Action} {s : System}
    (h : Run.run System.step .initial as = some s)
    (ha : Run.Meets System.step System.Allowed .initial as)
    (hun : Run.Meets System.step Uninterrupted .initial as) {t : Nat} {w : Worker}
    (hw : s.server.workers t = some w) (hpc : ¬w.pc.waiting) : s.Told w.conn := by
  have hgate := ((ha.and hun).invariant
    (I := fun s => LiveIds s.dispatched s.server ∧ Gate s)
    (fun s a t hi ha hs => ⟨liveIds_step s a t hi.1 ha.1 hs, hi.2.step hi.1 ha.1 ha.2 hs⟩) h
    ⟨.initial, by constructor <;> simp [System.initial, State.initial, LoopPc.finding]⟩).2
  exact hgate.passed t w hw hpc

/-- A worker in a slot, and at an address, that an earlier connection has left. -/
theorem established_first_reused : ∃ s w,
    Run.run System.step .initial (addressReused 8 0 ++ [.loop .ok, .worker 1 .ok]) = some s ∧
      s.server.workers 1 = some w ∧ w.pc = .loop ∧ s.Told w.conn := by
  have hrun : (Run.run System.step .initial (addressReused 8 0 ++
      [.loop .ok, .worker 1 .ok])).bind (·.server.workers 1) = some ⟨0, .loop, 100, 1⟩ := by
    decide +kernel
  obtain ⟨s, hs, hw⟩ := Option.bind_eq_some_iff.mp hrun
  exact ⟨s, _, hs, hw, rfl, established_first hs (by decide +kernel) (by decide +kernel) hw
    (by decide)⟩

end RdmaTutorial.Rdmacm04
