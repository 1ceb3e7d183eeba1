import RdmaTutorial.Rdmacm05.Table

/-!
# rdmacm05/server.c: what is left of a connection

A connection ends by `DISCONNECTED`, or, when its establishment fails behind
`rdma_accept`, by `CONNECT_ERROR`, `UNREACHABLE` or `REJECTED`. The server
releases what it holds of it for the first of these only; the others are in the
`default` branch.
-/

namespace RdmaTutorial.Rdmacm05.CmEvents

open Function Objects

/-- Something the server may hold of a connection, by its address. -/
inductive Item where
  | id (x : Id)
  | ctx (k : Ctx)
  | conn (n : Nc)
  /-- A completion channel, in `epoll_fd`. -/
  | registration (c : Nat)
  | object (h : Handle)

def State.Has (s : State) : Item → Prop
  | .id x => s.ids x ≠ none
  | .ctx k => s.ctxs k ≠ none
  | .conn n => s.conns n ≠ none
  | .registration c => c ∈ s.epoll
  | .object h => IsLive s.objs h

/-- All there is of a connection. -/
def items (x : Id) (k : Ctx) (n : Nc) (h : Handles) : List Item :=
  [.id x, .ctx k, .conn n, .registration h.cc] ++ h.all.map .object

/-- The item is one that this request is given, by librdmacm, `malloc` or
libibverbs. -/
def Given (a : CmEvent × Returns) (i : Item) : Prop :=
  a.1.event = .connectRequest ∧
    (i = .id a.1.id ∨ ∃ k ∈ a.2.ctx, i ∈ items a.1.id k a.2.nc a.2.handles)

/-- The event is the last one of an accepted connection. -/
def Ends (s : System) (e : CmEvent) : Prop :=
  match e.event with
  | .disconnected => s.phase e.id ≠ none
  | .connectError => s.phase e.id = some .requested
  | .unreachable => s.phase e.id = some .requested
  | .rejected => s.phase e.id = some .requested
  | _ => False

instance (s : System) : ∀ e, Decidable (Ends s e)
  | ⟨.disconnected, x⟩ => inferInstanceAs (Decidable (s.phase x ≠ none))
  | ⟨.connectError, x⟩ => inferInstanceAs (Decidable (s.phase x = some .requested))
  | ⟨.unreachable, x⟩ => inferInstanceAs (Decidable (s.phase x = some .requested))
  | ⟨.rejected, x⟩ => inferInstanceAs (Decidable (s.phase x = some .requested))
  | ⟨.connectRequest, _⟩ => .isFalse id
  | ⟨.established, _⟩ => .isFalse id
  | ⟨.other _, _⟩ => .isFalse id

/-- From the event that ends a connection on, the server has nothing of it, but
what a later request has been given at the same address. -/
def Releases (as : List (CmEvent × Returns)) : Prop :=
  ∀ bs a cs ds u v, as = bs ++ a :: (cs ++ ds) → Run.run step .initial bs = some u →
    Ends u a.1 → Run.run step u (a :: cs) = some v → ∀ k n h, Open u a.1.id k n h →
      ∀ i ∈ items a.1.id k n h, v.server.Has i → ∃ c ∈ cs, Given c i

/-- The connection has not failed on the way to its `ESTABLISHED`. -/
def EndsDisconnected (s : System) (a : CmEvent × Returns) : Prop :=
  Ends s a.1 → a.1.event = .disconnected

instance (s : System) (a : CmEvent × Returns) : Decidable (EndsDisconnected s a) :=
  inferInstanceAs (Decidable (_ → _))

/-! ## What an event adds -/

theorem has_setContext {s : State} {x : Id} {k : Option Ctx} {i : Item}
    (h : (s.setContext x k).Has i) : s.Has i := by
  cases i with
  | id y =>
    by_cases hx : s.ids x = none
    · simpa [State.Has, State.setContext_ids hx] using h
    · by_cases hy : y = x
      · exact hy ▸ hx
      · cases hid : s.ids x with
        | none => exact absurd hid hx
        | some o => simpa [State.Has, State.setContext, hid, hy] using h
  | _ => simpa [State.Has] using h

/-- An event other than a request adds nothing: to a `conn_context` it writes
only if that is there. -/
theorem has_setCtx {s : State} {k : Ctx} {c : ConnContext} {i : Item} (hk : s.ctxs k ≠ none)
    (h : (s.setCtx k c).Has i) : s.Has i := by
  cases i with
  | ctx j =>
    by_cases hj : j = k
    · exact hj ▸ hk
    · simpa [State.Has, State.setCtx, hj] using h
  | _ => exact h

theorem ne_none_of_update {ε : Type} {T : Nat → Option ε} {x y : Nat}
    (h : update T x none y ≠ none) : T y ≠ none := by
  by_cases hy : y = x
  · subst hy
    simp at h
  · simpa [hy] using h

theorem has_destroyId {s : State} {x : Id} {i : Item} (h : (s.destroyId x).Has i) : s.Has i := by
  cases i with
  | id y => exact ne_none_of_update h
  | _ => exact h

theorem has_freeConn {s : State} {n : Nc} {i : Item} (h : (s.freeConn n).Has i) : s.Has i := by
  cases i with
  | conn m => exact ne_none_of_update h
  | _ => exact h

theorem has_freeCtx {s : State} {k : Ctx} {i : Item} (h : (s.freeCtx k).Has i) : s.Has i := by
  cases i with
  | ctx j => exact ne_none_of_update h
  | _ => exact h

theorem has_unregister {s : State} {c : Nat} {f : Bool} {i : Item}
    (h : (s.unregister c f).Has i) : s.Has i := by
  cases i with
  | registration d =>
    cases f with
    | false => exact List.mem_of_mem_erase h
    | true => exact h
  | _ => exact h

theorem has_destroy {s : State} {d : Handle} {i : Item} (h : (s.destroy d).Has i) : s.Has i := by
  cases i with
  | registration c =>
    simp only [State.Has, State.destroy] at h
    split at h
    · exact h
    · exact List.mem_of_mem_filter h
  | object g =>
    obtain ⟨o, ho, hg⟩ := h
    simp only [State.destroy, Objects.destroy] at ho
    split at ho
    · exact ⟨o, ho, hg⟩
    · exact ⟨o, List.mem_of_mem_filter ho, hg⟩
  | _ => exact h

theorem has_teardown {s : State} {hs : Handles} {i : Item} (h : (teardown s hs).Has i) :
    s.Has i := by
  unfold teardown at h
  generalize teardownOrder hs = ds at h
  induction ds generalizing s with
  | nil => exact h
  | cons d ds ih => exact has_destroy (ih h)

theorem has_disconnected {s : State} {x : Id} {r : Returns} {i : Item}
    (h : (disconnected s x r).Has i) : s.Has i := by
  unfold disconnected at h
  split at h
  · exact h
  · exact h
  rename_i k _
  split at h
  · exact h
  rename_i cctx hk
  have hlive : s.ctxs k ≠ none := by simp [hk]
  dsimp only at h
  split at h
  · exact has_setCtx hlive (has_destroyId h)
  split at h
  · exact has_setCtx hlive (has_destroyId h)
  · exact has_setCtx hlive (has_destroyId (has_unregister (has_teardown (has_freeConn
      (has_setContext (has_freeCtx h))))))

theorem has_established {s : State} {x : Id} {i : Item} (h : (established s x).Has i) :
    s.Has i := by
  unfold established at h
  split at h
  · exact h
  · exact h
  split at h
  · exact h
  · rename_i hk
    exact has_setCtx (by simp [hk]) h

theorem has_setupConnection {s : State} {x : Id} {r : Returns} {i : Item}
    (h : (setupConnection s x r).Has i) :
    s.Has i ∨ i = .conn r.nc ∨ ∃ d ∈ r.handles.all, i = .object d := by
  cases i with
  | conn m =>
    by_cases hm : m = r.nc
    · exact .inr (.inl (by rw [hm]))
    · exact .inl (by simpa [State.Has, setupConnection, hm] using h)
  | object d =>
    obtain ⟨o, ho, rfl⟩ := h
    rcases List.mem_append.mp ho with ho | ho
    · exact .inl ⟨o, ho, rfl⟩
    · exact .inr (.inr ⟨_, Handles.mem_all_of_mem ho, rfl⟩)
  | _ => exact .inl h

theorem has_register {s : State} {c : Nat} {i : Item} (h : (s.register c).Has i) :
    s.Has i ∨ i = .registration c := by
  cases i with
  | registration d =>
    rcases List.mem_append.mp h with hd | hd
    · exact .inl hd
    · exact .inr (by rw [List.mem_singleton.mp hd])
  | _ => exact .inl h

theorem has_handleNewRequest {s : State} {k : Ctx} {r : Returns} (x : Id) {i : Item}
    (h : (handleNewRequest s k r).Has i) :
    s.Has i ∨ i ∈ items x k r.nc r.handles := by
  unfold handleNewRequest at h
  split at h
  · exact .inl h
  · exact .inl h
  · rename_i cctx hk hf
    have hlive : ((setupConnection s cctx.id r).register r.handles.cc).ctxs k ≠ none := by
      simp [State.register, setupConnection, State.use, hk]
    rcases has_register (has_setCtx hlive h) with h | rfl
    · rcases has_setupConnection h with h | rfl | ⟨d, hd, rfl⟩
      · exact .inl h
      · simp [items]
      · simp [items, hd]
    · simp [items]

/-- A request adds what it is given. -/
theorem has_connectRequest {s : State} {x : Id} {r : Returns} {i : Item}
    (h : (connectRequest s x r).Has i) : s.Has i ∨ Given (⟨.connectRequest, x⟩, r) i := by
  have announced : ∀ {i : Item}, State.Has { s with ids := update s.ids x (some none) } i →
      s.Has i ∨ i = .id x := by
    intro i h
    cases i with
    | id y =>
      by_cases hy : y = x
      · exact .inr (by rw [hy])
      · exact .inl (by simpa [State.Has, hy] using h)
    | _ => exact .inl h
  unfold connectRequest at h
  cases hk : r.ctx with
  | none =>
    simp only [hk] at h
    exact (announced h).imp_right fun hi => ⟨rfl, .inl hi⟩
  | some k =>
    simp only [hk] at h
    have given : i ∈ items x k r.nc r.handles → Given (⟨.connectRequest, x⟩, r) i :=
      fun hi => ⟨rfl, .inr ⟨k, hk, hi⟩⟩
    rcases has_handleNewRequest x h with h | hi
    · by_cases hi : i = .ctx k
      · exact .inr (given (by simp [hi, items]))
      · have hold : State.Has { s with ids := update s.ids x (some none) } i := by
          have hset := has_setContext h
          cases i with
          | ctx j =>
            have hj : j ≠ k := fun heq => hi (by rw [heq])
            simpa [State.Has, State.setCtx, hj] using hset
          | _ => exact hset
        exact (announced hold).imp_right fun hi => ⟨rfl, .inl hi⟩
    · exact .inr (given hi)

theorem has_step {s t : System} {a : CmEvent × Returns} (h : step s a = some t) {i : Item}
    (hi : t.server.Has i) : s.server.Has i ∨ Given a i := by
  obtain ⟨-, -, rfl⟩ := step_eq_some h
  obtain ⟨⟨ev, x⟩, r⟩ := a
  cases ev with
  | connectRequest => exact has_connectRequest hi
  | established => exact .inl (has_established hi)
  | disconnected => exact .inl (has_disconnected hi)
  | _ => exact .inl hi

/-- What the server has at the end of a run it has had, or been given since. -/
theorem has_run {as : List (CmEvent × Returns)} {s t : System} (h : Run.run step s as = some t)
    {i : Item} (hi : t.server.Has i) : s.server.Has i ∨ ∃ a ∈ as, Given a i := by
  induction as generalizing s with
  | nil =>
    cases h
    exact .inl hi
  | cons a as ih =>
    obtain ⟨u, hu, hr⟩ := Run.run_cons h
    rcases ih hr with hi | ⟨b, hb, hg⟩
    · exact (has_step hu hi).imp_right fun hg => ⟨a, by simp, hg⟩
    · exact .inr ⟨b, by simp [hb], hg⟩

/-- Of an open connection the server has everything. -/
theorem has_of_open {s : System} (h : Consistent s) {x : Id} {k : Ctx} {n : Nc} {hs : Handles}
    (ho : Open s x k n hs) {i : Item} (hi : i ∈ items x k n hs) : s.server.Has i := by
  obtain ⟨p, -, hid, hctx, hconn⟩ := id ho
  simp only [items, List.cons_append, List.nil_append, List.mem_cons, List.mem_map] at hi
  rcases hi with rfl | rfl | rfl | rfl | ⟨d, hd, rfl⟩
  · simp [State.Has, hid]
  · simp [State.Has, hctx]
  · simp [State.Has, hconn]
  · exact (h.registered _).mpr ⟨x, k, n, hs, ho, rfl⟩
  · obtain ⟨o, hmem, rfl⟩ := List.mem_map.mp hd
    exact ⟨o, (h.alive o).mpr ⟨x, k, n, hs, ho, hmem⟩, rfl⟩

/-! ## What the last event leaves -/

theorem Removed.not_has {s s' : State} {x : Id} {e : Entry} (h : Removed s s' x e) {i : Item}
    (hi : i ∈ items x e.ctx e.nc e.handles) : ¬s'.Has i := by
  simp only [items, List.cons_append, List.nil_append, List.mem_cons, List.mem_map] at hi
  rcases hi with rfl | rfl | rfl | rfl | ⟨d, hd, rfl⟩
  · simp [State.Has, h.ids]
  · simp [State.Has, h.ctxs]
  · simp [State.Has, h.conns]
  · simp [State.Has, h.mem_epoll]
  · rintro ⟨o, ho, rfl⟩
    rw [h.objs, List.mem_filter] at ho
    simp [mem_teardownOrder, hd] at ho

/-- Behind `DISCONNECTED` there is nothing. -/
theorem not_has_of_disconnected {s t : System} {x : Id} {k : Ctx} {n : Nc} {h : Handles}
    {r : Returns} (hs : Holds s) (ho : Open s x k n h)
    (hstep : step s (⟨.disconnected, x⟩, r) = some t) {i : Item} (hi : i ∈ items x k n h) :
    ¬t.server.Has i := by
  obtain ⟨hrun, -, rfl⟩ := step_eq_some hstep
  obtain ⟨T, hT⟩ := hs hrun
  obtain ⟨e, hx, rfl, rfl, rfl⟩ := hT.open_iff.mp ho
  exact (hT.disconnected_removed hx r).not_has hi

/-- The `default` branch releases nothing. -/
theorem has_id_of_default {s t : System} {a : CmEvent × Returns} {k : Ctx} {n : Nc} {h : Handles}
    (ho : Open s a.1.id k n h) (he : Ends s a.1) (hne : a.1.event ≠ .disconnected)
    (hstep : step s a = some t) : t.server.Has (.id a.1.id) := by
  obtain ⟨-, -, rfl⟩ := step_eq_some hstep
  obtain ⟨p, -, hid, -, -⟩ := ho
  obtain ⟨⟨ev, x⟩, r⟩ := a
  cases ev with
  | connectRequest => exact absurd he id
  | established => exact absurd he id
  | disconnected => exact absurd rfl hne
  | _ => simpa [State.Has, handleCmEvent, State.use] using hid ▸ Option.some_ne_none _

theorem phase_of_ends {s : System} {e : CmEvent} (h : Ends s e) : s.phase e.id ≠ none := by
  unfold Ends at h
  split at h
  · exact h
  · simp [h]
  · simp [h]
  · simp [h]
  · exact absurd h id

/-- The server releases its connections if and only if every one that has been
accepted ends by a `DISCONNECTED`. -/
theorem releases_iff {as : List (CmEvent × Returns)} {s : System}
    (h : Run.run step .initial as = some s) :
    Releases as ↔ Run.Meets step EndsDisconnected .initial as := by
  have holds : ∀ {bs u}, Run.run step .initial bs = some u → Holds u := fun hu =>
    Run.run_invariant (I := Holds) holds_step hu fun _ => ⟨_, .initial⟩
  rw [Run.meets_iff]
  constructor
  · intro hrel bs a cs u heq hu he
    by_contra hne
    obtain ⟨u', hu', hcs⟩ := Run.run_of_append (heq ▸ h)
    obtain rfl : u = u' := Option.some.inj (hu.symm.trans hu')
    obtain ⟨t, ht, -⟩ := Run.run_cons hcs
    obtain ⟨T, hT⟩ := holds hu (step_eq_some ht).1
    obtain ⟨k, n, hs, ho⟩ := hT.consistent.context _ (phase_of_ends he)
    -- Right behind this event no other request has come.
    obtain ⟨c, hc, -⟩ := hrel bs a [] cs u t heq hu he (by simp [Run.run, ht]) k n hs ho
      (.id a.1.id) (by simp [items]) (has_id_of_default ho he hne ht)
    exact absurd hc List.not_mem_nil
  · intro hends bs a cs ds u v heq hu he hv k n hs ho i hi hhas
    obtain ⟨t, ht, hcs⟩ := Run.run_cons hv
    have hev := hends bs a (cs ++ ds) u heq hu he
    obtain ⟨⟨ev, x⟩, r⟩ := a
    obtain rfl : ev = .disconnected := hev
    have hgone := not_has_of_disconnected (holds hu) ho ht hi
    exact (has_run hcs hhas).resolve_left hgone

theorem releases_twoAtOnce : ∃ s, Run.run step .initial twoAtOnce = some s ∧
    Releases twoAtOnce := by
  obtain ⟨s, hs⟩ := Option.isSome_iff_exists.mp
    (show (Run.run step .initial twoAtOnce).isSome by decide)
  exact ⟨s, hs, (releases_iff hs).mpr (by decide)⟩

/-- The `default` branch leaves everything. -/
theorem has_use {s : State} {live : Bool} {f : Fault} {i : Item} (h : s.Has i) :
    (s.use live f).Has i := by
  cases i <;> exact h

/-- The peer of a connection vanishes before it is established. -/
def connectFails : List (CmEvent × Returns) :=
  [(⟨.connectRequest, 1⟩, returnsAt 10), (⟨.connectError, 1⟩, returnsAt 0)]

/-- All there is of it stays, and the server goes on. -/
theorem kept_after_connectError : ∃ s, Run.run step .initial connectFails = some s ∧
    s.server.status = .running ∧ (∀ i ∈ items 1 10 10 (returnsAt 10).handles, s.server.Has i) ∧
    ¬Releases connectFails := by
  have hfirst : (Run.run step .initial [(⟨.connectRequest, 1⟩, returnsAt 10)]).map
      (fun s => (s.server.status, s.phase 1, s.server.ids 1, s.server.ctxs 10,
        s.server.conns 10)) =
      some (.running, some .requested, some (some 10), some ⟨1, some 10, some .accepting⟩,
        some (returnsAt 10).handles) := rfl
  obtain ⟨u, hu, heq⟩ := Option.map_eq_some_iff.mp hfirst
  simp only [Prod.mk.injEq] at heq
  obtain ⟨hst, hphase, hid, hctx, hconn⟩ := heq
  have hopen : Open u 1 10 10 (returnsAt 10).handles := ⟨.requested, hphase, hid, hctx, hconn⟩
  obtain ⟨T, hT⟩ := Run.run_invariant (I := Holds) holds_step hu (fun _ => ⟨_, .initial⟩) hst
  have hlast : Run.run step u [(⟨.connectError, 1⟩, returnsAt 0)] =
      some ⟨u.server.use false .event, u.phase⟩ := by
    simp [Run.run, step, Allowed, handleCmEvent, nextPhase, hst]
  have hall : ∀ i ∈ items 1 10 10 (returnsAt 10).handles, (u.server.use false .event).Has i :=
    fun i hi => has_use (has_of_open hT.consistent hopen hi)
  refine ⟨_, Run.run_append hu hlast, hst, hall, fun hrel => ?_⟩
  have hends : Ends u ⟨.connectError, 1⟩ := hphase
  obtain ⟨c, hmem, -⟩ := hrel _ (⟨.connectError, 1⟩, returnsAt 0) [] [] u _ rfl hu hends hlast
    10 10 _ hopen (.id 1) (by simp [items]) (hall _ (by simp [items]))
  exact absurd hmem List.not_mem_nil

end RdmaTutorial.Rdmacm05.CmEvents
