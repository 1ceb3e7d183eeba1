import RdmaTutorial.Lib.Ownership
import RdmaTutorial.Rdmacm05.CmEvents

/-!
# rdmacm05/server.c: the table the server keeps

What `handle_cm_event` is for: a table of the connections, by id. The four
structures of the server (the `context` of the ids, the blocks, what is
registered in `epoll_fd`, the objects of libibverbs) represent this table, and
each handler does to them what the event does to the table.
-/

namespace RdmaTutorial.Rdmacm05.CmEvents

open Function Objects Ownership

/-! ## What the teardown does -/

theorem objects_dependentsFirst (h : Handles) :
    DependentsFirst h.objects [] (teardownOrder h) := by
  simp [DependentsFirst, teardownOrder, Handles.objects]

theorem mem_teardownOrder {h : Handles} {d : Handle} : d ∈ teardownOrder h ↔ d ∈ h.all := by
  simp only [teardownOrder, Handles.all, Handles.objects, List.map_cons, List.map_nil,
    List.mem_cons, List.not_mem_nil, or_false]
  tauto

/-- What no call of the teardown touches is as it was behind it. -/
theorem foldl_destroy {β : Type} (f : State → β) (hf : ∀ s d, f (s.destroy d) = f s)
    (ds : List Handle) (s : State) : f (ds.foldl State.destroy s) = f s := by
  induction ds generalizing s with
  | nil => rfl
  | cons d ds ih => exact (ih _).trans (hf s d)

@[simp] theorem teardown_status (s : State) (h : Handles) : (teardown s h).status = s.status :=
  foldl_destroy (·.status) (fun _ _ => rfl) _ s

@[simp] theorem teardown_ids (s : State) (h : Handles) : (teardown s h).ids = s.ids :=
  foldl_destroy (·.ids) (fun _ _ => rfl) _ s

@[simp] theorem teardown_ctxs (s : State) (h : Handles) : (teardown s h).ctxs = s.ctxs :=
  foldl_destroy (·.ctxs) (fun _ _ => rfl) _ s

@[simp] theorem teardown_conns (s : State) (h : Handles) : (teardown s h).conns = s.conns :=
  foldl_destroy (·.conns) (fun _ _ => rfl) _ s

theorem objs_foldl_destroy (ds : List Handle) (s : State) :
    (ds.foldl State.destroy s).objs = destroyAll s.objs ds := by
  induction ds generalizing s with
  | nil => rfl
  | cons d ds ih => exact ih _

theorem epoll_foldl_destroy (ds : List Handle) (s : State) :
    ((ds.foldl State.destroy s).epoll).Sublist s.epoll := by
  induction ds generalizing s with
  | nil => exact .refl _
  | cons d ds ih =>
    refine (ih _).trans ?_
    simp only [State.destroy]
    split
    · exact .refl _
    · exact List.filter_sublist

theorem mem_epoll_foldl_destroy {objs : List (Object Handle)} {gone ds : List Handle} {s : State}
    (ho : DependentsFirst objs gone ds) (hs : s.objs = without objs gone) {c : Nat} :
    c ∈ (ds.foldl State.destroy s).epoll ↔ c ∈ s.epoll ∧ .cc c ∉ ds := by
  induction ds generalizing s gone with
  | nil => simp
  | cons d ds ih =>
    obtain ⟨hfree, ho⟩ := ho
    have hnot : ¬Busy s.objs d := hs ▸ not_busy_without hfree
    have hobjs : (s.destroy d).objs = without objs (d :: gone) := by
      rw [State.destroy, hs, destroy_without hfree]
    rw [List.foldl_cons, ih ho hobjs]
    simp [State.destroy, hnot, and_assoc]

/-! ## The table -/

/-- What the server has for an id. -/
structure Entry where
  ctx : Ctx
  nc : Nc
  handles : Handles
  phase : Phase

abbrev Table := Id → Option Entry

/-- The `conn_context` of an entry. -/
def Entry.context (x : Id) (e : Entry) : ConnContext :=
  ⟨x, some e.nc, some e.phase.state⟩

/-- The objects of an entry, by handle. -/
def Entry.owned (e : Entry) : Set Handle := {d | d ∈ e.handles.all}

/-- The server's structures hold the table: what they hold for an id is its
entry, and nothing is in use but what an entry owns. -/
structure Represents (T : Table) (s : System) : Prop where
  phase : ∀ x, s.phase x = (T x).map Entry.phase
  ids : ∀ x e, T x = some e → s.server.ids x = some (some e.ctx)
  context : ∀ x e, T x = some e → s.server.ctxs e.ctx = some (e.context x)
  conn : ∀ x e, T x = some e → s.server.conns e.nc = some e.handles
  distinct : ∀ x e, T x = some e → e.handles.Distinct
  apartCtx : Apart T fun e => {e.ctx}
  apartConn : Apart T fun e => {e.nc}
  apart : Apart T Entry.owned
  ctxs : Exactly T (fun e => {e.ctx}) {k | s.server.ctxs k ≠ none}
  conns : Exactly T (fun e => {e.nc}) {n | s.server.conns n ≠ none}
  epoll : Exactly T (fun e => {e.handles.cc}) {c | c ∈ s.server.epoll}
  objs : Exactly T (fun e => {o | o ∈ e.handles.objects}) {o | o ∈ s.server.objs}
  registeredOnce : s.server.epoll.Nodup
  aliveOnce : (s.server.objs.map (·.handle)).Nodup

/-- From `s` to `s'` the entry `e` of the id `x` has gone: its id, its blocks and
its objects, and its channel from `epoll_fd`. -/
structure Removed (s s' : State) (x : Id) (e : Entry) : Prop where
  status : s'.status = s.status
  ids : s'.ids = update s.ids x none
  ctxs : s'.ctxs = update s.ctxs e.ctx none
  conns : s'.conns = update s.conns e.nc none
  objs : s'.objs = s.objs.filter fun o => o.handle ∉ teardownOrder e.handles
  epoll : s'.epoll.Sublist s.epoll
  mem_epoll : ∀ c, c ∈ s'.epoll ↔ c ∈ s.epoll ∧ c ≠ e.handles.cc

namespace Represents

variable {T : Table} {s : System}

theorem initial : Represents (fun _ => none) .initial where
  phase _ := rfl
  ids := by simp
  context := by simp
  conn := by simp
  distinct := by simp
  apartCtx := by simp [Apart]
  apartConn := by simp [Apart]
  apart := by simp [Apart]
  ctxs := by simp [Exactly, System.initial, State.initial]
  conns := by simp [Exactly, System.initial, State.initial]
  epoll := by simp [Exactly, System.initial, State.initial]
  objs := by simp [Exactly, System.initial, State.initial]
  registeredOnce := .nil
  aliveOnce := .nil

/-- The live handles are the handles of the live objects. -/
theorem owned (h : Represents T s) : Exactly T Entry.owned {d | IsLive s.server.objs d} := by
  intro d
  simp only [Set.mem_ofPred_eq, IsLive, Entry.owned, Handles.all, List.mem_map]
  constructor
  · rintro ⟨o, ho, rfl⟩
    obtain ⟨x, e, hx, he⟩ := (h.objs o).mp ho
    exact ⟨x, e, hx, o, he, rfl⟩
  · rintro ⟨x, e, hx, o, ho, rfl⟩
    exact ⟨o, (h.objs o).mpr ⟨x, e, hx, ho⟩, rfl⟩

theorem apartObjs (h : Represents T s) : Apart T fun e => {o | o ∈ e.handles.objects} :=
  h.apart.of_map (·.handle) fun _ _ ho => Handles.mem_all_of_mem ho

theorem apartCc (h : Represents T s) : Apart T fun e => {e.handles.cc} :=
  h.apart.of_map Handle.cc fun e _ hc => by
    cases Set.mem_singleton_iff.mp hc
    exact e.handles.cc_mem_all

/-- Everything built on an object of a connection belongs to it. -/
theorem dependentsFirst (h : Represents T s) {x : Id} {e : Entry} (hx : T x = some e) :
    DependentsFirst s.server.objs [] (teardownOrder e.handles) := by
  refine (objects_dependentsFirst e.handles).of_group fun o ho => ?_
  obtain ⟨y, f, hy, hf⟩ := (h.objs o).mp ho
  by_cases hxy : x = y
  · subst hxy
    exact .inl (Option.some.inj (hx.symm.trans hy) ▸ hf)
  · refine .inr fun d hd huse => hxy (h.apart hx hy (mem_teardownOrder.mp hd) ?_)
    exact Handles.uses_subset hf huse

theorem entry_of_phase (h : Represents T s) {x : Id} (hx : s.phase x ≠ none) :
    ∃ e, T x = some e := by
  rw [h.phase x] at hx
  cases hT : T x with
  | none => simp [hT] at hx
  | some e => exact ⟨e, rfl⟩

/-! ## The events -/

theorem connectRequest_ok (s : State) {x : Id} {r : Returns} {k : Ctx} (hk : r.ctx = some k)
    (hok : r.failed = none) :
    connectRequest s x r =
      { s with
        ids := update s.ids x (some (some k)),
        ctxs := update s.ctxs k (some ⟨x, some r.nc, some .accepting⟩),
        conns := update s.conns r.nc (some r.handles),
        objs := s.objs ++ r.handles.objects,
        epoll := s.epoll ++ [r.handles.cc] } := by
  simp [connectRequest, hk, hok, handleNewRequest, State.setCtx, State.setContext,
    setupConnection, State.register, State.use]

theorem connect (h : Represents T s) {x : Id} {r : Returns} {k : Ctx}
    (hx : s.server.ids x = none) (hf : Fresh s.server r) (hk : r.ctx = some k)
    (hok : r.failed = none) :
    Represents (update T x (some ⟨k, r.nc, r.handles, .requested⟩))
      ⟨connectRequest s.server x r, update s.phase x (some .requested)⟩ := by
  obtain ⟨hctx, hnc, hlive, hdist⟩ := hf
  have hT : T x = none := by
    cases hT : T x with
    | none => rfl
    | some e => simp [h.ids x e hT] at hx
  have hnew : s.server.ctxs k = none := hctx k (by simp [hk])
  -- What is registered is alive, and the new channel was not.
  have hcc : r.handles.cc ∉ s.server.epoll := by
    intro hmem
    obtain ⟨y, e, hy, he⟩ := (h.epoll _).mp hmem
    refine hlive _ r.handles.cc_mem_all ((h.owned _).mpr ⟨y, e, hy, ?_⟩)
    rw [Set.mem_singleton_iff.mp he]
    exact e.handles.cc_mem_all
  rw [connectRequest_ok _ hk hok]
  exact {
    phase := by
      intro y
      by_cases hyx : y = x
      · subst hyx; simp
      · simp [hyx, h.phase y]
    ids := by
      intro y f hy
      rcases update_eq_some.mp hy with ⟨rfl, ⟨⟩⟩ | ⟨hne, hy⟩
      · simp
      · simp [hne, h.ids y f hy]
    context := by
      intro y f hy
      rcases update_eq_some.mp hy with ⟨rfl, ⟨⟩⟩ | ⟨hne, hy⟩
      · simp [Entry.context, Phase.state]
      · have hne' : f.ctx ≠ k := by
          intro heq
          simp [← heq, h.context y f hy] at hnew
        simp [hne', h.context y f hy]
    conn := by
      intro y f hy
      rcases update_eq_some.mp hy with ⟨rfl, ⟨⟩⟩ | ⟨hne, hy⟩
      · simp
      · have hne' : f.nc ≠ r.nc := by
          intro heq
          simp [← heq, h.conn y f hy] at hnc
        simp [hne', h.conn y f hy]
    distinct := by
      intro y f hy
      rcases update_eq_some.mp hy with ⟨rfl, ⟨⟩⟩ | ⟨hne, hy⟩
      · exact hdist
      · exact h.distinct y f hy
    apartCtx := h.apartCtx.insert h.ctxs (by simp [hnew])
    apartConn := h.apartConn.insert h.conns (by simp [hnc])
    apart := h.apart.insert h.owned hlive
    ctxs := by
      apply h.ctxs.insert hT
      intro c
      by_cases hc : c = k <;> simp [hc, hnew]
    conns := by
      apply h.conns.insert hT
      intro n
      by_cases hn : n = r.nc <;> simp [hn, hnc]
    epoll := h.epoll.insert hT (by simp)
    objs := h.objs.insert hT (by simp)
    registeredOnce := by
      refine List.nodup_append.mpr ⟨h.registeredOnce, List.nodup_singleton _, ?_⟩
      rintro c hc _ hc' rfl
      exact hcc (List.mem_singleton.mp hc' ▸ hc)
    aliveOnce := by
      rw [List.map_append, List.nodup_append]
      refine ⟨h.aliveOnce, Handles.nodup_all hdist, ?_⟩
      rintro d hd _ hd' rfl
      rw [List.mem_map] at hd
      exact hlive d hd' hd }

theorem ctx_ne (h : Represents T s) {x y : Id} {e f : Entry} (hx : T x = some e)
    (hy : T y = some f) (hne : y ≠ x) : f.ctx ≠ e.ctx :=
  fun heq => hne (h.apartCtx hy hx rfl heq)

theorem nc_ne (h : Represents T s) {x y : Id} {e f : Entry} (hx : T x = some e)
    (hy : T y = some f) (hne : y ≠ x) : f.nc ≠ e.nc :=
  fun heq => hne (h.apartConn hy hx rfl heq)

theorem established_eq (h : Represents T s) {x : Id} {e : Entry} (hx : T x = some e) :
    established s.server x =
      s.server.setCtx e.ctx { e.context x with state := some .established } := by
  simp [established, h.ids x e hx, h.context x e hx]

theorem establish (h : Represents T s) {x : Id} {e : Entry} (hx : T x = some e) :
    Represents (update T x (some { e with phase := .established }))
      ⟨established s.server x, update s.phase x (some .established)⟩ := by
  rw [h.established_eq hx]
  have hlive : {k | (s.server.setCtx e.ctx { e.context x with
      state := some .established }).ctxs k ≠ none} = {k | s.server.ctxs k ≠ none} := by
    ext k
    by_cases hk : k = e.ctx <;> simp [State.setCtx, hk, h.context x e hx]
  exact {
    phase := by
      intro y
      by_cases hyx : y = x
      · subst hyx; simp
      · simp [hyx, h.phase y]
    ids := by
      intro y f hy
      rcases update_eq_some.mp hy with ⟨rfl, ⟨⟩⟩ | ⟨hne, hy⟩
      · exact h.ids y e hx
      · exact h.ids y f hy
    context := by
      intro y f hy
      rcases update_eq_some.mp hy with ⟨rfl, ⟨⟩⟩ | ⟨hne, hy⟩
      · simp [State.setCtx, Entry.context, Phase.state]
      · simp [State.setCtx, h.ctx_ne hx hy hne, h.context y f hy]
    conn := by
      intro y f hy
      rcases update_eq_some.mp hy with ⟨rfl, ⟨⟩⟩ | ⟨hne, hy⟩
      · exact h.conn y e hx
      · exact h.conn y f hy
    distinct := by
      intro y f hy
      rcases update_eq_some.mp hy with ⟨rfl, ⟨⟩⟩ | ⟨hne, hy⟩
      · exact h.distinct y e hx
      · exact h.distinct y f hy
    apartCtx := h.apartCtx.replace hx rfl
    apartConn := h.apartConn.replace hx rfl
    apart := h.apart.replace hx rfl
    ctxs := by
      rw [hlive]
      exact h.ctxs.replace hx rfl
    conns := h.conns.replace hx rfl
    epoll := h.epoll.replace hx rfl
    objs := h.objs.replace hx rfl
    registeredOnce := h.registeredOnce
    aliveOnce := h.aliveOnce }

/-- Behind `EPOLL_CTL_DEL` the rest of the branch removes the entry, whether or
not that call succeeded. -/
theorem removed_of_unregistered {s t : State} {x : Id} {e : Entry}
    (hfirst : DependentsFirst s.objs [] (teardownOrder e.handles)) (hstatus : t.status = s.status)
    (hids : t.ids = update s.ids x none)
    (hctxs : update t.ctxs e.ctx none = update s.ctxs e.ctx none)
    (hconns : t.conns = s.conns) (hobjs : t.objs = s.objs) (hsub : t.epoll.Sublist s.epoll)
    (hmem : ∀ c, c ≠ e.handles.cc → (c ∈ t.epoll ↔ c ∈ s.epoll)) :
    Removed s ((((teardown t e.handles).freeConn e.nc).setContext x none).freeCtx e.ctx) x e where
  status := by simp [State.freeCtx, State.freeConn, State.use, hstatus]
  ids := by
    -- The id is no longer there when its `context` is written.
    have hgone : ((teardown t e.handles).freeConn e.nc).ids x = none := by
      simp [State.freeConn, State.use, hids]
    simp only [State.freeCtx, State.use, State.setContext_ids hgone]
    simp [State.freeConn, State.use, hids]
  ctxs := by simp [State.freeCtx, State.freeConn, State.use, hctxs]
  conns := by simp [State.freeCtx, State.freeConn, State.use, hconns]
  objs := by
    rw [← destroyAll_eq_filter hfirst, ← hobjs, ← objs_foldl_destroy]
    simp [State.freeCtx, State.freeConn, State.use, teardown]
  epoll := by
    simpa [State.freeCtx, State.freeConn, State.use, teardown] using
      (epoll_foldl_destroy (teardownOrder e.handles) t).trans hsub
  mem_epoll c := by
    have hclosed := mem_epoll_foldl_destroy (s := t) (c := c) hfirst (by simp [hobjs])
    have hcc : .cc c ∈ teardownOrder e.handles ↔ c = e.handles.cc := by simp [teardownOrder]
    simp only [State.freeCtx, State.freeConn, State.use, State.setContext_epoll]
    rw [teardown, hclosed, hcc]
    exact and_congr_left fun hne => hmem c hne

theorem disconnected_removed (h : Represents T s) {x : Id} {e : Entry} (hx : T x = some e)
    (r : Returns) : Removed s.server (disconnected s.server x r) x e := by
  simp only [disconnected, h.ids x e hx, h.context x e hx, h.conn x e hx, Entry.context]
  refine removed_of_unregistered (h.dependentsFirst hx) rfl rfl ?_ rfl rfl ?_ fun c hne => ?_
  · simp [State.unregister, State.destroyId, State.setCtx, State.use]
  · simp only [State.unregister]
    split
    · exact .refl _
    · exact List.erase_sublist
  · simp only [State.unregister]
    split
    · rfl
    · exact List.mem_erase_of_ne hne

theorem disconnect (h : Represents T s) {x : Id} {e : Entry} (hx : T x = some e) (r : Returns) :
    Represents (update T x none) ⟨disconnected s.server x r, update s.phase x none⟩ := by
  have hr := h.disconnected_removed hx r
  exact {
    phase := by
      intro y
      by_cases hyx : y = x
      · subst hyx; simp
      · simp [hyx, h.phase y]
    ids := by
      intro y f hy
      rcases update_eq_some.mp hy with ⟨-, ⟨⟩⟩ | ⟨hne, hy⟩
      simp [hr.ids, hne, h.ids y f hy]
    context := by
      intro y f hy
      rcases update_eq_some.mp hy with ⟨-, ⟨⟩⟩ | ⟨hne, hy⟩
      simp [hr.ctxs, h.ctx_ne hx hy hne, h.context y f hy]
    conn := by
      intro y f hy
      rcases update_eq_some.mp hy with ⟨-, ⟨⟩⟩ | ⟨hne, hy⟩
      simp [hr.conns, h.nc_ne hx hy hne, h.conn y f hy]
    distinct := by
      intro y f hy
      rcases update_eq_some.mp hy with ⟨-, ⟨⟩⟩ | ⟨hne, hy⟩
      exact h.distinct y f hy
    apartCtx := h.apartCtx.erase
    apartConn := h.apartConn.erase
    apart := h.apart.erase
    ctxs := by
      apply h.ctxs.erase h.apartCtx hx
      intro k
      by_cases hk : k = e.ctx <;> simp [hr.ctxs, hk]
    conns := by
      apply h.conns.erase h.apartConn hx
      intro n
      by_cases hn : n = e.nc <;> simp [hr.conns, hn]
    epoll := by
      apply h.epoll.erase h.apartCc hx
      intro c
      simp [hr.mem_epoll]
    objs := by
      apply h.objs.erase h.apartObjs hx
      intro o
      simp only [Set.mem_ofPred_eq, hr.objs, List.mem_filter, decide_eq_true_eq,
        mem_teardownOrder]
      -- An object with a handle of this entry is an object of this entry.
      refine and_congr_right fun ho => not_congr ⟨fun hd => ?_, Handles.mem_all_of_mem⟩
      obtain ⟨y, f, hy, hf⟩ := (h.objs o).mp ho
      cases h.apart hx hy hd (Handles.mem_all_of_mem hf)
      exact Option.some.inj (hx.symm.trans hy) ▸ hf
    registeredOnce := h.registeredOnce.sublist hr.epoll
    aliveOnce := by
      simp only [hr.objs]
      exact h.aliveOnce.sublist (List.filter_sublist.map _) }

/-- A request that is turned down leaves an id nobody refers to. -/
theorem reject (h : Represents T s) {x : Id} {r : Returns} (hx : s.server.ids x = none)
    (hk : r.ctx = none) :
    Represents T ⟨connectRequest s.server x r, update s.phase x none⟩ := by
  have hne : ∀ y e, T y = some e → y ≠ x := by
    rintro y e hy rfl
    simp [h.ids y e hy] at hx
  simp only [connectRequest, hk]
  refine { h with phase := fun y => ?_, ids := fun y e hy => ?_ }
  · by_cases hyx : y = x
    · subst hyx
      cases hy : T y with
      | none => simp
      | some e => exact absurd rfl (hne y e hy)
    · simp [hyx, h.phase y]
  · simp [hne y e hy, h.ids y e hy]

end Represents

theorem connectRequest_dies (s : State) {x : Id} {r : Returns} {k : Ctx} {c : SetupCall}
    (hk : r.ctx = some k) (hc : r.failed = some c) :
    (connectRequest s x r).status = .died c.reason := by
  simp [connectRequest, hk, hc, handleNewRequest, State.setCtx, State.die]

/-- The server's structures hold some table as long as it runs. -/
def Holds (s : System) : Prop := s.server.status = .running → ∃ T, Represents T s

theorem step_eq_some {s t : System} {a : CmEvent × Returns} (h : step s a = some t) :
    s.server.status = .running ∧ Allowed s a.1 a.2 ∧
      t = ⟨handleCmEvent s.server a.1 a.2, nextPhase s a.1 a.2⟩ := by
  simp only [step] at h
  split at h
  · cases h
    exact ⟨by tauto, by tauto, rfl⟩
  · cases h

/-- Every event does to the server's structures what it does to the table. -/
theorem holds_step (s : System) (a : CmEvent × Returns) (t : System) (hs : Holds s)
    (h : step s a = some t) : Holds t := by
  obtain ⟨hrun, hallowed, rfl⟩ := step_eq_some h
  obtain ⟨T, hT⟩ := hs hrun
  obtain ⟨⟨ev, x⟩, r⟩ := a
  intro hrun'
  cases ev with
  | connectRequest =>
    obtain ⟨hx, hf⟩ := hallowed
    cases hk : r.ctx with
    | none =>
      refine ⟨T, ?_⟩
      simpa [handleCmEvent, nextPhase, hk] using hT.reject hx hk
    | some k =>
      cases hc : r.failed with
      | none =>
        refine ⟨update T x (some ⟨k, r.nc, r.handles, .requested⟩), ?_⟩
        simpa [handleCmEvent, nextPhase, hk] using hT.connect hx hf hk hc
      | some c =>
        -- The process is gone, and the claim on the next state with it.
        have hdied := connectRequest_dies s.server (x := x) hk hc
        exact absurd (hdied.symm.trans hrun') (by simp)
  | established =>
    have hphase : s.phase x = some .requested := hallowed
    obtain ⟨e, hx⟩ := hT.entry_of_phase (x := x) (by simp [hphase])
    exact ⟨_, hT.establish hx⟩
  | disconnected =>
    obtain ⟨e, hx⟩ := hT.entry_of_phase hallowed
    exact ⟨_, hT.disconnect hx r⟩
  | _ => exact ⟨T, { hT with }⟩

/-! ## The table in the server's own terms -/

/-- `x` is between its `CONNECT_REQUEST` and its `DISCONNECTED`; its `context` is
`k`, a `conn_context` with its id and the state that goes with what it has
seen, and its connection is `n`. -/
def Open (s : System) (x : Id) (k : Ctx) (n : Nc) (h : Handles) : Prop :=
  ∃ p, s.phase x = some p ∧ s.server.ids x = some (some k) ∧
    s.server.ctxs k = some ⟨x, some n, some p.state⟩ ∧ s.server.conns n = some h

structure Consistent (s : System) : Prop where
  context : ∀ x, s.phase x ≠ none → ∃ k n h, Open s x k n h
  ownContext : ∀ x y k n m h h', Open s x k n h → Open s y k m h' → x = y
  ownConn : ∀ x y k k' n h h', Open s x k n h → Open s y k' n h' → x = y
  registered : ∀ c, c ∈ s.server.epoll ↔ ∃ x k n h, Open s x k n h ∧ h.cc = c
  registeredOnce : s.server.epoll.Nodup
  alive : ∀ o, o ∈ s.server.objs ↔ ∃ x k n h, Open s x k n h ∧ o ∈ h.objects
  aliveOnce : (s.server.objs.map (·.handle)).Nodup
  /-- No block is left behind. -/
  ctxs : ∀ k, s.server.ctxs k ≠ none ↔ ∃ x n h, Open s x k n h
  conns : ∀ n, s.server.conns n ≠ none ↔ ∃ x k h, Open s x k n h

theorem Represents.open_iff {T : Table} {s : System} (hT : Represents T s) {x : Id} {k : Ctx}
    {n : Nc} {h : Handles} :
    Open s x k n h ↔ ∃ e, T x = some e ∧ e.ctx = k ∧ e.nc = n ∧ e.handles = h := by
  constructor
  · rintro ⟨p, hp, hk, hc, hn⟩
    rw [hT.phase x, Option.map_eq_some_iff] at hp
    obtain ⟨e, hx, rfl⟩ := hp
    cases (hT.ids x e hx).symm.trans hk
    cases (hT.context x e hx).symm.trans hc
    cases (hT.conn x e hx).symm.trans hn
    exact ⟨e, hx, rfl, rfl, rfl⟩
  · rintro ⟨e, hx, rfl, rfl, rfl⟩
    exact ⟨e.phase, by simp [hT.phase x, hx], hT.ids x e hx, hT.context x e hx, hT.conn x e hx⟩

/-- What the entries own is what the open ids have. -/
theorem Represents.exists_open {T : Table} {s : System} (hT : Represents T s) {ρ : Type}
    {own : Entry → Set ρ} {r : ρ} {P : Id → Ctx → Nc → Handles → Prop}
    (hP : ∀ x e, r ∈ own e ↔ P x e.ctx e.nc e.handles) :
    (∃ x e, T x = some e ∧ r ∈ own e) ↔ ∃ x k n h, Open s x k n h ∧ P x k n h := by
  constructor
  · rintro ⟨x, e, hx, hr⟩
    exact ⟨x, _, _, _, hT.open_iff.mpr ⟨e, hx, rfl, rfl, rfl⟩, (hP x e).mp hr⟩
  · rintro ⟨x, k, n, h, hx, hr⟩
    obtain ⟨e, hTx, rfl, rfl, rfl⟩ := hT.open_iff.mp hx
    exact ⟨x, e, hTx, (hP x e).mpr hr⟩

theorem Represents.consistent {T : Table} {s : System} (hT : Represents T s) : Consistent s where
  context x hx := by
    obtain ⟨e, hTx⟩ := hT.entry_of_phase hx
    exact ⟨_, _, _, hT.open_iff.mpr ⟨e, hTx, rfl, rfl, rfl⟩⟩
  ownContext x y k n m h h' hx hy := by
    obtain ⟨e, hTx, rfl, -, -⟩ := hT.open_iff.mp hx
    obtain ⟨f, hTy, hf, -, -⟩ := hT.open_iff.mp hy
    exact hT.apartCtx hTx hTy rfl hf.symm
  ownConn x y k k' n h h' hx hy := by
    obtain ⟨e, hTx, -, rfl, -⟩ := hT.open_iff.mp hx
    obtain ⟨f, hTy, -, hf, -⟩ := hT.open_iff.mp hy
    exact hT.apartConn hTx hTy rfl hf.symm
  registered c := (hT.epoll c).trans (hT.exists_open (P := fun _ _ _ h => h.cc = c) (by
    simp [eq_comm]))
  registeredOnce := hT.registeredOnce
  alive o := (hT.objs o).trans (hT.exists_open (P := fun _ _ _ h => o ∈ h.objects) (by simp))
  aliveOnce := hT.aliveOnce
  ctxs k := by
    refine (hT.ctxs k).trans ((hT.exists_open (P := fun _ k' _ _ => k' = k) (by
      simp [eq_comm])).trans ?_)
    exact ⟨fun ⟨x, k', n, h, hx, hk⟩ => ⟨x, n, h, hk ▸ hx⟩,
      fun ⟨x, n, h, hx⟩ => ⟨x, k, n, h, hx, rfl⟩⟩
  conns n := by
    refine (hT.conns n).trans ((hT.exists_open (P := fun _ _ n' _ => n' = n) (by
      simp [eq_comm])).trans ?_)
    exact ⟨fun ⟨x, k, n', h, hx, hn⟩ => ⟨x, k, h, hn ▸ hx⟩,
      fun ⟨x, k, h, hx⟩ => ⟨x, k, n, h, hx, rfl⟩⟩

/-- No call made while an event is handled fails, busy destroys apart. -/
def Returns.Succeed (r : Returns) : Prop :=
  r.ctx ≠ none ∧ r.failed = none ∧ r.delFails = false

instance (r : Returns) : Decidable r.Succeed := inferInstanceAs (Decidable (_ ∧ _))

/-- Then the server goes on. -/
theorem running_step (s : System) (a : CmEvent × Returns) (t : System)
    (hs : s.server.status = .running ∧ Holds s) (ha : a.2.Succeed) (h : step s a = some t) :
    t.server.status = .running ∧ Holds t := by
  refine ⟨?_, holds_step s a t hs.2 h⟩
  obtain ⟨hrun, hallowed, rfl⟩ := step_eq_some h
  obtain ⟨T, hT⟩ := hs.2 hrun
  obtain ⟨⟨ev, x⟩, r⟩ := a
  cases ev with
  | connectRequest =>
    obtain ⟨k, hk⟩ := Option.ne_none_iff_exists'.mp ha.1
    simp [handleCmEvent, Represents.connectRequest_ok s.server hk ha.2.1, hrun]
  | established =>
    have hphase : s.phase x = some .requested := hallowed
    obtain ⟨e, hx⟩ := hT.entry_of_phase (x := x) (by simp [hphase])
    simp [handleCmEvent, hT.established_eq hx, State.setCtx, hrun]
  | disconnected =>
    obtain ⟨e, hx⟩ := hT.entry_of_phase hallowed
    simp [handleCmEvent, (hT.disconnected_removed hx r).status, hrun]
  | _ => exact hrun

/-- After each event the four structures agree: each id that is open has its own
`conn_context`, with its id and its state, and its own connection; `epoll_fd`
holds their channels, once each; and what is alive is what they own. -/
theorem consistent_run {as : List (CmEvent × Returns)} {s : System}
    (hok : ∀ a ∈ as, a.2.Succeed) (h : Run.run step .initial as = some s) :
    s.server.status = .running ∧ Consistent s := by
  obtain ⟨hrun, hs⟩ := Run.Meets.invariant (I := fun s => s.server.status = .running ∧ Holds s)
    running_step (.of_forall hok) h ⟨rfl, fun _ => ⟨_, .initial⟩⟩
  obtain ⟨T, hT⟩ := hs hrun
  exact ⟨hrun, hT.consistent⟩

/-- What a connection with blocks and objects at `a` and behind gets. -/
def returnsAt (a : Nat) : Returns :=
  { ctx := some a, nc := a, handles := ⟨a, a, a, a, a, a + 1, a, a + 1⟩, failed := none,
    delFails := false }

/-- Two connections; the first ends, and a third gets its addresses. -/
def twoAtOnce : List (CmEvent × Returns) :=
  [(⟨.connectRequest, 1⟩, returnsAt 10), (⟨.connectRequest, 2⟩, returnsAt 20),
    (⟨.established, 2⟩, returnsAt 0), (⟨.established, 1⟩, returnsAt 0),
    (⟨.disconnected, 1⟩, returnsAt 0), (⟨.connectRequest, 1⟩, returnsAt 10)]

theorem consistent_run_twoAtOnce : ∃ s, Run.run step .initial twoAtOnce = some s ∧
    s.server.status = .running ∧ Consistent s := by
  obtain ⟨s, hs⟩ := Option.isSome_iff_exists.mp
    (show (Run.run step .initial twoAtOnce).isSome by decide)
  exact ⟨s, hs, consistent_run (by decide) hs⟩

end RdmaTutorial.Rdmacm05.CmEvents
