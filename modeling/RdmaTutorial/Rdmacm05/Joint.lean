import RdmaTutorial.ClientOrder
import RdmaTutorial.Rdmacm05.EpollLoop
import RdmaTutorial.Rdmacm05.Projection

/-!
# rdmacm05/server.c: the loop with its handlers

For `EpollLoop` the call of a handler is one step, and the connections are what
its table says. In `Rdmacm05.State` the handlers go statement by statement, and
nothing says when `main` calls them. Here they are one machine: `main` takes the
next entry of its batch when the handler before it has returned, and the table
says which connection an entry or an event belongs to. The process runs as long as
both do. So a run of it is a run of the loop (`exists_run_loop`) and one of the
connections (`exists_run_conns`), the two hold the same connections (`Coupled`), and
neither stops the other: the connections follow every event the table can take
(`Joined.cmEvent_enabled`), and `ibv_get_cq_event` finds an event in every channel
that the batch names (`Joined.cqEvent_enabled`).
-/

namespace RdmaTutorial.Rdmacm05.Joint

open CmEvents Objects

structure State (σ : Type) where
  loop : EpollLoop.State
  conns : Rdmacm05.State σ

inductive Action (ρ α : Type) where
  /-- `epoll_wait` returns with what can be read: `none` is the event channel,
  `some nc` the channel of the connection `nc`. -/
  | wait (fds : List (Option Nc))
  /-- `handle_cm_event(ec)`; `a` is the client that a `CONNECT_REQUEST` is from. -/
  | cmEvent (e : CmEvent) (r : Returns) (a : ρ)
  /-- `handle_cm_event(ec)`, when `rdma_get_cm_event` fails. -/
  | noCmEvent
  /-- `handle_cq_event(ptr)` and its `ibv_get_cq_event`, for the channel of `nc`. -/
  | cqEvent (nc : Nc)
  /-- `handle_cq_event(ptr)`, when `ibv_get_cq_event` fails or the channel has been
  destroyed. -/
  | noCqEvent
  /-- A statement of the handler that has been called, or a step of the HCAs, the
  wires and the clients. -/
  | conns (a : Rdmacm05.Action ρ α)

variable {ρ σ α : Type} {P : Peer ρ σ α}

/-- The events in the channel of connection `n`. -/
def eventsOf (u : Rdmacm05.State σ) (n : Nc) : Nat := (u.links n).elim 0 (·.conn.ep.cq.events)

/-- The addresses of its buffers. -/
def blocksOf (u : Rdmacm05.State σ) (n : Nc) : Option (Nat × Nat) :=
  (u.links n).map fun l => (l.recvAt, l.sendAt)

namespace State

/-- Before the first event. -/
def initial (heap : Nat → Block) : State σ := { loop := .initial, conns := .initial heap }

/-- The handlers have returned. -/
def InMain (s : State σ) : Prop := s.conns.status = .running ∧ s.conns.thread = .loop

instance (s : State σ) : Decidable s.InMain := inferInstanceAs (Decidable (_ ∧ _))

/-- `events[i].data.ptr`. -/
def entry (s : State σ) : Option Nc → EpollLoop.Ready
  | none => .ec
  | some nc => .channel ((s.loop.sys.server.conns nc).elim 0 (·.cc))

/-- A completion channel can be read while it holds an event. -/
def readable (s : State σ) : Option Nc → Bool
  | none => true
  | some nc => (s.loop.sys.server.conns nc).isSome && decide (0 < eventsOf s.conns nc)

/-- The connection behind an id's `context`. -/
def connOf (s : State σ) (x : Id) : Option Nc :=
  (s.loop.sys.server.ids x).join.bind fun k => (s.loop.sys.server.ctxs k).bind (·.conn)

/-- What the event is for the connections, if the calls made while it is handled
return `r`. -/
def change (s : State σ) (e : CmEvent) (r : Returns) (a : ρ) : Option (Rdmacm05.Action ρ α) :=
  match e.event with
  | .connectRequest =>
    if r.ctx ≠ none ∧ r.failed = none then
      some (.connect r.nc r.handles.recvBuff r.handles.sendBuff a)
    else none
  | .disconnected => (s.connOf e.id).map .disconnect
  | _ => none

end State

/-- What is no call of a handler. -/
def inside : Rdmacm05.Action ρ α → Bool
  | .connect .. => false
  | .disconnect _ => false
  | .cqEvent _ => false
  | _ => true

def step (P : Peer ρ σ α) (s : State σ) (a : Action ρ α) : Option (State σ) :=
  if s.loop.status = .running then
    match a with
    | .wait fds =>
      if s.InMain ∧ fds.all s.readable then
        (EpollLoop.step s.loop (.wait (fds.map s.entry))).map fun l => { s with loop := l }
      else none
    | .cmEvent e r a =>
      if s.InMain then
        (EpollLoop.step s.loop (.cmEvent e r)).bind fun l =>
          match s.change e r a with
          | none => some { s with loop := l }
          | some b => (Rdmacm05.step P s.conns b).map fun u => ⟨l, u⟩
      else none
    | .noCmEvent =>
      if s.InMain then
        (EpollLoop.step s.loop .noCmEvent).map fun l => { s with loop := l }
      else none
    | .cqEvent nc =>
      if s.InMain ∧ (s.loop.sys.server.conns nc).isSome ∧
          s.loop.batch.head? = some (s.entry (some nc)) then
        (EpollLoop.step s.loop (.cqEvent none)).bind fun l =>
          (Rdmacm05.step P s.conns (.cqEvent nc)).map fun u => ⟨l, u⟩
      else none
    | .noCqEvent =>
      if s.InMain then
        (EpollLoop.step s.loop (.cqEvent none)).map fun l => { s with loop := l }
      else none
    | .conns a =>
      if inside a then (Rdmacm05.step P s.conns a).map fun u => { s with conns := u } else none
  else none

/-- `step`, by what it is for the loop and for the connections. -/
inductive Step (P : Peer ρ σ α) (s : State σ) : Action ρ α → State σ → Prop where
  | wait {fds l} (hmain : s.InMain) (hready : ∀ fd ∈ fds, s.readable fd)
      (hl : EpollLoop.step s.loop (.wait (fds.map s.entry)) = some l) :
      Step P s (.wait fds) { s with loop := l }
  | cmEvent {e r a l} (hmain : s.InMain) (hchange : s.change (α := α) e r a = none)
      (hl : EpollLoop.step s.loop (.cmEvent e r) = some l) :
      Step P s (.cmEvent e r a) { s with loop := l }
  | changes {e r a b l u} (hmain : s.InMain) (hchange : s.change e r a = some b)
      (hl : EpollLoop.step s.loop (.cmEvent e r) = some l)
      (hu : Rdmacm05.step P s.conns b = some u) : Step P s (.cmEvent e r a) ⟨l, u⟩
  | noCmEvent {l} (hmain : s.InMain) (hl : EpollLoop.step s.loop .noCmEvent = some l) :
      Step P s .noCmEvent { s with loop := l }
  | cqEvent {nc l u} (hmain : s.InMain) (hconn : (s.loop.sys.server.conns nc).isSome)
      (hhead : s.loop.batch.head? = some (s.entry (some nc)))
      (hl : EpollLoop.step s.loop (.cqEvent none) = some l)
      (hu : Rdmacm05.step P s.conns (.cqEvent nc) = some u) : Step P s (.cqEvent nc) ⟨l, u⟩
  | noCqEvent {l} (hmain : s.InMain) (hl : EpollLoop.step s.loop (.cqEvent none) = some l) :
      Step P s .noCqEvent { s with loop := l }
  | conns {a u} (hin : inside a) (hu : Rdmacm05.step P s.conns a = some u) :
      Step P s (.conns a) { s with conns := u }

variable {s t : State σ}

theorem running_of_step {a : Action ρ α} (h : step P s a = some t) : s.loop.status = .running := by
  unfold step at h
  split at h
  · assumption
  · cases h

theorem Step.of_step {a : Action ρ α} (h : step P s a = some t) : Step P s a t := by
  unfold step at h
  split at h
  case isFalse => cases h
  cases a with
  | wait fds =>
    simp only at h
    split at h
    · rename_i hg
      obtain ⟨l, hl, rfl⟩ := Option.map_eq_some_iff.mp h
      exact .wait hg.1 (List.all_eq_true.mp hg.2) hl
    · cases h
  | cmEvent e r a =>
    simp only at h
    split at h
    · obtain ⟨l, hl, h⟩ := Option.bind_eq_some_iff.mp h
      split at h
      · cases h
        exact .cmEvent ‹_› ‹_› hl
      · obtain ⟨u, hu, rfl⟩ := Option.map_eq_some_iff.mp h
        exact .changes ‹_› ‹_› hl hu
    · cases h
  | noCmEvent =>
    simp only at h
    split at h
    · obtain ⟨l, hl, rfl⟩ := Option.map_eq_some_iff.mp h
      exact .noCmEvent ‹_› hl
    · cases h
  | cqEvent nc =>
    simp only at h
    split at h
    · rename_i hg
      obtain ⟨l, hl, h⟩ := Option.bind_eq_some_iff.mp h
      obtain ⟨u, hu, rfl⟩ := Option.map_eq_some_iff.mp h
      exact .cqEvent hg.1 hg.2.1 hg.2.2 hl hu
    · cases h
  | noCqEvent =>
    simp only at h
    split at h
    · obtain ⟨l, hl, rfl⟩ := Option.map_eq_some_iff.mp h
      exact .noCqEvent ‹_› hl
    · cases h
  | conns a =>
    simp only at h
    split at h
    · obtain ⟨u, hu, rfl⟩ := Option.map_eq_some_iff.mp h
      exact .conns ‹_› hu
    · cases h

/-! ## A run of the loop, and of the connections -/

/-- A `DISCONNECTED` is handled only while no entry of the batch names the channel
of its connection. -/
def Spares (s : State σ) : Action ρ α → Prop
  | .cmEvent e r _ => EpollLoop.Spares s.loop (.cmEvent e r)
  | _ => True

instance (s : State σ) : DecidablePred (Spares s : Action ρ α → Prop)
  | .cmEvent e r _ => inferInstanceAs (Decidable (EpollLoop.Spares s.loop (.cmEvent e r)))
  | .wait _ | .noCmEvent | .cqEvent _ | .noCqEvent | .conns _ => .isTrue trivial

/-- Every step is one of the loop or none. -/
theorem loop_step (s : State σ) (a : Action ρ α) (t : State σ) (ha : Spares s a)
    (h : step P s a = some t) :
    t.loop = s.loop ∨ ∃ b, EpollLoop.Spares s.loop b ∧ EpollLoop.step s.loop b = some t.loop := by
  cases Step.of_step h with
  | cmEvent hmain hchange hl | changes hmain hchange hl => exact .inr ⟨_, ha, hl⟩
  | wait hmain hready hl | noCmEvent hmain hl | cqEvent hmain hconn hhead hl
  | noCqEvent hmain hl => exact .inr ⟨_, by simp [EpollLoop.Spares], hl⟩
  | conns hin hu => exact .inl rfl

/-- And one of the connections or none. -/
theorem conns_step (s : State σ) (a : Action ρ α) (t : State σ) (h : step P s a = some t) :
    t.conns = s.conns ∨ ∃ b, Rdmacm05.step P s.conns b = some t.conns := by
  cases Step.of_step h with
  | wait | cmEvent | noCmEvent | noCqEvent => exact .inl rfl
  | changes hmain hchange hl hu => exact .inr ⟨_, hu⟩
  | cqEvent hmain hconn hhead hl hu => exact .inr ⟨_, hu⟩
  | conns hin hu => exact .inr ⟨_, hu⟩

/-- **The loop.** A run is one of the main loop, and spares what that one spares. -/
theorem exists_run_loop {as : List (Action ρ α)} (h : Run.run (step P) s as = some t)
    (hm : Run.Meets (step P) Spares s as) :
    ∃ bs, Run.run EpollLoop.step s.loop bs = some t.loop ∧
      Run.Meets EpollLoop.step EpollLoop.Spares s.loop bs :=
  Run.run_projected loop_step hm h

/-- **The connections.** And one of the handlers, the HCAs, the wires and the
clients. -/
theorem exists_run_conns {as : List (Action ρ α)} (h : Run.run (step P) s as = some t) :
    ∃ bs, Run.run (Rdmacm05.step P) s.conns bs = some t.conns := by
  obtain ⟨bs, hbs, -⟩ := Run.run_projected (Q := fun _ _ => True)
    (fun s a t _ ha => (conns_step s a t ha).imp_right fun ⟨b, hb⟩ => ⟨b, trivial, hb⟩)
    (Run.Meets.of_forall (Q := fun _ => True) fun _ _ => trivial) h
  exact ⟨bs, hbs⟩

/-! ## What the handlers leave as it is -/

section Conns

variable {u v : Rdmacm05.State σ} {c : Nc} {l l' : Link σ}

theorem blocksOf_setLink (hl : u.links c = some l) (hrecv : l'.recvAt = l.recvAt)
    (hsend : l'.sendAt = l.sendAt) : blocksOf (u.setLink c l') = blocksOf u := by
  funext n
  by_cases hn : n = c
  · subst hn
    simp [blocksOf, Rdmacm05.State.setLink, hl, hrecv, hsend]
  · simp [blocksOf, Rdmacm05.State.setLink, hn]

theorem eventsOf_setLink (hl : u.links c = some l)
    (hle : l.conn.ep.cq.events ≤ l'.conn.ep.cq.events) (n : Nc) :
    eventsOf u n ≤ eventsOf (u.setLink c l') n := by
  by_cases hn : n = c
  · subst hn
    simpa [eventsOf, Rdmacm05.State.setLink, hl] using hle
  · simp [eventsOf, Rdmacm05.State.setLink, hn]

/-- And the thread goes on. -/
theorem eventsOf_next (hl : u.links c = some l) (th : Thread)
    (hle : l.conn.ep.cq.events ≤ l'.conn.ep.cq.events) (n : Nc) :
    eventsOf u n ≤ eventsOf ((u.setLink c l').goto th) n := eventsOf_setLink hl hle n

/-- Only the connection manager's events open and close connections. -/
theorem blocks_step {a : Rdmacm05.Action ρ α} (h : Rdmacm05.step P u a = some v)
    (hconnect : ∀ n i j x, a ≠ .connect n i j x) (hdisconnect : ∀ n, a ≠ .disconnect n) :
    blocksOf v = blocksOf u ∧ v.free = u.free := by
  cases Rdmacm05.Step.of_step h with
  | connect => exact absurd rfl (hconnect _ _ _ _)
  | disconnect => exact absurd rfl (hdisconnect _)
  | setupArm _ hl | firstRecv _ hl | accept _ hl | cqEvent _ hl | arm _ hl | poll _ hl
  | dispatch _ hl | copy _ hl | postRecv _ hl | postSend _ hl | hca hl | toServer hl | toPeer hl
  | peer hl => exact ⟨blocksOf_setLink hl rfl rfl, rfl⟩
  | _ => exact ⟨rfl, rfl⟩

/-- Only `ibv_get_cq_event` takes an event from a channel that stays. -/
theorem events_step {a : Rdmacm05.Action ρ α} (h : Rdmacm05.step P u a = some v) {n : Nc}
    (hget : a ≠ .cqEvent n) (hdisconnect : a ≠ .disconnect n) : eventsOf u n ≤ eventsOf v n := by
  cases Rdmacm05.Step.of_step h with
  | @connect nc i j x r b hthread hnew =>
    by_cases hn : n = nc
    · subst hn
      simp [eventsOf, hnew]
    · simp [eventsOf, Rdmacm05.State.goto, Rdmacm05.State.setLink, Rdmacm05.State.take, hn]
  | @disconnect nc l hthread hl =>
    have hn : n ≠ nc := fun hn => hdisconnect (by rw [hn])
    simp [eventsOf, Rdmacm05.State.release, hn]
  | @cqEvent nc l hthread hl =>
    have hn : n ≠ nc := fun hn => hget (by rw [hn])
    simp [eventsOf, Rdmacm05.State.goto, Rdmacm05.State.setConn, Rdmacm05.State.setLink, hn]
  | setupArm _ hl | accept _ hl | arm _ hl | poll _ hl | dispatch _ hl =>
    exact eventsOf_next hl _ (by rfl) n
  | peer hl => exact eventsOf_setLink hl (by rfl) n
  | firstRecv _ hl hc | postRecv _ hl hc =>
    obtain ⟨-, rfl⟩ := Connection.postRecv_eq_some hc
    exact eventsOf_next hl _ (by rfl) n
  | copy _ hl hc =>
    obtain ⟨b, -, rfl⟩ := Connection.echo_eq_some hc
    exact eventsOf_next hl _ (by rfl) n
  | postSend _ hl hc =>
    obtain ⟨-, rfl⟩ := Connection.postSend_eq_some hc
    exact eventsOf_next hl _ (by rfl) n
  | hca hl hc =>
    obtain ⟨e, he, rfl⟩ := Connection.hca_eq_some hc
    exact eventsOf_setLink hl (Verbs.Endpoint.events_hca he) n
  | @toServer nc l opcode p hl hoffer hready =>
    obtain ⟨-, w, q, hq⟩ := Verbs.Endpoint.ready_eq_true hready
    obtain ⟨wc, f, hep⟩ := Connection.receive_ep hq opcode p
    exact eventsOf_setLink hl (by simp [hep]) n
  | toPeer hl hout =>
    obtain ⟨-, w, q, hq⟩ := Verbs.Endpoint.outgoing_eq_some hout
    exact eventsOf_setLink hl (by simp [Connection.delivered, Verbs.Endpoint.delivered_of_sq hq]) n
  | _ => exact Nat.le_refl _

end Conns

/-! ## Both are of the same connections -/

/-- The table has a connection where there is one, with its two buffers, and a
block is free unless a buffer is in it. -/
structure Coupled (s : State σ) : Prop where
  blocks : ∀ n, blocksOf s.conns n =
    (s.loop.sys.server.conns n).map fun h => (h.recvBuff, h.sendBuff)
  free : ∀ i, s.conns.free i = none ↔ IsLive s.loop.sys.server.objs (.buff i)

theorem Coupled.of_same (hs : Coupled s)
    (hconns : t.loop.sys.server.conns = s.loop.sys.server.conns)
    (hobjs : t.loop.sys.server.objs = s.loop.sys.server.objs)
    (hblocks : blocksOf t.conns = blocksOf s.conns) (hfree : t.conns.free = s.conns.free) :
    Coupled t := by
  refine ⟨fun n => ?_, fun i => ?_⟩
  · rw [hblocks, hconns]; exact hs.blocks n
  · rw [hfree, hobjs]; exact hs.free i

theorem Coupled.links_isSome (hs : Coupled s) (n : Nc) :
    (s.conns.links n).isSome = (s.loop.sys.server.conns n).isSome := by
  simpa [blocksOf] using congrArg Option.isSome (hs.blocks n)

theorem connOf_eq {T : Table} (hT : Represents T s.loop.sys) {x : Id} {e : Entry}
    (hx : T x = some e) : s.connOf x = some e.nc := by
  simp [State.connOf, hT.ids x e hx, hT.context x e hx, Entry.context]

/-- What changes no connection changes none in the table. -/
theorem same_of_change {e : CmEvent} {r : Returns} {a : ρ} {u : System} (hh : Holds s.loop.sys)
    (hu : CmEvents.step s.loop.sys (e, r) = some u) (hchange : s.change (α := α) e r a = none) :
    u.server.conns = s.loop.sys.server.conns ∧ u.server.objs = s.loop.sys.server.objs := by
  obtain ⟨hrun, hallowed, rfl⟩ := step_eq_some hu
  obtain ⟨T, hT⟩ := hh hrun
  obtain ⟨ev, x⟩ := e
  cases ev with
  | connectRequest =>
    cases hk : r.ctx with
    | none => simp [handleCmEvent, connectRequest, hk]
    | some k =>
      cases hf : r.failed with
      | none => simp [State.change, hk, hf] at hchange
      | some call =>
        simp [handleCmEvent, connectRequest, hk, hf, handleNewRequest, CmEvents.State.setCtx,
          CmEvents.State.setContext, CmEvents.State.die]
  | established =>
    have hphase : s.loop.sys.phase x = some .requested := hallowed
    obtain ⟨e, hx⟩ := hT.entry_of_phase (x := x) (by simp [hphase])
    simp [handleCmEvent, hT.established_eq hx, CmEvents.State.setCtx]
  | disconnected =>
    obtain ⟨e, hx⟩ := hT.entry_of_phase hallowed
    simp [State.change, connOf_eq hT hx] at hchange
  | _ => exact ⟨rfl, rfl⟩

/-- A connection is opened by a `CONNECT_REQUEST` and closed by a `DISCONNECTED`. -/
inductive Changes (s : State σ) (e : CmEvent) (r : Returns) (u : System) (a : ρ) :
    Rdmacm05.Action ρ α → Prop where
  | connect (hev : e.event = .connectRequest) (hfresh : Fresh s.loop.sys.server r)
      (hconns : u.server.conns =
        Function.update s.loop.sys.server.conns r.nc (some r.handles))
      (hobjs : u.server.objs = s.loop.sys.server.objs ++ r.handles.objects) :
      Changes s e r u a (.connect r.nc r.handles.recvBuff r.handles.sendBuff a)
  | disconnect {T : Table} {d : Entry} (hev : e.event = .disconnected)
      (hT : Represents T s.loop.sys) (hd : T e.id = some d)
      (hgone : Removed s.loop.sys.server u.server e.id d) : Changes s e r u a (.disconnect d.nc)

theorem changes_of_change {e : CmEvent} {r : Returns} {a : ρ} {u : System}
    {b : Rdmacm05.Action ρ α} (hh : Holds s.loop.sys)
    (hu : CmEvents.step s.loop.sys (e, r) = some u) (hchange : s.change e r a = some b) :
    Changes s e r u a b := by
  obtain ⟨hrun, hallowed, rfl⟩ := step_eq_some hu
  obtain ⟨T, hT⟩ := hh hrun
  obtain ⟨ev, x⟩ := e
  cases ev with
  | connectRequest =>
    simp only [State.change] at hchange
    split at hchange
    · rename_i hok
      cases hchange
      obtain ⟨k, hk⟩ := Option.ne_none_iff_exists'.mp hok.1
      refine .connect rfl hallowed.2 ?_ ?_ <;>
        simp [handleCmEvent, Represents.connectRequest_ok _ hk hok.2]
    · cases hchange
  | disconnected =>
    obtain ⟨d, hd⟩ := hT.entry_of_phase hallowed
    simp only [State.change, connOf_eq hT hd, Option.map_some, Option.some.injEq] at hchange
    subst hchange
    exact .disconnect rfl hT hd (hT.disconnected_removed hd r)
  | _ => cases hchange

theorem Coupled.connect (hs : Coupled s) {r : Returns} {u : System} {a : ρ}
    {v : Rdmacm05.State σ} {rest : List EpollLoop.Ready}
    (hconns : u.server.conns = Function.update s.loop.sys.server.conns r.nc (some r.handles))
    (hobjs : u.server.objs = s.loop.sys.server.objs ++ r.handles.objects)
    (hv : Rdmacm05.step P s.conns (.connect r.nc r.handles.recvBuff r.handles.sendBuff a) =
      some v) : Coupled ⟨⟨u, rest⟩, v⟩ := by
  cases Rdmacm05.Step.of_step hv with
  | @connect _ _ _ _ b c hthread hnew hb hc hij =>
    refine ⟨fun n => ?_, fun i => ?_⟩
    · simp only [hconns]
      by_cases hn : n = r.nc
      · subst hn
        simp [blocksOf, Rdmacm05.State.goto, Rdmacm05.State.setLink]
      · simpa [blocksOf, Rdmacm05.State.goto, Rdmacm05.State.setLink, hn] using hs.blocks n
    · have hfree := hs.free i
      simp only [hobjs, Objects.isLive_append]
      by_cases hi : i = r.handles.sendBuff
      · subst hi
        simp [Rdmacm05.State.goto, Rdmacm05.State.setLink, Rdmacm05.State.take, Handles.objects]
      · by_cases hi' : i = r.handles.recvBuff
        · subst hi'
          simp [Rdmacm05.State.goto, Rdmacm05.State.setLink, Rdmacm05.State.take,
            Handles.objects, hi]
        · simpa [Rdmacm05.State.goto, Rdmacm05.State.setLink, Rdmacm05.State.take,
            Handles.objects, hi, hi', Ne.symm hi, Ne.symm hi'] using hfree

theorem Coupled.disconnect (hs : Coupled s) {T : Table} {x : Id} {d : Entry} {u : System}
    {v : Rdmacm05.State σ} {rest : List EpollLoop.Ready} (hT : Represents T s.loop.sys)
    (hd : T x = some d) (hgone : Removed s.loop.sys.server u.server x d)
    (hv : Rdmacm05.step P s.conns (.disconnect d.nc) = some v) : Coupled ⟨⟨u, rest⟩, v⟩ := by
  cases Rdmacm05.Step.of_step hv with
  | @disconnect _ l hthread hl =>
    obtain ⟨hrecv, hsend⟩ : l.recvAt = d.handles.recvBuff ∧ l.sendAt = d.handles.sendBuff := by
      simpa [blocksOf, hl, hT.conn x d hd] using hs.blocks d.nc
    refine ⟨fun n => ?_, fun i => ?_⟩
    · simp only [hgone.conns]
      by_cases hn : n = d.nc
      · subst hn
        simp [blocksOf, Rdmacm05.State.release]
      · simpa [blocksOf, Rdmacm05.State.release, hn] using hs.blocks n
    · have hfree := hs.free i
      have hlive : IsLive u.server.objs (.buff i) ↔ IsLive s.loop.sys.server.objs (.buff i) ∧
          .buff i ∉ teardownOrder d.handles := by
        simp only [hgone.objs, IsLive, List.mem_filter, decide_eq_true_eq]
        constructor
        · rintro ⟨o, ⟨ho, hnot⟩, hh⟩
          exact ⟨⟨o, ho, hh⟩, hh ▸ hnot⟩
        · rintro ⟨⟨o, ho, hh⟩, hnot⟩
          exact ⟨o, ⟨ho, hh ▸ hnot⟩, hh⟩
      simp only [hlive, ← hfree, Rdmacm05.State.release, hrecv, hsend]
      by_cases hi : i = d.handles.recvBuff
      · subst hi; simp [teardownOrder]
      · by_cases hi' : i = d.handles.sendBuff
        · subst hi'; simp [teardownOrder, hi]
        · simp [teardownOrder, hi, hi']

theorem Coupled.step {a : Action ρ α} (hs : Coupled s) (hh : Holds s.loop.sys)
    (h : Joint.step P s a = some t) : Coupled t := by
  cases Step.of_step h with
  | wait hmain hready hl =>
    obtain ⟨-, -, rfl⟩ := EpollLoop.wait_eq_some hl
    exact hs.of_same rfl rfl rfl rfl
  | cmEvent hmain hchange hl =>
    obtain ⟨rest, u, -, hu, rfl⟩ := EpollLoop.cmEvent_eq_some hl
    obtain ⟨hconns, hobjs⟩ := same_of_change hh hu hchange
    exact hs.of_same hconns hobjs rfl rfl
  | changes hmain hchange hl hv =>
    obtain ⟨rest, u, -, hu, rfl⟩ := EpollLoop.cmEvent_eq_some hl
    cases changes_of_change hh hu hchange with
    | connect hev hfresh hconns hobjs => exact hs.connect hconns hobjs hv
    | disconnect hev hT hd hgone => exact hs.disconnect hT hd hgone hv
  | noCmEvent hmain hl =>
    obtain ⟨rest, -, rfl⟩ := EpollLoop.noCmEvent_eq_some hl
    exact hs.of_same rfl rfl rfl rfl
  | cqEvent hmain hconn hhead hl hu =>
    obtain ⟨c, rest, -, rfl⟩ := EpollLoop.cqEvent_eq_some hl
    obtain ⟨hblocks, hfree⟩ := blocks_step hu (by simp) (by simp)
    obtain ⟨hconns, hobjs⟩ := EpollLoop.handleCqEvent_table { s.loop with batch := rest } c none
    exact hs.of_same hconns hobjs hblocks hfree
  | noCqEvent hmain hl =>
    obtain ⟨c, rest, -, rfl⟩ := EpollLoop.cqEvent_eq_some hl
    obtain ⟨hconns, hobjs⟩ := EpollLoop.handleCqEvent_table { s.loop with batch := rest } c none
    exact hs.of_same hconns hobjs rfl rfl
  | conns hin hu =>
    obtain ⟨hblocks, hfree⟩ := blocks_step hu (by rintro n i j x rfl; cases hin)
      (by rintro n rfl; cases hin)
    exact hs.of_same rfl rfl hblocks hfree

/-! ## What the batch names -/

/-- `c` is the channel of a connection, and holds an event. -/
def Pending (s : State σ) (c : Nat) : Prop :=
  ∃ n h, s.loop.sys.server.conns n = some h ∧ h.cc = c ∧ 0 < eventsOf s.conns n

/-- The loop and the connections fit, and what the batch names can be read. -/
structure Joined (s : State σ) : Prop where
  holds : Holds s.loop.sys
  coupled : Coupled s
  once : s.loop.batch.Nodup
  pending : s.loop.status = .running → ∀ c, .channel c ∈ s.loop.batch → Pending s c

theorem joined_initial (heap : Nat → Block) : Joined (State.initial heap : State σ) where
  holds _ := ⟨_, .initial⟩
  coupled := ⟨fun _ => rfl, fun _ => by
    simp [State.initial, Rdmacm05.State.initial, EpollLoop.State.initial, System.initial,
      CmEvents.State.initial]⟩
  once := .nil
  pending _ c hc := by cases hc

/-- The channel behind an entry that can be read. -/
theorem pending_of_readable {fd : Option Nc} {c : Nat} (hready : s.readable fd = true)
    (hc : s.entry fd = .channel c) : Pending s c := by
  cases fd with
  | none => cases hc
  | some n =>
    simp only [State.readable, Bool.and_eq_true, decide_eq_true_eq] at hready
    obtain ⟨h, hh⟩ := Option.isSome_iff_exists.mp hready.1
    simp only [State.entry, hh, Option.elim_some, EpollLoop.Ready.channel.injEq] at hc
    exact ⟨n, h, hh, hc, hready.2⟩

/-- The table keeps the connection, and the channel its events. -/
theorem Pending.keep {c : Nat} (h : Pending s c)
    (hconns : ∀ n d, s.loop.sys.server.conns n = some d → d.cc = c →
      t.loop.sys.server.conns n = some d ∧ eventsOf s.conns n ≤ eventsOf t.conns n) :
    Pending t c := by
  obtain ⟨n, d, hn, hc, hev⟩ := h
  obtain ⟨hn', hle⟩ := hconns n d hn hc
  exact ⟨n, d, hn', hc, Nat.lt_of_lt_of_le hev hle⟩

/-- Only `epoll_wait` puts entries into the batch. -/
theorem batch_suffix {a : Action ρ α} (h : step P s a = some t) (hwait : ∀ fds, a ≠ .wait fds) :
    t.loop.batch <:+ s.loop.batch := by
  have hpop : ∀ {b l}, EpollLoop.step s.loop b = some l → (∀ events, b ≠ .wait events) →
      l.batch <:+ s.loop.batch := by
    intro b l hl hb
    obtain ⟨p, hp⟩ := EpollLoop.batch_eq_cons hl hb
    exact hp ▸ List.suffix_cons p l.batch
  cases Step.of_step h with
  | wait => exact absurd rfl (hwait _)
  | cmEvent _ _ hl | changes _ _ hl | noCmEvent _ hl | cqEvent _ _ _ hl | noCqEvent _ hl =>
    exact hpop hl (by simp)
  | conns => exact List.suffix_refl _

theorem Joined.pending_step {a : Action ρ α} (hs : Joined s) (ha : Spares s a)
    (h : Joint.step P s a = some t) (hrun : t.loop.status = .running) {c : Nat}
    (hc : .channel c ∈ t.loop.batch) : Pending t c := by
  have hmem : (∀ fds, a ≠ .wait fds) → .channel c ∈ s.loop.batch := fun hwait =>
    (batch_suffix h hwait).subset hc
  have hbefore : (∀ fds, a ≠ .wait fds) → Pending s c := fun hwait =>
    hs.pending (running_of_step h) c (hmem hwait)
  cases Step.of_step h with
  | wait hmain hready hl =>
    obtain ⟨-, -, rfl⟩ := EpollLoop.wait_eq_some hl
    obtain ⟨fd, hfd, hentry⟩ := List.mem_map.mp hc
    exact pending_of_readable (hready fd hfd) hentry
  | cmEvent hmain hchange hl =>
    obtain ⟨rest, u, -, hu, rfl⟩ := EpollLoop.cmEvent_eq_some hl
    obtain ⟨hconns, -⟩ := same_of_change hs.holds hu hchange
    exact (hbefore (by simp)).keep fun n d hn _ => ⟨by rw [hconns]; exact hn, Nat.le_refl _⟩
  | @changes e r a b l v hmain hchange hl hv =>
    obtain ⟨rest, u, -, hu, rfl⟩ := EpollLoop.cmEvent_eq_some hl
    refine (hbefore (by simp)).keep fun n d hn hd => ?_
    cases changes_of_change hs.holds hu hchange with
    | connect hev hfresh hconns =>
      -- The new connection was not in the table.
      have hne : n ≠ r.nc := by
        rintro rfl
        simp [hfresh.2.1] at hn
      exact ⟨by simp [hconns, hne, hn], events_step hv (by simp) (by simp)⟩
    | @disconnect T f hev hT hf hgone =>
      -- The one case that needs the condition: the event may close the connection.
      have hne : n ≠ f.nc := by
        rintro rfl
        obtain rfl : f.handles = d := Option.some.inj ((hT.conn e.id f hf).symm.trans hn)
        obtain ⟨ev, x⟩ := e
        cases hev
        exact ha c (hd ▸ EpollLoop.channelOf_eq hT hf) (hmem (by simp))
      exact ⟨by simp [hgone.conns, hne, hn],
        events_step hv (by simp) (by simpa using Ne.symm hne)⟩
  | noCmEvent hmain hl =>
    obtain ⟨rest, -, rfl⟩ := EpollLoop.noCmEvent_eq_some hl
    exact (hbefore (by simp)).keep fun n d hn _ => ⟨hn, Nat.le_refl _⟩
  | @cqEvent nc l v hmain hconn hhead hl hv =>
    obtain ⟨k, rest, hbatch, rfl⟩ := EpollLoop.cqEvent_eq_some hl
    obtain ⟨hconns, -⟩ := EpollLoop.handleCqEvent_table { s.loop with batch := rest } k none
    refine (hbefore (by simp)).keep fun n d hn hd =>
      ⟨by rw [hconns]; exact hn, events_step hv ?_ (by simp)⟩
    -- Another entry of the batch is another connection's.
    rintro ⟨⟩
    have hnodup := hs.once
    rw [hbatch] at hnodup hhead
    simp only [List.head?_cons, State.entry, hn, Option.elim_some, Option.some.injEq] at hhead
    rw [hhead, hd] at hnodup
    exact (List.nodup_cons.mp hnodup).1 (by rwa [EpollLoop.handleCqEvent_batch] at hc)
  | noCqEvent hmain hl =>
    obtain ⟨k, rest, -, rfl⟩ := EpollLoop.cqEvent_eq_some hl
    obtain ⟨hconns, -⟩ := EpollLoop.handleCqEvent_table { s.loop with batch := rest } k none
    exact (hbefore (by simp)).keep fun n d hn _ => ⟨by rw [hconns]; exact hn, Nat.le_refl _⟩
  | conns hin hu =>
    exact (hbefore (by simp)).keep fun n d hn _ =>
      ⟨hn, events_step hu (by rintro rfl; cases hin) (by rintro rfl; cases hin)⟩

theorem Joined.once_step {a : Action ρ α} (hs : Joined s) (h : Joint.step P s a = some t) :
    t.loop.batch.Nodup := by
  cases a with
  | wait fds =>
    cases Step.of_step h with
    | wait hmain hready hl =>
      obtain ⟨-, hcan, rfl⟩ := EpollLoop.wait_eq_some hl
      exact hcan.2.1
  | _ => exact hs.once.sublist (batch_suffix h (by simp)).sublist

/-- **The step lemma** of what joins the two. -/
theorem joined_step (s : State σ) (a : Action ρ α) (t : State σ) (hs : Joined s)
    (ha : Spares s a) (h : step P s a = some t) : Joined t := by
  refine ⟨?_, hs.coupled.step hs.holds h, hs.once_step h, fun hrun c hc =>
    hs.pending_step ha h hrun hc⟩
  rcases loop_step s a t ha h with hsame | ⟨b, -, hb⟩
  · rw [hsame]
    exact hs.holds
  · exact EpollLoop.holds_sys_step _ b _ hs.holds hb

/-! ## What the loop can do -/

/-- No call made while an event is handled fails. -/
def Succeeds : Action ρ α → Prop
  | .cmEvent _ r _ => r.Succeed
  | _ => True

/-- The connections of the table are those of its entries. -/
theorem exists_entry {T : Table} (hT : Represents T s.loop.sys) {n : Nc} {h : Handles}
    (hn : s.loop.sys.server.conns n = some h) : ∃ x e, T x = some e ∧ e.nc = n ∧ e.handles = h := by
  obtain ⟨x, e, hx, he⟩ := (hT.conns n).mp (by simp [hn])
  obtain rfl : n = e.nc := he
  exact ⟨x, e, hx, rfl, Option.some.inj ((hT.conn x e hx).symm.trans hn)⟩

/-- A channel that holds an event is alive, and registered. -/
theorem Pending.live {c : Nat} (h : Pending s c) (hh : Holds s.loop.sys)
    (hrun : s.loop.status = .running) :
    IsLive s.loop.sys.server.objs (.cc c) ∧ c ∈ s.loop.sys.server.epoll := by
  obtain ⟨n, d, hn, rfl, -⟩ := h
  obtain ⟨T, hT⟩ := hh hrun
  obtain ⟨x, e, hx, rfl, rfl⟩ := exists_entry hT hn
  exact ⟨(hT.owned _).mpr ⟨x, e, hx, e.handles.cc_mem_all⟩, (hT.epoll _).mpr ⟨x, e, hx, rfl⟩⟩

/-- Where no call fails the loop goes on. -/
theorem Joined.running_step {a : Action ρ α} (hs : Joined s) (ha : Succeeds a)
    (h : Joint.step P s a = some t) : t.loop.status = .running := by
  have hrun := running_of_step h
  cases Step.of_step h with
  | wait hmain hready hl =>
    obtain ⟨-, -, rfl⟩ := EpollLoop.wait_eq_some hl
    exact hrun
  | cmEvent hmain hchange hl | changes hmain hchange hl =>
    obtain ⟨rest, u, hbatch, hu, rfl⟩ := EpollLoop.cmEvent_eq_some hl
    exact (CmEvents.running_step s.loop.sys (_, _) u ⟨hrun, hs.holds⟩ ha hu).1
  | noCmEvent hmain hl =>
    obtain ⟨rest, hbatch, rfl⟩ := EpollLoop.noCmEvent_eq_some hl
    exact hrun
  | cqEvent hmain hconn hhead hl | noCqEvent hmain hl =>
    obtain ⟨c, rest, hbatch, rfl⟩ := EpollLoop.cqEvent_eq_some hl
    obtain ⟨hlive, -⟩ := (hs.pending hrun c (by simp [hbatch])).live hs.holds hrun
    simpa [EpollLoop.handleCqEvent, hlive, EpollLoop.State.status] using hrun
  | conns hin hu => exact hrun

/-- `handle_cm_event` for an event that the loop can be handed can be called: the
connections follow the table. -/
theorem Joined.cmEvent_enabled (hs : Joined s) (hmain : s.InMain) {e : CmEvent} {r : Returns}
    {l : EpollLoop.State} (hl : EpollLoop.step s.loop (.cmEvent e r) = some l) (a : ρ) :
    (step P s (.cmEvent e r a)).isSome := by
  have hrun : s.loop.status = .running := by
    by_contra hne
    simp [EpollLoop.step, hne] at hl
  obtain ⟨rest, u, -, hu, rfl⟩ := EpollLoop.cmEvent_eq_some hl
  cases hchange : s.change (α := α) e r a with
  | none => simp [step, hrun, hmain, hl, hchange]
  | some b =>
    suffices hb : (Rdmacm05.step P s.conns b).isSome by
      simp [step, hrun, hmain, hl, hchange, hb]
    obtain ⟨hstatus, hthread⟩ := hmain
    cases changes_of_change hs.holds hu hchange with
    | connect hev hfresh =>
      obtain ⟨-, hnew, hlive, hdist⟩ := hfresh
      have hfree : ∀ i, .buff i ∈ r.handles.all → ∃ b, s.conns.free i = some b := fun i hi =>
        Option.ne_none_iff_exists'.mp fun hnone =>
          hlive _ hi ((hs.coupled.free i).mp hnone)
      obtain ⟨b, hb⟩ := hfree r.handles.recvBuff (by simp [Handles.all, Handles.objects])
      obtain ⟨c, hc⟩ := hfree r.handles.sendBuff (by simp [Handles.all, Handles.objects])
      have hlink : s.conns.links r.nc = none := by
        simpa [hnew] using hs.coupled.links_isSome r.nc
      simp [Rdmacm05.step, hstatus, hthread, hlink, hdist.1, hb, hc]
    | @disconnect T d hev hT hd =>
      obtain ⟨l, hl⟩ := Option.isSome_iff_exists.mp
        ((hs.coupled.links_isSome d.nc).trans (by simp [hT.conn _ d hd]))
      simp [Rdmacm05.step, hstatus, hthread, hl]

/-- `handle_cq_event` for what the batch names can be called: `ibv_get_cq_event`
does not block. -/
theorem Joined.cqEvent_enabled (hs : Joined s) (hrun : s.loop.status = .running)
    (hmain : s.InMain) {c : Nat} {rest : List EpollLoop.Ready}
    (hbatch : s.loop.batch = .channel c :: rest) : ∃ n, (step P s (.cqEvent n)).isSome := by
  obtain ⟨n, h, hn, hc, hev⟩ := hs.pending hrun c (by simp [hbatch])
  obtain ⟨l, hl⟩ := Option.isSome_iff_exists.mp
    ((hs.coupled.links_isSome n).trans (by simp [hn]))
  have hne : l.conn.ep.cq.events ≠ 0 := by
    simpa [eventsOf, hl, Nat.pos_iff_ne_zero] using hev
  refine ⟨n, ?_⟩
  obtain ⟨hstatus, hthread⟩ := hmain
  simp [step, hrun, State.InMain, State.entry, hstatus, hthread, hn, hc, hbatch, EpollLoop.step,
    Rdmacm05.step, hl, Verbs.Cq.getEvent, hne]

/-- `epoll_wait` can return a channel that holds an event. -/
theorem Joined.wait_enabled (hs : Joined s) (hrun : s.loop.status = .running) (hmain : s.InMain)
    (hbatch : s.loop.batch = []) {n : Nc} (hev : 0 < eventsOf s.conns n) :
    (step P s (.wait [some n])).isSome := by
  obtain ⟨l, hl⟩ : ∃ l, s.conns.links n = some l := by
    cases hl : s.conns.links n with
    | none => simp [eventsOf, hl] at hev
    | some l => exact ⟨l, rfl⟩
  obtain ⟨h, hn⟩ := Option.isSome_iff_exists.mp
    ((hs.coupled.links_isSome n).symm.trans (by simp [hl]))
  have hpending : Pending s h.cc := ⟨n, h, hn, rfl, hev⟩
  obtain ⟨-, hepoll⟩ := hpending.live hs.holds hrun
  have hcan : EpollLoop.CanReturn s.loop [s.entry (some n)] := by
    refine ⟨by simp [EpollLoop.maxEvents], by simp, ?_⟩
    simpa [State.entry, hn] using hepoll
  simp [step, hrun, hmain, State.readable, hn, hev, EpollLoop.step, hbatch, hcan]

/-- **What the batch names can be read.** In every run in which no `DISCONNECTED` is
handled while an entry behind it names the channel of its connection, each pointer
handed to `handle_cq_event` is the channel of a connection that is open, and
`ibv_get_cq_event` finds an event in it. -/
theorem calls_linked {heap : Nat → Block} {as : List (Action ρ α)} {s : State σ}
    (h : Run.run (step P) (.initial heap) as = some s)
    (hm : Run.Meets (step P) Spares (.initial heap) as) {c : Nat}
    (hc : EpollLoop.Calls s.loop c) :
    ∃ n h l, s.loop.sys.server.conns n = some h ∧ h.cc = c ∧ s.conns.links n = some l ∧
      0 < l.conn.ep.cq.events := by
  have hs : Joined s := hm.invariant joined_step h (joined_initial heap)
  obtain ⟨hrun, hhead⟩ := hc
  obtain ⟨n, d, hn, hcc, hev⟩ := hs.pending hrun c (List.mem_of_mem_head? hhead)
  obtain ⟨l, hl⟩ := Option.isSome_iff_exists.mp
    ((hs.coupled.links_isSome n).trans (by simp [hn]))
  exact ⟨n, d, l, hn, hcc, hl, by simpa [eventsOf, hl] using hev⟩

/-- A connection from its `CONNECT_REQUEST` to the end of `handle_new_request`. -/
def joins (x : Id) (k : Nat) : List (Action Client.Args Client.Action) :=
  [.wait [none],
    .cmEvent ⟨.connectRequest, x⟩ (returnsAt k) { Echoed.once with count := tenTimes }] ++
  List.replicate 5 (.conns (.server .ok))

/-- Two clients. The first one's message is there when the second one leaves. -/
def secondLeaves : List (Action Client.Args Client.Action) :=
  joins 1 10 ++ joins 2 20 ++
  [.conns (.peer 10 (.exec .ok)), .conns (.peer 10 (.exec .ok)),
    .conns (.peer 10 (.hca (.read 0))), .conns (.toServer 10 .recv), .conns (.hca 10 .reportRecv),
    .wait [none, some 10], .cmEvent ⟨.disconnected, 2⟩ (returnsAt 0) Echoed.once]

theorem calls_linked_secondLeaves : ∃ s n h l,
    Run.run (step Client.peer) (.initial fun _ => zeros) secondLeaves = some s ∧
    s.loop.sys.server.conns n = some h ∧ h.cc = 10 ∧ s.conns.links n = some l ∧
      0 < l.conn.ep.cq.events := by
  have hrun : (Run.run (step Client.peer) (.initial fun _ => zeros) secondLeaves).map
      (fun s => decide (EpollLoop.Calls s.loop 10)) = some true := by
    decide +kernel
  obtain ⟨s, hs, hcalls⟩ := Option.map_eq_some_iff.mp hrun
  obtain ⟨n, h, l, hn, hcc, hl, hev⟩ :=
    calls_linked hs (by decide +kernel) (of_decide_eq_true hcalls)
  exact ⟨s, n, h, l, hs, hn, hcc, hl, hev⟩

end RdmaTutorial.Rdmacm05.Joint
