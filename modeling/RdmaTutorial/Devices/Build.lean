import RdmaTutorial.Devices.World

/-!
# example03: the resources

`build_rdma_resources` makes six objects one after another, and stops with `die`
behind the first call that fails; the list of the devices is given back as soon as
the device is open. `cleanup_resources` takes them down again, as far as they have
been made. No `main` comes to call it: both have a loop before it that does not
end.
-/

namespace RdmaTutorial.Devices

open Objects Program

/-- The objects, in the order of their creation. -/
def RdmaContext.objects (res : RdmaContext) : List (Object Held) :=
  [⟨.context res.ctx, []⟩, ⟨.pd res.pd, [.context res.ctx]⟩, ⟨.buf res.buf, []⟩,
    ⟨.mr res.mr, [.pd res.pd, .buf res.buf]⟩, ⟨.cq res.cq, [.context res.ctx]⟩,
    ⟨.qp res.qp, [.pd res.pd, .cq res.cq]⟩]

/-- The record when the first `k` of them have been made, the others NULL. -/
def RdmaContext.upTo (res : RdmaContext) (k : Nat) : Pointers where
  ctx := if 0 < k then some res.ctx else none
  pd := if 1 < k then some res.pd else none
  buf := if 2 < k then some res.buf else none
  mr := if 3 < k then some res.mr else none
  cq := if 4 < k then some res.cq else none
  qp := if 5 < k then some res.qp else none

variable {α : Type} {s : State} {objs : List (Object Held)} {out : List String}

/-- The weakest precondition on any host. -/
abbrev Alone (Q : Except String α → State → Prop) (p : Prog α) (s : State) : Prop :=
  p.wp anyHost (fun _ => True) Eq Q s

theorem alone_call {Q : Except String α → State → Prop} {c : Call} {f : c.Answer → Prog α}
    (hsafe : c.Safe objs)
    (hf : ∀ r objs', liveAfter objs c r = some objs' →
      Alone Q (f r) ⟨objs', out ++ c.prints⟩) : Alone Q (call c >>= f) ⟨objs, out⟩ := by
  refine wp_alone_call.mpr ⟨hsafe, fun r t ht => ?_⟩
  obtain ⟨objs', hobjs, rfl⟩ := Option.map_eq_some_iff.mp ht
  exact hf r objs' hobjs

/-! ## `build_rdma_resources` -/

/-- What `build_rdma_resources` leaves: all of the objects, or, where it has died,
those it had made, or the list of the devices. -/
def Built : Except String RdmaContext → State → Prop
  | .ok res, t => t.objs = res.objects
  | .error _, t => (∃ res : RdmaContext, t.objs <+: res.objects) ∨
      ∃ l : DeviceList, t.objs = [⟨.list l, []⟩]

theorem alone_die {reason : String} (h : (∃ res : RdmaContext, objs <+: res.objects) ∨
    ∃ l : DeviceList, objs = [⟨.list l, []⟩]) : Alone Built (.exit reason) ⟨objs, out⟩ :=
  wp_alone_exit.mpr h

theorem alone_buildRdmaResources (ibPort : Nat) (out : List String) :
    Alone Built (buildRdmaResources ibPort) ⟨[], out⟩ := by
  let anyGid : Example03.Gid := ⟨List.replicate 16 0, rfl⟩
  let anyPort : PortAttr := ⟨0, 0, 0, 0⟩
  unfold buildRdmaResources
  refine alone_call trivial ?_
  rintro (_ | list) _ hlive
  · cases hlive
    exact alone_die (.inl ⟨⟨⟨0, 0⟩, anyPort, anyGid, 0, 0, 0, 0, 0⟩, List.nil_prefix⟩)
  obtain ⟨-, rfl⟩ := add_eq_some.mp hlive
  rw [orDie, ret_bind]
  cases hdev : list.devices.head? with
  | none => exact alone_die (.inr ⟨list, rfl⟩)
  | some dev =>
    have hnames : Names [⟨.list list, []⟩] dev := ⟨list, by simp, List.mem_of_head? hdev⟩
    rw [orDie, ret_bind]
    refine alone_call hnames ?_
    rintro (_ | ctx) _ hlive
    · cases hlive
      exact alone_die (.inr ⟨list, rfl⟩)
    simp only [liveAfter] at hlive
    split at hlive
    swap
    · cases hlive
    obtain ⟨-, rfl⟩ := add_eq_some.mp hlive
    rw [orDie, ret_bind]
    refine alone_call ⟨by simp, by simp [Busy]⟩ fun _ objs' hlive => ?_
    obtain rfl : objs' = [⟨.context ctx, []⟩] := by
      rw [← Option.some.inj hlive]
      simp [destroy, Busy]
    refine alone_call (by simp [Call.Safe]) ?_
    rintro (_ | portAttr) _ hlive
    · cases hlive
      exact alone_die (.inl ⟨⟨ctx, anyPort, anyGid, 0, 0, 0, 0, 0⟩, _, rfl⟩)
    cases hlive
    rw [orDie, ret_bind]
    refine alone_call (by simp [Call.Safe]) ?_
    rintro (_ | gid) _ hlive
    · cases hlive
      exact alone_die (.inl ⟨⟨ctx, portAttr, anyGid, 0, 0, 0, 0, 0⟩, _, rfl⟩)
    cases hlive
    rw [orDie, ret_bind]
    refine alone_call (by simp [Call.Safe]) ?_
    rintro (_ | pd) _ hlive
    · cases hlive
      exact alone_die (.inl ⟨⟨ctx, portAttr, gid, 0, 0, 0, 0, 0⟩, _, rfl⟩)
    obtain ⟨-, rfl⟩ := add_eq_some.mp hlive
    rw [orDie, ret_bind]
    refine alone_call trivial ?_
    rintro (_ | buf) _ hlive
    · cases hlive
      exact alone_die (.inl ⟨⟨ctx, portAttr, gid, pd, 0, 0, 0, 0⟩, _, rfl⟩)
    obtain ⟨-, rfl⟩ := add_eq_some.mp hlive
    rw [orDie, ret_bind]
    refine alone_call (by simp [Call.Safe]) fun _ _ hlive => ?_
    cases hlive
    refine alone_call (by simp [Call.Safe]) ?_
    rintro (_ | mr) _ hlive
    · cases hlive
      exact alone_die (.inl ⟨⟨ctx, portAttr, gid, pd, buf, 0, 0, 0⟩, _, rfl⟩)
    obtain ⟨-, rfl⟩ := add_eq_some.mp hlive
    rw [orDie, ret_bind]
    refine alone_call (by simp [Call.Safe]) ?_
    rintro (_ | cq) _ hlive
    · cases hlive
      exact alone_die (.inl ⟨⟨ctx, portAttr, gid, pd, buf, mr, 0, 0⟩, _, rfl⟩)
    obtain ⟨-, rfl⟩ := add_eq_some.mp hlive
    rw [orDie, ret_bind]
    refine alone_call (by simp [Call.Safe]) ?_
    rintro (_ | qp) _ hlive
    · cases hlive
      exact alone_die (.inl ⟨⟨ctx, portAttr, gid, pd, buf, mr, cq, 0⟩, _, rfl⟩)
    obtain ⟨-, rfl⟩ := add_eq_some.mp hlive
    exact wp_alone_ret.mpr rfl

/-! ## `cleanup_resources` -/

/-- All is gone, but for a context that would not close. -/
def CleanedUp (res : RdmaContext) (o : Except String Unit) (t : State) : Prop :=
  o = .ok () ∧ (t.objs = [] ∨ t.objs = [⟨.context res.ctx, []⟩])

/-- The call destroys `h`, and succeeds where nothing is built on it. -/
structure Destroys (c : Call) (h : Held) : Prop where
  safe : ∀ objs, IsLive objs h → ¬Busy objs h → c.Safe objs
  destroys : ∀ objs r t, ¬Busy objs h → liveAfter objs c r = some t → t = destroy objs h
  silent : c.prints = []

theorem destroyed_eq {h : Held} {r : Result} {t : List (Object Held)} (hidle : ¬Busy objs h)
    (ht : destroyed objs h r = some t) : t = destroy objs h := by
  cases r with
  | ok => exact (Option.some.inj ht).symm
  | fail =>
    rw [destroyed, if_neg hidle] at ht
    cases ht

theorem destroys_qp (a : Nat) : Destroys (.destroyQp a) (.qp a) :=
  ⟨fun _ => .intro, fun _ _ _ => destroyed_eq, rfl⟩

theorem destroys_cq (a : Nat) : Destroys (.destroyCq a) (.cq a) :=
  ⟨fun _ => .intro, fun _ _ _ => destroyed_eq, rfl⟩

theorem destroys_mr (a : Nat) : Destroys (.deregMr a) (.mr a) :=
  ⟨fun _ => .intro, fun _ _ _ => destroyed_eq, rfl⟩

theorem destroys_pd (a : Nat) : Destroys (.deallocPd a) (.pd a) :=
  ⟨fun _ => .intro, fun _ _ _ => destroyed_eq, rfl⟩

theorem destroys_buf (a : Nat) : Destroys (.free a) (.buf a) :=
  ⟨fun _ => .intro, fun _ _ _ _ ht => (Option.some.inj ht).symm, rfl⟩

theorem isLive_without {gone : List Held} {h : Held} (hlive : IsLive objs h) (hh : h ∉ gone) :
    IsLive (without objs gone) h := by
  obtain ⟨o, ho, rfl⟩ := hlive
  exact ⟨o, mem_without.mpr ⟨ho, hh⟩, rfl⟩

/-- A pointer that is set to an object that is alive; what is built on it has gone. -/
theorem alone_ifSet {β : Type} {Q : Except String α → State → Prop} {x : Option β}
    {c : β → Call} {h : β → Held} {f : Unit → Prog α} {gone : List Held}
    (hc : ∀ a, Destroys (c a) (h a)) (hlive : ∀ a ∈ x, IsLive objs (h a) ∧ h a ∉ gone)
    (hfree : ∀ a ∈ x, ∀ o ∈ objs, h a ∈ o.uses → o.handle ∈ gone)
    (hf : Alone Q (f ()) ⟨without objs ((x.map h).toList ++ gone), out⟩) :
    Alone Q (ifSet x c >>= f) ⟨without objs gone, out⟩ := by
  cases x with
  | none => exact hf
  | some a =>
    have hidle := not_busy_without (hfree a rfl)
    have hhere := isLive_without (hlive a rfl).1 (hlive a rfl).2
    refine alone_call ((hc a).safe _ hhere hidle) fun r t ht => ?_
    rw [(hc a).destroys _ r t hidle ht, destroy_without (hfree a rfl), (hc a).silent,
      List.append_nil]
    exact hf

/-- `ibv_close_device` may fail, and the context stays. -/
theorem alone_closeDevice {Q : Except String α → State → Prop} {x : Option Context}
    {f : Unit → Prog α} {gone : List Held}
    (hlive : ∀ c ∈ x, IsLive objs (.context c) ∧ .context c ∉ gone)
    (hfree : ∀ c ∈ x, ∀ o ∈ objs, .context c ∈ o.uses → o.handle ∈ gone)
    (hf : ∀ closed, closed = [] ∨ closed = (x.map Held.context).toList →
      Alone Q (f ()) ⟨without objs (closed ++ gone), out⟩) :
    Alone Q (ifSet x .closeDevice >>= f) ⟨without objs gone, out⟩ := by
  cases x with
  | none => exact hf [] (.inl rfl)
  | some c =>
    have hidle := not_busy_without (hfree c rfl)
    have hhere := isLive_without (hlive c rfl).1 (hlive c rfl).2
    refine alone_call ⟨hhere, hidle⟩ fun r t ht => ?_
    show Alone Q (f ()) ⟨t, out ++ []⟩
    rw [List.append_nil]
    cases r with
    | ok =>
      rw [← Option.some.inj ht, destroy_without (hfree c rfl)]
      exact hf [.context c] (.inr rfl)
    | fail =>
      rw [← Option.some.inj ht]
      exact hf [] (.inl rfl)

theorem forall_mem_take {res : RdmaContext} {k : Nat} {P : Object Held → Prop} :
    (∀ o ∈ res.objects.take k, P o) ↔ (0 < k → P ⟨.context res.ctx, []⟩) ∧
      (1 < k → P ⟨.pd res.pd, [.context res.ctx]⟩) ∧ (2 < k → P ⟨.buf res.buf, []⟩) ∧
      (3 < k → P ⟨.mr res.mr, [.pd res.pd, .buf res.buf]⟩) ∧
      (4 < k → P ⟨.cq res.cq, [.context res.ctx]⟩) ∧
      (5 < k → P ⟨.qp res.qp, [.pd res.pd, .cq res.cq]⟩) := by
  rcases k with _ | _ | _ | _ | _ | _ | k <;> simp [RdmaContext.objects]

theorem isLive_take {res : RdmaContext} {k : Nat} {h : Held} :
    IsLive (res.objects.take k) h ↔ ¬((0 < k → h ≠ .context res.ctx) ∧
      (1 < k → h ≠ .pd res.pd) ∧ (2 < k → h ≠ .buf res.buf) ∧ (3 < k → h ≠ .mr res.mr) ∧
      (4 < k → h ≠ .cq res.cq) ∧ (5 < k → h ≠ .qp res.qp)) := by
  have hnone : (∀ o ∈ res.objects.take k, h ≠ o.handle) ↔ _ := forall_mem_take
  rw [← hnone]
  simp [IsLive, eq_comm]

theorem alone_cleanupResources (res : RdmaContext) (k : Nat) (out : List String) :
    Alone (CleanedUp res) (cleanupResources (res.upTo k)) ⟨res.objects.take k, out⟩ := by
  rw [← without_nil (res.objects.take k)]
  unfold cleanupResources
  refine alone_ifSet destroys_qp ?_ ?_ ?_
  · simp +contextual [RdmaContext.upTo, isLive_take]
  · simp +contextual [RdmaContext.upTo, forall_mem_take]
  refine alone_ifSet destroys_cq ?_ ?_ ?_
  · simp +contextual [RdmaContext.upTo, isLive_take]
  · simp +contextual [RdmaContext.upTo, forall_mem_take]
  refine alone_ifSet destroys_mr ?_ ?_ ?_
  · simp +contextual [RdmaContext.upTo, isLive_take]
  · simp +contextual [RdmaContext.upTo, forall_mem_take]
  refine alone_ifSet destroys_pd ?_ ?_ ?_
  · simp +contextual [RdmaContext.upTo, isLive_take]
  · simp +contextual [RdmaContext.upTo, forall_mem_take]
  refine alone_closeDevice ?_ ?_ fun closed hclosed => ?_
  · simp +contextual [RdmaContext.upTo, isLive_take]
  · simp +contextual [RdmaContext.upTo, forall_mem_take]
  rw [← bind_pure (ifSet (res.upTo k).buf _)]
  refine alone_ifSet destroys_buf ?_ ?_ (wp_alone_ret.mpr ⟨rfl, ?_⟩)
  · rcases hclosed with rfl | rfl <;> simp +contextual [RdmaContext.upTo, isLive_take]
  · rcases hclosed with rfl | rfl <;> simp +contextual [RdmaContext.upTo, forall_mem_take]
  · rcases hclosed with rfl | rfl <;> rcases k with _ | _ | _ | _ | _ | _ | k <;>
      simp [RdmaContext.upTo, RdmaContext.objects, without]

/-! ## Their runs -/

/-- Every run of a program, whichever calls fail, is safe and ends in `Q`. -/
def AlwaysEnds {α : Type} (Q : Except String α → State → Prop) (p : Prog α) (s : State) : Prop :=
  ∀ as q t, Run.run (step anyHost) (p, s) as = some (q, t) →
    (∀ c, q.next = some c → c.Safe t.objs) ∧ ∀ o, q.outcome = some o → Q o t

theorem Alone.alwaysEnds {Q : Except String α → State → Prop} {p : Prog α}
    (h : Alone Q p s) : AlwaysEnds Q p s := by
  intro as q t hrun
  have hq := wp_run h hrun
  exact ⟨fun c hc => wp_allowed hq trivial hc, fun o ho => wp_outcome hq trivial ho⟩

end RdmaTutorial.Devices
