import Mathlib.Data.List.Basic
import Mathlib.Data.Set.Finite.List

/-!
# Objects that depend on one another

A library hands out objects by handle. An object may be built on others, and
a call that destroys an object fails as busy, and leaves it alive, while one
that is built on it is alive. Programs that tear a group of objects down
usually ignore what these calls return; whether they leak is then a matter of
the order alone, and `destroyAll_eq_filter` is the rule for it.
-/

namespace Objects

/-- A live object: its handle, and the handles of the objects it is built
on. -/
structure Object (H : Type*) where
  handle : H
  uses : List H
  deriving DecidableEq

variable {H : Type*} [DecidableEq H]

def IsLive (objs : List (Object H)) (h : H) : Prop := ∃ o ∈ objs, o.handle = h

/-- Some live object is built on `h`. -/
def Busy (objs : List (Object H)) (h : H) : Prop := ∃ o ∈ objs, h ∈ o.uses

instance (objs : List (Object H)) (h : H) : Decidable (IsLive objs h) :=
  inferInstanceAs (Decidable (∃ o ∈ objs, o.handle = h))

instance (objs : List (Object H)) (h : H) : Decidable (Busy objs h) :=
  inferInstanceAs (Decidable (∃ o ∈ objs, h ∈ o.uses))

/-- What is alive after the call that destroys `h`. -/
def destroy (objs : List (Object H)) (h : H) : List (Object H) :=
  if Busy objs h then objs else objs.filter fun o => o.handle ≠ h

/-- One call for each handle of the list. -/
def destroyAll (objs : List (Object H)) (hs : List H) : List (Object H) := hs.foldl destroy objs

/-- Destroying `hs` in this order, after `gone`, reaches every object behind
those built on it. -/
def DependentsFirst (objs : List (Object H)) : List H → List H → Prop
  | _, [] => True
  | gone, h :: hs =>
    (∀ o ∈ objs, h ∈ o.uses → o.handle ∈ gone) ∧ DependentsFirst objs (h :: gone) hs

/-- What is left of `objs` without `gone`. -/
def without (objs : List (Object H)) (gone : List H) : List (Object H) :=
  objs.filter fun o => o.handle ∉ gone

@[simp] theorem mem_without {objs : List (Object H)} {gone : List H} {o : Object H} :
    o ∈ without objs gone ↔ o ∈ objs ∧ o.handle ∉ gone := by
  simp [without]

@[simp] theorem without_nil (objs : List (Object H)) : without objs [] = objs := by
  simp [without]

theorem not_busy_without {objs : List (Object H)} {gone : List H} {h : H}
    (hfree : ∀ o ∈ objs, h ∈ o.uses → o.handle ∈ gone) : ¬Busy (without objs gone) h := by
  rintro ⟨o, ho, huse⟩
  rw [mem_without] at ho
  exact ho.2 (hfree o ho.1 huse)

theorem destroy_without {objs : List (Object H)} {gone : List H} {h : H}
    (hfree : ∀ o ∈ objs, h ∈ o.uses → o.handle ∈ gone) :
    destroy (without objs gone) h = without objs (h :: gone) := by
  rw [destroy, if_neg (not_busy_without hfree), without, without, List.filter_filter]
  simp [not_or]

/-- Dependents first, no call fails. -/
theorem destroyAll_without {objs : List (Object H)} {gone hs : List H}
    (ho : DependentsFirst objs gone hs) :
    destroyAll (without objs gone) hs = without objs (hs.reverse ++ gone) := by
  induction hs generalizing gone with
  | nil => rfl
  | cons h hs ih =>
    -- What is built on `h` went before it, so this call succeeds.
    obtain ⟨hfree, ho⟩ := ho
    rw [destroyAll, List.foldl_cons, destroy_without hfree, ← destroyAll, ih ho]
    simp

omit [DecidableEq H] in
/-- Only the objects of one group are built on `hs`: then their order matters
within the group. -/
theorem DependentsFirst.of_group {objs group : List (Object H)} {gone hs : List H}
    (hgroup : ∀ o ∈ objs, o ∈ group ∨ ∀ h ∈ hs, h ∉ o.uses)
    (ho : DependentsFirst group gone hs) : DependentsFirst objs gone hs := by
  induction hs generalizing gone with
  | nil => trivial
  | cons h hs ih =>
    obtain ⟨hfree, ho⟩ := ho
    refine ⟨fun o hmem huse => ?_, ih (fun o hmem => ?_) ho⟩
    · rcases hgroup o hmem with hin | hout
      · exact hfree o hin huse
      · exact absurd huse (hout h (by simp))
    · exact (hgroup o hmem).imp_right fun hout d hd => hout d (by simp [hd])

/-- So exactly the objects named are gone. -/
theorem destroyAll_eq_filter {objs : List (Object H)} {hs : List H}
    (ho : DependentsFirst objs [] hs) :
    destroyAll objs hs = objs.filter fun o => o.handle ∉ hs := by
  have h := destroyAll_without ho
  rw [without_nil] at h
  simpa [without] using h

/-! ## One object -/

omit [DecidableEq H] in
theorem not_busy_middle {l l' : List (Object H)} {h : H} {uses : List H}
    (hfree : ∀ o ∈ l ++ l', h ∉ o.uses) (hself : h ∉ uses) :
    ¬Busy (l ++ ⟨h, uses⟩ :: l') h := by
  rintro ⟨o, ho, huse⟩
  rcases List.mem_append.mp ho with ho | ho
  · exact hfree o (List.mem_append_left l' ho) huse
  rcases List.mem_cons.mp ho with rfl | ho
  · exact hself huse
  · exact hfree o (List.mem_append_right l ho) huse

/-- An object that no other is built on leaves the others as they are. -/
theorem destroy_middle {l l' : List (Object H)} {h : H} {uses : List H}
    (hother : ∀ o ∈ l ++ l', o.handle ≠ h) (hfree : ∀ o ∈ l ++ l', h ∉ o.uses)
    (hself : h ∉ uses) : destroy (l ++ ⟨h, uses⟩ :: l') h = l ++ l' := by
  have hkeep : (l ++ l').filter (fun o => decide (o.handle ≠ h)) = l ++ l' :=
    List.filter_eq_self.mpr fun o ho => decide_eq_true (hother o ho)
  rw [destroy, if_neg (not_busy_middle hfree hself), List.filter_append, List.filter_cons_of_neg,
    ← List.filter_append, hkeep]
  simp

omit [DecidableEq H] in
/-- An address can be found that no live object has. -/
theorem exists_fresh (objs : List (Object H)) {f : Nat → H} (hf : Function.Injective f) :
    ∃ a, ¬IsLive objs (f a) := by
  have hfinite : (Set.preimage f {h | h ∈ objs.map (·.handle)}).Finite :=
    (List.finite_toSet _).preimage hf.injOn
  obtain ⟨a, ha⟩ := hfinite.exists_notMem
  refine ⟨a, fun ⟨o, ho, hoa⟩ => ha ?_⟩
  exact List.mem_map.mpr ⟨o, ho, hoa⟩

/-! ## An object that is made -/

/-- A call that makes an object gives it a handle that no live one has. -/
def add (objs : List (Object H)) (h : H) (uses : List H) : Option (List (Object H)) :=
  if IsLive objs h then none else some (objs ++ [⟨h, uses⟩])

theorem add_eq_some {objs t : List (Object H)} {h : H} {uses : List H} :
    add objs h uses = some t ↔ ¬IsLive objs h ∧ objs ++ [⟨h, uses⟩] = t := by
  unfold add
  split <;> simp_all

theorem exists_add (objs : List (Object H)) {f : Nat → H} (hf : Function.Injective f)
    (uses : List H) : ∃ a t, add objs (f a) uses = some t := by
  obtain ⟨a, ha⟩ := exists_fresh objs hf
  exact ⟨a, _, if_neg ha⟩

omit [DecidableEq H] in
@[simp] theorem isLive_nil (h : H) : ¬IsLive ([] : List (Object H)) h := by simp [IsLive]

omit [DecidableEq H] in
@[simp] theorem isLive_cons {o : Object H} {objs : List (Object H)} {h : H} :
    IsLive (o :: objs) h ↔ o.handle = h ∨ IsLive objs h := by
  simp [IsLive]

omit [DecidableEq H] in
theorem isLive_append {objs new : List (Object H)} {h : H} :
    IsLive (objs ++ new) h ↔ IsLive objs h ∨ IsLive new h := by
  simp [IsLive, or_and_right, exists_or]

/-! ## What the calls return -/

/-- One call for each handle of the list, and whether it succeeds. -/
def destroyLog : List (Object H) → List H → List (H × Bool)
  | _, [] => []
  | objs, h :: hs => (h, !decide (Busy objs h)) :: destroyLog (destroy objs h) hs

theorem destroyAll_append (objs : List (Object H)) (hs ds : List H) :
    destroyAll objs (hs ++ ds) = destroyAll (destroyAll objs hs) ds := List.foldl_append

theorem destroyLog_append (objs : List (Object H)) (hs ds : List H) :
    destroyLog objs (hs ++ ds) = destroyLog objs hs ++ destroyLog (destroyAll objs hs) ds := by
  induction hs generalizing objs with
  | nil => rfl
  | cons h hs ih => simp [destroyLog, destroyAll, ih]

/-! ## Groups

Objects that only objects of their own group are built on. -/

section Group

variable {objs : List (Object H)} {g : H → Prop} [DecidablePred g] {h : H}

/-- The live objects of a group. -/
def group (g : H → Prop) [DecidablePred g] (objs : List (Object H)) : List (Object H) :=
  objs.filter fun o => g o.handle

omit [DecidableEq H] in
theorem isLive_group (hh : g h) : IsLive (group g objs) h ↔ IsLive objs h := by
  constructor
  · rintro ⟨o, ho, rfl⟩
    exact ⟨o, (List.mem_filter.mp ho).1, rfl⟩
  · rintro ⟨o, ho, rfl⟩
    exact ⟨o, List.mem_filter.mpr ⟨ho, by simpa using hh⟩, rfl⟩

omit [DecidableEq H] in
theorem busy_group (hg : ∀ o ∈ objs, ∀ u ∈ o.uses, g u → g o.handle) (hh : g h) :
    Busy (group g objs) h ↔ Busy objs h := by
  constructor
  · rintro ⟨o, ho, huse⟩
    exact ⟨o, (List.mem_filter.mp ho).1, huse⟩
  · rintro ⟨o, ho, huse⟩
    exact ⟨o, List.mem_filter.mpr ⟨ho, by simpa using hg o ho h huse hh⟩, huse⟩

/-- An object of the group is destroyed as if there were no others. -/
theorem group_destroy (hg : ∀ o ∈ objs, ∀ u ∈ o.uses, g u → g o.handle) (hh : g h) :
    group g (destroy objs h) = destroy (group g objs) h := by
  unfold destroy
  by_cases hb : Busy objs h
  · rw [if_pos hb, if_pos ((busy_group hg hh).mpr hb)]
  · rw [if_neg hb, if_neg (mt (busy_group hg hh).mp hb)]
    simp [group, List.filter_filter, Bool.and_comm]

/-- Destroying any other leaves the group as it is. -/
theorem group_destroy_of_not (hh : ¬g h) : group g (destroy objs h) = group g objs := by
  unfold destroy
  split
  · rfl
  · simp only [group, List.filter_filter]
    apply List.filter_congr
    intro o _
    by_cases ho : o.handle = h <;> simp [ho, hh]

theorem mem_destroy {o : Object H} (ho : o ∈ destroy objs h) : o ∈ objs := by
  unfold destroy at ho
  split at ho
  · exact ho
  · exact (List.mem_filter.mp ho).1

end Group

end Objects
