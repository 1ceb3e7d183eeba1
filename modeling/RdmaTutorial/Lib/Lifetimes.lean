import Mathlib.Data.Set.Insert
import Mathlib.Data.List.Infix

/-!
# Accesses to what is live

A program is handed resources and releases them again; in between they are live.
What a piece of it does is a list of accesses in the order it makes them, over
the set of what is live before. It is `Safe` when it uses and releases only what
is live at that moment.
-/

namespace Lifetimes

inductive Access (H : Type*) where
  | create (h : H)
  | use (h : H)
  | release (h : H)
  deriving DecidableEq

variable {H : Type*}

/-- What is live behind an access. -/
def Access.after (live : Set H) : Access H → Set H
  | create h => insert h live
  | use _ => live
  | release h => live \ {h}

def Access.Ok (live : Set H) : Access H → Prop
  | create _ => True
  | use h => h ∈ live
  | release h => h ∈ live

/-- What is live behind a list of accesses. -/
def after (live : Set H) (as : List (Access H)) : Set H := as.foldl Access.after live

def Safe : Set H → List (Access H) → Prop
  | _, [] => True
  | live, a :: as => a.Ok live ∧ Safe (a.after live) as

variable {live : Set H} {h : H} {as bs : List (Access H)}

@[simp] theorem after_nil : after live [] = live := rfl

@[simp] theorem after_create : after live (.create h :: as) = after (insert h live) as := rfl

@[simp] theorem after_use : after live (.use h :: as) = after live as := rfl

@[simp] theorem after_release : after live (.release h :: as) = after (live \ {h}) as := rfl

@[simp] theorem safe_nil : Safe live [] := trivial

@[simp] theorem safe_create : Safe live (.create h :: as) ↔ Safe (insert h live) as :=
  ⟨fun hs => hs.2, fun hs => ⟨trivial, hs⟩⟩

@[simp] theorem safe_use : Safe live (.use h :: as) ↔ h ∈ live ∧ Safe live as := Iff.rfl

@[simp] theorem safe_release :
    Safe live (.release h :: as) ↔ h ∈ live ∧ Safe (live \ {h}) as := Iff.rfl

theorem safe_append : Safe live (as ++ bs) ↔ Safe live as ∧ Safe (after live as) bs := by
  induction as generalizing live with
  | nil => simp
  | cons a as ih => simp [Safe, ih, after, and_assoc]

/-- What stops short of something safe is safe. -/
theorem Safe.of_prefix (hs : Safe live bs) (hp : as <+: bs) : Safe live as := by
  obtain ⟨cs, rfl⟩ := hp
  exact (safe_append.mp hs).1

/-- What is not live does not become so unless it is created. -/
theorem notMem_after (hlive : h ∉ live) (has : .create h ∉ as) : h ∉ after live as := by
  induction as generalizing live with
  | nil => exact hlive
  | cons a as ih =>
    rw [List.mem_cons, not_or] at has
    refine ih ?_ has.2
    cases a with
    | create k =>
      have hne : h ≠ k := fun he => has.1 (he ▸ rfl)
      simp [Access.after, hne, hlive]
    | use k => exact hlive
    | release k => exact fun hm => hlive hm.1

/-- A use behind the release, with nothing created at that address in between. -/
theorem not_safe_of_released (has : .create h ∉ as) (cs : List (Access H)) :
    ¬Safe live (bs ++ .release h :: (as ++ .use h :: cs)) := by
  intro hs
  have hrest := (safe_append.mp hs).2
  rw [safe_release, safe_append, safe_use] at hrest
  exact notMem_after (fun hm => hm.2 rfl) has hrest.2.2.1

section Decide

variable [DecidableEq H]

instance (live : Set H) [DecidablePred (· ∈ live)] (a : Access H) : Decidable (a.Ok live) :=
  match a with
  | .create _ => .isTrue trivial
  | .use h => inferInstanceAs (Decidable (h ∈ live))
  | .release h => inferInstanceAs (Decidable (h ∈ live))

instance (live : Set H) [DecidablePred (· ∈ live)] (a : Access H) :
    DecidablePred (· ∈ a.after live) := fun x =>
  match a with
  | .create h => decidable_of_iff (x = h ∨ x ∈ live) Iff.rfl
  | .use _ => inferInstanceAs (Decidable (x ∈ live))
  | .release h => decidable_of_iff (x ∈ live ∧ ¬x = h) Iff.rfl

instance Safe.decidable : ∀ (live : Set H) [DecidablePred (· ∈ live)] (as : List (Access H)),
    Decidable (Safe live as)
  | _, _, [] => .isTrue trivial
  | live, _, a :: as =>
    have := Safe.decidable (a.after live) as
    inferInstanceAs (Decidable (a.Ok live ∧ Safe (a.after live) as))

end Decide

end Lifetimes
