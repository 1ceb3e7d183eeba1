import RdmaTutorial.Establish.Objects

/-!
# `setup_connection` by itself

However its calls are answered, it makes the nine objects of a connection in
their order, and stops behind the first call that fails. All its calls are safe,
except that rdmacm01 posts a receive whose `next` it has not set: what `malloc`
leaves there decides.
-/

namespace RdmaTutorial.Establish

open Objects Program

variable {heap : Option Nat → Bool} {ok : Bool} {objs t : List (Object Held)}

/-- What `setup_connection` leaves: all of a connection, or, where a call has
failed, what it had made by then. -/
def SetUp (ok : Bool) (objs : List (Object Held)) :
    Except String Connected → List (Object Held) → Prop
  | .ok nc, t => t = objs ++ nc.objects ∧ ∀ o ∈ nc.objects, ¬IsLive objs o.handle
  | .error _, t => ok = false ∧ ∃ (nc : Connected) (made : List (Object Held)),
      made <+: nc.objects ∧ t = objs ++ made

section Rules

variable {α : Type} {Q : Except String α → List (Object Held) → Prop}

/-- The weakest precondition of a program that has the process to itself. -/
abbrev Alone (heap : Option Nat → Bool) (ok : Bool)
    (Q : Except String α → List (Object Held) → Prop) (p : Prog α)
    (objs : List (Object Held)) : Prop :=
  p.wp (process heap ok) (fun _ => True) Eq Q objs

theorem alone_call {c : Call} {k : c.Answer → Prog α} (hquiet : c.quiet = true)
    (hsafe : c.Safe objs)
    (hk : ∀ r t, (ok = true → c.succeeds r = true) → liveAfter heap objs c r = some t →
      Alone heap ok Q (k r) t) : Alone heap ok Q (.call c k) objs := by
  rintro t rfl -
  refine ⟨⟨hquiet, hsafe⟩, fun r u hu => ?_⟩
  simp only [process] at hu
  split at hu
  · rename_i hok
    exact hk r u hok hu
  · cases hu

theorem alone_ret {a : α} (h : Q (.ok a) objs) : Alone heap ok Q (.ret a) objs := by
  rintro t rfl -
  exact h

end Rules

/-- One more object behind those made so far. -/
theorem made_add {made : List (Object Held)} {h : Held} {uses : List Held}
    (hadd : add (objs ++ made) h uses = some t) :
    t = objs ++ (made ++ [⟨h, uses⟩]) ∧ ¬IsLive objs h := by
  obtain ⟨hlive, rfl⟩ := add_eq_some.mp hadd
  rw [isLive_append, not_or] at hlive
  exact ⟨List.append_assoc .., hlive.1⟩

/-- A call has failed when `made` was made; the rest of `nc` does not matter. -/
theorem setUp_exit (nc : Connected) {made : List (Object Held)} (h : made <+: nc.objects)
    (hok : ok = true → false = true) {e : String} :
    Alone heap ok (SetUp ok objs) (.exit e) (objs ++ made) := by
  rintro t rfl -
  exact ⟨by simpa using hok, nc, made, h, rfl⟩

theorem alone_setupConnection {d : Directory} {id : Id} (hid : IsLive objs (.id id))
    (hfine : d = .rdmacm01 → ∀ x, heap x → x = none) :
    Alone heap ok (SetUp ok objs) (setupConnection d id) objs := by
  suffices h : Alone heap ok (SetUp ok objs) (setupConnection d id) (objs ++ []) by simpa using h
  unfold setupConnection
  simp only [call, lift_bind]
  refine alone_call rfl trivial ?_
  rintro (_ | nc) s hok hs
  · cases hs
    exact setUp_exit ⟨0, ⟨0, 0, 0, 0, 0, 0, 0, 0⟩⟩ List.nil_prefix hok
  obtain ⟨hheap, hs⟩ : heap nc.next = true ∧ add (objs ++ []) (.conn nc.addr) [] = some s := by
    simpa [liveAfter] using hs
  obtain ⟨rfl, hnc⟩ := made_add hs
  refine alone_call rfl (by simp [Call.Safe, isLive_append, hid]) ?_
  rintro (_ | pd) s hok hs
  · cases hs
    exact setUp_exit ⟨nc.addr, ⟨0, 0, 0, 0, 0, 0, 0, 0⟩⟩ ⟨_, rfl⟩ hok
  obtain ⟨rfl, hpd⟩ := made_add hs
  refine alone_call rfl (by simp [Call.Safe, isLive_append, hid]) ?_
  rintro (_ | cc) s hok hs
  · cases hs
    exact setUp_exit ⟨nc.addr, ⟨pd, 0, 0, 0, 0, 0, 0, 0⟩⟩ ⟨_, rfl⟩ hok
  obtain ⟨rfl, hcc⟩ := made_add hs
  refine alone_call rfl (by simp [Call.Safe, isLive_append, hid]) ?_
  rintro (_ | cq) s hok hs
  · cases hs
    exact setUp_exit ⟨nc.addr, ⟨pd, cc, 0, 0, 0, 0, 0, 0⟩⟩ ⟨_, rfl⟩ hok
  obtain ⟨rfl, hcq⟩ := made_add hs
  refine alone_call rfl (by simp [Call.Safe, isLive_append]) ?_
  rintro (_ | _) s hok hs
  swap
  · cases hs
    exact setUp_exit ⟨nc.addr, ⟨pd, cc, cq, 0, 0, 0, 0, 0⟩⟩ ⟨_, rfl⟩ hok
  cases hs
  refine alone_call rfl (by simp [Call.Safe, isLive_append, hid]) ?_
  rintro (_ | qp) s hok hs
  · cases hs
    exact setUp_exit ⟨nc.addr, ⟨pd, cc, cq, 0, 0, 0, 0, 0⟩⟩ ⟨_, rfl⟩ hok
  obtain ⟨rfl, hqp⟩ := made_add hs
  refine alone_call rfl trivial ?_
  rintro (_ | recvBuff) s hok hs
  · cases hs
    exact setUp_exit ⟨nc.addr, ⟨pd, cc, cq, qp, 0, 0, 0, 0⟩⟩ ⟨_, rfl⟩ hok
  obtain ⟨rfl, hrecvBuff⟩ := made_add hs
  refine alone_call rfl trivial ?_
  rintro (_ | sendBuff) s hok hs
  · cases hs
    exact setUp_exit ⟨nc.addr, ⟨pd, cc, cq, qp, recvBuff, 0, 0, 0⟩⟩ ⟨_, rfl⟩ hok
  obtain ⟨rfl, hsendBuff⟩ := made_add hs
  refine alone_call rfl (by simp [Call.Safe, isLive_append]) ?_
  rintro (_ | recvMr) s hok hs
  · cases hs
    exact setUp_exit ⟨nc.addr, ⟨pd, cc, cq, qp, recvBuff, sendBuff, 0, 0⟩⟩ ⟨_, rfl⟩ hok
  obtain ⟨rfl, hrecvMr⟩ := made_add hs
  refine alone_call rfl (by simp [Call.Safe, isLive_append]) ?_
  rintro (_ | sendMr) s hok hs
  · cases hs
    exact setUp_exit ⟨nc.addr, ⟨pd, cc, cq, qp, recvBuff, sendBuff, recvMr, 0⟩⟩ ⟨_, rfl⟩ hok
  obtain ⟨rfl, hsendMr⟩ := made_add hs
  refine alone_call rfl ?_ ?_
  · simp only [Call.Safe, recvWr, isLive_append]
    exact ⟨by simp, by simp, by simp, by
      by_cases hd : d = .rdmacm01
      · rw [if_pos hd, hfine hd _ hheap]
      · rw [if_neg hd]⟩
  rintro (_ | _) s hok hs
  swap
  · cases hs
    exact setUp_exit ⟨nc.addr, ⟨pd, cc, cq, qp, recvBuff, sendBuff, recvMr, sendMr⟩⟩ ⟨_, rfl⟩ hok
  cases hs
  refine alone_ret ⟨rfl, ?_⟩
  simp [Connected.objects, Handles.objects, held, *]

/-- Whatever the calls answer, each call is safe where it is made, and what is
left in the end is right. -/
def SetsUp (d : Directory) (heap : Option Nat → Bool) : Prop :=
  ∀ (id : Id) (objs : List (Object Held)), IsLive objs (.id id) → ∀ as p t,
    Run.run (Program.step (process heap false)) (setupConnection d id, objs) as = some (p, t) →
      (∀ c, p.next = some c → c.Safe t) ∧ ∀ o, p.outcome = some o → SetUp false objs o t

/-- All calls up to `ibv_post_recv` succeed, and `malloc` has left `x`. -/
def upToPostRecv (x : Option Nat) : List ((c : Call) × c.Answer) :=
  [⟨.mallocConnection, some (⟨0, x⟩ : Malloced)⟩, ⟨.allocPd 0, some (0 : Nat)⟩,
    ⟨.createCompChannel 0, some (0 : Nat)⟩, ⟨.createCq 0 10 0, some (0 : Nat)⟩,
    ⟨.reqNotifyCq 0, Result.ok⟩, ⟨.createQp 0 0 0 10 10, some (0 : Nat)⟩,
    ⟨.malloc 1024, some (0 : Nat)⟩, ⟨.malloc 1024, some (1 : Nat)⟩,
    ⟨.regMr 0 0 1024, some (0 : Nat)⟩, ⟨.regMr 0 1 1024, some (1 : Nat)⟩]

theorem next_upToPostRecv {x : Option Nat} (hx : heap x = true) :
    (Run.run (Program.step (process heap false)) (setupConnection .rdmacm01 0, [⟨.id 0, []⟩])
      (upToPostRecv x)).map (fun y => y.1.next) = some (some (.postRecv 0 ⟨x, 0, 1024, 0⟩)) := by
  have h : (process heap false).effect [⟨.id 0, []⟩] .mallocConnection (some ⟨0, x⟩) =
      some [⟨.id 0, []⟩, ⟨.conn 0, []⟩] := by
    simp [process, liveAfter, hx, add]
  exact congrArg _ (run_call h)

end RdmaTutorial.Establish
