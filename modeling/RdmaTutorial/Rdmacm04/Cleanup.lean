import RdmaTutorial.Rdmacm04.Whole

/-!
# rdmacm04/server.c: what a worker leaves behind

Behind its loop a worker destroys what `setup_connection` has created for its
connection, one call after another, and looks at no return value. The first call
is for the completion channel, on which the completion queue still is built: it
fails as busy, and is not made again. So the worker gives its slot back with the
channel alive.
-/

namespace RdmaTutorial.Rdmacm04

open Function Objects

/-- An object, by the number of the worker it was created for and its address. -/
abbrev Owned := Nat × Handle

/-- What `setup_connection` creates for worker `t`. -/
def ownedObjects (t : Nat) (h : Handles) : List (Object Owned) :=
  h.objects.map fun o => ⟨(t, o.handle), o.uses.map fun d => (t, d)⟩

/-- The order in which `handle_request` destroys them. -/
def cleanupOrder (t : Nat) (h : Handles) : List Owned :=
  [(t, .cc h.cc), (t, .qp h.qp), (t, .cq h.cq), (t, .mr h.sendMr), (t, .mr h.recvMr),
    (t, .buff h.sendBuff), (t, .buff h.recvBuff), (t, .pd h.pd)]

/-- The threads with their connections, and the objects of libibverbs. `handles`
is what `setup_connection` has returned to each worker, `left` the calls of its
cleanup still to come. `calls` is a history variable: the calls made, and whether
they succeeded. -/
structure Cleanup where
  whole : Whole
  handles : Nat → Option Handles
  objs : List (Object Owned)
  left : Nat → List Owned
  calls : Nat → List (Owned × Bool)

namespace Cleanup

inductive Action where
  /-- A step that neither creates nor destroys an object. -/
  | whole (a : Whole.Action)
  /-- Worker `t` calls `setup_connection`. -/
  | setup (t recvId sendId : Nc) (r b : Block) (h : Handles)
  /-- The next call of the cleanup of worker `t`. -/
  | destroy (t : Nat)
  deriving DecidableEq

def initial : Cleanup :=
  { whole := .initial, handles := fun _ => none, objs := [], left := fun _ => [],
    calls := fun _ => [] }

def server (s : Cleanup) : State := s.whole.threads.server

def atTeardown (s : Cleanup) (t : Nat) : Bool :=
  (s.server.workers t).any fun w => w.pc == .teardown

/-- A worker goes on behind its cleanup when it has made all the calls. -/
def free (s : Cleanup) : Whole.Action → Bool
  | .setup .. => false
  | .threads (.worker t _) => !s.atTeardown t || (s.left t).isEmpty
  | _ => true

def step (s : Cleanup) : Action → Option Cleanup
  | .whole a => if s.free a then (s.whole.step a).map fun u => { s with whole := u } else none
  | .setup t recvId sendId r b h =>
    if h.Distinct then
      (s.whole.step (.setup t recvId sendId r b)).map fun u =>
        { s with
          whole := u,
          handles := update s.handles t (some h),
          objs := s.objs ++ ownedObjects t h,
          left := update s.left t (cleanupOrder t h) }
    else none
  | .destroy t =>
    if s.server.status = .running ∧ s.atTeardown t then
      match s.left t with
      | [] => none
      | d :: ds =>
        some { s with
          objs := destroy s.objs d,
          left := update s.left t ds,
          calls := update s.calls t (s.calls t ++ [(d, !decide (Busy s.objs d))]) }
    else none

/-- No object of the connection is alive, and each has been released by one call
that succeeded. -/
def Released (s : Cleanup) (t : Nat) (h : Handles) : Prop :=
  ∀ d ∈ h.all, ¬IsLive s.objs (t, d) ∧ (s.calls t).count ((t, d), true) = 1

end Cleanup

/-! ## Where a step takes a worker -/

/-- The ways out of the loop: ten echoes, a poll that fails, the completion of a
failure, and a queue that cannot be armed. -/
theorem leaves_cases {ρ σ α : Type} {P : Peer ρ σ α} {l : EchoLoop.State σ} {r : Result}
    (hl : l.status = .running) (h : (EchoLoop.exec EchoLoop.rdmacm04 P l r).status = .left) :
    (∃ i, l.pc = .head i ∧ 10 ≤ i) ∨ (∃ i, l.pc = .poll i ∧ r = .fail) ∨
      (∃ i wc, l.pc = .dispatch i wc ∧ wc.status ≠ .success) ∨
        ∃ i, l.pc = .notify i ∧ r = .fail := by
  obtain ⟨status, pc, c, p⟩ := l
  cases hl
  cases pc with
  | head i =>
    refine .inl ⟨i, rfl, ?_⟩
    by_contra hi
    have hlt : i < EchoLoop.rdmacm04.rounds := Nat.lt_of_not_le hi
    simp only [EchoLoop.exec, if_pos hlt] at h
    cases h
  | poll i =>
    cases r with
    | fail => exact .inr (.inl ⟨i, rfl, rfl⟩)
    | ok =>
      simp only [EchoLoop.exec] at h
      split at h <;> cases h
  | dispatch i wc =>
    refine .inr (.inr (.inl ⟨i, wc, rfl, fun hst => ?_⟩))
    simp only [EchoLoop.exec, hst, ne_eq, not_true_eq_false, if_false] at h
    cases hop : wc.opcode <;> simp [hop, EchoLoop.State.goto] at h
  | notify i =>
    cases r with
    | fail => exact .inr (.inr (.inr ⟨i, rfl, rfl⟩))
    | ok => cases h
  | firstRecv | copy | postRecv | postSend =>
    -- These go on in the loop, or end the process.
    simp only [EchoLoop.exec, EchoLoop.State.onConn] at h
    split at h <;> cases h
  | _ => cases r <;> cases h

/-- The cleanup is behind the worker. -/
def WorkerPc.cleaned : WorkerPc → Bool
  | .loadIndex => true
  | .clear _ => true
  | .loadIndexAgain => true
  | .semDestroy _ => true
  | .done => true
  | _ => false

/-- From `p` to `q` the worker executes one statement. -/
structure Follows (p q : WorkerPc) : Prop where
  setup : q ≠ .setup
  cleaned : q.cleaned → p.cleaned ∨ p = .teardown

theorem WorkerMoves.follows {c : Slot} {r : Result} {p q : WorkerPc} (h : WorkerMoves c r p q) :
    Follows p q := by
  cases h <;> constructor <;> simp [WorkerPc.cleaned]

/-- A worker of the next state was there, is new, or has executed a statement. -/
theorem worker_after {s u : State} {a : Action} (h : Step s a u) {t : Nat} {w' : Worker}
    (hw' : u.workers t = some w') :
    s.workers t = some w' ∨ (w'.pc = .setup ∧ t = s.created) ∨
      ∃ w r, a = .worker t r ∧ s.workers t = some w ∧ Follows w.pc w'.pc := by
  have moved : ∀ {v : State} {t' : Nat} {w : Worker} {pc : WorkerPc} {r : Result},
      a = .worker t' r → u = v.workerTo t' w pc → v.workers = s.workers →
        s.workers t' = some w → Follows w.pc pc →
          s.workers t = some w' ∨ (w'.pc = .setup ∧ t = s.created) ∨
            ∃ w r, a = .worker t r ∧ s.workers t = some w ∧ Follows w.pc w'.pc := by
    rintro v t' w pc r rfl rfl hv hw hf
    rcases workerTo_cases hw' with ⟨rfl, rfl⟩ | ⟨-, hw'⟩
    · exact .inr (.inr ⟨w, r, rfl, hw, hf⟩)
    · exact .inl (hv ▸ hw')
  cases h with
  | create hloop =>
    rcases Ownership.update_eq_some.mp hw' with ⟨rfl, ⟨⟩⟩ | ⟨-, hw'⟩
    · exact .inr (.inl ⟨rfl, rfl⟩)
    · exact .inl hw'
  | workerMoves hw hmove => exact moved rfl rfl rfl hw hmove.follows
  | semWait hw hpc =>
    refine moved rfl rfl rfl hw ?_
    exact ⟨by simp, by simp [WorkerPc.cleaned]⟩
  | destroyId hw hpc =>
    refine moved rfl rfl rfl hw ?_
    exact ⟨by simp, by simp [WorkerPc.cleaned]⟩
  | clear hw hpc =>
    refine moved rfl rfl rfl hw ?_
    exact ⟨by simp, by simp [hpc, WorkerPc.cleaned]⟩
  | semDestroy hw hpc =>
    refine moved rfl rfl rfl hw ?_
    exact ⟨by simp, by simp [hpc, WorkerPc.cleaned]⟩
  | _ => exact .inl hw'

/-- No worker goes away, and the next one gets the next number. -/
theorem workers_after {s u : State} {a : Action} (h : Step s a u)
    (hb : ∀ t w, s.workers t = some w → t < s.created) :
    (∀ t, u.workers t = none → s.workers t = none) ∧
      ∀ t w, u.workers t = some w → t < u.created := by
  have moved : ∀ {v : State} {t' : Nat} {w : Worker} {pc : WorkerPc},
      u = v.workerTo t' w pc → v.workers = s.workers → v.created = s.created →
        s.workers t' = some w → (∀ t, u.workers t = none → s.workers t = none) ∧
          ∀ t w, u.workers t = some w → t < u.created := by
    rintro v t' w pc rfl hv hc hw
    constructor
    · intro t ht
      by_cases htt : t = t'
      · subst htt
        simp [State.workerTo, State.setWorker] at ht
      · simpa [State.workerTo, State.setWorker, htt, hv] using ht
    · intro t w' hw'
      show t < v.created
      rw [hc]
      rcases workerTo_cases hw' with ⟨rfl, -⟩ | ⟨-, hw'⟩
      · exact hb t w hw
      · exact hb t w' (hv ▸ hw')
  cases h with
  | create hloop =>
    constructor
    · intro t ht
      by_cases htt : t = s.created
      · subst htt
        simp at ht
      · simpa [htt] using ht
    · exact Ownership.forall_update (fun t w hw => Nat.lt_succ_of_lt (hb t w hw))
        (Nat.lt_succ_self _)
  | workerMoves hw | semWait hw | destroyId hw | clear hw | semDestroy hw =>
    exact moved rfl rfl rfl hw
  | _ => exact ⟨fun _ => id, hb⟩

namespace Whole

/-- Which statement takes worker `t`, in `pc`, to its next one. -/
def Moves (a : Action) (t : Nat) (pc : WorkerPc) : Prop :=
  (∃ r, a = .threads (.worker t r) ∧ pc ≠ .setup) ∨
    (∃ i j r b, a = .setup t i j r b ∧ pc = .setup) ∨ pc.connected

/-- What a step does to the threads. -/
theorem server_step {s u : Whole} {a : Action} (h : s.step a = some u) :
    (u.threads.server.workers = s.threads.server.workers ∧
      u.threads.server.created = s.threads.server.created) ∨
    ∃ b, Rdmacm04.Step s.threads.server b u.threads.server ∧
      ∀ t r w, b = .worker t r → s.threads.server.workers t = some w → Moves a t w.pc := by
  unfold step at h
  split at h
  case isFalse => cases h
  cases a with
  | threads b =>
    simp only at h
    split at h
    case isFalse => cases h
    rename_i hout
    refine .inr ⟨b, (System.step_eq_some (threadStep_eq_some h).1).1, ?_⟩
    rintro t r w rfl hw
    simp only [outside, hw, Option.all_some, Bool.and_eq_true, bne_iff_ne] at hout
    exact .inl ⟨r, rfl, hout.2⟩
  | setup t i j r b =>
    simp only at h
    split at h
    case isFalse => cases h
    rename_i hg
    refine .inr ⟨.worker t .ok, (System.step_eq_some (threadStep_eq_some h).1).1, ?_⟩
    rintro t' r' w ⟨⟩ hw
    simp only [hw, Option.any_some, Bool.and_eq_true, beq_iff_eq] at hg
    exact .inr (.inl ⟨i, j, r, b, rfl, hg.2⟩)
  | exec t r =>
    obtain ⟨w, hw, h⟩ := Option.bind_eq_some_iff.mp h
    obtain ⟨l, -, h⟩ := Option.bind_eq_some_iff.mp h
    split at h
    case isFalse => cases h
    rename_i hconn
    obtain ⟨l', -, h⟩ := Option.bind_eq_some_iff.mp h
    unfold follow at h
    split at h
    · refine .inr ⟨_, (System.step_eq_some (threadStep_eq_some h).1).1, ?_⟩
      rintro t' r' w' ⟨⟩
    · cases h
      exact .inl ⟨rfl, rfl⟩
    · split at h
      · cases h
        exact .inl ⟨rfl, rfl⟩
      · refine .inr ⟨_, (System.step_eq_some (threadStep_eq_some h).1).1, ?_⟩
        rintro t' r' w' ⟨⟩ hw'
        obtain rfl : w = w' := Option.some.inj (hw.symm.trans hw')
        exact .inr (.inr hconn)
  | conn t a =>
    obtain ⟨l, -, h⟩ := Option.bind_eq_some_iff.mp h
    split at h
    · cases h
    · obtain ⟨l', -, rfl⟩ := Option.map_eq_some_iff.mp h
      exact .inl ⟨rfl, rfl⟩

/-- `setup_connection` is the first statement of its worker. -/
theorem setup_step {s u : Whole} {t i j : Nc} {r b : Block}
    (h : s.step (.setup t i j r b) = some u) :
    s.threads.server.status = .running ∧ ∃ w, s.threads.server.workers t = some w ∧
      w.pc = .setup ∧ (u.threads.server = s.threads.server.setStatus .undefined ∨
        u.threads.server = s.threads.server.workerTo t w .accept) := by
  unfold step at h
  split at h
  case isFalse => cases h
  rename_i hrun
  simp only at h
  split at h
  case isFalse => cases h
  rename_i hg
  simp only [Bool.and_eq_true, Option.any_eq_true, beq_iff_eq] at hg
  obtain ⟨w, hw, hpc⟩ := hg.2
  refine ⟨hrun, w, hw, hpc, ?_⟩
  obtain ⟨v, hv, hu⟩ := Option.map_eq_some_iff.mp (threadStep_eq_some h).1
  simp only [setConn, Rdmacm04.step, if_pos hrun, hw, Option.bind_some, workerStep, hpc,
    Option.some.injEq] at hv
  rw [← hu]
  subst hv
  unfold State.withId
  split
  · exact .inl rfl
  · exact .inr rfl

end Whole

namespace Cleanup

/-! ## What is kept -/

/-- What is alive of worker `t`'s connection. -/
def alive (s : Cleanup) (t : Nat) : List (Object Owned) := group (·.1 = t) s.objs

/-- What the cleanup of the connection has done so far: `gone` has been tried. -/
structure Torn (s : Cleanup) (t : Nat) (h : Handles) (gone : List Owned) : Prop where
  distinct : h.Distinct
  order : gone ++ s.left t = cleanupOrder t h
  alive : s.alive t = destroyAll (ownedObjects t h) gone
  calls : s.calls t = destroyLog (ownedObjects t h) gone

structure Kept (s : Cleanup) : Prop where
  bounded : ∀ t w, s.server.workers t = some w → t < s.server.created
  grouped : ∀ o ∈ s.objs, ∀ d ∈ o.uses, d.1 = o.handle.1
  /-- Before `setup_connection` there is nothing to destroy. -/
  unset : ∀ t, s.handles t = none → s.alive t = [] ∧ s.calls t = []
  fresh : ∀ t, s.handles t ≠ none → s.server.workers t ≠ none
  atSetup : s.server.status = .running → ∀ t w, s.server.workers t = some w → w.pc = .setup →
    s.handles t = none
  connected : ∀ t w, s.server.workers t = some w → w.pc ≠ .setup → s.handles t ≠ none
  torn : ∀ t h, s.handles t = some h → ∃ gone, s.Torn t h gone
  cleaned : ∀ t w, s.server.workers t = some w → w.pc.cleaned → s.left t = []

theorem alive_append (s : Cleanup) (t t' : Nat) (h : Handles) :
    group (·.1 = t') (s.objs ++ ownedObjects t h) =
      s.alive t' ++ if t = t' then ownedObjects t h else [] := by
  by_cases ht : t = t' <;> simp [alive, group, ownedObjects, Handles.objects, ht]

theorem fst_of_mem_cleanupOrder {t : Nat} {h : Handles} {d : Owned} (hd : d ∈ cleanupOrder t h) :
    d.1 = t := by
  simp only [cleanupOrder, List.mem_cons, List.not_mem_nil, or_false] at hd
  rcases hd with rfl | rfl | rfl | rfl | rfl | rfl | rfl | rfl <;> rfl

namespace Kept

variable {s : Cleanup}

theorem initial : Kept .initial where
  bounded := by simp [server, Cleanup.initial, Whole.initial, System.initial, State.initial]
  grouped := by simp [Cleanup.initial]
  unset := by simp [Cleanup.initial, alive, group]
  fresh := by simp [Cleanup.initial]
  atSetup := by simp [server, Cleanup.initial, Whole.initial, System.initial, State.initial]
  connected := by simp [server, Cleanup.initial, Whole.initial, System.initial, State.initial]
  torn := by simp [Cleanup.initial]
  cleaned := by simp [server, Cleanup.initial, Whole.initial, System.initial, State.initial]

/-- The workers stay, and go on with the objects as they are. -/
theorem whole (hs : Kept s) {a : Whole.Action} {u : Whole} (hfree : s.free a)
    (h : s.whole.step a = some u) : Kept { s with whole := u } := by
  have hrun : s.server.status = .running := by
    unfold Whole.step at h
    split at h
    · assumption
    · cases h
  have torn : ∀ t h, s.handles t = some h → ∃ gone, Torn { s with whole := u } t h gone := by
    intro t h hh
    obtain ⟨gone, ht⟩ := hs.torn t h hh
    exact ⟨gone, ht.distinct, ht.order, ht.alive, ht.calls⟩
  rcases Whole.server_step h with ⟨hw, hc⟩ | ⟨b, hb, hmoves⟩
  · exact {
      bounded := fun t w ht => hc ▸ hs.bounded t w (hw ▸ ht)
      grouped := hs.grouped
      unset := hs.unset
      fresh := fun t ht => hw ▸ hs.fresh t ht
      atSetup := fun _ t w ht => hs.atSetup hrun t w (hw ▸ ht)
      connected := fun t w ht => hs.connected t w (hw ▸ ht)
      torn := torn
      cleaned := fun t w ht => hs.cleaned t w (hw ▸ ht) }
  · have hafter := workers_after hb hs.bounded
    exact {
      bounded := hafter.2
      grouped := hs.grouped
      unset := hs.unset
      fresh := fun t ht hnone => hs.fresh t ht (hafter.1 t hnone)
      atSetup := by
        intro _ t w' hw' hpc
        rcases worker_after hb hw' with hw | ⟨-, rfl⟩ | ⟨w, r, -, -, hf⟩
        · exact hs.atSetup hrun t w' hw hpc
        · by_contra hne
          obtain ⟨w, hw⟩ := Option.ne_none_iff_exists'.mp (hs.fresh _ hne)
          exact Nat.lt_irrefl _ (hs.bounded _ w hw)
        · exact absurd hpc hf.setup
      connected := by
        intro t w' hw' hpc
        rcases worker_after hb hw' with hw | ⟨hnew, -⟩ | ⟨w, r, rfl, hw, -⟩
        · exact hs.connected t w' hw hpc
        · exact absurd hnew hpc
        · rcases hmoves t r w rfl hw with ⟨-, -, hne⟩ | ⟨i, j, r', b', rfl, -⟩ | hconn
          · exact hs.connected t w hw hne
          · cases hfree
          · refine hs.connected t w hw ?_
            intro heq
            rw [heq] at hconn
            cases hconn
      torn := torn
      cleaned := by
        intro t w' hw' hpc
        rcases worker_after hb hw' with hw | ⟨hnew, -⟩ | ⟨w, r, rfl, hw, hf⟩
        · exact hs.cleaned t w' hw hpc
        · rw [hnew] at hpc
          cases hpc
        · rcases hf.cleaned hpc with hcl | hteardown
          · exact hs.cleaned t w hw hcl
          · -- It goes on behind the cleanup only when no call is left.
            rcases hmoves t r w rfl hw with ⟨r', rfl, -⟩ | ⟨_, _, _, _, -, hsetup⟩ | hconn
            · have hat : s.atTeardown t = true := by
                simp [atTeardown, server, hw, hteardown]
              simpa [free, hat] using hfree
            · cases hsetup.symm.trans hteardown
            · rw [hteardown] at hconn
              cases hconn }

theorem setup (hs : Kept s) {t i j : Nc} {r b : Block} {h : Handles} {u : Whole}
    (hd : h.Distinct) (hu : s.whole.step (.setup t i j r b) = some u) :
    Kept { s with
      whole := u,
      handles := update s.handles t (some h),
      objs := s.objs ++ ownedObjects t h,
      left := update s.left t (cleanupOrder t h) } := by
  obtain ⟨hrun, w, hw, hpc, hserver⟩ := Whole.setup_step hu
  have hnone : s.handles t = none := hs.atSetup hrun t w hw hpc
  obtain ⟨halive, hcalls⟩ := hs.unset t hnone
  have hcreated : u.threads.server.created = s.server.created := by
    rcases hserver with hv | hv <;> rw [hv] <;> rfl
  have hothers : ∀ t', t' ≠ t → u.threads.server.workers t' = s.server.workers t' := by
    intro t' hne
    rcases hserver with hv | hv
    · rw [hv]; rfl
    · rw [hv]
      simp [State.workerTo, State.setWorker, hne, server]
  have hself : ∃ w', u.threads.server.workers t = some w' ∧ w'.pc.cleaned = false ∧
      (u.threads.server.status = .running → w'.pc ≠ .setup) := by
    rcases hserver with hv | hv
    · refine ⟨w, by rw [hv]; exact hw, by simp [hpc, WorkerPc.cleaned], fun hst => ?_⟩
      rw [hv] at hst
      cases hst
    · refine ⟨{ w with pc := .accept }, by rw [hv]; exact update_self .., rfl, by simp⟩
  obtain ⟨v, hv, hvcl, hvpc⟩ := hself
  exact {
    bounded := by
      intro t' w' hw'
      show t' < u.threads.server.created
      rw [hcreated]
      by_cases htt : t' = t
      · subst htt
        exact hs.bounded t' w hw
      · exact hs.bounded t' w' (hothers t' htt ▸ hw')
    grouped := by
      intro o ho d hd'
      rcases List.mem_append.mp ho with ho | ho
      · exact hs.grouped o ho d hd'
      · simp only [ownedObjects, List.mem_map] at ho
        obtain ⟨o', -, rfl⟩ := ho
        obtain ⟨d', -, rfl⟩ := List.mem_map.mp hd'
        rfl
    unset := by
      intro t' ht'
      have hne : t' ≠ t := by
        rintro rfl
        simp at ht'
      obtain ⟨ha, hc⟩ := hs.unset t' (by simpa [hne] using ht')
      refine ⟨?_, hc⟩
      show group (·.1 = t') (s.objs ++ ownedObjects t h) = []
      rw [alive_append, ha, if_neg (Ne.symm hne)]
      rfl
    fresh := by
      intro t' ht'
      by_cases htt : t' = t
      · subst htt
        simp [server, hv]
      · have hold := hs.fresh t' (by simpa [htt] using ht')
        exact hothers t' htt ▸ hold
    atSetup := by
      intro hst t' w' hw' hpc'
      by_cases htt : t' = t
      · subst htt
        obtain rfl : v = w' := Option.some.inj (hv.symm.trans hw')
        exact absurd hpc' (hvpc hst)
      · simpa [htt] using hs.atSetup hrun t' w' (hothers t' htt ▸ hw') hpc'
    connected := by
      intro t' w' hw' hpc'
      by_cases htt : t' = t
      · simp [htt]
      · simpa [htt] using hs.connected t' w' (hothers t' htt ▸ hw') hpc'
    torn := by
      intro t' h' hh'
      by_cases htt : t' = t
      · subst htt
        obtain rfl : h = h' := by simpa using hh'
        refine ⟨[], hd, by simp, ?_, by simpa [destroyLog] using hcalls⟩
        show group (·.1 = t') (s.objs ++ ownedObjects t' h) = _
        rw [alive_append, halive, if_pos rfl]
        rfl
      · obtain ⟨gone, ht⟩ := hs.torn t' h' (by simpa [htt] using hh')
        refine ⟨gone, ht.distinct, by simpa [htt] using ht.order, ?_, ht.calls⟩
        show group (·.1 = t') (s.objs ++ ownedObjects t h) = _
        rw [alive_append, ht.alive, if_neg (Ne.symm htt), List.append_nil]
    cleaned := by
      intro t' w' hw' hcl
      by_cases htt : t' = t
      · subst htt
        obtain rfl : v = w' := Option.some.inj (hv.symm.trans hw')
        rw [hvcl] at hcl
        cases hcl
      · simpa [htt] using hs.cleaned t' w' (hothers t' htt ▸ hw') hcl }

theorem destroy (hs : Kept s) {t : Nat} {d : Owned} {ds : List Owned}
    (ht : s.atTeardown t) (hleft : s.left t = d :: ds) :
    Kept { s with
      objs := Objects.destroy s.objs d,
      left := update s.left t ds,
      calls := update s.calls t (s.calls t ++ [(d, !decide (Busy s.objs d))]) } := by
  obtain ⟨w, hw, hpc⟩ : ∃ w, s.server.workers t = some w ∧ w.pc = .teardown := by
    simpa [atTeardown, Option.any_eq_true] using ht
  obtain ⟨h, hh⟩ := Option.ne_none_iff_exists'.mp (hs.connected t w hw (by simp [hpc]))
  obtain ⟨gone, htorn⟩ := hs.torn t h hh
  have hown : d.1 = t := by
    apply fst_of_mem_cleanupOrder (h := h)
    rw [← htorn.order, hleft]
    simp
  have hgroup : ∀ t', ∀ o ∈ s.objs, ∀ x ∈ o.uses, x.1 = t' → o.handle.1 = t' :=
    fun t' o ho x hx heq => (hs.grouped o ho x hx).symm.trans heq
  have hothers : ∀ t', t' ≠ t → group (·.1 = t') (Objects.destroy s.objs d) = s.alive t' :=
    fun t' hne => group_destroy_of_not fun heq => hne (heq.symm.trans hown)
  exact {
    bounded := hs.bounded
    grouped := fun o ho => hs.grouped o (mem_destroy ho)
    unset := by
      intro t' ht'
      have hne : t' ≠ t := by
        rintro rfl
        simp [hh] at ht'
      obtain ⟨halive, hcalls⟩ := hs.unset t' ht'
      exact ⟨(hothers t' hne).trans halive, by simpa [hne] using hcalls⟩
    fresh := hs.fresh
    atSetup := hs.atSetup
    connected := hs.connected
    torn := by
      intro t' h' hh'
      by_cases htt : t' = t
      · subst htt
        obtain rfl : h = h' := Option.some.inj (hh.symm.trans hh')
        refine ⟨gone ++ [d], htorn.distinct, ?_, ?_, ?_⟩
        · simpa [hleft] using htorn.order
        · show group (·.1 = t') (Objects.destroy s.objs d) = _
          rw [group_destroy (hgroup t') hown, destroyAll_append, ← htorn.alive]
          rfl
        · have hbusy : Busy (s.alive t') d ↔ Busy s.objs d := busy_group (hgroup t') hown
          rw [destroyLog_append, ← htorn.alive, ← htorn.calls]
          simp [destroyLog, hbusy]
      · obtain ⟨gone', htorn'⟩ := hs.torn t' h' hh'
        exact ⟨gone', htorn'.distinct, by simpa [htt] using htorn'.order,
          (hothers t' htt).trans htorn'.alive, by simpa [htt] using htorn'.calls⟩
    cleaned := by
      intro t' w' hw' hcl
      by_cases htt : t' = t
      · subst htt
        obtain rfl : w = w' := Option.some.inj (hw.symm.trans hw')
        rw [hpc] at hcl
        cases hcl
      · simpa [htt] using hs.cleaned t' w' hw' hcl }

theorem step (hs : Kept s) {a : Action} {u : Cleanup} (h : s.step a = some u) : Kept u := by
  cases a with
  | whole a =>
    simp only [Cleanup.step] at h
    split at h
    · obtain ⟨v, hv, rfl⟩ := Option.map_eq_some_iff.mp h
      exact hs.whole ‹_› hv
    · cases h
  | setup t i j r b hd =>
    simp only [Cleanup.step] at h
    split at h
    · obtain ⟨v, hv, rfl⟩ := Option.map_eq_some_iff.mp h
      exact hs.setup ‹_› hv
    · cases h
  | destroy t =>
    simp only [Cleanup.step] at h
    split at h
    · rename_i hg
      split at h
      · cases h
      · rename_i d ds hleft
        cases h
        exact hs.destroy hg.2 hleft
    · cases h

end Kept

/-! ## The whole of the cleanup -/

/-- The channel is the only object left, and the only one whose call has failed. -/
theorem destroyAll_cleanupOrder (t : Nat) {h : Handles} (hd : h.Distinct) :
    destroyAll (ownedObjects t h) (cleanupOrder t h) = [⟨(t, .cc h.cc), []⟩] ∧
      destroyLog (ownedObjects t h) (cleanupOrder t h) =
        (cleanupOrder t h).map fun d => (d, decide (d ≠ (t, .cc h.cc))) := by
  have hr : h.recvMr ≠ h.sendMr := hd.2
  have hb : h.recvBuff ≠ h.sendBuff := hd.1
  constructor
  · simp [ownedObjects, cleanupOrder, Handles.objects, destroyAll, destroy, Busy, hr, hb]
  · simp [ownedObjects, cleanupOrder, Handles.objects, destroyLog, destroy, Busy, hr, hb]

theorem kept_run {as : List Action} {s : Cleanup} (h : Run.run step .initial as = some s) :
    Kept s :=
  Run.run_invariant (fun _ _ _ hs h => hs.step h) h .initial

theorem alive_of_cleaned {s : Cleanup} (hs : Kept s) {t : Nat} {w : Worker}
    (hw : s.server.workers t = some w) (hcl : w.pc.cleaned) : ∃ h, s.handles t = some h ∧
      h.Distinct ∧ s.alive t = [⟨(t, .cc h.cc), []⟩] ∧
        s.calls t = (cleanupOrder t h).map fun d => (d, decide (d ≠ (t, .cc h.cc))) := by
  have hpc : w.pc ≠ .setup := by
    intro heq
    rw [heq] at hcl
    cases hcl
  obtain ⟨h, hh⟩ := Option.ne_none_iff_exists'.mp (hs.connected t w hw hpc)
  obtain ⟨gone, ht⟩ := hs.torn t h hh
  -- Nothing is left to do, so all of the order has been tried.
  have horder : gone = cleanupOrder t h := by
    simpa [hs.cleaned t w hw hcl] using ht.order
  obtain ⟨hobjs, hlog⟩ := destroyAll_cleanupOrder t ht.distinct
  exact ⟨h, hh, ht.distinct, by rw [ht.alive, horder, hobjs], by rw [ht.calls, horder, hlog]⟩

/-- For every number of connections, in every interleaving, and whichever way the
workers leave their loops: a worker that has given its slot back has not released
everything. Its completion channel is alive, and no call for it has succeeded;
every other object has been released, by one call. -/
theorem only_channel_left {as : List Action} {s : Cleanup}
    (hrun : Run.run step .initial as = some s) {t : Nat} {w : Worker}
    (hw : s.server.workers t = some w) (hslot : w.pc.serving = false) :
    ∃ h, s.handles t = some h ∧ ¬s.Released t h ∧ ∀ d ∈ h.all,
      (IsLive s.objs (t, d) ↔ d = .cc h.cc) ∧
        (s.calls t).count ((t, d), true) = if d = .cc h.cc then 0 else 1 := by
  have hcl : w.pc.cleaned := by cases hpc : w.pc <;> simp_all [WorkerPc.serving, WorkerPc.cleaned]
  obtain ⟨h, hh, hd, halive, hcalls⟩ := alive_of_cleaned (kept_run hrun) hw hcl
  have hlive : ∀ d, IsLive s.objs (t, d) ↔ d = .cc h.cc := by
    intro d
    rw [← isLive_group (g := (·.1 = t)) rfl]
    show IsLive (s.alive t) (t, d) ↔ _
    simp [halive, IsLive, eq_comm]
  refine ⟨h, hh, fun hrel => ?_, fun d hmem => ⟨hlive d, ?_⟩⟩
  · exact (hrel _ h.cc_mem_all).1 ((hlive _).mpr rfl)
  · have hr : h.recvMr ≠ h.sendMr := hd.2
    have hb : h.recvBuff ≠ h.sendBuff := hd.1
    simp only [Handles.all, Handles.objects, List.map_cons, List.map_nil, List.mem_cons,
      List.not_mem_nil, or_false] at hmem
    rw [hcalls]
    rcases hmem with rfl | rfl | rfl | rfl | rfl | rfl | rfl | rfl <;>
      simp [cleanupOrder, hr, hb, hr.symm, hb.symm]

/-- A connection from its request to the moment its worker, whose poll has failed,
has stored NULL in its slot. -/
def session : List Action :=
  (request 100 0 0).map (fun a => .whole (.threads a)) ++
    [.setup 0 0 0 zeros zeros ⟨0, 0, 0, 0, 0, 1, 0, 1⟩] ++ .replicate 4 (.whole (.exec 0 .ok)) ++
    [.cmEvent ⟨.established, 100, 0⟩, .loop .ok, .loop .ok, .loop .ok].map
      (fun a => .whole (.threads a)) ++
    .replicate 3 (.whole (.exec 0 .ok)) ++ [.whole (.exec 0 .fail)] ++
    .replicate 2 (.whole (.threads (.worker 0 .ok))) ++ .replicate 8 (.destroy 0) ++
    .replicate 3 (.whole (.threads (.worker 0 .ok)))

theorem only_channel_left_session : ∃ s w, Run.run step .initial session = some s ∧
    s.server.workers 0 = some w ∧ ∃ h, s.handles 0 = some h ∧ ¬s.Released 0 h ∧ ∀ d ∈ h.all,
      (IsLive s.objs (0, d) ↔ d = .cc h.cc) ∧
        (s.calls 0).count ((0, d), true) = if d = .cc h.cc then 0 else 1 := by
  have hrun : ∃ s ∈ Run.run step .initial session, ∃ w ∈ s.server.workers 0,
      w.pc.serving = false := by decide +kernel
  obtain ⟨s, hs, w, hw, hslot⟩ := hrun
  exact ⟨s, w, hs, hw, only_channel_left hs hw hslot⟩

/-- The channel of the first connection is alive when its slot is free. -/
theorem channel_left : ∃ s ∈ Run.run step .initial session, ∃ w ∈ s.server.workers 0,
    ∃ h ∈ s.handles 0, w.pc.serving = false ∧ (s.server.slots 0).id = none ∧
      IsLive s.objs (0, .cc h.cc) ∧ ((0, .cc h.cc), false) ∈ s.calls 0 := by
  decide +kernel

end Cleanup

end RdmaTutorial.Rdmacm04
