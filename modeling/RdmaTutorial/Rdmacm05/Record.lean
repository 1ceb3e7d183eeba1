import RdmaTutorial.Rdmacm05.Calls

/-!
# rdmacm05: what a completion causes

`handle_cq_event` logs a completion whose status is not `IBV_WC_SUCCESS` and then
goes by its opcode, as with any other. So a completion that has failed is echoed
when its opcode is `IBV_WC_RECV`: what `recv_buff` holds is sent again, and the
receive posted again, although no message has come. With any other opcode it
causes nothing.
-/

namespace RdmaTutorial.Rdmacm05

open Verbs

variable {ρ σ α : Type} {P : Peer ρ σ α}

/-- What the `for` loop does for a connection. -/
inductive Handling where
  /-- It turns to a completion. -/
  | turns (wc : Wc Nc)
  /-- `strcpy` to `send_buff`. -/
  | copies
  /-- `ibv_post_recv`. -/
  | reposts
  /-- `ibv_post_send`. -/
  | sends
  deriving DecidableEq, Repr

/-- What the thread does for `c` by the statement it is at. -/
def Thread.handling (c : Nc) : Thread → List Handling
  | .cqEvent cc (.dispatch (wc :: _)) => if cc = c then [.turns wc] else []
  | .cqEvent _ (.copy nc _) => if nc = c then [.copies] else []
  | .cqEvent _ (.postRecv nc _) => if nc = c then [.reposts] else []
  | .cqEvent _ (.postSend nc _) => if nc = c then [.sends] else []
  | _ => []

/-- What a step does for `c`: a statement that ends the process does nothing. -/
def recorded (c : Nc) (s t : State σ) : Action ρ α → List Handling
  | .server _ => if t.status = .running then s.thread.handling c else []
  | _ => []

/-- `CONNECT_REQUEST` of the connection that will be at address `c`. -/
def Opens (c : Nc) : Action ρ α → Prop
  | .connect nc _ _ _ => nc = c
  | _ => False

instance (c : Nc) : DecidablePred (Opens c : Action ρ α → Prop)
  | .connect nc _ _ _ => inferInstanceAs (Decidable (nc = c))
  | .disconnect _ | .cqEvent _ | .server _ | .poll _ | .hca .. | .toServer .. | .toPeer _
  | .peer .. => .isFalse id

/-- The server, with a record of what its loop has done for each connection since
it was opened, oldest first. -/
structure Recorded (σ : Type) where
  server : State σ
  record : Nc → List Handling

namespace Recorded

def initial (heap : Nat → Block) : Recorded σ := ⟨.initial heap, fun _ => []⟩

def step (P : Peer ρ σ α) (s : Recorded σ) (a : Action ρ α) : Option (Recorded σ) :=
  (Rdmacm05.step P s.server a).map fun t =>
    ⟨t, fun c => if Opens c a then [] else s.record c ++ recorded c s.server t a⟩

end Recorded

/-- The three statements of `case IBV_WC_RECV`. -/
def echo : List Handling := [.copies, .reposts, .sends]

/-- What the loop does with a completion. -/
def caused (wc : Wc Nc) : List Handling := .turns wc :: if wc.opcode = .recv then echo else []

/-- What it should do: echo a message that has arrived, and nothing else. -/
def owed (wc : Wc Nc) : List Handling :=
  .turns wc :: if wc.status = .success ∧ wc.opcode = .recv then echo else []

/-- What is left of `case IBV_WC_RECV`, when the thread is in it for `c`. -/
def Thread.due (c : Nc) : Thread → List Handling
  | .cqEvent _ (.copy nc _) => if nc = c then echo else []
  | .cqEvent _ (.postRecv nc _) => if nc = c then [.reposts, .sends] else []
  | .cqEvent _ (.postSend nc _) => if nc = c then [.sends] else []
  | _ => []

/-- For each connection, what the loop has done and is about to do is what the
completions it has turned to have caused. -/
def Caused (s : Recorded σ) : Prop :=
  ∀ c l, s.server.links c = some l →
    s.record c ++ s.server.thread.due c = l.handled.flatMap caused

/-! ## The record -/

theorem due_dispatchPc {cc c : Nc} {wc : Wc Nc} (hwc : wc.wrId = cc) (wcs : List (Wc Nc)) :
    (Thread.cqEvent cc (dispatchPc wc wcs)).due c =
      if cc = c ∧ wc.opcode = .recv then echo else [] := by
  unfold dispatchPc
  cases h : wc.opcode <;> simp [Thread.due, hwc]

/-- A step that turns to no completion does what was due. -/
theorem Caused.advance {s : Recorded σ} {t : State σ} {a : Action ρ α} (hs : Caused s)
    (hopen : ∀ c, ¬Opens c a)
    (hdue : ∀ c, s.server.thread.due c = recorded c s.server t a ++ t.thread.due c)
    (hlinks : ∀ c l, t.links c = some l → ∃ k, s.server.links c = some k ∧
      k.handled = l.handled) :
    Caused ⟨t, fun c => if Opens c a then [] else s.record c ++ recorded c s.server t a⟩ := by
  intro c l hl
  obtain ⟨k, hk, hh⟩ := hlinks c l hl
  have hc := hs c k hk
  rw [hdue, ← List.append_assoc] at hc
  show (if Opens c a then [] else _) ++ t.thread.due c = _
  rw [if_neg (hopen c), hc, hh]

theorem links_setLink {s : State σ} {cc : Nc} {k k' : Link σ} (hk : s.links cc = some k)
    (hh : k.handled = k'.handled) (c : Nc) (l : Link σ) (hl : (s.setLink cc k').links c = some l) :
    ∃ k, s.links c = some k ∧ k.handled = l.handled := by
  by_cases hc : c = cc
  · subst hc
    obtain rfl : k' = l := by simpa [State.setLink] using hl
    exact ⟨k, hk, hh⟩
  · exact ⟨l, by simpa [State.setLink, hc] using hl, rfl⟩

/-- A statement of the thread at `th` does what was due there. -/
theorem Caused.statement {s : Recorded σ} {t : State σ} {th : Thread} {r : Result} (hs : Caused s)
    (hthread : s.server.thread = th) (hrun : t.status = .running)
    (hdue : ∀ c, th.due c = th.handling c ++ t.thread.due c)
    (hlinks : ∀ c l, t.links c = some l → ∃ k, s.server.links c = some k ∧
      k.handled = l.handled) :
    Caused ⟨t, fun c => if Opens c (.server r : Action ρ α) then []
      else s.record c ++ recorded c s.server t (.server r : Action ρ α)⟩ := by
  refine hs.advance (fun _ => id) (fun c => ?_) hlinks
  rw [recorded, if_pos hrun, hthread]
  exact hdue c

/-- A statement that ends the process does nothing. -/
theorem Caused.ended {s : Recorded σ} {t : State σ} {r : Result} (hs : Caused s)
    (hthread : t.thread = s.server.thread) (hst : t.status ≠ .running)
    (hlinks : t.links = s.server.links) :
    Caused ⟨t, fun c => if Opens c (.server r : Action ρ α) then []
      else s.record c ++ recorded c s.server t (.server r : Action ρ α)⟩ := by
  refine hs.advance (fun _ => id) (fun c => ?_) fun c l hl => ⟨l, hlinks ▸ hl, rfl⟩
  rw [recorded, if_neg hst, hthread, List.nil_append]

/-- The three statements of `case IBV_WC_RECV` are done one by one. -/
theorem due_echo (cc nc : Nc) (wcs : List (Wc Nc)) (c : Nc) :
    ((Thread.cqEvent cc (.copy nc wcs)).due c =
      (Thread.cqEvent cc (.copy nc wcs)).handling c ++
        (Thread.cqEvent cc (.postRecv nc wcs)).due c) ∧
    ((Thread.cqEvent cc (.postRecv nc wcs)).due c =
      (Thread.cqEvent cc (.postRecv nc wcs)).handling c ++
        (Thread.cqEvent cc (.postSend nc wcs)).due c) ∧
    (Thread.cqEvent cc (.postSend nc wcs)).due c =
      (Thread.cqEvent cc (.postSend nc wcs)).handling c ++
        (Thread.cqEvent cc (.dispatch wcs)).due c := by
  by_cases hc : nc = c <;> simp [Thread.due, Thread.handling, echo, hc]

theorem caused_step {s t : Recorded σ} {a : Action ρ α} (htag : Tagged s.server) (hs : Caused s)
    (h : Recorded.step P s a = some t) : Caused t := by
  obtain ⟨u, hu, rfl⟩ := Option.map_eq_some_iff.mp h
  have hok := htag.thread
  have hrun := step_running hu
  have links : ∀ c l, s.server.links c = some l →
      ∃ k, s.server.links c = some k ∧ k.handled = l.handled := fun c l hl => ⟨l, hl, rfl⟩
  cases Step.of_step hu with
  | @connect nc i j x r b hthread hnew =>
    intro c l hl
    by_cases hc : c = nc
    · subst hc
      simp only [State.goto, State.setLink, Function.update_self, Option.some.injEq] at hl
      subst hl
      simp [Opens, State.goto, Thread.due]
    · have hk : s.server.links c = some l := by simpa [State.goto, State.setLink, hc] using hl
      simpa [Opens, Ne.symm hc, recorded, State.goto, Thread.due, hthread] using hs c l hk
  | disconnect hthread hl =>
    refine hs.advance (fun _ => id) (fun _ => rfl) fun c l hl' => ?_
    simp only [State.release, Function.update_apply] at hl'
    split at hl'
    · cases hl'
    · exact links c l hl'
  | setupArm hthread hl | firstRecv hthread hl | accept hthread hl | arm hthread hl =>
    exact hs.statement hthread (hrun trivial) (fun _ => rfl) (links_setLink hl rfl)
  | createQp hthread | register hthread | ack hthread | done hthread | armFails hthread
  | pollFails hthread =>
    exact hs.statement hthread (hrun trivial) (fun _ => rfl) links
  | setupFails | firstRecvFails => exact hs.ended rfl (by simp [State.die]) rfl
  | pollEmpty hthread =>
    exact hs.advance (fun _ => id) (fun c => by rw [hthread]; rfl) links
  | cqEvent hthread hl | poll hthread hl =>
    exact hs.advance (fun _ => id) (fun c => by rw [hthread]; rfl) (links_setLink hl rfl)
  | @dispatch cc l wc wcs r hthread hl =>
    rw [hthread] at hok
    have hdue : ∀ c, (Thread.cqEvent cc (dispatchPc wc wcs)).due c =
        if cc = c ∧ wc.opcode = .recv then echo else [] :=
      fun c => due_dispatchPc (hok.2 wc (by simp)) wcs
    intro c k hk
    show s.record c ++ (if s.server.status = .running then s.server.thread.handling c else []) ++
      (Thread.cqEvent cc (dispatchPc wc wcs)).due c = _
    rw [hdue, if_pos (hrun trivial), hthread]
    by_cases hc : cc = c
    · subst hc
      obtain rfl : { l with handled := l.handled ++ [wc] } = k := by
        simpa [State.goto, State.setLink] using hk
      have he := hs cc l hl
      simp only [hthread, Thread.due, List.append_nil] at he
      simp [Thread.handling, he, caused]
    · have hk' : s.server.links c = some k := by
        simpa [State.goto, State.setLink, Ne.symm hc] using hk
      simpa [hthread, Thread.handling, Thread.due, hc] using hs c k hk'
  | copy hthread hl =>
    exact hs.statement hthread (hrun trivial) (fun c => (due_echo _ _ _ c).1)
      (links_setLink hl rfl)
  | postRecv hthread hl =>
    exact hs.statement hthread (hrun trivial) (fun c => (due_echo _ _ _ c).2.1)
      (links_setLink hl rfl)
  | postSend hthread hl =>
    exact hs.statement hthread (hrun trivial) (fun c => (due_echo _ _ _ c).2.2)
      (links_setLink hl rfl)
  | copyFails | stray => exact hs.ended rfl (by simp) rfl
  | postRecvFails | postSendFails => exact hs.ended rfl (by simp [State.die]) rfl
  | hca hl | toServer hl | toPeer hl | peer hl =>
    exact hs.advance (fun _ => id) (fun _ => rfl) (links_setLink hl rfl)

/-- The record is kept beside the server, and changes nothing about it. -/
theorem run_recorded (heap : Nat → Block) (as : List (Action ρ α)) :
    (Run.run (Recorded.step P) (Recorded.initial heap) as).map Recorded.server =
      Run.run (step P) (State.initial heap) as :=
  Run.run_map (fun s a => by simp [Recorded.step, Function.comp_def]) _ as

theorem caused_run {heap : Nat → Block} {as : List (Action ρ α)} {s : Recorded σ}
    (hrun : Run.run (Recorded.step P) (Recorded.initial heap) as = some s) : Caused s := by
  have hinv : Tagged s.server ∧ Caused s := by
    apply Run.run_invariant (I := fun s : Recorded σ => Tagged s.server ∧ Caused s) _ hrun
    · exact ⟨tagged_initial, fun c l hl => by cases hl⟩
    · intro s a t hs h
      obtain ⟨u, hu, rfl⟩ := Option.map_eq_some_iff.mp h
      exact ⟨tagged_step hs.1 hu, caused_step hs.1 hs.2 h⟩
  exact hinv.2

/-- `send_buff` is as it was, and nothing has been posted. -/
structure Quiet (c c' : Connection) : Prop where
  sendBuff : c'.sendBuff = c.sendBuff
  sends : c'.ep.sq.length ≤ c.ep.sq.length
  recvs : c'.ep.rq.length ≤ c.ep.rq.length

theorem Quiet.refl (c : Connection) : Quiet c c := ⟨rfl, Nat.le_refl _, Nat.le_refl _⟩

theorem Quiet.hca {c c' : Connection} {m : Hca} (h : c.hca m = some c') : Quiet c c' := by
  obtain ⟨e, he, rfl⟩ := Connection.hca_eq_some h
  exact ⟨rfl, Endpoint.length_sq_hca he, Endpoint.length_rq_hca he⟩

theorem Quiet.delivered (c : Connection) : Quiet c c.delivered := by
  cases hq : c.ep.sq with
  | nil => simpa [Connection.delivered, Endpoint.delivered, hq] using Quiet.refl c
  | cons x q =>
    rw [Connection.delivered, Endpoint.delivered_of_sq hq]
    exact ⟨rfl, by simp [hq], Nat.le_refl _⟩

theorem Quiet.receive {c : Connection} (h : c.ep.ready = true) (opcode : WcOpcode) (p : Payload) :
    Quiet c (c.receive opcode p) := by
  obtain ⟨-, w, q, hq⟩ := Endpoint.ready_eq_true h
  obtain ⟨wc, f, hep⟩ := Connection.receive_ep hq opcode p
  exact ⟨rfl, by simp [hep], by simp [hep, hq]⟩

theorem quiet_setLink {s : State σ} {c cc : Nc} {k k' l l' : Link σ} (hk : s.links cc = some k)
    (hl : s.links c = some l) (hl' : (s.setLink cc k').links c = some l')
    (hq : cc = c → Quiet k.conn k'.conn) : Quiet l.conn l'.conn := by
  by_cases hc : cc = c
  · subst hc
    obtain rfl : k' = l' := by simpa [State.setLink] using hl'
    obtain rfl : k = l := Option.some.inj (hk.symm.trans hl)
    exact hq rfl
  · have hsame : s.links c = some l' := by simpa [State.setLink, Ne.symm hc] using hl'
    obtain rfl : l = l' := Option.some.inj (hl.symm.trans hsame)
    exact .refl _

/-- What is recorded is all there is: a step of which nothing is recorded is quiet,
but for the first receive of `setup_connection`. -/
theorem quiet_of_unrecorded {s t : State σ} {a : Action ρ α} (h : step P s a = some t) {c : Nc}
    {l l' : Link σ} (hl : s.links c = some l) (hl' : t.links c = some l')
    (hno : recorded c s t a = []) (hsetup : s.thread ≠ .setup c .postRecv) :
    Quiet l.conn l'.conn := by
  have same : s.links c = some l' → Quiet l.conn l'.conn := by
    intro hs
    obtain rfl : l = l' := Option.some.inj (hl.symm.trans hs)
    exact .refl _
  cases Step.of_step h with
  | @connect nc _ _ _ _ _ _ hnew =>
    have hc : c ≠ nc := by
      rintro rfl
      simp [hnew] at hl
    exact same (by simpa [State.goto, State.setLink, hc] using hl')
  | disconnect hthread hk =>
    simp only [State.release, Function.update_apply] at hl'
    split at hl'
    · cases hl'
    · exact same hl'
  | setupArm _ hk | cqEvent _ hk | arm _ hk | poll _ hk =>
    exact quiet_setLink hk hl hl' fun _ => ⟨rfl, Nat.le_refl _, Nat.le_refl _⟩
  | firstRecv hthread hk =>
    refine quiet_setLink hk hl hl' fun hc => ?_
    subst hc
    exact absurd hthread hsetup
  | accept _ hk | dispatch _ hk => exact quiet_setLink hk hl hl' fun _ => .refl _
  | copy hthread hk | postRecv hthread hk | postSend hthread hk =>
    -- These are recorded for the connection they are about.
    refine quiet_setLink hk hl hl' fun hc => ?_
    simp [recorded, step_running h trivial, hthread, Thread.handling, hc, State.goto,
      State.setConn, State.setLink] at hno
  | hca hk hm => exact quiet_setLink hk hl hl' fun _ => .hca hm
  | toServer hk _ hready => exact quiet_setLink hk hl hl' fun _ => .receive hready _ _
  | toPeer hk => exact quiet_setLink hk hl hl' fun _ => .delivered _
  | peer hk => exact quiet_setLink hk hl hl' fun _ => .refl _
  | _ => exact same hl'

/-! ## What a completion should cause -/

/-- What the loop does is what it should do as long as no completion that has
failed has the opcode of a receive. -/
theorem flatMap_caused_eq_owed (wcs : List (Wc Nc)) :
    wcs.flatMap caused = wcs.flatMap owed ↔
      ∀ wc ∈ wcs, wc.status ≠ .success → wc.opcode ≠ .recv := by
  induction wcs with
  | nil => simp
  | cons wc wcs ih =>
    have hnext : ∀ hs, echo ++ hs ≠ wcs.flatMap owed := by
      intro hs
      cases wcs <;> simp [echo, owed]
    by_cases hop : wc.opcode = .recv
    · by_cases hst : wc.status = .success
      · simpa [caused, owed, hop, hst] using ih
      · simpa [caused, owed, hop, hst] using hnext _
    · simpa [caused, owed, hop] using ih

/-- In every run and for every connection, the loop does what it should for the
completions it has turned to, in their order, exactly if none of them has failed
with the opcode of a receive. -/
theorem record_eq_owed_iff {heap : Nat → Block} {as : List (Action ρ α)} {s : Recorded σ}
    (hrun : Run.run (Recorded.step P) (Recorded.initial heap) as = some s) {c : Nc} {l : Link σ}
    (hl : s.server.links c = some l) :
    s.record c ++ s.server.thread.due c = l.handled.flatMap owed ↔
      ∀ wc ∈ l.handled, wc.status ≠ .success → wc.opcode ≠ .recv := by
  rw [caused_run hrun c l hl]
  exact flatMap_caused_eq_owed l.handled

theorem record_eq_owed_iff_echo : ∃ s, ∃ l,
    Run.run (Recorded.step AnyPeer.peer) (Recorded.initial fun _ => zeros) (oneMessage [0]) =
      some s ∧ s.server.links 7 = some l ∧ l.handled ≠ [] ∧
      (s.record 7 ++ s.server.thread.due 7 = l.handled.flatMap owed ↔
        ∀ wc ∈ l.handled, wc.status ≠ .success → wc.opcode ≠ .recv) := by
  have hrun : ∃ s ∈ Run.run (Recorded.step AnyPeer.peer) (Recorded.initial fun _ => zeros)
      (oneMessage [0]), ∃ l ∈ s.server.links 7, l.handled ≠ [] := by decide +kernel
  obtain ⟨s, hs, l, hl, hne⟩ := hrun
  exact ⟨s, l, hs, hl, hne, record_eq_owed_iff hs hl⟩

/-- A message that is too long completes with a length error and is echoed: what
`recv_buff` held before is sent. -/
theorem echo_of_failed : ∃ s ∈ Run.run (Recorded.step AnyPeer.peer)
    (Recorded.initial fun _ => zeros) (oneMessage overlong), ∃ l ∈ s.server.links 7,
      s.record 7 ++ s.server.thread.due 7 ≠ l.handled.flatMap owed ∧
        ∃ wc ∈ l.handled, wc.status ≠ .success ∧
          s.record 7 = [.turns wc, .copies, .reposts, .sends] := by
  decide +kernel

end RdmaTutorial.Rdmacm05
