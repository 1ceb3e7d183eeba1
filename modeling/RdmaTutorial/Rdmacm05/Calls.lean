import RdmaTutorial.Lib.Execution
import RdmaTutorial.Rdmacm05.Projection

/-!
# rdmacm05: does a call of `handle_cq_event` return?

The loop polls until the queue is empty, while its own body posts work requests
that complete into that queue. A message of the peer leads to one more receive
and one more send, so a finite number of messages keeps a call busy for a finite
time. A work request that is flushed completes as well, and if the completion has
the opcode `IBV_WC_RECV` the body takes it for a message: it posts the receive and
the send again, to be flushed again (`endless`). And a call does not return either
if the process does not outlive it, because a post finds its queue full or `strcpy`
no end of its string.

An execution may stop, so that a process that has died is in one as well; that the
thread goes on while it can is `WeakFair`.
-/

namespace RdmaTutorial.Rdmacm05

open Verbs

variable {ρ σ α : Type} {P : Peer ρ σ α}

/-! ## A call -/

/-- The thread is in `handle_cq_event(cc)`. -/
def InCall (cc : Nc) (s : State σ) : Prop := ∃ pc, s.thread = .cqEvent cc pc

/-- Up to its step `n` the execution is in one call. -/
def During {s : State σ} (x : Run.Execution (Run.idling (step P)) s) (cc : Nc) (n : ℕ) : Prop :=
  ∀ m ≤ n, InCall cc (x.state m)

/-- `ibv_poll_cq` in the loop. -/
def Polls : Action ρ α → Prop
  | .poll _ => True
  | _ => False

/-- A statement of the thread inside a handler. -/
def ByThread : Action ρ α → Prop
  | .server _ => True
  | .poll _ => True
  | _ => False

theorem Polls.byThread {a : Action ρ α} (h : Polls a) : ByThread a := by
  cases a with
  | poll n => trivial
  | _ => exact h.elim

/-- A message of the peer of `cc` arrives. -/
def Arrives (cc : Nc) : Action ρ α → Prop
  | .toServer nc _ => nc = cc
  | _ => False

/-- A work request of `cc` is flushed, and its completion has the opcode
`IBV_WC_RECV`. -/
def FlushedAsRecv (cc : Nc) : Action ρ α → Prop
  | .hca nc (.flushRecv .recv) => nc = cc
  | .hca nc (.flushSend .recv) => nc = cc
  | _ => False

/-- The next statement of the thread finds what it needs: the string it copies is
terminated, or the queue it posts to has room for one more. -/
def findsRoom (s : State σ) : Bool :=
  match s.thread with
  | .cqEvent _ (.copy nc _) =>
    (s.links nc).all fun l => decide (CString.Terminated l.conn.recvBuff.bytes)
  | .cqEvent _ (.postRecv nc _) =>
    (s.links nc).all fun l => decide (l.conn.ep.recvSlots < maxRecvWr)
  | .cqEvent _ (.postSend nc _) =>
    (s.links nc).all fun l => decide (l.conn.ep.sendSlots < maxSendWr)
  | _ => true

/-- The call polls finitely often, and `main` goes on behind it. -/
structure CallReturns {s : State σ} (x : Run.Execution (Run.idling (step P)) s) (cc : Nc) :
    Prop where
  polls : {n | During x cc n ∧ x.Takes Polls n}.Finite
  returns : ∃ n, (x.state n).thread = .loop

/-! ## What a call still has to do -/

/-- The statements a completion leads to in the loop, those of the work requests
it posts included. -/
def work (wc : Wc Nc) : Nat := if wc.opcode = .recv then 10 else 1

/-- The same for a list of completions that have not been polled. -/
def unpolled (wcs : List (Wc Nc)) : Nat := (wcs.map fun wc => work wc + 2).sum

/-- The statements that what is on a connection leads to, if nothing arrives and
nothing is flushed as a receive. -/
def pending (e : Endpoint Nc Payload) : Nat :=
  3 * e.rq.length + 3 * e.sq.length + unpolled e.recvDone + unpolled e.sendDone +
    unpolled (e.cq.entries.map Cqe.wc)

/-- The statements in front of the thread. -/
def CqEventPc.ahead : CqEventPc → Nat
  | .ack => 3
  | .reqNotify => 2
  | .poll => 1
  | .dispatch wcs => 2 + (wcs.map work).sum
  | .copy _ wcs => 11 + (wcs.map work).sum
  | .postRecv _ wcs => 10 + (wcs.map work).sum
  | .postSend _ wcs => 6 + (wcs.map work).sum

def Thread.ahead (cc : Nc) : Thread → Nat
  | .cqEvent c pc => if c = cc then pc.ahead else 0
  | _ => 0

/-- The statement the process dies at. -/
def Status.ahead : Status → Nat
  | .running => 1
  | _ => 0

/-- The statements left of a call. -/
def load (cc : Nc) (s : State σ) : Nat :=
  s.thread.ahead cc + (s.links cc).elim 0 (fun l => pending l.conn.ep) + s.status.ahead

@[simp] theorem unpolled_nil : unpolled [] = 0 := rfl

@[simp] theorem unpolled_cons (wc : Wc Nc) (wcs : List (Wc Nc)) :
    unpolled (wc :: wcs) = work wc + 2 + unpolled wcs := by simp [unpolled]

@[simp] theorem unpolled_append (wcs wcs' : List (Wc Nc)) :
    unpolled (wcs ++ wcs') = unpolled wcs + unpolled wcs' := by simp [unpolled]

/-- The poll and the end of the batch are two more for each batch. -/
theorem unpolled_eq (wcs : List (Wc Nc)) :
    unpolled wcs = (wcs.map work).sum + 2 * wcs.length := by
  induction wcs with
  | nil => rfl
  | cons wc wcs ih =>
    rw [unpolled_cons, ih, List.map_cons, List.sum_cons, List.length_cons]
    omega

theorem pending_poll (e : Endpoint Nc Payload) (n : Nat) :
    pending (e.poll n) + unpolled (e.cq.taken n) = pending e := by
  have hsplit : unpolled (e.cq.entries.map Cqe.wc) =
      unpolled (e.cq.taken n) + unpolled ((e.cq.entries.drop n).map Cqe.wc) := by
    rw [Cq.taken, ← unpolled_append, ← List.map_append, List.take_append_drop]
  simp only [pending, Endpoint.poll, Cq.rest_entries, hsplit]
  omega

theorem pending_delivered (e : Endpoint Nc Payload) : pending e.delivered = pending e := by
  unfold Endpoint.delivered
  split
  · rfl
  · rename_i x q hq
    simp [pending, hq, work]
    omega

/-- What is flushed goes from a work queue to the completions. -/
theorem pending_hca {buff : Payload} {e e' : Endpoint Nc Payload} {m : Hca}
    (h : e.hca buff m = some e') (hrecv : m ≠ .flushRecv .recv) (hsend : m ≠ .flushSend .recv) :
    pending e' = pending e := by
  by_cases hm : m.Succeeds
  · rcases Endpoint.hca_cases hm h with
      ⟨k, w, -, -, -, rfl⟩ | ⟨wc, q, -, hq, rfl⟩ | ⟨wc, q, -, hq, rfl⟩
    · simp [pending]
    · simp [pending, hq]
      omega
    · simp [pending, hq]
      omega
  · rcases Endpoint.hca_failing hm h with
      ⟨-, rfl⟩ | ⟨op, w, q, rfl, -, hq, rfl⟩ | ⟨op, x, q, rfl, -, hq, rfl⟩
    · rfl
    · have hop : op ≠ .recv := fun heq => hrecv (by rw [heq])
      simp [pending, hq, work, hop]
      omega
    · have hop : op ≠ .recv := fun heq => hsend (by rw [heq])
      simp [pending, hq, work, hop]
      omega

/-! ## Each statement does some of it -/

/-- A statement of the loop on the connection it works for. -/
theorem load_self (cc : Nc) (s : State σ) (l : Link σ) (pc : CqEventPc) :
    load cc ((s.setLink cc l).goto (.cqEvent cc pc)) =
      pc.ahead + pending l.conn.ep + s.status.ahead := by
  simp [load, State.goto, State.setLink, Thread.ahead]

/-- What happens on a connection counts for that connection only. -/
theorem load_setLink {cc nc : Nc} {s : State σ} {k l : Link σ} (hl : s.links nc = some l)
    (hk : nc = cc → pending k.conn.ep = pending l.conn.ep) :
    load cc (s.setLink nc k) = load cc s := by
  by_cases hc : cc = nc
  · subst hc
    simp [load, State.setLink, hl, hk rfl]
  · simp [load, State.setLink, hc]

/-- The load of a call, part by part. -/
theorem load_eq {cc : Nc} {s : State σ} {l : Link σ} {pc : CqEventPc}
    (hthread : s.thread = .cqEvent cc pc) (hl : s.links cc = some l) :
    load cc s = pc.ahead + pending l.conn.ep + s.status.ahead := by
  simp [load, hthread, Thread.ahead, hl]

theorem load_goto {cc : Nc} {s : State σ} {pc pc' : CqEventPc}
    (hthread : s.thread = .cqEvent cc pc) (h : pc'.ahead < pc.ahead) :
    load cc (s.goto (.cqEvent cc pc')) < load cc s := by
  simp only [load, hthread, State.goto, Thread.ahead, if_true]
  omega

theorem step_running {s t : State σ} {a : Action ρ α} (h : step P s a = some t)
    (ha : ByThread a) : s.status = .running := by
  cases a with
  | server r =>
    simp only [step] at h
    split at h
    · assumption
    · cases h
  | poll n =>
    simp only [step] at h
    split at h
    · assumption
    · cases h
  | _ => exact ha.elim

theorem ahead_dispatchPc (wc : Wc Nc) (wcs : List (Wc Nc)) :
    (dispatchPc wc wcs).ahead + 1 = (CqEventPc.dispatch (wc :: wcs)).ahead := by
  unfold dispatchPc
  cases h : wc.opcode <;> simp [CqEventPc.ahead, work, h] <;> omega

/-- A statement that ends the process, or leaves the call. -/
theorem load_stop {cc : Nc} {s t : State σ} {pc : CqEventPc}
    (hthread : s.thread = .cqEvent cc pc) (hrunning : s.status = .running)
    (hlinks : t.links = s.links)
    (ht : t.thread = s.thread ∧ t.status ≠ .running ∨ t.thread = .loop) :
    load cc t < load cc s := by
  have hahead : 0 < pc.ahead := by cases pc <;> simp [CqEventPc.ahead]
  rcases ht with ⟨ht, hst⟩ | ht
  · have hdone : t.status.ahead = 0 := by
      cases h : t.status with
      | running => exact absurd h hst
      | _ => rfl
    rw [load, load, hlinks, ht, hdone, hrunning]
    exact Nat.lt_succ_self _
  · have hle : t.status.ahead ≤ s.status.ahead := by
      rw [hrunning]
      cases t.status <;> simp [Status.ahead]
    simp only [load, hlinks, ht, hthread, Thread.ahead, if_true]
    omega

/-- Every statement of a call takes some of the load, and nothing but an arrival,
or a flush with the opcode of a receive, adds to it. -/
theorem load_step {cc : Nc} {s t : State σ} {a : Action ρ α} (htag : Tagged s)
    (hcall : InCall cc s) (h : step P s a = some t) (harr : ¬Arrives cc a)
    (hfl : ¬FlushedAsRecv cc a) :
    load cc t ≤ load cc s ∧ (ByThread a → load cc t < load cc s) := by
  obtain ⟨pc, hpc⟩ := hcall
  have hrun := step_running h
  have hok := htag.thread
  -- A statement of the thread: the strict inequality is all there is to show.
  have strict : load cc t < load cc s →
      load cc t ≤ load cc s ∧ (ByThread a → load cc t < load cc s) :=
    fun hlt => ⟨Nat.le_of_lt hlt, fun _ => hlt⟩
  have same : load cc t = load cc s → ¬ByThread a →
      load cc t ≤ load cc s ∧ (ByThread a → load cc t < load cc s) :=
    fun heq hno => ⟨Nat.le_of_eq heq, fun hby => absurd hby hno⟩
  cases Step.of_step h with
  | connect hthread | disconnect hthread | setupArm hthread | createQp hthread
  | firstRecv hthread | register hthread | accept hthread | setupFails hthread
  | firstRecvFails hthread | cqEvent hthread =>
    rw [hthread] at hpc
    cases hpc
  | ack hthread =>
    rw [hthread] at hpc
    cases hpc
    exact strict (load_goto hthread (by simp [CqEventPc.ahead]))
  | arm hthread hl =>
    rw [hthread] at hpc
    cases hpc
    refine strict ?_
    rw [State.setConn, load_self, load_eq hthread hl]
    simp [CqEventPc.ahead, pending, Connection.reqNotify, Endpoint.reqNotify]
  | armFails hthread | pollFails hthread | pollEmpty hthread =>
    exact strict (load_stop hpc (hrun trivial) rfl (.inr rfl))
  | @poll c l n hthread hl hpos hmax hlen =>
    rw [hthread] at hpc
    cases hpc
    refine strict ?_
    -- Each completion polled leaves two behind for the poll and the end of its batch.
    have htaken : (l.conn.ep.cq.taken n).length = n := by
      simp [Cq.taken, Nat.min_eq_left hlen]
    have hsplit := pending_poll l.conn.ep n
    rw [unpolled_eq, htaken] at hsplit
    rw [State.setConn, load_self, load_eq hthread hl]
    simp only [CqEventPc.ahead, Connection.poll]
    omega
  | done hthread =>
    rw [hthread] at hpc
    cases hpc
    exact strict (load_goto hthread (by simp [CqEventPc.ahead]))
  | @dispatch c l wc wcs r hthread hl =>
    rw [hthread] at hpc
    cases hpc
    refine strict ?_
    rw [load_self, load_eq hthread hl, ← ahead_dispatchPc]
    dsimp only
    omega
  | copy hthread hl hc =>
    rw [hthread] at hpc hok
    cases hpc
    obtain ⟨-, rfl, -⟩ := hok
    obtain ⟨b, -, rfl⟩ := Connection.echo_eq_some hc
    refine strict ?_
    rw [State.setConn, load_self, load_eq hthread hl]
    simp only [CqEventPc.ahead]
    omega
  | postRecv hthread hl hc =>
    rw [hthread] at hpc hok
    cases hpc
    obtain ⟨-, rfl, -⟩ := hok
    obtain ⟨-, rfl⟩ := Connection.postRecv_eq_some hc
    refine strict ?_
    rw [State.setConn, load_self, load_eq hthread hl]
    simp only [CqEventPc.ahead, pending, List.length_append, List.length_singleton]
    omega
  | postSend hthread hl hc =>
    rw [hthread] at hpc hok
    cases hpc
    obtain ⟨-, rfl, -⟩ := hok
    obtain ⟨-, rfl⟩ := Connection.postSend_eq_some hc
    refine strict ?_
    rw [State.setConn, load_self, load_eq hthread hl]
    simp only [CqEventPc.ahead, pending, List.length_append, List.length_singleton]
    omega
  | copyFails | stray =>
    exact strict (load_stop hpc (hrun trivial) rfl (.inl ⟨rfl, by simp⟩))
  | postRecvFails | postSendFails =>
    exact strict (load_stop hpc (hrun trivial) rfl (.inl ⟨rfl, by simp [State.die]⟩))
  | @hca nc l m c hl hc =>
    obtain ⟨e, he, rfl⟩ := Connection.hca_eq_some hc
    refine same (load_setLink hl ?_) id
    rintro rfl
    refine pending_hca he (fun hm => hfl ?_) fun hm => hfl ?_ <;> rw [hm] <;> rfl
  | toServer hl =>
    exact same (load_setLink hl fun heq => absurd heq harr) id
  | toPeer hl => exact same (load_setLink hl fun _ => pending_delivered _) id
  | peer hl => exact same (load_setLink hl fun _ => rfl) id

/-! ## What can be flushed has been posted -/

/-- The work requests the server has still to post for the batch it has polled. -/
def postsLeft : Echo.Stage → Nat
  | .batch wcs => 2 * wcs.length
  | .copy wcs => 2 + 2 * wcs.length
  | .postRecv wcs => 2 + 2 * wcs.length
  | .postSend wcs => 1 + 2 * wcs.length
  | _ => 0

/-- The work requests of a connection, posted or to be posted. -/
def posted (e : Echo.State σ) : Nat :=
  e.conn.ep.rq.length + e.conn.ep.sq.length + postsLeft e.stage

theorem postsLeft_dispatch (wc : Wc Nc) (wcs : List (Wc Nc)) :
    postsLeft (Echo.dispatch wc wcs) ≤ postsLeft (.batch (wc :: wcs)) := by
  unfold Echo.dispatch
  split
  · simp [postsLeft]
    omega
  · simp [postsLeft]

/-- A flush takes one of them, and only a poll adds to them. -/
theorem posted_move {e e' : Echo.State σ} {b : Echo.Move α} (h : Echo.Step P e b e')
    (hfirst : b ≠ .firstRecv) (hpoll : ∀ n, b ≠ .poll n) :
    posted e' ≤ posted e ∧
      ((∃ op, b = .hca (.flushRecv op) ∨ b = .hca (.flushSend op)) → posted e' < posted e) := by
  have other : posted e' ≤ posted e → (∀ op, b ≠ .hca (.flushRecv op) ∧ b ≠ .hca (.flushSend op)) →
      posted e' ≤ posted e ∧
        ((∃ op, b = .hca (.flushRecv op) ∨ b = .hca (.flushSend op)) → posted e' < posted e) := by
    rintro hle hno
    refine ⟨hle, ?_⟩
    rintro ⟨op, hb | hb⟩
    · exact absurd hb (hno op).1
    · exact absurd hb (hno op).2
  cases h with
  | firstRecv => exact absurd rfl hfirst
  | poll c p n => exact absurd rfl (hpoll n)
  | arm => exact other (Nat.le_refl _) (by simp)
  | event => exact other (Nat.le_refl _) (by simp)
  | established => exact other (Nat.le_refl _) (by simp)
  | done => exact other (Nat.le_refl _) (by simp)
  | next => exact other (Nat.add_le_add_left (postsLeft_dispatch _ _) _) (by simp)
  | copy => exact other (Nat.le_refl _) (by simp)
  | postRecv =>
    refine other ?_ (by simp)
    simp [posted, postsLeft]
    omega
  | postSend =>
    refine other ?_ (by simp)
    simp [posted, postsLeft]
    omega
  | @hca _ m _ he =>
    by_cases hm : m.Succeeds
    · refine other ?_ ?_
      · rcases Endpoint.hca_cases hm he with
          ⟨k, w, -, -, -, rfl⟩ | ⟨wc, q, -, hq, rfl⟩ | ⟨wc, q, -, hq, rfl⟩ <;>
          simp [posted]
      · intro op
        constructor <;> (rintro ⟨⟩; exact hm)
    · rcases Endpoint.hca_failing hm he with
        ⟨rfl, rfl⟩ | ⟨op, w, q, rfl, -, hq, rfl⟩ | ⟨op, x, q, rfl, -, hq, rfl⟩
      · exact other (Nat.le_refl _) (by simp)
      · simp [posted, hq]
      · simp [posted, hq]
  | @toServer s op m hoffer hready =>
    refine other ?_ (by simp)
    obtain ⟨-, w, q, hq⟩ := Endpoint.ready_eq_true hready
    obtain ⟨wc, f, hep⟩ := Connection.receive_ep hq op m
    simp [posted, hep, hq]
  | toPeer =>
    refine other ?_ (by simp)
    simp only [posted, Connection.delivered, Endpoint.delivered]
    split
    · exact Nat.le_refl _
    · simp [*]
  | peer => exact other (Nat.le_refl _) (by simp)

/-- The work requests of `cc`. -/
def postedAt (cc : Nc) (s : State σ) : Nat := (view s cc).elim 0 posted

theorem label_ne_firstRecv {cc c : Nc} {s : State σ} {a : Action ρ α} {b : Echo.Move α}
    (hcall : InCall cc s) (h : label s a = some (c, b)) : b ≠ .firstRecv := by
  obtain ⟨pc, hpc⟩ := hcall
  rintro rfl
  cases a with
  | server r =>
    simp only [label, hpc] at h
    split at h <;> simp_all
  | poll n =>
    simp only [label] at h
    split at h
    · split at h <;> cases h
    · cases h
  | _ => cases h

theorem label_poll {c : Nc} {s : State σ} {a : Action ρ α} {n : Nat}
    (h : label s a = some (c, .poll n)) : Polls a := by
  cases a with
  | server r =>
    simp only [label] at h
    split at h <;> cases h
  | poll n => trivial
  | _ => cases h

/-- In a call no connection comes or goes. -/
theorem no_handler_of_call {cc : Nc} {s t : State σ} {a : Action ρ α} (hcall : InCall cc s)
    (h : step P s a = some t) :
    (∀ nc i j x, a ≠ .connect nc i j x) ∧ ∀ nc, a ≠ .disconnect nc := by
  obtain ⟨pc, hpc⟩ := hcall
  constructor
  · rintro nc i j x rfl
    cases Step.of_step h with
    | connect hthread => rw [hthread] at hpc; cases hpc
  · rintro nc rfl
    cases Step.of_step h with
    | disconnect hthread => rw [hthread] at hpc; cases hpc

theorem postedAt_le {cc : Nc} {s t : State σ} {a : Action ρ α} (htag : Tagged s)
    (hcall : InCall cc s) (h : step P s a = some t) (hpoll : ¬Polls a) :
    postedAt cc t ≤ postedAt cc s := by
  have hno := no_handler_of_call hcall h
  unfold postedAt
  cases step_local htag h with
  | same hlinks hstage hidle =>
    cases hl : s.links cc with
    | none => simp [view, hlinks, hl]
    | some l => simp [view, hlinks, hl, hstage cc (by simp [hl])]
  | opens nc i j r b x haction => exact absurd haction (hno.1 nc i j x)
  | closes nc haction => exact absurd haction (hno.2 nc)
  | moves nc b l l' hlabel hl hmove hlinks hothers =>
    by_cases hc : cc = nc
    · subst hc
      have hb := posted_move (Echo.Step.of_step hmove) (label_ne_firstRecv hcall hlabel)
        fun n hn => hpoll (label_poll (hn ▸ hlabel))
      simpa [view, hlinks, hl] using hb.1
    · simp [view, hlinks, hc, hothers cc hc]

theorem postedAt_flushed {cc : Nc} {s t : State σ} {a : Action ρ α}
    (h : step P s a = some t) (hfl : FlushedAsRecv cc a) : postedAt cc t < postedAt cc s := by
  obtain ⟨m, rfl, hm⟩ : ∃ m, a = .hca cc m ∧ (m = .flushRecv .recv ∨ m = .flushSend .recv) := by
    unfold FlushedAsRecv at hfl
    split at hfl
    · exact ⟨_, by rw [hfl], .inl rfl⟩
    · exact ⟨_, by rw [hfl], .inr rfl⟩
    · exact hfl.elim
  cases Step.of_step h with
  | @hca _ l _ c hl hc =>
    have hmove : Echo.step P ⟨s.thread.stage cc, l.conn, l.peer⟩ (.hca m) =
        some ⟨s.thread.stage cc, c, l.peer⟩ := by simp [Echo.step, hc]
    have hlt := (posted_move (Echo.Step.of_step hmove) (by simp) (by simp)).2
      ⟨.recv, hm.imp (congrArg _) (congrArg _)⟩
    simpa [postedAt, view, hl, State.setConn, State.setLink] using hlt

/-! ## The process outlives a statement that finds room -/

/-- Behind its end the process stays where it is. -/
theorem step_ended {s t : State σ} {a : Action ρ α} (h : step P s a = some t)
    (hs : s.status ≠ .running) : t.status = s.status ∧ t.thread = s.thread := by
  cases a with
  | peer nc a =>
    simp only [step, Option.bind_eq_some_iff, Option.map_eq_some_iff] at h
    obtain ⟨l, -, q, -, rfl⟩ := h
    exact ⟨rfl, rfl⟩
  | _ => simp [step, hs] at h

/-- A statement of a call that finds room does not end the process. -/
theorem running_of_findsRoom {cc : Nc} {s t : State σ} {a : Action ρ α} (htag : Tagged s)
    (hcall : InCall cc s) (hrun : s.status = .running) (h : step P s a = some t)
    (hroom : ByThread a → findsRoom s) : t.status = .running := by
  obtain ⟨pc, hpc⟩ := hcall
  have hok := htag.thread
  cases Step.of_step h with
  | setupFails hthread | firstRecvFails hthread =>
    rw [hthread] at hpc
    cases hpc
  | @copyFails c nc wcs l r hthread hl hc =>
    have hterm : CString.Terminated l.conn.recvBuff.bytes := by
      simpa [findsRoom, hthread, hl] using hroom trivial
    simp [Connection.echo, CString.Buffer.strcpy_of_terminated _ hterm] at hc
  | @postRecvFails c nc wcs l r hthread hl hc =>
    have hslots : l.conn.ep.recvSlots < maxRecvWr := by
      simpa [findsRoom, hthread, hl] using hroom trivial
    simp [Connection.postRecv, Endpoint.postRecv, hslots] at hc
  | @postSendFails c nc wcs l r hthread hl hc =>
    have hslots : l.conn.ep.sendSlots < maxSendWr := by
      simpa [findsRoom, hthread, hl] using hroom trivial
    simp [Connection.postSend, Endpoint.postSend, hslots] at hc
  | @stray c nc wcs _ r hthread hpc' hl =>
    rw [hthread] at hok
    rcases hpc' with rfl | rfl | rfl <;>
    · obtain ⟨hlive, rfl, -⟩ := hok
      simp [hl] at hlive
  | _ => exact hrun

/-- A statement of a call that finds no room ends the process where it is. -/
theorem findsRoom_or_ends {cc : Nc} {s t : State σ} {a : Action ρ α} (hcall : InCall cc s)
    (h : step P s a = some t) (ha : ByThread a) :
    findsRoom s ∨ InCall cc t ∧ t.status ≠ .running := by
  cases Step.of_step h with
  | copy hthread hl hc =>
    obtain ⟨b, hb, -⟩ := Connection.echo_eq_some hc
    exact .inl (by simpa [findsRoom, hthread, hl] using CString.Buffer.terminated_of_strcpy hb)
  | postRecv hthread hl hc =>
    exact .inl (by simpa [findsRoom, hthread, hl] using (Connection.postRecv_eq_some hc).1)
  | postSend hthread hl hc =>
    exact .inl (by simpa [findsRoom, hthread, hl] using (Connection.postSend_eq_some hc).1)
  | copyFails | stray => exact .inr ⟨hcall, by simp⟩
  | postRecvFails | postSendFails | setupFails | firstRecvFails =>
    exact .inr ⟨hcall, by simp [State.die]⟩
  | hca | toServer | toPeer | peer | connect | disconnect | cqEvent => exact ha.elim
  | setupArm hthread | createQp hthread | firstRecv hthread | register hthread | accept hthread
  | ack hthread | arm hthread | armFails hthread | pollFails hthread | pollEmpty hthread
  | poll hthread | done hthread | dispatch hthread =>
    exact .inl (by simp [findsRoom, hthread])

/-! ## Executions of the server -/

section Execution

variable {s : State σ} {cc : Nc}

theorem During.of_succ {x : Run.Execution (Run.idling (step P)) s} {n : ℕ}
    (h : During x cc (n + 1)) : During x cc n := fun m hm => h m (Nat.le_succ_of_le hm)

/-- A call ends where `main` goes on. -/
theorem inCall_step {s t : State σ} {a : Action ρ α} (hcall : InCall cc s)
    (h : step P s a = some t) : InCall cc t ∨ t.thread = .loop := by
  obtain ⟨pc, hpc⟩ := hcall
  cases Step.of_step h with
  | connect hthread | setupArm hthread | createQp hthread | firstRecv hthread
  | register hthread | cqEvent hthread =>
    rw [hthread] at hpc
    cases hpc
  | accept | armFails | pollFails | pollEmpty => exact .inr rfl
  | ack hthread | arm hthread | poll hthread | done hthread | dispatch hthread
  | copy hthread | postRecv hthread | postSend hthread =>
    rw [hthread] at hpc
    cases hpc
    exact .inl ⟨_, rfl⟩
  | _ => exact .inl ⟨pc, hpc⟩

theorem tagged_state {heap : Nat → Block} {as : List (Action ρ α)}
    (hrun : Run.run (step P) (State.initial heap) as = some s)
    (x : Run.Execution (Run.idling (step P)) s) (n : ℕ) : Tagged (x.state n) :=
  x.invariant_of_idling (fun _ _ _ => tagged_step)
    (Run.run_invariant (fun _ _ _ => tagged_step) hrun tagged_initial) n

/-- What no step without a label in `G` raises, and every one with a label in `F`
lowers, bounds the steps of `F` in a call by those of `G`. -/
theorem finite_of_measure {x : Run.Execution (Run.idling (step P)) s} {F G : Action ρ α → Prop}
    (m : State σ → ℕ)
    (hstep : ∀ n a, During x cc n → step P (x.state n) a = some (x.state (n + 1)) → ¬G a →
      m (x.state (n + 1)) ≤ m (x.state n) ∧ (F a → m (x.state (n + 1)) < m (x.state n)))
    (hG : {n | During x cc n ∧ x.Takes G n}.Finite) :
    {n | During x cc n ∧ x.Takes F n}.Finite := by
  apply Run.finite_of_descending (m := fun n => m (x.state n)) (G := x.Takes G)
    (fun n => During.of_succ) (fun n hd hno => ?_) (fun n hd hno hF => ?_) hG
  · rcases x.cases_next n with ⟨-, heq⟩ | ⟨a, hlabel, ha⟩
    · exact heq ▸ Nat.le_refl _
    · exact (hstep n a hd ha fun hg => hno ⟨a, hlabel, hg⟩).1
  · obtain ⟨a, hlabel, ha⟩ := hF
    rcases x.cases_next n with ⟨hnone, -⟩ | ⟨b, hb, hnext⟩
    · rw [hnone] at hlabel
      cases hlabel
    · obtain rfl : b = a := Option.some.inj (hb.symm.trans hlabel)
      exact (hstep n b hd hnext fun hg => hno ⟨b, hb, hg⟩).2 ha

/-- If nothing that adds to the load goes on for ever, neither does the call. -/
theorem statements_finite {heap : Nat → Block} {as : List (Action ρ α)}
    (hrun : Run.run (step P) (State.initial heap) as = some s)
    (x : Run.Execution (Run.idling (step P)) s) (harr : {n | x.Takes (Arrives cc) n}.Finite)
    (hfl : {n | During x cc n ∧ x.Takes (FlushedAsRecv cc) n}.Finite) :
    {n | During x cc n ∧ x.Takes ByThread n}.Finite := by
  apply finite_of_measure (G := fun a => Arrives cc a ∨ FlushedAsRecv cc a) (load cc)
  · intro n a hd h hno
    exact load_step (tagged_state hrun x n) (hd n (Nat.le_refl n)) h (fun ha => hno (.inl ha))
      fun hf => hno (.inr hf)
  · refine (harr.union hfl).subset ?_
    rintro n ⟨hd, a, hlabel, ha | hf⟩
    · exact .inl ⟨a, hlabel, ha⟩
    · exact .inr ⟨hd, a, hlabel, hf⟩

/-- What is flushed in a call has been posted before the call, or behind one of
its polls. -/
theorem flushed_finite {heap : Nat → Block} {as : List (Action ρ α)}
    (hrun : Run.run (step P) (State.initial heap) as = some s)
    (x : Run.Execution (Run.idling (step P)) s)
    (hpolls : {n | During x cc n ∧ x.Takes Polls n}.Finite) :
    {n | During x cc n ∧ x.Takes (FlushedAsRecv cc) n}.Finite :=
  finite_of_measure (postedAt cc)
    (fun n _ hd h hno => ⟨postedAt_le (tagged_state hrun x n) (hd n (Nat.le_refl n)) h hno,
      fun hfl => postedAt_flushed h hfl⟩) hpolls

/-- Whatever the schedule, and whether the process lives or not: a call polls
finitely often exactly if finitely many work requests are flushed in it with the
opcode of a receive. -/
theorem polls_finite_iff {heap : Nat → Block} {as : List (Action ρ α)}
    (hrun : Run.run (step P) (State.initial heap) as = some s)
    (x : Run.Execution (Run.idling (step P)) s) (harr : {n | x.Takes (Arrives cc) n}.Finite) :
    {n | During x cc n ∧ x.Takes Polls n}.Finite ↔
      {n | During x cc n ∧ x.Takes (FlushedAsRecv cc) n}.Finite := by
  refine ⟨flushed_finite hrun x, fun hfl => (statements_finite hrun x harr hfl).subset ?_⟩
  rintro n ⟨hd, a, hlabel, ha⟩
  exact ⟨hd, a, hlabel, ha.byThread⟩

/-- The thread never waits in a call: some statement of it is enabled. -/
theorem call_enabled {s : State σ} {cc : Nc} (htag : Tagged s) (hrun : s.status = .running)
    (hcall : InCall cc s) : ∃ a : Action ρ α, ByThread a ∧ (step P s a).isSome := by
  obtain ⟨pc, hpc⟩ := hcall
  have hok := htag.thread
  rw [hpc] at hok
  obtain ⟨l, hl⟩ := Option.isSome_iff_exists.mp hok.1
  have server : (cqEventStep s cc pc .ok).isSome →
      ∃ a : Action ρ α, ByThread a ∧ (step P s a).isSome :=
    fun h => ⟨.server .ok, trivial, by simpa [step, hrun, hpc] using h⟩
  cases pc with
  | ack => exact server rfl
  | reqNotify => exact server (by simp [cqEventStep, hl])
  | poll =>
    -- `ibv_poll_cq` returns zero, or the first completion.
    by_cases hes : l.conn.ep.cq.entries = []
    · exact ⟨.poll 0, trivial, by simp [step, hrun, hpc, hl, pollStep, hes]⟩
    · refine ⟨.poll 1, trivial, ?_⟩
      have hlen : 1 ≤ l.conn.ep.cq.entries.length := List.length_pos_iff.mpr hes
      simp [step, hrun, hpc, hl, pollStep, hlen, maxBatch]
  | dispatch wcs =>
    cases wcs with
    | nil => exact server rfl
    | cons wc wcs => exact server (by simp [cqEventStep, hl])
  | copy nc wcs => exact server rfl
  | postRecv nc wcs => exact server rfl
  | postSend nc wcs => exact server rfl

/-- As long as `main` has not gone on, the call goes on, and if its statements
find room the process does too. -/
theorem during_of_not_returned {heap : Nat → Block} {as : List (Action ρ α)}
    (hrun : Run.run (step P) (State.initial heap) as = some s) (hcall : InCall cc s)
    (hrunning : s.status = .running) (x : Run.Execution (Run.idling (step P)) s)
    (hroom : ∀ n, During x cc n → x.Takes ByThread n → findsRoom (x.state n))
    (hno : ∀ n, (x.state n).thread ≠ .loop) (n : ℕ) :
    During x cc n ∧ (x.state n).status = .running := by
  induction n with
  | zero =>
    rw [x.start]
    refine ⟨fun m hm => ?_, hrunning⟩
    rwa [Nat.le_zero.mp hm, x.start]
  | succ n ih =>
    obtain ⟨hd, hst⟩ := ih
    have hin := hd n (Nat.le_refl n)
    have hnext : InCall cc (x.state (n + 1)) ∧ (x.state (n + 1)).status = .running := by
      rcases x.cases_next n with ⟨-, heq⟩ | ⟨a, hlabel, h⟩
      · rw [heq]
        exact ⟨hin, hst⟩
      · exact ⟨(inCall_step hin h).resolve_right (hno (n + 1)),
          running_of_findsRoom (tagged_state hrun x n) hin hst h fun ha =>
            hroom n hd ⟨a, hlabel, ha⟩⟩
    refine ⟨fun m hm => ?_, hnext.2⟩
    rcases Nat.le_succ_iff.mp hm with hm | rfl
    · exact hd m hm
    · exact hnext.1

/-- A call that has ended the process does not return. -/
theorem inCall_of_ended {x : Run.Execution (Run.idling (step P)) s} {n : ℕ}
    (hin : InCall cc (x.state n)) (hended : (x.state n).status ≠ .running) {m : ℕ} (hm : n ≤ m) :
    InCall cc (x.state m) ∧ (x.state m).status ≠ .running := by
  induction m, hm using Nat.le_induction with
  | base => exact ⟨hin, hended⟩
  | succ m hm ih =>
    rcases x.cases_next m with ⟨-, heq⟩ | ⟨a, -, h⟩
    · rwa [heq]
    · obtain ⟨hst, hth⟩ := step_ended h ih.2
      obtain ⟨pc, hpc⟩ := ih.1
      exact ⟨⟨pc, hth.trans hpc⟩, hst ▸ ih.2⟩

end Execution

/-- Take any call of `handle_cq_event`, against any peer, and any way the run goes
on from there that does not put the thread off for ever and in which finitely many
messages of the peer arrive. The call returns after finitely many polls exactly if
finitely many work requests are flushed during the call with the opcode of a receive,
and every string it copies is terminated and every queue it posts to has room. -/
theorem returns_iff {heap : Nat → Block} {as : List (Action ρ α)} {s : State σ}
    (hrun : Run.run (step P) (State.initial heap) as = some s) {cc : Nc} (hcall : InCall cc s)
    (hrunning : s.status = .running) (x : Run.Execution (Run.idling (step P)) s)
    (hfair : x.WeakFair ByThread) (harr : {n | x.Takes (Arrives cc) n}.Finite) :
    CallReturns x cc ↔
      {n | During x cc n ∧ x.Takes (FlushedAsRecv cc) n}.Finite ∧
        ∀ n, During x cc n → x.Takes ByThread n → findsRoom (x.state n) := by
  constructor
  · rintro ⟨hpolls, N, hloop⟩
    refine ⟨(polls_finite_iff hrun x harr).mp hpolls, fun n hd htakes => ?_⟩
    obtain ⟨a, ha, h⟩ := htakes.next
    refine (findsRoom_or_ends (hd n (Nat.le_refl n)) h ha).resolve_right ?_
    rintro ⟨hin, hended⟩
    -- `main` cannot have gone on before, nor behind the end of the process.
    have hstuck : InCall cc (x.state N) := by
      rcases Nat.lt_or_ge n N with hlt | hge
      · exact (inCall_of_ended hin hended hlt).1
      · exact hd N hge
    obtain ⟨pc, hpc⟩ := hstuck
    rw [hloop] at hpc
    cases hpc
  · rintro ⟨hfl, hroom⟩
    refine ⟨(polls_finite_iff hrun x harr).mpr hfl, ?_⟩
    by_contra hno
    have halive := during_of_not_returned hrun hcall hrunning x hroom fun n hn => hno ⟨n, hn⟩
    have hfin : {n | x.Takes ByThread n}.Finite :=
      (statements_finite hrun x harr hfl).subset fun n hn => ⟨(halive n).1, hn⟩
    obtain ⟨n, hn⟩ := hfair.exists_disabled hfin
    obtain ⟨a, ha, hsome⟩ := call_enabled (P := P) (ρ := ρ) (α := α) (tagged_state hrun x n)
      (halive n).2 ((halive n).1 n (Nat.le_refl n))
    simp [hn a ha] at hsome

/-- A message arrives, completes with the opcode of a receive, and `main` calls
`handle_cq_event`. -/
def calling (p : Payload) : List (Action Unit AnyPeer.Action) :=
  setUp 7 0 1 () ++ [.peer 7 (.send p), .toServer 7 .recv, .hca 7 .reportRecv, .cqEvent 7]

/-- The call handles it and is back at `ibv_poll_cq`. -/
def answering : List (Action Unit AnyPeer.Action) :=
  [.server .ok, .server .ok, .poll 1, .server .ok, .server .ok, .server .ok, .server .ok,
    .server .ok]

def returning : List (Action Unit AnyPeer.Action) := answering ++ [.poll 0]

def oneMessage (p : Payload) : List (Action Unit AnyPeer.Action) := calling p ++ answering

/-- Between two calls the thread has no statement of a handler. -/
theorem step_loop {s : State σ} {a : Action ρ α} (hthread : s.thread = .loop) (ha : ByThread a) :
    step P s a = none := by
  cases a with
  | server r => simp [step, hthread]
  | poll n => simp [step, hthread]
  | _ => exact ha.elim

theorem returns_iff_returning : ∃ s, ∃ x : Run.Execution (Run.idling (step AnyPeer.peer)) s,
    Run.run (step AnyPeer.peer) (State.initial fun _ => zeros) (calling [0]) = some s ∧
      (∀ n, x.label n = returning[n]?) ∧ CallReturns x 7 := by
  have hcalls : ∃ s ∈ Run.run (step AnyPeer.peer) (State.initial fun _ => zeros) (calling [0]),
      s.status = .running ∧ s.thread = .cqEvent 7 .ack ∧
        (∃ t ∈ Run.run (step AnyPeer.peer) s returning, t.thread = .loop) ∧
        ∀ k < 9, ∃ u ∈ Run.run (step AnyPeer.peer) s (returning.take k), findsRoom u := by
    decide +kernel
  obtain ⟨s, hs, hrunning, hack, ⟨t, ht, hloop⟩, hroom⟩ := hcalls
  obtain ⟨x, hlabel, hbefore, hbehind⟩ := Run.exists_execution_of_run ht
  have hlt : ∀ {F n}, x.Takes F n → n < 9 := fun ⟨a, ha, _⟩ =>
    (List.getElem?_eq_some_iff.mp ((hlabel _).symm.trans ha)).1
  refine ⟨s, x, hs, hlabel, (returns_iff hs ⟨_, hack⟩ hrunning x ?_ ?_).mpr ⟨?_, ?_⟩⟩
  · intro N hN
    -- Behind the call nothing is enabled.
    obtain ⟨a, ha, hsome⟩ := hN (N + 9) (by omega)
    rw [hbehind (N + 9) (by simp [returning, answering]), step_loop hloop ha] at hsome
    cases hsome
  · exact (Set.finite_lt_nat 9).subset fun n hn => hlt hn
  · exact (Set.finite_lt_nat 9).subset fun n hn => hlt hn.2
  · intro n _ hn
    obtain ⟨u, hu, hfinds⟩ := hroom n (hlt hn)
    rwa [hbefore n u hu]

/-! ## A call that does not return -/

/-- Where a call is that goes round in circles, and what its connection holds. -/
structure Shape where
  pc : CqEventPc
  rq : List Nc
  sq : List (SendWqe Nc Payload)
  recvDone : List (Wc Nc)
  sendDone : List (Wc Nc)
  entries : List (Cqe Nc)

/-- A connection at address 7 whose queue pair has failed. -/
structure Shape.Holds (h : Shape) (c : Connection) : Prop where
  recvWrId : c.recvWrId = 7
  sendWrId : c.sendWrId = 7
  terminated : CString.Terminated c.recvBuff.bytes
  failed : c.ep.failed = true
  rq : c.ep.rq = h.rq
  sq : c.ep.sq = h.sq
  recvDone : c.ep.recvDone = h.recvDone
  sendDone : c.ep.sendDone = h.sendDone
  entries : c.ep.cq.entries = h.entries

structure Spinning (h : Shape) (s : State AnyPeer) : Prop where
  running : s.status = .running
  thread : s.thread = .cqEvent 7 h.pc
  link : ∃ l, s.links 7 = some l ∧ h.Holds l.conn

/-- From one shape to the next by this label. -/
def Leads (h : Shape) (a : Action Unit AnyPeer.Action) (h' : Shape) : Prop :=
  ∀ s, Spinning h s → ∃ t, step AnyPeer.peer s a = some t ∧ Spinning h' t

section Leads

variable {pc : CqEventPc} {rq : List Nc} {sq : List (SendWqe Nc Payload)} {rd sd : List (Wc Nc)}
  {es : List (Cqe Nc)} {wc : Wc Nc} {wcs : List (Wc Nc)} {w : Nc} {op : WcOpcode}

theorem leads_hca {h h' : Shape} {m : Hca} (hpc : h'.pc = h.pc)
    (hm : ∀ c, h.Holds c → ∃ c', c.hca m = some c' ∧ h'.Holds c') : Leads h (.hca 7 m) h' := by
  rintro s ⟨hrun, hthread, l, hl, hc⟩
  obtain ⟨c', hc', hh'⟩ := hm l.conn hc
  refine ⟨s.setConn 7 l c', by simp [step, hrun, hl, hc'], hrun, ?_, { l with conn := c' }, ?_, hh'⟩
  · rw [hpc]
    exact hthread
  · simp [State.setConn, State.setLink]

theorem leads_flushRecv :
    Leads ⟨pc, w :: rq, sq, rd, sd, es⟩ (.hca 7 (.flushRecv op))
      ⟨pc, rq, sq, rd ++ [⟨w, wrFlushErr, op, 0⟩], sd, es⟩ := by
  refine leads_hca rfl fun c hc => ⟨{ c with ep := { c.ep with
    rq := rq, recvDone := c.ep.recvDone ++ [⟨w, wrFlushErr, op, 0⟩] } }, ?_, { hc with
      rq := rfl, recvDone := congrArg (· ++ [⟨w, wrFlushErr, op, 0⟩]) hc.recvDone }⟩
  simp [Connection.hca, Endpoint.hca, hc.failed, hc.rq]

theorem leads_flushSend {p : Option Payload} :
    Leads ⟨pc, rq, ⟨w, p⟩ :: sq, rd, sd, es⟩ (.hca 7 (.flushSend op))
      ⟨pc, rq, sq, rd, sd ++ [⟨w, wrFlushErr, op, 0⟩], es⟩ := by
  refine leads_hca rfl fun c hc => ⟨{ c with ep := { c.ep with
    sq := sq, sendDone := c.ep.sendDone ++ [⟨w, wrFlushErr, op, 0⟩] } }, ?_, { hc with
      sq := rfl, sendDone := congrArg (· ++ [⟨w, wrFlushErr, op, 0⟩]) hc.sendDone }⟩
  simp [Connection.hca, Endpoint.hca, hc.failed, hc.sq]

theorem leads_reportRecv :
    Leads ⟨pc, rq, sq, wc :: rd, sd, es⟩ (.hca 7 .reportRecv)
      ⟨pc, rq, sq, rd, sd, es ++ [⟨false, wc⟩]⟩ := by
  refine leads_hca rfl fun c hc => ⟨{ c with ep := { c.ep with
    recvDone := rd, cq := c.ep.cq.add ⟨false, wc⟩ } }, ?_, { hc with
      recvDone := rfl, entries := by rw [Cq.add_entries, hc.entries] }⟩
  simp [Connection.hca, Endpoint.hca, hc.recvDone]

theorem leads_reportSend :
    Leads ⟨pc, rq, sq, rd, wc :: sd, es⟩ (.hca 7 .reportSend)
      ⟨pc, rq, sq, rd, sd, es ++ [⟨true, wc⟩]⟩ := by
  refine leads_hca rfl fun c hc => ⟨{ c with ep := { c.ep with
    sendDone := sd, cq := c.ep.cq.add ⟨true, wc⟩ } }, ?_, { hc with
      sendDone := rfl, entries := by rw [Cq.add_entries, hc.entries] }⟩
  simp [Connection.hca, Endpoint.hca, hc.sendDone]

theorem leads_poll {n : Nat} (hn : 0 < n) (hmax : n ≤ maxBatch) (hlen : n ≤ es.length) :
    Leads ⟨.poll, rq, sq, rd, sd, es⟩ (.poll n)
      ⟨.dispatch ((es.take n).map Cqe.wc), rq, sq, rd, sd, es.drop n⟩ := by
  rintro s ⟨hrun, hthread, l, hl, hc⟩
  have hes : l.conn.ep.cq.entries = es := hc.entries
  have hpoll : pollStep s 7 l n = some ((s.setConn 7 l (l.conn.poll n)).goto
      (.cqEvent 7 (.dispatch ((es.take n).map Cqe.wc)))) := by
    rw [pollStep, if_neg (Nat.ne_of_gt hn), hes, if_pos ⟨hmax, hlen⟩, Cq.taken, hes]
  refine ⟨(s.setConn 7 l (l.conn.poll n)).goto (.cqEvent 7 (.dispatch ((es.take n).map Cqe.wc))),
    by simp [step, hrun, hthread, hl, hpoll], hrun, rfl, { l with conn := l.conn.poll n }, ?_,
    { hc with entries := congrArg (List.drop n) hes }⟩
  simp [State.setConn, State.setLink, State.goto]

/-- A statement of the loop on the connection. -/
theorem leads_server {h h' : Shape}
    (hm : ∀ s l, s.links 7 = some l → h.Holds l.conn → ∃ l' : Link AnyPeer,
      cqEventStep s 7 h.pc .ok = some ((s.setLink 7 l').goto (.cqEvent 7 h'.pc)) ∧
        h'.Holds l'.conn) : Leads h (.server .ok) h' := by
  rintro s ⟨hrun, hthread, l, hl, hc⟩
  obtain ⟨l', hstep, hl'⟩ := hm s l hl hc
  refine ⟨(s.setLink 7 l').goto (.cqEvent 7 h'.pc), by simp [step, hrun, hthread, hstep], hrun,
    rfl, l', ?_, hl'⟩
  simp [State.setLink, State.goto]

theorem leads_dispatch :
    Leads ⟨.dispatch (wc :: wcs), rq, sq, rd, sd, es⟩ (.server .ok)
      ⟨dispatchPc wc wcs, rq, sq, rd, sd, es⟩ :=
  leads_server fun s l hl hc => ⟨{ l with handled := l.handled ++ [wc] },
    by simp [cqEventStep, hl], { hc with }⟩

theorem leads_done :
    Leads ⟨.dispatch [], rq, sq, rd, sd, es⟩ (.server .ok) ⟨.poll, rq, sq, rd, sd, es⟩ :=
  leads_server fun s l hl hc => ⟨l, by simp [cqEventStep, State.setLink, ← hl], { hc with }⟩

theorem leads_copy :
    Leads ⟨.copy 7 wcs, rq, sq, rd, sd, es⟩ (.server .ok)
      ⟨.postRecv 7 wcs, rq, sq, rd, sd, es⟩ := by
  refine leads_server fun s l hl hc => ⟨{ l with conn := { l.conn with
    sendBuff := l.conn.sendBuff.write (CString.cstr l.conn.recvBuff.bytes ++ [0]) } }, ?_,
      { hc with }⟩
  simp [cqEventStep, State.onConn, hl, Connection.echo,
    CString.Buffer.strcpy_of_terminated l.conn.sendBuff hc.terminated, State.setConn]

theorem leads_postRecv (hroom : rq.length + rd.length + es.countP (!·.onSend) < maxRecvWr) :
    Leads ⟨.postRecv 7 wcs, rq, sq, rd, sd, es⟩ (.server .ok)
      ⟨.postSend 7 wcs, rq ++ [7], sq, rd, sd, es⟩ := by
  refine leads_server fun s l hl hc => ⟨{ l with conn := { l.conn with ep := { l.conn.ep with
    rq := l.conn.ep.rq ++ [7] } } }, ?_, { hc with rq := by rw [hc.rq] }⟩
  have hslots : l.conn.ep.recvSlots < maxRecvWr := by
    rwa [Endpoint.recvSlots, Cq.recvs, hc.rq, hc.recvDone, hc.entries]
  simp [cqEventStep, State.onConn, hl, Connection.postRecv, Endpoint.postRecv, hslots, hc.recvWrId,
    State.setConn]

theorem leads_postSend (hroom : sq.length + sd.length + es.countP (·.onSend) < maxSendWr) :
    Leads ⟨.postSend 7 wcs, rq, sq, rd, sd, es⟩ (.server .ok)
      ⟨.dispatch wcs, rq, sq ++ [⟨7, none⟩], rd, sd, es⟩ := by
  refine leads_server fun s l hl hc => ⟨{ l with conn := { l.conn with ep := { l.conn.ep with
    sq := l.conn.ep.sq ++ [⟨7, none⟩] } } }, ?_, { hc with sq := by rw [hc.sq] }⟩
  have hslots : l.conn.ep.sendSlots < maxSendWr := by
    rwa [Endpoint.sendSlots, Cq.sends, hc.sq, hc.sendDone, hc.entries]
  simp [cqEventStep, State.onConn, hl, Connection.postSend, Endpoint.postSend, hslots, hc.sendWrId,
    State.setConn]

end Leads

/-- The completions of the receive and of the send when they are flushed. -/
def flushedRecv : Wc Nc := ⟨7, wrFlushErr, .recv, 0⟩
def flushedSend : Wc Nc := ⟨7, wrFlushErr, .send, 0⟩

/-- Once around: both work requests are flushed, both completions are polled, and
the first of them is taken for a message. -/
def round : List (Shape × Action Unit AnyPeer.Action) :=
  [(⟨.poll, [7], [⟨7, none⟩], [], [], []⟩, .hca 7 (.flushRecv .recv)),
    (⟨.poll, [], [⟨7, none⟩], [flushedRecv], [], []⟩, .hca 7 (.flushSend .send)),
    (⟨.poll, [], [], [flushedRecv], [flushedSend], []⟩, .hca 7 .reportRecv),
    (⟨.poll, [], [], [], [flushedSend], [⟨false, flushedRecv⟩]⟩, .hca 7 .reportSend),
    (⟨.poll, [], [], [], [], [⟨false, flushedRecv⟩, ⟨true, flushedSend⟩]⟩, .poll 2),
    (⟨.dispatch [flushedRecv, flushedSend], [], [], [], [], []⟩, .server .ok),
    (⟨.copy 7 [flushedSend], [], [], [], [], []⟩, .server .ok),
    (⟨.postRecv 7 [flushedSend], [], [], [], [], []⟩, .server .ok),
    (⟨.postSend 7 [flushedSend], [7], [], [], [], []⟩, .server .ok),
    (⟨.dispatch [flushedSend], [7], [⟨7, none⟩], [], [], []⟩, .server .ok),
    (⟨.dispatch [], [7], [⟨7, none⟩], [], [], []⟩, .server .ok)]

def shape (n : ℕ) : Shape := (round.map Prod.fst).getD (n % 11) ⟨.poll, [], [], [], [], []⟩

def spin (n : ℕ) : Action Unit AnyPeer.Action := (round.map Prod.snd).getD (n % 11) (.poll 0)

theorem leads_round (n : ℕ) : Leads (shape n) (spin n) (shape (n + 1)) := by
  have hk : n % 11 < 11 := Nat.mod_lt _ (by decide)
  have hnext : (n + 1) % 11 = (n % 11 + 1) % 11 := by omega
  unfold shape spin
  rw [hnext]
  generalize n % 11 = k at hk
  interval_cases k
  · exact leads_flushRecv
  · exact leads_flushSend
  · exact leads_reportRecv
  · exact leads_reportSend
  · exact leads_poll (by decide) (by decide) (by decide)
  · exact leads_dispatch
  · exact leads_copy
  · exact leads_postRecv (by decide)
  · exact leads_postSend (by decide)
  · exact leads_dispatch
  · exact leads_done

/-- It does not fit, so the queue pair fails. -/
def overlong : Payload := .replicate (bufferSize + 1) 0

theorem overlong_spins : ∃ s,
    Run.run (step AnyPeer.peer) (State.initial fun _ => zeros) (oneMessage overlong) = some s ∧
      Spinning (shape 0) s := by
  have hrun : ∃ s ∈ Run.run (step AnyPeer.peer) (State.initial fun _ => zeros)
      (oneMessage overlong), (s.status = .running ∧ s.thread = .cqEvent 7 .poll) ∧ ∃ l ∈ s.links 7,
        (l.conn.recvWrId = 7 ∧ l.conn.sendWrId = 7 ∧ CString.Terminated l.conn.recvBuff.bytes ∧
          l.conn.ep.failed = true) ∧ l.conn.ep.rq = [7] ∧
        l.conn.ep.sq.map (fun x => (x.wrId, x.payload)) = [(7, none)] ∧ l.conn.ep.recvDone = [] ∧
          l.conn.ep.sendDone = [] ∧ l.conn.ep.cq.entries = [] := by decide +kernel
  obtain ⟨s, hs, ⟨hst, hth⟩, l, hl, ⟨hr, hw, hnul, hf⟩, hrq, hsq, hrd, hsd, hes⟩ := hrun
  refine ⟨s, hs, hst, hth, l, hl, hr, hw, hnul, hf, hrq, ?_, hrd, hsd, hes⟩
  match hq : l.conn.ep.sq, hsq with
  | [⟨w, p⟩], hsq =>
    obtain ⟨rfl, rfl⟩ : w = 7 ∧ p = none := by simpa using hsq
    rfl

/-- The call that goes round and round. -/
theorem exists_spin : ∃ s, ∃ x : Run.Execution (Run.idling (step AnyPeer.peer)) s,
    Run.run (step AnyPeer.peer) (State.initial fun _ => zeros) (oneMessage overlong) = some s ∧
      (∀ n, x.label n = some (spin n)) ∧ ∀ n, InCall 7 (x.state n) := by
  obtain ⟨s, hs, hspin⟩ := overlong_spins
  have hround : ∀ n s, Spinning (shape n) s →
      ∃ t, Run.idling (step AnyPeer.peer) s (some (spin n)) = some t ∧
        Spinning (shape (n + 1)) t := leads_round
  obtain ⟨x, hx, hshape⟩ := Run.exists_execution hround hspin
  exact ⟨s, x, hs, congrFun hx, fun n => ⟨_, (hshape n).thread⟩⟩

theorem spin_not_arrives (n : ℕ) : ¬Arrives 7 (spin n) := by
  have hk : n % 11 < 11 := Nat.mod_lt _ (by decide)
  unfold spin
  generalize n % 11 = k at hk
  interval_cases k <;> exact id

/-- Each time around, the fifth label is a poll. -/
theorem spin_polls (k : ℕ) : Polls (spin (11 * k + 4)) := by
  have hmod : (11 * k + 4) % 11 = 4 := by omega
  rw [spin, hmod]
  trivial

/-- One message that is too long, and no other, keeps the thread in
`handle_cq_event` for ever. -/
theorem endless : ∃ s, ∃ x : Run.Execution (Run.idling (step AnyPeer.peer)) s,
    Run.run (step AnyPeer.peer) (State.initial fun _ => zeros) (oneMessage overlong) = some s ∧
      (∀ n, InCall 7 (x.state n)) ∧ x.WeakFair ByThread ∧ (∀ n, ¬x.Takes (Arrives 7) n) ∧
        ¬CallReturns x 7 := by
  obtain ⟨s, x, hs, hx, hcall⟩ := exists_spin
  have hpolls : ∀ k, x.Takes Polls (11 * k + 4) := fun k => ⟨_, hx _, spin_polls k⟩
  refine ⟨s, x, hs, hcall, fun N _ => ?_, ?_, fun hret => ?_⟩
  · obtain ⟨a, hlabel, ha⟩ := hpolls N
    exact ⟨11 * N + 4, by omega, a, hlabel, ha.byThread⟩
  · rintro n ⟨a, hlabel, ha⟩
    rw [hx n] at hlabel
    exact spin_not_arrives n (Option.some.inj hlabel ▸ ha)
  · refine Set.infinite_of_injective_forall_mem (f := fun k => 11 * k + 4) ?_ ?_ hret.polls
    · intro i j hij
      have : 11 * i + 4 = 11 * j + 4 := hij
      omega
    · exact fun k => ⟨fun m _ => hcall m, hpolls k⟩

end RdmaTutorial.Rdmacm05
