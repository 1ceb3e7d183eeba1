import RdmaTutorial.Lib.Run
import RdmaTutorial.Echo.Link
import RdmaTutorial.Rdmacm05.Server

/-!
# Each connection of the rdmacm05 server is an echo connection

`view s c` is connection `c` of a server state as a state of the machine
`Echo.step`, and `label s a` the move of that machine a step of the server is,
with the connection it concerns. `step_local` is the refinement: every step of
the server is such a move of one connection and leaves all others alone, or
changes no connection at all, or opens or closes one.

It rests on the `wr_id`s: `Tagged` says that every work request and every
completion of a connection carries that connection's address, so the
connection `handle_cq_event` finds through `wr_id` is the one whose queue it
polls.
-/

namespace RdmaTutorial.Rdmacm05

open Verbs

variable {ρ σ α : Type} {P : Peer ρ σ α}

def SetupPc.stage : SetupPc → Echo.Stage
  | .reqNotify => .opening
  | .createQp => .opening
  | .postRecv => .opening
  | .register => .quiet
  | .accept => .quiet

def CqEventPc.stage : CqEventPc → Echo.Stage
  | .ack => .quiet
  | .reqNotify => .quiet
  | .poll => .quiet
  | .dispatch wcs => .batch wcs
  | .copy _ wcs => .copy wcs
  | .postRecv _ wcs => .postRecv wcs
  | .postSend _ wcs => .postSend wcs

/-- How far the thread is with connection `c`. -/
def Thread.stage (c : Nc) : Thread → Echo.Stage
  | .loop => .quiet
  | .setup nc pc => if nc = c then pc.stage else .quiet
  | .cqEvent cc pc => if cc = c then pc.stage else .quiet

/-- Connection `c` as a connection of its own. -/
def view (s : State σ) (c : Nc) : Option (Echo.State σ) :=
  (s.links c).map fun l => ⟨s.thread.stage c, l.conn, l.peer⟩

/-- The connection a step concerns, and its move. -/
def label (s : State σ) : Action ρ α → Option (Nc × Echo.Move α)
  | .connect _ _ _ _ => none
  | .disconnect _ => none
  | .cqEvent cc => some (cc, .event)
  | .server r =>
    match s.thread, r with
    | .setup nc .reqNotify, .ok => some (nc, .arm)
    | .setup nc .postRecv, _ => some (nc, .firstRecv)
    | .setup nc .accept, .ok => some (nc, .established)
    | .cqEvent cc .reqNotify, .ok => some (cc, .arm)
    | .cqEvent cc (.dispatch _), _ => some (cc, .next)
    | .cqEvent cc (.copy _ _), _ => some (cc, .copy)
    | .cqEvent cc (.postRecv _ _), _ => some (cc, .postRecv)
    | .cqEvent cc (.postSend _ _), _ => some (cc, .postSend)
    | _, _ => none
  | .poll n =>
    match s.thread with
    | .cqEvent cc .poll => if n = 0 then none else some (cc, .poll n)
    | _ => none
  | .hca nc m => some (nc, .hca m)
  | .toServer nc opcode => some (nc, .toServer opcode)
  | .toPeer nc => some (nc, .toPeer)
  | .peer nc a => some (nc, .peer a)

/-- The moves of one kind are the steps of one kind. -/
theorem label_copy {s : State σ} {a : Action ρ α} {c : Nc} (h : label s a = some (c, .copy)) :
    ∃ nc wcs r, s.thread = .cqEvent c (.copy nc wcs) ∧ a = .server r := by
  cases a with
  | server r =>
    simp only [label] at h
    split at h <;> cases h
    exact ⟨_, _, _, ‹_›, rfl⟩
  | poll n =>
    simp only [label] at h
    split at h
    · split at h <;> cases h
    · cases h
  | _ => cases h

/-- The step of the server that a move of connection `c` is, when it is not one of
the thread's. -/
def ofOutside (c : Nc) : Echo.Move α → Option (Action ρ α)
  | .hca m => some (.hca c m)
  | .toServer opcode => some (.toServer c opcode)
  | .toPeer => some (.toPeer c)
  | .peer a => some (.peer c a)
  | _ => none

theorem label_outside {s : State σ} {a a' : Action ρ α} {c : Nc} {b : Echo.Move α}
    (h : label s a = some (c, b)) (hb : ofOutside c b = some a') : a = a' := by
  cases a with
  | server r =>
    simp only [label] at h
    split at h <;> cases h <;> cases hb
  | poll n =>
    simp only [label] at h
    split at h
    · split at h <;> cases h
      cases hb
    · cases h
  | hca nc m => cases h; cases hb; rfl
  | toServer nc opcode => cases h; cases hb; rfl
  | toPeer nc => cases h; cases hb; rfl
  | peer nc x => cases h; cases hb; rfl
  | cqEvent cc => cases h; cases hb
  | _ => cases h

theorem label_hca {s : State σ} {a : Action ρ α} {c : Nc} {m : Hca}
    (h : label s a = some (c, .hca m)) : a = .hca c m := label_outside h rfl

theorem label_toServer {s : State σ} {a : Action ρ α} {c : Nc} {opcode : WcOpcode}
    (h : label s a = some (c, .toServer opcode)) : a = .toServer c opcode := label_outside h rfl

theorem label_peer {s : State σ} {a : Action ρ α} {c : Nc} {x : α}
    (h : label s a = some (c, .peer x)) : a = .peer c x := label_outside h rfl

/-- What the thread holds of `cc`'s completions points to `cc`. -/
def CqEventPc.Tagged (cc : Nc) : CqEventPc → Prop
  | .dispatch wcs => ∀ wc ∈ wcs, wc.wrId = cc
  | .copy nc wcs => nc = cc ∧ ∀ wc ∈ wcs, wc.wrId = cc
  | .postRecv nc wcs => nc = cc ∧ ∀ wc ∈ wcs, wc.wrId = cc
  | .postSend nc wcs => nc = cc ∧ ∀ wc ∈ wcs, wc.wrId = cc
  | _ => True

/-- The thread works on a connection that exists. -/
def Thread.Ok (links : Nc → Option (Link σ)) : Thread → Prop
  | .loop => True
  | .setup nc _ => (links nc).isSome
  | .cqEvent cc pc => (links cc).isSome ∧ pc.Tagged cc

/-- Every identifier of a work request of `c` is `c`. -/
structure ConnTagged (c : Nc) (k : Connection) : Prop where
  recvWrId : k.recvWrId = c
  sendWrId : k.sendWrId = c
  all : k.ep.All (· = c) (·.wrId = c) (·.wrId = c)

structure Tagged (s : State σ) : Prop where
  conns : ∀ c l, s.links c = some l → ConnTagged c l.conn
  thread : s.thread.Ok s.links

/-- What a step of the server is to its connections. -/
inductive Local (P : Peer ρ σ α) (s : State σ) (a : Action ρ α) (t : State σ) : Prop where
  /-- No connection changes: the step is none's, or a move that is not
  enabled. -/
  | same (hlinks : t.links = s.links)
      (hstage : ∀ c, (s.links c).isSome → t.thread.stage c = s.thread.stage c)
      (hidle : ∀ m ∈ label s a, ∀ e ∈ view s m.1, Echo.step P e m.2 = none)
  | opens (nc : Nc) (i j : Nat) (r b : Block) (x : ρ) (haction : a = .connect nc i j x)
      (hnew : s.links nc = none) (hr : s.free i = some r) (hb : s.free j = some b)
      (hlinks : t.links = Function.update s.links nc
        (some { conn := .create nc nc r b, recvAt := i, sendAt := j, peer := P.fresh x,
                handled := [] }))
      (hstage : t.thread.stage nc = .opening)
      (hothers : ∀ c, c ≠ nc → t.thread.stage c = s.thread.stage c)
  | closes (nc : Nc) (haction : a = .disconnect nc)
      (hlinks : t.links = Function.update s.links nc none) (hstage : t.thread = s.thread)
  /-- One connection makes a move of its own. -/
  | moves (c : Nc) (b : Echo.Move α) (l l' : Link σ) (hlabel : label s a = some (c, b))
      (hl : s.links c = some l)
      (hmove : Echo.step P ⟨s.thread.stage c, l.conn, l.peer⟩ b =
        some ⟨t.thread.stage c, l'.conn, l'.peer⟩)
      (hlinks : t.links = Function.update s.links c (some l'))
      (hothers : ∀ c', c' ≠ c → t.thread.stage c' = s.thread.stage c')

@[simp] theorem stage_loop (c : Nc) : Thread.loop.stage c = .quiet := rfl

@[simp] theorem stage_setup_self (c : Nc) (pc : SetupPc) : (Thread.setup c pc).stage c = pc.stage :=
  if_pos rfl

@[simp] theorem stage_cqEvent_self (c : Nc) (pc : CqEventPc) :
    (Thread.cqEvent c pc).stage c = pc.stage := if_pos rfl

theorem stage_setup_ne {c nc : Nc} (h : c ≠ nc) (pc : SetupPc) :
    (Thread.setup nc pc).stage c = .quiet := if_neg (Ne.symm h)

theorem stage_cqEvent_ne {c cc : Nc} (h : c ≠ cc) (pc : CqEventPc) :
    (Thread.cqEvent cc pc).stage c = .quiet := if_neg (Ne.symm h)

@[simp] theorem stage_dispatchPc (wc : Wc Nc) (wcs : List (Wc Nc)) :
    (dispatchPc wc wcs).stage = Echo.dispatch wc wcs := by
  unfold dispatchPc Echo.dispatch
  cases h : wc.opcode <;> simp [CqEventPc.stage]

/-- A statement of the thread that is a move of connection `c`. -/
theorem Local.of_thread {s : State σ} {a : Action ρ α} {c : Nc} {l l' : Link σ} {t t' : Thread}
    {b : Echo.Move α} (hthread : s.thread = t) (hl : s.links c = some l)
    (hlabel : label s a = some (c, b))
    (hmove : Echo.step P ⟨t.stage c, l.conn, l.peer⟩ b = some ⟨t'.stage c, l'.conn, l'.peer⟩)
    (hothers : ∀ c', c' ≠ c → t'.stage c' = t.stage c') :
    Local P s a ((s.setLink c l').goto t') :=
  .moves c b l l' hlabel hl (by rw [hthread]; exact hmove) rfl fun c' hc' => by
    rw [hthread]; exact hothers c' hc'

/-- A statement of the thread that changes no connection, nor how far it is
with one. -/
theorem Local.of_goto {s : State σ} {a : Action ρ α} {t t' : Thread} (hthread : s.thread = t)
    (hlabel : label s a = none) (hstage : ∀ c, t'.stage c = t.stage c) :
    Local P s a (s.goto t') :=
  .same rfl (fun c _ => by rw [hthread]; exact hstage c) (by simp [hlabel])

/-- A statement of the thread that does not succeed. -/
theorem Local.of_fails {s t : State σ} {a : Action ρ α} {c : Nc} {b : Echo.Move α} {l : Link σ}
    (hl : s.links c = some l) (hlabel : label s a = some (c, b)) (hlinks : t.links = s.links)
    (hthread : t.thread = s.thread)
    (hidle : Echo.step P ⟨s.thread.stage c, l.conn, l.peer⟩ b = none) : Local P s a t := by
  refine .same hlinks (fun _ _ => by rw [hthread]) fun m hm e he => ?_
  obtain rfl : (c, b) = m := Option.some.inj (hlabel.symm.trans hm)
  obtain ⟨k, hk, rfl⟩ := Option.map_eq_some_iff.mp he
  obtain rfl : l = k := Option.some.inj (hl.symm.trans hk)
  exact hidle

theorem stage_setup_congr {nc : Nc} {pc pc' : SetupPc} (h : pc'.stage = pc.stage) (c : Nc) :
    (Thread.setup nc pc').stage c = (Thread.setup nc pc).stage c := by
  simp only [Thread.stage, h]

theorem stage_cqEvent_congr {cc : Nc} {pc pc' : CqEventPc} (h : pc'.stage = pc.stage) (c : Nc) :
    (Thread.cqEvent cc pc').stage c = (Thread.cqEvent cc pc).stage c := by
  simp only [Thread.stage, h]

theorem stage_setup_quiet {nc : Nc} {pc : SetupPc} (h : pc.stage = .quiet) (c : Nc) :
    (Thread.setup nc pc).stage c = .quiet := by
  simp only [Thread.stage, h, ite_self]

theorem stage_cqEvent_quiet {cc : Nc} {pc : CqEventPc} (h : pc.stage = .quiet) (c : Nc) :
    (Thread.cqEvent cc pc).stage c = .quiet := by
  simp only [Thread.stage, h, ite_self]

/-- **Refinement.** Every step of the server is a move of one of its
connections, or no connection's. -/
theorem step_local {s t : State σ} {a : Action ρ α} (hs : Tagged s) (h : step P s a = some t) :
    Local P s a t := by
  have hok := hs.thread
  cases Step.of_step h with
  | connect hthread hnew hr hb hij =>
    exact .opens _ _ _ _ _ _ rfl hnew hr hb rfl (stage_setup_self _ _) fun c hc => by
      rw [hthread]; exact stage_setup_ne hc _
  | disconnect hthread hl => exact .closes _ rfl rfl rfl
  | setupArm hthread hl =>
    exact .of_thread (b := .arm) hthread hl (by simp [label, hthread])
      (by simp [Echo.step, SetupPc.stage]) fun c _ => stage_setup_congr rfl c
  | createQp hthread => exact .of_goto hthread (by simp [label, hthread]) (stage_setup_congr rfl)
  | firstRecv hthread hl hc =>
    exact .of_thread (b := .firstRecv) hthread hl (by simp [label, hthread])
      (by simp [Echo.step, SetupPc.stage, hc]) fun c hne => by
        rw [stage_setup_ne hne, stage_setup_ne hne]
  | register hthread => exact .of_goto hthread (by simp [label, hthread]) (stage_setup_congr rfl)
  | accept hthread hl =>
    exact .of_thread (b := .established) hthread hl (by simp [label, hthread])
      (by simp [Echo.step, SetupPc.stage]) fun c _ => (stage_setup_quiet rfl c).symm
  | @setupFails nc pc hthread hpc reason =>
    -- `ibv_post_recv` has a case of its own, because it fails for lack of room.
    cases pc with
    | postRecv => exact absurd rfl hpc
    | _ => exact .same rfl (fun _ _ => rfl) (by simp [label, hthread])
  | firstRecvFails hthread hl hc =>
    exact .of_fails (b := .firstRecv) hl (by simp [label, hthread]) rfl rfl
      (by simp [hthread, Echo.step, SetupPc.stage, hc])
  | cqEvent hthread hl hev =>
    exact .of_thread (b := .event) hthread hl rfl
      (by simp [Echo.step, CqEventPc.stage, Cq.getEvent, Nat.ne_of_gt hev]) fun c _ =>
        stage_cqEvent_quiet rfl c
  | ack hthread => exact .of_goto hthread (by simp [label, hthread]) (stage_cqEvent_congr rfl)
  | arm hthread hl =>
    exact .of_thread (b := .arm) hthread hl (by simp [label, hthread])
      (by simp [Echo.step, CqEventPc.stage]) fun c _ => stage_cqEvent_congr rfl c
  | armFails hthread =>
    exact .of_goto hthread (by simp [label, hthread]) fun c => (stage_cqEvent_quiet rfl c).symm
  | pollFails hthread =>
    exact .of_goto hthread (by simp [label, hthread]) fun c => (stage_cqEvent_quiet rfl c).symm
  | pollEmpty hthread hl hempty =>
    exact .of_goto hthread (by simp [label, hthread]) fun c => (stage_cqEvent_quiet rfl c).symm
  | @poll cc l n hthread hl hpos hmax hlen =>
    -- The batch leaves the queue and is in the thread's hands.
    exact .of_thread (b := .poll n) hthread hl (by simp [label, hthread, Nat.ne_of_gt hpos])
      (by simp [Echo.step, CqEventPc.stage]) fun c hne => by
        rw [stage_cqEvent_ne hne, stage_cqEvent_ne hne]
  | done hthread =>
    rw [hthread] at hok
    obtain ⟨l, hl⟩ := Option.isSome_iff_exists.mp hok.1
    refine .moves _ .next l l (by simp [label, hthread]) hl ?_ ?_ fun c hne => ?_
    · simp [State.goto, hthread, Echo.step, CqEventPc.stage]
    · simp [State.goto, ← hl]
    · simp [State.goto, hthread, stage_cqEvent_ne hne]
  | dispatch hthread hl =>
    refine .of_thread (b := .next) hthread hl (by simp [label, hthread]) ?_ fun c hne => by
      rw [stage_cqEvent_ne hne, stage_cqEvent_ne hne]
    simp only [stage_cqEvent_self, stage_dispatchPc]
    rfl
  | copy hthread hl hc =>
    -- `wr_id` leads back to the connection whose queue was polled.
    rw [hthread] at hok
    obtain ⟨-, rfl, -⟩ := hok
    exact .of_thread (b := .copy) hthread hl (by simp [label, hthread])
      (by simp [Echo.step, CqEventPc.stage, hc]) fun c hne => by
        rw [stage_cqEvent_ne hne, stage_cqEvent_ne hne]
  | postRecv hthread hl hc =>
    rw [hthread] at hok
    obtain ⟨-, rfl, -⟩ := hok
    exact .of_thread (b := .postRecv) hthread hl (by simp [label, hthread])
      (by simp [Echo.step, CqEventPc.stage, hc]) fun c hne => by
        rw [stage_cqEvent_ne hne, stage_cqEvent_ne hne]
  | postSend hthread hl hc =>
    rw [hthread] at hok
    obtain ⟨-, rfl, -⟩ := hok
    exact .of_thread (b := .postSend) hthread hl (by simp [label, hthread])
      (by simp [Echo.step, CqEventPc.stage, hc]) fun c hne => by
        rw [stage_cqEvent_ne hne, stage_cqEvent_ne hne]
  | copyFails hthread hl hc =>
    rw [hthread] at hok
    obtain ⟨-, rfl, -⟩ := hok
    exact .of_fails (b := .copy) hl (by simp [label, hthread]) rfl rfl
      (by simp [hthread, Echo.step, CqEventPc.stage, hc])
  | postRecvFails hthread hl hc =>
    rw [hthread] at hok
    obtain ⟨-, rfl, -⟩ := hok
    exact .of_fails (b := .postRecv) hl (by simp [label, hthread]) rfl rfl
      (by simp [hthread, Echo.step, CqEventPc.stage, hc])
  | postSendFails hthread hl hc =>
    rw [hthread] at hok
    obtain ⟨-, rfl, -⟩ := hok
    exact .of_fails (b := .postSend) hl (by simp [label, hthread]) rfl rfl
      (by simp [hthread, Echo.step, CqEventPc.stage, hc])
  | @stray cc nc wcs pc r hthread hpc hl =>
    rw [hthread] at hok
    obtain ⟨hsome, htagged⟩ := hok
    -- the thread's `wr_id`s point to the connection it works for
    have hnc : nc = cc := by
      rcases hpc with rfl | rfl | rfl <;> exact htagged.1
    simp [← hnc, hl] at hsome
  | @hca nc l m c hl hc =>
    exact .moves nc (.hca m) l { l with conn := c } rfl hl
      (by simp [Echo.step, hc, State.setConn, State.setLink]) rfl fun _ _ => rfl
  | @toServer nc l opcode p hl hoffer hready =>
    exact .moves nc (.toServer opcode) l _ rfl hl
      (by simp [Echo.step, hoffer, hready, State.setLink]) rfl fun _ _ => rfl
  | @toPeer nc l p hl hout hacc =>
    exact .moves nc .toPeer l _ rfl hl (by simp [Echo.step, hout, hacc, State.setLink]) rfl
      fun _ _ => rfl
  | @peer nc l x q hl hq =>
    exact .moves nc (.peer x) l _ rfl hl (by simp [Echo.step, hq, State.setLink]) rfl
      fun _ _ => rfl

/-! ## The identifiers -/

/-- A connection's own moves keep its identifiers. -/
theorem ConnTagged.move {c : Nc} {e e' : Echo.State σ} {b : Echo.Move α}
    (h : ConnTagged c e.conn) (hb : Echo.Step P e b e') : ConnTagged c e'.conn := by
  obtain ⟨hr, hs, hall⟩ := h
  cases hb with
  | arm => exact ⟨hr, hs, hall.reqNotify⟩
  | event => exact ⟨hr, hs, hall.rq, hall.sq, hall.recvDone, hall.sendDone, hall.cq⟩
  | firstRecv hcap => exact ⟨hr, hs, hall.postRecv hr (if_pos hcap)⟩
  | established => exact ⟨hr, hs, hall⟩
  | poll k p n => exact ⟨hr, hs, hall.poll n⟩
  | done => exact ⟨hr, hs, hall⟩
  | next => exact ⟨hr, hs, hall⟩
  | copy => exact ⟨hr, hs, hall⟩
  | postRecv hcap => exact ⟨hr, hs, hall.postRecv hr (if_pos hcap)⟩
  | postSend hcap => exact ⟨hr, hs, hall.postSend hs (if_pos hcap)⟩
  | hca he => exact ⟨hr, hs, hall.hca (fun _ _ hw => hw) (fun _ _ hw => hw) he⟩
  | toServer hoffer hready =>
    refine ⟨hr, hs, ?_⟩
    simp only [Connection.receive]
    split
    · exact hall.arrive _ fun _ hw => hw
    · exact hall.overrun _ fun _ hw => hw
  | toPeer => exact ⟨hr, hs, hall.delivered fun _ hw => hw⟩
  | peer => exact ⟨hr, hs, hall⟩

/-- The completions of a tagged queue are tagged. -/
theorem ConnTagged.taken {c : Nc} {k : Connection} (h : ConnTagged c k) (n : Nat) :
    ∀ wc ∈ k.ep.cq.taken n, wc.wrId = c := by
  intro wc hwc
  obtain ⟨x, hx, rfl⟩ := List.mem_map.mp hwc
  have := h.all.cq x (List.mem_of_mem_take hx)
  split at this <;> exact this

theorem dispatchPc_tagged {cc : Nc} {wc : Wc Nc} {wcs : List (Wc Nc)}
    (h : ∀ v ∈ wc :: wcs, v.wrId = cc) : (dispatchPc wc wcs).Tagged cc := by
  have hrest : ∀ v ∈ wcs, v.wrId = cc := fun v hv => h v (by simp [hv])
  unfold dispatchPc
  cases wc.opcode with
  | send => exact hrest
  | recv => exact ⟨h wc (by simp), hrest⟩
  | other k => exact hrest

theorem Thread.Ok.mono {links links' : Nc → Option (Link σ)} {t : Thread} (h : t.Ok links)
    (hl : ∀ c, (links c).isSome → (links' c).isSome) : t.Ok links' := by
  cases t with
  | loop => trivial
  | setup nc pc => exact hl nc h
  | cqEvent cc pc => exact ⟨hl cc h.1, h.2⟩

theorem isSome_update {links : Nc → Option (Link σ)} (nc : Nc) (l : Link σ) (c : Nc)
    (h : (links c).isSome) : (Function.update links nc (some l) c).isSome := by
  by_cases hc : c = nc
  · subst hc; simp
  · simpa [hc] using h

theorem thread_step {s t : State σ} {a : Action ρ α} (hs : Tagged s) (h : step P s a = some t) :
    t.thread.Ok t.links := by
  have hok := hs.thread
  have hset : ∀ nc l c, (s.links c).isSome → ((s.setLink nc l).links c).isSome := fun nc l =>
    isSome_update nc l
  cases Step.of_step h with
  | connect hthread hnew hr hb hij => simp [State.goto, State.setLink, Thread.Ok]
  | disconnect hthread hl => simp [State.release, hthread, Thread.Ok]
  | setupArm hthread hl => rw [hthread] at hok; exact hset _ _ _ hok
  | createQp hthread => rw [hthread] at hok; exact hok
  | firstRecv hthread hl hc => rw [hthread] at hok; exact hset _ _ _ hok
  | register hthread => rw [hthread] at hok; exact hok
  | accept hthread hl => trivial
  | cqEvent hthread hl hev => exact ⟨hset _ _ _ (by simp [hl]), trivial⟩
  | ack hthread => rw [hthread] at hok; exact hok
  | arm hthread hl => rw [hthread] at hok; exact ⟨hset _ _ _ hok.1, trivial⟩
  | armFails hthread => trivial
  | pollFails hthread => trivial
  | pollEmpty hthread hl hempty => trivial
  | poll hthread hl hpos hmax hlen =>
    exact ⟨hset _ _ _ (by simp [hl]), (hs.conns _ _ hl).taken _⟩
  | done hthread => rw [hthread] at hok; exact ⟨hok.1, trivial⟩
  | dispatch hthread hl =>
    rw [hthread] at hok
    exact ⟨hset _ _ _ hok.1, dispatchPc_tagged hok.2⟩
  | copy hthread hl hc => rw [hthread] at hok; exact ⟨hset _ _ _ hok.1, hok.2⟩
  | postRecv hthread hl hc => rw [hthread] at hok; exact ⟨hset _ _ _ hok.1, hok.2⟩
  | postSend hthread hl hc => rw [hthread] at hok; exact ⟨hset _ _ _ hok.1, hok.2.2⟩
  | hca hl hc => exact hok.mono (hset _ _)
  | toServer hl hoffer hready => exact hok.mono (hset _ _)
  | toPeer hl hout hacc => exact hok.mono (hset _ _)
  | peer hl hq => exact hok.mono (hset _ _)
  | _ => exact hok

theorem tagged_initial {heap : Nat → Block} : Tagged (State.initial heap : State σ) :=
  ⟨fun c l h => by simp [State.initial] at h, trivial⟩

theorem tagged_step {s t : State σ} {a : Action ρ α} (hs : Tagged s) (h : step P s a = some t) :
    Tagged t := by
  refine ⟨fun c k hk => ?_, thread_step hs h⟩
  cases step_local hs h with
  | same hlinks => exact hs.conns c k (by rw [← hlinks]; exact hk)
  | opens nc i j r b x haction hnew hr hb hlinks =>
    rw [hlinks] at hk
    by_cases hc : c = nc
    · subst hc
      simp only [Function.update_self, Option.some.injEq] at hk
      subst hk
      exact ⟨rfl, rfl, Endpoint.All.create rfl⟩
    · exact hs.conns c k (by simpa [hc] using hk)
  | closes nc haction hlinks =>
    rw [hlinks] at hk
    by_cases hc : c = nc
    · subst hc; simp at hk
    · exact hs.conns c k (by simpa [hc] using hk)
  | moves nc b l l' hlabel hl hmove hlinks =>
    rw [hlinks] at hk
    by_cases hc : c = nc
    · subst hc
      simp only [Function.update_self, Option.some.injEq] at hk
      subst hk
      exact ConnTagged.move (e := ⟨_, l.conn, l.peer⟩) (hs.conns c l hl)
        (Echo.Step.of_step hmove)
    · exact hs.conns c k (by simpa [hc] using hk)

/-! ## Lifting what holds of one connection -/

/-- The step condition `Q` on a connection's moves, as a condition on the
steps of the server. -/
def OnMoves (Q : Echo.State σ → Echo.Move α → Prop) (s : State σ) (a : Action ρ α) : Prop :=
  ∀ m ∈ label s a, ∀ e ∈ view s m.1, Q e m.2

instance {Q : Echo.State σ → Echo.Move α → Prop} [∀ e b, Decidable (Q e b)] (s : State σ)
    (a : Action ρ α) : Decidable (OnMoves Q s a) :=
  inferInstanceAs (Decidable (∀ m ∈ label s a, ∀ e ∈ view s m.1, Q e m.2))

/-- The connection a `CONNECT_REQUEST` starts from. -/
def Opened (P : Peer ρ σ α) (c : Nc) (e : Echo.State σ) : Prop :=
  ∃ r b x, e = ⟨.opening, .create c c r b, P.fresh x⟩

theorem view_of_links {s : State σ} {c : Nc} {l : Link σ} (h : s.links c = some l) :
    view s c = some ⟨s.thread.stage c, l.conn, l.peer⟩ := by
  simp [view, h]

/-- The server projects to its connections. -/
theorem projects (Q : Echo.State σ → Echo.Move α → Prop) :
    Run.Projects (step P) Tagged (OnMoves Q) view (Opened P) (Echo.step P) Q := by
  refine ⟨fun s a t hs h => tagged_step hs h, fun s a t hs hQ h c e he => ?_⟩
  simp only [view, Option.map_eq_some_iff] at he
  obtain ⟨k, hk, rfl⟩ := he
  cases step_local hs h with
  | same hlinks hstage =>
    rw [hlinks] at hk
    rw [hstage c (by simp [hk])]
    exact .inl (view_of_links hk)
  | opens nc i j r b x haction hnew hr hb hlinks hstage hothers =>
    rw [hlinks] at hk
    by_cases hc : c = nc
    · subst hc
      simp only [Function.update_self, Option.some.injEq] at hk
      subst hk
      exact .inr (.inl ⟨by simp [view, hnew], r, b, x, by rw [hstage]⟩)
    · rw [hothers c hc]
      exact .inl (view_of_links (by simpa [hc] using hk))
  | closes nc haction hlinks hstage =>
    rw [hlinks] at hk
    by_cases hc : c = nc
    · subst hc; simp at hk
    · rw [hstage]
      exact .inl (view_of_links (by simpa [hc] using hk))
  | moves nc b l l' hlabel hl hmove hlinks hothers =>
    rw [hlinks] at hk
    by_cases hc : c = nc
    · subst hc
      simp only [Function.update_self, Option.some.injEq] at hk
      subst hk
      have hv := view_of_links hl
      exact .inr (.inr ⟨_, b, hv, hQ (c, b) hlabel _ hv, hmove⟩)
    · rw [hothers c hc]
      exact .inl (view_of_links (by simpa [hc] using hk))

end RdmaTutorial.Rdmacm05
