import RdmaTutorial.ClientOrder
import RdmaTutorial.EchoLoop
import RdmaTutorial.Rdmacm05.Echoes

/-!
# The client and the server of one directory

rdmacm03, rdmacm04 and rdmacm05 each have a server whose connections are echo
connections, whatever drives them; with the client of the same directory at
the other end each of them is in lock step. What follows for the receives of
both sides is stated here once for all three.
-/

namespace RdmaTutorial

open Verbs

/-- A server with any number of clients of the repository: a machine that
projects to echo connections with a `Client` at the other end. -/
structure EchoServer where
  State : Type
  Action : Type
  step : State → Action → Option State
  Initial : State → Prop
  /-- No completion is unsuccessful, at either end. -/
  Succeeds : Action → Prop
  conn : State → Nc → Option (Echo.State Client)
  Good : State → Prop
  good : ∀ s, Initial s → Good s
  started : ∀ s c e, Initial s → conn s c = some e → Echo.LockStep e
  projects : Run.Projects step Good (fun _ a => Succeeds a) conn (fun _ e => Echo.LockStep e)
    (Echo.step Client.peer) (fun _ b => Echo.Succeeds b)

/-- An arrival finds its receive posted and nothing of an earlier message left
to read, at the server and at the client. -/
structure ReceiverReady (e : Echo.State Client) : Prop where
  server : e.peer.conn.ep.sq ≠ [] →
    e.conn.ep.ready = true ∧ e.conn.ep.rq.length = 1 ∧ e.unread = 0
  client : e.conn.ep.sq ≠ [] →
    e.peer.conn.ep.ready = true ∧ e.peer.conn.ep.rq.length = 1 ∧ e.peer.unreadEcho = 0

theorem ready_of_length {e : Endpoint Nc Payload} (hf : e.failed = false)
    (hr : e.rq.length = 1) : e.ready = true := by
  cases hq : e.rq with
  | nil => simp [hq] at hr
  | cons w q => simp [Endpoint.ready, hf, hq]

theorem Echo.LockStep.ready {e : Echo.State Client} (h : Echo.LockStep e) : ReceiverReady e :=
  ⟨fun hsq =>
    have hr := h.server_ready hsq
    ⟨ready_of_length h.sound.clean.alive hr.1, hr⟩,
  fun hsq =>
    have hr := h.client_ready hsq
    ⟨ready_of_length h.own.clean.alive hr.1, hr⟩⟩

/-- The client's program does not write `recv_buff`. -/
theorem Client.Exec.recvBuff {c c' : Client} (h : Client.Exec c c') :
    c'.conn.recvBuff = c.conn.recvBuff := by
  cases h with
  | pollSend hpc hq => simp [Client.pollFor, hq, Connection.poll]
  | pollRecv hpc hq => simp [Client.pollFor, hq, Connection.poll]
  | _ => rfl

/-- Only an arrival writes a `recv_buff`, and it finds it read. -/
theorem Echo.Step.recvBuff {e e' : Echo.State Client} {b : Echo.Move Client.Action}
    (h : Echo.Step Client.peer e b e') (hs : Echo.LockStep e) :
    (e'.conn.recvBuff ≠ e.conn.recvBuff → e.unread = 0) ∧
      (e'.peer.conn.recvBuff ≠ e.peer.conn.recvBuff → e.peer.unreadEcho = 0) := by
  cases h with
  | toServer hoffer hready =>
    obtain ⟨-, w, q, hq⟩ := Endpoint.outgoing_eq_some hoffer
    exact ⟨fun _ => (hs.server_ready (by simp [hq])).2, fun hne => absurd rfl hne⟩
  | toPeer hout hacc =>
    obtain ⟨-, w, q, hq⟩ := Endpoint.outgoing_eq_some hout
    exact ⟨fun hne => absurd rfl hne, fun _ => (hs.client_ready (by simp [hq])).2⟩
  | established =>
    refine ⟨fun hne => absurd rfl hne, fun hne => absurd ?_ hne⟩
    exact congrArg Connection.recvBuff (Client.established_conn _)
  | @peer _ a q hq =>
    refine ⟨fun hne => absurd rfl hne, fun hne => absurd ?_ hne⟩
    cases a with
    | exec r => exact (Client.Exec.of_exec hq).recvBuff
    | hca m =>
      obtain ⟨nc, hnc, rfl⟩ := Option.map_eq_some_iff.mp hq
      obtain ⟨f, -, rfl⟩ := Connection.hca_eq_some hnc
      rfl
  | _ => exact ⟨fun hne => absurd rfl hne, fun hne => absurd rfl hne⟩

theorem EchoServer.lockStep (p : EchoServer) {s t : p.State} {as : List p.Action}
    (hs : p.Initial s) (hrun : Run.run p.step s as = some t) (hok : ∀ a ∈ as, p.Succeeds a) :
    p.Good t ∧ ∀ c e, p.conn t c = some e → Echo.LockStep e :=
  p.projects.invariant (I := fun _ e => Echo.LockStep e) (fun _ _ h => h)
    (fun _ _ _ _ h hb hstep => h.step hb (Echo.Step.of_step hstep)) hrun
    (Run.Meets.of_forall hok) (p.good s hs) fun c e => p.started s c e hs

/-! ## The three servers -/

namespace EchoLoop

/-- No completion is unsuccessful, at either end. -/
def Succeeds : Action Client.Action → Prop
  | .hca m => m.Succeeds
  | .peer (.hca m) => m.Succeeds
  | _ => True

instance : DecidablePred Succeeds := fun a => by
  unfold Succeeds
  split <;> infer_instance

theorem succeeds_label {s : State Client} {a : Action Client.Action} (h : Succeeds a)
    {b : Echo.Move Client.Action} (hl : label s a = some b) : Echo.Succeeds b := by
  cases a with
  | exec r =>
    simp only [label] at hl
    split at hl <;> cases hl <;> trivial
  | hca m => cases hl; exact h
  | toServer opcode => cases hl; trivial
  | toPeer => cases hl; trivial
  | peer x =>
    cases hl
    cases x with
    | exec r => trivial
    | hca m => exact h

/-- `main` of rdmacm03, with one client. -/
def server03 : EchoServer where
  State := State Client
  Action := Action Client.Action
  step := step rdmacm03 Client.peer
  Initial s := ∃ recvId sendId r b a, s = opened Client.peer recvId sendId r b a
  Succeeds := Succeeds
  conn s _ := some (view s)
  Good _ := True
  good _ _ := trivial
  started s c e hs he := by
    obtain ⟨recvId, sendId, r, b, a, rfl⟩ := hs
    cases he
    exact Echo.lockStep_opened recvId sendId r b a
  projects := by
    refine ⟨fun _ _ _ _ _ => trivial, fun s a t _ ha h c e he => ?_⟩
    cases he
    rcases step_view h with hv | ⟨b, hb, hmove⟩
    · exact .inl (by rw [hv])
    · exact .inr (.inr ⟨_, b, rfl, succeeds_label ha hb, hmove⟩)

def WorkerSucceeds : WorkerAction Client.Args Client.Action → Prop
  | .thread _ a => Succeeds a
  | _ => True

/-- The threads of rdmacm04, with one client each. -/
def server04 : EchoServer where
  State := Workers Client
  Action := WorkerAction Client.Args Client.Action
  step := workerStep Client.peer
  Initial w := w = fun _ => none
  Succeeds := WorkerSucceeds
  conn w c := (w c).map view
  Good _ := True
  good _ _ := trivial
  started w c e hw he := by subst hw; cases he
  projects := by
    refine ⟨fun _ _ _ _ _ => trivial, fun w a u _ ha h c e he => ?_⟩
    obtain ⟨t, ht, rfl⟩ := Option.map_eq_some_iff.mp he
    cases a with
    | start nc recvId sendId r b x =>
      simp only [workerStep] at h
      split at h
      · rename_i hnone
        cases h
        by_cases hc : c = nc
        · subst hc
          simp only [Function.update_self, Option.some.injEq] at ht
          subst ht
          exact .inr (.inl ⟨by simpa using hnone, Echo.lockStep_opened recvId sendId r b x⟩)
        · exact .inl (by simpa [hc] using congrArg (Option.map view) ht)
      · cases h
    | finish nc =>
      simp only [workerStep] at h
      split at h
      · split at h
        · cases h
          by_cases hc : c = nc
          · subst hc; simp at ht
          · exact .inl (by simpa [hc] using congrArg (Option.map view) ht)
        · cases h
      · cases h
    | thread nc x =>
      simp only [workerStep, Option.bind_eq_some_iff, Option.map_eq_some_iff] at h
      obtain ⟨s, hs, t', hstep, rfl⟩ := h
      by_cases hc : c = nc
      · subst hc
        simp only [Function.update_self, Option.some.injEq] at ht
        subst ht
        rcases step_view hstep with hv | ⟨b, hb, hmove⟩
        · exact .inl (by simp [hs, hv])
        · exact .inr (.inr ⟨view s, b, by simp [hs], succeeds_label ha hb, hmove⟩)
      · exact .inl (by simpa [hc] using congrArg (Option.map view) ht)

end EchoLoop

/-- `main` of rdmacm05, with any number of clients. -/
def Rdmacm05.server05 : EchoServer where
  State := Rdmacm05.State Client
  Action := Rdmacm05.Action Client.Args Client.Action
  step := Rdmacm05.step Client.peer
  Initial s := ∃ heap, s = State.initial heap
  Succeeds := Rdmacm05.Succeeds
  conn := view
  Good := Tagged
  good s hs := by
    obtain ⟨heap, rfl⟩ := hs
    exact tagged_initial
  started s c e hs he := by
    obtain ⟨heap, rfl⟩ := hs
    simp [view, State.initial] at he
  projects := by
    have hp := projects (P := Client.peer) fun _ b => Echo.Succeeds b
    refine ⟨hp.keeps, fun s a t hs ha h c e he => ?_⟩
    rcases hp.component s a t hs (fun m hm e _ => succeeds_label ha hm) h c e he with
      hv | ⟨hnone, r, b, x, rfl⟩ | hmove
    · exact .inl hv
    · exact .inr (.inl ⟨hnone, Echo.lockStep_opened c c r b x⟩)
    · exact .inr (.inr hmove)

inductive Directory where
  | rdmacm03
  | rdmacm04
  | rdmacm05

def Directory.server : Directory → EchoServer
  | .rdmacm03 => EchoLoop.server03
  | .rdmacm04 => EchoLoop.server04
  | .rdmacm05 => Rdmacm05.server05

/-- In each directory, in every state that the server and its clients reach,
and on every connection: a message or an echo that is under way finds its
receive posted, the only one, and no step overwrites a `recv_buff` from which
the program has still to read. -/
theorem receiver_always_ready (d : Directory) {s t : d.server.State} {as : List d.server.Action}
    (hs : d.server.Initial s) (hrun : Run.run d.server.step s as = some t)
    (hok : ∀ a ∈ as, d.server.Succeeds a) {c : Nc} {e : Echo.State Client}
    (he : d.server.conn t c = some e) :
    ReceiverReady e ∧ ∀ a u e', d.server.Succeeds a → d.server.step t a = some u →
      d.server.conn u c = some e' →
      (e'.conn.recvBuff ≠ e.conn.recvBuff → e.unread = 0) ∧
      (e'.peer.conn.recvBuff ≠ e.peer.conn.recvBuff → e.peer.unreadEcho = 0) := by
  obtain ⟨hgood, hlock⟩ := d.server.lockStep hs hrun hok
  have h := hlock c e he
  refine ⟨h.ready, fun a u e' ha hstep he' => ?_⟩
  rcases d.server.projects.component t a u hgood ha hstep c e' he' with
    hv | ⟨hnone, -⟩ | ⟨l, b, hv, hb, hmove⟩
  · obtain rfl := Option.some.inj (he.symm.trans hv)
    exact ⟨fun hne => absurd rfl hne, fun hne => absurd rfl hne⟩
  · simp [he] at hnone
  · obtain rfl := Option.some.inj (he.symm.trans hv)
    exact (Echo.Step.of_step hmove).recvBuff h

/-- rdmacm03, until the client's first message is under way. -/
def firstMessage : List (EchoLoop.Action Client.Action) :=
  [.exec .ok, .exec .ok, .exec .ok, .exec .ok, .exec .ok, .exec .ok, .peer (.exec .ok),
    .peer (.exec .ok), .peer (.hca (.read 0))]

/-- Its arrival writes to `recv_buff`, so nothing in there has been to be read. -/
theorem receiver_always_ready_firstMessage : ∃ t u,
    Run.run (EchoLoop.step EchoLoop.rdmacm03 Client.peer)
      (EchoLoop.opened Client.peer 0 0 zeros zeros Echoed.once) firstMessage = some t ∧
    t.peer.conn.ep.sq.length = 1 ∧ ReceiverReady (EchoLoop.view t) ∧
    EchoLoop.step EchoLoop.rdmacm03 Client.peer t (.toServer .recv) = some u ∧
    u.conn.recvBuff ≠ t.conn.recvBuff ∧ (EchoLoop.view t).unread = 0 := by
  have hrun : ∃ t ∈ Run.run (EchoLoop.step EchoLoop.rdmacm03 Client.peer)
      (EchoLoop.opened Client.peer 0 0 zeros zeros Echoed.once) firstMessage,
      t.peer.conn.ep.sq.length = 1 ∧
        ∃ u ∈ EchoLoop.step EchoLoop.rdmacm03 Client.peer t (.toServer .recv),
          u.conn.recvBuff.bytes ≠ t.conn.recvBuff.bytes := by
    decide +kernel
  obtain ⟨t, ht, hsq, u, hu, hne⟩ := hrun
  have hok : ∀ a ∈ firstMessage, EchoLoop.Succeeds a := by decide
  obtain ⟨hready, hwrites⟩ :=
    receiver_always_ready .rdmacm03 (c := 0) ⟨_, _, _, _, _, rfl⟩ ht hok rfl
  have hchanged : u.conn.recvBuff ≠ t.conn.recvBuff := fun heq => hne (by rw [heq])
  obtain ⟨hunread, -⟩ := hwrites (.toServer .recv) u (EchoLoop.view u) trivial hu rfl
  exact ⟨t, u, ht, hsq, hready, hu, hchanged, hunread hchanged⟩

end RdmaTutorial
