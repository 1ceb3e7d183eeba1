import RdmaTutorial.Echo.LockStep
import RdmaTutorial.Rdmacm05.Projection

/-!
# rdmacm05: the repository's clients against the server

Any number of clients, each in its own iteration, against one server thread.
Every connection is in lock step (`Echo.LockStep`), whatever the thread does
for the others, so what a client reads as its echo is what it sent.
-/

namespace RdmaTutorial.Rdmacm05

open CString Verbs

/-- No completion is unsuccessful, at any end. -/
def Succeeds : Action Client.Args Client.Action → Prop
  | .hca _ m => m.Succeeds
  | .peer _ (.hca m) => m.Succeeds
  | _ => True

instance : DecidablePred Succeeds := fun a => by
  unfold Succeeds
  split <;> infer_instance

theorem succeeds_label {s : State Client} {a : Action Client.Args Client.Action}
    (h : Succeeds a) {c : Nc} {b : Echo.Move Client.Action} (hl : label s a = some (c, b)) :
    Echo.Succeeds b := by
  cases b with
  | hca m =>
    obtain rfl := label_hca hl
    exact h
  | peer x =>
    obtain rfl := label_peer hl
    cases x with
    | exec r => trivial
    | hca m => exact h
  | _ => trivial

/-- Every connection of every run is in lock step. -/
theorem lockStep_run {heap : Nat → Block} {as : List (Action Client.Args Client.Action)}
    {s : State Client} (hrun : Run.run (step Client.peer) (State.initial heap) as = some s)
    (hok : ∀ a ∈ as, Succeeds a) :
    ∀ c e, view s c = some e → Echo.LockStep e := by
  have hm : Run.Meets (step Client.peer) (OnMoves fun _ b => Echo.Succeeds b) (State.initial heap)
      as :=
    Run.Meets.mono (P := fun _ a => Succeeds a) (fun s a h m hl e _ => succeeds_label h hl)
      (Run.Meets.of_forall hok)
  refine ((projects fun _ b => Echo.Succeeds b).invariant (fun c e he => ?_)
    (fun c e b e' he hb hstep => he.step hb (Echo.Step.of_step hstep)) hrun hm tagged_initial
    fun c e he => ?_).2
  · obtain ⟨r, b, x, rfl⟩ := he
    exact Echo.lockStep_opened c c r b x
  · simp [view, State.initial] at he

/-- Whenever a client reaches its "received" step in iteration `i`, the string
in its `recv_buff` is the one it printed for iteration `i`. -/
theorem received_own_text {heap : Nat → Block} {as : List (Action Client.Args Client.Action)}
    {s : State Client} (hrun : Run.run (step Client.peer) (State.initial heap) as = some s)
    (hok : ∀ a ∈ as, Succeeds a)
    {c : Nc} {l : Link Client} (hl : s.links c = some l) {i : Nat}
    (hpc : l.peer.pc = .received i) : cstr l.peer.conn.recvBuff.bytes = msgText i :=
  ((lockStep_run hrun hok c _ (view_of_links hl)).received hpc).2

/-- `handle_cq_event` for a batch of `n` completions, the last one a message's. -/
def handleCq (c : Nc) (n : Nat) : List (Action Client.Args Client.Action) :=
  [.cqEvent c, .server .ok, .server .ok, .poll n] ++ List.replicate (n + 4) (.server .ok) ++
  [.poll 0]

/-- Clients 7 and 8 post a message each and get their echoes, step by step in turn;
8 is served first. -/
def interleaved (n : Nat) : List (Action Client.Args Client.Action) :=
  [.peer 7 (.exec .ok), .peer 8 (.exec .ok), .peer 8 (.exec .ok), .peer 7 (.exec .ok),
    .peer 8 (.hca (.read 0)), .toServer 8 .recv, .peer 7 (.hca (.read 0)), .toServer 7 .recv,
    .hca 7 .reportRecv, .hca 8 .reportRecv, .peer 7 (.hca .reportSend),
    .peer 8 (.hca .reportSend), .peer 7 (.exec .ok), .peer 8 (.exec .ok), .peer 7 (.exec .ok),
    .peer 8 (.exec .ok)] ++
  handleCq 8 n ++ handleCq 7 n ++
  [.hca 7 (.read 0), .hca 8 (.read 0), .toPeer 7, .toPeer 8, .hca 7 .reportSend,
    .hca 8 .reportSend, .peer 8 (.hca .reportRecv), .peer 7 (.hca .reportRecv),
    .peer 7 (.exec .ok), .peer 8 (.exec .ok)]

/-- Two iterations of both. In the second one the server's completion of the first
echo comes in one batch with the message. -/
def twoRounds : List (Action Client.Args Client.Action) :=
  setUp 7 0 1 ⟨tenTimes, 0, 0, zeros, zeros⟩ ++ setUp 8 2 3 ⟨tenTimes, 0, 0, zeros, zeros⟩ ++
  interleaved 1 ++ List.replicate 3 (.peer 7 (.exec .ok)) ++
  List.replicate 3 (.peer 8 (.exec .ok)) ++ interleaved 2

theorem received_own_text_twoRounds : ∃ s l k,
    Run.run (step Client.peer) (State.initial fun _ => zeros) twoRounds = some s ∧
      s.links 7 = some l ∧ l.peer.pc = .received 1 ∧
        cstr l.peer.conn.recvBuff.bytes = msgText 1 ∧
      s.links 8 = some k ∧ k.peer.pc = .received 1 ∧
        cstr k.peer.conn.recvBuff.bytes = msgText 1 := by
  have hrun : ((Run.run (step Client.peer) (State.initial fun _ => zeros) twoRounds).bind fun s =>
      (s.links 7).bind fun l => (s.links 8).map fun k => (l.peer.pc, k.peer.pc)) =
      some (.received 1, .received 1) := by
    decide +kernel
  obtain ⟨s, hs, h⟩ := Option.bind_eq_some_iff.mp hrun
  obtain ⟨l, hl, h⟩ := Option.bind_eq_some_iff.mp h
  obtain ⟨k, hk, hpcs⟩ := Option.map_eq_some_iff.mp h
  obtain ⟨hpc, hpc'⟩ := Prod.mk.inj hpcs
  have hok : ∀ a ∈ twoRounds, Succeeds a := by decide
  exact ⟨s, l, k, hs, hl, hpc, received_own_text hs hok hl hpc, hk, hpc',
    received_own_text hs hok hk hpc'⟩

end RdmaTutorial.Rdmacm05
