import RdmaTutorial.Echo.Credit
import RdmaTutorial.Rdmacm05.Projection

/-!
# rdmacm05: does everything fit?

`handle_cq_event` posts one send for every message, and exits the process
through `IF_NZERO_DIE` when the send queue is full. Nothing keeps a peer from
sending while its echoes are outstanding, so eleven messages of a peer that
posts no receive end the server (`flood`). While no message arrives that finds
ten of its connection unanswered, everything fits and only a library call that
fails for a reason of its own ends the process.
-/

namespace RdmaTutorial.Rdmacm05

open Verbs

variable {ρ σ α : Type} {P : Peer ρ σ α}

/-- Every connection of the server holds no more than fits. -/
def Credits (s : State σ) : Prop := ∀ c e, view s c = some e → Echo.Credit e

/-- With room at every connection, only a library call that fails ends the
process. -/
theorem Credits.died {s t : State σ} (hs : Credits s) (htag : Tagged s) {a : Action ρ α}
    (h : step P s a = some t) {reason : String} (ht : t.status = .died reason) :
    s.status = .died reason ∨ a = .server .fail ∧ reason ∈ setupDies := by
  have hroom : ∀ c l, s.links c = some l → 0 < (s.thread.stage c).unposted →
      l.conn.postRecv ≠ none := fun c l hl hst hnone => by
    simpa [hnone] using (hs c _ (view_of_links hl)).postRecv hst
  have hok := htag.thread
  cases Step.of_step h with
  | setupFails hthread hpc _ hreason =>
    cases ht
    exact .inr ⟨rfl, hreason⟩
  | firstRecvFails hthread hl hc =>
    exact absurd hc (hroom _ _ hl (by simp [hthread, SetupPc.stage, Echo.Stage.unposted]))
  | copyFails => cases ht
  | stray => cases ht
  | postRecvFails hthread hl hc =>
    rw [hthread] at hok
    obtain ⟨-, rfl, -⟩ := hok
    exact absurd hc (hroom _ _ hl (by simp [hthread, CqEventPc.stage, Echo.Stage.unposted]))
  | @postSendFails cc nc wcs l r hthread hl hc =>
    rw [hthread] at hok
    obtain ⟨-, rfl, -⟩ := hok
    have := (hs _ _ (view_of_links hl)).postSend (q := wcs) (by simp [hthread, CqEventPc.stage])
    simp [hc] at this
  | _ => exact .inl ht

theorem Credits.step {s t : State σ} (hs : Credits s) (htag : Tagged s) {a : Action ρ α}
    (hroom : OnMoves Echo.Room s a) (h : step P s a = some t) : Credits t := by
  refine (projects Echo.Room).preserves (I := fun _ e => Echo.Credit e) (fun c e he => ?_)
    (fun c e b e' he hb hstep => he.step hb (Echo.Step.of_step hstep)) htag hroom h hs
  obtain ⟨r, b, x, rfl⟩ := he
  exact Echo.credit_opened c r b _

/-- A library call of the server's own has failed. -/
def LibraryFails : Action ρ α → Prop
  | .server .fail => True
  | _ => False

instance : DecidablePred (LibraryFails : Action ρ α → Prop)
  | .server .fail => .isTrue trivial
  | .server .ok | .connect .. | .disconnect _ | .cqEvent _ | .poll _ | .hca .. | .toServer ..
  | .toPeer _ | .peer .. => .isFalse id

/-- Each connection has room, and the process has exited only if `fails`, and for none
of its queues. -/
def Fits (fails : Prop) (s : State σ) : Prop :=
  Tagged s ∧ Credits s ∧ ∀ reason, s.status = .died reason → fails ∧ reason ∈ setupDies

/-- Against any peers: where there is room for each move, no more than
`max_send_wr` sends and no more completions than fit are outstanding, and the
process has not exited unless a library call failed for a reason of its own: never
because a post found its queue full. -/
theorem everything_fits {heap : Nat → Block} {as : List (Action ρ α)} {s : State σ}
    (hrun : Run.run (step P) (State.initial heap) as = some s)
    (hroom : Run.Meets (step P) (OnMoves Echo.Room) (State.initial heap) as) :
    (∀ c l, s.links c = some l →
      l.conn.ep.sendSlots ≤ maxSendWr ∧ l.conn.ep.cq.entries.length ≤ cqEntries) ∧
    ∀ reason, s.status = .died reason → reason ∈ setupDies ∧ ∃ a ∈ as, LibraryFails a := by
  have hfits : Fits (∃ a ∈ as, LibraryFails a) s := by
    refine (hroom.and (.of_forall fun a ha => ha)).invariant (fun s a t hs ha h => ?_) hrun
      ⟨tagged_initial, fun c e he => by simp [view, State.initial] at he, fun x hx => by cases hx⟩
    refine ⟨tagged_step hs.1 h, hs.2.1.step hs.1 ha.1 h, fun reason ht => ?_⟩
    rcases hs.2.1.died hs.1 h ht with hbefore | ⟨rfl, hreason⟩
    · exact hs.2.2 reason hbefore
    · exact ⟨⟨_, ha.2, trivial⟩, hreason⟩
  obtain ⟨-, hcredits, hdied⟩ := hfits
  refine ⟨fun c l hl => ?_, fun reason hreason => (hdied reason hreason).symm⟩
  have hc := hcredits c _ (view_of_links hl)
  exact ⟨Nat.le_trans (Nat.le_add_right _ _) hc.sendSlots_le, hc.entries_le⟩

/-- A peer that posts no receive sends an empty string, and it arrives and
completes. -/
def arrival : List (Action Unit AnyPeer.Action) :=
  [.peer 7 (.send [0]), .toServer 7 .recv, .hca 7 .reportRecv]

/-- The server polls one message and posts its echo. -/
def handling : List (Action Unit AnyPeer.Action) :=
  [.poll 1, .server .ok, .server .ok, .server .ok, .server .ok]

/-- `n` messages more after the first, all in one call of `handle_cq_event`. -/
def flood (n : Nat) : List (Action Unit AnyPeer.Action) :=
  setUp 7 0 1 () ++ arrival ++ [.cqEvent 7, .server .ok, .server .ok] ++ handling ++
  (List.replicate n (.server .ok :: (arrival ++ handling))).flatten

/-- Ten messages in one call, which ends with an `ibv_poll_cq` that fails, and
behind it a `CONNECT_REQUEST` for which `rdma_create_qp` fails. -/
def floodThenFails : List (Action Unit AnyPeer.Action) :=
  flood 9 ++ [.server .ok, .server .fail, .connect 8 2 3 (), .server .ok, .server .fail]

theorem everything_fits_floodThenFails : ∃ s,
    Run.run (step AnyPeer.peer) (State.initial fun _ => zeros) floodThenFails = some s ∧
    (∀ c l, s.links c = some l →
      l.conn.ep.sendSlots ≤ maxSendWr ∧ l.conn.ep.cq.entries.length ≤ cqEntries) ∧
    s.status = .died createQpDie ∧ createQpDie ∈ setupDies ∧
    ∃ a ∈ floodThenFails, LibraryFails a := by
  have hrun : (Run.run (step AnyPeer.peer) (State.initial fun _ => zeros)
      floodThenFails).map State.status = some (.died createQpDie) := by
    decide +kernel
  obtain ⟨s, hs, hdied⟩ := Option.map_eq_some_iff.mp hrun
  obtain ⟨hslots, hreasons⟩ := everything_fits hs (by decide +kernel)
  exact ⟨s, hs, hslots, hdied, hreasons _ hdied⟩

/-- The eleventh echo finds the send queue full. -/
theorem flood_dies : ∃ s,
    Run.run (step AnyPeer.peer) (State.initial fun _ => zeros) (flood 10) = some s ∧
    s.status = .died postSendDie ∧ ∀ a ∈ flood 10, ¬ LibraryFails a := by
  have hrun : (Run.run (step AnyPeer.peer) (State.initial fun _ => zeros)
      (flood 10)).map State.status = some (.died postSendDie) := by decide +kernel
  obtain ⟨s, hs, hdied⟩ := Option.map_eq_some_iff.mp hrun
  exact ⟨s, hs, hdied, by decide +kernel⟩

end RdmaTutorial.Rdmacm05
