import RdmaTutorial.Echo.Exposure
import RdmaTutorial.Rdmacm05.Projection

/-!
# rdmacm05: what one connection learns of the others

`malloc` does not clear the buffers, the echo copies a string up to its NUL,
and the send transmits all of `send_buff`. Two runs in which a connection
makes the same moves and its peer sends the same messages, whatever the others
do, therefore transmit the same payloads on it exactly if the blocks `malloc`
found for its `send_buff` agree behind what was covered when the HCA first
read it. Blocks that another connection has used before need not
(`earlier_leaks`).
-/

namespace RdmaTutorial.Rdmacm05

open CString Verbs

section Moves

variable {ρ σ α : Type} (P : Peer ρ σ α)

/-- The move connection `c` makes in a step, if it makes one. -/
def moveOf (c : Nc) (s : State σ) (a : Action ρ α) : Option (Echo.Move α) :=
  match label s a with
  | some (c', b) =>
    if c' = c ∧ ((view s c).bind fun e => Echo.step P e b).isSome then some b else none
  | none => none

/-- The moves connection `c` makes in a run: its part of the schedule. -/
def movesOf (c : Nc) (s : State σ) : List (Action ρ α) → List (Echo.Move α)
  | [] => []
  | a :: as =>
    (moveOf P c s a).toList ++
      match step P s a with
      | some t => movesOf c t as
      | none => []

/-- The connection is closed. -/
def Closes (c : Nc) : Action ρ α → Prop
  | .disconnect nc => nc = c
  | _ => False

instance (c : Nc) : DecidablePred (Closes c : Action ρ α → Prop)
  | .disconnect nc => inferInstanceAs (Decidable (nc = c))
  | .connect .. | .cqEvent _ | .server _ | .poll _ | .hca .. | .toServer .. | .toPeer _
  | .peer .. => .isFalse id

variable {P}

theorem moveOf_of_label {c : Nc} {s : State σ} {a : Action ρ α} {b : Echo.Move α}
    {e f : Echo.State σ} (hl : label s a = some (c, b)) (he : view s c = some e)
    (hb : Echo.step P e b = some f) : moveOf P c s a = some b := by
  simp [moveOf, hl, he, hb]

theorem moveOf_eq_none {c : Nc} {s : State σ} {a : Action ρ α}
    (h : ∀ b e, label s a = some (c, b) → view s c = some e → Echo.step P e b = none) :
    moveOf P c s a = none := by
  unfold moveOf
  split
  · rename_i c' b hl
    split
    · rename_i hg
      obtain ⟨rfl, hsome⟩ := hg
      obtain ⟨f, hf⟩ := Option.isSome_iff_exists.mp hsome
      obtain ⟨e, he, hstep⟩ := Option.bind_eq_some_iff.mp hf
      simp [h b e hl he] at hstep
    · rfl
  · rfl

/-- A step takes a connection that is not closed through its own move. -/
theorem moveOf_step {s t : State σ} (hs : Tagged s) {a : Action ρ α} (h : step P s a = some t)
    {c : Nc} (hc : ¬ Closes c a) {e : Echo.State σ} (he : view s c = some e) :
    ∃ f, view t c = some f ∧ Run.run (Echo.step P) e (moveOf P c s a).toList = some f := by
  obtain ⟨l, hl, rfl⟩ := Option.map_eq_some_iff.mp he
  cases step_local hs h with
  -- A statement that fails or concerns no connection: no move at all.
  | same hlinks hstage hidle =>
    rw [moveOf_eq_none fun b e hlab hv => hidle (c, b) hlab e hv]
    refine ⟨_, view_of_links (l := l) (by rw [hlinks, hl]), ?_⟩
    rw [hstage c (by simp [hl])]
    rfl
  | opens nc i j r b x haction hnew hr hb hlinks hstage hothers =>
    have hne : c ≠ nc := by rintro rfl; simp [hnew] at hl
    rw [moveOf_eq_none fun b e hlab hv => by rw [haction] at hlab; cases hlab]
    refine ⟨_, view_of_links (l := l) (by rw [hlinks, Function.update_of_ne hne, hl]), ?_⟩
    rw [hothers c hne]
    rfl
  | closes nc haction hlinks hstage =>
    have hne : c ≠ nc := by rintro rfl; exact hc (by rw [haction]; rfl)
    rw [moveOf_eq_none fun b e hlab hv => by rw [haction] at hlab; cases hlab]
    refine ⟨_, view_of_links (l := l) (by rw [hlinks, Function.update_of_ne hne, hl]), ?_⟩
    rw [hstage]
    rfl
  | moves nc b k k' hlabel hk hmove hlinks hothers =>
    by_cases hcc : c = nc
    · subst hcc
      obtain rfl : l = k := Option.some.inj (hl.symm.trans hk)
      rw [moveOf_of_label hlabel he hmove]
      refine ⟨_, view_of_links (l := k') (by rw [hlinks, Function.update_self]), ?_⟩
      simp [Run.run, hmove]
    · rw [moveOf_eq_none fun b' e hlab hv => by
        rw [hlabel] at hlab; cases hlab; exact absurd rfl hcc]
      refine ⟨_, view_of_links (l := l) (by rw [hlinks, Function.update_of_ne hcc, hl]), ?_⟩
      rw [hothers c hcc]
      rfl

/-- So a run takes it through the run of its moves. -/
theorem movesOf_run {as : List (Action ρ α)} {c : Nc} (hc : ∀ a ∈ as, ¬ Closes c a)
    {s t : State σ} (hs : Tagged s) (h : Run.run (step P) s as = some t) {e : Echo.State σ}
    (he : view s c = some e) :
    ∃ f, view t c = some f ∧ Run.run (Echo.step P) e (movesOf P c s as) = some f := by
  induction as generalizing s e with
  | nil => cases h; exact ⟨e, he, rfl⟩
  | cons a as ih =>
    obtain ⟨u, hu, hrun⟩ := Run.run_cons h
    obtain ⟨f, hf, hmove⟩ := moveOf_step hs hu (hc a (by simp)) he
    obtain ⟨g, hg, hmoves⟩ := ih (fun b hb => hc b (by simp [hb])) (tagged_step hs hu) hrun hf
    refine ⟨g, hg, ?_⟩
    simp only [movesOf, hu]
    exact Run.run_append hmove hmoves

end Moves

/-! ## Two runs -/

/-- The payloads transmitted on a connection, oldest first; `none` for a
posted send that has not been read. -/
def Link.transmitted (l : Link AnyPeer) : List (Option Payload) :=
  l.peer.got.map some ++ l.conn.ep.sq.map SendWqe.payload

/-- How much of the `send_buff` of connection `c`, opened in the blocks `r` and
`b`, its echoes had covered when the HCA first read it. -/
def firstRead (c : Nc) (r b : Block) (moves : List (Echo.Move AnyPeer.Action)) : Option Nat :=
  Echo.exposure none 0 ⟨.opening, .create c c r b, AnyPeer.peer.fresh ()⟩ moves

/-- The state of a connection that has been opened and not been closed. -/
theorem opened_run {heap : Nat → Block} {before after : List (Action Unit AnyPeer.Action)}
    {s t : State AnyPeer}
    (hbefore : Run.run (step AnyPeer.peer) (State.initial heap) before = some s) {c : Nc}
    {i j : Nat} {r b : Block} (hr : s.free i = some r) (hb : s.free j = some b)
    (hafter : Run.run (step AnyPeer.peer) s (.connect c i j () :: after) = some t)
    (hopen : ∀ a ∈ after, ¬ Closes c a) {l : Link AnyPeer} (hl : t.links c = some l) :
    Run.run (Echo.step AnyPeer.peer) ⟨.opening, .create c c r b, AnyPeer.peer.fresh ()⟩
      (movesOf AnyPeer.peer c s (.connect c i j () :: after)) =
        some ⟨t.thread.stage c, l.conn, l.peer⟩ := by
  have htag := Run.run_invariant (fun s a t => tagged_step) hbefore tagged_initial
  obtain ⟨u, hu, hrun⟩ := Run.run_cons hafter
  have hview : view u c = some ⟨.opening, .create c c r b, AnyPeer.peer.fresh ()⟩ := by
    cases Step.of_step hu with
    | connect hthread hnew hr' hb' hij =>
      obtain rfl := Option.some.inj (hr.symm.trans hr')
      obtain rfl := Option.some.inj (hb.symm.trans hb')
      simp [view, State.goto, State.setLink, SetupPc.stage]
  obtain ⟨f, hf, hmoves⟩ := movesOf_run hopen (tagged_step htag hu) hrun hview
  rw [view_of_links hl] at hf
  have hnone : moveOf AnyPeer.peer c s (.connect c i j ()) = none :=
    moveOf_eq_none fun b e hlab _ => by cases hlab
  simp only [movesOf, hu, hnone, Option.toList_none, List.nil_append, hmoves, ← hf]

/-- Take any two runs in which connection `c` is opened in free blocks, makes
the same moves and is still open; the histories before, and all other
connections, may differ. If the two blocks its `send_buff` got agree behind
what was covered at the first read, the payloads transmitted on `c` are the
same; and, unless the connection has failed, only then. -/
theorem same_payloads_iff {heap heap' : Nat → Block}
    {before before' after after' : List (Action Unit AnyPeer.Action)} {s s' t t' : State AnyPeer}
    (hbefore : Run.run (step AnyPeer.peer) (State.initial heap) before = some s)
    (hbefore' : Run.run (step AnyPeer.peer) (State.initial heap') before' = some s')
    {c : Nc} {i j i' j' : Nat} {r b r' b' : Block} (hr : s.free i = some r)
    (hb : s.free j = some b) (hr' : s'.free i' = some r') (hb' : s'.free j' = some b')
    (hafter : Run.run (step AnyPeer.peer) s (.connect c i j () :: after) = some t)
    (hafter' : Run.run (step AnyPeer.peer) s' (.connect c i' j' () :: after') = some t')
    (hopen : ∀ a ∈ after, ¬ Closes c a) (hopen' : ∀ a ∈ after', ¬ Closes c a)
    (hsame : movesOf AnyPeer.peer c s (.connect c i j () :: after) =
      movesOf AnyPeer.peer c s' (.connect c i' j' () :: after'))
    (hmsg : ∀ m ∈ movesOf AnyPeer.peer c s (.connect c i j () :: after), Echo.SendsMessage m)
    {l l' : Link AnyPeer} (hl : t.links c = some l) (hl' : t'.links c = some l') :
    ((∀ k ∈ firstRead c r b (movesOf AnyPeer.peer c s (.connect c i j () :: after)),
        b.bytes.drop k = b'.bytes.drop k) → l.transmitted = l'.transmitted) ∧
    (l.conn.ep.failed = false → l.transmitted = l'.transmitted →
      ∀ k ∈ firstRead c r b (movesOf AnyPeer.peer c s (.connect c i j () :: after)),
        b.bytes.drop k = b'.bytes.drop k) := by
  have hrun := opened_run hbefore hr hb hafter hopen hl
  have hrun' := opened_run hbefore' hr' hb' hafter' hopen' hl'
  rw [← hsame] at hrun'
  obtain ⟨m, htwin⟩ := (Echo.twin_opened c c r r' b b').run hmsg hrun hrun'
  exact ⟨fun hk => htwin.transmitted_eq hk, fun ha he => htwin.drop_eq ha he⟩

/-- A connection whose peer sends `secret`, has it copied to `send_buff`, and
is closed. -/
def earlier (secret : Payload) : List (Action Unit AnyPeer.Action) :=
  setUp 3 0 1 () ++
  [.peer 3 (.send secret), .toServer 3 .recv, .hca 3 .reportRecv, .cqEvent 3, .server .ok,
    .server .ok, .poll 1, .server .ok, .server .ok, .server .ok, .server .ok, .server .ok, .poll 0,
    .disconnect 3]

/-- The next connection, behind its `CONNECT_REQUEST`, whose peer sends an
empty string and gets its echo. -/
def later : List (Action Unit AnyPeer.Action) :=
  [.server .ok, .server .ok, .server .ok, .server .ok, .server .ok,
    .peer 7 .postRecv, .peer 7 (.send [0]), .toServer 7 .recv, .hca 7 .reportRecv, .cqEvent 7,
    .server .ok, .server .ok, .poll 1, .server .ok, .server .ok, .server .ok, .server .ok,
    .hca 7 (.read 0), .toPeer 7]

def afterEarlier (secret : Payload) : State AnyPeer :=
  (Run.run (step AnyPeer.peer) (State.initial fun _ => zeros) (earlier secret)).getD
    (State.initial fun _ => zeros)

/-- With blocks that nobody has used before, the later connection transmits
the same whatever the earlier one did. -/
theorem same_payloads_iff_fresh : ∃ t t' l l',
    Run.run (step AnyPeer.peer) (State.initial fun _ => zeros)
      (earlier [65, 65, 0] ++ .connect 7 2 3 () :: later) = some t ∧
    Run.run (step AnyPeer.peer) (State.initial fun _ => zeros)
      (earlier [66, 66, 0] ++ .connect 7 2 3 () :: later) = some t' ∧
    t.links 7 = some l ∧ t'.links 7 = some l' ∧ l.transmitted = l'.transmitted := by
  have hrun : ∀ secret ∈ ([[65, 65, 0], [66, 66, 0]] : List Payload),
      (Run.run (step AnyPeer.peer) (State.initial fun _ => zeros) (earlier secret)).isSome ∧
      ((Run.run (step AnyPeer.peer) (afterEarlier secret) (.connect 7 2 3 () :: later)).bind
        fun t => t.links 7).isSome := by decide +kernel
  obtain ⟨hs, h⟩ := hrun [65, 65, 0] (by decide)
  obtain ⟨hs', h'⟩ := hrun [66, 66, 0] (by decide)
  obtain ⟨l, h⟩ := Option.isSome_iff_exists.mp h
  obtain ⟨l', h'⟩ := Option.isSome_iff_exists.mp h'
  obtain ⟨t, ht, hl⟩ := Option.bind_eq_some_iff.mp h
  obtain ⟨t', ht', hl'⟩ := Option.bind_eq_some_iff.mp h'
  have hbefore : Run.run (step AnyPeer.peer) (State.initial fun _ => zeros)
      (earlier [65, 65, 0]) = some (afterEarlier [65, 65, 0]) := by
    obtain ⟨s, hs⟩ := Option.isSome_iff_exists.mp hs
    simp [afterEarlier, hs]
  have hbefore' : Run.run (step AnyPeer.peer) (State.initial fun _ => zeros)
      (earlier [66, 66, 0]) = some (afterEarlier [66, 66, 0]) := by
    obtain ⟨s, hs⟩ := Option.isSome_iff_exists.mp hs'
    simp [afterEarlier, hs]
  refine ⟨t, t', l, l', Run.run_append hbefore ht, Run.run_append hbefore' ht', hl, hl', ?_⟩
  have hfree : ∀ secret ∈ ([[65, 65, 0], [66, 66, 0]] : List Payload), ∀ i ∈ [2, 3],
      (afterEarlier secret).free i = some zeros := by decide +kernel
  exact (same_payloads_iff hbefore hbefore' (hfree _ (by decide) 2 (by decide))
    (hfree _ (by decide) 3 (by decide)) (hfree _ (by decide) 2 (by decide))
    (hfree _ (by decide) 3 (by decide)) ht ht'
    (by decide +kernel) (by decide +kernel) (by decide +kernel) (by decide +kernel) hl hl').1
    fun _ _ => rfl

/-- With the blocks of the earlier connection it does not: two histories that
differ in what the earlier peer sent, and the payloads transmitted on the later
connection. -/
theorem earlier_leaks : ∃ t t' l l',
    Run.run (step AnyPeer.peer) (State.initial fun _ => zeros)
      (earlier [65, 65, 0] ++ .connect 7 0 1 () :: later) = some t ∧
    Run.run (step AnyPeer.peer) (State.initial fun _ => zeros)
      (earlier [66, 66, 0] ++ .connect 7 0 1 () :: later) = some t' ∧
    t.links 7 = some l ∧ t'.links 7 = some l' ∧ l.transmitted ≠ l'.transmitted := by
  have hrun : ∀ secret ∈ ([[65, 65, 0], [66, 66, 0]] : List Payload),
      ((Run.run (step AnyPeer.peer) (State.initial fun _ => zeros)
        (earlier secret ++ .connect 7 0 1 () :: later)).bind fun t =>
          (t.links 7).map fun l => l.transmitted.map (Option.map (List.take 2))) =
      some [some (0 :: secret.tail.take 1)] := by decide +kernel
  obtain ⟨t, ht, h⟩ := Option.bind_eq_some_iff.mp (hrun [65, 65, 0] (by decide))
  obtain ⟨t', ht', h'⟩ := Option.bind_eq_some_iff.mp (hrun [66, 66, 0] (by decide))
  obtain ⟨l, hl, hsent⟩ := Option.map_eq_some_iff.mp h
  obtain ⟨l', hl', hsent'⟩ := Option.map_eq_some_iff.mp h'
  refine ⟨t, t', l, l', ht, ht', hl, hl', fun he => ?_⟩
  rw [he, hsent'] at hsent
  exact absurd hsent (by decide)

end RdmaTutorial.Rdmacm05
