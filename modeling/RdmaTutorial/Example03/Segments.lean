import RdmaTutorial.Example03.Exchange

/-!
# example03: the records in pieces

A socket keeps no record boundaries: a `read` of `sizeof(remote_info)` bytes
returns what is there. Both programs call it once and take any other number of
bytes for a failure. Here each `read` returns any part of what has arrived, and
the connection is not lost; `Example03.step` is what is left of it when every
`read` returns the whole record.
-/

namespace RdmaTutorial.Example03.Segments

inductive Move where
  /-- The next statement of `x`, when it is not the `read`, and what the call in it returns. -/
  | stmt (x : Side) (r : Result)
  /-- The `read` of `x`, which returns `k`. -/
  | read (x : Side) (k : Nat)
  /-- The next `n` bytes to `x` arrive. -/
  | deliver (x : Side) (n : Nat)
  deriving DecidableEq, Repr

theorem at_iff (s : State) (x : Side) (st : Stmt) :
    At s x st ↔ (s.party x).died = none ∧ (program x)[(s.party x).pc]? = some st :=
  ⟨fun h => ⟨h.alive, h.next⟩, fun h => ⟨h.1, h.2⟩⟩

instance (s : State) (x : Side) (st : Stmt) : Decidable (At s x st) :=
  decidable_of_iff _ (at_iff s x st).symm

/-- `read` may return `k`: that many bytes have arrived, and no more are asked
for. It returns 0 only at the end of the file. -/
def Returns (s : State) (x : Side) (k : Nat) : Prop :=
  k ≤ 22 ∧ k ≤ (s.stream x).arrived.length ∧
    (k = 0 → s.Closed x.peer ∧ (s.stream x).inFlight = [] ∧ (s.stream x).arrived = [])

instance (s : State) (x : Side) (k : Nat) : Decidable (Returns s x k) :=
  inferInstanceAs (Decidable (_ ∧ _ ∧ (_ → _)))

/-- `read` has returned `k`. -/
def readInfo (host : Side → Host) (s : State) (x : Side) (k : Nat) : Option State :=
  if k = 22 then exec host s x .readInfo
  else
    let c := s.stream x
    some ((s.die x "Failed to receive remote QP info").setStream x
      { c with arrived := c.arrived.drop k })

/-- The calls may fail, but for those on the connection. -/
def step (host : Side → Host) (s : State) : Move → Option State
  | .stmt x r =>
    let st := (program x)[(s.party x).pc]?
    if st = some .readInfo ∨ (st = some .writeInfo ∧ r = .fail) then none
    else Example03.step host s (.stmt x r)
  | .read x k => if At s x .readInfo ∧ Returns s x k then readInfo host s x k else none
  | .deliver x n => Example03.step host s (.deliver x n)

/-- The same move when a `read` waits for the whole record. -/
def Move.toAction : Move → Action
  | .stmt x r => .stmt x r
  | .read x _ => .stmt x .ok
  | .deliver x n => .deliver x n

/-- If it is a `read`, it returns the whole record. -/
def Move.Whole : Move → Prop
  | .read _ k => k = 22
  | _ => True

instance : ∀ a : Move, Decidable a.Whole
  | .stmt .. => .isTrue trivial
  | .read _ k => inferInstanceAs (Decidable (k = 22))
  | .deliver .. => .isTrue trivial

def WholeReads (as : List Move) : Prop := ∀ a ∈ as, a.Whole

instance (as : List Move) : Decidable (WholeReads as) :=
  inferInstanceAs (Decidable (∀ a ∈ as, a.Whole))

/-! ## What each step does -/

/-- The three kinds of step: one of the exchange with whole records, a call that
fails behind the exchange, and a `read` of another length. -/
inductive Step (host : Side → Host) (s : State) : Move → State → Prop where
  | goes {a t} (hs : Example03.step host s a.toAction = some t) (hw : a.Whole)
      (hd : ∀ x, (t.party x).died = (s.party x).died) : Step host s a t
  | fails {x st reason} (hat : At s x st) (hst : st ≠ .readInfo ∧ st ≠ .writeInfo)
      (hr : st.reason = some reason)
      (hs : Example03.step host s (.stmt x .fail) = some (s.die x reason)) :
      Step host s (.stmt x .fail) (s.die x reason)
  | short {x k} (hat : At s x .readInfo) (hk : k ≠ 22) :
      Step host s (.read x k) ((s.die x "Failed to receive remote QP info").setStream x
        { s.stream x with arrived := (s.stream x).arrived.drop k })

/-- Who goes on is as much alive as before. -/
theorem died_advance {s : State} {x : Side} {p : Party} (hp : p.died = (s.party x).died)
    (y : Side) : ((s.advance x p).party y).died = (s.party y).died := by
  by_cases hy : y = x
  · subst hy
    simpa using hp
  · simp [hy]

theorem Step.of_step {host : Side → Host} {s t : State} {a : Move}
    (h : step host s a = some t) : Step host s a t := by
  cases a with
  | stmt x r =>
    simp only [step] at h
    split at h
    · cases h
    · rename_i hnot
      cases r with
      | ok =>
        cases Example03.Step.of_step h with
        | becomes hat hr hp =>
          refine .goes (a := .stmt x .ok) h trivial (died_advance ?_)
          cases hp <;> rfl
        | writeInfo hat => exact .goes (a := .stmt x .ok) h trivial (died_advance rfl)
        | readInfo hat m hm => exact absurd (.inl hat.next) hnot
        | dies halive hr => exact absurd (.inl (hr rfl).next) hnot
      | fail =>
        obtain ⟨st, hat, hdies | hclose⟩ := step_stmt h
        · obtain ⟨-, reason, hreason, rfl⟩ := hdies
          apply Step.fails hat _ hreason h
          constructor
          · rintro rfl
            exact hnot (.inl hat.next)
          · rintro rfl
            exact hnot (.inr ⟨hat.next, rfl⟩)
        · obtain ⟨hst, hexec⟩ := hclose
          obtain rfl := hst.resolve_left (by simp)
          cases hexec
          exact .goes (a := .stmt x .fail) h trivial (died_advance rfl)
  | read x k =>
    simp only [step] at h
    split at h
    · rename_i hread
      obtain ⟨hat, -, hlen, -⟩ := hread
      unfold readInfo at h
      split at h
      · rename_i hk
        subst hk
        have hstep : Example03.step host s (.stmt x .ok) = some t := by
          simpa [Example03.step, hat.alive, hat.next] using h
        simp only [exec, dif_pos hlen] at h
        cases h
        exact .goes (a := .read x 22) hstep rfl (died_advance rfl)
      · rename_i hk
        cases h
        exact .short hat hk
    · cases h
  | deliver x n =>
    simp only [step] at h
    cases Example03.Step.of_step h with
    | deliver hpos hn => exact .goes h trivial fun _ => rfl

/-- No statement is undone. -/
theorem did_of_step {host : Side → Host} {s t : State} {a : Action}
    (h : Example03.step host s a = some t) {x : Side} {st : Stmt} (hd : s.Did x st) :
    t.Did x st := by
  cases Example03.Step.of_step h with
  | becomes hat hr hp => exact hat.did_advance.mpr (.inl hd)
  | writeInfo hat => exact hat.did_advance.mpr (.inl hd)
  | readInfo hat m hm => exact hat.did_advance.mpr (.inl hd)
  | dies halive hr => exact (did_die ..).mpr hd
  | deliver hpos hn => exact hd

/-- Who has died stays so. -/
theorem Step.died {host : Side → Host} {s t : State} {a : Move} (h : Step host s a t) {x : Side}
    {reason : String} (hd : (s.party x).died = some reason) :
    (t.party x).died = some reason := by
  have hne : ∀ {y st}, At s y st → x ≠ y := by
    rintro y st hat rfl
    simp [hat.alive] at hd
  cases h with
  | goes hs hw hsame => rw [hsame, hd]
  | fails hat hst hr hs => rw [State.die_died, if_neg (hne hat), hd]
  | short hat hk => rw [State.setStream_party, State.die_died, if_neg (hne hat), hd]

/-- A run comes to an end. -/
theorem total_of_step {host : Side → Host} {s t : State} {a : Move} (h : Step host s a t) :
    total t < total s := by
  cases h with
  | goes hs hw hsame => exact total_step hs
  | fails hat hst hr hs => exact total_step hs
  | @short x k hat hk =>
    have hdie : total (s.die x "Failed to receive remote QP info") < total s := by
      rw [total_eq _ x, total_eq s x]
      simp [toCome, State.die, State.setParty, hat.alive]
    have hset := toCome_setStream (s.die x "Failed to receive remote QP info") x
      { s.stream x with arrived := (s.stream x).arrived.drop k }
    simp only [State.die_stream] at hset
    rw [total_eq _ x] at hdie ⊢
    rw [toCome_setStream_of_ne (Side.peer_ne x)]
    dsimp only at hset ⊢
    omega

theorem length_run_le {host : Side → Host} {as : List Move} {s : State}
    (h : Run.run (step host) .initial as = some s) : as.length ≤ 347 := by
  have hle := Run.run_length_le (m := total) (fun s a t hs => total_of_step (Step.of_step hs)) h
  have hinit : total .initial = 347 := rfl
  omega

/-! ## Whole records -/

/-- `x` has got through the exchange. -/
def Through (s : State) (x : Side) : Prop := s.Did x .writeInfo ∧ s.Did x .readInfo

/-- `x` has not died in the exchange. -/
def Survives (s : State) (x : Side) : Prop :=
  (s.party x).died ≠ Stmt.writeInfo.reason ∧ (s.party x).died ≠ Stmt.readInfo.reason

/-- Who has died got through the exchange first. -/
def Late (s : State) : Prop :=
  ∀ x, (s.party x).died ≠ none → Through s x ∧ Survives s x

theorem Late.survives {s : State} (h : Late s) (x : Side) : Survives s x := by
  by_cases hd : (s.party x).died = none
  · simp [Survives, hd, Stmt.reason]
  · exact (h x hd).2

/-- Behind the exchange every statement finds it done. -/
theorem through_of_at {s : State} {x : Side} {st : Stmt} (hat : At s x st)
    (hst : st ≠ .readInfo ∧ st ≠ .writeInfo) : Through s x := by
  have hpc := hat.idxOf
  simp only [Through, State.Did, ← hpc]
  cases x <;> cases st <;> simp at hst ⊢ <;> decide

theorem Late.step {host : Side → Host} {s t : State} {a : Move} (h : Late s) (hw : a.Whole)
    (hs : Step host s a t) : Late t := by
  intro y hy
  cases hs with
  | goes hs hw hsame =>
    have hold := h y (by rwa [hsame] at hy)
    exact ⟨⟨did_of_step hs hold.1.1, did_of_step hs hold.1.2⟩,
      by simpa only [Survives, hsame] using hold.2⟩
  | @fails x st reason hat hst hr hs =>
    by_cases hyx : y = x
    · subst hyx
      refine ⟨?_, ?_⟩
      · have hthrough := through_of_at hat hst
        simpa only [Through, did_die] using hthrough
      · simp only [Survives, State.die_died, if_true, ← hr]
        cases st <;> simp [Stmt.reason] at hst ⊢
    · rw [State.die_died, if_neg hyx] at hy
      have hold := h y hy
      simpa only [Through, did_die, Survives, State.die_died, if_neg hyx] using hold
  | short hat hk => exact absurd hw hk

theorem run_whole {host : Side → Host} {as : List Move} {s : State}
    (h : Run.run (step host) .initial as = some s) (hw : WholeReads as) :
    Exchanged host s ∧ Late s := by
  apply Run.Meets.invariant (P := fun _ a => a.Whole) (I := fun s => Exchanged host s ∧ Late s)
    _ (Run.Meets.of_forall hw) h
  · exact ⟨.initial host, fun x hx => absurd rfl hx⟩
  · intro s a t hi ha ht
    have hstep := Step.of_step ht
    refine ⟨?_, hi.2.step ha hstep⟩
    cases hstep with
    | goes hs hw hsame => exact hi.1.step hs
    | fails hat hst hr hs => exact hi.1.step hs
    | short hat hk => exact absurd ha hk

/-- No call of the statement fails. -/
def Move.Succeeds : Move → Prop
  | .stmt _ r => r = .ok
  | _ => True

/-- The exchange goes on: bytes arrive, or one of the two takes a step. -/
def Moves (host : Side → Host) (s : State) : Prop := ∃ a t, a.Succeeds ∧ step host s a = some t

/-- Where whole records let the exchange go on, records in pieces do. -/
theorem moves_of_moves {host : Side → Host} {s : State} (h : Example03.Moves host s) :
    Moves host s := by
  obtain ⟨a, t, ha, hs⟩ := h
  cases a with
  | deliver x n => exact ⟨.deliver x n, t, trivial, hs⟩
  | stmt x r =>
    obtain rfl : r = .ok := ha
    by_cases hat : At s x .readInfo
    · have hexec : exec host s x .readInfo = some t := by
        simpa [Example03.step, hat.alive, hat.next] using hs
      by_cases hlen : 22 ≤ (s.stream x).arrived.length
      · exact ⟨.read x 22, t, trivial, by simp [step, hat, Returns, hlen, readInfo, hexec]⟩
      · -- The other end is closed, and what has arrived is all there will be.
        have hend : s.Closed x.peer ∧ (s.stream x).inFlight = [] := by
          simp only [exec, dif_neg hlen] at hexec
          exact (ite_eq_iff.mp hexec).elim And.left (by simp)
        have hret : Returns s x (s.stream x).arrived.length :=
          ⟨by omega, Nat.le_refl _, fun h0 => ⟨hend.1, hend.2, List.length_eq_zero_iff.mp h0⟩⟩
        have hne : (s.stream x).arrived.length ≠ 22 := by omega
        exact ⟨.read x (s.stream x).arrived.length, _, trivial,
          by simp only [step, hat, hret, and_self, if_true, readInfo, if_neg hne]; rfl⟩
    · have hnext : (program x)[(s.party x).pc]? ≠ some .readInfo := by
        intro hnext
        refine hat ⟨?_, hnext⟩
        by_contra hdied
        simp [Example03.step, hdied] at hs
      exact ⟨.stmt x .ok, t, rfl, by simpa [step, hnext] using hs⟩

theorem over_of_not_moves {host : Side → Host} {s : State} (h : Exchanged host s)
    (hmax : ¬Moves host s) (x : Side) : s.Over x := by
  by_contra hx
  exact hmax (moves_of_moves (moves_of_not_over h hx))

theorem through_of_over {s : State} {x : Side} (h : Late s) (hx : s.Over x) : Through s x := by
  rcases hx with hd | hpc
  · exact (h x hd).1
  · have hlt : ∀ st, st = .writeInfo ∨ st = .readInfo → s.Did x st := by
      rintro st (rfl | rfl)
      · exact Nat.lt_of_lt_of_le (by cases x <;> decide) hpc
      · exact Nat.lt_of_lt_of_le (by cases x <;> decide) hpc
    exact ⟨hlt _ (.inl rfl), hlt _ (.inr rfl)⟩

/-- What whole-record delivery gives each side. -/
theorem remoteInfo_whole {host : Side → Host} {as : List Move} {s : State}
    (h : Run.run (step host) .initial as = some s) (hw : WholeReads as) (hmax : ¬Moves host s)
    (x : Side) : (s.party x).remoteInfo = some (host x.peer).info := by
  obtain ⟨hex, hlate⟩ := run_whole h hw
  have hthrough := through_of_over hlate (over_of_not_moves hex hmax x)
  rw [hex.remoteInfo x, if_pos hthrough.2]

/-! ## The exchange does not depend on the pieces iff every read is whole -/

/-- Neither side has died in the exchange, and each has the record that it gets
when the records are delivered whole. -/
structure Independent (host : Side → Host) (s : State) : Prop where
  survives : ∀ x, Survives s x
  received : ∀ x, (s.party x).remoteInfo ≠ none
  same : ∀ bs t, Run.run (step host) .initial bs = some t → WholeReads bs → ¬Moves host t →
    ∀ x, (s.party x).remoteInfo = (t.party x).remoteInfo

theorem independent_of_whole {host : Side → Host} {as : List Move} {s : State}
    (h : Run.run (step host) .initial as = some s) (hw : WholeReads as) (hmax : ¬Moves host s) :
    Independent host s where
  survives := (run_whole h hw).2.survives
  received x := by simp [remoteInfo_whole h hw hmax x]
  same bs t ht hbs hmax' x := by
    rw [remoteInfo_whole h hw hmax x, remoteInfo_whole ht hbs hmax' x]

/-- One `read` of another length, and its program has died. -/
theorem died_of_short {host : Side → Host} {as : List Move} {s : State}
    (h : Run.run (step host) .initial as = some s) (hw : ¬WholeReads as) :
    ∃ x, (s.party x).died = Stmt.readInfo.reason := by
  obtain ⟨a, ha, hshort⟩ : ∃ a ∈ as, ¬a.Whole := by simpa [WholeReads] using hw
  obtain ⟨bs, cs, rfl⟩ := List.append_of_mem ha
  obtain ⟨u, hu, hrest⟩ := Run.run_of_append h
  obtain ⟨v, hv, hrest⟩ := Run.run_cons hrest
  have hdied : ∃ x, (v.party x).died = Stmt.readInfo.reason := by
    cases Step.of_step hv with
    | goes hs hw hsame => exact absurd hw hshort
    | fails hat hst hr hs => exact absurd trivial hshort
    | @short x k hat hk => exact ⟨x, by simp [State.die_died, Stmt.reason]⟩
  obtain ⟨x, hx⟩ := hdied
  exact ⟨x, Run.run_invariant (I := fun s => (s.party x).died = Stmt.readInfo.reason)
    (fun s a t hd hs => (Step.of_step hs).died hd) hrest hx⟩

/-- A run in which everything has been delivered and both have gone on as far as
they can. -/
theorem independent_iff {host : Side → Host} {as : List Move} {s : State}
    (h : Run.run (step host) .initial as = some s) (hmax : ¬Moves host s) :
    Independent host s ↔ WholeReads as := by
  constructor
  · intro hind
    by_contra hw
    obtain ⟨x, hx⟩ := died_of_short h hw
    exact (hind.survives x).2 hx
  · intro hw
    exact independent_of_whole h hw hmax

/-- `x` has come to its end and nothing is under way to it. -/
def Settled (s : State) (x : Side) : Prop := s.Over x ∧ (s.stream x).inFlight = []

instance (s : State) (x : Side) : Decidable (Settled s x) :=
  inferInstanceAs (Decidable ((_ ∨ _) ∧ _))

theorem not_moves {host : Side → Host} {s : State} (h : ∀ x, Settled s x) : ¬Moves host s := by
  rintro ⟨a, t, -, hs⟩
  have hnot : ∀ x st, ¬At s x st := by
    intro x st hat
    rcases (h x).1 with hd | hpc
    · exact hd hat.alive
    · exact absurd hat.pc_lt (Nat.not_lt.mpr hpc)
  cases a with
  | stmt x r =>
    simp only [step] at hs
    split at hs
    · cases hs
    · obtain ⟨st, hat, -⟩ := step_stmt hs
      exact hnot x st hat
  | read x k => simp [step, hnot] at hs
  | deliver x n =>
    simp only [step] at hs
    cases Example03.Step.of_step hs with
    | deliver hpos hn =>
      rw [(h x).2, List.length_nil] at hn
      omega

/-- Both records arrive in parts, and each is read when all of it is there. -/
def inParts : List Move :=
  [.stmt .server .ok, .deliver .client 5, .deliver .client 17, .read .client 22,
    .stmt .client .ok, .deliver .server 21, .deliver .server 1, .read .server 22] ++
    .replicate 5 (.stmt .server .ok) ++ .replicate 6 (.stmt .client .ok)

/-- The same, but the server reads when the first ten bytes are there. -/
def cut : List Move :=
  [.stmt .server .ok, .deliver .client 5, .deliver .client 17, .read .client 22,
    .stmt .client .ok, .deliver .server 10, .read .server 10, .deliver .server 12] ++
    .replicate 6 (.stmt .client .ok)

/-- A run of the two is run to see where it ends. -/
theorem run_settled (as : List Move) (d : Option String)
    (h : (Run.run (step hosts) .initial as).map (fun s =>
      (decide (Settled s .server ∧ Settled s .client), (s.party .server).died)) = some (true, d)) :
    ∃ s, Run.run (step hosts) .initial as = some s ∧ ¬Moves hosts s ∧
      (s.party .server).died = d := by
  obtain ⟨s, hs, heq⟩ := Option.map_eq_some_iff.mp h
  obtain ⟨hsettled, hdied⟩ := Prod.mk.inj heq
  have hboth := of_decide_eq_true hsettled
  refine ⟨s, hs, not_moves fun x => ?_, hdied⟩
  cases x with
  | server => exact hboth.1
  | client => exact hboth.2

theorem independent_iff_inParts : ∃ s, Run.run (step hosts) .initial inParts = some s ∧
    ¬Moves hosts s ∧ WholeReads inParts ∧ Independent hosts s := by
  obtain ⟨s, hs, hmax, -⟩ := run_settled inParts none (by decide +kernel)
  have hw : WholeReads inParts := by decide
  exact ⟨s, hs, hmax, hw, (independent_iff hs hmax).mpr hw⟩

/-- Ten bytes of the client's record have arrived when the server reads. -/
theorem cut_record : ¬∀ (host : Side → Host) (as : List Move) (s : State),
    Run.run (step host) .initial as = some s → ¬Moves host s → Independent host s := by
  intro hall
  obtain ⟨s, hs, hmax, hdied⟩ :=
    run_settled cut (some "Failed to receive remote QP info") (by decide +kernel)
  exact ((hall hosts cut s hs hmax).survives .server).2 hdied

end RdmaTutorial.Example03.Segments
