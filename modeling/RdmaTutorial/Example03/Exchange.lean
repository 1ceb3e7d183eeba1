import Mathlib.Logic.Function.Basic
import RdmaTutorial.Example03.QpInfo
import RdmaTutorial.Lib.Run
import RdmaTutorial.Peer

/-!
# example03: from a connected socket to the first message

`main` of server.c and of client.c, from the exchange of the QP information over
TCP to the first `post_receive` and, in the client, `post_send`. Up to there each
of them is a list of statements, and a run is any interleaving of the two with
what the connection delivers.
-/

namespace RdmaTutorial.Example03

open Function

inductive Side where
  | server
  | client
  deriving DecidableEq, Repr

/-- The other end. -/
def Side.peer : Side → Side
  | .server => .client
  | .client => .server

@[simp] theorem Side.peer_peer (x : Side) : x.peer.peer = x := by cases x <;> rfl

@[simp] theorem Side.peer_ne (x : Side) : x.peer ≠ x := by cases x <;> decide

@[simp] theorem Side.ne_peer (x : Side) : x ≠ x.peer := by cases x <;> decide

/-- `IBV_QPS_RESET`, .. -/
inductive QpState where
  | reset
  | init
  | rtr
  | rts
  deriving DecidableEq, Repr

inductive Stmt where
  /-- `write` of `local_info`. -/
  | writeInfo
  /-- `read` into `remote_info`. -/
  | readInfo
  /-- The three calls of `ibv_modify_qp` in `setup_qp_state`. -/
  | modifyInit
  | modifyRtr
  | modifyRts
  | close
  | postReceive
  | postSend
  deriving DecidableEq, Repr

/-- The statements, in program order. The server writes first. -/
def program : Side → List Stmt
  | .server => [.writeInfo, .readInfo, .modifyInit, .modifyRtr, .modifyRts, .close, .postReceive]
  | .client =>
    [.readInfo, .writeInfo, .modifyInit, .modifyRtr, .modifyRts, .close, .postReceive, .postSend]

/-- What `die` is called with when the call fails. What `close` returns is not
looked at. -/
def Stmt.reason : Stmt → Option String
  | .writeInfo => some "Failed to send local QP info"
  | .readInfo => some "Failed to receive remote QP info"
  | .modifyInit => some "Failed to modify QP to INIT"
  | .modifyRtr => some "Failed to modify QP to RTR"
  | .modifyRts => some "Failed to modify QP to RTS"
  | .close => none
  | .postReceive => some "post_receive failed"
  | .postSend => some "post_send failed"

/-- The fields of `attr` that come from `remote_info`. -/
structure Address where
  destQpNum : UInt32
  dlid : UInt16
  dgid : Gid
  deriving DecidableEq, Repr

/-- The address of a QP, by the information on it. -/
def QpConnInfo.address (r : QpConnInfo) : Address :=
  { destQpNum := r.qpNum, dlid := r.lid, dgid := r.gid }

/-- A running program. `pc` counts the statements it has executed. -/
structure Party where
  died : Option String
  pc : Nat
  remoteInfo : Option QpConnInfo
  qp : QpState
  address : Option Address
  deriving DecidableEq, Repr

/-- One direction of the connection. `sent` is a history variable. -/
structure Stream where
  sent : List UInt8
  inFlight : List UInt8
  arrived : List UInt8
  deriving DecidableEq, Repr

/-- `stream x` goes to `x`. -/
structure State where
  party : Side → Party
  stream : Side → Stream

inductive Action where
  /-- The next statement of `x`, and what the call in it returns. -/
  | stmt (x : Side) (r : Result)
  /-- The next `n` bytes to `x` arrive. -/
  | deliver (x : Side) (n : Nat)
  deriving DecidableEq, Repr

namespace State

def initial : State :=
  { party := fun _ => ⟨none, 0, none, .reset, none⟩, stream := fun _ => ⟨[], [], []⟩ }

def setParty (s : State) (x : Side) (p : Party) : State :=
  { s with party := update s.party x p }

def setStream (s : State) (x : Side) (c : Stream) : State :=
  { s with stream := update s.stream x c }

/-- `x` goes on to its next statement, as `p` but for its place. -/
def advance (s : State) (x : Side) (p : Party) : State :=
  s.setParty x { p with pc := (s.party x).pc + 1 }

def die (s : State) (x : Side) (reason : String) : State :=
  s.setParty x { s.party x with died := some reason }

@[simp] theorem setStream_party (s : State) (x : Side) (c : Stream) :
    (s.setStream x c).party = s.party := rfl

@[simp] theorem setStream_stream (s : State) (x y : Side) (c : Stream) :
    (s.setStream x c).stream y = if y = x then c else s.stream y := update_apply ..

@[simp] theorem advance_stream (s : State) (x : Side) (p : Party) :
    (s.advance x p).stream = s.stream := rfl

@[simp] theorem die_stream (s : State) (x : Side) (reason : String) :
    (s.die x reason).stream = s.stream := rfl

/-- What is read of a party but for its place. -/
theorem advance_field {β : Type} (f : Party → β) (hf : ∀ p n, f { p with pc := n } = f p)
    (s : State) (x y : Side) (p : Party) :
    f ((s.advance x p).party y) = if y = x then f p else f (s.party y) := by
  by_cases hy : y = x
  · subst hy
    simp [advance, setParty, hf]
  · simp [advance, setParty, hy]

@[simp] theorem advance_remoteInfo (s : State) (x y : Side) (p : Party) :
    ((s.advance x p).party y).remoteInfo = if y = x then p.remoteInfo else (s.party y).remoteInfo :=
  advance_field (·.remoteInfo) (fun _ _ => rfl) s x y p

@[simp] theorem advance_address (s : State) (x y : Side) (p : Party) :
    ((s.advance x p).party y).address = if y = x then p.address else (s.party y).address :=
  advance_field (·.address) (fun _ _ => rfl) s x y p

@[simp] theorem advance_qp (s : State) (x y : Side) (p : Party) :
    ((s.advance x p).party y).qp = if y = x then p.qp else (s.party y).qp :=
  advance_field (·.qp) (fun _ _ => rfl) s x y p

@[simp] theorem advance_died (s : State) (x y : Side) (p : Party) :
    ((s.advance x p).party y).died = if y = x then p.died else (s.party y).died :=
  advance_field (·.died) (fun _ _ => rfl) s x y p

@[simp] theorem advance_pc (s : State) (x y : Side) (p : Party) :
    ((s.advance x p).party y).pc = if y = x then (s.party x).pc + 1 else (s.party y).pc := by
  by_cases hy : y = x
  · subst hy
    simp [advance, setParty]
  · simp [advance, setParty, hy]

/-- Who dies leaves everything else as it is. -/
theorem die_field {β : Type} (f : Party → β) (hf : ∀ p d, f { p with died := d } = f p)
    (s : State) (x y : Side) (reason : String) :
    f ((s.die x reason).party y) = f (s.party y) := by
  by_cases hy : y = x
  · subst hy
    simp [die, setParty, hf]
  · simp [die, setParty, hy]

theorem die_died (s : State) (x y : Side) (reason : String) :
    ((s.die x reason).party y).died = if y = x then some reason else (s.party y).died := by
  by_cases hy : y = x
  · subst hy
    simp [die, setParty]
  · simp [die, setParty, hy]

@[simp] theorem die_pc (s : State) (x y : Side) (reason : String) :
    ((s.die x reason).party y).pc = (s.party y).pc :=
  die_field (·.pc) (fun _ _ => rfl) s x y reason

@[simp] theorem die_remoteInfo (s : State) (x y : Side) (reason : String) :
    ((s.die x reason).party y).remoteInfo = (s.party y).remoteInfo :=
  die_field (·.remoteInfo) (fun _ _ => rfl) s x y reason

@[simp] theorem die_address (s : State) (x y : Side) (reason : String) :
    ((s.die x reason).party y).address = (s.party y).address :=
  die_field (·.address) (fun _ _ => rfl) s x y reason

@[simp] theorem die_qp (s : State) (x y : Side) (reason : String) :
    ((s.die x reason).party y).qp = (s.party y).qp :=
  die_field (·.qp) (fun _ _ => rfl) s x y reason

/-- `x` has executed this statement. -/
def Did (s : State) (x : Side) (st : Stmt) : Prop := (program x).idxOf st < (s.party x).pc

instance (s : State) (x : Side) (st : Stmt) : Decidable (s.Did x st) :=
  inferInstanceAs (Decidable (_ < _))

/-- `x` sends nothing any more. -/
def Closed (s : State) (x : Side) : Prop := (s.party x).died ≠ none ∨ s.Did x .close

instance (s : State) (x : Side) : Decidable (s.Closed x) := inferInstanceAs (Decidable (_ ∨ _))

end State

/-- A statement, when the call in it does not fail. -/
def exec (host : Side → Host) (s : State) (x : Side) : Stmt → Option State
  | .writeInfo =>
    let bs := ((host x).localInfo.toMemory (host x).endian).val
    let c := s.stream x.peer
    some ((s.advance x (s.party x)).setStream x.peer
      { c with sent := c.sent ++ bs, inFlight := c.inFlight ++ bs })
  | .readInfo =>
    let c := s.stream x
    if h : 22 ≤ c.arrived.length then
      let m : Bytes 22 := ⟨c.arrived.take 22, by simpa using h⟩
      let r := (host x).remoteInfo (.ofMemory (host x).endian m)
      some ((s.advance x { s.party x with remoteInfo := some r }).setStream x
        { c with arrived := c.arrived.drop 22 })
    -- The other end is closed: `read` returns what there is.
    else if s.Closed x.peer ∧ c.inFlight = [] then
      some (s.die x "Failed to receive remote QP info")
    else none
  | .modifyInit => some (s.advance x { s.party x with qp := .init })
  | .modifyRtr =>
    (s.party x).remoteInfo.map fun r =>
      s.advance x { s.party x with qp := .rtr, address := some r.address }
  | .modifyRts => some (s.advance x { s.party x with qp := .rts })
  | .close => some (s.advance x (s.party x))
  | .postReceive => some (s.advance x (s.party x))
  | .postSend => some (s.advance x (s.party x))

def step (host : Side → Host) (s : State) (a : Action) : Option State :=
  match a with
  | .stmt x r =>
    if (s.party x).died = none then
      (program x)[(s.party x).pc]?.bind fun st =>
        match r, st.reason with
        | .fail, some reason => some (s.die x reason)
        | _, _ => exec host s x st
    else none
  | .deliver x n =>
    let c := s.stream x
    if 0 < n ∧ n ≤ c.inFlight.length then
      some (s.setStream x
        { c with inFlight := c.inFlight.drop n, arrived := c.arrived ++ c.inFlight.take n })
    else none

/-! ## What each step does -/

/-- The statements that concern their own side alone. -/
inductive Becomes (p : Party) : Stmt → Party → Prop where
  | modifyInit : Becomes p .modifyInit { p with qp := .init }
  | modifyRtr {r} (hr : p.remoteInfo = some r) :
      Becomes p .modifyRtr { p with qp := .rtr, address := some r.address }
  | modifyRts : Becomes p .modifyRts { p with qp := .rts }
  | close : Becomes p .close p
  | postReceive : Becomes p .postReceive p
  | postSend : Becomes p .postSend p

/-- The next statement of `x` is `st`. -/
structure At (s : State) (x : Side) (st : Stmt) : Prop where
  alive : (s.party x).died = none
  next : (program x)[(s.party x).pc]? = some st

inductive Step (host : Side → Host) (s : State) : Action → State → Prop where
  | becomes {x r st p} (hat : At s x st) (hr : r = .ok ∨ st = .close)
      (hp : Becomes (s.party x) st p) : Step host s (.stmt x r) (s.advance x p)
  | writeInfo {x} (hat : At s x .writeInfo) :
      Step host s (.stmt x .ok) ((s.advance x (s.party x)).setStream x.peer
        { s.stream x.peer with
          sent := (s.stream x.peer).sent ++ wireBytes (host x).info,
          inFlight := (s.stream x.peer).inFlight ++ wireBytes (host x).info })
  | readInfo {x} (hat : At s x .readInfo) (m : Bytes 22)
      (hm : m.val = (s.stream x).arrived.take 22) :
      Step host s (.stmt x .ok) ((s.advance x { s.party x with
        remoteInfo := some ((host x).remoteInfo (.ofMemory (host x).endian m)) }).setStream x
          { s.stream x with arrived := (s.stream x).arrived.drop 22 })
  | dies {x r reason} (halive : (s.party x).died = none) (hr : r = .ok → At s x .readInfo) :
      Step host s (.stmt x r) (s.die x reason)
  | deliver {x n} (hpos : 0 < n) (hn : n ≤ (s.stream x).inFlight.length) :
      Step host s (.deliver x n) (s.setStream x { s.stream x with
        inFlight := (s.stream x).inFlight.drop n,
        arrived := (s.stream x).arrived ++ (s.stream x).inFlight.take n })

theorem Step.of_exec {host : Side → Host} {s t : State} {x : Side} {st : Stmt} {r : Result}
    (hat : At s x st) (hr : r = .ok ∨ st = .close) (h : exec host s x st = some t) :
    Step host s (.stmt x r) t := by
  unfold exec at h
  split at h
  · obtain rfl := hr.resolve_right (by simp)
    cases h
    have hbs := (host x).toMemory_localInfo
    simp only [hbs]
    exact .writeInfo hat
  · obtain rfl := hr.resolve_right (by simp)
    simp only at h
    split at h
    · cases h
      exact .readInfo hat _ rfl
    · split at h
      · cases h
        exact .dies hat.alive fun _ => hat
      · cases h
  · cases h
    exact .becomes hat hr .modifyInit
  · obtain ⟨i, hi, rfl⟩ := Option.map_eq_some_iff.mp h
    exact .becomes hat hr (.modifyRtr hi)
  · cases h
    exact .becomes hat hr .modifyRts
  · cases h
    exact .becomes hat hr .close
  · cases h
    exact .becomes hat hr .postReceive
  · cases h
    exact .becomes hat hr .postSend

/-- A call that fails kills its side, but for `close`. -/
theorem step_stmt {host : Side → Host} {s t : State} {x : Side} {r : Result}
    (h : step host s (.stmt x r) = some t) : ∃ st, At s x st ∧
      ((r = .fail ∧ ∃ reason, st.reason = some reason ∧ t = s.die x reason) ∨
        ((r = .ok ∨ st = .close) ∧ exec host s x st = some t)) := by
  unfold step at h
  by_cases halive : (s.party x).died = none
  · simp only [if_pos halive] at h
    obtain ⟨st, hst, h⟩ := Option.bind_eq_some_iff.mp h
    refine ⟨st, ⟨halive, hst⟩, ?_⟩
    cases r with
    | ok => exact .inr ⟨.inl rfl, h⟩
    | fail =>
      cases hreason : st.reason with
      | none =>
        have hclose : st = .close := by cases st <;> simp [Stmt.reason] at hreason ⊢
        exact .inr ⟨.inr hclose, by simpa [hreason] using h⟩
      | some reason => exact .inl ⟨rfl, reason, rfl, by simpa [hreason] using h.symm⟩
  · simp [if_neg halive] at h

theorem Step.of_step {host : Side → Host} {s t : State} {a : Action}
    (h : step host s a = some t) : Step host s a t := by
  cases a with
  | stmt x r =>
    obtain ⟨st, hat, hdies | hexec⟩ := step_stmt h
    · obtain ⟨rfl, reason, hreason, rfl⟩ := hdies
      exact .dies hat.alive (by simp)
    · exact .of_exec hat hexec.1 hexec.2
  | deliver x n =>
    simp only [step] at h
    split at h
    · cases h
      rename_i hn
      exact .deliver hn.1 hn.2
    · cases h

/-! ## Where a program is -/

theorem program_nodup (x : Side) : (program x).Nodup := by cases x <;> decide

theorem At.pc_lt {s : State} {x : Side} {st : Stmt} (h : At s x st) :
    (s.party x).pc < (program x).length := (List.getElem?_eq_some_iff.mp h.next).1

theorem At.idxOf {s : State} {x : Side} {st : Stmt} (h : At s x st) :
    (program x).idxOf st = (s.party x).pc := by
  obtain ⟨hlt, hst⟩ := List.getElem?_eq_some_iff.mp h.next
  rw [← hst]
  exact (program_nodup x).idxOf_getElem _ hlt

theorem At.not_did {s : State} {x : Side} {st : Stmt} (h : At s x st) : ¬s.Did x st := by
  simp [State.Did, h.idxOf]

/-- What `x` has executed behind its next statement is that and what it has
executed in front of it. -/
theorem At.did_advance {s : State} {x y : Side} {st st' : Stmt} {p : Party} (h : At s x st) :
    (s.advance x p).Did y st' ↔ s.Did y st' ∨ (y = x ∧ st' = st) := by
  by_cases hy : y = x
  · subst hy
    have hiff : (program y).idxOf st' = (s.party y).pc ↔ st' = st := by
      constructor
      · intro heq
        have hlt : (program y).idxOf st' < (program y).length := heq ▸ h.pc_lt
        have hget := List.getElem_idxOf hlt
        have hnext := (List.getElem?_eq_some_iff.mp h.next).2
        simp only [heq] at hget
        exact hget.symm.trans hnext
      · rintro rfl
        exact h.idxOf
    simp only [State.Did, State.advance, State.setParty, update_self, true_and, ← hiff]
    omega
  · simp [State.Did, State.advance, State.setParty, hy]

@[simp] theorem did_setStream (s : State) (x y : Side) (c : Stream) (st : Stmt) :
    (s.setStream x c).Did y st ↔ s.Did y st := .rfl

@[simp] theorem did_die (s : State) (x y : Side) (reason : String) (st : Stmt) :
    (s.die x reason).Did y st ↔ s.Did y st := by
  simp [State.Did]

/-! ## What is known on either side -/

/-- What the statements a side has executed say about what it has, and about
what is on its way to it. -/
structure Exchanged (host : Side → Host) (s : State) : Prop where
  written : ∀ x, s.Did x .readInfo → s.Did x.peer .writeInfo
  sent : ∀ x, (s.stream x).sent =
    if s.Did x.peer .writeInfo then wireBytes (host x.peer).info else []
  unread : ∀ x, (s.stream x).arrived ++ (s.stream x).inFlight =
    if s.Did x.peer .writeInfo ∧ ¬s.Did x .readInfo then wireBytes (host x.peer).info else []
  remoteInfo : ∀ x, (s.party x).remoteInfo =
    if s.Did x .readInfo then some (host x.peer).info else none
  address : ∀ x, (s.party x).address =
    if s.Did x .modifyRtr then some (host x.peer).info.address else none

namespace Exchanged

variable {host : Side → Host} {s : State}

theorem initial (host : Side → Host) : Exchanged host .initial := by
  constructor <;> simp [State.initial, State.Did]

/-- `setup_qp_state`, and what follows it. -/
theorem becomes (h : Exchanged host s) {x : Side} {st : Stmt} {p : Party} (hat : At s x st)
    (hp : Becomes (s.party x) st p) : Exchanged host (s.advance x p) := by
  have hw : .writeInfo ≠ st := by rintro rfl; cases hp
  have hr : .readInfo ≠ st := by rintro rfl; cases hp
  exact {
    written := by simpa [hat.did_advance, hw, hr] using h.written
    sent := by simpa [hat.did_advance, hw] using h.sent
    unread := by simpa [hat.did_advance, hw, hr] using h.unread
    remoteInfo := by
      intro y
      have hsame : p.remoteInfo = (s.party x).remoteInfo := by cases hp <;> rfl
      have hy : ((s.advance x p).party y).remoteInfo = (s.party y).remoteInfo := by
        by_cases hy : y = x <;> simp [hy, hsame]
      rw [hy]
      simpa [hat.did_advance, hr] using h.remoteInfo y
    address := by
      intro y
      by_cases hy : y = x
      · subst hy
        cases hp with
        | modifyRtr hread =>
          -- What is installed has been read.
          have hinfo := h.remoteInfo y
          rw [hread] at hinfo
          split at hinfo
          · cases hinfo
            simp [hat.did_advance]
          · cases hinfo
        | _ => simpa [hat.did_advance] using h.address y
      · simpa [hat.did_advance, hy] using h.address y }

theorem writeInfo (h : Exchanged host s) {x : Side} (hat : At s x .writeInfo) :
    Exchanged host ((s.advance x (s.party x)).setStream x.peer
      { s.stream x.peer with
        sent := (s.stream x.peer).sent ++ wireBytes (host x).info,
        inFlight := (s.stream x.peer).inFlight ++ wireBytes (host x).info }) := by
  have hnot := hat.not_did
  have hunread : ¬s.Did x.peer .readInfo := fun hr => hnot (by simpa using h.written _ hr)
  have hne : ∀ {y : Side}, y ≠ x.peer → y.peer ≠ x := by
    rintro y hy rfl
    simp at hy
  exact {
    written := by
      intro y hy
      simp only [did_setStream, hat.did_advance, reduceCtorEq, and_false, or_false] at hy ⊢
      exact .inl (h.written y hy)
    sent := by
      intro y
      by_cases hy : y = x.peer
      · subst hy
        have hsent := h.sent x.peer
        simp only [Side.peer_peer, if_neg hnot] at hsent
        simp [hat.did_advance, hsent]
      · simpa [hat.did_advance, hy, hne hy] using h.sent y
    unread := by
      intro y
      by_cases hy : y = x.peer
      · subst hy
        have hold := h.unread x.peer
        simp only [Side.peer_peer, hnot, false_and, if_false, List.append_eq_nil_iff] at hold
        simp [hat.did_advance, hold, hunread]
      · simpa [hat.did_advance, hy, hne hy] using h.unread y
    remoteInfo := by
      intro y
      have hy : ((s.advance x (s.party x)).party y).remoteInfo = (s.party y).remoteInfo := by
        by_cases hy : y = x <;> simp [hy]
      rw [State.setStream_party, hy]
      simpa [hat.did_advance] using h.remoteInfo y
    address := by
      intro y
      have hy : ((s.advance x (s.party x)).party y).address = (s.party y).address := by
        by_cases hy : y = x <;> simp [hy]
      rw [State.setStream_party, hy]
      simpa [hat.did_advance] using h.address y }

theorem readInfo (h : Exchanged host s) {x : Side} (hat : At s x .readInfo) (m : Bytes 22)
    (hm : m.val = (s.stream x).arrived.take 22) :
    Exchanged host ((s.advance x { s.party x with
      remoteInfo := some ((host x).remoteInfo (.ofMemory (host x).endian m)) }).setStream x
        { s.stream x with arrived := (s.stream x).arrived.drop 22 }) := by
  have hnot := hat.not_did
  -- All of the record is there, and nothing else.
  have hlen : 22 ≤ (s.stream x).arrived.length := by
    have hl := congrArg List.length hm
    simp only [m.property, List.length_take] at hl
    omega
  have hold := h.unread x
  by_cases hwritten : s.Did x.peer .writeInfo
  · simp only [hwritten, hnot, not_false_eq_true, and_self, if_true] at hold
    have hempty : (s.stream x).inFlight = [] := by
      have hl := congrArg List.length hold
      simp only [List.length_append, length_wireBytes] at hl
      exact List.length_eq_zero_iff.mp (by omega)
    rw [hempty, List.append_nil] at hold
    have hmem : m.val = wireBytes (host x.peer).info := by
      rw [hm, hold, ← length_wireBytes (host x.peer).info, List.take_length]
    have hinfo := (host x).remoteInfo_ofMemory _ m hmem
    exact {
      written := by
        intro y hy
        simp only [did_setStream, hat.did_advance, reduceCtorEq, and_false, or_false] at hy ⊢
        rcases hy with hy | ⟨rfl, -⟩
        · exact h.written y hy
        · exact hwritten
      sent := by
        intro y
        by_cases hy : y = x
        · subst hy
          simpa [hat.did_advance] using h.sent y
        · simpa [hat.did_advance, hy] using h.sent y
      unread := by
        intro y
        by_cases hy : y = x
        · subst hy
          simp [hat.did_advance, hold, hempty]
        · simpa [hat.did_advance, hy] using h.unread y
      remoteInfo := by
        intro y
        by_cases hy : y = x
        · subst hy
          simp [hat.did_advance, hinfo]
        · simpa [hat.did_advance, hy] using h.remoteInfo y
      address := by
        intro y
        by_cases hy : y = x
        · subst hy
          simpa [hat.did_advance] using h.address y
        · simpa [hat.did_advance, hy] using h.address y }
  · simp only [hwritten, false_and, if_false, List.append_eq_nil_iff] at hold
    simp [hold.1] at hlen

theorem die (h : Exchanged host s) (x : Side) (reason : String) :
    Exchanged host (s.die x reason) where
  written := by simpa using h.written
  sent := by simpa using h.sent
  unread := by simpa using h.unread
  remoteInfo := by simpa using h.remoteInfo
  address := by simpa using h.address

theorem deliver (h : Exchanged host s) (x : Side) (n : Nat) :
    Exchanged host (s.setStream x { s.stream x with
      inFlight := (s.stream x).inFlight.drop n,
      arrived := (s.stream x).arrived ++ (s.stream x).inFlight.take n }) where
  written := h.written
  sent y := by
    by_cases hy : y = x
    · subst hy
      simpa using h.sent y
    · simpa [hy] using h.sent y
  unread y := by
    by_cases hy : y = x
    · subst hy
      simpa using h.unread y
    · simpa [hy] using h.unread y
  remoteInfo := h.remoteInfo
  address := h.address

theorem step {t : State} {a : Action} (h : Exchanged host s)
    (hs : Example03.step host s a = some t) : Exchanged host t := by
  cases Step.of_step hs with
  | becomes hat hr hp => exact h.becomes hat hp
  | writeInfo hat => exact h.writeInfo hat
  | readInfo hat m hm => exact h.readInfo hat m hm
  | dies halive hr => exact h.die _ _
  | deliver hpos hn => exact h.deliver _ _

end Exchanged

/-! ## Neither side waits for ever -/

/-- `x` is in its loop, or has died. -/
def State.Over (s : State) (x : Side) : Prop :=
  (s.party x).died ≠ none ∨ (program x).length ≤ (s.party x).pc

/-- No call of the statement fails. -/
def Action.Succeeds : Action → Prop
  | .stmt _ r => r = .ok
  | .deliver .. => True

/-- Some step can be taken in which nothing fails. -/
def Moves (host : Side → Host) (s : State) : Prop := ∃ a t, a.Succeeds ∧ step host s a = some t

variable {host : Side → Host} {s : State}

theorem exists_at {x : Side} (h : ¬s.Over x) : ∃ st, At s x st := by
  have hover : (s.party x).died = none ∧ (s.party x).pc < (program x).length := by
    simpa [State.Over] using h
  exact ⟨_, hover.1, List.getElem?_eq_getElem hover.2⟩

theorem moves_of_exec {x : Side} {st : Stmt} {t : State} (hat : At s x st)
    (h : exec host s x st = some t) : Moves host s :=
  ⟨.stmt x .ok, t, rfl, by simpa [step, hat.alive, hat.next] using h⟩

/-- Only `read` waits for anything. -/
theorem moves_of_at (h : Exchanged host s) {x : Side} {st : Stmt} (hat : At s x st)
    (hst : st ≠ .readInfo) : Moves host s := by
  cases st with
  | readInfo => exact absurd rfl hst
  | modifyRtr =>
    have hread : s.Did x .readInfo := by
      simp only [State.Did, ← hat.idxOf]
      cases x <;> decide
    have hinfo := h.remoteInfo x
    rw [if_pos hread] at hinfo
    exact moves_of_exec hat (by simp [exec, hinfo]; rfl)
  | _ => exact moves_of_exec hat rfl

/-- Once the record has been written it arrives and can be read. -/
theorem moves_of_written (h : Exchanged host s) {x : Side} (hat : At s x .readInfo)
    (hw : s.Did x.peer .writeInfo) : Moves host s := by
  have hold := h.unread x
  simp only [hw, hat.not_did, not_false_eq_true, and_self, if_true] at hold
  by_cases hempty : (s.stream x).inFlight = []
  · rw [hempty, List.append_nil] at hold
    exact moves_of_exec hat (by simp [exec, hold]; rfl)
  · have hpos := List.length_pos_iff.mpr hempty
    exact ⟨.deliver x (s.stream x).inFlight.length, _, trivial, by simp [step, hpos]; rfl⟩

/-- As long as a side is on its way, one of the two goes on, or bytes arrive. -/
theorem moves_of_not_over (h : Exchanged host s) {x : Side} (hx : ¬s.Over x) :
    Moves host s := by
  obtain ⟨st, hat⟩ := exists_at hx
  by_cases hst : st = .readInfo
  · subst hst
    by_cases hw : s.Did x.peer .writeInfo
    · exact moves_of_written h hat hw
    · by_cases hpeer : s.Over x.peer
      · -- The other end has died, or it would have written.
        have hdied : (s.party x.peer).died ≠ none := by
          refine hpeer.resolve_right fun hle => hw ?_
          have hlt : (program x.peer).idxOf .writeInfo < (program x.peer).length := by
            cases x <;> decide
          exact Nat.lt_of_lt_of_le hlt hle
        have hold := h.unread x
        simp only [hw, false_and, if_false, List.append_eq_nil_iff] at hold
        exact moves_of_exec hat (by simp [exec, hold, State.Closed, hdied]; rfl)
      · obtain ⟨st', hat'⟩ := exists_at hpeer
        by_cases hst' : st' = .readInfo
        · -- Both wait: but the server has written by then.
          subst hst'
          have hserver : x = .server ∨ x.peer = .server := by cases x <;> simp [Side.peer]
          rcases hserver with rfl | hpeer
          · refine moves_of_written h hat' ?_
            simp only [State.Did, Side.peer_peer, ← hat.idxOf]
            decide
          · refine absurd ?_ hw
            simp only [State.Did, hpeer, ← hpeer ▸ hat'.idxOf]
            decide
        · exact moves_of_at h hat' hst'
  · exact moves_of_at h hat hst

/-- The statements a side has in front of it, its death, and the bytes it may
still get; a statement may send 22 bytes. -/
def toCome (s : State) (x : Side) : Nat :=
  23 * ((program x).length - (s.party x).pc) + (s.party x).died.elim 1 (fun _ => 0) +
    (s.stream x).inFlight.length

def total (s : State) : Nat := toCome s .server + toCome s .client

theorem total_eq (s : State) (x : Side) : total s = toCome s x + toCome s x.peer := by
  cases x with
  | server => rfl
  | client => exact Nat.add_comm ..

theorem toCome_advance {x : Side} {st : Stmt} (hat : At s x st) {p : Party}
    (hp : p.died = (s.party x).died) : toCome (s.advance x p) x + 23 = toCome s x := by
  have hlt := hat.pc_lt
  simp only [toCome, State.advance_died, State.advance_stream, if_true, hp]
  simp only [State.advance, State.setParty, update_self]
  omega

theorem toCome_advance_peer (s : State) (x : Side) (p : Party) :
    toCome (s.advance x p) x.peer = toCome s x.peer := by
  simp [toCome, State.advance, State.setParty]

theorem toCome_setStream (s : State) (x : Side) (c : Stream) :
    toCome (s.setStream x c) x + (s.stream x).inFlight.length =
      toCome s x + c.inFlight.length := by
  simp only [toCome, State.setStream_party, State.setStream_stream, if_true]
  omega

theorem toCome_setStream_of_ne {x y : Side} (h : y ≠ x) (s : State) (c : Stream) :
    toCome (s.setStream x c) y = toCome s y := by
  simp [toCome, h]

/-- Every step brings the end nearer. -/
theorem total_step {t : State} {a : Action} (h : step host s a = some t) : total t < total s := by
  cases Step.of_step h with
  | @becomes x r st p hat hr hp =>
    have hx := toCome_advance hat (p := p) (by cases hp <;> rfl)
    rw [total_eq _ x, total_eq s x, toCome_advance_peer]
    omega
  | @writeInfo x hat =>
    have hx := toCome_advance hat (p := s.party x) rfl
    have hp := toCome_advance_peer s x (s.party x)
    have hset := toCome_setStream (s.advance x (s.party x)) x.peer
      { s.stream x.peer with
        sent := (s.stream x.peer).sent ++ wireBytes (host x).info,
        inFlight := (s.stream x.peer).inFlight ++ wireBytes (host x).info }
    simp only [State.advance_stream, List.length_append, length_wireBytes] at hset
    rw [total_eq _ x, total_eq s x, toCome_setStream_of_ne (Side.ne_peer x)]
    dsimp only
    omega
  | @readInfo x hat m hm =>
    have hx := toCome_advance hat (p := { s.party x with
      remoteInfo := some ((host x).remoteInfo (.ofMemory (host x).endian m)) }) rfl
    have hset := toCome_setStream (s.advance x { s.party x with
      remoteInfo := some ((host x).remoteInfo (.ofMemory (host x).endian m)) }) x
        { s.stream x with arrived := (s.stream x).arrived.drop 22 }
    simp only [State.advance_stream] at hset
    rw [total_eq _ x, total_eq s x, toCome_setStream_of_ne (Side.peer_ne x), toCome_advance_peer]
    dsimp only at hx hset ⊢
    omega
  | @dies x r reason halive hr =>
    rw [total_eq _ x, total_eq s x]
    simp [toCome, State.die, State.setParty, halive]
  | @deliver x n hpos hn =>
    have hset := toCome_setStream s x { s.stream x with
      inFlight := (s.stream x).inFlight.drop n,
      arrived := (s.stream x).arrived ++ (s.stream x).inFlight.take n }
    simp only [List.length_drop] at hset
    rw [total_eq _ x, total_eq s x, toCome_setStream_of_ne (Side.peer_ne x)]
    dsimp only
    omega

/-- What the exchange gives each side, and that it comes to its end. -/
structure Agrees (host : Side → Host) (s : State) : Prop where
  /-- The QP is given the address of the other QP. -/
  address : ∀ x, (s.party x).address = if s.Did x .modifyRtr then
    some ⟨(host x.peer).qpNum, (host x.peer).lid, (host x.peer).gid⟩ else none
  /-- The bytes on the wire are those of the values, whatever the host. -/
  wire : ∀ x, (s.stream x).sent = if s.Did x.peer .writeInfo then
    wireBytes ⟨(host x.peer).qpNum, (host x.peer).lid, (host x.peer).gid⟩ else []
  progress : (∀ x, s.Over x) ∨ Moves host s

/-- The exchange, in any interleaving of the two programs and on any two
hosts. -/
theorem exchange_agrees {host : Side → Host} {as : List Action} {s : State}
    (h : Run.run (step host) .initial as = some s) : Agrees host s ∧ as.length ≤ 347 := by
  have hex := Run.run_invariant (I := Exchanged host) (fun s a t hs ha => hs.step ha) h
    (.initial host)
  refine ⟨⟨hex.address, hex.sent, ?_⟩, ?_⟩
  · by_cases hover : ∀ x, s.Over x
    · exact .inl hover
    · obtain ⟨x, hx⟩ := not_forall.mp hover
      exact .inr (moves_of_not_over hex hx)
  · have hle := Run.run_length_le (m := total) (fun s a t => total_step) h
    have hinit : total .initial = 347 := rfl
    omega

/-- A little-endian server and a big-endian client. -/
def hosts : Side → Host
  | .server =>
    ⟨.little, 0x1234, 7, ⟨[254, 128, 0, 0, 0, 0, 0, 0, 2, 1, 2, 255, 254, 3, 4, 5], rfl⟩⟩
  | .client =>
    ⟨.big, 0xabcdef, 513, ⟨[254, 128, 0, 0, 0, 0, 0, 0, 2, 9, 8, 255, 254, 7, 6, 5], rfl⟩⟩

/-- The exchange up to the close of the sockets; the records arrive in parts. -/
def exchange : List Action :=
  [.stmt .server .ok, .deliver .client 5, .deliver .client 17] ++
    .replicate 3 (.stmt .client .ok) ++ [.deliver .server 22] ++
    .replicate 5 (.stmt .server .ok) ++ .replicate 3 (.stmt .client .ok)

theorem exchange_agrees_exchange : ∃ s, Run.run (step hosts) .initial exchange = some s ∧
    s.Did .server .close ∧ s.Did .client .close ∧ Agrees hosts s := by
  have hrun : (Run.run (step hosts) .initial exchange).map
      (fun s => ((s.party .server).pc, (s.party .client).pc)) = some (6, 6) := by decide +kernel
  obtain ⟨s, hs, hpc⟩ := Option.map_eq_some_iff.mp hrun
  obtain ⟨hserver, hclient⟩ := Prod.mk.inj hpc
  refine ⟨s, hs, ?_, ?_, (exchange_agrees hs).1⟩
  · simp only [State.Did, hserver]
    decide
  · simp only [State.Did, hclient]
    decide

end RdmaTutorial.Example03
