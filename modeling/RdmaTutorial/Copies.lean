import RdmaTutorial.EchoLoop
import RdmaTutorial.Rdmacm05.Isolation

/-!
# rdmacm03, rdmacm04, rdmacm05: how far `strcpy` goes

The servers copy `recv_buff` as a string, whatever the message in it is. The
loop of `strcpy` ends at the first NUL it meets: one of the message, one that an
earlier message or the block's last owner has left behind it, or none in the
block at all. `CopyAt` is the copy of a message in any of the three servers, in
any run, with what `recv_buff` held at first and the messages it has taken since.
-/

namespace RdmaTutorial

open CString Verbs

variable {ρ σ α : Type} {P : Peer ρ σ α}

/-- `strcpy(nc->send_buff, nc->recv_buff)` reads bytes of `recv_buff` and writes
bytes of `send_buff` only, whatever lies behind `recv_buff`. -/
structure Connection.CopyInside (c : Connection) : Prop where
  reads : ∀ mem, c.recvBuff.Within mem → ∀ i, Accessed mem (.read i) → i < bufferSize
  writes : ∀ mem, c.recvBuff.Within mem → ∀ i, Accessed mem (.write i) → i < bufferSize

theorem Connection.copyInside_iff_inside (c : Connection) : c.CopyInside ↔ c.recvBuff.Inside := by
  constructor
  · intro h mem hmem x hx
    cases x with
    | read i => exact h.reads mem hmem i hx
    | write i => exact h.writes mem hmem i hx
  · intro h
    exact ⟨fun mem hmem i hi => h mem hmem _ hi, fun mem hmem i hi => h mem hmem _ hi⟩

/-- In the model of the servers the copy fails exactly when it leaves the buffers. -/
theorem Connection.echo_isSome_iff (c : Connection) : c.echo.isSome ↔ c.CopyInside := by
  rw [c.copyInside_iff_inside, ← Buffer.strcpy_isSome_iff c.sendBuff, Connection.echo,
    Option.isSome_map]

/-! ## What arrives in `recv_buff` -/

namespace Echo

/-- The message a move brings to the server. -/
def arrived (P : Peer ρ σ α) (s : State σ) : Move α → List Payload
  | .toServer _ => (P.offer s.peer).toList
  | _ => []

/-- Nothing but a message changes `recv_buff`. -/
theorem recvBuff_step {s t : State σ} {b : Move α} (h : Step P s b t) :
    t.conn.recvBuff = s.conn.recvBuff.writeAll (arrived P s b) := by
  cases h with
  | toServer hoffer hready => simp [arrived, hoffer, Connection.receive]
  | _ => rfl

end Echo

namespace EchoLoop

/-- The message a step brings to the server. -/
def arrived (P : Peer ρ σ α) (s : State σ) : Action α → List Payload
  | .toServer _ => (P.offer s.peer).toList
  | _ => []

theorem arrived_label {s : State σ} {a : Action α} {b : Echo.Move α} (h : label s a = some b) :
    Echo.arrived P (view s) b = arrived P s a := by
  cases a with
  | exec r =>
    simp only [label] at h
    split at h <;> cases h <;> rfl
  | _ => cases h; rfl

theorem recvBuff_step {v : Variant} {s t : State σ} {a : Action α} (h : step v P s a = some t) :
    t.conn.recvBuff = s.conn.recvBuff.writeAll (arrived P s a) := by
  rcases step_view h with hsame | ⟨b, hb, hmove⟩
  · cases a with
    | toServer opcode =>
      simp only [step] at h
      split at h
      · obtain ⟨p, hp, h⟩ := Option.bind_eq_some_iff.mp h
        split at h
        · cases h
          simp [arrived, hp, Connection.receive]
        · cases h
      · cases h
    | _ => exact congrArg (·.conn.recvBuff) hsame
  · rw [← arrived_label hb]
    exact Echo.recvBuff_step (.of_step hmove)

/-- What `recv_buff` holds: its first content under the messages since. -/
theorem recvBuff_run {v : Variant} {recvId sendId : Nc} {r b : Block} {x : ρ}
    {as : List (Action α)} {s : State σ}
    (h : Run.run (step v P) (opened P recvId sendId r b x) as = some s) :
    s.conn.recvBuff =
      r.writeAll (Run.noted (step v P) (arrived P) (opened P recvId sendId r b x) as) := by
  have hstep : ∀ s a t ps, s.conn.recvBuff = r.writeAll ps → True → step v P s a = some t →
      t.conn.recvBuff = r.writeAll (ps ++ arrived P s a) := by
    intro s a t ps hs _ ha
    rw [recvBuff_step ha, hs, Buffer.writeAll_append]
  simpa using Run.run_noted hstep [] (fun _ _ => trivial) h rfl

/-- A thread of rdmacm04 is a run of the loop, whatever the others do. -/
theorem worker_run {as : List (WorkerAction ρ α)} {w : Workers σ}
    (h : Run.run (workerStep P) (fun _ => none) as = some w) {nc : Nc} {s : State σ}
    (hw : w nc = some s) : ∃ recvId sendId r b x bs,
      Run.run (step rdmacm04 P) (opened P recvId sendId r b x) bs = some s := by
  refine Run.run_invariant (I := fun w => ∀ nc s, w nc = some s → ∃ recvId sendId r b x bs,
    Run.run (step rdmacm04 P) (opened P recvId sendId r b x) bs = some s) ?_ h
    (fun nc s hs => by cases hs) nc s hw
  intro w a u hall hstep c t ht
  cases a with
  | start nc recvId sendId r b x =>
    simp only [workerStep] at hstep
    split at hstep
    · cases hstep
      by_cases hc : c = nc
      · subst hc
        simp only [Function.update_self, Option.some.injEq] at ht
        exact ⟨recvId, sendId, r, b, x, [], by rw [Run.run_nil, ht]⟩
      · exact hall c t (by simpa [hc] using ht)
    · cases hstep
  | finish nc =>
    simp only [workerStep] at hstep
    split at hstep
    · split at hstep
      · cases hstep
        by_cases hc : c = nc
        · subst hc
          simp at ht
        · exact hall c t (by simpa [hc] using ht)
      · cases hstep
    · cases hstep
  | thread nc a =>
    simp only [workerStep, Option.bind_eq_some_iff, Option.map_eq_some_iff] at hstep
    obtain ⟨s, hs, t', hmove, rfl⟩ := hstep
    by_cases hc : c = nc
    · subst hc
      simp only [Function.update_self, Option.some.injEq] at ht
      obtain ⟨recvId, sendId, r, b, x, bs, hrun⟩ := hall c s hs
      refine ⟨recvId, sendId, r, b, x, bs ++ [a], Run.run_append hrun ?_⟩
      simp [Run.run, hmove, ht]
    · exact hall c t (by simpa [hc] using ht)

end EchoLoop

namespace Rdmacm05

/-- The message a step brings to connection `c`. -/
def arrived (P : Peer ρ σ α) (c : Nc) (s : State σ) : Action ρ α → List Payload
  | .toServer nc _ => if nc = c then ((s.links c).bind fun l => P.offer l.peer).toList else []
  | _ => []

theorem label_of_moveOf {c : Nc} {s : State σ} {a : Action ρ α} {b : Echo.Move α}
    (h : moveOf P c s a = some b) : label s a = some (c, b) := by
  unfold moveOf at h
  split at h
  · rename_i c' b' hlabel
    split at h
    · rename_i hmove
      obtain rfl := hmove.1
      cases h
      exact hlabel
    · cases h
  · cases h

/-- A step that brings no message leaves the `recv_buff` of an open connection
alone. -/
theorem recvBuff_of_not_toServer {s t : State σ} (hs : Tagged s) {a : Action ρ α}
    (h : step P s a = some t) {c : Nc} (hc : ¬Closes c a)
    (ha : ∀ nc opcode, a ≠ .toServer nc opcode) {l : Link σ} (hl : s.links c = some l) :
    ∃ l', t.links c = some l' ∧ l'.conn.recvBuff = l.conn.recvBuff := by
  obtain ⟨f, hf, hrun⟩ := moveOf_step hs h hc (view_of_links hl)
  obtain ⟨l', hl', rfl⟩ := Option.map_eq_some_iff.mp hf
  refine ⟨l', hl', ?_⟩
  cases hm : moveOf P c s a with
  | none =>
    rw [hm] at hrun
    exact (congrArg (·.conn.recvBuff) (Option.some.inj hrun)).symm
  | some b =>
    rw [hm] at hrun
    obtain ⟨e, hmove, he⟩ := Run.run_cons hrun
    obtain rfl := Option.some.inj he
    have hlabel := label_of_moveOf hm
    have hnone : Echo.arrived P ⟨s.thread.stage c, l.conn, l.peer⟩ b = [] := by
      cases b with
      | toServer opcode => exact absurd (label_toServer hlabel) (ha c opcode)
      | _ => rfl
    have hbuff := Echo.recvBuff_step (.of_step hmove)
    rw [hnone] at hbuff
    exact hbuff

theorem recvBuff_step {s t : State σ} (hs : Tagged s) {a : Action ρ α}
    (h : step P s a = some t) {c : Nc} (hc : ¬Closes c a) {l : Link σ} (hl : s.links c = some l) :
    ∃ l', t.links c = some l' ∧ l'.conn.recvBuff = l.conn.recvBuff.writeAll (arrived P c s a) := by
  cases a with
  | toServer nc opcode =>
    cases Step.of_step h with
    | @toServer _ k _ p hk hoffer hready =>
      by_cases hcc : nc = c
      · subst hcc
        obtain rfl : k = l := Option.some.inj (hk.symm.trans hl)
        refine ⟨_, Function.update_self .., ?_⟩
        simp [arrived, hl, hoffer, Connection.receive]
      · exact ⟨l, by simp [State.setLink, Ne.symm hcc, hl], by simp [arrived, hcc]⟩
  | _ => exact recvBuff_of_not_toServer hs h hc (by simp) hl

/-- What the `recv_buff` of an open connection holds: the content of its block
under the messages since. -/
theorem recvBuff_run {heap : Nat → Block} {before after : List (Action ρ α)} {s t : State σ}
    (hbefore : Run.run (step P) (State.initial heap) before = some s) {c : Nc} {i j : Nat} {x : ρ}
    {r : Block} (hr : s.free i = some r)
    (hafter : Run.run (step P) s (.connect c i j x :: after) = some t)
    (hopen : ∀ a ∈ after, ¬Closes c a) {l : Link σ} (hl : t.links c = some l) :
    l.conn.recvBuff =
      r.writeAll (Run.noted (step P) (arrived P c) s (.connect c i j x :: after)) := by
  have htag := Run.run_invariant (fun s a t => tagged_step) hbefore tagged_initial
  obtain ⟨u, hu, hrun⟩ := Run.run_cons hafter
  have hbuff : ∃ k, u.links c = some k ∧ k.conn.recvBuff = r := by
    cases Step.of_step hu with
    | connect hthread hnew hr' hb hij =>
      obtain rfl := Option.some.inj (hr.symm.trans hr')
      exact ⟨_, Function.update_self .., rfl⟩
  have hstep : ∀ s a t ps,
      (Tagged s ∧ ∃ k, s.links c = some k ∧ k.conn.recvBuff = r.writeAll ps) → ¬Closes c a →
        step P s a = some t →
          Tagged t ∧ ∃ k, t.links c = some k ∧
            k.conn.recvBuff = r.writeAll (ps ++ arrived P c s a) := by
    rintro s a t ps ⟨hs, k, hk, hbuff⟩ ha hstep
    obtain ⟨k', hk', hbuff'⟩ := recvBuff_step hs hstep ha hk
    exact ⟨tagged_step hs hstep, k', hk', by rw [hbuff', hbuff, Buffer.writeAll_append]⟩
  obtain ⟨-, k, hk, hk'⟩ := Run.run_noted hstep [] hopen hrun ⟨tagged_step htag hu, hbuff⟩
  obtain rfl : k = l := Option.some.inj (hk.symm.trans hl)
  simpa [Run.noted, hu, arrived] using hk'

/-- A connection that is open was opened, and has not been closed since. -/
theorem opened_before {heap : Nat → Block} {as : List (Action ρ α)} {t : State σ}
    (h : Run.run (step P) (State.initial heap) as = some t) {c : Nc} {l : Link σ}
    (hl : t.links c = some l) : ∃ before after i j x s r,
      as = before ++ .connect c i j x :: after ∧
        Run.run (step P) (State.initial heap) before = some s ∧ s.free i = some r ∧
        ∀ a ∈ after, ¬Closes c a := by
  induction as using List.reverseRecOn generalizing t l with
  | nil =>
    cases h
    cases hl
  | append_singleton as a ih =>
    obtain ⟨u, hu, hstep⟩ := Run.run_of_append h
    obtain ⟨t, ht, hend⟩ := Run.run_cons hstep
    cases hend
    have htag := Run.run_invariant (fun s a t => tagged_step) hu tagged_initial
    by_cases hopen : ∃ k, u.links c = some k
    · obtain ⟨k, hk⟩ := hopen
      obtain ⟨before, after, i, j, x, s, r, rfl, hs, hr, hafter⟩ := ih hu hk
      refine ⟨before, after ++ [a], i, j, x, s, r, by simp, hs, hr, fun b hb => ?_⟩
      rcases List.mem_append.mp hb with hb | hb
      · exact hafter b hb
      · obtain rfl := List.mem_singleton.mp hb
        cases b with
        | disconnect nc =>
          rintro rfl
          cases Step.of_step ht with
          | disconnect hthread hk' => simp [State.release] at hl
        | _ => exact id
    · -- It is this step that opens it.
      have hnone : u.links c = none :=
        Option.eq_none_iff_forall_ne_some.mpr fun k hk => hopen ⟨k, hk⟩
      cases step_local htag ht with
      | same hlinks => simp [hlinks, hnone] at hl
      | opens nc i j r b x haction hnew hr hb hlinks =>
        by_cases hc : c = nc
        · subst hc
          exact ⟨as, [], i, j, x, u, r, by rw [haction], hu, hr, fun a ha => by cases ha⟩
        · simp [hlinks, hc, hnone] at hl
      | closes nc haction hlinks =>
        by_cases hc : c = nc <;> simp [hlinks, hc, hnone] at hl
      | moves nc b k k' hlabel hk hmove hlinks =>
        by_cases hc : c = nc
        · subst hc
          simp [hk] at hnone
        · simp [hlinks, hc, hnone] at hl

end Rdmacm05

/-! ## The copy stays in the buffers iff a NUL is left in `recv_buff` -/

/-- One of the servers, in some run, stands in front of the copy on connection
`c`, whose `recv_buff` held `r` at first and has taken the messages `ps`. -/
inductive CopyAt (P : Peer ρ σ α) : Connection → Block → List Payload → Prop where
  | polling {v recvId sendId r b x as s i} (hv : v = EchoLoop.rdmacm03 ∨ v = EchoLoop.rdmacm04)
      (h : Run.run (EchoLoop.step v P) (EchoLoop.opened P recvId sendId r b x) as = some s)
      (hrun : s.status = .running) (hpc : s.pc = .copy i) :
      CopyAt P s.conn r (Run.noted (EchoLoop.step v P) (EchoLoop.arrived P)
        (EchoLoop.opened P recvId sendId r b x) as)
  | rdmacm05 {heap before after c i j x s t r l cc wcs}
      (hbefore : Run.run (Rdmacm05.step P) (.initial heap) before = some s)
      (hr : s.free i = some r)
      (hafter : Run.run (Rdmacm05.step P) s (.connect c i j x :: after) = some t)
      (hopen : ∀ a ∈ after, ¬Rdmacm05.Closes c a) (hrun : t.status = .running)
      (hthread : t.thread = .cqEvent cc (.copy c wcs)) (hl : t.links c = some l) :
      CopyAt P l.conn r (Run.noted (Rdmacm05.step P) (Rdmacm05.arrived P c) s
        (.connect c i j x :: after))

/-- Every copy of rdmacm05 is one of these: the completion's connection is open. -/
theorem Rdmacm05.exists_copyAt {heap : Nat → Block} {as : List (Action ρ α)} {t : State σ}
    (h : Run.run (step P) (State.initial heap) as = some t) (hrun : t.status = .running)
    {cc nc : Nc} {wcs : List (Wc Nc)} (hthread : t.thread = .cqEvent cc (.copy nc wcs)) :
    ∃ l r ps, t.links nc = some l ∧ CopyAt P l.conn r ps := by
  have htag := Run.run_invariant (fun s a t => tagged_step) h tagged_initial
  have hok := htag.thread
  rw [hthread] at hok
  obtain ⟨hsome, rfl, -⟩ := hok
  obtain ⟨l, hl⟩ := Option.isSome_iff_exists.mp hsome
  obtain ⟨before, after, i, j, x, s, r, rfl, hs, hr, hopen⟩ := opened_before h hl
  obtain ⟨s', hs', hafter⟩ := Run.run_of_append h
  obtain rfl := Option.some.inj (hs.symm.trans hs')
  exact ⟨l, r, _, hl, .rdmacm05 hs hr hafter hopen hrun hthread hl⟩

theorem CopyAt.recvBuff {c : Connection} {r : Block} {ps : List Payload} (h : CopyAt P c r ps) :
    c.recvBuff = r.writeAll ps := by
  cases h with
  | polling hv h hrun hpc => exact EchoLoop.recvBuff_run h
  | rdmacm05 hbefore hr hafter hopen hrun hthread hl =>
    exact Rdmacm05.recvBuff_run hbefore hr hafter hopen hl

/-- At any copy of any of the three servers: the byte `recv_buff` holds at an
index is that of the last message that reached it, or the first one there. -/
theorem copyInside_iff_latest {c : Connection} {r : Block} {ps : List Payload}
    (h : CopyAt P c r ps) :
    c.CopyInside ↔ ∃ i < bufferSize, r.latest ps i = some 0 := by
  rw [c.copyInside_iff_inside, Buffer.inside_iff, h.recvBuff, Buffer.terminated_writeAll_iff]

/-- One connection of a polling server up to the copy of the first message. -/
def upToCopy (p : Payload) : List (EchoLoop.Action AnyPeer.Action) :=
  .replicate 7 (.exec .ok) ++
    [.peer (.send p), .toServer .recv, .hca .reportRecv, .exec .ok, .exec .ok]

/-- The loop of rdmacm03 on one connection, in blocks of zeros. -/
def firstOpened : EchoLoop.State AnyPeer := EchoLoop.opened AnyPeer.peer 7 7 zeros zeros ()

theorem copyAt_upToCopy {p : Payload}
    (hrun : (Run.run (EchoLoop.step EchoLoop.rdmacm03 AnyPeer.peer) firstOpened
      (upToCopy p)).map (fun s => (s.status, s.pc)) = some (.running, .copy 0))
    (hps : Run.noted (EchoLoop.step EchoLoop.rdmacm03 AnyPeer.peer)
      (EchoLoop.arrived AnyPeer.peer) firstOpened (upToCopy p) = [p]) :
    ∃ c, CopyAt AnyPeer.peer c zeros [p] := by
  obtain ⟨s, hs, heq⟩ := Option.map_eq_some_iff.mp hrun
  obtain ⟨hstatus, hpc⟩ := Prod.mk.inj heq
  rw [← hps]
  exact ⟨s.conn, .polling (.inl rfl) hs hstatus hpc⟩

theorem copyInside_iff_latest_hi : ∃ c, CopyAt AnyPeer.peer c zeros [[104, 105, 0]] ∧
    c.CopyInside := by
  obtain ⟨c, hc⟩ := copyAt_upToCopy (p := [104, 105, 0]) (by decide +kernel) (by decide +kernel)
  exact ⟨c, hc, (copyInside_iff_latest hc).mpr ⟨2, by decide, by decide⟩⟩

/-- A message that fills `recv_buff` and holds no NUL. -/
def unterminated : Payload := .replicate bufferSize 1

theorem copy_leaves_buffers : ¬∀ (c : Connection) (r : Block) (ps : List Payload),
    CopyAt AnyPeer.peer c r ps → (∀ p ∈ ps, p.length ≤ bufferSize) → c.CopyInside := by
  intro hall
  obtain ⟨c, hc⟩ := copyAt_upToCopy (p := unterminated) (by decide +kernel) (by decide +kernel)
  have hinside := hall c zeros _ hc (by simp [unterminated])
  rw [c.copyInside_iff_inside, Buffer.inside_iff, hc.recvBuff,
    Buffer.terminated_writeAll_iff] at hinside
  obtain ⟨i, hi, h0⟩ := hinside
  simp [Buffer.latest, unterminated, hi] at h0

end RdmaTutorial
