import RdmaTutorial.Establish.Run
import RdmaTutorial.Lib.Termination

/-!
# The server and one client, where nothing fails

Every run is short, and the only states in which nothing can go on are those
where both processes have returned: neither waits for ever for an event.
-/

namespace RdmaTutorial.Establish

open Objects Program

/-! ## How long it takes -/

/-- What the client's end has still to go through. -/
def Active.left : Active → Nat
  | idle => 7
  | resolvingAddr => 6
  | addrFailed => 5
  | bound => 5
  | resolvingRoute => 4
  | routeFailed => 3
  | routed => 3
  | connecting => 2
  | connectFailed => 1
  | connected => 1
  | closed => 0

def Passive.left : Passive → Nat
  | none => 4
  | requested => 3
  | accepted => 2
  | established => 1
  | closed => 0

/-- The moves the network can still make for a connection. -/
def Conn.left (x : Conn) : Nat := x.active.left + x.passive.left

theorem Conn.ClientCall.left {x y : Conn} (h : x.ClientCall y) : y.left ≤ x.left := by
  cases h with
  | same => exact Nat.le_refl _
  | resolveAddr hx | resolveRoute hx | connect hx | hangUp hx =>
    simp [Conn.left, hx, Active.left]

theorem Conn.ServerCall.left {x y : Conn} (h : x.ServerCall y) : y.left ≤ x.left := by
  cases h with
  | same => exact Nat.le_refl _
  | accept hx => simp [Conn.left, hx, Passive.left]
  | hangUp hx => rcases hx with hx | hx <;> simp [Conn.left, hx, Passive.left]

theorem Conn.Wired.left {x y : Conn} {w : Wire} (h : x.Wired w y) : y.left < x.left := by
  cases h with
  | addr hx ok | route hx ok => cases ok <;> simp [Conn.left, hx, Active.left]
  | reply _ hx | refuse hx | hangUpClient _ hx => simp [Conn.left, hx, Active.left]
  | request _ hx | confirm _ hx | abort hx => simp [Conn.left, hx, Passive.left]
  | hangUpServer _ hx => rcases hx with hx | hx <;> simp [Conn.left, hx, Passive.left]

section Within

variable {α β : Type} {n : Nat} {x : String} {f : β → Prog α}

theorem within_exit {e : String} : (.exit e : Prog α).Within n := by cases n <;> trivial

theorem within_ret {a : α} : (.ret a : Prog α).Within n := by cases n <;> trivial

theorem within_call {c : Call} {f : c.Answer → Prog α} (hf : ∀ r, (f r).Within n) :
    (call c >>= f).Within (n + 1) := hf

theorem within_nonNull {o : Option β} (hf : ∀ a, (f a).Within n) :
    (nonNull x o >>= f).Within n := by
  cases o with
  | none => exact within_exit
  | some a => exact hf a

theorem within_stored {o : Option β} (hf : ∀ a, (f a).Within n) :
    (stored x o >>= f).Within n := by
  cases o with
  | none => exact within_exit
  | some a => exact hf a

theorem within_zero {r : Result} {f : Unit → Prog α} (hf : (f ()).Within n) :
    (zero x r >>= f).Within n := by
  cases r with
  | ok => exact hf
  | fail => exact within_exit

theorem within_logs {f : Unit → Prog α} (texts : List String) (hf : (f ()).Within n) :
    (texts.forM log >>= f).Within (texts.length + n) := by
  induction texts with
  | nil => simpa using hf
  | cons text texts ih =>
    rw [List.length_cons, Nat.add_right_comm]
    exact fun _ => ih

theorem within_expect {ec : Nat} {exp : CmEventType} {before after : List String} :
    (expect ec exp before after).Within (before.length + after.length + 2) := by
  refine within_call fun event => within_stored fun event => ?_
  unfold checkCmEvent
  split
  · have hafter : (after.forM log >>= fun _ => (return event.id : Prog Id)).Within
        (after.length + 0) := within_logs after within_ret
    have hack : (call (.ackCmEvent event.addr) >>= fun _ => after.forM log >>= fun _ =>
        (return event.id : Prog Id)).Within (after.length + 0 + 1) := within_call fun _ => hafter
    exact (within_logs (f := fun _ => _) before hack).mono (by omega)
  · exact (within_call (n := 0) fun _ => within_exit).mono (by omega)

theorem within_setupConnection {d : Directory} {id : Id} : (setupConnection d id).Within 11 := by
  unfold setupConnection
  refine within_call fun _ => within_nonNull fun _ => ?_
  refine within_call fun _ => within_nonNull fun _ => ?_
  refine within_call fun _ => within_nonNull fun _ => ?_
  refine within_call fun _ => within_nonNull fun _ => ?_
  refine within_call fun _ => within_zero ?_
  refine within_call fun _ => within_stored fun _ => ?_
  refine within_call fun _ => within_nonNull fun _ => ?_
  refine within_call fun _ => within_nonNull fun _ => ?_
  refine within_call fun _ => within_nonNull fun _ => ?_
  refine within_call fun _ => within_nonNull fun _ => ?_
  exact within_call fun _ => within_zero within_ret

theorem within_runLoop {id : Id} {nc : Nc} : (runLoop id nc).Within 1 := by
  refine within_call fun r => ?_
  cases r with
  | none => exact within_ret
  | some reason => exact within_exit

theorem within_serverMain {d : Directory} : (serverMain d).Within 32 := by
  unfold serverMain
  refine within_call fun _ => within_call fun _ => within_nonNull fun ec => ?_
  refine within_call fun _ => within_stored fun listener => ?_
  refine within_call fun _ => within_stored fun ai => within_call fun _ => within_zero ?_
  refine within_call fun _ => within_call fun _ => within_zero ?_
  refine within_call fun _ => ?_
  refine (within_expect.bind (n := 21) fun clientId => ?_).mono (by decide)
  refine (within_setupConnection.bind (n := 10) fun nc => ?_).mono (by decide)
  refine within_call fun _ => within_zero ?_
  refine (within_expect.bind (n := 5) fun _ => ?_).mono (by decide)
  split
  · refine (within_runLoop.bind (n := 4) fun _ => ?_).mono (by decide)
    exact within_call fun _ => within_call fun _ => within_call fun _ =>
      within_call fun _ => within_ret
  · exact within_call fun _ => within_call fun _ => within_call fun _ =>
      within_call fun _ => within_ret

theorem within_clientMain {d : Directory} {ip : String} : (clientMain d ip).Within 33 := by
  unfold clientMain
  refine within_call fun _ => within_nonNull fun ec => ?_
  refine within_call fun _ => within_stored fun conn => within_call fun _ => ?_
  refine within_call fun _ => within_stored fun ai => within_call fun _ => within_zero ?_
  refine within_call fun _ => ?_
  refine (within_expect.bind (n := 24) fun _ => ?_).mono (by decide)
  refine within_call fun _ => within_zero ?_
  refine (within_expect.bind (n := 20) fun _ => ?_).mono (by decide)
  refine (within_setupConnection.bind (n := 9) fun nc => ?_).mono (by decide)
  refine within_call fun _ => within_call fun _ => within_zero ?_
  refine (within_expect.bind (n := 4) fun _ => ?_).mono (by decide)
  split
  · refine (within_runLoop.bind (n := 3) fun _ => ?_).mono (by decide)
    exact within_call fun _ => within_call fun _ => within_call fun _ => within_ret
  · exact within_call fun _ => within_call fun _ => within_call fun _ => within_ret

end Within

variable {heap : Option Nat → Bool} {d : Single} {clients : Nat → Directory × String} {n : Nat}
  {s t : System}

/-- The most calls that a process makes. -/
def Party.calls (p : Party) : Nat := if p = .server then 32 else 33

/-- The calls of the two processes, and the moves of the network. -/
theorem length_le {as : List (Move Party Call Call.Answer Happening)}
    (hr : Run.run (System.step heap (some n)) (start d clients) as = some t) :
    as.length ≤ 76 := by
  have hle := Parallel.length_le (S := {.server, .client n}) (f := fun s => (s.conns n).left)
    (b := Party.calls) ?_ ?_ ?_ hr
  · have hsum : ∑ p ∈ {Party.server, Party.client n}, p.calls = 65 := by simp [Party.calls]
    have hleft : ((start d clients).world.conns n).left = 11 := rfl
    omega
  · intro p s c r u hu
    have he := Net.Effect.of_effect hu
    refine ⟨by simpa using (he.admits n rfl).2, ?_⟩
    rcases he.conn n with ⟨-, hx⟩ | ⟨-, hx⟩ | hx
    · exact hx.left
    · exact hx.left
    · exact Nat.le_of_eq (congrArg Conn.left hx)
  · intro s x u hu
    cases Net.Happens.of_happen hu with
    | wire k w _ hm hx =>
      obtain ⟨rfl, -⟩ := hm n rfl
      exact hx.left
    | other _ _ _ hm => cases hm
  · rintro (_ | k)
    · exact within_serverMain
    · exact within_clientMain

/-! ## What can be answered -/

/-- A call that is no business of the network can succeed. -/
theorem quiet_answer {c : Call} (hquiet : c.quiet = true) (hheap : ∃ x, heap x = true)
    (objs : List (Object Held)) :
    ∃ r t, c.succeeds r = true ∧ liveAfter heap objs c r = some t := by
  cases c with
  | listen | resolveAddr | resolveRoute | getCmEvent | accept | connect | loop | disconnect
    | destroyId => cases hquiet
  | log text => exact ⟨(), _, rfl, rfl⟩
  | freeaddrinfo ai => exact ⟨(), _, rfl, rfl⟩
  | bindAddr id ai => exact ⟨Result.ok, _, rfl, rfl⟩
  | ackCmEvent e => exact ⟨(), _, rfl, rfl⟩
  | reqNotifyCq cq => exact ⟨Result.ok, _, rfl, rfl⟩
  | postRecv qp wr => exact ⟨Result.ok, _, rfl, rfl⟩
  | destroyEventChannel ec => exact ⟨(), _, rfl, rfl⟩
  | createEventChannel =>
    obtain ⟨a, t, ht⟩ := exists_add objs (f := .channel) (fun _ _ => Held.channel.inj) []
    exact ⟨some a, t, rfl, ht⟩
  | createId ec =>
    obtain ⟨a, t, ht⟩ := exists_add objs (f := .id) (fun _ _ => Held.id.inj) [.channel ec]
    exact ⟨some a, t, rfl, ht⟩
  | getaddrinfo node =>
    obtain ⟨a, t, ht⟩ := exists_add objs (f := .addrinfo) (fun _ _ => Held.addrinfo.inj) []
    exact ⟨some a, t, rfl, ht⟩
  | mallocConnection =>
    obtain ⟨x, hx⟩ := hheap
    obtain ⟨a, t, ht⟩ := exists_add objs (f := .conn) (fun _ _ => Held.conn.inj) []
    exact ⟨some ⟨a, x⟩, t, rfl, (if_pos hx).trans ht⟩
  | allocPd id =>
    obtain ⟨a, t, ht⟩ := exists_add objs (f := fun a => .verbs (.pd a)) (fun _ _ => by simp) []
    exact ⟨some a, t, rfl, ht⟩
  | createCompChannel id =>
    obtain ⟨a, t, ht⟩ := exists_add objs (f := fun a => .verbs (.cc a)) (fun _ _ => by simp) []
    exact ⟨some a, t, rfl, ht⟩
  | createCq id cqe cc =>
    obtain ⟨a, t, ht⟩ := exists_add objs (f := fun a => .verbs (.cq a)) (fun _ _ => by simp) _
    exact ⟨some a, t, rfl, ht⟩
  | createQp id pd cq maxSend maxRecv =>
    obtain ⟨a, t, ht⟩ := exists_add objs (f := fun a => .verbs (.qp a)) (fun _ _ => by simp) _
    exact ⟨some a, t, rfl, ht⟩
  | malloc size =>
    obtain ⟨a, t, ht⟩ := exists_add objs (f := fun a => .verbs (.buff a)) (fun _ _ => by simp) []
    exact ⟨some a, t, rfl, ht⟩
  | regMr pd buff size =>
    obtain ⟨a, t, ht⟩ := exists_add objs (f := fun a => .verbs (.mr a)) (fun _ _ => by simp) _
    exact ⟨some a, t, rfl, ht⟩

theorem effect_isSome {m : Mode} {p : Party} {w : Net} {c : Call} {r : c.Answer}
    {objs : List (Object Held)} {queue : List (CmEventType × Id)} {conns : Nat → Conn}
    (hm : m.Admits p c r) (hlive : liveAfter heap (w.proc p).live c r = some objs)
    (hqueue : queueAfter (w.proc p).queue c r = some queue)
    (hconns : w.connAfter p c r = some conns) : ∃ u, Net.effect heap m p w c r = some u := by
  unfold Net.effect
  rw [if_pos hm, hlive, hqueue, hconns]
  exact ⟨_, rfl⟩

/-- The first event can be fetched. -/
theorem fetch_answer {p : Party} (hp : p = .server ∨ p = .client n) {w : Net} {ec : Nat}
    {e : CmEventType} {id : Id} {rest : List (CmEventType × Id)}
    (hqueue : (w.proc p).queue = (e, id) :: rest)
    (hid : e = .connectRequest → ¬IsLive (w.proc p).live (.id id)) :
    ∃ r u, Net.effect heap (some n) p w (.getCmEvent ec) r = some u := by
  obtain ⟨mid, hmid⟩ : ∃ mid, (if e = .connectRequest then
      add (w.proc p).live (.id id) [.channel ec] else some (w.proc p).live) = some mid := by
    split
    · rename_i he
      exact ⟨_, if_neg (hid he)⟩
    · exact ⟨_, rfl⟩
  obtain ⟨a, objs, ha⟩ := exists_add mid (f := .event) (fun _ _ => Held.event.inj)
    [.channel ec, .id id]
  have hconns : ∃ conns, w.connAfter p (.getCmEvent ec) (some (⟨a, e, id⟩ : Fetched)) =
      some conns := by
    cases p <;> exact ⟨_, rfl⟩
  obtain ⟨conns, hconns⟩ := hconns
  have hlive : liveAfter heap (w.proc p).live (.getCmEvent ec) (some (⟨a, e, id⟩ : Fetched)) =
      some objs := by
    simp only [liveAfter, hmid, Option.bind_some]
    exact ha
  have hrest : queueAfter (w.proc p).queue (.getCmEvent ec) (some (⟨a, e, id⟩ : Fetched)) =
      some rest := by
    simp [queueAfter, hqueue]
  refine ⟨_, effect_isSome ?_ hlive hrest hconns⟩
  rintro k ⟨⟩
  exact ⟨rfl, hp⟩

/-- Wherever a call is allowed, it can succeed, unless it waits for an event. -/
theorem call_answer {p : Party} (hp : p = .server ∨ p = .client n) {w : Net} {c : Call}
    (hheap : ∃ x, heap x = true) (hready : w.Ready (some n) p c) (hne : ∀ ec, c ≠ .getCmEvent ec) :
    ∃ r u, Net.effect heap (some n) p w c r = some u := by
  have hadmits : ∀ {r : c.Answer}, c.succeeds r = true → Mode.Admits (some n) p c r := by
    rintro r hr k ⟨⟩
    exact ⟨hr, hp⟩
  by_cases hquiet : c.quiet = true
  · obtain ⟨r, objs, hr, hlive⟩ := quiet_answer hquiet hheap (w.proc p).live
    obtain ⟨conns, hconns⟩ : ∃ conns, w.connAfter p c r = some conns := by
      cases p with
      | server => simp [Net.connAfter, Call.serverId_quiet hquiet]
      | client k => simp [Net.connAfter, Conn.clientCall_quiet hquiet]
    exact ⟨r, effect_isSome (hadmits hr) hlive (queueAfter_quiet hquiet) hconns⟩
  · suffices h : ∃ r, c.succeeds r = true ∧
        (∃ objs, liveAfter heap (w.proc p).live c r = some objs) ∧
          (∃ queue, queueAfter (w.proc p).queue c r = some queue) ∧
            ∃ conns, w.connAfter p c r = some conns by
      obtain ⟨r, hr, ⟨_, hlive⟩, ⟨_, hqueue⟩, _, hconns⟩ := h
      exact ⟨r, effect_isSome (hadmits hr) hlive hqueue hconns⟩
    cases c with
    | getCmEvent ec => exact absurd rfl (hne ec)
    | listen id backlog =>
      refine ⟨Result.ok, rfl, ⟨_, rfl⟩, ⟨_, rfl⟩, ?_⟩
      cases p <;> exact ⟨_, rfl⟩
    | resolveAddr id ai timeout =>
      refine ⟨Result.ok, rfl, ⟨_, rfl⟩, ⟨_, rfl⟩, ?_⟩
      cases p with
      | server => exact ⟨_, rfl⟩
      | client k =>
        have hidle : (w.conns k).active = .idle := hready
        simp [Net.connAfter, Conn.clientCall, hidle]
    | resolveRoute id timeout =>
      refine ⟨Result.ok, rfl, ⟨_, rfl⟩, ⟨_, rfl⟩, ?_⟩
      cases p with
      | server => exact ⟨_, rfl⟩
      | client k =>
        have hbound : (w.conns k).active = .bound := hready
        simp [Net.connAfter, Conn.clientCall, hbound]
    | connect id param =>
      refine ⟨Result.ok, rfl, ⟨_, rfl⟩, ⟨_, rfl⟩, ?_⟩
      cases p with
      | server => exact ⟨_, rfl⟩
      | client k =>
        have hrouted : (w.conns k).active = .routed := hready
        simp [Net.connAfter, Conn.clientCall, hrouted]
    | accept id param =>
      refine ⟨Result.ok, rfl, ⟨_, rfl⟩, ⟨_, rfl⟩, ?_⟩
      cases p with
      | server =>
        obtain ⟨-, k, hk, hrequested⟩ := hready
        simp [Net.connAfter, Call.serverId, hk, Conn.serverCall, hrequested]
      | client k => exact ⟨_, rfl⟩
    | loop id nc =>
      refine ⟨(none : Option String), rfl, ⟨_, rfl⟩, ⟨_, rfl⟩, ?_⟩
      cases p <;> exact ⟨_, rfl⟩
    | disconnect id =>
      refine ⟨Result.ok, rfl, ⟨_, rfl⟩, ⟨_, rfl⟩, ?_⟩
      cases p with
      | server =>
        simp only [Net.connAfter]
        split <;> exact ⟨_, rfl⟩
      | client k => exact ⟨_, rfl⟩
    | destroyId id =>
      refine ⟨Result.ok, rfl, ⟨_, rfl⟩, ⟨_, rfl⟩, ?_⟩
      cases p with
      | server =>
        simp only [Net.connAfter]
        split <;> exact ⟨_, rfl⟩
      | client k => exact ⟨_, rfl⟩
    | log | createEventChannel | createId | getaddrinfo | freeaddrinfo | bindAddr | ackCmEvent
      | mallocConnection | allocPd | createCompChannel | createCq | reqNotifyCq | createQp | malloc
      | regMr | postRecv | destroyEventChannel => exact absurd rfl hquiet

/-! ## Where nothing can go on -/

/-- No process and no message can move. -/
abbrev System.Stuck (heap : Option Nat → Bool) (m : Mode) (s : System) : Prop :=
  Run.Stuck (System.step heap m) (fun _ _ => True) s

theorem System.Stuck.effect {m : Mode} (h : System.Stuck heap m t) {p : Party} {c : Call}
    {k : c.Answer → Prog Unit} (hp : t.rest p = .call c k) (r : c.Answer) :
    Net.effect heap m p t.world c r = none := by
  have hnone := h (.call p c r) trivial
  have hanswer : (t.rest p).answer c r = some (k r) := answer_eq_some.mpr ⟨k, hp, rfl⟩
  simpa [System.step, Parallel.step, hanswer, network] using hnone

theorem System.Stuck.wire (h : System.Stuck heap (some n) t) {w : Wire}
    (hadm : t.world.Admitted w) (hw : w.orderly (t.world.conns n) = true) :
    (t.world.conns n).wire w = none := by
  have hm : Mode.AdmitsWire (some n) n (t.world.conns n) w := by
    rintro k ⟨⟩
    exact ⟨rfl, hw⟩
  have hnone := h (.env (.wire n w)) trivial
  simpa [System.step, Parallel.step, network, Net.happen, hadm, hm] using hnone

/-- An event that comes first can be fetched: a request brings a new id. -/
theorem Net.Ready.fetches {p : Party} {w : Net} {ec : Nat} {e : CmEventType} {id : Id}
    {rest : List (CmEventType × Id)} (h : w.Ready (some n) p (.getCmEvent ec))
    (hp : p = .server ∨ p = .client n) (hqueue : (w.proc p).queue = (e, id) :: rest)
    (he : e = .connectRequest) : ¬IsLive (w.proc p).live (.id id) := by
  subst he
  rcases hp with rfl | rfl
  · rcases h n rfl with ⟨-, -, hnew⟩ | haccepted
    · exact hnew id (by rw [show w.server.queue = _ from hqueue]; exact List.mem_cons_self ..)
    · rcases haccepted with ⟨-, hempty⟩ | ⟨id', rest', hfull⟩
      · cases hempty.symm.trans hqueue
      · cases hfull.symm.trans hqueue
  · obtain ⟨a, -, ⟨-, hempty⟩ | ⟨e, he, id', rest', hfull, -⟩⟩ := h rfl
    · cases hempty.symm.trans hqueue
    · cases hfull.symm.trans hqueue
      cases a <;> cases he

/-- A process has returned, or waits for an event and there is none. -/
theorem System.Stuck.waits (h : System.Stuck heap (some n) t)
    (hkeeps : System.Keeps heap (some n) t) (hheap : ∃ x, heap x = true) {p : Party}
    (hp : p = .server ∨ p = .client n) :
    (t.rest p).outcome = some (.ok ()) ∨ ∃ ec, t.world.Ready (some n) p (.getCmEvent ec) ∧
      (t.world.proc p).queue = [] := by
  cases hrest : t.rest p with
  | ret a => exact .inl rfl
  | exit e =>
    have hleaves := hkeeps.outcome (i := p) (o := .error e) (by rw [hrest]; rfl)
    cases (hleaves : some n = none)
  | call c k =>
    have hallowed := hkeeps.allowed (i := p) (by rw [hrest]; rfl)
    have hready : t.world.Ready (some n) p c := hallowed.2
    by_cases hc : ∃ ec, c = .getCmEvent ec
    · obtain ⟨ec, rfl⟩ := hc
      cases hqueue : (t.world.proc p).queue with
      | nil => exact .inr ⟨ec, hready, rfl⟩
      | cons first rest =>
        obtain ⟨e, id⟩ := first
        have hid : e = .connectRequest → ¬IsLive (t.world.proc p).live (.id id) :=
          hready.fetches hp hqueue
        obtain ⟨r, u, hu⟩ : ∃ r u, Net.effect heap (some n) p t.world (.getCmEvent ec) r = some u :=
          fetch_answer hp hqueue hid
        simp [h.effect hrest r] at hu
    · obtain ⟨r, u, hu⟩ := call_answer hp hheap hready fun ec hec => hc ⟨ec, hec⟩
      simp [h.effect hrest r] at hu

/-- A client that waits has left its end where something has still to come. -/
theorem Net.Ready.client {w : Net} {ec : Nat} (h : w.Ready (some n) (.client n) (.getCmEvent ec))
    (hempty : (w.clients n).queue = []) : (w.conns n).active.awaits ≠ none := by
  obtain ⟨a, ha, ⟨hactive, -⟩ | ⟨e, -, id, rest, hfull, -⟩⟩ := h rfl
  · rwa [hactive]
  · simp [hempty] at hfull

/-- What the end waits for is not a step of its own resolution. -/
theorem System.Stuck.active (h : System.Stuck heap (some n) t)
    (hwaits : (t.world.conns n).active.awaits ≠ none) : (t.world.conns n).active = .connecting := by
  cases hactive : (t.world.conns n).active with
  | connecting => rfl
  | resolvingAddr =>
    have hnone := h.wire (w := .addr true) trivial rfl
    simp [Conn.wire, hactive] at hnone
  | resolvingRoute =>
    have hnone := h.wire (w := .route true) trivial rfl
    simp [Conn.wire, hactive] at hnone
  | idle | addrFailed | bound | routeFailed | routed | connectFailed | connected | closed =>
    simp [hactive, Active.awaits] at hwaits

/-- No REQ, REP or RTU is on the wire. -/
theorem System.Stuck.wires (h : System.Stuck heap (some n) t)
    (hvalid : Net.Valid (some n) t.world) :
    (t.world.listening ≠ none → (t.world.conns n).passive = .none →
      (t.world.conns n).req = false) ∧
    ((t.world.conns n).active = .connecting → (t.world.conns n).rep = false) ∧
      ((t.world.conns n).passive = .accepted → (t.world.conns n).rtu = false) := by
  refine ⟨fun hlistening hnone => ?_, fun hconnecting => ?_, fun haccepted => ?_⟩
  · by_contra hreq
    obtain ⟨listener, hl⟩ := Option.ne_none_iff_exists'.mp hlistening
    -- The id behind the listener's is new: no other client has a connection.
    have hnew : t.world.peers (listener + 1) = none := by
      by_contra hpeer
      obtain ⟨k, hk⟩ := Option.ne_none_iff_exists'.mp hpeer
      have hsome := ((hvalid.peers _ k).mp hk).2
      by_cases hkn : k = n
      · exact hsome (hkn ▸ hnone)
      · exact hsome (hvalid.alone n rfl k hkn)
    have hstuck := h.wire (w := .request (listener + 1)) ⟨hlistening, by simp [hl], hnew⟩ rfl
    simp [Conn.wire, hnone, hreq] at hstuck
  · by_contra hrep
    have hstuck := h.wire (w := .reply) trivial rfl
    simp [Conn.wire, hconnecting, hrep] at hstuck
  · by_contra hrtu
    have hstuck := h.wire (w := .confirm) trivial rfl
    simp [Conn.wire, haccepted, hrtu] at hstuck

/-- The server does not wait for ever. -/
theorem System.Stuck.server (h : System.Stuck heap (some n) t)
    (hkeeps : System.Keeps heap (some n) t) (hheap : ∃ x, heap x = true) :
    (t.rest .server).outcome = some (.ok ()) := by
  have hvalid : Net.Valid (some n) t.world := hkeeps.inv
  have hok := hvalid.ok n
  obtain ⟨hreq, hrep, hrtu⟩ := h.wires hvalid
  refine (h.waits hkeeps hheap (.inl rfl)).resolve_right ?_
  rintro ⟨ec, hready, hempty⟩
  rcases hready n rfl with ⟨hlistening, hfresh, -⟩ | haccepted
  · -- No request has come, so the client is still to send it, or it is on its way.
    have hnone : (t.world.conns n).passive = .none := by
      rcases hfresh with ⟨hnone, -⟩ | ⟨-, id, hfull, -⟩
      · exact hnone
      · cases hempty.symm.trans hfull
    rcases h.waits hkeeps hheap (.inr rfl) with hdone | ⟨ec', hready', hempty'⟩
    · have hup : (t.world.conns n).active.up = true := (hkeeps.outcome hdone : ClientDone n _).1
      have hanswered := hok.up hup
      simp [hnone, Passive.answered] at hanswered
    · have hconnecting := h.active (hready'.client hempty')
      rcases hok.connecting hconnecting with ⟨-, hr⟩ | hr | hr
      · simp [hreq hlistening hnone] at hr
      · simp [hnone] at hr
      · simp [hrep hconnecting] at hr
  · -- The REP or the RTU is on its way.
    have hpassive : (t.world.conns n).passive = .accepted := by
      rcases haccepted with ⟨haccepted, -⟩ | ⟨id, rest, hfull⟩
      · exact haccepted
      · cases hempty.symm.trans hfull
    rcases hok.accepted hpassive with hr | hr
    · have hasked := hok.asked (by simp [hpassive])
      have hfine := hvalid.fine n rfl
      have hlow := (hok.rep hr).2
      have hconnecting : (t.world.conns n).active = .connecting := by
        generalize (t.world.conns n).active = x at hasked hfine hlow
        cases x <;> simp_all [Active.asked, Active.failed, Active.up]
      simp [hrep hconnecting] at hr
    · simp [hrtu hpassive] at hr

/-- Nor does the client. -/
theorem System.Stuck.client (h : System.Stuck heap (some n) t)
    (hkeeps : System.Keeps heap (some n) t) (hheap : ∃ x, heap x = true) :
    (t.rest (.client n)).outcome = some (.ok ()) := by
  have hvalid : Net.Valid (some n) t.world := hkeeps.inv
  refine (h.waits hkeeps hheap (.inr rfl)).resolve_right ?_
  rintro ⟨ec, hready, hempty⟩
  have hconnecting := h.active (hready.client hempty)
  obtain ⟨⟨id, k, hk, hup⟩, -⟩ : ServerDone t.world := hkeeps.outcome (h.server hkeeps hheap)
  -- The server has had its connection, and there is only this one.
  have hkn : k = n := by
    by_contra hne
    exact ((hvalid.peers id k).mp hk).2 (hvalid.alone n rfl k hne)
  subst hkn
  simp [hconnecting, Active.up] at hup

end RdmaTutorial.Establish
