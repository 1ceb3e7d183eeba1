import RdmaTutorial.Directories

/-!
# The servers as an echo service

`Echoed` is what an echo service is for its client: it returns the string of
each message, in order, whenever it likes. With a client of the repository at
the other end, every connection of the servers is one: what is under way at the
server (arrived, polled, copied, or posted) is what the service owes
(`Serves`), so a run of server, client and transport is, as the client sees it,
a run of the service.
-/

namespace RdmaTutorial

open CString Verbs

/-- The client's calls succeed, and the completion of a receive is added to its
queue only when its send has been completed and added before. -/
def Echoed.Smooth (s : Echoed) : Echoed.Action → Prop
  | .client (.exec r) => r = .ok
  | .client (.hca .reportRecv) =>
    s.client.conn.ep.sq.length = 0 ∧ s.client.conn.ep.sendDone.length = 0
  | _ => True

namespace Echo

/-- The same on a connection. -/
def Smooth (e : State Client) : Move Client.Action → Prop
  | .peer (.exec r) => r = .ok
  | .peer (.hca .reportRecv) =>
    e.peer.conn.ep.sq.length = 0 ∧ e.peer.conn.ep.sendDone.length = 0
  | _ => True

/-- What the service owes is what is under way at the server: one text of the
client's current iteration for each. -/
structure Serves (e : State Client) (s : Echoed) : Prop where
  client : s.client = e.peer
  owed : s.owed.length = e.unread + e.echoes
  texts : ∀ p ∈ s.owed, cstr p = msgText e.peer.pc.iter

/-- The service takes the step that the move is for its client, if it is one. -/
def Follows (e : State Client) (b : Move Client.Action) (e' : State Client) (s : Echoed) : Prop :=
  Serves e' s ∨ ∃ a t, s.step a = some t ∧ Echoed.Succeeds a ∧
    (Smooth e b → Echoed.Smooth s a) ∧ Serves e' t

variable {e e' : State Client} {s : Echoed}

/-- A move of the server alone is none of the service's. -/
theorem Serves.of_server (h : Serves e s) (hpeer : e'.peer = e.peer)
    (hunder : e'.unread + e'.echoes = e.unread + e.echoes) : Serves e' s :=
  ⟨h.client.trans hpeer.symm, h.owed.trans hunder.symm, hpeer ▸ h.texts⟩

/-- A move of the client alone. -/
theorem Serves.of_client (h : Serves e s) {c : Client}
    (hiter : s.owed = [] ∨ c.pc.iter = e.peer.pc.iter) :
    Serves { e with peer := c } { s with client := c } := by
  refine ⟨rfl, h.owed, fun p hp => ?_⟩
  rcases hiter with hnil | hiter
  · rw [hnil] at hp
    cases hp
  · show cstr p = msgText c.pc.iter
    rw [hiter]
    exact h.texts p hp

/-- While it is the client's turn the service owes it nothing. -/
theorem Serves.owed_of_turn (h : Serves e s) (hs : LockStep e) (hpc : e.peer.pc.holds = 1) :
    s.owed = [] := by
  obtain ⟨hu, he, -⟩ := hs.turn hpc
  exact List.eq_nil_of_length_eq_zero (by rw [h.owed, hu, he])

/-- The loop variable moves on only in the client's turn. -/
theorem iter_of_exec {c : Client} (he : Client.Exec e.peer c) :
    e.peer.pc.holds = 1 ∨ c.pc.iter = e.peer.pc.iter := by
  cases he with
  | spin => exact .inr rfl
  | @pollSend i x q hpc hq =>
    refine .inr ?_
    simp only [Client.pollFor, hq, hpc]
    split
    · rfl
    · split <;> rfl
  | @pollRecv i x q hpc hq =>
    refine .inr ?_
    simp only [Client.pollFor, hq, hpc]
    split
    · rfl
    · split <;> rfl
  | again hpc hi => exact .inl (by rw [hpc]; rfl)
  | finish hpc hi => exact .inl (by rw [hpc]; rfl)
  | breaks hpc => rcases hpc with hpc | hpc <;> exact .inr (by rw [hpc]; rfl)
  | pollDies hpc => rcases hpc with hpc | hpc <;> exact .inr (by rw [hpc]; rfl)
  | compose hpc | postSend hpc | notifySend hpc | received hpc | postRecv hpc | sendDies hpc
  | recvDies hpc => exact .inr (by rw [hpc]; rfl)

/-- What is under way at the server does not change by what the server and its
HCA do. -/
theorem Step.underway {b : Move Client.Action} (h : Step Client.peer e b e')
    (hs : LockStep e) (hb : Succeeds b) (hpeer : ∀ a, b ≠ .peer a) (hin : ∀ o, b ≠ .toServer o)
    (hout : b ≠ .toPeer) (hest : b ≠ .established) :
    e'.peer = e.peer ∧ e'.unread + e'.echoes = e.unread + e.echoes := by
  cases h with
  | arm | event | firstRecv | done | postRecv => exact ⟨rfl, rfl⟩
  | established => exact absurd rfl hest
  | poll c p n => exact ⟨rfl, congrArg (· + _) (unread_poll hs.sound.clean n)⟩
  | next wc wcs c p =>
    refine ⟨rfl, ?_⟩
    rw [unread_dispatch]
    simp only [State.echoes, dispatch_copied]
    rfl
  | copy hcopy =>
    refine ⟨rfl, ?_⟩
    simp only [State.unread, State.echoes, Stage.unread, Stage.copied]
    omega
  | postSend hcap =>
    refine ⟨rfl, ?_⟩
    simp only [State.unread, State.echoes, Stage.unread, Stage.copied, List.length_append,
      List.length_singleton]
    omega
  | @hca s m f he =>
    refine ⟨rfl, ?_⟩
    rw [unread_hca hb he]
    rcases Endpoint.hca_cases hb he with
      ⟨k, w, -, -, -, rfl⟩ | ⟨wc, q, -, hq, rfl⟩ | ⟨wc, q, -, hq, rfl⟩
    · simp [State.echoes]
    · rfl
    · rfl
  | toServer => exact absurd rfl (hin _)
  | toPeer => exact absurd rfl hout
  | peer => exact absurd rfl (hpeer _)

/-- A message arrives: the service takes it. -/
theorem Serves.toServer (h : Serves e s) (hs : LockStep e) {m : Payload}
    (hoffer : e.peer.conn.ep.outgoing = some m) (hready : e.conn.ep.ready = true)
    (opcode : WcOpcode) :
    ∃ t, s.step .toServer = some t ∧
      Serves { e with conn := e.conn.receive opcode m, peer := Client.peer.sent e.peer } t := by
  obtain ⟨-, w, q, hq⟩ := Endpoint.outgoing_eq_some hoffer
  obtain ⟨-, w', q', hq'⟩ := Endpoint.ready_eq_true hready
  obtain ⟨hlen, htext⟩ := hs.outgoing ⟨w, some m⟩ (by simp [hq]) m rfl
  refine ⟨⟨Client.peer.sent e.peer, s.owed ++ [m]⟩, ?_, rfl, ?_, ?_⟩
  · simp only [Echoed.step, h.client, hoffer, Option.map_some]
    rfl
  · have howed := h.owed
    simp only [State.unread, State.echoes] at howed
    simp only [State.unread, State.echoes, receive_of_fits hlen, Endpoint.arrive_of_rq hq',
      List.length_append, List.length_singleton]
    omega
  · intro p hp
    rcases List.mem_append.mp hp with hp | hp
    · exact h.texts p hp
    · rw [List.mem_singleton.mp hp]
      exact htext.2

/-- An echo is delivered: it is the service's answer to the message it owes. -/
theorem Serves.toPeer (h : Serves e s) (hs : LockStep e) {m : Payload}
    (hout : e.conn.ep.outgoing = some m) (hacc : e.peer.conn.ep.ready = true) :
    ∃ t, s.step (.toClient m) = some t ∧
      Serves { e with conn := e.conn.delivered, peer := Client.peer.receive m e.peer } t := by
  obtain ⟨-, w, q, hq⟩ := Endpoint.outgoing_eq_some hout
  obtain ⟨hlen, htext⟩ := hs.returning ⟨w, some m⟩ (by simp [hq]) m rfl
  obtain ⟨client, owed⟩ := s
  obtain rfl : client = e.peer := h.client
  have howed := h.owed
  cases owed with
  | nil =>
    simp only [State.echoes, hq, List.length_cons, List.length_nil] at howed
    omega
  | cons p owed =>
    have htexts := h.texts
    have hstr : cstr m = cstr p := htext.2.trans (htexts p (by simp)).symm
    refine ⟨⟨Client.peer.receive m e.peer, owed⟩, ?_, rfl, ?_, ?_⟩
    · simp only [Echoed.step]
      rw [if_pos ⟨hstr, hlen, hacc⟩]
      rfl
    · simp only [State.unread, State.echoes, hq, List.length_cons] at howed
      simp only [State.unread, State.echoes, Connection.delivered, Endpoint.delivered_of_sq hq]
      omega
    · exact fun p' hp' => htexts p' (by simp [hp'])

/-- **Simulation.** Every move on the connection is none of the service's, or
one step of it. -/
theorem Serves.step (h : Serves e s) (hs : LockStep e) {b : Move Client.Action}
    (hb : Succeeds b) (hstep : Step Client.peer e b e') : Follows e b e' s := by
  have server := hstep.underway hs hb
  cases hstep with
  | arm | event | firstRecv | poll | done | next | copy | postRecv | postSend | hca =>
    obtain ⟨hpeer, hunder⟩ := server (by simp) (by simp) (by simp) (by simp)
    exact .inl (h.of_server hpeer hunder)
  | established c p =>
    refine .inr ⟨.established, _, rfl, trivial, fun _ => trivial, ?_⟩
    rw [h.client]
    refine h.of_client (c := Client.established p) ?_
    by_cases hpc : p.pc = .connecting
    · exact .inl (h.owed_of_turn hs (by simp [hpc, Client.Pc.holds]))
    · exact .inr (by rw [Client.established_of_ne hpc])
  | toServer hoffer hready =>
    obtain ⟨t, ht, hserves⟩ := h.toServer hs hoffer hready _
    exact .inr ⟨.toServer, t, ht, trivial, fun _ => trivial, hserves⟩
  | toPeer hout hacc =>
    obtain ⟨t, ht, hserves⟩ := h.toPeer hs hout hacc
    exact .inr ⟨_, t, ht, trivial, fun _ => trivial, hserves⟩
  | @peer _ a c hc =>
    have hclient : s.step (.client a) = some { s with client := c } := by
      simp only [Echoed.step, h.client]
      exact congrArg (Option.map _) hc
    cases a with
    | exec r =>
      have hiter := iter_of_exec (Client.Exec.of_exec hc)
      exact .inr ⟨_, _, hclient, trivial, id,
        h.of_client (hiter.imp_left (h.owed_of_turn hs))⟩
    | hca m =>
      refine .inr ⟨_, _, hclient, hb, fun hsmooth => ?_, h.of_client (.inr ?_)⟩
      · cases m with
        | reportRecv => simpa [Smooth, Echoed.Smooth, h.client] using hsmooth
        | _ => trivial
      · obtain ⟨nc, -, rfl⟩ := Option.map_eq_some_iff.mp hc
        rfl

/-! ## Runs -/

/-- `setup_connection` at the server, and the client that asks for the
connection. -/
def Opened (e : State Client) : Prop :=
  ∃ recvId sendId r b a, e = ⟨.opening, .create recvId sendId r b, Client.fresh a⟩

/-- The connection has come to `e` in a run that is, for the client, a run of the
echo service. `smooth` says whether it is a smooth one. -/
def Implements (smooth : Prop) (e : State Client) : Prop :=
  ∃ args as s, Run.run Echoed.step (Echoed.initial args) as = some s ∧
    Run.Meets Echoed.step (fun s a => Echoed.Succeeds a ∧ (smooth → s.Smooth a))
      (Echoed.initial args) as ∧ Serves e s

theorem Opened.lockStep (h : Opened e) : LockStep e := by
  obtain ⟨recvId, sendId, r, b, a, rfl⟩ := h
  exact lockStep_opened recvId sendId r b a

theorem Opened.implements (h : Opened e) (smooth : Prop) : Implements smooth e := by
  obtain ⟨recvId, sendId, r, b, a, rfl⟩ := h
  exact ⟨a, [], _, rfl, trivial, rfl, rfl, fun p hp => by cases hp⟩

theorem Implements.step {smooth : Prop} {b : Move Client.Action} (h : Implements smooth e)
    (hs : LockStep e) (hb : Succeeds b) (hsmooth : smooth → Smooth e b)
    (hstep : Step Client.peer e b e') : Implements smooth e' := by
  obtain ⟨args, as, s, hrun, hmeets, hserves⟩ := h
  rcases hserves.step hs hb hstep with hstay | ⟨a, t, ha, hok, hf, hserves'⟩
  · exact ⟨args, as, s, hrun, hmeets, hstay⟩
  · have ht : Run.run Echoed.step s [a] = some t := by simp [Run.run, ha]
    exact ⟨args, as ++ [a], t, Run.run_append hrun ht,
      hmeets.append hrun ⟨⟨hok, fun hx => hf (hsmooth hx)⟩, fun _ _ => trivial⟩, hserves'⟩

/-- A server whose connections are echo connections implements the service on
each of them. -/
theorem implements_of_projects {smooth : Prop} {κ σ β : Type} {step : σ → β → Option σ}
    {G : σ → Prop} {P : σ → β → Prop} {view : σ → κ → Option (State Client)}
    (hp : Run.Projects step G P view (fun _ e => Opened e) (Echo.step Client.peer)
      fun e b => Succeeds b ∧ (smooth → Smooth e b))
    {s t : σ} {as : List β} (hrun : Run.run step s as = some t) (hm : Run.Meets step P s as)
    (hG : G s) (hs : ∀ c e, view s c = some e → Opened e) :
    G t ∧ ∀ c e, view t c = some e → LockStep e ∧ Implements smooth e :=
  hp.invariant (I := fun _ e => LockStep e ∧ Implements smooth e)
    (fun _ _ h => ⟨h.lockStep, h.implements smooth⟩)
    (fun _ _ _ _ h hb hstep =>
      have hmove := Step.of_step hstep
      ⟨h.1.step hb.1 hmove, h.2.step h.1 hb.1 hb.2 hmove⟩)
    hrun hm hG fun c e h => ⟨(hs c e h).lockStep, (hs c e h).implements smooth⟩

/-! ## What is under way -/

/-- The strings under way at the server, the next one to go back first: of the
echoes, posted or about to be, and of the messages that are not copied yet. -/
def State.underway (e : State Client) : List (List UInt8) :=
  e.conn.ep.sq.map (fun x => cstr (x.payload.getD e.conn.sendBuff.bytes)) ++
    .replicate e.stage.copied (cstr e.conn.sendBuff.bytes) ++
    .replicate e.unread (cstr e.conn.recvBuff.bytes)

theorem length_underway (e : State Client) : e.underway.length = e.unread + e.echoes := by
  simp only [State.underway, State.echoes, List.length_append, List.length_map,
    List.length_replicate]
  omega

/-- Each is the text of the client's current iteration. -/
theorem LockStep.underway {e : State Client} (hs : LockStep e) :
    ∀ p ∈ e.underway, p = msgText e.peer.pc.iter := by
  intro p hp
  rcases List.mem_append.mp hp with hp | hp
  · rcases List.mem_append.mp hp with hp | hp
    · obtain ⟨x, hx, rfl⟩ := List.mem_map.mp hp
      cases hpay : x.payload with
      | some m => exact (hs.returning x hx m hpay).2.2
      | none =>
        have hpos : 0 < e.conn.ep.sq.length := List.length_pos_of_mem hx
        exact (hs.copied (by simp only [State.echoes]; omega)).2
    · obtain ⟨hne, rfl⟩ := List.mem_replicate.mp hp
      exact (hs.copied (by simp only [State.echoes]; omega)).2
  · obtain ⟨hne, rfl⟩ := List.mem_replicate.mp hp
    exact (hs.arrived (Nat.pos_of_ne_zero hne)).2

/-- What the service owes is what is under way, string by string. -/
theorem Serves.underway {e : State Client} {s : Echoed} (h : Serves e s) (hs : LockStep e) :
    s.owed.map cstr = e.underway := by
  have howed : s.owed.map cstr =
      .replicate (e.unread + e.echoes) (msgText e.peer.pc.iter) := by
    refine List.eq_replicate_iff.mpr ⟨by rw [List.length_map, h.owed], fun p hp => ?_⟩
    obtain ⟨m, hm, rfl⟩ := List.mem_map.mp hp
    exact h.texts m hm
  rw [howed, List.eq_replicate_iff.mpr ⟨length_underway e, hs.underway⟩]

end Echo

/-! ## The three servers -/

/-- A connection that is new has just been opened by a client. -/
structure EchoServer.FreshStart (p : EchoServer) : Prop where
  started : ∀ s c e, p.Initial s → p.conn s c = some e → Echo.Opened e
  created : ∀ s a t c e, p.Good s → p.Succeeds a → p.step s a = some t → p.conn s c = none →
    p.conn t c = some e → Echo.Opened e

theorem EchoLoop.freshStart03 : server03.FreshStart where
  started s c e hs he := by
    obtain ⟨recvId, sendId, r, b, a, rfl⟩ := hs
    cases he
    exact ⟨recvId, sendId, r, b, a, rfl⟩
  created s a t c e _ _ _ hnone := by cases hnone

theorem EchoLoop.opened_of_workerStep {w u : Workers Client}
    {a : WorkerAction Client.Args Client.Action} (h : workerStep Client.peer w a = some u) {c : Nc}
    (hold : w c = none) {t : State Client} (ht : u c = some t) : Echo.Opened (view t) := by
  cases a with
  | start nc recvId sendId r b x =>
    simp only [workerStep] at h
    split at h
    · cases h
      by_cases hc : c = nc
      · subst hc
        simp only [Function.update_self, Option.some.injEq] at ht
        subst ht
        exact ⟨recvId, sendId, r, b, x, rfl⟩
      · simp [hc, hold] at ht
    · cases h
  | finish nc =>
    simp only [workerStep] at h
    split at h
    · split at h
      · cases h
        by_cases hc : c = nc <;> simp [hc, hold] at ht
      · cases h
    · cases h
  | thread nc x =>
    simp only [workerStep, Option.bind_eq_some_iff, Option.map_eq_some_iff] at h
    obtain ⟨s, hs, t', -, rfl⟩ := h
    by_cases hc : c = nc
    · subst hc
      simp [hold] at hs
    · simp [hc, hold] at ht

theorem EchoLoop.freshStart04 : server04.FreshStart where
  started w c e hw he := by subst hw; cases he
  created w a u c e _ _ h hnone he := by
    obtain ⟨t, ht, rfl⟩ := Option.map_eq_some_iff.mp he
    exact opened_of_workerStep h (Option.map_eq_none_iff.mp hnone) ht

theorem Rdmacm05.freshStart05 : server05.FreshStart where
  started s c e hs he := by
    obtain ⟨heap, rfl⟩ := hs
    simp [server05, view, State.initial] at he
  created s a t c e hs ha h hnone he := by
    have hp := projects (P := Client.peer) fun _ b => Echo.Succeeds b
    rcases hp.component s a t hs (fun m hm e _ => succeeds_label ha hm) h c e he with
      hv | ⟨-, r, b, x, rfl⟩ | ⟨l, m, hv, -⟩
    · exact absurd (hnone.symm.trans hv) (by simp)
    · exact ⟨c, c, r, b, x, rfl⟩
    · exact absurd (hnone.symm.trans hv) (by simp)

theorem Directory.freshStart : (d : Directory) → d.server.FreshStart
  | .rdmacm03 => EchoLoop.freshStart03
  | .rdmacm04 => EchoLoop.freshStart04
  | .rdmacm05 => Rdmacm05.freshStart05

/-- **Refinement.** In each directory, in every state that the server and its
clients reach, the client of every connection has seen an echo service: there
is a run of the service after which its client is in the same state, and the
strings under way at the server are those the service owes. -/
theorem serves_every_client (d : Directory) {s t : d.server.State} {as : List d.server.Action}
    (hs : d.server.Initial s) (hrun : Run.run d.server.step s as = some t)
    (hok : ∀ a ∈ as, d.server.Succeeds a) {c : Nc} {e : Echo.State Client}
    (he : d.server.conn t c = some e) :
    ∃ args bs u, Run.run Echoed.step (Echoed.initial args) bs = some u ∧
      (∀ b ∈ bs, Echoed.Succeeds b) ∧ u.client = e.peer ∧
        u.owed.length = e.unread + e.echoes ∧ u.owed.map cstr = e.underway := by
  have hfresh := d.freshStart
  have hp : Run.Projects d.server.step d.server.Good (fun _ a => d.server.Succeeds a)
      d.server.conn (fun _ e => Echo.Opened e) (Echo.step Client.peer)
      fun e b => Echo.Succeeds b ∧ (False → Echo.Smooth e b) := by
    refine ⟨d.server.projects.keeps, fun s a t hG ha h c e he => ?_⟩
    rcases d.server.projects.component s a t hG ha h c e he with
      hv | ⟨hnone, -⟩ | ⟨l, b, hv, hb, hmove⟩
    · exact .inl hv
    · exact .inr (.inl ⟨hnone, hfresh.created s a t c e hG ha h hnone he⟩)
    · exact .inr (.inr ⟨l, b, hv, ⟨hb, False.elim⟩, hmove⟩)
  obtain ⟨-, hconns⟩ := Echo.implements_of_projects hp hrun (Run.Meets.of_forall hok)
    (d.server.good s hs) fun c e => hfresh.started s c e hs
  obtain ⟨hlock, args, bs, u, hu, hm, hserves⟩ := hconns c e he
  refine ⟨args, bs, u, hu, ?_, hserves.client, hserves.owed, hserves.underway hlock⟩
  intro b hb
  obtain ⟨cs, ds, rfl⟩ := List.append_of_mem hb
  obtain ⟨v, hv, -⟩ := Run.run_of_append hu
  exact (Run.meets_iff.mp hm cs b ds v rfl hv).1

theorem serves_every_client_arrived : ∃ t, t.conn.ep.recvDone.length = 1 ∧
    Run.run (EchoLoop.step EchoLoop.rdmacm03 Client.peer)
      (EchoLoop.opened Client.peer 0 0 zeros zeros Echoed.once)
      (firstMessage ++ [.toServer .recv]) = some t ∧
    ∃ args bs u, Run.run Echoed.step (Echoed.initial args) bs = some u ∧
      (∀ b ∈ bs, Echoed.Succeeds b) ∧ u.client = t.peer ∧
        u.owed.length = (EchoLoop.view t).unread + (EchoLoop.view t).echoes ∧
        u.owed.map cstr = (EchoLoop.view t).underway := by
  have hrun : (Run.run (EchoLoop.step EchoLoop.rdmacm03 Client.peer)
      (EchoLoop.opened Client.peer 0 0 zeros zeros Echoed.once)
      (firstMessage ++ [.toServer .recv])).map (fun t => t.conn.ep.recvDone.length) = some 1 := by
    decide +kernel
  obtain ⟨t, ht, hdone⟩ := Option.map_eq_some_iff.mp hrun
  have hok : ∀ a ∈ firstMessage ++ [.toServer .recv], EchoLoop.Succeeds a := by decide
  exact ⟨t, hdone, ht,
    serves_every_client .rdmacm03 (c := 0) ⟨_, _, _, _, _, rfl⟩ ht hok rfl⟩

end RdmaTutorial
