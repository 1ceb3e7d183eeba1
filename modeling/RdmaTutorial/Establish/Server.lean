import RdmaTutorial.Establish.Rules

/-!
# The server

What `main` of the server (rdmacm01, rdmacm03) does with the one connection it
takes. The event behind `rdma_accept` names no connection it looks at: it can only
be about the id it has accepted.
-/

namespace RdmaTutorial.Establish

open Objects Program

variable {heap : Option Nat → Bool} {m : Mode} {objs : List (Object Held)} {s t : Net} {id : Id}

/-! ## What the server knows -/

/-- No request is answered yet, and in the mode of one client the server is at
`st` with it. -/
structure Unanswered (m : Mode) (st : Net.Stage) (s : Net) : Prop where
  none : ∀ n, (s.conns n).passive.answered = false
  stage : ∀ k ∈ m, s.ServerAt k st

/-- The server listens, and has fetched no event. -/
structure Listening (m : Mode) (listener : Id) (s : Net) : Prop where
  unanswered : Unanswered m .fresh s
  listening : s.listening = some listener

/-- The server has fetched a request. -/
structure Taken (m : Mode) (id : Id) (s : Net) : Prop where
  unanswered : Unanswered m .taken s
  peers : ∃ n, s.peers id = some n

/-- It has accepted it, and no other. -/
structure Accepted (m : Mode) (id : Id) (s : Net) : Prop where
  only : ∀ n, (s.conns n).passive.answered = true → s.peers id = some n
  stage : ∀ k ∈ m, s.ServerAt k .accepted

/-- The client has heard of it. -/
def IsUp (id : Id) (s : Net) : Prop := ∃ n, s.peers id = some n ∧ (s.conns n).active.up = true

theorem Net.Rely.server (h : Net.Rely m .server s t) : Net.ServerRely m s t := h

theorem kept_unanswered {st : Net.Stage} : Kept m .server (Unanswered m st) where
  rely _ _ hs h := ⟨fun n => (h.server.answered n).trans (hs.none n),
    fun k hk => h.server.keeps k hk st (hs.stage k hk)⟩
  quiet _ _ hs hconns _ hlistening hqueue := ⟨fun n => by rw [hconns]; exact hs.none n,
    fun k hk => (hs.stage k hk).congr (by rw [hconns]) hqueue hlistening⟩

theorem kept_listening {listener : Id} : Kept m .server (Listening m listener) where
  rely s t hs h := ⟨kept_unanswered.rely s t hs.unanswered h,
    h.server.listening.trans hs.listening⟩
  quiet s t hs hconns hpeers hlistening hqueue :=
    ⟨kept_unanswered.quiet s t hs.unanswered hconns hpeers hlistening hqueue,
      hlistening.trans hs.listening⟩

theorem kept_taken : Kept m .server (Taken m id) where
  rely s t hs h := ⟨kept_unanswered.rely s t hs.unanswered h,
    hs.peers.imp fun n => h.server.peers id n⟩
  quiet s t hs hconns hpeers hlistening hqueue :=
    ⟨kept_unanswered.quiet s t hs.unanswered hconns hpeers hlistening hqueue,
      by rw [hpeers]; exact hs.peers⟩

theorem kept_accepted : Kept m .server (Accepted m id) where
  rely _ _ hs h := ⟨fun n hn => h.server.peers id n
      (hs.only n ((h.server.answered n).symm.trans hn)),
    fun k hk => h.server.keeps k hk _ (hs.stage k hk)⟩
  quiet _ _ hs hconns hpeers hlistening hqueue := ⟨fun n hn => by
      rw [hpeers]
      exact hs.only n (by rwa [hconns] at hn),
    fun k hk => (hs.stage k hk).congr (by rw [hconns]) hqueue hlistening⟩

theorem kept_isUp : Kept m .server (IsUp id) where
  rely _ _ hs h := hs.imp fun n hn => ⟨h.server.peers id n hn.1, h.server.up n hn.2⟩
  quiet _ _ hs hconns hpeers _ _ := by
    unfold IsUp
    rwa [hconns, hpeers]

theorem IsUp.stays {c : Call} {r : c.Answer} (hs : IsUp id s)
    (h : Net.Effect heap m .server s c r t) : IsUp id t :=
  hs.imp fun n hn => ⟨by rw [h.peers]; exact hn.1, (h.goes n).up hn.2⟩

/-! ## Its two events -/

/-- A request that has come, and no other event. -/
theorem Listening.fetches {listener : Id} {e : CmEventType} (hs : Listening m listener s)
    (hvalid : Net.Valid m s) (hqueue : s.server.queue = (e, id) :: t.server.queue)
    (hconns : t.conns = s.conns) (hpeers : t.peers = s.peers) :
    (e = .connectRequest → Taken m id t) ∧ (e ≠ .connectRequest → m = none) := by
  have hfirst : ∀ k ∈ m, e = .connectRequest ∧ (s.conns k).passive = .requested ∧
      t.server.queue = [] := by
    intro k hk
    rcases hs.unanswered.stage k hk with ⟨-, hempty⟩ | ⟨hrequested, id', hfull, -⟩
    · simp [hempty] at hqueue
    · obtain ⟨he, hrest⟩ := List.cons.inj (hfull.symm.trans hqueue)
      exact ⟨(congrArg Prod.fst he).symm, hrequested, hrest.symm⟩
  constructor
  · rintro rfl
    refine ⟨⟨fun n => by rw [hconns]; exact hs.unanswered.none n, fun k hk => ?_⟩, ?_⟩
    · obtain ⟨-, hrequested, hempty⟩ := hfirst k hk
      exact ⟨by rw [hconns]; exact hrequested, hempty⟩
    · rw [hpeers]
      exact hvalid.heard (.connectRequest, id) (by simp [hqueue])
  · intro hne
    by_contra hsome
    obtain ⟨k, hk⟩ := Option.ne_none_iff_exists'.mp hsome
    exact hne (hfirst k hk).1

/-- ESTABLISHED is about the id that is accepted, whatever id the event names. -/
theorem Accepted.fetches {e : CmEventType} {id' : Id} (hs : Accepted m id s)
    (hvalid : Net.Valid m s) (hqueue : s.server.queue = (e, id') :: t.server.queue)
    (hconns : t.conns = s.conns) (hpeers : t.peers = s.peers) :
    (e = .established → IsUp id t) ∧ (e ≠ .established → m = none) := by
  constructor
  · rintro rfl
    obtain ⟨n, -, hup⟩ := hvalid.heard (.established, id') (by simp [hqueue])
    refine ⟨n, ?_, ?_⟩
    · rw [hpeers]
      exact hs.only n ((hvalid.ok n).up hup)
    · rw [hconns]
      exact hup
  · intro hne
    by_contra hsome
    obtain ⟨k, hk⟩ := Option.ne_none_iff_exists'.mp hsome
    rcases hs.stage k hk with ⟨-, hempty⟩ | ⟨id'', rest, hfull⟩
    · simp [hempty] at hqueue
    · rw [hfull] at hqueue
      cases hqueue
      exact hne rfl

/-! ## What its calls do -/

/-- Once it listens, a request can come. -/
theorem Unanswered.listens {listener : Id} {backlog : Nat} (hs : Unanswered m .silent s)
    (h : Net.Effect heap m .server s (.listen listener backlog) (.ok : Result) t) :
    Listening m listener t := by
  have hconns : t.conns = s.conns := (Option.some.inj h.conns).symm
  have hqueue : t.server.queue = s.server.queue := (Option.some.inj h.queue).symm
  refine ⟨⟨fun n => by rw [hconns]; exact hs.none n, fun k hk => .inl ?_⟩, h.listening⟩
  obtain ⟨hnone, hempty, -⟩ := hs.stage k hk
  exact ⟨by rw [hconns]; exact hnone, by rw [hqueue]; exact hempty⟩

/-- The id of a request is not the listener's. -/
theorem Listening.ne_of_mem {listener : Id} (hs : Listening m listener s) {k : Nat}
    (hk : k ∈ m) (hid : (.connectRequest, id) ∈ s.server.queue) : listener ≠ id := by
  rcases hs.unanswered.stage k hk with ⟨-, hempty⟩ | ⟨-, id', hfull, hne⟩
  · simp [hempty] at hid
  · rw [hfull, List.mem_singleton] at hid
    cases hid
    rintro rfl
    exact hne hs.listening

/-- A request that is taken waits for its answer. -/
theorem Taken.requested (hs : Taken m id s) (hvalid : Net.Valid m s) :
    (∀ k, (s.conns k).passive.answered = false) ∧
      ∃ n, s.peers id = some n ∧ (s.conns n).passive = .requested := by
  obtain ⟨n, hn⟩ := hs.peers
  refine ⟨hs.unanswered.none, n, hn, ?_⟩
  have hsome := ((hvalid.peers id n).mp hn).2
  have hnone := hs.unanswered.none n
  generalize (s.conns n).passive = x at hsome hnone
  cases x <;> simp_all [Passive.answered]

/-- What `rdma_accept` makes of a request that is taken. -/
theorem Taken.accepts {param : ConnParam} (hs : Taken m id s) (hvalid : Net.Valid m s)
    (h : Net.Effect heap m .server s (.accept id param) (.ok : Result) t) : Accepted m id t := by
  obtain ⟨n, hn⟩ := hs.peers
  have hconns := h.conns
  simp only [Net.connAfter, Call.serverId, Option.bind_some, hn, Option.map_eq_some_iff,
    Conn.serverCall] at hconns
  obtain ⟨x, hx, ht⟩ := hconns
  split at hx
  · have hn' : t.peers id = some n := by rw [h.peers, hn]
    have hqueue : t.server.queue = s.server.queue := (Option.some.inj h.queue).symm
    cases hx
    refine ⟨fun j hj => ?_, fun k hk => .inl ?_⟩
    · by_cases hjn : j = n
      · rw [hjn, hn']
      · rw [← ht, Function.update_of_ne hjn, hs.unanswered.none j] at hj
        cases hj
    · -- The request is that of the only client.
      have hkn : n = k := by
        by_contra hne
        exact ((hvalid.peers id n).mp hn).2 (hvalid.alone k hk n hne)
      subst hkn
      refine ⟨by rw [← ht, Function.update_self], ?_⟩
      rw [hqueue]
      exact (hs.unanswered.stage n hk).2
  · cases hx

/-- What a server that returns has done, and what it leaves. -/
def ServerDone (s : Net) : Prop :=
  (∃ id, IsUp id s) ∧ ∃ nc : Connected, s.server.live = nc.objects

/-- The end of `main`. -/
theorem wp_serverEnd {ec : Nat} {listener clientId : Id} {nc : Connected}
    (hs : Has .server (⟨.channel ec, []⟩ :: ⟨.id listener, [.channel ec]⟩ ::
      ⟨.id clientId, [.channel ec]⟩ :: nc.objects) (IsUp clientId) s)
    (hne : listener ≠ clientId) :
    Wp heap m .server (Leaves m fun _ => ServerDone) (do
      let _ ← call (.disconnect clientId)
      let _ ← call (.destroyId clientId)
      let _ ← call (.destroyId listener)
      let _ ← call (.destroyEventChannel ec)
      return ()) s := by
  refine wp_calls kept_isUp hs (by simp [Call.Safe]) (fun t ht _ => ht.knows)
    fun r t u ht _ he => ?_
  have hu := ht.calls he (fun _ => rfl) (ht.knows.stays he)
  have hforeign : ∀ h : Held, (∀ v, h ≠ .verbs v) → (∀ a, h ≠ .conn a) →
      ∀ o ∈ nc.objects, o.handle ≠ h ∧ h ∉ o.uses := fun h hv hc o ho => nc.foreign hv hc ho
  refine wp_destroyId kept_isUp (l := [⟨.channel ec, []⟩, ⟨.id listener, [.channel ec]⟩]) hu
    ?_ ?_ (by simp) (fun _ _ _ ht he => ht.stays he) fun _ v hv => ?_
  · have hconn := hforeign (.id clientId) (by simp) (by simp)
    simpa [hne] using fun o ho => (hconn o ho).1
  · have hconn := hforeign (.id clientId) (by simp) (by simp)
    simpa using fun o ho => (hconn o ho).2
  refine wp_destroyId kept_isUp (l := [⟨.channel ec, []⟩]) hv ?_ ?_ (by simp)
    (fun _ _ _ ht he => ht.stays he) fun _ w hw => ?_
  · have hlistener := hforeign (.id listener) (by simp) (by simp)
    simpa using fun o ho => (hlistener o ho).1
  · have hlistener := hforeign (.id listener) (by simp) (by simp)
    simpa using fun o ho => (hlistener o ho).2
  have hchannel : ∀ o ∈ [] ++ nc.objects, o.handle ≠ .channel ec ∧ .channel ec ∉ o.uses :=
    hforeign (.channel ec) (by simp) (by simp)
  refine wp_quiet kept_isUp hw rfl ?_ fun _ objs' x _ hlive hx => ?_
  · exact ⟨by simp, not_busy_middle (l := []) (fun o ho => (hchannel o ho).2) (by simp)⟩
  have hleft : objs' = nc.objects := by
    rw [← Option.some.inj hlive]
    exact destroy_middle (fun o ho => (hchannel o ho).1) (fun o ho => (hchannel o ho).2) (by simp)
  subst hleft
  exact wp_done kept_isUp hx fun y hy => ⟨⟨clientId, hy.knows⟩, nc, hy.live⟩

theorem wp_serverMain {d : Directory} (hfine : d = .rdmacm01 → ∀ x, heap x → x = none)
    (hs : Has .server [] (Unanswered m .silent) s) :
    Wp heap m .server (Leaves m fun _ => ServerDone) (serverMain d) s := by
  unfold serverMain
  refine wp_quiet kept_unanswered hs rfl trivial fun _ _ s _ hlive hs => ?_
  cases hlive
  refine wp_quiet kept_unanswered hs rfl trivial ?_
  rintro (_ | ec) _ s hok hlive hs
  · exact wp_dies hok
  obtain ⟨-, rfl⟩ := add_eq_some.mp hlive
  rw [nonNull, ret_bind]
  refine wp_quiet kept_unanswered hs rfl (by simp [Call.Safe]) ?_
  rintro (_ | listener) _ s hok hlive hs
  · exact wp_dies hok
  obtain ⟨-, rfl⟩ := add_eq_some.mp hlive
  rw [stored, ret_bind]
  refine wp_quiet kept_unanswered hs rfl trivial ?_
  rintro (_ | ai) _ s hok hlive hs
  · exact wp_dies hok
  obtain ⟨-, rfl⟩ := add_eq_some.mp hlive
  rw [stored, ret_bind]
  refine wp_quiet kept_unanswered hs rfl (by simp [Call.Safe]) ?_
  rintro (_ | _) _ s hok hlive hs
  swap
  · exact wp_dies hok
  cases hlive
  rw [zero, ret_bind]
  refine wp_quiet kept_unanswered hs rfl trivial fun _ _ s _ hlive hs => ?_
  cases hlive
  refine wp_calls kept_unanswered hs (by simp [Call.Safe]) (fun _ _ _ => trivial) ?_
  rintro (_ | _) t s ht - he
  swap
  · exact wp_dies fun hm => he.succeeds hm
  have hs := ht.calls he (fun _ => rfl) (ht.knows.listens he)
  rw [zero, ret_bind]
  refine wp_quiet kept_listening hs rfl (by simp [Call.Safe]) fun _ objs s _ hlive hs => ?_
  obtain rfl : objs = [⟨.channel ec, []⟩, ⟨.id listener, [.channel ec]⟩] := by
    rw [← Option.some.inj hlive]
    simp [destroy, Busy]
  refine wp_then (wp_expect kept_listening (B := Taken m) (fun _ => kept_taken) hs (by simp)
    (by simp) (by simp [Plain]) ?_ fun t u e id ht hvalid _ hqueue hconns hpeers _ =>
      ht.fetches hvalid hqueue hconns hpeers) ?_
  · intro t ht _ k hk
    refine .inl ⟨by simp [ht.knows.listening], ht.knows.unanswered.stage k hk, fun id hid => ?_⟩
    have hne := ht.knows.ne_of_mem hk hid
    rw [show t.server.live = _ from ht.live]
    simpa using hne
  rintro clientId s ⟨hs, hnew⟩ -
  have hne : listener ≠ clientId := by simpa using hnew rfl
  rw [brought_connectRequest] at hs
  refine wp_then (wp_setupConnection kept_taken hs (by simp) hfine) fun nc s hs _ => ?_
  refine wp_calls kept_taken hs (by simp [Call.Safe])
    (fun t ht hvalid => ht.knows.requested hvalid) ?_
  rintro (_ | _) t s ht hvalid he
  swap
  · exact wp_dies fun hm => he.succeeds hm
  have hs := ht.calls he (fun _ => rfl) (ht.knows.accepts hvalid he)
  rw [zero, ret_bind]
  refine wp_then (wp_expect kept_accepted (B := fun _ => IsUp clientId) (fun _ => kept_isUp) hs
    (by simp) ?_ ?_ (fun t ht _ k hk => .inr (ht.knows.stage k hk))
      fun t u e id ht hvalid _ hqueue hconns hpeers _ =>
        ht.fetches hvalid hqueue hconns hpeers) ?_
  · simpa using nc.no_event
  · simpa [Plain] using nc.plain
  rintro _ s ⟨hs, -⟩ -
  rw [brought_established, List.append_nil] at hs
  split
  · refine wp_then (wp_runLoop kept_isUp hs (by simp) (by simp [Connected.objects])
      (fun t ht => ht) fun _ _ _ ht he => ht.stays he) fun _ s hs _ => ?_
    exact wp_serverEnd hs hne
  · exact wp_serverEnd hs hne

end RdmaTutorial.Establish
