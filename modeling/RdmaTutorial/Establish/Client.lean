import RdmaTutorial.Establish.Rules

/-!
# A client

What `main` of a client does with its connection, from `rdma_create_id` to
`rdma_destroy_id`: each call comes where librdmacm takes it, and each event that
is awaited is the one that comes next, if nothing fails.
-/

namespace RdmaTutorial.Establish

open Objects Program

variable {heap : Option Nat → Bool} {m : Mode} {n : Nat} {a b : Active} {objs : List (Object Held)}
  {s t : Net}

/-- The client has left its end at `a`, and in the mode of one client, up to
ESTABLISHED, what it waits for comes first. -/
def At (m : Mode) (n : Nat) (a : Active) (s : Net) : Prop :=
  a.Drifts (s.conns n).active ∧ (n ∈ m → a.up = false → s.ClientAt n a)

theorem kept_at : Kept m (.client n) (At m n a) where
  rely _ _ hs h := ⟨hs.1.trans h.drifts, fun hn ha => h.keeps hn a ha (hs.2 hn ha)⟩
  quiet s t hs hconns _ _ hqueue := by
    refine ⟨by rw [hconns]; exact hs.1, fun hn ha => (hs.2 hn ha).congr (by rw [hconns]) hqueue⟩

/-- What a call makes of the end of its client. -/
theorem Net.Effect.clientCall {c : Call} {r : c.Answer}
    (h : Net.Effect heap m (.client n) s c r t) :
    (s.conns n).clientCall c r = some (t.conns n) := by
  obtain ⟨x, hx, ht⟩ := Option.map_eq_some_iff.mp h.conns
  rw [← ht, Function.update_self, hx]

/-- Without a step of the network to wait for, the end is where it was left. -/
theorem At.active (hs : At m n a s) (ha : a.targets = [a]) : (s.conns n).active = a := by
  simpa [Active.Drifts, ha] using hs.1

/-- A call that the end waits for, with nothing on its way. -/
theorem At.starts {c : Call} {r : c.Answer} (hs : At m n a s) (ha : a.targets = [a])
    (hidle : a.awaits = none) (h : Net.Effect heap m (.client n) s c r t)
    (hqueue : ∀ q, queueAfter q c r = some q)
    (hcall : ∀ x : Conn, x.active = a → (x.clientCall c r).map Conn.active = some b)
    (hup : a.up = false) : At m n b t := by
  have hb : (t.conns n).active = b := by
    have hmap := hcall _ (hs.active ha)
    rw [h.clientCall] at hmap
    exact Option.some.inj hmap
  refine ⟨by rw [hb]; exact .refl b, fun hn _ => .inl ⟨hb, ?_⟩⟩
  have hkept : (t.clients n).queue = (s.clients n).queue :=
    Option.some.inj (h.queue.symm.trans (hqueue _))
  rcases hs.2 hn hup with ⟨-, hempty⟩ | ⟨e, he, -⟩
  · rw [hkept, hempty]
  · simp [hidle] at he

theorem Has.starts {c : Call} {r : c.Answer} (hs : Has (.client n) objs (At m n a) s)
    (ha : a.targets = [a]) (hidle : a.awaits = none) (hup : a.up = false)
    (h : Net.Effect heap m (.client n) s c r t) (hlive : ∀ o, liveAfter heap o c r = some o)
    (hqueue : ∀ q, queueAfter q c r = some q)
    (hcall : ∀ x : Conn, x.active = a → (x.clientCall c r).map Conn.active = some b) :
    Has (.client n) objs (At m n b) t :=
  hs.calls h hlive (hs.knows.starts ha hidle h hqueue hcall hup)

theorem at_connected : At m n .connected s ↔ (s.conns n).active.up = true := by
  unfold At
  generalize (s.conns n).active = x
  cases x <;> simp [Active.Drifts, Active.targets, Active.up]

/-- Once connected, nothing the client does takes that back. -/
theorem At.stays {c : Call} {r : c.Answer} (hs : At m n .connected s)
    (h : Net.Effect heap m (.client n) s c r t) : At m n .connected t :=
  at_connected.mpr ((h.goes n).up (at_connected.mp hs))

/-- An event that tells of the end where it is told. -/
theorem Active.Told.reached {e : CmEventType} (ha : a.awaits = some e) (hdrifts : a.Drifts b)
    (h : b.Told e) : a.reached.Drifts b := by
  cases a <;> cases ha <;> cases b <;>
    simp_all [Active.Drifts, Active.targets, Active.reached, Active.Told, Active.hasAddr,
      Active.hasRoute, Active.up]

/-- The event that the client waits for. -/
theorem At.fetches {e exp : CmEventType} {id : Id} (hs : At m n a s)
    (ha : a.awaits = some exp) (hvalid : Net.Valid m s) (hm : ∀ k ∈ m, .client n = Party.client k)
    (hqueue : (s.clients n).queue = (e, id) :: (t.clients n).queue) (hconns : t.conns = s.conns) :
    (e = exp → At m n a.reached t) ∧ (e ≠ exp → m = none) := by
  have hup : a.up = false := by cases a <;> first | rfl | cases ha
  have hfirst : n ∈ m → e = exp ∧ (a ≠ .connecting →
      (t.clients n).queue = [] ∧ (s.conns n).active = a.reached) := by
    intro hn
    rcases hs.2 hn hup with ⟨-, hempty⟩ | ⟨e', he', id', rest, hfull, hrest⟩
    · simp [hempty] at hqueue
    · rw [hfull] at hqueue
      cases hqueue
      exact ⟨Option.some.inj (he'.symm.trans ha), hrest⟩
  constructor
  · rintro rfl
    have htold := hvalid.told n (e, id) (by simp [hqueue])
    refine ⟨?_, fun hn hlow => .inl ?_⟩
    · rw [hconns]
      exact htold.reached ha hs.1
    · rw [hconns]
      have hne : a ≠ .connecting := by
        rintro rfl
        cases hlow
      exact ⟨((hfirst hn).2 hne).2, ((hfirst hn).2 hne).1⟩
  · intro hne
    by_contra hsome
    obtain ⟨k, hk⟩ := Option.ne_none_iff_exists'.mp hsome
    cases hm k hk
    exact hne (hfirst hk).1

theorem wp_clientExpect {exp : CmEventType} {ec : Nat} {before after : List String}
    (ha : a.awaits = some exp) (hs : Has (.client n) objs (At m n a) s)
    (hec : IsLive objs (.channel ec)) (hnone : ∀ x, ¬IsLive objs (.event x))
    (hplain : Plain objs) :
    Wp heap m (.client n) (Leaves m fun _ => Has (.client n) objs (At m n a.reached))
      (expect ec exp before after) s := by
  have hne : exp ≠ .connectRequest := by
    rintro rfl
    cases a <;> cases ha
  have hup : a.up = false := by cases a <;> first | rfl | cases ha
  have hbrought : ∀ id, brought exp ec id = [] := fun id => if_neg hne
  refine wp_mono ?_ (wp_expect kept_at (B := fun _ => At m n a.reached) (fun _ => kept_at) hs hec
    hnone hplain ?_ ?_)
  · rintro (e | id) t h
    · exact h
    · have hhas := h.1
      rwa [hbrought, List.append_nil] at hhas
  · intro t ht _ hn
    exact ⟨a, by simp [ha], ht.knows.2 hn hup⟩
  · intro t u e id ht hvalid hm hqueue hconns _ _
    exact ht.fetches ha hvalid (fun k hk => (hm k hk).resolve_left (by simp)) hqueue hconns

/-- What a client that returns has done, and what it leaves. -/
def ClientDone (n : Nat) (s : Net) : Prop :=
  (s.conns n).active.up = true ∧ ∃ nc : Connected, (s.clients n).live = nc.objects

/-- The end of `main`. -/
theorem wp_clientEnd {ec : Nat} {conn : Id} {nc : Connected}
    (hs : Has (.client n) (⟨.channel ec, []⟩ :: ⟨.id conn, [.channel ec]⟩ :: nc.objects)
      (At m n .connected) s) :
    Wp heap m (.client n) (Leaves m fun _ => ClientDone n) (do
      let _ ← call (.disconnect conn)
      let _ ← call (.destroyId conn)
      let _ ← call (.destroyEventChannel ec)
      return ()) s := by
  refine wp_calls kept_at hs (by simp [Call.Safe]) (fun t ht _ => at_connected.mp ht.knows)
    fun r t u ht _ he => ?_
  have hu := ht.calls he (fun _ => rfl) (ht.knows.stays he)
  have hforeign : ∀ h : Held, (∀ v, h ≠ .verbs v) → (∀ a, h ≠ .conn a) →
      ∀ o ∈ [] ++ nc.objects, o.handle ≠ h ∧ h ∉ o.uses := fun h hv hc o ho =>
    nc.foreign hv hc ho
  refine wp_destroyId kept_at (l := [⟨.channel ec, []⟩]) hu ?_ ?_ (by simp)
    (fun _ _ _ ht he => ht.stays he) fun _ v hv => ?_
  · rintro o (_ | ⟨_, ho⟩)
    · simp
    · exact (hforeign (.id conn) (by simp) (by simp) o ho).1
  · rintro o (_ | ⟨_, ho⟩)
    · simp
    · exact (hforeign (.id conn) (by simp) (by simp) o ho).2
  have hchannel := hforeign (.channel ec) (by simp) (by simp)
  refine wp_quiet kept_at hv rfl ?_ fun _ objs' w _ hlive hw => ?_
  · exact ⟨by simp, not_busy_middle (l := []) (fun o ho => (hchannel o ho).2) (by simp)⟩
  have hleft : objs' = nc.objects := by
    rw [← Option.some.inj hlive]
    exact destroy_middle (fun o ho => (hchannel o ho).1) (fun o ho => (hchannel o ho).2) (by simp)
  subst hleft
  exact wp_done kept_at hw fun x hx => ⟨at_connected.mp hx.knows, nc, hx.live⟩

theorem wp_clientMain {d : Directory} {ip : String} (hfine : d = .rdmacm01 → ∀ x, heap x → x = none)
    (hs : Has (.client n) [] (At m n .idle) s) :
    Wp heap m (.client n) (Leaves m fun _ => ClientDone n) (clientMain d ip) s := by
  unfold clientMain
  refine wp_quiet kept_at hs rfl trivial ?_
  rintro (_ | ec) _ s hok hlive hs
  · exact wp_dies hok
  obtain ⟨-, rfl⟩ := add_eq_some.mp hlive
  rw [nonNull, ret_bind]
  refine wp_quiet kept_at hs rfl (by simp [Call.Safe]) ?_
  rintro (_ | conn) _ s hok hlive hs
  · exact wp_dies hok
  obtain ⟨-, rfl⟩ := add_eq_some.mp hlive
  rw [stored, ret_bind]
  refine wp_quiet kept_at hs rfl trivial fun _ _ s _ hlive hs => ?_
  cases hlive
  refine wp_quiet kept_at hs rfl trivial ?_
  rintro (_ | ai) _ s hok hlive hs
  · exact wp_dies hok
  obtain ⟨-, rfl⟩ := add_eq_some.mp hlive
  rw [stored, ret_bind]
  refine wp_calls kept_at hs (by simp [Call.Safe]) (fun t ht _ => ht.knows.active rfl) ?_
  rintro (_ | _) t s ht - he
  swap
  · exact wp_dies fun hm => he.succeeds hm
  have hs := ht.starts (b := .resolvingAddr) rfl rfl rfl he (fun _ => rfl) (fun _ => rfl)
    fun x hx => by simp [Conn.clientCall, hx]
  rw [zero, ret_bind]
  refine wp_quiet kept_at hs rfl (by simp [Call.Safe]) fun _ objs s _ hlive hs => ?_
  obtain rfl : objs = [⟨.channel ec, []⟩, ⟨.id conn, [.channel ec]⟩] := by
    rw [← Option.some.inj hlive]
    simp [destroy, Busy]
  refine wp_then (wp_clientExpect rfl hs (by simp) (by simp) (by simp [Plain])) fun _ s hs _ => ?_
  refine wp_calls kept_at hs (by simp [Call.Safe]) (fun t ht _ => ht.knows.active rfl) ?_
  rintro (_ | _) t s ht - he
  swap
  · exact wp_dies fun hm => he.succeeds hm
  have hs := ht.starts (b := .resolvingRoute) rfl rfl rfl he (fun _ => rfl) (fun _ => rfl)
    fun x hx => by simp [Conn.clientCall, hx, Active.reached]
  rw [zero, ret_bind]
  refine wp_then (wp_clientExpect rfl hs (by simp) (by simp) (by simp [Plain])) fun _ s hs _ => ?_
  refine wp_then (wp_setupConnection kept_at hs (by simp) hfine) fun nc s hs _ => ?_
  refine wp_quiet kept_at hs rfl trivial fun _ _ s _ hlive hs => ?_
  cases hlive
  refine wp_calls kept_at hs (by simp [Call.Safe]) (fun t ht _ => ht.knows.active rfl) ?_
  rintro (_ | _) t s ht - he
  swap
  · exact wp_dies fun hm => he.succeeds hm
  have hs := ht.starts (b := .connecting) rfl rfl rfl he (fun _ => rfl) (fun _ => rfl)
    fun x hx => by simp [Conn.clientCall, hx, Active.reached]
  rw [zero, ret_bind]
  refine wp_then (wp_clientExpect rfl hs (by simp) ?_ ?_) fun _ s hs _ => ?_
  · simpa using nc.no_event
  · simpa [Plain] using nc.plain
  split
  · refine wp_then (wp_runLoop kept_at hs (by simp) (by simp [Connected.objects])
      (fun t ht => at_connected.mp ht) fun _ _ _ ht he => ht.stays he) fun _ s hs _ => ?_
    exact wp_clientEnd hs
  · exact wp_clientEnd hs

end RdmaTutorial.Establish
