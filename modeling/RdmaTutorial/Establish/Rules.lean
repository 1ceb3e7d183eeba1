import RdmaTutorial.Establish.Setup
import RdmaTutorial.Establish.Sharing

/-!
# Rules for the two programs

What a process holds is a list of objects, and what it knows of the network an
assertion that the others keep (`Kept`). There is one rule for a call that is no
business of the network, one for an event that is expected, and
`setup_connection` is lifted from the process by itself.
-/

namespace RdmaTutorial.Establish

open Objects Program

variable {heap : Option Nat → Bool} {m : Mode} {p : Party} {objs : List (Object Held)}
  {A : Net → Prop} {s : Net}

/-- Neither the others nor the process, by what is no business of the network,
take the assertion away. -/
structure Kept (m : Mode) (p : Party) (A : Net → Prop) : Prop where
  rely : ∀ s t, A s → Net.Rely m p s t → A t
  quiet : ∀ s t, A s → t.conns = s.conns → t.peers = s.peers → t.listening = s.listening →
    (t.proc p).queue = (s.proc p).queue → A t

structure Has (p : Party) (objs : List (Object Held)) (A : Net → Prop) (s : Net) : Prop where
  live : (s.proc p).live = objs
  knows : A s

abbrev Wp (heap : Option Nat → Bool) (m : Mode) (p : Party) {α : Type}
    (Q : Except String α → Net → Prop) (prog : Prog α) (s : Net) : Prop :=
  prog.wp ((network heap m).world p) (Net.Valid m) (Net.Rely m p) Q s

/-- Where nothing fails, no program exits. -/
def Leaves {α : Type} (m : Mode) (Q : α → Net → Prop) : Except String α → Net → Prop
  | .ok a, s => Q a s
  | .error _, _ => m = none

theorem Net.Rely.live {t : Net} (h : Net.Rely m p s t) : (t.proc p).live = (s.proc p).live := by
  cases p with
  | server => exact Net.ServerRely.live h
  | client n => exact Net.ClientRely.live h

theorem Has.rely (hA : Kept m p A) {t : Net} (hs : Has p objs A s) (h : Net.Rely m p s t) :
    Has p objs A t := ⟨h.live.trans hs.live, hA.rely s t hs.knows h⟩

theorem Conn.clientCall_quiet {x : Conn} {c : Call} {r : c.Answer} (h : c.quiet = true) :
    x.clientCall c r = some x := by
  cases c <;> first | rfl | cases h

theorem Call.serverId_quiet {c : Call} (h : c.quiet = true) : c.serverId = none := by
  cases c <;> first | rfl | cases h

theorem queueAfter_quiet {queue : List (CmEventType × Id)} {c : Call} {r : c.Answer}
    (h : c.quiet = true) : queueAfter queue c r = some queue := by
  unfold queueAfter
  split
  · cases h
  · rfl

theorem listeningAfter_quiet {listening : Option Id} {c : Call} {r : c.Answer}
    (h : c.quiet = true) : listeningAfter listening c r = listening := by
  cases c <;> first | rfl | cases h

theorem Net.Ready.of_quiet {c : Call} (h : c.quiet = true) : s.Ready m p c := by
  cases p <;> cases c <;> trivial

/-- A quiet call changes what its process holds, and nothing else. -/
theorem Net.Effect.quiet {t : Net} {c : Call} {r : c.Answer} (h : Net.Effect heap m p s c r t)
    (hquiet : c.quiet = true) : t.conns = s.conns ∧ t.listening = s.listening ∧
      (t.proc p).queue = (s.proc p).queue := by
  refine ⟨?_, ?_, ?_⟩
  · have hconns := h.conns
    cases p with
    | client n =>
      simp only [Net.connAfter, Conn.clientCall_quiet hquiet, Option.map_some,
        Option.some.injEq] at hconns
      rw [← hconns, Function.update_eq_self]
    | server =>
      simp only [Net.connAfter, Call.serverId_quiet hquiet, Option.bind_none,
        Option.some.injEq] at hconns
      exact hconns.symm
  · rw [h.listening, listeningAfter_quiet hquiet, ite_self]
  · have hqueue := h.queue
    rw [queueAfter_quiet hquiet] at hqueue
    exact (Option.some.inj hqueue).symm

theorem Net.Effect.succeeds {t : Net} {c : Call} {r : c.Answer}
    (h : Net.Effect heap m p s c r t) (hm : m ≠ none) : c.succeeds r = true := by
  obtain ⟨n, hn⟩ := Option.ne_none_iff_exists'.mp hm
  exact (h.admits n hn).1

theorem Has.quiet (hA : Kept m p A) {t : Net} {c : Call} {r : c.Answer} (hs : Has p objs A s)
    (h : Net.Effect heap m p s c r t) (hquiet : c.quiet = true) :
    liveAfter heap objs c r = some (t.proc p).live ∧ A t := by
  obtain ⟨hconns, hlistening, hqueue⟩ := h.quiet hquiet
  exact ⟨hs.live ▸ h.live, hA.quiet s t hs.knows hconns h.peers hlistening hqueue⟩

/-- A call, from what the process holds and knows. -/
theorem wp_calls (hA : Kept m p A) {α : Type} {Q : Except String α → Net → Prop} {c : Call}
    {f : c.Answer → Prog α} (hs : Has p objs A s) (hsafe : c.Safe objs)
    (hready : ∀ t, Has p objs A t → Net.Valid m t → t.Ready m p c)
    (hf : ∀ r t u, Has p objs A t → Net.Valid m t → Net.Effect heap m p t c r u →
      Wp heap m p Q (f r) u) : Wp heap m p Q (call c >>= f) s :=
  wp_call hs (fun _ _ ht hu _ => ht.rely hA hu)
    (fun t ht hI => ⟨ht.live ▸ hsafe, hready t ht hI⟩)
    fun t r u ht hI hu => hf r t u ht hI (.of_effect hu)

/-- A call that makes and releases nothing. -/
theorem Has.calls {B : Net → Prop} {t : Net} {c : Call} {r : c.Answer} (hs : Has p objs A s)
    (h : Net.Effect heap m p s c r t) (hlive : ∀ o, liveAfter heap o c r = some o) (ht : B t) :
    Has p objs B t :=
  ⟨(Option.some.inj ((hlive _).symm.trans h.live)).symm.trans hs.live, ht⟩

/-- A call that is no business of the network. -/
theorem wp_quiet (hA : Kept m p A) {α : Type} {Q : Except String α → Net → Prop} {c : Call}
    {f : c.Answer → Prog α} (hs : Has p objs A s) (hquiet : c.quiet = true)
    (hsafe : c.Safe objs)
    (hf : ∀ r objs' t, (m ≠ none → c.succeeds r = true) → liveAfter heap objs c r = some objs' →
      Has p objs' A t → Wp heap m p Q (f r) t) :
    Wp heap m p Q (call c >>= f) s := by
  refine wp_calls hA hs hsafe (fun _ _ _ => .of_quiet hquiet) fun r t u ht _ he => ?_
  obtain ⟨hlive, hAu⟩ := ht.quiet hA he hquiet
  exact hf r _ u (fun hm => he.succeeds hm) hlive ⟨rfl, hAu⟩

/-- A program ends that holds what it promised. -/
theorem wp_done (hA : Kept m p A) {α : Type} {Q : α → Net → Prop} {a : α}
    (hs : Has p objs A s) (hQ : ∀ t, Has p objs A t → Q a t) :
    Wp heap m p (Leaves m Q) (.ret a) s :=
  fun t ht _ => hQ t (hs.rely hA ht)

theorem wp_dies {α : Type} {Q : α → Net → Prop} {e : String} (hm : m ≠ none → false = true) :
    Wp heap m p (Leaves m Q) (.exit e : Prog α) s :=
  fun _ _ _ => by_contra fun h => Bool.false_ne_true (hm h)

/-- One program behind another that leaves only where something fails. -/
theorem wp_then {α β : Type} {P : α → Net → Prop} {Q : β → Net → Prop} {prog : Prog α}
    {f : α → Prog β} (h : Wp heap m p (Leaves m P) prog s)
    (hf : ∀ a t, P a t → Net.Valid m t → Wp heap m p (Leaves m Q) (f a) t) :
    Wp heap m p (Leaves m Q) (prog >>= f) s :=
  wp_bind h hf fun _ _ hm => hm

theorem wp_logs (hA : Kept m p A) (texts : List String) (hs : Has p objs A s) :
    Wp heap m p (Leaves m fun _ => Has p objs A) (texts.forM log) s := by
  induction texts generalizing s with
  | nil => exact wp_done hA hs fun _ => id
  | cons text texts ih =>
    refine wp_quiet hA hs rfl trivial fun r objs' t _ hlive ht => ?_
    cases hlive
    exact ih ht

/-- `setup_connection`, as it runs by itself. -/
theorem wp_setupConnection (hA : Kept m p A) {d : Directory} {id : Id} (hs : Has p objs A s)
    (hid : IsLive objs (.id id)) (hfine : d = .rdmacm01 → ∀ x, heap x → x = none) :
    Wp heap m p (Leaves m fun nc => Has p (objs ++ nc.objects) A) (setupConnection d id) s := by
  obtain ⟨rfl, hknows⟩ := hs
  have hlift := wp_lift (V := process heap m.isSome) (W := (network heap m).world p)
    (I := Net.Valid m) (E := Net.Rely m p) (v := fun s => (s.proc p).live) (A := A)
    (fun t u ht hu _ => ⟨hA.rely t u ht hu, hu.live⟩)
    (fun t c _ _ hc => ⟨hc.2, .of_quiet hc.1⟩)
    (fun t c r u ht _ hc hu => by
      have he := Net.Effect.of_effect hu
      obtain ⟨hlive, hAu⟩ := Has.quiet hA ⟨rfl, ht⟩ he hc.1
      refine ⟨?_, hAu⟩
      simp only [process]
      rw [if_pos fun hm => he.succeeds (Option.isSome_iff_ne_none.mp hm), hlive])
    hknows (alone_setupConnection hid hfine)
  refine wp_mono (fun o t h => ?_) hlift
  cases o with
  | ok nc => exact ⟨h.2.1, h.1⟩
  | error e => exact Option.isNone_iff_eq_none.mp (Option.isSome_eq_false_iff.mp h.2.1)

theorem wp_runLoop (hA : Kept m p A) {id : Id} {nc : Nc} (hs : Has p objs A s)
    (hid : IsLive objs (.id id)) (hnc : IsLive objs (.conn nc))
    (hready : ∀ t, A t → t.Ready m p (.loop id nc))
    (hkeep : ∀ t u (r : Option String), A t → Net.Effect heap m p t (.loop id nc) r u → A u) :
    Wp heap m p (Leaves m fun _ => Has p objs A) (runLoop id nc) s := by
  refine wp_calls hA hs ⟨hid, hnc⟩ (fun t ht _ => hready t ht.knows) ?_
  rintro (_ | reason) t u ht - he
  · exact wp_done hA (ht.calls he (fun _ => rfl) (hkeep t u none ht.knows he)) fun _ hx => hx
  · exact wp_dies fun hm => he.succeeds hm

/-! ## Ids -/

/-- An id on which nothing is built goes, whether or not the program looks at what
the call returns. -/
theorem wp_destroyId (hA : Kept m p A) {α : Type} {Q : Except String α → Net → Prop}
    {l l' : List (Object Held)} {id : Id} {uses : List Held} {f : Result → Prog α}
    (hs : Has p (l ++ ⟨.id id, uses⟩ :: l') A s)
    (hother : ∀ o ∈ l ++ l', o.handle ≠ .id id) (hfree : ∀ o ∈ l ++ l', .id id ∉ o.uses)
    (hself : .id id ∉ uses)
    (hkeep : ∀ t u (r : Result), A t → Net.Effect heap m p t (.destroyId id) r u → A u)
    (hf : ∀ r t, Has p (l ++ l') A t → Wp heap m p Q (f r) t) :
    Wp heap m p Q (call (.destroyId id) >>= f) s := by
  have hidle := not_busy_middle hfree hself
  refine wp_calls hA hs ⟨by simp [isLive_append], hidle⟩ (fun t _ _ => ?_) fun r t u ht _ he => ?_
  · cases p <;> trivial
  have hlive := he.live
  rw [ht.live] at hlive
  refine hf r u ⟨?_, hkeep t u r ht.knows he⟩
  cases r with
  | ok => rw [← Option.some.inj hlive, destroy_middle hother hfree hself]
  | fail =>
    simp only [liveAfter] at hlive
    rw [if_neg hidle] at hlive
    cases hlive

/-- What belongs to a connection is no id and no channel, nor built on one. -/
theorem Connected.foreign (nc : Connected) {h : Held} (hverbs : ∀ v, h ≠ .verbs v)
    (hconn : ∀ a, h ≠ .conn a) {o : Object Held} (ho : o ∈ nc.objects) :
    o.handle ≠ h ∧ h ∉ o.uses := by
  rcases List.mem_cons.mp ho with rfl | ho
  · exact ⟨(hconn nc.nc).symm, by simp⟩
  · obtain ⟨v, -, rfl⟩ := List.mem_map.mp ho
    refine ⟨(hverbs v.handle).symm, fun hmem => ?_⟩
    obtain ⟨u, -, hu⟩ := List.mem_map.mp hmem
    exact hverbs u hu.symm

/-! ## Events -/

/-- Nothing is built on an event. -/
def Plain (objs : List (Object Held)) : Prop := ∀ o ∈ objs, ∀ a, Held.event a ∉ o.uses

theorem Connected.plain (nc : Connected) : Plain nc.objects :=
  fun _ ho _ => (nc.foreign (by simp) (by simp) ho).2

theorem Connected.no_event (nc : Connected) (a : Nat) : ¬IsLive nc.objects (.event a) :=
  fun ⟨_, ho, hoa⟩ => (nc.foreign (by simp) (by simp) ho).1 hoa

/-- What an event brings with it. -/
def brought (exp : CmEventType) (ec : Nat) (id : Id) : List (Object Held) :=
  if exp = .connectRequest then [⟨.id id, [.channel ec]⟩] else []

@[simp] theorem brought_connectRequest (ec : Nat) (id : Id) :
    brought .connectRequest ec id = [⟨.id id, [.channel ec]⟩] := rfl

@[simp] theorem brought_established (ec : Nat) (id : Id) : brought .established ec id = [] := rfl

/-- The event that is fetched stands first. -/
theorem Net.Effect.fetched {t : Net} {ec : Nat} {e : Fetched}
    (h : Net.Effect heap m p s (.getCmEvent ec) (some e) t) :
    (s.proc p).queue = (e.event, e.id) :: (t.proc p).queue ∧ t.conns = s.conns ∧
      t.listening = s.listening := by
  refine ⟨?_, ?_, ?_⟩
  · have hqueue := h.queue
    simp only [queueAfter] at hqueue
    split at hqueue
    · cases hqueue
    · rename_i first rest hfull
      split at hqueue
      · rename_i hfirst
        rw [hfull, hfirst, Option.some.inj hqueue]
      · cases hqueue
  · have hconns := h.conns
    cases p with
    | client n =>
      simp only [Net.connAfter, Conn.clientCall, Option.map_some, Option.some.injEq] at hconns
      rw [← hconns, Function.update_eq_self]
    | server => exact (Option.some.inj hconns).symm
  · rw [h.listening]
    exact ite_self _

/-- What a fetched event leaves of the objects: the event, and what it brings. -/
theorem liveAfter_fetched {ec : Nat} {e : Fetched} {t : List (Object Held)}
    (h : liveAfter heap objs (.getCmEvent ec) (some e) = some t) :
    t = objs ++ brought e.event ec e.id ++ [⟨.event e.addr, [.channel ec, .id e.id]⟩] ∧
      ¬IsLive (objs ++ brought e.event ec e.id) (.event e.addr) ∧
        (e.event = .connectRequest → ¬IsLive objs (.id e.id)) := by
  simp only [liveAfter, Option.bind_eq_some_iff] at h
  obtain ⟨mid, hmid, hadd⟩ := h
  obtain ⟨hlive, rfl⟩ := add_eq_some.mp hadd
  by_cases hreq : e.event = .connectRequest
  · rw [if_pos hreq] at hmid
    obtain ⟨hid, rfl⟩ := add_eq_some.mp hmid
    rw [brought, if_pos hreq]
    exact ⟨rfl, hlive, fun _ => hid⟩
  · rw [if_neg hreq] at hmid
    cases hmid
    rw [brought, if_neg hreq, List.append_nil]
    exact ⟨rfl, hlive, fun hc => absurd hc hreq⟩

/-- **An event that is expected.** The program goes on only if the first event is
of that type, and holds no event then. -/
theorem wp_expect (hA : Kept m p A) {B : Id → Net → Prop} (hB : ∀ id, Kept m p (B id))
    {ec : Nat} {exp : CmEventType} {before after : List String} (hs : Has p objs A s)
    (hec : IsLive objs (.channel ec)) (hnone : ∀ a, ¬IsLive objs (.event a))
    (hplain : Plain objs)
    (hready : ∀ t, Has p objs A t → Net.Valid m t → t.Ready m p (.getCmEvent ec))
    (hfetch : ∀ t u e id, A t → Net.Valid m t → (∀ n ∈ m, p = .server ∨ p = .client n) →
      (t.proc p).queue = (e, id) :: (u.proc p).queue → u.conns = t.conns → u.peers = t.peers →
      u.listening = t.listening → (e = exp → B id u) ∧ (e ≠ exp → m = none)) :
    Wp heap m p (Leaves m fun id t => Has p (objs ++ brought exp ec id) (B id) t ∧
      (exp = .connectRequest → ¬IsLive objs (.id id))) (expect ec exp before after) s := by
  refine wp_calls hA hs ⟨hec, hnone⟩ hready fun r t u ht hI he => ?_
  cases r with
  | none => exact wp_dies fun hm => he.succeeds hm
  | some e =>
    obtain ⟨hqueue, hconns, hlistening⟩ := he.fetched
    obtain ⟨hlive, hevent, hid⟩ := liveAfter_fetched (ht.live ▸ he.live)
    obtain ⟨hB', hother⟩ :=
      hfetch t u e.event e.id ht.knows hI (fun n hn => (he.admits n hn).2) hqueue hconns he.peers
        hlistening
    show Wp heap m p _ (do
      checkCmEvent e exp
      before.forM log
      let _ ← call (.ackCmEvent e.addr)
      after.forM log
      return e.id) u
    by_cases heq : e.event = exp
    · rw [checkCmEvent, if_pos heq, ret_bind]
      rw [heq] at hlive hevent hid
      have hBu : Has p _ (B e.id) u := ⟨hlive, hB' heq⟩
      have hfree : ∀ o ∈ objs ++ brought exp ec e.id ++ [], .event e.addr ∉ o.uses := by
        intro o ho
        rw [List.append_nil] at ho
        rcases List.mem_append.mp ho with ho | ho
        · exact hplain o ho e.addr
        · unfold brought at ho
          split at ho
          · obtain rfl := List.mem_singleton.mp ho
            simp
          · cases ho
      refine wp_then (wp_logs (hB e.id) before hBu) fun _ v hv _ => ?_
      refine wp_quiet (hB e.id) hv rfl ?_ fun _ objs' w _ hobjs hw => ?_
      · exact ⟨by simp [isLive_append], not_busy_middle hfree (by simp)⟩
      have hother : ∀ o ∈ objs ++ brought exp ec e.id ++ [], o.handle ≠ .event e.addr :=
        fun o ho heq => hevent ⟨o, by simpa using ho, heq⟩
      have hacked : objs' = objs ++ brought exp ec e.id := by
        rw [← Option.some.inj hobjs, destroy_middle hother hfree (by simp), List.append_nil]
      subst hacked
      refine wp_then (wp_logs (hB e.id) after hw) fun _ v hv _ => ?_
      exact wp_done (hB e.id) hv fun _ hx => ⟨hx, hid⟩
    · rw [checkCmEvent, if_neg heq]
      refine wp_quiet (A := fun _ => True) ⟨fun _ _ _ _ => trivial, fun _ _ _ _ _ _ _ => trivial⟩
        ⟨hlive, trivial⟩ rfl trivial fun _ _ _ _ _ _ => ?_
      exact wp_dies fun hm => absurd (hother heq) hm

end RdmaTutorial.Establish
