import RdmaTutorial.Establish.Rely

/-!
# What each process relies on

While a process does not run, the network and the others leave what it holds
alone, and take its connection only where they may. In the mode of one client
more can be said: what a process waits for comes first.
-/

namespace RdmaTutorial.Establish

open Function Objects

namespace Net

variable {heap : Option Nat → Bool} {m : Mode} {s t : Net}

/-- The client's end is at `a` with nothing to fetch, or the event that it waits
for there is the first to fetch, and up to ESTABLISHED the only one. -/
def ClientAt (n : Nat) (a : Active) (s : Net) : Prop :=
  ((s.conns n).active = a ∧ (s.clients n).queue = []) ∨
    ∃ e, a.awaits = some e ∧ ∃ id rest, (s.clients n).queue = (e, id) :: rest ∧
      (a ≠ .connecting → rest = [] ∧ (s.conns n).active = a.reached)

/-- How far the server is with a connection. -/
inductive Stage where
  /-- The server does not listen yet. -/
  | silent
  /-- The request has not been fetched, -/
  | fresh
  /-- it has, -/
  | taken
  /-- and it is accepted, but ESTABLISHED has not been fetched. -/
  | accepted
  deriving DecidableEq, Repr

def ServerAt (k : Nat) (s : Net) : Stage → Prop
  | .silent => (s.conns k).passive = .none ∧ s.server.queue = [] ∧ s.listening = none
  | .fresh => ((s.conns k).passive = .none ∧ s.server.queue = []) ∨
      ((s.conns k).passive = .requested ∧
        ∃ id, s.server.queue = [(.connectRequest, id)] ∧ s.listening ≠ some id)
  | .taken => (s.conns k).passive = .requested ∧ s.server.queue = []
  | .accepted => ((s.conns k).passive = .accepted ∧ s.server.queue = []) ∨
      ∃ id rest, s.server.queue = (.established, id) :: rest

structure ServerRely (m : Mode) (s t : Net) : Prop where
  live : t.server.live = s.server.live
  listening : t.listening = s.listening
  peers : ∀ id n, s.peers id = some n → t.peers id = some n
  answered : ∀ n, (t.conns n).passive.answered = (s.conns n).passive.answered
  up : ∀ n, (s.conns n).active.up = true → (t.conns n).active.up = true
  keeps : ∀ k ∈ m, ∀ st, s.ServerAt k st → t.ServerAt k st

structure ClientRely (m : Mode) (n : Nat) (s t : Net) : Prop where
  live : (t.clients n).live = (s.clients n).live
  drifts : (s.conns n).active.Drifts (t.conns n).active
  keeps : n ∈ m → ∀ a, a.up = false → s.ClientAt n a → t.ClientAt n a

def Rely (m : Mode) : Party → Net → Net → Prop
  | .server => ServerRely m
  | .client n => ClientRely m n

theorem Rely.refl (m : Mode) (p : Party) (s : Net) : Rely m p s s := by
  cases p with
  | server => exact ⟨rfl, rfl, fun _ _ => id, fun _ => rfl, fun _ => id, fun _ _ _ => id⟩
  | client n => exact ⟨rfl, .refl _, fun _ _ _ => id⟩

theorem Rely.trans {p : Party} {u : Net} (h : Rely m p s t) (h' : Rely m p t u) :
    Rely m p s u := by
  cases p with
  | server =>
    exact ⟨h'.live.trans h.live, h'.listening.trans h.listening,
      fun id n hn => h'.peers id n (h.peers id n hn),
      fun n => (h'.answered n).trans (h.answered n), fun n hn => h'.up n (h.up n hn),
      fun k hk st hst => h'.keeps k hk st (h.keeps k hk st hst)⟩
  | client n =>
    exact ⟨h'.live.trans h.live, h.drifts.trans h'.drifts,
      fun hn a ha hs => h'.keeps hn a ha (h.keeps hn a ha hs)⟩

instance (m : Mode) (p : Party) : Std.Refl (Rely m p) := ⟨Rely.refl m p⟩

instance (m : Mode) (p : Party) : IsTrans Net (Rely m p) := ⟨fun _ _ _ => Rely.trans⟩

/-! ## What the others do -/

theorem ClientAt.congr {n : Nat} {a : Active} (h : s.ClientAt n a)
    (hconn : (t.conns n).active = (s.conns n).active)
    (hqueue : (t.clients n).queue = (s.clients n).queue) : t.ClientAt n a := by
  unfold ClientAt at h ⊢
  rwa [hconn, hqueue]

theorem ServerAt.congr {k : Nat} {st : Stage} (h : s.ServerAt k st)
    (hconn : (t.conns k).passive = (s.conns k).passive)
    (hqueue : t.server.queue = s.server.queue) (hlistening : t.listening = s.listening) :
    t.ServerAt k st := by
  cases st with
  | silent | fresh =>
    simp only [ServerAt] at h ⊢
    rwa [hconn, hqueue, hlistening]
  | taken | accepted =>
    simp only [ServerAt] at h ⊢
    rwa [hconn, hqueue]

theorem Effect.rely {p : Party} {c : Call} {r : c.Answer} (h : Effect heap m p s c r t)
    {q : Party} (hq : q ≠ p) : Rely m q s t := by
  have hproc := h.others q hq
  cases q with
  | server =>
    have hpassive : ∀ n, (t.conns n).passive = (s.conns n).passive := by
      intro n
      rcases h.conn n with ⟨-, hx⟩ | ⟨rfl, -⟩ | hx
      · exact hx.passive.2
      · exact absurd rfl hq
      · rw [hx]
    have hlistening : t.listening = s.listening := by rw [h.listening, if_neg (Ne.symm hq)]
    refine ⟨congrArg Local.live hproc, hlistening, fun id n hn => ?_, fun n => ?_,
      fun n => (h.goes n).up,
      fun k _ st hst => hst.congr (hpassive k) (congrArg Local.queue hproc) hlistening⟩
    · rwa [h.peers]
    · rw [hpassive]
  | client n =>
    have hactive : (t.conns n).active = (s.conns n).active := by
      rcases h.conn n with ⟨rfl, -⟩ | ⟨-, hx⟩ | hx
      · exact absurd rfl hq
      · exact hx.active
      · rw [hx]
    refine ⟨congrArg Local.live hproc, ?_,
      fun _ a _ ha => ha.congr hactive (congrArg Local.queue hproc)⟩
    rw [hactive]
    exact .refl _

end Net

/-- A move changes the end of the party it is reported to. -/
theorem Conn.Wired.passive {x y : Conn} {w : Wire} (h : x.Wired w y) (hw : w.toServer = false) :
    y.passive = x.passive := by
  cases h with
  | addr | route | reply | refuse | hangUpClient => rfl
  | request | confirm | abort | hangUpServer => cases hw

theorem Conn.Wired.active {x y : Conn} {w : Wire} (h : x.Wired w y) (hw : w.toServer = true) :
    y.active = x.active := by
  cases h with
  | request | confirm | abort | hangUpServer => rfl
  | addr | route | reply | refuse | hangUpClient => cases hw

namespace Net

variable {heap : Option Nat → Bool} {m : Mode} {s t : Net}

/-- In the mode of one client, what the network does brings what is waited for. -/
theorem ClientAt.wire {n : Nat} {a : Active} {w : Wire} (h : s.ClientAt n a) (ha : a.up = false)
    (hx : (s.conns n).Wired w (t.conns n)) (hw : w.orderly (s.conns n) = true)
    (hreports : s.Reports (w.to n) (w.event, w.names (t.conns n)) t) : t.ClientAt n a := by
  by_cases hto : w.toServer = true
  · refine h.congr (hx.active hto) (congrArg Local.queue (hreports.others (.client n) ?_))
    simp [Wire.to, hto]
  · have hself : w.to n = .client n := by simp [Wire.to, hto]
    have hqueue := hreports.queue
    rw [hself] at hqueue
    simp only [proc] at hqueue
    rcases h with ⟨rfl, hempty⟩ | ⟨e, he, id, rest, hfull, hrest⟩
    · -- Nothing has been reported: this is the event that is waited for.
      rw [hempty] at hqueue
      refine .inr ⟨w.event, ?_, _, [], hqueue, fun _ => ⟨rfl, ?_⟩⟩
      all_goals
        generalize t.conns n = y at hx
        cases hx with
        | addr hx ok | route hx ok => cases hw; simp [hx, Active.awaits, Active.reached, Wire.event]
        | reply _ hx => simp [hx, Active.awaits, Active.reached, Wire.event]
        | refuse => cases hw
        | hangUpClient _ hx => simp [hx, Active.up] at ha
        | request | confirm | abort | hangUpServer => exact absurd rfl hto
    · -- It is in front already, and behind a resolution nothing else comes.
      refine .inr ⟨e, he, id, _, by rw [hqueue, hfull]; rfl, fun hne => ?_⟩
      have hactive := (hrest hne).2
      generalize t.conns n = y at hx
      cases hx with
      | addr hx ok | route hx ok => cases a <;> simp_all [Active.reached]
      | reply _ hx => cases a <;> simp_all [Active.reached]
      | refuse => cases hw
      | hangUpClient _ hx => cases a <;> simp_all [Active.awaits, Active.reached]
      | request | confirm | abort | hangUpServer => exact absurd rfl hto

theorem ServerAt.wire {k : Nat} {st : Stage} {w : Wire} (h : s.ServerAt k st)
    (hadm : s.Admitted w) (hx : (s.conns k).Wired w (t.conns k)) (hw : w.orderly (s.conns k) = true)
    (hreports : s.Reports (w.to k) (w.event, w.names (t.conns k)) t) : t.ServerAt k st := by
  by_cases hto : w.toServer = true
  · have hself : w.to k = .server := by simp [Wire.to, hto]
    have hqueue := hreports.queue
    rw [hself] at hqueue
    simp only [proc] at hqueue
    generalize hy : t.conns k = y at hx hqueue
    cases hx with
    | request _ hnone a =>
      cases st with
      | silent => exact absurd h.2.2 hadm.1
      | fresh =>
        rcases h with ⟨-, hempty⟩ | ⟨hrequested, -⟩
        · refine .inr ⟨by rw [hy], a, ?_, ?_⟩
          · simp [hqueue, hempty, Wire.event, Wire.names, Wire.toServer]
          · rw [hreports.listening]
            exact hadm.2.1
        · simp [hnone] at hrequested
      | taken => simp [ServerAt, hnone] at h
      | accepted =>
        rcases h with ⟨haccepted, -⟩ | ⟨id, rest, hfull⟩
        · simp [hnone] at haccepted
        · exact .inr ⟨id, _, by rw [hqueue, hfull]; rfl⟩
    | confirm _ hpassive =>
      cases st with
      | silent => simp [ServerAt, hpassive] at h
      | fresh => simp [ServerAt, hpassive] at h
      | taken => simp [ServerAt, hpassive] at h
      | accepted =>
        rcases h with ⟨-, hempty⟩ | ⟨id, rest, hfull⟩
        · exact .inr ⟨_, [], by rw [hqueue, hempty]; rfl⟩
        · exact .inr ⟨id, _, by rw [hqueue, hfull]; rfl⟩
    | hangUpServer _ hpassive =>
      have hest : (s.conns k).passive = .established := by
        rcases hpassive with hp | hp
        · simp [Wire.orderly, hp] at hw
        · exact hp
      cases st with
      | silent => simp [ServerAt, hest] at h
      | fresh => simp [ServerAt, hest] at h
      | taken => simp [ServerAt, hest] at h
      | accepted =>
        rcases h with ⟨haccepted, -⟩ | ⟨id, rest, hfull⟩
        · simp [hest] at haccepted
        · exact .inr ⟨id, _, by rw [hqueue, hfull]; rfl⟩
    | abort => cases hw
    | addr | route | reply | refuse | hangUpClient => cases hto
  · refine h.congr (hx.passive (by simpa using hto))
      (congrArg Local.queue (hreports.others .server ?_)) hreports.listening
    simp [Wire.to, hto]

theorem Happens.rely (h : Happens m s t) (q : Party) : Rely m q s t := by
  have hgoes := h.goes
  have hpeers : ∀ id n, s.peers id = some n → t.peers id = some n := fun _ _ hn => h.peers hn
  cases h with
  | wire n w hadm hm hx hconns _ hreports =>
    cases q with
    | server =>
      refine ⟨hreports.live .server, hreports.listening, hpeers, fun k => ?_,
        fun k => (hgoes k).up, fun k hk st hst => ?_⟩
      · by_cases hk : k = n
        · subst hk
          exact hx.answered
        · rw [hconns k hk]
      · obtain ⟨rfl, hw⟩ := hm k hk
        exact hst.wire hadm hx hw hreports
    | client k =>
      refine ⟨hreports.live (.client k), ?_, fun hk a ha hst => ?_⟩
      · by_cases hk : k = n
        · subst hk
          exact hx.drifts
        · rw [hconns k hk]
          exact .refl _
      · obtain ⟨rfl, hw⟩ := hm k hk
        exact hst.wire ha hx hw hreports
  | other p code id hm hcode hconns _ hreports =>
    cases q with
    | server =>
      refine ⟨hreports.live .server, hreports.listening, hpeers, fun k => by rw [hconns],
        fun k => (hgoes k).up, fun k hk => ?_⟩
      subst hm
      cases hk
    | client k =>
      refine ⟨hreports.live (.client k), by rw [hconns]; exact .refl _, fun hk => ?_⟩
      subst hm
      cases hk

/-! ## What a process may do -/

/-- A call fits the connection it is about. An event is waited for only where the
network or the other end owes it: in the mode of one client it will come. -/
def Ready (m : Mode) (s : Net) : Party → Call → Prop
  | .client n, .resolveAddr .. => (s.conns n).active = .idle
  | .client n, .resolveRoute .. => (s.conns n).active = .bound
  | .client n, .getCmEvent _ => n ∈ m → ∃ a, a.awaits ≠ none ∧ s.ClientAt n a
  | .client n, .connect .. => (s.conns n).active = .routed
  | .client n, .loop .. => (s.conns n).active.up = true
  | .client n, .disconnect _ => (s.conns n).active.up = true
  | .server, .accept id _ => (∀ k, (s.conns k).passive.answered = false) ∧
      ∃ n, s.peers id = some n ∧ (s.conns n).passive = .requested
  | .server, .getCmEvent _ =>
    ∀ k ∈ m, (s.listening ≠ none ∧ s.ServerAt k .fresh ∧
      ∀ id, (.connectRequest, id) ∈ s.server.queue → ¬IsLive s.server.live (.id id)) ∨
        s.ServerAt k .accepted
  | .server, .loop id _ => ∃ n, s.peers id = some n ∧ (s.conns n).active.up = true
  | .server, .disconnect id => ∃ n, s.peers id = some n ∧ (s.conns n).active.up = true
  | _, _ => True

end Net

/-- The network as the server and its clients share it. -/
def network (heap : Option Nat → Bool) (m : Mode) :
    Program.Shared Party Call Call.Answer Happening Net where
  world p :=
    { Allowed := fun s c => c.Safe (s.proc p).live ∧ s.Ready m p c
      effect := fun s c r => Net.effect heap m p s c r }
  env := Net.happen m
  Inv := Net.Valid m
  Rely := Net.Rely m
  refl _ := inferInstance
  trans _ := inferInstance
  inv_call p s c _ _ hs hc h := hs.call (.of_effect h) fun hp id param ha => by
    subst hp ha
    exact hc.2.1
  inv_env _ _ _ hs h := hs.happens (.of_happen h)
  rely_call _ _ hq _ _ _ _ _ _ h := (Net.Effect.of_effect h).rely hq
  rely_env p _ _ _ _ h := (Net.Happens.of_happen h).rely p

end RdmaTutorial.Establish
