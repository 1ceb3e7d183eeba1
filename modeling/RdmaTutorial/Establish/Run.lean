import RdmaTutorial.Establish.Client
import RdmaTutorial.Establish.Server

/-!
# The server and its clients together

One server that takes a single connection, and any number of clients. Whatever
fails, and in whatever order the processes, the network and their events go:
each call is made where it may be, and a process that returns has done its part
(`runs_in_order`).
-/

namespace RdmaTutorial.Establish

open Objects Program

/-- The directories whose server takes one connection. -/
abbrev Single := {d : Directory // d = .rdmacm01 ∨ d = .rdmacm03}

/-- The processes, and the calls they still have to make. -/
abbrev System := Parallel Party Call Call.Answer String Unit Net

/-- Client `n` is of the directory `(clients n).1`, and is given the address
`(clients n).2`. -/
def start (d : Single) (clients : Nat → Directory × String) : System where
  rest
    | .server => serverMain d
    | .client n => clientMain (clients n).1 (clients n).2
  world := Net.initial

abbrev System.step (heap : Option Nat → Bool) (m : Mode) :
    System → Move Party Call Call.Answer Happening → Option System :=
  Parallel.step (network heap m).world (network heap m).env

/-- What a process that returns has done. -/
def Done (s : Net) : Party → Prop
  | .server => ServerDone s
  | .client n => ClientDone n s

/-- What `malloc` returns does no harm: it matters only in rdmacm01. -/
def Harmless (heap : Option Nat → Bool) (d : Single) (clients : Nat → Directory × String) : Prop :=
  (d.1 = .rdmacm01 ∨ ∃ n, (clients n).1 = .rdmacm01) → ∀ x, heap x = true → x = none

/-- What the processes promise each other. -/
abbrev System.Keeps (heap : Option Nat → Bool) (m : Mode) (s : System) : Prop :=
  Parallel.Keeps (network heap m) (fun p => Leaves m fun _ s => Done s p) s

variable {heap : Option Nat → Bool} {m : Mode} {d : Single} {clients : Nat → Directory × String}
  {s t : System}

theorem valid_initial : Net.Valid m Net.initial where
  ok _ := by constructor <;> simp [Net.initial, Active.asked, Active.up, Passive.answered]
  peers _ _ := by simp [Net.initial]
  told _ _ he := by simp [Net.initial] at he
  heard _ he := by simp [Net.initial] at he
  fine _ _ := rfl
  alone _ _ _ _ := rfl
  one _ _ hn := by simp [Net.initial, Passive.answered] at hn

theorem keeps_start (hfine : Harmless heap d clients) : System.Keeps heap m (start d clients) where
  inv := valid_initial
  rest
    | .server => by
      refine wp_serverMain (fun hd => hfine (.inl hd)) ⟨rfl, fun _ => rfl, fun _ _ => ?_⟩
      exact ⟨rfl, rfl, rfl⟩
    | .client n => by
      refine wp_clientMain (fun hd => hfine (.inr ⟨n, hd⟩)) ⟨rfl, .refl _, fun _ _ => ?_⟩
      exact .inl ⟨rfl, rfl⟩

theorem keeps_run (hfine : Harmless heap d clients)
    {as : List (Move Party Call Call.Answer Happening)}
    (hr : Run.run (System.step heap m) (start d clients) as = some t) : System.Keeps heap m t :=
  Run.run_invariant (I := System.Keeps heap m) (fun _ _ _ hs hstep => Parallel.Keeps.step hs hstep)
    hr (keeps_start hfine)

/-- The calls of one process, one after another. -/
def calls (p : Party) (as : List ((c : Call) × c.Answer)) :
    List (Move Party Call Call.Answer Happening) := as.map fun a => .call p a.1 a.2

/-- An event is fetched and acknowledged, with what is logged before and behind. -/
def fetching (e : CmEventType) (before after : List String) : List ((c : Call) × c.Answer) :=
  ⟨.getCmEvent 0, some (⟨0, e, 0⟩ : Fetched)⟩ :: before.map (⟨.log ·, ()⟩) ++
    ⟨.ackCmEvent 0, ()⟩ :: after.map (⟨.log ·, ()⟩)

/-- The message loop, and the first calls behind it. -/
def looping : List ((c : Call) × c.Answer) :=
  [⟨.loop 0 0, (none : Option String)⟩, ⟨.disconnect 0, Result.ok⟩, ⟨.destroyId 0, Result.ok⟩]

def settingUp : List ((c : Call) × c.Answer) :=
  upToPostRecv none ++ [⟨.postRecv 0 ⟨none, 0, 1024, 0⟩, Result.ok⟩]

/-- A server and two clients: one finds no memory, the other is served. -/
def oneServed : List (Move Party Call Call.Answer Happening) :=
  calls (.client 1) [⟨.createEventChannel, (none : Option Nat)⟩] ++
  calls .server [⟨.log "create event channel", ()⟩, ⟨.createEventChannel, some (0 : Nat)⟩,
    ⟨.createId 0, some (5 : Nat)⟩, ⟨.getaddrinfo none, some (0 : Nat)⟩,
    ⟨.bindAddr 5 0, Result.ok⟩, ⟨.log "listen begin", ()⟩, ⟨.listen 5 10, Result.ok⟩,
    ⟨.freeaddrinfo 0, ()⟩] ++
  calls (.client 0) [⟨.createEventChannel, some (0 : Nat)⟩, ⟨.createId 0, some (0 : Nat)⟩,
    ⟨.log "created id", ()⟩, ⟨.getaddrinfo (some "::1"), some (0 : Nat)⟩,
    ⟨.resolveAddr 0 0 2000, Result.ok⟩, ⟨.freeaddrinfo 0, ()⟩] ++
  .env (.wire 0 (.addr true)) ::
  calls (.client 0) (fetching addrResolved [] ["addr resolved"] ++
    [⟨.resolveRoute 0 2000, Result.ok⟩]) ++
  .env (.wire 0 (.route true)) ::
  calls (.client 0) (fetching routeResolved [] ["route resolved"] ++ settingUp ++
    [⟨.log "connect to server", ()⟩, ⟨.connect 0 connParam, Result.ok⟩]) ++
  .env (.wire 0 (.request 0)) ::
  calls .server (fetching .connectRequest ["event: CONNECT REQUEST"] [] ++ settingUp ++
    [⟨.accept 0 connParam, Result.ok⟩]) ++
  [.env (.wire 0 .reply), .env (.wire 0 .confirm)] ++
  calls .server (fetching .established ["event: CONNECT ESTABLISHED"] ["Client connected"] ++
    looping ++ [⟨.destroyId 5, Result.ok⟩, ⟨.destroyEventChannel 0, ()⟩]) ++
  calls (.client 0) (fetching .established [] ["enter ESTABLISHED"] ++ looping ++
    [⟨.destroyEventChannel 0, ()⟩])

end RdmaTutorial.Establish
