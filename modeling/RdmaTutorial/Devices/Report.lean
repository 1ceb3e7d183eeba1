import RdmaTutorial.Devices.World

/-!
# What example01 and example02 print

Whatever the host has and whichever of its calls fail, each program prints what
`Host.listing` and `Host.report` say, uses a device only while the list that
names it is alive, and in the end holds nothing, but for a context whose
`ibv_close_device` has failed.
-/

namespace RdmaTutorial.Devices

open ByteOrder Objects Program

/-! ## What there is to print -/

namespace Host

variable (h : Host)

/-- The line of a device. -/
def line (dev : Nat) : String :=
  deviceLine h.endian (h.device dev).name (load h.endian (h.device dev).guid)

def listing : List String :=
  match h.devices with
  | none => []
  | some devs => header ++ devs.map h.line

/-- The device that `argv[1]` names. -/
def find (ibDevName : String) : Option Nat :=
  h.devices.bind fun devs => devs.find? fun dev => (h.device dev).name = ibDevName

/-- The `n` ports from `port` on, up to the first that does not answer. -/
def portLines (dev port n : Nat) : List String :=
  let answered := (List.range' port n).takeWhile fun p => ((h.device dev).port p).isSome
  (answered.flatMap fun p => (((h.device dev).port p).map (portText p)).getD []) ++
    if answered.length < n then [portFailed (port + answered.length)] else []

def attrLines (dev : Nat) : List String :=
  match (h.device dev).attr with
  | none => ["Failed to query device props\n"]
  | some attr =>
    attrText (h.device dev).transportType attr ++ h.portLines dev 1 attr.physPortCnt.toNat

def deviceLines (dev : Nat) : List String :=
  header ++ [h.line dev] ++
    if (h.device dev).opens then
      h.attrLines dev ++ if (h.device dev).closes then [] else ["Failed to close device\n"]
    else []

def report (ibDevName : String) : List String :=
  if h.devices = none then ["Failed to get IB device list"]
  else ((h.find ibDevName).map h.deviceLines).getD []

/-- The status of both programs. -/
def status : Int := if h.devices = none then -1 else 0

/-- The device is open in the end. -/
def StaysOpen (ibDevName : String) : Prop :=
  ∃ dev, h.find ibDevName = some dev ∧ (h.device dev).opens = true ∧ (h.device dev).closes = false

end Host

/-! ## Rules -/

variable {h : Host} {α β : Type} {s t : State} {objs : List (Object Held)} {out : List String}

/-- The weakest precondition on this host. -/
abbrev Shows (h : Host) (Q : Except String α → State → Prop) (p : Prog α) (s : State) : Prop :=
  p.wp h.world (fun _ => True) Eq Q s

/-- The program returns `a` and leaves `t`. -/
abbrev Gives (h : Host) (p : Prog α) (s : State) (a : α) (t : State) : Prop :=
  Shows h (fun o u => o = .ok a ∧ u = t) p s

theorem gives_ret (a : α) (s : State) : Gives h (.ret a) s a s := wp_alone_ret.mpr ⟨rfl, rfl⟩

theorem shows_call {Q : Except String α → State → Prop} {c : Call} {f : c.Answer → Prog α}
    (hsafe : c.Safe objs)
    (hf : ∀ r objs', h.says c r = true → liveAfter objs c r = some objs' →
      Shows h Q (f r) ⟨objs', out ++ c.prints⟩) : Shows h Q (call c >>= f) ⟨objs, out⟩ := by
  refine wp_alone_call.mpr ⟨hsafe, fun r t ht => ?_⟩
  simp only [Host.world] at ht
  split at ht
  · rename_i hsays
    obtain ⟨objs', hobjs, rfl⟩ := Option.map_eq_some_iff.mp ht
    exact hf r objs' hsays hobjs
  · cases ht

theorem shows_then {Q : Except String β → State → Prop} {p : Prog α} {f : α → Prog β} {a : α}
    (hp : Gives h p s a t) (hf : Shows h Q (f a) t) : Shows h Q (p >>= f) s := by
  refine wp_bind hp (fun b u hu _ => ?_) fun e u hu => ?_
  · obtain ⟨hb, rfl⟩ := hu
    cases hb
    exact hf
  · cases hu.1

theorem gives_printf (text : String) :
    Gives h (printf text) ⟨objs, out⟩ () ⟨objs, out ++ [text]⟩ := by
  refine wp_alone_call.mpr ⟨trivial, fun r t ht => ?_⟩
  cases ht
  exact gives_ret () _

theorem gives_prints (texts : List String) (out : List String) :
    Gives h (texts.forM printf) ⟨objs, out⟩ () ⟨objs, out ++ texts⟩ := by
  induction texts generalizing out with
  | nil => simpa using gives_ret () ⟨objs, out⟩
  | cons text texts ih =>
    have hrest := ih (out ++ [text])
    rw [List.append_assoc, List.singleton_append] at hrest
    exact shows_then (gives_printf text) hrest

theorem agrees_iff {γ : Type} [DecidableEq γ] {a b : γ} : agrees a b = true ↔ a = b := by
  simp [agrees]

/-! ## The parts -/

theorem gives_showGuid {dev : Nat} (hdev : Names objs dev) (out : List String) :
    Gives h (showGuid h.endian dev) ⟨objs, out⟩ () ⟨objs, out ++ [h.line dev]⟩ := by
  refine shows_call hdev fun name objs' hname hlive => ?_
  cases hlive
  refine shows_call hdev fun guid objs' hguid hlive => ?_
  cases hlive
  obtain rfl := agrees_iff.mp hname
  obtain rfl := agrees_iff.mp hguid
  simp only [Call.prints, List.append_nil]
  exact gives_printf (h.line dev)

/-- Each device of a list has its line. -/
theorem gives_showGuids {devs : List Nat} (hdevs : ∀ dev ∈ devs, Names objs dev)
    (out : List String) : Gives h (devs.forM (showGuid h.endian)) ⟨objs, out⟩ ()
      ⟨objs, out ++ devs.map h.line⟩ := by
  induction devs generalizing out with
  | nil => simpa using gives_ret () ⟨objs, out⟩
  | cons dev devs ih =>
    have hrest := ih (fun d hd => hdevs d (List.mem_cons_of_mem dev hd)) (out ++ [h.line dev])
    rw [List.append_assoc, List.singleton_append] at hrest
    exact shows_then (gives_showGuid (hdevs dev List.mem_cons_self) out) hrest

theorem gives_findDevice (ibDevName : String) {devs : List Nat}
    (hdevs : ∀ dev ∈ devs, Names objs dev) (out : List String) :
    Gives h (findDevice ibDevName devs) ⟨objs, out⟩
      (devs.find? fun dev => (h.device dev).name = ibDevName) ⟨objs, out⟩ := by
  induction devs with
  | nil => exact gives_ret none _
  | cons dev devs ih =>
    refine shows_call (hdevs dev List.mem_cons_self) fun name objs' hname hlive => ?_
    cases hlive
    obtain rfl := agrees_iff.mp hname
    have hrest := ih fun d hd => hdevs d (List.mem_cons_of_mem dev hd)
    by_cases heq : (h.device dev).name = ibDevName
    · simpa [heq, Call.prints] using gives_ret (h := h) (some dev) ⟨objs, out⟩
    · simpa [heq, Call.prints] using hrest

theorem Host.portLines_zero (dev port : Nat) : h.portLines dev port 0 = [] := rfl

theorem Host.portLines_none {dev port n : Nat} (hport : (h.device dev).port port = none) :
    h.portLines dev port (n + 1) = [portFailed port] := by
  simp [portLines, List.range'_succ, hport]

theorem Host.portLines_some {dev port n : Nat} {attr : PortAttr}
    (hport : (h.device dev).port port = some attr) :
    h.portLines dev port (n + 1) = portText port attr ++ h.portLines dev (port + 1) n := by
  simp [portLines, List.range'_succ, hport, Nat.add_assoc, Nat.add_comm 1]

/-- The loop over the ports ends at the first that does not answer. -/
theorem gives_showPorts {ctx : Context} (hctx : IsLive objs (.context ctx)) (n : Nat) :
    ∀ (port : Nat) (out : List String), Gives h (showPorts ctx port n) ⟨objs, out⟩ ()
      ⟨objs, out ++ h.portLines ctx.device port n⟩ := by
  induction n with
  | zero =>
    intro port out
    rw [Host.portLines_zero, List.append_nil]
    exact gives_ret () _
  | succ n ih =>
    intro port out
    refine shows_call hctx fun attr objs' hattr hlive => ?_
    cases hlive
    have hport := agrees_iff.mp hattr
    simp only [Call.prints, List.append_nil]
    cases attr with
    | none =>
      rw [Host.portLines_none hport]
      exact gives_printf _
    | some attr =>
      rw [Host.portLines_some hport, ← List.append_assoc]
      exact shows_then (gives_prints _ out) (ih (port + 1) _)

theorem gives_showAttr {dev : Nat} {ctx : Context} (hdev : Names objs dev)
    (hctx : IsLive objs (.context ctx)) (hof : ctx.device = dev) (out : List String) :
    Gives h (showAttr dev ctx) ⟨objs, out⟩ () ⟨objs, out ++ h.attrLines dev⟩ := by
  subst hof
  refine shows_call hctx fun attr objs' hattr hlive => ?_
  cases hlive
  have hsays := agrees_iff.mp hattr
  simp only [Call.prints, List.append_nil, Host.attrLines, hsays]
  cases attr with
  | none => exact gives_printf _
  | some attr =>
    refine shows_call hdev fun transport objs' htransport hlive => ?_
    cases hlive
    obtain rfl := agrees_iff.mp htransport
    simp only [Call.prints, List.append_nil, ← List.append_assoc]
    exact shows_then (gives_prints _ out) (gives_showPorts hctx _ 1 _)

/-! ## The programs -/

/-- What is alive of the device behind the label `close`: its context, where
`ibv_close_device` has failed. -/
def Left (h : Host) (dev : Nat) (objs : List (Object Held)) : Prop :=
  ((h.device dev).opens = true ∧ (h.device dev).closes = false ∧ ∃ c, objs = [⟨.context c, []⟩]) ∨
    (((h.device dev).opens = false ∨ (h.device dev).closes = true) ∧ objs = [])

theorem shows_showDevice {l : DeviceList} {dev : Nat} (hdev : dev ∈ l.devices)
    (out : List String) :
    Shows h (fun o t => o = .ok () ∧ t.out = out ++ h.deviceLines dev ∧
      ∃ left, t.objs = ⟨.list l, []⟩ :: left ∧ Left h dev left)
      (showDevice h.endian dev) ⟨[⟨.list l, []⟩], out⟩ := by
  have hnames : Names [⟨.list l, []⟩] dev := ⟨l, by simp, hdev⟩
  refine shows_then (gives_prints header out) (shows_then (gives_showGuid hnames _) ?_)
  refine shows_call hnames fun ctx objs' hopens hlive => ?_
  have hsays := agrees_iff.mp hopens
  simp only [Call.prints, List.append_nil]
  cases ctx with
  | none =>
    cases hlive
    have hopens : (h.device dev).opens = false := hsays
    refine wp_alone_ret.mpr ⟨rfl, ?_, [], rfl, .inr ⟨.inl hopens, rfl⟩⟩
    simp [Host.deviceLines, hopens]
  | some ctx =>
    have hopens : (h.device dev).opens = true := hsays
    simp only [liveAfter] at hlive
    split at hlive
    · rename_i hof
      obtain ⟨-, rfl⟩ := add_eq_some.mp hlive
      have hnames' : Names ([⟨.list l, []⟩] ++ [⟨.context ctx, []⟩]) dev := ⟨l, by simp, hdev⟩
      refine shows_then (gives_showAttr hnames' (by simp) hof _) ?_
      refine shows_call ⟨by simp, by simp [Busy]⟩ fun r objs' hr hlive => ?_
      have hcloses := agrees_iff.mp hr
      rw [hof] at hcloses
      simp only [Call.prints, List.append_nil]
      cases r with
      | ok =>
        have hc : (h.device dev).closes = true := by
          by_contra hc
          simp [hc] at hcloses
        obtain rfl : objs' = [⟨.list l, []⟩] := by
          rw [← Option.some.inj hlive]
          exact destroy_middle (l := [_]) (by simp) (by simp) (by simp)
        refine wp_alone_ret.mpr ⟨rfl, ?_, [], rfl, .inr ⟨.inr hc, rfl⟩⟩
        simp [Host.deviceLines, hopens, hc]
      | fail =>
        have hc : (h.device dev).closes = false := by
          by_contra hc
          simp [hc] at hcloses
        cases hlive
        refine wp_mono ?_ (gives_printf _)
        rintro o t ⟨ho, rfl⟩
        refine ⟨ho, ?_, [⟨.context ctx, []⟩], rfl, .inl ⟨hopens, hc, ctx, rfl⟩⟩
        simp [Host.deviceLines, hopens, hc]
    · cases hlive

theorem shows_example01 : Gives h (example01Main h.endian) ⟨[], []⟩ h.status
    ⟨[], h.listing⟩ := by
  refine shows_call trivial fun list objs' hlist hlive => ?_
  have hdevices := agrees_iff.mp hlist
  simp only [Call.prints, List.append_nil]
  cases list with
  | none =>
    cases hlive
    have hnone : h.devices = none := hdevices
    refine shows_call trivial fun _ _ _ hlive => ?_
    cases hlive
    simpa [Host.status, Host.listing, hnone, Call.prints] using gives_ret (h := h) (-1 : Int) _
  | some l =>
    obtain ⟨-, rfl⟩ := add_eq_some.mp hlive
    have hsome : h.devices = some l.devices := hdevices
    have hnames : ∀ dev ∈ l.devices, Names [⟨.list l, []⟩] dev := fun dev hdev =>
      ⟨l, by simp, hdev⟩
    refine shows_then (gives_prints header []) (shows_then (gives_showGuids hnames _) ?_)
    refine shows_call ⟨by simp, by simp [Busy]⟩ fun _ objs' _ hlive => ?_
    obtain rfl : objs' = [] := by
      rw [← Option.some.inj hlive]
      simp [destroy, Busy]
    simpa [Host.status, Host.listing, hsome, Call.prints] using gives_ret (h := h) (0 : Int) _

/-- What example02 has come to: its status and its output are those of the host,
and it holds nothing, or the context that it could not close. -/
def Reported (h : Host) (ibDevName : String) (o : Except String Int) (t : State) : Prop :=
  o = .ok h.status ∧ t.out = h.report ibDevName ∧
    ((h.StaysOpen ibDevName ∧ ∃ c, t.objs = [⟨.context c, []⟩]) ∨
      (¬h.StaysOpen ibDevName ∧ t.objs = []))

theorem Host.staysOpen_iff {ibDevName : String} {dev : Nat} (hfind : h.find ibDevName = some dev) :
    h.StaysOpen ibDevName ↔ (h.device dev).opens = true ∧ (h.device dev).closes = false := by
  simp [StaysOpen, hfind]

theorem shows_example02 (ibDevName : String) :
    Shows h (Reported h ibDevName) (example02Main h.endian ibDevName) ⟨[], []⟩ := by
  refine shows_call trivial fun list objs' hlist hlive => ?_
  have hdevices := agrees_iff.mp hlist
  simp only [Call.prints, List.append_nil]
  cases list with
  | none =>
    cases hlive
    have hnone : h.devices = none := hdevices
    refine shows_then (gives_printf _) (wp_alone_ret.mpr ⟨?_, ?_, .inr ⟨?_, rfl⟩⟩)
    · simp [Host.status, hnone]
    · simp [Host.report, hnone]
    · simp [Host.StaysOpen, Host.find, hnone]
  | some l =>
    obtain ⟨-, rfl⟩ := add_eq_some.mp hlive
    have hsome : h.devices = some l.devices := hdevices
    have hnames : ∀ dev ∈ l.devices, Names [⟨.list l, []⟩] dev := fun dev hdev =>
      ⟨l, by simp, hdev⟩
    have hfind : h.find ibDevName =
        l.devices.find? fun dev => (h.device dev).name = ibDevName := by
      simp [Host.find, hsome]
    refine shows_then (gives_findDevice ibDevName hnames []) ?_
    rw [← hfind]
    cases hdev : h.find ibDevName with
    | none =>
      refine shows_call ⟨by simp, by simp [Busy]⟩ fun _ objs' _ hlive => ?_
      obtain rfl : objs' = [] := by
        rw [← Option.some.inj hlive]
        simp [destroy, Busy]
      refine wp_alone_ret.mpr ⟨?_, ?_, .inr ⟨?_, rfl⟩⟩
      · simp [Host.status, hsome]
      · simp [Host.report, hsome, hdev, Call.prints]
      · simp [Host.StaysOpen, hdev]
    | some dev =>
      have hmem : dev ∈ l.devices := List.mem_of_find?_eq_some (hfind ▸ hdev)
      refine wp_bind (shows_showDevice hmem []) ?_ ?_
      · rintro _ ⟨objs, out⟩ ⟨-, hout, left, rfl, hleft⟩ -
        refine shows_call ⟨by simp, ?_⟩ fun _ objs' _ hlive => ?_
        · rcases hleft with ⟨-, -, c, rfl⟩ | ⟨-, rfl⟩ <;> simp [Busy]
        obtain rfl : objs' = left := by
          rw [← Option.some.inj hlive]
          rcases hleft with ⟨-, -, c, rfl⟩ | ⟨-, rfl⟩ <;> simp [destroy, Busy]
        refine wp_alone_ret.mpr ⟨?_, ?_, ?_⟩
        · simp [Host.status, hsome]
        · simpa [Host.report, hsome, hdev, Call.prints] using hout
        · rw [Host.staysOpen_iff hdev]
          rcases hleft with ⟨hopens, hcloses, c, rfl⟩ | ⟨hclosed, rfl⟩
          · exact .inl ⟨⟨hopens, hcloses⟩, c, rfl⟩
          · refine .inr ⟨fun hopen => ?_, rfl⟩
            rcases hclosed with hc | hc
            · simp [hopen.1] at hc
            · simp [hopen.2] at hc
      · rintro e t ⟨he, -⟩
        cases he

/-! ## Their runs -/

/-- The host answers each call. -/
theorem Host.answers (h : Host) (s : State) (c : Call) :
    ∃ r t, h.world.effect s c r = some t := by
  suffices hanswer : ∃ r objs, h.says c r = true ∧ liveAfter s.objs c r = some objs by
    obtain ⟨r, objs, hsays, hlive⟩ := hanswer
    exact ⟨r, ⟨objs, s.out ++ c.prints⟩, by simp [Host.world, anyHost, hsays, hlive]⟩
  cases c with
  | getDeviceList =>
    cases hdevices : h.devices with
    | none => exact ⟨(none : Option DeviceList), s.objs, agrees_iff.mpr hdevices, rfl⟩
    | some devs =>
      obtain ⟨a, t, ht⟩ := exists_add s.objs (f := fun a => .list ⟨a, devs⟩)
        (fun _ _ => by simp) []
      exact ⟨some (⟨a, devs⟩ : DeviceList), t, agrees_iff.mpr hdevices, ht⟩
  | openDevice dev =>
    cases hopens : (h.device dev).opens with
    | false => exact ⟨(none : Option Context), s.objs, agrees_iff.mpr hopens, rfl⟩
    | true =>
      obtain ⟨a, t, ht⟩ := exists_add s.objs (f := fun a => .context ⟨a, dev⟩)
        (fun _ _ => by simp) []
      exact ⟨some (⟨a, dev⟩ : Context), t, agrees_iff.mpr hopens, (if_pos rfl).trans ht⟩
  | closeDevice c =>
    cases hcloses : (h.device c.device).closes with
    | true => exact ⟨Result.ok, _, agrees_iff.mpr (by simp [hcloses]), rfl⟩
    | false => exact ⟨Result.fail, _, agrees_iff.mpr (by simp [hcloses]), rfl⟩
  | getDeviceName dev => exact ⟨(h.device dev).name, _, agrees_iff.mpr rfl, rfl⟩
  | getDeviceGuid dev => exact ⟨load h.endian (h.device dev).guid, _, agrees_iff.mpr rfl, rfl⟩
  | transportType dev => exact ⟨(h.device dev).transportType, _, agrees_iff.mpr rfl, rfl⟩
  | queryDeviceEx c => exact ⟨(h.device c.device).attr, _, agrees_iff.mpr rfl, rfl⟩
  | queryPort c port => exact ⟨(h.device c.device).port port, _, agrees_iff.mpr rfl, rfl⟩
  | printf | perror | freeDeviceList | memset | free => exact ⟨(), _, rfl, rfl⟩
  | queryGid => exact ⟨(none : Option Example03.Gid), _, rfl, rfl⟩
  | allocPd | malloc | regMr | createCq | createQp => exact ⟨(none : Option Nat), _, rfl, rfl⟩
  | destroyQp | destroyCq | deregMr | deallocPd => exact ⟨Result.ok, _, rfl, rfl⟩

/-- A run of a program on a host, from the start. -/
abbrev RunsTo (h : Host) (p : Prog Int) (q : Prog Int) (t : State) : Prop :=
  ∃ as, Run.run (step h.world) (p, ⟨[], []⟩) as = some (q, t)

/-- What the weakest precondition says, for every run, one of which comes to the
end. -/
theorem Shows.runs {Q : Except String Int → State → Prop} {p : Prog Int}
    (hp : Shows h Q p ⟨[], []⟩) :
    (∀ q t, RunsTo h p q t → (∀ c, q.next = some c → c.Safe t.objs) ∧
      ∀ o, q.outcome = some o → Q o t) ∧ ∃ q t o, RunsTo h p q t ∧ q.outcome = some o := by
  constructor
  · rintro q t ⟨as, hrun⟩
    have hq := wp_run hp hrun
    exact ⟨fun c hc => wp_allowed hq trivial hc, fun o ho => wp_outcome hq trivial ho⟩
  · obtain ⟨as, q, t, o, hrun, ho⟩ := exists_run hp fun t c _ => h.answers t c
    exact ⟨q, t, o, ⟨as, hrun⟩, ho⟩

/-- **example01.** It prints the header and one line for each device, in the order
of the list, and holds nothing in the end. -/
theorem example01_listing (h : Host) :
    (∀ q t, RunsTo h (example01Main h.endian) q t →
      (∀ c, q.next = some c → c.Safe t.objs) ∧
        ∀ o, q.outcome = some o → o = .ok h.status ∧ t = ⟨[], h.listing⟩) ∧
      ∃ q t o, RunsTo h (example01Main h.endian) q t ∧ q.outcome = some o :=
  Shows.runs shows_example01

/-- **example02.** Whichever calls fail, it prints what the host has to say of the
device, and holds nothing in the end but a context that would not close. -/
theorem example02_report (h : Host) (ibDevName : String) :
    (∀ q t, RunsTo h (example02Main h.endian ibDevName) q t →
      (∀ c, q.next = some c → c.Safe t.objs) ∧
        ∀ o, q.outcome = some o → Reported h ibDevName o t) ∧
      ∃ q t o, RunsTo h (example02Main h.endian ibDevName) q t ∧ q.outcome = some o :=
  Shows.runs (shows_example02 ibDevName)

end RdmaTutorial.Devices
