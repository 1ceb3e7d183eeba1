import RdmaTutorial.Echo.Delivery
import RdmaTutorial.Rdmacm05.Projection

/-!
# rdmacm05: the server as an echo server for any peer

Peers that send what they like when they like. All echoes of a connection go
through its one `send_buff`, and `handle_cq_event` does not wait for the send
before it copies the next message there, so a peer that does not wait for its
echoes may get one message twice and another never (`twoMessages`). As long as
no copy finds an earlier echo unread, every peer gets its own strings back in
the order it sent them.
-/

namespace RdmaTutorial.Rdmacm05

open CString Verbs

/-- What the peers send are messages. -/
def SendsMessages : Action Unit AnyPeer.Action → Prop
  | .peer _ (.send p) => Echo.IsMessage p
  | _ => True

instance : DecidablePred SendsMessages := fun a => by
  unfold SendsMessages
  split <;> infer_instance

/-- When the thread executes `strcpy` in `case IBV_WC_RECV`, every echo posted
before on that connection has been read by the HCA, or `send_buff` holds the
string already that is copied to it. -/
def CopiesInTurn (s : State AnyPeer) (a : Action Unit AnyPeer.Action) : Prop :=
  match s.thread, a with
  | .cqEvent _ (.copy nc _), .server _ =>
    ∀ l ∈ s.links nc, Echo.AwaitsRead l.conn →
      cstr l.conn.recvBuff.bytes = cstr l.conn.sendBuff.bytes
  | _, _ => True

instance (c : Connection) : Decidable (Echo.AwaitsRead c) :=
  inferInstanceAs (Decidable (∃ x ∈ c.ep.sq, x.payload = none))

instance (s : State AnyPeer) (a : Action Unit AnyPeer.Action) : Decidable (CopiesInTurn s a) := by
  unfold CopiesInTurn
  split <;> infer_instance

theorem inTurn_label {s : State AnyPeer} {a : Action Unit AnyPeer.Action} (hs : Tagged s)
    (hmsg : SendsMessages a) (hcopy : CopiesInTurn s a) :
    OnMoves Echo.InTurn s a := by
  rintro ⟨c, b⟩ hl e he
  obtain ⟨l, hlc, rfl⟩ := Option.map_eq_some_iff.mp he
  cases b with
  | copy =>
    obtain ⟨nc, wcs, r, hthread, rfl⟩ := label_copy hl
    have htag := hs.thread
    rw [hthread] at htag
    obtain ⟨-, rfl, -⟩ := htag
    simp only [CopiesInTurn, hthread] at hcopy
    exact hcopy l hlc
  | peer x =>
    obtain rfl := label_peer hl
    cases x <;> exact hmsg
  | _ => trivial

/-- Where every copy is in turn, the strings a peer gets are the first ones it
sent, in the order it sent them, whatever else the server and the other peers
do. -/
theorem echoes_in_order {heap : Nat → Block} {as : List (Action Unit AnyPeer.Action)}
    {s : State AnyPeer}
    (hrun : Run.run (step AnyPeer.peer) (State.initial heap) as = some s)
    (hmsg : ∀ a ∈ as, SendsMessages a)
    (hcopy : Run.Meets (step AnyPeer.peer) CopiesInTurn (State.initial heap) as)
    {c : Nc} {l : Link AnyPeer} (hl : s.links c = some l) :
    l.peer.got.map cstr <+: l.peer.log.map cstr := by
  have hm : Run.Meets (step AnyPeer.peer) (OnMoves Echo.InTurn) (State.initial heap) as :=
    (((Run.Meets.of_forall hmsg).and hcopy).keeping
      (fun s a t hs _ => tagged_step (P := AnyPeer.peer) hs) tagged_initial).mono
      fun s a h => inTurn_label h.1 h.2.1 h.2.2
  have hall := ((projects Echo.InTurn).invariant (I := fun _ e => Echo.Delivery e)
    (fun c e he => ?_) (fun c e b e' he hb hstep => he.step hb (Echo.Step.of_step hstep))
    hrun hm tagged_initial fun c e he => ?_).2
  · exact (hall c _ (view_of_links hl)).inOrder
  · obtain ⟨r, b, x, rfl⟩ := he
    exact Echo.delivery_opened c r b
  · simp [view, State.initial] at he

/-- `"a"` and `"b"`. -/
def msgA : Payload := [97, 0]
def msgB : Payload := [98, 0]

/-- Two messages of one peer. The server echoes the first and receives the
second; `before` and `after` are what happens before and after it copies the
second one; then both echoes are read and delivered. -/
def twoMessages (before after : List (Action Unit AnyPeer.Action)) :
    List (Action Unit AnyPeer.Action) :=
  setUp 7 0 1 () ++
  [.peer 7 .postRecv, .peer 7 .postRecv, .peer 7 (.send msgA), .peer 7 (.send msgB),
    .toServer 7 .recv, .hca 7 .reportRecv, .cqEvent 7, .server .ok, .server .ok,
    .poll 1, .server .ok, .server .ok, .server .ok, .server .ok, .server .ok,
    .toServer 7 .recv, .hca 7 .reportRecv, .poll 1, .server .ok] ++ before ++ [.server .ok] ++
  after ++ [.server .ok, .server .ok, .hca 7 (.read 1), .toPeer 7, .toPeer 7]

theorem echoes_in_order_twoMessages : ∃ s l,
    Run.run (step AnyPeer.peer) (State.initial fun _ => zeros)
      (twoMessages [.hca 7 (.read 0)] []) = some s ∧
      s.links 7 = some l ∧ l.peer.got.map cstr <+: l.peer.log.map cstr := by
  have hrun : ((Run.run (step AnyPeer.peer) (State.initial fun _ => zeros)
      (twoMessages [.hca 7 (.read 0)] [])).bind fun s => s.links 7).isSome := by decide +kernel
  obtain ⟨l, h⟩ := Option.isSome_iff_exists.mp hrun
  obtain ⟨s, hs, hl⟩ := Option.bind_eq_some_iff.mp h
  exact ⟨s, l, hs, hl, echoes_in_order hs (by decide +kernel) (by decide +kernel) hl⟩

/-- The HCA reads the first echo only after the second message has been copied
over it: the peer gets the second message twice. -/
theorem twoMessages_out_of_order : ∃ s l,
    Run.run (step AnyPeer.peer) (State.initial fun _ => zeros)
      (twoMessages [] [.hca 7 (.read 0)]) = some s ∧
      (∀ a ∈ twoMessages [] [.hca 7 (.read 0)], SendsMessages a) ∧ s.links 7 = some l ∧
      ¬ l.peer.got.map cstr <+: l.peer.log.map cstr := by
  have hrun : ((Run.run (step AnyPeer.peer) (State.initial fun _ => zeros)
      (twoMessages [] [.hca 7 (.read 0)])).bind fun s =>
        (s.links 7).map fun l => (l.peer.log.map cstr, l.peer.got.map cstr)) =
      some ([[97], [98]], [[98], [98]]) := by decide +kernel
  obtain ⟨s, hs, h⟩ := Option.bind_eq_some_iff.mp hrun
  obtain ⟨l, hl, hlog⟩ := Option.map_eq_some_iff.mp h
  obtain ⟨hlog, hgot⟩ := Prod.mk.inj hlog
  refine ⟨s, l, hs, by decide +kernel, hl, ?_⟩
  rw [hlog, hgot]
  decide

end RdmaTutorial.Rdmacm05
