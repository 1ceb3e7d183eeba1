import RdmaTutorial.Common
import RdmaTutorial.Lib.Objects

/-!
# What the servers hold of libibverbs and librdmacm

The ids and events of librdmacm, and the objects `setup_connection` creates
for a connection (common.c of rdmacm03, rdmacm04 and rdmacm05), with what each
is built on. What the message loops do with them is in `RdmaTutorial.Common`.
-/

namespace RdmaTutorial

open Objects

/-- The address of a `struct rdma_cm_id`. -/
abbrev Id := Nat

/-- `enum rdma_cm_event_type`, as far as the servers tell its values apart. -/
inductive CmEventType where
  | connectRequest
  | established
  | disconnected
  | connectError
  | unreachable
  | rejected
  | other (code : Nat)
  deriving DecidableEq, Repr

/-- An object by its address. -/
inductive Handle where
  | pd (a : Nat)
  | cc (a : Nat)
  | cq (a : Nat)
  | qp (a : Nat)
  | mr (a : Nat)
  /-- A block of `BUFFER_SIZE` bytes. -/
  | buff (a : Nat)
  deriving DecidableEq, Repr

/-- The pointers in a `struct connection` that `setup_connection` has returned.
It returns none that is NULL. -/
structure Handles where
  pd : Nat
  cc : Nat
  cq : Nat
  qp : Nat
  recvBuff : Nat
  sendBuff : Nat
  recvMr : Nat
  sendMr : Nat
  deriving DecidableEq, Repr

namespace Handles

/-- The objects, in the order of their creation. A completion queue is built on
its channel, a queue pair on its domain and its queue, a memory region on its
domain. -/
def objects (h : Handles) : List (Object Handle) :=
  [⟨.pd h.pd, []⟩, ⟨.cc h.cc, []⟩, ⟨.cq h.cq, [.cc h.cc]⟩, ⟨.qp h.qp, [.pd h.pd, .cq h.cq]⟩,
    ⟨.buff h.recvBuff, []⟩, ⟨.buff h.sendBuff, []⟩, ⟨.mr h.recvMr, [.pd h.pd]⟩,
    ⟨.mr h.sendMr, [.pd h.pd]⟩]

/-- The handles of these objects. -/
def all (h : Handles) : List Handle := h.objects.map (·.handle)

/-- Two addresses of one kind are not the same. -/
def Distinct (h : Handles) : Prop := h.recvBuff ≠ h.sendBuff ∧ h.recvMr ≠ h.sendMr

instance (h : Handles) : Decidable h.Distinct := inferInstanceAs (Decidable (_ ∧ _))

theorem mem_all_of_mem {h : Handles} {o : Object Handle} (ho : o ∈ h.objects) :
    o.handle ∈ h.all := List.mem_map_of_mem ho

theorem cc_mem_all (h : Handles) : .cc h.cc ∈ h.all := by simp [all, objects]

theorem nodup_all {h : Handles} (hd : h.Distinct) : h.all.Nodup := by
  simp [all, objects, hd.1, hd.2]

/-- What an object of a connection is built on belongs to the connection. -/
theorem uses_subset {h : Handles} {o : Object Handle} (ho : o ∈ h.objects) : o.uses ⊆ h.all := by
  simp only [objects, List.mem_cons, List.not_mem_nil, or_false] at ho
  rcases ho with rfl | rfl | rfl | rfl | rfl | rfl | rfl | rfl <;> simp [all, objects]

end Handles

end RdmaTutorial
