import Mathlib.Data.List.Basic
import Mathlib.Data.List.Induction
import Mathlib.Data.List.TakeWhile

/-!
# C strings in fixed-size byte buffers

`cstr bs` is the string a C program reads at the start of `bs`: the bytes
before the first NUL. `scan` is the copying loop of `strcpy`, byte by byte: it
moves everything up to and including the first NUL, and `none` says the loop
ran past the last byte without meeting one (the C program then reads memory
it does not own).

A `Buffer n` is a block of exactly `n` bytes; a write overwrites a prefix and
leaves the rest of the block as it was. `Accessed` is the same loop index by
index, in a memory that has no end: `inside_iff` says when it stays in the block.
-/

namespace CString

/-- The C string at the start of `bs`. -/
def cstr (bs : List UInt8) : List UInt8 := bs.takeWhile (· != 0)

/-- Some byte of `bs` is NUL, so that a C string ends inside it. -/
def Terminated (bs : List UInt8) : Prop := 0 ∈ bs

instance (bs : List UInt8) : Decidable (Terminated bs) :=
  inferInstanceAs (Decidable (0 ∈ bs))

/-- The bytes `strcpy` moves out of `bs`, the final NUL included. -/
def scan : List UInt8 → Option (List UInt8)
  | [] => none
  | b :: bs => if b = 0 then some [0] else (scan bs).map (b :: ·)

theorem scan_of_terminated {bs : List UInt8} (h : Terminated bs) :
    scan bs = some (cstr bs ++ [0]) := by
  induction bs with
  | nil => simp [Terminated] at h
  | cons b bs ih =>
    by_cases hb : b = 0
    · simp [scan, cstr, hb]
    · have hbs : Terminated bs := by
        simpa [Terminated, Ne.symm hb] using h
      simp only [scan, if_neg hb, ih hbs, Option.map_some]
      simp [cstr, hb]

theorem terminated_of_scan {bs ys : List UInt8} (h : scan bs = some ys) : Terminated bs := by
  induction bs generalizing ys with
  | nil => simp [scan] at h
  | cons b bs ih =>
    by_cases hb : b = 0
    · simp [Terminated, hb]
    · simp only [scan, if_neg hb, Option.map_eq_some_iff] at h
      obtain ⟨zs, hz, -⟩ := h
      exact List.mem_cons_of_mem _ (ih hz)

theorem zero_notMem_cstr (bs : List UInt8) : 0 ∉ cstr bs := by
  intro h
  have := List.mem_takeWhile_imp h
  simp at this

/-- A NUL put behind a string ends it there. -/
theorem cstr_append_zero {s : List UInt8} (hs : 0 ∉ s) (rest : List UInt8) :
    cstr (s ++ 0 :: rest) = s := by
  induction s with
  | nil => simp [cstr]
  | cons b s ih =>
    simp only [List.mem_cons, not_or] at hs
    have hb : b ≠ 0 := Ne.symm hs.1
    simpa [cstr, hb] using ih hs.2

/-- What follows the first NUL does not belong to the string. -/
theorem cstr_append_of_terminated {p : List UInt8} (hp : Terminated p) (rest : List UInt8) :
    cstr (p ++ rest) = cstr p := by
  induction p with
  | nil => simp [Terminated] at hp
  | cons b p ih =>
    by_cases hb : b = 0
    · simp [cstr, hb]
    · have hp' : Terminated p := by simpa [Terminated, Ne.symm hb] using hp
      have hih := ih hp'
      simp only [cstr] at hih
      simp [cstr, hb, hih]

theorem length_cstr_lt {bs : List UInt8} (h : Terminated bs) :
    (cstr bs).length < bs.length := by
  induction bs with
  | nil => simp [Terminated] at h
  | cons b bs ih =>
    by_cases hb : b = 0
    · simp [cstr, hb]
    · have hbs : Terminated bs := by simpa [Terminated, Ne.symm hb] using h
      have := ih hbs
      simp only [cstr] at this
      simp [cstr, hb, this]

/-! ## The copying loop, access by access -/

/-- A read of a byte of the source, or a write of a byte of the destination. -/
inductive Access where
  | read (i : Nat)
  | write (i : Nat)
  deriving DecidableEq, Repr

def Access.index : Access → Nat
  | .read i => i
  | .write i => i

/-- What `strcpy` accesses when `mem` is the memory from the source on: it reads
a byte, writes it, and goes on unless it was NUL. -/
inductive Accessed (mem : Nat → UInt8) : Access → Prop where
  | start : Accessed mem (.read 0)
  | write {i} (h : Accessed mem (.read i)) : Accessed mem (.write i)
  | next {i} (h : Accessed mem (.write i)) (hb : mem i ≠ 0) : Accessed mem (.read (i + 1))

/-- It gets as far as no byte in front is NUL. -/
theorem accessed_iff {mem : Nat → UInt8} {x : Access} :
    Accessed mem x ↔ ∀ j < x.index, mem j ≠ 0 := by
  constructor
  · intro h
    induction h with
    | start => intro j hj; cases hj
    | write h ih => exact ih
    | @next i h hb ih =>
      intro j hj
      by_cases hji : j = i
      · exact hji ▸ hb
      · exact ih j (Nat.lt_of_le_of_ne (Nat.le_of_lt_succ hj) hji)
  · intro h
    have hread : ∀ i, (∀ j < i, mem j ≠ 0) → Accessed mem (.read i) := by
      intro i hi
      induction i with
      | zero => exact .start
      | succ i ih =>
        have hprev := ih fun j hj => hi j (Nat.lt_succ_of_lt hj)
        exact .next (.write hprev) (hi i (Nat.lt_succ_self i))
    cases x with
    | read i => exact hread i h
    | write i => exact .write (hread i h)

/-! ## Two blocks under the same writes -/

/-- Writes of the same bytes to the first `k` bytes have turned `s` into `b`
and `s'` into `b'`. -/
structure Covered (k : Nat) (s s' b b' : List UInt8) : Prop where
  same : b.take k = b'.take k
  left : b.drop k = s.drop k
  right : b'.drop k = s'.drop k

namespace Covered

variable {k : Nat} {s s' b b' : List UInt8}

theorem start (s s' : List UInt8) : Covered 0 s s' s s' := ⟨rfl, rfl, rfl⟩

/-- What is not covered decides whether the blocks are the same. -/
theorem drop_eq (h : Covered k s s' b b') (he : b = b') : s.drop k = s'.drop k := by
  rw [← h.left, ← h.right, he]

theorem eq_of_drop (h : Covered k s s' b b') {m : Nat} (hm : m ≤ k)
    (hd : s.drop m = s'.drop m) : b = b' := by
  have hdrop : s.drop k = s'.drop k := by
    obtain ⟨d, rfl⟩ := Nat.exists_eq_add_of_le hm
    rw [← List.drop_drop, ← List.drop_drop, hd]
  rw [← List.take_append_drop k b, ← List.take_append_drop k b', h.same, h.left, h.right, hdrop]

theorem write (h : Covered k s s' b b') (p : List UInt8) :
    Covered (max k p.length) s s' (p ++ b.drop p.length) (p ++ b'.drop p.length) := by
  have hrest : (b.drop p.length).take (max k p.length - p.length) =
      (b'.drop p.length).take (max k p.length - p.length) := by
    rw [show max k p.length - p.length = k - p.length by omega, ← List.drop_take,
      ← List.drop_take, h.same]
  have hdrop : ∀ {c t : List UInt8}, c.drop k = t.drop k →
      (p ++ c.drop p.length).drop (max k p.length) = t.drop (max k p.length) := by
    intro c t hc
    obtain ⟨d, hd⟩ := Nat.exists_eq_add_of_le (Nat.le_max_left k p.length)
    rw [List.drop_append, List.drop_eq_nil_of_le (Nat.le_max_right k p.length), List.nil_append,
      List.drop_drop]
    rw [show p.length + (max k p.length - p.length) = k + d by omega, hd, ← List.drop_drop, hc,
      List.drop_drop]
  refine ⟨?_, hdrop h.left, hdrop h.right⟩
  rw [List.take_append, List.take_append, hrest]

end Covered

/-! ## Buffers -/

/-- A block of exactly `n` bytes. -/
structure Buffer (n : Nat) where
  bytes : List UInt8
  length_eq : bytes.length = n
  deriving DecidableEq

namespace Buffer

variable {n : Nat}

/-- The block every byte of which is `b`. -/
def fill (n : Nat) (b : UInt8) : Buffer n := ⟨List.replicate n b, by simp⟩

/-- Overwrites the first bytes of the block with `p`; what of `p` does not
fit is not written. -/
def write (b : Buffer n) (p : List UInt8) : Buffer n :=
  ⟨p.take n ++ b.bytes.drop p.length, by
    have := b.length_eq
    simp only [List.length_append, List.length_take, List.length_drop]
    omega⟩

theorem write_bytes (b : Buffer n) {p : List UInt8} (hp : p.length ≤ n) :
    (b.write p).bytes = p ++ b.bytes.drop p.length := by
  simp [write, List.take_of_length_le hp]

theorem cstr_write (b : Buffer n) {p : List UInt8} (hp : p.length ≤ n) (ht : Terminated p) :
    cstr (b.write p).bytes = cstr p := by
  rw [write_bytes b hp, cstr_append_of_terminated ht]

theorem terminated_write (b : Buffer n) {p : List UInt8} (hp : p.length ≤ n)
    (ht : Terminated p) : Terminated (b.write p).bytes := by
  rw [write_bytes b hp]
  exact List.mem_append_left _ ht

/-- `strcpy(dst, src)`: `none` when no byte of `src` is NUL, so that the
loop would leave both blocks. -/
def strcpy (dst src : Buffer n) : Option (Buffer n) :=
  (scan src.bytes).map dst.write

theorem strcpy_of_terminated (dst : Buffer n) {src : Buffer n} (h : Terminated src.bytes) :
    strcpy dst src = some (dst.write (cstr src.bytes ++ [0])) := by
  simp [strcpy, scan_of_terminated h]

theorem terminated_of_strcpy {dst src d : Buffer n} (h : strcpy dst src = some d) :
    Terminated src.bytes := by
  simp only [strcpy, Option.map_eq_some_iff] at h
  obtain ⟨ys, hy, -⟩ := h
  exact terminated_of_scan hy

/-- A string with its NUL is no longer than the block it ends in. -/
theorem length_string_le {b : Buffer n} (h : Terminated b.bytes) :
    (cstr b.bytes ++ [0]).length ≤ n := by
  have hlt := length_cstr_lt h
  rw [b.length_eq] at hlt
  rw [List.length_append, List.length_singleton]
  exact hlt

/-- `strcpy` writes the string and its NUL, and nothing behind. -/
theorem strcpy_bytes {dst src d : Buffer n} (h : strcpy dst src = some d) :
    d.bytes = (cstr src.bytes ++ [0]) ++ dst.bytes.drop (cstr src.bytes ++ [0]).length := by
  have ht := terminated_of_strcpy h
  rw [strcpy_of_terminated dst ht, Option.some.injEq] at h
  rw [← h, write_bytes dst (length_string_le ht)]

/-- After a `strcpy` that stays inside the blocks, the destination holds the
source's string. -/
theorem strcpy_spec {dst src d : Buffer n} (h : strcpy dst src = some d) :
    cstr d.bytes = cstr src.bytes ∧ Terminated d.bytes := by
  have ht := terminated_of_strcpy h
  rw [strcpy_of_terminated dst ht, Option.some.injEq] at h
  subst h
  refine ⟨?_, terminated_write dst (length_string_le ht) (by simp [Terminated])⟩
  rw [cstr_write dst (length_string_le ht) (by simp [Terminated])]
  exact cstr_append_zero (zero_notMem_cstr _) []

/-- `sprintf(dst, ..)` of a text `s` without NUL: the text and its NUL, when
they fit. -/
def print (dst : Buffer n) (s : List UInt8) : Option (Buffer n) :=
  if s.length < n then some (dst.write (s ++ [0])) else none

theorem print_spec {dst d : Buffer n} {s : List UInt8} (hs : 0 ∉ s)
    (h : print dst s = some d) : cstr d.bytes = s ∧ Terminated d.bytes := by
  simp only [print] at h
  split at h
  · rename_i hlt
    cases h
    have hlen : (s ++ [0]).length ≤ n := by
      simp only [List.length_append, List.length_singleton]
      omega
    refine ⟨?_, terminated_write dst hlen (by simp [Terminated])⟩
    rw [cstr_write dst hlen (by simp [Terminated])]
    exact cstr_append_zero hs []
  · cases h

/-- `snprintf(dst, n, ..)` of a text `s` without NUL: as much of the text as
fits, and a NUL. -/
def snprint (dst : Buffer n) (s : List UInt8) : Buffer n := dst.write (s.take (n - 1) ++ [0])

theorem prefix_write (b : Buffer n) {p : List UInt8} (hp : p.length ≤ n) :
    p <+: (b.write p).bytes := by
  rw [write_bytes b hp]
  exact List.prefix_append _ _

theorem prefix_snprint (dst : Buffer n) {s : List UInt8} (hs : s.length < n) :
    s ++ [0] <+: (dst.snprint s).bytes := by
  rw [snprint, List.take_of_length_le (by omega)]
  refine prefix_write dst ?_
  rw [List.length_append, List.length_singleton]
  exact hs

/-- The string in a block that starts with `s` and a NUL. -/
theorem cstr_of_prefix {b : Buffer n} {s : List UInt8} (hs : 0 ∉ s) (h : s ++ [0] <+: b.bytes) :
    cstr b.bytes = s := by
  obtain ⟨rest, hrest⟩ := h
  rw [← hrest, List.append_assoc, List.singleton_append, cstr_append_zero hs]

/-- The block is the first `n` bytes of `mem`. -/
def Within (b : Buffer n) (mem : Nat → UInt8) : Prop := ∀ i < n, b.bytes[i]? = some (mem i)

/-- `strcpy` from the block accesses no index behind it, whatever is there. -/
def Inside (b : Buffer n) : Prop := ∀ mem, b.Within mem → ∀ x, Accessed mem x → x.index < n

theorem inside_iff (b : Buffer n) : b.Inside ↔ Terminated b.bytes := by
  constructor
  · intro h
    by_contra hnot
    have hwithin : b.Within fun i => b.bytes[i]?.getD 1 := by
      intro i hi
      have hlt : i < b.bytes.length := b.length_eq.symm ▸ hi
      simp [List.getElem?_eq_getElem hlt]
    -- No byte of the block stops the loop, so it reads the one behind.
    have hread : Accessed (fun i => b.bytes[i]?.getD 1) (.read n) := by
      refine accessed_iff.mpr fun j hj h0 => hnot ?_
      have hget := hwithin j hj
      simp only [h0] at hget
      exact List.mem_of_getElem? hget
    exact Nat.lt_irrefl n (h _ hwithin _ hread)
  · intro h mem hmem x hx
    obtain ⟨k, hk⟩ := List.mem_iff_getElem?.mp h
    have hkn : k < n := b.length_eq ▸ (List.getElem?_eq_some_iff.mp hk).1
    have hnul : mem k = 0 := by
      rw [hmem k hkn] at hk
      exact Option.some.inj hk
    by_contra hle
    exact accessed_iff.mp hx k (by omega) hnul

/-- `strcpy` as one step fails exactly when the loop leaves the block. -/
theorem strcpy_isSome_iff (dst src : Buffer n) : (strcpy dst src).isSome ↔ src.Inside := by
  rw [inside_iff]
  constructor
  · intro h
    obtain ⟨d, hd⟩ := Option.isSome_iff_exists.mp h
    exact terminated_of_strcpy hd
  · intro h
    simp [strcpy_of_terminated dst h]

/-! ## One write after another -/

def writeAll (b : Buffer n) (ps : List (List UInt8)) : Buffer n := ps.foldl write b

/-- The byte at `i` behind the writes: that of the last one long enough, or
the one that was there first. -/
def latest (b : Buffer n) (ps : List (List UInt8)) (i : Nat) : Option UInt8 :=
  match ps.reverse.find? (i < ·.length) with
  | some p => p[i]?
  | none => b.bytes[i]?

@[simp] theorem writeAll_nil (b : Buffer n) : b.writeAll [] = b := rfl

@[simp] theorem writeAll_singleton (b : Buffer n) (p : List UInt8) :
    b.writeAll [p] = b.write p := rfl

theorem writeAll_append (b : Buffer n) (ps qs : List (List UInt8)) :
    b.writeAll (ps ++ qs) = (b.writeAll ps).writeAll qs := List.foldl_append ..

theorem getElem?_write (b : Buffer n) (p : List UInt8) {i : Nat} (hi : i < n) :
    (b.write p).bytes[i]? = if i < p.length then p[i]? else b.bytes[i]? := by
  simp only [write]
  by_cases hp : i < p.length
  · rw [if_pos hp, List.getElem?_append_left (by simp; omega), List.getElem?_take, if_pos hi]
  · have hle : p.length ≤ i := Nat.le_of_not_lt hp
    rw [if_neg hp, List.take_of_length_le (by omega), List.getElem?_append_right hle,
      List.getElem?_drop, Nat.add_sub_cancel' hle]

theorem getElem?_writeAll (b : Buffer n) (ps : List (List UInt8)) {i : Nat} (hi : i < n) :
    (b.writeAll ps).bytes[i]? = b.latest ps i := by
  induction ps using List.reverseRecOn with
  | nil => rfl
  | append_singleton ps p ih =>
    rw [writeAll_append, writeAll_singleton, getElem?_write _ _ hi, ih]
    simp only [latest, List.reverse_append, List.reverse_singleton, List.singleton_append,
      List.find?_cons]
    by_cases hp : i < p.length <;> simp [hp]

theorem terminated_writeAll_iff (b : Buffer n) (ps : List (List UInt8)) :
    Terminated (b.writeAll ps).bytes ↔ ∃ i < n, b.latest ps i = some 0 := by
  constructor
  · intro h
    obtain ⟨i, hi⟩ := List.mem_iff_getElem?.mp h
    have hin : i < n := (b.writeAll ps).length_eq ▸ (List.getElem?_eq_some_iff.mp hi).1
    exact ⟨i, hin, by rw [← getElem?_writeAll b ps hin, hi]⟩
  · rintro ⟨i, hin, hi⟩
    rw [← getElem?_writeAll b ps hin] at hi
    exact List.mem_of_getElem? hi

end Buffer

end CString
