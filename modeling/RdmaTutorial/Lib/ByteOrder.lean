import Mathlib.Algebra.Group.Nat.Defs
import Mathlib.Data.List.Basic
import Mathlib.Tactic.Common

/-!
# Byte order

A number of `n` bytes in the memory of a host, least or most significant byte
first. What a program stores behind `hton` has the same bytes on every host
(`store_hton`), and what it loads it takes back with `ntoh` (`ntoh_load`).
-/

namespace ByteOrder

inductive Endian where
  | little
  | big
  deriving DecidableEq, Repr

/-- The `n` low bytes of `v`, least significant first. -/
def bytesLE : Nat → Nat → List UInt8
  | 0, _ => []
  | n + 1, v => UInt8.ofNat v :: bytesLE n (v / 256)

def ofBytesLE : List UInt8 → Nat
  | [] => 0
  | b :: bs => b.toNat + 256 * ofBytesLE bs

@[simp] theorem length_bytesLE (n v : Nat) : (bytesLE n v).length = n := by
  induction n generalizing v with
  | zero => rfl
  | succ n ih => simp [bytesLE, ih]

theorem ofBytesLE_bytesLE {n v : Nat} (h : v < 256 ^ n) : ofBytesLE (bytesLE n v) = v := by
  induction n generalizing v with
  | zero =>
    have hv : v = 0 := by simpa using h
    simp [bytesLE, ofBytesLE, hv]
  | succ n ih =>
    have hq : v / 256 < 256 ^ n := by
      rw [Nat.pow_succ] at h
      exact Nat.div_lt_of_lt_mul (by omega)
    have hb : (UInt8.ofNat v).toNat = v % 256 := by simp
    simp only [bytesLE, ofBytesLE, ih hq, hb]
    omega

theorem bytesLE_ofBytesLE (bs : List UInt8) : bytesLE bs.length (ofBytesLE bs) = bs := by
  induction bs with
  | nil => rfl
  | cons b bs ih =>
    have hb : b.toNat < 256 := b.toNat_lt
    have hlow : UInt8.ofNat (b.toNat + 256 * ofBytesLE bs) = b := by
      apply UInt8.toNat_inj.mp
      simp only [UInt8.toNat_ofNat']
      omega
    have hhigh : (b.toNat + 256 * ofBytesLE bs) / 256 = ofBytesLE bs := by omega
    simp only [ofBytesLE, List.length_cons, bytesLE, hlow, hhigh, ih]

theorem ofBytesLE_lt (bs : List UInt8) : ofBytesLE bs < 256 ^ bs.length := by
  induction bs with
  | nil => simp [ofBytesLE]
  | cons b bs ih =>
    have hb : b.toNat < 256 := b.toNat_lt
    simp only [ofBytesLE, List.length_cons, Nat.pow_succ]
    omega

/-- The bytes of a number of `n` bytes in the memory of a host. -/
def store (e : Endian) (n v : Nat) : List UInt8 :=
  match e with
  | .little => bytesLE n v
  | .big => (bytesLE n v).reverse

/-- The number a host finds in these bytes. -/
def load (e : Endian) (bs : List UInt8) : Nat :=
  match e with
  | .little => ofBytesLE bs
  | .big => ofBytesLE bs.reverse

/-- The bytes of the number the other way round. -/
def bswap (n v : Nat) : Nat := ofBytesLE (bytesLE n v).reverse

/-- `htonl`, `htons`; also `ntohl`, `ntohs`. -/
def hton (e : Endian) (n v : Nat) : Nat :=
  match e with
  | .little => bswap n v
  | .big => v

@[simp] theorem length_store (e : Endian) (n v : Nat) : (store e n v).length = n := by
  cases e <;> simp [store]

theorem load_lt (e : Endian) (bs : List UInt8) : load e bs < 256 ^ bs.length := by
  cases e with
  | little => exact ofBytesLE_lt bs
  | big => simpa [load] using ofBytesLE_lt bs.reverse

theorem load_store (e : Endian) {n v : Nat} (h : v < 256 ^ n) : load e (store e n v) = v := by
  cases e <;> simp [load, store, ofBytesLE_bytesLE h]

theorem bswap_lt (n v : Nat) : bswap n v < 256 ^ n := by
  simpa [bswap] using ofBytesLE_lt (bytesLE n v).reverse

theorem hton_lt (e : Endian) {n v : Nat} (h : v < 256 ^ n) : hton e n v < 256 ^ n := by
  cases e with
  | little => exact bswap_lt n v
  | big => exact h

/-- What is stored behind `hton` does not depend on the host. -/
theorem store_hton (e : Endian) (n v : Nat) : store e n (hton e n v) = store .big n v := by
  cases e with
  | little =>
    have hback := bytesLE_ofBytesLE (bytesLE n v).reverse
    rw [List.length_reverse, length_bytesLE] at hback
    exact hback
  | big => rfl

/-- Nor does what `ntoh` makes of what is loaded. -/
theorem ntoh_load (e : Endian) (bs : List UInt8) :
    hton e bs.length (load e bs) = load .big bs := by
  cases e with
  | little => simp only [hton, load, bswap, bytesLE_ofBytesLE]
  | big => rfl

end ByteOrder
