import Mathlib.Data.Nat.Digits.Lemmas
import RdmaTutorial.Lib.ByteOrder

/-!
# Hexadecimal digits

A number that is read from bytes in network order is printed, with zeros in
front, as these bytes one after another (`format_load`); so the text tells the
bytes (`bytes_injective`).
-/

namespace Hex

open ByteOrder

/-- The `k` low digits of `v`, least significant first. -/
def low : Nat → Nat → List Nat
  | 0, _ => []
  | k + 1, v => v % 16 :: low k (v / 16)

theorem low_zero (k : Nat) : low k 0 = List.replicate k 0 := by
  induction k with
  | zero => rfl
  | succ k ih => rw [low, Nat.zero_mod, Nat.zero_div, ih, List.replicate_succ]

/-- The digits of `v`, with zeros behind. -/
theorem digits_append {k v : Nat} (h : v < 16 ^ k) :
    Nat.digits 16 v ++ List.replicate (k - (Nat.digits 16 v).length) 0 = low k v := by
  induction k generalizing v with
  | zero =>
    have hv : v = 0 := by simpa using h
    simp [hv, low]
  | succ k ih =>
    by_cases hv : v = 0
    · simp [hv, low_zero]
    · have hq : v / 16 < 16 ^ k := by
        rw [Nat.pow_succ] at h
        exact Nat.div_lt_of_lt_mul (by omega)
      rw [Nat.digits_eq_cons_digits_div (by decide) hv, low, ← ih hq, List.length_cons,
        Nat.add_sub_add_right, List.cons_append]

/-- `%0kx`: at least `k` digits, with zeros in front. -/
def format (k v : Nat) : List Char := ((Nat.digits 16 v).reverse.map Nat.digitChar).leftpad k '0'

theorem format_eq {k v : Nat} (h : v < 16 ^ k) :
    format k v = (low k v).reverse.map Nat.digitChar := by
  rw [← digits_append h, List.reverse_append, List.map_append, format, List.leftpad]
  simp [Nat.digitChar]

/-- The two digits of a byte. -/
def byte (b : UInt8) : List Char := [Nat.digitChar (b.toNat / 16), Nat.digitChar (b.toNat % 16)]

theorem low_ofBytesLE (bs : List UInt8) : low (2 * bs.length) (ofBytesLE bs) =
    bs.flatMap fun b => [b.toNat % 16, b.toNat / 16] := by
  induction bs with
  | nil => rfl
  | cons b bs ih =>
    have hb : b.toNat < 256 := b.toNat_lt
    have hlow : (b.toNat + 256 * ofBytesLE bs) % 16 = b.toNat % 16 := by omega
    have hhigh : (b.toNat + 256 * ofBytesLE bs) / 16 % 16 = b.toNat / 16 := by omega
    have hrest : (b.toNat + 256 * ofBytesLE bs) / 16 / 16 = ofBytesLE bs := by omega
    show low (2 * bs.length + 2) (b.toNat + 256 * ofBytesLE bs) = _
    rw [low, low, hlow, hhigh, hrest, ih]
    rfl

/-- What is read in network order is printed byte by byte. -/
theorem format_load (bs : List UInt8) :
    format (2 * bs.length) (load .big bs) = bs.flatMap byte := by
  have hlt : load .big bs < 16 ^ (2 * bs.length) := by
    rw [Nat.pow_mul]
    exact load_lt .big bs
  have hlow := low_ofBytesLE bs.reverse
  rw [List.length_reverse] at hlow
  rw [format_eq hlt, load, hlow, List.reverse_flatMap, List.reverse_reverse, List.map_flatMap]
  rfl

theorem byte_injective {b c : UInt8} (h : byte b = byte c) : b = c := by
  have hdigit : ∀ x < 16, ∀ y < 16, Nat.digitChar x = Nat.digitChar y → x = y := by decide
  have hb : b.toNat < 256 := b.toNat_lt
  have hc : c.toNat < 256 := c.toNat_lt
  simp only [byte, List.cons.injEq] at h
  have hhigh := hdigit _ (by omega) _ (by omega) h.1
  have hlow := hdigit _ (by omega) _ (by omega) h.2.1
  apply UInt8.toNat_inj.mp
  omega

/-- The text tells the bytes. -/
theorem bytes_injective {bs cs : List UInt8} (h : bs.flatMap byte = cs.flatMap byte) : bs = cs := by
  induction bs generalizing cs with
  | nil =>
    cases cs with
    | nil => rfl
    | cons c cs => simp [byte] at h
  | cons b bs ih =>
    cases cs with
    | nil => simp [byte] at h
    | cons c cs =>
      rw [List.flatMap_cons, List.flatMap_cons] at h
      obtain ⟨hbyte, hrest⟩ := List.append_inj h rfl
      rw [byte_injective hbyte, ih hrest]

end Hex
