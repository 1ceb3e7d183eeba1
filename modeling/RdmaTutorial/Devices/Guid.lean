import RdmaTutorial.Devices.Programs

/-!
# The GUID of a device

example01 and example02 print it behind `be64toh`, byte by byte and alike on every
host. The line `node_guid` of example02 has no `be64toh`.
-/

namespace RdmaTutorial.Devices

open ByteOrder

/-- The GUID as it is printed on a host of byte order `e`. -/
def guidText (e : Endian) (guid : Example03.Bytes 8) : String :=
  format016llx (be64toh e (load e guid))

theorem be64toh_load (e : Endian) (guid : Example03.Bytes 8) :
    be64toh e (load e guid) = load .big guid := by
  have hload := ntoh_load e guid.val
  rwa [guid.property] at hload

theorem guidText_eq (e : Endian) (guid : Example03.Bytes 8) :
    guidText e guid = String.ofList (guid.val.flatMap Hex.byte) := by
  have hformat := Hex.format_load guid.val
  rw [guid.property] at hformat
  rw [guidText, be64toh_load, format016llx, hformat]

theorem guidText_inj {e e' : Endian} {guid guid' : Example03.Bytes 8} :
    guidText e guid = guidText e' guid' ↔ guid = guid' := by
  rw [guidText_eq, guidText_eq]
  constructor
  · intro h
    exact Subtype.ext (Hex.bytes_injective (String.ofList_injective h))
  · rintro rfl
    rfl

theorem longLong_inj {v w : Nat} (hv : v < 256 ^ 8) (hw : w < 256 ^ 8) :
    longLong v = longLong w ↔ v = w := by
  unfold longLong
  rw [BitVec.toInt_inj]
  constructor
  · intro h
    have hnat := congrArg BitVec.toNat h
    rw [BitVec.toNat_ofNat, BitVec.toNat_ofNat] at hnat
    omega
  · rintro rfl
    rfl

/-- Both byte orders read the same only of bytes that are the same both ways. -/
theorem load_little_eq_big {bs : List UInt8} :
    load .little bs = load .big bs ↔ bs.reverse = bs := by
  constructor
  · intro h
    have hbytes := congrArg (bytesLE bs.length) h
    have hback := bytesLE_ofBytesLE bs.reverse
    rw [List.length_reverse] at hback
    rw [load, load, bytesLE_ofBytesLE, hback] at hbytes
    exact hbytes.symm
  · intro h
    rw [load, load, h]

/-- **The GUID.** Its bytes are printed one after another, so the text tells the
GUID, on whatever host it is printed; the number in the line `node_guid` is that of
the GUID on a big-endian host, or where its bytes are the same both ways. -/
theorem guid_lines (e e' : Endian) (guid guid' : Example03.Bytes 8) :
    guidText e guid = String.ofList (guid.val.flatMap Hex.byte) ∧
      (guidText e guid = guidText e' guid' ↔ guid = guid') ∧
      (longLong (load e guid) = longLong (be64toh e (load e guid)) ↔
        e = .big ∨ guid.val.reverse = guid.val) := by
  refine ⟨guidText_eq e guid, guidText_inj, ?_⟩
  have hlt : ∀ e, load e guid.val < 256 ^ 8 := fun e => by
    have h := load_lt e guid.val
    rwa [guid.property] at h
  rw [be64toh_load, longLong_inj (hlt e) (hlt .big)]
  cases e with
  | big => simp
  | little => rw [load_little_eq_big]; simp

end RdmaTutorial.Devices
