import RdmaTutorial.Lib.ByteOrder

/-!
# example03/rdma_common.h: struct qp_conn_info

The record is packed, and it goes from the memory of one host into that of the
other as it is. Its numbers are in network byte order: each program converts
them for itself, before `write` and behind `read`.
-/

namespace RdmaTutorial.Example03

open ByteOrder

/-- `n` bytes of memory. -/
abbrev Bytes (n : Nat) := { bs : List UInt8 // bs.length = n }

/-- `union ibv_gid`. -/
abbrev Gid := Bytes 16

/-- `struct qp_conn_info`, by the values of its fields. -/
structure QpConnInfo where
  qpNum : UInt32
  lid : UInt16
  gid : Gid
  deriving DecidableEq, Repr

/-- What a host has of its own: its byte order, and `res.qp->qp_num`,
`res.port_attr.lid` and `res.gid`. -/
structure Host where
  endian : Endian
  qpNum : UInt32
  lid : UInt16
  gid : Gid
  deriving DecidableEq, Repr

def htonl (e : Endian) (x : UInt32) : UInt32 := .ofNat (hton e 4 x.toNat)

def htons (e : Endian) (x : UInt16) : UInt16 := .ofNat (hton e 2 x.toNat)

def ntohl (e : Endian) (x : UInt32) : UInt32 := .ofNat (hton e 4 x.toNat)

def ntohs (e : Endian) (x : UInt16) : UInt16 := .ofNat (hton e 2 x.toNat)

namespace QpConnInfo

/-- The 22 bytes of the record in the memory of a host. -/
def toMemory (e : Endian) (r : QpConnInfo) : Bytes 22 :=
  ⟨store e 4 r.qpNum.toNat ++ store e 2 r.lid.toNat ++ r.gid.val, by simp [r.gid.property]⟩

def ofMemory (e : Endian) (m : Bytes 22) : QpConnInfo :=
  { qpNum := .ofNat (load e (m.val.take 4)),
    lid := .ofNat (load e ((m.val.drop 4).take 2)),
    gid := ⟨m.val.drop 6, by simp [m.property]⟩ }

end QpConnInfo

/-- `local_info`, as it is filled in before `write`. -/
def Host.localInfo (h : Host) : QpConnInfo :=
  { qpNum := htonl h.endian h.qpNum, lid := htons h.endian h.lid, gid := h.gid }

/-- `remote_info`, as it is converted behind `read`. -/
def Host.remoteInfo (h : Host) (r : QpConnInfo) : QpConnInfo :=
  { r with qpNum := ntohl h.endian r.qpNum, lid := ntohs h.endian r.lid }

/-- The peer's values, as a host should have them. -/
def Host.info (h : Host) : QpConnInfo := { qpNum := h.qpNum, lid := h.lid, gid := h.gid }

/-- The record on the wire. -/
def wireBytes (r : QpConnInfo) : List UInt8 :=
  store .big 4 r.qpNum.toNat ++ store .big 2 r.lid.toNat ++ r.gid.val

@[simp] theorem length_wireBytes (r : QpConnInfo) : (wireBytes r).length = 22 := by
  simp [wireBytes, r.gid.property]

theorem toNat_htonl (e : Endian) (x : UInt32) : (htonl e x).toNat = hton e 4 x.toNat :=
  Nat.mod_eq_of_lt (hton_lt e x.toNat_lt)

theorem toNat_htons (e : Endian) (x : UInt16) : (htons e x).toNat = hton e 2 x.toNat :=
  Nat.mod_eq_of_lt (hton_lt e x.toNat_lt)

/-- Two hosts with the same values write the same bytes. -/
theorem Host.toMemory_localInfo (h : Host) :
    (h.localInfo.toMemory h.endian).val = wireBytes h.info := by
  simp only [QpConnInfo.toMemory, localInfo, wireBytes, info, toNat_htonl, toNat_htons, store_hton]

theorem ntohl_load (e : Endian) {bs : List UInt8} (h : bs.length = 4) :
    ntohl e (.ofNat (load e bs)) = .ofNat (load .big bs) := by
  have hlt : load e bs < 2 ^ 32 := by simpa [h] using load_lt e bs
  have hn := ntoh_load e bs
  rw [h] at hn
  have hval : (UInt32.ofNat (load e bs)).toNat = load e bs := Nat.mod_eq_of_lt hlt
  rw [ntohl, hval, hn]

theorem ntohs_load (e : Endian) {bs : List UInt8} (h : bs.length = 2) :
    ntohs e (.ofNat (load e bs)) = .ofNat (load .big bs) := by
  have hlt : load e bs < 2 ^ 16 := by simpa [h] using load_lt e bs
  have hn := ntoh_load e bs
  rw [h] at hn
  have hval : (UInt16.ofNat (load e bs)).toNat = load e bs := Nat.mod_eq_of_lt hlt
  rw [ntohs, hval, hn]

/-- The record makes its way from host to host. -/
theorem Host.remoteInfo_ofMemory (h : Host) (r : QpConnInfo) (m : Bytes 22)
    (hm : m.val = wireBytes r) : h.remoteInfo (.ofMemory h.endian m) = r := by
  have h4 : m.val.take 4 = store .big 4 r.qpNum.toNat := by simp [hm, wireBytes]
  have h2 : (m.val.drop 4).take 2 = store .big 2 r.lid.toNat := by simp [hm, wireBytes]
  have hg : m.val.drop 6 = r.gid.val := by
    rw [hm, wireBytes]
    exact List.drop_left' (by simp)
  have hq : load .big (store .big 4 r.qpNum.toNat) = r.qpNum.toNat := load_store _ r.qpNum.toNat_lt
  have hl : load .big (store .big 2 r.lid.toNat) = r.lid.toNat := load_store _ r.lid.toNat_lt
  obtain ⟨qpNum, lid, gid⟩ := r
  simp only [remoteInfo, QpConnInfo.ofMemory, h4, h2, ntohl_load h.endian (length_store ..),
    ntohs_load h.endian (length_store ..), hq, hl, UInt32.ofNat_toNat, UInt16.ofNat_toNat]
  congr

end RdmaTutorial.Example03
