import Ferrumnet.Stack

/-
  The bytes of a datagram (`wire/ipv4.rs`, `build_segment` of `iface.rs`): the
  IPv4 header in front of a segment, and the view a receiver binds to it.

  The header has no options. Its checksum covers it alone, and is summed over a
  zero field like that of the segment.
-/

namespace Ferrumnet

open OnesComplement (octetSum)

/-! ## Fields -/

theorem fromBe16_be16 {n : Nat} (h : n < 65536) :
    fromBe16 (UInt8.ofNat (n / 256)) (UInt8.ofNat n) = n := by
  simp only [fromBe16, UInt8.toNat_ofNat']
  omega

theorem fromBe32_be32 {n : Nat} (h : n < 4294967296) :
    fromBe32 (UInt8.ofNat (n / 16777216)) (UInt8.ofNat (n / 65536)) (UInt8.ofNat (n / 256)) (UInt8.ofNat n) =
      n := by
  simp only [fromBe32, fromBe16, UInt8.toNat_ofNat']
  omega

/-- A word is read back from its four bytes. -/
theorem ofNat_be32 (w : BitVec 32) : BitVec.ofNat 32 (fromBe32 (UInt8.ofNat (w.toNat / 16777216))
    (UInt8.ofNat (w.toNat / 65536)) (UInt8.ofNat (w.toNat / 256)) (UInt8.ofNat w.toNat)) = w := by
  rw [fromBe32_be32 w.isLt, BitVec.ofNat_toNat, BitVec.setWidth_eq]

/-! ## The header -/

/-- The finished checksum of a buffer whose checksum field is zero. -/
def ipChecksum (data : List UInt8) : Nat := 65535 - fold (accumulate 0 data)

/-- A header to emit. -/
structure Ipv4Repr where
  src : BitVec 32
  dst : BitVec 32
  protocol : UInt8
  payloadLen : UInt16
  ttl : UInt8
  ecn : UInt8
  deriving DecidableEq, Repr

namespace Ipv4Repr

variable (r : Ipv4Repr)

def totalLen : Nat := 20 + r.payloadLen.toNat

/-- The first ten bytes, up to the checksum: version 4 and five words, no
identification, Don't Fragment. -/
def fixed : List UInt8 :=
  [0x45, r.ecn &&& 0x03] ++ be16 r.totalLen ++ [0, 0] ++ be16 0x4000 ++ [r.ttl, r.protocol]

/-- The header with a given checksum field. -/
def header (csum : Nat) : List UInt8 :=
  r.fixed ++ (be16 csum ++ (be32 r.src.toNat ++ be32 r.dst.toNat))

def emit : List UInt8 := r.header (ipChecksum (r.header 0))

theorem length_fixed : r.fixed.length = 10 := by simp [fixed, be16]

theorem length_header (csum : Nat) : (r.header csum).length = 20 := by simp [header, fixed, be16, be32]

/-- The receiver finds an emitted header valid: the checksum is what the folded sum
lacks to the modulus. -/
theorem fold_emit : fold (accumulate 0 r.emit) = 65535 := by
  have hsum : ∀ csum, octetSum (r.header csum) = octetSum r.fixed +
      (octetSum (be16 csum) + octetSum (be32 r.src.toNat ++ be32 r.dst.toNat)) := by
    intro csum
    rw [header, OnesComplement.octetSum_append _ _ (by rw [length_fixed]),
      OnesComplement.octetSum_append _ _ (by simp [be16])]
  have hpos : 0 < octetSum r.fixed := by
    simp only [fixed, be16, List.cons_append, List.nil_append, octetSum]
    simp
  have hfold := OnesComplement.fold_mod 16 (accumulate 0 (r.header 0))
  have hlt := OnesComplement.fold_lt (w := 16) (by omega) (accumulate 0 (r.header 0))
  have hzero := accumulate_mod 0 (r.header 0)
  have hemit := accumulate_mod 0 r.emit
  have hne := (accumulate_eq_zero 0 r.emit).not
  have hfield : octetSum (be16 (ipChecksum (r.header 0))) = ipChecksum (r.header 0) := by
    have : ipChecksum (r.header 0) ≤ 65535 := Nat.sub_le _ _
    simp only [be16, octetSum, UInt8.toNat_ofNat']
    omega
  have hnone : octetSum (be16 0) = 0 := rfl
  have hcsum : ipChecksum (r.header 0) + OnesComplement.fold 16 (accumulate 0 (r.header 0)) = 65535 := by
    rw [ipChecksum, fold]
    omega
  refine (OnesComplement.fold_eq_ones (w := 16) (by omega) _).mpr ⟨?_, ?_⟩
  · refine hne.mpr ?_
    rw [emit, hsum]
    omega
  · rw [hsum, hnone] at hzero
    rw [emit, hsum, hfield] at hemit
    rw [emit]
    omega

end Ipv4Repr

/-! ## The accessors of a received datagram -/

inductive Ipv4Error where
  | truncated | badVersion | badHeaderLen | fragmented
  deriving DecidableEq, Repr

namespace Ipv4Packet

open TcpPacket (octet read16 read32)

def version (buf : List UInt8) : UInt8 := octet buf 0 >>> 4

def headerLen (buf : List UInt8) : Nat := (octet buf 0 &&& 0x0f).toNat * 4

def totalLen (buf : List UInt8) : Nat := read16 buf 2

/-- More-Fragments set, or a fragment offset. -/
def isFragment (buf : List UInt8) : Bool :=
  read16 buf 6 &&& 0x2000 ≠ 0 || read16 buf 6 &&& 0x1fff ≠ 0

def checksumValid (buf : List UInt8) : Bool := fold (accumulate 0 (buf.take (headerLen buf))) = 0xffff

/-- What the accessors read from a checked datagram; slack behind its total length
is cut off. -/
def ofOctets (buf : List UInt8) : Ipv4Packet :=
  { src := BitVec.ofNat 32 (read32 buf 12)
    dst := BitVec.ofNat 32 (read32 buf 16)
    protocol := (octet buf 9).toNat
    ecn := (octet buf 1 &&& 0x03).toNat
    payload := (buf.take (totalLen buf)).drop (headerLen buf) }

def newChecked (buf : List UInt8) : Except Ipv4Error Ipv4Packet :=
  if buf.length < 20 then .error .truncated
  else if version buf ≠ 4 then .error .badVersion
  else if headerLen buf < 20 ∨ 60 < headerLen buf then .error .badHeaderLen
  else if totalLen buf < headerLen buf ∨ buf.length < totalLen buf then .error .truncated
  else if isFragment buf then .error .fragmented
  else .ok (ofOctets buf)

/-- A header as `Ipv4Repr` emits it, in front of the payload it was made for. -/
theorem newChecked_emit (r : Ipv4Repr) (payload : List UInt8) (hlen : r.totalLen = 20 + payload.length)
    (hmax : r.totalLen < 65536) :
    newChecked (r.emit ++ payload) =
      .ok ⟨r.src, r.dst, r.protocol.toNat, (r.ecn &&& 0x03 &&& 0x03).toNat, payload⟩ ∧
      checksumValid (r.emit ++ payload) = true := by
  have hhead : r.emit.length = 20 := r.length_header _
  have hver : version (r.emit ++ payload) = 4 := (by decide : (0x45 : UInt8) >>> 4 = 4)
  have hihl : headerLen (r.emit ++ payload) = 20 := (by decide : ((0x45 : UInt8) &&& 0x0f).toNat * 4 = 20)
  have htotal : totalLen (r.emit ++ payload) = r.totalLen := fromBe16_be16 hmax
  have hfragment : isFragment (r.emit ++ payload) = false := by
    have hread : read16 (r.emit ++ payload) 6 = 0x4000 := fromBe16_be16 (by decide)
    rw [isFragment, hread]
    decide
  have hbuf : (r.emit ++ payload).length = r.totalLen := by rw [List.length_append, hhead, hlen]
  have hview : ofOctets (r.emit ++ payload) =
      ⟨r.src, r.dst, r.protocol.toNat, (r.ecn &&& 0x03 &&& 0x03).toNat, payload⟩ := by
    have hsrc : BitVec.ofNat 32 (read32 (r.emit ++ payload) 12) = r.src := ofNat_be32 r.src
    have hdst : BitVec.ofNat 32 (read32 (r.emit ++ payload) 16) = r.dst := ofNat_be32 r.dst
    rw [ofOctets, hsrc, hdst, htotal, hihl, List.take_of_length_le (Nat.le_of_eq hbuf), List.drop_left' hhead]
    rfl
  constructor
  · rw [newChecked, hbuf, hver, hihl, htotal, hfragment, hview, if_neg (by omega), if_neg (by simp),
      if_neg (by omega), if_neg (by omega)]
    rfl
  · rw [checksumValid, hihl, List.take_left' hhead, r.fold_emit]
    rfl

end Ipv4Packet

/-- One datagram, its header and its segment filled in. The buffer is as long as the
header says, and a segment that does not fit into it panics. -/
def buildOctets (loc remote : Endpoint) (tcp : WireRepr) (payload : List UInt8) : Option (List UInt8) :=
  let segLen := tcp.headerLen + payload.length
  let ip : Ipv4Repr :=
    { src := loc.ip
      dst := remote.ip
      protocol := UInt8.ofNat ipprotoTcp
      payloadLen := UInt16.ofNat segLen
      ttl := 64
      ecn := 0 }
  if ip.totalLen < 20 + segLen then none
  else some (ip.emit ++ tcp.emit loc.ip remote.ip payload)

end Ferrumnet
