import Ferrumnet.Lib.OnesComplement
import Ferrumnet.Wire

/-
  The bytes of a segment (`wire/tcp.rs`, `wire/checksum.rs`): the checksum, the
  emitter and the accessors of a received segment.

  The accumulator of the source is a `u64` that no datagram makes overflow; it
  is a natural number here.
-/

namespace Ferrumnet

/-! ## The Internet checksum -/

def fromBe16 (b0 b1 : UInt8) : Nat := b0.toNat * 256 + b1.toNat

def fromBe32 (b0 b1 b2 b3 : UInt8) : Nat := fromBe16 b0 b1 * 65536 + fromBe16 b2 b3

/-- The tail of less than eight bytes: 16-bit words, an odd byte last. -/
def accumulatePairs : Nat → List UInt8 → Nat
  | sum, b0 :: b1 :: rest => accumulatePairs (sum + fromBe16 b0 b1) rest
  | sum, [last] => sum + last.toNat * 256
  | sum, [] => sum

/-- Eight bytes a turn, as two 32-bit words. -/
def accumulateOctets : Nat → List UInt8 → Nat
  | sum, o0 :: o1 :: o2 :: o3 :: o4 :: o5 :: o6 :: o7 :: rest =>
    accumulateOctets (sum + fromBe32 o0 o1 o2 o3 + fromBe32 o4 o5 o6 o7) rest
  | sum, tail => accumulatePairs sum tail

/-- Add `data` to a one's-complement sum; the result fits 32 bits. -/
def accumulate (acc : Nat) (data : List UInt8) : Nat := OnesComplement.fold 32 (accumulateOctets acc data)

/-- Fold a sum down to 16 bits. -/
def fold (acc : Nat) : Nat := OnesComplement.fold 16 acc

/-- The big-endian bytes of a 16-bit field. -/
def be16 (n : Nat) : List UInt8 := [UInt8.ofNat (n / 256), UInt8.ofNat n]

/-- The big-endian bytes of a 32-bit field. -/
def be32 (n : Nat) : List UInt8 :=
  [UInt8.ofNat (n / 16777216), UInt8.ofNat (n / 65536), UInt8.ofNat (n / 256), UInt8.ofNat n]

def ipprotoTcp : Nat := 6

/-- The sum of the pseudo-header, not folded to 16 bits. -/
def pseudoHeader (src dst : BitVec 32) (protocol l4Len : Nat) : Nat :=
  accumulate (accumulate (accumulate 0 (be32 src.toNat)) (be32 dst.toNat))
    ([0, UInt8.ofNat protocol] ++ be16 l4Len)

/-- The sum of a segment and its pseudo-header. -/
def segmentSum (src dst : BitVec 32) (segment : List UInt8) : Nat :=
  accumulate (pseudoHeader src dst ipprotoTcp (segment.length % 65536)) segment

/-- The checksum of a segment whose checksum field is zero. -/
def tcpChecksum (src dst : BitVec 32) (segment : List UInt8) : Nat :=
  65535 - fold (segmentSum src dst segment)

/-- The checksum of a received segment, the field left in place. -/
def tcpChecksumValid (src dst : BitVec 32) (segment : List UInt8) : Bool :=
  fold (segmentSum src dst segment) = 65535

/-! ### What is summed -/

open OnesComplement (octetSum)

theorem accumulatePairs_eq (sum : Nat) (data : List UInt8) :
    accumulatePairs sum data = sum + octetSum data := by
  induction sum, data using accumulatePairs.induct with
  | case1 sum b0 b1 rest ih =>
    rw [accumulatePairs, ih, octetSum, fromBe16]
    omega
  | case2 sum last => simp [accumulatePairs, octetSum]
  | case3 sum => simp [accumulatePairs, octetSum]

/-- A 32-bit word is its two 16-bit words, up to a multiple of the modulus. -/
theorem accumulateOctets_eq (sum : Nat) (data : List UInt8) :
    ∃ k, accumulateOctets sum data = sum + octetSum data + 65535 * k ∧
      (0 < k → 0 < octetSum data) := by
  induction sum, data using accumulateOctets.induct with
  | case1 sum o0 o1 o2 o3 o4 o5 o6 o7 rest ih =>
    obtain ⟨k, hk, hpos⟩ := ih
    refine ⟨k + fromBe16 o0 o1 + fromBe16 o4 o5, ?_, ?_⟩
    · rw [accumulateOctets, hk]
      simp only [octetSum, fromBe32, fromBe16]
      omega
    · simp only [octetSum, fromBe16] at hpos ⊢
      omega
  | case2 sum tail h =>
    refine ⟨0, ?_, by simp⟩
    rw [accumulateOctets, accumulatePairs_eq]
    · omega
    · exact h

theorem accumulate_mod (acc : Nat) (data : List UInt8) :
    accumulate acc data % 65535 = (acc + octetSum data) % 65535 := by
  obtain ⟨k, hk, -⟩ := accumulateOctets_eq acc data
  have h32 : accumulate acc data % 4294967295 = accumulateOctets acc data % 4294967295 :=
    OnesComplement.fold_mod 32 _
  -- the 16-bit modulus divides the 32-bit one
  have hmod : accumulate acc data % 65535 = accumulateOctets acc data % 65535 := by
    have := congrArg (· % 65535) h32
    simpa [Nat.mod_mod_of_dvd] using this
  rw [hmod, hk, Nat.add_mul_mod_self_left]

theorem accumulate_eq_zero (acc : Nat) (data : List UInt8) :
    accumulate acc data = 0 ↔ acc + octetSum data = 0 := by
  obtain ⟨k, hk, hpos⟩ := accumulateOctets_eq acc data
  rw [accumulate, OnesComplement.fold_eq_zero, hk]
  constructor
  · intro h
    omega
  · intro h
    have : k = 0 := by
      by_contra hne
      have := hpos (Nat.pos_of_ne_zero hne)
      omega
    omega

/-- The pseudo-header of TCP never sums to zero: the protocol number is in it. -/
theorem segmentSum_pos (src dst : BitVec 32) (segment : List UInt8) : segmentSum src dst segment ≠ 0 := by
  intro h
  have h1 := ((accumulate_eq_zero _ _).mp h)
  have h2 := (accumulate_eq_zero _ _).mp (Nat.add_eq_zero_iff.mp h1).1
  have h3 := (Nat.add_eq_zero_iff.mp h2).2
  simp [octetSum, ipprotoTcp] at h3

theorem segmentSum_mod (src dst : BitVec 32) {segment segment' : List UInt8}
    (h : segment'.length = segment.length) :
    (segmentSum src dst segment' + octetSum segment) % 65535 =
      (segmentSum src dst segment + octetSum segment') % 65535 := by
  have h1 := accumulate_mod (pseudoHeader src dst ipprotoTcp (segment.length % 65536)) segment
  have h2 := accumulate_mod (pseudoHeader src dst ipprotoTcp (segment.length % 65536)) segment'
  rw [segmentSum, segmentSum, h]
  omega

/-- A segment is valid exactly if its sum is a multiple of the modulus. -/
theorem tcpChecksumValid_iff (src dst : BitVec 32) (segment : List UInt8) :
    tcpChecksumValid src dst segment = true ↔ segmentSum src dst segment % 65535 = 0 := by
  have := OnesComplement.fold_eq_ones (w := 16) (by omega) (segmentSum src dst segment)
  rw [tcpChecksumValid, decide_eq_true_eq]
  refine Iff.trans this ?_
  simp [segmentSum_pos]

/-! ## The emitter -/

/-- A segment to emit, with the field widths of the wire. -/
structure WireRepr where
  srcPort : UInt16
  dstPort : UInt16
  seq : SeqNumber
  ack : SeqNumber
  /-- CWR, ECE, URG, ACK, PSH, RST, SYN, FIN, from the high bit down. -/
  flags : UInt8
  window : UInt16
  mss : Option UInt16
  sackPermitted : Bool
  sack : List SackBlock
  windowScale : Option UInt8
  timestamps : Option (BitVec 32 × BitVec 32)
  ae : Bool
  deriving DecidableEq, Repr

def TcpFlags.octet (f : TcpFlags) : UInt8 :=
  UInt8.ofNat (f.fin.toNat + 2 * f.syn.toNat + 4 * f.rst.toNat + 8 * f.psh.toNat
    + 16 * f.ack.toNat + 64 * f.ece.toNat + 128 * f.cwr.toNat)

def TcpRepr.wire (r : TcpRepr) : WireRepr :=
  { srcPort := r.srcPort
    dstPort := r.dstPort
    seq := r.seq
    ack := r.ack
    flags := r.flags.octet
    window := UInt16.ofNat r.window
    mss := r.mss.map UInt16.ofNat
    sackPermitted := r.sackPermitted
    sack := r.sack
    windowScale := r.windowScale.map UInt8.ofNat
    timestamps := r.timestamps
    ae := r.ae }

namespace WireRepr

variable (r : WireRepr)

def sackBlocksToEmit : Nat :=
  min r.sack.length (if r.timestamps.isSome then 3 else maxSackBlocks)

def headerLen : Nat :=
  20 + (if r.mss.isSome then 4 else 0) + (if r.sackPermitted then 4 else 0)
    + (if r.windowScale.isSome then 4 else 0) + (if r.timestamps.isSome then 12 else 0)
    + (if r.sackBlocksToEmit > 0 then 4 + 8 * r.sackBlocksToEmit else 0)

/-! Each option is padded to four bytes with NOPs. -/

def mssOctets : List UInt8 :=
  match r.mss with
  | some mss => [2, 4] ++ be16 mss.toNat
  | none => []

def sackPermittedOctets : List UInt8 := if r.sackPermitted then [1, 1, 4, 2] else []

def windowScaleOctets : List UInt8 :=
  match r.windowScale with
  | some shift => [1, 3, 3, shift]
  | none => []

def timestampsOctets : List UInt8 :=
  match r.timestamps with
  | some (tsval, tsecr) => [1, 1, 8, 10] ++ (be32 tsval.toNat ++ be32 tsecr.toNat)
  | none => []

/-- The edges of SACK blocks. -/
def edgeOctets : List SackBlock → List UInt8
  | [] => []
  | (left, right) :: rest => be32 left.raw.toNat ++ be32 right.raw.toNat ++ edgeOctets rest

def sackOctets : List UInt8 :=
  if r.sackBlocksToEmit > 0 then
    [1, 1, 5, UInt8.ofNat (2 + 8 * r.sackBlocksToEmit)] ++ edgeOctets (r.sack.take r.sackBlocksToEmit)
  else []

/-- The options in their fixed order. -/
def options : List UInt8 :=
  r.mssOctets ++ (r.sackPermittedOctets ++ (r.windowScaleOctets ++ (r.timestampsOctets ++ r.sackOctets)))

/-- The data offset in 32-bit words, in the high nibble, and the AE bit. -/
def offsetOctet : UInt8 := UInt8.ofNat (r.headerLen / 4) <<< 4 ||| (if r.ae then 1 else 0)

/-- The first sixteen bytes of the header, up to the checksum. -/
def fixed : List UInt8 :=
  be16 r.srcPort.toNat ++ be16 r.dstPort.toNat ++ be32 r.seq.raw.toNat ++ be32 r.ack.raw.toNat
    ++ [r.offsetOctet, r.flags] ++ be16 r.window.toNat

/-- The whole segment with a given checksum field; the urgent pointer is zero. -/
def segment (csum : Nat) (payload : List UInt8) : List UInt8 :=
  r.fixed ++ (be16 csum ++ ([0, 0] ++ r.options ++ payload))

/-- The segment as emitted: the checksum is computed over a zero field. -/
def emit (src dst : BitVec 32) (payload : List UInt8) : List UInt8 :=
  r.segment (tcpChecksum src dst (r.segment 0 payload)) payload

theorem length_edgeOctets (bs : List SackBlock) : (edgeOctets bs).length = 8 * bs.length := by
  induction bs with
  | nil => rfl
  | cons b bs ih =>
    simp only [edgeOctets, List.length_append, ih, List.length_cons]
    simp only [be32, List.length_cons, List.length_nil]
    omega

theorem length_sackOctets : r.sackOctets.length =
    if r.sackBlocksToEmit > 0 then 4 + 8 * r.sackBlocksToEmit else 0 := by
  have hle : r.sackBlocksToEmit ≤ r.sack.length := Nat.min_le_left _ _
  unfold sackOctets
  split
  · rw [List.length_append, length_edgeOctets, List.length_take, Nat.min_eq_left hle]
    rfl
  · rfl

/-- The options fill the header after its first twenty bytes. -/
theorem length_options : 20 + r.options.length = r.headerLen := by
  have hmss : r.mssOctets.length = if r.mss.isSome then 4 else 0 := by
    unfold mssOctets; split <;> simp_all [be16]
  have hperm : r.sackPermittedOctets.length = if r.sackPermitted then 4 else 0 := by
    unfold sackPermittedOctets; split <;> rfl
  have hscale : r.windowScaleOctets.length = if r.windowScale.isSome then 4 else 0 := by
    unfold windowScaleOctets; split <;> simp_all
  have hts : r.timestampsOctets.length = if r.timestamps.isSome then 12 else 0 := by
    unfold timestampsOctets; split <;> simp_all [be32]
  simp only [options, headerLen, List.length_append, hmss, hperm, hscale, hts, length_sackOctets]
  omega

theorem length_fixed : r.fixed.length = 16 := by simp [fixed, be16, be32]

theorem length_segment (csum : Nat) (payload : List UInt8) :
    (r.segment csum payload).length = r.headerLen + payload.length := by
  have := r.length_options
  simp only [segment, List.length_append, length_fixed]
  simp only [be16, List.length_cons, List.length_nil]
  omega

end WireRepr

/-! ## The accessors of a received segment -/

inductive ParseError where
  | truncated | badDataOffset
  deriving DecidableEq, Repr

def TcpFlags.ofOctet (b : UInt8) : TcpFlags :=
  { fin := b &&& 1 ≠ 0
    syn := b &&& 2 ≠ 0
    rst := b &&& 4 ≠ 0
    psh := b &&& 8 ≠ 0
    ack := b &&& 16 ≠ 0
    ece := b &&& 64 ≠ 0
    cwr := b &&& 128 ≠ 0 }

namespace TcpPacket

def octet (buf : List UInt8) (i : Nat) : UInt8 := buf.getD i 0

def read16 (buf : List UInt8) (i : Nat) : Nat := fromBe16 (octet buf i) (octet buf (i + 1))

def read32 (buf : List UInt8) (i : Nat) : Nat :=
  fromBe32 (octet buf i) (octet buf (i + 1)) (octet buf (i + 2)) (octet buf (i + 3))

def dataOffset (buf : List UInt8) : Nat := (octet buf 12 >>> 4).toNat * 4

def checksum (buf : List UInt8) : Nat := read16 buf 16

/-- The well-formed options, as kind and value: EOL ends the walk, NOP is
skipped, a bad length ends the walk. Each turn takes at least one byte. -/
def walkOptions : Nat → List UInt8 → List (UInt8 × List UInt8)
  | 0, _ => []
  | _ + 1, [] => []
  | fuel + 1, kind :: rest =>
    if kind = 0 then []
    else if kind = 1 then walkOptions fuel rest
    else
      match rest with
      | [] => []
      | len :: value =>
        if len.toNat < 2 ∨ value.length < len.toNat - 2 then []
        else (kind, value.take (len.toNat - 2)) :: walkOptions fuel (value.drop (len.toNat - 2))

def options (buf : List UInt8) : List (UInt8 × List UInt8) :=
  let opts := (buf.take (dataOffset buf)).drop 20
  walkOptions opts.length opts

/-- The value of the first option of a kind and a length. -/
def findOption (opts : List (UInt8 × List UInt8)) (kind : UInt8) (len : Nat) : Option (List UInt8) :=
  (opts.find? fun o => o.1 = kind && o.2.length = len).map (·.2)

/-- The pairs of edges in a SACK option; a trailing partial pair is ignored. -/
def edges : List UInt8 → List SackBlock
  | l0 :: l1 :: l2 :: l3 :: r0 :: r1 :: r2 :: r3 :: rest =>
    (SeqNumber.new (fromBe32 l0 l1 l2 l3), SeqNumber.new (fromBe32 r0 r1 r2 r3)) :: edges rest
  | _ => []

/-- What the accessors read from a checked segment. -/
def ofOctets (buf : List UInt8) : TcpPacket :=
  { srcPort := UInt16.ofNat (read16 buf 0)
    dstPort := UInt16.ofNat (read16 buf 2)
    seq := SeqNumber.new (read32 buf 4)
    ack := SeqNumber.new (read32 buf 8)
    flags := TcpFlags.ofOctet (octet buf 13)
    ae := octet buf 12 &&& 1 ≠ 0
    window := read16 buf 14
    mssOption := (findOption (options buf) 2 2).map (read16 · 0)
    timestamps := (findOption (options buf) 8 8).map fun v =>
      (BitVec.ofNat 32 (read32 v 0), BitVec.ofNat 32 (read32 v 4))
    windowScale := (findOption (options buf) 3 1).map fun v => min (octet v 0).toNat 14
    sackPermitted := (findOption (options buf) 4 0).isSome
    sackBlocks := ((options buf).flatMap fun o => if o.1 = 5 then edges o.2 else []).take maxSackBlocks
    payload := Bytes.ofList (buf.drop (dataOffset buf)) }

def newChecked (buf : List UInt8) : Except ParseError TcpPacket :=
  if buf.length < 20 then .error .truncated
  else if dataOffset buf < 20 ∨ 60 < dataOffset buf then .error .badDataOffset
  else if buf.length < dataOffset buf then .error .truncated
  else .ok (ofOctets buf)

end TcpPacket

end Ferrumnet
