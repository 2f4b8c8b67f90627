import Ferrumnet.Stack

/-
  Single-bit corruption and the checksum rule of `on_recv`.

  A flipped bit outside the checksum field never keeps the sum of a segment, so
  it is always found, if it is looked for. It is not when the checksum field is
  zero: the exception is meant for TX offload, but a genuine segment has a zero
  checksum whenever its sum folds to all ones, and nothing keeps the emitter from
  sending it so.
-/

namespace Ferrumnet

open OnesComplement (octetSum flipBit)

namespace WireRepr

variable (r : WireRepr) (src dst : BitVec 32) (payload : List UInt8)

/-! ## The emitted checksum -/

theorem octetSum_segment {csum : Nat} (h : csum < 65536) :
    octetSum (r.segment csum payload) = octetSum (r.segment 0 payload) + csum := by
  have hfield : octetSum (be16 csum) = csum := by
    simp only [be16, octetSum, UInt8.toNat_ofNat']
    omega
  have hzero : octetSum (be16 0) = 0 := rfl
  have hfixed : r.fixed.length % 2 = 0 := by rw [length_fixed]
  have hlen : ∀ n, (be16 n).length % 2 = 0 := fun n => by simp [be16]
  simp only [segment, OnesComplement.octetSum_append _ _ hfixed,
    OnesComplement.octetSum_append _ _ (hlen _), hfield, hzero]
  omega

/-- The receiver finds an emitted segment valid. -/
theorem emit_valid : segmentSum src dst (r.emit src dst payload) % 65535 = 0 := by
  have hlt : tcpChecksum src dst (r.segment 0 payload) < 65536 := by
    rw [tcpChecksum]
    omega
  have hlen : (r.emit src dst payload).length = (r.segment 0 payload).length := by
    rw [emit, length_segment, length_segment]
  have hsum := segmentSum_mod src dst hlen
  rw [emit, octetSum_segment _ _ hlt] at hsum
  rw [emit]
  -- the checksum is what the folded sum lacks to the modulus
  have hfold := OnesComplement.fold_mod 16 (segmentSum src dst (r.segment 0 payload))
  have hfold_lt := OnesComplement.fold_lt (w := 16) (by omega)
    (segmentSum src dst (r.segment 0 payload))
  have hcsum : tcpChecksum src dst (r.segment 0 payload) +
      OnesComplement.fold 16 (segmentSum src dst (r.segment 0 payload)) = 65535 := by
    rw [tcpChecksum, fold]
    omega
  omega

/-! ## The length of the header -/

theorem headerLen_bounds : 20 ≤ r.headerLen ∧ r.headerLen ≤ 72 ∧ r.headerLen % 4 = 0 := by
  have h4 : r.sackBlocksToEmit ≤ 4 := by
    rw [sackBlocksToEmit, maxSackBlocks]
    split <;> omega
  have h3 : r.timestamps.isSome = true → r.sackBlocksToEmit ≤ 3 := by
    intro h
    rw [sackBlocksToEmit, if_pos h]
    exact Nat.min_le_right _ _
  unfold headerLen
  by_cases hts : r.timestamps.isSome = true
  · have := h3 hts
    rw [if_pos hts]
    split_ifs <;> omega
  · rw [if_neg hts]
    split_ifs <;> omega

/-! ## What a flipped bit leaves readable -/

theorem octet_emit_offset : TcpPacket.octet (r.emit src dst payload) 12 = r.offsetOctet := rfl

theorem octet_flip_other (buf : List UInt8) {i j k : Nat} (h : j ≠ i) :
    TcpPacket.octet (flipBit buf i k) j = TcpPacket.octet buf j := by
  simp only [TcpPacket.octet, List.getD_eq_getElem?_getD, OnesComplement.flipBit_other _ _ h]

theorem octet_flip_self (buf : List UInt8) {i k : Nat} (h : i < buf.length) :
    TcpPacket.octet (flipBit buf i k) i = TcpPacket.octet buf i ^^^ UInt8.ofNat (2 ^ k) := by
  simp [TcpPacket.octet, flipBit, h]

/-- Some bit outside the checksum field can be flipped so that the header still
passes for one. -/
theorem exists_flip : ∃ i k, i < (r.emit src dst payload).length ∧ k < 8 ∧ i ≠ 16 ∧ i ≠ 17 ∧
    TcpPacket.newChecked (flipBit (r.emit src dst payload) i k) =
      .ok (.ofOctets (flipBit (r.emit src dst payload) i k)) := by
  obtain ⟨h1, h2, h3⟩ := r.headerLen_bounds
  have hlen : (r.emit src dst payload).length = r.headerLen + payload.length := by
    rw [emit, length_segment]
  have hcheck : ∀ i k, 20 ≤ TcpPacket.dataOffset (flipBit (r.emit src dst payload) i k) →
      TcpPacket.dataOffset (flipBit (r.emit src dst payload) i k) ≤ min 60 r.headerLen →
      TcpPacket.newChecked (flipBit (r.emit src dst payload) i k) =
        .ok (.ofOctets (flipBit (r.emit src dst payload) i k)) := by
    intro i k hge hle
    rw [TcpPacket.newChecked, OnesComplement.length_flipBit, hlen, if_neg (by omega), if_neg (by omega),
      if_neg (by omega)]
  obtain ⟨q, hq⟩ : ∃ q, r.headerLen = 4 * q := ⟨r.headerLen / 4, by omega⟩
  have hdiv : r.headerLen / 4 = q := by omega
  by_cases hfit : r.headerLen ≤ 60
  · -- the low bit of the sequence number
    refine ⟨7, 0, by omega, by omega, by omega, by omega, ?_⟩
    have hoff : TcpPacket.dataOffset (flipBit (r.emit src dst payload) 7 0) = 4 * q := by
      rw [TcpPacket.dataOffset, octet_flip_other _ (by omega), octet_emit_offset, offsetOctet, hdiv]
      have hq1 : 5 ≤ q := by omega
      have hq2 : q ≤ 15 := by omega
      clear hcheck
      interval_cases q <;> rcases r.ae with _ | _ <;> rfl
    exact hcheck 7 0 (by omega) (by omega)
  · -- options that do not fit wrap the data offset: its high bit
    refine ⟨12, 7, by omega, by omega, by omega, by omega, ?_⟩
    have hoff : TcpPacket.dataOffset (flipBit (r.emit src dst payload) 12 7) = 4 * (q - 8) := by
      rw [TcpPacket.dataOffset, octet_flip_self _ (by omega), octet_emit_offset, offsetOctet, hdiv]
      have hq1 : 16 ≤ q := by omega
      have hq2 : q ≤ 18 := by omega
      clear hcheck
      interval_cases q <;> rcases r.ae with _ | _ <;> rfl
    exact hcheck 12 7 (by omega) (by omega)

end WireRepr

namespace Stack

variable {κ : Type} [CongestionControl κ]

/-- A flipped bit outside the checksum field makes a segment invalid. -/
theorem flip_invalid (r : WireRepr) (src dst : BitVec 32) (payload : List UInt8) {i k : Nat}
    (hi : i < (r.emit src dst payload).length) (hk : k < 8) :
    tcpChecksumValid src dst (flipBit (r.emit src dst payload) i k) = false := by
  have hvalid := r.emit_valid src dst payload
  have hsum := segmentSum_mod src dst (OnesComplement.length_flipBit (r.emit src dst payload) i k)
  obtain ⟨j, hj, hflip⟩ := OnesComplement.octetSum_flip _ hi hk
  refine Bool.eq_false_iff.mpr fun h => ?_
  rw [tcpChecksumValid_iff] at h
  have hpow : 2 ^ j ≤ 2 ^ 15 := Nat.pow_le_pow_right (by omega) (by omega)
  have hpos : 0 < 2 ^ j := Nat.two_pow_pos j
  omega

theorem checksum_flip (buf : List UInt8) {i k : Nat} (h1 : i ≠ 16) (h2 : i ≠ 17) :
    TcpPacket.checksum (flipBit buf i k) = TcpPacket.checksum buf := by
  rw [TcpPacket.checksum, TcpPacket.read16, WireRepr.octet_flip_other _ (Ne.symm h1),
    WireRepr.octet_flip_other _ (Ne.symm h2)]
  rfl

/-- A connection that any segment to it changes: in TIME-WAIT it owes an ACK, and
a RST at `RCV.NXT` closes it. -/
def lingering (loc remote : Endpoint) (seq : SeqNumber) : Tcb κ :=
  { Tcb.newSynSent loc remote seq ⟨0⟩ 0 with
    rcvNxt := seq, rcvAdv := seq, state := .timeWait }

theorem lingering_onSegment (loc remote : Endpoint) (now : Instant) (tcp : TcpPacket) (ce : Bool) :
    (lingering loc remote tcp.seq : Tcb κ).onSegment now tcp ce ≠ lingering loc remote tcp.seq := by
  intro h
  rcases hrst : tcp.flags.rst with _ | _
  · have := congrArg (fun t : Tcb κ => t.needsAck) h
    simp [Tcb.onSegment, lingering, hrst, Tcb.armTimeWait, Tcb.newSynSent, Tcb.freshOwed] at this
  · have := congrArg (fun t : Tcb κ => t.state) h
    simp [Tcb.onSegment, lingering, hrst, Tcb.onRst, RecvSpace.seqInWindow] at this

/-- Every flipped bit outside the checksum field leaves every stack unchanged,
exactly if the segment was emitted with a checksum other than zero. -/
theorem corruption_detected_iff (r : WireRepr) (src dst : BitVec 32) (payload : List UInt8) :
    (∀ (s : Stack κ) (now : Instant) (ecn i k : Nat), i < (r.emit src dst payload).length → k < 8 →
      i ≠ 16 → i ≠ 17 →
      s.onRecv now ⟨src, dst, ipprotoTcp, ecn, flipBit (r.emit src dst payload) i k⟩ = s) ↔
      TcpPacket.checksum (r.emit src dst payload) ≠ 0 := by
  constructor
  · intro h hzero
    obtain ⟨i, k, hi, hk, h1, h2, hcheck⟩ := r.exists_flip src dst payload
    have hcsum := (checksum_flip (r.emit src dst payload) (k := k) h1 h2).trans hzero
    have hrecv := fun s : Stack κ => h s ⟨0⟩ 0 i k hi hk h1 h2
    generalize flipBit (r.emit src dst payload) i k = buf at hcheck hrecv hcsum
    generalize TcpPacket.ofOctets buf = tcp at hcheck hrecv
    -- a connection between the corrupted segment's own endpoints
    let t : Tcb κ := lingering ⟨dst, tcp.dstPort⟩ ⟨src, tcp.srcPort⟩ tcp.seq
    let s : Stack κ := (Stack.new ⟨dst, 0⟩ ⟨0, 0⟩ 0).setConn ⟨src, tcp.srcPort⟩ t
    have hstep : s.onRecv ⟨0⟩ ⟨src, dst, ipprotoTcp, 0, buf⟩ =
        s.setConn ⟨src, tcp.srcPort⟩ (t.onSegment ⟨0⟩ tcp (0 = ecnCe)) := by
      rw [onRecv_checked ⟨src, dst, ipprotoTcp, 0, buf⟩ rfl rfl hcheck (.inl hcsum)]
      exact demux_conn (connection_setConn _) rfl
    have hconn := congrArg (fun s : Stack κ => s.connection ⟨src, tcp.srcPort⟩)
      (hstep.symm.trans (hrecv s))
    rw [connection_setConn, connection_setConn] at hconn
    exact lingering_onSegment _ _ _ tcp _ (Option.some.inj hconn)
  · intro hne s now ecn i k hi hk h1 h2
    have hinvalid := flip_invalid r src dst payload hi hk
    have hcsum := checksum_flip (r.emit src dst payload) (k := k) h1 h2
    unfold onRecv
    split
    · rfl
    · split
      · rfl
      · rw [hcsum, hinvalid, if_pos (by simp [hne])]

/-- A SYN as an active open sends it, with the one ISS in 65535 that makes the
sum fold to all ones. -/
def zeroSyn : WireRepr :=
  { srcPort := 40000, dstPort := 8080, seq := SeqNumber.new 26155, ack := SeqNumber.new 0, flags := 2
    window := 65535, mss := some 1460, sackPermitted := true, sack := [], windowScale := some 3
    timestamps := some (0, 0), ae := false }

/-- A flipped bit of its sequence number opens a connection with the wrong IRS. -/
theorem corrupted_syn_opens :
    let buf := zeroSyn.emit 0x0a000001 0x0a000002 []
    let s : Stack Reno := Stack.new ⟨0x0a000002, 8080⟩ ⟨0, 0⟩ 1460
    let remote : Endpoint := ⟨0x0a000001, 40000⟩
    TcpPacket.checksum buf = 0 ∧ (s.connection remote).map (fun t => t.irs) = none ∧
      ((s.onRecv ⟨0⟩ ⟨0x0a000001, 0x0a000002, ipprotoTcp, 0, flipBit buf 7 0⟩).connection remote).map
        (fun t => t.irs) = some (SeqNumber.new 26154) := by
  decide +kernel

end Stack

end Ferrumnet
