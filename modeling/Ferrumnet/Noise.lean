import Ferrumnet.FaultLink
import Ferrumnet.Corruption
import Ferrumnet.Runtime

/-
  What the noise of the fault link does to a stack.

  1. `onRecv_flip` — a flipped bit of a segment is found, or it is one of the checksum field
     and leaves that zero, which nobody verifies; then the segment is read as it was sent.
  2. `noise_harmless` — a damaged copy of a frame acts as the frame does, or not at all, if
     the segment was sent with a checksum other than zero.
-/

namespace Ferrumnet

open OnesComplement (flipBit)

namespace TcpPacket

variable {buf : List UInt8} {i k : Nat}

theorem drop_flip {n : Nat} (h : i < n) : (flipBit buf i k).drop n = buf.drop n := by
  apply List.ext_getElem?
  intro j
  rw [List.getElem?_drop, List.getElem?_drop, OnesComplement.flipBit_other _ _ (by omega)]

theorem drop_take_flip {n m : Nat} (h : i < n) : ((flipBit buf i k).take m).drop n = (buf.take m).drop n := by
  rw [List.drop_take, List.drop_take, drop_flip h]

/-- The bytes of the checksum are not read. -/
theorem ofOctets_flip (h : i = 16 ∨ i = 17) (hoff : 20 ≤ dataOffset buf) :
    ofOctets (flipBit buf i k) = ofOctets buf := by
  have hoctet : ∀ j, j < 16 → octet (flipBit buf i k) j = octet buf j :=
    fun j hj => WireRepr.octet_flip_other buf (by omega)
  have hdata : dataOffset (flipBit buf i k) = dataOffset buf := by
    rw [dataOffset, hoctet 12 (by decide), dataOffset]
  have hoptions : options (flipBit buf i k) = options buf := by
    simp only [options, hdata]
    rw [drop_take_flip (by omega)]
  have hpayload : (flipBit buf i k).drop (dataOffset buf) = buf.drop (dataOffset buf) := drop_flip (by omega)
  simp only [ofOctets, read16, read32, hdata, hoptions, hpayload, hoctet 0 (by decide), hoctet 1 (by decide),
    hoctet 2 (by decide), hoctet 3 (by decide), hoctet 4 (by decide), hoctet 5 (by decide), hoctet 6 (by decide),
    hoctet 7 (by decide), hoctet 8 (by decide), hoctet 9 (by decide), hoctet 10 (by decide), hoctet 11 (by decide),
    hoctet 12 (by decide), hoctet 13 (by decide), hoctet 14 (by decide), hoctet 15 (by decide), Nat.reduceAdd]

theorem newChecked_flip (h : i = 16 ∨ i = 17) : newChecked (flipBit buf i k) = newChecked buf := by
  have hdata : dataOffset (flipBit buf i k) = dataOffset buf := by
    rw [dataOffset, WireRepr.octet_flip_other buf (by omega), dataOffset]
  unfold newChecked
  rw [OnesComplement.length_flipBit, hdata]
  split
  · rfl
  · split
    · rfl
    · rename_i hoff
      rw [ofOctets_flip h (by omega)]

end TcpPacket

namespace Stack

variable {κ : Type} [CongestionControl κ]

/-- One flipped bit of a segment whose checksum is verified. -/
theorem onRecv_flip (s : Stack κ) (now : Instant) (ecn : Nat) (r : WireRepr) (src dst : BitVec 32)
    (payload : List UInt8) (hne : TcpPacket.checksum (r.emit src dst payload) ≠ 0) {i k : Nat}
    (hi : i < (r.emit src dst payload).length) (hk : k < 8) :
    s.onRecv now ⟨src, dst, ipprotoTcp, ecn, flipBit (r.emit src dst payload) i k⟩ = s ∨
      s.onRecv now ⟨src, dst, ipprotoTcp, ecn, flipBit (r.emit src dst payload) i k⟩ =
        s.onRecv now ⟨src, dst, ipprotoTcp, ecn, r.emit src dst payload⟩ := by
  have hinvalid := flip_invalid r src dst payload hi hk
  have hvalid : tcpChecksumValid src dst (r.emit src dst payload) = true :=
    (tcpChecksumValid_iff src dst _).mpr (r.emit_valid src dst payload)
  by_cases hfield : i = 16 ∨ i = 17
  · have hread : TcpPacket.newChecked (flipBit (r.emit src dst payload) i k) =
        TcpPacket.newChecked (r.emit src dst payload) := TcpPacket.newChecked_flip hfield
    by_cases hzero : TcpPacket.checksum (flipBit (r.emit src dst payload) i k) = 0
    · right
      unfold onRecv
      dsimp only
      rw [hread, hzero, hvalid]
      simp
    · left
      unfold onRecv
      dsimp only
      split
      · rfl
      · split
        · rfl
        · rw [hinvalid, if_pos (by simp [hzero])]
  · have hcsum := checksum_flip (r.emit src dst payload) (i := i) (k := k) (fun h => hfield (.inl h))
      (fun h => hfield (.inr h))
    left
    unfold onRecv
    dsimp only
    split
    · rfl
    · split
      · rfl
      · rw [hcsum, hinvalid, if_pos (by simp [hne])]

end Stack

/-! ## Frames -/

theorem flip_append (xs ys : List UInt8) {i : Nat} (h : xs.length ≤ i) (k : Nat) :
    flipBit (xs ++ ys) i k = xs ++ flipBit ys (i - xs.length) k := by
  apply List.ext_getElem?
  intro j
  rw [flipBit, flipBit, List.getElem?_modify]
  by_cases hj : j < xs.length
  · have hne : i ≠ j := by omega
    simp only [List.getElem?_append_left hj, hne, if_false, id_map']
  · have hiff : i = j ↔ i - xs.length = j - xs.length := by omega
    rw [List.getElem?_append_right (by omega), List.getElem?_append_right (by omega), List.getElem?_modify]
    simp only [hiff]

namespace Reactor

variable {κ : Type} [CongestionControl κ]

theorem ingest_damaged (s : Reactor κ) {loc remote : Endpoint} {tcp : WireRepr} {payload frame frame' : List UInt8}
    (hbuild : buildOctets loc remote tcp payload = some frame) (hlen : frame.length < 65536)
    (hsum : TcpPacket.checksum (frame.drop 20) ≠ 0) (h : Link.Damaged frame frame') :
    s.ingest frame' = s.ingest frame ∨ s.ingest frame' = s := by
  obtain ⟨off, bit, hoff, hlt, hbit, rfl⟩ := h
  unfold buildOctets at hbuild
  dsimp only at hbuild
  generalize hip : (Ipv4Repr.mk loc.ip remote.ip (UInt8.ofNat ipprotoTcp)
    (UInt16.ofNat (tcp.headerLen + payload.length)) 64 0) = ip at hbuild
  split at hbuild
  · cases hbuild
  · rename_i hfits
    cases hbuild
    have hhead : ip.emit.length = 20 := ip.length_header _
    have hseg : (tcp.emit loc.ip remote.ip payload).length = tcp.headerLen + payload.length := tcp.length_segment _ _
    have htotal : ip.totalLen = 20 + (tcp.emit loc.ip remote.ip payload).length := by
      have hle : ip.totalLen ≤ 20 + (tcp.headerLen + payload.length) := by
        rw [← hip, Ipv4Repr.totalLen]
        show 20 + (UInt16.ofNat _).toNat ≤ _
        rw [UInt16.toNat_ofNat']
        exact Nat.add_le_add_left (Nat.mod_le _ _) 20
      omega
    rw [List.length_append, hhead] at hlen hlt
    rw [List.drop_left' hhead] at hsum
    have hsrc : ip.src = loc.ip := by rw [← hip]
    have hdst : ip.dst = remote.ip := by rw [← hip]
    have hproto : ip.protocol.toNat = ipprotoTcp := by rw [← hip]; rfl
    have hparse : Ipv4Packet.newChecked (ip.emit ++ tcp.emit loc.ip remote.ip payload) = _ :=
      (Ipv4Packet.newChecked_emit ip _ htotal (by omega)).1
    have hparse' := (Ipv4Packet.newChecked_emit ip (flipBit (tcp.emit loc.ip remote.ip payload) (off - 20) bit)
      (by rw [htotal, OnesComplement.length_flipBit]) (by omega)).1
    rw [hsrc, hdst, hproto] at hparse hparse'
    rw [flip_append _ _ (by omega), hhead, ingest, hparse', ingest, hparse]
    dsimp only
    rw [if_pos rfl, if_pos rfl]
    rcases Stack.onRecv_flip s.stack s.now (ip.ecn &&& 0x03 &&& 0x03).toNat tcp loc.ip remote.ip payload hsum
      (i := off - 20) (k := bit) (by omega) hbit with hrecv | hrecv
    · right
      rw [hrecv]
    · left
      rw [hrecv]

end Reactor

namespace Link

variable {κ : Type} [CongestionControl κ]

/-- Of a segment sent with a checksum other than zero: whatever the link makes of it, every
copy that it carries acts on every stack as the segment does, or not at all. -/
theorem noise_harmless {seed : BitVec 64} {cfg : LinkConfig} {acts : List Act} {w : Line}
    (hr : Run.run Line.apply (.new seed cfg) acts = some w) {t : Fate} (ht : t ∈ w.fates) {loc remote : Endpoint}
    {tcp : WireRepr} {payload : List UInt8} (hbuild : buildOctets loc remote tcp payload = some t.frame)
    (hlen : t.frame.length < 65536) (hsum : TcpPacket.checksum (t.frame.drop 20) ≠ 0) {f : InFlight}
    (hf : f ∈ t.copies) (s : Reactor κ) : s.ingest f.frame = s.ingest t.frame ∨ s.ingest f.frame = s := by
  obtain ⟨hsound, rfl⟩ := Line.sound_of_run hr
  have hfair := hsound.fair t ht
  have hcopy : f.frame = t.frame ∨ Damaged t.frame f.frame := by
    obtain ⟨now, side, frame, copies⟩ := t
    rcases copies with _ | ⟨g, copies⟩
    · cases hf
    · rcases List.mem_cons.mp hf with rfl | hf
      · exact (hfair.first f rfl).imp_right And.right
      · exact .inl (hfair.second f hf)
  rcases hcopy with he | hd
  · rw [he]
    exact .inl rfl
  · exact s.ingest_damaged hbuild hlen hsum hd

/-- A segment with three bytes of data. -/
def threeOctets : WireRepr :=
  { srcPort := 40000, dstPort := 8080, seq := SeqNumber.new 5, ack := SeqNumber.new 9, flags := 16
    window := 500, mss := none, sackPermitted := false, sack := [], windowScale := none
    timestamps := none, ae := false }

def threeOctetsFrame : List UInt8 :=
  [69, 0, 0, 43, 0, 0, 64, 0, 64, 6, 38, 203, 10, 0, 0, 1, 10, 0, 0, 2, 156, 64, 31, 144, 0, 0, 0, 5, 0, 0, 0, 9, 80,
    16, 1, 244, 217, 250, 0, 0, 1, 2, 3]

theorem build_threeOctets : buildOctets ⟨0x0a000001, 40000⟩ ⟨0x0a000002, 8080⟩ threeOctets [1, 2, 3] =
    some threeOctetsFrame := by
  decide +kernel

/-- A link that damages every frame hits the checksum of this one. -/
theorem noise_harmless_checksum : ∃ (w : Line) (t : Fate) (f : InFlight),
    Run.run Line.apply (.new 7 ⟨0, 0, 1000000, 5, 4, by decide, by decide⟩)
      [.enqueue ⟨0⟩ .toServer threeOctetsFrame] = some w ∧ t ∈ w.fates ∧ f ∈ t.copies ∧
      f.frame = flipBit t.frame 37 2 ∧
      ∀ s : Reactor Reno, s.ingest f.frame = s.ingest t.frame ∨ s.ingest f.frame = s := by
  obtain ⟨w, hr, hw⟩ := Run.exists_run Line.apply (.new 7 ⟨0, 0, 1000000, 5, 4, by decide, by decide⟩)
    [.enqueue ⟨0⟩ .toServer threeOctetsFrame]
    (fun w => w.fates.map (fun t => (t.frame, t.copies.map InFlight.frame)) =
      [(threeOctetsFrame, [flipBit threeOctetsFrame 37 2])]) (by decide +kernel)
  obtain ⟨t, hfates, ht⟩ := List.map_eq_singleton_iff.mp hw
  obtain ⟨hframe, hcopies⟩ := Prod.ext_iff.mp ht
  obtain ⟨f, hcopy, hf⟩ := List.map_eq_singleton_iff.mp hcopies
  have hmem : t ∈ w.fates := hfates ▸ List.mem_cons_self
  have hmem' : f ∈ t.copies := hcopy ▸ List.mem_cons_self
  change t.frame = threeOctetsFrame at hframe
  have hbuild : buildOctets ⟨0x0a000001, 40000⟩ ⟨0x0a000002, 8080⟩ threeOctets [1, 2, 3] = some t.frame := by
    rw [hframe, build_threeOctets]
  have hlen : t.frame.length < 65536 := by
    rw [hframe]
    decide
  have hsum : TcpPacket.checksum (t.frame.drop 20) ≠ 0 := by
    rw [hframe]
    decide
  refine ⟨w, t, f, hr, hmem, hmem', ?_, fun s => noise_harmless hr hmem hbuild hlen hsum hmem' s⟩
  rw [hframe, hf]

end Link

end Ferrumnet
