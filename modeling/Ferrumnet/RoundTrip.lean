import Ferrumnet.Ipv4
import Ferrumnet.Corruption

/-
  What is emitted is what is read back.

  The option area is laid out in three places: the length that `header_len`
  reserves, the bytes that `emit` writes, and the walk of the receiver. `entries`
  is what the walk has to find; each option is one rule of the walk.

  1. `walk_options` — the walk finds the options, and nothing else.
  2. `newChecked_emit` — the accessors return the fields.
  3. `build_segment_round_trip` — the same behind an IPv4 header.
-/

namespace Ferrumnet

namespace TcpPacket

/-! ## The walk over the options -/

/-- Fuel for every byte is enough. -/
theorem walkOptions_fuel {n m : Nat} {opts : List UInt8} (hn : opts.length ≤ n) (hm : opts.length ≤ m) :
    walkOptions n opts = walkOptions m opts := by
  induction n generalizing m opts with
  | zero =>
    obtain rfl := List.length_eq_zero_iff.mp (Nat.le_zero.mp hn)
    cases m <;> rfl
  | succ n ih =>
    cases opts with
    | nil => cases m <;> rfl
    | cons kind rest =>
      cases m with
      | zero => simp at hm
      | succ m =>
        simp only [List.length_cons] at hn hm
        simp only [walkOptions]
        split
        · rfl
        split
        · exact ih (by omega) (by omega)
        cases rest with
        | nil => rfl
        | cons len value =>
          simp only [List.length_cons] at hn hm
          dsimp only
          split
          · rfl
          · refine congrArg _ (ih ?_ ?_) <;> rw [List.length_drop] <;> omega

/-- The walk with fuel for every byte. -/
def walk (opts : List UInt8) : List (UInt8 × List UInt8) := walkOptions opts.length opts

theorem walk_nop (rest : List UInt8) : walk (1 :: rest) = walk rest := rfl

theorem walk_option (kind len : UInt8) (value rest : List UInt8) (h0 : kind ≠ 0) (h1 : kind ≠ 1)
    (hlen : len.toNat = 2 + value.length) :
    walk (kind :: len :: (value ++ rest)) = (kind, value) :: walk rest := by
  have hvalue : len.toNat - 2 = value.length := by omega
  have htake : (value ++ rest).take value.length = value := List.take_left' rfl
  have hdrop : (value ++ rest).drop value.length = rest := List.drop_left' rfl
  have hfits : ¬ (len.toNat < 2 ∨ (value ++ rest).length < len.toNat - 2) := by
    rw [List.length_append]
    omega
  simp only [walk, List.length_cons, walkOptions, if_neg h0, if_neg h1, if_neg hfits]
  rw [hvalue, htake, hdrop]
  exact congrArg _ (walkOptions_fuel (by rw [List.length_append]; omega) (Nat.le_refl _))

end TcpPacket

namespace WireRepr

variable (r : WireRepr) (src dst : BitVec 32) (payload : List UInt8)

/-- The SACK blocks that go out. -/
def blocks : List SackBlock := r.sack.take r.sackBlocksToEmit

/-- The options as kind and value, in their order. -/
def entries : List (UInt8 × List UInt8) :=
  (r.mss.map fun mss => (2, be16 mss.toNat)).toList ++
    ((if r.sackPermitted then [(4, [])] else []) ++
      ((r.windowScale.map fun shift => (3, [shift])).toList ++
        ((r.timestamps.map fun ts => (8, be32 ts.1.toNat ++ be32 ts.2.toNat)).toList ++
          (if r.sackBlocksToEmit > 0 then [(5, edgeOctets r.blocks)] else []))))

open TcpPacket (walk walk_nop walk_option)

theorem walk_options : walk r.options = r.entries := by
  have hmss : ∀ rest, walk (r.mssOctets ++ rest) =
      (r.mss.map fun mss => (2, be16 mss.toNat)).toList ++ walk rest := by
    intro rest
    unfold mssOctets
    cases r.mss with
    | none => rfl
    | some mss => exact walk_option 2 4 (be16 mss.toNat) rest (by decide) (by decide) rfl
  have hpermitted : ∀ rest, walk (r.sackPermittedOctets ++ rest) =
      (if r.sackPermitted then [(4, [])] else []) ++ walk rest := by
    intro rest
    unfold sackPermittedOctets
    split
    · exact walk_option 4 2 [] rest (by decide) (by decide) rfl
    · rfl
  have hscale : ∀ rest, walk (r.windowScaleOctets ++ rest) =
      (r.windowScale.map fun shift => (3, [shift])).toList ++ walk rest := by
    intro rest
    unfold windowScaleOctets
    cases r.windowScale with
    | none => rfl
    | some shift => exact walk_option 3 3 [shift] rest (by decide) (by decide) rfl
  have htimestamps : ∀ rest, walk (r.timestampsOctets ++ rest) =
      (r.timestamps.map fun ts => (8, be32 ts.1.toNat ++ be32 ts.2.toNat)).toList ++ walk rest := by
    intro rest
    unfold timestampsOctets
    cases r.timestamps with
    | none => rfl
    | some ts =>
      exact walk_option 8 10 (be32 ts.1.toNat ++ be32 ts.2.toNat) rest (by decide) (by decide) rfl
  have hsack : walk r.sackOctets = if r.sackBlocksToEmit > 0 then [(5, edgeOctets r.blocks)] else [] := by
    have hcap : r.sackBlocksToEmit ≤ 4 := by
      rw [sackBlocksToEmit, maxSackBlocks]
      split <;> omega
    have hlen : (edgeOctets r.blocks).length = 8 * r.sackBlocksToEmit := by
      have hle : r.sackBlocksToEmit ≤ r.sack.length := Nat.min_le_left _ _
      rw [length_edgeOctets, blocks, List.length_take, Nat.min_eq_left hle]
    unfold sackOctets
    split
    · have hwalk := walk_option 5 (UInt8.ofNat (2 + 8 * r.sackBlocksToEmit)) (edgeOctets r.blocks) []
        (by decide) (by decide) (by rw [hlen, UInt8.toNat_ofNat']; omega)
      rw [List.append_nil] at hwalk
      exact hwalk
    · rfl
  rw [options, hmss, hpermitted, hscale, htimestamps, hsack]
  rfl

theorem edges_edgeOctets (bs : List SackBlock) : TcpPacket.edges (edgeOctets bs) = bs := by
  induction bs with
  | nil => rfl
  | cons b bs ih =>
    obtain ⟨left, right⟩ := b
    have hl := fromBe32_be32 left.raw.isLt
    have hr := fromBe32_be32 right.raw.isLt
    simp only [edgeOctets, be32, List.cons_append, List.nil_append, TcpPacket.edges, ih, hl, hr]
    simp [SeqNumber.new]

/-! ## The header -/

theorem offsetOctet_spec (h : r.headerLen ≤ 60) :
    (r.offsetOctet >>> 4).toNat * 4 = r.headerLen ∧ decide (r.offsetOctet &&& 1 ≠ 0) = r.ae := by
  obtain ⟨-, -, hmod⟩ := r.headerLen_bounds
  have hnibble : ∀ k < 16, ∀ ae : Bool,
      ((UInt8.ofNat k <<< 4 ||| (if ae then 1 else 0)) >>> 4).toNat = k ∧
        decide ((UInt8.ofNat k <<< 4 ||| (if ae then 1 else 0)) &&& 1 ≠ 0) = ae := by decide
  obtain ⟨h1, h2⟩ := hnibble (r.headerLen / 4) (by omega) r.ae
  rw [offsetOctet]
  refine ⟨?_, h2⟩
  rw [h1]
  omega

theorem dataOffset_emit (h : r.headerLen ≤ 60) :
    TcpPacket.dataOffset (r.emit src dst payload) = r.headerLen := (r.offsetOctet_spec h).1

/-- The header, all of it before the payload. -/
def headerOctets (csum : Nat) : List UInt8 := r.fixed ++ (be16 csum ++ ([0, 0] ++ r.options))

theorem segment_split (csum : Nat) : r.segment csum payload = r.headerOctets csum ++ payload := by
  simp only [segment, headerOctets, List.append_assoc]

theorem length_headerOctets (csum : Nat) : (r.headerOctets csum).length = r.headerLen := by
  have hlen := r.length_segment csum []
  rwa [segment_split, List.append_nil, List.length_nil, Nat.add_zero] at hlen

theorem options_emit (h : r.headerLen ≤ 60) : TcpPacket.options (r.emit src dst payload) = r.entries := by
  rw [← walk_options]
  change walk (((r.emit src dst payload).take (TcpPacket.dataOffset (r.emit src dst payload))).drop 20) = _
  rw [dataOffset_emit _ _ _ _ h, emit, segment_split, List.take_left' (length_headerOctets r _)]
  have hfront : (r.fixed ++ (be16 (tcpChecksum src dst (r.segment 0 payload)) ++ [0, 0])).length = 20 := by
    simp [length_fixed, be16]
  have hhead : r.headerOctets (tcpChecksum src dst (r.segment 0 payload)) =
      (r.fixed ++ (be16 (tcpChecksum src dst (r.segment 0 payload)) ++ [0, 0])) ++ r.options := by
    simp only [headerOctets, List.append_assoc]
  rw [hhead, List.drop_left' hfront]

/-! ## The accessors -/

open TcpPacket (findOption)

theorem findOption_append (xs ys : List (UInt8 × List UInt8)) (kind : UInt8) (len : Nat) :
    findOption (xs ++ ys) kind len = (findOption xs kind len).or (findOption ys kind len) := by
  simp only [findOption, List.find?_append, Option.map_or]

/-- One option that is there or not. -/
theorem findOption_toList {α : Type} (o : Option α) (value : α → List UInt8) (kind kind' : UInt8) (len len' : Nat)
    (hlen : ∀ a, (value a).length = len) :
    findOption (o.map fun a => (kind, value a)).toList kind' len' =
      if kind = kind' ∧ len = len' then o.map value else none := by
  cases o with
  | none => simp [findOption]
  | some a => by_cases h : kind = kind' <;> by_cases h' : len = len' <;> simp [findOption, h, h', hlen]

/-- An option is looked up by its kind, and the others have other kinds. -/
theorem findOption_entries :
    findOption r.entries 2 2 = r.mss.map (fun mss => be16 mss.toNat) ∧
      findOption r.entries 4 0 = (if r.sackPermitted then some [] else none) ∧
      findOption r.entries 3 1 = r.windowScale.map (fun shift => [shift]) ∧
      findOption r.entries 8 8 = r.timestamps.map (fun ts => be32 ts.1.toNat ++ be32 ts.2.toNat) := by
  have hpermitted : ∀ kind len, findOption (if r.sackPermitted then [(4, [])] else []) kind len =
      if 4 = kind ∧ 0 = len then (if r.sackPermitted then some [] else none) else none := by
    intro kind len
    cases r.sackPermitted <;> by_cases h : 4 = kind <;> by_cases h' : 0 = len <;> simp [findOption, h, h']
  have hsack : ∀ kind len, 5 ≠ kind →
      findOption (if r.sackBlocksToEmit > 0 then [(5, edgeOctets r.blocks)] else []) kind len = none := by
    intro kind len h
    split <;> simp [findOption, h]
  have hfind : ∀ kind len, 5 ≠ kind → findOption r.entries kind len =
      (if 2 = kind ∧ 2 = len then r.mss.map (fun mss => be16 mss.toNat) else none).or
        ((if 4 = kind ∧ 0 = len then (if r.sackPermitted then some [] else none) else none).or
          ((if 3 = kind ∧ 1 = len then r.windowScale.map (fun shift => [shift]) else none).or
            (if 8 = kind ∧ 8 = len then
              r.timestamps.map (fun ts => be32 ts.1.toNat ++ be32 ts.2.toNat) else none))) := by
    intro kind len h
    rw [entries, findOption_append, findOption_append, findOption_append, findOption_append, hpermitted,
      hsack kind len h, findOption_toList _ _ _ _ 2 _ fun _ => rfl, findOption_toList _ _ _ _ 1 _ fun _ => rfl,
      findOption_toList _ _ _ _ 8 _ fun _ => rfl, Option.or_none]
  refine ⟨?_, ?_, ?_, ?_⟩ <;> rw [hfind _ _ (by decide)] <;> simp

theorem sackBlocks_entries (hsack : r.sack.length ≤ maxSackBlocks) :
    (r.entries.flatMap fun o => if o.1 = 5 then TcpPacket.edges o.2 else []).take maxSackBlocks =
      if r.timestamps.isSome then r.sack.take 3 else r.sack := by
  have hflat : (r.entries.flatMap fun o => if o.1 = 5 then TcpPacket.edges o.2 else []) = r.blocks := by
    have hnone : ¬ r.sackBlocksToEmit > 0 → r.blocks = [] := by
      intro h
      rw [blocks, Nat.le_zero.mp (Nat.not_lt.mp h), List.take_zero]
    have hlast : ((if r.sackBlocksToEmit > 0 then [(5, edgeOctets r.blocks)] else []).flatMap
        fun o : UInt8 × List UInt8 => if o.1 = 5 then TcpPacket.edges o.2 else []) = r.blocks := by
      split
      · simp [edges_edgeOctets]
      · rename_i hzero
        simp [hnone hzero]
    simp only [entries, List.flatMap_append, hlast]
    cases r.mss <;> cases r.sackPermitted <;> cases r.windowScale <;> cases r.timestamps <;> rfl
  have hlen : r.blocks.length ≤ maxSackBlocks := by
    rw [blocks, List.length_take]
    omega
  rw [hflat, List.take_of_length_le hlen, blocks, sackBlocksToEmit]
  split
  · rw [Nat.min_comm, ← List.take_take, List.take_length]
  · rw [Nat.min_eq_left hsack, List.take_length]

/-- What the accessors have to return. -/
def view : TcpPacket :=
  { srcPort := r.srcPort
    dstPort := r.dstPort
    seq := r.seq
    ack := r.ack
    flags := .ofOctet r.flags
    ae := r.ae
    window := r.window.toNat
    mssOption := r.mss.map UInt16.toNat
    timestamps := r.timestamps
    windowScale := r.windowScale.map UInt8.toNat
    sackPermitted := r.sackPermitted
    sackBlocks := if r.timestamps.isSome then r.sack.take 3 else r.sack
    payload := Bytes.ofList payload }

theorem ofOctets_emit (hfit : r.headerLen ≤ 60) (hshift : ∀ shift ∈ r.windowScale, shift ≤ 14)
    (hsack : r.sack.length ≤ maxSackBlocks) :
    TcpPacket.ofOctets (r.emit src dst payload) = r.view payload := by
  have hoptions := r.options_emit src dst payload hfit
  obtain ⟨hmss, hpermitted, hscale, htimestamps⟩ := r.findOption_entries
  have hports : UInt16.ofNat (TcpPacket.read16 (r.emit src dst payload) 0) = r.srcPort ∧
      UInt16.ofNat (TcpPacket.read16 (r.emit src dst payload) 2) = r.dstPort ∧
      TcpPacket.read16 (r.emit src dst payload) 14 = r.window.toNat := by
    have hread : ∀ w : UInt16, fromBe16 (UInt8.ofNat (w.toNat / 256)) (UInt8.ofNat w.toNat) = w.toNat :=
      fun w => fromBe16_be16 w.toNat_lt
    refine ⟨?_, ?_, hread r.window⟩
    · exact (congrArg UInt16.ofNat (hread r.srcPort)).trans UInt16.ofNat_toNat
    · exact (congrArg UInt16.ofNat (hread r.dstPort)).trans UInt16.ofNat_toNat
  have hseqs : SeqNumber.new (TcpPacket.read32 (r.emit src dst payload) 4) = r.seq ∧
      SeqNumber.new (TcpPacket.read32 (r.emit src dst payload) 8) = r.ack := by
    exact ⟨congrArg SeqNumber.mk (ofNat_be32 r.seq.raw), congrArg SeqNumber.mk (ofNat_be32 r.ack.raw)⟩
  have hae : decide (TcpPacket.octet (r.emit src dst payload) 12 &&& 1 ≠ 0) = r.ae :=
    (r.offsetOctet_spec hfit).2
  have hmss' : (r.mss.map fun mss => be16 mss.toNat).map (TcpPacket.read16 · 0) = r.mss.map UInt16.toNat := by
    cases r.mss with
    | none => rfl
    | some mss => exact congrArg some (fromBe16_be16 mss.toNat_lt)
  have htimestamps' : (r.timestamps.map fun ts => be32 ts.1.toNat ++ be32 ts.2.toNat).map
      (fun v => (BitVec.ofNat 32 (TcpPacket.read32 v 0), BitVec.ofNat 32 (TcpPacket.read32 v 4))) =
      r.timestamps := by
    cases r.timestamps with
    | none => rfl
    | some ts => exact congrArg some (Prod.ext (ofNat_be32 ts.1) (ofNat_be32 ts.2))
  have hscale' : (r.windowScale.map fun shift => [shift]).map (fun v => min (TcpPacket.octet v 0).toNat 14) =
      r.windowScale.map UInt8.toNat := by
    cases hs : r.windowScale with
    | none => rfl
    | some shift => exact congrArg some (Nat.min_eq_left (hshift shift hs))
  have hpermitted' : (if r.sackPermitted then some ([] : List UInt8) else none).isSome = r.sackPermitted := by
    cases r.sackPermitted <;> rfl
  have hbody : (r.emit src dst payload).drop (TcpPacket.dataOffset (r.emit src dst payload)) = payload := by
    rw [r.dataOffset_emit _ _ _ hfit, emit, segment_split, List.drop_left' (length_headerOctets r _)]
  simp only [TcpPacket.ofOctets, view, hoptions, hmss, hpermitted, hscale, htimestamps, hports, hseqs, hbody,
    r.sackBlocks_entries hsack, hae, hmss', hpermitted', hscale', htimestamps']
  rfl

theorem newChecked_emit (hfit : r.headerLen ≤ 60) (hshift : ∀ shift ∈ r.windowScale, shift ≤ 14)
    (hsack : r.sack.length ≤ maxSackBlocks) :
    TcpPacket.newChecked (r.emit src dst payload) = .ok (r.view payload) := by
  obtain ⟨hmin, -, -⟩ := r.headerLen_bounds
  have hlen : (r.emit src dst payload).length = r.headerLen + payload.length := by
    rw [emit, length_segment]
  rw [TcpPacket.newChecked, dataOffset_emit _ _ _ _ hfit, hlen, if_neg (by omega), if_neg (by omega),
    if_neg (by omega), ofOctets_emit _ _ _ _ hfit hshift hsack]

end WireRepr

/-- Every segment whose options fit is read back as it was emitted: the datagram is
accepted, both checksums hold, the accessors return the fields, and the header is as
long as its data offset says. -/
theorem build_segment_round_trip (loc remote : Endpoint) (r : WireRepr) (payload : List UInt8)
    (hfit : r.headerLen ≤ 20 + 40) (hshift : ∀ shift ∈ r.windowScale, shift ≤ 14)
    (hsack : r.sack.length ≤ maxSackBlocks) (htotal : 20 + (r.headerLen + payload.length) < 65536) :
    ∃ buf segment, buildOctets loc remote r payload = some buf ∧
      Ipv4Packet.newChecked buf = .ok ⟨loc.ip, remote.ip, ipprotoTcp, 0, segment⟩ ∧
      Ipv4Packet.checksumValid buf = true ∧ tcpChecksumValid loc.ip remote.ip segment = true ∧
      TcpPacket.newChecked segment = .ok (r.view payload) ∧ TcpPacket.octet segment 13 = r.flags ∧
      TcpPacket.dataOffset segment = r.headerLen ∧
      ∃ header, segment = header ++ payload ∧ header.length = r.headerLen := by
  have hmod : (UInt16.ofNat (r.headerLen + payload.length)).toNat = r.headerLen + payload.length := by
    rw [UInt16.toNat_ofNat']
    omega
  have hlen : (r.emit loc.ip remote.ip payload).length = r.headerLen + payload.length := by
    rw [WireRepr.emit, WireRepr.length_segment]
  let ip : Ipv4Repr :=
    { src := loc.ip
      dst := remote.ip
      protocol := UInt8.ofNat ipprotoTcp
      payloadLen := UInt16.ofNat (r.headerLen + payload.length)
      ttl := 64
      ecn := 0 }
  have hip : ip.totalLen = 20 + (r.headerLen + payload.length) := congrArg (20 + ·) hmod
  obtain ⟨hview, hvalid⟩ := Ipv4Packet.newChecked_emit ip (r.emit loc.ip remote.ip payload)
    (by rw [hip, hlen]) (by rw [hip]; exact htotal)
  have hfields : (⟨ip.src, ip.dst, ip.protocol.toNat, (ip.ecn &&& 0x03 &&& 0x03).toNat,
      r.emit loc.ip remote.ip payload⟩ : Ipv4Packet) =
      ⟨loc.ip, remote.ip, ipprotoTcp, 0, r.emit loc.ip remote.ip payload⟩ :=
    congrArg₂ (Ipv4Packet.mk loc.ip remote.ip · · (r.emit loc.ip remote.ip payload))
      (by decide : (UInt8.ofNat ipprotoTcp).toNat = ipprotoTcp)
      (by decide : ((0 : UInt8) &&& 0x03 &&& 0x03).toNat = 0)
  rw [hfields] at hview
  refine ⟨ip.emit ++ r.emit loc.ip remote.ip payload, r.emit loc.ip remote.ip payload, ?_, hview, hvalid, ?_,
    r.newChecked_emit _ _ _ hfit hshift hsack, rfl, r.dataOffset_emit _ _ _ hfit, ?_⟩
  · exact if_neg (by change ¬ ip.totalLen < _; omega)
  · exact (tcpChecksumValid_iff _ _ _).mpr (r.emit_valid _ _ _)
  · exact ⟨_, r.segment_split payload _, r.length_headerOctets _⟩

/-- Text with four SACK blocks and the AE bit set: the timestamps leave room for three. -/
def selectiveAck : WireRepr :=
  { srcPort := 8080, dstPort := 40000, seq := SeqNumber.new 101, ack := SeqNumber.new 5001, flags := 0x18
    window := 4096, mss := none, sackPermitted := false
    sack := [(SeqNumber.new 5101, SeqNumber.new 5201), (SeqNumber.new 5301, SeqNumber.new 5401),
      (SeqNumber.new 5501, SeqNumber.new 5601), (SeqNumber.new 5701, SeqNumber.new 5801)]
    windowScale := none, timestamps := some (7, 9), ae := true }

theorem build_segment_round_trip_selectiveAck : ∃ buf segment,
    buildOctets ⟨0x0a000002, 8080⟩ ⟨0x0a000001, 40000⟩ selectiveAck [1, 2, 3] = some buf ∧
      Ipv4Packet.newChecked buf = .ok ⟨0x0a000002, 0x0a000001, ipprotoTcp, 0, segment⟩ ∧
      TcpPacket.newChecked segment = .ok (selectiveAck.view [1, 2, 3]) ∧
      (selectiveAck.view [1, 2, 3]).sackBlocks.length = 3 := by
  obtain ⟨buf, segment, hbuild, hip, -, -, hview, -⟩ := build_segment_round_trip ⟨0x0a000002, 8080⟩
    ⟨0x0a000001, 40000⟩ selectiveAck [1, 2, 3] (by decide) (by simp [selectiveAck]) (by decide) (by decide)
  exact ⟨buf, segment, hbuild, hip, hview, rfl⟩

/-! ## The fields of a datagram -/

/-- The fields fit their widths on the wire, and the options their forty bytes. -/
structure TcpRepr.Fits (r : TcpRepr) : Prop where
  window : r.window < 65536
  mss : ∀ mss ∈ r.mss, mss < 65536
  windowScale : ∀ shift ∈ r.windowScale, shift ≤ 14
  sack : r.sack.length ≤ maxSackBlocks
  options : r.wire.headerLen ≤ 20 + 40

theorem TcpFlags.ofOctet_octet (f : TcpFlags) : TcpFlags.ofOctet f.octet = f := by
  obtain ⟨fin, syn, rst, psh, ack, ece, cwr⟩ := f
  cases fin <;> cases syn <;> cases rst <;> cases psh <;> cases ack <;> cases ece <;> cases cwr <;> rfl

/-- A datagram kept as its fields is parsed as its bytes are. -/
theorem Datagram.newChecked_parse (d : Datagram) (h : d.repr.Fits) :
    TcpPacket.newChecked (d.repr.wire.emit d.src.ip d.dst.ip d.payload.data) = .ok d.parse := by
  have hshift : ∀ shift ∈ d.repr.wire.windowScale, shift ≤ 14 := by
    intro shift hs
    obtain ⟨n, hn, rfl⟩ := Option.map_eq_some_iff.mp hs
    have := h.windowScale n hn
    have h14 : (14 : UInt8).toNat = 14 := rfl
    rw [UInt8.le_iff_toNat_le, UInt8.toNat_ofNat', h14]
    omega
  rw [WireRepr.newChecked_emit _ _ _ _ h.options hshift h.sack]
  have hwindow : (UInt16.ofNat d.repr.window).toNat = d.repr.window := by
    have := h.window
    rw [UInt16.toNat_ofNat']
    omega
  have hmss : (d.repr.mss.map UInt16.ofNat).map UInt16.toNat = d.repr.mss := by
    cases hm : d.repr.mss with
    | none => rfl
    | some mss =>
      have := h.mss mss hm
      refine congrArg some ?_
      rw [UInt16.toNat_ofNat']
      omega
  have hscale : (d.repr.windowScale.map UInt8.ofNat).map UInt8.toNat = d.repr.windowScale.map (min · 14) := by
    cases hs : d.repr.windowScale with
    | none => rfl
    | some shift =>
      have := h.windowScale shift hs
      refine congrArg some ?_
      change (UInt8.ofNat shift).toNat = min shift 14
      rw [UInt8.toNat_ofNat']
      omega
  have hblocks : (if d.repr.timestamps.isSome then d.repr.sack.take 3 else d.repr.sack) =
      d.repr.sack.take d.repr.sackBlocksToEmit := by
    rw [TcpRepr.sackBlocksToEmit]
    split
    · rw [Nat.min_comm, ← List.take_take, List.take_length]
    · rw [Nat.min_eq_left h.sack, List.take_length]
  have hpayload : Bytes.ofList d.payload.data = d.payload := by
    obtain ⟨data, len, hlen⟩ := d.payload
    subst hlen
    rfl
  simp only [WireRepr.view, Datagram.parse, Except.ok.injEq, TcpPacket.mk.injEq]
  exact ⟨rfl, rfl, rfl, rfl, TcpFlags.ofOctet_octet _, rfl, hwindow, hmss, rfl, hscale, rfl, hblocks, hpayload⟩

/-- What a Tcb builds fits, if its own options do. -/
theorem Tcb.build_fits {κ : Type} [CongestionControl κ] (t : Tcb κ) (hmss : t.mssAdvertise < 65536)
    (hscale : t.rcvWscale ≤ 14) (seq : SeqNumber) (extra : TcpFlags) (payload : Bytes) :
    (t.build seq extra payload).2.repr.Fits := by
  have hreport : (t.reasm.report maxSackBlocks).length ≤ maxSackBlocks := by
    rw [Reasm.report, List.length_map, List.length_take]
    exact Nat.min_le_left _ _
  have hsack : (t.build seq extra payload).2.repr.sack.length ≤ maxSackBlocks := by
    change (if t.sackEnabled && !extra.syn then t.reasm.report maxSackBlocks else []).length ≤ _
    split
    · exact hreport
    · exact Nat.zero_le _
  refine ⟨?_, ?_, ?_, hsack, ?_⟩
  · exact Nat.lt_succ_of_le (Nat.min_le_right _ _)
  · intro mss hm
    change (if extra.syn then some t.mssAdvertise else none) = some mss at hm
    split at hm
    · cases hm
      exact hmss
    · cases hm
  · intro shift hs
    change (if extra.syn && t.windowScaling then some t.rcvWscale else none) = some shift at hs
    split at hs
    · cases hs
      exact hscale
    · cases hs
  · -- a SYN carries every option but SACK blocks, and other segments only those and timestamps
    have hn : (t.build seq extra payload).2.repr.wire.sackBlocksToEmit ≤
        if (t.build seq extra payload).2.repr.wire.timestamps.isSome then 3 else maxSackBlocks := Nat.min_le_right _ _
    have hnone : extra.syn = true → (t.build seq extra payload).2.repr.wire.sackBlocksToEmit = 0 := by
      intro hsyn
      have hnil : (t.build seq extra payload).2.repr.wire.sack = [] := by
        change (if t.sackEnabled && !extra.syn then t.reasm.report maxSackBlocks else []) = []
        rw [hsyn, Bool.not_true, Bool.and_false, if_neg Bool.false_ne_true]
      rw [WireRepr.sackBlocksToEmit, hnil]
      exact Nat.zero_min _
    have hplain : extra.syn = false → (t.build seq extra payload).2.repr.wire.mss = none ∧
        (t.build seq extra payload).2.repr.wire.sackPermitted = false ∧
        (t.build seq extra payload).2.repr.wire.windowScale = none := by
      intro hsyn
      change Option.map _ (if extra.syn then _ else _) = none ∧ (extra.syn && _) = false ∧
        Option.map _ (if extra.syn && _ then _ else _) = none
      rw [hsyn]
      exact ⟨rfl, rfl, rfl⟩
    unfold WireRepr.headerLen
    generalize (t.build seq extra payload).2.repr.wire = w at hn hnone hplain
    rw [maxSackBlocks] at hn
    cases hsyn : extra.syn with
    | true =>
      rw [hnone hsyn]
      split_ifs <;> omega
    | false =>
      obtain ⟨h1, h2, h3⟩ := hplain hsyn
      rw [h1, h2, h3]
      split at hn <;> rename_i hts <;> simp only [hts] <;> split_ifs <;> simp_all <;> omega

end Ferrumnet
