import Ferrumnet.Payload
import Ferrumnet.Octets

/-
  No data segment exceeds the MSS, its options included.

  The payload limit is computed ahead of the segment, by `max_segment_payload`, and the
  options are laid down behind it, by `build` and `header_len`, each with a cap of its
  own on the SACK blocks. They agree on whatever is buffered out of order.

  1. `headerLen_build` — the header of a segment that is not a SYN.
  2. `Source.within` — every source of data: new data, go-back-N, SACK repair, probe.
  3. `data_within_mss` — every call of `poll_transmit`, in any state.
-/

namespace Ferrumnet

namespace Tcb

variable {κ : Type} {t u : Tcb κ}

/-- The header that is emitted for a segment other than a SYN: the fixed part, and the
options that `max_segment_payload` counts. -/
theorem headerLen_build (t : Tcb κ) (seq : SeqNumber) {extra : TcpFlags} (payload : Bytes) (h : extra.syn = false) :
    (t.build seq extra payload).2.repr.wire.headerLen = 20 + t.optionLen := by
  have hstamps : (t.build seq extra payload).2.repr.timestamps =
      (t.build t.sndNxt {} Bytes.empty).2.repr.timestamps := rfl
  have hsack : (t.build seq extra payload).2.repr.sack = (t.build t.sndNxt {} Bytes.empty).2.repr.sack := by
    change (if t.sackEnabled && !extra.syn then _ else _) = (if t.sackEnabled && !false then _ else _)
    rw [h]
  have hmss : (t.build seq extra payload).2.repr.mss = none := by
    change (if extra.syn then _ else _) = _
    rw [h]
    rfl
  have hscale : (t.build seq extra payload).2.repr.windowScale = none := by
    change (if extra.syn && t.windowScaling then _ else _) = _
    rw [h]
    rfl
  have hperm : (t.build seq extra payload).2.repr.sackPermitted = false := by
    change (extra.syn && t.sackEnabled) = _
    rw [h]
    rfl
  generalize (t.build seq extra payload).2.repr = r at hstamps hsack hmss hscale hperm
  have hblocks : r.wire.sackBlocksToEmit = (t.build t.sndNxt {} Bytes.empty).2.repr.sackBlocksToEmit := by
    change min r.sack.length (if r.timestamps.isSome then 3 else maxSackBlocks) = _
    rw [hsack, hstamps]
    rfl
  rw [WireRepr.headerLen, hblocks, optionLen, TcpRepr.optionLen]
  change 20 + (if (r.mss.map UInt16.ofNat).isSome then 4 else 0) + (if r.sackPermitted then 4 else 0) +
    (if (r.windowScale.map UInt8.ofNat).isSome then 4 else 0) + (if r.timestamps.isSome then 12 else 0) + _ = _
  rw [hmss, hscale, hperm, hstamps]
  exact Nat.add_assoc ..

/-- The options depend on what is negotiated and on what is buffered. -/
theorem optionLen_of_core (h : u.core = t.core) : u.optionLen = t.optionLen := by
  have hopt : u.toOptions = t.toOptions := congrArg Core.toOptions h
  have hreasm : u.reasm = t.reasm := congrArg (fun c : Core => c.reasm) h
  rw [optionLen_eq, optionLen_eq, sackBlocks, sackBlocks, hopt, hreasm]

/-- The segment has the options that were taken off SND.MSS, and fits it with them. -/
structure Within (t : Tcb κ) (d : Datagram) : Prop where
  predicted : d.repr.wire.headerLen = 20 + (t.sndMss - t.maxSegmentPayload)
  fits : d.repr.wire.headerLen - 20 + d.payload.len ≤ t.sndMss

/-- What a state of the same core builds, with at most the payload there is room for. -/
theorem build_within (hmss : 64 ≤ t.sndMss) (hc : u.core = t.core) (seq : SeqNumber) {extra : TcpFlags}
    (h : extra.syn = false) {payload : Bytes} (hlen : payload.len ≤ max 1 t.maxSegmentPayload) :
    t.Within (u.build seq extra payload).2 := by
  have hheader := u.headerLen_build seq payload h
  have hle : t.optionLen ≤ 40 := by
    refine t.optionLen_le.trans ?_
    unfold optionRoom
    split <;> omega
  have hmax := t.maxSegmentPayload_eq
  rw [optionLen_of_core hc] at hheader
  refine ⟨?_, ?_⟩
  · rw [hheader, hmax]
    omega
  · change _ + payload.len ≤ _
    rw [hheader]
    omega

variable [CongestionControl κ] {now : Instant}

/-- Every source of data. -/
theorem Source.within {q : Emit κ} (hs : Source t now q) (hmss : 64 ≤ t.sndMss) {d : Datagram}
    (he : q.2 = some d) (hd : 0 < d.payload.len) : t.Within d := by
  cases hs with
  | resend n _ _ hn _ =>
    cases he
    refine build_within (u := { t with retransmit := false }) hmss rfl _ rfl ?_
    calc (t.tx.peek 0 n).len = min n (t.tx.len - 0) := RingBuffer.peek_len ..
      _ ≤ max 1 t.maxSegmentPayload := by omega
  | resendFin finSeq _ _ _ _ _ _ =>
    cases he
    exact absurd hd (Nat.lt_irrefl 0)
  | repair seq n isRescue _ _ _ _ hn _ =>
    cases he
    refine build_within (u := t.lowered) hmss rfl _ rfl ?_
    calc (t.tx.peek (seq.offsetFrom t.sndUna) n).len
        = min n (t.tx.len - seq.offsetFrom t.sndUna) := RingBuffer.peek_len ..
      _ ≤ max 1 t.maxSegmentPayload := by omega
  | data n hn _ =>
    cases he
    refine build_within hmss (t.lowered.core_paced now) _ rfl ?_
    rw [portion] at hn
    calc (t.tx.peek t.sentData n).len = min n (t.tx.len - t.sentData) := RingBuffer.peek_len ..
      _ ≤ max 1 t.maxSegmentPayload := by omega
  | probe _ _ _ =>
    cases he
    -- one byte, whatever room there is
    refine build_within (u := { t.lowered.gated now with sendProbe := false }) hmss
      (t.lowered.core_gated now) _ rfl ?_
    calc (t.tx.peek 0 1).len = min 1 (t.tx.len - 0) := RingBuffer.peek_len ..
      _ ≤ max 1 t.maxSegmentPayload := by omega
  | fin _ _ _ _ =>
    cases he
    exact absurd hd (Nat.lt_irrefl 0)
  | quiet _ => cases he

/-- Every data segment, whichever path emits it: its options are those that were taken
off, and with the payload they fit SND.MSS. -/
theorem data_within_mss (t : Tcb κ) (now : Instant) (hmss : 64 ≤ t.sndMss) {d : Datagram}
    (he : (t.pollTransmit now).2 = some d) (hd : 0 < d.payload.len) :
    d.repr.wire.headerLen = 20 + (t.sndMss - t.maxSegmentPayload) ∧
      d.repr.wire.headerLen - 20 + d.payload.len ≤ t.sndMss := by
  have hturn := t.pollTransmit_turn now
  have hempty : ∀ {d' : Datagram}, d'.payload = Bytes.empty → d' = d → False := by
    intro d' hp heq
    rw [← heq, hp] at hd
    exact Nat.lt_irrefl 0 hd
  generalize t.pollTransmit now = q at hturn he
  cases hturn with
  | sends _ _ hs _ =>
    obtain ⟨h1, h2⟩ := hs.within (t := t.clocked now) hmss he hd
    exact ⟨h1, h2⟩
  | mute _ _ => cases he
  | synWaits _ _ _ _ => cases he
  | idle _ _ _ => cases he
  | rst seq _ => exact (hempty rfl (Option.some.inj he)).elim
  | syn _ _ _ => exact (hempty rfl (Option.some.inj he)).elim
  | synAgain _ _ _ _ => exact (hempty rfl (Option.some.inj he)).elim
  | synAck _ _ _ => exact (hempty rfl (Option.some.inj he)).elim
  | synAckAgain _ _ _ _ => exact (hempty rfl (Option.some.inj he)).elim
  | ack _ _ _ => exact (hempty rfl (Option.some.inj he)).elim

end Tcb

namespace Host

/-- The first segment of three thousand octets. -/
theorem data_within_mss_loaded : ∃ (r : Host Reno) (d : Datagram), Run.run step accepted loaded = some r ∧
    (r.tcb.pollTransmit ⟨0⟩).2 = some d ∧ d.payload.len = r.tcb.sndMss ∧
    d.repr.wire.headerLen - 20 + d.payload.len ≤ r.tcb.sndMss := by
  obtain ⟨r, hr, hmss, hlen⟩ := Run.exists_run step accepted loaded
    (fun r => 64 ≤ r.tcb.sndMss ∧ (r.tcb.pollTransmit ⟨0⟩).2.map (·.payload.len) = some r.tcb.sndMss)
    (by decide +kernel)
  obtain ⟨d, hd, hfull⟩ := Option.map_eq_some_iff.mp hlen
  exact ⟨r, d, hr, hd, hfull, (r.tcb.data_within_mss ⟨0⟩ hmss hd (by omega)).2⟩

end Host

end Ferrumnet
