import Ferrumnet.Drained

/-
  Whether a segment has room for payload.

  `max_segment_payload` takes the options that `build` puts on a segment off SND.MSS.
  The MSS is the peer's to choose, down to zero, and no constructor checks it.

  1. `maxSegmentPayload_eq` — what is taken off is exactly the options of the segment.
  2. `Ready.poll` — with room for a byte, data to send and both windows open, every call
     of the transmit loop sends text, or leaves the connection as ready as it was, or
     ends the loop with the pacing timer armed.
  3. `segment_room` — an established connection has room, and makes progress, exactly
     if its options leave some of the MSS; 40 bytes are enough.
  4. `mss_stalls` — an MSS of 12 beside timestamps stalls it with no timer armed.
-/

namespace Ferrumnet

/-- The option bytes of a segment that is not a SYN. -/
def TcpRepr.optionLen (r : TcpRepr) : Nat :=
  (if r.timestamps.isSome then 12 else 0) +
    (if r.sackBlocksToEmit > 0 then 4 + 8 * r.sackBlocksToEmit else 0)

/-- The most that they can take under these options. -/
def optionRoom (tsEnabled sackEnabled : Bool) : Nat :=
  match tsEnabled, sackEnabled with
  | false, false => 0
  | true, false => 12
  | false, true => 36
  | true, true => 40

namespace Tcb

variable {κ : Type} (t : Tcb κ)

/-- The option bytes of the next segment. -/
def optionLen (t : Tcb κ) : Nat := (t.build t.sndNxt {} Bytes.empty).2.repr.optionLen

theorem report_length : (t.reasm.report maxSackBlocks).length = min maxSackBlocks t.reasm.runs.length := by
  rw [Reasm.report, List.length_map, List.length_take, List.length_insertionSort]

/-- The SACK blocks that the next segment carries. -/
def sackBlocks (t : Tcb κ) : Nat :=
  if t.sackEnabled then min t.reasm.runs.length (if t.tsEnabled then 3 else 4) else 0

theorem optionLen_eq : t.optionLen =
    (if t.tsEnabled then 12 else 0) + (if t.sackBlocks > 0 then 4 + 8 * t.sackBlocks else 0) := by
  have hlen := t.report_length
  have hcap : maxSackBlocks = 4 := rfl
  have hstamps : (t.build t.sndNxt {} Bytes.empty).2.repr.timestamps.isSome = t.tsEnabled := by
    change (if t.tsEnabled then some (t.curTsval, t.tsRecent) else none).isSome = _
    split
    · rename_i h
      rw [h]
      rfl
    · rename_i h
      rw [Bool.eq_false_iff.mpr h]
      rfl
  have hsack : (t.build t.sndNxt {} Bytes.empty).2.repr.sack.length =
      if t.sackEnabled then min 4 t.reasm.runs.length else 0 := by
    change (if t.sackEnabled && !false then t.reasm.report maxSackBlocks else []).length = _
    rw [Bool.not_false, Bool.and_true]
    split
    · rw [hlen, hcap]
    · rfl
  have hblocks : (t.build t.sndNxt {} Bytes.empty).2.repr.sackBlocksToEmit = t.sackBlocks := by
    rw [TcpRepr.sackBlocksToEmit, hsack, hstamps, hcap, sackBlocks]
    split
    · split <;> omega
    · rw [Nat.zero_min]
  rw [optionLen, TcpRepr.optionLen, hstamps, hblocks]

/-- The byte count of `max_segment_payload` is that of the segment. -/
theorem maxSegmentPayload_eq : t.maxSegmentPayload = t.sndMss - t.optionLen := by
  have hlen := t.report_length
  have hcap : maxSackBlocks = 4 := rfl
  have hempty : t.reasm.isEmpty = decide (t.reasm.runs.length = 0) := by
    rw [Reasm.isEmpty]
    cases t.reasm.runs with
    | nil => rfl
    | cons run runs => rfl
  rw [optionLen_eq, sackBlocks]
  simp only [maxSegmentPayload, hlen, hempty]
  congr 2
  cases t.sackEnabled with
  | false => rfl
  | true =>
    by_cases hz : t.reasm.runs.length = 0
    · rw [decide_eq_true hz, hz]
      rfl
    · rw [decide_eq_false hz]
      simp only [Bool.not_false, Bool.and_self, if_true]
      have hmin : (if t.tsEnabled = true then min (min maxSackBlocks t.reasm.runs.length) 3
          else min maxSackBlocks t.reasm.runs.length) =
          min t.reasm.runs.length (if t.tsEnabled = true then 3 else 4) := by
        rw [hcap]
        split <;> omega
      rw [hmin]

/-- However many blocks are reported. -/
theorem optionLen_le : t.optionLen ≤ optionRoom t.tsEnabled t.sackEnabled := by
  rw [optionLen_eq, sackBlocks]
  cases t.tsEnabled with
  | true =>
    cases t.sackEnabled with
    | true =>
      simp only [if_true, optionRoom]
      split <;> omega
    | false => exact le_rfl
  | false =>
    cases t.sackEnabled with
    | true =>
      simp only [if_true, Bool.false_eq_true, if_false, optionRoom]
      split <;> omega
    | false => exact le_rfl

/-! ## Progress -/

variable [CongestionControl κ]

/-- Established, with data to send, room in both windows and in a segment. -/
structure Ready (t : Tcb κ) : Prop where
  state : t.state = .established
  data : 0 < t.unsentData
  room : 0 < t.windowRoom
  payload : 1 ≤ t.maxSegmentPayload

/-- Being ready depends on neither timers nor flags. -/
theorem Ready.congr {t u : Tcb κ} (h : t.Ready) (hsend : u.toSendSpace = t.toSendSpace)
    (hopts : u.toOptions = t.toOptions) (hwnd : u.sndWnd = t.sndWnd) (hreasm : u.reasm = t.reasm)
    (hst : u.state = t.state) (hcc : u.cc = t.cc) (hboard : u.scoreboard = t.scoreboard) : u.Ready where
  state := hst.trans h.state
  data := by
    have hd := h.data
    simp only [unsentData, sentData, inflight, hsend] at hd ⊢
    exact hd
  room := by
    have hr := h.room
    simp only [windowRoom, cwndRoom, rwndRoom, inflight, hsend, hopts, hwnd, hcc, hboard] at hr ⊢
    exact hr
  payload := by
    have hp := h.payload
    simp only [maxSegmentPayload, hopts, hreasm] at hp ⊢
    exact hp

/-- With room in a segment, only pacing keeps data back, and then its timer is armed. -/
theorem Ready.paced {t : Tcb κ} (h : t.Ready) (now : Instant) (hz : t.portion now = 0) :
    (t.lowered.gated now).paceDeadline ≠ none := by
  have hzero : t.allowance now = 0 := by
    have h1 := h.data
    have h2 := h.payload
    rw [portion] at hz
    omega
  have hopen : ¬ t.Shut := by
    rintro ⟨-, -, hshut⟩
    have hroom := h.room
    rw [windowRoom, hshut, Nat.min_zero] at hroom
    exact absurd hroom (Nat.lt_irrefl 0)
  have hgated : t.lowered.gated now = t.lowered.paced now := by
    unfold gated
    rw [if_neg]
    rintro ⟨-, hshut⟩
    exact hopen hshut
  rw [hgated]
  have hroom := h.room
  have hlow := t.allowance_lowered now
  rw [hzero] at hlow
  have hroom' : 0 < t.lowered.windowRoom := hroom
  have hdata : 0 < t.lowered.unsentData := h.data
  generalize t.lowered = u at hlow hroom' hdata ⊢
  revert hlow
  simp only [Tcb.allowance, Tcb.paced, pace]
  split
  · intro hnone
    exact absurd hnone (Nat.ne_of_gt hroom')
  · rename_i rate _
    generalize ({ u with paceDeadline := none } : Tcb κ).paceAllowance now rate u.maxSegmentPayload = p
    intro hmin
    have hsmall : p.2 = 0 := by
      change min u.windowRoom p.2 = 0 at hmin
      omega
    have harms : (p.2 < u.windowRoom && u.unsentData > 0) = true := by
      rw [hsmall, decide_eq_true hroom', decide_eq_true hdata]
      rfl
    rw [if_pos harms]
    simp [armPace]

end Tcb

namespace Host

variable {κ : Type} [CongestionControl κ] {r : Host κ} {now : Instant}

/-- What the data path of a ready connection emits is text. -/
theorem Ok.ready_source (hok : r.Ok) (h : r.tcb.Ready) {q : Tcb.Emit κ} (hs : Tcb.Source r.tcb now q)
    (he : q.2.isSome = true) : ∃ d, q.2 = some d ∧ 0 < d.payload.len := by
  have hphase := hok.phase
  rw [h.state] at hphase
  cases hs with
  | resend n _ _ hn hpos =>
    refine ⟨_, rfl, ?_⟩
    change 0 < min n (r.tcb.tx.len - 0)
    omega
  | resendFin finSeq _ _ _ hfin _ _ => exact absurd (hphase.2.symm.trans hfin) (by simp)
  | repair seq n isRescue _ _ _ _ hn hpos =>
    refine ⟨_, rfl, ?_⟩
    change 0 < min n (r.tcb.tx.len - seq.offsetFrom r.tcb.sndUna)
    omega
  | data n hn hpos =>
    refine ⟨_, rfl, ?_⟩
    have hle : n ≤ r.tcb.tx.len - r.tcb.sentData := by
      change n ≤ r.tcb.unsentData
      rw [hn, Tcb.portion]
      omega
    change 0 < min n (r.tcb.tx.len - r.tcb.sentData)
    omega
  | probe _ hshut _ =>
    have hroom := h.room
    rw [Tcb.windowRoom, hshut.2.2, Nat.min_zero] at hroom
    exact absurd hroom (Nat.lt_irrefl 0)
  | fin _ _ _ hat =>
    -- everything is in flight by then
    have hlen := hok.sending.len_le
    rw [← hok.sending.tx_len] at hlen
    have hin : r.tcb.inflight = r.tcb.tx.len := by
      rw [Tcb.inflight, hat, Tcb.dataEnd, SeqNumber.offsetFrom_add]
      omega
    have hdata := h.data
    rw [Tcb.unsentData, Tcb.sentData, hin, Nat.min_self] at hdata
    omega
  | quiet _ => cases he

/-- One call of the transmit loop. -/
theorem Ok.ready_poll (hok : r.Ok) (h : r.tcb.Ready) (now : Instant) :
    (∃ d, (r.tcb.pollTransmit now).2 = some d ∧ 0 < d.payload.len) ∨
      ((r.tcb.pollTransmit now).2.isSome = true ∧ (r.tcb.pollTransmit now).1.Ready) ∨
      ((r.tcb.pollTransmit now).2 = none ∧ (r.tcb.pollTransmit now).1.paceDeadline ≠ none) := by
  have hturn := r.tcb.pollTransmit_turn now
  have hclocked : (r.tcb.clocked now).Ready := h.congr rfl rfl rfl rfl rfl rfl rfl
  have hne : ∀ {st : State}, st ≠ .established → r.tcb.state ≠ st := fun hst he => hst (he.symm.trans h.state)
  generalize r.tcb.pollTransmit now = q at hturn ⊢
  cases hturn with
  | rst _ _ => exact .inr (.inl ⟨rfl, h.congr rfl rfl rfl rfl rfl rfl rfl⟩)
  | mute _ hst => exact (hst.elim (hne (by simp)) (hne (by simp))).elim
  | syn _ hst _ | synAgain _ hst _ _ | synWaits _ hst _ _ | synAck _ hst _ | synAckAgain _ hst _ _ =>
    exact (hne (by simp) hst).elim
  | sends _ _ hs he =>
    exact .inl (Ok.ready_source (r := { r with tcb := r.tcb.clocked now }) ⟨hok.sending, hok.phase⟩ hclocked hs he)
  | ack _ hi _ =>
    refine .inr (.inl ⟨rfl, ?_⟩)
    cases hi with
    | synReceived hst _ _ | timeWait hst => exact (hne (by simp) hst).elim
    | data _ _ =>
      have hcore := (r.tcb.clocked now).lowered.core_gated now
      have hrec := ((r.tcb.clocked now).lowered.owed_gated now).2
      exact hclocked.congr (congrArg Core.toSendSpace hcore) (congrArg Core.toOptions hcore)
        (congrArg (fun c : Core => c.sndWnd) hcore) (congrArg (fun c : Core => c.reasm) hcore)
        (congrArg Core.state hcore)
        ((congrArg LossRecovery.cc hrec).trans rfl) ((congrArg LossRecovery.scoreboard hrec).trans rfl)
  | idle _ hi _ =>
    refine .inr (.inr ⟨rfl, ?_⟩)
    cases hi with
    | synReceived hst _ _ | timeWait hst => exact (hne (by simp) hst).elim
    | data _ hz => exact hclocked.paced now hz

/-- The transmit loop of a ready connection sends text, or ends with the pacing timer
armed. -/
theorem Ok.ready_drain (hok : r.Ok) (h : r.tcb.Ready) {fuel : Nat} {t : Tcb κ} {out : List Datagram}
    (hd : r.tcb.drain now fuel = some (t, out)) : (∃ d ∈ out, 0 < d.payload.len) ∨ t.paceDeadline ≠ none := by
  induction fuel generalizing r out with
  | zero => cases hd
  | succ fuel ih =>
    have hpoll := hok.ready_poll h now
    rw [Tcb.drain] at hd
    split at hd
    · rename_i hnone
      cases hd
      rcases hpoll with ⟨d, he, -⟩ | ⟨he, -⟩ | ⟨-, hpace⟩
      · rw [hnone] at he
        cases he
      · rw [hnone] at he
        cases he
      · exact .inr hpace
    · rename_i d he
      obtain ⟨⟨u, rest⟩, hrest, heq⟩ := Option.map_eq_some_iff.mp hd
      cases heq
      rcases hpoll with ⟨d', he', hlen⟩ | ⟨-, hready⟩ | ⟨he', -⟩
      · rw [he] at he'
        cases he'
        exact .inl ⟨d, List.mem_cons_self, hlen⟩
      · rcases ih (r := r.follow (r.tcb.pollTransmit now).1) (hok.poll now) hready hrest with ⟨d', hm, hlen⟩ | hpace
        · exact .inl ⟨d', List.mem_cons_of_mem _ hm, hlen⟩
        · exact .inr hpace
      · rw [he] at he'
        cases he'

/-- A segment has room for payload; and with data to send and both windows open the
transmit loop sends text, or leaves the pacing timer armed. -/
structure Roomy (r : Host κ) : Prop where
  payload : 1 ≤ r.tcb.maxSegmentPayload
  progress : 0 < r.tcb.unsentData → 0 < r.tcb.windowRoom → ∀ now, ∃ (fuel : Nat) (t : Tcb κ)
    (out : List Datagram), r.tcb.drain now fuel = some (t, out) ∧
      ((∃ d ∈ out, 0 < d.payload.len) ∨ t.paceDeadline ≠ none)

/-- An established connection has room exactly if its options leave some of the MSS. -/
theorem segment_room {r₀ : Host κ} {is : List Input} (h0 : r₀.Opens) (hr : Run.run step r₀ is = some r)
    (hst : r.tcb.state = .established) : (r.Roomy ↔ r.tcb.optionLen < r.tcb.sndMss) ∧
      (optionRoom r.tcb.tsEnabled r.tcb.sackEnabled < r.tcb.sndMss → r.Roomy) := by
  obtain ⟨hok, hboard⟩ := board_run h0 hr
  have heq := r.tcb.maxSegmentPayload_eq
  have hroom : r.tcb.optionLen < r.tcb.sndMss → r.Roomy := by
    intro hlt
    have hpayload : 1 ≤ r.tcb.maxSegmentPayload := by omega
    refine ⟨hpayload, fun hdata hopen now => ?_⟩
    obtain ⟨t, out, hd, -⟩ := drain_some hok hboard now (Nat.lt_succ_self _)
    exact ⟨_, t, out, hd, hok.ready_drain ⟨hst, hdata, hopen, hpayload⟩ hd⟩
  refine ⟨⟨fun h => ?_, hroom⟩, fun hlt => hroom (r.tcb.optionLen_le.trans_lt hlt)⟩
  have hpayload := h.payload
  omega

theorem segment_room_loaded : ∃ r : Host Reno, Run.run step accepted loaded = some r ∧
    r.tcb.state = .established ∧ 0 < r.tcb.unsentData ∧ r.Roomy := by
  obtain ⟨r, hr, hst, hdata, hlt⟩ := Run.exists_run step accepted loaded
    (fun r => r.tcb.state = .established ∧ 0 < r.tcb.unsentData ∧ r.tcb.optionLen < r.tcb.sndMss)
    (by decide +kernel)
  exact ⟨r, hr, hst, hdata, (segment_room accepted_opens hr hst).1.mpr hlt⟩

/-- The host that has accepted a peer with timestamps and an MSS of 12. -/
def cramped : Host Reno :=
  fresh ((Tcb.newSynReceived ⟨2, 80⟩ ⟨1, 1000⟩
    { peerSyn with mssOption := some 12, timestamps := some (1, 0), sackPermitted := false } (SeqNumber.new 100) ⟨0⟩
    65495).setCongestionControl .reno)

/-- Established, with five octets to send. -/
def crampedRun : List Input :=
  [.poll ⟨0⟩, .segment ⟨{ peerSegment 5001 {} Bytes.empty with timestamps := some (1, 0) }, by decide⟩ ⟨0⟩ false,
    .send (Bytes.replicate 5 7)]

/-- Both windows are open, nothing is emitted, and no timer is armed. -/
theorem mss_stalls : ∃ r : Host Reno, Run.run step cramped crampedRun = some r ∧
    r.tcb.state = .established ∧ r.tcb.maxSegmentPayload = 0 ∧ r.tcb.unsentData = 5 ∧ 0 < r.tcb.windowRoom ∧
    (r.input (.poll ⟨0⟩)).2 = none ∧ (r.input (.poll ⟨0⟩)).1.tcb.pollAt = none ∧ ¬ r.Roomy := by
  obtain ⟨r, hr, h1, h2, h3, h4, h5, h6⟩ := Run.exists_run step cramped crampedRun
    (fun r => r.tcb.state = .established ∧ r.tcb.maxSegmentPayload = 0 ∧ r.tcb.unsentData = 5 ∧
      0 < r.tcb.windowRoom ∧ (r.input (.poll ⟨0⟩)).2 = none ∧ (r.input (.poll ⟨0⟩)).1.tcb.pollAt = none)
    (by decide +kernel)
  refine ⟨r, hr, h1, h2, h3, h4, h5, h6, fun h => ?_⟩
  have hpayload := h.payload
  omega

end Host

end Ferrumnet
