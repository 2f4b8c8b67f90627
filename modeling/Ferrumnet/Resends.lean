import Ferrumnet.HalfOpen
import Ferrumnet.Recovery

/-
  Where what is sent again lies.

  A transmission of `poll_transmit` is the oldest segment once more, a hole below a
  range the peer has reported, or what starts at `SND.NXT`; and whichever stage sent
  it says what is left of the go-back-N flag.

  1. `Reported.onSegment`, `sacked_pollTransmit` — the ranges the peer has reported
     start within what was sent.
  2. `flag_pollTransmit` — a poll leaves the flag set only by sending something.
  3. `transmit_lies` — where each source of a transmission lies.
-/

namespace Ferrumnet

namespace Tcb

variable {κ : Type} [CongestionControl κ] {t u : Tcb κ} {now : Instant} {p : TcpPacket}

/-! ## What the peer has reported -/

/-- Every range the peer has reported starts at or before `SND.NXT`; without SACK
and before the handshake is over there is none. -/
structure Reported (t : Tcb κ) : Prop where
  starts : t.scoreboard.Starts t.sndUna t.inflight
  off : t.sackEnabled = false → t.scoreboard.sacked = []
  opening : t.state = .synSent ∨ t.state = .synReceived → t.scoreboard.sacked = []

omit [CongestionControl κ] in
theorem Reported.of_nil (h : t.scoreboard.sacked = []) : t.Reported := by
  refine ⟨fun run hr => ?_, fun _ => h, fun _ => h⟩
  rw [h] at hr
  cases hr

omit [CongestionControl κ] in
/-- Stages that leave the ranges and the send space alone. -/
theorem Reported.keep (h : t.Reported) (hsacked : u.scoreboard.sacked = t.scoreboard.sacked)
    (hs : u.toSendSpace = t.toSendSpace) (ho : u.sackEnabled = t.sackEnabled)
    (hst : u.state = .synSent ∨ u.state = .synReceived → t.state = .synSent ∨ t.state = .synReceived) :
    u.Reported := by
  refine ⟨fun run hr => ?_, fun hoff => ?_, fun hopen => ?_⟩
  · rw [hsacked] at hr
    have := h.starts run hr
    simp only [inflight] at this ⊢
    rwa [hs]
  · rw [hsacked]
    exact h.off (ho.symm.trans hoff)
  · rw [hsacked]
    exact h.opening (hst hopen)

theorem Reported.advanceTsRecent (h : t.Reported) (p : TcpPacket) : (t.advanceTsRecent p).Reported := by
  have hcore := t.core_advanceTsRecent p
  refine h.keep (congrArg (fun l => l.2.2) (t.loss_advanceTsRecent p)) (congrArg Core.toSendSpace hcore)
    (congrArg (fun c : Core => c.sackEnabled) hcore) fun hopen => ?_
  rwa [show (t.advanceTsRecent p).state = t.state from congrArg Core.state hcore] at hopen

/-- An advancing ACK trims the ranges to the new `SND.UNA`. -/
theorem sacked_ackAdvance (a : SeqNumber) (e : Option (BitVec 32)) (ace : Nat) (now : Instant) :
    (t.ackAdvance a e ace now).scoreboard.sacked =
      if t.sackEnabled then Scoreboard.trimRuns t.scoreboard.sacked a else t.scoreboard.sacked := by
  have htimer : ∀ v : Tcb κ, (v.ackTimer now).scoreboard = v.scoreboard := by
    intro v
    simp only [ackTimer]
    split <;> split <;> rfl
  have hgbn : ∀ v : Tcb κ, v.ackGbn.scoreboard = v.scoreboard := by
    intro v
    simp only [ackGbn]
    split
    · split <;> rfl
    · rfl
  have hrtt : ∀ v : Tcb κ, (v.ackRtt now a e).scoreboard.sacked = v.scoreboard.sacked :=
    fun v => congrArg (fun l => l.2.2) (v.loss_ackRtt now a e)
  have hboard : ∀ v : Tcb κ, (v.ackScoreboard now).scoreboard.sacked =
      if v.sackEnabled then Scoreboard.trimRuns v.scoreboard.sacked v.sndUna
      else v.scoreboard.sacked := by
    intro v
    simp only [ackScoreboard]
    split
    · split <;> rfl
    · rfl
  -- the stages before the scoreboard leave it and `SND.UNA` alone
  have hearly : ∀ (v : Tcb κ) (n : Nat) (b : Bool),
      (v.ackEcn now ace n b).scoreboard.sacked = v.scoreboard.sacked ∧
        (v.ackEcn now ace n b).sackEnabled = v.sackEnabled ∧
        (v.ackEcn now ace n b).sndUna = v.sndUna := by
    intro v n b
    have hc := v.core_ackEcn now ace n b
    exact ⟨congrArg (fun l => l.2.2) (v.loss_ackEcn now ace n b),
      congrArg (fun c : Core => c.sackEnabled) hc, congrArg (fun c : Core => c.sndUna) hc⟩
  simp only [ackAdvance]
  rw [htimer, hrtt, hgbn, hboard]
  obtain ⟨h1, h2, h3⟩ := hearly _ _ _
  rw [h1, h2, h3]
  rfl

/-- `process_ack` moves the ranges with `SND.UNA`. -/
theorem Reported.advanced (h : t.Reported) (hw : t.inflight < 2147483648)
    (hst : t.state ≠ .synSent ∧ t.state ≠ .synReceived) (hnew : p.ack.gt t.sndNxt = false) (now : Instant) :
    (t.advanced now p).Reported ∧ (t.advanced now p).inflight ≤ t.inflight := by
  have hstay : ∀ v : Tcb κ, v.Reported → v.inflight ≤ t.inflight → (v.state = t.state) →
      (v.updateWindow p.seq p.ack p.window).Reported ∧
        (v.updateWindow p.seq p.ack p.window).inflight ≤ t.inflight := by
    intro v hv hle hvs
    have hc := v.core_updateWindow p.seq p.ack p.window
    have hs : (v.updateWindow p.seq p.ack p.window).toSendSpace = v.toSendSpace := congrArg Core.toSendSpace hc
    refine ⟨hv.keep (congrArg (fun l => l.2.2) (v.loss_updateWindow p.seq p.ack p.window)) hs
      (congrArg (fun c : Core => c.sackEnabled) hc) fun hopen => ?_, ?_⟩
    · have hst' : (v.updateWindow p.seq p.ack p.window).state = v.state := congrArg Core.state hc
      rwa [hst'] at hopen
    · simp only [inflight, hs]
      exact hle
  unfold Tcb.advanced
  split
  · rename_i hgt
    generalize (t.segTs p).map (·.2) = e
    obtain ⟨hpos, hsum⟩ := SeqNumber.offsetFrom_between hgt hnew hw
    have hc := t.core_ackAdvance now p.ack e p.ace
    have hsend : (t.ackAdvance p.ack e p.ace now).toSendSpace = t.toSendSpace.consume p.ack :=
      congrArg Core.toSendSpace hc
    have hopt : (t.ackAdvance p.ack e p.ace now).sackEnabled = t.sackEnabled :=
      congrArg (fun c : Core => c.sackEnabled) hc
    have hstate : (t.ackAdvance p.ack e p.ace now).state = t.state := congrArg Core.state hc
    have hinflight : (t.ackAdvance p.ack e p.ace now).inflight = t.sndNxt.offsetFrom p.ack := by
      simp only [inflight, hsend]
      rfl
    have hsacked := t.sacked_ackAdvance p.ack e p.ace now
    refine hstay _ ⟨?_, fun hoff => ?_, fun hopen => ?_⟩ ?_ hstate
    · rw [hinflight, congrArg SendSpace.sndUna hsend]
      cases hsack : t.sackEnabled with
      | true =>
        rw [hsack, if_pos rfl] at hsacked
        have htrim := h.starts.trim hw hsum
        intro run hr
        rw [hsacked] at hr
        exact htrim run hr
      | false =>
        rw [hsack, if_neg (by simp), h.off hsack] at hsacked
        intro run hr
        rw [hsacked] at hr
        cases hr
    · rw [hopt] at hoff
      rw [hsacked, hoff, if_neg (by simp)]
      exact h.off hoff
    · rw [hstate] at hopen
      exact (hopen.elim hst.1 hst.2).elim
    · rw [hinflight]
      change _ ≤ t.sndNxt.offsetFrom t.sndUna
      omega
  · exact hstay _ h le_rfl rfl

theorem Reported.sackIngest (h : t.Reported) (hw : t.inflight < 2147483648) (hsack : t.sackEnabled = true)
    (hst : t.state ≠ .synSent ∧ t.state ≠ .synReceived) (d : Bool) (bs : List SackBlock) :
    (t.sackIngest now d bs).Reported := by
  have hc := t.core_sackIngest now d bs
  have hsend : (t.sackIngest now d bs).toSendSpace = t.toSendSpace := congrArg Core.toSendSpace hc
  have hsacked : (t.sackIngest now d bs).scoreboard.sacked =
      (t.scoreboard.update t.sndUna t.sndNxt bs).sacked := by
    simp only [Tcb.sackIngest, sackDetect]
    split
    · split <;> split <;> rfl
    · rfl
  have hstarts := Scoreboard.Starts.update (show t.sndNxt.offsetFrom t.sndUna < 2147483648 from hw) h.starts bs
  refine ⟨fun run hr => ?_, fun hoff => ?_, fun hopen => ?_⟩
  · rw [hsacked] at hr
    simp only [inflight, hsend]
    exact hstarts run hr
  · have hopt : (t.sackIngest now d bs).sackEnabled = t.sackEnabled :=
      congrArg (fun c : Core => c.sackEnabled) hc
    rw [hopt, hsack] at hoff
    cases hoff
  · have hstate : (t.sackIngest now d bs).state = t.state := congrArg Core.state hc
    rw [hstate] at hopen
    rcases hopen with ho | ho
    · exact absurd ho hst.1
    · exact absurd ho hst.2

/-- The losses an ACK shows leave what was reported in place, or add what it reports. -/
theorem Reported.detected (h : t.Reported) (hw : t.inflight < 2147483648)
    (hst : t.state ≠ .synSent ∧ t.state ≠ .synReceived) (d : Bool) : (t.detected now p d).Reported := by
  unfold Tcb.detected
  split
  · rename_i hsack
    exact h.sackIngest hw hsack hst _ _
  · split
    · have hc := t.core_legacyDupAck now
      have hsacked : (t.legacyDupAck now).scoreboard.sacked = t.scoreboard.sacked := by
        simp only [legacyDupAck]
        split <;> rfl
      have hstate : (t.legacyDupAck now).state = t.state := congrArg Core.state hc
      exact h.keep hsacked (congrArg Core.toSendSpace hc) (congrArg (fun c : Core => c.sackEnabled) hc)
        fun hopen => by rwa [hstate] at hopen
    · exact h

theorem Reported.acks (h : t.Reported) (hw : t.inflight < 2147483648)
    (hst : t.state ≠ .synSent ∧ t.state ≠ .synReceived) (hnew : p.ack.gt t.sndNxt = false) :
    (t.acks now p).Reported := by
  obtain ⟨hadv, hle⟩ := h.advanced hw hst hnew now
  have hstate : (t.advanced now p).state = t.state := congrArg Core.state (t.core_advanced now p)
  exact hadv.detected (by omega) (by rwa [hstate]) _

theorem Reported.onText (h : t.Reported) (hst : t.state ≠ .synSent ∧ t.state ≠ .synReceived) (ce : Bool) :
    (t.onText now p ce).Reported := by
  have hcore := t.core_onText now p ce
  have hstate : (t.onText now p ce).state = _ := congrArg Core.state hcore
  refine h.keep (congrArg Prod.snd (t.marks_onText now p ce)) (congrArg Core.toSendSpace hcore)
    (congrArg (fun c : Core => c.sackEnabled) hcore) fun hopen => ?_
  rcases hopen with ho | ho
  · exact absurd (hstate.symm.trans ho) (Host.closingState_ne hst.1 (.inl rfl))
  · exact absurd (hstate.symm.trans ho) (Host.closingState_ne hst.2 (.inr rfl))

/-- A segment past SYN-SENT. -/
theorem Reported.onSegment (h : t.Reported) (hw : t.inflight < 2147483648) (hns : t.state ≠ .synSent)
    (ce : Bool) : (t.onSegment now p ce).Reported := by
  have hcore := t.core_advanceTsRecent p
  have hsend : (t.advanceTsRecent p).toSendSpace = t.toSendSpace := congrArg Core.toSendSpace hcore
  have hstate : (t.advanceTsRecent p).state = t.state := congrArg Core.state hcore
  have hrecent := h.advanceTsRecent p
  have hreceipt := t.onSegment_receipt now p ce hns
  generalize t.onSegment now p ce = u at hreceipt
  cases hreceipt with
  | spared => exact h.keep rfl rfl rfl id
  | reset => exact h.keep rfl rfl rfl fun hopen => absurd hopen (by simp)
  | lingers => exact h.keep rfl rfl rfl id
  | synAgain hdup => exact .of_nil (h.opening (.inr (t.core.state_of_dupSyn p hdup)))
  | badAck => exact hrecent.keep rfl rfl rfl fun hopen => absurd hopen (by simp)
  | opens hrec =>
    have hopened : ((t.advanceTsRecent p).opened p).Reported := by
      have hl := ({ t.advanceTsRecent p with sndUna := p.ack } : Tcb κ).loss_updateWindow p.seq p.ack p.window
      exact .of_nil ((congrArg (fun l => l.2.2) hl).trans (hrecent.opening (.inr (hstate.trans hrec))))
    exact hopened.onText (by simp [opened]) ce
  | taken hrec _ hv =>
    have hst : (t.advanceTsRecent p).state ≠ .synSent ∧ (t.advanceTsRecent p).state ≠ .synReceived := by
      rw [hstate]
      exact ⟨hns, hrec⟩
    have hnew : p.ack.gt (t.advanceTsRecent p).sndNxt = false := by
      rw [congrArg SendSpace.sndNxt hsend]
      exact t.core.not_gt_of_validAck p hrec hv
    have hw' : (t.advanceTsRecent p).inflight < 2147483648 := by
      simp only [inflight, hsend]
      exact hw
    have hlate := ((t.advanceTsRecent p).state_acks now p hst.2).trans hstate
    exact (hrecent.acks hw' hst hnew).onText (by rw [hlate]; exact ⟨hns, hrec⟩) ce

/-! ## What a transmission leaves behind -/

variable (t) (now)

omit [CongestionControl κ] in
@[simp] theorem marks_noteRexmit (seq : SeqNumber) (n : Nat) (rescue : Bool) :
    (t.noteRexmit seq n rescue).marks = t.marks := by
  have hmark : (t.scoreboard.markRexmit seq (seq + n)).sacked = t.scoreboard.sacked := by
    unfold Scoreboard.markRexmit
    split <;> rfl
  simp only [noteRexmit, marks]
  split
  · exact congrArg (Prod.mk _) hmark
  · exact congrArg (Prod.mk _) hmark

theorem marks_sackRetransmit : (t.sackRetransmit now).1.marks = t.marks := by
  simp only [sackRetransmit]
  split
  · split
    · split
      · split
        · simp only [Emit.after, marks_startRtx, marks_noteRexmit]
          rfl
        · rfl
      · rfl
    · rfl
  · rfl

theorem marks_sendNewData : (t.sendNewData now).1.marks = t.marks := by
  have hpace : (t.pace now (min t.cwndRoom t.rwndRoom)).1.marks = t.marks :=
    congrArg Prod.snd (t.loss_pace now _)
  simp only [sendNewData]
  generalize t.pace now (min t.cwndRoom t.rwndRoom) = p at hpace ⊢
  split
  · simp only [sendAllowed]
    split
    · simp only [Emit.after, marks_startRtx, ← hpace]
      simp only [noteSent]
      split <;> split <;> rfl
    · exact hpace
  · split
    · have harm : (p.1.armPersist now).marks = p.1.marks := congrArg Prod.snd (loss_armPersist ..)
      rw [← hpace, ← harm]
      unfold probe
      split <;> rfl
    · exact hpace

theorem marks_sendFin : (t.sendFin now).1.marks = t.marks := by
  simp only [sendFin]
  split
  · simp only [Emit.after, noteFin]
    exact marks_startRtx ..
  · rfl

theorem marks_emitOwedAck : t.emitOwedAck.1.marks = t.marks := congrArg Prod.snd t.loss_emitOwedAck

/-- The go-back-N step consumes the flag if anything is in flight. -/
theorem marks_retransmitOldest :
    (t.retransmitOldest now).1.marks =
      (t.retransmit && !decide (t.inflight > 0), t.scoreboard.sacked) := by
  simp only [retransmitOldest]
  split
  · rename_i h
    have hrest : ∀ v : Tcb κ, (v.resendOldest now).1.marks = v.marks := by
      intro v
      simp only [resendOldest]
      split
      · simp only [Emit.after, marks_startRtx]
        rfl
      · split
        · split
          · simp only [Emit.after, marks_startRtx]
            rfl
          · rfl
        · rfl
    rw [hrest, (Bool.and_eq_true_iff.mp h).1, (Bool.and_eq_true_iff.mp h).2]
    rfl
  · rename_i h
    rw [Bool.not_eq_true] at h
    cases hf : t.retransmit with
    | false => simp [marks, hf]
    | true =>
      rw [hf, Bool.true_and] at h
      rw [h]
      simp [marks, hf]

theorem marks_transmitDataOrFin :
    ((t.transmitDataOrFin now).orElse (·.emitOwedAck)).1.marks =
      (t.retransmit && !decide (t.inflight > 0), t.scoreboard.sacked) := by
  refine Emit.orElse_frame marks ?_ (fun u => u.marks_emitOwedAck)
  refine Emit.orElse_frame marks ?_ (fun u => u.marks_sendFin now)
  refine Emit.orElse_frame marks ?_ (fun u => u.marks_sendNewData now)
  exact Emit.orElse_frame marks (t.marks_retransmitOldest now) (fun u => u.marks_sackRetransmit now)

/-- No transmission changes what the peer has reported. -/
theorem sacked_pollTransmit : (t.pollTransmit now).1.scoreboard.sacked = t.scoreboard.sacked := by
  unfold pollTransmit
  generalize hu : ({ t with curTsval := BitVec.ofNat 32 now.micros } : Tcb κ) = u
  have hs : u.scoreboard.sacked = t.scoreboard.sacked := by rw [← hu]
  rw [← hs]
  dsimp only
  split
  · rfl
  split
  · rfl
  · rfl
  · unfold pollSynSent
    split
    · exact congrArg Prod.snd (marks_startRtx ..)
    · split <;> rfl
  · unfold pollSynReceived
    split
    · exact congrArg Prod.snd (marks_startRtx ..)
    · split
      · rfl
      · exact congrArg Prod.snd u.marks_emitOwedAck
  · exact congrArg Prod.snd u.marks_emitOwedAck
  · exact congrArg Prod.snd (u.marks_transmitDataOrFin now)

/-- Past the handshake, the flag outlives a transmission only with nothing in flight,
or behind a RST. -/
theorem flag_pollTransmit (hs : t.state.synchronized = true)
    (hf : (t.pollTransmit now).1.retransmit = true) :
    t.retransmit = true ∧ (t.pendingReset ≠ none ∨ t.inflight = 0) := by
  unfold pollTransmit at hf
  generalize hu : ({ t with curTsval := BitVec.ofNat 32 now.micros } : Tcb κ) = u at hf
  have h1 : u.retransmit = t.retransmit := by rw [← hu]
  have h2 : u.pendingReset = t.pendingReset := by rw [← hu]
  have h3 : u.inflight = t.inflight := by rw [← hu]; rfl
  have h4 : u.state = t.state := by rw [← hu]
  rw [← h1, ← h2, ← h3]
  rw [← h4] at hs
  dsimp only at hf
  split at hf
  · rename_i q hq
    exact ⟨hf, .inl (by rw [hq]; simp)⟩
  split at hf
  · rename_i hst; rw [hst] at hs; cases hs
  · rename_i hst; rw [hst] at hs; cases hs
  · rename_i hst; rw [hst] at hs; cases hs
  · rename_i hst; rw [hst] at hs; cases hs
  · rename_i hst; rw [hst] at hs; cases hs
  · have hm := congrArg Prod.fst (u.marks_transmitDataOrFin now)
    have hm' : ((u.transmitDataOrFin now).orElse (·.emitOwedAck)).1.retransmit =
        (u.retransmit && !decide (u.inflight > 0)) := hm
    rw [hm', Bool.and_eq_true, Bool.not_eq_true', decide_eq_false_iff_not] at hf
    exact ⟨hf.1, .inr (by omega)⟩

/-! ## Where a transmission lies -/

/-- The sequence numbers of text: the payload, and a FIN. -/
def occupies (d : Datagram) : Nat := d.payload.len + d.repr.flags.fin.toNat

variable {t} {now} {d : Datagram}

theorem occupies_build (v : Tcb κ) (seq : SeqNumber) (extra : TcpFlags) (payload : Bytes) :
    occupies (v.build seq extra payload).2 = payload.len + extra.fin.toNat := by
  obtain ⟨-, -, hpay, hfin, -⟩ := v.build_spec seq extra payload
  rw [occupies, hpay, hfin]

omit [CongestionControl κ] in
theorem Emit.orElse_emits {q : Emit κ} {next : Tcb κ → Emit κ} (h : (q.orElse next).2 = some d) :
    q.2 = some d ∨ (q.2 = none ∧ (next q.1).2 = some d) := by
  obtain ⟨v, o⟩ := q
  cases o with
  | some d' => exact .inl h
  | none => exact .inr ⟨rfl, h⟩

/-- The go-back-N step resends from `SND.UNA`, what is in flight. -/
theorem retransmitOldest_lies (h : (t.retransmitOldest now).2 = some d) :
    t.retransmit = true ∧ d.repr.seq = t.sndUna ∧ occupies d ≤ t.inflight := by
  simp only [retransmitOldest] at h
  split at h
  · rename_i hr
    simp only [Bool.and_eq_true, decide_eq_true_eq] at hr
    refine ⟨hr.1, ?_⟩
    simp only [resendOldest] at h
    split at h
    · cases h
      refine ⟨rfl, ?_⟩
      rw [occupies_build, RingBuffer.peek_len, Bool.toNat_false]
      have hsame : ({ t with retransmit := false } : Tcb κ).inflight = t.inflight := rfl
      rw [hsame]
      omega
    · split at h
      · rename_i f hf
        split at h
        · rename_i hat
          simp only [Bool.and_eq_true, decide_eq_true_eq] at hat
          cases h
          refine ⟨hat.2.symm, ?_⟩
          rw [occupies_build, Bytes.empty_len, Bool.toNat_true]
          exact hr.2
        · cases h
      · cases h
  · cases h

/-- A SACK repair stays below what the peer has reported. -/
theorem sackRetransmit_lies {e : Nat} (hs : t.scoreboard.Starts t.sndUna e) (he : e ≤ t.inflight)
    (hw : t.inflight < 2147483648) (h : (t.sackRetransmit now).2 = some d) :
    d.repr.seq.offsetFrom t.sndUna + occupies d ≤ e := by
  simp only [sackRetransmit] at h
  split at h
  · split at h
    · split at h
      · rename_i seq rescue hnext
        split at h
        · cases h
          have hrep := hs.repair he hw hnext
          rw [(t.build_spec _ _ _).1, occupies_build, RingBuffer.peek_len, Bool.toNat_false]
          omega
        · cases h
      · cases h
    · cases h
  · cases h

/-- New data starts at `SND.NXT`; so does a probe, as nothing is in flight. -/
theorem sendNewData_lies (h : (t.sendNewData now).2 = some d) : d.repr.seq = t.sndNxt := by
  obtain ⟨hc, -, -⟩ := t.pace_core now (min t.cwndRoom t.rwndRoom)
  simp only [sendNewData] at h
  generalize t.pace now (min t.cwndRoom t.rwndRoom) = q at hc h
  have hsend : q.1.toSendSpace = t.toSendSpace := congrArg Core.toSendSpace hc
  split at h
  · simp only [sendAllowed] at h
    split at h
    · cases h
      exact congrArg SendSpace.sndNxt hsend
    · cases h
  · split at h
    · rename_i hz
      simp only [Bool.and_eq_true, decide_eq_true_eq] at hz
      have harm : (q.1.armPersist now).toSendSpace = t.toSendSpace :=
        (congrArg Core.toSendSpace (core_armPersist q.1 now)).trans hsend
      unfold probe at h
      split at h
      · cases h
        refine (congrArg SendSpace.sndUna harm).trans ?_
        exact ((SeqNumber.eq_iff_offsetFrom _ _).mpr hz.1.2).symm
      · cases h
    · cases h

omit [CongestionControl κ] in
theorem sendFin_lies (h : (t.sendFin now).2 = some d) : d.repr.seq = t.sndNxt := by
  simp only [sendFin] at h
  split at h
  · rename_i hf
    simp only [Bool.and_eq_true, decide_eq_true_eq] at hf
    cases h
    exact hf.2.symm
  · cases h

omit [CongestionControl κ] in
/-- A step that sends nothing leaves the core alone. -/
theorem DataStep.none_core {q : Emit κ} (h : DataStep t q) (hn : q.2 = .none) : q.1.core = t.core := by
  rcases h with ⟨-, hc, -⟩ | ⟨_, _, _, _, _, _, _, _, _, _, hsome⟩
  · exact hc
  · rw [hsome] at hn
    cases hn

/-- Where a transmission with text lies: a resend of what is in flight, a repair of
what the peer has reported, or new. -/
theorem transmit_lies {e : Nat} (hst : t.state.synchronized = true)
    (hs : t.scoreboard.Starts t.sndUna e) (he : e ≤ t.inflight) (hw : t.inflight < 2147483648)
    (h : ((t.transmitDataOrFin now).orElse (·.emitOwedAck)).2 = some d) (hocc : 0 < occupies d) :
    (t.retransmitOldest now).2 = some d ∨ d.repr.seq.offsetFrom t.sndUna + occupies d ≤ e ∨
      d.repr.seq = t.sndNxt := by
  obtain ⟨hstep0, hstep1, hstep2⟩ := t.data_stages now hst hw
  rcases Emit.orElse_emits h with h | ⟨-, h⟩
  · rcases Emit.orElse_emits h with h | ⟨hn2, h⟩
    · rcases Emit.orElse_emits h with h | ⟨hn1, h⟩
      · rcases Emit.orElse_emits h with h | ⟨hn0, h⟩
        · exact .inl h
        · -- the repair works on the same scoreboard and the same space
          have hc := hstep0.none_core hn0
          have hsend : (t.retransmitOldest now).1.toSendSpace = t.toSendSpace :=
            congrArg Core.toSendSpace hc
          have hin : (t.retransmitOldest now).1.inflight = t.inflight := congrArg Core.inflight hc
          have hboard : (t.retransmitOldest now).1.scoreboard.sacked = t.scoreboard.sacked :=
            congrArg Prod.snd (t.marks_retransmitOldest now)
          have hs' : (t.retransmitOldest now).1.scoreboard.Starts
              (t.retransmitOldest now).1.sndUna e := by
            intro run hr
            rw [hboard] at hr
            rw [congrArg SendSpace.sndUna hsend]
            exact hs run hr
          have hlies := sackRetransmit_lies hs' (by omega) (by omega) h
          rw [congrArg SendSpace.sndUna hsend] at hlies
          exact .inr (.inl hlies)
      · have hsend := congrArg Core.toSendSpace (hstep1.none_core hn1)
        exact .inr (.inr ((sendNewData_lies h).trans (congrArg SendSpace.sndNxt hsend)))
    · have hsend := congrArg Core.toSendSpace (hstep2.none_core hn2)
      exact .inr (.inr ((sendFin_lies h).trans (congrArg SendSpace.sndNxt hsend)))
  · unfold emitOwedAck at h
    split at h
    · cases h
      rw [occupies_build] at hocc
      exact absurd hocc (by simp)
    · cases h

/-- The handshake leaves no flag behind. -/
theorem opened_flag (hst : t.state = .synSent ∨ t.state = .synReceived) (ce : Bool)
    (h : (t.onSegment now p ce).state.synchronized = true) :
    (t.onSegment now p ce).retransmit = false := by
  have hno : t.state.synchronized ≠ true := by
    rcases hst with hst | hst <;> rw [hst] <;> simp [State.synchronized]
  by_cases hsent : t.state = .synSent
  · rw [Tcb.onSegment, if_pos hsent] at h ⊢
    have hgreeting := t.onSegmentSynSent_greeting p
    generalize t.onSegmentSynSent p = u at hgreeting h
    cases hgreeting with
    | ignored => exact absurd h hno
    | refused => exact absurd h hno
    | reset => exact absurd h (by simp [State.synchronized])
    | opened => rfl
    | crossed => exact absurd h (by simp [State.synchronized])
  have hreceipt := t.onSegment_receipt now p ce hsent
  generalize t.onSegment now p ce = u at hreceipt h
  cases hreceipt with
  | spared => exact absurd h hno
  | reset => exact absurd h (by simp [State.synchronized])
  | lingers => exact absurd h hno
  | synAgain => exact absurd h hno
  | badAck => exact absurd h (by simp [State.synchronized])
  | opens => exact congrArg Prod.fst (((t.advanceTsRecent p).opened p).marks_onText now p ce)
  | taken hrec => exact absurd (hst.resolve_left hsent) hrec

end Tcb

end Ferrumnet
