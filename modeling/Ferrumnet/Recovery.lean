import Ferrumnet.Closing
import Ferrumnet.Receipt

/-
  The bookkeeping of loss recovery, through every stage.

  `marks` are the go-back-N flag and the ranges the peer has reported; `loss` adds
  the retransmission timer. Most stages leave them alone; each has a simp lemma
  saying so. What starts the timer or leaves it and the send space alone is
  `Rearms`, and that composes.

  1. `armed_onSegment`, `armed_onTimer`, `rearms_pollTransmit` — each call keeps the
     timer running while something is outstanding.
  2. `outstanding_armed` — so does every run.
-/

namespace Ferrumnet

namespace Tcb

set_option linter.unusedSectionVars false

variable {κ : Type} [CongestionControl κ] (t : Tcb κ) (now : Instant)

/-- The go-back-N flag, and what the peer has selectively acknowledged. -/
def marks (t : Tcb κ) : Bool × List Run := (t.retransmit, t.scoreboard.sacked)

/-- The retransmission timer, and the marks. -/
def loss (t : Tcb κ) : Option Instant × Bool × List Run := (t.rtxDeadline, t.marks)

/-! ## Stages that leave them alone -/

@[simp] theorem marks_startRtx : (t.startRtx now).marks = t.marks := by
  unfold startRtx
  split <;> rfl

@[simp] theorem loss_armPersist : (t.armPersist now).loss = t.loss := by
  unfold armPersist
  split <;> rfl

@[simp] theorem loss_armDelayedAck : (t.armDelayedAck now).loss = t.loss := by
  unfold armDelayedAck
  split <;> rfl

@[simp] theorem loss_updateWindow (q a : SeqNumber) (w : Nat) :
    (t.updateWindow q a w).loss = t.loss := by
  simp only [updateWindow]
  split <;> rfl

@[simp] theorem loss_advanceTsRecent (p : TcpPacket) : (t.advanceTsRecent p).loss = t.loss := by
  simp only [advanceTsRecent]
  split
  · split <;> rfl
  · rfl

@[simp] theorem loss_ackEcn (ace n : Nat) (b : Bool) : (t.ackEcn now ace n b).loss = t.loss := by
  simp only [ackEcn]
  split
  · split <;> rfl
  · rfl

@[simp] theorem loss_ackRtt (a : SeqNumber) (e : Option (BitVec 32)) :
    (t.ackRtt now a e).loss = t.loss := by
  simp only [ackRtt]
  split
  · split
    · split <;> rfl
    · rfl
  · split
    · rfl
    · split
      · split <;> rfl
      · rfl

@[simp] theorem loss_scheduleAck (b : Bool) : (t.scheduleAck now b).loss = t.loss := by
  simp only [scheduleAck]
  split
  · split
    · rfl
    · exact loss_armDelayedAck ..
  · rfl

@[simp] theorem loss_onData (p : TcpPacket) (ce : Bool) : (t.onData now p ce).loss = t.loss := by
  simp only [onData]
  split
  · rfl
  · rw [loss_scheduleAck]
    split <;> rfl

@[simp] theorem loss_onFin (p : TcpPacket) : (t.onFin p).loss = t.loss := by
  unfold onFin
  split <;> rfl

@[simp] theorem loss_onPendingFin : t.onPendingFin.loss = t.loss := by
  unfold onPendingFin
  split
  · split <;> rfl
  · rfl

@[simp] theorem loss_onPersistTimer : (t.onPersistTimer now).loss = t.loss := by
  simp only [onPersistTimer]
  split <;> rfl

@[simp] theorem loss_onTimeWaitTimer : (t.onTimeWaitTimer now).loss = t.loss := by
  simp only [onTimeWaitTimer]
  split <;> rfl

@[simp] theorem loss_onDelayedAckTimer : (t.onDelayedAckTimer now).loss = t.loss := by
  simp only [onDelayedAckTimer]
  split <;> rfl

@[simp] theorem loss_emitOwedAck : t.emitOwedAck.1.loss = t.loss := by
  unfold emitOwedAck
  split <;> rfl

theorem loss_pace (n : Nat) : (t.pace now n).1.loss = t.loss := by
  simp only [pace]
  split
  · rfl
  · split <;> rfl

/-- Step 8 stops the timer only on the way into TIME-WAIT. -/
theorem marks_recomputeClosingState : (t.recomputeClosingState now).marks = t.marks := by
  simp only [recomputeClosingState]
  split
  · split <;> rfl
  · rfl

theorem loss_recomputeClosingState (h : (t.recomputeClosingState now).state ≠ .timeWait) :
    (t.recomputeClosingState now).loss = t.loss := by
  have hst : (t.recomputeClosingState now).state = closingState t.state t.finAcked t.peerFinSeen :=
    congrArg Core.state (t.core_recomputeClosingState now)
  rw [hst] at h
  simp only [recomputeClosingState]
  split
  · split
    · exact absurd (by assumption) h
    · rfl
    · rfl
  · rfl

theorem marks_onText (p : TcpPacket) (ce : Bool) : (t.onText now p ce).marks = t.marks := by
  have h : (((t.onData now p ce).onFin p).onPendingFin).loss = t.loss := by simp
  exact (marks_recomputeClosingState _ now).trans (congrArg Prod.snd h)

theorem loss_onText (p : TcpPacket) (ce : Bool) (h : (t.onText now p ce).state ≠ .timeWait) :
    (t.onText now p ce).loss = t.loss := by
  have hquiet : (((t.onData now p ce).onFin p).onPendingFin).loss = t.loss := by simp
  exact (loss_recomputeClosingState _ now h).trans hquiet

/-! ## The timer -/

/-- The timer runs while something is outstanding. -/
def Armed (t : Tcb κ) : Prop := t.sndUna ≠ t.sndNxt → t.rtxDeadline.isSome = true

/-- The timer runs afterwards, or neither it nor the send space has changed. -/
def Rearms (t u : Tcb κ) : Prop :=
  u.rtxDeadline.isSome = true ∨ (u.rtxDeadline = t.rtxDeadline ∧ u.toSendSpace = t.toSendSpace)

variable {t} {now} {u v : Tcb κ}

theorem Rearms.armed (h : Rearms t u) (ht : t.Armed) : u.Armed := by
  intro hne
  rcases h with h | ⟨h1, h2⟩
  · exact h
  · rw [h2] at hne
    rw [h1]
    exact ht hne

theorem Rearms.trans (h : Rearms t u) (h' : Rearms u v) : Rearms t v := by
  rcases h' with h' | ⟨h1, h2⟩
  · exact .inl h'
  · rcases h with h | ⟨h3, h4⟩
    · exact .inl (by rw [h1]; exact h)
    · exact .inr ⟨h1.trans h3, h2.trans h4⟩

/-- Stages that touch neither. -/
theorem Rearms.of_loss (hl : u.loss = t.loss) (hs : u.toSendSpace = t.toSendSpace) : Rearms t u :=
  .inr ⟨congrArg Prod.fst hl, hs⟩

theorem Rearms.orElse {p : Emit κ} {next : Tcb κ → Emit κ} (hp : Rearms t p.1)
    (hnext : ∀ w : Tcb κ, Rearms w (next w).1) : Rearms t (p.orElse next).1 := by
  obtain ⟨w, o⟩ := p
  cases o with
  | some d => exact hp
  | none => exact hp.trans (hnext w)

variable (t) (now)

theorem startRtx_isSome : (t.startRtx now).rtxDeadline.isSome = true := by
  unfold startRtx
  split
  · rfl
  · rename_i h
    exact Option.ne_none_iff_isSome.mp fun hn => h (by rw [hn]; rfl)

/-- The last step of an advancing ACK settles the timer. -/
theorem armed_ackTimer : (t.ackTimer now).Armed := by
  intro hne
  have hcore := t.core_ackTimer now
  have hsend : (t.ackTimer now).toSendSpace = t.toSendSpace := congrArg Core.toSendSpace hcore
  rw [hsend] at hne
  simp only [ackTimer]
  split
  · split
    · rename_i he
      exact absurd he hne
    · rfl
  · split
    · rename_i he
      exact absurd he hne
    · rfl

theorem rearms_sackDetect (d : Bool) : Rearms t (t.sackDetect now d) := by
  simp only [sackDetect]
  split
  · split
    · split
      · exact .inl rfl
      · exact .inr ⟨rfl, rfl⟩
    · split
      · exact .inl rfl
      · exact .inr ⟨rfl, rfl⟩
  · exact .inr ⟨rfl, rfl⟩

theorem rearms_sackIngest (d : Bool) (bs : List SackBlock) : Rearms t (t.sackIngest now d bs) :=
  rearms_sackDetect { t with scoreboard := t.scoreboard.update t.sndUna t.sndNxt bs } now d

theorem rearms_legacyDupAck : Rearms t (t.legacyDupAck now) := by
  simp only [legacyDupAck]
  split
  · exact .inl rfl
  · exact .inr ⟨rfl, rfl⟩

variable {t} {now} {p : TcpPacket}

theorem armed_acks (h : t.Armed) : (t.acks now p).Armed := by
  have hadv : (t.advanced now p).Armed := by
    have hstep : ∀ v : Tcb κ, v.Armed → (v.updateWindow p.seq p.ack p.window).Armed := by
      intro v hv
      have hs : (v.updateWindow p.seq p.ack p.window).toSendSpace = v.toSendSpace :=
        congrArg Core.toSendSpace (v.core_updateWindow p.seq p.ack p.window)
      exact (Rearms.of_loss (v.loss_updateWindow p.seq p.ack p.window) hs).armed hv
    refine hstep _ ?_
    split
    · unfold ackAdvance
      exact armed_ackTimer _ now
    · exact h
  unfold acks detected
  split
  · exact (rearms_sackIngest _ now _ _).armed hadv
  · split
    · exact (rearms_legacyDupAck _ now).armed hadv
    · exact hadv

/-- Before the handshake is over, only the SYN can be outstanding. -/
def Opening (t : Tcb κ) : Prop :=
  t.state = .synReceived → t.sndUna = t.iss ∧ t.sndNxt.offsetFrom t.iss ≤ 1

/-- What the first ACK acknowledges is the SYN, and nothing else was sent. -/
theorem armed_opened (ho : t.Opening) (hst : t.state = .synReceived) (hv : t.core.validAck p = true) :
    (t.opened p).Armed := by
  intro hne
  have hc : t.core.state = .synReceived := hst
  obtain ⟨hat, hone⟩ := ho hst
  have hsend : (t.opened p).toSendSpace = { t.toSendSpace with sndUna := p.ack } := by
    have hcore := congrArg Core.toSendSpace (t.core_opened p hst)
    rwa [Core.acked, Core.ackedSend, if_pos hc] at hcore
  have hne' : p.ack ≠ t.sndNxt := by
    rw [hsend] at hne
    exact hne
  simp only [Core.validAck, if_pos hc, Bool.and_eq_true, core_send] at hv
  rw [SeqNumber.le_eq, Bool.not_eq_true', hat] at hv
  obtain ⟨h1, h2⟩ := SeqNumber.offsetFrom_between hv.1 hv.2 (by omega)
  exact absurd ((SeqNumber.eq_iff_offsetFrom _ _).mpr (by omega)).symm hne'

/-- A segment past SYN-SENT: the timer keeps running unless it closes the connection
or leads to TIME-WAIT. -/
theorem armed_onSegment (h : t.Armed) (ho : t.Opening) (hns : t.state ≠ .synSent) (ce : Bool)
    (h1 : (t.onSegment now p ce).state ≠ .closed) (h2 : (t.onSegment now p ce).state ≠ .timeWait) :
    (t.onSegment now p ce).Armed := by
  have hcore := t.core_advanceTsRecent p
  have hsend : (t.advanceTsRecent p).toSendSpace = t.toSendSpace := congrArg Core.toSendSpace hcore
  have hstate : (t.advanceTsRecent p).state = t.state := congrArg Core.state hcore
  have htext : ∀ v : Tcb κ, (v.onText now p ce).state ≠ .timeWait → v.Armed → (v.onText now p ce).Armed :=
    fun v hv => (Rearms.of_loss (v.loss_onText now p ce hv)
      (congrArg Core.toSendSpace (v.core_onText now p ce))).armed
  have hreceipt := t.onSegment_receipt now p ce hns
  generalize t.onSegment now p ce = u at hreceipt h1 h2
  cases hreceipt with
  | spared => exact h
  | reset => exact absurd rfl h1
  | lingers htw => exact absurd htw h2
  | synAgain hdup =>
    -- `SND.NXT` goes back to `SND.UNA`
    exact fun hne => absurd (ho (t.core.state_of_dupSyn p hdup)).1 hne
  | badAck => exact absurd rfl h1
  | opens hrec _ hv =>
    refine htext _ h2 (armed_opened (fun hst => ?_) (hstate.trans hrec) ?_)
    · rw [hsend]
      exact ho (hstate.symm.trans hst)
    · rw [hcore]
      exact hv
  | taken => exact htext _ h2 (armed_acks ((Rearms.of_loss (t.loss_advanceTsRecent p) hsend).armed h))

/-- In SYN-SENT, the ACK of the SYN acknowledges all that was sent. -/
theorem armed_synSent (h : t.Armed) (hone : t.sndNxt.offsetFrom t.iss ≤ 1)
    (h1 : (t.onSegmentSynSent p).state ≠ .closed) : (t.onSegmentSynSent p).Armed := by
  have hgreeting := t.onSegmentSynSent_greeting p
  generalize t.onSegmentSynSent p = u at hgreeting h1
  cases hgreeting with
  | ignored => exact h
  | refused => exact h
  | reset => exact absurd rfl h1
  | opened _ _ hacks =>
    intro hne
    have hne' : p.ack ≠ t.sndNxt := hne
    simp only [Core.acksSyn, Bool.and_eq_true, core_send] at hacks
    rw [SeqNumber.le_eq, Bool.not_eq_true'] at hacks
    obtain ⟨h2, h3⟩ := SeqNumber.offsetFrom_between hacks.1.2 hacks.2 (by omega)
    exact absurd ((SeqNumber.eq_iff_offsetFrom _ _).mpr (by omega)).symm hne'
  | crossed => exact h

variable (t) (now)

/-- A timeout restarts the timer; the one in SYN-SENT may give up instead. -/
theorem rearms_onTimer (h : (t.onTimer now).state ≠ .closed) : Rearms t (t.onTimer now) := by
  have hrest : ∀ u : Tcb κ, ((u.onPersistTimer now).onTimeWaitTimer now).onDelayedAckTimer now =
      t.onTimer now → Rearms u (t.onTimer now) := by
    intro u hu
    rw [← hu] at h ⊢
    refine .of_loss (by simp) ?_
    have hcore := core_onTimeWaitTimer (u.onPersistTimer now) now
    have hcore' : ((((u.onPersistTimer now).onTimeWaitTimer now).onDelayedAckTimer now)).core =
        ((u.onPersistTimer now).onTimeWaitTimer now).core := core_onDelayedAckTimer ..
    rcases hcore with hc | hc
    · rw [hc, core_onPersistTimer] at hcore'
      exact congrArg Core.toSendSpace hcore'
    · rw [hc] at hcore'
      exact absurd (congrArg Core.state hcore') h
  have hrtx : Rearms t (t.onRtxTimer now) ∨ (t.onRtxTimer now).state = .closed := by
    simp only [onRtxTimer]
    split
    · split
      · simp only [synTimeout]
        split
        · exact .inr rfl
        · exact .inl (.inl rfl)
      · exact .inl (.inl rfl)
    · exact .inl (.inr ⟨rfl, rfl⟩)
  refine (hrtx.resolve_right fun hc => h ?_).trans (hrest _ rfl)
  have hcore := core_onTimeWaitTimer ((t.onRtxTimer now).onPersistTimer now) now
  have hst : (t.onTimer now).core.state =
      (((t.onRtxTimer now).onPersistTimer now).onTimeWaitTimer now).core.state := by
    rw [onTimer, core_onDelayedAckTimer]
  change (t.onTimer now).core.state = _
  rw [hst]
  rcases hcore with hc' | hc'
  · rw [hc', core_onPersistTimer]
    exact hc
  · rw [hc']
    rfl

/-! ## `poll_transmit` -/

theorem rearms_resendOldest : Rearms t (t.resendOldest now).1 := by
  simp only [resendOldest]
  split
  · exact .inl (startRtx_isSome ..)
  · split
    · split
      · exact .inl (startRtx_isSome ..)
      · exact .inr ⟨rfl, rfl⟩
    · exact .inr ⟨rfl, rfl⟩

theorem rearms_retransmitOldest : Rearms t (t.retransmitOldest now).1 := by
  simp only [retransmitOldest]
  split
  · exact rearms_resendOldest { t with retransmit := false } now
  · exact .inr ⟨rfl, rfl⟩

theorem rearms_sackRetransmit : Rearms t (t.sackRetransmit now).1 := by
  simp only [sackRetransmit]
  split
  · split
    · split
      · split
        · exact .inl (startRtx_isSome ..)
        · exact .inr ⟨rfl, rfl⟩
      · exact .inr ⟨rfl, rfl⟩
    · exact .inr ⟨rfl, rfl⟩
  · exact .inr ⟨rfl, rfl⟩

theorem rearms_sendNewData : Rearms t (t.sendNewData now).1 := by
  have hloss := t.loss_pace now (min t.cwndRoom t.rwndRoom)
  obtain ⟨hcore, -, -⟩ := t.pace_core now (min t.cwndRoom t.rwndRoom)
  simp only [sendNewData]
  generalize t.pace now (min t.cwndRoom t.rwndRoom) = p at hloss hcore ⊢
  have hp : Rearms t p.1 := .of_loss hloss (congrArg Core.toSendSpace hcore)
  split
  · simp only [sendAllowed]
    split
    · exact .inl (startRtx_isSome ..)
    · exact hp
  · split
    · have harm : Rearms p.1 (p.1.armPersist now) :=
        .of_loss (loss_armPersist ..) (congrArg Core.toSendSpace (core_armPersist ..))
      refine (hp.trans harm).trans ?_
      unfold probe
      split <;> exact .inr ⟨rfl, rfl⟩
    · exact hp

theorem rearms_sendFin : Rearms t (t.sendFin now).1 := by
  simp only [sendFin]
  split
  · exact .inl (startRtx_isSome ..)
  · exact .inr ⟨rfl, rfl⟩

theorem rearms_emitOwedAck : Rearms t t.emitOwedAck.1 := by
  unfold emitOwedAck
  split <;> exact .inr ⟨rfl, rfl⟩

theorem rearms_transmitDataOrFin : Rearms t (t.transmitDataOrFin now).1 := by
  refine Rearms.orElse ?_ (fun u => u.rearms_sendFin now)
  refine Rearms.orElse ?_ (fun u => u.rearms_sendNewData now)
  exact Rearms.orElse (t.rearms_retransmitOldest now) (fun u => u.rearms_sackRetransmit now)

/-- Whatever moves `SND.NXT` starts the timer. -/
theorem rearms_pollTransmit : Rearms t (t.pollTransmit now).1 := by
  have hsame : Rearms t { t with curTsval := BitVec.ofNat 32 now.micros } := .inr ⟨rfl, rfl⟩
  refine hsame.trans ?_
  unfold pollTransmit
  generalize ({ t with curTsval := BitVec.ofNat 32 now.micros } : Tcb κ) = u
  dsimp only
  split
  · exact .inr ⟨rfl, rfl⟩
  split
  · exact .inr ⟨rfl, rfl⟩
  · exact .inr ⟨rfl, rfl⟩
  · unfold pollSynSent
    split
    · exact .inl (startRtx_isSome ..)
    · split <;> exact .inr ⟨rfl, rfl⟩
  · unfold pollSynReceived
    split
    · exact .inl (startRtx_isSome ..)
    · split
      · exact .inr ⟨rfl, rfl⟩
      · exact u.rearms_emitOwedAck
  · exact u.rearms_emitOwedAck
  · exact (u.rearms_transmitDataOrFin now).orElse fun v => v.rearms_emitOwedAck

end Tcb

namespace Host

variable {κ : Type} [CongestionControl κ] {r s : Host κ}

/-- The timer of a host runs while something is outstanding, until the connection
is closed or waits out TIME-WAIT. -/
def Runs (r : Host κ) : Prop := r.tcb.state = .closed ∨ r.tcb.state = .timeWait ∨ r.tcb.Armed

omit [CongestionControl κ] in
theorem Ok.opening (hok : r.Ok) (hst : r.tcb.state = .synSent ∨ r.tcb.state = .synReceived) :
    r.tcb.sndUna = r.tcb.iss ∧ r.tcb.sndNxt.offsetFrom r.tcb.iss ≤ 1 := by
  have h0 : r.una = 0 := by
    have hp := hok.phase
    rcases hst with hst | hst <;> rw [hst] at hp <;> exact hp
  have hs := hok.sending
  have hat := hs.at_una
  rw [h0, SeqNumber.add_zero] at hat
  have hle := hs.opening_le h0
  refine ⟨hat, ?_⟩
  rw [← hat]
  exact hle

/-- TIME-WAIT leads nowhere but to CLOSED. -/
theorem input_timeWait (hok : r.Ok) (hst : r.tcb.state = .timeWait) (i : Input) :
    (r.input i).1.tcb.state = .timeWait ∨ (r.input i).1.tcb.state = .closed := by
  have hst' : r.tcb.core.state = .timeWait := hst
  cases i with
  | segment seg now ce =>
    change (r.tcb.onSegment now seg.tcp ce).core.state = _ ∨ (r.tcb.onSegment now seg.tcp ce).core.state = _
    rw [Tcb.core_onSegment, Core.onSegment, if_neg (by rw [hst']; simp)]
    split
    · split
      · exact .inr rfl
      · exact .inl hst'
    · exact .inl hst'
  | send data =>
    change (r.tcb.send data).1.state = _ ∨ _
    rw [Tcb.send, hst]
    exact .inl hst
  | recv n => exact .inl hst
  | close => exact .inl hst
  | timer now =>
    change (r.tcb.onTimer now).core.state = _ ∨ (r.tcb.onTimer now).core.state = _
    rcases r.tcb.core_onTimer now with hc | hc
    · rw [hc]; exact .inl hst'
    · rw [hc]; exact .inr rfl
  | poll now =>
    have hp := hok.polls now
    change (r.tcb.pollTransmit now).1.core.state = _ ∨ _
    generalize r.tcb.pollTransmit now = q at hp ⊢
    obtain ⟨t, o⟩ := q
    dsimp only at hp ⊢
    left
    cases hp with
    | idle hc => rw [hc]; exact hst'
    | rst _ _ hc => rw [hc]; exact hst'
    | syn hs _ => exact absurd (hst.symm.trans hs) (by simp)
    | segment _ _ _ hs hc =>
      rw [hc]
      cases hs with
      | ack => exact hst'
      | synAck hs | synAckAgain hs => exact absurd (hst'.symm.trans hs) (by simp)
      | again _ _ _ hs | data _ _ hs | probe hs | fin hs | finAgain _ hs =>
        rw [hst'] at hs
        exact absurd hs (by simp [State.synchronized])

theorem Runs.input (h : r.Runs) (hok : r.Ok) (i : Input) : (r.input i).1.Runs := by
  rcases h with h | h | h
  · exact .inl (input_closed hok h i)
  · rcases input_timeWait hok h i with h' | h'
    · exact .inr (.inl h')
    · exact .inl h'
  by_cases h1 : (r.input i).1.tcb.state = .closed
  · exact .inl h1
  by_cases h2 : (r.input i).1.tcb.state = .timeWait
  · exact .inr (.inl h2)
  refine .inr (.inr ?_)
  cases i with
  | segment seg now ce =>
    change (r.tcb.onSegment now seg.tcp ce).Armed
    change (r.tcb.onSegment now seg.tcp ce).state ≠ _ at h1 h2
    by_cases hst : r.tcb.state = .synSent
    · rw [Tcb.onSegment, if_pos hst] at h1 ⊢
      exact Tcb.armed_synSent h (hok.opening (.inl hst)).2 h1
    · exact Tcb.armed_onSegment h (fun hrec => hok.opening (.inr hrec)) hst ce h1 h2
  | send data =>
    change (r.tcb.send data).1.Armed
    simp only [Tcb.send]
    split <;> exact h
  | recv n => exact h
  | close => exact h
  | timer now => exact (r.tcb.rearms_onTimer now h1).armed h
  | poll now => exact (r.tcb.rearms_pollTransmit now).armed h

/-- In every state but CLOSED and TIME-WAIT, whatever led there, the retransmission
timer runs while something is outstanding. -/
theorem outstanding_armed {r₀ : Host κ} {is : List Input} (h0 : r₀.Opens)
    (hr : Run.run step r₀ is = some r) (h1 : r.tcb.state ≠ .closed) (h2 : r.tcb.state ≠ .timeWait)
    (h3 : r.tcb.sndUna ≠ r.tcb.sndNxt) : r.tcb.rtxDeadline.isSome = true := by
  have hinv : ∀ (u : Host κ) (i : Input) (v : Host κ), u.Ok ∧ u.Runs → step u i = some v →
      v.Ok ∧ v.Runs := by
    intro u i v hu he
    cases he
    exact ⟨hu.1.input i, hu.2.input hu.1 i⟩
  have hfresh : r₀.tcb.Armed := by
    have hsend : r₀.tcb.sndNxt = r₀.tcb.sndUna := by
      cases h0 with
      | active loc remote iss now mss kind =>
        have hc := World.core_setCongestionControl (Tcb.newSynSent loc remote iss now mss : Tcb κ) kind
        have hs := congrArg Core.toSendSpace hc
        exact (congrArg SendSpace.sndNxt hs).trans (congrArg SendSpace.sndUna hs).symm
      | passive loc remote syn iss now mss kind =>
        have hc := World.core_setCongestionControl
          (Tcb.newSynReceived loc remote syn iss now mss : Tcb κ) kind
        have hs := congrArg Core.toSendSpace hc
        exact (congrArg SendSpace.sndNxt hs).trans (congrArg SendSpace.sndUna hs).symm
    exact fun hne => absurd hsend.symm hne
  have hruns := (Run.run_invariant hinv ⟨h0.ok, .inr (.inr hfresh)⟩ hr).2
  exact (hruns.resolve_left h1).resolve_left h2 h3

/-- Five octets are sent, the first two are acknowledged, and the timer goes off. -/
def partialAck : List Input :=
  settled ++ [.send (Bytes.replicate 5 7), .poll ⟨0⟩,
    .segment ⟨{ peerSegment 5001 {} Bytes.empty with ack := SeqNumber.new 103 }, by decide⟩ ⟨10⟩ false,
    .timer ⟨2000000⟩]

theorem outstanding_armed_partialAck : ∃ r : Host Reno, Run.run step accepted partialAck = some r ∧
    r.tcb.rtxDeadline.isSome = true := by
  obtain ⟨r, hr, hst, hne⟩ := Run.exists_run step accepted partialAck
    (fun r => r.tcb.state = .established ∧ r.tcb.sndUna ≠ r.tcb.sndNxt) (by decide +kernel)
  exact ⟨r, hr, outstanding_armed accepted_opens hr (by rw [hst]; simp) (by rw [hst]; simp) hne⟩

end Host

end Ferrumnet
