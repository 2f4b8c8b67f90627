import Ferrumnet.Outcome
import Ferrumnet.Emission

/-
  The loss-recovery record of a connection (`LossRecovery`), through every stage.

  Most stages leave it alone. What an ACK does to the scoreboard and to the
  go-back-N guard is stated here once, off the definitions; so is what a
  transmission and a timeout do to the scoreboard.

  1. `recovery_onText`, `recovery_advanceTsRecent`, … — the stages that leave it alone.
  2. `scoreboard_advanced`, `gbn_advanced`, `detected_cases` — the ACK.
  3. `scoreboard_pollTransmit` — a transmission marks one repair at most.
-/

namespace Ferrumnet

namespace Tcb

set_option linter.unusedSectionVars false

variable {κ : Type} [CongestionControl κ] (t : Tcb κ) (now : Instant) (p : TcpPacket)

/-! ## Stages that leave it alone -/

@[simp] theorem recovery_startRtx : (t.startRtx now).toLossRecovery = t.toLossRecovery := by
  unfold startRtx
  split <;> rfl

@[simp] theorem recovery_armDelayedAck : (t.armDelayedAck now).toLossRecovery = t.toLossRecovery := by
  unfold armDelayedAck
  split <;> rfl

@[simp] theorem recovery_updateWindow (q a : SeqNumber) (w : Nat) :
    (t.updateWindow q a w).toLossRecovery = t.toLossRecovery := by
  simp only [updateWindow]
  split <;> rfl

@[simp] theorem recovery_advanceTsRecent : (t.advanceTsRecent p).toLossRecovery = t.toLossRecovery := by
  simp only [advanceTsRecent]
  split
  · split <;> rfl
  · rfl

@[simp] theorem recovery_scheduleAck (b : Bool) :
    (t.scheduleAck now b).toLossRecovery = t.toLossRecovery := by
  simp only [scheduleAck]
  split
  · split
    · rfl
    · exact recovery_armDelayedAck ..
  · rfl

@[simp] theorem recovery_onData (ce : Bool) : (t.onData now p ce).toLossRecovery = t.toLossRecovery := by
  simp only [onData]
  split
  · rfl
  · rw [recovery_scheduleAck]
    split <;> rfl

@[simp] theorem recovery_onFin : (t.onFin p).toLossRecovery = t.toLossRecovery := by
  unfold onFin
  split <;> rfl

@[simp] theorem recovery_onPendingFin : t.onPendingFin.toLossRecovery = t.toLossRecovery := by
  unfold onPendingFin
  split
  · split <;> rfl
  · rfl

@[simp] theorem recovery_recomputeClosingState :
    (t.recomputeClosingState now).toLossRecovery = t.toLossRecovery := by
  simp only [recomputeClosingState]
  split
  · split <;> rfl
  · rfl

/-- Data and FIN do not touch it. -/
@[simp] theorem recovery_onText (ce : Bool) : (t.onText now p ce).toLossRecovery = t.toLossRecovery := by
  simp only [onText, recovery_recomputeClosingState, recovery_onPendingFin, recovery_onFin,
    recovery_onData]

@[simp] theorem recovery_opened : (t.opened p).toLossRecovery = { t.toLossRecovery with retransmit := false } := by
  have h := ({ t with sndUna := p.ack } : Tcb κ).recovery_updateWindow p.seq p.ack p.window
  change { (({ t with sndUna := p.ack } : Tcb κ).updateWindow p.seq p.ack p.window).toLossRecovery with
    retransmit := false } = _
  rw [h]

/-! ## An ACK that advances -/

/-- The scoreboard after an ACK of `a`. -/
def ackBoard (t : Tcb κ) (a : SeqNumber) : Scoreboard :=
  if (t.scoreboard.trim a).recoveryReached a then (t.scoreboard.trim a).exitRecovery
  else t.scoreboard.trim a

/-- The go-back-N guard after an ACK of `a`. -/
def ackGuard (t : Tcb κ) (a : SeqNumber) : Option SeqNumber :=
  t.gbnRecover.filter fun high => a.lt high && a ≠ t.sndNxt

/-- The stages before the scoreboard: only the controller and the AccECN count move. -/
theorem ackEcn_frame (ace n : Nat) (b : Bool) :
    (t.ackEcn now ace n b).core = t.core ∧ (t.ackEcn now ace n b).scoreboard = t.scoreboard ∧
      (t.ackEcn now ace n b).gbnRecover = t.gbnRecover := by
  simp only [ackEcn]
  split
  · split
    · exact ⟨rfl, rfl, rfl⟩
    · exact ⟨rfl, rfl, rfl⟩
  · exact ⟨rfl, rfl, rfl⟩

/-- The stages behind the guard: the estimator, the controller and the timer. -/
theorem ackTimer_frame :
    (t.ackTimer now).scoreboard = t.scoreboard ∧ (t.ackTimer now).gbnRecover = t.gbnRecover := by
  simp only [ackTimer]
  split
  · split
    · exact ⟨rfl, rfl⟩
    · exact ⟨rfl, rfl⟩
  · split
    · exact ⟨rfl, rfl⟩
    · exact ⟨rfl, rfl⟩

theorem ackRtt_frame (a : SeqNumber) (e : Option (BitVec 32)) :
    (t.ackRtt now a e).scoreboard = t.scoreboard ∧ (t.ackRtt now a e).gbnRecover = t.gbnRecover := by
  simp only [ackRtt]
  split
  · split
    · split
      · exact ⟨rfl, rfl⟩
      · exact ⟨rfl, rfl⟩
    · exact ⟨rfl, rfl⟩
  · split
    · exact ⟨rfl, rfl⟩
    · split
      · split
        · exact ⟨rfl, rfl⟩
        · exact ⟨rfl, rfl⟩
      · exact ⟨rfl, rfl⟩

theorem ackGbn_eq :
    t.ackGbn.scoreboard = t.scoreboard ∧ t.ackGbn.gbnRecover = t.ackGuard t.sndUna := by
  simp only [ackGbn, ackGuard]
  split
  · rename_i high h
    rw [h]
    split
    · rename_i hin
      refine ⟨rfl, ?_⟩
      rw [Option.filter, if_pos hin]
    · rename_i hout
      refine ⟨rfl, ?_⟩
      rw [Option.filter, if_neg hout]
  · rename_i h
    rw [h]
    exact ⟨rfl, rfl⟩

theorem ackScoreboard_eq : (t.ackScoreboard now).gbnRecover = t.gbnRecover ∧
    (t.ackScoreboard now).core = t.core ∧
      (t.ackScoreboard now).scoreboard = if t.sackEnabled then t.ackBoard t.sndUna else t.scoreboard := by
  refine ⟨?_, t.core_ackScoreboard now, ?_⟩
  · simp only [ackScoreboard]
    split
    · split <;> rfl
    · rfl
  · simp only [ackScoreboard, ackBoard]
    split
    · split <;> rfl
    · rfl

theorem ackAdvance_eq (a : SeqNumber) (e : Option (BitVec 32)) (ace : Nat) :
    (t.ackAdvance a e ace now).gbnRecover = t.ackGuard a ∧
      (t.ackAdvance a e ace now).scoreboard = if t.sackEnabled then t.ackBoard a else t.scoreboard := by
  simp only [ackAdvance]
  generalize hu : (({ t with
    toSendSpace := t.toSendSpace.consume a
    cc := if t.sackEnabled && t.scoreboard.inRecovery then t.cc
      else CongestionControl.onAck t.cc now (t.toSendSpace.dataAcked a) } : Tcb κ).ackSample now
        (t.toSendSpace.dataAcked a) (t.sackEnabled && t.scoreboard.inRecovery)) = u
  have hcore : u.sndUna = a ∧ u.sndNxt = t.sndNxt ∧ u.sackEnabled = t.sackEnabled ∧
      u.scoreboard = t.scoreboard ∧ u.gbnRecover = t.gbnRecover := by
    rw [← hu]
    exact ⟨rfl, rfl, rfl, rfl, rfl⟩
  obtain ⟨hecn, hecnBoard, hecnGuard⟩ := u.ackEcn_frame now ace (t.toSendSpace.dataAcked a)
    (t.sackEnabled && t.scoreboard.inRecovery)
  generalize u.ackEcn now ace (t.toSendSpace.dataAcked a)
    (t.sackEnabled && t.scoreboard.inRecovery) = v at hecn hecnBoard hecnGuard ⊢
  obtain ⟨hguard, hboardCore, hboard⟩ := v.ackScoreboard_eq now
  have hv : v.sndUna = a ∧ v.sndNxt = t.sndNxt ∧ v.sackEnabled = t.sackEnabled := by
    refine ⟨?_, ?_, ?_⟩
    · exact (congrArg (fun c : Core => c.sndUna) hecn).trans hcore.1
    · exact (congrArg (fun c : Core => c.sndNxt) hecn).trans hcore.2.1
    · exact (congrArg (fun c : Core => c.sackEnabled) hecn).trans hcore.2.2.1
  rw [((((v.ackScoreboard now).ackGbn).ackRtt now a e).ackTimer_frame now).1,
    ((((v.ackScoreboard now).ackGbn).ackRtt now a e).ackTimer_frame now).2,
    (((v.ackScoreboard now).ackGbn).ackRtt_frame now a e).1,
    (((v.ackScoreboard now).ackGbn).ackRtt_frame now a e).2,
    (v.ackScoreboard now).ackGbn_eq.1, (v.ackScoreboard now).ackGbn_eq.2, hboard]
  constructor
  · have h1 : (v.ackScoreboard now).sndUna = a :=
      (congrArg (fun c : Core => c.sndUna) hboardCore).trans hv.1
    have h2 : (v.ackScoreboard now).sndNxt = t.sndNxt :=
      (congrArg (fun c : Core => c.sndNxt) hboardCore).trans hv.2.1
    have h3 : (v.ackScoreboard now).gbnRecover = t.gbnRecover :=
      hguard.trans (hecnGuard.trans hcore.2.2.2.2)
    rw [ackGuard, ackGuard, h1, h2, h3]
  · rw [hv.2.2, ackBoard, ackBoard, hv.1, hecnBoard, hcore.2.2.2.1]

/-- The acknowledgement the connection stands at after the segment. -/
def ackedUna (t : Tcb κ) (p : TcpPacket) : SeqNumber := if p.ack.gt t.sndUna then p.ack else t.sndUna

theorem advanced_frame : (t.advanced now p).sndUna = t.ackedUna p ∧ (t.advanced now p).sndNxt = t.sndNxt ∧
    (t.advanced now p).toOptions = t.toOptions ∧ (t.advanced now p).state = t.state := by
  have hc := t.core_advanced now p
  refine ⟨?_, ?_, congrArg Core.toOptions hc, congrArg Core.state hc⟩
  · refine (congrArg (fun c : Core => c.sndUna) hc).trans ?_
    rw [ackedUna]
    split <;> rfl
  · refine (congrArg (fun c : Core => c.sndNxt) hc).trans ?_
    split <;> rfl

theorem scoreboard_advanced (hs : t.sackEnabled = true) : (t.advanced now p).scoreboard =
    if p.ack.gt t.sndUna then t.ackBoard p.ack else t.scoreboard := by
  unfold advanced
  split
  · have h := (t.ackAdvance p.ack ((t.segTs p).map (·.2)) p.ace now).recovery_updateWindow p.seq p.ack p.window
    rw [h, (t.ackAdvance_eq now _ _ _).2, if_pos hs]
  · rw [recovery_updateWindow]

theorem gbn_advanced : (t.advanced now p).gbnRecover =
    if p.ack.gt t.sndUna then t.ackGuard p.ack else t.gbnRecover := by
  unfold advanced
  split
  · have h := (t.ackAdvance p.ack ((t.segTs p).map (·.2)) p.ace now).recovery_updateWindow p.seq p.ack p.window
    rw [h, (t.ackAdvance_eq now _ _ _).1]
  · rw [recovery_updateWindow]

/-! ## The losses an ACK shows -/

/-- The losses that a segment shows put the connection into recovery, or leave it. -/
theorem sackDetect_cases (d : Bool) :
    ((t.sackDetect now d).scoreboard = t.scoreboard ∨
        (t.sackDetect now d).scoreboard = t.scoreboard.beginRecovery t.sndNxt ∧
          t.scoreboard.recoveryPoint = none ∧ t.gbnRecover = none) ∧
      (t.sackDetect now d).gbnRecover = t.gbnRecover := by
  simp only [sackDetect]
  split
  · rename_i hfree
    rw [Bool.and_eq_true, Bool.not_eq_true', Scoreboard.inRecovery, Option.isNone_iff_eq_none] at hfree
    have hnone : t.scoreboard.recoveryPoint = none := by
      cases h : t.scoreboard.recoveryPoint with
      | none => rfl
      | some rp => rw [h] at hfree; cases hfree.1
    -- telling the controller about a duplicate touches neither
    obtain ⟨u, fires, hu, h1, h2, h3⟩ : ∃ (u : Tcb κ) (fires : Bool),
        (if d = true then t.noteDupAck now else (t, false)) = (u, fires) ∧
          u.scoreboard = t.scoreboard ∧ u.gbnRecover = t.gbnRecover ∧ u.sndNxt = t.sndNxt := by
      cases d with
      | true => exact ⟨_, _, rfl, rfl, rfl, rfl⟩
      | false => exact ⟨t, false, rfl, rfl, rfl, rfl⟩
    rw [hu]
    dsimp only
    split
    · refine ⟨.inr ⟨?_, hnone, hfree.2⟩, h2⟩
      rw [← h1, ← h3]
      rfl
    · exact ⟨.inl h1, h2⟩
  · exact ⟨.inl rfl, rfl⟩

theorem legacyDupAck_frame : (t.legacyDupAck now).scoreboard = t.scoreboard ∧
    (t.legacyDupAck now).gbnRecover = t.gbnRecover := by
  simp only [legacyDupAck]
  split
  · exact ⟨rfl, rfl⟩
  · exact ⟨rfl, rfl⟩

/-- What is made of a segment taken in, of the scoreboard and of the guard. -/
theorem detected_cases (d : Bool) :
    (t.detected now p d).gbnRecover = t.gbnRecover ∧
      (t.sackEnabled = false → (t.detected now p d).scoreboard = t.scoreboard) ∧
      (t.sackEnabled = true →
        (t.detected now p d).scoreboard = t.scoreboard.update t.sndUna t.sndNxt p.sackBlocks ∨
          (t.detected now p d).scoreboard =
              (t.scoreboard.update t.sndUna t.sndNxt p.sackBlocks).beginRecovery t.sndNxt ∧
            t.scoreboard.recoveryPoint = none ∧ t.gbnRecover = none) := by
  unfold detected
  cases hs : t.sackEnabled with
  | true =>
    rw [if_pos rfl]
    unfold sackIngest
    obtain ⟨h1, h2⟩ := ({ t with scoreboard := t.scoreboard.update t.sndUna t.sndNxt p.sackBlocks } :
      Tcb κ).sackDetect_cases now d
    exact ⟨h2, fun h => absurd h (by simp), fun _ => h1⟩
  | false =>
    rw [if_neg (by simp)]
    cases d with
    | true =>
      rw [if_pos rfl]
      exact ⟨(t.legacyDupAck_frame now).2, fun _ => (t.legacyDupAck_frame now).1, fun h => absurd h (by simp)⟩
    | false =>
      rw [if_neg (by simp)]
      exact ⟨rfl, fun _ => rfl, fun h => absurd h (by simp)⟩

/-! ## A segment taken in -/

/-- The scoreboard and the guard as the acknowledgement alone leaves them. -/
def boardAt (t : Tcb κ) (p : TcpPacket) : Scoreboard :=
  if p.ack.gt t.sndUna then t.ackBoard p.ack else t.scoreboard

def guardAt (t : Tcb κ) (p : TcpPacket) : Option SeqNumber :=
  if p.ack.gt t.sndUna then t.ackGuard p.ack else t.gbnRecover

/-- What it makes of the core. -/
theorem core_taken (h : t.state ≠ .synReceived) (ce : Bool) :
    (((t.advanceTsRecent p).acks now p).onText now p ce).core =
      ((t.core.advanceTsRecent p).acked p).onText p := by
  have hcore := t.core_advanceTsRecent p
  have hst : (t.advanceTsRecent p).state ≠ .synReceived := (congrArg Core.state hcore).trans_ne h
  rw [core_onText, core_acks _ _ _ hst, hcore]
  rfl

theorem taken_send (h : t.state ≠ .synReceived) (ce : Bool) {u : Tcb κ}
    (hu : u = ((t.advanceTsRecent p).acks now p).onText now p ce) :
    u.sndUna = t.ackedUna p ∧ u.sndNxt = t.sndNxt ∧ u.iss = t.iss ∧ u.toOptions = t.toOptions := by
  have hcore := t.core_taken now p h ce
  rw [← hu] at hcore
  have hsend : u.toSendSpace = (t.core.advanceTsRecent p).ackedSend p := congrArg Core.toSendSpace hcore
  have hst : (t.core.advanceTsRecent p).state ≠ .synReceived := h
  have hopts : u.toOptions = t.toOptions := congrArg Core.toOptions hcore
  rw [Core.ackedSend, if_neg hst] at hsend
  rw [hsend, ackedUna]
  have hgt : (p.ack.gt (t.core.advanceTsRecent p).sndUna = true) = (p.ack.gt t.sndUna = true) := rfl
  simp only [hgt]
  split
  · exact ⟨rfl, rfl, rfl, hopts⟩
  · exact ⟨rfl, rfl, rfl, hopts⟩

/-- What a segment taken in past the handshake makes of the record. -/
theorem taken_board (ce : Bool) {u : Tcb κ}
    (hu : u = ((t.advanceTsRecent p).acks now p).onText now p ce) :
    u.gbnRecover = t.guardAt p ∧ (t.sackEnabled = false → u.scoreboard = t.scoreboard) ∧
      (t.sackEnabled = true →
        u.scoreboard = (t.boardAt p).update (t.ackedUna p) t.sndNxt p.sackBlocks ∨
          u.scoreboard = ((t.boardAt p).update (t.ackedUna p) t.sndNxt p.sackBlocks).beginRecovery t.sndNxt ∧
            (t.boardAt p).recoveryPoint = none ∧ t.guardAt p = none) := by
  have hcore := t.core_advanceTsRecent p
  have hrec := t.recovery_advanceTsRecent p
  generalize t.advanceTsRecent p = v at hu hcore hrec
  have huna : v.sndUna = t.sndUna := congrArg (fun c : Core => c.sndUna) hcore
  have hnxt : v.sndNxt = t.sndNxt := congrArg (fun c : Core => c.sndNxt) hcore
  have hsack : v.sackEnabled = t.sackEnabled := congrArg (fun c : Core => c.sackEnabled) hcore
  have hboard : v.boardAt p = t.boardAt p := by simp only [boardAt, ackBoard, hrec, huna]
  have hguard : v.guardAt p = t.guardAt p := by simp only [guardAt, ackGuard, hrec, huna, hnxt]
  obtain ⟨haUna, haNxt, haOpts, -⟩ := v.advanced_frame now p
  have haSack : (v.advanced now p).sackEnabled = t.sackEnabled :=
    (congrArg Options.sackEnabled haOpts).trans hsack
  have haGuard : (v.advanced now p).gbnRecover = t.guardAt p := by rw [gbn_advanced, ← hguard, guardAt]
  have hackedUna : v.ackedUna p = t.ackedUna p := by rw [ackedUna, ackedUna, huna]
  obtain ⟨h1, h2, h3⟩ := (v.advanced now p).detected_cases now p (v.isDupAck p)
  have huRec : u.toLossRecovery = (v.acks now p).toLossRecovery := by rw [hu, recovery_onText]
  have hacks : (v.acks now p).toLossRecovery =
      ((v.advanced now p).detected now p (v.isDupAck p)).toLossRecovery := rfl
  rw [huRec, hacks]
  refine ⟨h1.trans haGuard, fun hoff => ?_, fun hon => ?_⟩
  · have hstay : (v.advanced now p).scoreboard = v.scoreboard := by
      unfold advanced
      split
      · rw [recovery_updateWindow, (v.ackAdvance_eq now _ _ _).2, if_neg (by rw [hsack, hoff]; simp)]
      · rw [recovery_updateWindow]
    rw [h2 (haSack.trans hoff), hstay, hrec]
  · have haBoard : (v.advanced now p).scoreboard = t.boardAt p := by
      rw [scoreboard_advanced _ _ _ (hsack.trans hon), ← hboard, boardAt]
    have h4 := h3 (haSack.trans hon)
    rw [haBoard, haUna, haNxt, haGuard, hackedUna, hnxt] at h4
    exact h4

/-! ## Transmissions -/

theorem recovery_noteFin : (t.noteFin now).toLossRecovery = t.toLossRecovery := by
  simp only [noteFin]
  exact recovery_startRtx ..

theorem noteSent_frame (n room : Nat) : (t.noteSent now n room).scoreboard = t.scoreboard ∧
    (t.noteSent now n room).gbnRecover = t.gbnRecover := by
  simp only [noteSent]
  split
  · split
    · exact ⟨rfl, rfl⟩
    · exact ⟨rfl, rfl⟩
  · split
    · exact ⟨rfl, rfl⟩
    · exact ⟨rfl, rfl⟩

/-- A transmission repairs one hole of the scoreboard at most, and never touches the guard. -/
theorem scoreboard_source {q : Emit κ} (h : Source t now q) : q.1.gbnRecover = t.gbnRecover ∧
    (q.1.scoreboard = t.scoreboard ∨
      ∃ (seq : SeqNumber) (n : Nat) (isRescue : Bool), t.sackEnabled = true ∧
        t.scoreboard.inRecovery = true ∧
        t.scoreboard.nextSeg t.sndUna t.sndNxt t.sndMss = some (seq, isRescue) ∧ 0 < n ∧
        n ≤ t.scoreboard.unsackedRunLen seq t.sndNxt ∧ q.1.toSendSpace = t.toSendSpace ∧
        q.1.scoreboard = if isRescue then (t.scoreboard.markRexmit seq (seq + n)).setRescueDone
          else t.scoreboard.markRexmit seq (seq + n)) := by
  have hguard : (t.lowered.gated now).gbnRecover = t.gbnRecover :=
    (congrArg LossRecovery.gbnRecover (t.lowered.owed_gated now).2).trans rfl
  have hboard : (t.lowered.gated now).scoreboard = t.scoreboard :=
    (congrArg LossRecovery.scoreboard (t.lowered.owed_gated now).2).trans rfl
  cases h with
  | resend _ _ _ _ _ | resendFin _ _ _ _ _ _ _ =>
    have h := fun u : Tcb κ => u.recovery_startRtx now
    simp only [Emit.after, h]
    exact ⟨rfl, .inl rfl⟩
  | repair seq n isRescue hs hrec _ hnext hn hpos =>
    have h := fun u : Tcb κ => u.recovery_startRtx now
    have hc := fun u : Tcb κ => congrArg Core.toSendSpace (u.core_startRtx now)
    simp only [Emit.after, h]
    refine ⟨rfl, .inr ⟨seq, n, isRescue, hs, hrec, hnext, hpos, by omega, ?_, rfl⟩⟩
    exact hc _
  | data n _ _ =>
    have h := fun u : Tcb κ => u.recovery_startRtx now
    simp only [Emit.after, h]
    have hp := (t.lowered.owed_paced now).2
    obtain ⟨h1, h2⟩ := noteSent_frame ((t.lowered.paced now).emit t.sndNxt
      { psh := t.sentData + n = t.tx.len } (t.tx.peek t.sentData n)).1 now n t.windowRoom
    rw [h1, h2]
    have hguard' : (t.lowered.paced now).gbnRecover = t.gbnRecover := (congrArg LossRecovery.gbnRecover hp).trans rfl
    have hboard' : (t.lowered.paced now).scoreboard = t.scoreboard :=
      (congrArg LossRecovery.scoreboard hp).trans rfl
    exact ⟨hguard', .inl hboard'⟩
  | probe _ _ _ => exact ⟨hguard, .inl hboard⟩
  | fin _ _ _ _ =>
    have h := fun u : Tcb κ => u.recovery_noteFin now
    simp only [Emit.after, h]
    exact ⟨hguard, .inl hboard⟩
  | quiet _ => exact ⟨hguard, .inl hboard⟩

/-- The owed ACK changes neither. -/
theorem idles_frame {u : Tcb κ} (h : Idles t now u) :
    u.toSendSpace = t.toSendSpace ∧ u.scoreboard = t.scoreboard ∧ u.gbnRecover = t.gbnRecover := by
  cases h with
  | synReceived _ _ _ | timeWait _ => exact ⟨rfl, rfl, rfl⟩
  | data _ _ =>
    have hsend : ((t.clocked now).lowered.gated now).toSendSpace = t.toSendSpace :=
      congrArg Core.toSendSpace ((t.clocked now).lowered.core_gated now)
    have hrec : ((t.clocked now).lowered.gated now).toLossRecovery = (t.clocked now).lowered.toLossRecovery :=
      ((t.clocked now).lowered.owed_gated now).2
    exact ⟨hsend, (congrArg LossRecovery.scoreboard hrec).trans rfl,
      (congrArg LossRecovery.gbnRecover hrec).trans rfl⟩

theorem scoreboard_pollTransmit : (t.pollTransmit now).1.gbnRecover = t.gbnRecover ∧
    ((t.pollTransmit now).1.scoreboard = t.scoreboard ∨
      ∃ (seq : SeqNumber) (n : Nat) (isRescue : Bool), t.sackEnabled = true ∧
        t.scoreboard.inRecovery = true ∧
        t.scoreboard.nextSeg t.sndUna t.sndNxt t.sndMss = some (seq, isRescue) ∧ 0 < n ∧
        n ≤ t.scoreboard.unsackedRunLen seq t.sndNxt ∧ (t.pollTransmit now).1.toSendSpace = t.toSendSpace ∧
        (t.pollTransmit now).1.scoreboard =
          if isRescue then (t.scoreboard.markRexmit seq (seq + n)).setRescueDone
          else t.scoreboard.markRexmit seq (seq + n)) := by
  have hturn := t.pollTransmit_turn now
  generalize t.pollTransmit now = q at hturn ⊢
  cases hturn with
  | rst _ _ | mute _ _ | synAgain _ _ _ _ | synWaits _ _ _ _ | synAckAgain _ _ _ _ => exact ⟨rfl, .inl rfl⟩
  | syn _ _ _ | synAck _ _ _ =>
    have h := fun u : Tcb κ => u.recovery_startRtx now
    simp only [Emit.after, h]
    exact ⟨rfl, .inl rfl⟩
  | sends _ _ hs _ => exact (t.clocked now).scoreboard_source now hs
  | ack _ hi _ =>
    obtain ⟨-, h1, h2⟩ := t.idles_frame now hi
    exact ⟨h2, .inl h1⟩
  | idle _ hi _ =>
    obtain ⟨-, h1, h2⟩ := t.idles_frame now hi
    exact ⟨h2, .inl h1⟩

/-! ## Timers -/

/-- A timeout abandons recovery and keeps what the peer has reported. -/
theorem scoreboard_onTimer :
    (t.onTimer now).scoreboard = t.scoreboard ∨
      now.due t.rtxDeadline = true ∧ t.sackEnabled = true ∧ (t.onTimer now).scoreboard = t.scoreboard.onRto := by
  have hlate : ∀ u : Tcb κ, (((u.onPersistTimer now).onTimeWaitTimer now).onDelayedAckTimer now).scoreboard =
      u.scoreboard := by
    intro u
    simp only [onPersistTimer, onTimeWaitTimer, onDelayedAckTimer]
    split <;> split <;> split <;> rfl
  rw [onTimer, hlate, onRtxTimer]
  split
  · rename_i hdue
    split
    · simp only [synTimeout]
      split
      · exact .inl rfl
      · exact .inl rfl
    · simp only [rtxTimeout, restartRtx]
      split
      · rename_i hs
        exact .inr ⟨hdue, hs, rfl⟩
      · exact .inl rfl
  · exact .inl rfl

end Tcb

end Ferrumnet
