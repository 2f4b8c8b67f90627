import Ferrumnet.Board
import Ferrumnet.Controlled
import Ferrumnet.Coverage

/-
  How long the go-back-N guard stands.

  A timeout past SYN-SENT sets `gbn_recover` to `SND.NXT`, and while it is set SACK
  recovery is not entered. Only an ACK that is processed as one of data clears it:
  the ACK that completes the handshake does not.

  1. `Ok.effect` — what each call does to the send space and to the loss-recovery
     record, call by call.
  2. `guard_drains` — in every run in which no timeout finds everything
     acknowledged, and no handshake is completed under the guard, the guard stands
     between `SND.UNA` and `SND.NXT`, and a loss that shows once everything is
     acknowledged that was outstanding at the last timeout starts recovery.
  3. `guard_outlives` — a SYN-ACK that timed out leaves a guard that keeps a later
     loss from starting recovery.
-/

namespace Ferrumnet

namespace Tcb

variable {κ : Type} [CongestionControl κ] (t : Tcb κ) (now : Instant) (p : TcpPacket)

/-- Without the guard, a lost octet at `SND.UNA` finds the connection in recovery
once losses have been looked for. -/
theorem sackDetect_lost (d : Bool) (hg : t.gbnRecover = none)
    (hlost : (t.sackDetect now d).scoreboard.isLost t.sndUna t.sndMss = true) :
    (t.sackDetect now d).scoreboard.inRecovery = true := by
  revert hlost
  unfold sackDetect
  cases hin : t.scoreboard.inRecovery with
  | true =>
    intro _
    exact hin
  | false =>
    rw [hg]
    obtain ⟨u, fires, hu, hboard, hcore⟩ : ∃ (u : Tcb κ) (fires : Bool),
        (if d = true then t.noteDupAck now else (t, false)) = (u, fires) ∧
          u.scoreboard = t.scoreboard ∧ u.sndUna = t.sndUna ∧ u.sndMss = t.sndMss := by
      cases d with
      | true => exact ⟨_, _, rfl, rfl, rfl, rfl⟩
      | false => exact ⟨t, false, rfl, rfl, rfl, rfl⟩
    simp only [hu, Bool.not_false, Option.isNone_none, Bool.and_self, if_true]
    split
    · intro _
      rfl
    · rename_i hno
      intro hlost
      refine absurd ?_ hno
      rw [hcore.1, hcore.2, hlost, Bool.or_true]

/-- Under SACK a segment taken in comes down to looking for losses, on the scoreboard
that its acknowledgement and its blocks leave. -/
theorem taken_sack (ce : Bool) {u : Tcb κ}
    (hu : u = ((t.advanceTsRecent p).acks now p).onText now p ce) (hs : t.sackEnabled = true) :
    ∃ w : Tcb κ, u.toLossRecovery = (w.sackDetect now (t.isDupAck p)).toLossRecovery ∧
      w.scoreboard = (t.boardAt p).update (t.ackedUna p) t.sndNxt p.sackBlocks ∧
      w.gbnRecover = t.guardAt p ∧ w.sndUna = t.ackedUna p ∧ w.sndNxt = t.sndNxt ∧ w.sndMss = t.sndMss ∧
      w.cc = ((t.advanceTsRecent p).advanced now p).cc := by
  have hboard : u.toLossRecovery = ((t.advanceTsRecent p).acks now p).toLossRecovery := by
    rw [hu, recovery_onText]
  have hrec := t.recovery_advanceTsRecent p
  have hcore := t.core_advanceTsRecent p
  generalize t.advanceTsRecent p = v at hboard hrec hcore ⊢
  have hvUna : v.sndUna = t.sndUna := congrArg (fun c : Core => c.sndUna) hcore
  have hvNxt : v.sndNxt = t.sndNxt := congrArg (fun c : Core => c.sndNxt) hcore
  have hvOpts : v.toOptions = t.toOptions := congrArg Core.toOptions hcore
  have hvSack : v.sackEnabled = true := (congrArg Options.sackEnabled hvOpts).trans hs
  obtain ⟨hwUna, hwNxt, hwOpts, -⟩ := v.advanced_frame now p
  have hwGuard : (v.advanced now p).gbnRecover = t.guardAt p := by
    rw [gbn_advanced, guardAt, ackGuard, ackGuard, hrec, hvUna, hvNxt]
  have hwBoard : (v.advanced now p).scoreboard = t.boardAt p := by
    rw [scoreboard_advanced _ _ _ hvSack, boardAt, ackBoard, ackBoard, hrec, hvUna]
  have hwSack : (v.advanced now p).sackEnabled = true := (congrArg Options.sackEnabled hwOpts).trans hvSack
  have hat : (v.advanced now p).sndUna = t.ackedUna p := by rw [hwUna, ackedUna, ackedUna, hvUna]
  have hdup : v.isDupAck p = t.isDupAck p := by rw [isDupAck, isDupAck, hvUna, hvNxt]
  have hacks : v.acks now p = (v.advanced now p).sackIngest now (t.isDupAck p) p.sackBlocks := by
    rw [acks, detected, if_pos hwSack, hdup]
  refine ⟨{ v.advanced now p with
    scoreboard := (v.advanced now p).scoreboard.update (v.advanced now p).sndUna (v.advanced now p).sndNxt
      p.sackBlocks }, ?_, ?_, hwGuard, hat, hwNxt.trans hvNxt,
    congrArg Options.sndMss (hwOpts.trans hvOpts), rfl⟩
  · rw [hboard, hacks]
    rfl
  · rw [← hwBoard, ← hat, ← hvNxt, ← hwNxt]

/-- The same of a segment taken in past the handshake. -/
theorem taken_lost (ce : Bool) {u : Tcb κ} (hst : t.state ≠ .synReceived)
    (hu : u = ((t.advanceTsRecent p).acks now p).onText now p ce) (hs : t.sackEnabled = true)
    (hg : t.guardAt p = none) (hlost : u.scoreboard.isLost u.sndUna u.sndMss = true) :
    u.scoreboard.inRecovery = true := by
  obtain ⟨huna, -, -, hopts⟩ := t.taken_send now p hst ce hu
  obtain ⟨w, hrec, -, hguard, hat, -, hmss, -⟩ := t.taken_sack now p ce hu hs
  have hboard : u.scoreboard = (w.sackDetect now (t.isDupAck p)).scoreboard :=
    congrArg LossRecovery.scoreboard hrec
  have hmss' : u.sndMss = t.sndMss := congrArg Options.sndMss hopts
  rw [hboard, huna, hmss', ← hat, ← hmss] at hlost
  rw [hboard]
  exact sackDetect_lost w now _ (hguard.trans hg) hlost

/-- A blank scoreboard shows no loss. -/
theorem blank_isLost (q : SeqNumber) (mss : Nat) : Scoreboard.new.isLost q mss = false := rfl

/-- Only the retransmission timer touches the record. -/
theorem recovery_onTimer : (t.onTimer now).toLossRecovery = (t.onRtxTimer now).toLossRecovery := by
  simp only [onTimer, onPersistTimer, onTimeWaitTimer, onDelayedAckTimer]
  split <;> split <;> split <;> rfl

end Tcb

namespace Host

variable {κ : Type} {r r' : Host κ}

/-- The retransmission timer runs out, past SYN-SENT. -/
def Expires (r : Host κ) (now : Instant) : Prop := now.due r.tcb.rtxDeadline = true ∧ r.tcb.state ≠ .synSent

instance (now : Instant) : Decidable (r.Expires now) := inferInstanceAs (Decidable (_ ∧ _))

variable [CongestionControl κ]

/-- A call that acknowledges nothing, reports nothing and shows no loss. -/
structure Rests (r r' : Host κ) : Prop where
  iss : r'.tcb.iss = r.tcb.iss
  una : r'.una = r.una
  nxt : r.nxt ≤ r'.nxt
  options : r'.tcb.toOptions = r.tcb.toOptions
  guard : r'.tcb.gbnRecover = r.tcb.gbnRecover
  sacked : r'.tcb.scoreboard.sacked = r.tcb.scoreboard.sacked
  point : r'.tcb.scoreboard.recoveryPoint = r.tcb.scoreboard.recoveryPoint
  early : r'.tcb.state = .synSent → r.tcb.state = .synSent
  cc : r'.tcb.cc = r.tcb.cc ∨
    ∃ now q n f b, r'.tcb.cc = CongestionControl.onTransmit r.tcb.cc now q n f b

/-- What a call does to the send space and to the loss-recovery record. -/
inductive Effect (r : Host κ) : Input → Host κ → Prop
  | rests (i : Input) (r' : Host κ) : (∀ now, i = .timer now → ¬ r.Expires now) → r.Rests r' → Effect r i r'
  | expires (now : Instant) (r' : Host κ) : r.Expires now → r'.tcb.iss = r.tcb.iss →
      r'.tcb.toOptions = r.tcb.toOptions → r'.una = r.una → r'.nxt = r.nxt → r'.tcb.gbnRecover = some r.tcb.sndNxt →
      r'.tcb.scoreboard = (if r.tcb.sackEnabled then r.tcb.scoreboard.onRto else r.tcb.scoreboard) →
      r'.tcb.state ≠ .synSent → r'.tcb.cc = CongestionControl.onRto r.tcb.cc now r.tcb.inflight →
      Effect r (.timer now) r'
  | learns (seg : Segment) (now : Instant) (ce : Bool) (r' : Host κ) : r.tcb.state = .synSent →
      r'.tcb.iss = r.tcb.iss → r'.nxt = r.nxt → r'.tcb.toLossRecovery.gbnRecover = r.tcb.gbnRecover →
      r'.tcb.scoreboard = r.tcb.scoreboard → Effect r (.segment seg now ce) r'
  | synAgain (seg : Segment) (now : Instant) (ce : Bool) (r' : Host κ) : r.tcb.state = .synReceived →
      r.tcb.core.dupSyn seg.tcp = true → r' = r.follow { r.tcb with sndNxt := r.tcb.iss } →
      Effect r (.segment seg now ce) r'
  | opens (seg : Segment) (now : Instant) (ce : Bool) (r' : Host κ) : r.tcb.state = .synReceived →
      r.tcb.core.admits seg.tcp = true → r.tcb.core.validAck seg.tcp = true →
      r'.tcb.iss = r.tcb.iss → r'.nxt = r.nxt → r'.tcb.gbnRecover = r.tcb.gbnRecover →
      r'.tcb.scoreboard = r.tcb.scoreboard → r'.tcb.state ≠ .synSent → r'.tcb.cc = r.tcb.cc →
      Effect r (.segment seg now ce) r'
  | taken (seg : Segment) (now : Instant) (ce : Bool) (r' : Host κ) : r.tcb.state ≠ .synSent →
      r.tcb.state ≠ .synReceived → r.tcb.core.admits seg.tcp = true → r.tcb.core.validAck seg.tcp = true →
      r'.tcb = ((r.tcb.advanceTsRecent seg.tcp).acks now seg.tcp).onText now seg.tcp ce →
      r.una ≤ r'.una → r'.una ≤ r.nxt → r'.nxt = r.nxt → r'.tcb.state ≠ .synSent →
      Effect r (.segment seg now ce) r'

variable {t : Tcb κ} {i : Input} {now : Instant}

omit [CongestionControl κ] in
/-- An acknowledgement moves `SND.UNA` and no other position. -/
theorem Ok.follow_acked (hok : r.Ok) {una' : Nat} (hu : t.sndUna = r.tcb.iss + una')
    (hn : t.sndNxt = r.tcb.sndNxt) (h1 : r.una ≤ una') (h2 : una' ≤ r.nxt) :
    (r.follow t).una = una' ∧ (r.follow t).nxt = r.nxt := by
  have hw : r.tcb.inflight ≤ 262145 := hok.sending.outstanding_le
  have hend : r.una + r.tcb.toSendSpace.outstanding = r.nxt := rfl
  have hnear := hok.near
  have huna : (r.follow t).una = una' := by
    change r.una + t.sndUna.offsetFrom r.tcb.sndUna = una'
    rw [hu, hok.sending.at_una, SeqNumber.offsetFrom_pos_le _ h1 (by omega)]
    omega
  refine ⟨huna, ?_⟩
  rw [nxt, huna]
  change una' + t.sndNxt.offsetFrom t.sndUna = r.nxt
  rw [hu, hn, hok.sending.at_nxt, hend, SeqNumber.offsetFrom_pos_le _ h2 (by omega)]
  omega

/-- Calls that leave the send space, the record and the controller alone. -/
theorem Rests.quiet (hs : t.toSendSpace = r.tcb.toSendSpace) (ho : t.toOptions = r.tcb.toOptions)
    (hl : t.gbnRecover = r.tcb.gbnRecover ∧ t.scoreboard = r.tcb.scoreboard) (hcc : t.cc = r.tcb.cc)
    (hst : t.state = r.tcb.state ∨ t.state = .closed) : r.Rests (r.follow t) where
  iss := congrArg SendSpace.iss hs
  una := follow_una (congrArg SendSpace.sndUna hs)
  nxt := (nxt_follow ⟨congrArg SendSpace.sndUna hs, congrArg SendSpace.sndNxt hs⟩).ge
  options := ho
  guard := hl.1
  sacked := congrArg Scoreboard.sacked hl.2
  point := congrArg Scoreboard.recoveryPoint hl.2
  early h := by
    rcases hst with hst | hst
    · exact hst.symm.trans h
    · exact absurd (hst.symm.trans h) (by simp)
  cc := .inl hcc

/-- A segment in SYN-SENT. -/
theorem Ok.effect_synSent (hok : r.Ok) (hst : r.tcb.state = .synSent) (seg : Segment) (now : Instant)
    (ce : Bool) : r.Effect (.segment seg now ce) (r.input (.segment seg now ce)).1 := by
  have hcore := r.tcb.core_onSegment now seg.tcp ce
  have hsyn := r.tcb.core.onSegmentSynSent_takes seg.tcp
  have hst' : r.tcb.core.state = .synSent := hst
  have hboard := scoreboard_synSent r.tcb seg.tcp
  have hguard : (r.tcb.onSegmentSynSent seg.tcp).gbnRecover = r.tcb.gbnRecover := by
    have hgreeting := r.tcb.onSegmentSynSent_greeting seg.tcp
    generalize r.tcb.onSegmentSynSent seg.tcp = u at hgreeting
    cases hgreeting <;> rfl
  change r.Effect _ (r.follow (r.tcb.onSegment now seg.tcp ce))
  rw [Core.onSegment, if_pos hst'] at hcore
  rw [Tcb.onSegment, if_pos hst] at hcore ⊢
  generalize r.tcb.onSegmentSynSent seg.tcp = t at hcore hboard hguard ⊢
  generalize r.tcb.core.onSegmentSynSent seg.tcp = c at hcore hsyn
  have hsame : t.toSendSpace = r.tcb.toSendSpace →
      r.Effect (.segment seg now ce) (r.follow t) := by
    intro hs
    refine .learns seg now ce _ hst (congrArg SendSpace.iss hs) ?_ hguard hboard
    exact nxt_follow ⟨congrArg SendSpace.sndUna hs, congrArg SendSpace.sndNxt hs⟩
  cases hsyn with
  | dropped | reset _ _ | crossed _ _ _ => exact hsame (congrArg Core.toSendSpace hcore)
  | acked _ _ hacks =>
    -- what is acknowledged is the SYN
    simp only [Core.acksSyn, Bool.and_eq_true] at hacks
    obtain ⟨⟨-, hgt⟩, hle⟩ := hacks
    obtain ⟨huna, hle1⟩ := hok.opening (.inl hst)
    have hw : r.tcb.inflight ≤ 262145 := hok.sending.outstanding_le
    have hs : t.toSendSpace = { r.tcb.toSendSpace with sndUna := seg.tcp.ack } :=
      congrArg Core.toSendSpace hcore
    have hz : r.una = 0 := by
      have hp := hok.phase
      rwa [hst] at hp
    have hnxt : r.nxt = r.tcb.sndNxt.offsetFrom r.tcb.iss := by
      rw [nxt, hz, Tcb.inflight, huna, Nat.zero_add]
    have hgt' : seg.tcp.ack.gt r.tcb.iss = true := hgt
    have hle' : seg.tcp.ack.le r.tcb.sndNxt = true := hle
    rw [SeqNumber.le_eq, Bool.not_eq_true'] at hle'
    have hbetween := SeqNumber.offsetFrom_between hgt' hle' (by omega)
    have hpos : t.sndUna = r.tcb.iss + seg.tcp.ack.offsetFrom r.tcb.iss := by
      rw [SeqNumber.add_offsetFrom]
      exact congrArg SendSpace.sndUna hs
    have hn : t.sndNxt = r.tcb.sndNxt := (congrArg SendSpace.sndNxt hs).trans rfl
    have hi : t.iss = r.tcb.iss := (congrArg SendSpace.iss hs).trans rfl
    obtain ⟨-, h⟩ := hok.follow_acked hpos hn (by omega) (by omega)
    exact .learns seg now ce _ hst hi h hguard hboard

omit [CongestionControl κ] in
/-- Where a segment taken in leaves the send space, and that the handshake is over. -/
theorem Ok.acked_taken (hok : r.Ok) (h1 : r.tcb.state ≠ .synSent) {p : TcpPacket}
    (hv : r.tcb.core.validAck p = true) (ht : t.core = ((r.tcb.core.advanceTsRecent p).acked p).onText p) :
    t.iss = r.tcb.iss ∧ r.una ≤ (r.follow t).una ∧ (r.follow t).una ≤ r.nxt ∧ (r.follow t).nxt = r.nxt ∧
      t.state ≠ .synSent ∧ t.state ≠ .synReceived := by
  obtain ⟨una', hle, hle', -, -, -, hat⟩ := acked_any (c := r.tcb.core) hok.sending hok.phase h1 hv
  have hs : t.toSendSpace = r.tcb.core.ackedSend p := congrArg Core.toSendSpace ht
  have hkept : (r.tcb.core.ackedSend p).iss = r.tcb.iss ∧ (r.tcb.core.ackedSend p).sndNxt = r.tcb.sndNxt := by
    unfold Core.ackedSend
    split
    · exact ⟨rfl, rfl⟩
    · split
      · exact ⟨rfl, rfl⟩
      · exact ⟨rfl, rfl⟩
  obtain ⟨hu, hn⟩ := hok.follow_acked ((congrArg SendSpace.sndUna hs).trans hat)
    ((congrArg SendSpace.sndNxt hs).trans hkept.2) hle hle'
  have hst : t.state = _ := congrArg Core.state ht
  refine ⟨(congrArg SendSpace.iss hs).trans hkept.1, hu ▸ hle, hu ▸ hle', hn, ?_, ?_⟩
  · exact hst.trans_ne (closingState_ne (ackedState_ne (c := r.tcb.core) h1).1 (.inl rfl))
  · exact hst.trans_ne (closingState_ne (ackedState_ne (c := r.tcb.core) h1).2 (.inr rfl))

/-- A segment past SYN-SENT. -/
theorem Ok.effect_segment (hok : r.Ok) (h1 : r.tcb.state ≠ .synSent) (seg : Segment) (now : Instant)
    (ce : Bool) : r.Effect (.segment seg now ce) (r.input (.segment seg now ce)).1 := by
  have hreceipt := r.tcb.onSegment_receipt now seg.tcp ce h1
  have hcore := r.tcb.core_onSegment now seg.tcp ce
  have htaken : r.tcb.core.admits seg.tcp = true → r.tcb.core.validAck seg.tcp = true →
      (r.tcb.onSegment now seg.tcp ce).core = ((r.tcb.core.advanceTsRecent seg.tcp).acked seg.tcp).onText seg.tcp :=
    fun hadm hv => hcore.trans (Core.onSegment_taken h1 hadm hv)
  change r.Effect _ (r.follow (r.tcb.onSegment now seg.tcp ce))
  generalize r.tcb.onSegment now seg.tcp ce = t at hreceipt htaken ⊢
  have hquiet : t.toSendSpace = r.tcb.toSendSpace → t.toOptions = r.tcb.toOptions →
      (t.gbnRecover = r.tcb.gbnRecover ∧ t.scoreboard = r.tcb.scoreboard) → t.cc = r.tcb.cc →
      (t.state = r.tcb.state ∨ t.state = .closed) → r.Effect (.segment seg now ce) (r.follow t) :=
    fun hs ho hl hcc hst => .rests _ _ (by simp) (.quiet hs ho hl hcc hst)
  cases hreceipt with
  | spared _ _ _ _ _ _ _ => exact hquiet rfl rfl ⟨rfl, rfl⟩ rfl (.inl rfl)
  | reset _ _ _ => exact hquiet rfl rfl ⟨rfl, rfl⟩ rfl (.inr rfl)
  | lingers _ => exact hquiet rfl rfl ⟨rfl, rfl⟩ rfl (.inl rfl)
  | badAck _ _ _ =>
    have hts := r.tcb.core_advanceTsRecent seg.tcp
    have hrec := r.tcb.recovery_advanceTsRecent seg.tcp
    exact hquiet (congrArg Core.toSendSpace hts) (congrArg Core.toOptions hts)
      ⟨congrArg LossRecovery.gbnRecover hrec, congrArg LossRecovery.scoreboard hrec⟩
      (congrArg LossRecovery.cc hrec) (.inr rfl)
  | synAgain hdup =>
    exact .synAgain seg now ce _ (r.tcb.core.state_of_dupSyn _ hdup) hdup rfl
  | opens hst hadm hv =>
    obtain ⟨hiss, -, -, hnxt, hout, -⟩ := hok.acked_taken h1 hv (htaken hadm hv)
    have hrec : (((r.tcb.advanceTsRecent seg.tcp).opened seg.tcp).onText now seg.tcp ce).toLossRecovery =
        { r.tcb.toLossRecovery with retransmit := false } := by
      rw [Tcb.recovery_onText, Tcb.recovery_opened, Tcb.recovery_advanceTsRecent]
    exact .opens seg now ce _ hst hadm hv hiss hnxt ((congrArg LossRecovery.gbnRecover hrec).trans rfl)
      ((congrArg LossRecovery.scoreboard hrec).trans rfl) hout ((congrArg LossRecovery.cc hrec).trans rfl)
  | taken h2 hadm hv =>
    obtain ⟨-, hle, hle', hnxt, hout, -⟩ := hok.acked_taken h1 hv (htaken hadm hv)
    exact .taken seg now ce _ h1 h2 hadm hv rfl hle hle' hnxt hout

/-- The retransmission timer. -/
theorem effect_timer (r : Host κ) (now : Instant) : r.Effect (.timer now) (r.input (.timer now)).1 := by
  have hcore := r.tcb.core_onTimer now
  have hrec := r.tcb.recovery_onTimer now
  have hsend : (r.tcb.onTimer now).toSendSpace = r.tcb.toSendSpace ∧
      (r.tcb.onTimer now).toOptions = r.tcb.toOptions ∧
      ((r.tcb.onTimer now).state = r.tcb.state ∨ (r.tcb.onTimer now).state = .closed) := by
    rcases hcore with hc | hc
    · exact ⟨congrArg Core.toSendSpace hc, congrArg Core.toOptions hc, .inl (congrArg Core.state hc)⟩
    · exact ⟨congrArg Core.toSendSpace hc, congrArg Core.toOptions hc, .inr (congrArg Core.state hc)⟩
  obtain ⟨hs, ho, hst⟩ := hsend
  change r.Effect _ (r.follow (r.tcb.onTimer now))
  by_cases hexp : r.Expires now
  · have hrtx : (r.tcb.onRtxTimer now) = r.tcb.rtxTimeout now := by
      rw [Tcb.onRtxTimer, if_pos hexp.1, if_neg hexp.2]
    rw [hrtx] at hrec
    refine .expires now _ hexp (congrArg SendSpace.iss hs) ho (follow_una (congrArg SendSpace.sndUna hs))
      (nxt_follow ⟨congrArg SendSpace.sndUna hs, congrArg SendSpace.sndNxt hs⟩)
      ((congrArg LossRecovery.gbnRecover hrec).trans rfl)
      ((congrArg LossRecovery.scoreboard hrec).trans rfl) ?_ ((congrArg LossRecovery.cc hrec).trans rfl)
    rcases hst with hst | hst
    · exact hst.trans_ne hexp.2
    · exact hst.trans_ne (by simp)
  · -- in SYN-SENT the timer leaves the scoreboard, the guard and the controller alone
    have hrtx : (r.tcb.onRtxTimer now).gbnRecover = r.tcb.gbnRecover ∧
        (r.tcb.onRtxTimer now).scoreboard = r.tcb.scoreboard ∧ (r.tcb.onRtxTimer now).cc = r.tcb.cc := by
      unfold Tcb.onRtxTimer
      split
      · rename_i hdue
        have hsyn : r.tcb.state = .synSent := by
          by_contra hne
          exact hexp ⟨hdue, hne⟩
        rw [if_pos hsyn]
        simp only [Tcb.synTimeout]
        split
        · exact ⟨rfl, rfl, rfl⟩
        · exact ⟨rfl, rfl, rfl⟩
      · exact ⟨rfl, rfl, rfl⟩
    have hguard : (r.tcb.onTimer now).gbnRecover = r.tcb.gbnRecover :=
      (congrArg LossRecovery.gbnRecover hrec).trans hrtx.1
    have hboard : (r.tcb.onTimer now).scoreboard = r.tcb.scoreboard :=
      (congrArg LossRecovery.scoreboard hrec).trans hrtx.2.1
    have hcc : (r.tcb.onTimer now).cc = r.tcb.cc := (congrArg LossRecovery.cc hrec).trans hrtx.2.2
    refine .rests _ _ ?_ (.quiet hs ho ⟨hguard, hboard⟩ hcc hst)
    intro now' he
    cases he
    exact hexp

theorem Ok.effect (hok : r.Ok) (i : Input) : r.Effect i (r.input i).1 := by
  cases i with
  | segment seg now ce =>
    by_cases hst : r.tcb.state = .synSent
    · exact hok.effect_synSent hst seg now ce
    · exact hok.effect_segment hst seg now ce
  | send data =>
    have hsame : (r.tcb.send data).1.sndUna = r.tcb.sndUna ∧ (r.tcb.send data).1.sndNxt = r.tcb.sndNxt ∧
        (r.tcb.send data).1.toLossRecovery = r.tcb.toLossRecovery ∧
        (r.tcb.send data).1.state = r.tcb.state := by
      unfold Tcb.send
      split <;> exact ⟨rfl, rfl, rfl, rfl⟩
    obtain ⟨h1, h2, hl, hst⟩ := hsame
    have hstays := hok.stays (i := .send data) fun _ _ _ => by simp
    exact .rests _ _ (by simp) ⟨hstays.iss, follow_una h1, (nxt_follow ⟨h1, h2⟩).ge, hstays.options,
      congrArg LossRecovery.gbnRecover hl, congrArg (fun l => l.scoreboard.sacked) hl,
      congrArg (fun l => l.scoreboard.recoveryPoint) hl, fun he => hst.symm.trans he,
      .inl (congrArg LossRecovery.cc hl)⟩
  | recv n =>
    exact .rests _ _ (by simp) ⟨rfl, follow_una rfl, (nxt_follow ⟨rfl, rfl⟩).ge, rfl, rfl, rfl, rfl, id, .inl rfl⟩
  | close =>
    exact .rests _ _ (by simp) ⟨rfl, follow_una rfl, (nxt_follow ⟨rfl, rfl⟩).ge, rfl, rfl, rfl, rfl, id, .inl rfl⟩
  | timer now => exact effect_timer r now
  | poll now =>
    have hstays := hok.stays (i := .poll now) fun _ _ _ => by simp
    have hpolled := hok.polled now
    obtain ⟨hguard, hboard⟩ := r.tcb.scoreboard_pollTransmit now
    have hpoint : (r.tcb.pollTransmit now).1.scoreboard.recoveryPoint = r.tcb.scoreboard.recoveryPoint := by
      rcases hboard with he | ⟨seq, n, isRescue, -, -, -, -, -, -, he⟩
      · rw [he]
      · rw [he]
        have hmark : (r.tcb.scoreboard.markRexmit seq (seq + n)).recoveryPoint =
            r.tcb.scoreboard.recoveryPoint := by
          unfold Scoreboard.markRexmit
          split <;> rfl
        split
        · exact hmark
        · exact hmark
    refine .rests _ _ (by simp) ⟨hstays.iss, follow_una hpolled.una, hpolled.nxt, hstays.options, hguard,
      r.tcb.sacked_pollTransmit now, hpoint, fun he => ?_, ?_⟩
    · by_contra hne
      exact hstays.past hne he
    · rcases r.tcb.cc_pollTransmit now with he | ⟨q, n, f, b, he⟩
      · exact .inl he
      · exact .inr ⟨now, q, n, f, b, he⟩

/-- A timeout that finds everything acknowledged, or a segment that ends the handshake,
or starts it over, while the guard stands. -/
def Strands (r : Host κ) : Input → Prop
  | .timer now => r.Expires now ∧ r.tcb.sndUna = r.tcb.sndNxt
  | .segment seg _ _ => r.tcb.state = .synReceived ∧ r.tcb.gbnRecover ≠ none ∧
      (r.tcb.core.dupSyn seg.tcp || r.tcb.core.admits seg.tcp && r.tcb.core.validAck seg.tcp) = true
  | _ => False

instance : ∀ i, Decidable (r.Strands i)
  | .timer _ => inferInstanceAs (Decidable (_ ∧ _))
  | .segment _ _ _ => inferInstanceAs (Decidable (_ ∧ _ ∧ _))
  | .send _ | .recv _ | .close | .poll _ => isFalse id

end Host

/-! ## The guard over a run -/

/-- A host with the position of `SND.NXT` at its last timeout. -/
structure Marked (κ : Type) where
  host : Host κ
  mark : Nat

namespace Marked

open Host

variable {κ : Type} [CongestionControl κ] {w : Marked κ} {i : Input}

def start (r : Host κ) : Marked κ := { host := r, mark := 0 }

/-- The mark after a call. -/
def moved (w : Marked κ) : Input → Nat
  | .timer now => if w.host.Expires now then w.host.nxt else w.mark
  | _ => w.mark

def next (w : Marked κ) (i : Input) : Marked κ := { host := (w.host.input i).1, mark := w.moved i }

def step (w : Marked κ) (i : Input) : Option (Marked κ) := some (w.next i)

def NotStranded (w : Marked κ) (i : Input) : Prop := ¬ w.host.Strands i

instance : Decidable (w.NotStranded i) := inferInstanceAs (Decidable (¬ _))

/-- The guard stands between `SND.UNA` and `SND.NXT`; and once everything is
acknowledged that was outstanding at the last timeout, a loss at `SND.UNA` finds the
connection in recovery. -/
structure Guarded (w : Marked κ) : Prop where
  guard : ∀ h, w.host.tcb.gbnRecover = some h →
    w.host.tcb.sndUna.lt h = true ∧ h.le w.host.tcb.sndNxt = true
  lost : w.host.tcb.sackEnabled = true → w.mark ≤ w.host.una →
    w.host.tcb.scoreboard.isLost w.host.tcb.sndUna w.host.tcb.sndMss = true →
      w.host.tcb.scoreboard.inRecovery = true

/-- The guard is the mark of the last timeout, and a loss without it is in recovery. -/
structure Drains (w : Marked κ) : Prop where
  ok : w.host.Ok
  board : w.host.Board
  guard : ∀ h, w.host.tcb.gbnRecover = some h →
    h = w.host.tcb.iss + w.mark ∧ w.host.una < w.mark ∧ w.mark ≤ w.host.nxt
  lost : w.host.tcb.gbnRecover = none → w.host.tcb.sackEnabled = true →
    w.host.tcb.scoreboard.isLost w.host.tcb.sndUna w.host.tcb.sndMss = true →
      w.host.tcb.scoreboard.inRecovery = true
  early : w.host.tcb.state = .synSent → w.host.tcb.gbnRecover = none

omit [CongestionControl κ] in
theorem Drains.guarded (h : w.Drains) : w.Guarded := by
  have hnear := h.ok.near
  refine ⟨fun high hg => ?_, fun hs hmark hlost => ?_⟩
  · obtain ⟨rfl, hlt, hle⟩ := h.guard high hg
    have hend : w.host.una + w.host.tcb.toSendSpace.outstanding = w.host.nxt := rfl
    rw [h.ok.sending.at_una, h.ok.sending.at_nxt, hend, SeqNumber.pos_lt _ (by omega) (by omega),
      SeqNumber.pos_le _ (by omega) (by omega), decide_eq_true_iff, decide_eq_true_iff]
    exact ⟨hlt, hle⟩
  · refine h.lost ?_ hs hlost
    -- a guard would stand above the mark
    cases hg : w.host.tcb.gbnRecover with
    | none => rfl
    | some high => exact absurd (h.guard high hg).2.1 (by omega)

omit [CongestionControl κ] in
/-- Only a timeout moves the mark. -/
theorem moved_rests (hexp : ∀ now, i = .timer now → ¬ w.host.Expires now) : w.moved i = w.mark := by
  cases i with
  | timer now => exact if_neg (hexp now rfl)
  | segment | send | recv | close | poll => rfl

omit [CongestionControl κ] in
/-- In a blank scoreboard nothing is lost. -/
theorem drains_blank {r : Host κ} (hok : r.Ok) (hboard : r.Board) (hb : r.tcb.scoreboard = Scoreboard.new)
    (hg : r.tcb.gbnRecover = none) (mark : Nat) : Drains (κ := κ) { host := r, mark := mark } where
  ok := hok
  board := hboard
  guard high h := absurd (hg.symm.trans h) (by simp)
  lost _ _ h := by
    have h' : r.tcb.scoreboard.isLost r.tcb.sndUna r.tcb.sndMss = true := h
    rw [hb, Tcb.blank_isLost] at h'
    cases h'
  early _ := hg

theorem Drains.rests (h : w.Drains) {r : Host κ} (hok : r.Ok) (hboard : r.Board) (hr : w.host.Rests r) :
    Drains (κ := κ) { host := r, mark := w.mark } where
  ok := hok
  board := hboard
  guard high hg := by
    obtain ⟨h1, h2, h3⟩ := h.guard high (hr.guard ▸ hg)
    have hnxt := hr.nxt
    exact ⟨hr.iss ▸ h1, hr.una ▸ h2, by change w.mark ≤ r.nxt; omega⟩
  lost hg hs hlost := by
    have hin := h.lost (hr.guard ▸ hg) (congrArg Options.sackEnabled hr.options ▸ hs)
    have huna : r.tcb.sndUna = w.host.tcb.sndUna := by
      rw [hok.sending.at_una, h.ok.sending.at_una, hr.una, hr.iss]
    have hmss : r.tcb.sndMss = w.host.tcb.sndMss := congrArg Options.sndMss hr.options
    have hlost' : r.tcb.scoreboard.isLost r.tcb.sndUna r.tcb.sndMss = true := hlost
    rw [Scoreboard.isLost, hr.sacked, huna, hmss] at hlost'
    have hstill : r.tcb.scoreboard.inRecovery = w.host.tcb.scoreboard.inRecovery := by
      rw [Scoreboard.inRecovery, Scoreboard.inRecovery, hr.point]
    exact hstill.trans (hin hlost')
  early he := hr.guard.trans (h.early (hr.early he))

/-- A segment taken in past the handshake. -/
theorem Drains.taken (h : w.Drains) {r : Host κ} (hok : r.Ok) (hboard : r.Board) {p : TcpPacket}
    {now : Instant} {ce : Bool} (h2 : w.host.tcb.state ≠ .synReceived)
    (ht : r.tcb = ((w.host.tcb.advanceTsRecent p).acks now p).onText now p ce)
    (hle : w.host.una ≤ r.una) (hle' : r.una ≤ w.host.nxt) (hnxt : r.nxt = w.host.nxt)
    (hpast : r.tcb.state ≠ .synSent) : Drains (κ := κ) { host := r, mark := w.mark } := by
  obtain ⟨huna, -, hiss, hopts⟩ := w.host.tcb.taken_send now p h2 ce ht
  obtain ⟨hguard, -⟩ := w.host.tcb.taken_board now p ce ht
  have hnear := h.ok.near
  refine ⟨hok, hboard, fun high hg => ?_, fun hg hs hlost => ?_, fun he => absurd he hpast⟩
  · -- the guard that is left lies above what is acknowledged now
    have hg' : w.host.tcb.guardAt p = some high := hguard.symm.trans hg
    unfold Tcb.guardAt at hg'
    unfold Tcb.ackedUna at huna
    have hpos := hok.sending.at_una
    split at hg'
    · rename_i hgt
      rw [if_pos hgt] at huna
      rw [Tcb.ackGuard, Option.filter_eq_some_iff, Bool.and_eq_true] at hg'
      obtain ⟨hold, hlt, -⟩ := hg'
      obtain ⟨rfl, habove, hmark⟩ := h.guard high hold
      rw [← huna, hpos, hiss, SeqNumber.pos_lt _ (by omega) (by omega), decide_eq_true_iff] at hlt
      exact ⟨by rw [hiss], hlt, by change w.mark ≤ r.nxt; omega⟩
    · rename_i hgt
      rw [if_neg hgt] at huna
      obtain ⟨rfl, hlt, hmark⟩ := h.guard high hg'
      have hsame : r.una = w.host.una := by
        rw [hpos, hiss, h.ok.sending.at_una, SeqNumber.pos_eq _ (by omega) (by omega)] at huna
        exact huna
      exact ⟨by rw [hiss], by change r.una < w.mark; omega, by change w.mark ≤ r.nxt; omega⟩
  · have hs' : w.host.tcb.sackEnabled = true := (congrArg Options.sackEnabled hopts).symm.trans hs
    exact w.host.tcb.taken_lost now p ce h2 ht hs' (hguard.symm.trans hg) hlost

/-- What a call keeps, unless it strands the guard. -/
theorem Drains.next (h : w.Drains) (hno : w.NotStranded i) : (w.next i).Drains := by
  have hok := h.ok.input i
  have hboard := h.board.input h.ok i
  have heffect := h.ok.effect i
  unfold Marked.next
  generalize (w.host.input i).1 = r at hok hboard heffect ⊢
  cases heffect with
  | rests _ _ hexp hr =>
    rw [moved_rests hexp]
    exact h.rests hok hboard hr
  | expires now _ hexp hiss _ huna hnxt hguard hb hst _ =>
    have hmoved : w.moved (.timer now) = w.host.nxt := if_pos hexp
    have hne : w.host.tcb.sndUna ≠ w.host.tcb.sndNxt := fun he => hno ⟨hexp, he⟩
    have hend : w.host.una + w.host.tcb.toSendSpace.outstanding = w.host.nxt := rfl
    rw [hmoved]
    refine ⟨hok, hboard, fun high hg => ?_, fun hg => ?_, fun he => absurd he hst⟩
    · have hhigh : high = w.host.tcb.sndNxt := Option.some.inj (hg.symm.trans hguard)
      have hlt : w.host.una ≠ w.host.nxt := by
        intro he
        refine hne ?_
        rw [h.ok.sending.at_una, h.ok.sending.at_nxt, hend, he]
      have hpos : w.host.tcb.sndNxt = r.tcb.iss + w.host.nxt := by
        rw [h.ok.sending.at_nxt, hiss]
        rfl
      refine ⟨hhigh.trans hpos, ?_, hnxt.ge⟩
      change r.una < w.host.nxt
      omega
    · exact absurd (hguard.symm.trans hg) (by simp)
  | learns seg now ce _ hst hiss hnxt hguard hb =>
    exact drains_blank hok hboard (hb.trans (h.board.blank (.inr (.inl hst)))) (hguard.trans (h.early hst)) _
  | synAgain seg now ce _ hst hdup hr =>
    have hnone : w.host.tcb.gbnRecover = none := by
      by_contra hg
      exact hno ⟨hst, hg, by rw [hdup, Bool.true_or]⟩
    subst hr
    exact drains_blank hok hboard (h.board.blank (.inr (.inr hst))) hnone _
  | opens seg now ce _ hst hadm hv hiss hnxt hguard hb hpast _ =>
    have hnone : w.host.tcb.gbnRecover = none := by
      by_contra hg
      exact hno ⟨hst, hg, by rw [hadm, hv, Bool.and_self, Bool.or_true]⟩
    exact drains_blank hok hboard (hb.trans (h.board.blank (.inr (.inr hst)))) (hguard.trans hnone) _
  | taken seg now ce _ h1 h2 hadm hv ht hle hle' hnxt hpast =>
    exact h.taken hok hboard h2 ht hle hle' hnxt hpast

theorem drains_start {r : Host κ} (h : r.Opens) : (start r).Drains := by
  refine drains_blank h.ok (board_blank h.ok h.blank) h.blank ?_ 0
  have hkeep : ∀ (t : Tcb κ) (kind : CcKind), (t.setCongestionControl kind).gbnRecover = t.gbnRecover := by
    intro t kind
    unfold Tcb.setCongestionControl
    split <;> rfl
  cases h with
  | active loc remote iss now mss kind => exact hkeep _ kind
  | passive loc remote syn iss now mss kind => exact hkeep _ kind

/-- As long as no timeout finds everything acknowledged, and no handshake is completed
under the guard, the guard ends with the drain. -/
theorem guard_drains {r₀ : Host κ} {is : List Input} (h0 : r₀.Opens)
    (hc : Run.Along step NotStranded (start r₀) is) (hr : Run.run step (start r₀) is = some w) :
    w.Guarded := by
  refine (Run.run_invariant_along (I := Drains) (fun u i u' hu hno he => ?_) (drains_start h0) hc hr).guarded
  cases he
  exact hu.next hno

/-- Ten octets are sent, the timer goes off, and half of them are acknowledged. -/
def halfway : List Input :=
  settled ++ [.send (Bytes.replicate 10 7), .poll ⟨0⟩, .timer ⟨3000000⟩, .poll ⟨3000000⟩,
    bareAck 106 [] ⟨3000000⟩]

theorem guard_drains_halfway : ∃ w : Marked Reno, Run.run step (start accepted) halfway = some w ∧
    w.host.tcb.gbnRecover = some (SeqNumber.new 111) ∧ w.Guarded := by
  obtain ⟨w, hr, hg⟩ := Run.exists_run step (start accepted) halfway
    (fun w => w.host.tcb.gbnRecover = some (SeqNumber.new 111)) (by decide +kernel)
  have hno : Run.Along step NotStranded (start accepted) halfway := by decide +kernel
  exact ⟨w, hr, hg, guard_drains accepted_opens hno hr⟩

/-- The SYN-ACK times out and is answered the second time; then seven segments of five
octets are sent, of which the peer reports the second, the fourth and the sixth. -/
def outlived : List Input :=
  [.poll ⟨0⟩, .timer ⟨3000000⟩, .poll ⟨3000000⟩,
    bareAck 101 [] ⟨3000000⟩] ++
  (List.replicate 7 [Input.send (Bytes.replicate 5 7), .poll ⟨3000000⟩]).flatten ++
  [bareAck 101 [(SeqNumber.new 106, SeqNumber.new 111), (SeqNumber.new 116, SeqNumber.new 121),
    (SeqNumber.new 126, SeqNumber.new 131)] ⟨3000000⟩]

/-- The guard is still set, to `SND.UNA`, and the loss starts no recovery. -/
theorem guard_outlives : ∃ w : Marked Reno, Run.run step (start accepted) outlived = some w ∧
    w.host.tcb.gbnRecover = some w.host.tcb.sndUna ∧ w.host.tcb.sackEnabled = true ∧ w.mark = w.host.una ∧
    w.host.tcb.scoreboard.isLost w.host.tcb.sndUna w.host.tcb.sndMss = true ∧
    w.host.tcb.scoreboard.inRecovery = false ∧ ¬ w.Guarded := by
  obtain ⟨w, hr, h1, h2, h3, h4, h5⟩ := Run.exists_run step (start accepted) outlived
    (fun w => w.host.tcb.gbnRecover = some w.host.tcb.sndUna ∧ w.host.tcb.sackEnabled = true ∧
      w.mark = w.host.una ∧ w.host.tcb.scoreboard.isLost w.host.tcb.sndUna w.host.tcb.sndMss = true ∧
      w.host.tcb.scoreboard.inRecovery = false) (by decide +kernel)
  refine ⟨w, hr, h1, h2, h3, h4, h5, fun h => ?_⟩
  exact absurd ((h.lost h2 h3.le h4).symm.trans h5) (by simp)

end Marked

end Ferrumnet
