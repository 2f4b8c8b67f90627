import Ferrumnet.GoBackN

/-
  Which deadlines can be armed in which state.

  The retransmission timer rests while nothing is outstanding, past the handshake;
  the closing timer is armed in FIN-WAIT-2 and TIME-WAIT and nowhere else; the
  persist timer backs off from a positive interval; and in SYN-SENT only the
  retransmission timer can be armed.

  `Settles` is the first and the third of one stage, and composes; `Timed.input`
  puts all of it together over one call, `timed_run` over a run.
-/

namespace Ferrumnet

namespace Tcb

set_option linter.unusedSectionVars false

variable {κ : Type} [CongestionControl κ] {t u v : Tcb κ} {now : Instant} {p : TcpPacket}

/-- The retransmission timer rests while nothing is outstanding. -/
def Idle (t : Tcb κ) : Prop := t.sndUna = t.sndNxt → t.rtxDeadline = none

/-- The timer rests afterwards with nothing outstanding, or neither it nor the send
space has changed; and the persist interval stays positive. -/
structure Settles (t u : Tcb κ) : Prop where
  rtx : u.Idle ∨ (u.rtxDeadline = t.rtxDeadline ∧ u.toSendSpace = t.toSendSpace)
  backoff : 0 < t.persistBackoff → 0 < u.persistBackoff

theorem Settles.still (h1 : u.rtxDeadline = t.rtxDeadline) (h2 : u.toSendSpace = t.toSendSpace)
    (h3 : u.persistBackoff = t.persistBackoff) : Settles t u :=
  ⟨.inr ⟨h1, h2⟩, fun h => by rwa [h3]⟩

theorem Settles.refl (t : Tcb κ) : Settles t t := .still rfl rfl rfl

/-- Something is outstanding afterwards. -/
theorem Settles.out (h : u.sndUna ≠ u.sndNxt) (h3 : u.persistBackoff = t.persistBackoff) : Settles t u :=
  ⟨.inl fun he => absurd he h, fun h => by rwa [h3]⟩

theorem Settles.idle (h : Settles t u) (ht : t.Idle) : u.Idle := by
  rcases h.rtx with h | ⟨h1, h2⟩
  · exact h
  · intro he
    rw [h2] at he
    rw [h1]
    exact ht he

theorem Settles.trans (h : Settles t u) (h' : Settles u v) : Settles t v := by
  refine ⟨?_, fun hpos => h'.backoff (h.backoff hpos)⟩
  rcases h'.rtx with hi | ⟨h1, h2⟩
  · exact .inl hi
  rcases h.rtx with hi | ⟨h3, h4⟩
  · refine .inl fun he => ?_
    rw [h2] at he
    rw [h1]
    exact hi he
  · exact .inr ⟨h1.trans h3, h2.trans h4⟩

/-! ## Stages of the inbound path -/

theorem settles_advanceTsRecent : Settles t (t.advanceTsRecent p) := by
  simp only [advanceTsRecent]
  split
  · split <;> exact .still rfl rfl rfl
  · exact .refl t

theorem settles_updateWindow (q a : SeqNumber) (w : Nat) : Settles t (t.updateWindow q a w) := by
  simp only [updateWindow]
  split
  · exact ⟨.inr ⟨rfl, rfl⟩, fun _ => show 0 < persistMinMillis by decide⟩
  · exact .still rfl rfl rfl

theorem settles_armDelayedAck : Settles t (t.armDelayedAck now) := by
  unfold armDelayedAck
  split <;> exact .still rfl rfl rfl

theorem settles_scheduleAck (b : Bool) : Settles t (t.scheduleAck now b) := by
  simp only [scheduleAck]
  split
  · split
    · exact .still rfl rfl rfl
    · refine Settles.trans ?_ settles_armDelayedAck
      exact .still rfl rfl rfl
  · exact .still rfl rfl rfl

theorem settles_onText (ce : Bool) : Settles t (t.onText now p ce) := by
  have hdata : Settles t (t.onData now p ce) := by
    simp only [onData]
    split
    · exact .refl t
    · refine Settles.trans ?_ (settles_scheduleAck _)
      split <;> exact .still rfl rfl rfl
  have hfin : Settles (t.onData now p ce) ((t.onData now p ce).onFin p) := by
    unfold onFin
    split <;> exact .still rfl rfl rfl
  have hpend : Settles ((t.onData now p ce).onFin p) ((t.onData now p ce).onFin p).onPendingFin := by
    unfold onPendingFin
    split
    · split <;> exact .still rfl rfl rfl
    · exact .refl _
  refine ((hdata.trans hfin).trans hpend).trans ?_
  unfold onText
  generalize ((t.onData now p ce).onFin p).onPendingFin = u
  simp only [recomputeClosingState]
  split
  · split
    · exact ⟨.inl fun _ => rfl, id⟩
    · exact .still rfl rfl rfl
    · exact .still rfl rfl rfl
  · exact .still rfl rfl rfl

/-- The last step of an advancing ACK stops the timer if it acknowledged everything. -/
theorem idle_ackTimer : (t.ackTimer now).Idle := by
  intro he
  have hsend : (t.ackTimer now).toSendSpace = t.toSendSpace :=
    congrArg Core.toSendSpace (t.core_ackTimer now)
  rw [hsend] at he
  simp only [ackTimer]
  split
  · split
    · rfl
    · rename_i hne
      exact absurd he hne
  · split
    · rfl
    · rename_i hne
      exact absurd he hne

theorem backoff_ackAdvance (a : SeqNumber) (e : Option (BitVec 32)) (ace : Nat) :
    (t.ackAdvance a e ace now).persistBackoff = t.persistBackoff := by
  have htimer : ∀ u : Tcb κ, (u.ackTimer now).persistBackoff = u.persistBackoff := by
    intro u
    simp only [ackTimer]
    split <;> split <;> rfl
  have hrtt : ∀ u : Tcb κ, (u.ackRtt now a e).persistBackoff = u.persistBackoff := by
    intro u
    simp only [ackRtt]
    split
    · split
      · split <;> rfl
      · rfl
    · split
      · rfl
      · split
        · split <;> rfl
        · rfl
  have hgbn : ∀ u : Tcb κ, u.ackGbn.persistBackoff = u.persistBackoff := by
    intro u
    simp only [ackGbn]
    split
    · split <;> rfl
    · rfl
  have hboard : ∀ u : Tcb κ, (u.ackScoreboard now).persistBackoff = u.persistBackoff := by
    intro u
    simp only [ackScoreboard]
    split
    · split <;> rfl
    · rfl
  have hecn : ∀ (u : Tcb κ) (n : Nat) (b : Bool), (u.ackEcn now ace n b).persistBackoff = u.persistBackoff := by
    intro u n b
    simp only [ackEcn]
    split
    · split <;> rfl
    · rfl
  simp only [ackAdvance, htimer, hrtt, hgbn, hboard, hecn]
  rfl

theorem settles_ackAdvance (a : SeqNumber) (e : Option (BitVec 32)) (ace : Nat) :
    Settles t (t.ackAdvance a e ace now) := by
  refine ⟨.inl ?_, fun h => by rwa [backoff_ackAdvance]⟩
  simp only [ackAdvance]
  exact idle_ackTimer

theorem settles_opened : Settles t (t.opened p) := by
  refine ⟨.inl fun _ => rfl, fun hpos => ?_⟩
  exact (settles_updateWindow (t := { t with sndUna := p.ack }) p.seq p.ack p.window).backoff hpos

theorem settles_advanced : Settles t (t.advanced now p) := by
  unfold advanced
  split
  · exact (settles_ackAdvance _ _ _).trans (settles_updateWindow _ _ _)
  · exact settles_updateWindow _ _ _

/-- While nothing is outstanding, no octet counts as lost. -/
theorem not_isLost (h : t.Reported) (he : t.sndUna = t.sndNxt) (smss : Nat) :
    t.scoreboard.isLost t.sndUna smss = false := by
  have hout : t.inflight = 0 := by
    simp only [inflight, he]
    exact SeqNumber.offsetFrom_self _
  have hnone : t.scoreboard.sacked.filter (fun run => run.1.gt t.sndUna) = [] := by
    refine List.filter_eq_nil_iff.mpr fun run hr hgt => ?_
    have := h.starts run hr
    have := (SeqNumber.gt_iff run.1 t.sndUna).mp hgt
    omega
  simp [Scoreboard.isLost, hnone, dupThresh]

theorem settles_sackDetect (h : t.Reported) (d : Bool) (hd : d = true → t.sndUna ≠ t.sndNxt) :
    Settles t (t.sackDetect now d) := by
  by_cases he : t.sndUna = t.sndNxt
  · have hfalse : d = false := Bool.eq_false_iff.mpr fun hd' => hd hd' he
    subst hfalse
    simp only [sackDetect, Bool.false_eq_true, if_false, not_isLost h he, Bool.or_false, ite_self]
    exact .refl t
  · simp only [sackDetect]
    split
    · split
      · split
        · exact .out he rfl
        · exact .out he rfl
      · split
        · exact .out he rfl
        · exact .refl t
    · exact .refl t

theorem settles_sackIngest (h : t.Reported) (hw : t.inflight < 2147483648) (hsack : t.sackEnabled = true)
    (hst : t.state ≠ .synSent ∧ t.state ≠ .synReceived) (d : Bool) (hd : d = true → t.sndUna ≠ t.sndNxt)
    (bs : List SackBlock) : Settles t (t.sackIngest now d bs) := by
  have hstarts := Scoreboard.Starts.update (show t.sndNxt.offsetFrom t.sndUna < 2147483648 from hw) h.starts bs
  refine Settles.trans (u := { t with scoreboard := t.scoreboard.update t.sndUna t.sndNxt bs }) (.still rfl rfl rfl) ?_
  refine settles_sackDetect ⟨hstarts, fun hoff => ?_, fun hopen => ?_⟩ d hd
  · rw [hsack] at hoff
    cases hoff
  · exact absurd hopen (by rintro (ho | ho); exacts [hst.1 ho, hst.2 ho])

theorem settles_legacyDupAck (h : t.sndUna ≠ t.sndNxt) : Settles t (t.legacyDupAck now) := by
  simp only [legacyDupAck]
  split
  · exact .out h rfl
  · exact .still rfl rfl rfl

/-- The ACK step, past the handshake. -/
theorem settles_acks (h : t.Reported) (hw : t.inflight < 2147483648)
    (hst : t.state ≠ .synSent ∧ t.state ≠ .synReceived) (hnew : p.ack.gt t.sndNxt = false) (now : Instant) :
    Settles t (t.acks now p) := by
  have hcore := t.core_advanced now p
  have hdup : t.isDupAck p = true → (t.advanced now p).sndUna ≠ (t.advanced now p).sndNxt := by
    intro hdup
    simp only [isDupAck, Bool.and_eq_true, decide_eq_true_eq] at hdup
    have hsame : p.ack.gt t.sndUna = false := by
      rw [hdup.1.2, Bool.eq_false_iff, Ne, SeqNumber.gt_iff, SeqNumber.offsetFrom_self]
      omega
    have hsend : (t.advanced now p).toSendSpace = t.toSendSpace := by
      have hsend := congrArg Core.toSendSpace hcore
      rwa [if_neg (by rw [hsame]; simp)] at hsend
    rw [hsend]
    exact hdup.2
  have hstate : (t.advanced now p).state = t.state := congrArg Core.state hcore
  obtain ⟨hadv, hle⟩ := h.advanced hw hst hnew now
  refine Settles.trans (u := t.advanced now p) settles_advanced ?_
  unfold acks detected
  split
  · rename_i hsack
    exact settles_sackIngest hadv (by omega) hsack (by rw [hstate]; exact hst) _ hdup _
  · split
    · rename_i hd
      exact settles_legacyDupAck (hdup hd)
    · exact .refl _

/-- What a segment does to the timer past SYN-SENT: one that leaves the connection in
SYN-RECEIVED may take the SYN back. -/
theorem settles_onSegment (h : t.Reported) (hw : t.inflight < 2147483648) (hns : t.state ≠ .synSent)
    (now : Instant) (p : TcpPacket) (ce : Bool) :
    Settles t (t.onSegment now p ce) ∨ (t.onSegment now p ce).state = .synReceived ∧
      (t.onSegment now p ce).persistBackoff = t.persistBackoff := by
  have hcore := t.core_advanceTsRecent p
  have hsend : (t.advanceTsRecent p).toSendSpace = t.toSendSpace := congrArg Core.toSendSpace hcore
  have hstate : (t.advanceTsRecent p).state = t.state := congrArg Core.state hcore
  have hreceipt := t.onSegment_receipt now p ce hns
  generalize t.onSegment now p ce = u at hreceipt
  cases hreceipt with
  | spared => exact .inl (.still rfl rfl rfl)
  | reset => exact .inl (.still rfl rfl rfl)
  | lingers => exact .inl ⟨.inl fun _ => rfl, id⟩
  | synAgain hdup => exact .inr ⟨t.core.state_of_dupSyn p hdup, rfl⟩
  | badAck => exact .inl (settles_advanceTsRecent.trans (.still rfl rfl rfl))
  | opens => exact .inl ((settles_advanceTsRecent.trans settles_opened).trans (settles_onText ce))
  | taken hrec _ hv =>
    have hw' : (t.advanceTsRecent p).inflight < 2147483648 := by
      simp only [inflight, hsend]
      exact hw
    have hacks := settles_acks (h.advanceTsRecent p) hw' (by rw [hstate]; exact ⟨hns, hrec⟩)
      (by rw [congrArg SendSpace.sndNxt hsend]; exact t.core.not_gt_of_validAck p hrec hv) now
    exact .inl ((settles_advanceTsRecent.trans hacks).trans (settles_onText ce))

/-! ## The timers -/

theorem backoff_onTimer (h : 0 < t.persistBackoff) : 0 < (t.onTimer now).persistBackoff := by
  have hrtx : (t.onRtxTimer now).persistBackoff = t.persistBackoff := by
    simp only [onRtxTimer]
    split
    · split
      · simp only [synTimeout]
        split <;> rfl
      · rfl
    · rfl
  have hpersist : ∀ u : Tcb κ, 0 < u.persistBackoff → 0 < (u.onPersistTimer now).persistBackoff := by
    intro u hu
    simp only [onPersistTimer]
    split
    · change 0 < min (u.persistBackoff * 2) persistMaxMillis
      have : persistMaxMillis = 60000 := rfl
      omega
    · exact hu
  have hwait : ∀ u : Tcb κ, (u.onTimeWaitTimer now).persistBackoff = u.persistBackoff := by
    intro u
    simp only [onTimeWaitTimer]
    split <;> rfl
  have hdelayed : ∀ u : Tcb κ, (u.onDelayedAckTimer now).persistBackoff = u.persistBackoff := by
    intro u
    simp only [onDelayedAckTimer]
    split <;> rfl
  rw [onTimer, hdelayed, hwait]
  exact hpersist _ (by rwa [hrtx])

/-- A timeout restarts the timer of something outstanding. -/
theorem idle_onTimer (h : t.Idle) : (t.onTimer now).Idle := by
  have hsend : (t.onTimer now).toSendSpace = t.toSendSpace := by
    rcases t.core_onTimer now with hc | hc <;> exact congrArg Core.toSendSpace hc
  have hloss : (t.onTimer now).loss = (t.onRtxTimer now).loss := by
    simp only [onTimer, loss_onDelayedAckTimer, loss_onTimeWaitTimer, loss_onPersistTimer]
  intro he
  rw [hsend] at he
  have hnone := h he
  have hskip : t.onRtxTimer now = t := by simp [onRtxTimer, hnone, Instant.due]
  rw [hskip] at hloss
  exact (congrArg Prod.fst hloss).trans hnone

/-! ## `poll_transmit` -/

/-- The timer is armed only with something outstanding, or with what goes out now. -/
structure Arms (t u : Tcb κ) : Prop where
  rtx : u.rtxDeadline = t.rtxDeadline ∨ 0 < t.inflight ∨ u.sndNxt ≠ t.sndNxt
  backoff : 0 < t.persistBackoff → 0 < u.persistBackoff

theorem Arms.still (h1 : u.rtxDeadline = t.rtxDeadline) (h3 : u.persistBackoff = t.persistBackoff) :
    Arms t u := ⟨.inl h1, fun h => by rwa [h3]⟩

theorem Arms.orElse {q : Emit κ} {next : Tcb κ → Emit κ} (hq : Arms t q.1)
    (hs : q.2 = none → q.1.core = t.core) (hnext : ∀ w : Tcb κ, w.core = t.core → Arms w (next w).1) :
    Arms t (q.orElse next).1 := by
  obtain ⟨w, o⟩ := q
  cases o with
  | some d => exact hq
  | none =>
    have hc : w.core = t.core := hs rfl
    have hn : w.sndNxt = t.sndNxt := congrArg (fun c : Core => c.sndNxt) hc
    have hi : w.inflight = t.inflight := congrArg Core.inflight hc
    have hw := hnext w hc
    refine ⟨?_, fun h => hw.backoff (hq.backoff h)⟩
    change (next w).1.rtxDeadline = _ ∨ _ ∨ (next w).1.sndNxt ≠ _
    rcases hq.rtx with h | h | h
    · have hrtx := hw.rtx
      rw [hi, hn] at hrtx
      exact hrtx.imp (fun he => he.trans h) id
    · exact .inr (.inl h)
    · exact absurd hn h

theorem backoff_startRtx : (t.startRtx now).persistBackoff = t.persistBackoff := by
  unfold startRtx
  split <;> rfl

theorem arms_retransmitOldest : Arms t (t.retransmitOldest now).1 := by
  simp only [retransmitOldest]
  split
  · rename_i hr
    simp only [Bool.and_eq_true, decide_eq_true_eq] at hr
    refine ⟨.inr (.inl hr.2), fun h => ?_⟩
    simp only [resendOldest]
    split
    · simp only [Emit.after, backoff_startRtx]
      exact h
    · split
      · split
        · simp only [Emit.after, backoff_startRtx]
          exact h
        · exact h
      · exact h
  · exact .still rfl rfl

/-- With nothing in flight there is no hole to repair. -/
theorem arms_sackRetransmit : Arms t (t.sackRetransmit now).1 := by
  have hback : 0 < t.persistBackoff → 0 < (t.sackRetransmit now).1.persistBackoff := by
    intro h
    simp only [sackRetransmit]
    split
    · split
      · split
        · split
          · simp only [Emit.after, backoff_startRtx]
            exact h
          · exact h
        · exact h
      · exact h
    · exact h
  refine ⟨?_, hback⟩
  rcases Nat.eq_zero_or_pos t.inflight with h0 | hpos
  · left
    have hnone : t.scoreboard.nextSeg t.sndUna t.sndNxt t.sndMss = none := by
      have h0' : t.sndNxt.offsetFrom t.sndUna = 0 := h0
      simp only [Scoreboard.nextSeg, h0', Scoreboard.findLoop]
      split
      · rfl
      · split <;> rfl
    simp only [sackRetransmit, hnone]
    split
    · split <;> rfl
    · rfl
  · exact .inr (.inl hpos)

theorem arms_sendNewData (hlen : t.tx.len < 4294967295) : Arms t (t.sendNewData now).1 := by
  have hloss := t.loss_pace now (min t.cwndRoom t.rwndRoom)
  obtain ⟨hcore, -, -⟩ := t.pace_core now (min t.cwndRoom t.rwndRoom)
  have hback : (t.pace now (min t.cwndRoom t.rwndRoom)).1.persistBackoff = t.persistBackoff := by
    simp only [pace]
    split
    · rfl
    · split <;> rfl
  simp only [sendNewData]
  generalize t.pace now (min t.cwndRoom t.rwndRoom) = q at hloss hcore hback ⊢
  have hrtx : q.1.rtxDeadline = t.rtxDeadline := congrArg Prod.fst hloss
  have hnxt : q.1.sndNxt = t.sndNxt := congrArg (fun c : Core => c.sndNxt) hcore
  have hunsent : q.1.unsentData ≤ t.tx.len := by
    have : q.1.tx = t.tx := congrArg (fun c : Core => c.tx) hcore
    rw [← this]
    exact Nat.sub_le _ _
  split
  · simp only [sendAllowed]
    split
    · rename_i hn
      refine ⟨.inr (.inr ?_), fun h => ?_⟩
      · have hgo : ∀ w : Tcb κ, (w.startRtx now).sndNxt = w.sndNxt := by
          intro w
          unfold startRtx
          split <;> rfl
        have hnote : ∀ (w : Tcb κ) (n room : Nat), (w.noteSent now n room).sndNxt = w.sndNxt + n := by
          intro w n room
          simp only [noteSent]
          split <;> split <;> rfl
        simp only [Emit.after, hgo, hnote]
        change q.1.sndNxt + _ ≠ _
        rw [hnxt]
        exact SeqNumber.add_ne_self _ (by omega)
      · have hnote : ∀ (w : Tcb κ) (n room : Nat), (w.noteSent now n room).persistBackoff =
            w.persistBackoff := by
          intro w n room
          simp only [noteSent]
          split <;> split <;> rfl
        simp only [Emit.after, backoff_startRtx, hnote]
        exact h.trans_eq hback.symm
    · exact .still hrtx hback
  · split
    · refine ⟨.inl ?_, fun h => ?_⟩
      · have harm : (q.1.armPersist now).rtxDeadline = q.1.rtxDeadline :=
          congrArg Prod.fst (loss_armPersist q.1 now)
        refine Eq.trans ?_ (harm.trans hrtx)
        unfold probe
        split <;> rfl
      · have harm : 0 < (q.1.armPersist now).persistBackoff := by
          unfold armPersist
          split
          · exact show 0 < persistMinMillis by decide
          · exact h.trans_eq hback.symm
        unfold probe
        split <;> exact harm
    · exact .still hrtx hback

theorem arms_sendFin : Arms t (t.sendFin now).1 := by
  simp only [sendFin]
  split
  · rename_i hf
    simp only [Bool.and_eq_true, decide_eq_true_eq] at hf
    have hgo : ∀ w : Tcb κ, (w.noteFin now).sndNxt = w.dataEnd + 1 ∧
        (w.noteFin now).persistBackoff = w.persistBackoff := by
      intro w
      simp only [noteFin, startRtx]
      split <;> exact ⟨rfl, rfl⟩
    refine ⟨.inr (.inr ?_), fun h => ?_⟩
    · simp only [Emit.after, hgo]
      change t.dataEnd + 1 ≠ t.sndNxt
      rw [hf.2]
      exact SeqNumber.add_ne_self _ (by omega)
    · simp only [Emit.after, hgo]
      exact h
  · exact .still rfl rfl

theorem arms_emitOwedAck : Arms t t.emitOwedAck.1 := by
  unfold emitOwedAck
  split <;> exact .still rfl rfl

theorem arms_transmitDataOrFin (hst : t.state.synchronized = true) (hw : t.inflight < 2147483648)
    (hlen : t.tx.len < 4294967295) : Arms t (t.transmitDataOrFin now).1 := by
  obtain ⟨hstep0, hstep1, hstep2⟩ := t.data_stages now hst hw
  refine Arms.orElse ?_ hstep2.none_core fun w _ => arms_sendFin
  refine Arms.orElse ?_ hstep1.none_core fun w hc => arms_sendNewData ?_
  · exact Arms.orElse arms_retransmitOldest hstep0.none_core fun w _ => arms_sackRetransmit
  · rwa [show w.tx = t.tx from congrArg (fun c : Core => c.tx) hc]

/-- Whatever arms the timer has something outstanding, before or with what it sends. -/
theorem arms_pollTransmit (hw : t.inflight < 2147483648) (hlen : t.tx.len < 4294967295) (now : Instant) :
    Arms t (t.pollTransmit now).1 := by
  have hgo : ∀ w : Tcb κ, (w.startRtx now).sndNxt = w.sndNxt := by
    intro w
    unfold startRtx
    split <;> rfl
  have hone : t.iss + 1 ≠ t.iss := SeqNumber.add_ne_self _ (by decide)
  suffices h : Arms { t with curTsval := BitVec.ofNat 32 now.micros } (t.pollTransmit now).1 from
    ⟨h.rtx, h.backoff⟩
  unfold pollTransmit
  have hw' : ({ t with curTsval := BitVec.ofNat 32 now.micros } : Tcb κ).inflight < 2147483648 := hw
  have hlen' : ({ t with curTsval := BitVec.ofNat 32 now.micros } : Tcb κ).tx.len < 4294967295 := hlen
  have hone' : ({ t with curTsval := BitVec.ofNat 32 now.micros } : Tcb κ).iss + 1 ≠
    ({ t with curTsval := BitVec.ofNat 32 now.micros } : Tcb κ).iss := hone
  generalize ({ t with curTsval := BitVec.ofNat 32 now.micros } : Tcb κ) = u at hw' hlen' hone' ⊢
  dsimp only
  split
  · exact .still rfl rfl
  split
  · exact .still rfl rfl
  · exact .still rfl rfl
  · unfold pollSynSent
    split
    · rename_i hfirst
      refine ⟨.inr (.inr ?_), fun h => ?_⟩
      · rw [hgo, hfirst]
        exact hone'
      · simp only [backoff_startRtx]
        exact h
    · split <;> exact .still rfl rfl
  · unfold pollSynReceived
    split
    · rename_i hfirst
      refine ⟨.inr (.inr ?_), fun h => ?_⟩
      · simp only [Emit.after, hgo]
        rw [hfirst]
        exact hone'
      · simp only [Emit.after, backoff_startRtx]
        exact h
    · split
      · exact .still rfl rfl
      · exact arms_emitOwedAck
  · exact arms_emitOwedAck
  · rename_i h1 h2 h3 h4 h5
    have hst : u.state.synchronized = true := by
      cases hs : u.state <;> simp_all [State.synchronized]
    exact (arms_transmitDataOrFin hst hw' hlen').orElse
      (u.transmitDataOrFin_step now hst hw').none_core fun w _ => arms_emitOwedAck

/-! ## The closing timer -/

variable (t) (now)

/-- Step 8 arms the closing timer on the way into FIN-WAIT-2. -/
theorem wait_onText (p : TcpPacket) (ce : Bool) (hst : (t.onText now p ce).state = .finWait2) :
    (t.onText now p ce).timeWaitDeadline = some (now.plusMillis finWait2Millis) ∨
      t.state = .finWait2 ∧ (t.onText now p ce).timeWaitDeadline = t.timeWaitDeadline := by
  have halarms := t.alarms_accept now p ce
  have hbefore : (((t.onData now p ce).onFin p).onPendingFin).state = t.state := by
    have hcore := core_onPendingFin ((t.onData now p ce).onFin p)
    rw [core_onFin, core_onData] at hcore
    exact congrArg Core.state hcore
  unfold onText at hst ⊢
  generalize ((t.onData now p ce).onFin p).onPendingFin = u at halarms hbefore hst ⊢
  have hstate : (u.recomputeClosingState now).state = closingState u.state u.finAcked u.peerFinSeen :=
    congrArg Core.state (u.core_recomputeClosingState now)
  rw [hstate] at hst
  simp only [recomputeClosingState, hst]
  split
  · exact .inl rfl
  · rename_i hsame
    refine .inr ⟨?_, congrArg Prod.snd halarms⟩
    rw [← hbefore]
    exact (not_not.mp hsame).symm

/-- A segment that leaves the connection in FIN-WAIT-2 arms the closing timer, or
found it there. -/
theorem wait_onSegment (hns : t.state ≠ .synSent) (p : TcpPacket) (ce : Bool)
    (hst : (t.onSegment now p ce).state = .finWait2) :
    (t.onSegment now p ce).timeWaitDeadline = some (now.plusMillis finWait2Millis) ∨
      t.state = .finWait2 ∧ (t.onSegment now p ce).timeWaitDeadline = t.timeWaitDeadline := by
  have halarms := t.alarms_advanceTsRecent p
  have hstate : (t.advanceTsRecent p).state = t.state := congrArg Core.state (t.core_advanceTsRecent p)
  have hreceipt := t.onSegment_receipt now p ce hns
  generalize t.onSegment now p ce = u at hreceipt hst
  cases hreceipt with
  | spared => exact .inr ⟨hst, rfl⟩
  | reset => cases hst
  | lingers htw => exact absurd (htw.symm.trans hst) (by simp)
  | synAgain => exact .inr ⟨hst, rfl⟩
  | badAck => cases hst
  | opens =>
    refine (((t.advanceTsRecent p).opened p).wait_onText now p ce hst).imp id fun h => ?_
    cases h.1
  | taken hrec =>
    have hacks := (t.advanceTsRecent p).alarms_acks now p
    have hsame := ((t.advanceTsRecent p).state_acks now p (hstate.trans_ne hrec)).trans hstate
    refine (((t.advanceTsRecent p).acks now p).wait_onText now p ce hst).imp id fun ⟨h1, h2⟩ => ?_
    exact ⟨hsame.symm.trans h1, h2.trans (congrArg Prod.snd (hacks.trans halarms))⟩

/-- No timer and no transmission arms it. -/
theorem wait_onTimer : (t.onTimer now).timeWaitDeadline = t.timeWaitDeadline := by
  have hwait : ∀ u : Tcb κ, (u.onTimeWaitTimer now).alarms = u.alarms := by
    intro u
    simp only [onTimeWaitTimer]
    split <;> rfl
  have h : (t.onTimer now).alarms = t.alarms := by
    simp only [onTimer, alarms_onDelayedAckTimer, hwait, alarms_onPersistTimer, alarms_onRtxTimer]
  exact congrArg Prod.snd h

theorem wait_pollTransmit : (t.pollTransmit now).1.timeWaitDeadline = t.timeWaitDeadline := by
  cases h : t.pendingReset with
  | none => exact congrArg Prod.snd (t.alarms_pollTransmit now h)
  | some seq => simp only [pollTransmit, h]

/-! ## SYN-SENT -/

/-- Before the handshake only the retransmission timer is armed, once the SYN is out,
and the retries are not used up. -/
structure Dialing (t : Tcb κ) : Prop where
  persist : t.persistDeadline = none
  delayed : t.delayedAckDeadline = none
  pace : t.paceDeadline = none
  rtx : t.rtxDeadline = none ↔ t.sndNxt = t.iss
  retries : t.synRetries < maxSynRetries

variable {t}

theorem Dialing.onSegment (h : t.Dialing) (hst : t.state = .synSent) (p : TcpPacket) (ce : Bool)
    (hst' : (t.onSegment now p ce).state = .synSent) : (t.onSegment now p ce).Dialing := by
  rw [Tcb.onSegment, if_pos hst] at hst' ⊢
  have hgreeting := t.onSegmentSynSent_greeting p
  generalize t.onSegmentSynSent p = u at hgreeting hst'
  cases hgreeting with
  | ignored => exact h
  | refused => exact ⟨h.persist, h.delayed, h.pace, h.rtx, h.retries⟩
  | reset => cases hst'
  | opened => cases hst'
  | crossed => cases hst'

theorem Dialing.onTimer (h : t.Dialing) (hst : t.state = .synSent) (hw : t.timeWaitDeadline = none)
    (hst' : (t.onTimer now).state = .synSent) : (t.onTimer now).Dialing := by
  have hrtx : (t.onRtxTimer now).state = .closed ∨ ((t.onRtxTimer now).Dialing ∧
      (t.onRtxTimer now).timeWaitDeadline = none) := by
    simp only [onRtxTimer]
    split
    · rename_i hdue
      simp only [synTimeout]
      split
      · exact .inl rfl
      · rename_i hleft
        refine .inr ⟨⟨h.persist, h.delayed, h.pace, ?_, Nat.lt_of_not_ge hleft⟩, hw⟩
        have hsome : t.rtxDeadline ≠ none := fun hn => by simp [hn, Instant.due] at hdue
        exact ⟨fun hn => (by cases hn), fun hn => absurd (h.rtx.mpr hn) hsome⟩
    · exact .inr ⟨h, hw⟩
  rcases hrtx with hc | ⟨hd, hw'⟩
  · have hgone : (t.onTimer now).core.state = .closed := by
      rw [Tcb.onTimer, core_onDelayedAckTimer]
      rcases ((t.onRtxTimer now).onPersistTimer now).core_onTimeWaitTimer now with hc' | hc'
      · rw [hc', core_onPersistTimer]
        exact hc
      · rw [hc']
        rfl
    exact absurd (hst'.symm.trans hgone) (by simp)
  · have h1 : (t.onRtxTimer now).onPersistTimer now = t.onRtxTimer now := by
      simp [onPersistTimer, hd.persist, Instant.due]
    have h2 : (t.onRtxTimer now).onTimeWaitTimer now = t.onRtxTimer now := by
      simp [onTimeWaitTimer, hw', Instant.due]
    have h3 : (t.onRtxTimer now).onDelayedAckTimer now = t.onRtxTimer now := by
      simp [onDelayedAckTimer, hd.delayed, Instant.due]
    rw [Tcb.onTimer, h1, h2, h3]
    exact hd

theorem Dialing.poll (h : t.Dialing) (hst : t.state = .synSent) : (t.pollTransmit now).1.Dialing := by
  have hone : t.iss + 1 ≠ t.iss := SeqNumber.add_ne_self _ (by decide)
  cases hreset : t.pendingReset with
  | some seq =>
    simp only [pollTransmit, hreset]
    exact ⟨h.persist, h.delayed, h.pace, h.rtx, h.retries⟩
  | none =>
    simp only [pollTransmit, hreset, hst, pollSynSent]
    split
    · rename_i hfirst
      have hnone := h.rtx.mpr hfirst
      simp only [startRtx, hnone, Option.isNone_none, if_true]
      exact ⟨h.persist, h.delayed, h.pace, ⟨fun hn => (by cases hn), fun hn => absurd hn hone⟩, h.retries⟩
    · split <;> exact ⟨h.persist, h.delayed, h.pace, h.rtx, h.retries⟩

end Tcb

namespace Host

variable {κ : Type} [CongestionControl κ] {r s : Host κ}

/-- The deadlines of a host. -/
structure Timed (r : Host κ) : Prop where
  reported : r.tcb.Reported
  idle : r.tcb.state.synchronized = true → r.tcb.Idle
  backoff : 0 < r.tcb.persistBackoff
  wait : r.tcb.state = .finWait2 → ∃ d : Instant, r.tcb.timeWaitDeadline = some d ∧ d.micros ≤ Instant.u64Max
  only : r.tcb.timeWaitDeadline.isSome = true →
    r.tcb.state = .finWait2 ∨ r.tcb.state = .timeWait ∨ r.tcb.state = .closed
  dialing : r.tcb.state = .synSent → r.tcb.Dialing

/-- A transmission changes the state only with the FIN. -/
theorem Ok.poll_state (hok : r.Ok) (now : Instant) :
    (r.tcb.pollTransmit now).1.state = r.tcb.state ∨
      r.tcb.state = .established ∧ (r.tcb.pollTransmit now).1.state = .finWait1 ∨
      r.tcb.state = .closeWait ∧ (r.tcb.pollTransmit now).1.state = .lastAck := by
  have hp := hok.polls now
  generalize r.tcb.pollTransmit now = q at hp ⊢
  obtain ⟨t, o⟩ := q
  dsimp only at hp ⊢
  cases hp with
  | idle hc => exact .inl (congrArg Core.state hc)
  | rst _ _ hc => exact .inl (congrArg Core.state hc)
  | syn _ hc => rcases hc with ⟨-, hc⟩ | ⟨-, hc⟩ <;> exact .inl (congrArg Core.state hc)
  | segment _ _ _ hs hc =>
    have hst := congrArg Core.state hc
    change t.state = _ at hst
    rw [hst]
    cases hs with
    | fin =>
      change Tcb.finState r.tcb.state = _ ∨ _ ∧ Tcb.finState r.tcb.state = _ ∨ _ ∧ Tcb.finState r.tcb.state = _
      cases r.tcb.state <;> simp [Tcb.finState]
    | _ => exact .inl rfl

/-- FIN-WAIT-2 leads on to TIME-WAIT, or to CLOSED. -/
theorem input_finWait2 (hok : r.Ok) (hst : r.tcb.state = .finWait2) (i : Input) :
    (r.input i).1.tcb.state = .finWait2 ∨ (r.input i).1.tcb.state = .timeWait ∨
      (r.input i).1.tcb.state = .closed := by
  cases i with
  | segment seg now ce =>
    have hcases := r.tcb.core.onSegment_takes seg.tcp (show r.tcb.state ≠ .synSent by rw [hst]; simp)
    rw [← Tcb.core_onSegment r.tcb now seg.tcp ce] at hcases
    change (r.tcb.onSegment now seg.tcp ce).state = _ ∨ (r.tcb.onSegment now seg.tcp ce).state = _ ∨
      (r.tcb.onSegment now seg.tcp ce).state = _
    generalize r.tcb.onSegment now seg.tcp ce = t at hcases ⊢
    generalize hc : t.core = c at hcases
    have hstate : t.state = c.state := congrArg Core.state hc
    rw [hstate]
    have hst' : r.tcb.core.state = .finWait2 := hst
    cases hcases with
    | dropped => exact .inl hst
    | reset => exact .inr (.inr rfl)
    | synAgain => exact .inl hst
    | badAck => exact .inr (.inr rfl)
    | taken =>
      change Tcb.closingState (r.tcb.core.ackedState) _ _ = _ ∨ Tcb.closingState (r.tcb.core.ackedState) _ _ = _ ∨ _
      rw [Core.ackedState, hst', if_neg (by simp)]
      simp only [Tcb.closingState]
      split
      · exact .inr (.inl rfl)
      · exact .inl rfl
  | send data =>
    left
    change (r.tcb.send data).1.state = _
    rw [Tcb.send, hst]
    exact hst
  | recv n => exact .inl hst
  | close => exact .inl hst
  | timer now =>
    change (r.tcb.onTimer now).core.state = _ ∨ _ ∨ (r.tcb.onTimer now).core.state = _
    rcases r.tcb.core_onTimer now with hc | hc
    · exact .inl (by rw [hc]; exact hst)
    · exact .inr (.inr (by rw [hc]; rfl))
  | poll now =>
    left
    change (r.tcb.pollTransmit now).1.state = _
    rcases hok.poll_state now with h | ⟨h, -⟩ | ⟨h, -⟩
    · exact h.trans hst
    · exact absurd (h.symm.trans hst) (by simp)
    · exact absurd (h.symm.trans hst) (by simp)

/-- A segment that comes in SYN-SENT stops the retransmission timer if it opens the
connection, and leaves the others alone. -/
theorem timers_synSent {t : Tcb κ} (hst : t.state = .synSent) (p : TcpPacket) :
    (t.onSegmentSynSent p).timeWaitDeadline = t.timeWaitDeadline ∧
      (t.onSegmentSynSent p).persistBackoff = t.persistBackoff ∧
      (t.onSegmentSynSent p).state ≠ .finWait2 ∧
      ((t.onSegmentSynSent p).state.synchronized = true → (t.onSegmentSynSent p).Idle) := by
  have hkeep : t.state ≠ .finWait2 ∧ (t.state.synchronized = true → False) := by
    rw [hst]
    simp [State.synchronized]
  have hgreeting := t.onSegmentSynSent_greeting p
  generalize t.onSegmentSynSent p = u at hgreeting
  cases hgreeting with
  | ignored => exact ⟨rfl, rfl, hkeep.1, fun h => (hkeep.2 h).elim⟩
  | refused => exact ⟨rfl, rfl, hkeep.1, fun h => (hkeep.2 h).elim⟩
  | reset => exact ⟨rfl, rfl, by simp, fun h => by cases h⟩
  | opened => exact ⟨rfl, rfl, by simp, fun _ _ => rfl⟩
  | crossed => exact ⟨rfl, rfl, by simp, fun h => by cases h⟩

/-- What has a closing timer keeps to the states that have one. -/
theorem waits_on (hok : r.Ok)
    (hst : r.tcb.state = .finWait2 ∨ r.tcb.state = .timeWait ∨ r.tcb.state = .closed) (i : Input) :
    (r.input i).1.tcb.state = .finWait2 ∨ (r.input i).1.tcb.state = .timeWait ∨
      (r.input i).1.tcb.state = .closed := by
  rcases hst with h | h | h
  · exact input_finWait2 hok h i
  · exact .inr (input_timeWait hok h i)
  · exact .inr (.inr (input_closed hok h i))

/-- A segment that leads past the handshake acknowledges the SYN, or finds it
acknowledged. -/
theorem segment_synchronized (hok : r.Ok) (hst : r.tcb.state ≠ .synSent) {seg : Segment} {now : Instant}
    {ce : Bool} (hsync : (r.tcb.onSegment now seg.tcp ce).state.synchronized = true)
    (hsend : (r.tcb.onSegment now seg.tcp ce).toSendSpace = r.tcb.toSendSpace) :
    r.tcb.state.synchronized = true := by
  have hok' := hok.input (.segment seg now ce)
  have hrec : r.tcb.state ≠ .synReceived := by
    intro hrec
    have h0 : r.una = 0 := by
      have hp := hok.phase
      rwa [hrec] at hp
    have h1 : 1 ≤ (r.follow (r.tcb.onSegment now seg.tcp ce)).una := hok'.phase.synchronized hsync
    rw [follow_una (by rw [hsend]), h0] at h1
    omega
  cases hs : r.tcb.state with
  | synSent => exact absurd hs hst
  | synReceived => exact absurd hs hrec
  | closed =>
    have hc : (r.tcb.onSegment now seg.tcp ce).state = .closed := input_closed hok hs (.segment seg now ce)
    rw [hc] at hsync
    exact hsync
  | timeWait =>
    have hc : (r.tcb.onSegment now seg.tcp ce).state = .timeWait ∨
        (r.tcb.onSegment now seg.tcp ce).state = .closed := input_timeWait hok hs (.segment seg now ce)
    rcases hc with hc | hc <;> rw [hc] at hsync <;> exact hsync
  | listen =>
    have hp := hok.phase
    rw [hs] at hp
    exact hp.elim
  | established | finWait1 | finWait2 | closeWait | closing | lastAck => rfl

theorem Timed.segment (h : r.Timed) (hok : r.Ok) (seg : Segment) (now : Instant) (ce : Bool) :
    (r.input (.segment seg now ce)).1.Timed := by
  have hrep := hok.reported h.reported (.segment seg now ce)
  have hon := fun hst => waits_on hok hst (.segment seg now ce)
  have hout : r.tcb.inflight ≤ 262145 := hok.sending.outstanding_le
  change (r.tcb.onSegment now seg.tcp ce).Reported at hrep
  change _ → (r.tcb.onSegment now seg.tcp ce).state = _ ∨ (r.tcb.onSegment now seg.tcp ce).state = _ ∨
    (r.tcb.onSegment now seg.tcp ce).state = _ at hon
  by_cases hst : r.tcb.state = .synSent
  · obtain ⟨hwait, hback, hne, hidle⟩ := timers_synSent hst seg.tcp
    have heq : r.tcb.onSegment now seg.tcp ce = r.tcb.onSegmentSynSent seg.tcp := by
      rw [Tcb.onSegment, if_pos hst]
    have hnone : ¬ r.tcb.timeWaitDeadline.isSome = true := by
      intro hs
      have := h.only hs
      rw [hst] at this
      simp at this
    have hdial := fun hst' => (h.dialing hst).onSegment now hst seg.tcp ce hst'
    rw [← heq] at hwait hback hne hidle
    refine ⟨hrep, hidle, ?_, fun hf => absurd hf hne, fun hs => ?_, hdial⟩
    · exact h.backoff.trans_eq hback.symm
    · exact absurd (by rw [← hwait]; exact hs) hnone
  · have hset := Tcb.settles_onSegment h.reported (by omega) hst now seg.tcp ce
    have hpass := (input_passes hok hst (.segment seg now ce)).state
    have hok' := hok.input (.segment seg now ce)
    refine ⟨hrep, fun hsync => ?_, ?_, fun hf => ?_, fun hs => ?_, fun hs => absurd hs hpass⟩
    · -- an opening ACK stops the timer, and any other finds it at rest or running
      change (r.tcb.onSegment now seg.tcp ce).state.synchronized = true at hsync
      rcases hset with hset | ⟨hrec, -⟩
      · refine hset.rtx.elim id fun hsame => ?_
        have hpast := segment_synchronized hok hst hsync hsame.2
        exact hset.idle (h.idle hpast)
      · rw [hrec] at hsync
        cases hsync
    · rcases hset with hset | ⟨-, hback⟩
      · exact hset.backoff h.backoff
      · exact h.backoff.trans_eq hback.symm
    · rcases r.tcb.wait_onSegment now hst seg.tcp ce hf with hw | ⟨hf', hw⟩
      · exact ⟨_, hw, Nat.min_le_right _ _⟩
      · obtain ⟨d, hd, hle⟩ := h.wait hf'
        exact ⟨d, hw.trans hd, hle⟩
    · by_contra hno
      simp only [not_or] at hno
      have hsame := r.tcb.alarms_onSegment now hst seg.tcp ce hno.2.1 hno.1 hno.2.2
      have hwait : (r.tcb.onSegment now seg.tcp ce).timeWaitDeadline = r.tcb.timeWaitDeadline :=
        congrArg Prod.snd hsame
      change (r.tcb.onSegment now seg.tcp ce).timeWaitDeadline.isSome = true at hs
      rw [hwait] at hs
      have := hon (h.only hs)
      exact this.elim hno.1 fun h => h.elim hno.2.1 hno.2.2

omit [CongestionControl κ] in
/-- The calls of the application leave the timers alone. -/
theorem Timed.call (h : r.Timed) {t : Tcb κ} (hrep : t.Reported) (htimers : t.toTimers = r.tcb.toTimers)
    (hstate : t.state = r.tcb.state) (hua : t.sndUna = r.tcb.sndUna) (hnxt : t.sndNxt = r.tcb.sndNxt)
    (hiss : t.iss = r.tcb.iss) {s : Host κ} (hs : s.tcb = t) : s.Timed := by
  subst hs
  refine ⟨hrep, fun hst => ?_, ?_, fun hst => ?_, fun hw => ?_, fun hst => ?_⟩
  · intro he
    rw [hstate] at hst
    rw [hua, hnxt] at he
    exact (congrArg Timers.rtxDeadline htimers).trans (h.idle hst he)
  · rw [htimers]
    exact h.backoff
  · rw [hstate] at hst
    rw [htimers]
    exact h.wait hst
  · rw [htimers] at hw
    rw [hstate]
    exact h.only hw
  · rw [hstate] at hst
    have hd := h.dialing hst
    refine ⟨?_, ?_, ?_, ?_, ?_⟩
    · rw [htimers]; exact hd.persist
    · rw [htimers]; exact hd.delayed
    · rw [htimers]; exact hd.pace
    · rw [htimers, hnxt, hiss]; exact hd.rtx
    · rw [htimers]; exact hd.retries

theorem Timed.timer (h : r.Timed) (hok : r.Ok) (now : Instant) : (r.input (.timer now)).1.Timed := by
  have hrep := hok.reported h.reported (.timer now)
  have hcore := r.tcb.core_onTimer now
  have hwait := r.tcb.wait_onTimer now
  have hnone : r.tcb.state = .synSent → r.tcb.timeWaitDeadline = none := by
    intro hst
    by_contra hs
    have := h.only (Option.ne_none_iff_isSome.mp hs)
    rw [hst] at this
    simp at this
  change (r.tcb.onTimer now).Reported at hrep
  have hstate : (r.tcb.onTimer now).state = r.tcb.state ∨ (r.tcb.onTimer now).state = .closed := by
    rcases hcore with hc | hc
    · exact .inl (congrArg Core.state hc)
    · exact .inr (congrArg Core.state hc)
  refine ⟨hrep, fun hst => ?_, Tcb.backoff_onTimer h.backoff, fun hst => ?_, fun hs => ?_, fun hst => ?_⟩
  · change (r.tcb.onTimer now).state.synchronized = true at hst
    rcases hstate with hs | hs
    · rw [hs] at hst
      exact Tcb.idle_onTimer (h.idle hst)
    · rw [hs] at hst
      cases hst
  · change (r.tcb.onTimer now).state = .finWait2 at hst
    rcases hstate with hs | hs
    · obtain ⟨d, hd, hle⟩ := h.wait (hs.symm.trans hst)
      exact ⟨d, hwait.trans hd, hle⟩
    · exact absurd (hs.symm.trans hst) (by simp)
  · change (r.tcb.onTimer now).timeWaitDeadline.isSome = true at hs
    change (r.tcb.onTimer now).state = _ ∨ (r.tcb.onTimer now).state = _ ∨ (r.tcb.onTimer now).state = _
    rw [hwait] at hs
    rcases hstate with hst | hst
    · rw [hst]
      exact h.only hs
    · exact .inr (.inr hst)
  · change (r.tcb.onTimer now).state = .synSent at hst
    rcases hstate with hs | hs
    · have hst₀ := hs.symm.trans hst
      exact (h.dialing hst₀).onTimer now hst₀ (hnone hst₀) hst
    · exact absurd (hs.symm.trans hst) (by simp)

theorem Timed.poll (h : r.Timed) (hok : r.Ok) (now : Instant) : (r.input (.poll now)).1.Timed := by
  have hrep := hok.reported h.reported (.poll now)
  have hwait := r.tcb.wait_pollTransmit now
  have hp := hok.polled now
  have hout : r.tcb.inflight ≤ 262145 := hok.sending.outstanding_le
  have hlen := r.tcb.tx.len_le
  have hcap : r.tcb.tx.capacity = 262144 := hok.sending.capacity
  have harms : Tcb.Arms r.tcb (r.tcb.pollTransmit now).1 :=
    Tcb.arms_pollTransmit (by omega) (by omega) now
  have hstate := hok.poll_state now
  change (r.tcb.pollTransmit now).1.Reported at hrep
  refine ⟨hrep, fun hst he => ?_, harms.backoff h.backoff, fun hst => ?_, fun hs => ?_, fun hst => ?_⟩
  · -- nothing is outstanding, so nothing was sent
    change (r.tcb.pollTransmit now).1.sndUna = (r.tcb.pollTransmit now).1.sndNxt at he
    have hidle := h.idle (hp.sync hst)
    have hend : (r.follow (r.tcb.pollTransmit now).1).nxt =
        (r.follow (r.tcb.pollTransmit now).1).una + (r.tcb.pollTransmit now).1.inflight := rfl
    have hend₀ : r.nxt = r.una + r.tcb.inflight := rfl
    have hzero : (r.tcb.pollTransmit now).1.inflight = 0 := by
      rw [Tcb.inflight, he]
      exact SeqNumber.offsetFrom_self _
    have hu : (r.follow (r.tcb.pollTransmit now).1).una = r.una := follow_una hp.una
    have hnxt := hp.nxt
    have hin : r.tcb.inflight = 0 := by omega
    have hat : r.tcb.sndNxt = r.tcb.sndUna := (SeqNumber.eq_iff_offsetFrom _ _).mpr hin
    have hsame : (r.tcb.pollTransmit now).1.sndNxt = r.tcb.sndNxt := by
      rw [← he, hp.una, hat]
    have hrtx := (harms.rtx.resolve_right fun hor => hor.elim (fun hpos => by omega) fun hne => hne hsame)
    exact hrtx.trans (hidle hat.symm)
  · change (r.tcb.pollTransmit now).1.state = .finWait2 at hst
    rcases hstate with hs | ⟨-, hs⟩ | ⟨-, hs⟩
    · obtain ⟨d, hd, hle⟩ := h.wait (hs.symm.trans hst)
      exact ⟨d, hwait.trans hd, hle⟩
    · exact absurd (hs.symm.trans hst) (by simp)
    · exact absurd (hs.symm.trans hst) (by simp)
  · change (r.tcb.pollTransmit now).1.timeWaitDeadline.isSome = true at hs
    rw [hwait] at hs
    have hin := h.only hs
    rcases hstate with hst | ⟨hst, -⟩ | ⟨hst, -⟩
    · change (r.tcb.pollTransmit now).1.state = _ ∨ (r.tcb.pollTransmit now).1.state = _ ∨
        (r.tcb.pollTransmit now).1.state = _
      rw [hst]
      exact hin
    · rw [hst] at hin
      simp at hin
    · rw [hst] at hin
      simp at hin
  · change (r.tcb.pollTransmit now).1.state = .synSent at hst
    rcases hstate with hs | ⟨-, hs⟩ | ⟨-, hs⟩
    · have hst₀ := hs.symm.trans hst
      exact (h.dialing hst₀).poll now hst₀
    · exact absurd (hs.symm.trans hst) (by simp)
    · exact absurd (hs.symm.trans hst) (by simp)

theorem Timed.input (h : r.Timed) (hok : r.Ok) (i : Input) : (r.input i).1.Timed := by
  have hrep := hok.reported h.reported i
  cases i with
  | segment seg now ce => exact h.segment hok seg now ce
  | send data =>
    have hkeep : (r.tcb.send data).1.toTimers = r.tcb.toTimers ∧ (r.tcb.send data).1.state = r.tcb.state ∧
        (r.tcb.send data).1.sndUna = r.tcb.sndUna ∧ (r.tcb.send data).1.sndNxt = r.tcb.sndNxt ∧
        (r.tcb.send data).1.iss = r.tcb.iss := by
      simp only [Tcb.send]
      split <;> exact ⟨rfl, rfl, rfl, rfl, rfl⟩
    exact h.call (t := (r.tcb.send data).1) hrep hkeep.1 hkeep.2.1 hkeep.2.2.1 hkeep.2.2.2.1 hkeep.2.2.2.2 rfl
  | recv n => exact h.call (t := (r.tcb.recv n).1) hrep rfl rfl rfl rfl rfl rfl
  | close => exact h.call (t := r.tcb.close) hrep rfl rfl rfl rfl rfl rfl
  | timer now => exact h.timer hok now
  | poll now => exact h.poll hok now

theorem Opens.timed (h : r.Opens) : r.Timed := by
  have hfresh : r.tcb.scoreboard.sacked = [] ∧ r.tcb.rtxDeadline = none ∧
      r.tcb.persistBackoff = persistMinMillis ∧ r.tcb.timeWaitDeadline = none ∧
      r.tcb.persistDeadline = none ∧ r.tcb.delayedAckDeadline = none ∧ r.tcb.paceDeadline = none ∧
      r.tcb.sndNxt = r.tcb.iss ∧ r.tcb.synRetries = 0 ∧
      (r.tcb.state = .synSent ∨ r.tcb.state = .synReceived) := by
    cases h with
    | active loc remote iss now mss kind =>
      simp only [fresh, Tcb.setCongestionControl]
      split <;> exact ⟨rfl, rfl, rfl, rfl, rfl, rfl, rfl, rfl, rfl, .inl rfl⟩
    | passive loc remote syn iss now mss kind =>
      simp only [fresh, Tcb.setCongestionControl]
      split <;> exact ⟨rfl, rfl, rfl, rfl, rfl, rfl, rfl, rfl, rfl, .inr rfl⟩
  obtain ⟨h1, h2, h3, h4, h5, h6, h7, h8, h9, h10⟩ := hfresh
  refine ⟨.of_nil h1, fun _ _ => h2, ?_, fun hst => ?_, fun hs => ?_, fun _ => ⟨h5, h6, h7, ?_, ?_⟩⟩
  · rw [h3]
    decide
  · rcases h10 with h | h <;> exact absurd (h.symm.trans hst) (by simp)
  · rw [h4] at hs
    cases hs
  · exact ⟨fun _ => h8, fun _ => h2⟩
  · rw [h9]
    decide

theorem timed_run {is : List Input} (h : r.Timed) (hok : r.Ok) (hr : Run.run step r is = some s) :
    s.Ok ∧ s.Timed := by
  refine Run.run_invariant (I := fun r => Ok r ∧ r.Timed) (fun u i v hu he => ?_) ⟨hok, h⟩ hr
  cases he
  exact ⟨hu.1.input i, hu.2.input hu.1 i⟩

end Host

end Ferrumnet
