import Ferrumnet.Guard
import Ferrumnet.Echo

/-
  The acknowledgements a connection owes.

  An ACK may be owed at once (`needs_ack`), by the delayed-ACK timer, or, half-open,
  as the SYN-ACK still to be sent. Beside a host we keep the number its last ACK
  carried and count the clean segments it has taken in since.

  1. `dues_acks`, `dues_gated`, … — the stages that owe nothing and pay nothing.
  2. `onText_owes` — what moves `RCV.NXT` is owed an ACK.
  3. `pollTransmit_owes` — only an emitted ACK pays.
  4. `owed_remembered` — no ACK is forgotten, as long as the ACK that completes a
     simultaneous open does not overtake our SYN-ACK.
  5. `owed_overtaken` — that one is.
-/

namespace Ferrumnet

namespace Tcb

set_option linter.unusedSectionVars false

variable {κ : Type} [CongestionControl κ] (t : Tcb κ) (now : Instant) (p : TcpPacket)

/-- What decides whether an ACK is owed, and its number. -/
def dues (t : Tcb κ) : Bool × Option Instant × Nat × SeqNumber :=
  (t.needsAck, t.delayedAckDeadline, t.unackedSegs, t.rcvNxt)

/-- Half-open, the SYN-ACK is still to be sent, or sent again. -/
def OwesSynAck (t : Tcb κ) : Prop := t.state = .synReceived ∧ (t.sndNxt = t.iss ∨ t.retransmit = true)

instance : Decidable t.OwesSynAck := inferInstanceAs (Decidable (_ ∧ _))

/-! ## Stages that leave the dues alone -/

@[simp] theorem dues_updateWindow (q a : SeqNumber) (w : Nat) : (t.updateWindow q a w).dues = t.dues := by
  simp only [updateWindow]
  split <;> rfl

@[simp] theorem dues_ackEcn (ace n : Nat) (b : Bool) : (t.ackEcn now ace n b).dues = t.dues := by
  simp only [ackEcn]
  split
  · split <;> rfl
  · rfl

@[simp] theorem dues_ackScoreboard : (t.ackScoreboard now).dues = t.dues := by
  simp only [ackScoreboard]
  split
  · split <;> rfl
  · rfl

@[simp] theorem dues_ackGbn : t.ackGbn.dues = t.dues := by
  simp only [ackGbn]
  split
  · split <;> rfl
  · rfl

@[simp] theorem dues_ackRtt (a : SeqNumber) (e : Option (BitVec 32)) : (t.ackRtt now a e).dues = t.dues := by
  simp only [ackRtt]
  split
  · split
    · split <;> rfl
    · rfl
  · split
    · rfl
    · split
      · split <;> rfl
      · rfl

@[simp] theorem dues_ackTimer : (t.ackTimer now).dues = t.dues := by
  simp only [ackTimer]
  split <;> split <;> rfl

@[simp] theorem dues_ackAdvance (a : SeqNumber) (e : Option (BitVec 32)) (ace : Nat) :
    (t.ackAdvance a e ace now).dues = t.dues := by
  simp only [ackAdvance, dues_ackTimer, dues_ackRtt, dues_ackGbn, dues_ackScoreboard, dues_ackEcn]
  rfl

@[simp] theorem dues_sackDetect (d : Bool) : (t.sackDetect now d).dues = t.dues := by
  simp only [sackDetect]
  split
  · split <;> split <;> rfl
  · rfl

@[simp] theorem dues_legacyDupAck : (t.legacyDupAck now).dues = t.dues := by
  simp only [legacyDupAck]
  split <;> rfl

@[simp] theorem dues_advanceTsRecent : (t.advanceTsRecent p).dues = t.dues := by
  obtain ⟨ts, hts⟩ := t.advanceTsRecent_spare p
  rw [hts]
  rfl

/-- An ACK of data. -/
@[simp] theorem dues_acks : (t.acks now p).dues = t.dues := by
  have hadv : (t.advanced now p).dues = t.dues := by
    rw [advanced, dues_updateWindow]
    split
    · exact t.dues_ackAdvance now ..
    · rfl
  rw [acks, ← hadv]
  generalize t.advanced now p = u
  unfold detected
  split
  · rw [sackIngest, dues_sackDetect]
    rfl
  · split
    · exact u.dues_legacyDupAck now
    · rfl

/-- The ACK of our SYN. -/
@[simp] theorem dues_opened : (t.opened p).dues = t.dues :=
  dues_updateWindow ({ t with sndUna := p.ack } : Tcb κ) p.seq p.ack p.window

theorem recv_opened : (t.opened p).toRecvSpace = t.toRecvSpace := by
  simp only [opened, updateWindow]
  split <;> rfl

@[simp] theorem dues_startRtx : (t.startRtx now).dues = t.dues := by
  unfold startRtx
  split <;> rfl

@[simp] theorem dues_onRtxTimer : (t.onRtxTimer now).dues = t.dues := by
  simp only [onRtxTimer]
  split
  · split
    · simp only [synTimeout]
      split <;> rfl
    · rfl
  · rfl

@[simp] theorem dues_onPersistTimer : (t.onPersistTimer now).dues = t.dues := by
  simp only [onPersistTimer]
  split <;> rfl

@[simp] theorem dues_onTimeWaitTimer : (t.onTimeWaitTimer now).dues = t.dues := by
  simp only [onTimeWaitTimer]
  split <;> rfl

@[simp] theorem dues_recomputeClosingState : (t.recomputeClosingState now).dues = t.dues := by
  simp only [recomputeClosingState]
  split
  · split <;> rfl
  · rfl

@[simp] theorem dues_gated : (t.gated now).dues = t.dues := by
  have hpace : (t.paced now).dues = t.dues := by
    simp only [paced, pace]
    split
    · rfl
    · split <;> rfl
  unfold gated
  split
  · unfold armPersist
    split
    · exact hpace
    · exact hpace
  · exact hpace

end Tcb

/-! ## What a segment adds -/

/-- A clean in-order segment: there is room for all of its data, and nothing is
buffered ahead of it. -/
def RecvSpace.clean (r : RecvSpace) (tcp : TcpPacket) : Bool :=
  let (dataSeq, data) := r.leftTrim tcp.seq tcp.payload
  let inOrder := !data.isEmpty && dataSeq = r.rcvNxt
  let noRoom := inOrder && (r.rx.write data).2 < data.len
  !tcp.payload.isEmpty && (inOrder && !noRoom && r.reasm.buffered = 0)

namespace Tcb

variable {κ : Type} {t u v : Tcb κ} {p : TcpPacket} {now : Instant}

/-- What the data and the FIN of a segment add to what is owed. -/
structure Adds (t : Tcb κ) (p : TcpPacket) (u : Tcb κ) : Prop where
  ack : t.needsAck = true → u.needsAck = true
  delayed : t.delayedAckDeadline.isSome = true → u.delayedAckDeadline.isSome = true
  owed : u.rcvNxt ≠ t.rcvNxt ∨ p.payload.isEmpty = false →
    u.needsAck = true ∨ u.delayedAckDeadline.isSome = true
  segs : u.needsAck = true ∨ u.unackedSegs = t.unackedSegs + (t.toRecvSpace.clean p).toNat ∧
    (t.toRecvSpace.clean p = true → u.unackedSegs ≤ 1)

/-- An ACK owed at once covers whatever the segment did. -/
theorem Adds.atOnce (h1 : u.needsAck = true)
    (h2 : t.delayedAckDeadline.isSome = true → u.delayedAckDeadline.isSome = true) : Adds t p u where
  ack _ := h1
  delayed := h2
  owed _ := .inl h1
  segs := .inl h1

/-- The later steps may only add an ACK owed at once. -/
theorem Adds.then (h : Adds t p u) (hv : v.dues = u.dues ∨
    v.needsAck = true ∧ v.delayedAckDeadline = u.delayedAckDeadline) : Adds t p v := by
  cases hv with
  | inl hsame =>
    simp only [dues, Prod.mk.injEq] at hsame
    obtain ⟨h1, h2, h3, h4⟩ := hsame
    refine ⟨?_, ?_, ?_, ?_⟩
    · rw [h1]; exact h.ack
    · rw [h2]; exact h.delayed
    · rw [h1, h2, h4]; exact h.owed
    · rw [h1, h3]; exact h.segs
  | inr hat =>
    refine .atOnce hat.1 ?_
    rw [hat.2]
    exact h.delayed

/-- The ACK schedule of a segment with data. -/
theorem adds_scheduleAck (hc : t.toRecvSpace.clean p = true → u.unackedSegs = t.unackedSegs)
    (h1 : u.needsAck = t.needsAck) (h2 : u.delayedAckDeadline = t.delayedAckDeadline) :
    Adds t p (u.scheduleAck now (t.toRecvSpace.clean p)) := by
  unfold scheduleAck
  split
  · rename_i hclean
    have hsegs := hc hclean
    dsimp only
    split
    · exact .atOnce rfl (by rw [← h2]; exact id)
    · rename_i hfew
      have harm : ∀ w : Tcb κ, (w.armDelayedAck now).delayedAckDeadline.isSome = true := by
        intro w
        unfold armDelayedAck
        split
        · rfl
        · rename_i hsome
          rwa [Bool.not_eq_true, Option.isNone_eq_false_iff] at hsome
      have hkeep : ∀ w : Tcb κ, (w.armDelayedAck now).needsAck = w.needsAck ∧
          (w.armDelayedAck now).unackedSegs = w.unackedSegs := by
        intro w
        unfold armDelayedAck
        split
        · exact ⟨rfl, rfl⟩
        · exact ⟨rfl, rfl⟩
      refine ⟨?_, fun _ => harm _, fun _ => .inr (harm _), .inr ?_⟩
      · rw [(hkeep _).1, ← h1]
        exact id
      · rw [(hkeep _).2, hclean]
        have hfew' : ¬ 2 ≤ min (u.unackedSegs + 1) 255 := hfew
        change min (u.unackedSegs + 1) 255 = _ + 1 ∧ (_ → min (u.unackedSegs + 1) 255 ≤ 1)
        rw [hsegs] at hfew' ⊢
        omega
  · exact .atOnce rfl (by rw [← h2]; exact id)

/-- The data. -/
theorem adds_onData (t : Tcb κ) (p : TcpPacket) (now : Instant) (ce : Bool) : Adds t p (t.onData now p ce) := by
  by_cases hempty : p.payload.isEmpty = true
  · have hsame : t.onData now p ce = t := by rw [onData, if_pos hempty]
    have hclean : t.toRecvSpace.clean p = false := by simp [RecvSpace.clean, hempty]
    rw [hsame]
    refine ⟨id, id, ?_, .inr ?_⟩
    · intro h
      cases h with
      | inl hne => exact absurd rfl hne
      | inr hfull => rw [hempty] at hfull; cases hfull
    · rw [hclean]
      exact ⟨rfl, fun h => by cases h⟩
  · have hfull : p.payload.isEmpty = false := Bool.eq_false_iff.mpr hempty
    have hsched : ∃ w : Tcb κ, t.onData now p ce = w.scheduleAck now (t.toRecvSpace.clean p) ∧
        w.unackedSegs = t.unackedSegs ∧ w.needsAck = t.needsAck ∧
        w.delayedAckDeadline = t.delayedAckDeadline := by
      rw [onData, if_neg hempty]
      simp only [RecvSpace.clean, hfull, Bool.not_false, Bool.true_and]
      split
      · exact ⟨_, rfl, rfl, rfl, rfl⟩
      · exact ⟨_, rfl, rfl, rfl, rfl⟩
    obtain ⟨w, hw, hsegs, hack, hdelay⟩ := hsched
    rw [hw]
    exact adds_scheduleAck (fun _ => hsegs) hack hdelay

variable [CongestionControl κ]

/-- Steps 6 to 8: what moves `RCV.NXT` is owed an ACK, and so is a FIN. -/
theorem onText_owes (t : Tcb κ) (p : TcpPacket) (now : Instant) (ce : Bool) : Adds t p (t.onText now p ce) ∧
    (p.flags.fin = true → (t.onText now p ce).needsAck = true) := by
  have hdata := adds_onData t p now ce
  have hfin : (t.onData now p ce).onFin p = t.onData now p ce ∧ p.flags.fin = false ∨
      ((t.onData now p ce).onFin p).needsAck = true ∧
        ((t.onData now p ce).onFin p).delayedAckDeadline = (t.onData now p ce).delayedAckDeadline := by
    unfold onFin
    split
    · exact .inr ⟨rfl, rfl⟩
    · rename_i hno
      exact .inl ⟨rfl, Bool.eq_false_iff.mpr hno⟩
  have hpend : ∀ w : Tcb κ, w.onPendingFin = w ∨
      w.onPendingFin.needsAck = true ∧ w.onPendingFin.delayedAckDeadline = w.delayedAckDeadline := by
    intro w
    unfold onPendingFin
    split
    · split
      · exact .inr ⟨rfl, rfl⟩
      · exact .inl rfl
    · exact .inl rfl
  have hlate : ∀ w : Tcb κ, w.dues = (w.recomputeClosingState now).dues := fun w =>
    (w.dues_recomputeClosingState now).symm
  have hadds : Adds t p ((t.onData now p ce).onFin p) := by
    refine hdata.then ?_
    cases hfin with
    | inl h => exact .inl (congrArg dues h.1)
    | inr h => exact .inr h
  constructor
  · refine (hadds.then (v := ((t.onData now p ce).onFin p).onPendingFin) ?_).then (.inl (hlate _).symm)
    exact (hpend _).imp (congrArg dues) id
  · intro hflag
    have hset : ((t.onData now p ce).onFin p).needsAck = true := by
      cases hfin with
      | inl h => rw [hflag] at h; cases h.2
      | inr h => exact h.1
    have hkeep : ((t.onData now p ce).onFin p).onPendingFin.needsAck = true := by
      cases hpend ((t.onData now p ce).onFin p) with
      | inl h => rwa [h]
      | inr h => exact h.1
    exact (congrArg Prod.fst (hlate _)).symm.trans hkeep

/-! ## Calls that pay nothing -/

/-- A call that takes nothing in and pays nothing. -/
structure Keeps (t u : Tcb κ) : Prop where
  nxt : u.rcvNxt = t.rcvNxt
  segs : u.unackedSegs = t.unackedSegs
  ack : t.needsAck = true → u.needsAck = true
  delayed : t.delayedAckDeadline.isSome = true → u.delayedAckDeadline.isSome = true ∨ u.needsAck = true
  synAck : t.OwesSynAck → u.OwesSynAck ∨ u.state = .closed
  state : u.state = t.state ∨ u.state = .closed

omit [CongestionControl κ] in
/-- With the same dues. -/
theorem Keeps.of_dues (hd : u.dues = t.dues) (hst : u.state = t.state ∨ u.state = .closed)
    (hs : t.state = .synReceived → t.OwesSynAck → u.OwesSynAck ∨ u.state = .closed) : Keeps t u := by
  simp only [dues, Prod.mk.injEq] at hd
  obtain ⟨h1, h2, h3, h4⟩ := hd
  refine ⟨h4, h3, ?_, ?_, fun h => hs h.1 h, hst⟩
  · rw [h1]; exact id
  · rw [h2]; exact .inl

/-- The timers; the delayed one turns its ACK into one owed at once. -/
theorem keeps_onTimer : Keeps t (t.onTimer now) := by
  have hearly : Keeps t (((t.onRtxTimer now).onPersistTimer now).onTimeWaitTimer now) := by
    have hrtx : (t.onRtxTimer now).state = t.state ∨ (t.onRtxTimer now).state = .closed := by
      simp only [onRtxTimer, synTimeout]
      split
      · split
        · split
          · exact .inr rfl
          · exact .inl rfl
        · exact .inl rfl
      · exact .inl rfl
    have hsyn : t.state = .synReceived → t.OwesSynAck → (t.onRtxTimer now).OwesSynAck := by
      intro hst h
      unfold onRtxTimer
      split
      · rw [if_neg (by rw [hst]; simp)]
        exact ⟨hst, .inr rfl⟩
      · exact h
    have hpersist : ∀ w : Tcb κ, (w.onPersistTimer now).state = w.state ∧
        (w.OwesSynAck → (w.onPersistTimer now).OwesSynAck) := by
      intro w
      unfold onPersistTimer
      split
      · exact ⟨rfl, id⟩
      · exact ⟨rfl, id⟩
    have hwait : ∀ w : Tcb κ, w.onTimeWaitTimer now = w ∨ (w.onTimeWaitTimer now).state = .closed := by
      intro w
      unfold onTimeWaitTimer
      split
      · exact .inr rfl
      · exact .inl rfl
    refine .of_dues ?_ ?_ ?_
    · rw [dues_onTimeWaitTimer, dues_onPersistTimer, dues_onRtxTimer]
    · cases hwait ((t.onRtxTimer now).onPersistTimer now) with
      | inl h => rwa [h, (hpersist _).1]
      | inr h => exact .inr h
    · intro hst h
      cases hwait ((t.onRtxTimer now).onPersistTimer now) with
      | inl hw => rw [hw]; exact .inl ((hpersist _).2 (hsyn hst h))
      | inr hw => exact .inr hw
  change Keeps t (onDelayedAckTimer _ now)
  generalize ((t.onRtxTimer now).onPersistTimer now).onTimeWaitTimer now = w at hearly ⊢
  unfold onDelayedAckTimer
  split
  · exact ⟨hearly.nxt, hearly.segs, fun _ => rfl, fun _ => .inr rfl, hearly.synAck, hearly.state⟩
  · exact hearly

/-- In SYN-SENT nothing is due; the SYN of the peer is owed an ACK, or our SYN-ACK. -/
theorem onSegmentSynSent_owes : (t.onSegmentSynSent p).unackedSegs = t.unackedSegs ∧
    (t.needsAck = true → (t.onSegmentSynSent p).needsAck = true) ∧
    ((t.onSegmentSynSent p).state = t.state ∨ (t.onSegmentSynSent p).state = .closed ∨
      (t.onSegmentSynSent p).needsAck = true ∨ (t.onSegmentSynSent p).OwesSynAck) := by
  have hgreeting := t.onSegmentSynSent_greeting p
  generalize t.onSegmentSynSent p = u at hgreeting
  cases hgreeting with
  | ignored => exact ⟨rfl, id, .inl rfl⟩
  | refused => exact ⟨rfl, id, .inl rfl⟩
  | reset => exact ⟨rfl, id, .inr (.inl rfl)⟩
  | opened => exact ⟨rfl, fun _ => rfl, .inr (.inr (.inl rfl))⟩
  | crossed => exact ⟨rfl, id, .inr (.inr (.inr ⟨rfl, .inr rfl⟩))⟩

/-- The ACK of our SYN opens the connection. -/
theorem onSegment_opens (t : Tcb κ) (p : TcpPacket) (now : Instant) (ce : Bool) (hst : t.state = .synReceived)
    (htakes : t.takesIn p = true) :
    t.onSegment now p ce = ((t.advanceTsRecent p).opened p).onText now p ce := by
  have hreceipt := t.onSegment_receipt now p ce (by rw [hst]; simp)
  have htakes' := htakes
  rw [Tcb.takesIn, Bool.and_eq_true] at htakes'
  obtain ⟨hadm, hvalid⟩ := htakes'
  obtain ⟨hrst, hsyn, -⟩ := Host.admits_flags hadm
  generalize t.onSegment now p ce = u at hreceipt
  cases hreceipt with
  | spared _ _ _ _ hno _ _ => exact absurd (hno.symm.trans htakes) (by simp)
  | reset hflag _ _ => exact absurd (hrst.symm.trans hflag) (by simp)
  | lingers htw => exact absurd (hst.symm.trans htw) (by simp)
  | synAgain hdup => exact absurd (hsyn.symm.trans (t.core.syn_of_dupSyn p hdup)) (by simp)
  | badAck _ _ hno => exact absurd (hno.symm.trans hvalid) (by simp)
  | opens _ _ _ => rfl
  | taken hne _ _ => exact absurd hst hne

omit [CongestionControl κ] in
/-- A segment without octets and without a FIN moves nothing but the closing state. -/
theorem onText_bare (t : Tcb κ) (p : TcpPacket) (now : Instant) (ce : Bool)
    (hempty : p.payload.isEmpty = true) (hfin : p.flags.fin = false)
    (hpending : t.peerFinSeen = false → t.pendingFin ≠ some t.rcvNxt) :
    t.onText now p ce = t.recomputeClosingState now := by
  have hdata : t.onData now p ce = t := by rw [Tcb.onData, if_pos hempty]
  have hnofin : t.onFin p = t := by
    rw [Tcb.onFin, if_neg]
    rw [hfin]
    simp
  have hnone : t.onPendingFin = t := by
    unfold Tcb.onPendingFin
    split
    · rename_i finAt hat
      split
      · rename_i hdue
        simp only [Bool.and_eq_true, decide_eq_true_eq, Bool.not_eq_true'] at hdue
        rw [hdue.1] at hat
        exact absurd hat (hpending hdue.2)
      · rfl
    · rfl
  rw [Tcb.onText, hdata, hnofin, hnone]

omit [CongestionControl κ] in
theorem closingState_established (finAcked peerFinSeen : Bool) :
    closingState .established finAcked peerFinSeen = .established ∨
      closingState .established finAcked peerFinSeen = .closeWait := by
  cases peerFinSeen with
  | true => exact .inr rfl
  | false => exact .inl rfl

/-- A segment past SYN-SENT is taken in, or adds nothing. -/
theorem onSegment_owes (t : Tcb κ) (p : TcpPacket) (now : Instant) (ce : Bool) (hns : t.state ≠ .synSent) :
    t.takesIn p = false ∧ Keeps t (t.onSegment now p ce) ∨
      t.takesIn p = true ∧ Adds t p (t.onSegment now p ce) ∧
        (p.flags.fin = true → (t.onSegment now p ce).needsAck = true) ∧
        (t.state = .closed → (t.onSegment now p ce).state = .closed) := by
  have hreceipt := t.onSegment_receipt now p ce hns
  have htext : ∀ v : Tcb κ, v.dues = t.dues → v.toRecvSpace = t.toRecvSpace →
      (t.state = .closed → v.state = .closed) →
      Adds t p (v.onText now p ce) ∧ (p.flags.fin = true → (v.onText now p ce).needsAck = true) ∧
        (t.state = .closed → (v.onText now p ce).state = .closed) := by
    intro v hdues hrecv hcl
    obtain ⟨hadds, hfin⟩ := onText_owes v p now ce
    simp only [dues, Prod.mk.injEq] at hdues
    obtain ⟨h1, h2, h3, h4⟩ := hdues
    refine ⟨⟨?_, ?_, ?_, ?_⟩, hfin, fun hst => ?_⟩
    · rw [← h1]; exact hadds.ack
    · rw [← h2]; exact hadds.delayed
    · rw [← h4]; exact hadds.owed
    · rw [← h3, ← hrecv]; exact hadds.segs
    · have hstate := congrArg Core.state (v.core_onText now p ce)
      have hv : v.core.state = .closed := hcl hst
      rw [hv] at hstate
      exact hstate
  have hrecv := congrArg Core.toRecvSpace (t.core_advanceTsRecent p)
  generalize t.onSegment now p ce = u at hreceipt
  cases hreceipt with
  | spared _ _ _ _ hno hkeep _ =>
    exact .inl ⟨hno, rfl, rfl, hkeep, .inl, .inl, .inl rfl⟩
  | reset hrst _ _ =>
    refine .inl ⟨by simp [takesIn, Core.admits, hrst], .of_dues rfl (.inr rfl) fun _ _ => .inr rfl⟩
  | lingers htw =>
    have hno : t.takesIn p = false := by simp [takesIn, Core.admits, htw]
    exact .inl ⟨hno, rfl, rfl, fun _ => rfl, .inl, .inl, .inl rfl⟩
  | synAgain hdup =>
    refine .inl ⟨by simp [takesIn, Core.admits, t.core.syn_of_dupSyn p hdup], .of_dues rfl (.inl rfl) fun hst _ => ?_⟩
    exact .inl ⟨hst, .inl rfl⟩
  | badAck _ _ hv =>
    refine .inl ⟨by rw [takesIn, hv, Bool.and_false], .of_dues ?_ (.inr rfl) fun _ _ => .inr rfl⟩
    exact (t.dues_advanceTsRecent p).trans rfl
  | opens hst hadm hv =>
    refine .inr ⟨by rw [takesIn, hadm, hv]; rfl, htext _ ?_ ?_ ?_⟩
    · rw [dues_opened, dues_advanceTsRecent]
    · exact ((t.advanceTsRecent p).recv_opened p).trans hrecv
    · intro hcl
      rw [hst] at hcl
      cases hcl
  | taken hst hadm hv =>
    have hst' : (t.advanceTsRecent p).state ≠ .synReceived :=
      (congrArg Core.state (t.core_advanceTsRecent p)).trans_ne hst
    have hcore := (t.advanceTsRecent p).core_acks now p hst'
    refine .inr ⟨by rw [takesIn, hadm, hv]; rfl, htext _ ?_ ?_ ?_⟩
    · rw [dues_acks, dues_advanceTsRecent]
    · exact (congrArg Core.toRecvSpace hcore).trans hrecv
    · intro hcl
      have hsame := (t.advanceTsRecent p).state_acks now p hst'
      exact hsame.trans ((congrArg Core.state (t.core_advanceTsRecent p)).trans hcl)

/-! ## `poll_transmit` -/

/-- A call that emits an ACK, of all that was received. -/
def Pays (q : Emit κ) : Prop :=
  ∃ d, q.2 = some d ∧ d.repr.flags.ack = true ∧ d.repr.ack = q.1.rcvNxt ∧ q.1.unackedSegs = 0

/-- What `build` makes is such an ACK. -/
theorem emit_pays (seq : SeqNumber) (extra : TcpFlags) (payload : Bytes) :
    Pays (t.emit seq extra payload) := by
  obtain ⟨-, hack, -, -, -, -, hflag⟩ := t.build_spec seq extra payload
  refine ⟨_, rfl, hflag, hack.trans ?_, rfl⟩
  change t.rcvNxt = (t.toRecvSpace.advertisedWindow t.rcvWscale).1.rcvNxt
  unfold RecvSpace.advertisedWindow
  rfl

omit [CongestionControl κ] in
/-- The books are closed behind it. -/
theorem Pays.after {q : Emit κ} {f : Tcb κ → Tcb κ} (h : Pays q) (hf : (f q.1).unackedSegs = q.1.unackedSegs)
    (hn : (f q.1).rcvNxt = q.1.rcvNxt) : Pays (q.after f) := by
  obtain ⟨d, hd, hflag, hack, hsegs⟩ := h
  exact ⟨d, hd, hflag, hack.trans hn.symm, hf.trans hsegs⟩

theorem Pays.timed {q : Emit κ} {f : Tcb κ → Tcb κ} (h : Pays q) (hf : (f q.1).unackedSegs = q.1.unackedSegs)
    (hn : (f q.1).rcvNxt = q.1.rcvNxt) : Pays (q.after fun w => (f w).startRtx now) := by
  have hd := (f q.1).dues_startRtx now
  simp only [dues, Prod.mk.injEq] at hd
  exact h.after (hd.2.2.1.trans hf) (hd.2.2.2.trans hn)

/-- A source that emits pays. -/
theorem Source.pays {q : Emit κ} (h : Source t now q) (he : q.2.isSome = true) : Pays q := by
  cases h with
  | resend n _ _ _ _ => exact (emit_pays ..).timed rfl rfl
  | resendFin f _ _ _ _ _ _ => exact (emit_pays ..).timed rfl rfl
  | repair q n b _ _ _ _ _ _ => exact (emit_pays ..).timed rfl rfl
  | data n _ _ =>
    have hnote : ∀ w : Tcb κ, (w.noteSent now n t.windowRoom).unackedSegs = w.unackedSegs ∧
        (w.noteSent now n t.windowRoom).rcvNxt = w.rcvNxt := by
      intro w
      simp only [noteSent]
      split
      · split
        · exact ⟨rfl, rfl⟩
        · exact ⟨rfl, rfl⟩
      · split
        · exact ⟨rfl, rfl⟩
        · exact ⟨rfl, rfl⟩
    exact (emit_pays ..).timed (hnote _).1 (hnote _).2
  | probe _ _ _ => exact emit_pays ..
  | fin _ _ _ _ =>
    exact ((emit_pays ..).timed (f := fun w => { w with finSeq := some w.dataEnd, sndNxt := w.dataEnd + 1 })
      rfl rfl).after (f := fun w => { w with state := finState w.state }) rfl rfl
  | quiet _ => cases he

/-- Only an emitted ACK pays; what else is emitted is no ACK. -/
theorem pollTransmit_owes (now : Instant) : Pays (t.pollTransmit now) ∨
    (∀ d, (t.pollTransmit now).2 = some d → d.repr.flags.ack = false) ∧
      Keeps t (t.pollTransmit now).1 := by
  have hturn := t.pollTransmit_turn now
  have hnone : ∀ d : Datagram, none = some d → d.repr.flags.ack = false := by
    intro d hd
    cases hd
  generalize t.pollTransmit now = q at hturn
  cases hturn with
  | rst seq _ =>
    refine .inr ⟨?_, .of_dues rfl (.inl rfl) fun _ h => .inl h⟩
    rintro d ⟨⟩
    rfl
  | mute _ _ => exact .inr ⟨hnone, .of_dues rfl (.inl rfl) fun _ h => .inl h⟩
  | syn _ hst _ =>
    refine .inr ⟨?_, .of_dues ?_ (.inl ?_) ?_⟩
    · rintro d ⟨⟩
      rfl
    · exact (dues_startRtx _ now).trans rfl
    · exact (congrArg Core.state (core_startRtx _ now)).trans rfl
    · intro h
      exact absurd (hst.symm.trans h) (by simp)
  | synAgain _ hst _ _ =>
    refine .inr ⟨?_, .of_dues rfl (.inl rfl) ?_⟩
    · rintro d ⟨⟩
      rfl
    · intro h
      exact absurd (hst.symm.trans h) (by simp)
  | synWaits _ _ _ _ => exact .inr ⟨hnone, .of_dues rfl (.inl rfl) fun _ h => .inl h⟩
  | synAck _ _ _ =>
    exact .inl ((emit_pays ..).timed (f := fun w => { w with sndNxt := t.iss + 1 }) rfl rfl)
  | synAckAgain _ _ _ _ => exact .inl (emit_pays ..)
  | sends _ _ hsource hsome => exact .inl (hsource.pays hsome)
  | ack _ _ _ => exact .inl (emit_pays ..)
  | idle _ hidle _ =>
    refine .inr ⟨hnone, ?_⟩
    cases hidle with
    | synReceived _ _ _ => exact .of_dues rfl (.inl rfl) fun _ h => .inl h
    | timeWait _ => exact .of_dues rfl (.inl rfl) fun _ h => .inl h
    | data hst _ =>
      have hcore := ((t.clocked now).lowered.core_gated now).trans rfl
      have hdues := ((t.clocked now).lowered.dues_gated now).trans rfl
      refine .of_dues hdues (.inl (congrArg Core.state hcore)) ?_
      intro h
      rw [h] at hst
      cases hst

end Tcb

/-! ## The books over a run -/

/-- A host, the number that its last ACK carried, and the clean segments taken in
since. -/
structure Acker (κ : Type) where
  host : Host κ
  lastAck : Option SeqNumber
  clean : Nat

namespace Acker

variable {κ : Type} [CongestionControl κ]

def start (h : Host κ) : Acker κ := ⟨h, none, 0⟩

/-- A clean segment, taken in. -/
def takesClean (r : Host κ) : Input → Bool
  | .segment seg _ _ => r.tcb.takesIn seg.tcp && r.tcb.toRecvSpace.clean seg.tcp
  | _ => false

/-- One call. An ACK that goes out is noted, whatever else it carries. -/
def next (g : Acker κ) (i : Input) : Acker κ :=
  match (g.host.input i).2.filter (·.repr.flags.ack) with
  | some d => ⟨(g.host.input i).1, some d.repr.ack, 0⟩
  | none => ⟨(g.host.input i).1, g.lastAck, g.clean + (takesClean g.host i).toNat⟩

def step (g : Acker κ) (i : Input) : Option (Acker κ) := some (g.next i)

/-- What was received is acknowledged, or an ACK of it is owed. -/
def Owes (g : Acker κ) : Prop :=
  g.lastAck = some g.host.tcb.rcvNxt ∨ g.host.tcb.needsAck = true ∨
    g.host.tcb.delayedAckDeadline.isSome = true ∨ g.host.tcb.OwesSynAck

/-- No owed ACK is forgotten. -/
def Remembered (g : Acker κ) : Prop :=
  g.host.tcb.state ≠ .closed → g.host.tcb.state ≠ .listen → g.host.tcb.state ≠ .synSent →
    g.Owes ∧ (2 ≤ g.clean → g.host.tcb.needsAck = true)

/-- The ACK of our SYN arrives before our SYN-ACK is out. It carries nothing that
would be owed an ACK, and none is owed for anything else. -/
def Overtakes (g : Acker κ) : Input → Prop
  | .segment seg _ _ => g.host.tcb.state = .synReceived ∧ g.host.tcb.takesIn seg.tcp = true ∧
      seg.tcp.payload.isEmpty = true ∧ seg.tcp.flags.fin = false ∧ g.host.tcb.needsAck = false ∧
      g.host.tcb.delayedAckDeadline = none ∧ g.lastAck ≠ some g.host.tcb.rcvNxt
  | _ => False

/-- The books are kept: what is owed is known, and the clean segments are counted. -/
structure Kept (g : Acker κ) : Prop where
  owes : g.host.tcb.state ≠ .closed → g.host.tcb.state ≠ .synSent → g.Owes
  segs : g.host.tcb.needsAck = true ∨ g.clean = g.host.tcb.unackedSegs ∧ g.host.tcb.unackedSegs ≤ 1

variable {g : Acker κ} {h : Host κ}

omit [CongestionControl κ] in
theorem Kept.remembered (hg : g.Kept) : g.Remembered := by
  intro hcl _ hsyn
  refine ⟨hg.owes hcl hsyn, fun hmany => ?_⟩
  cases hg.segs with
  | inl hack => exact hack
  | inr hfew => omega

omit [CongestionControl κ] in
/-- A call that pays nothing and takes nothing in. -/
theorem Kept.keep (hg : g.Kept) (hk : g.host.tcb.Keeps h.tcb) : Kept ⟨h, g.lastAck, g.clean⟩ where
  owes hcl hsyn := by
    have hcl' : h.tcb.state ≠ .closed := hcl
    have hsame := hk.state.resolve_right hcl'
    have howes := hg.owes (hsame ▸ hcl) (hsame ▸ hsyn)
    change _ = some h.tcb.rcvNxt ∨ h.tcb.needsAck = true ∨
      h.tcb.delayedAckDeadline.isSome = true ∨ h.tcb.OwesSynAck
    rw [hk.nxt]
    cases howes with
    | inl hack => exact .inl hack
    | inr howes =>
      refine .inr ?_
      cases howes with
      | inl hack => exact .inl (hk.ack hack)
      | inr howes =>
        cases howes with
        | inl hdelay => exact (hk.delayed hdelay).elim (fun h => .inr (.inl h)) .inl
        | inr hsynAck => exact .inr (.inr ((hk.synAck hsynAck).resolve_right hcl'))
  segs := by
    change h.tcb.needsAck = true ∨ g.clean = h.tcb.unackedSegs ∧ h.tcb.unackedSegs ≤ 1
    rw [hk.segs]
    exact hg.segs.imp hk.ack id

/-- A call that emits no ACK. -/
theorem next_silent {i : Input} (h : ∀ d, (g.host.input i).2 = some d → d.repr.flags.ack = false) :
    g.next i = ⟨(g.host.input i).1, g.lastAck, g.clean + (takesClean g.host i).toNat⟩ := by
  have hnone : (g.host.input i).2.filter (·.repr.flags.ack) = none := by
    rw [Option.filter_eq_none_iff]
    intro d hd
    rw [h d hd]
    simp
  rw [next, hnone]

/-- A segment. -/
theorem Kept.segment (hg : g.Kept) (seg : Segment) (now : Instant) (ce : Bool)
    (hno : ¬ g.Overtakes (.segment seg now ce)) : (g.next (.segment seg now ce)).Kept := by
  have hsilent : ∀ d, (g.host.input (.segment seg now ce)).2 = some d → d.repr.flags.ack = false := by
    intro d hd
    cases hd
  rw [next_silent hsilent]
  change Kept ⟨g.host.follow (g.host.tcb.onSegment now seg.tcp ce), g.lastAck,
    g.clean + (g.host.tcb.takesIn seg.tcp && g.host.tcb.toRecvSpace.clean seg.tcp).toNat⟩
  by_cases hst : g.host.tcb.state = .synSent
  · have hskip : g.host.tcb.takesIn seg.tcp = false := by simp [Tcb.takesIn, Core.admits, hst]
    obtain ⟨hsegs, hack, hstate⟩ := Tcb.onSegmentSynSent_owes (t := g.host.tcb) (p := seg.tcp)
    rw [hskip, Bool.false_and, Bool.toNat_false, Nat.add_zero, Tcb.onSegment, if_pos hst]
    generalize g.host.tcb.onSegmentSynSent seg.tcp = u at hsegs hack hstate ⊢
    refine ⟨fun hcl hsyn => ?_, ?_⟩
    · have hcl' : u.state ≠ .closed := hcl
      have hsyn' : u.state ≠ .synSent := hsyn
      cases hstate with
      | inl hsame => exact absurd (hsame.trans hst) hsyn'
      | inr hstate => exact .inr ((hstate.resolve_left hcl').imp id .inr)
    · change u.needsAck = true ∨ g.clean = u.unackedSegs ∧ u.unackedSegs ≤ 1
      rw [hsegs]
      exact hg.segs.imp hack id
  · cases g.host.tcb.onSegment_owes seg.tcp now ce hst with
    | inl hkeep =>
      rw [hkeep.1, Bool.false_and, Bool.toNat_false, Nat.add_zero]
      exact hg.keep hkeep.2
    | inr htaken =>
      obtain ⟨htakes, hadds, hfin, hclosed⟩ := htaken
      rw [htakes, Bool.true_and]
      generalize g.host.tcb.onSegment now seg.tcp ce = u at hadds hfin hclosed ⊢
      have hdue : u.needsAck = true ∨ u.delayedAckDeadline.isSome = true →
          Owes ⟨g.host.follow u, g.lastAck, g.clean + (g.host.tcb.toRecvSpace.clean seg.tcp).toNat⟩ :=
        fun h => .inr (h.imp id .inl)
      refine ⟨fun hcl hsyn => ?_, ?_⟩
      · by_cases hmoves : u.rcvNxt ≠ g.host.tcb.rcvNxt ∨ seg.tcp.payload.isEmpty = false
        · exact hdue (hadds.owed hmoves)
        rw [not_or, not_not, Bool.not_eq_false] at hmoves
        obtain ⟨hsame, hempty⟩ := hmoves
        by_cases hflag : seg.tcp.flags.fin = true
        · exact hdue (.inl (hfin hflag))
        have hcl' : g.host.tcb.state ≠ .closed := fun h => hcl (hclosed h)
        by_cases hlast : g.lastAck = some g.host.tcb.rcvNxt
        · exact .inl (hlast.trans (congrArg some hsame.symm))
        by_cases hack : g.host.tcb.needsAck = true
        · exact hdue (.inl (hadds.ack hack))
        by_cases hdelay : g.host.tcb.delayedAckDeadline.isSome = true
        · exact hdue (.inr (hadds.delayed hdelay))
        -- only the SYN-ACK was left, and this is what overtakes it
        have hsynAck : g.host.tcb.OwesSynAck :=
          (((hg.owes hcl' hst).resolve_left hlast).resolve_left hack).resolve_left hdelay
        refine absurd ⟨hsynAck.1, htakes, hempty, Bool.eq_false_iff.mpr hflag,
          Bool.eq_false_iff.mpr hack, ?_, hlast⟩ hno
        rwa [Bool.not_eq_true, Option.isSome_eq_false_iff, Option.isNone_iff_eq_none] at hdelay
      · change u.needsAck = true ∨ g.clean + _ = u.unackedSegs ∧ u.unackedSegs ≤ 1
        by_cases hack : u.needsAck = true
        · exact .inl hack
        have hsegs := hadds.segs.resolve_left hack
        have hbefore := hg.segs.resolve_left fun h => hack (hadds.ack h)
        refine .inr ⟨?_, ?_⟩
        · rw [hbefore.1, hsegs.1]
        · by_cases hclean : g.host.tcb.toRecvSpace.clean seg.tcp = true
          · exact hsegs.2 hclean
          · rw [hsegs.1, Bool.eq_false_iff.mpr hclean]
            exact hbefore.2

/-- A transmission. -/
theorem Kept.poll (hg : g.Kept) (now : Instant) : (g.next (.poll now)).Kept := by
  cases g.host.tcb.pollTransmit_owes now with
  | inl hpays =>
    obtain ⟨d, hd, hflag, hack, hsegs⟩ := hpays
    have hsome : (g.host.input (.poll now)).2.filter (·.repr.flags.ack) = some d := by
      rw [Option.filter_eq_some_iff]
      exact ⟨hd, hflag⟩
    rw [next, hsome]
    refine ⟨fun _ _ => .inl (congrArg some hack), .inr ?_⟩
    change 0 = (g.host.tcb.pollTransmit now).1.unackedSegs ∧ (g.host.tcb.pollTransmit now).1.unackedSegs ≤ 1
    rw [hsegs]
    exact ⟨rfl, Nat.zero_le 1⟩
  | inr hquiet =>
    rw [next_silent (i := .poll now) hquiet.1]
    exact hg.keep hquiet.2

/-- Every call keeps the books, but for an ACK that overtakes our SYN-ACK. -/
theorem Kept.next (hg : g.Kept) {i : Input} (hno : ¬ g.Overtakes i) : (g.next i).Kept := by
  cases i with
  | segment seg now ce => exact hg.segment seg now ce hno
  | poll now => exact hg.poll now
  | timer now =>
    rw [next_silent (by intro d hd; cases hd)]
    exact hg.keep Tcb.keeps_onTimer
  | send data =>
    rw [next_silent (by intro d hd; cases hd)]
    refine hg.keep ?_
    change Tcb.Keeps _ (g.host.tcb.send data).1
    unfold Tcb.send
    split
    · exact .of_dues rfl (.inl rfl) fun _ h => .inl h
    · exact .of_dues rfl (.inl rfl) fun _ h => .inl h
    · exact .of_dues rfl (.inl rfl) fun _ h => .inl h
  | recv n =>
    rw [next_silent (by intro d hd; cases hd)]
    exact hg.keep (.of_dues rfl (.inl rfl) fun _ h => .inl h)
  | close =>
    rw [next_silent (by intro d hd; cases hd)]
    exact hg.keep (.of_dues rfl (.inl rfl) fun _ h => .inl h)

/-- A host just opened owes nothing but the SYN-ACK of a passive open. -/
theorem start_kept (ho : h.Opens) : (start h).Kept := by
  cases ho with
  | active loc remote iss now mss kind =>
    refine ⟨fun _ hsyn => ?_, .inr ⟨?_, ?_⟩⟩
    · cases kind <;> exact absurd rfl hsyn
    · cases kind <;> rfl
    · cases kind <;> exact Nat.zero_le 1
  | passive loc remote syn iss now mss kind =>
    refine ⟨fun _ _ => .inr (.inr (.inr ⟨?_, .inl ?_⟩)), .inr ⟨?_, ?_⟩⟩
    · cases kind <;> rfl
    · cases kind <;> rfl
    · cases kind <;> rfl
    · cases kind <;> exact Nat.zero_le 1

/-- The ACK that overtakes our SYN-ACK leaves nothing owed, and RCV.NXT unacknowledged. -/
theorem Overtakes.forgets {i : Input} (hs : g.host.Sound) (h : g.Overtakes i) :
    ¬ (g.next i).Remembered := by
  cases i with
  | segment seg now ce =>
    obtain ⟨hst, htakes, hempty, hfin, hack, hdelay, hlast⟩ := h
    have hring : g.host.Ring := by
      refine hs.ring.resolve_left fun hu => ?_
      cases hu.state with
      | inl hsyn => exact absurd (hst.symm.trans hsyn) (by simp)
      | inr hcl => exact absurd (hst.symm.trans hcl) (by simp)
    have hcore := g.host.tcb.core_advanceTsRecent seg.tcp
    have hdues := (g.host.tcb.advanceTsRecent seg.tcp).dues_opened seg.tcp
    rw [Tcb.dues_advanceTsRecent] at hdues
    have hrecv := ((g.host.tcb.advanceTsRecent seg.tcp).recv_opened seg.tcp).trans (congrArg Core.toRecvSpace hcore)
    have hopens := g.host.tcb.onSegment_opens seg.tcp now ce hst htakes
    have hopen : ((g.host.tcb.advanceTsRecent seg.tcp).opened seg.tcp).state = .established := rfl
    generalize (g.host.tcb.advanceTsRecent seg.tcp).opened seg.tcp = v at hdues hrecv hopens hopen
    have hpending : v.peerFinSeen = false → v.pendingFin ≠ some v.rcvNxt := by
      have hv : v.toRecvSpace = g.host.tcb.toRecvSpace := hrecv
      rw [hv]
      exact hring.pending
    -- nothing in the segment is owed an ACK
    rw [next_silent (by intro d hd; cases hd)]
    change ¬ Remembered ⟨g.host.follow (g.host.tcb.onSegment now seg.tcp ce), g.lastAck, _⟩
    rw [hopens, v.onText_bare seg.tcp now ce hempty hfin hpending]
    have hdues' := (v.dues_recomputeClosingState now).trans hdues
    have hstate := congrArg Core.state (v.core_recomputeClosingState now)
    generalize v.recomputeClosingState now = u at hdues' hstate ⊢
    have hlate : u.state = .established ∨ u.state = .closeWait := by
      have hu : u.state = Tcb.closingState v.state v.finAcked v.peerFinSeen := hstate
      rw [hu, hopen]
      exact Tcb.closingState_established _ _
    simp only [Tcb.dues, Prod.mk.injEq] at hdues'
    obtain ⟨h1, h2, -, h4⟩ := hdues'
    intro hrem
    obtain ⟨howes, -⟩ := hrem (fun h => by cases hlate with | _ hl => cases hl.symm.trans h)
      (fun h => by cases hlate with | _ hl => cases hl.symm.trans h)
      (fun h => by cases hlate with | _ hl => cases hl.symm.trans h)
    have howes' : g.lastAck = some u.rcvNxt ∨ u.needsAck = true ∨ u.delayedAckDeadline.isSome = true ∨
        u.OwesSynAck := howes
    rw [h1, h2, h4, hack, hdelay] at howes'
    cases howes' with
    | inl h => exact hlast h
    | inr howes' =>
      have hsynAck := (howes'.resolve_left (by simp)).resolve_left (by simp)
      cases hlate with
      | inl hl => cases hl.symm.trans hsynAck.1
      | inr hl => cases hl.symm.trans hsynAck.1
  | _ => exact h.elim

instance : ∀ i, Decidable (g.Overtakes i)
  | .segment _ _ _ => inferInstanceAs (Decidable (_ ∧ _))
  | .send _ => .isFalse id
  | .recv _ => .isFalse id
  | .close => .isFalse id
  | .timer _ => .isFalse id
  | .poll _ => .isFalse id

/-- The condition along a run. -/
def NotOvertaken (g : Acker κ) (i : Input) : Prop := ¬ g.Overtakes i

instance {i : Input} : Decidable (g.NotOvertaken i) := inferInstanceAs (Decidable (¬ _))

/-- What the condition is to give: the state behind each call of the run owes what it
has not acknowledged. -/
def Remembers (g : Acker κ) (i : Input) : Prop := (g.next i).Remembered

theorem next_host (i : Input) : (g.next i).host = (g.host.input i).1 := by
  unfold next
  split
  · rfl
  · rfl

/-- In a run no ACK is forgotten exactly if no ACK of our SYN overtakes our SYN-ACK. -/
theorem owed_remembered (ho : h.Opens) (is : List Input) :
    (start h).Remembered ∧ (Run.Along step Remembers (start h) is ↔
      Run.Along step NotOvertaken (start h) is) := by
  refine ⟨(start_kept ho).remembered, ?_⟩
  refine Run.along_iff_along (I := fun g : Acker κ => g.Kept ∧ g.host.Sound) ?_ ?_
    ⟨start_kept ho, ho.sound⟩ is
  · intro g i g' hg hno he
    cases he
    refine ⟨hg.1.next hno, ?_⟩
    rw [next_host]
    exact hg.2.input i
  · intro g i hg
    constructor
    · intro hrem hover
      exact hover.forgets hg.2 hrem
    · intro hno
      exact (hg.1.next hno).remembered

/-- The host that has called the peer. -/
def calling : Host Reno :=
  Host.fresh ((Tcb.newSynSent ⟨2, 80⟩ ⟨1, 1000⟩ (SeqNumber.new 100) ⟨0⟩ 65495).setCongestionControl .reno)

/-- The SYNs cross, and an ACK of ours comes before our SYN-ACK is out. -/
def overtaken : List Input :=
  [.poll ⟨0⟩, .segment ⟨Host.peerSyn, by decide⟩ ⟨0⟩ false,
    Host.bareAck 101 [] ⟨0⟩]

/-- The connection is established, and the SYN of the peer is never acknowledged. -/
theorem owed_overtaken : ∃ g : Acker Reno, Run.run step (start calling) overtaken = some g ∧
    g.host.tcb.state = .established ∧ g.lastAck = none ∧ g.host.tcb.needsAck = false ∧
    g.host.tcb.delayedAckDeadline = none ∧ (g.host.input (.poll ⟨0⟩)).2 = none ∧ ¬ g.Remembered := by
  obtain ⟨g, hr, h1, h2, h3, h4, h5⟩ := Run.exists_run step (start calling) overtaken
    (fun g => g.host.tcb.state = .established ∧ g.lastAck = none ∧ g.host.tcb.needsAck = false ∧
      g.host.tcb.delayedAckDeadline = none ∧ (g.host.input (.poll ⟨0⟩)).2 = none) (by decide +kernel)
  refine ⟨g, hr, h1, h2, h3, h4, h5, fun hrem => ?_⟩
  obtain ⟨howes, -⟩ := hrem (by rw [h1]; simp) (by rw [h1]; simp) (by rw [h1]; simp)
  rw [Owes, h2, h3, h4, Tcb.OwesSynAck, h1] at howes
  simp at howes

/-- A clean segment is taken in, and its ACK delayed. -/
theorem owed_remembered_delayed : Run.Along step Remembers (start Host.accepted)
    (Host.settled ++ [.segment ⟨Host.peerSegment 5001 {} (Bytes.replicate 5 7), by decide⟩ ⟨0⟩ false]) :=
  (owed_remembered Host.accepted_opens _).2.mpr (by decide +kernel)

end Acker

end Ferrumnet
