import Ferrumnet.Debts

/-
  The two AccECN counters of a Tcb.

  `accecn_cep` counts the CE-marked segments that were accepted, `accecn_ace_seen`
  is the counter of the peer as it was last read. Two stages of `on_segment` set
  them and nothing else does.

  1. `echo_onSegment` — what a segment does to the two counters.
  2. `echo_onTimer`, `echo_pollTransmit` — timers and transmissions do nothing.
  3. `ace_build` — what a segment says of the first.
-/

namespace Ferrumnet

/-- The payload of a segment moves `RCV.NXT` or adds to the reassembly buffer. -/
def RecvSpace.contributes (r : RecvSpace) (sackEnabled : Bool) (tcp : TcpPacket) : Bool :=
  let r' := r.acceptData sackEnabled tcp
  r'.rcvNxt ≠ r.rcvNxt || r'.reasm.buffered > r.reasm.buffered

/-- The controllers that react to marks. -/
def CcKind.ecn : CcKind → Bool
  | .dctcp | .learned | .prague | .synth => true
  | _ => false

namespace Tcb

set_option linter.unusedSectionVars false

variable {κ : Type} [CongestionControl κ] (t : Tcb κ) (now : Instant)

/-- The segment is taken in. -/
def takesIn (p : TcpPacket) : Bool := t.core.admits p && t.core.validAck p

/-- A CE-marked segment is accepted: it is taken in and contributes data. -/
def counts (p : TcpPacket) (ce : Bool) : Bool :=
  ce && t.takesIn p && t.toRecvSpace.contributes t.sackEnabled p

/-- `process_ack` reads the counter of the peer: the ACK moves `SND.UNA`. -/
def reads (p : TcpPacket) : Bool :=
  t.state ≠ .synReceived && t.takesIn p && p.ack.gt t.sndUna

/-- The marks that `process_ack` decodes from a segment. -/
def aceDelta (p : TcpPacket) : Nat := (p.ace + 256 - t.accecnAceSeen) % 8

/-- The counters, and whether they are in use. -/
def echo (t : Tcb κ) : CcKind × AccEcn := (t.ccKind, t.toAccEcn)

/-! ## Stages that leave them alone -/

@[simp] theorem echo_startRtx : (t.startRtx now).echo = t.echo := by
  unfold startRtx
  split <;> rfl

@[simp] theorem echo_armPersist : (t.armPersist now).echo = t.echo := by
  unfold armPersist
  split <;> rfl

@[simp] theorem echo_armDelayedAck : (t.armDelayedAck now).echo = t.echo := by
  unfold armDelayedAck
  split <;> rfl

@[simp] theorem echo_updateWindow (q a : SeqNumber) (w : Nat) :
    (t.updateWindow q a w).echo = t.echo := by
  simp only [updateWindow]
  split <;> rfl

@[simp] theorem echo_sackIngest (d : Bool) (bs : List SackBlock) :
    (t.sackIngest now d bs).echo = t.echo := by
  simp only [sackIngest, sackDetect]
  split
  · split <;> split <;> rfl
  · rfl

@[simp] theorem echo_legacyDupAck : (t.legacyDupAck now).echo = t.echo := by
  simp only [legacyDupAck]
  split <;> rfl

@[simp] theorem echo_advanceTsRecent (p : TcpPacket) : (t.advanceTsRecent p).echo = t.echo := by
  simp only [advanceTsRecent]
  split
  · split <;> rfl
  · rfl

@[simp] theorem echo_scheduleAck (b : Bool) : (t.scheduleAck now b).echo = t.echo := by
  simp only [scheduleAck]
  split
  · split
    · rfl
    · exact echo_armDelayedAck ..
  · rfl

@[simp] theorem echo_ackScoreboard : (t.ackScoreboard now).echo = t.echo := by
  simp only [ackScoreboard]
  split
  · split <;> rfl
  · rfl

@[simp] theorem echo_ackGbn : t.ackGbn.echo = t.echo := by
  simp only [ackGbn]
  split
  · split <;> rfl
  · rfl

@[simp] theorem echo_ackRtt (a : SeqNumber) (e : Option (BitVec 32)) :
    (t.ackRtt now a e).echo = t.echo := by
  simp only [ackRtt]
  split
  · split
    · split <;> rfl
    · rfl
  · split
    · rfl
    · split
      · split <;> rfl
      · rfl

@[simp] theorem echo_ackTimer : (t.ackTimer now).echo = t.echo := by
  simp only [ackTimer]
  split <;> split <;> rfl

@[simp] theorem echo_onFin (p : TcpPacket) : (t.onFin p).echo = t.echo := by
  unfold onFin
  split <;> rfl

@[simp] theorem echo_onPendingFin : t.onPendingFin.echo = t.echo := by
  unfold onPendingFin
  split
  · split <;> rfl
  · rfl

@[simp] theorem echo_recomputeClosingState : (t.recomputeClosingState now).echo = t.echo := by
  simp only [recomputeClosingState]
  split
  · split <;> rfl
  · rfl

@[simp] theorem echo_onSegmentSynSent (p : TcpPacket) : (t.onSegmentSynSent p).echo = t.echo := by
  have hgreeting := t.onSegmentSynSent_greeting p
  generalize t.onSegmentSynSent p = u at hgreeting
  cases hgreeting <;> rfl

/-! ## The two stages that set them -/

/-- The counters after `process_ack` has read the peer's. -/
def echoRead (e : CcKind × AccEcn) (ace : Nat) : CcKind × AccEcn :=
  if e.1.ecn then (e.1, { e.2 with accecnAceSeen := ace % 8 }) else e

/-- The counters after one more accepted mark. -/
def echoCount (e : CcKind × AccEcn) : CcKind × AccEcn :=
  if e.1.ecn then (e.1, { e.2 with accecnCep := (e.2.accecnCep + 1) % 256 }) else e

theorem echo_ackEcn (ace n : Nat) (b : Bool) :
    (t.ackEcn now ace n b).echo = echoRead t.echo ace := by
  have hen : t.ecnEnabled = t.echo.1.ecn := rfl
  simp only [ackEcn, echoRead, hen]
  split
  · split <;> rfl
  · rfl

theorem echo_ackAdvance (a : SeqNumber) (e : Option (BitVec 32)) (ace : Nat) :
    (t.ackAdvance a e ace now).echo = echoRead t.echo ace := by
  simp only [ackAdvance, echo_ackTimer, echo_ackRtt, echo_ackGbn, echo_ackScoreboard, echo_ackEcn]
  rfl

/-- The ACK of our SYN carries no counter that is read. -/
theorem echo_opened (p : TcpPacket) : (t.opened p).echo = t.echo :=
  ({ t with sndUna := p.ack } : Tcb κ).echo_updateWindow p.seq p.ack p.window

theorem echo_acks (p : TcpPacket) :
    (t.acks now p).echo = if p.ack.gt t.sndUna then echoRead t.echo p.ace else t.echo := by
  have hadv : (t.advanced now p).echo = if p.ack.gt t.sndUna then echoRead t.echo p.ace else t.echo := by
    rw [advanced, echo_updateWindow]
    split
    · exact echo_ackAdvance ..
    · rfl
  rw [acks, detected, ← hadv]
  split
  · exact echo_sackIngest ..
  · split
    · exact echo_legacyDupAck ..
    · rfl

theorem echo_onData (p : TcpPacket) (ce : Bool) :
    (t.onData now p ce).echo =
      if ce && t.toRecvSpace.contributes t.sackEnabled p then echoCount t.echo else t.echo := by
  have hen : ∀ r : RecvSpace, ({ t with toRecvSpace := r } : Tcb κ).ecnEnabled = t.echo.1.ecn :=
    fun _ => rfl
  simp only [onData, RecvSpace.contributes, RecvSpace.acceptData]
  split
  · simp
  · simp only [echo_scheduleAck, hen, echoCount]
    -- the source asks for the controller first, then for the mark
    cases t.echo.1.ecn with
    | false =>
      simp only [Bool.false_and, Bool.false_eq_true, if_false, ite_self]
      rfl
    | true =>
      simp only [Bool.true_and, if_true]
      split <;> rfl

theorem echo_onText (p : TcpPacket) (ce : Bool) :
    (t.onText now p ce).echo =
      if ce && t.toRecvSpace.contributes t.sackEnabled p then echoCount t.echo else t.echo := by
  simp only [onText, echo_recomputeClosingState, echo_onPendingFin, echo_onFin, echo_onData]

/-- What the segment does to the counters: the peer's is read first, then the
mark is counted. -/
def echoAfter (p : TcpPacket) (ce : Bool) : CcKind × AccEcn :=
  let e := if t.reads p then echoRead t.echo p.ace else t.echo
  if t.counts p ce then echoCount e else e

theorem echoAfter_dropped {p : TcpPacket} {ce : Bool} (h : t.takesIn p = false) :
    t.echoAfter p ce = t.echo := by
  simp [echoAfter, reads, counts, h]

/-- What a segment does to the counters. -/
theorem echo_onSegment (p : TcpPacket) (ce : Bool) :
    (t.onSegment now p ce).echo = t.echoAfter p ce := by
  have hdrop : t.core.admits p = false → t.echoAfter p ce = t.echo := by
    intro h
    exact t.echoAfter_dropped (by simp [takesIn, h])
  by_cases hs : t.state = .synSent
  · rw [onSegment, if_pos hs, hdrop (by simp [Core.admits, hs]), echo_onSegmentSynSent]
  -- TS.Recent moves before the ACK is looked at
  have hcore := t.core_advanceTsRecent p
  have hstate : (t.advanceTsRecent p).state = t.state := congrArg Core.state hcore
  have hreceipt := t.onSegment_receipt now p ce hs
  generalize t.onSegment now p ce = u at hreceipt
  cases hreceipt with
  | spared _ _ _ _ hno => rw [t.echoAfter_dropped hno]; rfl
  | reset hrst => rw [hdrop (by simp [Core.admits, hrst])]; rfl
  | lingers hw => rw [hdrop (by simp [Core.admits, hw])]; rfl
  | synAgain hdup =>
    rw [hdrop (by simp [Core.admits, t.core.syn_of_dupSyn p hdup])]
    rfl
  | badAck _ _ hv =>
    rw [t.echoAfter_dropped (by simp [takesIn, hv])]
    exact t.echo_advanceTsRecent p
  | opens hrec hadm hv =>
    have hopened := (t.advanceTsRecent p).core_opened p (hstate.trans hrec)
    rw [hcore] at hopened
    have hr : ((t.advanceTsRecent p).opened p).toRecvSpace = t.toRecvSpace := congrArg Core.toRecvSpace hopened
    have hk : ((t.advanceTsRecent p).opened p).sackEnabled = t.sackEnabled :=
      congrArg (fun c => c.sackEnabled) hopened
    rw [echo_onText, echo_opened, echo_advanceTsRecent, hr, hk]
    simp [echoAfter, reads, counts, takesIn, hrec, hadm, hv]
  | taken hrec hadm hv =>
    have hacks := (t.advanceTsRecent p).core_acks now p (hstate.trans_ne hrec)
    rw [hcore] at hacks
    have hr : ((t.advanceTsRecent p).acks now p).toRecvSpace = t.toRecvSpace := congrArg Core.toRecvSpace hacks
    have hk : ((t.advanceTsRecent p).acks now p).sackEnabled = t.sackEnabled :=
      congrArg (fun c => c.sackEnabled) hacks
    have huna : (t.advanceTsRecent p).sndUna = t.sndUna := congrArg (fun c => c.sndUna) hcore
    rw [echo_onText, echo_acks, echo_advanceTsRecent, hr, hk, huna]
    simp [echoAfter, reads, counts, takesIn, hrec, hadm, hv]

/-! ## Timers and transmissions -/

theorem echo_onTimer : (t.onTimer now).echo = t.echo := by
  have hrtx : (t.onRtxTimer now).echo = t.echo := by
    simp only [onRtxTimer]
    split
    · split
      · simp only [synTimeout]
        split <;> rfl
      · rfl
    · rfl
  have hpersist : ((t.onRtxTimer now).onPersistTimer now).echo = t.echo := by
    rw [← hrtx]
    simp only [onPersistTimer]
    split <;> rfl
  have hwait : (((t.onRtxTimer now).onPersistTimer now).onTimeWaitTimer now).echo = t.echo := by
    rw [← hpersist]
    simp only [onTimeWaitTimer]
    split <;> rfl
  rw [← hwait, onTimer]
  simp only [onDelayedAckTimer]
  split <;> rfl

theorem echo_emitOwedAck : t.emitOwedAck.1.echo = t.echo := by
  unfold emitOwedAck
  split <;> rfl

theorem echo_retransmitOldest : (t.retransmitOldest now).1.echo = t.echo := by
  simp only [retransmitOldest, resendOldest]
  split
  · split
    · simp only [Emit.after, echo_startRtx]
      rfl
    · split
      · split
        · simp only [Emit.after, echo_startRtx]
          rfl
        · rfl
      · rfl
  · rfl

theorem echo_sackRetransmit : (t.sackRetransmit now).1.echo = t.echo := by
  simp only [sackRetransmit]
  split
  · split
    · split
      · split
        · simp only [Emit.after, echo_startRtx]
          rfl
        · rfl
      · rfl
    · rfl
  · rfl

theorem echo_pace (n : Nat) : (t.pace now n).1.echo = t.echo := by
  simp only [pace]
  split
  · rfl
  · split <;> rfl

theorem echo_sendNewData : (t.sendNewData now).1.echo = t.echo := by
  have hpace := t.echo_pace now (min t.cwndRoom t.rwndRoom)
  simp only [sendNewData]
  generalize t.pace now (min t.cwndRoom t.rwndRoom) = p at hpace ⊢
  split
  · simp only [sendAllowed]
    split
    · simp only [Emit.after, echo_startRtx, ← hpace]
      simp only [noteSent]
      split <;> split <;> rfl
    · exact hpace
  · split
    · rw [← hpace, ← echo_armPersist p.1 now]
      unfold probe
      split <;> rfl
    · exact hpace

theorem echo_sendFin : (t.sendFin now).1.echo = t.echo := by
  simp only [sendFin]
  split
  · simp only [Emit.after, noteFin]
    exact echo_startRtx ..
  · rfl

theorem echo_transmitDataOrFin : (t.transmitDataOrFin now).1.echo = t.echo := by
  apply Emit.orElse_frame echo
  · apply Emit.orElse_frame echo
    · exact Emit.orElse_frame echo (t.echo_retransmitOldest now) (fun u => u.echo_sackRetransmit now)
    · exact fun u => u.echo_sendNewData now
  · exact fun u => u.echo_sendFin now

theorem echo_pollSynReceived : (t.pollSynReceived now).1.echo = t.echo := by
  simp only [pollSynReceived]
  split
  · simp only [Emit.after, echo_startRtx]
    rfl
  · split
    · rfl
    · exact t.echo_emitOwedAck

theorem echo_pollSynSent : (t.pollSynSent now).1.echo = t.echo := by
  simp only [pollSynSent]
  split
  · exact echo_startRtx ..
  · split <;> rfl

theorem echo_pollTransmit : (t.pollTransmit now).1.echo = t.echo := by
  have hsame : ({ t with curTsval := BitVec.ofNat 32 now.micros } : Tcb κ).echo = t.echo := rfl
  simp only [pollTransmit]
  rw [← hsame]
  split
  · rfl
  · split
    · rfl
    · rfl
    · exact echo_pollSynSent ..
    · exact echo_pollSynReceived ..
    · exact echo_emitOwedAck ..
    · apply Emit.orElse_frame echo
      · exact echo_transmitDataOrFin ..
      · exact fun u => u.echo_emitOwedAck

theorem echo_setCongestionControl (kind : CcKind) :
    (t.setCongestionControl kind).echo = (kind, t.toAccEcn) := by
  unfold setCongestionControl
  split
  · rfl
  · rename_i hsame
    rw [not_not.mp hsame]
    rfl

theorem echo_send (data : Bytes) : (t.send data).1.echo = t.echo := by
  unfold send
  split <;> rfl

/-! ## What a segment says -/

/-- A segment built with the counters `e`: neither of its two flags is in use for
anything else. -/
def Stamps (e : CcKind × AccEcn) (p : Emit κ) : Prop :=
  ∀ d, p.2 = some d → d.repr.flags.rst = false → d.repr.flags.syn = false → e.1.ecn = true →
    d.parse.ace = e.2.accecnCep % 8

variable {t now}

theorem ace_build {seq : SeqNumber} {extra : TcpFlags} {payload : Bytes} (hc : extra.cwr = false)
    (he : extra.ece = false) (hs : extra.syn = false) (hen : t.ecnEnabled = true) :
    (t.build seq extra payload).2.parse.ace = t.accecnCep % 8 := by
  have hflags : t.aceFlags { extra with ack := true } =
      ({ extra with ack := true, ece := t.accecnCep % 2 = 1, cwr := t.accecnCep / 2 % 2 = 1 },
        (t.accecnCep / 4 % 2 = 1 : Bool)) := by
    simp [aceFlags, hen, hc, he, hs]
  have hace : (t.build seq extra payload).2.parse.ace =
      4 * (t.accecnCep / 4 % 2 = 1 : Bool).toNat + 2 * (t.accecnCep / 2 % 2 = 1 : Bool).toNat +
        (t.accecnCep % 2 = 1 : Bool).toNat := by
    change TcpPacket.ace { (t.build seq extra payload).2.parse with
      flags := (t.aceFlags { extra with ack := true }).1
      ae := (t.aceFlags { extra with ack := true }).2 } = _
    rw [hflags]
    rfl
  have hbit : ∀ n : Nat, (n % 2 = 1 : Bool).toNat = n % 2 := by
    intro n
    rcases Nat.mod_two_eq_zero_or_one n with h | h <;> simp [h]
  rw [hace, hbit, hbit, hbit]
  omega

theorem Stamps.none : Stamps t.echo ((t, none) : Emit κ) := by
  intro d hd
  cases hd

theorem Stamps.emit {seq : SeqNumber} {extra : TcpFlags} {payload : Bytes} (hc : extra.cwr = false)
    (he : extra.ece = false) (f : Tcb κ → Tcb κ) :
    Stamps t.echo ((t.emit seq extra payload).after f) := by
  intro d hd _ hsyn hen
  cases hd
  have hextra : extra.syn = false := (aceFlags_syn t { extra with ack := true }).symm.trans hsyn
  exact ace_build hc he hextra hen

theorem Stamps.orElse {p : Emit κ} {next : Tcb κ → Emit κ} (hp : Stamps t.echo p)
    (hkeep : p.1.echo = t.echo) (hnext : ∀ u : Tcb κ, Stamps u.echo (next u)) :
    Stamps t.echo (p.orElse next) := by
  obtain ⟨u, o⟩ := p
  cases o with
  | some d => exact hp
  | none =>
    have hu : u.echo = t.echo := hkeep
    rw [← hu]
    exact hnext u

theorem stamps_emitOwedAck (u : Tcb κ) : Stamps u.echo u.emitOwedAck := by
  unfold emitOwedAck
  split
  · exact Stamps.emit (t := { u with needsAck := false }) rfl rfl id
  · exact .none

theorem stamps_retransmitOldest (u : Tcb κ) : Stamps u.echo (u.retransmitOldest now) := by
  simp only [retransmitOldest, resendOldest]
  split
  · split
    · exact Stamps.emit (t := { u with retransmit := false }) rfl rfl _
    · split
      · split
        · exact Stamps.emit (t := { u with retransmit := false }) rfl rfl _
        · exact Stamps.none (t := { u with retransmit := false })
      · exact Stamps.none (t := { u with retransmit := false })
  · exact .none

theorem stamps_sackRetransmit (u : Tcb κ) : Stamps u.echo (u.sackRetransmit now) := by
  simp only [sackRetransmit]
  split
  · split
    · split
      · split
        · exact .emit rfl rfl _
        · exact .none
      · exact .none
    · exact .none
  · exact .none

theorem stamps_sendNewData (u : Tcb κ) : Stamps u.echo (u.sendNewData now) := by
  have hpace := u.echo_pace now (min u.cwndRoom u.rwndRoom)
  simp only [sendNewData]
  generalize u.pace now (min u.cwndRoom u.rwndRoom) = p at hpace ⊢
  rw [← hpace]
  split
  · simp only [sendAllowed]
    split
    · exact .emit rfl rfl _
    · exact .none
  · split
    · rw [← echo_armPersist p.1 now]
      unfold probe
      split
      · exact Stamps.emit (t := { p.1.armPersist now with sendProbe := false }) rfl rfl id
      · exact .none
    · exact .none

theorem stamps_sendFin (u : Tcb κ) : Stamps u.echo (u.sendFin now) := by
  simp only [sendFin]
  split
  · exact .emit rfl rfl _
  · exact .none

theorem stamps_transmitDataOrFin (u : Tcb κ) : Stamps u.echo (u.transmitDataOrFin now) := by
  have h1 : Stamps u.echo ((u.retransmitOldest now).orElse (·.sackRetransmit now)) :=
    (stamps_retransmitOldest u).orElse (u.echo_retransmitOldest now) (fun v => stamps_sackRetransmit v)
  have k1 := Emit.orElse_frame echo (u.echo_retransmitOldest now) (fun v => v.echo_sackRetransmit now)
  have h2 : Stamps u.echo
      (((u.retransmitOldest now).orElse (·.sackRetransmit now)).orElse (·.sendNewData now)) :=
    h1.orElse k1 (fun v => stamps_sendNewData v)
  have k2 := Emit.orElse_frame echo k1 (fun v => v.echo_sendNewData now)
  exact h2.orElse k2 (fun v => stamps_sendFin v)

/-- Every segment that is neither a SYN nor a RST says the counter modulo 8. -/
theorem ace_pollTransmit (u : Tcb κ) : Stamps u.echo (u.pollTransmit now) := by
  have hsame : ({ u with curTsval := BitVec.ofNat 32 now.micros } : Tcb κ).echo = u.echo := rfl
  simp only [pollTransmit]
  rw [← hsame]
  split
  · -- the owed RST
    intro d hd hrst
    cases hd
    cases hrst
  · split
    · exact .none
    · exact .none
    · -- SYN-SENT sends SYNs only
      simp only [pollSynSent]
      split
      · intro d hd _ hsyn
        cases hd
        cases hsyn
      · split
        · intro d hd _ hsyn
          cases hd
          cases hsyn
        · exact .none
    · simp only [pollSynReceived]
      split
      · exact .emit rfl rfl _
      · split
        · exact Stamps.emit (t := { u with curTsval := BitVec.ofNat 32 now.micros, retransmit := false })
            rfl rfl id
        · exact stamps_emitOwedAck _
    · exact stamps_emitOwedAck _
    · refine (stamps_transmitDataOrFin _).orElse (echo_transmitDataOrFin ..) ?_
      exact fun v => stamps_emitOwedAck v

end Tcb

end Ferrumnet
