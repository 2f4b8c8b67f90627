import Ferrumnet.Net
import Ferrumnet.Linked
import Ferrumnet.Setting
import Ferrumnet.Closing
import Ferrumnet.Emission
import Ferrumnet.Debts
import Ferrumnet.RelabelOut

/-
  Initial sequence numbers do not matter.

  Move the sequence space of each side by a constant: the same actions are then possible,
  and do the same. An active opener does not know the space of its peer until the peer's SYN
  arrives; if it is closed before, what arrives afterwards may be told apart by its number,
  but has no effect that can be seen.

  1. `onSegmentSynSent_relabel` — where the peer's space is learned.
  2. `Twins` — two Tcbs in step, in one of three phases, with a lemma for each operation.
  3. `isn_irrelevant` — every run of the two endpoints and the network.
-/

namespace Ferrumnet

open SeqNumber (shiftRun)

namespace Tcb

variable {κ : Type}

/-! ## Before the peer is known -/

/-- Nothing is known of the peer's sequence space, and nothing has come out of it. -/
def Unheard (t : Tcb κ) : Prop := t.toRecvSpace = freshRecv (SeqNumber.new 0) (SeqNumber.new 0) (SeqNumber.new 0)

section Unheard

variable {t : Tcb κ}

/-- Seen as a host, for the lemmas about such hosts. -/
theorem Unheard.unlearned (h : t.Unheard) (hst : t.state = .synSent ∨ t.state = .closed) : (Host.fresh t).Unlearned := by
  refine ⟨hst, h, ?_, ?_, rfl⟩
  · show t.toRecvSpace.rcvNxt.offsetFrom t.toRecvSpace.irs = 0
    rw [h]
    rfl
  · show t.toRecvSpace.rcvAdv.offsetFrom t.toRecvSpace.irs = 0
    rw [h]
    rfl

theorem Unheard.recv (h : t.Unheard) (n : Nat) : (t.recv n).1.Unheard ∧ (t.recv n).2.data = [] := by
  have hrx : t.rx = RingBuffer.withCapacity rxBuffer := by
    rw [h]
    rfl
  constructor
  · show { t.toRecvSpace with rx := (t.rx.read n).1 } = _
    rw [hrx, h, RingBuffer.read_fst, RingBuffer.withCapacity_consume]
    rfl
  · show (t.rx.read n).2.data = []
    rw [hrx]
    simp

variable [CongestionControl κ]

/-- What a segment does to a connection that was closed before it knew its peer. -/
theorem onSegment_closed (hst : t.state = .closed) (h : t.Unheard) (now : Instant) (p : TcpPacket) (ce : Bool) :
    (t.onSegment now p ce).state = .closed ∧ (t.onSegment now p ce).Unheard ∧
      (t.onSegment now p ce).pendingReset = t.pendingReset := by
  have hns : t.state ≠ .synSent := by simp [hst]
  have hcore := t.core_onSegment now p ce
  have hclosed : (t.onSegment now p ce).core.state = .closed := hcore ▸ Core.onSegment_closed hst p
  have hrecv : (t.core.onSegment p).toRecvSpace = t.toRecvSpace := by
    have hcases := t.core.onSegment_takes p hns
    generalize t.core.onSegment p = c at hcases ⊢
    cases hcases with
    | dropped | reset | synAgain | badAck => rfl
    | taken hadm _ => exact (h.unlearned (.inr hst)).text hadm t.sackEnabled
  refine ⟨hclosed, (congrArg Core.toRecvSpace hcore).trans (hrecv.trans h), ?_⟩
  have hreceipt := t.onSegment_receipt now p ce hns
  generalize t.onSegment now p ce = u at hreceipt ⊢
  cases hreceipt with
  | spared | reset | lingers | synAgain => rfl
  | badAck hrec => exact absurd hrec (by simp [hst])
  | opens hrec => exact absurd hrec (by simp [hst])
  | taken =>
    have htaken := (((t.advanceTsRecent p).acks now p).fixture_onText now p ce).trans ((t.advanceTsRecent p).fixture_acks now p)
    exact congrArg (fun x => x.2.2.2) (htaken.trans (t.fixture_advanceTsRecent p))

end Unheard

variable [CongestionControl κ] (t : Tcb κ) (now : Instant)

/-- A transmission changes the state with the FIN alone. -/
theorem state_pollTransmit :
    (t.pollTransmit now).1.state = t.state ∨ (t.pollTransmit now).1.state = finState t.state := by
  have hgated : ∀ u : Tcb κ, (u.gated now).state = u.state := fun u => congrArg Core.state (u.core_gated now)
  have hstart : ∀ u : Tcb κ, (u.startRtx now).state = u.state := fun u => congrArg Core.state (core_startRtx u now)
  have hidles : ∀ u : Tcb κ, Idles t now u → u.state = t.state := by
    intro u hu
    cases hu with
    | synReceived | timeWait => rfl
    | data => exact hgated _
  have hturn := t.pollTransmit_turn now
  generalize t.pollTransmit now = q at hturn ⊢
  cases hturn with
  | rst | mute | synAgain | synWaits | synAckAgain => exact .inl rfl
  | syn => exact .inl (hstart _)
  | synAck => exact .inl (hstart _)
  | @ack v _ hu =>
    have hv : v.state = t.state := hidles v hu
    exact .inl hv
  | idle _ hu => exact .inl (hidles _ hu)
  | sends _ _ hsource =>
    cases hsource with
    | resend | resendFin => exact .inl (hstart _)
    | repair => exact .inl (hstart _)
    | data n =>
      refine .inl ((hstart _).trans ((congrArg Core.state (core_noteSent _ now n (t.clocked now).windowRoom)).trans ?_))
      exact congrArg Core.state ((t.clocked now).lowered.core_paced now)
    | probe => exact .inl (hgated _)
    | quiet => exact .inl (hgated _)
    | fin =>
      refine .inr ((congrArg Core.state (core_noteFin _ now)).trans ?_)
      exact congrArg finState (hgated (t.clocked now).lowered)

theorem poll_unlocked (h : t.state ≠ .synSent) : (t.pollTransmit now).1.state ≠ .synSent := by
  rcases t.state_pollTransmit now with hst | hst
  · rw [hst]
    exact h
  · rw [hst]
    cases hs : t.state <;> simp_all [finState]

theorem onTimer_state : (t.onTimer now).state = t.state ∨ (t.onTimer now).state = .closed := by
  rcases t.core_onTimer now with h | h
  · exact .inl (congrArg Core.state h)
  · exact .inr (congrArg Core.state h)

theorem onTimer_recv : (t.onTimer now).toRecvSpace = t.toRecvSpace := by
  rcases t.core_onTimer now with h | h
  · exact congrArg Core.toRecvSpace h
  · exact congrArg Core.toRecvSpace h

theorem onTimer_reset : (t.onTimer now).pendingReset = t.pendingReset := by
  have hwait : ∀ u : Tcb κ, (u.onTimeWaitTimer now).alarms = u.alarms := by
    intro u
    unfold onTimeWaitTimer
    split <;> rfl
  have halarms : (t.onTimer now).alarms = t.alarms := by
    simp only [onTimer, alarms_onDelayedAckTimer, hwait, alarms_onPersistTimer, alarms_onRtxTimer]
  exact congrArg Prod.fst halarms

/-! ## Two Tcbs in step -/

variable [SeqBlind κ]

/-- The same connection, its send space moved by `a` and its receive space by `b`. -/
inductive Twins (a b : BitVec 32) : Tcb κ → Tcb κ → Prop
  /-- Both spaces are known. -/
  | learned {t : Tcb κ} : t.state ≠ .synSent → Twins a b t (t.relabel ⟨a, b, b⟩)
  /-- The peer's SYN is waited for. -/
  | waiting {t : Tcb κ} : t.state = .synSent → t.Unheard → Twins a b t (t.relabel ⟨a, 0, a⟩)
  /-- Closed before it came: what is left to do is to send the RST that is owed. -/
  | dead {t u : Tcb κ} : t.state = .closed → u.state = .closed → t.Unheard → u.Unheard →
      u.pendingReset = t.pendingReset.map (·.shift a) → u.localEnd = t.localEnd → u.remote = t.remote → Twins a b t u

variable {t u : Tcb κ} {a b : BitVec 32}

theorem Unheard.relabel (h : t.Unheard) (c : BitVec 32) : (t.relabel ⟨a, 0, c⟩).Unheard := by
  show t.toRecvSpace.relabel 0 = _
  rw [h]
  simp only [RecvSpace.relabel, freshRecv, SeqNumber.shift_zero, Reasm.relabel_new, Option.map_none]

/-- Before the peer is known, or if it never will be. -/
theorem Unheard.twins (h : t.Unheard) (hst : t.state = .synSent ∨ t.state = .closed) :
    Twins a b t (t.relabel ⟨a, 0, a⟩) := by
  rcases hst with hst | hst
  · exact .waiting hst h
  · exact .dead hst hst h (h.relabel a) rfl rfl rfl

theorem Twins.state_eq (h : Twins a b t u) : u.state = t.state := by
  cases h with
  | learned | waiting => rfl
  | dead ht hu => rw [ht, hu]

theorem Twins.recvEof_eq (h : Twins a b t u) : u.recvEof = t.recvEof := by
  cases h with
  | learned | waiting => rfl
  | dead _ _ ht hu =>
    show (u.toRecvSpace.peerFinSeen && u.toRecvSpace.rx.isEmpty) = (t.toRecvSpace.peerFinSeen && t.toRecvSpace.rx.isEmpty)
    rw [ht, hu]

omit [CongestionControl κ] [SeqBlind κ] in
theorem send_idle (hst : t.state = .synSent ∨ t.state = .closed) (data : Bytes) : t.send data = (t, 0) := by
  rcases hst with hst | hst <;> simp [send, hst]

theorem Twins.send (h : Twins a b t u) (data : Bytes) :
    Twins a b (t.send data).1 (u.send data).1 ∧ (u.send data).2 = (t.send data).2 := by
  cases h with
  | learned hst =>
    rw [send_relabel]
    refine ⟨.learned ?_, rfl⟩
    unfold Tcb.send
    split <;> exact hst
  | waiting hst hun =>
    rw [send_relabel, send_idle (.inl hst)]
    exact ⟨.waiting hst hun, rfl⟩
  | dead ht hu hunt hunu hreset hl hr =>
    rw [send_idle (.inr ht), send_idle (.inr hu)]
    exact ⟨.dead ht hu hunt hunu hreset hl hr, rfl⟩

theorem Twins.recv (h : Twins a b t u) (n : Nat) :
    Twins a b (t.recv n).1 (u.recv n).1 ∧ (u.recv n).2.data = (t.recv n).2.data := by
  cases h with
  | learned hst => exact ⟨.learned (t := (t.recv n).1) hst, rfl⟩
  | waiting hst hun => exact ⟨.waiting (t := (t.recv n).1) hst (hun.recv n).1, rfl⟩
  | dead ht hu hunt hunu hreset hl hr =>
    obtain ⟨ht', hdata⟩ := hunt.recv n
    obtain ⟨hu', hdata'⟩ := hunu.recv n
    exact ⟨.dead ht hu ht' hu' hreset hl hr, hdata'.trans hdata.symm⟩

theorem Twins.close (h : Twins a b t u) : Twins a b t.close u.close := by
  cases h with
  | learned hst => exact .learned (t := t.close) hst
  | waiting hst hun => exact .waiting (t := t.close) hst hun
  | dead ht hu hunt hunu hreset hl hr => exact .dead (t := t.close) (u := u.close) ht hu hunt hunu hreset hl hr

theorem Twins.onTimer (h : Twins a b t u) (now : Instant) : Twins a b (t.onTimer now) (u.onTimer now) := by
  cases h with
  | learned hst =>
    rw [onTimer_relabel]
    refine .learned fun hns => ?_
    rcases t.onTimer_state now with h | h
    · exact hst (h ▸ hns)
    · rw [h] at hns
      cases hns
  | waiting hst hun =>
    rw [onTimer_relabel]
    exact Unheard.twins ((t.onTimer_recv now).trans hun) ((t.onTimer_state now).imp_left (Eq.trans · hst))
  | dead ht hu hunt hunu hreset hl hr =>
    have hclosed : ∀ v : Tcb κ, v.state = .closed → (v.onTimer now).state = .closed := by
      intro v hv
      rcases v.onTimer_state now with h | h
      · exact h.trans hv
      · exact h
    have hends : ∀ v : Tcb κ, (v.onTimer now).localEnd = v.localEnd ∧ (v.onTimer now).remote = v.remote := fun v =>
      ⟨congrArg (fun x => x.2.2.2.1) (v.setting_onTimer now), congrArg (fun x => x.2.2.2.2) (v.setting_onTimer now)⟩
    refine .dead (hclosed t ht) (hclosed u hu) ((t.onTimer_recv now).trans hunt) ((u.onTimer_recv now).trans hunu) ?_ ?_ ?_
    · rw [onTimer_reset, onTimer_reset, hreset]
    · rw [(hends u).1, (hends t).1, hl]
    · rw [(hends u).2, (hends t).2, hr]

/-- A datagram, moved, as the one a side of the moved connection emits. -/
theorem Twins.poll (h : Twins a b t u) (now : Instant) :
    Twins a b (t.pollTransmit now).1 (u.pollTransmit now).1 ∧
      (u.pollTransmit now).2 = (t.pollTransmit now).2.map (·.relabel a b) := by
  cases h with
  | learned hst =>
    rw [pollTransmit_relabel]
    exact ⟨.learned (t.poll_unlocked now hst), rfl⟩
  | waiting hst hun =>
    rw [pollTransmit_relabel]
    have hturn := t.pollTransmit_turn now
    generalize t.pollTransmit now = q at hturn ⊢
    cases hturn with
    | rst seq => exact ⟨Unheard.twins (t := { t.clocked now with pendingReset := none }) hun (.inl hst), rfl⟩
    | mute => exact ⟨Unheard.twins (t := t.clocked now) hun (.inl hst), rfl⟩
    | syn =>
      have hcore := core_startRtx ({ t.clocked now with sndNxt := t.iss + 1 } : Tcb κ) now
      exact ⟨Unheard.twins ((congrArg Core.toRecvSpace hcore).trans hun) (.inl ((congrArg Core.state hcore).trans hst)), rfl⟩
    | synAgain => exact ⟨Unheard.twins (t := { t.clocked now with retransmit := false }) hun (.inl hst), rfl⟩
    | synWaits => exact ⟨Unheard.twins (t := t.clocked now) hun (.inl hst), rfl⟩
    | synAck _ hrec | synAckAgain _ hrec => exact absurd (hst.symm.trans hrec) (by simp)
    | sends _ hsync => exact absurd hsync (by simp [hst, State.synchronized])
    | ack _ hu | idle _ hu =>
      cases hu with
      | synReceived hrec => exact absurd (hst.symm.trans hrec) (by simp)
      | timeWait hwait => exact absurd (hst.symm.trans hwait) (by simp)
      | data hsync => exact absurd hsync (by simp [hst, State.synchronized])
  | dead ht hu hunt hunu hreset hl hr =>
    cases hp : t.pendingReset with
    | none =>
      have hnone : u.pendingReset = none := by
        rw [hreset, hp]
        rfl
      have hmute : ∀ v : Tcb κ, v.state = .closed → v.pendingReset = none → v.pollTransmit now = (v.clocked now, none) := by
        intro v hv hn
        unfold pollTransmit clocked
        dsimp only
        rw [hn]
        dsimp only
        rw [hv]
      rw [hmute t ht hp, hmute u hu hnone]
      exact ⟨.dead (t := t.clocked now) (u := u.clocked now) ht hu hunt hunu hreset hl hr, rfl⟩
    | some seq =>
      rw [hp] at hreset
      have hrst : ∀ (v : Tcb κ) seq, v.pendingReset = some seq →
          v.pollTransmit now = ({ v.clocked now with pendingReset := none }, some (v.buildRst seq)) := by
        intro v seq hsome
        unfold pollTransmit clocked
        dsimp only
        rw [hsome]
        rfl
      rw [hrst t seq hp, hrst u _ hreset]
      refine ⟨.dead (t := { t.clocked now with pendingReset := none }) (u := { u.clocked now with pendingReset := none })
        ht hu hunt hunu rfl hl hr, ?_⟩
      show some (buildSegment u.localEnd u.remote _ _) = some _
      rw [hl, hr]
      rfl

omit [SeqBlind κ] in
/-- No segment leads back to the opening. -/
theorem onSegment_unlocked (h : t.state ≠ .synSent) (now : Instant) (p : TcpPacket) (ce : Bool) :
    (t.onSegment now p ce).state ≠ .synSent := by
  have hcases := t.core.onSegment_takes p h
  rw [← t.core_onSegment now p ce] at hcases
  generalize hc : (t.onSegment now p ce).core = c at hcases
  cases hcases with
  | dropped | synAgain => exact (congrArg Core.state hc).trans_ne h
  | reset | badAck => exact (congrArg Core.state hc).trans_ne (by simp)
  | taken =>
    have hne := (Host.ackedState_ne (c := t.core) h).1
    exact (congrArg Core.state hc).trans_ne (Host.closingState_ne hne (.inl rfl))

theorem onSegmentSynSent_relabel (hst : t.state = .synSent) (h : t.Unheard) (p : TcpPacket) :
    Twins a b (t.onSegmentSynSent p) ((t.relabel ⟨a, 0, a⟩).onSegmentSynSent (p.relabel b a)) := by
  have hacks : ((p.relabel b a).flags.ack && (p.relabel b a).ack.gt (t.relabel ⟨a, 0, a⟩).iss &&
      (p.relabel b a).ack.le (t.relabel ⟨a, 0, a⟩).sndNxt) = (p.flags.ack && p.ack.gt t.iss && p.ack.le t.sndNxt) := by
    cases hack : p.flags.ack with
    | false =>
      have hflag : (p.relabel b a).flags.ack = false := hack
      rw [hflag, Bool.false_and, Bool.false_and, Bool.false_and, Bool.false_and]
    | true =>
      rw [p.ack_relabel b a hack, toSendSpace_relabel, SendSpace.iss_relabel, SendSpace.sndNxt_relabel,
        SeqNumber.gt_shift, SeqNumber.le_shift, TcpPacket.flags_relabel, hack]
  have hlearn := t.learnPeer_relabel ⟨a, 0, a⟩ (congrArg RecvSpace.reasm h) (congrArg RecvSpace.pendingFin h) p b a
  unfold onSegmentSynSent
  dsimp only
  rw [hacks, TcpPacket.flags_relabel, hlearn]
  generalize hacc : (p.flags.ack && p.ack.gt t.iss && p.ack.le t.sndNxt) = acceptable
  by_cases hbad : (p.flags.ack && !acceptable) = true
  · rw [if_pos hbad, if_pos hbad]
    by_cases hrst : p.flags.rst = true
    · rw [if_pos hrst, if_pos hrst]
      exact h.twins (.inl hst)
    · rw [if_neg hrst, if_neg hrst, p.ack_relabel b a (Bool.and_eq_true_iff.mp hbad).1]
      exact Unheard.twins (t := { t with pendingReset := some p.ack }) h (.inl hst)
  · rw [if_neg hbad, if_neg hbad]
    by_cases hrst : p.flags.rst = true
    · rw [if_pos hrst, if_pos hrst]
      cases acceptable with
      | false => exact h.twins (.inl hst)
      | true => exact Unheard.twins (t := { t with state := .closed, reset := true }) h (.inr rfl)
    · rw [if_neg hrst, if_neg hrst]
      by_cases hsyn : p.flags.syn = true
      · rw [if_pos hsyn, if_pos hsyn]
        cases acceptable with
        | false =>
          exact .learned (t := { t.learnPeer p with sndWl2 := t.iss, state := .synReceived, retransmit := true }) (by simp)
        | true =>
          rw [Bool.and_eq_true_iff, Bool.and_eq_true_iff] at hacc
          rw [p.ack_relabel b a hacc.1.1]
          exact .learned (t := { t.learnPeer p with sndUna := p.ack, sndWl2 := p.ack, state := .established
                                                    rtxDeadline := none, needsAck := true }) (by simp)
      · rw [if_neg hsyn, if_neg hsyn]
        exact h.twins (.inl hst)

theorem Twins.onSegment (h : Twins a b t u) (now : Instant) (p : TcpPacket) (ce : Bool) :
    Twins a b (t.onSegment now p ce) (u.onSegment now (p.relabel b a) ce) := by
  cases h with
  | learned hst =>
    have hsegment := onSegment_relabel t ⟨a, b, b⟩ now rfl hst p ce
    rw [hsegment]
    exact .learned (onSegment_unlocked hst now p ce)
  | waiting hst hun =>
    rw [Tcb.onSegment, Tcb.onSegment, state_relabel, if_pos hst, if_pos hst]
    exact onSegmentSynSent_relabel hst hun p
  | dead ht hu hunt hunu hreset hl hr =>
    obtain ⟨ht', hunt', hrt⟩ := onSegment_closed ht hunt now p ce
    obtain ⟨hu', hunu', hru⟩ := onSegment_closed hu hunu now (p.relabel b a) ce
    have hends : ∀ (v : Tcb κ) q, (v.onSegment now q ce).localEnd = v.localEnd ∧ (v.onSegment now q ce).remote = v.remote :=
      fun v q => ⟨congrArg (fun x => x.2.2.2.1) (v.setting_onSegment now q ce),
        congrArg (fun x => x.2.2.2.2) (v.setting_onSegment now q ce)⟩
    refine .dead ht' hu' hunt' hunu' ?_ ?_ ?_
    · rw [hru, hrt, hreset]
    · rw [(hends u _).1, (hends t _).1, hl]
    · rw [(hends u _).2, (hends t _).2, hr]

/-! ## Openings -/

theorem newSynSent_relabel (loc remote : Endpoint) (iss : SeqNumber) (now : Instant) (mss : Nat) (a : BitVec 32) :
    (newSynSent loc remote (iss.shift a) now mss : Tcb κ) = (newSynSent loc remote iss now mss).relabel ⟨a, 0, a⟩ := by
  simp only [newSynSent, relabel, SendSpace.relabel, SendWindow.relabel, RecvSpace.relabel, freshSend, freshRecv,
    freshRecovery, SeqBlind.new_relabel, SeqNumber.shift_zero, Reasm.relabel_new, Scoreboard.relabel_new]
  rfl

theorem newSynReceived_relabel (loc remote : Endpoint) (syn : TcpPacket) (iss : SeqNumber) (now : Instant) (mss : Nat)
    (a b r : BitVec 32) : (newSynReceived loc remote (syn.relabel b r) (iss.shift a) now mss : Tcb κ) =
      (newSynReceived loc remote syn iss now mss).relabel ⟨a, b, b⟩ := by
  simp only [newSynReceived, negotiate_relabel, relabel, SendSpace.relabel, SendWindow.relabel, RecvSpace.relabel,
    freshSend, freshRecv, freshRecovery, SeqBlind.new_relabel, Reasm.relabel_new, Scoreboard.relabel_new,
    TcpPacket.seq_relabel, TcpPacket.window_relabel, TcpPacket.timestamps_relabel, SeqNumber.shift_add]
  rfl

theorem twins_synSent (loc remote : Endpoint) (iss : SeqNumber) (now : Instant) (mss : Nat) (kind : CcKind) :
    Twins a b ((newSynSent loc remote iss now mss : Tcb κ).setCongestionControl kind)
      ((newSynSent loc remote (iss.shift a) now mss).setCongestionControl kind) := by
  have hcore := World.core_setCongestionControl (newSynSent loc remote iss now mss : Tcb κ) kind
  rw [newSynSent_relabel, setCongestionControl_relabel]
  exact .waiting (congrArg Core.state hcore) (congrArg Core.toRecvSpace hcore)

theorem twins_synReceived (loc remote : Endpoint) (syn : TcpPacket) (iss : SeqNumber) (now : Instant) (mss : Nat)
    (kind : CcKind) : Twins a b ((newSynReceived loc remote syn iss now mss : Tcb κ).setCongestionControl kind)
      ((newSynReceived loc remote (syn.relabel b a) (iss.shift a) now mss).setCongestionControl kind) := by
  have hcore := World.core_setCongestionControl (newSynReceived loc remote syn iss now mss : Tcb κ) kind
  rw [newSynReceived_relabel, setCongestionControl_relabel]
  exact .learned ((congrArg Core.state hcore).trans_ne (by simp [newSynReceived]))

end Tcb

/-! ## Two endpoints and the network -/

/-- The action, in the sequence spaces that are moved by `d`. -/
def Action.renumber (d : Side → BitVec 32) : Action → Action
  | .connect x loc remote iss now mss kind => .connect x loc remote (iss.shift (d x)) now mss kind
  | .accept x i offered iss now mss kind => .accept x i offered (iss.shift (d x)) now mss kind
  | other => other

variable {κ : Type} [CongestionControl κ] [SeqBlind κ]

structure Host.Twins (a b : BitVec 32) (h h' : Host κ) : Prop where
  tcb : Tcb.Twins a b h.tcb h'.tcb
  sent : h'.sent = h.sent
  got : h'.got = h.got

namespace World

/-- Hosts in step, and wires with the same datagrams, moved. -/
structure Twins (d : Side → BitVec 32) (w w' : World κ) : Prop where
  hosts : ∀ x, Option.Rel (Host.Twins (d x) (d x.other)) (w.host x) (w'.host x)
  wires : ∀ x, (w'.wire x).map Packet.dgram = (w.wire x).map fun p => p.dgram.relabel (d x) (d x.other)

variable {d : Side → BitVec 32} {w w' v : World κ}

theorem Twins.setHost (h : Twins d w w') {x : Side} {r q : Host κ} (hr : Host.Twins (d x) (d x.other) r q) :
    Twins d (w.setHost x r) (w'.setHost x q) := by
  constructor
  · intro y
    rcases x.eq_or_other y with rfl | rfl
    · rw [host_setHost, host_setHost]
      exact .some hr
    · rw [host_setHost_other, host_setHost_other]
      exact h.hosts x.other
  · intro y
    rw [wire_setHost, wire_setHost]
    exact h.wires y

theorem Twins.transmit (h : Twins d w w') {x : Side} {p o : Option Packet}
    (hp : o.map Packet.dgram = p.map fun p => p.dgram.relabel (d x) (d x.other)) :
    Twins d (w.transmit x p) (w'.transmit x o) := by
  have hlist : o.toList.map Packet.dgram = p.toList.map fun p => p.dgram.relabel (d x) (d x.other) := by
    rw [← Option.toList_map, hp, Option.toList_map]
  constructor
  · intro y
    rw [host_transmit, host_transmit]
    exact h.hosts y
  · intro y
    rcases x.eq_or_other y with rfl | rfl
    · rw [wire_transmit, wire_transmit, List.map_append, List.map_append, h.wires, hlist]
    · rw [wire_transmit_other, wire_transmit_other]
      exact h.wires x.other

theorem Twins.none (h : Twins d w w') {x : Side} (hx : w.host x = none) : w'.host x = none := by
  have hrel := h.hosts x
  rw [hx] at hrel
  cases hw : w'.host x with
  | none => rfl
  | some r =>
    rw [hw] at hrel
    cases hrel

/-- The host of the moved world. -/
theorem Twins.host (h : Twins d w w') {x : Side} {r : Host κ} (hr : w.host x = some r) :
    ∃ r', w'.host x = some r' ∧ Host.Twins (d x) (d x.other) r r' := by
  have hrel := h.hosts x
  rw [hr] at hrel
  cases hw : w'.host x with
  | none =>
    rw [hw] at hrel
    cases hrel
  | some r' =>
    rw [hw] at hrel
    cases hrel with
    | some hrel => exact ⟨r', rfl, hrel⟩

/-- The packet in the moved world. -/
theorem Twins.packet (h : Twins d w w') {x : Side} {i : Nat} {p : Packet} (hp : (w.wire x)[i]? = some p) :
    ∃ p', (w'.wire x)[i]? = some p' ∧ p'.dgram = p.dgram.relabel (d x) (d x.other) := by
  have hget := congrArg (fun l => l[i]?) (h.wires x)
  simp only [List.getElem?_map, hp, Option.map_some] at hget
  cases hw : (w'.wire x)[i]? with
  | none =>
    rw [hw] at hget
    cases hget
  | some p' =>
    rw [hw] at hget
    exact ⟨p', rfl, Option.some.inj hget⟩

theorem opens_relabel {p p' : Packet} {s r : BitVec 32} (h : p'.dgram = p.dgram.relabel s r) : opens p' = opens p := by
  rw [opens, h]
  rfl

/-- An action of one side on its own. -/
theorem Twins.acting {x : Side} {act : Action} {f : World κ → Host κ → World κ} (h : Twins d w w')
    (hact : ∀ u : World κ, u.apply act = (u.host x).map (f u)) (hsame : act.renumber d = act)
    (hf : ∀ r q, Host.Twins (d x) (d x.other) r q → Twins d (f w r) (f w' q)) (hs : w.apply act = some v) :
    ∃ v', w'.apply (act.renumber d) = some v' ∧ Twins d v v' := by
  rw [hact, Option.map_eq_some_iff] at hs
  obtain ⟨r, hr, rfl⟩ := hs
  obtain ⟨q, hq, ht⟩ := h.host hr
  refine ⟨f w' q, ?_, hf r q ht⟩
  rw [hsame, hact, hq, Option.map_some]

theorem Twins.connect (h : Twins d w w') {x : Side} {loc remote : Endpoint} {iss : SeqNumber} {now : Instant} {mss : Nat}
    {kind : CcKind} (hs : w.apply (.connect x loc remote iss now mss kind) = some v) :
    ∃ v', w'.apply (.connect x loc remote (iss.shift (d x)) now mss kind) = some v' ∧ Twins d v v' := by
  cases hx : w.host x with
  | some r =>
    simp only [apply, hx] at hs
    cases hs
  | none =>
    simp only [apply, hx] at hs
    cases hs
    refine ⟨_, ?_, h.setHost (q := .fresh ((Tcb.newSynSent loc remote (iss.shift (d x)) now mss).setCongestionControl kind))
      ⟨Tcb.twins_synSent loc remote iss now mss kind, rfl, rfl⟩⟩
    simp only [apply, h.none hx]

theorem Twins.accept (h : Twins d w w') {x : Side} {i : Nat} {offered : Ferrumnet.Offered} {iss : SeqNumber} {now : Instant}
    {mss : Nat} {kind : CcKind} (hs : w.apply (.accept x i offered iss now mss kind) = some v) :
    ∃ v', w'.apply (.accept x i offered (iss.shift (d x)) now mss kind) = some v' ∧ Twins d v v' := by
  cases hx : w.host x with
  | some r =>
    simp only [apply, hx] at hs
    cases hs
  | none =>
    cases hp : (w.wire x.other)[i]? with
    | none =>
      simp only [apply, hx, hp] at hs
      cases hs
    | some p =>
      obtain ⟨p', hp', hd⟩ := h.packet hp
      rw [Side.other_other] at hd
      by_cases ho : opens p = true
      · simp only [apply, hx, hp, if_pos ho] at hs
        cases hs
        have hparse : offered.restrict p'.dgram.parse = (offered.restrict p.dgram.parse).relabel (d x.other) (d x) := by
          rw [hd, Datagram.parse_relabel]
          rfl
        refine ⟨_, ?_, h.setHost (q := .fresh ((Tcb.newSynReceived p.dgram.dst p.dgram.src
          ((offered.restrict p.dgram.parse).relabel (d x.other) (d x)) (iss.shift (d x)) now mss).setCongestionControl
          kind)) ⟨Tcb.twins_synReceived p.dgram.dst p.dgram.src _ iss now mss kind, rfl, rfl⟩⟩
        simp only [apply, h.none hx, hp', opens_relabel hd, if_pos ho, hparse]
        rw [hd]
        rfl
      · simp only [apply, hx, hp, if_neg ho] at hs
        cases hs

theorem Twins.deliver (h : Twins d w w') {x : Side} {i : Nat} {now : Instant} {ce : Bool}
    (hs : w.apply (.deliver x i now ce) = some v) : ∃ v', w'.apply (.deliver x i now ce) = some v' ∧ Twins d v v' := by
  cases hx : w.host x with
  | none =>
    simp only [apply, hx] at hs
    cases hs
  | some r =>
    cases hp : (w.wire x.other)[i]? with
    | none =>
      simp only [apply, hx, hp] at hs
      cases hs
    | some p =>
      simp only [apply, hx, hp] at hs
      cases hs
      obtain ⟨q, hq, ht⟩ := h.host hx
      obtain ⟨p', hp', hd⟩ := h.packet hp
      rw [Side.other_other] at hd
      refine ⟨_, ?_, h.setHost (q := q.follow (q.tcb.onSegment now (p.dgram.parse.relabel (d x.other) (d x)) ce))
        ⟨ht.tcb.onSegment now p.dgram.parse ce, ht.sent, ht.got⟩⟩
      simp only [apply, hq, hp', hd, Datagram.parse_relabel]

/-- One action. -/
theorem Twins.step (h : Twins d w w') {act : Action} (hs : w.apply act = some v) :
    ∃ v', w'.apply (act.renumber d) = some v' ∧ Twins d v v' := by
  cases act with
  | connect => exact h.connect hs
  | accept => exact h.accept hs
  | deliver => exact h.deliver hs
  | send x data =>
    refine h.acting (x := x) (f := fun u r => u.setHost x { r.follow (r.tcb.send data).1 with
      sent := r.sent ++ data.data.take (r.tcb.send data).2 }) (fun u => ?_) rfl (fun r q ht => ?_) hs
    · simp only [apply]
      cases u.host x <;> rfl
    · obtain ⟨htcb, hcount⟩ := ht.tcb.send data
      refine h.setHost ⟨htcb, ?_, ht.got⟩
      show q.sent ++ _ = r.sent ++ _
      rw [ht.sent, hcount]
  | recv x n =>
    refine h.acting (x := x) (f := fun u r => u.setHost x { r.follow (r.tcb.recv n).1 with got := r.got ++ (r.tcb.recv n).2.data })
      (fun u => ?_) rfl (fun r q ht => ?_) hs
    · simp only [apply]
      cases u.host x <;> rfl
    · obtain ⟨htcb, hbytes⟩ := ht.tcb.recv n
      refine h.setHost ⟨htcb, ht.sent, ?_⟩
      show q.got ++ _ = r.got ++ _
      rw [ht.got, hbytes]
  | close x =>
    refine h.acting (x := x) (f := fun u r => u.setHost x (r.follow r.tcb.close)) (fun u => ?_) rfl (fun r q ht => ?_) hs
    · simp only [apply]
      cases u.host x <;> rfl
    · exact h.setHost ⟨ht.tcb.close, ht.sent, ht.got⟩
  | timer x now =>
    refine h.acting (x := x) (f := fun u r => u.setHost x (r.follow (r.tcb.onTimer now))) (fun u => ?_) rfl (fun r q ht => ?_) hs
    · simp only [apply]
      cases u.host x <;> rfl
    · exact h.setHost ⟨ht.tcb.onTimer now, ht.sent, ht.got⟩
  | poll x now =>
    refine h.acting (x := x) (f := fun u r => (u.setHost x (r.follow (r.tcb.pollTransmit now).1)).transmit x
      ((r.tcb.pollTransmit now).2.map r.label)) (fun u => ?_) rfl (fun r q ht => ?_) hs
    · simp only [apply]
      cases u.host x <;> rfl
    · obtain ⟨htcb, hout⟩ := ht.tcb.poll now
      have hset : Twins d (w.setHost x (r.follow (r.tcb.pollTransmit now).1))
          (w'.setHost x (q.follow (q.tcb.pollTransmit now).1)) := h.setHost ⟨htcb, ht.sent, ht.got⟩
      refine hset.transmit ?_
      rw [hout, Option.map_map, Option.map_map, Option.map_map]
      rfl

/-- Of every run: move the two sequence spaces, and the same actions are possible again, every
datagram is the same but for its moved numbers, and the applications see the same. -/
theorem isn_irrelevant {acts : List Action} (d : Side → BitVec 32) (hr : Run.run apply init acts = some w) :
    ∃ w' : World κ, Run.run apply init (acts.map (Action.renumber d)) = some w' ∧ ∀ x,
      (w'.wire x).map Packet.dgram = (w.wire x).map (fun p => p.dgram.relabel (d x) (d x.other)) ∧
        w'.sent x = w.sent x ∧ w'.got x = w.got x ∧ w'.eof x = w.eof x ∧
        (w'.host x).map (fun h => h.tcb.state) = (w.host x).map fun h => h.tcb.state := by
  have hinit : Twins d (init : World κ) init := by
    refine ⟨fun x => ?_, fun x => ?_⟩
    · cases x <;> exact .none
    · cases x <;> rfl
  obtain ⟨w', hr', h⟩ := Run.run_simulates (fun _ _ _ _ h hs => h.step hs) hinit hr
  refine ⟨w', hr', fun x => ⟨h.wires x, ?_⟩⟩
  have hrel := h.hosts x
  cases hw : w.host x with
  | none => simp only [World.sent, got, eof, hw, h.none hw, and_self]
  | some r =>
    obtain ⟨r', hr', ht⟩ := h.host hw
    simp only [World.sent, got, eof, hw, hr', Option.map_some, Option.getD_some, ht.sent, ht.got, ht.tcb.recvEof_eq,
      ht.tcb.state_eq, and_self]

/-- Three bytes from side `a` to side `b`. -/
def threeBytes : List Action :=
  handshake ++ [.send .a (Bytes.ofList [1, 2, 3]), .poll .a ⟨0⟩, .deliver .b 2 ⟨0⟩ false, .recv .b 10]

/-- The stream of side `a`, moved so that its second byte is number 0. -/
theorem isn_irrelevant_wrapping : ∃ w w' : World Reno, Run.run apply init threeBytes = some w ∧
    Run.run apply init (threeBytes.map (Action.renumber fun _ => 4294967194)) = some w' ∧
    w.got .b = [1, 2, 3] ∧ w'.got .b = w.got .b := by
  obtain ⟨w, hr, hgot⟩ := Run.exists_run apply init threeBytes (fun w : World Reno => w.got .b = [1, 2, 3])
    (by decide +kernel)
  obtain ⟨w', hr', h⟩ := isn_irrelevant (fun _ => 4294967194) hr
  exact ⟨w, w', hr, hr', hgot, (h .b).2.2.1⟩

end World

end Ferrumnet
