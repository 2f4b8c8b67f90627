import Ferrumnet.Feed
import Ferrumnet.Debts

/-
  Duplicates of the SYN, and the ACK that ends the handshake.

  A passive connection in SYN-RECEIVED answers a duplicate of its SYN by moving
  `SND.NXT` back to `ISS`, so that `poll_transmit` emits the SYN-ACK again. An
  ACK of the SYN-ACK that is ingested before that acknowledges what was not sent
  yet, and a half-open connection is closed with a RST for it.

  1. `HalfOpen`, `Opened` — the two phases, and what each input makes of them.
  2. `opens_iff` — the connection opens exactly if a call of `poll_transmit` stands
     between the last duplicate and the first ACK.
  3. `keeps_iff` — `SND.NXT` goes back exactly if a duplicate finds it past `ISS`.
-/

namespace Ferrumnet

/-! ## The two phases -/

namespace Core

variable {c : Core} {p : TcpPacket}

/-- A passive connection before the ACK of its SYN. -/
structure HalfOpen (c : Core) : Prop where
  state : c.state = .synReceived
  nxt : c.sndNxt = c.iss ∨ c.sndNxt = c.iss + 1
  una : c.sndUna = c.iss
  rcv : c.rcvNxt = c.irs + 1
  room : ∃ a, c.rcvAdv = c.rcvNxt + a ∧ 0 < a ∧ a ≤ 262144
  eof : c.peerFinSeen = false
  pending : c.pendingFin = none
  finAcked : c.finAcked = false

/-- A passive connection after it, of which nothing else was acknowledged and
which has received nothing. One that the application has closed goes on to
FIN-WAIT-1. -/
structure Opened (c : Core) : Prop where
  state : c.state = .established ∨ c.finQueued = true ∧ c.state = .finWait1
  una : c.sndUna = c.iss + 1
  rcv : c.rcvNxt = c.irs + 1
  eof : c.peerFinSeen = false
  pending : c.pendingFin = none
  finAcked : c.finAcked = false

/-- The SYN that opened the connection, once more. -/
structure IsSyn (c : Core) (p : TcpPacket) : Prop where
  rst : p.flags.rst = false
  syn : p.flags.syn = true
  seq : p.seq = c.irs

/-- The ACK that ends the handshake. -/
structure IsAck (c : Core) (p : TcpPacket) : Prop where
  rst : p.flags.rst = false
  syn : p.flags.syn = false
  fin : p.flags.fin = false
  ack : p.flags.ack = true
  payload : p.payload.len = 0
  seq : p.seq = c.irs + 1
  at_iss : p.ack = c.iss + 1

theorem HalfOpen.inWindow (h : c.HalfOpen) :
    c.rcvAdv ≠ c.rcvNxt ∧ c.rcvNxt.ge c.rcvNxt = true ∧ c.rcvNxt.lt c.rcvAdv = true := by
  obtain ⟨a, ha, hpos, hle⟩ := h.room
  have hge := SeqNumber.pos_ge c.rcvNxt (x := 0) (y := 0) (by omega) (by omega)
  have hlt := SeqNumber.pos_lt c.rcvNxt (x := 0) (y := a) (by omega) (by omega)
  rw [SeqNumber.add_zero] at hge hlt
  refine ⟨?_, hge, ?_⟩
  · rw [ha]
    exact SeqNumber.add_ne_self _ (by omega)
  · rw [ha, hlt]
    exact decide_eq_true hpos

/-- What starts at the left window edge is acceptable. -/
theorem HalfOpen.acceptable (h : c.HalfOpen) (hseq : p.seq = c.rcvNxt) :
    c.toRecvSpace.segmentAcceptable p.seq p.segLen = true := by
  obtain ⟨hne, hge, hlt⟩ := h.inWindow
  simp [RecvSpace.segmentAcceptable, RecvSpace.seqInWindow, hseq, hne, hge, hlt]

/-- The octet before the window is not in it. -/
theorem not_inWindow (hrcv : c.rcvNxt = c.irs + 1) : c.toRecvSpace.seqInWindow c.irs = false := by
  have hne : c.irs ≠ c.irs + 1 := fun h => SeqNumber.add_ne_self c.irs (n := 1) (by decide) h.symm
  have hge := SeqNumber.pos_ge c.irs (x := 0) (y := 1) (by omega) (by omega)
  rw [SeqNumber.add_zero] at hge
  unfold RecvSpace.seqInWindow
  rw [hrcv]
  split
  · simp [hne]
  · rw [hge]
    simp

/-- The segments that a half-open connection sends keep it half-open, with the
SYN-ACK out. -/
theorem HalfOpen.sent (h : c.HalfOpen) {seq : SeqNumber} {extra : TcpFlags} {payload : Bytes}
    {s : SendSpace} {st : State} (hs : c.Sends seq extra payload s st) :
    (c.sent s st).HalfOpen ∧ s.sndNxt = c.iss + 1 ∧ s.iss = c.iss := by
  have hnot : c.state.synchronized ≠ true := by simp [h.state, State.synchronized]
  have hroom : ∃ a, (c.toRecvSpace.advertisedWindow c.rcvWscale).1.rcvAdv = c.rcvNxt + a ∧
      0 < a ∧ a ≤ 262144 := by
    obtain ⟨a, ha, hpos, hle⟩ := h.room
    have hfree : min (rxBuffer - (c.rx.len + c.reasm.buffered)) (65535 <<< c.rcvWscale) ≤ 262144 :=
      Nat.le_trans (Nat.min_le_left _ _) (Nat.sub_le 262144 _)
    simp only [RecvSpace.advertisedWindow]
    generalize min (rxBuffer - (c.rx.len + c.reasm.buffered)) (65535 <<< c.rcvWscale) = free at hfree
    split
    · exact ⟨a, ha, hpos, hle⟩
    · rename_i hlt
      refine ⟨_, rfl, ?_, hfree⟩
      rw [ha, SeqNumber.pos_lt _ (by omega) (by omega), decide_eq_true_eq] at hlt
      omega
  have hkeep : ∀ s' : SendSpace, s'.sndUna = c.sndUna → s'.iss = c.iss → s'.finAcked = c.finAcked →
      s'.sndNxt = c.iss + 1 → (c.sent s' c.state).HalfOpen ∧ s'.sndNxt = c.iss + 1 ∧ s'.iss = c.iss := by
    intro s' h1 h2 h3 h4
    refine ⟨⟨h.state, .inr ?_, ?_, h.rcv, hroom, h.eof, h.pending, h3.trans h.finAcked⟩, h4, h2⟩
    · show s'.sndNxt = s'.iss + 1
      rw [h4, h2]
    · show s'.sndUna = s'.iss
      rw [h1, h2, h.una]
  cases hs with
  | synAck _ _ => exact hkeep _ rfl rfl rfl rfl
  | synAckAgain _ hn => exact hkeep _ rfl rfl rfl (h.nxt.resolve_left hn)
  | ack _ _ _ hn => exact hkeep _ rfl rfl rfl (h.nxt.resolve_left (hn h.state))
  | again _ _ _ hsync _ _ _ => exact absurd hsync hnot
  | data _ _ hsync _ _ _ => exact absurd hsync hnot
  | probe hsync _ _ _ => exact absurd hsync hnot
  | fin hsync _ _ _ => exact absurd hsync hnot
  | finAgain _ hsync _ _ _ _ => exact absurd hsync hnot

/-- Any segment that leaves a half-open connection in SYN-RECEIVED leaves it half-open. -/
theorem HalfOpen.onSegment (h : c.HalfOpen) (hst : (c.onSegment p).state = .synReceived) :
    (c.onSegment p).HalfOpen := by
  have hcases := c.onSegment_takes p (by simp [h.state])
  generalize c.onSegment p = c' at hcases hst
  cases hcases with
  | dropped ts _ => exact ⟨h.state, h.nxt, h.una, h.rcv, h.room, h.eof, h.pending, h.finAcked⟩
  | reset _ _ => cases hst
  | synAgain _ => exact ⟨h.state, .inl rfl, h.una, h.rcv, h.room, h.eof, h.pending, h.finAcked⟩
  | badAck _ _ _ _ => cases hst
  | taken _ _ =>
    have hst' : Tcb.closingState c.ackedState (c.ackedSend p).finAcked
      (c.toRecvSpace.text c.sackEnabled p).peerFinSeen = .synReceived := hst
    rw [ackedState, if_pos h.state] at hst'
    simp only [Tcb.closingState] at hst'
    split at hst' <;> cases hst'

/-- A segment without text leaves the receive space alone, if no FIN is pending. -/
theorem text_empty {r : RecvSpace} (hpay : p.payload.len = 0) (hfin : p.flags.fin = false)
    (hpend : r.pendingFin = none) (sack : Bool) : r.text sack p = r := by
  have hempty : p.payload.isEmpty = true := by simpa [Bytes.isEmpty] using hpay
  simp [RecvSpace.text, RecvSpace.acceptData, RecvSpace.acceptFin, RecvSpace.takePendingFin, hempty,
    hfin, hpend]

/-- Nor does it move an open connection on. -/
theorem Opened.onText (h : c.Opened) (hp : c.IsAck p) : c.onText p = c := by
  have htext := text_empty (r := c.toRecvSpace) hp.payload hp.fin h.pending c.sackEnabled
  have hstate : Tcb.closingState c.state c.finAcked c.peerFinSeen = c.state := by
    rw [h.finAcked, h.eof]
    rcases h.state with hst | ⟨-, hst⟩ <;> rw [hst] <;> rfl
  simp only [Core.onText, htext]
  rw [hstate]
  rfl

/-- The ACK opens the connection if the SYN-ACK is out, else it closes it. -/
theorem HalfOpen.onAck (h : c.HalfOpen) (hp : c.IsAck p) (hfresh : c.pawsStale p = false) :
    (c.sndNxt = c.iss + 1 → (c.onSegment p).Opened ∧ (c.onSegment p).iss = c.iss ∧
      (c.onSegment p).irs = c.irs) ∧ (c.sndNxt = c.iss → (c.onSegment p).state = .closed) := by
  have hacc := h.acceptable (hp.seq.trans h.rcv.symm)
  have hgo : c.onSegment p = c.onAcceptable p := by
    simp [Core.onSegment, h.state, hp.rst, hp.syn, hfresh, hacc]
  have hgt : p.ack.gt c.sndUna = true := by
    have := SeqNumber.pos_gt c.iss (x := 1) (y := 0) (by omega) (by omega)
    rw [SeqNumber.add_zero] at this
    rw [hp.at_iss, h.una, this]
    rfl
  rw [hgo]
  constructor
  · intro hn
    have hle : p.ack.le c.sndNxt = true := by
      rw [hp.at_iss, hn, SeqNumber.le_iff, SeqNumber.offsetFrom_self]
      exact .inl rfl
    have hv : (c.advanceTsRecent p).validAck p = true := by
      rw [validAck, if_pos (show (c.advanceTsRecent p).state = .synReceived from h.state)]
      exact (Bool.and_eq_true _ _).mpr ⟨hgt, hle⟩
    have hsend : (c.advanceTsRecent p).ackedSend p = { c.toSendSpace with sndUna := p.ack } := by
      rw [ackedSend, if_pos (show (c.advanceTsRecent p).state = .synReceived from h.state)]
      rfl
    have hstate : (c.advanceTsRecent p).ackedState = .established := by
      rw [ackedState, if_pos (show (c.advanceTsRecent p).state = .synReceived from h.state)]
    have hopen : ((c.advanceTsRecent p).acked p).Opened := by
      refine ⟨.inl hstate, ?_, h.rcv, h.eof, h.pending, ?_⟩
      · show ((c.advanceTsRecent p).ackedSend p).sndUna = ((c.advanceTsRecent p).ackedSend p).iss + 1
        rw [hsend]
        exact hp.at_iss
      · show ((c.advanceTsRecent p).ackedSend p).finAcked = false
        rw [hsend]
        exact h.finAcked
    have hp' : ((c.advanceTsRecent p).acked p).IsAck p := by
      refine ⟨hp.rst, hp.syn, hp.fin, hp.ack, hp.payload, hp.seq, ?_⟩
      show p.ack = ((c.advanceTsRecent p).ackedSend p).iss + 1
      rw [hsend]
      exact hp.at_iss
    simp only [onAcceptable, hp.ack, hv, if_true]
    rw [hopen.onText hp']
    exact ⟨hopen, show ((c.advanceTsRecent p).ackedSend p).iss = c.iss by rw [hsend], rfl⟩
  · intro hn
    have hbad : p.ack.le c.sndNxt = false := by
      have := SeqNumber.pos_gt c.iss (x := 1) (y := 0) (by omega) (by omega)
      rw [SeqNumber.add_zero] at this
      rw [hp.at_iss, hn, SeqNumber.le_eq, this]
      rfl
    have hv : (c.advanceTsRecent p).validAck p = false := by
      rw [validAck, if_pos (show (c.advanceTsRecent p).state = .synReceived from h.state)]
      exact (Bool.and_eq_false_iff).mpr (.inr hbad)
    have hst : (c.advanceTsRecent p).state = .synReceived := h.state
    simp only [onAcceptable, hp.ack, hv, if_true, hst]
    rfl

/-- The SYN once more changes nothing after the handshake. -/
theorem Opened.onSyn (h : c.Opened) (hp : c.IsSyn p) : c.onSegment p = c := by
  have hnot := not_inWindow h.rcv
  unfold onSegment
  rcases h.state with hst | ⟨-, hst⟩ <;> simp [hst, hp.rst, hp.syn]

/-- Nor does the ACK once more, but for TS.Recent and the window. -/
theorem Opened.onAck (h : c.Opened) (hp : c.IsAck p) :
    (c.onSegment p).Opened ∧ (c.onSegment p).iss = c.iss ∧ (c.onSegment p).irs = c.irs := by
  have hns : c.state ≠ .synSent := by
    rcases h.state with hst | ⟨-, hst⟩ <;> simp [hst]
  have hnr : c.state ≠ .synReceived := by
    rcases h.state with hst | ⟨-, hst⟩ <;> simp [hst]
  have hcases := c.onSegment_takes p hns
  generalize c.onSegment p = c' at hcases
  cases hcases with
  | dropped ts _ => exact ⟨⟨h.state, h.una, h.rcv, h.eof, h.pending, h.finAcked⟩, rfl, rfl⟩
  | reset hrst _ => exact absurd (hp.rst.symm.trans hrst) (by simp)
  | synAgain hdup =>
    simp only [dupSyn, hp.syn, Bool.and_false, Bool.false_and] at hdup
    cases hdup
  | badAck _ hrec _ _ => exact absurd hrec hnr
  | taken _ _ =>
    have hgt : p.ack.gt c.sndUna = false := by
      have := SeqNumber.pos_gt c.iss (x := 1) (y := 1) (by omega) (by omega)
      rw [hp.at_iss, h.una, this]
      rfl
    have hsend : (c.advanceTsRecent p).ackedSend p = c.toSendSpace := by
      rw [ackedSend, if_neg (show (c.advanceTsRecent p).state ≠ .synReceived from hnr),
        if_neg (show ¬ p.ack.gt (c.advanceTsRecent p).sndUna = true by
          rw [show (c.advanceTsRecent p).sndUna = c.sndUna from rfl, hgt]; simp)]
      rfl
    have hstate : (c.advanceTsRecent p).ackedState = c.state := by
      rw [ackedState, if_neg (show (c.advanceTsRecent p).state ≠ .synReceived from hnr)]
      rfl
    have hopen : ((c.advanceTsRecent p).acked p).Opened := by
      refine ⟨?_, ?_, h.rcv, h.eof, h.pending, ?_⟩
      · show (c.advanceTsRecent p).ackedState = .established ∨
          ((c.advanceTsRecent p).ackedSend p).finQueued = true ∧
            (c.advanceTsRecent p).ackedState = .finWait1
        rw [hstate, hsend]
        exact h.state
      · show ((c.advanceTsRecent p).ackedSend p).sndUna = ((c.advanceTsRecent p).ackedSend p).iss + 1
        rw [hsend]
        exact h.una
      · show ((c.advanceTsRecent p).ackedSend p).finAcked = false
        rw [hsend]
        exact h.finAcked
    have hiss : ((c.advanceTsRecent p).acked p).iss = c.iss := congrArg SendSpace.iss hsend
    have hp' : ((c.advanceTsRecent p).acked p).IsAck p :=
      ⟨hp.rst, hp.syn, hp.fin, hp.ack, hp.payload, hp.seq, by rw [hiss]; exact hp.at_iss⟩
    rw [hopen.onText hp']
    exact ⟨hopen, hiss, rfl⟩

/-- The segments that an open connection sends keep it open. -/
theorem Opened.sent (h : c.Opened) {seq : SeqNumber} {extra : TcpFlags} {payload : Bytes}
    {s : SendSpace} {st : State} (hs : c.Sends seq extra payload s st) :
    (c.sent s st).Opened ∧ s.iss = c.iss := by
  have hnr : c.state ≠ .synReceived := by
    rcases h.state with hst | ⟨-, hst⟩ <;> simp [hst]
  have hkeep : (c.sent c.toSendSpace c.state).Opened :=
    ⟨h.state, h.una, h.rcv, h.eof, h.pending, h.finAcked⟩
  cases hs with
  | synAck hst _ => exact absurd hst hnr
  | synAckAgain hst _ => exact absurd hst hnr
  | ack _ _ _ _ => exact ⟨hkeep, rfl⟩
  | again _ _ _ _ _ _ _ => exact ⟨hkeep, rfl⟩
  | data _ _ _ _ _ _ => exact ⟨⟨h.state, h.una, h.rcv, h.eof, h.pending, h.finAcked⟩, rfl⟩
  | probe _ _ _ _ => exact ⟨hkeep, rfl⟩
  | fin _ hq _ _ =>
    refine ⟨⟨.inr ⟨hq, ?_⟩, h.una, h.rcv, h.eof, h.pending, h.finAcked⟩, rfl⟩
    show Tcb.finState c.state = .finWait1
    rcases h.state with hst | ⟨-, hst⟩ <;> rw [hst] <;> rfl
  | finAgain _ _ _ _ _ _ => exact ⟨hkeep, rfl⟩

end Core

namespace Tcb

variable {κ : Type} [CongestionControl κ] {t : Tcb κ} {p : TcpPacket}

/-- A half-open connection that owes no RST, with the closing timer not armed. -/
structure HalfOpen (t : Tcb κ) : Prop where
  core : t.core.HalfOpen
  alarms : t.alarms = (none, none)

structure Opened (t : Tcb κ) : Prop where
  core : t.core.Opened
  alarms : t.alarms = (none, none)

omit [CongestionControl κ] in
theorem HalfOpen.reset (h : t.HalfOpen) : t.pendingReset = none := congrArg Prod.fst h.alarms

omit [CongestionControl κ] in
theorem HalfOpen.wait (h : t.HalfOpen) : t.timeWaitDeadline = none := congrArg Prod.snd h.alarms

omit [CongestionControl κ] in
theorem Opened.reset (h : t.Opened) : t.pendingReset = none := congrArg Prod.fst h.alarms

omit [CongestionControl κ] in
theorem Opened.wait (h : t.Opened) : t.timeWaitDeadline = none := congrArg Prod.snd h.alarms

/-- A segment that leaves the connection in SYN-RECEIVED. -/
theorem HalfOpen.onSegment (h : t.HalfOpen) (now : Instant) (ce : Bool)
    (hst : (t.onSegment now p ce).state = .synReceived) : (t.onSegment now p ce).HalfOpen := by
  have hc := t.core_onSegment now p ce
  have hns : t.state ≠ .synSent := by
    rw [show t.state = .synReceived from h.core.state]
    simp
  refine ⟨?_, ?_⟩
  · rw [hc]
    refine h.core.onSegment ?_
    rw [← hc]
    exact hst
  · rw [t.alarms_onSegment now hns p ce (by simp [hst]) (by simp [hst]) (by simp [hst])]
    exact h.alarms

theorem HalfOpen.onTimer (h : t.HalfOpen) (now : Instant) :
    (t.onTimer now).HalfOpen ∧ (t.onTimer now).core = t.core := by
  have hns : t.state ≠ .synSent := by
    rw [show t.state = .synReceived from h.core.state]
    simp
  obtain ⟨hc, ha⟩ := t.onTimer_calm now h.wait hns
  exact ⟨⟨hc ▸ h.core, ha.trans h.alarms⟩, hc⟩

/-- What `poll_transmit` does to the core in SYN-RECEIVED. -/
theorem core_pollSynReceived (hst : t.state = .synReceived) (now : Instant) :
    ((t.pollSynReceived now).1.core = t.core ∧ t.sndNxt ≠ t.iss) ∨
      ∃ seq extra payload s st, t.core.Sends seq extra payload s st ∧
        (t.pollSynReceived now).1.core = t.core.sent s st := by
  unfold pollSynReceived
  split
  · rename_i hn
    exact .inr ⟨_, _, _, _, _, .synAck hst hn, core_startRtx ..⟩
  · rename_i hn
    split
    · exact .inr ⟨_, _, _, _, _, .synAckAgain hst hn, rfl⟩
    · unfold emitOwedAck
      split
      · have hack : t.core.Sends t.sndNxt {} Bytes.empty t.toSendSpace t.state :=
          .ack (by simp [hst]) (by simp [hst]) (by simp [hst]) (fun _ => hn)
        exact .inr ⟨_, _, _, _, _, hack, rfl⟩
      · exact .inl ⟨rfl, hn⟩

/-- `poll_transmit` in SYN-RECEIVED: the SYN-ACK is out afterwards. -/
theorem HalfOpen.poll (h : t.HalfOpen) (now : Instant) :
    (t.pollTransmit now).1.HalfOpen ∧ (t.pollTransmit now).1.sndNxt = t.iss + 1 ∧
      (t.pollTransmit now).1.iss = t.iss ∧ (t.pollTransmit now).1.irs = t.irs ∧
      (t.pollTransmit now).1.toOptions = t.toOptions ∧ (t.pollTransmit now).1.tsRecent = t.tsRecent := by
  have halarms := (t.alarms_pollTransmit now h.reset).trans h.alarms
  have hst : t.state = .synReceived := h.core.state
  have hgo : t.pollTransmit now =
      { t with curTsval := BitVec.ofNat 32 now.micros }.pollSynReceived now := by
    simp only [pollTransmit, h.reset, hst]
  have hcore := core_pollSynReceived (t := { t with curTsval := BitVec.ofNat 32 now.micros }) hst now
  rw [← hgo] at hcore
  generalize (t.pollTransmit now).1 = u at halarms hcore ⊢
  rcases hcore with ⟨hc, hn⟩ | ⟨seq, extra, payload, s, st, hs, hc⟩
  · change u.core = t.core at hc
    have hnxt : t.sndNxt = t.iss + 1 := h.core.nxt.resolve_left hn
    exact ⟨⟨hc ▸ h.core, halarms⟩, (congrArg (fun c : Core => c.sndNxt) hc).trans hnxt,
      congrArg (fun c : Core => c.iss) hc, congrArg (fun c : Core => c.irs) hc,
      congrArg Core.toOptions hc, congrArg Core.tsRecent hc⟩
  · obtain ⟨h1, h2, h3⟩ := h.core.sent hs
    exact ⟨⟨hc ▸ h1, halarms⟩, (congrArg (fun c : Core => c.sndNxt) hc).trans h2,
      (congrArg (fun c : Core => c.iss) hc).trans h3, congrArg (fun c : Core => c.irs) hc,
      congrArg Core.toOptions hc, congrArg Core.tsRecent hc⟩

theorem HalfOpen.onSyn (h : t.HalfOpen) (hp : t.core.IsSyn p) (now : Instant) (ce : Bool) :
    t.onSegment now p ce = { t with sndNxt := t.iss } ∧ (t.onSegment now p ce).HalfOpen := by
  have hst : t.state = .synReceived := h.core.state
  have he : t.onSegment now p ce = { t with sndNxt := t.iss } := by
    have hseq : p.seq = t.irs := hp.seq
    simp [Tcb.onSegment, Tcb.onSyn, hst, hp.rst, hp.syn, hseq]
  refine ⟨he, h.onSegment now ce ?_⟩
  rw [he]
  exact hst

/-- A half-open connection that a segment other than a RST closes owes a RST. -/
theorem badAck_reset (hst : t.state = .synReceived) (hrst : p.flags.rst = false) {now : Instant}
    {ce : Bool} (hcl : (t.onSegment now p ce).state = .closed) :
    (t.onSegment now p ce).pendingReset = some p.ack := by
  have hopen : t.state ≠ .closed := by simp [hst]
  have hreceipt := t.onSegment_receipt now p ce (by simp [hst])
  generalize t.onSegment now p ce = u at hreceipt hcl
  cases hreceipt with
  | spared => exact absurd hcl hopen
  | reset hrst' => exact absurd (hrst.symm.trans hrst') (by simp)
  | lingers htw => exact absurd (hst.symm.trans htw) (by simp)
  | synAgain => exact absurd hcl hopen
  | badAck => rfl
  | opens hrec =>
    -- text does not close what the ACK has just opened
    have htext := congrArg Core.state (((t.advanceTsRecent p).opened p).core_onText now p ce)
    have hcl' := htext.symm.trans hcl
    have hest : ((t.advanceTsRecent p).opened p).core.state = .established := rfl
    simp only [Core.withState_state, hest, closingState] at hcl'
    split at hcl' <;> cases hcl'
  | taken hrec => exact absurd hst hrec

/-- The ACK opens the connection if the SYN-ACK is out, else it owes a RST. -/
theorem HalfOpen.onAck (h : t.HalfOpen) (hp : t.core.IsAck p) (hfresh : t.core.pawsStale p = false)
    (now : Instant) (ce : Bool) :
    (t.sndNxt = t.iss + 1 → (t.onSegment now p ce).Opened ∧ (t.onSegment now p ce).iss = t.iss ∧
      (t.onSegment now p ce).irs = t.irs) ∧
      (t.sndNxt = t.iss → (t.onSegment now p ce).pendingReset = some p.ack ∧
        (t.onSegment now p ce).state = .closed) := by
  obtain ⟨hopen, hclose⟩ := h.core.onAck hp hfresh
  have hc := t.core_onSegment now p ce
  have hst : t.state = .synReceived := h.core.state
  constructor
  · intro hn
    obtain ⟨ho, hiss, hirs⟩ := hopen hn
    rw [← hc] at ho hiss hirs
    refine ⟨⟨ho, ?_⟩, hiss, hirs⟩
    rw [t.alarms_onSegment now (by simp [hst]) p ce ?_ ?_ ?_]
    · exact h.alarms
    all_goals
      rcases ho.state with hs | ⟨-, hs⟩ <;> rw [show (t.onSegment now p ce).state = _ from hs] <;> simp
  · intro hn
    have hcl := hclose hn
    rw [← hc] at hcl
    refine ⟨?_, hcl⟩
    exact badAck_reset hst hp.rst hcl

/-- A segment that keeps the core open keeps the connection open. -/
theorem Opened.onSegment (h : t.Opened) (now : Instant) (ce : Bool)
    (ho : (t.core.onSegment p).Opened) : (t.onSegment now p ce).Opened := by
  rw [← t.core_onSegment now p ce] at ho
  have hns : t.state ≠ .synSent := by
    rcases h.core.state with hs | ⟨-, hs⟩ <;> rw [show t.state = _ from hs] <;> simp
  refine ⟨ho, ?_⟩
  rw [t.alarms_onSegment now hns p ce ?_ ?_ ?_]
  · exact h.alarms
  all_goals
    rcases ho.state with hs | ⟨-, hs⟩ <;> rw [show (t.onSegment now p ce).state = _ from hs] <;> simp

theorem Opened.onTimer (h : t.Opened) (now : Instant) :
    (t.onTimer now).Opened ∧ (t.onTimer now).core = t.core := by
  have hns : t.state ≠ .synSent := by
    rcases h.core.state with hs | ⟨-, hs⟩ <;> rw [show t.state = _ from hs] <;> simp
  obtain ⟨hc, ha⟩ := t.onTimer_calm now h.wait hns
  exact ⟨⟨hc ▸ h.core, ha.trans h.alarms⟩, hc⟩

end Tcb

/-! ## A passive connection among its own segments -/

namespace Core

variable {c d : Core}

/-- What the handshake brings: the SYN again, the ACK, timers and transmissions. -/
def Leg (c : Core) : Input → Prop
  | .segment seg _ _ => c.IsSyn seg.tcp ∨ c.IsAck seg.tcp ∧ c.pawsStale seg.tcp = false
  | .timer _ | .poll _ => True
  | _ => False

instance (c : Core) (p : TcpPacket) : Decidable (c.IsSyn p) :=
  decidable_of_iff (p.flags.rst = false ∧ p.flags.syn = true ∧ p.seq = c.irs)
    ⟨fun h => ⟨h.1, h.2.1, h.2.2⟩, fun h => ⟨h.rst, h.syn, h.seq⟩⟩

instance (c : Core) (p : TcpPacket) : Decidable (c.IsAck p) :=
  decidable_of_iff (p.flags.rst = false ∧ p.flags.syn = false ∧ p.flags.fin = false ∧
      p.flags.ack = true ∧ p.payload.len = 0 ∧ p.seq = c.irs + 1 ∧ p.ack = c.iss + 1)
    ⟨fun h => ⟨h.1, h.2.1, h.2.2.1, h.2.2.2.1, h.2.2.2.2.1, h.2.2.2.2.2.1, h.2.2.2.2.2.2⟩,
      fun h => ⟨h.rst, h.syn, h.fin, h.ack, h.payload, h.seq, h.at_iss⟩⟩

instance (c : Core) : ∀ i, Decidable (c.Leg i)
  | .segment seg _ _ => inferInstanceAs (Decidable (c.IsSyn seg.tcp ∨ c.IsAck seg.tcp ∧ _ = false))
  | .timer _ | .poll _ => isTrue trivial
  | .send _ | .recv _ | .close => isFalse id

/-- What the legs depend on. -/
structure SameLegs (c d : Core) : Prop where
  iss : d.iss = c.iss
  irs : d.irs = c.irs
  tsEnabled : d.tsEnabled = c.tsEnabled
  tsRecent : d.tsRecent = c.tsRecent

theorem SameLegs.leg (h : SameLegs c d) {i : Input} (hi : c.Leg i) : d.Leg i := by
  cases i with
  | segment seg now ce =>
    rcases hi with hs | ⟨ha, hf⟩
    · exact .inl ⟨hs.rst, hs.syn, hs.seq.trans h.irs.symm⟩
    · refine .inr ⟨⟨ha.rst, ha.syn, ha.fin, ha.ack, ha.payload, ?_, ?_⟩, ?_⟩
      · rw [h.irs]
        exact ha.seq
      · rw [h.iss]
        exact ha.at_iss
      · rw [← hf]
        simp only [pawsStale, segTs, h.tsEnabled, h.tsRecent]
  | _ => exact hi

end Core

namespace Host

variable {κ : Type} [CongestionControl κ] {r s : Host κ}

/-- A host just opened by the SYN of a peer. -/
def Accepts (r : Host κ) : Prop :=
  ∃ loc remote syn iss now mss kind,
    r = fresh ((Tcb.newSynReceived loc remote syn iss now mss).setCongestionControl kind)

/-- SYN-RECEIVED was entered passively. -/
structure Passive (r : Host κ) : Prop where
  ok : r.Ok
  past : r.tcb.state ≠ .synSent
  half : r.tcb.state = .synReceived → r.tcb.HalfOpen

theorem Accepts.passive (h : r.Accepts) : r.Passive := by
  obtain ⟨loc, remote, syn, iss, now, mss, kind, rfl⟩ := h
  have hc := World.core_setCongestionControl
    (Tcb.newSynReceived loc remote syn iss now mss : Tcb κ) kind
  have ha : ((Tcb.newSynReceived loc remote syn iss now mss : Tcb κ).setCongestionControl kind).alarms =
      (none, none) := by
    unfold Tcb.setCongestionControl
    split <;> rfl
  have hok := (Opens.passive (κ := κ) loc remote syn iss now mss kind).ok
  generalize (Tcb.newSynReceived loc remote syn iss now mss : Tcb κ).setCongestionControl kind = t
    at hc ha hok
  have hst : t.state = .synReceived := congrArg Core.state hc
  refine ⟨hok, by simp [fresh, hst], fun _ => ⟨?_, ha⟩⟩
  show t.core.HalfOpen
  rw [hc]
  exact ⟨rfl, .inl rfl, rfl, rfl, ⟨synWindow, rfl, by decide, by decide⟩, rfl, rfl, rfl⟩

theorem Passive.input (h : r.Passive) (i : Input) : (r.input i).1.Passive := by
  refine ⟨h.ok.input i, (input_passes h.ok h.past i).state, fun hst => ?_⟩
  have hrec : r.tcb.state = .synReceived := by
    by_contra hne
    exact input_past h.ok h.past hne i hst
  have hh := h.half hrec
  cases i with
  | segment seg now ce => exact hh.onSegment now ce hst
  | send data =>
    have he : r.tcb.send data = (r.tcb, 0) := by
      simp [Tcb.send, hrec]
    show (r.tcb.send data).1.HalfOpen
    rw [he]
    exact hh
  | recv n =>
    have hc := hh.core
    exact ⟨⟨hc.state, hc.nxt, hc.una, hc.rcv, hc.room, hc.eof, hc.pending, hc.finAcked⟩, hh.alarms⟩
  | close =>
    have hc := hh.core
    exact ⟨⟨hc.state, hc.nxt, hc.una, hc.rcv, hc.room, hc.eof, hc.pending, hc.finAcked⟩, hh.alarms⟩
  | timer now => exact (hh.onTimer now).1
  | poll now => exact (hh.poll now).1

theorem passive_run {is : List Input} (h : r.Passive) (hr : Run.run step r is = some s) :
    s.Passive := by
  refine Run.run_invariant (fun t i t' ht he => ?_) h hr
  cases he
  exact ht.input i

/-! ## When the connection opens -/

/-- The input leaves no RST owed. -/
def NoReset (r : Host κ) (i : Input) : Prop := (r.input i).1.tcb.pendingReset = none

/-- `SND.NXT` is not behind where it was. -/
def NotBack (r : Host κ) (i : Input) : Prop := (r.input i).1.tcb.sndNxt.ge r.tcb.sndNxt = true

/-- ESTABLISHED, or beyond it by a close of the application. -/
def IsOpen (r : Host κ) : Prop :=
  r.tcb.state = .established ∨ r.tcb.finQueued = true ∧ r.tcb.state = .finWait1

/-- The SYN-ACK is out when the first ACK comes; `out` says that it is now. -/
def opens : Bool → List Input → Bool
  | _, [] => false
  | out, .segment seg _ _ :: is => if seg.tcp.flags.syn then opens false is else out
  | _, .poll _ :: is => opens true is
  | out, .timer _ :: is | out, .send _ :: is | out, .recv _ :: is | out, .close :: is => opens out is

/-- No duplicate of the SYN comes while the SYN-ACK is out, before the first ACK. -/
def keeps : Bool → List Input → Bool
  | _, [] => true
  | out, .segment seg _ _ :: is => if seg.tcp.flags.syn then !out && keeps out is else true
  | _, .poll _ :: is => keeps true is
  | out, .timer _ :: is | out, .send _ :: is | out, .recv _ :: is | out, .close :: is => keeps out is

variable {c : Core} {i : Input} {is : List Input}

/-- What the handshake brings keeps an open connection open. -/
theorem opened_input (hok : r.Ok) (h : r.tcb.Opened) (hiss : r.tcb.iss = c.iss)
    (hirs : r.tcb.irs = c.irs) (hi : c.Leg i) :
    (r.input i).1.tcb.Opened ∧ (r.input i).1.tcb.iss = c.iss ∧ (r.input i).1.tcb.irs = c.irs := by
  cases i with
  | segment seg now ce =>
    have hc := r.tcb.core_onSegment now seg.tcp ce
    rcases hi with hs | ⟨ha, -⟩
    · have hsame := h.core.onSyn (p := seg.tcp) ⟨hs.rst, hs.syn, hs.seq.trans hirs.symm⟩
      rw [hsame] at hc
      exact ⟨h.onSegment now ce (hsame.symm ▸ h.core),
        (congrArg (fun c : Core => c.iss) hc).trans hiss,
        (congrArg (fun c : Core => c.irs) hc).trans hirs⟩
    · have hack : r.tcb.core.IsAck seg.tcp := by
        refine ⟨ha.rst, ha.syn, ha.fin, ha.ack, ha.payload, ?_, ?_⟩
        · rw [ha.seq, ← hirs]
          rfl
        · rw [ha.at_iss, ← hiss]
          rfl
      obtain ⟨h1, h2, h3⟩ := h.core.onAck hack
      exact ⟨h.onSegment now ce h1, ((congrArg (fun c : Core => c.iss) hc).trans h2).trans hiss,
        ((congrArg (fun c : Core => c.irs) hc).trans h3).trans hirs⟩
  | timer now =>
    obtain ⟨h1, hc⟩ := h.onTimer now
    exact ⟨h1, (congrArg (fun c : Core => c.iss) hc).trans hiss,
      (congrArg (fun c : Core => c.irs) hc).trans hirs⟩
  | poll now =>
    have halarms := (r.tcb.alarms_pollTransmit now h.reset).trans h.alarms
    have hp := hok.polls now
    change (r.tcb.pollTransmit now).1.Opened ∧ (r.tcb.pollTransmit now).1.iss = _ ∧
      (r.tcb.pollTransmit now).1.irs = _
    generalize r.tcb.pollTransmit now = q at hp halarms ⊢
    obtain ⟨t, o⟩ := q
    dsimp only at hp halarms ⊢
    cases hp with
    | idle hc =>
      exact ⟨⟨hc ▸ h.core, halarms⟩, (congrArg (fun c : Core => c.iss) hc).trans hiss,
        (congrArg (fun c : Core => c.irs) hc).trans hirs⟩
    | rst _ hrst _ => exact absurd (h.reset.symm.trans hrst) (by simp)
    | syn hst _ =>
      rcases h.core.state with hs | ⟨-, hs⟩ <;> exact absurd (hs.symm.trans hst) (by simp)
    | segment _ _ _ hs hc =>
      obtain ⟨h1, h2⟩ := h.core.sent hs
      exact ⟨⟨hc ▸ h1, halarms⟩, ((congrArg (fun c : Core => c.iss) hc).trans h2).trans hiss,
        (congrArg (fun c : Core => c.irs) hc).trans hirs⟩
  | _ => exact absurd hi id

theorem opened_run (hok : r.Ok) (h : r.tcb.Opened) (hiss : r.tcb.iss = c.iss)
    (hirs : r.tcb.irs = c.irs) (hi : ∀ i ∈ is, c.Leg i) (hr : Run.run step r is = some s) :
    s.tcb.Opened ∧ Run.Along step NoReset r is := by
  induction is generalizing r with
  | nil =>
    cases hr
    exact ⟨h, trivial⟩
  | cons i is ih =>
    obtain ⟨h1, h2, h3⟩ := opened_input hok h hiss hirs (hi i List.mem_cons_self)
    have hrest := ih (hok.input i) h1 h2 h3 (fun j hj => hi j (List.mem_cons_of_mem i hj)) hr
    refine ⟨hrest.1, h1.reset, fun r' he => ?_⟩
    cases he
    exact hrest.2

/-- What comes before the first ACK leaves the connection half-open. -/
theorem halfOpen_input (h : r.tcb.HalfOpen) (hsame : Core.SameLegs c r.tcb.core) (hi : c.Leg i) :
    match i with
    | .segment seg _ _ => seg.tcp.flags.syn = true →
        (r.input i).1.tcb.HalfOpen ∧ Core.SameLegs c (r.input i).1.tcb.core ∧
          (r.input i).1.tcb.sndNxt = r.tcb.iss
    | .poll _ => (r.input i).1.tcb.HalfOpen ∧ Core.SameLegs c (r.input i).1.tcb.core ∧
        (r.input i).1.tcb.sndNxt = r.tcb.iss + 1
    | _ => (r.input i).1.tcb.HalfOpen ∧ (r.input i).1.tcb.core = r.tcb.core := by
  cases i with
  | segment seg now ce =>
    intro hsyn
    rcases hsame.leg hi with hs | ⟨ha, -⟩
    · obtain ⟨he, hh⟩ := h.onSyn hs now ce
      refine ⟨hh, ?_, ?_⟩
      · show Core.SameLegs c (r.tcb.onSegment now seg.tcp ce).core
        rw [he]
        exact ⟨hsame.iss, hsame.irs, hsame.tsEnabled, hsame.tsRecent⟩
      · show (r.tcb.onSegment now seg.tcp ce).sndNxt = _
        rw [he]
    · exact absurd (ha.syn.symm.trans hsyn) (by simp)
  | timer now => exact h.onTimer now
  | poll now =>
    obtain ⟨h1, h2, h3, h4, h5, h6⟩ := h.poll now
    exact ⟨h1, ⟨h3.trans hsame.iss, h4.trans hsame.irs,
      (congrArg Options.tsEnabled h5).trans hsame.tsEnabled, h6.trans hsame.tsRecent⟩, h2⟩
  | _ => exact absurd hi id

theorem along_cons {C : Host κ → Input → Prop} :
    Run.Along step C r (i :: is) ↔ C r i ∧ Run.Along step C (r.input i).1 is := by
  constructor
  · intro h
    exact ⟨h.1, h.2 _ rfl⟩
  · intro h
    refine ⟨h.1, fun r' he => ?_⟩
    cases he
    exact h.2

omit [CongestionControl κ] in
/-- The SYN-ACK is out, or it is not. -/
theorem out_iff {n : SeqNumber} (hn : r.tcb.sndNxt = n) :
    (n = r.tcb.iss → decide (r.tcb.sndNxt ≠ r.tcb.iss) = false) ∧
      (n = r.tcb.iss + 1 → decide (r.tcb.sndNxt ≠ r.tcb.iss) = true) := by
  constructor
  · intro he
    simp [hn, he]
  · intro he
    have := SeqNumber.add_ne_self r.tcb.iss (n := 1) (by decide)
    simp [hn, he, this]

/-- The connection opens, and owes no RST on the way, exactly if the SYN-ACK is
out when the first ACK comes. -/
theorem opens_iff (hok : r.Ok) (h : r.tcb.HalfOpen) (hsame : Core.SameLegs c r.tcb.core)
    (hi : ∀ i ∈ is, c.Leg i) (hr : Run.run step r is = some s) :
    (s.IsOpen ∧ Run.Along step NoReset r is) ↔
      opens (decide (r.tcb.sndNxt ≠ r.tcb.iss)) is = true := by
  induction is generalizing r with
  | nil =>
    cases hr
    have hst : s.tcb.state = .synReceived := h.core.state
    simp [IsOpen, hst, opens]
  | cons i is ih =>
    have hleg := hi i List.mem_cons_self
    have hrest : ∀ j ∈ is, c.Leg j := fun j hj => hi j (List.mem_cons_of_mem i hj)
    have hok' := hok.input i
    have hin := halfOpen_input h hsame hleg
    rw [along_cons]
    cases i with
    | segment seg now ce =>
      by_cases hsyn : seg.tcp.flags.syn = true
      · obtain ⟨h1, h2, h3⟩ := hin hsyn
        have hiss : (r.input (.segment seg now ce)).1.tcb.iss = r.tcb.iss := h2.iss.trans hsame.iss.symm
        have hiff := ih hok' h1 h2 hrest hr
        rw [(out_iff h3).1 hiss.symm] at hiff
        rw [opens, if_pos hsyn, ← hiff]
        exact ⟨fun hx => ⟨hx.1, hx.2.2⟩, fun hx => ⟨hx.1, h1.reset, hx.2⟩⟩
      · rcases hsame.leg hleg with hs | ⟨ha, hf⟩
        · exact absurd hs.syn hsyn
        obtain ⟨hopen, hclose⟩ := h.onAck ha hf now ce
        rw [opens, if_neg hsyn]
        rcases h.core.nxt with hn | hn
        · -- the ACK is of what was not sent yet
          rw [(out_iff hn).1 rfl]
          refine ⟨fun hx => ?_, fun hx => (by cases hx)⟩
          exact absurd ((hclose hn).1.symm.trans hx.2.1) (by simp)
        · rw [(out_iff hn).2 rfl]
          obtain ⟨ho, hiss, hirs⟩ := hopen hn
          obtain ⟨h1, h2⟩ := opened_run hok' ho (hiss.trans hsame.iss) (hirs.trans hsame.irs) hrest hr
          exact ⟨fun _ => rfl, fun _ => ⟨h1.core.state, ho.reset, h2⟩⟩
    | timer now =>
      obtain ⟨h1, hc⟩ := hin
      have hiff := ih hok' h1 (hc ▸ hsame) hrest hr
      rw [show (r.input (.timer now)).1.tcb.sndNxt = r.tcb.sndNxt from
          congrArg (fun c : Core => c.sndNxt) hc,
        show (r.input (.timer now)).1.tcb.iss = r.tcb.iss from congrArg (fun c : Core => c.iss) hc] at hiff
      rw [opens, ← hiff]
      exact ⟨fun hx => ⟨hx.1, hx.2.2⟩, fun hx => ⟨hx.1, h1.reset, hx.2⟩⟩
    | poll now =>
      obtain ⟨h1, h2, h3⟩ := hin
      have hiss : (r.input (.poll now)).1.tcb.iss = r.tcb.iss := h2.iss.trans hsame.iss.symm
      have hiff := ih hok' h1 h2 hrest hr
      rw [(out_iff h3).2 (by rw [hiss])] at hiff
      rw [opens, ← hiff]
      exact ⟨fun hx => ⟨hx.1, hx.2.2⟩, fun hx => ⟨hx.1, h1.reset, hx.2⟩⟩
    | _ => exact absurd hleg id

/-! ## When `SND.NXT` goes back -/

omit [CongestionControl κ] in
theorem ge_self (n : SeqNumber) : n.ge n = true := by
  rw [SeqNumber.ge_iff, SeqNumber.offsetFrom_self]
  omega

/-- Only a duplicate of the SYN moves `SND.NXT`. -/
theorem nxt_onSegment (hns : r.tcb.state ≠ .synSent) {p : TcpPacket}
    (hdup : r.tcb.core.dupSyn p = false) (now : Instant) (ce : Bool) :
    (r.tcb.onSegment now p ce).sndNxt = r.tcb.sndNxt := by
  have hcases := r.tcb.core.onSegment_takes p hns
  rw [← r.tcb.core_onSegment now p ce] at hcases
  generalize r.tcb.onSegment now p ce = t at hcases ⊢
  generalize hc : t.core = c at hcases
  cases hcases with
  | dropped _ _ => exact congrArg (fun c : Core => c.sndNxt) hc
  | reset _ _ => exact congrArg (fun c : Core => c.sndNxt) hc
  | synAgain hd => exact absurd (hdup.symm.trans hd) (by simp)
  | badAck _ _ _ _ => exact congrArg (fun c : Core => c.sndNxt) hc
  | taken _ _ =>
    refine (congrArg (fun c : Core => c.sndNxt) hc).trans ?_
    change (Core.ackedSend _ _).sndNxt = _
    unfold Core.ackedSend
    split
    · rfl
    · split <;> rfl

/-- Past SYN-RECEIVED nothing moves `SND.NXT` back. -/
theorem notBack_past (hok : r.Ok) (h1 : r.tcb.state ≠ .synSent) (h2 : r.tcb.state ≠ .synReceived)
    (i : Input) : r.NotBack i := by
  have hkeep : ∀ t : Tcb κ, t.sndNxt = r.tcb.sndNxt → t.sndNxt.ge r.tcb.sndNxt = true := by
    intro t ht
    rw [ht]
    exact ge_self _
  cases i with
  | segment seg now ce =>
    have hdup : r.tcb.core.dupSyn seg.tcp = false := by
      simp [Core.dupSyn, h2]
    exact hkeep _ (nxt_onSegment h1 hdup now ce)
  | send data =>
    rcases r.tcb.core_send' data with ⟨-, -, hc⟩ | ⟨-, hc⟩
    · exact hkeep _ (congrArg (fun c : Core => c.sndNxt) hc)
    · exact hkeep _ (congrArg (fun c : Core => c.sndNxt) hc)
  | recv n => exact hkeep (r.tcb.recv n).1 rfl
  | close => exact hkeep r.tcb.close rfl
  | timer now =>
    rcases r.tcb.core_onTimer now with hc | hc
    · exact hkeep _ (congrArg (fun c : Core => c.sndNxt) hc)
    · exact hkeep _ (congrArg (fun c : Core => c.sndNxt) hc)
  | poll now =>
    have hp := hok.polls now
    change (r.tcb.pollTransmit now).1.sndNxt.ge _ = true
    generalize r.tcb.pollTransmit now = q at hp ⊢
    obtain ⟨t, o⟩ := q
    dsimp only at hp ⊢
    cases hp with
    | idle hc => exact hkeep t (congrArg (fun c : Core => c.sndNxt) hc)
    | rst _ _ hc => exact hkeep t (congrArg (fun c : Core => c.sndNxt) hc)
    | syn hst _ => exact absurd hst h1
    | @segment t₀ seq extra payload sd st h0 _ hs hc =>
      have hnxt : t.sndNxt = sd.sndNxt := congrArg (fun c : Core => c.sndNxt) hc
      obtain ⟨_, -, -, hspec⟩ := sends_spec (c := r.tcb.core) hok.sending hok.phase hs
      have hle := hspec.nxt_le
      have hlt := hspec.sending.outstanding_le
      have hold : r.tcb.sndNxt = r.tcb.sndUna + r.tcb.core.toSendSpace.outstanding :=
        (SeqNumber.add_offsetFrom _ _).symm
      have hnew : sd.sndNxt = r.tcb.sndUna + sd.outstanding := by
        rw [← show sd.sndUna = r.tcb.sndUna from hspec.una_eq]
        exact (SeqNumber.add_offsetFrom _ _).symm
      rw [hnxt, hnew, hold, SeqNumber.pos_ge _ (by omega) (by omega)]
      exact decide_eq_true hle

theorem notBack_run (hok : r.Ok) (h1 : r.tcb.state ≠ .synSent) (h2 : r.tcb.state ≠ .synReceived) :
    Run.Along step NotBack r is := by
  induction is generalizing r with
  | nil => trivial
  | cons i is ih =>
    rw [along_cons]
    exact ⟨notBack_past hok h1 h2 i,
      ih (hok.input i) (input_passes hok h1 i).state (input_past hok h1 h2 i)⟩

/-- `SND.NXT` goes back exactly if a duplicate of the SYN finds the SYN-ACK out. -/
theorem keeps_iff (hok : r.Ok) (h : r.tcb.HalfOpen) (hsame : Core.SameLegs c r.tcb.core)
    (hi : ∀ i ∈ is, c.Leg i) :
    Run.Along step NotBack r is ↔ keeps (decide (r.tcb.sndNxt ≠ r.tcb.iss)) is = true := by
  induction is generalizing r with
  | nil => exact ⟨fun _ => rfl, fun _ => trivial⟩
  | cons i is ih =>
    have hleg := hi i List.mem_cons_self
    have hrest : ∀ j ∈ is, c.Leg j := fun j hj => hi j (List.mem_cons_of_mem i hj)
    have hok' := hok.input i
    have hin := halfOpen_input h hsame hleg
    rw [along_cons]
    cases i with
    | segment seg now ce =>
      by_cases hsyn : seg.tcp.flags.syn = true
      · obtain ⟨h1, h2, h3⟩ := hin hsyn
        have hiss : (r.input (.segment seg now ce)).1.tcb.iss = r.tcb.iss := h2.iss.trans hsame.iss.symm
        have hiff := ih hok' h1 h2 hrest
        rw [(out_iff h3).1 hiss.symm] at hiff
        have hback : r.NotBack (.segment seg now ce) ↔ r.tcb.sndNxt = r.tcb.iss := by
          unfold NotBack
          rw [h3]
          constructor
          · intro hge
            by_contra hne
            have hnxt : r.tcb.sndNxt = r.tcb.iss + 1 := h.core.nxt.resolve_left hne
            have hlt := SeqNumber.pos_ge r.tcb.iss (x := 0) (y := 1) (by omega) (by omega)
            rw [SeqNumber.add_zero, ← hnxt] at hlt
            exact absurd (hge.symm.trans hlt) (by simp)
          · intro he
            rw [he]
            exact ge_self _
        rw [hback, hiff, keeps, if_pos hsyn]
        rcases h.core.nxt with hn | hn
        · rw [(out_iff hn).1 rfl]
          exact ⟨fun hx => by simp [hx.2], fun hx => ⟨hn, by simpa using hx⟩⟩
        · rw [(out_iff hn).2 rfl]
          refine ⟨fun hx => ?_, fun hx => (by simp at hx)⟩
          exact absurd (hx.1.symm.trans hn) (SeqNumber.add_ne_self _ (by decide)).symm
      · rcases hsame.leg hleg with hs | ⟨ha, hf⟩
        · exact absurd hs.syn hsyn
        rw [keeps, if_neg hsyn]
        have hdup : r.tcb.core.dupSyn seg.tcp = false := by
          simp [Core.dupSyn, ha.syn]
        have hns : r.tcb.state ≠ .synSent := by
          rw [show r.tcb.state = .synReceived from h.core.state]
          simp
        have hsnd := nxt_onSegment hns hdup now ce
        have hpast : (r.tcb.onSegment now seg.tcp ce).state ≠ .synSent ∧
            (r.tcb.onSegment now seg.tcp ce).state ≠ .synReceived := by
          obtain ⟨hopen, hclose⟩ := h.onAck ha hf now ce
          rcases h.core.nxt with hn | hn
          · simp [(hclose hn).2]
          · rcases (hopen hn).1.core.state with hs | ⟨-, hs⟩ <;>
              rw [show (r.tcb.onSegment now seg.tcp ce).state = _ from hs] <;> simp
        refine ⟨fun _ => rfl, fun _ => ⟨?_, notBack_run hok' hpast.1 hpast.2⟩⟩
        unfold NotBack
        rw [show (r.input (.segment seg now ce)).1.tcb.sndNxt = r.tcb.sndNxt from hsnd]
        exact ge_self _
    | timer now =>
      obtain ⟨h1, hc⟩ := hin
      have hiff := ih hok' h1 (hc ▸ hsame) hrest
      rw [show (r.input (.timer now)).1.tcb.sndNxt = r.tcb.sndNxt from
          congrArg (fun c : Core => c.sndNxt) hc,
        show (r.input (.timer now)).1.tcb.iss = r.tcb.iss from congrArg (fun c : Core => c.iss) hc] at hiff
      rw [keeps, ← hiff]
      refine ⟨fun hx => hx.2, fun hx => ⟨?_, hx⟩⟩
      unfold NotBack
      rw [show (r.input (.timer now)).1.tcb.sndNxt = r.tcb.sndNxt from
        congrArg (fun c : Core => c.sndNxt) hc]
      exact ge_self _
    | poll now =>
      obtain ⟨h1, h2, h3⟩ := hin
      have hiss : (r.input (.poll now)).1.tcb.iss = r.tcb.iss := h2.iss.trans hsame.iss.symm
      have hiff := ih hok' h1 h2 hrest
      rw [(out_iff h3).2 (by rw [hiss])] at hiff
      rw [keeps, ← hiff]
      refine ⟨fun hx => hx.2, fun hx => ⟨?_, hx⟩⟩
      unfold NotBack
      rw [h3]
      rcases h.core.nxt with hn | hn
      · have hge := SeqNumber.pos_ge r.tcb.iss (x := 1) (y := 0) (by omega) (by omega)
        rw [SeqNumber.add_zero] at hge
        rw [show r.tcb.sndNxt = r.tcb.iss from hn, hge]
        rfl
      · rw [show r.tcb.sndNxt = r.tcb.iss + 1 from hn]
        exact ge_self _
    | _ => exact absurd hleg id

/-- From SYN-RECEIVED, among duplicates of the SYN and the ACK of the client, timers
and transmissions: the connection opens, no RST is owed and `SND.NXT` never goes
back, exactly if an ACK comes while the SYN-ACK is out and before any duplicate
that finds it out. -/
theorem duplicate_syn_harmless_iff {r₀ : Host κ} {before : List Input} (h₀ : r₀.Accepts)
    (hb : Run.run step r₀ before = some r) (hst : r.tcb.state = .synReceived)
    (hi : ∀ i ∈ is, r.tcb.core.Leg i) (hr : Run.run step r is = some s) :
    (s.IsOpen ∧ Run.Along step NoReset r is ∧ Run.Along step NotBack r is) ↔
      opens (decide (r.tcb.sndNxt ≠ r.tcb.iss)) is = true ∧
        keeps (decide (r.tcb.sndNxt ≠ r.tcb.iss)) is = true := by
  have hp := passive_run h₀.passive hb
  have hh := hp.half hst
  have hsame : Core.SameLegs r.tcb.core r.tcb.core := ⟨rfl, rfl, rfl, rfl⟩
  rw [← opens_iff hp.ok hh hsame hi hr, ← keeps_iff hp.ok hh hsame hi, and_assoc]

/-- The ACK of the client. -/
def clientAck : Segment := ⟨peerSegment 5001 {} Bytes.empty, Nat.zero_le _⟩

/-- The SYN once more and the ACK, in one batch. -/
def synThenAck : List Input :=
  [.segment ⟨peerSyn, Nat.zero_le _⟩ ⟨0⟩ false, .segment clientAck ⟨0⟩ false]

theorem duplicate_syn_harmless_clientAck : ∃ r s : Host Reno,
    Run.run step accepted [.poll ⟨0⟩] = some r ∧ Run.run step r [.segment clientAck ⟨0⟩ false] = some s ∧
      s.IsOpen ∧ Run.Along step NoReset r [.segment clientAck ⟨0⟩ false] ∧
        Run.Along step NotBack r [.segment clientAck ⟨0⟩ false] := by
  have hleg : ∀ i ∈ [Input.segment clientAck ⟨0⟩ false],
      ((accepted.input (.poll ⟨0⟩)).1).tcb.core.Leg i := by decide +kernel
  have hout : decide (((accepted.input (.poll ⟨0⟩)).1).tcb.sndNxt ≠
      ((accepted.input (.poll ⟨0⟩)).1).tcb.iss) = true := by decide +kernel
  refine ⟨(accepted.input (.poll ⟨0⟩)).1, _, rfl, rfl, ?_⟩
  have hacc : (accepted : Host Reno).Accepts := ⟨_, _, _, _, _, _, _, rfl⟩
  have hrun : Run.run step accepted [.poll ⟨0⟩] = some (accepted.input (.poll ⟨0⟩)).1 := rfl
  refine (duplicate_syn_harmless_iff hacc hrun (by decide +kernel) hleg rfl).mpr ?_
  rw [hout]
  decide

/-- The SYN once more and the ACK, ingested in one batch, close the connection
with a RST. -/
theorem synThenAck_closes : ∃ r s : Host Reno,
    Run.run step accepted [.poll ⟨0⟩] = some r ∧ r.tcb.state = .synReceived ∧
      (∀ i ∈ synThenAck, r.tcb.core.Leg i) ∧ Run.run step r synThenAck = some s ∧
      s.tcb.state = .closed ∧ s.tcb.pendingReset = some (SeqNumber.new 101) ∧
      ¬ Run.Along step NotBack r synThenAck := by
  refine ⟨(accepted.input (.poll ⟨0⟩)).1, _, rfl, by decide +kernel, by decide +kernel, rfl, by decide +kernel,
    by decide +kernel, fun h => ?_⟩
  exact absurd h.1 (by unfold NotBack; decide +kernel)

end Host

end Ferrumnet
