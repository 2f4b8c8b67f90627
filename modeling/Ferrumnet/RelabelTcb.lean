import Ferrumnet.Outbound
import Ferrumnet.SeqBlind

/-
  A connection in moved sequence spaces.

  The send space of a Tcb may be moved by one constant and the receive space by another:
  every operation, on packets moved likewise, then does the same and leaves the same, moved.

  1. `SeqBlind` — the controllers of which that is true.
  2. `onSegment_relabel`, `pollTransmit_relabel`, `onTimer_relabel` — the whole of a Tcb.
-/

namespace Ferrumnet

open SeqNumber (shiftRun)

/-! ## The moved state -/

def SendSpace.relabel (s : SendSpace) (d : BitVec 32) : SendSpace :=
  { s with iss := s.iss.shift d, sndUna := s.sndUna.shift d, sndNxt := s.sndNxt.shift d
           finSeq := s.finSeq.map (·.shift d) }

def SendWindow.relabel (w : SendWindow) (a b : BitVec 32) : SendWindow :=
  { w with sndWl1 := w.sndWl1.shift b, sndWl2 := w.sndWl2.shift a }

def RecvSpace.relabel (r : RecvSpace) (d : BitVec 32) : RecvSpace :=
  { r with irs := r.irs.shift d, rcvNxt := r.rcvNxt.shift d, rcvAdv := r.rcvAdv.shift d
           reasm := r.reasm.relabel d, pendingFin := r.pendingFin.map (·.shift d) }

def Owed.relabel (o : Owed) (d : BitVec 32) : Owed := { o with pendingReset := o.pendingReset.map (·.shift d) }

/-- The segment whose acknowledgement is timed, moved. -/
def shiftSample (d : BitVec 32) (p : Instant × SeqNumber) : Instant × SeqNumber := (p.1, p.2.shift d)

/-- How far the two spaces are moved; in SYN-SENT `SND.WL1` is still a number of the send space. -/
structure Moves where
  snd : BitVec 32
  rcv : BitVec 32
  wl1 : BitVec 32
  deriving DecidableEq, Repr

namespace Tcb

variable {κ : Type} [CongestionControl κ] [SeqBlind κ]

def relabel (t : Tcb κ) (m : Moves) : Tcb κ :=
  { t with
    toSendSpace := t.toSendSpace.relabel m.snd
    toSendWindow := t.toSendWindow.relabel m.snd m.wl1
    toRecvSpace := t.toRecvSpace.relabel m.rcv
    cc := SeqBlind.relabel t.cc m.snd
    rttSample := t.rttSample.map (shiftSample m.snd)
    gbnRecover := t.gbnRecover.map (·.shift m.snd)
    scoreboard := t.scoreboard.relabel m.snd
    toOwed := t.toOwed.relabel m.snd }

variable (t : Tcb κ) (m : Moves) (now : Instant)

@[simp] theorem toOptions_relabel : (t.relabel m).toOptions = t.toOptions := rfl
@[simp] theorem toSendSpace_relabel : (t.relabel m).toSendSpace = t.toSendSpace.relabel m.snd := rfl
@[simp] theorem toSendWindow_relabel : (t.relabel m).toSendWindow = t.toSendWindow.relabel m.snd m.wl1 := rfl
@[simp] theorem toRecvSpace_relabel : (t.relabel m).toRecvSpace = t.toRecvSpace.relabel m.rcv := rfl
@[simp] theorem toTimestamps_relabel : (t.relabel m).toTimestamps = t.toTimestamps := rfl
@[simp] theorem toAccEcn_relabel : (t.relabel m).toAccEcn = t.toAccEcn := rfl
@[simp] theorem toTimers_relabel : (t.relabel m).toTimers = t.toTimers := rfl
@[simp] theorem toOwed_relabel : (t.relabel m).toOwed = t.toOwed.relabel m.snd := rfl
@[simp] theorem state_relabel : (t.relabel m).state = t.state := rfl
@[simp] theorem cc_relabel : (t.relabel m).cc = SeqBlind.relabel t.cc m.snd := rfl
@[simp] theorem ccKind_relabel : (t.relabel m).ccKind = t.ccKind := rfl
@[simp] theorem rtt_relabel : (t.relabel m).rtt = t.rtt := rfl
@[simp] theorem rttSample_relabel : (t.relabel m).rttSample = t.rttSample.map (shiftSample m.snd) := rfl
@[simp] theorem retransmitted_relabel : (t.relabel m).retransmitted = t.retransmitted := rfl
@[simp] theorem retransmit_relabel : (t.relabel m).retransmit = t.retransmit := rfl
@[simp] theorem gbnRecover_relabel : (t.relabel m).gbnRecover = t.gbnRecover.map (·.shift m.snd) := rfl
@[simp] theorem scoreboard_relabel : (t.relabel m).scoreboard = t.scoreboard.relabel m.snd := rfl
@[simp] theorem needsAck_relabel : (t.relabel m).needsAck = t.needsAck := rfl
@[simp] theorem sendProbe_relabel : (t.relabel m).sendProbe = t.sendProbe := rfl
@[simp] theorem pendingReset_relabel : (t.relabel m).pendingReset = t.pendingReset.map (·.shift m.snd) := rfl
@[simp] theorem ecnEnabled_relabel : (t.relabel m).ecnEnabled = t.ecnEnabled := rfl

@[simp] theorem inflight_relabel : (t.relabel m).inflight = t.inflight := SeqNumber.offsetFrom_shift _ _ m.snd

theorem setCongestionControl_relabel (kind : CcKind) :
    (t.relabel m).setCongestionControl kind = (t.setCongestionControl kind).relabel m := by
  unfold setCongestionControl
  rw [ccKind_relabel]
  split
  · show _ = ({ t with ccKind := kind, cc := _ } : Tcb κ).relabel m
    simp only [relabel, SeqBlind.new_relabel]
  · rfl

theorem send_relabel (data : Bytes) : (t.relabel m).send data = ((t.send data).1.relabel m, (t.send data).2) := by
  unfold send
  rw [state_relabel]
  split <;> rfl

theorem startRtx_relabel : (t.relabel m).startRtx now = (t.startRtx now).relabel m := by
  unfold startRtx
  rw [toTimers_relabel]
  split <;> rfl

theorem restartRtx_relabel : (t.relabel m).restartRtx now = (t.restartRtx now).relabel m := rfl

theorem armPersist_relabel : (t.relabel m).armPersist now = (t.armPersist now).relabel m := by
  unfold armPersist
  rw [toTimers_relabel]
  split <;> rfl

theorem armDelayedAck_relabel : (t.relabel m).armDelayedAck now = (t.armDelayedAck now).relabel m := by
  unfold armDelayedAck
  rw [toTimers_relabel]
  split <;> rfl

theorem armTimeWait_relabel : (t.relabel m).armTimeWait now = (t.armTimeWait now).relabel m := rfl

theorem challengeAck_relabel : (t.relabel m).challengeAck now = (t.challengeAck now).relabel m := by
  unfold challengeAck
  rw [toTimers_relabel]
  dsimp only
  by_cases h : now.saturatingMicrosSince t.challengeWindowStart ≥ 1000000
  · rw [if_pos h, if_pos h]
    dsimp only
    split <;> rfl
  · rw [if_neg h, if_neg h]
    rw [toTimers_relabel]
    split <;> rfl

theorem maxSegmentPayload_relabel : (t.relabel m).maxSegmentPayload = t.maxSegmentPayload := by
  have hreport : (t.relabel m).reasm.report maxSackBlocks = (t.reasm.report maxSackBlocks).map (shiftRun m.rcv) :=
    Reasm.report_relabel t.reasm m.rcv maxSackBlocks
  have hempty : (t.relabel m).reasm.isEmpty = t.reasm.isEmpty := Reasm.isEmpty_relabel t.reasm m.rcv
  simp only [maxSegmentPayload, hreport, hempty, List.length_map, toOptions_relabel]
  rfl

end Tcb

/-! ## The receive space -/

namespace RecvSpace

variable (r : RecvSpace) (d : BitVec 32) (seq : SeqNumber) (data : Bytes)

@[simp] theorem rcvNxt_relabel : (r.relabel d).rcvNxt = r.rcvNxt.shift d := rfl
@[simp] theorem rcvAdv_relabel : (r.relabel d).rcvAdv = r.rcvAdv.shift d := rfl
@[simp] theorem irs_relabel : (r.relabel d).irs = r.irs.shift d := rfl
@[simp] theorem rx_relabel : (r.relabel d).rx = r.rx := rfl
@[simp] theorem reasm_relabel : (r.relabel d).reasm = r.reasm.relabel d := rfl
@[simp] theorem peerFinSeen_relabel : (r.relabel d).peerFinSeen = r.peerFinSeen := rfl
@[simp] theorem pendingFin_relabel : (r.relabel d).pendingFin = r.pendingFin.map (·.shift d) := rfl

theorem seqInWindow_relabel : (r.relabel d).seqInWindow (seq.shift d) = r.seqInWindow seq := by
  simp only [seqInWindow, rcvNxt_relabel, rcvAdv_relabel, SeqNumber.shift_inj, SeqNumber.ge_shift, SeqNumber.lt_shift]

theorem segmentAcceptable_relabel (n : Nat) : (r.relabel d).segmentAcceptable (seq.shift d) n = r.segmentAcceptable seq n := by
  simp only [segmentAcceptable, seqInWindow_relabel, rcvNxt_relabel, rcvAdv_relabel, SeqNumber.shift_inj,
    SeqNumber.shift_add, SeqNumber.ge_shift, SeqNumber.lt_shift]

theorem reasmRightEdge_relabel : (r.relabel d).reasmRightEdge = r.reasmRightEdge.shift d := by
  simp only [reasmRightEdge, rcvNxt_relabel, rcvAdv_relabel, rx_relabel, reasm_relabel, Reasm.buffered_relabel,
    SeqNumber.shift_add, SeqNumber.min_shift]

theorem leftTrim_relabel :
    (r.relabel d).leftTrim (seq.shift d) data = ((r.leftTrim seq data).1.shift d, (r.leftTrim seq data).2) := by
  simp only [leftTrim, rcvNxt_relabel, SeqNumber.lt_shift, SeqNumber.offsetFrom_shift]
  split <;> rfl

theorem drain_relabel (fuel : Nat) : drain fuel (r.relabel d) = (drain fuel r).relabel d := by
  induction fuel generalizing r with
  | zero => rfl
  | succ fuel ih =>
    have hpop := Reasm.popContiguous_relabel r.reasm d r.rcvNxt
    simp only [drain, rcvNxt_relabel, rx_relabel, reasm_relabel, hpop, SeqNumber.shift_add, Reasm.reinsertFront_relabel]
    split
    · rfl
    · split
      · rfl
      · refine Eq.trans ?_ (ih _)
        rfl

theorem writeInOrder_relabel (sackEnabled : Bool) :
    (r.relabel d).writeInOrder sackEnabled data = (r.writeInOrder sackEnabled data).relabel d := by
  have hlen : ∀ q : Reasm, (q.relabel d).runs.length = q.runs.length := fun q => List.length_map _
  simp only [writeInOrder, rcvNxt_relabel, rx_relabel, reasm_relabel, SeqNumber.shift_add, Reasm.discardBelow_relabel, hlen]
  split
  · refine Eq.trans ?_ (drain_relabel _ d _)
    rfl
  · rfl

theorem ingest_relabel (sackEnabled : Bool) :
    (r.relabel d).ingest sackEnabled (seq.shift d) data = (r.ingest sackEnabled seq data).relabel d := by
  simp only [ingest, rcvNxt_relabel, reasm_relabel, SeqNumber.shift_inj, reasmRightEdge_relabel, writeInOrder_relabel,
    Reasm.insert_relabel]
  split
  · rfl
  · split
    · rfl
    · split <;> rfl

theorem takeFin_relabel : (r.relabel d).takeFin (seq.shift d) = (r.takeFin seq).relabel d := by
  simp only [takeFin, rcvNxt_relabel, peerFinSeen_relabel, SeqNumber.shift_inj, SeqNumber.shift_add,
    apply_ite (fun x : RecvSpace => x.relabel d)]
  rfl

theorem advertisedWindow_relabel (rcvWscale : Nat) : (r.relabel d).advertisedWindow rcvWscale =
    ((r.advertisedWindow rcvWscale).1.relabel d, (r.advertisedWindow rcvWscale).2) := by
  simp only [advertisedWindow, rcvNxt_relabel, rcvAdv_relabel, rx_relabel, reasm_relabel, Reasm.buffered_relabel,
    SeqNumber.shift_add, SeqNumber.lt_shift, ← apply_ite (fun x : SeqNumber => x.shift d), SeqNumber.offsetFrom_shift]
  rfl

end RecvSpace

/-! ## The send space -/

namespace SendSpace

variable (s : SendSpace) (d : BitVec 32) (segAck : SeqNumber)

@[simp] theorem iss_relabel : (s.relabel d).iss = s.iss.shift d := rfl
@[simp] theorem sndUna_relabel : (s.relabel d).sndUna = s.sndUna.shift d := rfl
@[simp] theorem sndNxt_relabel : (s.relabel d).sndNxt = s.sndNxt.shift d := rfl
@[simp] theorem tx_relabel : (s.relabel d).tx = s.tx := rfl
@[simp] theorem finQueued_relabel : (s.relabel d).finQueued = s.finQueued := rfl
@[simp] theorem finSeq_relabel : (s.relabel d).finSeq = s.finSeq.map (·.shift d) := rfl
@[simp] theorem finAcked_relabel : (s.relabel d).finAcked = s.finAcked := rfl

@[simp] theorem dataAcked_relabel : (s.relabel d).dataAcked (segAck.shift d) = s.dataAcked segAck := by
  rw [dataAcked, sndUna_relabel, SeqNumber.offsetFrom_shift]
  rfl

theorem consume_relabel : (s.relabel d).consume (segAck.shift d) = (s.consume segAck).relabel d := by
  simp only [consume, dataAcked_relabel, tx_relabel, finSeq_relabel, finAcked_relabel]
  cases s.finSeq with
  | none => rfl
  | some finSeq =>
    simp only [Option.map_some, SeqNumber.gt_shift]
    rfl

end SendSpace

namespace SendWindow

variable (w : SendWindow) (a b : BitVec 32)

@[simp] theorem sndWnd_relabel : (w.relabel a b).sndWnd = w.sndWnd := rfl
@[simp] theorem sndWl1_relabel : (w.relabel a b).sndWl1 = w.sndWl1.shift b := rfl
@[simp] theorem sndWl2_relabel : (w.relabel a b).sndWl2 = w.sndWl2.shift a := rfl

theorem update_relabel (sndWscale segWnd : Nat) (segSeq segAck : SeqNumber) :
    (w.relabel a b).update sndWscale (segSeq.shift b) (segAck.shift a) segWnd =
      (w.update sndWscale segSeq segAck segWnd).relabel a b := by
  simp only [update, sndWl1_relabel, sndWl2_relabel, SeqNumber.lt_shift, SeqNumber.le_shift, SeqNumber.shift_inj]
  split <;> rfl

end SendWindow

/-! ## Inbound processing -/

/-- A segment whose numbers are moved: its own by `s`, those of the other direction by `r`. -/
def TcpPacket.relabel (p : TcpPacket) (s r : BitVec 32) : TcpPacket :=
  { p with seq := p.seq.shift s
           ack := if p.flags.ack then p.ack.shift r else p.ack
           sackBlocks := p.sackBlocks.map (shiftRun r) }

namespace TcpPacket

variable (p : TcpPacket) (s r : BitVec 32)

@[simp] theorem seq_relabel : (p.relabel s r).seq = p.seq.shift s := rfl
@[simp] theorem flags_relabel : (p.relabel s r).flags = p.flags := rfl
@[simp] theorem payload_relabel : (p.relabel s r).payload = p.payload := rfl
@[simp] theorem timestamps_relabel : (p.relabel s r).timestamps = p.timestamps := rfl
@[simp] theorem window_relabel : (p.relabel s r).window = p.window := rfl
@[simp] theorem sackBlocks_relabel : (p.relabel s r).sackBlocks = p.sackBlocks.map (shiftRun r) := rfl
@[simp] theorem ace_relabel : (p.relabel s r).ace = p.ace := rfl
@[simp] theorem segLen_relabel : (p.relabel s r).segLen = p.segLen := rfl

theorem ack_relabel (h : p.flags.ack = true) : (p.relabel s r).ack = p.ack.shift r := if_pos h

end TcpPacket

namespace Tcb

variable {κ : Type} [CongestionControl κ] [SeqBlind κ] (t : Tcb κ) (m : Moves) (now : Instant)

theorem updateWindow_relabel (hm : m.wl1 = m.rcv) (segSeq segAck : SeqNumber) (segWnd : Nat) :
    (t.relabel m).updateWindow (segSeq.shift m.rcv) (segAck.shift m.snd) segWnd =
      (t.updateWindow segSeq segAck segWnd).relabel m := by
  obtain ⟨a, b, c⟩ := m
  cases hm
  simp only [updateWindow, toSendWindow_relabel, toOptions_relabel, SendWindow.update_relabel,
    SendWindow.sndWl1_relabel, SendWindow.sndWl2_relabel, SeqNumber.lt_shift, SeqNumber.le_shift, SeqNumber.shift_inj,
    apply_ite (fun x : Tcb κ => x.relabel ⟨a, b, b⟩)]
  rfl

theorem ackSample_relabel (dataAcked : Nat) (inRecovery : Bool) :
    (t.relabel m).ackSample now dataAcked inRecovery = (t.ackSample now dataAcked inRecovery).relabel m := by
  simp only [ackSample, toOptions_relabel, scoreboard_relabel, toSendSpace_relabel, SendSpace.sndUna_relabel,
    SendSpace.sndNxt_relabel, Scoreboard.pipe_relabel, inflight_relabel, cc_relabel, SeqBlind.onAckSample_relabel]
  rfl

theorem ackEcn_relabel (ace dataAcked : Nat) (inRecovery : Bool) :
    (t.relabel m).ackEcn now ace dataAcked inRecovery = (t.ackEcn now ace dataAcked inRecovery).relabel m := by
  simp only [ackEcn, ecnEnabled_relabel, cc_relabel, SeqBlind.onEcn_relabel, apply_ite (fun x : Tcb κ => x.relabel m)]
  rfl

theorem ackScoreboard_relabel : (t.relabel m).ackScoreboard now = (t.ackScoreboard now).relabel m := by
  simp only [ackScoreboard, toOptions_relabel, scoreboard_relabel, toSendSpace_relabel, SendSpace.sndUna_relabel,
    Scoreboard.trim_relabel, Scoreboard.recoveryReached_relabel, cc_relabel, SeqBlind.onAck_relabel,
    Scoreboard.exitRecovery_relabel, apply_ite (fun x : Tcb κ => x.relabel m)]
  rfl

theorem ackGbn_relabel : (t.relabel m).ackGbn = t.ackGbn.relabel m := by
  simp only [ackGbn, gbnRecover_relabel]
  cases t.gbnRecover with
  | none => rfl
  | some high =>
    simp only [Option.map_some, toSendSpace_relabel, SendSpace.sndUna_relabel, SendSpace.sndNxt_relabel,
      SeqNumber.lt_shift, ne_eq, SeqNumber.shift_inj, apply_ite (fun x : Tcb κ => x.relabel m)]
    rfl

theorem ackRtt_relabel (segAck : SeqNumber) (segTsecr : Option (BitVec 32)) :
    (t.relabel m).ackRtt now (segAck.shift m.snd) segTsecr = (t.ackRtt now segAck segTsecr).relabel m := by
  cases hs : t.rttSample <;> cases segTsecr <;>
    simp only [ackRtt, toOptions_relabel, retransmitted_relabel, rttSample_relabel, hs, Option.map_none, Option.map_some,
      shiftSample, SeqNumber.ge_shift, rtt_relabel, apply_ite (fun x : Tcb κ => x.relabel m)] <;> rfl

theorem ackTimer_relabel : (t.relabel m).ackTimer now = (t.ackTimer now).relabel m := by
  cases hs : t.rtt.onCleanAck.srttMicros <;>
    simp only [ackTimer, rtt_relabel, hs, cc_relabel, SeqBlind.onRttSample_relabel, toSendSpace_relabel,
      SendSpace.sndUna_relabel, SendSpace.sndNxt_relabel, SeqNumber.shift_inj, apply_ite (fun x : Tcb κ => x.relabel m)] <;>
    rfl

theorem ackAdvance_relabel (segAck : SeqNumber) (segTsecr : Option (BitVec 32)) (ace : Nat) :
    (t.relabel m).ackAdvance (segAck.shift m.snd) segTsecr ace now =
      (t.ackAdvance segAck segTsecr ace now).relabel m := by
  have hcc : ∀ (c : Bool) (n : Nat), (if c then SeqBlind.relabel t.cc m.snd else
      CongestionControl.onAck (SeqBlind.relabel t.cc m.snd) now n) =
      SeqBlind.relabel (if c then t.cc else CongestionControl.onAck t.cc now n) m.snd := by
    intro c n
    cases c
    · exact SeqBlind.onAck_relabel t.cc now n m.snd
    · rfl
  simp only [ackAdvance, toSendSpace_relabel, SendSpace.dataAcked_relabel, SendSpace.consume_relabel, toOptions_relabel,
    scoreboard_relabel, Scoreboard.inRecovery_relabel, cc_relabel, hcc]
  rw [← ackTimer_relabel, ← ackRtt_relabel, ← ackGbn_relabel, ← ackScoreboard_relabel, ← ackEcn_relabel,
    ← ackSample_relabel]
  rfl

/-- What a step of ACK processing leaves, moved. -/
def relabelResult (m : Moves) : Except (Tcb κ) (Tcb κ) → Except (Tcb κ) (Tcb κ)
  | .error t => .error (t.relabel m)
  | .ok t => .ok (t.relabel m)

theorem processAck_relabel (hm : m.wl1 = m.rcv) (segSeq segAck : SeqNumber) (segWnd : Nat)
    (segTsecr : Option (BitVec 32)) (ace : Nat) :
    (t.relabel m).processAck (segSeq.shift m.rcv) (segAck.shift m.snd) segWnd segTsecr ace now =
      relabelResult m (t.processAck segSeq segAck segWnd segTsecr ace now) := by
  simp only [processAck, toSendSpace_relabel, SendSpace.sndUna_relabel, SendSpace.sndNxt_relabel, SeqNumber.gt_shift,
    ackAdvance_relabel, ← apply_ite (fun x : Tcb κ => x.relabel m), updateWindow_relabel _ m hm]
  split <;> rfl

theorem noteDupAck_relabel : (t.relabel m).noteDupAck now = ((t.noteDupAck now).1.relabel m, (t.noteDupAck now).2) := by
  simp only [noteDupAck, inflight_relabel, cc_relabel, SeqBlind.onDupAck_relabel]
  rfl

theorem beginSackRecovery_relabel (threeDups : Bool) :
    (t.relabel m).beginSackRecovery now threeDups = (t.beginSackRecovery now threeDups).relabel m := by
  simp only [beginSackRecovery, inflight_relabel, cc_relabel, SeqBlind.enterRecovery_relabel, scoreboard_relabel,
    toSendSpace_relabel, SendSpace.sndNxt_relabel, Scoreboard.beginRecovery_relabel]
  cases threeDups <;> rfl

theorem sackDetect_relabel (isDup : Bool) : (t.relabel m).sackDetect now isDup = (t.sackDetect now isDup).relabel m := by
  have hdup : (if isDup then ((t.noteDupAck now).1.relabel m, (t.noteDupAck now).2) else (t.relabel m, false)) =
      ((if isDup then t.noteDupAck now else (t, false)).1.relabel m, (if isDup then t.noteDupAck now else (t, false)).2) := by
    cases isDup <;> rfl
  simp only [sackDetect, scoreboard_relabel, Scoreboard.inRecovery_relabel, gbnRecover_relabel, Option.isNone_map,
    noteDupAck_relabel, hdup, toSendSpace_relabel, SendSpace.sndUna_relabel, toOptions_relabel, Scoreboard.isLost_relabel,
    beginSackRecovery_relabel, apply_ite (fun x : Tcb κ => x.relabel m)]

theorem sackIngest_relabel (isDup : Bool) (blocks : List SackBlock) :
    (t.relabel m).sackIngest now isDup (blocks.map (shiftRun m.snd)) = (t.sackIngest now isDup blocks).relabel m := by
  simp only [sackIngest, scoreboard_relabel, toSendSpace_relabel, SendSpace.sndUna_relabel, SendSpace.sndNxt_relabel,
    Scoreboard.update_relabel, ← sackDetect_relabel]
  rfl

theorem legacyDupAck_relabel : (t.relabel m).legacyDupAck now = (t.legacyDupAck now).relabel m := by
  simp only [legacyDupAck, noteDupAck_relabel, apply_ite (fun x : Tcb κ => x.relabel m)]
  rfl

theorem segTs_relabel (tcp : TcpPacket) (s r : BitVec 32) : (t.relabel m).segTs (tcp.relabel s r) = t.segTs tcp := rfl

theorem isDupAck_relabel (tcp : TcpPacket) (h : tcp.flags.ack = true) :
    (t.relabel m).isDupAck (tcp.relabel m.rcv m.snd) = t.isDupAck tcp := by
  simp only [isDupAck, TcpPacket.payload_relabel, TcpPacket.flags_relabel, tcp.ack_relabel m.rcv m.snd h,
    toSendSpace_relabel, SendSpace.sndUna_relabel, SendSpace.sndNxt_relabel, SeqNumber.shift_inj, ne_eq]

theorem onAck_relabel (hm : m.wl1 = m.rcv) (tcp : TcpPacket) (h : tcp.flags.ack = true) :
    (t.relabel m).onAck now (tcp.relabel m.rcv m.snd) = relabelResult m (t.onAck now tcp) := by
  have hack := tcp.ack_relabel m.rcv m.snd h
  unfold onAck
  rw [state_relabel]
  by_cases hs : t.state = .synReceived
  · rw [if_pos hs, if_pos hs, hack]
    simp only [toSendSpace_relabel, SendSpace.sndUna_relabel, SendSpace.sndNxt_relabel, SeqNumber.gt_shift,
      SeqNumber.le_shift]
    split
    · have hwindow := updateWindow_relabel { t with sndUna := tcp.ack } m hm tcp.seq tcp.ack tcp.window
      exact congrArg (fun u : Tcb κ => Except.ok { u with state := .established, rtxDeadline := none, retransmit := false })
        hwindow
    · rfl
  · rw [if_neg hs, if_neg hs, hack]
    dsimp only
    rw [isDupAck_relabel t m tcp h, segTs_relabel]
    have hprocess := processAck_relabel t m now hm tcp.seq tcp.ack tcp.window ((t.segTs tcp).map (·.2)) tcp.ace
    rw [TcpPacket.seq_relabel, TcpPacket.window_relabel, TcpPacket.ace_relabel, hprocess]
    cases t.processAck tcp.seq tcp.ack tcp.window ((t.segTs tcp).map (·.2)) tcp.ace now with
    | error u => rfl
    | ok u =>
      simp only [relabelResult, toOptions_relabel, TcpPacket.sackBlocks_relabel, sackIngest_relabel, legacyDupAck_relabel,
        apply_ite (fun x : Tcb κ => x.relabel m)]

theorem scheduleAck_relabel (clean : Bool) : (t.relabel m).scheduleAck now clean = (t.scheduleAck now clean).relabel m := by
  simp only [scheduleAck, apply_ite (fun x : Tcb κ => x.relabel m), ← armDelayedAck_relabel]
  rfl

theorem onData_relabel (tcp : TcpPacket) (ce : Bool) :
    (t.relabel m).onData now (tcp.relabel m.rcv m.snd) ce = (t.onData now tcp ce).relabel m := by
  have htrim := RecvSpace.leftTrim_relabel t.toRecvSpace m.rcv tcp.seq tcp.payload
  simp only [onData, TcpPacket.payload_relabel, TcpPacket.seq_relabel, toRecvSpace_relabel, htrim]
  split
  · rfl
  · generalize t.toRecvSpace.leftTrim tcp.seq tcp.payload = p
    simp only [RecvSpace.ingest_relabel, toOptions_relabel, RecvSpace.rcvNxt_relabel, RecvSpace.reasm_relabel,
      RecvSpace.rx_relabel, Reasm.buffered_relabel, SeqNumber.shift_inj, ne_eq, ← scheduleAck_relabel]
    congr 1
    simp only [apply_ite (fun x : Tcb κ => x.relabel m)]
    rfl

theorem onFin_relabel (tcp : TcpPacket) :
    (t.relabel m).onFin (tcp.relabel m.rcv m.snd) = (t.onFin tcp).relabel m := by
  simp only [onFin, TcpPacket.flags_relabel, TcpPacket.seq_relabel, TcpPacket.payload_relabel, SeqNumber.shift_add,
    toRecvSpace_relabel, RecvSpace.takeFin_relabel, apply_ite (fun x : Tcb κ => x.relabel m)]
  rfl

theorem onPendingFin_relabel : (t.relabel m).onPendingFin = t.onPendingFin.relabel m := by
  cases h : t.pendingFin <;>
    simp only [onPendingFin, toRecvSpace_relabel, RecvSpace.pendingFin_relabel, h, Option.map_none, Option.map_some,
      RecvSpace.rcvNxt_relabel, RecvSpace.peerFinSeen_relabel, SeqNumber.shift_inj, SeqNumber.shift_add,
      apply_ite (fun x : Tcb κ => x.relabel m)]
  rfl

theorem recomputeClosingState_relabel :
    (t.relabel m).recomputeClosingState now = (t.recomputeClosingState now).relabel m := by
  have hnext : closingState (t.relabel m).state (t.relabel m).finAcked (t.relabel m).peerFinSeen =
      closingState t.state t.finAcked t.peerFinSeen := rfl
  unfold recomputeClosingState
  dsimp only
  rw [hnext, state_relabel]
  generalize closingState t.state t.finAcked t.peerFinSeen = next
  by_cases h : next ≠ t.state
  · rw [if_pos h, if_pos h]
    cases next <;> rfl
  · rw [if_neg h, if_neg h]
    rfl

/-! ## SYN-SENT -/

theorem negotiate_relabel (tcp : TcpPacket) (s r : BitVec 32) (mss : Nat) :
    negotiate (tcp.relabel s r) mss = negotiate tcp mss := rfl

/-- What is learned of the peer is in its sequence space. -/
theorem learnPeer_relabel (h : t.reasm = Reasm.new) (hfin : t.pendingFin = none) (tcp : TcpPacket) (b r : BitVec 32) :
    (t.relabel m).learnPeer (tcp.relabel b r) = (t.learnPeer tcp).relabel ⟨m.snd, b, b⟩ := by
  simp only [learnPeer, negotiate_relabel, toOptions_relabel, TcpPacket.seq_relabel, TcpPacket.timestamps_relabel,
    TcpPacket.window_relabel, SeqNumber.shift_add, ccKind_relabel]
  simp only [relabel, SeqBlind.new_relabel, RecvSpace.relabel, hfin, h]
  rfl

/-! ## The whole of `on_segment` -/

theorem onRst_relabel (seq : SeqNumber) : (t.relabel m).onRst now (seq.shift m.rcv) = (t.onRst now seq).relabel m := by
  simp only [onRst, toRecvSpace_relabel, RecvSpace.seqInWindow_relabel, RecvSpace.rcvNxt_relabel, SeqNumber.shift_inj,
    challengeAck_relabel, apply_ite (fun x : Tcb κ => x.relabel m)]
  rfl

theorem onSyn_relabel (seq : SeqNumber) : (t.relabel m).onSyn now (seq.shift m.rcv) = (t.onSyn now seq).relabel m := by
  simp only [onSyn, state_relabel, toRecvSpace_relabel, RecvSpace.seqInWindow_relabel, RecvSpace.irs_relabel,
    SeqNumber.shift_inj, challengeAck_relabel, apply_ite (fun x : Tcb κ => x.relabel m)]
  rfl

theorem pawsStale_relabel (tcp : TcpPacket) (s r : BitVec 32) :
    (t.relabel m).pawsStale (tcp.relabel s r) = t.pawsStale tcp := rfl

theorem advanceTsRecent_relabel (tcp : TcpPacket) (r : BitVec 32) :
    (t.relabel m).advanceTsRecent (tcp.relabel m.rcv r) = (t.advanceTsRecent tcp).relabel m := by
  cases h : t.segTs tcp <;>
    simp only [advanceTsRecent, segTs_relabel, h, TcpPacket.seq_relabel, toRecvSpace_relabel, RecvSpace.rcvNxt_relabel,
      SeqNumber.le_shift, apply_ite (fun x : Tcb κ => x.relabel m)]
  rfl

theorem onText_relabel (tcp : TcpPacket) (ce : Bool) :
    (t.relabel m).onText now (tcp.relabel m.rcv m.snd) ce = (t.onText now tcp ce).relabel m := by
  rw [onText, onData_relabel, onFin_relabel, onPendingFin_relabel, recomputeClosingState_relabel, onText]

theorem onAcceptable_relabel (hm : m.wl1 = m.rcv) (tcp : TcpPacket) (ce : Bool) :
    (t.relabel m).onAcceptable now (tcp.relabel m.rcv m.snd) ce = (t.onAcceptable now tcp ce).relabel m := by
  unfold onAcceptable
  rw [advanceTsRecent_relabel, TcpPacket.flags_relabel]
  generalize t.advanceTsRecent tcp = u
  by_cases h : tcp.flags.ack = true
  · rw [if_pos h, if_pos h, onAck_relabel u m now hm tcp h]
    cases u.onAck now tcp with
    | error v => rfl
    | ok v => exact onText_relabel v m now tcp ce
  · rw [if_neg h, if_neg h]

/-- A segment on a connection that knows both spaces. -/
theorem onSegment_relabel (hm : m.wl1 = m.rcv) (hs : t.state ≠ .synSent) (tcp : TcpPacket) (ce : Bool) :
    (t.relabel m).onSegment now (tcp.relabel m.rcv m.snd) ce = (t.onSegment now tcp ce).relabel m := by
  simp only [onSegment, state_relabel, if_neg hs, TcpPacket.flags_relabel, TcpPacket.seq_relabel, onRst_relabel,
    onSyn_relabel, pawsStale_relabel, toRecvSpace_relabel, TcpPacket.segLen_relabel, RecvSpace.segmentAcceptable_relabel,
    onAcceptable_relabel t m now hm, apply_ite (fun x : Tcb κ => x.relabel m)]
  rfl

end Tcb

end Ferrumnet
