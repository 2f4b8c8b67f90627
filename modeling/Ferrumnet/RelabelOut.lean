import Ferrumnet.Outbound
import Ferrumnet.RelabelTcb

/-
  What a connection emits in moved sequence spaces: the same datagrams, moved.
-/

namespace Ferrumnet

open SeqNumber (shiftRun)

/-! ## Datagrams -/

/-- A segment whose numbers are moved: its own by `s`, those of the other direction by `r`. A
segment without ACK has no number of the other direction. -/
def TcpRepr.relabel (p : TcpRepr) (s r : BitVec 32) : TcpRepr :=
  { p with seq := p.seq.shift s
           ack := if p.flags.ack then p.ack.shift r else p.ack
           sack := p.sack.map (shiftRun r) }

def Datagram.relabel (d : Datagram) (s r : BitVec 32) : Datagram := { d with repr := d.repr.relabel s r }

theorem Datagram.parse_relabel (d : Datagram) (s r : BitVec 32) : (d.relabel s r).parse = d.parse.relabel s r := by
  have hcount : (d.repr.relabel s r).sackBlocksToEmit = d.repr.sackBlocksToEmit := by
    rw [TcpRepr.sackBlocksToEmit, TcpRepr.relabel, List.length_map]
    rfl
  simp only [parse, relabel, TcpPacket.relabel, hcount]
  simp only [TcpRepr.relabel, List.map_take]
  rfl

/-- A segment that says nothing of the other direction. -/
theorem Datagram.relabel_of_silent {d : Datagram} (hack : d.repr.flags.ack = false) (hsack : d.repr.sack = [])
    (s r r' : BitVec 32) : d.relabel s r = d.relabel s r' := by
  simp only [relabel, TcpRepr.relabel, hack, hsack, List.map_nil]
  rfl

namespace Tcb

variable {κ : Type} [CongestionControl κ] [SeqBlind κ] (t : Tcb κ) (m : Moves) (now : Instant) (seq : SeqNumber)
  (payload : Bytes)

/-- A step and what it emits, moved. -/
def Emit.relabel (m : Moves) (p : Emit κ) : Emit κ := (p.1.relabel m, p.2.map (·.relabel m.snd m.rcv))

theorem Emit.orElse_relabel (p : Emit κ) (next : Tcb κ → Emit κ) (h : ∀ t, next (t.relabel m) = (next t).relabel m) :
    (p.relabel m).orElse next = (p.orElse next).relabel m := by
  obtain ⟨u, d⟩ := p
  cases d with
  | none => exact h u
  | some d => rfl

theorem Emit.after_relabel (p : Emit κ) (f g : Tcb κ → Tcb κ) (h : ∀ t, g (t.relabel m) = (f t).relabel m) :
    (p.relabel m).after g = (p.after f).relabel m := Prod.ext (h p.1) rfl

theorem build_relabel (extra : TcpFlags) : (t.relabel m).build (seq.shift m.snd) extra payload =
    ((t.build seq extra payload).1.relabel m, (t.build seq extra payload).2.relabel m.snd m.rcv) := by
  have hack : (t.aceFlags { extra with ack := true }).1.ack = true := by
    unfold aceFlags
    split <;> rfl
  have hace : (t.relabel m).aceFlags { extra with ack := true } = t.aceFlags { extra with ack := true } := rfl
  simp only [build, toRecvSpace_relabel, toOptions_relabel, RecvSpace.advertisedWindow_relabel, hace,
    RecvSpace.reasm_relabel, Reasm.report_relabel, RecvSpace.rcvNxt_relabel, Datagram.relabel, TcpRepr.relabel,
    buildSegment, hack, if_true, apply_ite (fun l : List SackBlock => l.map (shiftRun m.rcv)), List.map_nil]
  rfl

theorem emit_relabel (extra : TcpFlags) :
    (t.relabel m).emit (seq.shift m.snd) extra payload = (t.emit seq extra payload).relabel m := by
  rw [emit, build_relabel]
  rfl

theorem emitOwedAck_relabel : (t.relabel m).emitOwedAck = t.emitOwedAck.relabel m := by
  simp only [emitOwedAck, needsAck_relabel, apply_ite (fun p : Emit κ => p.relabel m), ← emit_relabel]
  rfl

@[simp] theorem sentData_relabel : (t.relabel m).sentData = t.sentData := by
  rw [sentData, inflight_relabel]
  rfl

@[simp] theorem unsentData_relabel : (t.relabel m).unsentData = t.unsentData := by
  rw [unsentData, sentData_relabel]
  rfl

@[simp] theorem dataEnd_relabel : (t.relabel m).dataEnd = t.dataEnd.shift m.snd := SeqNumber.shift_add _ m.snd _

theorem resendOldest_relabel : (t.relabel m).resendOldest now = (t.resendOldest now).relabel m := by
  simp only [resendOldest, inflight_relabel, toSendSpace_relabel, SendSpace.tx_relabel, maxSegmentPayload_relabel,
    SendSpace.sndUna_relabel, SendSpace.finSeq_relabel, SendSpace.finAcked_relabel, emit_relabel]
  split
  · exact Emit.after_relabel m _ _ _ fun u => startRtx_relabel u m now
  · cases t.finSeq with
    | none => rfl
    | some finSeq =>
      simp only [Option.map_some, SeqNumber.shift_inj, emit_relabel]
      split
      · exact Emit.after_relabel m _ _ _ fun u => startRtx_relabel u m now
      · rfl

theorem retransmitOldest_relabel : (t.relabel m).retransmitOldest now = (t.retransmitOldest now).relabel m := by
  simp only [retransmitOldest, retransmit_relabel, inflight_relabel, apply_ite (fun p : Emit κ => p.relabel m),
    ← resendOldest_relabel]
  rfl

theorem noteRexmit_relabel (n : Nat) (isRescue : Bool) :
    (t.relabel m).noteRexmit (seq.shift m.snd) n isRescue = (t.noteRexmit seq n isRescue).relabel m := by
  simp only [noteRexmit, scoreboard_relabel, SeqNumber.shift_add, Scoreboard.markRexmit_relabel,
    Scoreboard.setRescueDone_relabel]
  cases isRescue <;> rfl

theorem sackRetransmit_relabel : (t.relabel m).sackRetransmit now = (t.sackRetransmit now).relabel m := by
  have hcwnd : CongestionControl.cwnd (t.relabel m).cc = CongestionControl.cwnd t.cc := SeqBlind.cwnd_relabel t.cc m.snd
  have hpipe := t.scoreboard.pipe_relabel m.snd t.sndUna t.sndNxt t.sndMss
  have hnext := t.scoreboard.nextSeg_relabel m.snd t.sndUna t.sndNxt t.sndMss
  unfold sackRetransmit
  rw [toOptions_relabel, scoreboard_relabel, toSendSpace_relabel, SendSpace.sndUna_relabel, SendSpace.sndNxt_relabel,
    hcwnd, hpipe, hnext, Scoreboard.inRecovery_relabel]
  by_cases h : (t.sackEnabled && t.scoreboard.inRecovery) = true
  · by_cases hroom : CongestionControl.cwnd t.cc > t.scoreboard.pipe t.sndUna t.sndNxt t.sndMss
    · rw [if_pos h, if_pos h, if_pos hroom, if_pos hroom]
      cases t.scoreboard.nextSeg t.sndUna t.sndNxt t.sndMss with
      | none => rfl
      | some p =>
        obtain ⟨seq, isRescue⟩ := p
        have hafter : ∀ n (u : Tcb κ), ((u.relabel m).noteRexmit (seq.shift m.snd) n isRescue).startRtx now =
            ((u.noteRexmit seq n isRescue).startRtx now).relabel m := by
          intro n u
          rw [noteRexmit_relabel, startRtx_relabel]
        rw [Option.map_some, Scoreboard.shiftSeg]
        dsimp only
        rw [SeqNumber.offsetFrom_shift, Scoreboard.unsackedRunLen_relabel, maxSegmentPayload_relabel, SendSpace.tx_relabel]
        generalize min (min (t.scoreboard.unsackedRunLen seq t.sndNxt) t.maxSegmentPayload)
          (t.tx.len - seq.offsetFrom t.sndUna) = n
        by_cases hn : n > 0
        · rw [if_pos hn, if_pos hn, emit_relabel]
          exact Emit.after_relabel m _ _ _ (hafter n)
        · rw [if_neg hn, if_neg hn]
          rfl
    · rw [if_pos h, if_pos h, if_neg hroom, if_neg hroom]
      rfl
  · rw [if_neg h, if_neg h]
    rfl

theorem paceAllowance_relabel (rate mss : Nat) : (t.relabel m).paceAllowance now rate mss =
    ((t.paceAllowance now rate mss).1.relabel m, (t.paceAllowance now rate mss).2) := rfl

theorem armPace_relabel (rate have' : Nat) : (t.relabel m).armPace now rate have' = (t.armPace now rate have').relabel m := rfl

theorem pace_relabel (allowed : Nat) :
    (t.relabel m).pace now allowed = ((t.pace now allowed).1.relabel m, (t.pace now allowed).2) := by
  unfold pace
  rw [cc_relabel, SeqBlind.pacingRate_relabel]
  cases CongestionControl.pacingRate t.cc with
  | none => rfl
  | some rate =>
    have hallow : ({ t.relabel m with paceDeadline := none } : Tcb κ).paceAllowance now rate (t.relabel m).maxSegmentPayload =
        ((({ t with paceDeadline := none } : Tcb κ).paceAllowance now rate t.maxSegmentPayload).1.relabel m,
          (({ t with paceDeadline := none } : Tcb κ).paceAllowance now rate t.maxSegmentPayload).2) := by
      rw [maxSegmentPayload_relabel]
      rfl
    simp only [hallow, unsentData_relabel, armPace_relabel, apply_ite (fun x : Tcb κ => x.relabel m)]

@[simp] theorem rwndRoom_relabel : (t.relabel m).rwndRoom = t.rwndRoom := by
  rw [rwndRoom, inflight_relabel]
  rfl

@[simp] theorem cwndRoom_relabel : (t.relabel m).cwndRoom = t.cwndRoom := by
  simp only [cwndRoom, toOptions_relabel, scoreboard_relabel, toSendSpace_relabel, SendSpace.sndUna_relabel,
    SendSpace.sndNxt_relabel, Scoreboard.pipe_relabel, inflight_relabel, cc_relabel, SeqBlind.cwnd_relabel]

theorem noteSent_relabel (n room : Nat) : (t.relabel m).noteSent now n room = (t.noteSent now n room).relabel m := by
  have hnone : (t.rttSample.map (shiftSample m.snd)).isNone = t.rttSample.isNone := Option.isNone_map
  simp only [noteSent, inflight_relabel, unsentData_relabel, toSendSpace_relabel, SendSpace.sndNxt_relabel,
    SeqNumber.shift_add, rttSample_relabel, hnone, retransmitted_relabel]
  by_cases hsample : (t.rttSample.isNone && !t.retransmitted) = true <;>
    by_cases hrate : (CongestionControl.pacingRate t.cc).isSome = true <;>
      simp [hsample, hrate, relabel, SendSpace.relabel, SeqBlind.pacingRate_relabel, SeqBlind.onTransmit_relabel, shiftSample]

theorem sendAllowed_relabel (allowed room : Nat) :
    (t.relabel m).sendAllowed now allowed room = (t.sendAllowed now allowed room).relabel m := by
  unfold sendAllowed
  rw [unsentData_relabel, maxSegmentPayload_relabel, sentData_relabel, toSendSpace_relabel, SendSpace.sndNxt_relabel,
    SendSpace.tx_relabel]
  dsimp only
  generalize min (min allowed t.unsentData) t.maxSegmentPayload = n
  by_cases hn : n > 0
  · rw [if_pos hn, if_pos hn, emit_relabel]
    apply Emit.after_relabel
    intro u
    rw [noteSent_relabel, startRtx_relabel]
  · rw [if_neg hn, if_neg hn]
    rfl

theorem probe_relabel : (t.relabel m).probe = t.probe.relabel m := by
  simp only [probe, sendProbe_relabel, apply_ite (fun p : Emit κ => p.relabel m), ← emit_relabel]
  rfl

theorem sendNewData_relabel : (t.relabel m).sendNewData now = (t.sendNewData now).relabel m := by
  unfold sendNewData
  dsimp only
  rw [cwndRoom_relabel, rwndRoom_relabel, pace_relabel, unsentData_relabel, inflight_relabel]
  dsimp only
  rw [sendAllowed_relabel, armPersist_relabel, probe_relabel]
  simp only [apply_ite (fun p : Emit κ => p.relabel m)]
  rfl

theorem noteFin_relabel : (t.relabel m).noteFin now = (t.noteFin now).relabel m := by
  have hstart := startRtx_relabel { t with finSeq := some t.dataEnd, sndNxt := t.dataEnd + 1 } m now
  unfold noteFin
  rw [dataEnd_relabel, SeqNumber.shift_add]
  exact congrArg (fun u : Tcb κ => { u with state := finState u.state }) hstart

theorem sendFin_relabel : (t.relabel m).sendFin now = (t.sendFin now).relabel m := by
  simp only [sendFin, toSendSpace_relabel, SendSpace.finQueued_relabel, SendSpace.finAcked_relabel,
    SendSpace.sndNxt_relabel, dataEnd_relabel, SeqNumber.shift_inj, emit_relabel]
  by_cases h : (t.finQueued && !t.finAcked && t.sndNxt = t.dataEnd) = true
  · simp only [if_pos h]
    apply Emit.after_relabel
    intro u
    exact noteFin_relabel u m now
  · simp only [if_neg h]
    rfl

theorem transmitDataOrFin_relabel : (t.relabel m).transmitDataOrFin now = (t.transmitDataOrFin now).relabel m := by
  unfold transmitDataOrFin
  rw [retransmitOldest_relabel, Emit.orElse_relabel, Emit.orElse_relabel, Emit.orElse_relabel]
  · intro u
    exact sendFin_relabel u m now
  · intro u
    exact sendNewData_relabel u m now
  · intro u
    exact sackRetransmit_relabel u m now

/-! ## `poll_transmit` -/

theorem pollSynSent_relabel : (t.relabel m).pollSynSent now = (t.pollSynSent now).relabel m := by
  have hopen : ({ t.relabel m with sndNxt := (t.iss + 1).shift m.snd } : Tcb κ).startRtx now =
      (({ t with sndNxt := t.iss + 1 } : Tcb κ).startRtx now).relabel m :=
    startRtx_relabel { t with sndNxt := t.iss + 1 } m now
  simp only [pollSynSent, toSendSpace_relabel, SendSpace.sndNxt_relabel, SendSpace.iss_relabel, SeqNumber.shift_inj,
    SeqNumber.shift_add, retransmit_relabel]
  by_cases h : t.sndNxt = t.iss
  · simp only [if_pos h]
    exact Prod.ext hopen rfl
  · simp only [if_neg h, apply_ite (fun p : Emit κ => p.relabel m)]
    rfl

theorem pollSynReceived_relabel : (t.relabel m).pollSynReceived now = (t.pollSynReceived now).relabel m := by
  have hopen : ∀ u : Tcb κ, ({ u.relabel m with sndNxt := (u.relabel m).iss + 1 } : Tcb κ).startRtx now =
      (({ u with sndNxt := u.iss + 1 } : Tcb κ).startRtx now).relabel m := by
    intro u
    rw [← startRtx_relabel, toSendSpace_relabel, SendSpace.iss_relabel, SeqNumber.shift_add]
    rfl
  unfold pollSynReceived
  rw [toSendSpace_relabel, SendSpace.sndNxt_relabel, SendSpace.iss_relabel, emit_relabel, retransmit_relabel,
    emitOwedAck_relabel, Emit.after_relabel m _ _ _ hopen]
  simp only [SeqNumber.shift_inj, apply_ite (fun p : Emit κ => p.relabel m), ← emit_relabel]
  rfl

/-- The next datagram of a moved connection is the next one, moved. -/
theorem pollTransmit_relabel : (t.relabel m).pollTransmit now = (t.pollTransmit now).relabel m := by
  have hstamp : ({ t.relabel m with curTsval := BitVec.ofNat 32 now.micros } : Tcb κ) =
      ({ t with curTsval := BitVec.ofNat 32 now.micros } : Tcb κ).relabel m := rfl
  unfold pollTransmit
  rw [hstamp]
  generalize ({ t with curTsval := BitVec.ofNat 32 now.micros } : Tcb κ) = u
  dsimp only
  rw [pendingReset_relabel]
  cases u.pendingReset with
  | some seq => rfl
  | none =>
    rw [Option.map_none]
    dsimp only
    rw [state_relabel, pollSynSent_relabel, pollSynReceived_relabel, emitOwedAck_relabel, transmitDataOrFin_relabel,
      Emit.orElse_relabel m _ _ fun v => emitOwedAck_relabel v m]
    cases u.state <;> rfl

/-! ## Timers -/

theorem synTimeout_relabel : (t.relabel m).synTimeout now = (t.synTimeout now).relabel m := by
  simp only [synTimeout, apply_ite (fun x : Tcb κ => x.relabel m)]
  rfl

theorem rtxTimeout_relabel : (t.relabel m).rtxTimeout now = (t.rtxTimeout now).relabel m := by
  unfold rtxTimeout
  rw [toOptions_relabel, cc_relabel, inflight_relabel, SeqBlind.onRto_relabel, scoreboard_relabel,
    Scoreboard.onRto_relabel]
  by_cases h : t.sackEnabled = true
  · simp only [if_pos h]
    rfl
  · simp only [if_neg h]
    rfl

theorem onRtxTimer_relabel : (t.relabel m).onRtxTimer now = (t.onRtxTimer now).relabel m := by
  simp only [onRtxTimer, toTimers_relabel, state_relabel, synTimeout_relabel, rtxTimeout_relabel,
    apply_ite (fun x : Tcb κ => x.relabel m)]

theorem onPersistTimer_relabel : (t.relabel m).onPersistTimer now = (t.onPersistTimer now).relabel m := by
  simp only [onPersistTimer, toTimers_relabel, apply_ite (fun x : Tcb κ => x.relabel m)]
  rfl

theorem onTimeWaitTimer_relabel : (t.relabel m).onTimeWaitTimer now = (t.onTimeWaitTimer now).relabel m := by
  simp only [onTimeWaitTimer, toTimers_relabel, apply_ite (fun x : Tcb κ => x.relabel m)]
  rfl

theorem onDelayedAckTimer_relabel : (t.relabel m).onDelayedAckTimer now = (t.onDelayedAckTimer now).relabel m := by
  simp only [onDelayedAckTimer, toTimers_relabel, apply_ite (fun x : Tcb κ => x.relabel m)]
  rfl

theorem onTimer_relabel : (t.relabel m).onTimer now = (t.onTimer now).relabel m := by
  rw [onTimer, onRtxTimer_relabel, onPersistTimer_relabel, onTimeWaitTimer_relabel, onDelayedAckTimer_relabel, onTimer]

end Tcb

end Ferrumnet
