import Ferrumnet.Inbound

/-
  Outbound processing (`Tcb::poll_transmit`) and the timers (`Tcb::on_timer`).

  `pollTransmit` produces at most one datagram. The data path tries its sources
  in the source's order, and each source is one function: the go-back-N
  retransmission, the SACK retransmission, new data or the window probe, the
  FIN. A source that emits nothing may still change the state (it consumes the
  retransmit flag, or arms a timer), and the next one starts from there.
-/

namespace Ferrumnet

/-- The window to advertise, with the right edge it moves to: free space, and
never left of what was advertised before. -/
def RecvSpace.advertisedWindow (r : RecvSpace) (rcvWscale : Nat) : RecvSpace × Nat :=
  let occupied := r.rx.len + r.reasm.buffered
  let free := min (rxBuffer - occupied) (65535 <<< rcvWscale)
  let candidate := r.rcvNxt + free
  let right := if candidate.lt r.rcvAdv then r.rcvAdv else candidate
  ({ r with rcvAdv := right }, right.offsetFrom r.rcvNxt)

/-- The window field of a segment: scaled, except on a SYN. -/
def windowField (syn : Bool) (rcvWscale window : Nat) : Nat :=
  min (if syn then window else window >>> rcvWscale) 65535

namespace Tcb

variable {κ : Type} [CongestionControl κ]

/-- A state and the datagram it emits, if any. -/
abbrev Emit (κ : Type) := Tcb κ × Option Datagram

/-- Try `next` when `p` emitted nothing. -/
def Emit.orElse (p : Emit κ) (next : Tcb κ → Emit κ) : Emit κ :=
  match p with
  | (t, some d) => (t, some d)
  | (t, none) => next t

/-! ## Building segments -/

/-- The AccECN counter on the three bits of a segment that is not a SYN. -/
def aceFlags (t : Tcb κ) (flags : TcpFlags) : TcpFlags × Bool :=
  if t.ecnEnabled && !flags.syn then
    ({ flags with ece := flags.ece || t.accecnCep % 2 = 1
                  cwr := flags.cwr || t.accecnCep / 2 % 2 = 1 },
      t.accecnCep / 4 % 2 = 1)
  else (flags, false)

/-- Build a segment carrying ACK, `extra` and the advertised window. It
satisfies a pending delayed ACK. -/
def build (t : Tcb κ) (seq : SeqNumber) (extra : TcpFlags) (payload : Bytes) : Tcb κ × Datagram :=
  let adv := t.toRecvSpace.advertisedWindow t.rcvWscale
  let ace := t.aceFlags { extra with ack := true }
  let repr : TcpRepr :=
    { srcPort := t.localEnd.port
      dstPort := t.remote.port
      seq := seq
      ack := t.rcvNxt
      flags := ace.1
      window := windowField extra.syn t.rcvWscale adv.2
      mss := if extra.syn then some t.mssAdvertise else none
      sackPermitted := extra.syn && t.sackEnabled
      sack := if t.sackEnabled && !extra.syn then t.reasm.report maxSackBlocks else []
      windowScale := if extra.syn && t.windowScaling then some t.rcvWscale else none
      timestamps := if t.tsEnabled then some (t.curTsval, t.tsRecent) else none
      ae := ace.2 }
  ({ t with toRecvSpace := adv.1, delayedAckDeadline := none, unackedSegs := 0 },
    buildSegment t.localEnd t.remote repr payload)

/-- The SYN of an active open: every option is offered. -/
def buildSyn (t : Tcb κ) : Datagram :=
  buildSegment t.localEnd t.remote
    { srcPort := t.localEnd.port
      dstPort := t.remote.port
      seq := t.iss
      ack := SeqNumber.new 0
      flags := { syn := true }
      window := synWindow
      mss := some t.mssAdvertise
      sackPermitted := true
      sack := []
      windowScale := some rcvWscaleOffer
      timestamps := some (t.curTsval, 0)
      ae := false } Bytes.empty

/-- A bare RST at `seq`. -/
def buildRst (t : Tcb κ) (seq : SeqNumber) : Datagram :=
  buildSegment t.localEnd t.remote
    { srcPort := t.localEnd.port
      dstPort := t.remote.port
      seq := seq
      ack := SeqNumber.new 0
      flags := { rst := true }
      window := 0
      mss := none
      sackPermitted := false
      sack := []
      windowScale := none
      timestamps := none
      ae := false } Bytes.empty

/-- `build`, as the emission of a step. -/
def emit (t : Tcb κ) (seq : SeqNumber) (extra : TcpFlags) (payload : Bytes) : Emit κ :=
  ((t.build seq extra payload).1, some (t.build seq extra payload).2)

/-- Change the state behind an emission. -/
def Emit.after (p : Emit κ) (f : Tcb κ → Tcb κ) : Emit κ := (f p.1, p.2)

/-- The pure ACK that is owed, at `SND.NXT`. -/
def emitOwedAck (t : Tcb κ) : Emit κ :=
  if t.needsAck then { t with needsAck := false }.emit t.sndNxt {} Bytes.empty
  else (t, none)

/-! ## The data path -/

def sentData (t : Tcb κ) : Nat := min t.inflight t.tx.len
def unsentData (t : Tcb κ) : Nat := t.tx.len - t.sentData
def dataEnd (t : Tcb κ) : SeqNumber := t.sndUna + t.tx.len

/-- Resend the oldest unacknowledged segment from `SND.UNA`, or the FIN when it
is all that is left in flight. `SND.NXT` does not move. -/
def resendOldest (t : Tcb κ) (now : Instant) : Emit κ :=
  let n := min (min t.inflight t.tx.len) t.maxSegmentPayload
  if n > 0 then
    (t.emit t.sndUna { psh := n = t.tx.len } (t.tx.peek 0 n)).after (·.startRtx now)
  else
    match t.finSeq with
    | some finSeq =>
      if !t.finAcked && t.sndUna = finSeq then
        (t.emit finSeq { fin := true } Bytes.empty).after (·.startRtx now)
      else (t, none)
    | none => (t, none)

/-- Step 0: a pending go-back-N retransmission. -/
def retransmitOldest (t : Tcb κ) (now : Instant) : Emit κ :=
  if t.retransmit && t.inflight > 0 then { t with retransmit := false }.resendOldest now
  else (t, none)

/-- The state behind a SACK retransmission of `[seq, seq + n)`. -/
def noteRexmit (t : Tcb κ) (seq : SeqNumber) (n : Nat) (isRescue : Bool) : Tcb κ :=
  let s := t.scoreboard.markRexmit seq (seq + n)
  { t with scoreboard := if isRescue then s.setRescueDone else s
           retransmitted := true
           rttSample := none }

/-- Step 0.5: in SACK recovery, repair the next hole while `cwnd > pipe`. -/
def sackRetransmit (t : Tcb κ) (now : Instant) : Emit κ :=
  if t.sackEnabled && t.scoreboard.inRecovery then
    if CongestionControl.cwnd t.cc > t.scoreboard.pipe t.sndUna t.sndNxt t.sndMss then
      match t.scoreboard.nextSeg t.sndUna t.sndNxt t.sndMss with
      | some (seq, isRescue) =>
        let off := seq.offsetFrom t.sndUna
        let hole := t.scoreboard.unsackedRunLen seq t.sndNxt
        let n := min (min hole t.maxSegmentPayload) (t.tx.len - off)
        if n > 0 then
          (t.emit seq { psh := off + n = t.tx.len } (t.tx.peek off n)).after
            fun t => (t.noteRexmit seq n isRescue).startRtx now
        else (t, none)
      | none => (t, none)
    else (t, none)
  else (t, none)

/-- Replenish the token bucket; also returns what pacing permits now. -/
def paceAllowance (t : Tcb κ) (now : Instant) (rate mss : Nat) : Tcb κ × Nat :=
  let elapsed := now.saturatingMicrosSince t.paceLast
  let earned := min (elapsed * rate) Instant.u64Max / 1000000
  let cap := max (rate / 1000) (2 * mss)
  let tokens := min (min (t.paceTokens + earned) Instant.u64Max) cap
  ({ t with paceTokens := tokens, paceLast := now }, min tokens u32Max)

/-- Arm the pacing timer for one more segment's worth of credit. -/
def armPace (t : Tcb κ) (now : Instant) (rate have' : Nat) : Tcb κ :=
  let need := t.sndMss - have'
  let waitUs := max (RttEstimator.divCeil (min (need * 1000000) Instant.u64Max) (max rate 1)) 1
  { t with paceDeadline := some (now.plusMicros waitUs) }

/-- The pacing gate; inert for a window-only controller. -/
def pace (t : Tcb κ) (now : Instant) (allowed : Nat) : Tcb κ × Nat :=
  match CongestionControl.pacingRate t.cc with
  | none => (t, allowed)
  | some rate =>
    let p := { t with paceDeadline := none }.paceAllowance now rate t.maxSegmentPayload
    let t := if p.2 < allowed && t.unsentData > 0 then p.1.armPace now rate p.2 else p.1
    (t, min allowed p.2)

/-- The bytes the peer's window still allows. -/
def rwndRoom (t : Tcb κ) : Nat := t.sndWnd - t.inflight

/-- The bytes the congestion window still allows. -/
def cwndRoom (t : Tcb κ) : Nat :=
  let pipe :=
    if t.sackEnabled then t.scoreboard.pipe t.sndUna t.sndNxt t.sndMss else t.inflight
  CongestionControl.cwnd t.cc - pipe

/-- The state behind a transmission of `n` new bytes, of which `room` fitted. -/
def noteSent (t : Tcb κ) (now : Instant) (n room : Nat) : Tcb κ :=
  let inflight := t.inflight
  let appLimited := n = t.unsentData && room > n
  let t := { t with sndNxt := t.sndNxt + n }
  let t :=
    if t.rttSample.isNone && !t.retransmitted then { t with rttSample := some (now, t.sndNxt) }
    else t
  let t :=
    if (CongestionControl.pacingRate t.cc).isSome then { t with paceTokens := t.paceTokens - n }
    else t
  { t with cc := CongestionControl.onTransmit t.cc now t.sndNxt n inflight appLimited }

/-- Send up to `allowed` new bytes; `room` is what the windows had. -/
def sendAllowed (t : Tcb κ) (now : Instant) (allowed room : Nat) : Emit κ :=
  let n := min (min allowed t.unsentData) t.maxSegmentPayload
  if n > 0 then
    (t.emit t.sndNxt { psh := t.sentData + n = t.tx.len } (t.tx.peek t.sentData n)).after
      fun t => (t.noteSent now n room).startRtx now
  else (t, none)

/-- The one-byte window probe at `SND.UNA`; `SND.NXT` does not move for it. -/
def probe (t : Tcb κ) : Emit κ :=
  if t.sendProbe then { t with sendProbe := false }.emit t.sndUna {} (t.tx.peek 0 1)
  else (t, none)

/-- Step 1: new data the windows and pacing allow; with a zero peer window and
nothing in flight, a probe. -/
def sendNewData (t : Tcb κ) (now : Instant) : Emit κ :=
  let room := min t.cwndRoom t.rwndRoom
  let p := t.pace now room
  if p.2 > 0 then p.1.sendAllowed now p.2 room
  else if t.unsentData > 0 && t.inflight = 0 && t.rwndRoom = 0 then (p.1.armPersist now).probe
  else (p.1, none)

/-- The closing state that sending the FIN enters. -/
def finState : State → State
  | .established => .finWait1
  | .closeWait => .lastAck
  | other => other

/-- The state behind our FIN at `dataEnd`. -/
def noteFin (t : Tcb κ) (now : Instant) : Tcb κ :=
  let t := { t with finSeq := some t.dataEnd, sndNxt := t.dataEnd + 1 }.startRtx now
  { t with state := finState t.state }

/-- Step 2: our FIN, once all data is sent. It goes out into a zero window too. -/
def sendFin (t : Tcb κ) (now : Instant) : Emit κ :=
  if t.finQueued && !t.finAcked && t.sndNxt = t.dataEnd then
    (t.emit t.dataEnd { fin := true } Bytes.empty).after (·.noteFin now)
  else (t, none)

def transmitDataOrFin (t : Tcb κ) (now : Instant) : Emit κ :=
  (((t.retransmitOldest now).orElse (·.sackRetransmit now)).orElse
    (·.sendNewData now)).orElse (·.sendFin now)

/-! ## `poll_transmit` -/

/-- SYN-SENT: the first SYN, then one for each retransmission timeout. -/
def pollSynSent (t : Tcb κ) (now : Instant) : Emit κ :=
  if t.sndNxt = t.iss then ({ t with sndNxt := t.iss + 1 }.startRtx now, some t.buildSyn)
  else if t.retransmit then ({ t with retransmit := false }, some t.buildSyn)
  else (t, none)

/-- SYN-RECEIVED: the SYN-ACK, its retransmission, or an owed ACK. -/
def pollSynReceived (t : Tcb κ) (now : Instant) : Emit κ :=
  if t.sndNxt = t.iss then
    (t.emit t.iss { syn := true } Bytes.empty).after
      fun t => { t with sndNxt := t.iss + 1 }.startRtx now
  else if t.retransmit then
    { t with retransmit := false }.emit t.iss { syn := true } Bytes.empty
  else t.emitOwedAck

/-- The next datagram to send, if any. An owed RST goes first. -/
def pollTransmit (t : Tcb κ) (now : Instant) : Emit κ :=
  let t := { t with curTsval := BitVec.ofNat 32 now.micros }
  match t.pendingReset with
  | some seq => ({ t with pendingReset := none }, some (t.buildRst seq))
  | none =>
    match t.state with
    | .closed | .listen => (t, none)
    | .synSent => t.pollSynSent now
    | .synReceived => t.pollSynReceived now
    | .timeWait => t.emitOwedAck
    | _ => (t.transmitDataOrFin now).orElse (·.emitOwedAck)

/-! ## Timers -/

/-- The earliest armed deadline. -/
def pollAt (t : Tcb κ) : Option Instant :=
  [t.rtxDeadline, t.persistDeadline, t.timeWaitDeadline, t.delayedAckDeadline,
    t.paceDeadline].reduceOption.foldl
      (fun best d => match best with
        | none => some d
        | some b => some (if d.micros < b.micros then d else b)) none

/-- A timeout in SYN-SENT: retransmit the SYN, at most `maxSynRetries` times. -/
def synTimeout (t : Tcb κ) (now : Instant) : Tcb κ :=
  let t := { t with synRetries := t.synRetries + 1 }
  if t.synRetries ≥ maxSynRetries then { t with state := .closed, rtxDeadline := none }
  else { t with retransmit := true, rtt := t.rtt.onTimeout }.restartRtx now

/-- A timeout elsewhere: back to go-back-N from the oldest unacknowledged segment. -/
def rtxTimeout (t : Tcb κ) (now : Instant) : Tcb κ :=
  let t := { t with
    cc := CongestionControl.onRto t.cc now t.inflight
    rtt := t.rtt.onTimeout
    scoreboard := if t.sackEnabled then t.scoreboard.onRto else t.scoreboard
    retransmit := true
    retransmitted := true
    rttSample := none
    gbnRecover := some t.sndNxt }
  t.restartRtx now

def onRtxTimer (t : Tcb κ) (now : Instant) : Tcb κ :=
  if now.due t.rtxDeadline then
    if t.state = .synSent then t.synTimeout now else t.rtxTimeout now
  else t

def onPersistTimer (t : Tcb κ) (now : Instant) : Tcb κ :=
  if now.due t.persistDeadline then
    let backoff := min (t.persistBackoff * 2) persistMaxMillis
    { t with sendProbe := true, persistBackoff := backoff
             persistDeadline := some (now.plusMillis backoff) }
  else t

/-- The 2*MSL timer, which also bounds FIN-WAIT-2. -/
def onTimeWaitTimer (t : Tcb κ) (now : Instant) : Tcb κ :=
  if now.due t.timeWaitDeadline then { t with state := .closed } else t

def onDelayedAckTimer (t : Tcb κ) (now : Instant) : Tcb κ :=
  if now.due t.delayedAckDeadline then { t with needsAck := true, delayedAckDeadline := none }
  else t

/-- Fire every timer whose deadline has passed. -/
def onTimer (t : Tcb κ) (now : Instant) : Tcb κ :=
  (((t.onRtxTimer now).onPersistTimer now).onTimeWaitTimer now).onDelayedAckTimer now

end Tcb

end Ferrumnet
