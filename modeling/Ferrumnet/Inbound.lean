import Ferrumnet.Tcb

/-
  Inbound processing (`Tcb::on_segment`), stage by stage in the source's order:
  RST, TIME-WAIT, SYN, PAWS, acceptability, TS.Recent, ACK, data, FIN, and the
  closing state. Each numbered step of the source is one function here;
  `onSegment` strings them together.

  `process_ack` and the ACK step return `Except.error` where the source returns
  early: the rest of the segment is dropped, the state reached so far is kept.
-/

namespace Ferrumnet

/-! ## The receive side: window tests, in-order data, reassembly -/

namespace RecvSpace

/-- The in-window test of RST and SYN. -/
def seqInWindow (r : RecvSpace) (seq : SeqNumber) : Bool :=
  if r.rcvAdv = r.rcvNxt then seq = r.rcvNxt
  else seq.ge r.rcvNxt && seq.lt r.rcvAdv

/-- The four-case acceptability test, against the advertised right edge. -/
def segmentAcceptable (r : RecvSpace) (seq : SeqNumber) (segLen : Nat) : Bool :=
  if segLen = 0 then r.seqInWindow seq
  else if r.rcvAdv = r.rcvNxt then false
  else
    let last := seq + (segLen - 1)
    (seq.ge r.rcvNxt && seq.lt r.rcvAdv) || (last.ge r.rcvNxt && last.lt r.rcvAdv)

/-- The right edge for buffering out-of-order data. -/
def reasmRightEdge (r : RecvSpace) : SeqNumber :=
  let budget := rxBuffer - (r.rx.len + r.reasm.buffered)
  (r.rcvNxt + min budget 65535).min r.rcvAdv

/-- The segment's payload from the left window edge on, and where it starts. -/
def leftTrim (r : RecvSpace) (segSeq : SeqNumber) (payload : Bytes) : SeqNumber × Bytes :=
  if segSeq.lt r.rcvNxt then
    (r.rcvNxt, payload.drop (min (r.rcvNxt.offsetFrom segSeq) payload.len))
  else (segSeq, payload)

/-- The loop that drains contiguous runs; each round takes one run away. -/
def drain : Nat → RecvSpace → RecvSpace
  | 0, r => r
  | fuel + 1, r =>
    let p := r.reasm.popContiguous r.rcvNxt
    let run := p.2
    if run.isEmpty then { r with reasm := p.1 }
    else
      let w := (r.rx.write run).2
      let r := { r with reasm := p.1, rx := (r.rx.write run).1, rcvNxt := r.rcvNxt + w }
      if w < run.len then { r with reasm := r.reasm.reinsertFront r.rcvNxt (run.drop w) }
      else drain fuel r

/-- In-order data: into the ring, then whatever it made contiguous. -/
def writeInOrder (r : RecvSpace) (sackEnabled : Bool) (data : Bytes) : RecvSpace :=
  let n := (r.rx.write data).2
  let r := { r with rx := (r.rx.write data).1, rcvNxt := r.rcvNxt + n }
  if sackEnabled then
    let r := { r with reasm := r.reasm.discardBelow r.rcvNxt }
    drain (r.reasm.runs.length + 1) r
  else r

/-- Step 6 on the receive space: trimmed data goes to the ring when it is in
order, to reassembly when a gap remains and SACK is on, else nowhere. -/
def ingest (r : RecvSpace) (sackEnabled : Bool) (dataSeq : SeqNumber) (data : Bytes) : RecvSpace :=
  if data.isEmpty then r
  else if dataSeq = r.rcvNxt then r.writeInOrder sackEnabled data
  else if sackEnabled then
    { r with reasm := r.reasm.insert r.rcvNxt r.reasmRightEdge dataSeq data }
  else r

/-- Step 7 on the receive space: a FIN in order is consumed, one above a gap is
remembered. -/
def takeFin (r : RecvSpace) (finAt : SeqNumber) : RecvSpace :=
  if finAt = r.rcvNxt && !r.peerFinSeen then
    { r with rcvNxt := r.rcvNxt + 1, peerFinSeen := true }
  else if !r.peerFinSeen then { r with pendingFin := some finAt }
  else r

end RecvSpace

/-! ## The send side: what an acknowledgement takes away -/

namespace SendSpace

/-- Data bytes among the `segAck - SND.UNA` acknowledged. -/
def dataAcked (s : SendSpace) (segAck : SeqNumber) : Nat :=
  min (segAck.offsetFrom s.sndUna) s.tx.len

/-- Move `SND.UNA` to `segAck`. -/
def consume (s : SendSpace) (segAck : SeqNumber) : SendSpace :=
  { s with
    tx := s.tx.consume (s.dataAcked segAck)
    finAcked := match s.finSeq with
      | some finSeq => s.finAcked || segAck.gt finSeq
      | none => s.finAcked
    sndUna := segAck }

end SendSpace

/-- Post-handshake windows are scaled; an older segment's window is ignored. -/
def SendWindow.update (w : SendWindow) (sndWscale : Nat) (segSeq segAck : SeqNumber)
    (segWnd : Nat) : SendWindow :=
  if w.sndWl1.lt segSeq || (w.sndWl1 = segSeq && w.sndWl2.le segAck) then
    { sndWnd := segWnd <<< sndWscale, sndWl1 := segSeq, sndWl2 := segAck }
  else w

namespace Tcb

variable {κ : Type} [CongestionControl κ]

def updateWindow (t : Tcb κ) (segSeq segAck : SeqNumber) (segWnd : Nat) : Tcb κ :=
  let takes := t.sndWl1.lt segSeq || (t.sndWl1 = segSeq && t.sndWl2.le segAck)
  let t := { t with toSendWindow := t.toSendWindow.update t.sndWscale segSeq segAck segWnd }
  if takes && segWnd > 0 then
    { t with persistDeadline := none, persistBackoff := persistMinMillis, sendProbe := false }
  else t

/-! ## ACK processing -/

/-- The controller's delivery-rate sample. `pipe` is read before the scoreboard
is trimmed. -/
def ackSample (t : Tcb κ) (now : Instant) (dataAcked : Nat) (inRecovery : Bool) : Tcb κ :=
  let pipe :=
    if t.sackEnabled then t.scoreboard.pipe t.sndUna t.sndNxt t.sndMss else t.inflight
  { t with cc := CongestionControl.onAckSample t.cc now t.sndUna t.inflight dataAcked pipe inRecovery }

/-- AccECN: the wrapping delta of the peer's counter, as marked bytes. -/
def ackEcn (t : Tcb κ) (now : Instant) (ace dataAcked : Nat) (inRecovery : Bool) : Tcb κ :=
  if t.ecnEnabled then
    let delta := (ace + 256 - t.accecnAceSeen) % 8
    let t := { t with accecnAceSeen := ace % 8 }
    if inRecovery then t
    else { t with cc := CongestionControl.onEcn t.cc now dataAcked (min (delta * t.sndMss) dataAcked) }
  else t

/-- Trim the scoreboard; leave recovery once its point is reached. -/
def ackScoreboard (t : Tcb κ) (now : Instant) : Tcb κ :=
  if t.sackEnabled then
    let t := { t with scoreboard := t.scoreboard.trim t.sndUna }
    if t.scoreboard.recoveryReached t.sndUna then
      { t with scoreboard := t.scoreboard.exitRecovery
               cc := CongestionControl.onAck t.cc now 0
               retransmitted := false }
    else t
  else t

/-- The go-back-N drain after a timeout: resend the next hole, or stop. -/
def ackGbn (t : Tcb κ) : Tcb κ :=
  match t.gbnRecover with
  | some high =>
    if t.sndUna.lt high && t.sndUna ≠ t.sndNxt then { t with retransmit := true }
    else { t with gbnRecover := none }
  | none => t

/-- The RTT sample: from the echoed timestamp, else the one timed segment. -/
def ackRtt (t : Tcb κ) (now : Instant) (segAck : SeqNumber) (segTsecr : Option (BitVec 32)) :
    Tcb κ :=
  if t.tsEnabled then
    match segTsecr with
    | some tsecr =>
      let elapsed := BitVec.ofNat 32 now.micros - tsecr
      if 0 ≤ elapsed.toInt then { t with rtt := t.rtt.onSample (max elapsed.toNat 1) } else t
    | none => t
  else if t.retransmitted then t
  else
    match t.rttSample with
    | some (sentAt, seqEnd) =>
      if segAck.ge seqEnd then
        { t with rtt := t.rtt.onSample (max (min (now.saturatingMicrosSince sentAt) u32Max) 1)
                 rttSample := none }
      else t
    | none => t

/-- Forward progress clears the RTO backoff and restarts or stops the timer. -/
def ackTimer (t : Tcb κ) (now : Instant) : Tcb κ :=
  let t := { t with rtt := t.rtt.onCleanAck }
  let t := match t.rtt.srttMicros with
    | some srtt => { t with cc := CongestionControl.onRttSample t.cc srtt }
    | none => t
  if t.sndUna = t.sndNxt then
    { t with rtxDeadline := none, retransmitted := false, rttSample := none }
  else t.restartRtx now

/-- `process_ack` for an ACK that advances `SND.UNA`. -/
def ackAdvance (t : Tcb κ) (segAck : SeqNumber) (segTsecr : Option (BitVec 32)) (ace : Nat)
    (now : Instant) : Tcb κ :=
  let dataAcked := t.toSendSpace.dataAcked segAck
  let inRecovery := t.sackEnabled && t.scoreboard.inRecovery
  let t := { t with toSendSpace := t.toSendSpace.consume segAck
                    cc := if inRecovery then t.cc else CongestionControl.onAck t.cc now dataAcked }
  let t := t.ackSample now dataAcked inRecovery
  let t := t.ackEcn now ace dataAcked inRecovery
  let t := t.ackScoreboard now
  let t := t.ackGbn
  let t := t.ackRtt now segAck segTsecr
  t.ackTimer now

/-- An ACK of unsent data is answered and the segment dropped. -/
def processAck (t : Tcb κ) (segSeq segAck : SeqNumber) (segWnd : Nat)
    (segTsecr : Option (BitVec 32)) (ace : Nat) (now : Instant) : Except (Tcb κ) (Tcb κ) :=
  if segAck.gt t.sndNxt then .error { t with needsAck := true }
  else
    let t := if segAck.gt t.sndUna then t.ackAdvance segAck segTsecr ace now else t
    .ok (t.updateWindow segSeq segAck segWnd)

/-- Tell the controller about a duplicate ACK; also says whether it triggers a
fast retransmit. -/
def noteDupAck (t : Tcb κ) (now : Instant) : Tcb κ × Bool :=
  let dup := CongestionControl.onDupAck t.cc now t.inflight
  ({ t with cc := dup.1 }, dup.2)

/-- Enter SACK recovery up to `SND.NXT`. Entered before the third duplicate ACK,
it has to force the window halving. -/
def beginSackRecovery (t : Tcb κ) (now : Instant) (threeDups : Bool) : Tcb κ :=
  { t with
    cc := if threeDups then t.cc else CongestionControl.enterRecovery t.cc now t.inflight
    scoreboard := t.scoreboard.beginRecovery t.sndNxt
    retransmitted := true
    rttSample := none }.restartRtx now

/-- Loss detection under SACK: on the third duplicate ACK or when the octet at
`SND.UNA` counts as lost; not again within an episode, nor during a drain. -/
def sackDetect (t : Tcb κ) (now : Instant) (isDup : Bool) : Tcb κ :=
  if !t.scoreboard.inRecovery && t.gbnRecover.isNone then
    let p := if isDup then t.noteDupAck now else (t, false)
    if p.2 || p.1.scoreboard.isLost p.1.sndUna p.1.sndMss then p.1.beginSackRecovery now p.2
    else p.1
  else t

/-- Ingest the SACK blocks, then look for losses. -/
def sackIngest (t : Tcb κ) (now : Instant) (isDup : Bool) (blocks : List SackBlock) : Tcb κ :=
  { t with scoreboard := t.scoreboard.update t.sndUna t.sndNxt blocks }.sackDetect now isDup

/-- Legacy fast retransmit, without SACK. -/
def legacyDupAck (t : Tcb κ) (now : Instant) : Tcb κ :=
  let p := t.noteDupAck now
  if p.2 then
    { p.1 with retransmit := true, retransmitted := true, rttSample := none }.restartRtx now
  else p.1

/-- A segment without data, FIN or SYN that acknowledges `SND.UNA` again while
data is outstanding. -/
def isDupAck (t : Tcb κ) (tcp : TcpPacket) : Bool :=
  tcp.payload.isEmpty && !tcp.flags.fin && !tcp.flags.syn && tcp.ack = t.sndUna
    && t.sndUna ≠ t.sndNxt

/-- The timestamps of a segment, read only once they are negotiated. -/
def segTs (t : Tcb κ) (tcp : TcpPacket) : Option (BitVec 32 × BitVec 32) :=
  if t.tsEnabled then tcp.timestamps else none

/-- Step 5: the ACK of our SYN, or `process_ack` and loss detection. -/
def onAck (t : Tcb κ) (now : Instant) (tcp : TcpPacket) : Except (Tcb κ) (Tcb κ) :=
  if t.state = .synReceived then
    if tcp.ack.gt t.sndUna && tcp.ack.le t.sndNxt then
      let t := { t with sndUna := tcp.ack }
      let t := t.updateWindow tcp.seq tcp.ack tcp.window
      .ok { t with state := .established, rtxDeadline := none, retransmit := false }
    else .error { t with pendingReset := some tcp.ack, state := .closed }
  else
    let isDup := t.isDupAck tcp
    match t.processAck tcp.seq tcp.ack tcp.window ((t.segTs tcp).map (·.2)) tcp.ace now with
    | .error t => .error t
    | .ok t =>
      .ok (if t.sackEnabled then t.sackIngest now isDup tcp.sackBlocks
        else if isDup then t.legacyDupAck now
        else t)

/-! ## Data and FIN -/

/-- ACK scheduling of a data segment: a clean in-order one may defer its ACK,
every second one and any other is acknowledged at once. -/
def scheduleAck (t : Tcb κ) (now : Instant) (clean : Bool) : Tcb κ :=
  if clean then
    let t := { t with unackedSegs := min (t.unackedSegs + 1) 255 }
    if t.unackedSegs ≥ 2 then { t with needsAck := true, unackedSegs := 0 }
    else t.armDelayedAck now
  else { t with needsAck := true }

/-- Step 6: data. -/
def onData (t : Tcb κ) (now : Instant) (tcp : TcpPacket) (ce : Bool) : Tcb κ :=
  if tcp.payload.isEmpty then t
  else
    let (dataSeq, data) := t.toRecvSpace.leftTrim tcp.seq tcp.payload
    let inOrder := !data.isEmpty && dataSeq = t.rcvNxt
    let noRoom := inOrder && (t.rx.write data).2 < data.len
    let r := t.toRecvSpace.ingest t.sackEnabled dataSeq data
    let accepted := r.rcvNxt ≠ t.rcvNxt || r.reasm.buffered > t.reasm.buffered
    let clean := inOrder && !noRoom && t.reasm.buffered = 0
    let t := { t with toRecvSpace := r }
    let t :=
      if t.ecnEnabled && ce && accepted then { t with accecnCep := (t.accecnCep + 1) % 256 } else t
    t.scheduleAck now clean

/-- Step 7: the peer's FIN. -/
def onFin (t : Tcb κ) (tcp : TcpPacket) : Tcb κ :=
  if tcp.flags.fin then
    { t with toRecvSpace := t.toRecvSpace.takeFin (tcp.seq + tcp.payload.len), needsAck := true }
  else t

/-- Step 7b: a remembered FIN whose gap is now filled. -/
def onPendingFin (t : Tcb κ) : Tcb κ :=
  match t.pendingFin with
  | some finAt =>
    if finAt = t.rcvNxt && !t.peerFinSeen then
      { t with rcvNxt := t.rcvNxt + 1, peerFinSeen := true, pendingFin := none, needsAck := true }
    else t
  | none => t

/-- The closing state as a function of the two FIN flags. -/
def closingState (state : State) (finAcked peerFinSeen : Bool) : State :=
  match state with
  | .finWait1 =>
    match finAcked, peerFinSeen with
    | true, true => .timeWait
    | true, false => .finWait2
    | false, true => .closing
    | false, false => .finWait1
  | .finWait2 => if peerFinSeen then .timeWait else .finWait2
  | .closing => if finAcked then .timeWait else .closing
  | .lastAck => if finAcked then .closed else .lastAck
  | .established => if peerFinSeen then .closeWait else .established
  | other => other

/-- Step 8: recompute the closing state; its timer is armed on entry. -/
def recomputeClosingState (t : Tcb κ) (now : Instant) : Tcb κ :=
  let prev := t.state
  let t := { t with state := closingState t.state t.finAcked t.peerFinSeen }
  if t.state ≠ prev then
    match t.state with
    | .timeWait => t.armTimeWait now
    | .finWait2 => { t with timeWaitDeadline := some (now.plusMillis finWait2Millis) }
    | _ => t
  else t

/-! ## SYN-SENT -/

/-- The SYN of a peer, in SYN-SENT: learn the receive space and the options. -/
def learnPeer (t : Tcb κ) (tcp : TcpPacket) : Tcb κ :=
  let options := negotiate tcp t.mssAdvertise
  let rcvNxt := tcp.seq + 1
  { t with
    toOptions := options
    retransmit := false
    irs := tcp.seq
    rcvNxt := rcvNxt
    rcvAdv := rcvNxt + synWindow
    cc := CongestionControl.new t.ccKind options.sndMss
    tsRecent := match tcp.timestamps with
      | some (tsval, _) => tsval
      | none => t.tsRecent
    sndWnd := tcp.window
    sndWl1 := tcp.seq }

/-- SYN-SENT has its own processing order: ACK, RST, SYN. -/
def onSegmentSynSent (t : Tcb κ) (tcp : TcpPacket) : Tcb κ :=
  let ackAcceptable := tcp.flags.ack && tcp.ack.gt t.iss && tcp.ack.le t.sndNxt
  if tcp.flags.ack && !ackAcceptable then
    if tcp.flags.rst then t else { t with pendingReset := some tcp.ack }
  else if tcp.flags.rst then
    if ackAcceptable then { t with state := .closed, reset := true } else t
  else if tcp.flags.syn then
    let t := t.learnPeer tcp
    if ackAcceptable then
      { t with
        sndUna := tcp.ack, sndWl2 := tcp.ack, state := .established, rtxDeadline := none
        needsAck := true }
    else { t with sndWl2 := t.iss, state := .synReceived, retransmit := true }
  else t

/-! ## The whole of `on_segment` -/

/-- Step 1: RST, honoured only exactly at `RCV.NXT`. -/
def onRst (t : Tcb κ) (now : Instant) (segSeq : SeqNumber) : Tcb κ :=
  if t.toRecvSpace.seqInWindow segSeq then
    if segSeq = t.rcvNxt then { t with state := .closed, reset := true } else t.challengeAck now
  else t

/-- Step 2: SYN on an existing connection. -/
def onSyn (t : Tcb κ) (now : Instant) (segSeq : SeqNumber) : Tcb κ :=
  if t.state = .synReceived && segSeq = t.irs then
    { t with sndNxt := t.iss } -- forces the SYN-ACK out again
  else if t.toRecvSpace.seqInWindow segSeq then t.challengeAck now
  else t

/-- Step 2b: the segment's timestamp predates TS.Recent. -/
def pawsStale (t : Tcb κ) (tcp : TcpPacket) : Bool :=
  match t.segTs tcp with
  | some (tsval, _) => (tsval - t.tsRecent).toInt < 0
  | none => false

/-- TS.Recent follows an acceptable segment that reaches the left window edge. -/
def advanceTsRecent (t : Tcb κ) (tcp : TcpPacket) : Tcb κ :=
  match t.segTs tcp with
  | some (tsval, _) => if tcp.seq.le t.rcvNxt then { t with tsRecent := tsval } else t
  | none => t

/-- Steps 6 to 8, for a segment whose ACK was processed. -/
def onText (t : Tcb κ) (now : Instant) (tcp : TcpPacket) (ce : Bool) : Tcb κ :=
  (((t.onData now tcp ce).onFin tcp).onPendingFin).recomputeClosingState now

/-- Steps 4 to 8, for a segment that passed PAWS and the acceptability test. -/
def onAcceptable (t : Tcb κ) (now : Instant) (tcp : TcpPacket) (ce : Bool) : Tcb κ :=
  let t := t.advanceTsRecent tcp
  if tcp.flags.ack then
    match t.onAck now tcp with
    | .error t => t
    | .ok t => t.onText now tcp ce
  else t

/-- Feed one received segment; `ce` says its datagram was CE-marked. -/
def onSegment (t : Tcb κ) (now : Instant) (tcp : TcpPacket) (ce : Bool) : Tcb κ :=
  if t.state = .synSent then t.onSegmentSynSent tcp
  else if tcp.flags.rst then t.onRst now tcp.seq
  else if t.state = .timeWait then { t with needsAck := true }.armTimeWait now
  else if tcp.flags.syn then t.onSyn now tcp.seq
  else if t.pawsStale tcp then { t with needsAck := true }
  else if t.toRecvSpace.segmentAcceptable tcp.seq tcp.segLen then t.onAcceptable now tcp ce
  else { t with needsAck := true }

end Tcb

end Ferrumnet
