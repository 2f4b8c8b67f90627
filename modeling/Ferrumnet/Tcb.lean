import Ferrumnet.Reasm
import Ferrumnet.Sack
import Ferrumnet.Rtt
import Ferrumnet.Congestion
import Ferrumnet.Wire

/-
  The Transmission Control Block (`tcb.rs`): its fields, the two ways to open a
  connection, the application interface, and the helpers of the other modules.

  The fields are grouped as the source's comments group them. The groups matter
  to the proofs: the bytes to send and the bytes received are two records, and
  most of the processing touches neither.
-/

namespace Ferrumnet

/-- The eleven connection states. -/
inductive State where
  | closed | listen | synSent | synReceived | established | finWait1 | finWait2
  | closeWait | closing | lastAck | timeWait
  deriving DecidableEq, Repr

/-- Past the handshake: the states that carry data. -/
def State.synchronized : State → Bool
  | .established | .closeWait | .finWait1 | .finWait2 | .closing | .lastAck => true
  | _ => false

def mssDefault : Nat := 536
def txBuffer : Nat := 262144
def rxBuffer : Nat := 262144
/-- `wscale_for(RX_BUFFER)`. -/
def rcvWscaleOffer : Nat := 3
def timeWaitMillis : Nat := 10000
def finWait2Millis : Nat := 60000
def persistMinMillis : Nat := 1000
def persistMaxMillis : Nat := 60000
def challengeAckLimit : Nat := 100
def maxSynRetries : Nat := 7
def delayedAckMillis : Nat := 40
def aceInit : Nat := 5

/-- `RX_BUFFER.min(0xFFFF)`: the window of a SYN. -/
def synWindow : Nat := min rxBuffer 65535

/-- What the handshake settles. -/
structure Options where
  sndMss : Nat
  mssAdvertise : Nat
  windowScaling : Bool
  sndWscale : Nat
  rcvWscale : Nat
  tsEnabled : Bool
  sackEnabled : Bool
  deriving DecidableEq, Repr

/-- The send sequence space, with the bytes and the FIN that fill it. -/
structure SendSpace where
  iss : SeqNumber
  sndUna : SeqNumber
  sndNxt : SeqNumber
  /-- Unacknowledged and unsent bytes; the first is the byte at `sndUna`. -/
  tx : RingBuffer
  finQueued : Bool
  finSeq : Option SeqNumber
  finAcked : Bool
  deriving DecidableEq, Repr

/-- The peer's window, already scaled, and the segment it was taken from. -/
structure SendWindow where
  sndWnd : Nat
  sndWl1 : SeqNumber
  sndWl2 : SeqNumber
  deriving DecidableEq, Repr

/-- The receive sequence space, with the bytes and the peer's FIN. -/
structure RecvSpace where
  irs : SeqNumber
  rcvNxt : SeqNumber
  /-- The right edge most recently advertised. -/
  rcvAdv : SeqNumber
  /-- In-order bytes awaiting the application. -/
  rx : RingBuffer
  reasm : Reasm
  peerFinSeen : Bool
  /-- The slot of a FIN that arrived out of order. -/
  pendingFin : Option SeqNumber
  deriving DecidableEq, Repr

structure Timestamps where
  tsRecent : BitVec 32
  curTsval : BitVec 32
  deriving DecidableEq, Repr

/-- The AccECN counters. -/
structure AccEcn where
  accecnCep : Nat
  accecnAceSeen : Nat
  deriving DecidableEq, Repr

/-- RTT estimation, congestion control and loss recovery. -/
structure LossRecovery (κ : Type) where
  rtt : RttEstimator
  cc : κ
  ccKind : CcKind
  rttSample : Option (Instant × SeqNumber)
  retransmitted : Bool
  retransmit : Bool
  gbnRecover : Option SeqNumber
  scoreboard : Scoreboard
  deriving DecidableEq, Repr

structure Timers where
  rtxDeadline : Option Instant
  persistDeadline : Option Instant
  persistBackoff : Nat
  timeWaitDeadline : Option Instant
  delayedAckDeadline : Option Instant
  unackedSegs : Nat
  paceTokens : Nat
  paceLast : Instant
  paceDeadline : Option Instant
  synRetries : Nat
  challengeWindowStart : Instant
  challengeCount : Nat
  deriving DecidableEq, Repr

/-- What `poll_transmit` owes. -/
structure Owed where
  needsAck : Bool
  sendProbe : Bool
  pendingReset : Option SeqNumber
  deriving DecidableEq, Repr

structure Tcb (κ : Type) extends
    Options, SendSpace, SendWindow, RecvSpace, Timestamps, AccEcn, LossRecovery κ, Timers, Owed where
  state : State
  localEnd : Endpoint
  remote : Endpoint
  /-- An in-window RST closed the connection. -/
  reset : Bool
  deriving DecidableEq, Repr

namespace Tcb

variable {κ : Type} [CongestionControl κ]

/-! ## Opening -/

def freshSend (iss : SeqNumber) : SendSpace :=
  { iss := iss, sndUna := iss, sndNxt := iss, tx := RingBuffer.withCapacity txBuffer
    finQueued := false, finSeq := none, finAcked := false }

def freshRecv (irs rcvNxt rcvAdv : SeqNumber) : RecvSpace :=
  { irs := irs, rcvNxt := rcvNxt, rcvAdv := rcvAdv, rx := RingBuffer.withCapacity rxBuffer
    reasm := Reasm.new, peerFinSeen := false, pendingFin := none }

def freshRecovery (sndMss : Nat) : LossRecovery κ :=
  { rtt := RttEstimator.new, cc := CongestionControl.new .reno sndMss, ccKind := .reno
    rttSample := none, retransmitted := false, retransmit := false, gbnRecover := none
    scoreboard := Scoreboard.new }

def freshTimers (now : Instant) : Timers :=
  { rtxDeadline := none, persistDeadline := none, persistBackoff := persistMinMillis
    timeWaitDeadline := none, delayedAckDeadline := none, unackedSegs := 0
    paceTokens := 0, paceLast := now, paceDeadline := none, synRetries := 0
    challengeWindowStart := now, challengeCount := 0 }

def freshOwed : Owed := { needsAck := false, sendProbe := false, pendingReset := none }

/-- Each option is negotiated exactly when the peer's SYN carries it. -/
def negotiate (syn : TcpPacket) (mssAdvertise : Nat) : Options :=
  { sndMss := min (syn.mssOption.getD mssDefault) mssAdvertise
    mssAdvertise := mssAdvertise
    windowScaling := syn.windowScale.isSome
    sndWscale := syn.windowScale.getD 0
    rcvWscale := if syn.windowScale.isSome then rcvWscaleOffer else 0
    tsEnabled := syn.timestamps.isSome
    sackEnabled := syn.sackPermitted }

/-- Passive open: a SYN arrived for the listening endpoint. -/
def newSynReceived (loc remote : Endpoint) (syn : TcpPacket) (iss : SeqNumber) (now : Instant)
    (mssAdvertise : Nat) : Tcb κ :=
  let irs := syn.seq
  let rcvNxt := irs + 1
  { toOptions := negotiate syn mssAdvertise
    toSendSpace := freshSend iss
    toSendWindow := { sndWnd := syn.window, sndWl1 := irs, sndWl2 := iss }
    toRecvSpace := freshRecv irs rcvNxt (rcvNxt + synWindow)
    toTimestamps := { tsRecent := (syn.timestamps.map (·.1)).getD 0, curTsval := 0 }
    toAccEcn := { accecnCep := aceInit, accecnAceSeen := aceInit }
    toLossRecovery := freshRecovery (negotiate syn mssAdvertise).sndMss
    toTimers := freshTimers now
    toOwed := freshOwed
    state := .synReceived, localEnd := loc, remote := remote, reset := false }

/-- Active open: the receive sequence space and the options are not known yet. -/
def newSynSent (loc remote : Endpoint) (iss : SeqNumber) (now : Instant) (mssAdvertise : Nat) :
    Tcb κ :=
  { toOptions :=
      { sndMss := mssDefault, mssAdvertise := mssAdvertise, windowScaling := false
        sndWscale := 0, rcvWscale := 0, tsEnabled := false, sackEnabled := false }
    toSendSpace := freshSend iss
    toSendWindow := { sndWnd := 0, sndWl1 := iss, sndWl2 := iss }
    toRecvSpace := freshRecv (SeqNumber.new 0) (SeqNumber.new 0) (SeqNumber.new 0)
    toTimestamps := { tsRecent := 0, curTsval := 0 }
    toAccEcn := { accecnCep := aceInit, accecnAceSeen := aceInit }
    toLossRecovery := freshRecovery mssDefault
    toTimers := freshTimers now
    toOwed := freshOwed
    state := .synSent, localEnd := loc, remote := remote, reset := false }

/-- Select the congestion controller, before any data flows. -/
def setCongestionControl (t : Tcb κ) (kind : CcKind) : Tcb κ :=
  if kind ≠ t.ccKind then { t with ccKind := kind, cc := CongestionControl.new kind t.sndMss } else t

/-- The controllers that react to ECN marks. -/
def ecnEnabled (t : Tcb κ) : Bool :=
  match t.ccKind with
  | .dctcp | .learned | .prague | .synth => true
  | _ => false

/-! ## Application interface -/

/-- Queue bytes to send; also returns how many were accepted. -/
def send (t : Tcb κ) (data : Bytes) : Tcb κ × Nat :=
  match t.state with
  | .established | .closeWait => ({ t with tx := (t.tx.write data).1 }, (t.tx.write data).2)
  | _ => (t, 0)

/-- Read at most `n` received bytes. -/
def recv (t : Tcb κ) (n : Nat) : Tcb κ × Bytes :=
  ({ t with rx := (t.rx.read n).1 }, (t.rx.read n).2)

/-- Begin an orderly close; the FIN goes out after all queued data. -/
def close (t : Tcb κ) : Tcb κ := { t with finQueued := true }

def rxAvailable (t : Tcb κ) : Nat := t.rx.len
def txFree (t : Tcb κ) : Nat := t.tx.free

/-- The peer has closed and everything before its FIN has been read. -/
def recvEof (t : Tcb κ) : Bool := t.peerFinSeen && t.rx.isEmpty

def isReset (t : Tcb κ) : Bool := t.reset

def isSynchronized (t : Tcb κ) : Bool := t.state.synchronized

/-! ## Timer and ACK helpers -/

/-- The bytes in flight, `SND.NXT - SND.UNA`. -/
def inflight (t : Tcb κ) : Nat := t.sndNxt.offsetFrom t.sndUna

def startRtx (t : Tcb κ) (now : Instant) : Tcb κ :=
  if t.rtxDeadline.isNone then
    { t with rtxDeadline := some (now.plusMicros t.rtt.rtoMicros) }
  else t

def restartRtx (t : Tcb κ) (now : Instant) : Tcb κ :=
  { t with rtxDeadline := some (now.plusMicros t.rtt.rtoMicros) }

def armPersist (t : Tcb κ) (now : Instant) : Tcb κ :=
  if t.persistDeadline.isNone then
    { t with persistBackoff := persistMinMillis
             persistDeadline := some (now.plusMillis persistMinMillis) }
  else t

def armDelayedAck (t : Tcb κ) (now : Instant) : Tcb κ :=
  if t.delayedAckDeadline.isNone then
    { t with delayedAckDeadline := some (now.plusMillis delayedAckMillis) }
  else t

def armTimeWait (t : Tcb κ) (now : Instant) : Tcb κ :=
  { t with timeWaitDeadline := some (now.plusMillis timeWaitMillis)
           rtxDeadline := none
           persistDeadline := none }

/-- RFC 5961 challenge ACK, at most `challengeAckLimit` in a second. -/
def challengeAck (t : Tcb κ) (now : Instant) : Tcb κ :=
  let t :=
    if now.saturatingMicrosSince t.challengeWindowStart ≥ 1000000 then
      { t with challengeWindowStart := now, challengeCount := 0 }
    else t
  if t.challengeCount < challengeAckLimit then
    { t with challengeCount := t.challengeCount + 1, needsAck := true }
  else t

/-- The largest payload of one segment: the MSS less the options beside it. -/
def maxSegmentPayload (t : Tcb κ) : Nat :=
  let ts := if t.tsEnabled then 12 else 0
  let sack :=
    if t.sackEnabled && !t.reasm.isEmpty then
      let n := (t.reasm.report maxSackBlocks).length
      let n := if t.tsEnabled then min n 3 else n
      if n > 0 then 4 + 8 * n else 0
    else 0
  t.sndMss - (ts + sack)

end Tcb

end Ferrumnet
