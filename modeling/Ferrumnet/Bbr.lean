import Ferrumnet.Scalable

/-
  BBR (`bbr.rs`): the delivery-rate estimator, the windowed-max filter, and the state
  machine with the inflight bounds.

  Gains and their products are rationals, rounded only where the source casts.
-/

namespace Ferrumnet

/-- `x as u64`. -/
def toU64 (x : ℚ) : Nat := min ⌊x⌋.toNat Instant.u64Max

/-- `a.saturating_mul(b)`. -/
def mulU64 (a b : Nat) : Nat := min (a * b) Instant.u64Max

/-! ## The delivery-rate estimator -/

structure RateSample where
  /-- Bytes per second. -/
  deliveryRate : Nat
  rttUs : Nat
  intervalUs : Nat
  isAppLimited : Bool
  /-- What had been delivered when the newest packet was sent. -/
  priorDelivered : Nat
  deriving DecidableEq, Repr

/-- What is recorded of a segment when it is sent. -/
structure Sent where
  seqEnd : SeqNumber
  size : Nat
  sentTime : Instant
  delivered : Nat
  deliveredTime : Instant
  firstSentTime : Instant
  isAppLimited : Bool
  deriving DecidableEq, Repr

structure RateSampler where
  delivered : Nat
  deliveredTime : Instant
  firstSentTime : Instant
  /-- 0 if not application-limited. -/
  appLimitedUntil : Nat
  sent : List Sent
  deriving DecidableEq, Repr

namespace RateSampler

def new : RateSampler := ⟨0, ⟨0⟩, ⟨0⟩, 0, []⟩

def onTransmit (r : RateSampler) (now : Instant) (seqEnd : SeqNumber) (bytes inflight : Nat) (appLimited : Bool) :
    RateSampler :=
  let r := if inflight = 0 || r.sent.isEmpty then { r with firstSentTime := now, deliveredTime := now } else r
  let r := if appLimited then { r with appLimitedUntil := max (r.delivered + inflight + bytes) 1 } else r
  { r with
    sent := r.sent ++
      [{ seqEnd := seqEnd, size := bytes, sentTime := now, delivered := r.delivered, deliveredTime := r.deliveredTime
         firstSentTime := r.firstSentTime, isAppLimited := r.appLimitedUntil ≠ 0 }] }

/-- Pop what `sndUna` covers: what stays, the bytes delivered, and the newest popped. -/
def popAcked (sndUna : SeqNumber) : List Sent → Nat → Option Sent → List Sent × Nat × Option Sent
  | [], delivered, newest => ([], delivered, newest)
  | s :: sent, delivered, newest =>
    if s.seqEnd.le sndUna then popAcked sndUna sent (delivered + s.size) (some s) else (s :: sent, delivered, newest)

/-- A rate sample of the newest segment that the ACK delivers, if it delivers any. -/
def onAck (r : RateSampler) (now : Instant) (sndUna : SeqNumber) : RateSampler × Option RateSample :=
  match popAcked sndUna r.sent r.delivered none with
  | (_, _, none) => (r, none)
  | (sent, delivered, some p) =>
    let sendElapsed := p.sentTime.saturatingMicrosSince p.firstSentTime
    let ackElapsed := now.saturatingMicrosSince p.deliveredTime
    let intervalUs := max sendElapsed ackElapsed
    ({ delivered := delivered
       deliveredTime := now
       firstSentTime := p.sentTime
       appLimitedUntil :=
        if r.appLimitedUntil ≠ 0 && delivered > r.appLimitedUntil then 0 else r.appLimitedUntil
       sent := sent },
      some
        { deliveryRate := if intervalUs > 0 then mulU64 (delivered - p.delivered) 1000000 / intervalUs else 0
          rttUs := min (now.saturatingMicrosSince p.sentTime) u32Max
          intervalUs := intervalUs
          isAppLimited := p.isAppLimited
          priorDelivered := p.delivered })

def resetInFlight (r : RateSampler) : RateSampler := { r with sent := [] }

end RateSampler

/-! ## The windowed-max filter -/

structure MaxSample where
  t : Nat
  v : Nat
  deriving DecidableEq, Repr

/-- Three candidates for the largest value of the last `window` units of time. -/
structure WindowedMax where
  window : Nat
  s0 : MaxSample
  s1 : MaxSample
  s2 : MaxSample
  deriving DecidableEq, Repr

/-- `a.wrapping_sub(b)`. -/
def wrappingSub (a b : Nat) : Nat := (a + (18446744073709551616 - b)) % 18446744073709551616

namespace WindowedMax

def new (window : Nat) : WindowedMax := ⟨window, ⟨0, 0⟩, ⟨0, 0⟩, ⟨0, 0⟩⟩

def reset (f : WindowedMax) (t v : Nat) : WindowedMax := { f with s0 := ⟨t, v⟩, s1 := ⟨t, v⟩, s2 := ⟨t, v⟩ }

/-- Replace a candidate that the value exceeds. -/
def replace (f : WindowedMax) (t v : Nat) : WindowedMax :=
  if v ≥ f.s1.v then { f with s1 := ⟨t, v⟩, s2 := ⟨t, v⟩ }
  else if v ≥ f.s2.v then { f with s2 := ⟨t, v⟩ }
  else f

/-- Drop the candidates that have fallen out of the window. -/
def expire (f : WindowedMax) (t v : Nat) : WindowedMax :=
  if wrappingSub t f.s0.t > f.window then
    let f := { f with s0 := f.s1, s1 := f.s2, s2 := ⟨t, v⟩ }
    if wrappingSub t f.s0.t > f.window then { f with s0 := f.s1, s1 := f.s2 } else f
  else f

/-- Feed a sample; the value returned is `s0.v` of what is left. -/
def update (f : WindowedMax) (t v : Nat) : WindowedMax :=
  if v ≥ f.s0.v || wrappingSub t f.s2.t > f.window then f.reset t v else (f.replace t v).expire t v

end WindowedMax

/-! ## The state machine -/

inductive Mode where
  | startup | drain | probeBw | probeRtt
  deriving DecidableEq, Repr

def highGain : ℚ := 2885 / 1000
def drainGain : ℚ := 346 / 1000
def cwndGainProbe : ℚ := 2
def probeBwGains : List ℚ := [5 / 4, 3 / 4, 1, 1, 1, 1, 1, 1]
def fullBwThresh : ℚ := 5 / 4
def fullBwCountMax : Nat := 3
def minRttWindowUs : Nat := 10000000
def probeRttDurationUs : Nat := 200000
def btlbwWindowRounds : Nat := 10
def minCwndSegs : Nat := 4
def recoveryHeadroomSegs : Nat := 3
def inflightLoBeta : ℚ := 3 / 10
def inflightHardKeep : ℚ := 1 / 2

structure Bbr where
  mss : Nat
  cwnd : Nat
  mode : Mode
  sampler : RateSampler
  btlbwFilter : WindowedMax
  /-- Bytes per second, 0 until the first reliable sample. -/
  btlbw : Nat
  /-- Microseconds, `u32::MAX` until the first RTT sample. -/
  minRttUs : Nat
  minRttStamp : Instant
  pacingGain : ℚ
  cwndGain : ℚ
  pacing : Nat
  roundCount : Nat
  nextRoundDelivered : Nat
  roundStart : Bool
  fullBw : Nat
  fullBwCount : Nat
  filledPipe : Bool
  cycleIndex : Nat
  cycleStamp : Instant
  probeRttDoneStamp : Option Instant
  priorCwnd : Nat
  /-- `u32::MAX` until the first loss bounds it; so is `inflightLo`. -/
  inflightHi : Nat
  inflightLo : Nat
  lossInRound : Bool
  wasInRecovery : Bool
  inflightLatest : Nat
  extraAckedFilter : WindowedMax
  extraAcked : Nat
  ackEpochStamp : Instant
  ackEpochAcked : Nat
  dupAcks : Nat
  deriving DecidableEq, Repr

namespace Bbr

def new (mss : Nat) : Bbr :=
  { mss := mss, cwnd := initialWindow mss, mode := .startup, sampler := RateSampler.new
    btlbwFilter := WindowedMax.new btlbwWindowRounds, btlbw := 0, minRttUs := u32Max, minRttStamp := ⟨0⟩
    pacingGain := highGain, cwndGain := highGain, pacing := 0, roundCount := 0, nextRoundDelivered := 0
    roundStart := false, fullBw := 0, fullBwCount := 0, filledPipe := false, cycleIndex := 0, cycleStamp := ⟨0⟩
    probeRttDoneStamp := none, priorCwnd := 0, inflightHi := u32Max, inflightLo := u32Max, lossInRound := false
    wasInRecovery := false, inflightLatest := 0, extraAckedFilter := WindowedMax.new btlbwWindowRounds
    extraAcked := 0, ackEpochStamp := ⟨0⟩, ackEpochAcked := 0, dupAcks := 0 }

def minCwnd (b : Bbr) : Nat := minCwndSegs * b.mss

/-- The bandwidth-delay product, 0 until both are known. -/
def bdp (b : Bbr) : Nat :=
  if b.btlbw = 0 || b.minRttUs = u32Max then 0 else mulU64 b.btlbw b.minRttUs / 1000000

def checkFullPipe (b : Bbr) : Bbr :=
  if b.filledPipe || !b.roundStart then b
  else if (b.btlbw : ℚ) ≥ b.fullBw * fullBwThresh then { b with fullBw := b.btlbw, fullBwCount := 0 }
  else
    let b := { b with fullBwCount := b.fullBwCount + 1 }
    if b.fullBwCount ≥ fullBwCountMax then { b with filledPipe := true } else b

def enterProbeBw (b : Bbr) (now : Instant) : Bbr :=
  { b with mode := .probeBw, cwndGain := cwndGainProbe, cycleIndex := 2, pacingGain := probeBwGains.getD 2 1
           cycleStamp := now }

def advanceProbeBw (b : Bbr) (now : Instant) : Bbr :=
  if now.saturatingMicrosSince b.cycleStamp ≥ b.minRttUs then
    let i := (b.cycleIndex + 1) % probeBwGains.length
    { b with cycleIndex := i, pacingGain := probeBwGains.getD i 1, cycleStamp := now }
  else b

def maybeEnterProbeRtt (b : Bbr) (expired : Bool) : Bbr :=
  if expired && b.mode ≠ .probeRtt then
    { b with mode := .probeRtt, pacingGain := 1, cwndGain := 1, priorCwnd := b.cwnd, probeRttDoneStamp := none }
  else b

def handleProbeRtt (b : Bbr) (now : Instant) (inflight : Nat) : Bbr :=
  match b.probeRttDoneStamp with
  | none =>
    if inflight ≤ b.minCwnd then { b with probeRttDoneStamp := some (now.plusMicros probeRttDurationUs) } else b
  | some done =>
    if now.micros ≥ done.micros then
      let b := { b with minRttStamp := now, probeRttDoneStamp := none }
      let b :=
        if b.filledPipe then b.enterProbeBw now
        else { b with mode := .startup, pacingGain := highGain, cwndGain := highGain }
      { b with cwnd := max b.cwnd b.priorCwnd }
    else b

def updateMode (b : Bbr) (now : Instant) (inflight : Nat) (minRttExpired : Bool) : Bbr :=
  let b := b.maybeEnterProbeRtt minRttExpired
  match b.mode with
  | .startup =>
    let b := b.checkFullPipe
    if b.filledPipe then { b with mode := .drain, pacingGain := drainGain, cwndGain := highGain } else b
  | .drain => if inflight ≤ b.bdp then b.enterProbeBw now else b
  | .probeBw => b.advanceProbeBw now
  | .probeRtt => b.handleProbeRtt now inflight

def cutInflightBounds (b : Bbr) : Bbr :=
  let floor := b.minCwnd
  let latest := max b.inflightLatest floor
  { b with
    inflightLo :=
      if b.inflightLo = u32Max then max (toU32 (latest * inflightHardKeep)) floor
      else max (toU32 (b.inflightLo * (1 - inflightLoBeta))) floor }

def raiseInflightBounds (b : Bbr) : Bbr :=
  let b := if b.inflightHi ≠ u32Max then { b with inflightHi := min (b.inflightHi + b.mss) u32Max } else b
  if b.inflightLo ≠ u32Max then
    let lo := min (b.inflightLo + b.mss) u32Max
    { b with inflightLo := if lo ≥ b.inflightHi then u32Max else lo }
  else b

def updateAckAggregation (b : Bbr) (now : Instant) (acked : Nat) : Bbr :=
  if b.btlbw = 0 || acked = 0 then b
  else
    let expected := mulU64 b.btlbw (now.saturatingMicrosSince b.ackEpochStamp) / 1000000
    let restarts := b.ackEpochAcked ≤ expected
    let b := if restarts then { b with ackEpochAcked := 0, ackEpochStamp := now } else b
    let expected := if restarts then 0 else expected
    let b := { b with ackEpochAcked := min (b.ackEpochAcked + acked) Instant.u64Max }
    let extra := min (b.ackEpochAcked - expected) (max b.bdp b.minCwnd)
    let filter := b.extraAckedFilter.update b.roundCount extra
    { b with extraAckedFilter := filter, extraAcked := min filter.s0.v u32Max }

def setPacingAndCwnd (b : Bbr) (acked pipe : Nat) (inRecovery : Bool) : Bbr :=
  if b.btlbw = 0 || b.minRttUs = u32Max then { b with pacing := 0 }
  else
    let extra := if b.filledPipe then b.extraAcked else 0
    let target := max (toU64 (b.bdp * b.cwndGain) + extra) b.minCwnd
    let bound := min b.inflightHi b.inflightLo
    let cwnd :=
      if inRecovery then max (max (min target bound) (pipe + recoveryHeadroomSegs * b.mss)) b.minCwnd
      else max (min (b.cwnd + acked) (min target bound)) b.minCwnd
    -- the drain of PROBE_RTT waits for the end of a recovery
    let cwnd := if b.mode = .probeRtt && !inRecovery then min cwnd b.minCwnd else cwnd
    { b with pacing := toU64 (b.btlbw * b.pacingGain), cwnd := min cwnd u32Max }

def onAck (b : Bbr) : Bbr := { b with dupAcks := 0 }

def onDupAck (b : Bbr) : Bbr × Bool :=
  let b := { b with dupAcks := min (b.dupAcks + 1) 255 }
  if b.dupAcks = 3 then ({ b with lossInRound := true }, true) else (b, false)

def enterRecovery (b : Bbr) : Bbr := { b with lossInRound := true }

def onRto (b : Bbr) : Bbr :=
  let floor := b.minCwnd
  let half := max (toU32 (max b.inflightLatest floor * inflightHardKeep)) floor
  { b with
    sampler := b.sampler.resetInFlight, cwnd := b.mss, dupAcks := 0, lossInRound := true
    inflightHi := if b.inflightHi = u32Max then half else max (b.inflightHi / 2) floor
    inflightLo := if b.inflightLo = u32Max then half else max (b.inflightLo / 2) floor }

def pacingRate (b : Bbr) : Option Nat := if b.pacing = 0 then none else some b.pacing

def onTransmit (b : Bbr) (now : Instant) (seqEnd : SeqNumber) (bytes inflight : Nat) (appLimited : Bool) : Bbr :=
  { b with sampler := b.sampler.onTransmit now seqEnd bytes inflight appLimited }

/-! ### A delivery sample, stage by stage -/

/-- A round ends when the data outstanding at its start is acknowledged. -/
def noteRound (b : Bbr) (sample : RateSample) : Bbr :=
  if sample.priorDelivered ≥ b.nextRoundDelivered then
    { b with roundCount := b.roundCount + 1, nextRoundDelivered := b.sampler.delivered, roundStart := true }
  else { b with roundStart := false }

def minRttExpired (b : Bbr) (now : Instant) : Bool :=
  b.minRttUs ≠ u32Max && now.saturatingMicrosSince b.minRttStamp > minRttWindowUs

def noteRtt (b : Bbr) (now : Instant) (sample : RateSample) : Bbr :=
  if sample.rttUs > 0 && (sample.rttUs < b.minRttUs || b.minRttExpired now) then
    { b with minRttUs := sample.rttUs, minRttStamp := now }
  else b

def noteRate (b : Bbr) (sample : RateSample) : Bbr :=
  if sample.deliveryRate > 0 && sample.intervalUs ≥ b.minRttUs &&
      (!sample.isAppLimited || sample.deliveryRate ≥ b.btlbw) then
    let filter := b.btlbwFilter.update b.roundCount sample.deliveryRate
    { b with btlbwFilter := filter, btlbw := filter.s0.v }
  else b

/-- The inflight bounds: cut where a loss episode starts, raised by clean rounds. -/
def noteLoss (b : Bbr) (inflight : Nat) (inRecovery : Bool) : Bbr :=
  let b := { b with inflightLatest := max b.inflightLatest inflight }
  let b := if inRecovery && !b.wasInRecovery then { b.cutInflightBounds with lossInRound := true } else b
  let b :=
    if b.roundStart then
      let b := if !b.lossInRound && !inRecovery then b.raiseInflightBounds else b
      { b with lossInRound := false, inflightLatest := inflight }
    else b
  { b with wasInRecovery := inRecovery }

def onAckSample (b : Bbr) (now : Instant) (sndUna : SeqNumber) (inflight acked pipe : Nat) (inRecovery : Bool) : Bbr :=
  match b.sampler.onAck now sndUna with
  | (_, none) => b
  | (sampler, some sample) =>
    let b := { b with sampler := sampler }.noteRound sample
    let expired := b.minRttExpired now
    let b := (b.noteRtt now sample).noteRate sample
    let b := (b.updateAckAggregation now acked).noteLoss inflight inRecovery
    (b.updateMode now inflight expired).setPacingAndCwnd acked pipe inRecovery

instance : CongestionControl Bbr where
  new _ mss := Bbr.new mss
  cwnd := Bbr.cwnd
  onAck b _ _ := b.onAck
  onDupAck b _ _ := b.onDupAck
  enterRecovery b _ _ := b.enterRecovery
  onRto b _ _ := b.onRto
  pacingRate := Bbr.pacingRate
  onTransmit b now seqEnd bytes inflight appLimited := b.onTransmit now seqEnd bytes inflight appLimited
  onAckSample b now sndUna inflight acked pipe inRecovery :=
    b.onAckSample now sndUna inflight acked pipe inRecovery

end Bbr

end Ferrumnet
