import Ferrumnet.Buffers

/-
  The retransmission-timeout estimator (`rtt.rs`): SRTT and RTTVAR in
  microseconds, the clamped RTO, and its backoff.
-/

namespace Ferrumnet

def initialRto : Nat := 1000000
def minRto : Nat := 200000
def maxRto : Nat := 60000000
def clockGranularity : Nat := 1000
/-- `RTO = SRTT + max(G, K * RTTVAR)`. -/
def rtoK : Nat := 4
def rebootstrapAfter : Nat := 3

structure RttEstimator where
  srtt : Nat
  rttvar : Nat
  /-- The RTO before any backoff. -/
  baseRto : Nat
  /-- The RTO in effect. -/
  rto : Nat
  haveMeasurement : Bool
  consecutiveTimeouts : Nat
  deriving DecidableEq, Repr

namespace RttEstimator

def new : RttEstimator := ⟨0, 0, initialRto, initialRto, false, 0⟩

def rtoMicros (e : RttEstimator) : Nat := e.rto

def srttMicros (e : RttEstimator) : Option Nat :=
  if e.haveMeasurement then some e.srtt else none

/-- `a.div_ceil(b)`. -/
def divCeil (a b : Nat) : Nat := (a + b - 1) / b

/-- The SRTT and RTTVAR part of `on_sample`; RTTVAR uses the old SRTT. -/
def absorb (e : RttEstimator) (r : Nat) : RttEstimator :=
  if e.haveMeasurement then
    let delta := if e.srtt ≤ r then r - e.srtt else e.srtt - r
    { e with
      rttvar := divCeil (3 * e.rttvar + delta) 4
      srtt := divCeil (7 * e.srtt + r) 8 }
  else { e with srtt := r, rttvar := r / 2, haveMeasurement := true }

/-- Incorporate a fresh measurement `r` of a segment never retransmitted. -/
def onSample (e : RttEstimator) (r : Nat) : RttEstimator :=
  let e := e.absorb (min r maxRto)
  let margin := max (rtoK * e.rttvar) clockGranularity
  let base := min (max (e.srtt + margin) minRto) maxRto
  { e with baseRto := base, rto := base, consecutiveTimeouts := 0 }

/-- Forward progress clears the backoff. -/
def onCleanAck (e : RttEstimator) : RttEstimator :=
  { e with rto := e.baseRto, consecutiveTimeouts := 0 }

/-- The retransmission timer fired: double the RTO, capped. -/
def onTimeout (e : RttEstimator) : RttEstimator :=
  { e with
    rto := min (e.rto * 2) maxRto
    consecutiveTimeouts := e.consecutiveTimeouts + 1
    haveMeasurement :=
      if e.consecutiveTimeouts + 1 ≥ rebootstrapAfter then false else e.haveMeasurement }

end RttEstimator

end Ferrumnet
