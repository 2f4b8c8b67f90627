import Ferrumnet.Seq
import Ferrumnet.Buffers

/-
  The congestion-control seam (`congestion.rs`): the trait the connection drives
  and its default controller, Reno.

  The connection is generic in the controller, so what is proved about it holds
  for every variant of the source's `Cc`. `ssthresh` and `set_mss` are not here:
  the connection calls neither.
-/

namespace Ferrumnet

/-- Which controller a connection runs. -/
inductive CcKind where
  | reno | cubic | bbr | dctcp | learned | prague | synth
  deriving DecidableEq, Repr

/-- The trait `CongestionControl` together with the constructor `Cc::new`; the
hooks of a rate-based controller default to doing nothing. -/
class CongestionControl (κ : Type) where
  new : CcKind → Nat → κ
  cwnd : κ → Nat
  onAck : κ → Instant → Nat → κ
  /-- Also says whether this duplicate ACK triggers a fast retransmit. -/
  onDupAck : κ → Instant → Nat → κ × Bool
  enterRecovery : κ → Instant → Nat → κ
  onRto : κ → Instant → Nat → κ
  pacingRate : κ → Option Nat := fun _ => none
  onTransmit : κ → Instant → SeqNumber → Nat → Nat → Bool → κ := fun cc _ _ _ _ _ => cc
  onAckSample : κ → Instant → SeqNumber → Nat → Nat → Nat → Bool → κ :=
    fun cc _ _ _ _ _ _ => cc
  onEcn : κ → Instant → Nat → Nat → κ := fun cc _ _ _ => cc
  onRttSample : κ → Nat → κ := fun cc _ => cc

/-- The initial window, in bytes. -/
def initialWindow (mss : Nat) : Nat := min (10 * mss) (max (2 * mss) 14600)

def u32Max : Nat := 4294967295

structure Reno where
  cwnd : Nat
  ssthresh : Nat
  mss : Nat
  caAcc : Nat
  dupAcks : Nat
  deriving DecidableEq, Repr

namespace Reno

def new (mss : Nat) : Reno := ⟨initialWindow mss, u32Max, mss, 0, 0⟩

def inSlowStart (c : Reno) : Bool := c.cwnd < c.ssthresh

/-- The congestion-avoidance loop: one MSS for each window's worth of bytes. A
window of at least one byte takes at most `caAcc` rounds. -/
def creditLoop : Nat → Reno → Reno
  | 0, c => c
  | fuel + 1, c =>
    if c.caAcc ≥ c.cwnd then
      creditLoop fuel { c with caAcc := c.caAcc - c.cwnd, cwnd := min (c.cwnd + c.mss) u32Max }
    else c

def onAck (c : Reno) (acked : Nat) : Reno :=
  let c := { c with dupAcks := 0 }
  if acked = 0 then c
  else if c.inSlowStart then { c with cwnd := min (c.cwnd + min acked c.mss) u32Max }
  else
    let c := { c with caAcc := min (c.caAcc + acked) u32Max }
    creditLoop c.caAcc c

/-- Half the flight, at least two segments. -/
def lossWindow (c : Reno) (flightSize : Nat) : Nat := max (flightSize / 2) (2 * c.mss)

/-- The third duplicate ACK in a row halves the window. -/
def onDupAck (c : Reno) (flightSize : Nat) : Reno × Bool :=
  let c := { c with dupAcks := min (c.dupAcks + 1) 255 }
  if c.dupAcks = 3 then
    let w := c.lossWindow flightSize
    ({ c with ssthresh := w, cwnd := w, caAcc := 0 }, true)
  else (c, false)

def enterRecovery (c : Reno) (flightSize : Nat) : Reno :=
  let w := c.lossWindow flightSize
  { c with ssthresh := w, cwnd := w, caAcc := 0, dupAcks := 0 }

def onRto (c : Reno) (flightSize : Nat) : Reno :=
  { c with ssthresh := c.lossWindow flightSize, cwnd := c.mss, caAcc := 0 }

instance : CongestionControl Reno where
  new _ mss := Reno.new mss
  cwnd := Reno.cwnd
  onAck c _ acked := c.onAck acked
  onDupAck c _ flight := c.onDupAck flight
  enterRecovery c _ flight := c.enterRecovery flight
  onRto c _ flight := c.onRto flight

end Reno

end Ferrumnet
