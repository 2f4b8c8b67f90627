import Ferrumnet.Lib.Straight
import Ferrumnet.Scalable

/-
  The synthesised controller (`congestion.rs`): its three responses are programs of a
  register machine over the live signals, and nothing but the floors of the conversion to
  bytes stands between a program and the window.

  The registers are rationals. The source's guard also maps NaN to 0, which no rational
  is; with division protected there is none.
-/

namespace Ferrumnet

/-- Input registers. -/
def synthRegsIn : Nat := 8

/-- Instructions of a sub-program. -/
def synthProgLen : Nat := 8

/-- The cap on every register value, in segments. -/
def synthCap : ℚ := 1000000000

/-- The cap on a synthesised window, in bytes. -/
def synthCwndCap : Nat := 1073741824

def rFlight : UInt8 := 1
def rAlpha : UInt8 := 3
def rHalf : UInt8 := 5
def rOne : UInt8 := 6

inductive SynthOp where
  | add | sub | mul | div | min | max
  deriving DecidableEq, Repr

/-- Division by zero is zero. -/
def SynthOp.apply : SynthOp → ℚ → ℚ → ℚ
  | .add, a, b => a + b
  | .sub, a, b => a - b
  | .mul, a, b => a * b
  | .div, a, b => if b = 0 then 0 else a / b
  | .min, a, b => if a < b then a else b
  | .max, a, b => if a > b then a else b

/-- `r[n] = op(r[a], r[b])`, with operands clamped to the registers before it. -/
structure Instr where
  op : SynthOp
  a : UInt8
  b : UInt8
  deriving DecidableEq, Repr

/-- A sub-program. -/
abbrev SubProgram := Vector Instr 8

/-- `op(r[a], r[b])` in the first slot, handed on to the output by `max(x, x)`. -/
def seedProg (op : SynthOp) (a b : UInt8) : SubProgram :=
  Vector.ofFn fun i =>
    if i = 0 then ⟨op, a, b⟩
    else
      let prev := UInt8.ofNat (synthRegsIn + i - 1)
      ⟨.max, prev, prev⟩

/-- The increase, the loss response and the ECN response. -/
structure ControlProgram where
  inc : SubProgram
  md : SubProgram
  ecn : SubProgram
  deriving DecidableEq

namespace ControlProgram

/-- Reno's increase and decrease, and DCTCP's ECN response. -/
def aimd : ControlProgram :=
  { inc := seedProg .max rOne rOne
    md := seedProg .mul rFlight rHalf
    ecn := seedProg .mul rAlpha rHalf }

/-- The register before the output. -/
def outPrev : UInt8 := UInt8.ofNat (synthRegsIn + synthProgLen - 2)

/-- The loss output clamped to the flight. -/
def repairLoss (p : ControlProgram) : ControlProgram :=
  { p with md := p.md.set 7 ⟨.min, outPrev, rFlight⟩ }

/-- The increase clamped to half a segment at least. -/
def repairIncrease (p : ControlProgram) : ControlProgram :=
  { p with inc := p.inc.set 7 ⟨.max, outPrev, rHalf⟩ }

/-- The ECN response reset to DCTCP's. -/
def repairEcn (p : ControlProgram) : ControlProgram := { p with ecn := aimd.ecn }

end ControlProgram

def synthGuard (v : ℚ) : ℚ := clamp v (-synthCap) synthCap

/-- The register machine; every result is guarded. -/
def synthMachine : Straight.Machine Instr ℚ :=
  { sem := fun ins a b => synthGuard (ins.op.apply a b)
    lhs := fun ins => ins.a.toNat
    rhs := fun ins => ins.b.toNat
    blank := 0 }

/-- The output register after a sub-program. -/
def synthEval (prog : SubProgram) (inputs : List ℚ) : ℚ :=
  (Straight.run synthMachine inputs prog.toList).getD (synthRegsIn + synthProgLen - 1) 0

/-- A synthesised window in bytes: at least the floor, at most the cap. -/
def synthToCwnd (v : ℚ) (floor : Nat) : Nat :=
  if v < floor then floor else if v > synthCwndCap then synthCwndCap else toU32 v

structure Synth extends Reno, MarkWindow where
  prog : ControlProgram
  srttUs : Nat
  /-- 0 before the first measurement. -/
  rttMinUs : Nat
  deriving DecidableEq

namespace Synth

def withProgram (mss : Nat) (prog : ControlProgram) : Synth :=
  { toReno := Reno.new mss, toMarkWindow := MarkWindow.new mss, prog := prog, srttUs := 0, rttMinUs := 0 }

def new (mss : Nat) : Synth := withProgram mss ControlProgram.aimd

/-- The signals: windows and bytes in segments, the marked fraction, the inflation of the
RTT, and three constants. -/
def signals (c : Synth) (flight acked : Nat) : List ℚ :=
  let mss : ℚ := (max c.mss 1 : Nat)
  [c.cwnd / mss, flight / mss, acked / mss, c.alpha,
    if c.rttMinUs > 0 ∧ c.srttUs > 0 then c.srttUs / c.rttMinUs else 1, 1 / 2, 1, 2]

/-- The loss response, at least two segments. -/
def lossTarget (c : Synth) (flightSize : Nat) : Nat :=
  synthToCwnd (synthEval c.prog.md (c.signals flightSize 0) * c.mss) (2 * c.mss)

/-- The loop of congestion avoidance with a step of either sign. -/
def creditTo (step : ℚ) : Nat → Reno → Reno
  | 0, c => c
  | fuel + 1, c =>
    if c.caAcc ≥ c.cwnd then
      creditTo step fuel { c with caAcc := c.caAcc - c.cwnd, cwnd := synthToCwnd (c.cwnd + step) c.mss }
    else c

def onAck (c : Synth) (acked : Nat) : Synth :=
  let r := { c.toReno with dupAcks := 0 }
  if acked = 0 then { c with toReno := r }
  else if r.inSlowStart then { c with toReno := { r with cwnd := min (r.cwnd + min acked r.mss) u32Max } }
  else
    let r := { r with caAcc := min (r.caAcc + acked) u32Max }
    let step := synthEval c.prog.inc (c.signals c.cwnd acked) * c.mss
    { c with toReno := creditTo step r.caAcc r }

def onDupAck (c : Synth) (flightSize : Nat) : Synth × Bool :=
  ({ c with toReno := (c.toReno.onDupAckTo (c.lossTarget flightSize)).1 },
    (c.toReno.onDupAckTo (c.lossTarget flightSize)).2)

def enterRecovery (c : Synth) (flightSize : Nat) : Synth :=
  let w := c.lossTarget flightSize
  { c with ssthresh := w, cwnd := w, caAcc := 0, dupAcks := 0 }

def onRto (c : Synth) (flightSize : Nat) : Synth :=
  { c with ssthresh := c.lossTarget flightSize, cwnd := c.mss, caAcc := 0 }

/-- The program reads the refreshed average. -/
def onEcn (c : Synth) (acked marked : Nat) : Synth :=
  if acked = 0 then c
  else
    let m := c.toMarkWindow.count acked marked
    if m.ackedInWindow < m.windowBytes then { c with toMarkWindow := m }
    else
      let cut := synthEval c.prog.ecn ({ c with alpha := m.nextAlpha }.signals c.cwnd 0)
      let w := synthToCwnd (c.cwnd * (1 - cut)) c.mss
      { c with
        toReno := if m.markedInWindow > 0 then { c.toReno with cwnd := w, ssthresh := w, caAcc := 0 } else c.toReno
        toMarkWindow :=
          { alpha := m.nextAlpha, ackedInWindow := 0, markedInWindow := 0, windowBytes := max c.cwnd c.mss } }

def onRttSample (c : Synth) (srttUs : Nat) : Synth :=
  { c with
    srttUs := srttUs
    rttMinUs := if srttUs > 0 then if c.rttMinUs = 0 then srttUs else min c.rttMinUs srttUs else c.rttMinUs }

instance : CongestionControl Synth where
  new _ mss := Synth.new mss
  cwnd c := c.cwnd
  onAck c _ acked := c.onAck acked
  onDupAck c _ flight := c.onDupAck flight
  enterRecovery c _ flight := c.enterRecovery flight
  onRto c _ flight := c.onRto flight
  onEcn c _ acked marked := c.onEcn acked marked
  onRttSample c srtt := c.onRttSample srtt

end Synth

end Ferrumnet
