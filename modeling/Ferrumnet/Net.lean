import Ferrumnet.Lib.Run
import Ferrumnet.Sender
import Ferrumnet.Refine

/-
  Two endpoints and the network between them.

  Each side may open actively or accept a SYN of the other side; then the
  application, the clock and the network act on it in any order. What a side has
  emitted stays on its wire, and any packet of it may be delivered any number of
  times, in any order, or never: the network drops, duplicates, delays and
  reorders, but neither corrupts nor invents.

  A host carries, beside its Tcb, the bytes its application has had accepted and
  has been handed out, and `SND.UNA`, `RCV.NXT` and the advertised edge as
  unwrapped positions of the two streams. They record what the Tcb did and have
  no influence on it. A packet carries its sequence and acknowledgement numbers
  as positions in the same way.
-/

namespace Ferrumnet

inductive Side where
  | a | b
  deriving DecidableEq, Repr

def Side.other : Side → Side
  | .a => .b
  | .b => .a

@[simp] theorem Side.other_other (x : Side) : x.other.other = x := by cases x <;> rfl

theorem Side.eq_or_other (x y : Side) : y = x ∨ y = x.other := by cases x <;> cases y <;> simp [other]

@[simp] theorem Side.other_ne (x : Side) : x.other ≠ x := by cases x <;> simp [other]

/-- A datagram on the wire, with the positions of its two numbers. -/
structure Packet where
  dgram : Datagram
  seqPos : Nat
  ackPos : Nat
  deriving DecidableEq, Repr

structure Host (κ : Type) where
  tcb : Tcb κ
  /-- The bytes accepted by `send`. -/
  sent : List UInt8
  /-- The bytes handed out by `recv`. -/
  got : List UInt8
  una : Nat
  rcv : Nat
  adv : Nat

/-- The options of a SYN that are left to be negotiated. -/
structure Offered where
  mss : Bool
  timestamps : Bool
  windowScale : Bool
  sack : Bool
  deriving DecidableEq, Repr

/-- A SYN with only some of its options. -/
def Offered.restrict (o : Offered) (p : TcpPacket) : TcpPacket :=
  { p with
    mssOption := if o.mss then p.mssOption else none
    timestamps := if o.timestamps then p.timestamps else none
    windowScale := if o.windowScale then p.windowScale else none
    sackPermitted := o.sack && p.sackPermitted }

namespace Host

variable {κ : Type} [CongestionControl κ]

/-- A Tcb just opened. -/
def fresh (t : Tcb κ) : Host κ :=
  { tcb := t, sent := [], got := [], una := 0
    rcv := t.rcvNxt.offsetFrom t.irs, adv := t.rcvAdv.offsetFrom t.irs }

/-- The host after a step of its Tcb: the positions follow. The peer's sequence
space is learned when SYN-SENT is left. -/
def follow (h : Host κ) (t : Tcb κ) : Host κ :=
  { h with
    tcb := t
    una := h.una + t.sndUna.offsetFrom h.tcb.sndUna
    rcv :=
      if h.tcb.state = .synSent then t.rcvNxt.offsetFrom t.irs
      else h.rcv + t.rcvNxt.offsetFrom h.tcb.rcvNxt
    adv :=
      if h.tcb.state = .synSent then t.rcvAdv.offsetFrom t.irs
      else h.adv + t.rcvAdv.offsetFrom h.tcb.rcvAdv }

/-- The position of `SND.NXT`. -/
def nxt (h : Host κ) : Nat := h.una + h.tcb.inflight

/-- A datagram emitted by the host. -/
def label (h : Host κ) (d : Datagram) : Packet :=
  { dgram := d, seqPos := h.una + d.repr.seq.offsetFrom h.tcb.sndUna, ackPos := h.rcv }

end Host

structure World (κ : Type) where
  hostA : Option (Host κ)
  hostB : Option (Host κ)
  /-- All that each side has emitted. -/
  wireA : List Packet
  wireB : List Packet

inductive Action where
  | connect (x : Side) (loc remote : Endpoint) (iss : SeqNumber) (now : Instant) (mss : Nat)
      (kind : CcKind)
  | accept (x : Side) (i : Nat) (offered : Offered) (iss : SeqNumber) (now : Instant) (mss : Nat)
      (kind : CcKind)
  | send (x : Side) (data : Bytes)
  | recv (x : Side) (n : Nat)
  | close (x : Side)
  | deliver (x : Side) (i : Nat) (now : Instant) (ce : Bool)
  | timer (x : Side) (now : Instant)
  | poll (x : Side) (now : Instant)
  deriving DecidableEq, Repr

namespace World

variable {κ : Type}

def init : World κ := { hostA := none, hostB := none, wireA := [], wireB := [] }

def host (w : World κ) : Side → Option (Host κ)
  | .a => w.hostA
  | .b => w.hostB

def wire (w : World κ) : Side → List Packet
  | .a => w.wireA
  | .b => w.wireB

def setHost (w : World κ) (x : Side) (h : Host κ) : World κ :=
  match x with
  | .a => { w with hostA := some h }
  | .b => { w with hostB := some h }

/-- Put what was emitted on the wire. -/
def transmit (w : World κ) (x : Side) (p : Option Packet) : World κ :=
  match x with
  | .a => { w with wireA := w.wireA ++ p.toList }
  | .b => { w with wireB := w.wireB ++ p.toList }

section Access

variable (w : World κ) (x : Side) (h : Host κ) (p : Option Packet)

@[simp] theorem host_setHost : (w.setHost x h).host x = some h := by cases x <;> rfl

@[simp] theorem host_setHost_other : (w.setHost x h).host x.other = w.host x.other := by
  cases x <;> rfl

@[simp] theorem wire_setHost (y : Side) : (w.setHost x h).wire y = w.wire y := by
  cases x <;> cases y <;> rfl

@[simp] theorem host_transmit (y : Side) : (w.transmit x p).host y = w.host y := by
  cases x <;> cases y <;> rfl

@[simp] theorem wire_transmit : (w.transmit x p).wire x = w.wire x ++ p.toList := by
  cases x <;> rfl

@[simp] theorem wire_transmit_other : (w.transmit x p).wire x.other = w.wire x.other := by
  cases x <;> rfl

end Access

variable [CongestionControl κ]

/-- The stack accepts a SYN without ACK and RST. -/
def opens (p : Packet) : Bool :=
  p.dgram.repr.flags.syn && !p.dgram.repr.flags.ack && !p.dgram.repr.flags.rst

def apply (w : World κ) : Action → Option (World κ)
  | .connect x loc remote iss now mss kind =>
    match w.host x with
    | some _ => none
    | none =>
      some (w.setHost x (.fresh ((Tcb.newSynSent loc remote iss now mss).setCongestionControl kind)))
  | .accept x i offered iss now mss kind =>
    match w.host x, (w.wire x.other)[i]? with
    | none, some p =>
      if opens p then
        some (w.setHost x (.fresh ((Tcb.newSynReceived p.dgram.dst p.dgram.src
          (offered.restrict p.dgram.parse) iss now mss).setCongestionControl kind)))
      else none
    | _, _ => none
  | .send x data =>
    match w.host x with
    | some h =>
      let r := h.tcb.send data
      some (w.setHost x { h.follow r.1 with sent := h.sent ++ data.data.take r.2 })
    | none => none
  | .recv x n =>
    match w.host x with
    | some h =>
      let r := h.tcb.recv n
      some (w.setHost x { h.follow r.1 with got := h.got ++ r.2.data })
    | none => none
  | .close x =>
    match w.host x with
    | some h => some (w.setHost x (h.follow h.tcb.close))
    | none => none
  | .deliver x i now ce =>
    match w.host x, (w.wire x.other)[i]? with
    | some h, some p => some (w.setHost x (h.follow (h.tcb.onSegment now p.dgram.parse ce)))
    | _, _ => none
  | .timer x now =>
    match w.host x with
    | some h => some (w.setHost x (h.follow (h.tcb.onTimer now)))
    | none => none
  | .poll x now =>
    match w.host x with
    | some h =>
      let r := h.tcb.pollTransmit now
      some ((w.setHost x (h.follow r.1)).transmit x (r.2.map h.label))
    | none => none

/-- A three-way handshake: side `a` connects, side `b` accepts. -/
def handshake : List Action :=
  [.connect .a ⟨1, 1000⟩ ⟨2, 80⟩ (SeqNumber.new 100) ⟨0⟩ 65495 .reno, .poll .a ⟨0⟩,
    .accept .b 0 ⟨true, true, true, true⟩ (SeqNumber.new 4294967290) ⟨0⟩ 65495 .reno, .poll .b ⟨0⟩,
    .deliver .a 0 ⟨0⟩ false, .poll .a ⟨0⟩, .deliver .b 1 ⟨0⟩ false]

/-! ## What can be observed -/

/-- The bytes accepted from the application of one side. -/
def sent (w : World κ) (x : Side) : List UInt8 := ((w.host x).map Host.sent).getD []

/-- The bytes handed out to the application of one side. -/
def got (w : World κ) (x : Side) : List UInt8 := ((w.host x).map Host.got).getD []

/-- `recv_eof` on one side. -/
def eof (w : World κ) (x : Side) : Bool := ((w.host x).map fun h => h.tcb.recvEof).getD false

/-- One side has emitted its FIN. -/
def finEmitted (w : World κ) (x : Side) : Bool := (w.wire x).any fun p => p.dgram.repr.flags.fin

end World

end Ferrumnet
