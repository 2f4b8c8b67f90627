import Ferrumnet.Seq
import Ferrumnet.Buffers

/-
  Segments (`wire/tcp.rs`, `iface.rs`): what the connection emits (`TcpRepr`)
  and the view it reads on receipt (`TcpPacket`).

  A datagram is kept as its fields. `Datagram.parse` is what the accessors of
  the receiving side read back from the emitted bytes: the option caps of the
  emitter and of the parser are in it, the byte layout is not.
-/

namespace Ferrumnet

/-- An IPv4 address and a TCP port. -/
structure Endpoint where
  ip : BitVec 32
  port : UInt16
  deriving DecidableEq, Repr

structure TcpFlags where
  fin : Bool := false
  syn : Bool := false
  rst : Bool := false
  psh : Bool := false
  ack : Bool := false
  ece : Bool := false
  cwr : Bool := false
  deriving DecidableEq, Repr

/-- A range `(left, right)` reported by the SACK option. -/
abbrev SackBlock := SeqNumber × SeqNumber

def maxSackBlocks : Nat := 4

/-- A segment to emit. -/
structure TcpRepr where
  srcPort : UInt16
  dstPort : UInt16
  seq : SeqNumber
  ack : SeqNumber
  flags : TcpFlags
  window : Nat
  mss : Option Nat
  sackPermitted : Bool
  sack : List SackBlock
  windowScale : Option Nat
  /-- `(TSval, TSecr)`. -/
  timestamps : Option (BitVec 32 × BitVec 32)
  /-- The AccECN AE bit. -/
  ae : Bool
  deriving DecidableEq, Repr

namespace TcpRepr

/-- SACK blocks that fit the 40-byte option area: 3 beside timestamps. -/
def sackBlocksToEmit (r : TcpRepr) : Nat :=
  min r.sack.length (if r.timestamps.isSome then 3 else maxSackBlocks)

end TcpRepr

/-- The accessors of a received segment. -/
structure TcpPacket where
  srcPort : UInt16
  dstPort : UInt16
  seq : SeqNumber
  ack : SeqNumber
  flags : TcpFlags
  ae : Bool
  window : Nat
  mssOption : Option Nat
  timestamps : Option (BitVec 32 × BitVec 32)
  windowScale : Option Nat
  sackPermitted : Bool
  sackBlocks : List SackBlock
  payload : Bytes
  deriving DecidableEq, Repr

/-- The 3-bit AccECN counter `AE·CWR·ECE`. -/
def TcpPacket.ace (p : TcpPacket) : Nat :=
  4 * p.ae.toNat + 2 * p.flags.cwr.toNat + p.flags.ece.toNat

/-- `payload.len() + SYN + FIN`: the sequence space the segment occupies. -/
def TcpPacket.segLen (p : TcpPacket) : Nat :=
  p.payload.len + p.flags.syn.toNat + p.flags.fin.toNat

/-- An emitted IPv4 + TCP datagram. -/
structure Datagram where
  src : Endpoint
  dst : Endpoint
  repr : TcpRepr
  payload : Bytes
  deriving DecidableEq, Repr

/-- Build one datagram from `local` to `remote`. -/
def buildSegment (loc remote : Endpoint) (tcp : TcpRepr) (payload : Bytes) : Datagram :=
  { src := loc, dst := remote, repr := tcp, payload := payload }

/-- The datagram as its receiver reads it: at most the SACK blocks that fit are
there, and the window-scale shift is clamped to 14. -/
def Datagram.parse (d : Datagram) : TcpPacket :=
  { srcPort := d.repr.srcPort
    dstPort := d.repr.dstPort
    seq := d.repr.seq
    ack := d.repr.ack
    flags := d.repr.flags
    ae := d.repr.ae
    window := d.repr.window
    mssOption := d.repr.mss
    timestamps := d.repr.timestamps
    windowScale := d.repr.windowScale.map (min · 14)
    sackPermitted := d.repr.sackPermitted
    sackBlocks := d.repr.sack.take d.repr.sackBlocksToEmit
    payload := d.payload }

end Ferrumnet
