import Ferrumnet.Buffers
import Ferrumnet.Seq
import Ferrumnet.Wire

/-
  Initial sequence numbers (`isn.rs`): a 4-µs clock plus SipHash-2-4 of the
  connection's two endpoints under a secret key.
-/

namespace Ferrumnet

/-- The internal state of SipHash. -/
structure SipState where
  v0 : BitVec 64
  v1 : BitVec 64
  v2 : BitVec 64
  v3 : BitVec 64
  deriving DecidableEq, Repr

namespace SipState

def round (s : SipState) : SipState :=
  let v0 := s.v0 + s.v1
  let v1 := s.v1.rotateLeft 13 ^^^ v0
  let v0 := v0.rotateLeft 32
  let v2 := s.v2 + s.v3
  let v3 := s.v3.rotateLeft 16 ^^^ v2
  let v0 := v0 + v3
  let v3 := v3.rotateLeft 21 ^^^ v0
  let v2 := v2 + v1
  let v1 := v1.rotateLeft 17 ^^^ v2
  let v2 := v2.rotateLeft 32
  { v0 := v0, v1 := v1, v2 := v2, v3 := v3 }

/-- Absorb one 64-bit word. -/
def absorb (s : SipState) (m : BitVec 64) : SipState :=
  let s := { s with v3 := s.v3 ^^^ m }.round.round
  { s with v0 := s.v0 ^^^ m }

end SipState

/-- A little-endian word. -/
def fromLe : List UInt8 → BitVec 64
  | [] => 0
  | b :: rest => BitVec.ofNat 64 b.toNat ||| fromLe rest <<< 8

/-- Eight bytes a word; what is left is padded, with the length in the top byte. -/
def sipWords (len : Nat) : List UInt8 → List (BitVec 64)
  | b0 :: b1 :: b2 :: b3 :: b4 :: b5 :: b6 :: b7 :: rest =>
    fromLe [b0, b1, b2, b3, b4, b5, b6, b7] :: sipWords len rest
  | tail => [BitVec.ofNat 64 len <<< 56 ||| fromLe tail]

def siphash24 (k0 k1 : BitVec 64) (data : List UInt8) : BitVec 64 :=
  let s : SipState :=
    { v0 := k0 ^^^ 0x736f6d6570736575, v1 := k1 ^^^ 0x646f72616e646f6d
      v2 := k0 ^^^ 0x6c7967656e657261, v3 := k1 ^^^ 0x7465646279746573 }
  let s := (sipWords data.length data).foldl SipState.absorb s
  let s := { s with v2 := s.v2 ^^^ 0xff }.round.round.round.round
  s.v0 ^^^ s.v1 ^^^ s.v2 ^^^ s.v3

structure IsnGenerator where
  k0 : BitVec 64
  k1 : BitVec 64
  deriving DecidableEq, Repr

/-- The two addresses and the two ports, big-endian. -/
def Endpoint.tuple (loc remote : Endpoint) : List UInt8 :=
  let be (n count : Nat) := (List.range count).reverse.map fun i => UInt8.ofNat (n / 256 ^ i)
  be loc.ip.toNat 4 ++ be remote.ip.toNat 4 ++ be loc.port.toNat 2 ++ be remote.port.toNat 2

def IsnGenerator.generate (g : IsnGenerator) (loc remote : Endpoint) (now : Instant) : SeqNumber :=
  ⟨BitVec.ofNat 32 (now.micros / 4) + (siphash24 g.k0 g.k1 (loc.tuple remote)).setWidth 32⟩

/-- The reference vector: key `00..0f`, input `00..0e`. -/
example : siphash24 0x0706050403020100 0x0f0e0d0c0b0a0908
    ((List.range 15).map UInt8.ofNat) = 0xa129ca6149be45e5 := by decide +kernel

end Ferrumnet
