import Mathlib.Data.List.AList
import Ferrumnet.Isn
import Ferrumnet.Octets
import Ferrumnet.Outbound

/-
  The connection driver (`iface.rs`): the listening endpoint and the table of
  connections, keyed by the remote endpoint.

  The order in which the table is walked is not specified by the source; here it
  is that of the association list.
-/

namespace Ferrumnet

/-- The fields of a checked IPv4 datagram that the stack reads. -/
structure Ipv4Packet where
  src : BitVec 32
  dst : BitVec 32
  protocol : Nat
  ecn : Nat
  payload : List UInt8
  deriving DecidableEq, Repr

def ecnCe : Nat := 3

def ephemeralMin : UInt16 := 49152
def ephemeralMax : UInt16 := 65535

/-- The connection table. -/
abbrev Conns (κ : Type) := AList fun _ : Endpoint => Tcb κ

structure Stack (κ : Type) where
  localEnd : Endpoint
  isn : IsnGenerator
  conns : Conns κ
  /-- Datagrams of no connection: resets to unknown peers. -/
  pending : List Datagram
  mssAdvertise : Nat
  ephemeralNext : UInt16
  ccKind : CcKind

/-- The reset for a segment that hit no connection. -/
def connectionlessReset (loc remote : Endpoint) (tcp : TcpPacket) : Datagram :=
  let (seq, ack, flags) : SeqNumber × SeqNumber × TcpFlags :=
    if tcp.flags.ack then (tcp.ack, SeqNumber.new 0, { rst := true })
    else (SeqNumber.new 0, tcp.seq + tcp.segLen, { rst := true, ack := true })
  buildSegment loc remote
    { srcPort := loc.port
      dstPort := remote.port
      seq := seq
      ack := ack
      flags := flags
      window := 0
      mss := none
      sackPermitted := false
      sack := []
      windowScale := none
      timestamps := none
      ae := false } Bytes.empty

namespace Stack

variable {κ : Type} [CongestionControl κ]

def new (loc : Endpoint) (isn : IsnGenerator) (mssAdvertise : Nat) : Stack κ :=
  { localEnd := loc, isn := isn, conns := ∅, pending := [], mssAdvertise := mssAdvertise
    ephemeralNext := ephemeralMin, ccKind := .reno }

variable (s : Stack κ)

/-- Put a connection into the table, or back into it. -/
def setConn (remote : Endpoint) (t : Tcb κ) : Stack κ :=
  { s with conns := s.conns.insert remote t }

def connection (remote : Endpoint) : Option (Tcb κ) := s.conns.lookup remote

/-- The next ephemeral port, skipping the listen port: a second turn of the loop
never meets it again. -/
def nextEphemeralPort : Stack κ × UInt16 :=
  let bump (p : UInt16) := if p = ephemeralMax then ephemeralMin else p + 1
  let p := s.ephemeralNext
  if p ≠ s.localEnd.port then ({ s with ephemeralNext := bump p }, p)
  else ({ s with ephemeralNext := bump (bump p) }, bump p)

/-- Begin an active open. -/
def connect (remote : Endpoint) (now : Instant) : Stack κ :=
  let (s, port) := s.nextEphemeralPort
  let loc : Endpoint := ⟨s.localEnd.ip, port⟩
  let iss := s.isn.generate loc remote now
  s.setConn remote ((Tcb.newSynSent loc remote iss now s.mssAdvertise).setCongestionControl s.ccKind)

/-- One segment that passed the checks: to its connection, or to the listener. -/
def demux (now : Instant) (remote : Endpoint) (tcp : TcpPacket) (ce : Bool) : Stack κ :=
  match s.connection remote with
  | some t =>
    if tcp.dstPort = t.localEnd.port then s.setConn remote (t.onSegment now tcp ce) else s
  | none =>
    if tcp.dstPort ≠ s.localEnd.port then s
    else if tcp.flags.syn && !tcp.flags.ack && !tcp.flags.rst then
      let iss := s.isn.generate s.localEnd remote now
      s.setConn remote
        ((Tcb.newSynReceived s.localEnd remote tcp iss now s.mssAdvertise).setCongestionControl s.ccKind)
    else if !tcp.flags.rst then
      { s with pending := s.pending ++ [connectionlessReset s.localEnd remote tcp] }
    else s

/-- Feed one received datagram. A zero checksum field is accepted unverified. -/
def onRecv (now : Instant) (ip : Ipv4Packet) : Stack κ :=
  if ip.protocol ≠ ipprotoTcp || ip.dst ≠ s.localEnd.ip then s
  else
    match TcpPacket.newChecked ip.payload with
    | .error _ => s
    | .ok tcp =>
      if TcpPacket.checksum ip.payload ≠ 0 && !tcpChecksumValid ip.src ip.dst ip.payload then s
      else s.demux now ⟨ip.src, tcp.srcPort⟩ tcp (ip.ecn = ecnCe)

/-! ## The table -/

section Table

omit [CongestionControl κ]

variable {remote remote' : Endpoint} {t : Tcb κ}

@[simp] theorem connection_setConn : (s.setConn remote t).connection remote = some t :=
  AList.lookup_insert _

theorem connection_setConn_ne (h : remote' ≠ remote) :
    (s.setConn remote t).connection remote' = s.connection remote' := AList.lookup_insert_ne h

@[simp] theorem localEnd_setConn : (s.setConn remote t).localEnd = s.localEnd := rfl

end Table

variable {s} {now : Instant} {remote : Endpoint} {tcp : TcpPacket} {ce : Bool} {t : Tcb κ}

/-- A segment for a connection. -/
theorem demux_conn (h : s.connection remote = some t) (hp : tcp.dstPort = t.localEnd.port) :
    s.demux now remote tcp ce = s.setConn remote (t.onSegment now tcp ce) := by
  simp only [demux, h, hp, if_true]

/-- A datagram that passes the checks. -/
theorem onRecv_checked (ip : Ipv4Packet) (hproto : ip.protocol = ipprotoTcp)
    (hdst : ip.dst = s.localEnd.ip) (hparse : TcpPacket.newChecked ip.payload = .ok tcp)
    (hcsum : TcpPacket.checksum ip.payload = 0 ∨
      tcpChecksumValid ip.src ip.dst ip.payload = true) :
    s.onRecv now ip = s.demux now ⟨ip.src, tcp.srcPort⟩ tcp (ip.ecn = ecnCe) := by
  rw [onRecv, if_neg (by simp [hproto, hdst]), hparse]
  dsimp only
  rw [if_neg]
  rcases hcsum with h | h <;> simp [h]

end Stack

end Ferrumnet
