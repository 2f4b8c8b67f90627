import Ferrumnet.Checksum
import Ferrumnet.Ipv4

/-
  ICMP echo (`wire/icmp.rs`): the answer to a ping.

  1. `Answers` — what a reply is to the datagram that asked for it.
  2. `echo_reply_exact` — the code replies to the echo requests that fit its buffer and to
     nothing else, with such an answer; an answer is never answered.
-/

namespace Ferrumnet

open OnesComplement (octetSum)

namespace Icmp

def ipprotoIcmp : Nat := 1
def icmpEchoReply : UInt8 := 0
def icmpEchoRequest : UInt8 := 8

/-- Type, code, checksum, identifier and sequence number. -/
def icmpEchoMinLen : Nat := 8

/-- The reply to a request: everything behind its checksum is echoed. -/
def replyBody (request : List UInt8) (csum : Nat) : List UInt8 :=
  [icmpEchoReply, 0] ++ (be16 csum ++ request.drop 4)

/-- The length of the reply and the buffer it was written to. -/
def echoReply (ip : Ipv4Packet) (out : List UInt8) : Option (Nat × List UInt8) :=
  if ip.protocol ≠ ipprotoIcmp then none
  else
    let request := ip.payload
    if request.length < icmpEchoMinLen ∨ TcpPacket.octet request 0 ≠ icmpEchoRequest then none
    else
      let total := 20 + request.length
      if out.length < total then none
      else
        let repr : Ipv4Repr :=
          { src := ip.dst
            dst := ip.src
            protocol := UInt8.ofNat ipprotoIcmp
            payloadLen := UInt16.ofNat request.length
            ttl := 64
            ecn := 0 }
        let body := replyBody request (ipChecksum (replyBody request 0))
        some (total, repr.emit ++ body ++ out.drop total)

/-- The buffer `tx` of the runtime has room for a frame of the device. -/
def txRoom (mtu : Nat) : Nat := mtu + 64

/-- What the runtime sends back for a frame, if it is ICMP. -/
def answer (mtu : Nat) (frame : List UInt8) : Option (List UInt8) :=
  match Ipv4Packet.newChecked frame with
  | .error _ => none
  | .ok ip => (echoReply ip (List.replicate (txRoom mtu) 0)).map fun p => p.2.take p.1

/-! ## The reply -/

/-- An echo request, as the code tells it from other datagrams. -/
structure Asks (ip : Ipv4Packet) : Prop where
  protocol : ip.protocol = ipprotoIcmp
  length : icmpEchoMinLen ≤ ip.payload.length
  kind : ip.payload[0]? = some icmpEchoRequest

/-- The reply to it: a datagram back to the sender whose checksums hold, with the same
identifier, sequence number and data. -/
structure Answers (ip : Ipv4Packet) (reply : List UInt8) (body : List UInt8) : Prop where
  parses : Ipv4Packet.newChecked reply = .ok ⟨ip.dst, ip.src, ipprotoIcmp, 0, body⟩
  header : Ipv4Packet.checksumValid reply = true
  checksum : fold (accumulate 0 body) = 0xffff
  kind : body.take 2 = [icmpEchoReply, 0]
  data : body.drop 4 = ip.payload.drop 4
  length : body.length = ip.payload.length

theorem length_replyBody {request : List UInt8} (h : icmpEchoMinLen ≤ request.length) (csum : Nat) :
    (replyBody request csum).length = request.length := by
  simp only [replyBody, be16, List.length_append, List.length_cons, List.length_nil, List.length_drop]
  rw [icmpEchoMinLen] at h
  omega

/-- The checksum is what the sum of the rest lacks. -/
theorem fold_replyBody (request : List UInt8) :
    fold (accumulate 0 (replyBody request (ipChecksum (replyBody request 0)))) = 0xffff := by
  have hsum : ∀ csum, octetSum (replyBody request csum) = octetSum (be16 csum) + octetSum (request.drop 4) := by
    intro csum
    have hkind : octetSum [icmpEchoReply, 0] = 0 := rfl
    rw [replyBody, OnesComplement.octetSum_append _ _ (by rfl), OnesComplement.octetSum_append _ _ (by simp [be16]), hkind,
      Nat.zero_add]
  have hfold := OnesComplement.fold_mod 16 (accumulate 0 (replyBody request 0))
  have hlt := OnesComplement.fold_lt (w := 16) (by omega) (accumulate 0 (replyBody request 0))
  have hfoldzero := OnesComplement.fold_eq_zero 16 (accumulate 0 (replyBody request 0))
  have hzero := accumulate_mod 0 (replyBody request 0)
  have hzeroeq := accumulate_eq_zero 0 (replyBody request 0)
  have hemit := accumulate_mod 0 (replyBody request (ipChecksum (replyBody request 0)))
  have hemiteq := accumulate_eq_zero 0 (replyBody request (ipChecksum (replyBody request 0)))
  have hfield : octetSum (be16 (ipChecksum (replyBody request 0))) = ipChecksum (replyBody request 0) := by
    have : ipChecksum (replyBody request 0) ≤ 65535 := Nat.sub_le _ _
    simp only [be16, octetSum, UInt8.toNat_ofNat']
    omega
  have hnone : octetSum (be16 0) = 0 := rfl
  have hcsum : ipChecksum (replyBody request 0) + OnesComplement.fold 16 (accumulate 0 (replyBody request 0)) = 65535 := by
    rw [ipChecksum, fold]
    omega
  rw [hsum, hnone] at hzero hzeroeq
  rw [hsum, hfield] at hemit hemiteq
  refine (OnesComplement.fold_eq_ones (w := 16) (by omega) _).mpr ⟨?_, ?_⟩
  · omega
  · omega

/-- A datagram is no longer than its length field says. -/
theorem payload_le {frame : List UInt8} {ip : Ipv4Packet} (h : Ipv4Packet.newChecked frame = .ok ip) :
    20 + ip.payload.length < 65536 := by
  unfold Ipv4Packet.newChecked at h
  split at h
  · cases h
  · split at h
    · cases h
    · split at h
      · cases h
      · split at h
        · cases h
        · split at h
          · cases h
          · rename_i hihl htotal _
            cases h
            have hmax : Ipv4Packet.totalLen frame < 65536 := by
              have h0 := (TcpPacket.octet frame 2).toNat_lt
              have h1 := (TcpPacket.octet frame 3).toNat_lt
              simp only [Ipv4Packet.totalLen, TcpPacket.read16, fromBe16, Nat.reduceAdd]
              omega
            simp only [Ipv4Packet.ofOctets, List.length_drop, List.length_take]
            omega

theorem octet_zero {request : List UInt8} (h : icmpEchoMinLen ≤ request.length) :
    request[0]? = some (TcpPacket.octet request 0) := by
  rw [icmpEchoMinLen] at h
  rw [TcpPacket.octet, List.getD_eq_getElem?_getD, List.getElem?_eq_getElem (by omega), Option.getD_some]

/-- Nothing is sent back to a reply. -/
theorem echoReply_reply {ip : Ipv4Packet} (h : ip.payload.take 2 = [icmpEchoReply, 0]) (out : List UInt8) :
    echoReply ip out = none := by
  have hkind : TcpPacket.octet ip.payload 0 ≠ icmpEchoRequest := by
    obtain ⟨src, dst, protocol, ecn, payload⟩ := ip
    cases payload with
    | nil => cases h
    | cons b payload =>
      have hb : b = icmpEchoReply := List.head_eq_of_cons_eq h
      show b ≠ icmpEchoRequest
      rw [hb]
      decide
  unfold echoReply
  split
  · rfl
  · dsimp only
    rw [if_pos (.inr hkind)]

theorem echoReply_some {ip : Ipv4Packet} {out : List UInt8} {p : Nat × List UInt8} (h : echoReply ip out = some p) :
    Asks ip ∧ 20 + ip.payload.length ≤ out.length ∧ p.1 = 20 + ip.payload.length := by
  unfold echoReply at h
  split at h
  · cases h
  · rename_i hproto
    dsimp only at h
    split at h
    · cases h
    · rename_i hask
      split at h
      · cases h
      · rename_i hroom
        cases h
        push Not at hproto hask
        refine ⟨⟨hproto, hask.1, ?_⟩, by omega, rfl⟩
        rw [octet_zero hask.1, hask.2]

theorem echoReply_of_asks {ip : Ipv4Packet} (h : Asks ip) (hlen : 20 + ip.payload.length < 65536) {out : List UInt8}
    (hroom : 20 + ip.payload.length ≤ out.length) : ∃ reply body,
      echoReply ip out = some (20 + ip.payload.length, reply ++ out.drop (20 + ip.payload.length)) ∧
      reply.length = 20 + ip.payload.length ∧ Answers ip reply body := by
  have hkind := h.kind
  rw [octet_zero h.length] at hkind
  have hkind : TcpPacket.octet ip.payload 0 = icmpEchoRequest := Option.some.inj hkind
  let repr : Ipv4Repr :=
    ⟨ip.dst, ip.src, UInt8.ofNat ipprotoIcmp, UInt16.ofNat ip.payload.length, 64, 0⟩
  let body := replyBody ip.payload (ipChecksum (replyBody ip.payload 0))
  have hbody : body.length = ip.payload.length := length_replyBody h.length _
  have htotal : repr.totalLen = 20 + body.length := by
    rw [hbody, Ipv4Repr.totalLen]
    show 20 + (UInt16.ofNat ip.payload.length).toNat = _
    rw [UInt16.toNat_ofNat', Nat.mod_eq_of_lt (by omega)]
  obtain ⟨hparse, hvalid⟩ := Ipv4Packet.newChecked_emit repr body htotal (by omega)
  have hproto : repr.protocol.toNat = ipprotoIcmp := rfl
  have hecn : (repr.ecn &&& 0x03 &&& 0x03).toNat = 0 := by
    show ((0 : UInt8) &&& 0x03 &&& 0x03).toNat = 0
    decide
  rw [hproto, hecn] at hparse
  refine ⟨repr.emit ++ body, body, ?_, ?_, hparse, hvalid, fold_replyBody _, rfl, rfl, hbody⟩
  · unfold echoReply
    dsimp only
    rw [if_neg (not_not.mpr h.protocol), if_neg (by push Not; exact ⟨h.length, hkind⟩), if_neg (by omega)]
  · rw [List.length_append, Ipv4Repr.emit, Ipv4Repr.length_header, hbody]

/-- For every datagram and every buffer: the code replies exactly to an echo request whose
reply fits; it writes the reply at the start of the buffer and nothing behind it; the reply
goes back to the sender, parses, and has valid checksums and the same identifier, sequence
number and data; and a runtime that receives it sends nothing back. -/
theorem echo_reply_exact {frame : List UInt8} {ip : Ipv4Packet} (h : Ipv4Packet.newChecked frame = .ok ip)
    (out : List UInt8) :
    ((echoReply ip out).isSome = true ↔ Asks ip ∧ 20 + ip.payload.length ≤ out.length) ∧
      ∀ n written, echoReply ip out = some (n, written) →
        n = 20 + ip.payload.length ∧ written.drop n = out.drop n ∧
        (∃ body, Answers ip (written.take n) body) ∧ ∀ mtu, answer mtu (written.take n) = none := by
  constructor
  · constructor
    · intro hsome
      obtain ⟨p, hp⟩ := Option.isSome_iff_exists.mp hsome
      exact ⟨(echoReply_some hp).1, (echoReply_some hp).2.1⟩
    · rintro ⟨hask, hroom⟩
      obtain ⟨reply, body, he, -⟩ := echoReply_of_asks hask (payload_le h) hroom
      rw [he]
      rfl
  · intro n written hw
    obtain ⟨hask, hroom, hn⟩ := echoReply_some hw
    obtain ⟨reply, body, he, hlen, hans⟩ := echoReply_of_asks hask (payload_le h) hroom
    rw [hw] at he
    cases he
    rw [List.take_left' hlen]
    refine ⟨rfl, List.drop_left' hlen, ⟨body, hans⟩, fun mtu => ?_⟩
    rw [answer, hans.parses]
    dsimp only
    rw [echoReply_reply hans.kind]
    rfl

/-- A request with two bytes of data, and a byte behind it that is not part of it. -/
def pingFrame : List UInt8 :=
  [69, 0, 0, 30, 0, 0, 64, 0, 64, 1, 102, 221, 10, 0, 0, 1, 10, 0, 0, 2, 8, 0, 166, 152, 171, 205, 0, 7, 104, 105, 255]

theorem echo_reply_exact_ping : ∃ ip, Ipv4Packet.newChecked pingFrame = .ok ip ∧
    (echoReply ip (List.replicate 40 0)).map (fun p => p.2.drop 28) = some ([104, 105] ++ List.replicate 10 0) ∧
    Asks ip := by
  have hparse : Ipv4Packet.newChecked pingFrame = .ok (Ipv4Packet.ofOctets pingFrame) := by decide
  have hwritten : (echoReply (Ipv4Packet.ofOctets pingFrame) (List.replicate 40 0)).map (fun p => p.2.drop 28) =
      some ([104, 105] ++ List.replicate 10 0) := by
    decide +kernel
  have hsome : (echoReply (Ipv4Packet.ofOctets pingFrame) (List.replicate 40 0)).isSome = true := by
    rw [← Option.isSome_map, hwritten]
    rfl
  exact ⟨_, hparse, hwritten, ((echo_reply_exact hparse (List.replicate 40 0)).1.mp hsome).1⟩

end Icmp

end Ferrumnet
