import Ferrumnet.Joint
import Ferrumnet.Shift

/-
  One endpoint and an arbitrary peer.

  Here nothing is known of what arrives: any segment may be fed to the
  connection at any time, between any calls of the application, timers and
  transmissions. The host keeps the positions it keeps in `Net`.

  1. `Sound.input`, `sound_run` — the host stays well-formed whatever is fed to it.
  2. `input_passes` — all that one call may do to the receive space.
-/

namespace Ferrumnet

/-- A segment out of an IPv4 datagram, whose total length is a 16-bit field. -/
structure Segment where
  tcp : TcpPacket
  fits : tcp.payload.len ≤ 65535
  deriving DecidableEq

inductive Input where
  | segment (seg : Segment) (now : Instant) (ce : Bool)
  | send (data : Bytes)
  | recv (n : Nat)
  | close
  | timer (now : Instant)
  | poll (now : Instant)
  deriving DecidableEq

namespace Host

variable {κ : Type} [CongestionControl κ]

/-- A host just opened, either way. -/
inductive Opens : Host κ → Prop
  | active (loc remote : Endpoint) (iss : SeqNumber) (now : Instant) (mss : Nat) (kind : CcKind) :
      Opens (fresh ((Tcb.newSynSent loc remote iss now mss).setCongestionControl kind))
  | passive (loc remote : Endpoint) (syn : TcpPacket) (iss : SeqNumber) (now : Instant) (mss : Nat)
      (kind : CcKind) :
      Opens (fresh ((Tcb.newSynReceived loc remote syn iss now mss).setCongestionControl kind))

/-- One call, and the datagram it emits. -/
def input (h : Host κ) : Input → Host κ × Option Datagram
  | .segment seg now ce => (h.follow (h.tcb.onSegment now seg.tcp ce), none)
  | .send data =>
    let r := h.tcb.send data
    ({ h.follow r.1 with sent := h.sent ++ data.data.take r.2 }, none)
  | .recv n =>
    let r := h.tcb.recv n
    ({ h.follow r.1 with got := h.got ++ r.2.data }, none)
  | .close => (h.follow h.tcb.close, none)
  | .timer now => (h.follow (h.tcb.onTimer now), none)
  | .poll now =>
    let r := h.tcb.pollTransmit now
    (h.follow r.1, r.2)

/-- One call, as a step of a run. -/
def step (h : Host κ) (i : Input) : Option (Host κ) := some (h.input i).1

omit [CongestionControl κ] in
/-- The parts of the Tcb that `follow` and the application's bytes leave alone. -/
@[simp] theorem follow_tcb (h : Host κ) (t : Tcb κ) : (h.follow t).tcb = t := rfl

/-! ## The send side -/

variable {r : Host κ} {t : Tcb κ}

theorem Opens.ok (h : r.Opens) : r.Ok := by
  cases h with
  | active loc remote iss now mss kind =>
    have hc := World.core_setCongestionControl (Tcb.newSynSent loc remote iss now mss : Tcb κ) kind
    exact (World.fresh_ok (congrArg Core.toSendSpace hc) (.inl (congrArg Core.state hc))).1
  | passive loc remote syn iss now mss kind =>
    have hc := World.core_setCongestionControl
      (Tcb.newSynReceived loc remote syn iss now mss : Tcb κ) kind
    exact (World.fresh_ok (congrArg Core.toSendSpace hc) (.inr (congrArg Core.state hc))).1

/-- A valid acknowledgement, whatever it is, leaves a well-formed send space. -/
theorem acked_any {sent : List UInt8} {una : Nat} {c : Core} {tcp : TcpPacket}
    (h : Sending sent una c.toSendSpace) (hp : Phase c.state una c.finSeq) (hns : c.state ≠ .synSent)
    (hv : c.validAck tcp = true) :
    ∃ una', una ≤ una' ∧ una' ≤ una + c.toSendSpace.outstanding ∧
      Sending sent una' (c.ackedSend tcp) ∧ Phase c.ackedState una' c.finSeq ∧
      (c.ackedSend tcp).finSeq = c.finSeq ∧ (c.ackedSend tcp).sndUna = c.iss + una' := by
  have ho := h.outstanding_le
  by_cases hgt : tcp.ack.gt c.sndUna = true
  · -- what it acknowledges lies between `SND.UNA` and `SND.NXT`
    have hnn : tcp.ack.gt c.sndNxt = false := by
      rw [Core.validAck] at hv
      split at hv
      · rw [SeqNumber.le_eq, Bool.and_eq_true, Bool.not_eq_true'] at hv
        exact hv.2
      · rwa [Bool.not_eq_true'] at hv
    have hout : c.sndNxt.offsetFrom c.sndUna = c.toSendSpace.outstanding := rfl
    obtain ⟨h1, h2⟩ := SeqNumber.offsetFrom_between hgt hnn (by omega)
    have hat : tcp.ack = c.iss + (una + tcp.ack.offsetFrom c.sndUna) := by
      rw [← SeqNumber.add_add, ← h.at_una]
      exact (SeqNumber.add_offsetFrom _ _).symm
    obtain ⟨-, h3, h4, -, h5, h6, -⟩ := acked_sending h hp hns hat (by omega) (by omega) hv
    rw [Nat.max_eq_right (Nat.le_add_right _ _)] at h3 h4 h6
    exact ⟨_, Nat.le_add_right _ _, by omega, h3, h4, h5, h6⟩
  · have hst : c.state ≠ .synReceived := by
      intro hst
      rw [Core.validAck, if_pos hst] at hv
      simp [hgt] at hv
    have hsame : c.ackedSend tcp = c.toSendSpace := by
      rw [Core.ackedSend, if_neg hst, if_neg hgt]
    rw [hsame, Core.ackedState, if_neg hst]
    exact ⟨una, le_rfl, Nat.le_add_right _ _, h, hp, rfl, h.at_una⟩

end Host

/-! ## The invariant -/

namespace Host

variable {κ : Type} {r r' : Host κ} {t : Tcb κ}

/-- A host that has heard of its peer advertises no more than its pool can take,
and has not passed over a FIN. -/
structure Ring (r : Host κ) : Prop extends r.Heard where
  cap : r.tcb.rx.capacity = rxBuffer
  pool : r.adv + r.tcb.rx.len ≤ r.rcv + 262144
  pending : r.tcb.peerFinSeen = false → r.tcb.pendingFin ≠ some r.tcb.rcvNxt

structure Sound (r : Host κ) : Prop where
  ok : r.Ok
  ring : r.Unlearned ∨ r.Ring

theorem Sound.heard (h : r.Sound) : r.Unlearned ∨ r.Heard := h.ring.imp id Ring.toHeard

/-- Steps that at most take bytes out of the ring. -/
theorem Ring.drains (h : r.Ring) (rx : RingBuffer) (hcap : rx.capacity = r.tcb.rx.capacity)
    (hlen : rx.len ≤ r.tcb.rx.len) (hr : t.toRecvSpace = { r.tcb.toRecvSpace with rx := rx }) (hst : t.state ≠ .synSent) :
    (r.follow t).Ring ∧ (r.follow t).rcv = r.rcv ∧ (r.follow t).adv = r.adv := by
  have hpos : (r.follow t).rcv = r.rcv ∧ (r.follow t).adv = r.adv := by
    simp only [follow, hr, h.state, if_false, SeqNumber.offsetFrom_self, Nat.add_zero, and_self]
  obtain ⟨h1, h2⟩ := hpos
  refine ⟨⟨⟨?_, ?_, ?_, ?_, ?_, hst⟩, ?_, ?_, ?_⟩, h1, h2⟩
  · rw [h1]; exact h.pos
  · rw [h1, follow_tcb, hr]; exact h.nxt
  · rw [h2, follow_tcb, hr]; exact h.edge
  · rw [h1, h2]; exact h.ahead
  · rw [h1, h2]; exact h.behind
  · rw [follow_tcb, hr]; exact hcap.trans h.cap
  · rw [h1, h2, follow_tcb, hr]
    have hp := h.pool
    change _ + rx.len ≤ _
    omega
  · rw [follow_tcb, hr]; exact h.pending

/-- Steps that leave the receive space alone. -/
theorem Ring.keep (h : r.Ring) (hr : t.toRecvSpace = r.tcb.toRecvSpace) (hst : t.state ≠ .synSent) :
    (r.follow t).Ring ∧ (r.follow t).rcv = r.rcv ∧ (r.follow t).adv = r.adv :=
  h.drains r.tcb.rx rfl le_rfl hr hst

/-- A segment built by `build` moves the advertised edge to the room there is. -/
theorem Ring.advertised (h : r.Ring) {w : Nat} (hst : t.state ≠ .synSent)
    (hr : t.toRecvSpace = (r.tcb.toRecvSpace.advertisedWindow w).1) :
    (r.follow t).Ring ∧ (r.follow t).rcv = r.rcv ∧
      (r.follow t).adv = max r.adv (r.rcv + r.tcb.toRecvSpace.room w) := by
  obtain ⟨hadv, -⟩ := RecvSpace.advertisedWindow_eq h.nxt h.edge h.ahead h.behind w
  have hcap : r.tcb.rx.len ≤ 262144 := by
    have := r.tcb.rx.len_le
    rwa [h.cap] at this
  have hroom : r.tcb.toRecvSpace.room w + r.tcb.rx.len ≤ 262144 := by
    have : rxBuffer = 262144 := rfl
    simp only [RecvSpace.room]
    omega
  have hp := h.pool
  have h1 : (r.follow t).rcv = r.rcv := by
    simp only [follow, h.state, if_false, hr]
    exact (congrArg (r.rcv + ·) (SeqNumber.offsetFrom_self _)).trans (Nat.add_zero _)
  have h2 : (r.follow t).adv = max r.adv (r.rcv + r.tcb.toRecvSpace.room w) := by
    have ha := h.ahead
    simp only [follow, h.state, if_false, hr]
    rw [hadv, h.edge, SeqNumber.offsetFrom_pos_le _ (Nat.le_max_left _ _) (by omega)]
    omega
  refine ⟨⟨⟨?_, ?_, ?_, ?_, ?_, hst⟩, ?_, ?_, ?_⟩, h1, h2⟩
  · rw [h1]; exact h.pos
  · rw [h1, follow_tcb, hr]; exact h.nxt
  · rw [h2, follow_tcb, hr, hadv]; rfl
  · rw [h1, h2]; have := h.ahead; omega
  · rw [h1, h2]; have := h.behind; omega
  · rw [follow_tcb, hr]; exact h.cap
  · rw [h1, h2, follow_tcb, hr]
    change _ + r.tcb.rx.len ≤ _
    omega
  · rw [follow_tcb, hr]; exact h.pending

/-- The application reads. -/
theorem Ring.read (h : r.Ring) {n : Nat} (hst : t.state ≠ .synSent)
    (hr : t.toRecvSpace = { r.tcb.toRecvSpace with rx := (r.tcb.rx.read n).1 }) :
    (r.follow t).Ring ∧ (r.follow t).rcv = r.rcv ∧ (r.follow t).adv = r.adv := by
  refine h.drains (r.tcb.rx.read n).1 rfl ?_ hr hst
  change (r.tcb.rx.consume n).len ≤ _
  rw [RingBuffer.consume_len]
  omega

/-- A segment taken in whole: `RCV.NXT` moves only while it is not past the
advertised edge. -/
theorem Ring.taken (h : r.Ring) {tcp : TcpPacket} (hfit : tcp.payload.len ≤ 65535)
    (hadm : r.tcb.core.admits tcp = true) (hst : t.state ≠ .synSent)
    (hr : t.toRecvSpace = r.tcb.toRecvSpace.text r.tcb.sackEnabled tcp) :
    ∃ k f, (r.follow t).Ring ∧ (r.follow t).rcv = r.rcv + (k + f) ∧ (r.follow t).adv = r.adv ∧
      RecvSpace.Shift r.tcb.toRecvSpace t.toRecvSpace k f ∧
      (f = 0 → t.peerFinSeen = r.tcb.peerFinSeen) ∧
      (f ≠ 0 → f = 1 ∧ r.tcb.peerFinSeen = false ∧ t.peerFinSeen = true) := by
  obtain ⟨k, f, hs, -, hno, hsame, honce, hfin, hpend⟩ :=
    r.tcb.toRecvSpace.text_shift r.tcb.sackEnabled tcp
  rw [← hr] at hs hsame honce hpend
  obtain ⟨hrst, hsyn, -⟩ := admits_flags hadm
  have hacc : r.tcb.toRecvSpace.segmentAcceptable tcp.seq tcp.segLen = true := by
    simp only [Core.admits, Bool.and_eq_true, Tcb.core_recv] at hadm
    exact hadm.1.2
  have hseg : tcp.segLen = tcp.payload.len + tcp.flags.fin.toNat := by
    simp [TcpPacket.segLen, hsyn]
  have hfle : f ≤ 1 := by
    rcases Nat.eq_zero_or_pos f with h0 | h0
    · omega
    · have := (honce (by omega)).1
      omega
  have hbool : tcp.flags.fin.toNat ≤ 1 := by cases tcp.flags.fin <;> decide
  -- whatever moves `RCV.NXT` shows that the edge is not behind it
  have hedge : k + f ≠ 0 → r.rcv ≤ r.adv := by
    intro hne
    by_cases hin : r.tcb.toRecvSpace.InOrder tcp
    · obtain ⟨d, hd, hdl⟩ := hin.at
      exact RecvSpace.acceptable_edge h.nxt h.edge h.ahead hd (by omega) (by omega) hacc
    · have hk := hno hin
      rcases hfin (by omega) hk with ⟨hfl, hat⟩ | hp
      · exact RecvSpace.acceptable_edge h.nxt h.edge h.ahead hat.symm (by rw [hseg, hfl]; simp)
          (by omega) hacc
      · exact absurd hp (h.pending (honce (by omega)).2.1)
  have hcap : t.rx.len ≤ 262144 := by
    have := t.rx.len_le
    rw [hs.cap, h.cap] at this
    exact this
  have hlen : t.rx.len = r.tcb.rx.len + k := hs.len
  have hp := h.pool
  have h1 : (r.follow t).rcv = r.rcv + (k + f) := by
    simp only [follow, h.state, if_false, hs.nxt]
    rw [SeqNumber.offsetFrom_add, Nat.mod_eq_of_lt (by omega)]
  have h2 : (r.follow t).adv = r.adv := by
    simp only [follow, h.state, if_false, hs.adv, SeqNumber.offsetFrom_self, Nat.add_zero]
  refine ⟨k, f, ⟨⟨?_, ?_, ?_, ?_, ?_, hst⟩, ?_, ?_, ?_⟩, h1, h2, hs, hsame, honce⟩
  · rw [h1]; have := h.pos; omega
  · rw [h1, follow_tcb, hs.nxt, hs.irs, h.nxt, SeqNumber.add_add]
  · rw [h2, follow_tcb, hs.adv, hs.irs]; exact h.edge
  · rw [h1, h2]
    have := h.ahead
    by_cases hne : k + f = 0
    · omega
    · have := hedge hne
      omega
  · rw [h1, h2]; have := h.behind; omega
  · rw [follow_tcb, hs.cap]; exact h.cap
  · rw [h1, h2, follow_tcb]
    omega
  · rw [follow_tcb]; exact hpend

/-- A host that has just seen the SYN of its peer. -/
structure Started (r : Host κ) : Prop where
  recv : ∃ seq : SeqNumber, r.tcb.toRecvSpace = Tcb.freshRecv seq (seq + 1) (seq + 1 + synWindow)
  rcv : r.rcv = 1
  adv : r.adv = 65536
  state : r.tcb.state ≠ .synSent

theorem Started.ring (h : r.Started) : r.Ring := by
  obtain ⟨⟨seq, hr⟩, h1, h2, hst⟩ := h
  have hw : ((seq + 1 : SeqNumber) + synWindow : SeqNumber) = seq + 65536 := SeqNumber.add_add _ _ _
  refine ⟨⟨h1.ge, ?_, ?_, by omega, by omega, hst⟩, ?_, ?_, ?_⟩
  · rw [hr, h1]; rfl
  · rw [hr, h2]; exact hw
  · rw [hr]; rfl
  · rw [hr, h1, h2]
    change 65536 + 0 ≤ _
    omega
  · rw [hr]
    intro _ hc
    cases hc

/-- Only the Tcb and the positions matter. -/
theorem Ring.congr (h : r.Ring) (ht : r'.tcb = r.tcb) (h1 : r'.rcv = r.rcv) (h2 : r'.adv = r.adv) :
    r'.Ring := by
  refine ⟨⟨?_, ?_, ?_, ?_, ?_, ?_⟩, ?_, ?_, ?_⟩ <;> (try rw [ht]) <;> (try rw [h1]) <;>
    (try rw [h2])
  · exact h.pos
  · exact h.nxt
  · exact h.edge
  · exact h.ahead
  · exact h.behind
  · exact h.state
  · exact h.cap
  · exact h.pool
  · exact h.pending

variable [CongestionControl κ]

theorem Opens.begins (h : r.Opens) : r.Unlearned ∨ r.Started := by
  cases h with
  | active loc remote iss now mss kind =>
    have hc := World.core_setCongestionControl (Tcb.newSynSent loc remote iss now mss : Tcb κ) kind
    generalize (Tcb.newSynSent loc remote iss now mss : Tcb κ).setCongestionControl kind = t at hc
    have hrecv : t.toRecvSpace = Tcb.freshRecv (SeqNumber.new 0) (SeqNumber.new 0) (SeqNumber.new 0) :=
      congrArg Core.toRecvSpace hc
    refine .inl ⟨.inl (congrArg Core.state hc), hrecv, ?_, ?_, rfl⟩
    · simp [fresh, hrecv, Tcb.freshRecv]
    · simp [fresh, hrecv, Tcb.freshRecv]
  | passive loc remote syn iss now mss kind =>
    have hc := World.core_setCongestionControl
      (Tcb.newSynReceived loc remote syn iss now mss : Tcb κ) kind
    generalize (Tcb.newSynReceived loc remote syn iss now mss : Tcb κ).setCongestionControl kind = t
      at hc
    have hrecv : t.toRecvSpace = Tcb.freshRecv syn.seq (syn.seq + 1) (syn.seq + 1 + synWindow) :=
      congrArg Core.toRecvSpace hc
    have hstate : t.state = .synReceived := congrArg Core.state hc
    refine .inr ⟨⟨syn.seq, hrecv⟩, ?_, ?_, by simp [fresh, hstate]⟩
    · simp only [fresh, hrecv]
      exact SeqNumber.offsetFrom_add _ 1
    · simp only [fresh, hrecv, Tcb.freshRecv, SeqNumber.add_add]
      exact SeqNumber.offsetFrom_add _ 65536

theorem Opens.sound (h : r.Opens) : r.Sound := ⟨h.ok, h.begins.imp id Started.ring⟩

/-! ## A segment -/

omit [CongestionControl κ] in
/-- The send side of a segment taken in whole. -/
theorem Ok.taken (h : r.Ok) (hns : r.tcb.state ≠ .synSent) {tcp : TcpPacket}
    (hv : r.tcb.core.validAck tcp = true)
    (hc : t.core = ((r.tcb.core.advanceTsRecent tcp).acked tcp).onText tcp) : (r.follow t).Ok := by
  obtain ⟨una', h1, h2, h3, h4, h5, h6⟩ :=
    acked_any (c := r.tcb.core) h.sending h.phase hns hv
  have hsend : t.toSendSpace = r.tcb.core.ackedSend tcp := congrArg Core.toSendSpace hc
  have ho := h.sending.outstanding_le
  have hout : r.tcb.core.toSendSpace.outstanding = r.tcb.toSendSpace.outstanding := rfl
  have hu : (r.follow t).una = una' := by
    simp only [follow, hsend, h6]
    rw [h.sending.at_una, show r.tcb.core.iss = r.tcb.iss from rfl,
      SeqNumber.offsetFrom_pos_le _ h1 (by omega)]
    omega
  have hstate : t.state = Tcb.closingState r.tcb.core.ackedState
      ((r.tcb.core.ackedSend tcp).finAcked)
      (r.tcb.toRecvSpace.text r.tcb.sackEnabled tcp).peerFinSeen := congrArg Core.state hc
  refine ⟨?_, ?_⟩
  · rw [hu]
    change Sending r.sent una' t.toSendSpace
    rw [hsend]; exact h3
  · rw [hu]
    change Phase t.state una' t.toSendSpace.finSeq
    rw [hstate, hsend, h5]
    exact h4.closing _ _

omit [CongestionControl κ] in
theorem Ok.synSent (h : r.Ok) (hst : r.tcb.state = .synSent) {tcp : TcpPacket}
    (ht : r.tcb.core.TakesSyn tcp t.core) : (r.follow t).Ok := by
  generalize hc : t.core = c at ht
  cases ht with
  | dropped => exact h.quiet (congrArg Core.toSendSpace hc) (.inl (congrArg Core.state hc))
  | reset => exact h.quiet (congrArg Core.toSendSpace hc) (.inr (congrArg Core.state hc))
  | acked hrst hsyn hack =>
    have hstate : t.state = .established := congrArg Core.state hc
    have hsend : t.toSendSpace = { r.tcb.toSendSpace with sndUna := tcp.ack } :=
      congrArg Core.toSendSpace hc
    obtain ⟨-, hu, hs1, hnone, -, -⟩ := acksSyn_send h hst hack hsend
    refine ⟨by rw [hu]; exact hs1, ?_⟩
    rw [hu]
    change Phase t.state 1 t.toSendSpace.finSeq
    rw [hstate, hsend]
    exact ⟨le_rfl, hnone⟩
  | crossed hrst hsyn hack =>
    have hstate : t.state = .synReceived := congrArg Core.state hc
    refine h.keep (congrArg Core.toSendSpace hc) ?_
    have := h.phase
    rw [hst] at this
    rw [hstate]
    exact this

omit [CongestionControl κ] in
/-- Any segment at all leaves the send side well-formed. -/
theorem Ok.segment (h : r.Ok) {tcp : TcpPacket} (ht : t.core = r.tcb.core.onSegment tcp) :
    (r.follow t).Ok := by
  by_cases hst : r.tcb.state = .synSent
  · have hst' : r.tcb.core.state = .synSent := hst
    rw [Core.onSegment, if_pos hst'] at ht
    exact h.synSent hst (ht ▸ Core.onSegmentSynSent_takes _ _)
  have hcases := r.tcb.core.onSegment_takes tcp hst
  rw [← ht] at hcases
  generalize hc : t.core = c at hcases
  cases hcases with
  | dropped ts hno => exact h.quiet (congrArg Core.toSendSpace hc) (.inl (congrArg Core.state hc))
  | reset hrst hseq => exact h.quiet (congrArg Core.toSendSpace hc) (.inr (congrArg Core.state hc))
  | badAck ts hrec hadm hbad =>
    exact h.quiet (congrArg Core.toSendSpace hc) (.inr (congrArg Core.state hc))
  | synAgain hdup =>
    have hrec : r.tcb.state = .synReceived := r.tcb.core.state_of_dupSyn _ hdup
    exact (h.rewind hrec (congrArg Core.toSendSpace hc) (congrArg Core.state hc)).1
  | taken hadm hv => exact h.taken hst hv hc

omit [CongestionControl κ] in
/-- The peer's SYN, in SYN-SENT. -/
theorem Unlearned.learn {seq : SeqNumber} (h : r.Unlearned) (hst : r.tcb.state = .synSent)
    (ht : t.toRecvSpace = { r.tcb.toRecvSpace with
      irs := seq, rcvNxt := seq + 1, rcvAdv := seq + 1 + synWindow })
    (hst' : t.state ≠ .synSent) : (r.follow t).Started := by
  have hrt : t.toRecvSpace = Tcb.freshRecv seq (seq + 1) (seq + 1 + synWindow) := by
    rw [ht, h.recv]; rfl
  refine ⟨⟨seq, hrt⟩, ?_, ?_, hst'⟩
  · simp only [follow, hst, if_true, hrt]
    exact SeqNumber.offsetFrom_add _ 1
  · simp only [follow, hst, if_true, hrt, Tcb.freshRecv, SeqNumber.add_add]
    exact SeqNumber.offsetFrom_add _ 65536

omit [CongestionControl κ] in
/-- Before the peer's SYN no segment is taken in; it may be that SYN. -/
theorem Unlearned.segment (h : r.Unlearned) {tcp : TcpPacket}
    (ht : t.core = r.tcb.core.onSegment tcp) : (r.follow t).Unlearned ∨ (r.follow t).Started := by
  by_cases hst : r.tcb.state = .synSent
  · have hst' : r.tcb.core.state = .synSent := hst
    rw [Core.onSegment, if_pos hst'] at ht
    have hcases := ht ▸ r.tcb.core.onSegmentSynSent_takes tcp
    generalize hc : t.core = c at hcases
    cases hcases with
    | dropped => exact .inl (h.keep (congrArg Core.toRecvSpace hc) (.inl (congrArg Core.state hc))).1
    | reset => exact .inl (h.keep (congrArg Core.toRecvSpace hc) (.inr (congrArg Core.state hc))).1
    | acked hrst hsyn hack =>
      have hstate : t.state = .established := congrArg Core.state hc
      exact .inr (h.learn hst (congrArg Core.toRecvSpace hc) (by simp [hstate]))
    | crossed hrst hsyn hack =>
      have hstate : t.state = .synReceived := congrArg Core.state hc
      exact .inr (h.learn hst (congrArg Core.toRecvSpace hc) (by simp [hstate]))
  have hcases := r.tcb.core.onSegment_takes tcp hst
  rw [← ht] at hcases
  generalize hc : t.core = c at hcases
  left
  cases hcases with
  | dropped ts hno => exact (h.keep (congrArg Core.toRecvSpace hc) (.inl (congrArg Core.state hc))).1
  | reset hrst hseq => exact (h.keep (congrArg Core.toRecvSpace hc) (.inr (congrArg Core.state hc))).1
  | badAck ts hrec hadm hbad =>
    exact (h.keep (congrArg Core.toRecvSpace hc) (.inr (congrArg Core.state hc))).1
  | synAgain hdup => exact (h.keep (congrArg Core.toRecvSpace hc) (.inl (congrArg Core.state hc))).1
  | taken hadm hv =>
    -- there is no window for a segment to lie in
    have hclosed : r.tcb.state = .closed := h.state.resolve_left hst
    have hrecv : t.toRecvSpace = r.tcb.toRecvSpace.text r.tcb.sackEnabled tcp :=
      congrArg Core.toRecvSpace hc
    have hstate : t.state = Tcb.closingState r.tcb.core.ackedState
        ((r.tcb.core.ackedSend tcp).finAcked)
        (r.tcb.toRecvSpace.text r.tcb.sackEnabled tcp).peerFinSeen := congrArg Core.state hc
    refine (h.keep (hrecv.trans (h.text hadm _)) (.inr ?_)).1
    rw [hstate]
    simp [Core.ackedState, hclosed, Tcb.closingState]

/-! ## One call -/

/-- The input is a segment that is taken in whole. -/
def Takes (r : Host κ) : Input → Prop
  | .segment seg _ _ => (r.tcb.core.admits seg.tcp && r.tcb.core.validAck seg.tcp) = true
  | _ => False

instance : ∀ i, Decidable (r.Takes i)
  | .segment _ _ _ => inferInstanceAs (Decidable (_ = true))
  | .send _ | .recv _ | .close | .timer _ | .poll _ => isFalse id

/-- All that one call may do to the receive space. -/
inductive Receives (r : Host κ) : Input → RecvSpace → Prop
  | kept (i : Input) : ¬ r.Takes i → Receives r i r.tcb.toRecvSpace
  | read (n : Nat) : Receives r (.recv n) { r.tcb.toRecvSpace with rx := (r.tcb.rx.read n).1 }
  | advertised (now : Instant) :
      Receives r (.poll now) (r.tcb.toRecvSpace.advertisedWindow r.tcb.rcvWscale).1
  | taken (seg : Segment) (now : Instant) (ce : Bool) : r.tcb.core.admits seg.tcp = true →
      r.tcb.core.validAck seg.tcp = true →
      Receives r (.segment seg now ce) (r.tcb.toRecvSpace.text r.tcb.sackEnabled seg.tcp)

/-- What a call keeps beside that, once the peer's SYN was seen. -/
structure Passes (r : Host κ) (i : Input) (r' : Host κ) : Prop where
  receives : r.Receives i r'.tcb.toRecvSpace
  options : r'.tcb.toOptions = r.tcb.toOptions
  state : r'.tcb.state ≠ .synSent
  rcv : r'.rcv = (r.follow r'.tcb).rcv
  adv : r'.adv = (r.follow r'.tcb).adv

omit [CongestionControl κ] in
theorem Passes.kept {i : Input} (hno : ¬ r.Takes i) (ht : t.toRecvSpace = r.tcb.toRecvSpace)
    (ho : t.toOptions = r.tcb.toOptions) (hst : t.state ≠ .synSent) (hr' : r'.tcb = t)
    (h1 : r'.rcv = (r.follow t).rcv) (h2 : r'.adv = (r.follow t).adv) : r.Passes i r' := by
  subst hr'
  exact ⟨by rw [ht]; exact .kept i hno, ho, hst, h1, h2⟩

omit [CongestionControl κ] in
/-- A segment, past SYN-SENT. -/
theorem passes_segment (hst : r.tcb.state ≠ .synSent) {seg : Segment} (now : Instant) (ce : Bool)
    (ht : t.core = r.tcb.core.onSegment seg.tcp) : r.Passes (.segment seg now ce) (r.follow t) := by
  have hcases := r.tcb.core.onSegment_takes seg.tcp hst
  rw [← ht] at hcases
  generalize hc : t.core = c at hcases
  cases hcases with
  | dropped ts hno =>
    refine .kept (t := t) ?_ (congrArg Core.toRecvSpace hc) (congrArg Core.toOptions hc) ?_ rfl rfl rfl
    · simp only [Takes, hno, Bool.false_eq_true, not_false_eq_true]
    · exact (congrArg Core.state hc).trans_ne hst
  | reset hrst hseq =>
    refine .kept (t := t) ?_ (congrArg Core.toRecvSpace hc) (congrArg Core.toOptions hc) ?_ rfl rfl rfl
    · intro hk
      simp only [Takes, Bool.and_eq_true] at hk
      rw [(admits_flags hk.1).1] at hrst
      cases hrst
    · exact (congrArg Core.state hc).trans_ne (by simp)
  | badAck ts hrec hadm hbad =>
    refine .kept (t := t) ?_ (congrArg Core.toRecvSpace hc) (congrArg Core.toOptions hc) ?_ rfl rfl rfl
    · simp only [Takes, hbad, Bool.and_false, Bool.false_eq_true, not_false_eq_true]
    · exact (congrArg Core.state hc).trans_ne (by simp)
  | synAgain hdup =>
    refine .kept (t := t) ?_ (congrArg Core.toRecvSpace hc) (congrArg Core.toOptions hc) ?_ rfl rfl rfl
    · intro hk
      simp only [Takes, Bool.and_eq_true] at hk
      have hsyn := r.tcb.core.syn_of_dupSyn _ hdup
      rw [(admits_flags hk.1).2.1] at hsyn
      cases hsyn
    · exact (congrArg Core.state hc).trans_ne hst
  | taken hadm hv =>
    have hrecv : t.toRecvSpace = r.tcb.toRecvSpace.text r.tcb.sackEnabled seg.tcp :=
      congrArg Core.toRecvSpace hc
    have hstate : t.state = _ := congrArg Core.state hc
    refine ⟨?_, congrArg Core.toOptions hc, ?_, rfl, rfl⟩
    · change r.Receives _ t.toRecvSpace
      rw [hrecv]
      exact .taken seg now ce hadm hv
    · change t.state ≠ _
      rw [hstate]
      exact closingState_ne (ackedState_ne (c := r.tcb.core) hst).1 (.inl rfl)

/-- `poll_transmit`, past SYN-SENT. -/
theorem passes_poll (hok : r.Ok) (hst : r.tcb.state ≠ .synSent) (now : Instant) :
    r.Passes (.poll now) (r.follow (r.tcb.pollTransmit now).1) := by
  have hp := hok.polls now
  generalize r.tcb.pollTransmit now = q at hp ⊢
  obtain ⟨t, o⟩ := q
  dsimp only at hp ⊢
  cases hp with
  | idle hc =>
    exact .kept (t := t) id (congrArg Core.toRecvSpace hc) (congrArg Core.toOptions hc)
      ((congrArg Core.state hc).trans_ne hst) rfl rfl rfl
  | rst seq _ hc =>
    exact .kept (t := t) id (congrArg Core.toRecvSpace hc) (congrArg Core.toOptions hc)
      ((congrArg Core.state hc).trans_ne hst) rfl rfl rfl
  | syn hs _ => exact absurd hs hst
  | segment t₀ h0 _ hs hc =>
    have hrecv : t.toRecvSpace = (r.tcb.toRecvSpace.advertisedWindow r.tcb.rcvWscale).1 :=
      congrArg Core.toRecvSpace hc
    obtain ⟨pos, -, -, hspec⟩ := sends_spec (c := r.tcb.core) hok.sending hok.phase hs
    refine ⟨?_, congrArg Core.toOptions hc, (congrArg Core.state hc).trans_ne hspec.learned, rfl, rfl⟩
    change r.Receives _ t.toRecvSpace
    rw [hrecv]
    exact .advertised now

/-- Every call, past SYN-SENT. -/
theorem input_passes (hok : r.Ok) (hst : r.tcb.state ≠ .synSent) (i : Input) :
    r.Passes i (r.input i).1 := by
  cases i with
  | segment seg now ce => exact passes_segment hst now ce (Tcb.core_onSegment _ _ _ _)
  | send data =>
    rcases r.tcb.core_send' data with ⟨-, -, hc⟩ | ⟨-, hc⟩
    · exact .kept (t := (r.tcb.send data).1) id (congrArg Core.toRecvSpace hc)
        (congrArg Core.toOptions hc) ((congrArg Core.state hc).trans_ne hst) rfl rfl rfl
    · exact .kept (t := (r.tcb.send data).1) id (congrArg Core.toRecvSpace hc)
        (congrArg Core.toOptions hc) ((congrArg Core.state hc).trans_ne hst) rfl rfl rfl
  | recv n => exact ⟨.read n, rfl, hst, rfl, rfl⟩
  | close => exact .kept (t := r.tcb.close) id rfl rfl hst rfl rfl rfl
  | timer now =>
    rcases r.tcb.core_onTimer now with hc | hc
    · exact .kept (t := r.tcb.onTimer now) id (congrArg Core.toRecvSpace hc)
        (congrArg Core.toOptions hc) ((congrArg Core.state hc).trans_ne hst) rfl rfl rfl
    · exact .kept (t := r.tcb.onTimer now) id (congrArg Core.toRecvSpace hc)
        (congrArg Core.toOptions hc) ((congrArg Core.state hc).trans_ne (by simp)) rfl rfl rfl
  | poll now => exact passes_poll hok hst now

omit [CongestionControl κ] in
theorem Ring.passes {i : Input} (h : r.Ring) (hp : r.Passes i r') : r'.Ring := by
  obtain ⟨hrec, -, hst, h1, h2⟩ := hp
  suffices hf : (r.follow r'.tcb).Ring from hf.congr rfl h1 h2
  generalize hv : r'.tcb.toRecvSpace = v at hrec
  cases hrec with
  | kept _ _ => exact (h.keep hv hst).1
  | read n => exact (h.read hst hv).1
  | advertised now => exact (h.advertised hst hv).1
  | taken seg now ce hadm _ =>
    obtain ⟨-, -, hr, -⟩ := h.taken seg.fits hadm hst hv
    exact hr

/-- Before the peer's SYN only that SYN changes anything. -/
theorem Unlearned.input (h : r.Unlearned) (hok : r.Ok) (i : Input) :
    (r.input i).1.Unlearned ∨ (r.input i).1.Started := by
  cases i with
  | segment seg now ce => exact h.segment (Tcb.core_onSegment _ _ _ _)
  | send data => exact .inl ((acted_send hok (.inl h) data).unlearned h)
  | recv n => exact .inl ((acted_recv hok (.inl h) n).unlearned h)
  | close => exact .inl ((acted_close hok (.inl h)).unlearned h)
  | timer now => exact .inl ((acted_timer hok (.inl h) now).unlearned h)
  | poll now => exact .inl ((acted_poll hok (.inl h) now).unlearned h)

theorem Ok.input (h : r.Ok) (i : Input) : (r.input i).1.Ok := by
  cases i with
  | segment seg now ce => exact h.segment (Tcb.core_onSegment _ _ _ _)
  | send data => exact h.send data
  | recv n => exact h.recv n
  | close => exact h.close
  | timer now => exact h.timer now
  | poll now => exact h.poll now

/-- What no call of its own changes: the two initial sequence numbers, the options,
and on which side of the peer's SYN the host is. -/
structure Stays (r r' : Host κ) : Prop where
  iss : r'.tcb.iss = r.tcb.iss
  irs : r'.tcb.irs = r.tcb.irs
  options : r'.tcb.toOptions = r.tcb.toOptions
  waits : r.tcb.state = .synSent ∨ r.tcb.state = .closed →
    r'.tcb.state = .synSent ∨ r'.tcb.state = .closed
  past : r.tcb.state ≠ .synSent → r'.tcb.state ≠ .synSent

omit [CongestionControl κ] in
theorem Stays.quiet (hi : t.iss = r.tcb.iss) (hr : t.irs = r.tcb.irs)
    (ho : t.toOptions = r.tcb.toOptions) (hst : t.state = r.tcb.state ∨ t.state = .closed)
    (ht : r'.tcb = t) : r.Stays r' := by
  subst ht
  rcases hst with hst | hst
  · exact ⟨hi, hr, ho, fun h => by rwa [hst], fun h => by rwa [hst]⟩
  · exact ⟨hi, hr, ho, fun _ => .inr hst, fun _ => by rw [hst]; simp⟩

theorem Ok.stays (h : r.Ok) {i : Input} (hi : ∀ seg now ce, i ≠ .segment seg now ce) :
    r.Stays (r.input i).1 := by
  cases i with
  | segment seg now ce => exact absurd rfl (hi seg now ce)
  | send data =>
    rcases r.tcb.core_send' data with ⟨-, -, hc⟩ | ⟨-, hc⟩
    · exact .quiet (t := (r.tcb.send data).1) (congrArg (fun c : Core => c.iss) hc)
        (congrArg (fun c : Core => c.irs) hc) (congrArg Core.toOptions hc)
        (.inl (congrArg Core.state hc)) rfl
    · exact .quiet (t := (r.tcb.send data).1) (congrArg (fun c : Core => c.iss) hc)
        (congrArg (fun c : Core => c.irs) hc) (congrArg Core.toOptions hc)
        (.inl (congrArg Core.state hc)) rfl
  | recv n => exact .quiet (t := (r.tcb.recv n).1) rfl rfl rfl (.inl rfl) rfl
  | close => exact .quiet (t := r.tcb.close) rfl rfl rfl (.inl rfl) rfl
  | timer now =>
    rcases r.tcb.core_onTimer now with hc | hc
    · exact .quiet (t := r.tcb.onTimer now) (congrArg (fun c : Core => c.iss) hc)
        (congrArg (fun c : Core => c.irs) hc) (congrArg Core.toOptions hc)
        (.inl (congrArg Core.state hc)) rfl
    · exact .quiet (t := r.tcb.onTimer now) (congrArg (fun c : Core => c.iss) hc)
        (congrArg (fun c : Core => c.irs) hc) (congrArg Core.toOptions hc)
        (.inr (congrArg Core.state hc)) rfl
  | poll now =>
    have hp := h.polls now
    change r.Stays (r.follow (r.tcb.pollTransmit now).1)
    generalize r.tcb.pollTransmit now = q at hp ⊢
    obtain ⟨t, o⟩ := q
    dsimp only at hp ⊢
    cases hp with
    | idle hc =>
      exact .quiet (congrArg (fun c : Core => c.iss) hc) (congrArg (fun c : Core => c.irs) hc)
        (congrArg Core.toOptions hc) (.inl (congrArg Core.state hc)) rfl
    | rst _ _ hc =>
      exact .quiet (congrArg (fun c : Core => c.iss) hc) (congrArg (fun c : Core => c.irs) hc)
        (congrArg Core.toOptions hc) (.inl (congrArg Core.state hc)) rfl
    | syn _ hc =>
      rcases hc with ⟨-, hc⟩ | ⟨-, hc⟩
      · exact .quiet (congrArg (fun c : Core => c.iss) hc) (congrArg (fun c : Core => c.irs) hc)
          (congrArg Core.toOptions hc) (.inl (congrArg Core.state hc)) rfl
      · exact .quiet (congrArg (fun c : Core => c.iss) hc) (congrArg (fun c : Core => c.irs) hc)
          (congrArg Core.toOptions hc) (.inl (congrArg Core.state hc)) rfl
    | segment _ _ _ hs hc =>
      obtain ⟨hopen, hns⟩ := sends_open hs
      obtain ⟨_, -, -, hspec⟩ := sends_spec (c := r.tcb.core) h.sending h.phase hs
      refine ⟨(congrArg (fun c : Core => c.iss) hc).trans hspec.iss,
        congrArg (fun c : Core => c.irs) hc, congrArg Core.toOptions hc, fun hw => ?_,
        fun _ => (congrArg Core.state hc).trans_ne hspec.learned⟩
      rcases hw with hw | hw
      · exact absurd hw hns
      · exact absurd hw hopen

/-! ## Past the handshake -/

omit [CongestionControl κ] in
/-- No segment leads back into the handshake. -/
theorem segment_past {p : TcpPacket} (ht : t.core = r.tcb.core.onSegment p)
    (h1 : r.tcb.state ≠ .synSent) (h2 : r.tcb.state ≠ .synReceived) : t.state ≠ .synReceived := by
  have hcases := r.tcb.core.onSegment_takes p h1
  rw [← ht] at hcases
  generalize hc : t.core = c at hcases
  cases hcases with
  | dropped _ _ => exact (congrArg Core.state hc).trans_ne h2
  | reset _ _ => exact (congrArg Core.state hc).trans_ne (by simp)
  | synAgain _ => exact (congrArg Core.state hc).trans_ne h2
  | badAck _ _ _ _ => exact (congrArg Core.state hc).trans_ne (by simp)
  | taken _ _ =>
    exact (congrArg Core.state hc).trans_ne
      (closingState_ne (ackedState_ne (c := r.tcb.core) h1).2 (.inr rfl))

/-- The handshake is not entered again. -/
theorem input_past (hok : r.Ok) (h1 : r.tcb.state ≠ .synSent) (h2 : r.tcb.state ≠ .synReceived)
    (i : Input) : (r.input i).1.tcb.state ≠ .synReceived := by
  cases i with
  | segment seg now ce => exact segment_past (Tcb.core_onSegment r.tcb now seg.tcp ce) h1 h2
  | send data =>
    rcases r.tcb.core_send' data with ⟨-, -, hc⟩ | ⟨-, hc⟩
    · exact (congrArg Core.state hc).trans_ne h2
    · exact (congrArg Core.state hc).trans_ne h2
  | recv n => exact h2
  | close => exact h2
  | timer now =>
    rcases r.tcb.core_onTimer now with hc | hc
    · exact (congrArg Core.state hc).trans_ne h2
    · exact (congrArg Core.state hc).trans_ne (by simp)
  | poll now =>
    have hp := hok.polls now
    change (r.tcb.pollTransmit now).1.state ≠ _
    generalize r.tcb.pollTransmit now = q at hp ⊢
    obtain ⟨t, o⟩ := q
    dsimp only at hp ⊢
    cases hp with
    | idle hc => exact (congrArg Core.state hc).trans_ne h2
    | rst _ _ hc => exact (congrArg Core.state hc).trans_ne h2
    | syn hs _ => exact absurd hs h1
    | segment _ _ _ hs hc =>
      obtain ⟨_, -, -, hspec⟩ := sends_spec (c := r.tcb.core) hok.sending hok.phase hs
      exact (congrArg Core.state hc).trans_ne fun hn => h2 (hspec.waiting hn)

/-- Whatever is fed to a host, it stays sound. -/
theorem Sound.input (h : r.Sound) (i : Input) : (r.input i).1.Sound := by
  refine ⟨h.ok.input i, ?_⟩
  rcases h.ring with hu | hr
  · exact (hu.input h.ok i).imp id Started.ring
  · exact .inr (hr.passes (input_passes h.ok hr.state i))

theorem sound_run {is : List Input} (h : r.Sound) (hr : Run.run step r is = some r') : r'.Sound := by
  refine Run.run_invariant (fun s i s' hs he => ?_) h hr
  cases he
  exact hs.input i

omit [CongestionControl κ] in
theorem Passes.irs (h : r.Passes i r') : r'.tcb.irs = r.tcb.irs := by
  obtain ⟨hrec, -⟩ := h
  obtain ⟨v, hv⟩ : ∃ v, r'.tcb.toRecvSpace = v := ⟨_, rfl⟩
  rw [hv] at hrec
  cases hrec with
  | taken seg now ce _ _ =>
    obtain ⟨_, _, hs, -⟩ := r.tcb.toRecvSpace.text_shift r.tcb.sackEnabled seg.tcp
    rw [hv]
    exact hs.irs
  | kept _ _ => rw [hv]
  | read n => rw [hv]
  | advertised now =>
    rw [hv]
    rfl

/-- What one call hands out to the application. -/
theorem input_got (r : Host κ) (i : Input) :
    (∃ n, i = .recv n ∧ (r.input i).1.got = r.got ++ (r.tcb.rx.buf.take n).data) ∨
      ((∀ n, i ≠ .recv n) ∧ (r.input i).1.got = r.got) := by
  cases i with
  | recv n => exact .inl ⟨n, rfl, rfl⟩
  | _ => exact .inr ⟨fun _ => by simp, rfl⟩

/-- What was handed out and what waits in the ring: only a segment adds to it. -/
theorem input_stream (h : r.Sound) (hr : r.Ring) {i : Input} (hno : ¬ r.Takes i) :
    (r.input i).1.got ++ (r.input i).1.tcb.rx.buf.data = r.got ++ r.tcb.rx.buf.data := by
  rcases r.input_got i with ⟨n, rfl, hg⟩ | ⟨hne, hg⟩
  · rw [hg, List.append_assoc]
    congr 1
    change (r.tcb.rx.buf.take n).data ++ (r.tcb.rx.buf.drop n).data = _
    rw [Bytes.take_data, Bytes.drop_data, List.take_append_drop]
  rw [hg]
  obtain ⟨hrec, -⟩ := input_passes h.ok hr.state i
  generalize (r.input i).1 = r' at hrec
  obtain ⟨v, hv⟩ : ∃ v, r'.tcb.toRecvSpace = v := ⟨_, rfl⟩
  rw [hv] at hrec
  cases hrec with
  | kept _ _ => rw [hv]
  | read n => exact absurd rfl (hne n)
  | advertised now =>
    rw [hv]
    rfl
  | taken seg now ce hadm hvalid =>
    exact absurd (by simp only [Takes, hadm, hvalid, Bool.and_self]) hno

/-! ## A peer to run against -/

/-- A segment of the peer that acknowledges our SYN. -/
def peerSegment (seq : Nat) (flags : TcpFlags) (payload : Bytes) : TcpPacket :=
  { srcPort := 1000, dstPort := 80, seq := SeqNumber.new seq
    ack := SeqNumber.new 101, flags := { flags with ack := true }, ae := false, window := 65535
    mssOption := none, timestamps := none, windowScale := none, sackPermitted := false
    sackBlocks := [], payload := payload }

theorem empty_fits : Bytes.empty.len ≤ 65535 := Nat.zero_le _

/-- An ACK of the peer without octets: what it acknowledges, and what it reports under SACK. -/
def bareAck (ack : Nat) (blocks : List (SeqNumber × SeqNumber)) (now : Instant) : Input :=
  .segment ⟨{ peerSegment 5001 {} Bytes.empty with ack := SeqNumber.new ack, sackBlocks := blocks },
    empty_fits⟩ now false

/-- The SYN of the peer, at 5000, with SACK and the window scale option. -/
def peerSyn : TcpPacket :=
  { peerSegment 5000 { syn := true } Bytes.empty with
    ack := SeqNumber.new 0, flags := { syn := true }, windowScale := some 3, sackPermitted := true }

/-- The host that has accepted it. -/
def accepted : Host Reno :=
  fresh ((Tcb.newSynReceived ⟨2, 80⟩ ⟨1, 1000⟩ peerSyn (SeqNumber.new 100) ⟨0⟩ 65495).setCongestionControl
    .reno)

theorem accepted_opens : accepted.Opens := .passive ..

/-- Its SYN-ACK goes out, and is acknowledged. -/
def settled : List Input :=
  [.poll ⟨0⟩, .segment ⟨peerSegment 5001 {} Bytes.empty, by decide⟩ ⟨0⟩ false]

end Host

end Ferrumnet
