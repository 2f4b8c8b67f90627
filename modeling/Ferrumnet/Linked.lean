import Ferrumnet.Net

/-
  The joint invariant of two endpoints.

  For each direction, `Linked k s r` relates the sending host `s` to the
  receiving host `r`: `r` has not learned the sequence space of `s`, or it holds
  exactly what `s` was given, up to where `s` has been on the wire. `Carried`
  says that a packet on the wire is a piece of the stream of its sender and
  acknowledges what its sender has received.

  `k` is the slack past `SND.NXT`: one octet in general, because a window probe
  is on the wire without being counted, none while no probe is accepted.

  `onSegment_linked` — a delivered packet keeps both directions in step.
-/

namespace Ferrumnet

open Reasm (Truthful)

namespace Host

variable {κ : Type}

/-- The end of what the host has had on the wire, with slack `k`. -/
def reach (h : Host κ) (k : Nat) : Nat := h.tcb.toSendSpace.reach k h.una

/-- The send side of a host is in step with the bytes it was given. -/
structure Ok (h : Host κ) : Prop where
  sending : Sending h.sent h.una h.tcb.toSendSpace
  phase : Phase h.tcb.state h.una h.tcb.finSeq

/-- The host has not seen a SYN of its peer. -/
structure Unlearned (h : Host κ) : Prop where
  state : h.tcb.state = .synSent ∨ h.tcb.state = .closed
  recv : h.tcb.toRecvSpace = Tcb.freshRecv (SeqNumber.new 0) (SeqNumber.new 0) (SeqNumber.new 0)
  rcv : h.rcv = 0
  adv : h.adv = 0
  got : h.got = []

/-- `r` has learned the sequence space of `s` and is in step with its stream. -/
structure Learned (k : Nat) (s r : Host κ) : Prop where
  irs : r.tcb.irs = s.tcb.iss
  received : Received r.tcb.sackEnabled s.tcb.iss s.sent (s.tcb.finSeq.isSome) (s.reach k) r.rcv
    r.got r.tcb.toRecvSpace
  edge : r.tcb.rcvAdv = s.tcb.iss + r.adv
  acked : s.una ≤ r.rcv
  shown : s.una ≤ r.adv
  near : r.adv ≤ r.rcv + 262144
  state : r.tcb.state ≠ .synSent
  half : r.tcb.state = .synReceived → r.rcv = 1

def Linked (k : Nat) (s r : Host κ) : Prop := (r.Unlearned ∧ s.una = 0) ∨ s.Learned k r

/-- What a packet that is not a RST says about its sender. -/
structure Carried (s : Host κ) (p : Packet) : Prop where
  seq : p.dgram.repr.seq = s.tcb.iss + p.seqPos
  stream : OfStream s.sent (s.tcb.finSeq.isSome) p.seqPos p.dgram.repr.flags p.dgram.payload
  ends : p.seqPos + p.dgram.parse.segLen ≤ s.reach 0 ∨
    (p.dgram.repr.flags.syn = false ∧ p.dgram.repr.flags.fin = false ∧ p.dgram.payload.len = 1 ∧
      p.seqPos ≤ s.una)
  ack : p.dgram.repr.flags.ack = true →
    1 ≤ p.ackPos ∧ p.ackPos ≤ s.rcv ∧ p.ackPos ≤ s.adv ∧ p.dgram.repr.ack = s.tcb.irs + p.ackPos
  acks : p.dgram.repr.flags.syn = false → p.dgram.repr.flags.ack = true

/-- How a host moves, seen from its peer and from its packets. -/
structure Grows (h h' : Host κ) : Prop where
  iss : h'.tcb.iss = h.tcb.iss
  sent : h.sent <+: h'.sent
  fin : ∀ f, h.tcb.finSeq = some f → h'.tcb.finSeq = some f ∧ h'.sent = h.sent
  una : h.una ≤ h'.una
  nxt : 1 ≤ h.una → h.una + h.tcb.toSendSpace.outstanding ≤ h'.una + h'.tcb.toSendSpace.outstanding
  rcv : h.rcv ≤ h'.rcv
  adv : h.adv ≤ h'.adv
  irs : 1 ≤ h.rcv → h'.tcb.irs = h.tcb.irs

section Growth

variable {h h' s s' r r' : Host κ} {k : Nat} {p : Packet}

theorem Grows.reach (g : h.Grows h') (k : Nat) : h.reach k ≤ h'.reach k := by
  have h1 := g.una
  have h2 := g.nxt
  unfold Host.reach SendSpace.reach
  split <;> split <;> omega

theorem Grows.fin_isSome (g : h.Grows h') (hf : h.tcb.finSeq.isSome = true) :
    h'.tcb.finSeq.isSome = true ∧ h'.sent = h.sent := by
  obtain ⟨f, hf⟩ := Option.isSome_iff_exists.mp hf
  obtain ⟨h1, h2⟩ := g.fin f hf
  exact ⟨by rw [h1]; rfl, h2⟩

theorem reach_pos (s : Host κ) (k : Nat) : 1 ≤ s.reach k := by
  unfold Host.reach SendSpace.reach
  split <;> omega

theorem Carried.ends_one (hc : Carried s p) (h1 : 1 ≤ p.seqPos ∨ p.dgram.repr.flags.syn = true) :
    p.seqPos + p.dgram.parse.segLen ≤ s.reach 1 := by
  rcases hc.ends with he | ⟨hs, hf, hl, hu⟩
  · exact he.trans (SendSpace.reach_mono (by omega))
  · have hseg : p.dgram.parse.segLen = 1 := by
      simp only [TcpPacket.segLen, Datagram.parse, hs, hf, hl, Bool.toNat_false]
    rw [hseg, Host.reach, SendSpace.reach]
    split
    · rcases h1 with h1 | h1
      · omega
      · simp [hs] at h1
    · omega

theorem OfStream.grows {flags : TcpFlags} {payload : Bytes} {pos : Nat} (g : h.Grows h')
    (ho : OfStream h.sent (h.tcb.finSeq.isSome) pos flags payload) :
    OfStream h'.sent (h'.tcb.finSeq.isSome) pos flags payload := by
  refine ⟨ho.syn, fun hs => ?_⟩
  obtain ⟨h1, h2, h3⟩ := ho.text hs
  refine ⟨h1, ?_, fun hf => ?_⟩
  · rcases Nat.eq_zero_or_pos payload.len with h0 | h0
    · rw [Bytes.data_eq_nil.mpr h0]; exact carries_nil _ _
    · refine h2.mono g.sent ?_
      have := h2.length (by rw [Bytes.length_data]; exact h0)
      omega
  · obtain ⟨h4, h5⟩ := h3 hf
    obtain ⟨h6, h7⟩ := g.fin_isSome h4
    exact ⟨h6, by rw [h7]; exact h5⟩

theorem Carried.grows (g : h.Grows h') (hc : h.Carried p) : h'.Carried p := by
  refine ⟨by rw [g.iss]; exact hc.seq, OfStream.grows g hc.stream, ?_, fun ha => ?_, hc.acks⟩
  · rcases hc.ends with he | ⟨h1, h2, h3, h4⟩
    · exact .inl (he.trans (g.reach 0))
    · exact .inr ⟨h1, h2, h3, h4.trans g.una⟩
  · obtain ⟨h1, h2, h3, h4⟩ := hc.ack ha
    exact ⟨h1, h2.trans g.rcv, h3.trans g.adv, by rw [g.irs (h1.trans h2)]; exact h4⟩

/-- The sender of a direction moves. -/
theorem Linked.grows (g : s.Grows s') (hl : s.Linked k r)
    (hu : s'.una = s.una ∨ (s'.una ≤ r.rcv ∧ s'.una ≤ r.adv)) : s'.Linked k r := by
  rcases hl with ⟨h1, h2⟩ | hl
  · refine .inl ⟨h1, ?_⟩
    have := h1.rcv
    omega
  · refine .inr ⟨hl.irs.trans g.iss.symm, ?_, by rw [g.iss]; exact hl.edge, ?_, ?_, hl.near,
      hl.state, hl.half⟩
    · rw [g.iss]
      refine hl.received.grow g.sent (fun hf => ?_) (g.reach k)
      exact g.fin_isSome hf
    · have := hl.acked
      omega
    · have := hl.shown
      omega

end Growth

/-! ## Consequences for one direction -/

section Bounds

variable {s r : Host κ} {k : Nat}

theorem reach_le (s : Host κ) (hk : k ≤ 1) :
    s.reach k ≤ s.una + s.tcb.toSendSpace.outstanding + 1 := by
  unfold Host.reach SendSpace.reach
  split <;> omega

theorem Ok.sent_le (h : s.Ok) : s.sent.length ≤ s.una + 262144 := by
  have := h.sending.len_le
  omega

theorem Learned.rcv_near (h : s.Learned k r) (hs : s.Ok) (hk : k ≤ 1) : r.rcv ≤ s.una + 262146 := by
  have h1 := h.received.le
  have h2 := s.reach_le hk
  have h3 := hs.sending.outstanding_le
  omega

theorem Learned.near_stream (h : s.Learned k r) (hs : s.Ok) (hk : k ≤ 1) :
    Near s.sent (s.tcb.finSeq.isSome) (s.reach k) r.rcv := by
  have h1 := s.reach_le hk
  have h2 := hs.sending.outstanding_le
  have h3 := hs.sent_le
  have h4 := h.acked
  refine ⟨by omega, by omega, fun hf => ?_⟩
  obtain ⟨f, hf⟩ := Option.isSome_iff_exists.mp hf
  obtain ⟨-, h5, h6, -⟩ := hs.sending.finished f hf
  rw [Host.reach, SendSpace.reach, if_neg (by omega)]
  omega

/-- A host that has received something has learned its peer's sequence space. -/
theorem Linked.learned (h : s.Linked k r) (hr : 1 ≤ r.rcv) : s.Learned k r := by
  rcases h with ⟨h, -⟩ | h
  · have := h.rcv
    omega
  · exact h

theorem Linked.learned_of_state (h : s.Linked k r) (h1 : r.tcb.state ≠ .synSent)
    (h2 : r.tcb.state ≠ .closed) : s.Learned k r := by
  rcases h with ⟨h, -⟩ | h
  · rcases h.state with h | h <;> contradiction
  · exact h

end Bounds

/-! ## A received segment -/

section Receive

variable {s r : Host κ} {k : Nat} {p : Packet} {t : Tcb κ}

/-- A packet not so old that its numbers have come round: less than half the
sequence space behind. -/
def Fresh (r : Host κ) (p : Packet) : Prop :=
  p.dgram.repr.flags.syn = false → p.dgram.repr.flags.rst = false →
    r.rcv ≤ p.seqPos + 2147483648 ∧ r.nxt ≤ p.ackPos + 2147483648

instance : Decidable (r.Fresh p) := inferInstanceAs (Decidable (_ → _ → _ ∧ _))

/-- A segment that is admitted with room for its bytes ends within slack `k`. -/
def Within (k : Nat) (s r : Host κ) (p : Packet) : Prop :=
  r.tcb.core.admits p.dgram.parse = true →
    p.seqPos + p.dgram.payload.len ≤ s.reach k ∨ r.tcb.rx.free = 0

instance : Decidable (Within k s r p) := inferInstanceAs (Decidable (_ → _ ∨ _))

theorem follow_una (h : t.sndUna = r.tcb.sndUna) : (r.follow t).una = r.una := by
  change r.una + t.sndUna.offsetFrom r.tcb.sndUna = _
  rw [h, SeqNumber.offsetFrom_self, Nat.add_zero]

/-- Steps that leave the receive space alone. -/
theorem Linked.keep (h : s.Linked k r) (hr : t.toRecvSpace = r.tcb.toRecvSpace)
    (hk : t.sackEnabled = r.tcb.sackEnabled) (hst : t.state = r.tcb.state ∨ t.state = .closed) :
    s.Linked k (r.follow t) ∧ (r.follow t).rcv = r.rcv ∧ (r.follow t).adv = r.adv := by
  have hpos : (r.follow t).rcv = r.rcv ∧ (r.follow t).adv = r.adv := by
    simp only [follow, hr]
    split
    · rename_i hs
      rcases h with ⟨h, -⟩ | h
      · rw [h.recv, h.rcv, h.adv]
        simp [Tcb.freshRecv]
      · exact absurd hs h.state
    · simp
  refine ⟨?_, hpos⟩
  rcases h with ⟨h, h0⟩ | h
  · refine .inl ⟨⟨?_, hr.trans h.recv, hpos.1.trans h.rcv, hpos.2.trans h.adv, h.got⟩, h0⟩
    rcases hst with hst | hst
    · change t.state = _ ∨ t.state = _
      rw [hst]; exact h.state
    · exact .inr hst
  · refine .inr ⟨?_, ?_, ?_, ?_, ?_, ?_, ?_, ?_⟩
    · change t.toRecvSpace.irs = _
      rw [hr]; exact h.irs
    · rw [hpos.1]
      change Received t.sackEnabled _ _ _ _ _ r.got t.toRecvSpace
      rw [hr, hk]; exact h.received
    · rw [hpos.2]
      change t.toRecvSpace.rcvAdv = _
      rw [hr]; exact h.edge
    · rw [hpos.1]; exact h.acked
    · rw [hpos.2]; exact h.shown
    · rw [hpos.1, hpos.2]; exact h.near
    · change t.state ≠ _
      rcases hst with hst | hst
      · rw [hst]; exact h.state
      · simp [hst]
    · intro hc
      have hc : t.state = .synReceived := hc
      rw [hpos.1]
      rcases hst with hst | hst
      · exact h.half (hst ▸ hc)
      · simp [hst] at hc

/-- The receive space of a host that has not seen a SYN takes nothing in. -/
theorem Unlearned.text (h : r.Unlearned) {tcp : TcpPacket}
    (ha : r.tcb.core.admits tcp = true) (sack : Bool) :
    r.tcb.toRecvSpace.text sack tcp = r.tcb.toRecvSpace := by
  have hacc : r.tcb.toRecvSpace.segmentAcceptable tcp.seq tcp.segLen = true := by
    simp only [Core.admits, Bool.and_eq_true, Tcb.core_recv] at ha
    exact ha.1.2
  have hlen : tcp.segLen = 0 := by
    by_contra hne
    simp [RecvSpace.segmentAcceptable, h.recv, Tcb.freshRecv, hne] at hacc
  have hp : tcp.payload.isEmpty = true := by
    rw [Bytes.isEmpty_iff]
    simp only [TcpPacket.segLen] at hlen
    omega
  have hf : tcp.flags.fin = false := by
    simp only [TcpPacket.segLen] at hlen
    cases hfin : tcp.flags.fin
    · rfl
    · simp [hfin] at hlen
  rw [h.recv]
  simp [RecvSpace.text, RecvSpace.acceptData, RecvSpace.acceptFin, RecvSpace.takePendingFin, hp, hf,
    Tcb.freshRecv]

theorem closingState_ne {st st' : State} {x y : Bool} (h : st ≠ st')
    (h' : st' = .synSent ∨ st' = .synReceived) : Tcb.closingState st x y ≠ st' := by
  rcases h' with rfl | rfl <;> cases st <;> cases x <;> cases y <;>
    simp_all [Tcb.closingState]

/-- A valid ACK ends the handshake. -/
theorem ackedState_ne {c : Core} (h : c.state ≠ .synSent) :
    c.ackedState ≠ .synSent ∧ c.ackedState ≠ .synReceived := by
  simp only [Core.ackedState]
  by_cases hrec : c.state = .synReceived
  · simp [hrec]
  · simp [hrec, h]

/-- The receive side of a segment taken in whole. -/
theorem Linked.taken (h : s.Linked k r) (hs : s.Ok) (hk : k ≤ 1) (hc : s.Carried p)
    (hfresh : r.rcv ≤ p.seqPos + 2147483648) (hw : s.Within k r p)
    (ha : r.tcb.core.admits p.dgram.parse = true)
    (ht : t.toRecvSpace = r.tcb.toRecvSpace.text r.tcb.sackEnabled p.dgram.parse)
    (hsack : t.sackEnabled = r.tcb.sackEnabled) {x y : Bool}
    (hst : t.state = Tcb.closingState r.tcb.core.ackedState x y) (hns : r.tcb.state ≠ .synSent) :
    s.Linked k (r.follow t) ∧ r.rcv ≤ (r.follow t).rcv ∧ (r.follow t).adv = r.adv ∧
      (1 ≤ r.rcv → t.irs = r.tcb.irs) := by
  have hack := ackedState_ne (c := r.tcb.core) hns
  rcases h with ⟨h, h0⟩ | h
  · have hsame := h.text ha r.tcb.sackEnabled
    have hclosed : r.tcb.state = .closed := h.state.resolve_left hns
    have hst' : t.state = .closed := by
      rw [hst]
      simp [Core.ackedState, hclosed, Tcb.closingState]
    obtain ⟨h1, h2, h3⟩ := Linked.keep (t := t) (.inl ⟨h, h0⟩ : s.Linked k r) (ht.trans hsame) hsack
      (.inr hst')
    exact ⟨h1, h2.ge, h3, fun h1 => by have := h.rcv; omega⟩
  · have hr := h.received
    have hnear := h.near_stream hs hk
    have hrn := h.rcv_near hs hk
    have hshown := h.shown
    have hnr := h.near
    have hsyn : p.dgram.repr.flags.syn = false := by
      simp only [Core.admits, Bool.and_eq_true, Bool.not_eq_true'] at ha
      exact ha.1.1.1.2
    obtain ⟨h1, hcar, hfin⟩ := hc.stream.text hsyn
    have hhi : p.seqPos + p.dgram.parse.payload.len ≤ s.reach k ∨
        (p.seqPos = r.rcv ∧ r.tcb.rx.free = 0) := by
      rcases hw ha with hw | hw
      · exact .inl hw
      · -- only a window probe can end past `SND.NXT`, and then it starts at `RCV.NXT`
        rcases hc.ends with he | ⟨-, -, hlen, hu⟩
        · left
          refine Nat.le_trans ?_ (he.trans (SendSpace.reach_mono (Nat.zero_le k)))
          simp only [TcpPacket.segLen, Datagram.parse]
          omega
        · have hle : s.una ≤ s.reach k := by
            unfold Host.reach SendSpace.reach
            split <;> omega
          have h2 := h.acked
          have h3 := hr.le
          by_cases hend : p.seqPos + p.dgram.parse.payload.len ≤ s.reach k
          · exact .inl hend
          · simp only [Datagram.parse] at hend ⊢
            exact .inr ⟨by omega, hw⟩
    obtain ⟨rcv', hle, hr', hi', ha'⟩ := text_received hr hnear h.edge (by omega) (by omega) h1
      hc.seq hfresh hcar hhi hfin
    have hpos : (r.follow t).rcv = rcv' := by
      have hle' := hr'.le
      have hedge := hnear.edge
      simp only [follow, hns, if_false, ht]
      rw [hr'.nxt, hr.nxt, SeqNumber.offsetFrom_pos_le _ hle (by omega)]
      omega
    have hadv : (r.follow t).adv = r.adv := by
      simp only [follow, hns, if_false, ht]
      rw [ha', SeqNumber.offsetFrom_self, Nat.add_zero]
    refine ⟨.inr ⟨?_, ?_, ?_, ?_, ?_, ?_, ?_, ?_⟩, by omega, hadv, fun _ => by rw [ht]; exact hi'⟩
    · change t.toRecvSpace.irs = _
      rw [ht, hi']; exact h.irs
    · rw [hpos]
      change Received t.sackEnabled _ _ _ _ _ r.got t.toRecvSpace
      rw [hsack, ht]; exact hr'
    · rw [hadv]
      change t.toRecvSpace.rcvAdv = _
      rw [ht, ha']; exact h.edge
    · have := h.acked
      omega
    · rw [hadv]; exact h.shown
    · rw [hadv]; omega
    · change t.state ≠ _
      rw [hst]; exact closingState_ne hack.1 (.inl rfl)
    · intro hc
      have hc : t.state = .synReceived := hc
      rw [hst] at hc
      exact absurd hc (closingState_ne hack.2 (.inr rfl))

/-- The first segment of the peer: its SYN. -/
theorem learned_start (h0 : s.una = 0)
    (hr : r.tcb.toRecvSpace = Tcb.freshRecv s.tcb.iss (s.tcb.iss + 1) (s.tcb.iss + 1 + synWindow))
    (h1 : r.rcv = 1) (h2 : r.adv = 65536) (hgot : r.got = []) (hst : r.tcb.state ≠ .synSent) :
    s.Learned k r := by
  have hw : ((s.tcb.iss + 1 : SeqNumber) + synWindow : SeqNumber) = s.tcb.iss + 65536 :=
    SeqNumber.add_add _ _ _
  refine ⟨by rw [hr]; rfl, ?_, by rw [hr, h2]; exact hw, by omega, by omega, by omega, hst,
    fun _ => h1⟩
  rw [hr, h1, hgot]
  refine ⟨le_rfl, rfl, s.reach_pos k, fun _ => ⟨by omega, rfl⟩, by simp [Tcb.freshRecv],
    by simp [Tcb.freshRecv], ⟨[], ⟨.nil, ⟨by simp, by simp, .nil⟩, by simp, rfl⟩, by simp [Truthful]⟩,
    fun _ => rfl⟩

/-- The send space has not moved. -/
theorem Ok.keep (h : r.Ok) (hs : t.toSendSpace = r.tcb.toSendSpace)
    (hst : Phase t.state r.una r.tcb.finSeq) : (r.follow t).Ok := by
  have hu : (r.follow t).una = r.una := follow_una (by rw [hs])
  refine ⟨?_, ?_⟩
  · rw [hu]
    change Sending r.sent r.una t.toSendSpace
    rw [hs]; exact h.sending
  · rw [hu]
    change Phase t.state r.una t.toSendSpace.finSeq
    rw [hs]; exact hst

theorem Grows.keep (hs : t.toSendSpace = r.tcb.toSendSpace) (hr : r.rcv ≤ (r.follow t).rcv)
    (ha : r.adv ≤ (r.follow t).adv) (hi : 1 ≤ r.rcv → t.irs = r.tcb.irs) :
    r.Grows (r.follow t) := by
  have hu : (r.follow t).una = r.una := follow_una (by rw [hs])
  refine ⟨by change t.toSendSpace.iss = _; rw [hs], List.prefix_rfl, fun f hf => ⟨?_, rfl⟩, hu.ge,
    fun _ => ?_, hr, ha, hi⟩
  · change t.toSendSpace.finSeq = _
    rw [hs]; exact hf
  · rw [hu]
    change _ ≤ r.una + t.toSendSpace.outstanding
    rw [hs]

/-- What delivering a packet keeps. -/
structure Delivered (k : Nat) (s r : Host κ) (t : Tcb κ) : Prop where
  ok : (r.follow t).Ok
  grows : r.Grows (r.follow t)
  forward : s.Linked k (r.follow t)
  back : (r.follow t).Linked k s
  fin : t.finSeq = r.tcb.finSeq

/-- The ACK of our SYN, by the peer's SYN. -/
theorem acksSyn_send (hr : r.Ok) (hst : r.tcb.state = .synSent) {tcp : TcpPacket}
    (hack : r.tcb.core.acksSyn tcp = true)
    (hsend : t.toSendSpace = { r.tcb.toSendSpace with sndUna := tcp.ack }) :
    tcp.ack = r.tcb.iss + 1 ∧ (r.follow t).una = 1 ∧ Sending r.sent 1 t.toSendSpace ∧
      r.tcb.finSeq = none ∧ r.una = 0 ∧ t.toSendSpace.outstanding = 0 := by
  have hru : r.una = 0 := by
    have := hr.phase
    rwa [hst] at this
  have hs0 : Sending r.sent 0 r.tcb.toSendSpace := by
    have := hr.sending
    rwa [hru] at this
  have ho := hs0.opening_le rfl
  simp only [Core.acksSyn, Bool.and_eq_true] at hack
  obtain ⟨⟨-, hgt⟩, hle⟩ := hack
  have hd := (SeqNumber.gt_iff _ _).mp hgt
  have hat : tcp.ack = r.tcb.iss + tcp.ack.offsetFrom r.tcb.iss := (SeqNumber.add_offsetFrom _ _).symm
  have hnxt := hs0.at_nxt
  rw [Nat.zero_add] at hnxt
  rw [show r.tcb.core.iss = r.tcb.iss from rfl] at hd
  rw [hat, show r.tcb.core.sndNxt = r.tcb.sndNxt from rfl, hnxt,
    SeqNumber.pos_le _ (by omega) (by omega), decide_eq_true_eq] at hle
  have hone : tcp.ack.offsetFrom r.tcb.iss = 1 := by omega
  rw [hone] at hat
  have hs1 := hs0.synAcked hat (by omega)
  have hz := hs0.at_una
  rw [SeqNumber.add_zero] at hz
  have hs1' : Sending r.sent 1 t.toSendSpace := by rw [hsend]; exact hs1
  have hnone : t.toSendSpace.finSeq = none := by rw [hsend]; exact hs0.fin_none rfl
  refine ⟨hat, ?_, hs1', hs0.fin_none rfl, hru, ?_⟩
  · simp only [follow, hru, hsend, hat, hz, Nat.zero_add]
    exact SeqNumber.offsetFrom_add _ 1
  · have h1 := (hs1'.opened hnone).1
    rw [hs0.opening rfl, List.length_nil] at h1
    omega

/-- The peer's SYN, in SYN-SENT. -/
theorem learn_linked (hsr : s.Linked k r) (hst : r.tcb.state = .synSent)
    (hc : s.Carried p) (hsyn : p.dgram.repr.flags.syn = true)
    (ht : t.toRecvSpace = { r.tcb.toRecvSpace with
      irs := p.dgram.parse.seq, rcvNxt := p.dgram.parse.seq + 1
      rcvAdv := p.dgram.parse.seq + 1 + synWindow })
    (hst' : t.state ≠ .synSent) :
    s.Learned k (r.follow t) ∧ (r.follow t).rcv = 1 ∧ (r.follow t).adv = 65536 ∧ r.rcv = 0 ∧
      r.adv = 0 := by
  obtain ⟨hun, h0⟩ : r.Unlearned ∧ s.una = 0 := by
    rcases hsr with h | h
    · exact h
    · exact absurd hst h.state
  have hseq : p.dgram.parse.seq = s.tcb.iss := by
    have := hc.seq
    rwa [(hc.stream.syn hsyn).1, SeqNumber.add_zero] at this
  have hrt : t.toRecvSpace =
      Tcb.freshRecv s.tcb.iss (s.tcb.iss + 1) (s.tcb.iss + 1 + synWindow) := by
    rw [ht, hun.recv, hseq]; rfl
  have h1 : (r.follow t).rcv = 1 := by
    simp only [follow, hst, if_true, hrt]
    exact SeqNumber.offsetFrom_add _ 1
  have h2 : (r.follow t).adv = 65536 := by
    simp only [follow, hst, if_true, hrt, Tcb.freshRecv, SeqNumber.add_add]
    exact SeqNumber.offsetFrom_add _ 65536
  exact ⟨learned_start h0 hrt h1 h2 hun.got hst', h1, h2, hun.rcv, hun.adv⟩

/-- Steps of a received segment that move neither sequence space. -/
theorem delivered_quiet (hr : r.Ok) (hsr : s.Linked k r) (hrs : r.Linked k s)
    (h1 : t.toSendSpace = r.tcb.toSendSpace) (h2 : t.toRecvSpace = r.tcb.toRecvSpace)
    (h3 : t.sackEnabled = r.tcb.sackEnabled) (h4 : t.state = r.tcb.state ∨ t.state = .closed) :
    Delivered k s r t := by
  obtain ⟨h5, h6, h7⟩ := hsr.keep h2 h3 h4
  have hg : r.Grows (r.follow t) := .keep h1 h6.ge h7.ge fun _ => by rw [h2]
  refine ⟨hr.keep h1 ?_, hg, h5, hrs.grows hg (.inl (follow_una (by rw [h1]))), by rw [h1]⟩
  rcases h4 with h4 | h4 <;> rw [h4]
  · exact hr.phase
  · exact trivial

theorem onSegmentSynSent_linked (hr : r.Ok) (hsr : s.Linked k r) (hrs : r.Linked k s)
    (hp : p.dgram.repr.flags.rst = false → s.Carried p) (hst : r.tcb.state = .synSent)
    (ht : r.tcb.core.TakesSyn p.dgram.parse t.core) : Delivered k s r t := by
  generalize hc : t.core = c at ht
  cases ht with
  | dropped =>
    exact delivered_quiet hr hsr hrs (congrArg Core.toSendSpace hc) (congrArg Core.toRecvSpace hc)
      (congrArg (fun c => c.sackEnabled) hc) (.inl (congrArg Core.state hc))
  | reset =>
    exact delivered_quiet hr hsr hrs (congrArg Core.toSendSpace hc) (congrArg Core.toRecvSpace hc)
      (congrArg (fun c => c.sackEnabled) hc) (.inr (congrArg Core.state hc))
  | acked hrst hsyn hack =>
    have hcar := hp hrst
    have hstate : t.state = .established := congrArg Core.state hc
    have hsend : t.toSendSpace = { r.tcb.toSendSpace with sndUna := p.dgram.parse.ack } :=
      congrArg Core.toSendSpace hc
    obtain ⟨hl, h3, h4, h5, h6⟩ := learn_linked hsr hst hcar hsyn (congrArg Core.toRecvSpace hc)
      (by simp [hstate])
    obtain ⟨hat, hu, hs1, hnone, hru, -⟩ := acksSyn_send hr hst hack hsend
    have hg : r.Grows (r.follow t) := by
      refine ⟨by change t.toSendSpace.iss = _; rw [hsend], List.prefix_rfl, fun f hf => ?_, by omega,
        by omega, by omega, by omega, by omega⟩
      rw [hnone] at hf; cases hf
    refine ⟨⟨by rw [hu]; exact hs1, ?_⟩, hg, .inr hl, ?_, by rw [hsend]⟩
    · rw [hu]
      change Phase t.state 1 t.toSendSpace.finSeq
      rw [hstate, hsend]
      exact ⟨le_rfl, hnone⟩
    · simp only [Core.acksSyn, Bool.and_eq_true] at hack
      obtain ⟨h7, h8, h9, -⟩ := hcar.ack hack.1.1
      exact hrs.grows hg (.inr ⟨by omega, by omega⟩)
  | crossed hrst hsyn hack =>
    have hstate : t.state = .synReceived := congrArg Core.state hc
    have hsend : t.toSendSpace = r.tcb.toSendSpace := congrArg Core.toSendSpace hc
    obtain ⟨hl, h3, h4, h5, h6⟩ := learn_linked hsr hst (hp hrst) hsyn
      (congrArg Core.toRecvSpace hc) (by simp [hstate])
    have hg : r.Grows (r.follow t) := .keep hsend (by omega) (by omega) (by omega)
    refine ⟨hr.keep hsend ?_, hg, .inr hl, hrs.grows hg (.inl (follow_una (by rw [hsend]))),
      by rw [hsend]⟩
    have := hr.phase
    rw [hst] at this
    rw [hstate]
    exact this

/-- An admitted segment is neither a RST nor a SYN, and carries ACK. -/
theorem admits_flags {c : Core} {tcp : TcpPacket} (h : c.admits tcp = true) :
    tcp.flags.rst = false ∧ tcp.flags.syn = false ∧ tcp.flags.ack = true := by
  simp only [Core.admits, Bool.and_eq_true, Bool.not_eq_true'] at h
  exact ⟨h.1.1.1.1.1.2, h.1.1.1.2, h.2⟩

/-- What a taken segment does to the send side. -/
structure AcksSend (k : Nat) (s r : Host κ) (p : Packet) (t : Tcb κ) : Prop where
  learned : r.Learned k s
  pos : 1 ≤ p.ackPos
  le_rcv : p.ackPos ≤ s.rcv
  le_adv : p.ackPos ≤ s.adv
  le_nxt : p.ackPos ≤ r.nxt
  ack : p.dgram.repr.ack = r.tcb.iss + p.ackPos
  una : (r.follow t).una = max r.una p.ackPos
  nxt : (r.follow t).nxt = r.nxt
  sending : Sending r.sent (max r.una p.ackPos) t.toSendSpace
  phase : Phase r.tcb.core.ackedState (max r.una p.ackPos) r.tcb.finSeq
  iss : t.iss = r.tcb.iss
  fin : t.finSeq = r.tcb.finSeq

theorem taken_send (hr : r.Ok) (hrs : r.Linked k s) (hk : k ≤ 1) (hcar : s.Carried p)
    (hfresh : r.Fresh p) (hns : r.tcb.state ≠ .synSent)
    (hadm : r.tcb.core.admits p.dgram.parse = true)
    (hv : r.tcb.core.validAck p.dgram.parse = true)
    (hsend : t.toSendSpace = r.tcb.core.ackedSend p.dgram.parse) : AcksSend k s r p t := by
  obtain ⟨hrst, hsyn, hack⟩ := admits_flags hadm
  have hold : r.una + r.tcb.core.toSendSpace.outstanding ≤ p.ackPos + 2147483648 :=
    (hfresh hsyn hrst).2
  obtain ⟨h1, h2, h3, h4⟩ := hcar.ack hack
  have hls := hrs.learned (h1.trans h2)
  have hreach := hls.received.le
  have hle := r.reach_le hk
  rw [hls.irs] at h4
  have hat : p.dgram.parse.ack = r.tcb.core.iss + p.ackPos := h4
  have hnear : p.ackPos ≤ r.una + r.tcb.core.toSendSpace.outstanding + 1073741824 := by
    change _ ≤ r.una + r.tcb.toSendSpace.outstanding + _
    omega
  obtain ⟨h5, h6, h7, h8, h9, h10, h11⟩ :=
    acked_sending (c := r.tcb.core) hr.sending hr.phase hns hat hold hnear hv
  have h5' : p.ackPos ≤ r.una + r.tcb.toSendSpace.outstanding := h5
  have ho := hr.sending.outstanding_le
  have hu : (r.follow t).una = max r.una p.ackPos := by
    simp only [follow, hsend, h10]
    rw [hr.sending.at_una, show r.tcb.core.iss = r.tcb.iss from rfl,
      SeqNumber.offsetFrom_pos_le _ (by omega) (by omega)]
    omega
  refine ⟨hls, h1, h2, h3, h5', h4, hu, ?_, by rw [hsend]; exact h6, h7, ?_, ?_⟩
  · change (r.follow t).una + t.toSendSpace.outstanding = r.una + r.tcb.toSendSpace.outstanding
    rw [hu, hsend]
    change _ + (r.tcb.core.ackedSend p.dgram.parse).sndNxt.offsetFrom
      (r.tcb.core.ackedSend p.dgram.parse).sndUna = _
    rw [h11, h10, show r.tcb.core.sndNxt = r.tcb.sndNxt from rfl, hr.sending.at_nxt,
      show r.tcb.core.iss = r.tcb.iss from rfl,
      SeqNumber.offsetFrom_pos_le _ (by omega) (by omega)]
    omega
  · rw [hsend, h8]; rfl
  · rw [hsend, h9]; rfl

/-- The SYN once more: `SND.NXT` goes back to it, which is all that was ever sent. -/
theorem Ok.rewind (hr : r.Ok) (hrec : r.tcb.state = .synReceived)
    (hsend : t.toSendSpace = { r.tcb.toSendSpace with sndNxt := r.tcb.iss })
    (hstate : t.state = r.tcb.state) : (r.follow t).Ok ∧ (r.follow t).una = r.una := by
  have h0 : r.una = 0 := by
    have := hr.phase
    rwa [hrec] at this
  have hs0 : Sending r.sent 0 r.tcb.toSendSpace := by
    have := hr.sending
    rwa [h0] at this
  have hat := hs0.at_una
  rw [SeqNumber.add_zero] at hat
  have hnone := hs0.fin_none rfl
  have hu : (r.follow t).una = r.una := follow_una (by rw [hsend])
  have hout : t.toSendSpace.outstanding = 0 := by
    rw [hsend]
    change r.tcb.iss.offsetFrom r.tcb.sndUna = 0
    rw [hat, SeqNumber.offsetFrom_self]
  refine ⟨⟨?_, ?_⟩, hu⟩
  · rw [hu, h0]
    change Sending r.sent 0 t.toSendSpace
    refine ⟨?_, ?_, ?_, hs0.opening, fun _ => ⟨by omega, ?_⟩, fun f hf => ?_⟩
    · rw [hsend]; exact hs0.at_una
    · rw [hsend]; exact hs0.bytes
    · rw [hsend]; exact hs0.capacity
    · rw [hsend]; exact (hs0.opened hnone).2
    · rw [hsend] at hf
      exact absurd (hnone.symm.trans hf) (by simp)
  · rw [hu, h0]
    change Phase t.state 0 t.toSendSpace.finSeq
    rw [hstate, hrec]
    exact rfl

/-- What the peer knows of the host is still right. -/
theorem synAgain_linked (hr : r.Ok) (hsr : s.Linked k r) (hrs : r.Linked k s)
    (hrec : r.tcb.state = .synReceived)
    (hsend : t.toSendSpace = { r.tcb.toSendSpace with sndNxt := r.tcb.iss })
    (hrecv : t.toRecvSpace = r.tcb.toRecvSpace) (hsack : t.sackEnabled = r.tcb.sackEnabled)
    (hstate : t.state = r.tcb.state) : Delivered k s r t := by
  obtain ⟨hok, hsame⟩ := hr.rewind hrec hsend hstate
  have h0 : r.una = 0 := by
    have := hr.phase
    rwa [hrec] at this
  have hnone := hr.sending.fin_none h0
  have hu : (r.follow t).una = 0 := hsame.trans h0
  obtain ⟨h5, h6, h7⟩ := hsr.keep hrecv hsack (.inl hstate)
  have hg : r.Grows (r.follow t) := by
    refine ⟨by change t.toSendSpace.iss = _; rw [hsend], List.prefix_rfl, fun f hf => ?_, by omega,
      by omega, h6.ge, h7.ge, fun _ => ?_⟩
    · rw [hnone] at hf; cases hf
    · change t.toRecvSpace.irs = _
      rw [hrecv]
  exact ⟨hok, hg, h5, hrs.grows hg (.inl (by omega)), by rw [hsend]⟩

/-- A segment taken in whole. -/
theorem taken_linked (hr : r.Ok) (hs : s.Ok) (hsr : s.Linked k r) (hrs : r.Linked k s)
    (hk : k ≤ 1) (hcar : s.Carried p) (hfresh : r.Fresh p) (hw : s.Within k r p)
    (hns : r.tcb.state ≠ .synSent) (hadm : r.tcb.core.admits p.dgram.parse = true)
    (hv : r.tcb.core.validAck p.dgram.parse = true)
    (hc : t.core = ((r.tcb.core.advanceTsRecent p.dgram.parse).acked p.dgram.parse).onText
      p.dgram.parse) : Delivered k s r t := by
  obtain ⟨hrst, hsyn, -⟩ := admits_flags hadm
  have hrecv : t.toRecvSpace = r.tcb.toRecvSpace.text r.tcb.sackEnabled p.dgram.parse :=
    congrArg Core.toRecvSpace hc
  have hstate : t.state = _ := congrArg Core.state hc
  have ha := taken_send (t := t) hr hrs hk hcar hfresh hns hadm hv (congrArg Core.toSendSpace hc)
  obtain ⟨h1, h2, h3, h4⟩ := hsr.taken hs hk hcar (hfresh hsyn hrst).1 hw hadm hrecv
    (congrArg (fun c => c.sackEnabled) hc) hstate hns
  have hle : r.una ≤ (r.follow t).una := by rw [ha.una]; exact Nat.le_max_left _ _
  have hg : r.Grows (r.follow t) :=
    ⟨ha.iss, List.prefix_rfl, fun f hf => ⟨ha.fin.trans hf, rfl⟩, hle, fun _ => ha.nxt.ge, h2, h3.ge,
      h4⟩
  refine ⟨⟨by rw [ha.una]; exact ha.sending, ?_⟩, hg, h1, hrs.grows hg ?_, ha.fin⟩
  · rw [ha.una]
    change Phase t.state _ t.finSeq
    rw [hstate, ha.fin]
    exact ha.phase.closing _ _
  · have hu := ha.una
    have h5 := ha.le_rcv
    have h6 := ha.le_adv
    rcases Nat.le_total p.ackPos r.una with hle' | hle'
    · exact .inl (by omega)
    · exact .inr ⟨by omega, by omega⟩

/-- A received packet keeps both directions in step. -/
theorem onSegment_linked (hr : r.Ok) (hs : s.Ok) (hsr : s.Linked k r) (hrs : r.Linked k s)
    (hk : k ≤ 1) (hp : p.dgram.repr.flags.rst = false → s.Carried p) (hfresh : r.Fresh p)
    (hw : s.Within k r p) (ht : t.core = r.tcb.core.onSegment p.dgram.parse) :
    Delivered k s r t := by
  by_cases hst : r.tcb.state = .synSent
  · have hst' : r.tcb.core.state = .synSent := hst
    rw [Core.onSegment, if_pos hst'] at ht
    exact onSegmentSynSent_linked hr hsr hrs hp hst (ht ▸ Core.onSegmentSynSent_takes _ _)
  have hcases := r.tcb.core.onSegment_takes p.dgram.parse hst
  rw [← ht] at hcases
  generalize hc : t.core = c at hcases
  cases hcases with
  | dropped ts hno =>
    exact delivered_quiet hr hsr hrs (congrArg Core.toSendSpace hc) (congrArg Core.toRecvSpace hc)
      (congrArg (fun c => c.sackEnabled) hc) (.inl (congrArg Core.state hc))
  | reset hrst hseq =>
    exact delivered_quiet hr hsr hrs (congrArg Core.toSendSpace hc) (congrArg Core.toRecvSpace hc)
      (congrArg (fun c => c.sackEnabled) hc) (.inr (congrArg Core.state hc))
  | badAck ts hrec hadm hbad =>
    exact delivered_quiet hr hsr hrs (congrArg Core.toSendSpace hc) (congrArg Core.toRecvSpace hc)
      (congrArg (fun c => c.sackEnabled) hc) (.inr (congrArg Core.state hc))
  | synAgain hdup =>
    have hrec : r.tcb.state = .synReceived := r.tcb.core.state_of_dupSyn _ hdup
    exact synAgain_linked hr hsr hrs hrec (congrArg Core.toSendSpace hc)
      (congrArg Core.toRecvSpace hc) (congrArg (fun c => c.sackEnabled) hc) (congrArg Core.state hc)
  | taken hadm hv =>
    exact taken_linked hr hs hsr hrs hk (hp (admits_flags hadm).1) hfresh hw hst hadm hv hc

end Receive

end Host

end Ferrumnet
