import Ferrumnet.Linked

/-
  The invariant of the world.

  1. `Acted` — what a step a host takes on its own (the application, a timer,
     `poll_transmit`) keeps, and that what it emits is a piece of its stream.
  2. `inv_step`, `inv_run` — the joint invariant over any run in which no packet
     comes so late that its sequence numbers have come round.
-/

namespace Ferrumnet

namespace Host

variable {κ : Type}

/-! ## What the host does on its own -/

section Own

variable [CongestionControl κ] {s r : Host κ} {k : Nat} {t : Tcb κ}

/-- What a host that has seen a SYN of its peer knows about its receive window. -/
structure Heard (r : Host κ) : Prop where
  pos : 1 ≤ r.rcv
  nxt : r.tcb.rcvNxt = r.tcb.irs + r.rcv
  edge : r.tcb.rcvAdv = r.tcb.irs + r.adv
  ahead : r.rcv ≤ r.adv + 262146
  behind : r.adv ≤ r.rcv + 262144
  state : r.tcb.state ≠ .synSent

omit [CongestionControl κ] in
theorem Learned.heard (h : s.Learned k r) (hs : s.Ok) (hk : k ≤ 1) : r.Heard := by
  have h1 := h.rcv_near hs hk
  have h2 := h.shown
  exact ⟨h.received.pos, by rw [h.received.nxt, h.irs], by rw [h.edge, h.irs], by omega, h.near, h.state⟩

/-- The advertised edge only moves forward, and not further than the buffer. -/
theorem advertisedWindow_pos {v : RecvSpace} {iss : SeqNumber} {rcv adv : Nat}
    (hn : v.rcvNxt = iss + rcv) (ha : v.rcvAdv = iss + adv) (h1 : rcv ≤ adv + 262146)
    (h2 : adv ≤ rcv + 262144) (w : Nat) :
    ∃ adv', (v.advertisedWindow w).1.rcvAdv = iss + adv' ∧
      (v.advertisedWindow w).2 = adv' - rcv ∧ adv ≤ adv' ∧ rcv ≤ adv' ∧ adv' ≤ rcv + 262144 := by
  simp only [RecvSpace.advertisedWindow, hn, ha, SeqNumber.add_add]
  generalize hf : min (rxBuffer - (v.rx.len + v.reasm.buffered)) (65535 <<< w) = free
  have hfree : free ≤ 262144 := by
    have : rxBuffer = 262144 := rfl
    omega
  rw [SeqNumber.pos_lt _ (by omega) (by omega)]
  split
  · rename_i hlt
    rw [decide_eq_true_eq] at hlt
    exact ⟨adv, rfl, SeqNumber.offsetFrom_pos_le _ (by omega) (by omega), le_rfl, by omega, h2⟩
  · rename_i hlt
    rw [decide_eq_true_eq] at hlt
    exact ⟨rcv + free, rfl, SeqNumber.offsetFrom_pos_le _ (by omega) (by omega), by omega, by omega,
      by omega⟩

/-! ## The send side of a host's own steps -/

omit [CongestionControl κ] in
/-- A step that leaves the send space alone and may close. -/
theorem Ok.quiet (h : r.Ok) (hs : t.toSendSpace = r.tcb.toSendSpace)
    (hst : t.state = r.tcb.state ∨ t.state = .closed) : (r.follow t).Ok := by
  refine h.keep hs ?_
  rcases hst with hst | hst <;> rw [hst]
  · exact h.phase
  · exact trivial

theorem Ok.timer (h : r.Ok) (now : Instant) : (r.follow (r.tcb.onTimer now)).Ok := by
  rcases r.tcb.core_onTimer now with hc | hc
  · exact h.quiet (congrArg Core.toSendSpace hc) (.inl (congrArg Core.state hc))
  · exact h.quiet (congrArg Core.toSendSpace hc) (.inr (congrArg Core.state hc))

omit [CongestionControl κ] in
theorem Ok.close (h : r.Ok) : (r.follow r.tcb.close).Ok := by
  have hu : (r.follow r.tcb.close).una = r.una := follow_una rfl
  have hs := h.sending
  refine ⟨?_, ?_⟩
  · rw [hu]
    exact ⟨hs.at_una, hs.bytes, hs.capacity, hs.opening, hs.opened, hs.finished⟩
  · rw [hu]; exact h.phase

theorem Ok.send (h : r.Ok) (data : Bytes) : Host.Ok { r.follow (r.tcb.send data).1 with
    sent := r.sent ++ data.data.take (r.tcb.send data).2 } := by
  have hcases := r.tcb.core_send' data
  generalize r.tcb.send data = q at hcases ⊢
  obtain ⟨t, n⟩ := q
  dsimp only at hcases ⊢
  rcases hcases with ⟨hst, hn, hc⟩ | ⟨rfl, hc⟩
  · have hstate : t.state = r.tcb.state := congrArg Core.state hc
    have hts : t.toSendSpace = { r.tcb.toSendSpace with tx := (r.tcb.tx.write data).1 } :=
      congrArg Core.toSendSpace hc
    have hu : (r.follow t).una = r.una := follow_una (by rw [hts])
    have hs := h.sending
    obtain ⟨h1, hnone⟩ : 1 ≤ r.una ∧ r.tcb.finSeq = none := by
      have := h.phase
      rcases hst with hst | hst <;> rw [hst] at this <;> exact this
    obtain ⟨hlen, hfa⟩ := hs.opened hnone
    have hout : t.toSendSpace.outstanding = r.tcb.toSendSpace.outstanding := by rw [hts]; rfl
    refine ⟨?_, ?_⟩
    · change Sending (r.sent ++ data.data.take n) (r.follow t).una t.toSendSpace
      rw [hu]
      refine ⟨by rw [hts]; exact hs.at_una, ?_, by rw [hts]; exact hs.capacity, by omega,
        fun _ => ⟨?_, by rw [hts]; exact hfa⟩, fun f hf => ?_⟩
      · rw [hts]
        change (r.tcb.tx.write data).1.buf.data = _
        rw [RingBuffer.write_buf, Bytes.append_data, hs.bytes, ← hn, Bytes.take_data,
          List.drop_append_of_le_length (by omega)]
      · rw [hout, List.length_append]; omega
      · rw [hts] at hf
        exact absurd (hnone.symm.trans hf) (by simp)
    · change Phase t.state (r.follow t).una t.toSendSpace.finSeq
      rw [hu, hstate, hts]; exact h.phase
  · rw [List.take_zero, List.append_nil]
    exact h.quiet (t := t) (congrArg Core.toSendSpace hc) (.inl (congrArg Core.state hc))

omit [CongestionControl κ] in
theorem Ok.recv (h : r.Ok) (n : Nat) : Host.Ok { r.follow (r.tcb.recv n).1 with
    got := r.got ++ (r.tcb.recv n).2.data } := by
  have hu : (r.follow (r.tcb.recv n).1).una = r.una := follow_una rfl
  refine ⟨?_, ?_⟩
  · rw [hu]; exact h.sending
  · rw [hu]; exact h.phase

omit [CongestionControl κ] in
/-- What the SYN of an active open leaves behind. -/
theorem Ok.syn_send (h : r.Ok) (hst : r.tcb.state = .synSent)
    (hc : (r.tcb.sndNxt = r.tcb.iss ∧ t.core = { r.tcb.core with sndNxt := r.tcb.iss + 1 }) ∨
      (r.tcb.sndNxt ≠ r.tcb.iss ∧ t.core = r.tcb.core)) :
    r.una = 0 ∧ (r.follow t).una = 0 ∧ t.iss = r.tcb.iss ∧ r.tcb.finSeq = none ∧ t.finSeq = none ∧
      t.state = .synSent ∧ (r.follow t).Ok := by
  have h0 : r.una = 0 := by
    have := h.phase
    rwa [hst] at this
  have hs0 : Sending r.sent 0 r.tcb.toSendSpace := by
    have := h.sending
    rwa [h0] at this
  have hat := hs0.at_una
  rw [SeqNumber.add_zero] at hat
  have hnone := hs0.fin_none rfl
  have hstate : t.state = .synSent := by
    rw [← hst]
    rcases hc with ⟨-, hc⟩ | ⟨-, hc⟩ <;> exact congrArg Core.state hc
  have hsend : Sending r.sent 0 t.toSendSpace ∧ t.sndUna = r.tcb.sndUna ∧ t.iss = r.tcb.iss ∧
      t.finSeq = none := by
    rcases hc with ⟨hn, hc⟩ | ⟨hn, hc⟩
    · have hts : t.toSendSpace = { r.tcb.toSendSpace with sndNxt := r.tcb.iss + 1 } :=
        congrArg Core.toSendSpace hc
      have hz : r.tcb.toSendSpace.outstanding = 0 := by
        rw [SendSpace.outstanding, hn, hat, SeqNumber.offsetFrom_self]
      have := (hs0.advance hnone (n := 1) (by omega)).1
      rw [hn] at this
      rw [hts]
      exact ⟨this, rfl, rfl, hnone⟩
    · have hts : t.toSendSpace = r.tcb.toSendSpace := congrArg Core.toSendSpace hc
      rw [hts]
      exact ⟨hs0, rfl, rfl, hnone⟩
  obtain ⟨hs1, hu1, hi1, hf1⟩ := hsend
  have hu : (r.follow t).una = 0 := by rw [← h0]; exact follow_una hu1
  refine ⟨h0, hu, hi1, hnone, hf1, hstate, by rw [hu]; exact hs1, ?_⟩
  rw [hu]
  change Phase t.state 0 t.finSeq
  rw [hstate]
  exact rfl

omit [CongestionControl κ] in
/-- A segment of an open connection. -/
theorem Ok.built (h : r.Ok) {seq : SeqNumber} {extra : TcpFlags} {payload : Bytes} {v : SendSpace}
    {st : State} (hs : r.tcb.core.Sends seq extra payload v st) (ht : t.core = r.tcb.core.sent v st) :
    (r.follow t).Ok := by
  obtain ⟨pos, -, -, hspec⟩ := sends_spec (c := r.tcb.core) h.sending h.phase hs
  have hsend : t.toSendSpace = v := congrArg Core.toSendSpace ht
  have hstate : t.state = st := congrArg Core.state ht
  have hu : (r.follow t).una = r.una := follow_una (by rw [hsend]; exact hspec.una_eq)
  refine ⟨?_, ?_⟩
  · rw [hu]
    change Sending r.sent r.una t.toSendSpace
    rw [hsend]; exact hspec.sending
  · rw [hu]
    change Phase t.state r.una t.toSendSpace.finSeq
    rw [hstate, hsend]; exact hspec.phase

/-- What `poll_transmit` may do to a well-formed host. -/
theorem Ok.polls (h : r.Ok) (now : Instant) :
    Tcb.Polls r.tcb now (r.tcb.pollTransmit now).1 (r.tcb.pollTransmit now).2 := by
  refine Tcb.pollTransmit_polls r.tcb now ?_
  have := h.sending.outstanding_le
  change r.tcb.toSendSpace.outstanding < _
  omega

theorem Ok.poll (h : r.Ok) (now : Instant) : (r.follow (r.tcb.pollTransmit now).1).Ok := by
  have hp := h.polls now
  generalize r.tcb.pollTransmit now = q at hp ⊢
  obtain ⟨t, o⟩ := q
  dsimp only at hp ⊢
  cases hp with
  | idle hc => exact h.quiet (congrArg Core.toSendSpace hc) (.inl (congrArg Core.state hc))
  | rst _ _ hc => exact h.quiet (congrArg Core.toSendSpace hc) (.inl (congrArg Core.state hc))
  | syn hst hc => exact (h.syn_send hst hc).2.2.2.2.2.2
  | segment _ _ _ hs hc => exact h.built hs hc

/-! ## What it keeps of the peer, and puts on the wire -/

/-- What a step of the host itself keeps, and what it puts on the wire. -/
structure Acted (r r' : Host κ) (o : Option Packet) : Prop where
  ok : r'.Ok
  grows : r.Grows r'
  una : r'.una = r.una
  rcv : r'.rcv = r.rcv
  carried : ∀ p, o = some p → p.dgram.repr.flags.rst = false → r'.Carried p
  forward : ∀ (s : Host κ) (k : Nat), k ≤ 1 → s.Ok → s.Linked k r → s.Linked k r'
  unlearned : r.Unlearned → r'.Unlearned
  fin : r'.tcb.finSeq = r.tcb.finSeq ∨ ∃ p, o = some p ∧ p.dgram.repr.flags.fin = true

omit [CongestionControl κ] in
theorem Unlearned.keep (h : r.Unlearned) (hr : t.toRecvSpace = r.tcb.toRecvSpace)
    (hst : t.state = r.tcb.state ∨ t.state = .closed) :
    (r.follow t).Unlearned ∧ (r.follow t).rcv = r.rcv ∧ (r.follow t).adv = r.adv := by
  have hpos : (r.follow t).rcv = r.rcv ∧ (r.follow t).adv = r.adv := by
    simp only [follow, hr, h.recv, h.rcv, h.adv]
    split <;> simp [Tcb.freshRecv]
  refine ⟨⟨?_, hr.trans h.recv, hpos.1.trans h.rcv, hpos.2.trans h.adv, h.got⟩, hpos⟩
  rcases hst with hst | hst
  · change t.state = _ ∨ t.state = _
    rw [hst]; exact h.state
  · exact .inr hst

omit [CongestionControl κ] in
/-- A step that leaves both sequence spaces alone and may close. -/
theorem acted_quiet (h : r.Ok) (hh : r.Unlearned ∨ r.Heard) (hs : t.toSendSpace = r.tcb.toSendSpace)
    (hr : t.toRecvSpace = r.tcb.toRecvSpace) (hk : t.sackEnabled = r.tcb.sackEnabled)
    (hst : t.state = r.tcb.state ∨ t.state = .closed) {o : Option Packet}
    (ho : ∀ p, o = some p → p.dgram.repr.flags.rst = true) : Acted r (r.follow t) o := by
  have hpos : (r.follow t).rcv = r.rcv ∧ (r.follow t).adv = r.adv := by
    rcases hh with hh | hh
    · exact (hh.keep hr hst).2
    · simp only [follow, hr, hh.state, if_false, SeqNumber.offsetFrom_self, Nat.add_zero, and_self]
  refine ⟨h.quiet hs hst, .keep hs hpos.1.ge hpos.2.ge fun _ => by rw [hr], follow_una (by rw [hs]),
    hpos.1,
    fun p hp hrst => ?_, fun s k _ _ hl => (hl.keep hr hk hst).1, fun hu => (hu.keep hr hst).1,
    .inl (congrArg SendSpace.finSeq hs)⟩
  rw [ho p hp] at hrst
  cases hrst

theorem acted_timer (h : r.Ok) (hh : r.Unlearned ∨ r.Heard) (now : Instant) :
    Acted r (r.follow (r.tcb.onTimer now)) none := by
  rcases r.tcb.core_onTimer now with hc | hc
  · exact acted_quiet h hh (congrArg Core.toSendSpace hc) (congrArg Core.toRecvSpace hc)
      (congrArg (fun c => c.sackEnabled) hc) (.inl (congrArg Core.state hc)) (by simp)
  · exact acted_quiet h hh (congrArg Core.toSendSpace hc) (congrArg Core.toRecvSpace hc)
      (congrArg (fun c => c.sackEnabled) hc) (.inr (congrArg Core.state hc)) (by simp)

omit [CongestionControl κ] in
/-- `close` only queues the FIN. -/
theorem acted_close (h : r.Ok) (hh : r.Unlearned ∨ r.Heard) : Acted r (r.follow r.tcb.close) none := by
  have hst : (r.tcb.close).state = r.tcb.state ∨ (r.tcb.close).state = .closed := .inl rfl
  have hpos : (r.follow r.tcb.close).rcv = r.rcv ∧ (r.follow r.tcb.close).adv = r.adv := by
    rcases hh with hh | hh
    · exact (hh.keep (t := r.tcb.close) rfl hst).2
    · simp only [follow, Tcb.close, hh.state, if_false, SeqNumber.offsetFrom_self, Nat.add_zero,
        and_self]
  have hu : (r.follow r.tcb.close).una = r.una := follow_una rfl
  refine ⟨h.close, ⟨rfl, List.prefix_rfl, fun f hf => ⟨hf, rfl⟩, hu.ge, fun _ => ?_, hpos.1.ge,
    hpos.2.ge, fun _ => rfl⟩, hu, hpos.1, by simp,
    fun s k _ _ hl => (hl.keep (t := r.tcb.close) rfl rfl hst).1,
    fun hu => (hu.keep (t := r.tcb.close) rfl hst).1, .inl rfl⟩
  rw [hu]; exact le_rfl

/-- The bytes accepted by `send` lengthen the stream. -/
theorem acted_send (h : r.Ok) (hh : r.Unlearned ∨ r.Heard) (data : Bytes) :
    Acted r { r.follow (r.tcb.send data).1 with
      sent := r.sent ++ data.data.take (r.tcb.send data).2 } none := by
  have hok := h.send data
  have hcases := r.tcb.core_send' data
  generalize r.tcb.send data = q at hok hcases ⊢
  obtain ⟨t, n⟩ := q
  dsimp only at hok hcases ⊢
  have hsame : t.toRecvSpace = r.tcb.toRecvSpace → t.sackEnabled = r.tcb.sackEnabled →
      t.state = r.tcb.state →
      (r.follow t).rcv = r.rcv ∧ (r.follow t).adv = r.adv := by
    intro hrecv hsack hstate
    rcases hh with hh | hh
    · exact (hh.keep hrecv (.inl hstate)).2
    · simp only [follow, hrecv, hh.state, if_false, SeqNumber.offsetFrom_self, Nat.add_zero,
        and_self]
  rcases hcases with ⟨hst, hn, hc⟩ | ⟨rfl, hc⟩
  · have hstate : t.state = r.tcb.state := congrArg Core.state hc
    have hrecv : t.toRecvSpace = r.tcb.toRecvSpace := congrArg Core.toRecvSpace hc
    have hsack : t.sackEnabled = r.tcb.sackEnabled := congrArg (fun c => c.sackEnabled) hc
    have hts : t.toSendSpace = { r.tcb.toSendSpace with tx := (r.tcb.tx.write data).1 } :=
      congrArg Core.toSendSpace hc
    have hu : (r.follow t).una = r.una := follow_una (by rw [hts])
    obtain ⟨hrcv, hadv⟩ := hsame hrecv hsack hstate
    have hnone : r.tcb.finSeq = none := by
      have := h.phase
      rcases hst with hst | hst <;> rw [hst] at this <;> exact this.2
    have hout : t.toSendSpace.outstanding = r.tcb.toSendSpace.outstanding := by rw [hts]; rfl
    refine ⟨hok, ⟨?_, List.prefix_append _ _, fun f hf => ?_, hu.ge, fun _ => ?_, hrcv.ge,
      hadv.ge, fun _ => ?_⟩, hu, hrcv, by simp, fun s k _ _ hl => ?_, fun hun => ?_,
      .inl (by change t.toSendSpace.finSeq = _; rw [hts])⟩
    · change t.toSendSpace.iss = _
      rw [hts]
    · rw [hnone] at hf; cases hf
    · change _ ≤ (r.follow t).una + t.toSendSpace.outstanding
      rw [hu, hout]
    · change t.toRecvSpace.irs = _
      rw [hrecv]
    · rcases (hl.keep hrecv hsack (.inl hstate)).1 with ⟨h2, h3⟩ | h2
      · exact .inl ⟨⟨h2.state, h2.recv, h2.rcv, h2.adv, h2.got⟩, h3⟩
      · exact .inr ⟨h2.irs, h2.received, h2.edge, h2.acked, h2.shown, h2.near, h2.state, h2.half⟩
    · have h2 := (hun.keep hrecv (.inl hstate)).1
      exact ⟨h2.state, h2.recv, h2.rcv, h2.adv, h2.got⟩
  · rw [List.take_zero, List.append_nil]
    exact acted_quiet (t := t) h hh (congrArg Core.toSendSpace hc) (congrArg Core.toRecvSpace hc)
      (congrArg (fun c => c.sackEnabled) hc) (.inl (congrArg Core.state hc)) (by simp)

omit [CongestionControl κ] in
/-- The bytes returned by `recv` come off the front of the receive buffer. -/
theorem acted_recv (h : r.Ok) (hh : r.Unlearned ∨ r.Heard) (n : Nat) :
    Acted r { r.follow (r.tcb.recv n).1 with got := r.got ++ (r.tcb.recv n).2.data } none := by
  have hu : (r.follow (r.tcb.recv n).1).una = r.una := follow_una rfl
  have hempty : r.Unlearned → (r.tcb.recv n).1.toRecvSpace = r.tcb.toRecvSpace ∧
      (r.tcb.recv n).2.data = [] := by
    intro hun
    have hrx : r.tcb.rx = RingBuffer.withCapacity rxBuffer := by rw [hun.recv]; rfl
    constructor
    · change { r.tcb.toRecvSpace with rx := (r.tcb.rx.read n).1 } = _
      rw [hrx, hun.recv, RingBuffer.read_fst, RingBuffer.withCapacity_consume]
      rfl
    · change (r.tcb.rx.read n).2.data = []
      rw [hrx]
      simp
  have hpos : (r.follow (r.tcb.recv n).1).rcv = r.rcv ∧ (r.follow (r.tcb.recv n).1).adv = r.adv := by
    rcases hh with hh | hh
    · exact (hh.keep (hempty hh).1 (.inl rfl)).2
    · simp only [follow, Tcb.recv, hh.state, if_false, SeqNumber.offsetFrom_self, Nat.add_zero,
        and_self]
  have hun : r.Unlearned → Host.Unlearned { r.follow (r.tcb.recv n).1 with
      got := r.got ++ (r.tcb.recv n).2.data } := by
    intro hun
    obtain ⟨h1, h2⟩ := hempty hun
    have h3 := (hun.keep h1 (.inl rfl)).1
    refine ⟨h3.state, h3.recv, h3.rcv, h3.adv, ?_⟩
    change r.got ++ (r.tcb.recv n).2.data = []
    rw [h2, hun.got, List.append_nil]
  refine ⟨h.recv n, ⟨rfl, List.prefix_rfl, fun f hf => ⟨hf, rfl⟩, hu.ge, fun _ => ?_, hpos.1.ge,
    hpos.2.ge, fun _ => rfl⟩, hu, hpos.1, by simp, fun s k _ _ hl => ?_, hun, .inl rfl⟩
  · rw [hu]; exact le_rfl
  · rcases hl with ⟨h1, h2⟩ | hl
    · exact .inl ⟨hun h1, h2⟩
    · refine .inr ⟨hl.irs, ?_, ?_, ?_, ?_, ?_, hl.state, fun hc => ?_⟩
      · change Received _ _ _ _ _ (r.follow (r.tcb.recv n).1).rcv _ _
        rw [hpos.1]
        exact hl.received.read n
      · change _ = s.tcb.iss + (r.follow (r.tcb.recv n).1).adv
        rw [hpos.2]; exact hl.edge
      · change _ ≤ (r.follow (r.tcb.recv n).1).rcv
        rw [hpos.1]; exact hl.acked
      · change _ ≤ (r.follow (r.tcb.recv n).1).adv
        rw [hpos.2]; exact hl.shown
      · change (r.follow (r.tcb.recv n).1).adv ≤ (r.follow (r.tcb.recv n).1).rcv + _
        rw [hpos.1, hpos.2]; exact hl.near
      · change (r.follow (r.tcb.recv n).1).rcv = 1
        rw [hpos.1]; exact hl.half hc

omit [CongestionControl κ] in
/-- The SYN of an active open. -/
theorem acted_syn (h : r.Ok) (hh : r.Unlearned ∨ r.Heard) (now : Instant)
    (hst : r.tcb.state = .synSent)
    (hc : (r.tcb.sndNxt = r.tcb.iss ∧ t.core = { r.tcb.core with sndNxt := r.tcb.iss + 1 }) ∨
      (r.tcb.sndNxt ≠ r.tcb.iss ∧ t.core = r.tcb.core)) :
    Acted r (r.follow t)
      (some (r.label { r.tcb with curTsval := BitVec.ofNat 32 now.micros }.buildSyn)) := by
  have hun : r.Unlearned := hh.resolve_right fun hh => hh.state hst
  obtain ⟨h0, hu, hi1, hnone, hf1, hstate, hok⟩ := h.syn_send hst hc
  have hat := h.sending.at_una
  rw [h0, SeqNumber.add_zero] at hat
  have hrecv : t.toRecvSpace = r.tcb.toRecvSpace := by
    rcases hc with ⟨-, hc⟩ | ⟨-, hc⟩ <;> exact congrArg Core.toRecvSpace hc
  have hsack : t.sackEnabled = r.tcb.sackEnabled := by
    rcases hc with ⟨-, hc⟩ | ⟨-, hc⟩ <;> exact congrArg (fun c => c.sackEnabled) hc
  obtain ⟨hun', hrcv, hadv⟩ := hun.keep hrecv (.inl (hstate.trans hst.symm))
  have hg : r.Grows (r.follow t) := by
    refine ⟨hi1, List.prefix_rfl, fun f hf => ?_, by omega, by omega, hrcv.ge, hadv.ge, fun _ => ?_⟩
    · rw [hnone] at hf; cases hf
    · change t.toRecvSpace.irs = _
      rw [hrecv]
  refine ⟨hok, hg, by omega, hrcv, fun p hp hrst => ?_,
    fun s k _ _ hl => (hl.keep hrecv hsack (.inl (hstate.trans hst.symm))).1, fun _ => hun',
    .inl (hf1.trans hnone.symm)⟩
  · cases hp
    have hpos : (r.label { r.tcb with curTsval := BitVec.ofNat 32 now.micros }.buildSyn).seqPos = 0 := by
      change r.una + r.tcb.iss.offsetFrom r.tcb.sndUna = 0
      rw [h0, hat, SeqNumber.offsetFrom_self]
    refine ⟨?_, ⟨fun _ => ⟨hpos, rfl, rfl⟩, ?_⟩, .inl ?_, ?_, ?_⟩
    · rw [hpos, SeqNumber.add_zero]
      exact hi1.symm
    · intro hc; cases hc
    · rw [hpos]
      change 0 + 1 ≤ SendSpace.reach _ 0 _
      rw [hu, SendSpace.reach, if_pos rfl]
    · intro hc; cases hc
    · intro hc; cases hc

/-- A segment of an open connection. -/
theorem acted_segment (h : r.Ok) (hh : r.Unlearned ∨ r.Heard) {t₀ : Tcb κ} {seq : SeqNumber}
    {extra : TcpFlags} {payload : Bytes} {v : SendSpace} {st : State} (h0 : t₀.core = r.tcb.core)
    (hs : r.tcb.core.Sends seq extra payload v st) (ht : t.core = r.tcb.core.sent v st) :
    Acted r (r.follow t) (some (r.label (t₀.build seq extra payload).2)) := by
  obtain ⟨hopen, hns⟩ := sends_open hs
  have hh : r.Heard := hh.resolve_left fun hun => by
    rcases hun.state with hst | hst
    · exact hns hst
    · exact hopen hst
  obtain ⟨pos, hseq, hpos, hspec⟩ := sends_spec (c := r.tcb.core) h.sending h.phase hs
  have hsend : t.toSendSpace = v := congrArg Core.toSendSpace ht
  have hrecv : t.toRecvSpace = (r.tcb.toRecvSpace.advertisedWindow r.tcb.rcvWscale).1 :=
    congrArg Core.toRecvSpace ht
  have hstate : t.state = st := congrArg Core.state ht
  obtain ⟨adv, hadv, -, hle, hrcv, hbound⟩ :=
    advertisedWindow_pos hh.nxt hh.edge hh.ahead hh.behind r.tcb.rcvWscale
  have hua : t.sndUna = r.tcb.sndUna := by rw [hsend]; exact hspec.una_eq
  have hu : (r.follow t).una = r.una := follow_una hua
  have hfr : (r.follow t).rcv = r.rcv := by
    simp only [follow, hh.state, if_false, hrecv]
    exact (congrArg (r.rcv + ·) (SeqNumber.offsetFrom_self _)).trans (Nat.add_zero _)
  have hfa : (r.follow t).adv = adv := by
    have hb := hh.behind
    have ha := hh.ahead
    simp only [follow, hh.state, if_false, hrecv]
    rw [hadv, hh.edge, SeqNumber.offsetFrom_pos_le _ hle (by omega)]
    omega
  have hirs : t.irs = r.tcb.irs := by rw [hrecv]; rfl
  have hg : r.Grows (r.follow t) := by
    refine ⟨?_, List.prefix_rfl, fun f hf => ⟨?_, rfl⟩, hu.ge, fun _ => ?_, hfr.ge, by omega,
      fun _ => hirs⟩
    · change t.toSendSpace.iss = _
      rw [hsend]; exact hspec.iss
    · change t.toSendSpace.finSeq = _
      rw [hsend]; exact hspec.fin_eq f hf
    · rw [hu]
      change _ ≤ _ + t.toSendSpace.outstanding
      rw [hsend]
      exact Nat.add_le_add_left hspec.nxt_le _
  refine ⟨h.built hs ht, hg, hu, hfr, fun p hp _ => ?_, fun s k _ _ hl => ?_, fun hun => ?_, ?_⟩
  · cases hp
    obtain ⟨hb1, hb2, hb3, hb4, hb5, hb6, hb7⟩ := t₀.build_spec seq extra payload
    have hq : (r.label (t₀.build seq extra payload).2).seqPos = pos := by
      change r.una + (t₀.build seq extra payload).2.repr.seq.offsetFrom r.tcb.sndUna = _
      rw [hb1]; exact hpos
    have hlen : (r.label (t₀.build seq extra payload).2).dgram.parse.segLen =
        payload.len + extra.syn.toNat + extra.fin.toNat := by
      simp only [label, TcpPacket.segLen, Datagram.parse, hb3, hb4, hb5]
    have hiss : (r.follow t).tcb.iss = r.tcb.core.iss := hg.iss
    refine ⟨?_, ?_, ?_, fun _ => ⟨hh.pos, hfr.ge, by rw [hfa]; exact hrcv, ?_⟩, fun _ => hb7⟩
    · rw [hq, hiss]
      exact hb1.trans hseq
    · rw [hq]
      change OfStream r.sent (t.toSendSpace.finSeq.isSome = true) pos _ _
      rw [hsend]
      refine ⟨fun hc => ?_, fun hc => ?_⟩
      · have := hspec.stream.syn (hb5.symm.trans hc)
        exact ⟨this.1, by simp only [label, hb3]; exact this.2.1, hb4.trans this.2.2⟩
      · have := hspec.stream.text (hb5.symm.trans hc)
        simp only [label, hb3]
        exact ⟨this.1, this.2.1, fun hf => this.2.2 (hb4.symm.trans hf)⟩
    · rw [hq, hlen]
      rcases hspec.ends with he | ⟨he, hl, hp, -⟩
      · left
        rw [Host.reach, hu]
        change _ ≤ t.toSendSpace.reach 0 r.una
        rw [hsend]; exact he
      · subst he
        exact .inr ⟨hb5, hb4, by simp only [label, hb3]; exact hl, by rw [hu, hp]⟩
    · change (t₀.build seq extra payload).2.repr.ack = t.irs + r.rcv
      rw [hb2, show t₀.rcvNxt = r.tcb.rcvNxt from congrArg (fun c => c.rcvNxt) h0, hh.nxt, hirs]
  · have hl := hl.learned hh.pos
    refine .inr ⟨by rw [← hl.irs]; exact hirs, ?_, ?_, by rw [hfr]; exact hl.acked, ?_, ?_, ?_, ?_⟩
    · rw [hfr]
      change Received t.sackEnabled _ _ _ _ _ r.got t.toRecvSpace
      rw [show t.sackEnabled = r.tcb.sackEnabled from congrArg (fun c => c.sackEnabled) ht, hrecv]
      exact hl.received.advertise _
    · rw [hfa, ← hl.irs]
      change t.toRecvSpace.rcvAdv = _
      rw [hrecv]; exact hadv
    · have := hl.shown
      omega
    · omega
    · change t.state ≠ _
      rw [hstate]; exact hspec.learned
    · intro hc
      have hc : t.state = .synReceived := hc
      rw [hfr]
      exact hl.half (hspec.waiting (hstate ▸ hc))
  · rcases hun.state with hst | hst
    · exact absurd hst hns
    · exact absurd hst hopen
  · rcases sends_fin hs with hf | hf
    · left
      change t.toSendSpace.finSeq = _
      rw [hsend]; exact hf
    · exact .inr ⟨_, rfl, (t₀.build_spec seq extra payload).2.2.2.1.trans hf⟩

theorem acted_poll (h : r.Ok) (hh : r.Unlearned ∨ r.Heard) (now : Instant) :
    Acted r (r.follow (r.tcb.pollTransmit now).1) ((r.tcb.pollTransmit now).2.map r.label) := by
  have hp := h.polls now
  generalize r.tcb.pollTransmit now = q at hp ⊢
  obtain ⟨t, o⟩ := q
  dsimp only at hp ⊢
  cases hp with
  | idle hc =>
    exact acted_quiet h hh (congrArg Core.toSendSpace hc) (congrArg Core.toRecvSpace hc)
      (congrArg (fun c => c.sackEnabled) hc) (.inl (congrArg Core.state hc)) (by simp)
  | rst seq _ hc =>
    refine acted_quiet h hh (congrArg Core.toSendSpace hc) (congrArg Core.toRecvSpace hc)
      (congrArg (fun c => c.sackEnabled) hc) (.inl (congrArg Core.state hc)) fun p hp => ?_
    cases hp
    rfl
  | syn hst hc => exact acted_syn h hh now hst hc
  | segment t₀ h0 _ hs hc => exact acted_segment h hh h0 hs hc

end Own

end Host

/-! ## The world -/

namespace World

variable {κ : Type} [CongestionControl κ] {k : Nat} {w w' : World κ}

structure Inv (k : Nat) (w : World κ) : Prop where
  ok : ∀ x h, w.host x = some h → h.Ok
  silent : ∀ x, w.host x = none → w.wire x = []
  carried : ∀ x h, w.host x = some h → ∀ p ∈ w.wire x, p.dgram.repr.flags.rst = false → h.Carried p
  alone : ∀ x h, w.host x = some h → w.host x.other = none → h.Unlearned ∧ h.una = 0
  linked : ∀ x s r, w.host x = some s → w.host x.other = some r → s.Linked k r
  finOut : ∀ x h, w.host x = some h → h.tcb.finSeq.isSome = true →
    ∃ p ∈ w.wire x, p.dgram.repr.flags.fin = true

/-- The condition on a step: a packet is not delivered so late that its numbers
have come round, and no octet past the slack is admitted. -/
def Timely (k : Nat) (w : World κ) : Action → Prop
  | .deliver x i _ _ => ∀ r ∈ w.host x, ∀ s ∈ w.host x.other, ∀ p ∈ (w.wire x.other)[i]?,
      r.Fresh p ∧ s.Within k r p
  | _ => True

instance : ∀ act, Decidable (Timely k w act)
  | .deliver x i _ _ => inferInstanceAs (Decidable (∀ r ∈ w.host x, ∀ s ∈ w.host x.other,
      ∀ p ∈ (w.wire x.other)[i]?, r.Fresh p ∧ s.Within k r p))
  | .connect .. | .accept .. | .send .. | .recv .. | .close .. | .timer .. | .poll .. =>
    isTrue trivial

omit [CongestionControl κ] in
theorem inv_init : Inv k (init : World κ) := by
  have hnone : ∀ x, (init : World κ).host x = none := fun x => by cases x <;> rfl
  refine ⟨fun x h hx => ?_, fun x _ => by cases x <;> rfl, fun x h hx => ?_, fun x h hx => ?_,
    fun x s r hx => ?_, fun x h hx => ?_⟩ <;> rw [hnone] at hx <;> cases hx

omit [CongestionControl κ] in
/-- What an existing host knows of its receive window. -/
theorem Inv.heard (hi : Inv k w) (hk : k ≤ 1) {x : Side} {r : Host κ} (hx : w.host x = some r) :
    r.Unlearned ∨ r.Heard := by
  rcases ho : w.host x.other with _ | s
  · exact .inl (hi.alone x r hx ho).1
  · have hl := hi.linked x.other s r ho (by rw [Side.other_other]; exact hx)
    rcases hl with ⟨h, -⟩ | h
    · exact .inl h
    · exact .inr (h.heard (hi.ok _ _ ho) hk)

omit [CongestionControl κ] in
/-- A step that a host takes on its own. -/
theorem Inv.act (hi : Inv k w) (hk : k ≤ 1) {x : Side} {r r' : Host κ} {o : Option Packet}
    (hx : w.host x = some r) (ha : Host.Acted r r' o) : Inv k ((w.setHost x r').transmit x o) := by
  have hsplit : ∀ y, y = x ∨ y = x.other := Side.eq_or_other x
  refine ⟨fun y h hy => ?_, fun y hy => ?_, fun y h hy p hp hrst => ?_, fun y h hy ho => ?_,
    fun y s t hs ht => ?_, fun y h hy hf => ?_⟩
  · rcases hsplit y with rfl | rfl <;> simp at hy
    · subst hy; exact ha.ok
    · exact hi.ok _ _ hy
  · rcases hsplit y with rfl | rfl <;> simp at hy ⊢
    exact hi.silent _ hy
  · rcases hsplit y with rfl | rfl <;> simp at hy hp
    · subst hy
      rcases hp with hp | hp
      · exact (hi.carried _ _ hx p hp hrst).grows ha.grows
      · exact ha.carried p hp hrst
    · exact hi.carried _ _ hy p hp hrst
  · rcases hsplit y with rfl | rfl <;> simp at hy ho
    · subst hy
      obtain ⟨h1, h2⟩ := hi.alone _ _ hx ho
      exact ⟨ha.unlearned h1, by rw [ha.una, h2]⟩
  · rcases hsplit y with rfl | rfl <;> simp at hs ht
    · subst hs
      exact (hi.linked _ _ _ hx ht).grows ha.grows (.inl ha.una)
    · subst ht
      exact ha.forward s k hk (hi.ok _ _ hs)
        (hi.linked _ _ _ hs (by rw [Side.other_other]; exact hx))
  · rcases hsplit y with rfl | rfl <;> simp at hy ⊢
    · subst hy
      rcases ha.fin with he | ⟨p, hp, hfp⟩
      · rw [he] at hf
        obtain ⟨p, hp, hfp⟩ := hi.finOut _ _ hx hf
        exact ⟨p, .inl hp, hfp⟩
      · exact ⟨p, .inr hp, hfp⟩
    · exact hi.finOut _ _ hy hf

omit [CongestionControl κ] in
theorem transmit_none (x : Side) : w.transmit x none = w := by
  cases x <;> simp [transmit]

omit [CongestionControl κ] in
/-- A delivered packet. -/
theorem Inv.deliver (hi : Inv k w) {x : Side} {r s : Host κ} {t : Tcb κ} (hx : w.host x = some r)
    (ho : w.host x.other = some s) (hd : Host.Delivered k s r t) :
    Inv k (w.setHost x (r.follow t)) := by
  have hsplit : ∀ y, y = x ∨ y = x.other := Side.eq_or_other x
  refine ⟨fun y h hy => ?_, fun y hy => ?_, fun y h hy p hp hrst => ?_, fun y h hy hn => ?_,
    fun y u v hu hv => ?_, fun y h hy hf => ?_⟩
  · rcases hsplit y with rfl | rfl <;> simp at hy
    · subst hy; exact hd.ok
    · exact hi.ok _ _ hy
  · rcases hsplit y with rfl | rfl <;> simp at hy ⊢
    exact hi.silent _ hy
  · rcases hsplit y with rfl | rfl <;> simp at hy hp
    · subst hy
      exact (hi.carried _ _ hx p hp hrst).grows hd.grows
    · exact hi.carried _ _ hy p hp hrst
  · rcases hsplit y with rfl | rfl <;> simp at hy hn
    rw [ho] at hn; cases hn
  · rcases hsplit y with rfl | rfl <;> simp at hu hv
    · subst hu
      rw [ho] at hv; cases hv
      exact hd.back
    · subst hv
      rw [ho] at hu; cases hu
      exact hd.forward
  · rcases hsplit y with rfl | rfl <;> simp at hy ⊢
    · subst hy
      have hf' : t.finSeq.isSome = true := hf
      rw [hd.fin] at hf'
      exact hi.finOut _ _ hx hf'
    · exact hi.finOut _ _ hy hf

omit [CongestionControl κ] in
/-- A host that opens. -/
theorem Inv.opened (hi : Inv k w) {x : Side} {r : Host κ} (hx : w.host x = none) (hr : r.Ok)
    (hu : r.una = 0) (hf : r.tcb.finSeq = none)
    (hl : ∀ s, w.host x.other = some s → s.una = 0 → s.Linked k r)
    (ha : w.host x.other = none → r.Unlearned) : Inv k (w.setHost x r) := by
  have hsplit : ∀ y, y = x ∨ y = x.other := Side.eq_or_other x
  have hpeer : ∀ s, w.host x.other = some s → s.Unlearned ∧ s.una = 0 := fun s hs =>
    hi.alone _ _ hs (by rw [Side.other_other]; exact hx)
  refine ⟨fun y h hy => ?_, fun y hy => ?_, fun y h hy p hp hrst => ?_, fun y h hy hn => ?_,
    fun y u v hs hv => ?_, fun y h hy hfin => ?_⟩
  · rcases hsplit y with rfl | rfl <;> simp at hy
    · subst hy; exact hr
    · exact hi.ok _ _ hy
  · rcases hsplit y with rfl | rfl <;> simp at hy ⊢
    exact hi.silent _ hy
  · rcases hsplit y with rfl | rfl <;> simp at hy hp
    · rw [hi.silent _ hx] at hp; cases hp
    · exact hi.carried _ _ hy p hp hrst
  · rcases hsplit y with rfl | rfl <;> simp at hy hn
    subst hy
    exact ⟨ha hn, hu⟩
  · rcases hsplit y with rfl | rfl <;> simp at hs hv
    · subst hs
      exact .inl ⟨(hpeer v hv).1, hu⟩
    · subst hv
      exact hl u hs (hpeer u hs).2
  · rcases hsplit y with rfl | rfl <;> simp at hy ⊢
    · subst hy
      rw [hf] at hfin; cases hfin
    · exact hi.finOut _ _ hy hfin

theorem core_setCongestionControl (t : Tcb κ) (kind : CcKind) :
    (t.setCongestionControl kind).core = t.core := by
  unfold Tcb.setCongestionControl; split <;> rfl

omit [CongestionControl κ] in
/-- A Tcb just opened is in step with the empty stream. -/
theorem fresh_ok {t : Tcb κ} {iss : SeqNumber} (hs : t.toSendSpace = Tcb.freshSend iss)
    (hst : t.state = .synSent ∨ t.state = .synReceived) :
    (Host.fresh t).Ok ∧ (Host.fresh t).una = 0 ∧ (Host.fresh t).tcb.finSeq = none := by
  have hsend : Sending [] 0 t.toSendSpace := by
    rw [hs]
    refine ⟨by simp [Tcb.freshSend], rfl, rfl, by simp, fun _ => ⟨?_, rfl⟩, by simp [Tcb.freshSend]⟩
    change 0 + (Tcb.freshSend iss).sndNxt.offsetFrom (Tcb.freshSend iss).sndUna ≤ _
    simp [Tcb.freshSend]
  have hfin : (Host.fresh t).tcb.finSeq = none := by
    change t.toSendSpace.finSeq = none
    rw [hs]; rfl
  refine ⟨⟨hsend, ?_⟩, rfl, hfin⟩
  change Phase t.state 0 _
  rcases hst with hst | hst <;> rw [hst] <;> exact rfl

/-- What one step of the world keeps. -/
theorem inv_step (hk : k ≤ 1) {act : Action} (hi : Inv k w) (ht : Timely k w act)
    (h : w.apply act = some w') : Inv k w' := by
  cases act with
  | connect x loc remote iss now mss kind =>
    simp only [apply] at h
    split at h
    · cases h
    rename_i hx
    cases h
    generalize htcb : (Tcb.newSynSent loc remote iss now mss : Tcb κ).setCongestionControl kind = t
    have hc : t.core = (Tcb.newSynSent loc remote iss now mss : Tcb κ).core := by
      rw [← htcb]; exact core_setCongestionControl _ _
    have hstate : t.state = .synSent := congrArg Core.state hc
    have hrecv : t.toRecvSpace = Tcb.freshRecv (SeqNumber.new 0) (SeqNumber.new 0) (SeqNumber.new 0) :=
      congrArg Core.toRecvSpace hc
    obtain ⟨h1, h2, h3⟩ := fresh_ok (t := t) (congrArg Core.toSendSpace hc) (.inl hstate)
    have hun : (Host.fresh t).Unlearned := by
      refine ⟨.inl hstate, hrecv, ?_, ?_, rfl⟩
      · simp [Host.fresh, hrecv, Tcb.freshRecv]
      · simp [Host.fresh, hrecv, Tcb.freshRecv]
    exact hi.opened hx h1 h2 h3 (fun s _ h0 => .inl ⟨hun, h0⟩) fun _ => hun
  | accept x i offered iss now mss kind =>
    simp only [apply] at h
    split at h
    · rename_i p hx hp
      split at h
      · rename_i hopens
        cases h
        generalize htcb : (Tcb.newSynReceived p.dgram.dst p.dgram.src
          (offered.restrict p.dgram.parse) iss now mss : Tcb κ).setCongestionControl kind = t
        have hc : t.core = (Tcb.newSynReceived p.dgram.dst p.dgram.src
            (offered.restrict p.dgram.parse) iss now mss : Tcb κ).core := by
          rw [← htcb]; exact core_setCongestionControl _ _
        have hstate : t.state = .synReceived := congrArg Core.state hc
        obtain ⟨h1, h2, h3⟩ := fresh_ok (t := t) (congrArg Core.toSendSpace hc) (.inr hstate)
        simp only [opens, Bool.and_eq_true, Bool.not_eq_true'] at hopens
        have hmem := List.mem_of_getElem? hp
        refine hi.opened hx h1 h2 h3 (fun s hs h0 => .inr ?_) fun hn => ?_
        · have hcar := hi.carried _ _ hs p hmem hopens.2
          have hpos := (hcar.stream.syn hopens.1.1).1
          have hseq : p.dgram.repr.seq = s.tcb.iss := by
            have := hcar.seq
            rwa [hpos, SeqNumber.add_zero] at this
          have hrecv : t.toRecvSpace =
              Tcb.freshRecv s.tcb.iss (s.tcb.iss + 1) (s.tcb.iss + 1 + synWindow) := by
            rw [← hseq]; exact congrArg Core.toRecvSpace hc
          refine Host.learned_start h0 hrecv ?_ ?_ rfl (by simp [Host.fresh, hstate])
          · simp only [Host.fresh, hrecv]
            exact SeqNumber.offsetFrom_add _ 1
          · simp only [Host.fresh, hrecv, Tcb.freshRecv, SeqNumber.add_add]
            exact SeqNumber.offsetFrom_add _ 65536
        · rw [hi.silent _ hn] at hmem; cases hmem
      · cases h
    · cases h
  | send x data =>
    simp only [apply] at h
    split at h
    · rename_i r hx
      cases h
      have := hi.act hk hx (Host.acted_send (hi.ok _ _ hx) (hi.heard hk hx) data)
      rwa [transmit_none] at this
    · cases h
  | recv x n =>
    simp only [apply] at h
    split at h
    · rename_i r hx
      cases h
      have := hi.act hk hx (Host.acted_recv (hi.ok _ _ hx) (hi.heard hk hx) n)
      rwa [transmit_none] at this
    · cases h
  | close x =>
    simp only [apply] at h
    split at h
    · rename_i r hx
      cases h
      have := hi.act hk hx (Host.acted_close (hi.ok _ _ hx) (hi.heard hk hx))
      rwa [transmit_none] at this
    · cases h
  | timer x now =>
    simp only [apply] at h
    split at h
    · rename_i r hx
      cases h
      have := hi.act hk hx (Host.acted_timer (hi.ok _ _ hx) (hi.heard hk hx) now)
      rwa [transmit_none] at this
    · cases h
  | poll x now =>
    simp only [apply] at h
    split at h
    · rename_i r hx
      cases h
      exact hi.act hk hx (Host.acted_poll (hi.ok _ _ hx) (hi.heard hk hx) now)
    · cases h
  | deliver x i now ce =>
    simp only [apply] at h
    split at h
    · rename_i r p hx hp
      cases h
      have hmem := List.mem_of_getElem? hp
      rcases ho : w.host x.other with _ | s
      · rw [hi.silent _ ho] at hmem; cases hmem
      · obtain ⟨hf, hw⟩ := ht r hx s ho p hp
        refine hi.deliver hx ho (Host.onSegment_linked (hi.ok _ _ hx) (hi.ok _ _ ho) ?_ ?_ hk
          (hi.carried _ _ ho p hmem) hf hw (Tcb.core_onSegment _ _ _ _))
        · exact hi.linked _ _ _ ho (by rw [Side.other_other]; exact hx)
        · exact hi.linked _ _ _ hx ho
    · cases h

/-- What every run of timely steps keeps. -/
theorem inv_run (hk : k ≤ 1) {acts : List Action}
    (ht : Run.Along apply (Timely k) (init : World κ) acts) (h : Run.run apply init acts = some w) :
    Inv k w :=
  Run.run_invariant_along (fun _ _ _ hi hc hs => inv_step hk hi hc hs) inv_init ht h

end World

end Ferrumnet
