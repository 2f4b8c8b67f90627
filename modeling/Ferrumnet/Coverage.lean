import Ferrumnet.Joint

/-
  Is everything sent covered by `SND.NXT`?

  A zero-window probe puts a byte on the wire without moving `SND.NXT`. If the
  window has reopened, or only its scaled field was zero, the peer accepts that
  byte, its `RCV.NXT` passes the sender's `SND.NXT`, and every ACK it sends from
  then on is rejected as acknowledging unsent data, together with its window.

  1. `probe_taken` — a run in which that happens.
  2. `everything_covered` — in every run in which no octet past the sender's
     `SND.NXT` is accepted, `RCV.NXT` never passes it, no admitted ACK is
     rejected, and the window it carries is applied.
-/

namespace Ferrumnet

/-- Past the handshake, TIME-WAIT included. -/
def State.pastHandshake (st : State) : Bool := st.synchronized || st = .timeWait

namespace Core

variable {c : Core} {tcp : TcpPacket}

/-- An admitted segment with a valid ACK is taken in whole. -/
theorem onSegment_taken (h : c.state ≠ .synSent) (ha : c.admits tcp = true)
    (hv : c.validAck tcp = true) :
    c.onSegment tcp = ((c.advanceTsRecent tcp).acked tcp).onText tcp := by
  obtain ⟨hrst, hsyn, -⟩ := Host.admits_flags ha
  have ht := c.onSegment_takes tcp h
  generalize c.onSegment tcp = c' at ht
  cases ht with
  | dropped ts hn => rw [ha, hv] at hn; cases hn
  | reset hr => rw [hrst] at hr; cases hr
  | synAgain hd => simp [dupSyn, hsyn] at hd
  | badAck ts hs _ hn => rw [hv] at hn; cases hn
  | taken => rfl

end Core

namespace Host

variable {κ : Type} [CongestionControl κ] {s r : Host κ} {p : Packet}

/-- The ACK of an admitted segment is not rejected as acknowledging unsent data,
and its window goes through the window update. -/
def TakesAck (r : Host κ) (p : Packet) (now : Instant) (ce : Bool) : Prop :=
  r.tcb.state.pastHandshake = true → r.tcb.core.admits p.dgram.parse = true →
    p.dgram.repr.ack.gt r.tcb.sndNxt = false ∧
      (r.tcb.onSegment now p.dgram.parse ce).toSendWindow =
        r.tcb.toSendWindow.update r.tcb.sndWscale p.dgram.repr.seq p.dgram.repr.ack
          p.dgram.repr.window

instance (now : Instant) (ce : Bool) : Decidable (r.TakesAck p now ce) :=
  inferInstanceAs (Decidable (_ → _ → _ ∧ _))

omit [CongestionControl κ] in
theorem pastHandshake_ne {st : State} (h : st.pastHandshake = true) :
    st ≠ .synSent ∧ st ≠ .synReceived ∧ st ≠ .closed := by
  refine ⟨?_, ?_, ?_⟩ <;> rintro rfl <;> simp [State.pastHandshake, State.synchronized] at h

omit [CongestionControl κ] in
theorem Ok.una_pos (h : r.Ok) (hs : r.tcb.state.pastHandshake = true) : 1 ≤ r.una := by
  simp only [State.pastHandshake, Bool.or_eq_true, decide_eq_true_eq] at hs
  rcases hs with hs | hs
  · exact h.phase.synchronized hs
  · have := h.phase
    rwa [hs] at this

omit [CongestionControl κ] in
theorem Ok.reach_zero (h : r.Ok) (hs : r.tcb.state.pastHandshake = true) : r.reach 0 = r.nxt := by
  have := h.una_pos hs
  rw [reach, SendSpace.reach, if_neg (by omega)]
  rfl

/-- With no slack, an ACK on the wire acknowledges only what was sent. -/
theorem takesAck_of_linked (hr : r.Ok) (hrs : r.Linked 0 s)
    (hp : p.dgram.repr.flags.rst = false → s.Carried p) (hf : r.Fresh p) (now : Instant) (ce : Bool) :
    r.TakesAck p now ce := by
  intro hsync hadm
  obtain ⟨hns, hnr, -⟩ := pastHandshake_ne hsync
  obtain ⟨hrst, hsyn, hack⟩ := admits_flags hadm
  have hcar := hp hrst
  obtain ⟨h1, h2, -, h4⟩ := hcar.ack hack
  have hl := hrs.learned (h1.trans h2)
  have hle := hl.received.le
  rw [hr.reach_zero hsync] at hle
  have hnxt := hr.sending.at_nxt
  have hold : r.una + r.tcb.toSendSpace.outstanding ≤ p.ackPos + 2147483648 := (hf hsyn hrst).2
  have hle' : s.rcv ≤ r.una + r.tcb.toSendSpace.outstanding := hle
  have hgt : p.dgram.repr.ack.gt r.tcb.sndNxt = false := by
    rw [h4, hl.irs, hnxt, SeqNumber.pos_gt _ (by omega) (by omega)]
    simp only [decide_eq_false_iff_not]
    omega
  refine ⟨hgt, ?_⟩
  have hst : r.tcb.core.state ≠ .synSent := hns
  have hv : r.tcb.core.validAck p.dgram.parse = true := by
    have hst' : r.tcb.core.state ≠ .synReceived := hnr
    rw [Core.validAck, if_neg hst']
    exact Bool.not_eq_true' _ ▸ hgt
  have hc := Tcb.core_onSegment r.tcb now p.dgram.parse ce
  rw [Core.onSegment_taken hst hadm hv] at hc
  exact congrArg Core.toSendWindow hc

end Host

namespace World

variable {κ : Type} [CongestionControl κ] {w : World κ}

/-- While both sides are past the handshake, `RCV.NXT` of the other side is not past
`SND.NXT` of this side. -/
def Covers (w : World κ) (x : Side) : Prop :=
  ∀ s ∈ w.host x, ∀ r ∈ w.host x.other, s.tcb.state.pastHandshake = true →
    r.tcb.state.pastHandshake = true → r.tcb.rcvNxt.le s.tcb.sndNxt = true

/-- The next packet delivered has its ACK and its window taken. -/
def TakesAck (w : World κ) (x : Side) (i : Nat) (now : Instant) (ce : Bool) : Prop :=
  ∀ r ∈ w.host x, ∀ p ∈ (w.wire x.other)[i]?, r.TakesAck p now ce

instance (x : Side) : Decidable (w.Covers x) :=
  inferInstanceAs (Decidable (∀ s ∈ w.host x, ∀ r ∈ w.host x.other, _ → _ → _))

instance (x : Side) (i : Nat) (now : Instant) (ce : Bool) : Decidable (w.TakesAck x i now ce) :=
  inferInstanceAs (Decidable (∀ r ∈ w.host x, ∀ p ∈ (w.wire x.other)[i]?, r.TakesAck p now ce))

omit [CongestionControl κ] in
theorem Inv.covers (hi : Inv 0 w) (x : Side) : w.Covers x := by
  intro s hs r hr hss hrs
  obtain ⟨hns, -, hnc⟩ := Host.pastHandshake_ne hrs
  have hok := hi.ok _ _ hs
  have hl := (hi.linked x s r hs hr).learned_of_state hns hnc
  have hle := hl.received.le
  rw [hok.reach_zero hss] at hle
  have hle' : r.rcv ≤ s.una + s.tcb.toSendSpace.outstanding := hle
  have ho := hok.sending.outstanding_le
  have ha := hl.acked
  rw [hl.received.nxt, hok.sending.at_nxt, SeqNumber.pos_le _ (by omega) (by omega)]
  simpa using hle'

/-- In a run in which every delivered packet is timely and no octet past the
sender's `SND.NXT` is accepted, everything received is covered, and no admitted
ACK is rejected. -/
theorem everything_covered {acts : List Action}
    (ht : Run.Along apply (Timely 0) (init : World κ) acts)
    (hrun : Run.run apply (init : World κ) acts = some w) :
    (∀ x, w.Covers x) ∧
      ∀ x i now ce, Timely 0 w (.deliver x i now ce) → w.TakesAck x i now ce := by
  have hi := inv_run (Nat.zero_le 1) ht hrun
  refine ⟨hi.covers, ?_⟩
  intro x i now ce hd r hr p hp
  have hmem := List.mem_of_getElem? hp
  rcases ho : w.host x.other with _ | s
  · rw [hi.silent _ ho] at hmem; cases hmem
  · exact Host.takesAck_of_linked (hi.ok _ _ hr) (hi.linked _ _ _ hr ho) (hi.carried _ _ ho p hmem)
      (hd r hr s ho p hp).1 now ce

/-- A handshake, one data segment and its ACK. -/
def oneSegment : List Action :=
  handshake ++ [.send .a (Bytes.ofList [7]), .poll .a ⟨0⟩, .deliver .b 2 ⟨0⟩ false,
    .timer .b ⟨40000⟩, .poll .b ⟨40000⟩]

theorem everything_covered_oneSegment :
    ∃ w : World Reno, Run.run apply init oneSegment = some w ∧ w.Covers .a ∧
      w.TakesAck .a 1 ⟨40000⟩ false := by
  have hsteps : Run.Along apply (Timely 0) (init : World Reno) oneSegment := by decide +kernel
  obtain ⟨w, hrun, hd⟩ := Run.exists_run apply (init : World Reno) oneSegment
    (fun w => Timely 0 w (.deliver .a 1 ⟨40000⟩ false)) (by decide +kernel)
  obtain ⟨h1, h2⟩ := everything_covered hsteps hrun
  exact ⟨w, hrun, h1 .a, h2 .a 1 _ _ hd⟩

/-! ## The probe that is accepted -/

/-- Side `a` fills the window of side `b` but for seven octets, which the scaled
window field cannot tell. Its probe then meets a receiver with room. -/
def probeRun : List Action :=
  handshake ++ [
    .send .a (Bytes.replicate 65495 0), .poll .a ⟨0⟩, .deliver .b 2 ⟨0⟩ false,
    .timer .b ⟨100000⟩, .poll .b ⟨100000⟩, .deliver .a 1 ⟨100000⟩ false,
    .send .a (Bytes.replicate 130990 0), .poll .a ⟨100000⟩, .deliver .b 3 ⟨100000⟩ false,
    .poll .a ⟨100000⟩, .deliver .b 4 ⟨100000⟩ false, .poll .b ⟨100000⟩, .deliver .a 2 ⟨100000⟩ false,
    .send .a (Bytes.replicate 65656 0), .poll .a ⟨200000⟩, .deliver .b 5 ⟨200000⟩ false,
    .poll .a ⟨200000⟩, .deliver .b 6 ⟨200000⟩ false, .poll .b ⟨200000⟩, .deliver .a 3 ⟨200000⟩ false,
    -- the window field is zero: the persist timer runs, and the probe goes out
    .poll .a ⟨200000⟩, .timer .a ⟨1200000⟩, .poll .a ⟨1200000⟩, .deliver .b 7 ⟨1200000⟩ false,
    -- the application reads everything, and the next ACK opens the window again
    .recv .b 262144, .timer .b ⟨1300000⟩, .poll .b ⟨1300000⟩]

/-- After the probe is accepted, `RCV.NXT` is past `SND.NXT`, and the ACK that
opens the window again is rejected. -/
theorem probe_taken :
    ∃ w : World Reno, Run.run apply init probeRun = some w ∧ ¬ w.Covers .a ∧
      ¬ w.TakesAck .a 4 ⟨1300000⟩ false :=
  Run.exists_run apply init probeRun (fun w => ¬ w.Covers .a ∧ ¬ w.TakesAck .a 4 ⟨1300000⟩ false)
    (by decide +kernel)

end World

end Ferrumnet
