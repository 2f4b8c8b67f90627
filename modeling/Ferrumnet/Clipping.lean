import Ferrumnet.Pool
import Ferrumnet.Report

/-
  Out-of-order data inside the advertised window.

  The advertised edge is as far as the pool and the scaled window field reach.
  `reasm_right_edge`, where out-of-order data is cut off, takes off from
  `RCV.NXT` what is already buffered, and at most 65535 octets.

  `kept_iff` — a segment in the window is buffered whole exactly if what lies at
  or past that edge was already held.
-/

namespace Ferrumnet

namespace Host

variable {κ : Type} [CongestionControl κ] {r : Host κ}

/-- The segment lies above `RCV.NXT`, with all its octets in the advertised window. -/
structure Above (r : Host κ) (tcp : TcpPacket) : Prop where
  nonempty : 0 < tcp.payload.len
  level : r.tcb.rcvNxt.le r.tcb.rcvAdv = true
  gap : 0 < tcp.seq.offsetFrom r.tcb.rcvNxt
  inside : tcp.seq.offsetFrom r.tcb.rcvNxt + tcp.payload.len ≤ r.tcb.rcvAdv.offsetFrom r.tcb.rcvNxt

instance (tcp : TcpPacket) : Decidable (r.Above tcp) :=
  decidable_of_iff (_ ∧ _ ∧ _ ∧ _) ⟨fun h => ⟨h.1, h.2.1, h.2.2.1, h.2.2.2⟩,
    fun h => ⟨h.nonempty, h.level, h.gap, h.inside⟩⟩

/-- What a segment that is taken does to the receive space. -/
theorem takes_text (hok : r.Ok) (hst : r.tcb.state ≠ .synSent) {seg : Segment} {now : Instant}
    {ce : Bool} (ht : r.Takes (.segment seg now ce)) :
    (r.input (.segment seg now ce)).1.tcb.toRecvSpace =
      r.tcb.toRecvSpace.text r.tcb.sackEnabled seg.tcp := by
  have hrec := (input_passes hok hst (.segment seg now ce)).receives
  generalize (r.input (.segment seg now ce)).1.tcb.toRecvSpace = v at hrec ⊢
  cases hrec with
  | kept _ hno => exact absurd ht hno
  | taken _ _ _ _ _ => rfl

omit [CongestionControl κ] in
/-- A segment above `RCV.NXT` goes to the reassembly buffer. -/
theorem Above.reasm {seg : TcpPacket} (ha : r.Above seg) (hr : r.Ring) :
    ∃ p, seg.seq = r.tcb.irs + p ∧ r.rcv < p ∧ p + seg.payload.len ≤ r.adv ∧
      (r.tcb.toRecvSpace.text true seg).reasm =
        r.tcb.reasm.insert r.tcb.rcvNxt r.tcb.toRecvSpace.reasmRightEdge (r.tcb.irs + p)
          seg.payload := by
  have hpool := hr.pool
  have hlevel := ha.level
  have hgap := ha.gap
  have hinside := ha.inside
  have hne := ha.nonempty
  rw [hr.nxt, hr.edge, SeqNumber.pos_le _ (by have := hr.ahead; omega) (by omega),
    decide_eq_true_eq] at hlevel
  rw [show r.tcb.rcvAdv.offsetFrom r.tcb.rcvNxt = r.adv - r.rcv by
    rw [hr.nxt, hr.edge, SeqNumber.offsetFrom_pos_le _ hlevel (by omega)]] at hinside
  have hseq : seg.seq = r.tcb.irs + (r.rcv + seg.seq.offsetFrom r.tcb.rcvNxt) := by
    rw [← SeqNumber.add_add, ← hr.nxt]
    exact (SeqNumber.add_offsetFrom _ _).symm
  have hback : seg.seq.lt r.tcb.rcvNxt = false := by
    rw [Bool.eq_false_iff, Ne, SeqNumber.lt_iff]
    omega
  have hnot : seg.seq ≠ r.tcb.rcvNxt := fun he => by
    rw [he, SeqNumber.offsetFrom_self] at hgap
    omega
  have hemp : seg.payload.isEmpty = false := Bytes.isEmpty_eq_false.mpr hne
  refine ⟨_, hseq, by omega, by omega, ?_⟩
  obtain ⟨f, hf, -⟩ := (r.tcb.toRecvSpace.acceptData true seg).finish_shift seg
  have htext : (r.tcb.toRecvSpace.text true seg).reasm =
      (r.tcb.toRecvSpace.acceptData true seg).reasm := hf.reasm
  rw [htext, ← hseq]
  simp [RecvSpace.acceptData, RecvSpace.leftTrim, RecvSpace.ingest, hemp, hback, hnot]

/-- In a state reached with every payload in the window: a segment above
`RCV.NXT` with all its octets in the advertised window is held whole exactly if
its octets from `reasm_right_edge` on were held before. -/
theorem kept_iff {r₀ : Host κ} {is : List Input} (h0 : r₀.Opens) (hc : Run.Along step InWindow r₀ is)
    (hrun : Run.run step r₀ is = some r) (hsack : r.tcb.sackEnabled = true) {seg : Segment}
    {now : Instant} {ce : Bool} (ht : r.Takes (.segment seg now ce)) (ha : r.Above seg.tcp) :
    (∀ j < seg.tcp.payload.len,
        (r.input (.segment seg now ce)).1.tcb.reasm.holds (seg.tcp.seq + j) = true) ↔
      ∀ j < seg.tcp.payload.len, r.tcb.toRecvSpace.reasmRightEdge.le (seg.tcp.seq + j) = true →
        r.tcb.reasm.holds (seg.tcp.seq + j) = true := by
  have h := accounted_run h0.accounted hc hrun
  obtain ⟨ps, hps⟩ := h.pool
  have hr : r.Ring := by
    refine h.sound.ring.resolve_left fun hu => ?_
    have := hu.takes_empty ht
    have := ha.nonempty
    omega
  obtain ⟨p, hseq, hp, hend, hreasm⟩ := ha.reasm hr
  have hnext : (r.input (.segment seg now ce)).1.tcb.reasm = r.tcb.reasm.insert r.tcb.rcvNxt
      r.tcb.toRecvSpace.reasmRightEdge (r.tcb.irs + p) seg.tcp.payload := by
    rw [← hreasm, ← hsack]
    exact congrArg RecvSpace.reasm (takes_text h.sound.ok hr.state ht)
  have hslot := r.tcb.toRecvSpace.slot_le
  have hpool := hr.pool
  have hps' : RecvSpace.Pooled true r.tcb.toRecvSpace r.rcv r.adv
      (r.rcv + r.tcb.toRecvSpace.slot) ps := by
    rw [← hsack]
    exact hps
  obtain ⟨ps', h1, h2, h3, h4⟩ := RecvSpace.insert_pooled hps' (by omega) hp (by omega) (by omega)
    seg.fits
  -- before and after, `holds` is membership in a span
  have hbefore : ∀ j < seg.tcp.payload.len, r.tcb.reasm.holds (seg.tcp.seq + j) = true ↔
      ∃ s ∈ ps, s.covers (p + j) := by
    intro j hj
    rw [hseq, SeqNumber.add_add]
    exact hps'.holds.holds_iff (by omega) (by omega) (by omega)
  have hafter : ∀ j < seg.tcp.payload.len,
      (r.input (.segment seg now ce)).1.tcb.reasm.holds (seg.tcp.seq + j) = true ↔
        ∃ s ∈ ps', s.covers (p + j) := by
    intro j hj
    rw [hnext, hseq, SeqNumber.add_add]
    exact h1.holds.holds_iff (by omega) (by omega) (by omega)
  have hedge : ∀ j < seg.tcp.payload.len,
      r.tcb.toRecvSpace.reasmRightEdge.le (seg.tcp.seq + j) = true ↔
        r.tcb.toRecvSpace.edgePos r.rcv r.adv ≤ p + j := by
    intro j hj
    have h5 : r.tcb.toRecvSpace.edgePos r.rcv r.adv ≤ r.adv := Nat.min_le_right _ _
    have h6 : r.rcv ≤ r.tcb.toRecvSpace.edgePos r.rcv r.adv :=
      Nat.le_min.mpr ⟨Nat.le_add_right _ _, by omega⟩
    rw [hps'.rightEdge (by omega), hseq, SeqNumber.add_add,
      SeqNumber.pos_le _ (by omega) (by omega), decide_eq_true_eq]
  constructor
  · intro hall j hj hle
    obtain ⟨s', hs', hcov⟩ := (hafter j hj).mp (hall j hj)
    rcases h4 s' hs' _ hcov with hold | hlt
    · exact (hbefore j hj).mpr hold
    · have := (hedge j hj).mp hle
      omega
  · intro hall j hj
    refine (hafter j hj).mpr ?_
    by_cases hle : r.tcb.toRecvSpace.edgePos r.rcv r.adv ≤ p + j
    · -- past the edge: held before, and kept
      obtain ⟨s, hs, hcov⟩ := (hbefore j hj).mp (hall j hj ((hedge j hj).mpr hle))
      obtain ⟨v, hv⟩ := Reasm.exists_byte hcov
      obtain ⟨s', hs', hv'⟩ := h2.kept s hs _ v (by omega) hv
      exact ⟨s', hs', Reasm.byte_lt_stop hv'⟩
    · exact h3 _ (by omega) (by omega) (by omega)

/-- Ten octets arrive in order and are acknowledged: the window is open wide. -/
def openWide : List Input :=
  settled ++ [.segment ⟨peerSegment 5001 {} (Bytes.replicate 10 1), by decide⟩ ⟨0⟩ false,
    .timer ⟨50000⟩, .poll ⟨50000⟩]

/-- Ten octets of the peer above a gap. -/
def tenAt (seq : Nat) : Segment := ⟨peerSegment seq {} (Bytes.replicate 10 1), by simp [peerSegment]⟩

theorem kept_iff_openWide :
    ∃ r : Host Reno, Run.run step accepted openWide = some r ∧
      ∀ j < 10, (r.input (.segment (tenAt 5021) ⟨50000⟩ false)).1.tcb.reasm.holds
        (SeqNumber.new 5021 + j) = true := by
  have hsteps : Run.Along step InWindow accepted openWide := by decide +kernel
  obtain ⟨r, hrun, hsack, ht, ha, hle⟩ := Run.exists_run step accepted openWide
    (fun r => r.tcb.sackEnabled = true ∧ r.Takes (.segment (tenAt 5021) ⟨50000⟩ false) ∧
      r.Above (tenAt 5021).tcp ∧ ∀ j < 10,
        r.tcb.toRecvSpace.reasmRightEdge.le (SeqNumber.new 5021 + j) = false) (by decide +kernel)
  refine ⟨r, hrun, (kept_iff accepted_opens hsteps hrun hsack ht ha).mpr fun j hj hc => ?_⟩
  rw [show (tenAt 5021).tcp.seq = SeqNumber.new 5021 from rfl, hle j hj] at hc
  cases hc

/-- A window of 262134 octets is advertised; ten octets 70000 above `RCV.NXT` lie
in it, and nothing of them is held. -/
theorem cut_off :
    ∃ r : Host Reno, Run.run step accepted openWide = some r ∧
      Run.Along step InWindow accepted openWide ∧ r.tcb.sackEnabled = true ∧
      r.Takes (.segment (tenAt 75011) ⟨50000⟩ false) ∧ r.Above (tenAt 75011).tcp ∧
      ∀ j < 10, (r.input (.segment (tenAt 75011) ⟨50000⟩ false)).1.tcb.reasm.holds
        (SeqNumber.new 75011 + j) = false := by
  have hsteps : Run.Along step InWindow accepted openWide := by decide +kernel
  obtain ⟨r, hrun, h⟩ := Run.exists_run step accepted openWide
    (fun r => r.tcb.sackEnabled = true ∧ r.Takes (.segment (tenAt 75011) ⟨50000⟩ false) ∧
      r.Above (tenAt 75011).tcp ∧
      ∀ j < 10, (r.input (.segment (tenAt 75011) ⟨50000⟩ false)).1.tcb.reasm.holds
        (SeqNumber.new 75011 + j) = false) (by decide +kernel)
  exact ⟨r, hrun, hsteps, h⟩

end Host

end Ferrumnet
