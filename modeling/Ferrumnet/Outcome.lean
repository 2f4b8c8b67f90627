import Ferrumnet.Receipt
import Ferrumnet.Feed

/-
  A segment that a synchronized connection rejects.

  `rejected_intact` — it leaves everything as it was, but for the ACK it may be
  answered with and TS.Recent. Of the outcomes of `on_segment`, only the first is
  left for such a segment.
-/

namespace Ferrumnet

namespace Tcb

variable {κ : Type} [CongestionControl κ]

/-- The reasons for which `on_segment` gives up on a segment, and that it is not the
RST which closes the connection. -/
def Rejects (t : Tcb κ) (p : TcpPacket) : Prop :=
  ¬ (p.flags.rst = true ∧ t.toRecvSpace.seqInWindow p.seq = true ∧ p.seq = t.rcvNxt) ∧
    (p.flags.rst = true ∨ p.flags.syn = true ∨ t.pawsStale p = true ∨
      t.toRecvSpace.segmentAcceptable p.seq p.segLen = false ∨ p.flags.ack = false ∨
      p.ack.gt t.sndNxt = true)

variable {t : Tcb κ} {p : TcpPacket}

omit [CongestionControl κ] in
/-- No segment is both rejected and taken in. -/
theorem Rejects.not_taken (h : t.Rejects p) (hst : t.state ≠ .synReceived)
    (hadm : t.core.admits p = true) (hvalid : t.core.validAck p = true) : False := by
  have hpaws : t.core.pawsStale p = t.pawsStale p := rfl
  simp only [Core.admits, Bool.and_eq_true, Bool.not_eq_true', hpaws, core_recv] at hadm
  obtain ⟨⟨⟨⟨⟨⟨-, hrst⟩, -⟩, hsyn⟩, hstale⟩, hacc⟩, hack⟩ := hadm
  have hgt : p.ack.gt t.sndNxt = false := t.core.not_gt_of_validAck p hst hvalid
  obtain ⟨-, h | h | h | h | h | h⟩ := h
  · exact absurd (h.symm.trans hrst) (by simp)
  · exact absurd (h.symm.trans hsyn) (by simp)
  · exact absurd (h.symm.trans hstale) (by simp)
  · exact absurd (h.symm.trans hacc) (by simp)
  · exact absurd (h.symm.trans hack) (by simp)
  · exact absurd (h.symm.trans hgt) (by simp)

/-- A rejected segment leaves a synchronized connection as it was, but for the ACK
it is owed, the count of challenge ACKs and, if it lay in the window, TS.Recent. -/
theorem rejected_intact (hst : t.state.synchronized = true) (h : t.Rejects p) (now : Instant)
    (ce : Bool) : ∃ (needsAck : Bool) (start : Instant) (count : Nat) (ts : BitVec 32),
      t.onSegment now p ce = t.spare needsAck start count ts ∧
        (ts ≠ t.tsRecent → t.toRecvSpace.segmentAcceptable p.seq p.segLen = true) := by
  have hne : ∀ {st : State}, st.synchronized = false → t.state ≠ st := by
    intro st hs he
    rw [he, hs] at hst
    cases hst
  have hreceipt := t.onSegment_receipt now p ce (hne rfl)
  generalize t.onSegment now p ce = u at hreceipt
  cases hreceipt with
  | spared needsAck start count ts hno hkeep hts => exact ⟨needsAck, start, count, ts, rfl, hts⟩
  | reset hrst hwin hat => exact absurd ⟨hrst, hwin, hat⟩ h.1
  | lingers htw => exact absurd htw (hne rfl)
  | synAgain hdup => exact absurd (t.core.state_of_dupSyn p hdup) (hne rfl)
  | badAck hrec _ _ => exact absurd hrec (hne rfl)
  | opens hrec _ _ => exact absurd hrec (hne rfl)
  | taken hrec hadm hvalid => exact (h.not_taken hrec hadm hvalid).elim

end Tcb

namespace Host

/-- A SYN inside the window of an established connection. -/
theorem rejected_intact_syn : ∃ r : Host Reno, Run.run step accepted settled = some r ∧
    r.tcb.state = .established ∧ ∃ (needsAck : Bool) (start : Instant) (count : Nat) (ts : BitVec 32),
      r.tcb.onSegment ⟨0⟩ (peerSegment 5002 { syn := true } Bytes.empty) false =
        r.tcb.spare needsAck start count ts ∧
        (ts ≠ r.tcb.tsRecent → r.tcb.toRecvSpace.segmentAcceptable
          (peerSegment 5002 { syn := true } Bytes.empty).seq
          (peerSegment 5002 { syn := true } Bytes.empty).segLen = true) := by
  obtain ⟨r, hr, hst⟩ := Run.exists_run step accepted settled
    (fun r => r.tcb.state = .established) (by decide +kernel)
  exact ⟨r, hr, hst, Tcb.rejected_intact (by rw [hst]; rfl)
    ⟨fun h => absurd h.1 (by decide), .inr (.inl rfl)⟩ ⟨0⟩ false⟩

end Host

end Ferrumnet
