import Ferrumnet.Refine

/-
  What a received segment does to a Tcb, outcome by outcome.

  `on_segment` is one long function with six places where it gives up on a
  segment. `Greeting` lists its outcomes in SYN-SENT and `Receipt` those past it,
  each with the whole state it leaves behind, so that what a segment keeps or
  changes can be proved one outcome at a time.

  1. `onSegmentSynSent_greeting` — there is no other outcome in SYN-SENT.
  2. `onSegment_receipt` — nor is there past it.
-/

namespace Ferrumnet

namespace Tcb

variable {κ : Type} [CongestionControl κ]

/-! ## SYN-SENT -/

/-- The outcomes of `on_segment` in SYN-SENT. -/
inductive Greeting (t : Tcb κ) (p : TcpPacket) : Tcb κ → Prop
  | ignored : Greeting t p t
  | refused : p.flags.rst = false → p.flags.ack = true → t.core.acksSyn p = false →
      Greeting t p { t with pendingReset := some p.ack }
  | reset : p.flags.rst = true → t.core.acksSyn p = true →
      Greeting t p { t with state := .closed, reset := true }
  | opened : p.flags.rst = false → p.flags.syn = true → t.core.acksSyn p = true →
      Greeting t p { t.learnPeer p with
        sndUna := p.ack, sndWl2 := p.ack, state := .established, rtxDeadline := none, needsAck := true }
  | crossed : p.flags.rst = false → p.flags.syn = true → p.flags.ack = false →
      Greeting t p { t.learnPeer p with sndWl2 := t.iss, state := .synReceived, retransmit := true }

/-- There is no other outcome. -/
theorem onSegmentSynSent_greeting (t : Tcb κ) (p : TcpPacket) : Greeting t p (t.onSegmentSynSent p) := by
  have hacks : (p.flags.ack && p.ack.gt t.iss && p.ack.le t.sndNxt) = t.core.acksSyn p := rfl
  simp only [onSegmentSynSent, hacks]
  split
  · rename_i hbad
    rw [Bool.and_eq_true, Bool.not_eq_true'] at hbad
    split
    · exact .ignored
    · rename_i hrst
      exact .refused (Bool.eq_false_iff.mpr hrst) hbad.1 hbad.2
  rename_i hgood
  split
  · rename_i hrst
    split
    · rename_i hack
      exact .reset hrst hack
    · exact .ignored
  rename_i hrst
  have hrst' : p.flags.rst = false := Bool.eq_false_iff.mpr hrst
  split
  · rename_i hsyn
    split
    · rename_i hack
      exact .opened hrst' hsyn hack
    · rename_i hack
      refine .crossed hrst' hsyn (Bool.eq_false_iff.mpr fun hflag => hgood ?_)
      rw [hflag, Bool.true_and, Bool.not_eq_true']
      exact Bool.eq_false_iff.mpr hack
  · exact .ignored

/-! ## Past SYN-SENT -/

/-- What a segment that is not taken in may leave behind: an owed ACK, the count of
challenge ACKs, and TS.Recent. -/
def spare (t : Tcb κ) (needsAck : Bool) (start : Instant) (count : Nat) (ts : BitVec 32) : Tcb κ :=
  { t with needsAck := needsAck, challengeWindowStart := start, challengeCount := count, tsRecent := ts }

/-- The outcomes of `on_segment`, past SYN-SENT. -/
inductive Receipt (t : Tcb κ) (now : Instant) (p : TcpPacket) (ce : Bool) : Tcb κ → Prop
  | spared (needsAck : Bool) (start : Instant) (count : Nat) (ts : BitVec 32) :
      (t.core.admits p && t.core.validAck p) = false → (t.needsAck = true → needsAck = true) →
      (ts ≠ t.tsRecent → t.toRecvSpace.segmentAcceptable p.seq p.segLen = true) →
      Receipt t now p ce (t.spare needsAck start count ts)
  | reset : p.flags.rst = true → t.toRecvSpace.seqInWindow p.seq = true → p.seq = t.rcvNxt →
      Receipt t now p ce { t with state := .closed, reset := true }
  | lingers : t.state = .timeWait → Receipt t now p ce ({ t with needsAck := true }.armTimeWait now)
  | synAgain : t.core.dupSyn p = true → Receipt t now p ce { t with sndNxt := t.iss }
  | badAck : t.state = .synReceived → t.core.admits p = true → t.core.validAck p = false →
      Receipt t now p ce { t.advanceTsRecent p with pendingReset := some p.ack, state := .closed }
  | opens : t.state = .synReceived → t.core.admits p = true → t.core.validAck p = true →
      Receipt t now p ce (((t.advanceTsRecent p).opened p).onText now p ce)
  | taken : t.state ≠ .synReceived → t.core.admits p = true → t.core.validAck p = true →
      Receipt t now p ce (((t.advanceTsRecent p).acks now p).onText now p ce)

omit [CongestionControl κ] in
/-- A challenge ACK spares the connection. -/
theorem challengeAck_spare (t : Tcb κ) (now : Instant) :
    ∃ (needsAck : Bool) (start : Instant) (count : Nat),
      t.challengeAck now = t.spare needsAck start count t.tsRecent ∧
        (t.needsAck = true → needsAck = true) := by
  simp only [challengeAck]
  split
  · split
    · exact ⟨_, _, _, rfl, fun _ => rfl⟩
    · exact ⟨_, _, _, rfl, id⟩
  · split
    · exact ⟨_, _, _, rfl, fun _ => rfl⟩
    · exact ⟨_, _, _, rfl, id⟩

omit [CongestionControl κ] in
/-- TS.Recent is all that moves. -/
theorem advanceTsRecent_spare (t : Tcb κ) (p : TcpPacket) :
    ∃ ts, t.advanceTsRecent p =
      t.spare t.needsAck t.challengeWindowStart t.challengeCount ts := by
  simp only [advanceTsRecent]
  split
  · split
    · exact ⟨_, rfl⟩
    · exact ⟨_, rfl⟩
  · exact ⟨_, rfl⟩

/-- What comes of an acceptable segment. -/
theorem onAcceptable_receipt (t : Tcb κ) (now : Instant) (p : TcpPacket) (ce : Bool)
    (hadm : t.core.admits p = p.flags.ack)
    (hacc : t.toRecvSpace.segmentAcceptable p.seq p.segLen = true) :
    Receipt t now p ce (t.onAcceptable now p ce) := by
  have hvalid : (t.advanceTsRecent p).core.validAck p = t.core.validAck p := by
    rw [core_advanceTsRecent]
    rfl
  have hstate : (t.advanceTsRecent p).state = t.state :=
    congrArg Core.state (t.core_advanceTsRecent p)
  obtain ⟨ts, hts⟩ := t.advanceTsRecent_spare p
  simp only [onAcceptable]
  split
  · rename_i hack
    rw [hack] at hadm
    rw [onAck_eq, hvalid, hstate]
    by_cases hv : t.core.validAck p = true
    · rw [if_pos hv]
      by_cases hst : t.state = .synReceived
      · rw [if_pos hst]
        exact .opens hst hadm hv
      · rw [if_neg hst]
        exact .taken hst hadm hv
    · rw [if_neg hv]
      have hv' : t.core.validAck p = false := Bool.eq_false_iff.mpr hv
      by_cases hst : t.state = .synReceived
      · rw [if_pos hst]
        exact .badAck hst hadm hv'
      · rw [if_neg hst, hts]
        exact .spared _ _ _ _ (by rw [hv', Bool.and_false]) (fun _ => rfl) (fun _ => hacc)
  · rename_i hack
    rw [hts]
    exact .spared _ _ _ _ (by rw [hadm]; simp [hack]) id (fun _ => hacc)

/-- There is no other outcome. -/
theorem onSegment_receipt (t : Tcb κ) (now : Instant) (p : TcpPacket) (ce : Bool)
    (hns : t.state ≠ .synSent) : Receipt t now p ce (t.onSegment now p ce) := by
  have hspare : ∀ needsAck : Bool, (t.core.admits p && t.core.validAck p) = false →
      (t.needsAck = true → needsAck = true) → Receipt t now p ce { t with needsAck := needsAck } :=
    fun needsAck hno hkeep => .spared needsAck _ _ _ hno hkeep (absurd rfl)
  have hchallenge : (t.core.admits p && t.core.validAck p) = false →
      Receipt t now p ce (t.challengeAck now) := by
    intro hno
    obtain ⟨needsAck, start, count, he, hkeep⟩ := t.challengeAck_spare now
    rw [he]
    exact .spared _ _ _ _ hno hkeep (absurd rfl)
  rw [onSegment, if_neg hns]
  by_cases hrst : p.flags.rst = true
  · have hno : (t.core.admits p && t.core.validAck p) = false := by simp [Core.admits, hrst]
    rw [if_pos hrst, onRst]
    split
    · rename_i hwin
      split
      · rename_i hat
        exact .reset hrst hwin hat
      · exact hchallenge hno
    · exact hspare _ hno id
  rw [if_neg hrst]
  by_cases htw : t.state = .timeWait
  · rw [if_pos htw]
    exact .lingers htw
  rw [if_neg htw]
  by_cases hsyn : p.flags.syn = true
  · have hno : (t.core.admits p && t.core.validAck p) = false := by simp [Core.admits, hsyn]
    rw [if_pos hsyn, onSyn]
    split
    · rename_i hdup
      simp only [Bool.and_eq_true, decide_eq_true_eq] at hdup
      refine .synAgain ?_
      simp only [Core.dupSyn, core_state, core_recv, hdup.1, hdup.2, hsyn]
      simp [hrst]
    · split
      · exact hchallenge hno
      · exact hspare _ hno id
  rw [if_neg hsyn]
  have hpaws : t.core.pawsStale p = t.pawsStale p := rfl
  by_cases hstale : t.pawsStale p = true
  · rw [if_pos hstale]
    exact hspare _ (by simp [Core.admits, hpaws, hstale]) (fun _ => rfl)
  rw [if_neg hstale]
  have hadm : t.core.admits p = (t.toRecvSpace.segmentAcceptable p.seq p.segLen && p.flags.ack) := by
    simp [Core.admits, hns, hrst, htw, hsyn, hpaws, hstale]
  by_cases hacc : t.toRecvSpace.segmentAcceptable p.seq p.segLen = true
  · rw [if_pos hacc]
    rw [hacc, Bool.true_and] at hadm
    exact t.onAcceptable_receipt now p ce hadm hacc
  · rw [if_neg hacc]
    exact hspare _ (by rw [hadm]; simp [hacc]) (fun _ => rfl)

end Tcb

end Ferrumnet
