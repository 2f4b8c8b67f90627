import Ferrumnet.Relabel
import Ferrumnet.Synth
import Ferrumnet.Bbr

/-
  The controllers in a moved sequence space.

  A connection shows its controller sequence numbers of its send space: the end of what it
  sends, and `SND.UNA`. A controller is blind to them if it does the same when all of them
  are moved by a constant. BBR keeps the ones it was shown, and compares them; the others
  do not look at them.
-/

namespace Ferrumnet

/-- A controller that compares sequence numbers at most with one another. -/
class SeqBlind (κ : Type) [CongestionControl κ] where
  relabel : κ → BitVec 32 → κ
  new_relabel : ∀ kind mss d, relabel (CongestionControl.new kind mss) d = CongestionControl.new kind mss
  cwnd_relabel : ∀ c d, CongestionControl.cwnd (relabel c d) = CongestionControl.cwnd c
  onAck_relabel : ∀ c now acked d,
    CongestionControl.onAck (relabel c d) now acked = relabel (CongestionControl.onAck c now acked) d
  onDupAck_relabel : ∀ c now flight d, CongestionControl.onDupAck (relabel c d) now flight =
    (relabel (CongestionControl.onDupAck c now flight).1 d, (CongestionControl.onDupAck c now flight).2)
  enterRecovery_relabel : ∀ c now flight d,
    CongestionControl.enterRecovery (relabel c d) now flight = relabel (CongestionControl.enterRecovery c now flight) d
  onRto_relabel : ∀ c now flight d,
    CongestionControl.onRto (relabel c d) now flight = relabel (CongestionControl.onRto c now flight) d
  pacingRate_relabel : ∀ c d, CongestionControl.pacingRate (relabel c d) = CongestionControl.pacingRate c
  onTransmit_relabel : ∀ c now seqEnd bytes flight limited d,
    CongestionControl.onTransmit (relabel c d) now (seqEnd.shift d) bytes flight limited =
      relabel (CongestionControl.onTransmit c now seqEnd bytes flight limited) d
  onAckSample_relabel : ∀ c now una flight acked pipe inRecovery d,
    CongestionControl.onAckSample (relabel c d) now (una.shift d) flight acked pipe inRecovery =
      relabel (CongestionControl.onAckSample c now una flight acked pipe inRecovery) d
  onEcn_relabel : ∀ c now acked marked d,
    CongestionControl.onEcn (relabel c d) now acked marked = relabel (CongestionControl.onEcn c now acked marked) d
  onRttSample_relabel : ∀ c srtt d,
    CongestionControl.onRttSample (relabel c d) srtt = relabel (CongestionControl.onRttSample c srtt) d

/-! ## The window-based controllers -/

/-- A controller that does not look at sequence numbers at all. -/
abbrev SeqBlind.ofIgnores (κ : Type) [CongestionControl κ]
    (htransmit : ∀ (c : κ) now seqEnd seqEnd' bytes flight limited, CongestionControl.onTransmit c now seqEnd bytes flight limited =
      CongestionControl.onTransmit c now seqEnd' bytes flight limited)
    (hsample : ∀ (c : κ) now una una' flight acked pipe inRecovery,
      CongestionControl.onAckSample c now una flight acked pipe inRecovery =
        CongestionControl.onAckSample c now una' flight acked pipe inRecovery) : SeqBlind κ where
  relabel c _ := c
  new_relabel _ _ _ := rfl
  cwnd_relabel _ _ := rfl
  onAck_relabel _ _ _ _ := rfl
  onDupAck_relabel _ _ _ _ := rfl
  enterRecovery_relabel _ _ _ _ := rfl
  onRto_relabel _ _ _ _ := rfl
  pacingRate_relabel _ _ := rfl
  onTransmit_relabel c now seqEnd bytes flight limited _ := htransmit c now _ seqEnd bytes flight limited
  onAckSample_relabel c now una flight acked pipe inRecovery _ := hsample c now _ una flight acked pipe inRecovery
  onEcn_relabel _ _ _ _ _ := rfl
  onRttSample_relabel _ _ _ := rfl

instance : SeqBlind Reno := .ofIgnores Reno (fun _ _ _ _ _ _ _ => rfl) (fun _ _ _ _ _ _ _ _ => rfl)
instance : SeqBlind Dctcp := .ofIgnores Dctcp (fun _ _ _ _ _ _ _ => rfl) (fun _ _ _ _ _ _ _ _ => rfl)
instance : SeqBlind Prague := .ofIgnores Prague (fun _ _ _ _ _ _ _ => rfl) (fun _ _ _ _ _ _ _ _ => rfl)
instance : SeqBlind Learned := .ofIgnores Learned (fun _ _ _ _ _ _ _ => rfl) (fun _ _ _ _ _ _ _ _ => rfl)
instance : SeqBlind Synth := .ofIgnores Synth (fun _ _ _ _ _ _ _ => rfl) (fun _ _ _ _ _ _ _ _ => rfl)

/-! ## BBR -/

def Sent.relabel (s : Sent) (d : BitVec 32) : Sent := { s with seqEnd := s.seqEnd.shift d }

namespace RateSampler

variable (r : RateSampler) (d : BitVec 32) (now : Instant)

def relabel (r : RateSampler) (d : BitVec 32) : RateSampler := { r with sent := r.sent.map (·.relabel d) }

theorem onTransmit_relabel (seqEnd : SeqNumber) (bytes inflight : Nat) (appLimited : Bool) :
    (r.relabel d).onTransmit now (seqEnd.shift d) bytes inflight appLimited =
      (r.onTransmit now seqEnd bytes inflight appLimited).relabel d := by
  have hempty : (r.sent.map (·.relabel d)).isEmpty = r.sent.isEmpty := List.isEmpty_map
  unfold onTransmit
  rw [show (r.relabel d).sent = r.sent.map (·.relabel d) from rfl, hempty]
  by_cases h : (inflight = 0 || r.sent.isEmpty) = true
  · simp only [if_pos h]
    cases appLimited <;> simp [Sent.relabel, relabel]
  · simp only [if_neg h]
    cases appLimited <;> simp [Sent.relabel, relabel]

theorem popAcked_relabel (una : SeqNumber) (sent : List Sent) (delivered : Nat) (newest : Option Sent) :
    popAcked (una.shift d) (sent.map (·.relabel d)) delivered (newest.map (·.relabel d)) =
      ((popAcked una sent delivered newest).1.map (·.relabel d), (popAcked una sent delivered newest).2.1,
        (popAcked una sent delivered newest).2.2.map (·.relabel d)) := by
  induction sent generalizing delivered newest with
  | nil => rfl
  | cons s sent ih =>
    have hle : (s.relabel d).seqEnd.le (una.shift d) = s.seqEnd.le una := SeqNumber.le_shift s.seqEnd una d
    rw [List.map_cons, popAcked, popAcked, hle]
    by_cases h : s.seqEnd.le una = true
    · rw [if_pos h, if_pos h]
      exact ih (delivered + s.size) (some s)
    · rw [if_neg h, if_neg h]
      rfl

theorem onAck_relabel (una : SeqNumber) :
    (r.relabel d).onAck now (una.shift d) = ((r.onAck now una).1.relabel d, (r.onAck now una).2) := by
  have hpop := popAcked_relabel d una r.sent r.delivered none
  unfold onAck
  rw [relabel]
  dsimp only
  rw [Option.map_none] at hpop
  rw [hpop]
  rcases popAcked una r.sent r.delivered none with ⟨sent, delivered, newest⟩
  cases newest <;> rfl

end RateSampler

namespace Bbr

variable (b : Bbr) (d : BitVec 32) (now : Instant)

def relabel (b : Bbr) (d : BitVec 32) : Bbr := { b with sampler := b.sampler.relabel d }

/-- A choice between two states, moved. -/
theorem relabel_ite (p : Prop) [Decidable p] (b c : Bbr) :
    (if p then b else c).relabel d = if p then b.relabel d else c.relabel d := apply_ite (fun x : Bbr => x.relabel d) p b c

theorem checkFullPipe_relabel : (b.relabel d).checkFullPipe = b.checkFullPipe.relabel d := by
  simp only [checkFullPipe, relabel_ite]
  rfl

theorem advanceProbeBw_relabel : (b.relabel d).advanceProbeBw now = (b.advanceProbeBw now).relabel d := by
  simp only [advanceProbeBw, relabel_ite]
  rfl

theorem maybeEnterProbeRtt_relabel (expired : Bool) :
    (b.relabel d).maybeEnterProbeRtt expired = (b.maybeEnterProbeRtt expired).relabel d := by
  simp only [maybeEnterProbeRtt, relabel_ite]
  rfl

theorem handleProbeRtt_relabel (inflight : Nat) :
    (b.relabel d).handleProbeRtt now inflight = (b.handleProbeRtt now inflight).relabel d := by
  have hstamp : (b.relabel d).probeRttDoneStamp = b.probeRttDoneStamp := rfl
  have hpipe : (b.relabel d).filledPipe = b.filledPipe := rfl
  unfold handleProbeRtt
  rw [hstamp, hpipe]
  cases b.probeRttDoneStamp with
  | none =>
    simp only [relabel_ite]
    rfl
  | some done =>
    cases b.filledPipe <;>
      simp only [relabel_ite] <;> rfl

theorem updateMode_relabel (inflight : Nat) (expired : Bool) :
    (b.relabel d).updateMode now inflight expired = (b.updateMode now inflight expired).relabel d := by
  unfold updateMode
  rw [maybeEnterProbeRtt_relabel]
  generalize b.maybeEnterProbeRtt expired = c
  have hmode : (c.relabel d).mode = c.mode := rfl
  dsimp only
  rw [hmode]
  cases c.mode with
  | startup =>
    dsimp only
    rw [checkFullPipe_relabel, relabel_ite]
    rfl
  | drain =>
    dsimp only
    rw [relabel_ite]
    rfl
  | probeBw => exact c.advanceProbeBw_relabel d now
  | probeRtt => exact c.handleProbeRtt_relabel d now inflight

theorem raiseInflightBounds_relabel : (b.relabel d).raiseInflightBounds = b.raiseInflightBounds.relabel d := by
  have hhi : (b.relabel d).inflightHi = b.inflightHi := rfl
  unfold raiseInflightBounds
  rw [hhi]
  by_cases h : b.inflightHi ≠ u32Max
  · simp only [if_pos h, relabel_ite]
    rfl
  · simp only [if_neg h, relabel_ite]
    rfl

theorem updateAckAggregation_relabel (acked : Nat) :
    (b.relabel d).updateAckAggregation now acked = (b.updateAckAggregation now acked).relabel d := by
  have hbtlbw : (b.relabel d).btlbw = b.btlbw := rfl
  have hepoch : (b.relabel d).ackEpochAcked = b.ackEpochAcked := rfl
  have hstamp : (b.relabel d).ackEpochStamp = b.ackEpochStamp := rfl
  unfold updateAckAggregation
  rw [hbtlbw, hepoch, hstamp]
  dsimp only
  by_cases h : (b.btlbw = 0 || acked = 0) = true
  · rw [if_pos h, if_pos h]
  · rw [if_neg h, if_neg h]
    by_cases hr : b.ackEpochAcked ≤ mulU64 b.btlbw (now.saturatingMicrosSince b.ackEpochStamp) / 1000000
    · simp only [if_pos hr]
      rfl
    · simp only [if_neg hr]
      rfl

theorem setPacingAndCwnd_relabel (acked pipe : Nat) (inRecovery : Bool) :
    (b.relabel d).setPacingAndCwnd acked pipe inRecovery = (b.setPacingAndCwnd acked pipe inRecovery).relabel d := by
  simp only [setPacingAndCwnd, relabel_ite]
  rfl

theorem noteRound_relabel (sample : RateSample) : (b.relabel d).noteRound sample = (b.noteRound sample).relabel d := by
  simp only [noteRound, relabel_ite]
  rfl

theorem noteRtt_relabel (sample : RateSample) : (b.relabel d).noteRtt now sample = (b.noteRtt now sample).relabel d := by
  simp only [noteRtt, relabel_ite]
  rfl

theorem noteRate_relabel (sample : RateSample) : (b.relabel d).noteRate sample = (b.noteRate sample).relabel d := by
  simp only [noteRate, relabel_ite]
  rfl

theorem noteLoss_relabel (inflight : Nat) (inRecovery : Bool) :
    (b.relabel d).noteLoss inflight inRecovery = (b.noteLoss inflight inRecovery).relabel d := by
  have hcut : ∀ c : Bbr, (if inRecovery && !(c.relabel d).wasInRecovery then
      { (c.relabel d).cutInflightBounds with lossInRound := true } else c.relabel d) =
      (if inRecovery && !c.wasInRecovery then { c.cutInflightBounds with lossInRound := true } else c).relabel d := by
    intro c
    rw [relabel_ite]
    rfl
  have hraise : ∀ c : Bbr, (if !(c.relabel d).lossInRound && !inRecovery then (c.relabel d).raiseInflightBounds
      else c.relabel d) = (if !c.lossInRound && !inRecovery then c.raiseInflightBounds else c).relabel d := by
    intro c
    rw [relabel_ite, raiseInflightBounds_relabel]
    rfl
  have hlast : ∀ c : Bbr, (if (c.relabel d).roundStart then
      { (if !(c.relabel d).lossInRound && !inRecovery then (c.relabel d).raiseInflightBounds else c.relabel d) with
        lossInRound := false, inflightLatest := inflight } else c.relabel d) =
      (if c.roundStart then { (if !c.lossInRound && !inRecovery then c.raiseInflightBounds else c) with
        lossInRound := false, inflightLatest := inflight } else c).relabel d := by
    intro c
    rw [hraise]
    generalize (if !c.lossInRound && !inRecovery then c.raiseInflightBounds else c) = raised
    rw [relabel_ite]
    rfl
  have h := hlast (if inRecovery && !b.wasInRecovery then { ({ b with inflightLatest := max b.inflightLatest inflight } :
    Bbr).cutInflightBounds with lossInRound := true } else { b with inflightLatest := max b.inflightLatest inflight })
  rw [← hcut { b with inflightLatest := max b.inflightLatest inflight }] at h
  exact congrArg (fun c : Bbr => { c with wasInRecovery := inRecovery }) h

theorem onDupAck_relabel : (b.relabel d).onDupAck = (b.onDupAck.1.relabel d, b.onDupAck.2) := by
  have hdup : (b.relabel d).dupAcks = b.dupAcks := rfl
  unfold onDupAck
  rw [hdup]
  dsimp only
  split <;> rfl

theorem onAckSample_relabel (una : SeqNumber) (inflight acked pipe : Nat) (inRecovery : Bool) :
    (b.relabel d).onAckSample now (una.shift d) inflight acked pipe inRecovery =
      (b.onAckSample now una inflight acked pipe inRecovery).relabel d := by
  have hsampler := b.sampler.onAck_relabel d now una
  unfold onAckSample
  rw [show (b.relabel d).sampler = b.sampler.relabel d from rfl, hsampler]
  rcases b.sampler.onAck now una with ⟨sampler, sample⟩
  cases sample with
  | none => rfl
  | some sample =>
    have hround := Bbr.noteRound_relabel { b with sampler := sampler } d sample
    have hexpired : ∀ c : Bbr, (c.relabel d).minRttExpired now = c.minRttExpired now := fun _ => rfl
    dsimp only
    refine Eq.trans (congrArg (fun c : Bbr => (((((c.noteRtt now sample).noteRate sample).updateAckAggregation now
      acked).noteLoss inflight inRecovery).updateMode now inflight (c.minRttExpired now)).setPacingAndCwnd acked pipe
      inRecovery) hround) ?_
    rw [hexpired, noteRtt_relabel, noteRate_relabel, updateAckAggregation_relabel, noteLoss_relabel, updateMode_relabel,
      setPacingAndCwnd_relabel]

end Bbr

instance : SeqBlind Bbr where
  relabel := Bbr.relabel
  new_relabel _ _ _ := rfl
  cwnd_relabel _ _ := rfl
  onAck_relabel _ _ _ _ := rfl
  onDupAck_relabel b _ _ d := b.onDupAck_relabel d
  enterRecovery_relabel _ _ _ _ := rfl
  onRto_relabel _ _ _ _ := rfl
  pacingRate_relabel _ _ := rfl
  onTransmit_relabel b now seqEnd bytes flight limited d :=
    congrArg (fun s => { b with sampler := s }) (b.sampler.onTransmit_relabel d now seqEnd bytes flight limited)
  onAckSample_relabel b now una flight acked pipe inRecovery d :=
    b.onAckSample_relabel d now una flight acked pipe inRecovery
  onEcn_relabel _ _ _ _ _ := rfl
  onRttSample_relabel _ _ _ := rfl

end Ferrumnet
