import Ferrumnet.MaxFilter

/-
  The headroom of BBR in recovery: a window three segments above the pipe.

  The floor is applied where the window is set, behind two early exits: an ACK that
  delivers no record leaves the controller as it is, and without a model of the path the
  window stays where it was, or where the end of PROBE_RTT puts it (`held`).

  1. `gate_noteLoss`, `path_noteRtt` and the like — what each stage of a sample leaves alone.
  2. `cwnd_updateMode` — the window before it is set.
  3. `floored_iff` — one sample.
  4. `headroom` — every run.
-/

namespace Ferrumnet

/-- A call of the connection to its controller. -/
inductive CcCall where
  | ack (now : Instant) (acked : Nat)
  | dupAck (now : Instant) (flight : Nat)
  | enterRecovery (now : Instant) (flight : Nat)
  | rto (now : Instant) (flight : Nat)
  | transmit (now : Instant) (seqEnd : SeqNumber) (bytes inflight : Nat) (appLimited : Bool)
  | sample (now : Instant) (sndUna : SeqNumber) (inflight acked pipe : Nat) (inRecovery : Bool)
  | ecn (now : Instant) (acked marked : Nat)
  | rtt (srtt : Nat)
  deriving DecidableEq, Repr

def callCc {κ : Type} [CongestionControl κ] (c : κ) : CcCall → κ
  | .ack now acked => CongestionControl.onAck c now acked
  | .dupAck now flight => (CongestionControl.onDupAck c now flight).1
  | .enterRecovery now flight => CongestionControl.enterRecovery c now flight
  | .rto now flight => CongestionControl.onRto c now flight
  | .transmit now seqEnd bytes inflight appLimited =>
    CongestionControl.onTransmit c now seqEnd bytes inflight appLimited
  | .sample now sndUna inflight acked pipe inRecovery =>
    CongestionControl.onAckSample c now sndUna inflight acked pipe inRecovery
  | .ecn now acked marked => CongestionControl.onEcn c now acked marked
  | .rtt srtt => CongestionControl.onRttSample c srtt

namespace Bbr

/-- One call, as a step of a run. -/
def call (b : Bbr) (a : CcCall) : Option Bbr := some (callCc b a)

/-! ## What the window depends on -/

/-- The window, and what PROBE_RTT does to it when it ends. -/
structure Gate where
  cwnd : Nat
  mode : Mode
  probeRttDoneStamp : Option Instant
  priorCwnd : Nat
  mss : Nat

def gate (b : Bbr) : Gate := ⟨b.cwnd, b.mode, b.probeRttDoneStamp, b.priorCwnd, b.mss⟩

/-- The window that a call at `now` leaves if there is no model of the path. -/
def Gate.held (g : Gate) (now : Instant) : Nat :=
  if g.mode = .probeRtt ∧ now.due g.probeRttDoneStamp = true then max g.cwnd g.priorCwnd else g.cwnd

/-- The model of the path. -/
structure Path where
  btlbw : Nat
  minRttUs : Nat
  btlbwFilter : WindowedMax

def path (b : Bbr) : Path := ⟨b.btlbw, b.minRttUs, b.btlbwFilter⟩

/-- The minimum RTT behind a sample. -/
def refreshed (b : Bbr) (now : Instant) (sample : RateSample) : Nat :=
  if sample.rttUs > 0 ∧ (sample.rttUs < b.minRttUs ∨ b.minRttExpired now = true) then sample.rttUs else b.minRttUs

/-- Behind the sample the minimum RTT is known, and the bandwidth was or is now. -/
def Modelled (b : Bbr) (now : Instant) (sample : RateSample) : Prop :=
  b.refreshed now sample ≠ u32Max ∧
    (b.btlbw ≠ 0 ∨ 0 < sample.deliveryRate ∧ b.refreshed now sample ≤ sample.intervalUs)

instance (b : Bbr) (now : Instant) (sample : RateSample) : Decidable (b.Modelled now sample) :=
  inferInstanceAs (Decidable (_ ∧ _))

variable {b : Bbr}

theorem gate_noteRound (b : Bbr) (sample : RateSample) : (b.noteRound sample).gate = b.gate := by
  simp only [noteRound]
  split <;> rfl

theorem gate_noteRtt (b : Bbr) (now : Instant) (sample : RateSample) : (b.noteRtt now sample).gate = b.gate := by
  simp only [noteRtt]
  split <;> rfl

theorem gate_noteRate (b : Bbr) (sample : RateSample) : (b.noteRate sample).gate = b.gate := by
  simp only [noteRate]
  split <;> rfl

theorem gate_updateAckAggregation (b : Bbr) (now : Instant) (acked : Nat) :
    (b.updateAckAggregation now acked).gate = b.gate ∧ (b.updateAckAggregation now acked).path = b.path := by
  simp only [updateAckAggregation]
  split
  · exact ⟨rfl, rfl⟩
  · split <;> exact ⟨rfl, rfl⟩

theorem gate_raiseInflightBounds (b : Bbr) :
    b.raiseInflightBounds.gate = b.gate ∧ b.raiseInflightBounds.path = b.path := by
  simp only [raiseInflightBounds]
  split
  · split <;> exact ⟨rfl, rfl⟩
  · split <;> exact ⟨rfl, rfl⟩

theorem gate_noteLoss (b : Bbr) (inflight : Nat) (inRecovery : Bool) :
    (b.noteLoss inflight inRecovery).gate = b.gate ∧ (b.noteLoss inflight inRecovery).path = b.path := by
  have hraise : ∀ c : Bbr, c.gate = b.gate ∧ c.path = b.path →
      (if !c.lossInRound && !inRecovery then c.raiseInflightBounds else c).gate = b.gate ∧
        (if !c.lossInRound && !inRecovery then c.raiseInflightBounds else c).path = b.path := by
    intro c hc
    split
    · obtain ⟨h1, h2⟩ := c.gate_raiseInflightBounds
      exact ⟨h1.trans hc.1, h2.trans hc.2⟩
    · exact hc
  simp only [noteLoss]
  generalize hcut : (if inRecovery && !b.wasInRecovery then
      ({ ({ b with inflightLatest := max b.inflightLatest inflight } : Bbr).cutInflightBounds with
        lossInRound := true } : Bbr)
    else { b with inflightLatest := max b.inflightLatest inflight }) = c
  have hc : c.gate = b.gate ∧ c.path = b.path := by
    rw [← hcut]
    split <;> exact ⟨rfl, rfl⟩
  split
  · exact hraise c hc
  · exact hc

theorem cwnd_checkFullPipe (b : Bbr) : b.checkFullPipe.cwnd = b.cwnd ∧ b.checkFullPipe.path = b.path ∧
    b.checkFullPipe.mss = b.mss := by
  simp only [checkFullPipe]
  split
  · exact ⟨rfl, rfl, rfl⟩
  · split
    · exact ⟨rfl, rfl, rfl⟩
    · split <;> exact ⟨rfl, rfl, rfl⟩

theorem cwnd_handleProbeRtt (b : Bbr) (now : Instant) (inflight : Nat) :
    (b.handleProbeRtt now inflight).cwnd =
        (if now.due b.probeRttDoneStamp = true then max b.cwnd b.priorCwnd else b.cwnd) ∧
      (b.handleProbeRtt now inflight).path = b.path ∧ (b.handleProbeRtt now inflight).mss = b.mss := by
  simp only [handleProbeRtt]
  cases hdone : b.probeRttDoneStamp with
  | none =>
    simp only [Instant.due, Bool.false_eq_true, if_false]
    split <;> exact ⟨rfl, rfl, rfl⟩
  | some done =>
    simp only [Instant.due, decide_eq_true_eq, ge_iff_le]
    split
    · split <;> exact ⟨rfl, rfl, rfl⟩
    · exact ⟨rfl, rfl, rfl⟩

/-- Only the end of PROBE_RTT moves the window before it is set. -/
theorem cwnd_updateMode (b : Bbr) (now : Instant) (inflight : Nat) (expired : Bool) :
    (b.updateMode now inflight expired).cwnd = b.gate.held now ∧
      (b.updateMode now inflight expired).path = b.path ∧ (b.updateMode now inflight expired).mss = b.mss := by
  have hmode : (b.updateMode now inflight expired).cwnd = (b.maybeEnterProbeRtt expired).gate.held now ∧
      (b.updateMode now inflight expired).path = (b.maybeEnterProbeRtt expired).path ∧
      (b.updateMode now inflight expired).mss = (b.maybeEnterProbeRtt expired).mss := by
    rw [updateMode]
    generalize b.maybeEnterProbeRtt expired = c
    cases hm : c.mode with
    | startup =>
      have hheld : c.gate.held now = c.cwnd := if_neg fun h => by cases hm.symm.trans h.1
      rw [hheld]
      obtain ⟨h1, h2, h3⟩ := c.cwnd_checkFullPipe
      dsimp only
      split
      · exact ⟨h1, h2, h3⟩
      · exact ⟨h1, h2, h3⟩
    | drain =>
      have hheld : c.gate.held now = c.cwnd := if_neg fun h => by cases hm.symm.trans h.1
      rw [hheld]
      dsimp only
      split <;> exact ⟨rfl, rfl, rfl⟩
    | probeBw =>
      have hheld : c.gate.held now = c.cwnd := if_neg fun h => by cases hm.symm.trans h.1
      rw [hheld]
      simp only [advanceProbeBw]
      split <;> exact ⟨rfl, rfl, rfl⟩
    | probeRtt =>
      have hheld : c.gate.held now = if now.due c.probeRttDoneStamp = true then max c.cwnd c.priorCwnd else c.cwnd :=
        if_congr (and_iff_right hm) rfl rfl
      rw [hheld]
      exact c.cwnd_handleProbeRtt now inflight
  -- entering PROBE_RTT clears the stamp, so that it does not end in the same call
  have henter : (b.maybeEnterProbeRtt expired).gate.held now = b.gate.held now ∧
      (b.maybeEnterProbeRtt expired).path = b.path ∧ (b.maybeEnterProbeRtt expired).mss = b.mss := by
    simp only [maybeEnterProbeRtt]
    split
    · rename_i hnew
      have hne : b.mode ≠ .probeRtt := by
        rw [Bool.and_eq_true, decide_eq_true_eq] at hnew
        exact hnew.2
      refine ⟨?_, rfl, rfl⟩
      have hold : b.gate.held now = b.cwnd := if_neg fun h => hne h.1
      rw [hold]
      exact if_neg fun h => by cases h.2
    · exact ⟨rfl, rfl, rfl⟩
  obtain ⟨h1, h2, h3⟩ := hmode
  exact ⟨h1.trans henter.1, h2.trans henter.2.1, h3.trans henter.2.2⟩

/-! ## One sample -/

/-- Where the model is known the window is set, in recovery no lower than the floor. -/
theorem cwnd_set (b : Bbr) (acked pipe : Nat) (h : b.btlbw ≠ 0 ∧ b.minRttUs ≠ u32Max) :
    pipe + 3 * b.mss ≤ (b.setPacingAndCwnd acked pipe true).cwnd ↔ pipe + 3 * b.mss ≤ u32Max := by
  have hknown : (decide (b.btlbw = 0) || decide (b.minRttUs = u32Max)) = false := by
    rw [decide_eq_false h.1, decide_eq_false h.2]
    rfl
  simp only [setPacingAndCwnd, hknown, Bool.false_eq_true, if_false, if_true, Bool.not_true, Bool.and_false,
    recoveryHeadroomSegs]
  constructor
  · exact fun hle => hle.trans (Nat.min_le_right ..)
  · exact fun hle => le_min ((le_max_right _ _).trans (le_max_left _ _)) hle

theorem cwnd_unset (b : Bbr) (acked pipe : Nat) (inRecovery : Bool) (h : ¬ (b.btlbw ≠ 0 ∧ b.minRttUs ≠ u32Max)) :
    (b.setPacingAndCwnd acked pipe inRecovery).cwnd = b.cwnd := by
  have hunknown : (decide (b.btlbw = 0) || decide (b.minRttUs = u32Max)) = true := by
    rw [Bool.or_eq_true, decide_eq_true_eq, decide_eq_true_eq]
    by_contra hno
    exact h (not_or.mp hno)
  simp only [setPacingAndCwnd, hunknown, if_true]

/-- The filter of a positive rate is positive. -/
theorem positive_update {f : WindowedMax} (h : f.Single) {t v : Nat} (hv : 0 < v) : 0 < (f.update t v).s0.v := by
  rw [h.update]
  split
  · exact hv
  · rename_i hno
    have hlt := Nat.not_le.mp (not_or.mp hno).1
    omega

theorem path_noteRtt (b : Bbr) (now : Instant) (sample : RateSample) :
    (b.noteRtt now sample).path = ⟨b.btlbw, b.refreshed now sample, b.btlbwFilter⟩ := by
  have hcond : (decide (sample.rttUs > 0) && (decide (sample.rttUs < b.minRttUs) || b.minRttExpired now)) = true ↔
      sample.rttUs > 0 ∧ (sample.rttUs < b.minRttUs ∨ b.minRttExpired now = true) := by
    simp only [Bool.and_eq_true, Bool.or_eq_true, decide_eq_true_eq]
  simp only [noteRtt, refreshed, hcond]
  split <;> rfl

/-- Whether the model is known behind a sample. -/
theorem known_noteRate (h : b.btlbwFilter.Single) (now : Instant) (sample : RateSample) :
    (((b.noteRtt now sample).noteRate sample).btlbw ≠ 0 ∧
      ((b.noteRtt now sample).noteRate sample).minRttUs ≠ u32Max) ↔ b.Modelled now sample := by
  have hpath := b.path_noteRtt now sample
  have hbw : (b.noteRtt now sample).btlbw = b.btlbw := congrArg Path.btlbw hpath
  have hrtt : (b.noteRtt now sample).minRttUs = b.refreshed now sample := congrArg Path.minRttUs hpath
  have hfilter : (b.noteRtt now sample).btlbwFilter = b.btlbwFilter := congrArg Path.btlbwFilter hpath
  have hpos := fun hv => positive_update (f := b.btlbwFilter) h (t := (b.noteRtt now sample).roundCount)
    (v := sample.deliveryRate) hv
  simp only [noteRate, Modelled, hbw, hrtt, hfilter, Bool.and_eq_true, Bool.or_eq_true, decide_eq_true_eq,
    Bool.not_eq_true']
  split
  · rename_i hfed
    have hne := Nat.ne_of_gt (hpos hfed.1.1)
    exact ⟨fun hk => ⟨hk.2, .inr hfed.1⟩, fun hk => ⟨hne, hk.1⟩⟩
  · rename_i hskip
    rw [hbw, hrtt]
    constructor
    · exact fun hk => ⟨hk.2, .inl hk.1⟩
    · rintro ⟨h1, h2⟩
      refine ⟨fun hzero => ?_, h1⟩
      obtain ⟨h3, h4⟩ := h2.resolve_left (fun hne => hne hzero)
      exact hskip ⟨⟨h3, h4⟩, .inr (by rw [hzero]; exact Nat.zero_le _)⟩

/-- The headroom that a sample in recovery is to leave. -/
def Floored (b : Bbr) : CcCall → Prop
  | .sample now sndUna inflight acked pipe true =>
    pipe + 3 * b.mss ≤ (b.onAckSample now sndUna inflight acked pipe true).cwnd
  | _ => True

/-- When it does. An ACK that delivers no record leaves the window as it is; with a model behind
the sample the floor is applied, and has to fit in a `u32`; without one the window is held. -/
def Opened (b : Bbr) : CcCall → Prop
  | .sample now sndUna _ _ pipe true =>
    match (b.sampler.onAck now sndUna).2 with
    | none => pipe + 3 * b.mss ≤ b.cwnd
    | some sample =>
      if b.Modelled now sample then pipe + 3 * b.mss ≤ u32Max else pipe + 3 * b.mss ≤ b.gate.held now
  | _ => True

/-- The stages between the sample and the window. -/
def fitted (b : Bbr) (now : Instant) (sampler : RateSampler) (sample : RateSample) : Bbr :=
  ((({ b with sampler := sampler } : Bbr).noteRound sample).noteRtt now sample).noteRate sample

theorem onAckSample_none {now : Instant} {sndUna : SeqNumber} (h : (b.sampler.onAck now sndUna).2 = none)
    (inflight acked pipe : Nat) (inRecovery : Bool) :
    b.onAckSample now sndUna inflight acked pipe inRecovery = b := by
  rw [onAckSample]
  generalize b.sampler.onAck now sndUna = r at h
  obtain ⟨sampler, sample⟩ := r
  cases h
  rfl

theorem onAckSample_some {now : Instant} {sndUna : SeqNumber} {sampler : RateSampler} {sample : RateSample}
    (h : b.sampler.onAck now sndUna = (sampler, some sample)) (inflight acked pipe : Nat) (inRecovery : Bool) :
    b.onAckSample now sndUna inflight acked pipe inRecovery =
      ((((b.fitted now sampler sample).updateAckAggregation now acked).noteLoss inflight inRecovery).updateMode now
        inflight ((({ b with sampler := sampler } : Bbr).noteRound sample).minRttExpired now)).setPacingAndCwnd acked
          pipe inRecovery := by
  rw [onAckSample, h]
  rfl

theorem path_noteRound (b : Bbr) (sample : RateSample) :
    (b.noteRound sample).path = b.path ∧ (b.noteRound sample).minRttStamp = b.minRttStamp := by
  simp only [noteRound]
  split <;> exact ⟨rfl, rfl⟩

/-- What is behind these stages: the window and the stamps of PROBE_RTT as they were, and a
model exactly if the sample leaves one. -/
theorem fitted_frame (h : b.btlbwFilter.Single) (now : Instant) (sampler : RateSampler) (sample : RateSample) :
    (b.fitted now sampler sample).gate = b.gate ∧
      (((b.fitted now sampler sample).btlbw ≠ 0 ∧ (b.fitted now sampler sample).minRttUs ≠ u32Max) ↔
        b.Modelled now sample) := by
  obtain ⟨hpath, hstamp⟩ := Bbr.path_noteRound { b with sampler := sampler } sample
  have hgate := Bbr.gate_noteRound { b with sampler := sampler } sample
  rw [fitted]
  generalize Bbr.noteRound { b with sampler := sampler } sample = r at hpath hstamp hgate ⊢
  have hbw : r.btlbw = b.btlbw := congrArg Path.btlbw hpath
  have hrtt : r.minRttUs = b.minRttUs := congrArg Path.minRttUs hpath
  have hfilter : r.btlbwFilter = b.btlbwFilter := congrArg Path.btlbwFilter hpath
  have hstamp' : r.minRttStamp = b.minRttStamp := hstamp
  constructor
  · rw [gate_noteRate, gate_noteRtt, hgate]
    rfl
  · rw [known_noteRate (by rw [hfilter]; exact h)]
    have hexpired : r.minRttExpired now = b.minRttExpired now := by
      simp only [minRttExpired, hrtt, hstamp']
    have hrefreshed : r.refreshed now sample = b.refreshed now sample := by
      simp only [refreshed, hrtt, hexpired]
    rw [Modelled, Modelled, hrefreshed, hbw]

/-- One sample in recovery. -/
theorem floored_iff (h : b.btlbwFilter.Single) (a : CcCall) : b.Floored a ↔ b.Opened a := by
  cases a with
  | sample now sndUna inflight acked pipe inRecovery =>
    cases inRecovery with
    | false => exact Iff.rfl
    | true =>
      simp only [Floored, Opened]
      cases hr : b.sampler.onAck now sndUna with
      | mk sampler sample? =>
        cases sample? with
        | none =>
          rw [onAckSample_none (by rw [hr])]
        | some sample =>
          rw [onAckSample_some hr]
          obtain ⟨hgate, hmodel⟩ := fitted_frame h now sampler sample
          generalize b.fitted now sampler sample = c at hgate hmodel ⊢
          obtain ⟨hgate1, hpath1⟩ := c.gate_updateAckAggregation now acked
          obtain ⟨hgate2, hpath2⟩ := (c.updateAckAggregation now acked).gate_noteLoss inflight true
          obtain ⟨hcwnd, hpath3, hmss⟩ := ((c.updateAckAggregation now acked).noteLoss inflight true).cwnd_updateMode
            now inflight ((Bbr.noteRound { b with sampler := sampler } sample).minRttExpired now)
          rw [hgate2, hgate1, hgate] at hcwnd
          rw [hpath2, hpath1] at hpath3
          have hsize : ((c.updateAckAggregation now acked).noteLoss inflight true).mss = b.mss :=
            congrArg Gate.mss (hgate2.trans (hgate1.trans hgate))
          rw [hsize] at hmss
          generalize ((c.updateAckAggregation now acked).noteLoss inflight true).updateMode now inflight
            ((Bbr.noteRound { b with sampler := sampler } sample).minRttExpired now) = d at hcwnd hpath3 hmss ⊢
          have hbw : d.btlbw = c.btlbw := congrArg Path.btlbw hpath3
          have hrtt : d.minRttUs = c.minRttUs := congrArg Path.minRttUs hpath3
          rw [← hbw, ← hrtt] at hmodel
          rw [← hmss]
          dsimp only
          by_cases hknown : b.Modelled now sample
          · rw [if_pos hknown]
            exact d.cwnd_set acked pipe (hmodel.mpr hknown)
          · rw [if_neg hknown, d.cwnd_unset acked pipe true (fun hk => hknown (hmodel.mp hk)), hcwnd]
  | _ => exact Iff.rfl

/-! ## Every run -/

theorem path_setPacingAndCwnd (b : Bbr) (acked pipe : Nat) (inRecovery : Bool) :
    (b.setPacingAndCwnd acked pipe inRecovery).path = b.path := by
  simp only [setPacingAndCwnd]
  split <;> rfl

/-- Only a rate sample is fed to the filter. -/
theorem single_noteRate (h : b.btlbwFilter.Single) (sample : RateSample) : (b.noteRate sample).btlbwFilter.Single := by
  simp only [noteRate]
  split
  · dsimp only
    rw [h.update]
    split
    · exact WindowedMax.single_reset ..
    · exact h
  · exact h

theorem single_fitted (h : b.btlbwFilter.Single) (now : Instant) (sampler : RateSampler) (sample : RateSample) :
    (b.fitted now sampler sample).btlbwFilter.Single := by
  have hround := congrArg Path.btlbwFilter (Bbr.path_noteRound { b with sampler := sampler } sample).1
  have hrtt := congrArg Path.btlbwFilter ((Bbr.noteRound { b with sampler := sampler } sample).path_noteRtt now sample)
  dsimp only [path] at hround hrtt
  refine single_noteRate ?_ sample
  rw [hrtt, hround]
  exact h

/-- The bandwidth filter holds one sample in every run. -/
theorem single_callCc (h : b.btlbwFilter.Single) (a : CcCall) : (callCc b a).btlbwFilter.Single := by
  cases a with
  | sample now sndUna inflight acked pipe inRecovery =>
    change (b.onAckSample now sndUna inflight acked pipe inRecovery).btlbwFilter.Single
    cases hr : b.sampler.onAck now sndUna with
    | mk sampler sample? =>
      cases sample? with
      | none =>
        rw [onAckSample_none (by rw [hr])]
        exact h
      | some sample =>
        rw [onAckSample_some hr]
        have hfitted : (b.fitted now sampler sample).btlbwFilter.Single := single_fitted h now sampler sample
        generalize b.fitted now sampler sample = c at hfitted ⊢
        generalize (Bbr.noteRound { b with sampler := sampler } sample).minRttExpired now = expired
        have hset := path_setPacingAndCwnd (((c.updateAckAggregation now acked).noteLoss inflight inRecovery).updateMode
          now inflight expired) acked pipe inRecovery
        have hmode := (((c.updateAckAggregation now acked).noteLoss inflight inRecovery).cwnd_updateMode now inflight
          expired).2.1
        have hloss := ((c.updateAckAggregation now acked).gate_noteLoss inflight inRecovery).2
        have hack := (c.gate_updateAckAggregation now acked).2
        have hfilter := congrArg Path.btlbwFilter (hset.trans (hmode.trans (hloss.trans hack)))
        dsimp only [path] at hfilter
        rw [hfilter]
        exact hfitted
  | dupAck now flight =>
    change (b.onDupAck).1.btlbwFilter.Single
    simp only [onDupAck]
    split <;> exact h
  | _ => exact h

/-- In every run BBR leaves the headroom of each sample in recovery exactly where the condition
`Opened` holds before it. -/
theorem headroom (mss : Nat) (calls : List CcCall) :
    Run.Along call Floored (new mss) calls ↔ Run.Along call Opened (new mss) calls := by
  refine Run.along_iff (I := fun b : Bbr => b.btlbwFilter.Single) (fun b a b' hb he => ?_)
    (fun b a hb => floored_iff hb a) ⟨rfl, rfl⟩ calls
  cases he
  exact single_callCc hb a

/-- Three segments sent, and a retransmission timeout, after which the window is one segment and no
record of what was sent is left. -/
def timedOut : List CcCall :=
  [.transmit ⟨0⟩ (SeqNumber.new 1000) 1000 0 false, .transmit ⟨0⟩ (SeqNumber.new 2000) 1000 1000 false,
    .transmit ⟨0⟩ (SeqNumber.new 3000) 1000 2000 false, .rto ⟨1000000⟩ 3000]

/-- The ACK of the first segment then delivers no record, and the window stays under the pipe. -/
theorem window_kept_under_pipe :
    ∃ b, Run.run call (new 1000) timedOut = some b ∧
      (callCc b (.sample ⟨1200000⟩ (SeqNumber.new 1000) 2000 1000 2000 true)).cwnd = 1000 ∧
      ¬ b.Floored (.sample ⟨1200000⟩ (SeqNumber.new 1000) 2000 1000 2000 true) := by
  refine ⟨_, rfl, by decide +kernel, ?_⟩
  change ¬ 2000 + 3 * _ ≤ _
  decide +kernel

end Bbr

end Ferrumnet
