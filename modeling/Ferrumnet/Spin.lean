import Ferrumnet.Karn
import Ferrumnet.Silence
import Ferrumnet.Drained
import Ferrumnet.Pacing

/-
  Whether a deadline is left in the past.

  The event loop sleeps until `poll_at`, fires the timers and drains `poll_transmit`. A
  timer that has fired is armed again for later or not at all. The pacing deadline does not
  fire: it is taken down where new data is sent, by a controller that reports a rate.

  1. `rests_onTimer`, `Rests.poll` — the other four deadlines, once the timers have fired.
  2. `pace_poll` — what one call does to the pacing deadline.
  3. `timers_settle` — after the drain every deadline is later than now exactly if the
     pacing deadline was not due, or some call of the drain has found a rate.
  4. `stale_spins` — a controller that stops reporting one leaves it in the past.
-/

namespace Ferrumnet

/-! ## Timeouts are above zero -/

namespace RttEstimator

/-- Neither the timeout in effect nor the one it is reset to is zero. -/
structure Live (e : RttEstimator) : Prop where
  rto : 0 < e.rto
  base : 0 < e.baseRto

theorem live_new : new.Live := ⟨by decide, by decide⟩

theorem live_onSample (e : RttEstimator) (m : Nat) : (e.onSample m).Live := by
  have hmin : minRto = 200000 := rfl
  have hmax : maxRto = 60000000 := rfl
  constructor <;> · simp only [onSample]; omega

theorem Live.onCleanAck {e : RttEstimator} (h : e.Live) : e.onCleanAck.Live := ⟨h.base, h.base⟩

theorem Live.onTimeout {e : RttEstimator} (h : e.Live) : e.onTimeout.Live := by
  have hpos := h.rto
  have hmax : maxRto = 60000000 := rfl
  refine ⟨?_, h.base⟩
  simp only [RttEstimator.onTimeout]
  omega

end RttEstimator

namespace Tcb

variable {κ : Type} [CongestionControl κ] {t u : Tcb κ} {now : Instant}

/-- What an ACK does to the estimator. -/
theorem live_acks (h : t.rtt.Live) (now : Instant) (p : TcpPacket) : (t.acks now p).rtt.Live := by
  rw [acks, ((t.advanced now p).detected_spec now p _).2.1, advanced, recovery_updateWindow]
  split
  · have hb := (t.beforeRtt_spec now p.ack p.ace).rtt
    rw [ackAdvance_stages]
    generalize t.beforeRtt now p.ack p.ace = b at hb ⊢
    rw [(ackTimer_spec _ now).2.2.1]
    apply RttEstimator.Live.onCleanAck
    rw [← hb] at h
    unfold ackRtt
    split
    · split
      · dsimp only
        split
        · exact RttEstimator.live_onSample _ _
        · exact h
      · exact h
    · split
      · exact h
      · split
        · split
          · exact RttEstimator.live_onSample _ _
          · exact h
        · exact h
  · exact h

theorem live_onSegment (h : t.rtt.Live) (now : Instant) (p : TcpPacket) (ce : Bool) :
    (t.onSegment now p ce).rtt.Live := by
  by_cases hst : t.state = .synSent
  · rw [onSegment, if_pos hst]
    have hgreeting := t.onSegmentSynSent_greeting p
    generalize t.onSegmentSynSent p = u at hgreeting
    cases hgreeting <;> exact h
  have hreceipt := t.onSegment_receipt now p ce hst
  have hrec : (t.advanceTsRecent p).rtt = t.rtt := congrArg LossRecovery.rtt (t.recovery_advanceTsRecent p)
  generalize t.onSegment now p ce = u at hreceipt
  cases hreceipt with
  | spared => exact h
  | reset => exact h
  | lingers => exact h
  | synAgain => exact h
  | badAck => exact hrec ▸ h
  | opens =>
    rw [recovery_onText, recovery_opened]
    exact hrec ▸ h
  | taken =>
    rw [recovery_onText]
    exact live_acks (hrec ▸ h) now p

theorem live_onTimer (h : t.rtt.Live) (now : Instant) : (t.onTimer now).rtt.Live := by
  rw [recovery_onTimer]
  simp only [onRtxTimer]
  split
  · split
    · simp only [synTimeout]
      split
      · exact h
      · exact h.onTimeout
    · exact h.onTimeout
  · exact h

theorem rtt_paced (t : Tcb κ) (now : Instant) : (t.paced now).rtt = t.rtt :=
  congrArg LossRecovery.rtt (t.owed_paced now).2

theorem rtt_startRtx (t : Tcb κ) (now : Instant) : (t.startRtx now).rtt = t.rtt :=
  congrArg LossRecovery.rtt (t.recovery_startRtx now)

/-- No transmission touches the estimator. -/
theorem rtt_poll (t : Tcb κ) (now : Instant) : (t.pollTransmit now).1.rtt = t.rtt := by
  have hkeeps : TransmitKeeps now (fun u : Tcb κ => u.rtt = t.rtt) :=
    { clocked := fun _ hu => hu
      owed := fun _ _ hu => hu
      flag := fun _ _ hu => hu
      syn := fun _ _ hu => hu
      paced := fun u hu => (u.rtt_paced now).trans hu
      armPersist := by
        intro u hu
        unfold armPersist
        split
        · exact hu
        · exact hu
      emit := fun _ _ _ _ hu => hu
      startRtx := fun u hu => (u.rtt_startRtx now).trans hu
      noteRexmit := fun _ _ _ _ hu => hu
      noteSent := by
        intro u n room hu
        simp only [noteSent]
        split <;> split <;> exact hu
      noteFin := fun u hu => (congrArg LossRecovery.rtt (u.recovery_noteFin now)).trans hu }
  exact hkeeps.poll rfl

/-! ## Deadlines later than now -/

/-- A deadline that is not armed, or later than `now`. -/
def Later (now : Instant) (d : Option Instant) : Prop := ∀ x, d = some x → now.micros < x.micros

omit [CongestionControl κ] in
theorem later_none : Later now none := fun _ h => by cases h

theorem later_iff_due {d : Option Instant} : Later now d ↔ now.due d = false := by
  cases d with
  | none => exact ⟨fun _ => rfl, fun _ => later_none⟩
  | some x =>
    rw [Instant.due, decide_eq_false_iff_not, Nat.not_le]
    exact ⟨fun h => h x rfl, fun h y hy => by cases hy; exact h⟩

omit [CongestionControl κ] in
/-- The clock saturates, so this fails at its very last instant. -/
theorem later_plusMicros (hnow : now.micros < Instant.u64Max) {n : Nat} (hn : 0 < n) :
    Later now (some (now.plusMicros n)) := by
  rintro x ⟨⟩
  simp only [Instant.plusMicros]
  omega

omit [CongestionControl κ] in
theorem later_plusMillis (hnow : now.micros < Instant.u64Max) {n : Nat} (hn : 0 < n) :
    Later now (some (now.plusMillis n)) := by
  rintro x ⟨⟩
  simp only [Instant.plusMillis]
  omega

/-- All deadlines but that of pacing are later than now, and would be armed for later. -/
structure Rests (t : Tcb κ) (now : Instant) : Prop where
  live : t.rtt.Live
  rtx : Later now t.rtxDeadline
  persist : Later now t.persistDeadline
  wait : Later now t.timeWaitDeadline
  delayed : Later now t.delayedAckDeadline

/-- Once the timers have fired, unless the connection is closed by one. -/
theorem rests_onTimer (hlive : t.rtt.Live) (hback : 0 < t.persistBackoff) (hnow : now.micros < Instant.u64Max) :
    (t.onTimer now).state = .closed ∨ (t.onTimer now).Rests now := by
  have hfresh : ∀ {d : Option Instant}, ¬ now.due d = true → Later now d := by
    intro d hd x hx
    rw [hx, Instant.due, decide_eq_true_eq] at hd
    omega
  have hrtx : Later now (t.onRtxTimer now).rtxDeadline := by
    simp only [onRtxTimer]
    split
    · split
      · simp only [synTimeout]
        split
        · exact later_none
        · exact later_plusMicros hnow hlive.onTimeout.rto
      · exact later_plusMicros hnow hlive.onTimeout.rto
    · rename_i hd
      exact hfresh hd
  have hlive' := live_onTimer hlive now
  have hback' : (t.onRtxTimer now).persistBackoff = t.persistBackoff := by
    simp only [onRtxTimer]
    split
    · split
      · simp only [synTimeout]
        split <;> rfl
      · rfl
    · rfl
  rw [onTimer] at hlive' ⊢
  generalize t.onRtxTimer now = u at hrtx hback' hlive' ⊢
  have hpersist : (u.onPersistTimer now).rtxDeadline = u.rtxDeadline ∧
      Later now (u.onPersistTimer now).persistDeadline := by
    have hmax : persistMaxMillis = 60000 := rfl
    simp only [onPersistTimer]
    split
    · refine ⟨rfl, later_plusMillis hnow ?_⟩
      omega
    · rename_i hd
      exact ⟨rfl, hfresh hd⟩
  obtain ⟨hsame, hlater⟩ := hpersist
  generalize u.onPersistTimer now = v at hsame hlater hlive' ⊢
  rw [← hsame] at hrtx
  unfold onTimeWaitTimer at hlive' ⊢
  split
  · left
    unfold onDelayedAckTimer
    split <;> rfl
  · rename_i hwait
    right
    rw [if_neg hwait] at hlive'
    unfold onDelayedAckTimer at hlive' ⊢
    split
    · rename_i hd
      rw [if_pos hd] at hlive'
      exact ⟨hlive', hrtx, hlater, hfresh hwait, later_none⟩
    · rename_i hd
      exact ⟨by rwa [if_neg hd] at hlive', hrtx, hlater, hfresh hwait, hfresh hd⟩

/-! ## What a transmission does to them -/

omit [CongestionControl κ] in
theorem Rests.startRtx (h : t.Rests now) (hnow : now.micros < Instant.u64Max) : (t.startRtx now).Rests now := by
  unfold Tcb.startRtx
  split
  · exact ⟨h.live, later_plusMicros hnow h.live.rto, h.persist, h.wait, h.delayed⟩
  · exact h

omit [CongestionControl κ] in
theorem Rests.armPersist (h : t.Rests now) (hnow : now.micros < Instant.u64Max) : (t.armPersist now).Rests now := by
  unfold Tcb.armPersist
  split
  · exact ⟨h.live, h.rtx, later_plusMillis hnow (by decide), h.wait, h.delayed⟩
  · exact h

omit [CongestionControl κ] in
/-- Building a segment pays a pending delayed ACK. -/
theorem Rests.emit (h : t.Rests now) (seq : SeqNumber) (flags : TcpFlags) (payload : Bytes) :
    (t.emit seq flags payload).1.Rests now :=
  ⟨h.live, h.rtx, h.persist, h.wait, later_none⟩

theorem Rests.paced (h : t.Rests now) : (t.paced now).Rests now := by
  simp only [Tcb.paced, pace]
  split
  · exact h
  · split
    · exact ⟨h.live, h.rtx, h.persist, h.wait, h.delayed⟩
    · exact ⟨h.live, h.rtx, h.persist, h.wait, h.delayed⟩

theorem Rests.noteSent (h : t.Rests now) (n room : Nat) : (t.noteSent now n room).Rests now := by
  simp only [Tcb.noteSent]
  split <;> split <;> exact ⟨h.live, h.rtx, h.persist, h.wait, h.delayed⟩

omit [CongestionControl κ] in
theorem Rests.noteFin (h : t.Rests now) (hnow : now.micros < Instant.u64Max) : (t.noteFin now).Rests now := by
  have hstarted : (({ t with finSeq := some t.dataEnd, sndNxt := t.dataEnd + 1 } : Tcb κ).startRtx now).Rests now :=
    Rests.startRtx ⟨h.live, h.rtx, h.persist, h.wait, h.delayed⟩ hnow
  exact ⟨hstarted.live, hstarted.rtx, hstarted.persist, hstarted.wait, hstarted.delayed⟩

/-- The whole call. -/
theorem Rests.poll (h : t.Rests now) (hnow : now.micros < Instant.u64Max) : (t.pollTransmit now).1.Rests now := by
  have hkeeps : TransmitKeeps now (fun u : Tcb κ => u.Rests now) :=
    { clocked := fun _ hu => ⟨hu.live, hu.rtx, hu.persist, hu.wait, hu.delayed⟩
      owed := fun _ _ hu => ⟨hu.live, hu.rtx, hu.persist, hu.wait, hu.delayed⟩
      flag := fun _ _ hu => ⟨hu.live, hu.rtx, hu.persist, hu.wait, hu.delayed⟩
      syn := fun _ _ hu => ⟨hu.live, hu.rtx, hu.persist, hu.wait, hu.delayed⟩
      paced := fun _ hu => hu.paced
      armPersist := fun _ hu => hu.armPersist hnow
      emit := fun _ seq extra payload hu => hu.emit seq extra payload
      startRtx := fun _ hu => hu.startRtx hnow
      noteRexmit := fun _ _ _ _ hu => ⟨hu.live, hu.rtx, hu.persist, hu.wait, hu.delayed⟩
      noteSent := fun _ n room hu => hu.noteSent n room
      noteFin := fun _ hu => hu.noteFin hnow }
  exact hkeeps.poll h

/-! ## The pacing deadline -/

/-- The gate takes the deadline down if a rate is reported, and may arm it for later. -/
theorem pace_gated (hnow : now.micros < Instant.u64Max) (t : Tcb κ) :
    (CongestionControl.pacingRate t.cc = none → (t.gated now).paceDeadline = t.paceDeadline) ∧
      (CongestionControl.pacingRate t.cc ≠ none → Later now (t.gated now).paceDeadline) := by
  have hsame : (t.gated now).paceDeadline = (t.paced now).paceDeadline := by
    unfold Tcb.gated
    split
    · exact congrArg (fun x => x.2.2) ((t.paced now).pacing_armPersist now)
    · rfl
  rw [hsame]
  simp only [paced, pace]
  constructor
  · intro hrate
    rw [hrate]
  · intro hrate
    cases hr : CongestionControl.pacingRate t.cc with
    | none => exact absurd hr hrate
    | some rate =>
      dsimp only
      split
      · exact later_plusMicros hnow (Nat.lt_of_lt_of_le Nat.one_pos (Nat.le_max_right _ _))
      · exact later_none

/-- What one call does to the pacing deadline: under a rate it leaves it for later, or has
not come as far as new data. -/
def Paces (t : Tcb κ) (now : Instant) (u : Tcb κ) : Prop :=
  CongestionControl.pacingRate t.cc ≠ none ∧ Later now u.paceDeadline ∨
    u.paceDeadline = t.paceDeadline ∧ (CongestionControl.pacingRate t.cc = none ∨ u.cc = t.cc)

/-- A call that comes to the gate, whatever it goes on to send. -/
theorem paces_gate (hnow : now.micros < Instant.u64Max) (h : u.paceDeadline = (t.lowered.gated now).paceDeadline) :
    Paces t now u := by
  obtain ⟨hnone, hsome⟩ := pace_gated hnow t.lowered
  by_cases hrate : CongestionControl.pacingRate t.cc = none
  · exact .inr ⟨h.trans (hnone hrate), .inl hrate⟩
  · refine .inl ⟨hrate, ?_⟩
    rw [h]
    exact hsome hrate

/-- A retransmission touches neither the deadline nor the controller. -/
theorem paces_startRtx (hp : u.pacing = t.pacing) (hc : u.cc = t.cc) : Paces t now (u.startRtx now) := by
  refine .inr ⟨?_, .inr ?_⟩
  · exact congrArg (fun x => x.2.2) ((u.pacing_startRtx now).trans hp)
  · exact (congrArg LossRecovery.cc (u.recovery_startRtx now)).trans hc

theorem paces_source (hnow : now.micros < Instant.u64Max) {q : Emit κ} (hs : Source t now q) : Paces t now q.1 := by
  cases hs with
  | resend => exact paces_startRtx rfl rfl
  | resendFin => exact paces_startRtx rfl rfl
  | repair => exact paces_startRtx rfl rfl
  | data n hn hpos =>
    have hsome : t.lowered.allowance now ≠ 0 := by
      rw [allowance_lowered]
      unfold portion at hn
      omega
    refine paces_gate hnow ?_
    rw [Tcb.gated, if_neg (fun hc => hsome hc.1)]
    refine (congrArg (fun x => x.2.2) (pacing_startRtx _ now)).trans ?_
    simp only [noteSent]
    split <;> split <;> rfl
  | probe => exact paces_gate hnow rfl
  | fin => exact paces_gate hnow (congrArg (fun x => x.2.2) (pacing_noteFin _ now))
  | quiet => exact paces_gate hnow rfl

theorem pace_poll (hnow : now.micros < Instant.u64Max) (t : Tcb κ) : Paces t now (t.pollTransmit now).1 := by
  have hkept : Paces t now t := .inr ⟨rfl, .inr rfl⟩
  have hturn := t.pollTransmit_turn now
  generalize t.pollTransmit now = q at hturn ⊢
  cases hturn with
  | rst => exact hkept
  | mute => exact hkept
  | syn => exact paces_startRtx rfl rfl
  | synAgain => exact hkept
  | synWaits => exact hkept
  | synAck => exact paces_startRtx rfl rfl
  | synAckAgain => exact hkept
  | sends _ _ hsource => exact paces_source (t := t.clocked now) hnow hsource
  | ack _ hu =>
    cases hu with
    | synReceived => exact hkept
    | timeWait => exact hkept
    | data => exact paces_gate (t := t.clocked now) hnow rfl
  | idle _ hu =>
    cases hu with
    | synReceived => exact hkept
    | timeWait => exact hkept
    | data => exact paces_gate (t := t.clocked now) hnow rfl

/-- Outside the states that send data, no call comes to the gate. -/
theorem pace_still (hno : t.state.synchronized = false) (now : Instant) :
    (t.pollTransmit now).1.paceDeadline = t.paceDeadline := by
  have hturn := t.pollTransmit_turn now
  generalize t.pollTransmit now = q at hturn ⊢
  cases hturn with
  | rst => rfl
  | mute => rfl
  | syn => exact congrArg (fun x => x.2.2) (pacing_startRtx _ now)
  | synAgain => rfl
  | synWaits => rfl
  | synAck => exact congrArg (fun x => x.2.2) (pacing_startRtx _ now)
  | synAckAgain => rfl
  | sends _ hsync => exact absurd (hsync.symm.trans hno) (by simp)
  | ack _ hu =>
    cases hu with
    | synReceived => rfl
    | timeWait => rfl
    | data hsync => exact absurd (hsync.symm.trans hno) (by simp)
  | idle _ hu =>
    cases hu with
    | synReceived => rfl
    | timeWait => rfl
    | data hsync => exact absurd (hsync.symm.trans hno) (by simp)

/-- In those states, the call that ends the drain has. -/
theorem pace_silent (hnow : now.micros < Instant.u64Max) (hsync : t.state.synchronized = true)
    (hrate : CongestionControl.pacingRate t.cc ≠ none) (h : (t.pollTransmit now).2 = none) :
    Later now (t.pollTransmit now).1.paceDeadline := by
  have hstill : ∀ st : State, st.synchronized = false → t.state ≠ st := by
    intro st hno hst
    rw [hst, hno] at hsync
    cases hsync
  have hturn := t.pollTransmit_turn now
  generalize t.pollTransmit now = q at hturn h ⊢
  cases hturn with
  | rst => cases h
  | mute _ hst => exact (hst.elim (hstill _ rfl) (hstill _ rfl)).elim
  | syn => cases h
  | synAgain => cases h
  | synWaits _ hst => exact absurd hst (hstill _ rfl)
  | synAck => cases h
  | synAckAgain => cases h
  | sends _ _ _ hsome =>
    rw [h] at hsome
    cases hsome
  | ack => cases h
  | idle _ hu =>
    cases hu with
    | synReceived hst => exact absurd hst (hstill _ rfl)
    | timeWait hst => exact absurd hst (hstill _ rfl)
    | data => exact (pace_gated hnow _).2 hrate

/-- Some call of the drain finds a controller that reports a rate. -/
def reports (now : Instant) : Nat → Tcb κ → Bool
  | 0, _ => false
  | fuel + 1, t => (CongestionControl.pacingRate t.cc).isSome ||
      (t.pollTransmit now).2.isSome && reports now fuel (t.pollTransmit now).1

omit [CongestionControl κ] in
/-- Every deadline is later than now. -/
theorem later_pollAt (h : t.Rests now) :
    (∀ d, t.pollAt = some d → now.micros < d.micros) ↔ Later now t.paceDeadline := by
  constructor
  · intro hlater x hx
    cases hd : t.pollAt with
    | none =>
      have hmem := mem_armed.mpr (.inr (.inr (.inr (.inr hx))))
      rw [pollAt_none hd] at hmem
      cases hmem
    | some d =>
      have hmem := mem_armed.mpr (.inr (.inr (.inr (.inr hx))))
      exact lt_of_lt_of_le (hlater d hd) ((pollAt_some hd).2 x hmem)
  · intro hpace d hd
    rcases mem_armed.mp (pollAt_some hd).1 with hx | hx | hx | hx | hx
    · exact h.rtx d hx
    · exact h.persist d hx
    · exact h.wait d hx
    · exact h.delayed d hx
    · exact hpace d hx

end Tcb

namespace Host

variable {κ : Type} [CongestionControl κ] {r : Host κ} {now : Instant}

/-- A transmission keeps to the states that send data, and out of them. -/
theorem Ok.poll_synchronized (hok : r.Ok) (now : Instant) :
    (r.tcb.pollTransmit now).1.state.synchronized = r.tcb.state.synchronized := by
  rcases hok.poll_state now with h | ⟨h, h'⟩ | ⟨h, h'⟩
  · rw [h]
  · rw [h, h']
    rfl
  · rw [h, h']
    rfl

/-- The drain of a well-formed host. -/
theorem drain_settles (hok : r.Ok) (hrests : r.tcb.Rests now) (hnow : now.micros < Instant.u64Max) {fuel : Nat}
    {t : Tcb κ} {out : List Datagram} (hd : r.tcb.drain now fuel = some (t, out)) :
    t.Rests now ∧ (Tcb.Later now t.paceDeadline ↔ Tcb.Later now r.tcb.paceDeadline ∨
      r.tcb.state.synchronized = true ∧ r.tcb.reports now fuel = true) := by
  induction fuel generalizing r out with
  | zero => cases hd
  | succ fuel ih =>
    have hpaces := Tcb.pace_poll hnow r.tcb
    have hsync := hok.poll_synchronized now
    rw [Tcb.drain] at hd
    rw [Tcb.reports]
    cases hs : r.tcb.state.synchronized with
    | false =>
      -- no call comes to the gate
      have hkept := Tcb.pace_still hs now
      rw [hs] at hsync
      split at hd
      · cases hd
        refine ⟨hrests.poll hnow, ?_⟩
        rw [hkept]
        simp
      · obtain ⟨q, hq, he⟩ := Option.map_eq_some_iff.mp hd
        cases he
        obtain ⟨hlast, hiff⟩ := ih (r := r.follow (r.tcb.pollTransmit now).1) (hok.poll now) (hrests.poll hnow) hq
        refine ⟨hlast, hiff.trans ?_⟩
        rw [follow_tcb, hkept, hsync]
        simp
    | true =>
      rw [hs] at hsync
      split at hd
      · rename_i hnone
        cases hd
        refine ⟨hrests.poll hnow, ?_⟩
        rw [hnone]
        by_cases hrate : CongestionControl.pacingRate r.tcb.cc = none
        · have hkept : (r.tcb.pollTransmit now).1.paceDeadline = r.tcb.paceDeadline := by
            rcases hpaces with ⟨hsome, -⟩ | ⟨hkept, -⟩
            · exact absurd hrate hsome
            · exact hkept
          rw [hkept, hrate]
          simp
        · have hlater := Tcb.pace_silent hnow hs hrate hnone
          have hsome := Option.isSome_iff_ne_none.mpr hrate
          simp [hlater, hsome]
      · rename_i d hd'
        obtain ⟨q, hq, he⟩ := Option.map_eq_some_iff.mp hd
        cases he
        obtain ⟨hlast, hiff⟩ := ih (r := r.follow (r.tcb.pollTransmit now).1) (hok.poll now) (hrests.poll hnow) hq
        refine ⟨hlast, hiff.trans ?_⟩
        rw [follow_tcb, hsync, hd']
        rcases hpaces with ⟨hrate, hlater⟩ | ⟨hkept, hcc⟩
        · have hsome := Option.isSome_iff_ne_none.mpr hrate
          simp [hlater, hsome]
        · rw [hkept]
          rcases hcc with hrate | hcc
          · simp [hrate]
          · -- a call that leaves the controller alone leaves the report to the next one
            cases fuel with
            | zero => cases hq
            | succ fuel =>
              simp only [Tcb.reports, hcc, Option.isSome_some, Bool.true_and]
              rw [← Bool.or_assoc, Bool.or_self]

/-- The timers of a reachable host are at rest once they have fired. -/
theorem live_run {r₀ : Host κ} {is : List Input} (h0 : r₀.Opens) (hr : Run.run step r₀ is = some r) :
    r.tcb.rtt.Live := by
  refine Run.run_invariant (I := fun r : Host κ => r.tcb.rtt.Live) (fun s i s' hs he => ?_) ?_ hr
  · cases he
    cases i with
    | segment seg now ce => exact Tcb.live_onSegment hs now seg.tcp ce
    | send data =>
      change (s.tcb.send data).1.rtt.Live
      unfold Tcb.send
      split <;> exact hs
    | recv n => exact hs
    | close => exact hs
    | timer now => exact Tcb.live_onTimer hs now
    | poll now => exact (Tcb.rtt_poll s.tcb now).symm ▸ hs
  · have hnew : ∀ (u : Tcb κ) (kind : CcKind), (u.setCongestionControl kind).rtt = u.rtt := by
      intro u kind
      unfold Tcb.setCongestionControl
      split <;> rfl
    cases h0 with
    | active => exact (hnew _ _).symm ▸ RttEstimator.live_new
    | passive => exact (hnew _ _).symm ▸ RttEstimator.live_new

/-- What is closed stays closed. -/
theorem drain_closed (hok : r.Ok) (hst : r.tcb.state = .closed) {fuel : Nat} {t : Tcb κ} {out : List Datagram}
    (hd : r.tcb.drain now fuel = some (t, out)) : t.state = .closed := by
  induction fuel generalizing r out with
  | zero => cases hd
  | succ fuel ih =>
    have hnext : (r.tcb.pollTransmit now).1.state = .closed := by
      rcases hok.poll_state now with h | ⟨h, -⟩ | ⟨h, -⟩
      · exact h.trans hst
      · exact absurd (h.symm.trans hst) (by simp)
      · exact absurd (h.symm.trans hst) (by simp)
    rw [Tcb.drain] at hd
    split at hd
    · cases hd
      exact hnext
    · obtain ⟨q, hq, he⟩ := Option.map_eq_some_iff.mp hd
      cases he
      exact ih (r := r.follow (r.tcb.pollTransmit now).1) (hok.poll now) hnext hq

/-- For every state that a run reaches, with any controller: once the timers have fired
and the drain has ended, every deadline is later than now exactly if the pacing deadline
was not due, or some call of the drain has found a controller that reports a rate, in a
state that sends data. -/
theorem timers_settle {r₀ : Host κ} {is : List Input} (h0 : r₀.Opens) (hr : Run.run step r₀ is = some r)
    (hnow : now.micros < Instant.u64Max) {fuel : Nat} (hfuel : (r.tcb.onTimer now).workload < fuel) :
    ∃ (t : Tcb κ) (out : List Datagram), (r.tcb.onTimer now).drain now fuel = some (t, out) ∧
      (t.state ≠ .closed → ((∀ d, t.pollAt = some d → now.micros < d.micros) ↔
        now.due r.tcb.paceDeadline = false ∨
          (r.tcb.onTimer now).state.synchronized = true ∧ (r.tcb.onTimer now).reports now fuel = true)) := by
  have hfired : Run.run step r₀ (is ++ [.timer now]) = some (r.input (.timer now)).1 :=
    Run.run_append.mpr ⟨r, hr, rfl⟩
  obtain ⟨hok, hboard⟩ := board_run h0 hfired
  obtain ⟨t, out, hd, -⟩ := drain_some hok hboard now hfuel
  refine ⟨t, out, hd, fun hopen => ?_⟩
  have htimed := (timed_run h0.timed h0.ok hr).2
  rcases Tcb.rests_onTimer (live_run h0 hr) htimed.backoff hnow with hclosed | hrests
  · exact absurd (drain_closed hok hclosed hd) hopen
  · obtain ⟨hlast, hiff⟩ := drain_settles hok hrests hnow hd
    have hsame : (r.tcb.onTimer now).paceDeadline = r.tcb.paceDeadline :=
      congrArg (fun x => x.2.2) (r.tcb.pacing_onTimer now)
    rw [Tcb.later_pollAt hlast, hiff, ← Tcb.later_iff_due, ← hsame]
    rfl

/-- The pacing deadline has passed and the rate is still reported: the drain sends, and arms it
again for later. -/
theorem timers_settle_metered : ∃ r : Host Metronome,
    Run.run step metered (settled ++ polled 3000 [10000, 10000, 10000]) = some r ∧
      (⟨12000⟩ : Instant).due r.tcb.paceDeadline = true ∧
      ∃ (t : Tcb Metronome) (out : List Datagram),
        (r.tcb.onTimer ⟨12000⟩).drain ⟨12000⟩ ((r.tcb.onTimer ⟨12000⟩).workload + 1) = some (t, out) ∧
          (t.state ≠ .closed → ∀ d, t.pollAt = some d → (⟨12000⟩ : Instant).micros < d.micros) := by
  obtain ⟨r, hr, hdue, hsync, hrate⟩ := Run.exists_run step metered (settled ++ polled 3000 [10000, 10000, 10000])
    (fun r => (⟨12000⟩ : Instant).due r.tcb.paceDeadline = true ∧
      (r.tcb.onTimer ⟨12000⟩).state.synchronized = true ∧
      (CongestionControl.pacingRate (r.tcb.onTimer ⟨12000⟩).cc).isSome = true) (by decide +kernel)
  have hfirst : (r.tcb.onTimer ⟨12000⟩).reports ⟨12000⟩ ((r.tcb.onTimer ⟨12000⟩).workload + 1) = true := by
    rw [Tcb.reports, hrate, Bool.true_or]
  have hnow : (⟨12000⟩ : Instant).micros < Instant.u64Max := by decide
  obtain ⟨t, out, hd, hiff⟩ := timers_settle metered_opens hr hnow (Nat.lt_succ_self _)
  exact ⟨r, hr, hdue, t, out, hd, fun hopen => (hiff hopen).mpr (.inr ⟨hsync, hfirst⟩)⟩

/-! ## A deadline that nothing takes down -/

/-- A controller that reports its rate until the first acknowledgement. -/
structure Lapsing where
  window : Nat
  rate : Option Nat
  deriving DecidableEq

instance : CongestionControl Lapsing where
  new _ mss := ⟨initialWindow mss, some 500000⟩
  cwnd c := c.window
  onAck c _ _ := { c with rate := none }
  onDupAck c _ _ := (c, false)
  enterRecovery c _ _ := c
  onRto c _ _ := c
  pacingRate c := c.rate

/-- A host that has accepted the SYN under it. -/
def lapsing : Host Lapsing :=
  fresh ((Tcb.newSynReceived ⟨2, 80⟩ ⟨1, 1000⟩ peerSyn (SeqNumber.new 100) ⟨0⟩ 65495).setCongestionControl
    .bbr)

/-- The burst allowance goes out and the pacing timer is armed; then the rate lapses. -/
def lapsed : List Input :=
  settled ++ polled 3000 [10000, 10000, 10000] ++ [bareAck 637 [] ⟨10500⟩]

/-- It is due, it does not fire, and `poll_at` goes on returning it. -/
theorem stale_spins : lapsing.Opens ∧ ∃ r : Host Lapsing, Run.run step lapsing lapsed = some r ∧
    ∃ (t : Tcb Lapsing) (out : List Datagram),
      (r.tcb.onTimer ⟨12000⟩).drain ⟨12000⟩ 12 = some (t, out) ∧ t.state ≠ .closed ∧
        t.pollAt = some ⟨11072⟩ := by
  refine ⟨.passive .., ?_⟩
  obtain ⟨r, hr, hany⟩ := Run.exists_run step lapsing lapsed
    (fun r => ((r.tcb.onTimer ⟨12000⟩).drain ⟨12000⟩ 12).any
      (fun q => decide (q.1.state ≠ .closed ∧ q.1.pollAt = some ⟨11072⟩)) = true) (by decide +kernel)
  obtain ⟨q, hd, hq⟩ := (Option.any_eq_true _ _).mp hany
  obtain ⟨hopen, hpoll⟩ := of_decide_eq_true hq
  exact ⟨r, hr, q.1, q.2, hd, hopen, hpoll⟩

end Host

end Ferrumnet
