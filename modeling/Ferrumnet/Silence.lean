import Mathlib.Data.List.ReduceOption
import Ferrumnet.Deadlines
import Ferrumnet.Closing

/-
  A connection whose peer has gone silent.

  Nothing arrives and the application makes no call; the timers fire at the
  earliest deadline and the Tcb transmits, turn after turn.

  1. `closes_synSent`, `closes_finWait2` — the retry budget of the SYN and the
     closing timer of FIN-WAIT-2 end the connection, each by a measure.
  2. `stays_open` — in the other states nothing does.
  3. `silent_peer` — which of the two holds, for every history.
-/

namespace Ferrumnet

namespace Tcb

variable {κ : Type} {t u : Tcb κ} {now d : Instant}

/-! ## The earliest deadline -/

/-- What `poll_at` ranges over. -/
def armed (t : Tcb κ) : List Instant :=
  [t.rtxDeadline, t.persistDeadline, t.timeWaitDeadline, t.delayedAckDeadline,
    t.paceDeadline].reduceOption

def earlier (best : Option Instant) (d : Instant) : Option Instant :=
  match best with
  | none => some d
  | some b => some (if d.micros < b.micros then d else b)

theorem foldl_earlier (ds : List Instant) (b : Instant) :
    ∃ e, ds.foldl earlier (some b) = some e ∧ e ∈ b :: ds ∧ ∀ x ∈ b :: ds, e.micros ≤ x.micros := by
  induction ds generalizing b with
  | nil => exact ⟨b, rfl, by simp, by simp⟩
  | cons d ds ih =>
    obtain ⟨e, he, hmem, hmin⟩ := ih (if d.micros < b.micros then d else b)
    refine ⟨e, he, ?_, ?_⟩
    · split at hmem
      · exact List.mem_cons_of_mem _ hmem
      · rcases List.mem_cons.mp hmem with rfl | hin
        · exact List.mem_cons_self
        · exact List.mem_cons_of_mem _ (List.mem_cons_of_mem _ hin)
    · have hhead := hmin _ List.mem_cons_self
      intro x hx
      rcases List.mem_cons.mp hx with rfl | hx
      · split at hhead <;> omega
      rcases List.mem_cons.mp hx with rfl | hx
      · split at hhead <;> omega
      · exact hmin x (List.mem_cons_of_mem _ hx)

theorem pollAt_none (h : t.pollAt = none) : t.armed = [] := by
  change t.armed.foldl earlier none = none at h
  generalize t.armed = ds at h
  cases ds with
  | nil => rfl
  | cons d ds =>
    obtain ⟨e, he, -⟩ := foldl_earlier ds d
    exact absurd (he.symm.trans h) (by simp)

theorem pollAt_some (h : t.pollAt = some d) : d ∈ t.armed ∧ ∀ x ∈ t.armed, d.micros ≤ x.micros := by
  change t.armed.foldl earlier none = some d at h
  generalize t.armed = ds at h ⊢
  cases ds with
  | nil => cases h
  | cons b ds =>
    obtain ⟨e, he, hmem, hmin⟩ := foldl_earlier ds b
    cases he.symm.trans h
    exact ⟨hmem, hmin⟩

theorem mem_armed : d ∈ t.armed ↔ t.rtxDeadline = some d ∨ t.persistDeadline = some d ∨
    t.timeWaitDeadline = some d ∨ t.delayedAckDeadline = some d ∨ t.paceDeadline = some d := by
  simp [armed, List.reduceOption_mem_iff, eq_comm]

variable [CongestionControl κ]

/-! ## A Tcb in SYN-SENT -/

/-- The retries left, and what has to go out before the next one. -/
def tries (t : Tcb κ) : ℕ :=
  (maxSynRetries - t.synRetries) + (if t.rtxDeadline = none then 1 else 0) +
    (if t.pendingReset = none then 0 else 1)

/-- A timeout is one retry less. -/
theorem tries_onTimer (h : t.Dialing) (hst : t.state = .synSent) (hw : t.timeWaitDeadline = none)
    (hd : t.rtxDeadline = some d) :
    (t.onTimer d).state = .closed ∨ (t.onTimer d).state = .synSent ∧ (t.onTimer d).tries < t.tries := by
  have honly : t.onTimer d = t.synTimeout d := by
    have hrtx : t.onRtxTimer d = t.synTimeout d := by simp [onRtxTimer, hd, hst, Instant.due]
    have hrest : (t.synTimeout d).persistDeadline = none ∧ (t.synTimeout d).timeWaitDeadline = none ∧
        (t.synTimeout d).delayedAckDeadline = none := by
      simp only [synTimeout]
      split <;> exact ⟨h.persist, hw, h.delayed⟩
    rw [onTimer, hrtx]
    simp [onPersistTimer, onTimeWaitTimer, onDelayedAckTimer, hrest, Instant.due]
  rw [honly]
  simp only [synTimeout]
  split
  · exact .inl rfl
  · rename_i hleft
    refine .inr ⟨hst, ?_⟩
    have hless : maxSynRetries - (t.synRetries + 1) < maxSynRetries - t.synRetries :=
      Nat.sub_lt_sub_left h.retries (Nat.lt_succ_self _)
    simp only [tries, restartRtx, hd, reduceCtorEq, if_false, add_zero]
    exact Nat.add_lt_add_right hless _

/-- A transmission takes no retry, and before the first SYN it gets one step nearer to it. -/
theorem tries_poll (h : t.Dialing) (hst : t.state = .synSent) (now : Instant) :
    (t.pollTransmit now).1.tries ≤ t.tries ∧
      (t.rtxDeadline = none → (t.pollTransmit now).1.tries < t.tries) := by
  cases hreset : t.pendingReset with
  | some seq =>
    simp only [pollTransmit, hreset, tries]
    simp
  | none =>
    have hne : t.rtxDeadline ≠ none → t.sndNxt ≠ t.iss := fun hs he => hs (h.rtx.mpr he)
    simp only [pollTransmit, hreset, hst, pollSynSent]
    split
    · rename_i hfirst
      have hnone := h.rtx.mpr hfirst
      simp [startRtx, hnone, tries, hreset]
    · rename_i hsent
      have hsome : t.rtxDeadline ≠ none := fun hn => hsent (h.rtx.mp hn)
      split <;> exact ⟨by simp [tries, hreset], fun hn => absurd hn hsome⟩

/-! ## A Tcb in FIN-WAIT-2 -/

/-- Everything is acknowledged, the FIN included. -/
structure Drained (t : Tcb κ) : Prop where
  state : t.state = .finWait2
  inflight : t.inflight = 0
  empty : t.tx.len = 0
  acked : t.finAcked = true
  rtx : t.rtxDeadline = none

/-- What a transmission does to a drained Tcb. An owed RST goes out before pacing
has its turn. -/
structure Lulls (t u : Tcb κ) : Prop where
  cc : u.cc = t.cc
  wait : u.timeWaitDeadline = t.timeWaitDeadline
  persist : u.persistDeadline = t.persistDeadline
  delayed : u.delayedAckDeadline = none ∨ u.delayedAckDeadline = t.delayedAckDeadline
  reset : u.pendingReset = none
  pace : u.paceDeadline = if t.pendingReset = none ∧ CongestionControl.pacingRate t.cc ≠ none then none
    else t.paceDeadline

/-- There is nothing to send, so pacing only takes its timer down. -/
theorem pace_idle (h : t.unsentData = 0) (now : Instant) (a : Nat) :
    ∃ k l, (t.pace now a).1 =
      { t with paceDeadline := if CongestionControl.pacingRate t.cc ≠ none then none else t.paceDeadline
               paceTokens := k, paceLast := l } := by
  simp only [pace]
  split
  · rename_i hrate
    exact ⟨t.paceTokens, t.paceLast, by simp [hrate]⟩
  · rename_i rate hrate
    rw [if_neg ?_]
    · simp only [hrate, ne_eq, reduceCtorEq, not_false_eq_true, if_true]
      exact ⟨_, _, rfl⟩
    · intro hc
      simp only [Bool.and_eq_true, decide_eq_true_eq] at hc
      exact absurd hc.2 (Nat.not_lt_of_le (Nat.le_of_eq h))

/-- A drained Tcb has no text and no FIN to send. -/
theorem Drained.transmit (h : t.Drained) :
    t.transmitDataOrFin now = ((t.pace now (min t.cwndRoom t.rwndRoom)).1, none) := by
  have hunsent : t.unsentData = 0 := by simp [unsentData, h.empty]
  have hskip0 : t.retransmitOldest now = (t, none) := by
    simp [retransmitOldest, h.inflight]
  have hskip1 : t.sackRetransmit now = (t, none) := by
    have h0 : t.sndNxt.offsetFrom t.sndUna = 0 := h.inflight
    have hnone : t.scoreboard.nextSeg t.sndUna t.sndNxt t.sndMss = none := by
      simp only [Scoreboard.nextSeg, h0, Scoreboard.findLoop]
      split
      · rfl
      · split <;> rfl
    simp only [sackRetransmit, hnone, ite_self]
  have hpace := t.pace_core now (min t.cwndRoom t.rwndRoom)
  have hskip2 : t.sendNewData now = ((t.pace now (min t.cwndRoom t.rwndRoom)).1, none) := by
    obtain ⟨k, l, he⟩ := pace_idle hunsent now (min t.cwndRoom t.rwndRoom)
    have hnone : (t.pace now (min t.cwndRoom t.rwndRoom)).1.unsentData = 0 := by
      rw [he]
      exact hunsent
    simp only [sendNewData]
    generalize t.pace now (min t.cwndRoom t.rwndRoom) = q at hnone ⊢
    split
    · simp [sendAllowed, hnone]
    · simp [hunsent]
  have hskip3 : (t.pace now (min t.cwndRoom t.rwndRoom)).1.sendFin now =
      ((t.pace now (min t.cwndRoom t.rwndRoom)).1, none) := by
    have hack : (t.pace now (min t.cwndRoom t.rwndRoom)).1.finAcked = true :=
      (congrArg (fun c : Core => c.finAcked) hpace.1).trans h.acked
    simp [sendFin, hack]
  rw [transmitDataOrFin, hskip0]
  change Emit.orElse (Emit.orElse (t.sackRetransmit now) _) _ = _
  rw [hskip1]
  change Emit.orElse (t.sendNewData now) _ = _
  rw [hskip2]
  exact hskip3

theorem Drained.poll (h : t.Drained) (now : Instant) : Lulls t (t.pollTransmit now).1 := by
  suffices hu : Lulls { t with curTsval := BitVec.ofNat 32 now.micros } (t.pollTransmit now).1 from
    ⟨hu.cc, hu.wait, hu.persist, hu.delayed, hu.reset, hu.pace⟩
  have hd : Drained ({ t with curTsval := BitVec.ofNat 32 now.micros } : Tcb κ) :=
    ⟨h.state, h.inflight, h.empty, h.acked, h.rtx⟩
  unfold pollTransmit
  generalize ({ t with curTsval := BitVec.ofNat 32 now.micros } : Tcb κ) = u at hd ⊢
  cases hreset : u.pendingReset with
  | some seq =>
    simp only [hreset]
    exact ⟨rfl, rfl, rfl, .inr rfl, rfl, by simp [hreset]⟩
  | none =>
    have hunsent : u.unsentData = 0 := by simp [unsentData, hd.empty]
    simp only [hreset, hd.state, hd.transmit, Emit.orElse]
    have hpace : Lulls u (u.pace now (min u.cwndRoom u.rwndRoom)).1 := by
      obtain ⟨k, l, he⟩ := pace_idle hunsent now (min u.cwndRoom u.rwndRoom)
      rw [he]
      exact ⟨rfl, rfl, rfl, .inr rfl, hreset, by simp [hreset]⟩
    generalize (u.pace now (min u.cwndRoom u.rwndRoom)).1 = v at hpace ⊢
    unfold emitOwedAck
    split
    · exact ⟨hpace.cc, hpace.wait, hpace.persist, .inl rfl, hpace.reset, hpace.pace⟩
    · exact hpace

/-- What the other timers do before the closing timer is due. -/
structure Fires (t u : Tcb κ) (d : Instant) : Prop where
  core : u.core = t.core
  cc : u.cc = t.cc
  rtx : u.rtxDeadline = none
  wait : u.timeWaitDeadline = t.timeWaitDeadline
  persist : u.persistDeadline = if d.due t.persistDeadline then
    some (d.plusMillis (min (t.persistBackoff * 2) persistMaxMillis)) else t.persistDeadline
  delayed : u.delayedAckDeadline = if d.due t.delayedAckDeadline then none else t.delayedAckDeadline
  reset : u.pendingReset = t.pendingReset
  pace : u.paceDeadline = t.paceDeadline

theorem Drained.onTimer (h : t.Drained) (hd : d.due t.timeWaitDeadline = false) :
    Fires t (t.onTimer d) d := by
  have hskip : t.onRtxTimer d = t := by simp [onRtxTimer, h.rtx, Instant.due]
  have hwait : (t.onPersistTimer d).onTimeWaitTimer d = t.onPersistTimer d := by
    have hsame : (t.onPersistTimer d).timeWaitDeadline = t.timeWaitDeadline :=
      congrArg Prod.snd (t.alarms_onPersistTimer d)
    simp [onTimeWaitTimer, hsame, hd]
  rw [Tcb.onTimer, hskip, hwait]
  simp only [onPersistTimer, onDelayedAckTimer]
  split <;> split <;> exact ⟨rfl, rfl, h.rtx, rfl, by simp [*], by simp [*], rfl, rfl⟩

/-- When it is due, the connection is closed. -/
theorem onTimer_due (h : d.due t.timeWaitDeadline = true) : (t.onTimer d).state = .closed := by
  have hsame : ((t.onRtxTimer d).onPersistTimer d).timeWaitDeadline = t.timeWaitDeadline := by
    have halarms : ((t.onRtxTimer d).onPersistTimer d).alarms = t.alarms := by simp
    exact congrArg Prod.snd halarms
  have hcore := core_onDelayedAckTimer (((t.onRtxTimer d).onPersistTimer d).onTimeWaitTimer d) d
  rw [Tcb.onTimer]
  refine (congrArg Core.state hcore).trans ?_
  rw [onTimeWaitTimer, hsame, if_pos h]
  rfl

/-- A pacing deadline that comes before the closing timer, left behind by a controller
that has stopped pacing: nothing takes it down. -/
def Stale (t : Tcb κ) : Prop :=
  CongestionControl.pacingRate t.cc = none ∧
    ∃ p d, t.paceDeadline = some p ∧ t.timeWaitDeadline = some d ∧ p.micros < d.micros

/-- How far one deadline is from another, 0 if it is past it. -/
def distance : Option Instant → Option Instant → ℕ
  | some p, some d => d.micros - p.micros
  | _, _ => 0

/-- The distance from the persist timer to the closing timer, and what else can fire
or go out before it. -/
def patience (t : Tcb κ) : ℕ :=
  distance t.persistDeadline t.timeWaitDeadline + (if t.delayedAckDeadline = none then 0 else 1) +
    (if t.pendingReset = none then 0 else 1) + (if t.paceDeadline = none then 0 else 1)

/-- A turn before the closing timer is due leaves a stale pacing deadline, and makes none. -/
theorem Fires.stale {v : Tcb κ} (hf : Fires t v d) (hl : Lulls v u) : u.Stale ↔ t.Stale := by
  have hcc : u.cc = t.cc := hl.cc.trans hf.cc
  have hw : u.timeWaitDeadline = t.timeWaitDeadline := hl.wait.trans hf.wait
  unfold Stale
  rw [hcc, hw]
  refine and_congr_right fun hrate => ?_
  have hp : u.paceDeadline = t.paceDeadline := by
    rw [hl.pace, hf.cc, hf.pace, if_neg (by simp [hrate])]
  rw [hp]

/-- Every turn before the closing timer is due comes nearer to it. -/
theorem Fires.nearer {v : Tcb κ} {D : Instant} (hf : Fires t v d) (hl : Lulls v u) (hrtx : t.rtxDeadline = none)
    (hback : 0 < t.persistBackoff) (hD : t.timeWaitDeadline = some D) (hmax : D.micros ≤ Instant.u64Max)
    (hmem : d ∈ t.armed) (hmin : ∀ x ∈ t.armed, d.micros ≤ x.micros) (hlt : d.micros < D.micros)
    (hs : ¬ t.Stale) : u.patience < t.patience := by
  have hpersist : distance u.persistDeadline u.timeWaitDeadline ≤ distance t.persistDeadline t.timeWaitDeadline ∧
      (t.persistDeadline = some d →
        distance u.persistDeadline u.timeWaitDeadline < distance t.persistDeadline t.timeWaitDeadline) := by
    rw [hl.persist, hf.persist, hl.wait, hf.wait, hD]
    cases hp : t.persistDeadline with
    | none => exact ⟨Nat.le_refl _, fun he => by cases he⟩
    | some p =>
      have hdp : d.micros ≤ p.micros := hmin p (mem_armed.mpr (.inr (.inl hp)))
      simp only [Instant.due, decide_eq_true_eq]
      split
      · -- it has fired, and starts again at a later time
        have hmore : 0 < min (min (t.persistBackoff * 2) persistMaxMillis * 1000) Instant.u64Max := by
          have h1 : persistMaxMillis = 60000 := rfl
          have h2 : Instant.u64Max = 18446744073709551615 := rfl
          omega
        simp only [distance, Instant.plusMillis]
        generalize min (min (t.persistBackoff * 2) persistMaxMillis * 1000) Instant.u64Max = k at hmore
        omega
      · rename_i hnot
        exact ⟨Nat.le_refl _, fun he => absurd (by cases he; exact Nat.le_refl _) hnot⟩
  have hdelayed : (if u.delayedAckDeadline = none then 0 else 1) ≤ (if t.delayedAckDeadline = none then 0 else 1) ∧
      (t.delayedAckDeadline = some d → u.delayedAckDeadline = none) := by
    rcases hl.delayed with he | he
    · rw [he]
      exact ⟨by simp, fun _ => rfl⟩
    · rw [he, hf.delayed]
      split
      · exact ⟨by simp, fun _ => rfl⟩
      · rename_i hnot
        refine ⟨Nat.le_refl _, fun he => absurd ?_ hnot⟩
        simp [he, Instant.due]
  have hpace : (if u.paceDeadline = none then 0 else 1) ≤ (if t.paceDeadline = none then 0 else 1) ∧
      (t.pendingReset = none → t.paceDeadline = some d → u.paceDeadline = none) := by
    rw [hl.pace, hf.pace, hf.reset, hf.cc]
    split
    · exact ⟨by simp, fun _ _ => rfl⟩
    · rename_i hnot
      refine ⟨Nat.le_refl _, fun hr hp => absurd ⟨hr, fun hrate => ?_⟩ hnot⟩
      exact hs ⟨hrate, d, D, hp, hD, hlt⟩
  have hreset : (if u.pendingReset = none then 0 else 1) = 0 := by rw [hl.reset]; rfl
  simp only [patience, hreset]
  rcases mem_armed.mp hmem with h | h | h | h | h
  · exact absurd (h.symm.trans hrtx) (by simp)
  · have := hpersist.2 h
    omega
  · cases h.symm.trans hD
    omega
  · have h1 := hdelayed.2 h
    have h2 := hpersist.1
    simp only [h1, if_true, h, reduceCtorEq, if_false]
    omega
  · have h2 := hpersist.1
    by_cases hr : t.pendingReset = none
    · have h1 := hpace.2 hr h
      simp only [h1, if_true, h, reduceCtorEq, if_false]
      omega
    · simp only [hr, if_false]
      omega

end Tcb

namespace Host

variable {κ : Type} [CongestionControl κ] {r : Host κ} {now : Instant}

/-- The timers fire at the earliest deadline, then the Tcb transmits; with no timer
armed it only transmits. -/
def turn (q : Host κ × Instant) : Host κ × Instant :=
  match q.1.tcb.pollAt with
  | some d => (((q.1.input (.timer d)).1.input (.poll d)).1, d)
  | none => ((q.1.input (.poll q.2)).1, q.2)

/-- What holds of a host between its turns. -/
structure Standing (r : Host κ) : Prop where
  ok : r.Ok
  agrees : r.tcb.core.Agrees
  timed : r.Timed

theorem Standing.input (h : r.Standing) (i : Input) : (r.input i).1.Standing :=
  ⟨h.ok.input i, h.ok.agrees h.agrees i, h.timed.input h.ok i⟩

theorem Standing.turn (h : r.Standing) (now : Instant) : (Host.turn (r, now)).1.Standing := by
  unfold Host.turn
  split
  · exact (h.input _).input _
  · exact h.input _

/-! ## The states that do not end -/

/-- The states in which neither the retry budget nor the closing timer counts. -/
def Endless (st : State) : Prop :=
  st = .synReceived ∨ st = .finWait1 ∨ st = .closing ∨ st = .lastAck

theorem Standing.endless (h : r.Standing) (hst : Endless r.tcb.state) (now : Instant) :
    (Host.turn (r, now)).1.tcb.state = r.tcb.state := by
  have hne : r.tcb.state ≠ .synSent ∧ r.tcb.state ≠ .established ∧ r.tcb.state ≠ .closeWait ∧
      r.tcb.state ≠ .finWait2 ∧ r.tcb.state ≠ .timeWait ∧ r.tcb.state ≠ .closed := by
    rcases hst with hst | hst | hst | hst <;> rw [hst] <;> decide
  have hwait : r.tcb.timeWaitDeadline = none := by
    by_contra hs
    have := h.timed.only (Option.ne_none_iff_isSome.mp hs)
    exact this.elim hne.2.2.2.1 fun h => h.elim hne.2.2.2.2.1 hne.2.2.2.2.2
  unfold Host.turn
  split
  · rename_i d _
    have htimer : (r.input (.timer d)).1.tcb.state = r.tcb.state :=
      congrArg Core.state (r.tcb.onTimer_calm d hwait hne.1).1
    rcases (h.input (.timer d)).ok.poll_state d with hs | ⟨hs, -⟩ | ⟨hs, -⟩
    · exact hs.trans htimer
    · exact absurd (htimer.symm.trans hs) hne.2.1
    · exact absurd (htimer.symm.trans hs) hne.2.2.1
  · rcases h.ok.poll_state now with hs | ⟨hs, -⟩ | ⟨hs, -⟩
    · exact hs
    · exact absurd hs hne.2.1
    · exact absurd hs hne.2.2.1

/-- However many turns pass, the connection stays where it is. -/
theorem Standing.stays_open (h : r.Standing) (hst : Endless r.tcb.state) (now : Instant) (n : ℕ) :
    (Host.turn^[n] (r, now)).1.tcb.state = r.tcb.state := by
  let I (q : Host κ × Instant) : Prop := q.1.Standing ∧ q.1.tcb.state = r.tcb.state
  have hkeep : ∀ q, I q → I (Host.turn q) := by
    intro q hq
    have hsame := hq.1.endless (by rw [hq.2]; exact hst) q.2
    exact ⟨hq.1.turn q.2, hsame.trans hq.2⟩
  have hn : I (Host.turn^[n] (r, now)) := Function.Iterate.rec I ⟨h, rfl⟩ hkeep n
  exact hn.2

/-! ## SYN-SENT -/

omit [CongestionControl κ] in
theorem Standing.no_wait (h : r.Standing) (hst : r.tcb.state = .synSent) : r.tcb.timeWaitDeadline = none := by
  by_contra hs
  have hin := h.timed.only (Option.ne_none_iff_isSome.mp hs)
  rw [hst] at hin
  simp at hin

/-- Every turn in SYN-SENT uses up a try. -/
theorem Standing.dials (h : r.Standing) (hst : r.tcb.state = .synSent) (now : Instant) :
    (Host.turn (r, now)).1.tcb.state = .closed ∨
      (Host.turn (r, now)).1.tcb.state = .synSent ∧ (Host.turn (r, now)).1.tcb.tries < r.tcb.tries := by
  have hd := h.timed.dialing hst
  have hwait := h.no_wait hst
  have hstay : ∀ s : Host κ, s.Standing → s.tcb.state = .synSent → ∀ d,
      (s.input (.poll d)).1.tcb.state = .synSent := by
    intro s hs hst d
    rcases hs.ok.poll_state d with h1 | ⟨h1, -⟩ | ⟨h1, -⟩
    · exact h1.trans hst
    · exact absurd (hst.symm.trans h1) (by simp)
    · exact absurd (hst.symm.trans h1) (by simp)
  unfold Host.turn
  split
  · rename_i d hat
    have hrtx : r.tcb.rtxDeadline = some d := by
      have hmem := (Tcb.pollAt_some hat).1
      rw [Tcb.mem_armed, hd.persist, hwait, hd.delayed, hd.pace] at hmem
      simpa using hmem
    have hs := h.input (.timer d)
    rcases Tcb.tries_onTimer hd hst hwait hrtx with hc | ⟨hst', hlt⟩
    · exact .inl (input_closed hs.ok hc (.poll d))
    · have hle := (Tcb.tries_poll (hs.timed.dialing hst') hst' d).1
      exact .inr ⟨hstay _ hs hst' d, hle.trans_lt hlt⟩
  · rename_i hat
    have hrtx : r.tcb.rtxDeadline = none := by
      have hnil := Tcb.pollAt_none hat
      cases hr : r.tcb.rtxDeadline with
      | none => rfl
      | some d =>
        have hmem : d ∈ r.tcb.armed := Tcb.mem_armed.mpr (.inl hr)
        rw [hnil] at hmem
        cases hmem
    exact .inr ⟨hstay _ h hst now, (Tcb.tries_poll hd hst now).2 hrtx⟩

/-- The retries run out. -/
theorem Standing.closes_synSent (h : r.Standing) (hst : r.tcb.state = .synSent) (now : Instant) :
    ∃ n, (Host.turn^[n] (r, now)).1.tcb.state = .closed := by
  let I (q : Host κ × Instant) : Prop := q.1.Standing ∧ q.1.tcb.state = .synSent
  have hturn : ∀ q, I q → (Host.turn q).1.tcb.state = .closed ∨
      I (Host.turn q) ∧ (Host.turn q).1.tcb.tries < q.1.tcb.tries := by
    intro q hq
    refine (hq.1.dials hq.2 q.2).imp id fun hs => ?_
    exact ⟨⟨hq.1.turn q.2, hs.1⟩, hs.2⟩
  exact Run.exists_iterate (G := fun q : Host κ × Instant => q.1.tcb.state = .closed)
    (fun q => q.1.tcb.tries) hturn (show I (r, now) from ⟨h, hst⟩)

/-! ## FIN-WAIT-2 -/

omit [CongestionControl κ] in
theorem Standing.drained (h : r.Standing) (hst : r.tcb.state = .finWait2) : r.tcb.Drained := by
  have hflags : Flags r.tcb.state r.tcb.peerFinSeen r.tcb.finSeq r.tcb.finAcked := h.agrees
  rw [hst] at hflags
  obtain ⟨f, hf⟩ := h.ok.fin_sent hflags.2
  obtain ⟨-, -, hend, hacked⟩ := h.ok.sending.finished f hf
  have hall := hacked.mp hflags.2
  have hlen := h.ok.sending.tx_len
  have hout : r.tcb.inflight = 0 := by
    change r.tcb.toSendSpace.outstanding = 0
    omega
  refine ⟨hst, hout, by omega, hflags.2, ?_⟩
  have hat : r.tcb.sndNxt = r.tcb.sndUna := (SeqNumber.eq_iff_offsetFrom _ _).mpr hout
  exact h.timed.idle (by rw [hst]; rfl) hat.symm

/-- A turn in FIN-WAIT-2 closes the connection, or comes before its closing timer. -/
theorem Standing.lulls (h : r.Standing) (hst : r.tcb.state = .finWait2) (now : Instant) :
    ∃ d D v, r.tcb.timeWaitDeadline = some D ∧ D.micros ≤ Instant.u64Max ∧
      d ∈ r.tcb.armed ∧ (∀ x ∈ r.tcb.armed, d.micros ≤ x.micros) ∧
      ((Host.turn (r, now)).1.tcb.state = .closed ∧ d = D ∨
        d.micros < D.micros ∧ (Host.turn (r, now)).1.tcb.state = .finWait2 ∧
          Tcb.Fires r.tcb v d ∧ Tcb.Lulls v (Host.turn (r, now)).1.tcb) := by
  obtain ⟨D, hD, hmax⟩ := h.timed.wait hst
  have hmemD : D ∈ r.tcb.armed := Tcb.mem_armed.mpr (.inr (.inr (.inl hD)))
  have hdrained := h.drained hst
  unfold Host.turn
  split
  · rename_i d hat
    obtain ⟨hmem, hmin⟩ := Tcb.pollAt_some hat
    have hs := h.input (.timer d)
    refine ⟨d, D, r.tcb.onTimer d, hD, hmax, hmem, hmin, ?_⟩
    rcases Nat.lt_or_ge d.micros D.micros with hlt | hge
    · right
      have hfires : Tcb.Fires r.tcb (r.tcb.onTimer d) d :=
        hdrained.onTimer (by simp [hD, Instant.due, hlt])
      have hst' : (r.input (.timer d)).1.tcb.state = .finWait2 :=
        (congrArg Core.state hfires.core).trans hst
      refine ⟨hlt, ?_, hfires, (hs.drained hst').poll d⟩
      rcases hs.ok.poll_state d with h1 | ⟨h1, -⟩ | ⟨h1, -⟩
      · exact h1.trans hst'
      · exact absurd (hst'.symm.trans h1) (by simp)
      · exact absurd (hst'.symm.trans h1) (by simp)
    · left
      have hle := hmin D hmemD
      have hclosed : (r.input (.timer d)).1.tcb.state = .closed :=
        Tcb.onTimer_due (by simp [hD, Instant.due, hge])
      refine ⟨input_closed hs.ok hclosed (.poll d), ?_⟩
      obtain ⟨m⟩ := d
      obtain ⟨M⟩ := D
      exact congrArg Instant.mk (Nat.le_antisymm hle hge)
  · rename_i hat
    rw [Tcb.pollAt_none hat] at hmemD
    cases hmemD

/-- Unless a pacing deadline is stale, the closing timer is reached. -/
theorem Standing.closes_finWait2 (h : r.Standing) (hst : r.tcb.state = .finWait2) (hs : ¬ r.tcb.Stale)
    (now : Instant) : ∃ n, (Host.turn^[n] (r, now)).1.tcb.state = .closed := by
  let I (q : Host κ × Instant) : Prop := q.1.Standing ∧ q.1.tcb.state = .finWait2 ∧ ¬ q.1.tcb.Stale
  have hturn : ∀ q, I q → (Host.turn q).1.tcb.state = .closed ∨
      I (Host.turn q) ∧ (Host.turn q).1.tcb.patience < q.1.tcb.patience := by
    intro q ⟨hq, hst, hs⟩
    obtain ⟨d, D, v, hD, hmax, hmem, hmin, hor⟩ := hq.lulls hst q.2
    refine hor.imp And.left fun ⟨hlt, hst', hf, hl⟩ => ?_
    refine ⟨⟨hq.turn q.2, hst', fun hstale => hs ((hf.stale hl).mp hstale)⟩, ?_⟩
    exact hf.nearer hl (hq.drained hst).rtx hq.timed.backoff hD hmax hmem hmin hlt hs
  exact Run.exists_iterate (G := fun q : Host κ × Instant => q.1.tcb.state = .closed)
    (fun q => q.1.tcb.patience) hturn (show I (r, now) from ⟨h, hst, hs⟩)

/-- A stale pacing deadline is always the earlier one. -/
theorem Standing.stale_open (h : r.Standing) (hst : r.tcb.state = .finWait2) (hs : r.tcb.Stale) (now : Instant)
    (n : ℕ) : (Host.turn^[n] (r, now)).1.tcb.state = .finWait2 := by
  let I (q : Host κ × Instant) : Prop := q.1.Standing ∧ q.1.tcb.state = .finWait2 ∧ q.1.tcb.Stale
  have hkeep : ∀ q, I q → I (Host.turn q) := by
    intro q ⟨hq, hst, hs⟩
    obtain ⟨d, D, v, hD, -, -, hmin, hor⟩ := hq.lulls hst q.2
    have ⟨_, p, D', hp, hD', hlt⟩ := hs
    have hle := hmin p (Tcb.mem_armed.mpr (.inr (.inr (.inr (.inr hp)))))
    cases hD.symm.trans hD'
    rcases hor with ⟨-, rfl⟩ | ⟨-, hst', hf, hl⟩
    · exact absurd hlt (by omega)
    · exact ⟨hq.turn q.2, hst', (hf.stale hl).mpr hs⟩
  have hn : I (Host.turn^[n] (r, now)) := Function.Iterate.rec I ⟨h, hst, hs⟩ hkeep n
  exact hn.2.1

/-! ## All of them -/

/-- The states a connection waits in for its peer alone. -/
def Waiting (st : State) : Prop := st = .synSent ∨ st = .finWait2 ∨ Endless st

instance (st : State) : Decidable (Endless st) := inferInstanceAs (Decidable (_ ∨ _))
instance (st : State) : Decidable (Waiting st) := inferInstanceAs (Decidable (_ ∨ _))

theorem Opens.standing {r₀ : Host κ} (h : r₀.Opens) {is : List Input}
    (hr : Run.run step r₀ is = some r) : r.Standing := by
  obtain ⟨hok, hagrees⟩ := agrees_run h.ok h.agrees hr
  exact ⟨hok, hagrees, (timed_run h.timed h.ok hr).2⟩

/-- Whatever the history, a host that waits for a silent peer is closed after a number
of turns just if it is in SYN-SENT, or in FIN-WAIT-2 with no stale pacing deadline. -/
theorem silent_peer {r₀ : Host κ} {is : List Input} (h0 : r₀.Opens) (hr : Run.run step r₀ is = some r)
    (hst : Waiting r.tcb.state) (now : Instant) :
    (∃ n, (turn^[n] (r, now)).1.tcb.state = .closed) ↔
      r.tcb.state = .synSent ∨ r.tcb.state = .finWait2 ∧ ¬ r.tcb.Stale := by
  have h := h0.standing hr
  constructor
  · rintro ⟨n, hn⟩
    rcases hst with hst | hst | hst
    · exact .inl hst
    · refine .inr ⟨hst, fun hs => ?_⟩
      rw [h.stale_open hst hs now n] at hn
      cases hn
    · rw [h.stays_open hst now n] at hn
      rw [hn] at hst
      exact absurd hst (by decide)
  · rintro (hst | ⟨hst, hs⟩)
    · exact h.closes_synSent hst now
    · exact h.closes_finWait2 hst hs now

/-- The peer acknowledges our FIN, and is not heard of again. -/
theorem silent_peer_halfClosed : ∃ r : Host Reno, Run.run step accepted halfClosed = some r ∧
    Waiting r.tcb.state ∧ ∃ n, (turn^[n] (r, ⟨0⟩)).1.tcb.state = .closed := by
  obtain ⟨r, hr, hst, hpace⟩ := Run.exists_run step accepted halfClosed
    (fun r => r.tcb.state = .finWait2 ∧ r.tcb.paceDeadline = none) (by decide +kernel)
  have hwait : Waiting r.tcb.state := .inr (.inl hst)
  have hfresh : ¬ r.tcb.Stale := by
    rintro ⟨-, p, d, hp, -⟩
    exact absurd (hpace.symm.trans hp) (by simp)
  exact ⟨r, hr, hwait, (silent_peer accepted_opens hr hwait ⟨0⟩).mpr (.inr ⟨hst, hfresh⟩)⟩

/-- The peer of an accepted connection is never heard of: the SYN-ACK goes out again
and again. -/
theorem accepted_silent : ∃ r : Host Reno, Run.run step accepted [.poll ⟨0⟩] = some r ∧
    Waiting r.tcb.state ∧ ¬ ∃ n, (turn^[n] (r, ⟨0⟩)).1.tcb.state = .closed := by
  obtain ⟨r, hr, hst⟩ := Run.exists_run step accepted [.poll ⟨0⟩]
    (fun r => r.tcb.state = .synReceived) (by decide +kernel)
  have hend : Endless r.tcb.state := .inl hst
  refine ⟨r, hr, .inr (.inr hend), fun ⟨n, hn⟩ => ?_⟩
  rw [(accepted_opens.standing hr).stays_open hend ⟨0⟩ n, hst] at hn
  cases hn

end Host

end Ferrumnet
