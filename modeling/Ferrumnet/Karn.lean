import Ferrumnet.Guard

/-
  Which segments are timed.

  Without timestamps one segment at a time is measured. A retransmission makes the
  measurement ambiguous, so whatever resends gives the sample up and bars the next one
  until everything outstanding is acknowledged. Beside a host we log every
  transmission of data.

  1. `beforeRtt_spec`, `ackTimer_spec` — what an ACK does to the sample and to its bar.
  2. `rtt_onSegment` — the estimator is given the sample of `sampleOf`, and no other.
  3. `Ruled.acks`, `Ruled.onTimer`, `Ruled.poll` — a sample is never barred, and a resend
     finds the bar up.
  4. `karn_samples` — while no data goes out under a go-back-N flag that has nothing
     left to resend, each sample is of a segment transmitted once.
  5. `karn_stale` — otherwise a segment is resent while it is timed.
-/

namespace Ferrumnet

namespace Tcb

set_option linter.unusedSectionVars false

variable {κ : Type} [CongestionControl κ] (t : Tcb κ) (now : Instant) (p : TcpPacket)

/-! ## The sample of an ACK -/

/-- The state in which an ACK of `a` is measured. -/
def beforeRtt (t : Tcb κ) (now : Instant) (a : SeqNumber) (ace : Nat) : Tcb κ :=
  let dataAcked := t.toSendSpace.dataAcked a
  let inRecovery := t.sackEnabled && t.scoreboard.inRecovery
  let t := { t with toSendSpace := t.toSendSpace.consume a
                    cc := if inRecovery then t.cc else CongestionControl.onAck t.cc now dataAcked }
  (((t.ackSample now dataAcked inRecovery).ackEcn now ace dataAcked inRecovery).ackScoreboard now).ackGbn

theorem ackAdvance_stages (a : SeqNumber) (e : Option (BitVec 32)) (ace : Nat) :
    t.ackAdvance a e ace now = ((t.beforeRtt now a ace).ackRtt now a e).ackTimer now := rfl

/-- What is measured by an ACK of `a`: when the timed segment was sent, and its end. -/
def sample (t : Tcb κ) (a : SeqNumber) : Option (Instant × SeqNumber) :=
  if t.retransmitted then none else t.rttSample.filter fun s => a.ge s.2

/-- Without timestamps the sample is all that the estimator learns. -/
theorem ackRtt_sample (a : SeqNumber) (e : Option (BitVec 32)) (hts : t.tsEnabled = false) :
    (t.sample a = none → t.ackRtt now a e = t) ∧
      ∀ s, t.sample a = some s → t.ackRtt now a e =
        { t with rtt := t.rtt.onSample (max (min (now.saturatingMicrosSince s.1) u32Max) 1)
                 rttSample := none } := by
  unfold ackRtt sample
  rw [hts, if_neg Bool.false_ne_true]
  by_cases hre : t.retransmitted = true
  · rw [if_pos hre, if_pos hre]
    refine ⟨fun _ => rfl, ?_⟩
    rintro s ⟨⟩
  · rw [if_neg hre, if_neg hre]
    cases t.rttSample with
    | none =>
      refine ⟨fun _ => rfl, ?_⟩
      rintro s ⟨⟩
    | some s =>
      by_cases hge : a.ge s.2 = true
      · rw [Option.filter, if_pos hge]
        dsimp only
        rw [if_pos hge]
        constructor
        · rintro ⟨⟩
        · rintro s' ⟨⟩
          rfl
      · rw [Option.filter, if_neg hge]
        dsimp only
        rw [if_neg hge]
        refine ⟨fun _ => rfl, ?_⟩
        rintro s' ⟨⟩

/-- What the stages before the sample do: recovery that has reached its point lifts the
bar, a drain that is not over raises the go-back-N flag. -/
structure BeforeRtt (t : Tcb κ) (a : SeqNumber) (b : Tcb κ) : Prop where
  una : b.sndUna = a
  nxt : b.sndNxt = t.sndNxt
  options : b.toOptions = t.toOptions
  fin : b.finSeq = t.finSeq
  rtt : b.rtt = t.rtt
  timed : b.rttSample = t.rttSample
  guard : b.gbnRecover = t.ackGuard a
  point : b.scoreboard.recoveryPoint = none ∨ b.scoreboard.recoveryPoint = t.scoreboard.recoveryPoint
  bar : b.retransmitted = t.retransmitted ∨ b.retransmitted = false ∧
    t.sackEnabled = true ∧ ∃ q, t.scoreboard.recoveryPoint = some q ∧ a.ge q = true
  flag : b.retransmit = true → t.retransmit = true ∨ b.gbnRecover ≠ none

/-- An ACK's first stage lifts the bar only with the recovery. -/
theorem ackScoreboard_spec : (t.ackScoreboard now).rttSample = t.rttSample ∧
    (t.ackScoreboard now).rtt = t.rtt ∧ (t.ackScoreboard now).retransmit = t.retransmit ∧
      ((t.ackScoreboard now).scoreboard.recoveryPoint = none ∨
        (t.ackScoreboard now).scoreboard.recoveryPoint = t.scoreboard.recoveryPoint) ∧
      ((t.ackScoreboard now).retransmitted = t.retransmitted ∨ (t.ackScoreboard now).retransmitted = false ∧
        t.sackEnabled = true ∧ ∃ q, t.scoreboard.recoveryPoint = some q ∧ t.sndUna.ge q = true) := by
  simp only [ackScoreboard]
  split
  · rename_i hs
    split
    · rename_i hreached
      refine ⟨rfl, rfl, rfl, .inl rfl, .inr ⟨rfl, hs, ?_⟩⟩
      have hpoint : (t.scoreboard.trim t.sndUna).recoveryPoint = t.scoreboard.recoveryPoint := rfl
      rw [Scoreboard.recoveryReached, hpoint] at hreached
      cases hq : t.scoreboard.recoveryPoint with
      | none => rw [hq] at hreached; cases hreached
      | some q => rw [hq] at hreached; exact ⟨q, rfl, hreached⟩
    · exact ⟨rfl, rfl, rfl, .inr rfl, .inl rfl⟩
  · exact ⟨rfl, rfl, rfl, .inr rfl, .inl rfl⟩

theorem ackGbn_spec : t.ackGbn.rttSample = t.rttSample ∧ t.ackGbn.rtt = t.rtt ∧
    t.ackGbn.retransmitted = t.retransmitted ∧
      (t.ackGbn.retransmit = true → t.retransmit = true ∨ t.ackGbn.gbnRecover ≠ none) := by
  simp only [ackGbn]
  split
  · rename_i high hg
    split
    · refine ⟨rfl, rfl, rfl, fun _ => .inr ?_⟩
      rw [hg]
      simp
    · exact ⟨rfl, rfl, rfl, .inl⟩
  · exact ⟨rfl, rfl, rfl, .inl⟩

theorem beforeRtt_spec (a : SeqNumber) (ace : Nat) : BeforeRtt t a (t.beforeRtt now a ace) := by
  simp only [beforeRtt]
  generalize hu : (({ t with
    toSendSpace := t.toSendSpace.consume a
    cc := if t.sackEnabled && t.scoreboard.inRecovery then t.cc
      else CongestionControl.onAck t.cc now (t.toSendSpace.dataAcked a) } : Tcb κ).ackSample now
        (t.toSendSpace.dataAcked a) (t.sackEnabled && t.scoreboard.inRecovery)) = u
  have hsend : u.core = { t.core with toSendSpace := t.toSendSpace.consume a } := by
    rw [← hu]
    rfl
  have hrec : u.toLossRecovery = { t.toLossRecovery with cc := u.cc } := by
    rw [← hu]
    rfl
  have hecn : (u.ackEcn now ace (t.toSendSpace.dataAcked a) (t.sackEnabled && t.scoreboard.inRecovery)).core =
      u.core := core_ackEcn ..
  have hecnRec : ∃ c, (u.ackEcn now ace (t.toSendSpace.dataAcked a)
      (t.sackEnabled && t.scoreboard.inRecovery)).toLossRecovery = { u.toLossRecovery with cc := c } := by
    simp only [ackEcn]
    split
    · split
      · exact ⟨u.cc, rfl⟩
      · exact ⟨_, rfl⟩
    · exact ⟨u.cc, rfl⟩
  generalize u.ackEcn now ace (t.toSendSpace.dataAcked a)
    (t.sackEnabled && t.scoreboard.inRecovery) = v at hecn hecnRec ⊢
  obtain ⟨c, hc⟩ := hecnRec
  rw [hrec] at hc
  rw [hsend] at hecn
  have huna : v.sndUna = a := congrArg (fun c : Core => c.sndUna) hecn
  have hsack : v.sackEnabled = t.sackEnabled := congrArg (fun c : Core => c.sackEnabled) hecn
  have hboard : v.scoreboard = t.scoreboard := (congrArg LossRecovery.scoreboard hc).trans rfl
  obtain ⟨h1, h2, h3, h4, h5⟩ := v.ackScoreboard_spec now
  obtain ⟨hguard, hcore, -⟩ := v.ackScoreboard_eq now
  rw [hecn] at hcore
  rw [hboard] at h4 h5
  rw [hsack, huna] at h5
  generalize v.ackScoreboard now = w at h1 h2 h3 h4 h5 hguard hcore ⊢
  obtain ⟨g1, g2, g3, g4⟩ := w.ackGbn_spec
  obtain ⟨gboard, gguard⟩ := w.ackGbn_eq
  have hgcore := w.core_ackGbn.trans hcore
  have hwuna : w.sndUna = a := congrArg (fun c : Core => c.sndUna) hcore
  have hwnxt : w.sndNxt = t.sndNxt := congrArg (fun c : Core => c.sndNxt) hcore
  refine ⟨?_, ?_, ?_, ?_, ?_, ?_, ?_, ?_, ?_, ?_⟩
  · exact congrArg (fun c : Core => c.sndUna) hgcore
  · exact congrArg (fun c : Core => c.sndNxt) hgcore
  · exact congrArg Core.toOptions hgcore
  · exact congrArg (fun c : Core => c.finSeq) hgcore
  · rw [g2, h2]
    exact (congrArg LossRecovery.rtt hc).trans rfl
  · rw [g1, h1]
    exact (congrArg LossRecovery.rttSample hc).trans rfl
  · have hgbn : w.gbnRecover = t.gbnRecover := hguard.trans ((congrArg LossRecovery.gbnRecover hc).trans rfl)
    rw [gguard, ackGuard, ackGuard, hwuna, hwnxt, hgbn]
  · rw [gboard]
    exact h4
  · rw [g3]
    have hbar : v.retransmitted = t.retransmitted := (congrArg LossRecovery.retransmitted hc).trans rfl
    rw [hbar] at h5
    exact h5
  · have hflag : v.retransmit = t.retransmit := (congrArg LossRecovery.retransmit hc).trans rfl
    rw [h3, hflag] at g4
    exact g4

/-- The last stage lifts the bar when everything outstanding is acknowledged. -/
theorem ackTimer_spec : (t.ackTimer now).core = t.core ∧ (t.ackTimer now).retransmit = t.retransmit ∧
    (t.ackTimer now).rtt = t.rtt.onCleanAck ∧
    (t.sndUna = t.sndNxt → (t.ackTimer now).rttSample = none) ∧
    (t.sndUna ≠ t.sndNxt → (t.ackTimer now).rttSample = t.rttSample ∧
      (t.ackTimer now).retransmitted = t.retransmitted) := by
  refine ⟨t.core_ackTimer now, ?_⟩
  simp only [ackTimer]
  split
  · split
    · rename_i hall
      exact ⟨rfl, rfl, fun _ => rfl, fun h => absurd hall h⟩
    · rename_i hsome
      exact ⟨rfl, rfl, fun h => absurd h hsome, fun _ => ⟨rfl, rfl⟩⟩
  · split
    · rename_i hall
      exact ⟨rfl, rfl, fun _ => rfl, fun h => absurd hall h⟩
    · rename_i hsome
      exact ⟨rfl, rfl, fun h => absurd h hsome, fun _ => ⟨rfl, rfl⟩⟩

/-- The sample itself is kept or taken; the bar stays. -/
theorem ackRtt_keeps (a : SeqNumber) (e : Option (BitVec 32)) :
    (t.ackRtt now a e).retransmit = t.retransmit ∧ (t.ackRtt now a e).retransmitted = t.retransmitted ∧
      ((t.ackRtt now a e).rttSample = none ∨ (t.ackRtt now a e).rttSample = t.rttSample) := by
  simp only [ackRtt]
  split
  · split
    · split
      · exact ⟨rfl, rfl, .inr rfl⟩
      · exact ⟨rfl, rfl, .inr rfl⟩
    · exact ⟨rfl, rfl, .inr rfl⟩
  · split
    · exact ⟨rfl, rfl, .inr rfl⟩
    · split
      · split
        · exact ⟨rfl, rfl, .inl rfl⟩
        · exact ⟨rfl, rfl, .inr rfl⟩
      · exact ⟨rfl, rfl, .inr rfl⟩

/-! ## The bar -/

/-- Nothing is timed behind the bar, and it is up while a drain lasts. -/
structure Bars (t : Tcb κ) : Prop where
  timed : t.rttSample ≠ none → t.retransmitted = false
  drain : t.gbnRecover ≠ none → t.retransmitted = true ∧
    (t.sackEnabled = true → t.scoreboard.recoveryPoint = none)

/-- A raised go-back-N flag finds the bar up, for what is outstanding; or nothing is
outstanding; or nothing but the FIN that was sent under it. -/
def Answered (t : Tcb κ) : Prop :=
  t.retransmit = true → t.sndUna = t.sndNxt ∨
    t.retransmitted = true ∧
      (t.sackEnabled = true → ∀ q, t.scoreboard.recoveryPoint = some q → q = t.sndNxt) ∨
    t.finSeq ≠ none ∧ (t.tsEnabled = false → t.rttSample = none)

variable {t now p} {u : Tcb κ}

/-- Both depend on the record, and on little else. -/
theorem Bars.congr (h : t.Bars) (hl : u.toLossRecovery = t.toLossRecovery) (ho : u.toOptions = t.toOptions) :
    u.Bars := by
  refine ⟨?_, ?_⟩
  · rw [hl]
    exact h.timed
  · rw [hl, ho]
    exact h.drain

theorem Answered.congr (h : t.Answered) (hl : u.toLossRecovery = t.toLossRecovery)
    (ho : u.toOptions = t.toOptions) (hs : u.toSendSpace = t.toSendSpace) : u.Answered := by
  unfold Answered
  rw [hl, ho, hs]
  exact h

/-- A drain that goes on was there before. -/
theorem ackGuard_some {a : SeqNumber} (h : t.ackGuard a ≠ none) : t.gbnRecover ≠ none := by
  intro hnone
  rw [ackGuard, hnone] at h
  exact h rfl

/-- While a drain lasts no recovery lifts the bar. -/
theorem Bars.drained {a : SeqNumber} (h : t.Bars) (hu : BeforeRtt t a u) (hg : u.gbnRecover ≠ none) :
    u.retransmitted = true ∧ (t.sackEnabled = true → u.scoreboard.recoveryPoint = none) := by
  obtain ⟨hbar, hpoint⟩ := h.drain (ackGuard_some (hu.guard ▸ hg))
  constructor
  · cases hu.bar with
    | inl hsame => exact hsame.trans hbar
    | inr hlift =>
      obtain ⟨-, hs, q, hq, -⟩ := hlift
      rw [hpoint hs] at hq
      cases hq
  · intro hs
    cases hu.point with
    | inl hnone => exact hnone
    | inr hsame => exact hsame.trans (hpoint hs)

theorem Bars.ackAdvance (h : t.Bars) (a : SeqNumber) (e : Option (BitVec 32)) (ace : Nat) :
    (t.ackAdvance a e ace now).Bars := by
  rw [ackAdvance_stages]
  have hb := t.beforeRtt_spec now a ace
  generalize t.beforeRtt now a ace = b at hb ⊢
  obtain ⟨hflag, hbar, hsample⟩ := b.ackRtt_keeps now a e
  obtain ⟨hboard, hguard⟩ := b.ackRtt_frame now a e
  have hcore := b.core_ackRtt now a e
  generalize b.ackRtt now a e = r at hflag hbar hsample hboard hguard hcore ⊢
  obtain ⟨hcore', -, -, hall, hsome⟩ := r.ackTimer_spec now
  obtain ⟨hboard', hguard'⟩ := r.ackTimer_frame now
  generalize r.ackTimer now = u at hcore' hall hsome hboard' hguard' ⊢
  have huna : r.sndUna = a := (congrArg (fun c : Core => c.sndUna) hcore).trans hb.una
  have hnxt : r.sndNxt = t.sndNxt := (congrArg (fun c : Core => c.sndNxt) hcore).trans hb.nxt
  have hopts : u.toOptions = t.toOptions := (congrArg Core.toOptions (hcore'.trans hcore)).trans hb.options
  constructor
  · intro htimed
    have hne : r.sndUna ≠ r.sndNxt := fun he => htimed (hall he)
    obtain ⟨hsame, hsameBar⟩ := hsome hne
    rw [hsame] at htimed
    have hpending : t.rttSample ≠ none := by
      rw [← hb.timed, ← hsample.resolve_left htimed]
      exact htimed
    rw [hsameBar, hbar]
    cases hb.bar with
    | inl heq => exact heq.trans (h.timed hpending)
    | inr hlift => exact hlift.1
  · intro hg
    rw [hguard', hguard] at hg
    obtain ⟨hup, hpoint⟩ := h.drained hb hg
    -- what is left of a drain is outstanding
    have hne : r.sndUna ≠ r.sndNxt := by
      rw [hb.guard, ackGuard] at hg
      obtain ⟨high, hhigh⟩ := Option.ne_none_iff_exists'.mp hg
      have hcond := (Option.filter_eq_some_iff.mp hhigh).2
      simp only [Bool.and_eq_true, decide_eq_true_eq] at hcond
      rw [huna, hnxt]
      exact hcond.2
    refine ⟨?_, ?_⟩
    · rw [(hsome hne).2, hbar]
      exact hup
    · rw [hopts, hboard', hboard]
      exact hpoint

/-- An ACK of what is outstanding keeps the flag answered. -/
theorem Answered.ackAdvance (h : t.Answered) (hbars : t.Bars) {a : SeqNumber} (hgt : a.gt t.sndUna = true)
    (hle : a.gt t.sndNxt = false) (e : Option (BitVec 32)) (ace : Nat) :
    (t.ackAdvance a e ace now).Answered := by
  rw [ackAdvance_stages]
  have hb := t.beforeRtt_spec now a ace
  generalize t.beforeRtt now a ace = b at hb ⊢
  obtain ⟨hflag, hbar, hsample⟩ := b.ackRtt_keeps now a e
  obtain ⟨hboard, -⟩ := b.ackRtt_frame now a e
  have hcore := b.core_ackRtt now a e
  generalize b.ackRtt now a e = r at hflag hbar hsample hboard hcore ⊢
  obtain ⟨hcore', hflag', -, hall, hsome⟩ := r.ackTimer_spec now
  obtain ⟨hboard', -⟩ := r.ackTimer_frame now
  generalize r.ackTimer now = u at hcore' hflag' hall hsome hboard' ⊢
  have hc := hcore'.trans hcore
  have huna : u.sndUna = a := (congrArg (fun c : Core => c.sndUna) hc).trans hb.una
  have hnxt : u.sndNxt = t.sndNxt := (congrArg (fun c : Core => c.sndNxt) hc).trans hb.nxt
  have hfin : u.finSeq = t.finSeq := (congrArg (fun c : Core => c.finSeq) hc).trans hb.fin
  have hopts : u.toOptions = t.toOptions := (congrArg Core.toOptions hc).trans hb.options
  have hrsend : r.toSendSpace = u.toSendSpace := congrArg Core.toSendSpace hcore'.symm
  intro hup
  rw [hflag', hflag] at hup
  by_cases hfull : u.sndUna = u.sndNxt
  · exact .inl hfull
  refine .inr ?_
  obtain ⟨hsame, hsameBar⟩ := hsome (by rw [hrsend]; exact hfull)
  have hpoint : u.scoreboard.recoveryPoint = none ∨
      u.scoreboard.recoveryPoint = t.scoreboard.recoveryPoint := by
    rw [hboard', hboard]
    exact hb.point
  rw [hsameBar, hsame, hbar, hopts, hfin, hnxt]
  by_cases hg : b.gbnRecover = none
  · have hold := (hb.flag hup).resolve_right fun hne => hne hg
    cases h hold with
    | inl hnone => rw [hnone, hle] at hgt; cases hgt
    | inr h =>
      cases h with
      | inl hcovers =>
        obtain ⟨hre, hq⟩ := hcovers
        cases hb.bar with
        | inl heq =>
          refine .inl ⟨heq.trans hre, fun hs q hq' => ?_⟩
          cases hpoint with
          | inl hnone => rw [hnone] at hq'; cases hq'
          | inr heq => exact hq hs q (heq.symm.trans hq')
        | inr hlift =>
          -- the point of recovery is SND.NXT, so all is acknowledged
          obtain ⟨-, hs, q, hq', hge⟩ := hlift
          rw [hq hs q hq'] at hge
          refine absurd ?_ hfull
          rw [huna, hnxt]
          have hnear := (SeqNumber.ge_iff _ _).mp hge
          have hno := mt (SeqNumber.gt_iff a t.sndNxt).mpr (by simp [hle])
          exact (SeqNumber.eq_iff_offsetFrom _ _).mpr (by omega)
      | inr hlast =>
        refine .inr ⟨hlast.1, fun hts => ?_⟩
        have hnone := hlast.2 hts
        rw [← hb.timed] at hnone
        cases hsample with
        | inl h => exact h
        | inr h => exact h.trans hnone
  · obtain ⟨hre, hnone⟩ := hbars.drained hb hg
    refine .inl ⟨hre, fun hs q hq => ?_⟩
    rw [hboard', hboard, hnone hs] at hq
    cases hq

/-! ## A segment taken in -/

/-- Losses found raise the bar and give the sample up. -/
theorem detected_spec (t : Tcb κ) (now : Instant) (p : TcpPacket) (d : Bool) :
    (t.detected now p d).gbnRecover = t.gbnRecover ∧ (t.detected now p d).rtt = t.rtt ∧
      ((t.detected now p d).retransmit = t.retransmit ∧
          (t.detected now p d).retransmitted = t.retransmitted ∧
          (t.detected now p d).rttSample = t.rttSample ∧
          (t.detected now p d).scoreboard.recoveryPoint = t.scoreboard.recoveryPoint ∨
        (t.detected now p d).retransmitted = true ∧ (t.detected now p d).rttSample = none ∧
          (t.sackEnabled = true → t.gbnRecover = none ∧
            (t.detected now p d).scoreboard.recoveryPoint = some t.sndNxt)) := by
  unfold detected
  split
  · simp only [sackIngest, sackDetect]
    split
    · rename_i hfree
      rw [Bool.and_eq_true, Option.isNone_iff_eq_none] at hfree
      have hguard : t.gbnRecover = none := hfree.2
      have hdup : ∀ v : Tcb κ, ∃ c b, (if d then v.noteDupAck now else (v, false)) = ({ v with cc := c }, b) := by
        intro v
        cases d with
        | true => exact ⟨_, _, rfl⟩
        | false => exact ⟨v.cc, false, rfl⟩
      obtain ⟨c, b, hv⟩ := hdup { t with scoreboard := t.scoreboard.update t.sndUna t.sndNxt p.sackBlocks }
      rw [hv]
      split
      · exact ⟨rfl, rfl, .inr ⟨rfl, rfl, fun _ => ⟨hguard, rfl⟩⟩⟩
      · exact ⟨rfl, rfl, .inl ⟨rfl, rfl, rfl, rfl⟩⟩
    · exact ⟨rfl, rfl, .inl ⟨rfl, rfl, rfl, rfl⟩⟩
  · rename_i hoff
    split
    · simp only [legacyDupAck]
      split
      · exact ⟨rfl, rfl, .inr ⟨rfl, rfl, fun hs => absurd hs hoff⟩⟩
      · exact ⟨rfl, rfl, .inl ⟨rfl, rfl, rfl, rfl⟩⟩
    · exact ⟨rfl, rfl, .inl ⟨rfl, rfl, rfl, rfl⟩⟩

theorem Bars.detected (h : t.Bars) (d : Bool) : (t.detected now p d).Bars := by
  obtain ⟨hguard, -, hcases⟩ := t.detected_spec now p d
  have hopts : (t.detected now p d).toOptions = t.toOptions :=
    congrArg Core.toOptions (t.core_detected now p d)
  generalize t.detected now p d = u at hguard hcases hopts ⊢
  cases hcases with
  | inl hsame =>
    obtain ⟨-, hbar, hsample, hpoint⟩ := hsame
    refine ⟨?_, ?_⟩
    · rw [hsample, hbar]
      exact h.timed
    · rw [hguard, hbar, hpoint, hopts]
      exact h.drain
  | inr hlost =>
    obtain ⟨hbar, hnone, hon⟩ := hlost
    refine ⟨fun hs => absurd hnone hs, fun hg => ⟨hbar, fun hs => ?_⟩⟩
    rw [hopts] at hs
    rw [hguard] at hg
    exact absurd (hon hs).1 hg

theorem Answered.detected (h : t.Answered) (d : Bool) : (t.detected now p d).Answered := by
  obtain ⟨-, -, hcases⟩ := t.detected_spec now p d
  have hcore := t.core_detected now p d
  have hsend : (t.detected now p d).toSendSpace = t.toSendSpace := congrArg Core.toSendSpace hcore
  have hopts : (t.detected now p d).toOptions = t.toOptions := congrArg Core.toOptions hcore
  generalize t.detected now p d = u at hcases hsend hopts ⊢
  unfold Answered
  rw [hsend, hopts]
  cases hcases with
  | inl hsame =>
    obtain ⟨hflag, hbar, hsample, hpoint⟩ := hsame
    rw [hflag, hbar, hsample, hpoint]
    exact h
  | inr hlost =>
    obtain ⟨hbar, -, hon⟩ := hlost
    intro _
    refine .inr (.inl ⟨hbar, fun hs q hq => ?_⟩)
    rw [(hon hs).2] at hq
    cases hq
    rfl

/-- The ACK of a segment taken in. -/
theorem Bars.acks (h : t.Bars) : (t.acks now p).Bars := by
  refine Bars.detected ?_ _
  unfold advanced
  have hlate := fun v : Tcb κ => congrArg Core.toOptions (v.core_updateWindow p.seq p.ack p.window)
  split
  · exact (h.ackAdvance _ _ _).congr (recovery_updateWindow ..) (hlate _)
  · exact h.congr (recovery_updateWindow ..) (hlate _)

theorem Answered.acks (h : t.Answered) (hb : t.Bars) (hle : p.ack.gt t.sndNxt = false) :
    (t.acks now p).Answered := by
  refine Answered.detected ?_ _
  unfold advanced
  have hlate := fun v : Tcb κ => congrArg Core.toOptions (v.core_updateWindow p.seq p.ack p.window)
  have hsend := fun v : Tcb κ => congrArg Core.toSendSpace (v.core_updateWindow p.seq p.ack p.window)
  split
  · rename_i hgt
    exact (h.ackAdvance hb hgt hle _ _).congr (recovery_updateWindow ..) (hlate _) (hsend _)
  · exact h.congr (recovery_updateWindow ..) (hlate _) (hsend _)

/-- The ACK of the segment is taken in past the handshake, and advances. -/
def advances (t : Tcb κ) (p : TcpPacket) : Bool :=
  t.state ≠ .synSent && t.state ≠ .synReceived && t.core.admits p && t.core.validAck p && p.ack.gt t.sndUna

/-- The sample of a segment: when what it measures was sent, and where that ends. -/
def sampleOf (t : Tcb κ) (now : Instant) (p : TcpPacket) : Option (Instant × SeqNumber) :=
  if t.advances p then ((t.advanceTsRecent p).beforeRtt now p.ack p.ace).sample p.ack else none

/-- A sample is the one that was pending, and the ACK covers it. -/
theorem sampleOf_spec {s : Instant × SeqNumber} (h : t.sampleOf now p = some s) :
    t.advances p = true ∧ t.rttSample = some s ∧ p.ack.ge s.2 = true := by
  unfold sampleOf at h
  split at h
  · rename_i hadv
    refine ⟨hadv, ?_⟩
    have hb := (t.advanceTsRecent p).beforeRtt_spec now p.ack p.ace
    have hrec := congrArg LossRecovery.rttSample (t.recovery_advanceTsRecent p)
    unfold sample at h
    split at h
    · cases h
    · rw [hb.timed, hrec] at h
      exact Option.filter_eq_some_iff.mp h
  · cases h

/-- Without timestamps the estimator is given the sample of a segment, and no other. -/
theorem rtt_onSegment (hts : t.tsEnabled = false) (ce : Bool) :
    (t.sampleOf now p = none → (t.onSegment now p ce).rtt = t.rtt ∨
      (t.onSegment now p ce).rtt = t.rtt.onCleanAck) ∧
    ∀ s, t.sampleOf now p = some s → (t.onSegment now p ce).rtt =
      (t.rtt.onSample (max (min (now.saturatingMicrosSince s.1) u32Max) 1)).onCleanAck := by
  by_cases hadv : t.advances p = true
  · have hparts := hadv
    simp only [advances, Bool.and_eq_true, decide_eq_true_eq] at hparts
    obtain ⟨⟨⟨⟨hsyn, hrec⟩, hadm⟩, hv⟩, hgt⟩ := hparts
    have hreceipt := t.onSegment_receipt now p ce hsyn
    have htaken : t.onSegment now p ce = ((t.advanceTsRecent p).acks now p).onText now p ce := by
      obtain ⟨hrst, hnosyn, -⟩ := Host.admits_flags hadm
      generalize t.onSegment now p ce = u at hreceipt
      cases hreceipt with
      | spared _ _ _ _ hno _ _ =>
        rw [hadm, hv] at hno
        cases hno
      | reset hflag _ _ => exact absurd (hrst.symm.trans hflag) (by simp)
      | lingers htw => simp [Core.admits, htw] at hadm
      | synAgain hdup => exact absurd (hnosyn.symm.trans (t.core.syn_of_dupSyn p hdup)) (by simp)
      | badAck hst _ _ | opens hst _ _ => exact absurd hst hrec
      | taken _ _ _ => rfl
    rw [htaken, sampleOf, if_pos hadv, recovery_onText]
    have hcore := t.core_advanceTsRecent p
    have hsend : (t.advanceTsRecent p).sndUna = t.sndUna := congrArg (fun c : Core => c.sndUna) hcore
    have hoff : (t.advanceTsRecent p).tsEnabled = false :=
      (congrArg (fun c : Core => c.tsEnabled) hcore).trans hts
    have hold : (t.advanceTsRecent p).rtt = t.rtt := congrArg LossRecovery.rtt (t.recovery_advanceTsRecent p)
    generalize t.advanceTsRecent p = v at hsend hoff hold ⊢
    have hrtt : (v.acks now p).rtt =
        (((v.beforeRtt now p.ack p.ace).ackRtt now p.ack ((v.segTs p).map (·.2))).ackTimer now).rtt := by
      rw [acks, ((v.advanced now p).detected_spec now p _).2.1, advanced, if_pos (by rw [hsend]; exact hgt),
        recovery_updateWindow, ackAdvance_stages]
    have hb := v.beforeRtt_spec now p.ack p.ace
    generalize v.beforeRtt now p.ack p.ace = b at hb hrtt ⊢
    obtain ⟨hnone, hsome⟩ := b.ackRtt_sample now p.ack ((v.segTs p).map (·.2)) (hb.options ▸ hoff)
    rw [hrtt, (ackTimer_spec _ now).2.2.1]
    constructor
    · intro hs
      right
      rw [hnone hs, hb.rtt, hold]
    · intro s hs
      rw [hsome s hs, ← hold, ← hb.rtt]
  · have hnone : t.sampleOf now p = none := by rw [sampleOf, if_neg hadv]
    rw [hnone]
    refine ⟨fun _ => ?_, fun s hs => by cases hs⟩
    by_cases hsyn : t.state = .synSent
    · left
      rw [Tcb.onSegment, if_pos hsyn]
      have hgreeting := t.onSegmentSynSent_greeting p
      generalize t.onSegmentSynSent p = u at hgreeting
      cases hgreeting <;> rfl
    have hreceipt := t.onSegment_receipt now p ce hsyn
    have hrec := t.recovery_advanceTsRecent p
    have hcore := t.core_advanceTsRecent p
    generalize t.onSegment now p ce = u at hreceipt
    cases hreceipt with
    | spared _ _ _ _ _ _ _ | reset _ _ _ | lingers _ | synAgain _ => exact .inl rfl
    | badAck _ _ _ => exact .inl (congrArg LossRecovery.rtt hrec)
    | opens _ _ _ =>
      rw [recovery_onText, recovery_opened, hrec]
      exact .inl rfl
    | taken hst hadm hv =>
      -- it acknowledges nothing new
      have hgt : ¬ p.ack.gt (t.advanceTsRecent p).sndUna = true := by
        rw [show (t.advanceTsRecent p).sndUna = t.sndUna from congrArg (fun c : Core => c.sndUna) hcore]
        intro hgt
        exact hadv (by simp [advances, hsyn, hst, hadm, hv, hgt])
      rw [recovery_onText, acks, ((t.advanceTsRecent p).advanced now p |>.detected_spec now p _).2.1, advanced,
        if_neg hgt, recovery_updateWindow]
      exact .inl (congrArg LossRecovery.rtt hrec)

/-- The sample that stays pending was not covered. -/
theorem Bars.pending (h : t.Bars) (hts : t.tsEnabled = false) (hs : (t.acks now p).rttSample ≠ none) :
    (t.acks now p).rttSample = t.rttSample ∧
      (p.ack.gt t.sndUna = true → ∀ s, t.rttSample = some s → p.ack.ge s.2 = false) := by
  obtain ⟨-, -, hcases⟩ := (t.advanced now p).detected_spec now p (t.isDupAck p)
  unfold Tcb.acks at hs ⊢
  have hkept : ((t.advanced now p).detected now p (t.isDupAck p)).rttSample = (t.advanced now p).rttSample := by
    cases hcases with
    | inl hsame => exact hsame.2.2.1
    | inr hlost => exact absurd hlost.2.1 hs
  rw [hkept] at hs ⊢
  unfold Tcb.advanced at hs ⊢
  rw [recovery_updateWindow] at hs ⊢
  split at hs
  · rename_i hgt
    rw [if_pos hgt]
    rw [ackAdvance_stages] at hs ⊢
    have hb := t.beforeRtt_spec now p.ack p.ace
    generalize t.beforeRtt now p.ack p.ace = b at hb hs ⊢
    obtain ⟨hnone, hsome⟩ := b.ackRtt_sample now p.ack ((t.segTs p).map (·.2)) (hb.options ▸ hts)
    generalize b.ackRtt now p.ack ((t.segTs p).map (·.2)) = r at hnone hsome hs ⊢
    obtain ⟨-, -, -, hall, hrest⟩ := r.ackTimer_spec now
    have hne : r.sndUna ≠ r.sndNxt := fun he => hs (hall he)
    rw [(hrest hne).1] at hs ⊢
    have huncovered : b.sample p.ack = none := by
      cases hc : b.sample p.ack with
      | none => rfl
      | some s =>
        rw [hsome s hc] at hs
        exact absurd rfl hs
    rw [hnone huncovered, hb.timed] at hs ⊢
    refine ⟨rfl, fun _ s hpend => ?_⟩
    have hopen : b.retransmitted = false := by
      cases hb.bar with
      | inl heq => exact heq.trans (h.timed hs)
      | inr hlift => exact hlift.1
    rw [sample, hopen, if_neg Bool.false_ne_true, hb.timed, hpend, Option.filter] at huncovered
    by_contra hge
    rw [Bool.not_eq_false] at hge
    rw [if_pos hge] at huncovered
    cases huncovered
  · rename_i hno
    rw [if_neg hno]
    exact ⟨rfl, fun hgt => absurd hgt hno⟩

/-! ## The rule -/

/-- Karn's rule, as the record keeps it. -/
structure Ruled (t : Tcb κ) : Prop extends Bars t where
  answered : t.state.synchronized = true → t.Answered
  early : t.state = .synSent → t.gbnRecover = none
  untimed : t.state = .synSent ∨ t.state = .synReceived → t.rttSample = none

theorem closingState_sync {st : State} {x y : Bool} (h : (closingState st x y).synchronized = true) :
    st.synchronized = true := by
  cases st with
  | timeWait | closed | listen | synSent | synReceived => exact h
  | _ => rfl

/-- Steps that leave the record and the send space alone. -/
theorem Ruled.keep (h : t.Ruled) (hl : u.toLossRecovery = t.toLossRecovery) (ho : u.toOptions = t.toOptions)
    (hs : u.toSendSpace = t.toSendSpace) (hst : u.state = t.state ∨ u.state = .closed) : u.Ruled where
  toBars := h.toBars.congr hl ho
  answered hsync := by
    cases hst with
    | inl hsame => exact (h.answered (hsame ▸ hsync)).congr hl ho hs
    | inr hcl => rw [hcl] at hsync; cases hsync
  early hsyn := by
    rw [hl]
    cases hst with
    | inl hsame => exact h.early (hsame.symm.trans hsyn)
    | inr hcl => rw [hcl] at hsyn; cases hsyn
  untimed hopen := by
    rw [hl]
    cases hst with
    | inl hsame => exact h.untimed (hsame ▸ hopen)
    | inr hcl => rw [hcl] at hopen; exact absurd hopen (by simp)

/-- The SYN of the peer. -/
theorem Ruled.onSegmentSynSent (h : t.Ruled) (hst : t.state = .synSent) : (t.onSegmentSynSent p).Ruled := by
  have hspec : (t.onSegmentSynSent p).gbnRecover = t.gbnRecover ∧
      (t.onSegmentSynSent p).rttSample = t.rttSample ∧
      ((t.onSegmentSynSent p).state.synchronized = true → (t.onSegmentSynSent p).retransmit = false) := by
    have hsync : t.state.synchronized = true → t.retransmit = false := by
      intro hsync
      rw [hst] at hsync
      cases hsync
    have hgreeting := t.onSegmentSynSent_greeting p
    generalize t.onSegmentSynSent p = u at hgreeting
    cases hgreeting with
    | ignored => exact ⟨rfl, rfl, hsync⟩
    | refused => exact ⟨rfl, rfl, hsync⟩
    | reset => exact ⟨rfl, rfl, fun hsync => by cases hsync⟩
    | opened => exact ⟨rfl, rfl, fun _ => rfl⟩
    | crossed => exact ⟨rfl, rfl, fun hsync => by cases hsync⟩
  obtain ⟨hguard, hsample, hflag⟩ := hspec
  have hnone := h.early hst
  have huntimed := h.untimed (.inl hst)
  refine ⟨⟨fun hs => absurd (hsample.trans huntimed) hs, fun hg => absurd (hguard.trans hnone) hg⟩, ?_, ?_, ?_⟩
  · intro hsync hup
    rw [hflag hsync] at hup
    cases hup
  · exact fun _ => hguard.trans hnone
  · exact fun _ => hsample.trans huntimed

/-- A segment. -/
theorem Ruled.onSegment (h : t.Ruled) (ce : Bool) : (t.onSegment now p ce).Ruled := by
  by_cases hns : t.state = .synSent
  · rw [Tcb.onSegment, if_pos hns]
    exact h.onSegmentSynSent hns
  have hreceipt := t.onSegment_receipt now p ce hns
  have hts := t.core_advanceTsRecent p
  have hrec := t.recovery_advanceTsRecent p
  have hcore := t.core_onSegment now p ce
  have htaken : t.core.admits p = true → t.core.validAck p = true →
      (t.onSegment now p ce).core = ((t.core.advanceTsRecent p).acked p).onText p :=
    fun hadm hv => hcore.trans (Core.onSegment_taken hns hadm hv)
  generalize t.onSegment now p ce = u at hreceipt htaken
  cases hreceipt with
  | spared _ _ _ _ _ _ _ => exact h.keep rfl rfl rfl (.inl rfl)
  | reset _ _ _ => exact h.keep rfl rfl rfl (.inr rfl)
  | lingers _ => exact h.keep rfl rfl rfl (.inl rfl)
  | badAck _ _ _ =>
    exact h.keep hrec (congrArg Core.toOptions hts) (congrArg Core.toSendSpace hts) (.inr rfl)
  | synAgain hdup =>
    have hst : t.state = .synReceived := t.core.state_of_dupSyn p hdup
    refine ⟨h.toBars.congr rfl rfl, fun hsync => ?_, fun hsyn => h.early hsyn, fun ho => h.untimed ho⟩
    have hsync' : t.state.synchronized = true := hsync
    rw [hst] at hsync'
    cases hsync'
  | opens hst hadm hv =>
    have hstate := congrArg Core.state (htaken hadm hv)
    have hlate := hstate.trans_ne (Host.closingState_ne (Host.ackedState_ne (c := t.core) hns).1 (.inl rfl))
    have hlate' := hstate.trans_ne (Host.closingState_ne (Host.ackedState_ne (c := t.core) hns).2 (.inr rfl))
    have hopts : (((t.advanceTsRecent p).opened p).onText now p ce).toOptions = t.toOptions :=
      congrArg Core.toOptions (htaken hadm hv)
    have hl : (((t.advanceTsRecent p).opened p).onText now p ce).toLossRecovery =
        { t.toLossRecovery with retransmit := false } := by
      rw [recovery_onText, recovery_opened, hrec]
    refine ⟨⟨?_, ?_⟩, fun _ hup => ?_, fun hsyn => absurd hsyn hlate, fun ho => ?_⟩
    · rw [hl]
      exact h.timed
    · rw [hl, hopts]
      exact h.drain
    · rw [hl] at hup
      cases hup
    · exact absurd ho (not_or.mpr ⟨hlate, hlate'⟩)
  | taken hst hadm hv =>
    have hstate := congrArg Core.state (htaken hadm hv)
    have hacked := Host.ackedState_ne (c := t.core) hns
    have hlate := hstate.trans_ne (Host.closingState_ne hacked.1 (.inl rfl))
    have hlate' := hstate.trans_ne (Host.closingState_ne hacked.2 (.inr rfl))
    have hle : (t.advanceTsRecent p).core.validAck p = true := by rw [hts]; exact hv
    have hnew : p.ack.gt (t.advanceTsRecent p).sndNxt = false := by
      have hne : (t.advanceTsRecent p).core.state ≠ .synReceived := by rw [hts]; exact hst
      exact (t.advanceTsRecent p).core.not_gt_of_validAck p hne hle
    have hbars : (t.advanceTsRecent p).Bars := h.toBars.congr hrec (congrArg Core.toOptions hts)
    have hcu := ((t.advanceTsRecent p).acks now p).core_onText now p ce
    have hopts := congrArg Core.toOptions hcu
    have hsend := congrArg Core.toSendSpace hcu
    have hl := ((t.advanceTsRecent p).acks now p).recovery_onText now p ce
    refine ⟨hbars.acks.congr hl hopts, fun hsync => ?_, fun hsyn => absurd hsyn hlate, fun ho => ?_⟩
    · have hsync' : ((((t.advanceTsRecent p).acks now p).onText now p ce)).core.state.synchronized = true := hsync
      rw [hstate] at hsync'
      have hold : t.core.ackedState.synchronized = true := closingState_sync hsync'
      have hne : t.core.state ≠ .synReceived := hst
      rw [Core.ackedState, if_neg hne] at hold
      have hans := (h.answered hold).congr hrec (congrArg Core.toOptions hts) (congrArg Core.toSendSpace hts)
      exact (hans.acks hbars hnew).congr hl hopts hsend
    · exact absurd ho (not_or.mpr ⟨hlate, hlate'⟩)

/-- The timers: a timeout raises the bar with the flag. -/
theorem Ruled.onTimer (h : t.Ruled) : (t.onTimer now).Ruled := by
  have hlate : ∀ v : Tcb κ, v.Ruled → (((v.onPersistTimer now).onTimeWaitTimer now).onDelayedAckTimer now).Ruled := by
    intro v hv
    have hpersist : (v.onPersistTimer now).Ruled := by
      unfold onPersistTimer
      split
      · exact hv.keep rfl rfl rfl (.inl rfl)
      · exact hv
    generalize v.onPersistTimer now = w at hpersist
    have hwait : (w.onTimeWaitTimer now).Ruled := by
      unfold onTimeWaitTimer
      split
      · exact hpersist.keep rfl rfl rfl (.inr rfl)
      · exact hpersist
    generalize w.onTimeWaitTimer now = x at hwait
    unfold onDelayedAckTimer
    split
    · exact hwait.keep rfl rfl rfl (.inl rfl)
    · exact hwait
  refine hlate _ ?_
  unfold onRtxTimer
  split
  · split
    · rename_i hst
      have huntimed := h.untimed (.inl hst)
      have hnone := h.early hst
      simp only [synTimeout]
      split
      · refine ⟨⟨fun hs => absurd huntimed hs, fun hg => absurd hnone hg⟩, ?_, ?_, ?_⟩
        · intro hsync
          cases hsync
        · exact fun _ => hnone
        · exact fun _ => huntimed
      · refine ⟨⟨fun hs => absurd huntimed hs, fun hg => absurd hnone hg⟩, ?_, ?_, ?_⟩
        · intro hsync
          have hsync' : t.state.synchronized = true := hsync
          rw [hst] at hsync'
          cases hsync'
        · exact fun _ => hnone
        · exact fun _ => huntimed
    · rename_i hst
      -- recovery is abandoned, so no recovery can lift the bar
      have hpoint : t.sackEnabled = true → (t.rtxTimeout now).scoreboard.recoveryPoint = none := by
        intro hs
        simp only [rtxTimeout, hs, if_true]
        rfl
      refine ⟨⟨fun hs => absurd rfl hs, fun _ => ⟨rfl, hpoint⟩⟩, fun _ _ => ?_, ?_, fun _ => rfl⟩
      · refine .inr (.inl ⟨rfl, fun hs q hq => ?_⟩)
        rw [hpoint hs] at hq
        cases hq
      · exact fun hsyn => absurd hsyn hst
  · exact h

/-! ## A transmission -/

/-- Data goes out under a go-back-N flag that has nothing left to resend. -/
def Revives (t : Tcb κ) (now : Instant) : Prop :=
  t.retransmit = true ∧ t.inflight = 0 ∧ 0 < t.portion now

instance : Decidable (t.Revives now) := inferInstanceAs (Decidable (_ ∧ _ ∧ _))

/-- With the flag past step 0. -/
theorem Ruled.lower (h : t.Ruled) (hl : u.toLossRecovery = t.lowered.toLossRecovery)
    (ho : u.toOptions = t.toOptions) (hs : u.toSendSpace = t.toSendSpace) (hst : u.state = t.state) : u.Ruled := by
  refine ⟨⟨?_, ?_⟩, fun _ hup => ?_, ?_, ?_⟩
  · rw [hl]
    exact h.timed
  · rw [hl, ho]
    exact h.drain
  · rw [hl] at hup
    have hup' : (t.retransmit && decide (t.inflight = 0)) = true := hup
    rw [Bool.and_eq_true, decide_eq_true_eq] at hup'
    rw [hs]
    exact .inl ((SeqNumber.eq_iff_offsetFrom _ _).mpr hup'.2).symm
  · rw [hl, hst]
    exact h.early
  · rw [hl, hst]
    exact h.untimed

/-- Past the handshake only the bar and the flag matter. -/
theorem Ruled.of_past (hb : u.Bars) (ha : u.Answered) (h1 : u.state ≠ .synSent) (h2 : u.state ≠ .synReceived) :
    u.Ruled :=
  ⟨hb, fun _ => ha, fun h => absurd h h1, fun h => absurd h (not_or.mpr ⟨h1, h2⟩)⟩

theorem Ruled.startRtx (h : t.Ruled) : (t.startRtx now).Ruled := by
  have hc := t.core_startRtx now
  exact h.keep (t.recovery_startRtx now) (congrArg Core.toOptions hc) (congrArg Core.toSendSpace hc)
    (.inl (congrArg Core.state hc))

/-- New data, with the flag down: it is timed unless something is, or the bar is up. -/
theorem Ruled.noteSent (h : t.Ruled) (n room : Nat) (hdown : t.retransmit = false) (h1 : t.state ≠ .synSent)
    (h2 : t.state ≠ .synReceived) : (t.noteSent now n room).Ruled := by
  have hnote : (t.noteSent now n room).retransmit = t.retransmit ∧
      (t.noteSent now n room).retransmitted = t.retransmitted ∧
      (t.noteSent now n room).state = t.state ∧ (t.noteSent now n room).toOptions = t.toOptions ∧
      (t.retransmitted = true → (t.noteSent now n room).rttSample = t.rttSample) := by
    simp only [Tcb.noteSent]
    split
    · rename_i hfree
      rw [Bool.and_eq_true, Bool.not_eq_true'] at hfree
      have hno : t.retransmitted ≠ true := by
        rw [hfree.2]
        simp
      split
      · exact ⟨rfl, rfl, rfl, rfl, fun hre => absurd hre hno⟩
      · exact ⟨rfl, rfl, rfl, rfl, fun hre => absurd hre hno⟩
    · split
      · exact ⟨rfl, rfl, rfl, rfl, fun _ => rfl⟩
      · exact ⟨rfl, rfl, rfl, rfl, fun _ => rfl⟩
  obtain ⟨hboard, hguard⟩ := t.noteSent_frame now n room
  obtain ⟨hflag, hbar, hstate, hopts, hsample⟩ := hnote
  refine .of_past ⟨fun hs => ?_, ?_⟩ (fun hup => ?_) (hstate ▸ h1) (hstate ▸ h2)
  · rw [hbar]
    by_contra hre
    rw [Bool.not_eq_false] at hre
    rw [hsample hre] at hs
    exact absurd ((h.timed hs).symm.trans hre) (by simp)
  · rw [hguard, hbar, hopts, hboard]
    exact h.drain
  · rw [hflag, hdown] at hup
    cases hup

/-- What is emitted past the handshake. -/
theorem Ruled.source (h : t.Ruled) {q : Emit κ} (hq : Source t now q) (hsync : t.state.synchronized = true)
    (hno : ¬ t.Revives now) (hidle : t.tsEnabled = false → t.inflight = 0 → t.rttSample = none) :
    q.1.Ruled := by
  have hpast : t.state ≠ .synSent ∧ t.state ≠ .synReceived := by
    constructor
    · intro he
      rw [he] at hsync
      cases hsync
    · intro he
      rw [he] at hsync
      cases hsync
  have hgated : (t.lowered.gated now).Ruled := by
    have hgcore := t.lowered.core_gated now
    exact h.lower (t.lowered.owed_gated now).2 (congrArg Core.toOptions hgcore)
      (congrArg Core.toSendSpace hgcore) (congrArg Core.state hgcore)
  cases hq with
  | resend n _ _ _ _ | resendFin f _ _ _ _ _ _ =>
    refine Ruled.startRtx (.of_past ⟨h.timed, h.drain⟩ (fun hup => ?_) hpast.1 hpast.2)
    cases hup
  | repair seq n isRescue hs hrec _ _ _ _ =>
    have hguard : t.gbnRecover = none := by
      by_contra hg
      have hpoint := (h.drain hg).2 hs
      rw [Scoreboard.inRecovery, hpoint] at hrec
      cases hrec
    refine Ruled.startRtx (.of_past ⟨fun hne => absurd rfl hne, fun hne => absurd hguard hne⟩ (fun hup => ?_)
      hpast.1 hpast.2)
    have hup' : (t.retransmit && decide (t.inflight = 0)) = true := hup
    rw [Bool.and_eq_true, decide_eq_true_eq] at hup'
    exact .inl ((SeqNumber.eq_iff_offsetFrom _ _).mpr hup'.2).symm
  | data n hn hpos =>
    have hprec := (t.lowered.owed_paced now).2
    have hpcore := t.lowered.core_paced now
    have hpaced : (t.lowered.paced now).Ruled :=
      h.lower hprec (congrArg Core.toOptions hpcore) (congrArg Core.toSendSpace hpcore) (congrArg Core.state hpcore)
    have hstate : (t.lowered.paced now).state = t.state := congrArg Core.state hpcore
    have hdown : (t.lowered.paced now).retransmit = false := by
      rw [hprec]
      change (t.retransmit && decide (t.inflight = 0)) = false
      rw [Bool.and_eq_false_iff, decide_eq_false_iff_not, ← Bool.not_eq_true]
      by_contra hboth
      rw [not_or, not_not, not_not] at hboth
      exact hno ⟨hboth.1, hboth.2, hn ▸ hpos⟩
    have hbuilt : ((t.lowered.paced now).emit t.sndNxt { psh := t.sentData + n = t.tx.len }
        (t.tx.peek t.sentData n)).1.Ruled := hpaced.keep rfl rfl rfl (.inl rfl)
    exact (hbuilt.noteSent n t.windowRoom hdown (hstate.trans_ne hpast.1) (hstate.trans_ne hpast.2)).startRtx
  | probe _ _ _ => exact hgated.keep rfl rfl rfl (.inl rfl)
  | quiet _ => exact hgated
  | fin _ _ _ _ =>
    -- under a flag that is still up, nothing is left to be timed
    have hgrec := (t.lowered.owed_gated now).2
    have hgcore := t.lowered.core_gated now
    have hstate : (t.lowered.gated now).state = t.state := congrArg Core.state hgcore
    have hopts : (t.lowered.gated now).toOptions = t.toOptions := congrArg Core.toOptions hgcore
    have hlast : ∀ v : Tcb κ, v.Ruled → v.toLossRecovery = t.lowered.toLossRecovery → v.state = t.state →
        v.toOptions = t.toOptions → (v.noteFin now).Ruled := by
      intro v hv hl hst ho
      have hlate : ∀ st : State, st ≠ .synSent → st ≠ .synReceived →
          finState st ≠ .synSent ∧ finState st ≠ .synReceived := by
        intro st h1 h2
        cases st <;> simp_all [finState]
      have hfin : ({ v with finSeq := some v.dataEnd, sndNxt := v.dataEnd + 1 } : Tcb κ).Ruled := by
        refine .of_past ⟨hv.timed, hv.drain⟩ (fun hup => ?_) (hst.trans_ne hpast.1) (hst.trans_ne hpast.2)
        have hup' : v.retransmit = true := hup
        rw [hl] at hup'
        have hboth : (t.retransmit && decide (t.inflight = 0)) = true := hup'
        rw [Bool.and_eq_true, decide_eq_true_eq] at hboth
        refine .inr (.inr ⟨by simp, fun hts => ?_⟩)
        have hts' : v.tsEnabled = false := hts
        rw [ho] at hts'
        exact (congrArg LossRecovery.rttSample hl).trans (hidle hts' hboth.2)
      have hgo : (Tcb.startRtx _ now).Ruled := hfin.startRtx
      have hgoState : (Tcb.startRtx _ now).state = t.state :=
        (congrArg Core.state (core_startRtx ({ v with
          finSeq := some v.dataEnd, sndNxt := v.dataEnd + 1 } : Tcb κ) now)).trans hst
      obtain ⟨h1, h2⟩ := hlate _ (hgoState.trans_ne hpast.1) (hgoState.trans_ne hpast.2)
      exact .of_past (hgo.toBars.congr rfl rfl) ((hgo.answered (by rw [hgoState]; exact hsync)).congr rfl rfl rfl) h1 h2
    exact hlast _ (hgated.keep rfl rfl rfl (.inl rfl)) hgrec hstate hopts

/-- The clock of a call decides nothing of it. -/
theorem Revives.clocked (h : (t.clocked now).Revives now) : t.Revives now := by
  have hallow : (t.clocked now).allowance now = t.allowance now := by
    change ((t.clocked now).pace now t.windowRoom).2 = (t.pace now t.windowRoom).2
    simp only [pace]
    split
    · rename_i hnone
      have hsame : CongestionControl.pacingRate t.cc = none := hnone
      rw [hsame]
    · rename_i rate hsome
      have hsame : CongestionControl.pacingRate t.cc = some rate := hsome
      rw [hsame]
      rfl
  obtain ⟨hup, hnone, hpos⟩ := h
  rw [portion, hallow] at hpos
  exact ⟨hup, hnone, hpos⟩

theorem Ruled.pollTransmit (h : t.Ruled) (hno : ¬ t.Revives now)
    (hidle : t.tsEnabled = false → t.inflight = 0 → t.rttSample = none) : (t.pollTransmit now).1.Ruled := by
  have hclock : (t.clocked now).Ruled := h.keep rfl rfl rfl (.inl rfl)
  have hturn := t.pollTransmit_turn now
  have hidles : ∀ v : Tcb κ, Idles t now v → v.Ruled := by
    intro v hv
    cases hv with
    | synReceived _ _ _ | timeWait _ => exact hclock
    | data _ _ =>
      have hgcore := (t.clocked now).lowered.core_gated now
      exact hclock.lower ((t.clocked now).lowered.owed_gated now).2 (congrArg Core.toOptions hgcore)
        (congrArg Core.toSendSpace hgcore) (congrArg Core.state hgcore)
  have hopen : ∀ v : Tcb κ, v.Bars → v.gbnRecover = t.gbnRecover → v.rttSample = t.rttSample →
      v.state = t.state → t.state = .synSent ∨ t.state = .synReceived → v.Ruled := by
    intro v hv hg hs hst ho
    refine ⟨hv, fun hsync => ?_, fun hsyn => ?_, fun _ => hs.trans (h.untimed ho)⟩
    · rw [hst] at hsync
      cases ho with
      | inl he => rw [he] at hsync; cases hsync
      | inr he => rw [he] at hsync; cases hsync
    · rw [hg]
      exact h.early (hst.symm.trans hsyn)
  generalize t.pollTransmit now = q at hturn
  cases hturn with
  | rst _ _ => exact h.keep rfl rfl rfl (.inl rfl)
  | mute _ _ | synWaits _ _ _ _ => exact hclock
  | syn _ hst _ => exact Ruled.startRtx (hopen _ ⟨h.timed, h.drain⟩ rfl rfl rfl (.inl hst))
  | synAgain _ hst _ _ => exact hopen _ ⟨h.timed, h.drain⟩ rfl rfl rfl (.inl hst)
  | synAck _ hst _ => exact Ruled.startRtx (hopen _ ⟨h.timed, h.drain⟩ rfl rfl rfl (.inr hst))
  | synAckAgain _ hst _ _ => exact hopen _ ⟨h.timed, h.drain⟩ rfl rfl rfl (.inr hst)
  | sends _ hsync hsource _ => exact hclock.source hsource hsync (fun hr => hno hr.clocked) hidle
  | ack _ hi _ => exact (hidles _ hi).keep rfl rfl rfl (.inl rfl)
  | idle _ hi _ => exact hidles _ hi

/-- A new segment of data, which is timed unless another is. -/
structure Times (t : Tcb κ) (now : Instant) (u : Tcb κ) (d : Datagram) : Prop where
  pos : 0 < d.payload.len
  le : d.payload.len ≤ t.tx.len
  seq : d.repr.seq = t.sndNxt
  nxt : u.sndNxt = t.sndNxt + d.payload.len
  sample : t.rttSample ≠ none ∧ u.rttSample = t.rttSample ∨
    t.rttSample = none ∧ u.rttSample = some (now, u.sndNxt)

theorem noteSent_sample (n room : Nat) (hs : (t.noteSent now n room).rttSample ≠ none) :
    (t.noteSent now n room).sndNxt = t.sndNxt + n ∧
      (t.rttSample ≠ none ∧ (t.noteSent now n room).rttSample = t.rttSample ∨
        t.rttSample = none ∧ (t.noteSent now n room).rttSample = some (now, t.sndNxt + n)) := by
  revert hs
  simp only [Tcb.noteSent]
  split
  · rename_i hfree
    rw [Bool.and_eq_true, Option.isNone_iff_eq_none] at hfree
    have hnone : t.rttSample = none := hfree.1
    split
    · exact fun _ => ⟨rfl, .inr ⟨hnone, rfl⟩⟩
    · exact fun _ => ⟨rfl, .inr ⟨hnone, rfl⟩⟩
  · split
    · exact fun hs => ⟨rfl, .inl ⟨hs, rfl⟩⟩
    · exact fun hs => ⟨rfl, .inl ⟨hs, rfl⟩⟩

/-- While a sample is pending, what goes out past the handshake is new data, or no data. -/
theorem Ruled.source_pending (h : t.Ruled) {q : Emit κ} (hq : Source t now q)
    (hsync : t.state.synchronized = true) (hts : t.tsEnabled = false)
    (hidle : t.inflight = 0 → t.rttSample = none) (hs : q.1.rttSample ≠ none) :
    q.1.rttSample = t.rttSample ∧ (∀ d, q.2 = some d → d.payload.len = 0) ∨
      ∃ d, q.2 = some d ∧ Times t now q.1 d := by
  have hstart := fun v : Tcb κ => v.recovery_startRtx now
  have hempty : ∀ d : Datagram, d.payload = Bytes.empty → d.payload.len = 0 := by
    intro d hd
    rw [hd]
    rfl
  have hgrec : (t.lowered.gated now).rttSample = t.rttSample :=
    (congrArg LossRecovery.rttSample (t.lowered.owed_gated now).2).trans rfl
  cases hq with
  | resend n hup hout _ _ =>
    -- the flag is answered: behind the bar nothing is timed
    simp only [Emit.after, hstart] at hs
    have hpend : t.rttSample ≠ none := hs
    cases h.answered hsync hup with
    | inl hall =>
      have hz : t.inflight = 0 := (SeqNumber.eq_iff_offsetFrom _ _).mp hall.symm
      omega
    | inr hans =>
      cases hans with
      | inl hbar => exact absurd ((h.timed hpend).symm.trans hbar.1) (by simp)
      | inr hlast => exact absurd (hlast.2 hts) hpend
  | resendFin f _ _ _ _ _ _ =>
    refine .inl ⟨?_, ?_⟩
    · simp only [Emit.after, hstart]
      rfl
    · rintro d ⟨⟩
      rfl
  | repair seq n isRescue _ _ _ _ _ _ =>
    simp only [Emit.after, hstart] at hs
    exact absurd rfl hs
  | data n hn hpos =>
    right
    have hpcore := t.lowered.core_paced now
    have hprec : (t.lowered.paced now).rttSample = t.rttSample :=
      (congrArg LossRecovery.rttSample (t.lowered.owed_paced now).2).trans rfl
    have hnxt : (t.lowered.paced now).sndNxt = t.sndNxt := congrArg (fun c : Core => c.sndNxt) hpcore
    have hroom : t.sentData + n ≤ t.tx.len := by
      have hle : n ≤ t.unsentData := by
        rw [hn, portion]
        exact (Nat.min_le_left _ _).trans (Nat.min_le_right _ _)
      have hsent : t.sentData ≤ t.tx.len := Nat.min_le_right _ _
      rw [unsentData] at hle
      omega
    have hlen : (t.tx.peek t.sentData n).len = n := by
      rw [RingBuffer.peek_len]
      omega
    simp only [Emit.after, hstart] at hs
    generalize hbuilt : ((t.lowered.paced now).emit t.sndNxt { psh := t.sentData + n = t.tx.len }
      (t.tx.peek t.sentData n)).1 = v at hs
    have hvnxt : v.sndNxt = t.sndNxt := by
      rw [← hbuilt]
      exact hnxt
    have hvsample : v.rttSample = t.rttSample := by
      rw [← hbuilt]
      exact hprec
    obtain ⟨hn', hsample⟩ := noteSent_sample (t := v) n t.windowRoom hs
    have hcore := (v.noteSent now n t.windowRoom).core_startRtx now
    have hnext : ((v.noteSent now n t.windowRoom).startRtx now).sndNxt = t.sndNxt + n :=
      (congrArg (fun c : Core => c.sndNxt) hcore).trans (hn'.trans (by rw [hvnxt]))
    refine ⟨_, rfl, ?_, ?_, rfl, ?_, ?_⟩
    · change 0 < (t.tx.peek t.sentData n).len
      rw [hlen]
      exact hpos
    · change (t.tx.peek t.sentData n).len ≤ _
      rw [hlen]
      omega
    · change (Tcb.startRtx _ now).sndNxt = t.sndNxt + (t.tx.peek t.sentData n).len
      rw [hlen, hbuilt]
      exact hnext
    · simp only [Emit.after]
      rw [hbuilt, hstart, hnext, ← hvsample, ← hvnxt]
      exact hsample
  | probe _ hshut _ =>
    have hpend : t.rttSample ≠ none := fun hnone => hs (hgrec.trans hnone)
    exact absurd (hidle hshut.2.1) hpend
  | fin _ _ _ _ =>
    refine .inl ⟨?_, ?_⟩
    · simp only [Emit.after]
      rw [recovery_noteFin]
      exact hgrec
    · rintro d ⟨⟩
      rfl
  | quiet _ =>
    refine .inl ⟨hgrec, ?_⟩
    rintro d ⟨⟩

/-- The same for the whole call. -/
theorem Ruled.poll_pending (h : t.Ruled) (hts : t.tsEnabled = false) (hidle : t.inflight = 0 → t.rttSample = none)
    (hs : (t.pollTransmit now).1.rttSample ≠ none) :
    (t.pollTransmit now).1.rttSample = t.rttSample ∧
        (∀ d, (t.pollTransmit now).2 = some d → d.payload.len = 0) ∨
      ∃ d, (t.pollTransmit now).2 = some d ∧ Times t now (t.pollTransmit now).1 d := by
  have hclock : (t.clocked now).Ruled := h.keep rfl rfl rfl (.inl rfl)
  have hturn := t.pollTransmit_turn now
  have hnone : ∀ d : Datagram, none = some d → d.payload.len = 0 := by
    intro d hd
    cases hd
  have hidles : ∀ v : Tcb κ, Idles t now v → v.rttSample = t.rttSample := by
    intro v hv
    cases hv with
    | synReceived _ _ _ | timeWait _ => rfl
    | data _ _ => exact (congrArg LossRecovery.rttSample ((t.clocked now).lowered.owed_gated now).2).trans rfl
  have hstart := fun v : Tcb κ => v.recovery_startRtx now
  generalize t.pollTransmit now = q at hturn hs
  cases hturn with
  | rst _ _ | synAgain _ _ _ _ =>
    refine .inl ⟨rfl, ?_⟩
    rintro d ⟨⟩
    rfl
  | mute _ _ | synWaits _ _ _ _ => exact .inl ⟨rfl, hnone⟩
  | syn _ _ _ =>
    refine .inl ⟨?_, ?_⟩
    · rw [hstart]
      rfl
    · rintro d ⟨⟩
      rfl
  | synAck _ _ _ =>
    refine .inl ⟨?_, ?_⟩
    · simp only [Emit.after, hstart]
      rfl
    · rintro d ⟨⟩
      rfl
  | synAckAgain _ _ _ _ =>
    refine .inl ⟨rfl, ?_⟩
    rintro d ⟨⟩
    rfl
  | sends _ hsync hsource _ =>
    cases hclock.source_pending hsource hsync hts hidle hs with
    | inl hquiet => exact .inl hquiet
    | inr hnew =>
      obtain ⟨d, hd, h1, h2, h3, h4, h5⟩ := hnew
      exact .inr ⟨d, hd, h1, h2, h3, h4, h5⟩
  | ack _ hi _ =>
    have hsame := hidles _ hi
    refine .inl ⟨hsame, ?_⟩
    rintro d ⟨⟩
    rfl
  | idle _ hi _ => exact .inl ⟨hidles _ hi, hnone⟩

/-- Nothing is timed before the handshake is over. -/
theorem Ruled.opening_pending (h : t.Ruled) (ce : Bool) (ho : t.state = .synSent ∨ t.state = .synReceived) :
    (t.onSegment now p ce).rttSample = none := by
  have hnone := h.untimed ho
  by_cases hsyn : t.state = .synSent
  · rw [Tcb.onSegment, if_pos hsyn, ← hnone]
    have hgreeting := t.onSegmentSynSent_greeting p
    generalize t.onSegmentSynSent p = u at hgreeting
    cases hgreeting <;> rfl
  · have hreceipt := t.onSegment_receipt now p ce hsyn
    have hts := congrArg LossRecovery.rttSample (t.recovery_advanceTsRecent p)
    generalize t.onSegment now p ce = u at hreceipt
    cases hreceipt with
    | spared _ _ _ _ _ _ _ | reset _ _ _ | lingers _ | synAgain _ => exact hnone
    | badAck _ _ _ => exact hts.trans hnone
    | opens _ _ _ =>
      rw [recovery_onText, recovery_opened]
      exact hts.trans hnone
    | taken hne _ _ => exact absurd (ho.resolve_left hsyn) hne

/-- A sample that is still pending behind a segment was not covered by it. -/
theorem Ruled.segment_pending (h : t.Ruled) (p : TcpPacket) (now : Instant) (hts : t.tsEnabled = false) (ce : Bool)
    (hs : (t.onSegment now p ce).rttSample ≠ none) :
    (t.onSegment now p ce).rttSample = t.rttSample ∧
      ((t.onSegment now p ce).sndUna = t.sndUna ∨ (t.onSegment now p ce).sndUna = p.ack ∧
        ∀ s, t.rttSample = some s → p.ack.ge s.2 = false) := by
  have hpast : ¬ (t.state = .synSent ∨ t.state = .synReceived) := fun ho => hs (h.opening_pending ce ho)
  obtain ⟨hsyn, hrec⟩ := not_or.mp hpast
  have hreceipt := t.onSegment_receipt now p ce hsyn
  have hts' := t.core_advanceTsRecent p
  have hrec' := t.recovery_advanceTsRecent p
  generalize t.onSegment now p ce = u at hreceipt hs
  cases hreceipt with
  | spared _ _ _ _ _ _ _ | reset _ _ _ | lingers _ => exact ⟨rfl, .inl rfl⟩
  | synAgain hdup => exact absurd (t.core.state_of_dupSyn p hdup) hrec
  | badAck hst _ _ => exact absurd hst hrec
  | opens hst _ _ => exact absurd hst hrec
  | taken hst _ _ =>
    obtain ⟨huna, -⟩ := t.taken_send now p hst ce rfl
    have hbars : (t.advanceTsRecent p).Bars := h.toBars.congr hrec' (congrArg Core.toOptions hts')
    have hoff : (t.advanceTsRecent p).tsEnabled = false := (congrArg (fun c : Core => c.tsEnabled) hts').trans hts
    have hsend : (t.advanceTsRecent p).sndUna = t.sndUna := congrArg (fun c : Core => c.sndUna) hts'
    have hold : (t.advanceTsRecent p).rttSample = t.rttSample := congrArg LossRecovery.rttSample hrec'
    rw [recovery_onText] at hs
    obtain ⟨hsame, huncovered⟩ := hbars.pending hoff hs
    refine ⟨?_, ?_⟩
    · rw [recovery_onText, hsame, hold]
    · rw [hsend, hold] at huncovered
      rw [huna, ackedUna]
      split
      · rename_i hgt
        exact .inr ⟨rfl, huncovered hgt⟩
      · exact .inl rfl

end Tcb

/-! ## The log -/

/-- A transmission of data: where it starts, how long it is, and when it went out. -/
structure Shot where
  pos : Nat
  len : Nat
  time : Instant
  deriving DecidableEq

namespace Shot

def stop (s : Shot) : Nat := s.pos + s.len

/-- No octet is in both. -/
def Apart (s s' : Shot) : Prop := s.stop ≤ s'.pos ∨ s'.stop ≤ s.pos

/-- `s` went out, and no octet of it since. -/
def Once (log : List Shot) (s : Shot) : Prop :=
  ∃ before after, log = before ++ s :: after ∧ ∀ s' ∈ after, s.Apart s'

variable {log : List Shot} {s s' : Shot}

theorem Once.append (h : Once log s) (ha : s.Apart s') : Once (log ++ [s']) s := by
  obtain ⟨before, after, he, hafter⟩ := h
  refine ⟨before, after ++ [s'], ?_, fun x hx => ?_⟩
  · rw [he, List.append_assoc, List.cons_append]
  · cases List.mem_append.mp hx with
    | inl hold => exact hafter x hold
    | inr hnew =>
      rw [List.mem_singleton.mp hnew]
      exact ha

/-- The last transmission is apart from what has not gone out since. -/
theorem Once.last (h : Once (log ++ [s']) s) (hne : s ≠ s') : s.Apart s' := by
  obtain ⟨before, after, he, hafter⟩ := h
  have hlast := congrArg List.getLast? he
  rw [List.getLast?_append, List.getLast?_append] at hlast
  cases after with
  | nil => exact absurd (Option.some_inj.mp hlast).symm hne
  | cons x after =>
    refine hafter s' (List.mem_of_getLast? ?_)
    rw [List.getLast?_cons_cons] at hlast
    have hsome : ((x :: after).getLast?).isSome = true := by simp
    cases hx : (x :: after).getLast? with
    | none => rw [hx] at hsome; cases hsome
    | some y =>
      rw [hx] at hlast
      exact hlast.symm

theorem once_last (log : List Shot) (s : Shot) : Once (log ++ [s]) s :=
  ⟨log, [], rfl, fun _ hx => by cases hx⟩

end Shot

/-- A host, and its transmissions of data in the order they went out. -/
structure Timing (κ : Type) where
  host : Host κ
  log : List Shot

namespace Timing

variable {κ : Type} [CongestionControl κ]

def start (r : Host κ) : Timing κ := ⟨r, []⟩

/-- What a call puts on the wire, if it is data. -/
def shots (r : Host κ) : Input → List Shot
  | .poll now =>
    match (r.tcb.pollTransmit now).2 with
    | some d => if 0 < d.payload.len then [⟨(r.label d).seqPos, d.payload.len, now⟩] else []
    | none => []
  | _ => []

def next (w : Timing κ) (i : Input) : Timing κ := ⟨(w.host.input i).1, w.log ++ shots w.host i⟩

def step (w : Timing κ) (i : Input) : Option (Timing κ) := some (w.next i)

/-- The transmission that `s` measures went out at the time noted, ends where it says,
and has not been sent again. -/
structure Measures (w : Timing κ) (s : Instant × SeqNumber) (shot : Shot) : Prop where
  once : Shot.Once w.log shot
  time : shot.time = s.1
  data : 0 < shot.len
  stop : s.2 = w.host.tcb.iss + shot.stop

/-- Karn's rule: without timestamps, what a sample measures went out once, and is covered
by the ACK. -/
def Rule (w : Timing κ) : Input → Prop
  | .segment seg now ce => w.host.tcb.tsEnabled = false → ∀ s, w.host.tcb.sampleOf now seg.tcp = some s →
      ∃ shot, w.Measures s shot ∧ shot.stop ≤ (w.host.input (.segment seg now ce)).1.una
  | _ => True

/-- Data goes out under a go-back-N flag that has nothing left to resend. -/
def Stale (w : Timing κ) : Input → Prop
  | .poll now => w.host.tcb.Revives now
  | _ => False

/-- The pending sample is of a transmission that is outstanding. -/
structure Kept (w : Timing κ) : Prop where
  ok : w.host.Ok
  ruled : w.host.tcb.Ruled
  timed : w.host.tcb.tsEnabled = false → ∀ s, w.host.tcb.rttSample = some s →
    ∃ shot, w.Measures s shot ∧ w.host.una < shot.stop ∧ shot.stop ≤ w.host.nxt

variable {w : Timing κ} {i : Input}

omit [CongestionControl κ] in
/-- While nothing is outstanding nothing is timed. -/
theorem Kept.idle (h : w.Kept) (hts : w.host.tcb.tsEnabled = false) (hz : w.host.tcb.inflight = 0) :
    w.host.tcb.rttSample = none := by
  cases hs : w.host.tcb.rttSample with
  | none => rfl
  | some s =>
    obtain ⟨shot, -, h1, h2⟩ := h.timed hts s hs
    have hend : w.host.nxt = w.host.una + w.host.tcb.inflight := rfl
    omega

/-- What an ACK measures is what was timed. -/
theorem Kept.rule (h : w.Kept) (i : Input) : w.Rule i := by
  cases i with
  | segment seg now ce =>
    intro hts s hs
    obtain ⟨hadv, hpend, hge⟩ := Tcb.sampleOf_spec hs
    obtain ⟨shot, hm, hlow, hhigh⟩ := h.timed hts s hpend
    refine ⟨shot, hm, ?_⟩
    simp only [Tcb.advances, Bool.and_eq_true, decide_eq_true_eq] at hadv
    obtain ⟨⟨⟨⟨hsyn, hrec⟩, hadm⟩, hv⟩, hgt⟩ := hadv
    have hcore := (w.host.tcb.core_onSegment now seg.tcp ce).trans (Core.onSegment_taken hsyn hadm hv)
    obtain ⟨hiss, hmono, hle, -, -, -⟩ := h.ok.acked_taken hsyn hv hcore
    have hat := (h.ok.input (.segment seg now ce)).sending.at_una
    have huna : (w.host.tcb.onSegment now seg.tcp ce).sndUna = seg.tcp.ack := by
      have hs := congrArg Core.toSendSpace hcore
      have hack : (w.host.tcb.core.ackedSend seg.tcp).sndUna = seg.tcp.ack := by
        have hne : w.host.tcb.core.state ≠ .synReceived := hrec
        have hgt' : seg.tcp.ack.gt w.host.tcb.core.sndUna = true := hgt
        rw [Core.ackedSend, if_neg hne, if_pos hgt']
        rfl
      exact (congrArg SendSpace.sndUna hs).trans hack
    have hpos : seg.tcp.ack = w.host.tcb.iss + (w.host.input (.segment seg now ce)).1.una := by
      rw [← huna, ← hiss]
      exact hat
    have hnear := h.ok.near
    have hmono' : w.host.una ≤ (w.host.input (.segment seg now ce)).1.una := hmono
    have hle' : (w.host.input (.segment seg now ce)).1.una ≤ w.host.nxt := hle
    rw [hm.stop, hpos, SeqNumber.pos_ge _ (by omega) (by omega), decide_eq_true_eq] at hge
    exact hge
  | _ => trivial

omit [CongestionControl κ] in
/-- A call that transmits no data, and behind which nothing new is timed. -/
theorem Kept.quiet (h : w.Kept) {r' : Host κ} (hok : r'.Ok) (hruled : r'.tcb.Ruled)
    (hiss : r'.tcb.iss = w.host.tcb.iss) (hnxt : w.host.nxt ≤ r'.nxt)
    (hpend : r'.tcb.tsEnabled = false → r'.tcb.rttSample ≠ none → w.host.tcb.tsEnabled = false ∧
      r'.tcb.rttSample = w.host.tcb.rttSample ∧
      ∀ s shot, w.host.tcb.rttSample = some s → w.Measures s shot → w.host.una < shot.stop →
        shot.stop ≤ w.host.nxt → r'.una < shot.stop) :
    Kept ⟨r', w.log⟩ := by
  refine ⟨hok, hruled, fun hts s hs => ?_⟩
  have hs' : r'.tcb.rttSample = some s := hs
  obtain ⟨hold, hsame, hlow⟩ := hpend hts (by rw [hs']; simp)
  rw [hs'] at hsame
  obtain ⟨shot, hm, h1, h2⟩ := h.timed hold s hsame.symm
  refine ⟨shot, ⟨hm.once, hm.time, hm.data, ?_⟩, hlow s shot hsame.symm hm h1 h2, h2.trans hnxt⟩
  exact hm.stop.trans (by rw [← hiss])

/-- The timers, and the calls of the application. -/
theorem Kept.call (h : w.Kept) (hi : i = .close ∨ (∃ data, i = .send data) ∨ (∃ n, i = .recv n) ∨
    ∃ now, i = .timer now) : (w.next i).Kept := by
  have heffect := h.ok.effect i
  have hok := h.ok.input i
  -- none of them starts a sample
  have hspec : (w.host.input i).1.tcb.Ruled ∧ shots w.host i = [] ∧
      (w.host.input i).1.tcb.toOptions = w.host.tcb.toOptions ∧
      ((w.host.input i).1.tcb.rttSample = none ∨
        (w.host.input i).1.tcb.rttSample = w.host.tcb.rttSample) := by
    rcases hi with rfl | ⟨data, rfl⟩ | ⟨n, rfl⟩ | ⟨now, rfl⟩
    · refine ⟨⟨h.ruled.toBars.congr rfl rfl, h.ruled.answered, h.ruled.early, h.ruled.untimed⟩, rfl, rfl, .inr rfl⟩
    · change (w.host.tcb.send data).1.Ruled ∧ _ ∧ (w.host.tcb.send data).1.toOptions = _ ∧
        ((w.host.tcb.send data).1.rttSample = none ∨ (w.host.tcb.send data).1.rttSample = _)
      unfold Tcb.send
      split
      · exact ⟨⟨h.ruled.toBars.congr rfl rfl, h.ruled.answered, h.ruled.early, h.ruled.untimed⟩, rfl, rfl, .inr rfl⟩
      · exact ⟨⟨h.ruled.toBars.congr rfl rfl, h.ruled.answered, h.ruled.early, h.ruled.untimed⟩, rfl, rfl, .inr rfl⟩
      · exact ⟨h.ruled, rfl, rfl, .inr rfl⟩
    · exact ⟨h.ruled.keep rfl rfl rfl (.inl rfl), rfl, rfl, .inr rfl⟩
    · refine ⟨h.ruled.onTimer, rfl, ?_, ?_⟩
      · cases w.host.tcb.core_onTimer now with
        | inl hc => exact congrArg Core.toOptions hc
        | inr hc => exact congrArg Core.toOptions hc
      · change (w.host.tcb.onTimer now).rttSample = none ∨ (w.host.tcb.onTimer now).rttSample = _
        rw [Tcb.recovery_onTimer, Tcb.onRtxTimer]
        split
        · split
          · right
            simp only [Tcb.synTimeout]
            split
            · rfl
            · rfl
          · exact .inl rfl
        · exact .inr rfl
  obtain ⟨hruled, hshots, hopts, hsample⟩ := hspec
  have hpoll : ∀ now, i ≠ .poll now := by
    rintro now rfl
    rcases hi with h | ⟨_, h⟩ | ⟨_, h⟩ | ⟨_, h⟩ <;> cases h
  rw [next, hshots, List.append_nil]
  generalize (w.host.input i).1 = r' at heffect hok hruled hopts hsample ⊢
  have hmoves : r'.tcb.iss = w.host.tcb.iss ∧ r'.una = w.host.una ∧ w.host.nxt ≤ r'.nxt := by
    cases heffect with
    | rests _ _ _ hr => exact ⟨hr.iss, hr.una, hr.nxt⟩
    | expires _ _ _ hiss _ huna hnxt _ _ _ _ => exact ⟨hiss, huna, hnxt.ge⟩
    | learns | synAgain | opens | taken =>
      rcases hi with h | ⟨_, h⟩ | ⟨_, h⟩ | ⟨_, h⟩ <;> cases h
  obtain ⟨hiss, huna, hnxt⟩ := hmoves
  refine h.quiet hok hruled hiss hnxt fun hts hne => ⟨?_, hsample.resolve_left hne, ?_⟩
  · rwa [hopts] at hts
  · intro s shot _ _ h1 _
    rw [huna]
    exact h1

/-- A segment. -/
theorem Kept.segment (h : w.Kept) (seg : Segment) (now : Instant) (ce : Bool) :
    (w.next (.segment seg now ce)).Kept := by
  have heffect := h.ok.effect (.segment seg now ce)
  have hok := h.ok.input (.segment seg now ce)
  have hruled : (w.host.input (.segment seg now ce)).1.tcb.Ruled := h.ruled.onSegment ce
  have hlog : w.next (.segment seg now ce) = ⟨(w.host.input (.segment seg now ce)).1, w.log⟩ := by
    rw [next]
    exact congrArg _ (List.append_nil _)
  rw [hlog]
  by_cases ho : w.host.tcb.state = .synSent ∨ w.host.tcb.state = .synReceived
  · have hnone : (w.host.input (.segment seg now ce)).1.tcb.rttSample = none := h.ruled.opening_pending ce ho
    refine ⟨hok, hruled, fun _ s hs => ?_⟩
    have hs' : (w.host.input (.segment seg now ce)).1.tcb.rttSample = some s := hs
    rw [hnone] at hs'
    cases hs'
  obtain ⟨hsyn, hrec⟩ := not_or.mp ho
  have hpending := fun hts => h.ruled.segment_pending seg.tcp now hts ce
  have hat := hok.sending.at_una
  have hnear := h.ok.near
  have hpast : (w.host.input (.segment seg now ce)).1.tcb = w.host.tcb.onSegment now seg.tcp ce := rfl
  rw [← hpast] at hpending
  generalize (w.host.input (.segment seg now ce)).1 = r' at heffect hok hruled hpending hat ⊢
  have hmoves : r'.tcb.iss = w.host.tcb.iss ∧ r'.tcb.toOptions = w.host.tcb.toOptions ∧
      w.host.una ≤ r'.una ∧ r'.una ≤ w.host.nxt ∧ w.host.nxt ≤ r'.nxt := by
    cases heffect with
    | rests _ _ _ hr => exact ⟨hr.iss, hr.options, hr.una.ge, hr.una.le.trans hnear.1, hr.nxt⟩
    | learns _ _ _ _ hst => exact absurd hst hsyn
    | synAgain _ _ _ _ hst => exact absurd hst hrec
    | opens _ _ _ _ hst => exact absurd hst hrec
    | taken _ _ _ _ _ h2 _ _ ht hle hle' hnxt _ =>
      obtain ⟨-, -, hiss, hopts⟩ := w.host.tcb.taken_send now seg.tcp h2 ce ht
      exact ⟨hiss, hopts, hle, hle', hnxt.ge⟩
  obtain ⟨hiss, hopts, hle, hle', hnxt⟩ := hmoves
  refine h.quiet hok hruled hiss hnxt fun hts hne => ?_
  rw [hopts] at hts
  obtain ⟨hsame, huna⟩ := hpending hts hne
  refine ⟨hts, hsame, fun s shot hs hm h1 h2 => ?_⟩
  have hold := h.ok.sending.at_una
  rw [hiss] at hat
  cases huna with
  | inl hstays =>
    -- `SND.UNA` stays, and its position with it
    have heq : w.host.tcb.iss + r'.una = w.host.tcb.iss + w.host.una := by
      rw [← hat, ← hold]
      exact hstays
    have hpos := SeqNumber.pos_eq w.host.tcb.iss (x := r'.una) (y := w.host.una) (by omega) (by omega)
    rw [hpos.mp heq]
    exact h1
  | inr hcovers =>
    obtain ⟨hack, hno⟩ := hcovers
    have hge := hno s hs
    rw [hm.stop, ← hack, hat, SeqNumber.pos_ge _ (by omega) (by omega), decide_eq_false_iff_not] at hge
    omega

/-- A transmission: data that goes out while a sample is pending is new. -/
theorem Kept.poll (h : w.Kept) {now : Instant} (hno : ¬ w.Stale (.poll now)) : (w.next (.poll now)).Kept := by
  have hok := h.ok.input (.poll now)
  have heffect := h.ok.effect (.poll now)
  have hidle := h.idle
  have hruled : (w.host.input (.poll now)).1.tcb.Ruled := h.ruled.pollTransmit hno hidle
  have hmoves : (w.host.input (.poll now)).1.tcb.iss = w.host.tcb.iss ∧
      (w.host.input (.poll now)).1.tcb.toOptions = w.host.tcb.toOptions ∧
      (w.host.input (.poll now)).1.una = w.host.una ∧ w.host.nxt ≤ (w.host.input (.poll now)).1.nxt := by
    generalize (w.host.input (.poll now)).1 = r' at heffect
    cases heffect with
    | rests _ _ _ hr => exact ⟨hr.iss, hr.options, hr.una, hr.nxt⟩
  obtain ⟨hiss, hopts, huna, hnxt⟩ := hmoves
  refine ⟨hok, hruled, fun hts s hs => ?_⟩
  have hs' : (w.host.tcb.pollTransmit now).1.rttSample = some s := hs
  have hts' : w.host.tcb.tsEnabled = false := by
    have hsame : (w.host.tcb.pollTransmit now).1.tsEnabled = w.host.tcb.tsEnabled :=
      congrArg Options.tsEnabled hopts
    exact hsame.symm.trans hts
  have hpend := h.ruled.poll_pending hts' (hidle hts') (by rw [hs']; simp)
  cases hpend with
  | inl hquiet =>
    obtain ⟨hsame, hempty⟩ := hquiet
    obtain ⟨shot, hm, h1, h2⟩ := h.timed hts' s (hsame.symm.trans hs')
    have hshots : shots w.host (.poll now) = [] := by
      simp only [shots]
      split
      · rename_i d hd
        rw [if_neg (by rw [hempty d hd]; omega)]
      · rfl
    refine ⟨shot, ⟨?_, hm.time, hm.data, ?_⟩, ?_, h2.trans hnxt⟩
    · rw [next, hshots, List.append_nil]
      exact hm.once
    · exact hm.stop.trans (by rw [next, hiss])
    · change (w.host.input (.poll now)).1.una < _
      rw [huna]
      exact h1
  | inr hnew =>
    obtain ⟨d, hd, hn⟩ := hnew
    have hend : w.host.nxt = w.host.una + w.host.tcb.inflight := rfl
    have hlen := hn.le
    have hroom : w.host.tcb.tx.len ≤ 262144 := by
      rw [h.ok.sending.tx_len]
      exact h.ok.sending.len_le
    have hnear := h.ok.near
    -- it starts at `SND.NXT`, and `SND.NXT` moves behind it
    have hpos : (w.host.label d).seqPos = w.host.nxt := by
      rw [Host.label, hn.seq]
      rfl
    have hshots : shots w.host (.poll now) = [⟨w.host.nxt, d.payload.len, now⟩] := by
      simp only [shots, hd]
      rw [if_pos hn.pos, hpos]
    have hstop : (w.host.input (.poll now)).1.nxt = w.host.nxt + d.payload.len := by
      have hin : (w.host.tcb.pollTransmit now).1.inflight = w.host.tcb.inflight + d.payload.len := by
        have hat : (w.host.tcb.pollTransmit now).1.sndUna = w.host.tcb.sndUna := (h.ok.polled now).una
        rw [Tcb.inflight, hat, hn.nxt, h.ok.sending.at_nxt, h.ok.sending.at_una, SeqNumber.add_add,
          SeqNumber.offsetFrom_pos_le _ (by omega) (by have : w.host.tcb.toSendSpace.outstanding = w.host.tcb.inflight := rfl; omega)]
        change w.host.una + w.host.tcb.inflight + d.payload.len - w.host.una = _
        omega
      change (w.host.input (.poll now)).1.una + (w.host.tcb.pollTransmit now).1.inflight = _
      rw [huna, hin, hend]
      omega
    have hnumber : (w.host.tcb.pollTransmit now).1.sndNxt =
        w.host.tcb.iss + (w.host.nxt + d.payload.len) := by
      rw [hn.nxt, h.ok.sending.at_nxt, SeqNumber.add_add]
      rfl
    cases hn.sample with
    | inl hold =>
      obtain ⟨shot, hm, h1, h2⟩ := h.timed hts' s (hold.2.symm.trans hs')
      refine ⟨shot, ⟨?_, hm.time, hm.data, ?_⟩, ?_, h2.trans hnxt⟩
      · rw [next, hshots]
        exact hm.once.append (.inl h2)
      · exact hm.stop.trans (by rw [next, hiss])
      · change (w.host.input (.poll now)).1.una < _
        rw [huna]
        exact h1
    | inr hfresh =>
      rw [hfresh.2, Option.some_inj] at hs'
      refine ⟨⟨w.host.nxt, d.payload.len, now⟩, ⟨?_, ?_, hn.pos, ?_⟩, ?_, hstop.ge⟩
      · rw [next, hshots]
        exact Shot.once_last _ _
      · rw [← hs']
      · rw [← hs']
        refine hnumber.trans ?_
        rw [next, hiss]
        rfl
      · change (w.host.input (.poll now)).1.una < w.host.nxt + d.payload.len
        have := hn.pos
        omega

theorem Kept.next (h : w.Kept) (hno : ¬ w.Stale i) : (w.next i).Kept := by
  cases i with
  | segment seg now ce => exact h.segment seg now ce
  | poll now => exact h.poll hno
  | send data => exact h.call (.inr (.inl ⟨data, rfl⟩))
  | recv n => exact h.call (.inr (.inr (.inl ⟨n, rfl⟩)))
  | close => exact h.call (.inl rfl)
  | timer now => exact h.call (.inr (.inr (.inr ⟨now, rfl⟩)))

theorem kept_start {r : Host κ} (ho : r.Opens) : (start r).Kept := by
  have hblank : r.tcb.rttSample = none ∧ r.tcb.gbnRecover = none ∧ r.tcb.retransmit = false := by
    cases ho with
    | active loc remote iss now mss kind => cases kind <;> exact ⟨rfl, rfl, rfl⟩
    | passive loc remote syn iss now mss kind => cases kind <;> exact ⟨rfl, rfl, rfl⟩
  obtain ⟨h1, h2, h3⟩ := hblank
  refine ⟨ho.ok, ⟨⟨fun hs => absurd h1 hs, fun hg => absurd h2 hg⟩, fun _ hup => ?_, fun _ => h2, fun _ => h1⟩,
    fun _ s hs => ?_⟩
  · have hup' : r.tcb.retransmit = true := hup
    rw [h3] at hup'
    cases hup'
  · have hs' : r.tcb.rttSample = some s := hs
    rw [h1] at hs'
    cases hs'

instance : ∀ i, Decidable (w.Stale i)
  | .poll now => inferInstanceAs (Decidable (w.host.tcb.Revives now))
  | .segment _ _ _ | .send _ | .recv _ | .close | .timer _ => isFalse id

/-- No data goes out under a flag that has nothing left to resend. -/
def NotStale (w : Timing κ) (i : Input) : Prop := ¬ w.Stale i

instance : Decidable (w.NotStale i) := inferInstanceAs (Decidable (¬ _))

/-- While no data goes out under a go-back-N flag that has nothing left to resend, every
sample obeys Karn's rule. -/
theorem karn_samples {r : Host κ} {is : List Input} (ho : r.Opens)
    (hno : Run.Along step NotStale (start r) is) : Run.Along step Rule (start r) is := by
  refine Run.along_imp (I := Kept) ?_ (fun w i hw _ => hw.rule i) (kept_start ho) hno
  intro w i w' hw hno he
  cases he
  exact hw.next hno

/-- Five octets are sent and acknowledged. -/
def timed : List Input := Host.settled ++ [.send (Bytes.replicate 5 7), .poll ⟨0⟩, Host.bareAck 106 [] ⟨20000⟩]

theorem karn_samples_timed : Run.Along step Rule (start Host.accepted) timed :=
  karn_samples Host.accepted_opens (by decide +kernel)

/-- The timer goes off, but then the five octets are acknowledged, and five new ones are
sent: the flag is still set, and they go out again two seconds later. -/
def retimed : List Input :=
  Host.settled ++ [.send (Bytes.replicate 5 7), .poll ⟨0⟩, .timer ⟨3000000⟩, Host.bareAck 106 [] ⟨3000000⟩,
    .send (Bytes.replicate 5 8), .poll ⟨3000000⟩, .poll ⟨5000000⟩]

/-- Their ACK is measured from the first of the two. -/
theorem karn_stale : ∃ w : Timing Reno, Run.run step (start Host.accepted) retimed = some w ∧
    w.log = [⟨1, 5, ⟨0⟩⟩, ⟨6, 5, ⟨3000000⟩⟩] ++ [⟨6, 5, ⟨5000000⟩⟩] ∧ w.host.tcb.tsEnabled = false ∧
    w.host.tcb.sampleOf ⟨5000001⟩ { Host.peerSegment 5001 {} Bytes.empty with ack := SeqNumber.new 111 } =
      some (⟨3000000⟩, SeqNumber.new 111) ∧ ¬ w.Rule (Host.bareAck 111 [] ⟨5000001⟩) := by
  obtain ⟨w, hr, hlog, hts, hs⟩ := Run.exists_run step (start Host.accepted) retimed
    (fun w => w.log = [⟨1, 5, ⟨0⟩⟩, ⟨6, 5, ⟨3000000⟩⟩] ++ [⟨6, 5, ⟨5000000⟩⟩] ∧ w.host.tcb.tsEnabled = false ∧
      w.host.tcb.sampleOf ⟨5000001⟩ { Host.peerSegment 5001 {} Bytes.empty with ack := SeqNumber.new 111 } =
        some (⟨3000000⟩, SeqNumber.new 111)) (by decide +kernel)
  refine ⟨w, hr, hlog, hts, hs, fun hrule => ?_⟩
  obtain ⟨shot, hm, -⟩ := hrule hts _ hs
  have honce := hm.once
  rw [hlog] at honce
  have htime : shot.time = ⟨3000000⟩ := hm.time
  have hne : shot ≠ ⟨6, 5, ⟨5000000⟩⟩ := by
    rintro rfl
    cases htime
  have hmem : shot ∈ [⟨1, 5, ⟨0⟩⟩, ⟨6, 5, ⟨3000000⟩⟩] := by
    obtain ⟨before, after, he, -⟩ := honce
    have hin : shot ∈ [⟨1, 5, ⟨0⟩⟩, ⟨6, 5, ⟨3000000⟩⟩] ++ [⟨6, 5, ⟨5000000⟩⟩] := by
      rw [he]
      simp
    exact (List.mem_append.mp hin).resolve_right fun h => hne (List.mem_singleton.mp h)
  have hapart := honce.last hne
  cases List.mem_cons.mp hmem with
  | inl hfirst =>
    rw [hfirst] at htime
    cases htime
  | inr hsecond =>
    rw [List.mem_singleton.mp hsecond] at hapart
    exact absurd hapart (by simp [Shot.Apart, Shot.stop])

end Timing

end Ferrumnet
