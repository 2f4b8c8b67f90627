import Ferrumnet.Guard

/-
  What the drain after a timeout suppresses.

  From a timeout until `SND.UNA` reaches the `SND.NXT` of that moment no ACK should
  start fast retransmit or recovery, nor enlarge the window but by what it
  acknowledges. Under SACK the guard sees to that. Without SACK nothing does, and the
  controller's count of duplicate ACKs survives the timeout.

  1. `Drained.next` — below the mark of the last timeout the guard is set and there is
     no recovery.
  2. `drain_quiet` — a run is quiet in this sense exactly if no third duplicate ACK is
     taken in during a drain without SACK.
  3. `drain_relapse` — two duplicate ACKs before the timeout and one after it are enough.
-/

namespace Ferrumnet

namespace Tcb

variable {κ : Type} [CongestionControl κ] (t : Tcb κ) (now : Instant) (p : TcpPacket)

/-- A duplicate ACK that is taken in past the handshake, without SACK. -/
def legacyDup (t : Tcb κ) (p : TcpPacket) : Bool :=
  t.state ≠ .synSent && t.state ≠ .synReceived && t.core.admits p && t.core.validAck p &&
    !t.sackEnabled && t.isDupAck p

/-- It makes the controller ask for a fast retransmit. -/
def fastRetransmits (t : Tcb κ) (now : Instant) (p : TcpPacket) : Bool :=
  t.legacyDup p && (((t.advanceTsRecent p).advanced now p).noteDupAck now).2

omit [CongestionControl κ] in
/-- A duplicate ACK acknowledges nothing. -/
theorem isDupAck_gt (h : t.isDupAck p = true) : ¬ p.ack.gt t.sndUna = true := by
  simp only [isDupAck, Bool.and_eq_true, decide_eq_true_eq] at h
  rw [h.1.2, SeqNumber.gt_iff, SeqNumber.offsetFrom_self]
  omega

/-- Nor does it reach the controller before losses are looked for. -/
theorem advanced_dup (h : t.isDupAck p = true) :
    ((t.advanceTsRecent p).advanced now p).cc = t.cc ∧
      ((t.advanceTsRecent p).advanced now p).inflight = t.inflight := by
  have hgt := t.isDupAck_gt p h
  have hrec := t.recovery_advanceTsRecent p
  have hcore := t.core_advanceTsRecent p
  generalize t.advanceTsRecent p = v at hrec hcore ⊢
  have hsend : v.toSendSpace = t.toSendSpace := congrArg Core.toSendSpace hcore
  have hgt' : ¬ p.ack.gt v.sndUna = true := by rwa [hsend]
  rw [advanced, if_neg hgt']
  have hlate := congrArg Core.toSendSpace (v.core_updateWindow p.seq p.ack p.window)
  constructor
  · rw [recovery_updateWindow, hrec]
  · exact congrArg SendSpace.outstanding (hlate.trans hsend)

theorem fastRetransmits_eq [WindowLaws κ] : t.fastRetransmits now p =
    (t.legacyDup p && decide (WindowLaws.dupAcks t.cc = 2)) := by
  unfold fastRetransmits
  cases h : t.legacyDup p with
  | false => rfl
  | true =>
    have hdup : t.isDupAck p = true := by
      rw [legacyDup, Bool.and_eq_true] at h
      exact h.2
    obtain ⟨hcc, hin⟩ := t.advanced_dup now p hdup
    rw [noteDupAck, hcc, hin]
    exact congrArg _ (WindowLaws.fires t.cc now t.inflight)

/-- The controller is told of the duplicate, and of nothing else. -/
theorem cc_legacyDupAck :
    (t.legacyDupAck now).cc = (CongestionControl.onDupAck t.cc now t.inflight).1 := by
  simp only [legacyDupAck]
  split
  · rfl
  · rfl

/-- Without SACK, a segment taken in is a duplicate or shows no loss. -/
theorem taken_legacy (ce : Bool) {u : Tcb κ}
    (hu : u = ((t.advanceTsRecent p).acks now p).onText now p ce) (hs : t.sackEnabled = false) :
    u.cc = (if t.isDupAck p then (CongestionControl.onDupAck t.cc now t.inflight).1
      else ((t.advanceTsRecent p).advanced now p).cc) := by
  have hrec : u.toLossRecovery = ((t.advanceTsRecent p).acks now p).toLossRecovery := by
    rw [hu, recovery_onText]
  have hdup := t.advanced_dup now p
  have hcore := t.core_advanceTsRecent p
  rw [congrArg LossRecovery.cc hrec]
  generalize t.advanceTsRecent p = v at hdup hcore ⊢
  have hsend : v.toSendSpace = t.toSendSpace := congrArg Core.toSendSpace hcore
  have hopts : v.toOptions = t.toOptions := congrArg Core.toOptions hcore
  have hoff : (v.advanced now p).sackEnabled = false := by
    rw [(v.advanced_frame now p).2.2.1, hopts, hs]
  have hsame : v.isDupAck p = t.isDupAck p := by rw [isDupAck, isDupAck, hsend]
  rw [acks, detected, if_neg (by rw [hoff]; simp), hsame]
  split
  · rename_i h
    rw [cc_legacyDupAck, (hdup h).1, (hdup h).2]
  · rfl

/-- The window after an ACK, before losses are looked for: what it acknowledges is all
that enlarges it. -/
theorem window_advanced [WindowLaws κ] (hfit : WindowLaws.Fit t.cc) (hrec : t.scoreboard.recoveryPoint = none) :
    CongestionControl.cwnd ((t.advanceTsRecent p).advanced now p).cc ≤ CongestionControl.cwnd t.cc ∨
      p.ack.gt t.sndUna = true ∧ CongestionControl.cwnd ((t.advanceTsRecent p).advanced now p).cc ≤
        CongestionControl.cwnd (CongestionControl.onAck t.cc now (t.toSendSpace.dataAcked p.ack)) := by
  have hts := t.recovery_advanceTsRecent p
  have hcore := t.core_advanceTsRecent p
  generalize t.advanceTsRecent p = v at hts hcore ⊢
  have hsend : v.toSendSpace = t.toSendSpace := congrArg Core.toSendSpace hcore
  have hcc : v.cc = t.cc := congrArg LossRecovery.cc hts
  have hboard : v.scoreboard = t.scoreboard := congrArg LossRecovery.scoreboard hts
  by_cases hgt : p.ack.gt t.sndUna = true
  · right
    refine ⟨hgt, ?_⟩
    have hgt' : p.ack.gt v.sndUna = true := by rwa [hsend]
    generalize hb : CongestionControl.cwnd (CongestionControl.onAck t.cc now (t.toSendSpace.dataAcked p.ack)) = b
    have hnot : (v.sackEnabled && v.scoreboard.inRecovery) = false := by
      rw [Scoreboard.inRecovery, hboard, hrec, Option.isSome_none, Bool.and_false]
    have hfirst : WindowLaws.Fit (if v.sackEnabled && v.scoreboard.inRecovery then v.cc
          else CongestionControl.onAck v.cc now (v.toSendSpace.dataAcked p.ack)) ∧
        CongestionControl.cwnd (if v.sackEnabled && v.scoreboard.inRecovery then v.cc
          else CongestionControl.onAck v.cc now (v.toSendSpace.dataAcked p.ack)) ≤ b := by
      rw [if_neg (by rw [hnot]; simp), hcc, hsend]
      exact ⟨WindowLaws.kept.onAck _ now _ hfit, hb.le⟩
    have hall := v.cc_ackAdvance (P := fun c => WindowLaws.Fit c ∧ CongestionControl.cwnd c ≤ b) now p.ack
      ((v.segTs p).map (·.2)) p.ace hfirst
      (fun c q f n pipe d hc => ⟨WindowLaws.kept.onAckSample c now q f n pipe d hc.1,
        (WindowLaws.onAckSample c now q f n pipe d).le.trans hc.2⟩)
      (fun c n m hc => ⟨WindowLaws.kept.onEcn c now n m hc.1, (WindowLaws.onEcn c now n m hc.1).trans hc.2⟩)
      (fun _ hreached => by
        rw [Scoreboard.recoveryReached, hboard, hrec] at hreached
        cases hreached)
      (fun c n hc => ⟨WindowLaws.kept.onRttSample c n hc.1, (WindowLaws.onRttSample c n).le.trans hc.2⟩)
    rw [advanced, if_pos hgt', recovery_updateWindow]
    exact hall.2
  · left
    have hgt' : ¬ p.ack.gt v.sndUna = true := by rwa [hsend]
    rw [advanced, if_neg hgt', recovery_updateWindow, hcc]

end Tcb

namespace Marked

open Host

variable {κ : Type} [CongestionControl κ] {w : Marked κ} {i : Input}

/-! ## Below the mark of the last timeout -/

structure Drained (w : Marked κ) : Prop where
  ok : w.host.Ok
  board : w.host.Board
  early : w.host.tcb.state = .synSent → w.mark = 0
  mark : w.mark ≤ max 1 w.host.nxt
  guard : w.host.una < w.mark → w.host.tcb.gbnRecover = some (w.host.tcb.iss + w.mark)
  point : w.host.una < w.mark → w.host.tcb.scoreboard.recoveryPoint = none

/-- The guard outlasts a segment that leaves `SND.UNA` below the mark. -/
theorem Drained.guard_taken (h : w.Drained) {r : Host κ} (hok' : r.Ok) (h2 : w.host.tcb.state ≠ .synReceived)
    {p : TcpPacket} {now : Instant} {ce : Bool}
    (ht : r.tcb = ((w.host.tcb.advanceTsRecent p).acks now p).onText now p ce)
    (hle : w.host.una ≤ r.una) (hle' : r.una ≤ w.host.nxt) (hlt : r.una < w.mark) :
    w.host.tcb.guardAt p = some (w.host.tcb.iss + w.mark) := by
  obtain ⟨huna, -, hiss, -⟩ := w.host.tcb.taken_send now p h2 ce ht
  have hposUna : r.tcb.sndUna = w.host.tcb.iss + r.una := hiss ▸ hok'.sending.at_una
  have hnear := h.ok.near
  have hmark := h.mark
  have hguard := h.guard (by omega)
  have hend : w.host.una + w.host.tcb.toSendSpace.outstanding = w.host.nxt := rfl
  rw [Tcb.ackedUna] at huna
  rw [Tcb.guardAt]
  split
  · -- an ACK that advances leaves `SND.NXT` at 1 at least
    rename_i hgt
    rw [if_pos hgt] at huna
    have hadv : w.host.una < r.una := by
      rw [← huna, hposUna, h.ok.sending.at_una, SeqNumber.pos_gt _ (by omega) (by omega),
        decide_eq_true_iff] at hgt
      exact hgt
    rw [Tcb.ackGuard, Option.filter_eq_some_iff, ← huna, hposUna, h.ok.sending.at_nxt, hend]
    refine ⟨hguard, ?_⟩
    rw [Bool.and_eq_true, SeqNumber.pos_lt _ (by omega) (by omega), decide_eq_true_iff, decide_eq_true_iff]
    refine ⟨hlt, fun he => ?_⟩
    rw [SeqNumber.pos_eq _ (by omega) (by omega)] at he
    omega
  · exact hguard

theorem Drained.next (h : w.Drained) (i : Input) : (w.next i).Drained := by
  have hok := h.ok.input i
  have hboard := h.board.input h.ok i
  have heffect := h.ok.effect i
  have hmark := h.mark
  unfold Marked.next
  generalize (w.host.input i).1 = r at hok hboard heffect ⊢
  -- where the scoreboard is blank there is no recovery point
  have hblank : r.tcb.scoreboard = Scoreboard.new → r.tcb.scoreboard.recoveryPoint = none := by
    intro hb
    rw [hb]
    rfl
  cases heffect with
  | rests _ _ hexp hr =>
    have hmore := hr.nxt
    rw [moved_rests hexp]
    refine ⟨hok, hboard, fun he => h.early (hr.early he), by change w.mark ≤ max 1 r.nxt; omega,
      fun hlt => ?_, fun hlt => ?_⟩
    · have hlt' : r.una < w.mark := hlt
      exact hr.guard.trans ((h.guard (by rw [← hr.una]; exact hlt')).trans (by rw [hr.iss]))
    · have hlt' : r.una < w.mark := hlt
      exact hr.point.trans (h.point (by rw [← hr.una]; exact hlt'))
  | expires now _ hexp hiss _ huna hnxt hguard hb hst _ =>
    have hmoved : w.moved (.timer now) = w.host.nxt := if_pos hexp
    rw [hmoved]
    refine ⟨hok, hboard, fun he => absurd he hst, by change w.host.nxt ≤ max 1 r.nxt; omega, fun _ => ?_, fun _ => ?_⟩
    · change r.tcb.gbnRecover = some (r.tcb.iss + w.host.nxt)
      rw [hguard, hiss, h.ok.sending.at_nxt]
      rfl
    · cases hs : w.host.tcb.sackEnabled with
      | true =>
        rw [hs, if_pos rfl] at hb
        exact (congrArg Scoreboard.recoveryPoint hb).trans rfl
      | false =>
        rw [hs, if_neg (by simp), h.board.blank (.inl hs)] at hb
        exact hblank hb
  | learns seg now ce _ hst hiss hnxt hguard hb =>
    have hzero : w.moved (.segment seg now ce) = 0 := h.early hst
    rw [hzero]
    exact ⟨hok, hboard, fun _ => rfl, Nat.zero_le _, fun hlt => absurd hlt (Nat.not_lt_zero _),
      fun hlt => absurd hlt (Nat.not_lt_zero _)⟩
  | synAgain seg now ce _ hst hdup hr =>
    have hopen := (h.ok.opening (.inr hst)).2
    have hz : w.host.una = 0 := by
      have hp := h.ok.phase
      rwa [hst] at hp
    have huna := (h.ok.opening (.inr hst)).1
    have hone : w.host.nxt ≤ 1 := by
      rw [nxt, hz, Tcb.inflight, huna, Nat.zero_add]
      exact hopen
    subst hr
    have hsame : (w.host.follow { w.host.tcb with sndNxt := w.host.tcb.iss }).una = w.host.una := follow_una rfl
    refine ⟨hok, hboard, fun he => absurd (hst.symm.trans he) (by simp), ?_, fun hlt => ?_, fun _ => ?_⟩
    · change w.mark ≤ max 1 _
      omega
    · exact h.guard (hsame ▸ hlt)
    · exact hblank (h.board.blank (.inr (.inr hst)))
  | opens seg now ce _ hst hadm hv hiss hnxt hguard hb hpast _ =>
    have hz : w.host.una = 0 := by
      have hp := h.ok.phase
      rwa [hst] at hp
    have hmoved : w.moved (.segment seg now ce) = w.mark := rfl
    rw [hmoved]
    refine ⟨hok, hboard, fun he => absurd he hpast, ?_, fun hlt => ?_, fun _ => ?_⟩
    · change w.mark ≤ max 1 r.nxt
      omega
    · have hlt' : r.una < w.mark := hlt
      exact hguard.trans ((h.guard (by omega)).trans (by rw [hiss]))
    · exact hblank (hb.trans (h.board.blank (.inr (.inr hst))))
  | taken seg now ce _ h1 h2 hadm hv ht hle hle' hnxt hpast =>
    obtain ⟨-, -, hiss, -⟩ := w.host.tcb.taken_send now seg.tcp h2 ce ht
    obtain ⟨hguard, hoff, hon⟩ := w.host.tcb.taken_board now seg.tcp ce ht
    have hmoved : w.moved (.segment seg now ce) = w.mark := rfl
    rw [hmoved]
    refine ⟨hok, hboard, fun he => absurd he hpast, ?_, fun hlt => ?_, fun hlt => ?_⟩
    · change w.mark ≤ max 1 r.nxt
      omega
    · have hstill := h.guard_taken hok h2 ht hle hle' hlt
      exact hguard.trans (hstill.trans (by rw [hiss]))
    · have hlt' : r.una < w.mark := hlt
      have hnone := h.point (by omega)
      cases hs : w.host.tcb.sackEnabled with
      | false => exact (congrArg Scoreboard.recoveryPoint (hoff hs)).trans hnone
      | true =>
        rcases hon hs with he | ⟨-, -, hfree⟩
        · refine (congrArg Scoreboard.recoveryPoint he).trans ?_
          change (w.host.tcb.boardAt seg.tcp).recoveryPoint = none
          unfold Tcb.boardAt Tcb.ackBoard
          split
          · split
            · rfl
            · exact hnone
          · exact hnone
        · have hstill := h.guard_taken hok h2 ht hle hle' hlt
          rw [hfree] at hstill
          cases hstill

/-! ## What the drain should suppress -/

/-- The segment starts neither recovery nor fast retransmit, and only what it
acknowledges enlarges the window. -/
structure Calm (r : Host κ) (seg : Segment) (now : Instant) (ce : Bool) : Prop where
  recovery : (r.input (.segment seg now ce)).1.tcb.scoreboard.recoveryPoint = none
  fast : r.tcb.fastRetransmits now seg.tcp = false
  window :
    CongestionControl.cwnd (r.input (.segment seg now ce)).1.tcb.cc ≤ CongestionControl.cwnd r.tcb.cc ∨
      seg.tcp.ack.gt r.tcb.sndUna = true ∧ CongestionControl.cwnd (r.input (.segment seg now ce)).1.tcb.cc ≤
        CongestionControl.cwnd (CongestionControl.onAck r.tcb.cc now (r.tcb.toSendSpace.dataAcked seg.tcp.ack))

/-- So it is with every segment received after a timeout that leaves `SND.UNA` below the
`SND.NXT` of the timeout. -/
def Quiet (w : Marked κ) : Input → Prop
  | .segment seg now ce => w.host.una < w.mark → (w.host.input (.segment seg now ce)).1.una < w.mark →
      Calm w.host seg now ce
  | _ => True

/-- The third duplicate ACK in a row, in a drain without SACK. -/
def Relapses [WindowLaws κ] (w : Marked κ) : Input → Prop
  | .segment seg _ _ => w.host.una < w.mark ∧ w.host.tcb.legacyDup seg.tcp = true ∧
      WindowLaws.dupAcks w.host.tcb.cc = 2
  | _ => False

variable [WindowLaws κ]

instance : ∀ i, Decidable (w.Relapses i)
  | .segment _ _ _ => inferInstanceAs (Decidable (_ ∧ _ ∧ _))
  | .send _ | .recv _ | .close | .timer _ | .poll _ => isFalse id

def NotRelapsed (w : Marked κ) (i : Input) : Prop := ¬ w.Relapses i

instance : Decidable (w.NotRelapsed i) := inferInstanceAs (Decidable (¬ _))

/-- The window after a segment of the drain. -/
theorem Drained.window (h : w.Drained) (hfit : WindowLaws.Fit w.host.tcb.cc) {seg : Segment} {now : Instant}
    {ce : Bool} (hno : w.NotRelapsed (.segment seg now ce)) (h1 : w.host.una < w.mark)
    (h2 : (w.host.input (.segment seg now ce)).1.una < w.mark) :
    CongestionControl.cwnd (w.host.input (.segment seg now ce)).1.tcb.cc ≤ CongestionControl.cwnd w.host.tcb.cc ∨
      seg.tcp.ack.gt w.host.tcb.sndUna = true ∧
        CongestionControl.cwnd (w.host.input (.segment seg now ce)).1.tcb.cc ≤ CongestionControl.cwnd
          (CongestionControl.onAck w.host.tcb.cc now (w.host.tcb.toSendSpace.dataAcked seg.tcp.ack)) := by
  have hok := h.ok.input (.segment seg now ce)
  have heffect := h.ok.effect (.segment seg now ce)
  generalize (w.host.input (.segment seg now ce)).1 = r at hok heffect h2 ⊢
  cases heffect with
  | rests _ _ _ hr =>
    left
    rcases hr.cc with he | ⟨now', q, n, f, b, he⟩
    · rw [he]
    · rw [he, WindowLaws.onTransmit]
  | learns _ _ _ _ hst _ _ _ _ => exact absurd h1 (by rw [h.early hst]; exact Nat.not_lt_zero _)
  | synAgain _ _ _ _ _ _ hr =>
    left
    rw [hr]
    exact le_rfl
  | opens _ _ _ _ _ _ _ _ _ _ _ _ hcc =>
    left
    rw [hcc]
  | taken _ _ _ _ hsent hrec hadm hv ht hle hle' hnxt hpast =>
    have hpoint := h.point h1
    have hack := w.host.tcb.window_advanced now seg.tcp hfit hpoint
    cases hs : w.host.tcb.sackEnabled with
    | true =>
      -- the guard keeps losses from being looked for
      obtain ⟨u, hlate, -, hguard, -, -, -, hcc⟩ := w.host.tcb.taken_sack now seg.tcp ce ht hs
      have hstill := h.guard_taken hok hrec ht hle hle' h2
      have hoff := u.cc_sackDetect_off now (w.host.tcb.isDupAck seg.tcp)
        (.inr (by rw [hguard, hstill]; simp))
      rw [congrArg LossRecovery.cc hlate, hoff, hcc]
      exact hack
    | false =>
      rw [w.host.tcb.taken_legacy now seg.tcp ce ht hs]
      split
      · rename_i hdup
        -- a duplicate, but not the third
        have hlegacy : w.host.tcb.legacyDup seg.tcp = true := by
          simp only [Tcb.legacyDup, hadm, hv, hs, hdup, decide_eq_true hsent, decide_eq_true hrec]
          rfl
        have hne : WindowLaws.dupAcks w.host.tcb.cc ≠ 2 := fun he => hno ⟨h1, hlegacy, he⟩
        exact .inl (WindowLaws.quiet _ now _ hne).le
      · exact hack

omit [WindowLaws κ] in
/-- A duplicate leaves `SND.UNA` where it is. -/
theorem una_legacyDup {r : Host κ} {seg : Segment} {now : Instant} {ce : Bool}
    (hdup : r.tcb.legacyDup seg.tcp = true) : (r.input (.segment seg now ce)).1.una = r.una := by
  simp only [Tcb.legacyDup, Bool.and_eq_true, decide_eq_true_eq] at hdup
  obtain ⟨⟨⟨⟨⟨hsent, hrec⟩, hadm⟩, hv⟩, -⟩, hack⟩ := hdup
  have hgt : ¬ seg.tcp.ack.gt r.tcb.core.sndUna = true := r.tcb.isDupAck_gt seg.tcp hack
  have hrec' : ¬ r.tcb.core.state = .synReceived := hrec
  have hcore := (r.tcb.core_onSegment now seg.tcp ce).trans (Core.onSegment_taken hsent hadm hv)
  have hs : (r.tcb.onSegment now seg.tcp ce).toSendSpace = r.tcb.core.ackedSend seg.tcp :=
    congrArg Core.toSendSpace hcore
  rw [Core.ackedSend, if_neg hrec', if_neg hgt] at hs
  exact follow_una (congrArg SendSpace.sndUna hs)

/-- One segment is quiet, unless it is that third duplicate. -/
theorem Drained.quiet_iff (h : w.Drained) (hfit : WindowLaws.Fit w.host.tcb.cc) (i : Input) :
    w.Quiet i ↔ w.NotRelapsed i := by
  cases i with
  | send | recv | close | timer | poll => exact ⟨fun _ => id, fun _ => trivial⟩
  | segment seg now ce =>
    have hfast := w.host.tcb.fastRetransmits_eq now seg.tcp
    constructor
    · intro hq hrel
      obtain ⟨hlt, hdup, htwo⟩ := hrel
      have hsame : (w.host.input (.segment seg now ce)).1.una = w.host.una := una_legacyDup hdup
      have hcalm := (hq hlt (hsame ▸ hlt)).fast
      rw [hfast, hdup, htwo] at hcalm
      cases hcalm
    · intro hno h1 h2
      refine ⟨(h.next (.segment seg now ce)).point h2, ?_, h.window hfit hno h1 h2⟩
      rw [hfast, Bool.and_eq_false_iff]
      by_contra hboth
      rw [not_or, Bool.not_eq_false, Bool.not_eq_false, decide_eq_true_iff] at hboth
      exact hno ⟨h1, hboth.1, hboth.2⟩

omit [WindowLaws κ] in
theorem drained_start {r : Host κ} (h : r.Opens) : (start r).Drained where
  ok := h.ok
  board := board_blank h.ok h.blank
  early _ := rfl
  mark := Nat.zero_le _
  guard hlt := absurd hlt (Nat.not_lt_zero _)
  point hlt := absurd hlt (Nat.not_lt_zero _)

/-- Every drain of a run is quiet exactly if no third duplicate ACK is taken in during a
drain without SACK. -/
theorem drain_quiet {r₀ : Host κ} (h0 : r₀.Opens) (hmss : r₀.tcb.mssAdvertise ≤ 65535) (is : List Input) :
    Run.Along step Quiet (start r₀) is ↔ Run.Along step NotRelapsed (start r₀) is := by
  refine Run.along_iff (I := fun w : Marked κ => w.Drained ∧ WindowLaws.Fit w.host.tcb.cc ∧
    w.host.tcb.mssAdvertise ≤ 65535) (fun w i w' hw he => ?_) (fun w i hw => hw.1.quiet_iff hw.2.1 i)
    ⟨drained_start h0, h0.kept WindowLaws.kept hmss, hmss⟩ is
  cases he
  exact ⟨hw.1.next i, kept_input WindowLaws.kept hw.2.1 hw.2.2 i, (mssAdvertise_input hw.1.ok i).trans_le hw.2.2⟩

/-- Three duplicate ACKs after a timeout, under SACK. -/
def suppressed : List Input :=
  halfway ++ List.replicate 3 (bareAck 106 [] ⟨3000000⟩)

theorem drain_quiet_suppressed : Run.Along step Quiet (start accepted) suppressed := by
  have hno : Run.Along step NotRelapsed (start accepted) suppressed := by decide +kernel
  have hmss : accepted.tcb.mssAdvertise ≤ 65535 := by decide +kernel
  exact (drain_quiet accepted_opens hmss suppressed).mpr hno

/-- The host that has accepted a peer without SACK. -/
def plain : Host Reno :=
  fresh ((Tcb.newSynReceived ⟨2, 80⟩ ⟨1, 1000⟩ { peerSyn with sackPermitted := false } (SeqNumber.new 100) ⟨0⟩
    65495).setCongestionControl .reno)

/-- The same acknowledgement again. -/
def again (now : Instant) : Input := bareAck 101 [] now

/-- Two segments are sent, two duplicate ACKs arrive, and the timer goes off. -/
def relapsing : List Input :=
  settled ++ [.send (Bytes.replicate 5 7), .poll ⟨0⟩, .send (Bytes.replicate 5 7), .poll ⟨0⟩, again ⟨0⟩,
    again ⟨0⟩, .timer ⟨3000000⟩, .poll ⟨3000000⟩]

/-- The next duplicate starts fast retransmit, and doubles the window. -/
theorem drain_relapse : ∃ w : Marked Reno, Run.run step (start plain) relapsing = some w ∧
    w.host.una < w.mark ∧ w.host.tcb.fastRetransmits ⟨3000000⟩ (peerSegment 5001 {} Bytes.empty) = true ∧
    w.host.tcb.cc.cwnd = 536 ∧ (w.host.input (again ⟨3000000⟩)).1.tcb.cc.cwnd = 1072 ∧
    ¬ w.Quiet (again ⟨3000000⟩) := by
  obtain ⟨w, hr, h1, h2, h3, h4, h5⟩ := Run.exists_run step (start plain) relapsing
    (fun w => w.host.una < w.mark ∧ (w.host.input (again ⟨3000000⟩)).1.una < w.mark ∧
      w.host.tcb.fastRetransmits ⟨3000000⟩ (peerSegment 5001 {} Bytes.empty) = true ∧
      w.host.tcb.cc.cwnd = 536 ∧ (w.host.input (again ⟨3000000⟩)).1.tcb.cc.cwnd = 1072) (by decide +kernel)
  refine ⟨w, hr, h1, h3, h4, h5, fun hq => ?_⟩
  have hcalm := (hq h1 h2).fast
  exact absurd (h3.symm.trans hcalm) (by simp)

end Marked

end Ferrumnet
