import Ferrumnet.Guard

/-
  One window reduction for each loss episode.

  An episode lasts from the entry into SACK recovery until `SND.UNA` reaches the
  recovery point. A timeout in between ends the recovery but not the episode: the
  guard it sets lies at or above the recovery point.

  1. `Points.next` — the recovery point lies above `SND.UNA`, and at or below
     `SND.NXT`.
  2. `Ongoing.next` — until the recovery point is reached, the connection is in
     recovery or under the guard.
  3. `one_reduction` — until then nothing but a timeout reduces Reno's window or its
     threshold, and the ACK that reaches it only by starting the next episode.
-/

namespace Ferrumnet

/-! ## Calls that reduce nothing -/

namespace Reno

/-- Neither the window nor the threshold is reduced. -/
structure Grown (c₀ c : Reno) : Prop where
  fit : c.Fit
  cwnd : c₀.cwnd ≤ c.cwnd
  ssthresh : c₀.ssthresh ≤ c.ssthresh

variable {c₀ c : Reno}

theorem creditBy_ssthresh (step fuel : Nat) (c : Reno) : (c.creditBy step fuel).ssthresh = c.ssthresh := by
  induction fuel generalizing c with
  | zero => rfl
  | succ fuel ih =>
    rw [creditBy]
    split
    · rw [ih]
    · rfl

theorem onAck_ssthresh (c : Reno) (acked : Nat) : (c.onAck acked).ssthresh = c.ssthresh := by
  rw [onAck_eq]
  simp only [onAckBy]
  split
  · rfl
  · split
    · rfl
    · exact creditBy_ssthresh _ _ _

theorem Grown.onAck (h : Grown c₀ c) (acked : Nat) : Grown c₀ (c.onAck acked) := by
  obtain ⟨hfit, hle⟩ := h.fit.onAck acked
  exact ⟨hfit, h.cwnd.trans hle, h.ssthresh.trans (c.onAck_ssthresh acked).ge⟩

end Reno

namespace Tcb

variable {t : Tcb Reno} {now : Instant} {p : TcpPacket}

/-- An ACK, before losses are looked for. -/
theorem grown_advanced (h : t.cc.Fit) : Reno.Grown t.cc ((t.advanceTsRecent p).advanced now p).cc := by
  have hstart : Reno.Grown t.cc (t.advanceTsRecent p).cc := by
    rw [show (t.advanceTsRecent p).cc = t.cc from congrArg LossRecovery.cc (t.recovery_advanceTsRecent p)]
    exact ⟨h, le_rfl, le_rfl⟩
  generalize t.advanceTsRecent p = v at hstart ⊢
  have hfirst : Reno.Grown t.cc (if v.sackEnabled && v.scoreboard.inRecovery then v.cc
      else CongestionControl.onAck v.cc now (v.toSendSpace.dataAcked p.ack)) := by
    split
    · exact hstart
    · exact hstart.onAck _
  apply v.cc_advanced now p hstart
  intro _
  apply v.cc_ackAdvance now p.ack ((v.segTs p).map (·.2)) p.ace hfirst
  · intro c q f n pipe b hc
    exact hc
  · intro c n m hc
    exact hc
  · intro _ _ c hc
    exact hc.onAck 0
  · intro c n hc
    exact hc

section Detect

variable {κ : Type} [CongestionControl κ] (t : Tcb κ) (now : Instant)

/-- A segment that is no duplicate ACK starts recovery by a loss at `SND.UNA` alone. -/
theorem sackDetect_fresh : t.sackDetect now false =
    if !t.scoreboard.inRecovery && t.gbnRecover.isNone then
      if t.scoreboard.isLost t.sndUna t.sndMss then t.beginSackRecovery now false else t
    else t := by
  simp only [sackDetect, Bool.false_eq_true, if_false, Bool.false_or]

/-- It changes the controller only by starting recovery. -/
theorem sackDetect_calm : (t.sackDetect now false).cc = t.cc ∨
    (t.sackDetect now false).scoreboard = t.scoreboard.beginRecovery t.sndNxt := by
  rw [sackDetect_fresh]
  split
  · split
    · exact .inr rfl
    · exact .inl rfl
  · exact .inl rfl

/-- Recovery starts on a duplicate ACK, or on a loss at `SND.UNA`. -/
theorem sackDetect_begins (d : Bool) : (t.sackDetect now d).scoreboard = t.scoreboard ∨ d = true ∨
    t.scoreboard.isLost t.sndUna t.sndMss = true := by
  cases d with
  | true => exact .inr (.inl rfl)
  | false =>
    rw [sackDetect_fresh]
    split
    · split
      · rename_i hlost
        exact .inr (.inr hlost)
      · exact .inl rfl
    · exact .inl rfl

end Detect

end Tcb

namespace Host

variable {κ : Type} [CongestionControl κ] {r r' : Host κ}

/-! ## The recovery point -/

/-- The recovery point lies above `SND.UNA`, and at or below `SND.NXT`. -/
def Points (r : Host κ) : Prop := ∀ rp, r.tcb.scoreboard.recoveryPoint = some rp →
  ∃ high, rp = r.tcb.iss + high ∧ r.una < high ∧ high ≤ r.nxt

omit [CongestionControl κ] in
theorem points_blank (h : r.tcb.scoreboard = Scoreboard.new) : r.Points := by
  intro rp hrp
  rw [h] at hrp
  cases hrp

omit [CongestionControl κ] in
/-- With everything acknowledged there is nothing that could be lost. -/
theorem Board.idle_isLost (h : r.Board) (he : r.una = r.nxt) (q : SeqNumber) (mss : Nat) :
    r.tcb.scoreboard.isLost q mss = false := by
  obtain ⟨l, hl⟩ := h.sacked
  have hnil : r.tcb.scoreboard.sacked = [] := by
    cases l with
    | nil => rw [hl.runs]; rfl
    | cons x l =>
      -- a run would have to fit between `SND.UNA` and itself
      have h1 := hl.spaced.nonempty x List.mem_cons_self
      have h2 := hl.inside x List.mem_cons_self
      omega
  rw [Scoreboard.isLost, hnil]
  rfl

/-- The recovery point after a segment taken in: the old one, if it is not reached, or
`SND.NXT`. -/
theorem Board.point_taken (h : r.Board) (hok : r.Ok) (hok' : r'.Ok) (hboard' : r'.Board)
    (h2 : r.tcb.state ≠ .synReceived) {p : TcpPacket} {now : Instant} {ce : Bool}
    (ht : r'.tcb = ((r.tcb.advanceTsRecent p).acks now p).onText now p ce)
    (hle : r.una ≤ r'.una) (hle' : r'.una ≤ r.nxt) (hnxt : r'.nxt = r.nxt)
    {rp : SeqNumber} (hrp : r'.tcb.scoreboard.recoveryPoint = some rp) :
    r.tcb.scoreboard.recoveryPoint = some rp ∧ (r'.una = r.una ∨ r'.tcb.sndUna.ge rp = false) ∨
      rp = r'.tcb.sndNxt ∧ r'.una ≠ r'.nxt ∧ (r.tcb.boardAt p).recoveryPoint = none ∧
        r.tcb.guardAt p = none := by
  obtain ⟨huna, hsnd, hiss, -⟩ := r.tcb.taken_send now p h2 ce ht
  have hnear := hok.near
  have hposUna : r'.tcb.sndUna = r.tcb.iss + r'.una := hiss ▸ hok'.sending.at_una
  -- without SACK there is no recovery point
  have hs : r.tcb.sackEnabled = true := by
    by_contra hoff
    rw [Bool.not_eq_true] at hoff
    obtain ⟨-, hsame, -⟩ := r.tcb.taken_board now p ce ht
    rw [hsame hoff, h.blank (.inl hoff)] at hrp
    cases hrp
  obtain ⟨w, hrec, hboard, hguard, hat, hend, hmss, -⟩ := r.tcb.taken_sack now p ce ht hs
  have hnow : r'.tcb.scoreboard = (w.sackDetect now (r.tcb.isDupAck p)).scoreboard :=
    congrArg LossRecovery.scoreboard hrec
  have hpoint : w.scoreboard.recoveryPoint = (r.tcb.boardAt p).recoveryPoint := by rw [hboard]; rfl
  rcases (w.sackDetect_cases now (r.tcb.isDupAck p)).1 with he | ⟨he, hnone, hfree⟩
  · -- the old one
    left
    rw [hnow, he, hpoint, Tcb.boardAt] at hrp
    rw [Tcb.ackedUna] at huna
    split at hrp
    · rename_i hgt
      rw [if_pos hgt] at huna
      rw [Tcb.ackBoard] at hrp
      split at hrp
      · cases hrp
      · rename_i hreached
        have hold : r.tcb.scoreboard.recoveryPoint = some rp := hrp
        refine ⟨hold, .inr ?_⟩
        have hkept : (r.tcb.scoreboard.trim p.ack).recoveryPoint = some rp := hrp
        rw [Scoreboard.recoveryReached, hkept] at hreached
        rw [huna]
        exact Bool.eq_false_iff.mpr hreached
    · rename_i hgt
      rw [if_neg hgt] at huna
      refine ⟨hrp, .inl ?_⟩
      rw [hposUna, hok.sending.at_una, SeqNumber.pos_eq _ (by omega) (by omega)] at huna
      exact huna
  · -- a new one, at `SND.NXT`
    right
    have hrp' : rp = w.sndNxt := by
      rw [hnow, he] at hrp
      exact (Option.some.inj hrp).symm
    refine ⟨hrp'.trans (hend.trans hsnd.symm), ?_, hpoint.symm.trans hnone, hguard.symm.trans hfree⟩
    intro hidle
    rcases w.sackDetect_begins now (r.tcb.isDupAck p) with hsame | hdup | hlost
    · rw [he] at hsame
      have hsame' : some w.sndNxt = w.scoreboard.recoveryPoint := congrArg Scoreboard.recoveryPoint hsame
      rw [hnone] at hsame'
      cases hsame'
    · -- a duplicate ACK leaves something outstanding
      simp only [Tcb.isDupAck, Bool.and_eq_true, decide_eq_true_eq] at hdup
      obtain ⟨⟨-, hack⟩, hout⟩ := hdup
      have hgt : ¬ p.ack.gt r.tcb.sndUna = true := by
        rw [hack, SeqNumber.gt_iff, SeqNumber.offsetFrom_self]
        omega
      rw [Tcb.ackedUna, if_neg hgt, hposUna] at huna
      have hend' : r.una + r.tcb.toSendSpace.outstanding = r.nxt := rfl
      refine hout (huna.symm.trans ?_)
      rw [hok.sending.at_nxt, hend', ← hnxt, ← hidle]
    · have hnot := hboard'.idle_isLost hidle w.sndUna w.sndMss
      have hsacked : r'.tcb.scoreboard.sacked = w.scoreboard.sacked := by rw [hnow, he]; rfl
      rw [Scoreboard.isLost, hsacked] at hnot
      exact absurd (hlost.symm.trans hnot) (by simp)

theorem Points.next (h : r.Points) (hok : r.Ok) (hboard : r.Board) (i : Input) : (r.input i).1.Points := by
  have hok' := hok.input i
  have hboard' := hboard.input hok i
  have heffect := hok.effect i
  generalize (r.input i).1 = r' at hok' hboard' heffect ⊢
  cases heffect with
  | rests _ _ _ hr =>
    intro rp hrp
    obtain ⟨high, hat, hlt, hle⟩ := h rp (hr.point ▸ hrp)
    have hnxt := hr.nxt
    exact ⟨high, hr.iss ▸ hat, hr.una ▸ hlt, by omega⟩
  | expires now _ _ _ _ _ _ _ hb _ _ =>
    -- a timeout ends the recovery
    intro rp hrp
    rw [hb] at hrp
    split at hrp
    · cases hrp
    · rename_i hoff
      rw [hboard.blank (.inl (Bool.eq_false_iff.mpr hoff))] at hrp
      cases hrp
  | learns seg now ce _ hst _ _ _ hb => exact points_blank (hb.trans (hboard.blank (.inr (.inl hst))))
  | synAgain seg now ce _ hst _ hr =>
    subst hr
    exact points_blank (hboard.blank (.inr (.inr hst)))
  | opens seg now ce _ hst _ _ _ _ _ hb _ _ =>
    exact points_blank (hb.trans (hboard.blank (.inr (.inr hst))))
  | taken seg now ce _ _ h2 _ _ ht hle hle' hnxt _ =>
    intro rp hrp
    have hnear := hok.near
    have hiss : r'.tcb.iss = r.tcb.iss := (r.tcb.taken_send now seg.tcp h2 ce ht).2.2.1
    rcases hboard.point_taken hok hok' hboard' h2 ht hle hle' hnxt hrp with ⟨hold, hbelow⟩ | ⟨rfl, hne, -⟩
    · obtain ⟨high, rfl, hlt, hhigh⟩ := h rp hold
      refine ⟨high, by rw [hiss], ?_, hnxt ▸ hhigh⟩
      rcases hbelow with he | hge
      · omega
      · rw [hok'.sending.at_una, hiss, SeqNumber.pos_ge _ (by omega) (by omega), decide_eq_false_iff_not] at hge
        omega
    · have hend : r'.una + r'.tcb.toSendSpace.outstanding = r'.nxt := rfl
      exact ⟨r'.nxt, hok'.sending.at_nxt, by omega, le_rfl⟩

/-! ## An episode -/

/-- Until `SND.UNA` reaches `high`, the connection is in recovery up to `high`, or under
a guard at or above it. -/
structure Ongoing (high : Nat) (r : Host κ) : Prop where
  ok : r.Ok
  board : r.Board
  past : r.tcb.state ≠ .synSent ∧ r.tcb.state ≠ .synReceived
  sack : r.tcb.sackEnabled = true
  nxt : high ≤ r.nxt
  held : r.una < high → r.tcb.scoreboard.recoveryPoint = some (r.tcb.iss + high) ∨
    ∃ g, r.tcb.gbnRecover = some (r.tcb.iss + g) ∧ high ≤ g ∧ g ≤ r.nxt

/-- An ACK below the recovery point finds the episode open before losses are looked for. -/
theorem Ongoing.open_taken {high : Nat} (h : Ongoing high r) (h2 : r.tcb.state ≠ .synReceived) (hok' : r'.Ok)
    {p : TcpPacket} {now : Instant} {ce : Bool}
    (ht : r'.tcb = ((r.tcb.advanceTsRecent p).acks now p).onText now p ce)
    (hle : r.una ≤ r'.una) (hlt : r'.una < high) :
    (r.tcb.boardAt p).recoveryPoint = some (r.tcb.iss + high) ∨
      ∃ g, r.tcb.guardAt p = some (r.tcb.iss + g) ∧ high ≤ g ∧ g ≤ r.nxt := by
  obtain ⟨huna, -, hiss, -⟩ := r.tcb.taken_send now p h2 ce ht
  have hposUna : r'.tcb.sndUna = r.tcb.iss + r'.una := hiss ▸ hok'.sending.at_una
  have hnear := h.ok.near
  have hnxt := h.nxt
  rw [Tcb.ackedUna] at huna
  rcases h.held (by omega) with hrp | ⟨g, hg, h3, h4⟩
  · left
    rw [Tcb.boardAt]
    split
    · rename_i hgt
      rw [if_pos hgt] at huna
      have hkept : (r.tcb.scoreboard.trim p.ack).recoveryPoint = some (r.tcb.iss + high) := hrp
      have hbelow : (r.tcb.scoreboard.trim p.ack).recoveryReached p.ack = false := by
        rw [Scoreboard.recoveryReached, hkept, ← huna, hposUna]
        dsimp only
        rw [SeqNumber.pos_ge _ (by omega) (by omega), decide_eq_false_iff_not]
        omega
      rw [Tcb.ackBoard, if_neg (by rw [hbelow]; simp)]
      exact hkept
    · exact hrp
  · right
    refine ⟨g, ?_, h3, h4⟩
    rw [Tcb.guardAt]
    split
    · rename_i hgt
      rw [if_pos hgt] at huna
      have hend : r.una + r.tcb.toSendSpace.outstanding = r.nxt := rfl
      rw [Tcb.ackGuard, Option.filter_eq_some_iff, ← huna, hposUna, h.ok.sending.at_nxt, hend]
      refine ⟨hg, ?_⟩
      rw [Bool.and_eq_true, SeqNumber.pos_lt _ (by omega) (by omega), decide_eq_true_iff, decide_eq_true_iff]
      refine ⟨by omega, fun he => ?_⟩
      rw [SeqNumber.pos_eq _ (by omega) (by omega)] at he
      omega
    · exact hg

theorem Ongoing.next {high : Nat} (h : Ongoing high r) (i : Input) : Ongoing high (r.input i).1 := by
  have hok' := h.ok.input i
  have hboard' := h.board.input h.ok i
  have hpast := input_past h.ok h.past.1 h.past.2 i
  have heffect := h.ok.effect i
  have hnxt := h.nxt
  generalize (r.input i).1 = r' at hok' hboard' hpast heffect ⊢
  cases heffect with
  | rests _ _ _ hr =>
    have hmore := hr.nxt
    refine ⟨hok', hboard', ⟨fun he => h.past.1 (hr.early he), hpast⟩,
      (congrArg Options.sackEnabled hr.options).trans h.sack, by omega, fun hlt => ?_⟩
    rcases h.held (hr.una ▸ hlt) with hrp | ⟨g, hg, h3, h4⟩
    · exact .inl (by rw [hr.point, hr.iss, hrp])
    · exact .inr ⟨g, by rw [hr.guard, hr.iss, hg], h3, by omega⟩
  | expires now _ _ hiss hopts huna hsame hguard _ hst _ =>
    refine ⟨hok', hboard', ⟨hst, hpast⟩, (congrArg Options.sackEnabled hopts).trans h.sack, by omega,
      fun _ => .inr ⟨r.nxt, ?_, hnxt, hsame.ge⟩⟩
    rw [hguard, hiss, h.ok.sending.at_nxt]
    rfl
  | learns seg now ce _ hst _ _ _ _ => exact absurd hst h.past.1
  | synAgain seg now ce _ hst _ _ => exact absurd hst h.past.2
  | opens seg now ce _ hst _ _ _ _ _ _ _ _ => exact absurd hst h.past.2
  | taken seg now ce _ _ h2 _ _ ht hle hle' hsame hst =>
    obtain ⟨-, -, hiss, hopts⟩ := r.tcb.taken_send now seg.tcp h2 ce ht
    refine ⟨hok', hboard', ⟨hst, hpast⟩, (congrArg Options.sackEnabled hopts).trans h.sack, by omega,
      fun hlt => ?_⟩
    obtain ⟨hguard, -, hon⟩ := r.tcb.taken_board now seg.tcp ce ht
    rcases h.open_taken h2 hok' ht hle hlt with hrp | ⟨g, hg, h3, h4⟩
    · left
      rw [hiss]
      rcases hon h.sack with he | ⟨-, hnone, -⟩
      · rw [he]
        exact hrp
      · rw [hnone] at hrp
        cases hrp
    · exact .inr ⟨g, by rw [hguard, hiss, hg], h3, by omega⟩

/-- Until the episode ends nothing but a timeout reduces the window or the threshold; and
when it ends, only the start of the next one does. -/
theorem Ongoing.spares {r : Host Reno} {high : Nat} (h : Ongoing high r) (hfit : r.tcb.cc.Fit)
    (hlt : r.una < high) {i : Input} (hno : ∀ now, i = .timer now → ¬ r.Expires now) :
    Reno.Grown r.tcb.cc (r.input i).1.tcb.cc ∨
      high ≤ (r.input i).1.una ∧
        (r.input i).1.tcb.scoreboard.recoveryPoint = some (r.input i).1.tcb.sndNxt := by
  have hok' := h.ok.input i
  have heffect := h.ok.effect i
  generalize (r.input i).1 = r' at hok' heffect ⊢
  cases heffect with
  | rests _ _ _ hr =>
    left
    rcases hr.cc with he | ⟨now, q, n, f, b, he⟩
    · rw [he]
      exact ⟨hfit, le_rfl, le_rfl⟩
    · rw [he]
      exact ⟨hfit, le_rfl, le_rfl⟩
  | expires now _ hexp _ _ _ _ _ _ _ _ => exact absurd hexp (hno now rfl)
  | learns seg now ce _ hst _ _ _ _ => exact absurd hst h.past.1
  | synAgain seg now ce _ hst _ _ => exact absurd hst h.past.2
  | opens seg now ce _ hst _ _ _ _ _ _ _ _ => exact absurd hst h.past.2
  | taken seg now ce _ _ h2 _ _ ht hle hle' _ _ =>
    obtain ⟨huna, hsnd, hiss, -⟩ := r.tcb.taken_send now seg.tcp h2 ce ht
    obtain ⟨w, hrec, hboard, hguard, -, hend, -, hcc⟩ := r.tcb.taken_sack now seg.tcp ce ht h.sack
    have hgrown : Reno.Grown r.tcb.cc w.cc := by
      rw [hcc]
      exact Tcb.grown_advanced hfit
    have hnow : r'.tcb.cc = (w.sackDetect now (r.tcb.isDupAck seg.tcp)).cc := congrArg LossRecovery.cc hrec
    by_cases hbelow : r'.una < high
    · -- losses are not looked for
      left
      rw [hnow, w.cc_sackDetect_off now]
      · exact hgrown
      · rcases h.open_taken h2 hok' ht hle hbelow with hrp | ⟨g, hg, -, -⟩
        · left
          rw [hboard]
          exact hrp.trans_ne (by simp)
        · right
          rw [hguard, hg]
          simp
    · -- the ACK that ends the episode is no duplicate
      have hgt : r.tcb.isDupAck seg.tcp = false := by
        by_contra hdup
        rw [Bool.not_eq_false] at hdup
        simp only [Tcb.isDupAck, Bool.and_eq_true, decide_eq_true_eq] at hdup
        have hsame : ¬ seg.tcp.ack.gt r.tcb.sndUna = true := by
          rw [hdup.1.2, SeqNumber.gt_iff, SeqNumber.offsetFrom_self]
          omega
        have hnear := h.ok.near
        rw [Tcb.ackedUna, if_neg hsame, hok'.sending.at_una, hiss, h.ok.sending.at_una,
          SeqNumber.pos_eq _ (by omega) (by omega)] at huna
        omega
      rw [hnow]
      rw [hgt] at hrec ⊢
      rcases w.sackDetect_calm now with he | he
      · left
        rw [he]
        exact hgrown
      · right
        refine ⟨by omega, ?_⟩
        have hb : r'.tcb.scoreboard = w.scoreboard.beginRecovery w.sndNxt :=
          (congrArg LossRecovery.scoreboard hrec).trans he
        rw [hb, hsnd, ← hend]
        rfl

/-- From the entry into recovery until `SND.UNA` reaches the recovery point, at `high`,
nothing but a timeout reduces Reno's window or its threshold; and the segment that gets
it there reduces them only by starting the next recovery. -/
theorem one_reduction {r₀ r : Host Reno} {is : List Input} (h0 : r₀.Opens)
    (hmss : r₀.tcb.mssAdvertise ≤ 65535) (hr : Run.run step r₀ is = some r) {rp : SeqNumber}
    (hrp : r.tcb.scoreboard.recoveryPoint = some rp) :
    ∃ high, rp = r.tcb.iss + high ∧ r.una < high ∧ high ≤ r.nxt ∧
      ∀ (js : List Input) (r₁ : Host Reno) (i : Input), Run.run step r js = some r₁ → r₁.una < high →
        (∀ now, i = .timer now → ¬ r₁.Expires now) →
          (r₁.tcb.cc.cwnd ≤ (r₁.input i).1.tcb.cc.cwnd ∧
              r₁.tcb.cc.ssthresh ≤ (r₁.input i).1.tcb.cc.ssthresh) ∨
            high ≤ (r₁.input i).1.una ∧
              (r₁.input i).1.tcb.scoreboard.recoveryPoint = some (r₁.input i).1.tcb.sndNxt := by
  have hpoints := Run.run_invariant (I := fun r : Host Reno => (r.Ok ∧ r.Board) ∧ r.Points)
    (fun s i s' hs he => by
      cases he
      exact ⟨⟨hs.1.1.input i, hs.1.2.input hs.1.1 i⟩, hs.2.next hs.1.1 hs.1.2 i⟩)
    ⟨⟨h0.ok, board_blank h0.ok h0.blank⟩, points_blank h0.blank⟩ hr
  obtain ⟨⟨hok, hboard⟩, hp⟩ := hpoints
  obtain ⟨high, hat, hlt, hle⟩ := hp rp hrp
  refine ⟨high, hat, hlt, hle, fun js r₁ i hrun hbelow hno => ?_⟩
  -- a blank scoreboard is not in recovery
  have hbusy : ∀ b : Prop, (b → r.tcb.scoreboard = Scoreboard.new) → ¬ b := by
    intro b hblank hb
    rw [hblank hb] at hrp
    cases hrp
  have hstart : Ongoing high r := by
    refine ⟨hok, hboard, ⟨?_, ?_⟩, ?_, hle, fun _ => .inl (hrp.trans (congrArg some hat))⟩
    · exact hbusy _ fun h => hboard.blank (.inr (.inl h))
    · exact hbusy _ fun h => hboard.blank (.inr (.inr h))
    · by_contra hs
      exact hbusy _ (fun h => hboard.blank (.inl h)) (Bool.eq_false_iff.mpr hs)
  have hongoing : Ongoing high r₁ := by
    refine Run.run_invariant (fun s i s' hs he => ?_) hstart hrun
    cases he
    exact hs.next i
  have hfit : r₁.tcb.cc.Fit := (kept_run Reno.kept h0 hmss (Run.run_append.mpr ⟨r, hr, hrun⟩)).1
  exact (hongoing.spares hfit hbelow hno).imp (fun h => ⟨h.cwnd, h.ssthresh⟩) id

/-- Seven segments of five octets, of which the peer reports the second, the fourth and
the sixth. -/
def holed : List Input :=
  settled ++ (List.replicate 7 [Input.send (Bytes.replicate 5 7), .poll ⟨0⟩]).flatten ++
  [bareAck 101 [(SeqNumber.new 106, SeqNumber.new 111), (SeqNumber.new 116, SeqNumber.new 121),
    (SeqNumber.new 126, SeqNumber.new 131)] ⟨0⟩]

theorem one_reduction_holed : ∃ r : Host Reno, Run.run step accepted holed = some r ∧
    r.tcb.scoreboard.recoveryPoint = some (SeqNumber.new 136) ∧
    (r.tcb.cc.cwnd ≤ (r.input (bareAck 101 [] ⟨0⟩)).1.tcb.cc.cwnd ∧
      r.tcb.cc.ssthresh ≤
        (r.input (bareAck 101 [] ⟨0⟩)).1.tcb.cc.ssthresh) := by
  obtain ⟨r, hr, hrp, hno⟩ := Run.exists_run step accepted holed
    (fun r => r.tcb.scoreboard.recoveryPoint = some (SeqNumber.new 136) ∧
      (r.input (bareAck 101 [] ⟨0⟩)).1.una = r.una)
    (by decide +kernel)
  have hmss : accepted.tcb.mssAdvertise ≤ 65535 := by decide +kernel
  obtain ⟨high, -, hlt, -, hall⟩ := one_reduction accepted_opens hmss hr hrp
  have h := hall [] r (bareAck 101 [] ⟨0⟩) rfl hlt (by simp [bareAck])
  rw [hno] at h
  exact ⟨r, hr, hrp, h.resolve_right fun h' => absurd h'.1 (by omega)⟩

end Host

end Ferrumnet
