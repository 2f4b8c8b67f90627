import Ferrumnet.AckDivision

/-
  DCTCP cuts its window at most once for each round trip of data.

  A cut opens an observation window of the size that the window had before it; the next
  cut closes that one, or a later one. What other events do to the window meanwhile does
  not matter (`Spent`).

  1. `Gauged` — the marked fraction and its average stay between 0 and 1.
  2. `onEcn_le`, `le_onEcn` — what one ECN event leaves of the window.
  3. `Spent.next` — what has been reported since a cut.
  4. `ecn_paced` — every run.
-/

namespace Ferrumnet

theorem le_toU32 {n : Nat} {x : ℚ} (h : (n : ℚ) ≤ x) (hn : n ≤ u32Max) : n ≤ toU32 x := by
  have hfloor : (n : ℤ) ≤ ⌊x⌋ := Int.le_floor.mpr (by exact_mod_cast h)
  refine le_min ?_ hn
  omega

namespace MarkWindow

variable {m : MarkWindow}

/-- No more bytes are marked than are acknowledged, and the average is one of fractions. -/
structure Gauged (m : MarkWindow) : Prop where
  nonneg : 0 ≤ m.alpha
  le_one : m.alpha ≤ 1
  marked : m.markedInWindow ≤ m.ackedInWindow

theorem gauged_new (mss : Nat) : (new mss).Gauged := by
  refine ⟨?_, ?_, Nat.zero_le _⟩
  · change (0 : ℚ) ≤ 1
    norm_num
  · change (1 : ℚ) ≤ 1
    norm_num

theorem Gauged.count (h : m.Gauged) (acked marked : Nat) : (m.count acked marked).Gauged := by
  refine ⟨h.nonneg, h.le_one, ?_⟩
  have hle := h.marked
  change min (m.markedInWindow + min marked acked) u32Max ≤ min (m.ackedInWindow + acked) u32Max
  omega

/-- The smoothed fraction moves from one value between 0 and 1 towards another. -/
theorem Gauged.nextAlpha (h : m.Gauged) : 0 ≤ m.nextAlpha ∧ m.nextAlpha ≤ 1 := by
  refine ⟨nextAlpha_nonneg h.nonneg, ?_⟩
  have hfraction : (m.markedInWindow : ℚ) / m.ackedInWindow ≤ 1 :=
    div_le_one_of_le₀ (by exact_mod_cast h.marked) (Nat.cast_nonneg _)
  calc m.nextAlpha
      = 15 / 16 * m.alpha + 1 / 16 * (m.markedInWindow / m.ackedInWindow) := by
        rw [MarkWindow.nextAlpha, dctcpG]
        norm_num
    _ ≤ 15 / 16 * 1 + 1 / 16 * 1 := by
        gcongr
        exact h.le_one
    _ = 1 := by norm_num

end MarkWindow

namespace Dctcp

variable {c d : Dctcp} {acked marked : Nat}

/-- The event closes an observation window that saw a mark, and cuts. -/
def Cuts (c : Dctcp) (acked marked : Nat) : Prop :=
  acked ≠ 0 ∧ c.windowBytes ≤ (c.toMarkWindow.count acked marked).ackedInWindow ∧
    0 < (c.toMarkWindow.count acked marked).markedInWindow

instance : Decidable (c.Cuts acked marked) := inferInstanceAs (Decidable (_ ∧ _ ∧ _))

/-! ## One event -/

/-- The window stays open. -/
theorem onEcn_open (hne : acked ≠ 0) (h : (c.toMarkWindow.count acked marked).ackedInWindow < c.windowBytes) :
    c.onEcn acked marked = { c with toMarkWindow := c.toMarkWindow.count acked marked } := by
  simp only [onEcn, Reno.onEcnBy, if_neg hne]
  rw [if_pos (by exact h)]

/-- The window closes, and the next one is as large as the congestion window is. -/
theorem onEcn_closed (hne : acked ≠ 0) (h : c.windowBytes ≤ (c.toMarkWindow.count acked marked).ackedInWindow) :
    c.onEcn acked marked =
      { toReno := if 0 < (c.toMarkWindow.count acked marked).markedInWindow then
          c.toReno.cutBy ((c.toMarkWindow.count acked marked).nextAlpha / 2) else c.toReno
        toMarkWindow :=
          { alpha := (c.toMarkWindow.count acked marked).nextAlpha
            ackedInWindow := 0, markedInWindow := 0, windowBytes := max c.cwnd c.mss } } := by
  have hclosed : ¬ (c.toMarkWindow.count acked marked).ackedInWindow <
      (c.toMarkWindow.count acked marked).windowBytes := Nat.not_lt.mpr h
  simp only [onEcn, Reno.onEcnBy, if_neg hne, if_neg hclosed, gt_iff_lt]

/-- Only a cut moves the congestion window. -/
theorem onEcn_uncut (h : ¬ c.Cuts acked marked) : (c.onEcn acked marked).toReno = c.toReno := by
  by_cases hne : acked = 0
  · rw [hne]
    rfl
  · rcases Nat.lt_or_ge (c.toMarkWindow.count acked marked).ackedInWindow c.windowBytes with hopen | hclosed
    · rw [onEcn_open hne hopen]
    · rw [onEcn_closed hne hclosed]
      exact if_neg fun hmark => h ⟨hne, hclosed, hmark⟩

theorem onEcn_cut (h : c.Cuts acked marked) : (c.onEcn acked marked).toReno =
    c.toReno.cutBy ((c.toMarkWindow.count acked marked).nextAlpha / 2) := by
  rw [onEcn_closed h.1 h.2.1]
  exact if_pos h.2.2

/-- What every event keeps. -/
def Metered (mss : Nat) (c : Dctcp) : Prop := c.Sized mss ∧ c.toMarkWindow.Gauged

theorem Gauged.onEcn (h : c.toMarkWindow.Gauged) (acked marked : Nat) :
    (c.onEcn acked marked).toMarkWindow.Gauged := by
  by_cases hne : acked = 0
  · rw [hne]
    exact h
  · rcases Nat.lt_or_ge (c.toMarkWindow.count acked marked).ackedInWindow c.windowBytes with hopen | hclosed
    · rw [onEcn_open hne hopen]
      exact h.count acked marked
    · rw [onEcn_closed hne hclosed]
      exact ⟨(h.count acked marked).nextAlpha.1, (h.count acked marked).nextAlpha.2, le_rfl⟩

theorem Metered.next {mss : Nat} (h : c.Metered mss) (now : Instant) {e : CcEvent} (he : e.Fits) :
    Metered mss (applyCc c now e).1 := by
  refine ⟨Sized.next h.1 now he, ?_⟩
  cases e with
  | ecn acked marked => exact Gauged.onEcn h.2 acked marked
  | _ => exact h.2

/-- An ECN event leaves at most the window there was, -/
theorem onEcn_le (h : c.Fit) (acked marked : Nat) : (c.onEcn acked marked).cwnd ≤ c.cwnd :=
  (h.1.onEcnBy h.2 _ half_nonneg acked marked).2.1

/-- and at least half of it and one segment. -/
theorem le_onEcn (h : c.Fit) (hm : c.toMarkWindow.Gauged) (acked marked : Nat) :
    max c.mss (c.cwnd / 2) ≤ (c.onEcn acked marked).cwnd := by
  have hfloor := h.1.floor
  have hrange := h.1.range
  by_cases hcut : c.Cuts acked marked
  · have hhalf : ((c.cwnd / 2 : Nat) : ℚ) ≤
        c.cwnd * (1 - (c.toMarkWindow.count acked marked).nextAlpha / 2) := by
      have hle := (hm.count acked marked).nextAlpha.2
      calc ((c.cwnd / 2 : Nat) : ℚ) ≤ (c.cwnd : ℚ) / 2 := Nat.cast_div_le
        _ = c.cwnd * (1 - 1 / 2) := by ring
        _ ≤ c.cwnd * (1 - (c.toMarkWindow.count acked marked).nextAlpha / 2) := by gcongr
    rw [onEcn_cut hcut]
    exact max_le (le_max_right ..) ((le_toU32 hhalf (by omega)).trans (le_max_left ..))
  · rw [onEcn_uncut hcut]
    omega

/-! ## Between two cuts -/

/-- The bytes that an event reports to the marking. -/
def reported : CcEvent → Nat
  | .ecn acked _ => acked
  | _ => 0

def reports (es : List (Instant × CcEvent)) : Nat := (es.map fun e => reported e.2).sum

/-- Of `n` bytes reported since the cut, `w` have closed a window, or the window that the cut
opened is still open and holds no more of them than there are. -/
def Spent (w n : Nat) (c : Dctcp) : Prop := w ≤ n ∨ w ≤ c.windowBytes ∧ c.ackedInWindow ≤ n

theorem Spent.next {w n : Nat} (h : c.Spent w n) (now : Instant) (e : CcEvent) :
    Spent w (n + reported e) (applyCc c now e).1 := by
  cases e with
  | ecn acked marked =>
    change Spent w (n + acked) (c.onEcn acked marked)
    rcases h with hdone | ⟨hw, hn⟩
    · exact .inl (hdone.trans (Nat.le_add_right ..))
    · by_cases hne : acked = 0
      · rw [hne]
        exact .inr ⟨hw, hn⟩
      · have hcount : (c.toMarkWindow.count acked marked).ackedInWindow ≤ n + acked :=
          (Nat.min_le_left ..).trans (Nat.add_le_add_right hn acked)
        rcases Nat.lt_or_ge (c.toMarkWindow.count acked marked).ackedInWindow c.windowBytes with hopen | hclosed
        · rw [onEcn_open hne hopen]
          exact .inr ⟨hw, hcount⟩
        · exact .inl (hw.trans (hclosed.trans hcount))
  | ack acked => exact h
  | rtt srtt => exact h
  | dupAck flight => exact h
  | rto flight => exact h
  | enterRecovery flight => exact h

theorem Spent.run {w n : Nat} (h : c.Spent w n) {es : List (Instant × CcEvent)}
    (hr : Run.run drive c es = some d) : Spent w (n + reports es) d := by
  induction es generalizing c n with
  | nil =>
    cases hr
    exact h
  | cons e es ih =>
    have hrest := ih (h.next e.1 e.2) hr
    rw [Nat.add_assoc] at hrest
    exact hrest

/-- A cut opens a window as large as the congestion window was. -/
theorem Cuts.spent (h : c.Cuts acked marked) : Spent c.cwnd 0 (c.onEcn acked marked) := by
  rw [onEcn_closed h.1 h.2.1]
  exact .inr ⟨le_max_left .., le_rfl⟩

/-- And a cut closes the window. -/
theorem Spent.cut {w n : Nat} (h : c.Spent w n) (hcut : c.Cuts acked marked) : w ≤ n + acked := by
  rcases h with hdone | ⟨hw, hn⟩
  · exact hdone.trans (Nat.le_add_right ..)
  · calc w ≤ c.windowBytes := hw
      _ ≤ min (c.ackedInWindow + acked) u32Max := hcut.2.1
      _ ≤ n + acked := (Nat.min_le_left ..).trans (Nat.add_le_add_right hn acked)

/-- In every run of DCTCP the average stays between 0 and 1, an ECN event never enlarges the
window nor takes it below one segment or half of it, and between two cuts at least as many
bytes are reported as the window was before the first. -/
theorem ecn_paced {mss : Nat} {past : List (Instant × CcEvent)} (h1 : mss ≤ 65535) (hes : ∀ e ∈ past, e.2.Fits)
    (hr : Run.run drive (Dctcp.new mss) past = some c) :
    (0 ≤ c.alpha ∧ c.alpha ≤ 1) ∧
      (∀ acked marked, (c.onEcn acked marked).cwnd ≤ c.cwnd ∧
        max mss (c.cwnd / 2) ≤ (c.onEcn acked marked).cwnd) ∧
      ∀ acked marked mid d acked' marked', c.Cuts acked marked →
        Run.run drive (c.onEcn acked marked) mid = some d → d.Cuts acked' marked' →
        c.cwnd ≤ reports mid + acked' := by
  have hI : ∀ (c : Dctcp) now e, e.Fits → c.Metered mss → (applyCc c now e).1.Metered mss :=
    fun c now e he hc => Metered.next hc now he
  have hc : c.Metered mss := drive_invariant (I := fun c : Dctcp => c.Metered mss) hI
    ⟨⟨Dctcp.kept.new .dctcp mss h1, rfl⟩, MarkWindow.gauged_new mss⟩ hes hr
  obtain ⟨⟨hfit, hmss⟩, hgauged⟩ := hc
  refine ⟨⟨hgauged.nonneg, hgauged.le_one⟩, fun acked marked => ⟨onEcn_le hfit acked marked, ?_⟩, ?_⟩
  · rw [← hmss]
    exact le_onEcn hfit hgauged acked marked
  · intro acked marked mid d acked' marked' hfirst hmid hsecond
    have hspent := (hfirst.spent.run hmid).cut hsecond
    rwa [Nat.zero_add] at hspent

/-- Two cuts with a loss between them. -/
theorem ecn_paced_twice : ∃ c d : Dctcp, Run.run drive (Dctcp.new 1000) [(⟨0⟩, .ack 1000)] = some c ∧
    c.cwnd = 11000 ∧ c.Cuts 12000 500 ∧
      Run.run drive (c.onEcn 12000 500) [(⟨1⟩, .ecn 5000 5000), (⟨2⟩, .enterRecovery 4000)] = some d ∧
        d.Cuts 6000 0 ∧ c.cwnd ≤ reports [(⟨1⟩, .ecn 5000 5000), (⟨2⟩, .enterRecovery 4000)] + 6000 := by
  have hes : ∀ e ∈ [((⟨0⟩ : Instant), CcEvent.ack 1000)], e.2.Fits := by
    intro e he
    rw [List.mem_singleton.mp he]
    exact (by decide : (1000 : Nat) ≤ u32Max)
  have hfirst : (Dctcp.onAck (Dctcp.new 1000) 1000).Cuts 12000 500 := by decide +kernel
  refine ⟨_, _, rfl, by decide +kernel, hfirst, rfl, by decide +kernel, ?_⟩
  exact (ecn_paced (by decide) hes rfl).2.2 12000 500 _ _ 6000 0 hfirst rfl (by decide +kernel)

end Dctcp

end Ferrumnet
