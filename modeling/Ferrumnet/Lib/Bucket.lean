import Mathlib.Tactic

/-
  A token bucket — credit that accrues with time, is capped when it is counted, and is
  spent where it is counted. Times and credit are natural numbers, and `earn g` bounds
  what a gap of `g` brings.

  1. `Visits.spent_le` — if two gaps never earn more than the gap they make up, any window
     of time spends at most one cap and what the whole window earns.
  2. `whole_le_iff` — where each gap cuts a fraction off what it earns, the sum is short of
     the whole by exactly as many units as the fractions make up.
-/

namespace Bucket

/-- The credit, and the time at which it was counted last. -/
structure Level where
  tokens : ℕ
  last : ℕ

/-- When, under which cap, and what was spent. -/
structure Visit where
  time : ℕ
  cap : ℕ
  spent : ℕ

variable {earn : ℕ → ℕ}

/-- A visit passes the bucket by and spends nothing, or counts the credit and spends of it. -/
inductive Serves (earn : ℕ → ℕ) (b : Level) (v : Visit) : Level → Prop
  | passes : v.spent = 0 → Serves earn b v b
  | fills (n : ℕ) : n + v.spent ≤ b.tokens + earn (v.time - b.last) → n + v.spent ≤ v.cap →
      Serves earn b v ⟨n, v.time⟩

/-- One visit after another. -/
inductive Visits (earn : ℕ → ℕ) : Level → List Visit → Prop
  | nil (b : Level) : Visits earn b []
  | cons {b b' : Level} {v : Visit} {vs : List Visit} : Serves earn b v b' → Visits earn b' vs →
      Visits earn b (v :: vs)

/-- The visits from `t₁` to `t₂`. -/
def within (t₁ t₂ : ℕ) (vs : List Visit) : List Visit :=
  vs.filter fun v => t₁ ≤ v.time ∧ v.time ≤ t₂

def spent (vs : List Visit) : ℕ := (vs.map Visit.spent).sum

/-- The largest cap. -/
def peak (vs : List Visit) : ℕ := (vs.map Visit.cap).foldr max 0

section

variable {t₁ t₂ : ℕ} {v : Visit} {vs : List Visit}

theorem within_cons_of_mem (h₁ : t₁ ≤ v.time) (h₂ : v.time ≤ t₂) :
    within t₁ t₂ (v :: vs) = v :: within t₁ t₂ vs :=
  List.filter_cons_of_pos (by simp [h₁, h₂])

theorem within_cons_of_lt (h : v.time < t₁) : within t₁ t₂ (v :: vs) = within t₁ t₂ vs :=
  List.filter_cons_of_neg (by simp [h])

/-- Nothing comes after the window but what is later still. -/
theorem within_eq_nil (h : ∀ w ∈ vs, t₂ < w.time) : within t₁ t₂ vs = [] := by
  apply List.filter_eq_nil_iff.mpr
  intro w hw
  have hlate := h w hw
  simp only [decide_eq_true_eq, not_and, not_le]
  exact fun _ => hlate

@[simp] theorem spent_nil : spent [] = 0 := rfl

@[simp] theorem spent_cons : spent (v :: vs) = v.spent + spent vs := List.sum_cons

theorem peak_cons : peak (v :: vs) = max v.cap (peak vs) := rfl

end

/-! ## What a window spends -/

section

variable {b : Level} {vs : List Visit} {t₁ t₂ : ℕ}

/-- From a bucket counted inside the window: what it holds, and what the rest earns. -/
theorem Visits.spent_le_level (hearn : ∀ g g', earn g + earn g' ≤ earn (g + g')) (h : Visits earn b vs)
    (hsorted : (b.last :: vs.map Visit.time).Pairwise (· ≤ ·)) (h₁ : t₁ ≤ b.last) (h₂ : b.last ≤ t₂) :
    spent (within t₁ t₂ vs) ≤ b.tokens + earn (t₂ - b.last) := by
  induction h with
  | nil b => exact Nat.zero_le _
  | @cons b b' v vs hv _ ih =>
    rw [List.map_cons] at hsorted
    obtain ⟨hfirst, hrest⟩ := List.pairwise_cons.mp hsorted
    have hb : b.last ≤ v.time := hfirst _ List.mem_cons_self
    by_cases hlate : t₂ < v.time
    · -- the window is over, and the rest is later
      rw [within_eq_nil]
      · exact Nat.zero_le _
      intro w hw
      rcases List.mem_cons.mp hw with rfl | hw
      · exact hlate
      · exact lt_of_lt_of_le hlate
          ((List.pairwise_cons.mp hrest).1 _ (List.mem_map_of_mem hw))
    rw [within_cons_of_mem (h₁.trans hb) (Nat.le_of_not_lt hlate), spent_cons]
    cases hv with
    | passes hzero =>
      rw [hzero, Nat.zero_add]
      apply ih _ h₁ h₂
      exact hsorted.sublist (List.Sublist.cons_cons _ (List.sublist_cons_self _ _))
    | fills n hcredit _ =>
      have hnext := ih hrest (h₁.trans hb) (Nat.le_of_not_lt hlate)
      calc v.spent + spent (within t₁ t₂ vs)
          ≤ v.spent + (n + earn (t₂ - v.time)) := Nat.add_le_add_left hnext _
        _ = (n + v.spent) + earn (t₂ - v.time) := by omega
        _ ≤ (b.tokens + earn (v.time - b.last)) + earn (t₂ - v.time) := Nat.add_le_add_right hcredit _
        _ = b.tokens + (earn (v.time - b.last) + earn (t₂ - v.time)) := Nat.add_assoc _ _ _
        _ ≤ b.tokens + earn ((v.time - b.last) + (t₂ - v.time)) := Nat.add_le_add_left (hearn _ _) _
        _ = b.tokens + earn (t₂ - b.last) := by congr 2; omega

/-- Any window spends at most one cap and what the window earns, whatever the bucket
held before it. -/
theorem Visits.spent_le (hearn : ∀ g g', earn g + earn g' ≤ earn (g + g')) (h : Visits earn b vs)
    (hsorted : (vs.map Visit.time).Pairwise (· ≤ ·)) (t₁ t₂ : ℕ) :
    spent (within t₁ t₂ vs) ≤ peak (within t₁ t₂ vs) + earn (t₂ - t₁) := by
  have hmono : ∀ {g g' : ℕ}, g ≤ g' → earn g ≤ earn g' := by
    intro g g' hle
    have hsum := hearn g (g' - g)
    rw [Nat.add_sub_cancel' hle] at hsum
    omega
  induction h with
  | nil b => exact Nat.zero_le _
  | @cons b b' v vs hv hvs ih =>
    rw [List.map_cons] at hsorted
    obtain ⟨hfirst, hrest⟩ := List.pairwise_cons.mp hsorted
    have ih := ih hrest
    by_cases hearly : v.time < t₁
    · rwa [within_cons_of_lt hearly]
    by_cases hlate : t₂ < v.time
    · rw [within_eq_nil]
      · exact Nat.zero_le _
      intro w hw
      rcases List.mem_cons.mp hw with rfl | hw
      · exact hlate
      · exact lt_of_lt_of_le hlate (hfirst _ (List.mem_map_of_mem hw))
    have h₁ : t₁ ≤ v.time := Nat.le_of_not_lt hearly
    have h₂ : v.time ≤ t₂ := Nat.le_of_not_lt hlate
    rw [within_cons_of_mem h₁ h₂, spent_cons, peak_cons]
    cases hv with
    | passes hzero => omega
    | fills n _ hcap =>
      -- the first count inside the window: the cap bounds all that came before
      have hnext := hvs.spent_le_level hearn hsorted h₁ h₂
      have hgap : earn (t₂ - v.time) ≤ earn (t₂ - t₁) := hmono (by omega)
      calc v.spent + spent (within t₁ t₂ vs)
          ≤ v.spent + (n + earn (t₂ - v.time)) := Nat.add_le_add_left hnext _
        _ = (n + v.spent) + earn (t₂ - v.time) := by omega
        _ ≤ v.cap + earn (t₂ - t₁) := Nat.add_le_add hcap hgap
        _ ≤ max v.cap (peak (within t₁ t₂ vs)) + earn (t₂ - t₁) :=
            Nat.add_le_add_right (Nat.le_max_left _ _) _

end

/-- Whole units only: two gaps earn no more than the gap they make up. -/
theorem units_add_le (rate unit g g' : ℕ) :
    rate * g / unit + rate * g' / unit ≤ rate * (g + g') / unit := by
  rw [Nat.mul_add]
  exact Nat.div_add_div_le_add_div

/-! ## What the fractions come to -/

/-- The gaps between `start` and one time after another. -/
def gaps : ℕ → List ℕ → List ℕ
  | _, [] => []
  | start, t :: ts => (t - start) :: gaps t ts

/-- They make up the whole time. -/
theorem sum_gaps {start : ℕ} {ts : List ℕ} (h : (start :: ts).Pairwise (· ≤ ·)) :
    (gaps start ts).sum = ts.getLastD start - start := by
  induction ts generalizing start with
  | nil => simp [gaps]
  | cons t ts ih =>
    obtain ⟨hfirst, hrest⟩ := List.pairwise_cons.mp h
    have hstart : start ≤ t := hfirst _ List.mem_cons_self
    have hlast : t ≤ ts.getLastD t := by
      cases ts with
      | nil => exact Nat.le_refl t
      | cons t' ts =>
        apply (List.pairwise_cons.mp hrest).1
        rw [List.getLastD_cons]
        exact List.getLastD_mem_cons
    rw [gaps, List.sum_cons, ih hrest, List.getLastD_cons]
    omega

/-- Where a gap `g` earns `f g` units of the `unit` it takes to make one, and cuts off
`cut g`, many gaps are short of the whole by at most `k` units exactly if what is cut off
does not make up one more. -/
theorem whole_le_iff {rate unit : ℕ} (hunit : 0 < unit) {f cut : ℕ → ℕ}
    (hcut : ∀ g, unit * f g + cut g = rate * g) (gs : List ℕ) (k : ℕ) :
    rate * gs.sum / unit ≤ (gs.map f).sum + k ↔ (gs.map cut).sum < (k + 1) * unit := by
  have htotal : unit * (gs.map f).sum + (gs.map cut).sum = rate * gs.sum := by
    induction gs with
    | nil => simp
    | cons g gs ih =>
      simp only [List.map_cons, List.sum_cons, Nat.mul_add]
      have hg := hcut g
      omega
  rw [← htotal, Nat.mul_add_div hunit, Nat.add_le_add_iff_left, ← Nat.lt_succ_iff,
    Nat.div_lt_iff_lt_mul hunit]

end Bucket
