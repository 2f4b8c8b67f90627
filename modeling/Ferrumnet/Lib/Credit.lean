import Mathlib.Tactic

/-
  Purchases at a price that moves — while the credit covers the price, the price is paid
  and moves on to `next price`.

  1. `settle_deposit`, `settle_foldl` — credit that comes in parts buys what it buys at once.
  2. `settle_le` — if the price at most doubles, price and credit together do not rise.
  3. `settle_settled`, `buy_settled` — with positive prices the purchases end, and more
     rounds than there is credit change nothing.
-/

namespace Credit

structure Till where
  credit : ℕ
  price : ℕ
  deriving DecidableEq, Repr

variable {next : ℕ → ℕ} {P : ℕ → Prop}

/-- At most so many purchases. -/
def buy (next : ℕ → ℕ) : ℕ → Till → Till
  | 0, t => t
  | fuel + 1, t => if t.credit ≥ t.price then buy next fuel ⟨t.credit - t.price, next t.price⟩ else t

/-- All the purchases that the credit covers. -/
def settle (next : ℕ → ℕ) (t : Till) : Till := buy next t.credit t

def Till.deposit (t : Till) (n : ℕ) : Till := ⟨t.credit + n, t.price⟩

/-- No further purchase. -/
def Till.Settled (t : Till) : Prop := t.credit < t.price

theorem buy_of_settled {t : Till} (h : t.Settled) (fuel : ℕ) : buy next fuel t = t := by
  cases fuel with
  | zero => rfl
  | succ fuel => exact if_neg (Nat.not_le.mpr h)

theorem buy_pay {t : Till} (h : t.price ≤ t.credit) (fuel : ℕ) :
    buy next (fuel + 1) t = buy next fuel ⟨t.credit - t.price, next t.price⟩ := if_pos h

/-- Two prices that move alike as far as the credit takes them. -/
theorem buy_congr {next' : ℕ → ℕ} {I : Till → Prop} (hI : ∀ t, I t → t.price ≤ t.credit →
    next t.price = next' t.price ∧ I ⟨t.credit - t.price, next t.price⟩) (fuel : ℕ) {t : Till} (ht : I t) :
    buy next fuel t = buy next' fuel t := by
  induction fuel generalizing t with
  | zero => rfl
  | succ fuel ih =>
    by_cases h : t.price ≤ t.credit
    · obtain ⟨he, hnext⟩ := hI t ht h
      rw [buy_pay h, buy_pay h, ih hnext, he]
    · have hset : t.Settled := Nat.not_le.mp h
      rw [buy_of_settled hset, buy_of_settled hset]

/-- While prices are positive, every purchase uses up credit. -/
theorem buy_settled (hP : ∀ p, P p → 0 < p ∧ P (next p)) {t : Till} (ht : P t.price) {fuel : ℕ}
    (h : t.credit ≤ fuel) : (buy next fuel t).Settled ∧ ∀ more, buy next (fuel + more) t = buy next fuel t := by
  induction fuel generalizing t with
  | zero =>
    have hpos := (hP _ ht).1
    have hset : t.Settled := by
      change t.credit < t.price
      omega
    refine ⟨hset, fun more => ?_⟩
    rw [buy_of_settled hset, buy_of_settled hset]
  | succ fuel ih =>
    by_cases hgo : t.price ≤ t.credit
    · have hpos := (hP _ ht).1
      have hless : t.credit - t.price ≤ fuel := by omega
      obtain ⟨hset, hmore⟩ := ih (t := ⟨t.credit - t.price, next t.price⟩) (hP _ ht).2 hless
      rw [buy_pay hgo]
      refine ⟨hset, fun more => ?_⟩
      rw [Nat.succ_add, buy_pay hgo]
      exact hmore more
    · have hset : t.Settled := Nat.not_le.mp hgo
      refine ⟨by rw [buy_of_settled hset]; exact hset, fun more => ?_⟩
      rw [buy_of_settled hset, buy_of_settled hset]

theorem settle_of_settled {t : Till} (h : t.Settled) : settle next t = t := buy_of_settled h _

section

variable (hP : ∀ p, P p → 0 < p ∧ P (next p))

include hP

/-- Any number of rounds that covers the credit. -/
theorem buy_eq_settle {t : Till} (ht : P t.price) {fuel : ℕ} (h : t.credit ≤ fuel) :
    buy next fuel t = settle next t := by
  obtain ⟨more, rfl⟩ := Nat.exists_eq_add_of_le h
  exact (buy_settled hP ht le_rfl).2 more

/-- One purchase first. -/
theorem settle_pay {t : Till} (ht : P t.price) (h : t.price ≤ t.credit) :
    settle next t = settle next ⟨t.credit - t.price, next t.price⟩ := by
  have hpos := (hP _ ht).1
  rw [← buy_eq_settle hP ht (Nat.le_succ t.credit), buy_pay h]
  exact buy_eq_settle hP (t := ⟨t.credit - t.price, next t.price⟩) (hP _ ht).2 (Nat.sub_le ..)

/-- By purchases: what holds of settled tills, and before a purchase if after it, holds of all. -/
theorem settle_induction {Q : Till → Prop} (hset : ∀ t, P t.price → t.Settled → Q t)
    (hpay : ∀ t, P t.price → t.price ≤ t.credit → Q ⟨t.credit - t.price, next t.price⟩ → Q t) :
    ∀ t, P t.price → Q t := by
  intro t ht
  induction hn : t.credit using Nat.strong_induction_on generalizing t with
  | _ n ih =>
    by_cases hgo : t.price ≤ t.credit
    · have hpos := (hP _ ht).1
      refine hpay t ht hgo (ih (t.credit - t.price) (by omega) ⟨t.credit - t.price, next t.price⟩ (hP _ ht).2 rfl)
    · exact hset t ht (Nat.not_le.mp hgo)

/-- What every price keeps. -/
theorem settle_price (t : Till) (ht : P t.price) : P (settle next t).price := by
  refine settle_induction hP (Q := fun t => P (settle next t).price) (fun t ht h => ?_) (fun t ht h ih => ?_) t ht
  · rwa [settle_of_settled h]
  · rwa [settle_pay hP ht h]

/-- What was bought first does not matter. -/
theorem settle_deposit (t : Till) (ht : P t.price) (n : ℕ) :
    settle next ((settle next t).deposit n) = settle next (t.deposit n) := by
  refine settle_induction hP (Q := fun t => settle next ((settle next t).deposit n) = settle next (t.deposit n))
    (fun t ht h => ?_) (fun t ht h ih => ?_) t ht
  · rw [settle_of_settled h]
  · have hle : t.price ≤ (t.deposit n).credit := h.trans (Nat.le_add_right ..)
    have hsub : t.credit + n - t.price = t.credit - t.price + n := by omega
    calc settle next ((settle next t).deposit n)
        = settle next ((settle next ⟨t.credit - t.price, next t.price⟩).deposit n) := by rw [settle_pay hP ht h]
      _ = settle next ⟨t.credit - t.price + n, next t.price⟩ := ih
      _ = settle next (t.deposit n) := by
        rw [settle_pay hP (t := t.deposit n) ht hle]
        exact congrArg (fun c => settle next ⟨c, next t.price⟩) hsub.symm

/-- Credit in parts, settled after each. -/
theorem settle_foldl {parts : List ℕ} (hne : parts ≠ []) (t : Till) (ht : P t.price) :
    parts.foldl (fun t n => settle next (t.deposit n)) t = settle next (t.deposit parts.sum) := by
  induction parts generalizing t with
  | nil => exact absurd rfl hne
  | cons n parts ih =>
    rw [List.foldl_cons, List.sum_cons]
    cases parts with
    | nil => rfl
    | cons m parts =>
      rw [ih (List.cons_ne_nil m parts) _ (settle_price hP (t.deposit n) ht), settle_deposit hP (t.deposit n) ht]
      exact congrArg (fun c => settle next ⟨c, t.price⟩) (Nat.add_assoc t.credit n _)

/-- A price that only rises. -/
theorem le_settle (hle : ∀ p, P p → p ≤ next p) (t : Till) (ht : P t.price) : t.price ≤ (settle next t).price := by
  refine settle_induction hP (Q := fun t => t.price ≤ (settle next t).price) (fun t ht h => ?_)
    (fun t ht h ih => ?_) t ht
  · rw [settle_of_settled h]
  · rw [settle_pay hP ht h]
    exact (hle _ ht).trans ih

theorem settle_credit_le (t : Till) (ht : P t.price) : (settle next t).credit ≤ t.credit := by
  refine settle_induction hP (Q := fun t => (settle next t).credit ≤ t.credit) (fun t ht h => ?_)
    (fun t ht h ih => ?_) t ht
  · rw [settle_of_settled h]
  · rw [settle_pay hP ht h]
    exact ih.trans (Nat.sub_le ..)

/-- A price that at most doubles rises by no more than is paid. -/
theorem settle_le (hle : ∀ p, P p → next p ≤ p + p) (t : Till) (ht : P t.price) :
    (settle next t).price + (settle next t).credit ≤ t.price + t.credit := by
  refine settle_induction hP (Q := fun t => (settle next t).price + (settle next t).credit ≤ t.price + t.credit)
    (fun t ht h => ?_) (fun t ht h ih => ?_) t ht
  · rw [settle_of_settled h]
  · rw [settle_pay hP ht h]
    have := hle _ ht
    change _ ≤ next t.price + (t.credit - t.price) at ih
    omega

end

end Credit
