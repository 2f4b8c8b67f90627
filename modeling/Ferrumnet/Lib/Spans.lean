import Ferrumnet.Lib.Intervals
import Mathlib.Data.Nat.Count

/-
  Walks over `[x, hi)` that look at one point of each span between known edges.

  `ChangesAt edges f` says that `f` changes its value at an edge only. It is what a walk
  over spans rests on: what holds at the start of a span holds all over it.

  1. `nearest_spec`, `ChangesAt.uniform` — the next edge, and nothing changes before it.
  2. `total_eq` — the lengths of the spans whose start has a property, summed, are the
     number of points that have it.
  3. `find_some`, `find_none` — the first such start is the least such point.
-/

namespace Spans

variable {β γ δ : Type*} {edges edges' : List ℕ} {x y hi : ℕ}

/-! ## The next edge -/

/-- The least edge above `x` and below `limit`, else `limit`. -/
def nearest (edges : List ℕ) (x limit : ℕ) : ℕ :=
  edges.foldl (fun b e => if x < e ∧ e < b then e else b) limit

theorem nearest_spec (edges : List ℕ) {limit : ℕ} (h : x < limit) :
    x < nearest edges x limit ∧ nearest edges x limit ≤ limit ∧
      ∀ e ∈ edges, x < e → nearest edges x limit ≤ e := by
  induction edges generalizing limit with
  | nil => exact ⟨h, le_rfl, fun e he => absurd he List.not_mem_nil⟩
  | cons e edges ih =>
    by_cases hcloser : x < e ∧ e < limit
    · have hstep : nearest (e :: edges) x limit = nearest edges x e := by
        rw [nearest, List.foldl_cons, if_pos hcloser]
        rfl
      obtain ⟨h1, h2, h3⟩ := ih hcloser.1
      rw [hstep]
      refine ⟨h1, h2.trans hcloser.2.le, fun e' he' hx => ?_⟩
      cases List.mem_cons.mp he' with
      | inl heq => rw [heq]; exact h2
      | inr hmem => exact h3 e' hmem hx
    · have hstep : nearest (e :: edges) x limit = nearest edges x limit := by
        rw [nearest, List.foldl_cons, if_neg hcloser]
        rfl
      obtain ⟨h1, h2, h3⟩ := ih h
      rw [hstep]
      refine ⟨h1, h2, fun e' he' hx => ?_⟩
      cases List.mem_cons.mp he' with
      | inl heq =>
        rw [heq] at hx ⊢
        exact h2.trans (not_lt.mp fun hlt => hcloser ⟨hx, hlt⟩)
      | inr hmem => exact h3 e' hmem hx

/-! ## Functions that change at edges only -/

def ChangesAt (edges : List ℕ) (f : ℕ → β) : Prop := ∀ q, q + 1 ∉ edges → f (q + 1) = f q

theorem ChangesAt.comp {f : ℕ → β} (h : ChangesAt edges f) (g : β → γ) : ChangesAt edges fun q => g (f q) := by
  intro q hq
  exact congrArg g (h q hq)

theorem ChangesAt.comp₂ {f : ℕ → β} {f' : ℕ → γ} (h : ChangesAt edges f) (h' : ChangesAt edges f')
    (g : β → γ → δ) : ChangesAt edges fun q => g (f q) (f' q) := by
  intro q hq
  exact congrArg₂ g (h q hq) (h' q hq)

/-- The points of a set of intervals change at their ends. -/
theorem changesAt_covers {l : List (ℕ × ℕ)} (h : ∀ i ∈ l, i.1 ∈ edges ∧ i.2 ∈ edges) :
    ChangesAt edges fun q => decide (Intervals.Covers l q) := by
  intro q hq
  rw [decide_eq_decide]
  refine exists_congr fun i => and_congr_right fun hi => ?_
  have h1 : q + 1 ≠ i.1 := fun he => hq (he ▸ (h i hi).1)
  have h2 : q + 1 ≠ i.2 := fun he => hq (he ▸ (h i hi).2)
  omega

/-- Being below an edge changes at that edge. -/
theorem changesAt_lt {e : ℕ} (h : e ∈ edges) : ChangesAt edges fun q => decide (q < e) := by
  intro q hq
  have hne : q + 1 ≠ e := fun he => hq (he ▸ h)
  rw [decide_eq_decide]
  omega

theorem changesAt_const (c : β) : ChangesAt edges fun _ => c := fun _ _ => rfl

/-- The intervals that start above a point change where one starts. -/
theorem changesAt_above {l : List (ℕ × ℕ)} (h : ∀ i ∈ l, i.1 ∈ edges) :
    ChangesAt edges fun q => l.filter fun i => decide (q < i.1) := by
  intro q hq
  refine List.filter_congr fun i hi => ?_
  have h1 : q + 1 ≠ i.1 := fun he => hq (he ▸ h i hi)
  rw [decide_eq_decide]
  omega

/-- Nothing changes before the next edge. -/
theorem ChangesAt.uniform {f : ℕ → β} {limit : ℕ} (h : ChangesAt edges f) (hx : x < limit) (hxy : x ≤ y)
    (hy : y < nearest edges x limit) : f y = f x := by
  obtain ⟨-, -, hedge⟩ := nearest_spec edges hx
  induction y, hxy using Nat.le_induction with
  | base => rfl
  | succ y hxy ih =>
    have hno : y + 1 ∉ edges := by
      intro hmem
      have := hedge (y + 1) hmem (by omega)
      omega
    calc f (y + 1) = f y := h y hno
      _ = f x := ih (by omega)

/-! ## Summing spans -/

/-- Add up the spans whose start satisfies `p`, from `x` to `hi`. -/
def total (next : ℕ → ℕ) (p : ℕ → Bool) (hi : ℕ) : ℕ → ℕ → ℕ → ℕ
  | 0, _, acc => acc
  | fuel + 1, x, acc =>
    if x < hi then total next p hi fuel (next x) (if p x then acc + (next x - x) else acc) else acc

/-- One span, point by point. -/
theorem count_span {p : ℕ → Bool} (h : ChangesAt edges p) (hx : x < hi) :
    Nat.count (fun q => p q) (nearest edges x hi) =
      Nat.count (fun q => p q) x + if p x then nearest edges x hi - x else 0 := by
  obtain ⟨hlt, -, -⟩ := nearest_spec edges hx
  obtain ⟨n, hn⟩ := Nat.exists_eq_add_of_lt hlt
  have hsame : ∀ k < n + 1, p (x + k) = p x := by
    intro k hk
    exact h.uniform hx (by omega) (by omega)
  have hlen : nearest edges x hi - x = n + 1 := by omega
  rw [hlen, hn, Nat.add_assoc, Nat.count_add]
  cases hp : p x with
  | true => rw [if_pos rfl, Nat.count_of_forall fun k hk => (hsame k hk).trans hp]
  | false =>
    have hnone : ∀ k < n + 1, ¬ p (x + k) = true := by
      intro k hk
      rw [hsame k hk, hp]
      exact Bool.false_ne_true
    rw [if_neg Bool.false_ne_true, Nat.count_of_forall_not hnone]

/-- As many rounds as points are left count those points that satisfy `p`. -/
theorem total_eq {p : ℕ → Bool} (h : ChangesAt edges p) {fuel acc : ℕ} (hx : x ≤ hi) (hfuel : hi ≤ x + fuel) :
    total (fun x => nearest edges x hi) p hi fuel x acc + Nat.count (fun q => p q) x =
      acc + Nat.count (fun q => p q) hi := by
  induction fuel generalizing x acc with
  | zero =>
    have he : x = hi := by omega
    rw [he, total]
  | succ fuel ih =>
    by_cases hlt : x < hi
    · obtain ⟨h1, h2, -⟩ := nearest_spec edges hlt
      have hspan := count_span h hlt
      rw [total, if_pos hlt]
      cases hp : p x with
      | true =>
        have hrest := @ih _ (acc + (nearest edges x hi - x)) h2 (by omega)
        rw [hp, if_pos rfl] at hspan
        rw [if_pos rfl]
        omega
      | false =>
        have hrest := @ih _ acc h2 (by omega)
        rw [hp, if_neg Bool.false_ne_true] at hspan
        rw [if_neg Bool.false_ne_true]
        omega
    · have he : x = hi := by omega
      rw [total, if_neg hlt, he]

/-! ## Looking for a span -/

/-- The first span start from `x` to `hi` that satisfies `p`. -/
def find (next : ℕ → ℕ) (p : ℕ → Bool) (hi : ℕ) : ℕ → ℕ → Option ℕ
  | 0, _ => none
  | fuel + 1, x => if x < hi then if p x then some x else find next p hi fuel (next x) else none

/-- What the walk finds is the least point that satisfies `p`. -/
theorem find_some {p : ℕ → Bool} (h : ChangesAt edges p) {fuel q : ℕ}
    (hf : find (fun x => nearest edges x hi) p hi fuel x = some q) :
    (x ≤ q ∧ q < hi ∧ p q = true) ∧ ∀ y, x ≤ y → y < q → p y = false := by
  induction fuel generalizing x with
  | zero => cases hf
  | succ fuel ih =>
    by_cases hlt : x < hi
    · cases hp : p x with
      | true =>
        rw [find, if_pos hlt, if_pos hp] at hf
        cases hf
        exact ⟨⟨le_rfl, hlt, hp⟩, fun y h1 h2 => absurd h2 (not_lt.mpr h1)⟩
      | false =>
        obtain ⟨h1, h2, -⟩ := nearest_spec edges hlt
        rw [find, if_pos hlt, hp, if_neg Bool.false_ne_true] at hf
        obtain ⟨⟨h3, h4, h5⟩, h6⟩ := ih hf
        refine ⟨⟨h1.le.trans h3, h4, h5⟩, fun y hxy hy => ?_⟩
        by_cases hin : y < nearest edges x hi
        · -- the span fails with its start
          exact (h.uniform hlt hxy hin).trans hp
        · exact h6 y (not_lt.mp hin) hy
    · rw [find, if_neg hlt] at hf
      cases hf

/-- With a round for every point it finds one if there is any. -/
theorem find_none {p : ℕ → Bool} (h : ChangesAt edges p) {fuel : ℕ} (hfuel : hi ≤ x + fuel)
    (hf : find (fun x => nearest edges x hi) p hi fuel x = none) : ∀ y, x ≤ y → y < hi → p y = false := by
  induction fuel generalizing x with
  | zero =>
    intro y h1 h2
    omega
  | succ fuel ih =>
    intro y hxy hy
    have hlt : x < hi := hxy.trans_lt hy
    cases hp : p x with
    | true =>
      rw [find, if_pos hlt, if_pos hp] at hf
      cases hf
    | false =>
      obtain ⟨h1, -, -⟩ := nearest_spec edges hlt
      rw [find, if_pos hlt, hp, if_neg Bool.false_ne_true] at hf
      by_cases hin : y < nearest edges x hi
      · exact (h.uniform hlt hxy hin).trans hp
      · exact ih (by omega) hf y (not_lt.mp hin) hy

end Spans
