import Mathlib.Tactic

/-
  Sets of points kept as sorted lists of half-open intervals `[a, b)` with a gap
  between any two of them.

  1. `Spaced.insert`, `covers_insert` — one interval more, fused with those it meets.
  2. `Spaced.clip`, `covers_clip` — what lies below a point, cut off.
-/

namespace Intervals

variable {α : Type*}

/-! ## Splitting a list -/

/-- A block that a scan has found, and what is left of the list without it. -/
theorem block_rest (xs ys zs : List α) (first count : ℕ)
    (hf : first = if ys = [] then (xs ++ ys ++ zs).length else xs.length) (hc : count = ys.length) :
    ((xs ++ ys ++ zs).drop first).take count = ys ∧
      (xs ++ ys ++ zs).take first ++ (xs ++ ys ++ zs).drop (first + count) = xs ++ zs := by
  subst hc hf
  by_cases h : ys = []
  · subst h; simp
  · rw [if_neg h]
    constructor
    · simp
    · rw [List.append_assoc, List.take_left, ← List.append_assoc,
        ← List.length_append, List.drop_left]

/-- Where a list goes over from elements that fail a test to ones that pass it. -/
theorem findIdx_boundary {f : α → Bool} {xs ys : List α} (hx : ∀ a ∈ xs, f a = false)
    (hy : ∀ a ∈ ys, f a = true) : ((xs ++ ys).findIdx? f).getD (xs ++ ys).length = xs.length := by
  have hnone : xs.findIdx? f = none := List.findIdx?_eq_none_iff.mpr fun a ha => by simpa using hx a ha
  rw [List.findIdx?_append, hnone]
  cases ys with
  | nil => simp
  | cons y ys => simp [List.findIdx?_cons, hy y List.mem_cons_self]

variable [LinearOrder α] {l pre mid post : List (α × α)} {x y q a : α}

/-- Nonempty intervals in order, with a gap between any two. -/
structure Spaced (l : List (α × α)) : Prop where
  nonempty : ∀ i ∈ l, i.1 < i.2
  apart : l.Pairwise fun i j => i.2 < j.1

/-- The points of the set. -/
def Covers (l : List (α × α)) (q : α) : Prop := ∃ i ∈ l, i.1 ≤ q ∧ q < i.2

instance : Decidable (Covers l q) := inferInstanceAs (Decidable (∃ i ∈ l, i.1 ≤ q ∧ q < i.2))

theorem spaced_nil : Spaced ([] : List (α × α)) := ⟨by simp, .nil⟩

theorem not_covers_nil : ¬ Covers ([] : List (α × α)) q := by
  rintro ⟨i, hi, -⟩
  cases hi

theorem Spaced.tail {i : α × α} (h : Spaced (i :: l)) : Spaced l :=
  ⟨fun j hj => h.nonempty j (List.mem_cons_of_mem _ hj), (List.pairwise_cons.mp h.apart).2⟩

theorem Spaced.sublist {l' : List (α × α)} (h : Spaced l) (hs : l'.Sublist l) : Spaced l' :=
  ⟨fun i hi => h.nonempty i (hs.subset hi), h.apart.sublist hs⟩

theorem covers_append {l' : List (α × α)} : Covers (l ++ l') q ↔ Covers l q ∨ Covers l' q := by
  simp only [Covers, List.mem_append, or_and_right, exists_or]

/-- The first intervals of a spaced list cover what lies below the next one. -/
theorem Spaced.covers_take (h : Spaced l) {n : ℕ} (hn : n < l.length) :
    Covers (l.take n) q ↔ Covers l q ∧ q < l[n].1 := by
  have hsplit : l.take n ++ l.drop n = l := List.take_append_drop n l
  have hapart := h.apart
  rw [← hsplit, List.pairwise_append] at hapart
  obtain ⟨-, hrest, hcross⟩ := hapart
  rw [List.drop_eq_getElem_cons hn] at hrest hcross
  have hiff : Covers l q ↔ Covers (l.take n) q ∨ Covers (l.drop n) q := by
    rw [← covers_append, hsplit]
  rw [hiff]
  constructor
  · intro hq
    refine ⟨.inl hq, ?_⟩
    obtain ⟨i, hi, -, h2⟩ := hq
    exact h2.trans (hcross i hi _ List.mem_cons_self)
  · rintro ⟨hq | ⟨i, hi, h1, -⟩, hlt⟩
    · exact hq
    · -- what is dropped lies at the next interval or above it
      refine absurd (h1.trans_lt hlt) (not_lt.mpr ?_)
      rw [List.drop_eq_getElem_cons hn] at hi
      cases List.mem_cons.mp hi with
      | inl he => rw [he]
      | inr hi => exact ((h.nonempty _ (List.getElem_mem hn)).trans ((List.pairwise_cons.mp hrest).1 i hi)).le

/-! ## One interval more -/

/-- The least interval around `[x, y)` and all of `mid`. -/
def fused (x y : α) (mid : List (α × α)) : α × α :=
  (mid.foldl (fun u i => min u i.1) x, mid.foldl (fun v i => max v i.2) y)

/-- The new interval takes the place of those it overlaps or touches. -/
def insert (x y : α) (l : List (α × α)) : List (α × α) :=
  l.filter (fun i => i.2 < x) ++
    fused x y (l.filter fun i => x ≤ i.2 ∧ i.1 ≤ y) :: l.filter (fun i => y < i.1)

theorem foldl_min_spec (mid : List (α × α)) : ∀ x : α,
    mid.foldl (fun u i => min u i.1) x ≤ x ∧ (∀ i ∈ mid, mid.foldl (fun u i => min u i.1) x ≤ i.1) ∧
      (mid.foldl (fun u i => min u i.1) x = x ∨ ∃ i ∈ mid, mid.foldl (fun u i => min u i.1) x = i.1) := by
  induction mid with
  | nil => exact fun x => ⟨le_rfl, by simp, .inl rfl⟩
  | cons i mid ih =>
    intro x
    rw [List.foldl_cons]
    obtain ⟨h1, h2, h3⟩ := ih (min x i.1)
    refine ⟨h1.trans (min_le_left ..), fun j hj => ?_, ?_⟩
    · rcases List.mem_cons.mp hj with rfl | hj
      · exact h1.trans (min_le_right ..)
      · exact h2 j hj
    · rcases h3 with h3 | ⟨j, hj, h3⟩
      · rw [h3]
        rcases min_choice x i.1 with hm | hm
        · exact .inl hm
        · exact .inr ⟨i, List.mem_cons_self, hm⟩
      · exact .inr ⟨j, List.mem_cons_of_mem _ hj, h3⟩

theorem foldl_max_spec (mid : List (α × α)) : ∀ y : α,
    y ≤ mid.foldl (fun v i => max v i.2) y ∧ (∀ i ∈ mid, i.2 ≤ mid.foldl (fun v i => max v i.2) y) ∧
      (mid.foldl (fun v i => max v i.2) y = y ∨ ∃ i ∈ mid, mid.foldl (fun v i => max v i.2) y = i.2) := by
  induction mid with
  | nil => exact fun y => ⟨le_rfl, by simp, .inl rfl⟩
  | cons i mid ih =>
    intro y
    rw [List.foldl_cons]
    obtain ⟨h1, h2, h3⟩ := ih (max y i.2)
    refine ⟨(le_max_left ..).trans h1, fun j hj => ?_, ?_⟩
    · rcases List.mem_cons.mp hj with rfl | hj
      · exact (le_max_right ..).trans h1
      · exact h2 j hj
    · rcases h3 with h3 | ⟨j, hj, h3⟩
      · rw [h3]
        rcases max_choice y i.2 with hm | hm
        · exact .inl hm
        · exact .inr ⟨i, List.mem_cons_self, hm⟩
      · exact .inr ⟨j, List.mem_cons_of_mem _ hj, h3⟩

/-- A spaced list falls into the intervals below `[x, y)`, those it meets, and those above. -/
theorem Spaced.split (h : Spaced l) (hxy : x ≤ y) :
    l = l.filter (fun i => i.2 < x) ++ l.filter (fun i => x ≤ i.2 ∧ i.1 ≤ y) ++ l.filter (fun i => y < i.1) := by
  induction l with
  | nil => rfl
  | cons i l ih =>
    have hlt := h.nonempty i List.mem_cons_self
    have hafter := (List.pairwise_cons.mp h.apart).1
    have hrest := ih h.tail
    by_cases hbelow : i.2 < x
    · have h2 : ¬ (x ≤ i.2 ∧ i.1 ≤ y) := fun hc => absurd hc.1 (not_le.mpr hbelow)
      have h3 : ¬ y < i.1 := fun hc => absurd (hc.trans hlt) (not_lt.mpr (hbelow.le.trans hxy))
      simp only [List.filter_cons, hbelow, h2, h3, decide_true, decide_false, if_true,
        Bool.false_eq_true, if_false, List.cons_append]
      exact congrArg (i :: ·) hrest
    · have hx : x ≤ i.2 := not_lt.mp hbelow
      -- nothing behind `i` lies below either
      have hnone : l.filter (fun j => j.2 < x) = [] := by
        refine List.filter_eq_nil_iff.mpr fun j hj => ?_
        have hj' := h.nonempty j (List.mem_cons_of_mem _ hj)
        simpa using hx.trans ((hafter j hj).trans hj').le
      rw [hnone, List.nil_append] at hrest
      by_cases hmeet : i.1 ≤ y
      · have h3 : ¬ y < i.1 := not_lt.mpr hmeet
        simp only [List.filter_cons, hbelow, hx, hmeet, h3, hnone, and_self, decide_true, decide_false,
          if_true, Bool.false_eq_true, if_false, List.nil_append, List.cons_append]
        exact congrArg (i :: ·) hrest
      · have habove : y < i.1 := not_le.mp hmeet
        have hnone' : l.filter (fun j => x ≤ j.2 ∧ j.1 ≤ y) = [] := by
          refine List.filter_eq_nil_iff.mpr fun j hj => ?_
          have := (habove.trans hlt).trans (hafter j hj)
          simp [this]
        rw [hnone', List.nil_append] at hrest
        simp only [List.filter_cons, hbelow, hmeet, habove, hnone, hnone', and_false, decide_true,
          decide_false, if_true, Bool.false_eq_true, if_false, List.nil_append]
        exact congrArg (i :: ·) hrest

/-- The fused interval covers the new one and those it meets, and nothing else. -/
theorem covers_fused (hmid : ∀ i ∈ mid, x ≤ i.2 ∧ i.1 ≤ y) :
    ((fused x y mid).1 ≤ q ∧ q < (fused x y mid).2) ↔ (x ≤ q ∧ q < y) ∨ Covers mid q := by
  obtain ⟨hx, hmin, hleft⟩ := foldl_min_spec mid x
  obtain ⟨hy, hmax, hright⟩ := foldl_max_spec mid y
  constructor
  · rintro ⟨h1, h2⟩
    by_cases hqx : q < x
    · -- left of the new interval: inside the one that reaches furthest left
      rcases hleft with he | ⟨i, hi, he⟩
      · exact absurd (he.symm.trans_le h1) (not_le.mpr hqx)
      · exact .inr ⟨i, hi, he.symm.trans_le h1, hqx.trans_le (hmid i hi).1⟩
    by_cases hqy : q < y
    · exact .inl ⟨not_lt.mp hqx, hqy⟩
    · rcases hright with he | ⟨i, hi, he⟩
      · exact absurd (h2.trans_eq he) hqy
      · exact .inr ⟨i, hi, (hmid i hi).2.trans (not_lt.mp hqy), h2.trans_eq he⟩
  · rintro (⟨h1, h2⟩ | ⟨i, hi, h1, h2⟩)
    · exact ⟨hx.trans h1, h2.trans_le hy⟩
    · exact ⟨(hmin i hi).trans h1, h2.trans_le (hmax i hi)⟩

theorem mem_meets {i : α × α} (h : i ∈ l.filter fun i => x ≤ i.2 ∧ i.1 ≤ y) : x ≤ i.2 ∧ i.1 ≤ y :=
  of_decide_eq_true (List.mem_filter.mp h).2

theorem covers_cons {i : α × α} : Covers (i :: l) q ↔ (i.1 ≤ q ∧ q < i.2) ∨ Covers l q := by
  simp only [Covers, List.mem_cons, or_and_right, exists_or, exists_eq_left]

/-- The points of `[x, y)` join the set. -/
theorem covers_insert (h : Spaced l) (hxy : x ≤ y) :
    Covers (insert x y l) q ↔ Covers l q ∨ (x ≤ q ∧ q < y) := by
  conv_rhs => rw [h.split hxy]
  rw [insert, covers_append, covers_cons, covers_fused fun i hi => mem_meets hi, covers_append,
    covers_append]
  tauto

theorem Spaced.insert (h : Spaced l) (hxy : x < y) : Spaced (insert x y l) := by
  obtain ⟨hx, hmin, hleft⟩ := foldl_min_spec (l.filter fun i => x ≤ i.2 ∧ i.1 ≤ y) x
  obtain ⟨hy, hmax, hright⟩ := foldl_max_spec (l.filter fun i => x ≤ i.2 ∧ i.1 ≤ y) y
  have hsplit := h.apart
  rw [h.split hxy.le, List.pairwise_append, List.pairwise_append] at hsplit
  obtain ⟨⟨hpre, -, hpremid⟩, hpost, hprepost⟩ := hsplit
  refine ⟨fun i hi => ?_, ?_⟩
  · rcases List.mem_append.mp hi with hi | hi
    · exact h.nonempty i (List.mem_filter.mp hi).1
    rcases List.mem_cons.mp hi with rfl | hi
    · exact hx.trans_lt (hxy.trans_le hy)
    · exact h.nonempty i (List.mem_filter.mp hi).1
  · refine List.pairwise_append.mpr ⟨hpre, List.pairwise_cons.mpr ⟨fun j hj => ?_, hpost⟩, fun i hi j hj => ?_⟩
    · rcases hright with he | ⟨i, hi, he⟩
      · exact he.trans_lt (of_decide_eq_true (List.mem_filter.mp hj).2)
      · exact he.trans_lt (hprepost i (List.mem_append_right _ hi) j hj)
    · rcases List.mem_cons.mp hj with rfl | hj
      · rcases hleft with he | ⟨k, hk, he⟩
        · exact (of_decide_eq_true (List.mem_filter.mp hi).2 : i.2 < x).trans_eq he.symm
        · exact (hpremid i hi k hk).trans_eq he.symm
      · exact hprepost i (List.mem_append_left _ hi) j hj

/-- Bounds of the set. -/
def Inside (lo hi : α) (l : List (α × α)) : Prop := ∀ i ∈ l, lo ≤ i.1 ∧ i.2 ≤ hi

theorem Inside.mono {lo hi lo' hi' : α} (h : Inside lo hi l) (h1 : lo' ≤ lo) (h2 : hi ≤ hi') :
    Inside lo' hi' l := fun i hm => ⟨h1.trans (h i hm).1, (h i hm).2.trans h2⟩

theorem Inside.covers {lo hi : α} (h : Inside lo hi l) (hq : Covers l q) : lo ≤ q ∧ q < hi := by
  obtain ⟨i, hm, h1, h2⟩ := hq
  exact ⟨(h i hm).1.trans h1, h2.trans_le (h i hm).2⟩

theorem Inside.fused {lo hi : α} (h : Inside lo hi mid) (hx : lo ≤ x) (hy : y ≤ hi) :
    lo ≤ (fused x y mid).1 ∧ (Intervals.fused x y mid).2 ≤ hi := by
  obtain ⟨-, -, hleft⟩ := foldl_min_spec mid x
  obtain ⟨-, -, hright⟩ := foldl_max_spec mid y
  constructor
  · rcases hleft with he | ⟨i, hi, he⟩
    · exact hx.trans_eq he.symm
    · exact (h i hi).1.trans_eq he.symm
  · rcases hright with he | ⟨i, hi, he⟩
    · exact he.trans_le hy
    · exact he.trans_le (h i hi).2

theorem Inside.insert {lo hi : α} (h : Inside lo hi l) (hx : lo ≤ x) (hy : y ≤ hi) :
    Inside lo hi (insert x y l) := by
  intro i hm
  rcases List.mem_append.mp hm with hm | hm
  · exact h i (List.mem_filter.mp hm).1
  rcases List.mem_cons.mp hm with rfl | hm
  · exact Inside.fused (fun j hj => h j (List.mem_filter.mp hj).1) hx hy
  · exact h i (List.mem_filter.mp hm).1

/-! ## Cutting off -/

/-- What lies below `a` goes. -/
def clip (a : α) (l : List (α × α)) : List (α × α) :=
  (l.filter fun i => a < i.2).map fun i => (max a i.1, i.2)

theorem covers_clip : Covers (clip a l) q ↔ a ≤ q ∧ Covers l q := by
  constructor
  · rintro ⟨j, hj, h1, h2⟩
    obtain ⟨i, hi, rfl⟩ := List.mem_map.mp hj
    exact ⟨(le_max_left ..).trans h1, i, (List.mem_filter.mp hi).1, (le_max_right ..).trans h1, h2⟩
  · rintro ⟨ha, i, hi, h1, h2⟩
    have hkept : i ∈ l.filter fun i => a < i.2 := List.mem_filter.mpr ⟨hi, decide_eq_true (ha.trans_lt h2)⟩
    exact ⟨_, List.mem_map_of_mem hkept, max_le ha h1, h2⟩

theorem Spaced.clip (h : Spaced l) (a : α) : Spaced (clip a l) := by
  refine ⟨fun j hj => ?_, ?_⟩
  · obtain ⟨i, hi, rfl⟩ := List.mem_map.mp hj
    obtain ⟨hi, ha⟩ := List.mem_filter.mp hi
    exact max_lt (of_decide_eq_true ha) (h.nonempty i hi)
  · refine List.pairwise_map.mpr ?_
    exact (h.apart.sublist (List.filter_sublist ..)).imp fun hlt => hlt.trans_le (le_max_right ..)

theorem Inside.clip {lo hi : α} (h : Inside lo hi l) (a : α) : Inside a hi (clip a l) := by
  intro j hj
  obtain ⟨i, hm, rfl⟩ := List.mem_map.mp hj
  exact ⟨le_max_left .., (h i (List.mem_filter.mp hm).1).2⟩

end Intervals
