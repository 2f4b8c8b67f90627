import Mathlib.Algebra.BigOperators.Group.List.Basic
import Mathlib.Tactic

/-
  A station that serves one customer at a time, first come first served.

  `arrival a` is when customer `a` comes, and `leave s a` when the station is free again
  after it has started to serve `a` at `s`. The time that a service takes may depend on
  when it starts.

  1. `schedule_append` — who comes later changes nothing for those before.
  2. `schedule_pairwise` — one customer at a time, in order.
  3. `waiting_le`, `le_present` — the time until the station is free is the work of those
     who wait, give or take the one who is served.
  4. `eq_filter_start` — a station that is only told from time to time to catch up with the
     clock has then served those whose service starts by that time.
-/

namespace Station

variable {α : Type*}

structure Service (α : Type*) where
  customer : α
  start : ℕ
  free : ℕ
  deriving DecidableEq, Repr

variable (arrival : α → ℕ) (leave : ℕ → α → ℕ)

/-- The service of `a` by a station that is free from `free` on. -/
def serve (free : ℕ) (a : α) : Service α := ⟨a, max free (arrival a), leave (max free (arrival a)) a⟩

/-- The services of customers in a row. -/
def schedule : ℕ → List α → List (Service α)
  | _, [] => []
  | free, a :: l => serve arrival leave free a :: schedule (serve arrival leave free a).free l

/-- When the station is free after them. -/
def freeAfter : ℕ → List α → ℕ
  | free, [] => free
  | free, a :: l => freeAfter (serve arrival leave free a).free l

variable {arrival leave} {free now : ℕ} {l : List α}

theorem schedule_append (l m : List α) : schedule arrival leave free (l ++ m) =
    schedule arrival leave free l ++ schedule arrival leave (freeAfter arrival leave free l) m := by
  induction l generalizing free with
  | nil => rfl
  | cons a l ih => exact congrArg (serve arrival leave free a :: ·) ih

theorem freeAfter_append (l m : List α) :
    freeAfter arrival leave free (l ++ m) = freeAfter arrival leave (freeAfter arrival leave free l) m := by
  induction l generalizing free with
  | nil => rfl
  | cons a l ih => exact ih

theorem map_customer_schedule (free : ℕ) (l : List α) : (schedule arrival leave free l).map Service.customer = l := by
  induction l generalizing free with
  | nil => rfl
  | cons a l ih => exact congrArg (a :: ·) (ih _)

theorem length_schedule (free : ℕ) (l : List α) : (schedule arrival leave free l).length = l.length := by
  have hlen : ((schedule arrival leave free l).map Service.customer).length = l.length :=
    congrArg List.length (map_customer_schedule free l)
  rwa [List.length_map] at hlen

/-- The services of the first customers are the first services. -/
theorem take_schedule (l m : List α) :
    (schedule arrival leave free (l ++ m)).take l.length = schedule arrival leave free l := by
  rw [schedule_append, List.take_left' (length_schedule free l)]

/-! ## A service takes time -/

/-- The station does not go back in time. -/
def Forward (leave : ℕ → α → ℕ) : Prop := ∀ s a, s ≤ leave s a

variable (hleave : Forward leave)

include hleave

theorem le_freeAfter (free : ℕ) (l : List α) : free ≤ freeAfter arrival leave free l := by
  induction l generalizing free with
  | nil => exact le_rfl
  | cons a l ih =>
    calc free ≤ max free (arrival a) := le_max_left _ _
      _ ≤ (serve arrival leave free a).free := hleave _ _
      _ ≤ freeAfter arrival leave free (a :: l) := ih _

/-- Every service starts when both are there, and ends before the station is free. -/
theorem mem_schedule {s : Service α} (hs : s ∈ schedule arrival leave free l) :
    free ≤ s.start ∧ arrival s.customer ≤ s.start ∧ s.free = leave s.start s.customer ∧
      s.free ≤ freeAfter arrival leave free l := by
  induction l generalizing free with
  | nil => cases hs
  | cons a l ih =>
    rcases List.mem_cons.mp hs with rfl | hs
    · exact ⟨le_max_left _ _, le_max_right _ _, rfl, le_freeAfter hleave _ l⟩
    · obtain ⟨hstart, hrest⟩ := ih hs
      refine ⟨?_, hrest⟩
      calc free ≤ max free (arrival a) := le_max_left _ _
        _ ≤ (serve arrival leave free a).free := hleave _ _
        _ ≤ s.start := hstart

/-- One customer after the other. -/
theorem schedule_pairwise (free : ℕ) (l : List α) :
    (schedule arrival leave free l).Pairwise fun s t => s.free ≤ t.start := by
  induction l generalizing free with
  | nil => exact .nil
  | cons a l ih =>
    refine List.pairwise_cons.mpr ⟨fun t ht => ?_, ih _⟩
    exact (mem_schedule hleave ht).1

/-! ## The work ahead -/

/-- The time that the services in `l` take. -/
def work (l : List (Service α)) : ℕ := (l.map fun s => s.free - s.start).sum

omit hleave in
theorem work_cons (s : Service α) (l : List (Service α)) : work (s :: l) = s.free - s.start + work l := rfl

omit hleave in
theorem work_filter_cons (p : Service α → Prop) [DecidablePred p] (s : Service α) (l : List (Service α)) :
    work ((s :: l).filter fun t => decide (p t)) =
      (if p s then s.free - s.start else 0) + work (l.filter fun t => decide (p t)) := by
  by_cases hs : p s
  · rw [List.filter_cons_of_pos (by exact decide_eq_true hs), if_pos hs]
    rfl
  · rw [List.filter_cons_of_neg (by simpa using hs), if_neg hs, Nat.zero_add]

/-- The work of those who still wait at `now` fits between `now` and the time the station is
free: from then on it does not rest. -/
theorem waiting_le (free : ℕ) (hl : ∀ a ∈ l, arrival a ≤ now) :
    work ((schedule arrival leave free l).filter fun s => decide (now < s.start)) + max free now ≤
      max (freeAfter arrival leave free l) now := by
  induction l generalizing free with
  | nil => exact (Nat.zero_add _).le
  | cons a l ih =>
    obtain ⟨ha, hl⟩ := List.forall_mem_cons.mp hl
    have hrest := ih (serve arrival leave free a).free hl
    have hforward : (serve arrival leave free a).start ≤ (serve arrival leave free a).free := hleave _ _
    have hstart : (serve arrival leave free a).start = max free (arrival a) := rfl
    show work ((serve arrival leave free a :: schedule arrival leave _ l).filter _) + _ ≤
      max (freeAfter arrival leave (serve arrival leave free a).free l) now
    rw [work_filter_cons]
    split <;> omega

/-- The station is free when the work of those who are there at `now` is done, or before. -/
theorem le_present (free : ℕ) (hl : ∀ a ∈ l, arrival a ≤ now) :
    max (freeAfter arrival leave free l) now ≤
      max free now + work ((schedule arrival leave free l).filter fun s => decide (now < s.free)) := by
  induction l generalizing free with
  | nil => exact (Nat.add_zero _).ge
  | cons a l ih =>
    obtain ⟨ha, hl⟩ := List.forall_mem_cons.mp hl
    have hrest := ih (serve arrival leave free a).free hl
    have hforward : (serve arrival leave free a).start ≤ (serve arrival leave free a).free := hleave _ _
    have hstart : (serve arrival leave free a).start = max free (arrival a) := rfl
    show max (freeAfter arrival leave (serve arrival leave free a).free l) now ≤
      _ + work ((serve arrival leave free a :: schedule arrival leave _ l).filter _)
    rw [work_filter_cons]
    split <;> omega

/-- The services that are over by `now` have taken no more time than there was. -/
theorem done_le (free now : ℕ) (l : List α) :
    free + work ((schedule arrival leave free l).filter fun s => decide (s.free ≤ now)) ≤ max free now := by
  induction l generalizing free with
  | nil => exact le_max_left _ _
  | cons a l ih =>
    have hrest := ih (serve arrival leave free a).free
    have hforward : (serve arrival leave free a).start ≤ (serve arrival leave free a).free := hleave _ _
    have hstart : free ≤ (serve arrival leave free a).start := le_max_left _ _
    show free + work ((serve arrival leave free a :: schedule arrival leave _ l).filter _) ≤ _
    rw [work_filter_cons]
    split
    · omega
    · -- who comes after is not served before
      have hnone : (schedule arrival leave (serve arrival leave free a).free l).filter (fun s => decide (s.free ≤ now)) = [] := by
        rw [List.filter_eq_nil_iff]
        intro s hs
        obtain ⟨hlate, -, hfree, -⟩ := mem_schedule hleave hs
        have hlast := hleave s.start s.customer
        rw [decide_eq_true_iff]
        omega
      rw [hnone, Nat.zero_add]
      exact le_max_left _ _

/-! ## A station that catches up -/

/-- What is served if the station, at `now`, serves for as long as it is free by then. -/
theorem eq_filter_start {l m : List α} (hl : ∀ s ∈ schedule arrival leave free l, s.start ≤ now)
    (hm : now < freeAfter arrival leave free l ∨ m = []) :
    schedule arrival leave free l = (schedule arrival leave free (l ++ m)).filter fun s => decide (s.start ≤ now) := by
  have hlate : ∀ s ∈ schedule arrival leave (freeAfter arrival leave free l) m, ¬ s.start ≤ now := by
    intro s hs
    rcases hm with hbusy | rfl
    · exact not_le.mpr (hbusy.trans_le (mem_schedule hleave hs).1)
    · cases hs
  rw [schedule_append, List.filter_append, List.filter_eq_self.mpr fun s hs => decide_eq_true (hl s hs),
    List.filter_eq_nil_iff.mpr fun s hs => by simpa using hlate s hs, List.append_nil]

end Station
