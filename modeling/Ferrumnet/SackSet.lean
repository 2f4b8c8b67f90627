import Ferrumnet.Lib.Intervals
import Ferrumnet.Sack

/-
  What the run lists of the scoreboard stand for: sets of stream positions.

  `Charts b lo hi runs l` says that `runs` are the intervals of `l`, counted from
  the sequence number `b`, in order, apart, and between `lo` and `hi`. It is the
  source's `run_list_well_formed`, and it tells what the runs cover.

  1. `Charts.insertRun`, `Charts.trimRuns`, `Charts.update` — every operation on the
     lists is one on the sets.
  2. `Charts.contains` — a membership query is one about the set.
-/

namespace Ferrumnet

namespace Scoreboard

open Intervals

variable {b : SeqNumber} {lo hi x y u v a q : Nat} {runs : List Run} {l pre mid post : List (Nat × Nat)}

/-- The run of an interval of positions. -/
def place (b : SeqNumber) (i : Nat × Nat) : Run := (b + i.1, b + i.2)

structure Charts (b : SeqNumber) (lo hi : Nat) (runs : List Run) (l : List (Nat × Nat)) : Prop where
  runs : runs = l.map (place b)
  spaced : Spaced l
  inside : Inside lo hi l
  near : hi < lo + 2147483648

theorem charts_nil (near : hi < lo + 2147483648) : Charts b lo hi [] [] :=
  ⟨rfl, spaced_nil, fun _ h => by simp at h, near⟩

/-- Room above is no part of the set. -/
theorem Charts.grow {hi' : Nat} (h : Charts b lo hi runs l) (hle : hi ≤ hi')
    (near : hi' < lo + 2147483648) : Charts b lo hi' runs l :=
  ⟨h.runs, h.spaced, h.inside.mono le_rfl hle, near⟩

theorem Charts.take (h : Charts b lo hi runs l) (n : Nat) : Charts b lo hi (runs.take n) (l.take n) :=
  ⟨by rw [h.runs, List.map_take], h.spaced.sublist (List.take_sublist ..),
    fun i hi => h.inside i (List.mem_of_mem_take hi), h.near⟩

/-! ## Insertion -/

/-- Every interval of the list lies where comparisons read as those of positions. -/
theorem Charts.bounds (h : Charts b lo hi runs l) {i : Nat × Nat} (hm : i ∈ l) :
    lo ≤ i.1 ∧ i.1 < i.2 ∧ i.2 ≤ hi := ⟨(h.inside i hm).1, h.spaced.nonempty i hm, (h.inside i hm).2⟩

/-- One iteration of the scan, on positions. -/
theorem mergeStep_place {i : Nat × Nat} {first count k : Nat} (near : hi < lo + 2147483648)
    (hu : lo ≤ u ∧ u ≤ hi) (hv : lo ≤ v ∧ v ≤ hi) (hi' : lo ≤ i.1 ∧ i.1 < i.2 ∧ i.2 ≤ hi) :
    mergeStep ⟨b + u, b + v, first, count⟩ (place b i, k) =
      if i.1 ≤ v ∧ u ≤ i.2 then
        ⟨b + min u i.1, b + max v i.2, if count = 0 then k else first, count + 1⟩
      else ⟨b + u, b + v, first, count⟩ := by
  obtain ⟨h1, h2, h3⟩ := hi'
  have hle : (b + i.1).le (b + v) = decide (i.1 ≤ v) := SeqNumber.pos_le b (by omega) (by omega)
  have hge : (b + u).le (b + i.2) = decide (u ≤ i.2) := SeqNumber.pos_le b (by omega) (by omega)
  have hlt : (b + i.1).lt (b + u) = decide (i.1 < u) := SeqNumber.pos_lt b (by omega) (by omega)
  have hgt : (b + i.2).gt (b + v) = decide (v < i.2) := SeqNumber.pos_gt b (by omega) (by omega)
  simp only [mergeStep, place, hle, hge, hlt, hgt]
  have hmin : (if decide (i.1 < u) = true then b + i.1 else b + u) = b + min u i.1 := by
    by_cases h : i.1 < u
    · simp [h, Nat.min_eq_right h.le]
    · simp [h, Nat.min_eq_left (Nat.le_of_not_lt h)]
  have hmax : (if decide (v < i.2) = true then b + i.2 else b + v) = b + max v i.2 := by
    by_cases h : v < i.2
    · simp [h, Nat.max_eq_right h.le]
    · simp [h, Nat.max_eq_left (Nat.le_of_not_lt h)]
  rw [hmin, hmax]
  by_cases hm : i.1 ≤ v ∧ u ≤ i.2
  · rw [if_pos hm, if_pos (by simpa using hm)]
  · rw [if_neg hm, if_neg (by simpa using hm)]

/-- Intervals that the merged one does not meet leave the scan alone. -/
theorem scan_skip {first count : Nat} (near : hi < lo + 2147483648) (hu : lo ≤ u ∧ u ≤ hi)
    (hv : lo ≤ v ∧ v ≤ hi) : ∀ (l : List (Nat × Nat)) (k : Nat),
      (∀ i ∈ l, (lo ≤ i.1 ∧ i.1 < i.2 ∧ i.2 ≤ hi) ∧ ¬ (i.1 ≤ v ∧ u ≤ i.2)) →
      ((l.map (place b)).zipIdx k).foldl mergeStep ⟨b + u, b + v, first, count⟩ =
        ⟨b + u, b + v, first, count⟩ := by
  intro l
  induction l with
  | nil => exact fun _ _ => rfl
  | cons i l ih =>
    intro k h
    obtain ⟨h1, h2⟩ := h i List.mem_cons_self
    rw [List.map_cons, List.zipIdx_cons, List.foldl_cons, mergeStep_place near hu hv h1, if_neg h2]
    exact ih (k + 1) fun j hj => h j (List.mem_cons_of_mem _ hj)

/-- The intervals that meet the new one are all swallowed. -/
theorem scan_block (near : hi < lo + 2147483648) : ∀ (l : List (Nat × Nat)) (u v first count k : Nat),
    lo ≤ u ∧ u ≤ hi → lo ≤ v ∧ v ≤ hi →
      (∀ i ∈ l, (lo ≤ i.1 ∧ i.1 < i.2 ∧ i.2 ≤ hi) ∧ i.1 ≤ v ∧ u ≤ i.2) →
      ((l.map (place b)).zipIdx k).foldl mergeStep ⟨b + u, b + v, first, count⟩ =
        ⟨b + (fused u v l).1, b + (fused u v l).2, if count = 0 ∧ l ≠ [] then k else first,
          count + l.length⟩ := by
  intro l
  induction l with
  | nil => intro u v first count k _ _ _; simp [fused]
  | cons i l ih =>
    intro u v first count k hu hv h
    obtain ⟨h1, h2⟩ := h i List.mem_cons_self
    rw [List.map_cons, List.zipIdx_cons, List.foldl_cons, mergeStep_place near hu hv h1, if_pos h2]
    rw [ih (min u i.1) (max v i.2) _ (count + 1) (k + 1) (by omega) (by omega) fun j hj => ?_]
    · have hlen : count + 1 + l.length = count + (i :: l).length := by
        rw [List.length_cons]
        omega
      rw [hlen, if_neg (by omega : ¬ (count + 1 = 0 ∧ l ≠ []))]
      by_cases h0 : count = 0
      · rw [if_pos h0, if_pos ⟨h0, List.cons_ne_nil i l⟩]
        rfl
      · rw [if_neg h0, if_neg (fun hc => h0 hc.1)]
        rfl
    · obtain ⟨h3, h4⟩ := h j (List.mem_cons_of_mem _ hj)
      exact ⟨h3, by omega⟩

/-- `insert_run` is insertion into the set. -/
theorem Charts.insertRun (h : Charts b lo hi runs l) (hx : lo ≤ x) (hxy : x < y) (hy : y ≤ hi) :
    Charts b lo hi (insertRun runs (b + x) (b + y)) (insert x y l) := by
  refine ⟨?_, h.spaced.insert hxy, h.inside.insert hx hy, h.near⟩
  have hnear := h.near
  have hapart := h.spaced.apart
  have hsplit := h.spaced.split hxy.le
  have hpre : ∀ i ∈ l.filter (fun i => i.2 < x), i.2 < x :=
    fun i hi => of_decide_eq_true (List.mem_filter.mp hi).2
  have hmid : ∀ i ∈ l.filter (fun i => x ≤ i.2 ∧ i.1 ≤ y), x ≤ i.2 ∧ i.1 ≤ y := fun i hi => mem_meets hi
  have hpost : ∀ i ∈ l.filter (fun i => y < i.1), y < i.1 :=
    fun i hi => of_decide_eq_true (List.mem_filter.mp hi).2
  have hin : ∀ i ∈ l, lo ≤ i.1 ∧ i.1 < i.2 ∧ i.2 ≤ hi := fun i hi => h.bounds hi
  rw [h.runs, Intervals.insert]
  generalize l.filter (fun i => i.2 < x) = pre at hsplit hpre
  generalize l.filter (fun i => x ≤ i.2 ∧ i.1 ≤ y) = mid at hsplit hmid
  generalize l.filter (fun i => y < i.1) = post at hsplit hpost
  subst hsplit
  rw [List.pairwise_append, List.pairwise_append] at hapart
  obtain ⟨⟨-, -, hpremid⟩, -, hprepost⟩ := hapart
  have hinpre : ∀ i ∈ pre, lo ≤ i.1 ∧ i.1 < i.2 ∧ i.2 ≤ hi := fun i hi => hin i (by simp [hi])
  have hinmid : ∀ i ∈ mid, lo ≤ i.1 ∧ i.1 < i.2 ∧ i.2 ≤ hi := fun i hi => hin i (by simp [hi])
  have hinpost : ∀ i ∈ post, lo ≤ i.1 ∧ i.1 < i.2 ∧ i.2 ≤ hi := fun i hi => hin i (by simp [hi])
  -- the fused interval, and where it lies
  obtain ⟨hleft, -, hleft'⟩ := foldl_min_spec mid x
  obtain ⟨hright, -, hright'⟩ := foldl_max_spec mid y
  obtain ⟨hf1, hf2⟩ := Inside.fused (fun i (hi : i ∈ mid) => ⟨(hinmid i hi).1, (hinmid i hi).2.2⟩) hx hy
  change (fused x y mid).1 ≤ x at hleft
  change y ≤ (fused x y mid).2 at hright
  have habove : ∀ i ∈ post, (fused x y mid).2 < i.1 := by
    intro i hi
    rcases hright' with he | ⟨j, hj, he⟩
    · exact he.trans_lt (hpost i hi)
    · exact he.trans_lt (hprepost j (List.mem_append_right _ hj) i hi)
  have hbelow : ∀ i ∈ pre, i.2 < (fused x y mid).1 := by
    intro i hi
    rcases hleft' with he | ⟨j, hj, he⟩
    · exact (hpre i hi).trans_eq he.symm
    · exact (hpremid i hi j hj).trans_eq he.symm
  -- the scan
  have hscan : ((pre ++ mid ++ post).map (place b)).zipIdx.foldl mergeStep
      ⟨b + x, b + y, ((pre ++ mid ++ post).map (place b)).length, 0⟩ =
        ⟨b + (fused x y mid).1, b + (fused x y mid).2,
          if mid = [] then ((pre ++ mid ++ post).map (place b)).length else pre.length, mid.length⟩ := by
    rw [List.map_append, List.map_append, List.zipIdx_append, List.zipIdx_append, List.foldl_append,
      List.foldl_append,
      scan_skip hnear (by omega) (by omega) pre _ fun i hi => ⟨hinpre i hi, by have := hpre i hi; omega⟩,
      scan_block hnear mid x y _ 0 _ (by omega) (by omega) fun i hi =>
        ⟨hinmid i hi, by have := hmid i hi; omega⟩,
      scan_skip hnear (by omega) (by omega) post _ fun i hi =>
        ⟨hinpost i hi, by have := habove i hi; omega⟩]
    by_cases hm : mid = []
    · simp [hm]
    · simp [hm]
  -- what is left of the list, and where the fused run goes
  obtain ⟨-, hrest⟩ := block_rest (pre.map (place b)) (mid.map (place b)) (post.map (place b))
    (if mid = [] then ((pre ++ mid ++ post).map (place b)).length else pre.length) mid.length
    (by simp) (by simp)
  have hpos := findIdx_boundary (f := fun run : Run => (b + (fused x y mid).1).lt run.1)
    (fun run (hr : run ∈ pre.map (place b)) => by
      obtain ⟨i, hi, rfl⟩ := List.mem_map.mp hr
      have h1 := hbelow i hi
      have h2 := hinpre i hi
      change (b + (fused x y mid).1).lt (b + i.1) = false
      rw [SeqNumber.pos_lt b (by omega) (by omega), decide_eq_false_iff_not]
      omega)
    (fun run (hr : run ∈ post.map (place b)) => by
      obtain ⟨i, hi, rfl⟩ := List.mem_map.mp hr
      have h1 := hpost i hi
      have h2 := hinpost i hi
      change (b + (fused x y mid).1).lt (b + i.1) = true
      rw [SeqNumber.pos_lt b (by omega) (by omega), decide_eq_true_iff]
      omega)
  have hmap : (pre ++ mid ++ post).map (place b) =
      pre.map (place b) ++ mid.map (place b) ++ post.map (place b) := by simp
  simp only [Scoreboard.insertRun, hscan]
  rw [hmap] at hrest ⊢
  rw [← hmap, hmap, hrest, hpos, List.take_left' rfl, List.drop_left' rfl]
  simp [place]

/-! ## Trimming -/

/-- `trim_runs` cuts the set off. -/
theorem Charts.trimRuns (h : Charts b lo hi runs l) (ha : lo ≤ a) (ha' : a ≤ hi) :
    Charts b a hi (trimRuns runs (b + a)) (clip a l) := by
  have hnear := h.near
  refine ⟨?_, h.spaced.clip a, h.inside.clip a, by omega⟩
  rw [Scoreboard.trimRuns, h.runs, clip, List.filter_map, List.map_map, List.map_map]
  have hfilter : l.filter ((fun run : Run => run.2.gt (b + a)) ∘ place b) = l.filter fun i => a < i.2 := by
    refine List.filter_congr fun i hi => ?_
    have := h.bounds hi
    change (b + i.2).gt (b + a) = _
    rw [SeqNumber.pos_gt b (by omega) (by omega)]
  rw [hfilter]
  refine List.map_congr_left fun i hi => ?_
  have := h.bounds (List.mem_filter.mp hi).1
  change (if (b + i.1).lt (b + a) = true then (b + a, b + i.2) else (b + i.1, b + i.2)) = (b + max a i.1, b + i.2)
  rw [SeqNumber.pos_lt b (by omega) (by omega)]
  by_cases hlt : i.1 < a
  · rw [if_pos (decide_eq_true hlt), Nat.max_eq_left hlt.le]
  · rw [if_neg (by simpa using hlt), Nat.max_eq_right (Nat.le_of_not_lt hlt)]

/-! ## Membership -/

theorem Charts.contains (h : Charts b lo hi runs l) (hq : lo ≤ q) (hq' : q ≤ hi) :
    contains runs (b + q) = decide (Covers l q) := by
  have hnear := h.near
  rw [Bool.eq_iff_iff, decide_eq_true_iff, Scoreboard.contains, List.any_eq_true, h.runs]
  constructor
  · rintro ⟨run, hr, hc⟩
    obtain ⟨i, hi, rfl⟩ := List.mem_map.mp hr
    have := h.bounds hi
    change ((b + q).ge (b + i.1) && (b + q).lt (b + i.2)) = true at hc
    rw [SeqNumber.pos_ge b (by omega) (by omega), SeqNumber.pos_lt b (by omega) (by omega),
      Bool.and_eq_true, decide_eq_true_iff, decide_eq_true_iff] at hc
    exact ⟨i, hi, hc⟩
  · rintro ⟨i, hi, h1, h2⟩
    have := h.bounds hi
    refine ⟨place b i, List.mem_map_of_mem hi, ?_⟩
    change ((b + q).ge (b + i.1) && (b + q).lt (b + i.2)) = true
    rw [SeqNumber.pos_ge b (by omega) (by omega), SeqNumber.pos_lt b (by omega) (by omega)]
    simp [h1, h2]

/-! ## SACK blocks -/

/-- A block of a SACK option: ignored, or an interval of what is outstanding. -/
theorem updateBlock_cases (hle : lo ≤ hi) (near : hi < lo + 2147483648) (runs : List Run) (block : Run) :
    updateBlock (b + lo) (b + hi) runs block = runs ∨
      ∃ x y, lo ≤ x ∧ x < y ∧ y ≤ hi ∧
        updateBlock (b + lo) (b + hi) runs block = Scoreboard.insertRun runs (b + x) (b + y) := by
  obtain ⟨p, r⟩ := block
  -- an edge above `SND.UNA` and not above `SND.NXT` is a position between them
  have hedge : ∀ e : SeqNumber, e.lt (b + lo) = false → e.gt (b + hi) = false →
      ∃ x, lo ≤ x ∧ x ≤ hi ∧ e = b + x := by
    intro e h1 h2
    have h1' := mt (SeqNumber.lt_iff e (b + lo)).mpr (by simp [h1])
    have h2' := mt (SeqNumber.gt_iff e (b + hi)).mpr (by simp [h2])
    have hw := SeqNumber.offsetFrom_pos_le b hle (by omega)
    have ht := SeqNumber.offsetFrom_trans e (b + hi) (b + lo)
    have := SeqNumber.offsetFrom_lt e (b + hi)
    refine ⟨lo + e.offsetFrom (b + lo), by omega, by omega, ?_⟩
    rw [← SeqNumber.add_add, SeqNumber.add_offsetFrom]
  simp only [Scoreboard.updateBlock]
  split
  · exact .inl rfl
  split
  · exact .inl rfl
  rename_i hr
  split
  · exact .inl rfl
  rename_i hnxt
  rw [Bool.or_eq_true, not_or, Bool.not_eq_true, Bool.not_eq_true] at hnxt
  have hr' : r.lt (b + lo) = false := by
    have hgt : r.gt (b + lo) = true := by
      rw [SeqNumber.le_eq, Bool.not_eq_true'] at hr
      exact Bool.not_eq_false _ ▸ hr
    have h1 := (SeqNumber.gt_iff _ _).mp hgt
    exact Bool.eq_false_iff.mpr fun hlt => by
      have h2 := (SeqNumber.lt_iff _ _).mp hlt
      omega
  obtain ⟨y, hy, hy', rfl⟩ := hedge r hr' hnxt.2
  have hx : ∃ x, lo ≤ x ∧ x ≤ hi ∧ (if p.lt (b + lo) = true then b + lo else p) = b + x := by
    by_cases hp : p.lt (b + lo) = true
    · exact ⟨lo, le_rfl, hle, by rw [if_pos hp]⟩
    · obtain ⟨x, h1, h2, rfl⟩ := hedge p (Bool.eq_false_iff.mpr hp) hnxt.1
      exact ⟨x, h1, h2, by rw [if_neg hp]⟩
  obtain ⟨x, h1, h2, hx⟩ := hx
  rw [hx]
  split
  · rename_i hlt
    rw [SeqNumber.pos_lt b (by omega) (by omega), decide_eq_true_iff] at hlt
    exact .inr ⟨x, y, h1, hlt, hy', rfl⟩
  · exact .inl rfl

/-- The blocks of one ACK only add to the set, up to the cap on the runs. -/
theorem Charts.update {s : Scoreboard} (h : Charts b lo hi s.sacked l) (hle : lo ≤ hi)
    (blocks : List Run) : ∃ l', Charts b lo hi (s.update (b + lo) (b + hi) blocks).sacked l' := by
  have hfold : ∀ (blocks runs : List Run) (l : List (Nat × Nat)), Charts b lo hi runs l →
      ∃ l', Charts b lo hi (blocks.foldl (Scoreboard.updateBlock (b + lo) (b + hi)) runs) l' := by
    intro blocks
    induction blocks with
    | nil => exact fun _ l h => ⟨l, h⟩
    | cons block blocks ih =>
      intro runs l h
      rw [List.foldl_cons]
      rcases updateBlock_cases hle h.near runs block with he | ⟨x, y, h1, h2, h3, he⟩
      · rw [he]
        exact ih runs l h
      · rw [he]
        exact ih _ _ (h.insertRun h1 h2 h3)
  obtain ⟨l', h'⟩ := hfold blocks s.sacked l h
  exact ⟨_, h'.take maxRuns⟩

end Scoreboard

end Ferrumnet
