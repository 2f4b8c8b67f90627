import Ferrumnet.ReasmMap

/-
  What the SACK option reports of the reassembly buffer.

  1. `Holds.runs_apart` — no octet is in two runs.
  2. `Logged` — a list of the ends of the runs that insertions have left, newest
     first, accounts for the stamps; `Logged.first` — the first block reported is
     the run that the newest entry with a run still held belongs to.
-/

namespace Ferrumnet

namespace Reasm

/-- The octet `q` is in the run. -/
def Segment.has (run : Segment) (q : SeqNumber) : Bool := q.offsetFrom run.start < run.data.len

/-- The octet `q` is in one of the runs. -/
def holds (r : Reasm) (q : SeqNumber) : Bool := r.runs.any (·.has q)

variable {b : SeqNumber} {r r' : Reasm} {lo hi : Nat} {ps : List Span}

theorem Lays.has_iff {run : Segment} {s : Span} (h : Lays b run s) (hl : s.data.len < 4294967296)
    {q : SeqNumber} : run.has q = true ↔ ∃ n, q = b + n ∧ s.covers n := by
  have hs : s.stop = s.pos + s.data.len := rfl
  rw [Segment.has, decide_eq_true_eq, h.1, h.2]
  constructor
  · intro hq
    refine ⟨s.pos + q.offsetFrom (b + s.pos), ?_, Nat.le_add_right _ _, by omega⟩
    rw [← SeqNumber.add_add]
    exact (SeqNumber.add_offsetFrom _ _).symm
  · rintro ⟨n, rfl, h1, h2⟩
    rw [SeqNumber.offsetFrom_pos_le b h1 (by omega)]
    omega

/-- By position, as long as serial comparisons are exact. -/
theorem Holds.holds_iff (h : Holds b r lo hi ps) {q : Nat} (hlo : hi ≤ q + 2147483648)
    (hhi : q ≤ lo + 2147483648) (hb : hi ≤ lo + 2147483648) :
    r.holds (b + q) = true ↔ ∃ s ∈ ps, s.covers q := by
  have hrun : ∀ {run : Segment} {s : Span}, Lays b run s → s ∈ ps →
      (run.has (b + q) = true ↔ s.covers q) := by
    intro run s hl hs
    have h1 := h.spaced.above s hs
    have h2 := h.below s hs
    have h3 : s.stop = s.pos + s.data.len := rfl
    rw [Segment.has, decide_eq_true_eq, hl.1, hl.2, SeqNumber.offsetFrom_pos, Span.covers]
    omega
  simp only [holds, List.any_eq_true]
  constructor
  · rintro ⟨run, hmem, hc⟩
    obtain ⟨s, hs, hl⟩ := forall₂_mem_left h.lays hmem
    exact ⟨s, hs, (hrun hl hs).mp hc⟩
  · rintro ⟨s, hs, hc⟩
    obtain ⟨run, hmem, hl⟩ := forall₂_mem_left h.lays.flip hs
    exact ⟨run, hmem, (hrun hl hs).mpr hc⟩

/-- What holds of spans in order holds of the runs that lie on them. -/
theorem forall₂_pairwise {P : Span → Span → Prop} {R : Segment → Segment → Prop}
    {runs : List Segment} (h : List.Forall₂ (Lays b) runs ps) (hp : ps.Pairwise P)
    (hR : ∀ x s y t, Lays b x s → Lays b y t → s ∈ ps → t ∈ ps → P s t → R x y) :
    runs.Pairwise R := by
  induction h with
  | nil => exact .nil
  | @cons x s runs ps hl hrest ih =>
    obtain ⟨h1, h2⟩ := List.pairwise_cons.mp hp
    refine List.pairwise_cons.mpr ⟨fun y hy => ?_, ih h2 fun x s y t h3 h4 h5 h6 =>
      hR x s y t h3 h4 (by simp [h5]) (by simp [h6])⟩
    obtain ⟨t, ht, hlt⟩ := forall₂_mem_left hrest hy
    exact hR x s y t hl hlt (by simp) (by simp [ht]) (h1 t ht)

/-- Two runs share no octet, and do not end together. -/
theorem Holds.runs_apart (h : Holds b r lo hi ps) (hb : hi < lo + 2147483648) :
    r.runs.Pairwise fun x y => (∀ q, x.has q = true → y.has q = false) ∧ x.stop ≠ y.stop := by
  refine forall₂_pairwise h.lays h.spaced.apart fun x s y t hx hy hs ht hst => ?_
  have h1 := h.spaced.above s hs
  have h2 := h.below t ht
  have h3 := h.below s hs
  have h4 := h.spaced.above t ht
  have h5 := h.spaced.nonempty t ht
  have h6 : s.stop = s.pos + s.data.len := rfl
  have h7 : t.stop = t.pos + t.data.len := rfl
  refine ⟨fun q hq => ?_, fun he => ?_⟩
  · rw [Bool.eq_false_iff]
    intro hq'
    obtain ⟨n, hn, hc⟩ := (hx.has_iff (by omega)).mp hq
    obtain ⟨m, hm, hc'⟩ := (hy.has_iff (by omega)).mp hq'
    have hc1 := hc.1
    have hc2 := hc.2
    have hc3 := hc'.1
    have hc4 := hc'.2
    rw [hn, SeqNumber.pos_eq b (by omega) (by omega)] at hm
    omega
  · rw [hx.stop, hy.stop, SeqNumber.pos_eq b (by omega) (by omega)] at he
    omega

/-! ## The order of the stamps -/

/-- The runs of `r'` are runs of `r`, cut off below or not. -/
structure Subsumes (r r' : Reasm) : Prop where
  stamp : r'.nextStamp = r.nextStamp
  runs : ∀ run' ∈ r'.runs, ∃ run ∈ r.runs, run.stop = run'.stop ∧ run.stamp = run'.stamp

theorem Subsumes.refl (r : Reasm) : Subsumes r r := ⟨rfl, fun run h => ⟨run, h, rfl, rfl⟩⟩

theorem Subsumes.trans {r'' : Reasm} (h : Subsumes r r') (h' : Subsumes r' r'') :
    Subsumes r r'' := by
  refine ⟨h'.stamp.trans h.stamp, fun run'' hr => ?_⟩
  obtain ⟨run', h1, h2, h3⟩ := h'.runs run'' hr
  obtain ⟨run, h4, h5, h6⟩ := h.runs run' h1
  exact ⟨run, h4, h5.trans h2, h6.trans h3⟩

theorem popContiguous_subsumes (r : Reasm) (nxt : SeqNumber) :
    Subsumes r (r.popContiguous nxt).1 := by
  obtain ⟨runs, bytes, stamp⟩ := r
  cases runs with
  | nil => exact .refl _
  | cons first rest =>
    simp only [popContiguous]
    split
    · exact ⟨rfl, fun run h => ⟨run, List.mem_cons_of_mem _ h, rfl, rfl⟩⟩
    · exact .refl _

/-- Cutting a run off below leaves its end where it is. -/
theorem clip_stop_eq {run : Segment} {nxt : SeqNumber} (h1 : run.stop.le nxt = false)
    (h2 : run.start.lt nxt = true) :
    nxt + (run.data.drop (nxt.offsetFrom run.start)).len = run.stop := by
  have hn := SeqNumber.add_offsetFrom nxt run.start
  have hle : nxt.offsetFrom run.start ≤ run.data.len := by
    rcases Nat.lt_or_ge run.data.len 4294967296 with hlen | hlen
    · have hgt := h1
      rw [SeqNumber.le_eq, Bool.not_eq_false', SeqNumber.gt_iff, Segment.stop] at hgt
      have hlt := (SeqNumber.lt_iff _ _).mp h2
      have hs := SeqNumber.offsetFrom_trans (run.start + run.data.len) run.start nxt
      have hd := SeqNumber.offsetFrom_trans run.start nxt run.start
      rw [SeqNumber.offsetFrom_self] at hd
      rw [SeqNumber.offsetFrom_add, Nat.mod_eq_of_lt hlen] at hs
      have h3 := SeqNumber.offsetFrom_lt run.start nxt
      have h4 := SeqNumber.offsetFrom_lt nxt run.start
      omega
    · exact (Nat.le_of_lt (SeqNumber.offsetFrom_lt _ _)).trans hlen
  generalize nxt.offsetFrom run.start = n at hn hle ⊢
  rw [Bytes.drop_len, ← hn, SeqNumber.add_add, Segment.stop, Nat.add_sub_cancel' hle]

theorem discardLoop_subsumes (nxt : SeqNumber) : ∀ (runs : List Segment) (bytes : Nat),
    ∀ run' ∈ (discardLoop nxt runs bytes).1,
      ∃ run ∈ runs, run.stop = run'.stop ∧ run.stamp = run'.stamp := by
  intro runs
  induction runs with
  | nil => intro bytes run' h; cases h
  | cons first rest ih =>
    intro bytes run' h
    simp only [discardLoop] at h
    split at h
    · obtain ⟨run, h1, h2⟩ := ih _ run' h
      exact ⟨run, List.mem_cons_of_mem _ h1, h2⟩
    · rename_i hle
      split at h
      · rename_i hlt
        rcases List.mem_cons.mp h with rfl | h
        · exact ⟨first, by simp, (clip_stop_eq (Bool.eq_false_iff.mpr hle) hlt).symm, rfl⟩
        · exact ⟨run', List.mem_cons_of_mem _ h, rfl, rfl⟩
      · exact ⟨run', h, rfl, rfl⟩

theorem discardBelow_subsumes (r : Reasm) (nxt : SeqNumber) : Subsumes r (r.discardBelow nxt) :=
  ⟨rfl, discardLoop_subsumes nxt r.runs r.bytes⟩

/-- The ends of the runs that insertions have left, newest first: the stamps are
in the same order, and every run held has its last entry here. -/
def Logged (r : Reasm) (touched : List SeqNumber) : Prop :=
  ∃ es : List (SeqNumber × Nat), touched = es.map Prod.fst ∧ es.Pairwise (fun x y => y.2 < x.2) ∧
    (∀ e ∈ es, e.2 ≤ r.nextStamp) ∧
    ∀ run ∈ r.runs, (run.stop, run.stamp) ∈ es ∧ ∀ e ∈ es, e.1 = run.stop → e.2 ≤ run.stamp

variable {touched : List SeqNumber}

theorem logged_new : Logged new [] := ⟨[], rfl, .nil, by simp, by simp [new]⟩

theorem Logged.subsumes (h : Logged r touched) (hs : Subsumes r r') : Logged r' touched := by
  obtain ⟨es, h1, h2, h3, h4⟩ := h
  refine ⟨es, h1, h2, fun e he => by rw [hs.stamp]; exact h3 e he, fun run' hr => ?_⟩
  obtain ⟨run, h5, h6, h7⟩ := hs.runs run' hr
  rw [← h6, ← h7]
  exact h4 run h5

/-- An insertion leaves the newest run. -/
theorem Logged.insert {seg : Span} (h : Logged r touched) (hr : Restamps b r r' seg)
    (hd : r'.runs.Pairwise fun x y => x.stop ≠ y.stop) : Logged r' ((b + seg.stop) :: touched) := by
  obtain ⟨es, rfl, h2, h3, h4⟩ := h
  obtain ⟨xs, ys, zs, run, hold, hnew, hl, hst, hnext⟩ := hr
  refine ⟨(run.stop, r.nextStamp + 1) :: es, by rw [List.map_cons, hl.stop],
    List.pairwise_cons.mpr ⟨fun e he => Nat.lt_succ_of_le (h3 e he), h2⟩, fun e he => ?_,
    fun x hx => ?_⟩
  · rw [hnext]
    rcases List.mem_cons.mp he with rfl | he
    · exact le_rfl
    · exact Nat.le_succ_of_le (h3 e he)
  · rw [hnew] at hx hd
    have hd1 := List.pairwise_append.mp hd
    have hd2 := List.pairwise_append.mp hd1.1
    have hcase : x = run ∨ (x ∈ r.runs ∧ run.stop ≠ x.stop) := by
      simp only [List.mem_append, List.mem_singleton] at hx
      rcases hx with (hx | hx) | hx
      · exact .inr ⟨by rw [hold]; simp [hx], (hd2.2.2 x hx run (by simp)).symm⟩
      · exact .inl hx
      · exact .inr ⟨by rw [hold]; simp [hx], hd1.2.2 run (by simp) x hx⟩
    rcases hcase with rfl | ⟨hx, hne⟩
    · rw [hst]
      refine ⟨by simp, fun e he _ => ?_⟩
      rcases List.mem_cons.mp he with rfl | he
      · exact le_rfl
      · exact Nat.le_succ_of_le (h3 e he)
    · obtain ⟨h5, h6⟩ := h4 x hx
      refine ⟨List.mem_cons_of_mem _ h5, fun e he hes => ?_⟩
      rcases List.mem_cons.mp he with rfl | he
      · exact absurd hes hne
      · exact h6 e he hes

/-- The run reported first is the one touched last among those still held. -/
theorem Logged.first (h : Logged r touched) {run : Segment} {rest : List Segment}
    (hs : r.runs.insertionSort (fun x y => y.stamp ≤ x.stamp) = run :: rest) :
    touched.find? (fun e => r.runs.any fun x => x.stop = e) = some run.stop := by
  obtain ⟨es, rfl, h2, -, h4⟩ := h
  have hperm := List.perm_insertionSort (fun x y : Segment => y.stamp ≤ x.stamp) r.runs
  have hmem : run ∈ r.runs := by
    rw [← hperm.mem_iff, hs]
    simp
  have hmax : ∀ x ∈ r.runs, x.stamp ≤ run.stamp := by
    intro x hx
    have hsort := List.pairwise_insertionSort (fun x y : Segment => y.stamp ≤ x.stamp) r.runs
    rw [hs] at hsort
    rw [← hperm.mem_iff, hs] at hx
    rcases List.mem_cons.mp hx with rfl | hx
    · exact le_rfl
    · exact (List.pairwise_cons.mp hsort).1 x hx
  -- no entry above the last of `run` is the end of a run
  have hlast : ∀ e ∈ es, (r.runs.any fun x => x.stop = e.1) = true → e.2 ≤ run.stamp := by
    intro e he ha
    obtain ⟨x, hx, hst⟩ := List.any_eq_true.mp ha
    exact ((h4 x hx).2 e he (of_decide_eq_true hst).symm).trans (hmax x hx)
  have hin := (h4 run hmem).1
  clear h4
  induction es with
  | nil => cases hin
  | cons e es ih =>
    obtain ⟨h5, h6⟩ := List.pairwise_cons.mp h2
    rw [List.map_cons, List.find?_cons]
    rcases ha : r.runs.any fun x => x.stop = e.1 with _ | _
    · simp only
      have hne : (run.stop, run.stamp) ≠ e := by
        rintro rfl
        rw [List.any_eq_false] at ha
        exact ha run hmem (by simp)
      exact ih h6 (fun e' he' => hlast e' (List.mem_cons_of_mem _ he'))
        ((List.mem_cons.mp hin).resolve_left hne)
    · simp only
      rcases List.mem_cons.mp hin with rfl | hin
      · rfl
      · have h7 := h5 _ hin
        have h8 := hlast e (by simp) ha
        simp only at h7
        omega

end Reasm

end Ferrumnet
