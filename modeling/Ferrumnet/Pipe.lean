import Ferrumnet.Lib.Spans
import Ferrumnet.SackRun

/-
  The pipe estimate, octet by octet.

  `pipe` walks `[SND.UNA, SND.NXT)` from edge to edge of the two run lists and asks its
  three questions once for each span. On a well-formed scoreboard the answers are the
  same all over a span, the count behind IsLost too: it is made of the runs that start
  above the octet, and these change at left edges only.

  1. `WellFormed.charts` — well-formed run lists are sets of positions over one base.
  2. `Mapped.nextBoundary`, `Mapped.isLost` — the walk and its questions, on positions.
  3. `pipe_counts` — the estimate is the number of octets outstanding in the path.
-/

namespace Ferrumnet

namespace Scoreboard

open Intervals

variable {s : Scoreboard} {b una nxt : SeqNumber} {lo hi q x v : Nat} {runs : List Run} {l ls lr : List (Nat × Nat)}

/-! ## Well-formed scoreboards -/

/-- The edges of both run lists. -/
def edges (s : Scoreboard) : List SeqNumber := (s.sacked ++ s.rexmit).flatMap fun run => [run.1, run.2]

/-- Both run lists satisfy `run_list_well_formed` where it is meant to be read: all their
edges lie, with SND.UNA and SND.NXT, within less than half the sequence space. -/
structure WellFormed (s : Scoreboard) (una nxt : SeqNumber) : Prop where
  holds : s.invariantsHold = true
  near : ∃ b : SeqNumber, ∀ e ∈ una :: nxt :: s.edges, e.offsetFrom b < 2147483648

theorem run_edges {run : Run} (h : run ∈ s.sacked ++ s.rexmit) : run.1 ∈ s.edges ∧ run.2 ∈ s.edges :=
  ⟨List.mem_flatMap.mpr ⟨run, h, List.mem_cons_self⟩,
    List.mem_flatMap.mpr ⟨run, h, List.mem_cons_of_mem _ List.mem_cons_self⟩⟩

/-- Where an interval of a base comes from. -/
def span (b : SeqNumber) (run : Run) : Nat × Nat := (run.1.offsetFrom b, run.2.offsetFrom b)

theorem place_span (b : SeqNumber) (run : Run) : place b (span b run) = run := by
  rw [place, span, SeqNumber.add_offsetFrom, SeqNumber.add_offsetFrom]

/-- In half the sequence space serial order is that of the offsets. -/
theorem lt_offset {p r : SeqNumber} (hp : p.offsetFrom b < 2147483648) (hr : r.offsetFrom b < 2147483648)
    (h : p.lt r = true) : p.offsetFrom b < r.offsetFrom b := by
  have hpos := SeqNumber.pos_lt b (x := p.offsetFrom b) (y := r.offsetFrom b) (by omega) (by omega)
  rw [SeqNumber.add_offsetFrom, SeqNumber.add_offsetFrom, h] at hpos
  exact of_decide_eq_true hpos.symm

theorem spaced_of_wellFormed (hwf : runListWellFormed runs = true)
    (hnear : ∀ run ∈ runs, run.1.offsetFrom b < 2147483648 ∧ run.2.offsetFrom b < 2147483648) :
    Spaced (runs.map (span b)) := by
  induction runs with
  | nil => exact spaced_nil
  | cons run runs ih =>
    obtain ⟨hl, hr⟩ := hnear run List.mem_cons_self
    have hrest : ∀ run' ∈ runs, run'.1.offsetFrom b < 2147483648 ∧ run'.2.offsetFrom b < 2147483648 :=
      fun run' hm => hnear run' (List.mem_cons_of_mem run hm)
    cases runs with
    | nil =>
      have hlt : run.1.lt run.2 = true := hwf
      refine ⟨fun i hi => ?_, List.pairwise_singleton ..⟩
      rw [List.mem_singleton.mp hi]
      exact lt_offset hl hr hlt
    | cons next rest =>
      change (run.1.lt run.2 && run.2.lt next.1 && runListWellFormed (next :: rest)) = true at hwf
      rw [Bool.and_eq_true, Bool.and_eq_true] at hwf
      obtain ⟨⟨hlt, hgap⟩, htail⟩ := hwf
      have hs := ih htail hrest
      have hne := lt_offset hl hr hlt
      have hgap' := lt_offset hr (hrest next List.mem_cons_self).1 hgap
      refine ⟨fun i hi => ?_, List.pairwise_cons.mpr ⟨fun j hj => ?_, hs.apart⟩⟩
      · cases List.mem_cons.mp hi with
        | inl he => rw [he]; exact hne
        | inr hi => exact hs.nonempty i hi
      · -- all that follow start at the next run or above it
        cases List.mem_cons.mp hj with
        | inl he => rw [he]; exact hgap'
        | inr hj =>
          have hnext := hs.nonempty (span b next) List.mem_cons_self
          have hj' := (List.pairwise_cons.mp hs.apart).1 j hj
          exact hgap'.trans (hnext.trans hj')

theorem charts_of_wellFormed (hwf : runListWellFormed runs = true)
    (hnear : ∀ run ∈ runs, run.1.offsetFrom b < 2147483648 ∧ run.2.offsetFrom b < 2147483648) :
    Charts b 0 2147483647 runs (runs.map (span b)) := by
  refine ⟨?_, spaced_of_wellFormed hwf hnear, fun i hi => ?_, by omega⟩
  · rw [List.map_map]
    conv_lhs => rw [← List.map_id runs]
    exact List.map_congr_left fun run _ => (place_span b run).symm
  · obtain ⟨run, hm, rfl⟩ := List.mem_map.mp hi
    have := (hnear run hm).2
    refine ⟨Nat.zero_le _, ?_⟩
    change run.2.offsetFrom b ≤ 2147483647
    omega

/-- Both run lists as sets of positions. -/
structure Mapped (s : Scoreboard) (b : SeqNumber) (lo hi : Nat) (ls lr : List (Nat × Nat)) : Prop where
  sacked : Charts b lo hi s.sacked ls
  rexmit : Charts b lo hi s.rexmit lr

/-- A well-formed scoreboard and its window, on positions over one base. -/
theorem WellFormed.charts (h : s.WellFormed una nxt) (hw : nxt.offsetFrom una < 2147483648) :
    ∃ (b : SeqNumber) (u v : Nat) (ls lr : List (Nat × Nat)), s.Mapped b 0 2147483647 ls lr ∧
      una = b + u ∧ nxt = b + v ∧ u ≤ v ∧ v ≤ 2147483647 ∧ nxt.offsetFrom una = v - u := by
  obtain ⟨b, hnear⟩ := h.near
  have hboth := h.holds
  rw [invariantsHold, Bool.and_eq_true] at hboth
  have hedge : ∀ run ∈ s.sacked ++ s.rexmit,
      run.1.offsetFrom b < 2147483648 ∧ run.2.offsetFrom b < 2147483648 := by
    intro run hm
    obtain ⟨h1, h2⟩ := run_edges hm
    exact ⟨hnear _ (List.mem_cons_of_mem _ (List.mem_cons_of_mem _ h1)),
      hnear _ (List.mem_cons_of_mem _ (List.mem_cons_of_mem _ h2))⟩
  have hu := hnear una List.mem_cons_self
  have hv := hnear nxt (List.mem_cons_of_mem _ List.mem_cons_self)
  have ht := SeqNumber.offsetFrom_trans nxt una b
  refine ⟨b, una.offsetFrom b, nxt.offsetFrom b, _, _,
    ⟨charts_of_wellFormed hboth.1 fun run hm => hedge run (List.mem_append_left _ hm),
      charts_of_wellFormed hboth.2 fun run hm => hedge run (List.mem_append_right _ hm)⟩,
    (SeqNumber.add_offsetFrom una b).symm, (SeqNumber.add_offsetFrom nxt b).symm, ?_, ?_, ?_⟩
  · omega
  · omega
  · omega

/-- The boards that the calls of a connection lead to. -/
theorem Scored.Sound.wellFormed {s : Scored} (h : s.Sound b) : s.board.WellFormed (s.sndUna b) (s.sndNxt b) := by
  obtain ⟨ls, hs⟩ := h.sacked
  obtain ⟨lr, hr⟩ := h.rexmit
  have hle := h.window
  have hnear := hs.near
  have hin : ∀ e : Nat, s.una ≤ e → e ≤ s.nxt → (b + e).offsetFrom (b + s.una) < 2147483648 := by
    intro e h1 h2
    rw [SeqNumber.offsetFrom_pos_le b h1 (by omega)]
    omega
  refine ⟨h.holds, b + s.una, fun e he => ?_⟩
  cases List.mem_cons.mp he with
  | inl he => exact he ▸ hin s.una le_rfl hle
  | inr he =>
    cases List.mem_cons.mp he with
    | inl he => exact he ▸ hin s.nxt hle le_rfl
    | inr he =>
      obtain ⟨run, hm, he⟩ := List.mem_flatMap.mp he
      have hplace : ∃ i : Nat × Nat, (s.una ≤ i.1 ∧ i.1 < i.2 ∧ i.2 ≤ s.nxt) ∧ place b i = run := by
        cases List.mem_append.mp hm with
        | inl hm =>
          rw [hs.runs] at hm
          obtain ⟨i, hi, he⟩ := List.mem_map.mp hm
          exact ⟨i, hs.bounds hi, he⟩
        | inr hm =>
          rw [hr.runs] at hm
          obtain ⟨i, hi, he⟩ := List.mem_map.mp hm
          exact ⟨i, hr.bounds hi, he⟩
      obtain ⟨i, hi, rfl⟩ := hplace
      cases List.mem_cons.mp he with
      | inl he => exact he ▸ hin i.1 (by omega) (by omega)
      | inr he => exact List.mem_singleton.mp he ▸ hin i.2 (by omega) (by omega)

/-! ## The walk on positions -/

/-- The ends of the intervals. -/
def ends (l : List (Nat × Nat)) : List Nat := l.flatMap fun i => [i.1, i.2]

theorem mem_ends {i : Nat × Nat} (h : i ∈ l) : i.1 ∈ ends l ∧ i.2 ∈ ends l :=
  ⟨List.mem_flatMap.mpr ⟨i, h, List.mem_cons_self⟩,
    List.mem_flatMap.mpr ⟨i, h, List.mem_cons_of_mem _ List.mem_cons_self⟩⟩

/-- One comparison with an edge. -/
theorem nearer_place {e y : Nat} (near : hi < lo + 2147483648) (hx : lo ≤ x ∧ x ≤ hi) (hy : lo ≤ y ∧ y ≤ hi)
    (he : lo ≤ e ∧ e ≤ hi) : nearer (b + x) (b + y) (b + e) = b + (if x < e ∧ e < y then e else y) := by
  rw [nearer, SeqNumber.pos_gt b (by omega) (by omega), SeqNumber.pos_lt b (by omega) (by omega),
    ← Bool.decide_and]
  by_cases h : x < e ∧ e < y
  · rw [if_pos h, if_pos (decide_eq_true h)]
  · rw [if_neg h, if_neg (by simpa using h)]

theorem foldl_nearer_place (near : hi < lo + 2147483648) (hx : lo ≤ x ∧ x ≤ hi) {y : Nat} (hy : lo ≤ y ∧ y ≤ hi)
    (hl : ∀ i ∈ l, lo ≤ i.1 ∧ i.1 < i.2 ∧ i.2 ≤ hi) :
    (l.map (place b)).foldl (fun stop run => nearer (b + x) (nearer (b + x) stop run.1) run.2) (b + y) =
      b + Spans.nearest (ends l) x y := by
  induction l generalizing y with
  | nil => rfl
  | cons i l ih =>
    have hin := hl i List.mem_cons_self
    have hstep : ∀ y e : Nat, (lo ≤ y ∧ y ≤ hi) → (lo ≤ e ∧ e ≤ hi) →
        lo ≤ (if x < e ∧ e < y then e else y) ∧ (if x < e ∧ e < y then e else y) ≤ hi := by
      intro y e hy he
      split
      · exact he
      · exact hy
    have h1 := hstep y i.1 hy ⟨hin.1, by omega⟩
    have h2 := hstep _ i.2 h1 ⟨by omega, hin.2.2⟩
    rw [List.map_cons, List.foldl_cons]
    change List.foldl _ (nearer (b + x) (nearer (b + x) (b + y) (b + i.1)) (b + i.2)) _ = _
    rw [nearer_place near hx hy ⟨hin.1, by omega⟩, nearer_place near hx h1 ⟨by omega, hin.2.2⟩,
      ih h2 fun j hj => hl j (List.mem_cons_of_mem i hj)]
    rfl

/-- `next_boundary` is the next end of an interval. -/
theorem Mapped.nextBoundary (h : s.Mapped b lo hi ls lr) (hx : lo ≤ x ∧ x ≤ hi) (hv : lo ≤ v ∧ v ≤ hi) :
    s.nextBoundary (b + x) (b + v) = b + Spans.nearest (ends (ls ++ lr)) x v := by
  have hruns : s.sacked ++ s.rexmit = (ls ++ lr).map (place b) := by
    rw [List.map_append, h.sacked.runs, h.rexmit.runs]
  rw [Scoreboard.nextBoundary, hruns]
  refine foldl_nearer_place h.sacked.near hx hv fun i hi => ?_
  cases List.mem_append.mp hi with
  | inl hi => exact h.sacked.bounds hi
  | inr hi => exact h.rexmit.bounds hi

/-! ## The questions on positions -/

/-- What IsLost makes of the runs above an octet. -/
def lostUnder (smss : Nat) (above : List Run) : Bool :=
  above.length ≥ dupThresh || (above.map fun run => run.2.offsetFrom run.1).sum > (dupThresh - 1) * smss

theorem Charts.above (h : Charts b lo hi runs l) (hq : lo ≤ q ∧ q ≤ hi) :
    runs.filter (fun run => run.1.gt (b + q)) = (l.filter fun i => decide (q < i.1)).map (place b) := by
  have hnear := h.near
  rw [h.runs, List.filter_map]
  refine congrArg (List.map (place b)) (List.filter_congr fun i hi => ?_)
  have := h.bounds hi
  change (b + i.1).gt (b + q) = decide (q < i.1)
  rw [SeqNumber.pos_gt b (by omega) (by omega)]

theorem Mapped.isLost (h : s.Mapped b lo hi ls lr) (hq : lo ≤ q ∧ q ≤ hi) (smss : Nat) :
    s.isLost (b + q) smss = lostUnder smss ((ls.filter fun i => decide (q < i.1)).map (place b)) := by
  rw [← h.sacked.above hq]
  rfl

/-- The three questions of a walk, on positions. -/
def sackedAt (ls : List (Nat × Nat)) (q : Nat) : Bool := decide (Covers ls q)
def lostAt (b : SeqNumber) (ls : List (Nat × Nat)) (smss q : Nat) : Bool :=
  lostUnder smss ((ls.filter fun i => decide (q < i.1)).map (place b))

theorem changesAt_sacked (ls lr : List (Nat × Nat)) : Spans.ChangesAt (ends (ls ++ lr)) (sackedAt ls) :=
  Spans.changesAt_covers fun _ hi => mem_ends (List.mem_append_left lr hi)

theorem changesAt_rexmit (ls lr : List (Nat × Nat)) : Spans.ChangesAt (ends (ls ++ lr)) (sackedAt lr) :=
  Spans.changesAt_covers fun _ hi => mem_ends (List.mem_append_right ls hi)

/-- IsLost is constant between left edges. -/
theorem changesAt_lost (b : SeqNumber) (ls lr : List (Nat × Nat)) (smss : Nat) :
    Spans.ChangesAt (ends (ls ++ lr)) (lostAt b ls smss) := by
  have habove : Spans.ChangesAt (ends (ls ++ lr)) fun q => ls.filter fun i => decide (q < i.1) :=
    Spans.changesAt_above fun _ hi => (mem_ends (List.mem_append_left lr hi)).1
  exact habove.comp fun above => lostUnder smss (above.map (place b))

/-! ## The pipe estimate -/

/-- The octet is outstanding in the path: not SACKed, and retransmitted or not lost. -/
def inPipe (s : Scoreboard) (smss : Nat) (seq : SeqNumber) : Bool :=
  !s.isSacked seq && (s.isRexmit seq || !s.isLost seq smss)

def inPipeAt (b : SeqNumber) (ls lr : List (Nat × Nat)) (smss q : Nat) : Bool :=
  !sackedAt ls q && (sackedAt lr q || !lostAt b ls smss q)

theorem Mapped.inPipe (h : s.Mapped b lo hi ls lr) (hq : lo ≤ q ∧ q ≤ hi) (smss : Nat) :
    s.inPipe smss (b + q) = inPipeAt b ls lr smss q := by
  rw [Scoreboard.inPipe, isSacked, isRexmit, h.sacked.contains hq.1 hq.2, h.rexmit.contains hq.1 hq.2,
    h.isLost hq]
  rfl

theorem changesAt_inPipe (b : SeqNumber) (ls lr : List (Nat × Nat)) (smss : Nat) :
    Spans.ChangesAt (ends (ls ++ lr)) (inPipeAt b ls lr smss) :=
  (changesAt_sacked ls lr).comp₂
    ((changesAt_rexmit ls lr).comp₂ (changesAt_lost b ls lr smss) fun rexmit lost => rexmit || !lost)
    fun sacked rest => !sacked && rest

/-- The walk of `pipe` adds up spans. -/
theorem Mapped.pipeLoop (h : s.Mapped b lo hi ls lr) (hv : v ≤ hi) (smss : Nat) {fuel acc : Nat} (hx : lo ≤ x)
    (hxv : x ≤ v) : s.pipeLoop (b + v) smss fuel (b + x) acc =
      Spans.total (fun x => Spans.nearest (ends (ls ++ lr)) x v) (inPipeAt b ls lr smss) v fuel x acc := by
  have hnear := h.sacked.near
  induction fuel generalizing x acc with
  | zero => rfl
  | succ fuel ih =>
    rw [Scoreboard.pipeLoop, Spans.total, SeqNumber.pos_lt b (by omega) (by omega)]
    by_cases hlt : x < v
    · obtain ⟨h1, h2, -⟩ := Spans.nearest_spec (ends (ls ++ lr)) hlt
      have hcounts := h.inPipe (q := x) ⟨hx, by omega⟩ smss
      rw [Scoreboard.inPipe] at hcounts
      rw [if_pos (decide_eq_true hlt), if_pos hlt, h.nextBoundary ⟨hx, by omega⟩ ⟨by omega, hv⟩]
      dsimp only
      rw [hcounts, SeqNumber.offsetFrom_pos_le b h1.le (by omega), ih (by omega) h2]
    · rw [if_neg (by simpa using hlt), if_neg hlt]

/-- The pipe estimate is the number of octets in `[SND.UNA, SND.NXT)` that are not SACKed
and are retransmitted or not lost, each asked for itself. -/
theorem pipe_counts (h : s.WellFormed una nxt) (hw : nxt.offsetFrom una < 2147483648) (smss : Nat) :
    s.pipe una nxt smss =
        ((Finset.range (nxt.offsetFrom una)).filter fun k => s.inPipe smss (una + k) = true).card ∧
      s.pipe una nxt smss ≤ nxt.offsetFrom una := by
  obtain ⟨b, u, v, ls, lr, hm, rfl, rfl, huv, hv, hlen⟩ := h.charts hw
  have hsum : Spans.total (fun x => Spans.nearest (ends (ls ++ lr)) x v) (inPipeAt b ls lr smss) v (v - u) u 0 +
      Nat.count (fun q => inPipeAt b ls lr smss q) u = 0 + Nat.count (fun q => inPipeAt b ls lr smss q) v :=
    Spans.total_eq (changesAt_inPipe b ls lr smss) huv (by omega)
  have hsplit : Nat.count (fun q => inPipeAt b ls lr smss q) v =
      Nat.count (fun q => inPipeAt b ls lr smss q) u +
        Nat.count (fun k => inPipeAt b ls lr smss (u + k)) (v - u) := by
    rw [← Nat.count_add, Nat.add_sub_cancel' huv]
  have hpipe : s.pipe (b + u) (b + v) smss = Nat.count (fun k => inPipeAt b ls lr smss (u + k)) (v - u) := by
    rw [pipe, hlen, hm.pipeLoop hv smss (Nat.zero_le u) huv]
    omega
  have hcount : s.pipe (b + u) (b + v) smss =
      ((Finset.range (v - u)).filter fun k => s.inPipe smss (b + u + k) = true).card := by
    rw [hpipe, Nat.count_eq_card_filter_range]
    refine congrArg Finset.card (Finset.filter_congr fun k hk => ?_)
    have := Finset.mem_range.mp hk
    rw [SeqNumber.add_add, hm.inPipe ⟨Nat.zero_le _, by omega⟩]
  rw [hlen]
  refine ⟨hcount, ?_⟩
  rw [hpipe]
  exact Nat.count_le _

/-- Three ranges SACKed, the first over the wrap, and part of the hole behind it retransmitted. -/
def holes : Scoreboard :=
  ⟨[(SeqNumber.new 4294967292, SeqNumber.new 4), (SeqNumber.new 14, SeqNumber.new 24),
    (SeqNumber.new 34, SeqNumber.new 44)], [(SeqNumber.new 4, SeqNumber.new 8)], none, false⟩

theorem holes_wellFormed : holes.WellFormed (SeqNumber.new 4294967290) (SeqNumber.new 60) :=
  ⟨by decide, SeqNumber.new 4294967290, by decide⟩

/-- The first two octets are lost, 28 are SACKed, the other 36 are in the path. -/
theorem pipe_counts_holes : holes.pipe (SeqNumber.new 4294967290) (SeqNumber.new 60) 10 = 36 ∧
    ((Finset.range 66).filter fun k => holes.inPipe 10 (SeqNumber.new 4294967290 + k) = true).card = 36 := by
  have h := pipe_counts holes_wellFormed (by decide) 10
  have hpipe : holes.pipe (SeqNumber.new 4294967290) (SeqNumber.new 60) 10 = 36 := by decide +kernel
  exact ⟨hpipe, h.1.symm.trans hpipe⟩

end Scoreboard

end Ferrumnet
