import Ferrumnet.Lib.Intervals
import Ferrumnet.Reasm

/-
  What the reassembly buffer holds, by position.

  Sequence numbers are read as a base plus a position, and the buffer as a list
  of spans (`Span`: a position and its bytes). `Holds b r lo hi ps` says that
  `r` is the list `ps`, sorted, disjoint and non-adjacent, between the positions
  `lo` and `hi`, and that the byte count is right.

    1. `insert_spec` — an insertion replaces the block of spans it touches by
       one span, which holds the old bytes where there were any and the bytes of
       the segment elsewhere, and nothing else.
    2. `discardBelow_spec`, `popContiguous_spec`, `reinsertFront_spec` — the
       other operations, in the same terms.
    3. `Truthful` and its lemmas — bytes that agree with a fixed stream go on
       agreeing with it.

  Serial comparisons are exact as long as all positions lie in one window of
  half the sequence space.
-/

namespace Ferrumnet

namespace Reasm

/-- A run by position: where it starts, and its bytes. -/
structure Span where
  pos : Nat
  data : Bytes

/-- One past the last position. -/
def Span.stop (p : Span) : Nat := p.pos + p.data.len

def Span.covers (p : Span) (q : Nat) : Prop := p.pos ≤ q ∧ q < p.stop

/-- The byte at position `q`, if the span covers it. -/
def Span.byte (p : Span) (q : Nat) : Option UInt8 :=
  if p.pos ≤ q then p.data.data[q - p.pos]? else none

/-- The run is the span, over the base `b`. -/
def Lays (b : SeqNumber) (run : Segment) (p : Span) : Prop :=
  run.start = b + p.pos ∧ run.data = p.data

/-- Sorted, non-empty, disjoint and non-adjacent, from `lo` on. -/
structure Spaced (lo : Nat) (ps : List Span) : Prop where
  above : ∀ p ∈ ps, lo ≤ p.pos
  nonempty : ∀ p ∈ ps, 0 < p.data.len
  apart : ps.Pairwise fun p q => p.stop < q.pos

structure Holds (b : SeqNumber) (r : Reasm) (lo hi : Nat) (ps : List Span) : Prop where
  lays : List.Forall₂ (Lays b) r.runs ps
  spaced : Spaced lo ps
  below : ∀ p ∈ ps, p.stop ≤ hi
  bytes : r.bytes = (ps.map (·.data.len)).sum

variable {b : SeqNumber} {r : Reasm} {lo hi : Nat} {ps : List Span}

theorem Lays.stop {run : Segment} {p : Span} (h : Lays b run p) : run.stop = b + p.stop := by
  rw [Segment.stop, h.1, h.2, SeqNumber.add_add]; rfl

theorem holds_new (b : SeqNumber) (lo hi : Nat) : Holds b new lo hi [] :=
  ⟨.nil, ⟨by simp, by simp, .nil⟩, by simp, rfl⟩

theorem Holds.mono {lo' hi' : Nat} (h : Holds b r lo hi ps) (h1 : lo' ≤ lo) (h2 : hi ≤ hi') :
    Holds b r lo' hi' ps :=
  ⟨h.lays, ⟨fun p hp => h1.trans (h.spaced.above p hp), h.spaced.nonempty, h.spaced.apart⟩,
    fun p hp => (h.below p hp).trans h2, h.bytes⟩

theorem byte_eq_none {p : Span} {q : Nat} : p.byte q = none ↔ ¬ p.covers q := by
  unfold Span.byte Span.covers Span.stop
  split
  · rw [List.getElem?_eq_none_iff, Bytes.length_data]; omega
  · simp; omega

theorem byte_of_covers {p : Span} {q : Nat} (h : p.covers q) :
    p.byte q = p.data.data[q - p.pos]? := by
  rw [Span.byte, if_pos h.1]

/-! ## Copying -/

theorem copyAt_len (d src : Bytes) {pos : Nat} (h : pos + src.len ≤ d.len) :
    (copyAt d pos src).len = d.len := by
  simp only [copyAt, Bytes.append_len, Bytes.take_len, Bytes.drop_len]
  omega

theorem copyAt_getElem? (d src : Bytes) {pos : Nat} (h : pos + src.len ≤ d.len) (i : Nat) :
    (copyAt d pos src).data[i]? =
      if pos ≤ i ∧ i < pos + src.len then src.data[i - pos]? else d.data[i]? := by
  have hlen : (d.data.take pos).length = pos := by
    rw [List.length_take, Bytes.length_data]; omega
  simp only [copyAt, Bytes.append_data, Bytes.take_data, Bytes.drop_data]
  rcases Nat.lt_or_ge i pos with hi | hi
  · rw [if_neg (by omega), List.append_assoc, List.getElem?_append_left (by omega),
      List.getElem?_take_of_lt hi]
  · rcases Nat.lt_or_ge i (pos + src.len) with hi' | hi'
    · rw [if_pos ⟨hi, hi'⟩, List.getElem?_append_left (by simp; omega),
        List.getElem?_append_right (by omega), hlen]
    · rw [if_neg (by omega), List.getElem?_append_right (by simp; omega), List.getElem?_drop]
      congr 1
      simp
      omega

/-- Laying the runs of a block over `d`: where a run lies, its bytes; elsewhere
what was there. -/
theorem overlay_spec (m : Nat) {runs : List Segment} {mid : List Span}
    (h : List.Forall₂ (Lays b) runs mid) :
    ∀ d : Bytes, d.len < 4294967296 → (∀ p ∈ mid, m ≤ p.pos ∧ p.stop ≤ m + d.len) →
      (runs.foldl (fun d run => copyAt d (run.start.offsetFrom (b + m)) run.data) d).len = d.len ∧
      ∀ i x, (runs.foldl (fun d run => copyAt d (run.start.offsetFrom (b + m)) run.data) d).data[i]?
          = some x →
        (∃ p ∈ mid, p.covers (m + i) ∧ p.data.data[m + i - p.pos]? = some x) ∨
          ((∀ p ∈ mid, ¬ p.covers (m + i)) ∧ d.data[i]? = some x) := by
  induction h with
  | nil => exact fun d _ _ => ⟨rfl, fun i x hx => .inr ⟨by simp, hx⟩⟩
  | @cons run p runs mid hl _ ih =>
    intro d hd hin
    obtain ⟨h1, h2⟩ := hin p (by simp)
    have hstop : p.stop = p.pos + p.data.len := rfl
    have hoff : run.start.offsetFrom (b + m) = p.pos - m := by
      rw [hl.1, SeqNumber.offsetFrom_pos_le b h1 (by omega)]
    have hfit : p.pos - m + run.data.len ≤ d.len := by rw [hl.2]; omega
    have hlen := copyAt_len d run.data hfit
    simp only [List.foldl_cons, hoff]
    obtain ⟨hl', hb⟩ := ih (copyAt d (p.pos - m) run.data) (by omega)
      fun q hq => by rw [hlen]; exact hin q (List.mem_cons_of_mem _ hq)
    refine ⟨by omega, fun i x hx => ?_⟩
    rcases hb i x hx with ⟨q, hq, hc, hxq⟩ | ⟨hnot, hx'⟩
    · exact .inl ⟨q, List.mem_cons_of_mem _ hq, hc, hxq⟩
    · rw [copyAt_getElem? d run.data hfit, hl.2] at hx'
      split at hx'
      · rename_i hc
        refine .inl ⟨p, by simp, ⟨by omega, by omega⟩, ?_⟩
        rw [← hx']; congr 1; omega
      · rename_i hc
        refine .inr ⟨fun q hq => ?_, hx'⟩
        rcases List.mem_cons.mp hq with rfl | hq
        · intro ⟨h3, h4⟩; omega
        · exact hnot q hq

/-! ## The scan -/

/-- The lowest start among `x` and the spans. -/
def lowest (x : Nat) (ps : List Span) : Nat := ps.foldl (fun a p => min a p.pos) x

/-- The highest stop among `y` and the spans. -/
def highest (y : Nat) (ps : List Span) : Nat := ps.foldl (fun a p => max a p.stop) y

theorem lowest_spec (ps : List Span) : ∀ x : Nat,
    lowest x ps ≤ x ∧ (∀ p ∈ ps, lowest x ps ≤ p.pos) ∧
      (lowest x ps = x ∨ ∃ p ∈ ps, lowest x ps = p.pos) := by
  induction ps with
  | nil => intro x; simp [lowest]
  | cons p ps ih =>
    intro x
    obtain ⟨h1, h2, h3⟩ := ih (min x p.pos)
    have hdef : lowest x (p :: ps) = lowest (min x p.pos) ps := rfl
    rw [hdef]
    refine ⟨by omega, fun q hq => ?_, ?_⟩
    · rcases List.mem_cons.mp hq with rfl | hq
      · omega
      · exact h2 q hq
    · rcases h3 with h3 | ⟨q, hq, h3⟩
      · rcases Nat.le_total x p.pos with hxp | hxp
        · left; omega
        · right; exact ⟨p, by simp, by omega⟩
      · exact .inr ⟨q, List.mem_cons_of_mem _ hq, h3⟩

theorem highest_spec (ps : List Span) : ∀ y : Nat,
    y ≤ highest y ps ∧ (∀ p ∈ ps, p.stop ≤ highest y ps) ∧
      (highest y ps = y ∨ ∃ p ∈ ps, highest y ps = p.stop) := by
  induction ps with
  | nil => intro y; simp [highest]
  | cons p ps ih =>
    intro y
    obtain ⟨h1, h2, h3⟩ := ih (max y p.stop)
    have hdef : highest y (p :: ps) = highest (max y p.stop) ps := rfl
    rw [hdef]
    refine ⟨by omega, fun q hq => ?_, ?_⟩
    · rcases List.mem_cons.mp hq with rfl | hq
      · omega
      · exact h2 q hq
    · rcases h3 with h3 | ⟨q, hq, h3⟩
      · rcases Nat.le_total p.stop y with hxp | hxp
        · left; omega
        · right; exact ⟨p, by simp, by omega⟩
      · exact .inr ⟨q, List.mem_cons_of_mem _ hq, h3⟩

/-- All positions at hand lie in one window of half the sequence space. -/
def Within (base : Nat) (x : Nat) : Prop := base ≤ x ∧ x < base + 2147483648

/-- A span that overlaps or touches `[x, y)`. -/
def Touches (x y : Nat) (p : Span) : Prop := p.pos ≤ y ∧ x ≤ p.stop

instance (x y : Nat) (p : Span) : Decidable (Touches x y p) :=
  inferInstanceAs (Decidable (_ ∧ _))

theorem mergeStep_pos {base x y u v k c fi : Nat} {run : Segment} {p : Span} (hl : Lays b run p)
    (hx : Within base x) (hy : Within base y) (hu : Within base u) (hv : Within base v)
    (hp : Within base p.pos) (hs : Within base p.stop) :
    mergeStep (b + x) (b + y) ⟨b + u, b + v, fi, c⟩ (run, k) =
      if Touches x y p then
        ⟨b + min u p.pos, b + max v p.stop, if c = 0 then k else fi, c + 1⟩
      else ⟨b + u, b + v, fi, c⟩ := by
  obtain ⟨hx1, hx2⟩ := hx
  obtain ⟨hy1, hy2⟩ := hy
  obtain ⟨hu1, hu2⟩ := hu
  obtain ⟨hv1, hv2⟩ := hv
  obtain ⟨hp1, hp2⟩ := hp
  obtain ⟨hs1, hs2⟩ := hs
  simp only [mergeStep, hl.stop, hl.1]
  rw [SeqNumber.pos_le b (by omega) (by omega), SeqNumber.pos_le b (by omega) (by omega),
    SeqNumber.pos_lt b (by omega) (by omega), SeqNumber.pos_gt b (by omega) (by omega)]
  have hmin : (if decide (p.pos < u) = true then b + p.pos else b + u) = b + min u p.pos := by
    by_cases h : p.pos < u
    · simp [h, Nat.min_eq_right h.le]
    · simp [h, Nat.min_eq_left (Nat.le_of_not_lt h)]
  have hmax : (if decide (v < p.stop) = true then b + p.stop else b + v) = b + max v p.stop := by
    by_cases h : v < p.stop
    · simp [h, Nat.max_eq_right h.le]
    · simp [h, Nat.max_eq_left (Nat.le_of_not_lt h)]
  rw [hmin, hmax]
  by_cases ht : Touches x y p
  · rw [if_pos ht, if_pos (by simpa [Touches] using ht)]
  · rw [if_neg ht, if_neg (by simpa [Touches] using ht)]

/-- Spans outside `[x, y]` leave the scan alone. -/
theorem scan_skip {base x y u v fi c : Nat} {runs : List Segment} {ps : List Span}
    (h : List.Forall₂ (Lays b) runs ps) (hx : Within base x) (hy : Within base y)
    (hu : Within base u) (hv : Within base v) :
    ∀ k, (∀ p ∈ ps, Within base p.pos ∧ Within base p.stop ∧ ¬ Touches x y p) →
      (runs.zipIdx k).foldl (mergeStep (b + x) (b + y)) ⟨b + u, b + v, fi, c⟩ =
        ⟨b + u, b + v, fi, c⟩ := by
  induction h with
  | nil => intro k _; rfl
  | @cons run p runs ps hl _ ih =>
    intro k hw
    obtain ⟨h1, h2, h3⟩ := hw p (by simp)
    rw [List.zipIdx_cons, List.foldl_cons, mergeStep_pos hl hx hy hu hv h1 h2, if_neg h3]
    exact ih (k + 1) fun q hq => hw q (List.mem_cons_of_mem _ hq)

/-- Touching spans are all swallowed. -/
theorem scan_block {base x y fi : Nat} {runs : List Segment} {ps : List Span}
    (h : List.Forall₂ (Lays b) runs ps) (hx : Within base x) (hy : Within base y) :
    ∀ k c u v, Within base u → Within base v →
      (∀ p ∈ ps, Within base p.pos ∧ Within base p.stop ∧ Touches x y p) →
      (runs.zipIdx k).foldl (mergeStep (b + x) (b + y)) ⟨b + u, b + v, fi, c + 1⟩ =
        ⟨b + lowest u ps, b + highest v ps, fi, c + 1 + ps.length⟩ := by
  induction h with
  | nil => intro k c u v _ _ _; rfl
  | @cons run p runs ps hl _ ih =>
    intro k c u v hu hv hw
    obtain ⟨h1, h2, h3⟩ := hw p (by simp)
    rw [List.zipIdx_cons, List.foldl_cons, mergeStep_pos hl hx hy hu hv h1 h2, if_pos h3]
    have hu' : Within base (min u p.pos) := ⟨by have := hu.1; have := h1.1; omega,
      by have := hu.2; omega⟩
    have hv' : Within base (max v p.stop) := ⟨by have := hv.1; omega,
      by have := hv.2; have := h2.2; omega⟩
    simp only [Nat.succ_ne_zero, if_false]
    rw [ih (k + 1) (c + 1) _ _ hu' hv' fun q hq => hw q (List.mem_cons_of_mem _ hq)]
    simp only [List.length_cons, lowest, highest, List.foldl_cons]
    congr 1
    omega

/-- The scan of a list that falls into spans below, touching and above. -/
theorem scan_spec {base x y : Nat} {runs₁ runs₂ runs₃ : List Segment} {pre mid post : List Span}
    (h₁ : List.Forall₂ (Lays b) runs₁ pre) (h₂ : List.Forall₂ (Lays b) runs₂ mid)
    (h₃ : List.Forall₂ (Lays b) runs₃ post) (hx : Within base x) (hy : Within base y)
    (hpre : ∀ p ∈ pre, Within base p.pos ∧ Within base p.stop ∧ ¬ Touches x y p)
    (hmid : ∀ p ∈ mid, Within base p.pos ∧ Within base p.stop ∧ Touches x y p)
    (hpost : ∀ p ∈ post, Within base p.pos ∧ Within base p.stop ∧ ¬ Touches x y p) :
    scan (b + x) (b + y) (runs₁ ++ runs₂ ++ runs₃) =
      ⟨b + lowest x mid, b + highest y mid,
        if mid = [] then (runs₁ ++ runs₂ ++ runs₃).length else runs₁.length, mid.length⟩ := by
  unfold scan
  rw [List.zipIdx_append, List.zipIdx_append, List.foldl_append, List.foldl_append,
    scan_skip h₁ hx hy hx hy 0 hpre]
  cases h₂ with
  | nil =>
    simp only [List.zipIdx_nil, List.foldl_nil, if_true]
    exact scan_skip h₃ hx hy hx hy _ hpost
  | @cons run p runs ps hl ht =>
    obtain ⟨h1, h2, h3⟩ := hmid p (by simp)
    rw [List.zipIdx_cons, List.foldl_cons, mergeStep_pos hl hx hy hx hy h1 h2, if_pos h3]
    have hu : Within base (min x p.pos) := ⟨by have := hx.1; have := h1.1; omega,
      by have := hx.2; omega⟩
    have hv : Within base (max y p.stop) := ⟨by have := hy.1; omega,
      by have := hy.2; have := h2.2; omega⟩
    have hrest := fun q hq => hmid q (List.mem_cons_of_mem _ hq)
    rw [scan_block ht hx hy _ 0 _ _ hu hv hrest]
    obtain ⟨hlo1, hlo2, hlo3⟩ := lowest_spec ps (min x p.pos)
    obtain ⟨hhi1, hhi2, hhi3⟩ := highest_spec ps (max y p.stop)
    have hu' : Within base (lowest (min x p.pos) ps) := by
      rcases hlo3 with h | ⟨q, hq, h⟩
      · rw [h]; exact hu
      · rw [h]; exact (hrest q hq).1
    have hv' : Within base (highest (max y p.stop) ps) := by
      rcases hhi3 with h | ⟨q, hq, h⟩
      · rw [h]; exact hv
      · rw [h]; exact (hrest q hq).2.1
    rw [scan_skip h₃ hx hy hu' hv' _ hpost]
    simp only [reduceCtorEq, if_false, List.length_cons, lowest, highest, List.foldl_cons,
      Nat.zero_add, if_true]
    congr 1
    omega

/-- A sorted list falls into the spans below `[x, y]`, touching it, and above. -/
theorem split_spec {x y : Nat} :
    ∀ ps : List Span, (ps.Pairwise fun p q => p.stop < q.pos) →
      ∃ pre mid post, ps = pre ++ mid ++ post ∧ (∀ p ∈ pre, p.stop < x) ∧
        (∀ p ∈ mid, Touches x y p) ∧ ∀ p ∈ post, y < p.pos := by
  intro ps hps
  induction ps with
  | nil => exact ⟨[], [], [], rfl, by simp, by simp, by simp⟩
  | cons p ps ih =>
    rw [List.pairwise_cons] at hps
    obtain ⟨pre, mid, post, rfl, hpre, hmid, hpost⟩ := ih hps.2
    have hle : ∀ q : Span, q.pos ≤ q.stop := fun q => Nat.le_add_right _ _
    by_cases h1 : p.stop < x
    · refine ⟨p :: pre, mid, post, rfl, fun q hq => ?_, hmid, hpost⟩
      rcases List.mem_cons.mp hq with rfl | hq
      · exact h1
      · exact hpre q hq
    · have hnil : pre = [] := by
        refine List.eq_nil_iff_forall_not_mem.mpr fun q hq => ?_
        have := hps.1 q (by simp [hq])
        have := hpre q hq
        have := hle q
        omega
      subst hnil
      by_cases h2 : p.pos ≤ y
      · refine ⟨[], p :: mid, post, rfl, by simp, fun q hq => ?_, hpost⟩
        rcases List.mem_cons.mp hq with rfl | hq
        · exact ⟨h2, by omega⟩
        · exact hmid q hq
      · refine ⟨[], [], p :: (mid ++ post), by simp, by simp, by simp, fun q hq => ?_⟩
        rcases List.mem_cons.mp hq with rfl | hq
        · omega
        · have := hps.1 q (by simpa using hq)
          have := hle p
          omega

theorem insertSorted_eq (seg : Segment) (xs ys : List Segment)
    (hx : ∀ run ∈ xs, seg.start.lt run.start = false)
    (hy : ∀ run ∈ ys, seg.start.lt run.start = true) :
    insertSorted seg (xs ++ ys) = xs ++ [seg] ++ ys := by
  have hpos : ((xs ++ ys).findIdx? fun run => seg.start.lt run.start).getD (xs ++ ys).length =
      xs.length := by
    have hn : (xs.findIdx? fun run => seg.start.lt run.start) = none :=
      List.findIdx?_eq_none_iff.mpr fun run hr => by simpa using hx run hr
    rw [List.findIdx?_append, hn]
    cases ys with
    | nil => simp
    | cons y ys => simp [List.findIdx?_cons, hy y (by simp)]
  simp only [insertSorted, hpos]
  simp

/-! ## The operations -/

theorem forall₂_append_inv {α β : Type} {R : α → β → Prop} {l : List α} {xs ys : List β}
    (h : List.Forall₂ R l (xs ++ ys)) :
    ∃ l₁ l₂, l = l₁ ++ l₂ ∧ List.Forall₂ R l₁ xs ∧ List.Forall₂ R l₂ ys :=
  ⟨_, _, (List.take_append_drop xs.length l).symm, List.forall₂_take_append _ _ _ h,
    List.forall₂_drop_append _ _ _ h⟩

theorem forall₂_mem_left {α β : Type} {R : α → β → Prop} {l : List α} {l' : List β}
    (h : List.Forall₂ R l l') {x : α} (hx : x ∈ l) : ∃ y ∈ l', R x y := by
  induction h with
  | nil => cases hx
  | @cons a b as bs hab _ ih =>
    rcases List.mem_cons.mp hx with rfl | hx
    · exact ⟨b, by simp, hab⟩
    · obtain ⟨y, hy, hxy⟩ := ih hx
      exact ⟨y, List.mem_cons_of_mem _ hy, hxy⟩

/-- The single span an insertion leaves where it touched: the old bytes win. -/
structure Fused (x y s : Nat) (payload : Bytes) (mid : List Span) (seg : Span) : Prop where
  left : seg.pos ≤ x
  right : y ≤ seg.stop
  inside : ∀ p ∈ mid, seg.pos ≤ p.pos ∧ p.stop ≤ seg.stop
  bytes : ∀ q v, seg.byte q = some v →
    (∃ p ∈ mid, p.byte q = some v) ∨
      ((∀ p ∈ mid, p.byte q = none) ∧ x ≤ q ∧ q < y ∧ payload.data[q - s]? = some v)

/-- The run that lies on the fused span replaces a block of runs, with a stamp above
all others. -/
def Restamps (b : SeqNumber) (r r' : Reasm) (seg : Span) : Prop :=
  ∃ xs ys zs run, r.runs = xs ++ ys ++ zs ∧ r'.runs = xs ++ [run] ++ zs ∧ Lays b run seg ∧
    run.stamp = r.nextStamp + 1 ∧ r'.nextStamp = r.nextStamp + 1

/-- The bytes of the fused span. -/
theorem fuse_bytes {x y s : Nat} {payload : Bytes} {runs : List Segment} {mid : List Span}
    (hmid : List.Forall₂ (Lays b) runs mid) (ht : ∀ p ∈ mid, Touches x y p) (hsx : s ≤ x)
    (hxy : x < y) (hys : y ≤ s + payload.len)
    (hw : highest y mid < lowest x mid + 4294967296) :
    let m := lowest x mid
    let laid := copyAt (Bytes.replicate (highest y mid - m) 0) (x - m)
      ((payload.drop (x - s)).take (y - x))
    let data := runs.foldl (fun d run => copyAt d (run.start.offsetFrom (b + m)) run.data) laid
    data.len = highest y mid - m ∧ Fused x y s payload mid ⟨m, data⟩ := by
  obtain ⟨hlo1, hlo2, hlo3⟩ := lowest_spec mid x
  obtain ⟨hhi1, hhi2, hhi3⟩ := highest_spec mid y
  intro m laid data
  have hm : m = lowest x mid := rfl
  have hnew : ((payload.drop (x - s)).take (y - x)).len = y - x := by
    simp only [Bytes.take_len, Bytes.drop_len]; omega
  have hfit : x - m + ((payload.drop (x - s)).take (y - x)).len ≤
      (Bytes.replicate (highest y mid - m) 0).len := by
    rw [hnew, Bytes.replicate_len]; omega
  have hlaid : laid.len = highest y mid - m := by
    rw [copyAt_len _ _ hfit, Bytes.replicate_len]
  obtain ⟨hlen, hbytes⟩ := overlay_spec (b := b) m hmid laid (by omega) fun p hp => by
    have := hlo2 p hp
    have := hhi2 p hp
    omega
  have hdl : data.len = highest y mid - m := by rw [← hlaid]; exact hlen
  refine ⟨hdl, hlo1, by simp only [Span.stop]; omega, fun p hp => ⟨hlo2 p hp, ?_⟩, ?_⟩
  · have := hhi2 p hp
    simp only [Span.stop] at this ⊢; omega
  · intro q v hq
    have hc : Span.covers ⟨m, data⟩ q := by
      by_contra hn
      rw [byte_eq_none.mpr hn] at hq
      cases hq
    rw [byte_of_covers hc] at hq
    obtain ⟨h1, h2⟩ := hc
    simp only [Span.stop] at h1 h2 hq
    have hmq : m + (q - m) = q := by omega
    rcases hbytes (q - m) v hq with ⟨p, hp, hcov, hx⟩ | ⟨hnot, hx⟩
    · rw [hmq] at hcov hx
      exact .inl ⟨p, hp, by rw [byte_of_covers hcov]; exact hx⟩
    · rw [hmq] at hnot
      have hxq : x ≤ q := by
        by_contra hlt
        rcases hlo3 with h | ⟨p, hp, h⟩
        · omega
        · have := (ht p hp).2
          exact hnot p hp ⟨by omega, by omega⟩
      have hqy : q < y := by
        by_contra hge
        rcases hhi3 with h | ⟨p, hp, h⟩
        · omega
        · have := (ht p hp).1
          exact hnot p hp ⟨by omega, by omega⟩
      refine .inr ⟨fun p hp => byte_eq_none.mpr (hnot p hp), hxq, hqy, ?_⟩
      rw [copyAt_getElem? _ _ hfit, if_pos ⟨by omega, by omega⟩] at hx
      simp only [Bytes.take_data, Bytes.drop_data] at hx
      rw [List.getElem?_take_of_lt (by omega), List.getElem?_drop] at hx
      rw [← hx]; congr 1; omega

/-- What replacing the block `mid` by the span `seg` leaves. -/
theorem spaced_fuse {x y s : Nat} {payload : Bytes} {pre mid post : List Span} {seg : Span}
    (h : Spaced lo (pre ++ mid ++ post)) (hf : Fused x y s payload mid seg)
    (hpre : ∀ p ∈ pre, p.stop < x) (hpost : ∀ p ∈ post, y < p.pos) (hlx : lo ≤ x) (hxy : x < y)
    (hleft : seg.pos = x ∨ ∃ p ∈ mid, seg.pos = p.pos)
    (hright : seg.stop = y ∨ ∃ p ∈ mid, seg.stop = p.stop) :
    Spaced lo (pre ++ [seg] ++ post) := by
  have hap := h.apart
  rw [List.pairwise_append, List.pairwise_append] at hap
  obtain ⟨⟨hap1, -, hap2⟩, hap3, hap4⟩ := hap
  have hpseg : ∀ p ∈ pre, p.stop < seg.pos := by
    intro p hp
    rcases hleft with h' | ⟨q, hq, h'⟩
    · rw [h']; exact hpre p hp
    · rw [h']; exact hap2 p hp q hq
  have hsegp : ∀ p ∈ post, seg.stop < p.pos := by
    intro p hp
    rcases hright with h' | ⟨q, hq, h'⟩
    · rw [h']; exact hpost p hp
    · rw [h']; exact hap4 q (by simp [hq]) p hp
  refine ⟨fun p hp => ?_, fun p hp => ?_, ?_⟩
  · simp only [List.mem_append, List.mem_singleton] at hp
    rcases hp with (hp | rfl) | hp
    · exact h.above p (by simp [hp])
    · rcases hleft with h' | ⟨q, hq, h'⟩
      · omega
      · rw [h']; exact h.above q (by simp [hq])
    · exact h.above p (by simp [hp])
  · simp only [List.mem_append, List.mem_singleton] at hp
    rcases hp with (hp | rfl) | hp
    · exact h.nonempty p (by simp [hp])
    · have := hf.left
      have := hf.right
      simp only [Span.stop] at this
      omega
    · exact h.nonempty p (by simp [hp])
  · rw [List.pairwise_append, List.pairwise_append]
    refine ⟨⟨hap1, List.pairwise_singleton _ _, fun p hp q hq => ?_⟩, hap3, fun p hp q hq => ?_⟩
    · rw [List.mem_singleton.mp hq]; exact hpseg p hp
    · simp only [List.mem_append, List.mem_singleton] at hp
      rcases hp with hp | rfl
      · exact hap4 p (by simp [hp]) q hq
      · exact hsegp q hq

theorem forall₂_len_sum {runs : List Segment} (h : List.Forall₂ (Lays b) runs ps) :
    (runs.map fun run => run.data.len).sum = (ps.map (·.data.len)).sum := by
  induction h with
  | nil => rfl
  | cons hl _ ih => simp only [List.map_cons, List.sum_cons, ih, hl.2]

/-- `fuse`, read off the definition once the scan is known. -/
theorem fuse_eq {base x y : Nat} {newBytes : Bytes} {runs₁ runs₂ runs₃ : List Segment}
    {pre mid post : List Span} (hr : r.runs = runs₁ ++ runs₂ ++ runs₃)
    (hl₁ : List.Forall₂ (Lays b) runs₁ pre) (hl₂ : List.Forall₂ (Lays b) runs₂ mid)
    (hl₃ : List.Forall₂ (Lays b) runs₃ post)
    (hscan : scan (b + x) (b + y) (runs₁ ++ runs₂ ++ runs₃) =
      ⟨b + lowest x mid, b + highest y mid,
        if mid = [] then (runs₁ ++ runs₂ ++ runs₃).length else runs₁.length, mid.length⟩)
    (hxy : x < y) (hnew : newBytes.len = y - x) (hxw : Within base x)
    (hmw : Within base (lowest x mid)) (hMw : Within base (highest y mid))
    (hpre : ∀ p ∈ pre, Within base p.pos ∧ p.pos ≤ lowest x mid)
    (hpost : ∀ p ∈ post, Within base p.pos ∧ lowest x mid < p.pos) :
    let m := lowest x mid
    let laid := copyAt (Bytes.replicate (highest y mid - m) 0) (x - m) newBytes
    let data := runs₂.foldl (fun d run => copyAt d (run.start.offsetFrom (b + m)) run.data) laid
    (r.fuse (b + x) newBytes).runs = runs₁ ++ [⟨b + m, data, r.nextStamp + 1⟩] ++ runs₃ ∧
      (r.fuse (b + x) newBytes).bytes = r.bytes - (mid.map (·.data.len)).sum + data.len := by
  have hm := (lowest_spec mid x).1
  have hM := (highest_spec mid y).1
  obtain ⟨hx1, hx2⟩ := hxw
  obtain ⟨hm1, hm2⟩ := hmw
  obtain ⟨hM1, hM2⟩ := hMw
  have hend : b + x + newBytes.len = b + y := by rw [hnew, SeqNumber.add_add]; congr 1; omega
  have hspan : (b + highest y mid).offsetFrom (b + lowest x mid) = highest y mid - lowest x mid :=
    SeqNumber.offsetFrom_pos_le b (by omega) (by omega)
  have hat : (b + x).offsetFrom (b + lowest x mid) = x - lowest x mid :=
    SeqNumber.offsetFrom_pos_le b hm (by omega)
  have hnil : mid = [] ↔ runs₂ = [] := by
    rw [← List.length_eq_zero_iff, ← List.length_eq_zero_iff, hl₂.length_eq]
  obtain ⟨hblock, hrest⟩ := Intervals.block_rest runs₁ runs₂ runs₃
    (if mid = [] then (runs₁ ++ runs₂ ++ runs₃).length else runs₁.length) mid.length
    (by simp only [hnil]) hl₂.length_eq.symm
  intro m laid data
  simp only [fuse, hr, hend, hscan, hspan, hat, hblock, hrest, forall₂_len_sum hl₂]
  refine ⟨insertSorted_eq _ _ _ ?_ ?_, rfl⟩
  · intro run hrun
    obtain ⟨p, hp, hl⟩ := forall₂_mem_left hl₁ hrun
    obtain ⟨⟨h1, h2⟩, h3⟩ := hpre p hp
    change (b + lowest x mid).lt run.start = false
    rw [hl.1, SeqNumber.pos_lt b (by omega) (by omega)]
    simpa using h3
  · intro run hrun
    obtain ⟨p, hp, hl⟩ := forall₂_mem_left hl₃ hrun
    obtain ⟨⟨h1, h2⟩, h3⟩ := hpost p hp
    change (b + lowest x mid).lt run.start = true
    rw [hl.1, SeqNumber.pos_lt b (by omega) (by omega)]
    simpa using h3

/-- An insertion: the segment is clipped to `[max s lo, min (s + len) e)`; if
anything is left, the spans it touches and it become one. -/
theorem insert_spec {base s e : Nat} {payload : Bytes} (h : Holds b r lo hi ps)
    (hlo : Within base lo) (hs : Within base s) (hse : Within base (s + payload.len))
    (he : Within base e) (hhi : hi < base + 2147483648) :
    (min (s + payload.len) e ≤ max s lo ∧ r.insert (b + lo) (b + e) (b + s) payload = r) ∨
    (max s lo < min (s + payload.len) e ∧ ∃ pre mid post seg, ps = pre ++ mid ++ post ∧
      Holds b (r.insert (b + lo) (b + e) (b + s) payload) lo (max hi (min (s + payload.len) e))
        (pre ++ [seg] ++ post) ∧
      Fused (max s lo) (min (s + payload.len) e) s payload mid seg ∧
      Restamps b r (r.insert (b + lo) (b + e) (b + s) payload) seg) := by
  obtain ⟨hlo1, hlo2⟩ := hlo
  obtain ⟨hs1, hs2⟩ := hs
  obtain ⟨hse1, hse2⟩ := hse
  obtain ⟨he1, he2⟩ := he
  have hmax : (b + s).max (b + lo) = b + max s lo := SeqNumber.pos_max b (by omega) (by omega)
  have hmin : (b + s + payload.len).min (b + e) = b + min (s + payload.len) e := by
    rw [SeqNumber.add_add, SeqNumber.pos_min b (by omega) (by omega)]
  have hge : (b + max s lo).ge (b + min (s + payload.len) e) =
      decide (min (s + payload.len) e ≤ max s lo) := SeqNumber.pos_ge b (by omega) (by omega)
  by_cases hle : min (s + payload.len) e ≤ max s lo
  · exact .inl ⟨hle, by simp only [insert, hmax, hmin, hge, hle]; rfl⟩
  right
  generalize hx : max s lo = x at hle hge hmax
  generalize hy : min (s + payload.len) e = y at hle hge hmin
  have hxy : x < y := Nat.lt_of_not_le hle
  have hsx : s ≤ x := by omega
  have hlx : lo ≤ x := by omega
  have hys : y ≤ s + payload.len := by omega
  have hxw : Within base x := ⟨by omega, by omega⟩
  have hyw : Within base y := ⟨by omega, by omega⟩
  refine ⟨hxy, ?_⟩
  have hwin : ∀ p ∈ ps, Within base p.pos ∧ Within base p.stop := by
    intro p hp
    have := h.spaced.above p hp
    have := h.below p hp
    have : p.pos ≤ p.stop := Nat.le_add_right _ _
    exact ⟨⟨by omega, by omega⟩, by omega, by omega⟩
  obtain ⟨pre, mid, post, hps, hpre, hmid, hpost⟩ := split_spec (x := x) (y := y) ps h.spaced.apart
  subst hps
  obtain ⟨runs₁₂, runs₃, hr, hl₁₂, hl₃⟩ := forall₂_append_inv h.lays
  obtain ⟨runs₁, runs₂, rfl, hl₁, hl₂⟩ := forall₂_append_inv hl₁₂
  have hnotpre : ∀ p ∈ pre, ¬ Touches x y p := fun p hp ht => by
    have := hpre p hp; have := ht.2; omega
  have hnotpost : ∀ p ∈ post, ¬ Touches x y p := fun p hp ht => by
    have := hpost p hp; have := ht.1; omega
  have hscan := scan_spec hl₁ hl₂ hl₃ hxw hyw (fun p hp => ⟨(hwin p (by simp [hp])).1, (hwin p (by simp [hp])).2,
      hnotpre p hp⟩) (fun p hp => ⟨(hwin p (by simp [hp])).1, (hwin p (by simp [hp])).2,
      hmid p hp⟩) (fun p hp => ⟨(hwin p (by simp [hp])).1, (hwin p (by simp [hp])).2,
      hnotpost p hp⟩)
  obtain ⟨hm1, hm2, hm3⟩ := lowest_spec mid x
  obtain ⟨hM1, hM2, hM3⟩ := highest_spec mid y
  have hmw : base ≤ lowest x mid := by
    rcases hm3 with h' | ⟨p, hp, h'⟩
    · omega
    · rw [h']; exact (hwin p (by simp [hp])).1.1
  have hMw : highest y mid < base + 2147483648 := by
    rcases hM3 with h' | ⟨p, hp, h'⟩
    · omega
    · rw [h']; exact (hwin p (by simp [hp])).2.2
  have hwide : highest y mid < lowest x mid + 4294967296 :=
    lt_of_lt_of_le hMw (Nat.add_le_add hmw (by decide))
  obtain ⟨hdlen, hfused⟩ := fuse_bytes hl₂ hmid hsx hxy hys hwide
  have hnew : ((payload.drop (x - s)).take (y - x)).len = y - x := by
    simp only [Bytes.take_len, Bytes.drop_len]; omega
  have hoff : (b + x).offsetFrom (b + s) = x - s :=
    SeqNumber.offsetFrom_pos_le b hsx (by have := hxw.2; omega)
  have hlen : (b + y).offsetFrom (b + x) = y - x :=
    SeqNumber.offsetFrom_pos_le b hxy.le (by have := hxw.1; have := hyw.2; omega)
  have hins : r.insert (b + lo) (b + e) (b + s) payload =
      r.fuse (b + x) ((payload.drop (x - s)).take (y - x)) := by
    simp only [insert, hmax, hmin, hge, hoff, hlen]
    rw [if_neg (by simpa using hle)]
  have hap := h.spaced.apart
  rw [List.pairwise_append, List.pairwise_append] at hap
  have hprem : ∀ p ∈ pre, Within base p.pos ∧ p.pos ≤ lowest x mid := by
    intro p hp
    refine ⟨(hwin p (by simp [hp])).1, ?_⟩
    have hps : p.pos ≤ p.stop := Nat.le_add_right _ _
    rcases hm3 with h' | ⟨q, hq, h'⟩
    · rw [h']; exact hps.trans (hpre p hp).le
    · rw [h']; exact hps.trans (hap.1.2.2 p hp q hq).le
  have hpostm : ∀ p ∈ post, Within base p.pos ∧ lowest x mid < p.pos := fun p hp =>
    ⟨(hwin p (by simp [hp])).1, lt_of_le_of_lt (hm1.trans hxy.le) (hpost p hp)⟩
  obtain ⟨hruns, hbytes⟩ := fuse_eq hr hl₁ hl₂ hl₃ hscan hxy hnew hxw
    ⟨hmw, lt_of_le_of_lt hm1 hxw.2⟩ ⟨hyw.1.trans hM1, hMw⟩ hprem hpostm
  have hstop : lowest x mid + (highest y mid - lowest x mid) = highest y mid :=
    Nat.add_sub_cancel' (hm1.trans (hxy.le.trans hM1))
  rw [hins]
  refine ⟨pre, mid, post, ⟨lowest x mid, _⟩, rfl, ⟨?_, ?_, ?_, ?_⟩, hfused,
    ⟨runs₁, runs₂, runs₃, _, hr, hruns, ⟨rfl, rfl⟩, rfl, rfl⟩⟩
  · rw [hruns]
    exact List.rel_append (List.rel_append hl₁ (.cons ⟨rfl, rfl⟩ .nil)) hl₃
  · refine spaced_fuse h.spaced hfused hpre hpost hlx hxy hm3 ?_
    simp only [Span.stop, hdlen, hstop]
    exact hM3
  · intro p hp
    simp only [List.mem_append, List.mem_singleton] at hp
    rcases hp with (hp | rfl) | hp
    · exact (h.below p (by simp [hp])).trans (Nat.le_max_left _ _)
    · simp only [Span.stop, hdlen, hstop]
      rcases hM3 with h' | ⟨q, hq, h'⟩
      · rw [h']; exact Nat.le_max_right _ _
      · rw [h']; exact (h.below q (by simp [hq])).trans (Nat.le_max_left _ _)
    · exact (h.below p (by simp [hp])).trans (Nat.le_max_left _ _)
  · have hb := h.bytes
    simp only [List.map_append, List.sum_append, List.map_cons, List.map_nil, List.sum_cons,
      List.sum_nil] at hb ⊢
    rw [hbytes, hb]
    generalize (List.map (fun p => p.data.len) pre).sum = a
    generalize (List.map (fun p => p.data.len) mid).sum = c
    omega

/-! ## Moving `RCV.NXT` -/

theorem holds_cons {run : Segment} {rest : List Segment} {bytes stamp : Nat} {p : Span}
    (h : Holds b ⟨run :: rest, bytes, stamp⟩ lo hi (p :: ps)) :
    Lays b run p ∧ p.data.len ≤ bytes ∧
      Holds b ⟨rest, bytes - p.data.len, stamp⟩ (p.stop + 1) hi ps := by
  obtain ⟨hl, hs, hb, hc⟩ := h
  rw [List.forall₂_cons] at hl
  have hap := List.pairwise_cons.mp hs.apart
  simp only [List.map_cons, List.sum_cons] at hc
  refine ⟨hl.1, by omega, hl.2, ⟨hap.1, ?_, hap.2⟩, fun q hq => hb q (by simp [hq]), ?_⟩
  · exact fun q hq => hs.nonempty q (by simp [hq])
  · change bytes - _ = _; omega

/-- `ps'` holds bytes of `ps` only, and all of those from `nxt` on. -/
structure Keeps (nxt : Nat) (ps ps' : List Span) : Prop where
  old : ∀ p' ∈ ps', ∀ q v, p'.byte q = some v → ∃ p ∈ ps, p.byte q = some v
  all : ∀ p ∈ ps, ∀ q v, nxt ≤ q → p.byte q = some v → ∃ p' ∈ ps', p'.byte q = some v

theorem Keeps.refl (nxt : Nat) (ps : List Span) : Keeps nxt ps ps :=
  ⟨fun p hp _ _ h => ⟨p, hp, h⟩, fun p hp _ _ _ h => ⟨p, hp, h⟩⟩

theorem byte_lt_stop {p : Span} {q : Nat} {v : UInt8} (h : p.byte q = some v) :
    p.pos ≤ q ∧ q < p.stop := by
  by_contra hn
  rw [byte_eq_none.mpr hn] at h
  cases h

/-- The span without its bytes below `nxt`. -/
def Span.clip (p : Span) (nxt : Nat) : Span := ⟨nxt, p.data.drop (nxt - p.pos)⟩

theorem clip_byte {p : Span} {nxt q : Nat} (h : p.pos ≤ nxt) (hq : nxt ≤ q) :
    (p.clip nxt).byte q = p.byte q := by
  simp only [Span.byte, Span.clip, if_pos hq, if_pos (h.trans hq), Bytes.drop_data,
    List.getElem?_drop]
  congr 1
  omega

theorem clip_stop {p : Span} {nxt : Nat} (h : p.pos ≤ nxt) (hs : nxt ≤ p.stop) :
    (p.clip nxt).stop = p.stop := by
  simp only [Span.stop, Span.clip, Bytes.drop_len] at hs ⊢
  omega

/-- Discarding keeps exactly the bytes at and above `nxt`. -/
theorem discardLoop_spec {base nxt stamp : Nat} (hn : Within base nxt)
    (hhi : hi < base + 2147483648) :
    ∀ (runs : List Segment) (bytes lo : Nat) (ps : List Span), base ≤ lo →
      Holds b ⟨runs, bytes, stamp⟩ lo hi ps →
      ∃ ps', Holds b ⟨(discardLoop (b + nxt) runs bytes).1, (discardLoop (b + nxt) runs bytes).2,
          stamp⟩ nxt hi ps' ∧ Keeps nxt ps ps' := by
  obtain ⟨hn1, hn2⟩ := hn
  intro runs
  induction runs with
  | nil =>
    intro bytes lo ps _ h
    have hps : ps = [] := by simpa using h.lays
    subst hps
    exact ⟨[], ⟨.nil, ⟨by simp, by simp, .nil⟩, by simp, h.bytes⟩, .refl _ _⟩
  | cons first rest ih =>
    intro bytes lo ps hlo h
    obtain ⟨p, ps, -, -, rfl⟩ := List.forall₂_cons_left_iff.mp h.lays
    obtain ⟨hl, hlen, hrest⟩ := holds_cons h
    have hp1 := h.spaced.above p (by simp)
    have hp2 := h.below p (by simp)
    have hps : p.pos ≤ p.stop := Nat.le_add_right _ _
    have hstop : p.stop = p.pos + p.data.len := rfl
    simp only [discardLoop, hl.stop, hl.1]
    rw [SeqNumber.pos_le b (by omega) (by omega), SeqNumber.pos_lt b (by omega) (by omega)]
    by_cases h1 : p.stop ≤ nxt
    · obtain ⟨ps', hps', hk⟩ := ih _ _ _ (by omega) hrest
      rw [hl.2]
      simp only [h1, decide_true, if_true]
      refine ⟨ps', hps', fun p' hp' q v hv => ?_, fun q' hq' q v hq hv => ?_⟩
      · obtain ⟨p₀, hp₀, hv₀⟩ := hk.old p' hp' q v hv
        exact ⟨p₀, by simp [hp₀], hv₀⟩
      · rcases List.mem_cons.mp hq' with rfl | hq'
        · have := byte_lt_stop hv; omega
        · exact hk.all q' hq' q v hq hv
    · by_cases h2 : p.pos < nxt
      · simp only [h1, h2, decide_true, decide_false, if_true, Bool.false_eq_true, if_false]
        have hoff : (b + nxt).offsetFrom (b + p.pos) = nxt - p.pos :=
          SeqNumber.offsetFrom_pos_le b h2.le (by omega)
        have hcs := clip_stop h2.le (by omega : nxt ≤ p.stop)
        have hcl : (p.clip nxt).data.len = p.data.len - (nxt - p.pos) := rfl
        refine ⟨p.clip nxt :: ps, ⟨?_, ⟨?_, ?_, ?_⟩, ?_, ?_⟩, ?_, ?_⟩
        · refine .cons ⟨rfl, ?_⟩ hrest.lays
          simp only [hoff, hl.2]; rfl
        · intro q hq
          rcases List.mem_cons.mp hq with rfl | hq
          · exact le_rfl
          · have := hrest.spaced.above q hq; omega
        · intro q hq
          rcases List.mem_cons.mp hq with rfl | hq
          · omega
          · exact hrest.spaced.nonempty q hq
        · refine List.pairwise_cons.mpr ⟨fun q hq => ?_, hrest.spaced.apart⟩
          have := hrest.spaced.above q hq
          omega
        · intro q hq
          rcases List.mem_cons.mp hq with rfl | hq
          · omega
          · exact hrest.below q hq
        · have hb : bytes - p.data.len = (ps.map (·.data.len)).sum := hrest.bytes
          simp only [List.map_cons, List.sum_cons, hoff, hcl, ← hb]
          omega
        · intro p' hp' q v hv
          rcases List.mem_cons.mp hp' with rfl | hp'
          · rw [clip_byte h2.le (byte_lt_stop hv).1] at hv
            exact ⟨p, by simp, hv⟩
          · exact ⟨p', by simp [hp'], hv⟩
        · intro q' hq' q v hq hv
          rcases List.mem_cons.mp hq' with rfl | hq'
          · exact ⟨_, by simp, (clip_byte h2.le hq).trans hv⟩
          · exact ⟨q', by simp [hq'], hv⟩
      · simp only [h1, h2, decide_false, Bool.false_eq_true, if_false]
        refine ⟨p :: ps, ⟨h.lays, ⟨fun q hq => ?_, h.spaced.nonempty, h.spaced.apart⟩, h.below,
          h.bytes⟩, .refl _ _⟩
        rcases List.mem_cons.mp hq with rfl | hq
        · omega
        · have := hrest.spaced.above q hq; omega

theorem discardBelow_spec {base nxt : Nat} (h : Holds b r lo hi ps) (hlo : base ≤ lo)
    (hn : Within base nxt) (hhi : hi < base + 2147483648) :
    ∃ ps', Holds b (r.discardBelow (b + nxt)) nxt hi ps' ∧ Keeps nxt ps ps' :=
  discardLoop_spec hn hhi r.runs r.bytes lo ps hlo h

/-- Popping takes the first span away exactly when it starts at `RCV.NXT`. -/
theorem popContiguous_spec (h : Holds b r lo hi ps) (hhi : hi < lo + 2147483648) :
    (∃ p ps', ps = p :: ps' ∧ p.pos = lo ∧ 0 < p.data.len ∧
        (r.popContiguous (b + lo)).2 = p.data ∧
        Holds b (r.popContiguous (b + lo)).1 (p.stop + 1) hi ps') ∨
      ((r.popContiguous (b + lo)).2 = Bytes.empty ∧ (r.popContiguous (b + lo)).1 = r ∧
        ∀ p ∈ ps, lo < p.pos) := by
  obtain ⟨runs, bytes, stamp⟩ := r
  cases runs with
  | nil =>
    have hps : ps = [] := by simpa using h.lays
    subst hps
    exact .inr ⟨rfl, rfl, by simp⟩
  | cons first rest =>
    obtain ⟨p, ps, -, -, rfl⟩ := List.forall₂_cons_left_iff.mp h.lays
    obtain ⟨hl, -, hrest⟩ := holds_cons h
    have hp1 := h.spaced.above p (by simp)
    have hp2 := h.below p (by simp)
    have hps : p.pos ≤ p.stop := Nat.le_add_right _ _
    have heq : first.start = b + lo ↔ p.pos = lo := by
      rw [hl.1]; exact SeqNumber.pos_eq b (by omega) (by omega)
    simp only [popContiguous]
    by_cases hc : p.pos = lo
    · rw [if_pos (heq.mpr hc)]
      refine .inl ⟨p, ps, rfl, hc, h.spaced.nonempty p (by simp), hl.2, ?_⟩
      rw [hl.2]; exact hrest
    · rw [if_neg (mt heq.mp hc)]
      refine .inr ⟨rfl, rfl, fun q hq => ?_⟩
      rcases List.mem_cons.mp hq with rfl | hq
      · omega
      · have := hrest.spaced.above q hq; omega

/-- The unwritten tail of a popped span goes back in front. -/
theorem reinsertFront_spec {pos : Nat} {data : Bytes} (h : Holds b r (pos + data.len + 1) hi ps)
    (hd : 0 < data.len) (hs : pos + data.len ≤ hi) :
    Holds b (r.reinsertFront (b + pos) data) pos hi (⟨pos, data⟩ :: ps) := by
  have hne : data.isEmpty = false := Bytes.isEmpty_eq_false.mpr hd
  simp only [reinsertFront, hne, Bool.false_eq_true, if_false]
  refine ⟨.cons ⟨rfl, rfl⟩ h.lays, ⟨fun q hq => ?_, fun q hq => ?_, ?_⟩, fun q hq => ?_, ?_⟩
  · rcases List.mem_cons.mp hq with rfl | hq
    · exact le_rfl
    · have := h.spaced.above q hq; omega
  · rcases List.mem_cons.mp hq with rfl | hq
    · exact hd
    · exact h.spaced.nonempty q hq
  · refine List.pairwise_cons.mpr ⟨fun q hq => ?_, h.spaced.apart⟩
    have := h.spaced.above q hq
    simp only [Span.stop]; omega
  · rcases List.mem_cons.mp hq with rfl | hq
    · exact hs
    · exact h.below q hq
  · simp only [List.map_cons, List.sum_cons, h.bytes]
    omega

/-! ## Agreement with a stream -/

/-- Every byte held is the byte the stream has at that position. -/
def Truthful (stream : Nat → Option UInt8) (ps : List Span) : Prop :=
  ∀ p ∈ ps, ∀ q v, p.byte q = some v → stream q = some v

theorem Truthful.keeps {stream : Nat → Option UInt8} {nxt : Nat} {ps' : List Span}
    (h : Truthful stream ps) (hk : Keeps nxt ps ps') : Truthful stream ps' := by
  intro p' hp' q v hv
  obtain ⟨p, hp, hv'⟩ := hk.old p' hp' q v hv
  exact h p hp q v hv'

theorem Truthful.insert {stream : Nat → Option UInt8} {x y s : Nat} {payload : Bytes}
    {pre mid post : List Span} {seg : Span} (h : Truthful stream (pre ++ mid ++ post))
    (hf : Fused x y s payload mid seg)
    (hp : ∀ q v, x ≤ q → q < y → payload.data[q - s]? = some v → stream q = some v) :
    Truthful stream (pre ++ [seg] ++ post) := by
  intro p hpm q v hv
  simp only [List.mem_append, List.mem_singleton] at hpm
  rcases hpm with (hpm | rfl) | hpm
  · exact h p (by simp [hpm]) q v hv
  · rcases hf.bytes q v hv with ⟨p', hp', hv'⟩ | ⟨-, h1, h2, h3⟩
    · exact h p' (by simp [hp']) q v hv'
    · exact hp q v h1 h2 h3
  · exact h p (by simp [hpm]) q v hv

end Reasm

end Ferrumnet
