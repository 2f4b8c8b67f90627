import Ferrumnet.Lib.Run
import Ferrumnet.ReasmMap

/-
  The reassembly buffer as a partial map from sequence numbers to bytes, over any
  sequence of its calls.

  `byteAt` reads the map off the runs. `Queued` is a buffer with RCV.NXT as a position
  over a base `b`: only the base is a sequence number, so positions may pass 2^32.

  1. `Holds.byteAt` — on positions, the map is that of the spans.
  2. `mapped_fuse`, `insert_mapped`, `discard_mapped`, `pop_mapped` — what each call does
     to it.
  3. `Sound.next` — every call keeps the runs well formed.
  4. `reasm_refines` — and is one on the map, in every run. RCV.NXT moves over buffered
     octets with `discard_below` only, as the connection moves it: else a run is stranded
     below it, and `pop_contiguous` stops at that run (`stranded_and_far`).
-/

namespace Ferrumnet

namespace Reasm

variable {b : SeqNumber} {r : Reasm} {lo hi q x y s : Nat} {ps pre mid post : List Span} {v : UInt8}

/-! ## The map -/

/-- The byte buffered at a sequence number. -/
def byteAt (r : Reasm) (seq : SeqNumber) : Option UInt8 :=
  r.runs.findSome? fun run => run.data.data[seq.offsetFrom run.start]?

/-- The byte at a position. -/
def mapped (ps : List Span) (q : Nat) : Option UInt8 := ps.findSome? fun p => p.byte q

theorem mapped_cons (p : Span) (ps : List Span) (q : Nat) : mapped (p :: ps) q = (p.byte q).or (mapped ps q) := by
  rw [mapped, List.findSome?_cons]
  cases p.byte q with
  | none => rfl
  | some v => rfl

/-- One run at one sequence number. -/
theorem Lays.byte {run : Segment} {p : Span} (h : Lays b run p) (hstop : p.stop < lo + 2147483648) (hlo : lo ≤ p.pos)
    (hq : lo ≤ q) (hq' : q < lo + 4294967296) : run.data.data[(b + q).offsetFrom run.start]? = p.byte q := by
  have hlen : p.data.data.length = p.data.len := p.data.len_eq
  have hstop' : p.stop = p.pos + p.data.len := rfl
  rw [h.1, h.2, Span.byte]
  by_cases hle : p.pos ≤ q
  · rw [if_pos hle, SeqNumber.offsetFrom_pos_le b hle (by omega)]
  · -- below the run the offset wraps, and lies behind the end of the data
    rw [if_neg hle, List.getElem?_eq_none_iff, SeqNumber.offsetFrom_pos, hlen]
    omega

theorem Holds.byteAt (h : Holds b r lo hi ps) (hhi : hi < lo + 2147483648) (hq : lo ≤ q)
    (hq' : q < lo + 4294967296) : r.byteAt (b + q) = mapped ps q := by
  have hall : ∀ (runs : List Segment) (ps : List Span), List.Forall₂ (Lays b) runs ps →
      (∀ p ∈ ps, lo ≤ p.pos ∧ p.stop ≤ hi) →
      runs.findSome? (fun run => run.data.data[(b + q).offsetFrom run.start]?) = mapped ps q := by
    intro runs ps hl
    induction hl with
    | nil => exact fun _ => rfl
    | @cons run p runs ps hlay _ ih =>
      intro hin
      obtain ⟨h1, h2⟩ := hin p List.mem_cons_self
      have hbyte := hlay.byte (by omega) h1 hq hq'
      rw [List.findSome?_cons, hbyte, mapped_cons, ih fun p' hp' => hin p' (List.mem_cons_of_mem p hp')]
      cases p.byte q with
      | none => rfl
      | some v => rfl
  exact hall r.runs ps h.lays fun p hp => ⟨h.spaced.above p hp, h.below p hp⟩

/-- Just below the spans nothing is buffered. -/
theorem Holds.byteAt_below (h : Holds b r lo hi ps) (hhi : hi < lo + 2147483648) (hq : q < lo)
    (hq' : lo < q + 2147483648) : r.byteAt (b + q) = none := by
  have hwrap : b + q = b + (q + 4294967296) := by
    rw [SeqNumber.eq_iff_offsetFrom, SeqNumber.offsetFrom_pos]
    omega
  rw [hwrap, h.byteAt hhi (by omega) (by omega)]
  refine List.findSome?_eq_none_iff.mpr fun p hp => byte_eq_none.mpr fun hc => ?_
  have := h.below p hp
  have := hc.2
  omega

/-- In a spaced list at most one span has a byte at a position. -/
theorem mapped_eq_some (h : Spaced lo ps) : mapped ps q = some v ↔ ∃ p ∈ ps, p.byte q = some v := by
  constructor
  · exact fun hm => List.exists_of_findSome?_eq_some hm
  · induction ps with
    | nil =>
      rintro ⟨p, hp, -⟩
      cases hp
    | cons p ps ih =>
      rintro ⟨p', hp', hv⟩
      have htail : Spaced lo ps := ⟨fun p hp => h.above p (List.mem_cons_of_mem _ hp),
        fun p hp => h.nonempty p (List.mem_cons_of_mem _ hp), (List.pairwise_cons.mp h.apart).2⟩
      rw [mapped_cons]
      cases List.mem_cons.mp hp' with
      | inl he => rw [← he, hv, Option.some_or]
      | inr hp' =>
        -- the span of `q` starts behind the first one
        have hapart := (List.pairwise_cons.mp h.apart).1 p' hp'
        have hq := byte_lt_stop hv
        have hnone : p.byte q = none := byte_eq_none.mpr fun hc => by
          have := hc.2
          omega
        rw [hnone, Option.none_or]
        exact ih htail ⟨p', hp', hv⟩

theorem mapped_eq_none : mapped ps q = none ↔ ∀ p ∈ ps, p.byte q = none := List.findSome?_eq_none_iff

/-- A covered position has a byte. -/
theorem byte_of_covered {p : Span} (h1 : p.pos ≤ q) (h2 : q < p.stop) : ∃ v, p.byte q = some v := by
  cases hb : p.byte q with
  | none => exact absurd ⟨h1, h2⟩ (byte_eq_none.mp hb)
  | some v => exact ⟨v, rfl⟩

/-! ## Insertion -/

/-- The octets of a segment in `[x, y)`. -/
def offeredAt (x y s : Nat) (payload : Bytes) (q : Nat) : Option UInt8 :=
  if x ≤ q ∧ q < y then payload.data[q - s]? else none

/-- Fusing extends the map, and rewrites nothing. -/
theorem mapped_fuse {payload : Bytes} {seg : Span} (hold : Spaced lo (pre ++ mid ++ post))
    (hnew : Spaced lo (pre ++ [seg] ++ post)) (hf : Fused x y s payload mid seg) :
    mapped (pre ++ [seg] ++ post) q = (mapped (pre ++ mid ++ post) q).or (offeredAt x y s payload q) := by
  have hmid : ∀ p ∈ mid, p ∈ pre ++ mid ++ post := fun p hp => by simp [hp]
  have hseg : seg ∈ pre ++ [seg] ++ post := by simp
  cases ho : mapped (pre ++ mid ++ post) q with
  | some v =>
    rw [Option.some_or]
    obtain ⟨p, hp, hv⟩ := (mapped_eq_some hold).mp ho
    rw [mapped_eq_some hnew]
    rw [List.mem_append, List.mem_append] at hp
    obtain (hp | hp) | hp := hp
    · exact ⟨p, by simp [hp], hv⟩
    · -- a byte of the block: the fused span has one there, and it is this one
      obtain ⟨h1, h2⟩ := byte_lt_stop hv
      obtain ⟨h3, h4⟩ := hf.inside p hp
      obtain ⟨v', hv'⟩ := byte_of_covered (h3.trans h1) (h2.trans_le h4)
      obtain ⟨p', hp', hsame⟩ | ⟨hnone, -⟩ := hf.bytes q v' hv'
      · have he := (mapped_eq_some hold).mpr ⟨p', hmid p' hp', hsame⟩
        rw [ho] at he
        exact ⟨seg, hseg, hv'.trans he.symm⟩
      · rw [hnone p hp] at hv
        cases hv
    · exact ⟨p, by simp [hp], hv⟩
  | none =>
    rw [Option.none_or]
    have hno := mapped_eq_none.mp ho
    by_cases hin : x ≤ q ∧ q < y
    · obtain ⟨v, hv⟩ := byte_of_covered (hf.left.trans hin.1) (hin.2.trans_le hf.right)
      rw [offeredAt, if_pos hin, (mapped_eq_some hnew).mpr ⟨seg, hseg, hv⟩]
      obtain ⟨p, hp, hsame⟩ | ⟨-, -, -, hpay⟩ := hf.bytes q v hv
      · rw [hno p (hmid p hp)] at hsame
        cases hsame
      · exact hpay.symm
    · rw [offeredAt, if_neg hin, mapped_eq_none]
      intro p hp
      rw [List.mem_append, List.mem_append, List.mem_singleton] at hp
      obtain (hp | rfl) | hp := hp
      · exact hno p (by simp [hp])
      · cases hb : p.byte q with
        | none => rfl
        | some v =>
          obtain ⟨p', hp', hsame⟩ | ⟨-, h1, h2, -⟩ := hf.bytes q v hb
          · rw [hno p' (hmid p' hp')] at hsame
            cases hsame
          · exact absurd ⟨h1, h2⟩ hin
      · exact hno p (by simp [hp])

/-- Where a segment, the edge and RCV.NXT lie for their comparisons to read as those of
positions: the segment starts less than 2^31 from RCV.NXT and ends less than 2^31 from the
edge, and the edge lies less than 2^31 above RCV.NXT. -/
structure Comparable (nxt e s len : Nat) : Prop where
  start : s < nxt + 2147483648 ∧ nxt < s + 2147483648
  stop : s + len < e + 2147483648 ∧ e < s + len + 2147483648
  edge : nxt ≤ e ∧ e < nxt + 2147483648

instance (nxt e s len : Nat) : Decidable (Comparable nxt e s len) :=
  decidable_of_iff ((s < nxt + 2147483648 ∧ nxt < s + 2147483648) ∧
    (s + len < e + 2147483648 ∧ e < s + len + 2147483648) ∧ nxt ≤ e ∧ e < nxt + 2147483648)
    ⟨fun h => ⟨h.1, h.2.1, h.2.2⟩, fun h => ⟨h.start, h.stop, h.edge⟩⟩

/-- The clipping of an insertion, on positions. -/
theorem insert_pos {nxt e : Nat} {payload : Bytes} (h : Comparable nxt e s payload.len) :
    r.insert (b + nxt) (b + e) (b + s) payload =
      if min (s + payload.len) e ≤ max s nxt then r
      else r.fuse (b + max s nxt)
        ((payload.drop (max s nxt - s)).take (min (s + payload.len) e - max s nxt)) := by
  obtain ⟨⟨h1, h2⟩, ⟨h3, h4⟩, h5, h6⟩ := h
  have hmax : (b + s).max (b + nxt) = b + max s nxt := SeqNumber.pos_max b (by omega) (by omega)
  have hmin : (b + s + payload.len).min (b + e) = b + min (s + payload.len) e := by
    rw [SeqNumber.add_add, SeqNumber.pos_min b (by omega) (by omega)]
  have hge : (b + max s nxt).ge (b + min (s + payload.len) e) =
      decide (min (s + payload.len) e ≤ max s nxt) := SeqNumber.pos_ge b (by omega) (by omega)
  have hoff : (b + max s nxt).offsetFrom (b + s) = max s nxt - s :=
    SeqNumber.offsetFrom_pos_le b (by omega) (by omega)
  simp only [insert, hmax, hmin, hge, hoff]
  by_cases hle : min (s + payload.len) e ≤ max s nxt
  · rw [if_pos (decide_eq_true hle), if_pos hle]
  · have hlen : (b + min (s + payload.len) e).offsetFrom (b + max s nxt) =
        min (s + payload.len) e - max s nxt := SeqNumber.offsetFrom_pos_le b (by omega) (by omega)
    rw [if_neg (by simpa using hle), if_neg hle, hlen]

/-- What is clipped off makes no difference. -/
theorem insert_clip {nxt e : Nat} {payload : Bytes} (h : Comparable nxt e s payload.len)
    (hxy : max s nxt < min (s + payload.len) e) :
    r.insert (b + nxt) (b + e) (b + s) payload = r.insert (b + nxt) (b + e) (b + max s nxt)
      ((payload.drop (max s nxt - s)).take (min (s + payload.len) e - max s nxt)) := by
  have hlen : ((payload.drop (max s nxt - s)).take (min (s + payload.len) e - max s nxt)).len =
      min (s + payload.len) e - max s nxt := by
    simp only [Bytes.take_len, Bytes.drop_len]
    omega
  have hclip : Comparable nxt e (max s nxt)
      ((payload.drop (max s nxt - s)).take (min (s + payload.len) e - max s nxt)).len := by
    obtain ⟨⟨h1, h2⟩, ⟨h3, h4⟩, h5, h6⟩ := h
    rw [hlen]
    exact ⟨⟨by omega, by omega⟩, ⟨by omega, by omega⟩, h5, h6⟩
  rw [insert_pos h, insert_pos hclip, hlen]
  have hx : max (max s nxt) nxt = max s nxt := by omega
  have hy : min (max s nxt + (min (s + payload.len) e - max s nxt)) e = min (s + payload.len) e := by omega
  have hall : (((payload.drop (max s nxt - s)).take (min (s + payload.len) e - max s nxt)).drop
      (max s nxt - max s nxt)).take (min (s + payload.len) e - max s nxt) =
        (payload.drop (max s nxt - s)).take (min (s + payload.len) e - max s nxt) := by
    apply Bytes.ext
    simp only [Bytes.take_data, Bytes.drop_data, Nat.sub_self, List.drop_zero, List.take_take, Nat.min_self]
  rw [hx, hy, hall]

/-- An insertion extends the map with the octets of the segment that are not in it yet. -/
theorem insert_mapped {nxt e : Nat} {payload : Bytes} (h : Holds b r nxt hi ps) (hhi : hi < nxt + 2147483648)
    (hc : Comparable nxt e s payload.len) :
    ∃ hi' ps', Holds b (r.insert (b + nxt) (b + e) (b + s) payload) nxt hi' ps' ∧ hi' < nxt + 2147483648 ∧
      ∀ q, mapped ps' q = (mapped ps q).or (offeredAt (max s nxt) (min (s + payload.len) e) s payload q) := by
  by_cases hxy : max s nxt < min (s + payload.len) e
  · obtain ⟨⟨h1, h2⟩, ⟨h3, h4⟩, h5, h6⟩ := id hc
    rw [insert_clip hc hxy]
    generalize hx : max s nxt = x at hxy ⊢
    generalize hy : min (s + payload.len) e = y at hxy ⊢
    have hlen : ((payload.drop (x - s)).take (y - x)).len = y - x := by
      simp only [Bytes.take_len, Bytes.drop_len]
      omega
    obtain ⟨hno, -⟩ | ⟨-, pre, mid, post, seg, rfl, hnew, hfused, -⟩ :=
      @insert_spec b r nxt hi ps nxt x e ((payload.drop (x - s)).take (y - x)) h
        ⟨le_rfl, by omega⟩ ⟨by omega, by omega⟩ ⟨by omega, by omega⟩ ⟨h5, h6⟩ hhi
    · rw [hlen] at hno
      omega
    · have hleft : max x nxt = x := by omega
      have hright : min (x + ((payload.drop (x - s)).take (y - x)).len) e = y := by
        rw [hlen]
        omega
      rw [hleft, hright] at hfused
      rw [hright] at hnew
      refine ⟨max hi y, _, hnew, by omega, fun q => ?_⟩
      rw [mapped_fuse h.spaced hnew.spaced hfused]
      refine congrArg ((mapped (pre ++ mid ++ post) q).or ·) ?_
      -- the clipped payload has the same bytes where it counts
      rw [offeredAt, offeredAt]
      by_cases hin : x ≤ q ∧ q < y
      · rw [if_pos hin, if_pos hin, Bytes.take_data, Bytes.drop_data, List.getElem?_take_of_lt (by omega),
          List.getElem?_drop]
        congr 1
        omega
      · rw [if_neg hin, if_neg hin]
  · refine ⟨hi, ps, ?_, hhi, fun q => ?_⟩
    · rw [insert_pos hc, if_pos (by omega)]
      exact h
    · rw [offeredAt, if_neg (by omega), Option.or_none]

/-! ## Moving RCV.NXT -/

theorem mapped_below (h : Spaced lo ps) (hq : q < lo) : mapped ps q = none := by
  rw [mapped_eq_none]
  intro p hp
  refine byte_eq_none.mpr fun hc => ?_
  have := h.above p hp
  have := hc.1
  omega

/-- Discarding removes the octets below the new RCV.NXT. -/
theorem discard_mapped {nxt n : Nat} (h : Holds b r nxt hi ps) (hhi : hi < nxt + 2147483648) (hle : nxt ≤ n)
    (hn : n < nxt + 2147483648) :
    ∃ ps', Holds b (r.discardBelow (b + n)) n hi ps' ∧
      ∀ q, mapped ps' q = if n ≤ q then mapped ps q else none := by
  obtain ⟨ps', hnew, hkeeps⟩ := discardBelow_spec h le_rfl ⟨hle, hn⟩ hhi
  refine ⟨ps', hnew, fun q => ?_⟩
  by_cases hq : n ≤ q
  · rw [if_pos hq]
    cases ho : mapped ps q with
    | some v =>
      obtain ⟨p, hp, hv⟩ := (mapped_eq_some h.spaced).mp ho
      exact (mapped_eq_some hnew.spaced).mpr (hkeeps.all p hp q v hq hv)
    | none =>
      have hno := mapped_eq_none.mp ho
      refine mapped_eq_none.mpr fun p' hp' => ?_
      cases hb : p'.byte q with
      | none => rfl
      | some v =>
        obtain ⟨p, hp, hv⟩ := hkeeps.old p' hp' q v hb
        rw [hno p hp] at hv
        cases hv
  · rw [if_neg hq]
    exact mapped_below hnew.spaced (by omega)

/-- Popping takes the octets from RCV.NXT up to the first that is not buffered. -/
theorem pop_mapped {nxt : Nat} (h : Holds b r nxt hi ps) (hhi : hi < nxt + 2147483648) :
    ∃ ps', Holds b (r.popContiguous (b + nxt)).1 nxt hi ps' ∧
      (∀ k < (r.popContiguous (b + nxt)).2.len,
        mapped ps (nxt + k) = (r.popContiguous (b + nxt)).2.data[k]?) ∧
      mapped ps (nxt + (r.popContiguous (b + nxt)).2.len) = none ∧
      ∀ q, mapped ps' q = if nxt + (r.popContiguous (b + nxt)).2.len ≤ q then mapped ps q else none := by
  obtain ⟨p, ps', rfl, hpos, -, hdata, hnew⟩ | ⟨hdata, hsame, habove⟩ := popContiguous_spec h hhi
  · have hstop : p.stop = nxt + p.data.len := by rw [Span.stop, hpos]
    rw [hdata, ← hstop]
    have hrest : ∀ q, q < p.stop + 1 → mapped ps' q = none := fun q hq => mapped_below hnew.spaced hq
    refine ⟨ps', hnew.mono (by omega) le_rfl, fun k hk => ?_, ?_, fun q => ?_⟩
    · rw [mapped_cons, hrest (nxt + k) (by omega), Option.or_none, Span.byte, if_pos (by omega), hpos,
        Nat.add_sub_cancel_left]
    · rw [mapped_cons, hrest p.stop (by omega), Option.or_none]
      exact byte_eq_none.mpr fun hc => absurd hc.2 (Nat.lt_irrefl _)
    · rw [mapped_cons]
      by_cases hq : p.stop ≤ q
      · have hnone : p.byte q = none := byte_eq_none.mpr fun hc => absurd hc.2 (not_lt.mpr hq)
        rw [if_pos hq, hnone, Option.none_or]
      · rw [if_neg hq]
        exact hrest q (by omega)
  · have hnone : mapped ps nxt = none := by
      refine mapped_eq_none.mpr fun p hp => byte_eq_none.mpr fun hc => ?_
      have := habove p hp
      have := hc.1
      omega
    rw [hdata, hsame]
    refine ⟨ps, h, fun k hk => absurd hk (Nat.not_lt_zero k), hnone, fun q => ?_⟩
    change mapped ps q = if nxt ≤ q then mapped ps q else none
    by_cases hq : nxt ≤ q
    · rw [if_pos hq]
    · rw [if_neg hq]
      exact mapped_below h.spaced (by omega)

/-! ## Sequences of calls -/

/-- Sorted, non-empty, disjoint and non-adjacent. -/
def runsCoalesced : List Segment → Bool
  | [] => true
  | [run] => !run.data.isEmpty
  | run :: next :: rest => !run.data.isEmpty && run.stop.lt next.start && runsCoalesced (next :: rest)

/-- What the source's tests check after every call. -/
def check (r : Reasm) : Bool := runsCoalesced r.runs && r.bytes = (r.runs.map fun run => run.data.len).sum

/-- A buffer, and RCV.NXT as a position over a base. -/
structure Queued where
  reasm : Reasm
  nxt : Nat
  deriving DecidableEq, Repr

/-- The calls, with RCV.NXT. It moves with `discard_below`, or over octets that are not
buffered: those that `pop_contiguous` has just returned, for one. -/
inductive Call where
  | insert (edge seq : Nat) (payload : Bytes)
  | discard (nxt : Nat)
  | pop
  | advance (nxt : Nat)
  deriving DecidableEq, Repr

namespace Queued

def start (nxt : Nat) : Queued := ⟨Reasm.new, nxt⟩

def rcvNxt (b : SeqNumber) (w : Queued) : SeqNumber := b + w.nxt

/-- The byte buffered at a position. -/
def atPos (b : SeqNumber) (w : Queued) (q : Nat) : Option UInt8 := w.reasm.byteAt (b + q)

def step (b : SeqNumber) (w : Queued) : Call → Option Queued
  | .insert edge seq payload =>
    if Comparable w.nxt edge seq payload.len then
      some { w with reasm := w.reasm.insert (w.rcvNxt b) (b + edge) (b + seq) payload }
    else none
  | .discard nxt =>
    if w.nxt ≤ nxt ∧ nxt < w.nxt + 2147483648 then some ⟨w.reasm.discardBelow (b + nxt), nxt⟩ else none
  | .pop => some { w with reasm := (w.reasm.popContiguous (w.rcvNxt b)).1 }
  | .advance nxt =>
    if w.nxt ≤ nxt ∧ nxt < w.nxt + 2147483648 ∧ ∀ k < nxt - w.nxt, w.atPos b (w.nxt + k) = none then
      some { w with nxt := nxt }
    else none

/-- The runs are well formed and lie from RCV.NXT on, in half the sequence space. -/
structure Sound (b : SeqNumber) (w : Queued) : Prop where
  holds : w.reasm.check = true
  spans : ∃ hi ps, Holds b w.reasm w.nxt hi ps ∧ hi < w.nxt + 2147483648

/-- What a call does to the map, at every sequence number: the positions run once around,
from the old RCV.NXT. -/
def Refines (b : SeqNumber) (w w' : Queued) : Call → Prop
  | .insert edge seq payload => ∀ q, w.nxt ≤ q → q < w.nxt + 4294967296 →
    w'.atPos b q = (w.atPos b q).or (offeredAt (max seq w.nxt) (min (seq + payload.len) edge) seq payload q)
  | .discard nxt => ∀ q, w.nxt ≤ q → q < w.nxt + 4294967296 →
    w'.atPos b q = if nxt ≤ q then w.atPos b q else none
  | .pop => ∃ data, data = (w.reasm.popContiguous (w.rcvNxt b)).2 ∧
    (∀ k < data.len, w.atPos b (w.nxt + k) = data.data[k]?) ∧ w.atPos b (w.nxt + data.len) = none ∧
    ∀ q, w.nxt ≤ q → q < w.nxt + 4294967296 →
      w'.atPos b q = if w.nxt + data.len ≤ q then w.atPos b q else none
  | .advance _ => w'.reasm = w.reasm

variable {w w' : Queued}

theorem coalesced_of_holds (hhi : hi < lo + 2147483648) : ∀ (runs : List Segment) (ps : List Span),
    List.Forall₂ (Lays b) runs ps → Spaced lo ps → (∀ p ∈ ps, p.stop ≤ hi) → runsCoalesced runs = true := by
  intro runs ps hl
  induction hl with
  | nil => exact fun _ _ => rfl
  | @cons run p runs ps hlay hrest ih =>
    intro hs hb
    have hne : (!run.data.isEmpty) = true := by
      rw [hlay.2, Bool.not_eq_true', Bytes.isEmpty_eq_false]
      exact hs.nonempty p List.mem_cons_self
    have htail : Spaced lo ps := ⟨fun p hp => hs.above p (List.mem_cons_of_mem _ hp),
      fun p hp => hs.nonempty p (List.mem_cons_of_mem _ hp), (List.pairwise_cons.mp hs.apart).2⟩
    have hcoalesced := ih htail fun p' hp' => hb p' (List.mem_cons_of_mem p hp')
    cases hrest with
    | nil => exact hne
    | @cons next p' rest ps' hlay' _ =>
      have h1 := (List.pairwise_cons.mp hs.apart).1 p' List.mem_cons_self
      have h2 := hs.above p List.mem_cons_self
      have h3 := hb p' (List.mem_cons_of_mem p List.mem_cons_self)
      have h4 : p'.pos ≤ p'.stop := Nat.le_add_right _ _
      have h5 : p.pos ≤ p.stop := Nat.le_add_right _ _
      have hgap : run.stop.lt next.start = true := by
        rw [hlay.stop, hlay'.1, SeqNumber.pos_lt b (by omega) (by omega)]
        exact decide_eq_true h1
      rw [runsCoalesced, hne, hgap, hcoalesced]
      rfl

theorem lays_len_sum {runs : List Segment} (h : List.Forall₂ (Lays b) runs ps) :
    (runs.map fun run => run.data.len).sum = (ps.map fun p => p.data.len).sum := by
  induction h with
  | nil => rfl
  | cons hlay _ ih => rw [List.map_cons, List.map_cons, List.sum_cons, List.sum_cons, hlay.2, ih]

theorem sound_of_holds (h : Holds b w.reasm w.nxt hi ps) (hhi : hi < w.nxt + 2147483648) : w.Sound b := by
  refine ⟨?_, hi, ps, h, hhi⟩
  rw [check, coalesced_of_holds hhi _ _ h.lays h.spaced h.below, lays_len_sum h.lays, h.bytes]
  exact decide_eq_true rfl

theorem sound_start (b : SeqNumber) (nxt : Nat) : (start nxt).Sound b :=
  sound_of_holds (holds_new b nxt nxt) (by change nxt < nxt + 2147483648; omega)

/-- One call, on the runs and on the map. -/
theorem Sound.next (h : w.Sound b) {call : Call} (he : step b w call = some w') : w'.Sound b ∧ Refines b w w' call := by
  obtain ⟨hi, ps, hps, hhi⟩ := h.spans
  have hmap : ∀ q, w.nxt ≤ q → q < w.nxt + 4294967296 → w.atPos b q = mapped ps q :=
    fun q h1 h2 => hps.byteAt hhi h1 h2
  cases call with
  | insert edge seq payload =>
    simp only [step] at he
    split at he
    · rename_i hc
      cases he
      obtain ⟨hi', ps', hps', hhi', hq⟩ := insert_mapped hps hhi hc
      refine ⟨sound_of_holds hps' hhi', fun q h1 h2 => ?_⟩
      rw [hmap q h1 h2, ← hq q]
      exact hps'.byteAt hhi' h1 h2
    · cases he
  | discard nxt =>
    simp only [step] at he
    split at he
    · rename_i hmove
      cases he
      obtain ⟨ps', hps', hq⟩ := discard_mapped hps hhi hmove.1 hmove.2
      have hhi' : hi < nxt + 2147483648 := by omega
      refine ⟨sound_of_holds hps' hhi', fun q h1 h2 => ?_⟩
      rw [hmap q h1 h2, ← hq q]
      by_cases hle : nxt ≤ q
      · exact hps'.byteAt hhi' hle (by omega)
      · rw [hq q, if_neg hle]
        exact hps'.byteAt_below hhi' (by omega) (by omega)
    · cases he
  | pop =>
    cases he
    obtain ⟨ps', hps', hrun, hend, hq⟩ := pop_mapped hps hhi
    -- what is popped was buffered, and so lies below `hi`
    have hshort : (w.reasm.popContiguous (b + w.nxt)).2.len < 2147483648 := by
      by_contra hlong
      have hlast := hrun 2147483647 (by omega)
      rw [List.getElem?_eq_getElem (by rw [Bytes.len_eq]; omega), mapped_eq_some hps.spaced] at hlast
      obtain ⟨p, hp, hv⟩ := hlast
      have := hps.below p hp
      have := (byte_lt_stop hv).2
      omega
    refine ⟨sound_of_holds hps' hhi, _, rfl, fun k hk => ?_, ?_, fun q h1 h2 => ?_⟩
    · change k < (w.reasm.popContiguous (b + w.nxt)).2.len at hk
      rw [hmap _ (by omega) (by omega)]
      exact hrun k hk
    · change w.atPos b (w.nxt + (w.reasm.popContiguous (b + w.nxt)).2.len) = none
      rw [hmap _ (by omega) (by omega)]
      exact hend
    · rw [hmap q h1 h2]
      exact (hps'.byteAt hhi h1 h2).trans (hq q)
  | advance nxt =>
    simp only [step] at he
    split at he
    · rename_i hmove
      cases he
      obtain ⟨hle, hlt, hnone⟩ := hmove
      have hhi' : hi < nxt + 2147483648 := by omega
      have hspaced : Spaced nxt ps := ⟨fun p hp => ?_, hps.spaced.nonempty, hps.spaced.apart⟩
      · have hnew : Holds b w.reasm nxt hi ps := ⟨hps.lays, hspaced, hps.below, hps.bytes⟩
        exact ⟨sound_of_holds hnew hhi', rfl⟩
      -- a span that starts below would be buffered there
      by_contra hlow
      have hpos := hps.spaced.above p hp
      have hlen := hps.spaced.nonempty p hp
      have hno := hnone (p.pos - w.nxt) (by omega)
      rw [Nat.add_sub_cancel' hpos, hmap p.pos hpos (by omega)] at hno
      have hcov := mapped_eq_none.mp hno p hp
      refine byte_eq_none.mp hcov ⟨le_rfl, ?_⟩
      rw [Span.stop]
      omega
    · cases he

/-- After every sequence of calls the runs are well formed and add up to the byte count,
and every further call is one on the map from sequence numbers to bytes. -/
theorem reasm_refines {nxt : Nat} {calls : List Call} (hr : Run.run (step b) (start nxt) calls = some w) :
    w.reasm.check = true ∧ ∀ call w', step b w call = some w' → Refines b w w' call := by
  have hsound : w.Sound b :=
    Run.run_invariant (I := Sound b) (fun _ _ _ h he => (h.next he).1) (sound_start b nxt) hr
  exact ⟨hsound.holds, fun call w' he => (hsound.next he).2⟩

/-- A segment bridges two runs over the wrap of the sequence space, with other bytes than
they have; then the octet below it arrives. -/
def bridged : List Call :=
  [.insert 1000 5 (Bytes.ofList [1, 2, 3]), .insert 1000 10 (Bytes.ofList [4, 5]),
    .insert 1000 4 (Bytes.ofList [9, 9, 9, 9, 9, 9, 9]), .discard 4]

theorem reasm_refines_bridged : ∃ w : Queued,
    Run.run (step (SeqNumber.new 4294967290)) (start 3) bridged = some w ∧ w.reasm.check = true ∧
      w.reasm.runs.map (fun run => (run.start, run.data.data)) =
        [(SeqNumber.new 4294967294, [9, 1, 2, 3, 9, 9, 4, 5])] := by
  obtain ⟨w, hr, hw⟩ := Run.exists_run (step (SeqNumber.new 4294967290)) (start 3) bridged
    (fun w : Queued => w.reasm.runs.map (fun run => (run.start, run.data.data)) =
      [(SeqNumber.new 4294967294, [9, 1, 2, 3, 9, 9, 4, 5])]) (by decide +kernel)
  exact ⟨w, hr, (reasm_refines hr).1, hw⟩

/-- Octets 5 to 9, buffered while RCV.NXT is 0. -/
def five : Reasm := Reasm.new.insert (SeqNumber.new 0) (SeqNumber.new 100) (SeqNumber.new 5) (Bytes.ofList [1, 2, 3, 4, 5])

/-- Ten octets 2^31 - 5 above RCV.NXT, where the edge leaves room for one. -/
def far : Reasm := Reasm.new.insert (SeqNumber.new 0) (SeqNumber.new 1) (SeqNumber.new 2147483643)
  (Bytes.ofList [0, 1, 2, 3, 4, 5, 6, 7, 8, 9])

/-- RCV.NXT at 7 with nothing discarded: octet 7 is buffered, and nothing is popped. And
the end of a far segment looks as if it lay below the edge. -/
theorem stranded_and_far :
    (five.byteAt (SeqNumber.new 7) = some 3 ∧ five.popContiguous (SeqNumber.new 7) = (five, Bytes.empty)) ∧
      (SeqNumber.new 1).lt (SeqNumber.new 2147483643) = true ∧ far.buffered = 10 ∧
      far.byteAt (SeqNumber.new 2147483643) = some 0 := by
  decide

end Queued

end Reasm

end Ferrumnet
