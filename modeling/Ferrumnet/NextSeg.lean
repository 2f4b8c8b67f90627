import Ferrumnet.Pipe

/-
  Which hole `next_seg` picks, octet by octet, and over an episode.

  1. `Mapped.findLoop`, `lowest_of_findLoop` — the walk finds the lowest octet of its kind.
  2. `nextSeg_lost`, `nextSeg_rescue`, `nextSeg_none` — the three answers, each exactly.
  3. `Mended.next` — all below a retransmitted octet is retransmitted or SACKed, as long
     as no update overflows the list of runs.
  4. `next_seg_exact` — so nothing is retransmitted twice. An overflow drops SACKed runs,
     and a repair may then run into what was retransmitted (`hole_sent_twice`).
-/

namespace Ferrumnet

namespace Scoreboard

open Intervals

variable {s : Scoreboard} {b una nxt seq : SeqNumber} {lo hi q x v smss : Nat} {ls lr : List (Nat × Nat)}

/-! ## The lowest octet of a kind -/

/-- Not SACKed, and not retransmitted in this episode. -/
def hole (s : Scoreboard) (seq : SeqNumber) : Bool := !s.isSacked seq && !s.isRexmit seq

def lostHole (s : Scoreboard) (smss : Nat) (seq : SeqNumber) : Bool := s.hole seq && s.isLost seq smss

/-- Below the highest SACKed edge, if there is one. -/
def rescueHole (s : Scoreboard) (seq : SeqNumber) : Bool :=
  s.hole seq && s.highestSackedEdge.any fun high => seq.lt high

/-- The lowest octet of `[una, nxt)` that satisfies `P`. -/
def Lowest (una nxt : SeqNumber) (P : SeqNumber → Bool) (seq : SeqNumber) : Prop :=
  ∃ k < nxt.offsetFrom una, seq = una + k ∧ P seq = true ∧ ∀ j < k, P (una + j) = false

/-- No octet of `[una, nxt)` satisfies `P`. -/
def Absent (una nxt : SeqNumber) (P : SeqNumber → Bool) : Prop := ∀ k < nxt.offsetFrom una, P (una + k) = false

theorem Lowest.not_absent {P : SeqNumber → Bool} (h : Lowest una nxt P seq) : ¬ Absent una nxt P := by
  obtain ⟨k, hk, rfl, hP, -⟩ := h
  intro hnone
  rw [hnone k hk] at hP
  exact Bool.false_ne_true hP

theorem Lowest.unique {P : SeqNumber → Bool} {seq' : SeqNumber} (h : Lowest una nxt P seq)
    (h' : Lowest una nxt P seq') : seq = seq' := by
  obtain ⟨k, -, rfl, hP, hbelow⟩ := h
  obtain ⟨k', -, rfl, hP', hbelow'⟩ := h'
  have h1 : ¬ k < k' := by
    intro hlt
    rw [hbelow' k hlt] at hP
    exact Bool.false_ne_true hP
  have h2 : ¬ k' < k := by
    intro hlt
    rw [hbelow k' hlt] at hP'
    exact Bool.false_ne_true hP'
  have he : k = k' := by omega
  rw [he]

/-! ## The walk on positions -/

/-- The walk of `next_seg` looks at span starts. -/
theorem Mapped.findLoop (h : s.Mapped b lo hi ls lr) (hv : v ≤ hi) {good : SeqNumber → Bool} {p : Nat → Bool}
    (hgood : ∀ q, lo ≤ q → q ≤ hi → good (b + q) = p q) {fuel : Nat} (hx : lo ≤ x) (hxv : x ≤ v) :
    s.findLoop (b + v) good fuel (b + x) =
      (Spans.find (fun x => Spans.nearest (ends (ls ++ lr)) x v) p v fuel x).map (b + ·) := by
  have hnear := h.sacked.near
  induction fuel generalizing x with
  | zero => rfl
  | succ fuel ih =>
    rw [Scoreboard.findLoop, Spans.find, SeqNumber.pos_lt b (by omega) (by omega)]
    by_cases hlt : x < v
    · obtain ⟨h1, h2, -⟩ := Spans.nearest_spec (ends (ls ++ lr)) hlt
      rw [if_pos (decide_eq_true hlt), if_pos hlt, hgood x hx (by omega)]
      cases hp : p x with
      | true =>
        rw [if_pos rfl, if_pos rfl]
        rfl
      | false =>
        rw [if_neg Bool.false_ne_true, if_neg Bool.false_ne_true, h.nextBoundary ⟨hx, by omega⟩ ⟨by omega, hv⟩]
        exact ih (by omega) h2
    · rw [if_neg (by simpa using hlt), if_neg hlt]
      rfl

/-- A walk over the whole window finds the lowest octet, or there is none. -/
theorem lowest_of_findLoop (h : s.Mapped b lo hi ls lr) {u : Nat} (hu : lo ≤ u) (huv : u ≤ v) (hv : v ≤ hi)
    {good : SeqNumber → Bool} {p : Nat → Bool} (hgood : ∀ q, lo ≤ q → q ≤ hi → good (b + q) = p q)
    (hp : Spans.ChangesAt (ends (ls ++ lr)) p) :
    (∀ seq, s.findLoop (b + v) good (v - u) (b + u) = some seq → Lowest (b + u) (b + v) good seq) ∧
      (s.findLoop (b + v) good (v - u) (b + u) = none → Absent (b + u) (b + v) good) := by
  have hnear := h.sacked.near
  have hlen : (b + v).offsetFrom (b + u) = v - u := SeqNumber.offsetFrom_pos_le b huv (by omega)
  rw [h.findLoop hv hgood hu huv]
  constructor
  · intro seq hf
    obtain ⟨q, hfind, rfl⟩ := Option.map_eq_some_iff.mp hf
    obtain ⟨⟨h1, h2, h3⟩, h4⟩ := Spans.find_some hp hfind
    refine ⟨q - u, by omega, ?_, (hgood q (by omega) (by omega)).trans h3, fun j hj => ?_⟩
    · rw [SeqNumber.add_add, Nat.add_sub_cancel' h1]
    · rw [SeqNumber.add_add, hgood (u + j) (by omega) (by omega)]
      exact h4 (u + j) (by omega) (by omega)
  · intro hf k hk
    have hnone := Spans.find_none hp (by omega) (Option.map_eq_none_iff.mp hf)
    rw [SeqNumber.add_add, hgood (u + k) (by omega) (by omega)]
    exact hnone (u + k) (by omega) (by omega)

def holeAt (ls lr : List (Nat × Nat)) (q : Nat) : Bool := !sackedAt ls q && !sackedAt lr q

theorem Mapped.hole (h : s.Mapped b lo hi ls lr) (hq : lo ≤ q) (hq' : q ≤ hi) : s.hole (b + q) = holeAt ls lr q := by
  rw [Scoreboard.hole, isSacked, isRexmit, h.sacked.contains hq hq', h.rexmit.contains hq hq']
  rfl

theorem changesAt_hole (ls lr : List (Nat × Nat)) : Spans.ChangesAt (ends (ls ++ lr)) (holeAt ls lr) :=
  (changesAt_sacked ls lr).comp₂ (changesAt_rexmit ls lr) fun sacked rexmit => !sacked && !rexmit

theorem Mapped.lostHole (h : s.Mapped b lo hi ls lr) (hq : lo ≤ q) (hq' : q ≤ hi) :
    s.lostHole smss (b + q) = (holeAt ls lr q && lostAt b ls smss q) := by
  rw [Scoreboard.lostHole, h.hole hq hq', h.isLost ⟨hq, hq'⟩]
  rfl

theorem changesAt_lostHole (b : SeqNumber) (ls lr : List (Nat × Nat)) (smss : Nat) :
    Spans.ChangesAt (ends (ls ++ lr)) fun q => holeAt ls lr q && lostAt b ls smss q :=
  (changesAt_hole ls lr).comp₂ (changesAt_lost b ls lr smss) fun hole lost => hole && lost

/-- Below the right end of the last interval. -/
def belowLast (ls : List (Nat × Nat)) (q : Nat) : Bool := ls.getLast?.any fun i => decide (q < i.2)

theorem Mapped.rescueHole (h : s.Mapped b lo hi ls lr) (hq : lo ≤ q) (hq' : q ≤ hi) :
    s.rescueHole (b + q) = (holeAt ls lr q && belowLast ls q) := by
  have hnear := h.sacked.near
  rw [Scoreboard.rescueHole, h.hole hq hq', highestSackedEdge, h.sacked.runs, List.getLast?_map, belowLast]
  cases hlast : ls.getLast? with
  | none => rfl
  | some i =>
    have := h.sacked.bounds (List.mem_of_getLast? hlast)
    change (_ && (b + q).lt (b + i.2)) = (_ && decide (q < i.2))
    rw [SeqNumber.pos_lt b (by omega) (by omega)]

theorem changesAt_rescueHole (ls lr : List (Nat × Nat)) :
    Spans.ChangesAt (ends (ls ++ lr)) fun q => holeAt ls lr q && belowLast ls q := by
  have hbelow : Spans.ChangesAt (ends (ls ++ lr)) (belowLast ls) := by
    unfold belowLast
    cases hlast : ls.getLast? with
    | none => exact Spans.changesAt_const false
    | some i =>
      have hi := List.mem_of_getLast? hlast
      exact Spans.changesAt_lt (mem_ends (List.mem_append_left lr hi)).2
  exact (changesAt_hole ls lr).comp₂ hbelow fun hole below => hole && below

/-! ## The three answers -/

theorem WellFormed.lost_search (h : s.WellFormed una nxt) (hw : nxt.offsetFrom una < 2147483648) (smss : Nat) :
    (∀ seq, s.findLoop nxt (s.lostHole smss) (nxt.offsetFrom una) una = some seq →
        Lowest una nxt (s.lostHole smss) seq) ∧
      (s.findLoop nxt (s.lostHole smss) (nxt.offsetFrom una) una = none → Absent una nxt (s.lostHole smss)) := by
  obtain ⟨b, u, v, ls, lr, hm, rfl, rfl, huv, hv, hlen⟩ := h.charts hw
  rw [hlen]
  exact lowest_of_findLoop hm (Nat.zero_le u) huv hv (fun q h1 h2 => hm.lostHole h1 h2)
    (changesAt_lostHole b ls lr smss)

theorem WellFormed.rescue_search (h : s.WellFormed una nxt) (hw : nxt.offsetFrom una < 2147483648) :
    (∀ seq, s.findLoop nxt s.rescueHole (nxt.offsetFrom una) una = some seq → Lowest una nxt s.rescueHole seq) ∧
      (s.findLoop nxt s.rescueHole (nxt.offsetFrom una) una = none → Absent una nxt s.rescueHole) := by
  obtain ⟨b, u, v, ls, lr, hm, rfl, rfl, huv, hv, hlen⟩ := h.charts hw
  rw [hlen]
  exact lowest_of_findLoop hm (Nat.zero_le u) huv hv (fun q h1 h2 => hm.rescueHole h1 h2)
    (changesAt_rescueHole ls lr)

/-- A lost hole first; else, once an episode, a hole below the highest SACKed edge. -/
theorem nextSeg_answers (h : s.WellFormed una nxt) (hw : nxt.offsetFrom una < 2147483648) (smss : Nat) :
    (∃ seq, s.nextSeg una nxt smss = some (seq, false) ∧ Lowest una nxt (s.lostHole smss) seq) ∨
      (∃ seq, s.nextSeg una nxt smss = some (seq, true) ∧ Absent una nxt (s.lostHole smss) ∧
        s.rescueDone = false ∧ Lowest una nxt s.rescueHole seq) ∨
      (s.nextSeg una nxt smss = none ∧ Absent una nxt (s.lostHole smss) ∧
        (s.rescueDone = true ∨ Absent una nxt s.rescueHole)) := by
  obtain ⟨hlost, hlost'⟩ := h.lost_search hw smss
  obtain ⟨hrescue, hrescue'⟩ := h.rescue_search hw
  cases hl : s.findLoop nxt (s.lostHole smss) (nxt.offsetFrom una) una with
  | some seq =>
    have hl' := hl
    change s.findLoop nxt (fun seq => !s.isSacked seq && !s.isRexmit seq && s.isLost seq smss) _ una = _ at hl'
    refine .inl ⟨seq, ?_, hlost seq hl⟩
    simp only [nextSeg, hl']
  | none =>
    have hl' := hl
    change s.findLoop nxt (fun seq => !s.isSacked seq && !s.isRexmit seq && s.isLost seq smss) _ una = _ at hl'
    refine .inr ?_
    simp only [nextSeg, hl']
    cases hdone : s.rescueDone with
    | true => exact .inr ⟨rfl, hlost' hl, .inl rfl⟩
    | false =>
      cases hhigh : s.highestSackedEdge with
      | none =>
        refine .inr ⟨rfl, hlost' hl, .inr fun k _ => ?_⟩
        rw [rescueHole, hhigh, Option.any_none, Bool.and_false]
      | some high =>
        have hgood : (fun seq => !s.isSacked seq && !s.isRexmit seq && seq.lt high) = s.rescueHole := by
          funext seq
          rw [rescueHole, hole, hhigh, Option.any_some]
        simp only [Bool.false_eq_true, if_false, hgood]
        cases hr : s.findLoop nxt s.rescueHole (nxt.offsetFrom una) una with
        | some seq => exact .inl ⟨seq, rfl, hlost' hl, trivial, hrescue seq hr⟩
        | none => exact .inr ⟨rfl, hlost' hl, .inr (hrescue' hr)⟩

theorem nextSeg_lost (h : s.WellFormed una nxt) (hw : nxt.offsetFrom una < 2147483648) (smss : Nat)
    (seq : SeqNumber) : s.nextSeg una nxt smss = some (seq, false) ↔ Lowest una nxt (s.lostHole smss) seq := by
  obtain ⟨seq', he, hl⟩ | ⟨seq', he, hno, -, -⟩ | ⟨he, hno, -⟩ := nextSeg_answers h hw smss
  · rw [he]
    constructor
    · intro heq
      cases heq
      exact hl
    · intro hl'
      rw [hl.unique hl']
  · rw [he]
    constructor
    · intro heq
      cases heq
    · intro hl'
      exact absurd hno hl'.not_absent
  · rw [he]
    constructor
    · intro heq
      cases heq
    · intro hl'
      exact absurd hno hl'.not_absent

theorem nextSeg_rescue (h : s.WellFormed una nxt) (hw : nxt.offsetFrom una < 2147483648) (smss : Nat)
    (seq : SeqNumber) : s.nextSeg una nxt smss = some (seq, true) ↔
      Absent una nxt (s.lostHole smss) ∧ s.rescueDone = false ∧ Lowest una nxt s.rescueHole seq := by
  obtain ⟨seq', he, hl⟩ | ⟨seq', he, hno, hdone, hl⟩ | ⟨he, -, hdone⟩ := nextSeg_answers h hw smss
  · rw [he]
    constructor
    · intro heq
      cases heq
    · rintro ⟨hno, -, -⟩
      exact absurd hno hl.not_absent
  · rw [he]
    constructor
    · intro heq
      cases heq
      exact ⟨hno, hdone, hl⟩
    · rintro ⟨-, -, hl'⟩
      rw [hl.unique hl']
  · rw [he]
    constructor
    · intro heq
      cases heq
    · rintro ⟨-, hdone', hl'⟩
      cases hdone with
      | inl hdone =>
        rw [hdone] at hdone'
        cases hdone'
      | inr hno => exact absurd hno hl'.not_absent

theorem nextSeg_none (h : s.WellFormed una nxt) (hw : nxt.offsetFrom una < 2147483648) (smss : Nat) :
    s.nextSeg una nxt smss = none ↔
      Absent una nxt (s.lostHole smss) ∧ (s.rescueDone = true ∨ Absent una nxt s.rescueHole) := by
  obtain ⟨seq', he, hl⟩ | ⟨seq', he, -, hdone, hl⟩ | ⟨he, hno, hdone⟩ := nextSeg_answers h hw smss
  · rw [he]
    constructor
    · intro heq
      cases heq
    · rintro ⟨hno, -⟩
      exact absurd hno hl.not_absent
  · rw [he]
    constructor
    · intro heq
      cases heq
    · rintro ⟨-, hdone' | hno⟩
      · rw [hdone'] at hdone
        cases hdone
      · exact absurd hno hl.not_absent
  · exact ⟨fun _ => ⟨hno, hdone⟩, fun _ => he⟩

/-! ## What lies below a pick -/

theorem lostUnder_mono {above above' : List Run} (h : above.Sublist above') (hl : lostUnder smss above = true) :
    lostUnder smss above' = true := by
  rw [lostUnder, Bool.or_eq_true, decide_eq_true_eq, decide_eq_true_eq] at hl ⊢
  have hlen := h.length_le
  have hsum : (above.map fun run => run.2.offsetFrom run.1).sum ≤ (above'.map fun run => run.2.offsetFrom run.1).sum :=
    (h.map _).sum_le_sum fun _ _ => Nat.zero_le _
  cases hl with
  | inl hl => exact .inl (hl.trans hlen)
  | inr hl => exact .inr (hl.trans_le hsum)

/-- Below a lost octet all are lost: they have as many runs above them. -/
theorem lostAt_mono {r : Nat} (hqr : q ≤ r) (h : lostAt b ls smss r = true) : lostAt b ls smss q = true := by
  refine lostUnder_mono (List.Sublist.map _ (List.monotone_filter_right ls fun i hi => ?_)) h
  have := of_decide_eq_true hi
  exact decide_eq_true (by omega)

theorem belowLast_mono {r : Nat} (hqr : q ≤ r) (h : belowLast ls r = true) : belowLast ls q = true := by
  unfold belowLast at h ⊢
  cases hlast : ls.getLast? with
  | none =>
    rw [hlast] at h
    cases h
  | some i =>
    rw [hlast] at h
    have := of_decide_eq_true h
    exact decide_eq_true (by omega)

/-- Below what `next_seg` picks there is no hole left. -/
theorem Mapped.below_pick (h : s.Mapped b lo hi ls lr) {u : Nat} (hu : lo ≤ u) (huv : u ≤ v) (hv : v ≤ hi)
    {rescue : Bool} (hwf : s.WellFormed (b + u) (b + v))
    (hn : s.nextSeg (b + u) (b + v) smss = some (b + x, rescue)) (hx : u ≤ x) (hxv : x < v) :
    ∀ q, u ≤ q → q < x → holeAt ls lr q = false := by
  have hnear := h.sacked.near
  have hlen : (b + v).offsetFrom (b + u) = v - u := SeqNumber.offsetFrom_pos_le b huv (by omega)
  have hw : (b + v).offsetFrom (b + u) < 2147483648 := by omega
  -- the pick is `k` octets above the window's left edge
  have hk : ∀ k, k < v - u → b + x = b + u + k → k = x - u := by
    intro k hk he
    rw [SeqNumber.add_add] at he
    have := (SeqNumber.pos_eq b (by omega) (by omega)).mp he
    omega
  intro q hq hqx
  have hj : b + u + (q - u) = b + q := by rw [SeqNumber.add_add, Nat.add_sub_cancel' hq]
  cases rescue with
  | false =>
    obtain ⟨k, hlt, he, hP, hbelow⟩ := (nextSeg_lost hwf hw smss (b + x)).mp hn
    have hkx := hk k (by omega) he
    have hq' := hbelow (q - u) (by omega)
    rw [h.lostHole (by omega) (by omega), Bool.and_eq_true] at hP
    rw [hj, h.lostHole (by omega) (by omega), lostAt_mono hqx.le hP.2, Bool.and_true] at hq'
    exact hq'
  | true =>
    obtain ⟨-, -, k, hlt, he, hP, hbelow⟩ := (nextSeg_rescue hwf hw smss (b + x)).mp hn
    have hkx := hk k (by omega) he
    have hq' := hbelow (q - u) (by omega)
    rw [h.rescueHole (by omega) (by omega), Bool.and_eq_true] at hP
    rw [hj, h.rescueHole (by omega) (by omega), belowLast_mono hqx.le hP.2, Bool.and_true] at hq'
    exact hq'

/-- A repair that stays in its hole meets no SACKed octet. -/
theorem Charts.hole_unsacked (h : Charts b lo hi s.sacked ls) (hx : lo ≤ x) (hxv : x < v) (hv : v ≤ hi)
    (hno : ¬ Covers ls x) {n : Nat} (hn : n ≤ s.unsackedRunLen (b + x) (b + v)) :
    ∀ q, x ≤ q → q < x + n → ¬ Covers ls q := by
  have hnear := h.near
  have hlen : (b + v).offsetFrom (b + x) = v - x := SeqNumber.offsetFrom_pos_le b hxv.le (by omega)
  intro q hxq hq hcov
  obtain ⟨i, hi, h1, h2⟩ := hcov
  have hb := h.bounds hi
  -- the run of `q` starts above `x`, so the hole ends there
  have hstart : x < i.1 := by
    by_contra hle
    exact hno ⟨i, hi, by omega, by omega⟩
  have hmem : place b i ∈ s.sacked := by
    rw [h.runs]
    exact List.mem_map_of_mem hi
  have hgt : (place b i).1.gt (b + x) = true := by
    change (b + i.1).gt (b + x) = true
    rw [SeqNumber.pos_gt b (by omega) (by omega)]
    exact decide_eq_true hstart
  have hhole : s.unsackedRunLen (b + x) (b + v) ≤ (b + i.1).offsetFrom (b + x) :=
    s.hole_le (by omega) (by omega) hmem hgt
  rw [SeqNumber.offsetFrom_pos_le b hstart.le (by omega)] at hhole
  omega

/-! ## An episode -/

/-- A scoreboard in recovery, and the positions retransmitted since recovery began. -/
structure Mending where
  scored : Scored
  sent : List (Nat × Nat)
  deriving DecidableEq, Repr

/-- What happens in an episode: reports and acknowledgements come in, new data goes out,
and what `next_seg` picks is retransmitted, up to `n` octets of its hole. -/
inductive Move where
  | update (blocks : List Run)
  | trim (una : Nat)
  | send (nxt : Nat)
  | repair (smss n : Nat)
  deriving DecidableEq, Repr

namespace Mending

/-- Recovery begins with nothing retransmitted. -/
def start (s : Scored) (recoveryPoint : SeqNumber) : Mending :=
  ⟨{ s with board := s.board.beginRecovery recoveryPoint }, []⟩

/-- A repair marks what it sends, and notes a rescue. -/
def repair (b : SeqNumber) (e : Mending) (seq : SeqNumber) (rescue : Bool) (n : Nat) : Mending :=
  let marked := e.scored.board.markRexmit seq (seq + n)
  let x := e.scored.una + seq.offsetFrom (e.scored.sndUna b)
  { scored := { e.scored with board := if rescue then marked.setRescueDone else marked }
    sent := e.sent ++ [(x, x + n)] }

def step (b : SeqNumber) (e : Mending) : Move → Option Mending
  | .update blocks => (e.scored.step b (.update blocks)).map fun s => { e with scored := s }
  | .trim una => (e.scored.step b (.trim una)).map fun s => { e with scored := s }
  | .send nxt => (e.scored.step b (.send nxt)).map fun s => { e with scored := s }
  | .repair smss n =>
    match e.scored.board.nextSeg (e.scored.sndUna b) (e.scored.sndNxt b) smss with
    | some (seq, rescue) =>
      if 0 < n ∧ n ≤ e.scored.board.unsackedRunLen seq (e.scored.sndNxt b) then some (e.repair b seq rescue n) else none
    | none => none

/-- The reports of the move fit into the list of runs. -/
def Fits (b : SeqNumber) (e : Mending) : Move → Prop
  | .update blocks =>
    (blocks.foldl (updateBlock (e.scored.sndUna b) (e.scored.sndNxt b)) e.scored.board.sacked).length ≤ maxRuns
  | _ => True

instance (b : SeqNumber) (e : Mending) : ∀ m, Decidable (e.Fits b m)
  | .update _ => inferInstanceAs (Decidable (_ ≤ _))
  | .trim _ | .send _ | .repair .. => inferInstanceAs (Decidable True)

/-- What was retransmitted, and is still outstanding, is marked. -/
structure Marked (b : SeqNumber) (e : Mending) : Prop where
  sound : e.scored.Sound b
  marked : ∀ q, e.scored.una ≤ q → Covers e.sent q → q ∈ e.scored.rexmitOctets b

/-- Below a retransmitted octet there is no hole left. -/
def Filled (b : SeqNumber) (e : Mending) : Prop :=
  ∀ q r, e.scored.una ≤ q → q ≤ r → r ∈ e.scored.rexmitOctets b →
    q ∈ e.scored.sackedOctets b ∨ q ∈ e.scored.rexmitOctets b

variable {e e' : Mending} {n : Nat} {rescue : Bool}

/-- What a repair sends: from the pick on, inside the window, and nothing SACKed. -/
theorem Marked.pick (h : e.Marked b)
    (hn : e.scored.board.nextSeg (e.scored.sndUna b) (e.scored.sndNxt b) smss = some (seq, rescue)) (hpos : 0 < n)
    (hle : n ≤ e.scored.board.unsackedRunLen seq (e.scored.sndNxt b)) :
    ∃ x, x = e.scored.una + seq.offsetFrom (e.scored.sndUna b) ∧ seq = b + x ∧ e.scored.una ≤ x ∧
      x + n ≤ e.scored.nxt ∧ x ∉ e.scored.rexmitOctets b ∧
      (∀ q, e.scored.una ≤ q → q < x → q ∈ e.scored.sackedOctets b ∨ q ∈ e.scored.rexmitOctets b) ∧
      ∀ q, x ≤ q → q < x + n → q ∉ e.scored.sackedOctets b := by
  obtain ⟨ls, hs⟩ := h.sound.sacked
  obtain ⟨lr, hr⟩ := h.sound.rexmit
  have hwin := h.sound.window
  have hnear := hs.near
  have hso : e.scored.sackedOctets b = {q | Covers ls q} := hs.octets
  have hro : e.scored.rexmitOctets b = {q | Covers lr q} := hr.octets
  have hlen : (e.scored.sndNxt b).offsetFrom (e.scored.sndUna b) = e.scored.nxt - e.scored.una :=
    SeqNumber.offsetFrom_pos_le b hwin (by omega)
  obtain ⟨hfresh, hfresh', -, hend⟩ := e.scored.board.nextSeg_spec (by omega) hn
  have hseq : seq = b + (e.scored.una + seq.offsetFrom (e.scored.sndUna b)) := by
    rw [← SeqNumber.add_add]
    exact (SeqNumber.add_offsetFrom seq (e.scored.sndUna b)).symm
  generalize hx : e.scored.una + seq.offsetFrom (e.scored.sndUna b) = x at hseq ⊢
  subst hseq
  have hbelow := Mapped.below_pick ⟨hs, hr⟩ le_rfl hwin le_rfl h.sound.wellFormed hn (by omega) (by omega)
  have hno : ¬ Covers ls x := by
    have hc := hs.contains (q := x) (by omega) (by omega)
    rw [← isSacked, hfresh] at hc
    exact of_decide_eq_false hc.symm
  have hno' : ¬ Covers lr x := by
    have hc := hr.contains (q := x) (by omega) (by omega)
    rw [← isRexmit, hfresh'] at hc
    exact of_decide_eq_false hc.symm
  rw [hso, hro]
  refine ⟨x, rfl, rfl, by omega, by omega, hno', fun q h1 h2 => ?_, fun q h1 h2 => ?_⟩
  · have hq := hbelow q h1 h2
    rw [holeAt, sackedAt, sackedAt, ← Bool.not_or, Bool.not_eq_false', Bool.or_eq_true, decide_eq_true_eq,
      decide_eq_true_eq] at hq
    exact hq
  · exact hs.hole_unsacked (by omega) (by omega) le_rfl hno hle q h1 h2

/-- A repair marks exactly what it sends. -/
theorem Marked.repaired (h : e.Marked b) {x : Nat} (rescue : Bool) (hx : e.scored.una ≤ x)
    (hend : x + n ≤ e.scored.nxt) (hpick : x = e.scored.una + seq.offsetFrom (e.scored.sndUna b)) (hseq : seq = b + x) :
    (e.repair b seq rescue n).scored.Sound b ∧
      (e.repair b seq rescue n).scored.sackedOctets b = e.scored.sackedOctets b ∧
      (e.repair b seq rescue n).scored.rexmitOctets b = e.scored.rexmitOctets b ∪ Set.Ico x (x + n) ∧
      (e.repair b seq rescue n).sent = e.sent ++ [(x, x + n)] := by
  have hmark : e.scored.step b (.markRexmit x (x + n)) =
      some { e.scored with board := e.scored.board.markRexmit seq (seq + n) } := by
    rw [Scored.step, if_pos ⟨hx, by omega, by omega, hend⟩, hseq, SeqNumber.add_add]
  obtain ⟨hsound, hsacked, hrexmit⟩ := h.sound.next hmark
  have hsent : (e.repair b seq rescue n).sent = e.sent ++ [(x, x + n)] := by
    rw [hpick]
    rfl
  cases rescue with
  | false => exact ⟨hsound, hsacked, hrexmit, hsent⟩
  | true =>
    have hnoted : Scored.step b { e.scored with board := e.scored.board.markRexmit seq (seq + n) } .setRescueDone =
        some (e.repair b seq true n).scored := rfl
    exact ⟨(hsound.next hnoted).1, hsacked, hrexmit, hsent⟩

/-- What a repair does, and to which octets. -/
theorem Marked.repair_step (h : e.Marked b) (he : e.step b (.repair smss n) = some e') :
    ∃ x, e'.sent = e.sent ++ [(x, x + n)] ∧ e.scored.una ≤ x ∧ x ∉ e.scored.rexmitOctets b ∧
      (∀ q, e.scored.una ≤ q → q < x → q ∈ e.scored.sackedOctets b ∨ q ∈ e.scored.rexmitOctets b) ∧
      (∀ q, x ≤ q → q < x + n → q ∉ e.scored.sackedOctets b) ∧
      e'.scored.Sound b ∧ e'.scored.una = e.scored.una ∧ e'.scored.sackedOctets b = e.scored.sackedOctets b ∧
      e'.scored.rexmitOctets b = e.scored.rexmitOctets b ∪ Set.Ico x (x + n) := by
  simp only [step] at he
  split at he
  · rename_i seq rescue hn
    split at he
    · rename_i hsize
      cases he
      obtain ⟨x, hx, hseq, h1, h2, h3, h4, h5⟩ := h.pick hn hsize.1 hsize.2
      obtain ⟨hsound, hsacked, hrexmit, hsent⟩ := h.repaired rescue h1 h2 hx hseq
      exact ⟨x, hsent, h1, h3, h4, h5, hsound, rfl, hsacked, hrexmit⟩
    · cases he
  · cases he

/-- A call that is no repair keeps what is marked, above the new SND.UNA. -/
theorem Marked.call (h : e.Marked b) {s : Scored} {op : Op} (he : e.scored.step b op = some s)
    (hle : e.scored.una ≤ s.una)
    (hrexmit : ∀ q, s.una ≤ q → q ∈ e.scored.rexmitOctets b → q ∈ s.rexmitOctets b) :
    Marked b { e with scored := s } := by
  obtain ⟨hsound, -⟩ := h.sound.next he
  exact ⟨hsound, fun q hq hc => hrexmit q hq (h.marked q (hle.trans hq) hc)⟩

theorem Filled.call (h : e.Filled b) {s : Scored} (hle : e.scored.una ≤ s.una)
    (hsacked : ∀ q, s.una ≤ q → q ∈ e.scored.sackedOctets b → q ∈ s.sackedOctets b)
    (hrexmit : ∀ q, s.una ≤ q → (q ∈ e.scored.rexmitOctets b ↔ q ∈ s.rexmitOctets b)) :
    Filled b { e with scored := s } := by
  intro q r hq hqr hr
  cases h q r (hle.trans hq) hqr ((hrexmit r (hq.trans hqr)).mpr hr) with
  | inl hs => exact .inl (hsacked q hq hs)
  | inr hx => exact .inr ((hrexmit q hq).mp hx)

/-- What a move other than a repair does to the sets above the new SND.UNA. -/
theorem Marked.quiet (h : e.Marked b) {m : Move} (hm : ∀ smss n, m ≠ .repair smss n)
    (he : e.step b m = some e') : ∃ s op, e.scored.step b op = some s ∧ e' = { e with scored := s } ∧
      e.scored.una ≤ s.una ∧
      (e.Fits b m → ∀ q, s.una ≤ q → q ∈ e.scored.sackedOctets b → q ∈ s.sackedOctets b) ∧
      ∀ q, s.una ≤ q → (q ∈ e.scored.rexmitOctets b ↔ q ∈ s.rexmitOctets b) := by
  cases m with
  | repair smss n => exact absurd rfl (hm smss n)
  | update blocks =>
    change (e.scored.step b (.update blocks)).map (fun s => { e with scored := s }) = some e' at he
    obtain ⟨s, hs, rfl⟩ := Option.map_eq_some_iff.mp he
    obtain ⟨-, ⟨top, -, hfit, hsacked⟩, hrexmit⟩ := h.sound.next hs
    refine ⟨s, _, hs, rfl, ?_, fun hf q _ hq => ?_, fun q _ => by rw [hrexmit]⟩
    · cases hs
      exact le_rfl
    · -- nothing is dropped, and the octet was in the window
      rw [hsacked, hfit hf]
      exact ⟨.inl hq, hq.2.1⟩
  | trim una =>
    change (e.scored.step b (.trim una)).map (fun s => { e with scored := s }) = some e' at he
    obtain ⟨s, hs, rfl⟩ := Option.map_eq_some_iff.mp he
    obtain ⟨-, hsacked, hrexmit⟩ := h.sound.next hs
    simp only [Scored.step] at hs
    split at hs
    · rename_i hmove
      cases hs
      refine ⟨_, .trim una, by rw [Scored.step, if_pos hmove], rfl, hmove.1, fun _ q h1 hq => ?_, fun q h1 => ?_⟩
      · rw [hsacked]
        exact ⟨hq, h1⟩
      · rw [hrexmit]
        exact ⟨fun hq => ⟨hq, h1⟩, fun hq => hq.1⟩
    · cases hs
  | send nxt =>
    change (e.scored.step b (.send nxt)).map (fun s => { e with scored := s }) = some e' at he
    obtain ⟨s, hs, rfl⟩ := Option.map_eq_some_iff.mp he
    obtain ⟨-, hsacked, hrexmit⟩ := h.sound.next hs
    simp only [Scored.step] at hs
    split at hs
    · rename_i hmove
      cases hs
      refine ⟨_, .send nxt, by rw [Scored.step, if_pos hmove], rfl, le_rfl, fun _ q _ hq => ?_, fun q _ => ?_⟩
      · rw [hsacked]
        exact hq
      · rw [hrexmit]
    · cases hs

/-- Every move keeps what is marked. -/
theorem Marked.next (h : e.Marked b) {m : Move} (he : e.step b m = some e') : e'.Marked b := by
  by_cases hm : ∃ smss n, m = .repair smss n
  · obtain ⟨smss, n, rfl⟩ := hm
    obtain ⟨x, hsent, -, -, -, -, hsound, huna, -, hrexmit⟩ := h.repair_step he
    refine ⟨hsound, fun q hq hc => ?_⟩
    rw [hrexmit]
    rw [hsent, covers_append] at hc
    rw [huna] at hq
    cases hc with
    | inl hc => exact .inl (h.marked q hq hc)
    | inr hc =>
      obtain ⟨i, hi, h1, h2⟩ := hc
      rw [List.mem_singleton.mp hi] at h1 h2
      exact .inr ⟨h1, h2⟩
  · obtain ⟨s, op, hs, rfl, hle, -, hrexmit⟩ := h.quiet (fun smss n hc => hm ⟨smss, n, hc⟩) he
    exact h.call hs hle fun q hq => (hrexmit q hq).mp

/-- A move whose reports fit leaves no hole below what was retransmitted. -/
theorem Filled.next (hf : e.Filled b) (h : e.Marked b) {m : Move} (hfit : e.Fits b m)
    (he : e.step b m = some e') : e'.Filled b := by
  by_cases hm : ∃ smss n, m = .repair smss n
  · obtain ⟨smss, n, rfl⟩ := hm
    obtain ⟨x, -, -, -, hbelow, -, -, huna, hsacked, hrexmit⟩ := h.repair_step he
    intro q r hq hqr hr
    rw [huna] at hq
    rw [hrexmit] at hr
    rw [hsacked, hrexmit]
    cases hr with
    | inl hr =>
      cases hf q r hq hqr hr with
      | inl hs => exact .inl hs
      | inr hx => exact .inr (.inl hx)
    | inr hr =>
      by_cases hqx : q < x
      · cases hbelow q hq hqx with
        | inl hs => exact .inl hs
        | inr hx => exact .inr (.inl hx)
      · exact .inr (.inr ⟨not_lt.mp hqx, hqr.trans_lt hr.2⟩)
  · obtain ⟨s, op, hs, rfl, hle, hsacked, hrexmit⟩ := h.quiet (fun smss n hc => hm ⟨smss, n, hc⟩) he
    exact hf.call hle (hsacked hfit) hrexmit

theorem start_marked {s : Scored} (h : s.Sound b) (hnone : s.board.rexmit = []) (recoveryPoint : SeqNumber) :
    (start s recoveryPoint).Marked b ∧ (start s recoveryPoint).Filled b := by
  have hbegin : s.step b (.begin recoveryPoint) = some (start s recoveryPoint).scored := rfl
  refine ⟨⟨(h.next hbegin).1, fun q _ hc => absurd hc not_covers_nil⟩, fun q r _ _ hr => ?_⟩
  obtain ⟨-, -, hr⟩ := hr
  change contains s.board.rexmit (b + r) = true at hr
  rw [hnone] at hr
  cases hr

/-- On a well-formed scoreboard `next_seg` answers with the lowest lost hole; without one,
and before the rescue, with the lowest hole below the highest SACKed edge; else with none.
Over an episode it never picks an octet that was retransmitted, and a repair sends no
SACKed one; while the reports fit into the list of runs, a repair sends nothing again. -/
theorem next_seg_exact :
    (∀ (s : Scoreboard) (una nxt : SeqNumber) (smss : Nat), s.WellFormed una nxt → nxt.offsetFrom una < 2147483648 →
      (∀ seq, s.nextSeg una nxt smss = some (seq, false) ↔ Lowest una nxt (s.lostHole smss) seq) ∧
      (∀ seq, s.nextSeg una nxt smss = some (seq, true) ↔
        Absent una nxt (s.lostHole smss) ∧ s.rescueDone = false ∧ Lowest una nxt s.rescueHole seq) ∧
      (s.nextSeg una nxt smss = none ↔
        Absent una nxt (s.lostHole smss) ∧ (s.rescueDone = true ∨ Absent una nxt s.rescueHole))) ∧
    ∀ (b : SeqNumber) (s : Scored) (recoveryPoint : SeqNumber) (moves : List Move) (e : Mending), s.Sound b →
      s.board.rexmit = [] → Run.run (step b) (start s recoveryPoint) moves = some e →
      ∀ smss n e', e.step b (.repair smss n) = some e' → ∃ x, e'.sent = e.sent ++ [(x, x + n)] ∧
        ¬ Covers e.sent x ∧ (∀ q, x ≤ q → q < x + n → q ∉ e.scored.sackedOctets b) ∧
        (Run.Along (step b) (Fits b) (start s recoveryPoint) moves → ∀ q, x ≤ q → q < x + n → ¬ Covers e.sent q) := by
  constructor
  · intro s una nxt smss h hw
    exact ⟨nextSeg_lost h hw smss, nextSeg_rescue h hw smss, nextSeg_none h hw smss⟩
  · intro b s recoveryPoint moves e hs hnone hr smss n e' he
    obtain ⟨hmarked, hfilled⟩ := start_marked hs hnone recoveryPoint
    have hm : e.Marked b := Run.run_invariant (I := Marked b) (fun _ _ _ h he => h.next he) hmarked hr
    obtain ⟨x, hsent, hx, hfresh, -, hunsacked, -⟩ := hm.repair_step he
    refine ⟨x, hsent, fun hc => hfresh (hm.marked x hx hc), hunsacked, fun hfits q h1 h2 hc => ?_⟩
    -- a retransmitted octet of the hole leaves no hole at the pick
    have hboth : e.Marked b ∧ e.Filled b :=
      Run.run_invariant_along (I := fun e => e.Marked b ∧ e.Filled b)
        (fun _ _ _ h hf he => ⟨h.1.next he, h.2.next h.1 hf he⟩) ⟨hmarked, hfilled⟩ hfits hr
    cases hboth.2 x q hx h1 (hm.marked q (hx.trans h1) hc) with
    | inl hs =>
      have hpos : x < x + n := h1.trans_lt h2
      exact hunsacked x le_rfl hpos hs
    | inr hx' => exact hfresh hx'

/-- A window with four SACKed octets and what lies between repaired in part. -/
def repaired : List Move :=
  [.send 1000, .update [(SeqNumber.new 300, SeqNumber.new 301), (SeqNumber.new 310, SeqNumber.new 311),
    (SeqNumber.new 320, SeqNumber.new 321), (SeqNumber.new 330, SeqNumber.new 331)], .repair 300 300]

theorem next_seg_exact_repaired :
    holes.nextSeg (SeqNumber.new 4294967290) (SeqNumber.new 60) 10 = some (SeqNumber.new 4294967290, false) ∧
      ∃ e e', Run.run (step (SeqNumber.new 0)) (start Scored.start (SeqNumber.new 1000)) repaired = some e ∧
        e.step (SeqNumber.new 0) (.repair 300 9) = some e' ∧ e'.sent = [(0, 300), (301, 310)] ∧
        ∀ q, 301 ≤ q → q < 310 → ¬ Covers e.sent q := by
  obtain ⟨hpick, hepisode⟩ := next_seg_exact
  constructor
  · refine ((hpick holes (SeqNumber.new 4294967290) (SeqNumber.new 60) 10 holes_wellFormed (by decide)).1 _).mpr ?_
    exact ⟨0, by decide, by decide, by decide, fun j hj => absurd hj (Nat.not_lt_zero j)⟩
  · obtain ⟨e, hr, hsent, hnext⟩ := Run.exists_run (step (SeqNumber.new 0)) (start Scored.start (SeqNumber.new 1000))
      repaired (fun e : Mending => e.sent = [(0, 300)] ∧ ((e.step (SeqNumber.new 0) (.repair 300 9)).any
        fun e' => decide (e'.sent = [(0, 300), (301, 310)])) = true) (by decide +kernel)
    obtain ⟨e', he, hsent'⟩ := (Option.any_eq_true _ _).mp hnext
    have hsent' := of_decide_eq_true hsent'
    refine ⟨e, e', hr, he, hsent', ?_⟩
    obtain ⟨x, hx, -, -, hfresh⟩ := hepisode (SeqNumber.new 0) Scored.start (SeqNumber.new 1000) repaired e
      (Scored.sound_start _) rfl hr 300 9 e' he
    rw [hsent, hsent'] at hx
    have hx' : x = 301 := by simpa using congrArg (fun l : List (Nat × Nat) => (l.getLast?.map (·.1)).getD 0) hx.symm
    rw [hx'] at hfresh
    exact hfresh (by decide +kernel)

/-- Reports of 128 single octets push the higher runs out of the list. -/
def overflowing : List Move :=
  repaired ++ [.repair 300 9] ++
    (List.range 32).map (fun i => .update ((List.range 4).map fun j =>
      (SeqNumber.new (255 - 8 * i - 2 * j), SeqNumber.new (256 - 8 * i - 2 * j)))) ++
    [.update [(SeqNumber.new 0, SeqNumber.new 300), (SeqNumber.new 320, SeqNumber.new 321),
      (SeqNumber.new 330, SeqNumber.new 331), (SeqNumber.new 340, SeqNumber.new 341)], .repair 300 20]

/-- The run at 300 is forgotten, and the repair from there goes over octets 301 to 309 again. -/
theorem hole_sent_twice : ∃ e, Run.run (step (SeqNumber.new 0)) (start Scored.start (SeqNumber.new 1000))
    overflowing = some e ∧ e.sent = [(0, 300), (301, 310), (300, 320)] :=
  Run.exists_run _ _ _ (fun e : Mending => e.sent = [(0, 300), (301, 310), (300, 320)]) (by decide +kernel)

end Mending

end Scoreboard

end Ferrumnet
