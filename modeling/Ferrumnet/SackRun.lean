import Ferrumnet.Lib.Run
import Ferrumnet.SackSet

/-
  The scoreboard as a set of octets, over any sequence of its calls.

  `Scored` is a scoreboard with the window it is driven with, as stream positions over a
  base `b`: only the base is a sequence number, so the positions may pass 2^32 any number
  of times. `octets` is what a run list covers of the window, by the source's own query.

  1. `updateBlock_charts`, `Charts.update_charts` — what a SACK block adds. A block whose
     left edge lies 2^31 or more below SND.NXT adds nothing, although its right edge is in
     the window: it looks like one that acknowledges data never sent (`far_block_ignored`).
  2. `Sound.next` — every call keeps the run lists well formed.
  3. `scoreboard_refines` — and is one on the sets, in every run.
-/

namespace Ferrumnet

namespace Scoreboard

open Intervals

variable {b : SeqNumber} {lo hi q : Nat} {runs : List Run} {l : List (Nat × Nat)}

/-! ## The invariant of the source -/

/-- Every run is non-empty, and consecutive runs have a gap between them. -/
def runListWellFormed : List Run → Bool
  | [] => true
  | [run] => run.1.lt run.2
  | run :: next :: rest => run.1.lt run.2 && run.2.lt next.1 && runListWellFormed (next :: rest)

def invariantsHold (s : Scoreboard) : Bool := runListWellFormed s.sacked && runListWellFormed s.rexmit

theorem runListWellFormed_place (near : hi < lo + 2147483648) : ∀ l : List (Nat × Nat), Spaced l →
    Inside lo hi l → runListWellFormed (l.map (place b)) = true := by
  intro l
  induction l with
  | nil => intro _ _; rfl
  | cons i l ih =>
    intro hs hin
    have h1 := hs.nonempty i List.mem_cons_self
    have h2 := hin i List.mem_cons_self
    have hlt : (b + i.1).lt (b + i.2) = true := by
      rw [SeqNumber.pos_lt b (by omega) (by omega), decide_eq_true_eq]
      exact h1
    cases l with
    | nil => exact hlt
    | cons j l =>
      have h3 := (List.pairwise_cons.mp hs.apart).1 j List.mem_cons_self
      have h4 := hin j (List.mem_cons_of_mem i List.mem_cons_self)
      have h5 := hs.nonempty j (List.mem_cons_of_mem i List.mem_cons_self)
      have hgap : (b + i.2).lt (b + j.1) = true := by
        rw [SeqNumber.pos_lt b (by omega) (by omega), decide_eq_true_eq]
        exact h3
      have hrest := ih hs.tail fun k hk => hin k (List.mem_cons_of_mem i hk)
      change ((b + i.1).lt (b + i.2) && (b + i.2).lt (b + j.1) && _) = true
      rw [hlt, hgap]
      exact hrest

theorem Charts.wellFormed (h : Charts b lo hi runs l) : runListWellFormed runs = true := by
  rw [h.runs]
  exact runListWellFormed_place h.near l h.spaced h.inside

/-! ## The octets of a run list -/

/-- The positions of the window that the runs cover. -/
def octets (b : SeqNumber) (lo hi : Nat) (runs : List Run) : Set Nat :=
  {q | lo ≤ q ∧ q < hi ∧ contains runs (b + q) = true}

theorem Charts.octets (h : Charts b lo hi runs l) : octets b lo hi runs = {q | Covers l q} := by
  ext q
  constructor
  · rintro ⟨h1, h2, h3⟩
    rw [h.contains h1 h2.le, decide_eq_true_eq] at h3
    exact h3
  · intro hq
    obtain ⟨h1, h2⟩ := h.inside.covers hq
    refine ⟨h1, h2, ?_⟩
    rw [h.contains h1 h2.le, decide_eq_true_eq]
    exact hq

/-! ## What a SACK block adds -/

/-- The block is taken in: it is not empty, its right edge lies above SND.UNA, and neither
edge lies above SND.NXT. -/
def accepted (sndUna sndNxt : SeqNumber) (block : Run) : Bool :=
  block.1.lt block.2 && block.2.gt sndUna && !block.2.gt sndNxt && !block.1.gt sndNxt

/-- The octets of the accepted blocks, clipped to the window. -/
def offered (b : SeqNumber) (lo hi : Nat) (blocks : List Run) : Set Nat :=
  octets b lo hi (blocks.filter (accepted (b + lo) (b + hi)))

/-- A number above `SND.UNA` and not above `SND.NXT` is a position between them. -/
theorem exists_pos (hle : lo ≤ hi) (near : hi < lo + 2147483648) {e : SeqNumber} (h1 : e.lt (b + lo) = false)
    (h2 : e.gt (b + hi) = false) : ∃ x, lo ≤ x ∧ x ≤ hi ∧ e = b + x := by
  have h1' := mt (SeqNumber.lt_iff e (b + lo)).mpr (by simp [h1])
  have h2' := mt (SeqNumber.gt_iff e (b + hi)).mpr (by simp [h2])
  have hw := SeqNumber.offsetFrom_pos_le b hle (by omega)
  have ht := SeqNumber.offsetFrom_trans e (b + hi) (b + lo)
  have := SeqNumber.offsetFrom_lt e (b + hi)
  refine ⟨lo + e.offsetFrom (b + lo), by omega, by omega, ?_⟩
  rw [← SeqNumber.add_add, SeqNumber.add_offsetFrom]

/-- An accepted block is an interval of what is outstanding. -/
theorem accepted_pos (hle : lo ≤ hi) (near : hi < lo + 2147483648) {block : Run}
    (h : accepted (b + lo) (b + hi) block = true) : ∃ x y, lo ≤ x ∧ x < y ∧ y ≤ hi ∧
      (if block.1.lt (b + lo) = true then b + lo else block.1) = b + x ∧ block.2 = b + y ∧
      ∀ q, lo ≤ q → q < hi → (contains [block] (b + q) = true ↔ x ≤ q ∧ q < y) := by
  simp only [accepted, Bool.and_eq_true, Bool.not_eq_true'] at h
  obtain ⟨⟨⟨hne, hr⟩, hr'⟩, hl'⟩ := h
  have hr1 := (SeqNumber.gt_iff _ _).mp hr
  have hrlt : block.2.lt (b + lo) = false := by
    refine Bool.eq_false_iff.mpr fun hlt => ?_
    have := (SeqNumber.lt_iff _ _).mp hlt
    omega
  obtain ⟨y, hy, hy', he⟩ := exists_pos hle near hrlt hr'
  rw [he] at hne hr
  have hyne : lo < y := by
    rw [SeqNumber.pos_gt b (by omega) (by omega), decide_eq_true_eq] at hr
    exact hr
  have hlast : ∀ q, lo ≤ q → q < hi → ((b + q).lt block.2 = true ↔ q < y) := by
    intro q h1 h2
    rw [he, SeqNumber.pos_lt b (by omega) (by omega), decide_eq_true_eq]
  have hcontains : ∀ q : Nat, (contains [block] (b + q) = true ↔
      (b + q).ge block.1 = true ∧ (b + q).lt block.2 = true) := by
    intro q
    rw [contains, List.any_cons, List.any_nil, Bool.or_false, Bool.and_eq_true]
  by_cases hl : block.1.lt (b + lo) = true
  · refine ⟨lo, y, le_rfl, hyne, hy', by rw [if_pos hl], he, fun q h1 h2 => ?_⟩
    -- the left edge lies below the window, and not so far that it would look above it
    have hge : (b + q).ge block.1 = true := by
      have h3 := (SeqNumber.lt_iff _ _).mp hl
      have h4 := mt (SeqNumber.gt_iff block.1 (b + hi)).mpr (by simp [hl'])
      have h5 := SeqNumber.offsetFrom_pos_le b h1 (by omega)
      have h6 := SeqNumber.offsetFrom_pos_le b hle (by omega)
      have h7 := SeqNumber.offsetFrom_trans (b + q) block.1 (b + lo)
      have h8 := SeqNumber.offsetFrom_trans block.1 (b + hi) (b + lo)
      have := SeqNumber.offsetFrom_lt (b + q) block.1
      have := SeqNumber.offsetFrom_lt block.1 (b + lo)
      have := SeqNumber.offsetFrom_lt block.1 (b + hi)
      rw [SeqNumber.ge_iff]
      omega
    rw [hcontains, hlast q h1 h2, hge]
    simp [h1]
  · obtain ⟨x, hx, hx', he'⟩ := exists_pos hle near (Bool.eq_false_iff.mpr hl) hl'
    rw [he', SeqNumber.pos_lt b (by omega) (by omega), decide_eq_true_eq] at hne
    refine ⟨x, y, hx, hne, hy', by rw [if_neg hl, he'], he, fun q h1 h2 => ?_⟩
    rw [hcontains, hlast q h1 h2, he', SeqNumber.pos_ge b (by omega) (by omega), decide_eq_true_eq]

/-- One block: an accepted one is inserted, any other ignored. -/
theorem updateBlock_charts (h : Charts b lo hi runs l) (hle : lo ≤ hi) (block : Run) :
    ∃ l', Charts b lo hi (updateBlock (b + lo) (b + hi) runs block) l' ∧
      ∀ q, Covers l' q ↔ Covers l q ∨ q ∈ offered b lo hi [block] := by
  by_cases hacc : accepted (b + lo) (b + hi) block = true
  · obtain ⟨x, y, hx, hxy, hy, hleft, hright, hmem⟩ := accepted_pos hle h.near hacc
    have hupdate : updateBlock (b + lo) (b + hi) runs block = Scoreboard.insertRun runs (b + x) (b + y) := by
      have hlt : (b + x).lt (b + y) = true := by
        have := h.near
        rw [SeqNumber.pos_lt b (by omega) (by omega), decide_eq_true_eq]
        exact hxy
      simp only [accepted, Bool.and_eq_true, Bool.not_eq_true'] at hacc
      obtain ⟨⟨⟨h1, h2⟩, h3⟩, h4⟩ := hacc
      simp only [updateBlock, h1, h3, h4, SeqNumber.le_eq, h2, hleft]
      rw [hright] at h1 ⊢
      simp [hlt]
    refine ⟨_, hupdate ▸ h.insertRun hx hxy hy, fun q => ?_⟩
    rw [covers_insert h.spaced hxy.le]
    refine or_congr Iff.rfl ?_
    have hfilter : [block].filter (accepted (b + lo) (b + hi)) = [block] := by
      rw [List.filter_cons, if_pos hacc, List.filter_nil]
    change _ ↔ lo ≤ q ∧ q < hi ∧ contains ([block].filter (accepted (b + lo) (b + hi))) (b + q) = true
    rw [hfilter]
    constructor
    · rintro ⟨h1, h2⟩
      exact ⟨hx.trans h1, h2.trans_le hy, (hmem q (hx.trans h1) (h2.trans_le hy)).mpr ⟨h1, h2⟩⟩
    · rintro ⟨h1, h2, h3⟩
      exact (hmem q h1 h2).mp h3
  · have hskip : updateBlock (b + lo) (b + hi) runs block = runs := by
      by_contra hne
      refine hacc ?_
      simp only [updateBlock] at hne
      simp only [accepted, Bool.and_eq_true, Bool.not_eq_true']
      split at hne
      · exact absurd rfl hne
      rename_i h1
      split at hne
      · exact absurd rfl hne
      rename_i h2
      split at hne
      · exact absurd rfl hne
      rename_i h3
      rw [Bool.not_eq_true', Bool.not_eq_false] at h1
      rw [SeqNumber.le_eq, Bool.not_eq_true', Bool.not_eq_false] at h2
      rw [Bool.or_eq_true, not_or, Bool.not_eq_true, Bool.not_eq_true] at h3
      exact ⟨⟨⟨h1, h2⟩, h3.2⟩, h3.1⟩
    refine ⟨l, by rwa [hskip], fun q => ?_⟩
    have hnone : q ∉ offered b lo hi [block] := by
      rintro ⟨-, -, hq⟩
      rw [List.filter_cons, if_neg hacc] at hq
      cases hq
    rw [or_iff_left hnone]

theorem offered_cons (block : Run) (blocks : List Run) (q : Nat) : q ∈ offered b lo hi (block :: blocks) ↔
    q ∈ offered b lo hi [block] ∨ q ∈ offered b lo hi blocks := by
  have hsplit : (block :: blocks).filter (accepted (b + lo) (b + hi)) =
      [block].filter (accepted (b + lo) (b + hi)) ++ blocks.filter (accepted (b + lo) (b + hi)) :=
    List.filter_append [block] blocks
  change (lo ≤ q ∧ q < hi ∧ contains ((block :: blocks).filter (accepted (b + lo) (b + hi))) (b + q) = true) ↔
    (lo ≤ q ∧ q < hi ∧ contains ([block].filter (accepted (b + lo) (b + hi))) (b + q) = true) ∨
      (lo ≤ q ∧ q < hi ∧ contains (blocks.filter (accepted (b + lo) (b + hi))) (b + q) = true)
  rw [hsplit, contains, List.any_append, Bool.or_eq_true, ← contains, ← contains]
  tauto

/-- The blocks of one ACK, before the cap. -/
theorem foldl_updateBlock_charts (hle : lo ≤ hi) : ∀ (blocks runs : List Run) (l : List (Nat × Nat)),
    Charts b lo hi runs l → ∃ l', Charts b lo hi (blocks.foldl (updateBlock (b + lo) (b + hi)) runs) l' ∧
      ∀ q, Covers l' q ↔ Covers l q ∨ q ∈ offered b lo hi blocks := by
  intro blocks
  induction blocks with
  | nil =>
    intro runs l h
    refine ⟨l, h, fun q => ?_⟩
    have hnone : q ∉ offered b lo hi [] := by
      rintro ⟨-, -, hq⟩
      cases hq
    rw [or_iff_left hnone]
  | cons block blocks ih =>
    intro runs l h
    obtain ⟨l₁, h₁, hq₁⟩ := updateBlock_charts h hle block
    obtain ⟨l₂, h₂, hq₂⟩ := ih _ l₁ h₁
    refine ⟨l₂, h₂, fun q => ?_⟩
    rw [hq₂, hq₁, offered_cons block blocks q, or_assoc]

/-- The cap drops octets from the top, if any. -/
theorem Charts.capped (h : Charts b lo hi runs l) (n : Nat) : ∃ top, top ≤ hi ∧ (runs.length ≤ n → top = hi) ∧
    ∃ l', Charts b lo hi (runs.take n) l' ∧ ∀ q, Covers l' q ↔ Covers l q ∧ q < top := by
  have hlen : runs.length = l.length := by rw [h.runs, List.length_map]
  by_cases hn : n < l.length
  · have hmem := h.bounds (List.getElem_mem hn)
    exact ⟨l[n].1, by omega, fun hle => by omega, l.take n, h.take n, fun q => h.spaced.covers_take hn⟩
  · refine ⟨hi, le_rfl, fun _ => rfl, l, ?_, fun q => ?_⟩
    · rwa [List.take_of_length_le (by omega)]
    · rw [iff_self_and]
      intro hq
      exact (h.inside.covers hq).2

/-- `update` adds what is offered, and the cap then drops octets from the top. -/
theorem update_charts {s : Scoreboard} (h : Charts b lo hi s.sacked l) (hle : lo ≤ hi) (blocks : List Run) :
    ∃ top, top ≤ hi ∧
      ((blocks.foldl (updateBlock (b + lo) (b + hi)) s.sacked).length ≤ maxRuns → top = hi) ∧
      ∃ l', Charts b lo hi (s.update (b + lo) (b + hi) blocks).sacked l' ∧
        ∀ q, Covers l' q ↔ (Covers l q ∨ q ∈ offered b lo hi blocks) ∧ q < top := by
  obtain ⟨l₁, h₁, hq₁⟩ := foldl_updateBlock_charts hle blocks s.sacked l h
  obtain ⟨top, htop, hall, l₂, h₂, hq₂⟩ := h₁.capped maxRuns
  refine ⟨top, htop, hall, l₂, h₂, fun q => ?_⟩
  rw [hq₂, hq₁]

/-! ## Sequences of calls -/

/-- A scoreboard and the window it is driven with, as positions over a base. -/
structure Scored where
  board : Scoreboard
  una : Nat
  nxt : Nat
  deriving DecidableEq, Repr

/-- The calls. SND.UNA moves with `trim`, as the connection moves it, and what is marked
as retransmitted is outstanding. -/
inductive Op where
  | update (blocks : List Run)
  | trim (una : Nat)
  | send (nxt : Nat)
  | markRexmit (x y : Nat)
  | begin (recoveryPoint : SeqNumber)
  | setRescueDone
  | exit
  | onRto
  deriving DecidableEq, Repr

namespace Scored

def start : Scored := ⟨Scoreboard.new, 0, 0⟩

def sndUna (b : SeqNumber) (s : Scored) : SeqNumber := b + s.una
def sndNxt (b : SeqNumber) (s : Scored) : SeqNumber := b + s.nxt

/-- One call; the numbers are monotone, and the window stays below 2^31. -/
def step (b : SeqNumber) (s : Scored) : Op → Option Scored
  | .update blocks => some { s with board := s.board.update (s.sndUna b) (s.sndNxt b) blocks }
  | .trim una => if s.una ≤ una ∧ una ≤ s.nxt then some { s with board := s.board.trim (b + una), una := una } else none
  | .send nxt => if s.nxt ≤ nxt ∧ nxt < s.una + 2147483648 then some { s with nxt := nxt } else none
  | .markRexmit x y =>
    if s.una ≤ x ∧ x ≤ s.nxt ∧ s.una ≤ y ∧ y ≤ s.nxt then
      some { s with board := s.board.markRexmit (b + x) (b + y) }
    else none
  | .begin recoveryPoint => some { s with board := s.board.beginRecovery recoveryPoint }
  | .setRescueDone => some { s with board := s.board.setRescueDone }
  | .exit => some { s with board := s.board.exitRecovery }
  | .onRto => some { s with board := s.board.onRto }

def sackedOctets (b : SeqNumber) (s : Scored) : Set Nat := octets b s.una s.nxt s.board.sacked
def rexmitOctets (b : SeqNumber) (s : Scored) : Set Nat := octets b s.una s.nxt s.board.rexmit

/-- Both run lists are sorted, non-empty, disjoint with gaps, and inside the window. -/
structure Sound (b : SeqNumber) (s : Scored) : Prop where
  holds : s.board.invariantsHold = true
  sacked : ∃ l, Charts b s.una s.nxt s.board.sacked l
  rexmit : ∃ l, Charts b s.una s.nxt s.board.rexmit l
  window : s.una ≤ s.nxt

/-- What a call does to the sets. -/
def Refines (b : SeqNumber) (s s' : Scored) : Op → Prop
  | .update blocks =>
    (∃ top, top ≤ s.nxt ∧
      ((blocks.foldl (updateBlock (s.sndUna b) (s.sndNxt b)) s.board.sacked).length ≤ maxRuns → top = s.nxt) ∧
      s'.sackedOctets b = {q | q ∈ s.sackedOctets b ∪ offered b s.una s.nxt blocks ∧ q < top}) ∧
    s'.rexmitOctets b = s.rexmitOctets b
  | .trim una =>
    s'.sackedOctets b = {q | q ∈ s.sackedOctets b ∧ una ≤ q} ∧
      s'.rexmitOctets b = {q | q ∈ s.rexmitOctets b ∧ una ≤ q}
  | .markRexmit x y =>
    s'.sackedOctets b = s.sackedOctets b ∧ s'.rexmitOctets b = s.rexmitOctets b ∪ Set.Ico x y
  | .exit | .onRto => s'.sackedOctets b = s.sackedOctets b ∧ s'.rexmitOctets b = ∅
  | .send _ | .begin _ | .setRescueDone =>
    s'.sackedOctets b = s.sackedOctets b ∧ s'.rexmitOctets b = s.rexmitOctets b

variable {s s' : Scored} {ls lr : List (Nat × Nat)}

/-- Lists that chart both run lists make a sound scoreboard. -/
theorem sound_of_charts (h1 : Charts b s.una s.nxt s.board.sacked ls)
    (h2 : Charts b s.una s.nxt s.board.rexmit lr) (hle : s.una ≤ s.nxt) : s.Sound b := by
  refine ⟨?_, ⟨ls, h1⟩, ⟨lr, h2⟩, hle⟩
  rw [invariantsHold, h1.wellFormed, h2.wellFormed]
  rfl

theorem sound_start (b : SeqNumber) : start.Sound b :=
  sound_of_charts (charts_nil (by decide)) (charts_nil (by decide)) le_rfl

/-- One call, on both lists at once. -/
theorem Sound.next (h : s.Sound b) {op : Op} (he : step b s op = some s') :
    s'.Sound b ∧ Refines b s s' op := by
  obtain ⟨ls, hs⟩ := h.sacked
  obtain ⟨lr, hr⟩ := h.rexmit
  have hle := h.window
  have hso : s.sackedOctets b = {q | Covers ls q} := hs.octets
  have hro : s.rexmitOctets b = {q | Covers lr q} := hr.octets
  have hnone : Charts b s.una s.nxt [] [] := charts_nil hs.near
  cases op with
  | update blocks =>
    cases he
    obtain ⟨top, htop, hall, l', h', hq⟩ := update_charts hs hle blocks
    refine ⟨sound_of_charts h' hr hle, ⟨top, htop, hall, ?_⟩, rfl⟩
    change octets b s.una s.nxt (s.board.update (s.sndUna b) (s.sndNxt b) blocks).sacked = _
    rw [hso, sndUna, sndNxt, h'.octets]
    ext q
    exact hq q
  | trim una =>
    simp only [step] at he
    split at he
    · rename_i hmove
      cases he
      have hs' := hs.trimRuns hmove.1 hmove.2
      have hr' := hr.trimRuns hmove.1 hmove.2
      refine ⟨sound_of_charts hs' hr' hmove.2, ?_, ?_⟩
      · change octets b una s.nxt (trimRuns s.board.sacked (b + una)) = _
        rw [hso, hs'.octets]
        ext q
        exact covers_clip.trans and_comm
      · change octets b una s.nxt (trimRuns s.board.rexmit (b + una)) = _
        rw [hro, hr'.octets]
        ext q
        exact covers_clip.trans and_comm
    · cases he
  | send nxt =>
    simp only [step] at he
    split at he
    · rename_i hmove
      cases he
      have hs' := hs.grow hmove.1 hmove.2
      have hr' := hr.grow hmove.1 hmove.2
      refine ⟨sound_of_charts hs' hr' (hle.trans hmove.1), ?_, ?_⟩
      · rw [hso]
        exact hs'.octets
      · rw [hro]
        exact hr'.octets
    · cases he
  | markRexmit x y =>
    simp only [step] at he
    split at he
    · rename_i hin
      cases he
      by_cases hxy : x < y
      · have hr' := hr.insertRun hin.1 hxy hin.2.2.2
        have hmark : s.board.markRexmit (b + x) (b + y) =
            { s.board with rexmit := insertRun s.board.rexmit (b + x) (b + y) } := by
          have := hr.near
          rw [markRexmit, SeqNumber.pos_lt b (by omega) (by omega), decide_eq_true hxy, if_pos rfl]
        refine ⟨sound_of_charts (by rw [hmark]; exact hs) (by rw [hmark]; exact hr') hle, ?_, ?_⟩
        · rw [hmark]
          rfl
        · rw [hmark, hro]
          change octets b s.una s.nxt (insertRun s.board.rexmit (b + x) (b + y)) = _
          rw [hr'.octets]
          ext q
          exact covers_insert hr.spaced hxy.le
      · have hsame : s.board.markRexmit (b + x) (b + y) = s.board := by
          have := hr.near
          rw [markRexmit, SeqNumber.pos_lt b (by omega) (by omega), decide_eq_false hxy]
          rfl
        rw [hsame]
        refine ⟨h, rfl, ?_⟩
        rw [Set.Ico_eq_empty hxy, Set.union_empty]
    · cases he
  | begin recoveryPoint =>
    cases he
    exact ⟨sound_of_charts hs hr hle, rfl, rfl⟩
  | setRescueDone =>
    cases he
    exact ⟨sound_of_charts hs hr hle, rfl, rfl⟩
  | exit =>
    cases he
    refine ⟨sound_of_charts hs hnone hle, rfl, ?_⟩
    refine hnone.octets.trans ?_
    ext q
    simp [not_covers_nil]
  | onRto =>
    cases he
    refine ⟨sound_of_charts hs hnone hle, rfl, ?_⟩
    refine hnone.octets.trans ?_
    ext q
    simp [not_covers_nil]

/-- After every sequence of calls both lists are well formed, and every further call is
one on the sets of octets. -/
theorem scoreboard_refines {ops : List Op} (hr : Run.run (step b) start ops = some s) :
    s.Sound b ∧ ∀ op s', step b s op = some s' → Refines b s s' op := by
  have hsound : s.Sound b :=
    Run.run_invariant (I := Sound b) (fun _ _ _ h he => (h.next he).1) (sound_start b) hr
  exact ⟨hsound, fun op s' he => (hsound.next he).2⟩

/-- Two ranges are reported over the wrap of the sequence space, the first hole is
retransmitted, and the first range is acknowledged in part. -/
def wrapped : List Op :=
  [.send 100, .update [(SeqNumber.new 4294967290, SeqNumber.new 4), (SeqNumber.new 14, SeqNumber.new 24)],
    .markRexmit 0 6, .trim 12]

theorem scoreboard_refines_wrapped : ∃ s : Scored,
    Run.run (step (SeqNumber.new 4294967280)) start wrapped = some s ∧
      s.board.sacked = [(SeqNumber.new 4294967292, SeqNumber.new 4), (SeqNumber.new 14, SeqNumber.new 24)] ∧
      s.Sound (SeqNumber.new 4294967280) := by
  obtain ⟨s, hr, hs⟩ := Run.exists_run (step (SeqNumber.new 4294967280)) start wrapped
    (fun s => s.board.sacked = [(SeqNumber.new 4294967292, SeqNumber.new 4), (SeqNumber.new 14, SeqNumber.new 24)])
    (by decide +kernel)
  exact ⟨s, hr, hs, (scoreboard_refines hr).1⟩

/-- A block from 2^31 - 51 below SND.UNA to 50 above it. -/
def farBlock : Run := (SeqNumber.new 2147483699, SeqNumber.new 50)

/-- Its right edge is in the window and its left edge below the right one; but the left
edge looks as if it lay above SND.NXT, and nothing is added. -/
theorem far_block_ignored : ∃ s s' : Scored,
    Run.run (step (SeqNumber.new 0)) start [.send 100] = some s ∧
      step (SeqNumber.new 0) s (.update [farBlock]) = some s' ∧
      farBlock.2.gt (s.sndUna (SeqNumber.new 0)) = true ∧ farBlock.2.le (s.sndNxt (SeqNumber.new 0)) = true ∧
      farBlock.1.lt farBlock.2 = true ∧ contains [farBlock] (SeqNumber.new 49) = true ∧
      s'.board.isSacked (SeqNumber.new 49) = false := by
  refine ⟨_, _, rfl, rfl, ?_⟩
  decide

end Scored

end Scoreboard

end Ferrumnet
