import Ferrumnet.Seq

/-
  Sender-side SACK scoreboard (`sack.rs`): the two run lists and the RFC 6675
  predicates derived from them.

  `sacked` holds the ranges the peer has selectively acknowledged, `rexmit` the
  ranges retransmitted in the current recovery episode. The walks over
  `[SND.UNA, SND.NXT)` take the distance left as fuel: every step moves right.
-/

namespace Ferrumnet

/-- A half-open range `[left, right)` of sequence numbers. -/
abbrev Run := SeqNumber × SeqNumber

/-- RFC 5681 / RFC 6675 duplicate-ACK threshold. -/
def dupThresh : Nat := 3

/-- Cap on the stored runs. -/
def maxRuns : Nat := 128

structure Scoreboard where
  sacked : List Run
  rexmit : List Run
  /-- `some` iff in SACK-based recovery. -/
  recoveryPoint : Option SeqNumber
  rescueDone : Bool
  deriving DecidableEq, Repr

namespace Scoreboard

def new : Scoreboard := ⟨[], [], none, false⟩

/-- What the scan of `insert_run` has collected. -/
structure Merge where
  left : SeqNumber
  right : SeqNumber
  first : Nat
  count : Nat

/-- One iteration of the scan. The widened `[left, right)` is what the next
run is tested against. -/
def mergeStep (m : Merge) (entry : Run × Nat) : Merge :=
  let (rl, rr) := entry.1
  if rl.le m.right && m.left.le rr then
    { left := if rl.lt m.left then rl else m.left
      right := if rr.gt m.right then rr else m.right
      first := if m.count = 0 then entry.2 else m.first
      count := m.count + 1 }
  else m

/-- Insert `[l, r)` into a sorted run list, coalescing with the runs it
overlaps or touches. -/
def insertRun (runs : List Run) (l r : SeqNumber) : List Run :=
  let m := runs.zipIdx.foldl mergeStep { left := l, right := r, first := runs.length, count := 0 }
  let rest := runs.take m.first ++ runs.drop (m.first + m.count)
  let pos := (rest.findIdx? fun run => m.left.lt run.1).getD rest.length
  rest.take pos ++ [(m.left, m.right)] ++ rest.drop pos

/-- Drop the runs at or below `sndUna` and clip a straddling one to it. -/
def trimRuns (runs : List Run) (sndUna : SeqNumber) : List Run :=
  (runs.filter fun run => run.2.gt sndUna).map fun run =>
    if run.1.lt sndUna then (sndUna, run.2) else run

/-! ## Recovery-episode bookkeeping -/

def inRecovery (s : Scoreboard) : Bool := s.recoveryPoint.isSome

def beginRecovery (s : Scoreboard) (recoveryPoint : SeqNumber) : Scoreboard :=
  { s with recoveryPoint := some recoveryPoint, rescueDone := false }

def recoveryReached (s : Scoreboard) (sndUna : SeqNumber) : Bool :=
  match s.recoveryPoint with
  | some rp => sndUna.ge rp
  | none => false

def exitRecovery (s : Scoreboard) : Scoreboard :=
  { s with recoveryPoint := none, rexmit := [], rescueDone := false }

/-- A retransmission timeout abandons recovery and keeps the SACKed set. -/
def onRto (s : Scoreboard) : Scoreboard :=
  { s with rexmit := [], recoveryPoint := none, rescueDone := false }

/-! ## Updates from the wire and from the sender -/

/-- One SACK block: rejected when empty, stale or covering unsent data, else
clipped to `sndUna` and inserted. -/
def updateBlock (sndUna sndNxt : SeqNumber) (sacked : List Run) (block : Run) : List Run :=
  let (l, r) := block
  if !l.lt r then sacked
  else if r.le sndUna then sacked
  else if l.gt sndNxt || r.gt sndNxt then sacked
  else
    let l := if l.lt sndUna then sndUna else l
    if l.lt r then insertRun sacked l r else sacked

/-- Apply parsed SACK blocks; past the cap the highest runs are dropped. -/
def update (s : Scoreboard) (sndUna sndNxt : SeqNumber) (blocks : List Run) : Scoreboard :=
  { s with sacked := (blocks.foldl (updateBlock sndUna sndNxt) s.sacked).take maxRuns }

def trim (s : Scoreboard) (sndUna : SeqNumber) : Scoreboard :=
  { s with sacked := trimRuns s.sacked sndUna, rexmit := trimRuns s.rexmit sndUna }

def markRexmit (s : Scoreboard) (l r : SeqNumber) : Scoreboard :=
  if l.lt r then { s with rexmit := insertRun s.rexmit l r } else s

def setRescueDone (s : Scoreboard) : Scoreboard := { s with rescueDone := true }

/-! ## Interval queries -/

def contains (runs : List Run) (seq : SeqNumber) : Bool :=
  runs.any fun run => seq.ge run.1 && seq.lt run.2

def isSacked (s : Scoreboard) (seq : SeqNumber) : Bool := contains s.sacked seq
def isRexmit (s : Scoreboard) (seq : SeqNumber) : Bool := contains s.rexmit seq

def highestSackedEdge (s : Scoreboard) : Option SeqNumber := s.sacked.getLast?.map (·.2)

/-- Move `b` down to an edge that lies above `seq` and below it. -/
def nearer (seq b edge : SeqNumber) : SeqNumber := if edge.gt seq && edge.lt b then edge else b

/-- The next sequence number above `seq`, at or below `limit`, at which sacked
or rexmit membership changes. -/
def nextBoundary (s : Scoreboard) (seq limit : SeqNumber) : SeqNumber :=
  (s.sacked ++ s.rexmit).foldl (fun b run => nearer seq (nearer seq b run.1) run.2) limit

/-- Length of the unsacked span starting at `seq`. -/
def unsackedRunLen (s : Scoreboard) (seq limit : SeqNumber) : Nat :=
  let stop := s.sacked.foldl (fun b run => nearer seq b run.1) limit
  if stop.le seq then 0 else stop.offsetFrom seq

/-! ## RFC 6675 predicates -/

def isLost (s : Scoreboard) (seq : SeqNumber) (smss : Nat) : Bool :=
  let above := s.sacked.filter fun run => run.1.gt seq
  let bytesAbove := (above.map fun run => run.2.offsetFrom run.1).sum
  above.length ≥ dupThresh || bytesAbove > (dupThresh - 1) * smss

/-- The walk of `pipe`: spans of uniform status, from `seq` to `sndNxt`. -/
def pipeLoop (s : Scoreboard) (sndNxt : SeqNumber) (smss : Nat) : Nat → SeqNumber → Nat → Nat
  | 0, _, pipe => pipe
  | fuel + 1, seq, pipe =>
    if seq.lt sndNxt then
      let stop := s.nextBoundary seq sndNxt
      let counts := !s.isSacked seq && (s.isRexmit seq || !s.isLost seq smss)
      s.pipeLoop sndNxt smss fuel stop (if counts then pipe + stop.offsetFrom seq else pipe)
    else pipe

/-- RFC 6675 `SetPipe`: the estimated number of bytes outstanding in the path. -/
def pipe (s : Scoreboard) (sndUna sndNxt : SeqNumber) (smss : Nat) : Nat :=
  s.pipeLoop sndNxt smss (sndNxt.offsetFrom sndUna) sndUna 0

/-- The walk of `next_seg`: the first span start that satisfies `good`. -/
def findLoop (s : Scoreboard) (sndNxt : SeqNumber) (good : SeqNumber → Bool) :
    Nat → SeqNumber → Option SeqNumber
  | 0, _ => none
  | fuel + 1, seq =>
    if seq.lt sndNxt then
      if good seq then some seq
      else s.findLoop sndNxt good fuel (s.nextBoundary seq sndNxt)
    else none

/-- RFC 6675 `NextSeg`: the lowest lost hole not yet retransmitted, else once
per episode the lowest hole below the highest SACKed edge (`true`: a rescue). -/
def nextSeg (s : Scoreboard) (sndUna sndNxt : SeqNumber) (smss : Nat) : Option (SeqNumber × Bool) :=
  let fuel := sndNxt.offsetFrom sndUna
  let lost := s.findLoop sndNxt
    (fun seq => !s.isSacked seq && !s.isRexmit seq && s.isLost seq smss) fuel sndUna
  match lost with
  | some seq => some (seq, false)
  | none =>
    if s.rescueDone then none
    else
      match s.highestSackedEdge with
      | none => none
      | some high =>
        (s.findLoop sndNxt
          (fun seq => !s.isSacked seq && !s.isRexmit seq && seq.lt high) fuel sndUna).map (·, true)

/-! ## Where the walks stay -/

section Walks

variable (s : Scoreboard) {una nxt seq limit : SeqNumber}

/-- An edge between `seq` and `b` is closer to `seq` than `b` is. -/
theorem nearer_spec {b : SeqNumber} (edge : SeqNumber) (hpos : 0 < b.offsetFrom seq)
    (hb : b.offsetFrom seq < 2147483648) :
    0 < (nearer seq b edge).offsetFrom seq ∧
      (nearer seq b edge).offsetFrom seq ≤ b.offsetFrom seq := by
  unfold nearer
  split
  · rename_i h
    rw [Bool.and_eq_true, SeqNumber.gt_iff, SeqNumber.lt_iff] at h
    have ht := SeqNumber.offsetFrom_trans edge b seq
    have := SeqNumber.offsetFrom_lt edge b
    omega
  · exact ⟨hpos, le_rfl⟩

/-- Folding `nearer` over any edges stays between `seq` and `limit`. -/
theorem foldl_nearer {α : Type} (step : SeqNumber → α → SeqNumber)
    (hstep : ∀ b a, 0 < b.offsetFrom seq → b.offsetFrom seq < 2147483648 →
      0 < (step b a).offsetFrom seq ∧ (step b a).offsetFrom seq ≤ b.offsetFrom seq)
    (l : List α) (hpos : 0 < limit.offsetFrom seq) (hlim : limit.offsetFrom seq < 2147483648) :
    0 < (l.foldl step limit).offsetFrom seq ∧
      (l.foldl step limit).offsetFrom seq ≤ limit.offsetFrom seq := by
  induction l generalizing limit with
  | nil => exact ⟨hpos, le_rfl⟩
  | cons a l ih =>
    obtain ⟨h1, h2⟩ := hstep limit a hpos hlim
    obtain ⟨h3, h4⟩ := ih h1 (by omega)
    exact ⟨h3, h4.trans h2⟩

theorem nextBoundary_spec (seq limit : SeqNumber) (hpos : 0 < limit.offsetFrom seq)
    (hlim : limit.offsetFrom seq < 2147483648) :
    0 < (s.nextBoundary seq limit).offsetFrom seq ∧
      (s.nextBoundary seq limit).offsetFrom seq ≤ limit.offsetFrom seq := by
  refine foldl_nearer _ (fun b run h1 h2 => ?_) _ hpos hlim
  obtain ⟨h3, h4⟩ := nearer_spec run.1 h1 h2
  obtain ⟨h5, h6⟩ := nearer_spec run.2 h3 (by omega)
  exact ⟨h5, h6.trans h4⟩

theorem unsackedRunLen_le (seq limit : SeqNumber) (hpos : 0 < limit.offsetFrom seq)
    (hlim : limit.offsetFrom seq < 2147483648) :
    s.unsackedRunLen seq limit ≤ limit.offsetFrom seq := by
  have h := foldl_nearer (fun b (run : Run) => nearer seq b run.1)
    (fun b run h1 h2 => nearer_spec run.1 h1 h2) s.sacked hpos hlim
  unfold unsackedRunLen
  dsimp only
  split
  · omega
  · exact h.2

/-- Below `nxt` in serial order means below it as an offset from `una`. -/
theorem offset_lt_of_lt (hw : nxt.offsetFrom una < 2147483648)
    (hk : seq.offsetFrom una ≤ nxt.offsetFrom una) (h : seq.lt nxt = true) :
    seq.offsetFrom una < nxt.offsetFrom una ∧
      seq.offsetFrom una + nxt.offsetFrom seq = nxt.offsetFrom una := by
  rw [SeqNumber.lt_iff] at h
  have := SeqNumber.offsetFrom_trans seq nxt una
  have := SeqNumber.offsetFrom_trans nxt seq una
  have := SeqNumber.offsetFrom_lt seq nxt
  have := SeqNumber.offsetFrom_lt nxt seq
  omega

theorem findLoop_spec (good : SeqNumber → Bool) (hw : nxt.offsetFrom una < 2147483648) :
    ∀ (fuel : Nat) (seq r : SeqNumber), seq.offsetFrom una ≤ nxt.offsetFrom una →
      s.findLoop nxt good fuel seq = some r →
      good r = true ∧ r.offsetFrom una < nxt.offsetFrom una ∧
        r.offsetFrom una + nxt.offsetFrom r = nxt.offsetFrom una := by
  intro fuel
  induction fuel with
  | zero => intro seq r _ h; cases h
  | succ fuel ih =>
    intro seq r hk h
    simp only [findLoop] at h
    split at h
    · rename_i hlt
      have ho := offset_lt_of_lt hw hk hlt
      split at h
      · cases h; exact ⟨by assumption, ho⟩
      · obtain ⟨h1, h2⟩ := s.nextBoundary_spec seq nxt (by omega) (by omega)
        refine ih _ r ?_ h
        have := SeqNumber.offsetFrom_trans (s.nextBoundary seq nxt) seq una
        omega
    · cases h

/-- The next segment to repair lies in the window, and so does its hole. -/
theorem nextSeg_spec {smss : Nat} {rescue : Bool} (hw : nxt.offsetFrom una < 2147483648)
    (h : s.nextSeg una nxt smss = some (seq, rescue)) :
    s.isSacked seq = false ∧ s.isRexmit seq = false ∧ (rescue = true → s.rescueDone = false) ∧
      seq.offsetFrom una + s.unsackedRunLen seq nxt ≤ nxt.offsetFrom una := by
  have close : ∀ {good : SeqNumber → Bool} {r : SeqNumber},
      s.findLoop nxt good (nxt.offsetFrom una) una = some r →
      good r = true ∧ r.offsetFrom una + s.unsackedRunLen r nxt ≤ nxt.offsetFrom una := by
    intro good r hf
    obtain ⟨hg, h1, h2⟩ := s.findLoop_spec good hw _ _ _ (by simp) hf
    have := s.unsackedRunLen_le r nxt (by omega) (by omega)
    exact ⟨hg, by omega⟩
  simp only [nextSeg] at h
  split at h
  · rename_i r hf
    cases h
    obtain ⟨hg, hl⟩ := close hf
    simp only [Bool.and_eq_true, Bool.not_eq_true'] at hg
    exact ⟨hg.1.1, hg.1.2, by simp, hl⟩
  · split at h
    · cases h
    · rename_i hr
      split at h
      · cases h
      · obtain ⟨r, hf, he⟩ := Option.map_eq_some_iff.mp h
        cases he
        obtain ⟨hg, hl⟩ := close hf
        simp only [Bool.and_eq_true, Bool.not_eq_true'] at hg
        exact ⟨hg.1.1, hg.1.2, fun _ => by simpa using hr, hl⟩

/-- An edge above `seq` bounds the walk to the nearest one. -/
theorem nearer_le {b : SeqNumber} (edge : SeqNumber) (hpos : 0 < b.offsetFrom seq)
    (hb : b.offsetFrom seq < 2147483648) (he : edge.gt seq = true) :
    (nearer seq b edge).offsetFrom seq ≤ edge.offsetFrom seq := by
  have hedge := (SeqNumber.gt_iff edge seq).mp he
  unfold nearer
  split
  · exact le_rfl
  · rename_i h
    rw [he, Bool.true_and, SeqNumber.lt_iff] at h
    have ht := SeqNumber.offsetFrom_trans edge b seq
    have := SeqNumber.offsetFrom_lt edge b
    omega

theorem foldl_nearer_le : ∀ (runs : List Run) {b : SeqNumber}, 0 < b.offsetFrom seq →
    b.offsetFrom seq < 2147483648 → ∀ run ∈ runs, run.1.gt seq = true →
      (runs.foldl (fun b run => nearer seq b run.1) b).offsetFrom seq ≤ run.1.offsetFrom seq := by
  intro runs
  induction runs with
  | nil => intro b _ _ run hr; cases hr
  | cons head runs ih =>
    intro b hpos hb run hr hgt
    obtain ⟨h1, h2⟩ := nearer_spec head.1 hpos hb
    rcases List.mem_cons.mp hr with rfl | hr
    · obtain ⟨-, h3⟩ := foldl_nearer (fun b (r : Run) => nearer seq b r.1)
        (fun b r h4 h5 => nearer_spec r.1 h4 h5) runs h1 (by omega)
      exact h3.trans (nearer_le run.1 hpos hb hgt)
    · exact ih h1 (by omega) run hr hgt

/-- The hole at `seq` ends where the next sacked run starts. -/
theorem hole_le (hpos : 0 < limit.offsetFrom seq) (hlim : limit.offsetFrom seq < 2147483648) {run : Run}
    (hr : run ∈ s.sacked) (hgt : run.1.gt seq = true) :
    s.unsackedRunLen seq limit ≤ run.1.offsetFrom seq := by
  unfold unsackedRunLen
  dsimp only
  split
  · exact Nat.zero_le _
  · exact foldl_nearer_le s.sacked hpos hlim run hr hgt

end Walks

/-! ## Where the reported ranges start -/

section Edges

variable {una nxt : SeqNumber} {runs : List Run} {l r : SeqNumber} {P : SeqNumber → Prop}

theorem mergeStep_left {m : Merge} (hm : P m.left) (entry : Run × Nat) (he : P entry.1.1) :
    P (mergeStep m entry).left := by
  unfold mergeStep
  dsimp only
  split
  · dsimp only
    split
    · exact he
    · exact hm
  · exact hm

/-- A run that is inserted starts where it or another one did. -/
theorem insertRun_left (h : ∀ run ∈ runs, P run.1) (hl : P l) : ∀ run ∈ insertRun runs l r, P run.1 := by
  have hfold : ∀ (es : List (Run × Nat)) (m : Merge), (∀ e ∈ es, P e.1.1) → P m.left →
      P (es.foldl mergeStep m).left := by
    intro es
    induction es with
    | nil => exact fun m _ hm => hm
    | cons e es ih =>
      intro m hes hm
      exact ih _ (fun e' he' => hes e' (List.mem_cons_of_mem _ he'))
        (mergeStep_left hm e (hes e List.mem_cons_self))
  have hrest : ∀ (i j : Nat), ∀ run ∈ runs.take i ++ runs.drop j, P run.1 := by
    intro i j run hr
    rcases List.mem_append.mp hr with hr | hr
    · exact h run (List.mem_of_mem_take hr)
    · exact h run (List.mem_of_mem_drop hr)
  intro run hr
  simp only [insertRun] at hr
  rw [List.mem_append, List.mem_append, List.mem_singleton] at hr
  rcases hr with (hr | hr) | hr
  · exact hrest _ _ run (List.mem_of_mem_take hr)
  · rw [hr]
    refine hfold _ _ (fun e he => h e.1 ?_) hl
    exact (List.mem_zipIdx' he).2 ▸ List.getElem_mem _
  · exact hrest _ _ run (List.mem_of_mem_drop hr)

/-- Every sacked run starts within `e` octets of `una`. -/
def Starts (s : Scoreboard) (una : SeqNumber) (e : Nat) : Prop :=
  ∀ run ∈ s.sacked, run.1.offsetFrom una ≤ e

/-- A block that is taken in starts at or before `nxt`. -/
theorem updateBlock_starts (hw : nxt.offsetFrom una < 2147483648)
    (h : ∀ run ∈ runs, run.1.offsetFrom una ≤ nxt.offsetFrom una) (block : Run) :
    ∀ run ∈ updateBlock una nxt runs block, run.1.offsetFrom una ≤ nxt.offsetFrom una := by
  obtain ⟨l, r⟩ := block
  simp only [updateBlock]
  split
  · exact h
  split
  · exact h
  split
  · exact h
  rename_i hnxt
  split
  · split
    · refine insertRun_left (P := fun q => q.offsetFrom una ≤ nxt.offsetFrom una) h ?_
      rw [SeqNumber.offsetFrom_self]
      exact Nat.zero_le _
    · exact h
  · rename_i hl
    split
    · refine insertRun_left (P := fun q => q.offsetFrom una ≤ nxt.offsetFrom una) h ?_
      have h1 := mt (SeqNumber.lt_iff l una).mpr hl
      have h2 := mt (SeqNumber.gt_iff l nxt).mpr fun hg => hnxt (by simp [hg])
      have h3 := SeqNumber.offsetFrom_trans l nxt una
      have := SeqNumber.offsetFrom_lt l nxt
      omega
    · exact h

theorem Starts.update {s : Scoreboard} (hw : nxt.offsetFrom una < 2147483648)
    (h : s.Starts una (nxt.offsetFrom una)) (blocks : List Run) :
    (s.update una nxt blocks).Starts una (nxt.offsetFrom una) := by
  have hfold : ∀ (bs runs : List Run), (∀ run ∈ runs, run.1.offsetFrom una ≤ nxt.offsetFrom una) →
      ∀ run ∈ bs.foldl (updateBlock una nxt) runs, run.1.offsetFrom una ≤ nxt.offsetFrom una := by
    intro bs
    induction bs with
    | nil => exact fun _ hr => hr
    | cons b bs ih => exact fun runs hr => ih _ (updateBlock_starts hw hr b)
  intro run hr
  exact hfold blocks s.sacked h run (List.mem_of_mem_take hr)

/-- `SND.UNA` moves up, and the runs are clipped to it. -/
theorem Starts.trim {s : Scoreboard} {una' : SeqNumber} (hw : nxt.offsetFrom una < 2147483648)
    (hle : una'.offsetFrom una + nxt.offsetFrom una' = nxt.offsetFrom una)
    (h : s.Starts una (nxt.offsetFrom una)) : (s.trim una').Starts una' (nxt.offsetFrom una') := by
  intro run hr
  simp only [Scoreboard.trim, trimRuns] at hr
  obtain ⟨run₀, hr₀, he⟩ := List.mem_map.mp hr
  have h₀ := h run₀ (List.mem_filter.mp hr₀).1
  split at he
  · rw [← he]
    dsimp only
    rw [SeqNumber.offsetFrom_self]
    exact Nat.zero_le _
  · rename_i hl
    rw [← he]
    have h1 := mt (SeqNumber.lt_iff run₀.1 una').mpr hl
    have h2 := SeqNumber.offsetFrom_trans run₀.1 una' una
    have := SeqNumber.offsetFrom_lt run₀.1 una'
    omega

/-- What `nextSeg` repairs lies below a sacked run. -/
theorem Starts.nextSeg_run {s : Scoreboard} {smss : Nat} {seq : SeqNumber} {rescue : Bool}
    (h : s.Starts una (nxt.offsetFrom una)) (hw : nxt.offsetFrom una < 2147483648)
    (hn : s.nextSeg una nxt smss = some (seq, rescue)) : ∃ run ∈ s.sacked, run.1.gt seq = true := by
  simp only [nextSeg] at hn
  split at hn
  · -- a lost octet has runs above it
    rename_i r hf
    cases hn
    obtain ⟨hg, -⟩ := s.findLoop_spec _ hw _ _ _ (by simp) hf
    simp only [Bool.and_eq_true, isLost, Bool.or_eq_true, decide_eq_true_eq] at hg
    have hne : s.sacked.filter (fun run => run.1.gt seq) ≠ [] := by
      intro hnil
      rw [hnil] at hg
      rcases hg.2 with hlen | hsum
      · exact absurd hlen (by simp [dupThresh])
      · exact absurd hsum (by simp)
    obtain ⟨run, hrun⟩ := List.exists_mem_of_ne_nil _ hne
    exact ⟨run, (List.mem_filter.mp hrun).1, (List.mem_filter.mp hrun).2⟩
  · split at hn
    · cases hn
    · split at hn
      · cases hn
      · -- an unsacked octet below the right end of the last run lies below that run
        rename_i high hhigh
        obtain ⟨r, hf, he⟩ := Option.map_eq_some_iff.mp hn
        cases he
        obtain ⟨hg, hin, -⟩ := s.findLoop_spec _ hw _ _ _ (by simp) hf
        simp only [Bool.and_eq_true, Bool.not_eq_true'] at hg
        obtain ⟨run, hlast, hright⟩ := Option.map_eq_some_iff.mp hhigh
        have hmem : run ∈ s.sacked := List.mem_of_getLast? hlast
        have hout : contains s.sacked seq = false := hg.1.1
        rw [contains, List.any_eq_false] at hout
        have hnot := hout run hmem
        rw [hright, hg.2, Bool.and_true, SeqNumber.ge_iff] at hnot
        have hstart := h run hmem
        have h1 := SeqNumber.offsetFrom_trans seq run.1 una
        have h2 := SeqNumber.offsetFrom_trans run.1 seq una
        have := SeqNumber.offsetFrom_lt seq run.1
        have := SeqNumber.offsetFrom_lt run.1 seq
        refine ⟨run, hmem, (SeqNumber.gt_iff run.1 seq).mpr ?_⟩
        omega

/-- A repair ends at or below the last start of a sacked run. -/
theorem Starts.repair {s : Scoreboard} {e smss : Nat} {seq : SeqNumber} {rescue : Bool}
    (h : s.Starts una e) (he : e ≤ nxt.offsetFrom una) (hw : nxt.offsetFrom una < 2147483648)
    (hn : s.nextSeg una nxt smss = some (seq, rescue)) :
    seq.offsetFrom una + s.unsackedRunLen seq nxt ≤ e := by
  have hwide : s.Starts una (nxt.offsetFrom una) := fun run hr => (h run hr).trans he
  obtain ⟨run, hmem, hgt⟩ := hwide.nextSeg_run hw hn
  obtain ⟨-, -, -, hle⟩ := s.nextSeg_spec hw hn
  have hstart := h run hmem
  have hgt' := (SeqNumber.gt_iff run.1 seq).mp hgt
  have h1 := SeqNumber.offsetFrom_trans run.1 seq una
  have h2 := SeqNumber.offsetFrom_trans nxt seq una
  have := SeqNumber.offsetFrom_lt nxt seq
  -- the limit lies above the run, and so above `seq`
  have hhole : s.unsackedRunLen seq nxt ≤ run.1.offsetFrom seq := s.hole_le (by omega) (by omega) hmem hgt
  omega

end Edges

end Scoreboard

end Ferrumnet
