import Ferrumnet.Bmc
import Ferrumnet.Gate
import Ferrumnet.SackRun

/-
  The sweep of the scoreboard (`check_scoreboard` of `bmc.rs`): every sequence of calls up to
  a depth, with every edge of the window, from a base of 0 and from one before the wrap.

  The tracked SND.UNA moves with `trim`, and ranges are marked as retransmitted anywhere in
  the window, also below it; so the two run lists have bounds of their own (`Swept`).

  1. `Swept.next` — what every call keeps.
  2. `scoreboard_passes` — the sweep finds nothing, whatever the window and the depth.
-/

namespace Ferrumnet

namespace Bmc

open Scoreboard (Charts)

/-- A call of the scoreboard. -/
inductive Op where
  | update (l r : SeqNumber)
  | rexmit (l r : SeqNumber)
  | trim (t : SeqNumber)
  | begin (rp : SeqNumber)
  | exit
  | rto
  deriving DecidableEq, Repr

/-- All the calls over a window of `n` points, with empty and inverted ranges among them. -/
def scoreboardAlphabet (base : SeqNumber) (n : Nat) (nxt : SeqNumber) : List Op :=
  ((List.range (n + 1)).flatMap fun i => (List.range (n + 1)).flatMap fun j =>
    [.update (base + i) (base + j), .rexmit (base + i) (base + j)]) ++
  (List.range (n + 1)).map (fun t => .trim (base + t)) ++ [.begin nxt, .exit, .rto]

/-- A call, on the board and the tracked SND.UNA. -/
def applyOp (nxt : SeqNumber) (s : Scoreboard × SeqNumber) : Op → Scoreboard × SeqNumber
  | .update l r => (s.1.update s.2 nxt [(l, r)], s.2)
  | .rexmit l r => (s.1.markRexmit l r, s.2)
  | .trim t =>
    let una := if t.gt s.2 && t.le nxt then t else s.2
    (s.1.trim una, una)
  | .begin rp => (s.1.beginRecovery rp, s.2)
  | .exit => (s.1.exitRecovery, s.2)
  | .rto => (s.1.onRto, s.2)

def scoreboardInvariants (sb : Scoreboard) (una nxt : SeqNumber) (smss : Nat) : Except String Unit :=
  let inflight := nxt.offsetFrom una
  let pipe := sb.pipe una nxt smss
  let u := una.raw.toNat
  let n := nxt.raw.toNat
  if !sb.invariantsHold then .error "run list is not sorted/disjoint/non-empty"
  else if pipe > inflight then .error s!"pipe {pipe} exceeds inflight {inflight} (una={u}, nxt={n})"
  else
    match sb.nextSeg una nxt smss with
    | some (seq, _) =>
      let q := seq.raw.toNat
      if !(seq.ge una && seq.lt nxt) then .error s!"next_seg {q} outside [{u}, {n})"
      else if sb.isSacked seq || sb.isRexmit seq then .error s!"next_seg {q} is already sacked or rexmit"
      else .ok ()
    | none => .ok ()

/-- The board, SND.UNA, SND.NXT and the segment size. -/
abbrev Invariant := Scoreboard → SeqNumber → SeqNumber → Nat → Except String Unit

/-- What is fixed for a whole sweep. -/
structure Sweep where
  alphabet : List Op
  nxt : SeqNumber
  smss : Nat
  inv : Invariant

/-- The verdict after a call. -/
def Sweep.verdict (ctx : Sweep) (s : Scoreboard × SeqNumber) (op : Op) : Except String Unit :=
  let next := applyOp ctx.nxt s op
  ctx.inv next.1 next.2 ctx.nxt ctx.smss

def explore (ctx : Sweep) : Nat → Scoreboard × SeqNumber → BmcReport → BmcReport
  | 0, _, report => report
  | depth + 1, s, report =>
    ctx.alphabet.foldl (fun report op => explore ctx depth (applyOp ctx.nxt s op) (report.check (ctx.verdict s op)))
      report

/-- The sweep at one base. -/
def sweepAt (n smss : Nat) (inv : Invariant) (base : SeqNumber) : Sweep :=
  { alphabet := scoreboardAlphabet base n (base + n), nxt := base + n, smss := smss, inv := inv }

/-- From a base of 0 and from one before the wrap. -/
def runScoreboardSweep (n depth smss : Nat) (inv : Invariant) : BmcReport :=
  [SeqNumber.new 0, SeqNumber.new (4294967295 - n)].foldl
    (fun report base => explore (sweepAt n smss inv base) depth (Scoreboard.new, base) report) .default

def checkScoreboard (n depth smss : Nat) : BmcReport := runScoreboardSweep n depth smss scoreboardInvariants

theorem explore_eq_walk (ctx : Sweep) (depth : Nat) (s : Scoreboard × SeqNumber) (r : BmcReport) :
    explore ctx depth s r =
      Sweep.walk ctx.alphabet (applyOp ctx.nxt) (fun r s op => r.check (ctx.verdict s op)) depth s r := by
  induction depth generalizing s r with
  | zero => rfl
  | succ depth ih =>
    rw [explore, Sweep.walk]
    congr 1
    funext r op
    exact ih _ _

/-! ## What every call keeps -/

variable {b : SeqNumber} {n smss depth : Nat}

/-- SND.UNA is in the window; what is SACKed lies between it and SND.NXT, and what is marked
as retransmitted anywhere in the window. -/
structure Swept (b : SeqNumber) (n : Nat) (s : Scoreboard × SeqNumber) : Prop where
  una : ∃ u ≤ n, s.2 = b + u ∧ ∃ ls, Charts b u n s.1.sacked ls
  rexmit : ∃ lr, Charts b 0 n s.1.rexmit lr

theorem swept_new (hn : n < 2147483648) : Swept b n (Scoreboard.new, b) := by
  have hnear : n < 0 + 2147483648 := by omega
  have hzero : b = b + 0 := by simp
  exact ⟨⟨0, Nat.zero_le _, hzero, [], Scoreboard.charts_nil hnear⟩, [], Scoreboard.charts_nil hnear⟩

/-- The points of the window are compared as they stand. -/
theorem points_lt (hn : n < 2147483648) {i j : Nat} (hi : i ≤ n) (hj : j ≤ n) :
    (b + i).lt (b + j) = decide (i < j) ∧ (b + i).gt (b + j) = decide (j < i) ∧ (b + i).le (b + j) = decide (i ≤ j) :=
  ⟨SeqNumber.pos_lt b (by omega) (by omega), SeqNumber.pos_gt b (by omega) (by omega),
    SeqNumber.pos_le b (by omega) (by omega)⟩

theorem Swept.next (hn : n < 2147483648) {s : Scoreboard × SeqNumber} (h : Swept b n s) :
    ∀ op ∈ scoreboardAlphabet b n (b + n), Swept b n (applyOp (b + n) s op) := by
  obtain ⟨sb, una⟩ := s
  obtain ⟨⟨u, hu, rfl, ls, hs⟩, lr, hr⟩ := h
  have hnone : Charts b 0 n [] [] := Scoreboard.charts_nil (by omega)
  intro op hop
  simp only [scoreboardAlphabet, List.mem_append, List.mem_flatMap, List.mem_map, List.mem_range, List.mem_cons,
    List.not_mem_nil, or_false] at hop
  obtain (⟨i, hi, j, hj, rfl | rfl⟩ | ⟨t, ht, rfl⟩) | rfl | rfl | rfl := hop
  · obtain ⟨l', h'⟩ := hs.update hu [(b + i, b + j)]
    exact ⟨⟨u, hu, rfl, l', h'⟩, lr, hr⟩
  · have hlt := (points_lt (b := b) hn (Nat.lt_succ_iff.mp hi) (Nat.lt_succ_iff.mp hj)).1
    show Swept b n (sb.markRexmit (b + i) (b + j), b + u)
    rw [Scoreboard.markRexmit, hlt]
    by_cases hij : i < j
    · rw [if_pos (decide_eq_true hij)]
      exact ⟨⟨u, hu, rfl, ls, hs⟩, _, hr.insertRun (Nat.zero_le _) hij (Nat.lt_succ_iff.mp hj)⟩
    · rw [if_neg (by simpa using hij)]
      exact ⟨⟨u, hu, rfl, ls, hs⟩, lr, hr⟩
  · obtain ⟨-, hgt, -⟩ := points_lt (b := b) hn (Nat.lt_succ_iff.mp ht) hu
    obtain ⟨-, -, hle⟩ := points_lt (b := b) hn (Nat.lt_succ_iff.mp ht) (le_refl n)
    -- SND.UNA goes to a point above it, if that is the one
    obtain ⟨v, huv, hv, he⟩ : ∃ v, u ≤ v ∧ v ≤ n ∧
        (if (b + t).gt (b + u) && (b + t).le (b + n) then b + t else b + u) = b + v := by
      rw [hgt, hle]
      by_cases hmove : u < t ∧ t ≤ n
      · rw [decide_eq_true hmove.1, decide_eq_true hmove.2]
        exact ⟨t, hmove.1.le, hmove.2, rfl⟩
      · refine ⟨u, le_rfl, hu, if_neg ?_⟩
        rw [Bool.and_eq_true, decide_eq_true_eq, decide_eq_true_eq]
        exact hmove
    show Swept b n (sb.trim _, _)
    rw [he]
    have hr' := hr.trimRuns (Nat.zero_le v) hv
    exact ⟨⟨v, hv, rfl, _, hs.trimRuns huv hv⟩, _, hr'.runs, hr'.spaced, hr'.inside.mono (Nat.zero_le _) le_rfl, by omega⟩
  · exact ⟨⟨u, hu, rfl, ls, hs⟩, lr, hr⟩
  · exact ⟨⟨u, hu, rfl, ls, hs⟩, [], hnone⟩
  · exact ⟨⟨u, hu, rfl, ls, hs⟩, [], hnone⟩

/-! ## What a board in the window passes -/

/-- A hole that is proposed lies in the window. -/
theorem nextSeg_inside {sb : Scoreboard} {una nxt seq : SeqNumber} {rescue : Bool}
    (hw : nxt.offsetFrom una < 2147483648) (h : sb.nextSeg una nxt smss = some (seq, rescue)) :
    seq.offsetFrom una < nxt.offsetFrom una ∧ seq.offsetFrom una + nxt.offsetFrom seq = nxt.offsetFrom una := by
  have hfind : ∀ {good : SeqNumber → Bool} {r}, sb.findLoop nxt good (nxt.offsetFrom una) una = some r →
      r.offsetFrom una < nxt.offsetFrom una ∧ r.offsetFrom una + nxt.offsetFrom r = nxt.offsetFrom una := by
    intro good r hf
    exact (sb.findLoop_spec good hw _ una r (by simp) hf).2
  simp only [Scoreboard.nextSeg] at h
  split at h
  · rename_i r hf
    cases h
    exact hfind hf
  · split at h
    · cases h
    · split at h
      · cases h
      · obtain ⟨r, hf, he⟩ := Option.map_eq_some_iff.mp h
        cases he
        exact hfind hf

theorem Swept.passes (hn : n < 2147483648) {s : Scoreboard × SeqNumber} (h : Swept b n s) :
    scoreboardInvariants s.1 s.2 (b + n) smss = .ok () := by
  obtain ⟨sb, una⟩ := s
  obtain ⟨⟨u, hu, rfl, ls, hs⟩, lr, hr⟩ := h
  have hlen : (b + n).offsetFrom (b + u) = n - u := SeqNumber.offsetFrom_pos_le b hu (by omega)
  have hholds : sb.invariantsHold = true := by
    rw [Scoreboard.invariantsHold, hs.wellFormed, hr.wellFormed]
    rfl
  have hpipe : sb.pipe (b + u) (b + n) smss ≤ (b + n).offsetFrom (b + u) := by
    have hle := sb.pipeLoop_le (b + n) (b + u) smss ((b + n).offsetFrom (b + u)) 0 (by omega)
    rw [Nat.zero_add] at hle
    exact hle
  simp only [scoreboardInvariants, hholds]
  rw [if_neg (by decide), if_neg (Nat.not_lt.mpr hpipe)]
  split
  · rename_i seq rescue hseg
    obtain ⟨hsacked, hrexmit, -, -⟩ := sb.nextSeg_spec (by omega) hseg
    obtain ⟨h1, h2⟩ := nextSeg_inside (by omega) hseg
    have hge : seq.ge (b + u) = true := (SeqNumber.ge_iff _ _).mpr (by omega)
    have hlt : seq.lt (b + n) = true := by
      rw [SeqNumber.lt_iff]
      have ht := SeqNumber.offsetFrom_trans seq (b + n) seq
      have hself := SeqNumber.offsetFrom_self seq
      have := SeqNumber.offsetFrom_lt seq (b + n)
      omega
    rw [hge, hlt, hsacked, hrexmit]
    rfl
  · rfl

/-! ## Every sweep -/

theorem length_scoreboardAlphabet (base : SeqNumber) (n : Nat) (nxt : SeqNumber) :
    (scoreboardAlphabet base n nxt).length = 2 * (n + 1) ^ 2 + (n + 1) + 3 := by
  have hrow : ∀ i ∈ List.range (n + 1), ((List.range (n + 1)).flatMap fun j =>
      [Op.update (base + i) (base + j), Op.rexmit (base + i) (base + j)]).length = (n + 1) * 2 := by
    intro i _
    rw [List.length_flatMap]
    simp
  rw [scoreboardAlphabet, List.length_append, List.length_append, List.length_flatMap, List.map_congr_left hrow]
  simp
  ring

/-- Whatever the size of the window, the depth and the segment size, on no sequence of calls
does the sweep find anything. -/
theorem scoreboard_passes (hn : n < 2147483648) (depth smss : Nat) : checkScoreboard n depth smss =
    ⟨2 * ∑ k ∈ Finset.range depth, (2 * (n + 1) ^ 2 + (n + 1) + 3) ^ (k + 1), 0, none⟩ := by
  have hbase : ∀ base r, explore (sweepAt n smss scoreboardInvariants base) depth (Scoreboard.new, base) r =
      { r with cases := r.cases + ∑ k ∈ Finset.range depth, (2 * (n + 1) ^ 2 + (n + 1) + 3) ^ (k + 1) } := by
    intro base r
    rw [explore_eq_walk, BmcReport.walk_passes]
    · rw [← length_scoreboardAlphabet base n (base + n)]
      rfl
    · intro w op _ hw hop
      have hswept : ∀ (w : List Op) s, (∀ op ∈ w, op ∈ scoreboardAlphabet base n (base + n)) → Swept base n s →
          Swept base n (w.foldl (applyOp (base + n)) s) := by
        intro w
        induction w with
        | nil =>
          intro s _ hs
          exact hs
        | cons op w ih =>
          intro s hw hs
          obtain ⟨hop, hw⟩ := List.forall_mem_cons.mp hw
          exact ih _ hw (hs.next hn op hop)
      exact ((hswept w _ hw (swept_new hn)).next hn op hop).passes hn
  rw [checkScoreboard, runScoreboardSweep, List.foldl_cons, List.foldl_cons, List.foldl_nil, hbase, hbase]
  show BmcReport.mk (0 + _ + _) 0 none = _
  rw [Nat.zero_add, ← Nat.two_mul]

/-- The window and depth of the test: 4 points, 3 calls, 397068 cases. -/
theorem scoreboard_passes_tested : checkScoreboard 4 3 1 =
    ⟨2 * ∑ k ∈ Finset.range 3, (2 * (4 + 1) ^ 2 + (4 + 1) + 3) ^ (k + 1), 0, none⟩ :=
  scoreboard_passes (by decide) 3 1

end Bmc

end Ferrumnet
