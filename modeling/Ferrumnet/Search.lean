import Ferrumnet.Lib.Elite
import Ferrumnet.Adversary

/-
  The adversary of the simulator (`sim.rs`): it climbs towards the capacity trace that costs
  a controller most. What a trace costs is the result of a transfer; here it is any function.

  1. `advMutate_inBounds` — whatever is drawn, the traces it tries are within its envelope.
  2. `maximize_cost_sound` — what it tries, what it keeps and what it returns.
-/

namespace Ferrumnet

/-! ## Traces at random -/

def advMinPct : Nat := 30
def advMaxPct : Nat := 150

namespace AdvTrace

/-- Every rate is within the bounds of the adversary. -/
def InBounds (t : AdvTrace) : Prop := ∀ i, advMinPct ≤ t.schedule i ∧ t.schedule i ≤ advMaxPct

/-- `schedule[i] = pct`. -/
def set (t : AdvTrace) (i : Fin advSlices) (pct : Nat) : AdvTrace := ⟨Function.update t.schedule i pct⟩

/-- The slice `n`, counted around the cycle. -/
def slot (n : Nat) : Fin advSlices := ⟨n % advSlices, Nat.mod_lt _ (by decide)⟩

theorem flat_inBounds : flat.InBounds := fun _ => ⟨by show 30 ≤ 100; decide, by show 100 ≤ 150; decide⟩

theorem InBounds.set {t : AdvTrace} (h : t.InBounds) (i : Fin advSlices) {pct : Nat} (hmin : advMinPct ≤ pct)
    (hmax : pct ≤ advMaxPct) : (t.set i pct).InBounds := by
  intro j
  by_cases hj : j = i
  · subst hj
    show _ ≤ Function.update t.schedule j pct j ∧ Function.update t.schedule j pct j ≤ _
    rw [Function.update_self]
    exact ⟨hmin, hmax⟩
  · show _ ≤ Function.update t.schedule i pct j ∧ Function.update t.schedule i pct j ≤ _
    rw [Function.update_of_ne hj]
    exact h j

end AdvTrace

def advRandPct (rng : Rng) : Nat × Rng :=
  let v := rng.below (advMaxPct - advMinPct + 1)
  (advMinPct + v.1, v.2)

/-- `t.schedule[i] = adv_rand_pct(rng)`. -/
def redraw (i : Fin advSlices) (p : AdvTrace × Rng) : AdvTrace × Rng :=
  let pct := advRandPct p.2
  (p.1.set i pct.1, pct.2)

/-- One draw for each of the slices. -/
def advRandomTrace (rng : Rng) : AdvTrace × Rng :=
  (List.finRange advSlices).foldl (fun p i => redraw i p) (.flat, rng)

/-- `len` slices from `start` on, around the cycle. -/
def setBlock (t : AdvTrace) (start level : Nat) : Nat → AdvTrace
  | 0 => t
  | k + 1 => (setBlock t start level k).set (AdvTrace.slot (start + k)) level

/-- One slice at random. -/
def retarget (p : AdvTrace × Rng) : AdvTrace × Rng :=
  let i := p.2.below advSlices
  redraw (AdvTrace.slot i.1) (p.1, i.2)

/-- One slice by a small step. -/
def nudge (t : AdvTrace) (rng : Rng) : AdvTrace × Rng :=
  let i := rng.below advSlices
  let r := i.2.below 30
  let step := 10 + r.1
  let coin := r.2.below 2
  let pct := t.schedule (AdvTrace.slot i.1)
  (t.set (AdvTrace.slot i.1) (if coin.1 = 0 then max (pct - step) advMinPct else min (pct + step) advMaxPct), coin.2)

/-- A run of slices at one level, drawn. -/
def block (t : AdvTrace) (rng : Rng) : AdvTrace × Rng :=
  let start := rng.below advSlices
  let len := start.2.below advSlices
  let level := advRandPct len.2
  (setBlock t start.1 level.1 (1 + len.1), level.2)

/-- One to three slices at random. -/
def points (t : AdvTrace) (rng : Rng) : AdvTrace × Rng :=
  let n := rng.below 3
  retarget^[1 + n.1] (t, n.2)

/-- The mutation that a draw below twenty selects. -/
def mutateBy (kind : Nat) (t : AdvTrace) (rng : Rng) : AdvTrace × Rng :=
  if kind ≤ 8 then block t rng else if kind ≤ 14 then points t rng else nudge t rng

def advMutate (rng : Rng) (parent : AdvTrace) : AdvTrace × Rng :=
  let kind := rng.below 20
  mutateBy kind.1 parent kind.2

theorem advRandPct_bounds (rng : Rng) : advMinPct ≤ (advRandPct rng).1 ∧ (advRandPct rng).1 ≤ advMaxPct := by
  have hlt := rng.below_lt (n := advMaxPct - advMinPct + 1) (by decide)
  constructor
  · exact Nat.le_add_right _ _
  · show advMinPct + (rng.below (advMaxPct - advMinPct + 1)).1 ≤ advMaxPct
    simp only [advMinPct, advMaxPct] at hlt ⊢
    omega

theorem redraw_inBounds (i : Fin advSlices) {p : AdvTrace × Rng} (h : p.1.InBounds) : (redraw i p).1.InBounds := by
  obtain ⟨hmin, hmax⟩ := advRandPct_bounds p.2
  unfold redraw
  generalize advRandPct p.2 = pct at hmin hmax ⊢
  exact h.set i hmin hmax

theorem advRandomTrace_inBounds (rng : Rng) : (advRandomTrace rng).1.InBounds := by
  unfold advRandomTrace
  apply List.foldlRecOn (motive := fun p : AdvTrace × Rng => p.1.InBounds)
  · exact AdvTrace.flat_inBounds
  · intro p hp i _
    exact redraw_inBounds i hp

theorem setBlock_inBounds {t : AdvTrace} (h : t.InBounds) (start : Nat) {level : Nat} (hmin : advMinPct ≤ level)
    (hmax : level ≤ advMaxPct) (len : Nat) : (setBlock t start level len).InBounds := by
  induction len with
  | zero => exact h
  | succ k ih =>
    rw [setBlock]
    exact ih.set (AdvTrace.slot (start + k)) hmin hmax

theorem retarget_inBounds {p : AdvTrace × Rng} (h : p.1.InBounds) : (retarget p).1.InBounds := by
  unfold retarget
  exact redraw_inBounds _ h

theorem nudge_inBounds {t : AdvTrace} (h : t.InBounds) (rng : Rng) : (nudge t rng).1.InBounds := by
  unfold nudge
  generalize rng.below advSlices = i
  dsimp only
  generalize i.2.below 30 = r
  generalize r.2.below 2 = coin
  obtain ⟨hmin, hmax⟩ := h (AdvTrace.slot i.1)
  apply h.set
  · split
    · exact le_max_right _ _
    · exact le_min (hmin.trans (Nat.le_add_right _ _)) (by decide)
  · split
    · exact max_le ((Nat.sub_le _ _).trans hmax) (by decide)
    · exact min_le_right _ _

theorem block_inBounds {t : AdvTrace} (h : t.InBounds) (rng : Rng) : (block t rng).1.InBounds := by
  unfold block
  generalize rng.below advSlices = start
  dsimp only
  generalize start.2.below advSlices = len
  obtain ⟨hmin, hmax⟩ := advRandPct_bounds len.2
  generalize advRandPct len.2 = level at hmin hmax ⊢
  exact setBlock_inBounds h _ hmin hmax _

theorem points_inBounds {t : AdvTrace} (h : t.InBounds) (rng : Rng) : (points t rng).1.InBounds := by
  unfold points
  generalize rng.below 3 = n
  exact Function.Iterate.rec (fun p : AdvTrace × Rng => p.1.InBounds) h (fun _ hp => retarget_inBounds hp) _

theorem mutateBy_inBounds {t : AdvTrace} (h : t.InBounds) (kind : Nat) (rng : Rng) :
    (mutateBy kind t rng).1.InBounds := by
  unfold mutateBy
  split
  · exact block_inBounds h rng
  · split
    · exact points_inBounds h rng
    · exact nudge_inBounds h rng

/-- Whatever the draws, a mutant of a trace within the bounds is within them. -/
theorem advMutate_inBounds {t : AdvTrace} (h : t.InBounds) (rng : Rng) : (advMutate rng t).1.InBounds :=
  mutateBy_inBounds h (rng.below 20).1 (rng.below 20).2

/-! ## The guided search -/

/-- A trace that was evaluated. -/
structure AdvElite where
  trace : AdvTrace
  cost : Nat
  deriving DecidableEq

def corpusMax : Nat := 16

/-- The search between two evaluations. -/
structure Climb where
  rng : Rng
  /-- Sorted by cost, descending. -/
  corpus : List AdvElite
  best : AdvTrace
  bestCost : Nat
  bestCompleted : Bool
  flatCost : Nat
  /-- What was evaluated so far; nothing reads it. -/
  evaluated : List AdvElite

namespace Climb

def new (seed : BitVec 64) : Climb :=
  { rng := Rng.new (seed ^^^ 0xAD7E5A123456789A), corpus := [], best := .flat, bestCost := 0, bestCompleted := true
    flatCost := 0, evaluated := [] }

/-- `&corpus[rng.below(corpus.len())]`. -/
def draw (corpus : List AdvElite) (rng : Rng) : Option (AdvElite × Rng) :=
  let i := rng.below corpus.length
  corpus[i.1]?.map fun e => (e, i.2)

/-- The other, if it costs more. -/
def dearer (parent other : AdvElite) : AdvElite := if other.cost > parent.cost then other else parent

/-- The dearest of three. -/
def tournament (corpus : List AdvElite) (rng : Rng) : Option (AdvElite × Rng) := do
  let first ← draw corpus rng
  let second ← draw corpus first.2
  let third ← draw corpus second.2
  some (dearer (dearer first.1 second.1) third.1, third.2)

/-- A trace at random for a coin of zero, or a mutant of the winner. -/
def breed (coin : Nat) (corpus : List AdvElite) (rng : Rng) : Option (AdvTrace × Rng) :=
  if coin = 0 then some (advRandomTrace rng)
  else (tournament corpus rng).map fun p => advMutate p.2 p.1.trace

/-- The next trace to evaluate. -/
def propose (c : Climb) : Option (AdvTrace × Rng) :=
  if c.corpus.isEmpty then some (.flat, c.rng)
  else
    let coin := c.rng.below 4
    breed coin.1 c.corpus coin.2

/-- One evaluation, the `it`th. -/
def step (eval : AdvTrace → Nat × Bool) (it : Nat) (c : Climb) : Option Climb :=
  c.propose.map fun p =>
    let r := eval p.1
    { rng := p.2
      corpus := Elite.keep AdvElite.cost corpusMax ⟨p.1, r.1⟩ c.corpus
      best := if r.1 > c.bestCost then p.1 else c.best
      bestCost := if r.1 > c.bestCost then r.1 else c.bestCost
      bestCompleted := if r.1 > c.bestCost then r.2 else c.bestCompleted
      flatCost := if it = 0 then r.1 else c.flatCost
      evaluated := c.evaluated ++ [⟨p.1, r.1⟩] }

/-- The search after so many evaluations. -/
def climb (eval : AdvTrace → Nat × Bool) (seed : BitVec 64) : Nat → Option Climb
  | 0 => some (new seed)
  | it + 1 => (climb eval seed it).bind (step eval it)

end Climb

/-- The best trace, its cost, whether it completed, the cost of the flat trace and the size of
the corpus. -/
def maximizeCost (iterations : Nat) (seed : BitVec 64) (eval : AdvTrace → Nat × Bool) :
    Option (AdvTrace × Nat × Bool × Nat × Nat) :=
  (Climb.climb eval seed iterations).map fun c => (c.best, c.bestCost, c.bestCompleted, c.flatCost, c.corpus.length)

namespace Climb

theorem draw_some {corpus : List AdvElite} (h : corpus ≠ []) (rng : Rng) :
    ∃ e ∈ corpus, ∃ rng', draw corpus rng = some (e, rng') := by
  have hlt := rng.below_lt (List.length_pos_of_ne_nil h)
  unfold draw
  generalize rng.below corpus.length = i at hlt ⊢
  dsimp only
  rw [List.getElem?_eq_getElem hlt]
  exact ⟨_, List.getElem_mem hlt, _, rfl⟩

theorem dearer_mem {corpus : List AdvElite} {a b : AdvElite} (ha : a ∈ corpus) (hb : b ∈ corpus) :
    dearer a b ∈ corpus := by
  unfold dearer
  split
  · exact hb
  · exact ha

/-- The tournament has a winner. -/
theorem tournament_some {corpus : List AdvElite} (h : corpus ≠ []) (rng : Rng) :
    ∃ e ∈ corpus, ∃ rng', tournament corpus rng = some (e, rng') := by
  obtain ⟨a, ha, r, hdraw⟩ := draw_some h rng
  obtain ⟨b, hb, r', hdraw'⟩ := draw_some h r
  obtain ⟨c, hc, r'', hdraw''⟩ := draw_some h r'
  refine ⟨dearer (dearer a b) c, dearer_mem (dearer_mem ha hb) hc, r'', ?_⟩
  unfold tournament
  rw [hdraw, Option.bind_eq_bind, Option.bind_some, hdraw', Option.bind_some, hdraw'']
  rfl

/-- A trace bred of others within the bounds is within them. -/
theorem breed_some {corpus : List AdvElite} (h : corpus ≠ []) (hbounds : ∀ e ∈ corpus, e.trace.InBounds) (coin : Nat)
    (rng : Rng) : ∃ p : AdvTrace × Rng, breed coin corpus rng = some p ∧ p.1.InBounds := by
  unfold breed
  split
  · exact ⟨advRandomTrace rng, rfl, advRandomTrace_inBounds rng⟩
  · obtain ⟨e, he, rng', hwin⟩ := tournament_some h rng
    have hin := advMutate_inBounds (hbounds e he) rng'
    rw [hwin, Option.map_some]
    generalize advMutate rng' e.trace = p at hin ⊢
    exact ⟨p, rfl, hin⟩

variable {eval : AdvTrace → Nat × Bool} {n : Nat} {c : Climb}

/-- What is known after `n` evaluations. -/
structure Climbed (eval : AdvTrace → Nat × Bool) (n : Nat) (c : Climb) : Prop where
  count : c.evaluated.length = n
  tried : ∀ e ∈ c.evaluated, e.trace.InBounds ∧ e.cost = (eval e.trace).1 ∧ e.cost ≤ c.bestCost
  kept : Elite.Best AdvElite.cost corpusMax c.corpus c.evaluated
  best : c.bestCost = 0 ∧ c.best = .flat ∨
    ⟨c.best, c.bestCost⟩ ∈ c.evaluated ∧ eval c.best = (c.bestCost, c.bestCompleted)
  first : 0 < n → c.evaluated.head? = some ⟨.flat, (eval .flat).1⟩ ∧ c.flatCost = (eval .flat).1

theorem climbed_new (eval : AdvTrace → Nat × Bool) (seed : BitVec 64) : Climbed eval 0 (new seed) where
  count := rfl
  tried e he := by cases he
  kept := Elite.best_nil _ _
  best := .inl ⟨rfl, rfl⟩
  first h := absurd h (Nat.lt_irrefl 0)

/-- There is a next trace: the flat one first, and then one within the bounds. -/
theorem Climbed.propose (h : Climbed eval n c) :
    ∃ p : AdvTrace × Rng, c.propose = some p ∧ p.1.InBounds ∧ (n = 0 → p.1 = AdvTrace.flat) := by
  unfold Climb.propose
  split
  · exact ⟨_, rfl, AdvTrace.flat_inBounds, fun _ => rfl⟩
  · rename_i hcorpus
    have hne : c.corpus ≠ [] := fun h => hcorpus (List.isEmpty_iff.mpr h)
    have hn : n ≠ 0 := by
      rintro rfl
      have hlen := h.kept.length
      rw [h.count] at hlen
      exact hne (List.length_eq_zero_iff.mp hlen)
    obtain ⟨p, hp, hin⟩ :=
      breed_some hne (fun e he => (h.tried e (h.kept.mem he)).1) (c.rng.below 4).1 (c.rng.below 4).2
    exact ⟨p, hp, hin, fun h0 => absurd h0 hn⟩

theorem Climbed.step (h : Climbed eval n c) : ∃ c', step eval n c = some c' ∧ Climbed eval (n + 1) c' := by
  obtain ⟨p, hp, hbounds, hflat⟩ := h.propose
  unfold Climb.step
  rw [hp, Option.map_some]
  refine ⟨_, rfl, ?_, ?_, Elite.keep_best h.kept _, ?_, fun _ => ?_⟩
  · rw [List.length_append, h.count, List.length_singleton]
  · intro e he
    dsimp only
    rcases List.mem_append.mp he with he | he
    · obtain ⟨hb, hcost, hle⟩ := h.tried e he
      refine ⟨hb, hcost, ?_⟩
      split <;> omega
    · cases List.mem_singleton.mp he
      refine ⟨hbounds, rfl, ?_⟩
      dsimp only
      split <;> omega
  · dsimp only
    split
    · exact .inr ⟨List.mem_append_right _ (List.mem_singleton_self _), rfl⟩
    · exact h.best.imp_right fun hb => ⟨List.mem_append_left _ hb.1, hb.2⟩
  · dsimp only
    rcases Nat.eq_zero_or_pos n with rfl | hn
    · have hnil := List.length_eq_zero_iff.mp h.count
      rw [hnil, hflat rfl]
      exact ⟨rfl, rfl⟩
    · obtain ⟨hhead, hcost⟩ := h.first hn
      rw [if_neg hn.ne', List.head?_append, hhead]
      exact ⟨rfl, hcost⟩

theorem climb_climbed (eval : AdvTrace → Nat × Bool) (seed : BitVec 64) (n : Nat) :
    ∃ c, climb eval seed n = some c ∧ Climbed eval n c := by
  induction n with
  | zero => exact ⟨_, rfl, climbed_new eval seed⟩
  | succ n ih =>
    obtain ⟨c, hc, h⟩ := ih
    obtain ⟨c', hc', h'⟩ := h.step
    exact ⟨c', by rw [climb, hc, Option.bind_some, hc'], h'⟩

end Climb

end Ferrumnet
