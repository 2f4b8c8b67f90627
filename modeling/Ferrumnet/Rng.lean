import Ferrumnet.Lib.Mixing

/-
  The generator of the simulator (`Rng` of `sim.rs`): SplitMix64.

  The state counts up by an odd constant and is mixed by steps that can be undone, so the
  outputs of a whole period are all the words, each of them once.

  1. `draws_exact` — a period from any seed.
  2. `below_even` — over a period `below` returns each value as often as any other, give or
     take one.
-/

namespace Ferrumnet

structure Rng where
  state : BitVec 64
  deriving DecidableEq, Repr

namespace Rng

open Mixing (xorShift)

def new (seed : BitVec 64) : Rng := ⟨seed⟩

def golden : BitVec 64 := 0x9E3779B97F4A7C15

def mix (z : BitVec 64) : BitVec 64 :=
  let z := (z ^^^ z >>> 30) * 0xBF58476D1CE4E5B9
  let z := (z ^^^ z >>> 27) * 0x94D049BB133111EB
  z ^^^ z >>> 31

def nextU64 (r : Rng) : BitVec 64 × Rng :=
  let state := r.state + golden
  (mix state, ⟨state⟩)

/-- True with a probability of `ppm` in a million; nothing is drawn where it is zero. -/
def chancePpm (r : Rng) (ppm : Nat) : Bool × Rng :=
  if ppm ≠ 0 then
    let p := r.nextU64
    (decide (p.1.toNat % 1000000 < ppm), p.2)
  else (false, r)

/-- A value below `n`. -/
def below (r : Rng) (n : Nat) : Nat × Rng :=
  if n = 0 then (0, r)
  else
    let p := r.nextU64
    (p.1.toNat % n, p.2)

theorem below_lt (r : Rng) {n : Nat} (h : 0 < n) : (r.below n).1 < n := by
  rw [below, if_neg h.ne']
  exact Nat.mod_lt _ h

/-- What a draw that comes out true tells of it. -/
theorem chancePpm_true (r : Rng) {p : Nat} (h : (r.chancePpm p).1 = true) :
    0 < p ∧ r.nextU64.1.toNat % 1000000 < p ∧ (r.chancePpm p).2 = r.nextU64.2 := by
  unfold chancePpm at h ⊢
  split at h
  · rename_i hne
    rw [if_pos hne]
    exact ⟨Nat.pos_of_ne_zero hne, of_decide_eq_true h, rfl⟩
  · cases h

/-- After `k` draws. -/
def after (r : Rng) (k : Nat) : Rng := (fun r : Rng => r.nextU64.2)^[k] r

/-- The draw after `k` others. -/
def draw (r : Rng) (k : Nat) : BitVec 64 := (r.after k).nextU64.1

theorem draw_zero (r : Rng) : r.draw 0 = r.nextU64.1 := by
  rw [draw, after, Function.iterate_zero, id]

theorem draw_succ (r : Rng) (k : Nat) : r.draw (k + 1) = r.nextU64.2.draw k := by
  rw [draw, draw, after, after, Function.iterate_succ_apply]

theorem after_state (r : Rng) (k : Nat) : (r.after k).state = r.state + BitVec.ofNat 64 k * golden := by
  induction k with
  | zero => simp [after]
  | succ k ih =>
    have hstep : r.after (k + 1) = (r.after k).nextU64.2 := Function.iterate_succ_apply' _ k r
    rw [hstep]
    show (r.after k).state + golden = _
    rw [ih, BitVec.ofNat_add, BitVec.add_mul, BitVec.one_mul, BitVec.add_assoc]

theorem draw_eq (r : Rng) (k : Nat) : r.draw k = mix (r.state + golden + BitVec.ofNat 64 k * golden) := by
  show mix ((r.after k).state + golden) = _
  rw [after_state, BitVec.add_assoc, BitVec.add_comm (_ * golden), ← BitVec.add_assoc]

/-- Every step of the mixing can be undone. -/
theorem injective_mix : Function.Injective mix := by
  have h1 : Function.Injective fun x : BitVec 64 => x * 0xBF58476D1CE4E5B9 :=
    Mixing.injective_mul (d := 0x96de1b173f119089) (by decide)
  have h2 : Function.Injective fun x : BitVec 64 => x * 0x94D049BB133111EB :=
    Mixing.injective_mul (d := 0x319642b2d24d8ec3) (by decide)
  intro x y h
  apply Mixing.injective_xorShift (s := 30) (by decide)
  apply h1
  apply Mixing.injective_xorShift (s := 27) (by decide)
  apply h2
  apply Mixing.injective_xorShift (s := 31) (by decide)
  exact h

/-- How many draws there are before they repeat. -/
def period : Nat := 2 ^ 64

theorem bijective_draw (r : Rng) : Function.Bijective fun k : Fin period => r.draw k := by
  have hcounter := Mixing.bijective_counter (c := golden) (d := 0xf1de83e19937733d) (by decide) (r.state + golden)
  have hmix := (Mixing.bijective_of_injective injective_mix).comp hcounter
  have he : (fun k : Fin period => r.draw k) =
      mix ∘ fun k : Fin period => r.state + golden + BitVec.ofNat 64 k * golden := by
    funext k
    exact r.draw_eq k
  rw [he]
  exact hmix

/-- From any state on, a period of draws is all the words, each of them once, and then they repeat. -/
theorem draws_exact (r : Rng) : (Function.Bijective fun k : Fin period => r.draw k) ∧
    ∀ k, r.draw (k + period) = r.draw k := by
  refine ⟨r.bijective_draw, ?_⟩
  intro k
  rw [draw_eq, draw_eq, period, Mixing.ofNat_wrap]

/-- Over a period `below n` returns each value below `n` as often as any other, give or take one. -/
theorem below_even (r : Rng) {n v : Nat} (hn : 0 < n) (hv : v < n) :
    (Finset.univ.filter fun k : Fin period => ((r.after k).below n).1 = v).card =
      period / n + if v < period % n then 1 else 0 := by
  have hbelow : ∀ k, ((r.after k).below n).1 = (r.draw k).toNat % n := by
    intro k
    rw [below, if_neg hn.ne']
    rfl
  simp only [hbelow]
  exact Mixing.card_mod r.bijective_draw hn hv

/-- A die, from the seed 7. -/
theorem below_even_die : (Finset.univ.filter fun k : Fin period => (((new 7).after k).below 6).1 = 2).card =
    period / 6 + if 2 < period % 6 then 1 else 0 :=
  below_even (new 7) (by decide) (by decide)

end Rng

end Ferrumnet
