import Mathlib.Tactic

/-
  Straight-line programs — each instruction reads two earlier registers and writes the
  next one. An operand out of range reads the last register there is, so every program
  runs.

  1. `length_run`, `getD_run` — a run appends one register for each instruction.
  2. `run_concat` — the last register of a program is what its last instruction computes.
  3. `run_carry` — instructions that hand on what they read.
-/

namespace Straight

/-- What the instructions compute, and what they read. -/
structure Machine (I V : Type*) where
  sem : I → V → V → V
  lhs : I → ℕ
  rhs : I → ℕ
  blank : V

variable {I V : Type*} (M : Machine I V) {reg : List V} {prog : List I} {ins : I}

def read (reg : List V) (i : ℕ) : V := reg.getD (min i (reg.length - 1)) M.blank

def exec (reg : List V) (ins : I) : List V :=
  reg ++ [M.sem ins (read M reg (M.lhs ins)) (read M reg (M.rhs ins))]

def run (reg : List V) (prog : List I) : List V := prog.foldl (exec M) reg

theorem length_run (reg : List V) (prog : List I) : (run M reg prog).length = reg.length + prog.length := by
  induction prog generalizing reg with
  | nil => rfl
  | cons ins prog ih =>
    rw [run, List.foldl_cons, ← run, ih, exec, List.length_append, List.length_singleton, List.length_cons]
    omega

/-- Registers are written once. -/
theorem getD_run {i : ℕ} (h : i < reg.length) (prog : List I) :
    (run M reg prog).getD i M.blank = reg.getD i M.blank := by
  induction prog generalizing reg with
  | nil => rfl
  | cons ins prog ih =>
    have hlen : i < (exec M reg ins).length := by
      rw [exec, List.length_append]
      omega
    rw [run, List.foldl_cons, ← run, ih hlen, exec, List.getD_eq_getElem?_getD, List.getElem?_append_left h,
      ← List.getD_eq_getElem?_getD]

/-- An operand that names a register of the start. -/
theorem read_run {i : ℕ} (h : i < reg.length) (prog : List I) :
    read M (run M reg prog) i = reg.getD i M.blank := by
  have hmin : min i ((run M reg prog).length - 1) = i := by
    rw [length_run]
    omega
  rw [read, hmin, getD_run M h]

theorem run_concat (reg : List V) (prog : List I) (ins : I) : run M reg (prog ++ [ins]) =
    run M reg prog ++ [M.sem ins (read M (run M reg prog) (M.lhs ins)) (read M (run M reg prog) (M.rhs ins))] := by
  rw [run, List.foldl_append]
  rfl

/-- The register that the last instruction writes. -/
theorem getD_run_concat {n : ℕ} (h : n = reg.length + prog.length) (ins : I) :
    (run M reg (prog ++ [ins])).getD n M.blank =
      M.sem ins (read M (run M reg prog) (M.lhs ins)) (read M (run M reg prog) (M.rhs ins)) := by
  have hlen : n = (run M reg prog).length := by
    rw [length_run, h]
  rw [run_concat, List.getD_eq_getElem?_getD, hlen, List.getElem?_concat_length, Option.getD_some]

theorem read_last {v : V} (h : reg.getLast? = some v) {i : ℕ} (hi : i = reg.length - 1) : read M reg i = v := by
  rw [List.getLast?_eq_getElem?] at h
  rw [read, hi, min_self, List.getD_eq_getElem?_getD, h, Option.getD_some]

/-- What each instruction reads from the one before it, and hands on. -/
theorem run_carry {v : V} (hlast : reg.getLast? = some v)
    (h : ∀ k ins, prog[k]? = some ins →
      M.lhs ins = reg.length + k - 1 ∧ M.rhs ins = reg.length + k - 1 ∧ M.sem ins v v = v) :
    (run M reg prog).getLast? = some v := by
  induction prog generalizing reg with
  | nil => exact hlast
  | cons ins prog ih =>
    obtain ⟨hl, hr, hv⟩ := h 0 ins rfl
    have hexec : exec M reg ins = reg ++ [v] := by
      rw [exec, read_last M hlast hl, read_last M hlast hr, hv]
    rw [run, List.foldl_cons, ← run, hexec]
    refine ih (List.getLast?_concat ..) fun k ins hk => ?_
    obtain ⟨hl, hr, hv⟩ := h (k + 1) ins hk
    rw [List.length_append, List.length_singleton]
    exact ⟨by omega, by omega, hv⟩

end Straight
