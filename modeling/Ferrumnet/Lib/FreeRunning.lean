import Mathlib.Tactic

/-
  A ring whose indices run freely — 32-bit counters that wrap around, and a slot
  under every index, found by masking it. Two sides share it: one writes entries at
  the tail, the other takes them at the head.

  1. `distance_advance` — the difference of two counters is how far one is ahead.
  2. `slot_injective` — counters less than the ring apart have slots of their own.
  3. `entries_write`, `entries_head` — the entries in the ring are a queue.
-/

namespace FreeRunning

variable {α : Type*}

/-- The counter `n` ahead of `i`. -/
def advance (i n : Nat) : Nat := (i + n) % 4294967296

/-- How far `tail` is ahead of `head`. -/
def distance (tail head : Nat) : Nat := (tail + (4294967296 - head)) % 4294967296

/-- The slot of a counter. -/
def slot (mask i : Nat) : Nat := i &&& mask

def write (slots : Nat → α) (i : Nat) (x : α) : Nat → α := fun j => if j = i then x else slots j

/-- The `n` entries from `head` on. -/
def entries (slots : Nat → α) (mask head n : Nat) : List α :=
  (List.range n).map fun k => slots (slot mask (advance head k))

theorem advance_lt (i n : Nat) : advance i n < 4294967296 := Nat.mod_lt _ (by decide)

theorem advance_zero {i : Nat} (h : i < 4294967296) : advance i 0 = i := Nat.mod_eq_of_lt h

theorem advance_advance (i m n : Nat) : advance (advance i m) n = advance i (m + n) := by
  rw [advance, advance, advance, Nat.mod_add_mod, Nat.add_assoc]

theorem distance_self {i : Nat} (h : i < 4294967296) : distance i i = 0 := by
  have hsum : i + (4294967296 - i) = 4294967296 := by omega
  rw [distance, hsum, Nat.mod_self]

theorem distance_advance {i n : Nat} (hi : i < 4294967296) (hn : n < 4294967296) :
    distance (advance i n) i = n := by
  rw [distance, advance]
  rcases Nat.lt_or_ge (i + n) 4294967296 with hlt | hge
  · have hsum : i + n + (4294967296 - i) = n + 4294967296 := by omega
    rw [Nat.mod_eq_of_lt hlt, hsum, Nat.add_mod_right, Nat.mod_eq_of_lt hn]
  · have hmod : (i + n) % 4294967296 = i + n - 4294967296 := by
      rw [Nat.mod_eq_sub_mod hge, Nat.mod_eq_of_lt (by omega)]
    have hsum : i + n - 4294967296 + (4294967296 - i) = n := by omega
    rw [hmod, hsum, Nat.mod_eq_of_lt hn]

/-- The tail is ahead of the head by the distance. -/
theorem advance_distance {head tail : Nat} (hh : head < 4294967296) (ht : tail < 4294967296) :
    advance head (distance tail head) = tail := by
  rw [distance, advance, Nat.add_mod_mod]
  have hsum : head + (tail + (4294967296 - head)) = tail + 4294967296 := by omega
  rw [hsum, Nat.add_mod_right, Nat.mod_eq_of_lt ht]

theorem distance_lt (tail head : Nat) : distance tail head < 4294967296 := Nat.mod_lt _ (by decide)

theorem distance_eq_zero {head tail : Nat} (hh : head < 4294967296) (ht : tail < 4294967296) :
    distance tail head = 0 ↔ tail = head := by
  constructor
  · intro h
    have hback := advance_distance hh ht
    rw [h, advance_zero hh] at hback
    exact hback.symm
  · intro h
    rw [h, distance_self hh]

/-- The head takes the place of the counter after it, one nearer to the tail. -/
theorem distance_next {head tail : Nat} (hh : head < 4294967296) (ht : tail < 4294967296) (h : tail ≠ head) :
    distance tail (advance head 1) = distance tail head - 1 := by
  have hpos : distance tail head ≠ 0 := fun h0 => h ((distance_eq_zero hh ht).mp h0)
  have hlt := distance_lt tail head
  have hback : advance (advance head 1) (distance tail head - 1) = tail := by
    rw [advance_advance, Nat.add_sub_cancel' (Nat.pos_of_ne_zero hpos), advance_distance hh ht]
  calc distance tail (advance head 1)
      = distance (advance (advance head 1) (distance tail head - 1)) (advance head 1) := by rw [hback]
    _ = distance tail head - 1 := distance_advance (advance_lt _ _) (by omega)

/-! ## Slots -/

section Masked

variable {mask k : Nat}

theorem slot_advance (hm : mask = 2 ^ k - 1) (hk : k ≤ 32) (i n : Nat) : slot mask (advance i n) = (i + n) % 2 ^ k := by
  have hdvd : 2 ^ k ∣ 4294967296 := Nat.pow_dvd_pow 2 hk
  rw [slot, advance, hm, Nat.and_two_pow_sub_one_eq_mod, Nat.mod_mod_of_dvd _ hdvd]

/-- Entries less than the ring apart have slots of their own. -/
theorem slot_injective (hm : mask = 2 ^ k - 1) (hk : k ≤ 32) {head i j : Nat} (hij : i < j) (hj : j < 2 ^ k) :
    slot mask (advance head i) ≠ slot mask (advance head j) := by
  intro heq
  rw [slot_advance hm hk, slot_advance hm hk] at heq
  have hdvd : 2 ^ k ∣ head + j - (head + i) := (Nat.modEq_iff_dvd' (by omega)).mp heq
  have hdiff : head + j - (head + i) = j - i := by omega
  rw [hdiff] at hdvd
  have hle := Nat.le_of_dvd (by omega) hdvd
  omega

end Masked

/-! ## Entries -/

@[simp] theorem length_entries (slots : Nat → α) (mask head n : Nat) : (entries slots mask head n).length = n := by
  rw [entries, List.length_map, List.length_range]

@[simp] theorem entries_zero (slots : Nat → α) (mask head : Nat) : entries slots mask head 0 = [] := rfl

theorem entries_succ (slots : Nat → α) (mask head n : Nat) :
    entries slots mask head (n + 1) = entries slots mask head n ++ [slots (slot mask (advance head n))] := by
  rw [entries, List.range_succ, List.map_append]
  rfl

/-- The first entry is the one at the head. -/
theorem entries_head (slots : Nat → α) (mask : Nat) {head : Nat} (h : head < 4294967296) (n : Nat) :
    entries slots mask head (n + 1) = slots (slot mask head) :: entries slots mask (advance head 1) n := by
  induction n with
  | zero => rw [entries_succ, advance_zero h]; rfl
  | succ n ih => rw [entries_succ, ih, entries_succ, advance_advance, Nat.add_comm 1 n]; rfl

/-- An entry written at the tail comes last, as long as the ring is not full. -/
theorem entries_write {mask k : Nat} (hm : mask = 2 ^ k - 1) (hk : k ≤ 32) (slots : Nat → α) {head n : Nat}
    (hn : n < 2 ^ k) (x : α) :
    entries (write slots (slot mask (advance head n)) x) mask head (n + 1) = entries slots mask head n ++ [x] := by
  have hsame : entries (write slots (slot mask (advance head n)) x) mask head n = entries slots mask head n := by
    apply List.map_congr_left
    intro i hi
    exact if_neg (slot_injective hm hk (List.mem_range.mp hi) hn)
  rw [entries_succ, hsame]
  exact congrArg _ (congrArg (fun y => [y]) (if_pos rfl))

end FreeRunning
