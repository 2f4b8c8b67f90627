import Mathlib.Data.List.AList

/-
  Walks over a table, key by key.

  A program that visits the keys of a table one after the other, and at each changes
  only what is under that key, does to every entry what it would do to that entry alone,
  whatever the order of the keys.

  1. `foldl_keyed` — what is under a key after the walk.
  2. `lookup_foldl` — the same for association lists.
-/

namespace Keyed

variable {σ K γ : Type*} [DecidableEq K]

/-- What is under `e` after a walk over distinct keys. -/
theorem foldl_keyed (look : σ → K → γ) {f : σ → K → σ} {g : K → γ → γ}
    (hat : ∀ s k, look (f s k) k = g k (look s k)) (hoff : ∀ s k e, e ≠ k → look (f s k) e = look s e)
    {keys : List K} (hn : keys.Nodup) (s : σ) (e : K) :
    look (keys.foldl f s) e = if e ∈ keys then g e (look s e) else look s e := by
  induction keys generalizing s with
  | nil => simp
  | cons k keys ih =>
    obtain ⟨hk, hn'⟩ := List.nodup_cons.mp hn
    rw [List.foldl_cons, ih hn']
    by_cases he : e = k
    · -- no later step comes back to this key
      subst he
      rw [if_neg hk, if_pos List.mem_cons_self, hat]
    · rw [hoff s k e he]
      by_cases hmem : e ∈ keys
      · rw [if_pos hmem, if_pos (List.mem_cons_of_mem k hmem)]
      · rw [if_neg hmem, if_neg (fun h => (List.mem_cons.mp h).elim he hmem)]

omit [DecidableEq K] in
/-- A walk that leaves alone what no step touches. -/
theorem foldl_const (look : σ → γ) {f : σ → K → σ} (h : ∀ s k, look (f s k) = look s) (keys : List K) (s : σ) :
    look (keys.foldl f s) = look s := by
  induction keys generalizing s with
  | nil => rfl
  | cons k keys ih => exact (ih (f s k)).trans (h s k)

variable {V : Type*}

/-- A walk over all keys of a table, with a treatment that leaves absent keys absent. -/
theorem lookup_foldl (table : σ → AList fun _ : K => V) {f : σ → K → σ} {g : K → Option V → Option V}
    (hat : ∀ s k, (table (f s k)).lookup k = g k ((table s).lookup k))
    (hoff : ∀ s k e, e ≠ k → (table (f s k)).lookup e = (table s).lookup e) (hnone : ∀ k, g k none = none)
    {keys : List K} {s : σ} (hkeys : keys = (table s).keys) (e : K) :
    (table (keys.foldl f s)).lookup e = g e ((table s).lookup e) := by
  have hn : keys.Nodup := hkeys ▸ (table s).keys_nodup
  rw [foldl_keyed (fun s k => (table s).lookup k) hat hoff hn s e]
  split
  · rfl
  · rename_i habsent
    have hlookup : (table s).lookup e = none := by
      rw [AList.lookup_eq_none, AList.mem_keys, ← hkeys]
      exact habsent
    rw [hlookup, hnone]

end Keyed
