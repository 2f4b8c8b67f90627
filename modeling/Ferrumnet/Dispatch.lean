import Ferrumnet.Table

/-
  What `dispatch_wakeups` does to the wakers and to the accept queue.

  1. `foldl_announce` — the promoted connections, each unless it was announced before.
  2. `lookup_wake`, `mem_wake` — a waker is taken exactly if its connection is ready.
  3. `dispatch_eq` — the whole pass.
-/

namespace Ferrumnet

namespace Reactor

variable {κ : Type}

/-- Promotion, in the order of the walk. -/
theorem foldl_announce {keys : List Endpoint} (hn : keys.Nodup) (s : Reactor κ) :
    keys.foldl announce s =
      { s with announced := s.announced ∪ keys.toFinset
               acceptQueue := s.acceptQueue ++ keys.filter fun e => e ∉ s.announced } := by
  induction keys generalizing s with
  | nil => simp
  | cons k keys ih =>
    obtain ⟨hk, hn'⟩ := List.nodup_cons.mp hn
    rw [List.foldl_cons, ih hn']
    unfold announce
    split
    · rename_i hmem
      rw [List.filter_cons_of_neg (by simpa using hmem), List.toFinset_cons, Finset.union_insert,
        Finset.insert_eq_self.mpr (Finset.mem_union_left _ hmem)]
    · rename_i hmem
      -- the rest of the walk does not meet this connection again
      have hrest : (keys.filter fun e => e ∉ insert k s.announced) = keys.filter fun e => e ∉ s.announced := by
        apply List.filter_congr
        intro e he
        have hne : e ≠ k := fun h => hk (h ▸ he)
        simp [hne]
      rw [List.filter_cons_of_pos (by simpa using hmem), hrest, List.toFinset_cons, Finset.union_insert,
        Finset.insert_union, List.append_assoc, List.singleton_append]

section Wake

variable {ready : Endpoint → Bool} {wakers : Wakers} {e : Endpoint} {w : Waker}

/-- A waker is taken exactly if its connection is ready. -/
theorem lookup_wake : (wake ready wakers).1.lookup e = if ready e then none else wakers.lookup e := by
  refine Keyed.lookup_foldl (fun p : Wakers × List Waker => p.1)
    (g := fun k o => if ready k then none else o) (fun p k => ?_) (fun p k e he => ?_) (fun k => ite_self _) rfl e
  · split
    · exact AList.lookup_erase k _
    · rfl
  · split
    · exact AList.lookup_erase_ne he
    · rfl

/-- The wakers that are taken are woken. -/
theorem mem_wake (hready : ready e = true) (hw : wakers.lookup e = some w) : w ∈ (wake ready wakers).2 := by
  have hwalk : ∀ (keys : List Endpoint) (p : Wakers × List Waker), keys.Nodup →
      w ∈ p.2 ∨ p.1.lookup e = some w ∧ e ∈ keys →
      w ∈ (keys.foldl (fun p e => if ready e then (p.1.erase e, p.2 ++ (p.1.lookup e).toList) else p) p).2 := by
    intro keys
    induction keys with
    | nil =>
      intro p _ h
      exact h.resolve_right fun hc => List.not_mem_nil hc.2
    | cons k keys ih =>
      intro p hn h
      obtain ⟨hk, hn'⟩ := List.nodup_cons.mp hn
      rw [List.foldl_cons]
      apply ih _ hn'
      rcases h with h | ⟨hlook, hmem⟩
      · left
        split
        · exact List.mem_append_left _ h
        · exact h
      by_cases hek : e = k
      · subst hek
        left
        rw [if_pos hready, hlook]
        exact List.mem_append_right _ (List.mem_singleton_self w)
      · right
        refine ⟨?_, (List.mem_cons.mp hmem).resolve_left hek⟩
        split
        · exact (AList.lookup_erase_ne hek).trans hlook
        · exact hlook
  refine hwalk wakers.keys (wakers, []) wakers.keys_nodup (.inr ⟨hw, ?_⟩)
  rw [← AList.mem_keys, ← AList.lookup_isSome, hw]
  rfl

end Wake

variable (s : Reactor κ)

theorem nodup_synced : s.synced.Nodup := s.stack.conns.keys_nodup.filter _

/-- The queue behind the promotions. -/
def promoted : List Endpoint := s.acceptQueue ++ s.synced.filter fun e => e ∉ s.announced

theorem wakeAccept_eq : s.wakeAccept =
    { s with acceptWaker := if s.acceptQueue.isEmpty then s.acceptWaker else none
             woken := s.woken ++ if s.acceptQueue.isEmpty then [] else s.acceptWaker.toList } := by
  unfold wakeAccept
  split
  · rw [List.append_nil]
  · rfl

/-- The whole pass. -/
theorem dispatch_eq : s.dispatchWakeups =
    { s with
      readWakers := (wake s.readReady s.readWakers).1
      writeWakers := (wake s.writeReady s.writeWakers).1
      connectWakers := (wake s.connectReady s.connectWakers).1
      acceptWaker := if s.promoted.isEmpty then s.acceptWaker else none
      acceptQueue := s.promoted.filter fun e => e ∈ s.stack.conns
      announced := (s.announced ∪ s.synced.toFinset).filter fun e => e ∈ s.stack.conns
      woken := s.woken ++ (if s.promoted.isEmpty then [] else s.acceptWaker.toList) ++
        (wake s.connectReady s.connectWakers).2 ++ (wake s.readReady s.readWakers).2 ++
        (wake s.writeReady s.writeWakers).2 } := by
  unfold dispatchWakeups
  rw [foldl_announce s.nodup_synced, wakeAccept_eq]
  rfl

end Reactor

end Ferrumnet
