import Mathlib.Data.Nat.Bitwise
import Ferrumnet.IoUring

/-
  Who owns the buffers of the io_uring device.

  A buffer is outstanding from its push until its completion is reaped, and idle in a pool
  of the device otherwise. A count of its places is conserved by every step of the kernel
  and of the device, so that it is one in every state of every run; and since no more
  buffers are outstanding than there are, the submission queue never fills.

  1. `queued_push`, `queued_consume`, `posted_post`, `drained_reap` — the rings are queues.
  2. `Sound.kernel` — what the kernel may do keeps the count.
  3. `triple_postReposts`, `triple_submit`, `triple_drainCq` — so do the parts of the calls.
  4. `buffers_owned` — every call, in every order.
-/

namespace Ferrumnet

open FreeRunning Interleaving

/-! ## The rings as queues -/

namespace IoUring

variable {r : IoUring}

/-- Pushed, and not consumed by the kernel. -/
def queued (r : IoUring) : List Sqe := entries r.sqes r.sqMask r.sqHead (distance r.sqLocalTail r.sqHead)

/-- Posted by the kernel, and not reaped. -/
def posted (r : IoUring) : List Cqe := entries r.cqes r.cqMask r.cqHead (distance r.cqTail r.cqHead)

structure Wf (r : IoUring) : Prop where
  sqMask : r.sqMask = 2 ^ 10 - 1
  cqMask : r.cqMask = 2 ^ 11 - 1
  sqHead : r.sqHead < 4294967296
  sqTail : r.sqTail < 4294967296
  sqLocalTail : r.sqLocalTail < 4294967296
  cqHead : r.cqHead < 4294967296
  cqTail : r.cqTail < 4294967296
  published : distance r.sqTail r.sqHead ≤ distance r.sqLocalTail r.sqHead
  cqRoom : distance r.cqTail r.cqHead ≤ 2 ^ 11

theorem length_queued (r : IoUring) : r.queued.length = distance r.sqLocalTail r.sqHead := length_entries ..

theorem Wf.sqFree (h : r.Wf) : r.sqFree = 1024 - r.queued.length := by
  rw [IoUring.sqFree, h.sqMask, length_queued]
  rfl

/-- The tail after a push. -/
theorem Wf.next_tail (h : r.Wf) (hroom : r.queued.length < 1024) :
    distance (advance r.sqLocalTail 1) r.sqHead = distance r.sqLocalTail r.sqHead + 1 := by
  rw [length_queued] at hroom
  calc distance (advance r.sqLocalTail 1) r.sqHead
      = distance (advance r.sqHead (distance r.sqLocalTail r.sqHead + 1)) r.sqHead := by
        rw [← advance_advance, advance_distance h.sqHead h.sqLocalTail]
    _ = distance r.sqLocalTail r.sqHead + 1 := distance_advance h.sqHead (by omega)

/-- A submission pushed comes last. -/
theorem Wf.push (h : r.Wf) (hroom : r.queued.length < 1024) (sqe : Sqe) :
    (r.push sqe).Wf ∧ (r.push sqe).queued = r.queued ++ [sqe] := by
  have hnext := h.next_tail hroom
  constructor
  · refine ⟨h.sqMask, h.cqMask, h.sqHead, h.sqTail, advance_lt _ _, h.cqHead, h.cqTail, ?_, h.cqRoom⟩
    have := h.published
    simp only [IoUring.push, hnext]
    omega
  · simp only [queued, IoUring.push, hnext]
    rw [← entries_write h.sqMask (by decide) r.sqes (by rw [length_queued] at hroom; omega) sqe,
      advance_distance h.sqHead h.sqLocalTail]

theorem posted_push (r : IoUring) (sqe : Sqe) : (r.push sqe).posted = r.posted := rfl

/-- Publishing makes all of the queue visible. -/
theorem Wf.publish (h : r.Wf) : ({ r with sqTail := r.sqLocalTail } : IoUring).Wf :=
  ⟨h.sqMask, h.cqMask, h.sqHead, h.sqLocalTail, h.sqLocalTail, h.cqHead, h.cqTail, le_rfl, h.cqRoom⟩

/-- The kernel takes the first of the queue. -/
theorem Wf.consume (h : r.Wf) (hne : r.sqHead ≠ r.sqTail) :
    ({ r with sqHead := advance r.sqHead 1 } : IoUring).Wf ∧
      r.queued = r.sqes (slot r.sqMask r.sqHead) :: ({ r with sqHead := advance r.sqHead 1 } : IoUring).queued := by
  have hpos : distance r.sqTail r.sqHead ≠ 0 := fun h0 =>
    hne ((distance_eq_zero h.sqHead h.sqTail).mp h0).symm
  have hpub := h.published
  have hlocal : r.sqLocalTail ≠ r.sqHead := by
    intro heq
    rw [heq, distance_self h.sqHead] at hpub
    omega
  have htail := distance_next h.sqHead h.sqTail (Ne.symm hne)
  have hnext := distance_next h.sqHead h.sqLocalTail hlocal
  constructor
  · refine ⟨h.sqMask, h.cqMask, advance_lt _ _, h.sqTail, h.sqLocalTail, h.cqHead, h.cqTail, ?_, h.cqRoom⟩
    simp only [htail, hnext]
    omega
  · have hsplit : distance r.sqLocalTail r.sqHead = distance r.sqLocalTail r.sqHead - 1 + 1 := by omega
    simp only [queued, hnext]
    rw [hsplit, entries_head _ _ h.sqHead, Nat.add_sub_cancel]

/-- A completion posted comes last. -/
theorem Wf.post (h : r.Wf) (hroom : distance r.cqTail r.cqHead ≤ r.cqMask) (c : Cqe) :
    ({ r with cqes := write r.cqes (slot r.cqMask r.cqTail) c, cqTail := advance r.cqTail 1 } : IoUring).Wf ∧
      ({ r with cqes := write r.cqes (slot r.cqMask r.cqTail) c, cqTail := advance r.cqTail 1 } : IoUring).posted =
        r.posted ++ [c] := by
  have hroom' : distance r.cqTail r.cqHead < 2 ^ 11 := by
    have := h.cqMask
    omega
  have hnext : distance (advance r.cqTail 1) r.cqHead = distance r.cqTail r.cqHead + 1 := by
    calc distance (advance r.cqTail 1) r.cqHead
        = distance (advance r.cqHead (distance r.cqTail r.cqHead + 1)) r.cqHead := by
          rw [← advance_advance, advance_distance h.cqHead h.cqTail]
      _ = distance r.cqTail r.cqHead + 1 := distance_advance h.cqHead (by omega)
  constructor
  · refine ⟨h.sqMask, h.cqMask, h.sqHead, h.sqTail, h.sqLocalTail, h.cqHead, advance_lt _ _, h.published, ?_⟩
    simp only [hnext]
    omega
  · simp only [posted, hnext]
    rw [← entries_write h.cqMask (by decide) r.cqes hroom' c, advance_distance h.cqHead h.cqTail]

/-- Reaping gives every completion to the device, and leaves none. -/
theorem Wf.reap {τ : Type} (h : r.Wf) (f : τ → Cqe → τ) (t : τ) :
    (r.reap f t).1.Wf ∧ (r.reap f t).1.queued = r.queued ∧ (r.reap f t).1.posted = [] ∧
      (r.reap f t).2 = r.posted.foldl f t := by
  have hback := advance_distance h.cqHead h.cqTail
  refine ⟨?_, rfl, ?_, rfl⟩
  · refine ⟨h.sqMask, h.cqMask, h.sqHead, h.sqTail, h.sqLocalTail, advance_lt _ _, h.cqTail, h.published, ?_⟩
    simp only [IoUring.reap, hback, distance_self h.cqTail]
    exact Nat.zero_le _
  · simp only [posted, IoUring.reap, hback, distance_self h.cqTail, entries_zero]

end IoUring

/-! ## The places of a buffer -/

/-- The buffer that `drain_cq` finds in the `user_data` of a completion. -/
def bufferOf (ud : Nat) : Buffer :=
  if ud &&& writeTag ≠ 0 then .write (ud &&& (Instant.u64Max ^^^ writeTag)) else .read ud

namespace Buffer

def userData : Buffer → Nat
  | .read i => readUd i
  | .write j => writeUd j

def Valid : Buffer → Prop
  | .read i => i < nRead
  | .write j => j < nWrite

instance : (b : Buffer) → Decidable b.Valid
  | .read i => inferInstanceAs (Decidable (i < nRead))
  | .write j => inferInstanceAs (Decidable (j < nWrite))

theorem writeTag_eq : writeTag = 2 ^ 63 := rfl

theorem bufferOf_userData {b : Buffer} (h : b.Valid) : bufferOf b.userData = b := by
  cases b with
  | read i =>
    have hlt : i < 2 ^ 63 := lt_trans h (by decide)
    have htag : i &&& writeTag = 0 := by
      rw [writeTag_eq, Nat.and_two_pow, Nat.testBit_lt_two_pow hlt, Bool.toNat_false, Nat.zero_mul]
    exact if_neg (not_not_intro htag)
  | write j =>
    have hlt : j < 2 ^ 63 := lt_trans h (by decide)
    have hor : writeUd j = 2 ^ 63 + j := (Nat.two_pow_add_eq_or_of_lt hlt 1).symm
    have htag : writeUd j &&& writeTag ≠ 0 := by
      rw [hor, writeTag_eq, Nat.and_two_pow, Nat.testBit_two_pow_add_eq, Nat.testBit_lt_two_pow hlt]
      decide
    have hindex : writeUd j &&& (Instant.u64Max ^^^ writeTag) = j := by
      have hclear : Instant.u64Max ^^^ writeTag = 2 ^ 63 - 1 := by decide
      rw [hor, hclear, Nat.and_two_pow_sub_one_eq_mod, Nat.add_mod_left, Nat.mod_eq_of_lt hlt]
    exact (if_pos htag).trans (congrArg Buffer.write hindex)

end Buffer

namespace Driver

variable {s : Driver} {b : Buffer}

def queued (s : Driver) : List Sqe := s.tun.ring.queued

/-- The kernel's completion is awaited, or is there and not reaped. -/
def outstanding (s : Driver) (b : Buffer) : Nat :=
  (s.queued.map (·.addr)).count b + (s.inFlight.map (·.addr)).count b +
    (s.tun.ring.posted.map fun c => bufferOf c.userData).count b

/-- The kernel may read or write the buffer. -/
def Used (s : Driver) (b : Buffer) : Prop := ∃ sqe ∈ s.queued ++ s.inFlight, sqe.addr = b

end Driver

/-- The places of a buffer in the pools of the device. -/
def IoUringTun.idle (t : IoUringTun) : Buffer → Nat
  | .read i => (t.readReady.map Prod.fst).count i + t.repost.count i
  | .write j => t.writeFree.count j

/-- What only the device sees: its constants and its pools. -/
structure Pools where
  fd : Nat
  bufsz : Nat
  readReady : List (Nat × Nat)
  repost : List Nat
  writeFree : List Nat

theorem idle_ring (t : IoUringTun) (r : IoUring) (b : Buffer) : IoUringTun.idle { t with ring := r } b = t.idle b := by
  cases b <;> rfl

namespace Driver

variable {s : Driver} {spare : List Nat}

/-- The invariant, while the read buffers of `spare` are still to be posted. -/
structure Sound (spare : List Nat) (s : Driver) : Prop where
  ring : s.tun.ring.Wf
  tagged : ∀ sqe ∈ s.queued ++ s.inFlight, sqe.userData = sqe.addr.userData ∧ sqe.addr.Valid ∧ sqe.len ≤ s.tun.bufsz
  posted : ∀ c ∈ s.tun.ring.posted, c.res ≤ s.tun.bufsz
  ready : ∀ p ∈ s.tun.readReady, p.2 ≤ s.tun.bufsz
  spared : ∀ i ∈ spare, i < nRead
  /-- Every buffer is in one place. -/
  once : ∀ b, s.outstanding b + s.tun.idle b + (spare.map Buffer.read).count b = if b.Valid then 1 else 0

def pools (s : Driver) : Pools := ⟨s.tun.fd, s.tun.bufsz, s.tun.readReady, s.tun.repost, s.tun.writeFree⟩

/-- What an execution leaves alone. -/
theorem execute_frame (s : Driver) (sqe : Sqe) (o : Outcome) :
    (s.execute sqe o).1.tun.ring = s.tun.ring ∧ (s.execute sqe o).1.pools = s.pools ∧
      (s.execute sqe o).2 ≤ sqe.len := by
  cases o with
  | failed errno => exact ⟨rfl, rfl, by simp only [execute]; omega⟩
  | done data =>
    simp only [execute]
    split
    · refine ⟨rfl, rfl, ?_⟩
      have := List.length_take_le sqe.len data
      dsimp only
      omega
    · exact ⟨rfl, rfl, le_rfl⟩

theorem Sound.consume (h : Sound spare s) : Sound spare (s.kernel .consume) := by
  simp only [kernel]
  split
  · exact h
  · rename_i hne
    obtain ⟨hwf, hqueue⟩ := h.ring.consume hne
    have hout : ∀ b, outstanding { s with
        inFlight := s.inFlight ++ [s.tun.ring.sqes (slot s.tun.ring.sqMask s.tun.ring.sqHead)]
        tun.ring.sqHead := advance s.tun.ring.sqHead 1 } b = s.outstanding b := by
      intro b
      have hposted : ({ s.tun.ring with sqHead := advance s.tun.ring.sqHead 1 } : IoUring).posted =
        s.tun.ring.posted := rfl
      simp only [outstanding, queued, hqueue, hposted, List.map_cons, List.map_append, List.map_nil,
        List.count_append, List.count_cons, List.count_nil]
      omega
    refine ⟨hwf, ?_, h.posted, h.ready, h.spared, fun b => ?_⟩
    · intro sqe hmem
      refine h.tagged sqe ?_
      simp only [queued, hqueue]
      rcases List.mem_append.mp hmem with hmem | hmem
      · exact List.mem_append_left _ (List.mem_cons_of_mem _ hmem)
      · rcases List.mem_append.mp hmem with hmem | hmem
        · exact List.mem_append_right _ hmem
        · rw [List.mem_singleton.mp hmem]
          exact List.mem_append_left _ List.mem_cons_self
    · rw [hout]
      exact h.once b

theorem Sound.complete (h : Sound spare s) (k : Nat) (o : Outcome) : Sound spare (s.kernel (.complete k o)) := by
  simp only [kernel]
  cases hk : s.inFlight[k]? with
  | none => exact h
  | some sqe =>
    dsimp only
    split
    · exact h
    · rename_i hroom
      obtain ⟨hring, hpools, hres⟩ := s.execute_frame sqe o
      have hmem : sqe ∈ s.inFlight := List.mem_of_getElem? hk
      obtain ⟨htag, hvalid, hlen⟩ := h.tagged sqe (List.mem_append_right _ hmem)
      generalize s.execute sqe o = done at hring hpools hres ⊢
      obtain ⟨d, res⟩ := done
      dsimp only at hring hpools hres ⊢
      obtain ⟨hwf, hposted⟩ := h.ring.post (Nat.not_lt.mp hroom) ⟨sqe.userData, res⟩
      have hsize : d.tun.bufsz = s.tun.bufsz := congrArg Pools.bufsz hpools
      have hready : d.tun.readReady = s.tun.readReady := congrArg Pools.readReady hpools
      have hidle : ∀ b, d.tun.idle b = s.tun.idle b := by
        intro b
        have hrepost : d.tun.repost = s.tun.repost := congrArg Pools.repost hpools
        have hfree : d.tun.writeFree = s.tun.writeFree := congrArg Pools.writeFree hpools
        cases b with
        | read i => simp only [IoUringTun.idle, hready, hrepost]
        | write j => simp only [IoUringTun.idle, hfree]
      have hperm : (sqe :: s.inFlight.eraseIdx k).Perm s.inFlight := by
        obtain ⟨hlt, hget⟩ := List.getElem?_eq_some_iff.mp hk
        rw [← hget]
        exact List.getElem_cons_eraseIdx_perm hlt
      simp only [post, hring]
      refine ⟨hwf, ?_, ?_, ?_, h.spared, fun b => ?_⟩
      · intro e he
        dsimp only
        rw [hsize]
        refine h.tagged e ?_
        rcases List.mem_append.mp he with he | he
        · exact List.mem_append_left _ he
        · exact List.mem_append_right _ (List.mem_of_mem_eraseIdx he)
      · intro c hc
        dsimp only at hc ⊢
        rw [hsize]
        rw [hposted] at hc
        rcases List.mem_append.mp hc with hc | hc
        · exact h.posted c hc
        · rw [List.mem_singleton.mp hc]
          exact hres.trans (by exact_mod_cast hlen)
      · intro p hp
        dsimp only at hp ⊢
        rw [hsize]
        rw [hready] at hp
        exact h.ready p hp
      · have hcount := (hperm.map (·.addr)).count_eq b
        have honce := h.once b
        have hbuffer : bufferOf sqe.userData = sqe.addr := by
          rw [htag, Buffer.bufferOf_userData hvalid]
        rw [idle_ring, hidle]
        simp only [List.map_cons, List.count_cons] at hcount
        simp only [outstanding, queued, hposted, List.map_append, List.map_cons, List.map_nil, List.count_append,
          List.count_cons, List.count_nil, hbuffer] at honce ⊢
        rw [← honce, ← hcount]
        have hqueued : ∀ slots tail, ({ s.tun.ring with cqes := slots, cqTail := tail } : IoUring).queued =
          s.tun.ring.queued := fun _ _ => rfl
        rw [hqueued]
        omega

theorem pools_kernel (s : Driver) (a : KernelAct) : (s.kernel a).pools = s.pools := by
  cases a with
  | consume =>
    simp only [kernel]
    split <;> rfl
  | complete k o =>
    simp only [kernel]
    split
    · rfl
    · split
      · rfl
      · exact (s.execute_frame _ o).2.1

theorem Sound.kernel (h : Sound spare s) (a : KernelAct) : Sound spare (s.kernel a) := by
  cases a with
  | consume => exact h.consume
  | complete k o => exact h.complete k o

/-- Not more submissions than there are buffers. -/
theorem Sound.length_le (h : Sound spare s) : s.queued.length ≤ nRead + nWrite := by
  have hcount : ∀ b, (s.queued.map (·.addr)).count b ≤ 1 := by
    intro b
    have honce := h.once b
    rw [outstanding] at honce
    split at honce <;> omega
  have hsub : s.queued.map (·.addr) ⊆ (List.range nRead).map Buffer.read ++ (List.range nWrite).map Buffer.write := by
    intro b hb
    obtain ⟨sqe, hsqe, rfl⟩ := List.mem_map.mp hb
    have hvalid := (h.tagged sqe (List.mem_append_left _ hsqe)).2.1
    generalize sqe.addr = b at hvalid
    cases b with
    | read i => exact List.mem_append_left _ (List.mem_map_of_mem (List.mem_range.mpr hvalid))
    | write j => exact List.mem_append_right _ (List.mem_map_of_mem (List.mem_range.mpr hvalid))
  have hlen := ((List.nodup_iff_count_le_one.mpr hcount).subperm hsub).length_le
  rwa [List.length_map, List.length_append, List.length_map, List.length_map, List.length_range,
    List.length_range] at hlen

theorem Sound.sqFree_pos (h : Sound spare s) : 0 < s.tun.ring.sqFree := by
  have hlen : s.tun.ring.queued.length ≤ 768 := h.length_le
  rw [h.ring.sqFree]
  omega

/-- The kernel does not use a buffer of the pools. -/
theorem Sound.not_used (h : Sound spare s) {b : Buffer}
    (hb : 0 < s.tun.idle b + (spare.map Buffer.read).count b) : ¬ s.Used b := by
  rintro ⟨sqe, hsqe, rfl⟩
  have honce := h.once sqe.addr
  have hout : 0 < s.outstanding sqe.addr := by
    rw [outstanding]
    rcases List.mem_append.mp hsqe with hsqe | hsqe
    · have := List.count_pos_iff.mpr (List.mem_map_of_mem (f := (·.addr)) hsqe)
      omega
    · have := List.count_pos_iff.mpr (List.mem_map_of_mem (f := (·.addr)) hsqe)
      omega
  split at honce <;> omega

/-- A push moves a buffer of the pools to the queue. -/
theorem Sound.push (h : Sound spare s) (sqe : Sqe) (htag : sqe.userData = sqe.addr.userData) (hvalid : sqe.addr.Valid)
    (hlen : sqe.len ≤ s.tun.bufsz) {t : IoUringTun} (hsize : t.bufsz = s.tun.bufsz)
    (hready : t.readReady = s.tun.readReady) {left : List Nat} (hleft : left ⊆ spare)
    (hmove : ∀ b, s.tun.idle b + (spare.map Buffer.read).count b =
      t.idle b + (left.map Buffer.read).count b + if sqe.addr = b then 1 else 0) :
    Sound left { s with tun := { t with ring := s.tun.ring.push sqe } } := by
  have hroom : s.tun.ring.queued.length < 1024 := lt_of_le_of_lt h.length_le (by decide)
  obtain ⟨hwf, hqueued⟩ := h.ring.push hroom sqe
  refine ⟨hwf, ?_, ?_, ?_, fun i hi => h.spared i (hleft hi), fun b => ?_⟩
  · intro e he
    simp only [queued, hqueued] at he
    dsimp only
    rw [hsize]
    rcases List.mem_append.mp he with he | he
    · rcases List.mem_append.mp he with he | he
      · exact h.tagged e (List.mem_append_left _ he)
      · rw [List.mem_singleton.mp he]
        exact ⟨htag, hvalid, hlen⟩
    · exact h.tagged e (List.mem_append_right _ he)
  · dsimp only
    rw [hsize]
    exact h.posted
  · dsimp only
    rw [hsize, hready]
    exact h.ready
  · have honce := h.once b
    have hmove' := hmove b
    rw [idle_ring]
    simp only [outstanding, queued, hqueued, IoUring.posted_push, List.map_append, List.map_cons, List.map_nil,
      List.count_append, List.count_cons, List.count_nil, beq_iff_eq] at honce ⊢
    omega

/-- A completion reaped puts its buffer into a pool. -/
theorem idle_drainOne (t : IoUringTun) (c : Cqe) (b : Buffer) :
    (t.drainOne c).idle b = t.idle b + if bufferOf c.userData = b then 1 else 0 := by
  simp only [IoUringTun.drainOne, bufferOf]
  split
  · cases b with
    | read i => simp only [IoUringTun.idle, reduceCtorEq, if_false, Nat.add_zero]
    | write j =>
      simp only [IoUringTun.idle, List.count_append, List.count_cons, List.count_nil, beq_iff_eq, Buffer.write.injEq]
      omega
  · split
    · cases b with
      | read i =>
        simp only [IoUringTun.idle, List.map_append, List.map_cons, List.map_nil, List.count_append, List.count_cons,
          List.count_nil, beq_iff_eq, Buffer.read.injEq]
        omega
      | write j => simp only [IoUringTun.idle, reduceCtorEq, if_false, Nat.add_zero]
    · cases b with
      | read i =>
        simp only [IoUringTun.idle, List.count_append, List.count_cons, List.count_nil, beq_iff_eq,
          Buffer.read.injEq]
        omega
      | write j => simp only [IoUringTun.idle, reduceCtorEq, if_false, Nat.add_zero]

theorem ready_drainOne {t : IoUringTun} {c : Cqe} (hc : c.res ≤ t.bufsz) (h : ∀ p ∈ t.readReady, p.2 ≤ t.bufsz) :
    (t.drainOne c).bufsz = t.bufsz ∧ ∀ p ∈ (t.drainOne c).readReady, p.2 ≤ t.bufsz := by
  simp only [IoUringTun.drainOne]
  split
  · exact ⟨rfl, h⟩
  · split
    · refine ⟨rfl, fun p hp => ?_⟩
      rcases List.mem_append.mp hp with hp | hp
      · exact h p hp
      · rw [List.mem_singleton.mp hp]
        exact Int.toNat_le.mpr hc
    · exact ⟨rfl, h⟩

/-- So do all of them. -/
theorem drain_foldl (cs : List Cqe) {t : IoUringTun} (hcs : ∀ c ∈ cs, c.res ≤ t.bufsz)
    (h : ∀ p ∈ t.readReady, p.2 ≤ t.bufsz) :
    (cs.foldl IoUringTun.drainOne t).bufsz = t.bufsz ∧
      (∀ p ∈ (cs.foldl IoUringTun.drainOne t).readReady, p.2 ≤ t.bufsz) ∧
      ∀ b, (cs.foldl IoUringTun.drainOne t).idle b = t.idle b + (cs.map fun c => bufferOf c.userData).count b := by
  induction cs generalizing t with
  | nil => exact ⟨rfl, h, fun b => rfl⟩
  | cons c cs ih =>
    obtain ⟨hsize, hready⟩ := ready_drainOne (hcs c List.mem_cons_self) h
    obtain ⟨h1, h2, h3⟩ := ih (t := t.drainOne c)
      (fun d hd => by rw [hsize]; exact hcs d (List.mem_cons_of_mem c hd)) (by rw [hsize]; exact hready)
    rw [hsize] at h1 h2
    refine ⟨h1, h2, fun b => ?_⟩
    rw [List.foldl_cons, h3, idle_drainOne, List.map_cons, List.count_cons]
    simp only [beq_iff_eq]
    omega

/-- What `drain_cq` leaves. -/
def drained (t : IoUringTun) : IoUringTun :=
  let reaped := t.ring.reap IoUringTun.drainOne t
  { reaped.2 with ring := reaped.1 }

theorem Sound.drain (h : Sound spare s) : Sound spare { s with tun := drained s.tun } := by
  obtain ⟨hwf, hqueued, hposted, hfold⟩ := h.ring.reap IoUringTun.drainOne s.tun
  obtain ⟨hsize, hready, hidle⟩ := drain_foldl s.tun.ring.posted h.posted h.ready
  refine ⟨hwf, ?_, ?_, ?_, h.spared, fun b => ?_⟩
  · intro e he
    simp only [queued, drained, hqueued, hfold, hsize] at he ⊢
    exact h.tagged e he
  · intro c hc
    simp only [drained, hposted] at hc
    cases hc
  · simp only [drained, hfold, hsize]
    exact hready
  · have honce := h.once b
    simp only [drained]
    rw [idle_ring]
    simp only [outstanding, queued, hqueued, hposted, hfold, hidle, List.map_nil, List.count_nil] at honce ⊢
    omega

/-! ## What a step may do -/

/-- The kernel may use a buffer pushed, and there is a slot for it; a buffer that the device
writes or reads is not used by the kernel. -/
def Allowed (s : Driver) : Access → Prop
  | .push sqe => 0 < s.tun.ring.sqFree ∧ ¬ s.Used sqe.addr
  | .copyIn j data => ¬ s.Used (.write j) ∧ data.length ≤ s.tun.bufsz
  | .copyOut i n => ¬ s.Used (.read i) ∧ n ≤ s.tun.bufsz
  | _ => True

/-- Each buffer is in exactly one place: a read buffer is queued or in flight, ready, or to be posted
again; a write buffer is free, or queued or in flight. -/
def Partition (s : Driver) : Prop :=
  (∀ i < nRead, s.outstanding (.read i) + (s.tun.readReady.map Prod.fst).count i + s.tun.repost.count i = 1) ∧
    ∀ j < nWrite, s.tun.writeFree.count j + s.outstanding (.write j) = 1

theorem Sound.partition (h : Sound [] s) : s.Partition := by
  constructor
  · intro i hi
    have honce := h.once (.read i)
    rw [if_pos (show (Buffer.read i).Valid from hi)] at honce
    simp only [IoUringTun.idle, List.map_nil, List.count_nil, Nat.add_zero] at honce
    rw [Nat.add_assoc]
    exact honce
  · intro j hj
    have honce := h.once (.write j)
    rw [if_pos (show (Buffer.write j).Valid from hj)] at honce
    simp only [IoUringTun.idle, List.map_nil, List.count_nil, Nat.add_zero] at honce
    rw [Nat.add_comm]
    exact honce

/-- The invariant, with a condition on what only the device sees. -/
def Inv (spare : List Nat) (C : Pools → Prop) (s : Driver) : Prop := Sound spare s ∧ C s.pools

theorem stable_inv (spare : List Nat) (C : Pools → Prop) : Stable Driver.kernel (Inv spare C) :=
  fun s a h => ⟨h.1.kernel a, (s.pools_kernel a).symm ▸ h.2⟩

/-- Reposting moves the last of `repost` to the queue. -/
theorem Sound.repost (h : Sound spare s) {i : Nat} (hi : s.tun.repost.getLast? = some i) :
    s.Allowed (.push (Io.readSqe s.tun i)) ∧
      Sound spare { s with
        tun := { s.tun with repost := s.tun.repost.dropLast, ring := s.tun.ring.push (Io.readSqe s.tun i) } } := by
  have hsplit : s.tun.repost.dropLast ++ [i] = s.tun.repost := List.dropLast_append_getLast? i hi
  have hcount : ∀ k, s.tun.repost.count k = s.tun.repost.dropLast.count k + if i = k then 1 else 0 := by
    intro k
    rw [← hsplit, List.dropLast_concat, List.count_append, List.count_singleton]
    simp only [beq_iff_eq]
  have hidle : 0 < s.tun.idle (.read i) := by
    rw [IoUringTun.idle, hcount i, if_pos rfl]
    omega
  have hvalid : (Buffer.read i).Valid := by
    by_contra hno
    have honce := h.once (.read i)
    rw [if_neg hno] at honce
    omega
  refine ⟨⟨h.sqFree_pos, h.not_used (by change 0 < s.tun.idle (.read i) + _; omega)⟩, ?_⟩
  refine h.push (Io.readSqe s.tun i) (t := { s.tun with repost := s.tun.repost.dropLast }) rfl hvalid le_rfl rfl rfl
    (List.Subset.refl spare) fun b => ?_
  cases b with
  | read k =>
    simp only [IoUringTun.idle, hcount k, Io.readSqe, Buffer.read.injEq]
    omega
  | write k => simp only [IoUringTun.idle, Io.readSqe, reduceCtorEq, if_false, Nat.add_zero]

/-- A packet that is delivered moves its buffer from `read_ready` to `repost`. -/
theorem Sound.deliver (h : Sound spare s) {i len : Nat} (hi : s.tun.readReady.head? = some (i, len)) (room : Nat) :
    s.Allowed (.copyOut i (min len room)) ∧
      Sound spare { s with
        tun := { s.tun with readReady := s.tun.readReady.tail, repost := s.tun.repost ++ [i] } } := by
  obtain ⟨rest, hsplit⟩ : ∃ rest, s.tun.readReady = (i, len) :: rest := List.head?_eq_some_iff.mp hi
  have hmem : (i, len) ∈ s.tun.readReady := hsplit ▸ List.mem_cons_self
  have hidle : 0 < s.tun.idle (.read i) := by
    rw [IoUringTun.idle, hsplit, List.map_cons, List.count_cons_self]
    omega
  have hfits := h.ready _ hmem
  refine ⟨⟨h.not_used (by omega), (Nat.min_le_left _ _).trans hfits⟩, ?_⟩
  refine ⟨h.ring, h.tagged, h.posted, fun p hp => h.ready p (List.mem_of_mem_tail hp), h.spared, fun b => ?_⟩
  rw [← h.once b]
  cases b with
  | read k =>
    simp only [outstanding, queued, IoUringTun.idle, hsplit, List.tail_cons, List.map_cons, List.count_cons,
      List.count_append, List.count_nil]
    omega
  | write k => rfl

/-- Sending moves the last of `write_free` to the queue. -/
theorem Sound.send (h : Sound spare s) {j n : Nat} (hj : s.tun.writeFree.getLast? = some j) (hn : n ≤ s.tun.bufsz) :
    s.Allowed (.push (Io.writeSqe s.tun j n)) ∧
      Sound spare { s with
        tun := { s.tun with
          writeFree := s.tun.writeFree.dropLast, ring := s.tun.ring.push (Io.writeSqe s.tun j n) } } := by
  have hsplit : s.tun.writeFree.dropLast ++ [j] = s.tun.writeFree := List.dropLast_append_getLast? j hj
  have hcount : ∀ k, s.tun.writeFree.count k = s.tun.writeFree.dropLast.count k + if j = k then 1 else 0 := by
    intro k
    rw [← hsplit, List.dropLast_concat, List.count_append, List.count_singleton]
    simp only [beq_iff_eq]
  have hidle : 0 < s.tun.idle (.write j) := by
    rw [IoUringTun.idle, hcount j, if_pos rfl]
    omega
  have hvalid : (Buffer.write j).Valid := by
    by_contra hno
    have honce := h.once (.write j)
    rw [if_neg hno] at honce
    omega
  refine ⟨⟨h.sqFree_pos, h.not_used (by change 0 < s.tun.idle (.write j) + _; omega)⟩, ?_⟩
  refine h.push (Io.writeSqe s.tun j n) (t := { s.tun with writeFree := s.tun.writeFree.dropLast }) rfl hvalid hn
    rfl rfl (List.Subset.refl spare) fun b => ?_
  cases b with
  | read k => simp only [IoUringTun.idle, Io.writeSqe, reduceCtorEq, if_false, Nat.add_zero]
  | write k =>
    simp only [IoUringTun.idle, hcount k, Io.writeSqe, Buffer.write.injEq]
    omega

/-- The packet may be written into the buffer that `write_free` holds last. -/
theorem Sound.fill (h : Sound spare s) {j : Nat} (hj : s.tun.writeFree.getLast? = some j) {data : List UInt8}
    (hlen : data.length ≤ s.tun.bufsz) :
    s.Allowed (.copyIn j data) ∧ Sound spare { s with tun := s.tun.store (.write j) data } := by
  have hidle : 0 < s.tun.idle (.write j) := List.count_pos_iff.mpr (List.mem_of_getLast? hj)
  exact ⟨⟨h.not_used (by omega), hlen⟩, ⟨h.ring, h.tagged, h.posted, h.ready, h.spared, h.once⟩⟩

/-- Opening posts the read buffers one after the other. -/
theorem Sound.openRead {i : Nat} (h : Sound (i :: spare) s) :
    s.Allowed (.push (Io.readSqe s.tun i)) ∧
      Sound spare { s with tun := { s.tun with ring := s.tun.ring.push (Io.readSqe s.tun i) } } := by
  refine ⟨⟨h.sqFree_pos, h.not_used ?_⟩, ?_⟩
  · change 0 < s.tun.idle (.read i) + (Buffer.read i :: spare.map Buffer.read).count (.read i)
    rw [List.count_cons_self]
    omega
  · refine h.push (Io.readSqe s.tun i) (t := s.tun) rfl (h.spared i List.mem_cons_self) le_rfl rfl rfl
      (List.subset_cons_self i spare) fun b => ?_
    change _ = _ + _ + if Buffer.read i = b then 1 else 0
    rw [List.map_cons, List.count_cons]
    simp only [beq_iff_eq]
    omega

/-! ## The parts of the calls -/

section Parts

variable {C : Pools → Prop} {Safe : Driver → Access → Prop} (hsafe : ∀ s a, Sound spare s → s.Allowed a → Safe s a)

theorem triple_look {α : Type} (f : IoUringTun → α) (g : Pools → α) (hg : ∀ s : Driver, f s.tun = g s.pools) :
    Triple Safe (Inv spare C) (Io.look f) fun a => Inv spare fun p => C p ∧ g p = a :=
  triple_silent _ fun s h => ⟨h.1, h.2, (hg s).symm⟩

include hsafe

theorem triple_step {α : Type} {a : Access} {f : Int → Driver → α × Driver} {Q : α → Driver → Prop}
    (hallowed : ∀ s, Inv spare C s → s.Allowed a) (hstep : ∀ r s, Inv spare C s → Q (f r s).1 (f r s).2) :
    Triple Safe (Inv spare C) (act Driver.kernel a f) Q :=
  triple_act a f (stable_inv spare C) (fun s h => hsafe s a h.1 (hallowed s h)) hstep

theorem triple_sqFree : Triple Safe (Inv spare C) Io.sqFree fun n s => Inv spare C s ∧ 0 < n :=
  triple_step hsafe (fun _ _ => trivial) fun _ _ h => ⟨h, h.1.sqFree_pos⟩

theorem triple_submit : Triple Safe (Inv spare C) Io.submit fun _ => Inv spare C := by
  have hpending : Triple Safe (Inv spare C) (Io.look (·.ring.pending)) fun _ => Inv spare C :=
    triple_silent _ fun s h => h
  have hpublish : Triple Safe (Inv spare C)
      (Io.touch .publish fun t => { t with ring.sqTail := t.ring.sqLocalTail }) fun _ => Inv spare C :=
    triple_step hsafe (fun _ _ => trivial) fun _ s h =>
      ⟨⟨h.1.ring.publish, h.1.tagged, h.1.posted, h.1.ready, h.1.spared, h.1.once⟩, h.2⟩
  have henter : ∀ n, Triple Safe (Inv spare C) (act Driver.kernel (.enter n) fun rc s => (rc, s)) fun _ => Inv spare C :=
    fun n => triple_step hsafe (fun _ _ => trivial) fun _ _ h => h
  have hclear : Triple Safe (Inv spare C)
      (silent fun s => ((), { s with tun.ring.pending := 0 }) : Io Unit) fun _ => Inv spare C :=
    triple_silent _ fun s h =>
      ⟨⟨⟨h.1.ring.sqMask, h.1.ring.cqMask, h.1.ring.sqHead, h.1.ring.sqTail, h.1.ring.sqLocalTail, h.1.ring.cqHead,
        h.1.ring.cqTail, h.1.ring.published, h.1.ring.cqRoom⟩, h.1.tagged, h.1.posted, h.1.ready, h.1.spared,
        h.1.once⟩, h.2⟩
  have hdone : ∀ r : Except DeviceError Unit, Triple Safe (Inv spare C) (pure r : Io _) fun _ => Inv spare C :=
    fun r => triple_pure r fun _ h => h
  apply triple_bind hpending
  intro toSubmit
  split
  · exact hdone _
  · apply triple_bind hpublish
    intro _
    apply triple_bind (henter toSubmit)
    intro rc
    split
    · exact hdone _
    · apply triple_bind hclear
      intro _
      exact hdone _

theorem triple_drainCq : Triple Safe (Inv spare fun _ => True) Io.drainCq fun _ => Inv spare fun _ => True := by
  rw [Io.drainCq]
  exact triple_step hsafe (fun _ _ => trivial) fun _ _ h => ⟨h.1.drain, trivial⟩

theorem triple_pushRead (i : Nat) : Triple Safe (Inv spare fun p => p.repost.getLast? = some i) (Io.pushRead i)
    fun _ => Inv spare fun _ => True := by
  apply triple_bind (triple_look (Io.readSqe · i)
    (fun p => ⟨ioringOpRead, p.fd, .read i, p.bufsz, offCurPos, readUd i⟩) fun _ => rfl)
  intro sqe
  refine triple_step hsafe (fun s h => ?_) fun _ s h => ?_
  · rw [← h.2.2]
    exact (h.1.repost h.2.1).1
  · rw [← h.2.2]
    exact ⟨(h.1.repost h.2.1).2, trivial⟩

theorem triple_repostUpTo (n : Nat) :
    Triple Safe (Inv spare fun _ => True) (Io.repostUpTo n) fun _ => Inv spare fun _ => True := by
  induction n with
  | zero => exact triple_pure _ fun _ h => h
  | succ n ih =>
    apply triple_bind (triple_look (·.repost.getLast?) (·.repost.getLast?) fun _ => rfl)
    intro last
    cases last with
    | none => exact triple_pure _ fun _ h => ⟨h.1, trivial⟩
    | some i =>
      have hrest : Triple Safe (Inv spare fun p => True ∧ p.repost.getLast? = some i)
          (do Io.pushRead i; Io.repostUpTo n) fun _ => Inv spare fun _ => True :=
        triple_bind ((triple_pushRead hsafe i).mono (fun s h => ⟨h.1, h.2.2⟩) fun _ _ h => h) fun _ => ih
      apply triple_bind (triple_sqFree hsafe)
      intro free
      split
      · exact triple_bind ((triple_submit hsafe).mono (fun _ h => h.1) fun _ _ h => h) fun _ => hrest
      · exact hrest.mono (fun _ h => h.1) fun _ _ h => h

theorem triple_postReposts :
    Triple Safe (Inv spare fun _ => True) Io.postReposts fun _ => Inv spare fun _ => True := by
  have hlook : Triple Safe (Inv spare fun _ => True) (Io.look (·.repost.length)) fun _ => Inv spare fun _ => True :=
    triple_silent _ fun _ h => h
  exact triple_bind hlook (triple_repostUpTo hsafe)

/-! ## The calls -/

theorem triple_pollReadable (timeoutMs : Int) :
    Triple Safe (Inv spare fun _ => True) (Io.pollReadable timeoutMs) fun _ => Inv spare fun _ => True := by
  have hready : Triple Safe (Inv spare fun _ => True) (Io.look (·.readReady)) fun _ => Inv spare fun _ => True :=
    triple_silent _ fun _ h => h
  have hpoll : Triple Safe (Inv spare fun _ => True) (act Driver.kernel (.poll timeoutMs) fun rc s => (rc, s))
      fun _ => Inv spare fun _ => True :=
    triple_step hsafe (fun _ _ => trivial) fun _ _ h => h
  have hdone : ∀ r : Except DeviceError Bool,
      Triple Safe (Inv spare fun _ => True) (pure r : Io _) fun _ => Inv spare fun _ => True :=
    fun r => triple_pure r fun _ h => h
  apply triple_bind (triple_postReposts hsafe)
  intro _
  apply triple_bind (triple_submit hsafe)
  intro submitted
  cases submitted with
  | error e => exact hdone _
  | ok _ =>
    apply triple_bind (triple_drainCq hsafe)
    intro _
    apply triple_bind hready
    intro ready
    split
    · exact hdone _
    · apply triple_bind hpoll
      intro rc
      split
      · exact hdone _
      · have hanswer : Triple Safe (Inv spare fun _ => True)
            (do return .ok (decide ((← Io.look (·.readReady)) ≠ [])) : Io (Except DeviceError Bool))
            fun _ => Inv spare fun _ => True :=
          triple_bind hready fun _ => hdone _
        split
        · exact triple_bind (triple_drainCq hsafe) fun _ => hanswer
        · exact hanswer

theorem triple_recv (room : Nat) :
    Triple Safe (Inv spare fun _ => True) (Io.recv room) fun _ => Inv spare fun _ => True := by
  apply triple_bind (triple_look (·.readReady.head?) (·.readReady.head?) fun _ => rfl)
  intro front
  cases front with
  | none => exact triple_pure _ fun _ h => ⟨h.1, trivial⟩
  | some p =>
    obtain ⟨idx, len⟩ := p
    have hcopy : Triple Safe (Inv spare fun p => True ∧ p.readReady.head? = some (idx, len))
        (act Driver.kernel (.copyOut idx (min len room)) fun _ s => ((s.tun.bufs (.read idx)).take (min len room),
          { s with tun.readReady := s.tun.readReady.tail, tun.repost := s.tun.repost ++ [idx] }))
        fun _ => Inv spare fun _ => True :=
      triple_step hsafe (fun s h => (h.1.deliver h.2.2 room).1) fun _ s h => ⟨(h.1.deliver h.2.2 room).2, trivial⟩
    apply triple_bind hcopy
    exact fun _ => triple_pure _ fun _ h => h

theorem triple_pushWrite (j n : Nat) :
    Triple Safe (Inv spare fun p => p.writeFree.getLast? = some j ∧ n ≤ p.bufsz) (Io.pushWrite j n)
      fun _ => Inv spare fun _ => True := by
  apply triple_bind (triple_look (Io.writeSqe · j n)
    (fun p => ⟨ioringOpWrite, p.fd, .write j, n, offCurPos, writeUd j⟩) fun _ => rfl)
  intro sqe
  refine triple_step hsafe (fun s h => ?_) fun _ s h => ?_
  · rw [← h.2.2]
    exact (h.1.send h.2.1.1 h.2.1.2).1
  · rw [← h.2.2]
    exact ⟨(h.1.send h.2.1.1 h.2.1.2).2, trivial⟩

/-- The queue is never full, so that no buffer is lost. -/
theorem triple_sendFrom (j : Nat) (pkt : List UInt8) :
    Triple Safe (Inv spare fun p => p.writeFree.getLast? = some j) (Io.sendFrom j pkt)
      fun _ => Inv spare fun _ => True := by
  apply triple_bind (triple_look (fun t => min pkt.length t.bufsz) (fun p => min pkt.length p.bufsz) fun _ => rfl)
  intro n
  have hfits : ∀ s, Inv spare (fun p => p.writeFree.getLast? = some j ∧ min pkt.length p.bufsz = n) s →
      n ≤ s.tun.bufsz ∧ (pkt.take n).length ≤ s.tun.bufsz := by
    intro s h
    have hn : n ≤ s.tun.bufsz := h.2.2 ▸ Nat.min_le_right ..
    exact ⟨hn, (List.length_take_le ..).trans hn⟩
  have hfill : Triple Safe (Inv spare fun p => p.writeFree.getLast? = some j ∧ min pkt.length p.bufsz = n)
      (Io.touch (.copyIn j (pkt.take n)) (·.store (.write j) (pkt.take n)))
      fun _ => Inv spare fun p => p.writeFree.getLast? = some j ∧ n ≤ p.bufsz :=
    triple_step hsafe (fun s h => (h.1.fill h.2.1 (hfits s h).2).1) fun _ s h =>
      ⟨(h.1.fill h.2.1 (hfits s h).2).2, h.2.1, (hfits s h).1⟩
  apply triple_bind hfill
  intro _
  apply triple_bind (triple_sqFree hsafe)
  intro free
  have hpush : Triple Safe (fun s => Inv spare (fun p => p.writeFree.getLast? = some j ∧ n ≤ p.bufsz) s ∧ 0 < free)
      (do Io.pushWrite j n; return .ok () : Io (Except DeviceError Unit)) fun _ => Inv spare fun _ => True :=
    triple_bind ((triple_pushWrite hsafe j n).mono (fun _ h => h.1) fun _ _ h => h) fun _ => triple_pure _ fun _ h => h
  split
  · rename_i hfull
    intro w hw
    rw [hfull] at hw
    exact absurd hw.2 (Nat.lt_irrefl 0)
  · exact hpush

theorem triple_send (pkt : List UInt8) :
    Triple Safe (Inv spare fun _ => True) (Io.send pkt) fun _ => Inv spare fun _ => True := by
  have hlast : Triple Safe (Inv spare fun _ => True) (Io.look (·.writeFree.getLast?))
      fun last => Inv spare fun p => True ∧ p.writeFree.getLast? = last :=
    triple_look _ (·.writeFree.getLast?) fun _ => rfl
  have hfrom : ∀ j, Triple Safe (Inv spare fun p => True ∧ p.writeFree.getLast? = some j) (Io.sendFrom j pkt)
      fun _ => Inv spare fun _ => True :=
    fun j => (triple_sendFrom hsafe j pkt).mono (fun _ h => ⟨h.1, h.2.2⟩) fun _ _ h => h
  have hdone : ∀ (r : Except DeviceError Unit) (C : Pools → Prop),
      Triple Safe (Inv spare C) (pure r : Io _) fun _ => Inv spare fun _ => True :=
    fun r C => triple_pure r fun _ h => ⟨h.1, trivial⟩
  apply triple_bind hlast
  intro last
  cases last with
  | some j => exact hfrom j
  | none =>
    apply triple_bind ((triple_postReposts hsafe).mono (fun _ h => ⟨h.1, trivial⟩) fun _ _ h => h)
    intro _
    apply triple_bind (triple_submit hsafe)
    intro submitted
    cases submitted with
    | error e => exact hdone _ _
    | ok _ =>
      apply triple_bind (triple_drainCq hsafe)
      intro _
      apply triple_bind hlast
      intro last
      cases last with
      | some j => exact hfrom j
      | none => exact hdone _ _

end Parts

/-! ## Every run -/

/-- A call of the device. -/
inductive DeviceCall where
  | pollReadable (timeoutMs : Int)
  | recv (room : Nat)
  | send (pkt : List UInt8)
  deriving DecidableEq, Repr

def perform : DeviceCall → Io Unit
  | .pollReadable timeoutMs => do let _ ← Io.pollReadable timeoutMs
  | .recv room => do let _ ← Io.recv room
  | .send pkt => do let _ ← Io.send pkt

def performAll : List DeviceCall → Io Unit
  | [] => pure ()
  | c :: cs => do
    perform c
    performAll cs

theorem outstanding_fresh (fd bufsz : Nat) :
    (fresh fd bufsz).queued = [] ∧ (fresh fd bufsz).tun.ring.posted = [] ∧ ∀ b, (fresh fd bufsz).outstanding b = 0 := by
  have hzero : distance 0 0 = 0 := distance_self (by decide)
  have hqueued : (fresh fd bufsz).queued = [] := by
    simp only [queued, IoUring.queued, fresh, hzero, entries_zero]
  have hposted : (fresh fd bufsz).tun.ring.posted = [] := by
    simp only [IoUring.posted, fresh, hzero, entries_zero]
  refine ⟨hqueued, hposted, fun b => ?_⟩
  have hflight : (fresh fd bufsz).inFlight = [] := rfl
  simp only [outstanding, hqueued, hposted, hflight, List.map_nil, List.count_nil]

theorem sound_fresh (fd bufsz : Nat) : Sound (List.range nRead) (fresh fd bufsz) := by
  have hsmall : 0 < 4294967296 := by decide
  have hempty : distance 0 0 ≤ 2 ^ 11 := by decide
  obtain ⟨hqueued, hposted, hout⟩ := outstanding_fresh fd bufsz
  refine ⟨⟨rfl, rfl, hsmall, hsmall, hsmall, hsmall, hsmall, le_rfl, hempty⟩, fun sqe hmem => ?_, fun c hc => ?_,
    fun p hp => absurd hp List.not_mem_nil, fun i hi => List.mem_range.mp hi, fun b => ?_⟩
  · rw [hqueued] at hmem
    cases hmem
  · rw [hposted] at hc
    cases hc
  · rw [hout]
    cases b with
    | read i =>
      simp only [fresh, IoUringTun.idle, List.map_nil, List.count_nil, Nat.zero_add]
      rw [List.count_map_of_injective _ _ fun _ _ h => Buffer.read.inj h, List.count_range]
      exact if_congr Iff.rfl rfl rfl
    | write j =>
      have hspare : ((List.range nRead).map Buffer.read).count (.write j) = 0 := by
        rw [List.count_eq_zero]
        intro hmem
        obtain ⟨i, -, hi⟩ := List.mem_map.mp hmem
        cases hi
      simp only [fresh, IoUringTun.idle]
      rw [hspare, List.count_range, Nat.zero_add, Nat.add_zero]
      exact if_congr Iff.rfl rfl rfl

theorem triple_openReads {Safe : Driver → Access → Prop} (hsafe : ∀ spare s a, Sound spare s → s.Allowed a → Safe s a)
    (is : List Nat) :
    Triple Safe (Inv is fun _ => True) (Io.openReads is) fun _ => Inv [] fun _ => True := by
  induction is with
  | nil => exact triple_submit (hsafe [])
  | cons i is ih =>
    apply triple_bind (triple_look (Io.readSqe · i)
      (fun p => ⟨ioringOpRead, p.fd, .read i, p.bufsz, offCurPos, readUd i⟩) fun _ => rfl)
    intro sqe
    have hpush : Triple Safe (Inv (i :: is) fun p => True ∧
          (⟨ioringOpRead, p.fd, .read i, p.bufsz, offCurPos, readUd i⟩ : Sqe) = sqe)
        (Io.touch (.push sqe) fun t => { t with ring := t.ring.push sqe }) fun _ => Inv is fun _ => True := by
      refine triple_step (hsafe _) (fun s h => ?_) fun _ s h => ?_
      · rw [← h.2.2]
        exact h.1.openRead.1
      · rw [← h.2.2]
        exact ⟨h.1.openRead.2, trivial⟩
    exact triple_bind hpush fun _ => ih

theorem triple_openTun :
    Triple Allowed (Inv (List.range nRead) fun _ => True) Io.openTun fun _ => Inv [] fun _ => True := by
  rw [Io.openTun]
  exact triple_openReads (fun _ _ _ _ h => h) _

theorem triple_performAll {Safe : Driver → Access → Prop} (hsafe : ∀ s a, Sound [] s → s.Allowed a → Safe s a)
    (calls : List DeviceCall) :
    Triple Safe (Inv [] fun _ => True) (performAll calls) fun _ => Inv [] fun _ => True := by
  induction calls with
  | nil => exact triple_pure _ fun _ h => h
  | cons c cs ih =>
    have hcall : Triple Safe (Inv [] fun _ => True) (perform c) fun _ => Inv [] fun _ => True := by
      cases c with
      | pollReadable timeoutMs => exact triple_bind (triple_pollReadable hsafe timeoutMs) fun _ => triple_pure _ fun _ h => h
      | recv room => exact triple_bind (triple_recv hsafe room) fun _ => triple_pure _ fun _ h => h
      | send pkt => exact triple_bind (triple_send hsafe pkt) fun _ => triple_pure _ fun _ h => h
    exact triple_bind hcall fun _ => ih

/-- Whatever the kernel does before and in `open`, and before each step of any calls after it: every
buffer is in one place at every step, a slot is free at every push, and the kernel may use no buffer
that the device pushes, writes or reads. (A part of a turn of the kernel is itself one, so that
nothing between two of its steps is left out.) -/
theorem buffers_owned (fd bufsz : Nat) (turns : Nat → Turn KernelAct Int) (calls : List DeviceCall) :
    let opened := (Io.openTun ⟨fresh fd bufsz, turns, []⟩).2
    let ran := (performAll calls { opened with log := [] }).2
    (∀ e ∈ opened.log, e.1.Allowed e.2) ∧ opened.state.Partition ∧
      (∀ e ∈ ran.log, e.1.Partition ∧ e.1.Allowed e.2) ∧
      ∀ acts : List KernelAct, (acts.foldl Driver.kernel ran.state).Partition := by
  have hopen := triple_openTun ⟨fresh fd bufsz, turns, []⟩ ⟨sound_fresh fd bufsz, trivial⟩
    fun e he => absurd he List.not_mem_nil
  generalize Io.openTun ⟨fresh fd bufsz, turns, []⟩ = opened at hopen ⊢
  obtain ⟨hopened, hopening⟩ := hopen
  have hsafe : ∀ s a, Sound [] s → s.Allowed a → s.Partition ∧ s.Allowed a := fun s a hs ha => ⟨hs.partition, ha⟩
  have hperform := triple_performAll hsafe calls { opened.2 with log := [] } hopened
    fun e he => absurd he List.not_mem_nil
  dsimp only
  generalize performAll calls { opened.2 with log := [] } = ran at hperform ⊢
  obtain ⟨hran, hlog⟩ := hperform
  exact ⟨hopening, hopened.1.partition, hlog, fun acts => ((stable_inv [] fun _ => True).foldl hran acts).1.partition⟩

end Driver

end Ferrumnet
