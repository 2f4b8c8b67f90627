import Ferrumnet.Lib.Run
import Ferrumnet.Ownership

/-
  The count of submissions still to be consumed, kept by `submit`.

  A failed `io_uring_enter` keeps the count, and one that consumes all it was asked for
  clears it. One that consumes fewer clears it too, and leaves the others in the queue.

  1. `consumes` — what the kernel consumes leaves the queue from its front.
  2. `submitWith_entered`, `submitWith_failed` — one submit.
  3. `pending_kept` — every run.
-/

namespace Ferrumnet

open FreeRunning Interleaving

/-- The calls of the ring. The kernel answers a submit with how many it has consumed, or fails. -/
inductive RingCall where
  | push (sqe : Sqe)
  | submit (answer : Option Nat)
  deriving DecidableEq, Repr

namespace RingCall

/-- The kernel's turn before the answer to `io_uring_enter`. -/
def turn : Option Nat → Turn KernelAct Int
  | some k => ⟨List.replicate k .consume, k⟩
  | none => ⟨[], -1⟩

/-- `submit` publishes the tail in its first step and enters the kernel in its second. -/
def turns (answer : Option Nat) (n : Nat) : Turn KernelAct Int := if n = 1 then turn answer else ⟨[], 0⟩

end RingCall

namespace Driver

def submitWith (s : Driver) (answer : Option Nat) : Driver := (Io.submit ⟨s, RingCall.turns answer, []⟩).2.state

/-- One call. A push needs a free slot, and the kernel consumes no more than it is asked for and finds. -/
def ringCall (s : Driver) : RingCall → Option Driver
  | .push sqe => if 0 < s.tun.ring.sqFree then some { s with tun.ring := s.tun.ring.push sqe } else none
  | .submit none => some (s.submitWith none)
  | .submit (some k) =>
    if k ≤ s.tun.ring.pending ∧ k ≤ s.queued.length then some (s.submitWith (some k)) else none

/-- The count is that of the submissions pushed and not consumed. -/
def Counted (s : Driver) : Prop := s.tun.ring.pending = s.queued.length

instance (s : Driver) : Decidable s.Counted := inferInstanceAs (Decidable (_ = _))

/-- The count is right after a submit. -/
def CountedAfter (s : Driver) : RingCall → Prop
  | .push _ => True
  | .submit answer => ∀ t, s.ringCall (.submit answer) = some t → t.Counted

/-- The kernel consumes no fewer than it is asked for, or fails. -/
def Whole (s : Driver) : RingCall → Prop
  | .submit (some k) => s.tun.ring.pending ≤ k
  | _ => True

/-! ## One submit -/

variable {s : Driver}

/-- The kernel takes from the front of what is published. -/
theorem consumes {k : Nat} (h : s.tun.ring.Wf) (hk : k ≤ distance s.tun.ring.sqTail s.tun.ring.sqHead) :
    ((List.replicate k KernelAct.consume).foldl kernel s).tun.ring.Wf ∧
      ((List.replicate k KernelAct.consume).foldl kernel s).queued = s.queued.drop k := by
  induction k generalizing s with
  | zero => exact ⟨h, rfl⟩
  | succ k ih =>
    have hne : s.tun.ring.sqHead ≠ s.tun.ring.sqTail := by
      intro heq
      rw [heq, distance_self h.sqTail] at hk
      omega
    obtain ⟨hwf, hqueued⟩ := h.consume hne
    have hleft := distance_next h.sqHead h.sqTail (Ne.symm hne)
    have hring : (s.kernel .consume).tun.ring =
        { s.tun.ring with sqHead := advance s.tun.ring.sqHead 1 } := by
      simp only [kernel, if_neg hne]
    obtain ⟨hwf', hdrop⟩ := ih (s := s.kernel .consume) (by rw [hring]; exact hwf) (by rw [hring, hleft]; omega)
    refine ⟨hwf', hdrop.trans ?_⟩
    rw [queued, queued, hqueued, List.drop_succ_cons, hring]

/-- The device with everything published. -/
def published (s : Driver) : Driver := { s with tun.ring.sqTail := s.tun.ring.sqLocalTail }

theorem submitWith_idle (h : s.tun.ring.pending = 0) (answer : Option Nat) : s.submitWith answer = s := by
  change ((if s.tun.ring.pending = 0 then _ else _ : Io (Except DeviceError Unit)) _).2.state = _
  rw [if_pos h]
  rfl

theorem submitWith_failed (h : s.tun.ring.pending ≠ 0) : s.submitWith none = s.published := by
  change ((if s.tun.ring.pending = 0 then _ else _ : Io (Except DeviceError Unit)) _).2.state = _
  rw [if_neg h]
  rfl

theorem submitWith_entered (h : s.tun.ring.pending ≠ 0) (k : Nat) :
    s.submitWith (some k) =
      { (List.replicate k KernelAct.consume).foldl kernel s.published with tun.ring.pending := 0 } := by
  change ((if s.tun.ring.pending = 0 then _ else _ : Io (Except DeviceError Unit)) _).2.state = _
  rw [if_neg h]
  rfl

/-! ## Every run -/

/-- The invariant of a run in which the kernel consumes all it is asked for. -/
structure Level (s : Driver) : Prop where
  ring : s.tun.ring.Wf
  counted : s.Counted

theorem published_frame (h : s.tun.ring.Wf) : s.published.tun.ring.Wf ∧ s.published.queued = s.queued ∧
    distance s.published.tun.ring.sqTail s.published.tun.ring.sqHead = s.queued.length := by
  refine ⟨h.publish, rfl, ?_⟩
  rw [queued, IoUring.length_queued]
  rfl

/-- After an enter that consumes `k`, what was behind them is queued, and not counted. -/
theorem entered (h : s.tun.ring.Wf) (hne : s.tun.ring.pending ≠ 0) {k : Nat} (hk : k ≤ s.queued.length) :
    (s.submitWith (some k)).tun.ring.Wf ∧ (s.submitWith (some k)).tun.ring.pending = 0 ∧
      (s.submitWith (some k)).queued.length = s.queued.length - k := by
  obtain ⟨hwf, hqueued, hpublished⟩ := published_frame h
  obtain ⟨hwf', hdrop⟩ := consumes hwf (hk.trans hpublished.ge)
  rw [submitWith_entered hne]
  generalize (List.replicate k KernelAct.consume).foldl kernel s.published = t at hwf' hdrop ⊢
  refine ⟨⟨hwf'.sqMask, hwf'.cqMask, hwf'.sqHead, hwf'.sqTail, hwf'.sqLocalTail, hwf'.cqHead, hwf'.cqTail,
    hwf'.published, hwf'.cqRoom⟩, rfl, ?_⟩
  change t.queued.length = _
  rw [hdrop, List.length_drop, hqueued]

/-- One submit, where the count was right before it. -/
theorem Level.submit_iff (h : Level s) (a : RingCall) : s.CountedAfter a ↔ s.Whole a := by
  cases a with
  | push sqe => exact Iff.rfl
  | submit answer =>
    cases answer with
    | none =>
      refine iff_of_true (fun t ht => ?_) trivial
      cases ht
      by_cases hzero : s.tun.ring.pending = 0
      · rw [submitWith_idle hzero]
        exact h.counted
      · rw [submitWith_failed hzero]
        exact h.counted
    | some k =>
      simp only [CountedAfter, Whole, ringCall]
      by_cases hzero : s.tun.ring.pending = 0
      · refine iff_of_true (fun t ht => ?_) (by omega)
        obtain ⟨-, ht⟩ := Option.ite_none_right_eq_some.mp ht
        cases ht
        rw [submitWith_idle hzero]
        exact h.counted
      · have hcounted : s.tun.ring.pending = s.queued.length := h.counted
        constructor
        · intro hafter
          by_contra hless
          have hk : k ≤ s.tun.ring.pending ∧ k ≤ s.queued.length := by omega
          have hright := hafter _ (if_pos hk)
          obtain ⟨-, hpending, hlength⟩ := entered h.ring hzero hk.2
          rw [Counted, hpending, hlength] at hright
          omega
        · intro hwhole t ht
          obtain ⟨hk, ht⟩ := Option.ite_none_right_eq_some.mp ht
          cases ht
          obtain ⟨-, hpending, hlength⟩ := entered h.ring hzero hk.2
          rw [Counted, hpending, hlength]
          omega

/-- Such a call keeps it. -/
theorem Level.call (h : Level s) {a : RingCall} (hwhole : s.Whole a) {t : Driver} (ht : s.ringCall a = some t) :
    Level t := by
  cases a with
  | push sqe =>
    obtain ⟨hfree, ht⟩ := Option.ite_none_right_eq_some.mp ht
    cases ht
    have hroom : s.tun.ring.queued.length < 1024 := by
      rw [h.ring.sqFree] at hfree
      omega
    obtain ⟨hwf, hqueued⟩ := h.ring.push hroom sqe
    have hcounted : s.tun.ring.pending = s.tun.ring.queued.length := h.counted
    refine ⟨hwf, ?_⟩
    calc (s.tun.ring.push sqe).pending
        = (s.tun.ring.pending + 1) % 4294967296 := rfl
      _ = s.tun.ring.queued.length + 1 := by rw [hcounted, Nat.mod_eq_of_lt (by omega)]
      _ = (s.tun.ring.push sqe).queued.length := by rw [hqueued, List.length_append, List.length_singleton]
  | submit answer =>
    have hcounted : t.Counted := (h.submit_iff (.submit answer)).mpr hwhole t ht
    cases answer with
    | none =>
      cases ht
      by_cases hzero : s.tun.ring.pending = 0
      · rw [submitWith_idle hzero]
        exact h
      · rw [submitWith_failed hzero] at hcounted ⊢
        exact ⟨h.ring.publish, hcounted⟩
    | some k =>
      obtain ⟨hk, ht⟩ := Option.ite_none_right_eq_some.mp ht
      cases ht
      by_cases hzero : s.tun.ring.pending = 0
      · rw [submitWith_idle hzero]
        exact h
      · exact ⟨(entered h.ring hzero hk.2).1, hcounted⟩

/-- In every run the count is right after every submit exactly if the kernel, whenever it does not
fail, consumes all that it is asked for. -/
theorem pending_kept (fd bufsz : Nat) (calls : List RingCall) :
    Run.Along ringCall CountedAfter (fresh fd bufsz) calls ↔ Run.Along ringCall Whole (fresh fd bufsz) calls :=
  Run.along_iff_along (I := Level) (fun _ _ _ h hw ht => h.call hw ht) (fun _ a h => h.submit_iff a)
    ⟨(sound_fresh fd bufsz).ring, by rw [Counted, (outstanding_fresh fd bufsz).1]; rfl⟩ calls

/-- Two reads pushed, of which the kernel consumes one: the other is queued, and not counted. -/
theorem submission_stranded :
    ∃ s t, Run.run ringCall (fresh 3 1564)
        [.push (Io.readSqe (fresh 3 1564).tun 0), .push (Io.readSqe (fresh 3 1564).tun 1)] = some s ∧
      s.ringCall (.submit (some 1)) = some t ∧ t.tun.ring.pending = 0 ∧
      t.queued = [Io.readSqe (fresh 3 1564).tun 1] ∧ ¬ t.Counted :=
  ⟨_, _, rfl, rfl, by decide +kernel, by decide +kernel, by decide +kernel⟩

end Driver

end Ferrumnet
