import Mathlib.Data.List.AList
import Ferrumnet.Lib.Run
import Ferrumnet.Lib.Chronicle

/-
  The executor.

  A task is a future, which the executor polls when it is woken. What futures do is left
  open: `poll` says what a future does while it is polled, from what the tasks share, and
  what is left of it. It may wake any task, itself included, and spawn others; a task that
  is polled is out of the table meanwhile.

  A log stands beside the state: what was spawned, woken and polled, and what the polls
  returned. Nothing reads it.

  1. `run_ready_sound` — when `run_ready` returns, no wake and no task is lost, and no poll
     came unasked.
-/

namespace Ferrumnet

namespace Executor

/-- What a task does while it is polled. -/
inductive Deed (F : Type) where
  | wake (id : Nat)
  | spawn (fut : F)
  deriving DecidableEq, Repr

/-- A poll of a future. -/
structure Turn (F σ : Type) where
  /-- What the future does, its destructor included. -/
  deeds : List (Deed F)
  /-- What is left of the future, `none` when it is ready. -/
  left : Option F
  shared : σ

inductive Event (F : Type) where
  | spawned (id : Nat) (fut : F)
  | woke (id : Nat)
  | polled (id : Nat)
  | returned (id : Nat) (left : Option F)
  deriving DecidableEq, Repr

end Executor

structure Executor (F σ : Type) where
  tasks : AList fun _ : Nat => F
  nextId : Nat
  woken : List Nat
  /-- What the tasks and the rest of the program share. -/
  shared : σ
  /-- What has happened. -/
  log : List (Executor.Event F)

namespace Executor

variable {F σ : Type}

def new (shared : σ) : Executor F σ := { tasks := ∅, nextId := 0, woken := [], shared := shared, log := [] }

/-- `TaskWaker::wake`. -/
def wake (e : Executor F σ) (id : Nat) : Executor F σ :=
  { e with woken := e.woken ++ [id], log := e.log ++ [.woke id] }

/-- `Spawner::spawn`. -/
def spawn (e : Executor F σ) (fut : F) : Executor F σ :=
  let id := e.nextId
  { e with
    nextId := id + 1
    tasks := e.tasks.insert id fut
    woken := e.woken ++ [id]
    log := e.log ++ [.spawned id fut] }

def perform (e : Executor F σ) : Deed F → Executor F σ
  | .wake id => e.wake id
  | .spawn fut => e.spawn fut

/-- The future is taken out of the table to be polled. -/
def take (e : Executor F σ) (id : Nat) : Executor F σ :=
  { e with tasks := e.tasks.erase id, log := e.log ++ [.polled id] }

/-- The future is put back if it is pending, and dropped if it is ready. -/
def putBack (e : Executor F σ) (id : Nat) (left : Option F) (shared : σ) : Executor F σ :=
  let tasks :=
    match left with
    | some fut => e.tasks.insert id fut
    | none => e.tasks
  { e with tasks := tasks, shared := shared, log := e.log ++ [.returned id left] }

variable (poll : σ → Nat → F → Turn F σ)

/-- One id of the batch. -/
def pollTask (e : Executor F σ) (id : Nat) : Executor F σ :=
  match e.tasks.lookup id with
  | none => e
  | some fut =>
    let turn := poll e.shared id fut
    (turn.deeds.foldl perform (e.take id)).putBack id turn.left turn.shared

/-- Poll every woken task, until the woken queue drains: at most `fuel` rounds, the last
of which finds it empty. -/
def runReady : Nat → Executor F σ → Option (Executor F σ)
  | 0, _ => none
  | fuel + 1, e =>
    let ids := e.woken
    let e := { e with woken := [] }
    if ids.isEmpty then some e else runReady fuel (ids.foldl (pollTask poll) e)

/-- What the rest of the program does with the executor. -/
inductive Act (F σ : Type) where
  | spawn (fut : F)
  | wake (id : Nat)
  | share (shared : σ)
  | runReady (fuel : Nat)

def apply (e : Executor F σ) : Act F σ → Option (Executor F σ)
  | .spawn fut => some (e.spawn fut)
  | .wake id => some (e.wake id)
  | .share shared => some { e with shared := shared }
  | .runReady fuel => e.runReady poll fuel

/-! ## The log -/

namespace Event

/-- The event puts the task on the woken queue. -/
def notifies (id : Nat) : Event F → Bool
  | .spawned i _ => i == id
  | .woke i => i == id
  | _ => false

def polls (id : Nat) : Event F → Bool
  | .polled i => i == id
  | _ => false

/-- What there is of the task after the event. -/
def leaves (id : Nat) (before : Option F) : Event F → Option F
  | .spawned i fut => if i = id then some fut else before
  | .returned i left => if i = id then left else before
  | _ => before

section

variable (id i : Nat) (before left : Option F) (fut : F)

@[simp] theorem leaves_spawned : (spawned i fut).leaves id before = if i = id then some fut else before := rfl
@[simp] theorem leaves_woke : (woke i).leaves id before = before := rfl
@[simp] theorem leaves_polled : (polled i).leaves id before = before := rfl
@[simp] theorem leaves_returned : (returned i left).leaves id before = if i = id then left else before := rfl

end

/-- A poll is one that was asked for, and of a task that has not returned Ready. -/
def Due (before : List (Event F)) (ev : Event F) : Prop :=
  ∀ id, ev = .polled id →
    before.countP (polls id) < before.countP (notifies id) ∧ Event.returned id none ∉ before

end Event

/-- The task has been spawned, and has not returned Ready. -/
def Live (e : Executor F σ) (id : Nat) : Prop :=
  (∃ fut, Event.spawned id fut ∈ e.log) ∧ Event.returned id none ∉ e.log

/-- Every wake of the task, and its spawn, has been followed by a poll. -/
def Heeded (e : Executor F σ) (id : Nat) : Prop := Chronicle.Answered (Event.notifies id) (Event.polls id) e.log

/-- The future as its spawn or its last poll left it. -/
def standing (e : Executor F σ) (id : Nat) : Option F := e.log.foldl (Event.leaves id) none

/-! ## One step -/

/-- What holds while `batch` is still to be polled and the task `out` is out of the table. -/
structure Accounted (e : Executor F σ) (batch : List Nat) (out : Option Nat) : Prop where
  born : ∀ id fut, .spawned id fut ∈ e.log → id < e.nextId
  gone : ∀ id, .returned id none ∈ e.log → id < e.nextId
  stored : ∀ id, e.tasks.lookup id = if out = some id then none else e.standing id
  live : ∀ id, (e.standing id).isSome = true ↔ e.Live id
  out : ∀ id, out = some id → (e.standing id).isSome = true
  heard : ∀ id, (e.standing id).isSome = true → id ∈ batch ++ e.woken ∨ e.Heeded id
  counted : ∀ id, e.log.countP (Event.polls id) + (batch ++ e.woken).count id ≤ e.log.countP (Event.notifies id)
  due : Chronicle.Told Event.Due e.log

variable {e e' : Executor F σ} {batch batch' : List Nat} {out out' : Option Nat} {ev : Event F} {id : Nat}

theorem standing_concat (hlog : e'.log = e.log ++ [ev]) (id : Nat) : e'.standing id = ev.leaves id (e.standing id) := by
  rw [standing, standing, hlog, List.foldl_append]
  rfl

theorem heeded_concat (hlog : e'.log = e.log ++ [ev]) (id : Nat) :
    e'.Heeded id ↔ ev.notifies id = false ∧ (ev.polls id = true ∨ e.Heeded id) := by
  rw [Heeded, Heeded, hlog, Chronicle.answered_concat]

theorem live_concat (hlog : e'.log = e.log ++ [ev]) (id : Nat) :
    e'.Live id ↔ ((∃ fut, .spawned id fut ∈ e.log) ∨ ∃ fut, ev = .spawned id fut) ∧
      .returned id none ∉ e.log ∧ ev ≠ .returned id none := by
  simp only [Live, hlog, List.mem_append, List.mem_singleton, not_or, exists_or]
  constructor
  · rintro ⟨hspawned, hout, hev⟩
    exact ⟨hspawned.imp_right fun ⟨fut, h⟩ => ⟨fut, h.symm⟩, hout, fun h => hev h.symm⟩
  · rintro ⟨hspawned, hout, hev⟩
    exact ⟨hspawned.imp_right fun ⟨fut, h⟩ => ⟨fut, h.symm⟩, hout, fun h => hev h.symm⟩

/-- One event more. -/
theorem Accounted.concat (h : e.Accounted batch out) (ev : Event F) (hlog : e'.log = e.log ++ [ev]) (hnext : e.nextId ≤ e'.nextId)
    (hborn : ∀ i, (∃ fut, ev = .spawned i fut) ∨ ev = .returned i none → i < e'.nextId)
    (hstored : ∀ i, e'.tasks.lookup i = if out' = some i then none else ev.leaves i (e.standing i))
    (hlive : ∀ i, (ev.leaves i (e.standing i)).isSome = true ↔
      (e.Live i ∨ .returned i none ∉ e.log ∧ ∃ fut, ev = .spawned i fut) ∧ ev ≠ .returned i none)
    (hout : ∀ i, out' = some i → (ev.leaves i (e.standing i)).isSome = true)
    (hheard : ∀ i, (ev.leaves i (e.standing i)).isSome = true → i ∈ batch' ++ e'.woken ∨
      ev.notifies i = false ∧ (ev.polls i = true ∨ (e.standing i).isSome = true ∧ i ∉ batch ++ e.woken))
    (hcount : ∀ i, (ev.polls i).toNat + (batch' ++ e'.woken).count i ≤
      (batch ++ e.woken).count i + (ev.notifies i).toNat)
    (hdue : Event.Due e.log ev) : e'.Accounted batch' out' where
  born i fut hi := by
    rw [hlog] at hi
    rcases List.mem_append.mp hi with hi | hi
    · exact (h.born i fut hi).trans_le hnext
    · exact hborn i (.inl ⟨fut, (List.mem_singleton.mp hi).symm⟩)
  gone i hi := by
    rw [hlog] at hi
    rcases List.mem_append.mp hi with hi | hi
    · exact (h.gone i hi).trans_le hnext
    · exact hborn i (.inr (List.mem_singleton.mp hi).symm)
  stored i := by rw [standing_concat hlog]; exact hstored i
  live i := by
    rw [standing_concat hlog, hlive, live_concat hlog, Live]
    tauto
  out i hi := by rw [standing_concat hlog]; exact hout i hi
  heard i hi := by
    rw [standing_concat hlog] at hi
    rw [heeded_concat hlog]
    refine (hheard i hi).imp_right fun ⟨hask, hans⟩ => ⟨hask, hans.imp_right fun ⟨hsome, hnot⟩ => ?_⟩
    exact (h.heard i hsome).resolve_left hnot
  counted i := by
    have hold := h.counted i
    have hnew := hcount i
    have hone : ∀ p : Event F → Bool, e'.log.countP p = e.log.countP p + (p ev).toNat := by
      intro p
      rw [hlog, List.countP_append, List.countP_singleton]
      cases p ev <;> rfl
    rw [hone, hone]
    omega
  due := by
    rw [hlog]
    exact Chronicle.told_concat.mpr ⟨h.due, hdue⟩

/-! ## The steps of a poll -/

theorem Accounted.wake (h : e.Accounted batch out) (id : Nat) : (e.wake id).Accounted batch out := by
  refine h.concat (.woke id) rfl le_rfl ?_ h.stored ?_ h.out ?_ ?_ ?_
  · rintro i (⟨fut, he⟩ | he) <;> cases he
  · intro i
    rw [Event.leaves_woke, h.live]
    simp
  · intro i hi
    change i ∈ batch ++ (e.woken ++ [id]) ∨ (id == i) = false ∧ (false = true ∨ _)
    rw [← List.append_assoc, List.mem_append, List.mem_singleton, beq_eq_false_iff_ne]
    rw [Event.leaves_woke] at hi
    tauto
  · intro i
    change 0 + (batch ++ (e.woken ++ [id])).count i ≤ _ + (id == i).toNat
    rw [← List.append_assoc, List.count_append, List.count_singleton]
    cases id == i <;> simp
  · intro i he
    cases he

theorem Accounted.spawn (h : e.Accounted batch out) (fut : F) : (e.spawn fut).Accounted batch out := by
  have hgone : .returned e.nextId none ∉ e.log := fun hmem => absurd (h.gone e.nextId hmem) (lt_irrefl _)
  have hnew : (e.standing e.nextId).isSome ≠ true := fun hs => by
    obtain ⟨⟨fut, hf⟩, -⟩ := (h.live e.nextId).mp hs
    exact absurd (h.born e.nextId fut hf) (lt_irrefl _)
  have hout : out ≠ some e.nextId := fun hout => hnew (h.out e.nextId hout)
  refine h.concat (.spawned e.nextId fut) rfl (Nat.le_succ _) ?_ ?_ ?_ ?_ ?_ ?_ ?_
  · rintro i (⟨fut, he⟩ | he) <;> cases he
    exact Nat.lt_succ_self _
  · intro i
    change (e.tasks.insert e.nextId fut).lookup i = _
    rw [Event.leaves_spawned]
    by_cases hi : e.nextId = i
    · subst hi
      rw [AList.lookup_insert, if_neg hout, if_pos rfl]
    · rw [AList.lookup_insert_ne (Ne.symm hi), if_neg hi, h.stored]
  · intro i
    rw [Event.leaves_spawned]
    by_cases hi : e.nextId = i
    · subst hi
      simp [hgone]
    · rw [if_neg hi, h.live]
      simp [hi]
  · intro i hi
    rw [Event.leaves_spawned]
    split
    · rfl
    · exact h.out i hi
  · intro i hi
    change i ∈ batch ++ (e.woken ++ [e.nextId]) ∨ (e.nextId == i) = false ∧ (false = true ∨ _)
    rw [← List.append_assoc, List.mem_append, List.mem_singleton, beq_eq_false_iff_ne]
    rw [Event.leaves_spawned] at hi
    by_cases hid : e.nextId = i
    · exact .inl (.inr hid.symm)
    · rw [if_neg hid] at hi
      tauto
  · intro i
    change 0 + (batch ++ (e.woken ++ [e.nextId])).count i ≤ _ + (e.nextId == i).toNat
    rw [← List.append_assoc, List.count_append, List.count_singleton]
    cases e.nextId == i <;> simp
  · intro i he
    cases he

theorem Accounted.perform (h : e.Accounted batch out) (deed : Deed F) : (e.perform deed).Accounted batch out := by
  cases deed with
  | wake id => exact h.wake id
  | spawn fut => exact h.spawn fut

/-- A task of the batch is stored, and is polled. -/
theorem Accounted.take (h : e.Accounted (id :: batch) none) {fut : F} (hfut : e.tasks.lookup id = some fut) :
    (e.take id).Accounted batch (some id) := by
  have hsome : (e.standing id).isSome = true := by
    have hst := h.stored id
    rw [if_neg (Option.some_ne_none id).symm, hfut] at hst
    rw [← hst]
    rfl
  refine h.concat (.polled id) rfl le_rfl ?_ ?_ ?_ ?_ ?_ ?_ ?_
  · rintro i (⟨fut, he⟩ | he) <;> cases he
  · intro i
    change (e.tasks.erase id).lookup i = _
    by_cases hi : id = i
    · subst hi
      rw [AList.lookup_erase, if_pos rfl]
    · rw [AList.lookup_erase_ne (Ne.symm hi), if_neg fun hs => hi (Option.some.inj hs), h.stored, if_neg nofun]
      rfl
  · intro i
    rw [Event.leaves_polled, h.live]
    simp
  · intro i hi
    cases hi
    exact hsome
  · intro i hi
    change i ∈ batch ++ e.woken ∨ false = false ∧ ((id == i) = true ∨ _)
    rw [Event.leaves_polled] at hi
    rw [List.cons_append, List.mem_cons, beq_iff_eq]
    tauto
  · intro i
    change (id == i).toNat + (batch ++ e.woken).count i ≤ (id :: (batch ++ e.woken)).count i + 0
    rw [List.count_cons]
    cases id == i <;> simp [Nat.add_comm]
  · intro i he
    cases he
    have hcount := h.counted id
    rw [List.cons_append, List.count_cons_self] at hcount
    exact ⟨by omega, ((h.live id).mp hsome).2⟩

/-- The poll returns. -/
theorem Accounted.putBack (h : e.Accounted batch (some id)) (left : Option F) (shared : σ) :
    (e.putBack id left shared).Accounted batch none := by
  have hsome := h.out id rfl
  have hlive := (h.live id).mp hsome
  obtain ⟨fut, hspawned⟩ := hlive.1
  refine h.concat (.returned id left) rfl le_rfl ?_ ?_ ?_ ?_ ?_ ?_ ?_
  · rintro i (⟨fut, he⟩ | he) <;> cases he
    exact h.born id fut hspawned
  · intro i
    have hold := h.stored i
    rw [if_neg (Option.some_ne_none i).symm, Event.leaves_returned]
    by_cases hi : id = i
    · subst hi
      rw [if_pos rfl] at hold
      rw [if_pos rfl]
      cases left with
      | none => exact hold
      | some fut => exact AList.lookup_insert e.tasks
    · rw [if_neg fun hs => hi (Option.some.inj hs)] at hold
      rw [if_neg hi]
      cases left with
      | none => exact hold
      | some fut => exact (AList.lookup_insert_ne (Ne.symm hi)).trans hold
  · intro i
    rw [Event.leaves_returned]
    by_cases hi : id = i
    · subst hi
      cases left <;> simp [hlive]
    · rw [if_neg hi, h.live]
      simp [hi]
  · intro i hi
    exact absurd hi.symm (Option.some_ne_none i)
  · intro i hi
    change i ∈ batch ++ e.woken ∨ false = false ∧ (false = true ∨ _)
    rw [Event.leaves_returned] at hi
    by_cases hid : id = i
    · subst hid
      tauto
    · rw [if_neg hid] at hi
      tauto
  · intro i
    exact (Nat.zero_add _).le
  · intro i he
    cases he

/-! ## Whole runs -/

variable {poll : σ → Nat → F → Turn F σ}

/-- An id of the batch, stored or not. -/
theorem Accounted.pollTask (h : e.Accounted (id :: batch) none) : (e.pollTask poll id).Accounted batch none := by
  unfold Executor.pollTask
  split
  · rename_i hnone
    have hgone : (e.standing id).isSome ≠ true := by
      have hst := h.stored id
      rw [if_neg (Option.some_ne_none id).symm, hnone] at hst
      rw [← hst]
      exact Bool.false_ne_true
    refine { h with heard := fun i hi => ?_, counted := fun i => ?_ }
    · refine (h.heard i hi).imp_left fun hmem => (List.mem_cons.mp hmem).resolve_left fun he => ?_
      exact hgone (he ▸ hi)
    · have hcount := h.counted i
      have hle := List.count_le_count_cons (a := i) (b := id) (l := batch ++ e.woken)
      rw [List.cons_append] at hcount
      omega
  · rename_i fut hfut
    refine Accounted.putBack ?_ _ _
    -- induction on what the future does, with its task out of the table all the while
    have hdeeds : ∀ (deeds : List (Deed F)) (e : Executor F σ), e.Accounted batch (some id) →
        (deeds.foldl Executor.perform e).Accounted batch (some id) := by
      intro deeds
      induction deeds with
      | nil => exact fun _ h => h
      | cons deed deeds ih => exact fun e h => ih _ (h.perform deed)
    exact hdeeds _ _ (h.take hfut)

/-- The batch, id after id. -/
theorem Accounted.round (h : e.Accounted batch none) : (batch.foldl (Executor.pollTask poll) e).Accounted [] none := by
  induction batch generalizing e with
  | nil => exact h
  | cons id batch ih => exact ih h.pollTask

theorem Accounted.runReady (h : e.Accounted [] none) {fuel : Nat} (hret : e.runReady poll fuel = some e') :
    e'.Accounted [] none ∧ e'.woken = [] := by
  induction fuel generalizing e with
  | zero => cases hret
  | succ fuel ih =>
    simp only [Executor.runReady] at hret
    have htaken : ({ e with woken := [] } : Executor F σ).Accounted e.woken none := by
      have hall : e.woken ++ [] = [] ++ e.woken := by rw [List.append_nil, List.nil_append]
      exact { h with heard := fun i hi => hall ▸ h.heard i hi, counted := fun i => hall ▸ h.counted i }
    split at hret
    · rename_i hempty
      cases hret
      rw [List.isEmpty_iff.mp hempty] at htaken
      exact ⟨htaken, rfl⟩
    · exact ih htaken.round hret

theorem accounted_run {acts : List (Act F σ)} {shared : σ} (hr : Run.run (apply poll) (new shared) acts = some e) :
    e.Accounted [] none := by
  refine Run.run_invariant (I := fun e => e.Accounted [] none) (fun e act e' h he => ?_) ?_ hr
  · cases act with
    | spawn fut =>
      cases he
      exact h.spawn fut
    | wake id =>
      cases he
      exact h.wake id
    | share shared =>
      cases he
      exact { h with }
    | runReady fuel => exact (h.runReady he).1
  · refine
      { born := fun id fut hi => absurd hi List.not_mem_nil
        gone := fun id hi => absurd hi List.not_mem_nil
        stored := fun id => (if_neg (Option.some_ne_none id).symm).symm
        live := fun id => ?_
        out := fun id hi => absurd hi.symm (Option.some_ne_none id)
        heard := fun id hi => absurd hi Bool.false_ne_true
        counted := fun id => le_rfl
        due := Chronicle.told_nil _ }
    exact ⟨fun hi => absurd hi Bool.false_ne_true, fun hi => absurd hi.1.choose_spec List.not_mem_nil⟩

/-- Whatever the futures do while they are polled: when `run_ready` returns, every wake of a
live task has been followed by a poll, a task is stored, as its last poll left it, exactly if
it is live, and every poll so far was asked for, and of a task that had not returned Ready. -/
theorem run_ready_sound {acts : List (Act F σ)} {shared : σ} (hr : Run.run (apply poll) (new shared) acts = some e)
    {fuel : Nat} (hret : e.runReady poll fuel = some e') :
    (∀ id, e'.Live id → e'.Heeded id) ∧
      (∀ id, ¬ e'.Live id → e'.tasks.lookup id = none) ∧
      (∀ id, e'.Live id → ∃ fut, e'.tasks.lookup id = some fut ∧ e'.standing id = some fut) ∧
      Chronicle.Told Event.Due e'.log := by
  obtain ⟨h, hwoken⟩ := (accounted_run hr).runReady hret
  have hstored : ∀ id, e'.tasks.lookup id = e'.standing id := fun id =>
    (h.stored id).trans (if_neg (Option.some_ne_none id).symm)
  refine ⟨fun id hlive => ?_, fun id hdead => ?_, fun id hlive => ?_, h.due⟩
  · refine (h.heard id ((h.live id).mpr hlive)).resolve_left fun hmem => ?_
    rw [hwoken] at hmem
    exact absurd hmem List.not_mem_nil
  · rw [hstored, ← Option.not_isSome_iff_eq_none, h.live]
    exact hdead
  · obtain ⟨fut, hfut⟩ := Option.isSome_iff_exists.mp ((h.live id).mpr hlive)
    exact ⟨fut, (hstored id).trans hfut, hfut⟩

/-- Futures that count their polls down; the last but one wakes its own task twice and spawns. -/
def countdown (shared : Unit) (id : Nat) : Nat → Turn Nat Unit
  | 0 => { deeds := [.wake 0], left := none, shared := shared }
  | 1 => { deeds := [.wake id, .spawn 0, .wake id], left := some 0, shared := shared }
  | fut + 2 => { deeds := [], left := some fut, shared := shared }

/-- The second task is left with a poll to go. -/
theorem run_ready_sound_countdown : ∃ e e' : Executor Nat Unit,
    Run.run (apply countdown) (new ()) [.spawn 1, .spawn 4, .wake 1] = some e ∧ e.runReady countdown 4 = some e' ∧
      e'.tasks.lookup 1 = some 0 ∧ e'.Live 1 ∧ e'.Heeded 1 := by
  obtain ⟨e, hr, hany⟩ := Run.exists_run (apply countdown) (new ()) [.spawn 1, .spawn 4, .wake 1]
    (fun e => (e.runReady countdown 4).any fun e' => decide (e'.tasks.lookup 1 = some 0)) (by decide +kernel)
  obtain ⟨e', hret, hleft⟩ := (Option.any_eq_true _ _).mp hany
  obtain ⟨hheeded, hdead, -, -⟩ := run_ready_sound hr hret
  have hstored := of_decide_eq_true hleft
  have hlive : e'.Live 1 := by
    by_contra hno
    rw [hdead 1 hno] at hstored
    cases hstored
  exact ⟨e, e', hr, hret, hstored, hlive, hheeded 1 hlive⟩

end Executor

end Ferrumnet
