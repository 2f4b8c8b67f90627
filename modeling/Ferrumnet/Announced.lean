import Ferrumnet.Incarnations

/-
  Every inbound connection is accepted once, unless its remote endpoint was still
  announced when its SYN arrived.

  The set of announced connections is keyed by the remote endpoint and pruned at the end
  of a dispatch, before the transmission pass reaps. A connection that is reaped leaves its
  key behind, and a SYN that arrives before the next prune opens a connection that no
  dispatch will announce.

  1. `Coherent` — a passive connection is announced exactly if its remote was when it
     was opened, or a dispatch has seen it since.
  2. `accepted_once` — what follows for the accept queue, in every run.
-/

namespace Ferrumnet

/-- The reactor, and what it has done with the connections of each remote. -/
structure Backlog (κ : Type) where
  reactor : Reactor κ
  /-- How many connections have been installed under a remote. -/
  epoch : Endpoint → Nat
  /-- The connections that a SYN opened. -/
  passive : List Incarnation
  /-- Those whose remote was announced at the time. -/
  shadowed : List Incarnation
  /-- The passive connections that a dispatch has seen past the handshake. -/
  observed : List Incarnation
  /-- What was pushed to the accept queue. -/
  pushed : List Incarnation

namespace Backlog

open Reactor (Event)

variable {κ : Type} [CongestionControl κ]

def new (loc : Endpoint) (isn : IsnGenerator) (mss : Nat) : Backlog κ :=
  { reactor := Reactor.new loc isn mss, epoch := fun _ => 0, passive := [], shadowed := [], observed := [], pushed := [] }

/-- The connections that a frame opens. -/
def opened (s : Backlog κ) : Event → List Endpoint
  | .frame buf => (s.reactor.ingest buf).stack.conns.keys.filter (s.reactor.installs (.frame buf))
  | _ => []

/-- The passive connections that a dispatch sees past the handshake. -/
def seen (s : Backlog κ) : Event → List Endpoint
  | .dispatch => s.reactor.stack.conns.keys.filter fun e =>
      (s.reactor.stack.connection e).any (·.isSynchronized) && decide (⟨e, s.epoch e⟩ ∈ s.passive)
  | _ => []

/-- What an event appends to the accept queue. -/
def pushes (s : Backlog κ) : Event → List Endpoint
  | .dispatch => (s.reactor.synced.foldl Reactor.announce s.reactor).acceptQueue.drop s.reactor.acceptQueue.length
  | _ => []

/-- The epochs behind an event. -/
def aged (s : Backlog κ) (v : Event) : Endpoint → Nat := s.reactor.age s.epoch v

/-- The connection under `e`, behind an event. -/
def named (s : Backlog κ) (v : Event) (e : Endpoint) : Incarnation := ⟨e, s.aged v e⟩

def after (s : Backlog κ) (v : Event) : Backlog κ :=
  { reactor := s.reactor.apply v
    epoch := s.aged v
    passive := s.passive ++ (s.opened v).map (s.named v)
    shadowed := s.shadowed ++ ((s.opened v).filter fun e => e ∈ s.reactor.announced).map (s.named v)
    observed := s.observed ++ (s.seen v).map (s.named v)
    pushed := s.pushed ++ (s.pushes v).map (s.named v) }

/-- One event, as a step of a run. -/
def step (s : Backlog κ) (v : Event) : Option (Backlog κ) := some (s.after v)

/-- No connection is opened from a remote that is still announced. -/
def Fresh (s : Backlog κ) (v : Event) : Prop := ∀ e ∈ s.opened v, e ∉ s.reactor.announced

/-- What holds between the reactor and the history. -/
structure Coherent (s : Backlog κ) : Prop where
  /-- The history is no longer than the count. -/
  past : ∀ x, x ∈ s.passive ∨ x ∈ s.shadowed ∨ x ∈ s.observed → x.epoch ≤ s.epoch x.remote
  /-- Passive connections are those of the listening port. -/
  port : ∀ e t, s.reactor.stack.connection e = some t →
    (t.localEnd.port = s.reactor.stack.localEnd.port ↔ ⟨e, s.epoch e⟩ ∈ s.passive)
  announced : ∀ e, (s.reactor.stack.connection e).isSome → ⟨e, s.epoch e⟩ ∈ s.passive →
    (e ∈ s.reactor.announced ↔ ⟨e, s.epoch e⟩ ∈ s.shadowed ∨ ⟨e, s.epoch e⟩ ∈ s.observed)
  count : ∀ x, s.pushed.count x = if x ∈ s.observed ∧ x ∉ s.shadowed then 1 else 0

variable {s : Backlog κ} {v : Event} {e : Endpoint} {x : Incarnation} {l : List Endpoint}

theorem mem_named : x ∈ l.map (s.named v) ↔ x.remote ∈ l ∧ x.epoch = s.aged v x.remote := by
  rw [List.mem_map]
  constructor
  · rintro ⟨e, he, rfl⟩
    exact ⟨he, rfl⟩
  · rintro ⟨he, hx⟩
    refine ⟨x.remote, he, ?_⟩
    rw [named, ← hx]

theorem count_named (hn : l.Nodup) : (l.map (s.named v)).count x =
    if x.remote ∈ l ∧ x.epoch = s.aged v x.remote then 1 else 0 := by
  have hinj : Function.Injective (s.named v) := fun e e' h => congrArg Incarnation.remote h
  rw [List.Nodup.count (hn.map hinj)]
  simp only [mem_named]

/-! ## One step -/

/-- What a frame opens is what it installs. -/
theorem mem_opened : e ∈ s.opened v ↔ (∃ buf, v = .frame buf) ∧ s.reactor.installs v e = true := by
  constructor
  · intro h
    cases v with
    | frame buf => exact ⟨⟨buf, rfl⟩, (List.mem_filter.mp h).2⟩
    | _ => exact absurd h List.not_mem_nil
  · rintro ⟨⟨buf, rfl⟩, h⟩
    obtain ⟨u, hu, -⟩ := Reactor.installs_frame h
    refine List.mem_filter.mpr ⟨?_, h⟩
    rw [← AList.mem_keys, ← AList.lookup_isSome]
    exact Option.isSome_iff_exists.mpr ⟨u, hu⟩

/-- A connection that was there before is not opened. -/
theorem old_not_opened (hx : x.epoch ≤ s.epoch x.remote) : x ∉ (s.opened v).map (s.named v) := by
  intro hmem
  obtain ⟨hop, heq⟩ := mem_named.mp hmem
  rw [aged, Reactor.age_succ (mem_opened.mp hop).2] at heq
  omega

theorem old_not_shadowed (hx : x.epoch ≤ s.epoch x.remote) :
    x ∉ ((s.opened v).filter fun e => e ∈ s.reactor.announced).map (s.named v) := by
  intro hmem
  obtain ⟨hop, heq⟩ := mem_named.mp hmem
  exact old_not_opened hx (mem_named.mpr ⟨(List.mem_filter.mp hop).1, heq⟩)

theorem Coherent.past_after (h : s.Coherent) (v : Event) (x : Incarnation)
    (hx : x ∈ (s.after v).passive ∨ x ∈ (s.after v).shadowed ∨ x ∈ (s.after v).observed) :
    x.epoch ≤ (s.after v).epoch x.remote := by
  have hold : x ∈ s.passive ∨ x ∈ s.shadowed ∨ x ∈ s.observed → x.epoch ≤ s.aged v x.remote :=
    fun hx => (h.past x hx).trans (s.reactor.le_age s.epoch v x.remote)
  have hnew : ∀ l : List Endpoint, x ∈ l.map (s.named v) → x.epoch ≤ s.aged v x.remote :=
    fun l hx => Nat.le_of_eq (mem_named.mp hx).2
  rcases hx with hx | hx | hx
  · exact (List.mem_append.mp hx).elim (fun hx => hold (.inl hx)) (hnew _)
  · exact (List.mem_append.mp hx).elim (fun hx => hold (.inr (.inl hx))) (hnew _)
  · exact (List.mem_append.mp hx).elim (fun hx => hold (.inr (.inr hx))) (hnew _)

theorem Coherent.port_after (h : s.Coherent) (v : Event) (e : Endpoint) (u : Tcb κ)
    (hu : (s.after v).reactor.stack.connection e = some u) :
    u.localEnd.port = (s.after v).reactor.stack.localEnd.port ↔ ⟨e, (s.after v).epoch e⟩ ∈ (s.after v).passive := by
  change (s.reactor.apply v).stack.connection e = some u at hu
  change u.localEnd.port = (s.reactor.apply v).stack.localEnd.port ↔
    ⟨e, s.aged v e⟩ ∈ s.passive ++ (s.opened v).map (s.named v)
  rw [Reactor.localEnd_apply, List.mem_append, mem_named]
  cases hins : s.reactor.installs v e with
  | false =>
    obtain ⟨t, ht, hloc⟩ := Reactor.localEnd_moves hins hu
    rw [hloc, h.port e t ht, aged, Reactor.age_eq hins]
    refine (or_iff_left fun hop => ?_).symm
    have := (mem_opened.mp hop.1).2
    rw [hins] at this
    cases this
  | true =>
    have hfresh : (⟨e, s.aged v e⟩ : Incarnation) ∉ s.passive := by
      intro hmem
      have hle := h.past _ (.inl hmem)
      rw [aged, Reactor.age_succ hins] at hle
      exact Nat.not_succ_le_self _ hle
    rcases Reactor.installs_cases hins with ⟨buf, rfl⟩ | ⟨w, rfl⟩
    · obtain ⟨t, ht, hloc⟩ := Reactor.installs_frame hins
      cases ht.symm.trans hu
      exact ⟨fun _ => .inr ⟨mem_opened.mpr ⟨⟨buf, rfl⟩, hins⟩, rfl⟩, fun _ => congrArg Endpoint.port hloc⟩
    · obtain ⟨t, ht, hloc⟩ := Reactor.installs_start (s := s.reactor) (w := w)
      cases ht.symm.trans hu
      refine ⟨fun hc => absurd hc hloc, fun hc => ?_⟩
      rcases hc with hc | ⟨hc, -⟩
      · exact absurd hc hfresh
      · exact absurd hc List.not_mem_nil

/-- An event other than a dispatch. -/
theorem Coherent.quiet (h : s.Coherent) (hv : v ≠ .dispatch) : (s.after v).Coherent := by
  have hseen : s.seen v = [] := by
    cases v with
    | dispatch => exact absurd rfl hv
    | _ => rfl
  have hpushes : s.pushes v = [] := by
    cases v with
    | dispatch => exact absurd rfl hv
    | _ => rfl
  have hobserved : (s.after v).observed = s.observed := by
    change s.observed ++ (s.seen v).map _ = _
    rw [hseen, List.map_nil, List.append_nil]
  have hpushed : (s.after v).pushed = s.pushed := by
    change s.pushed ++ (s.pushes v).map _ = _
    rw [hpushes, List.map_nil, List.append_nil]
  refine ⟨h.past_after v, h.port_after v, fun e hlive hpassive => ?_, fun x => ?_⟩
  · rw [hobserved]
    change e ∈ (s.reactor.apply v).announced ↔ ⟨e, s.aged v e⟩ ∈ s.shadowed ++ _ ∨ ⟨e, s.aged v e⟩ ∈ s.observed
    rw [Reactor.announced_apply _ hv, List.mem_append]
    change (⟨e, s.aged v e⟩ : Incarnation) ∈ s.passive ++ _ at hpassive
    cases hins : s.reactor.installs v e with
    | false =>
      rw [aged, Reactor.age_eq hins] at hpassive ⊢
      have hpassive' : (⟨e, s.epoch e⟩ : Incarnation) ∈ s.passive :=
        (List.mem_append.mp hpassive).resolve_right (old_not_opened le_rfl)
      obtain ⟨u, hu⟩ := Option.isSome_iff_exists.mp hlive
      obtain ⟨t, ht, -⟩ := Reactor.localEnd_moves hins hu
      rw [h.announced e (Option.isSome_iff_exists.mpr ⟨t, ht⟩) hpassive']
      rw [or_iff_left (old_not_shadowed (v := v) (x := ⟨e, s.epoch e⟩) le_rfl)]
    | true =>
      have hfresh : ∀ l : List Incarnation, (∀ x ∈ l, x ∈ s.passive ∨ x ∈ s.shadowed ∨ x ∈ s.observed) →
          (⟨e, s.aged v e⟩ : Incarnation) ∉ l := by
        intro l hl hmem
        have hle := h.past _ (hl _ hmem)
        rw [aged, Reactor.age_succ hins] at hle
        exact Nat.not_succ_le_self _ hle
      have hop : e ∈ s.opened v :=
        (mem_named.mp ((List.mem_append.mp hpassive).resolve_left (hfresh _ fun x hx => .inl hx))).1
      have h1 : (⟨e, s.aged v e⟩ : Incarnation) ∉ s.shadowed := hfresh _ fun x hx => .inr (.inl hx)
      have h2 : (⟨e, s.aged v e⟩ : Incarnation) ∉ s.observed := hfresh _ fun x hx => .inr (.inr hx)
      rw [or_iff_left h2, or_iff_right h1, mem_named, List.mem_filter, decide_eq_true_eq]
      exact ⟨fun hann => ⟨⟨hop, hann⟩, rfl⟩, fun hc => hc.1.2⟩
  · rw [hpushed, hobserved, h.count]
    refine if_congr (and_congr_right fun hobs => ?_) rfl rfl
    change x ∉ s.shadowed ↔ x ∉ s.shadowed ++ _
    rw [List.mem_append, not_or]
    exact (and_iff_left (old_not_shadowed (h.past x (.inr (.inr hobs))))).symm

omit [CongestionControl κ] in
/-- The filter on the listening port keeps the passive connections. -/
theorem Coherent.mem_synced (h : s.Coherent) : e ∈ s.reactor.synced ↔ e ∈ s.seen .dispatch := by
  simp only [Reactor.synced, seen, List.mem_filter]
  refine and_congr_right fun _ => ?_
  cases ht : s.reactor.stack.connection e with
  | none => simp
  | some t =>
    simp only [Option.any_some, Bool.and_eq_true, decide_eq_true_eq]
    rw [h.port e t ht]

omit [CongestionControl κ] in
theorem pushes_dispatch (s : Backlog κ) :
    s.pushes .dispatch = s.reactor.synced.filter fun e => e ∉ s.reactor.announced := by
  change (s.reactor.synced.foldl Reactor.announce s.reactor).acceptQueue.drop _ = _
  rw [Reactor.foldl_announce s.reactor.nodup_synced]
  exact List.drop_left

/-- A dispatch announces what it sees and has not announced before. -/
theorem Coherent.dispatch (h : s.Coherent) : (s.after .dispatch).Coherent := by
  have haged : ∀ e, s.aged .dispatch e = s.epoch e := fun e =>
    Reactor.age_eq (Reactor.not_installs (fun _ hc => by cases hc) (fun _ _ hc => by cases hc))
  have hmem : ∀ x, x ∈ (s.seen .dispatch).map (s.named .dispatch) ↔
      x.remote ∈ s.reactor.synced ∧ x.epoch = s.epoch x.remote := by
    intro x
    rw [mem_named, h.mem_synced, haged]
  have hpassive : (s.after .dispatch).passive = s.passive := List.append_nil _
  have hshadowed : (s.after .dispatch).shadowed = s.shadowed := List.append_nil _
  have hobserved : (s.after .dispatch).observed = s.observed ++ (s.seen .dispatch).map (s.named .dispatch) := rfl
  have hstack : (s.after .dispatch).reactor.stack = s.reactor.stack := s.reactor.stack_dispatch
  refine ⟨h.past_after _, h.port_after _, fun e hlive hpas => ?_, fun x => ?_⟩
  · rw [hstack] at hlive
    change (⟨e, s.aged .dispatch e⟩ : Incarnation) ∈ (s.after .dispatch).passive at hpas
    rw [hpassive, haged] at hpas
    rw [hshadowed, hobserved]
    change e ∈ s.reactor.dispatchWakeups.announced ↔ (⟨e, s.aged .dispatch e⟩ : Incarnation) ∈ s.shadowed ∨
      ⟨e, s.aged .dispatch e⟩ ∈ s.observed ++ _
    rw [haged, List.mem_append, hmem, Reactor.dispatch_eq]
    have hkey : e ∈ s.reactor.stack.conns := AList.lookup_isSome.mp hlive
    simp only [Finset.mem_filter, Finset.mem_union, List.mem_toFinset, hkey, and_true]
    rw [h.announced e hlive hpas, or_assoc]
  · have hcount : (s.after .dispatch).pushed.count x =
        s.pushed.count x + ((s.pushes .dispatch).map (s.named .dispatch)).count x := List.count_append
    rw [hcount, count_named (by rw [pushes_dispatch]; exact s.reactor.nodup_synced.filter _), h.count,
      hshadowed, hobserved]
    simp only [pushes_dispatch, List.mem_filter, decide_eq_true_eq, haged, List.mem_append, hmem]
    by_cases hnow : x.remote ∈ s.reactor.synced ∧ x.epoch = s.epoch x.remote
    · obtain ⟨hsync, hep⟩ := hnow
      -- the connection under the key is `x`, and it is passive
      have hx : (⟨x.remote, s.epoch x.remote⟩ : Incarnation) = x := by rw [← hep]
      have hseen := List.mem_filter.mp (h.mem_synced.mp hsync)
      rw [Bool.and_eq_true, decide_eq_true_eq] at hseen
      have hlive : (s.reactor.stack.connection x.remote).isSome := by
        rw [Stack.connection, AList.lookup_isSome, AList.mem_keys]
        exact hseen.1
      have hann := h.announced x.remote hlive hseen.2.2
      rw [hx] at hann
      by_cases h1 : x ∈ s.shadowed <;> by_cases h2 : x ∈ s.observed <;> simp [h1, h2, hann, hsync, hep]
    · have hno : ¬ ((x.remote ∈ s.reactor.synced ∧ x.remote ∉ s.reactor.announced) ∧
          x.epoch = s.epoch x.remote) := fun hc => hnow ⟨hc.1.1, hc.2⟩
      rw [if_neg hno, Nat.add_zero]
      exact if_congr (by rw [or_iff_left hnow]) rfl rfl

theorem Coherent.after (h : s.Coherent) (v : Event) : (s.after v).Coherent := by
  by_cases hv : v = .dispatch
  · rw [hv]
    exact h.dispatch
  · exact h.quiet hv

omit [CongestionControl κ] in
theorem coherent_new (loc : Endpoint) (isn : IsnGenerator) (mss : Nat) :
    (new loc isn mss : Backlog κ).Coherent := by
  refine ⟨fun x hx => ?_, fun e t ht => ?_, fun e hlive => ?_, fun x => rfl⟩
  · rcases hx with hx | hx | hx <;> cases hx
  · cases ht
  · cases hlive

/-- A passive connection that a dispatch has seen past the handshake was pushed to the
accept queue once, or not at all if its remote was still announced when its SYN arrived.
While that never happens, every such connection was pushed exactly once. -/
theorem accepted_once {loc : Endpoint} {isn : IsnGenerator} {mss : Nat} {past : List Event}
    (hs : Run.run step (new loc isn mss) past = some s) :
    (∀ x ∈ s.observed, s.pushed.count x = if x ∈ s.shadowed then 0 else 1) ∧
      (Run.Along step Fresh (new loc isn mss : Backlog κ) past → ∀ x ∈ s.observed, s.pushed.count x = 1) := by
  have hcoherent : s.Coherent := by
    refine Run.run_invariant (I := fun s : Backlog κ => s.Coherent) (fun s v s' hs he => ?_)
      (coherent_new loc isn mss) hs
    cases he
    exact hs.after v
  refine ⟨fun x hx => ?_, fun hfresh x hx => ?_⟩
  · rw [hcoherent.count]
    by_cases hsh : x ∈ s.shadowed
    · rw [if_neg (fun hc => hc.2 hsh), if_pos hsh]
    · rw [if_pos ⟨hx, hsh⟩, if_neg hsh]
  · have hnone : s.shadowed = [] := by
      refine Run.run_invariant_along (I := fun s : Backlog κ => s.shadowed = []) (fun s v s' hs hc he => ?_) rfl hfresh hs
      cases he
      change s.shadowed ++ ((s.opened v).filter fun e => e ∈ s.reactor.announced).map _ = []
      have hempty : ((s.opened v).filter fun e => decide (e ∈ s.reactor.announced)) = [] :=
        List.filter_eq_nil_iff.mpr fun e he => by simpa using hc e he
      rw [hs, hempty]
      rfl
    rw [hcoherent.count, if_pos ⟨hx, by rw [hnone]; exact List.not_mem_nil⟩]

open Reactor (Turn peerFrame) in
/-- A client connects and is accepted, resets, and connects again one turn later. -/
def reconnected : List Turn :=
  [⟨⟨0⟩, [peerFrame 2 5000 0 []], [.poll .accept 0]⟩,
    ⟨⟨1000⟩, [peerFrame 16 5001 35424799 []], [.poll .accept 0]⟩,
    ⟨⟨2000⟩, [peerFrame 4 5001 0 []], []⟩,
    ⟨⟨3000⟩, [peerFrame 2 9000 0 []], []⟩,
    ⟨⟨4000⟩, [peerFrame 16 9001 35425549 []], []⟩]

instance (s : Backlog κ) (v : Event) : Decidable (s.Fresh v) :=
  inferInstanceAs (Decidable (∀ e ∈ s.opened v, e ∉ s.reactor.announced))

/-- The first two turns. -/
theorem accepted_once_served : ∃ s : Backlog Reno,
    Run.run step (new ⟨2, 80⟩ ⟨0, 0⟩ 1460) ((reconnected.take 2).flatMap (·.events)) = some s ∧
      s.observed = [⟨⟨1, 1000⟩, 1⟩] ∧
      (∀ x ∈ s.observed, s.pushed.count x = if x ∈ s.shadowed then 0 else 1) ∧
      ∀ x ∈ s.observed, s.pushed.count x = 1 := by
  obtain ⟨s, hs, hobs⟩ := Run.exists_run step (new ⟨2, 80⟩ ⟨0, 0⟩ 1460) ((reconnected.take 2).flatMap (·.events))
    (fun s : Backlog Reno => s.observed = [⟨⟨1, 1000⟩, 1⟩]) (by decide +kernel)
  have halong : Run.Along step Fresh (new ⟨2, 80⟩ ⟨0, 0⟩ 1460 : Backlog Reno)
      ((reconnected.take 2).flatMap (·.events)) := by decide +kernel
  have hboth := accepted_once hs
  have hall := hboth.2 halong
  refine ⟨s, hs, hobs, ?_, ?_⟩
  · exact hboth.1
  · exact hall

theorem reconnected_ends : (Run.run step (new ⟨2, 80⟩ ⟨0, 0⟩ 1460) (reconnected.flatMap (·.events))).any
    (fun s : Backlog Reno => decide (⟨⟨1, 1000⟩, 2⟩ ∈ s.observed ∧ ⟨⟨1, 1000⟩, 2⟩ ∉ s.pushed)) = true := by
  decide +kernel

/-- The second connection is seen past the handshake, and is never pushed. -/
theorem reconnected_lost : ∃ s : Backlog Reno,
    Run.run step (new ⟨2, 80⟩ ⟨0, 0⟩ 1460) (reconnected.flatMap (·.events)) = some s ∧
      ∃ x ∈ s.observed, s.pushed.count x = 0 := by
  obtain ⟨s, hs, hlost⟩ := Run.exists_run step _ _ _ reconnected_ends
  refine ⟨s, hs, ⟨⟨1, 1000⟩, 2⟩, ?_, ?_⟩
  · exact hlost.1
  · exact List.count_eq_zero.mpr hlost.2

end Backlog

end Ferrumnet
