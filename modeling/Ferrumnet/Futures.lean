import Ferrumnet.Runtime

/-
  What one poll of a future does to the reactor.

  A poll parks the future, takes from the accept queue, moves bytes of one connection, or
  answers at once; `Polled` lists these cases, each with the state it leaves behind.

  1. `polled` — nothing else happens.
  2. `Stalls.pending` — a future that would park does.
-/

namespace Ferrumnet

namespace Reactor

variable {κ : Type} {s : Reactor κ} {f : Future} {w : Waker}

/-- The waker registered for a future. -/
def slot (s : Reactor κ) : Future → Option Waker
  | .accept => s.acceptWaker
  | .connect remote => s.connectWakers.lookup remote
  | .read remote _ => s.readWakers.lookup remote
  | .write remote _ => s.writeWakers.lookup remote

/-- Register a waker for a future. A parked `Accept` has searched the queue to its end. -/
def register (s : Reactor κ) (f : Future) (w : Waker) : Reactor κ :=
  match f with
  | .accept => { s with acceptWaker := some w, acceptQueue := [] }
  | .connect remote => { s with connectWakers := s.connectWakers.insert remote w }
  | .read remote _ => { s with readWakers := s.readWakers.insert remote w }
  | .write remote _ => { s with writeWakers := s.writeWakers.insert remote w }

/-- There is nothing for the future: it stays pending. -/
def Stalls (s : Reactor κ) : Future → Prop
  | .accept => s.acceptQueue = []
  | .connect e => ∃ t, s.stack.connection e = some t ∧ t.isSynchronized = false ∧ t.state ≠ .closed
  | .read e n => n ≠ 0 ∧ ∃ t, s.stack.connection e = some t ∧ t.rxAvailable = 0 ∧ t.isReset = false ∧
      t.peerFinSeen = false ∧ t.state ≠ .closed
  | .write e data => ∃ t, s.stack.connection e = some t ∧ t.isReset = false ∧
      (t.state = .established ∨ t.state = .closeWait) ∧ (t.send data).2 = 0

/-- What a poll comes to. -/
inductive Polled (s : Reactor κ) (w : Waker) : Future → Reactor κ × Poll Output → Prop
  | parks (f : Future) : (s.register f w).Stalls f → Polled s w f (s.register f w, .pending)
  | takes (remote : Endpoint) (queue : List Endpoint) : s.acceptQueue ≠ [] →
      Polled s w .accept ({ s with acceptQueue := queue }, .ready (.accepted remote))
  | reads (e : Endpoint) (n : Nat) (t : Tcb κ) : n ≠ 0 → s.stack.connection e = some t → 0 < t.rxAvailable →
      Polled s w (.read e n) ({ s with stack := s.stack.setConn e (t.recv n).1 }, .ready (.read (.ok (t.recv n).2)))
  | writes (e : Endpoint) (data : Bytes) (t : Tcb κ) : s.stack.connection e = some t → 0 < (t.send data).2 →
      Polled s w (.write e data)
        ({ s with stack := s.stack.setConn e (t.send data).1 }, .ready (.written (.ok (t.send data).2)))
  | answers (f : Future) (out : Output) : f ≠ .accept → Polled s w f (s, .ready out)

/-- A queue without a usable connection is searched to its end. -/
theorem nextUsable_none {k : Stack κ} {queue : List Endpoint} (h : (k.nextUsable queue).1 = none) :
    (k.nextUsable queue).2 = [] := by
  induction queue with
  | nil => rfl
  | cons remote queue ih =>
    rw [Stack.nextUsable] at h ⊢
    split
    · rename_i husable
      rw [if_pos husable] at h
      cases h
    · rename_i hgone
      rw [if_neg hgone] at h
      exact ih h

theorem polled_accept (s : Reactor κ) (w : Waker) : s.Polled w .accept (s.poll .accept w) := by
  simp only [poll, pollAccept]
  split
  · rename_i remote hsome
    refine .takes remote _ fun hempty => ?_
    rw [hempty] at hsome
    cases hsome
  · rename_i hnone
    rw [nextUsable_none hnone]
    exact .parks .accept rfl

theorem polled_connect (s : Reactor κ) (w : Waker) (e : Endpoint) :
    s.Polled w (.connect e) (s.poll (.connect e) w) := by
  simp only [poll, pollConnect]
  split
  · exact .answers _ _ (by simp)
  rename_i t ht
  split
  · exact .answers _ _ (by simp)
  rename_i hsync
  split
  · exact .answers _ _ (by simp)
  rename_i hopen
  exact .parks (.connect e) ⟨t, ht, Bool.eq_false_iff.mpr hsync, hopen⟩

theorem polled_read (s : Reactor κ) (w : Waker) (e : Endpoint) (n : Nat) :
    s.Polled w (.read e n) (s.poll (.read e n) w) := by
  simp only [poll, pollRead]
  split
  · exact .answers _ _ (by simp)
  rename_i hn
  split
  · exact .answers _ _ (by simp)
  rename_i t ht
  split
  · rename_i hrx
    exact .reads e n t hn ht hrx
  rename_i hrx
  split
  · exact .answers _ _ (by simp)
  rename_i hreset
  split
  · exact .answers _ _ (by simp)
  rename_i hend
  have hrx' : t.rxAvailable = 0 := Nat.eq_zero_of_not_pos hrx
  rw [Bool.or_eq_true, not_or, decide_eq_true_eq] at hend
  refine .parks (.read e n) ⟨hn, t, ht, hrx', Bool.eq_false_iff.mpr hreset, ?_, hend.2⟩
  have hempty : t.rx.isEmpty = true := Bytes.isEmpty_iff.mpr hrx'
  have heof := hend.1
  rwa [Tcb.recvEof, hempty, Bool.and_true, Bool.not_eq_true] at heof

theorem polled_write (s : Reactor κ) (w : Waker) (e : Endpoint) (data : Bytes) :
    s.Polled w (.write e data) (s.poll (.write e data) w) := by
  simp only [poll, pollWrite]
  split
  · exact .answers _ _ (by simp)
  rename_i t ht
  split
  · exact .answers _ _ (by simp)
  rename_i hreset
  split
  · exact .answers _ _ (by simp)
  rename_i hst
  split
  · rename_i hsent
    exact .writes e data t ht hsent
  rename_i hsent
  refine .parks (.write e data) ⟨t, ht, Bool.eq_false_iff.mpr hreset, ?_, Nat.eq_zero_of_not_pos hsent⟩
  by_cases hest : t.state = .established
  · exact .inl hest
  · right
    by_contra hwait
    exact hst ⟨hest, hwait⟩

/-- Nothing else happens. -/
theorem polled (s : Reactor κ) (f : Future) (w : Waker) : s.Polled w f (s.poll f w) := by
  cases f with
  | accept => exact s.polled_accept w
  | connect e => exact s.polled_connect w e
  | read e n => exact s.polled_read w e n
  | write e data => exact s.polled_write w e data

/-- A future that would park does. -/
theorem Stalls.pending (h : s.Stalls f) (w : Waker) : (s.poll f w).2 = .pending := by
  cases f with
  | accept =>
    have hq : s.acceptQueue = [] := h
    simp only [poll, pollAccept, hq, Stack.nextUsable]
    rfl
  | connect e =>
    obtain ⟨t, ht, hsync, hopen⟩ := h
    simp only [poll, pollConnect, ht, hsync, hopen]
    rfl
  | read e n =>
    obtain ⟨hn, t, ht, hrx, hreset, hfin, hopen⟩ := h
    have heof : t.recvEof = false := by rw [Tcb.recvEof, hfin, Bool.false_and]
    simp only [poll, pollRead, ht, hn, hrx, hreset, heof, hopen]
    rfl
  | write e data =>
    obtain ⟨t, ht, hreset, hst, hsend⟩ := h
    have hst' : ¬ (t.state ≠ .established ∧ t.state ≠ .closeWait) := by
      rintro ⟨h1, h2⟩
      exact hst.elim h1 h2
    simp only [poll, pollWrite, ht, hreset, hsend, if_neg hst']
    rfl

end Reactor

end Ferrumnet
