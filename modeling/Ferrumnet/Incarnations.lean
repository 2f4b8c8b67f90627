import Ferrumnet.Dispatch
import Ferrumnet.Setting

/-
  The connections that one remote endpoint has had, one after the other.

  The source keys everything by the remote endpoint, and has no name for a single
  connection. Here the connections under one key are counted as they are installed, by a
  SYN or by an active open.

  1. `localEnd_moves` — a connection keeps its endpoints.
  2. `installs_cases`, `installs_frame`, `installs_start` — what installs a connection.
-/

namespace Ferrumnet

namespace Tcb

variable {κ : Type} [CongestionControl κ] {t u : Tcb κ}

/-! ## The endpoints -/

theorem localEnd_onSegment (t : Tcb κ) (now : Instant) (p : TcpPacket) (ce : Bool) :
    (t.onSegment now p ce).localEnd = t.localEnd :=
  congrArg (fun x => x.2.2.2.1) (t.setting_onSegment now p ce)

theorem localEnd_onTimer (t : Tcb κ) (now : Instant) : (t.onTimer now).localEnd = t.localEnd :=
  congrArg (fun x => x.2.2.2.1) (t.setting_onTimer now)

omit [CongestionControl κ] in
theorem localEnd_send (t : Tcb κ) (data : Bytes) : (t.send data).1.localEnd = t.localEnd := by
  unfold send
  cases t.state <;> rfl

theorem localEnd_flush (t : Tcb κ) (now : Instant) : (t.flush now).1.localEnd = t.localEnd := by
  have hkeeps : TransmitKeeps now (fun u : Tcb κ => u.localEnd = t.localEnd) :=
    { clocked := fun _ h => h
      owed := fun _ _ h => h
      flag := fun _ _ h => h
      syn := fun _ _ h => h
      paced := by
        intro u h
        simp only [paced, pace]
        split
        · exact h
        · split <;> exact h
      armPersist := by
        intro u h
        unfold armPersist
        split
        · exact h
        · exact h
      emit := fun _ _ _ _ h => h
      startRtx := by
        intro u h
        unfold startRtx
        split
        · exact h
        · exact h
      noteRexmit := fun _ _ _ _ h => h
      noteSent := by
        intro u n room h
        simp only [noteSent]
        split <;> split <;> exact h
      noteFin := by
        intro u h
        simp only [noteFin, startRtx]
        split <;> exact h }
  exact flush_keeps hkeeps rfl

theorem localEnd_setCongestionControl (t : Tcb κ) (kind : CcKind) :
    (t.setCongestionControl kind).localEnd = t.localEnd := by
  unfold setCongestionControl
  split
  · rfl
  · rfl

end Tcb

/-- One of the connections that a remote endpoint has had. -/
structure Incarnation where
  remote : Endpoint
  epoch : Nat
  deriving DecidableEq, Repr

namespace Reactor

variable {κ : Type} [CongestionControl κ] (s : Reactor κ)

/-- The event installs a connection under `e`. An active open may replace one. -/
def installs (v : Event) (e : Endpoint) : Bool :=
  match v with
  | .action (.start remote _) => e = remote
  | _ => (s.stack.connection e).isNone && ((s.apply v).stack.connection e).isSome

variable {s} {v : Event} {e : Endpoint} {t u : Tcb κ}

/-- Only a frame and an active open do. -/
theorem not_installs (hframe : ∀ buf, v ≠ .frame buf) (hstart : ∀ remote w, v ≠ .action (.start remote w)) :
    s.installs v e = false := by
  have hno : ((s.stack.connection e).isNone && ((s.apply v).stack.connection e).isSome) = false := by
    have hmoves := s.moves e v
    generalize s.stack.connection e = o, (s.apply v).stack.connection e = o' at hmoves ⊢
    cases hmoves with
    | same => cases o <;> rfl
    | opens buf => exact absurd rfl (hframe buf)
    | dials w => exact absurd rfl (hstart e w)
    | timer => rfl
    | segment => rfl
    | reads => rfl
    | writes => rfl
    | closes => rfl
    | sends => rfl
    | reaps => rfl
  cases v with
  | action a =>
    cases a with
    | start remote w => exact absurd rfl (hstart remote w)
    | poll => exact hno
    | close => exact hno
  | _ => exact hno

theorem installs_cases (h : s.installs v e = true) :
    (∃ buf, v = .frame buf) ∨ ∃ w, v = .action (.start e w) := by
  by_cases hframe : ∃ buf, v = .frame buf
  · exact .inl hframe
  by_cases hstart : ∃ remote w, v = .action (.start remote w)
  · obtain ⟨remote, w, rfl⟩ := hstart
    cases of_decide_eq_true h
    exact .inr ⟨w, rfl⟩
  · have hno := not_installs (s := s) (e := e) (fun buf hv => hframe ⟨buf, hv⟩) (fun r w hv => hstart ⟨r, w, hv⟩)
    rw [hno] at h
    cases h

/-- The count of the connections under `e`, behind an event. -/
def age (s : Reactor κ) (epoch : Endpoint → Nat) (v : Event) (e : Endpoint) : Nat :=
  if s.installs v e then epoch e + 1 else epoch e

theorem le_age (s : Reactor κ) (epoch : Endpoint → Nat) (v : Event) (e : Endpoint) : epoch e ≤ s.age epoch v e := by
  unfold age
  split
  · exact Nat.le_succ _
  · exact le_rfl

theorem age_eq {epoch : Endpoint → Nat} (h : s.installs v e = false) : s.age epoch v e = epoch e := by
  rw [age, h, if_neg Bool.false_ne_true]

theorem age_succ {epoch : Endpoint → Nat} (h : s.installs v e = true) : s.age epoch v e = epoch e + 1 := by
  rw [age, if_pos h]

/-- A frame installs passive connections. -/
theorem installs_frame {buf : List UInt8} (h : s.installs (.frame buf) e = true) :
    ∃ u, (s.ingest buf).stack.connection e = some u ∧ u.localEnd = s.stack.localEnd := by
  have h' : ((s.stack.connection e).isNone && ((s.ingest buf).stack.connection e).isSome) = true := h
  have hmoves := s.moves e (.frame buf)
  change s.Moves e _ _ ((s.ingest buf).stack.connection e) at hmoves
  generalize s.stack.connection e = o, (s.ingest buf).stack.connection e = o' at hmoves h' ⊢
  cases hmoves with
  | same =>
    cases o with
    | none => cases h'
    | some t => cases h'
  | segment => cases h'
  | opens => exact ⟨_, rfl, Tcb.localEnd_setCongestionControl _ _⟩

/-- An active open installs one from an ephemeral port. -/
theorem installs_start {remote : Endpoint} {w : Waker} :
    ∃ u, (s.startConnect remote w).stack.connection remote = some u ∧ u.localEnd.port ≠ s.stack.localEnd.port := by
  obtain ⟨loc, iss, hport, hat, -, -⟩ := s.stack.connection_connect s.now remote remote
  exact ⟨_, hat, by rwa [Tcb.localEnd_setCongestionControl]⟩

/-- What is not installed was there before, between the same endpoints. -/
theorem localEnd_moves (hno : s.installs v e = false) (hu : (s.apply v).stack.connection e = some u) :
    ∃ t, s.stack.connection e = some t ∧ u.localEnd = t.localEnd := by
  by_cases hstart : ∃ remote w, v = .action (.start remote w)
  · obtain ⟨remote, w, rfl⟩ := hstart
    have hne : e ≠ remote := of_decide_eq_false hno
    obtain ⟨loc, iss, -, -, hoff, -⟩ := s.stack.connection_connect s.now e remote
    change (s.stack.connect remote s.now).connection e = some u at hu
    rw [hoff hne] at hu
    exact ⟨u, hu, rfl⟩
  have hno' : ((s.stack.connection e).isNone && ((s.apply v).stack.connection e).isSome) = false := by
    cases v with
    | action a =>
      cases a with
      | start remote w => exact absurd ⟨remote, w, rfl⟩ hstart
      | poll => exact hno
      | close => exact hno
    | _ => exact hno
  have hmoves := s.moves e v
  rw [hu] at hmoves hno'
  generalize s.stack.connection e = o at hmoves hno' ⊢
  cases hmoves with
  | same => exact ⟨u, rfl, rfl⟩
  | timer now t => exact ⟨t, rfl, t.localEnd_onTimer now⟩
  | segment buf t p ce => exact ⟨t, rfl, t.localEnd_onSegment s.now p ce⟩
  | opens => cases hno'
  | dials w => exact absurd ⟨e, w, rfl⟩ hstart
  | reads n w t => exact ⟨t, rfl, rfl⟩
  | writes data w t => exact ⟨t, rfl, t.localEnd_send data⟩
  | closes t => exact ⟨t, rfl, rfl⟩
  | sends t => exact ⟨t, rfl, t.localEnd_flush s.now⟩

/-- The listening endpoint never changes. -/
theorem localEnd_apply (s : Reactor κ) (v : Event) : (s.apply v).stack.localEnd = s.stack.localEnd := by
  cases v with
  | select kind => rfl
  | timers now =>
    refine Keyed.foldl_const Stack.localEnd (fun k e => ?_) _ s.stack
    unfold Stack.fire
    split
    · rfl
    · rfl
  | frame buf =>
    change (s.ingest buf).stack.localEnd = _
    unfold ingest
    split
    · rfl
    rename_i ip hip
    split
    · have hreceives := s.stack.onRecv_receives s.now ip (Stack.payload_fits hip)
      change (s.stack.onRecv s.now ip).localEnd = _
      generalize s.stack.onRecv s.now ip = k at hreceives ⊢
      cases hreceives with
      | kept => rfl
      | segment => rfl
      | opens => rfl
    · rfl
  | dispatch => exact congrArg Stack.localEnd s.stack_dispatch
  | action a =>
    cases a with
    | start remote w =>
      obtain ⟨loc, iss, -, -, -, hloc⟩ := s.stack.connection_connect s.now remote remote
      exact hloc
    | poll f w =>
      have hpolled := s.polled f w
      change (s.poll f w).1.stack.localEnd = _
      generalize s.poll f w = q at hpolled ⊢
      cases hpolled with
      | parks => cases f <;> rfl
      | takes => rfl
      | reads => rfl
      | writes => rfl
      | answers => rfl
    | close remote =>
      change (s.close remote).stack.localEnd = _
      unfold close
      split
      · rfl
      · rfl
  | transmit =>
    refine Keyed.foldl_const (fun p : Stack κ × List Datagram => p.1.localEnd) (fun k e => ?_) _
      ({ s.stack with pending := [] }, s.stack.pending)
    unfold Stack.drainConn
    split
    · dsimp only
      split
      · rfl
      · rfl
    · rfl

/-- Only a dispatch touches the set of announced connections. -/
theorem announced_apply (s : Reactor κ) (hv : v ≠ .dispatch) : (s.apply v).announced = s.announced := by
  cases v with
  | select kind => rfl
  | timers now => rfl
  | frame buf =>
    change (s.ingest buf).announced = _
    unfold ingest
    split
    · rfl
    split
    · rfl
    · rfl
  | dispatch => exact absurd rfl hv
  | action a =>
    cases a with
    | start remote w => rfl
    | poll f w =>
      have hpolled := s.polled f w
      change (s.poll f w).1.announced = _
      generalize s.poll f w = q at hpolled ⊢
      cases hpolled with
      | parks => cases f <;> rfl
      | takes => rfl
      | reads => rfl
      | writes => rfl
      | answers => rfl
    | close remote =>
      change (s.close remote).announced = _
      unfold close
      split
      · rfl
      · rfl
  | transmit => rfl

end Reactor

end Ferrumnet
