import Ferrumnet.Dispatch
import Ferrumnet.Silence

/-
  No wakeup is lost.

  The wake predicates of the reactor are written apart from the futures that park. A
  future that is parked with its waker registered would stay pending at the end of every
  dispatch, and the only one that a later step of the turn makes ready is a `Write`: our
  FIN went out, or the connection was dialled anew, and either way the retransmission
  timer is armed when the turn ends.

  1. `reset_closed` — a connection that was reset is closed, so that the predicates
     need not look at the flag.
  2. `Egress.flush` — what the transmit loop does to what the futures read.
  3. `wakeups_kept` — the two parts together, after any events.
-/

namespace Ferrumnet

/-! ## The connection -/

theorem Core.reset_onSegment (c : Core) (p : TcpPacket) :
    (c.onSegment p).reset = c.reset ∨ (c.onSegment p).state = .closed := by
  by_cases hst : c.state = .synSent
  · rw [Core.onSegment, if_pos hst]
    have htakes := c.onSegmentSynSent_takes p
    generalize c.onSegmentSynSent p = d at htakes
    cases htakes with
    | dropped => exact .inl rfl
    | reset => exact .inr rfl
    | acked => exact .inl rfl
    | crossed => exact .inl rfl
  · have htakes := c.onSegment_takes p hst
    generalize c.onSegment p = d at htakes
    cases htakes with
    | dropped => exact .inl rfl
    | reset => exact .inr rfl
    | synAgain => exact .inl rfl
    | badAck => exact .inr rfl
    | taken => exact .inl rfl

namespace Tcb

variable {κ : Type} [CongestionControl κ] {t u : Tcb κ} {now : Instant}

/-- What a transmission does to what the futures read: our FIN may go out, under the
retransmission timer. -/
structure Egress (t u : Tcb κ) : Prop where
  rx : u.rx = t.rx
  tx : u.tx = t.tx
  fin : u.peerFinSeen = t.peerFinSeen
  reset : u.reset = t.reset
  armed : t.rtxDeadline ≠ none → u.rtxDeadline ≠ none
  state : u.state = t.state ∨ u.rtxDeadline ≠ none ∧
    (t.state = .established ∧ u.state = .finWait1 ∨ t.state = .closeWait ∧ u.state = .lastAck)

omit [CongestionControl κ] in
theorem Egress.refl (t : Tcb κ) : Egress t t := ⟨rfl, rfl, rfl, rfl, id, .inl rfl⟩

omit [CongestionControl κ] in
/-- The fields that do not matter here. -/
theorem Egress.same {v : Tcb κ} (h : Egress t u) (hrx : v.rx = u.rx) (htx : v.tx = u.tx)
    (hfin : v.peerFinSeen = u.peerFinSeen) (hreset : v.reset = u.reset) (hrtx : v.rtxDeadline = u.rtxDeadline)
    (hstate : v.state = u.state) : Egress t v :=
  ⟨hrx.trans h.rx, htx.trans h.tx, hfin.trans h.fin, hreset.trans h.reset, hrtx ▸ h.armed, by
    rw [hrtx, hstate]
    exact h.state⟩

omit [CongestionControl κ] in
theorem armed_startRtx (t : Tcb κ) (now : Instant) : (t.startRtx now).rtxDeadline ≠ none := by
  unfold startRtx
  split
  · exact Option.some_ne_none _
  · rename_i h
    rwa [Option.isNone_iff_eq_none] at h

omit [CongestionControl κ] in
theorem Egress.startRtx (h : Egress t u) (now : Instant) : Egress t (u.startRtx now) := by
  have harmed := u.armed_startRtx now
  unfold Tcb.startRtx at harmed ⊢
  split
  · rename_i hnone
    rw [if_pos hnone] at harmed
    exact ⟨h.rx, h.tx, h.fin, h.reset, fun _ => harmed, h.state.imp_right fun hs => ⟨harmed, hs.2⟩⟩
  · exact h

omit [CongestionControl κ] in
theorem Egress.noteFin (h : Egress t u) (now : Instant) : Egress t (u.noteFin now) := by
  have hmoved : Egress t { u with finSeq := some u.dataEnd, sndNxt := u.dataEnd + 1 } :=
    h.same rfl rfl rfl rfl rfl rfl
  have hstarted := hmoved.startRtx now
  have harmed : (u.noteFin now).rtxDeadline ≠ none :=
    armed_startRtx { u with finSeq := some u.dataEnd, sndNxt := u.dataEnd + 1 } now
  have hstate : (u.noteFin now).state = finState u.state := by
    simp only [Tcb.noteFin, Tcb.startRtx]
    split <;> rfl
  refine ⟨hstarted.rx, hstarted.tx, hstarted.fin, hstarted.reset, fun _ => harmed, ?_⟩
  rw [hstate]
  rcases h.state with hs | ⟨-, ⟨ht, hs⟩ | ⟨ht, hs⟩⟩
  · rw [hs]
    cases ht : t.state <;> simp [finState, harmed]
  · rw [hs]
    exact .inr ⟨harmed, .inl ⟨ht, rfl⟩⟩
  · rw [hs]
    exact .inr ⟨harmed, .inr ⟨ht, rfl⟩⟩

theorem egress_keeps (t : Tcb κ) (now : Instant) : TransmitKeeps now (Egress t) where
  clocked _ h := h.same rfl rfl rfl rfl rfl rfl
  owed _ _ h := h.same rfl rfl rfl rfl rfl rfl
  flag _ _ h := h.same rfl rfl rfl rfl rfl rfl
  syn _ _ h := h.same rfl rfl rfl rfl rfl rfl
  paced u h := by
    simp only [paced, pace]
    split
    · exact h
    · split <;> exact h.same rfl rfl rfl rfl rfl rfl
  armPersist u h := by
    unfold armPersist
    split
    · exact h.same rfl rfl rfl rfl rfl rfl
    · exact h
  emit _ _ _ _ h := h.same rfl rfl rfl rfl rfl rfl
  startRtx _ h := h.startRtx now
  noteRexmit _ _ _ _ h := h.same rfl rfl rfl rfl rfl rfl
  noteSent u n room h := by
    simp only [noteSent]
    split <;> split <;> exact h.same rfl rfl rfl rfl rfl rfl
  noteFin _ h := h.noteFin now

theorem egress_poll (t : Tcb κ) (now : Instant) : Egress t (t.pollTransmit now).1 :=
  (egress_keeps t now).poll (.refl t)

theorem egress_flush (t : Tcb κ) (now : Instant) : Egress t (t.flush now).1 :=
  flush_keeps (egress_keeps t now) (.refl t)

end Tcb

namespace Host

variable {κ : Type} [CongestionControl κ] {r : Host κ}

/-- What a call does to the flag, but for the RST that closes. -/
theorem reset_input (hok : r.Ok) (h : r.tcb.reset = true → r.tcb.state = .closed) (i : Input)
    (hafter : (r.input i).1.tcb.reset = true) : (r.input i).1.tcb.state = .closed := by
  by_cases hbefore : r.tcb.reset = true
  · exact input_closed hok (h hbefore) i
  have hkept : (r.input i).1.tcb.reset ≠ r.tcb.reset := by
    rw [hafter]
    exact fun hc => hbefore hc.symm
  cases i with
  | segment seg now ce =>
    have hcore := r.tcb.core_onSegment now seg.tcp ce
    have hcases := r.tcb.core.reset_onSegment seg.tcp
    rw [← hcore] at hcases
    exact hcases.resolve_left hkept
  | send data =>
    rcases r.tcb.core_send' data with ⟨-, -, hc⟩ | ⟨-, hc⟩
    · exact absurd (congrArg Core.reset hc) hkept
    · exact absurd (congrArg Core.reset hc) hkept
  | recv n => exact absurd rfl hkept
  | close => exact absurd rfl hkept
  | timer now =>
    rcases r.tcb.core_onTimer now with hc | hc
    · exact absurd (congrArg Core.reset hc) hkept
    · exact congrArg Core.state hc
  | poll now => exact absurd (r.tcb.egress_poll now).reset hkept

theorem Opens.unreset (h : r.Opens) : r.tcb.reset = false := by
  cases h with
  | active loc remote iss now mss kind =>
    exact congrArg Core.reset (World.core_setCongestionControl (Tcb.newSynSent loc remote iss now mss : Tcb κ) kind)
  | passive loc remote syn iss now mss kind =>
    exact congrArg Core.reset
      (World.core_setCongestionControl (Tcb.newSynReceived loc remote syn iss now mss : Tcb κ) kind)

end Host

namespace Tcb

variable {κ : Type} [CongestionControl κ] {t : Tcb κ} {now : Instant}

/-- A connection that was reset is closed. -/
theorem Reached.reset_closed (h : t.Reached) (hreset : t.isReset = true) : t.state = .closed := by
  obtain ⟨r₀, r, is, h0, hr, rfl⟩ := h
  have hrun : r.Ok ∧ (r.tcb.reset = true → r.tcb.state = .closed) := by
    refine Run.run_invariant (I := fun r : Host κ => r.Ok ∧ (r.tcb.reset = true → r.tcb.state = .closed))
      (fun s i s' hs he => ?_) ⟨h0.ok, fun hc => ?_⟩ hr
    · cases he
      exact ⟨hs.1.input i, Host.reset_input hs.1 hs.2 i⟩
    · rw [h0.unreset] at hc
      cases hc
  exact hrun.2 hreset

end Tcb

/-! ## What an action does to a connection -/

namespace Tcb

variable {κ : Type} {t u : Tcb κ} {data : Bytes}

/-- The connection has just been dialled, and its SYN is still to go out. -/
structure Dialled (t : Tcb κ) : Prop where
  state : t.state = .synSent
  syn : t.sndNxt = t.iss
  pending : t.pendingReset = none
  rx : t.rxAvailable = 0
  reset : t.isReset = false
  fin : t.peerFinSeen = false

/-- What a call of the application leaves of a connection: where there was nothing to
read, or no room to write, there still is none. -/
structure Called (t u : Tcb κ) : Prop where
  state : u.state = t.state
  syn : u.sndNxt = t.sndNxt ∧ u.iss = t.iss
  pending : u.pendingReset = t.pendingReset
  rx : t.rxAvailable = 0 → u.rxAvailable = 0
  reset : u.isReset = t.isReset
  fin : u.peerFinSeen = t.peerFinSeen
  tx : ∀ data, (t.send data).2 = 0 → (u.send data).2 = 0

theorem Called.refl (t : Tcb κ) : Called t t := ⟨rfl, ⟨rfl, rfl⟩, rfl, id, rfl, rfl, fun _ => id⟩

/-- What `send` takes depends on the state and the room. -/
theorem send_snd (t : Tcb κ) (data : Bytes) :
    (t.send data).2 = if t.state = .established ∨ t.state = .closeWait then (t.tx.write data).2 else 0 := by
  unfold send
  cases t.state <;> rfl

theorem send_fst (t : Tcb κ) (data : Bytes) :
    (t.send data).1 = if t.state = .established ∨ t.state = .closeWait then { t with tx := (t.tx.write data).1 } else t := by
  unfold send
  cases t.state <;> simp

theorem called_close (t : Tcb κ) : Called t t.close :=
  ⟨rfl, ⟨rfl, rfl⟩, rfl, id, rfl, rfl, fun data h => by rwa [send_snd] at h ⊢⟩

theorem called_recv (t : Tcb κ) (n : Nat) : Called t (t.recv n).1 := by
  refine ⟨rfl, ⟨rfl, rfl⟩, rfl, fun hrx => ?_, rfl, rfl, fun data h => by rwa [send_snd] at h ⊢⟩
  change (t.rx.consume n).len = 0
  rw [RingBuffer.consume_len]
  have hlen : t.rx.len = 0 := hrx
  omega

/-- A write that finds no room finds none behind another. -/
theorem called_send (t : Tcb κ) (d : Bytes) : Called t (t.send d).1 := by
  rw [send_fst]
  split
  · rename_i hst
    refine ⟨rfl, ⟨rfl, rfl⟩, rfl, id, rfl, rfl, fun data h => ?_⟩
    rw [send_snd, if_pos hst, RingBuffer.write_snd] at h
    rw [send_snd, if_pos hst, RingBuffer.write_snd, RingBuffer.write_capacity, RingBuffer.write_len]
    omega
  · exact .refl t

theorem Dialled.called (h : t.Dialled) (hc : Called t u) : u.Dialled :=
  ⟨hc.state.trans h.state, hc.syn.1.trans (h.syn.trans hc.syn.2.symm), hc.pending.trans h.pending, hc.rx h.rx,
    hc.reset.trans h.reset, hc.fin.trans h.fin⟩

variable [CongestionControl κ]

theorem dialled_newSynSent (loc remote : Endpoint) (iss : SeqNumber) (now : Instant) (mss : Nat) (kind : CcKind) :
    ((newSynSent loc remote iss now mss : Tcb κ).setCongestionControl kind).Dialled := by
  have hcore := World.core_setCongestionControl (newSynSent loc remote iss now mss : Tcb κ) kind
  have howed : ((newSynSent loc remote iss now mss : Tcb κ).setCongestionControl kind).toOwed = freshOwed := by
    unfold setCongestionControl
    split
    · rfl
    · rfl
  generalize (newSynSent loc remote iss now mss : Tcb κ).setCongestionControl kind = u at hcore howed
  have hsend : u.toSendSpace = freshSend iss := congrArg Core.toSendSpace hcore
  have hrecv : u.toRecvSpace = freshRecv (SeqNumber.new 0) (SeqNumber.new 0) (SeqNumber.new 0) :=
    congrArg Core.toRecvSpace hcore
  refine ⟨congrArg Core.state hcore, ?_, congrArg Owed.pendingReset howed, ?_, congrArg Core.reset hcore, ?_⟩
  · rw [hsend]
    rfl
  · rw [rxAvailable, hrecv]
    rfl
  · rw [hrecv]
    rfl

end Tcb

namespace Reactor

variable {κ : Type} [CongestionControl κ] {s : Reactor κ} {f : Future} {w : Waker} {e : Endpoint} {t : Tcb κ}

/-- No action takes an entry away; it is dialled anew, or served a call. -/
theorem entry_act (ht : s.stack.connection e = some t) (a : Call) :
    ∃ u, (s.act a).stack.connection e = some u ∧ (t.Called u ∨ u.Dialled) := by
  have hmoves := s.moves e (.action a)
  change s.Moves e _ _ ((s.act a).stack.connection e) at hmoves
  rw [ht] at hmoves
  generalize (s.act a).stack.connection e = o at hmoves ⊢
  cases hmoves with
  | same => exact ⟨t, rfl, .inl (.refl t)⟩
  | dials => exact ⟨_, rfl, .inr (Tcb.dialled_newSynSent _ _ _ _ _ _)⟩
  | reads n => exact ⟨_, rfl, .inl (t.called_recv n)⟩
  | writes data => exact ⟨_, rfl, .inl (t.called_send data)⟩
  | closes => exact ⟨_, rfl, .inl t.called_close⟩

/-! ## What it does to a parked future -/

/-- A connection that has just been dialled. -/
def Dialled (s : Reactor κ) (e : Endpoint) : Prop := ∃ t, s.stack.connection e = some t ∧ t.Dialled

/-- The future is stalled, or is a `Write` whose connection has been dialled anew. -/
def Waits (s : Reactor κ) (f : Future) : Prop :=
  s.Stalls f ∨ ∃ e data, f = .write e data ∧ s.Dialled e

/-- No action fills the accept queue. -/
theorem queue_act (hq : s.acceptQueue = []) (a : Call) : (s.act a).acceptQueue = [] := by
  cases a with
  | start remote w => exact hq
  | close remote =>
    simp only [act, close]
    split
    · exact hq
    · exact hq
  | poll f w =>
    have hpolled := s.polled f w
    change (s.poll f w).1.acceptQueue = []
    generalize s.poll f w = q at hpolled ⊢
    cases hpolled with
    | parks =>
      cases f with
      | accept => rfl
      | connect => exact hq
      | read => exact hq
      | write => exact hq
    | takes _ _ hne => exact absurd hq hne
    | reads => exact hq
    | writes => exact hq
    | answers => exact hq

theorem Dialled.act (h : s.Dialled e) (a : Call) : (s.act a).Dialled e := by
  obtain ⟨t, ht, hd⟩ := h
  obtain ⟨u, hu, hcalled | hdialled⟩ := entry_act ht a
  · exact ⟨u, hu, hd.called hcalled⟩
  · exact ⟨u, hu, hdialled⟩

/-- What stalls a `Read` or a `Connect` outlasts every action; a `Write` may find its
connection dialled anew. -/
theorem Stalls.act (h : s.Stalls f) (a : Call) : (s.act a).Waits f := by
  cases f with
  | accept => exact .inl (queue_act h a)
  | connect e =>
    obtain ⟨t, ht, hsync, hopen⟩ := h
    obtain ⟨u, hu, hc | hd⟩ := entry_act ht a
    · exact .inl ⟨u, hu, by rwa [Tcb.isSynchronized, hc.state], by rwa [hc.state]⟩
    · exact .inl ⟨u, hu, by rw [Tcb.isSynchronized, hd.state]; rfl, by rw [hd.state]; simp⟩
  | read e n =>
    obtain ⟨hn, t, ht, hrx, hreset, hfin, hopen⟩ := h
    obtain ⟨u, hu, hc | hd⟩ := entry_act ht a
    · exact .inl ⟨hn, u, hu, hc.rx hrx, hc.reset.trans hreset, hc.fin.trans hfin, by rwa [hc.state]⟩
    · exact .inl ⟨hn, u, hu, hd.rx, hd.reset, hd.fin, by rw [hd.state]; simp⟩
  | write e data =>
    obtain ⟨t, ht, hreset, hst, hsend⟩ := h
    obtain ⟨u, hu, hc | hd⟩ := entry_act ht a
    · exact .inl ⟨u, hu, hc.reset.trans hreset, by rwa [hc.state], hc.tx data hsend⟩
    · exact .inr ⟨e, data, rfl, u, hu, hd⟩

theorem Waits.act (h : s.Waits f) (a : Call) : (s.act a).Waits f := by
  rcases h with h | ⟨e, data, hf, hd⟩
  · exact h.act a
  · exact .inr ⟨e, data, hf, hd.act a⟩

/-! ## What the transmission pass does to it -/

omit [CongestionControl κ] in
/-- The earliest deadline exists as soon as one connection has one. -/
theorem pollAt_armed (ht : s.stack.connection e = some t) (hrtx : t.rtxDeadline ≠ none) : s.pollAt ≠ none := by
  obtain ⟨d, hd⟩ := Option.ne_none_iff_exists'.mp hrtx
  have hpoll : t.pollAt ≠ none := by
    intro hnone
    have hmem : d ∈ t.armed := Tcb.mem_armed.mpr (.inl hd)
    rw [Tcb.pollAt_none hnone] at hmem
    exact List.not_mem_nil hmem
  obtain ⟨b, hb⟩ := Option.ne_none_iff_exists'.mp hpoll
  have hkey : e ∈ s.stack.conns.keys := by
    rw [← AList.mem_keys, ← AList.lookup_isSome]
    exact Option.isSome_iff_exists.mpr ⟨t, ht⟩
  have hmem : b ∈ s.stack.conns.keys.filterMap fun e => (s.stack.connection e).bind Tcb.pollAt := by
    refine List.mem_filterMap.mpr ⟨e, hkey, ?_⟩
    rw [ht]
    exact hb
  intro hnone
  change (s.stack.conns.keys.filterMap fun e => (s.stack.connection e).bind Tcb.pollAt).foldl Tcb.earlier none =
    none at hnone
  generalize (s.stack.conns.keys.filterMap fun e => (s.stack.connection e).bind Tcb.pollAt) = ds at hmem hnone
  cases ds with
  | nil => exact List.not_mem_nil hmem
  | cons d ds =>
    obtain ⟨x, hx, -⟩ := Tcb.foldl_earlier ds d
    exact absurd (hx.symm.trans hnone) (by simp)

/-- A connection that the transmission pass does not leave closed. -/
theorem connection_transmit (ht : s.stack.connection e = some t) (hopen : (t.flush s.now).1.state ≠ .closed) :
    s.transmit.1.stack.connection e = some (t.flush s.now).1 := by
  change (s.stack.pollTransmit s.now).1.connection e = _
  rw [Stack.connection_pollTransmit, ht, Option.bind_some, Stack.left, if_neg hopen]

/-- No connection is closed by the pass itself. -/
theorem flush_open (now : Instant) (h : t.state ≠ .closed) : (t.flush now).1.state ≠ .closed := by
  rcases (t.egress_flush now).state with hst | ⟨-, ⟨-, hst⟩ | ⟨-, hst⟩⟩
  · rwa [hst]
  · simp [hst]
  · simp [hst]

/-- The SYN goes out under the retransmission timer. -/
theorem Dialled.transmit (h : s.Dialled e) (hpeopled : s.Peopled) : s.transmit.1.pollAt ≠ none := by
  obtain ⟨t, ht, hd⟩ := h
  have hopen : t.state ≠ .closed := by simp [hd.state]
  refine pollAt_armed (connection_transmit ht (flush_open s.now hopen)) ?_
  have hfirst : (t.pollTransmit s.now).1.rtxDeadline ≠ none := by
    simp only [Tcb.pollTransmit, hd.pending, hd.state, Tcb.pollSynSent, hd.syn, if_true]
    exact Tcb.armed_startRtx _ s.now
  have hegress := Tcb.drain_after (Tcb.egress_keeps (t.pollTransmit s.now).1 s.now) (.refl _)
    ((hpeopled e t ht).flush_ends s.now)
  exact hegress.armed hfirst

/-- A parked future stays stalled, or its connection has the retransmission timer armed. -/
theorem Waits.transmit (h : s.Waits f) (hpeopled : s.Peopled) :
    s.transmit.1.Stalls f ∨ s.transmit.1.pollAt ≠ none := by
  rcases h with h | ⟨e, data, -, hd⟩
  swap
  · exact .inr (hd.transmit hpeopled)
  cases f with
  | accept => exact .inl h
  | connect e =>
    obtain ⟨t, ht, hsync, hopen⟩ := h
    have hopen' := flush_open s.now hopen
    refine .inl ⟨_, connection_transmit ht hopen', ?_, hopen'⟩
    rcases (t.egress_flush s.now).state with hst | ⟨-, ⟨hst, -⟩ | ⟨hst, -⟩⟩
    · rwa [Tcb.isSynchronized, hst]
    · rw [Tcb.isSynchronized, hst] at hsync
      cases hsync
    · rw [Tcb.isSynchronized, hst] at hsync
      cases hsync
  | read e n =>
    obtain ⟨hn, t, ht, hrx, hreset, hfin, hopen⟩ := h
    have hegress := t.egress_flush s.now
    have hopen' := flush_open s.now hopen
    refine .inl ⟨hn, _, connection_transmit ht hopen', ?_, hegress.reset.trans hreset, hegress.fin.trans hfin,
      hopen'⟩
    rwa [Tcb.rxAvailable, hegress.rx]
  | write e data =>
    obtain ⟨t, ht, hreset, hst, hsend⟩ := h
    have hegress := t.egress_flush s.now
    have hopen' : (t.flush s.now).1.state ≠ .closed := flush_open s.now (by rcases hst with h | h <;> simp [h])
    have hconn := connection_transmit ht hopen'
    rcases hegress.state with hsame | ⟨harmed, -⟩
    · refine .inl ⟨_, hconn, hegress.reset.trans hreset, by rwa [hsame], ?_⟩
      rwa [Tcb.send_snd, hsame, hegress.tx, ← Tcb.send_snd]
    · exact .inr (pollAt_armed hconn harmed)

/-! ## What a dispatch does to it -/

omit [CongestionControl κ] in
theorem connect_stalls (h : s.connectReady e = false) : s.Stalls (.connect e) := by
  unfold connectReady at h
  cases ht : s.stack.connection e with
  | none =>
    rw [ht] at h
    cases h
  | some t =>
    rw [ht] at h
    rw [Bool.or_eq_false_iff, decide_eq_false_iff_not] at h
    exact ⟨t, ht, h.1, h.2⟩

/-- The predicate does not look at the flag of a reset. -/
theorem read_stalls (hpeopled : s.Peopled) {n : Nat} (hn : n ≠ 0) (h : s.readReady e = false) :
    s.Stalls (.read e n) := by
  unfold readReady at h
  cases ht : s.stack.connection e with
  | none =>
    rw [ht] at h
    cases h
  | some t =>
    rw [ht] at h
    rw [Bool.or_eq_false_iff, Bool.or_eq_false_iff, decide_eq_false_iff_not, decide_eq_false_iff_not] at h
    obtain ⟨⟨hrx, heof⟩, hopen⟩ := h
    have hrx' : t.rxAvailable = 0 := Nat.eq_zero_of_not_pos hrx
    have hempty : t.rx.isEmpty = true := Bytes.isEmpty_iff.mpr hrx'
    have hreset : t.isReset = false := by
      rw [Bool.eq_false_iff]
      exact fun hc => hopen ((hpeopled e t ht).reset_closed hc)
    rw [Tcb.recvEof, hempty, Bool.and_true] at heof
    exact ⟨hn, t, ht, hrx', hreset, heof, hopen⟩

theorem write_stalls (hpeopled : s.Peopled) {data : Bytes} (h : s.writeReady e = false) :
    s.Stalls (.write e data) := by
  unfold writeReady at h
  cases ht : s.stack.connection e with
  | none =>
    rw [ht] at h
    cases h
  | some t =>
    rw [ht] at h
    rw [Bool.or_eq_false_iff, Bool.not_eq_false', Bool.or_eq_true, decide_eq_true_eq, decide_eq_true_eq,
      decide_eq_false_iff_not] at h
    obtain ⟨hst, hfull⟩ := h
    have hreset : t.isReset = false := by
      rw [Bool.eq_false_iff]
      intro hc
      rw [(hpeopled e t ht).reset_closed hc] at hst
      rcases hst with hst | hst <;> cases hst
    refine ⟨t, ht, hreset, hst, ?_⟩
    have hfree : t.tx.capacity - t.tx.len = 0 := Nat.eq_zero_of_not_pos hfull
    rw [Tcb.send_snd, if_pos hst, RingBuffer.write_snd, hfree, Nat.min_zero]

/-- A future that is ready has its waker taken, and a waker that is left belongs to a
future that is not. -/
theorem stalls_dispatch (hpeopled : s.Peopled) (hslot : s.dispatchWakeups.slot f = some w)
    (hn : ∀ e n, f = .read e n → n ≠ 0) : s.dispatchWakeups.Stalls f := by
  rw [dispatch_eq] at hslot ⊢
  cases f with
  | accept =>
    change (if s.promoted.isEmpty then s.acceptWaker else none) = some w at hslot
    split at hslot
    · rename_i hempty
      change s.promoted.filter _ = []
      rw [List.isEmpty_iff.mp hempty, List.filter_nil]
    · cases hslot
  | connect e =>
    change (wake s.connectReady s.connectWakers).1.lookup e = some w at hslot
    rw [lookup_wake] at hslot
    split at hslot
    · cases hslot
    · rename_i hunready
      exact connect_stalls (s := s) (Bool.eq_false_iff.mpr hunready)
  | read e n =>
    change (wake s.readReady s.readWakers).1.lookup e = some w at hslot
    rw [lookup_wake] at hslot
    split at hslot
    · cases hslot
    · rename_i hunready
      exact read_stalls (s := s) hpeopled (hn e n rfl) (Bool.eq_false_iff.mpr hunready)
  | write e data =>
    change (wake s.writeReady s.writeWakers).1.lookup e = some w at hslot
    rw [lookup_wake] at hslot
    split at hslot
    · cases hslot
    · rename_i hunready
      exact write_stalls (s := s) hpeopled (Bool.eq_false_iff.mpr hunready)

/-- The tasks that a dispatch wakes. -/
def roused (s : Reactor κ) : List Waker := s.dispatchWakeups.woken.drop s.woken.length

theorem mem_roused (hpeopled : s.Peopled) (hslot : s.slot f = some w) (hn : ∀ e n, f = .read e n → n ≠ 0)
    (hready : (s.poll f w).2 ≠ .pending) : w ∈ s.roused := by
  have hmem : w ∈ (if s.promoted.isEmpty then [] else s.acceptWaker.toList) ++
      (wake s.connectReady s.connectWakers).2 ++ (wake s.readReady s.readWakers).2 ++
      (wake s.writeReady s.writeWakers).2 := by
    simp only [List.mem_append]
    have hwoken : ¬ s.Stalls f := fun hst => hready (hst.pending w)
    cases f with
    | accept =>
      left; left; left
      rw [if_neg]
      · rw [show s.acceptWaker = some w from hslot]
        exact List.mem_singleton_self w
      · intro hempty
        rw [List.isEmpty_iff, promoted, List.append_eq_nil_iff] at hempty
        exact hwoken hempty.1
    | connect e =>
      left; left; right
      refine mem_wake ?_ hslot
      by_contra hunready
      exact hwoken (connect_stalls (Bool.eq_false_iff.mpr hunready))
    | read e n =>
      left; right
      refine mem_wake ?_ hslot
      by_contra hunready
      exact hwoken (read_stalls hpeopled (hn e n rfl) (Bool.eq_false_iff.mpr hunready))
    | write e data =>
      right
      refine mem_wake ?_ hslot
      by_contra hunready
      exact hwoken (write_stalls hpeopled (Bool.eq_false_iff.mpr hunready))
  have hall : s.roused = (if s.promoted.isEmpty then [] else s.acceptWaker.toList) ++
      (wake s.connectReady s.connectWakers).2 ++ (wake s.readReady s.readWakers).2 ++
      (wake s.writeReady s.writeWakers).2 := by
    rw [roused, dispatch_eq]
    simp only [List.append_assoc, List.drop_left]
  rw [hall]
  exact hmem

/-- The connection that `connect` installs. -/
theorem dialled_start (remote : Endpoint) (w : Waker) : (s.startConnect remote w).Dialled remote := by
  obtain ⟨loc, iss, -, hat, -⟩ := s.stack.connection_connect s.now remote remote
  exact ⟨_, hat, Tcb.dialled_newSynSent _ _ _ _ _ _⟩

omit [CongestionControl κ] in
/-- Registering a waker replaces no other by itself. -/
theorem slot_register {g : Future} {v : Waker} (hne : w ≠ v) (h : (s.register g v).slot f = some w) :
    s.slot f = some w := by
  have hkey : ∀ {wakers : Wakers} {e k : Endpoint}, (wakers.insert k v).lookup e = some w →
      wakers.lookup e = some w := by
    intro wakers e k hl
    by_cases hek : e = k
    · subst hek
      rw [AList.lookup_insert] at hl
      exact absurd (Option.some.inj hl).symm hne
    · rwa [AList.lookup_insert_ne hek] at hl
  cases g with
  | accept =>
    cases f with
    | accept => exact absurd (Option.some.inj h).symm hne
    | _ => exact h
  | connect k =>
    cases f with
    | connect e => exact hkey h
    | _ => exact h
  | read k n =>
    cases f with
    | read e m => exact hkey h
    | _ => exact h
  | write k data =>
    cases f with
    | write e d => exact hkey h
    | _ => exact h

end Reactor

/-! ## Tasks -/

/-- The reactor, and what each task is parked on. -/
structure Loop (κ : Type) where
  reactor : Reactor κ
  parked : Waker → Option Reactor.Future

namespace Loop

open Reactor (Future Call Event)

variable {κ : Type} [CongestionControl κ] {s : Loop κ} {f : Future} {w : Waker}

def new (loc : Endpoint) (isn : IsnGenerator) (mss : Nat) : Loop κ := ⟨Reactor.new loc isn mss, fun _ => none⟩

/-- A task that gets `Pending` is parked; `start` is the first poll of a `Connect`. -/
def park (s : Loop κ) : Event → Waker → Option Future
  | .action (.start remote w) => Function.update s.parked w (some (.connect remote))
  | .action (.poll f w) => Function.update s.parked w (if (s.reactor.poll f w).2.isPending then some f else none)
  | _ => s.parked

def after (s : Loop κ) (v : Event) : Loop κ := ⟨s.reactor.apply v, s.park v⟩

/-- One event, as a step of a run. -/
def step (s : Loop κ) (v : Event) : Option (Loop κ) := some (s.after v)

/-- The tasks of one turn. -/
def acts (s : Loop κ) (as : List Call) : Loop κ := as.foldl (fun s a => s.after (.action a)) s

/-- The task is parked on the future, with its waker registered. -/
def Awaits (s : Loop κ) (w : Waker) (f : Future) : Prop := s.parked w = some f ∧ s.reactor.slot f = some w

/-- Polling the future would not return `Pending`. -/
def Resolves (s : Loop κ) (w : Waker) (f : Future) : Prop := (s.reactor.poll f w).2 ≠ .pending

/-- No task is parked on an empty read. -/
def Earnest (s : Loop κ) : Prop := ∀ w e n, s.parked w = some (.read e n) → n ≠ 0

theorem Earnest.after (h : s.Earnest) (v : Event) : (s.after v).Earnest := by
  intro w e n hp
  cases v with
  | action a =>
    cases a with
    | start remote v =>
      change Function.update s.parked v _ w = _ at hp
      by_cases hw : w = v
      · rw [hw, Function.update_self] at hp
        cases hp
      · rw [Function.update_of_ne hw] at hp
        exact h w e n hp
    | poll f v =>
      change Function.update s.parked v _ w = _ at hp
      by_cases hw : w = v
      · rw [hw, Function.update_self] at hp
        split at hp
        · rename_i hpending
          cases hp
          have hpolled := s.reactor.polled (.read e n) v
          generalize s.reactor.poll (.read e n) v = q at hpolled hpending
          cases hpolled with
          | parks _ hst => exact hst.1
          | reads _ _ _ hn => exact hn
          | answers => cases hpending
        · cases hp
      · rw [Function.update_of_ne hw] at hp
        exact h w e n hp
    | close remote => exact h w e n hp
  | _ => exact h w e n hp

/-- Every registered future waits. -/
structure Sound (s : Loop κ) : Prop where
  peopled : s.reactor.Peopled
  waits : ∀ w f, s.Awaits w f → s.reactor.Waits f

theorem Sound.act (h : s.Sound) (a : Call) : (s.after (.action a)).Sound := by
  refine ⟨h.peopled.apply _, ?_⟩
  rintro w f ⟨hparked, hslot⟩
  -- a future that was registered before waits on
  have hkept : s.parked w = some f → s.reactor.slot f = some w → (s.reactor.act a).Waits f :=
    fun h1 h2 => (h.waits w f ⟨h1, h2⟩).act a
  cases a with
  | start remote v =>
    change Function.update s.parked v _ w = _ at hparked
    by_cases hw : w = v
    · rw [hw, Function.update_self] at hparked
      cases hparked
      obtain ⟨t, ht, hd⟩ := s.reactor.dialled_start remote v
      exact .inl ⟨t, ht, by rw [Tcb.isSynchronized, hd.state]; rfl, by rw [hd.state]; simp⟩
    · rw [Function.update_of_ne hw] at hparked
      exact hkept hparked (Reactor.slot_register (g := .connect remote) hw hslot)
  | poll g v =>
    change Function.update s.parked v _ w = _ at hparked
    change (s.reactor.poll g v).1.slot f = some w at hslot
    have hpolled := s.reactor.polled g v
    change s.parked w = some f → s.reactor.slot f = some w → (s.reactor.poll g v).1.Waits f at hkept
    change (s.reactor.poll g v).1.Waits f
    generalize s.reactor.poll g v = q at hpolled hparked hslot hkept ⊢
    by_cases hw : w = v
    · rw [hw, Function.update_self] at hparked
      split at hparked
      · rename_i hpending
        cases hparked
        cases hpolled with
        | parks _ hst => exact .inl hst
        | _ => cases hpending
      · cases hparked
    · rw [Function.update_of_ne hw] at hparked
      refine hkept hparked ?_
      cases hpolled with
      | parks => exact Reactor.slot_register hw hslot
      | takes => cases f <;> exact hslot
      | reads => cases f <;> exact hslot
      | writes => cases f <;> exact hslot
      | answers => exact hslot
  | close remote =>
    refine hkept hparked ?_
    change (s.reactor.close remote).slot f = some w at hslot
    unfold Reactor.close at hslot
    split at hslot
    · cases f <;> exact hslot
    · exact hslot

theorem Sound.acts (h : s.Sound) (as : List Call) : (s.acts as).Sound := by
  induction as generalizing s with
  | nil => exact h
  | cons a as ih => exact ih (h.act a)

theorem dialled_acts {e : Endpoint} (h : s.reactor.Dialled e) (as : List Call) : (s.acts as).reactor.Dialled e := by
  induction as generalizing s with
  | nil => exact h
  | cons a as ih => exact ih (s := s.after (.action a)) (h.act a)

/-- At the end of a dispatch no registered future would resolve, and the tasks of those
that would have are woken. If a later step of the turn, up to the end of its transmission
pass, makes a registered future ready, a deadline is armed when the turn ends. -/
theorem wakeups_kept {loc : Endpoint} {isn : IsnGenerator} {mss : Nat} {past : List Event}
    (hs : Run.run step (new loc isn mss) past = some s) :
    (∀ w f, s.Awaits w f → s.Resolves w f → w ∈ s.reactor.roused) ∧
    (∀ w f, (s.after .dispatch).Awaits w f → ¬ (s.after .dispatch).Resolves w f) ∧
    ∀ (before rest : List Call) (w : Waker) (f : Future),
      ((s.after .dispatch).acts before).Awaits w f ∧ ((s.after .dispatch).acts before).Resolves w f ∨
        (((s.after .dispatch).acts (before ++ rest)).after .transmit).Awaits w f ∧
          (((s.after .dispatch).acts (before ++ rest)).after .transmit).Resolves w f →
      (((s.after .dispatch).acts (before ++ rest)).after .transmit).reactor.pollAt ≠ none := by
  have hrun : s.reactor.Peopled ∧ s.Earnest := by
    refine Run.run_invariant (I := fun s : Loop κ => s.reactor.Peopled ∧ s.Earnest)
      (fun s v s' hs he => ?_) ⟨Reactor.peopled_new loc isn mss, fun w e n hp => ?_⟩ hs
    · cases he
      exact ⟨hs.1.apply v, hs.2.after v⟩
    · cases hp
  obtain ⟨hpeopled, hearnest⟩ := hrun
  have hstalls : ∀ w f, (s.after .dispatch).Awaits w f → (s.after .dispatch).reactor.Stalls f := by
    rintro w f ⟨hparked, hslot⟩
    refine Reactor.stalls_dispatch hpeopled hslot fun e n hf => ?_
    subst hf
    exact hearnest w e n hparked
  have hsound : (s.after .dispatch).Sound :=
    ⟨hpeopled.apply .dispatch, fun w f h => .inl (hstalls w f h)⟩
  refine ⟨?_, ?_, ?_⟩
  · rintro w f ⟨hparked, hslot⟩ hready
    refine Reactor.mem_roused hpeopled hslot (fun e n hf => ?_) hready
    subst hf
    exact hearnest w e n hparked
  · intro w f h hready
    exact hready ((hstalls w f h).pending w)
  · intro before rest w f h
    have hlast := hsound.acts (before ++ rest)
    rcases h with ⟨hawaits, hready⟩ | ⟨hawaits, hready⟩
    · -- only a dialled connection can have made it ready, and it stays dialled
      rcases (hsound.acts before).waits w f hawaits with hst | ⟨e, data, -, hd⟩
      · exact absurd (hst.pending w) hready
      · have hd' := dialled_acts hd rest
        rw [acts, acts, ← List.foldl_append] at hd'
        exact hd'.transmit hlast.peopled
    · rcases (hlast.waits w f hawaits).transmit hlast.peopled with hst | harmed
      · exact absurd (hst.pending w) hready
      · exact harmed

/-- A server accepts a connection and reads from it, and five bytes arrive. -/
def served : List Event :=
  [.timers ⟨0⟩, .frame (Reactor.peerFrame 2 5000 0 []), .dispatch, .transmit,
    .timers ⟨1000⟩, .frame (Reactor.peerFrame 16 5001 35424799 []), .dispatch, .action (.poll .accept 0),
    .action (.poll (.read ⟨1, 1000⟩ 100) 1), .transmit,
    .timers ⟨2000⟩, .frame (Reactor.peerFrame 24 5001 35424799 [1, 2, 3, 4, 5])]

theorem wakeups_kept_served : ∃ s : Loop Reno, Run.run step (new ⟨2, 80⟩ ⟨0, 0⟩ 1460) served = some s ∧
    (s.parked 1 = some (.read ⟨1, 1000⟩ 100) ∧ s.reactor.slot (.read ⟨1, 1000⟩ 100) = some 1 ∧
      (s.reactor.poll (.read ⟨1, 1000⟩ 100) 1).2.isPending = false) ∧
    (∀ w f, s.Awaits w f → s.Resolves w f → w ∈ s.reactor.roused) ∧
    (∀ w f, (s.after .dispatch).Awaits w f → ¬ (s.after .dispatch).Resolves w f) ∧
    ∀ (before rest : List Call) (w : Waker) (f : Future),
      ((s.after .dispatch).acts before).Awaits w f ∧ ((s.after .dispatch).acts before).Resolves w f ∨
        (((s.after .dispatch).acts (before ++ rest)).after .transmit).Awaits w f ∧
          (((s.after .dispatch).acts (before ++ rest)).after .transmit).Resolves w f →
      (((s.after .dispatch).acts (before ++ rest)).after .transmit).reactor.pollAt ≠ none := by
  obtain ⟨s, hs, hp⟩ := Run.exists_run step (new ⟨2, 80⟩ ⟨0, 0⟩ 1460) served
    (fun s : Loop Reno => s.parked 1 = some (.read ⟨1, 1000⟩ 100) ∧
      s.reactor.slot (.read ⟨1, 1000⟩ 100) = some 1 ∧
      (s.reactor.poll (.read ⟨1, 1000⟩ 100) 1).2.isPending = false) (by decide +kernel)
  exact ⟨s, hs, hp, wakeups_kept hs⟩

end Loop

end Ferrumnet
