import Ferrumnet.Futures
import Ferrumnet.Lib.Keyed

/-
  The table of connections under the runtime.

  Timers and transmissions walk the whole table, a segment and the calls of a task reach
  one connection; either way each entry is treated on its own. `Moves` lists all that an
  event may do to what the table has under one key.

  1. `flush_keeps`, `flush_ends` — the transmit loop of one connection.
  2. `moves` — nothing else happens to an entry.
  3. `Peopled.apply` — every connection of the table is in a state that a run of one
     endpoint reaches.
-/

namespace Ferrumnet

namespace Tcb

variable {κ : Type} [CongestionControl κ] {t u : Tcb κ} {now : Instant}

/-! ## The transmit loop -/

/-- What every part of a transmission keeps, the loop keeps. -/
theorem drain_keeps {I : Tcb κ → Prop} (h : TransmitKeeps now I) {fuel : Nat} {out : List Datagram}
    (ht : I t) (hd : t.drain now fuel = some (u, out)) : I u := by
  induction fuel generalizing t out with
  | zero => cases hd
  | succ fuel ih =>
    have hpoll := h.poll ht
    rw [drain] at hd
    split at hd
    · cases hd
      exact hpoll
    · rw [Option.map_eq_some_iff] at hd
      obtain ⟨⟨v, rest⟩, hrest, he⟩ := hd
      cases he
      exact ih hpoll hrest

theorem flush_keeps {I : Tcb κ → Prop} (h : TransmitKeeps now I) (ht : I t) : I (t.flush now).1 := by
  unfold flush
  cases hd : t.drain now (t.workload + 1) with
  | none => exact ht
  | some p => exact drain_keeps h ht hd

/-- What the first call establishes, the loop keeps. -/
theorem drain_after {I : Tcb κ → Prop} (h : TransmitKeeps now I) {fuel : Nat} {out : List Datagram}
    (ht : I (t.pollTransmit now).1) (hd : t.drain now fuel = some (u, out)) : I u := by
  cases fuel with
  | zero => cases hd
  | succ fuel =>
    rw [drain] at hd
    split at hd
    · cases hd
      exact ht
    · rw [Option.map_eq_some_iff] at hd
      obtain ⟨⟨v, rest⟩, hrest, he⟩ := hd
      cases he
      exact drain_keeps h ht hrest

/-! ## Reachable connections -/

/-- Some run of one endpoint gets to it. -/
def Reached (t : Tcb κ) : Prop :=
  ∃ (r₀ r : Host κ) (is : List Input), r₀.Opens ∧ Run.run Host.step r₀ is = some r ∧ r.tcb = t

theorem Reached.input {r₀ r : Host κ} {is : List Input} (h0 : r₀.Opens) (hr : Run.run Host.step r₀ is = some r)
    (i : Input) : (r.input i).1.tcb.Reached :=
  ⟨r₀, (r.input i).1, is ++ [i], h0, Run.run_append.mpr ⟨r, hr, rfl⟩, rfl⟩

theorem reached_newSynSent (loc remote : Endpoint) (iss : SeqNumber) (now : Instant) (mss : Nat) (kind : CcKind) :
    ((newSynSent loc remote iss now mss : Tcb κ).setCongestionControl kind).Reached :=
  ⟨_, _, [], .active loc remote iss now mss kind, rfl, rfl⟩

theorem reached_newSynReceived (loc remote : Endpoint) (syn : TcpPacket) (iss : SeqNumber) (now : Instant)
    (mss : Nat) (kind : CcKind) :
    ((newSynReceived loc remote syn iss now mss : Tcb κ).setCongestionControl kind).Reached :=
  ⟨_, _, [], .passive loc remote syn iss now mss kind, rfl, rfl⟩

namespace Reached

variable (h : t.Reached)

include h

theorem onSegment {p : TcpPacket} (hfit : p.payload.len ≤ 65535) (now : Instant) (ce : Bool) :
    (t.onSegment now p ce).Reached := by
  obtain ⟨r₀, r, is, h0, hr, rfl⟩ := h
  exact Reached.input h0 hr (.segment ⟨p, hfit⟩ now ce)

theorem onTimer (now : Instant) : (t.onTimer now).Reached := by
  obtain ⟨r₀, r, is, h0, hr, rfl⟩ := h
  exact Reached.input h0 hr (.timer now)

theorem send (data : Bytes) : (t.send data).1.Reached := by
  obtain ⟨r₀, r, is, h0, hr, rfl⟩ := h
  exact Reached.input h0 hr (.send data)

theorem recv (n : Nat) : (t.recv n).1.Reached := by
  obtain ⟨r₀, r, is, h0, hr, rfl⟩ := h
  exact Reached.input h0 hr (.recv n)

theorem close : t.close.Reached := by
  obtain ⟨r₀, r, is, h0, hr, rfl⟩ := h
  exact Reached.input h0 hr .close

theorem poll (now : Instant) : (t.pollTransmit now).1.Reached := by
  obtain ⟨r₀, r, is, h0, hr, rfl⟩ := h
  exact Reached.input h0 hr (.poll now)

theorem drain {fuel : Nat} {out : List Datagram} (hd : t.drain now fuel = some (u, out)) : u.Reached := by
  induction fuel generalizing t out with
  | zero => cases hd
  | succ fuel ih =>
    have hpoll := h.poll now
    rw [Tcb.drain] at hd
    split at hd
    · cases hd
      exact hpoll
    · rw [Option.map_eq_some_iff] at hd
      obtain ⟨⟨v, rest⟩, hrest, he⟩ := hd
      cases he
      exact ih hpoll hrest

theorem flush (now : Instant) : (t.flush now).1.Reached := by
  unfold Tcb.flush
  cases hd : t.drain now (t.workload + 1) with
  | none => exact h
  | some p => exact h.drain hd

/-- The loop ends. -/
theorem flush_ends (now : Instant) : t.drain now (t.workload + 1) = some (t.flush now) := by
  obtain ⟨r₀, r, is, h0, hr, rfl⟩ := h
  obtain ⟨hok, hboard⟩ := Host.board_run h0 hr
  obtain ⟨u, out, hd, -⟩ := Host.drain_some hok hboard now (Nat.lt_succ_self _)
  rw [Tcb.flush, hd]
  rfl

end Reached

end Tcb

/-! ## One entry of the table -/

namespace Stack

variable {κ : Type} [CongestionControl κ] (s : Stack κ) (now : Instant) (e : Endpoint)

theorem connection_onTimer : (s.onTimer now).connection e = (s.connection e).map fun t => t.onTimer now := by
  refine Keyed.lookup_foldl (fun s : Stack κ => s.conns) (f := fire now) (g := fun _ o => o.map fun t => t.onTimer now)
    (fun s k => ?_) (fun s k e he => ?_) (fun _ => rfl) rfl e
  · change (fire now s k).connection k = (s.connection k).map _
    unfold fire
    split
    · rename_i t ht
      rw [connection_setConn, ht, Option.map_some]
    · rename_i hnone
      rw [hnone, Option.map_none]
  · change (fire now s k).connection e = s.connection e
    unfold fire
    split
    · exact connection_setConn_ne s he
    · rfl

/-- What the transmission pass leaves of a connection. -/
def left (now : Instant) (t : Tcb κ) : Option (Tcb κ) :=
  if (t.flush now).1.state = .closed then none else some (t.flush now).1

theorem connection_pollTransmit : (s.pollTransmit now).1.connection e = (s.connection e).bind (left now) := by
  refine Keyed.lookup_foldl (fun p : Stack κ × List Datagram => p.1.conns) (f := drainConn now)
    (g := fun _ o => o.bind (left now)) (fun p k => ?_) (fun p k e he => ?_) (fun _ => rfl) rfl e
  · change (drainConn now p k).1.connection k = (p.1.connection k).bind _
    unfold drainConn
    split
    · rename_i t ht
      rw [ht, Option.bind_some, left]
      dsimp only
      split
      · exact AList.lookup_erase k _
      · exact connection_setConn _
    · rename_i hnone
      rw [hnone, Option.bind_none]
  · change (drainConn now p k).1.connection e = p.1.connection e
    unfold drainConn
    split
    · dsimp only
      split
      · exact AList.lookup_erase_ne he
      · exact connection_setConn_ne _ he
    · rfl

omit [CongestionControl κ] in
/-- An ephemeral port is not the port that is listened on. -/
theorem nextEphemeralPort_spec : (s.nextEphemeralPort).2 ≠ s.localEnd.port ∧
    ∃ next, s.nextEphemeralPort.1 = { s with ephemeralNext := next } := by
  simp only [nextEphemeralPort]
  split
  · rename_i hne
    exact ⟨hne, _, rfl⟩
  · rename_i heq
    refine ⟨?_, _, rfl⟩
    rw [not_not] at heq
    rw [← heq]
    dsimp only
    split
    · rename_i hmax
      rw [hmax]
      decide
    · grind

/-- An active open. -/
theorem connection_connect (remote : Endpoint) :
    ∃ (loc : Endpoint) (iss : SeqNumber), loc.port ≠ s.localEnd.port ∧
      (s.connect remote now).connection remote =
        some ((Tcb.newSynSent loc remote iss now s.mssAdvertise).setCongestionControl s.ccKind) ∧
      (e ≠ remote → (s.connect remote now).connection e = s.connection e) ∧
      (s.connect remote now).localEnd = s.localEnd := by
  obtain ⟨hport, next, hnext⟩ := s.nextEphemeralPort_spec
  simp only [connect, hnext]
  exact ⟨_, _, hport, connection_setConn _, fun he => connection_setConn_ne _ he, rfl⟩

/-- A datagram: nothing, a segment for a connection, or a connection that is not there yet. -/
inductive Receives (s : Stack κ) (now : Instant) : Stack κ → Prop
  | kept (pending : List Datagram) : Receives s now { s with pending := pending }
  | segment (e : Endpoint) (t : Tcb κ) (p : TcpPacket) (ce : Bool) : s.connection e = some t →
      p.payload.len ≤ 65535 → Receives s now (s.setConn e (t.onSegment now p ce))
  | opens (e : Endpoint) (p : TcpPacket) (iss : SeqNumber) : s.connection e = none →
      Receives s now (s.setConn e
        ((Tcb.newSynReceived s.localEnd e p iss now s.mssAdvertise).setCongestionControl s.ccKind))

/-- A parsed segment is no longer than its datagram. -/
theorem newChecked_fits {buf : List UInt8} {p : TcpPacket} (h : TcpPacket.newChecked buf = .ok p) :
    p.payload.len ≤ buf.length := by
  simp only [TcpPacket.newChecked] at h
  split at h
  · cases h
  split at h
  · cases h
  split at h
  · cases h
  cases h
  change (buf.drop (TcpPacket.dataOffset buf)).length ≤ buf.length
  rw [List.length_drop]
  exact Nat.sub_le _ _

/-- The total length of a datagram is a 16-bit field. -/
theorem payload_fits {buf : List UInt8} {ip : Ipv4Packet} (h : Ipv4Packet.newChecked buf = .ok ip) :
    ip.payload.length ≤ 65535 := by
  have hfield : ∀ hi lo : UInt8, fromBe16 hi lo ≤ 65535 := by
    intro hi lo
    have := hi.toNat_lt
    have := lo.toNat_lt
    simp only [fromBe16]
    omega
  simp only [Ipv4Packet.newChecked] at h
  split at h
  · cases h
  split at h
  · cases h
  split at h
  · cases h
  split at h
  · cases h
  split at h
  · cases h
  cases h
  change ((buf.take (Ipv4Packet.totalLen buf)).drop (Ipv4Packet.headerLen buf)).length ≤ _
  rw [List.length_drop, List.length_take]
  have hle : Ipv4Packet.totalLen buf ≤ 65535 := hfield _ _
  omega

theorem onRecv_receives (ip : Ipv4Packet) (hfit : ip.payload.length ≤ 65535) : s.Receives now (s.onRecv now ip) := by
  have hkept : s.Receives now s := .kept s.pending
  unfold onRecv
  split
  · exact hkept
  split
  · exact hkept
  rename_i p hp
  split
  · exact hkept
  unfold demux
  split
  · rename_i t ht
    split
    · exact .segment _ t p _ ht ((newChecked_fits hp).trans hfit)
    · exact hkept
  rename_i hnone
  split
  · exact hkept
  split
  · exact .opens _ p _ hnone
  split
  · exact .kept _
  · exact hkept

end Stack

namespace Reactor

variable {κ : Type} [CongestionControl κ] (s : Reactor κ) (e : Endpoint)

/-- What an event does to the entry of one remote endpoint. -/
inductive Moves (s : Reactor κ) (e : Endpoint) : Event → Option (Tcb κ) → Option (Tcb κ) → Prop
  | same (v : Event) (o : Option (Tcb κ)) : Moves s e v o o
  | timer (now : Instant) (t : Tcb κ) : Moves s e (.timers now) (some t) (some (t.onTimer now))
  | segment (buf : List UInt8) (t : Tcb κ) (p : TcpPacket) (ce : Bool) : p.payload.len ≤ 65535 →
      Moves s e (.frame buf) (some t) (some (t.onSegment s.now p ce))
  | opens (buf : List UInt8) (p : TcpPacket) (iss : SeqNumber) : Moves s e (.frame buf) none
      (some ((Tcb.newSynReceived s.stack.localEnd e p iss s.now s.stack.mssAdvertise).setCongestionControl
        s.stack.ccKind))
  | dials (w : Waker) (o : Option (Tcb κ)) (loc : Endpoint) (iss : SeqNumber) :
      loc.port ≠ s.stack.localEnd.port → Moves s e (.action (.start e w)) o
        (some ((Tcb.newSynSent loc e iss s.now s.stack.mssAdvertise).setCongestionControl s.stack.ccKind))
  | reads (n : Nat) (w : Waker) (t : Tcb κ) : n ≠ 0 → 0 < t.rxAvailable →
      Moves s e (.action (.poll (.read e n) w)) (some t) (some (t.recv n).1)
  | writes (data : Bytes) (w : Waker) (t : Tcb κ) : 0 < (t.send data).2 →
      Moves s e (.action (.poll (.write e data) w)) (some t) (some (t.send data).1)
  | closes (t : Tcb κ) : Moves s e (.action (.close e)) (some t) (some t.close)
  | sends (t : Tcb κ) : (t.flush s.now).1.state ≠ .closed → Moves s e .transmit (some t) (some (t.flush s.now).1)
  | reaps (t : Tcb κ) : (t.flush s.now).1.state = .closed → Moves s e .transmit (some t) none

omit [CongestionControl κ] in
/-- No waker, and no bookkeeping of the accept queue, reaches a connection. -/
@[simp] theorem stack_dispatch : s.dispatchWakeups.stack = s.stack := by
  have hannounce : (s.synced.foldl announce s).stack = s.stack := by
    refine Keyed.foldl_const Reactor.stack (fun s k => ?_) _ s
    unfold announce
    split
    · rfl
    · rfl
  have haccept : (s.synced.foldl announce s).wakeAccept.stack = s.stack := by
    rw [← hannounce]
    unfold wakeAccept
    split
    · rfl
    · rfl
  exact haccept

/-- A connection put back under its own key. -/
theorem moves_setConn {v : Event} {remote : Endpoint} {t u : Tcb κ} (ht : s.stack.connection remote = some t)
    (hmoves : e = remote → s.Moves e v (some t) (some u)) :
    s.Moves e v (s.stack.connection e) ((s.stack.setConn remote u).connection e) := by
  by_cases he : e = remote
  · have hm := hmoves he
    subst he
    rw [ht, Stack.connection_setConn]
    exact hm
  · rw [Stack.connection_setConn_ne _ he]
    exact .same _ _

theorem moves_poll (f : Future) (w : Waker) :
    s.Moves e (.action (.poll f w)) (s.stack.connection e) ((s.poll f w).1.stack.connection e) := by
  have hpolled := s.polled f w
  generalize s.poll f w = q at hpolled ⊢
  cases hpolled with
  | parks =>
    have hstack : (s.register f w).stack = s.stack := by
      cases f with
      | accept => rfl
      | connect => rfl
      | read => rfl
      | write => rfl
    rw [hstack]
    exact .same _ _
  | takes => exact .same _ _
  | reads remote n t hn ht hrx =>
    apply s.moves_setConn e ht
    rintro rfl
    exact .reads n w t hn hrx
  | writes remote data t ht hsent =>
    apply s.moves_setConn e ht
    rintro rfl
    exact .writes data w t hsent
  | answers => exact .same _ _

theorem moves_close (remote : Endpoint) :
    s.Moves e (.action (.close remote)) (s.stack.connection e) ((s.close remote).stack.connection e) := by
  unfold close
  split
  · rename_i t ht
    apply s.moves_setConn e ht
    rintro rfl
    exact .closes t
  · exact .same _ _

theorem moves_frame (buf : List UInt8) :
    s.Moves e (.frame buf) (s.stack.connection e) ((s.ingest buf).stack.connection e) := by
  unfold ingest
  split
  · exact .same _ _
  rename_i ip hip
  split
  · have hreceives := s.stack.onRecv_receives s.now ip (Stack.payload_fits hip)
    change s.Moves e _ _ ((s.stack.onRecv s.now ip).connection e)
    generalize s.stack.onRecv s.now ip = s' at hreceives ⊢
    cases hreceives with
    | kept pending => exact .same _ _
    | segment remote t p ce ht hfit =>
      apply s.moves_setConn e ht
      rintro rfl
      exact .segment buf t p ce hfit
    | opens remote p iss hnone =>
      by_cases he : e = remote
      · subst he
        rw [hnone, Stack.connection_setConn]
        exact .opens buf p iss
      · rw [Stack.connection_setConn_ne _ he]
        exact .same _ _
  · exact .same _ _

/-- Nothing else happens to an entry. -/
theorem moves (v : Event) : s.Moves e v (s.stack.connection e) ((s.apply v).stack.connection e) := by
  cases v with
  | select kind => exact .same _ _
  | timers now =>
    change s.Moves e _ _ ((s.stack.onTimer now).connection e)
    rw [Stack.connection_onTimer]
    cases s.stack.connection e with
    | none => exact .same _ _
    | some t => exact .timer now t
  | frame buf => exact s.moves_frame e buf
  | dispatch =>
    change s.Moves e _ _ (s.dispatchWakeups.stack.connection e)
    rw [stack_dispatch]
    exact .same _ _
  | action a =>
    cases a with
    | start remote w =>
      obtain ⟨loc, iss, hport, hat, hoff, -⟩ := s.stack.connection_connect s.now e remote
      change s.Moves e _ _ ((s.stack.connect remote s.now).connection e)
      by_cases he : e = remote
      · subst he
        rw [hat]
        exact .dials w _ loc iss hport
      · rw [hoff he]
        exact .same _ _
    | poll f w => exact s.moves_poll e f w
    | close remote => exact s.moves_close e remote
  | transmit =>
    change s.Moves e _ _ ((s.stack.pollTransmit s.now).1.connection e)
    rw [Stack.connection_pollTransmit]
    cases s.stack.connection e with
    | none => exact .same _ _
    | some t =>
      rw [Option.bind_some, Stack.left]
      split
      · rename_i hclosed
        exact .reaps t hclosed
      · rename_i hopen
        exact .sends t hopen

/-! ## Runs -/

/-- One event, as a step of a run. -/
def step (s : Reactor κ) (v : Event) : Option (Reactor κ) := some (s.apply v)

/-- Every connection of the table is reachable. -/
def Peopled (s : Reactor κ) : Prop := ∀ e t, s.stack.connection e = some t → t.Reached

theorem Peopled.apply {s : Reactor κ} (h : s.Peopled) (v : Event) : (s.apply v).Peopled := by
  intro e t ht
  have hmoves := s.moves e v
  rw [ht] at hmoves
  have hat : ∀ {u}, s.stack.connection e = some u → u.Reached := fun hu => h e _ hu
  generalize s.stack.connection e = o at hmoves hat
  cases hmoves with
  | same => exact hat rfl
  | timer now => exact (hat rfl).onTimer now
  | segment buf t p ce hfit => exact (hat rfl).onSegment hfit s.now ce
  | opens buf p iss => exact Tcb.reached_newSynReceived _ _ _ _ _ _ _
  | dials w o loc iss => exact Tcb.reached_newSynSent _ _ _ _ _ _
  | reads n => exact (hat rfl).recv n
  | writes data => exact (hat rfl).send data
  | closes => exact (hat rfl).close
  | sends => exact (hat rfl).flush s.now

theorem peopled_new (loc : Endpoint) (isn : IsnGenerator) (mss : Nat) :
    (Reactor.new loc isn mss : Reactor κ).Peopled := by
  intro e t ht
  cases ht

/-- A frame from port 1000 of host 1 to port 80 of host 2, with a zero checksum. -/
def peerFrame (flags : UInt8) (seq ack : Nat) (payload : List UInt8) : List UInt8 :=
  Ipv4Repr.emit ⟨1, 2, 6, UInt16.ofNat (20 + payload.length), 64, 0⟩ ++ (be16 1000 ++ be16 80 ++ be32 seq ++
    be32 ack ++ [0x50, flags] ++ be16 64000 ++ [0, 0, 0, 0] ++ payload)

end Reactor

end Ferrumnet
