import Ferrumnet.Integrity

/-
  Is flow control respected?

  `SND.UNA` advances on any acceptable ACK, `SND.WND` is replaced only under the
  WL1/WL2 test, so the edge `SND.UNA + SND.WND` may be put together from two
  segments and lie past every edge the peer has advertised.

  1. `edge_overrun` — a run in which data is emitted past that edge.
  2. `flow_controlled` — in every run in which no delivered segment mixes the
     two that way, every data octet but a window probe lies below an edge that
     the peer has put on the wire.

  The invariant: the two sides agree on the window scale, and both what has been
  sent and `SND.UNA + SND.WND` are below an advertised edge.
-/

namespace Ferrumnet

/-- The WL1/WL2 test: the segment is not older than the one the window is from. -/
def SendWindow.takes (w : SendWindow) (segSeq segAck : SeqNumber) : Bool :=
  w.sndWl1.lt segSeq || (w.sndWl1 = segSeq && w.sndWl2.le segAck)

theorem SendWindow.update_eq (w : SendWindow) (scale : Nat) (q a : SeqNumber) (wnd : Nat) :
    w.update scale q a wnd =
      if w.takes q a then { sndWnd := wnd <<< scale, sndWl1 := q, sndWl2 := a } else w := rfl

/-- The end of the data sent, the FIN not counted. -/
def SendSpace.dataNxt (s : SendSpace) (una : Nat) : Nat :=
  if s.finSeq.isSome then una + s.outstanding - 1 else una + s.outstanding

/-! ## What is sent stays below the window -/

section Sent

variable {sent : List UInt8} {una : Nat} {c : Core} {v : SendSpace} {st : State} {seq : SeqNumber}
  {extra : TcpFlags} {payload : Bytes}

/-- The data sent reaches as far as the send buffer in flight does. -/
theorem Sending.le_dataNxt {s : SendSpace} (h : Sending sent una s) (h1 : 1 ≤ una) {n : Nat}
    (h0 : 0 < n) (hn : n ≤ s.tx.len) (hi : n ≤ s.outstanding) : una + n ≤ s.dataNxt una := by
  have hlen := h.tx_len
  unfold SendSpace.dataNxt
  split
  · rename_i hf
    obtain ⟨f, hf⟩ := Option.isSome_iff_exists.mp hf
    obtain ⟨-, -, h2, -⟩ := h.finished f hf
    omega
  · omega

/-- New data fits into the peer's window, a retransmission lies below what has
been sent, and what is left is the probe. -/
structure Below (una : Nat) (c : Core) (seq : SeqNumber) (payload : Bytes) (v : SendSpace) : Prop where
  nxt : v.dataNxt una ≤ c.toSendSpace.dataNxt una ∨ v.dataNxt una ≤ una + c.sndWnd
  ends : 0 < payload.len →
    (c.inflight = 0 ∧ c.rwndRoom = 0 ∧ seq = c.sndUna ∧ payload.len = 1) ∨
      una + seq.offsetFrom c.sndUna + payload.len ≤ c.toSendSpace.dataNxt una ∨
        una + seq.offsetFrom c.sndUna + payload.len ≤ una + c.sndWnd

theorem sends_below (h : Sending sent una c.toSendSpace) (hp : Phase c.state una c.finSeq)
    (h1 : 1 ≤ una) (hs : c.Sends seq extra payload v st) : Below una c seq payload v := by
  have hle := h.outstanding_le
  cases hs with
  | synAck hst hn =>
    rw [hst] at hp
    have : una = 0 := hp
    omega
  | synAckAgain hst hn => exact ⟨.inl le_rfl, fun hc => by simp at hc⟩
  | ack => exact ⟨.inl le_rfl, fun hc => by simp at hc⟩
  | again off n psh hst hn hl hi =>
    refine ⟨.inl le_rfl, fun _ => .inr (.inl ?_)⟩
    have hi' : off + n ≤ c.toSendSpace.outstanding := hi
    rw [SeqNumber.offsetFrom_add, Nat.mod_eq_of_lt (by omega)]
    have := h.le_dataNxt h1 (by omega) hl hi'
    simp only [RingBuffer.peek_len]
    omega
  | data n psh hst hn hu hr =>
    have hu' : n ≤ c.tx.len - min c.toSendSpace.outstanding c.tx.len := hu
    have hr' : n ≤ c.sndWnd - c.toSendSpace.outstanding := hr
    obtain ⟨hnone, hend⟩ := h.unsent_open (by omega)
    obtain ⟨-, hout⟩ := h.advance hnone (n := n) (by omega)
    refine ⟨.inr ?_, fun _ => .inr (.inr ?_)⟩
    · rw [SendSpace.dataNxt, hout]
      split <;> omega
    · change una + c.toSendSpace.outstanding + _ ≤ _
      simp only [RingBuffer.peek_len]
      omega
  | probe hst hi hr hu =>
    refine ⟨.inl le_rfl, fun _ => .inl ⟨hi, hr, rfl, ?_⟩⟩
    have hu' : 0 < c.tx.len - min c.toSendSpace.outstanding c.tx.len := hu
    simp only [RingBuffer.peek_len]
    omega
  | fin hst hq ha hn =>
    obtain ⟨-, hend, hout, hs', hout'⟩ := h.finish h1 ha hn
    refine ⟨.inl ?_, fun hc => by simp at hc⟩
    have hnew : SendSpace.dataNxt
        { c.toSendSpace with finSeq := some c.dataEnd, sndNxt := c.dataEnd + 1 } una =
          una + c.toSendSpace.outstanding := by
      have hout' : SendSpace.outstanding
          { c.toSendSpace with finSeq := some c.dataEnd, sndNxt := c.dataEnd + 1 } =
            c.toSendSpace.outstanding + 1 := hout'
      rw [SendSpace.dataNxt, hout']
      rfl
    have hnone : c.finSeq = none := by
      rcases hf : c.finSeq with _ | f
      · rfl
      · have := (h.finished f hf).2.2.1
        omega
    rw [hnew, SendSpace.dataNxt, hnone]
    simp
  | finAgain => exact ⟨.inl le_rfl, fun hc => by simp at hc⟩

/-- Data goes out once the SYN is acknowledged. -/
theorem sends_data_una (hp : Phase c.state una c.finSeq) (hs : c.Sends seq extra payload v st)
    (hlen : 0 < payload.len) : 1 ≤ una := by
  cases hs with
  | synAck => cases hlen
  | synAckAgain => cases hlen
  | ack => cases hlen
  | again _ _ _ hst => exact hp.synchronized hst
  | data _ _ hst => exact hp.synchronized hst
  | probe hst => exact hp.synchronized hst
  | fin hst => exact hp.synchronized hst
  | finAgain _ hst => exact hp.synchronized hst

end Sent

namespace Host

variable {κ : Type} {s r r' : Host κ} {p : Packet} {t : Tcb κ}

/-- The right window edge that a packet of the host advertises. -/
def edgeOf (h : Host κ) (p : Packet) : Nat :=
  p.ackPos +
    if p.dgram.repr.flags.syn then p.dgram.repr.window else p.dgram.repr.window <<< h.tcb.rcvWscale

/-- A zero-window probe: one octet at `SND.UNA`, with nothing in flight and no
room in the peer's window. -/
def IsProbe (t : Tcb κ) (d : Datagram) : Prop :=
  t.inflight = 0 ∧ t.rwndRoom = 0 ∧ d.repr.seq = t.sndUna ∧ d.payload.len = 1

instance (t : Tcb κ) (d : Datagram) : Decidable (IsProbe t d) :=
  inferInstanceAs (Decidable (_ ∧ _ ∧ _ ∧ _))

/-- A segment does not mix its ACK with an older, larger window: one that moves
`SND.UNA` but whose window is not taken does not advertise less than `SND.WND`,
and one whose window is taken but which acknowledges less than `SND.UNA` does not
advertise more. -/
def Coherent (r : Host κ) (p : Packet) : Prop :=
  r.tcb.core.admits p.dgram.parse = true → r.tcb.core.validAck p.dgram.parse = true →
    (p.dgram.repr.ack.gt r.tcb.sndUna = true →
      r.tcb.toSendWindow.takes p.dgram.repr.seq p.dgram.repr.ack = false →
        r.tcb.sndWnd ≤ p.dgram.repr.window <<< r.tcb.sndWscale) ∧
    (p.dgram.repr.ack.lt r.tcb.sndUna = true →
      r.tcb.toSendWindow.takes p.dgram.repr.seq p.dgram.repr.ack = true →
        p.dgram.repr.window <<< r.tcb.sndWscale ≤ r.tcb.sndWnd)

instance : Decidable (r.Coherent p) := inferInstanceAs (Decidable (_ → _ → (_ → _ → _) ∧ (_ → _ → _)))

/-- The end of the data the host has sent. -/
def dataNxt (h : Host κ) : Nat := h.tcb.toSendSpace.dataNxt h.una

/-- The window scale that the host's SYNs offer. -/
def offer (h : Host κ) : Option Nat :=
  if h.rcv = 0 then some 3 else if h.tcb.windowScaling then some 3 else none

/-- Once negotiated, both shifts are the one of the SYNs. -/
def Scaled (h : Host κ) : Prop :=
  h.tcb.sndWscale = h.tcb.rcvWscale ∧ h.tcb.rcvWscale = if h.tcb.windowScaling then 3 else 0

/-- Scaled options that a SYN with the offer `o` settles. -/
theorem scaled_negotiate {tcp : TcpPacket} {mss : Nat}
    (ho : tcp.windowScale = some 3 ∨ tcp.windowScale = none)
    (ht : t.toOptions = Tcb.negotiate tcp mss) (h : r.tcb = t) : r.Scaled := by
  rw [Scaled, h, ht]
  rcases ho with ho | ho <;> simp [Tcb.negotiate, ho, rcvWscaleOffer]

/-! ## What a host's own step does to its windows -/

/-- The options and the peer's window stay, new data fits into that window, and
a SYN carries the scale on offer. -/
structure Windows (r r' : Host κ) (o : Option Packet) : Prop where
  options : r'.tcb.toOptions = r.tcb.toOptions
  window : r'.tcb.toSendWindow = r.tcb.toSendWindow
  data : 1 ≤ r.una → r'.dataNxt ≤ r.dataNxt ∨ r'.dataNxt ≤ r.una + r.tcb.sndWnd
  syn : ∀ p, o = some p → p.dgram.repr.flags.rst = false → p.dgram.repr.flags.syn = true →
    p.dgram.repr.windowScale = r.offer

/-- Steps that leave the send space alone, but for what it may still send. -/
theorem windows_keep (ho : r'.tcb.toOptions = r.tcb.toOptions)
    (hw : r'.tcb.toSendWindow = r.tcb.toSendWindow) (hu : r'.una = r.una)
    (hs : r'.tcb.toSendSpace.outstanding = r.tcb.toSendSpace.outstanding)
    (hf : r'.tcb.finSeq = r.tcb.finSeq) {o : Option Packet}
    (hp : ∀ p, o = some p → p.dgram.repr.flags.rst = true) : Windows r r' o := by
  refine ⟨ho, hw, fun _ => .inl ?_, fun p h1 h2 => ?_⟩
  · rw [dataNxt, dataNxt, SendSpace.dataNxt, SendSpace.dataNxt, hu, hs, hf]
  · rw [hp p h1] at h2; cases h2

theorem windows_core (hs : t.toSendSpace = r.tcb.toSendSpace) (ho : t.toOptions = r.tcb.toOptions)
    (hw : t.toSendWindow = r.tcb.toSendWindow) {o : Option Packet}
    (hp : ∀ p, o = some p → p.dgram.repr.flags.rst = true) : Windows r (r.follow t) o :=
  windows_keep ho hw (follow_una (by rw [hs])) (congrArg SendSpace.outstanding hs)
    (congrArg SendSpace.finSeq hs) hp

theorem windows_recv (n : Nat) :
    Windows r { r.follow (r.tcb.recv n).1 with got := r.got ++ (r.tcb.recv n).2.data } none := by
  apply windows_keep
  · rfl
  · rfl
  · exact follow_una rfl
  · rfl
  · rfl
  · simp

theorem windows_close : Windows r (r.follow r.tcb.close) none := by
  apply windows_keep
  · rfl
  · rfl
  · exact follow_una rfl
  · rfl
  · rfl
  · simp

variable [CongestionControl κ]

theorem windows_timer (now : Instant) : Windows r (r.follow (r.tcb.onTimer now)) none := by
  rcases r.tcb.core_onTimer now with hc | hc <;>
    exact windows_core (congrArg Core.toSendSpace hc) (congrArg Core.toOptions hc)
      (congrArg Core.toSendWindow hc) (by simp)

theorem windows_send (data : Bytes) :
    Windows r { r.follow (r.tcb.send data).1 with
      sent := r.sent ++ data.data.take (r.tcb.send data).2 } none := by
  have hcases := r.tcb.core_send' data
  generalize r.tcb.send data = q at hcases ⊢
  obtain ⟨t, n⟩ := q
  dsimp only at hcases ⊢
  have hc : t.core = { r.tcb.core with tx := t.tx } := by
    rcases hcases with ⟨-, -, hc⟩ | ⟨-, hc⟩
    · rw [show t.tx = (r.tcb.tx.write data).1 from congrArg (fun c => c.tx) hc]; exact hc
    · rw [show t.tx = r.tcb.tx from congrArg (fun c => c.tx) hc]; exact hc
  have hs : t.toSendSpace = { r.tcb.toSendSpace with tx := t.tx } := congrArg Core.toSendSpace hc
  apply windows_keep
  · exact congrArg Core.toOptions hc
  · exact congrArg Core.toSendWindow hc
  · exact follow_una (by rw [hs])
  · show t.toSendSpace.outstanding = _
    rw [hs]; rfl
  · show t.toSendSpace.finSeq = _
    rw [hs]
  · simp

theorem windows_segment (h : r.Ok) (hl : 1 ≤ r.rcv) (hsc : r.Scaled) {t₀ : Tcb κ} {seq : SeqNumber}
    {extra : TcpFlags} {payload : Bytes} {v : SendSpace} {st : State} (h0 : t₀.core = r.tcb.core)
    (hs : r.tcb.core.Sends seq extra payload v st) (ht : t.core = r.tcb.core.sent v st) :
    Windows r (r.follow t) (some (r.label (t₀.build seq extra payload).2)) := by
  have hsend : t.toSendSpace = v := congrArg Core.toSendSpace ht
  obtain ⟨_, -, -, hspec⟩ := sends_spec (c := r.tcb.core) h.sending h.phase hs
  have hu : (r.follow t).una = r.una := follow_una (by rw [hsend]; exact hspec.una_eq)
  refine ⟨congrArg Core.toOptions ht, congrArg Core.toSendWindow ht, fun h1 => ?_, fun p hp _ hsyn => ?_⟩
  · have hb := sends_below (c := r.tcb.core) h.sending h.phase h1 hs
    simp only [dataNxt, hu]
    show t.toSendSpace.dataNxt r.una ≤ _ ∨ t.toSendSpace.dataNxt r.una ≤ _
    rw [hsend]
    exact hb.nxt
  · cases hp
    have hex : extra.syn = true := (t₀.build_spec seq extra payload).2.2.2.2.1.symm.trans hsyn
    have hopt : t₀.toOptions = r.tcb.toOptions := congrArg Core.toOptions h0
    show (if extra.syn && t₀.windowScaling then some t₀.rcvWscale else none) = _
    have h0 : ¬ r.rcv = 0 := by omega
    have hscale := hsc.2
    simp only [hex, hopt, offer, h0, hscale, Bool.true_and, if_false]
    split <;> rfl

theorem windows_poll (h : r.Ok) (hh : r.Unlearned ∨ r.Heard) (hsc : 1 ≤ r.rcv → r.Scaled)
    (now : Instant) :
    Windows r (r.follow (r.tcb.pollTransmit now).1) ((r.tcb.pollTransmit now).2.map r.label) := by
  have hin : r.tcb.inflight < 2147483648 := by
    have := h.sending.outstanding_le
    change r.tcb.toSendSpace.outstanding < _
    omega
  have hp := Tcb.pollTransmit_polls r.tcb now hin
  generalize r.tcb.pollTransmit now = q at hp ⊢
  obtain ⟨t, o⟩ := q
  dsimp only at hp ⊢
  cases hp with
  | idle hc =>
    exact windows_core (congrArg Core.toSendSpace hc) (congrArg Core.toOptions hc)
      (congrArg Core.toSendWindow hc) (by simp)
  | rst seq _ hc =>
    refine windows_core (congrArg Core.toSendSpace hc) (congrArg Core.toOptions hc)
      (congrArg Core.toSendWindow hc) fun p hp => ?_
    cases hp
    rfl
  | syn hst hc =>
    -- SYN-SENT: the offer is the one of a host that has heard nothing
    have hrcv : r.rcv = 0 := (hh.resolve_right fun hh => hh.state hst).rcv
    have hun : r.una = 0 := by
      have := h.phase
      rwa [hst] at this
    refine ⟨?_, ?_, fun h1 => by omega, fun p hp _ _ => ?_⟩
    · rcases hc with ⟨-, hc⟩ | ⟨-, hc⟩ <;> exact congrArg Core.toOptions hc
    · rcases hc with ⟨-, hc⟩ | ⟨-, hc⟩ <;> exact congrArg Core.toSendWindow hc
    · cases hp
      rw [offer, if_pos hrcv]
      rfl
  | segment t₀ h0 _ hs hc =>
    have hopen := sends_open hs
    have hh' : r.Heard := by
      rcases hh with hh | hh
      · rcases hh.state with hst | hst
        · exact absurd hst hopen.2
        · exact absurd hst hopen.1
      · exact hh
    exact windows_segment h hh'.pos (hsc hh'.pos) h0 hs hc

end Host

/-! ## The invariant -/

namespace World

variable {κ : Type} {w w' : World κ} {x : Side} {r r' s : Host κ} {o : Option Packet}

/-- Some segment of side `x` on the wire advertises an edge not below `n`. -/
def Offered (w : World κ) (x : Side) (n : Nat) : Prop :=
  ∃ h ∈ w.host x, ∃ p ∈ w.wire x,
    p.dgram.repr.flags.rst = false ∧ p.dgram.repr.flags.ack = true ∧ n ≤ h.edgeOf p

instance (n : Nat) : Decidable (w.Offered x n) :=
  inferInstanceAs (Decidable (∃ h ∈ w.host x, ∃ p ∈ w.wire x, _ ∧ _ ∧ _))

/-- The data that `poll_transmit` would emit now lies below an edge that the peer
has advertised, a zero-window probe apart. -/
def FlowControlled [CongestionControl κ] (w : World κ) (x : Side) (now : Instant) : Prop :=
  ∀ h ∈ w.host x, ∀ d ∈ (h.tcb.pollTransmit now).2, 0 < d.payload.len →
    Host.IsProbe h.tcb d ∨ w.Offered x.other ((h.label d).seqPos + d.payload.len)

instance [CongestionControl κ] (now : Instant) : Decidable (w.FlowControlled x now) :=
  inferInstanceAs (Decidable (∀ h ∈ w.host x, ∀ d ∈ (h.tcb.pollTransmit now).2, _ → _ ∨ _))

structure Flow (w : World κ) : Prop where
  inv : Inv 1 w
  scaled : ∀ x r, w.host x = some r → 1 ≤ r.rcv → r.Scaled
  /-- A peer that has heard nothing will see the offer in any SYN there is. -/
  offers : ∀ x r, w.host x = some r → (∀ s, w.host x.other = some s → s.rcv = 0) →
    ∀ p ∈ w.wire x, p.dgram.repr.flags.rst = false → p.dgram.repr.flags.syn = true →
      p.dgram.repr.windowScale = r.offer
  agree : ∀ x r s, w.host x = some r → w.host x.other = some s → 1 ≤ r.rcv → 1 ≤ s.rcv →
    r.tcb.windowScaling = s.tcb.windowScaling
  /-- Before its SYN is acknowledged, a host has taken nothing but the peer's SYN. -/
  early : ∀ x r, w.host x = some r → 1 ≤ r.rcv → r.una = 0 → r.rcv = 1 ∧ r.tcb.sndWl1 = r.tcb.irs
  window : ∀ x r, w.host x = some r → 1 ≤ r.rcv → 1 ≤ r.una →
    w.Offered x.other (r.una + r.tcb.sndWnd) ∧ w.Offered x.other r.dataNxt

theorem Offered.le {m n : Nat} (h : w.Offered x n) (hle : m ≤ n) : w.Offered x m := by
  obtain ⟨h, hh, p, hp, h1, h2, h3⟩ := h
  exact ⟨h, hh, p, hp, h1, h2, hle.trans h3⟩

/-- What has been advertised stays advertised: the scale of the host is fixed
once it has heard of its peer, and before that it has acknowledged nothing. -/
theorem Offered.grow (hi : Inv 1 w) (hx : w.host x = some r)
    (hs : 1 ≤ r.rcv → r'.tcb.rcvWscale = r.tcb.rcvWscale) {y : Side} {n : Nat} (h : w.Offered y n) :
    ((w.setHost x r').transmit x o).Offered y n := by
  obtain ⟨h, hh, p, hp, h1, h2, h3⟩ := h
  rcases Side.eq_or_other x y with rfl | rfl
  · obtain rfl : r = h := Option.some.inj (hx.symm.trans hh)
    refine ⟨r', by simp, p, by simp [hp], h1, h2, ?_⟩
    obtain ⟨h4, h5, -⟩ := (hi.carried _ _ hx p hp h1).ack h2
    rwa [Host.edgeOf, hs (h4.trans h5)]
  · exact ⟨h, by simpa using hh, p, by simpa using hp, h1, h2, h3⟩

/-- What a step of one host keeps of the invariant. -/
structure Keeps (w : World κ) (x : Side) (r r' : Host κ) (o : Option Packet) : Prop where
  rcv : r.rcv ≤ r'.rcv
  scale : 1 ≤ r.rcv → r'.tcb.rcvWscale = r.tcb.rcvWscale
  scaled : 1 ≤ r'.rcv → r'.Scaled
  offer : (∀ s, w.host x.other = some s → s.rcv = 0) → r'.offer = r.offer
  syn : ∀ p, o = some p → p.dgram.repr.flags.rst = false → p.dgram.repr.flags.syn = true →
    p.dgram.repr.windowScale = r'.offer
  agree : ∀ s, w.host x.other = some s → 1 ≤ r'.rcv → 1 ≤ s.rcv →
    r'.tcb.windowScaling = s.tcb.windowScaling
  early : 1 ≤ r'.rcv → r'.una = 0 → r'.rcv = 1 ∧ r'.tcb.sndWl1 = r'.tcb.irs
  window : 1 ≤ r'.rcv → 1 ≤ r'.una →
    w.Offered x.other (r'.una + r'.tcb.sndWnd) ∧ w.Offered x.other r'.dataNxt

theorem Flow.update (hf : Flow w) (hx : w.host x = some r) (hk : Keeps w x r r' o)
    (hi : Inv 1 ((w.setHost x r').transmit x o)) : Flow ((w.setHost x r').transmit x o) := by
  have hsplit : ∀ y, y = x ∨ y = x.other := Side.eq_or_other x
  have hgrow : ∀ {y : Side} {n : Nat}, w.Offered y n →
      ((w.setHost x r').transmit x o).Offered y n := fun h => h.grow hf.inv hx hk.scale
  refine ⟨hi, fun y h hy h1 => ?_, fun y h hy hp p hm hrst hsyn => ?_, fun y h s hy hs h1 h2 => ?_,
    fun y h hy h1 h2 => ?_, fun y h hy h1 h2 => ?_⟩
  · rcases hsplit y with rfl | rfl <;> simp at hy
    · subst hy; exact hk.scaled h1
    · exact hf.scaled _ _ hy h1
  · rcases hsplit y with rfl | rfl <;> simp at hy hm hp
    · subst hy
      rcases hm with hm | hm
      · rw [hk.offer hp]
        exact hf.offers _ _ hx hp p hm hrst hsyn
      · exact hk.syn p hm hrst hsyn
    · refine hf.offers _ _ hy (fun s hs => ?_) p hm hrst hsyn
      rw [Side.other_other, hx] at hs
      cases hs
      have := hk.rcv
      omega
  · rcases hsplit y with rfl | rfl <;> simp at hy hs
    · subst hy
      exact hk.agree s hs h1 h2
    · subst hs
      exact (hk.agree h hy h2 h1).symm
  · rcases hsplit y with rfl | rfl <;> simp at hy
    · subst hy; exact hk.early h1 h2
    · exact hf.early _ _ hy h1 h2
  · rcases hsplit y with rfl | rfl <;> simp at hy
    · subst hy
      exact ⟨hgrow (hk.window h1 h2).1, hgrow (hk.window h1 h2).2⟩
    · exact ⟨hgrow (hf.window _ _ hy h1 h2).1, hgrow (hf.window _ _ hy h1 h2).2⟩

/-- A step that moves neither `SND.UNA`, `RCV.NXT` nor the windows. -/
theorem Flow.keeps_still (hf : Flow w) (hx : w.host x = some r) (hw : Host.Windows r r' o)
    (hu : r'.una = r.una) (hr : r'.rcv = r.rcv) (hi : 1 ≤ r.rcv → r'.tcb.irs = r.tcb.irs) :
    Keeps w x r r' o := by
  have hoffer : r'.offer = r.offer := by rw [Host.offer, Host.offer, hr, hw.options]
  refine ⟨hr.ge, fun _ => by rw [hw.options], fun h1 => ?_, fun _ => hoffer, fun p hp h1 h2 => ?_,
    fun s hs h1 h2 => ?_, fun h1 h2 => ?_, fun h1 h2 => ?_⟩
  · rw [Host.Scaled, hw.options]
    exact hf.scaled _ _ hx (hr ▸ h1)
  · rw [hoffer]; exact hw.syn p hp h1 h2
  · rw [hw.options]
    exact hf.agree _ _ _ hx hs (hr ▸ h1) h2
  · rw [hr, hw.window, hi (hr ▸ h1)]
    exact hf.early _ _ hx (hr ▸ h1) (hu ▸ h2)
  · obtain ⟨h3, h4⟩ := hf.window _ _ hx (hr ▸ h1) (hu ▸ h2)
    rw [hu, hw.window]
    refine ⟨h3, ?_⟩
    rcases hw.data (hu ▸ h2) with h5 | h5
    · exact h4.le h5
    · exact h3.le h5

theorem flow_init : Flow (init : World κ) := by
  have hnone : ∀ x, (init : World κ).host x = none := fun x => by cases x <;> rfl
  refine ⟨inv_init, fun x h hx => ?_, fun x h hx => ?_, fun x h s hx => ?_, fun x h hx => ?_,
    fun x h hx => ?_⟩ <;> rw [hnone] at hx <;> cases hx

/-- A host that opens has heard at most the peer's SYN, and has nothing on the wire. -/
theorem Flow.opened (hf : Flow w) (hx : w.host x = none) (hi : Inv 1 (w.setHost x r))
    (hsc : 1 ≤ r.rcv → r.Scaled) (hu : r.una = 0)
    (he : 1 ≤ r.rcv → r.rcv = 1 ∧ r.tcb.sndWl1 = r.tcb.irs) : Flow (w.setHost x r) := by
  have hsplit : ∀ y, y = x ∨ y = x.other := Side.eq_or_other x
  -- the peer, if there is one, has not heard anything
  have hpeer : ∀ s, w.host x.other = some s → s.rcv = 0 := fun s hs =>
    (hf.inv.alone _ _ hs (by rw [Side.other_other]; exact hx)).1.rcv
  have hpeer' : ∀ {y s}, y = x.other → w.host y = some s → 1 ≤ s.rcv → False := by
    rintro _ s rfl hs h1
    have := hpeer s hs
    omega
  refine ⟨hi, fun y h hy h1 => ?_, fun y h hy hp p hm hrst hsyn => ?_, fun y h s hy hs h1 h2 => ?_,
    fun y h hy h1 h2 => ?_, fun y h hy h1 h2 => ?_⟩
  · rcases hsplit y with rfl | rfl <;> simp at hy
    · subst hy; exact hsc h1
    · exact (hpeer' rfl hy h1).elim
  · rcases hsplit y with rfl | rfl <;> simp at hy hm
    · rw [hf.inv.silent _ hx] at hm; cases hm
    · refine hf.offers _ _ hy (fun s hs => ?_) p hm hrst hsyn
      rw [Side.other_other, hx] at hs
      cases hs
  · rcases hsplit y with rfl | rfl <;> simp at hy hs
    · exact (hpeer' rfl hs h2).elim
    · exact (hpeer' rfl hy h1).elim
  · rcases hsplit y with rfl | rfl <;> simp at hy
    · subst hy; exact he h1
    · exact (hpeer' rfl hy h1).elim
  · rcases hsplit y with rfl | rfl <;> simp at hy
    · subst hy
      omega
    · exact (hpeer' rfl hy h1).elim

/-! ## A delivered packet -/

section Deliver

variable {t : Tcb κ} {p : Packet}

/-- A segment that leaves the receive space alone and acknowledges nothing new. -/
theorem Flow.keeps_quiet (hf : Flow w) (hx : w.host x = some r) (hs : w.host x.other = some s)
    (ho : t.toOptions = r.tcb.toOptions) (hw : t.toSendWindow = r.tcb.toSendWindow)
    (hr : t.toRecvSpace = r.tcb.toRecvSpace) (hsend : t.toSendSpace = r.tcb.toSendSpace)
    (hst : t.state = r.tcb.state ∨ t.state = .closed) : Keeps w x r (r.follow t) none := by
  have hl : s.Linked 1 r := hf.inv.linked _ _ _ hs (by rw [Side.other_other]; exact hx)
  obtain ⟨-, hrcv, -⟩ := hl.keep hr (by rw [ho]) hst
  refine hf.keeps_still hx (Host.windows_core hsend ho hw (by simp))
    (Host.follow_una (by rw [hsend])) hrcv fun _ => ?_
  show t.toRecvSpace.irs = _
  rw [hr]

/-- The SYN of the peer settles the options as the peer has them. -/
theorem Flow.keeps_learned (hf : Flow w) (hx : w.host x = some r) (hs : w.host x.other = some s)
    (hp : p ∈ w.wire x.other) (hrst : p.dgram.repr.flags.rst = false)
    (hsyn : p.dgram.repr.flags.syn = true) (h0 : r.rcv = 0) (h1 : (r.follow t).rcv = 1)
    (hopt : t.toOptions = Tcb.negotiate p.dgram.parse r.tcb.mssAdvertise)
    (hwl : t.sndWl1 = t.irs)
    (hwin : 1 ≤ (r.follow t).una →
      w.Offered x.other ((r.follow t).una + t.sndWnd) ∧ w.Offered x.other (r.follow t).dataNxt) :
    Keeps w x r (r.follow t) none := by
  have hsc : p.dgram.repr.windowScale = s.offer := by
    refine hf.offers _ _ hs (fun r' hr' => ?_) p hp hrst hsyn
    rw [Side.other_other, hx] at hr'
    cases hr'
    exact h0
  have hparse : p.dgram.parse.windowScale = s.offer := by
    simp only [Datagram.parse, hsc, Host.offer]
    split
    · rfl
    · split <;> rfl
  have hws : t.windowScaling = s.offer.isSome := by
    rw [hopt, ← hparse]
    rfl
  refine ⟨by omega, by omega, fun _ => Host.scaled_negotiate (t := t) ?_ hopt rfl, fun hn => ?_,
    by simp, fun s' hs' _ hs1 => ?_, fun _ _ => ⟨h1, hwl⟩, fun _ hu => hwin hu⟩
  · rw [hparse, Host.offer]
    split
    · exact .inl rfl
    · split
      · exact .inl rfl
      · exact .inr rfl
  · -- the SYNs crossed: both sides offered the scale
    have hs0 := hn s hs
    have hw' : (r.follow t).tcb.windowScaling = true := by
      show t.windowScaling = true
      rw [hws, Host.offer, if_pos hs0]
      rfl
    rw [Host.offer, Host.offer, if_pos h0, if_neg (by omega), hw']
    rfl
  · obtain rfl : s = s' := Option.some.inj (hs.symm.trans hs')
    show t.windowScaling = _
    rw [hws, Host.offer, if_neg (by omega)]
    cases s.tcb.windowScaling <;> rfl

/-- The peer's SYN, in SYN-SENT. -/
theorem Flow.keeps_synSent (hf : Flow w) (hx : w.host x = some r) (hs : w.host x.other = some s)
    (hp : p ∈ w.wire x.other) (hst : r.tcb.state = .synSent)
    (ht : r.tcb.core.TakesSyn p.dgram.parse t.core) : Keeps w x r (r.follow t) none := by
  have hr := hf.inv.ok _ _ hx
  have hsr : s.Linked 1 r := hf.inv.linked _ _ _ hs (by rw [Side.other_other]; exact hx)
  have hrs : r.Linked 1 s := hf.inv.linked _ _ _ hx hs
  have hcar := hf.inv.carried _ _ hs p hp
  generalize hc : t.core = c at ht
  cases ht with
  | dropped =>
    exact hf.keeps_quiet hx hs (congrArg Core.toOptions hc) (congrArg Core.toSendWindow hc)
      (congrArg Core.toRecvSpace hc) (congrArg Core.toSendSpace hc) (.inl (congrArg Core.state hc))
  | reset =>
    exact hf.keeps_quiet hx hs (congrArg Core.toOptions hc) (congrArg Core.toSendWindow hc)
      (congrArg Core.toRecvSpace hc) (congrArg Core.toSendSpace hc) (.inr (congrArg Core.state hc))
  | acked hrst hsyn hack =>
    have hstate : t.state = .established := congrArg Core.state hc
    have hsend : t.toSendSpace = { r.tcb.toSendSpace with sndUna := p.dgram.parse.ack } :=
      congrArg Core.toSendSpace hc
    obtain ⟨-, h1, -, h0, -⟩ := Host.learn_linked hsr hst (hcar hrst) hsyn
      (congrArg Core.toRecvSpace hc) (by simp [hstate])
    obtain ⟨-, hu, -, hnone, -, hz⟩ := Host.acksSyn_send hr hst hack hsend
    have hwnd : t.sndWnd = p.dgram.repr.window := congrArg (fun c => c.sndWnd) hc
    refine hf.keeps_learned hx hs hp hrst hsyn h0 h1 (congrArg Core.toOptions hc) ?_ fun _ => ?_
    · exact (congrArg (fun c => c.sndWl1) hc).trans (congrArg (fun c => c.irs) hc).symm
    · -- the window of the SYN-ACK is not scaled
      simp only [Core.acksSyn, Bool.and_eq_true] at hack
      have hpos := ((hcar hrst).ack hack.1.1).1
      have hoff : w.Offered x.other (1 + p.dgram.repr.window) := by
        refine ⟨s, hs, p, hp, hrst, hack.1.1, ?_⟩
        have hsyn' : p.dgram.repr.flags.syn = true := hsyn
        rw [Host.edgeOf, hsyn', if_pos rfl]
        omega
      have hdata : (r.follow t).dataNxt ≤ 1 := by
        rw [Host.dataNxt, hu]
        show t.toSendSpace.dataNxt 1 ≤ 1
        rw [SendSpace.dataNxt, hz]
        split <;> omega
      rw [hu, hwnd]
      exact ⟨hoff, hoff.le (by omega)⟩
  | crossed hrst hsyn hack =>
    have hstate : t.state = .synReceived := congrArg Core.state hc
    have hsend : t.toSendSpace = r.tcb.toSendSpace := congrArg Core.toSendSpace hc
    obtain ⟨-, h1, -, h0, -⟩ := Host.learn_linked hsr hst (hcar hrst) hsyn
      (congrArg Core.toRecvSpace hc) (by simp [hstate])
    have hu : (r.follow t).una = 0 := by
      have := hr.phase
      rw [hst] at this
      exact (Host.follow_una (by rw [hsend])).trans this
    refine hf.keeps_learned hx hs hp hrst hsyn h0 h1 (congrArg Core.toOptions hc) ?_ fun h => ?_
    · exact (congrArg (fun c => c.sndWl1) hc).trans (congrArg (fun c => c.irs) hc).symm
    · omega

/-- The window of a taken segment, whose ACK is valid. -/
theorem Flow.taken_window (hf : Flow w) (hx : w.host x = some r) (hs : w.host x.other = some s)
    (hp : p ∈ w.wire x.other) (hcoh : r.Coherent p) (hfresh : r.Fresh p) (hl : s.Learned 1 r)
    (hadm : r.tcb.core.admits p.dgram.parse = true)
    (hv : r.tcb.core.validAck p.dgram.parse = true) (ha : Host.AcksSend 1 s r p t)
    (hwin : t.toSendWindow = r.tcb.toSendWindow.update r.tcb.sndWscale p.dgram.repr.seq
      p.dgram.repr.ack p.dgram.repr.window) :
    w.Offered x.other ((r.follow t).una + t.sndWnd) ∧ w.Offered x.other (r.follow t).dataNxt := by
  obtain ⟨hrst, hsyn, hack⟩ := Host.admits_flags hadm
  have hr := hf.inv.ok _ _ hx
  have hso := hf.inv.ok _ _ hs
  have hcar := hf.inv.carried _ _ hs p hp hrst
  have hrcv : 1 ≤ r.rcv := hl.received.pos
  have hsrcv : 1 ≤ s.rcv := ha.pos.trans ha.le_rcv
  -- both sides scale by the same shift
  have hscale : r.tcb.sndWscale = s.tcb.rcvWscale := by
    obtain ⟨h1, h2⟩ := hf.scaled _ _ hx hrcv
    rw [h1, h2, (hf.scaled _ _ hs hsrcv).2, hf.agree _ _ _ hx hs hrcv hsrcv]
  have hedge : w.Offered x.other (p.ackPos + p.dgram.repr.window <<< r.tcb.sndWscale) := by
    have hsyn' : p.dgram.repr.flags.syn = false := hsyn
    refine ⟨s, hs, p, hp, hrst, hack, ?_⟩
    rw [Host.edgeOf, hsyn', if_neg (by simp), hscale]
  -- what has been sent does not move
  have hdata : (r.follow t).dataNxt = r.dataNxt := by
    have hn : (r.follow t).una + (r.follow t).tcb.toSendSpace.outstanding =
        r.una + r.tcb.toSendSpace.outstanding := ha.nxt
    have hfin : (r.follow t).tcb.finSeq = r.tcb.finSeq := ha.fin
    rw [Host.dataNxt, Host.dataNxt, SendSpace.dataNxt, SendSpace.dataNxt, hn, hfin]
  have hat := hr.sending.at_una
  rw [hdata, ha.una, hwin, SendWindow.update_eq]
  rcases Nat.eq_zero_or_pos r.una with h0 | h0
  · -- the first ACK: its window is always taken
    have htakes : r.tcb.toSendWindow.takes p.dgram.repr.seq p.dgram.repr.ack = true := by
      obtain ⟨h1, h2⟩ := hf.early _ _ hx hrcv h0
      have h3 := (hcar.stream.text hsyn).1
      have h4 := hcar.ends_one (.inl h3)
      have h5 := s.reach_le le_rfl
      have h6 := hso.sending.outstanding_le
      have h7 := hl.acked
      have hlt : r.tcb.sndWl1.lt p.dgram.repr.seq = true := by
        have := SeqNumber.pos_lt s.tcb.iss (x := 0) (y := p.seqPos) (by omega) (by omega)
        rw [SeqNumber.add_zero] at this
        rw [h2, hl.irs, hcar.seq, this, decide_eq_true_eq]
        exact h3
      rw [SendWindow.takes, hlt, Bool.true_or]
    have hnxt : r.dataNxt ≤ 1 := by
      have := hr.sending.opening_le h0
      rw [Host.dataNxt, SendSpace.dataNxt, hr.sending.fin_none h0, h0]
      simpa using this
    have h1 := ha.pos
    rw [htakes, h0, Nat.zero_max]
    exact ⟨hedge, hedge.le (Nat.le_trans (hnxt.trans h1) (Nat.le_add_right _ _))⟩
  · obtain ⟨hw, hd⟩ := hf.window _ _ hx hrcv h0
    refine ⟨?_, hd⟩
    obtain ⟨hc1, hc2⟩ := hcoh hadm hv
    have h1 := ha.le_nxt
    have h2 := hr.sending.outstanding_le
    have h3 : r.nxt = r.una + r.tcb.toSendSpace.outstanding := rfl
    have h4 : r.nxt ≤ p.ackPos + 2147483648 := (hfresh hsyn hrst).2
    rw [ha.ack, hat, SeqNumber.pos_gt _ (by omega) (by omega), decide_eq_true_eq] at hc1
    rw [ha.ack, hat, SeqNumber.pos_lt _ (by omega) (by omega), decide_eq_true_eq] at hc2
    rw [← ha.ack] at hc1 hc2
    cases htakes : r.tcb.toSendWindow.takes p.dgram.repr.seq p.dgram.repr.ack with
    | true =>
      rw [if_pos rfl]
      rcases Nat.lt_or_ge p.ackPos r.una with hlt | hge
      · have := hc2 hlt htakes
        exact hw.le (by simp only; omega)
      · rwa [Nat.max_eq_right hge]
    | false =>
      rw [if_neg (by simp)]
      rcases Nat.lt_or_ge r.una p.ackPos with hlt | hge
      · have := hc1 hlt htakes
        exact hedge.le (by omega)
      · rwa [Nat.max_eq_left hge]

/-- A segment taken in whole. -/
theorem Flow.keeps_taken (hf : Flow w) (hx : w.host x = some r) (hs : w.host x.other = some s)
    (hp : p ∈ w.wire x.other) (hcoh : r.Coherent p) (hfresh : r.Fresh p)
    (hns : r.tcb.state ≠ .synSent) (hadm : r.tcb.core.admits p.dgram.parse = true)
    (hv : r.tcb.core.validAck p.dgram.parse = true)
    (hc : t.core = ((r.tcb.core.advanceTsRecent p.dgram.parse).acked p.dgram.parse).onText
      p.dgram.parse) : Keeps w x r (r.follow t) none := by
  obtain ⟨hrst, hsyn, hack⟩ := Host.admits_flags hadm
  have hcar := hf.inv.carried _ _ hs p hp
  have hsr : s.Linked 1 r := hf.inv.linked _ _ _ hs (by rw [Side.other_other]; exact hx)
  have hopt : t.toOptions = r.tcb.toOptions := congrArg Core.toOptions hc
  have hwin := congrArg Core.toSendWindow hc
  have hrecv : t.toRecvSpace = r.tcb.toRecvSpace.text r.tcb.sackEnabled p.dgram.parse :=
    congrArg Core.toRecvSpace hc
  have ha := Host.taken_send (t := t) (hf.inv.ok _ _ hx) (hf.inv.linked _ _ _ hx hs) le_rfl
    (hcar hrst) hfresh hns hadm hv (congrArg Core.toSendSpace hc)
  obtain ⟨-, hrcv, -, -⟩ := hsr.taken (hf.inv.ok _ _ hs) le_rfl (hcar hrst) (hfresh hsyn hrst).1
    (Host.within_one hcar) hadm hrecv (by rw [hopt]) (congrArg Core.state hc) hns
  rcases hsr with ⟨hun, -⟩ | hl
  · -- a host that was closed before it heard of its peer stays as it is
    have hst : t.state = .closed := by
      have h1 : r.tcb.state = .closed := hun.state.resolve_left hns
      rw [show t.state = _ from congrArg Core.state hc]
      simp [Core.onText, Core.acked, Core.ackedState, Core.advanceTsRecent, h1, Tcb.closingState]
    obtain ⟨hun', hsame, -⟩ := hun.keep (hrecv.trans (hun.text hadm _)) (.inr hst)
    have h0 := hun'.rcv
    have hz := hun.rcv
    exact ⟨hrcv, fun _ => by rw [show (r.follow t).tcb.toOptions = _ from hopt], by omega,
      fun _ => by rw [Host.offer, Host.offer, h0, hz]; rfl, by simp, by omega, by omega, by omega⟩
  · have hpos := hl.received.pos
    have hne : ¬ (r.follow t).rcv = 0 := by omega
    have hne' : ¬ r.rcv = 0 := by omega
    have hopt' : (r.follow t).tcb.toOptions = r.tcb.toOptions := hopt
    refine ⟨hrcv, fun _ => by rw [hopt'], fun _ => ?_, fun _ => ?_, by simp, fun s' hs' _ h1 => ?_,
      fun _ hu => ?_, fun _ _ => hf.taken_window hx hs hp hcoh hfresh hl hadm hv ha hwin⟩
    · rw [Host.Scaled, hopt']
      exact hf.scaled _ _ hx hpos
    · rw [Host.offer, Host.offer, if_neg hne, if_neg hne', hopt']
    · rw [hopt']
      exact hf.agree _ _ _ hx hs' hpos h1
    · have h1 := ha.una
      have h2 := ha.pos
      omega

theorem Flow.keeps_segment (hf : Flow w) (hx : w.host x = some r) (hs : w.host x.other = some s)
    (hp : p ∈ w.wire x.other) (hcoh : r.Coherent p) (hfresh : r.Fresh p)
    (ht : t.core = r.tcb.core.onSegment p.dgram.parse) : Keeps w x r (r.follow t) none := by
  by_cases hst : r.tcb.state = .synSent
  · have hst' : r.tcb.core.state = .synSent := hst
    rw [Core.onSegment, if_pos hst'] at ht
    exact hf.keeps_synSent hx hs hp hst (ht ▸ Core.onSegmentSynSent_takes _ _)
  have hcases := r.tcb.core.onSegment_takes p.dgram.parse hst
  rw [← ht] at hcases
  generalize hc : t.core = c at hcases
  cases hcases with
  | dropped ts hno =>
    exact hf.keeps_quiet hx hs (congrArg Core.toOptions hc) (congrArg Core.toSendWindow hc)
      (congrArg Core.toRecvSpace hc) (congrArg Core.toSendSpace hc) (.inl (congrArg Core.state hc))
  | reset hrst hseq =>
    exact hf.keeps_quiet hx hs (congrArg Core.toOptions hc) (congrArg Core.toSendWindow hc)
      (congrArg Core.toRecvSpace hc) (congrArg Core.toSendSpace hc) (.inr (congrArg Core.state hc))
  | badAck ts hrec hadm hbad =>
    exact hf.keeps_quiet hx hs (congrArg Core.toOptions hc) (congrArg Core.toSendWindow hc)
      (congrArg Core.toRecvSpace hc) (congrArg Core.toSendSpace hc) (.inr (congrArg Core.state hc))
  | synAgain hdup =>
    -- `SND.NXT` goes back to the SYN, before any data
    have hrec : r.tcb.state = .synReceived := r.tcb.core.state_of_dupSyn _ hdup
    have h0 : r.una = 0 := by
      have := (hf.inv.ok _ _ hx).phase
      rwa [hrec] at this
    have hsend : t.toSendSpace = { r.tcb.toSendSpace with sndNxt := r.tcb.iss } :=
      congrArg Core.toSendSpace hc
    have hrecv : t.toRecvSpace = r.tcb.toRecvSpace := congrArg Core.toRecvSpace hc
    have hopt : t.toOptions = r.tcb.toOptions := congrArg Core.toOptions hc
    have hsr : s.Linked 1 r := hf.inv.linked _ _ _ hs (by rw [Side.other_other]; exact hx)
    obtain ⟨-, hrcv, -⟩ := hsr.keep hrecv (by rw [hopt]) (.inl (congrArg Core.state hc))
    refine hf.keeps_still hx ⟨hopt, congrArg Core.toSendWindow hc, by omega, by simp⟩
      (Host.follow_una (by rw [hsend])) hrcv fun _ => ?_
    show t.toRecvSpace.irs = _
    rw [hrecv]
  | taken hadm hv => exact hf.keeps_taken hx hs hp hcoh hfresh hst hadm hv hc

end Deliver

/-! ## Runs -/

variable [CongestionControl κ]

/-- The condition on a step: a packet is not delivered so late that its numbers
have come round, and does not mix its ACK with an older, larger window. -/
def Steady (w : World κ) : Action → Prop
  | .deliver x i _ _ => ∀ r ∈ w.host x, ∀ p ∈ (w.wire x.other)[i]?, r.Fresh p ∧ r.Coherent p
  | _ => True

instance : ∀ act, Decidable (Steady w act)
  | .deliver x i _ _ =>
    inferInstanceAs (Decidable (∀ r ∈ w.host x, ∀ p ∈ (w.wire x.other)[i]?, r.Fresh p ∧ r.Coherent p))
  | .connect .. | .accept .. | .send .. | .recv .. | .close .. | .timer .. | .poll .. =>
    isTrue trivial

omit [CongestionControl κ] in
theorem Steady.timely {act : Action} (hi : Inv 1 w) (h : Steady w act) : Timely 1 w act := by
  cases act with
  | deliver x i now ce =>
    intro r hx s ho p hp
    exact ⟨(h r hx p hp).1, Host.within_one (hi.carried _ _ ho p (List.mem_of_getElem? hp))⟩
  | _ => exact trivial

omit [CongestionControl κ] in
/-- A step that a host takes on its own. -/
theorem Flow.act (hf : Flow w) (hx : w.host x = some r) (ha : Host.Acted r r' o)
    (hw : Host.Windows r r' o) : Flow ((w.setHost x r').transmit x o) :=
  hf.update hx (hf.keeps_still hx hw ha.una ha.rcv ha.grows.irs) (hf.inv.act le_rfl hx ha)

/-- What one step of the world keeps. -/
theorem flow_step {act : Action} (hf : Flow w) (hc : Steady w act) (h : w.apply act = some w') :
    Flow w' := by
  have hinv : Inv 1 w' := inv_step le_rfl hf.inv (hc.timely hf.inv) h
  cases act with
  | connect x loc remote iss now mss kind =>
    simp only [apply] at h
    split at h
    · cases h
    rename_i hx
    cases h
    generalize htcb : (Tcb.newSynSent loc remote iss now mss : Tcb κ).setCongestionControl kind = t
      at hinv ⊢
    have hcore : t.core = (Tcb.newSynSent loc remote iss now mss : Tcb κ).core := by
      rw [← htcb]; exact core_setCongestionControl _ _
    have hrcv : (Host.fresh t).rcv = 0 := by
      show t.toRecvSpace.rcvNxt.offsetFrom t.toRecvSpace.irs = 0
      rw [show t.toRecvSpace = _ from congrArg Core.toRecvSpace hcore]
      exact SeqNumber.offsetFrom_self _
    exact hf.opened hx hinv (by omega) rfl (by omega)
  | accept x i offered iss now mss kind =>
    simp only [apply] at h
    split at h
    · rename_i p hx hp
      split at h
      · rename_i hopens
        cases h
        generalize htcb : (Tcb.newSynReceived p.dgram.dst p.dgram.src
          (offered.restrict p.dgram.parse) iss now mss : Tcb κ).setCongestionControl kind = t at hinv ⊢
        have hcore : t.core = (Tcb.newSynReceived p.dgram.dst p.dgram.src
            (offered.restrict p.dgram.parse) iss now mss : Tcb κ).core := by
          rw [← htcb]; exact core_setCongestionControl _ _
        have hmem := List.mem_of_getElem? hp
        simp only [opens, Bool.and_eq_true, Bool.not_eq_true'] at hopens
        -- the SYN is one of a host that has heard nothing, so it offers the scale
        have hscale : p.dgram.repr.windowScale = some 3 := by
          rcases ho : w.host x.other with _ | s
          · rw [hf.inv.silent _ ho] at hmem; cases hmem
          · have hs0 := (hf.inv.alone _ _ ho (by rw [Side.other_other]; exact hx)).1.rcv
            rw [hf.offers _ _ ho (by simp [hx]) p hmem hopens.2 hopens.1.1, Host.offer, if_pos hs0]
        have hrest : (offered.restrict p.dgram.parse).windowScale = some 3 ∨
            (offered.restrict p.dgram.parse).windowScale = none := by
          simp only [Offered.restrict, Datagram.parse, hscale]
          split
          · exact .inl rfl
          · exact .inr rfl
        refine hf.opened hx hinv (fun _ => Host.scaled_negotiate (t := t) hrest
          (congrArg Core.toOptions hcore) rfl) rfl fun _ => ⟨?_, ?_⟩
        · show t.toRecvSpace.rcvNxt.offsetFrom t.toRecvSpace.irs = 1
          rw [show t.toRecvSpace = _ from congrArg Core.toRecvSpace hcore]
          exact SeqNumber.offsetFrom_add _ 1
        · exact (congrArg (fun c => c.sndWl1) hcore).trans (congrArg (fun c => c.irs) hcore).symm
      · cases h
    · cases h
  | send x data =>
    simp only [apply] at h
    split at h
    · rename_i r hx
      cases h
      have := hf.act hx (Host.acted_send (hf.inv.ok _ _ hx) (hf.inv.heard le_rfl hx) data)
        (Host.windows_send data)
      rwa [transmit_none] at this
    · cases h
  | recv x n =>
    simp only [apply] at h
    split at h
    · rename_i r hx
      cases h
      have := hf.act hx (Host.acted_recv (hf.inv.ok _ _ hx) (hf.inv.heard le_rfl hx) n)
        (Host.windows_recv n)
      rwa [transmit_none] at this
    · cases h
  | close x =>
    simp only [apply] at h
    split at h
    · rename_i r hx
      cases h
      have := hf.act hx (Host.acted_close (hf.inv.ok _ _ hx) (hf.inv.heard le_rfl hx))
        Host.windows_close
      rwa [transmit_none] at this
    · cases h
  | timer x now =>
    simp only [apply] at h
    split at h
    · rename_i r hx
      cases h
      have := hf.act hx (Host.acted_timer (hf.inv.ok _ _ hx) (hf.inv.heard le_rfl hx) now)
        (Host.windows_timer now)
      rwa [transmit_none] at this
    · cases h
  | poll x now =>
    simp only [apply] at h
    split at h
    · rename_i r hx
      cases h
      exact hf.act hx (Host.acted_poll (hf.inv.ok _ _ hx) (hf.inv.heard le_rfl hx) now)
        (Host.windows_poll (hf.inv.ok _ _ hx) (hf.inv.heard le_rfl hx) (hf.scaled _ _ hx) now)
    · cases h
  | deliver x i now ce =>
    simp only [apply] at h
    split at h
    · rename_i r p hx hp
      cases h
      have hmem := List.mem_of_getElem? hp
      rcases ho : w.host x.other with _ | s
      · rw [hf.inv.silent _ ho] at hmem; cases hmem
      · obtain ⟨hfresh, hcoh⟩ := hc r hx p hp
        have hk := hf.keeps_segment hx ho hmem hcoh hfresh (Tcb.core_onSegment r.tcb now p.dgram.parse ce)
        have := hf.update hx hk (by rwa [transmit_none])
        rwa [transmit_none] at this
    · cases h

theorem flow_run {acts : List Action} (hc : Run.Along apply Steady (init : World κ) acts)
    (h : Run.run apply init acts = some w) : Flow w :=
  Run.run_invariant_along (fun _ _ _ hf hc hs => flow_step hf hc hs) flow_init hc h

/-- The data emitted next lies below an advertised edge. -/
theorem Flow.controlled (hf : Flow w) (x : Side) (now : Instant) : w.FlowControlled x now := by
  intro r hx d hd hlen
  have hr := hf.inv.ok _ _ hx
  have hin : r.tcb.inflight < 2147483648 := by
    have := hr.sending.outstanding_le
    change r.tcb.toSendSpace.outstanding < _
    omega
  have hp := Tcb.pollTransmit_polls r.tcb now hin
  generalize r.tcb.pollTransmit now = q at hp hd
  obtain ⟨t, o⟩ := q
  dsimp only at hp hd
  cases hp with
  | idle hc => cases hd
  | rst seq _ hc => cases hd; cases hlen
  | syn hst hc => cases hd; cases hlen
  | @segment t₀ seq extra payload v st h0 _ hs hc =>
    cases hd
    have h1 := sends_data_una (c := r.tcb.core) hr.phase hs hlen
    have hb := sends_below (c := r.tcb.core) hr.sending hr.phase h1 hs
    have hrcv : 1 ≤ r.rcv := by
      rcases hf.inv.heard le_rfl hx with hh | hh
      · have hopen := sends_open hs
        rcases hh.state with hst | hst
        · exact absurd hst hopen.2
        · exact absurd hst hopen.1
      · exact hh.pos
    obtain ⟨hw, hn⟩ := hf.window _ _ hx hrcv h1
    rcases hb.ends hlen with ⟨h2, h3, h4, h5⟩ | h2 | h2
    · exact .inl ⟨h2, h3, h4, h5⟩
    · exact .inr (hn.le h2)
    · exact .inr (hw.le h2)

/-- In a run in which every delivered packet is timely and mixes no ACK with an
older, larger window, flow control is respected at every moment. -/
theorem flow_controlled {acts : List Action}
    (hc : Run.Along apply Steady (init : World κ) acts)
    (hrun : Run.run apply (init : World κ) acts = some w) (x : Side) (now : Instant) :
    w.FlowControlled x now :=
  (flow_run hc hrun).controlled x now

/-- Ten octets each way, of which the second five overtake the first. -/
def reordered : List Action :=
  handshake ++ [.send .a (Bytes.replicate 5 0), .poll .a ⟨0⟩, .send .a (Bytes.replicate 5 1),
    .poll .a ⟨0⟩, .deliver .b 3 ⟨0⟩ false, .deliver .b 2 ⟨0⟩ false, .poll .b ⟨0⟩,
    .send .b (Bytes.replicate 5 2), .poll .b ⟨0⟩, .deliver .a 1 ⟨0⟩ false,
    .send .a (Bytes.replicate 5 3)]

theorem flow_controlled_reordered :
    ∃ w : World Reno, Run.run apply init reordered = some w ∧ w.FlowControlled .a ⟨0⟩ := by
  have hsteps : Run.Along apply Steady (init : World Reno) reordered := by decide +kernel
  obtain ⟨w, hrun, -⟩ := Run.exists_run apply (init : World Reno) reordered (fun _ => True)
    (by decide +kernel)
  exact ⟨w, hrun, flow_controlled hsteps hrun .a ⟨0⟩⟩

/-! ## The edge that is overrun -/

/-- Side `b` sends ten octets twice, of which the first are lost, and side `a`
fills the window. The retransmission of the first ten acknowledges everything
with a window of zero, which is not taken: it is older than the second ten. -/
def overrun : List Action :=
  handshake ++ [
    .send .a (Bytes.replicate 65483 0), .poll .a ⟨0⟩, .deliver .b 2 ⟨0⟩ false,
    .timer .b ⟨100000⟩, .poll .b ⟨100000⟩, .deliver .a 1 ⟨100000⟩ false,
    .send .b (Bytes.replicate 10 0), .poll .b ⟨200000⟩, .send .b (Bytes.replicate 10 0),
    .poll .b ⟨200000⟩, .deliver .a 3 ⟨200000⟩ false,
    .send .a (Bytes.replicate 261932 0), .poll .a ⟨200000⟩, .deliver .b 3 ⟨200000⟩ false,
    .poll .a ⟨200000⟩, .deliver .b 4 ⟨200000⟩ false,
    -- the retransmission timeout of side `b`
    .timer .b ⟨1300000⟩, .poll .b ⟨1300000⟩, .deliver .a 4 ⟨1300000⟩ false, .poll .a ⟨1300000⟩]

/-- After the run, `poll_transmit` on side `a` emits data past every edge that side
`b` has advertised. -/
theorem edge_overrun :
    ∃ w : World Reno, Run.run apply init overrun = some w ∧ ¬ w.FlowControlled .a ⟨1300000⟩ :=
  Run.exists_run apply init overrun (fun w => ¬ w.FlowControlled .a ⟨1300000⟩) (by decide +kernel)

end World

end Ferrumnet
