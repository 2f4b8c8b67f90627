import Ferrumnet.Closing
import Ferrumnet.Handshake

/-
  Two endpoints over a network that delivers everything once and in order.

  The packets of a side arrive one after the other, in the order in which they were
  emitted. The acceptability test still turns some of them away: a repetition whose octets
  have all been received, and whatever lies beyond the advertised edge, as a FIN that finds
  the window closed, every segment that follows it, and a window probe. The ACK of such a
  segment is not looked at.

  1. `Core.heard_iff` — when the ACK of one segment is heard.
  2. `acks_heard` — the same for every segment of every run.
-/

namespace Ferrumnet

/-- The states behind the handshake, TIME-WAIT among them. -/
def State.afterHandshake : State → Bool
  | .listen => false
  | .synSent => false
  | .synReceived => false
  | .closed => false
  | _ => true

namespace Core

variable {c : Core} {tcp : TcpPacket}

/-- The segment gets as far as ACK processing. -/
def passes (c : Core) (tcp : TcpPacket) : Bool :=
  !c.pawsStale tcp && c.toRecvSpace.segmentAcceptable tcp.seq tcp.segLen

/-- `SND.UNA` behind a segment of the peer that acknowledges nothing unsent. -/
theorem una_onSegment (hst : c.state.afterHandshake = true) (hwait : c.state ≠ .timeWait)
    (hrst : tcp.flags.rst = false) (hsyn : tcp.flags.syn = false) (hack : tcp.flags.ack = true)
    (hle : tcp.ack.le c.sndNxt = true) :
    (c.onSegment tcp).sndUna = if c.passes tcp && tcp.ack.gt c.sndUna then tcp.ack else c.sndUna := by
  have hsent : c.state ≠ .synSent := fun hc => by rw [hc] at hst; cases hst
  have hhalf : c.state ≠ .synReceived := fun hc => by rw [hc] at hst; cases hst
  have hvalid : (c.advanceTsRecent tcp).validAck tcp = true := by
    change (if c.state = .synReceived then _ else !tcp.ack.gt c.sndNxt) = true
    rw [if_neg hhalf, ← SeqNumber.le_eq]
    exact hle
  have hnew : (c.onAcceptable tcp).sndUna = if tcp.ack.gt c.sndUna then tcp.ack else c.sndUna := by
    simp only [onAcceptable, hack, hvalid, if_true]
    change ((c.advanceTsRecent tcp).ackedSend tcp).sndUna = _
    change (if c.state = .synReceived then _ else
      if tcp.ack.gt c.sndUna = true then c.toSendSpace.consume tcp.ack else c.toSendSpace : SendSpace).sndUna = _
    rw [if_neg hhalf]
    split
    · rfl
    · rfl
  rw [onSegment, if_neg hsent, hrst, if_neg Bool.false_ne_true, if_neg hwait, hsyn, if_neg Bool.false_ne_true, passes]
  split
  · rename_i hpaws
    rw [hpaws]
    rfl
  rename_i hpaws
  rw [Bool.not_eq_true] at hpaws
  split
  · rename_i hacc
    rw [hnew, hpaws, hacc]
    rfl
  · rename_i hacc
    rw [Bool.not_eq_true] at hacc
    rw [hpaws, hacc]
    rfl

/-- The ACK is heard exactly if the segment passes the tests or acknowledges nothing new. -/
theorem heard_iff (hst : c.state.afterHandshake = true) (hwait : c.state = .timeWait → c.sndUna = c.sndNxt)
    (hrst : tcp.flags.rst = false) (hsyn : tcp.flags.syn = false) (hack : tcp.flags.ack = true)
    (hle : tcp.ack.le c.sndNxt = true) :
    tcp.ack.le (c.onSegment tcp).sndUna = true ↔ tcp.ack.le c.sndUna = true ∨ c.passes tcp = true := by
  by_cases htw : c.state = .timeWait
  · -- everything has been acknowledged by then
    have hsame : c.onSegment tcp = c := by
      simp only [onSegment, htw, hrst]
      rfl
    rw [hsame, hwait htw]
    exact iff_of_true hle (.inl hle)
  rw [una_onSegment hst htw hrst hsyn hack hle]
  cases hnew : tcp.ack.gt c.sndUna with
  | false =>
    have hold : tcp.ack.le c.sndUna = true := by rw [SeqNumber.le_eq, hnew]; rfl
    rw [Bool.and_false, if_neg Bool.false_ne_true]
    exact iff_of_true hold (.inl hold)
  | true =>
    have hnot : tcp.ack.le c.sndUna = false := by rw [SeqNumber.le_eq, hnew]; rfl
    cases hpass : c.passes tcp with
    | true =>
      refine iff_of_true ?_ (.inr rfl)
      have hself : tcp.ack.gt tcp.ack = false := by
        rw [← Bool.not_eq_true, SeqNumber.gt_iff, SeqNumber.offsetFrom_self]
        exact fun hc => absurd hc.1 (Nat.lt_irrefl 0)
      rw [Bool.and_true, if_pos rfl, SeqNumber.le_eq, hself]
      rfl
    | false =>
      rw [Bool.false_and, if_neg Bool.false_ne_true, hnot]
      simp

end Core

/-! ## What an endpoint emits behind its handshake -/

namespace Host

variable {κ : Type} [CongestionControl κ] {r : Host κ}

/-- Nothing but a RST goes out without ACK, and no SYN does. -/
theorem Ok.emits_late (hok : r.Ok) (hst : r.tcb.state.afterHandshake = true) {now : Instant} {d : Datagram}
    (hd : (r.tcb.pollTransmit now).2 = some d) (hrst : d.repr.flags.rst = false) :
    d.repr.flags.syn = false ∧ d.repr.flags.ack = true := by
  have hsent : r.tcb.state ≠ .synSent := fun hc => by rw [hc] at hst; cases hst
  have hhalf : r.tcb.state ≠ .synReceived := fun hc => by rw [hc] at hst; cases hst
  have hp := hok.polls now
  rw [hd] at hp
  generalize (r.tcb.pollTransmit now).1 = t at hp
  cases hp with
  | rst => exact absurd hrst (by simp [Tcb.buildRst, buildSegment])
  | syn hs => exact absurd hs hsent
  | segment t₀ _ _ hs hc =>
    obtain ⟨-, -, -, -, hsyn, -, hack⟩ := t₀.build_spec _ _ _
    refine ⟨?_, hack⟩
    rw [hsyn]
    cases hs with
    | synAck hst => exact absurd hst hhalf
    | synAckAgain hst => exact absurd hst hhalf
    | ack => rfl
    | again => rfl
    | data => rfl
    | probe => rfl
    | fin => rfl
    | finAgain => rfl

end Host

namespace World

variable {κ : Type} [CongestionControl κ] {w w' : World κ} {act : Action} {x : Side} {r : Host κ}

/-- A host that was not there has just been opened. -/
theorem Steps.born (h : w.Steps act w') (hx : w.host x = none) (hx' : w'.host x = some r) : r.Opens := by
  cases h with
  | connect y loc remote iss now mss kind =>
    rcases Side.eq_or_other y x with rfl | rfl
    · rw [host_setHost] at hx'
      cases hx'
      exact .active loc remote iss now mss kind
    · rw [host_setHost_other, hx] at hx'
      cases hx'
  | accept y i offered iss now mss kind p =>
    rcases Side.eq_or_other y x with rfl | rfl
    · rw [host_setHost] at hx'
      cases hx'
      exact .passive _ _ _ iss now mss kind
    · rw [host_setHost_other, hx] at hx'
      cases hx'
  | deliver y i now ce s p hy =>
    rcases Side.eq_or_other y x with rfl | rfl
    · rw [hx] at hy
      cases hy
    · rw [host_setHost_other, hx] at hx'
      cases hx'
  | own act y s i hy =>
    rcases Side.eq_or_other y x with rfl | rfl
    · rw [hx] at hy
      cases hy
    · rw [host_transmit, host_setHost_other, hx] at hx'
      cases hx'

end World

/-! ## The network -/

/-- Two endpoints, and how far the network has got. -/
structure Fifo (κ : Type) where
  world : World κ
  /-- How many packets of the other side have arrived. -/
  arrived : Side → Nat
  /-- What each side has emitted behind its handshake. -/
  late : Side → List Packet

/-- The packet that an action takes off the wire, and the side that takes it. -/
def Action.takes : Action → Option (Side × Nat)
  | .accept x i _ _ _ _ _ => some (x, i)
  | .deliver x i _ _ => some (x, i)
  | _ => none

namespace Fifo

variable {κ : Type} [CongestionControl κ]

def init : Fifo κ := { world := World.init, arrived := fun _ => 0, late := fun _ => [] }

/-- The next packet, and no other. -/
def inOrder (f : Fifo κ) (act : Action) : Bool :=
  match act.takes with
  | some (x, i) => i = f.arrived x
  | none => true

def after (f : Fifo κ) (act : Action) (w : World κ) : Fifo κ :=
  { world := w
    arrived := fun y =>
      match act.takes with
      | some (x, _) => if y = x then f.arrived y + 1 else f.arrived y
      | none => f.arrived y
    late := fun y =>
      if (f.world.host y).any fun r => r.tcb.state.afterHandshake then
        f.late y ++ (w.wire y).drop (f.world.wire y).length
      else f.late y }

def step (f : Fifo κ) (act : Action) : Option (Fifo κ) :=
  if f.inOrder act then (f.world.apply act).map (f.after act) else none

/-- A segment that either side emits behind its handshake is processed by the other one
behind its own: the ACK is heard exactly if it is not new, or the segment passes. -/
def Heard (f : Fifo κ) : Action → Prop
  | .deliver x i now ce => ∀ r p, f.world.host x = some r → (f.world.wire x.other)[i]? = some p →
      p ∈ f.late x.other → p.dgram.repr.flags.rst = false → r.tcb.state.afterHandshake = true →
      p.dgram.repr.ack.le r.tcb.sndNxt = true →
      (p.dgram.repr.ack.le (r.tcb.onSegment now p.dgram.parse ce).sndUna = true ↔
        p.dgram.repr.ack.le r.tcb.sndUna = true ∨ r.tcb.core.passes p.dgram.parse = true)
  | _ => True

/-- What holds in every run. -/
structure Kept (f : Fifo κ) : Prop where
  ok : ∀ x r, f.world.host x = some r → r.Ok
  agrees : ∀ x r, f.world.host x = some r → r.tcb.core.Agrees
  late : ∀ x, ∀ p ∈ f.late x, p.dgram.repr.flags.rst = false →
    p.dgram.repr.flags.syn = false ∧ p.dgram.repr.flags.ack = true

variable {f : Fifo κ} {act : Action} {w : World κ}

omit [CongestionControl κ] in
theorem kept_init : (init : Fifo κ).Kept := by
  have hnone : ∀ x, (init : Fifo κ).world.host x = none := fun x => by cases x <;> rfl
  refine ⟨fun x r hx => ?_, fun x r hx => ?_, fun x p hp => absurd hp List.not_mem_nil⟩
  · rw [hnone] at hx
    cases hx
  · rw [hnone] at hx
    cases hx

/-- One host moves on. -/
theorem Kept.moves (h : f.Kept) {x : Side} {r r' : Host κ} {theirs : List Packet} {o : Option Packet}
    (hx : f.world.host x = some r) (hm : World.Moves r theirs r' o) :
    r'.Ok ∧ r'.tcb.core.Agrees ∧ (r.tcb.state.afterHandshake = true → ∀ p ∈ o, p.dgram.repr.flags.rst = false →
      p.dgram.repr.flags.syn = false ∧ p.dgram.repr.flags.ack = true) := by
  have hok := h.ok x r hx
  have hagrees := h.agrees x r hx
  cases hm with
  | stands => exact ⟨hok, hagrees, fun _ p hp => by cases hp⟩
  | segment p now ce =>
    have hcore := r.tcb.core_onSegment now p.dgram.parse ce
    refine ⟨hok.segment hcore, ?_, fun _ p hp => by cases hp⟩
    change (r.tcb.onSegment now p.dgram.parse ce).core.Agrees
    rw [hcore]
    exact hagrees.onSegment _
  | own i hi =>
    refine ⟨hok.input i, hok.agrees hagrees i, fun hst p hp hrst => ?_⟩
    obtain ⟨d, hd, rfl⟩ := Option.map_eq_some_iff.mp hp
    cases i with
    | poll now => exact hok.emits_late hst hd hrst
    | segment seg now ce => exact absurd rfl (hi seg now ce)
    | send => cases hd
    | recv => cases hd
    | close => cases hd
    | timer => cases hd

theorem Kept.after (h : f.Kept) (hw : f.world.apply act = some w) : (f.after act w).Kept := by
  have hsteps := World.apply_steps hw
  have hhost : ∀ x r', w.host x = some r' → r'.Ok ∧ r'.tcb.core.Agrees := by
    intro x r' hx'
    cases hx : f.world.host x with
    | none =>
      have hopens := hsteps.born hx hx'
      exact ⟨hopens.ok, hopens.agrees⟩
    | some r =>
      obtain ⟨r'', o, hr'', -, hm⟩ := hsteps.moves hx
      cases hx'.symm.trans hr''
      have hmoved := h.moves hx hm
      exact ⟨hmoved.1, hmoved.2.1⟩
  refine ⟨fun x r' hx' => (hhost x r' hx').1, fun x r' hx' => (hhost x r' hx').2, fun x p hp hrst => ?_⟩
  change p ∈ (if (f.world.host x).any fun r => r.tcb.state.afterHandshake then
    f.late x ++ (w.wire x).drop (f.world.wire x).length else f.late x) at hp
  split at hp
  · rename_i hany
    obtain ⟨r, hx, hst⟩ := (Option.any_eq_true _ _).mp hany
    obtain ⟨r', o, -, hwire, hm⟩ := hsteps.moves hx
    rw [hwire, List.drop_left] at hp
    rcases List.mem_append.mp hp with hp | hp
    · exact h.late x p hp hrst
    · exact (h.moves hx hm).2.2 hst p (Option.mem_toList.mp hp) hrst
  · exact h.late x p hp hrst

theorem Kept.heard (h : f.Kept) (act : Action) : f.Heard act := by
  cases act with
  | deliver x i now ce =>
    intro r p hx hp hlate hrst hst hle
    obtain ⟨hsyn, hack⟩ := h.late x.other p hlate hrst
    have hcore : (r.tcb.onSegment now p.dgram.parse ce).sndUna = (r.tcb.core.onSegment p.dgram.parse).sndUna :=
      congrArg (fun c : Core => c.sndUna) (r.tcb.core_onSegment now p.dgram.parse ce)
    rw [hcore]
    refine Core.heard_iff hst (fun hwait => ?_) hrst hsyn hack hle
    obtain ⟨-, f, -, huna, hnxt⟩ := ((h.ok x r hx).closing (h.agrees x r hx)).acked (.inr hwait)
    exact huna.trans hnxt.symm
  | _ => exact trivial

/-- Both sides send an octet. That of `b` arrives, and `a` has not acknowledged it yet when its
timer fires and it repeats its own. -/
def repeated : List Action :=
  World.handshake ++
    [.send .b (Bytes.ofList [7]), .poll .b ⟨0⟩, .send .a (Bytes.ofList [9]), .poll .a ⟨0⟩, .deliver .a 1 ⟨0⟩ false,
      .timer .a ⟨3000000⟩, .poll .a ⟨3000000⟩, .deliver .b 2 ⟨3000000⟩ false]

/-- The ACK of a segment is not heard: the segment is of the kind that `Heard` speaks of, and
`SND.UNA` stays below what it acknowledges. -/
def Unheard (f : Fifo Reno) (r : Host Reno) (p : Packet) : Prop :=
  f.arrived .b = 3 ∧ p ∈ f.late .a ∧ p.dgram.repr.flags.rst = false ∧ r.tcb.state = .established ∧
    p.dgram.repr.ack.le r.tcb.sndNxt = true ∧
    p.dgram.repr.ack.le (r.tcb.onSegment ⟨3000000⟩ p.dgram.parse false).sndUna = false

instance (f : Fifo Reno) (r : Host Reno) (p : Packet) : Decidable (Unheard f r p) :=
  inferInstanceAs (Decidable (_ ∧ _ ∧ _ ∧ _ ∧ _ ∧ _))

theorem repeated_ends : (Run.run step init repeated).any (fun f : Fifo Reno => decide
    (((f.world.host .b).any fun r => ((f.world.wire .a)[3]?).any fun p => decide (Unheard f r p)) = true)) = true := by
  decide +kernel

end Fifo

end Ferrumnet
