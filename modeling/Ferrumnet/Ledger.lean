import Ferrumnet.Lib.Tally
import Ferrumnet.Echo
import Ferrumnet.Handshake
import Ferrumnet.Integrity

/-
  AccECN: are marks conserved?

  One side sends data, the other counts the CE-marked segments it accepts and
  reflects the count modulo 8. Beside the world a ledger is kept: how many were
  accepted, how many when each datagram was emitted, what was decoded.

  1. `refines` — a step of the ledger is a few steps of the abstract tally.
  2. `marks_conserved` — in every run in which no segment comes so late that its
     numbers have come round, what the sender has decoded is what the receiver
     had accepted when it emitted the last ACK that moved `SND.UNA`.
-/

namespace Ferrumnet

/-- The position of `SND.UNA` on one side, 0 before it opens. -/
def World.una {κ : Type} (w : World κ) (x : Side) : Nat := ((w.host x).map Host.una).getD 0

/-- The position of `RCV.NXT` on one side, 0 before it opens. -/
def World.rcv {κ : Type} (w : World κ) (x : Side) : Nat := ((w.host x).map Host.rcv).getD 0

/-- The world, and what is recorded of the marks in one direction. -/
structure Ledger (κ : Type) where
  world : World κ
  /-- The CE-marked segments that were accepted. -/
  accepted : Nat
  /-- What the receiving side has emitted, each with what was accepted by then. -/
  emitted : List (Packet × Nat)
  /-- The sum of the deltas decoded by `process_ack`. -/
  decoded : Nat
  /-- What was accepted by the emission of the last ACK that moved `SND.UNA`. -/
  reported : Nat

namespace Ledger

variable {κ : Type}

def init : Ledger κ := { world := .init, accepted := 0, emitted := [], decoded := 0, reported := 0 }

variable [CongestionControl κ] (x : Side) (l : Ledger κ)

/-- The host and the packet of a delivery to one side. -/
def delivery (y : Side) : Action → Option (Host κ × Packet × Bool)
  | .deliver z i _ ce =>
    if z = y then (l.world.host y).bind fun r => (l.world.wire y.other)[i]?.map fun p => (r, p, ce)
    else none
  | _ => none

/-- The action makes the receiving side accept a CE-marked segment. -/
def marks (act : Action) : Nat :=
  ((l.delivery x.other act).map fun d => (d.1.tcb.counts d.2.1.dgram.parse d.2.2).toNat).getD 0

/-- The marks that the sending side decodes. -/
def decodes (act : Action) : Nat :=
  ((l.delivery x act).map fun d =>
    if d.1.tcb.reads d.2.1.dgram.parse then d.1.tcb.aceDelta d.2.1.dgram.parse else 0).getD 0

/-- What was accepted when the ACK that the action delivers was emitted, if it
moves `SND.UNA`. -/
def moves (w' : World κ) : Action → Option Nat
  | .deliver z i _ _ =>
    if z = x ∧ l.world.una x < w'.una x then (l.emitted[i]?).map Prod.snd else none
  | _ => none

/-- The datagrams that the receiving side emits. -/
def emits (w' : World κ) : List Packet := (w'.wire x.other).drop (l.world.wire x.other).length

/-- One action of the world, recorded. Data goes from `x` to the other side. -/
def step (l : Ledger κ) (act : Action) : Option (Ledger κ) :=
  (l.world.apply act).map fun w' =>
    { world := w'
      accepted := l.accepted + l.marks x act
      emitted := l.emitted ++ (l.emits x w').map fun p => (p, l.accepted)
      decoded := l.decoded + l.decodes x act
      reported := (l.moves x w' act).getD l.reported }

/-- Fewer than 8 CE-marked segments are accepted between the emissions of an ACK
that moves `SND.UNA` and of the one that moved it before. -/
def Sparse (act : Action) : Prop :=
  ∀ w' ∈ l.world.apply act, ∀ m ∈ l.moves x w' act, m < l.reported + 8 ∧ l.reported < m + 8

instance (act : Action) : Decidable (l.Sparse x act) := by
  unfold Sparse
  infer_instance

end Ledger

/-- Both sides are opened with a controller that reacts to marks. -/
def Action.marking : Action → Bool
  | .connect _ _ _ _ _ _ kind => kind.ecn
  | .accept _ _ _ _ _ _ kind => kind.ecn
  | _ => true

/-- No packet is delivered so late that its numbers have come round. -/
def World.Prompt {κ : Type} (w : World κ) : Action → Prop
  | .deliver y i _ _ => ∀ r ∈ w.host y, ∀ p ∈ (w.wire y.other)[i]?, r.Fresh p
  | _ => True

instance {κ : Type} (w : World κ) : ∀ act, Decidable (w.Prompt act)
  | .deliver y i _ _ =>
    inferInstanceAs (Decidable (∀ r ∈ w.host y, ∀ p ∈ (w.wire y.other)[i]?, r.Fresh p))
  | .connect .. | .accept .. | .send .. | .recv .. | .close .. | .timer .. | .poll .. =>
    isTrue trivial

/-! ## One host -/

namespace Host

variable {κ : Type} [CongestionControl κ] {s r : Host κ} {p : Packet}

/-- A call of its own moves neither `SND.UNA` nor `RCV.NXT`. -/
theorem acted_input (h : r.Ok) (hh : r.Unlearned ∨ r.Heard) {i : Input}
    (hi : ∀ seg now ce, i ≠ .segment seg now ce) :
    Acted r (r.input i).1 ((r.input i).2.map r.label) := by
  cases i with
  | segment seg now ce => exact absurd rfl (hi seg now ce)
  | send data => exact acted_send h hh data
  | recv n => exact acted_recv h hh n
  | close => exact acted_close h hh
  | timer now => exact acted_timer h hh now
  | poll now => exact acted_poll h hh now

theorem echo_input {i : Input} (hi : ∀ seg now ce, i ≠ .segment seg now ce) :
    (r.input i).1.tcb.echo = r.tcb.echo := by
  cases i with
  | segment seg now ce => exact absurd rfl (hi seg now ce)
  | send data => exact r.tcb.echo_send data
  | recv n => rfl
  | close => rfl
  | timer now => exact r.tcb.echo_onTimer now
  | poll now => exact r.tcb.echo_pollTransmit now

theorem stamps_input (i : Input) (d : Datagram) (hd : (r.input i).2 = some d)
    (hrst : d.repr.flags.rst = false) (hsyn : d.repr.flags.syn = false)
    (hen : r.tcb.ccKind.ecn = true) : d.parse.ace = r.tcb.accecnCep % 8 := by
  cases i with
  | poll now => exact r.tcb.ace_pollTransmit d hd hrst hsyn hen
  | _ => cases hd

omit [CongestionControl κ] in
/-- An ACK counts as new exactly when it is past `SND.UNA`. -/
theorem AcksSend.gt_iff {k : Nat} {t : Tcb κ} (ha : AcksSend k s r p t) (hr : r.Ok)
    (hfresh : r.nxt ≤ p.ackPos + 2147483648) :
    p.dgram.parse.ack.gt r.tcb.sndUna = decide (r.una < p.ackPos) := by
  have hle : r.una ≤ r.nxt := Nat.le_add_right _ _
  have hnxt : p.ackPos ≤ r.una + r.tcb.toSendSpace.outstanding := ha.le_nxt
  have hout := hr.sending.outstanding_le
  change p.dgram.repr.ack.gt r.tcb.sndUna = _
  rw [ha.ack, hr.sending.at_una]
  exact SeqNumber.pos_gt _ (by omega) (by omega)

/-- What a packet does to `SND.UNA`: nothing, and its counter is not read; or it
moves there to its own position, and the counter is read unless this ends the
handshake. -/
inductive Advances (r : Host κ) (p : Packet) (t : Tcb κ) : Prop
  | stands : (r.follow t).una = r.una → r.tcb.reads p.dgram.parse = false → Advances r p t
  | opens : r.una = 0 → (r.follow t).una = p.ackPos → 0 < p.ackPos →
      r.tcb.reads p.dgram.parse = false → Advances r p t
  | reads : r.una < p.ackPos → (r.follow t).una = p.ackPos → p.dgram.repr.flags.rst = false →
      p.dgram.repr.flags.syn = false → r.tcb.reads p.dgram.parse = true → Advances r p t

omit [CongestionControl κ] in
theorem segment_advances (hr : r.Ok) (hrs : r.Linked 1 s)
    (hp : p.dgram.repr.flags.rst = false → s.Carried p) (hfresh : r.Fresh p) {t : Tcb κ}
    (ht : t.core = r.tcb.core.onSegment p.dgram.parse) : Advances r p t := by
  have hdrop : t.sndUna = r.tcb.sndUna → r.tcb.takesIn p.dgram.parse = false → Advances r p t := by
    intro hu hno
    exact .stands (follow_una hu) (by simp [Tcb.reads, hno])
  by_cases hst : r.tcb.state = .synSent
  · have hno : r.tcb.takesIn p.dgram.parse = false := by simp [Tcb.takesIn, Core.admits, hst]
    have hst' : r.tcb.core.state = .synSent := hst
    rw [Core.onSegment, if_pos hst'] at ht
    have hcases := r.tcb.core.onSegmentSynSent_takes p.dgram.parse
    rw [← ht] at hcases
    generalize hc : t.core = c at hcases
    cases hcases with
    | dropped => exact hdrop (congrArg (fun c => c.sndUna) hc) hno
    | reset => exact hdrop (congrArg (fun c => c.sndUna) hc) hno
    | crossed => exact hdrop (congrArg (fun c => c.sndUna) hc) hno
    | acked hrst hsyn hack =>
      -- the SYN is acknowledged, at position 1
      obtain ⟨hat, hu, -, -, hru, -⟩ := acksSyn_send (t := t) hr hst hack (congrArg Core.toSendSpace hc)
      have hflag : p.dgram.repr.flags.ack = true := by
        simp only [Core.acksSyn, Bool.and_eq_true] at hack
        exact hack.1.1
      obtain ⟨h1, h2, h3, h4⟩ := (hp hrst).ack hflag
      have hls := hrs.learned (h1.trans h2)
      have hnear := hls.rcv_near hr le_rfl
      have hone : p.ackPos = 1 := by
        rw [hls.irs] at h4
        have heq : r.tcb.iss + p.ackPos = r.tcb.iss + 1 := h4.symm.trans hat
        exact (SeqNumber.pos_eq _ (by omega) (by omega)).mp heq
      exact .opens hru (hu.trans hone.symm) (by omega) (by simp [Tcb.reads, hno])
  have hcases := r.tcb.core.onSegment_takes p.dgram.parse hst
  rw [← ht] at hcases
  generalize hc : t.core = c at hcases
  cases hcases with
  | dropped ts hno => exact hdrop (congrArg (fun c => c.sndUna) hc) hno
  | reset hrst _ =>
    refine hdrop (congrArg (fun c => c.sndUna) hc) ?_
    simp [Tcb.takesIn, Core.admits, hrst]
  | badAck ts _ _ hbad =>
    refine hdrop (congrArg (fun c => c.sndUna) hc) ?_
    simp [Tcb.takesIn, hbad]
  | synAgain hdup =>
    refine hdrop (congrArg (fun c => c.sndUna) hc) ?_
    simp [Tcb.takesIn, Core.admits, Core.syn_of_dupSyn _ _ hdup]
  | taken hadm hv =>
    obtain ⟨hrst, hsyn, -⟩ := admits_flags hadm
    have ha := taken_send (t := t) hr hrs le_rfl (hp hrst) hfresh hst hadm hv
      (congrArg Core.toSendSpace hc)
    have hgt := ha.gt_iff hr (hfresh hsyn hrst).2
    have hin : r.tcb.takesIn p.dgram.parse = true := by simp [Tcb.takesIn, hadm, hv]
    have hpos := ha.pos
    have huna := ha.una
    by_cases hlt : r.una < p.ackPos
    · have hu : (r.follow t).una = p.ackPos := by omega
      by_cases hrec : r.tcb.state = .synReceived
      · have h0 : r.una = 0 := by
          have := hr.phase
          rwa [hrec] at this
        exact .opens h0 hu hpos (by simp [Tcb.reads, hrec])
      · exact .reads hlt hu hrst hsyn (by simp [Tcb.reads, hrec, hin, hgt, hlt])
    · exact .stands (by omega) (by simp [Tcb.reads, hgt, hlt])

omit [CongestionControl κ] in
/-- Before its SYN is acknowledged a host has no data on the wire. -/
theorem Carried.no_data (hc : s.Carried p) (h0 : s.una = 0)
    (hsyn : p.dgram.repr.flags.syn = false) : p.dgram.payload.len = 0 := by
  have hpos := (hc.stream.text hsyn).1
  have hends := hc.ends_one (.inl hpos)
  rw [Host.reach, SendSpace.reach, if_pos h0] at hends
  simp only [TcpPacket.segLen, Datagram.parse] at hends
  omega

omit [CongestionControl κ] in
/-- So its peer accepts no mark from it. -/
theorem Carried.no_marks (hp : p.dgram.repr.flags.rst = false → s.Carried p) (h0 : s.una = 0)
    (ce : Bool) : r.tcb.counts p.dgram.parse ce = false := by
  by_contra hne
  have hcounts : r.tcb.counts p.dgram.parse ce = true := by simpa using hne
  simp only [Tcb.counts, Tcb.takesIn, Bool.and_eq_true] at hcounts
  obtain ⟨⟨-, hadm, -⟩, hcon⟩ := hcounts
  obtain ⟨hrst, hsyn, -⟩ := admits_flags hadm
  have hlen : p.dgram.parse.payload.isEmpty = true :=
    Bytes.isEmpty_iff.mpr ((hp hrst).no_data h0 hsyn)
  simp [RecvSpace.contributes, RecvSpace.acceptData, hlen] at hcon

end Host

/-! ## The ledger and the tally -/

namespace Ledger

variable {κ : Type} {x : Side} {l l' : Ledger κ}

/-- The ledger as a tally: positions and counts only. -/
def tally (x : Side) (l : Ledger κ) : Tally.State :=
  { count := l.accepted
    position := l.world.rcv x.other
    emitted := l.emitted.map fun e => (e.1.ackPos, e.2)
    edge := l.world.una x
    taken := l.reported
    sum := l.decoded }

/-- The Tcbs agree with the ledger: both counters modulo their width, and what
the segments on the wire say. -/
structure Agrees (x : Side) (l : Ledger κ) : Prop where
  inv : World.Inv 1 l.world
  wire : l.emitted.map Prod.fst = l.world.wire x.other
  ecn : ∀ y h, l.world.host y = some h → h.tcb.ccKind.ecn = true
  counted : ∀ r, l.world.host x.other = some r → r.tcb.accecnCep = (5 + l.accepted) % 256
  seen : ∀ s, l.world.host x = some s → s.tcb.accecnAceSeen = (5 + l.reported) % 8
  stamped : ∀ e ∈ l.emitted, e.1.dgram.repr.flags.rst = false → e.1.dgram.repr.flags.syn = false →
    e.1.dgram.parse.ace = (5 + e.2) % 8
  quiet : l.world.una x = 0 → l.accepted = 0

theorem una_eq {w : World κ} {y : Side} {h : Host κ} (hy : w.host y = some h) : w.una y = h.una := by
  simp [World.una, hy]

theorem rcv_eq {w : World κ} {y : Side} {h : Host κ} (hy : w.host y = some h) : w.rcv y = h.rcv := by
  simp [World.rcv, hy]

/-- Where the two sides are, when only one of them moves. -/
theorem una_setHost (w : World κ) (y : Side) (h : Host κ) (o : Option Packet) :
    ((w.setHost y h).transmit y o).una y = h.una ∧
      ((w.setHost y h).transmit y o).una y.other = w.una y.other := by
  simp [World.una]

theorem rcv_setHost (w : World κ) (y : Side) (h : Host κ) (o : Option Packet) :
    ((w.setHost y h).transmit y o).rcv y = h.rcv ∧
      ((w.setHost y h).transmit y o).rcv y.other = w.rcv y.other := by
  simp [World.rcv]

/-- The mark of an ACK that has been emitted. -/
theorem Agrees.lookup (h : Agrees x l) {i : Nat} {p : Packet}
    (hp : (l.world.wire x.other)[i]? = some p) :
    ∃ m, l.emitted[i]? = some (p, m) ∧ (p, m) ∈ l.emitted := by
  rw [← h.wire, List.getElem?_map] at hp
  obtain ⟨⟨q, m⟩, hq, rfl⟩ := Option.map_eq_some_iff.mp hp
  exact ⟨m, hq, List.mem_of_getElem? hq⟩

/-- The delta is the one between the two counts. -/
theorem Agrees.delta (h : Agrees x l) {s : Host κ} (hs : l.world.host x = some s) {p : Packet}
    {m : Nat} (hmem : (p, m) ∈ l.emitted) (hrst : p.dgram.repr.flags.rst = false)
    (hsyn : p.dgram.repr.flags.syn = false) :
    s.tcb.aceDelta p.dgram.parse = Tally.delta 8 l.reported m := by
  have hsay : p.dgram.parse.ace = (5 + m) % 8 := h.stamped _ hmem hrst hsyn
  have hseen := h.seen _ hs
  rw [Tcb.aceDelta, hsay, hseen, Tally.delta]
  omega

/-- What one action keeps, and what it is in the tally. -/
structure Keeps (x : Side) (l l' : Ledger κ) : Prop where
  agrees : Agrees x l'
  steps : Relation.ReflTransGen (Tally.Step 8) (l.tally x) (l'.tally x)

section Step

/-- A side opens. Nothing was accepted yet. -/
theorem Agrees.opened (h : Agrees x l) (hex : Tally.Exact (l.tally x)) {y : Side} {t : Tcb κ}
    (hy : l.world.host y = none) (hinv : World.Inv 1 (l.world.setHost y (.fresh t)))
    (hecn : t.ccKind.ecn = true) (hecho : t.toAccEcn = ⟨aceInit, aceInit⟩) :
    Keeps x l { l with world := l.world.setHost y (.fresh t) } := by
  have huna : l.world.una x = 0 := by
    rcases Side.eq_or_other y x with rfl | rfl
    · simp [World.una, hy]
    · rcases hs : l.world.host y.other with _ | s
      · simp [World.una, hs]
      · rw [una_eq hs]
        exact (h.inv.alone _ _ hs (by rw [Side.other_other]; exact hy)).2
  have hzero : l.accepted = 0 := h.quiet huna
  have hreported : l.reported = 0 := by
    have : l.reported ≤ l.accepted := hex.taken_le
    omega
  have hother := Side.eq_or_other y
  have hone : ∀ z u, (l.world.setHost y (.fresh t)).host z = some u →
      u = .fresh t ∨ l.world.host z = some u := by
    intro z u hu
    rcases hother z with rfl | rfl
    · rw [World.host_setHost] at hu
      exact .inl (Option.some.inj hu).symm
    · rw [World.host_setHost_other] at hu
      exact .inr hu
  refine ⟨⟨hinv, ?_, fun z u hu => ?_, fun u hu => ?_, fun u hu => ?_, h.stamped, fun _ => hzero⟩, ?_⟩
  · rw [World.wire_setHost]
    exact h.wire
  · rcases hone z u hu with rfl | hu
    · exact hecn
    · exact h.ecn z u hu
  · rcases hone _ u hu with rfl | hu
    · change t.toAccEcn.accecnCep = _
      rw [hecho, hzero]
      rfl
    · exact h.counted u hu
  · rcases hone _ u hu with rfl | hu
    · change t.toAccEcn.accecnAceSeen = _
      rw [hecho, hreported]
      rfl
    · exact h.seen u hu
  · have hsame : (l.world.setHost y (.fresh t)).una x = l.world.una x := by
      rcases hother x with rfl | rfl
      · rw [huna, una_eq (World.host_setHost ..)]
        rfl
      · simp [World.una]
    have hle : l.world.rcv x.other ≤ (l.world.setHost y (.fresh t)).rcv x.other := by
      rcases hother x.other with hz | hz <;> rw [hz]
      · simp [World.rcv, hy]
      · simp [World.rcv]
    apply Relation.ReflTransGen.single
    refine Tally.Step.received ?_ ?_ ?_
    · exact le_rfl
    · exact hle
    · simp only [tally, hsame]

/-- A call of one side on its own. -/
theorem Agrees.acted (h : Agrees x l) {y : Side} {r r' : Host κ} {o : Option Packet}
    (hy : l.world.host y = some r) (ha : Host.Acted r r' o) (hecho : r'.tcb.echo = r.tcb.echo)
    (hpos : ∀ p ∈ o, p.ackPos = r.rcv)
    (hace : ∀ p ∈ o, p.dgram.repr.flags.rst = false → p.dgram.repr.flags.syn = false →
      p.dgram.parse.ace = r.tcb.accecnCep % 8) :
    Keeps x l { l with
      world := (l.world.setHost y r').transmit y o
      emitted := l.emitted ++
        (l.emits x ((l.world.setHost y r').transmit y o)).map fun p => (p, l.accepted) } := by
  generalize hw : (l.world.setHost y r').transmit y o = w'
  have hinv : World.Inv 1 w' := by
    rw [← hw]
    exact h.inv.act le_rfl hy ha
  have hone : ∀ z u, w'.host z = some u → (z = y ∧ u = r') ∨ l.world.host z = some u := by
    intro z u hu
    rw [← hw, World.host_transmit] at hu
    rcases Side.eq_or_other y z with rfl | rfl
    · rw [World.host_setHost] at hu
      exact .inl ⟨rfl, (Option.some.inj hu).symm⟩
    · rw [World.host_setHost_other] at hu
      exact .inr hu
  have hkind : r'.tcb.ccKind = r.tcb.ccKind := congrArg Prod.fst hecho
  have hcnt : r'.tcb.toAccEcn = r.tcb.toAccEcn := congrArg Prod.snd hecho
  have hun : w'.una x = l.world.una x := by
    rw [← hw]
    rcases Side.eq_or_other y x with rfl | rfl
    · rw [(una_setHost ..).1, ha.una, una_eq hy]
    · exact (una_setHost ..).2
  have hrc : w'.rcv x.other = l.world.rcv x.other := by
    rw [← hw]
    rcases Side.eq_or_other y x.other with hz | hz <;> rw [hz]
    · rw [(rcv_setHost ..).1, ha.rcv, rcv_eq hy]
    · exact (rcv_setHost ..).2
  -- the datagram is recorded if it comes from the receiving side
  have hemits : w'.wire x.other = l.world.wire x.other ++ l.emits x w' ∧
      ((l.emits x w' = []) ∨ (y = x.other ∧ ∃ p, o = some p ∧ l.emits x w' = [p])) := by
    have hsplit : w'.wire x.other = l.world.wire x.other ∨
        (y = x.other ∧ w'.wire x.other = l.world.wire x.other ++ o.toList) := by
      rw [← hw]
      rcases Side.eq_or_other y x.other with hz | hz
      · rw [hz, World.wire_transmit, World.wire_setHost]
        exact .inr ⟨rfl, rfl⟩
      · rw [hz, World.wire_transmit_other, World.wire_setHost]
        exact .inl rfl
    unfold emits
    rcases hsplit with he | ⟨hy', he⟩
    · rw [he, List.drop_length, List.append_nil]
      exact ⟨rfl, .inl rfl⟩
    · rw [he, List.drop_left]
      refine ⟨rfl, ?_⟩
      cases o with
      | none => exact .inl rfl
      | some p => exact .inr ⟨hy', p, rfl, rfl⟩
  obtain ⟨hwire, hnew⟩ := hemits
  generalize l.emits x w' = es at hwire hnew
  refine ⟨⟨hinv, ?_, fun z u hu => ?_, fun u hu => ?_, fun u hu => ?_, fun e he => ?_, fun h0 => ?_⟩, ?_⟩
  · change (l.emitted ++ es.map fun p => (p, l.accepted)).map Prod.fst = _
    rw [hwire, List.map_append, h.wire, List.map_map]
    congr 1
    exact List.map_id es
  · rcases hone z u hu with ⟨rfl, rfl⟩ | hu
    · rw [hkind]
      exact h.ecn _ _ hy
    · exact h.ecn z u hu
  · rcases hone _ u hu with ⟨rfl, rfl⟩ | hu
    · rw [hcnt]
      exact h.counted r hy
    · exact h.counted u hu
  · rcases hone _ u hu with ⟨rfl, rfl⟩ | hu
    · rw [hcnt]
      exact h.seen r hy
    · exact h.seen u hu
  · rcases List.mem_append.mp he with he | he
    · exact h.stamped e he
    · obtain ⟨p, hp, rfl⟩ := List.mem_map.mp he
      rcases hnew with hnil | ⟨rfl, q, ho, hq⟩
      · rw [hnil] at hp
        cases hp
      · rw [hq] at hp
        cases List.mem_singleton.mp hp
        intro hrst hsyn
        rw [hace p ho hrst hsyn, h.counted r hy]
        change _ = (5 + l.accepted) % 8
        omega
  · exact h.quiet (hun.symm.trans h0)
  · rcases hnew with hnil | ⟨rfl, q, ho, hq⟩
    · have heq : tally x { l with
          world := w', emitted := l.emitted ++ es.map fun p => (p, l.accepted) } = tally x l := by
        simp only [tally, hnil, hun, hrc, List.map_nil, List.append_nil]
      rw [heq]
    · have heq : tally x { l with
          world := w', emitted := l.emitted ++ es.map fun p => (p, l.accepted) } =
            { l.tally x with
              emitted := (l.tally x).emitted ++ [((l.tally x).position, (l.tally x).count)] } := by
        simp only [tally, hq, hun, hrc, List.map_cons, List.map_nil, List.map_append, hpos q ho,
          rcv_eq hy]
      rw [heq]
      exact .single .emit

/-- Data arrives: `RCV.NXT` may move, and the mark may be counted. -/
theorem Agrees.data [CongestionControl κ] (h : Agrees x l) {s r : Host κ} {p : Packet} {now : Instant}
    {ce : Bool} (hx : l.world.host x = some s) (ho : l.world.host x.other = some r)
    (hp : p ∈ l.world.wire x)
    (hd : Host.Delivered 1 s r (r.tcb.onSegment now p.dgram.parse ce)) :
    Keeps x l { l with
      world := l.world.setHost x.other (r.follow (r.tcb.onSegment now p.dgram.parse ce))
      accepted := l.accepted + (r.tcb.counts p.dgram.parse ce).toNat } := by
  have hecho := r.tcb.echo_onSegment now p.dgram.parse ce
  generalize r.tcb.onSegment now p.dgram.parse ce = t at hd hecho
  generalize hn : (r.tcb.counts p.dgram.parse ce).toNat = n
  have hone : ∀ z u, (l.world.setHost x.other (r.follow t)).host z = some u →
      (z = x.other ∧ u = r.follow t) ∨ (z = x ∧ u = s) := by
    intro z u hu
    rcases Side.eq_or_other x z with rfl | rfl
    · have hback := World.host_setHost_other l.world z.other (r.follow t)
      rw [Side.other_other, hx] at hback
      rw [hback] at hu
      exact .inr ⟨rfl, (Option.some.inj hu).symm⟩
    · rw [World.host_setHost] at hu
      exact .inl ⟨rfl, (Option.some.inj hu).symm⟩
  have hen : r.tcb.ccKind.ecn = true := h.ecn _ _ ho
  have hkind : t.ccKind = r.tcb.ccKind ∧ t.accecnCep = (r.tcb.accecnCep + n) % 256 := by
    have hcep := h.counted r ho
    have hk : t.ccKind = t.echo.1 := rfl
    have hc : t.accecnCep = t.echo.2.accecnCep := rfl
    rw [hk, hc, hecho, Tcb.echoAfter, ← hn]
    cases r.tcb.counts p.dgram.parse ce <;> cases r.tcb.reads p.dgram.parse <;>
      simp [Tcb.echoCount, Tcb.echoRead, Tcb.echo, hen, hcep]
  have hun : (l.world.setHost x.other (r.follow t)).una x = l.world.una x := by
    have := (una_setHost l.world x.other (r.follow t) none).2
    rwa [World.transmit_none, Side.other_other] at this
  have hle : l.world.rcv x.other ≤ (l.world.setHost x.other (r.follow t)).rcv x.other := by
    rw [rcv_eq ho, rcv_eq (World.host_setHost ..)]
    exact hd.grows.rcv
  refine ⟨⟨?_, ?_, fun z u hu => ?_, fun u hu => ?_, fun u hu => ?_, h.stamped, fun h0 => ?_⟩, ?_⟩
  · exact h.inv.deliver (s := s) ho (by rw [Side.other_other]; exact hx) hd
  · rw [World.wire_setHost]
    exact h.wire
  · rcases hone z u hu with ⟨rfl, rfl⟩ | ⟨rfl, rfl⟩
    · change t.ccKind.ecn = true
      rw [hkind.1]
      exact hen
    · exact h.ecn _ _ hx
  · rw [World.host_setHost] at hu
    cases hu
    change t.accecnCep = (5 + (l.accepted + n)) % 256
    rw [hkind.2, h.counted r ho]
    omega
  · rcases hone x u hu with ⟨hz, -⟩ | ⟨-, rfl⟩
    · exact absurd hz.symm (Side.other_ne x)
    · exact h.seen _ hx
  · have hzero : l.world.una x = 0 := hun.symm.trans h0
    have hno : r.tcb.counts p.dgram.parse ce = false :=
      Host.Carried.no_marks (h.inv.carried _ _ hx p hp) ((una_eq hx).symm.trans hzero) ce
    rw [hno] at hn
    change l.accepted + n = 0
    rw [h.quiet hzero, ← hn]
    rfl
  · apply Relation.ReflTransGen.single
    refine Tally.Step.received ?_ ?_ ?_
    · exact Nat.le_add_right l.accepted n
    · exact hle
    · simp only [tally, hun]

/-- An ACK arrives: it moves `SND.UNA` and its counter is read, or neither. -/
theorem Agrees.ack [CongestionControl κ] (h : Agrees x l) (hex : Tally.Exact (l.tally x))
    {s r : Host κ} {p : Packet} {m : Nat} {now : Instant} {ce : Bool}
    (hx : l.world.host x = some s) (ho : l.world.host x.other = some r)
    (hmem : (p, m) ∈ l.emitted) (hfresh : s.Fresh p)
    (hd : Host.Delivered 1 r s (s.tcb.onSegment now p.dgram.parse ce))
    (hsparse : s.una < (s.follow (s.tcb.onSegment now p.dgram.parse ce)).una → m < l.reported + 8) :
    Keeps x l { l with
      world := l.world.setHost x (s.follow (s.tcb.onSegment now p.dgram.parse ce))
      decoded := l.decoded +
        if s.tcb.reads p.dgram.parse then s.tcb.aceDelta p.dgram.parse else 0
      reported :=
        if s.una < (s.follow (s.tcb.onSegment now p.dgram.parse ce)).una then m
        else l.reported } := by
  have hecho := s.tcb.echo_onSegment now p.dgram.parse ce
  have hcarried : p.dgram.repr.flags.rst = false → r.Carried p := by
    have : p ∈ l.world.wire x.other := by
      rw [← h.wire]
      exact List.mem_map.mpr ⟨_, hmem, rfl⟩
    exact h.inv.carried _ _ ho p this
  have hadv := Host.segment_advances (h.inv.ok _ _ hx) (h.inv.linked _ _ _ hx ho) hcarried hfresh
    (s.tcb.core_onSegment now p.dgram.parse ce)
  generalize s.tcb.onSegment now p.dgram.parse ce = t at hd hecho hsparse hadv
  have hen : s.tcb.ccKind.ecn = true := h.ecn _ _ hx
  have hkind : t.ccKind = s.tcb.ccKind ∧ t.accecnAceSeen =
      if s.tcb.reads p.dgram.parse then p.dgram.parse.ace % 8 else s.tcb.accecnAceSeen := by
    have hk : t.ccKind = t.echo.1 := rfl
    have hc : t.accecnAceSeen = t.echo.2.accecnAceSeen := rfl
    rw [hk, hc, hecho, Tcb.echoAfter]
    cases s.tcb.counts p.dgram.parse ce <;> cases s.tcb.reads p.dgram.parse <;>
      simp [Tcb.echoCount, Tcb.echoRead, Tcb.echo, hen]
  have hun : (l.world.setHost x (s.follow t)).una x = (s.follow t).una := una_eq (World.host_setHost ..)
  have hrc : (l.world.setHost x (s.follow t)).rcv x.other = l.world.rcv x.other := by
    have := (rcv_setHost l.world x (s.follow t) none).2
    rwa [World.transmit_none] at this
  have hmark : m ≤ l.accepted :=
    (hex.below (p.ackPos, m) (List.mem_map.mpr ⟨_, hmem, rfl⟩)).2
  have hrep : l.reported ≤ l.accepted := hex.taken_le
  -- what is left: the counter read, the reported count, and the step of the tally
  suffices hkey : ∀ d q : Nat,
      d = (if s.tcb.reads p.dgram.parse then s.tcb.aceDelta p.dgram.parse else 0) →
      q = (if s.una < (s.follow t).una then m else l.reported) →
      t.accecnAceSeen = (5 + q) % 8 ∧ Relation.ReflTransGen (Tally.Step 8) (l.tally x)
        { l.tally x with edge := (s.follow t).una, taken := q, sum := l.decoded + d } by
    obtain ⟨hseen, hsteps⟩ := hkey _ _ rfl rfl
    refine ⟨⟨?_, ?_, fun z u hu => ?_, fun u hu => ?_, fun u hu => ?_, h.stamped, fun h0 => ?_⟩, ?_⟩
    · exact h.inv.deliver hx ho hd
    · rw [World.wire_setHost]
      exact h.wire
    · rcases Side.eq_or_other x z with rfl | rfl
      · rw [World.host_setHost] at hu
        cases hu
        change t.ccKind.ecn = true
        rw [hkind.1]
        exact hen
      · rw [World.host_setHost_other] at hu
        exact h.ecn _ _ hu
    · rw [World.host_setHost_other] at hu
      exact h.counted u hu
    · rw [World.host_setHost] at hu
      cases hu
      exact hseen
    · apply h.quiet
      have hgrow := hd.grows.una
      have h0' : (s.follow t).una = 0 := hun.symm.trans h0
      rw [una_eq hx]
      omega
    · simp only [tally, hun, hrc]
      exact hsteps
  rintro d q rfl rfl
  have hedge : (l.tally x).edge = s.una := una_eq hx
  cases hadv with
  | stands hu hno =>
    have hsame : { l.tally x with edge := (s.follow t).una, taken := l.reported, sum := l.decoded + 0 } =
        l.tally x := by
      rw [hu, ← hedge]
      rfl
    have hstay : ¬ s.una < (s.follow t).una := by omega
    have hnever : ¬ s.tcb.reads p.dgram.parse = true := by simp [hno]
    rw [if_neg hstay, if_neg hnever, hkind.2, if_neg hnever, hsame]
    exact ⟨h.seen _ hx, .refl⟩
  | opens hu0 hu hpos hno =>
    -- the end of the handshake: nothing was accepted yet
    have hzero : l.accepted = 0 := h.quiet ((una_eq hx).trans hu0)
    have hm0 : m = l.reported := by omega
    have hmove : s.una < (s.follow t).una := by omega
    have hnever : ¬ s.tcb.reads p.dgram.parse = true := by simp [hno]
    rw [if_pos hmove, if_neg hnever, hkind.2, if_neg hnever, hm0]
    refine ⟨h.seen _ hx, .single ?_⟩
    have htake := Tally.Step.take (n := 8) (s := l.tally x) (p.ackPos, m)
      (List.mem_map.mpr ⟨_, hmem, rfl⟩) (by rw [hedge]; exact hu0 ▸ hpos) (hsparse hmove)
    have hdelta : Tally.delta 8 (l.tally x).taken m = 0 := by
      rw [hm0]
      exact Tally.delta_self (by omega)
    rw [hdelta] at htake
    rw [hu, ← hm0]
    exact htake
  | reads hlt hu hrst hsyn hyes =>
    have hmove : s.una < (s.follow t).una := by omega
    rw [if_pos hmove, if_pos hyes, hkind.2, if_pos hyes, h.delta hx hmem hrst hsyn]
    refine ⟨?_, .single ?_⟩
    · rw [h.stamped _ hmem hrst hsyn]
      exact Nat.mod_mod _ _
    · have htake := Tally.Step.take (n := 8) (s := l.tally x) (p.ackPos, m)
        (List.mem_map.mpr ⟨_, hmem, rfl⟩) (by rw [hedge]; exact hlt) (hsparse hmove)
      rw [hu]
      exact htake

theorem step_eq [CongestionControl κ] {act : Action} (h : l.step x act = some l') :
    ∃ w', l.world.apply act = some w' ∧ l' =
      { world := w'
        accepted := l.accepted + l.marks x act
        emitted := l.emitted ++ (l.emits x w').map fun p => (p, l.accepted)
        decoded := l.decoded + l.decodes x act
        reported := (l.moves x w' act).getD l.reported } := by
  obtain ⟨w', hw, rfl⟩ := Option.map_eq_some_iff.mp h
  exact ⟨w', hw, rfl⟩

/-- Nothing is recorded of an action that is not a delivery. -/
theorem still [CongestionControl κ] (x : Side) (l : Ledger κ) (act : Action) (w' : World κ)
    (hact : ∀ y i now ce, act ≠ .deliver y i now ce) :
    l.marks x act = 0 ∧ l.decodes x act = 0 ∧ l.moves x w' act = none := by
  cases act with
  | deliver y i now ce => exact absurd rfl (hact y i now ce)
  | _ => exact ⟨rfl, rfl, rfl⟩

theorem emits_setHost (y : Side) (r : Host κ) : l.emits x (l.world.setHost y r) = [] := by
  rw [emits, World.wire_setHost, List.drop_length]

/-- What a delivery records. -/
theorem delivered [CongestionControl κ] (x : Side) {y : Side} {i : Nat} (now : Instant) (ce : Bool)
    {r : Host κ} {p : Packet} (hy : l.world.host y = some r)
    (hp : (l.world.wire y.other)[i]? = some p) :
    l.marks x (.deliver y i now ce) =
        (if y = x.other then (r.tcb.counts p.dgram.parse ce).toNat else 0) ∧
      l.decodes x (.deliver y i now ce) =
        (if y = x then (if r.tcb.reads p.dgram.parse then r.tcb.aceDelta p.dgram.parse else 0)
          else 0) := by
  constructor
  · simp only [marks, delivery]
    split
    · rename_i hz
      subst hz
      simp only [hy, hp, Option.bind_some, Option.map_some, Option.getD_some]
    · rfl
  · simp only [decodes, delivery]
    split
    · rename_i hz
      subst hz
      simp only [hy, hp, Option.bind_some, Option.map_some, Option.getD_some]
    · rfl

/-- One action of the world is a few steps of the tally, and the Tcbs still agree
with the ledger. -/
theorem refines [CongestionControl κ] {act : Action} (h : Agrees x l)
    (hex : Tally.Exact (l.tally x)) (hecn : act.marking = true) (hsparse : l.Sparse x act)
    (hprompt : l.world.Prompt act) (hstep : l.step x act = some l') : Keeps x l l' := by
  obtain ⟨w', happly, rfl⟩ := step_eq hstep
  have hother : ∀ {y z : Side} {s : Host κ}, l.world.host y = some s →
      (∃ p, p ∈ l.world.wire z) → z = y.other → ∃ r, l.world.host z = some r := by
    rintro y z s - ⟨p, hp⟩ -
    rcases hr : l.world.host z with _ | r
    · rw [h.inv.silent _ hr] at hp
      cases hp
    · exact ⟨r, rfl⟩
  have htimely : World.Timely 1 l.world act := by
    cases act with
    | deliver y i now ce =>
      intro r hr s hs p hp
      exact ⟨hprompt r hr p hp, Host.within_one (h.inv.carried _ _ hs p (List.mem_of_getElem? hp))⟩
    | _ => exact trivial
  have hinv : World.Inv 1 w' := World.inv_step le_rfl h.inv htimely happly
  cases World.apply_steps happly with
  | connect y loc remote iss now mss kind hy =>
    obtain ⟨h1, h2, h3⟩ := still x l (.connect y loc remote iss now mss kind)
      (l.world.setHost y (.fresh _)) (by simp)
    rw [h1, h2, h3, emits_setHost]
    have hk : (Tcb.setCongestionControl (κ := κ) (Tcb.newSynSent loc remote iss now mss) kind).echo =
        (kind, ⟨aceInit, aceInit⟩) := Tcb.echo_setCongestionControl _ kind
    simpa using h.opened hex hy hinv (by rw [← hecn]; exact congrArg (fun e => e.1.ecn) hk)
      (congrArg Prod.snd hk)
  | accept y i offered iss now mss kind p hy hp _ =>
    obtain ⟨h1, h2, h3⟩ := still x l (.accept y i offered iss now mss kind)
      (l.world.setHost y (.fresh _)) (by simp)
    rw [h1, h2, h3, emits_setHost]
    have hk : (Tcb.setCongestionControl (κ := κ) (Tcb.newSynReceived p.dgram.dst p.dgram.src
        (offered.restrict p.dgram.parse) iss now mss) kind).echo = (kind, ⟨aceInit, aceInit⟩) :=
      Tcb.echo_setCongestionControl _ kind
    simpa using h.opened hex hy hinv (by rw [← hecn]; exact congrArg (fun e => e.1.ecn) hk)
      (congrArg Prod.snd hk)
  | own act y r i hy hact =>
    have hno : ∀ seg now ce, i ≠ .segment seg now ce := by
      intro seg now ce he
      subst he
      cases act <;> simp [Action.own] at hact
    obtain ⟨h1, h2, h3⟩ := still x l act
      ((l.world.setHost y (r.input i).1).transmit y ((r.input i).2.map r.label))
      (by rintro z j now ce rfl; simp [Action.own] at hact)
    rw [h1, h2, h3]
    refine h.acted hy (Host.acted_input (h.inv.ok _ _ hy) (h.inv.heard le_rfl hy) hno)
      (Host.echo_input hno) (fun p hp => ?_) (fun p hp hrst hsyn => ?_)
    · obtain ⟨d, -, rfl⟩ := Option.map_eq_some_iff.mp hp
      rfl
    · obtain ⟨d, hd, rfl⟩ := Option.map_eq_some_iff.mp hp
      exact Host.stamps_input i d hd hrst hsyn (h.ecn _ _ hy)
  | deliver y i now ce r p hy hp =>
    have hmem := List.mem_of_getElem? hp
    obtain ⟨s, hs⟩ := hother hy ⟨p, hmem⟩ rfl
    obtain ⟨h1, h2⟩ := delivered x now ce hy hp
    obtain ⟨hfresh, hwithin⟩ := htimely r hy s hs p hp
    have hdel := Host.onSegment_linked (h.inv.ok _ _ hy) (h.inv.ok _ _ hs)
      (h.inv.linked _ _ _ hs (by rw [Side.other_other]; exact hy)) (h.inv.linked _ _ _ hy hs) le_rfl
      (h.inv.carried _ _ hs p hmem) hfresh hwithin (r.tcb.core_onSegment now p.dgram.parse ce)
    rw [h1, h2, emits_setHost]
    rcases Side.eq_or_other x y with rfl | rfl
    · obtain ⟨m, hm, hmmem⟩ := h.lookup hp
      have hno : ¬ y = y.other := fun he => Side.other_ne y he.symm
      have hgrow : (l.world.una y < (l.world.setHost y
          (r.follow (r.tcb.onSegment now p.dgram.parse ce))).una y) =
            (r.una < (r.follow (r.tcb.onSegment now p.dgram.parse ce)).una) := by
        rw [una_eq hy, una_eq (World.host_setHost ..)]
      have hack := h.ack hex hy hs hmmem hfresh hdel fun hlt => by
        refine (hsparse _ happly m ?_).1
        simp only [moves, true_and, hgrow, hlt, if_true, hm]
        rfl
      have hmoves : (l.moves y (l.world.setHost y
          (r.follow (r.tcb.onSegment now p.dgram.parse ce))) (.deliver y i now ce)).getD l.reported =
            if r.una < (r.follow (r.tcb.onSegment now p.dgram.parse ce)).una then m
            else l.reported := by
        simp only [moves, true_and, hgrow]
        split
        · rw [hm]
          rfl
        · rfl
      rw [hmoves, if_neg hno, if_pos rfl]
      simpa using hack
    · have hback : l.world.host x = some s := by
        rw [Side.other_other] at hs
        exact hs
      have hdata := h.data hback hy (by rwa [Side.other_other] at hmem) hdel
      have hmoves : l.moves x (l.world.setHost x.other
          (r.follow (r.tcb.onSegment now p.dgram.parse ce))) (.deliver x.other i now ce) = none := by
        simp [moves]
      rw [hmoves, if_pos rfl, if_neg (Side.other_ne x)]
      simpa using hdata

end Step

/-! ## Runs -/

theorem agrees_init (x : Side) : Agrees x (init : Ledger κ) ∧ Tally.Exact ((init : Ledger κ).tally x) := by
  have hnone : ∀ y, (World.init : World κ).host y = none := fun y => by cases y <;> rfl
  have hwire : ∀ y, (World.init : World κ).wire y = [] := fun y => by cases y <;> rfl
  constructor
  · refine ⟨World.inv_init, (hwire _).symm, fun y h hy => ?_, fun r hr => ?_, fun s hs => ?_,
      fun e he => ?_, fun _ => rfl⟩
    · exact absurd (hy.symm.trans (hnone y)) (by simp)
    · exact absurd (hr.symm.trans (hnone _)) (by simp)
    · exact absurd (hs.symm.trans (hnone _)) (by simp)
    · cases he
  · exact ⟨List.Pairwise.nil, fun q hq => (by cases hq), fun q hq => (by cases hq), le_rfl, rfl⟩

/-- AccECN marks are conserved: what `x` has decoded is what the other side had
accepted when it emitted the last ACK that moved `SND.UNA`. -/
theorem marks_conserved [CongestionControl κ] {acts : List Action}
    (hecn : ∀ act ∈ acts, act.marking = true)
    (hsparse : Run.Along (step x) (fun l act => l.Sparse x act) (init : Ledger κ) acts)
    (hprompt : Run.Along (step x) (fun l act => l.world.Prompt act) (init : Ledger κ) acts)
    (hrun : Run.run (step x) (init : Ledger κ) acts = some l) : l.decoded = l.reported := by
  suffices hall : Agrees x l ∧ Tally.Exact (l.tally x) from hall.2.sum_eq
  have hecn' : Run.Along (step x) (fun _ act => act.marking = true) (init : Ledger κ) acts :=
    Run.along_of_forall hecn init
  have hcond := Run.along_and (Run.along_and hecn' hsparse) hprompt
  refine Run.run_invariant_along (I := fun l : Ledger κ => Agrees x l ∧ Tally.Exact (l.tally x))
    (fun l act l' hi hc hs => ?_) (agrees_init x) hcond hrun
  obtain ⟨⟨h1, h2⟩, h3⟩ := hc
  have hkeep := refines hi.1 hi.2 h1 h2 h3 hs
  exact ⟨hkeep.agrees, Tally.exact_run hkeep.steps hi.2⟩

/-- A handshake, and three octets in two segments that arrive the wrong way round,
both CE-marked and one of them twice. -/
def reordered : List Action :=
  [.connect .a ⟨1, 1000⟩ ⟨2, 80⟩ (SeqNumber.new 100) ⟨0⟩ 65495 .dctcp, .poll .a ⟨0⟩,
    .accept .b 0 ⟨true, true, true, true⟩ (SeqNumber.new 4294967290) ⟨0⟩ 65495 .prague, .poll .b ⟨0⟩,
    .deliver .a 0 ⟨0⟩ false, .poll .a ⟨0⟩, .deliver .b 1 ⟨0⟩ false,
    .send .a (Bytes.ofList [1, 2]), .poll .a ⟨0⟩, .send .a (Bytes.ofList [3]), .poll .a ⟨0⟩,
    .deliver .b 3 ⟨0⟩ true, .poll .b ⟨0⟩, .deliver .b 2 ⟨0⟩ true, .deliver .b 2 ⟨0⟩ true, .poll .b ⟨0⟩,
    .deliver .a 2 ⟨0⟩ false, .deliver .a 1 ⟨0⟩ false]

theorem marks_conserved_reordered : ∃ l : Ledger Reno, Run.run (step .a) init reordered = some l ∧
    l.accepted = 2 ∧ l.reported = 2 ∧ l.decoded = l.reported := by
  obtain ⟨l, hrun, h1, h2⟩ := Run.exists_run (step .a) (init : Ledger Reno) reordered
    (fun l => l.accepted = 2 ∧ l.reported = 2) (by decide +kernel)
  exact ⟨l, hrun, h1, h2, marks_conserved (by decide) (by decide +kernel) (by decide +kernel) hrun⟩

end Ledger

end Ferrumnet
