import Mathlib.Data.List.Perm.Basic
import Ferrumnet.Lib.Endless
import Ferrumnet.Settling
import Ferrumnet.Fifo
import Ferrumnet.Bbr
import Ferrumnet.Synth

/-
  Two connections left to themselves.

  Segments are on their way between two connections. No application calls, no timer fires
  and the clock stands still: segments are delivered and transmitted, in any order.

  A connection answers segments that carry no sequence number: one that reaches TIME-WAIT,
  fails PAWS or the acceptability test, or acknowledges what was not sent. The answer is
  such a segment too, and the other side may answer it in the same way.

  1. `exchange_ends` — an exchange ends exactly if only finitely many deliveries are such
     echoes.
  2. `acks_echo` — two connections in TIME-WAIT answer each other for ever.
-/

namespace Ferrumnet

/-! ## The controllers count duplicate ACKs -/

theorem Reno.onDupAckTo_counts (c : Reno) (w : Nat) : (c.onDupAckTo w).1.dupAcks = min (c.dupAcks + 1) 255 := by
  unfold onDupAckTo
  dsimp only
  split <;> rfl

instance : DupAcks Reno where
  dupAcks c := c.dupAcks
  fires := WindowLaws.fires
  counts c _ f := c.onDupAckTo_counts (c.lossWindow f)
  onTransmit _ _ _ _ _ _ := rfl

instance : DupAcks Dctcp where
  dupAcks c := c.dupAcks
  fires := WindowLaws.fires
  counts c _ f := c.toReno.onDupAckTo_counts (c.lossWindow f)
  onTransmit _ _ _ _ _ _ := rfl

instance : DupAcks Prague where
  dupAcks c := c.dupAcks
  fires := WindowLaws.fires
  counts c _ f := c.toReno.onDupAckTo_counts (c.lossWindow f)
  onTransmit _ _ _ _ _ _ := rfl

instance : DupAcks Learned where
  dupAcks c := c.dupAcks
  fires := WindowLaws.fires
  counts c _ f := c.toReno.onDupAckTo_counts (c.lossSsthresh f)
  onTransmit _ _ _ _ _ _ := rfl

instance : DupAcks Synth where
  dupAcks c := c.dupAcks
  fires c _ f := (c.toReno.onDupAckTo_spec (c.lossTarget f)).1
  counts c _ f := c.toReno.onDupAckTo_counts (c.lossTarget f)
  onTransmit _ _ _ _ _ _ := rfl

theorem Bbr.onDupAck_counts (b : Bbr) :
    b.onDupAck.2 = decide (b.dupAcks = 2) ∧ b.onDupAck.1.dupAcks = min (b.dupAcks + 1) 255 := by
  have hcount : min (b.dupAcks + 1) 255 = 3 ↔ b.dupAcks = 2 := by omega
  simp only [onDupAck, hcount]
  split
  · rename_i h
    exact ⟨(decide_eq_true h).symm, rfl⟩
  · rename_i h
    exact ⟨(decide_eq_false h).symm, rfl⟩

instance : DupAcks Bbr where
  dupAcks b := b.dupAcks
  fires b _ _ := b.onDupAck_counts.1
  counts b _ _ := b.onDupAck_counts.2
  onTransmit _ _ _ _ _ _ := rfl

/-! ## The connections of a world -/

namespace World

variable {κ : Type} [CongestionControl κ] {w w' : World κ}

/-- One host moves on. -/
theorem Moves.boarded {r r' : Host κ} {theirs : List Packet} {o : Option Packet} (hm : Moves r theirs r' o)
    (hok : r.Ok) (hboard : r.Board) : r'.Ok ∧ r'.Board := by
  cases hm with
  | stands => exact ⟨hok, hboard⟩
  | segment p now ce =>
    exact ⟨hok.segment (r.tcb.core_onSegment now p.dgram.parse ce), hboard.onSegment hok p.dgram.parse now ce⟩
  | own i _ => exact ⟨hok.input i, hboard.input hok i⟩

theorem boarded_run {acts : List Action} (hr : Run.run apply init acts = some w) :
    ∀ x r, w.host x = some r → r.Ok ∧ r.Board := by
  refine Run.run_invariant (I := fun w : World κ => ∀ x r, w.host x = some r → r.Ok ∧ r.Board)
    (fun w act w' h he x r' hx' => ?_) (fun x r hx => ?_) hr
  · have hsteps := apply_steps he
    cases hx : w.host x with
    | none =>
      have hopens := hsteps.born hx hx'
      exact ⟨hopens.ok, Host.board_blank hopens.ok hopens.blank⟩
    | some r =>
      obtain ⟨r'', o, hr'', -, hm⟩ := hsteps.moves hx
      cases hx'.symm.trans hr''
      exact hm.boarded (h x r hx).1 (h x r hx).2
  · cases x <;> cases hx

end World

/-! ## The exchange -/

/-- Two connections and the segments between them. -/
structure Exchange (κ : Type) where
  host : Side → Host κ
  /-- The segments on their way to each side. -/
  flight : Side → List TcpPacket
  /-- How many segments have been sent. -/
  emitted : Nat
  /-- How many deliveries have been echoes. -/
  echoed : Nat

namespace Exchange

/-- What happens while the applications and the clock stand still. -/
inductive Act where
  | deliver (x : Side) (i : Nat) (ce : Bool)
  | poll (x : Side)

variable {κ : Type} [CongestionControl κ]

def start (host : Side → Host κ) (flight : Side → List TcpPacket) : Exchange κ :=
  { host := host, flight := flight, emitted := 0, echoed := 0 }

/-- The side with a Tcb of its own. -/
def withTcb (e : Exchange κ) (x : Side) (t : Tcb κ) : Side → Host κ :=
  Function.update e.host x ((e.host x).follow t)

def deliver (e : Exchange κ) (now : Instant) (x : Side) (i : Nat) (ce : Bool) (p : TcpPacket) : Exchange κ :=
  { host := e.withTcb x ((e.host x).tcb.onSegment now p ce)
    flight := Function.update e.flight x ((e.flight x).eraseIdx i)
    emitted := e.emitted
    echoed := if (e.host x).tcb.Echoes p then e.echoed + 1 else e.echoed }

def poll (e : Exchange κ) (now : Instant) (x : Side) : Exchange κ :=
  let q := (e.host x).tcb.pollTransmit now
  { host := e.withTcb x q.1
    flight := Function.update e.flight x.other (e.flight x.other ++ (q.2.map Datagram.parse).toList)
    emitted := e.emitted + q.2.toList.length
    echoed := e.echoed }

/-- One step at the time `now`. -/
def step (now : Instant) (e : Exchange κ) : Act → Option (Exchange κ)
  | .deliver x i ce => ((e.flight x)[i]?).map (e.deliver now x i ce)
  | .poll x => some (e.poll now x)

/-! ## What is ahead of both sides -/

/-- Over both sides. -/
def total (f : Side → Nat) : Nat := f .a + f .b

/-- One side changes. -/
theorem total_update {α : Type} (f : Side → α) (g : Side → α → Nat) (x : Side) (v : α) :
    (total fun y => g y (Function.update f x v y)) + g x (f x) = (total fun y => g y (f y)) + g x v := by
  cases x with
  | a =>
    simp only [total, Function.update_self, Function.update_of_ne (show Side.b ≠ Side.a by decide)]
    omega
  | b =>
    simp only [total, Function.update_self, Function.update_of_ne (show Side.a ≠ Side.b by decide)]
    omega

/-- The opening SYNs among the segments. -/
def bareSyns (l : List TcpPacket) : Nat := (l.map fun p => p.bareSyn.toNat).sum

def weights (l : List TcpPacket) : Nat := (l.map TcpPacket.weight).sum

variable [DupAcks κ]

def ahead (e : Exchange κ) (now : Instant) : Nat :=
  (total fun x => (e.host x).ahead now) + total fun x => bareSyns (e.flight x)

omit [CongestionControl κ] [DupAcks κ] in
def toil (e : Exchange κ) : Nat := total fun x => (e.host x).tcb.toil

def owed (e : Exchange κ) : Nat := (total fun x => (e.host x).tcb.replies) + total fun x => weights (e.flight x)

/-- How far the exchange is from its end. -/
def distance (e : Exchange κ) (now : Instant) : ℕ ×ₗ ℕ ×ₗ ℕ := Endless.rank (e.ahead now) e.toil e.owed

variable {e e' : Exchange κ} {now : Instant} {x : Side}

omit [CongestionControl κ] [DupAcks κ] in
/-- A delivered segment is on its way no more. -/
theorem sum_eraseIdx (f : TcpPacket → Nat) {l : List TcpPacket} {i : Nat} {p : TcpPacket} (hp : l[i]? = some p) :
    ((l.eraseIdx i).map f).sum + f p = (l.map f).sum := by
  obtain ⟨hi, rfl⟩ := List.getElem?_eq_some_iff.mp hp
  have hperm := ((l.getElem_cons_eraseIdx_perm hi).map f).sum_eq
  rw [List.map_cons, List.sum_cons] at hperm
  omega

/-- What changes of the counts when one side has a new Tcb and one side other segments on
their way. -/
theorem account (e' : Exchange κ) {t : Tcb κ} {y : Side} {l : List TcpPacket} (hhost : e'.host = e.withTcb x t)
    (hflight : e'.flight = Function.update e.flight y l) (now : Instant) :
    e'.ahead now + ((e.host x).ahead now + bareSyns (e.flight y)) =
        e.ahead now + (((e.host x).follow t).ahead now + bareSyns l) ∧
      e'.toil + (e.host x).tcb.toil = e.toil + t.toil ∧
      e'.owed + ((e.host x).tcb.replies + weights (e.flight y)) = e.owed + (t.replies + weights l) := by
  have hahead := total_update e.host (fun _ r => r.ahead now) x ((e.host x).follow t)
  have htoil := total_update e.host (fun _ r => r.tcb.toil) x ((e.host x).follow t)
  have hreplies := total_update e.host (fun _ r => r.tcb.replies) x ((e.host x).follow t)
  have hsyns := total_update e.flight (fun _ l => bareSyns l) y l
  have hweights := total_update e.flight (fun _ l => weights l) y l
  simp only [ahead, toil, owed, hhost, hflight, Exchange.withTcb]
  rw [Host.follow_tcb] at htoil hreplies
  refine ⟨?_, htoil, ?_⟩
  · omega
  · omega

/-! ## One step -/

/-- Both connections are well formed. -/
def Sound (e : Exchange κ) : Prop := ∀ x, (e.host x).Ok ∧ (e.host x).Board

omit [CongestionControl κ] [DupAcks κ] in
/-- What holds of both sides still does, if it holds of the side that moved. -/
theorem withTcb_forall {P : Host κ → Prop} (h : ∀ y, P (e.host y)) {t : Tcb κ} (ht : P ((e.host x).follow t)) :
    ∀ y, P (e.withTcb x t y) := by
  intro y
  by_cases hy : y = x
  · subst hy
    rw [withTcb, Function.update_self]
    exact ht
  · rw [withTcb, Function.update_of_ne hy]
    exact h y

omit [DupAcks κ] in
theorem Sound.step (h : e.Sound) {act : Act} (he : e.step now act = some e') : e'.Sound := by
  cases act with
  | deliver x i ce =>
    obtain ⟨p, -, rfl⟩ := Option.map_eq_some_iff.mp he
    exact withTcb_forall (P := fun r => r.Ok ∧ r.Board) h
      ⟨(h x).1.segment ((e.host x).tcb.core_onSegment now p ce), (h x).2.onSegment (h x).1 p now ce⟩
  | poll x =>
    cases he
    exact withTcb_forall (P := fun r => r.Ok ∧ r.Board) h ⟨(h x).1.poll now, (h x).2.poll (h x).1 now⟩

/-- A delivery that is no echo leads no farther away. -/
theorem Sound.deliver_le (h : e.Sound) {i : Nat} {p : TcpPacket} (hp : (e.flight x)[i]? = some p) (ce : Bool)
    (hno : ¬ (e.host x).tcb.Echoes p) : (e.deliver now x i ce p).distance now ≤ e.distance now := by
  have hsyn : bareSyns ((e.flight x).eraseIdx i) + p.bareSyn.toNat = bareSyns (e.flight x) :=
    sum_eraseIdx (fun p => p.bareSyn.toNat) hp
  have hweight : weights ((e.flight x).eraseIdx i) + p.weight = weights (e.flight x) := sum_eraseIdx _ hp
  obtain ⟨hahead, htoil, howed⟩ := account (e.deliver now x i ce p) rfl rfl now
  refine Endless.rank_le ?_
  cases (h x).1.hears now p ce hno with
  | nearer hlt => exact .inl (by omega)
  | syn hbare hle =>
    rw [hbare] at hsyn
    change _ + 1 = _ at hsyn
    exact .inl (by omega)
  | level hle htoil' hreplies => exact .inr ⟨by omega, by omega, by omega⟩

/-- Nor does a transmission, and every segment sent leads nearer. -/
theorem Sound.poll_lt (h : e.Sound) (now : Instant) (x : Side) : (e.poll now x).distance now ≤ e.distance now ∧
    ((e.poll now x).emitted ≠ e.emitted → (e.poll now x).distance now < e.distance now) := by
  obtain ⟨hahead, htoil, howed⟩ := account (e.poll now x) rfl rfl now
  have hnew : ∀ d, ((e.host x).tcb.pollTransmit now).2 = some d →
      bareSyns (e.flight x.other ++ ((((e.host x).tcb.pollTransmit now).2).map Datagram.parse).toList) =
          bareSyns (e.flight x.other) + d.parse.bareSyn.toNat ∧
        weights (e.flight x.other ++ ((((e.host x).tcb.pollTransmit now).2).map Datagram.parse).toList) =
          weights (e.flight x.other) + d.parse.weight := by
    intro d hd
    rw [hd]
    simp [bareSyns, weights]
  have hlt : ∀ d, ((e.host x).tcb.pollTransmit now).2 = some d →
      (e.poll now x).distance now < e.distance now → (e.poll now x).distance now ≤ e.distance now ∧
        ((e.poll now x).emitted ≠ e.emitted → (e.poll now x).distance now < e.distance now) :=
    fun d _ hlt => ⟨hlt.le, fun _ => hlt⟩
  cases (h x).1.utters (h x).2 now with
  | silent hnone hle htoil' hreplies =>
    rw [hnone] at hahead howed
    simp only [Option.map_none, Option.toList_none, List.append_nil] at hahead howed
    refine ⟨Endless.rank_le (.inr ⟨by omega, by omega, by omega⟩), fun hne => absurd ?_ hne⟩
    change e.emitted + ((e.host x).tcb.pollTransmit now).2.toList.length = e.emitted
    rw [hnone]
    rfl
  | syn d hd hle =>
    obtain ⟨hsyns, hweights⟩ := hnew d hd
    have hone := Bool.toNat_le d.parse.bareSyn
    exact hlt d hd (Endless.rank_lt (.inl (by omega)))
  | toils d hd hbare hle htoil' =>
    obtain ⟨hsyns, hweights⟩ := hnew d hd
    rw [hbare] at hsyns
    change _ = _ + 0 at hsyns
    exact hlt d hd (Endless.rank_lt (.inr ⟨by omega, .inl (by omega)⟩))
  | replies d hd hbare hle htoil' hreplies =>
    obtain ⟨hsyns, hweights⟩ := hnew d hd
    rw [hbare] at hsyns
    change _ = _ + 0 at hsyns
    exact hlt d hd (Endless.rank_lt (.inr ⟨by omega, .inr ⟨by omega, by omega⟩⟩))

/-- One step that is no echo. -/
theorem Sound.step_le (h : e.Sound) {act : Act} (he : e.step now act = some e') : e.emitted ≤ e'.emitted ∧
    e.echoed ≤ e'.echoed ∧ (e'.echoed = e.echoed → e'.distance now ≤ e.distance now ∧
      (e'.emitted ≠ e.emitted → e'.distance now < e.distance now)) := by
  cases act with
  | deliver x i ce =>
    obtain ⟨p, hp, rfl⟩ := Option.map_eq_some_iff.mp he
    have hechoed : (e.deliver now x i ce p).echoed = if (e.host x).tcb.Echoes p then e.echoed + 1 else e.echoed := rfl
    rw [hechoed]
    by_cases hno : (e.host x).tcb.Echoes p
    · rw [if_pos hno]
      exact ⟨le_rfl, Nat.le_succ _, fun hsame => absurd hsame (Nat.succ_ne_self _)⟩
    · rw [if_neg hno]
      exact ⟨le_rfl, le_rfl, fun _ => ⟨h.deliver_le hp ce hno, fun hne => absurd rfl hne⟩⟩
  | poll x =>
    cases he
    exact ⟨Nat.le_add_right _ _, le_rfl, fun _ => h.poll_lt now x⟩

/-- How many segments are on their way. -/
def underway (e : Exchange κ) : Nat := total fun x => (e.flight x).length

omit [DupAcks κ] in
/-- An echo takes a segment off the way, and only a transmission puts one there. -/
theorem echoes_le {act : Act} (he : e.step now act = some e') :
    e'.echoed + e'.underway + e.emitted ≤ e.echoed + e.underway + e'.emitted := by
  cases act with
  | deliver x i ce =>
    obtain ⟨p, hp, rfl⟩ := Option.map_eq_some_iff.mp he
    obtain ⟨hi, -⟩ := List.getElem?_eq_some_iff.mp hp
    have htaken := total_update e.flight (fun _ l => l.length) x ((e.flight x).eraseIdx i)
    have hlen := List.length_eraseIdx_of_lt hi
    have hechoed : (e.deliver now x i ce p).echoed ≤ e.echoed + 1 := by
      simp only [Exchange.deliver]
      split
      · exact le_rfl
      · exact Nat.le_succ _
    have hunder : (e.deliver now x i ce p).underway = total fun y =>
      (Function.update e.flight x ((e.flight x).eraseIdx i) y).length := rfl
    have hunder' : e.underway = total fun y => (e.flight y).length := rfl
    change _ + _ + e.emitted ≤ _ + _ + e.emitted
    omega
  | poll x =>
    cases he
    have hput := total_update e.flight (fun _ l => l.length) x.other
      (e.flight x.other ++ (((e.host x).tcb.pollTransmit now).2.map Datagram.parse).toList)
    rw [List.length_append] at hput
    have hlen : ((((e.host x).tcb.pollTransmit now).2.map Datagram.parse).toList).length =
        ((e.host x).tcb.pollTransmit now).2.toList.length := by
      cases ((e.host x).tcb.pollTransmit now).2 <;> rfl
    have hunder : (e.poll now x).underway = total fun y => (Function.update e.flight x.other
      (e.flight x.other ++ (((e.host x).tcb.pollTransmit now).2.map Datagram.parse).toList) y).length := rfl
    have hunder' : e.underway = total fun y => (e.flight y).length := rfl
    have hemitted : (e.poll now x).emitted = e.emitted + ((e.host x).tcb.pollTransmit now).2.toList.length := rfl
    have hechoed : (e.poll now x).echoed = e.echoed := rfl
    omega

/-! ## Whole exchanges -/

/-- From any two connections that a run of the two endpoints reaches, and with any segments on
their way between them: an exchange at one instant sends only finitely many segments exactly if
only finitely many of its deliveries are echoes. -/
theorem exchange_ends {acts : List Action} {w : World κ} (hr : Run.run World.apply World.init acts = some w)
    {host : Side → Host κ} (hhost : ∀ x, w.host x = some (host x)) (flight : Side → List TcpPacket) (now : Instant)
    {trail : ℕ → Exchange κ} (h0 : trail 0 = start host flight)
    (hstep : ∀ n, ∃ act, (trail n).step now act = some (trail (n + 1))) :
    (∃ N, ∀ n, (trail n).emitted ≤ N) ↔ ∃ M, ∀ n, (trail n).echoed ≤ M := by
  have hsound : ∀ n, (trail n).Sound := by
    intro n
    induction n with
    | zero =>
      rw [h0]
      exact fun x => World.boarded_run hr x (host x) (hhost x)
    | succ n ih =>
      obtain ⟨act, he⟩ := hstep n
      exact ih.step he
  have hle : ∀ n, (trail n).emitted ≤ (trail (n + 1)).emitted ∧ (trail n).echoed ≤ (trail (n + 1)).echoed ∧
      ((trail (n + 1)).echoed = (trail n).echoed → (trail (n + 1)).distance now ≤ (trail n).distance now ∧
        ((trail (n + 1)).emitted ≠ (trail n).emitted →
          (trail (n + 1)).distance now < (trail n).distance now)) := by
    intro n
    obtain ⟨act, he⟩ := hstep n
    exact (hsound n).step_le he
  constructor
  · rintro ⟨N, hN⟩
    have hechoes : ∀ n, (trail n).echoed + (trail n).underway ≤ (trail 0).underway + (trail n).emitted := by
      intro n
      induction n with
      | zero =>
        have hzero : (trail 0).echoed = 0 := by rw [h0]; rfl
        omega
      | succ n ih =>
        obtain ⟨act, he⟩ := hstep n
        have hone := echoes_le he
        omega
    refine ⟨(trail 0).underway + N, fun n => ?_⟩
    have hn := hN n
    have he := hechoes n
    omega
  · intro hM
    exact Endless.spent_bounded (m := fun n => (trail n).distance now) (monotone_nat_of_le_succ fun n => (hle n).1)
      (monotone_nat_of_le_succ fun n => (hle n).2.1) (fun n => (hle n).2.2) hM

/-! ## Two connections in TIME-WAIT -/

/-- The connection is in TIME-WAIT and has no RST to send. -/
def Waits (r : Host κ) : Prop := r.tcb.state = .timeWait ∧ r.tcb.pendingReset = none

/-- Both connections are in TIME-WAIT. -/
def Lingers (e : Exchange κ) : Prop := ∀ x, Waits (e.host x)

/-- A segment without sequence numbers is on its way to the side. -/
def Comes (e : Exchange κ) (x : Side) : Prop := ∃ p ∈ e.flight x, p.weight = 1

theorem not_rst_of_weight {p : TcpPacket} (hp : p.weight = 1) : p.flags.rst = false := by
  by_contra hrst
  rw [TcpPacket.weight, if_pos (Bool.eq_true_of_not_eq_false hrst)] at hp
  exact absurd hp (by decide)

omit [DupAcks κ] in
/-- The segment leaves the connection owing an ACK, and its TIME-WAIT starts over. -/
theorem Lingers.deliver (h : e.Lingers) (hc : e.Comes x) (now : Instant) : ∃ act e', e.step now act = some e' ∧
    e'.Lingers ∧ e'.emitted = e.emitted ∧ (e'.host x).tcb.needsAck = true := by
  obtain ⟨p, hmem, hp⟩ := hc
  obtain ⟨i, hi⟩ := List.getElem?_of_mem hmem
  have hst := (h x).1
  have ht : (e.host x).tcb.onSegment now p false = { (e.host x).tcb with needsAck := true }.armTimeWait now := by
    rw [Tcb.onSegment, if_neg (by rw [hst]; decide), not_rst_of_weight hp, if_neg Bool.false_ne_true, if_pos hst]
  refine ⟨.deliver x i false, e.deliver now x i false p, congrArg (Option.map _) hi, ?_, rfl, ?_⟩
  · refine withTcb_forall (P := Waits) h ?_
    rw [Waits, Host.follow_tcb, ht]
    exact h x
  · change (e.withTcb x _ x).tcb.needsAck = true
    rw [Exchange.withTcb, Function.update_self, ht]
    rfl

omit [DupAcks κ] in
/-- The ACK that is owed is a segment without sequence numbers itself. -/
theorem Lingers.poll (h : e.Lingers) (hack : (e.host x).tcb.needsAck = true) (now : Instant) :
    ∃ act e', e.step now act = some e' ∧ e'.Lingers ∧ e'.emitted = e.emitted + 1 ∧ e'.Comes x.other := by
  obtain ⟨hst, hp⟩ := h x
  have hq : (e.host x).tcb.pollTransmit now =
      ({ (e.host x).tcb.clocked now with needsAck := false } : Tcb κ).emit (e.host x).tcb.sndNxt {} Bytes.empty := by
    have hturn : (e.host x).tcb.pollTransmit now = ((e.host x).tcb.clocked now).emitOwedAck := by
      unfold Tcb.pollTransmit
      dsimp only
      rw [hp]
      dsimp only
      -- the arms of the other states are closed
      split
      all_goals first | rfl | simp_all
    rw [hturn, Tcb.emitOwedAck, if_pos (show ((e.host x).tcb.clocked now).needsAck = true from hack)]
    rfl
  have hone : (e.poll now x).emitted = e.emitted + ((e.host x).tcb.pollTransmit now).2.toList.length := rfl
  refine ⟨.poll x, e.poll now x, rfl, ?_, ?_, ?_⟩
  · refine withTcb_forall (P := Waits) h ?_
    rw [Waits, Host.follow_tcb, hq]
    exact ⟨hst, hp⟩
  · rw [hone, hq]
    rfl
  · refine ⟨_, ?_, Tcb.weight_ack ({ (e.host x).tcb.clocked now with needsAck := false }) (e.host x).tcb.sndNxt⟩
    change _ ∈ Function.update e.flight x.other _ x.other
    rw [Function.update_self, hq]
    exact List.mem_append_right _ List.mem_cons_self

omit [DupAcks κ] in
/-- Two connections in TIME-WAIT answer one such segment for ever. -/
theorem Lingers.volley (h : e.Lingers) (hc : e.Comes x) (now : Instant) : ∃ trail : ℕ → Exchange κ, trail 0 = e ∧
    (∀ n, ∃ act, (trail n).step now act = some (trail (n + 1))) ∧
    ∀ n, (trail (2 * n)).emitted = e.emitted + n ∧ (trail (2 * n)).Lingers := by
  -- a delivery leads to a state that owes an ACK, and a transmission away from it
  let Volley : ℕ → Exchange κ → Prop := fun n e' => e'.Lingers ∧ e'.emitted = e.emitted + n / 2 ∧
    ∃ y, if n % 2 = 0 then e'.Comes y else (e'.host y).tcb.needsAck = true
  have hnext : ∀ n e', Volley n e' → ∃ act e'', e'.step now act = some e'' ∧ Volley (n + 1) e'' := by
    rintro n e' ⟨hwait, hcount, y, hy⟩
    by_cases hn : n % 2 = 0
    · rw [if_pos hn] at hy
      obtain ⟨act, e'', he, hwait', hcount', hack⟩ := hwait.deliver hy now
      refine ⟨act, e'', he, hwait', by omega, y, ?_⟩
      rw [if_neg (by omega)]
      exact hack
    · rw [if_neg hn] at hy
      obtain ⟨act, e'', he, hwait', hcount', hcome⟩ := hwait.poll hy now
      refine ⟨act, e'', he, hwait', by omega, y.other, ?_⟩
      rw [if_pos (by omega)]
      exact hcome
  obtain ⟨trail, h0, htrail⟩ := Endless.exists_trail hnext (s := e) ⟨h, rfl, x, hc⟩
  refine ⟨trail, h0, fun n => (htrail n).2, fun n => ?_⟩
  obtain ⟨hwait, hcount, -⟩ := (htrail (2 * n)).1
  exact ⟨by omega, hwait⟩

/-- Both sides close at once; each takes in the FIN of the other and its ACK. -/
def closedAtOnce : List Action :=
  World.handshake ++ [.close .a, .close .b, .poll .a ⟨0⟩, .poll .b ⟨0⟩,
    .deliver .a 1 ⟨0⟩ false, .deliver .b 2 ⟨0⟩ false, .poll .a ⟨0⟩, .poll .b ⟨0⟩,
    .deliver .a 2 ⟨0⟩ false, .deliver .b 3 ⟨0⟩ false]

theorem closedAtOnce_timeWait : ∃ w : World Reno, Run.run World.apply World.init closedAtOnce = some w ∧
    (∃ r ∈ w.hostA, r.tcb.state = .timeWait ∧ r.tcb.pendingReset = none) ∧
    (∃ r ∈ w.hostB, r.tcb.state = .timeWait ∧ r.tcb.pendingReset = none) ∧
    ∃ p ∈ w.wireB, p.dgram.parse.weight = 1 :=
  Run.exists_run World.apply World.init closedAtOnce (fun w =>
    (∃ r ∈ w.hostA, r.tcb.state = .timeWait ∧ r.tcb.pendingReset = none) ∧
    (∃ r ∈ w.hostB, r.tcb.state = .timeWait ∧ r.tcb.pendingReset = none) ∧
    ∃ p ∈ w.wireB, p.dgram.parse.weight = 1) (by decide +kernel)

/-- One segment on its way to side `a`, none to side `b`. -/
def toA (p : TcpPacket) : Side → List TcpPacket
  | .a => [p]
  | .b => []

/-- A run leads both sides to TIME-WAIT, and a duplicate of an ACK is on its way. -/
theorem exists_lingers : ∃ (w : World Reno) (host : Side → Host Reno) (p : Packet),
    Run.run World.apply World.init closedAtOnce = some w ∧ (∀ x, w.host x = some (host x)) ∧ p ∈ w.wire .b ∧
      (start host (toA p.dgram.parse)).Lingers ∧ (start host (toA p.dgram.parse)).Comes .a := by
  obtain ⟨w, hr, ⟨r, hr1, hwait⟩, ⟨s, hs1, hwait'⟩, p, hp, hweight⟩ := closedAtOnce_timeWait
  refine ⟨w, Side.rec r s, p, hr, ?_, hp, ?_, p.dgram.parse, List.mem_cons_self, hweight⟩
  · intro x
    cases x with
    | a => exact hr1
    | b => exact hs1
  · intro x
    cases x with
    | a => exact hwait
    | b => exact hwait'

/-- A duplicate of one ACK, and two connections in TIME-WAIT exchange ACKs for ever. -/
theorem acks_echo : ∃ (w : World Reno) (host : Side → Host Reno) (p : Packet) (trail : ℕ → Exchange Reno),
    Run.run World.apply World.init closedAtOnce = some w ∧ (∀ x, w.host x = some (host x)) ∧ p ∈ w.wire .b ∧
      trail 0 = start host (toA p.dgram.parse) ∧ (∀ n, ∃ act, (trail n).step ⟨0⟩ act = some (trail (n + 1))) ∧
      ∀ n, (trail (2 * n)).emitted = n ∧ (trail (2 * n)).Lingers := by
  obtain ⟨w, host, p, hr, hhost, hp, hwait, hcome⟩ := exists_lingers
  obtain ⟨trail, h0, hstep, hvolley⟩ := hwait.volley hcome ⟨0⟩
  exact ⟨w, host, p, trail, hr, hhost, hp, h0, hstep, fun n => ⟨(hvolley n).1.trans (Nat.zero_add n), (hvolley n).2⟩⟩

/-- Of such an exchange no bound on the echoes holds either. -/
theorem exchange_ends_timeWait : ∃ trail : ℕ → Exchange Reno,
    (∀ n, ∃ act, (trail n).step ⟨0⟩ act = some (trail (n + 1))) ∧ ¬ ∃ M, ∀ n, (trail n).echoed ≤ M := by
  obtain ⟨w, host, p, hr, hhost, -, hwait, hcome⟩ := exists_lingers
  obtain ⟨trail, h0, hstep, hvolley⟩ := hwait.volley hcome ⟨0⟩
  refine ⟨trail, hstep, fun hM => ?_⟩
  obtain ⟨N, hN⟩ := (exchange_ends hr hhost (toA p.dgram.parse) ⟨0⟩ h0 hstep).mpr hM
  have hmany : (trail (2 * (N + 1))).emitted = 0 + (N + 1) := (hvolley (N + 1)).1
  have hfew := hN (2 * (N + 1))
  omega

end Exchange

end Ferrumnet
