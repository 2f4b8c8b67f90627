import Ferrumnet.Lib.Station
import Ferrumnet.FaultLink

/-
  The bottleneck of the simulator (`BottleneckLink` of `sim.rs`): each direction is served
  at a rate, behind a finite buffer.

  The link keeps no queue. All it knows of a direction is when it will be free again, and it
  dates a frame on arrival; how much is queued it infers from that date. A bench is a link
  with its history: the frames it took and refused, and those that arrived. Nothing reads
  the history.

  1. `bottleneck_exact` — whatever the calls, at times that do not decrease: the link is the
     station (`Lib/Station.lean`) whose customers are the frames it took. Their dates, their
     marks and the statistics are those of its schedule.
  2. `bottleneck_buffer` — the inferred backlog: no frame is refused for which there is room,
     and what waits never overruns the buffer by more than the rounding.
-/

namespace Ferrumnet

open Station (Service)

/-- The queue management of a bottleneck. -/
inductive Aqm where
  | tailDrop
  | ceMark (thresholdUs : Nat)
  deriving DecidableEq, Repr

/-- A frame that can be marked has waited for longer than the threshold. -/
def Aqm.marks (aqm : Aqm) (queueUs : Nat) (frame : List UInt8) : Bool :=
  match aqm with
  | .tailDrop => false
  | .ceMark thresholdUs => decide (queueUs > thresholdUs) && frameIsEct frame

structure Bottleneck where
  rateBytesPerSec : Nat
  bufferBytes : Nat
  baseDelayUs : Nat
  aqm : Aqm
  deriving DecidableEq, Repr

namespace Bottleneck

def rate (cfg : Bottleneck) : Nat := max cfg.rateBytesPerSec 1

def serializeUs (cfg : Bottleneck) (frame : List UInt8) : Nat := min (frame.length * 1000000) Instant.u64Max / cfg.rate

end Bottleneck

/-- A frame that reaches the bottleneck. -/
structure QueuedFrame where
  arrival : Instant
  frame : List UInt8
  deriving DecidableEq, Repr

structure QueueStats where
  maxQueueUs : Nat
  meanQueueUs : Nat
  delivered : Nat
  dropped : Nat
  marked : Nat
  deriving DecidableEq, Repr

structure BottleneckLink where
  cfg : Bottleneck
  inflight : List InFlight
  order : Nat
  /-- When the link is free to send the next frame. -/
  nextFree : Link.Side → Instant
  sumQueueUs : Link.Side → Nat
  maxQueueUs : Link.Side → Nat
  delivered : Link.Side → Nat
  dropped : Link.Side → Nat
  marked : Link.Side → Nat

namespace BottleneckLink

abbrev Side := Link.Side

abbrev Act := Link.Act

/-- `stat[side] += n`. -/
def bump (stat : Side → Nat) (side : Side) (n : Nat) : Side → Nat := Function.update stat side (stat side + n)

def new (cfg : Bottleneck) : BottleneckLink :=
  { cfg := cfg, inflight := [], order := 0, nextFree := fun _ => ⟨0⟩, sumQueueUs := fun _ => 0, maxQueueUs := fun _ => 0
    delivered := fun _ => 0, dropped := fun _ => 0, marked := fun _ => 0 }

/-- The bytes ahead of a frame that comes now: what the link sends in the time until it is free. -/
def backlogBytes (l : BottleneckLink) (now : Instant) (side : Side) : Nat :=
  min ((l.nextFree side).saturatingMicrosSince now * l.cfg.rate) Instant.u64Max / 1000000

def refuses (l : BottleneckLink) (now : Instant) (side : Side) (frame : List UInt8) : Bool :=
  decide (l.backlogBytes now side + frame.length > l.cfg.bufferBytes)

def enqueue (l : BottleneckLink) (now : Instant) (side : Side) (frame : List UInt8) : BottleneckLink :=
  if l.refuses now side frame then { l with dropped := bump l.dropped side 1 }
  else
    let start := if (l.nextFree side).micros > now.micros then l.nextFree side else now
    let queueUs := start.saturatingMicrosSince now
    let ce := l.cfg.aqm.marks queueUs frame
    let depart := start.plusMicros (l.cfg.serializeUs frame)
    { l with
      marked := if ce then bump l.marked side 1 else l.marked
      nextFree := Function.update l.nextFree side depart
      sumQueueUs := bump l.sumQueueUs side queueUs
      maxQueueUs := Function.update l.maxQueueUs side (max (l.maxQueueUs side) queueUs)
      delivered := bump l.delivered side 1
      order := l.order + 1
      inflight := l.inflight ++ [⟨depart.plusMicros l.cfg.baseDelayUs, side, l.order,
        if ce then setEcn frame (UInt8.ofNat ecnCe) else frame⟩] }

def nextDeliverAt (l : BottleneckLink) : Option Instant := Link.minDeliverAt l.inflight

def deliverDue (l : BottleneckLink) (now : Instant) : BottleneckLink × List InFlight :=
  let p := Link.flushDue l.inflight now
  ({ l with inflight := p.1 }, p.2)

def stats (l : BottleneckLink) (side : Side) : QueueStats :=
  { maxQueueUs := l.maxQueueUs side
    meanQueueUs := if l.delivered side > 0 then l.sumQueueUs side / l.delivered side else 0
    delivered := l.delivered side
    dropped := l.dropped side
    marked := l.marked side }

/-! ## Benches -/

structure Bench where
  link : BottleneckLink
  /-- The time of the last call. -/
  clock : Instant
  accepted : Side → List QueuedFrame
  refused : Side → List QueuedFrame
  arrived : List InFlight

/-- One more for one side. -/
def push (l : Side → List QueuedFrame) (side : Side) (q : QueuedFrame) : Side → List QueuedFrame :=
  Function.update l side (l side ++ [q])

theorem push_self (l : Side → List QueuedFrame) (side : Side) (q : QueuedFrame) : push l side q side = l side ++ [q] :=
  Function.update_self _ _ _

theorem push_of_ne (l : Side → List QueuedFrame) {x side : Side} (q : QueuedFrame) (h : x ≠ side) :
    push l side q x = l x := Function.update_of_ne h _ _

namespace Bench

def new (cfg : Bottleneck) : Bench := ⟨BottleneckLink.new cfg, ⟨0⟩, fun _ => [], fun _ => [], []⟩

/-- A call at a time not before that of the last. -/
def apply (w : Bench) (act : Act) : Option Bench :=
  if w.clock.micros ≤ act.now.micros ∧ act.now.micros ≤ Instant.u64Max then
    match act with
    | .enqueue now side frame =>
      let link := w.link.enqueue now side frame
      if w.link.refuses now side frame then some ⟨link, now, w.accepted, push w.refused side ⟨now, frame⟩, w.arrived⟩
      else some ⟨link, now, push w.accepted side ⟨now, frame⟩, w.refused, w.arrived⟩
    | .deliverDue now =>
      let p := w.link.deliverDue now
      some ⟨p.1, now, w.accepted, w.refused, w.arrived ++ p.2⟩
  else none

end Bench

end BottleneckLink

/-! ## The station -/

namespace Aqm

variable (aqm : Aqm)

/-- The standing-queue delay. -/
def queueUs (s : Service QueuedFrame) : Nat := s.start - s.customer.arrival.micros

def marked (s : Service QueuedFrame) : Bool := aqm.marks (queueUs s) s.customer.frame

/-- The frame at the other end, and when. -/
def sent (baseDelayUs : Nat) (s : Service QueuedFrame) : Instant × List UInt8 :=
  (Instant.plusMicros ⟨s.free⟩ baseDelayUs,
    if aqm.marked s then setEcn s.customer.frame (UInt8.ofNat ecnCe) else s.customer.frame)

end Aqm

/-- The statistics are those of the services. -/
structure Summed (aqm : Aqm) (l : List (Service QueuedFrame)) (sumQueueUs maxQueueUs delivered marked : Nat) : Prop where
  sum : sumQueueUs = (l.map Aqm.queueUs).sum
  longest : maxQueueUs = (l.map Aqm.queueUs).foldl max 0
  delivered : delivered = l.length
  marked : marked = l.countP aqm.marked

theorem Summed.push {aqm : Aqm} {l : List (Service QueuedFrame)} {sum longest delivered marked : Nat}
    (h : Summed aqm l sum longest delivered marked) (s : Service QueuedFrame) :
    Summed aqm (l ++ [s]) (sum + Aqm.queueUs s) (max longest (Aqm.queueUs s)) (delivered + 1)
      (if aqm.marked s then marked + 1 else marked) where
  sum := by rw [List.map_append, List.sum_append, List.map_singleton, List.sum_singleton, h.sum]
  longest := by rw [List.map_append, List.foldl_append, ← h.longest, List.map_singleton, List.foldl_cons, List.foldl_nil]
  delivered := by rw [List.length_append, h.delivered, List.length_singleton]
  marked := by
    rw [List.countP_append, List.countP_singleton, ← h.marked]
    split <;> rfl

/-- The report on a schedule, and on the frames that are not in it. -/
def statsOf (aqm : Aqm) (l : List (Service QueuedFrame)) (dropped : Nat) : QueueStats :=
  { maxQueueUs := (l.map Aqm.queueUs).foldl max 0
    meanQueueUs := if l.length > 0 then (l.map Aqm.queueUs).sum / l.length else 0
    delivered := l.length
    dropped := dropped
    marked := l.countP aqm.marked }

/-- When the clock has counted `us` microseconds from `s`; it stops at its end. -/
def leaveAt (s us : Nat) : Nat := s + min us (Instant.u64Max - s)

theorem leaveAt_eq {s : Nat} (hs : s ≤ Instant.u64Max) (us : Nat) : leaveAt s us = (Instant.plusMicros ⟨s⟩ us).micros := by
  simp only [leaveAt, Instant.plusMicros]
  omega

theorem leaveAt_le {s : Nat} (hs : s ≤ Instant.u64Max) (us : Nat) : leaveAt s us ≤ Instant.u64Max := by
  rw [leaveAt]
  omega

/-- The later of two times. -/
theorem later_eq (a b : Instant) : (if a.micros > b.micros then a else b) = ⟨max a.micros b.micros⟩ := by
  split
  · rename_i hlt
    rw [max_eq_left hlt.le]
  · rename_i hge
    rw [max_eq_right (not_lt.mp hge)]

def QueuedFrame.micros (q : QueuedFrame) : Nat := q.arrival.micros

namespace Bottleneck

variable (cfg : Bottleneck)

/-- When the link has sent a frame that it starts to send at `s`. -/
def leave (s : Nat) (q : QueuedFrame) : Nat := leaveAt s (cfg.serializeUs q.frame)

/-- What the link does with the frames of one direction. -/
def services (l : List QueuedFrame) : List (Service QueuedFrame) := Station.schedule QueuedFrame.micros cfg.leave 0 l

def nextFree (l : List QueuedFrame) : Nat := Station.freeAfter QueuedFrame.micros cfg.leave 0 l

theorem leave_forward : Station.Forward cfg.leave := fun s _ => Nat.le_add_right s _

end Bottleneck

/-! ## Frames on their way -/

/-- The frames for one side, and when they are due. -/
def carriedTo (side : Link.Side) (l : List InFlight) : List (Instant × List UInt8) :=
  (l.filter fun f => decide (f.side = side)).map fun f => (f.deliverAt, f.frame)

/-- What is on its way to one side, or there, is dated `due`, and queues. -/
structure Track (arrived inflight : List InFlight) (order : Nat) (side : Link.Side)
    (due : List (Instant × List UInt8)) : Prop where
  carried : carriedTo side (arrived ++ inflight) = due
  queues : ((arrived ++ inflight).filter fun f => decide (f.side = side)).Pairwise Link.Queues
  numbered : ∀ f ∈ arrived ++ inflight, f.order < order

namespace Track

variable {arrived inflight : List InFlight} {order : Nat} {side : Link.Side} {due : List (Instant × List UInt8)}

theorem nil (side : Link.Side) : Track [] [] 0 side [] where
  carried := rfl
  queues := .nil
  numbered f hf := by cases hf

theorem lt_succ (h : Track arrived inflight order side due) {f : InFlight} (hf : f.order = order) :
    ∀ g ∈ arrived ++ (inflight ++ [f]), g.order < order + 1 := by
  intro g hg
  rw [← List.append_assoc] at hg
  rcases List.mem_append.mp hg with hg | hg
  · exact (h.numbered g hg).trans (Nat.lt_succ_self _)
  · cases List.mem_singleton.mp hg
    omega

/-- A frame that is due no earlier than the others. -/
theorem push (h : Track arrived inflight order side due) {date : Instant} {frame : List UInt8}
    (hdate : ∀ d ∈ due, d.1.micros ≤ date.micros) :
    Track arrived (inflight ++ [⟨date, side, order, frame⟩]) (order + 1) side (due ++ [(date, frame)]) := by
  have hself : [(⟨date, side, order, frame⟩ : InFlight)].filter (fun f => decide (f.side = side)) =
      [⟨date, side, order, frame⟩] := by
    apply List.filter_eq_self.mpr
    intro f hf
    cases List.mem_singleton.mp hf
    exact decide_eq_true rfl
  have hkeep : (arrived ++ (inflight ++ [(⟨date, side, order, frame⟩ : InFlight)])).filter
      (fun f => decide (f.side = side)) =
      (arrived ++ inflight).filter (fun f => decide (f.side = side)) ++ [⟨date, side, order, frame⟩] := by
    rw [← List.append_assoc, List.filter_append, hself]
  refine ⟨?_, ?_, h.lt_succ rfl⟩
  · rw [← h.carried, carriedTo, hkeep, List.map_append]
    rfl
  · rw [hkeep, List.pairwise_append]
    refine ⟨h.queues, List.pairwise_singleton _ _, fun f hf g hg => ?_⟩
    cases List.mem_singleton.mp hg
    constructor
    · have hmem := List.mem_map_of_mem (f := fun f : InFlight => (f.deliverAt, f.frame)) hf
      change _ ∈ carriedTo side (arrived ++ inflight) at hmem
      rw [h.carried] at hmem
      exact hdate _ hmem
    · exact h.numbered f (List.mem_filter.mp hf).1

/-- A frame to the other side. -/
theorem other (h : Track arrived inflight order side due) {f : InFlight} (hf : f.order = order) (hside : f.side ≠ side) :
    Track arrived (inflight ++ [f]) (order + 1) side due := by
  have hkeep : (arrived ++ (inflight ++ [f])).filter (fun f => decide (f.side = side)) =
      (arrived ++ inflight).filter (fun f => decide (f.side = side)) := by
    rw [← List.append_assoc, List.filter_append, List.filter_cons_of_neg (by simpa using hside), List.filter_nil,
      List.append_nil]
  exact ⟨(congrArg (List.map _) hkeep).trans h.carried, hkeep ▸ h.queues, h.lt_succ hf⟩

/-- What is due arrives, as it queues. -/
theorem flush (h : Track arrived inflight order side due) (now : Instant) :
    Track (arrived ++ (Link.flushDue inflight now).2) (Link.flushDue inflight now).1 order side due := by
  have hrest : (inflight.filter fun f => decide (f.side = side)).Pairwise Link.Queues := by
    have hall := h.queues
    rw [List.filter_append] at hall
    exact hall.sublist (List.sublist_append_right _ _)
  have hkeep : (arrived ++ (Link.flushDue inflight now).2 ++ (Link.flushDue inflight now).1).filter
      (fun f => decide (f.side = side)) = (arrived ++ inflight).filter (fun f => decide (f.side = side)) := by
    rw [List.append_assoc, List.filter_append, List.filter_append, List.filter_append, Link.flushDue_fifo now hrest]
  refine ⟨(congrArg (List.map _) hkeep).trans h.carried, hkeep ▸ h.queues, fun f hf => ?_⟩
  have hperm : (arrived ++ (Link.flushDue inflight now).2 ++ (Link.flushDue inflight now).1).Perm (arrived ++ inflight) := by
    rw [List.append_assoc]
    apply List.Perm.append_left
    exact ((List.mergeSort_perm _ Link.before).append_right _).trans (List.filter_append_perm (Link.isDue now) inflight)
  exact h.numbered f (hperm.mem_iff.mp hf)

end Track

namespace BottleneckLink

/-! ## One frame -/

/-- What the link makes of a frame that it takes: one more service of the station. -/
def takes (l : BottleneckLink) (side : Side) (s : Service QueuedFrame) : BottleneckLink :=
  { l with
    marked := if l.cfg.aqm.marked s then bump l.marked side 1 else l.marked
    nextFree := Function.update l.nextFree side ⟨s.free⟩
    sumQueueUs := bump l.sumQueueUs side (Aqm.queueUs s)
    maxQueueUs := Function.update l.maxQueueUs side (max (l.maxQueueUs side) (Aqm.queueUs s))
    delivered := bump l.delivered side 1
    order := l.order + 1
    inflight := l.inflight ++ [⟨(l.cfg.aqm.sent l.cfg.baseDelayUs s).1, side, l.order,
      (l.cfg.aqm.sent l.cfg.baseDelayUs s).2⟩] }

theorem enqueue_takes {l : BottleneckLink} {now : Instant} {side : Side} {frame : List UInt8}
    (h : l.refuses now side frame = false) (hfree : (l.nextFree side).micros ≤ Instant.u64Max)
    (hnow : now.micros ≤ Instant.u64Max) : l.enqueue now side frame =
      l.takes side (Station.serve QueuedFrame.micros l.cfg.leave (l.nextFree side).micros ⟨now, frame⟩) := by
  have hdepart : Instant.plusMicros ⟨max (l.nextFree side).micros now.micros⟩ (l.cfg.serializeUs frame) =
      ⟨l.cfg.leave (max (l.nextFree side).micros now.micros) ⟨now, frame⟩⟩ :=
    congrArg Instant.mk (leaveAt_eq (max_le hfree hnow) _).symm
  unfold enqueue
  rw [h, later_eq]
  dsimp only
  rw [hdepart]
  rfl

namespace Bench

variable {w w' : Bench} {x side : Side} {now : Instant} {frame : List UInt8}

/-- One direction of the link is a station whose customers are the frames that were taken. -/
structure Exact (w : Bench) (x : Side) : Prop where
  range : (w.link.nextFree x).micros ≤ Instant.u64Max
  free : (w.link.nextFree x).micros = w.link.cfg.nextFree (w.accepted x)
  arrivals : ∀ q ∈ w.accepted x, q.micros ≤ w.clock.micros
  track : Track w.arrived w.link.inflight w.link.order x
    ((w.link.cfg.services (w.accepted x)).map (w.link.cfg.aqm.sent w.link.cfg.baseDelayUs))
  summed : Summed w.link.cfg.aqm (w.link.cfg.services (w.accepted x)) (w.link.sumQueueUs x) (w.link.maxQueueUs x)
    (w.link.delivered x) (w.link.marked x)
  dropped : w.link.dropped x = (w.refused x).length

theorem exact_new (cfg : Bottleneck) (x : Side) : (new cfg).Exact x where
  range := Nat.zero_le _
  free := rfl
  arrivals q hq := by cases hq
  track := .nil x
  summed := ⟨rfl, rfl, rfl, rfl⟩
  dropped := rfl

/-- The frames of a direction are dated in order. -/
theorem Exact.dated (h : w.Exact x) {us : Nat} (hus : (w.link.nextFree x).micros ≤ us) :
    ∀ d ∈ (w.link.cfg.services (w.accepted x)).map (w.link.cfg.aqm.sent w.link.cfg.baseDelayUs),
      d.1.micros ≤ (Instant.plusMicros ⟨us⟩ w.link.cfg.baseDelayUs).micros := by
  intro d hd
  obtain ⟨s, hs, rfl⟩ := List.mem_map.mp hd
  obtain ⟨-, -, -, hlast⟩ := Station.mem_schedule w.link.cfg.leave_forward hs
  have hbound : s.free ≤ us := hlast.trans (h.free.ge.trans hus)
  exact min_le_min_right _ (Nat.add_le_add_right hbound _)

theorem Exact.accept (h : w.Exact x) (hnow : w.clock.micros ≤ now.micros) (hmax : now.micros ≤ Instant.u64Max)
    (hr : w.link.refuses now side frame = false) (hside : (w.link.nextFree side).micros ≤ Instant.u64Max) :
    Exact ⟨w.link.enqueue now side frame, now, push w.accepted side ⟨now, frame⟩, w.refused, w.arrived⟩ x := by
  rw [enqueue_takes hr hside hmax]
  by_cases hx : x = side
  · subst hx
    have hfree : w.link.cfg.nextFree (w.accepted x) = (w.link.nextFree x).micros := h.free.symm
    generalize hs : Station.serve QueuedFrame.micros w.link.cfg.leave (w.link.nextFree x).micros ⟨now, frame⟩ = s
    have hservices : w.link.cfg.services (w.accepted x ++ [⟨now, frame⟩]) = w.link.cfg.services (w.accepted x) ++ [s] := by
      rw [Bottleneck.services, Station.schedule_append, ← hs, ← hfree]
      rfl
    have hnext : w.link.cfg.nextFree (w.accepted x ++ [⟨now, frame⟩]) = s.free := by
      rw [Bottleneck.nextFree, Station.freeAfter_append, ← hs, ← hfree]
      rfl
    have hlater : (w.link.nextFree x).micros ≤ s.free := by
      rw [← hs]
      exact (le_max_left _ _).trans (w.link.cfg.leave_forward _ _)
    refine ⟨?_, ?_, ?_, ?_, ?_, h.dropped⟩
    · simp only [takes, Function.update_self, ← hs]
      exact leaveAt_le (max_le hside hmax) _
    · simp only [takes, push_self, Function.update_self]
      exact hnext.symm
    · intro q hq
      change q ∈ push w.accepted x _ x at hq
      rw [push_self] at hq
      rcases List.mem_append.mp hq with hq | hq
      · exact (h.arrivals q hq).trans hnow
      · cases List.mem_singleton.mp hq
        exact le_rfl
    · simp only [takes, push_self, hservices, List.map_append]
      exact h.track.push (h.dated hlater)
    · simp only [takes, bump, push_self, Function.update_self, hservices]
      have hsum := h.summed.push s
      split
      · rename_i hm
        rw [if_pos hm] at hsum
        simpa only [Function.update_self] using hsum
      · rename_i hm
        rwa [if_neg hm] at hsum
  · refine ⟨?_, ?_, ?_, ?_, ?_, h.dropped⟩
    · simp only [takes, Function.update_of_ne hx]
      exact h.range
    · simp only [takes, push_of_ne _ _ hx, Function.update_of_ne hx]
      exact h.free
    · intro q hq
      change q ∈ push w.accepted side _ x at hq
      rw [push_of_ne _ _ hx] at hq
      exact (h.arrivals q hq).trans hnow
    · simp only [takes, push_of_ne _ _ hx]
      exact h.track.other rfl (Ne.symm hx)
    · simp only [takes, bump, push_of_ne _ _ hx, Function.update_of_ne hx]
      have hm : ∀ c : Bool, (if c then Function.update w.link.marked side (w.link.marked side + 1) else w.link.marked) x =
          w.link.marked x := by
        intro c
        cases c with
        | false => rfl
        | true => exact Function.update_of_ne hx _ _
      rw [hm]
      exact h.summed

theorem Exact.refuse (h : w.Exact x) (hnow : w.clock.micros ≤ now.micros) (hr : w.link.refuses now side frame = true) :
    Exact ⟨w.link.enqueue now side frame, now, w.accepted, push w.refused side ⟨now, frame⟩, w.arrived⟩ x := by
  have hlink : w.link.enqueue now side frame = { w.link with dropped := bump w.link.dropped side 1 } := by
    unfold enqueue
    rw [if_pos hr]
  rw [hlink]
  refine ⟨h.range, h.free, fun q hq => (h.arrivals q hq).trans hnow, h.track, h.summed, ?_⟩
  by_cases hx : x = side
  · subst hx
    simp only [bump, push_self, Function.update_self, List.length_append, List.length_singleton, h.dropped]
  · simp only [bump, push_of_ne _ _ hx, Function.update_of_ne hx, h.dropped]

theorem Exact.deliverDue (h : w.Exact x) (hnow : w.clock.micros ≤ now.micros) :
    Exact ⟨(w.link.deliverDue now).1, now, w.accepted, w.refused, w.arrived ++ (w.link.deliverDue now).2⟩ x :=
  ⟨h.range, h.free, fun q hq => (h.arrivals q hq).trans hnow, h.track.flush now, h.summed, h.dropped⟩

/-- What a call does: a frame is taken or refused, or what is due arrives. -/
theorem apply_cases {act : Act} (h : w.apply act = some w') : w.clock.micros ≤ act.now.micros ∧
    act.now.micros ≤ Instant.u64Max ∧
      ((∃ side frame, act = .enqueue act.now side frame ∧ w.link.refuses act.now side frame = false ∧
        w' = ⟨w.link.enqueue act.now side frame, act.now, push w.accepted side ⟨act.now, frame⟩, w.refused, w.arrived⟩) ∨
      (∃ side frame, act = .enqueue act.now side frame ∧ w.link.refuses act.now side frame = true ∧
        w' = ⟨w.link.enqueue act.now side frame, act.now, w.accepted, push w.refused side ⟨act.now, frame⟩, w.arrived⟩) ∨
      act = .deliverDue act.now ∧ w' =
        ⟨(w.link.deliverDue act.now).1, act.now, w.accepted, w.refused, w.arrived ++ (w.link.deliverDue act.now).2⟩) := by
  unfold apply at h
  split at h
  · rename_i htime
    refine ⟨htime.1, htime.2, ?_⟩
    cases act with
    | enqueue now side frame =>
      dsimp only at h
      split at h
      · rename_i hr
        cases h
        exact .inr (.inl ⟨side, frame, rfl, hr, rfl⟩)
      · rename_i hr
        cases h
        exact .inl ⟨side, frame, rfl, Bool.eq_false_iff.mpr hr, rfl⟩
    | deliverDue now =>
      cases h
      exact .inr (.inr ⟨rfl, rfl⟩)
  · cases h

theorem cfg_enqueue (l : BottleneckLink) (now : Instant) (side : Side) (frame : List UInt8) :
    (l.enqueue now side frame).cfg = l.cfg := by
  unfold enqueue
  split <;> rfl

theorem Exact.stats_eq (h : w.Exact x) :
    w.link.stats x = statsOf w.link.cfg.aqm (w.link.cfg.services (w.accepted x)) (w.refused x).length := by
  rw [stats, statsOf, h.summed.sum, h.summed.longest, h.summed.delivered, h.summed.marked, h.dropped]

structure Sound (w : Bench) : Prop where
  clock : w.clock.micros ≤ Instant.u64Max
  exact : ∀ x, w.Exact x
  past : ∀ f ∈ w.arrived, f.deliverAt.micros ≤ w.clock.micros

theorem Sound.apply (h : w.Sound) {act : Act} (he : w.apply act = some w') : w'.Sound ∧ w'.link.cfg = w.link.cfg := by
  obtain ⟨hnow, hmax, ⟨side, frame, -, hr, rfl⟩ | ⟨side, frame, -, hr, rfl⟩ | ⟨-, rfl⟩⟩ := apply_cases he
  · refine ⟨⟨hmax, fun x => ?_, fun f hf => (h.past f hf).trans hnow⟩, cfg_enqueue _ _ _ _⟩
    exact (h.exact x).accept hnow hmax hr (h.exact side).range
  · refine ⟨⟨hmax, fun x => ?_, fun f hf => (h.past f hf).trans hnow⟩, cfg_enqueue _ _ _ _⟩
    exact (h.exact x).refuse hnow hr
  · refine ⟨⟨hmax, fun x => (h.exact x).deliverDue hnow, fun f hf => ?_⟩, rfl⟩
    rcases List.mem_append.mp hf with hf | hf
    · exact (h.past f hf).trans hnow
    · have hmem := (List.mergeSort_perm _ Link.before).mem_iff.mp hf
      exact of_decide_eq_true (List.mem_filter.mp hmem).2

theorem sound_of_run {cfg : Bottleneck} {acts : List Act} (hr : Run.run Bench.apply (new cfg) acts = some w) :
    w.Sound ∧ w.link.cfg = cfg := by
  refine Run.run_invariant (I := fun w => w.Sound ∧ w.link.cfg = cfg) (fun w act w' h he => ?_)
    ⟨⟨Nat.zero_le _, exact_new cfg, fun f hf => ?_⟩, rfl⟩ hr
  · obtain ⟨hsound, hcfg⟩ := h.1.apply he
    exact ⟨hsound, hcfg.trans h.2⟩
  · cases hf

end Bench

/-- The frame that a call offers to one direction. -/
def offered (x : Side) : Act → Option QueuedFrame
  | .enqueue now side frame => if side = x then some ⟨now, frame⟩ else none
  | .deliverDue _ => none

namespace Bench

variable {w w' : Bench}

/-- Each frame is taken or refused. -/
theorem offers_of_run {acts : List Act} (hr : Run.run Bench.apply w acts = some w') (x : Side) :
    ∃ a r, w'.accepted x = w.accepted x ++ a ∧ w'.refused x = w.refused x ++ r ∧
      a.Sublist (acts.filterMap (offered x)) ∧ (a ++ r).Perm (acts.filterMap (offered x)) := by
  induction acts generalizing w with
  | nil =>
    cases hr
    exact ⟨[], [], (List.append_nil _).symm, (List.append_nil _).symm, .slnil, .nil⟩
  | cons act acts ih =>
    obtain ⟨u, hu, hr⟩ := Run.run_cons.mp hr
    obtain ⟨a, r, ha, hrej, hsub, hperm⟩ := ih hr
    obtain ⟨-, -, ⟨side, frame, hact, -, rfl⟩ | ⟨side, frame, hact, -, rfl⟩ | ⟨hact, rfl⟩⟩ := apply_cases hu
    · rw [hact]
      by_cases hx : side = x
      · subst hx
        have hhead : offered side (.enqueue act.now side frame) = some ⟨act.now, frame⟩ := if_pos rfl
        rw [List.filterMap_cons_some hhead]
        refine ⟨⟨act.now, frame⟩ :: a, r, ?_, hrej, hsub.cons_cons _, hperm.cons _⟩
        rw [ha]
        show push w.accepted side _ side ++ a = _
        rw [push_self, List.append_assoc]
        rfl
      · have hhead : offered x (.enqueue act.now side frame) = none := if_neg hx
        rw [List.filterMap_cons_none hhead]
        refine ⟨a, r, ?_, hrej, hsub, hperm⟩
        rw [ha]
        show push w.accepted side _ x ++ a = _
        rw [push_of_ne _ _ (Ne.symm hx)]
    · rw [hact]
      by_cases hx : side = x
      · subst hx
        have hhead : offered side (.enqueue act.now side frame) = some ⟨act.now, frame⟩ := if_pos rfl
        rw [List.filterMap_cons_some hhead]
        refine ⟨a, ⟨act.now, frame⟩ :: r, ha, ?_, hsub.cons _, ?_⟩
        · rw [hrej]
          show push w.refused side _ side ++ r = _
          rw [push_self, List.append_assoc]
          rfl
        · exact List.perm_middle.trans (hperm.cons _)
      · have hhead : offered x (.enqueue act.now side frame) = none := if_neg hx
        rw [List.filterMap_cons_none hhead]
        refine ⟨a, r, ha, ?_, hsub, hperm⟩
        rw [hrej]
        show push w.refused side _ x ++ r = _
        rw [push_of_ne _ _ (Ne.symm hx)]
    · rw [hact]
      exact ⟨a, r, ha, hrej, hsub, hperm⟩

end Bench

/-- Whatever is sent and delivered, in any order and at times that do not decrease: in each
direction every frame is taken or refused, and the link is the station that serves those it
took, in their order and one at a time, each no earlier than it came. They arrive when the
station has sent them and the delay has passed, marked as they waited; the report counts
them. -/
theorem bottleneck_exact {cfg : Bottleneck} {acts : List Act} {w : Bench}
    (hr : Run.run Bench.apply (.new cfg) acts = some w) (x : Side) :
    ((w.accepted x).Sublist (acts.filterMap (offered x)) ∧
        (w.accepted x ++ w.refused x).Perm (acts.filterMap (offered x))) ∧
      carriedTo x (w.arrived ++ w.link.inflight) = (cfg.services (w.accepted x)).map (cfg.aqm.sent cfg.baseDelayUs) ∧
      (∀ f ∈ w.arrived, f.deliverAt.micros ≤ w.clock.micros) ∧
      w.link.stats x = statsOf cfg.aqm (cfg.services (w.accepted x)) (w.refused x).length := by
  obtain ⟨h, rfl⟩ := Bench.sound_of_run hr
  obtain ⟨a, r, ha, hrej, hsub, hperm⟩ := Bench.offers_of_run hr x
  change w.accepted x = [] ++ a at ha
  change w.refused x = [] ++ r at hrej
  rw [List.nil_append] at ha hrej
  have hx := h.exact x
  exact ⟨⟨ha ▸ hsub, ha ▸ hrej ▸ hperm⟩, hx.track.carried, h.past, hx.stats_eq⟩

/-! ## The backlog -/

/-- The bytes of the frames in some services. -/
def bytes (l : List (Service QueuedFrame)) : Nat := (l.map fun s => s.customer.frame.length).sum

theorem bytes_nil : bytes [] = 0 := rfl

section

variable {cfg : Bottleneck}

theorem rate_pos (cfg : Bottleneck) : 0 < cfg.rate := Nat.lt_of_lt_of_le Nat.one_pos (le_max_right _ 1)

/-- A service takes no more time than its frame, at the rate. -/
theorem work_le_bytes {l : List (Service QueuedFrame)} (hl : ∀ s ∈ l, s.free = cfg.leave s.start s.customer) :
    Station.work l * cfg.rate ≤ bytes l * 1000000 := by
  induction l with
  | nil => exact (Nat.zero_mul _).le.trans (Nat.zero_le _)
  | cons s l ih =>
    obtain ⟨hs, hl⟩ := List.forall_mem_cons.mp hl
    have hone : (s.free - s.start) * cfg.rate ≤ s.customer.frame.length * 1000000 := by
      have hus : s.free - s.start ≤ cfg.serializeUs s.customer.frame := by
        rw [hs, Bottleneck.leave, leaveAt]
        omega
      calc (s.free - s.start) * cfg.rate ≤ cfg.serializeUs s.customer.frame * cfg.rate := Nat.mul_le_mul_right _ hus
        _ ≤ min (s.customer.frame.length * 1000000) Instant.u64Max := Nat.div_mul_le_self _ _
        _ ≤ s.customer.frame.length * 1000000 := min_le_left _ _
    calc Station.work (s :: l) * cfg.rate = (s.free - s.start) * cfg.rate + Station.work l * cfg.rate := Nat.add_mul _ _ _
      _ ≤ s.customer.frame.length * 1000000 + bytes l * 1000000 := Nat.add_le_add hone (ih hl)
      _ = bytes (s :: l) * 1000000 := (Nat.add_mul _ _ _).symm

/-- Nor less, but for a microsecond: the clock has not stopped and the frames are not too long
for it. -/
theorem bytes_le_work {l : List (Service QueuedFrame)} (hl : ∀ s ∈ l, s.free = cfg.leave s.start s.customer)
    (hclock : ∀ s ∈ l, s.free < Instant.u64Max) (hlen : ∀ s ∈ l, s.customer.frame.length * 1000000 ≤ Instant.u64Max) :
    bytes l * 1000000 ≤ (Station.work l + l.length) * cfg.rate := by
  induction l with
  | nil => exact (Nat.zero_mul _).le.trans (Nat.zero_le _)
  | cons s l ih =>
    obtain ⟨hs, hl⟩ := List.forall_mem_cons.mp hl
    obtain ⟨hsclock, hclock⟩ := List.forall_mem_cons.mp hclock
    obtain ⟨hslen, hlen⟩ := List.forall_mem_cons.mp hlen
    have hone : s.customer.frame.length * 1000000 ≤ (s.free - s.start + 1) * cfg.rate := by
      have hus : s.free - s.start = s.customer.frame.length * 1000000 / cfg.rate := by
        rw [Bottleneck.leave, leaveAt, Bottleneck.serializeUs, min_eq_left hslen] at hs
        generalize s.customer.frame.length * 1000000 / cfg.rate = us at hs ⊢
        omega
      rw [hus]
      exact (Nat.lt_mul_of_div_lt (Nat.lt_succ_self _) (rate_pos cfg)).le
    calc bytes (s :: l) * 1000000 = s.customer.frame.length * 1000000 + bytes l * 1000000 := Nat.add_mul _ _ _
      _ ≤ (s.free - s.start + 1) * cfg.rate + (Station.work l + l.length) * cfg.rate := Nat.add_le_add hone (ih hl hclock hlen)
      _ = (Station.work (s :: l) + (s :: l).length) * cfg.rate := by
        rw [Station.work_cons, List.length_cons, ← Nat.add_mul]
        congr 1
        omega

end

end BottleneckLink

namespace Bottleneck

variable (cfg : Bottleneck) (l : List QueuedFrame) (now : Instant)

/-- The services that are not over at `now`. -/
def present : List (Service QueuedFrame) := (cfg.services l).filter fun s => decide (now.micros < s.free)

/-- Those that have not started. -/
def waiting : List (Service QueuedFrame) := (cfg.services l).filter fun s => decide (now.micros < s.start)

/-- Those that are over. -/
def departed : List (Service QueuedFrame) := (cfg.services l).filter fun s => decide (s.free ≤ now.micros)

end Bottleneck

namespace BottleneckLink

namespace Bench

variable {w w' : Bench} {x side : Side} {now : Instant} {frame : List UInt8}

/-- The link infers no more than the frames that it has not sent. -/
theorem Exact.backlogBytes_le (h : w.Exact x) (hnow : w.clock.micros ≤ now.micros) :
    w.link.backlogBytes now x ≤ bytes (w.link.cfg.present (w.accepted x) now) := by
  have harrivals : ∀ q ∈ w.accepted x, q.micros ≤ now.micros := fun q hq => (h.arrivals q hq).trans hnow
  have hpresent := Station.le_present w.link.cfg.leave_forward 0 harrivals
  have hwork : Station.work (w.link.cfg.present (w.accepted x) now) * w.link.cfg.rate ≤
      bytes (w.link.cfg.present (w.accepted x) now) * 1000000 := by
    apply work_le_bytes
    intro s hs
    exact (Station.mem_schedule w.link.cfg.leave_forward (List.mem_filter.mp hs).1).2.2.1
  have htime : (w.link.nextFree x).micros - now.micros ≤ Station.work (w.link.cfg.present (w.accepted x) now) := by
    rw [h.free, Bottleneck.nextFree, Bottleneck.present, Bottleneck.services]
    omega
  calc w.link.backlogBytes now x ≤ ((w.link.nextFree x).micros - now.micros) * w.link.cfg.rate / 1000000 :=
        Nat.div_le_div_right (min_le_left _ _)
    _ ≤ bytes (w.link.cfg.present (w.accepted x) now) * 1000000 / 1000000 :=
        Nat.div_le_div_right ((Nat.mul_le_mul_right _ htime).trans hwork)
    _ = bytes (w.link.cfg.present (w.accepted x) now) := Nat.mul_div_cancel _ (by decide)

/-- A frame that is taken waits for less than the rest of the buffer. -/
theorem wait_of_taken (hbuf : (w.link.cfg.bufferBytes + 1) * 1000000 ≤ Instant.u64Max)
    (h : w.link.refuses now x frame = false) :
    ((w.link.nextFree x).micros - now.micros) * w.link.cfg.rate + frame.length * 1000000 <
      (w.link.cfg.bufferBytes + 1) * 1000000 := by
  rw [refuses, decide_eq_false_iff_not, backlogBytes, Instant.saturatingMicrosSince] at h
  generalize ((w.link.nextFree x).micros - now.micros) * w.link.cfg.rate = work at h ⊢
  omega

/-- What waits has room, give or take the rounding of each frame. -/
structure Roomy (w : Bench) (x : Side) : Prop where
  fits : ∀ q ∈ w.accepted x, q.frame.length ≤ w.link.cfg.bufferBytes
  waits : ∀ s ∈ w.link.cfg.services (w.accepted x),
    Aqm.queueUs s * w.link.cfg.rate < (w.link.cfg.bufferBytes + 1) * 1000000
  room : (w.link.nextFree x).micros < Instant.u64Max → ∀ now : Instant, w.clock.micros ≤ now.micros →
    bytes (w.link.cfg.waiting (w.accepted x) now) * 1000000 <
      (w.link.cfg.bufferBytes + 1) * 1000000 + (w.link.cfg.waiting (w.accepted x) now).length * w.link.cfg.rate

/-- The bytes of some services, if the clock has not stopped. -/
theorem Exact.bytes_le (h : w.Exact x) (hfits : ∀ q ∈ w.accepted x, q.frame.length ≤ w.link.cfg.bufferBytes)
    (hbuf : (w.link.cfg.bufferBytes + 1) * 1000000 ≤ Instant.u64Max) (hclock : (w.link.nextFree x).micros < Instant.u64Max)
    (p : Service QueuedFrame → Bool) :
    bytes ((w.link.cfg.services (w.accepted x)).filter p) * 1000000 ≤
      (Station.work ((w.link.cfg.services (w.accepted x)).filter p) +
        ((w.link.cfg.services (w.accepted x)).filter p).length) * w.link.cfg.rate := by
  have hmem : ∀ s ∈ (w.link.cfg.services (w.accepted x)).filter p, s.free = w.link.cfg.leave s.start s.customer ∧
      s.free ≤ (w.link.nextFree x).micros ∧ s.customer ∈ w.accepted x := by
    intro s hs
    have hs := (List.mem_filter.mp hs).1
    obtain ⟨-, -, hleave, hlast⟩ := Station.mem_schedule w.link.cfg.leave_forward hs
    refine ⟨hleave, hlast.trans h.free.ge, ?_⟩
    have hcust := List.mem_map_of_mem (f := Service.customer) hs
    rwa [Bottleneck.services, Station.map_customer_schedule] at hcust
  apply bytes_le_work
  · exact fun s hs => (hmem s hs).1
  · exact fun s hs => (hmem s hs).2.1.trans_lt hclock
  · intro s hs
    exact (Nat.mul_le_mul_right _ ((hfits _ (hmem s hs).2.2).trans (Nat.le_succ _))).trans hbuf

theorem Roomy.accept (h : w.Roomy x) (he : w.Exact x) (hbuf : (w.link.cfg.bufferBytes + 1) * 1000000 ≤ Instant.u64Max)
    (hnow : w.clock.micros ≤ now.micros) (hmax : now.micros ≤ Instant.u64Max)
    (hr : w.link.refuses now side frame = false) (hside : (w.link.nextFree side).micros ≤ Instant.u64Max) :
    Roomy ⟨w.link.enqueue now side frame, now, push w.accepted side ⟨now, frame⟩, w.refused, w.arrived⟩ x := by
  rw [enqueue_takes hr hside hmax]
  by_cases hx : x = side
  · subst hx
    have hfree : w.link.cfg.nextFree (w.accepted x) = (w.link.nextFree x).micros := he.free.symm
    have htaken := wait_of_taken hbuf hr
    generalize hs : Station.serve QueuedFrame.micros w.link.cfg.leave (w.link.nextFree x).micros ⟨now, frame⟩ = s
    have hservices : w.link.cfg.services (w.accepted x ++ [⟨now, frame⟩]) = w.link.cfg.services (w.accepted x) ++ [s] := by
      rw [Bottleneck.services, Station.schedule_append, ← hs, ← hfree]
      rfl
    have hstart : s.start = max (w.link.nextFree x).micros now.micros := by rw [← hs]; rfl
    have hcust : s.customer = ⟨now, frame⟩ := by rw [← hs]; rfl
    have hlater : s.start ≤ s.free := by rw [← hs]; exact w.link.cfg.leave_forward _ _
    refine ⟨fun q hq => ?_, fun t ht => ?_, fun hclock now' hnow' => ?_⟩
    · change q ∈ push w.accepted x _ x at hq
      rw [push_self] at hq
      rcases List.mem_append.mp hq with hq | hq
      · exact h.fits q hq
      · cases List.mem_singleton.mp hq
        show frame.length ≤ w.link.cfg.bufferBytes
        omega
    · change t ∈ w.link.cfg.services (push w.accepted x _ x) at ht
      rw [push_self, hservices] at ht
      rcases List.mem_append.mp ht with ht | ht
      · exact h.waits t ht
      · cases List.mem_singleton.mp ht
        have hwait : Aqm.queueUs s = (w.link.nextFree x).micros - now.micros := by
          rw [Aqm.queueUs, hstart, hcust]
          show max (w.link.nextFree x).micros now.micros - now.micros = _
          omega
        show Aqm.queueUs s * w.link.cfg.rate < _
        rw [hwait]
        exact (Nat.le_add_right _ _).trans_lt htaken
    · change now.micros ≤ now'.micros at hnow'
      change (Function.update w.link.nextFree x _ x).micros < _ at hclock
      rw [Function.update_self] at hclock
      show bytes (w.link.cfg.waiting (push w.accepted x _ x) now') * 1000000 <
        (w.link.cfg.bufferBytes + 1) * 1000000 + (w.link.cfg.waiting (push w.accepted x _ x) now').length * w.link.cfg.rate
      have hold : (w.link.nextFree x).micros < Instant.u64Max := by
        have hle := le_max_left (w.link.nextFree x).micros now.micros
        change s.free < _ at hclock
        omega
      have harrivals : ∀ q ∈ w.accepted x, q.micros ≤ now'.micros := fun q hq => (he.arrivals q hq).trans (hnow.trans hnow')
      have hwork := Station.waiting_le w.link.cfg.leave_forward 0 harrivals
      have hbytes := he.bytes_le h.fits hbuf hold fun s => decide (now'.micros < s.start)
      rw [push_self, Bottleneck.waiting, hservices, List.filter_append]
      rw [← Bottleneck.nextFree, hfree, ← Bottleneck.services] at hwork
      generalize hw : (w.link.cfg.services (w.accepted x)).filter (fun s => decide (now'.micros < s.start)) = l at *
      by_cases hwait : now'.micros < s.start
      · have hself : [s].filter (fun s => decide (now'.micros < s.start)) = [s] :=
          List.filter_eq_self.mpr fun t ht => by cases List.mem_singleton.mp ht; exact decide_eq_true hwait
        have hall : bytes (l ++ [s]) = bytes l + frame.length := by
          rw [bytes, List.map_append, List.sum_append, List.map_singleton, List.sum_singleton, hcust]
          rfl
        have htime : Station.work l ≤ (w.link.nextFree x).micros - now.micros := by omega
        have hrate := Nat.mul_le_mul_right w.link.cfg.rate htime
        rw [hself, hall, List.length_append, List.length_singleton, Nat.add_mul l.length]
        rw [Nat.add_mul (Station.work l)] at hbytes
        omega
      · -- the link has started on all of them
        have hself : [s].filter (fun s => decide (now'.micros < s.start)) = [] :=
          List.filter_eq_nil_iff.mpr fun t ht => by cases List.mem_singleton.mp ht; simpa using hwait
        have hnone : l = [] := by
          rw [← hw, List.filter_eq_nil_iff]
          intro t ht
          obtain ⟨-, -, hleave, hlast⟩ := Station.mem_schedule w.link.cfg.leave_forward ht
          have hforward := w.link.cfg.leave_forward t.start t.customer
          rw [← Bottleneck.nextFree, hfree] at hlast
          rw [decide_eq_true_iff]
          omega
        rw [hself, hnone, List.nil_append, bytes_nil, Nat.zero_mul]
        exact Nat.add_pos_left (Nat.mul_pos (Nat.succ_pos _) (by decide)) _
  · refine ⟨fun q hq => ?_, fun t ht => ?_, fun hclock now' hnow' => ?_⟩
    · change q ∈ push w.accepted side _ x at hq
      rw [push_of_ne _ _ hx] at hq
      exact h.fits q hq
    · change t ∈ w.link.cfg.services (push w.accepted side _ x) at ht
      rw [push_of_ne _ _ hx] at ht
      exact h.waits t ht
    · change (Function.update w.link.nextFree side _ x).micros < _ at hclock
      rw [Function.update_of_ne hx] at hclock
      show bytes (w.link.cfg.waiting (push w.accepted side _ x) now') * 1000000 <
        _ + (w.link.cfg.waiting (push w.accepted side _ x) now').length * w.link.cfg.rate
      rw [push_of_ne _ _ hx]
      exact h.room hclock now' (hnow.trans hnow')

theorem Roomy.apply (h : w.Roomy x) (hs : w.Sound) (hbuf : (w.link.cfg.bufferBytes + 1) * 1000000 ≤ Instant.u64Max)
    {act : Act} (he : w.apply act = some w') : w'.Roomy x := by
  obtain ⟨hnow, hmax, ⟨side, frame, -, hr, rfl⟩ | ⟨side, frame, -, hr, rfl⟩ | ⟨-, rfl⟩⟩ := apply_cases he
  · exact h.accept (hs.exact x) hbuf hnow hmax hr (hs.exact side).range
  · have hlink : w.link.enqueue act.now side frame = { w.link with dropped := bump w.link.dropped side 1 } := by
      unfold enqueue
      rw [if_pos hr]
    rw [hlink]
    exact ⟨h.fits, h.waits, fun hclock now' hnow' => h.room hclock now' (hnow.trans hnow')⟩
  · exact ⟨h.fits, h.waits, fun hclock now' hnow' => h.room hclock now' (hnow.trans hnow')⟩

theorem roomy_of_run {cfg : Bottleneck} (hbuf : (cfg.bufferBytes + 1) * 1000000 ≤ Instant.u64Max) {acts : List Act}
    (hr : Run.run Bench.apply (new cfg) acts = some w) (x : Side) : w.Roomy x := by
  have hnew : (new cfg).Roomy x := by
    refine ⟨fun q hq => ?_, fun s hs => ?_, fun _ _ _ => ?_⟩
    · cases hq
    · cases hs
    · change bytes [] * 1000000 < (cfg.bufferBytes + 1) * 1000000 + _
      rw [bytes_nil, Nat.zero_mul]
      exact Nat.add_pos_left (Nat.mul_pos (Nat.succ_pos _) (by decide)) _
  have hsound : (new cfg).Sound := by
    refine ⟨Nat.zero_le _, exact_new cfg, fun f hf => ?_⟩
    cases hf
  have hrun : (w.Sound ∧ w.link.cfg = cfg) ∧ w.Roomy x := by
    refine Run.run_invariant (I := fun w => (w.Sound ∧ w.link.cfg = cfg) ∧ w.Roomy x) (fun w act w' h he => ?_)
      ⟨⟨hsound, rfl⟩, hnew⟩ hr
    obtain ⟨⟨hs, hcfg⟩, hroomy⟩ := h
    obtain ⟨hs', hcfg'⟩ := hs.apply he
    exact ⟨⟨hs', hcfg'.trans hcfg⟩, hroomy.apply hs (hcfg ▸ hbuf) he⟩
  exact hrun.2

end Bench

/-- What the link infers of its queue, in every run. A frame is refused only if there is no
room for it behind the frames that have not left. No frame waits for longer than the link
needs for a full buffer. As long as the clock has not stopped, what waits is within the
buffer and what has left is within the rate, but for the rounding of each frame to a
microsecond. -/
theorem bottleneck_buffer {cfg : Bottleneck} (hbuf : (cfg.bufferBytes + 1) * 1000000 ≤ Instant.u64Max) {acts : List Act}
    {w : Bench} (hr : Run.run Bench.apply (.new cfg) acts = some w) (x : Side) :
    (∀ now frame, w.clock.micros ≤ now.micros → w.link.refuses now x frame = true →
        cfg.bufferBytes < bytes (cfg.present (w.accepted x) now) + frame.length) ∧
      (∀ s ∈ cfg.services (w.accepted x), Aqm.queueUs s * cfg.rate < (cfg.bufferBytes + 1) * 1000000) ∧
      ((w.link.nextFree x).micros < Instant.u64Max → ∀ now : Instant, w.clock.micros ≤ now.micros →
        bytes (cfg.waiting (w.accepted x) now) * 1000000 <
            (cfg.bufferBytes + 1) * 1000000 + (cfg.waiting (w.accepted x) now).length * cfg.rate ∧
          bytes (cfg.departed (w.accepted x) now) * 1000000 ≤
            (now.micros + (cfg.departed (w.accepted x) now).length) * cfg.rate) := by
  have hroomy := Bench.roomy_of_run hbuf hr x
  obtain ⟨h, rfl⟩ := Bench.sound_of_run hr
  refine ⟨fun now frame hnow href => ?_, hroomy.waits, fun hclock now hnow => ⟨hroomy.room hclock now hnow, ?_⟩⟩
  · rw [refuses, decide_eq_true_iff] at href
    have hle := (h.exact x).backlogBytes_le hnow
    omega
  · have hwork : 0 + Station.work (w.link.cfg.departed (w.accepted x) now) ≤ max 0 now.micros :=
      Station.done_le w.link.cfg.leave_forward 0 now.micros (w.accepted x)
    rw [Nat.zero_add, max_eq_right (Nat.zero_le _)] at hwork
    calc bytes (w.link.cfg.departed (w.accepted x) now) * 1000000 ≤
          (Station.work (w.link.cfg.departed (w.accepted x) now) +
            (w.link.cfg.departed (w.accepted x) now).length) * w.link.cfg.rate :=
          (h.exact x).bytes_le hroomy.fits hbuf hclock _
      _ ≤ (now.micros + (w.link.cfg.departed (w.accepted x) now).length) * w.link.cfg.rate :=
          Nat.mul_le_mul_right _ (Nat.add_le_add_right hwork _)

/-- A slow link with room for two frames; the third is refused, and the fifth is marked. -/
def narrow : Bottleneck := ⟨10, 40, 5, .ceMark 1000⟩

def crowd : List Act :=
  [.enqueue ⟨0⟩ .toServer (List.replicate 20 0), .enqueue ⟨1⟩ .toServer (List.replicate 20 0),
    .enqueue ⟨2⟩ .toServer (List.replicate 20 0), .enqueue ⟨3⟩ .toClient [1], .deliverDue ⟨200000⟩,
    .enqueue ⟨2000000⟩ .toServer (0 :: 2 :: List.replicate 18 0), .deliverDue ⟨2000005⟩]

theorem bottleneck_exact_crowd : ∃ w : Bench, Run.run Bench.apply (.new narrow) crowd = some w ∧
    ((w.refused .toServer).length = 1 ∧ (w.arrived.map InFlight.side) = [.toClient, .toServer]) ∧
    w.link.stats .toServer = statsOf narrow.aqm (narrow.services (w.accepted .toServer)) 1 := by
  obtain ⟨w, hr, hw⟩ := Run.exists_run Bench.apply (.new narrow) crowd
    (fun w => (w.refused .toServer).length = 1 ∧ (w.arrived.map InFlight.side) = [.toClient, .toServer])
    (by decide +kernel)
  have hstats := (bottleneck_exact hr .toServer).2.2.2
  rw [hw.1] at hstats
  exact ⟨w, hr, hw, hstats⟩

theorem bottleneck_buffer_crowd : ∃ w : Bench, Run.run Bench.apply (.new narrow) crowd = some w ∧
    ((w.link.nextFree .toServer).micros = 6000000 ∧ w.clock = ⟨2000005⟩) ∧
    bytes (narrow.waiting (w.accepted .toServer) ⟨2000005⟩) * 1000000 <
      (narrow.bufferBytes + 1) * 1000000 + (narrow.waiting (w.accepted .toServer) ⟨2000005⟩).length * narrow.rate := by
  obtain ⟨w, hr, hw⟩ := Run.exists_run Bench.apply (.new narrow) crowd
    (fun w => (w.link.nextFree .toServer).micros = 6000000 ∧ w.clock = ⟨2000005⟩) (by decide +kernel)
  have hclock : (w.link.nextFree .toServer).micros < Instant.u64Max := by
    rw [hw.1]
    decide
  have hnow : w.clock.micros ≤ (⟨2000005⟩ : Instant).micros := by rw [hw.2]
  exact ⟨w, hr, hw, ((bottleneck_buffer (by decide) hr .toServer).2.2 hclock ⟨2000005⟩ hnow).1⟩

end BottleneckLink

end Ferrumnet
