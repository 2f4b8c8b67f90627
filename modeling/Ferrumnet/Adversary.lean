import Ferrumnet.Bottleneck

/-
  The bottleneck of the adversary (`AdvLink` of `sim.rs`): data frames wait in a queue for a
  link whose rate follows a schedule, ACKs take only the propagation delay.

  Unlike `BottleneckLink` it keeps its queue, and serves it when it is told to catch up with
  the clock. A bench is a link with its history. Nothing reads the history.

  1. `adv_link_exact` — whatever the calls, at times that do not decrease: the link is the
     station whose customers are the frames it took. When it is told to catch up makes no
     difference to what it does.
  2. `flat_adv_is_bottleneck` — at a constant rate it does what `BottleneckLink` does, which
     has no queue.
-/

namespace Ferrumnet

open Station (Service)

def advSlices : Nat := 16

/-- What the adversary cannot change. -/
structure AdvEnv where
  baseRateBytesPerSec : Nat
  bufferBytes : Nat
  baseDelayUs : Nat
  /-- How long each entry of the schedule holds. -/
  sliceUs : Nat
  aqm : Aqm
  deriving DecidableEq, Repr

/-- The rates of a cycle, in percent of the base rate. -/
structure AdvTrace where
  schedule : Fin advSlices → Nat
  deriving DecidableEq

namespace AdvTrace

/-- The constant base rate. -/
def flat : AdvTrace := ⟨fun _ => 100⟩

/-- The slice that holds at `t`. -/
def slice (env : AdvEnv) (t : Instant) : Fin advSlices :=
  ⟨t.micros / max env.sliceUs 1 % advSlices, Nat.mod_lt _ (by decide)⟩

def rateAt (trace : AdvTrace) (env : AdvEnv) (t : Instant) : Nat :=
  max (min (env.baseRateBytesPerSec * trace.schedule (slice env t)) Instant.u64Max / 100) 1

end AdvTrace

/-- A data frame in the queue. -/
abbrev AdvQueued := QueuedFrame

/-- Recorded on arrival; a frame that waits does not change. -/
def QueuedFrame.len (f : QueuedFrame) : Nat := f.frame.length

structure AdvLink where
  env : AdvEnv
  trace : AdvTrace
  queue : List AdvQueued
  queuedBytes : Nat
  /-- When the link finishes the frame it is sending. -/
  linkFreeAt : Instant
  inflight : List InFlight
  order : Nat
  sumQueueUs : Nat
  maxQueueUs : Nat
  delivered : Nat
  dropped : Nat
  marked : Nat

namespace AdvLink

abbrev Side := Link.Side

def new (env : AdvEnv) (trace : AdvTrace) : AdvLink :=
  { env := env, trace := trace, queue := [], queuedBytes := 0, linkFreeAt := ⟨0⟩, inflight := [], order := 0
    sumQueueUs := 0, maxQueueUs := 0, delivered := 0, dropped := 0, marked := 0 }

def refuses (l : AdvLink) (frame : List UInt8) : Bool := decide (l.queuedBytes + frame.length > l.env.bufferBytes)

def enqueueData (l : AdvLink) (now : Instant) (frame : List UInt8) : AdvLink :=
  if l.refuses frame then { l with dropped := l.dropped + 1 }
  else { l with queuedBytes := l.queuedBytes + frame.length, queue := l.queue ++ [⟨now, frame⟩] }

/-- An ACK is on its way at once. -/
def enqueueAck (l : AdvLink) (now : Instant) (frame : List UInt8) : AdvLink :=
  { l with
    order := l.order + 1
    inflight := l.inflight ++ [⟨now.plusMicros l.env.baseDelayUs, .toClient, l.order, frame⟩] }

/-- Serialise the head of the queue, at the rate that holds when that begins. -/
def serve (l : AdvLink) (f : AdvQueued) (rest : List AdvQueued) : AdvLink :=
  let start := if l.linkFreeAt.micros > f.arrival.micros then l.linkFreeAt else f.arrival
  let queueUs := start.saturatingMicrosSince f.arrival
  let rate := l.trace.rateAt l.env start
  let serializeUs := min (f.len * 1000000) Instant.u64Max / rate
  let free := start.plusMicros serializeUs
  let ce := l.env.aqm.marks queueUs f.frame
  { l with
    queue := rest
    queuedBytes := l.queuedBytes - f.len
    linkFreeAt := free
    marked := if ce then l.marked + 1 else l.marked
    sumQueueUs := l.sumQueueUs + queueUs
    maxQueueUs := max l.maxQueueUs queueUs
    delivered := l.delivered + 1
    order := l.order + 1
    inflight := l.inflight ++ [⟨free.plusMicros l.env.baseDelayUs, .toServer, l.order,
      if ce then setEcn f.frame (UInt8.ofNat ecnCe) else f.frame⟩] }

/-- One round of the loop, `none` where the loop ends. -/
def serviceNext (l : AdvLink) (now : Instant) : Option AdvLink :=
  if l.linkFreeAt.micros ≤ now.micros then
    match l.queue with
    | [] => none
    | f :: rest => some (l.serve f rest)
  else none

/-- At most `n` rounds. -/
def serviceLoop (now : Instant) : Nat → AdvLink → AdvLink
  | 0, l => l
  | n + 1, l =>
    match l.serviceNext now with
    | none => l
    | some l' => serviceLoop now n l'

/-- Serve what the link can start by now; every round takes a frame off the queue. -/
def service (l : AdvLink) (now : Instant) : AdvLink := serviceLoop now l.queue.length l

/-- When the link has work: it is free for the next frame, or a frame arrives. -/
def nextEventAt (l : AdvLink) : Option Instant :=
  let t := Link.minDeliverAt l.inflight
  if l.queue.isEmpty then t
  else
    match t with
    | some t => some (if t.micros ≤ l.linkFreeAt.micros then t else l.linkFreeAt)
    | none => some l.linkFreeAt

def deliverDue (l : AdvLink) (now : Instant) : AdvLink × List InFlight :=
  let p := Link.flushDue l.inflight now
  ({ l with inflight := p.1 }, p.2)

def meanQueueUs (l : AdvLink) : Nat := if l.delivered > 0 then l.sumQueueUs / l.delivered else 0

/-! ## Benches -/

structure Bench where
  link : AdvLink
  /-- The time of the last call. -/
  clock : Instant
  accepted : List AdvQueued
  refused : List AdvQueued
  acks : List QueuedFrame
  arrived : List InFlight

inductive Act where
  | enqueueData (now : Instant) (frame : List UInt8)
  | enqueueAck (now : Instant) (frame : List UInt8)
  | service (now : Instant)
  | deliverDue (now : Instant)
  deriving DecidableEq, Repr

def Act.now : Act → Instant
  | .enqueueData now _ => now
  | .enqueueAck now _ => now
  | .service now => now
  | .deliverDue now => now

namespace Bench

def new (env : AdvEnv) (trace : AdvTrace) : Bench := ⟨AdvLink.new env trace, ⟨0⟩, [], [], [], []⟩

/-- A call at a time not before that of the last. -/
def apply (w : Bench) (act : Act) : Option Bench :=
  if w.clock.micros ≤ act.now.micros ∧ act.now.micros ≤ Instant.u64Max then
    let w := { w with clock := act.now }
    match act with
    | .enqueueData now frame =>
      let w' := { w with link := w.link.enqueueData now frame }
      if w.link.refuses frame then some { w' with refused := w.refused ++ [⟨now, frame⟩] }
      else some { w' with accepted := w.accepted ++ [⟨now, frame⟩] }
    | .enqueueAck now frame => some { w with link := w.link.enqueueAck now frame, acks := w.acks ++ [⟨now, frame⟩] }
    | .service now => some { w with link := w.link.service now }
    | .deliverDue now =>
      let p := w.link.deliverDue now
      some { w with link := p.1, arrived := w.arrived ++ p.2 }
  else none

end Bench

end AdvLink

/-! ## The station -/

namespace AdvTrace

variable (env : AdvEnv) (trace : AdvTrace)

/-- When the link has sent a frame that it starts to send at `s`. -/
def leave (s : Nat) (q : AdvQueued) : Nat :=
  leaveAt s (min (q.len * 1000000) Instant.u64Max / trace.rateAt env ⟨s⟩)

/-- What the link does with the data frames. -/
def services (l : List AdvQueued) : List (Service AdvQueued) :=
  Station.schedule QueuedFrame.micros (trace.leave env) 0 l

def nextFree (l : List AdvQueued) : Nat := Station.freeAfter QueuedFrame.micros (trace.leave env) 0 l

theorem leave_forward : Station.Forward (trace.leave env) := fun s _ => Nat.le_add_right s _

end AdvTrace

namespace AdvLink

/-! ## One frame -/

/-- What the link makes of the head of its queue: one more service of the station. -/
def takes (l : AdvLink) (s : Service AdvQueued) (rest : List AdvQueued) : AdvLink :=
  { l with
    queue := rest
    queuedBytes := l.queuedBytes - s.customer.len
    linkFreeAt := ⟨s.free⟩
    marked := if l.env.aqm.marked s then l.marked + 1 else l.marked
    sumQueueUs := l.sumQueueUs + Aqm.queueUs s
    maxQueueUs := max l.maxQueueUs (Aqm.queueUs s)
    delivered := l.delivered + 1
    order := l.order + 1
    inflight := l.inflight ++ [⟨(l.env.aqm.sent l.env.baseDelayUs s).1, .toServer, l.order,
      (l.env.aqm.sent l.env.baseDelayUs s).2⟩] }

theorem serve_takes {l : AdvLink} {f : AdvQueued} (rest : List AdvQueued) (hfree : l.linkFreeAt.micros ≤ Instant.u64Max)
    (hf : f.micros ≤ Instant.u64Max) : l.serve f rest =
      l.takes (Station.serve QueuedFrame.micros (l.trace.leave l.env) l.linkFreeAt.micros f) rest := by
  have hdepart : Instant.plusMicros ⟨max l.linkFreeAt.micros f.arrival.micros⟩
      (min (f.len * 1000000) Instant.u64Max / l.trace.rateAt l.env ⟨max l.linkFreeAt.micros f.arrival.micros⟩) =
      ⟨l.trace.leave l.env (max l.linkFreeAt.micros f.arrival.micros) f⟩ :=
    congrArg Instant.mk (leaveAt_eq (max_le hfree hf) _).symm
  unfold serve
  rw [later_eq]
  dsimp only
  rw [hdepart]
  rfl

namespace Bench

variable {w w' : Bench} {now : Instant} {frame : List UInt8} {done : List AdvQueued}

/-- The link is a station whose customers are the frames that were taken; it has served `done`. -/
structure Sound (w : Bench) (done : List AdvQueued) : Prop where
  clock : w.clock.micros ≤ Instant.u64Max
  split : w.accepted = done ++ w.link.queue
  arrivals : ∀ q ∈ w.accepted, q.micros ≤ w.clock.micros
  range : w.link.linkFreeAt.micros ≤ Instant.u64Max
  free : w.link.linkFreeAt.micros = w.link.trace.nextFree w.link.env done
  started : ∀ s ∈ w.link.trace.services w.link.env done, s.start ≤ w.clock.micros
  track : Track w.arrived w.link.inflight w.link.order .toServer
    ((w.link.trace.services w.link.env done).map (w.link.env.aqm.sent w.link.env.baseDelayUs))
  acked : Track w.arrived w.link.inflight w.link.order .toClient
    (w.acks.map fun q => (q.arrival.plusMicros w.link.env.baseDelayUs, q.frame))
  ackTimes : ∀ q ∈ w.acks, q.micros ≤ w.clock.micros
  summed : Summed w.link.env.aqm (w.link.trace.services w.link.env done) w.link.sumQueueUs w.link.maxQueueUs
    w.link.delivered w.link.marked
  bytes : w.link.queuedBytes = (w.link.queue.map QueuedFrame.len).sum
  fits : w.link.queuedBytes ≤ w.link.env.bufferBytes
  dropped : w.link.dropped = w.refused.length
  past : ∀ f ∈ w.arrived, f.deliverAt.micros ≤ w.clock.micros

theorem sound_new (env : AdvEnv) (trace : AdvTrace) : (new env trace).Sound [] where
  clock := Nat.zero_le _
  split := rfl
  arrivals q hq := by cases hq
  range := Nat.zero_le _
  free := rfl
  started s hs := by cases hs
  track := .nil _
  acked := .nil _
  ackTimes q hq := by cases hq
  summed := ⟨rfl, rfl, rfl, rfl⟩
  bytes := rfl
  fits := Nat.zero_le _
  dropped := rfl
  past f hf := by cases hf

/-- Time passes. -/
theorem Sound.tick (h : w.Sound done) (hnow : w.clock.micros ≤ now.micros) (hmax : now.micros ≤ Instant.u64Max) :
    Sound { w with clock := now } done :=
  { h with
    clock := hmax
    arrivals := fun q hq => (h.arrivals q hq).trans hnow
    started := fun s hs => (h.started s hs).trans hnow
    ackTimes := fun q hq => (h.ackTimes q hq).trans hnow
    past := fun f hf => (h.past f hf).trans hnow }

/-! ## Arrivals -/

theorem Sound.refuse (h : w.Sound done) (q : AdvQueued) :
    Sound { w with link := { w.link with dropped := w.link.dropped + 1 }, refused := w.refused ++ [q] } done :=
  { h with
    dropped := by
      rw [List.length_append, List.length_singleton, ← h.dropped] }

theorem Sound.accept (h : w.Sound done) (hr : w.link.refuses frame = false) :
    Sound { w with
      link := { w.link with
        queuedBytes := w.link.queuedBytes + frame.length, queue := w.link.queue ++ [⟨w.clock, frame⟩] }
      accepted := w.accepted ++ [⟨w.clock, frame⟩] } done := by
  rw [refuses, decide_eq_false_iff_not, not_lt] at hr
  refine { h with split := ?_, arrivals := fun q hq => ?_, bytes := ?_, fits := hr }
  · rw [h.split, List.append_assoc]
  · rcases List.mem_append.mp hq with hq | hq
    · exact h.arrivals q hq
    · cases List.mem_singleton.mp hq
      exact le_rfl
  · rw [List.map_append, List.sum_append, ← h.bytes]
    rfl

theorem ack_ne_data : (.toClient : Side) ≠ .toServer := by decide

theorem Sound.ack (h : w.Sound done) (frame : List UInt8) :
    Sound { w with link := w.link.enqueueAck w.clock frame, acks := w.acks ++ [⟨w.clock, frame⟩] } done := by
  refine { h with track := ?_, acked := ?_, ackTimes := fun q hq => ?_ }
  · exact h.track.other rfl ack_ne_data
  · show Track _ _ _ _ ((w.acks ++ [_]).map _)
    rw [List.map_append]
    refine h.acked.push fun d hd => ?_
    obtain ⟨q, hq, rfl⟩ := List.mem_map.mp hd
    exact min_le_min_right _ (Nat.add_le_add_right (h.ackTimes q hq) _)
  · rcases List.mem_append.mp hq with hq | hq
    · exact h.ackTimes q hq
    · cases List.mem_singleton.mp hq
      exact le_rfl

/-! ## Services -/

/-- One round. -/
theorem Sound.serve (h : w.Sound done) {f : AdvQueued} {rest : List AdvQueued} (hq : w.link.queue = f :: rest)
    (hfree : w.link.linkFreeAt.micros ≤ w.clock.micros) :
    Sound { w with link := w.link.serve f rest } (done ++ [f]) := by
  have hf : f.micros ≤ w.clock.micros := h.arrivals f (h.split ▸ hq ▸ List.mem_append_right _ List.mem_cons_self)
  rw [serve_takes rest h.range (hf.trans h.clock)]
  have hnext : w.link.trace.nextFree w.link.env done = w.link.linkFreeAt.micros := h.free.symm
  generalize hs : Station.serve QueuedFrame.micros (w.link.trace.leave w.link.env) w.link.linkFreeAt.micros f = s
  have hservices : w.link.trace.services w.link.env (done ++ [f]) = w.link.trace.services w.link.env done ++ [s] := by
    rw [AdvTrace.services, Station.schedule_append, ← hs, ← hnext]
    rfl
  have hafter : w.link.trace.nextFree w.link.env (done ++ [f]) = s.free := by
    rw [AdvTrace.nextFree, Station.freeAfter_append, ← hs, ← hnext]
    rfl
  have hlater : w.link.linkFreeAt.micros ≤ s.free := by
    rw [← hs]
    exact (le_max_left _ _).trans (w.link.trace.leave_forward w.link.env _ _)
  have hcust : s.customer = f := by rw [← hs]; rfl
  have hbytes := h.bytes
  rw [hq, List.map_cons, List.sum_cons] at hbytes
  refine ⟨h.clock, ?_, h.arrivals, ?_, hafter.symm, fun t ht => ?_, ?_, h.acked.other rfl ack_ne_data.symm, h.ackTimes, ?_, ?_, ?_,
    h.dropped, h.past⟩
  · rw [h.split, hq, List.append_assoc]
    rfl
  · show s.free ≤ _
    rw [← hs]
    exact leaveAt_le (max_le h.range (hf.trans h.clock)) _
  · change t ∈ w.link.trace.services w.link.env (done ++ [f]) at ht
    rw [hservices] at ht
    rcases List.mem_append.mp ht with ht | ht
    · exact h.started t ht
    · cases List.mem_singleton.mp ht
      rw [← hs]
      exact max_le hfree hf
  · show Track _ _ _ _ ((w.link.trace.services w.link.env (done ++ [f])).map _)
    rw [hservices, List.map_append]
    refine h.track.push fun d hd => ?_
    obtain ⟨t, ht, rfl⟩ := List.mem_map.mp hd
    obtain ⟨-, -, -, hlast⟩ := Station.mem_schedule (w.link.trace.leave_forward w.link.env) ht
    exact min_le_min_right _ (Nat.add_le_add_right ((hlast.trans hnext.le).trans hlater) _)
  · show Summed _ (w.link.trace.services w.link.env (done ++ [f])) _ _ _ _
    rw [hservices]
    exact h.summed.push s
  · show w.link.queuedBytes - s.customer.len = (rest.map QueuedFrame.len).sum
    rw [hcust]
    omega
  · exact (Nat.sub_le _ _).trans h.fits

theorem serviceNext_cases {l l' : AdvLink} (h : l.serviceNext now = some l') :
    l.linkFreeAt.micros ≤ now.micros ∧ ∃ f rest, l.queue = f :: rest ∧ l' = l.serve f rest := by
  unfold serviceNext at h
  split at h
  · rename_i hfree
    cases hq : l.queue with
    | nil =>
      rw [hq] at h
      cases h
    | cons f rest =>
      rw [hq] at h
      cases h
      exact ⟨hfree, f, rest, rfl, rfl⟩
  · cases h

theorem serviceNext_eq_none {l : AdvLink} (h : l.serviceNext now = none) :
    now.micros < l.linkFreeAt.micros ∨ l.queue = [] := by
  unfold serviceNext at h
  split at h
  · cases hq : l.queue with
    | nil => exact .inr rfl
    | cons f rest =>
      rw [hq] at h
      cases h
  · rename_i hfree
    exact .inl (not_le.mp hfree)

/-- Every round of the loop is a service, and the loop ends for want of frames or because the
link is busy. -/
theorem Sound.service (h : w.Sound done) : (∃ more, Sound { w with link := w.link.service w.clock } (done ++ more)) ∧
    (w.clock.micros < (w.link.service w.clock).linkFreeAt.micros ∨ (w.link.service w.clock).queue = []) := by
  have hloop : ∀ n (w : Bench) done, w.Sound done → w.link.queue.length ≤ n →
      (∃ more, Sound { w with link := serviceLoop w.clock n w.link } (done ++ more)) ∧
        (serviceLoop w.clock n w.link).serviceNext w.clock = none := by
    intro n
    induction n with
    | zero =>
      intro w done h hn
      refine ⟨⟨[], by rw [List.append_nil]; exact h⟩, ?_⟩
      have hq := List.length_eq_zero_iff.mp (Nat.le_zero.mp hn)
      show w.link.serviceNext w.clock = none
      unfold serviceNext
      rw [hq]
      split <;> rfl
    | succ n ih =>
      intro w done h hn
      rw [serviceLoop]
      cases hnext : w.link.serviceNext w.clock with
      | none => exact ⟨⟨[], by rw [List.append_nil]; exact h⟩, hnext⟩
      | some l' =>
        obtain ⟨hfree, f, rest, hq, rfl⟩ := serviceNext_cases hnext
        have hlen : rest.length ≤ n := by
          rw [hq, List.length_cons] at hn
          omega
        obtain ⟨⟨more, hmore⟩, hend⟩ := ih _ _ (h.serve hq hfree) hlen
        refine ⟨⟨f :: more, ?_⟩, hend⟩
        rw [List.append_assoc] at hmore
        exact hmore
  obtain ⟨hmore, hend⟩ := hloop _ w done h le_rfl
  exact ⟨hmore, serviceNext_eq_none hend⟩

theorem Sound.deliverDue (h : w.Sound done) : Sound
    { w with link := (w.link.deliverDue w.clock).1, arrived := w.arrived ++ (w.link.deliverDue w.clock).2 } done := by
  refine { h with track := h.track.flush w.clock, acked := h.acked.flush w.clock, past := fun f hf => ?_ }
  rcases List.mem_append.mp hf with hf | hf
  · exact h.past f hf
  · have hmem := (List.mergeSort_perm _ Link.before).mem_iff.mp hf
    exact of_decide_eq_true (List.mem_filter.mp hmem).2

/-! ## Whole runs -/

theorem Sound.enqueueData (h : w.Sound done) (frame : List UInt8) : Sound
    (if w.link.refuses frame then
      { w with link := w.link.enqueueData w.clock frame, refused := w.refused ++ [⟨w.clock, frame⟩] }
    else { w with link := w.link.enqueueData w.clock frame, accepted := w.accepted ++ [⟨w.clock, frame⟩] }) done := by
  cases hr : w.link.refuses frame with
  | true =>
    have hlink : w.link.enqueueData w.clock frame = { w.link with dropped := w.link.dropped + 1 } := by
      unfold AdvLink.enqueueData
      rw [if_pos hr]
    rw [hlink]
    exact h.refuse _
  | false =>
    have hlink : w.link.enqueueData w.clock frame = { w.link with
        queuedBytes := w.link.queuedBytes + frame.length, queue := w.link.queue ++ [⟨w.clock, frame⟩] } := by
      unfold AdvLink.enqueueData
      rw [hr]
      rfl
    rw [hlink]
    exact h.accept hr

theorem env_serviceLoop (now : Instant) (n : Nat) (l : AdvLink) :
    (serviceLoop now n l).env = l.env ∧ (serviceLoop now n l).trace = l.trace := by
  induction n generalizing l with
  | zero => exact ⟨rfl, rfl⟩
  | succ n ih =>
    rw [serviceLoop]
    cases hnext : l.serviceNext now with
    | none => exact ⟨rfl, rfl⟩
    | some l' =>
      obtain ⟨-, f, rest, -, rfl⟩ := serviceNext_cases hnext
      exact ih _

theorem env_enqueueData (l : AdvLink) (now : Instant) (frame : List UInt8) :
    (l.enqueueData now frame).env = l.env ∧ (l.enqueueData now frame).trace = l.trace := by
  unfold AdvLink.enqueueData
  split <;> exact ⟨rfl, rfl⟩

theorem Sound.apply (h : w.Sound done) {act : Act} (he : w.apply act = some w') :
    (∃ more, w'.Sound (done ++ more)) ∧ w'.link.env = w.link.env ∧ w'.link.trace = w.link.trace := by
  unfold Bench.apply at he
  split at he
  · rename_i htime
    have htick := h.tick htime.1 htime.2
    cases act with
    | enqueueData now frame =>
      have hdata := htick.enqueueData frame
      have henv := env_enqueueData w.link now frame
      dsimp only [Act.now] at he hdata
      split at he
      · rename_i hr
        rw [if_pos hr] at hdata
        cases he
        exact ⟨⟨[], by rw [List.append_nil]; exact hdata⟩, henv⟩
      · rename_i hr
        rw [if_neg hr] at hdata
        cases he
        exact ⟨⟨[], by rw [List.append_nil]; exact hdata⟩, henv⟩
    | enqueueAck now frame =>
      cases he
      exact ⟨⟨[], by rw [List.append_nil]; exact htick.ack frame⟩, rfl, rfl⟩
    | service now =>
      cases he
      exact ⟨htick.service.1, env_serviceLoop _ _ _⟩
    | deliverDue now =>
      cases he
      exact ⟨⟨[], by rw [List.append_nil]; exact htick.deliverDue⟩, rfl, rfl⟩
  · cases he

theorem sound_of_run {env : AdvEnv} {trace : AdvTrace} {acts : List Act}
    (hr : Run.run Bench.apply (new env trace) acts = some w) :
    (∃ done, w.Sound done) ∧ w.link.env = env ∧ w.link.trace = trace := by
  refine Run.run_invariant (I := fun w : Bench => (∃ done, w.Sound done) ∧ w.link.env = env ∧ w.link.trace = trace)
    (fun w act w' h he => ?_) ⟨⟨[], sound_new env trace⟩, rfl, rfl⟩ hr
  obtain ⟨⟨done, h⟩, henv, htrace⟩ := h
  obtain ⟨⟨more, h'⟩, henv', htrace'⟩ := h.apply he
  exact ⟨⟨_, h'⟩, henv'.trans henv, htrace'.trans htrace⟩

end Bench

/-- The data frame that a call offers. -/
def Act.data : Act → Option AdvQueued
  | .enqueueData now frame => some ⟨now, frame⟩
  | _ => none

/-- The ACK that a call sends. -/
def Act.ack : Act → Option QueuedFrame
  | .enqueueAck now frame => some ⟨now, frame⟩
  | _ => none

namespace Bench

variable {w w' : Bench}

/-- Each data frame is taken or refused, and each ACK is sent. -/
theorem offers_of_run {acts : List Act} (hr : Run.run Bench.apply w acts = some w') :
    w'.acks = w.acks ++ acts.filterMap Act.ack ∧ ∃ a r, w'.accepted = w.accepted ++ a ∧ w'.refused = w.refused ++ r ∧
      a.Sublist (acts.filterMap Act.data) ∧ (a ++ r).Perm (acts.filterMap Act.data) := by
  induction acts generalizing w with
  | nil =>
    cases hr
    exact ⟨(List.append_nil _).symm, [], [], (List.append_nil _).symm, (List.append_nil _).symm, .slnil, .nil⟩
  | cons act acts ih =>
    obtain ⟨u, hu, hr⟩ := Run.run_cons.mp hr
    obtain ⟨hacks, a, r, ha, hrej, hsub, hperm⟩ := ih hr
    unfold Bench.apply at hu
    split at hu
    · cases act with
      | enqueueData now frame =>
        have hhead : Act.data (.enqueueData now frame) = some ⟨now, frame⟩ := rfl
        rw [List.filterMap_cons_some hhead]
        dsimp only at hu
        split at hu
        · cases hu
          refine ⟨hacks, a, ⟨now, frame⟩ :: r, ha, ?_, hsub.cons _, ?_⟩
          · rw [hrej, List.append_assoc]
            rfl
          · exact List.perm_middle.trans (hperm.cons _)
        · cases hu
          refine ⟨hacks, ⟨now, frame⟩ :: a, r, ?_, hrej, hsub.cons_cons _, hperm.cons _⟩
          rw [ha, List.append_assoc]
          rfl
      | enqueueAck now frame =>
        cases hu
        refine ⟨?_, a, r, ha, hrej, hsub, hperm⟩
        rw [hacks, List.append_assoc]
        rfl
      | service now =>
        cases hu
        exact ⟨hacks, a, r, ha, hrej, hsub, hperm⟩
      | deliverDue now =>
        cases hu
        exact ⟨hacks, a, r, ha, hrej, hsub, hperm⟩
    · cases hu

/-- After the link has caught up, it has served those whose service starts by then. -/
theorem Sound.caught_up {done : List AdvQueued} (h : w.Sound done) :
    carriedTo .toServer (w.arrived ++ (w.link.service w.clock).inflight) =
    ((w.link.trace.services w.link.env w.accepted).filter fun s => decide (s.start ≤ w.clock.micros)).map
      (w.link.env.aqm.sent w.link.env.baseDelayUs) := by
  obtain ⟨⟨more, hmore⟩, hend⟩ := h.service
  obtain ⟨henv, htrace⟩ := env_serviceLoop w.clock w.link.queue.length w.link
  change (w.link.service w.clock).env = _ at henv
  change (w.link.service w.clock).trace = _ at htrace
  have hcarried := hmore.track.carried
  have hstarted := hmore.started
  have hsplit := hmore.split
  have hfree := hmore.free
  rw [henv, htrace] at hcarried hfree
  simp only [henv, htrace] at hstarted
  rw [hfree] at hend
  change w.accepted = _ at hsplit
  rw [hsplit]
  refine hcarried.trans (congrArg _ ?_)
  exact Station.eq_filter_start (w.link.trace.leave_forward w.link.env) hstarted hend

/-- After the link has caught up and what is due has arrived, it has no work before its next
event, and none at all if there is no such event. -/
theorem Sound.next_event {done : List AdvQueued} (h : w.Sound done) :
    (∀ t, ((w.link.service w.clock).deliverDue w.clock).1.nextEventAt = some t → w.clock.micros < t.micros) ∧
      (((w.link.service w.clock).deliverDue w.clock).1.nextEventAt = none →
        (w.link.service w.clock).queue = [] ∧ ((w.link.service w.clock).deliverDue w.clock).1.inflight = []) := by
  obtain ⟨-, hend⟩ := h.service
  generalize w.link.service w.clock = l at hend ⊢
  have hlate : ∀ t, Link.minDeliverAt (l.deliverDue w.clock).1.inflight = some t → w.clock.micros < t.micros := by
    intro t ht
    obtain ⟨m, hmin, rfl⟩ := Option.map_eq_some_iff.mp ht
    obtain ⟨f, hf, rfl⟩ := List.mem_map.mp (List.min?_eq_some_iff.mp hmin).1
    have hnot := (List.mem_filter.mp hf).2
    rw [Link.isDue, Bool.not_eq_true', decide_eq_false_iff_not] at hnot
    exact not_le.mp hnot
  have hqueue : (l.deliverDue w.clock).1.queue = l.queue := rfl
  have hfree : (l.deliverDue w.clock).1.linkFreeAt = l.linkFreeAt := rfl
  unfold AdvLink.nextEventAt
  rw [hqueue, hfree]
  cases hq : l.queue with
  | nil =>
    refine ⟨hlate, fun hnone => ⟨rfl, ?_⟩⟩
    have hmin := Option.map_eq_none_iff.mp hnone
    exact List.map_eq_nil_iff.mp (List.min?_eq_none_iff.mp hmin)
  | cons f rest =>
    have hbusy : w.clock.micros < l.linkFreeAt.micros := by
      rcases hend with hbusy | hnil
      · exact hbusy
      · rw [hq] at hnil
        cases hnil
    cases hmin : Link.minDeliverAt (l.deliverDue w.clock).1.inflight with
    | none =>
      refine ⟨fun t ht => ?_, fun hnone => ?_⟩
      · cases ht
        exact hbusy
      · cases hnone
    | some m =>
      have hm := hlate m hmin
      refine ⟨fun t ht => ?_, fun hnone => ?_⟩
      · cases ht
        split
        · exact hm
        · exact hbusy
      · cases hnone

end Bench

/-- Whatever is called, in any order and at times that do not decrease: every data frame is
taken or refused, and the link is the station that serves those it took, each at the rate
that holds when its service starts. It has served some of them, of which the statistics are,
and queues the rest, within its buffer; ACKs take the propagation delay. When it catches up
with the clock, it has served exactly those whose service starts by then, whenever it was
told to before; and after that it needs no call before its next event. -/
theorem adv_link_exact {env : AdvEnv} {trace : AdvTrace} {acts : List Act} {w : Bench}
    (hr : Run.run Bench.apply (.new env trace) acts = some w) :
    (w.accepted.Sublist (acts.filterMap Act.data) ∧ (w.accepted ++ w.refused).Perm (acts.filterMap Act.data) ∧
        w.link.dropped = w.refused.length) ∧
      (∃ done, w.accepted = done ++ w.link.queue ∧
        carriedTo .toServer (w.arrived ++ w.link.inflight) = (trace.services env done).map (env.aqm.sent env.baseDelayUs) ∧
        Summed env.aqm (trace.services env done) w.link.sumQueueUs w.link.maxQueueUs w.link.delivered w.link.marked) ∧
      (w.link.queuedBytes = (w.link.queue.map QueuedFrame.len).sum ∧ w.link.queuedBytes ≤ env.bufferBytes) ∧
      carriedTo .toClient (w.arrived ++ w.link.inflight) =
        (acts.filterMap Act.ack).map (fun q => (q.arrival.plusMicros env.baseDelayUs, q.frame)) ∧
      ∀ now : Instant, w.clock.micros ≤ now.micros → now.micros ≤ Instant.u64Max →
        carriedTo .toServer (w.arrived ++ (w.link.service now).inflight) =
            ((trace.services env w.accepted).filter fun s => decide (s.start ≤ now.micros)).map
              (env.aqm.sent env.baseDelayUs) ∧
          (∀ t, ((w.link.service now).deliverDue now).1.nextEventAt = some t → now.micros < t.micros) ∧
          (((w.link.service now).deliverDue now).1.nextEventAt = none →
            (w.link.service now).queue = [] ∧ ((w.link.service now).deliverDue now).1.inflight = []) := by
  obtain ⟨⟨done, h⟩, rfl, rfl⟩ := Bench.sound_of_run hr
  obtain ⟨hacks, a, r, ha, hrej, hsub, hperm⟩ := Bench.offers_of_run hr
  change w.acks = [] ++ _ at hacks
  change w.accepted = [] ++ a at ha
  change w.refused = [] ++ r at hrej
  rw [List.nil_append] at hacks ha hrej
  refine ⟨⟨ha ▸ hsub, ha ▸ hrej ▸ hperm, h.dropped⟩, ⟨done, h.split, h.track.carried, h.summed⟩, ⟨h.bytes, h.fits⟩, ?_, ?_⟩
  · rw [← hacks]
    exact h.acked.carried
  · intro now hnow hmax
    have htick := h.tick hnow hmax
    exact ⟨htick.caught_up, htick.next_event⟩

/-- Two frames at the base rate and one at a third of it; the fourth finds the buffer full. -/
def swing : AdvTrace := ⟨fun i => if i.val < 2 then 100 else 33⟩

def squeeze : List Act :=
  [.enqueueData ⟨0⟩ (List.replicate 10 0), .enqueueData ⟨0⟩ (List.replicate 10 0), .service ⟨5⟩,
    .enqueueData ⟨6⟩ (0 :: 2 :: List.replicate 18 0), .enqueueData ⟨7⟩ (List.replicate 20 0), .enqueueAck ⟨8⟩ [1],
    .service ⟨30⟩]

theorem adv_link_exact_squeeze : ∃ w : Bench, Run.run Bench.apply (.new ⟨1000000, 30, 5, 10, .ceMark 10⟩ swing) squeeze = some w ∧
    (w.refused.length = 1 ∧ w.link.marked = 1 ∧ w.link.linkFreeAt = ⟨80⟩) ∧
    (w.accepted ++ w.refused).Perm (squeeze.filterMap Act.data) := by
  obtain ⟨w, hr, hw⟩ := Run.exists_run Bench.apply (.new ⟨1000000, 30, 5, 10, .ceMark 10⟩ swing) squeeze
    (fun w => w.refused.length = 1 ∧ w.link.marked = 1 ∧ w.link.linkFreeAt = ⟨80⟩) (by decide +kernel)
  exact ⟨w, hr, hw, (adv_link_exact hr).1.2.1⟩

end AdvLink

/-! ## The constant rate -/

/-- The bottleneck with the base rate. -/
def AdvEnv.bottleneck (env : AdvEnv) (bufferBytes : Nat) : Bottleneck :=
  ⟨env.baseRateBytesPerSec, bufferBytes, env.baseDelayUs, env.aqm⟩

/-- On the flat trace the rate is the base rate. -/
theorem AdvTrace.leave_flat {env : AdvEnv} (hrate : env.baseRateBytesPerSec * 100 ≤ Instant.u64Max) (bufferBytes : Nat) :
    AdvTrace.flat.leave env = (env.bottleneck bufferBytes).leave := by
  have hflat : ∀ t, AdvTrace.flat.rateAt env t = (env.bottleneck bufferBytes).rate := by
    intro t
    show max (min (env.baseRateBytesPerSec * 100) Instant.u64Max / 100) 1 = max env.baseRateBytesPerSec 1
    rw [min_eq_left hrate, Nat.mul_div_cancel _ (by decide)]
  funext s q
  rw [AdvTrace.leave, hflat]
  rfl

open BottleneckLink in
/-- At a constant rate the two designs are one. Whatever is called on the link with the queue,
and whatever on the link without: if they take the same data frames, then these leave at the
same times with the same marks, as far as the queue has been served; and once it is empty the
statistics are the same. -/
theorem flat_adv_is_bottleneck {env : AdvEnv} (hrate : env.baseRateBytesPerSec * 100 ≤ Instant.u64Max)
    {acts : List AdvLink.Act} {w : AdvLink.Bench} (hr : Run.run AdvLink.Bench.apply (.new env .flat) acts = some w)
    {bufferBytes : Nat} {acts' : List Link.Act} {v : BottleneckLink.Bench}
    (hr' : Run.run BottleneckLink.Bench.apply (.new (env.bottleneck bufferBytes)) acts' = some v)
    (hsame : v.accepted .toServer = w.accepted) :
    carriedTo .toServer (w.arrived ++ w.link.inflight) =
        (carriedTo .toServer (v.arrived ++ v.link.inflight)).take w.link.delivered ∧
      (w.link.queue = [] → v.link.stats .toServer =
        ⟨w.link.maxQueueUs, w.link.meanQueueUs, w.link.delivered, (v.refused .toServer).length, w.link.marked⟩) := by
  obtain ⟨⟨done, h⟩, henv, htrace⟩ := AdvLink.Bench.sound_of_run hr
  obtain ⟨h', hcfg⟩ := Bench.sound_of_run hr'
  have hsplit := h.split
  have hcarried := h.track.carried
  have hsummed := h.summed
  have hcarried' := (h'.exact .toServer).track.carried
  have hstats := (h'.exact .toServer).stats_eq
  rw [htrace, henv] at hcarried hsummed
  rw [hcfg] at hcarried' hstats
  have hservices : ∀ l, AdvTrace.flat.services env l = (env.bottleneck bufferBytes).services l := by
    intro l
    rw [AdvTrace.services, AdvTrace.leave_flat hrate bufferBytes]
    rfl
  have hlen : w.link.delivered = done.length := by
    rw [hsummed.delivered, AdvTrace.services, Station.length_schedule]
  rw [hservices] at hcarried hsummed
  refine ⟨?_, fun hempty => ?_⟩
  · have htake : (env.bottleneck bufferBytes).services done =
        ((env.bottleneck bufferBytes).services (v.accepted .toServer)).take w.link.delivered := by
      rw [hsame, hsplit, hlen]
      exact (Station.take_schedule done w.link.queue).symm
    rw [hcarried, hcarried', htake, List.map_take]
    rfl
  · rw [hempty, List.append_nil] at hsplit
    rw [hstats, hsame, hsplit, AdvLink.meanQueueUs, hsummed.sum, hsummed.longest, hsummed.delivered, hsummed.marked]
    rfl

/-- Two frames, served late by one link and dated on arrival by the other. -/
theorem flat_adv_is_bottleneck_late : ∃ (w : AdvLink.Bench) (v : BottleneckLink.Bench),
    Run.run AdvLink.Bench.apply (.new ⟨10, 40, 5, 1, .tailDrop⟩ .flat)
      [.enqueueData ⟨0⟩ (List.replicate 20 0), .enqueueData ⟨1⟩ (List.replicate 20 0), .service ⟨3000000⟩] = some w ∧
    Run.run BottleneckLink.Bench.apply (.new ⟨10, 40, 5, .tailDrop⟩)
      [.enqueue ⟨0⟩ .toServer (List.replicate 20 0), .enqueue ⟨1⟩ .toServer (List.replicate 20 0)] = some v ∧
    v.link.stats .toServer = ⟨1999999, w.link.meanQueueUs, 2, 0, 0⟩ := by
  obtain ⟨w, hr, hw⟩ := Run.exists_run AdvLink.Bench.apply (.new ⟨10, 40, 5, 1, .tailDrop⟩ .flat)
    [.enqueueData ⟨0⟩ (List.replicate 20 0), .enqueueData ⟨1⟩ (List.replicate 20 0), .service ⟨3000000⟩]
    (fun w => w.accepted = [⟨⟨0⟩, List.replicate 20 0⟩, ⟨⟨1⟩, List.replicate 20 0⟩] ∧ w.link.queue = [] ∧
      w.link.maxQueueUs = 1999999 ∧ w.link.delivered = 2 ∧ w.link.marked = 0) (by decide +kernel)
  obtain ⟨v, hr', hv⟩ := Run.exists_run BottleneckLink.Bench.apply (.new ⟨10, 40, 5, .tailDrop⟩)
    [.enqueue ⟨0⟩ .toServer (List.replicate 20 0), .enqueue ⟨1⟩ .toServer (List.replicate 20 0)]
    (fun v => v.accepted .toServer = [⟨⟨0⟩, List.replicate 20 0⟩, ⟨⟨1⟩, List.replicate 20 0⟩] ∧
      (v.refused .toServer).length = 0) (by decide +kernel)
  obtain ⟨haccepted, hempty, hmax, hdelivered, hmarked⟩ := hw
  have hsame : v.accepted .toServer = w.accepted := hv.1.trans haccepted.symm
  have hstats := (flat_adv_is_bottleneck (by decide) hr hr' hsame).2 hempty
  rw [hmax, hdelivered, hmarked, hv.2] at hstats
  exact ⟨w, v, hr, hr', hstats⟩

end Ferrumnet
