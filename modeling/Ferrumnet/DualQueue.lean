import Mathlib.Data.List.Chain
import Mathlib.Logic.Function.Basic
import Ferrumnet.Lib.Run
import Ferrumnet.Lib.Agenda
import Ferrumnet.Ipv4

/-
  The dual-queue bottleneck of the simulator.

  Data frames wait in one of two queues, by their ECN codepoint, in front of a link that
  serves one frame at a time. `service` catches up with the clock: it serves every frame
  that the link can start by now. What has been served is on its way for the propagation
  delay, as is every ACK, which passes the queues by.

  A history stands beside the link: the frames offered and refused, what each service was
  like and what has arrived. Nothing reads it.

  1. `service_catches_up` — `service` leaves nothing that the link could start.
  2. `dual_queue_sound` — whatever the calls, at times that do not decrease: the counters
     are exact, no frame is lost or doubled, each class is first come first served, the
     link serves one frame at a time, and the classes alternate.
-/

namespace Ferrumnet

open TcpPacket (octet)

/-! ## Frames -/

def ecnEct1 : UInt8 := 1
def ecnEct0 : UInt8 := 2

def frameIsEct (frame : List UInt8) : Bool :=
  decide (20 ≤ frame.length) && (octet frame 1 &&& 0x03 == ecnEct0 || octet frame 1 &&& 0x03 == ecnEct1)

/-- Overwrite the codepoint and mend the header checksum. -/
def setEcn (frame : List UInt8) (ecn : UInt8) : List UInt8 :=
  if frame.length < 20 then frame
  else
    let frame := ((frame.set 1 (octet frame 1 &&& 0xFC ||| ecn &&& 0x03)).set 10 0).set 11 0
    let csum := ipChecksum (frame.take 20)
    (frame.set 10 (UInt8.ofNat (csum / 256))).set 11 (UInt8.ofNat csum)

/-- Only the codepoint and the checksum change. -/
theorem setEcn_other (frame : List UInt8) (ecn : UInt8) {i : Nat} (h1 : i ≠ 1) (h10 : i ≠ 10) (h11 : i ≠ 11) :
    (setEcn frame ecn)[i]? = frame[i]? := by
  unfold setEcn
  split
  · rfl
  · dsimp only
    rw [List.getElem?_set_ne (Ne.symm h11), List.getElem?_set_ne (Ne.symm h10), List.getElem?_set_ne (Ne.symm h11),
      List.getElem?_set_ne (Ne.symm h10), List.getElem?_set_ne (Ne.symm h1)]

structure DualQueue where
  rateBytesPerSec : Nat
  baseDelayUs : Nat
  /-- An L4S frame that waited longer is marked CE. -/
  l4sThresholdUs : Nat
  classicBufferBytes : Nat
  l4sBufferBytes : Nat
  deriving DecidableEq, Repr

/-- A frame in a class queue. -/
structure DqQueued where
  arrival : Instant
  flow : Fin 2
  frame : List UInt8
  deriving DecidableEq, Repr

/-- Recorded on arrival; a frame that waits does not change. -/
def DqQueued.len (f : DqQueued) : Nat := f.frame.length

namespace DualQueueLink

inductive Side where
  | toServer | toClient
  deriving DecidableEq, Repr

end DualQueueLink

/-- A frame past the bottleneck. -/
structure DqFlight where
  deliverAt : Instant
  flow : Fin 2
  side : DualQueueLink.Side
  order : Nat
  frame : List UInt8
  deriving DecidableEq, Repr

namespace DualQueueLink

/-- One service of the link. -/
structure Served where
  frame : DqQueued
  l4s : Bool
  /-- Both classes were backlogged. -/
  contested : Bool
  start : Instant
  /-- When the link was free again. -/
  free : Instant
  sent : DqFlight
  deriving DecidableEq, Repr

structure History where
  /-- The time of the last call. -/
  clock : Instant
  offered : List DqQueued
  refused : List DqQueued
  served : List Served
  arrived : List DqFlight

end DualQueueLink

structure DualQueueLink extends DualQueueLink.History where
  cfg : DualQueue
  l4s : List DqQueued
  classic : List DqQueued
  l4sBytes : Nat
  classicBytes : Nat
  /-- When the link finishes the frame it is sending. -/
  linkFreeAt : Instant
  serveL4sNext : Bool
  flight : List DqFlight
  order : Nat
  sumQueueUs : Fin 2 → Nat
  maxQueueUs : Fin 2 → Nat
  delivered : Fin 2 → Nat
  marked : Fin 2 → Nat
  dropped : Fin 2 → Nat

namespace DualQueueLink

/-- `stat[flow] += n`. -/
def bump (stat : Fin 2 → Nat) (flow : Fin 2) (n : Nat) : Fin 2 → Nat := Function.update stat flow (stat flow + n)

def new (cfg : DualQueue) : DualQueueLink :=
  { clock := ⟨0⟩, offered := [], refused := [], served := [], arrived := []
    cfg := cfg, l4s := [], classic := [], l4sBytes := 0, classicBytes := 0, linkFreeAt := ⟨0⟩, serveL4sNext := true
    flight := [], order := 0, sumQueueUs := fun _ => 0, maxQueueUs := fun _ => 0, delivered := fun _ => 0
    marked := fun _ => 0, dropped := fun _ => 0 }

/-- A data frame is queued by its class, or dropped if the buffer of the class is full. -/
def enqueueData (l : DualQueueLink) (now : Instant) (flow : Fin 2) (frame : List UInt8) : DualQueueLink :=
  let f : DqQueued := ⟨now, flow, frame⟩
  let l := { l with offered := l.offered ++ [f] }
  if frameIsEct frame then
    if l.l4sBytes + f.len > l.cfg.l4sBufferBytes then
      { l with dropped := bump l.dropped flow 1, refused := l.refused ++ [f] }
    else { l with l4sBytes := l.l4sBytes + f.len, l4s := l.l4s ++ [f] }
  else
    if l.classicBytes + f.len > l.cfg.classicBufferBytes then
      { l with dropped := bump l.dropped flow 1, refused := l.refused ++ [f] }
    else { l with classicBytes := l.classicBytes + f.len, classic := l.classic ++ [f] }

/-- An ACK is on its way at once. -/
def enqueueAck (l : DualQueueLink) (now : Instant) (flow : Fin 2) (frame : List UInt8) : DualQueueLink :=
  let f : DqFlight :=
    { deliverAt := now.plusMicros l.cfg.baseDelayUs, flow := flow, side := .toClient, order := l.order, frame := frame }
  { l with order := l.order + 1, flight := l.flight ++ [f] }

/-- The class to serve, `none` if nothing is queued. -/
def pick (l : DualQueueLink) : Option Bool :=
  match l.l4s.isEmpty, l.classic.isEmpty with
  | true, true => none
  | false, true => some true
  | true, false => some false
  | false, false => some l.serveL4sNext

/-- The head of the queue of the class. -/
def pop (l : DualQueueLink) (serveL4s : Bool) : Option (DqQueued × DualQueueLink) :=
  if serveL4s then
    match l.l4s with
    | f :: rest => some (f, { l with serveL4sNext := false, l4sBytes := l.l4sBytes - f.len, l4s := rest })
    | [] => none
  else
    match l.classic with
    | f :: rest => some (f, { l with serveL4sNext := true, classicBytes := l.classicBytes - f.len, classic := rest })
    | [] => none

/-- Serialise the frame, mark it if it waited too long, and schedule it. -/
def serve (l : DualQueueLink) (f : DqQueued) (serveL4s contested : Bool) : DualQueueLink :=
  let start := if l.linkFreeAt.micros > f.arrival.micros then l.linkFreeAt else f.arrival
  let queueUs := start.saturatingMicrosSince f.arrival
  let serializeUs := min (f.len * 1000000) Instant.u64Max / max l.cfg.rateBytesPerSec 1
  let free := start.plusMicros serializeUs
  let ce := serveL4s && decide (queueUs > l.cfg.l4sThresholdUs) && frameIsEct f.frame
  let sent : DqFlight :=
    { deliverAt := free.plusMicros l.cfg.baseDelayUs
      flow := f.flow
      side := .toServer
      order := l.order
      frame := if ce then setEcn f.frame (UInt8.ofNat ecnCe) else f.frame }
  { l with
    linkFreeAt := free
    marked := if ce then bump l.marked f.flow 1 else l.marked
    sumQueueUs := bump l.sumQueueUs f.flow queueUs
    maxQueueUs := Function.update l.maxQueueUs f.flow (max (l.maxQueueUs f.flow) queueUs)
    delivered := bump l.delivered f.flow 1
    order := l.order + 1
    flight := l.flight ++ [sent]
    served := l.served ++ [⟨f, serveL4s, contested, start, free, sent⟩] }

/-- Both classes are backlogged. -/
def contested (l : DualQueueLink) : Bool := !l.l4s.isEmpty && !l.classic.isEmpty

/-- One round of the loop, `none` where the loop ends. -/
def serviceNext (l : DualQueueLink) (now : Instant) : Option DualQueueLink :=
  if l.linkFreeAt.micros ≤ now.micros then
    match l.pick with
    | none => none
    | some serveL4s =>
      match l.pop serveL4s with
      | none => none
      | some (f, l') => some (l'.serve f serveL4s l.contested)
  else none

/-- At most `n` rounds. -/
def serviceLoop (now : Instant) : Nat → DualQueueLink → DualQueueLink
  | 0, l => l
  | n + 1, l =>
    match l.serviceNext now with
    | none => l
    | some l' => serviceLoop now n l'

/-- Serve what the link can start by now; every round takes a frame off the queues. -/
def service (l : DualQueueLink) (now : Instant) : DualQueueLink :=
  serviceLoop now (l.l4s.length + l.classic.length) l

/-- The order of `sort_by_key`. -/
def before (f g : DqFlight) : Bool :=
  decide (f.deliverAt.micros < g.deliverAt.micros ∨ f.deliverAt.micros = g.deliverAt.micros ∧ f.order ≤ g.order)

/-- The frames that are due arrive, in the order of their times. -/
def deliverDue (l : DualQueueLink) (now : Instant) : DualQueueLink :=
  let due := l.flight.filter fun f => decide (f.deliverAt.micros ≤ now.micros)
  let keep := l.flight.filter fun f => !decide (f.deliverAt.micros ≤ now.micros)
  { l with flight := keep, arrived := l.arrived ++ due.mergeSort before }

inductive Act where
  | enqueueData (now : Instant) (flow : Fin 2) (frame : List UInt8)
  | enqueueAck (now : Instant) (flow : Fin 2) (frame : List UInt8)
  | service (now : Instant)
  | deliverDue (now : Instant)
  deriving DecidableEq, Repr

def Act.now : Act → Instant
  | .enqueueData now _ _ => now
  | .enqueueAck now _ _ => now
  | .service now => now
  | .deliverDue now => now

/-- A call at a time not before that of the last. -/
def apply (l : DualQueueLink) (act : Act) : Option DualQueueLink :=
  if l.clock.micros ≤ act.now.micros ∧ act.now.micros ≤ Instant.u64Max then
    let l := { l with clock := act.now }
    match act with
    | .enqueueData now flow frame => some (l.enqueueData now flow frame)
    | .enqueueAck now flow frame => some (l.enqueueAck now flow frame)
    | .service now => some (l.service now)
    | .deliverDue now => some (l.deliverDue now)
  else none

/-! ## The link by classes -/

section

variable (l : DualQueueLink)

def queue (serveL4s : Bool) : List DqQueued := bif serveL4s then l.l4s else l.classic

def bytes (serveL4s : Bool) : Nat := bif serveL4s then l.l4sBytes else l.classicBytes

def room (serveL4s : Bool) : Nat := bif serveL4s then l.cfg.l4sBufferBytes else l.cfg.classicBufferBytes

/-- The frames of one class that have been served. -/
def servedOf (serveL4s : Bool) : List DqQueued :=
  (l.served.filter fun s => s.l4s == serveL4s).map Served.frame

end

/-- The frame came through the queues. -/
def isData (f : DqFlight) : Bool := f.side == .toServer

/-- The link is not sending the second frame before it has sent the first, nor does the
second arrive before the first. -/
def Follows (s t : Served) : Prop :=
  s.free.micros ≤ t.start.micros ∧ s.sent.deliverAt.micros ≤ t.sent.deliverAt.micros ∧ s.sent.order < t.sent.order

/-- Where both classes are backlogged, the other one is served. -/
def Alternates (s t : Served) : Prop := t.contested = true → t.l4s ≠ s.l4s

/-- Nothing is lost or doubled. -/
structure Conserved (l : DualQueueLink) : Prop where
  counted : ∀ c, l.bytes c = ((l.queue c).map DqQueued.len).sum
  fits : ∀ c, l.bytes c ≤ l.room c
  kept : l.offered.Perm (l.refused ++ (l.served.map Served.frame ++ (l.l4s ++ l.classic)))
  fifo : ∀ c, (l.servedOf c ++ l.queue c).Sublist l.offered
  carried : ∀ s ∈ l.served, s.sent.frame = s.frame.frame ∨ s.sent.frame = setEcn s.frame.frame (UInt8.ofNat ecnCe)
  scheduled : l.arrived.filter isData ++ l.flight.filter isData = l.served.map Served.sent

/-- One frame at a time. -/
structure Timed (l : DualQueueLink) : Prop where
  clock : l.clock.micros ≤ Instant.u64Max
  waits : ∀ c, ∀ f ∈ l.queue c, f.arrival.micros ≤ l.clock.micros
  free : l.linkFreeAt.micros ≤ Instant.u64Max
  lasts : ∀ s ∈ l.served, s.frame.arrival.micros ≤ s.start.micros ∧ s.start.micros ≤ s.free.micros
  ended : ∀ s ∈ l.served, s.free.micros ≤ l.linkFreeAt.micros ∧
    s.sent.deliverAt = s.free.plusMicros l.cfg.baseDelayUs ∧ s.sent.order < l.order
  follows : l.served.Pairwise Follows

/-- One class after the other. -/
structure Fair (l : DualQueueLink) : Prop where
  next : ∀ s ∈ l.served.getLast?, l.serveL4sNext = !s.l4s
  alternates : l.served.IsChain Alternates

structure Sound (l : DualQueueLink) : Prop extends Conserved l, Timed l, Fair l

variable {l l' : DualQueueLink} {now : Instant} {flow : Fin 2} {frame : List UInt8} {f : DqQueued} {c : Bool}

theorem sound_new (cfg : DualQueue) : (new cfg).Sound where
  counted c := by cases c <;> rfl
  fits c := by cases c <;> exact Nat.zero_le _
  kept := .refl _
  fifo c := by cases c <;> exact .refl _
  clock := Nat.zero_le _
  waits c f hf := by cases c <;> cases hf
  free := Nat.zero_le _
  lasts s hs := by cases hs
  ended s hs := by cases hs
  follows := .nil
  next s hs := by cases hs
  alternates := .nil
  carried s hs := by cases hs
  scheduled := rfl

/-- Time passes. -/
theorem Sound.tick (h : l.Sound) (hle : l.clock.micros ≤ now.micros) (hmax : now.micros ≤ Instant.u64Max) :
    ({ l with clock := now } : DualQueueLink).Sound :=
  { h with
    clock := hmax
    waits := fun c f hf => (h.waits c f hf).trans hle }

/-! ## Arrivals -/

/-- A frame is refused. -/
theorem Sound.refuse (h : l.Sound) (f : DqQueued) (dropped : Fin 2 → Nat) :
    ({ l with offered := l.offered ++ [f], dropped := dropped, refused := l.refused ++ [f] } : DualQueueLink).Sound :=
  { h with
    kept := by
      rw [List.perm_iff_count]
      intro g
      have hg := h.kept.count_eq g
      simp only [List.count_append] at hg ⊢
      omega
    fifo := fun c => (h.fifo c).trans (List.sublist_append_left _ _) }

/-- A frame joins the queue of one class. -/
structure Joins (l l' : DualQueueLink) (c : Bool) (f : DqQueued) : Prop where
  queue : ∀ d, l'.queue d = if d = c then l.queue d ++ [f] else l.queue d
  bytes : ∀ d, l'.bytes d = if d = c then l.bytes d + f.len else l.bytes d
  fits : l.bytes c + f.len ≤ l.room c
  waiting : (l'.l4s ++ l'.classic).Perm (l.l4s ++ l.classic ++ [f])
  history : l'.toHistory = { l.toHistory with offered := l.offered ++ [f] }
  rest : l'.cfg = l.cfg ∧ l'.linkFreeAt = l.linkFreeAt ∧ l'.serveL4sNext = l.serveL4sNext ∧ l'.flight = l.flight ∧
    l'.order = l.order

theorem Sound.joins (h : l.Sound) (hj : Joins l l' c f) (hnow : f.arrival.micros ≤ l.clock.micros) : l'.Sound := by
  obtain ⟨hqueue, hbytes, hfits, hwaiting, hhist, hcfg, hfree, hnext, hflight, horder⟩ := hj
  obtain ⟨⟨clock, offered, refused, served, arrived⟩, cfg, l4s, classic, l4sBytes, classicBytes, linkFreeAt, next, flight,
    order, sum, longest, delivered, marked, dropped⟩ := l'
  cases hhist
  dsimp only at hcfg hfree hnext hflight horder
  subst hcfg hfree hnext hflight horder
  refine { h with counted := fun d => ?_, fits := fun d => ?_, kept := ?_, fifo := fun d => ?_, waits := fun d g hg => ?_ }
  · have hold := h.counted d
    rw [hqueue, hbytes]
    split
    · rw [List.map_append, List.sum_append, List.map_singleton, List.sum_singleton, hold]
    · exact hold
  · rw [hbytes]
    split
    · rename_i hd
      rw [hd]
      exact hfits
    · exact h.fits d
  · rw [List.perm_iff_count]
    intro g
    have hg := h.kept.count_eq g
    have hw := hwaiting.count_eq g
    simp only [List.count_append] at hg hw ⊢
    omega
  · rw [hqueue]
    split
    · rw [← List.append_assoc]
      exact (h.fifo d).append (.refl _)
    · exact (h.fifo d).trans (List.sublist_append_left _ _)
  · rw [hqueue] at hg
    split at hg
    · rcases List.mem_append.mp hg with hg | hg
      · exact h.waits d g hg
      · cases List.mem_singleton.mp hg
        exact hnow
    · exact h.waits d g hg

theorem enqueueData_joins (l : DualQueueLink) (now : Instant) (flow : Fin 2) (frame : List UInt8) :
    Joins l (l.enqueueData now flow frame) (frameIsEct frame) ⟨now, flow, frame⟩ ∨
      ∃ dropped, l.enqueueData now flow frame =
        { l with
          offered := l.offered ++ [⟨now, flow, frame⟩]
          dropped := dropped
          refused := l.refused ++ [⟨now, flow, frame⟩] } := by
  unfold enqueueData
  dsimp only
  cases frameIsEct frame with
  | true =>
    rw [if_pos rfl]
    split
    · exact .inr ⟨_, rfl⟩
    · rename_i hfits
      refine .inl ⟨fun d => ?_, fun d => ?_, not_lt.mp hfits, ?_, rfl, rfl, rfl, rfl, rfl, rfl⟩
      · cases d <;> rfl
      · cases d <;> rfl
      · rw [List.append_assoc, List.append_assoc]
        exact List.perm_append_comm.append_left _
  | false =>
    rw [if_neg Bool.false_ne_true]
    split
    · exact .inr ⟨_, rfl⟩
    · rename_i hfits
      refine .inl ⟨fun d => ?_, fun d => ?_, not_lt.mp hfits, ?_, rfl, rfl, rfl, rfl, rfl, rfl⟩
      · cases d <;> rfl
      · cases d <;> rfl
      · rw [List.append_assoc]

theorem Sound.enqueueData (h : l.Sound) (hnow : now.micros ≤ l.clock.micros) (flow : Fin 2) (frame : List UInt8) :
    (l.enqueueData now flow frame).Sound := by
  rcases l.enqueueData_joins now flow frame with hj | ⟨dropped, he⟩
  · exact h.joins hj hnow
  · rw [he]
    exact h.refuse _ dropped

theorem Sound.enqueueAck (h : l.Sound) (now : Instant) (flow : Fin 2) (frame : List UInt8) :
    (l.enqueueAck now flow frame).Sound :=
  { h with
    ended := fun s hs => ⟨(h.ended s hs).1, (h.ended s hs).2.1, (h.ended s hs).2.2.trans (Nat.lt_succ_self _)⟩
    scheduled := by
      change l.arrived.filter isData ++ (l.flight ++ [_]).filter isData = l.served.map Served.sent
      rw [List.filter_append, ← List.append_assoc, h.scheduled]
      exact List.append_nil _ }

/-! ## Services -/

/-- What a service does: the head of one queue is taken, and its record is the last. -/
structure Serves (l l' : DualQueueLink) (s : Served) : Prop where
  history : l'.toHistory = { l.toHistory with served := l.served ++ [s] }
  queue : ∀ c, l.queue c = if c = s.l4s then s.frame :: l'.queue c else l'.queue c
  bytes : ∀ c, l'.bytes c = if c = s.l4s then l.bytes c - s.frame.len else l.bytes c
  waiting : (l.l4s ++ l.classic).Perm (s.frame :: (l'.l4s ++ l'.classic))
  contested : s.contested = true → l.serveL4sNext = s.l4s
  next : l'.serveL4sNext = !s.l4s
  start : s.start.micros = max l.linkFreeAt.micros s.frame.arrival.micros
  free : ∃ serializeUs, s.free = s.start.plusMicros serializeUs
  linkFreeAt : l'.linkFreeAt = s.free
  deliverAt : s.sent.deliverAt = s.free.plusMicros l.cfg.baseDelayUs
  data : isData s.sent = true
  carried : s.sent.frame = s.frame.frame ∨ s.sent.frame = setEcn s.frame.frame (UInt8.ofNat ecnCe)
  flight : l'.flight = l.flight ++ [s.sent]
  order : s.sent.order = l.order ∧ l'.order = l.order + 1
  cfg : l'.cfg = l.cfg

theorem contested_pick (h : l.contested = true) : l.pick = some l.serveL4sNext := by
  obtain ⟨hl4s, hclassic⟩ := Bool.and_eq_true_iff.mp h
  rw [Bool.not_eq_true'] at hl4s hclassic
  rw [pick, hl4s, hclassic]

theorem max_start (a b : Instant) : (if a.micros > b.micros then a else b).micros = max a.micros b.micros := by
  split
  · rename_i hlt
    exact (max_eq_left hlt.le).symm
  · rename_i hge
    exact (max_eq_right (not_lt.mp hge)).symm

theorem pop_serves (h : l.pop c = some (f, l')) (hpick : l.contested = true → l.serveL4sNext = c) :
    ∃ s, Serves l (l'.serve f c l.contested) s := by
  cases c with
  | true =>
    simp only [pop, if_true] at h
    split at h
    · rename_i g rest hl4s
      cases h
      refine ⟨_, ⟨rfl, fun d => ?_, fun d => ?_, ?_, hpick, rfl, max_start _ _, ⟨_, rfl⟩, rfl, rfl, rfl,
        (ite_eq_or_eq _ _ _).symm, rfl, ⟨rfl, rfl⟩, rfl⟩⟩
      · cases d
        · rfl
        · exact hl4s
      · cases d <;> rfl
      · rw [hl4s]
        exact .refl _
    · cases h
  | false =>
    simp only [pop, Bool.false_eq_true, if_false] at h
    split at h
    · rename_i g rest hclassic
      cases h
      refine ⟨_, ⟨rfl, fun d => ?_, fun d => ?_, ?_, hpick, rfl, max_start _ _, ⟨_, rfl⟩, rfl, rfl, rfl,
        .inl rfl, rfl, ⟨rfl, rfl⟩, rfl⟩⟩
      · cases d
        · exact hclassic
        · rfl
      · cases d <;> rfl
      · rw [hclassic]
        exact List.perm_middle
    · cases h

theorem serviceNext_serves (h : l.serviceNext now = some l') : ∃ s, Serves l l' s := by
  unfold serviceNext at h
  split at h
  · split at h
    · cases h
    · rename_i c hc
      split at h
      · cases h
      · rename_i f u hpop
        cases h
        refine pop_serves hpop fun hcont => ?_
        rw [contested_pick hcont] at hc
        exact Option.some.inj hc
  · cases h

variable {s : Served}

theorem Conserved.serve (h : l.Conserved) (hs : Serves l l' s) : l'.Conserved := by
  have hserved : l'.served = l.served ++ [s] := by rw [hs.history]
  have hoffered : l'.offered = l.offered := by rw [hs.history]
  have hrefused : l'.refused = l.refused := by rw [hs.history]
  have harrived : l'.arrived = l.arrived := by rw [hs.history]
  refine ⟨fun c => ?_, fun c => ?_, ?_, fun c => ?_, fun t ht => ?_, ?_⟩
  · have hold := h.counted c
    rw [hs.queue] at hold
    rw [hs.bytes]
    split
    · rename_i hc
      rw [if_pos hc, List.map_cons, List.sum_cons] at hold
      omega
    · rename_i hc
      rwa [if_neg hc] at hold
  · have hroom : l'.room c = l.room c := by rw [room, hs.cfg, room]
    have hold := h.fits c
    rw [hs.bytes, hroom]
    split
    · omega
    · exact hold
  · rw [hoffered, hrefused, hserved, List.perm_iff_count]
    intro g
    have hg := h.kept.count_eq g
    have hw := hs.waiting.count_eq g
    simp only [List.count_append, List.count_cons, List.map_append, List.map_cons, List.map_nil,
      List.count_nil] at hg hw ⊢
    omega
  · have hold := h.fifo c
    rw [hs.queue] at hold
    rw [hoffered, servedOf, hserved, List.filter_append, List.filter_singleton, List.map_append, List.append_assoc]
    by_cases hc : c = s.l4s
    · rw [if_pos hc] at hold
      rw [beq_iff_eq.mpr hc.symm]
      exact hold
    · rw [if_neg hc] at hold
      rw [beq_eq_false_iff_ne.mpr (Ne.symm hc)]
      exact hold
  · rw [hserved] at ht
    rcases List.mem_append.mp ht with ht | ht
    · exact h.carried t ht
    · cases List.mem_singleton.mp ht
      exact hs.carried
  · rw [harrived, hs.flight, hserved, List.filter_append, List.filter_singleton, hs.data, List.map_append,
      ← List.append_assoc, h.scheduled]
    rfl

theorem Timed.serve (h : l.Timed) (hs : Serves l l' s) : l'.Timed := by
  have hserved : l'.served = l.served ++ [s] := by rw [hs.history]
  have hclock : l'.clock = l.clock := by rw [hs.history]
  have hwaits : ∀ c, ∀ f ∈ l'.queue c, f ∈ l.queue c := by
    intro c f hf
    rw [hs.queue]
    split
    · exact List.mem_cons_of_mem _ hf
    · exact hf
  have harrival : s.frame.arrival.micros ≤ Instant.u64Max := by
    refine (h.waits s.l4s s.frame ?_).trans h.clock
    rw [hs.queue, if_pos rfl]
    exact List.mem_cons_self
  obtain ⟨serializeUs, hfree⟩ := hs.free
  have hstart : s.start.micros ≤ Instant.u64Max := hs.start.trans_le (max_le h.free harrival)
  have hfrom : l.linkFreeAt.micros ≤ s.start.micros := (le_max_left _ _).trans hs.start.ge
  have hlasts : s.start.micros ≤ s.free.micros := by
    rw [hfree]
    exact le_min (Nat.le_add_right _ _) hstart
  refine ⟨hclock ▸ h.clock, fun c f hf => hclock ▸ h.waits c f (hwaits c f hf), ?_, fun t ht => ?_, fun t ht => ?_, ?_⟩
  · rw [hs.linkFreeAt, hfree]
    exact min_le_right _ _
  · rw [hserved] at ht
    rcases List.mem_append.mp ht with ht | ht
    · exact h.lasts t ht
    · cases List.mem_singleton.mp ht
      exact ⟨(le_max_right _ _).trans hs.start.ge, hlasts⟩
  · rw [hserved] at ht
    rw [hs.linkFreeAt, hs.cfg, hs.order.2]
    rcases List.mem_append.mp ht with ht | ht
    · obtain ⟨hended, hdeliver, horder⟩ := h.ended t ht
      exact ⟨hended.trans (hfrom.trans hlasts), hdeliver, horder.trans (Nat.lt_succ_self _)⟩
    · cases List.mem_singleton.mp ht
      exact ⟨le_rfl, hs.deliverAt, hs.order.1.trans_lt (Nat.lt_succ_self _)⟩
  · rw [hserved, List.pairwise_append]
    refine ⟨h.follows, List.pairwise_singleton _ _, fun t ht u hu => ?_⟩
    cases List.mem_singleton.mp hu
    obtain ⟨hended, hdeliver, horder⟩ := h.ended t ht
    refine ⟨hended.trans hfrom, ?_, horder.trans_eq hs.order.1.symm⟩
    rw [hdeliver, hs.deliverAt]
    exact min_le_min_right _ (Nat.add_le_add_right (hended.trans (hfrom.trans hlasts)) _)

theorem Fair.serve (h : l.Fair) (hs : Serves l l' s) : l'.Fair := by
  have hserved : l'.served = l.served ++ [s] := by rw [hs.history]
  constructor
  · intro t ht
    rw [hserved, List.getLast?_concat, Option.mem_some_iff] at ht
    rw [← ht]
    exact hs.next
  · rw [hserved, List.isChain_append]
    refine ⟨h.alternates, .singleton s, fun t ht u hu hcont => ?_⟩
    rw [List.head?_cons, Option.mem_some_iff] at hu
    subst hu
    have hnext := h.next t ht
    rw [hs.contested hcont] at hnext
    rw [hnext]
    exact Bool.not_ne_self _

theorem Sound.serve (h : l.Sound) (hs : Serves l l' s) : l'.Sound :=
  ⟨h.toConserved.serve hs, h.toTimed.serve hs, h.toFair.serve hs⟩

/-- Every round of the loop is a service. -/
theorem Sound.serviceLoop (n : Nat) (h : l.Sound) : (serviceLoop now n l).Sound := by
  induction n generalizing l with
  | zero => exact h
  | succ n ih =>
    rw [DualQueueLink.serviceLoop]
    split
    · exact h
    · rename_i hnext
      obtain ⟨s, hs⟩ := serviceNext_serves hnext
      exact ih (h.serve hs)

theorem pop_eq_none (h : l.pop c = none) : (l.queue c).isEmpty = true := by
  cases c with
  | true =>
    simp only [pop, if_true] at h
    split at h
    · cases h
    · rename_i hl4s
      exact List.isEmpty_iff.mpr hl4s
  | false =>
    simp only [pop, Bool.false_eq_true, if_false] at h
    split at h
    · cases h
    · rename_i hclassic
      exact List.isEmpty_iff.mpr hclassic

/-- A class that is picked has a frame. -/
theorem pick_isEmpty (h : l.pick = some c) : (l.queue c).isEmpty = false := by
  unfold pick at h
  split at h
  · cases h
  · rename_i hl4s _
    cases h
    exact hl4s
  · rename_i _ hclassic
    cases h
    exact hclassic
  · rename_i hl4s hclassic
    cases c with
    | true => exact hl4s
    | false => exact hclassic

theorem serviceNext_eq_none (h : l.serviceNext now = none) :
    now.micros < l.linkFreeAt.micros ∨ l.l4s = [] ∧ l.classic = [] := by
  unfold serviceNext at h
  split at h
  · right
    split at h
    · rename_i hpick
      unfold pick at hpick
      split at hpick
      · rename_i hl4s hclassic
        exact ⟨List.isEmpty_iff.mp hl4s, List.isEmpty_iff.mp hclassic⟩
      all_goals cases hpick
    · rename_i hpick
      split at h
      · rename_i hpop
        exact absurd (pop_eq_none hpop) (Bool.eq_false_iff.mp (pick_isEmpty hpick))
      · cases h
  · rename_i hfree
    exact .inl (not_le.mp hfree)

/-- The loop ends for want of frames or because the link is busy. -/
theorem service_catches_up (l : DualQueueLink) (now : Instant) :
    now.micros < (l.service now).linkFreeAt.micros ∨ (l.service now).l4s = [] ∧ (l.service now).classic = [] := by
  have hloop : ∀ n (l : DualQueueLink), (l.l4s ++ l.classic).length ≤ n →
      (serviceLoop now n l).serviceNext now = none := by
    intro n
    induction n with
    | zero =>
      intro l hn
      obtain ⟨hl4s, hclassic⟩ := List.append_eq_nil_iff.mp (List.length_eq_zero_iff.mp (Nat.le_zero.mp hn))
      simp [DualQueueLink.serviceLoop, serviceNext, pick, hl4s, hclassic]
    | succ n ih =>
      intro l hn
      rw [DualQueueLink.serviceLoop]
      split
      · rename_i hnone
        exact hnone
      · rename_i hnext
        obtain ⟨s, hs⟩ := serviceNext_serves hnext
        have hlen := hs.waiting.length_eq
        rw [List.length_cons] at hlen
        exact ih _ (by omega)
  exact serviceNext_eq_none (hloop _ l List.length_append.le)

/-! ## Deliveries -/

/-- The order of two frames is that of their dates and numbers. -/
theorem before_iff (f g : DqFlight) : before f g = true ↔
    f.deliverAt.micros < g.deliverAt.micros ∨ f.deliverAt.micros = g.deliverAt.micros ∧ f.order ≤ g.order :=
  decide_eq_true_iff

/-- What arrives of the data is what has been longest on its way. -/
theorem Sound.deliverDue (h : l.Sound) (now : Instant) : (l.deliverDue now).Sound := by
  have hsent : (l.flight.filter isData).Pairwise fun f g => f.deliverAt.micros ≤ g.deliverAt.micros ∧ f.order < g.order := by
    have hall : (l.served.map Served.sent).Pairwise fun f g =>
        f.deliverAt.micros ≤ g.deliverAt.micros ∧ f.order < g.order :=
      List.pairwise_map.mpr (h.follows.imp fun hst => hst.2)
    rw [← h.scheduled] at hall
    exact hall.sublist (List.sublist_append_right _ _)
  refine { h with scheduled := ?_ }
  change (l.arrived ++ _).filter isData ++ (l.flight.filter _).filter isData = l.served.map Served.sent
  rw [List.filter_append, List.append_assoc, Agenda.due_append_rest ?_ ?_ hsent ?_ ?_ ?_, h.scheduled]
  · intro f g k hfg hgk
    rw [before_iff] at hfg hgk ⊢
    omega
  · intro f g
    rw [Bool.or_eq_true, before_iff, before_iff]
    omega
  · rintro f g ⟨hdate, horder⟩
    rw [before_iff]
    omega
  · rintro f g ⟨hdate, horder⟩
    rw [Bool.eq_false_iff, Ne, before_iff]
    omega
  · rintro f g ⟨hdate, -⟩ hg
    exact decide_eq_true (hdate.trans (of_decide_eq_true hg))

/-! ## Whole runs -/

theorem cfg_enqueueData (l : DualQueueLink) (now : Instant) (flow : Fin 2) (frame : List UInt8) :
    (l.enqueueData now flow frame).cfg = l.cfg := by
  rcases l.enqueueData_joins now flow frame with hj | ⟨dropped, he⟩
  · exact hj.rest.1
  · rw [he]

theorem cfg_serviceLoop (now : Instant) (n : Nat) (l : DualQueueLink) : (serviceLoop now n l).cfg = l.cfg := by
  induction n generalizing l with
  | zero => rfl
  | succ n ih =>
    rw [DualQueueLink.serviceLoop]
    split
    · rfl
    · rename_i hnext
      obtain ⟨s, hs⟩ := serviceNext_serves hnext
      exact (ih _).trans hs.cfg

theorem sound_run {cfg : DualQueue} {acts : List Act} (hr : Run.run apply (new cfg) acts = some l) :
    l.Sound ∧ l.cfg = cfg := by
  refine Run.run_invariant (I := fun l => l.Sound ∧ l.cfg = cfg) (fun l act l' h he => ?_) ⟨sound_new cfg, rfl⟩ hr
  unfold apply at he
  split at he
  · rename_i htime
    have htick := h.1.tick htime.1 htime.2
    cases act with
    | enqueueData now flow frame =>
      cases he
      exact ⟨htick.enqueueData le_rfl flow frame, (cfg_enqueueData _ now flow frame).trans h.2⟩
    | enqueueAck now flow frame =>
      cases he
      exact ⟨htick.enqueueAck now flow frame, h.2⟩
    | service now =>
      cases he
      exact ⟨htick.serviceLoop _, (cfg_serviceLoop now _ _).trans h.2⟩
    | deliverDue now =>
      cases he
      exact ⟨htick.deliverDue now, h.2⟩
  · cases he

/-- Whatever is called, in any order and at times that do not decrease: each counter is the
sum of the frames queued and within its buffer; the frames offered are those refused, served
and queued, and what was served has arrived or is on its way, in the order it was served;
each class is served in the order of its arrivals; the link serves one frame at a time, and
later frames arrive no earlier; and while both classes are backlogged they take turns. -/
theorem dual_queue_sound {cfg : DualQueue} {acts : List Act} (hr : Run.run apply (new cfg) acts = some l) :
    (l.l4sBytes = (l.l4s.map fun f => f.frame.length).sum ∧ l.l4sBytes ≤ cfg.l4sBufferBytes) ∧
      (l.classicBytes = (l.classic.map fun f => f.frame.length).sum ∧ l.classicBytes ≤ cfg.classicBufferBytes) ∧
      l.offered.Perm (l.refused ++ (l.served.map Served.frame ++ (l.l4s ++ l.classic))) ∧
      (l.arrived.filter isData ++ l.flight.filter isData = l.served.map Served.sent ∧
        ∀ s ∈ l.served, s.sent.frame = s.frame.frame ∨ s.sent.frame = setEcn s.frame.frame (UInt8.ofNat ecnCe)) ∧
      (∀ c, (l.servedOf c ++ l.queue c).Sublist l.offered) ∧
      (∀ s ∈ l.served, s.frame.arrival.micros ≤ s.start.micros ∧ s.start.micros ≤ s.free.micros) ∧
      l.served.Pairwise (fun s t =>
        s.free.micros ≤ t.start.micros ∧ s.sent.deliverAt.micros ≤ t.sent.deliverAt.micros) ∧
      l.served.IsChain fun s t => t.contested = true → t.l4s ≠ s.l4s := by
  obtain ⟨h, rfl⟩ := sound_run hr
  exact ⟨⟨h.counted true, h.fits true⟩, ⟨h.counted false, h.fits false⟩, h.kept, ⟨h.scheduled, h.carried⟩, h.fifo,
    h.lasts, h.follows.imp fun hst => ⟨hst.1, hst.2.1⟩, h.alternates⟩

/-- Two ECT frames and one that is not are served in turn, the third after a mark; the fourth
finds its buffer full. -/
theorem dual_queue_sound_turns : ∃ l : DualQueueLink,
    Run.run apply (new ⟨1000000, 5, 10, 30, 100⟩)
      [.enqueueData ⟨0⟩ 0 (0 :: 1 :: List.replicate 18 0), .enqueueData ⟨0⟩ 1 (List.replicate 20 0),
        .enqueueData ⟨1⟩ 0 (0 :: 1 :: List.replicate 18 0), .enqueueData ⟨2⟩ 1 (List.replicate 20 0),
        .enqueueAck ⟨3⟩ 0 [], .service ⟨50⟩] = some l ∧
      (l.served.map Served.l4s = [true, false, true] ∧ l.refused.length = 1) ∧
      l.offered.Perm (l.refused ++ (l.served.map Served.frame ++ (l.l4s ++ l.classic))) := by
  obtain ⟨l, hr, hl⟩ := Run.exists_run apply (new ⟨1000000, 5, 10, 30, 100⟩)
    [.enqueueData ⟨0⟩ 0 (0 :: 1 :: List.replicate 18 0), .enqueueData ⟨0⟩ 1 (List.replicate 20 0),
      .enqueueData ⟨1⟩ 0 (0 :: 1 :: List.replicate 18 0), .enqueueData ⟨2⟩ 1 (List.replicate 20 0),
      .enqueueAck ⟨3⟩ 0 [], .service ⟨50⟩]
    (fun l => l.served.map Served.l4s = [true, false, true] ∧ l.refused.length = 1) (by decide +kernel)
  exact ⟨l, hr, hl, (dual_queue_sound hr).2.2.1⟩

end DualQueueLink

end Ferrumnet
