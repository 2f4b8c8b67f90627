import Ferrumnet.Lib.Run
import Ferrumnet.Lib.Agenda
import Ferrumnet.DualQueue
import Ferrumnet.Rng

/-
  The fault link of the simulator (`Link` of `sim.rs`): frames are dropped, doubled, damaged
  and delayed as the generator decides.

  A line is a link with its history: the fate of every frame that left a stack and the
  frames that arrived. Nothing reads the history.

  1. `Schedules`, `Routes` — what one frame does to the link.
  2. `fault_link_sound` — whatever the calls, at times that do not decrease: every frame
     arrives as often as the counters say, unharmed but for one bit, within its delay, and
     in the order of the dates.
  3. `perfect_link_fifo` — without faults the link is a pipe.
  4. `losses_bounded` — below certainty, the link does not drop for ever.
-/

namespace Ferrumnet

open OnesComplement (flipBit)

/-- The faults of a link, in parts per million, and its delays. -/
structure LinkConfig where
  lossPpm : Nat
  dupPpm : Nat
  corruptPpm : Nat
  minDelayUs : Nat
  jitterUs : Nat
  /-- Logical time advances with every event. -/
  pos : 1 ≤ minDelayUs
  fits : minDelayUs + jitterUs ≤ Instant.u64Max

namespace LinkConfig

def perfect : LinkConfig := ⟨0, 0, 0, 5000, 0, by decide, by decide⟩

def lossy (lossPercent : Nat) : LinkConfig := ⟨lossPercent * 10000, 10000, 0, 5000, 4000, by decide, by decide⟩

end LinkConfig

/-- A frame in flight. -/
structure InFlight where
  deliverAt : Instant
  side : DualQueueLink.Side
  order : Nat
  frame : List UInt8
  deriving DecidableEq, Repr

structure Link where
  rng : Rng
  cfg : LinkConfig
  inflight : List InFlight
  order : Nat
  dropped : Nat
  duplicated : Nat
  corrupted : Nat

namespace Link

abbrev Side := DualQueueLink.Side

def new (seed : BitVec 64) (cfg : LinkConfig) : Link := ⟨Rng.new seed, cfg, [], 0, 0, 0, 0⟩

/-- Flip one bit behind the IPv4 header. -/
def damage (l : Link) (frame : List UInt8) : Link × List UInt8 :=
  let off := l.rng.below (frame.length - 20)
  let bit := off.2.below 8
  ({ l with rng := bit.2, corrupted := l.corrupted + 1 }, flipBit frame (20 + off.1) bit.1)

def schedule (l : Link) (now : Instant) (side : Side) (frame : List UInt8) (corrupt : Bool) : Link :=
  let p := if corrupt && decide (20 < frame.length) then l.damage frame else (l, frame)
  let delay := p.1.rng.below (l.cfg.jitterUs + 1)
  { p.1 with
    rng := delay.2
    order := l.order + 1
    inflight := l.inflight ++ [⟨now.plusMicros (l.cfg.minDelayUs + delay.1), side, l.order, p.2⟩] }

/-- A frame left a stack. -/
def enqueue (l : Link) (now : Instant) (side : Side) (frame : List UInt8) : Link :=
  let loss := l.rng.chancePpm l.cfg.lossPpm
  if loss.1 then { l with rng := loss.2, dropped := l.dropped + 1 }
  else
    let corrupt := loss.2.chancePpm l.cfg.corruptPpm
    let l := { l with rng := corrupt.2 }.schedule now side frame corrupt.1
    let dup := l.rng.chancePpm l.cfg.dupPpm
    let l := { l with rng := dup.2 }
    if dup.1 then { l with duplicated := l.duplicated + 1 }.schedule now side frame false else l

/-- The earliest scheduled delivery. -/
def minDeliverAt (inflight : List InFlight) : Option Instant :=
  (inflight.map fun f => f.deliverAt.micros).min?.map Instant.mk

def nextDeliverAt (l : Link) : Option Instant := minDeliverAt l.inflight

/-- The order of `sort_by_key`. -/
def before (f g : InFlight) : Bool :=
  decide (f.deliverAt.micros < g.deliverAt.micros ∨ f.deliverAt.micros = g.deliverAt.micros ∧ f.order ≤ g.order)

def isDue (now : Instant) (f : InFlight) : Bool := decide (f.deliverAt.micros ≤ now.micros)

/-- What is in flight after a delivery, and what is injected into the stacks, in order. -/
def flushDue (inflight : List InFlight) (now : Instant) : List InFlight × List InFlight :=
  (inflight.filter fun f => !isDue now f, (inflight.filter (isDue now)).mergeSort before)

def deliverDue (l : Link) (now : Instant) : Link × List InFlight :=
  let p := flushDue l.inflight now
  ({ l with inflight := p.1 }, p.2)

/-! ## One frame -/

/-- One bit behind the IPv4 header is not as it was. -/
def Damaged (frame frame' : List UInt8) : Prop :=
  ∃ off bit, 20 ≤ off ∧ off < frame.length ∧ bit < 8 ∧ frame' = flipBit frame off bit

theorem Damaged.ne {frame frame' : List UInt8} (h : Damaged frame frame') : frame' ≠ frame := by
  obtain ⟨off, bit, -, hoff, hbit, rfl⟩ := h
  intro he
  obtain ⟨j, -, hsum⟩ := OnesComplement.octetSum_flip frame hoff hbit
  have hpos := Nat.two_pow_pos j
  rw [he] at hsum
  omega

/-- The date of a copy is within the delays. -/
def InTime (cfg : LinkConfig) (now : Instant) (f : InFlight) : Prop :=
  (now.plusMicros cfg.minDelayUs).micros ≤ f.deliverAt.micros ∧
    f.deliverAt.micros ≤ (now.plusMicros (cfg.minDelayUs + cfg.jitterUs)).micros

/-- `f` is scheduled. -/
structure Schedules (l l' : Link) (now : Instant) (side : Side) (frame : List UInt8) (f : InFlight) : Prop where
  inflight : l'.inflight = l.inflight ++ [f]
  rest : l'.cfg = l.cfg ∧ l'.dropped = l.dropped ∧ l'.duplicated = l.duplicated
  order : f.order = l.order ∧ l'.order = l.order + 1
  side : f.side = side
  time : InTime l.cfg now f
  content : f.frame = frame ∧ l'.corrupted = l.corrupted ∨ Damaged frame f.frame ∧ l'.corrupted = l.corrupted + 1

/-- What a frame may look like after the noise on the link. -/
structure Noised (l l' : Link) (frame frame' : List UInt8) : Prop where
  rest : l'.cfg = l.cfg ∧ l'.dropped = l.dropped ∧ l'.duplicated = l.duplicated
  content : frame' = frame ∧ l'.corrupted = l.corrupted ∨ Damaged frame frame' ∧ l'.corrupted = l.corrupted + 1

theorem damage_noised (l : Link) {frame : List UInt8} (h : 20 < frame.length) :
    Noised l (l.damage frame).1 frame (l.damage frame).2 := by
  have hoff := l.rng.below_lt (n := frame.length - 20) (by omega)
  have hbit := (l.rng.below (frame.length - 20)).2.below_lt (n := 8) (by decide)
  unfold damage
  dsimp only
  generalize l.rng.below (frame.length - 20) = off at *
  generalize off.2.below 8 = bit at *
  refine ⟨⟨rfl, rfl, rfl⟩, .inr ⟨?_, rfl⟩⟩
  exact ⟨20 + off.1, bit.1, Nat.le_add_right 20 _, by omega, hbit, rfl⟩

theorem schedule_schedules (l : Link) (now : Instant) (side : Side) (frame : List UInt8) (corrupt : Bool) :
    ∃ f, Schedules l (l.schedule now side frame corrupt) now side frame f ∧ (corrupt = false → f.frame = frame) := by
  have hnoise : ∃ p : Link × List UInt8, Noised l p.1 frame p.2 ∧ (corrupt = false → p.2 = frame) ∧
      (if corrupt && decide (20 < frame.length) then l.damage frame else (l, frame)) = p := by
    split
    · rename_i hc
      obtain ⟨hc, hlen⟩ := (Bool.and_eq_true _ _).mp hc
      refine ⟨_, l.damage_noised (of_decide_eq_true hlen), fun h => ?_, rfl⟩
      rw [h] at hc
      cases hc
    · exact ⟨_, ⟨⟨rfl, rfl, rfl⟩, .inl ⟨rfl, rfl⟩⟩, fun _ => rfl, rfl⟩
  obtain ⟨p, hp, hintact, he⟩ := hnoise
  have hdelay := p.1.rng.below_lt (Nat.succ_pos l.cfg.jitterUs)
  unfold schedule
  rw [he]
  dsimp only
  generalize p.1.rng.below (l.cfg.jitterUs + 1) = delay at *
  refine ⟨⟨now.plusMicros (l.cfg.minDelayUs + delay.1), side, l.order, p.2⟩, ?_, hintact⟩
  refine ⟨rfl, hp.rest, ⟨rfl, rfl⟩, rfl, ?_, hp.content⟩
  simp only [InTime, Instant.plusMicros]
  omega

/-! ## Fates -/

/-- What became of a frame that left a stack. -/
structure Fate where
  now : Instant
  side : Side
  frame : List UInt8
  copies : List InFlight

namespace Fate

variable (t : Fate)

def lost : Bool := t.copies.isEmpty

def doubled : Bool := decide (1 < t.copies.length)

def damaged : Bool := t.copies.any fun f => decide (f.frame ≠ t.frame)

/-- The faults of the link and no others. -/
structure Fair (cfg : LinkConfig) : Prop where
  copies : t.copies.length ≤ 2
  sent : ∀ f ∈ t.copies, f.side = t.side ∧ InTime cfg t.now f
  first : ∀ f ∈ t.copies.head?, f.frame = t.frame ∨ 0 < cfg.corruptPpm ∧ Damaged t.frame f.frame
  second : ∀ f ∈ t.copies.tail, f.frame = t.frame
  kept : cfg.lossPpm = 0 → t.lost = false
  single : cfg.dupPpm = 0 → t.doubled = false

end Fate

/-- A frame leaves a stack for its fate. -/
structure Routes (l l' : Link) (t : Fate) : Prop where
  inflight : l'.inflight = l.inflight ++ t.copies
  cfg : l'.cfg = l.cfg
  fair : t.Fair l.cfg
  order : l'.order = l.order + t.copies.length
  numbered : t.copies.map InFlight.order = List.range' l.order t.copies.length
  counted : l'.dropped = l.dropped + t.lost.toNat ∧ l'.duplicated = l.duplicated + t.doubled.toNat ∧
    l'.corrupted = l.corrupted + t.damaged.toNat

/-- The two cases of a frame that is not damaged and of one that is. -/
theorem Schedules.damaged {l l' : Link} {now : Instant} {side : Side} {frame : List UInt8} {f : InFlight}
    (h : Schedules l l' now side frame f) : l'.corrupted = l.corrupted + (decide (f.frame ≠ frame)).toNat := by
  rcases h.content with ⟨he, hc⟩ | ⟨hd, hc⟩
  · rw [hc, he, decide_eq_false (fun h => h rfl)]
    rfl
  · rw [hc, decide_eq_true hd.ne]
    rfl

theorem enqueue_routes (l : Link) (now : Instant) (side : Side) (frame : List UInt8) :
    ∃ copies, Routes l (l.enqueue now side frame) ⟨now, side, frame, copies⟩ := by
  unfold enqueue
  dsimp only
  have hloss := l.rng.chancePpm_true (p := l.cfg.lossPpm)
  generalize l.rng.chancePpm l.cfg.lossPpm = loss at *
  split
  · rename_i hl
    refine ⟨[], (List.append_nil _).symm, rfl, ?_, rfl, rfl, ⟨rfl, rfl, rfl⟩⟩
    refine ⟨Nat.zero_le 2, fun x hx => ?_, fun x hx => ?_, fun x hx => ?_, fun h => ?_, fun _ => rfl⟩
    · cases hx
    · cases hx
    · cases hx
    · exact absurd h (hloss hl).1.ne'
  · have hcorrupt := loss.2.chancePpm_true (p := l.cfg.corruptPpm)
    generalize loss.2.chancePpm l.cfg.corruptPpm = corrupt at *
    obtain ⟨f, hf, hintact⟩ := schedule_schedules { l with rng := corrupt.2 } now side frame corrupt.1
    have hdamaged := hf.damaged
    have hfirst : f.frame = frame ∨ 0 < l.cfg.corruptPpm ∧ Damaged frame f.frame := by
      cases hc : corrupt.1 with
      | false => exact .inl (hintact hc)
      | true => exact hf.content.imp And.left fun h => ⟨(hcorrupt hc).1, h.1⟩
    obtain ⟨hinflight, ⟨hcfg, hdropped, hduplicated⟩, ⟨hnum, horder⟩, hside, htime, -⟩ := hf
    generalize schedule { l with rng := corrupt.2 } now side frame corrupt.1 = l₁ at *
    dsimp only at *
    have hdup := l₁.rng.chancePpm_true (p := l₁.cfg.dupPpm)
    generalize l₁.rng.chancePpm l₁.cfg.dupPpm = dup at *
    split
    · rename_i hd
      obtain ⟨g, hg, hcopy⟩ := schedule_schedules { l₁ with rng := dup.2, duplicated := l₁.duplicated + 1 } now side frame false
      have hgd := hg.damaged
      rw [hcopy rfl, decide_eq_false (fun h => h rfl)] at hgd
      obtain ⟨hginflight, ⟨hgcfg, hgdropped, hgduplicated⟩, ⟨hgnum, hgorder⟩, hgside, hgtime, -⟩ := hg
      dsimp only at *
      refine ⟨[f, g], ?_, ?_, ⟨le_rfl, ?_, ?_, ?_, fun _ => rfl, fun h => ?_⟩, ?_, ?_, ?_, ?_, ?_⟩
      · show _ = l.inflight ++ ([f] ++ [g])
        rw [hginflight, hinflight, List.append_assoc]
      · rw [hgcfg, hcfg]
      · intro x hx
        rcases List.mem_pair.mp hx with rfl | rfl
        · exact ⟨hside, htime⟩
        · exact ⟨hgside, hcfg ▸ hgtime⟩
      · intro x hx
        cases hx
        exact hfirst
      · intro x hx
        cases List.mem_singleton.mp hx
        exact hcopy rfl
      · rw [hcfg] at hdup
        exact absurd h (hdup hd).1.ne'
      · rw [hgorder, horder]
        rfl
      · show [f.order, g.order] = [l.order, l.order + 1]
        rw [hnum, hgnum, horder]
      · rw [hgdropped, hdropped]
        rfl
      · rw [hgduplicated, hduplicated]
        rfl
      · rw [hgd, hdamaged]
        simp [Fate.damaged, hcopy rfl]
    · refine ⟨[f], hinflight, hcfg, ⟨Nat.le_succ 1, ?_, ?_, ?_, fun _ => rfl, fun _ => rfl⟩, horder, ?_, hdropped,
        hduplicated, ?_⟩
      · intro x hx
        cases List.mem_singleton.mp hx
        exact ⟨hside, htime⟩
      · intro x hx
        cases hx
        exact hfirst
      · intro x hx
        cases hx
      · show [f.order] = [l.order]
        rw [hnum]
      · rw [hdamaged]
        simp [Fate.damaged]

/-! ## Lines -/

/-- A link with its history. -/
structure Line where
  link : Link
  /-- The time of the last call. -/
  clock : Instant
  fates : List Fate
  /-- The frames injected into the stacks. -/
  arrived : List InFlight

inductive Act where
  | enqueue (now : Instant) (side : Side) (frame : List UInt8)
  | deliverDue (now : Instant)
  deriving DecidableEq, Repr

def Act.now : Act → Instant
  | .enqueue now _ _ => now
  | .deliverDue now => now

namespace Line

def new (seed : BitVec 64) (cfg : LinkConfig) : Line := ⟨Link.new seed cfg, ⟨0⟩, [], []⟩

/-- A call at a time not before that of the last. -/
def apply (w : Line) (act : Act) : Option Line :=
  if w.clock.micros ≤ act.now.micros ∧ act.now.micros ≤ Instant.u64Max then
    match act with
    | .enqueue now side frame =>
      let link := w.link.enqueue now side frame
      -- the copies are what is new in flight
      some ⟨link, now, w.fates ++ [⟨now, side, frame, link.inflight.drop w.link.inflight.length⟩], w.arrived⟩
    | .deliverDue now =>
      let p := w.link.deliverDue now
      some ⟨p.1, now, w.fates, w.arrived ++ p.2⟩
  else none

/-- All copies that were scheduled. -/
def scheduled (w : Line) : List InFlight := w.fates.flatMap Fate.copies

structure Sound (w : Line) : Prop where
  clock : w.clock.micros ≤ Instant.u64Max
  fair : ∀ t ∈ w.fates, t.Fair w.link.cfg
  conserved : (w.arrived ++ w.link.inflight).Perm w.scheduled
  numbered : w.scheduled.map InFlight.order = List.range w.link.order
  counted : w.link.dropped = w.fates.countP Fate.lost ∧ w.link.duplicated = w.fates.countP Fate.doubled ∧
    w.link.corrupted = w.fates.countP Fate.damaged
  past : ∀ f ∈ w.arrived, f.deliverAt.micros ≤ w.clock.micros
  sorted : w.arrived.Pairwise fun f g => before f g = true
  ahead : ∀ f ∈ w.arrived, ∀ g ∈ w.link.inflight, before f g = true

theorem sound_new (seed : BitVec 64) (cfg : LinkConfig) : (new seed cfg).Sound := by
  refine ⟨Nat.zero_le _, ?_, .refl _, rfl, ⟨rfl, rfl, rfl⟩, ?_, .nil, ?_⟩
  · intro t ht
    cases ht
  · intro f hf
    cases hf
  · intro f hf
    cases hf

end Line

theorem before_iff (f g : InFlight) : before f g = true ↔
    f.deliverAt.micros < g.deliverAt.micros ∨ f.deliverAt.micros = g.deliverAt.micros ∧ f.order ≤ g.order :=
  decide_eq_true_iff

theorem before_trans (f g h : InFlight) (hfg : before f g = true) (hgh : before g h = true) : before f h = true := by
  rw [before_iff] at hfg hgh ⊢
  omega

theorem before_total (f g : InFlight) : (before f g || before g f) = true := by
  rw [Bool.or_eq_true, before_iff, before_iff]
  omega

/-- The earliest date brings frames, and none is late. -/
theorem flushDue_next {inflight : List InFlight} {now : Instant} (h : minDeliverAt inflight = some now) :
    (flushDue inflight now).2 ≠ [] ∧ ∀ f ∈ (flushDue inflight now).2, f.deliverAt = now := by
  obtain ⟨m, hmin, rfl⟩ := Option.map_eq_some_iff.mp h
  obtain ⟨hmem, hle⟩ := List.min?_eq_some_iff.mp hmin
  have hperm := List.mergeSort_perm (inflight.filter (isDue ⟨m⟩)) before
  constructor
  · obtain ⟨f, hf, hm⟩ := List.mem_map.mp hmem
    have hdue : f ∈ inflight.filter (isDue ⟨m⟩) := List.mem_filter.mpr ⟨hf, decide_eq_true hm.le⟩
    exact List.ne_nil_of_mem (hperm.mem_iff.mpr hdue)
  · intro f hf
    obtain ⟨hf, hdue⟩ := List.mem_filter.mp (hperm.mem_iff.mp hf)
    have h1 : f.deliverAt.micros ≤ m := of_decide_eq_true hdue
    have h2 : m ≤ f.deliverAt.micros := hle _ (List.mem_map_of_mem hf)
    exact congrArg Instant.mk (h1.antisymm h2)

/-- Of two frames the first is due no later. -/
def Queues (f g : InFlight) : Prop := f.deliverAt.micros ≤ g.deliverAt.micros ∧ f.order < g.order

/-- Frames that queue arrive as they do. -/
theorem flushDue_fifo {inflight : List InFlight} {keep : InFlight → Bool} (now : Instant)
    (h : (inflight.filter keep).Pairwise Queues) :
    (flushDue inflight now).2.filter keep ++ (flushDue inflight now).1.filter keep = inflight.filter keep := by
  apply Agenda.due_append_rest before_trans before_total h
  · rintro f g ⟨hdate, horder⟩
    rw [before_iff]
    omega
  · rintro f g ⟨hdate, horder⟩
    rw [Bool.eq_false_iff, Ne, before_iff]
    omega
  · rintro f g ⟨hdate, -⟩ hg
    exact decide_eq_true (hdate.trans (of_decide_eq_true hg))

namespace Line

variable {w w' : Line} {now : Instant} {side : Side} {frame : List UInt8} {t : Fate}

theorem countP_concat (p : Fate → Bool) (l : List Fate) (t : Fate) : (l ++ [t]).countP p = l.countP p + (p t).toNat := by
  rw [List.countP_append, List.countP_singleton]
  cases p t <;> rfl

theorem Sound.routes (h : w.Sound) (hnow : w.clock.micros ≤ now.micros) (hmax : now.micros ≤ Instant.u64Max)
    {link : Link} (hr : Routes w.link link t) (ht : t.now = now) :
    Sound ⟨link, now, w.fates ++ [t], w.arrived⟩ := by
  have hscheduled : scheduled ⟨link, now, w.fates ++ [t], w.arrived⟩ = w.scheduled ++ t.copies := by
    show (w.fates ++ [t]).flatMap Fate.copies = _
    rw [List.flatMap_append, List.flatMap_singleton]
    rfl
  -- every copy is dated now or later, and numbered after what is there
  have hnum : ∀ g ∈ t.copies, w.link.order ≤ g.order := by
    intro g hg
    have hmem : g.order ∈ t.copies.map InFlight.order := List.mem_map_of_mem hg
    rw [hr.numbered, List.mem_range'_1] at hmem
    exact hmem.1
  have hold : ∀ f ∈ w.arrived, f.order < w.link.order := by
    intro f hf
    have hmem : f ∈ w.scheduled := h.conserved.mem_iff.mp (List.mem_append_left _ hf)
    have hrange : f.order ∈ w.scheduled.map InFlight.order := List.mem_map_of_mem hmem
    rwa [h.numbered, List.mem_range] at hrange
  refine ⟨hmax, ?_, ?_, ?_, ?_, ?_, h.sorted, ?_⟩
  · intro u hu
    rw [hr.cfg]
    rcases List.mem_append.mp hu with hu | hu
    · exact h.fair u hu
    · cases List.mem_singleton.mp hu
      exact hr.fair
  · rw [hscheduled, hr.inflight, ← List.append_assoc]
    exact h.conserved.append_right t.copies
  · have happend : List.range' 0 w.link.order ++ List.range' (0 + w.link.order) t.copies.length =
        List.range' 0 (w.link.order + t.copies.length) := List.range'_append_1
    rw [Nat.zero_add] at happend
    rw [hscheduled, List.map_append, h.numbered, hr.numbered, hr.order, List.range_eq_range', List.range_eq_range', happend]
  · obtain ⟨h1, h2, h3⟩ := h.counted
    obtain ⟨hr1, hr2, hr3⟩ := hr.counted
    refine ⟨?_, ?_, ?_⟩
    · rw [countP_concat, ← h1, hr1]
    · rw [countP_concat, ← h2, hr2]
    · rw [countP_concat, ← h3, hr3]
  · intro f hf
    exact (h.past f hf).trans hnow
  · intro f hf g hg
    rw [hr.inflight] at hg
    rcases List.mem_append.mp hg with hg | hg
    · exact h.ahead f hf g hg
    · rw [before_iff]
      have htime := (hr.fair.sent g hg).2.1
      have hpast := h.past f hf
      have hlt := (hold f hf).trans_le (hnum g hg)
      simp only [ht, Instant.plusMicros] at htime
      omega

theorem Sound.deliverDue (h : w.Sound) (hnow : w.clock.micros ≤ now.micros) (hmax : now.micros ≤ Instant.u64Max) :
    Sound ⟨(w.link.deliverDue now).1, now, w.fates, w.arrived ++ (w.link.deliverDue now).2⟩ := by
  have hdue : ∀ f ∈ w.link.inflight, ∀ g ∈ w.link.inflight, isDue now f = true → isDue now g = false →
      before f g = true := by
    intro f _ g _ hf hg
    rw [isDue, decide_eq_true_iff] at hf
    rw [isDue, decide_eq_false_iff_not] at hg
    rw [before_iff]
    omega
  obtain ⟨hsorted, hahead⟩ := Agenda.taken_append before_trans before_total h.sorted h.ahead hdue
  refine ⟨hmax, h.fair, ?_, h.numbered, h.counted, ?_, hsorted, hahead⟩
  · refine List.Perm.trans ?_ h.conserved
    show (w.arrived ++ _ ++ _).Perm _
    rw [List.append_assoc]
    apply List.Perm.append_left
    exact ((List.mergeSort_perm _ before).append_right _).trans (List.filter_append_perm (isDue now) w.link.inflight)
  · intro f hf
    rcases List.mem_append.mp hf with hf | hf
    · exact (h.past f hf).trans hnow
    · have hmem := (List.mergeSort_perm _ before).mem_iff.mp hf
      exact of_decide_eq_true (List.mem_filter.mp hmem).2

/-- What a call does: a frame is routed, or what is due arrives. -/
theorem apply_cases {act : Act} (h : w.apply act = some w') : w.clock.micros ≤ act.now.micros ∧
    act.now.micros ≤ Instant.u64Max ∧
      ((∃ t link, Routes w.link link t ∧ t.now = act.now ∧ act = .enqueue t.now t.side t.frame ∧
        w' = ⟨link, act.now, w.fates ++ [t], w.arrived⟩) ∨
      (act = .deliverDue act.now ∧
        w' = ⟨(w.link.deliverDue act.now).1, act.now, w.fates, w.arrived ++ (w.link.deliverDue act.now).2⟩)) := by
  unfold apply at h
  split at h
  · rename_i htime
    refine ⟨htime.1, htime.2, ?_⟩
    cases act with
    | enqueue now side frame =>
      obtain ⟨copies, hr⟩ := w.link.enqueue_routes now side frame
      cases h
      refine .inl ⟨⟨now, side, frame, copies⟩, _, hr, rfl, rfl, ?_⟩
      rw [hr.inflight, List.drop_left]
      rfl
    | deliverDue now =>
      cases h
      exact .inr ⟨rfl, rfl⟩
  · cases h

theorem Sound.apply (h : w.Sound) {act : Act} (he : w.apply act = some w') : w'.Sound ∧ w'.link.cfg = w.link.cfg := by
  obtain ⟨hnow, hmax, ⟨t, link, hr, ht, -, rfl⟩ | ⟨-, rfl⟩⟩ := apply_cases he
  · exact ⟨h.routes hnow hmax hr ht, hr.cfg⟩
  · exact ⟨h.deliverDue hnow hmax, rfl⟩

theorem sound_of_run {seed : BitVec 64} {cfg : LinkConfig} {acts : List Act}
    (hr : Run.run Line.apply (new seed cfg) acts = some w) : w.Sound ∧ w.link.cfg = cfg := by
  refine Run.run_invariant (I := fun w => w.Sound ∧ w.link.cfg = cfg) (fun w act w' h he => ?_) ⟨sound_new seed cfg, rfl⟩ hr
  obtain ⟨hsound, hcfg⟩ := h.1.apply he
  exact ⟨hsound, hcfg.trans h.2⟩

end Line

/-- The frame that a call puts on the link. -/
def Act.sent : Act → Option (Instant × Side × List UInt8)
  | .enqueue now side frame => some (now, side, frame)
  | .deliverDue _ => none

def Fate.sent (t : Fate) : Instant × Side × List UInt8 := (t.now, t.side, t.frame)

theorem Fate.Fair.one {t : Fate} {cfg : LinkConfig} (h : t.Fair cfg) :
    1 + t.doubled.toNat = t.copies.length + t.lost.toNat := by
  obtain ⟨now, side, frame, copies⟩ := t
  have htwo := h.copies
  rcases copies with _ | ⟨f, _ | ⟨g, _ | ⟨k, l⟩⟩⟩
  · rfl
  · rfl
  · rfl
  · simp only [List.length_cons] at htwo
    omega

namespace Line

variable {w w' : Line}

/-- The fates are those of the frames that were sent. -/
theorem sent_of_run {acts : List Act} (hr : Run.run Line.apply w acts = some w') :
    w'.fates.map Fate.sent = w.fates.map Fate.sent ++ acts.filterMap Act.sent := by
  induction acts generalizing w with
  | nil =>
    cases hr
    exact (List.append_nil _).symm
  | cons act acts ih =>
    obtain ⟨u, hu, hr⟩ := Run.run_cons.mp hr
    rw [ih hr]
    obtain ⟨-, -, ⟨t, link, -, -, hact, rfl⟩ | ⟨hact, rfl⟩⟩ := apply_cases hu
    · rw [hact, List.map_append, List.append_assoc]
      rfl
    · rw [hact]
      rfl

/-- Every frame is lost, or carried once or twice. -/
theorem Sound.balance (h : w.Sound) : w.fates.length + w.link.duplicated = w.link.order + w.link.dropped := by
  have hlen : ∀ l : List Fate, (∀ t ∈ l, t.Fair w.link.cfg) →
      l.length + l.countP Fate.doubled = (l.flatMap Fate.copies).length + l.countP Fate.lost := by
    intro l
    induction l with
    | nil => exact fun _ => rfl
    | cons t l ih =>
      intro hl
      obtain ⟨ht, hl⟩ := List.forall_mem_cons.mp hl
      have hone := ht.one
      have htail := ih hl
      rw [List.flatMap_cons, List.length_append, List.length_cons, List.countP_cons, List.countP_cons]
      cases hd : t.doubled <;> cases hlost : t.lost <;> rw [hd, hlost] at hone <;>
        simp only [Bool.toNat_true, Bool.toNat_false, if_true, Bool.false_eq_true, if_false] at hone ⊢ <;> omega
  have horder : w.scheduled.length = w.link.order := by
    have hnum := congrArg List.length h.numbered
    rwa [List.length_map, List.length_range] at hnum
  have hall := hlen w.fates h.fair
  obtain ⟨hdropped, hduplicated, -⟩ := h.counted
  rw [hdropped, hduplicated, ← horder]
  exact hall

end Line

/-- Whatever is sent and delivered, in any order and at times that do not decrease. Every
frame that left a stack has a fate, and the counters are exact: it is lost, or carried once,
or twice; one of its copies may have one bit behind the IPv4 header flipped; no copy comes
before the delay of the link or after its jitter, nor from a fault that is switched off.
What has arrived is what was due, in the order of its dates, and the rest is in flight. At
the next date some frame is due, and none is late. -/
theorem fault_link_sound {seed : BitVec 64} {cfg : LinkConfig} {acts : List Act} {w : Line}
    (hr : Run.run Line.apply (.new seed cfg) acts = some w) :
    (w.fates.map Fate.sent = acts.filterMap Act.sent ∧ ∀ t ∈ w.fates, t.Fair cfg) ∧
      (w.link.dropped = w.fates.countP Fate.lost ∧ w.link.duplicated = w.fates.countP Fate.doubled ∧
        w.link.corrupted = w.fates.countP Fate.damaged ∧
        w.fates.length + w.link.duplicated = w.link.order + w.link.dropped) ∧
      ((w.arrived ++ w.link.inflight).Perm w.scheduled ∧ w.scheduled.map InFlight.order = List.range w.link.order) ∧
      (w.arrived.Pairwise (fun f g => before f g = true) ∧ ∀ f ∈ w.arrived, f.deliverAt.micros ≤ w.clock.micros) ∧
      ∀ now, w.link.nextDeliverAt = some now →
        (w.link.deliverDue now).2 ≠ [] ∧ ∀ f ∈ (w.link.deliverDue now).2, f.deliverAt = now := by
  obtain ⟨h, rfl⟩ := Line.sound_of_run hr
  obtain ⟨h1, h2, h3⟩ := h.counted
  refine ⟨⟨Line.sent_of_run hr, h.fair⟩, ⟨h1, h2, h3, h.balance⟩, ⟨h.conserved, h.numbered⟩, ⟨h.sorted, h.past⟩, ?_⟩
  intro now
  exact flushDue_next

/-- A link with every fault, and eight frames of which two are lost and three are doubled. -/
def noisy : LinkConfig := ⟨300000, 300000, 300000, 5, 4, by decide, by decide⟩

theorem fault_link_sound_noisy : ∃ w : Line,
    Run.run Line.apply (.new 7 noisy) ((List.range 8).map (fun i => .enqueue ⟨i⟩ .toServer (List.replicate 24 0)) ++
      [.deliverDue ⟨11⟩]) = some w ∧ (w.link.dropped = 2 ∧ w.link.duplicated = 3 ∧ w.link.corrupted = 1) ∧
      w.fates.length + w.link.duplicated = w.link.order + w.link.dropped := by
  obtain ⟨w, hr, hw⟩ := Run.exists_run Line.apply (.new 7 noisy)
    ((List.range 8).map (fun i => .enqueue ⟨i⟩ .toServer (List.replicate 24 0)) ++ [.deliverDue ⟨11⟩])
    (fun w => w.link.dropped = 2 ∧ w.link.duplicated = 3 ∧ w.link.corrupted = 1) (by decide +kernel)
  exact ⟨w, hr, hw, (fault_link_sound hr).2.1.2.2.2⟩

/-! ## The perfect link -/

/-- No fault, and every frame takes as long as any other. -/
structure Faultless (cfg : LinkConfig) : Prop where
  loss : cfg.lossPpm = 0
  dup : cfg.dupPpm = 0
  corrupt : cfg.corruptPpm = 0
  jitter : cfg.jitterUs = 0

/-- Without faults a frame is carried once, as it is. -/
theorem Fate.Fair.whole {t : Fate} {cfg : LinkConfig} (h : t.Fair cfg) (hc : Faultless cfg) :
    ∃ f, t.copies = [f] ∧ f.deliverAt = t.now.plusMicros cfg.minDelayUs ∧ f.side = t.side ∧ f.frame = t.frame := by
  have hkept := h.kept hc.loss
  have hsingle := h.single hc.dup
  obtain ⟨now, side, frame, copies⟩ := t
  rcases copies with _ | ⟨f, _ | ⟨g, l⟩⟩
  · cases hkept
  · obtain ⟨hside, htime⟩ := h.sent f List.mem_cons_self
    refine ⟨f, rfl, ?_, hside, ?_⟩
    · rw [InTime, hc.jitter, Nat.add_zero] at htime
      exact congrArg Instant.mk (htime.2.antisymm htime.1)
    · rcases h.first f rfl with hf | hf
      · exact hf
      · exact absurd hc.corrupt hf.1.ne'
  · cases hsingle

namespace Line

variable {w w' : Line}

structure Piped (w : Line) : Prop where
  pipe : w.arrived ++ w.link.inflight = w.scheduled
  queues : w.scheduled.Pairwise Queues
  dated : ∀ f ∈ w.scheduled, f.deliverAt.micros ≤ (w.clock.plusMicros w.link.cfg.minDelayUs).micros
  whole : w.scheduled.map (fun f => (f.side, f.frame)) = w.fates.map fun t => (t.side, t.frame)

theorem Piped.apply (h : w.Piped) (hs : w.Sound) (hc : Faultless w.link.cfg) {act : Act}
    (he : w.apply act = some w') : w'.Piped := by
  obtain ⟨hnow, hmax, ⟨t, link, hr, ht, -, rfl⟩ | ⟨-, rfl⟩⟩ := apply_cases he
  · obtain ⟨f, hf, hdate, hside, hframe⟩ := hr.fair.whole hc
    have hscheduled : scheduled ⟨link, act.now, w.fates ++ [t], w.arrived⟩ = w.scheduled ++ [f] := by
      show (w.fates ++ [t]).flatMap Fate.copies = _
      rw [List.flatMap_append, List.flatMap_singleton, hf]
      rfl
    have hnum : f.order = w.link.order := by
      have hnumbered := hr.numbered
      rw [hf] at hnumbered
      exact List.head_eq_of_cons_eq hnumbered
    rw [ht] at hdate
    refine ⟨?_, ?_, ?_, ?_⟩
    · rw [hscheduled, hr.inflight, hf, ← List.append_assoc, h.pipe]
    · rw [hscheduled, List.pairwise_append]
      refine ⟨h.queues, List.pairwise_singleton _ _, fun g hg x hx => ?_⟩
      cases List.mem_singleton.mp hx
      constructor
      · have hold := h.dated g hg
        rw [hdate]
        simp only [Instant.plusMicros] at hold ⊢
        omega
      · have hrange : g.order ∈ w.scheduled.map InFlight.order := List.mem_map_of_mem hg
        rw [hs.numbered, List.mem_range] at hrange
        rw [hnum]
        exact hrange
    · intro g hg
      rw [hscheduled] at hg
      show g.deliverAt.micros ≤ (act.now.plusMicros link.cfg.minDelayUs).micros
      rw [hr.cfg]
      rcases List.mem_append.mp hg with hg | hg
      · have hold := h.dated g hg
        simp only [Instant.plusMicros] at hold ⊢
        omega
      · cases List.mem_singleton.mp hg
        exact (congrArg Instant.micros hdate).le
    · rw [hscheduled, List.map_append, h.whole, List.map_append, List.map_singleton, List.map_singleton, hside, hframe]
  · have hinflight : (w.link.inflight.filter fun _ => true).Pairwise Queues := by
      have hq := h.queues
      rw [← h.pipe] at hq
      rw [List.filter_true]
      exact hq.sublist (List.sublist_append_right _ _)
    have hrest := flushDue_fifo act.now hinflight
    rw [List.filter_true, List.filter_true, List.filter_true] at hrest
    refine ⟨?_, h.queues, ?_, h.whole⟩
    · show w.arrived ++ _ ++ _ = w.scheduled
      rw [List.append_assoc, ← h.pipe]
      exact congrArg (w.arrived ++ ·) hrest
    · intro f hf
      have hold := h.dated f hf
      show f.deliverAt.micros ≤ (act.now.plusMicros w.link.cfg.minDelayUs).micros
      simp only [Instant.plusMicros] at hold ⊢
      omega

theorem piped_of_run {seed : BitVec 64} {cfg : LinkConfig} {acts : List Act} (hc : Faultless cfg)
    (hr : Run.run Line.apply (new seed cfg) acts = some w) : w.Piped := by
  have hnew : (new seed cfg).Piped := by
    refine ⟨rfl, .nil, fun f hf => ?_, rfl⟩
    cases hf
  have hrun : (w.Sound ∧ w.link.cfg = cfg) ∧ w.Piped := by
    refine Run.run_invariant (I := fun w => (w.Sound ∧ w.link.cfg = cfg) ∧ w.Piped) (fun w act w' h he => ?_)
      ⟨⟨sound_new seed cfg, rfl⟩, hnew⟩ hr
    obtain ⟨⟨hs, hcfg⟩, hp⟩ := h
    obtain ⟨hs', hcfg'⟩ := hs.apply he
    exact ⟨⟨hs', hcfg'.trans hcfg⟩, hp.apply hs (hcfg ▸ hc) he⟩
  exact hrun.2

end Line

/-- A frame without its time. -/
def Act.framed (act : Act) : Option (Side × List UInt8) := act.sent.map Prod.snd

/-- A link without faults is a pipe: what has arrived, followed by what is in flight, is what
was sent, unharmed, once and in order, and each frame arrives after the delay. -/
theorem perfect_link_fifo {seed : BitVec 64} {cfg : LinkConfig} {acts : List Act} {w : Line} (hc : Faultless cfg)
    (hr : Run.run Line.apply (.new seed cfg) acts = some w) :
    (w.arrived ++ w.link.inflight).map (fun f => (f.side, f.frame)) = acts.filterMap Act.framed ∧
      (w.arrived ++ w.link.inflight).map InFlight.deliverAt =
        (acts.filterMap Act.sent).map (fun x => x.1.plusMicros cfg.minDelayUs) := by
  have hp := Line.piped_of_run hc hr
  obtain ⟨hs, hcfg⟩ := Line.sound_of_run hr
  have hsent : w.fates.map Fate.sent = acts.filterMap Act.sent := Line.sent_of_run hr
  constructor
  · have hframed : acts.filterMap Act.framed = (acts.filterMap Act.sent).map Prod.snd := by
      rw [List.map_filterMap]
      rfl
    rw [hp.pipe, hp.whole, hframed, ← hsent, List.map_map]
    rfl
  · rw [hp.pipe, ← hsent, List.map_map]
    have hdates : ∀ l : List Fate, (∀ t ∈ l, t.Fair cfg) →
        (l.flatMap Fate.copies).map InFlight.deliverAt = l.map fun t => t.now.plusMicros cfg.minDelayUs := by
      intro l
      induction l with
      | nil => exact fun _ => rfl
      | cons t l ih =>
        intro hl
        obtain ⟨ht, hl⟩ := List.forall_mem_cons.mp hl
        obtain ⟨f, hf, hdate, -, -⟩ := ht.whole hc
        rw [List.flatMap_cons, List.map_append, List.map_cons, ih hl, hf, ← hdate]
        rfl
    exact hdates w.fates (hcfg ▸ hs.fair)

/-- Frames that cross on the link of the tests. -/
theorem perfect_link_fifo_crossing : ∃ w : Line,
    Run.run Line.apply (.new 1 .perfect)
      [.enqueue ⟨0⟩ .toServer [1], .enqueue ⟨3⟩ .toClient [2], .enqueue ⟨3⟩ .toServer [3], .deliverDue ⟨5001⟩] = some w ∧
      w.arrived.length = 1 ∧
      (w.arrived ++ w.link.inflight).map (fun f => (f.side, f.frame)) =
        [(DualQueueLink.Side.toServer, [1]), (.toClient, [2]), (.toServer, [3])] := by
  obtain ⟨w, hr, hw⟩ := Run.exists_run Line.apply (.new 1 .perfect)
    [.enqueue ⟨0⟩ .toServer [1], .enqueue ⟨3⟩ .toClient [2], .enqueue ⟨3⟩ .toServer [3], .deliverDue ⟨5001⟩]
    (fun w => w.arrived.length = 1) (by decide +kernel)
  exact ⟨w, hr, hw, (perfect_link_fifo ⟨rfl, rfl, rfl, rfl⟩ hr).1⟩

/-! ## Losses in a row -/

/-- Frames sent one after the other. -/
def enqueueAll (l : Link) (sends : List (Instant × Side × List UInt8)) : Link :=
  sends.foldl (fun l x => l.enqueue x.1 x.2.1 x.2.2) l

theorem enqueue_lost (l : Link) (now : Instant) (side : Side) (frame : List UInt8)
    (h : (l.rng.chancePpm l.cfg.lossPpm).1 = true) :
    l.enqueue now side frame = { l with rng := l.rng.nextU64.2, dropped := l.dropped + 1 } := by
  unfold enqueue
  rw [if_pos h, (l.rng.chancePpm_true h).2.2]

theorem enqueue_carried (l : Link) (now : Instant) (side : Side) (frame : List UInt8)
    (h : (l.rng.chancePpm l.cfg.lossPpm).1 = false) : (l.enqueue now side frame).dropped = l.dropped := by
  unfold enqueue
  rw [if_neg (Bool.eq_false_iff.mp h)]
  dsimp only
  generalize (l.rng.chancePpm l.cfg.lossPpm).2.chancePpm l.cfg.corruptPpm = corrupt
  obtain ⟨f, hf, -⟩ := schedule_schedules { l with rng := corrupt.2 } now side frame corrupt.1
  have hkept := hf.rest.2.1
  generalize schedule { l with rng := corrupt.2 } now side frame corrupt.1 = l₁ at *
  generalize l₁.rng.chancePpm l₁.cfg.dupPpm = dup
  split
  · obtain ⟨g, hg, -⟩ := schedule_schedules { l₁ with rng := dup.2, duplicated := l₁.duplicated + 1 } now side frame false
    exact hg.rest.2.1.trans hkept
  · exact hkept

theorem dropped_enqueue_le (l : Link) (now : Instant) (side : Side) (frame : List UInt8) :
    (l.enqueue now side frame).dropped ≤ l.dropped + 1 := by
  cases h : (l.rng.chancePpm l.cfg.lossPpm).1 with
  | true => rw [l.enqueue_lost now side frame h]
  | false => exact (l.enqueue_carried now side frame h).le.trans (Nat.le_succ _)

theorem dropped_enqueueAll_le (l : Link) (sends : List (Instant × Side × List UInt8)) :
    (l.enqueueAll sends).dropped ≤ l.dropped + sends.length := by
  induction sends generalizing l with
  | nil => exact le_rfl
  | cons x sends ih =>
    have hfirst := l.dropped_enqueue_le x.1 x.2.1 x.2.2
    have hrest := ih (l.enqueue x.1 x.2.1 x.2.2)
    rw [List.length_cons]
    change (enqueueAll (l.enqueue x.1 x.2.1 x.2.2) sends).dropped ≤ _
    omega

/-- If all frames are lost, then the generator has not drawn anything else. -/
theorem draws_of_lost {l : Link} {sends : List (Instant × Side × List UInt8)}
    (h : (l.enqueueAll sends).dropped = l.dropped + sends.length) :
    ∀ i < sends.length, (l.rng.draw i).toNat % 1000000 < l.cfg.lossPpm := by
  induction sends generalizing l with
  | nil => exact fun i hi => absurd hi (Nat.not_lt_zero i)
  | cons x sends ih =>
    change (enqueueAll (l.enqueue x.1 x.2.1 x.2.2) sends).dropped = l.dropped + (sends.length + 1) at h
    have hle := dropped_enqueueAll_le (l.enqueue x.1 x.2.1 x.2.2) sends
    cases hloss : (l.rng.chancePpm l.cfg.lossPpm).1 with
    | false =>
      rw [l.enqueue_carried x.1 x.2.1 x.2.2 hloss] at hle
      omega
    | true =>
      rw [l.enqueue_lost x.1 x.2.1 x.2.2 hloss] at h
      have hrest := ih (h.trans (by show l.dropped + (sends.length + 1) = l.dropped + 1 + sends.length; omega))
      intro i hi
      cases i with
      | zero =>
        rw [Rng.draw_zero]
        exact (l.rng.chancePpm_true hloss).2.1
      | succ i =>
        rw [Rng.draw_succ]
        exact hrest i (Nat.lt_of_succ_lt_succ hi)

/-- However the link was used before: unless it drops everything, it does not drop more frames
in a row than the loss of a period of draws. -/
theorem losses_bounded (l : Link) (hloss : l.cfg.lossPpm < 1000000) (sends : List (Instant × Side × List UInt8))
    (h : (l.enqueueAll sends).dropped = l.dropped + sends.length) :
    sends.length ≤ l.cfg.lossPpm * (Rng.period / 1000000 + 1) := by
  refine Mixing.streak_le l.rng.bijective_draw (by decide) ?_ (draws_of_lost h)
  have hperiod : 999999 * (Rng.period / 1000000 + 1) < Rng.period := by decide
  calc l.cfg.lossPpm * (Rng.period / 1000000 + 1) ≤ 999999 * (Rng.period / 1000000 + 1) :=
        Nat.mul_le_mul_right _ (by omega)
    _ < Rng.period := hperiod

/-- Three frames of which a link that loses three in five loses all. -/
theorem losses_bounded_three :
    (enqueueAll (new 9 (.lossy 60)) (List.replicate 3 (⟨0⟩, .toServer, [1]))).dropped = 3 ∧
      3 ≤ 600000 * (Rng.period / 1000000 + 1) := by
  have hdropped : (enqueueAll (new 9 (.lossy 60)) (List.replicate 3 (⟨0⟩, .toServer, [1]))).dropped = 3 := by
    decide +kernel
  exact ⟨hdropped, losses_bounded (new 9 (.lossy 60)) (by decide) (List.replicate 3 (⟨0⟩, .toServer, [1])) hdropped⟩

end Link

end Ferrumnet
