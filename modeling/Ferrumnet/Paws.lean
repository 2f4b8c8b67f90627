import Ferrumnet.Handshake
import Ferrumnet.Report

/-
  What the PAWS check discards.

  TSval is the low 32 bits of a microsecond clock, read when a segment is
  emitted; TS.Recent is the TSval of the last segment at the left window edge. A
  segment is stale if its TSval is behind TS.Recent as a signed difference, so
  it is discarded for being emitted earlier, and also for being emitted more
  than half a turn of the clock later.

  1. `Clocked` — a world, with the time each packet was emitted and the time the
     packet was emitted that TS.Recent came from.
  2. `drops_only_old_iff` — the segments discarded in a run bring nothing new
     exactly if those that do bring something are emitted in time.
-/

namespace Ferrumnet

namespace Core

variable (c : Core) (p : TcpPacket)

/-- The segment is one that the PAWS check looks at. -/
def readsPaws : Bool :=
  c.state ≠ .synSent && !p.flags.rst && c.state ≠ .timeWait && !p.flags.syn && (c.segTs p).isSome

/-- The segment is discarded by the PAWS check. -/
def pawsDrops : Bool := c.readsPaws p && c.pawsStale p

/-- TS.Recent is taken from the segment: the peer's SYN, or an acceptable segment
that reaches the left window edge. -/
def takesTs : Bool :=
  if c.state = .synSent then (!p.flags.ack || c.acksSyn p) && !p.flags.rst && p.flags.syn
  else c.readsPaws p && !c.pawsStale p && c.toRecvSpace.segmentAcceptable p.seq p.segLen
    && p.seq.le c.rcvNxt

theorem onAcceptable_tsRecent :
    (c.onAcceptable p).tsRecent = c.tsRecentAfter p ∧
      (c.onAcceptable p).tsEnabled = c.tsEnabled := by
  unfold onAcceptable
  dsimp only
  split
  · split
    · exact ⟨rfl, rfl⟩
    · split <;> exact ⟨rfl, rfl⟩
  · exact ⟨rfl, rfl⟩

/-- What the peer's SYN makes of TS.Recent. -/
theorem onSegmentSynSent_tsRecent (hst : c.state = .synSent)
    (h : (c.onSegmentSynSent p).tsEnabled = true) :
    (c.takesTs p = true ∧ ∃ ts, p.timestamps = some ts ∧ (c.onSegmentSynSent p).tsRecent = ts.1) ∨
      (c.takesTs p = false ∧ c.tsEnabled = true ∧ (c.onSegmentSynSent p).tsRecent = c.tsRecent) := by
  have hlearn : p.timestamps.isSome = true →
      ∃ ts, p.timestamps = some ts ∧ (c.learnPeer p).tsRecent = ts.1 := by
    intro hsome
    obtain ⟨ts, hts⟩ := Option.isSome_iff_exists.mp hsome
    exact ⟨ts, hts, by simp only [learnPeer, hts]⟩
  rw [takesTs, if_pos hst]
  unfold onSegmentSynSent at h ⊢
  split at h
  · rename_i hbad
    rw [if_pos hbad]
    simp only [Bool.and_eq_true, Bool.not_eq_true'] at hbad
    exact .inr ⟨by simp [hbad.1, hbad.2], h, rfl⟩
  rename_i hbad
  rw [if_neg hbad]
  split at h
  · rename_i hrst
    rw [if_pos hrst]
    refine .inr ⟨by simp [hrst], ?_, ?_⟩
    · split at h <;> exact h
    · split <;> rfl
  rename_i hrst
  rw [if_neg hrst]
  split at h
  · rename_i hsyn
    rw [if_pos hsyn]
    have hgood : (!p.flags.ack || c.acksSyn p) = true := by
      cases hf : p.flags.ack <;> simp_all
    refine .inl ⟨by simp [hgood, hrst, hsyn], ?_⟩
    split at h
    · rename_i hack
      rw [if_pos hack]
      exact hlearn h
    · rename_i hack
      rw [if_neg hack]
      exact hlearn h
  · rename_i hsyn
    rw [if_neg hsyn]
    exact .inr ⟨by simp [hsyn], h, rfl⟩

/-- What a segment makes of TS.Recent. -/
theorem onSegment_tsRecent (h : (c.onSegment p).tsEnabled = true) :
    (c.takesTs p = true ∧ ∃ ts, p.timestamps = some ts ∧ (c.onSegment p).tsRecent = ts.1) ∨
      (c.takesTs p = false ∧ c.tsEnabled = true ∧ (c.onSegment p).tsRecent = c.tsRecent) := by
  unfold onSegment at h ⊢
  by_cases hst : c.state = .synSent
  · rw [if_pos hst] at h ⊢
    exact c.onSegmentSynSent_tsRecent p hst h
  rw [if_neg hst] at h ⊢
  rw [takesTs, if_neg hst]
  by_cases hrst : p.flags.rst = true
  · rw [if_pos hrst] at h ⊢
    refine .inr ⟨by simp [readsPaws, hrst], ?_, ?_⟩
    · split at h <;> exact h
    · split <;> rfl
  rw [if_neg hrst] at h ⊢
  by_cases htw : c.state = .timeWait
  · rw [if_pos htw] at h ⊢
    exact .inr ⟨by simp [readsPaws, htw], h, rfl⟩
  rw [if_neg htw] at h ⊢
  by_cases hsyn : p.flags.syn = true
  · rw [if_pos hsyn] at h ⊢
    refine .inr ⟨by simp [readsPaws, hsyn], ?_, ?_⟩
    · split at h <;> exact h
    · split <;> rfl
  rw [if_neg hsyn] at h ⊢
  by_cases hstale : c.pawsStale p = true
  · rw [if_pos hstale] at h ⊢
    exact .inr ⟨by simp [hstale], h, rfl⟩
  rw [if_neg hstale] at h ⊢
  by_cases hacc : c.toRecvSpace.segmentAcceptable p.seq p.segLen = true
  · rw [if_pos hacc] at h ⊢
    obtain ⟨hts, hen⟩ := c.onAcceptable_tsRecent p
    rw [hen] at h
    rw [hts, tsRecentAfter]
    have hreads : c.readsPaws p = p.timestamps.isSome := by
      simp [readsPaws, segTs, hst, hrst, htw, hsyn, h]
    have hsegTs : c.segTs p = p.timestamps := by simp [segTs, h]
    rw [hreads, hsegTs]
    cases hp : p.timestamps with
    | none => exact .inr ⟨rfl, h, rfl⟩
    | some ts =>
      by_cases hle : p.seq.le c.rcvNxt = true
      · exact .inl ⟨by simp [hstale, hacc, hle], ts, rfl, by simp [hle]⟩
      · exact .inr ⟨by simp [hle], h, by simp [hle]⟩
  · rw [if_neg hacc] at h ⊢
    exact .inr ⟨by simp [hacc], h, rfl⟩

end Core

namespace Host

variable {κ : Type} [CongestionControl κ] {r : Host κ} {i : Input}

/-- Only a segment moves TS.Recent. -/
theorem Ok.tsRecent (h : r.Ok) (hi : ∀ seg now ce, i ≠ .segment seg now ce) :
    (r.input i).1.tcb.tsRecent = r.tcb.tsRecent := by
  cases i with
  | segment seg now ce => exact absurd rfl (hi seg now ce)
  | send data =>
    rcases r.tcb.core_send' data with ⟨-, -, hc⟩ | ⟨-, hc⟩
    · exact congrArg Core.tsRecent hc
    · exact congrArg Core.tsRecent hc
  | recv n => rfl
  | close => rfl
  | timer now =>
    rcases r.tcb.core_onTimer now with hc | hc
    · exact congrArg Core.tsRecent hc
    · exact congrArg Core.tsRecent hc
  | poll now =>
    have hp := h.polls now
    change (r.tcb.pollTransmit now).1.tsRecent = r.tcb.tsRecent
    generalize r.tcb.pollTransmit now = q at hp ⊢
    obtain ⟨t, o⟩ := q
    dsimp only at hp ⊢
    cases hp with
    | idle hc => exact congrArg Core.tsRecent hc
    | rst _ _ hc => exact congrArg Core.tsRecent hc
    | syn _ hc =>
      rcases hc with ⟨-, hc⟩ | ⟨-, hc⟩
      · exact congrArg Core.tsRecent hc
      · exact congrArg Core.tsRecent hc
    | segment _ _ _ _ hc => exact congrArg Core.tsRecent hc

/-- A segment carries the clock of its emission. -/
theorem Ok.tsval (h : r.Ok) {now : Instant} {d : Datagram} (hd : (r.input (.poll now)).2 = some d)
    {ts : BitVec 32 × BitVec 32} (hts : d.repr.timestamps = some ts) :
    ts.1 = BitVec.ofNat 32 now.micros := by
  have hp := h.polls now
  change (r.tcb.pollTransmit now).2 = some d at hd
  generalize r.tcb.pollTransmit now = q at hp hd
  obtain ⟨t, o⟩ := q
  dsimp only at hp hd
  subst hd
  cases hp with
  | rst _ _ _ => cases hts
  | syn _ _ =>
    cases hts
    rfl
  | segment t₀ _ hclock _ _ =>
    change (if t₀.tsEnabled then some (t₀.curTsval, t₀.tsRecent) else none) = some ts at hts
    split at hts
    · cases hts
      exact hclock
    · cases hts

end Host

/-- The segment brings an octet at or above `RCV.NXT` that is not yet held. -/
def Tcb.Brings {κ : Type} (t : Tcb κ) (p : TcpPacket) : Prop :=
  ∃ j < p.payload.len, (p.seq + j).ge t.rcvNxt = true ∧ t.reasm.holds (p.seq + j) = false

instance {κ : Type} (t : Tcb κ) (p : TcpPacket) : Decidable (t.Brings p) :=
  inferInstanceAs (Decidable (∃ j < _, _ ∧ _))

/-- A world, with the microsecond at which each packet was emitted, and the one
at which the packet was emitted that TS.Recent of a side came from. -/
structure Clocked (κ : Type) where
  world : World κ
  emitted : Side → List Nat
  recent : Side → Nat

namespace Clocked

variable {κ : Type} [CongestionControl κ] {w w' : Clocked κ}

def init : Clocked κ := { world := World.init, emitted := fun _ => [], recent := fun _ => 0 }

/-- The time of emission of packet `i` of the peer. -/
def sentAt (w : Clocked κ) (x : Side) (i : Nat) : Nat := (w.emitted x.other)[i]?.getD 0

/-- Packet `i` of the peer sets TS.Recent of a side. -/
def takesTs (w : Clocked κ) (x : Side) (i : Nat) : Bool :=
  match w.world.host x, (w.world.wire x.other)[i]? with
  | some r, some p => r.tcb.core.takesTs p.dgram.parse
  | _, _ => false

/-- The times of emission after an action that leads to `v`. -/
def emittedAfter (w : Clocked κ) (v : World κ) (act : Action) (x : Side) : List Nat :=
  match act with
  | .poll _ now => w.emitted x ++ List.replicate ((v.wire x).length - (w.world.wire x).length) now.micros
  | _ => w.emitted x

def recentAfter (w : Clocked κ) (act : Action) (x : Side) : Nat :=
  match act with
  | .accept y i _ _ _ _ _ => if y = x then w.sentAt x i else w.recent x
  | .deliver y i _ _ => if y = x ∧ w.takesTs x i = true then w.sentAt x i else w.recent x
  | _ => w.recent x

def step (w : Clocked κ) (act : Action) : Option (Clocked κ) :=
  (w.world.apply act).map fun v => ⟨v, w.emittedAfter v act, w.recentAfter act⟩

/-! ## The two conditions -/

/-- A segment that the PAWS check discards brings nothing new. -/
def DropsOnlyOld (w : Clocked κ) : Action → Prop
  | .deliver x i _ _ => ∀ r ∈ w.world.host x, ∀ p ∈ (w.world.wire x.other)[i]?,
      r.tcb.core.pawsDrops p.dgram.parse = true → ¬ r.tcb.Brings p.dgram.parse
  | _ => True

/-- A segment that brings something new was emitted no earlier, and less than half
a turn of the clock later, than the segment that TS.Recent came from. -/
def InTime (w : Clocked κ) : Action → Prop
  | .deliver x i _ _ => ∀ r ∈ w.world.host x, ∀ p ∈ (w.world.wire x.other)[i]?,
      r.tcb.core.readsPaws p.dgram.parse = true → r.tcb.Brings p.dgram.parse →
        ((w.sentAt x i : Int) - w.recent x) % 4294967296 < 2147483648
  | _ => True

instance (w : Clocked κ) : ∀ act, Decidable (w.DropsOnlyOld act)
  | .deliver x i _ _ => inferInstanceAs (Decidable (∀ r ∈ w.world.host x, ∀ p ∈ (w.world.wire x.other)[i]?,
      _ = true → ¬ _))
  | .connect .. | .accept .. | .send .. | .recv .. | .close .. | .timer .. | .poll .. => isTrue trivial

instance (w : Clocked κ) : ∀ act, Decidable (w.InTime act)
  | .deliver x i _ _ => inferInstanceAs (Decidable (∀ r ∈ w.world.host x, ∀ p ∈ (w.world.wire x.other)[i]?,
      _ = true → Tcb.Brings _ _ → _ < _))
  | .connect .. | .accept .. | .send .. | .recv .. | .close .. | .timer .. | .poll .. => isTrue trivial

/-! ## The clock in the segments -/

/-- TSvals and TS.Recent are the low 32 bits of the times. -/
structure Ticks (w : Clocked κ) : Prop where
  ok : ∀ x r, w.world.host x = some r → r.Ok
  lengths : ∀ x, (w.emitted x).length = (w.world.wire x).length
  stamped : ∀ (x : Side) (i : Nat) (p : Packet), (w.world.wire x)[i]? = some p →
    ∀ ts, p.dgram.repr.timestamps = some ts → ts.1 = BitVec.ofNat 32 ((w.emitted x)[i]?.getD 0)
  recent : ∀ x r, w.world.host x = some r → r.tcb.tsEnabled = true →
    r.tcb.tsRecent = BitVec.ofNat 32 (w.recent x)

omit [CongestionControl κ] in
theorem ticks_init : (init : Clocked κ).Ticks := by
  refine ⟨fun x r hx => ?_, fun x => ?_, fun x i p hp => ?_, fun x r hx => ?_⟩
  · cases x <;> cases hx
  · cases x <;> rfl
  · cases x <;> cases hp
  · cases x <;> cases hx

omit [CongestionControl κ] in
/-- A host moves on, and what it emits is stamped with the clock. -/
theorem Ticks.update (h : w.Ticks) {x : Side} {r : Host κ} {o : Option Packet} (now : Nat)
    {recent : Side → Nat} {emitted : Side → List Nat} (hok : r.Ok)
    (hx : emitted x = w.emitted x ++ List.replicate o.toList.length now)
    (hother : emitted x.other = w.emitted x.other)
    (hstamp : ∀ p ∈ o, ∀ ts, p.dgram.repr.timestamps = some ts → ts.1 = BitVec.ofNat 32 now)
    (hrec : r.tcb.tsEnabled = true → r.tcb.tsRecent = BitVec.ofNat 32 (recent x))
    (hrother : recent x.other = w.recent x.other) :
    Ticks ⟨(w.world.setHost x r).transmit x o, emitted, recent⟩ := by
  refine ⟨fun y s hy => ?_, fun y => ?_, fun y i p hp ts hts => ?_, fun y s hy hts => ?_⟩
  · rcases Side.eq_or_other x y with rfl | rfl <;> simp at hy
    · subst hy
      exact hok
    · exact h.ok _ _ hy
  · rcases Side.eq_or_other x y with rfl | rfl
    · simp [hx, h.lengths]
    · simp [hother, h.lengths]
  · rcases Side.eq_or_other x y with rfl | rfl <;> simp at hp
    · show ts.1 = BitVec.ofNat 32 ((emitted y)[i]?.getD 0)
      rw [hx]
      by_cases hi : i < (w.world.wire y).length
      · rw [List.getElem?_append_left hi] at hp
        rw [List.getElem?_append_left (by rw [h.lengths]; exact hi)]
        exact h.stamped y i p hp ts hts
      · have hi' : (w.emitted y).length ≤ i := by
          rw [h.lengths]
          exact Nat.le_of_not_lt hi
        rw [List.getElem?_append_right (Nat.le_of_not_lt hi)] at hp
        rw [List.getElem?_append_right hi', h.lengths]
        obtain ⟨hlt, hget⟩ := List.getElem?_eq_some_iff.mp hp
        rw [List.getElem?_replicate, if_pos hlt, Option.getD_some]
        exact hstamp p (Option.mem_toList.mp (hget ▸ List.getElem_mem hlt)) ts hts
    · show ts.1 = BitVec.ofNat 32 ((emitted x.other)[i]?.getD 0)
      rw [hother]
      exact h.stamped _ i p hp ts hts
  · rcases Side.eq_or_other x y with rfl | rfl <;> simp at hy
    · subst hy
      exact hrec hts
    · show s.tcb.tsRecent = BitVec.ofNat 32 (recent x.other)
      rw [hrother]
      exact h.recent _ _ hy hts

omit [CongestionControl κ] in
/-- The clock of a delivered packet. -/
theorem Ticks.sentAt (h : w.Ticks) {x : Side} {i : Nat} {p : Packet}
    (hp : (w.world.wire x.other)[i]? = some p) {ts : BitVec 32 × BitVec 32}
    (hts : p.dgram.parse.timestamps = some ts) : ts.1 = BitVec.ofNat 32 (w.sentAt x i) :=
  h.stamped _ i p hp ts hts

/-- What one action keeps. -/
theorem Ticks.step (h : w.Ticks) {act : Action} (hs : w.step act = some w') : w'.Ticks := by
  obtain ⟨v, hv, rfl⟩ := Option.map_eq_some_iff.mp hs
  have hne : ∀ x : Side, x ≠ x.other := fun x => (Side.other_ne x).symm
  cases World.apply_steps hv with
  | connect x loc remote iss now mss kind hx =>
    have hcore := World.core_setCongestionControl
      (Tcb.newSynSent loc remote iss now mss : Tcb κ) kind
    rw [← World.transmit_none (w := w.world.setHost x _) x]
    refine h.update 0 (Host.Opens.active ..).ok (by simp [emittedAfter]) rfl (by simp)
      (fun hts => ?_) rfl
    have hen := congrArg (fun c : Core => c.tsEnabled) hcore
    exact absurd (hen.symm.trans hts) (by simp [Tcb.core, Tcb.newSynSent])
  | accept x i offered iss now mss kind p hx hp hopens =>
    have hcore := World.core_setCongestionControl (Tcb.newSynReceived p.dgram.dst p.dgram.src
      (offered.restrict p.dgram.parse) iss now mss : Tcb κ) kind
    have hopen := Host.Opens.passive (κ := κ) p.dgram.dst p.dgram.src
      (offered.restrict p.dgram.parse) iss now mss kind
    rw [← World.transmit_none (w := w.world.setHost x _) x]
    refine h.update 0 hopen.ok (by simp [emittedAfter]) rfl (by simp) (fun hts => ?_)
      (by simp [recentAfter, hne])
    have hen := congrArg (fun c : Core => c.tsEnabled) hcore
    have hrec := congrArg Core.tsRecent hcore
    have hsome : (offered.restrict p.dgram.parse).timestamps.isSome = true := hen.symm.trans hts
    obtain ⟨ts, hrestrict⟩ := Option.isSome_iff_exists.mp hsome
    have hpts : p.dgram.parse.timestamps = some ts := by
      unfold Offered.restrict at hrestrict
      dsimp only at hrestrict
      split at hrestrict
      · exact hrestrict
      · cases hrestrict
    rw [show w.recentAfter (.accept x i offered iss now mss kind) x = w.sentAt x i by
      simp [recentAfter], ← h.sentAt hp hpts]
    refine hrec.trans ?_
    simp [Tcb.core, Tcb.newSynReceived, hrestrict]
  | deliver x i now ce r p hx hp =>
    have ht := r.tcb.core_onSegment now p.dgram.parse ce
    generalize r.tcb.onSegment now p.dgram.parse ce = t at ht
    rw [← World.transmit_none (w := w.world.setHost x _) x]
    refine h.update 0 ((h.ok x r hx).segment ht) (by simp [emittedAfter]) rfl (by simp)
      (fun hts => ?_) (by simp [recentAfter, hne])
    have htakes : w.takesTs x i = r.tcb.core.takesTs p.dgram.parse := by
      simp only [takesTs, hx, hp]
    have hen : (r.tcb.core.onSegment p.dgram.parse).tsEnabled = true :=
      (congrArg (fun c : Core => c.tsEnabled) ht).symm.trans hts
    have hrec : t.tsRecent = (r.tcb.core.onSegment p.dgram.parse).tsRecent := congrArg Core.tsRecent ht
    show t.tsRecent = _
    rw [hrec]
    rcases r.tcb.core.onSegment_tsRecent p.dgram.parse hen with ⟨h1, ts, hpts, h2⟩ | ⟨h1, h2, h3⟩
    · rw [h2, h.sentAt hp hpts]
      simp [recentAfter, htakes, h1]
    · rw [h3, show r.tcb.core.tsRecent = r.tcb.tsRecent from rfl, h.recent x r hx h2]
      simp [recentAfter, htakes, h1]
  | own act x r i hx hi =>
    have hok := h.ok x r hx
    have hseg : ∀ seg now ce, i ≠ .segment seg now ce := by
      intro seg now ce he
      subst he
      cases act <;> simp [Action.own] at hi
    have hrec : (r.input i).1.tcb.tsEnabled = true →
        (r.input i).1.tcb.tsRecent = BitVec.ofNat 32 (w.recent x) := by
      intro hts
      rw [hok.tsRecent hseg]
      refine h.recent x r hx ?_
      rw [← hts, congrArg Options.tsEnabled (hok.stays hseg).options]
    cases act with
    | poll y now =>
      cases hi
      refine h.update now.micros (hok.input _) (by simp [emittedAfter]) (by simp [emittedAfter])
        (fun p hp ts hts => ?_) hrec rfl
      obtain ⟨d, hd, rfl⟩ := Option.map_eq_some_iff.mp hp
      exact hok.tsval hd hts
    | send _ data =>
      cases hi
      exact h.update (o := none) 0 (hok.input (.send data)) (by simp [emittedAfter]) rfl (by simp)
        hrec rfl
    | recv _ n =>
      cases hi
      exact h.update (o := none) 0 (hok.input (.recv n)) (by simp [emittedAfter]) rfl (by simp)
        hrec rfl
    | close _ =>
      cases hi
      exact h.update (o := none) 0 (hok.input .close) (by simp [emittedAfter]) rfl (by simp)
        hrec rfl
    | timer _ now =>
      cases hi
      exact h.update (o := none) 0 (hok.input (.timer now)) (by simp [emittedAfter]) rfl (by simp)
        hrec rfl
    | _ => cases hi

/-! ## Dropped, and emitted out of time -/

/-- A TSval is behind TS.Recent unless it was read less than half a turn later. -/
theorem behind_iff (m n : Nat) : (BitVec.ofNat 32 m - BitVec.ofNat 32 n).toInt < 0 ↔
    ¬ ((m : Int) - n) % 4294967296 < 2147483648 := by
  have hneg := Serial.sdist_neg_iff (BitVec.ofNat 32 m) (BitVec.ofNat 32 n)
  have hdist : Serial.udist (BitVec.ofNat 32 m) (BitVec.ofNat 32 n) =
      (4294967296 - n % 4294967296 + m % 4294967296) % 4294967296 := by
    rw [Serial.udist, BitVec.toNat_sub, BitVec.toNat_ofNat, BitVec.toNat_ofNat]
  rw [show (BitVec.ofNat 32 m - BitVec.ofNat 32 n).toInt =
    Serial.sdist (BitVec.ofNat 32 m) (BitVec.ofNat 32 n) from rfl, hneg, hdist]
  omega

omit [CongestionControl κ] in
/-- The PAWS check discards what was not emitted in time. -/
theorem Ticks.pawsDrops_iff (h : w.Ticks) {x : Side} {i : Nat} {r : Host κ} {p : Packet}
    (hx : w.world.host x = some r) (hp : (w.world.wire x.other)[i]? = some p) :
    r.tcb.core.pawsDrops p.dgram.parse = true ↔ r.tcb.core.readsPaws p.dgram.parse = true ∧
      ¬ ((w.sentAt x i : Int) - w.recent x) % 4294967296 < 2147483648 := by
  rw [Core.pawsDrops, Bool.and_eq_true]
  refine and_congr_right fun hreads => ?_
  -- A segment that the check looks at has a timestamp, and timestamps are in use.
  have hsome : (r.tcb.core.segTs p.dgram.parse).isSome = true := by
    simp only [Core.readsPaws, Bool.and_eq_true] at hreads
    exact hreads.2
  obtain ⟨ts, hseg⟩ := Option.isSome_iff_exists.mp hsome
  have hen : r.tcb.tsEnabled = true ∧ p.dgram.parse.timestamps = some ts := by
    unfold Core.segTs at hseg
    split at hseg
    · rename_i hen
      exact ⟨hen, hseg⟩
    · cases hseg
  have hrec : r.tcb.core.tsRecent = BitVec.ofNat 32 (w.recent x) := h.recent x r hx hen.1
  rw [Core.pawsStale, hseg]
  dsimp only
  rw [decide_eq_true_iff, h.sentAt hp hen.2, hrec]
  exact behind_iff _ _

omit [CongestionControl κ] in
theorem Ticks.dropsOnlyOld_iff (h : w.Ticks) (act : Action) : w.DropsOnlyOld act ↔ w.InTime act := by
  cases act with
  | deliver x i now ce =>
    refine forall₄_congr fun r hx p hp => ?_
    rw [h.pawsDrops_iff hx hp]
    tauto
  | _ => exact Iff.rfl

/-- The handshake, and an octet sent half a turn of the clock later. -/
def idle : List Action :=
  World.handshake ++ [.send .a (Bytes.replicate 1 7), .poll .a ⟨2147483648⟩]

/-- Two segments are sent; the retransmission of the first is faster than the second. -/
def overtaken : List Action :=
  [.connect .a ⟨1, 1000⟩ ⟨2, 80⟩ (SeqNumber.new 100) ⟨0⟩ 20 .reno, .poll .a ⟨0⟩,
    .accept .b 0 ⟨true, true, true, true⟩ (SeqNumber.new 4294967290) ⟨0⟩ 65495 .reno, .poll .b ⟨0⟩,
    .deliver .a 0 ⟨0⟩ false, .poll .a ⟨0⟩, .deliver .b 1 ⟨0⟩ false,
    .send .a (Bytes.replicate 16 7), .poll .a ⟨10⟩, .poll .a ⟨10⟩, .timer .a ⟨4000000⟩,
    .poll .a ⟨4000000⟩, .deliver .b 4 ⟨4000010⟩ false, .deliver .b 3 ⟨4000020⟩ false]

example : ¬ Run.Along step DropsOnlyOld (init : Clocked Reno) overtaken := by decide +kernel

end Clocked

end Ferrumnet
