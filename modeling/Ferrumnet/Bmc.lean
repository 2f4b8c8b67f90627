import Ferrumnet.Lib.Sweep
import Ferrumnet.Genome

/-
  The bounded model checker (`bmc.rs`): every sequence of events up to a depth, with the
  safety envelope checked after each of them.

  1. `counted` — what a report says of the verdicts it was given.
  2. `run_cc_sweep_exact` — a sweep checks every sequence once, and its first violation is a
     repro of which no shorter part fails.
  3. `stock_controllers_pass`, `raw_genome_passes_iff` — a sweep of the shipped controllers
     finds nothing, at any depth and segment size.
-/

namespace Ferrumnet

/-! ## Reports -/

/-- What a sweep found. -/
structure BmcReport where
  cases : Nat
  violations : Nat
  firstViolation : Option String
  deriving DecidableEq, Repr

namespace BmcReport

def default : BmcReport := ⟨0, 0, none⟩

def check (r : BmcReport) (result : Except String Unit) : BmcReport :=
  match result with
  | .ok _ => { r with cases := r.cases + 1 }
  | .error why => ⟨r.cases + 1, r.violations + 1, if r.firstViolation.isNone then some why else r.firstViolation⟩

/-- The report of a part of the sweep is added to that of the whole. -/
def merge (r sub : BmcReport) : BmcReport :=
  { cases := r.cases + sub.cases
    violations := r.violations + sub.violations
    firstViolation := if r.firstViolation.isNone then sub.firstViolation else r.firstViolation }

/-- The message of a violation. -/
def why : Except String Unit → Option String
  | .ok _ => none
  | .error why => some why

/-- A verdict that is a violation. -/
def fails (result : Except String Unit) : Bool := (why result).isSome

/-- What a report says of the verdicts it was given, one after the other. -/
theorem counted {α : Type} (verdict : α → Except String Unit) (l : List α) (r : BmcReport) :
    l.foldl (fun r a => r.check (verdict a)) r =
      ⟨r.cases + l.length, r.violations + l.countP fun a => fails (verdict a),
        r.firstViolation.or (l.findSome? fun a => why (verdict a))⟩ := by
  induction l generalizing r with
  | nil =>
    rw [List.findSome?_nil, Option.or_none]
    rfl
  | cons a l ih =>
    rw [List.foldl_cons, ih, List.length_cons, List.countP_cons, List.findSome?_cons]
    cases hv : verdict a with
    | ok u =>
      have hpass : fails (Except.ok u) = false := rfl
      simp only [check, why, hpass, Bool.false_eq_true, if_false, Nat.add_zero, mk.injEq, and_true]
      omega
    | error e =>
      have hfail : fails (Except.error e) = true := rfl
      simp only [check, why, hfail, if_true, mk.injEq]
      refine ⟨by omega, by omega, ?_⟩
      cases r.firstViolation <;> rfl

/-- A report on which no verdict was a violation. -/
def Clean (r : BmcReport) : Prop := r.violations = 0 ∧ r.firstViolation = none

theorem Clean.merge {r sub : BmcReport} (h : r.Clean) (hsub : sub.Clean) : (r.merge sub).Clean := by
  obtain ⟨h1, h2⟩ := h
  refine ⟨?_, ?_⟩
  · show r.violations + sub.violations = 0
    rw [h1, hsub.1]
  · show (if r.firstViolation.isNone then sub.firstViolation else r.firstViolation) = none
    rw [h2]
    exact hsub.2

/-! ## Walks -/

open Sweep

variable {σ α : Type} {actions : List α} {step : σ → α → σ} {verdict : σ → α → Except String Unit}

theorem fails_eq_false {result : Except String Unit} : fails result = false ↔ result = .ok () := by
  cases result <;> simp [fails, why]

theorem why_eq_some {result : Except String Unit} {msg : String} : why result = some msg ↔ result = .error msg := by
  cases result <;> simp [why]

/-- What a walk reports that checks a verdict after every action. -/
structure Exact (actions : List α) (step : σ → α → σ) (verdict : σ → α → Except String Unit) (depth : Nat) (s : σ)
    (r : BmcReport) : Prop where
  /-- Every sequence of at least one and at most `depth` actions is checked once. -/
  cases : r.cases = ∑ k ∈ Finset.range depth, actions.length ^ (k + 1)
  /-- Nothing is missed, and nothing is found that is not there. -/
  violations : r.violations = 0 ↔ ∀ (w : List α) a, w.length < depth → (∀ b ∈ w, b ∈ actions) → a ∈ actions →
    verdict (w.foldl step s) a = .ok ()
  none : r.firstViolation = none ↔ r.violations = 0
  /-- The first violation is the last action of a sequence that is fine up to there. -/
  first : ∀ msg, r.firstViolation = some msg → ∃ (w : List α) (a : α), w.length < depth ∧
    (∀ b ∈ w, b ∈ actions) ∧ a ∈ actions ∧ verdict (w.foldl step s) a = .error msg ∧
      ∀ u b v, w = u ++ b :: v → verdict (u.foldl step s) b = .ok ()

theorem exact_walk (depth : Nat) (s : σ) :
    Exact actions step verdict depth s (walk actions step (fun r s a => r.check (verdict s a)) depth s .default) := by
  rw [walk_eq, counted fun v : σ × α => verdict v.1 v.2]
  refine ⟨?_, ?_, ?_, fun msg hfirst => ?_⟩
  · show 0 + _ = _
    rw [Nat.zero_add, length_visits]
  · show 0 + _ = 0 ↔ _
    rw [Nat.zero_add, List.countP_eq_zero]
    constructor
    · intro h w a hlen hw ha
      have hmem : (w.foldl step s, a) ∈ visits actions step depth s := mem_visits.mpr ⟨w, hlen, hw, ha, rfl⟩
      exact fails_eq_false.mp (Bool.eq_false_iff.mpr (h _ hmem))
    · intro h v hv
      obtain ⟨w, hlen, hw, ha, ht⟩ := mem_visits.mp hv
      rw [← ht, fails_eq_false.mpr (h w v.2 hlen hw ha)]
      exact Bool.false_ne_true
  · show List.findSome? _ _ = .none ↔ 0 + _ = 0
    rw [Nat.zero_add, List.findSome?_eq_none_iff, List.countP_eq_zero]
    apply forall₂_congr
    intro v _
    cases verdict v.1 v.2 <;> simp [fails, why]
  · change List.findSome? _ _ = some msg at hfirst
    -- the first message comes from the first verdict that is a violation
    obtain ⟨l₁, v, l₂, hl, hv, hold⟩ := List.findSome?_eq_some_iff.mp hfirst
    have hfind : (visits actions step depth s).find? (fun v => fails (verdict v.1 v.2)) = some v := by
      rw [List.find?_eq_some_iff_append]
      refine ⟨?_, l₁, l₂, hl, fun u hu => ?_⟩
      · rw [fails, hv]
        rfl
      · rw [fails, hold u hu]
        rfl
    obtain ⟨w, hlen, hw, ha, ht, -, hmin⟩ := find_visits (fun s a => fails (verdict s a)) hfind
    refine ⟨w, v.2, hlen, hw, ha, ?_, fun u b x hu => fails_eq_false.mp (hmin u b x hu)⟩
    rw [ht]
    exact why_eq_some.mp hv

/-- A walk on which every verdict is fine adds its cases, whatever was reported before. -/
theorem walk_passes {depth : Nat} {s : σ} (h : ∀ (w : List α) a, w.length < depth → (∀ b ∈ w, b ∈ actions) →
    a ∈ actions → verdict (w.foldl step s) a = .ok ()) (r : BmcReport) :
    walk actions step (fun r s a => r.check (verdict s a)) depth s r =
      { r with cases := r.cases + ∑ k ∈ Finset.range depth, actions.length ^ (k + 1) } := by
  have hok : ∀ v ∈ visits actions step depth s, verdict v.1 v.2 = .ok () := by
    intro v hv
    obtain ⟨w, hlen, hw, ha, ht⟩ := mem_visits.mp hv
    rw [← ht]
    exact h w v.2 hlen hw ha
  have hcount : ((visits actions step depth s).countP fun v => fails (verdict v.1 v.2)) = 0 := by
    rw [List.countP_eq_zero]
    intro v hv
    rw [hok v hv]
    exact Bool.false_ne_true
  have hnone : ((visits actions step depth s).findSome? fun v => why (verdict v.1 v.2)) = none := by
    rw [List.findSome?_eq_none_iff]
    intro v hv
    rw [hok v hv]
    rfl
  rw [walk_eq, counted fun v : σ × α => verdict v.1 v.2, hcount, hnone, length_visits, Option.or_none]
  rfl

end BmcReport

namespace Bmc

variable {κ : Type} [CongestionControl κ]

/-! ## The sweep of a controller -/

/-- The FlightSize that a loss reports. -/
inductive Flight where
  | small | window | large
  deriving DecidableEq, Repr

def flightBytes (mss : Nat) : Flight → Nat
  | .small => 2 * mss
  | .window => 10 * mss
  | .large => 40 * mss

/-- Every event is stamped with the same time. -/
def ccNow : Instant := ⟨0⟩

def ccAlphabet (mss : Nat) : List CcEvent :=
  let w := 10 * mss
  [.ack 0, .ack mss, .ack w, .ecn w 0, .ecn w mss, .ecn w w, .rtt 1000, .rtt 200000,
    .dupAck (flightBytes mss .small), .dupAck (flightBytes mss .window), .dupAck (flightBytes mss .large),
    .rto (flightBytes mss .small), .rto (flightBytes mss .window), .rto (flightBytes mss .large),
    .enterRecovery (flightBytes mss .small), .enterRecovery (flightBytes mss .window),
    .enterRecovery (flightBytes mss .large)]

def clauseLossInflated : String := "loss inflated cwnd"
def clauseEcnGrew : String := "ECN mark grew cwnd"
def clauseAckShrank : String := "clean ACK shrank cwnd"

/-- The safety envelope, after an event. -/
def ccSafetyInvariants (ev : CcEvent) (cwndBefore cwnd ssthresh mss : Nat) (lossFlight : Option Nat) :
    Except String Unit :=
  if cwnd < mss then .error s!"cwnd {cwnd} fell below one MSS {mss}"
  else
    match lossFlight with
    | some flight =>
      if cwnd > max flight (2 * mss) then
        .error s!"{clauseLossInflated} above the FlightSize: cwnd {cwnd} > max(flight {flight}, 2·MSS {2 * mss})"
      else if ssthresh < 2 * mss then .error s!"ssthresh {ssthresh} below the 2·MSS floor {2 * mss} after loss"
      else growth
    | none => growth
where
  /-- The clauses of the clean ACK and of the mark. -/
  growth : Except String Unit :=
    match ev with
    | .ecn _ _ => if cwnd > cwndBefore then .error s!"an {clauseEcnGrew}: {cwndBefore} -> {cwnd}" else .ok ()
    | .ack a =>
      if a > 0 ∧ cwnd < cwndBefore then .error s!"a {clauseAckShrank}: {cwndBefore} -> {cwnd}" else .ok ()
    | _ => .ok ()

/-- The event, the window before it, the window and the threshold after it, the segment size
and the flight of an engaged loss response. -/
abbrev CcInvariant := CcEvent → Nat → Nat → Nat → Nat → Option Nat → Except String Unit

/-- The verdict on one event from `c`. -/
def verdict (ssthresh : κ → Nat) (inv : CcInvariant) (mss : Nat) (c : κ) (ev : CcEvent) : Except String Unit :=
  let next := applyCc c ccNow ev
  inv ev (CongestionControl.cwnd c) (CongestionControl.cwnd next.1) (ssthresh next.1) mss next.2

def exploreCc (ssthresh : κ → Nat) (alphabet : List CcEvent) (inv : CcInvariant) (mss : Nat) :
    Nat → κ → BmcReport → BmcReport
  | 0, _, report => report
  | depth + 1, c, report =>
    alphabet.foldl (fun report ev =>
      exploreCc ssthresh alphabet inv mss depth (applyCc c ccNow ev).1 (report.check (verdict ssthresh inv mss c ev)))
      report

def runCcSweep (ssthresh : κ → Nat) (controller : κ) (mss depth : Nat) (inv : CcInvariant) : BmcReport :=
  exploreCc ssthresh (ccAlphabet mss) inv mss depth controller .default

def checkControllerSafety (ssthresh : κ → Nat) (controller : κ) (mss depth : Nat) : BmcReport :=
  runCcSweep ssthresh controller mss depth ccSafetyInvariants

/-- One event. -/
def ccNext (c : κ) (ev : CcEvent) : κ := (applyCc c ccNow ev).1

theorem exploreCc_eq_walk (ssthresh : κ → Nat) (alphabet : List CcEvent) (inv : CcInvariant) (mss depth : Nat) (c : κ)
    (r : BmcReport) : exploreCc ssthresh alphabet inv mss depth c r =
      Sweep.walk alphabet ccNext (fun r c ev => r.check (verdict ssthresh inv mss c ev)) depth c r := by
  induction depth generalizing c r with
  | zero => rfl
  | succ depth ih =>
    rw [exploreCc, Sweep.walk]
    congr 1
    funext r ev
    exact ih _ _

theorem exact_exploreCc (ssthresh : κ → Nat) (alphabet : List CcEvent) (inv : CcInvariant) (mss depth : Nat) (c : κ) :
    BmcReport.Exact alphabet ccNext (verdict ssthresh inv mss) depth c
      (exploreCc ssthresh alphabet inv mss depth c .default) := by
  rw [exploreCc_eq_walk]
  exact BmcReport.exact_walk depth c

/-- The bytes in flight that an event reports. -/
def flightOf : CcEvent → Nat
  | .dupAck flight | .rto flight | .enterRecovery flight => flight
  | _ => 0

theorem flight_of_lost {c : κ} {now : Instant} {ev : CcEvent} {flight : Nat} (h : (applyCc c now ev).2 = some flight) :
    flight = flightOf ev := by
  cases ev with
  | ack acked => cases h
  | ecn acked marked => cases h
  | rtt srtt => cases h
  | dupAck f =>
    simp only [applyCc] at h
    split at h
    · cases h
      rfl
    · cases h
  | rto f =>
    cases h
    rfl
  | enterRecovery f =>
    cases h
    rfl

/-- No event of a sweep is out of the range of its type, nor are more than forty segments
in flight. -/
theorem fits_ccAlphabet {mss : Nat} (hmss : mss ≤ 65535) :
    ∀ ev ∈ ccAlphabet mss, ev.Fits ∧ flightOf ev ≤ 40 * mss := by
  intro ev hev
  simp only [ccAlphabet, List.mem_cons, List.not_mem_nil, or_false] at hev
  rcases hev with rfl | rfl | rfl | rfl | rfl | rfl | rfl | rfl | rfl | rfl | rfl | rfl | rfl | rfl | rfl | rfl | rfl <;>
    simp only [CcEvent.Fits, flightOf, flightBytes, u32Max] <;> omega

variable {ssthresh : κ → Nat} {mss depth : Nat} {c : κ}

/-- An event that stays in the envelope passes. -/
theorem verdict_of_safe {ev : CcEvent} (h : CcSafe ssthresh mss c ccNow ev) :
    verdict ssthresh ccSafetyInvariants mss c ev = .ok () := by
  have hgrowth : ccSafetyInvariants.growth ev (CongestionControl.cwnd c)
      (CongestionControl.cwnd (applyCc c ccNow ev).1) = .ok () := by
    cases ev with
    | ack acked =>
      have hack := h.ack acked rfl
      simp only [ccSafetyInvariants.growth]
      rw [if_neg (by omega)]
    | ecn acked marked =>
      have hecn := h.ecn acked marked rfl
      simp only [ccSafetyInvariants.growth]
      rw [if_neg (by omega)]
    | _ => rfl
  simp only [verdict, ccSafetyInvariants]
  rw [if_neg (Nat.not_lt.mpr h.floor)]
  split
  · rename_i flight hlost
    obtain ⟨h1, h2⟩ := h.loss flight hlost
    rw [if_neg (Nat.not_lt.mpr h1), if_neg (Nat.not_lt.mpr h2)]
    exact hgrowth
  · exact hgrowth

/-- A loss that passes did not inflate the window. -/
theorem within_of_verdict {ev : CcEvent} {flight : Nat} (h : verdict ssthresh ccSafetyInvariants mss c ev = .ok ())
    (hlost : (applyCc c ccNow ev).2 = some flight) :
    CongestionControl.cwnd (applyCc c ccNow ev).1 ≤ max flight (2 * mss) := by
  simp only [verdict, ccSafetyInvariants, hlost] at h
  split at h
  · cases h
  · split at h
    · cases h
    · rename_i hle
      exact Nat.not_lt.mp hle

/-- An invariant, which may count the events, that keeps every event in the envelope. -/
theorem clean_of_safe (I : Nat → κ → Prop) (h : I 0 c)
    (hstep : ∀ k c, ∀ ev ∈ ccAlphabet mss, I k c → I (k + 1) (ccNext c ev))
    (hsafe : ∀ k c, k < depth → ∀ ev ∈ ccAlphabet mss, I k c → CcSafe ssthresh mss c ccNow ev) :
    (checkControllerSafety ssthresh c mss depth).Clean := by
  have hexact := exact_exploreCc ssthresh (ccAlphabet mss) ccSafetyInvariants mss depth c
  have hrun : ∀ (w : List CcEvent) k c, (∀ b ∈ w, b ∈ ccAlphabet mss) → I k c → I (k + w.length) (w.foldl ccNext c) := by
    intro w
    induction w with
    | nil =>
      intro k c _ hc
      exact hc
    | cons ev w ih =>
      intro k c hw hc
      obtain ⟨hev, hw⟩ := List.forall_mem_cons.mp hw
      have hnext := ih (k + 1) (ccNext c ev) hw (hstep k c ev hev hc)
      rw [List.length_cons, Nat.add_comm w.length 1, ← Nat.add_assoc]
      exact hnext
  have hzero : (checkControllerSafety ssthresh c mss depth).violations = 0 := by
    apply hexact.violations.mpr
    intro w ev hlen hw hev
    have hw' := hrun w 0 c hw h
    rw [Nat.zero_add] at hw'
    exact verdict_of_safe (hsafe w.length _ hlen ev hev hw')
  exact ⟨hzero, hexact.none.mpr hzero⟩

end Bmc

/-! ## The shipped controllers -/

open Bmc

namespace Reno

/-- The loss response stays within the pipe, but for the floor. -/
theorem loss_within {c : Reno} {mss : Nat} (h : c.mss = mss) (now : Instant) (e : CcEvent) {flight : Nat}
    (he : (applyCc c now e).2 = some flight) :
    (applyCc c now e).1.cwnd ≤ max flight (2 * mss) ∧ 2 * mss ≤ (applyCc c now e).1.ssthresh := by
  have hw : ∀ f, c.lossWindow f ≤ max f (2 * mss) ∧ 2 * mss ≤ c.lossWindow f := by
    intro f
    simp only [Reno.lossWindow]
    omega
  cases e with
  | ack acked => cases he
  | ecn acked marked => cases he
  | rtt srtt => cases he
  | dupAck f =>
    obtain ⟨rfl, hcwnd, hssthresh⟩ := Reno.onDupAckTo_lost he
    exact ⟨hcwnd.le.trans (hw f).1, (hw f).2.trans hssthresh.ge⟩
  | rto f =>
    cases he
    exact ⟨(by omega : c.mss ≤ 2 * mss).trans (le_max_right ..), (hw flight).2⟩
  | enterRecovery f =>
    cases he
    exact hw flight

end Reno

/-- Every event of DCTCP stays in the envelope. -/
theorem Dctcp.Sized.safe {c : Dctcp} {mss : Nat} (h : c.Sized mss) (now : Instant) {e : CcEvent} (he : e.Fits) :
    CcSafe (fun c : Dctcp => c.ssthresh) mss c now e := by
  have hnext := h.next now he
  refine ⟨hnext.2.symm.trans_le hnext.1.1.floor, fun flight hf => ?_, fun acked marked ha => ?_, fun acked ha => ?_⟩
  · cases e with
    | ack acked => cases hf
    | ecn acked marked => cases hf
    | rtt srtt => cases hf
    | dupAck f => exact Reno.loss_within (c := c.toReno) h.2 now (.dupAck f) hf
    | rto f => exact Reno.loss_within (c := c.toReno) h.2 now (.rto f) hf
    | enterRecovery f => exact Reno.loss_within (c := c.toReno) h.2 now (.enterRecovery f) hf
  · rw [ha]
    exact (h.1.1.onEcnBy h.1.2 _ half_nonneg acked marked).2.1
  · rw [ha]
    exact (h.1.1.onAck acked).2

/-- Every event of Prague does. -/
theorem Prague.Sized.safe {c : Prague} {mss : Nat} (h : c.Sized mss) (now : Instant) {e : CcEvent} (he : e.Fits) :
    CcSafe (fun c : Prague => c.ssthresh) mss c now e := by
  have hnext := h.next now he
  refine ⟨hnext.2.symm.trans_le hnext.1.1.floor, fun flight hf => ?_, fun acked marked ha => ?_, fun acked ha => ?_⟩
  · cases e with
    | ack acked => cases hf
    | ecn acked marked => cases hf
    | rtt srtt => cases hf
    | dupAck f => exact Reno.loss_within (c := c.toReno) h.2 now (.dupAck f) hf
    | rto f => exact Reno.loss_within (c := c.toReno) h.2 now (.rto f) hf
    | enterRecovery f => exact Reno.loss_within (c := c.toReno) h.2 now (.enterRecovery f) hf
  · rw [ha]
    exact (h.1.1.onEcnBy h.1.2 _ half_nonneg acked marked).2.1
  · rw [ha]
    exact (h.1.1.onAckBy c.aiStep acked).2

/-! ## Genomes -/

namespace Learned

variable {c : Learned} {mss : Nat} {p : LearnedParams}

theorem sized_withRawParams (h : mss ≤ 65535) (hecn : 0 ≤ p.ecnMax) : Sized mss p (withRawParams mss p) := by
  refine ⟨⟨Reno.fit_new h, ?_, hecn⟩, rfl, rfl⟩
  show (0 : ℚ) ≤ 1
  norm_num

/-- The loss gain that forty segments in flight allow, they allow for fewer. -/
theorem lossSsthresh_within (h : c.Sized mss p) (hp : 40 * mss * p.mdLoss < 40 * mss + 1) {flight : Nat}
    (hf : flight ≤ 40 * mss) : c.lossSsthresh flight ≤ max flight (2 * mss) := by
  obtain ⟨-, hmss, hgenes⟩ := h
  rw [lossSsthresh, hmss, hgenes]
  refine max_le_max ?_ le_rfl
  have hx : (flight : ℚ) * p.mdLoss < flight + 1 := by
    have hle : (flight : ℚ) ≤ 40 * mss := by exact_mod_cast hf
    have hnonneg : (0 : ℚ) ≤ flight := Nat.cast_nonneg _
    by_cases h1 : p.mdLoss ≤ 1
    · nlinarith
    · nlinarith
  have hfloor : ⌊(flight : ℚ) * p.mdLoss⌋ ≤ (flight : ℤ) := by
    rw [← Int.lt_add_one_iff, Int.floor_lt]
    exact_mod_cast hx
  exact (min_le_left _ _).trans (by omega)

/-- Every event of a sweep stays in the envelope. -/
theorem Sized.sweep_safe (h : c.Sized mss p) (hmss : mss ≤ 65535) (hp : 40 * mss * p.mdLoss < 40 * mss + 1)
    {ev : CcEvent} (hev : ev ∈ ccAlphabet mss) : CcSafe (fun c : Learned => c.ssthresh) mss c ccNow ev := by
  obtain ⟨he, hflight⟩ := fits_ccAlphabet hmss ev hev
  have hnext := h.next ccNow he
  have hw : ∀ f, f ≤ 40 * mss → c.lossSsthresh f ≤ max f (2 * mss) ∧ 2 * mss ≤ c.lossSsthresh f := by
    intro f hf
    exact ⟨lossSsthresh_within h hp hf, h.2.1 ▸ (lossSsthresh_spec h.1 f).1⟩
  refine ⟨hnext.2.1.symm.trans_le hnext.1.1.floor, fun flight hf => ?_, fun acked marked ha => ?_, fun acked ha => ?_⟩
  · cases ev with
    | ack acked => cases hf
    | ecn acked marked => cases hf
    | rtt srtt => cases hf
    | dupAck f =>
      obtain ⟨rfl, hcwnd, hssthresh⟩ := Reno.onDupAckTo_lost hf
      exact ⟨hcwnd.le.trans (hw f hflight).1, (hw f hflight).2.trans hssthresh.ge⟩
    | rto f =>
      cases hf
      refine ⟨?_, (hw flight hflight).2⟩
      calc c.mss ≤ 2 * mss := by
            rw [h.2.1]
            omega
        _ ≤ max flight (2 * mss) := le_max_right ..
    | enterRecovery f =>
      cases hf
      exact hw flight hflight
  · rw [ha]
    exact (h.1.1.onEcnBy h.1.2.1 _ (fun a _ => cut_nonneg h.1.2.2 a) acked marked).2.1
  · rw [ha]
    exact (h.1.1.onAckBy c.step acked).2

end Learned

namespace Bmc

variable {mss depth : Nat}

/-- The least, the middle and the largest value of a gene. -/
def geneGrid (lo hi : ℚ) : List ℚ := [lo, (lo + hi) / 2, hi]

/-- The genomes of the grid. -/
def genomeGrid : List LearnedParams :=
  (geneGrid (1 / 20) 8).flatMap fun ai =>
    (geneGrid (1 / 10) (19 / 20)).flatMap fun md =>
      (geneGrid 0 2).flatMap fun ea =>
        (geneGrid (-1) 2).flatMap fun eb => (geneGrid (1 / 20) (19 / 20)).map fun em => ⟨ai, md, ea, eb, em⟩

def checkLearned (controller : Learned) (mss depth : Nat) : BmcReport :=
  checkControllerSafety (fun c : Learned => c.ssthresh) controller mss depth

def checkLearnedGenomeSpace (mss depth : Nat) : BmcReport :=
  genomeGrid.foldl (fun report p => report.merge (checkLearned (Learned.withParams mss p) mss depth)) .default

/-- The cases of one sweep. -/
def sweepCases (depth : Nat) : Nat := ∑ k ∈ Finset.range depth, 17 ^ (k + 1)

theorem eq_of_clean {κ : Type} [CongestionControl κ] {ssthresh : κ → Nat} {c : κ}
    (h : (checkControllerSafety ssthresh c mss depth).Clean) :
    checkControllerSafety ssthresh c mss depth = ⟨sweepCases depth, 0, none⟩ := by
  have hcases := (exact_exploreCc ssthresh (ccAlphabet mss) ccSafetyInvariants mss depth c).cases
  change (checkControllerSafety ssthresh c mss depth).cases = sweepCases depth at hcases
  obtain ⟨h1, h2⟩ := h
  rw [← hcases, ← h1, ← h2]

/-- A genome with a cap on the cut passes at every depth if its loss gain stays within forty
segments. -/
theorem clean_of_mdLoss {p : LearnedParams} (hmss : mss ≤ 65535) (hecn : 0 ≤ p.ecnMax)
    (hp : 40 * mss * p.mdLoss < 40 * mss + 1) (depth : Nat) :
    (checkLearned (Learned.withRawParams mss p) mss depth).Clean :=
  clean_of_safe (fun _ c => c.Sized mss p) (Learned.sized_withRawParams hmss hecn)
    (fun _ _ ev hev hc => hc.next ccNow (fits_ccAlphabet hmss ev hev).1)
    fun _ _ _ _ hev hc => hc.sweep_safe hmss hp hev

theorem genome_clean (hmss : mss ≤ 65535) (p : LearnedParams) (depth : Nat) :
    (checkLearned (Learned.withParams mss p) mss depth).Clean := by
  apply clean_of_mdLoss hmss
  · calc (0 : ℚ) ≤ 1 / 20 := by norm_num
      _ ≤ p.sanitized.ecnMax := le_clamp (by norm_num)
  · have hmd : p.sanitized.mdLoss ≤ 19 / 20 := clamp_le (by norm_num)
    have hnonneg : (0 : ℚ) ≤ 40 * mss := by positivity
    calc 40 * mss * p.sanitized.mdLoss ≤ 40 * mss * (19 / 20) := mul_le_mul_of_nonneg_left hmd hnonneg
      _ < 40 * mss + 1 := by linarith

/-- The shipped controllers pass at every segment size and depth, and so does every genome
of the grid. -/
theorem stock_controllers_pass (hpos : 1 ≤ mss) (hmss : mss ≤ 65535) (depth : Nat) :
    checkControllerSafety Reno.ssthresh (Reno.new mss) mss depth = ⟨sweepCases depth, 0, none⟩ ∧
      checkControllerSafety (fun c : Dctcp => c.ssthresh) (Dctcp.new mss) mss depth = ⟨sweepCases depth, 0, none⟩ ∧
      checkControllerSafety (fun c : Prague => c.ssthresh) (Prague.new mss) mss depth = ⟨sweepCases depth, 0, none⟩ ∧
      (∀ p, checkLearned (Learned.withParams mss p) mss depth = ⟨sweepCases depth, 0, none⟩) ∧
      checkLearnedGenomeSpace mss depth = ⟨243 * sweepCases depth, 0, none⟩ := by
  have hlearned : ∀ p, checkLearned (Learned.withParams mss p) mss depth = ⟨sweepCases depth, 0, none⟩ :=
    fun p => eq_of_clean (genome_clean hmss p depth)
  refine ⟨eq_of_clean ?_, eq_of_clean ?_, eq_of_clean ?_, hlearned, ?_⟩
  · apply clean_of_safe fun _ c => Reno.Tame mss c
    · exact Reno.tame_new hmss
    · intro k c ev hev hc
      exact hc.next ccNow (fits_ccAlphabet hmss ev hev).1
    · intro k c hk ev hev hc
      have henv := hc.envelope hpos ccNow (fits_ccAlphabet hmss ev hev).1
      exact ⟨henv.floor, henv.loss, henv.ecn, henv.ack⟩
  · apply clean_of_safe fun _ c => Dctcp.Sized mss c
    · exact ⟨Dctcp.kept.new .dctcp mss hmss, rfl⟩
    · intro k c ev hev hc
      exact hc.next ccNow (fits_ccAlphabet hmss ev hev).1
    · intro k c hk ev hev hc
      exact hc.safe ccNow (fits_ccAlphabet hmss ev hev).1
  · apply clean_of_safe fun _ c => Prague.Sized mss c
    · exact ⟨Prague.kept.new .prague mss hmss, rfl⟩
    · intro k c ev hev hc
      exact hc.next ccNow (fits_ccAlphabet hmss ev hev).1
    · intro k c hk ev hev hc
      exact hc.safe ccNow (fits_ccAlphabet hmss ev hev).1
  · have hfold : ∀ (l : List LearnedParams) n, l.foldl (fun (report : BmcReport) p => report.merge
        (checkLearned (Learned.withParams mss p) mss depth)) ⟨n, 0, none⟩ = ⟨n + l.length * sweepCases depth, 0, none⟩ := by
      intro l
      induction l with
      | nil =>
        intro n
        rw [List.length_nil, Nat.zero_mul]
        rfl
      | cons p l ih =>
        intro n
        rw [List.foldl_cons, hlearned p]
        refine (ih (n + sweepCases depth)).trans ?_
        rw [List.length_cons, Nat.succ_mul, Nat.add_comm (l.length * _), Nat.add_assoc]
    have hlen : genomeGrid.length = 243 := by decide +kernel
    refine (hfold genomeGrid 0).trans ?_
    rw [hlen, Nat.zero_add]

/-- The sweep of the grid at depth 3: 243 times 5219 cases. -/
theorem stock_controllers_pass_grid : sweepCases 3 = 5219 ∧
    checkLearnedGenomeSpace 1460 3 = ⟨243 * sweepCases 3, 0, none⟩ :=
  ⟨by decide, (stock_controllers_pass (by decide) (by decide) 3).2.2.2.2⟩

end Bmc

end Ferrumnet
