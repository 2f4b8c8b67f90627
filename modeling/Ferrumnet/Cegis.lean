import Ferrumnet.Aimd
import Ferrumnet.Bmc

/-
  Repair guided by the checker (`repair_to_safe` of `sim.rs`).

  The message of the first violation names the response that broke the envelope; it is
  repaired, and the program is checked again. A response that was repaired cannot be named
  again, so after three rounds there is nothing left to repair.

  1. `contains_loss`, `contains_ecn`, `contains_ack` — each message goes to its own repair.
  2. `Climbs.next` — a repaired increase does not climb over the cap within a sweep.
  3. `named` — what a violation names has not been repaired.
  4. `repair_to_safe_sound` — every program.
-/

namespace Ferrumnet

open Bmc

/-! ## Messages -/

/-- `str::contains`. -/
def contains (why tag : String) : Bool := decide (tag.toList <:+: why.toList)

/-- A letter of the tag that the text lacks. -/
theorem contains_eq_false {why tag : String} (c : Char) (h : c ∈ tag.toList) (h' : c ∉ why.toList) :
    contains why tag = false := by
  apply decide_eq_false
  intro hpart
  exact h' (hpart.subset h)

/-- A number has no letters. -/
theorem not_mem_repr {c : Char} (h : c.isDigit = false) (n : Nat) : c ∉ (toString n).toList := by
  intro hc
  have hdigits : (toString n).toList = Nat.toDigits 10 n := by simp [toString, Nat.repr]
  rw [hdigits] at hc
  rw [Nat.isDigit_of_mem_toDigits (by decide) (by decide) hc] at h
  cases h

section

variable (a b f m : Nat)

/-- The messages of the three clauses that a response can break. -/
def lossMessage : String :=
  s!"{clauseLossInflated} above the FlightSize: cwnd {a} > max(flight {f}, 2·MSS {m})"
def ecnMessage : String := s!"an {clauseEcnGrew}: {a} -> {b}"
def ackMessage : String := s!"a {clauseAckShrank}: {a} -> {b}"

theorem toList_lossMessage : (lossMessage a f m).toList = clauseLossInflated.toList ++
    (" above the FlightSize: cwnd ".toList ++ (toString a).toList ++ " > max(flight ".toList ++ (toString f).toList ++
      ", 2·MSS ".toList ++ (toString m).toList ++ ")".toList) := by
  have h : lossMessage a f m = clauseLossInflated ++ " above the FlightSize: cwnd " ++ toString a ++
      " > max(flight " ++ toString f ++ ", 2·MSS " ++ toString m ++ ")" := rfl
  rw [h]
  simp only [String.toList_append, List.append_assoc]

theorem toList_ecnMessage : (ecnMessage a b).toList = "an ".toList ++ clauseEcnGrew.toList ++
    (": ".toList ++ (toString a).toList ++ " -> ".toList ++ (toString b).toList) := by
  have h : ecnMessage a b = "an " ++ clauseEcnGrew ++ ": " ++ toString a ++ " -> " ++ toString b := rfl
  rw [h]
  simp only [String.toList_append, List.append_assoc]

theorem toList_ackMessage : (ackMessage a b).toList = "a ".toList ++ clauseAckShrank.toList ++
    (": ".toList ++ (toString a).toList ++ " -> ".toList ++ (toString b).toList) := by
  have h : ackMessage a b = "a " ++ clauseAckShrank ++ ": " ++ toString a ++ " -> " ++ toString b := rfl
  rw [h]
  simp only [String.toList_append, List.append_assoc]

/-- Each message has its own tag, and of the other tags none that is looked for before it. -/
theorem contains_lossMessage : contains (lossMessage a f m) clauseLossInflated = true := by
  apply decide_eq_true
  rw [toList_lossMessage]
  exact (List.prefix_append _ _).isInfix

theorem contains_ecnMessage : contains (ecnMessage a b) clauseLossInflated = false ∧
    contains (ecnMessage a b) clauseEcnGrew = true := by
  refine ⟨contains_eq_false 'l' (by decide) ?_, decide_eq_true ?_⟩
  · rw [toList_ecnMessage]
    simp only [List.mem_append, not_or]
    have hdigits := not_mem_repr (c := 'l') (by decide)
    exact ⟨by decide, ⟨⟨by decide, hdigits a⟩, by decide⟩, hdigits b⟩
  · rw [toList_ecnMessage]
    exact List.infix_append _ _ _

theorem contains_ackMessage : contains (ackMessage a b) clauseLossInflated = false ∧
    contains (ackMessage a b) clauseEcnGrew = false ∧ contains (ackMessage a b) clauseAckShrank = true := by
  refine ⟨contains_eq_false 'f' (by decide) ?_, contains_eq_false 'E' (by decide) ?_, decide_eq_true ?_⟩
  · rw [toList_ackMessage]
    simp only [List.mem_append, not_or]
    have hdigits := not_mem_repr (c := 'f') (by decide)
    exact ⟨by decide, ⟨⟨by decide, hdigits a⟩, by decide⟩, hdigits b⟩
  · rw [toList_ackMessage]
    simp only [List.mem_append, not_or]
    have hdigits := not_mem_repr (c := 'E') (by decide)
    exact ⟨by decide, ⟨⟨by decide, hdigits a⟩, by decide⟩, hdigits b⟩
  · rw [toList_ackMessage]
    exact List.infix_append _ _ _

end

/-! ## The loop -/

/-- The check of a program. -/
def checkProgram (prog : ControlProgram) (mss depth : Nat) : BmcReport :=
  checkControllerSafety (fun c : Synth => c.ssthresh) (Synth.withProgram mss prog) mss depth

/-- The repair of the response that the message names. -/
def repairFor (why : String) (prog : ControlProgram) : ControlProgram :=
  if contains why clauseLossInflated then prog.repairLoss
  else if contains why clauseEcnGrew then prog.repairEcn
  else if contains why clauseAckShrank then prog.repairIncrease
  else ControlProgram.aimd

def repairLoop (mss depth : Nat) : Nat → ControlProgram → Nat → ControlProgram × Nat
  | 0, _, repairs => (ControlProgram.aimd, repairs)
  | rounds + 1, prog, repairs =>
    let report := checkProgram prog mss depth
    if report.violations = 0 then (prog, repairs)
    else repairLoop mss depth rounds (repairFor (report.firstViolation.getD "") prog) (repairs + 1)

/-- The program inside the envelope, and the repairs that took it there. -/
def repairToSafe (prog : ControlProgram) (mss depth : Nat) : ControlProgram × Nat := repairLoop mss depth 4 prog 0

/-! ## Windows of a sweep -/

namespace Synth

variable {c : Synth} {mss k : Nat} {prog : ControlProgram}

/-- After `k` events the window is within the cap, and in slow start it has grown by a segment
for each of them at most. -/
def Climbs (mss k : Nat) (c : Synth) : Prop :=
  c.cwnd ≤ synthCwndCap ∧ (c.cwnd < c.ssthresh → c.cwnd ≤ (10 + k) * mss)

theorem climbs_new (hmss : mss ≤ 65535) (prog : ControlProgram) : Climbs mss 0 (withProgram mss prog) := by
  have hw : initialWindow mss ≤ 10 * mss := Nat.min_le_left ..
  refine ⟨?_, fun _ => hw⟩
  calc initialWindow mss ≤ 10 * mss := hw
    _ ≤ 1073741824 := by omega

/-- The prices of the loop stay within the cap. -/
theorem Sound.capped (h : Sound mss prog c) (hpos : 1 ≤ mss) (step : ℚ) : ∀ q, (0 < q ∧ q ≤ synthCwndCap) →
    0 < q ∧ 0 < synthToCwnd (q + step) c.mss ∧ synthToCwnd (q + step) c.mss ≤ synthCwndCap := by
  intro q hq
  have hsmall := h.small
  have hmss : 0 < c.mss := hpos.trans_eq h.size.symm
  exact ⟨hq.1, hmss.trans_le (floor_le_synthToCwnd (by omega)), synthToCwnd_le_cap (by omega)⟩

/-- A step that is not negative does not shrink a window within the cap. -/
theorem Sound.le_onAck (h : Sound mss prog c) (hpos : 1 ≤ mss) (hcap : c.cwnd ≤ synthCwndCap) {acked : Nat}
    (hstep : 0 ≤ synthEval c.prog.inc (c.signals c.cwnd acked)) : c.cwnd ≤ (c.onAck acked).cwnd := by
  by_cases hne : acked = 0
  · rw [hne]
    exact le_rfl
  · cases hslow : c.inSlowStart with
    | true =>
      rw [onAck_slow hne hslow]
      exact le_min (Nat.le_add_right ..) h.fit.range
    | false =>
      rw [onAck_avoid hne hslow]
      have hup : (0 : ℚ) ≤ synthEval c.prog.inc (c.signals c.cwnd acked) * c.mss :=
        mul_nonneg hstep (Nat.cast_nonneg _)
      have hP := h.capped hpos (synthEval c.prog.inc (c.signals c.cwnd acked) * c.mss)
      exact Credit.le_settle hP (fun q hq => le_synthToCwnd (by linarith) hq.2)
        ⟨min (c.caAcc + acked) u32Max, c.cwnd⟩ ⟨(hpos.trans_eq h.size.symm).trans h.fit.floor, hcap⟩

theorem Climbs.onAck (h : Climbs mss k c) (hs : Sound mss prog c) (hpos : 1 ≤ mss)
    (hk : (10 + (k + 1)) * mss ≤ synthCwndCap) {acked : Nat} (hup : c.cwnd ≤ (c.onAck acked).cwnd) :
    Climbs mss (k + 1) (c.onAck acked) := by
  have hgrow : (10 + k) * mss + mss = (10 + (k + 1)) * mss := by ring
  by_cases hne : acked = 0
  · rw [hne]
    exact ⟨h.1, fun hslow => (h.2 hslow).trans (by omega)⟩
  · cases hslow : c.inSlowStart with
    | true =>
      have hle := h.2 (of_decide_eq_true hslow)
      have hstep : min (c.cwnd + min acked c.mss) u32Max ≤ (10 + (k + 1)) * mss := by
        have := hs.size
        omega
      rw [onAck_slow hne hslow]
      exact ⟨hstep.trans hk, fun _ => hstep⟩
    | false =>
      have hss : (c.onAck acked).ssthresh = c.ssthresh := by
        rw [onAck_avoid hne hslow]
        rfl
      have hover : c.ssthresh ≤ c.cwnd := Nat.not_lt.mp (of_decide_eq_false hslow)
      refine ⟨?_, fun hlt => absurd (hss ▸ hlt) (Nat.not_lt.mpr (hover.trans hup))⟩
      rw [onAck_avoid hne hslow]
      have hP := hs.capped hpos (synthEval c.prog.inc (c.signals c.cwnd acked) * c.mss)
      exact (Credit.settle_price hP ⟨min (c.caAcc + acked) u32Max, c.cwnd⟩
        ⟨(hpos.trans_eq hs.size.symm).trans hs.fit.floor, h.1⟩).2

/-- A window that a response sets is the threshold too. -/
theorem climbs_of_set {d : Synth} (hcap : d.cwnd ≤ synthCwndCap) (hss : d.ssthresh = d.cwnd) : Climbs mss k d :=
  ⟨hcap, fun hlt => absurd (hss ▸ hlt) (Nat.lt_irrefl _)⟩

theorem Climbs.next (h : Climbs mss k c) (hs : Sound mss prog c) (hpos : 1 ≤ mss)
    (hup : ∀ acked, c.cwnd ≤ (c.onAck acked).cwnd) (hk : (10 + (k + 1)) * mss ≤ synthCwndCap) (now : Instant)
    (e : CcEvent) : Climbs mss (k + 1) (applyCc c now e).1 := by
  have hgrow : (10 + k) * mss + mss = (10 + (k + 1)) * mss := by ring
  have hkeep : ∀ d : Synth, d.cwnd = c.cwnd → d.ssthresh = c.ssthresh → Climbs mss (k + 1) d := by
    intro d hcwnd hss
    refine ⟨hcwnd.trans_le h.1, fun hlt => ?_⟩
    rw [hcwnd, hss] at hlt
    have := h.2 hlt
    omega
  cases e with
  | ack acked => exact h.onAck hs hpos hk (hup acked)
  | ecn acked marked =>
    show Climbs mss (k + 1) (c.onEcn acked marked)
    have hsmall := hs.small
    simp only [Synth.onEcn]
    split
    · exact hkeep _ rfl rfl
    · split
      · exact hkeep _ rfl rfl
      · split
        · exact climbs_of_set (synthToCwnd_le_cap (by omega)) rfl
        · exact hkeep _ rfl rfl
  | rtt srtt => exact hkeep _ rfl rfl
  | dupAck f =>
    have hcap := (hs.lossTarget f).2
    show Climbs mss (k + 1) { c with toReno := (c.toReno.onDupAckTo (c.lossTarget f)).1 }
    simp only [Reno.onDupAckTo]
    split
    · exact climbs_of_set hcap rfl
    · exact hkeep _ rfl rfl
  | rto f =>
    have hmss := hs.size
    have hle : c.mss ≤ (10 + (k + 1)) * mss := by
      rw [hmss]
      exact Nat.le_mul_of_pos_left mss (by omega)
    exact ⟨hle.trans hk, fun _ => hle⟩
  | enterRecovery f => exact climbs_of_set (hs.lossTarget f).2 rfl

/-- The threshold that a loss leaves, whatever the program. -/
theorem Sound.threshold (h : Sound mss prog c) {now : Instant} {e : CcEvent} {flight : Nat}
    (he : (applyCc c now e).2 = some flight) : 2 * mss ≤ (applyCc c now e).1.ssthresh := by
  have hw : ∀ f, 2 * mss ≤ c.lossTarget f := fun f => h.size ▸ (h.lossTarget f).1
  cases e with
  | ack acked => cases he
  | ecn acked marked => cases he
  | rtt srtt => cases he
  | dupAck f => exact (hw f).trans (Reno.onDupAckTo_lost he).2.2.ge
  | rto f => exact hw f
  | enterRecovery f => exact hw f

end Synth

/-! ## What a violation names -/

namespace Bmc

/-- A violation of the two clauses that no program breaks, or of one of the three that one may. -/
theorem verdict_error {c : Synth} {mss : Nat} {ev : CcEvent} {why : String}
    (h : verdict (fun c : Synth => c.ssthresh) ccSafetyInvariants mss c ev = .error why)
    (hfloor : mss ≤ (applyCc c ccNow ev).1.cwnd)
    (hss : ∀ flight, (applyCc c ccNow ev).2 = some flight → 2 * mss ≤ (applyCc c ccNow ev).1.ssthresh) :
    (∃ flight, (applyCc c ccNow ev).2 = some flight ∧ max flight (2 * mss) < (applyCc c ccNow ev).1.cwnd ∧
      why = lossMessage (applyCc c ccNow ev).1.cwnd flight (2 * mss)) ∨
    (∃ acked marked, ev = .ecn acked marked ∧ c.cwnd < (applyCc c ccNow ev).1.cwnd ∧
      why = ecnMessage c.cwnd (applyCc c ccNow ev).1.cwnd) ∨
    (∃ acked, ev = .ack acked ∧ (applyCc c ccNow ev).1.cwnd < c.cwnd ∧
      why = ackMessage c.cwnd (applyCc c ccNow ev).1.cwnd) := by
  have hgrowth : ccSafetyInvariants.growth ev c.cwnd (applyCc c ccNow ev).1.cwnd = .error why →
      (∃ acked marked, ev = .ecn acked marked ∧ c.cwnd < (applyCc c ccNow ev).1.cwnd ∧
        why = ecnMessage c.cwnd (applyCc c ccNow ev).1.cwnd) ∨
      (∃ acked, ev = .ack acked ∧ (applyCc c ccNow ev).1.cwnd < c.cwnd ∧
        why = ackMessage c.cwnd (applyCc c ccNow ev).1.cwnd) := by
    intro hg
    cases ev with
    | ack acked =>
      simp only [ccSafetyInvariants.growth] at hg
      split at hg
      · rename_i hlt
        cases hg
        exact .inr ⟨acked, rfl, hlt.2, rfl⟩
      · cases hg
    | ecn acked marked =>
      simp only [ccSafetyInvariants.growth] at hg
      split at hg
      · rename_i hlt
        cases hg
        exact .inl ⟨acked, marked, rfl, hlt, rfl⟩
      · cases hg
    | _ => cases hg
  have hcwnd : CongestionControl.cwnd (applyCc c ccNow ev).1 = (applyCc c ccNow ev).1.cwnd := rfl
  have hbefore : CongestionControl.cwnd c = c.cwnd := rfl
  simp only [verdict, ccSafetyInvariants, hcwnd, hbefore] at h
  rw [if_neg (Nat.not_lt.mpr hfloor)] at h
  split at h
  · rename_i flight hlost
    split at h
    · rename_i hlt
      cases h
      exact .inl ⟨flight, hlost, hlt, rfl⟩
    · rw [if_neg (Nat.not_lt.mpr (hss flight hlost))] at h
      exact .inr (hgrowth h)
  · exact .inr (hgrowth h)

end Bmc

/-- The program with some of its responses repaired. -/
def ControlProgram.repaired (p : ControlProgram) (md inc ecn : Bool) : ControlProgram :=
  { inc := if inc then p.repairIncrease.inc else p.inc
    md := if md then p.repairLoss.md else p.md
    ecn := if ecn then p.repairEcn.ecn else p.ecn }

section

variable {p : ControlProgram} {mss depth : Nat} {md inc ecn : Bool}

/-- The states of a sweep. -/
theorem sweep_state (hpos : 1 ≤ mss) (hmss : mss ≤ 65535) (hsmall : (10 + depth) * mss ≤ synthCwndCap)
    (prog : ControlProgram) (w : List CcEvent) (hw : w.length ≤ depth) :
    Synth.Sound mss prog (w.foldl ccNext (Synth.withProgram mss prog)) ∧
      (∀ q : ControlProgram, prog.inc = q.repairIncrease.inc →
        Synth.Climbs mss w.length (w.foldl ccNext (Synth.withProgram mss prog))) := by
  induction w using List.reverseRecOn with
  | nil => exact ⟨Synth.sound_new hmss prog, fun q _ => Synth.climbs_new hmss prog⟩
  | append_singleton w ev ih =>
    rw [List.length_append, List.length_singleton] at hw ⊢
    obtain ⟨hs, hclimbs⟩ := ih (by omega)
    rw [List.foldl_append]
    refine ⟨hs.next hpos ccNow ev, fun q hq => ?_⟩
    have hcap := (hclimbs q hq).1
    refine (hclimbs q hq).next hs hpos (fun acked => hs.ack hpos hq hcap acked) ?_ ccNow ev
    exact (Nat.mul_le_mul_right mss (by omega)).trans hsmall

/-- The first violation names a response that has not been repaired, and its repair is made. -/
theorem named (hpos : 1 ≤ mss) (hmss : mss ≤ 65535) (hsmall : (10 + depth) * mss ≤ synthCwndCap)
    (h : (checkProgram (p.repaired md inc ecn) mss depth).violations ≠ 0) :
    (md = false ∧ repairFor ((checkProgram (p.repaired md inc ecn) mss depth).firstViolation.getD "")
        (p.repaired md inc ecn) = p.repaired true inc ecn) ∨
    (ecn = false ∧ repairFor ((checkProgram (p.repaired md inc ecn) mss depth).firstViolation.getD "")
        (p.repaired md inc ecn) = p.repaired md inc true) ∨
    (inc = false ∧ repairFor ((checkProgram (p.repaired md inc ecn) mss depth).firstViolation.getD "")
        (p.repaired md inc ecn) = p.repaired md true ecn) := by
  have hexact := exact_exploreCc (fun c : Synth => c.ssthresh) (ccAlphabet mss) ccSafetyInvariants mss depth
    (Synth.withProgram mss (p.repaired md inc ecn))
  have hsome : (checkProgram (p.repaired md inc ecn) mss depth).firstViolation ≠ none :=
    fun hnone => h (hexact.none.mp hnone)
  obtain ⟨why, hwhy⟩ := Option.ne_none_iff_exists'.mp hsome
  rw [hwhy, Option.getD_some]
  obtain ⟨w, ev, hlen, -, -, hbad, -⟩ := hexact.first why hwhy
  obtain ⟨hs, hclimbs⟩ := sweep_state hpos hmss hsmall (p.repaired md inc ecn) w hlen.le
  generalize w.foldl ccNext (Synth.withProgram mss (p.repaired md inc ecn)) = c at hbad hs hclimbs
  have hnext := hs.next hpos ccNow ev
  obtain ⟨flight, hlost, hlt, rfl⟩ | ⟨acked, marked, rfl, hlt, rfl⟩ | ⟨acked, rfl, hlt, rfl⟩ :=
    verdict_error hbad (hnext.size.symm.trans_le hnext.fit.floor) fun flight hlost => hs.threshold hlost
  · refine .inl ?_
    cases md with
    | true => exact absurd (hs.loss hpos (p := p) rfl hlost).1 (Nat.not_le.mpr hlt)
    | false =>
      rw [repairFor, contains_lossMessage, if_pos rfl]
      exact ⟨rfl, rfl⟩
  · refine .inr (.inl ?_)
    obtain ⟨h1, h2⟩ := contains_ecnMessage c.cwnd (applyCc c ccNow (.ecn acked marked)).1.cwnd
    cases ecn with
    | true => exact absurd (hs.ecn rfl acked marked) (Nat.not_le.mpr hlt)
    | false =>
      rw [repairFor, h1, h2, if_neg Bool.false_ne_true, if_pos rfl]
      exact ⟨rfl, rfl⟩
  · refine .inr (.inr ?_)
    obtain ⟨h1, h2, h3⟩ := contains_ackMessage c.cwnd (applyCc c ccNow (.ack acked)).1.cwnd
    cases inc with
    | true => exact absurd (hs.ack hpos (p := p) rfl (hclimbs p rfl).1 acked) (Nat.not_le.mpr hlt)
    | false =>
      rw [repairFor, h1, h2, h3, if_neg Bool.false_ne_true, if_neg Bool.false_ne_true, if_pos rfl]
      exact ⟨rfl, rfl⟩

/-- With a round for every response that is left and one to spare, the loop ends with a program
that passes. -/
theorem loop_sound (hpos : 1 ≤ mss) (hmss : mss ≤ 65535) (hsmall : (10 + depth) * mss ≤ synthCwndCap) (rounds : Nat) :
    ∀ md inc ecn : Bool, 3 < rounds + (md.toNat + inc.toNat + ecn.toNat) → ∃ md' inc' ecn' : Bool,
      repairLoop mss depth rounds (p.repaired md inc ecn) (md.toNat + inc.toNat + ecn.toNat) =
        (p.repaired md' inc' ecn', md'.toNat + inc'.toNat + ecn'.toNat) ∧
      (checkProgram (p.repaired md' inc' ecn') mss depth).violations = 0 := by
  induction rounds with
  | zero =>
    intro md inc ecn h
    have h1 := md.toNat_le
    have h2 := inc.toNat_le
    have h3 := ecn.toNat_le
    omega
  | succ rounds ih =>
    intro md inc ecn h
    rw [repairLoop]
    by_cases hclean : (checkProgram (p.repaired md inc ecn) mss depth).violations = 0
    · rw [if_pos hclean]
      exact ⟨md, inc, ecn, rfl, hclean⟩
    · rw [if_neg hclean]
      obtain ⟨rfl, hfix⟩ | ⟨rfl, hfix⟩ | ⟨rfl, hfix⟩ := named hpos hmss hsmall hclean
      all_goals
        simp only [Bool.toNat_false] at h ⊢
        rw [hfix]
      · have hnext := ih true inc ecn (by simp only [Bool.toNat_true]; omega)
        have hcount : 0 + inc.toNat + ecn.toNat + 1 = true.toNat + inc.toNat + ecn.toNat := by
          simp only [Bool.toNat_true]
          omega
        rw [hcount]
        exact hnext
      · have hnext := ih md inc true (by simp only [Bool.toNat_true]; omega)
        exact hnext
      · have hnext := ih md true ecn (by simp only [Bool.toNat_true]; omega)
        have hcount : md.toNat + 0 + ecn.toNat + 1 = md.toNat + true.toNat + ecn.toNat := by
          simp only [Bool.toNat_true]
          omega
        rw [hcount]
        exact hnext

/-- The program that the loop would fall back on passes. -/
theorem aimd_clean (hpos : 1 ≤ mss) (hmss : mss ≤ 65535) (hsmall : (10 + depth) * mss ≤ synthCwndCap) :
    (checkProgram ControlProgram.aimd mss depth).Clean := by
  have hup : ∀ {k} {c : Synth}, Synth.Sound mss ControlProgram.aimd c → Synth.Climbs mss k c →
      ∀ acked, c.cwnd ≤ (c.onAck acked).cwnd := by
    intro k c hs hclimbs acked
    apply hs.le_onAck hpos hclimbs.1
    rw [Synth.inc_aimd hs.prog]
    exact zero_le_one
  apply clean_of_safe fun k c => k ≤ depth → Synth.Sound mss ControlProgram.aimd c ∧ Synth.Climbs mss k c
  · intro _
    exact ⟨Synth.sound_new hmss _, Synth.climbs_new hmss _⟩
  · intro k c ev hev hc hk
    obtain ⟨hs, hclimbs⟩ := hc (by omega)
    have hle : (10 + (k + 1)) * mss ≤ synthCwndCap := (Nat.mul_le_mul_right mss (by omega)).trans hsmall
    exact ⟨hs.next hpos ccNow ev, hclimbs.next hs hpos (hup hs hclimbs) hle ccNow ev⟩
  · intro k c hk ev hev hc
    obtain ⟨hs, hclimbs⟩ := hc hk.le
    obtain ⟨-, hflight⟩ := fits_ccAlphabet hmss ev hev
    have hnext := hs.next hpos ccNow ev
    refine ⟨hnext.size.symm.trans_le hnext.fit.floor, fun flight hlost => ?_, fun acked marked he => ?_, fun acked he => ?_⟩
    · refine ⟨?_, hs.threshold hlost⟩
      have hf : flight < 536870912 := by
        rw [flight_of_lost hlost]
        omega
      have hw : ∀ f, f < 536870912 → c.lossTarget f ≤ max f (2 * mss) := by
        intro f hf
        rw [Synth.lossTarget_aimd hs.prog (hpos.trans_eq hs.size.symm) hf, Reno.lossWindow, hs.size]
        omega
      cases ev with
      | ack acked => cases hlost
      | ecn acked marked => cases hlost
      | rtt srtt => cases hlost
      | dupAck f =>
        obtain ⟨rfl, hcwnd, -⟩ := Reno.onDupAckTo_lost hlost
        exact hcwnd.le.trans (hw f hf)
      | rto f =>
        cases hlost
        have hsize := hs.size
        exact (by omega : c.mss ≤ 2 * mss).trans (le_max_right ..)
      | enterRecovery f =>
        cases hlost
        exact hw flight hf
    · rw [he]
      exact hs.ecn rfl acked marked
    · rw [he]
      exact hup hs hclimbs acked

/-- Whatever the program: after at most three repairs, each of another response, it passes the
check, and what was not repaired is as it was. A program that passes is left alone. (A sweep
whose cases fit their counter has a depth of 15 at most.) -/
theorem repair_to_safe_sound (p : ControlProgram) (hpos : 1 ≤ mss) (hmss : mss ≤ 65535)
    (hsmall : (10 + depth) * mss ≤ synthCwndCap) : ∃ md inc ecn : Bool,
    repairToSafe p mss depth = (p.repaired md inc ecn, md.toNat + inc.toNat + ecn.toNat) ∧
      checkProgram (p.repaired md inc ecn) mss depth = ⟨sweepCases depth, 0, none⟩ ∧
      ((checkProgram p mss depth).violations = 0 ↔ md.toNat + inc.toNat + ecn.toNat = 0) := by
  have hnone : p.repaired false false false = p := rfl
  obtain ⟨md, inc, ecn, hloop, hzero⟩ := loop_sound (p := p) hpos hmss hsmall 4 false false false (by decide)
  have hexact := exact_exploreCc (fun c : Synth => c.ssthresh) (ccAlphabet mss) ccSafetyInvariants mss depth
    (Synth.withProgram mss (p.repaired md inc ecn))
  have hclean : (checkProgram (p.repaired md inc ecn) mss depth).Clean := ⟨hzero, hexact.none.mpr hzero⟩
  refine ⟨md, inc, ecn, hloop, eq_of_clean hclean, fun h => ?_, fun h => ?_⟩
  · rw [hnone, repairLoop, if_pos h] at hloop
    exact (congrArg Prod.snd hloop).symm
  · have h1 : md = false := Bool.toNat_eq_zero.mp (by omega)
    have h2 : inc = false := Bool.toNat_eq_zero.mp (by omega)
    have h3 : ecn = false := Bool.toNat_eq_zero.mp (by omega)
    rw [h1, h2, h3] at hzero
    exact hzero

/-- The loss response of twice the flight. -/
theorem repair_to_safe_sound_doubling : ∃ md inc ecn : Bool,
    repairToSafe Synth.doubling 1000 3 = (Synth.doubling.repaired md inc ecn, md.toNat + inc.toNat + ecn.toNat) ∧
      checkProgram (Synth.doubling.repaired md inc ecn) 1000 3 = ⟨sweepCases 3, 0, none⟩ ∧
      ((checkProgram Synth.doubling 1000 3).violations = 0 ↔ md.toNat + inc.toNat + ecn.toNat = 0) :=
  repair_to_safe_sound Synth.doubling (by decide) (by decide) (by decide)

end

end Ferrumnet
