import Ferrumnet.Lib.Odometer
import Ferrumnet.Bmc
import Ferrumnet.Views

/-
  The other sweeps of the model checker: every way to split bytes over ACKs, and every option
  string over an alphabet.

  1. `folded` — what a report says after a verdict on every object of an enumeration.
  2. `ack_split_passes` — no split inflates the window of Reno or DCTCP.
  3. `option_strings_pass` — no option string makes an accessor panic.
-/

namespace Ferrumnet

namespace Bmc

open Odometer

/-- Verdicts that are all fine. -/
theorem folded {α : Type} {verdict : α → Except String Unit} {l : List α} (h : ∀ a ∈ l, verdict a = .ok ()) :
    l.foldl (fun r a => r.check (verdict a)) BmcReport.default = ⟨l.length, 0, none⟩ := by
  have hcount : (l.countP fun a => BmcReport.fails (verdict a)) = 0 := by
    rw [List.countP_eq_zero]
    intro a ha
    rw [h a ha]
    exact Bool.false_ne_true
  have hnone : (l.findSome? fun a => BmcReport.why (verdict a)) = none := by
    rw [List.findSome?_eq_none_iff]
    intro a ha
    rw [h a ha]
    rfl
  rw [BmcReport.counted, hcount, hnone]
  show BmcReport.mk (0 + l.length) (0 + 0) none = _
  rw [Nat.zero_add]

/-! ## ACK division -/

section

variable {κ : Type} [CongestionControl κ]

/-- `f` over every ordered composition of `n`; `left` is what `max_parts` leaves for more parts. -/
def forEachComposition {ρ : Type} (f : ρ → List Nat → ρ) (n left : Nat) (parts : List Nat) : ρ → ρ :=
  foldCompositions f left n parts

/-- The window may grow by the bytes acknowledged. -/
def splitVerdict (controller : κ) (totalBytes unit : Nat) (parts : List Nat) : Except String Unit :=
  let c := parts.foldl (fun c p => CongestionControl.onAck c ccNow (p * unit)) controller
  let growth := CongestionControl.cwnd c - CongestionControl.cwnd controller
  let n := parts.length
  if growth > totalBytes then
    .error s!"ACK-split inflated the window: {n} ACKs grew cwnd by {growth} > {totalBytes} bytes acked"
  else .ok ()

def checkAckSplitInvariance (controller : κ) (totalUnits unit maxAcks : Nat) : BmcReport :=
  forEachComposition (fun report parts => report.check (splitVerdict controller (totalUnits * unit) unit parts))
    totalUnits maxAcks [] .default

/-- A controller whose window no ACKs raise by more than their bytes. -/
theorem ack_split_of_bound {controller : κ} (h : ∀ parts : List Nat,
    CongestionControl.cwnd (acks controller ccNow parts) ≤ CongestionControl.cwnd controller + parts.sum)
    (units unit maxAcks : Nat) : checkAckSplitInvariance controller (units + 1) unit maxAcks =
      ⟨∑ j ∈ Finset.range maxAcks, units.choose j, 0, none⟩ := by
  have hpass : ∀ parts ∈ compositions maxAcks (units + 1),
      splitVerdict controller ((units + 1) * unit) unit parts = .ok () := by
    intro parts hparts
    obtain ⟨hsum, -, -⟩ := mem_compositions.mp hparts
    have hle := h (parts.map (· * unit))
    have htotal : (parts.map (· * unit)).sum = (units + 1) * unit := by
      rw [List.sum_map_mul_right, List.map_id', hsum]
    have hfold : acks controller ccNow (parts.map (· * unit)) =
        parts.foldl (fun c p => CongestionControl.onAck c ccNow (p * unit)) controller := List.foldl_map
    rw [htotal, hfold] at hle
    simp only [splitVerdict]
    exact if_neg (by omega)
  rw [checkAckSplitInvariance, forEachComposition, foldCompositions_eq]
  simp only [List.nil_append]
  rw [folded hpass, length_compositions]

end

/-- A segment of header and options alone; `none` is a panic. -/
def probeOptions (opts : List UInt8) : Option (Except String Unit) := do
  let hlen := 20 + opts.length
  let buf := (List.replicate 20 (0 : UInt8)).set 12 (UInt8.ofNat (hlen / 4) <<< 4) ++ opts
  match ← TcpView.newChecked buf with
  | .error _ => return .ok ()
  | .ok pkt =>
    let _ ← pkt.mssOption
    let _ ← pkt.windowScale
    let _ ← pkt.timestamps
    let _ ← pkt.sackPermitted
    let blocks := List.replicate maxSackBlocks (SeqNumber.new 0, SeqNumber.new 0)
    let (_, n) ← pkt.sackBlocks blocks
    if n > maxSackBlocks then return .error s!"sack_blocks returned {n} > MAX_SACK_BLOCKS"
    return .ok ()

/-- `f` over every string that extends `buf` by `len` bytes. -/
def enumerateStrings {ρ : Type} (buf : List UInt8) (len : Nat) (alphabet : List UInt8) (f : ρ → List UInt8 → ρ) : ρ → ρ :=
  foldWords alphabet f len buf

def checkOptionStrings (alphabet : List UInt8) (lenWords : Nat) : Option BmcReport :=
  enumerateStrings [] (lenWords * 4) alphabet
    (fun report s => do return (← report).check (← probeOptions s)) (some .default)

/-- The accessors are safe on whatever the check lets through. -/
theorem probeOptions_ok (opts : List UInt8) : probeOptions opts = some (.ok ()) := by
  simp only [probeOptions, Option.bind_eq_bind]
  generalize (List.replicate 20 (0 : UInt8)).set 12 (UInt8.ofNat ((20 + opts.length) / 4) <<< 4) ++ opts = buf
  obtain ⟨r, hr⟩ : ∃ r, TcpView.newChecked buf = some r := ⟨_, TcpView.newChecked_eq buf⟩
  rw [hr, Option.bind_some]
  cases r with
  | error e => rfl
  | ok pkt =>
    obtain ⟨-, hsafe⟩ := TcpView.safe_of_checked hr
    obtain ⟨opts, items, -, -, hwalk, -⟩ := hsafe.walker
    obtain ⟨out, n, hblocks, hn, -⟩ := hwalk.sackBlocks
      (List.replicate maxSackBlocks (SeqNumber.new 0, SeqNumber.new 0)) List.length_replicate
    simp only [hwalk.mssOption, hwalk.windowScale, hwalk.timestamps, hwalk.sackPermitted, hblocks, Option.bind_some]
    rw [if_neg (Nat.not_lt.mpr hn)]
    rfl

/-- Whatever the alphabet and the length, every string over it is probed, none panics and none
is found to be a violation. -/
theorem option_strings_pass (alphabet : List UInt8) (lenWords : Nat) :
    checkOptionStrings alphabet lenWords = some ⟨alphabet.length ^ (lenWords * 4), 0, none⟩ := by
  have hlift : ∀ (l : List (List UInt8)) (r : BmcReport),
      l.foldl (fun (report : Option BmcReport) s => do return (← report).check (← probeOptions s)) (some r) =
        some (l.foldl (fun r _ => r.check (.ok ())) r) := by
    intro l
    induction l with
    | nil =>
      intro r
      rfl
    | cons s l ih =>
      intro r
      rw [List.foldl_cons, List.foldl_cons, probeOptions_ok]
      exact ih _
  rw [checkOptionStrings, enumerateStrings, foldWords_eq]
  simp only [List.nil_append]
  rw [hlift, folded fun _ _ => rfl, length_words]

end Bmc

end Ferrumnet
