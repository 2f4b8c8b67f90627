import Ferrumnet.Envelope

/-
  Controllers fed one event after the other, whatever the events are.

  `CcSafe` is the safety envelope of `bmc.rs` for any controller; Reno's own, with what
  its loop and its counters do, is `Reno.Envelope`.

  1. `Kept.applyCc`, `Kept.drive` — what every call of the connection keeps, every run keeps.
-/

namespace Ferrumnet

variable {κ : Type} [CongestionControl κ]

/-- One event, at a time of its own. -/
def drive (c : κ) (e : Instant × CcEvent) : Option κ := some (applyCc c e.1 e.2).1

/-- `cc_safety_invariants`: what one event from `c` may do, for a controller of segment size
`mss` whose threshold `ssthresh` reads. -/
structure CcSafe (ssthresh : κ → Nat) (mss : Nat) (c : κ) (now : Instant) (e : CcEvent) : Prop where
  /-- Starvation-freedom. -/
  floor : mss ≤ CongestionControl.cwnd (applyCc c now e).1
  /-- An engaged loss response stays within the pipe. -/
  loss : ∀ flight, (applyCc c now e).2 = some flight →
    CongestionControl.cwnd (applyCc c now e).1 ≤ max flight (2 * mss) ∧ 2 * mss ≤ ssthresh (applyCc c now e).1
  ecn : ∀ acked marked, e = .ecn acked marked →
    CongestionControl.cwnd (applyCc c now e).1 ≤ CongestionControl.cwnd c
  ack : ∀ acked, e = .ack acked → CongestionControl.cwnd c ≤ CongestionControl.cwnd (applyCc c now e).1

theorem Kept.applyCc {P : κ → Prop} (hk : Kept P) {c : κ} (h : P c) (now : Instant) {e : CcEvent} (he : e.Fits) :
    P (applyCc c now e).1 := by
  cases e with
  | ack acked => exact hk.onAck c now acked h
  | ecn acked marked => exact hk.onEcn c now acked marked h
  | rtt srtt => exact hk.onRttSample c srtt h
  | dupAck flight => exact hk.onDupAck c now flight he h
  | rto flight => exact hk.onRto c now flight h
  | enterRecovery flight => exact hk.enterRecovery c now flight he h

/-- In every run of events whose counts are `u32`. -/
theorem drive_invariant {I : κ → Prop} (hstep : ∀ c now e, e.Fits → I c → I (applyCc c now e).1) {c₀ c : κ}
    (h₀ : I c₀) {es : List (Instant × CcEvent)} (hes : ∀ e ∈ es, e.2.Fits) (hr : Run.run drive c₀ es = some c) :
    I c := by
  have hfits : Run.Along drive (fun (_ : κ) e => e.2.Fits) c₀ es := Run.along_of_forall hes c₀
  refine Run.run_invariant_along (I := I) (fun c e c' hc hf hs => ?_) h₀ hfits hr
  cases hs
  exact hstep c e.1 e.2 hf hc

theorem Kept.drive {P : κ → Prop} (hk : Kept P) {c₀ c : κ} (h₀ : P c₀) {es : List (Instant × CcEvent)}
    (hes : ∀ e ∈ es, e.2.Fits) (hr : Run.run drive c₀ es = some c) : P c :=
  drive_invariant (I := P) (fun _ now _ he hc => hk.applyCc hc now he) h₀ hes hr

end Ferrumnet
