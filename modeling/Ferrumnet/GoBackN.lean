import Ferrumnet.Resends

/-
  How long the go-back-N flag lives.

  The flag is set by a timeout, by duplicate ACKs and by the drain after a timeout;
  it is consumed by the next transmission that finds something in flight. An ACK of
  all that is outstanding leaves it set, for data that was not there when the loss
  was signalled.

  1. `Ok.poll_idle` — a poll under a flag that has nothing left to resend.
  2. `Steady.step` — while nothing new is sent under such a flag, the signal covers
     what was outstanding when it came.
  3. `flag_answers` — in every run in which nothing new is sent under a flag that
     has nothing left to resend, a resend was outstanding when the loss was
     signalled, and no drain sends an octet twice.
  4. `stale_flag` — otherwise new data goes out twice in a row.
-/

namespace Ferrumnet

namespace Host

variable {κ : Type} [CongestionControl κ] {r : Host κ} {t : Tcb κ} {i : Input}

omit [CongestionControl κ] in
/-- `SND.UNA` and `SND.NXT` as they were. -/
theorem nxt_follow (hs : t.sndUna = r.tcb.sndUna ∧ t.sndNxt = r.tcb.sndNxt) :
    (r.follow t).nxt = r.nxt := by
  have hu : (r.follow t).una = r.una := follow_una hs.1
  rw [nxt, nxt, hu, follow_tcb]
  simp only [Tcb.inflight, hs.1, hs.2]

/-- No segment past the handshake moves the position of `SND.NXT`. -/
theorem Ok.nxt_segment (hok : r.Ok) (h1 : r.tcb.state ≠ .synSent) (h2 : r.tcb.state ≠ .synReceived)
    {p : TcpPacket} (now : Instant) (ce : Bool) : (r.follow (r.tcb.onSegment now p ce)).nxt = r.nxt := by
  have hcases := r.tcb.core.onSegment_takes p h1
  rw [← r.tcb.core_onSegment now p ce] at hcases
  generalize r.tcb.onSegment now p ce = t at hcases ⊢
  generalize hc : t.core = c at hcases
  cases hcases with
  | dropped _ _ =>
    have hs : t.toSendSpace = r.tcb.toSendSpace := congrArg Core.toSendSpace hc
    exact nxt_follow ⟨congrArg SendSpace.sndUna hs, congrArg SendSpace.sndNxt hs⟩
  | reset _ _ =>
    have hs : t.toSendSpace = r.tcb.toSendSpace := congrArg Core.toSendSpace hc
    exact nxt_follow ⟨congrArg SendSpace.sndUna hs, congrArg SendSpace.sndNxt hs⟩
  | synAgain hd => exact absurd (r.tcb.core.state_of_dupSyn _ hd) h2
  | badAck _ hrec _ _ => exact absurd hrec h2
  | taken _ hv =>
    obtain ⟨una', hle, hle', -, -, -, hat⟩ := acked_any (c := r.tcb.core) hok.sending hok.phase h1 hv
    have hs : t.toSendSpace = r.tcb.core.ackedSend p := congrArg Core.toSendSpace hc
    have hnxt : t.sndNxt = r.tcb.sndNxt := by
      refine (congrArg SendSpace.sndNxt hs).trans ?_
      unfold Core.ackedSend
      split
      · rfl
      · split <;> rfl
    have hu : t.sndUna = r.tcb.iss + una' := (congrArg SendSpace.sndUna hs).trans hat
    have hout := hok.sending.outstanding_le
    have hsame : r.tcb.core.toSendSpace.outstanding = r.tcb.toSendSpace.outstanding := rfl
    have hend : r.nxt = r.una + r.tcb.toSendSpace.outstanding := rfl
    rw [hend]
    change r.una + t.sndUna.offsetFrom r.tcb.sndUna + t.sndNxt.offsetFrom t.sndUna = _
    rw [hu, hok.sending.at_una, hnxt, hok.sending.at_nxt,
      SeqNumber.offsetFrom_pos_le _ (by omega) (by omega),
      SeqNumber.offsetFrom_pos_le _ (by omega) (by omega)]
    omega

/-- The host, its go-back-N flag lowered. -/
def lower (r : Host κ) : Host κ := { r with tcb := { r.tcb with retransmit := false } }

/-- The call signals a loss: it sets the flag even if it was clear. -/
def signals (r : Host κ) (i : Input) : Bool := (r.lower.input i).1.tcb.retransmit

/-- What the go-back-N step emits. -/
def resends (r : Host κ) : Input → Option Datagram
  | .poll now =>
    if r.tcb.pendingReset = none ∧ r.tcb.state.synchronized = true then
      ({ r.tcb with curTsval := BitVec.ofNat 32 now.micros }.retransmitOldest now).2
    else none
  | _ => none

/-- A transmission that would start something new while the flag is set and nothing
is left for it: data into an open window, or the FIN. -/
def Stale (r : Host κ) : Input → Prop
  | .poll _ => r.tcb.state.synchronized = true ∧ r.tcb.retransmit = true ∧ r.tcb.sndUna = r.tcb.sndNxt ∧
      (0 < r.tcb.tx.len ∧ 0 < r.tcb.sndWnd ∨ r.tcb.tx.len = 0 ∧ r.tcb.finQueued = true ∧ r.tcb.finAcked = false)
  | _ => False

instance : ∀ i, Decidable (r.Stale i)
  | .poll _ => inferInstanceAs (Decidable (_ ∧ _ ∧ _ ∧ _))
  | .segment _ _ _ | .send _ | .recv _ | .close | .timer _ => isFalse id

/-! ## A transmission -/

/-- The go-back-N step comes first, so what it emits is what goes out. -/
theorem resends_emitted {d : Datagram} (h : r.resends i = some d) : (r.input i).2 = some d := by
  cases i with
  | segment | send | recv | close | timer => cases h
  | poll now =>
    simp only [resends] at h
    split at h
    · rename_i hs
      change (r.tcb.pollTransmit now).2 = _
      unfold Tcb.pollTransmit
      generalize hu : ({ r.tcb with curTsval := BitVec.ofNat 32 now.micros } : Tcb κ) = u at h
      have h1 : u.pendingReset = none := by rw [← hu]; exact hs.1
      have h2 : u.state.synchronized = true := by rw [← hu]; exact hs.2
      have hgo : ((u.transmitDataOrFin now).orElse (·.emitOwedAck)).2 = some d := by
        unfold Tcb.transmitDataOrFin
        generalize u.retransmitOldest now = q at h
        obtain ⟨v, o⟩ := q
        cases h
        rfl
      dsimp only
      rw [h1]
      dsimp only
      split
      · rename_i hst; rw [hst] at h2; cases h2
      · rename_i hst; rw [hst] at h2; cases h2
      · rename_i hst; rw [hst] at h2; cases h2
      · rename_i hst; rw [hst] at h2; cases h2
      · rename_i hst; rw [hst] at h2; cases h2
      · exact hgo
    · cases h

/-- Only the data path emits text. -/
theorem text_transmit {now : Instant} {d : Datagram} (h : (r.tcb.pollTransmit now).2 = some d)
    (hocc : 0 < Tcb.occupies d) : r.tcb.pendingReset = none ∧ r.tcb.state.synchronized = true ∧
      ∃ u : Tcb κ, u = { r.tcb with curTsval := BitVec.ofNat 32 now.micros } ∧
        ((u.transmitDataOrFin now).orElse (·.emitOwedAck)).2 = some d := by
  unfold Tcb.pollTransmit at h
  generalize hu : ({ r.tcb with curTsval := BitVec.ofNat 32 now.micros } : Tcb κ) = u at h
  have h1 : u.pendingReset = r.tcb.pendingReset := by rw [← hu]
  have h2 : u.state = r.tcb.state := by rw [← hu]
  have hack : ∀ v : Tcb κ, v.emitOwedAck.2 = some d → False := by
    intro v hv
    unfold Tcb.emitOwedAck at hv
    split at hv
    · cases hv
      rw [Tcb.occupies_build] at hocc
      exact absurd hocc (by simp)
    · cases hv
  rw [← h1, ← h2]
  dsimp only at h
  split at h
  · cases h
    exact absurd hocc (by simp [Tcb.occupies, Tcb.buildRst, buildSegment])
  rename_i hp
  split at h
  · cases h
  · cases h
  · unfold Tcb.pollSynSent at h
    split at h
    · cases h
      exact absurd hocc (by simp [Tcb.occupies, Tcb.buildSyn, buildSegment])
    · split at h
      · cases h
        exact absurd hocc (by simp [Tcb.occupies, Tcb.buildSyn, buildSegment])
      · cases h
  · unfold Tcb.pollSynReceived at h
    split at h
    · cases h
      rw [Tcb.occupies_build] at hocc
      exact absurd hocc (by simp)
    · split at h
      · cases h
        rw [Tcb.occupies_build] at hocc
        exact absurd hocc (by simp)
      · exact (hack _ h).elim
  · exact (hack _ h).elim
  · rename_i hst1 hst2 hst3 hst4 hst5
    refine ⟨hp, ?_, u, rfl, h⟩
    rcases hst : u.state <;> simp_all [State.synchronized]

/-- What every transmission keeps: `SND.UNA`, and the side of the handshake; `SND.NXT`
moves forward, or stays. -/
structure Polled (r : Host κ) (t : Tcb κ) : Prop where
  una : t.sndUna = r.tcb.sndUna
  nxt : r.nxt ≤ (r.follow t).nxt
  sync : t.state.synchronized = true → r.tcb.state.synchronized = true
  opening : t.state = .synSent ∨ t.state = .synReceived →
    r.tcb.state = .synSent ∨ r.tcb.state = .synReceived

theorem Ok.polled (hok : r.Ok) (now : Instant) : r.Polled (r.tcb.pollTransmit now).1 := by
  have hp := hok.polls now
  generalize r.tcb.pollTransmit now = q at hp ⊢
  obtain ⟨t, o⟩ := q
  dsimp only at hp ⊢
  have hquiet : t.core = r.tcb.core → r.Polled t := by
    intro hc
    have hs : t.toSendSpace = r.tcb.toSendSpace := congrArg Core.toSendSpace hc
    have hst : t.state = r.tcb.state := congrArg Core.state hc
    refine ⟨congrArg SendSpace.sndUna hs, ?_, fun h => by rwa [hst] at h, fun h => by rwa [hst] at h⟩
    exact (nxt_follow ⟨congrArg SendSpace.sndUna hs, congrArg SendSpace.sndNxt hs⟩).ge
  cases hp with
  | idle hc => exact hquiet hc
  | rst _ _ hc => exact hquiet hc
  | syn hsent hc =>
    rcases hc with ⟨hn, hc⟩ | ⟨-, hc⟩
    · have hst : t.state = r.tcb.state := congrArg Core.state hc
      have huna : t.sndUna = r.tcb.sndUna := congrArg (fun c : Core => c.sndUna) hc
      refine ⟨huna, ?_, fun h => by rwa [hst] at h, fun h => by rwa [hst] at h⟩
      have hz : r.tcb.inflight = 0 := by
        rw [Tcb.inflight, hn, (hok.opening (.inl hsent)).1, SeqNumber.offsetFrom_self]
      rw [nxt, nxt, follow_una huna, hz]
      omega
    · exact hquiet hc
  | segment _ _ _ hs hc =>
    obtain ⟨_, -, -, hspec⟩ := sends_spec (c := r.tcb.core) hok.sending hok.phase hs
    have hsend := congrArg Core.toSendSpace hc
    have hst : t.state = _ := congrArg Core.state hc
    have huna : t.sndUna = r.tcb.sndUna := (congrArg SendSpace.sndUna hsend).trans hspec.una_eq
    refine ⟨huna, ?_, fun h => ?_, fun h => ?_⟩
    · have hle := hspec.nxt_le
      have hin : t.inflight = SendSpace.outstanding _ := congrArg SendSpace.outstanding hsend
      rw [nxt, nxt, follow_una huna, follow_tcb, hin]
      exact Nat.add_le_add_left hle _
    · rw [hst] at h
      cases hs with
      | synAck hrec | synAckAgain hrec =>
        have h' : r.tcb.core.state.synchronized = true := h
        rw [hrec] at h'
        cases h'
      | ack => exact h
      | again _ _ _ hsync | data _ _ hsync | probe hsync | fin hsync | finAgain _ hsync => exact hsync
    · rw [hst] at h
      exact h.elim (fun hn => absurd hn hspec.learned) fun hn => .inr (hspec.waiting hn)

/-- While the flag has nothing to resend and nothing new may start, `SND.NXT` stays. -/
theorem Ok.poll_idle (hok : r.Ok) {now : Instant} (hst : r.tcb.state.synchronized = true)
    (hflag : r.tcb.retransmit = true) (hno : ¬ r.Stale (.poll now))
    (hwhy : r.tcb.pendingReset ≠ none ∨ r.tcb.inflight = 0) :
    (r.follow (r.tcb.pollTransmit now).1).nxt = r.nxt := by
  have hquiet : ∀ t : Tcb κ, t.toSendSpace = r.tcb.toSendSpace → (r.follow t).nxt = r.nxt := by
    intro t hs
    exact nxt_follow ⟨congrArg SendSpace.sndUna hs, congrArg SendSpace.sndNxt hs⟩
  by_cases hr : r.tcb.pendingReset = none
  · have hz := hwhy.resolve_left fun h => h hr
    have hat : r.tcb.sndUna = r.tcb.sndNxt := ((SeqNumber.eq_iff_offsetFrom _ _).mpr hz).symm
    have hnone : ¬ (0 < r.tcb.tx.len ∧ 0 < r.tcb.sndWnd) ∧
        ¬ (r.tcb.tx.len = 0 ∧ r.tcb.finQueued = true ∧ r.tcb.finAcked = false) := by
      constructor
      · exact fun h => hno ⟨hst, hflag, hat, .inl h⟩
      · exact fun h => hno ⟨hst, hflag, hat, .inr h⟩
    have hp := hok.polls now
    generalize r.tcb.pollTransmit now = q at hp ⊢
    obtain ⟨t, o⟩ := q
    dsimp only at hp ⊢
    cases hp with
    | idle hc => exact hquiet t (congrArg Core.toSendSpace hc)
    | rst _ _ hc => exact hquiet t (congrArg Core.toSendSpace hc)
    | syn hsent _ => rw [hsent] at hst; cases hst
    | segment _ _ _ hs hc =>
      have hsend := congrArg Core.toSendSpace hc
      have hz' : r.tcb.core.inflight = 0 := hz
      cases hs with
      | synAck hrec => exact absurd (hrec ▸ hst : State.synReceived.synchronized = true) (by simp [State.synchronized])
      | synAckAgain | ack | again | probe | finAgain => exact hquiet t hsend
      | data n psh _ hpos hu hw =>
        have h1 : n ≤ r.tcb.tx.len - min r.tcb.core.inflight r.tcb.tx.len := hu
        have h2 : n ≤ r.tcb.sndWnd - r.tcb.core.inflight := hw
        exact absurd ⟨by omega, by omega⟩ hnone.1
      | fin _ hq ha hn =>
        refine absurd ⟨?_, hq, ha⟩ hnone.2
        have hn' : r.tcb.sndUna + r.tcb.tx.len = r.tcb.sndUna := by
          rw [hat]
          exact hat ▸ (hn.symm : r.tcb.core.dataEnd = _)
        by_contra hne
        have hcap := hok.sending.len_le
        rw [← hok.sending.tx_len] at hcap
        exact SeqNumber.add_ne_self r.tcb.sndUna (by omega) hn'
  · obtain ⟨q, hq⟩ := Option.ne_none_iff_exists'.mp hr
    refine hquiet _ ?_
    simp only [Tcb.pollTransmit, hq]

/-- What is reported after a call that is not a transmission. -/
theorem Ok.reported_call (hok : r.Ok) (h : r.tcb.Reported) (hi : ∀ now, i ≠ .poll now) :
    (r.input i).1.tcb.Reported := by
  cases i with
  | segment seg now ce =>
    change (r.tcb.onSegment now seg.tcp ce).Reported
    by_cases hst : r.tcb.state = .synSent
    · refine .of_nil ?_
      rw [Tcb.onSegment, if_pos hst, ← h.opening (.inl hst)]
      have hgreeting := r.tcb.onSegmentSynSent_greeting seg.tcp
      generalize r.tcb.onSegmentSynSent seg.tcp = u at hgreeting
      cases hgreeting <;> rfl
    · have hout : r.tcb.inflight ≤ 262145 := hok.sending.outstanding_le
      exact h.onSegment (by omega) hst ce
  | send data =>
    change (r.tcb.send data).1.Reported
    simp only [Tcb.send]
    split <;> exact ⟨h.starts, h.off, h.opening⟩
  | recv n => exact ⟨h.starts, h.off, h.opening⟩
  | close => exact ⟨h.starts, h.off, h.opening⟩
  | timer now =>
    change (r.tcb.onTimer now).Reported
    have hrtx : (r.tcb.onRtxTimer now).scoreboard.sacked = r.tcb.scoreboard.sacked := by
      simp only [Tcb.onRtxTimer]
      split
      · split
        · simp only [Tcb.synTimeout]
          split <;> rfl
        · simp only [Tcb.rtxTimeout, Tcb.restartRtx]
          split <;> rfl
      · rfl
    have hloss : (r.tcb.onTimer now).loss = (r.tcb.onRtxTimer now).loss := by
      simp only [Tcb.onTimer, Tcb.loss_onDelayedAckTimer, Tcb.loss_onTimeWaitTimer,
        Tcb.loss_onPersistTimer]
    have hsacked : (r.tcb.onTimer now).scoreboard.sacked = r.tcb.scoreboard.sacked :=
      (congrArg (fun l => l.2.2) hloss).trans hrtx
    rcases r.tcb.core_onTimer now with hc | hc
    · have hst : (r.tcb.onTimer now).state = r.tcb.state := congrArg Core.state hc
      exact h.keep hsacked (congrArg Core.toSendSpace hc) (congrArg (fun c : Core => c.sackEnabled) hc)
        fun hopen => by rwa [hst] at hopen
    · have hst : (r.tcb.onTimer now).state = .closed := congrArg Core.state hc
      exact h.keep hsacked (congrArg Core.toSendSpace hc) (congrArg (fun c : Core => c.sackEnabled) hc)
        fun hopen => by rw [hst] at hopen; exact absurd hopen (by simp)
  | poll now => exact absurd rfl (hi now)

/-- A transmission reports nothing, and moves `SND.NXT` only forward. -/
theorem Ok.reported_poll (hok : r.Ok) (h : r.tcb.Reported) (now : Instant) :
    (r.tcb.pollTransmit now).1.Reported := by
  have hp := hok.polled now
  have hsacked := r.tcb.sacked_pollTransmit now
  have hstays := hok.stays (i := .poll now) fun _ _ _ => by simp
  have hu : (r.input (.poll now)).1.una = r.una := follow_una hp.una
  have hnxt : r.nxt ≤ (r.input (.poll now)).1.nxt := hp.nxt
  have hend : (r.input (.poll now)).1.nxt =
      (r.input (.poll now)).1.una + (r.tcb.pollTransmit now).1.inflight := rfl
  have hend₀ : r.nxt = r.una + r.tcb.inflight := rfl
  refine ⟨fun run hr => ?_, fun hoff => ?_, fun hopen => ?_⟩
  · rw [hsacked] at hr
    have hfar := h.starts run hr
    rw [hp.una]
    omega
  · refine hsacked.trans (h.off ?_)
    exact (congrArg Options.sackEnabled hstays.options).symm.trans hoff
  · exact hsacked.trans (h.opening (hp.opening hopen))

theorem Ok.reported (hok : r.Ok) (h : r.tcb.Reported) (i : Input) : (r.input i).1.tcb.Reported := by
  cases i with
  | poll now => exact hok.reported_poll h now
  | segment | send | recv | close | timer => exact hok.reported_call h fun _ => by simp

end Host

/-- A host with the position of `SND.NXT` when the last loss was signalled, and
before the current drain: its transmissions since then have sent `[base, nxt)` anew. -/
structure Flagged (κ : Type) where
  host : Host κ
  mark : Nat
  base : Nat

namespace Flagged

open Host

variable {κ : Type} [CongestionControl κ] {w : Flagged κ} {i : Input}

def start (r : Host κ) : Flagged κ := { host := r, mark := r.nxt, base := r.nxt }

def next (w : Flagged κ) (i : Input) : Flagged κ :=
  { host := (w.host.input i).1
    mark := if w.host.signals i then (w.host.input i).1.nxt else w.mark
    base := match i with
      | .poll _ => w.base
      | _ => (w.host.input i).1.nxt }

def step (w : Flagged κ) (i : Input) : Option (Flagged κ) := some (w.next i)

/-- What the go-back-N step resends was outstanding when the loss was signalled, and
no octet of the current drain goes out again. -/
structure Answers (w : Flagged κ) (i : Input) : Prop where
  loss : ∀ d, w.host.resends i = some d → (w.host.label d).seqPos + Tcb.occupies d ≤ w.mark
  drain : ∀ d, (w.host.input i).2 = some d → ∀ q, (w.host.label d).seqPos ≤ q →
    q < (w.host.label d).seqPos + Tcb.occupies d → q < w.base ∨ w.host.nxt ≤ q

/-- Nothing new starts under a flag that has nothing left to resend. -/
def NotStale (w : Flagged κ) (i : Input) : Prop := ¬ w.host.Stale i

instance : Decidable (w.NotStale i) := inferInstanceAs (Decidable (¬ _))

/-- The flag is set for what is outstanding now. -/
structure Steady (w : Flagged κ) : Prop where
  ok : w.host.Ok
  reported : w.host.tcb.Reported
  starts : w.host.tcb.scoreboard.Starts w.host.tcb.sndUna (w.base - w.host.una)
  base : w.host.una ≤ w.base ∧ w.base ≤ w.host.nxt
  flag : w.host.tcb.state.synchronized = true → w.host.tcb.retransmit = true →
    w.mark = w.host.nxt ∧ w.base = w.host.nxt

/-- A transmission in a steady state. -/
theorem Steady.answers (h : w.Steady) (i : Input) : w.Answers i := by
  have hlow := h.base.1
  have hhigh := h.base.2
  have hend : w.host.nxt = w.host.una + w.host.tcb.inflight := rfl
  have hout : w.host.tcb.inflight ≤ 262145 := h.ok.sending.outstanding_le
  refine ⟨fun d hd => ?_, fun d hd q h1 h2 => ?_⟩
  · cases i with
    | segment | send | recv | close | timer => cases hd
    | poll now =>
      simp only [resends] at hd
      split at hd
      · rename_i hs
        obtain ⟨hflag, hseq, hocc⟩ := Tcb.retransmitOldest_lies hd
        have hmark := (h.flag hs.2 hflag).1
        have hseq' : d.repr.seq = w.host.tcb.sndUna := hseq
        have hocc' : Tcb.occupies d ≤ w.host.tcb.inflight := hocc
        simp only [label, hseq', SeqNumber.offsetFrom_self]
        omega
      · cases hd
  · cases i with
    | segment | send | recv | close | timer => cases hd
    | poll now =>
      obtain ⟨-, hst, u, hu, hgo⟩ := text_transmit hd (by omega)
      have hsync : u.state.synchronized = true := by rw [hu]; exact hst
      have hstarts : u.scoreboard.Starts u.sndUna (w.base - w.host.una) := by rw [hu]; exact h.starts
      have hin : u.inflight = w.host.tcb.inflight := by rw [hu]; rfl
      have huna : u.sndUna = w.host.tcb.sndUna := by rw [hu]
      have hnxt : u.sndNxt = w.host.tcb.sndNxt := by rw [hu]
      have hpos : (w.host.label d).seqPos = w.host.una + d.repr.seq.offsetFrom w.host.tcb.sndUna := rfl
      rcases Tcb.transmit_lies hsync hstarts (by omega) (by omega) hgo (by omega) with hl | hl | hl
      · obtain ⟨hflag, hseq, hocc⟩ := Tcb.retransmitOldest_lies hl
        have hbase := (h.flag hst (by rw [hu] at hflag; exact hflag)).2
        rw [hpos, hseq, huna, SeqNumber.offsetFrom_self] at h1 h2
        omega
      · rw [huna] at hl
        omega
      · right
        rw [hpos, hl, hnxt] at h1
        exact h1

/-- A call that is not a transmission leaves `SND.NXT` where it is, past the handshake. -/
theorem call_nxt (hok : w.host.Ok) (hst : w.host.tcb.state.synchronized = true)
    (hi : ∀ now, i ≠ .poll now) : (w.host.input i).1.nxt = w.host.nxt := by
  have hpast : w.host.tcb.state ≠ .synSent ∧ w.host.tcb.state ≠ .synReceived := by
    constructor <;> intro h <;> rw [h] at hst <;> cases hst
  cases i with
  | segment seg now ce => exact hok.nxt_segment hpast.1 hpast.2 now ce
  | send data =>
    have hs : (w.host.tcb.send data).1.sndUna = w.host.tcb.sndUna ∧
        (w.host.tcb.send data).1.sndNxt = w.host.tcb.sndNxt := by
      simp only [Tcb.send]
      split <;> exact ⟨rfl, rfl⟩
    exact nxt_follow hs
  | recv n => exact nxt_follow (t := (w.host.tcb.recv n).1) ⟨rfl, rfl⟩
  | close => exact nxt_follow (t := w.host.tcb.close) ⟨rfl, rfl⟩
  | timer now =>
    rcases w.host.tcb.core_onTimer now with hc | hc
    · exact nxt_follow (t := w.host.tcb.onTimer now)
        ⟨congrArg (fun c : Core => c.sndUna) hc, congrArg (fun c : Core => c.sndNxt) hc⟩
    · exact nxt_follow (t := w.host.tcb.onTimer now)
        ⟨congrArg (fun c : Core => c.sndUna) hc, congrArg (fun c : Core => c.sndNxt) hc⟩
  | poll now => exact absurd rfl (hi now)

/-- A flag found past the handshake was set there. -/
theorem call_flag (hok : w.host.Ok) (hi : ∀ now, i ≠ .poll now)
    (hst : (w.host.input i).1.tcb.state.synchronized = true)
    (hflag : (w.host.input i).1.tcb.retransmit = true) (hsig : w.host.signals i = false) :
    w.host.tcb.state.synchronized = true ∧ w.host.tcb.retransmit = true := by
  have hset : w.host.tcb.retransmit = true := by
    by_contra hne
    have hlow : w.host.lower = w.host := by
      have hf := Bool.eq_false_iff.mpr hne
      rw [lower, ← hf]
    rw [signals, hlow, hflag] at hsig
    cases hsig
  refine ⟨?_, hset⟩
  by_contra hno
  have hopen : w.host.tcb.state = .synSent ∨ w.host.tcb.state = .synReceived ∨
      w.host.tcb.state = .closed ∨ w.host.tcb.state = .timeWait := by
    have hph := hok.phase
    rcases h : w.host.tcb.state <;> rw [h] at hno hph <;>
      simp_all [State.synchronized, Phase]
  have hshut : w.host.tcb.state = .closed ∨ w.host.tcb.state = .timeWait → False := by
    rintro (h | h)
    · rw [input_closed hok h i] at hst
      cases hst
    · rcases input_timeWait hok h i with h' | h' <;> rw [h'] at hst <;> cases hst
  have hhand : w.host.tcb.state = .synSent ∨ w.host.tcb.state = .synReceived := by
    rcases hopen with h | h | h | h
    · exact .inl h
    · exact .inr h
    · exact (hshut (.inl h)).elim
    · exact (hshut (.inr h)).elim
  cases i with
  | segment seg now ce =>
    have := Tcb.opened_flag hhand ce hst
    exact absurd (hflag.symm.trans this) (by simp)
  | send data =>
    have hc : (w.host.tcb.send data).1.state = w.host.tcb.state := by
      simp only [Tcb.send]
      split <;> rfl
    have hst' : (w.host.tcb.send data).1.state.synchronized = true := hst
    rw [hc] at hst'
    exact hno hst'
  | recv n => exact hno hst
  | close => exact hno hst
  | timer now =>
    have hst' : (w.host.tcb.onTimer now).core.state.synchronized = true := hst
    rcases w.host.tcb.core_onTimer now with hc | hc <;> rw [hc] at hst'
    · exact hno hst'
    · cases hst'
  | poll now => exact hi now rfl

theorem Steady.call (h : w.Steady) (hi : ∀ now, i ≠ .poll now) : (w.next i).Steady := by
  have hok' := h.ok.input i
  have hrep := h.ok.reported_call h.reported hi
  have hbase : (w.next i).base = (w.host.input i).1.nxt := by
    cases i with
    | poll now => exact absurd rfl (hi now)
    | segment | send | recv | close | timer => rfl
  have hend : (w.host.input i).1.nxt = (w.host.input i).1.una + (w.host.input i).1.tcb.inflight := rfl
  refine ⟨hok', hrep, ?_, ?_, fun hst hflag => ?_⟩
  · rw [hbase, hend]
    change (w.host.input i).1.tcb.scoreboard.Starts _ (_ - (w.host.input i).1.una)
    rw [Nat.add_sub_cancel_left]
    exact hrep.starts
  · rw [hbase]
    change (w.host.input i).1.una ≤ _ ∧ _ ≤ (w.host.input i).1.nxt
    omega
  · refine ⟨?_, hbase⟩
    change (if w.host.signals i then (w.host.input i).1.nxt else w.mark) = (w.host.input i).1.nxt
    cases hsig : w.host.signals i with
    | true => rfl
    | false =>
      obtain ⟨hst₀, hflag₀⟩ := call_flag h.ok hi hst hflag hsig
      rw [call_nxt h.ok hst₀ hi]
      exact (h.flag hst₀ hflag₀).1

theorem Steady.poll (h : w.Steady) {now : Instant} (hno : w.NotStale (.poll now)) :
    (w.next (.poll now)).Steady := by
  have hp := h.ok.polled now
  have hlow := h.base.1
  have hhigh := h.base.2
  have hsacked := w.host.tcb.sacked_pollTransmit now
  have hu : (w.host.input (.poll now)).1.una = w.host.una := follow_una hp.una
  have hnxt : w.host.nxt ≤ (w.host.input (.poll now)).1.nxt := hp.nxt
  have hend : (w.host.input (.poll now)).1.nxt =
      (w.host.input (.poll now)).1.una + (w.host.tcb.pollTransmit now).1.inflight := rfl
  have hstarts : (w.host.tcb.pollTransmit now).1.scoreboard.Starts
      (w.host.tcb.pollTransmit now).1.sndUna (w.base - w.host.una) := by
    intro run hr
    rw [hsacked] at hr
    rw [hp.una]
    exact h.starts run hr
  refine ⟨h.ok.input _, h.ok.reported_poll h.reported now, ?_, ?_, fun hst hflag => ?_⟩
  · change (w.host.tcb.pollTransmit now).1.scoreboard.Starts _
      (w.base - (w.host.input (.poll now)).1.una)
    rw [hu]
    exact hstarts
  · change (w.host.input (.poll now)).1.una ≤ w.base ∧ w.base ≤ (w.host.input (.poll now)).1.nxt
    omega
  · have hst₀ := hp.sync hst
    obtain ⟨hset, hwhy⟩ := Tcb.flag_pollTransmit w.host.tcb now hst₀ hflag
    obtain ⟨hmark, hbase⟩ := h.flag hst₀ hset
    have hsame : (w.host.input (.poll now)).1.nxt = w.host.nxt := h.ok.poll_idle hst₀ hset hno hwhy
    change (if w.host.signals (.poll now) then (w.host.input (.poll now)).1.nxt else w.mark) =
        (w.host.input (.poll now)).1.nxt ∧ w.base = (w.host.input (.poll now)).1.nxt
    rw [hsame]
    refine ⟨?_, hbase⟩
    split
    · rfl
    · exact hmark

theorem steady_start {r : Host κ} (h : r.Opens) : (start r).Steady := by
  have hnil : r.tcb.scoreboard.sacked = [] := by
    cases h with
    | active loc remote iss now mss kind =>
      change ((Tcb.newSynSent loc remote iss now mss : Tcb κ).setCongestionControl kind).scoreboard.sacked = _
      unfold Tcb.setCongestionControl
      split <;> rfl
    | passive loc remote syn iss now mss kind =>
      change ((Tcb.newSynReceived loc remote syn iss now mss : Tcb κ).setCongestionControl
        kind).scoreboard.sacked = _
      unfold Tcb.setCongestionControl
      split <;> rfl
  refine ⟨h.ok, .of_nil hnil, fun run hr => ?_, ⟨Nat.le_add_right _ _, le_rfl⟩, fun _ _ => ⟨rfl, rfl⟩⟩
  change run ∈ r.tcb.scoreboard.sacked at hr
  rw [hnil] at hr
  cases hr

/-- As long as nothing new starts under a flag that has nothing left to resend, the
go-back-N step resends only what was outstanding when the loss was signalled, and no
drain sends an octet twice. -/
theorem flag_answers {r₀ : Host κ} {is : List Input} (h0 : r₀.Opens)
    (hc : Run.Along step NotStale (start r₀) is) : Run.Along step Answers (start r₀) is := by
  have hkeep : ∀ (w : Flagged κ) (i : Input), w.Steady → w.NotStale i → (w.next i).Steady := by
    intro w i hw hno
    by_cases hi : ∃ now, i = .poll now
    · obtain ⟨now, rfl⟩ := hi
      exact hw.poll hno
    · exact hw.call fun now he => hi ⟨now, he⟩
  have hrun : ∀ (is : List Input) (w : Flagged κ), w.Steady → Run.Along step NotStale w is →
      Run.Along step Answers w is := by
    intro is
    induction is with
    | nil => exact fun _ _ _ => trivial
    | cons i is ih =>
      intro w hw hc
      refine ⟨hw.answers i, fun w' he => ?_⟩
      cases he
      exact ih _ (hkeep w i hw hc.1) (hc.2 _ rfl)
  exact hrun is (start r₀) (steady_start h0) hc

/-- Five octets are sent, the timer goes off, and they are resent. -/
def resent : List Input :=
  settled ++ [.send (Bytes.replicate 5 7), .poll ⟨0⟩, .timer ⟨3000000⟩, .poll ⟨3000000⟩, .poll ⟨3000000⟩]

theorem flag_answers_resent : Run.Along step Answers (start accepted) resent := by
  have hno : Run.Along step NotStale (start accepted) resent := by decide +kernel
  exact flag_answers accepted_opens hno

/-- The timer goes off, but then the five octets are acknowledged, and five new ones
are sent: the flag is still set. -/
def overtaken : List Input :=
  settled ++ [.send (Bytes.replicate 5 7), .poll ⟨0⟩, .timer ⟨3000000⟩,
    .segment ⟨{ peerSegment 5001 {} Bytes.empty with ack := SeqNumber.new 106 }, by decide⟩ ⟨3000000⟩ false,
    .send (Bytes.replicate 5 8), .poll ⟨3000000⟩]

/-- They go out again at once. -/
theorem stale_flag : ∃ w : Flagged Reno, Run.run step (start accepted) overtaken = some w ∧
    ¬ w.Answers (.poll ⟨3000000⟩) := by
  obtain ⟨w, hr, hd⟩ := Run.exists_run step (start accepted) overtaken
    (fun w => (w.host.resends (.poll ⟨3000000⟩)).any
      (fun d => decide (w.mark < (w.host.label d).seqPos + Tcb.occupies d)) = true) (by decide +kernel)
  obtain ⟨d, hd, hlt⟩ := (Option.any_eq_true _ _).mp hd
  refine ⟨w, hr, fun h => ?_⟩
  have := h.loss d hd
  exact absurd (of_decide_eq_true hlt) (by omega)

end Flagged

end Ferrumnet
