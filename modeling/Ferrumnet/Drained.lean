import Ferrumnet.Board

/-
  The transmit drain ends: `poll_transmit`, called again and again at one time, runs
  out of datagrams.

  What is left to emit is counted: the flags that owe a segment, the octets and the
  FIN that have not been sent (twice, for each may have to be repaired later), and
  the octets in flight that no repair of this episode covers. Whatever a call emits,
  it lowers this count, and a call that emits nothing ends the loop.

  1. `workload_lt` — an emission lowers the workload.
  2. `drain_ends` — so the loop of `Stack::poll_transmit` ends, within that many turns.
-/

namespace Ferrumnet

namespace Tcb

variable {κ : Type}

/-- The octets in flight that no repair of this episode covers. -/
def unrepaired (t : Tcb κ) : Nat :=
  ((Finset.range t.inflight).filter fun k => t.scoreboard.isRexmit (t.sndUna + k) = false).card

/-- The flags that owe a segment. -/
def owes (t : Tcb κ) : Nat :=
  t.pendingReset.isSome.toNat + t.retransmit.toNat + t.needsAck.toNat + t.sendProbe.toNat

/-- What has not been sent, and what may have to be repaired. -/
def backlog (t : Tcb κ) : Nat := 2 * (t.tx.len + 1 - t.inflight) + t.unrepaired

def workload (t : Tcb κ) : Nat := t.owes + t.backlog

/-- The loop of `Stack::poll_transmit` over one connection: the state it ends in and
what it has sent, `none` when it has not ended. -/
def drain [CongestionControl κ] (now : Instant) : Nat → Tcb κ → Option (Tcb κ × List Datagram)
  | 0, _ => none
  | fuel + 1, t =>
    match (t.pollTransmit now).2 with
    | none => some ((t.pollTransmit now).1, [])
    | some d => (drain now fuel (t.pollTransmit now).1).map fun p => (p.1, d :: p.2)

variable {t u : Tcb κ}

/-! ## What the count depends on -/

theorem backlog_congr (hs : u.toSendSpace = t.toSendSpace)
    (hb : u.scoreboard.rexmit = t.scoreboard.rexmit) : u.backlog = t.backlog := by
  have hin : u.inflight = t.inflight := by simp only [inflight, hs]
  have hmarks : u.unrepaired = t.unrepaired := by
    unfold unrepaired
    rw [hin]
    refine congrArg Finset.card (Finset.filter_congr fun k _ => ?_)
    rw [Scoreboard.isRexmit, Scoreboard.isRexmit, hb, hs]
  rw [backlog, backlog, hin, hmarks, hs]

/-- More in flight: each octet leaves what is unsent, and joins what may be repaired. -/
theorem backlog_sent {n : Nat} (hpos : 0 < n) (htx : u.tx = t.tx) (huna : u.sndUna = t.sndUna)
    (hin : u.inflight = t.inflight + n) (hle : t.inflight + n ≤ t.tx.len + 1)
    (hb : u.scoreboard = t.scoreboard) : u.backlog < t.backlog := by
  have hmore : u.unrepaired ≤ t.unrepaired + n := by
    have hsub : ((Finset.range u.inflight).filter fun k => u.scoreboard.isRexmit (u.sndUna + k) = false) ⊆
        ((Finset.range t.inflight).filter fun k => t.scoreboard.isRexmit (t.sndUna + k) = false) ∪
          Finset.Ico t.inflight (t.inflight + n) := by
      intro k hk
      rw [Finset.mem_filter, Finset.mem_range, hin, hb, huna] at hk
      rw [Finset.mem_union, Finset.mem_filter, Finset.mem_range, Finset.mem_Ico]
      by_cases hlt : k < t.inflight
      · exact .inl ⟨hlt, hk.2⟩
      · exact .inr ⟨by omega, hk.1⟩
    have hcard := (Finset.card_le_card hsub).trans (Finset.card_union_le _ _)
    rw [Nat.card_Ico, Nat.add_sub_cancel_left] at hcard
    exact hcard
  simp only [backlog, hin, htx]
  omega

/-- A repair covers an octet that none covered before. -/
theorem backlog_repaired (hs : u.toSendSpace = t.toSendSpace) {k : Nat} (hk : k < t.inflight)
    (hbefore : t.scoreboard.isRexmit (t.sndUna + k) = false)
    (hafter : u.scoreboard.isRexmit (t.sndUna + k) = true)
    (hkeep : ∀ j < t.inflight, t.scoreboard.isRexmit (t.sndUna + j) = true →
      u.scoreboard.isRexmit (t.sndUna + j) = true) : u.backlog < t.backlog := by
  have hin : u.inflight = t.inflight := by simp only [inflight, hs]
  have hless : u.unrepaired < t.unrepaired := by
    refine Finset.card_lt_card (Finset.ssubset_iff_of_subset ?_ |>.mpr ⟨k, ?_, ?_⟩)
    · intro j hj
      rw [Finset.mem_filter, Finset.mem_range, hin, hs] at hj
      rw [Finset.mem_filter, Finset.mem_range]
      refine ⟨hj.1, Bool.eq_false_iff.mpr fun hc => ?_⟩
      exact absurd (hkeep j hj.1 hc) (by rw [hj.2]; simp)
    · exact Finset.mem_filter.mpr ⟨Finset.mem_range.mpr hk, hbefore⟩
    · intro hmem
      rw [Finset.mem_filter, hs] at hmem
      exact absurd hafter (by rw [hmem.2]; simp)
  simp only [backlog, hin, hs]
  omega

/-- Each flag counts for one. -/
theorem workload_flags (hb : u.backlog = t.backlog)
    (h1 : u.pendingReset.isSome.toNat ≤ t.pendingReset.isSome.toNat)
    (h2 : u.retransmit.toNat ≤ t.retransmit.toNat) (h3 : u.needsAck.toNat ≤ t.needsAck.toNat)
    (h4 : u.sendProbe.toNat ≤ t.sendProbe.toNat)
    (hlt : u.pendingReset.isSome.toNat < t.pendingReset.isSome.toNat ∨ u.retransmit.toNat < t.retransmit.toNat ∨
      u.needsAck.toNat < t.needsAck.toNat ∨ u.sendProbe.toNat < t.sendProbe.toNat) :
    u.workload < t.workload := by
  simp only [workload, owes, hb]
  omega

variable (t) (now : Instant)

/-- Consuming the go-back-N flag never adds a debt. -/
theorem owes_lowered : t.lowered.owes ≤ t.owes := by
  have hflag : t.lowered.retransmit.toNat ≤ t.retransmit.toNat := by
    change (t.retransmit && decide (t.inflight = 0)).toNat ≤ _
    cases t.retransmit with
    | false => exact le_rfl
    | true => exact Bool.toNat_le _
  simp only [owes]
  change _ + t.lowered.retransmit.toNat + _ + _ ≤ _
  exact Nat.add_le_add_right (Nat.add_le_add_right (Nat.add_le_add_left hflag _) _) _

theorem owes_congr (ho : u.toOwed = t.toOwed) (hr : u.toLossRecovery = t.toLossRecovery) :
    u.owes = t.owes := by simp only [owes, ho, hr]

theorem paid {b : Bool} (h : b = true) : false.toNat < b.toNat := by
  rw [h]
  exact Nat.one_pos

theorem workload_startRtx : (t.startRtx now).workload = t.workload := by
  unfold startRtx
  split <;> rfl

variable [CongestionControl κ]

theorem owes_noteSent (n room : Nat) : (t.noteSent now n room).owes = t.owes := by
  simp only [noteSent]
  split
  · split <;> rfl
  · split <;> rfl

theorem owes_gated : (t.lowered.gated now).owes ≤ t.owes := by
  obtain ⟨h1, h2⟩ := t.lowered.owed_gated now
  exact (owes_congr t.lowered h1 h2).trans_le t.owes_lowered

/-- What is in flight and what is unsent stay as they were, past the sources that emit
nothing. -/
theorem backlog_gated : (t.lowered.gated now).backlog = t.backlog := by
  have hsend : (t.lowered.gated now).toSendSpace = t.lowered.toSendSpace :=
    congrArg Core.toSendSpace (t.lowered.core_gated now)
  exact backlog_congr (t := t.lowered) hsend
    (congrArg (fun l : LossRecovery κ => l.scoreboard.rexmit) (t.lowered.owed_gated now).2)

theorem workload_gated : (t.lowered.gated now).workload ≤ t.workload := by
  rw [workload, workload, backlog_gated]
  exact Nat.add_le_add_right (t.owes_gated now) _

end Tcb

namespace Host

variable {κ : Type} [CongestionControl κ] {r r' : Host κ} {q : Tcb.Emit κ} {now : Instant}

omit [CongestionControl κ] in
/-- `n` octets more in flight. -/
theorem Ok.inflight_add (hok : r.Ok) {n : Nat} (h : r.tcb.inflight + n ≤ r.tcb.tx.len + 1) :
    (r.tcb.sndNxt + n).offsetFrom r.tcb.sndUna = r.tcb.inflight + n := by
  have hlen := hok.sending.len_le
  rw [← hok.sending.tx_len] at hlen
  have ht := SeqNumber.offsetFrom_trans (r.tcb.sndNxt + n) r.tcb.sndNxt r.tcb.sndUna
  rw [SeqNumber.offsetFrom_add] at ht
  change (_ + r.tcb.inflight) % _ = _ at ht
  omega

/-- Whatever the data path emits, it lowers the workload. -/
theorem source_lt (hok : r.Ok) (hboard : r.Board) (h : Tcb.Source r.tcb now q) (he : q.2.isSome = true) :
    q.1.workload < r.tcb.workload := by
  have hflag : r.tcb.retransmit = true →
      ({ r.tcb with retransmit := false } : Tcb κ).workload < r.tcb.workload := by
    intro hr
    refine Tcb.workload_flags rfl le_rfl ?_ le_rfl le_rfl (.inr (.inl ?_))
    · exact (Tcb.paid hr).le
    · exact Tcb.paid hr
  cases h with
  | resend n hr _ _ _ =>
    simp only [Tcb.Emit.after, Tcb.workload_startRtx]
    exact hflag hr
  | resendFin finSeq hr _ _ _ _ _ =>
    simp only [Tcb.Emit.after, Tcb.workload_startRtx]
    exact hflag hr
  | repair seq n isRescue _ _ _ hnext hn hpos =>
    simp only [Tcb.Emit.after, Tcb.workload_startRtx]
    obtain ⟨x, hx, hx', hseq, hseq', hmark⟩ := hok.repair_at hnext hpos (by omega)
    obtain ⟨m, hm⟩ := hboard.rexmit
    obtain ⟨-, hfresh, -, -⟩ := r.tcb.scoreboard.nextSeg_spec
      (by have := hok.near; change r.tcb.inflight < _; simp only [nxt] at this; omega) hnext
    have hm' := hm.insertRun hx (by omega : x < x + n) hx'
    rw [← hseq', ← hseq, ← hmark] at hm'
    have hnear := hok.near
    have hends : r.una + r.tcb.inflight = r.nxt := rfl
    -- the marks before and after, by position
    have hat : ∀ k, r.tcb.sndUna + k = r.tcb.iss + (r.una + k) := by
      intro k
      rw [← SeqNumber.add_add, ← hok.sending.at_una]
    have hbefore : ∀ k < r.tcb.inflight, r.tcb.scoreboard.isRexmit (r.tcb.sndUna + k) =
        decide (Intervals.Covers m (r.una + k)) := by
      intro k hk
      rw [hat]
      exact hm.contains (by omega) (by omega)
    have hafter : ∀ k < r.tcb.inflight,
        (r.tcb.scoreboard.markRexmit seq (seq + n)).isRexmit (r.tcb.sndUna + k) =
          decide (Intervals.Covers (Intervals.insert x (x + n) m) (r.una + k)) := by
      intro k hk
      rw [hat]
      exact hm'.contains (by omega) (by omega)
    have hk : r.una + (x - r.una) = x := by omega
    have hsame : ∀ s : Scoreboard, (if isRescue = true then s.setRescueDone else s).rexmit = s.rexmit := by
      intro s
      split <;> rfl
    have hrex : ∀ q, Scoreboard.isRexmit (if isRescue = true then
        (r.tcb.scoreboard.markRexmit seq (seq + n)).setRescueDone
        else r.tcb.scoreboard.markRexmit seq (seq + n)) q =
          (r.tcb.scoreboard.markRexmit seq (seq + n)).isRexmit q := by
      intro q
      rw [Scoreboard.isRexmit, hsame]
      rfl
    have hlt : Tcb.backlog (((r.tcb.lowered.emit seq { psh := seq.offsetFrom r.tcb.sndUna + n = r.tcb.tx.len }
        (r.tcb.tx.peek (seq.offsetFrom r.tcb.sndUna) n)).1).noteRexmit seq n isRescue) < r.tcb.backlog := by
      refine Tcb.backlog_repaired (k := x - r.una) rfl (by omega) ?_ ?_ ?_
      · rw [hat, hk, ← hseq]
        exact hfresh
      · refine (hrex _).trans ?_
        rw [hafter _ (by omega), hk, decide_eq_true_iff, Intervals.covers_insert hm.spaced (by omega)]
        exact .inr ⟨le_rfl, by omega⟩
      · intro j hj hc
        refine (hrex _).trans ?_
        rw [hbefore j hj, decide_eq_true_iff] at hc
        rw [hafter j hj, decide_eq_true_iff, Intervals.covers_insert hm.spaced (by omega)]
        exact .inl hc
    exact Nat.add_lt_add_of_le_of_lt r.tcb.owes_lowered hlt
  | data n hn hpos =>
    simp only [Tcb.Emit.after, Tcb.workload_startRtx]
    generalize hu : ((r.tcb.lowered.paced now).emit r.tcb.sndNxt
      { psh := r.tcb.sentData + n = r.tcb.tx.len } (r.tcb.tx.peek r.tcb.sentData n)).1 = u
    have hsend : u.toSendSpace = r.tcb.toSendSpace := by
      rw [← hu]
      exact congrArg Core.toSendSpace (r.tcb.lowered.core_paced now)
    have howes : u.owes = r.tcb.lowered.owes := by
      rw [← hu]
      obtain ⟨h1, h2⟩ := r.tcb.lowered.owed_paced now
      exact Tcb.owes_congr (u := r.tcb.lowered.paced now) r.tcb.lowered h1 h2
    have hboard' : u.scoreboard = r.tcb.scoreboard := by
      rw [← hu]
      exact (congrArg LossRecovery.scoreboard (r.tcb.lowered.owed_paced now).2).trans rfl
    have hcore := u.core_noteSent now n r.tcb.windowRoom
    have hsend' : (u.noteSent now n r.tcb.windowRoom).toSendSpace =
        { r.tcb.toSendSpace with sndNxt := r.tcb.sndNxt + n } := by
      refine (congrArg Core.toSendSpace hcore).trans ?_
      change ({ u.toSendSpace with sndNxt := u.sndNxt + n } : SendSpace) = _
      rw [hsend]
    have hunsent : n ≤ r.tcb.tx.len - min r.tcb.inflight r.tcb.tx.len := by
      have h3 : n ≤ r.tcb.unsentData := by
        rw [hn, Tcb.portion]
        omega
      exact h3
    have hlt : (u.noteSent now n r.tcb.windowRoom).backlog < r.tcb.backlog := by
      refine Tcb.backlog_sent hpos (by rw [hsend']) (by rw [hsend']) ?_ (by omega)
        (((u.noteSent_frame now n _).1).trans hboard')
      simp only [Tcb.inflight, hsend']
      exact hok.inflight_add (by omega)
    rw [Tcb.workload, Tcb.workload, Tcb.owes_noteSent, howes]
    exact Nat.add_lt_add_of_le_of_lt r.tcb.owes_lowered hlt
  | probe _ _ hprobe =>
    have hgated := r.tcb.workload_gated now
    have hset : (r.tcb.lowered.gated now).sendProbe = true := by
      rw [(r.tcb.lowered.owed_gated now).1]
      exact hprobe
    refine lt_of_lt_of_le ?_ hgated
    refine Tcb.workload_flags rfl le_rfl le_rfl le_rfl ?_ (.inr (.inr (.inr ?_)))
    · exact (Tcb.paid hset).le
    · exact Tcb.paid hset
  | fin _ _ _ hat =>
    simp only [Tcb.Emit.after]
    generalize hu : ((r.tcb.lowered.gated now).emit r.tcb.dataEnd { fin := true } Bytes.empty).1 = u
    have hcore : u.toSendSpace = r.tcb.toSendSpace := by
      rw [← hu]
      exact congrArg Core.toSendSpace (r.tcb.lowered.core_gated now)
    have hgated : u.owes ≤ r.tcb.owes ∧ u.scoreboard = r.tcb.scoreboard := by
      rw [← hu]
      exact ⟨r.tcb.owes_gated now, (congrArg LossRecovery.scoreboard (r.tcb.lowered.owed_gated now).2).trans rfl⟩
    have howes : (u.noteFin now).owes = u.owes := by
      simp only [Tcb.noteFin, Tcb.startRtx]
      split <;> rfl
    have hsend : (u.noteFin now).toSendSpace =
        { r.tcb.toSendSpace with finSeq := some r.tcb.dataEnd, sndNxt := r.tcb.sndNxt + 1 } := by
      refine (congrArg Core.toSendSpace (u.core_noteFin now)).trans ?_
      change ({ u.toSendSpace with finSeq := some (u.sndUna + u.tx.len), sndNxt := u.sndUna + u.tx.len + 1 } :
        SendSpace) = _
      rw [hcore, hat]
      rfl
    -- all data is in flight
    have hin : r.tcb.inflight = r.tcb.tx.len := by
      have hlen := hok.sending.len_le
      rw [← hok.sending.tx_len] at hlen
      rw [Tcb.inflight, hat, Tcb.dataEnd, SeqNumber.offsetFrom_add]
      omega
    have hlt : (u.noteFin now).backlog < r.tcb.backlog := by
      refine Tcb.backlog_sent Nat.one_pos (by rw [hsend]) (by rw [hsend]) ?_ (by omega) ?_
      · simp only [Tcb.inflight, hsend]
        exact hok.inflight_add (by omega)
      · exact (congrArg LossRecovery.scoreboard (u.recovery_noteFin now)).trans hgated.2
    rw [Tcb.workload, Tcb.workload, howes]
    exact Nat.add_lt_add_of_le_of_lt hgated.1 hlt
  | quiet _ => cases he

/-- Whatever one call emits, it lowers the workload. -/
theorem workload_lt (now : Instant) (hok : r.Ok) (hboard : r.Board)
    (he : (r.tcb.pollTransmit now).2.isSome = true) :
    (r.tcb.pollTransmit now).1.workload < r.tcb.workload := by
  have hturn := r.tcb.pollTransmit_turn now
  generalize r.tcb.pollTransmit now = q at hturn he ⊢
  -- the SYN, or the SYN-ACK: the first octet in flight
  have hsyn : ∀ u : Tcb κ, r.tcb.state = .synSent ∨ r.tcb.state = .synReceived → r.tcb.sndNxt = r.tcb.iss →
      u.toSendSpace = { r.tcb.toSendSpace with sndNxt := r.tcb.iss + 1 } → u.owes = r.tcb.owes →
      u.scoreboard = r.tcb.scoreboard → u.workload < r.tcb.workload := by
    intro u hst hn hsend howes hb
    have huna := (hok.opening hst).1
    have hz : r.tcb.inflight = 0 := by rw [Tcb.inflight, hn, huna, SeqNumber.offsetFrom_self]
    refine Nat.add_lt_add_of_le_of_lt howes.le
      (Tcb.backlog_sent Nat.one_pos (by rw [hsend]) (by rw [hsend]) ?_ (by omega) hb)
    simp only [Tcb.inflight, hsend, huna, SeqNumber.offsetFrom_add]
    rw [hn, SeqNumber.offsetFrom_self]
  have hflag : r.tcb.retransmit = true →
      ({ r.tcb.clocked now with retransmit := false } : Tcb κ).workload < r.tcb.workload := by
    intro hr
    refine Tcb.workload_flags rfl le_rfl ?_ le_rfl le_rfl (.inr (.inl ?_))
    · exact (Tcb.paid hr).le
    · exact Tcb.paid hr
  cases hturn with
  | rst seq hp =>
    refine Tcb.workload_flags rfl ?_ le_rfl le_rfl le_rfl (.inl ?_)
    · exact Nat.zero_le _
    · exact Tcb.paid (by rw [hp]; rfl)
  | mute _ _ => cases he
  | syn _ hst hn =>
    refine hsyn _ (.inl hst) hn ?_ ?_ ?_
    · exact congrArg Core.toSendSpace (Tcb.core_startRtx ({ r.tcb.clocked now with sndNxt := r.tcb.iss + 1 } : Tcb κ) now)
    · unfold Tcb.startRtx
      split <;> rfl
    · exact congrArg LossRecovery.scoreboard
        (Tcb.recovery_startRtx ({ r.tcb.clocked now with sndNxt := r.tcb.iss + 1 } : Tcb κ) now)
  | synAgain _ _ _ hr => exact hflag hr
  | synWaits _ _ _ _ => cases he
  | synAck _ hst hn =>
    refine hsyn _ (.inr hst) hn ?_ ?_ ?_
    · exact congrArg Core.toSendSpace (Tcb.core_startRtx _ now)
    · simp only [Tcb.Emit.after, Tcb.startRtx]
      split <;> rfl
    · exact congrArg LossRecovery.scoreboard (Tcb.recovery_startRtx _ now)
  | synAckAgain _ _ _ hr => exact hflag hr
  | sends _ _ hs _ =>
    exact source_lt (r := { r with tcb := r.tcb.clocked now }) ⟨hok.sending, hok.phase⟩
      ⟨hboard.sacked, hboard.rexmit, hboard.blank⟩ hs he
  | @ack u _ hi hack =>
    have hu : u.workload ≤ r.tcb.workload ∧ u.needsAck = true := by
      cases hi with
      | synReceived _ _ _ | timeWait _ => exact ⟨le_rfl, hack⟩
      | data _ _ =>
        refine ⟨(r.tcb.clocked now).workload_gated now, ?_⟩
        rw [((r.tcb.clocked now).lowered.owed_gated now).1]
        exact hack
    refine lt_of_lt_of_le ?_ hu.1
    refine Tcb.workload_flags rfl le_rfl le_rfl ?_ le_rfl (.inr (.inr (.inl ?_)))
    · exact (Tcb.paid hu.2).le
    · exact Tcb.paid hu.2
  | idle _ _ _ => cases he

/-- The loop ends within the workload, from any well-formed state. -/
theorem drain_some (hok : r.Ok) (hboard : r.Board) (now : Instant) {fuel : Nat}
    (hfuel : r.tcb.workload < fuel) : ∃ (t : Tcb κ) (out : List Datagram),
      r.tcb.drain now fuel = some (t, out) ∧ out.length ≤ r.tcb.workload := by
  induction fuel generalizing r with
  | zero => exact absurd hfuel (Nat.not_lt_zero _)
  | succ fuel ih =>
    rw [Tcb.drain]
    split
    · exact ⟨_, [], rfl, Nat.zero_le _⟩
    · rename_i d hd
      have hlt := workload_lt now hok hboard (by rw [hd]; rfl)
      obtain ⟨t, out, he, hlen⟩ := ih (r := r.follow (r.tcb.pollTransmit now).1) (hok.poll now)
        (hboard.poll hok now) (Nat.lt_of_lt_of_le hlt (Nat.lt_succ_iff.mp hfuel))
      have he' : (r.tcb.pollTransmit now).1.drain now fuel = some (t, out) := he
      have hlen' : out.length ≤ (r.tcb.pollTransmit now).1.workload := hlen
      refine ⟨t, d :: out, by rw [he']; rfl, ?_⟩
      rw [List.length_cons]
      omega

/-- In every state that a run reaches, with any controller, repeated transmission at
one time comes to an end, within as many datagrams as the workload counts. -/
theorem drain_ends {r₀ : Host κ} {is : List Input} (h0 : r₀.Opens) (hr : Run.run step r₀ is = some r)
    (now : Instant) {fuel : Nat} (hfuel : r.tcb.workload < fuel) :
    ∃ (t : Tcb κ) (out : List Datagram), r.tcb.drain now fuel = some (t, out) ∧
      out.length ≤ r.tcb.workload := by
  obtain ⟨hok, hboard⟩ := board_run h0 hr
  exact drain_some hok hboard now hfuel

/-- Once established, with 3000 bytes to send. -/
def loaded : List Input := settled ++ [.send (Bytes.replicate 3000 7)]

theorem drain_ends_loaded : ∃ r : Host Reno, Run.run step accepted loaded = some r ∧
    r.tcb.tx.len = 3000 ∧ ∃ (t : Tcb Reno) (out : List Datagram),
      r.tcb.drain ⟨0⟩ (r.tcb.workload + 1) = some (t, out) ∧ out.length ≤ r.tcb.workload := by
  obtain ⟨r, hr, hlen⟩ := Run.exists_run step accepted loaded (fun r => r.tcb.tx.len = 3000) (by decide +kernel)
  exact ⟨r, hr, hlen, drain_ends accepted_opens hr ⟨0⟩ (Nat.lt_succ_self _)⟩

end Host

end Ferrumnet
