import Ferrumnet.Drained
import Ferrumnet.Relapse
import Ferrumnet.Setting

/-
  What a connection still has ahead of it, while its application is silent and its clock
  stands still.

  Three counts, of which each outweighs the next. `ahead` counts what happens once: the
  octets to be acknowledged, the FIN of the peer, the challenge ACKs of this second, the
  fast retransmit that duplicates may still set off. `toil` counts what can be sent before
  one of these happens, and `replies` the ACK and the RST that are owed.

  1. `Ok.hears` — no segment lifts them by more than it weighs, unless it is an echo: a
     segment without sequence numbers that is answered, or a SYN-ACK for a SYN-ACK.
  2. `Ok.utters` — every transmission lowers them by more than what it sends weighs.
-/

namespace Ferrumnet

/-- A controller that asks for a fast retransmit on exactly the third duplicate ACK in a row. -/
class DupAcks (κ : Type) [CongestionControl κ] where
  dupAcks : κ → Nat
  fires : ∀ (c : κ) now f, (CongestionControl.onDupAck c now f).2 = decide (dupAcks c = 2)
  counts : ∀ (c : κ) now f, dupAcks (CongestionControl.onDupAck c now f).1 = min (dupAcks c + 1) 255
  onTransmit : ∀ (c : κ) now q n f b, dupAcks (CongestionControl.onTransmit c now q n f b) = dupAcks c

/-! ## The counts -/

/-- How far the state is from the end. -/
def State.stage : State → Nat
  | .synSent => 2
  | .closed => 0
  | _ => 1

namespace TcpPacket

/-- The SYN of an active open. -/
def bareSyn (p : TcpPacket) : Bool := p.flags.syn && !p.flags.ack && !p.flags.rst

/-- What may be owed in return: nothing for a RST, a RST for a segment without sequence
numbers, an ACK for any other. -/
def weight (p : TcpPacket) : Nat := if p.flags.rst then 0 else if p.segLen = 0 then 1 else 2

end TcpPacket

namespace Tcb

variable {κ : Type}

/-- The challenge ACKs of this second. -/
def challengesLeft (t : Tcb κ) (now : Instant) : Nat :=
  if now.saturatingMicrosSince t.challengeWindowStart ≥ 1000000 then challengeAckLimit
  else challengeAckLimit - t.challengeCount

/-- The SYNs that SYN-SENT has not sent. -/
def synsLeft (t : Tcb κ) : Nat :=
  if t.state = .synSent then (decide (t.sndNxt = t.iss)).toNat + t.retransmit.toNat else 0

/-- What can be sent before anything else happens. -/
def toil (t : Tcb κ) : Nat := t.retransmit.toNat + t.sendProbe.toNat + t.backlog

/-- The ACK and the RST that are owed; nothing but the RST leaves a closed connection. -/
def replies (t : Tcb κ) : Nat :=
  (if t.state = .closed then 0 else 2 * t.needsAck.toNat) + t.pendingReset.isSome.toNat

/-- The segment is answered with an ACK though it carries no sequence number, or, in
SYN-RECEIVED, with the SYN-ACK though it is one itself. -/
def Echoes (t : Tcb κ) (p : TcpPacket) : Prop :=
  p.flags.rst = false ∧ t.state ≠ .closed ∧ t.state ≠ .synSent ∧
    (p.segLen = 0 ∧ (t.state = .timeWait ∨ t.pawsStale p = true ∨
        t.toRecvSpace.segmentAcceptable p.seq p.segLen = false ∨
        t.state ≠ .synReceived ∧ p.flags.ack = true ∧ p.ack.gt t.sndNxt = true) ∨
      t.core.dupSyn p = true ∧ p.flags.ack = true)

instance (t : Tcb κ) (p : TcpPacket) : Decidable (t.Echoes p) :=
  inferInstanceAs (Decidable (_ ∧ _ ∧ _ ∧ (_ ∧ (_ ∨ _ ∨ _ ∨ _ ∧ _ ∧ _) ∨ _ ∧ _)))

variable [CongestionControl κ] [DupAcks κ]

/-- The fast retransmit that duplicates may set off before anything new is acknowledged. -/
def triggersLeft (t : Tcb κ) : Nat :=
  if t.sackEnabled = false ∧ DupAcks.dupAcks t.cc < 3 then 1 else 0

def chances (t : Tcb κ) (now : Instant) : Nat :=
  t.triggersLeft + t.challengesLeft now + (!t.peerFinSeen).toNat + 2 * t.synsLeft

end Tcb

namespace Host

variable {κ : Type} [CongestionControl κ] [DupAcks κ]

/-- What happens once: `sent.length + 2` octets are acknowledged, the SYN and the FIN
among them. -/
def ahead (r : Host κ) (now : Instant) : Nat :=
  2 * (r.tcb.state.stage + (r.sent.length + 2 - r.una)) + r.tcb.chances now

/-- What a segment may do to the counts. -/
inductive Hearing (r : Host κ) (now : Instant) (p : TcpPacket) (t : Tcb κ) : Prop
  | nearer : (r.follow t).ahead now < r.ahead now → Hearing r now p t
  | syn : p.bareSyn = true → (r.follow t).ahead now ≤ r.ahead now → Hearing r now p t
  | level : (r.follow t).ahead now ≤ r.ahead now → t.toil ≤ r.tcb.toil →
      t.replies ≤ r.tcb.replies + p.weight → Hearing r now p t

end Host

namespace Tcb

variable {κ : Type} {t u : Tcb κ} {now : Instant} {p : TcpPacket}

/-- Only SYN-SENT is two stages away. -/
theorem stage_lt {st : State} : st.stage ≤ 1 ↔ st ≠ .synSent := by
  cases st <;> decide

theorem stage_zero {st : State} : st.stage = 0 ↔ st = .closed := by
  cases st <;> decide

theorem stage_closing (st : State) (finAcked peerFinSeen : Bool) :
    (closingState st finAcked peerFinSeen).stage ≤ st.stage := by
  cases st <;> cases finAcked <;> cases peerFinSeen <;> decide

theorem synsLeft_late (h : t.state ≠ .synSent) : t.synsLeft = 0 := if_neg h

theorem toil_congr (hs : u.toSendSpace = t.toSendSpace) (hr : u.retransmit = t.retransmit)
    (hp : u.sendProbe.toNat ≤ t.sendProbe.toNat) (hb : u.scoreboard.rexmit = t.scoreboard.rexmit) :
    u.toil ≤ t.toil := by
  rw [toil, toil, hr, backlog_congr hs hb]
  omega

/-- An ACK that was not owed before has to be paid for, except on a closed connection. -/
theorem replies_le {k : Nat} (hst : u.state.stage ≤ t.state.stage) (hp : u.pendingReset = t.pendingReset)
    (hack : u.state ≠ .closed → u.needsAck = true → t.needsAck = true ∨ 2 ≤ k) : u.replies ≤ t.replies + k := by
  rw [replies, replies, hp]
  by_cases hu : u.state = .closed
  · rw [if_pos hu]
    omega
  have ht : t.state ≠ .closed := by
    intro hc
    rw [hc] at hst
    exact hu (stage_zero.mp (Nat.le_zero.mp hst))
  rw [if_neg hu, if_neg ht]
  cases hn : u.needsAck with
  | false => exact Nat.add_le_add_right (Nat.zero_le _) _ |>.trans (Nat.le_add_right _ _)
  | true =>
    rcases hack hu hn with h | h
    · rw [h]
      exact Nat.le_add_right _ _
    · change 2 + _ ≤ _
      omega

/-- A RST that is owed from now on. -/
theorem replies_reset (t : Tcb κ) (seq : SeqNumber) :
    ({ t with pendingReset := some seq } : Tcb κ).replies ≤ t.replies + 1 :=
  Nat.add_le_add_right (Nat.le_add_right _ _) 1

/-- A challenge ACK is one less to come. -/
theorem challengeAck_cases (t : Tcb κ) (now : Instant) :
    t.challengeAck now = t ∨ (t.challengeAck now).challengesLeft now < t.challengesLeft now := by
  by_cases hold : now.saturatingMicrosSince t.challengeWindowStart ≥ 1000000
  · -- a new second begins
    have he : t.challengeAck now =
        { t with challengeWindowStart := now, challengeCount := 1, needsAck := true } := by
      unfold challengeAck
      rw [if_pos hold]
      exact if_pos (by decide : 0 < challengeAckLimit)
    have hself : ¬ now.saturatingMicrosSince now ≥ 1000000 := by
      rw [show now.saturatingMicrosSince now = 0 from Nat.sub_self _]
      decide
    right
    calc (t.challengeAck now).challengesLeft now = challengeAckLimit - 1 := by
          rw [he]
          exact if_neg hself
      _ < challengeAckLimit := by decide
      _ = t.challengesLeft now := (if_pos hold).symm
  have he : t.challengeAck now = if t.challengeCount < challengeAckLimit then
      { t with challengeCount := t.challengeCount + 1, needsAck := true } else t := by
    unfold challengeAck
    rw [if_neg hold]
  by_cases hfew : t.challengeCount < challengeAckLimit
  · right
    calc (t.challengeAck now).challengesLeft now = challengeAckLimit - (t.challengeCount + 1) := by
          rw [he, if_pos hfew]
          exact if_neg hold
      _ < challengeAckLimit - t.challengeCount := Nat.sub_lt_sub_left hfew (Nat.lt_succ_self _)
      _ = t.challengesLeft now := (if_neg hold).symm
  · left
    rw [he, if_neg hfew]

variable [CongestionControl κ] [DupAcks κ]

theorem triggersLeft_le (t : Tcb κ) : t.triggersLeft ≤ 1 := by
  unfold triggersLeft
  split
  · exact le_rfl
  · exact Nat.zero_le 1

/-- What a transmission or a segment leaves of the chances; `k` is the fast retransmit it may
bring back. -/
theorem chances_le {k : Nat} (htrigger : u.triggersLeft ≤ t.triggersLeft + k)
    (hchallenge : u.challengesLeft now ≤ t.challengesLeft now)
    (hseen : t.peerFinSeen = true → u.peerFinSeen = true) (hsyn : u.synsLeft ≤ t.synsLeft) :
    u.chances now ≤ t.chances now + k := by
  have hfin : (!u.peerFinSeen).toNat ≤ (!t.peerFinSeen).toNat := by
    cases ht : t.peerFinSeen with
    | true => rw [hseen ht]
    | false => exact Bool.toNat_le _
  rw [chances, chances]
  omega

/-- The fast retransmit has been set off, or the FIN of the peer has come. -/
theorem chances_lt (htrigger : u.triggersLeft ≤ t.triggersLeft)
    (hchallenge : u.challengesLeft now ≤ t.challengesLeft now)
    (hseen : t.peerFinSeen = true → u.peerFinSeen = true) (hsyn : u.synsLeft ≤ t.synsLeft)
    (h : u.triggersLeft < t.triggersLeft ∨ t.peerFinSeen = false ∧ u.peerFinSeen = true) :
    u.chances now < t.chances now := by
  have hfin : (!u.peerFinSeen).toNat ≤ (!t.peerFinSeen).toNat := by
    cases ht : t.peerFinSeen with
    | true => rw [hseen ht]
    | false => exact Bool.toNat_le _
  rw [chances, chances]
  rcases h with h | ⟨h1, h2⟩
  · omega
  · rw [h1, h2]
    change _ + 0 + _ < _ + 1 + _
    omega

omit [CongestionControl κ] [DupAcks κ] in
theorem challengesLeft_fixture (h : u.fixture = t.fixture) (now : Instant) :
    u.challengesLeft now = t.challengesLeft now := by
  have hstart : u.challengeWindowStart = t.challengeWindowStart := congrArg (fun x => x.2.1) h
  have hcount : u.challengeCount = t.challengeCount := congrArg (fun x => x.2.2.1) h
  rw [challengesLeft, challengesLeft, hstart, hcount]

/-! ## An ACK of nothing new -/

/-- What it leaves, before the text of its segment is looked at. -/
structure Heeds (t u : Tcb κ) : Prop where
  needsAck : u.needsAck = t.needsAck
  sendProbe : u.sendProbe.toNat ≤ t.sendProbe.toNat
  rexmit : u.scoreboard.rexmit = t.scoreboard.rexmit
  flag : u.retransmit = t.retransmit ∧ u.triggersLeft ≤ t.triggersLeft ∨ u.triggersLeft < t.triggersLeft

theorem Heeds.trans {v : Tcb κ} (h : Heeds t u) (h' : Heeds u v) : Heeds t v where
  needsAck := h'.needsAck.trans h.needsAck
  sendProbe := h'.sendProbe.trans h.sendProbe
  rexmit := h'.rexmit.trans h.rexmit
  flag := by
    rcases h.flag with ⟨hr, ht⟩ | ht
    · rcases h'.flag with ⟨hr', ht'⟩ | ht'
      · exact .inl ⟨hr'.trans hr, ht'.trans ht⟩
      · exact .inr (ht'.trans_le ht)
    · rcases h'.flag with ⟨-, ht'⟩ | ht'
      · exact .inr (ht'.trans_lt ht)
      · exact .inr (ht'.trans ht)

theorem heeds_updateWindow (t : Tcb κ) (q a : SeqNumber) (w : Nat) : Heeds t (t.updateWindow q a w) := by
  unfold updateWindow
  dsimp only
  split
  · exact ⟨rfl, Nat.zero_le _, rfl, .inl ⟨rfl, le_rfl⟩⟩
  · exact ⟨rfl, le_rfl, rfl, .inl ⟨rfl, le_rfl⟩⟩

/-- Under SACK the losses an ACK shows start a recovery, and nothing is resent at once. -/
theorem heeds_sackIngest (hs : t.sackEnabled = true) (now : Instant) (d : Bool) (blocks : List SackBlock) :
    Heeds t (t.sackIngest now d blocks) := by
  have hnone : ∀ u : Tcb κ, u.sackEnabled = true → u.triggersLeft = 0 := by
    intro u hu
    exact if_neg fun h => Bool.false_ne_true (h.1.symm.trans hu)
  have hflag : ∀ u : Tcb κ, u.sackEnabled = true → u.retransmit = t.retransmit →
      u.retransmit = t.retransmit ∧ u.triggersLeft ≤ t.triggersLeft ∨ u.triggersLeft < t.triggersLeft := by
    intro u hu hr
    exact .inl ⟨hr, (hnone u hu).trans_le (Nat.zero_le _)⟩
  simp only [sackIngest, sackDetect]
  split
  · split
    · split
      · exact ⟨rfl, le_rfl, rfl, hflag _ hs rfl⟩
      · exact ⟨rfl, le_rfl, rfl, hflag _ hs rfl⟩
    · split
      · exact ⟨rfl, le_rfl, rfl, hflag _ hs rfl⟩
      · exact ⟨rfl, le_rfl, rfl, hflag _ hs rfl⟩
  · exact ⟨rfl, le_rfl, rfl, hflag _ hs rfl⟩

/-- Without SACK the third duplicate has the oldest segment resent, and no further one does. -/
theorem heeds_legacyDupAck (hs : t.sackEnabled = false) (now : Instant) : Heeds t (t.legacyDupAck now) := by
  have hcount := DupAcks.counts t.cc now t.inflight
  have htrigger : ∀ u : Tcb κ, u.sackEnabled = false → u.triggersLeft = if DupAcks.dupAcks u.cc < 3 then 1 else 0 := by
    intro u hu
    rw [triggersLeft, hu]
    simp only [true_and]
  have hcc : DupAcks.dupAcks (t.legacyDupAck now).cc = min (DupAcks.dupAcks t.cc + 1) 255 := by
    rw [cc_legacyDupAck]
    exact hcount
  have hoff : (t.legacyDupAck now).sackEnabled = false := by
    have hcore := t.core_legacyDupAck now
    exact (congrArg (fun c : Core => c.sackEnabled) hcore).trans hs
  have hafter := htrigger _ hoff
  have hbefore := htrigger t hs
  rw [hcc] at hafter
  have hfires : (t.noteDupAck now).2 = decide (DupAcks.dupAcks t.cc = 2) := DupAcks.fires t.cc now t.inflight
  have hflag : (t.legacyDupAck now).retransmit = t.retransmit ∧ (t.legacyDupAck now).triggersLeft ≤ t.triggersLeft ∨
      (t.legacyDupAck now).triggersLeft < t.triggersLeft := by
    rw [hafter, hbefore]
    by_cases h : DupAcks.dupAcks t.cc = 2
    · exact .inr (by rw [h]; decide)
    · refine .inl ⟨?_, ?_⟩
      · simp only [legacyDupAck, hfires, decide_eq_false h, Bool.false_eq_true, if_false]
        rfl
      · split <;> split <;> omega
  refine ⟨?_, ?_, congrArg Scoreboard.rexmit (t.legacyDupAck_frame now).1, hflag⟩
  · simp only [legacyDupAck]
    split <;> rfl
  · simp only [legacyDupAck]
    split <;> exact le_rfl

theorem heeds_acks (hgt : ¬ p.ack.gt t.sndUna = true) (now : Instant) : Heeds t (t.acks now p) := by
  rw [acks, advanced, if_neg hgt]
  refine (t.heeds_updateWindow p.seq p.ack p.window).trans ?_
  generalize t.updateWindow p.seq p.ack p.window = v
  unfold detected
  split
  · rename_i hs
    exact heeds_sackIngest hs now _ _
  · rename_i hs
    split
    · exact heeds_legacyDupAck (Bool.eq_false_iff.mpr hs) now
    · exact ⟨rfl, le_rfl, rfl, .inl ⟨rfl, le_rfl⟩⟩

/-! ## The text of a segment -/

omit [CongestionControl κ] [DupAcks κ] in
theorem onPendingFin_cases (t : Tcb κ) :
    t.onPendingFin = t ∨ t.peerFinSeen = false ∧ t.onPendingFin.peerFinSeen = true := by
  unfold onPendingFin
  split
  · split
    · rename_i hdue
      rw [Bool.and_eq_true, Bool.not_eq_true'] at hdue
      exact .inr ⟨hdue.2, rfl⟩
    · exact .inl rfl
  · exact .inl rfl

omit [CongestionControl κ] [DupAcks κ] in
theorem recomputeClosingState_frame (t : Tcb κ) (now : Instant) :
    (t.recomputeClosingState now).toOwed = t.toOwed ∧
      (t.recomputeClosingState now).peerFinSeen = t.peerFinSeen := by
  simp only [recomputeClosingState]
  split
  · split <;> exact ⟨rfl, rfl⟩
  · exact ⟨rfl, rfl⟩

omit [CongestionControl κ] [DupAcks κ] in
/-- An ACK is owed for octets and for a FIN, and for a FIN remembered from before. -/
theorem onText_owed (t : Tcb κ) (now : Instant) (p : TcpPacket) (ce : Bool) :
    ((t.onText now p ce).needsAck = true → t.needsAck = true ∨ p.segLen ≠ 0 ∨
        t.peerFinSeen = false ∧ (t.onText now p ce).peerFinSeen = true) ∧
      (t.onText now p ce).sendProbe = t.sendProbe := by
  have hschedule : ∀ (u : Tcb κ) (clean : Bool), (u.scheduleAck now clean).sendProbe = u.sendProbe := by
    intro u clean
    simp only [scheduleAck, armDelayedAck]
    split
    · split
      · rfl
      · split <;> rfl
    · rfl
  have hdata : (t.onData now p ce).sendProbe = t.sendProbe := by
    simp only [onData]
    split
    · rfl
    · rw [hschedule]
      split <;> rfl
  have hfin : ∀ u : Tcb κ, (u.onFin p).sendProbe = u.sendProbe := by
    intro u
    unfold onFin
    split <;> rfl
  have hpending : ∀ u : Tcb κ, u.onPendingFin.sendProbe = u.sendProbe := by
    intro u
    unfold onPendingFin
    split
    · split <;> rfl
    · rfl
  obtain ⟨howed, hseen⟩ := recomputeClosingState_frame (((t.onData now p ce).onFin p).onPendingFin) now
  have hprobe : (t.onText now p ce).sendProbe = t.sendProbe := by
    rw [onText, howed, hpending, hfin, hdata]
  refine ⟨fun hack => ?_, hprobe⟩
  by_cases hlen : p.segLen = 0
  · have hbare : (t.onData now p ce).onFin p = t := by
      have hempty : p.payload.isEmpty = true := by
        rw [Bytes.isEmpty_iff]
        unfold TcpPacket.segLen at hlen
        omega
      have hno : p.flags.fin = false := by
        cases hf : p.flags.fin with
        | false => rfl
        | true =>
          rw [TcpPacket.segLen, hf] at hlen
          exact absurd hlen (Nat.succ_ne_zero _)
      rw [onData, if_pos hempty, onFin, hno, if_neg Bool.false_ne_true]
    rw [hbare] at howed hseen
    have hack' : t.onPendingFin.needsAck = true := by
      rw [← howed, ← hack, onText, hbare]
    have hseen' : (t.onText now p ce).peerFinSeen = t.onPendingFin.peerFinSeen := by rw [onText, hbare, hseen]
    rcases t.onPendingFin_cases with he | ⟨h1, h2⟩
    · exact .inl (he ▸ hack')
    · exact .inr (.inr ⟨h1, hseen'.trans h2⟩)
  · exact .inr (.inl hlen)

end Tcb

namespace Host

variable {κ : Type} [CongestionControl κ] [DupAcks κ] {r : Host κ} {t : Tcb κ} {now : Instant} {p : TcpPacket}

/-! ## What a segment does -/

theorem ahead_le (hst : t.state.stage ≤ r.tcb.state.stage) (hch : t.chances now ≤ r.tcb.chances now) :
    (r.follow t).ahead now ≤ r.ahead now := by
  have huna : r.una ≤ (r.follow t).una := Nat.le_add_right _ _
  change 2 * (t.state.stage + (r.sent.length + 2 - (r.follow t).una)) + t.chances now ≤
    2 * (r.tcb.state.stage + (r.sent.length + 2 - r.una)) + r.tcb.chances now
  omega

/-- One chance less. -/
theorem ahead_chance (hst : t.state.stage ≤ r.tcb.state.stage) (hch : t.chances now < r.tcb.chances now) :
    (r.follow t).ahead now < r.ahead now := by
  have huna : r.una ≤ (r.follow t).una := Nat.le_add_right _ _
  change 2 * (t.state.stage + (r.sent.length + 2 - (r.follow t).una)) + t.chances now <
    2 * (r.tcb.state.stage + (r.sent.length + 2 - r.una)) + r.tcb.chances now
  omega

/-- A later stage may bring the fast retransmit back. -/
theorem ahead_stage (hst : t.state.stage < r.tcb.state.stage) (hch : t.chances now ≤ r.tcb.chances now + 1) :
    (r.follow t).ahead now < r.ahead now := by
  have huna : r.una ≤ (r.follow t).una := Nat.le_add_right _ _
  change 2 * (t.state.stage + (r.sent.length + 2 - (r.follow t).una)) + t.chances now <
    2 * (r.tcb.state.stage + (r.sent.length + 2 - r.una)) + r.tcb.chances now
  omega

/-- So may octets acknowledged. -/
theorem ahead_una (hok : (r.follow t).Ok) (huna : r.una < (r.follow t).una)
    (hst : t.state.stage ≤ r.tcb.state.stage) (hch : t.chances now ≤ r.tcb.chances now + 1) :
    (r.follow t).ahead now < r.ahead now := by
  have hle : (r.follow t).una + (r.follow t).tcb.toSendSpace.outstanding ≤ 2 + r.sent.length := hok.sending.nxt_le
  change 2 * (t.state.stage + (r.sent.length + 2 - (r.follow t).una)) + t.chances now <
    2 * (r.tcb.state.stage + (r.sent.length + 2 - r.una)) + r.tcb.chances now
  omega

/-- A segment that moves nothing but what is owed. -/
theorem hears_still (hst : t.state = r.tcb.state) (hch : t.chances now = r.tcb.chances now)
    (htoil : t.toil = r.tcb.toil) (hreplies : t.replies ≤ r.tcb.replies + p.weight) : r.Hearing now p t :=
  .level (ahead_le (by rw [hst]) hch.le) htoil.le hreplies

/-- In SYN-SENT a SYN ends the state, and what is no SYN is owed at most a RST. -/
theorem hears_synSent (hst : r.tcb.state = .synSent) (now : Instant) (p : TcpPacket) :
    r.Hearing now p (r.tcb.onSegmentSynSent p) := by
  have hstage : r.tcb.state.stage = 2 := by rw [hst]; rfl
  have hleaves : ∀ t : Tcb κ, t.state ≠ .synSent → t.challengesLeft now = r.tcb.challengesLeft now →
      t.peerFinSeen = r.tcb.peerFinSeen → r.Hearing now p t := by
    intro t hlate hchallenge hseen
    refine .nearer (ahead_stage ?_ (Tcb.chances_le ?_ hchallenge.le (fun h => hseen.trans h) ?_))
    · have := Tcb.stage_lt.mpr hlate
      omega
    · exact t.triggersLeft_le.trans (Nat.le_add_left 1 _)
    · exact (Tcb.synsLeft_late hlate).trans_le (Nat.zero_le _)
  have hgreeting := r.tcb.onSegmentSynSent_greeting p
  generalize r.tcb.onSegmentSynSent p = u at hgreeting
  cases hgreeting with
  | ignored => exact hears_still rfl rfl rfl (Nat.le_add_right _ _)
  | refused hrst =>
    have hweight : 1 ≤ p.weight := by
      rw [TcpPacket.weight, if_neg (by simp [hrst])]
      split <;> decide
    exact hears_still rfl rfl rfl ((r.tcb.replies_reset p.ack).trans (Nat.add_le_add_left hweight _))
  | reset => exact hleaves _ (by simp) rfl rfl
  | opened => exact hleaves _ (by simp) rfl rfl
  | crossed => exact hleaves _ (by simp) rfl rfl

/-- An ACK that acknowledges something brings the end nearer, whatever else its segment does. -/
theorem hears_acked (hok : (r.follow t).Ok) (huna : r.una < (r.follow t).una) (hlate : r.tcb.state ≠ .synSent)
    (hst : t.state.stage ≤ r.tcb.state.stage) (hfix : t.fixture = r.tcb.fixture)
    (hseen : r.tcb.peerFinSeen = true → t.peerFinSeen = true) : r.Hearing now p t := by
  have hlate' : t.state ≠ .synSent := Tcb.stage_lt.mp (hst.trans (Tcb.stage_lt.mpr hlate))
  refine .nearer (ahead_una hok huna hst (Tcb.chances_le ?_ (Tcb.challengesLeft_fixture hfix now).le hseen ?_))
  · exact t.triggersLeft_le.trans (Nat.le_add_left 1 _)
  · exact (Tcb.synsLeft_late hlate').trans_le (Nat.zero_le _)

/-- A segment taken in that acknowledges nothing new. -/
theorem hears_heeded {u : Tcb κ} (hlate : r.tcb.state ≠ .synSent) (hst : t.state.stage ≤ r.tcb.state.stage)
    (hfix : t.fixture = r.tcb.fixture) (hseen : r.tcb.peerFinSeen = true → t.peerFinSeen = true)
    (hheeds : Tcb.Heeds r.tcb u) (hsend : t.toSendSpace = r.tcb.toSendSpace) (hrec : t.toLossRecovery = u.toLossRecovery)
    (hsack : t.sackEnabled = u.sackEnabled) (hprobe : t.sendProbe = u.sendProbe)
    (hack : t.needsAck = true → u.needsAck = true ∨ p.segLen ≠ 0 ∨ r.tcb.peerFinSeen = false ∧ t.peerFinSeen = true)
    (hrst : p.flags.rst = false) : r.Hearing now p t := by
  have hlate' : t.state ≠ .synSent := Tcb.stage_lt.mp (hst.trans (Tcb.stage_lt.mpr hlate))
  have hsyn : t.synsLeft ≤ r.tcb.synsLeft := (Tcb.synsLeft_late hlate').trans_le (Nat.zero_le _)
  have hchallenge := Tcb.challengesLeft_fixture hfix now
  have htrigger : t.triggersLeft = u.triggersLeft := by
    rw [Tcb.triggersLeft, Tcb.triggersLeft, hsack, hrec]
  by_cases hnew : t.triggersLeft < r.tcb.triggersLeft ∨ r.tcb.peerFinSeen = false ∧ t.peerFinSeen = true
  · refine .nearer (ahead_chance hst (Tcb.chances_lt ?_ hchallenge.le hseen hsyn hnew))
    rw [htrigger]
    exact hheeds.flag.elim (fun h => h.2) fun h => h.le
  rw [not_or, htrigger] at hnew
  obtain ⟨hflag, hle⟩ := hheeds.flag.resolve_right hnew.1
  refine .level (ahead_le hst (Tcb.chances_le (k := 0) (htrigger.trans_le hle) hchallenge.le hseen hsyn)) ?_ ?_
  · refine Tcb.toil_congr hsend ((congrArg LossRecovery.retransmit hrec).trans hflag) ?_ ?_
    · rw [hprobe]
      exact hheeds.sendProbe
    · exact (congrArg (fun l : LossRecovery κ => l.scoreboard.rexmit) hrec).trans hheeds.rexmit
  · refine Tcb.replies_le hst (congrArg (fun x => x.2.2.2) hfix) fun _ h => ?_
    rcases hack h with h | h | h
    · exact .inl (hheeds.needsAck.symm.trans h)
    · right
      rw [TcpPacket.weight, hrst, if_neg Bool.false_ne_true, if_neg h]
    · exact absurd h hnew.2

omit [DupAcks κ] in
/-- No segment past SYN-SENT leads back, and a FIN that has been seen stays seen. -/
theorem forward_onSegment (hss : r.tcb.state ≠ .synSent) (now : Instant) (p : TcpPacket) (ce : Bool) :
    (r.tcb.onSegment now p ce).state.stage ≤ r.tcb.state.stage ∧
      (r.tcb.peerFinSeen = true → (r.tcb.onSegment now p ce).peerFinSeen = true) := by
  have hcore := r.tcb.core_onSegment now p ce
  have htakes := r.tcb.core.onSegment_takes p hss
  rw [← hcore] at htakes
  change (r.tcb.onSegment now p ce).core.state.stage ≤ r.tcb.core.state.stage ∧
    (r.tcb.core.peerFinSeen = true → (r.tcb.onSegment now p ce).core.peerFinSeen = true)
  generalize (r.tcb.onSegment now p ce).core = c at htakes
  cases htakes with
  | dropped ts _ => exact ⟨le_rfl, id⟩
  | reset _ _ => exact ⟨Nat.zero_le _, id⟩
  | synAgain _ => exact ⟨le_rfl, id⟩
  | badAck ts _ _ _ => exact ⟨Nat.zero_le _, id⟩
  | taken _ _ =>
    refine ⟨(Tcb.stage_closing _ _ _).trans ?_, fun h => RecvSpace.text_seen h _ p⟩
    change (if r.tcb.core.state = .synReceived then State.established else r.tcb.core.state).stage ≤ _
    split
    · rename_i hrec
      rw [hrec]
      decide
    · exact le_rfl

/-- The ACK of the SYN-ACK. -/
theorem hears_opens (hrec : r.tcb.state = .synReceived) (hv : r.tcb.core.validAck p = true) {ce : Bool}
    (ht : ((r.tcb.advanceTsRecent p).opened p).onText now p ce = t) (hok : (r.follow t).Ok)
    (hst : t.state.stage ≤ r.tcb.state.stage) (hseen : r.tcb.peerFinSeen = true → t.peerFinSeen = true) :
    r.Hearing now p t := by
  have hrec' : r.tcb.core.state = .synReceived := hrec
  rw [Core.validAck, if_pos hrec', Bool.and_eq_true] at hv
  have hgt := (SeqNumber.gt_iff _ _).mp hv.1
  have hfix : t.fixture = r.tcb.fixture := by
    rw [← ht, Tcb.fixture_onText, Tcb.fixture_opened, Tcb.fixture_advanceTsRecent]
  have hsend : t.sndUna = p.ack := by
    have hcore := ((r.tcb.advanceTsRecent p).opened p).core_onText now p ce
    have hwindow := ({ r.tcb.advanceTsRecent p with sndUna := p.ack } : Tcb κ).core_updateWindow p.seq p.ack p.window
    rw [ht] at hcore
    exact (congrArg (fun c : Core => c.sndUna) hcore).trans (congrArg (fun c : Core => c.sndUna) hwindow)
  refine hears_acked hok ?_ (by rw [hrec]; simp) hst hfix hseen
  change r.una < r.una + t.sndUna.offsetFrom r.tcb.sndUna
  rw [hsend]
  exact Nat.lt_add_of_pos_right hgt.1

/-- A segment taken in past the handshake. -/
theorem hears_taken (hss : r.tcb.state ≠ .synSent) (hrec : r.tcb.state ≠ .synReceived) (hrst : p.flags.rst = false)
    {ce : Bool} (ht : ((r.tcb.advanceTsRecent p).acks now p).onText now p ce = t) (hok : (r.follow t).Ok)
    (hst : t.state.stage ≤ r.tcb.state.stage) (hseen : r.tcb.peerFinSeen = true → t.peerFinSeen = true) :
    r.Hearing now p t := by
  have hfix : t.fixture = r.tcb.fixture := by
    rw [← ht, Tcb.fixture_onText, Tcb.fixture_acks, Tcb.fixture_advanceTsRecent]
  obtain ⟨huna, -⟩ := r.tcb.taken_send now p hrec ce ht.symm
  by_cases hgt : p.ack.gt r.tcb.sndUna = true
  · refine hears_acked hok ?_ hss hst hfix hseen
    change r.una < r.una + t.sndUna.offsetFrom r.tcb.sndUna
    rw [huna, Tcb.ackedUna, if_pos hgt]
    exact Nat.lt_add_of_pos_right ((SeqNumber.gt_iff _ _).mp hgt).1
  · have hcore := r.tcb.core_taken now p hrec ce
    rw [ht] at hcore
    obtain ⟨ts, hts⟩ := r.tcb.advanceTsRecent_spare p
    have hgt' : ¬ p.ack.gt (r.tcb.advanceTsRecent p).sndUna = true := by
      rw [hts]
      exact hgt
    have hheeds : Tcb.Heeds r.tcb (r.tcb.advanceTsRecent p) := by
      rw [hts]
      exact ⟨rfl, le_rfl, rfl, .inl ⟨rfl, le_rfl⟩⟩
    have hsend : t.toSendSpace = r.tcb.toSendSpace := by
      have hrec' : ¬ r.tcb.core.state = .synReceived := hrec
      have hgt'' : ¬ p.ack.gt r.tcb.core.sndUna = true := hgt
      refine (congrArg Core.toSendSpace hcore).trans ?_
      change (if r.tcb.core.state = .synReceived then _ else
        if p.ack.gt r.tcb.core.sndUna = true then _ else r.tcb.toSendSpace) = _
      rw [if_neg hrec', if_neg hgt'']
    have howed := ((r.tcb.advanceTsRecent p).acks now p).onText_owed now p ce
    rw [ht] at howed
    have hacks : ((r.tcb.advanceTsRecent p).acks now p).core = (r.tcb.advanceTsRecent p).core.acked p :=
      (r.tcb.advanceTsRecent p).core_acks now p (by rw [hts]; exact hrec)
    have hfin : ((r.tcb.advanceTsRecent p).acks now p).peerFinSeen = r.tcb.peerFinSeen := by
      refine (congrArg (fun c : Core => c.peerFinSeen) hacks).trans ?_
      rw [hts]
      rfl
    refine hears_heeded hss hst hfix hseen (hheeds.trans (Tcb.heeds_acks hgt' now)) hsend ?_ ?_ howed.2 ?_ hrst
    · rw [← ht, Tcb.recovery_onText]
    · refine (congrArg (fun c : Core => c.sackEnabled) hcore).trans ?_
      refine Eq.trans ?_ (congrArg (fun c : Core => c.sackEnabled) hacks).symm
      rw [hts]
      rfl
    · rw [← hfin]
      exact howed.1

/-- Unless it is an echo, no segment lifts the counts by more than it weighs. -/
theorem Ok.hears (hok : r.Ok) (now : Instant) (p : TcpPacket) (ce : Bool) (hno : ¬ r.tcb.Echoes p) :
    r.Hearing now p (r.tcb.onSegment now p ce) := by
  by_cases hss : r.tcb.state = .synSent
  · rw [Tcb.onSegment, if_pos hss]
    exact hears_synSent hss now p
  have hok' : (r.follow (r.tcb.onSegment now p ce)).Ok := hok.segment (r.tcb.core_onSegment now p ce)
  obtain ⟨hst, hseen⟩ := r.forward_onSegment hss now p ce
  have hself : r.Hearing now p r.tcb := hears_still rfl rfl rfl (Nat.le_add_right _ _)
  have hchallenge : r.Hearing now p (r.tcb.challengeAck now) := by
    rcases r.tcb.challengeAck_cases now with he | hlt
    · rw [he]
      exact hself
    · obtain ⟨needsAck, start, count, he, -⟩ := r.tcb.challengeAck_spare now
      rw [he] at hlt ⊢
      refine .nearer (ahead_chance le_rfl ?_)
      change r.tcb.triggersLeft + _ + _ + 2 * r.tcb.synsLeft < r.tcb.triggersLeft + _ + _ + 2 * r.tcb.synsLeft
      exact Nat.add_lt_add_right (Nat.add_lt_add_right (Nat.add_lt_add_left hlt _) _) _
  -- an ACK in return, which only sequence numbers pay for
  have hacks : ∀ u : Tcb κ, u.state = r.tcb.state → u.chances now = r.tcb.chances now → u.toil = r.tcb.toil →
      u.pendingReset = r.tcb.pendingReset → p.flags.rst = false →
      (r.tcb.state = .timeWait ∨ r.tcb.pawsStale p = true ∨
        r.tcb.toRecvSpace.segmentAcceptable p.seq p.segLen = false ∨
          r.tcb.state ≠ .synReceived ∧ p.flags.ack = true ∧ p.ack.gt r.tcb.sndNxt = true) →
      r.Hearing now p u := by
    intro u hu hch htoil hreset hrst hwhy
    refine hears_still hu hch htoil (Tcb.replies_le (by rw [hu]) hreset fun hopen _ => .inr ?_)
    rw [hu] at hopen
    have hlen : p.segLen ≠ 0 := fun hzero => hno ⟨hrst, hopen, hss, .inl ⟨hzero, hwhy⟩⟩
    rw [TcpPacket.weight, hrst, if_neg Bool.false_ne_true, if_neg hlen]
  generalize ht : r.tcb.onSegment now p ce = t at hok' hst hseen ⊢
  rw [Tcb.onSegment, if_neg hss] at ht
  by_cases hrst : p.flags.rst = true
  · rw [if_pos hrst, Tcb.onRst] at ht
    split at ht
    · split at ht
      · subst ht
        refine .level (ahead_le (Nat.zero_le _) ?_) le_rfl ?_
        · exact Tcb.chances_le (k := 0) le_rfl le_rfl id (Nat.zero_le _)
        · exact Tcb.replies_le (Nat.zero_le _) rfl fun h => absurd rfl h
      · exact ht ▸ hchallenge
    · exact ht ▸ hself
  rw [if_neg hrst] at ht
  have hrst' : p.flags.rst = false := Bool.eq_false_iff.mpr hrst
  by_cases htw : r.tcb.state = .timeWait
  · rw [if_pos htw] at ht
    subst ht
    exact hacks _ rfl rfl rfl rfl hrst' (.inl htw)
  rw [if_neg htw] at ht
  by_cases hsyn : p.flags.syn = true
  · rw [if_pos hsyn, Tcb.onSyn] at ht
    split at ht
    · rename_i hdup
      rw [Bool.and_eq_true, decide_eq_true_eq, decide_eq_true_eq] at hdup
      subst ht
      refine .syn ?_ (ahead_le le_rfl (Tcb.chances_le (k := 0) le_rfl le_rfl id ?_))
      · rw [TcpPacket.bareSyn, hsyn, hrst']
        cases hack : p.flags.ack with
        | false => rfl
        | true =>
          refine absurd ⟨hrst', by rw [hdup.1]; simp, hss, .inr ⟨?_, hack⟩⟩ hno
          simp [Core.dupSyn, hdup.1, hdup.2, hsyn, hrst']
      · exact (Tcb.synsLeft_late (t := { r.tcb with sndNxt := r.tcb.iss }) hss).trans_le (Nat.zero_le _)
    · split at ht
      · exact ht ▸ hchallenge
      · exact ht ▸ hself
  rw [if_neg hsyn] at ht
  split at ht
  · rename_i hstale
    exact ht ▸ hacks _ rfl rfl rfl rfl hrst' (.inr (.inl hstale))
  split at ht
  · have hvalid : (r.tcb.advanceTsRecent p).core.validAck p = r.tcb.core.validAck p := by
      rw [Tcb.core_advanceTsRecent]
      rfl
    obtain ⟨ts, hts⟩ := r.tcb.advanceTsRecent_spare p
    have hstate : (r.tcb.advanceTsRecent p).state = r.tcb.state := by rw [hts]; rfl
    simp only [Tcb.onAcceptable] at ht
    by_cases hack : p.flags.ack = true
    · rw [if_pos hack, Tcb.onAck_eq, hvalid, hstate] at ht
      by_cases hv : r.tcb.core.validAck p = true
      · rw [if_pos hv] at ht
        by_cases hrec : r.tcb.state = .synReceived
        · rw [if_pos hrec] at ht
          exact hears_opens hrec hv ht hok' hst hseen
        · rw [if_neg hrec] at ht
          exact hears_taken hss hrec hrst' ht hok' hst hseen
      rw [if_neg hv] at ht
      by_cases hrec : r.tcb.state = .synReceived
      · rw [if_pos hrec] at ht
        rw [hts] at ht
        subst ht
        refine .nearer (ahead_stage ?_ ?_)
        · change 0 < r.tcb.state.stage
          rw [hrec]
          decide
        · exact Tcb.chances_le (t := r.tcb) (Nat.le_succ _) le_rfl id (Nat.zero_le _)
      · rw [if_neg hrec] at ht
        have hv' : ¬ (!p.ack.gt r.tcb.sndNxt) = true := by
          have hrec' : ¬ r.tcb.core.state = .synReceived := hrec
          rwa [Core.validAck, if_neg hrec'] at hv
        rw [hts] at ht
        refine ht ▸ hacks _ rfl rfl rfl rfl hrst' (.inr (.inr (.inr ⟨hrec, hack, ?_⟩)))
        rwa [Bool.not_eq_true', Bool.not_eq_false] at hv'
    · rw [if_neg hack, hts] at ht
      exact ht ▸ hears_still rfl rfl rfl (Nat.le_add_right _ _)
  · rename_i hacc
    exact ht ▸ hacks _ rfl rfl rfl rfl hrst' (.inr (.inr (.inl (Bool.eq_false_iff.mpr hacc))))

end Host

/-! ## What a transmission does -/

namespace Tcb

variable {κ : Type} [CongestionControl κ] {t : Tcb κ} {now : Instant}

/-- What is owed in return, and the challenge ACKs counted. -/
def tally (t : Tcb κ) : Bool × Option SeqNumber × Instant × Nat :=
  (t.needsAck, t.pendingReset, t.challengeWindowStart, t.challengeCount)

omit [CongestionControl κ] in
theorem tally_startRtx (t : Tcb κ) (now : Instant) : (t.startRtx now).tally = t.tally := by
  unfold startRtx
  split <;> rfl

theorem tally_paced (t : Tcb κ) (now : Instant) : (t.paced now).tally = t.tally := by
  simp only [paced, pace]
  split
  · rfl
  · split <;> rfl

theorem tally_gated (t : Tcb κ) (now : Instant) : (t.gated now).tally = t.tally := by
  have harm : ∀ u : Tcb κ, (u.armPersist now).tally = u.tally := by
    intro u
    unfold armPersist
    split <;> rfl
  unfold gated
  split
  · rw [harm, tally_paced]
  · exact t.tally_paced now

theorem tally_noteSent (t : Tcb κ) (now : Instant) (n room : Nat) : (t.noteSent now n room).tally = t.tally := by
  simp only [noteSent]
  split
  · split <;> rfl
  · split <;> rfl

/-- No source of the data path touches it. -/
theorem tally_source {q : Emit κ} (h : Source t now q) : q.1.tally = t.tally := by
  cases h with
  | resend _ _ _ _ _ => exact tally_startRtx _ now
  | resendFin _ _ _ _ _ _ _ => exact tally_startRtx _ now
  | repair seq n isRescue _ _ _ _ _ _ => exact tally_startRtx _ now
  | data n _ _ =>
    refine (tally_startRtx _ now).trans ((tally_noteSent _ now n _).trans ?_)
    exact t.lowered.tally_paced now
  | probe _ _ _ => exact t.lowered.tally_gated now
  | fin _ _ _ _ => exact (tally_startRtx _ now).trans (t.lowered.tally_gated now)
  | quiet _ => exact t.lowered.tally_gated now

theorem tally_idles {u : Tcb κ} (h : Idles t now u) : u.tally = t.tally := by
  cases h with
  | synReceived _ _ _ => rfl
  | timeWait _ => rfl
  | data _ _ => exact (t.clocked now).lowered.tally_gated now

/-- A transmission counts no challenge ACK. -/
theorem challenges_pollTransmit (t : Tcb κ) (now : Instant) :
    (t.pollTransmit now).1.tally.2.2 = t.tally.2.2 := by
  have hturn := t.pollTransmit_turn now
  generalize t.pollTransmit now = q at hturn ⊢
  cases hturn with
  | rst seq _ => rfl
  | mute _ _ => rfl
  | syn _ _ _ => exact congrArg (fun x => x.2.2) (tally_startRtx _ now)
  | synAgain _ _ _ _ => rfl
  | synWaits _ _ _ _ => rfl
  | synAck _ _ _ => exact congrArg (fun x => x.2.2) (tally_startRtx _ now)
  | synAckAgain _ _ _ _ => rfl
  | sends _ _ hs _ => exact congrArg (fun x => x.2.2) (tally_source hs)
  | @ack u _ hi _ => exact congrArg (fun x => x.2.2) (tally_idles hi)
  | idle _ hi _ => exact congrArg (fun x => x.2.2) (tally_idles hi)

theorem stage_finState (st : State) : (finState st).stage ≤ st.stage := by
  cases st <;> decide

/-- What is built carries ACK. -/
theorem bareSyn_build (t : Tcb κ) (seq : SeqNumber) (extra : TcpFlags) (payload : Bytes) :
    (t.build seq extra payload).2.parse.bareSyn = false := by
  obtain ⟨-, -, -, -, -, -, hack⟩ := t.build_spec seq extra payload
  change ((t.build seq extra payload).2.repr.flags.syn && !(t.build seq extra payload).2.repr.flags.ack && _) = false
  rw [hack, Bool.not_true, Bool.and_false, Bool.false_and]

omit [CongestionControl κ] in
theorem workload_eq (t : Tcb κ) : t.workload = t.toil + (t.pendingReset.isSome.toNat + t.needsAck.toNat) := by
  unfold workload owes toil
  omega

omit [CongestionControl κ] in
/-- What lowers the workload and leaves the replies alone is toil. -/
theorem toil_lt {u : Tcb κ} (h : u.workload < t.workload) (htally : u.tally = t.tally) : u.toil < t.toil := by
  have hack : u.needsAck = t.needsAck := congrArg (fun x => x.1) htally
  have hreset : u.pendingReset = t.pendingReset := congrArg (fun x => x.2.1) htally
  rw [workload_eq, workload_eq, hack, hreset] at h
  omega

/-- No source sends an opening SYN. -/
theorem bareSyn_source {q : Emit κ} (h : Source t now q) {d : Datagram} (hd : q.2 = some d) :
    d.parse.bareSyn = false := by
  cases h with
  | quiet _ => cases hd
  | _ =>
    cases hd
    exact bareSyn_build _ _ _ _

theorem toil_gated (t : Tcb κ) (now : Instant) : (t.lowered.gated now).toil ≤ t.toil := by
  have h := t.workload_gated now
  have htally := t.lowered.tally_gated now
  have hack : (t.lowered.gated now).needsAck = t.needsAck := congrArg (fun x => x.1) htally
  have hreset : (t.lowered.gated now).pendingReset = t.pendingReset := congrArg (fun x => x.2.1) htally
  rw [workload_eq, workload_eq, hack, hreset] at h
  omega

/-- The state in which the owed ACK is looked at. -/
theorem idles_open {u : Tcb κ} (h : Idles t now u) :
    u.toil ≤ t.toil ∧ u.state = t.state ∧ t.state ≠ .closed ∧ t.state ≠ .synSent := by
  cases h with
  | synReceived hst _ _ => exact ⟨le_rfl, rfl, by rw [hst]; simp, by rw [hst]; simp⟩
  | timeWait hst => exact ⟨le_rfl, rfl, by rw [hst]; simp, by rw [hst]; simp⟩
  | data hst _ =>
    have hcore := (t.clocked now).lowered.core_gated now
    refine ⟨(t.clocked now).toil_gated now, congrArg Core.state hcore, fun hc => ?_, fun hc => ?_⟩
    · rw [hc] at hst
      cases hst
    · rw [hc] at hst
      cases hst

/-- The pure ACK is the lightest answer but the RST. -/
theorem weight_ack (t : Tcb κ) (seq : SeqNumber) : (t.build seq {} Bytes.empty).2.parse.weight = 1 := by
  obtain ⟨-, -, hpayload, hfin, hsyn, hrst, -⟩ := t.build_spec seq {} Bytes.empty
  generalize (t.build seq {} Bytes.empty).2 = d at hpayload hfin hsyn hrst
  have hlen : d.parse.segLen = 0 := by
    change d.payload.len + d.repr.flags.syn.toNat + d.repr.flags.fin.toNat = 0
    rw [hpayload, hsyn, hfin]
    rfl
  change (if d.repr.flags.rst = true then 0 else if d.parse.segLen = 0 then 1 else 2) = 1
  rw [hrst, if_neg Bool.false_ne_true, if_pos hlen]

end Tcb

namespace Host

variable {κ : Type} [CongestionControl κ] [DupAcks κ] {r : Host κ} {now : Instant}

/-- What a transmission does to the counts. -/
inductive Utters (r : Host κ) (now : Instant) (q : Tcb.Emit κ) : Prop
  | silent : q.2 = none → (r.follow q.1).ahead now ≤ r.ahead now → q.1.toil ≤ r.tcb.toil →
      q.1.replies ≤ r.tcb.replies → Utters r now q
  | syn (d : Datagram) : q.2 = some d → (r.follow q.1).ahead now + 2 ≤ r.ahead now → Utters r now q
  | toils (d : Datagram) : q.2 = some d → d.parse.bareSyn = false → (r.follow q.1).ahead now ≤ r.ahead now →
      q.1.toil < r.tcb.toil → Utters r now q
  | replies (d : Datagram) : q.2 = some d → d.parse.bareSyn = false → (r.follow q.1).ahead now ≤ r.ahead now →
      q.1.toil ≤ r.tcb.toil → q.1.replies + d.parse.weight < r.tcb.replies → Utters r now q

/-- A transmission brings nothing back that happens once. -/
theorem Ok.ahead_poll (hok : r.Ok) (now : Instant) (hss : r.tcb.state ≠ .synSent) :
    (r.follow (r.tcb.pollTransmit now).1).ahead now ≤ r.ahead now := by
  have hp := hok.polls now
  have hcc := r.tcb.cc_pollTransmit now
  have htally := r.tcb.challenges_pollTransmit now
  generalize r.tcb.pollTransmit now = q at hp hcc htally ⊢
  obtain ⟨t, o⟩ := q
  dsimp only at hp hcc htally ⊢
  have hdups : DupAcks.dupAcks t.cc = DupAcks.dupAcks r.tcb.cc := by
    rcases hcc with h | ⟨q, n, f, b, h⟩
    · rw [h]
    · rw [h, DupAcks.onTransmit]
  have hgoal : t.state.stage ≤ r.tcb.state.stage → t.toOptions = r.tcb.toOptions →
      t.peerFinSeen = r.tcb.peerFinSeen → (r.follow t).ahead now ≤ r.ahead now := by
    intro hst hopts hseen
    have hlate : t.state ≠ .synSent := Tcb.stage_lt.mp (hst.trans (Tcb.stage_lt.mpr hss))
    have hstart : t.challengeWindowStart = r.tcb.challengeWindowStart := congrArg Prod.fst htally
    have hcount : t.challengeCount = r.tcb.challengeCount := congrArg Prod.snd htally
    refine ahead_le hst (Tcb.chances_le (k := 0) ?_ ?_ (fun h => hseen.trans h) ?_)
    · rw [Tcb.triggersLeft, Tcb.triggersLeft, hopts, hdups]
      exact le_rfl
    · rw [Tcb.challengesLeft, Tcb.challengesLeft, hstart, hcount]
    · exact (Tcb.synsLeft_late hlate).trans_le (Nat.zero_le _)
  have hsame : t.core = r.tcb.core → (r.follow t).ahead now ≤ r.ahead now := by
    intro hc
    have hst : t.state = r.tcb.state := congrArg Core.state hc
    exact hgoal (by rw [hst]) (congrArg Core.toOptions hc) (congrArg (fun c : Core => c.peerFinSeen) hc)
  cases hp with
  | idle hc => exact hsame hc
  | rst _ _ hc => exact hsame hc
  | syn hst _ => exact absurd hst hss
  | segment t₀ _ _ hs hc =>
    refine hgoal ?_ (congrArg Core.toOptions hc) (congrArg (fun c : Core => c.peerFinSeen) hc)
    have hst : t.state = _ := congrArg Core.state hc
    rw [hst]
    change State.stage _ ≤ r.tcb.core.state.stage
    cases hs with
    | fin => exact Tcb.stage_finState _
    | _ => exact le_rfl

/-- The two SYNs of SYN-SENT. -/
theorem utters_syn (hst : r.tcb.state = .synSent) (now : Instant) {t : Tcb κ} {d : Datagram}
    (hsame : t.state = r.tcb.state) (htrigger : t.triggersLeft = r.tcb.triggersLeft)
    (htally : t.tally = r.tcb.tally) (hseen : t.peerFinSeen = r.tcb.peerFinSeen)
    (hsyn : (decide (t.sndNxt = t.iss)).toNat + t.retransmit.toNat <
      (decide (r.tcb.sndNxt = r.tcb.iss)).toNat + r.tcb.retransmit.toNat) : r.Utters now (t, some d) := by
  refine .syn d rfl ?_
  have huna : r.una ≤ (r.follow t).una := Nat.le_add_right _ _
  have hstart : t.challengeWindowStart = r.tcb.challengeWindowStart := congrArg (fun x => x.2.2.1) htally
  have hcount : t.challengeCount = r.tcb.challengeCount := congrArg (fun x => x.2.2.2) htally
  have hchallenge : t.challengesLeft now = r.tcb.challengesLeft now := by
    rw [Tcb.challengesLeft, Tcb.challengesLeft, hstart, hcount]
  have hleft : t.synsLeft < r.tcb.synsLeft := by
    rw [Tcb.synsLeft, Tcb.synsLeft, if_pos hst, if_pos (hsame.trans hst)]
    exact hsyn
  change 2 * (t.state.stage + (r.sent.length + 2 - (r.follow t).una)) + t.chances now + 2 ≤
    2 * (r.tcb.state.stage + (r.sent.length + 2 - r.una)) + r.tcb.chances now
  rw [Tcb.chances, Tcb.chances, hsame, htrigger, hseen, hchallenge]
  omega

/-- Every transmission lowers the counts by more than what it sends weighs. -/
theorem Ok.utters (hok : r.Ok) (hboard : r.Board) (now : Instant) : r.Utters now (r.tcb.pollTransmit now) := by
  have hturn := r.tcb.pollTransmit_turn now
  have hahead := hok.ahead_poll now
  have hwork := workload_lt now hok hboard
  generalize r.tcb.pollTransmit now = q at hturn hahead hwork ⊢
  cases hturn with
  | rst seq hp =>
    refine .replies _ rfl rfl (ahead_le le_rfl le_rfl) le_rfl ?_
    rw [Tcb.replies, Tcb.replies, hp]
    exact Nat.lt_succ_self _
  | mute _ _ => exact .silent rfl (ahead_le le_rfl le_rfl) le_rfl le_rfl
  | syn _ hst hn =>
    have hless : (decide (r.tcb.iss + 1 = r.tcb.iss)).toNat + r.tcb.retransmit.toNat <
        (decide (r.tcb.sndNxt = r.tcb.iss)).toNat + r.tcb.retransmit.toNat := by
      rw [decide_eq_true hn, decide_eq_false (SeqNumber.add_ne_self _ (by decide))]
      exact Nat.add_lt_add_right Nat.one_pos _
    unfold Tcb.startRtx
    split
    · exact utters_syn hst now rfl rfl rfl rfl hless
    · exact utters_syn hst now rfl rfl rfl rfl hless
  | synAgain _ hst hn hr =>
    refine utters_syn hst now rfl rfl rfl rfl ?_
    rw [hr]
    exact Nat.lt_succ_self _
  | synWaits _ _ _ _ => exact .silent rfl (ahead_le le_rfl le_rfl) le_rfl le_rfl
  | synAck _ hst _ =>
    have hss : r.tcb.state ≠ .synSent := by rw [hst]; simp
    exact .toils _ rfl (Tcb.bareSyn_build _ _ _ _) (hahead hss) (Tcb.toil_lt (hwork rfl) (Tcb.tally_startRtx _ now))
  | synAckAgain _ hst _ _ =>
    have hss : r.tcb.state ≠ .synSent := by rw [hst]; simp
    exact .toils _ rfl (Tcb.bareSyn_build _ _ _ _) (hahead hss) (Tcb.toil_lt (hwork rfl) rfl)
  | sends _ hst hs he =>
    have hss : r.tcb.state ≠ .synSent := fun hc => by rw [hc] at hst; cases hst
    obtain ⟨d, hd⟩ := Option.isSome_iff_exists.mp he
    have htally := Tcb.tally_source hs
    exact .toils d hd (Tcb.bareSyn_source hs hd) (hahead hss) (Tcb.toil_lt (hwork he) htally)
  | @ack u _ hi hack =>
    obtain ⟨htoil, hst, hopen, hss⟩ := Tcb.idles_open hi
    have hreset : u.pendingReset = r.tcb.pendingReset := congrArg (fun x => x.2.1) (Tcb.tally_idles hi)
    refine .replies _ rfl (Tcb.bareSyn_build _ _ _ _) (hahead hss) htoil ?_
    rw [Tcb.weight_ack, Tcb.replies, Tcb.replies, hack, if_neg hopen, ← hreset]
    change (if u.state = .closed then 0 else 2 * 0) + u.pendingReset.isSome.toNat + 1 <
      2 * 1 + u.pendingReset.isSome.toNat
    rw [hst, if_neg hopen]
    omega
  | @idle u _ hi hack =>
    obtain ⟨htoil, hst, -, hss⟩ := Tcb.idles_open hi
    have hreset : u.pendingReset = r.tcb.pendingReset := congrArg (fun x => x.2.1) (Tcb.tally_idles hi)
    have hidle : u.needsAck = r.tcb.needsAck := congrArg (fun x => x.1) (Tcb.tally_idles hi)
    refine .silent rfl (hahead hss) htoil ?_
    rw [Tcb.replies, Tcb.replies, hst, hreset, hidle]

end Host

end Ferrumnet
