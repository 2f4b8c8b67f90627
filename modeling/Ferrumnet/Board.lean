import Ferrumnet.Episode
import Ferrumnet.GoBackN
import Ferrumnet.SackSet

/-
  The scoreboard of a connection is well formed, whatever it is fed.

  `Board` says what both run lists stand for: sets of positions between `SND.UNA`
  and `SND.NXT`. Without SACK, and before the handshake is over, the scoreboard is
  as it was made.

  1. `Board.input`, `board_run` — every call keeps this, and so does every run.
-/

namespace Ferrumnet

namespace Host

variable {κ : Type} [CongestionControl κ] {r r' : Host κ} {t : Tcb κ}

structure Board (r : Host κ) : Prop where
  sacked : ∃ l, Scoreboard.Charts r.tcb.iss r.una r.nxt r.tcb.scoreboard.sacked l
  rexmit : ∃ l, Scoreboard.Charts r.tcb.iss r.una r.nxt r.tcb.scoreboard.rexmit l
  blank : r.tcb.sackEnabled = false ∨ r.tcb.state = .synSent ∨ r.tcb.state = .synReceived →
    r.tcb.scoreboard = Scoreboard.new

omit [CongestionControl κ] in
theorem Ok.near (hok : r.Ok) : r.una ≤ r.nxt ∧ r.nxt ≤ r.una + 262145 := by
  have h : r.tcb.inflight ≤ 262145 := hok.sending.outstanding_le
  exact ⟨Nat.le_add_right .., Nat.add_le_add_left h _⟩

omit [CongestionControl κ] in
theorem board_blank (hok : r.Ok) (h : r.tcb.scoreboard = Scoreboard.new) : r.Board := by
  have hnear := hok.near
  refine ⟨⟨[], ?_⟩, ⟨[], ?_⟩, fun _ => h⟩
  · rw [h]
    exact Scoreboard.charts_nil (by omega)
  · rw [h]
    exact Scoreboard.charts_nil (by omega)

omit [CongestionControl κ] in
/-- Calls that acknowledge and report nothing. -/
theorem Board.keep (h : r.Board) (hok : r'.Ok) (hiss : r'.tcb.iss = r.tcb.iss) (huna : r'.una = r.una)
    (hnxt : r.nxt ≤ r'.nxt) (hsacked : r'.tcb.scoreboard.sacked = r.tcb.scoreboard.sacked)
    (hrexmit : r'.tcb.scoreboard.rexmit = r.tcb.scoreboard.rexmit ∨ r'.tcb.scoreboard.rexmit = [])
    (hblank : r'.tcb.sackEnabled = false ∨ r'.tcb.state = .synSent ∨ r'.tcb.state = .synReceived →
      r'.tcb.scoreboard = Scoreboard.new) : r'.Board := by
  have hnear := hok.near
  obtain ⟨l, hl⟩ := h.sacked
  obtain ⟨m, hm⟩ := h.rexmit
  refine ⟨⟨l, ?_⟩, ?_, hblank⟩
  · rw [hiss, hsacked]
    rw [huna] at hnear ⊢
    exact hl.grow hnxt (by omega)
  · rcases hrexmit with he | he
    · refine ⟨m, ?_⟩
      rw [hiss, he]
      rw [huna] at hnear ⊢
      exact hm.grow hnxt (by omega)
    · refine ⟨[], ?_⟩
      rw [he]
      exact Scoreboard.charts_nil (by omega)

/-! ## Segments -/

omit [CongestionControl κ] in
/-- The scoreboard as an acknowledgement leaves it, at the new `SND.UNA`. -/
theorem Board.acked (h : r.Board) {una : Nat} {s : Scoreboard} (h1 : r.una ≤ una) (h2 : una ≤ r.nxt)
    (hs : s = r.tcb.scoreboard ∧ una = r.una ∨ s = r.tcb.ackBoard (r.tcb.iss + una)) :
    (∃ l, Scoreboard.Charts r.tcb.iss una r.nxt s.sacked l) ∧
      ∃ l, Scoreboard.Charts r.tcb.iss una r.nxt s.rexmit l := by
  obtain ⟨l, hl⟩ := h.sacked
  obtain ⟨m, hm⟩ := h.rexmit
  have hnear := hl.near
  rcases hs with ⟨rfl, rfl⟩ | rfl
  · exact ⟨⟨l, hl⟩, m, hm⟩
  · unfold Tcb.ackBoard
    split
    · exact ⟨⟨_, hl.trimRuns h1 h2⟩, [], Scoreboard.charts_nil (by omega)⟩
    · exact ⟨⟨_, hl.trimRuns h1 h2⟩, _, hm.trimRuns h1 h2⟩

/-- A segment taken in whole, past the handshake. -/
theorem Board.taken (h : r.Board) (hok : r.Ok) (h1 : r.tcb.state ≠ .synSent)
    (h2 : r.tcb.state ≠ .synReceived) {p : TcpPacket} {now : Instant} {ce : Bool}
    (hnxt : (r.follow t).nxt = r.nxt) (hok' : (r.follow t).Ok)
    (ht : t = ((r.tcb.advanceTsRecent p).acks now p).onText now p ce) : (r.follow t).Board := by
  obtain ⟨huna, -, hiss, hopts⟩ := r.tcb.taken_send now p h2 ce ht
  obtain ⟨-, hoff, hon⟩ := r.tcb.taken_board now p ce ht
  have hsack : t.sackEnabled = r.tcb.sackEnabled := congrArg Options.sackEnabled hopts
  cases hse : r.tcb.sackEnabled with
  | false => exact board_blank hok' ((hoff hse).trans (h.blank (.inl hse)))
  | true =>
    have hpos : t.sndUna = r.tcb.iss + (r.follow t).una := hiss ▸ hok'.sending.at_una
    have hle : r.una ≤ (r.follow t).una := Nat.le_add_right ..
    have hle' : (r.follow t).una ≤ r.nxt := hnxt ▸ Nat.le_add_right ..
    -- the scoreboard at the new `SND.UNA`
    have hat : r.tcb.boardAt p = r.tcb.scoreboard ∧ (r.follow t).una = r.una ∨
        r.tcb.boardAt p = r.tcb.ackBoard (r.tcb.iss + (r.follow t).una) := by
      unfold Tcb.ackedUna at huna
      unfold Tcb.boardAt
      split
      · rename_i hgt
        rw [if_pos hgt] at huna
        exact .inr (by rw [← hpos, huna])
      · rename_i hgt
        rw [if_neg hgt] at huna
        exact .inl ⟨rfl, follow_una huna⟩
    obtain ⟨⟨l, hl⟩, m, hm⟩ := h.acked hle hle' hat
    obtain ⟨l', hl'⟩ := hl.update hle' p.sackBlocks
    have hboard := hon hse
    rw [← huna, hpos, hok.sending.at_nxt] at hboard
    have hends : r.una + r.tcb.toSendSpace.outstanding = r.nxt := rfl
    rw [hends] at hboard
    have hfinal : t.scoreboard.sacked = ((r.tcb.boardAt p).update (r.tcb.iss + (r.follow t).una)
        (r.tcb.iss + r.nxt) p.sackBlocks).sacked ∧ t.scoreboard.rexmit = (r.tcb.boardAt p).rexmit := by
      rcases hboard with he | ⟨he, -⟩
      · rw [he]
        exact ⟨rfl, rfl⟩
      · rw [he]
        exact ⟨rfl, rfl⟩
    refine ⟨⟨l', ?_⟩, ⟨m, ?_⟩, fun hb => ?_⟩
    · rw [follow_tcb, hiss, hnxt, hfinal.1]
      exact hl'
    · rw [follow_tcb, hiss, hnxt, hfinal.2]
      exact hm
    · -- past the handshake with SACK on
      rw [follow_tcb, hsack, hse] at hb
      have hcore := r.tcb.core_taken now p h2 ce
      rw [← ht] at hcore
      have hst : t.state = _ := congrArg Core.state hcore
      rcases hb with hb | hb | hb
      · cases hb
      · exact absurd (hst.symm.trans hb) (closingState_ne (ackedState_ne (c := r.tcb.core) h1).1 (.inl rfl))
      · exact absurd (hst.symm.trans hb) (closingState_ne (ackedState_ne (c := r.tcb.core) h1).2 (.inr rfl))

/-- Any segment past SYN-SENT. -/
theorem Board.segment (h : r.Board) (hok : r.Ok) (h1 : r.tcb.state ≠ .synSent) (p : TcpPacket)
    (now : Instant) (ce : Bool) (hok' : (r.follow (r.tcb.onSegment now p ce)).Ok) :
    (r.follow (r.tcb.onSegment now p ce)).Board := by
  have hreceipt := r.tcb.onSegment_receipt now p ce h1
  have hmoves := fun h2 => hok.nxt_segment h1 h2 (p := p) now ce
  generalize r.tcb.onSegment now p ce = t at hreceipt hok' hmoves ⊢
  -- outcomes that leave the scoreboard and the send space alone
  have hquiet : t.scoreboard = r.tcb.scoreboard → t.toSendSpace = r.tcb.toSendSpace →
      t.sackEnabled = r.tcb.sackEnabled → (t.state = r.tcb.state ∨ t.state = .closed) →
      (r.follow t).Board := by
    intro hb hs ho hst
    refine h.keep hok' (congrArg SendSpace.iss hs) (follow_una (congrArg SendSpace.sndUna hs)) ?_
      (congrArg Scoreboard.sacked hb) (.inl (congrArg Scoreboard.rexmit hb)) fun hblank => ?_
    · exact (nxt_follow ⟨congrArg SendSpace.sndUna hs, congrArg SendSpace.sndNxt hs⟩).ge
    · rw [follow_tcb, ho] at hblank
      refine hb.trans (h.blank ?_)
      rcases hst with hst | hst
      · rwa [hst] at hblank
      · rw [hst] at hblank
        exact .inl (hblank.resolve_right (by simp))
  cases hreceipt with
  | spared _ _ _ _ _ _ _ => exact hquiet rfl rfl rfl (.inl rfl)
  | reset _ _ _ => exact hquiet rfl rfl rfl (.inr rfl)
  | lingers _ => exact hquiet rfl rfl rfl (.inl rfl)
  | synAgain hdup =>
    exact board_blank hok' (h.blank (.inr (.inr (r.tcb.core.state_of_dupSyn _ hdup))))
  | badAck _ _ _ =>
    have hcore := r.tcb.core_advanceTsRecent p
    refine hquiet ?_ (congrArg Core.toSendSpace hcore) (congrArg (fun c : Core => c.sackEnabled) hcore) (.inr rfl)
    exact congrArg LossRecovery.scoreboard (r.tcb.recovery_advanceTsRecent p)
  | opens hrec _ _ =>
    refine board_blank hok' ?_
    have hnew := h.blank (.inr (.inr hrec))
    rw [follow_tcb, Tcb.recovery_onText, Tcb.recovery_opened, Tcb.recovery_advanceTsRecent]
    exact hnew
  | taken hrec _ _ => exact h.taken hok h1 hrec (hmoves hrec) hok' rfl

/-! ## Every call -/

/-- A segment in SYN-SENT touches the scoreboard only by what it opens. -/
theorem scoreboard_synSent (t : Tcb κ) (p : TcpPacket) : (t.onSegmentSynSent p).scoreboard = t.scoreboard := by
  have hgreeting := t.onSegmentSynSent_greeting p
  generalize t.onSegmentSynSent p = u at hgreeting
  cases hgreeting <;> rfl

omit [CongestionControl κ] in
/-- A repair lies where its positions say, below `SND.NXT`, and is marked as such. -/
theorem Ok.repair_at (hok : r.Ok) {seq : SeqNumber} {n : Nat} {isRescue : Bool}
    (hnext : r.tcb.scoreboard.nextSeg r.tcb.sndUna r.tcb.sndNxt r.tcb.sndMss = some (seq, isRescue))
    (hpos : 0 < n) (hn : n ≤ r.tcb.scoreboard.unsackedRunLen seq r.tcb.sndNxt) :
    ∃ x, r.una ≤ x ∧ x + n ≤ r.nxt ∧ seq = r.tcb.iss + x ∧ seq + n = r.tcb.iss + (x + n) ∧
      (r.tcb.scoreboard.markRexmit seq (seq + n)).rexmit =
        Scoreboard.insertRun r.tcb.scoreboard.rexmit seq (seq + n) := by
  have hw : r.tcb.inflight ≤ 262145 := hok.sending.outstanding_le
  obtain ⟨-, -, -, hend⟩ := r.tcb.scoreboard.nextSeg_spec (by change r.tcb.inflight < _; omega) hnext
  have hin : r.tcb.sndNxt.offsetFrom r.tcb.sndUna = r.tcb.inflight := rfl
  have hends : r.una + r.tcb.inflight = r.nxt := rfl
  have hseq : seq = r.tcb.iss + (r.una + seq.offsetFrom r.tcb.sndUna) := by
    rw [← SeqNumber.add_add, ← hok.sending.at_una, SeqNumber.add_offsetFrom]
  generalize seq.offsetFrom r.tcb.sndUna = off at hend hseq
  have hseq' : seq + n = r.tcb.iss + (r.una + off + n) := by
    rw [hseq, SeqNumber.add_add]
  refine ⟨r.una + off, by omega, by omega, hseq, hseq', ?_⟩
  have hlt : seq.lt (seq + n) = true := by
    rw [hseq', hseq, SeqNumber.pos_lt _ (by omega) (by omega), decide_eq_true_iff]
    omega
  rw [Scoreboard.markRexmit, if_pos hlt]

theorem Board.poll (h : r.Board) (hok : r.Ok) (now : Instant) :
    (r.follow (r.tcb.pollTransmit now).1).Board := by
  have hpolled := hok.polled now
  have hok' : (r.follow (r.tcb.pollTransmit now).1).Ok := hok.poll now
  have hstays : r.Stays (r.follow (r.tcb.pollTransmit now).1) :=
    hok.stays (i := .poll now) fun _ _ _ => by simp
  have huna : (r.follow (r.tcb.pollTransmit now).1).una = r.una := follow_una hpolled.una
  have hsack : (r.tcb.pollTransmit now).1.sackEnabled = r.tcb.sackEnabled :=
    congrArg Options.sackEnabled hstays.options
  have hsacked : (r.tcb.pollTransmit now).1.scoreboard.sacked = r.tcb.scoreboard.sacked :=
    r.tcb.sacked_pollTransmit now
  obtain ⟨-, hb | ⟨seq, n, isRescue, hs, hrec, hnext, hpos, hn, hsend, hb⟩⟩ :=
    r.tcb.scoreboard_pollTransmit now
  · refine h.keep hok' hstays.iss huna hpolled.nxt hsacked
      (.inl (congrArg Scoreboard.rexmit hb)) fun hblank => hb.trans (h.blank ?_)
    rw [follow_tcb, hsack] at hblank
    exact hblank.imp id hpolled.opening
  · -- the hole is marked, and lies below `SND.NXT`
    have hnxt : (r.follow (r.tcb.pollTransmit now).1).nxt = r.nxt :=
      nxt_follow ⟨congrArg SendSpace.sndUna hsend, congrArg SendSpace.sndNxt hsend⟩
    obtain ⟨l, hl⟩ := h.sacked
    obtain ⟨m, hm⟩ := h.rexmit
    obtain ⟨x, hx, hx', hseq, hseq', hmark⟩ := hok.repair_at hnext hpos hn
    have hrexmit : (r.tcb.pollTransmit now).1.scoreboard.rexmit =
        Scoreboard.insertRun r.tcb.scoreboard.rexmit seq (seq + n) := by
      rw [hb]
      split
      · exact hmark
      · exact hmark
    have hm' := hm.insertRun hx (by omega : x < x + n) hx'
    rw [← hseq', ← hseq] at hm'
    refine ⟨⟨l, ?_⟩, ⟨Intervals.insert x (x + n) m, ?_⟩, fun hblank => ?_⟩
    · rw [hstays.iss, huna, hnxt, follow_tcb, hsacked]
      exact hl
    · rw [hstays.iss, huna, hnxt, follow_tcb, hrexmit]
      exact hm'
    · -- a blank scoreboard is not in recovery
      rw [follow_tcb, hsack] at hblank
      rw [h.blank (hblank.imp id hpolled.opening)] at hrec
      cases hrec

/-- In SYN-SENT there is no scoreboard yet. -/
theorem Board.onSegment (h : r.Board) (hok : r.Ok) (p : TcpPacket) (now : Instant) (ce : Bool) :
    (r.follow (r.tcb.onSegment now p ce)).Board := by
  have hok' : (r.follow (r.tcb.onSegment now p ce)).Ok := hok.segment (r.tcb.core_onSegment now p ce)
  by_cases hst : r.tcb.state = .synSent
  · refine board_blank hok' ?_
    rw [follow_tcb, Tcb.onSegment, if_pos hst, scoreboard_synSent]
    exact h.blank (.inr (.inl hst))
  · exact h.segment hok hst p now ce hok'

/-- Whatever is fed to a host, its scoreboard stays well formed. -/
theorem Board.input (h : r.Board) (hok : r.Ok) (i : Input) : (r.input i).1.Board := by
  have hok' := hok.input i
  cases i with
  | segment seg now ce => exact h.onSegment hok seg.tcp now ce
  | send data =>
    have hstays := hok.stays (i := .send data) fun _ _ _ => by simp
    have hsame : (r.tcb.send data).1.scoreboard = r.tcb.scoreboard ∧
        (r.tcb.send data).1.sndUna = r.tcb.sndUna ∧ (r.tcb.send data).1.sndNxt = r.tcb.sndNxt ∧
        (r.tcb.send data).1.state = r.tcb.state := by
      unfold Tcb.send
      split <;> exact ⟨rfl, rfl, rfl, rfl⟩
    obtain ⟨hb, h1, h2, h3⟩ := hsame
    refine h.keep hok' hstays.iss (follow_una h1) (nxt_follow ⟨h1, h2⟩).ge (congrArg Scoreboard.sacked hb)
      (.inl (congrArg Scoreboard.rexmit hb)) fun hblank => hb.trans (h.blank ?_)
    have hst : (r.input (.send data)).1.tcb.state = r.tcb.state := h3
    rwa [hst, hstays.options] at hblank
  | recv n => exact h.keep hok' rfl (follow_una rfl) (nxt_follow ⟨rfl, rfl⟩).ge rfl (.inl rfl) h.blank
  | close => exact h.keep hok' rfl (follow_una rfl) (nxt_follow ⟨rfl, rfl⟩).ge rfl (.inl rfl) h.blank
  | timer now =>
    have hstays := hok.stays (i := .timer now) fun _ _ _ => by simp
    have hsend : (r.tcb.onTimer now).toSendSpace = r.tcb.toSendSpace ∧
        ((r.tcb.onTimer now).state = r.tcb.state ∨ (r.tcb.onTimer now).state = .closed) := by
      rcases r.tcb.core_onTimer now with hc | hc
      · exact ⟨congrArg Core.toSendSpace hc, .inl (congrArg Core.state hc)⟩
      · exact ⟨congrArg Core.toSendSpace hc, .inr (congrArg Core.state hc)⟩
    obtain ⟨h1, hst⟩ := hsend
    have hb : (r.tcb.onTimer now).scoreboard = r.tcb.scoreboard ∨
        (r.tcb.onTimer now).scoreboard = r.tcb.scoreboard.onRto := by
      rcases r.tcb.scoreboard_onTimer now with hb | ⟨-, -, hb⟩
      · exact .inl hb
      · exact .inr hb
    refine h.keep hok' hstays.iss (follow_una (congrArg SendSpace.sndUna h1))
      (nxt_follow ⟨congrArg SendSpace.sndUna h1, congrArg SendSpace.sndNxt h1⟩).ge ?_ ?_ fun hblank => ?_
    · rcases hb with hb | hb
      · exact congrArg Scoreboard.sacked hb
      · exact (congrArg Scoreboard.sacked hb).trans rfl
    · rcases hb with hb | hb
      · exact .inl (congrArg Scoreboard.rexmit hb)
      · exact .inr ((congrArg Scoreboard.rexmit hb).trans rfl)
    · -- abandoning a blank scoreboard leaves it blank
      have hnew : r.tcb.scoreboard = Scoreboard.new := by
        refine h.blank ?_
        have hst' : (r.input (.timer now)).1.tcb.state = r.tcb.state ∨
            (r.input (.timer now)).1.tcb.state = .closed := hst
        rw [hstays.options] at hblank
        rcases hst' with he | he
        · rwa [he] at hblank
        · rw [he] at hblank
          exact .inl (hblank.resolve_right (by simp))
      rw [hnew] at hb
      rcases hb with hb | hb
      · exact hb
      · exact hb
  | poll now => exact h.poll hok now

/-- A host just opened has a blank scoreboard. -/
theorem Opens.blank (h : r.Opens) : r.tcb.scoreboard = Scoreboard.new := by
  have hkeep : ∀ (t : Tcb κ) (kind : CcKind), (t.setCongestionControl kind).scoreboard = t.scoreboard := by
    intro t kind
    unfold Tcb.setCongestionControl
    split <;> rfl
  cases h with
  | active loc remote iss now mss kind => exact hkeep _ kind
  | passive loc remote syn iss now mss kind => exact hkeep _ kind

theorem board_run {r₀ : Host κ} {is : List Input} (h : r₀.Opens) (hr : Run.run step r₀ is = some r) :
    r.Ok ∧ r.Board := by
  refine Run.run_invariant (I := fun r : Host κ => r.Ok ∧ r.Board) (fun s i s' hs he => ?_)
    ⟨h.ok, board_blank h.ok h.blank⟩ hr
  cases he
  exact ⟨hs.1.input i, hs.2.input hs.1 i⟩

end Host

end Ferrumnet
