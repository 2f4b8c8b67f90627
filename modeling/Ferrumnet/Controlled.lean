import Ferrumnet.Episode
import Ferrumnet.Scalable
import Ferrumnet.Feed

/-
  What a connection does to its congestion controller, call by call.

  An ACK that advances goes through up to five calls of the controller; the other
  stages make one at most. What each call keeps, the connection keeps.

  1. `cc_ackAdvance`, `cc_sackDetect` — the calls that an ACK makes.
  2. `Kept.run` — a property that every call keeps holds of the controller in every
     reachable state.
-/

namespace Ferrumnet

namespace Tcb

set_option linter.unusedSectionVars false

variable {κ : Type} [CongestionControl κ] (t : Tcb κ) (now : Instant) {P : κ → Prop}

/-! ## The calls of an ACK -/

theorem cc_ackEcn (ace n : Nat) (b : Bool) (h : P t.cc)
    (hecn : ∀ c m, P c → P (CongestionControl.onEcn c now n m)) : P (t.ackEcn now ace n b).cc := by
  simp only [ackEcn]
  split
  · split
    · exact h
    · exact hecn _ _ h
  · exact h

theorem cc_ackScoreboard (h : P t.cc)
    (hexit : t.sackEnabled = true → (t.scoreboard.trim t.sndUna).recoveryReached t.sndUna = true →
      P (CongestionControl.onAck t.cc now 0)) : P (t.ackScoreboard now).cc := by
  simp only [ackScoreboard]
  split
  · rename_i hs
    split
    · rename_i hreached
      exact hexit hs hreached
    · exact h
  · exact h

theorem cc_ackTimer (h : P t.cc) (hrtt : ∀ c n, P c → P (CongestionControl.onRttSample c n)) :
    P (t.ackTimer now).cc := by
  simp only [ackTimer]
  split
  · split
    · exact hrtt _ _ h
    · exact hrtt _ _ h
  · split
    · exact h
    · exact h

/-- The stages between the scoreboard and the timer make no call. -/
theorem cc_middle (a : SeqNumber) (e : Option (BitVec 32)) : (t.ackGbn.ackRtt now a e).cc = t.cc := by
  have hgbn : t.ackGbn.cc = t.cc := by
    simp only [ackGbn]
    split
    · split <;> rfl
    · rfl
  rw [← hgbn]
  generalize t.ackGbn = u
  simp only [ackRtt]
  split
  · split
    · split <;> rfl
    · rfl
  · split
    · rfl
    · split
      · split <;> rfl
      · rfl

/-- An advancing ACK: the controller is told of the bytes, unless in recovery; then of
the delivery sample, the marks, the end of recovery, and the RTT. -/
theorem cc_ackAdvance (a : SeqNumber) (e : Option (BitVec 32)) (ace : Nat)
    (h : P (if t.sackEnabled && t.scoreboard.inRecovery then t.cc
      else CongestionControl.onAck t.cc now (t.toSendSpace.dataAcked a)))
    (hsample : ∀ c q f n pipe b, P c → P (CongestionControl.onAckSample c now q f n pipe b))
    (hecn : ∀ c n m, P c → P (CongestionControl.onEcn c now n m))
    (hexit : t.sackEnabled = true → t.scoreboard.recoveryReached a = true → ∀ c, P c →
      P (CongestionControl.onAck c now 0))
    (hrtt : ∀ c n, P c → P (CongestionControl.onRttSample c n)) : P (t.ackAdvance a e ace now).cc := by
  simp only [ackAdvance]
  generalize hu : (({ t with
    toSendSpace := t.toSendSpace.consume a
    cc := if t.sackEnabled && t.scoreboard.inRecovery then t.cc
      else CongestionControl.onAck t.cc now (t.toSendSpace.dataAcked a) } : Tcb κ).ackSample now
        (t.toSendSpace.dataAcked a) (t.sackEnabled && t.scoreboard.inRecovery)) = u
  have hcc : P u.cc := by
    rw [← hu]
    exact hsample _ _ _ _ _ _ h
  have hframe : u.sackEnabled = t.sackEnabled ∧ u.scoreboard = t.scoreboard ∧ u.sndUna = a := by
    rw [← hu]
    exact ⟨rfl, rfl, rfl⟩
  have hv := u.cc_ackEcn now ace (t.toSendSpace.dataAcked a) (t.sackEnabled && t.scoreboard.inRecovery)
    hcc fun c m hc => hecn c _ m hc
  obtain ⟨hcore, hboard, -⟩ := u.ackEcn_frame now ace (t.toSendSpace.dataAcked a)
    (t.sackEnabled && t.scoreboard.inRecovery)
  generalize u.ackEcn now ace (t.toSendSpace.dataAcked a) (t.sackEnabled && t.scoreboard.inRecovery) = v
    at hv hcore hboard ⊢
  refine cc_ackTimer _ now ?_ hrtt
  rw [cc_middle]
  refine v.cc_ackScoreboard now hv fun hs hreached => ?_
  have hsack : v.sackEnabled = t.sackEnabled := (congrArg (fun c : Core => c.sackEnabled) hcore).trans hframe.1
  have hat : v.sndUna = a := (congrArg (fun c : Core => c.sndUna) hcore).trans hframe.2.2
  rw [hboard, hframe.2.1, hat] at hreached
  exact hexit (hsack ▸ hs) hreached v.cc hv

/-- What the losses that a segment shows may tell it. -/
theorem cc_sackDetect (d : Bool) (h : P t.cc)
    (hdup : P (CongestionControl.onDupAck t.cc now t.inflight).1)
    (henter : ∀ c, P c → P (CongestionControl.enterRecovery c now t.inflight)) :
    P (t.sackDetect now d).cc := by
  simp only [sackDetect]
  split
  · obtain ⟨u, fires, hu, hcc, hin⟩ : ∃ (u : Tcb κ) (fires : Bool),
        (if d = true then t.noteDupAck now else (t, false)) = (u, fires) ∧ P u.cc ∧ u.inflight = t.inflight := by
      cases d with
      | true => exact ⟨_, _, rfl, hdup, rfl⟩
      | false => exact ⟨t, false, rfl, h, rfl⟩
    rw [hu]
    dsimp only
    split
    · cases fires with
      | true => exact hcc
      | false =>
        have henters := henter u.cc hcc
        rw [← hin] at henters
        exact henters
    · exact hcc
  · exact h

/-- In recovery, and while a drain lasts, the controller is told of no loss. -/
theorem cc_sackDetect_off (d : Bool) (h : t.scoreboard.recoveryPoint ≠ none ∨ t.gbnRecover ≠ none) :
    (t.sackDetect now d).cc = t.cc := by
  have hoff : (!t.scoreboard.inRecovery && t.gbnRecover.isNone) = false := by
    rcases h with h | h
    · obtain ⟨rp, hrp⟩ := Option.ne_none_iff_exists'.mp h
      rw [Scoreboard.inRecovery, hrp]
      rfl
    · obtain ⟨high, hhigh⟩ := Option.ne_none_iff_exists'.mp h
      rw [hhigh]
      exact Bool.and_false _
  rw [sackDetect, hoff, if_neg (by simp)]

theorem cc_advanced (p : TcpPacket) (h : P t.cc)
    (hack : p.ack.gt t.sndUna = true → P (t.ackAdvance p.ack ((t.segTs p).map (·.2)) p.ace now).cc) :
    P (t.advanced now p).cc := by
  unfold advanced
  rw [recovery_updateWindow]
  split
  · rename_i hgt
    exact hack hgt
  · exact h

theorem inflight_le : t.inflight ≤ u32Max := Nat.lt_succ_iff.mp (SeqNumber.offsetFrom_lt _ _)

end Tcb

/-! ## What every call keeps -/

namespace Kept

variable {κ : Type} [CongestionControl κ] {P : κ → Prop} {t : Tcb κ}

theorem acks (h : Kept P) (hp : P t.cc) (now : Instant) (p : TcpPacket) : P (t.acks now p).cc := by
  have hfirst : P (if t.sackEnabled && t.scoreboard.inRecovery then t.cc
      else CongestionControl.onAck t.cc now (t.toSendSpace.dataAcked p.ack)) := by
    split
    · exact hp
    · exact h.onAck _ now _ hp
  have hack : P (t.ackAdvance p.ack ((t.segTs p).map (·.2)) p.ace now).cc := by
    apply t.cc_ackAdvance now p.ack ((t.segTs p).map (·.2)) p.ace hfirst
    · intro c q f n pipe b hc
      exact h.onAckSample c now q f n pipe b hc
    · intro c n m hc
      exact h.onEcn c now n m hc
    · intro _ _ c hc
      exact h.onAck c now 0 hc
    · exact h.onRttSample
  have hadv : P (t.advanced now p).cc := t.cc_advanced now p hp fun _ => hack
  unfold Tcb.acks Tcb.detected
  generalize t.advanced now p = u at hadv
  split
  · exact Tcb.cc_sackDetect _ now _ hadv (h.onDupAck _ now _ (Tcb.inflight_le _) hadv)
      fun c => h.enterRecovery c now _ (Tcb.inflight_le _)
  · split
    · have hdup := h.onDupAck _ now _ u.inflight_le hadv
      simp only [Tcb.legacyDupAck]
      split
      · exact hdup
      · exact hdup
    · exact hadv

theorem onSegment (h : Kept P) (hp : P t.cc) (hmss : t.mssAdvertise ≤ 65535) (now : Instant) (p : TcpPacket)
    (ce : Bool) : P (t.onSegment now p ce).cc := by
  by_cases hst : t.state = .synSent
  · rw [Tcb.onSegment, if_pos hst]
    have hnew : P (CongestionControl.new t.ccKind (min (p.mssOption.getD mssDefault) t.mssAdvertise)) :=
      h.new t.ccKind _ ((Nat.min_le_right ..).trans hmss)
    have hlearn : P (t.learnPeer p).cc := hnew
    have hgreeting := t.onSegmentSynSent_greeting p
    generalize t.onSegmentSynSent p = u at hgreeting
    cases hgreeting with
    | ignored | refused | reset => exact hp
    | opened | crossed => exact hlearn
  · have hreceipt := t.onSegment_receipt now p ce hst
    have hts : (t.advanceTsRecent p).cc = t.cc :=
      congrArg LossRecovery.cc (t.recovery_advanceTsRecent p)
    generalize t.onSegment now p ce = u at hreceipt ⊢
    cases hreceipt with
    | spared _ _ _ _ _ _ _ | reset _ _ _ | lingers _ | synAgain _ => exact hp
    | badAck _ _ _ =>
      change P (t.advanceTsRecent p).cc
      rwa [hts]
    | opens _ _ _ =>
      rw [Tcb.recovery_onText, Tcb.recovery_opened]
      change P (t.advanceTsRecent p).cc
      rwa [hts]
    | taken _ _ _ =>
      rw [Tcb.recovery_onText]
      exact h.acks (by rwa [hts]) now p

theorem onTimer (h : Kept P) (hp : P t.cc) (now : Instant) : P (t.onTimer now).cc := by
  have hlate : ∀ u : Tcb κ, (((u.onPersistTimer now).onTimeWaitTimer now).onDelayedAckTimer now).cc =
      u.cc := by
    intro u
    simp only [Tcb.onPersistTimer, Tcb.onTimeWaitTimer, Tcb.onDelayedAckTimer]
    split <;> split <;> split <;> rfl
  rw [Tcb.onTimer, hlate, Tcb.onRtxTimer]
  split
  · split
    · simp only [Tcb.synTimeout]
      split
      · exact hp
      · exact hp
    · exact h.onRto _ now _ hp
  · exact hp

end Kept

namespace Tcb

variable {κ : Type} [CongestionControl κ] {t : Tcb κ} {now : Instant}

theorem cc_noteSent (t : Tcb κ) (now : Instant) (n room : Nat) :
    ∃ q f b, (t.noteSent now n room).cc = CongestionControl.onTransmit t.cc now q n f b := by
  simp only [noteSent]
  split
  · split
    · exact ⟨_, _, _, rfl⟩
    · exact ⟨_, _, _, rfl⟩
  · split
    · exact ⟨_, _, _, rfl⟩
    · exact ⟨_, _, _, rfl⟩

/-- A transmission tells the controller only of new data. -/
theorem cc_pollTransmit (now : Instant) : (t.pollTransmit now).1.cc = t.cc ∨
    ∃ q n f b, (t.pollTransmit now).1.cc = CongestionControl.onTransmit t.cc now q n f b := by
  have hturn := t.pollTransmit_turn now
  generalize t.pollTransmit now = q at hturn ⊢
  have hstart : ∀ u : Tcb κ, (u.startRtx now).cc = u.cc :=
    fun u => congrArg LossRecovery.cc (u.recovery_startRtx now)
  have hgated : ∀ u : Tcb κ, (u.lowered.gated now).cc = u.cc :=
    fun u => (congrArg LossRecovery.cc (u.lowered.owed_gated now).2).trans rfl
  have hidles : ∀ u, Idles t now u → u.cc = t.cc := by
    intro u hu
    cases hu with
    | synReceived _ _ _ | timeWait _ => rfl
    | data _ _ => exact hgated _
  cases hturn with
  | rst _ _ | mute _ _ | synAgain _ _ _ _ | synWaits _ _ _ _ | synAckAgain _ _ _ _ => exact .inl rfl
  | syn _ _ _ | synAck _ _ _ => exact .inl (hstart _)
  | @ack u _ hi _ => exact .inl (show u.cc = t.cc from hidles u hi)
  | idle _ hi _ => exact .inl (hidles _ hi)
  | sends _ _ hs _ =>
    cases hs with
    | resend _ _ _ _ _ | resendFin _ _ _ _ _ _ _ | repair _ _ _ _ _ _ _ _ _ => exact .inl (hstart _)
    | probe _ _ _ => exact .inl (hgated _)
    | fin _ _ _ _ =>
      refine .inl ((congrArg LossRecovery.cc (recovery_noteFin _ now)).trans ?_)
      exact hgated _
    | quiet _ => exact .inl (hgated _)
    | data n _ _ =>
      refine .inr ?_
      simp only [Emit.after, hstart]
      have hcc : ((t.clocked now).lowered.paced now).cc = t.cc :=
        (congrArg LossRecovery.cc ((t.clocked now).lowered.owed_paced now).2).trans rfl
      obtain ⟨q, f, b, hsent⟩ := cc_noteSent (((t.clocked now).lowered.paced now).emit (t.clocked now).sndNxt
        { psh := decide ((t.clocked now).sentData + n = (t.clocked now).tx.len) }
        ((t.clocked now).tx.peek (t.clocked now).sentData n)).1 now n (t.clocked now).windowRoom
      exact ⟨q, n, f, b, hsent.trans (by rw [← hcc]; rfl)⟩

end Tcb

namespace Host

variable {κ : Type} [CongestionControl κ] {P : κ → Prop} {r : Host κ}

/-- No call changes the MSS that is advertised. -/
theorem mssAdvertise_input (hok : r.Ok) (i : Input) :
    (r.input i).1.tcb.mssAdvertise = r.tcb.mssAdvertise := by
  by_cases hi : ∃ seg now ce, i = .segment seg now ce
  · obtain ⟨seg, now, ce, rfl⟩ := hi
    have hcore := r.tcb.core_onSegment now seg.tcp ce
    change (r.tcb.onSegment now seg.tcp ce).core.mssAdvertise = _
    rw [hcore]
    by_cases hst : r.tcb.state = .synSent
    · have hst' : r.tcb.core.state = .synSent := hst
      have hsyn := r.tcb.core.onSegmentSynSent_takes seg.tcp
      rw [Core.onSegment, if_pos hst']
      generalize r.tcb.core.onSegmentSynSent seg.tcp = c at hsyn ⊢
      cases hsyn with
      | dropped | reset _ _ | acked _ _ _ | crossed _ _ _ => rfl
    · have htakes := r.tcb.core.onSegment_takes seg.tcp hst
      generalize r.tcb.core.onSegment seg.tcp = c at htakes ⊢
      cases htakes with
      | dropped _ _ | reset _ _ | synAgain _ | badAck _ _ _ _ | taken _ _ => rfl
  · exact congrArg Options.mssAdvertise
      (hok.stays (i := i) fun seg now ce he => hi ⟨seg, now, ce, he⟩).options

/-- What every call of the controller keeps holds of it as long as the connection lives. -/
theorem kept_input (h : Kept P) (hp : P r.tcb.cc) (hmss : r.tcb.mssAdvertise ≤ 65535) (i : Input) :
    P (r.input i).1.tcb.cc := by
  cases i with
  | segment seg now ce => exact h.onSegment hp hmss now seg.tcp ce
  | send data =>
    change P (r.tcb.send data).1.cc
    unfold Tcb.send
    split
    · exact hp
    · exact hp
    · exact hp
  | recv n => exact hp
  | close => exact hp
  | timer now => exact h.onTimer hp now
  | poll now =>
    change P (r.tcb.pollTransmit now).1.cc
    rcases r.tcb.cc_pollTransmit now with he | ⟨q, n, f, b, he⟩
    · rwa [he]
    · rw [he]
      exact h.onTransmit _ now q n f b hp

theorem Opens.kept (h : r.Opens) (hk : Kept P) (hmss : r.tcb.mssAdvertise ≤ 65535) : P r.tcb.cc := by
  have hset : ∀ (t : Tcb κ) (kind : CcKind), P t.cc → t.sndMss ≤ 65535 → P (t.setCongestionControl kind).cc := by
    intro t kind hp hm
    unfold Tcb.setCongestionControl
    split
    · exact hk.new _ _ hm
    · exact hp
  have hadv : ∀ (t : Tcb κ) (kind : CcKind), (t.setCongestionControl kind).mssAdvertise = t.mssAdvertise := by
    intro t kind
    unfold Tcb.setCongestionControl
    split <;> rfl
  cases h with
  | active loc remote iss now mss kind =>
    have h536 : (536 : Nat) ≤ 65535 := by omega
    exact hset _ kind (hk.new _ _ h536) h536
  | passive loc remote syn iss now mss kind =>
    have hm : mss ≤ 65535 := (hadv (Tcb.newSynReceived loc remote syn iss now mss : Tcb κ) kind).symm.trans_le hmss
    have hsnd : min (syn.mssOption.getD mssDefault) mss ≤ 65535 := (min_le_right ..).trans hm
    exact hset _ kind (hk.new _ _ hsnd) hsnd

theorem kept_run {r₀ : Host κ} {is : List Input} (hk : Kept P) (h0 : r₀.Opens)
    (hmss : r₀.tcb.mssAdvertise ≤ 65535) (hr : Run.run step r₀ is = some r) :
    P r.tcb.cc ∧ r.tcb.mssAdvertise ≤ 65535 := by
  have hinv := Run.run_invariant (I := fun r : Host κ => r.Ok ∧ P r.tcb.cc ∧ r.tcb.mssAdvertise ≤ 65535)
    (fun s i s' hs he => by
      cases he
      exact ⟨hs.1.input i, kept_input hk hs.2.1 hs.2.2 i, (mssAdvertise_input hs.1 i).trans_le hs.2.2⟩)
    ⟨h0.ok, h0.kept hk hmss, hmss⟩ hr
  exact hinv.2

end Host

end Ferrumnet
