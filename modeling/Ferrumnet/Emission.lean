import Ferrumnet.Refine

/-
  What one call of `poll_transmit` does, source by source.

  The data path tries its sources in turn, and one that emits nothing may still have
  changed the state for the next. `Source` lists what the data path may come to,
  each with the state it leaves behind; `Turn` does the same for the whole call.

  1. `transmitDataOrFin_source`, `pollTransmit_turn` — nothing else happens.
-/

namespace Ferrumnet

namespace Tcb

variable {κ : Type} [CongestionControl κ] (t : Tcb κ) (now : Instant)

/-! ## What the sources that emit nothing leave behind -/

/-- With the clock of this call. -/
def clocked (t : Tcb κ) (now : Instant) : Tcb κ := { t with curTsval := BitVec.ofNat 32 now.micros }

/-- Past step 0: the go-back-N flag is consumed while anything is in flight. -/
def lowered (t : Tcb κ) : Tcb κ := { t with retransmit := t.retransmit && t.inflight = 0 }

/-- The room both windows leave. -/
def windowRoom (t : Tcb κ) : Nat := min t.cwndRoom t.rwndRoom

/-- Past the pacing gate. -/
def paced (t : Tcb κ) (now : Instant) : Tcb κ := (t.pace now t.windowRoom).1

/-- What the windows and pacing allow. -/
def allowance (t : Tcb κ) (now : Instant) : Nat := (t.pace now t.windowRoom).2

/-- The next segment of new data. -/
def portion (t : Tcb κ) (now : Instant) : Nat :=
  min (min (t.allowance now) t.unsentData) t.maxSegmentPayload

/-- The peer's window is shut, and nothing in flight would open it. -/
def Shut (t : Tcb κ) : Prop := 0 < t.unsentData ∧ t.inflight = 0 ∧ t.rwndRoom = 0

instance : Decidable t.Shut := inferInstanceAs (Decidable (_ ∧ _ ∧ _))

/-- Past step 1. -/
def gated (t : Tcb κ) (now : Instant) : Tcb κ :=
  if t.allowance now = 0 ∧ t.Shut then (t.paced now).armPersist now else t.paced now

/-! ## The data path -/

/-- What the data path comes to. -/
inductive Source (t : Tcb κ) (now : Instant) : Emit κ → Prop
  | resend (n : Nat) : t.retransmit = true → 0 < t.inflight →
      n = min (min t.inflight t.tx.len) t.maxSegmentPayload → 0 < n →
      Source t now ((({ t with retransmit := false } : Tcb κ).emit t.sndUna { psh := n = t.tx.len }
        (t.tx.peek 0 n)).after (·.startRtx now))
  | resendFin (finSeq : SeqNumber) : t.retransmit = true → 0 < t.inflight →
      min (min t.inflight t.tx.len) t.maxSegmentPayload = 0 → t.finSeq = some finSeq →
      t.finAcked = false → t.sndUna = finSeq →
      Source t now ((({ t with retransmit := false } : Tcb κ).emit finSeq { fin := true }
        Bytes.empty).after (·.startRtx now))
  | repair (seq : SeqNumber) (n : Nat) (isRescue : Bool) : t.sackEnabled = true →
      t.scoreboard.inRecovery = true →
      t.scoreboard.pipe t.sndUna t.sndNxt t.sndMss < CongestionControl.cwnd t.cc →
      t.scoreboard.nextSeg t.sndUna t.sndNxt t.sndMss = some (seq, isRescue) →
      n = min (min (t.scoreboard.unsackedRunLen seq t.sndNxt) t.maxSegmentPayload)
        (t.tx.len - seq.offsetFrom t.sndUna) → 0 < n →
      Source t now ((t.lowered.emit seq { psh := seq.offsetFrom t.sndUna + n = t.tx.len }
        (t.tx.peek (seq.offsetFrom t.sndUna) n)).after fun u => (u.noteRexmit seq n isRescue).startRtx now)
  | data (n : Nat) : n = t.portion now → 0 < n →
      Source t now (((t.lowered.paced now).emit t.sndNxt { psh := t.sentData + n = t.tx.len }
        (t.tx.peek t.sentData n)).after fun u => (u.noteSent now n t.windowRoom).startRtx now)
  | probe : t.allowance now = 0 → t.Shut → t.sendProbe = true →
      Source t now (({ t.lowered.gated now with sendProbe := false } : Tcb κ).emit t.sndUna {} (t.tx.peek 0 1))
  | fin : t.portion now = 0 → t.finQueued = true → t.finAcked = false → t.sndNxt = t.dataEnd →
      Source t now (((t.lowered.gated now).emit t.dataEnd { fin := true } Bytes.empty).after (·.noteFin now))
  | quiet : t.portion now = 0 → Source t now (t.lowered.gated now, none)

/-- The flag decides nothing but step 0. -/
theorem allowance_lowered : t.lowered.allowance now = t.allowance now := by
  change (t.lowered.pace now t.windowRoom).2 = (t.pace now t.windowRoom).2
  simp only [pace]
  split
  · rename_i h
    have h' : CongestionControl.pacingRate t.cc = none := h
    rw [h']
  · rename_i rate h
    have h' : CongestionControl.pacingRate t.cc = some rate := h
    rw [h']
    rfl

theorem core_paced : (t.paced now).core = t.core := (t.pace_core now t.windowRoom).1

theorem core_gated : (t.gated now).core = t.core := by
  unfold gated
  split
  · rw [core_armPersist]
    exact t.core_paced now
  · exact t.core_paced now

/-- Pacing and the persist timer touch only timers. -/
theorem owed_paced : (t.paced now).toOwed = t.toOwed ∧ (t.paced now).toLossRecovery = t.toLossRecovery := by
  simp only [paced, pace]
  split
  · exact ⟨rfl, rfl⟩
  · split
    · exact ⟨rfl, rfl⟩
    · exact ⟨rfl, rfl⟩

theorem owed_gated : (t.gated now).toOwed = t.toOwed ∧ (t.gated now).toLossRecovery = t.toLossRecovery := by
  unfold gated
  split
  · unfold armPersist
    split
    · exact t.owed_paced now
    · exact t.owed_paced now
  · exact t.owed_paced now

variable {t now}

/-- Step 0, when nothing comes of it. -/
theorem retransmitOldest_cases (now : Instant) : Source t now (t.retransmitOldest now) ∧ (t.retransmitOldest now).2.isSome ∨
    t.retransmitOldest now = (t.lowered, none) := by
  have hlow : t.retransmit = true → 0 < t.inflight → ({ t with retransmit := false } : Tcb κ) = t.lowered := by
    intro hr hpos
    rw [lowered, hr, decide_eq_false (by omega : ¬ t.inflight = 0)]
    rfl
  simp only [retransmitOldest]
  split
  · rename_i hflag
    rw [Bool.and_eq_true, decide_eq_true_eq] at hflag
    obtain ⟨hr, hpos⟩ := hflag
    simp only [resendOldest]
    split
    · rename_i hn
      exact .inl ⟨.resend _ hr hpos rfl hn, rfl⟩
    rename_i hn
    split
    · rename_i finSeq hfin
      split
      · rename_i hat
        rw [Bool.and_eq_true, Bool.not_eq_true', decide_eq_true_eq] at hat
        exact .inl ⟨.resendFin finSeq hr hpos (Nat.eq_zero_of_not_pos hn) hfin hat.1 hat.2, rfl⟩
      · exact .inr (by rw [hlow hr hpos])
    · exact .inr (by rw [hlow hr hpos])
  · rename_i hflag
    have hsame : (t.retransmit && decide (t.inflight = 0)) = t.retransmit := by
      cases hr : t.retransmit with
      | false => rfl
      | true =>
        rw [hr, Bool.true_and, decide_eq_true_eq] at hflag
        rw [Bool.true_and, decide_eq_true_eq]
        omega
    refine .inr ?_
    rw [lowered, hsame]

/-- Step 0.5. -/
theorem sackRetransmit_cases (now : Instant) : Source t now (t.lowered.sackRetransmit now) ∧
      (t.lowered.sackRetransmit now).2.isSome ∨
    t.lowered.sackRetransmit now = (t.lowered, none) := by
  simp only [sackRetransmit]
  split
  · rename_i hon
    rw [Bool.and_eq_true] at hon
    split
    · rename_i hroom
      split
      · rename_i seq isRescue hnext
        split
        · rename_i hn
          exact .inl ⟨.repair seq _ isRescue hon.1 hon.2 hroom hnext rfl hn, rfl⟩
        · exact .inr rfl
      · exact .inr rfl
    · exact .inr rfl
  · exact .inr rfl

omit [CongestionControl κ] in
/-- What the data path reads of the core, off an equal core. -/
theorem reads_of_core {u : Tcb κ} (h : u.core = t.core) :
    u.toSendSpace = t.toSendSpace ∧ u.sentData = t.sentData ∧ u.unsentData = t.unsentData ∧
      u.dataEnd = t.dataEnd ∧ u.maxSegmentPayload = t.maxSegmentPayload := by
  have hsend : u.toSendSpace = t.toSendSpace := congrArg Core.toSendSpace h
  have hopts : u.toOptions = t.toOptions := congrArg Core.toOptions h
  have hrecv : u.toRecvSpace = t.toRecvSpace := congrArg Core.toRecvSpace h
  refine ⟨hsend, ?_, ?_, ?_, ?_⟩
  · simp only [sentData, inflight, hsend]
  · simp only [unsentData, sentData, inflight, hsend]
  · simp only [dataEnd, hsend]
  · simp only [maxSegmentPayload, hopts, hrecv]

theorem sendNewData_eq : t.sendNewData now =
    if 0 < t.allowance now then (t.paced now).sendAllowed now (t.allowance now) t.windowRoom
    else if 0 < t.unsentData && t.inflight = 0 && t.rwndRoom = 0 then
      ((t.paced now).armPersist now).probe
    else (t.paced now, none) := rfl

/-- Step 1. -/
theorem sendNewData_cases (now : Instant) : Source t now (t.lowered.sendNewData now) ∧
      (t.lowered.sendNewData now).2.isSome ∨
    t.lowered.sendNewData now = (t.lowered.gated now, none) ∧ t.portion now = 0 := by
  have hallow := t.allowance_lowered now
  obtain ⟨hsend, hsent, hunsent, -, hmax⟩ := reads_of_core (t.lowered.core_paced now)
  have hgated : t.lowered.gated now =
      if t.allowance now = 0 ∧ t.Shut then (t.lowered.paced now).armPersist now else t.lowered.paced now := by
    rw [← hallow]
    rfl
  rw [sendNewData_eq, hallow]
  split
  · rename_i hpos
    rw [hgated, if_neg (fun h => by omega : ¬ (t.allowance now = 0 ∧ t.Shut))]
    have hn : min (min (t.allowance now) (t.lowered.paced now).unsentData)
        (t.lowered.paced now).maxSegmentPayload = t.portion now := by
      rw [hunsent, hmax]
      rfl
    simp only [sendAllowed, hn]
    split
    · rename_i hn0
      refine .inl ⟨?_, rfl⟩
      simp only [hsend, hsent]
      exact .data _ rfl hn0
    · rename_i hn0
      exact .inr ⟨rfl, Nat.eq_zero_of_not_pos hn0⟩
  · rename_i hzero
    have hzero' : t.allowance now = 0 := Nat.eq_zero_of_not_pos hzero
    have hportion : t.portion now = 0 := by
      rw [portion, hzero', Nat.zero_min, Nat.zero_min]
    split
    · rename_i hshut
      rw [Bool.and_eq_true, Bool.and_eq_true, decide_eq_true_eq, decide_eq_true_eq,
        decide_eq_true_eq] at hshut
      have hshut' : t.Shut := ⟨hshut.1.1, hshut.1.2, hshut.2⟩
      rw [if_pos ⟨hzero', hshut'⟩] at hgated
      rw [← hgated]
      have howed := (t.lowered.owed_gated now).1
      have hsend' : (t.lowered.gated now).toSendSpace = t.toSendSpace :=
        (reads_of_core (t.lowered.core_gated now)).1
      simp only [probe]
      split
      · rename_i hprobe
        rw [howed] at hprobe
        rw [show (t.lowered.gated now).sndUna = t.sndUna from congrArg SendSpace.sndUna hsend',
          show (t.lowered.gated now).tx = t.tx from congrArg SendSpace.tx hsend']
        exact .inl ⟨.probe hzero' hshut' hprobe, rfl⟩
      · exact .inr ⟨rfl, hportion⟩
    · rename_i hopen
      rw [hgated, if_neg]
      · exact .inr ⟨rfl, hportion⟩
      · rintro ⟨-, h1, h2, h3⟩
        have h1' : 0 < t.lowered.unsentData := h1
        have h2' : t.lowered.inflight = 0 := h2
        have h3' : t.lowered.rwndRoom = 0 := h3
        rw [decide_eq_true h1', decide_eq_true h2', decide_eq_true h3'] at hopen
        exact hopen rfl

/-- Nothing else happens on the data path. -/
theorem transmitDataOrFin_source (now : Instant) : Source t now (t.transmitDataOrFin now) := by
  have hemits : ∀ (q : Emit κ) (next : Tcb κ → Emit κ), q.2.isSome = true → q.orElse next = q := by
    rintro ⟨u, o⟩ next h
    cases o with
    | none => cases h
    | some d => rfl
  unfold transmitDataOrFin
  rcases t.retransmitOldest_cases now with ⟨hs, he⟩ | he
  · rwa [hemits _ _ he, hemits _ _ he, hemits _ _ he]
  rw [he]
  change Source t now (((t.lowered.sackRetransmit now).orElse _).orElse _)
  rcases t.sackRetransmit_cases now with ⟨hs, he⟩ | he
  · rwa [hemits _ _ he, hemits _ _ he]
  rw [he]
  change Source t now ((t.lowered.sendNewData now).orElse _)
  rcases t.sendNewData_cases now with ⟨hs, he⟩ | ⟨he, hportion⟩
  · rwa [hemits _ _ he]
  rw [he]
  obtain ⟨hsend, -, -, hend, -⟩ := reads_of_core (t.lowered.core_gated now)
  change Source t now ((t.lowered.gated now).sendFin now)
  simp only [sendFin, hsend, hend]
  split
  · rename_i hfin
    rw [Bool.and_eq_true, Bool.and_eq_true, Bool.not_eq_true', decide_eq_true_eq] at hfin
    exact .fin hportion hfin.1.1 hfin.1.2 hfin.2
  · exact .quiet hportion

/-! ## The whole call -/

/-- The state in which the owed ACK is looked at, where `poll_transmit` gets that far. -/
inductive Idles (t : Tcb κ) (now : Instant) : Tcb κ → Prop
  | synReceived : t.state = .synReceived → t.sndNxt ≠ t.iss → t.retransmit = false →
      Idles t now (t.clocked now)
  | timeWait : t.state = .timeWait → Idles t now (t.clocked now)
  | data : t.state.synchronized = true → (t.clocked now).portion now = 0 →
      Idles t now ((t.clocked now).lowered.gated now)

/-- What one call comes to. -/
inductive Turn (t : Tcb κ) (now : Instant) : Emit κ → Prop
  | rst (seq : SeqNumber) : t.pendingReset = some seq →
      Turn t now ({ t.clocked now with pendingReset := none }, some (t.buildRst seq))
  | mute : t.pendingReset = none → t.state = .closed ∨ t.state = .listen → Turn t now (t.clocked now, none)
  | syn : t.pendingReset = none → t.state = .synSent → t.sndNxt = t.iss →
      Turn t now (({ t.clocked now with sndNxt := t.iss + 1 } : Tcb κ).startRtx now,
        some (t.clocked now).buildSyn)
  | synAgain : t.pendingReset = none → t.state = .synSent → t.sndNxt ≠ t.iss → t.retransmit = true →
      Turn t now ({ t.clocked now with retransmit := false }, some (t.clocked now).buildSyn)
  | synWaits : t.pendingReset = none → t.state = .synSent → t.sndNxt ≠ t.iss → t.retransmit = false →
      Turn t now (t.clocked now, none)
  | synAck : t.pendingReset = none → t.state = .synReceived → t.sndNxt = t.iss →
      Turn t now (((t.clocked now).emit t.iss { syn := true } Bytes.empty).after
        fun u => { u with sndNxt := t.iss + 1 }.startRtx now)
  | synAckAgain : t.pendingReset = none → t.state = .synReceived → t.sndNxt ≠ t.iss →
      t.retransmit = true →
      Turn t now (({ t.clocked now with retransmit := false } : Tcb κ).emit t.iss { syn := true } Bytes.empty)
  | sends {q : Emit κ} : t.pendingReset = none → t.state.synchronized = true →
      Source (t.clocked now) now q → q.2.isSome = true → Turn t now q
  | ack {u : Tcb κ} : t.pendingReset = none → Idles t now u → t.needsAck = true →
      Turn t now (({ u with needsAck := false } : Tcb κ).emit u.sndNxt {} Bytes.empty)
  | idle {u : Tcb κ} : t.pendingReset = none → Idles t now u → t.needsAck = false → Turn t now (u, none)

/-- The owed ACK, behind everything else. -/
theorem emitOwedAck_turn {u : Tcb κ} (hp : t.pendingReset = none) (h : Idles t now u)
    (hu : u.needsAck = t.needsAck) : Turn t now u.emitOwedAck := by
  simp only [emitOwedAck]
  split
  · rename_i hack
    exact .ack hp h (hu ▸ hack)
  · rename_i hack
    exact .idle hp h (hu ▸ Bool.eq_false_iff.mpr hack)

/-- The states with a data path. -/
theorem transmits_turn (hp : t.pendingReset = none) (hst : t.state.synchronized = true) :
    Turn t now (((t.clocked now).transmitDataOrFin now).orElse (·.emitOwedAck)) := by
  have hsource := (t.clocked now).transmitDataOrFin_source now
  generalize (t.clocked now).transmitDataOrFin now = q at hsource
  obtain ⟨u, o⟩ := q
  cases o with
  | some d => exact .sends hp hst hsource rfl
  | none =>
    generalize hq : ((u, none) : Emit κ) = q at hsource
    cases hsource with
    | quiet hportion =>
      cases hq
      exact emitOwedAck_turn hp (.data hst hportion)
        (congrArg Owed.needsAck ((t.clocked now).lowered.owed_gated now).1)
    | _ => cases congrArg Prod.snd hq

/-- Nothing else happens. -/
theorem pollTransmit_turn (now : Instant) : Turn t now (t.pollTransmit now) := by
  unfold pollTransmit
  dsimp only
  split
  · rename_i seq hp
    exact .rst seq hp
  rename_i hp
  split
  · rename_i hst
    exact .mute hp (.inl hst)
  · rename_i hst
    exact .mute hp (.inr hst)
  · rename_i hst
    change Turn t now ((t.clocked now).pollSynSent now)
    simp only [pollSynSent]
    split
    · rename_i hn
      exact .syn hp hst hn
    rename_i hn
    split
    · rename_i hr
      exact .synAgain hp hst hn hr
    · rename_i hr
      exact .synWaits hp hst hn (Bool.eq_false_iff.mpr hr)
  · rename_i hst
    change Turn t now ((t.clocked now).pollSynReceived now)
    simp only [pollSynReceived]
    split
    · rename_i hn
      exact .synAck hp hst hn
    rename_i hn
    split
    · rename_i hr
      exact .synAckAgain hp hst hn hr
    · rename_i hr
      exact emitOwedAck_turn hp (.synReceived hst hn (Bool.eq_false_iff.mpr hr)) rfl
  · rename_i hst
    exact emitOwedAck_turn hp (.timeWait hst) rfl
  · refine transmits_turn hp ?_
    cases hst : t.state <;> simp_all [State.synchronized]

/-! ## What every part of a transmission keeps -/

/-- No part of a transmission takes `I` away. -/
structure TransmitKeeps (now : Instant) (I : Tcb κ → Prop) : Prop where
  clocked : ∀ u, I u → I (u.clocked now)
  owed : ∀ u (o : Owed), I u → I { u with toOwed := o }
  flag : ∀ u (b : Bool), I u → I { u with retransmit := b }
  syn : ∀ u (n : SeqNumber), I u → I { u with sndNxt := n }
  paced : ∀ u, I u → I (u.paced now)
  armPersist : ∀ u, I u → I (u.armPersist now)
  emit : ∀ u (seq : SeqNumber) (extra : TcpFlags) (payload : Bytes), I u → I (u.emit seq extra payload).1
  startRtx : ∀ u, I u → I (u.startRtx now)
  noteRexmit : ∀ u (seq : SeqNumber) (n : Nat) (isRescue : Bool), I u → I (u.noteRexmit seq n isRescue)
  noteSent : ∀ u (n room : Nat), I u → I (u.noteSent now n room)
  noteFin : ∀ u, I u → I (u.noteFin now)

namespace TransmitKeeps

variable {I : Tcb κ → Prop} (h : TransmitKeeps now I)

include h

theorem gated (hu : I t) : I (t.gated now) := by
  unfold Tcb.gated
  split
  · exact h.armPersist _ (h.paced _ hu)
  · exact h.paced _ hu

theorem source (ht : I t) {q : Emit κ} (hs : Source t now q) : I q.1 := by
  have hlow : I t.lowered := h.flag t _ ht
  cases hs with
  | resend => exact h.startRtx _ (h.emit _ _ _ _ (h.flag t _ ht))
  | resendFin => exact h.startRtx _ (h.emit _ _ _ _ (h.flag t _ ht))
  | repair => exact h.startRtx _ (h.noteRexmit _ _ _ _ (h.emit _ _ _ _ hlow))
  | data => exact h.startRtx _ (h.noteSent _ _ _ (h.emit _ _ _ _ (h.paced _ hlow)))
  | probe =>
    apply h.emit
    exact h.owed _ { (t.lowered.gated now).toOwed with sendProbe := false } (h.gated hlow)
  | fin => exact h.noteFin _ (h.emit _ _ _ _ (h.gated hlow))
  | quiet => exact h.gated hlow

theorem idles (ht : I t) {u : Tcb κ} (hu : Idles t now u) : I u := by
  cases hu with
  | synReceived => exact h.clocked t ht
  | timeWait => exact h.clocked t ht
  | data => exact h.gated (h.flag _ _ (h.clocked t ht))

/-- Nor does the whole call. -/
theorem poll (ht : I t) : I (t.pollTransmit now).1 := by
  have hclocked := h.clocked t ht
  have hturn := t.pollTransmit_turn now
  generalize t.pollTransmit now = q at hturn ⊢
  cases hturn with
  | rst => exact h.owed _ { t.toOwed with pendingReset := none } hclocked
  | mute => exact hclocked
  | syn => exact h.startRtx _ (h.syn _ _ hclocked)
  | synAgain => exact h.flag _ _ hclocked
  | synWaits => exact hclocked
  | synAck => exact h.startRtx _ (h.syn _ _ (h.emit _ _ _ _ hclocked))
  | synAckAgain => exact h.emit _ _ _ _ (h.flag _ _ hclocked)
  | sends _ _ hs => exact h.source hclocked hs
  | ack _ hu =>
    apply h.emit
    exact h.owed _ { (Tcb.toOwed _) with needsAck := false } (h.idles ht hu)
  | idle _ hu => exact h.idles ht hu

end TransmitKeeps

end Tcb

end Ferrumnet
