import Ferrumnet.Handshake

/-
  A simultaneous open never completes on SYN-ACKs.

  Two endpoints that both connect cross their SYNs and both go to SYN-RECEIVED,
  where each answers with a SYN-ACK. A SYN-ACK is a SYN at `IRS`, so it meets
  the branch that was written for a repeated SYN of a passive open: the
  acknowledgement in it is never looked at.

  1. `Tcb.Quiet` — nothing is owed but the SYN or the SYN-ACK.
  2. `Crossing` — both endpoints stand in the handshake, and only SYNs are on
     the wires.
  3. `simultaneous_open_stuck` — once both have emitted a SYN-ACK, not both are
     ESTABLISHED, ever.
-/

namespace Ferrumnet

/-- The actions of a simultaneous open. -/
def Action.opening : Action → Prop
  | .connect .. | .deliver .. | .timer .. | .poll .. => True
  | _ => False

namespace Tcb

variable {κ : Type} [CongestionControl κ] {t : Tcb κ}

/-- Neither an ACK nor a RST is owed, and no timer is armed that owes one. -/
structure Quiet (t : Tcb κ) : Prop where
  ack : t.needsAck = false
  reset : t.pendingReset = none
  delayed : t.delayedAckDeadline = none
  wait : t.timeWaitDeadline = none

omit [CongestionControl κ] in
theorem Quiet.congr {t' : Tcb κ} (h : t.Quiet) (h1 : t'.needsAck = t.needsAck)
    (h2 : t'.pendingReset = t.pendingReset) (h3 : t'.delayedAckDeadline = t.delayedAckDeadline)
    (h4 : t'.timeWaitDeadline = t.timeWaitDeadline) : t'.Quiet :=
  ⟨h1.trans h.ack, h2.trans h.reset, h3.trans h.delayed, h4.trans h.wait⟩

omit [CongestionControl κ] in
theorem Quiet.startRtx (h : t.Quiet) (now : Instant) : (t.startRtx now).Quiet := by
  unfold Tcb.startRtx
  split
  · exact h.congr rfl rfl rfl rfl
  · exact h

theorem Quiet.onRtxTimer (h : t.Quiet) (now : Instant) : (t.onRtxTimer now).Quiet := by
  unfold Tcb.onRtxTimer
  split
  · split
    · simp only [synTimeout]
      split <;> exact h.congr rfl rfl rfl rfl
    · exact h.congr rfl rfl rfl rfl
  · exact h

omit [CongestionControl κ] in
theorem Quiet.onPersistTimer (h : t.Quiet) (now : Instant) : (t.onPersistTimer now).Quiet := by
  unfold Tcb.onPersistTimer
  split
  · exact h.congr rfl rfl rfl rfl
  · exact h

theorem Quiet.onTimer (h : t.Quiet) (now : Instant) : (t.onTimer now).Quiet := by
  have hp := (h.onRtxTimer now).onPersistTimer now
  have hw : ((t.onRtxTimer now).onPersistTimer now).onTimeWaitTimer now =
      (t.onRtxTimer now).onPersistTimer now := by
    simp [onTimeWaitTimer, hp.wait, Instant.due]
  rw [Tcb.onTimer, hw, onDelayedAckTimer, hp.delayed]
  exact hp

omit [CongestionControl κ] in
theorem Quiet.build (h : t.Quiet) (seq : SeqNumber) (extra : TcpFlags) (payload : Bytes) :
    (t.build seq extra payload).1.Quiet := ⟨h.ack, h.reset, rfl, h.wait⟩

/-- `poll_transmit` in SYN-SENT: a SYN without ACK, or nothing once it is out. -/
theorem Quiet.pollSynSent (h : t.Quiet) (now : Instant) :
    (t.pollSynSent now).1.Quiet ∧ (t.pollSynSent now).1.state = t.state ∧
      (t.pollSynSent now).1.iss = t.iss ∧
      (t.sndNxt = t.iss ∨ t.sndNxt = t.iss + 1 → (t.pollSynSent now).1.sndNxt = t.iss + 1) ∧
      ∀ d, (t.pollSynSent now).2 = some d → d.repr.flags = { syn := true } := by
  unfold Tcb.pollSynSent
  split
  · have hq : { t with sndNxt := t.iss + 1 }.Quiet := h.congr rfl rfl rfl rfl
    have hc := core_startRtx { t with sndNxt := t.iss + 1 } now
    refine ⟨hq.startRtx now, congrArg Core.state hc, congrArg (fun c : Core => c.iss) hc,
      fun _ => congrArg (fun c : Core => c.sndNxt) hc, fun d hd => ?_⟩
    cases hd
    rfl
  · rename_i hn
    split
    · refine ⟨h.congr rfl rfl rfl rfl, rfl, rfl, fun ho => ho.resolve_left hn, fun d hd => ?_⟩
      cases hd
      rfl
    · refine ⟨h, rfl, rfl, fun ho => ho.resolve_left hn, fun d hd => ?_⟩
      cases hd

/-- `poll_transmit` in SYN-RECEIVED: a SYN-ACK, or nothing. -/
theorem Quiet.pollSynReceived (h : t.Quiet) (now : Instant) :
    (t.pollSynReceived now).1.Quiet ∧ (t.pollSynReceived now).1.state = t.state ∧
      (t.pollSynReceived now).1.irs = t.irs ∧ (t.pollSynReceived now).1.rcvNxt = t.rcvNxt ∧
      ∀ d, (t.pollSynReceived now).2 = some d →
        d.repr.flags.syn = true ∧ d.repr.flags.rst = false ∧ d.repr.ack = t.rcvNxt := by
  have hbuilt : ∀ d, some (t.build t.iss { syn := true } Bytes.empty).2 = some d →
      d.repr.flags.syn = true ∧ d.repr.flags.rst = false ∧ d.repr.ack = t.rcvNxt := by
    intro d hd
    cases hd
    exact ⟨aceFlags_syn .., aceFlags_rst .., rfl⟩
  unfold Tcb.pollSynReceived
  split
  · have hq : { (t.build t.iss { syn := true } Bytes.empty).1 with sndNxt := t.iss + 1 }.Quiet :=
      (h.build t.iss { syn := true } Bytes.empty).congr rfl rfl rfl rfl
    have hc := core_startRtx { (t.build t.iss { syn := true } Bytes.empty).1 with sndNxt := t.iss + 1 } now
    exact ⟨hq.startRtx now, congrArg Core.state hc,
      congrArg (fun c : Core => c.irs) hc, congrArg (fun c : Core => c.rcvNxt) hc, hbuilt⟩
  · split
    · have hq : { t with retransmit := false }.Quiet := h.congr rfl rfl rfl rfl
      exact ⟨hq.build t.iss { syn := true } Bytes.empty, rfl, rfl, rfl, hbuilt⟩
    · rw [emitOwedAck, if_neg (by rw [h.ack]; simp)]
      refine ⟨h, rfl, rfl, rfl, fun d hd => ?_⟩
      cases hd

/-- Which of the two runs. -/
theorem Quiet.pollTransmit (h : t.Quiet) (now : Instant) :
    { t with curTsval := BitVec.ofNat 32 now.micros }.Quiet ∧
      (t.state = .synSent → t.pollTransmit now =
        { t with curTsval := BitVec.ofNat 32 now.micros }.pollSynSent now) ∧
      (t.state = .synReceived → t.pollTransmit now =
        { t with curTsval := BitVec.ofNat 32 now.micros }.pollSynReceived now) := by
  refine ⟨h.congr rfl rfl rfl rfl, fun hst => ?_, fun hst => ?_⟩ <;>
    simp only [Tcb.pollTransmit, h.reset, hst]

/-- The peer's SYN once more, with or without ACK, in SYN-RECEIVED. -/
theorem Quiet.synAgain (h : t.Quiet) (hst : t.state = .synReceived) {p : TcpPacket}
    (hsyn : p.flags.syn = true) (hrst : p.flags.rst = false) (hseq : p.seq = t.irs) (now : Instant)
    (ce : Bool) : (t.onSegment now p ce).Quiet ∧
      (t.onSegment now p ce).core = { t.core with sndNxt := t.iss } := by
  have he : t.onSegment now p ce = { t with sndNxt := t.iss } := by
    simp [onSegment, onSyn, hst, hsyn, hrst, hseq]
  rw [he]
  exact ⟨h.congr rfl rfl rfl rfl, rfl⟩

/-- The peer's SYN without ACK, in SYN-SENT. -/
theorem Quiet.crossed (h : t.Quiet) (hst : t.state = .synSent) {p : TcpPacket}
    (hsyn : p.flags.syn = true) (hack : p.flags.ack = false) (hrst : p.flags.rst = false)
    (now : Instant) (ce : Bool) : (t.onSegment now p ce).Quiet ∧
      (t.onSegment now p ce).state = .synReceived ∧
      (t.onSegment now p ce).rcvNxt = (t.onSegment now p ce).irs + 1 := by
  have he : t.onSegment now p ce =
      { t.learnPeer p with sndWl2 := t.iss, state := .synReceived, retransmit := true } := by
    simp [onSegment, onSegmentSynSent, hst, hsyn, hrst, hack]
    rfl
  rw [he]
  exact ⟨h.congr rfl rfl rfl rfl, rfl, rfl⟩

/-- The SYN-ACK of a peer that has seen the SYN, in SYN-SENT. -/
theorem synAcked (hst : t.state = .synSent) {p : TcpPacket} (hsyn : p.flags.syn = true)
    (hrst : p.flags.rst = false) (hack : p.flags.ack = true) (hat : p.ack = t.iss + 1)
    (hnxt : t.sndNxt = t.iss + 1) (now : Instant) (ce : Bool) :
    (t.onSegment now p ce).state = .established := by
  have hgt : (t.iss + 1).gt t.iss = true := by
    rw [SeqNumber.gt_iff, SeqNumber.offsetFrom_add]
    omega
  have hle : (t.iss + 1).le (t.iss + 1) = true := by
    rw [SeqNumber.le_iff, SeqNumber.offsetFrom_self]
    exact .inl rfl
  simp [onSegment, onSegmentSynSent, hst, hsyn, hrst, hack, hat, hnxt, hgt, hle]

end Tcb

namespace Host

variable {κ : Type} [CongestionControl κ] {r r' : Host κ} {mine theirs : List Packet}

/-- A SYN is sent from the handshake only. -/
theorem Ok.syn_state (h : r.Ok) {i : Input} {d : Datagram} (hd : (r.input i).2 = some d)
    (hsyn : d.repr.flags.syn = true) : r.tcb.state = .synSent ∨ r.tcb.state = .synReceived := by
  cases i with
  | poll now =>
    have hp := h.polls now
    change (r.tcb.pollTransmit now).2 = some d at hd
    generalize r.tcb.pollTransmit now = q at hp hd
    obtain ⟨t, o⟩ := q
    dsimp only at hp hd
    subst hd
    cases hp with
    | rst seq _ _ => cases hsyn
    | syn hst _ => exact .inl hst
    | @segment t₀ seq extra payload _ _ h0 _ hs _ =>
      have hsyn' := (t₀.build_spec seq extra payload).2.2.2.2.1.symm.trans hsyn
      cases hs with
      | synAck hst _ => exact .inr hst
      | synAckAgain hst _ => exact .inr hst
      | _ => cases hsyn'
  | _ => cases hd

omit [CongestionControl κ]

/-- A host in the handshake: its SYN alone is out, or the peer's has come. -/
inductive Stage (r : Host κ) (mine theirs : List Packet) : Prop
  | sent : r.tcb.state = .synSent → (∀ p ∈ mine, p.dgram.repr.flags.ack = false) →
      (r.tcb.sndNxt = r.tcb.iss ∧ mine = [] ∨ r.tcb.sndNxt = r.tcb.iss + 1) → Stage r mine theirs
  | crossed : r.tcb.state = .synReceived → r.tcb.rcvNxt = r.tcb.irs + 1 → theirs ≠ [] →
      (∀ p ∈ mine, p.dgram.repr.flags.ack = true → p.dgram.repr.ack = r.tcb.irs + 1) →
      Stage r mine theirs

/-- A host in the handshake that has sent nothing but SYNs. -/
structure Opening (r : Host κ) (mine theirs : List Packet) : Prop where
  quiet : r.tcb.Quiet
  syns : ∀ p ∈ mine, p.dgram.repr.flags.syn = true ∧ p.dgram.repr.flags.rst = false
  stage : r.Stage mine theirs

theorem Opening.grows {more : List Packet} (h : r.Opening mine theirs) :
    r.Opening mine (theirs ++ more) := by
  refine ⟨h.quiet, h.syns, ?_⟩
  cases h.stage with
  | sent hst hno hstart => exact .sent hst hno hstart
  | crossed hst hn ht ha => exact .crossed hst hn (by simp [ht]) ha

end Host

namespace World

variable {κ : Type} [CongestionControl κ] {w w' : World κ}

/-- Both endpoints stand in the handshake. -/
def Crossing (w : World κ) : Prop :=
  ∀ x r, w.host x = some r → r.Opening (w.wire x) (w.wire x.other)

/-- How two endpoints that both connect can end up: in the handshake for good, or
with one that is past it and has never sent a SYN-ACK, or with one closed. -/
inductive Stuck (w : World κ) : Prop
  | crossing : w.Crossing → Stuck w
  | oneSided (x : Side) (r : Host κ) : w.host x = some r → r.tcb.state ≠ .synSent →
      r.tcb.state ≠ .synReceived →
      (∀ p ∈ w.wire x, p.dgram.repr.flags.syn = true → p.dgram.repr.flags.ack = false) → Stuck w
  | closed (x : Side) (r : Host κ) : w.host x = some r → r.tcb.state = .closed → Stuck w

omit [CongestionControl κ] in
theorem Crossing.update (hc : w.Crossing) {x : Side} {r : Host κ} {o : Option Packet}
    (hr : r.Opening (w.wire x ++ o.toList) (w.wire x.other)) :
    ((w.setHost x r).transmit x o).Crossing := by
  intro y s hy
  rcases Side.eq_or_other x y with rfl | rfl <;> simp at hy ⊢
  · subst hy
    exact hr
  · have := hc _ _ hy
    rw [Side.other_other] at this
    exact this.grows

/-- A host past the handshake sends no SYN. -/
theorem Moves.past {r r' : Host κ} {theirs : List Packet} {o : Option Packet}
    (h : Moves r theirs r' o) (hok : r.Ok) (h1 : r.tcb.state ≠ .synSent)
    (h2 : r.tcb.state ≠ .synReceived) : r'.tcb.state ≠ .synSent ∧ r'.tcb.state ≠ .synReceived ∧
      ∀ p ∈ o.toList, p.dgram.repr.flags.syn = false := by
  cases h with
  | stands => exact ⟨h1, h2, by simp⟩
  | segment p now ce hp =>
    have ht := r.tcb.core_onSegment now p.dgram.parse ce
    exact ⟨(Host.stays_segment h1 ht).past h1, Host.segment_past ht h1 h2, by simp⟩
  | own i hi =>
    refine ⟨(hok.stays hi).past h1, Host.input_past hok h1 h2 i, fun p hp => ?_⟩
    simp only [Option.mem_toList, Option.map_eq_some_iff] at hp
    obtain ⟨d, hd, rfl⟩ := hp
    refine Bool.eq_false_iff.mpr fun hsyn => ?_
    rcases hok.syn_state hd hsyn with h | h
    · exact h1 h
    · exact h2 h

/-- A closed host stays closed. -/
theorem Moves.closed {r r' : Host κ} {theirs : List Packet} {o : Option Packet}
    (h : Moves r theirs r' o) (hok : r.Ok) (hcl : r.tcb.state = .closed) :
    r'.tcb.state = .closed := by
  have hns : r.tcb.state ≠ .synSent := by simp [hcl]
  cases h with
  | stands => exact hcl
  | segment p now ce hp =>
    have hs := Host.stays_segment hns (r.tcb.core_onSegment now p.dgram.parse ce)
    exact (hs.waits (.inr hcl)).resolve_left (hs.past hns)
  | own i hi =>
    have hs := hok.stays hi
    exact (hs.waits (.inr hcl)).resolve_left (hs.past hns)

omit [CongestionControl κ] in
/-- A host that has settled the options knows the ISS of its peer. -/
theorem Agreed.irs (ha : Agreed w) {x : Side} {r s : Host κ} (hx : w.host x = some r)
    (hs : w.host x.other = some s) (hw : ¬ r.Waits) : r.tcb.irs = s.tcb.iss := by
  cases ha.settled x r hx with
  | waits hn => exact absurd hn hw
  | answered q hq hsyn hk => exact hk.irs.trans (ha.offers _ s hs q hq hsyn).seq
  | asked q o hq hsyn _ _ hk _ => exact hk.irs.trans (ha.offers _ s hs q hq hsyn).seq

/-- A SYN or SYN-ACK delivered in the handshake. -/
theorem Crossing.deliver (hc : w.Crossing) (ha : Agreed w) {x : Side} {r : Host κ} {p : Packet}
    (hx : w.host x = some r) (hp : p ∈ w.wire x.other) (now : Instant) (ce : Bool) :
    Stuck (w.setHost x (r.follow (r.tcb.onSegment now p.dgram.parse ce))) := by
  rcases hs : w.host x.other with _ | s
  · rw [ha.silent _ hs] at hp
    cases hp
  have hr := hc x r hx
  have hpeer := hc x.other s hs
  rw [Side.other_other] at hpeer
  obtain ⟨hsyn, hrst⟩ := hpeer.syns p hp
  have hseq : p.dgram.parse.seq = s.tcb.iss := (ha.offers _ s hs p hp hsyn).seq
  have hstay : ∀ t : Tcb κ, (r.follow t).Opening (w.wire x) (w.wire x.other) →
      Stuck (w.setHost x (r.follow t)) := by
    intro t ht
    rw [← transmit_none (w := w.setHost x (r.follow t)) x]
    exact .crossing (hc.update (by simpa using ht))
  cases hr.stage with
  | sent hst hno hstart =>
    rcases hack : p.dgram.repr.flags.ack with _ | _
    · obtain ⟨hq, hst', hn⟩ := hr.quiet.crossed (p := p.dgram.parse) hst hsyn hack hrst now ce
      exact hstay _ ⟨hq, hr.syns, .crossed hst' hn (List.ne_nil_of_mem hp)
        fun q hq hqa => absurd hqa (by simp [hno q hq])⟩
    · -- the peer has seen the SYN, so it is out and the ACK is good
      cases hpeer.stage with
      | sent _ hno' _ =>
        rw [hno' p hp] at hack
        cases hack
      | crossed hst' _ hne hacks =>
        have hirs : s.tcb.irs = r.tcb.iss := ha.irs hs (by rw [Side.other_other]; exact hx)
          (by simp [Host.Waits, hst'])
        have hat : p.dgram.parse.ack = r.tcb.iss + 1 := (hacks p hp hack).trans (by rw [hirs])
        have hnxt : r.tcb.sndNxt = r.tcb.iss + 1 := by
          rcases hstart with ⟨-, h⟩ | h
          · exact absurd h hne
          · exact h
        have hest := Tcb.synAcked (p := p.dgram.parse) hst hsyn hrst hack hat hnxt now ce
        refine .oneSided x (r.follow (r.tcb.onSegment now p.dgram.parse ce)) (host_setHost ..) ?_ ?_ ?_
        · change (r.tcb.onSegment now p.dgram.parse ce).state ≠ _
          simp [hest]
        · change (r.tcb.onSegment now p.dgram.parse ce).state ≠ _
          simp [hest]
        · intro q hq _
          rw [wire_setHost] at hq
          exact hno q hq
  | crossed hst hn hne hacks =>
    have hirs := ha.irs hx hs (by simp [Host.Waits, hst])
    obtain ⟨hq, hcore⟩ := hr.quiet.synAgain (p := p.dgram.parse) hst hsyn hrst (hseq.trans hirs.symm)
      now ce
    generalize r.tcb.onSegment now p.dgram.parse ce = t at hq hcore ⊢
    have hirs' : t.irs = r.tcb.irs := congrArg (fun c : Core => c.irs) hcore
    refine hstay t ⟨hq, hr.syns, .crossed ((congrArg Core.state hcore).trans hst) ?_ hne ?_⟩
    · change t.rcvNxt = t.irs + 1
      rw [hirs', ← hn]
      exact congrArg (fun c : Core => c.rcvNxt) hcore
    · intro q hq hqa
      change _ = t.irs + 1
      rw [hirs']
      exact hacks q hq hqa

/-- A timer in the handshake. -/
theorem Crossing.timer (hc : w.Crossing) {x : Side} {r : Host κ} (hx : w.host x = some r)
    (now : Instant) : Stuck (w.setHost x (r.follow (r.tcb.onTimer now))) := by
  have hr := hc x r hx
  have hq := hr.quiet.onTimer now
  have hcases := r.tcb.core_onTimer now
  generalize r.tcb.onTimer now = t at hq hcases ⊢
  rcases hcases with hcore | hcore
  · rw [← transmit_none (w := w.setHost x (r.follow t)) x]
    have hirs : t.irs = r.tcb.irs := congrArg (fun c : Core => c.irs) hcore
    have hiss : t.iss = r.tcb.iss := congrArg (fun c : Core => c.iss) hcore
    have hnxt : t.sndNxt = r.tcb.sndNxt := congrArg (fun c : Core => c.sndNxt) hcore
    have hrcv : t.rcvNxt = r.tcb.rcvNxt := congrArg (fun c : Core => c.rcvNxt) hcore
    have hst : t.state = r.tcb.state := congrArg Core.state hcore
    refine .crossing (hc.update ?_)
    rw [Option.toList_none, List.append_nil]
    refine ⟨hq, hr.syns, ?_⟩
    cases hr.stage with
    | sent h1 h2 h3 => exact .sent (hst.trans h1) h2 (by simpa [hnxt, hiss] using h3)
    | crossed h1 h2 h3 h4 =>
      exact .crossed (hst.trans h1) (by simpa [hrcv, hirs] using h2) h3 (by simpa [hirs] using h4)
  · exact .closed x _ (host_setHost ..) (congrArg Core.state hcore)

/-- A transmission in the handshake. -/
theorem Crossing.poll (hc : w.Crossing) {x : Side} {r : Host κ} (hx : w.host x = some r)
    (now : Instant) : Stuck ((w.setHost x (r.follow (r.tcb.pollTransmit now).1)).transmit x
      ((r.tcb.pollTransmit now).2.map r.label)) := by
  have hr := hc x r hx
  obtain ⟨hq, hsent, hrecv⟩ := hr.quiet.pollTransmit now
  have hnew : ∀ o : Option Datagram, ∀ p ∈ w.wire x ++ (o.map r.label).toList,
      p ∈ w.wire x ∨ o = some p.dgram := by
    intro o p hp
    rcases List.mem_append.mp hp with hp | hp
    · exact .inl hp
    · simp only [Option.mem_toList, Option.map_eq_some_iff] at hp
      obtain ⟨d, hd, rfl⟩ := hp
      exact .inr hd
  cases hr.stage with
  | sent hst hno hstart =>
    rw [hsent hst]
    generalize hu : { r.tcb with curTsval := BitVec.ofNat 32 now.micros } = u at hq
    obtain ⟨hq', hst', hiss, hnxt, hflags⟩ := hq.pollSynSent now
    generalize u.pollSynSent now = e at hq' hst' hiss hnxt hflags ⊢
    have hu1 : u.state = r.tcb.state := by rw [← hu]
    have hu2 : u.iss = r.tcb.iss := by rw [← hu]
    have hu3 : u.sndNxt = r.tcb.sndNxt := by rw [← hu]
    refine .crossing (hc.update ⟨hq', fun p hp => ?_, .sent (hst'.trans (hu1.trans hst))
      (fun p hp => ?_) (.inr ?_)⟩)
    · rcases hnew e.2 p hp with hp | hp
      · exact hr.syns p hp
      · rw [hflags _ hp]
        exact ⟨rfl, rfl⟩
    · rcases hnew e.2 p hp with hp | hp
      · exact hno p hp
      · rw [hflags _ hp]
    · change e.1.sndNxt = e.1.iss + 1
      rw [hiss]
      refine hnxt ?_
      rw [hu2, hu3]
      exact hstart.imp And.left id
  | crossed hst hn hne hacks =>
    rw [hrecv hst]
    generalize hu : { r.tcb with curTsval := BitVec.ofNat 32 now.micros } = u at hq
    obtain ⟨hq', hst', hirs, hrcv, hflags⟩ := hq.pollSynReceived now
    generalize u.pollSynReceived now = e at hq' hst' hirs hrcv hflags ⊢
    have hu1 : u.state = r.tcb.state := by rw [← hu]
    have hu2 : u.irs = r.tcb.irs := by rw [← hu]
    have hu3 : u.rcvNxt = r.tcb.rcvNxt := by rw [← hu]
    have hrcv' : u.rcvNxt = e.1.irs + 1 := by rw [hu3, hirs, hu2, hn]
    refine .crossing (hc.update ⟨hq', fun p hp => ?_, .crossed (hst'.trans (hu1.trans hst))
      (hrcv.trans hrcv') hne fun p hp hpa => ?_⟩)
    · rcases hnew e.2 p hp with hp | hp
      · exact hr.syns p hp
      · obtain ⟨h1, h2, -⟩ := hflags _ hp
        exact ⟨h1, h2⟩
    · change _ = e.1.irs + 1
      rcases hnew e.2 p hp with hp | hp
      · rw [hirs, hu2]
        exact hacks p hp hpa
      · rw [← hrcv']
        exact (hflags _ hp).2.2

/-- What one action keeps. -/
theorem stuck_step (hs : Stuck w) (ha : Agreed w) {act : Action} (hact : act.opening)
    (h : w.apply act = some w') : Stuck w' := by
  have hsteps := apply_steps h
  cases hs with
  | crossing hc =>
    cases hsteps with
    | connect x loc remote iss now mss kind hx =>
      have hcore := core_setCongestionControl (Tcb.newSynSent loc remote iss now mss : Tcb κ) kind
      rw [← transmit_none (w := w.setHost x _) x]
      refine .crossing (hc.update ?_)
      rw [ha.silent x hx]
      refine ⟨?_, by simp, .sent (congrArg Core.state hcore) (by simp) (.inl ⟨?_, by simp⟩)⟩
      · change ((Tcb.newSynSent loc remote iss now mss : Tcb κ).setCongestionControl kind).Quiet
        unfold Tcb.setCongestionControl
        split <;> exact ⟨rfl, rfl, rfl, rfl⟩
      · exact (congrArg (fun c : Core => c.sndNxt) hcore).trans
          (congrArg (fun c : Core => c.iss) hcore).symm
    | accept => exact absurd hact id
    | deliver x i now ce r p hx hp => exact hc.deliver ha hx (List.mem_of_getElem? hp) now ce
    | own act x r i hx hi =>
      cases act with
      | timer y now =>
        cases hi
        rw [show ((r.input (.timer now)).2.map r.label) = none from rfl, transmit_none]
        exact hc.timer hx now
      | poll y now =>
        cases hi
        exact hc.poll hx now
      | _ => cases hact <;> cases hi
  | oneSided x r hx h1 h2 hno =>
    obtain ⟨r', o, hx', hwire, hm⟩ := hsteps.moves hx
    obtain ⟨h1', h2', hsyn⟩ := hm.past (ha.ok x r hx) h1 h2
    refine .oneSided x r' hx' h1' h2' fun p hp hps => ?_
    rw [hwire] at hp
    rcases List.mem_append.mp hp with hp | hp
    · exact hno p hp hps
    · rw [hsyn p hp] at hps
      cases hps
  | closed x r hx hcl =>
    obtain ⟨r', o, hx', -, hm⟩ := hsteps.moves hx
    exact .closed x r' hx' (hm.closed (ha.ok x r hx) hcl)

/-- What a whole run of them keeps. -/
theorem stuck_run {acts : List Action} (hact : ∀ act ∈ acts, act.opening)
    (hr : Run.run apply init acts = some w) : Agreed w ∧ Stuck w := by
  refine Run.run_invariant_along (I := fun w : World κ => Agreed w ∧ Stuck w)
    (C := fun _ act => act.opening) (fun v act v' hi hc h => ?_)
    ⟨agreed_init, .crossing fun x r hx => ?_⟩ (Run.along_of_forall hact _) hr
  · refine ⟨agreed_step hi.1 ?_ h, stuck_step hi.2 hi.1 hc h⟩
    cases act <;> trivial
  · cases x <;> cases hx

/-- Both endpoints are ESTABLISHED, each expecting the octet after the other's SYN. -/
def Completed (w : World κ) : Prop :=
  ∀ x, ∃ r s, w.host x = some r ∧ w.host x.other = some s ∧ r.tcb.state = .established ∧
    r.tcb.rcvNxt = s.tcb.iss + 1

/-- Two endpoints that both connect: once each has emitted a SYN-ACK, all the
more once each has been delivered the other's, the open never completes. -/
theorem simultaneous_open_stuck {acts : List Action} (hact : ∀ act ∈ acts, act.opening)
    (hr : Run.run apply init acts = some w)
    (hsynAck : ∀ x, ∃ p ∈ w.wire x, p.dgram.repr.flags.syn = true ∧ p.dgram.repr.flags.ack = true) :
    ¬ w.Completed := by
  intro hdone
  cases (stuck_run hact hr).2 with
  | crossing hc =>
    obtain ⟨r, s, hx, -, hest, -⟩ := hdone .a
    cases (hc .a r hx).stage with
    | sent hst _ _ => simp [hst] at hest
    | crossed hst _ _ _ => simp [hst] at hest
  | oneSided x r _ _ _ hno =>
    obtain ⟨p, hp, hsyn, hack⟩ := hsynAck x
    rw [hno p hp hsyn] at hack
    cases hack
  | closed x r hx hcl =>
    obtain ⟨r', s, hx', -, hest, -⟩ := hdone x
    rw [hx] at hx'
    cases hx'
    simp [hcl] at hest

/-- Both connect; each is delivered the other's SYN, and then its SYN-ACK. -/
def crossedSyns : List Action :=
  [.connect .a ⟨1, 1000⟩ ⟨2, 80⟩ (SeqNumber.new 100) ⟨0⟩ 65495 .reno,
    .connect .b ⟨2, 80⟩ ⟨1, 1000⟩ (SeqNumber.new 9000) ⟨0⟩ 65495 .reno,
    .poll .a ⟨0⟩, .poll .b ⟨0⟩, .deliver .a 0 ⟨0⟩ false, .deliver .b 0 ⟨0⟩ false,
    .poll .a ⟨0⟩, .poll .b ⟨0⟩, .deliver .a 1 ⟨0⟩ false, .deliver .b 1 ⟨0⟩ false]

instance (w : World κ) : Decidable (∀ x, ∃ p ∈ w.wire x,
    p.dgram.repr.flags.syn = true ∧ p.dgram.repr.flags.ack = true) :=
  decidable_of_iff (((w.wire .a).any fun p => p.dgram.repr.flags.syn && p.dgram.repr.flags.ack) = true ∧
    ((w.wire .b).any fun p => p.dgram.repr.flags.syn && p.dgram.repr.flags.ack) = true) (by
      constructor
      · rintro ⟨ha, hb⟩ x
        cases x
        · simpa using ha
        · simpa using hb
      · intro h
        exact ⟨by simpa using h .a, by simpa using h .b⟩)

theorem simultaneous_open_stuck_crossedSyns : ∃ w : World Reno,
    Run.run apply init crossedSyns = some w ∧ ¬ w.Completed := by
  obtain ⟨w, hr, hs⟩ := Run.exists_run apply (init : World Reno) crossedSyns
    (fun w => ∀ x, ∃ p ∈ w.wire x, p.dgram.repr.flags.syn = true ∧ p.dgram.repr.flags.ack = true)
    (by decide +kernel)
  exact ⟨w, hr, simultaneous_open_stuck (by simp [crossedSyns, Action.opening]) hr hs⟩

/-- The SYN-ACKs leave both in SYN-RECEIVED. -/
theorem crossedSyns_synReceived : ∃ w : World Reno, Run.run apply init crossedSyns = some w ∧
    ((w.wire .a)[1]?.map (fun p => p.dgram.repr.flags) = some { syn := true, ack := true } ∧
      (w.wire .b)[1]?.map (fun p => p.dgram.repr.flags) = some { syn := true, ack := true }) ∧
    (w.host .a).map (fun h => h.tcb.state) = some .synReceived ∧
    (w.host .b).map (fun h => h.tcb.state) = some .synReceived ∧ ¬ w.Completed := by
  obtain ⟨w, hr, hflags, ha, hb⟩ := Run.exists_run apply (init : World Reno) crossedSyns
    (fun w => ((w.wire .a)[1]?.map (fun p => p.dgram.repr.flags) = some { syn := true, ack := true } ∧
      (w.wire .b)[1]?.map (fun p => p.dgram.repr.flags) = some { syn := true, ack := true }) ∧
      (w.host .a).map (fun h => h.tcb.state) = some .synReceived ∧
      (w.host .b).map (fun h => h.tcb.state) = some .synReceived) (by decide +kernel)
  refine ⟨w, hr, hflags, ha, hb, fun hdone => ?_⟩
  obtain ⟨r, s, hx, -, hest, -⟩ := hdone .a
  rw [hx, Option.map_some, hest] at ha
  cases ha

end World

end Ferrumnet
