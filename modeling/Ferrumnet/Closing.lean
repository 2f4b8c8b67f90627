import Ferrumnet.Feed

/-
  The state and the two FINs.

  `recompute_closing_state` reads two flags; the FIN of the Tcb itself goes out on
  the transmit path, and timers and resets close the connection past both.

  1. `Flags` — which FINs have gone by in each state.
  2. `Ok.agrees` — one call keeps them in step, whatever it is.
  3. `closing_agrees` — so every run does; our FIN keeps its number, and CLOSED
     is not left.
-/

namespace Ferrumnet

/-- What a state says about the peer's FIN (`seen`) and ours. -/
def Flags (st : State) (seen : Bool) (finSeq : Option SeqNumber) (acked : Bool) : Prop :=
  match st with
  | .closed => True
  | .listen => False
  | .synSent | .synReceived | .established => seen = false
  | .finWait1 => seen = false ∧ finSeq.isSome = true ∧ acked = false
  | .finWait2 => seen = false ∧ acked = true
  | .closeWait => seen = true
  | .closing | .lastAck => seen = true ∧ finSeq.isSome = true ∧ acked = false
  | .timeWait => seen = true ∧ acked = true

namespace Flags

variable {st : State} {seen acked : Bool} {fin : Option SeqNumber}

/-- Step 8 follows flags that have been raised by the segment. -/
theorem recomputed (h : Flags st seen fin acked) (hns : st ≠ .synSent) (hnr : st ≠ .synReceived)
    {seen' acked' : Bool} (hs : seen = true → seen' = true) (ha : acked = true → acked' = true) :
    Flags (Tcb.closingState st acked' seen') seen' fin acked' := by
  cases st with
  | closed => trivial
  | listen => exact h.elim
  | synSent => exact absurd rfl hns
  | synReceived => exact absurd rfl hnr
  | established => cases seen' <;> rfl
  | finWait1 =>
    obtain ⟨-, hf, -⟩ := h
    cases seen' <;> cases acked' <;> simp [Tcb.closingState, Flags, hf]
  | finWait2 =>
    obtain ⟨-, hk⟩ := h
    cases seen' <;> simp [Tcb.closingState, Flags, ha hk]
  | closeWait => exact hs h
  | closing =>
    obtain ⟨hp, hf, -⟩ := h
    cases acked' <;> simp [Tcb.closingState, Flags, hs hp, hf]
  | lastAck =>
    obtain ⟨hp, hf, -⟩ := h
    cases acked' <;> simp [Tcb.closingState, Flags, hs hp, hf]
  | timeWait =>
    obtain ⟨hp, hk⟩ := h
    exact ⟨hs hp, ha hk⟩

/-- The FIN goes out. -/
theorem finished (h : Flags st seen fin acked) (hst : st.synchronized = true) (ha : acked = false)
    (f : SeqNumber) : Flags (Tcb.finState st) seen (some f) acked := by
  subst ha
  cases st with
  | established => exact ⟨h, rfl, rfl⟩
  | closeWait => exact ⟨h, rfl, rfl⟩
  | finWait1 => exact ⟨h.1, rfl, rfl⟩
  | finWait2 => exact absurd h.2 (by simp)
  | closing => exact ⟨h.1, rfl, rfl⟩
  | lastAck => exact ⟨h.1, rfl, rfl⟩
  | closed | listen | synSent | synReceived | timeWait =>
    exact absurd hst (by simp [State.synchronized])

end Flags

/-- A FIN that has been seen stays seen. -/
theorem RecvSpace.text_seen {r : RecvSpace} (h : r.peerFinSeen = true) (sack : Bool) (tcp : TcpPacket) :
    (r.text sack tcp).peerFinSeen = true := by
  obtain ⟨_, f, -, -, -, hsame, honce, -⟩ := r.text_shift sack tcp
  by_cases hf : f = 0
  · exact (hsame hf).trans h
  · exact (honce hf).2.2

namespace Core

variable {c : Core} {tcp : TcpPacket}

def Agrees (c : Core) : Prop := Flags c.state c.peerFinSeen c.finSeq c.finAcked

/-- The flags that a valid ACK and the text of its segment raise stay raised. -/
theorem Agrees.taken (h : c.Agrees) (hns : c.state ≠ .synSent) :
    (((c.advanceTsRecent tcp).acked tcp).onText tcp).Agrees := by
  have hseen : c.peerFinSeen = true → (c.toRecvSpace.text c.sackEnabled tcp).peerFinSeen = true :=
    fun hs => RecvSpace.text_seen hs c.sackEnabled tcp
  have hfin : (c.ackedSend tcp).finSeq = c.finSeq := by
    simp only [ackedSend]
    split
    · rfl
    · split <;> rfl
  have hacked : c.finAcked = true → (c.ackedSend tcp).finAcked = true := by
    intro ha
    simp only [ackedSend]
    split
    · exact ha
    · split
      · simp only [SendSpace.consume, ha, Bool.true_or]
        split <;> rfl
      · exact ha
  have hstate : Flags c.ackedState c.peerFinSeen c.finSeq c.finAcked := by
    rw [ackedState]
    split
    · rename_i hrec
      have h' : Flags c.state c.peerFinSeen c.finSeq c.finAcked := h
      rwa [hrec] at h'
    · exact h
  obtain ⟨h1, h2⟩ := Host.ackedState_ne (c := c) hns
  have key := hstate.recomputed h1 h2 hseen hacked
  rw [← hfin] at key
  exact key

/-- A segment of the opening handshake carries no FIN. -/
theorem Agrees.synSent (h : c.Agrees) (hst : c.state = .synSent) {c' : Core} (ht : c.TakesSyn tcp c') :
    c'.Agrees := by
  have hseen : c.peerFinSeen = false := by
    have h' : Flags c.state c.peerFinSeen c.finSeq c.finAcked := h
    rwa [hst] at h'
  cases ht with
  | dropped => exact h
  | reset => trivial
  | acked => exact hseen
  | crossed => exact hseen

theorem Agrees.onSegment (h : c.Agrees) (tcp : TcpPacket) : (c.onSegment tcp).Agrees := by
  by_cases hst : c.state = .synSent
  · rw [Core.onSegment, if_pos hst]
    exact h.synSent hst (c.onSegmentSynSent_takes tcp)
  have hcases := c.onSegment_takes tcp hst
  generalize c.onSegment tcp = c' at hcases ⊢
  cases hcases with
  | dropped ts => exact h
  | reset => trivial
  | synAgain => exact h
  | badAck ts => trivial
  | taken => exact h.taken hst

theorem Agrees.sent (h : c.Agrees) {seq : SeqNumber} {extra : TcpFlags} {payload : Bytes}
    {s : SendSpace} {st : State} (hs : c.Sends seq extra payload s st) : (c.sent s st).Agrees := by
  cases hs with
  | fin hst _ ha _ => exact Flags.finished h hst ha _
  | synAck | synAckAgain | ack | again | data | probe | finAgain => exact h

/-- No segment leads out of CLOSED. -/
theorem onSegment_closed (hst : c.state = .closed) (tcp : TcpPacket) :
    (c.onSegment tcp).state = .closed := by
  have hcases := c.onSegment_takes tcp (by rw [hst]; simp)
  generalize c.onSegment tcp = c' at hcases ⊢
  cases hcases with
  | dropped ts => exact hst
  | reset => rfl
  | synAgain => exact hst
  | badAck ts => rfl
  | taken =>
    change Tcb.closingState c.ackedState _ _ = _
    rw [ackedState, if_neg (by rw [hst]; simp), hst]
    rfl

/-- A FIN leaves its number behind. -/
theorem sends_fin_seq {seq : SeqNumber} {extra : TcpFlags} {payload : Bytes} {s : SendSpace} {st : State}
    (hs : c.Sends seq extra payload s st) (hf : extra.fin = true) : s.finSeq = some seq := by
  cases hs with
  | fin => rfl
  | finAgain _ _ hseq => exact hseq
  | synAck | synAckAgain | ack | again | data | probe => exact absurd hf (by simp)

end Core

namespace Host

variable {κ : Type} [CongestionControl κ] {r s : Host κ} {i : Input}

theorem Opens.agrees (h : r.Opens) : r.tcb.core.Agrees := by
  cases h with
  | active loc remote iss now mss kind =>
    have hc := World.core_setCongestionControl (Tcb.newSynSent loc remote iss now mss : Tcb κ) kind
    change ((Tcb.newSynSent loc remote iss now mss : Tcb κ).setCongestionControl kind).core.Agrees
    rw [hc]
    rfl
  | passive loc remote syn iss now mss kind =>
    have hc := World.core_setCongestionControl
      (Tcb.newSynReceived loc remote syn iss now mss : Tcb κ) kind
    change ((Tcb.newSynReceived loc remote syn iss now mss : Tcb κ).setCongestionControl kind).core.Agrees
    rw [hc]
    rfl

/-- One call keeps the state and the flags in step. -/
theorem Ok.agrees (hok : r.Ok) (h : r.tcb.core.Agrees) (i : Input) : (r.input i).1.tcb.core.Agrees := by
  cases i with
  | segment seg now ce =>
    change (r.tcb.onSegment now seg.tcp ce).core.Agrees
    rw [Tcb.core_onSegment]
    exact h.onSegment seg.tcp
  | send data =>
    change (r.tcb.send data).1.core.Agrees
    rcases r.tcb.core_send' data with ⟨-, -, hc⟩ | ⟨-, hc⟩
    · rw [hc]; exact h
    · rw [hc]; exact h
  | recv n => exact h
  | close => exact h
  | timer now =>
    change (r.tcb.onTimer now).core.Agrees
    rcases r.tcb.core_onTimer now with hc | hc
    · rw [hc]; exact h
    · rw [hc]; trivial
  | poll now =>
    have hp := hok.polls now
    change (r.tcb.pollTransmit now).1.core.Agrees
    generalize r.tcb.pollTransmit now = q at hp ⊢
    obtain ⟨t, o⟩ := q
    dsimp only at hp ⊢
    cases hp with
    | idle hc => rw [hc]; exact h
    | rst _ _ hc => rw [hc]; exact h
    | syn _ hc =>
      rcases hc with ⟨-, hc⟩ | ⟨-, hc⟩
      · rw [hc]; exact h
      · rw [hc]; exact h
    | segment _ _ _ hs hc => rw [hc]; exact h.sent hs

/-- No call leads out of CLOSED. -/
theorem input_closed (hok : r.Ok) (hst : r.tcb.state = .closed) (i : Input) :
    (r.input i).1.tcb.state = .closed := by
  by_cases hseg : ∃ seg now ce, i = .segment seg now ce
  · obtain ⟨seg, now, ce, rfl⟩ := hseg
    change (r.tcb.onSegment now seg.tcp ce).core.state = _
    rw [Tcb.core_onSegment]
    exact Core.onSegment_closed hst seg.tcp
  · have hstay := hok.stays (i := i) fun seg now ce hi => hseg ⟨seg, now, ce, hi⟩
    exact (hstay.waits (.inr hst)).resolve_left (hstay.past (by rw [hst]; simp))

/-- Our FIN keeps its number. -/
theorem input_finSeq (hok : r.Ok) {f : SeqNumber} (hf : r.tcb.finSeq = some f) (i : Input) :
    (r.input i).1.tcb.finSeq = some f := by
  cases i with
  | segment seg now ce =>
    have hcore := r.tcb.core_onSegment now seg.tcp ce
    change (r.tcb.onSegment now seg.tcp ce).core.finSeq = _
    rw [hcore]
    have hf' : r.tcb.core.finSeq = some f := hf
    by_cases hst : r.tcb.core.state = .synSent
    · rw [Core.onSegment, if_pos hst]
      have hcases := r.tcb.core.onSegmentSynSent_takes seg.tcp
      generalize r.tcb.core.onSegmentSynSent seg.tcp = c at hcases ⊢
      cases hcases with
      | dropped | reset | acked | crossed => exact hf'
    · have hcases := r.tcb.core.onSegment_takes seg.tcp hst
      generalize r.tcb.core.onSegment seg.tcp = c at hcases ⊢
      cases hcases with
      | dropped | reset | synAgain | badAck => exact hf'
      | taken =>
        change (r.tcb.core.ackedSend seg.tcp).finSeq = _
        simp only [Core.ackedSend]
        split
        · exact hf'
        · split <;> exact hf'
  | send data =>
    change (r.tcb.send data).1.core.finSeq = _
    rcases r.tcb.core_send' data with ⟨-, -, hc⟩ | ⟨-, hc⟩
    · rw [hc]; exact hf
    · rw [hc]; exact hf
  | recv n => exact hf
  | close => exact hf
  | timer now =>
    change (r.tcb.onTimer now).core.finSeq = _
    rcases r.tcb.core_onTimer now with hc | hc
    · rw [hc]; exact hf
    · rw [hc]; exact hf
  | poll now =>
    have hp := hok.polls now
    change (r.tcb.pollTransmit now).1.core.finSeq = _
    generalize r.tcb.pollTransmit now = q at hp ⊢
    obtain ⟨t, o⟩ := q
    dsimp only at hp ⊢
    cases hp with
    | idle hc => rw [hc]; exact hf
    | rst _ _ hc => rw [hc]; exact hf
    | syn _ hc =>
      rcases hc with ⟨-, hc⟩ | ⟨-, hc⟩
      · rw [hc]; exact hf
      · rw [hc]; exact hf
    | segment _ _ _ hs hc =>
      obtain ⟨_, -, -, hspec⟩ := sends_spec (c := r.tcb.core) hok.sending hok.phase hs
      rw [hc]
      exact hspec.fin_eq f hf

theorem agrees_run {is : List Input} (hok : r.Ok) (h : r.tcb.core.Agrees)
    (hr : Run.run step r is = some s) : s.Ok ∧ s.tcb.core.Agrees := by
  have hinv : ∀ (u : Host κ) (i : Input) (v : Host κ), u.Ok ∧ u.tcb.core.Agrees →
      step u i = some v → v.Ok ∧ v.tcb.core.Agrees := by
    intro u i v hu he
    cases he
    exact ⟨hu.1.input i, hu.1.agrees hu.2 i⟩
  exact Run.run_invariant hinv ⟨hok, h⟩ hr

/-- What a later state keeps of an earlier one. -/
theorem lasting_run {is : List Input} (hok : r.Ok) (hr : Run.run step r is = some s) :
    (∀ f, r.tcb.finSeq = some f → s.tcb.finSeq = some f) ∧
      (r.tcb.state = .closed → s.tcb.state = .closed) := by
  induction is generalizing r with
  | nil =>
    cases hr
    exact ⟨fun _ hf => hf, id⟩
  | cons i is ih =>
    obtain ⟨_, he, hrest⟩ := Run.run_cons.mp hr
    cases he
    obtain ⟨hfin, hclosed⟩ := ih (hok.input i) hrest
    exact ⟨fun f hf => hfin f (input_finSeq hok hf i), fun hst => hclosed (input_closed hok hst i)⟩

/-! ## The states of the closing handshake -/

/-- The state and the flags of a Tcb, as the states of the closing handshake
define them. -/
structure Closing (t : Tcb κ) : Prop where
  unheard : t.state = .established ∨ t.state = .finWait1 ∨ t.state = .finWait2 →
    t.peerFinSeen = false
  heard : t.state = .closeWait ∨ t.state = .closing ∨ t.state = .lastAck ∨ t.state = .timeWait →
    t.peerFinSeen = true
  unacked : t.state = .finWait1 ∨ t.state = .closing ∨ t.state = .lastAck →
    t.finAcked = false ∧ ∃ f, t.finSeq = some f ∧ t.sndUna.le f = true ∧ t.sndNxt = f + 1
  acked : t.state = .finWait2 ∨ t.state = .timeWait →
    t.finAcked = true ∧ ∃ f, t.finSeq = some f ∧ t.sndUna = f + 1 ∧ t.sndNxt = f + 1

omit [CongestionControl κ] in
/-- Where `SND.UNA` and `SND.NXT` are once our FIN is out. -/
theorem Ok.around_fin (hok : r.Ok) {f : SeqNumber} (hf : r.tcb.finSeq = some f) :
    r.tcb.sndNxt = f + 1 ∧ (r.tcb.finAcked = false → r.tcb.sndUna.le f = true) ∧
      (r.tcb.finAcked = true → r.tcb.sndUna = f + 1) := by
  have hs := hok.sending
  obtain ⟨hseq, -, hend, hacked⟩ := hs.finished f hf
  have hlen := hs.len_le
  have hnxt := hs.at_nxt
  have huna := hs.at_una
  have hf1 : f + 1 = r.tcb.iss + (2 + r.sent.length) := by
    rw [hseq, SeqNumber.add_add]
    congr 1
    omega
  refine ⟨by rw [hnxt, hend, hf1], fun ha => ?_, fun ha => ?_⟩
  · have hlt : r.una ≠ 2 + r.sent.length := fun he => by simp [hacked.mpr he] at ha
    rw [huna, hseq, SeqNumber.pos_le _ (by omega) (by omega), decide_eq_true_eq]
    omega
  · rw [huna, hf1, hacked.mp ha]

omit [CongestionControl κ] in
/-- An acknowledged FIN has been sent. -/
theorem Ok.fin_sent (hok : r.Ok) (ha : r.tcb.finAcked = true) : ∃ f, r.tcb.finSeq = some f := by
  rcases hf : r.tcb.finSeq with _ | f
  · have := (hok.sending.opened hf).2
    exact absurd (this.symm.trans ha) (by simp)
  · exact ⟨f, rfl⟩

omit [CongestionControl κ] in
theorem Ok.closing (hok : r.Ok) (h : r.tcb.core.Agrees) : Closing r.tcb := by
  have hflags : Flags r.tcb.state r.tcb.peerFinSeen r.tcb.finSeq r.tcb.finAcked := h
  refine ⟨fun hst => ?_, fun hst => ?_, fun hst => ?_, fun hst => ?_⟩
  · rcases hst with hst | hst | hst <;> rw [hst] at hflags
    · exact hflags
    · exact hflags.1
    · exact hflags.1
  · rcases hst with hst | hst | hst | hst <;> rw [hst] at hflags
    · exact hflags
    · exact hflags.1
    · exact hflags.1
    · exact hflags.1
  · have hout : r.tcb.finSeq.isSome = true ∧ r.tcb.finAcked = false := by
      rcases hst with hst | hst | hst <;> rw [hst] at hflags <;> exact hflags.2
    obtain ⟨f, hf⟩ := Option.isSome_iff_exists.mp hout.1
    obtain ⟨h1, h2, -⟩ := hok.around_fin hf
    exact ⟨hout.2, f, hf, h2 hout.2, h1⟩
  · have ha : r.tcb.finAcked = true := by
      rcases hst with hst | hst <;> rw [hst] at hflags <;> exact hflags.2
    obtain ⟨f, hf⟩ := hok.fin_sent ha
    obtain ⟨h1, -, h3⟩ := hok.around_fin hf
    exact ⟨ha, f, hf, h3 ha, h1⟩

/-- Whatever is fed to a host, its state agrees with its flags; a FIN it emits has
the one number our FIN will ever have; and CLOSED is not left. -/
theorem closing_agrees {r₀ : Host κ} {is more : List Input} (h0 : r₀.Opens)
    (hr : Run.run step r₀ is = some r) (hmore : Run.run step r more = some s) :
    Closing r.tcb ∧
      (∀ i d, (r.input i).2 = some d → d.repr.flags.fin = true →
        (r.input i).1.tcb.finSeq = some d.repr.seq) ∧
      (∀ f, r.tcb.finSeq = some f → s.tcb.finSeq = some f) ∧
      (r.tcb.state = .closed → s.tcb.state = .closed) := by
  obtain ⟨hok', hagrees⟩ := agrees_run h0.ok h0.agrees hr
  obtain ⟨hfin, hclosed⟩ := lasting_run hok' hmore
  refine ⟨hok'.closing hagrees, fun i d hd hflag => ?_, hfin, hclosed⟩
  cases i with
  | segment | send | recv | close | timer => cases hd
  | poll now =>
    have hp := hok'.polls now
    change (r.tcb.pollTransmit now).2 = some d at hd
    change (r.tcb.pollTransmit now).1.core.finSeq = _
    rw [hd] at hp
    generalize (r.tcb.pollTransmit now).1 = t at hp ⊢
    cases hp with
    | rst => exact absurd hflag (by simp [Tcb.buildRst, buildSegment])
    | syn => exact absurd hflag (by simp [Tcb.buildSyn, buildSegment])
    | segment t₀ _ _ hs hc =>
      obtain ⟨hseq, -, -, hfl, -⟩ := t₀.build_spec _ _ _
      rw [hfl] at hflag
      rw [hc, hseq]
      exact Core.sends_fin_seq hs hflag

/-- The host closes, and its FIN is acknowledged. -/
def halfClosed : List Input :=
  settled ++ [.close, .poll ⟨0⟩,
    .segment ⟨{ peerSegment 5001 {} Bytes.empty with ack := SeqNumber.new 102 }, by decide⟩ ⟨0⟩ false]

theorem closing_agrees_halfClosed : ∃ r : Host Reno, Run.run step accepted halfClosed = some r ∧
    r.tcb.state = .finWait2 ∧ r.tcb.finSeq = some (SeqNumber.new 101) ∧ Closing r.tcb := by
  obtain ⟨r, hr, hst, hf⟩ := Run.exists_run step accepted halfClosed
    (fun r => r.tcb.state = .finWait2 ∧ r.tcb.finSeq = some (SeqNumber.new 101)) (by decide +kernel)
  exact ⟨r, hr, hst, hf, (closing_agrees accepted_opens hr (rfl : Run.run step r [] = some r)).1⟩

end Host

end Ferrumnet
