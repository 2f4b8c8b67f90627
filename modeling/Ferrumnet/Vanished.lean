import Ferrumnet.NxtEdge
import Ferrumnet.Stack

/-
  The reset of a peer that knows nothing of the connection.

  `connectionless_reset` answers a segment with an ACK by a RST numbered like that
  ACK, and a segment without one by a RST at zero that acknowledges all of it. The
  emitter takes the first outside SYN-SENT, exactly at `RCV.NXT`, and the second in
  SYN-SENT, if it acknowledges the SYN.

  1. `Emitted` — what every segment but a RST leaves behind: it acknowledged
     `RCV.NXT`, which lies in the window, or it was the SYN.
  2. `Emitted.input` — so it stays while `RCV.NXT` is unchanged.
  3. `vanished_peer_resets` — the reset for any segment closes the emitter.
-/

namespace Ferrumnet

namespace Host

variable {κ : Type} [CongestionControl κ] {r s r' : Host κ} {i : Input} {d : Datagram}

/-- The call leaves `RCV.NXT` unchanged; in SYN-SENT, where there is none, it leaves
the connection in that state, with its `ISS`. -/
def Unmoved (r : Host κ) (i : Input) : Prop :=
  if r.tcb.state = .synSent then
    (r.input i).1.tcb.state = .synSent ∧ (r.input i).1.tcb.iss = r.tcb.iss
  else (r.input i).1.tcb.rcvNxt = r.tcb.rcvNxt

instance : Decidable (r.Unmoved i) := inferInstanceAs (Decidable (ite _ _ _))

/-- A host that has emitted `d` and has not moved since. -/
inductive Emitted (s : Host κ) (d : Datagram) : Prop
  | syn : s.tcb.state = .synSent → s.tcb.sndNxt = s.tcb.iss + 1 → d.repr.flags.ack = false →
      d.parse.seq + d.parse.segLen = s.tcb.iss + 1 → Emitted s d
  | segment : s.Ring → s.rcv ≤ s.adv → d.repr.flags.ack = true → d.repr.ack = s.tcb.rcvNxt →
      Emitted s d

/-! ## The emission -/

omit [CongestionControl κ] in
/-- In SYN-SENT nothing but the SYN is sent. -/
theorem Ok.synSent_nxt (h : r.Ok) (hst : r.tcb.state = .synSent) (hne : r.tcb.sndNxt ≠ r.tcb.iss) :
    r.tcb.sndNxt = r.tcb.iss + 1 := by
  have h0 : r.una = 0 := by
    have hph := h.phase
    rwa [hst] at hph
  have hs : Sending r.sent 0 r.tcb.toSendSpace := by
    have := h.sending
    rwa [h0] at this
  have hat := hs.at_una
  have hone := (hs.opened (hs.fin_none rfl)).1
  rw [hs.opening rfl] at hone
  rw [SeqNumber.add_zero] at hat
  have hout : r.tcb.sndNxt.offsetFrom r.tcb.iss ≤ 1 := by
    rw [← hat]
    change r.tcb.toSendSpace.outstanding ≤ 1
    simpa using hone
  have hpos : r.tcb.sndNxt.offsetFrom r.tcb.iss ≠ 0 := mt (SeqNumber.eq_iff_offsetFrom _ _).mpr hne
  rw [← SeqNumber.add_offsetFrom r.tcb.sndNxt r.tcb.iss]
  congr 1
  omega

/-- Every segment but a RST leaves the host so. -/
theorem Sound.emitted (h : r.Sound) {now : Instant} (hd : (r.input (.poll now)).2 = some d)
    (hrst : d.repr.flags.rst = false) : (r.input (.poll now)).1.Emitted d := by
  have hp := h.ok.polls now
  have hsound := h.input (.poll now)
  obtain ⟨t, ht⟩ : ∃ t, (r.tcb.pollTransmit now).1 = t := ⟨_, rfl⟩
  change (r.tcb.pollTransmit now).2 = some d at hd
  rw [ht, hd] at hp
  have hcall : (r.input (.poll now)).1 = r.follow t := by rw [← ht]; rfl
  rw [hcall] at hsound ⊢
  generalize ho : some d = o at hp
  cases hp with
  | idle hc => cases ho
  | rst seq _ hc =>
    cases ho
    cases hrst
  | syn hst hc =>
    cases ho
    -- the SYN is all that was sent
    have hstate : t.state = .synSent := by
      rcases hc with ⟨-, hc⟩ | ⟨-, hc⟩ <;> exact (congrArg Core.state hc).trans hst
    have hiss : t.iss = r.tcb.iss := by
      rcases hc with ⟨-, hc⟩ | ⟨-, hc⟩ <;> exact congrArg (fun c : Core => c.iss) hc
    refine .syn hstate ?_ rfl ?_
    · rw [follow_tcb, hiss]
      rcases hc with ⟨-, hc⟩ | ⟨hne, hc⟩
      · exact congrArg (fun c : Core => c.sndNxt) hc
      · have hnxt : t.sndNxt = r.tcb.sndNxt := congrArg (fun c : Core => c.sndNxt) hc
        exact hnxt.trans (h.ok.synSent_nxt hst hne)
    · rw [follow_tcb, hiss]
      rfl
  | @segment t₀ seq extra payload v st h0 _ hs hc =>
    cases ho
    obtain ⟨hopen, hns⟩ := sends_open hs
    have hr : r.Ring := h.ring.resolve_left fun hu => hu.state.elim hns hopen
    have hrecv : t.toRecvSpace = (r.tcb.toRecvSpace.advertisedWindow r.tcb.rcvWscale).1 :=
      congrArg Core.toRecvSpace hc
    have hst : t.state ≠ .synSent := by
      have := (input_passes h.ok hns (.poll now)).state
      rwa [hcall] at this
    obtain ⟨hring, h1, h2⟩ := hr.advertised hst hrecv
    obtain ⟨-, hack, -, -, -, -, hflag⟩ := t₀.build_spec seq extra payload
    refine .segment hring ?_ hflag ?_
    · rw [h1, h2]
      exact (Nat.le_add_right _ _).trans (Nat.le_max_right _ _)
    · rw [hack, follow_tcb, hrecv]
      exact congrArg (fun c : Core => c.rcvNxt) h0

/-! ## While nothing moves -/

omit [CongestionControl κ] in
/-- A call that leaves `RCV.NXT` unchanged takes no octet, and never moves the edge
back. -/
theorem Ring.unmoved (hr : r.Ring) (hp : r.Passes i r') (hsame : r'.tcb.rcvNxt = r.tcb.rcvNxt) :
    r'.rcv = r.rcv ∧ r.adv ≤ r'.adv := by
  obtain ⟨hrec, -, hst, h1, h2⟩ := hp
  obtain ⟨v, hv⟩ : ∃ v, r'.tcb.toRecvSpace = v := ⟨_, rfl⟩
  rw [hv] at hrec
  cases hrec with
  | kept _ _ =>
    obtain ⟨-, h3, h4⟩ := hr.keep hv hst
    exact ⟨h1.trans h3, (h2.trans h4).ge⟩
  | read n =>
    obtain ⟨-, h3, h4⟩ := hr.read hst hv
    exact ⟨h1.trans h3, (h2.trans h4).ge⟩
  | advertised now =>
    obtain ⟨-, h3, h4⟩ := hr.advertised hst hv
    exact ⟨h1.trans h3, (Nat.le_max_left _ _).trans (h2.trans h4).ge⟩
  | taken seg now ce hadm _ =>
    obtain ⟨k, f, hring, h3, h4, hs, -, honce⟩ := hr.taken seg.fits hadm hst hv
    -- `k` octets fit into the ring, and one FIN behind them
    have hlen := hs.len
    have hle := r'.tcb.rx.len_le
    have hcap : r'.tcb.rx.capacity = rxBuffer := hring.cap
    have hbuf : rxBuffer = 262144 := rfl
    have hf : f ≤ 1 := by
      by_contra hgt
      have := (honce (by omega)).1
      omega
    have h0 : k + f = 0 := by
      by_contra hne
      have hmove : r.tcb.rcvNxt + (k + f) = r.tcb.rcvNxt := hs.nxt.symm.trans hsame
      exact SeqNumber.add_ne_self r.tcb.rcvNxt (by omega) hmove
    rw [h0] at h3
    exact ⟨h1.trans h3, (h2.trans h4).ge⟩

/-- A call in SYN-SENT that stays there keeps the SYN sent. -/
theorem Sound.syn_stays (h : r.Sound) (hst : r.tcb.state = .synSent) (hst' : (r.input i).1.tcb.state = .synSent)
    (hiss : (r.input i).1.tcb.iss = r.tcb.iss) (hnxt : r.tcb.sndNxt = r.tcb.iss + 1) :
    (r.input i).1.tcb.sndNxt = (r.input i).1.tcb.iss + 1 := by
  rw [hiss, ← hnxt]
  cases i with
  | segment seg now ce =>
    have ht := Tcb.core_onSegment r.tcb now seg.tcp ce
    rw [Core.onSegment, if_pos (show r.tcb.core.state = .synSent from hst)] at ht
    have hcases := ht ▸ r.tcb.core.onSegmentSynSent_takes seg.tcp
    change (r.tcb.onSegment now seg.tcp ce).state = .synSent at hst'
    change (r.tcb.onSegment now seg.tcp ce).sndNxt = r.tcb.sndNxt
    generalize r.tcb.onSegment now seg.tcp ce = t at hcases hst' ⊢
    generalize hc : t.core = c at hcases
    have hstate : c.state = .synSent := (congrArg Core.state hc).symm.trans hst'
    cases hcases with
    | dropped => exact congrArg (fun c : Core => c.sndNxt) hc
    | reset _ _ => cases hstate
    | acked _ _ _ => cases hstate
    | crossed _ _ _ => cases hstate
  | send data =>
    rcases r.tcb.core_send' data with ⟨-, -, hc⟩ | ⟨-, hc⟩ <;>
      exact congrArg (fun c : Core => c.sndNxt) hc
  | recv n => rfl
  | close => rfl
  | timer now =>
    rcases r.tcb.core_onTimer now with hc | hc <;> exact congrArg (fun c : Core => c.sndNxt) hc
  | poll now =>
    have hp := h.ok.polls now
    change (r.tcb.pollTransmit now).1.sndNxt = r.tcb.sndNxt
    generalize r.tcb.pollTransmit now = q at hp
    obtain ⟨t, o⟩ := q
    dsimp only at hp ⊢
    cases hp with
    | idle hc => exact congrArg (fun c : Core => c.sndNxt) hc
    | rst _ _ hc => exact congrArg (fun c : Core => c.sndNxt) hc
    | syn _ hc =>
      rcases hc with ⟨-, hc⟩ | ⟨-, hc⟩
      · exact (congrArg (fun c : Core => c.sndNxt) hc).trans hnxt.symm
      · exact congrArg (fun c : Core => c.sndNxt) hc
    | segment _ _ _ hs _ => exact absurd hst (sends_open hs).2

theorem Emitted.input (h : r.Emitted d) (hs : r.Sound) (hsame : r.Unmoved i) :
    (r.input i).1.Emitted d := by
  cases h with
  | syn hst hnxt hack hseq =>
    rw [Unmoved, if_pos hst] at hsame
    obtain ⟨hst', hiss⟩ := hsame
    exact .syn hst' (hs.syn_stays hst hst' hiss hnxt) hack (by rw [hiss]; exact hseq)
  | segment hr hle hack hat =>
    rw [Unmoved, if_neg hr.state] at hsame
    have hp := input_passes hs.ok hr.state i
    obtain ⟨h1, h2⟩ := hr.unmoved hp hsame
    exact .segment (hr.passes hp) (h1.trans_le (hle.trans h2)) hack (hat.trans hsame.symm)

/-! ## The reset -/

omit [CongestionControl κ] in
/-- It reflects the ACK of the segment. -/
theorem reset_reflects (tcp : TcpPacket) (hack : tcp.flags.ack = true) (loc remote : Endpoint) :
    (connectionlessReset loc remote tcp).parse.flags.rst = true ∧
      (connectionlessReset loc remote tcp).parse.seq = tcp.ack := by
  simp only [connectionlessReset, hack, if_true]
  exact ⟨rfl, rfl⟩

omit [CongestionControl κ] in
/-- Without an ACK to reflect, it acknowledges the whole segment. -/
theorem reset_spans (tcp : TcpPacket) (hack : tcp.flags.ack = false) (loc remote : Endpoint) :
    (connectionlessReset loc remote tcp).parse.flags = { rst := true, ack := true } ∧
      (connectionlessReset loc remote tcp).parse.ack = tcp.seq + tcp.segLen := by
  simp only [connectionlessReset, hack, Bool.false_eq_true, if_false]
  exact ⟨rfl, rfl⟩

/-- The reset closes an emitter that has not moved. -/
theorem Emitted.closes (h : s.Emitted d) (now : Instant) (ce : Bool) :
    s.tcb.onSegment now (connectionlessReset d.dst d.src d.parse).parse ce =
      { s.tcb with state := .closed, reset := true } := by
  cases h with
  | syn hst hnxt hack hseq =>
    obtain ⟨hflags, hat⟩ := reset_spans d.parse hack d.dst d.src
    generalize (connectionlessReset d.dst d.src d.parse).parse = p at hflags hat
    rw [hseq] at hat
    -- the SYN is acknowledged: past `ISS`, and not past `SND.NXT`
    have hgt := SeqNumber.pos_gt s.tcb.iss (x := 1) (y := 0) (by omega) (by omega)
    rw [SeqNumber.add_zero] at hgt
    have hle := SeqNumber.pos_le s.tcb.iss (x := 1) (y := 1) (by omega) (by omega)
    have hacks : (p.flags.ack && p.ack.gt s.tcb.iss && p.ack.le s.tcb.sndNxt) = true := by
      rw [hat, hnxt, hgt, hle, hflags]
      rfl
    have hrst : p.flags.rst = true := by rw [hflags]
    simp only [Tcb.onSegment, hst, if_true, Tcb.onSegmentSynSent, hacks, Bool.not_true, Bool.and_false,
      Bool.false_eq_true, if_false, hrst]
  | segment hr hle hack hat =>
    have hpool := hr.pool
    have hin : s.tcb.toRecvSpace.seqInWindow s.tcb.rcvNxt = true := by
      refine (RecvSpace.seqInWindow_nxt ?_).2
      rw [hr.nxt, hr.edge, SeqNumber.offsetFrom_pos_le _ hle (by omega)]
      omega
    obtain ⟨hrst, hseq⟩ := reset_reflects d.parse hack d.dst d.src
    generalize (connectionlessReset d.dst d.src d.parse).parse = p at hrst hseq
    have hnxt : p.seq = s.tcb.rcvNxt := hseq.trans hat
    simp only [Tcb.onSegment, if_neg hr.state, hrst, if_true, Tcb.onRst, hnxt, hin]

/-! ## A run -/

theorem emitted_run {more : List Input} (h : r.Emitted d) (hs : r.Sound)
    (hsame : Run.Along step Unmoved r more) (hmore : Run.run step r more = some s) : s.Emitted d := by
  refine (Run.run_invariant_along (I := fun r => Emitted r d ∧ r.Sound) (fun s i s' hs hi he => ?_)
    ⟨h, hs⟩ hsame hmore).1
  cases he
  exact ⟨hs.1.input hs.2 hi, hs.2.input i⟩

/-- A peer that has no connection for a segment resets its emitter: in every run, the
reset for any segment but a RST, delivered while `RCV.NXT` is as it was at the
emission, closes the connection and sets the reset flag. -/
theorem vanished_peer_resets {r₀ : Host κ} {is more : List Input} {now : Instant} (h0 : r₀.Opens)
    (hr : Run.run step r₀ is = some r) (hd : (r.input (.poll now)).2 = some d)
    (hrst : d.repr.flags.rst = false)
    (hsame : Run.Along step Unmoved (r.input (.poll now)).1 more)
    (hmore : Run.run step (r.input (.poll now)).1 more = some s) (now' : Instant) (ce : Bool) :
    (s.tcb.onSegment now' (connectionlessReset d.dst d.src d.parse).parse ce).state = .closed ∧
      (s.tcb.onSegment now' (connectionlessReset d.dst d.src d.parse).parse ce).reset = true := by
  have hsound := sound_run h0.sound hr
  have hem := emitted_run (hsound.emitted hd hrst) (hsound.input (.poll now)) hsame hmore
  rw [hem.closes now' ce]
  exact ⟨rfl, rfl⟩

/-- The SYN-ACK goes out again before the reset for it arrives. -/
theorem vanished_peer_resets_synAck : ∃ (d : Datagram) (s : Host Reno),
    (accepted.input (.poll ⟨0⟩)).2 = some d ∧ d.repr.flags.syn = true ∧
      Run.run step (accepted.input (.poll ⟨0⟩)).1 [.timer ⟨3000000⟩, .poll ⟨3000000⟩] = some s ∧
      (s.tcb.onSegment ⟨3000000⟩ (connectionlessReset d.dst d.src d.parse).parse false).reset = true := by
  have hany : ∃ d ∈ (accepted.input (.poll ⟨0⟩)).2, d.repr.flags.rst = false ∧ d.repr.flags.syn = true := by
    decide +kernel
  obtain ⟨d, hd, hrst, hsyn⟩ := hany
  have hsame : Run.Along step Unmoved (accepted.input (.poll ⟨0⟩)).1
      [.timer ⟨3000000⟩, .poll ⟨3000000⟩] := by decide +kernel
  obtain ⟨s, hs, -⟩ := Run.exists_run step (accepted.input (.poll ⟨0⟩)).1
    [.timer ⟨3000000⟩, .poll ⟨3000000⟩] (fun s => s.tcb.state = .synReceived) (by decide +kernel)
  have hstart : Run.run step accepted [] = some accepted := rfl
  refine ⟨d, s, hd, hsyn, hs, ?_⟩
  exact (vanished_peer_resets accepted_opens hstart hd hrst hsame hs ⟨3000000⟩ false).2

end Host

end Ferrumnet
