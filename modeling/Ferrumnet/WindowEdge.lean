import Ferrumnet.Feed

/-
  The advertised edge as the peer computes it.

  `rcv_adv` never moves left. What goes on the wire is the distance from
  `RCV.NXT` to it, shifted right by the window scale: the edge the peer puts
  together lies below `rcv_adv` by what the shift cut off.

  `edge_kept_iff` — the peer's edge does not move left exactly if each segment
  cuts off no more than the one before it, and what `rcv_adv` has gained.
-/

namespace Ferrumnet

namespace Host

variable {κ : Type} [CongestionControl κ] {r r' : Host κ} {i : Input}

/-- The segment with an acknowledgement that a call emits past the handshake. -/
def acks (r : Host κ) (i : Input) : Option Datagram :=
  (r.input i).2.filter fun d => d.repr.flags.ack && r.tcb.state ≠ .synReceived

/-- The right edge the receiver of a segment computes. -/
def rightEdgeOf (scale : Nat) (d : Datagram) : SeqNumber := d.repr.ack + (d.repr.window <<< scale)

/-- What `poll_transmit` puts into such a segment. -/
theorem acks_poll (hok : r.Ok) {d : Datagram} (h : r.acks i = some d) :
    ∃ now, i = .poll now ∧ d.repr.ack = r.tcb.rcvNxt ∧
      d.repr.window = windowField false r.tcb.rcvWscale
        (r.tcb.toRecvSpace.advertisedWindow r.tcb.rcvWscale).2 ∧
      (r.input i).1.tcb.toRecvSpace = (r.tcb.toRecvSpace.advertisedWindow r.tcb.rcvWscale).1 ∧
      (r.tcb.state ≠ .synSent ∧ r.tcb.state ≠ .closed) ∧ r.tcb.state ≠ .synReceived := by
  rw [acks, Option.filter_eq_some_iff, Bool.and_eq_true, decide_eq_true_eq] at h
  obtain ⟨hd, hack, hrec⟩ := h
  cases i with
  | poll now =>
    refine ⟨now, rfl, ?_⟩
    have hp := hok.polls now
    change (r.tcb.pollTransmit now).2 = some d at hd
    change _ ∧ _ ∧ (r.tcb.pollTransmit now).1.toRecvSpace = _ ∧ _
    generalize r.tcb.pollTransmit now = q at hp hd
    obtain ⟨t, o⟩ := q
    dsimp only at hp hd ⊢
    subst hd
    cases hp with
    | rst seq _ hc => cases hack
    | syn hs _ => cases hack
    | @segment t₀ seq extra payload s st h0 _ hs hc =>
      have hrecv : t₀.toRecvSpace = r.tcb.toRecvSpace := congrArg Core.toRecvSpace h0
      have hopt : t₀.toOptions = r.tcb.toOptions := congrArg Core.toOptions h0
      have hsyn : extra.syn = false := by
        cases hs with
        | synAck h1 _ => exact absurd h1 hrec
        | synAckAgain h1 _ => exact absurd h1 hrec
        | _ => rfl
      refine ⟨congrArg RecvSpace.rcvNxt hrecv, ?_, congrArg Core.toRecvSpace hc, (sends_open hs).symm, hrec⟩
      change windowField extra.syn t₀.rcvWscale (t₀.toRecvSpace.advertisedWindow t₀.rcvWscale).2 = _
      rw [hsyn, hrecv, show t₀.rcvWscale = r.tcb.rcvWscale from congrArg Options.rcvWscale hopt]
  | _ => cases hd

/-- Without such a segment the advertised edge stays, past the handshake. -/
theorem acks_none (hok : r.Ok) (hr : r.Ring) (hrec : r.tcb.state ≠ .synReceived)
    (h : r.acks i = none) : (r.input i).1.adv = r.adv ∧ r.rcv ≤ (r.input i).1.rcv := by
  have hp := input_passes hok hr.state i
  -- `poll_transmit` did not build one
  have hpoll : ∀ now, i = .poll now → (r.input i).1.tcb.toRecvSpace = r.tcb.toRecvSpace := by
    rintro now rfl
    have hpolls := hok.polls now
    change (r.tcb.pollTransmit now).2.filter _ = none at h
    change (r.tcb.pollTransmit now).1.toRecvSpace = _
    generalize r.tcb.pollTransmit now = q at hpolls h ⊢
    obtain ⟨t, o⟩ := q
    dsimp only at hpolls h ⊢
    cases hpolls with
    | idle hc => exact congrArg Core.toRecvSpace hc
    | rst _ _ hc => exact congrArg Core.toRecvSpace hc
    | syn hs _ => exact absurd hs hr.state
    | @segment t₀ seq extra payload _ _ _ _ _ _ =>
      have hack := (t₀.build_spec seq extra payload).2.2.2.2.2.2
      simp [Option.filter, hack, hrec] at h
  generalize (r.input i).1 = r' at hp hpoll ⊢
  obtain ⟨hrec', -, hst, h1, h2⟩ := hp
  rw [h1, h2]
  obtain ⟨v, hv⟩ : ∃ v, r'.tcb.toRecvSpace = v := ⟨_, rfl⟩
  rw [hv] at hrec'
  cases hrec' with
  | kept _ _ =>
    obtain ⟨-, h3, h4⟩ := hr.keep hv hst
    exact ⟨h4, h3.ge⟩
  | read n =>
    obtain ⟨-, h3, h4⟩ := hr.read hst hv
    exact ⟨h4, h3.ge⟩
  | advertised now =>
    obtain ⟨-, h3, h4⟩ := hr.keep (hpoll now rfl) hst
    exact ⟨h4, h3.ge⟩
  | taken seg now ce hadm _ =>
    obtain ⟨k, f, -, h3, h4, -⟩ := hr.taken seg.fits hadm hst hv
    exact ⟨h4, by omega⟩

/-! ## The window scale -/

/-- The scale is the one offered or none, and without one the window fits the
field as it is. -/
structure Encodes (r : Host κ) : Prop where
  scale : r.tcb.rcvWscale = 0 ∨ r.tcb.rcvWscale = 3
  small : r.tcb.rcvWscale = 0 → r.adv ≤ r.rcv + 65535

theorem negotiate_scale (syn : TcpPacket) (mss : Nat) :
    (Tcb.negotiate syn mss).rcvWscale = 0 ∨ (Tcb.negotiate syn mss).rcvWscale = 3 := by
  simp only [Tcb.negotiate]
  split
  · exact .inr rfl
  · exact .inl rfl

/-- Only the peer's SYN settles the options. -/
theorem input_options (hok : r.Ok) (i : Input) : (r.input i).1.tcb.toOptions = r.tcb.toOptions ∨
    ∃ syn, (r.input i).1.tcb.toOptions = Tcb.negotiate syn r.tcb.mssAdvertise := by
  by_cases hst : r.tcb.state = .synSent
  · cases i with
    | segment seg now ce =>
      have ht := Tcb.core_onSegment r.tcb now seg.tcp ce
      have hst' : r.tcb.core.state = .synSent := hst
      rw [Core.onSegment, if_pos hst'] at ht
      have hcases := ht ▸ r.tcb.core.onSegmentSynSent_takes seg.tcp
      change (r.tcb.onSegment now seg.tcp ce).toOptions = _ ∨
        ∃ syn, (r.tcb.onSegment now seg.tcp ce).toOptions = _
      generalize r.tcb.onSegment now seg.tcp ce = t at hcases ⊢
      generalize hc : t.core = c at hcases
      cases hcases with
      | dropped => exact .inl (congrArg Core.toOptions hc)
      | reset _ _ => exact .inl (congrArg Core.toOptions hc)
      | acked _ _ _ => exact .inr ⟨_, congrArg Core.toOptions hc⟩
      | crossed _ _ _ => exact .inr ⟨_, congrArg Core.toOptions hc⟩
    | _ => exact .inl (hok.stays (fun _ _ _ => by simp)).options
  · exact .inl (input_passes hok hst i).options

omit [CongestionControl κ] in
theorem Started.small (h : r.Started) : r.adv ≤ r.rcv + 65535 := by
  rw [h.rcv, h.adv]

theorem Encodes.input (h : r.Sound) (hs : r.Encodes) (i : Input) : (r.input i).1.Encodes := by
  have hscale : (r.input i).1.tcb.rcvWscale = 0 ∨ (r.input i).1.tcb.rcvWscale = 3 := by
    rcases input_options h.ok i with ho | ⟨syn, ho⟩
    · rw [congrArg Options.rcvWscale ho]
      exact hs.scale
    · rw [congrArg Options.rcvWscale ho]
      exact negotiate_scale _ _
  refine ⟨hscale, ?_⟩
  rcases h.ring with hu | hr
  · rcases hu.input h.ok i with hu' | hs'
    · intro _
      rw [hu'.rcv, hu'.adv]
      omega
    · exact fun _ => hs'.small
  · have hp := input_passes h.ok hr.state i
    generalize (r.input i).1 = r' at hp
    obtain ⟨hrec, hopt, hst, h1, h2⟩ := hp
    intro h0
    have hsmall := hs.small ((congrArg Options.rcvWscale hopt).symm.trans h0)
    rw [h1, h2]
    obtain ⟨v, hv⟩ : ∃ v, r'.tcb.toRecvSpace = v := ⟨_, rfl⟩
    rw [hv] at hrec
    cases hrec with
    | kept _ _ =>
      obtain ⟨-, h3, h4⟩ := hr.keep hv hst
      omega
    | read n =>
      obtain ⟨-, h3, h4⟩ := hr.read hst hv
      omega
    | advertised now =>
      obtain ⟨-, h3, h4⟩ := hr.advertised hst hv
      have hroom : r.tcb.toRecvSpace.room r.tcb.rcvWscale ≤ 65535 := by
        rw [congrArg Options.rcvWscale hopt.symm, h0]
        exact Nat.min_le_right _ _
      omega
    | taken seg now ce hadm _ =>
      obtain ⟨k, f, -, h3, h4, -⟩ := hr.taken seg.fits hadm hst hv
      omega

theorem Opens.encodes (h : r.Opens) : r.Encodes := by
  refine ⟨?_, ?_⟩
  · cases h with
    | active loc remote iss now mss kind =>
      have hc := World.core_setCongestionControl (Tcb.newSynSent loc remote iss now mss : Tcb κ) kind
      exact .inl (congrArg (fun c : Core => c.rcvWscale) hc)
    | passive loc remote syn iss now mss kind =>
      have hc := World.core_setCongestionControl
        (Tcb.newSynReceived loc remote syn iss now mss : Tcb κ) kind
      have := negotiate_scale syn mss
      rwa [← show _ = (Tcb.negotiate syn mss).rcvWscale from
        congrArg (fun c : Core => c.rcvWscale) hc] at this
  · intro _
    rcases h.begins with hu | hs
    · rw [hu.rcv, hu.adv]
      omega
    · exact hs.small

end Host

/-- A host, with the last segment it acknowledged with past the handshake. -/
structure Showing (κ : Type) where
  host : Host κ
  last : Option Datagram

namespace Showing

variable {κ : Type} [CongestionControl κ] {w w' : Showing κ} {i : Input}

def step (w : Showing κ) (i : Input) : Option (Showing κ) :=
  some ⟨(w.host.input i).1, (w.host.acks i).or w.last⟩

/-- The edge of the segment emitted is not left of that of the one before. -/
def EdgeKept (w : Showing κ) (i : Input) : Prop :=
  ∀ d₀ d, w.last = some d₀ → w.host.acks i = some d →
    (Host.rightEdgeOf w.host.tcb.rcvWscale d).ge (Host.rightEdgeOf w.host.tcb.rcvWscale d₀) = true

/-- What the shift will cut off the window (the rest of the one advertised before,
or the free space of the pool if that is more) is no more than what it cut off the
last one, and what the advertised edge gains. -/
def Fits (w : Showing κ) (i : Input) : Prop :=
  ∀ d₀, w.last = some d₀ → (w.host.acks i).isSome = true →
    (max w.host.adv (w.host.rcv + w.host.tcb.toRecvSpace.room w.host.tcb.rcvWscale) - w.host.rcv) %
        2 ^ w.host.tcb.rcvWscale ≤
      w.host.tcb.rcvAdv.offsetFrom d₀.repr.ack % 2 ^ w.host.tcb.rcvWscale +
        (max w.host.adv (w.host.rcv + w.host.tcb.toRecvSpace.room w.host.tcb.rcvWscale) - w.host.adv)

/-- The last segment showed the advertised edge, less what the shift cut off. -/
structure Shown (w : Showing κ) (d₀ : Datagram) : Prop where
  ring : w.host.Ring
  waiting : w.host.tcb.state ≠ .synReceived
  acked : ∃ a, d₀.repr.ack = w.host.tcb.irs + a ∧ a ≤ w.host.rcv ∧ a ≤ w.host.adv ∧
    w.host.adv ≤ a + 262144 ∧ Host.rightEdgeOf w.host.tcb.rcvWscale d₀ =
      w.host.tcb.irs + (w.host.adv - (w.host.adv - a) % 2 ^ w.host.tcb.rcvWscale)

structure Shows (w : Showing κ) : Prop where
  sound : w.host.Sound
  encodes : w.host.Encodes
  shown : ∀ d₀, w.last = some d₀ → Shown w d₀

/-- What the window field says. -/
theorem windowField_shift {s n : Nat} (hs : s = 0 ∨ s = 3) (h0 : s = 0 → n ≤ 65535)
    (hn : n ≤ 262144) : windowField false s n <<< s = n - n % 2 ^ s := by
  rcases hs with rfl | rfl
  · have := h0 rfl
    simp only [windowField, Nat.shiftRight_zero, Nat.shiftLeft_zero, Bool.false_eq_true, if_false]
    omega
  · simp only [windowField, Nat.shiftRight_eq_div_pow, Nat.shiftLeft_eq, Bool.false_eq_true, if_false]
    omega

/-- One emission. -/
structure Emits (w : Showing κ) (i : Input) (d : Datagram) : Prop where
  ring : w.host.Ring
  waiting : w.host.tcb.state ≠ .synReceived
  rcv : (w.host.input i).1.rcv = w.host.rcv
  adv : (w.host.input i).1.adv =
    max w.host.adv (w.host.rcv + w.host.tcb.toRecvSpace.room w.host.tcb.rcvWscale)
  acked : d.repr.ack = w.host.tcb.irs + w.host.rcv
  edge : Host.rightEdgeOf w.host.tcb.rcvWscale d = w.host.tcb.irs + ((w.host.input i).1.adv -
    ((w.host.input i).1.adv - w.host.rcv) % 2 ^ w.host.tcb.rcvWscale)

theorem Shows.emits (h : w.Shows) {d : Datagram} (hd : w.host.acks i = some d) : Emits w i d := by
  obtain ⟨now, rfl, hack, hwin, hrecv, hst, hrec⟩ := Host.acks_poll h.sound.ok hd
  have hr : w.host.Ring := by
    refine h.sound.ring.resolve_left fun hu => ?_
    rcases hu.state with hs | hs
    · exact hst.1 hs
    · exact hst.2 hs
  have hp := Host.input_passes h.sound.ok hr.state (.poll now)
  obtain ⟨hr', h1, h2⟩ := hr.advertised hp.state hrecv
  obtain ⟨-, hw⟩ := RecvSpace.advertisedWindow_eq hr.nxt hr.edge hr.ahead hr.behind w.host.tcb.rcvWscale
  have hbehind := hr'.behind
  have hsmall := (h.encodes.input h.sound (.poll now)).small
  rw [hp.rcv, hp.adv, h1, h2, congrArg Options.rcvWscale hp.options] at hsmall
  rw [h1, h2] at hbehind
  refine ⟨hr, hrec, hp.rcv.trans h1, hp.adv.trans h2, hack.trans hr.nxt, ?_⟩
  rw [hp.adv, h2, Host.rightEdgeOf, hack, hwin, hw, windowField_shift h.encodes.scale
    (fun h0 => by have := hsmall h0; omega) (by omega), hr.nxt, SeqNumber.add_add]
  congr 1
  have hmod := Nat.mod_le (max w.host.adv
    (w.host.rcv + w.host.tcb.toRecvSpace.room w.host.tcb.rcvWscale) - w.host.rcv)
    (2 ^ w.host.tcb.rcvWscale)
  omega

theorem Shows.input (h : w.Shows) (hw : step w i = some w') : w'.Shows := by
  have hsound := h.sound.input i
  have hencodes := h.encodes.input h.sound i
  cases hw
  refine ⟨hsound, hencodes, fun d hd => ?_⟩
  change (w.host.acks i).or w.last = some d at hd
  rcases hacks : w.host.acks i with _ | d₁
  · rw [hacks, Option.none_or] at hd
    obtain ⟨hr, hrec, a, h1, h2, h3, h4, h5⟩ := h.shown d hd
    have hp := Host.input_passes h.sound.ok hr.state i
    obtain ⟨hadv, hrcv⟩ := Host.acks_none h.sound.ok hr hrec hacks
    refine ⟨hr.passes hp, Host.input_past h.sound.ok hr.state hrec i, a, ?_, h2.trans hrcv, ?_, ?_, ?_⟩
    · change _ = (w.host.input i).1.tcb.irs + _
      rw [hp.irs]
      exact h1
    · exact h3.trans hadv.ge
    · exact hadv.le.trans h4
    · change Host.rightEdgeOf (w.host.input i).1.tcb.rcvWscale d = (w.host.input i).1.tcb.irs +
        ((w.host.input i).1.adv - ((w.host.input i).1.adv - a) % 2 ^ (w.host.input i).1.tcb.rcvWscale)
      rw [hp.irs, congrArg Options.rcvWscale hp.options, hadv]
      exact h5
  · rw [hacks, Option.some_or] at hd
    cases hd
    have he := h.emits hacks
    have hp := Host.input_passes h.sound.ok he.ring.state i
    have hr' := he.ring.passes hp
    have hbehind := hr'.behind
    have hahead : w.host.rcv ≤ (w.host.input i).1.adv := by
      rw [he.adv]
      exact (Nat.le_add_right _ _).trans (Nat.le_max_right _ _)
    rw [he.rcv] at hbehind
    refine ⟨hr', Host.input_past h.sound.ok he.ring.state he.waiting i, w.host.rcv, ?_, he.rcv.ge, hahead,
      hbehind, ?_⟩
    · change _ = (w.host.input i).1.tcb.irs + _
      rw [hp.irs]
      exact he.acked
    · change Host.rightEdgeOf (w.host.input i).1.tcb.rcvWscale d = (w.host.input i).1.tcb.irs + _
      rw [hp.irs, congrArg Options.rcvWscale hp.options]
      exact he.edge

/-- One emission: the edge is kept exactly if the segment fits. -/
theorem Shows.edgeKept_iff (h : w.Shows) : EdgeKept w i ↔ Fits w i := by
  have hone : ∀ d₀ d, w.last = some d₀ → w.host.acks i = some d →
      ((Host.rightEdgeOf w.host.tcb.rcvWscale d).ge (Host.rightEdgeOf w.host.tcb.rcvWscale d₀) = true ↔
        (max w.host.adv (w.host.rcv + w.host.tcb.toRecvSpace.room w.host.tcb.rcvWscale) -
            w.host.rcv) % 2 ^ w.host.tcb.rcvWscale ≤
          w.host.tcb.rcvAdv.offsetFrom d₀.repr.ack % 2 ^ w.host.tcb.rcvWscale +
            (max w.host.adv (w.host.rcv + w.host.tcb.toRecvSpace.room w.host.tcb.rcvWscale) -
              w.host.adv)) := by
    intro d₀ d hd₀ hd
    obtain ⟨-, -, a, h1, h2, h3, h4, h5⟩ := h.shown d₀ hd₀
    have he := h.emits hd
    have hp := Host.input_passes h.sound.ok he.ring.state i
    have hbehind := (he.ring.passes hp).behind
    rw [he.rcv, he.adv] at hbehind
    rw [he.edge, h5, he.adv, h1, he.ring.edge, SeqNumber.offsetFrom_pos_le _ h3 (by omega)]
    generalize w.host.tcb.toRecvSpace.room w.host.tcb.rcvWscale = room at hbehind ⊢
    have hm1 := Nat.mod_le (max w.host.adv (w.host.rcv + room) - w.host.rcv) (2 ^ w.host.tcb.rcvWscale)
    have hm2 := Nat.mod_le (w.host.adv - a) (2 ^ w.host.tcb.rcvWscale)
    generalize (max w.host.adv (w.host.rcv + room) - w.host.rcv) % 2 ^ w.host.tcb.rcvWscale = m₁ at hm1 ⊢
    generalize (w.host.adv - a) % 2 ^ w.host.tcb.rcvWscale = m₂ at hm2 ⊢
    have hnear := he.ring.ahead
    rw [SeqNumber.pos_ge _ (by omega) (by omega), decide_eq_true_eq]
    omega
  constructor
  · intro hk d₀ hd₀ hsome
    obtain ⟨d, hd⟩ := Option.isSome_iff_exists.mp hsome
    exact (hone d₀ d hd₀ hd).mp (hk d₀ d hd₀ hd)
  · intro hf d₀ d hd₀ hd
    exact (hone d₀ d hd₀ hd).mpr (hf d₀ hd₀ (by rw [hd]; rfl))

/-- In every run of a host, each segment it acknowledges with past the handshake
shows an edge not left of the one before, if and only if each fits. -/
theorem edge_kept_iff {r₀ : Host κ} (h0 : r₀.Opens) (is : List Input) :
    Run.Along step EdgeKept ⟨r₀, none⟩ is ↔ Run.Along step Fits ⟨r₀, none⟩ is := by
  have hs : (⟨r₀, none⟩ : Showing κ).Shows := ⟨h0.sound, h0.encodes, by simp⟩
  exact Run.along_iff (fun s i s' hs he => hs.input he) (fun s i hs => hs.edgeKept_iff) hs is

instance : Decidable (EdgeKept w i) :=
  decidable_of_iff (∀ d₀ ∈ w.last, ∀ d ∈ w.host.acks i,
    (Host.rightEdgeOf w.host.tcb.rcvWscale d).ge (Host.rightEdgeOf w.host.tcb.rcvWscale d₀) = true)
    ⟨fun h d₀ d h1 h2 => h d₀ h1 d h2, fun h d₀ h1 d h2 => h d₀ d h1 h2⟩

instance : Decidable (Fits w i) := inferInstanceAs (Decidable (∀ d₀ ∈ w.last, _ → _ ≤ _))

/-- Two octets go out, and `n` arrive and are acknowledged. -/
def exchange (n : Nat) (h : n ≤ 65535) : List Input :=
  Host.settled ++ [.send (Bytes.replicate 2 7), .poll ⟨0⟩,
    .segment ⟨Host.peerSegment 5001 {} (Bytes.replicate n 1), h⟩ ⟨0⟩ false,
    .timer ⟨50000⟩, .poll ⟨50000⟩]

theorem edge_kept_exchange :
    Run.Along step EdgeKept (⟨Host.accepted, none⟩ : Showing Reno) (exchange 16 (by decide)) :=
  (edge_kept_iff Host.accepted_opens _).mpr (by decide +kernel)

/-- Ten octets are not a multiple of the scale: the edge moves left by six. -/
theorem edge_moved_left :
    ¬ Run.Along step EdgeKept (⟨Host.accepted, none⟩ : Showing Reno) (exchange 10 (by decide)) := by
  decide +kernel

end Showing

end Ferrumnet
