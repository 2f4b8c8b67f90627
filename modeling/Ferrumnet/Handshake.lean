import Ferrumnet.Feed

/-
  What two endpoints agree on after the handshake.

  The options are settled in two places, by the passive constructor and in
  SYN-SENT, from SYNs written by two encoders. Nothing is assumed of the network
  but that it neither corrupts nor invents.

  1. `World.Steps` — what one action does, by cases.
  2. `Offers`, `Knows` — what a SYN on the wire says of its sender, and what a
     host knows of a SYN it has seen.
  3. `handshake_agrees` — two endpoints past the handshake agree.
-/

namespace Ferrumnet

/-- A call of a host on its own, as an input. -/
def Action.own : Action → Option (Side × Input)
  | .send x data => some (x, .send data)
  | .recv x n => some (x, .recv n)
  | .close x => some (x, .close)
  | .timer x now => some (x, .timer now)
  | .poll x now => some (x, .poll now)
  | _ => none

/-- An accepted SYN has kept its MSS option. -/
def Action.keepsMss : Action → Prop
  | .accept _ _ offered _ _ _ _ => offered.mss = true
  | _ => True

namespace World

variable {κ : Type} [CongestionControl κ] {w w' : World κ}

/-- What one action does. -/
inductive Steps (w : World κ) : Action → World κ → Prop
  | connect (x : Side) (loc remote : Endpoint) (iss : SeqNumber) (now : Instant) (mss : Nat)
      (kind : CcKind) : w.host x = none → Steps w (.connect x loc remote iss now mss kind)
        (w.setHost x (.fresh ((Tcb.newSynSent loc remote iss now mss).setCongestionControl kind)))
  | accept (x : Side) (i : Nat) (offered : Ferrumnet.Offered) (iss : SeqNumber) (now : Instant) (mss : Nat)
      (kind : CcKind) (p : Packet) : w.host x = none → (w.wire x.other)[i]? = some p →
      opens p = true → Steps w (.accept x i offered iss now mss kind)
        (w.setHost x (.fresh ((Tcb.newSynReceived p.dgram.dst p.dgram.src
          (offered.restrict p.dgram.parse) iss now mss).setCongestionControl kind)))
  | deliver (x : Side) (i : Nat) (now : Instant) (ce : Bool) (r : Host κ) (p : Packet) :
      w.host x = some r → (w.wire x.other)[i]? = some p → Steps w (.deliver x i now ce)
        (w.setHost x (r.follow (r.tcb.onSegment now p.dgram.parse ce)))
  | own (act : Action) (x : Side) (r : Host κ) (i : Input) : w.host x = some r →
      act.own = some (x, i) → Steps w act
        ((w.setHost x (r.input i).1).transmit x ((r.input i).2.map r.label))

theorem apply_steps {act : Action} (h : w.apply act = some w') : w.Steps act w' := by
  have hown : ∀ x r i, w.host x = some r → act.own = some (x, i) → (r.input i).2 = none →
      w' = w.setHost x (r.input i).1 → w.Steps act w' := by
    rintro x r i hx ha hn rfl
    have := Steps.own act x r i hx ha
    rwa [hn, Option.map_none, transmit_none] at this
  cases act with
  | connect x loc remote iss now mss kind =>
    rcases hx : w.host x with _ | r
    · simp only [apply, hx] at h
      cases h
      exact .connect x loc remote iss now mss kind hx
    · simp [apply, hx] at h
  | accept x i offered iss now mss kind =>
    rcases hx : w.host x with _ | r
    · rcases hp : (w.wire x.other)[i]? with _ | p
      · simp [apply, hx, hp] at h
      · simp only [apply, hx, hp] at h
        split at h
        · rename_i ho
          cases h
          exact .accept x i offered iss now mss kind p hx hp ho
        · cases h
    · simp [apply, hx] at h
  | deliver x i now ce =>
    rcases hx : w.host x with _ | r
    · simp [apply, hx] at h
    · rcases hp : (w.wire x.other)[i]? with _ | p
      · simp [apply, hx, hp] at h
      · simp only [apply, hx, hp] at h
        cases h
        exact .deliver x i now ce r p hx hp
  | send x data =>
    rcases hx : w.host x with _ | r
    · simp [apply, hx] at h
    · simp only [apply, hx] at h
      cases h
      exact hown x r (.send data) hx rfl rfl rfl
  | recv x n =>
    rcases hx : w.host x with _ | r
    · simp [apply, hx] at h
    · simp only [apply, hx] at h
      cases h
      exact hown x r (.recv n) hx rfl rfl rfl
  | close x =>
    rcases hx : w.host x with _ | r
    · simp [apply, hx] at h
    · simp only [apply, hx] at h
      cases h
      exact hown x r .close hx rfl rfl rfl
  | timer x now =>
    rcases hx : w.host x with _ | r
    · simp [apply, hx] at h
    · simp only [apply, hx] at h
      cases h
      exact hown x r (.timer now) hx rfl rfl rfl
  | poll x now =>
    rcases hx : w.host x with _ | r
    · simp [apply, hx] at h
    · simp only [apply, hx] at h
      cases h
      exact .own _ x r (.poll now) hx rfl

/-- What an action makes of one host, and what it puts on its wire: nothing, a
packet of the peer, or a call of its own. -/
inductive Moves (r : Host κ) (theirs : List Packet) : Host κ → Option Packet → Prop
  | stands : Moves r theirs r none
  | segment (p : Packet) (now : Instant) (ce : Bool) : p ∈ theirs →
      Moves r theirs (r.follow (r.tcb.onSegment now p.dgram.parse ce)) none
  | own (i : Input) : (∀ seg now ce, i ≠ .segment seg now ce) →
      Moves r theirs (r.input i).1 ((r.input i).2.map r.label)

theorem Steps.moves {act : Action} (h : w.Steps act w') {x : Side} {r : Host κ}
    (hx : w.host x = some r) : ∃ r' o, w'.host x = some r' ∧ w'.wire x = w.wire x ++ o.toList ∧
      Moves r (w.wire x.other) r' o := by
  have hstands : ∀ v : World κ, v.host x = w.host x → v.wire x = w.wire x →
      ∃ r' o, v.host x = some r' ∧ v.wire x = w.wire x ++ o.toList ∧
        Moves r (w.wire x.other) r' o := by
    intro v hv hw
    exact ⟨r, none, hv.trans hx, by simp [hw], .stands⟩
  cases h with
  | connect y loc remote iss now mss kind hy =>
    rcases Side.eq_or_other y x with rfl | rfl
    · rw [hx] at hy; cases hy
    · exact hstands _ (by simp) (by simp)
  | accept y i offered iss now mss kind p hy _ _ =>
    rcases Side.eq_or_other y x with rfl | rfl
    · rw [hx] at hy; cases hy
    · exact hstands _ (by simp) (by simp)
  | deliver y i now ce s p hy hp =>
    rcases Side.eq_or_other y x with rfl | rfl
    · rw [hx] at hy
      cases hy
      exact ⟨_, none, by simp, by simp, .segment p now ce (List.mem_of_getElem? hp)⟩
    · exact hstands _ (by simp) (by simp)
  | own act y s i hy hi =>
    rcases Side.eq_or_other y x with rfl | rfl
    · rw [hx] at hy
      cases hy
      refine ⟨_, _, by simp, by simp, .own i fun seg now ce he => ?_⟩
      subst he
      cases act <;> simp [Action.own] at hi
    · exact hstands _ (by simp) (by simp)

end World

namespace Host

variable {κ : Type} {h h' r : Host κ} {p syn : TcpPacket}

/-! ## What a SYN says -/

/-- A SYN of an active open: everything is offered. -/
structure Bare (p : TcpPacket) : Prop where
  ack : p.flags.ack = false
  scale : p.windowScale = some 3
  timestamps : p.timestamps.isSome = true
  sack : p.sackPermitted = true

/-- A SYN-ACK repeats what its sender has settled. -/
structure Mirrors (h : Host κ) (p : TcpPacket) : Prop where
  ack : p.flags.ack = true
  past : h.tcb.state ≠ .synSent
  scale : p.windowScale = if h.tcb.windowScaling then some (min h.tcb.rcvWscale 14) else none
  timestamps : p.timestamps.isSome = h.tcb.tsEnabled
  sack : p.sackPermitted = h.tcb.sackEnabled

/-- A SYN on the wire of a host. -/
structure Offers (h : Host κ) (p : TcpPacket) : Prop where
  seq : p.seq = h.tcb.iss
  mss : p.mssOption = some h.tcb.mssAdvertise
  options : Bare p ∨ h.Mirrors p

/-- A host that has settled the options with the SYN of its peer. -/
structure Knows (h : Host κ) (syn : TcpPacket) : Prop where
  past : h.tcb.state ≠ .synSent
  irs : h.tcb.irs = syn.seq
  options : h.tcb.toOptions = Tcb.negotiate syn h.tcb.mssAdvertise

def Waits (h : Host κ) : Prop := h.tcb.state = .synSent ∨ h.tcb.state = .closed

/-- Past the peer's SYN nothing that was said changes. -/
theorem Stays.offers (hs : h.Stays h') (ho : h.Offers p) : h'.Offers p := by
  obtain ⟨h1, h2, h3⟩ := ho
  refine ⟨h1.trans hs.iss.symm, ?_, h3.imp_right fun hm => ?_⟩
  · rw [h2, congrArg Options.mssAdvertise hs.options]
  · exact ⟨hm.ack, hs.past hm.past,
      by rw [congrArg Options.windowScaling hs.options, congrArg Options.rcvWscale hs.options]; exact hm.scale,
      by rw [congrArg Options.tsEnabled hs.options]; exact hm.timestamps,
      by rw [congrArg Options.sackEnabled hs.options]; exact hm.sack⟩

theorem Stays.knows (hs : h.Stays h') (hk : h.Knows syn) : h'.Knows syn :=
  ⟨hs.past hk.past, hs.irs.trans hk.irs,
    by rw [hs.options]; exact hk.options⟩

variable [CongestionControl κ]

/-- What a host puts on the wire: a SYN only in the two states of the handshake. -/
theorem Ok.offers (h : r.Ok) {i : Input} {d : Datagram} (hd : (r.input i).2 = some d)
    (hsyn : d.repr.flags.syn = true) :
    r.Offers d.parse ∧ (d.repr.flags.ack = false → r.tcb.state = .synSent) := by
  cases i with
  | poll now =>
    have hp := h.polls now
    change (r.tcb.pollTransmit now).2 = some d at hd
    generalize r.tcb.pollTransmit now = q at hp hd
    obtain ⟨t, o⟩ := q
    dsimp only at hp hd
    subst hd
    cases hp with
    | rst seq _ _ => cases hsyn
    | syn hst _ => exact ⟨⟨rfl, rfl, .inl ⟨rfl, rfl, rfl, rfl⟩⟩, fun _ => hst⟩
    | @segment t₀ seq extra payload _ _ h0 _ hs _ =>
      obtain ⟨hseq, -, -, -, hsyn', -, hack⟩ := t₀.build_spec seq extra payload
      have hopt : t₀.toOptions = r.tcb.toOptions := congrArg Core.toOptions h0
      have hsyn'' := hsyn'.symm.trans hsyn
      have hst : r.tcb.state ≠ .synSent := (sends_open hs).2
      have hiss : seq = r.tcb.iss := by
        cases hs with
        | synAck _ _ => rfl
        | synAckAgain _ _ => rfl
        | _ => cases hsyn''
      refine ⟨⟨hseq.trans hiss, ?_, .inr ⟨hack, hst, ?_, ?_, ?_⟩⟩, fun hno => ?_⟩
      · change (if extra.syn then some t₀.mssAdvertise else none) = _
        rw [hsyn'', if_pos rfl, congrArg Options.mssAdvertise hopt]
      · change (if extra.syn && t₀.windowScaling then some t₀.rcvWscale else none).map (min · 14) = _
        rw [hsyn'', Bool.true_and, congrArg Options.windowScaling hopt, congrArg Options.rcvWscale hopt]
        split <;> rfl
      · change (if t₀.tsEnabled then some (t₀.curTsval, t₀.tsRecent) else none).isSome = _
        rw [congrArg Options.tsEnabled hopt]
        cases r.tcb.tsEnabled <;> rfl
      · change (extra.syn && t₀.sackEnabled) = _
        rw [hsyn'', Bool.true_and, congrArg Options.sackEnabled hopt]
      · rw [hack] at hno
        cases hno
  | _ => cases hd

omit [CongestionControl κ] in
theorem ackedSend_iss (c : Core) (tcp : TcpPacket) : (c.ackedSend tcp).iss = c.iss := by
  unfold Core.ackedSend
  split
  · rfl
  · split
    · rfl
    · rfl

omit [CongestionControl κ] in
/-- A segment settles nothing past SYN-SENT. -/
theorem stays_segment (h : r.tcb.state ≠ .synSent) {t : Tcb κ}
    (ht : t.core = r.tcb.core.onSegment p) : r.Stays (r.follow t) := by
  have hcases := r.tcb.core.onSegment_takes p h
  rw [← ht] at hcases
  generalize hc : t.core = c at hcases
  cases hcases with
  | dropped ts _ =>
    exact .quiet (congrArg (fun c : Core => c.iss) hc) (congrArg (fun c : Core => c.irs) hc)
      (congrArg Core.toOptions hc) (.inl (congrArg Core.state hc)) rfl
  | reset _ _ =>
    exact .quiet (congrArg (fun c : Core => c.iss) hc) (congrArg (fun c : Core => c.irs) hc)
      (congrArg Core.toOptions hc) (.inr (congrArg Core.state hc)) rfl
  | synAgain _ =>
    exact .quiet (congrArg (fun c : Core => c.iss) hc) (congrArg (fun c : Core => c.irs) hc)
      (congrArg Core.toOptions hc) (.inl (congrArg Core.state hc)) rfl
  | badAck ts _ _ _ =>
    exact .quiet (congrArg (fun c : Core => c.iss) hc) (congrArg (fun c : Core => c.irs) hc)
      (congrArg Core.toOptions hc) (.inr (congrArg Core.state hc)) rfl
  | taken _ _ =>
    obtain ⟨_, _, htext, -⟩ := r.tcb.toRecvSpace.text_shift r.tcb.sackEnabled p
    have hstate := congrArg Core.state hc
    refine ⟨(congrArg (fun c : Core => c.iss) hc).trans (ackedSend_iss r.tcb.core p),
      (congrArg (fun c : Core => c.irs) hc).trans htext.irs, congrArg Core.toOptions hc,
      fun hw => ?_, fun _ => ?_⟩
    · rcases hw with hw | hw
      · exact absurd hw h
      · have hcl : ((r.tcb.core.advanceTsRecent p).acked p).state = .closed := by
          change r.tcb.core.ackedState = _
          simp [Core.ackedState, hw]
        refine .inr (hstate.trans ?_)
        change Tcb.closingState ((r.tcb.core.advanceTsRecent p).acked p).state _ _ = _
        rw [hcl]
        rfl
    · exact hstate.trans_ne (closingState_ne (ackedState_ne h).1 (.inl rfl))

omit [CongestionControl κ] in
/-- A segment on a host that waits for the peer's SYN: the options are settled by
that SYN alone. -/
theorem Waits.segment (h : r.Waits) {t : Tcb κ} (ht : t.core = r.tcb.core.onSegment p) :
    ((r.follow t).Waits ∧ r.Stays (r.follow t)) ∨
      (p.flags.syn = true ∧ t.iss = r.tcb.iss ∧ t.mssAdvertise = r.tcb.mssAdvertise ∧
        (r.follow t).Knows p ∧ r.tcb.state = .synSent) := by
  by_cases hst : r.tcb.state = .synSent
  · have hst' : r.tcb.core.state = .synSent := hst
    rw [Core.onSegment, if_pos hst'] at ht
    have hcases := r.tcb.core.onSegmentSynSent_takes p
    rw [← ht] at hcases
    generalize hc : t.core = c at hcases
    have hiss := congrArg (fun c : Core => c.iss) hc
    have hirs := congrArg (fun c : Core => c.irs) hc
    have hopt := congrArg Core.toOptions hc
    have hstate := congrArg Core.state hc
    -- both ways out of SYN-SENT learn the peer's SYN
    have hlearn : t.toOptions = Tcb.negotiate p r.tcb.mssAdvertise → t.irs = p.seq →
        t.state ≠ .synSent → t.mssAdvertise = r.tcb.mssAdvertise ∧ (r.follow t).Knows p := by
      intro ho hi hs
      have hm : t.toOptions.mssAdvertise = r.tcb.mssAdvertise := by rw [ho]; rfl
      refine ⟨hm, hs, hi, ?_⟩
      change t.toOptions = Tcb.negotiate p t.mssAdvertise
      rw [hm]
      exact ho
    cases hcases with
    | dropped =>
      exact .inl ⟨.inl (hstate.trans hst), .quiet hiss hirs hopt (.inl hstate) rfl⟩
    | reset _ _ =>
      exact .inl ⟨.inr hstate, .quiet hiss hirs hopt (.inr hstate) rfl⟩
    | acked _ hsyn _ =>
      obtain ⟨hm, hk⟩ := hlearn hopt hirs (hstate.trans_ne (by simp))
      exact .inr ⟨hsyn, hiss, hm, hk, hst⟩
    | crossed _ hsyn _ =>
      obtain ⟨hm, hk⟩ := hlearn hopt hirs (hstate.trans_ne (by simp))
      exact .inr ⟨hsyn, hiss, hm, hk, hst⟩
  · have hs := stays_segment hst ht
    exact .inl ⟨hs.waits h, hs⟩

/-! ## What two hosts agree on -/

omit [CongestionControl κ]

/-- What the options of one host have to do with those of its peer. -/
structure Agree (h s : Host κ) : Prop where
  irs : h.tcb.irs = s.tcb.iss
  sack : h.tcb.sackEnabled = s.tcb.sackEnabled
  timestamps : h.tcb.tsEnabled = s.tcb.tsEnabled
  scaling : h.tcb.windowScaling = s.tcb.windowScaling
  wscale : h.tcb.sndWscale = s.tcb.rcvWscale
  mss : h.tcb.sndMss ≤ h.tcb.mssAdvertise ∧ h.tcb.sndMss ≤ s.tcb.mssAdvertise

/-- How a host has settled the options: not yet, with a SYN as the peer wrote it,
or as the acceptor of a SYN without ACK, and then it has written none such. -/
inductive Settled (h : Host κ) (mine theirs : List Packet) : Prop
  | waits : h.Waits → Settled h mine theirs
  | answered (q : Packet) : q ∈ theirs → q.dgram.repr.flags.syn = true →
      h.Knows q.dgram.parse → Settled h mine theirs
  | asked (q : Packet) (o : Offered) : q ∈ theirs → q.dgram.repr.flags.syn = true →
      q.dgram.repr.flags.ack = false → o.mss = true → h.Knows (o.restrict q.dgram.parse) →
      (∀ m ∈ mine, m.dgram.repr.flags.syn = true → m.dgram.repr.flags.ack = true) →
      Settled h mine theirs

theorem Settled.grows {mine theirs more : List Packet} (hs : h.Settled mine theirs) :
    h.Settled mine (theirs ++ more) := by
  cases hs with
  | waits hw => exact .waits hw
  | answered q hq hsyn hk => exact .answered q (List.mem_append_left _ hq) hsyn hk
  | asked q o hq hsyn hack ho hk hm =>
    exact .asked q o (List.mem_append_left _ hq) hsyn hack ho hk hm

/-- The scale a host shifts its own windows by follows from the negotiation. -/
theorem Knows.rcvWscale (hk : h.Knows syn) :
    h.tcb.rcvWscale = if h.tcb.windowScaling then 3 else 0 := by
  rw [hk.options]
  rfl

theorem Knows.mss {m : Nat} (hk : h.Knows syn) (hm : syn.mssOption = some m) :
    h.tcb.sndMss ≤ h.tcb.mssAdvertise ∧ h.tcb.sndMss ≤ m := by
  have : h.tcb.sndMss = min (syn.mssOption.getD mssDefault) h.tcb.mssAdvertise :=
    congrArg Options.sndMss hk.options
  rw [this, hm, Option.getD_some]
  omega

/-- A SYN that offers the scale of this implementation, or none. -/
def Plain (p : TcpPacket) : Prop := p.windowScale = none ∨ p.windowScale = some 3

theorem Knows.sndWscale (hk : h.Knows syn) (hp : Plain syn) :
    h.tcb.sndWscale = if h.tcb.windowScaling then 3 else 0 := by
  rw [hk.options]
  rcases hp with hp | hp <;> simp [Tcb.negotiate, hp]

theorem Offers.plain (ho : h.Offers p) (hk : h.Knows syn) : Plain p := by
  rcases ho.options with hb | hm
  · exact .inr hb.scale
  · have hscale := hm.scale
    rw [hk.rcvWscale] at hscale
    by_cases hw : h.tcb.windowScaling = true
    · rw [if_pos hw, if_pos hw] at hscale
      exact .inr hscale
    · rw [if_neg hw] at hscale
      exact .inl hscale

/-- The three switches of two hosts are the same. -/
structure Shares (h s : Host κ) : Prop where
  sack : h.tcb.sackEnabled = s.tcb.sackEnabled
  timestamps : h.tcb.tsEnabled = s.tcb.tsEnabled
  scaling : h.tcb.windowScaling = s.tcb.windowScaling

theorem Shares.symm {s : Host κ} (hs : h.Shares s) : s.Shares h :=
  ⟨hs.sack.symm, hs.timestamps.symm, hs.scaling.symm⟩

/-- Knowing a SYN-ACK makes the switches those of its sender. -/
theorem Mirrors.shares {s : Host κ} (hm : s.Mirrors p) (hk : h.Knows p) : h.Shares s := by
  refine ⟨?_, ?_, ?_⟩
  · rw [hk.options]
    exact hm.sack
  · rw [hk.options]
    exact hm.timestamps
  · rw [hk.options]
    change p.windowScale.isSome = s.tcb.windowScaling
    rw [hm.scale]
    cases s.tcb.windowScaling <;> rfl

/-- Knowing a SYN without ACK turns every switch on. -/
theorem Bare.shares {q : TcpPacket} {s : Host κ} (hp : Bare p) (hq : Bare q) (hh : h.Knows p)
    (hs : s.Knows q) : h.Shares s := by
  refine ⟨?_, ?_, ?_⟩ <;> rw [hh.options, hs.options]
  · exact hp.sack.trans hq.sack.symm
  · exact hp.timestamps.trans hq.timestamps.symm
  · change p.windowScale.isSome = q.windowScale.isSome
    rw [hp.scale, hq.scale]

theorem Knows.agree {q : TcpPacket} {s : Host κ} (hk : h.Knows p) (hp : Plain p) (hs : s.Knows q)
    (hseq : p.seq = s.tcb.iss) (hmss : p.mssOption = some s.tcb.mssAdvertise)
    (hsh : h.Shares s) : h.Agree s := by
  refine ⟨hk.irs.trans hseq, hsh.sack, hsh.timestamps, hsh.scaling, ?_, hk.mss hmss⟩
  rw [hk.sndWscale hp, hs.rcvWscale, hsh.scaling]

theorem Plain.restrict (hp : Plain p) (o : Offered) : Plain (o.restrict p) := by
  unfold Plain Offered.restrict at *
  dsimp only
  split
  · exact hp
  · exact .inl rfl

/-- The acceptor of a SYN, and the host that knows one of its SYN-ACKs. -/
theorem Knows.agree_asked {q : TcpPacket} {s : Host κ} {o : Offered} (hk : h.Knows (o.restrict p))
    (hop : s.Offers p) (ho : o.mss = true) (sk : s.Knows q) (hoq : h.Offers q) (hm : h.Mirrors q) :
    h.Agree s ∧ s.Agree h := by
  have hsh := hm.shares sk
  refine ⟨hk.agree ((hop.plain sk).restrict o) sk hop.seq ?_ hsh.symm,
    sk.agree (hoq.plain hk) hk hoq.seq hoq.mss hsh⟩
  change (if o.mss then p.mssOption else none) = _
  rw [if_pos ho]
  exact hop.mss

theorem Offers.mirrors (ho : h.Offers p) (hack : p.flags.ack = true) : h.Mirrors p := by
  rcases ho.options with hb | hm
  · have := hb.ack
    rw [hack] at this
    cases this
  · exact hm

/-- Two hosts that have settled the options with each other's SYNs agree. -/
theorem Settled.agree {s : Host κ} {mine theirs : List Packet} (hh : h.Settled mine theirs)
    (hs : s.Settled theirs mine)
    (hmine : ∀ m ∈ mine, m.dgram.repr.flags.syn = true → h.Offers m.dgram.parse)
    (htheirs : ∀ m ∈ theirs, m.dgram.repr.flags.syn = true → s.Offers m.dgram.parse)
    (hw : ¬ h.Waits) (sw : ¬ s.Waits) : h.Agree s ∧ s.Agree h := by
  cases hh with
  | waits hn => exact absurd hn hw
  | answered p hp hpsyn hk =>
    have hop := htheirs p hp hpsyn
    cases hs with
    | waits hn => exact absurd hn sw
    | answered q hq hqsyn sk =>
      have hoq := hmine q hq hqsyn
      have hsh : h.Shares s := by
        rcases hop.options with hb | hm
        · rcases hoq.options with hb' | hm'
          · exact hb.shares hb' hk sk
          · exact (hm'.shares sk).symm
        · exact hm.shares hk
      exact ⟨hk.agree (hop.plain sk) sk hop.seq hop.mss hsh,
        sk.agree (hoq.plain hk) hk hoq.seq hoq.mss hsh.symm⟩
    | asked q o hq hqsyn hqack ho sk hack =>
      -- `s` accepted a SYN, so what `h` answered is a SYN-ACK
      exact (sk.agree_asked (hmine q hq hqsyn) ho hk hop (hop.mirrors (hack p hp hpsyn))).symm
  | asked p o hp hpsyn hpack ho hk hack =>
    cases hs with
    | waits hn => exact absurd hn sw
    | answered q hq hqsyn sk =>
      have hoq := hmine q hq hqsyn
      exact hk.agree_asked (htheirs p hp hpsyn) ho sk hoq (hoq.mirrors (hack q hq hqsyn))
    | asked q o' hq hqsyn hqack _ _ _ =>
      have := hack q hq hqsyn
      rw [hqack] at this
      cases this

end Host

namespace World

variable {κ : Type} [CongestionControl κ] {w w' : World κ}

/-- What holds of the two hosts and of the SYNs between them. -/
structure Agreed (w : World κ) : Prop where
  ok : ∀ x r, w.host x = some r → r.Ok
  silent : ∀ x, w.host x = none → w.wire x = []
  offers : ∀ x r, w.host x = some r → ∀ p ∈ w.wire x, p.dgram.repr.flags.syn = true →
    r.Offers p.dgram.parse
  settled : ∀ x r, w.host x = some r → r.Settled (w.wire x) (w.wire x.other)

omit [CongestionControl κ] in
theorem agreed_init : Agreed (init : World κ) := by
  have hnone : ∀ x, (init : World κ).host x = none := fun x => by cases x <;> rfl
  refine ⟨fun x r hx => ?_, fun x _ => by cases x <;> rfl, fun x r hx => ?_, fun x r hx => ?_⟩ <;>
    rw [hnone] at hx <;> cases hx

omit [CongestionControl κ] in
/-- A host moves on, and may put a packet on its wire. -/
theorem Agreed.update (ha : Agreed w) {x : Side} {r : Host κ} {o : Option Packet}
    (hok : r.Ok) (hoff : ∀ p ∈ w.wire x ++ o.toList, p.dgram.repr.flags.syn = true →
      r.Offers p.dgram.parse) (hset : r.Settled (w.wire x ++ o.toList) (w.wire x.other)) :
    Agreed ((w.setHost x r).transmit x o) := by
  have hsplit : ∀ y, y = x ∨ y = x.other := Side.eq_or_other x
  refine ⟨fun y s hy => ?_, fun y hy => ?_, fun y s hy => ?_, fun y s hy => ?_⟩
  · rcases hsplit y with rfl | rfl <;> simp at hy
    · subst hy; exact hok
    · exact ha.ok _ _ hy
  · rcases hsplit y with rfl | rfl <;> simp at hy ⊢
    exact ha.silent _ hy
  · rcases hsplit y with rfl | rfl <;> simp at hy ⊢
    · subst hy
      simpa using hoff
    · exact ha.offers _ _ hy
  · rcases hsplit y with rfl | rfl <;> simp at hy ⊢
    · subst hy
      exact hset
    · have := ha.settled _ _ hy
      rw [Side.other_other] at this
      exact this.grows

/-- A packet is delivered. -/
theorem Agreed.deliver (ha : Agreed w) {x : Side} {r : Host κ} {p : Packet}
    (hx : w.host x = some r) (hp : p ∈ w.wire x.other) (now : Instant) (ce : Bool) :
    Agreed (w.setHost x (r.follow (r.tcb.onSegment now p.dgram.parse ce))) := by
  have ht : (r.tcb.onSegment now p.dgram.parse ce).core = r.tcb.core.onSegment p.dgram.parse :=
    r.tcb.core_onSegment now p.dgram.parse ce
  generalize r.tcb.onSegment now p.dgram.parse ce = t at ht
  have hoff := ha.offers x r hx
  rw [← transmit_none (w := w.setHost x (r.follow t)) x]
  refine ha.update ((ha.ok x r hx).segment ht) ?_ ?_ <;> rw [Option.toList_none, List.append_nil]
  · intro q hq hsyn
    have ho := hoff q hq hsyn
    by_cases hst : r.tcb.state = .synSent
    · rcases Host.Waits.segment (.inl hst) ht with ⟨-, hs⟩ | ⟨-, hi, hm, -, -⟩
      · exact hs.offers ho
      · -- what was sent from SYN-SENT carries no ACK
        refine ⟨ho.seq.trans hi.symm, ho.mss.trans (congrArg some hm.symm), ?_⟩
        rcases ho.options with hb | hm
        · exact .inl hb
        · exact absurd hst hm.past
    · exact (Host.stays_segment hst ht).offers ho
  · cases ha.settled x r hx with
    | waits hw =>
      rcases hw.segment ht with ⟨hw', -⟩ | ⟨hsyn, -, -, hk, -⟩
      · exact .waits hw'
      · exact .answered p hp hsyn hk
    | answered q hq hsyn hk =>
      exact .answered q hq hsyn ((Host.stays_segment hk.past ht).knows hk)
    | asked q o hq hsyn hack ho hk hm =>
      exact .asked q o hq hsyn hack ho ((Host.stays_segment hk.past ht).knows hk) hm

/-- A host acts on its own. -/
theorem Agreed.own (ha : Agreed w) {x : Side} {r : Host κ} (hx : w.host x = some r) {i : Input}
    (hi : ∀ seg now ce, i ≠ .segment seg now ce) :
    Agreed ((w.setHost x (r.input i).1).transmit x ((r.input i).2.map r.label)) := by
  have hok := ha.ok x r hx
  have hs := hok.stays hi
  have hnew : ∀ p ∈ ((r.input i).2.map r.label).toList, p.dgram.repr.flags.syn = true →
      r.Offers p.dgram.parse ∧ (p.dgram.repr.flags.ack = false → r.tcb.state = .synSent) := by
    intro p hp hsyn
    simp only [Option.mem_toList, Option.map_eq_some_iff] at hp
    obtain ⟨d, hd, rfl⟩ := hp
    exact hok.offers hd hsyn
  refine ha.update (hok.input i) (fun p hp hsyn => ?_) ?_
  · rcases List.mem_append.mp hp with hp | hp
    · exact hs.offers (ha.offers x r hx p hp hsyn)
    · exact hs.offers (hnew p hp hsyn).1
  · cases ha.settled x r hx with
    | waits hw => exact .waits (hs.waits hw)
    | answered q hq hsyn hk => exact .answered q hq hsyn (hs.knows hk)
    | asked q o hq hsyn hack ho hk hm =>
      refine .asked q o hq hsyn hack ho (hs.knows hk) fun p hp hsyn => ?_
      rcases List.mem_append.mp hp with hp | hp
      · exact hm p hp hsyn
      · exact Bool.of_not_eq_false fun hno => hk.past ((hnew p hp hsyn).2 hno)

/-- What one action keeps. -/
theorem agreed_step (ha : Agreed w) {act : Action} (hm : act.keepsMss) (h : w.apply act = some w') :
    Agreed w' := by
  cases apply_steps h with
  | connect x loc remote iss now mss kind hx =>
    have hopen : Host.Opens (.fresh ((Tcb.newSynSent loc remote iss now mss : Tcb κ).setCongestionControl kind)) :=
      .active ..
    have hstate : ((Tcb.newSynSent loc remote iss now mss : Tcb κ).setCongestionControl kind).state =
        .synSent := congrArg Core.state (core_setCongestionControl _ kind)
    rw [← transmit_none (w := w.setHost x _) x]
    refine ha.update hopen.ok ?_ (.waits (.inl hstate))
    rw [ha.silent x hx]
    exact fun p hp => absurd hp (by simp)
  | accept x i offered iss now mss kind p hx hp hopens =>
    have hmem := List.mem_of_getElem? hp
    simp only [opens, Bool.and_eq_true, Bool.not_eq_true'] at hopens
    have hc := core_setCongestionControl (Tcb.newSynReceived p.dgram.dst p.dgram.src
      (offered.restrict p.dgram.parse) iss now mss : Tcb κ) kind
    have hopen := Host.Opens.passive (κ := κ) p.dgram.dst p.dgram.src
      (offered.restrict p.dgram.parse) iss now mss kind
    rw [← transmit_none (w := w.setHost x _) x]
    refine ha.update hopen.ok ?_ (.asked p offered hmem hopens.1.1 hopens.1.2 hm ?_ ?_)
    · rw [ha.silent x hx]
      exact fun p hp => absurd hp (by simp)
    · generalize htcb : (Tcb.newSynReceived p.dgram.dst p.dgram.src
        (offered.restrict p.dgram.parse) iss now mss : Tcb κ).setCongestionControl kind = t at hc
      have hopt : t.toOptions = Tcb.negotiate (offered.restrict p.dgram.parse) mss :=
        congrArg Core.toOptions hc
      have hmss : t.toOptions.mssAdvertise = mss := by rw [hopt]; rfl
      refine ⟨(congrArg Core.state hc).trans_ne (by simp [Tcb.newSynReceived]),
        congrArg (fun c : Core => c.irs) hc, ?_⟩
      change t.toOptions = Tcb.negotiate _ t.toOptions.mssAdvertise
      rw [hmss]
      exact hopt
    · rw [ha.silent x hx]
      exact fun p hp => absurd hp (by simp)
  | deliver x i now ce r p hx hp => exact ha.deliver hx (List.mem_of_getElem? hp) now ce
  | own act x r i hx hi =>
    refine ha.own hx fun seg now ce he => ?_
    subst he
    cases act <;> simp [Action.own] at hi

theorem agreed_run {acts : List Action} (hm : ∀ act ∈ acts, act.keepsMss)
    (hr : Run.run apply init acts = some w) : Agreed w :=
  Run.run_invariant_along (fun _ _ _ ha hc h => agreed_step ha hc h) agreed_init
    (Run.along_of_forall hm _) hr

/-- In every run, two hosts that have left SYN-SENT and are not closed agree on
all that the handshake settles, whatever was lost, repeated or reordered. -/
theorem handshake_agrees {acts : List Action} (hm : ∀ act ∈ acts, act.keepsMss)
    (hr : Run.run apply init acts = some w) {x : Side} {h s : Host κ} (hx : w.host x = some h)
    (hs : w.host x.other = some s) (hopen : ¬ h.Waits) (sopen : ¬ s.Waits) :
    h.Agree s ∧ s.Agree h := by
  have ha := agreed_run hm hr
  have hset := ha.settled _ _ hs
  rw [Side.other_other] at hset
  exact (ha.settled x h hx).agree hset (ha.offers x h hx) (ha.offers _ s hs) hopen sopen

theorem handshake_agrees_established : ∃ (w : World Reno) (h s : Host Reno),
    Run.run apply init handshake = some w ∧ w.host .a = some h ∧ w.host .b = some s ∧
      h.tcb.state = .established ∧ s.tcb.state = .established ∧ h.Agree s ∧ s.Agree h := by
  obtain ⟨w, hr, ha, hb⟩ := Run.exists_run apply (init : World Reno) handshake
    (fun w => (w.host .a).map (fun h => h.tcb.state) = some .established ∧
      (w.host .b).map (fun h => h.tcb.state) = some .established) (by decide +kernel)
  obtain ⟨h, hh, h1⟩ := Option.map_eq_some_iff.mp ha
  obtain ⟨s, hs, h2⟩ := Option.map_eq_some_iff.mp hb
  have hkeep : ∀ act ∈ handshake, act.keepsMss := by
    simp [handshake, Action.keepsMss]
  exact ⟨w, h, s, hr, hh, hs, h1, h2, handshake_agrees hkeep hr hh hs
    (by simp [Host.Waits, h1]) (by simp [Host.Waits, h2])⟩

end World

end Ferrumnet
