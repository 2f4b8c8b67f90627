import Ferrumnet.Handshake
import Ferrumnet.HalfOpen
import Ferrumnet.Integrity

/-
  A lost third leg of the handshake.

  The passive side keeps retransmitting its SYN-ACK. It starts one octet before
  the window of an active side that is ESTABLISHED already, and `on_segment`
  drops a SYN before the window without a word, so that no ACK is owed for it.

  1. `Tcb.emits_owed` — an ACK that is owed goes out with the next segment.
  2. `Core.HalfOpen.completes` — when such a segment opens the passive side.
  3. `lost_ack_recovers_iff` — the retransmission leads to the ACK exactly if the
     ACK is still owed from before.
-/

namespace Ferrumnet

namespace Tcb

variable {κ : Type} [CongestionControl κ] {t : Tcb κ} {p : TcpPacket}

/-- The SYN of the peer once more, past the handshake, before anything else of it. -/
theorem syn_before_window (hst : t.state = .established) (hrst : p.flags.rst = false)
    (hsyn : p.flags.syn = true) (hseq : p.seq = t.irs) (hnxt : t.rcvNxt = t.irs + 1) (now : Instant)
    (ce : Bool) : t.onSegment now p ce = t := by
  have hout : t.toRecvSpace.seqInWindow t.irs = false := Core.not_inWindow (c := t.core) hnxt
  simp [onSegment, onSyn, hst, hrst, hsyn, hseq, hout]

/-- An ACK that is owed goes out, with data or without. -/
theorem emits_owed (hst : t.state = .established) (hack : t.needsAck = true)
    (hreset : t.pendingReset = none) (now : Instant) : ∃ d, (t.pollTransmit now).2 = some d := by
  have hdebts := ({ t with curTsval := BitVec.ofNat 32 now.micros } : Tcb κ).debts_transmitDataOrFin now
  simp only [pollTransmit, hreset, hst] at hdebts ⊢
  generalize transmitDataOrFin (κ := κ) _ now = q at hdebts ⊢
  obtain ⟨u, o⟩ := q
  cases o with
  | some d => exact ⟨d, rfl⟩
  | none =>
    have hu : u.needsAck = true := (congrArg Prod.fst hdebts).trans hack
    simp [Emit.orElse, emitOwedAck, hu, Tcb.emit]

end Tcb

namespace Core

variable {c : Core} {p : TcpPacket}

/-- A segment at the left window edge that acknowledges the SYN-ACK opens a
half-open connection if it is not stale and the SYN-ACK is out. -/
theorem HalfOpen.completes (h : c.HalfOpen) (hrst : p.flags.rst = false) (hsyn : p.flags.syn = false)
    (hack : p.flags.ack = true) (hseq : p.seq = c.irs + 1) (hat : p.ack = c.iss + 1) :
    (c.onSegment p).state.synchronized = true ↔ c.pawsStale p = false ∧ c.sndNxt ≠ c.iss := by
  have hst : c.state = .synReceived := h.state
  have hacc := h.acceptable (p := p) (hseq.trans h.rcv.symm)
  have hadm : c.admits p = !c.pawsStale p := by
    simp [admits, hst, hrst, hsyn, hack, hacc]
  have hgt : p.ack.gt c.sndUna = true := by
    have := SeqNumber.pos_gt c.iss (x := 1) (y := 0) (by omega) (by omega)
    rw [SeqNumber.add_zero] at this
    rw [hat, h.una, this]
    rfl
  have hvalid : c.validAck p = true ↔ c.sndNxt ≠ c.iss := by
    rw [validAck, if_pos hst, hgt, Bool.true_and, hat]
    rcases h.nxt with hn | hn
    · have := SeqNumber.pos_gt c.iss (x := 1) (y := 0) (by omega) (by omega)
      rw [SeqNumber.add_zero] at this
      simp [hn, SeqNumber.le_eq, this]
    · have := SeqNumber.add_ne_self c.iss (n := 1) (by decide)
      simp [hn, this, SeqNumber.le_iff]
  have hcases := c.onSegment_takes p (by simp [hst])
  generalize c.onSegment p = c' at hcases
  cases hcases with
  | dropped ts hno =>
    rw [hadm] at hno
    have hwait : ¬ c.state.synchronized = true := by simp [hst, State.synchronized]
    refine ⟨fun hs => absurd hs hwait, fun h => ?_⟩
    simp [h.1, hvalid.mpr h.2] at hno
  | reset hr _ => exact absurd (hrst.symm.trans hr) (by simp)
  | synAgain hdup => simp [dupSyn, hsyn] at hdup
  | badAck ts _ _ hbad =>
    refine ⟨fun hs => by simp [State.synchronized] at hs, fun h => ?_⟩
    exact absurd ((hvalid.mpr h.2).symm.trans hbad) (by simp)
  | taken ha hv =>
    rw [hadm, Bool.not_eq_true'] at ha
    refine ⟨fun _ => ⟨ha, hvalid.mp hv⟩, fun _ => ?_⟩
    show (Tcb.closingState c.ackedState _ _).synchronized = true
    rw [ackedState, if_pos hst]
    simp only [Tcb.closingState]
    split <;> rfl

theorem HalfOpen.not_by_reset (h : c.HalfOpen) (hrst : p.flags.rst = true) :
    ¬ (c.onSegment p).state.synchronized = true := by
  have hst : c.state = .synReceived := h.state
  unfold Core.onSegment
  rw [if_neg (by simp [hst]), if_pos hrst]
  split
  · simp [State.synchronized]
  · simp [hst, State.synchronized]

end Core

namespace Host

variable {κ : Type} [CongestionControl κ] {r : Host κ}

/-- What an endpoint in ESTABLISHED emits whose application has sent nothing. -/
structure Reply (r : Host κ) (now : Instant) (d : Datagram) : Prop where
  reset : r.tcb.pendingReset = none
  rst : d.repr.flags.rst = false
  syn : d.repr.flags.syn = false
  ack : d.repr.flags.ack = true
  seq : d.repr.seq = r.tcb.iss + 1
  ackNo : d.repr.ack = r.tcb.rcvNxt
  stamp : d.repr.timestamps =
    if r.tcb.tsEnabled then some (BitVec.ofNat 32 now.micros, r.tcb.tsRecent) else none

omit [CongestionControl κ] in
/-- Nothing is in flight, and nothing is to be sent but a FIN. -/
theorem Ok.idle (hok : r.Ok) (hst : r.tcb.state = .established) (hsent : r.sent = []) :
    r.tcb.sndUna = r.tcb.iss + 1 ∧ r.tcb.sndNxt = r.tcb.iss + 1 ∧ r.tcb.tx.len = 0 ∧
      r.tcb.finSeq = none := by
  have hphase : 1 ≤ r.una ∧ r.tcb.finSeq = none := by
    have := hok.phase
    rwa [hst] at this
  have hopened := (hok.sending.opened hphase.2).1
  rw [hsent, List.length_nil] at hopened
  have huna : r.una = 1 := by omega
  have hout : r.tcb.toSendSpace.outstanding = 0 := by omega
  have hat : r.tcb.sndUna = r.tcb.iss + 1 := by
    rw [← huna]
    exact hok.sending.at_una
  have hnxt : r.tcb.sndNxt = r.tcb.sndUna := (SeqNumber.eq_iff_offsetFrom _ _).mpr hout
  have htx : r.tcb.tx.buf.data = [] := by
    rw [hok.sending.bytes, hsent, List.drop_nil]
  refine ⟨hat, hnxt.trans hat, ?_, hphase.2⟩
  show r.tcb.tx.buf.len = 0
  rw [← Bytes.length_data, htx]
  rfl

theorem Ok.reply (hok : r.Ok) (hst : r.tcb.state = .established) (hsent : r.sent = []) {now : Instant}
    {d : Datagram} (hd : (r.tcb.pollTransmit now).2 = some d) :
    (r.tcb.pendingReset ≠ none ∧ d.repr.flags.rst = true) ∨ r.Reply now d := by
  cases hreset : r.tcb.pendingReset with
  | some seq =>
    simp only [Tcb.pollTransmit, hreset] at hd
    cases hd
    exact .inl ⟨by simp, rfl⟩
  | none =>
    right
    obtain ⟨huna, hnxt, htx, hfin⟩ := hok.idle hst hsent
    have hp := hok.polls now
    generalize r.tcb.pollTransmit now = q at hp hd
    obtain ⟨t, o⟩ := q
    dsimp only at hp hd
    subst hd
    cases hp with
    | rst _ hr _ => exact absurd (hreset.symm.trans hr) (by simp)
    | syn hs _ => exact absurd (hst.symm.trans hs) (by simp)
    | @segment t₀ seq extra payload sd st h0 hclock hs hc =>
      obtain ⟨h1, h2, -, -, h5, h6, h7⟩ := t₀.build_spec seq extra payload
      have hen : t₀.tsEnabled = r.tcb.tsEnabled := congrArg (fun c : Core => c.tsEnabled) h0
      have hrec : t₀.tsRecent = r.tcb.tsRecent := congrArg Core.tsRecent h0
      have hstamp : (t₀.build seq extra payload).2.repr.timestamps =
          if r.tcb.tsEnabled then some (BitVec.ofNat 32 now.micros, r.tcb.tsRecent) else none := by
        rw [← hen, ← hrec, ← hclock]
        rfl
      have hack : (t₀.build seq extra payload).2.repr.ack = r.tcb.rcvNxt :=
        h2.trans (congrArg (fun c : Core => c.rcvNxt) h0)
      have hmk : extra.rst = false → extra.syn = false → seq = r.tcb.iss + 1 →
          r.Reply now (t₀.build seq extra payload).2 := fun hr hy hq =>
        ⟨hreset, h6.trans hr, h5.trans hy, h7, h1.trans hq, hack, hstamp⟩
      have hnone : ¬ 0 < r.tcb.core.tx.len := by
        rw [show r.tcb.core.tx.len = 0 from htx]
        omega
      cases hs with
      | synAck hs _ => exact absurd (hst.symm.trans hs) (by simp)
      | synAckAgain hs _ => exact absurd (hst.symm.trans hs) (by simp)
      | ack _ _ _ _ => exact hmk rfl rfl hnxt
      | again off n _ _ hn hle _ => omega
      | data n _ _ hn hle _ =>
        simp only [Core.unsentData] at hle
        omega
      | probe _ _ _ hn =>
        simp only [Core.unsentData] at hn
        omega
      | fin _ _ _ hend => exact hmk rfl rfl (hend.symm.trans hnxt)
      | finAgain f _ hf _ _ _ => exact absurd (hfin.symm.trans hf) (by simp)

theorem Passive.segment (h : r.Passive) (p : TcpPacket) (now : Instant) (ce : Bool) :
    (r.follow (r.tcb.onSegment now p ce)).Passive := by
  have ht := r.tcb.core_onSegment now p ce
  refine ⟨h.ok.segment ht, (stays_segment h.past ht).past h.past, fun hst => ?_⟩
  have hrec : r.tcb.state = .synReceived := by
    by_contra hne
    exact segment_past ht h.past hne hst
  exact (h.half hrec).onSegment now ce hst

end Host

/-- The action is the active open of a side. -/
def Action.connects (y : Side) : Action → Prop
  | .connect x _ _ _ _ _ _ => x = y
  | _ => False

namespace World

variable {κ : Type} [CongestionControl κ] {w w' : World κ}

/-- A side that does not connect is opened passively. -/
theorem passive_step {y : Side} (h : ∀ s, w.host y = some s → s.Passive) {act : Action}
    (hact : ¬ act.connects y) (hs : w.apply act = some w') : ∀ s, w'.host y = some s → s.Passive := by
  have hmove : ∀ (x : Side) (r : Host κ) (o : Option Packet), (x = y → r.Passive) →
      ∀ s, ((w.setHost x r).transmit x o).host y = some s → s.Passive := by
    intro x r o hr s hy
    rcases Side.eq_or_other x y with rfl | rfl <;> simp at hy
    · subst hy
      exact hr rfl
    · exact h s hy
  cases apply_steps hs with
  | connect x loc remote iss now mss kind hx =>
    rw [← transmit_none (w := w.setHost x _) x]
    exact hmove x _ none fun he => absurd he hact
  | accept x i offered iss now mss kind p hx hp hopens =>
    rw [← transmit_none (w := w.setHost x _) x]
    exact hmove x _ none fun _ => Host.Accepts.passive ⟨_, _, _, _, _, _, _, rfl⟩
  | deliver x i now ce r p hx hp =>
    rw [← transmit_none (w := w.setHost x _) x]
    refine hmove x _ none fun he => ?_
    subst he
    exact (h r hx).segment _ now ce
  | own act x r i hx hi =>
    refine hmove x _ _ fun he => ?_
    subst he
    exact (h r hx).input i

theorem passive_run {y : Side} {acts : List Action} (hact : ∀ act ∈ acts, ¬ act.connects y)
    (hr : Run.run apply init acts = some w) : ∀ s, w.host y = some s → s.Passive := by
  refine Run.run_invariant_along (I := fun w : World κ => ∀ s, w.host y = some s → s.Passive)
    (C := fun _ act => ¬ act.connects y) (fun _ _ _ h hc hs => passive_step h hc hs) (fun s hs => ?_)
    (Run.along_of_forall hact _) hr
  cases y <;> cases hs

/-- The passive side's SYN-ACK delivered to the active side leads to a segment whose
delivery opens the passive side: it owes an ACK then, and emits it. -/
def Recovers (r s : Tcb κ) (p : TcpPacket) (now now' now'' : Instant) (ce ce' : Bool) : Prop :=
  (r.onSegment now p ce).needsAck = true ∧
    ∃ d, ((r.onSegment now p ce).pollTransmit now').2 = some d ∧
      (s.onSegment now'' d.parse ce').state.synchronized = true

/-- An active side in ESTABLISHED that has sent nothing, and its peer still in
SYN-RECEIVED: how their sequence spaces stand. -/
theorem halfway {acts : List Action} (hr : Run.run apply init acts = some w) {x : Side} {r s : Host κ}
    (hx : w.host x = some r) (hs : w.host x.other = some s) (hest : r.tcb.state = .established)
    (hsent : r.sent = []) (hok : s.Ok) (hrec : s.tcb.state = .synReceived) :
    Inv 1 w ∧ r.tcb.irs = s.tcb.iss ∧ r.tcb.rcvNxt = s.tcb.iss + 1 ∧ s.tcb.irs = r.tcb.iss := by
  have huna : s.una = 0 := by
    have := hok.phase
    rwa [hrec] at this
  have hsok : s.sent = [] := hok.sending.opening huna
  have hshort : w.Short := by
    intro y
    rcases Side.eq_or_other x y with rfl | rfl
    · rw [sent_eq hx, hsent]
      decide
    · rw [sent_eq hs, hsok]
      decide
  have hi := inv_of_short hr hshort
  have hl : s.Linked 1 r := hi.linked x.other s r hs (by rw [Side.other_other]; exact hx)
  have hlr : r.Linked 1 s := hi.linked x r s hx hs
  have hrl := hl.learned_of_state (by simp [hest]) (by simp [hest])
  have hsl := hlr.learned_of_state (by simp [hrec]) (by simp [hrec])
  have hreach : s.reach 1 = 1 := by
    simp [Host.reach, SendSpace.reach, huna]
  have hone : r.rcv = 1 := by
    have h1 := hrl.received.pos
    have h2 := hrl.received.le
    omega
  refine ⟨hi, hrl.irs, ?_, hsl.irs⟩
  have := hrl.received.nxt
  rwa [hone] at this

/-- The passive side retransmits its SYN-ACK to an active side whose ACK was lost:
that opens the passive side exactly if the active side still owes an ACK from
before. The SYN-ACK does not make it owe one. -/
theorem lost_ack_recovers_iff {acts : List Action} {x : Side}
    (hact : ∀ act ∈ acts, ¬ act.connects x.other) (hr : Run.run apply init acts = some w) {r s : Host κ}
    (hx : w.host x = some r) (hs : w.host x.other = some s) (hest : r.tcb.state = .established)
    (hsent : r.sent = []) (hrec : s.tcb.state = .synReceived) {p : Packet} (hp : p ∈ w.wire x.other)
    (hsyn : p.dgram.repr.flags.syn = true) (hrst : p.dgram.repr.flags.rst = false)
    (now now' now'' : Instant) (ce ce' : Bool) :
    Recovers r.tcb s.tcb p.dgram.parse now now' now'' ce ce' ↔
      r.tcb.needsAck = true ∧ r.tcb.pendingReset = none ∧ s.tcb.sndNxt ≠ s.tcb.iss ∧
        ¬ (s.tcb.tsEnabled = true ∧ r.tcb.tsEnabled = true ∧
          (BitVec.ofNat 32 now'.micros - s.tcb.tsRecent).toInt < 0) := by
  have hpassive := passive_run hact hr s hs
  obtain ⟨hi, hirs, hnxt, hsirs⟩ := halfway hr hx hs hest hsent hpassive.ok hrec
  have hhalf := (hpassive.half hrec).core
  have hok := hi.ok x r hx
  -- The SYN-ACK starts before the window.
  have hseq : p.dgram.parse.seq = r.tcb.irs := by
    have hc := hi.carried _ s hs p hp hrst
    have hpos := (hc.stream.syn hsyn).1
    rw [hirs]
    exact hc.seq.trans (by rw [hpos, SeqNumber.add_zero])
  have hsame : r.tcb.onSegment now p.dgram.parse ce = r.tcb :=
    Tcb.syn_before_window hest hrst hsyn hseq (hnxt.trans (by rw [hirs])) now ce
  rw [Recovers, hsame]
  refine and_congr_right fun hack => ?_
  have hopens : ∀ d, r.Reply now' d → ((s.tcb.onSegment now'' d.parse ce').state.synchronized = true ↔
      s.tcb.sndNxt ≠ s.tcb.iss ∧ ¬ (s.tcb.tsEnabled = true ∧ r.tcb.tsEnabled = true ∧
        (BitVec.ofNat 32 now'.micros - s.tcb.tsRecent).toInt < 0)) := by
    intro d hd
    have hstate := congrArg Core.state (s.tcb.core_onSegment now'' d.parse ce')
    have hcomp := hhalf.completes (p := d.parse) hd.rst hd.syn hd.ack (hd.seq.trans (by rw [← hsirs]; rfl))
      (hd.ackNo.trans hnxt)
    rw [show (s.tcb.onSegment now'' d.parse ce').state = _ from hstate, hcomp, and_comm]
    refine and_congr_right fun _ => ?_
    have hts : d.parse.timestamps =
        if r.tcb.tsEnabled then some (BitVec.ofNat 32 now'.micros, r.tcb.tsRecent) else none := hd.stamp
    unfold Core.pawsStale Core.segTs
    rw [hts]
    by_cases h1 : s.tcb.tsEnabled = true <;> by_cases h2 : r.tcb.tsEnabled = true <;> simp [h1, h2]
  constructor
  · rintro ⟨d, hd, hsync⟩
    rcases hok.reply hest hsent hd with ⟨-, hreset⟩ | hreply
    · have hstate := congrArg Core.state (s.tcb.core_onSegment now'' d.parse ce')
      rw [show (s.tcb.onSegment now'' d.parse ce').state = _ from hstate] at hsync
      exact absurd hsync (hhalf.not_by_reset hreset)
    · exact ⟨hreply.reset, (hopens d hreply).mp hsync⟩
  · rintro ⟨hreset, hcond⟩
    obtain ⟨d, hd⟩ := Tcb.emits_owed hest hack hreset now'
    rcases hok.reply hest hsent hd with ⟨hno, -⟩ | hreply
    · exact absurd hreset hno
    · exact ⟨d, hd, (hopens d hreply).mpr hcond⟩

/-- The SYN-ACK has just been delivered, and the ACK is still owed. -/
def ackOwed : List Action :=
  [.connect .a ⟨1, 1000⟩ ⟨2, 80⟩ (SeqNumber.new 100) ⟨0⟩ 65495 .reno, .poll .a ⟨0⟩,
    .accept .b 0 ⟨true, true, true, true⟩ (SeqNumber.new 4294967290) ⟨0⟩ 65495 .reno, .poll .b ⟨0⟩,
    .deliver .a 0 ⟨0⟩ false]

set_option synthInstance.maxSize 512 in
theorem lost_ack_recovers_ackOwed : ∃ (w : World Reno) (r s : Host Reno) (p : Packet),
    Run.run apply init ackOwed = some w ∧ w.host .a = some r ∧ w.host .b = some s ∧ p ∈ w.wire .b ∧
      Recovers r.tcb s.tcb p.dgram.parse ⟨1⟩ ⟨1⟩ ⟨1⟩ false false := by
  obtain ⟨w, hr, ha, hb, hp⟩ := Run.exists_run apply (init : World Reno) ackOwed
    (fun w : World Reno => (w.host .a).map (fun r : Host Reno => (r.tcb.state, r.sent, r.tcb.needsAck, r.tcb.pendingReset)) =
        some (.established, [], true, none) ∧
      (w.host .b).map (fun s : Host Reno => (s.tcb.state, s.tcb.sndNxt, s.tcb.iss, s.tcb.tsRecent)) =
        some (.synReceived, SeqNumber.new 4294967291, SeqNumber.new 4294967290, 0) ∧
      (w.wire .b)[0]?.map (fun p : Packet => (p.dgram.repr.flags.syn, p.dgram.repr.flags.rst)) =
        some (true, false)) (by decide +kernel)
  obtain ⟨r, hx, h1⟩ := Option.map_eq_some_iff.mp ha
  obtain ⟨s, hs, h2⟩ := Option.map_eq_some_iff.mp hb
  obtain ⟨p, hget, h3⟩ := Option.map_eq_some_iff.mp hp
  simp only [Prod.mk.injEq] at h1 h2 h3
  have hmem := List.mem_of_getElem? hget
  have hact : ∀ act ∈ ackOwed, ¬ act.connects .b := by simp [ackOwed, Action.connects]
  refine ⟨w, r, s, p, hr, hx, hs, hmem, ?_⟩
  refine (lost_ack_recovers_iff hact hr hx hs h1.1 h1.2.1 h2.1 hmem h3.1 h3.2 ⟨1⟩ ⟨1⟩ ⟨1⟩ false false).mpr
    ⟨h1.2.2.1, h1.2.2.2, ?_, ?_⟩
  · rw [h2.2.1, h2.2.2.1]
    decide
  · rw [h2.2.2.2]
    have hold : ¬ (BitVec.ofNat 32 1 - 0 : BitVec 32).toInt < 0 := by decide
    exact fun h => hold h.2.2

/-- The ACK is emitted and lost; the passive side times out and retransmits. -/
def ackLost : List Action := ackOwed ++ [.poll .a ⟨0⟩, .timer .b ⟨3000000⟩, .poll .b ⟨3000000⟩]

set_option synthInstance.maxSize 512 in
/-- The retransmission is dropped without a word. -/
theorem ackLost_not_recovered : ∃ (w : World Reno) (r s : Host Reno) (p : Packet),
    Run.run apply init ackLost = some w ∧ w.host .a = some r ∧ w.host .b = some s ∧
      (w.wire .b)[1]? = some p ∧ p.dgram.repr.flags.syn = true ∧ p.dgram.repr.flags.ack = true ∧
      r.tcb.state = .established ∧ r.sent = [] ∧ s.tcb.state = .synReceived ∧
      (r.tcb.onSegment ⟨3000000⟩ p.dgram.parse false).needsAck = false ∧
      ((r.tcb.onSegment ⟨3000000⟩ p.dgram.parse false).pollTransmit ⟨3000000⟩).2 = none ∧
      ¬ Recovers r.tcb s.tcb p.dgram.parse ⟨3000000⟩ ⟨3000000⟩ ⟨3000000⟩ false false := by
  obtain ⟨w, hr, ha, hb⟩ := Run.exists_run apply (init : World Reno) ackLost
    (fun w : World Reno => ((w.host .a).bind fun r : Host Reno => (w.wire .b)[1]?.map fun p : Packet =>
        (p.dgram.repr.flags.syn, p.dgram.repr.flags.ack, r.tcb.state, r.sent,
          (r.tcb.onSegment ⟨3000000⟩ p.dgram.parse false).needsAck,
          ((r.tcb.onSegment ⟨3000000⟩ p.dgram.parse false).pollTransmit ⟨3000000⟩).2)) =
        some (true, true, .established, [], false, none) ∧
      (w.host .b).map (fun s : Host Reno => s.tcb.state) = some .synReceived) (by decide +kernel)
  obtain ⟨r, hx, h1⟩ := Option.bind_eq_some_iff.mp ha
  obtain ⟨p, hp, h1⟩ := Option.map_eq_some_iff.mp h1
  obtain ⟨s, hs, h2⟩ := Option.map_eq_some_iff.mp hb
  simp only [Prod.mk.injEq] at h1
  refine ⟨w, r, s, p, hr, hx, hs, hp, h1.1, h1.2.1, h1.2.2.1, h1.2.2.2.1, h2, h1.2.2.2.2.1,
    h1.2.2.2.2.2, fun hrec => ?_⟩
  exact absurd (h1.2.2.2.2.1.symm.trans hrec.1) (by simp)

end World

end Ferrumnet
