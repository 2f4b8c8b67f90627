import Ferrumnet.Pool

/-
  `RCV.NXT` and the edge of the window it was promised.

  A segment is acceptable as soon as one end of it lies in the window, and neither
  its data nor its FIN is trimmed at `rcv_adv`. Data above a gap is cut off there;
  data in order goes into the ring as far as the ring has room, which may be more
  than was advertised. Past `rcv_adv`, `RCV.NXT` is outside its own window, and a
  reset that names it is ignored.

  1. `Level.stops` — a segment moves `RCV.NXT` past the edge only by in-order data that
     the ring takes beyond it, or by a FIN numbered like the edge.
  2. `resets_work` — in every run without these two, `RCV.NXT` stays within the
     window, a reset there closes the connection, and a pure ACK is acceptable.
  3. `edge_passed` — a batch of in-order data ends one octet past the edge.
-/

namespace Ferrumnet

open Reasm (Span Lays)

namespace Reasm

/-- Every span is that of a run. -/
theorem Lays.exists_run {b : SeqNumber} : ∀ {runs : List Segment} {ps : List Span},
    List.Forall₂ (Lays b) runs ps → ∀ p ∈ ps, ∃ run ∈ runs, Lays b run p := by
  intro runs ps h
  induction h with
  | nil =>
    intro p hp
    cases hp
  | @cons run p₀ runs ps hrun _ ih =>
    intro p hp
    rcases List.mem_cons.mp hp with rfl | hp
    · exact ⟨run, List.mem_cons_self, hrun⟩
    · obtain ⟨run', hmem, hlays⟩ := ih p hp
      exact ⟨run', List.mem_cons_of_mem _ hmem, hlays⟩

end Reasm

namespace RecvSpace

/-- An octet below the advertised edge is neither brought by the segment, in order,
nor stored above a gap. -/
def Missing (r : RecvSpace) (tcp : TcpPacket) : Prop :=
  ∃ d < r.rcvAdv.offsetFrom r.rcvNxt,
    (r.InOrder tcp → (r.leftTrim tcp.seq tcp.payload).2.len ≤ d) ∧
      ∀ run ∈ r.reasm.runs, run.data.len ≤ (r.rcvNxt + d).offsetFrom run.start

/-- A FIN still to be consumed, brought by the segment or remembered, is numbered
like the advertised edge. -/
def FinAtEdge (r : RecvSpace) (tcp : TcpPacket) : Prop :=
  r.peerFinSeen = false ∧
    ((tcp.flags.fin = true ∧ tcp.seq + tcp.payload.len = r.rcvAdv) ∨ r.pendingFin = some r.rcvAdv)

/-- What the ring takes of a payload in order ends at or below the advertised edge,
and a FIN at the edge stays out of reach. -/
structure Stops (r : RecvSpace) (tcp : TcpPacket) : Prop where
  data : r.InOrder tcp →
    min (r.leftTrim tcp.seq tcp.payload).2.len r.rx.free ≤ r.rcvAdv.offsetFrom r.rcvNxt
  fin : r.FinAtEdge tcp → r.Missing tcp

section Decidable

variable (r : RecvSpace) (tcp : TcpPacket)

instance : Decidable (r.Missing tcp) := inferInstanceAs (Decidable (∃ d, d < _ ∧ (_ → _) ∧ _))

instance : Decidable (r.FinAtEdge tcp) := inferInstanceAs (Decidable (_ ∧ (_ ∧ _ ∨ _)))

instance : Decidable (r.Stops tcp) :=
  decidable_of_iff ((r.InOrder tcp → min (r.leftTrim tcp.seq tcp.payload).2.len r.rx.free ≤
      r.rcvAdv.offsetFrom r.rcvNxt) ∧ (r.FinAtEdge tcp → r.Missing tcp))
    ⟨fun h => ⟨h.1, h.2⟩, fun h => ⟨h.data, h.fin⟩⟩

end Decidable

/-- The FIN consumed with a segment is the one it brings, or one remembered. -/
theorem text_fin (r : RecvSpace) (sack : Bool) (tcp : TcpPacket) (hno : r.peerFinSeen = false)
    (hseen : (r.text sack tcp).peerFinSeen = true) :
    ∃ q : SeqNumber, (r.text sack tcp).rcvNxt = q + 1 ∧
      ((tcp.flags.fin = true ∧ tcp.seq + tcp.payload.len = q) ∨ r.pendingFin = some q) := by
  obtain ⟨k, -, hsame, hpend, -⟩ := r.acceptData_shift sack tcp
  obtain ⟨f, hf, hwhere, -⟩ := (r.acceptData sack tcp).finish_shift tcp
  have h0 : f ≠ 0 := by
    intro h0
    have hkept : (r.text sack tcp).peerFinSeen = (r.acceptData sack tcp).peerFinSeen := hf.none h0
    rw [hseen, hsame, hno] at hkept
    cases hkept
  have h1 : f = 1 := (hf.once h0).1
  refine ⟨(r.acceptData sack tcp).rcvNxt, ?_, ?_⟩
  · have hnxt := hf.shift.nxt
    rw [h1] at hnxt
    exact hnxt
  · rw [← hpend]
    exact hwhere h0

/-- While the edge is not behind it, `RCV.NXT` is in the window, also in one that is
closed. -/
theorem seqInWindow_nxt {r : RecvSpace} (h : r.rcvAdv.offsetFrom r.rcvNxt < 2147483648) :
    r.rcvNxt.le r.rcvAdv = true ∧ r.seqInWindow r.rcvNxt = true := by
  have hback := SeqNumber.offsetFrom_trans r.rcvNxt r.rcvAdv r.rcvNxt
  rw [SeqNumber.offsetFrom_self] at hback
  have hlt := SeqNumber.offsetFrom_lt r.rcvNxt r.rcvAdv
  have hzero : r.rcvAdv ≠ r.rcvNxt → r.rcvAdv.offsetFrom r.rcvNxt ≠ 0 := fun hne h0 =>
    hne ((SeqNumber.eq_iff_offsetFrom _ _).mpr h0)
  refine ⟨(SeqNumber.le_iff _ _).mpr (by omega), ?_⟩
  unfold seqInWindow
  split
  · exact decide_eq_true rfl
  · rename_i hne
    have := hzero hne
    rw [Bool.and_eq_true, SeqNumber.ge_iff, SeqNumber.offsetFrom_self, SeqNumber.lt_iff]
    omega

variable {sack : Bool} {r r' : RecvSpace} {rcv adv lo k p : Nat} {ps ps' : List Span} {tcp : TcpPacket}

/-- A missing octet is not among those a segment brings into order. -/
theorem Missing.short (h : Pooled sack r rcv adv lo ps) (hnear : rcv ≤ adv) (hp : r.Placed rcv adv tcp p)
    (ha : Absorbs r r' rcv k p (r.leftTrim tcp.seq tcp.payload).2 ps ps') (hm : r.Missing tcp) :
    rcv + k < adv := by
  have hpool := h.pool
  obtain ⟨d, hd, hseg, hruns⟩ := hm
  rw [h.edge, h.nxt, SeqNumber.offsetFrom_pos_le _ hnear (by omega)] at hd
  by_contra hge
  obtain ⟨data, -, hlen, hfrom⟩ := ha.ring
  have hlt : d < data.data.length := by
    rw [Bytes.length_data]
    omega
  rcases hfrom d _ (List.getElem?_eq_getElem hlt) with ⟨hat, hbyte⟩ | ⟨⟨s, hs, hbyte⟩, -⟩
  · -- the segment itself brings it
    have hin := (List.getElem?_eq_some_iff.mp hbyte).1
    rw [Bytes.length_data] at hin
    have horder : r.InOrder tcp := by
      refine ⟨?_, by omega⟩
      rcases hp with h0 | ⟨hstart, -⟩
      · omega
      · rw [hstart, hat]
        exact h.nxt.symm
    have := hseg horder
    omega
  · -- a run stores it
    obtain ⟨run, hrun, hstart, hdata⟩ := Reasm.Lays.exists_run h.holds.lays s hs
    obtain ⟨h1, h2⟩ := Reasm.byte_lt_stop hbyte
    have h3 : s.stop = s.pos + s.data.len := rfl
    have hbelow := h.holds.below s hs
    have habove := h.above.trans (h.holds.spaced.above s hs)
    have := hruns run hrun
    rw [h.nxt, hstart, hdata, SeqNumber.add_add, SeqNumber.offsetFrom_pos_le _ h1 (by omega)] at this
    omega

end RecvSpace

namespace Host

variable {κ : Type} [CongestionControl κ] {r r' : Host κ} {i : Input} {ps ps' : List Span}

/-- A segment that is taken stops at the advertised edge. -/
def Stops (r : Host κ) : Input → Prop
  | .segment seg now ce => r.Takes (.segment seg now ce) → r.tcb.toRecvSpace.Stops seg.tcp
  | _ => True

instance : ∀ i, Decidable (r.Stops i)
  | .segment _ _ _ => inferInstanceAs (Decidable (_ → _))
  | .send _ | .recv _ | .close | .timer _ | .poll _ => isTrue trivial

/-! ## One call -/

omit [CongestionControl κ] in
/-- The octets in order stop at the edge. -/
theorem Moves.data_stops (hr : r.Ring) (hr' : r'.Ring) (h : r.Pool ps) (hnear : r.rcv ≤ r.adv) {seg : Segment}
    {p k : Nat} (hs : r.tcb.toRecvSpace.Stops seg.tcp)
    (hp : r.tcb.toRecvSpace.Placed r.rcv r.adv seg.tcp p)
    (ha : RecvSpace.Absorbs r.tcb.toRecvSpace r'.tcb.toRecvSpace r.rcv k p
      (r.tcb.toRecvSpace.leftTrim seg.tcp.seq seg.tcp.payload).2 ps ps') : r.rcv + k ≤ r.adv := by
  have hpool := hr.pool
  obtain ⟨d, hring, hlen, hfrom⟩ := ha.ring
  -- what came into order found room in the ring
  have hfree : k ≤ r.tcb.rx.free := by
    have hl := congrArg List.length hring
    rw [List.length_append, Bytes.length_data, Bytes.length_data, Bytes.length_data, hlen] at hl
    have hle : r'.tcb.rx.buf.len ≤ r'.tcb.rx.capacity := r'.tcb.rx.len_le
    rw [hr'.cap] at hle
    change k ≤ r.tcb.rx.capacity - r.tcb.rx.buf.len
    rw [hr.cap]
    omega
  rcases Nat.eq_zero_or_pos k with h0 | hpos
  · omega
  have hlast : k - 1 < d.data.length := by
    rw [Bytes.length_data]
    omega
  rcases hfrom (k - 1) _ (List.getElem?_eq_getElem hlast) with ⟨hat, hbyte⟩ | ⟨⟨s, hmem, hbyte⟩, -⟩
  · have hin := (List.getElem?_eq_some_iff.mp hbyte).1
    rw [Bytes.length_data] at hin
    have horder : r.tcb.toRecvSpace.InOrder seg.tcp := by
      refine ⟨?_, by omega⟩
      rcases hp with h0 | ⟨hstart, -⟩
      · omega
      · rw [hstart, hat]
        exact hr.nxt.symm
    have := hs.data horder
    rw [hr.edge, hr.nxt, SeqNumber.offsetFrom_pos_le _ hnear (by omega)] at this
    omega
  · have := (Reasm.byte_lt_stop hbyte).2
    have := h.holds.below s hmem
    omega

omit [CongestionControl κ] in
/-- `RCV.NXT` passes the edge only with a segment that does not stop there. -/
theorem Moves.stops (hr : r.Ring) (hr' : r'.Ring) (h : r.Pool ps) (hnear : r.rcv ≤ r.adv)
    (hs : r.Stops i) (hm : r.Moves i r' ps ps') : r'.rcv ≤ r'.adv := by
  have hpool := hr.pool
  cases hm with
  | quiet hno hrcv hadv hps hreasm hring hfin => omega
  | taken seg now ce p k f hi ht hp hrcv hadv htext ha hsame hf hno =>
    subst hi
    have hstops := hs ht
    have hdata := data_stops hr hr' h hnear hstops hp ha
    by_cases h0 : f = 0
    · omega
    obtain ⟨h1, hbefore, hseen⟩ := hf h0
    -- the number of the FIN consumed is `RCV.NXT` behind the data
    rw [htext] at hseen
    obtain ⟨q, hnxt, hq⟩ := r.tcb.toRecvSpace.text_fin r.tcb.sackEnabled seg.tcp hbefore hseen
    have hat : q = r.tcb.irs + (r.rcv + k) := by
      have hpos := hr'.nxt
      obtain ⟨_, _, hshift, -⟩ := r.tcb.toRecvSpace.text_shift r.tcb.sackEnabled seg.tcp
      rw [htext, hshift.irs, hrcv, h1, ← Nat.add_assoc, ← SeqNumber.add_add] at hpos
      exact SeqNumber.add_left_inj (hnxt.symm.trans hpos)
    by_contra hgt
    have hfull : r.rcv + k = r.adv := by omega
    have hedge : q = r.tcb.rcvAdv := by rw [hat, hfull, hr.edge]
    rw [hedge] at hq
    have := (hstops.fin ⟨hbefore, hq⟩).short h hnear hp ha
    omega

/-! ## A run -/

/-- A host whose `RCV.NXT` is within the window it has advertised. -/
structure Contained (r : Host κ) : Prop where
  sound : r.Sound
  pool : ∃ ps, r.Pool ps
  near : r.rcv ≤ r.adv

theorem Opens.contained (h : r.Opens) : r.Contained := by
  have hacc := h.accounted
  refine ⟨h.sound, hacc.pool, ?_⟩
  rcases h.begins with hu | hs
  · rw [hu.rcv, hu.adv]
  · rw [hs.rcv, hs.adv]
    omega

theorem Contained.input (h : r.Contained) (hs : r.Stops i) : (r.input i).1.Contained := by
  have hsound := h.sound.input i
  rcases h.sound.ring with hu | hr
  · rcases hu.input h.sound.ok i with hu' | hs'
    · refine ⟨hsound, ⟨[], hu'.pool⟩, ?_⟩
      rw [hu'.rcv, hu'.adv]
    · refine ⟨hsound, ⟨[], hs'.pool⟩, ?_⟩
      rw [hs'.rcv, hs'.adv]
      omega
  · obtain ⟨ps, hps⟩ := h.pool
    have hp := input_passes h.sound.ok hr.state i
    have hr' := hr.passes hp
    have hpool := hr.pool
    have hahead : r.EdgeAhead i := by
      cases i with
      | segment seg now ce =>
        intro _ _
        rw [hr.nxt, hr.edge, SeqNumber.pos_le _ (by have := h.near; omega) (by omega), decide_eq_true_eq]
        exact h.near
      | _ => trivial
    obtain ⟨ps', hps', hm⟩ := hps.step hr hp (hahead.places hr hps)
    exact ⟨hsound, ⟨ps', hps'⟩, hm.stops hr hr' hps h.near hs⟩

theorem contained_run {is : List Input} (h : r.Contained) (hc : Run.Along step Stops r is)
    (hrun : Run.run step r is = some r') : r'.Contained := by
  refine Run.run_invariant_along (fun s i s' hs hi he => ?_) h hc hrun
  cases he
  exact hs.input hi

omit [CongestionControl κ] in
/-- What is between `RCV.NXT` and the edge, in the connection's own numbers. -/
theorem Contained.offset (h : r.Contained) :
    r.tcb.rcvAdv.offsetFrom r.tcb.rcvNxt ≤ 262144 := by
  have hnear := h.near
  rcases h.sound.ring with hu | hr
  · rw [hu.recv]
    change (SeqNumber.new 0).offsetFrom (SeqNumber.new 0) ≤ _
    rw [SeqNumber.offsetFrom_self]
    omega
  · have hpool := hr.pool
    rw [hr.nxt, hr.edge, SeqNumber.offsetFrom_pos_le _ hnear (by omega)]
    omega

omit [CongestionControl κ] in
theorem Contained.inWindow (h : r.Contained) : r.tcb.rcvNxt.le r.tcb.rcvAdv = true ∧
    r.tcb.toRecvSpace.seqInWindow r.tcb.rcvNxt = true := by
  apply RecvSpace.seqInWindow_nxt
  exact h.offset.trans_lt (by omega)

/-- Resets work: in every run whose segments all stop at the advertised edge,
`RCV.NXT` is within the window, a reset at `RCV.NXT` closes the connection, and a
pure ACK there is acceptable. -/
theorem resets_work {r₀ : Host κ} {is : List Input} (h0 : r₀.Opens) (hc : Run.Along step Stops r₀ is)
    (hrun : Run.run step r₀ is = some r) (hst : r.tcb.state ≠ .synSent) :
    (r.tcb.rcvNxt.le r.tcb.rcvAdv = true ∧ r.tcb.rcvAdv.offsetFrom r.tcb.rcvNxt ≤ rxBuffer) ∧
      (∀ (tcp : TcpPacket) now ce, tcp.flags.rst = true → tcp.seq = r.tcb.rcvNxt →
        (r.tcb.onSegment now tcp ce).state = .closed ∧ (r.tcb.onSegment now tcp ce).reset = true) ∧
      r.tcb.toRecvSpace.segmentAcceptable r.tcb.rcvNxt 0 = true := by
  have h := contained_run h0.contained hc hrun
  obtain ⟨hle, hin⟩ := h.inWindow
  refine ⟨⟨hle, h.offset⟩, fun tcp now ce hrst hseq => ?_, hin⟩
  have hstep : r.tcb.onSegment now tcp ce = { r.tcb with state := .closed, reset := true } := by
    simp only [Tcb.onSegment, hst, if_false, hrst, if_true, Tcb.onRst, hseq, hin]
  rw [hstep]
  exact ⟨rfl, rfl⟩

/-- Data and a FIN, well inside the window. -/
def finInside : List Input :=
  settled ++ [.poll ⟨0⟩,
    .segment ⟨peerSegment 5001 { fin := true } (Bytes.replicate 10 7), by decide⟩ ⟨0⟩ false]

theorem resets_work_finInside : ∃ r : Host Reno, Run.run step accepted finInside = some r ∧
    r.tcb.state = .closeWait ∧ r.tcb.toRecvSpace.segmentAcceptable r.tcb.rcvNxt 0 = true := by
  have hsteps : Run.Along step Stops accepted finInside := by decide +kernel
  obtain ⟨r, hrun, hst⟩ := Run.exists_run step accepted finInside (fun r => r.tcb.state = .closeWait)
    (by decide +kernel)
  have hne : r.tcb.state ≠ .synSent := by rw [hst]; decide
  exact ⟨r, hrun, hst, (resets_work accepted_opens hsteps hrun hne).2.2⟩

/-- A peer without the window scale option. -/
def unscaled : Host Reno :=
  fresh ((Tcb.newSynReceived ⟨2, 80⟩ ⟨1, 1000⟩ { peerSyn with windowScale := none } (SeqNumber.new 100) ⟨0⟩
    65495).setCongestionControl .reno)

/-- Data in order, in one batch, up to one octet past the advertised edge. -/
def straddling : List Input :=
  settled ++ [.segment ⟨peerSegment 5001 {} (Bytes.replicate 65495 7), by decide⟩ ⟨0⟩ false,
    .segment ⟨peerSegment 70496 {} (Bytes.replicate 41 7), by decide⟩ ⟨0⟩ false]

/-- `RCV.NXT` is one past `rcv_adv`, the reset at `RCV.NXT` changes nothing, and the
pure ACK there is not acceptable. -/
theorem edge_passed : unscaled.Opens ∧ ∃ r : Host Reno, Run.run step unscaled straddling = some r ∧
    r.tcb.state = .established ∧ r.tcb.rcvNxt = r.tcb.rcvAdv + 1 ∧
    r.tcb.rcvNxt.le r.tcb.rcvAdv = false ∧
    (r.tcb.onSegment ⟨0⟩ { peerSegment 70537 { rst := true } Bytes.empty with seq := r.tcb.rcvNxt }
      false).state = .established ∧
    r.tcb.toRecvSpace.segmentAcceptable r.tcb.rcvNxt 0 = false := by
  refine ⟨.passive .., ?_⟩
  exact Run.exists_run step unscaled straddling _ (by decide +kernel)

end Host

end Ferrumnet
