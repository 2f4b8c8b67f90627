import Ferrumnet.Pool
import Ferrumnet.Report

/-
  What a SACK option promises.

  The acceptability test takes the advertised edge for the right end of a window
  above `RCV.NXT`. In-order data that crosses the edge is taken whole, and until
  the next segment goes out `RCV.NXT` lies past the edge: then the test admits
  segments almost half the sequence space ahead.

  1. `Watched` — a host with the runs its insertions touched, newest first.
  2. `sack_truthful` — while no payload is taken with the edge behind `RCV.NXT`,
     the blocks are true, and what they report is never given up.
-/

namespace Ferrumnet

open Reasm (Span Holds Lays Subsumes Logged Restamps)

namespace Reasm

/-- The run that holds an octet is the only one. -/
theorem find_has {runs : List Segment} {run : Segment} {q : SeqNumber}
    (h : runs.Pairwise fun x y => ∀ q, x.has q = true → y.has q = false) (hm : run ∈ runs)
    (hq : run.has q = true) : runs.find? (·.has q) = some run := by
  induction runs with
  | nil => cases hm
  | cons x runs ih =>
    obtain ⟨h1, h2⟩ := List.pairwise_cons.mp h
    rw [List.find?_cons]
    rcases List.mem_cons.mp hm with rfl | hm
    · rw [hq]
    · rcases hx : x.has q with _ | _
      · exact ih h2 hm
      · exact absurd ((h1 run hm q hx).symm.trans hq) (by simp)

end Reasm

namespace RecvSpace

variable {sack : Bool} {r : RecvSpace} {rcv adv : Nat} {ps : List Span} {tcp : TcpPacket}

theorem drain_subsumes : ∀ (fuel : Nat) (r : RecvSpace), r.rebuffers fuel = false →
    Subsumes r.reasm (r.drain fuel).reasm := by
  intro fuel
  induction fuel with
  | zero => exact fun r _ => .refl _
  | succ fuel ih =>
    intro r hno
    have hpop := r.reasm.popContiguous_subsumes r.rcvNxt
    simp only [rebuffers] at hno
    simp only [drain]
    split
    · exact hpop
    · rename_i hne
      rw [if_neg hne] at hno
      split
      · rename_i hlt
        rw [if_pos hlt] at hno
        cases hno
      · rename_i hlt
        rw [if_neg hlt] at hno
        exact hpop.trans (ih _ hno)

theorem writeInOrder_subsumes {data : Bytes} (h : r.inOrderRebuffers sack data = false) :
    Subsumes r.reasm (r.writeInOrder sack data).reasm := by
  cases sack with
  | false => exact .refl _
  | true => exact (r.reasm.discardBelow_subsumes _).trans (drain_subsumes _ _ h)

/-- Where a segment that has something to buffer begins, trimmed. -/
def inserts (r : RecvSpace) (sackEnabled : Bool) (tcp : TcpPacket) : Option SeqNumber :=
  let p := r.leftTrim tcp.seq tcp.payload
  if sackEnabled && !p.2.isEmpty && p.1 ≠ r.rcvNxt && p.1.lt r.reasmRightEdge then some p.1
  else none

omit tcp in
/-- Out-of-order data with an octet below the edge leaves a run that has it. -/
theorem insert_restamps {lo p : Nat} {data : Bytes} (h : Pooled true r rcv adv lo ps)
    (hnear : rcv ≤ adv) (hp : rcv < p) (hpa : p ≤ adv) (hfit : data.len ≤ 65535)
    (hlen : 0 < data.len) :
    (r.edgePos rcv adv ≤ p ∧ r.reasm.insert r.rcvNxt r.reasmRightEdge (r.irs + p) data = r.reasm) ∨
    (p < r.edgePos rcv adv ∧ ∃ seg : Span, seg.covers p ∧
      Restamps r.irs r.reasm (r.reasm.insert r.rcvNxt r.reasmRightEdge (r.irs + p) data) seg) := by
  have hpool := h.pool
  have habove := h.above
  have hedge : r.edgePos rcv adv ≤ adv := Nat.min_le_right _ _
  have hedge' : rcv ≤ r.edgePos rcv adv := Nat.le_min.mpr ⟨Nat.le_add_right _ _, hnear⟩
  have hwin : ∀ x, rcv ≤ x → x ≤ adv + 65535 → Reasm.Within rcv x := fun x h1 h2 => ⟨h1, by omega⟩
  rw [h.rightEdge hnear, h.nxt]
  rcases Reasm.insert_spec (h.holds.mono habove le_rfl) (hwin rcv le_rfl (by omega))
    (hwin p (by omega) (by omega)) (hwin (p + data.len) (by omega) (by omega))
    (hwin (r.edgePos rcv adv) hedge' (by omega)) (by omega) with
    ⟨hle, hsame⟩ | ⟨hlt, pre, mid, post, seg, -, -, hf, hr⟩
  · exact .inl ⟨by omega, hsame⟩
  · have h1 := hf.left
    have h2 := hf.right
    exact .inr ⟨by omega, seg, ⟨by omega, by omega⟩, hr⟩

/-- Only an insertion leaves a run that was not there. -/
theorem text_touches {p : Nat} (h : Pooled sack r rcv adv (rcv + r.slot) ps)
    (hfit : tcp.payload.len ≤ 65535) (hp : r.Placed rcv adv tcp p) :
    (r.inserts sack tcp = none ∧ Subsumes r.reasm (r.text sack tcp).reasm) ∨
    (r.inserts sack tcp = some (r.irs + p) ∧ ∃ seg : Span, seg.covers p ∧
      Restamps r.irs r.reasm (r.text sack tcp).reasm seg) := by
  obtain ⟨f, hf, -⟩ := (r.acceptData sack tcp).finish_shift tcp
  have htext : (r.text sack tcp).reasm = (r.acceptData sack tcp).reasm := hf.reasm
  rw [htext]
  have hle := r.leftTrim_len_le tcp.seq tcp.payload
  rcases Nat.eq_zero_or_pos (r.leftTrim tcp.seq tcp.payload).2.len with h0 | hlen
  · -- nothing is left of the payload
    have hemp := Bytes.isEmpty_iff.mpr h0
    refine .inl ⟨by simp [inserts, hemp], ?_⟩
    unfold acceptData
    split
    · exact .refl _
    · simp only [ingest, hemp, if_true]
      exact .refl _
  have hne : (r.leftTrim tcp.seq tcp.payload).2.isEmpty = false := Bytes.isEmpty_eq_false.mpr hlen
  have hpay : tcp.payload.isEmpty = false := Bytes.isEmpty_eq_false.mpr (by omega)
  obtain ⟨-, -, -, -, hno⟩ := acceptData_pooled h r.slot_le hfit hp
  obtain ⟨hseq, hp1, hp2⟩ := hp.resolve_left (by omega)
  simp only [acceptData, hpay, Bool.false_eq_true, if_false, ingest, hne]
  by_cases hin : (r.leftTrim tcp.seq tcp.payload).1 = r.rcvNxt
  · rw [if_pos hin]
    refine .inl ⟨by simp [inserts, hin], writeInOrder_subsumes ?_⟩
    simpa [segmentRebuffers, hne, hin] using hno
  · rw [if_neg hin]
    cases sack with
    | false => exact .inl ⟨by simp [inserts], .refl _⟩
    | true =>
      have hpr : p ≠ rcv := by
        rintro rfl
        exact hin (hseq.trans h.nxt.symm)
      have hpool := h.pool
      have hadv : r.edgePos rcv adv ≤ adv := Nat.min_le_right _ _
      have hrcv : rcv ≤ r.edgePos rcv adv := Nat.le_min.mpr ⟨Nat.le_add_right _ _, by omega⟩
      have hlt : (r.leftTrim tcp.seq tcp.payload).1.lt r.reasmRightEdge =
          decide (p < r.edgePos rcv adv) := by
        rw [hseq, h.rightEdge (by omega), SeqNumber.pos_lt _ (by omega) (by omega)]
      have hins : r.inserts true tcp =
          if p < r.edgePos rcv adv then some (r.irs + p) else none := by
        rw [hseq] at hin hlt
        simp [inserts, hne, hseq, hin, hlt]
      rw [if_pos rfl, hins, hseq]
      rcases insert_restamps h (by omega) (by omega) hp2 (hle.trans hfit) hlen with
        ⟨h1, h2⟩ | ⟨h1, h2⟩
      · rw [if_neg (by omega), h2]
        exact .inl ⟨rfl, .refl _⟩
      · rw [if_pos h1]
        exact .inr ⟨rfl, h2⟩

end RecvSpace

namespace Host

variable {κ : Type} [CongestionControl κ] {r r' : Host κ} {i : Input} {ps : List Span}

/-! ## What the application has had of the stream -/

/-- `RCV.NXT` counts the SYN, what the application was handed out, what waits in
the ring for it, and the FIN. -/
def Counted (r : Host κ) : Prop :=
  r.rcv = 1 + r.got.length + r.tcb.rx.len + r.tcb.peerFinSeen.toNat

omit [CongestionControl κ] in
theorem Started.counted (h : r.Started) (hg : r.got = []) : r.Counted := by
  obtain ⟨seq, hr⟩ := h.recv
  rw [Counted, h.rcv, hg, hr]
  rfl

theorem Counted.input (h : r.Sound) (hr : r.Ring) (hc : r.Counted) (i : Input) :
    (r.input i).1.Counted := by
  rcases r.input_got i with ⟨n, rfl, hg⟩ | ⟨hne, hg⟩
  · -- what leaves the ring is handed out
    obtain ⟨-, h1, -⟩ := hr.read (t := (r.tcb.recv n).1) (n := n) hr.state rfl
    rw [Counted] at hc ⊢
    rw [hg, List.length_append, Bytes.length_data, Bytes.take_len]
    change (r.follow (r.tcb.recv n).1).rcv = 1 + (r.got.length + min n r.tcb.rx.len) +
      (r.tcb.rx.consume n).len + r.tcb.peerFinSeen.toNat
    rw [h1, RingBuffer.consume_len]
    omega
  have hp := input_passes h.ok hr.state i
  rw [Counted] at hc ⊢
  generalize (r.input i).1 = r' at hp hg ⊢
  obtain ⟨hrec, -, hst, h1, -⟩ := hp
  rw [hg]
  obtain ⟨v, hv⟩ : ∃ v, r'.tcb.toRecvSpace = v := ⟨_, rfl⟩
  rw [hv] at hrec
  cases hrec with
  | kept _ _ => rw [h1, (hr.keep hv hst).2.1, hv, hc]
  | read n => exact absurd rfl (hne n)
  | advertised now =>
    rw [h1, (hr.advertised hst hv).2.1, hv, hc]
    rfl
  | taken seg now ce hadm _ =>
    obtain ⟨k, f, -, h2, -, hs, hsame, honce⟩ := hr.taken seg.fits hadm hst hv
    have hlen : r'.tcb.rx.len = r.tcb.rx.len + k := hs.len
    rw [h1, h2, hlen]
    rcases Nat.eq_zero_or_pos f with h0 | hpos
    · rw [hsame h0]
      omega
    · obtain ⟨h3, h4, h5⟩ := honce (by omega)
      rw [h4] at hc
      rw [h5, h3]
      simp only [Bool.toNat_false, Bool.toNat_true] at hc ⊢
      omega

/-! ## The ghost -/

/-- The end of the run that a call puts data into, above a gap. -/
def touches (r : Host κ) : Input → Option SeqNumber
  | .segment seg now ce =>
    if r.Takes (.segment seg now ce) then
      (r.tcb.toRecvSpace.inserts r.tcb.sackEnabled seg.tcp).bind fun q =>
        ((r.input (.segment seg now ce)).1.tcb.reasm.runs.find? (·.has q)).map Reasm.Segment.stop
    else none
  | _ => none

end Host

/-- A host, with the ends of the runs its insertions have left, newest first. -/
structure Watched (κ : Type) where
  host : Host κ
  touched : List SeqNumber

namespace Watched

variable {κ : Type} [CongestionControl κ] {w w' : Watched κ} {i : Input}

def step (w : Watched κ) (i : Input) : Option (Watched κ) :=
  some ⟨(w.host.input i).1, (w.host.touches i).toList ++ w.touched⟩

/-- The host of a run is the host of its inputs. -/
theorem run_host {is : List Input} (h : Run.run step w is = some w') :
    Run.run Host.step w.host is = some w'.host := by
  induction is generalizing w with
  | nil => cases h; rfl
  | cons i is ih => exact ih h

/-- What holds of a watched host. -/
structure Reporting (w : Watched κ) : Prop where
  sound : w.host.Sound
  pool : ∃ ps, w.host.Pool ps
  logged : Logged w.host.tcb.reasm w.touched
  counted : w.host.Unlearned ∨ w.host.Counted

omit [CongestionControl κ] in
theorem inserts_empty {v : RecvSpace} {sack : Bool} {tcp : TcpPacket} (h : tcp.payload.len = 0) :
    v.inserts sack tcp = none := by
  have hle := v.leftTrim_len_le tcp.seq tcp.payload
  have hemp : (v.leftTrim tcp.seq tcp.payload).2.isEmpty = true := Bytes.isEmpty_iff.mpr (by omega)
  simp [RecvSpace.inserts, hemp]

/-- Only a segment that is taken touches a run. -/
theorem touches_none {r : Host κ} (h : ∀ seg now ce, i = .segment seg now ce → r.Takes i →
    r.tcb.toRecvSpace.inserts r.tcb.sackEnabled seg.tcp = none) : r.touches i = none := by
  cases i with
  | segment seg now ce =>
    simp only [Host.touches]
    split
    · rename_i ht
      rw [h seg now ce rfl ht]
      rfl
    · rfl
  | _ => rfl

/-- Past the handshake the log follows the runs. -/
theorem Reporting.log {ps ps' : List Span} (hl : Logged w.host.tcb.reasm w.touched)
    (h : w.host.Pool ps) (h' : (w.host.input i).1.Pool ps')
    (hm : w.host.Moves i (w.host.input i).1 ps ps') :
    Logged (w.host.input i).1.tcb.reasm ((w.host.touches i).toList ++ w.touched) := by
  have hquiet : w.host.touches i = none →
      Subsumes w.host.tcb.reasm (w.host.input i).1.tcb.reasm →
      Logged (w.host.input i).1.tcb.reasm ((w.host.touches i).toList ++ w.touched) := by
    intro hn hs
    rw [hn]
    exact hl.subsumes hs
  cases hm with
  | quiet hno _ _ _ hreasm _ _ =>
    refine hquiet (touches_none fun seg now ce _ ht => absurd ht hno) ?_
    rw [hreasm]
    exact .refl _
  | taken seg now ce p k f hi ht hp hrcv hadv htext _ _ _ _ =>
    subst hi
    rcases RecvSpace.text_touches h seg.fits hp with ⟨h1, h2⟩ | ⟨h1, span, hc, h2⟩
    · rw [← htext] at h2
      exact hquiet (touches_none fun seg' now' ce' he _ => by cases he; exact h1) h2
    · -- the run with the first octet of the segment has the highest stamp
      rw [← htext] at h2
      have hpool := h'.pool
      have habove := h'.above
      have hpool' := h.pool
      have hap := h'.holds.runs_apart (by omega)
      have hd := hap.imp And.right
      have hone := hap.imp And.left
      have hlog := hl.insert h2 hd
      obtain ⟨xs, ys, zs, run, -, hnew, hlays, -, -⟩ := h2
      have hmem : run ∈ (w.host.input (.segment seg now ce)).1.tcb.reasm.runs := by
        rw [hnew]
        simp
      have hlen : span.data.len < 4294967296 := by
        obtain ⟨s', hs', hl'⟩ := Reasm.forall₂_mem_left h'.holds.lays hmem
        have h3 := h'.holds.spaced.above s' hs'
        have h4 := h'.holds.below s' hs'
        have h5 : s'.stop = s'.pos + s'.data.len := rfl
        rw [← hlays.2, hl'.2]
        omega
      have hhas : run.has (w.host.tcb.irs + p) = true := (hlays.has_iff hlen).mpr ⟨p, rfl, hc⟩
      have htouch : w.host.touches (.segment seg now ce) = some (w.host.tcb.irs + span.stop) := by
        simp only [Host.touches, ht, if_true, h1, Option.bind_some, Reasm.find_has hone hmem hhas,
          Option.map_some, hlays.stop]
      rw [htouch]
      exact hlog

theorem Reporting.input (h : w.Reporting) (he : w.host.EdgeAhead i) :
    (⟨(w.host.input i).1, (w.host.touches i).toList ++ w.touched⟩ : Watched κ).Reporting := by
  have hsound := h.sound.input i
  rcases h.sound.ring with hu | hr
  · -- nothing has been buffered yet
    have htouch : w.host.touches i = none :=
      touches_none fun seg now ce hi ht => inserts_empty (hu.takes_empty (hi ▸ ht))
    have hlog : ∀ {seq a b : SeqNumber},
        (w.host.input i).1.tcb.toRecvSpace = Tcb.freshRecv seq a b →
        Logged (w.host.input i).1.tcb.reasm ((w.host.touches i).toList ++ w.touched) := by
      intro seq a b hf
      have h1 := h.logged
      rw [hu.recv] at h1
      rw [htouch, hf]
      exact h1
    have hgot : (w.host.input i).1.got = [] := by
      rcases w.host.input_got i with ⟨n, -, hg⟩ | ⟨-, hg⟩
      · rw [hg, hu.got, hu.recv]
        simp [Tcb.freshRecv, RingBuffer.withCapacity]
      · rw [hg, hu.got]
    rcases hu.input h.sound.ok i with hu' | hs'
    · exact ⟨hsound, ⟨[], hu'.pool⟩, hlog hu'.recv, .inl hu'⟩
    · obtain ⟨seq, hrecv⟩ := hs'.recv
      exact ⟨hsound, ⟨[], hs'.pool⟩, hlog hrecv, .inr (hs'.counted hgot)⟩
  · obtain ⟨ps, hps⟩ := h.pool
    obtain ⟨ps', hps', hm⟩ := hps.step hr (Host.input_passes h.sound.ok hr.state i) (he.places hr hps)
    have hcounted : w.host.Counted := by
      refine h.counted.resolve_left fun hu => ?_
      have h1 := hu.rcv
      have h2 := hr.pos
      omega
    exact ⟨hsound, ⟨ps', hps'⟩, Reporting.log h.logged hps hps' hm,
      .inr (hcounted.input h.sound hr i)⟩

/-! ## The blocks of one segment -/

/-- The octet `q` is in the block. -/
def inBlock (b : SackBlock) (q : SeqNumber) : Bool := q.offsetFrom b.1 < b.2.offsetFrom b.1

/-- The blocks reported beside an acknowledgement are true of the receiver: they
are runs, above the acknowledgement and within the advertised edge, and the first
is the run touched last among those held. -/
structure Reports (r : Host κ) (touched : List SeqNumber) (ack : SeqNumber)
    (blocks : List SackBlock) : Prop where
  runs : ∀ b ∈ blocks, ∃ run ∈ r.tcb.reasm.runs, b = (run.start, run.stop)
  nonempty : ∀ b ∈ blocks, b.1.lt b.2 = true
  held : ∀ b ∈ blocks, ∀ q, inBlock b q = true → r.tcb.reasm.holds q = true
  apart : blocks.Pairwise fun b c => ∀ q, inBlock b q = true → inBlock c q = false
  above : ∀ b ∈ blocks, b.1.gt ack = true
  below : ∀ b ∈ blocks, b.2.le r.tcb.rcvAdv = true
  first : ∀ b rest, blocks = b :: rest →
    touched.find? (fun e => r.tcb.reasm.runs.any fun x => x.stop = e) = some b.2

omit [CongestionControl κ] in
theorem reports_nil (r : Host κ) (touched : List SeqNumber) (ack : SeqNumber) :
    Reports r touched ack [] := by
  constructor <;> simp

/-- What a run of the pool is as a block. -/
theorem inBlock_run {b : SeqNumber} {run : Reasm.Segment} {s : Span} (h : Lays b run s)
    (hl : s.data.len < 4294967296) (q : SeqNumber) : inBlock (run.start, run.stop) q = run.has q := by
  have hlen : run.stop.offsetFrom run.start = run.data.len := by
    rw [Reasm.Segment.stop, SeqNumber.offsetFrom_add, h.2, Nat.mod_eq_of_lt hl]
  simp only [inBlock, Reasm.Segment.has, hlen]

omit [CongestionControl κ] in
theorem Reporting.reports (h : w.Reporting) (hr : w.host.Ring) (hfin : w.host.tcb.peerFinSeen = false)
    (n : Nat) :
    Reports w.host w.touched w.host.tcb.rcvNxt ((w.host.tcb.reasm.report maxSackBlocks).take n) := by
  obtain ⟨ps, hps⟩ := h.pool
  have hpool := hps.pool
  have hslot : w.host.tcb.toRecvSpace.slot = 1 := by simp [RecvSpace.slot, hfin]
  have hholds := hps.holds
  rw [hslot] at hholds
  -- the blocks are the runs, in the order of their stamps, cut off
  generalize hord : w.host.tcb.reasm.runs.insertionSort (fun x y => y.stamp ≤ x.stamp) = order
  have hperm : order.Perm w.host.tcb.reasm.runs := hord ▸ List.perm_insertionSort _ _
  have hblocks : (w.host.tcb.reasm.report maxSackBlocks).take n =
      ((order.take maxSackBlocks).take n).map fun run => (run.start, run.stop) := by
    simp only [Reasm.report, hord, List.map_take]
  have hsub : ((order.take maxSackBlocks).take n).Sublist order :=
    (List.take_sublist _ _).trans (List.take_sublist _ _)
  have hmem : ∀ b ∈ (w.host.tcb.reasm.report maxSackBlocks).take n,
      ∃ run ∈ w.host.tcb.reasm.runs, b = (run.start, run.stop) := by
    intro b hb
    rw [hblocks, List.mem_map] at hb
    obtain ⟨run, hrun, rfl⟩ := hb
    exact ⟨run, hperm.mem_iff.mp (hsub.mem hrun), rfl⟩
  -- each of them lies on a span of the pool
  have hspan : ∀ run ∈ w.host.tcb.reasm.runs, ∃ s : Span, Lays w.host.tcb.irs run s ∧
      w.host.rcv + 1 ≤ s.pos ∧ 0 < s.data.len ∧ s.stop ≤ w.host.adv := by
    intro run hrun
    obtain ⟨s, hs, hl⟩ := Reasm.forall₂_mem_left hholds.lays hrun
    exact ⟨s, hl, hholds.spaced.above s hs, hholds.spaced.nonempty s hs, hholds.below s hs⟩
  have hhas : ∀ run ∈ w.host.tcb.reasm.runs, ∀ q, inBlock (run.start, run.stop) q = run.has q := by
    intro run hrun q
    obtain ⟨s, hl, h1, h2, h3⟩ := hspan run hrun
    have h4 : s.stop = s.pos + s.data.len := rfl
    exact inBlock_run hl (by omega) q
  refine ⟨hmem, fun b hb => ?_, fun b hb q hq => ?_, ?_, fun b hb => ?_, fun b hb => ?_,
    fun b rest hb => ?_⟩
  · obtain ⟨run, hrun, rfl⟩ := hmem b hb
    obtain ⟨s, hl, h1, h2, h3⟩ := hspan run hrun
    have h4 : s.stop = s.pos + s.data.len := rfl
    rw [hl.1, hl.stop, SeqNumber.pos_lt _ (by omega) (by omega), decide_eq_true_eq]
    omega
  · obtain ⟨run, hrun, rfl⟩ := hmem b hb
    rw [hhas run hrun] at hq
    exact List.any_eq_true.mpr ⟨run, hrun, hq⟩
  · have hap := (hholds.runs_apart (by omega)).imp And.left
    have hsymm : ∀ {x y : Reasm.Segment}, (∀ q, x.has q = true → y.has q = false) →
        ∀ q, y.has q = true → x.has q = false := by
      intro x y hxy q hy
      rcases hx : x.has q with _ | _
      · rfl
      · exact absurd ((hxy q hx).symm.trans hy) (by simp)
    have hap' := ((hperm.pairwise_iff fun h => hsymm h).mpr hap).sublist hsub
    rw [hblocks, List.pairwise_map]
    refine hap'.imp_of_mem fun {x y} hx hy hxy q hq => ?_
    rw [hhas x (hperm.mem_iff.mp (hsub.mem hx))] at hq
    rw [hhas y (hperm.mem_iff.mp (hsub.mem hy))]
    exact hxy q hq
  · obtain ⟨run, hrun, rfl⟩ := hmem b hb
    obtain ⟨s, hl, h1, h2, h3⟩ := hspan run hrun
    have h4 : s.stop = s.pos + s.data.len := rfl
    rw [hl.1, hr.nxt, SeqNumber.pos_gt _ (by omega) (by omega), decide_eq_true_eq]
    omega
  · obtain ⟨run, hrun, rfl⟩ := hmem b hb
    obtain ⟨s, hl, h1, h2, h3⟩ := hspan run hrun
    have h4 : s.stop = s.pos + s.data.len := rfl
    rw [hl.stop, hr.edge, SeqNumber.pos_le _ (by omega) (by omega), decide_eq_true_eq]
    omega
  · rw [hblocks] at hb
    cases hrest : order with
    | nil => rw [hrest] at hb; simp at hb
    | cons run tail =>
      have hfirst := h.logged.first (hord.trans hrest)
      rw [hrest] at hb
      cases n with
      | zero => simp at hb
      | succ n =>
        obtain ⟨rfl, -⟩ := List.cons.inj hb
        exact hfirst

/-- A segment carries the first few of the runs, beside `RCV.NXT`, or no block. -/
theorem poll_blocks {r : Host κ} (hok : r.Ok) (now : Instant) {d : Datagram}
    (hd : (r.input (.poll now)).2 = some d) :
    d.parse.sackBlocks = [] ∨ (d.repr.ack = r.tcb.rcvNxt ∧
      ∃ n, d.parse.sackBlocks = (r.tcb.reasm.report maxSackBlocks).take n) := by
  have hp := hok.polls now
  change (r.tcb.pollTransmit now).2 = some d at hd
  generalize r.tcb.pollTransmit now = q at hp hd
  obtain ⟨t, o⟩ := q
  dsimp only at hp hd
  subst hd
  cases hp with
  | rst seq _ hc => exact .inl rfl
  | syn hs _ => exact .inl rfl
  | @segment t₀ seq extra payload _ _ h0 _ hs hc =>
    have hrecv : t₀.toRecvSpace = r.tcb.toRecvSpace := congrArg Core.toRecvSpace h0
    have hsack : (t₀.build seq extra payload).2.repr.sack =
        if t₀.sackEnabled && !extra.syn then r.tcb.reasm.report maxSackBlocks else [] := by
      rw [← show t₀.reasm = r.tcb.reasm from congrArg RecvSpace.reasm hrecv]
      rfl
    have hack : (t₀.build seq extra payload).2.repr.ack = r.tcb.rcvNxt :=
      congrArg RecvSpace.rcvNxt hrecv
    split at hsack
    · exact .inr ⟨hack, _, congrArg (List.take _) hsack⟩
    · exact .inl ((congrArg (List.take _) hsack).trans List.take_nil)

/-! ## What was reported is kept -/

/-- The octet at position `n` is below `RCV.NXT`, where it was handed out or waits
to be, or it is in a run; and all beneath it being there, it is below `RCV.NXT`. -/
structure Retains (r : Host κ) (n : Nat) : Prop where
  held : n < r.rcv ∨ r.tcb.reasm.holds (r.tcb.irs + n) = true
  counted : r.Counted
  reached : r.tcb.peerFinSeen = false →
    (∀ m, r.rcv ≤ m → m < n → r.tcb.reasm.holds (r.tcb.irs + m) = true) → n < r.rcv

/-- What holds of a host that has reported the octet at position `n`. -/
structure Promised (r : Host κ) (n : Nat) : Prop where
  sound : r.Sound
  ring : r.Ring
  counted : r.Counted
  pool : ∃ ps, r.Pool ps ∧ (n < r.rcv ∨ ∃ s ∈ ps, s.covers n)

omit [CongestionControl κ] in
theorem Promised.retains {r : Host κ} {n : Nat} (h : Promised r n) : Retains r n := by
  obtain ⟨ps, hps, hn⟩ := h.pool
  have hpool := hps.pool
  have hslot := r.tcb.toRecvSpace.slot_le
  have hholds := hps.holds
  have hat : ∀ q, r.rcv ≤ q → q ≤ r.rcv + 1000000 →
      (r.tcb.reasm.holds (r.tcb.irs + q) = true ↔ ∃ s ∈ ps, s.covers q) := by
    intro q h1 h2
    exact hholds.holds_iff (by omega) (by omega) (by omega)
  have hheld : n < r.rcv ∨ r.tcb.reasm.holds (r.tcb.irs + n) = true := by
    refine hn.imp_right fun ⟨s, hs, hc⟩ => ?_
    have h1 := hholds.spaced.above s hs
    have h2 := hholds.below s hs
    have h3 := hc.1
    have h4 := hc.2
    exact (hat n (by omega) (by omega)).mpr ⟨s, hs, hc⟩
  refine ⟨hheld, h.counted, fun hfin hall => ?_⟩
  -- nothing is held at `RCV.NXT`
  by_contra hge
  have hone : r.tcb.toRecvSpace.slot = 1 := by simp [RecvSpace.slot, hfin]
  have hat' : r.tcb.reasm.holds (r.tcb.irs + r.rcv) = true := by
    rcases Nat.lt_or_ge r.rcv n with hlt | hle
    · exact hall _ le_rfl hlt
    · have : n = r.rcv := by omega
      rw [← this]
      exact hheld.resolve_left hge
  obtain ⟨s, hs, hc⟩ := (hat _ le_rfl (by omega)).mp hat'
  have h1 := hholds.spaced.above s hs
  have h2 := hc.1
  omega

theorem Promised.input {r : Host κ} {n : Nat} (h : Promised r n) (he : r.EdgeAhead i) :
    Promised (r.input i).1 n := by
  obtain ⟨ps, hps, hn⟩ := h.pool
  have hp := Host.input_passes h.sound.ok h.ring.state i
  obtain ⟨ps', hps', hm⟩ := hps.step h.ring hp (he.places h.ring hps)
  refine ⟨h.sound.input i, h.ring.passes hp, h.counted.input h.sound h.ring i, ps', hps', ?_⟩
  generalize (r.input i).1 = r' at hm
  cases hm with
  | quiet _ hrcv _ hsame _ _ _ =>
    rw [hrcv, hsame]
    exact hn
  | taken _ _ _ p k f _ _ _ hrcv _ _ ha _ _ _ =>
    rcases hn with hlt | ⟨s, hs, hc⟩
    · exact .inl (by omega)
    · rcases Nat.lt_or_ge n (r.rcv + k) with hlt | hge
      · exact .inl (by omega)
      · obtain ⟨v, hv⟩ := Reasm.exists_byte hc
        obtain ⟨s', hs', hv'⟩ := ha.kept s hs n v hge hv
        exact .inr ⟨s', hs', Reasm.byte_lt_stop hv'⟩

theorem promised_run {r r' : Host κ} {n : Nat} {more : List Input} (h : Promised r n)
    (hc : Run.Along Host.step Host.EdgeAhead r more) (hr : Run.run Host.step r more = some r') :
    Promised r' n := by
  refine Run.run_invariant_along (I := fun s => Promised s n) (fun s i s' hs he hst => ?_) h hc hr
  cases hst
  exact hs.input he

theorem Opens.reporting {r : Host κ} (h : r.Opens) : (⟨r, []⟩ : Watched κ).Reporting := by
  rcases h.begins with hu | hs
  · refine ⟨h.sound, ⟨[], hu.pool⟩, ?_, .inl hu⟩
    change Logged r.tcb.reasm []
    rw [hu.recv]
    exact Reasm.logged_new
  · obtain ⟨seq, hrecv⟩ := hs.recv
    refine ⟨h.sound, ⟨[], hs.pool⟩, ?_, .inr (hs.counted ?_)⟩
    · change Logged r.tcb.reasm []
      rw [hrecv]
      exact Reasm.logged_new
    · cases h <;> rfl

theorem reporting_run {is : List Input} (h : w.Reporting)
    (hc : Run.Along step (fun w i => w.host.EdgeAhead i) w is) (hr : Run.run step w is = some w') :
    w'.Reporting := by
  refine Run.run_invariant_along (fun s i s' hs he hst => ?_) h hc hr
  cases hst
  exact hs.input he

/-- In a state reached with the edge ahead of every payload taken: what the SACK
blocks of the next segment say is true, and whatever is fed in later, with the
edge ahead too, no octet reported is given up. -/
theorem sack_truthful {r₀ : Host κ} {is : List Input} (h0 : r₀.Opens)
    (hc : Run.Along step (fun w i => w.host.EdgeAhead i) ⟨r₀, []⟩ is)
    (hrun : Run.run step ⟨r₀, []⟩ is = some w) {now : Instant} {d : Datagram}
    (hd : (w.host.input (.poll now)).2 = some d) (hfin : w.host.tcb.peerFinSeen = false) :
    Reports (w.host.input (.poll now)).1 w.touched d.repr.ack d.parse.sackBlocks ∧
      ∀ b ∈ d.parse.sackBlocks, ∀ n, w.host.rcv ≤ n → n < w.host.rcv + 2147483648 →
        inBlock b (w.host.tcb.irs + n) = true → ∀ more r',
        Run.Along Host.step Host.EdgeAhead (w.host.input (.poll now)).1 more →
        Run.run Host.step (w.host.input (.poll now)).1 more = some r' → Retains r' n := by
  have h := reporting_run (Opens.reporting h0) hc hrun
  have h' : (⟨(w.host.input (.poll now)).1, w.touched⟩ : Watched κ).Reporting :=
    h.input (i := .poll now) trivial
  have hblocks := poll_blocks h.sound.ok now hd
  rcases h.sound.ring with hu | hr
  · -- before the peer's SYN there is nothing to report
    have hnil : d.parse.sackBlocks = [] := by
      rcases hblocks with hn | ⟨-, n, hn⟩
      · exact hn
      · rw [hn, hu.recv]
        exact List.take_nil
    rw [hnil]
    exact ⟨reports_nil _ _ _, by simp⟩
  have hp := Host.input_passes h.sound.ok hr.state (.poll now)
  have hr' := hr.passes hp
  obtain ⟨ps, hps⟩ := h.pool
  obtain ⟨ps', hps', hm⟩ := hps.step hr hp (fun _ _ _ he => by cases he)
  generalize (w.host.input (.poll now)).1 = r' at h' hr' hp hps' hm ⊢
  cases hm with
  | taken _ _ _ _ _ _ hi => cases hi
  | quiet _ hrcv _ hsame hreasm _ hfin' =>
    rw [hsame] at hps'
    have hirs := hp.irs
    have hnxt : r'.tcb.rcvNxt = w.host.tcb.rcvNxt := by rw [hr'.nxt, hr.nxt, hirs, hrcv]
    have hrep : Reports r' w.touched d.repr.ack d.parse.sackBlocks := by
      rcases hblocks with hn | ⟨hack, n, hn⟩
      · rw [hn]
        exact reports_nil _ _ _
      · rw [hack, hn, ← hnxt, ← hreasm]
        exact h'.reports hr' (hfin'.trans hfin) n
    refine ⟨hrep, fun b hb n h1 h2 hin more r'' hal hrun' => ?_⟩
    refine (promised_run (r := r') ⟨h'.sound, hr', ?_, ps, hps', ?_⟩ hal hrun').retains
    · refine h'.counted.resolve_left fun hu => ?_
      have h3 : r'.rcv = 0 := hu.rcv
      have h4 := hr'.pos
      omega
    · -- the block is a run, and so the octet is in a span
      obtain ⟨run, hrun, rfl⟩ := hrep.runs b hb
      obtain ⟨s, hs, hl⟩ := Reasm.forall₂_mem_left hps'.holds.lays hrun
      have h3 := hps'.holds.spaced.above s hs
      have h4 := hps'.holds.below s hs
      have h5 : s.stop = s.pos + s.data.len := rfl
      have hpool := hps'.pool
      rw [inBlock_run hl (by omega), ← hirs] at hin
      obtain ⟨m, hm, hc⟩ := (hl.has_iff (by omega)).mp hin
      have h6 := hc.1
      have h7 := hc.2
      rw [SeqNumber.pos_eq _ (by omega) (by omega)] at hm
      exact .inr ⟨s, hs, hm ▸ hc⟩

/-- Ten octets above a gap, and the peer's next ten. -/
def aboveGap : List Input :=
  Host.settled ++ [
    .segment ⟨Host.peerSegment 5021 {} (Bytes.replicate 10 1), by decide⟩ ⟨0⟩ false,
    .segment ⟨Host.peerSegment 5041 {} (Bytes.replicate 10 2), by decide⟩ ⟨0⟩ false]

theorem sack_truthful_aboveGap :
    ∃ (w : Watched Reno) (d : Datagram), Run.run step ⟨Host.accepted, []⟩ aboveGap = some w ∧
      (w.host.input (.poll ⟨0⟩)).2 = some d ∧
      d.parse.sackBlocks = [(SeqNumber.new 5041, SeqNumber.new 5051),
        (SeqNumber.new 5021, SeqNumber.new 5031)] ∧
      Reports (w.host.input (.poll ⟨0⟩)).1 w.touched d.repr.ack d.parse.sackBlocks := by
  have hsteps : Run.Along step (fun w i => w.host.EdgeAhead i) (⟨Host.accepted, []⟩ : Watched Reno)
      aboveGap := by decide +kernel
  obtain ⟨w, hrun, hfin, hd⟩ := Run.exists_run step (⟨Host.accepted, []⟩ : Watched Reno) aboveGap
    (fun w => w.host.tcb.peerFinSeen = false ∧
      (w.host.input (.poll ⟨0⟩)).2.any (fun d => d.parse.sackBlocks =
        [(SeqNumber.new 5041, SeqNumber.new 5051), (SeqNumber.new 5021, SeqNumber.new 5031)]) = true)
    (by decide +kernel)
  obtain ⟨d, hd, hb⟩ := (Option.any_eq_true _ _).mp hd
  exact ⟨w, d, hrun, hd, of_decide_eq_true hb,
    (sack_truthful Host.accepted_opens hsteps hrun hd hfin).1⟩

/-! ## Past the edge -/

/-- A segment of 65000 octets in order. -/
def large (seq : Nat) : Input :=
  .segment ⟨Host.peerSegment seq {} (Bytes.replicate 65000 1), by simp [Host.peerSegment]⟩ ⟨0⟩ false

/-- In-order data fills the window while the application reads on, and carries
`RCV.NXT` past the advertised edge; then ten octets arrive from almost half the
sequence space ahead. -/
def pastEdge : List Input :=
  Host.settled ++ [large 5001, large 70001, large 135001, large 200001, .recv 65000, large 265001,
    .segment ⟨Host.peerSegment 2147751793 {} (Bytes.replicate 10 3), by decide⟩ ⟨0⟩ false]

/-- They are buffered, and reported past `rcv_adv`. -/
theorem reported_past_edge :
    ∃ (w : Watched Reno) (d : Datagram), Run.run step ⟨Host.accepted, []⟩ pastEdge = some w ∧
      w.host.tcb.sackEnabled = true ∧ w.host.tcb.peerFinSeen = false ∧
      (w.host.input (.poll ⟨0⟩)).2 = some d ∧ ∃ b ∈ d.parse.sackBlocks,
        b.2.le (w.host.input (.poll ⟨0⟩)).1.tcb.rcvAdv = false := by
  obtain ⟨w, hrun, hsack, hfin, hd⟩ := Run.exists_run step (⟨Host.accepted, []⟩ : Watched Reno)
    pastEdge (fun w => w.host.tcb.sackEnabled = true ∧ w.host.tcb.peerFinSeen = false ∧
      (w.host.input (.poll ⟨0⟩)).2.any (fun d => d.parse.sackBlocks.any fun b =>
        !b.2.le (w.host.input (.poll ⟨0⟩)).1.tcb.rcvAdv) = true) (by decide +kernel)
  obtain ⟨d, hd, hb⟩ := (Option.any_eq_true _ _).mp hd
  obtain ⟨b, hmem, hb⟩ := List.any_eq_true.mp hb
  exact ⟨w, d, hrun, hsack, hfin, hd, b, hmem, by rwa [Bool.not_eq_true'] at hb⟩

end Watched

end Ferrumnet
