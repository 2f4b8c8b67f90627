import Ferrumnet.Core
import Ferrumnet.ReasmMap

/-
  The receive space against the stream it receives.

  `Received sack iss str fin hi rcv got r` says that `r`, whose `RCV.NXT` is at
  position `rcv` of the peer's sequence space (position 0 is the SYN, byte `k`
  of the stream `str` is at `k + 1`, the FIN at `str.length + 1`), has handed out
  or holds exactly the first bytes of `str`, and buffers only bytes of `str`
  above a gap, none at or past position `hi`.

  `text_received` — a segment whose payload and FIN are those of the stream
  keeps it so, whatever its place, and moves `rcv` only forward.
-/

namespace Ferrumnet

open Reasm (Span Holds Truthful)

/-- The byte of the stream at a position. -/
def streamAt (str : List UInt8) (q : Nat) : Option UInt8 :=
  if q = 0 then none else str[q - 1]?

/-- The bytes are those of the stream from position `pos` on. -/
def Carries (str : List UInt8) (pos : Nat) (data : List UInt8) : Prop :=
  data <+: str.drop (pos - 1)

section Carries

variable {str : List UInt8} {pos : Nat} {data : List UInt8}

theorem Carries.streamAt (h : Carries str pos data) (hp : 1 ≤ pos) {q : Nat} {v : UInt8}
    (hq : pos ≤ q) (hv : data[q - pos]? = some v) : streamAt str q = some v := by
  obtain ⟨t, ht⟩ := h
  have hlt : q - pos < data.length := (List.getElem?_eq_some_iff.mp hv).1
  have h1 : (str.drop (pos - 1))[q - pos]? = some v := by
    rw [← ht, List.getElem?_append_left hlt]; exact hv
  rw [List.getElem?_drop] at h1
  rw [Ferrumnet.streamAt, if_neg (by omega), ← h1]
  congr 1
  omega

theorem Carries.length (h : Carries str pos data) (hd : 0 < data.length) :
    pos - 1 + data.length ≤ str.length := by
  have := h.length_le
  rw [List.length_drop] at this
  omega

theorem Carries.drop (h : Carries str pos data) (hp : 1 ≤ pos) (n : Nat) :
    Carries str (pos + n) (data.drop n) := by
  have h2 : pos + n - 1 = pos - 1 + n := by omega
  rw [Carries, h2, ← List.drop_drop]
  exact List.IsPrefix.drop h n

theorem Carries.take (h : Carries str pos data) (n : Nat) : Carries str pos (data.take n) :=
  (List.take_prefix n data).trans h

theorem Carries.mono {str' : List UInt8} (h : Carries str pos data) (hs : str <+: str')
    (hd : pos - 1 ≤ str.length) : Carries str' pos data := by
  obtain ⟨t, rfl⟩ := hs
  rw [Carries, List.drop_append_of_le_length hd]
  exact h.trans (List.prefix_append _ _)

theorem carries_nil (str : List UInt8) (pos : Nat) : Carries str pos [] := List.nil_prefix

/-- Appending what the stream carries next extends the prefix read so far. -/
theorem take_append_carries {n : Nat} (h : Carries str (n + 1) data) (hn : n ≤ str.length) :
    str.take n ++ data = str.take (n + data.length) := by
  obtain ⟨t, ht⟩ := h
  rw [Nat.add_sub_cancel] at ht
  have h1 : str = str.take n ++ (data ++ t) := by rw [ht, List.take_append_drop]
  have h2 : (str.take n).length = n := by rw [List.length_take]; omega
  conv_rhs => rw [h1]
  rw [← List.append_assoc, List.take_left' (by rw [List.length_append, h2])]

theorem truthful_carries {ps : List Span} {p : Span} (h : Truthful (streamAt str) ps) (hp : p ∈ ps)
    (hpos : 1 ≤ p.pos) : Carries str p.pos p.data.data := by
  rw [Carries, List.prefix_iff_getElem?]
  intro i hi
  have hv : p.byte (p.pos + i) = some p.data.data[i] := by
    rw [Reasm.Span.byte, if_pos (Nat.le_add_right _ _), Nat.add_sub_cancel_left,
      List.getElem?_eq_getElem hi]
  have hs := h p hp _ _ hv
  rw [streamAt, if_neg (by omega)] at hs
  rw [List.getElem?_drop, ← hs]
  congr 1
  omega

end Carries

structure Received (sack : Bool) (iss : SeqNumber) (str : List UInt8) (fin : Prop) (hi rcv : Nat)
    (got : List UInt8) (r : RecvSpace) : Prop where
  pos : 1 ≤ rcv
  nxt : r.rcvNxt = iss + rcv
  le : rcv ≤ hi
  opened : r.peerFinSeen = false → rcv ≤ 1 + str.length ∧ got ++ r.rx.buf.data = str.take (rcv - 1)
  closed : r.peerFinSeen = true → fin ∧ rcv = 2 + str.length ∧ got ++ r.rx.buf.data = str
  pending : ∀ f, r.pendingFin = some f → fin ∧ f = iss + (1 + str.length)
  reasm : ∃ ps, Holds iss r.reasm rcv hi ps ∧ Truthful (streamAt str) ps
  unbuffered : sack = false → r.reasm.runs = []

/-- The distances that keep serial comparisons exact: `hi` and the end of the
stream are near `rcv`, and a FIN that was sent is below `hi`. -/
structure Near (str : List UInt8) (fin : Prop) (hi rcv : Nat) : Prop where
  edge : hi < rcv + 1073741824
  stream : str.length < rcv + 1073741824
  finish : fin → 2 + str.length ≤ hi

variable {sack : Bool} {iss : SeqNumber} {str got : List UInt8} {fin : Prop} {hi rcv : Nat} {r : RecvSpace}

theorem Near.mono {rcv' : Nat} (h : Near str fin hi rcv) (hle : rcv ≤ rcv') :
    Near str fin hi rcv' :=
  ⟨by have := h.edge; omega, by have := h.stream; omega, h.finish⟩

/-- In-order bytes of the stream go to the ring. -/
theorem Received.write (h : Received sack iss str fin hi rcv got r) (hf : r.peerFinSeen = false)
    {data : Bytes} (hd : Carries str rcv data.data) (hhi : rcv + (r.rx.write data).2 ≤ hi)
    {q : Reasm} (hq : ∃ ps, Holds iss q (rcv + (r.rx.write data).2) hi ps ∧
      Truthful (streamAt str) ps) (hs : sack = false → q.runs = []) :
    Received sack iss str fin hi (rcv + (r.rx.write data).2) got
      { r with rx := (r.rx.write data).1, rcvNxt := r.rcvNxt + (r.rx.write data).2, reasm := q } := by
  obtain ⟨h1, h2⟩ := h.opened hf
  have hpos := h.pos
  have hlen : (data.data.take (r.rx.write data).2).length = (r.rx.write data).2 := by
    have := r.rx.write_le data
    rw [List.length_take, Bytes.length_data]; omega
  have hc : Carries str (rcv - 1 + 1) (data.data.take (r.rx.write data).2) := by
    rw [Nat.sub_add_cancel hpos]; exact hd.take _
  refine ⟨by omega, ?_, hhi, fun _ => ?_, fun hc => ?_, h.pending, hq, hs⟩
  · change r.rcvNxt + _ = _
    rw [h.nxt, SeqNumber.add_add]
  · constructor
    · rcases Nat.eq_zero_or_pos (r.rx.write data).2 with h0 | h0
      · omega
      · have := hc.length (by omega)
        omega
    · change got ++ (r.rx.write data).1.buf.data = _
      rw [RingBuffer.write_buf, Bytes.append_data, Bytes.take_data, ← List.append_assoc, h2,
        take_append_carries hc (by omega), hlen]
      congr 1
      omega
  · exact absurd hc (by simp [hf])

/-- Draining keeps the receive space in step with the stream. -/
theorem drain_received (hsack : sack = true) : ∀ (fuel : Nat) (rcv : Nat) (r : RecvSpace),
    Received sack iss str fin hi rcv got r → r.peerFinSeen = false → Near str fin hi rcv →
    ∃ rcv', rcv ≤ rcv' ∧ Received sack iss str fin hi rcv' got (r.drain fuel) ∧
      (r.drain fuel).irs = r.irs ∧ (r.drain fuel).rcvAdv = r.rcvAdv ∧
      (r.drain fuel).peerFinSeen = false := by
  intro fuel
  induction fuel with
  | zero => intro rcv r h hf _; exact ⟨rcv, le_rfl, h, rfl, rfl, hf⟩
  | succ fuel ih =>
    intro rcv r h hf hnear
    obtain ⟨ps, hps, htr⟩ := h.reasm
    have hpos := h.pos
    have hnh := hnear.edge
    simp only [RecvSpace.drain, h.nxt]
    rcases Reasm.popContiguous_spec hps (by omega) with
      ⟨p, ps', rfl, hp, hlen, hdata, hrest⟩ | ⟨hdata, hsame, -⟩
    · have hne : p.data.isEmpty = false := Bytes.isEmpty_eq_false.mpr hlen
      have hcar : Carries str rcv p.data.data := by
        have := truthful_carries htr (p := p) (by simp) (by omega)
        rwa [hp] at this
      have htr' : Truthful (streamAt str) ps' := fun q hq => htr q (by simp [hq])
      have hstop : p.stop = rcv + p.data.len := by rw [Reasm.Span.stop, hp]
      have hbelow : p.stop ≤ hi := hps.below p (by simp)
      simp only [hdata, hne, Bool.false_eq_true, if_false]
      generalize (r.reasm.popContiguous (iss + rcv)).1 = q at hrest ⊢
      have hwle := r.rx.write_le p.data
      split
      · rename_i hw
        -- the tail that did not fit goes back in front
        have hback : Holds iss (q.reinsertFront (iss + rcv + (r.rx.write p.data).2)
            (p.data.drop (r.rx.write p.data).2)) (rcv + (r.rx.write p.data).2) hi
            (⟨rcv + (r.rx.write p.data).2, p.data.drop (r.rx.write p.data).2⟩ :: ps') := by
          rw [SeqNumber.add_add]
          refine Reasm.reinsertFront_spec (hrest.mono ?_ le_rfl) ?_ ?_
          · simp only [Bytes.drop_len]; omega
          · simp only [Bytes.drop_len]; omega
          · simp only [Bytes.drop_len]; omega
        have hw' := h.write hf hcar (by omega) ⟨_, hback, fun s hs => by
          rcases List.mem_cons.mp hs with rfl | hs
          · intro n v hv
            have hb := Reasm.byte_lt_stop hv
            have hd := hcar.drop hpos (r.rx.write p.data).2
            refine hd.streamAt (by omega) hb.1 ?_
            rwa [Reasm.byte_of_covers hb] at hv
          · exact htr' s hs⟩ (by simp [hsack])
        rw [h.nxt] at hw'
        exact ⟨rcv + (r.rx.write p.data).2, by omega, hw', rfl, rfl, hf⟩
      · rename_i hw
        have hfull : (r.rx.write p.data).2 = p.data.len := by omega
        have hw' := h.write hf hcar (by omega) ⟨ps', hrest.mono (by omega) le_rfl, htr'⟩
          (by simp [hsack])
        rw [h.nxt] at hw'
        obtain ⟨rcv', hle, hr, h1, h2, h3⟩ := ih _ _ hw' hf (hnear.mono (Nat.le_add_right _ _))
        exact ⟨rcv', by omega, hr, h1, h2, h3⟩
    · have hemp : Bytes.empty.isEmpty = true := rfl
      simp only [hdata, hemp, if_true, hsame]
      rw [← h.nxt]
      exact ⟨rcv, le_rfl, h, trivial, trivial, hf⟩

/-- In-order data of the stream. -/
theorem writeInOrder_received (h : Received sack iss str fin hi rcv got r)
    (hf : r.peerFinSeen = false) (hnear : Near str fin hi rcv) {data : Bytes}
    (hd : Carries str rcv data.data) (hhi : rcv + (r.rx.write data).2 ≤ hi) :
    ∃ rcv', rcv ≤ rcv' ∧ Received sack iss str fin hi rcv' got (r.writeInOrder sack data) ∧
      (r.writeInOrder sack data).irs = r.irs ∧ (r.writeInOrder sack data).rcvAdv = r.rcvAdv := by
  have hw := r.rx.write_le data
  have hedge := hnear.edge
  cases sack with
  | true =>
    obtain ⟨ps, hps, htr⟩ := h.reasm
    have hwin : Reasm.Within rcv (rcv + (r.rx.write data).2) :=
      ⟨Nat.le_add_right _ _, by omega⟩
    obtain ⟨ps', hps', hk⟩ := Reasm.discardBelow_spec hps le_rfl hwin (by omega)
    rw [← SeqNumber.add_add, ← h.nxt] at hps'
    have hwrite := h.write hf hd (by omega) ⟨ps', hps', htr.keeps hk⟩ (by simp)
    obtain ⟨rcv', hle, hr, h1, h2, -⟩ := drain_received rfl
      ((r.reasm.discardBelow (r.rcvNxt + (r.rx.write data).2)).runs.length + 1) _ _ hwrite hf
      (hnear.mono (Nat.le_add_right _ _))
    exact ⟨rcv', by omega, hr, h1, h2⟩
  | false =>
    -- nothing is ever buffered without SACK, so nothing is overtaken
    obtain ⟨ps, hps, -⟩ := h.reasm
    have hnil := h.unbuffered rfl
    have hempty : Holds iss r.reasm (rcv + (r.rx.write data).2) hi [] := by
      have hl := hps.lays
      rw [hnil, List.forall₂_nil_left_iff] at hl
      subst hl
      exact ⟨by rw [hnil]; exact .nil, ⟨by simp, by simp, .nil⟩, by simp, hps.bytes⟩
    have hwrite := h.write hf hd (by omega) ⟨[], hempty, by simp [Truthful]⟩ fun _ => hnil
    exact ⟨_, Nat.le_add_right _ _, hwrite, rfl, rfl⟩

/-- The right edge for out-of-order data is a position near `rcv`. -/
theorem reasmRightEdge_pos {adv : Nat} (hn : r.rcvNxt = iss + rcv) (ha : r.rcvAdv = iss + adv)
    (h1 : rcv ≤ adv + 1073741824) (h2 : adv ≤ rcv + 1073741824) :
    ∃ e, r.reasmRightEdge = iss + e ∧ e ≤ rcv + 65535 ∧ rcv ≤ e + 1073741824 := by
  simp only [RecvSpace.reasmRightEdge, hn, ha, SeqNumber.add_add]
  rw [SeqNumber.pos_min iss (by omega) (by omega)]
  exact ⟨_, rfl, by omega, by omega⟩

/-- One segment's payload, wherever it lies, if it ends below `hi` or starts at
`rcv` with no room for it. -/
theorem acceptData_received {adv s : Nat} {tcp : TcpPacket}
    (h : Received sack iss str fin hi rcv got r) (hnear : Near str fin hi rcv)
    (ha : r.rcvAdv = iss + adv) (ha1 : rcv ≤ adv + 1073741824) (ha2 : adv ≤ rcv + 1073741824)
    (hs : 1 ≤ s) (hseq : tcp.seq = iss + s) (hold : rcv ≤ s + 2147483648)
    (hp : Carries str s tcp.payload.data)
    (hhi : s + tcp.payload.len ≤ hi ∨ (s = rcv ∧ r.rx.free = 0)) :
    ∃ rcv', rcv ≤ rcv' ∧ Received sack iss str fin hi rcv' got (r.acceptData sack tcp) ∧
      (r.acceptData sack tcp).irs = r.irs ∧ (r.acceptData sack tcp).rcvAdv = r.rcvAdv := by
  have hsame : ∃ rcv', rcv ≤ rcv' ∧ Received sack iss str fin hi rcv' got r ∧
      r.irs = r.irs ∧ r.rcvAdv = r.rcvAdv := ⟨rcv, le_rfl, h, rfl, rfl⟩
  have hedge := hnear.edge
  unfold RecvSpace.acceptData
  split
  · exact hsame
  rename_i hne
  have hlen : 0 < tcp.payload.len := by
    rw [Bytes.isEmpty_iff] at hne; omega
  have hin := hp.length (by rw [Bytes.length_data]; exact hlen)
  rw [Bytes.length_data] at hin
  have hlt : tcp.seq.lt r.rcvNxt = decide (s < rcv) := by
    rw [hseq, h.nxt]; exact SeqNumber.pos_lt iss (by omega) hold
  simp only [RecvSpace.leftTrim, hlt]
  by_cases hsr : s < rcv
  · -- an overlap with the left window edge: the fresh tail, if any, is in order
    have hoff : r.rcvNxt.offsetFrom tcp.seq = rcv - s := by
      rw [hseq, h.nxt]; exact SeqNumber.offsetFrom_pos_le iss hsr.le (by omega)
    simp only [hsr, decide_true, if_true, hoff, RecvSpace.ingest]
    split
    · exact hsame
    · rename_i hd
      have hd' : min (rcv - s) tcp.payload.len < tcp.payload.len := by
        rw [Bytes.isEmpty_iff, Bytes.drop_len] at hd; omega
      have hmin : min (rcv - s) tcp.payload.len = rcv - s := by omega
      have hf : r.peerFinSeen = false := by
        by_contra hc
        obtain ⟨-, hc, -⟩ := h.closed (by simpa using hc)
        omega
      have hcar : Carries str rcv (tcp.payload.drop (rcv - s)).data := by
        have := hp.drop hs (rcv - s)
        rwa [Nat.add_sub_cancel' hsr.le] at this
      rw [hmin]
      refine writeInOrder_received h hf hnear hcar ?_
      have := r.rx.write_le (tcp.payload.drop (rcv - s))
      rw [Bytes.drop_len] at this
      omega
  · have hemp : tcp.payload.isEmpty = false := Bytes.isEmpty_eq_false.mpr hlen
    have hf : r.peerFinSeen = false := by
      by_contra hc
      obtain ⟨-, hc, -⟩ := h.closed (by simpa using hc)
      omega
    simp only [hsr, decide_false, Bool.false_eq_true, if_false, RecvSpace.ingest, hemp]
    split
    · rename_i heq
      rw [hseq, h.nxt, SeqNumber.pos_eq iss (by omega) (by omega)] at heq
      subst heq
      refine writeInOrder_received h hf hnear hp ?_
      have h1 := r.rx.write_le tcp.payload
      have h2 := r.rx.write_le_free tcp.payload
      have h3 := h.le
      omega
    · split
      · rename_i hneq hsack
        -- above a gap: buffered, clipped to the right edge
        have hne' : s ≠ rcv := by
          rintro rfl
          exact hneq (hseq.trans h.nxt.symm)
        have hend : s + tcp.payload.len ≤ hi := by omega
        obtain ⟨e, he, he1, he2⟩ := reasmRightEdge_pos h.nxt ha ha1 ha2
        obtain ⟨ps, hps, htr⟩ := h.reasm
        refine ⟨rcv, le_rfl, ⟨h.pos, h.nxt, h.le, h.opened, h.closed, h.pending, ?_,
          by simp [hsack]⟩, rfl, rfl⟩
        have hb : ∀ x, rcv ≤ x + 1073741824 → x < rcv + 1073741824 →
            Reasm.Within (rcv - 1073741824) x := fun x h1 h2 => ⟨by omega, by omega⟩
        dsimp only
        rw [he, hseq, h.nxt]
        rcases Reasm.insert_spec hps (hb rcv (by omega) (by omega)) (hb s (by omega) (by omega))
          (hb (s + tcp.payload.len) (by omega) (by omega)) (hb e (by omega) (by omega)) (by omega) with
          ⟨-, hsm⟩ | ⟨hlt', pre, mid, post, seg, rfl, hh, hfu, -⟩
        · exact ⟨ps, by rw [hsm]; exact hps, htr⟩
        · refine ⟨_, hh.mono le_rfl (by omega), htr.insert hfu fun q v h1 h2 h3 => ?_⟩
          exact hp.streamAt hs (by omega) h3
      · exact hsame

/-! ## The FIN -/

/-- Once the whole stream is in, nothing is left in reassembly. -/
theorem holds_end {ps : List Span} {q : Reasm} (hrcv : rcv = 1 + str.length)
    (hps : Holds iss q rcv hi ps) (htr : Truthful (streamAt str) ps) : ps = [] := by
  refine List.eq_nil_iff_forall_not_mem.mpr fun p hp => ?_
  have hpos := hps.spaced.above p hp
  have hlen := hps.spaced.nonempty p hp
  have hin := (truthful_carries htr hp (by omega)).length (by rw [Bytes.length_data]; exact hlen)
  rw [Bytes.length_data] at hin
  omega

/-- The FIN is consumed at its own slot. -/
theorem Received.finish (h : Received sack iss str fin hi rcv got r) (hf : r.peerFinSeen = false)
    (hfin : fin) (hnear : Near str fin hi rcv) (hrcv : rcv = 1 + str.length)
    {pend : Option SeqNumber} (hp : ∀ f, pend = some f → f = iss + (1 + str.length)) :
    Received sack iss str fin hi (rcv + 1) got
      { r with rcvNxt := r.rcvNxt + 1, peerFinSeen := true, pendingFin := pend } := by
  obtain ⟨-, hdata⟩ := h.opened hf
  obtain ⟨ps, hps, htr⟩ := h.reasm
  have hnil := holds_end hrcv hps htr
  subst hnil
  refine ⟨by omega, ?_, by have := hnear.finish hfin; omega, by simp, fun _ => ⟨hfin, by omega, ?_⟩,
    fun f he => ⟨hfin, hp f he⟩, ⟨[], ⟨hps.lays, ⟨by simp, by simp, .nil⟩, by simp, hps.bytes⟩, htr⟩,
    h.unbuffered⟩
  · change r.rcvNxt + 1 = _
    rw [h.nxt, SeqNumber.add_add]
  · change got ++ r.rx.buf.data = str
    rw [hdata, hrcv, Nat.add_sub_cancel_left, List.take_length]

/-- The slot of the FIN, compared with `RCV.NXT`. -/
theorem Received.at_fin (h : Received sack iss str fin hi rcv got r) (hf : r.peerFinSeen = false)
    (hnear : Near str fin hi rcv) (heq : iss + (1 + str.length) = r.rcvNxt) :
    rcv = 1 + str.length := by
  have h1 := (h.opened hf).1
  have h2 := hnear.stream
  rw [h.nxt, SeqNumber.pos_eq iss (by omega) (by omega)] at heq
  exact heq.symm

theorem acceptFin_received {s : Nat} {tcp : TcpPacket} (h : Received sack iss str fin hi rcv got r)
    (hnear : Near str fin hi rcv) (hseq : tcp.seq = iss + s)
    (hp : tcp.flags.fin = true → fin ∧ s + tcp.payload.len = 1 + str.length) :
    ∃ rcv', rcv ≤ rcv' ∧ Received sack iss str fin hi rcv' got (r.acceptFin tcp) ∧
      (r.acceptFin tcp).irs = r.irs ∧ (r.acceptFin tcp).rcvAdv = r.rcvAdv := by
  unfold RecvSpace.acceptFin
  split
  · rename_i hfl
    obtain ⟨hfin, hslot⟩ := hp hfl
    simp only [RecvSpace.takeFin, hseq, SeqNumber.add_add, hslot]
    split
    · rename_i hc
      simp only [Bool.and_eq_true, decide_eq_true_eq, Bool.not_eq_true'] at hc
      exact ⟨rcv + 1, Nat.le_succ _, h.finish hc.2 hfin hnear (h.at_fin hc.2 hnear hc.1)
        fun f he => (h.pending f he).2, rfl, rfl⟩
    · split
      · exact ⟨rcv, le_rfl, ⟨h.pos, h.nxt, h.le, h.opened, h.closed,
          fun f he => ⟨hfin, (Option.some.inj he).symm⟩, h.reasm, h.unbuffered⟩, rfl, rfl⟩
      · exact ⟨rcv, le_rfl, h, rfl, rfl⟩
  · exact ⟨rcv, le_rfl, h, rfl, rfl⟩

theorem takePendingFin_received (h : Received sack iss str fin hi rcv got r)
    (hnear : Near str fin hi rcv) :
    ∃ rcv', rcv ≤ rcv' ∧ Received sack iss str fin hi rcv' got r.takePendingFin ∧
      r.takePendingFin.irs = r.irs ∧ r.takePendingFin.rcvAdv = r.rcvAdv := by
  unfold RecvSpace.takePendingFin
  split
  · rename_i finAt hpend
    obtain ⟨hfin, hslot⟩ := h.pending finAt hpend
    split
    · rename_i hc
      simp only [Bool.and_eq_true, decide_eq_true_eq, Bool.not_eq_true'] at hc
      rw [hslot] at hc
      exact ⟨rcv + 1, Nat.le_succ _, h.finish hc.2 hfin hnear (h.at_fin hc.2 hnear hc.1)
        (by simp), rfl, rfl⟩
    · exact ⟨rcv, le_rfl, h, rfl, rfl⟩
  · exact ⟨rcv, le_rfl, h, rfl, rfl⟩

/-- A segment of the stream, taken in whole. -/
theorem text_received {adv s : Nat} {tcp : TcpPacket}
    (h : Received sack iss str fin hi rcv got r) (hnear : Near str fin hi rcv)
    (ha : r.rcvAdv = iss + adv) (ha1 : rcv ≤ adv + 1073741824) (ha2 : adv ≤ rcv + 1073741824)
    (hs : 1 ≤ s) (hseq : tcp.seq = iss + s) (hold : rcv ≤ s + 2147483648)
    (hp : Carries str s tcp.payload.data)
    (hhi : s + tcp.payload.len ≤ hi ∨ (s = rcv ∧ r.rx.free = 0))
    (hfin : tcp.flags.fin = true → fin ∧ s + tcp.payload.len = 1 + str.length) :
    ∃ rcv', rcv ≤ rcv' ∧ Received sack iss str fin hi rcv' got (r.text sack tcp) ∧
      (r.text sack tcp).irs = r.irs ∧ (r.text sack tcp).rcvAdv = r.rcvAdv := by
  obtain ⟨rcv₁, hle₁, h₁, hi₁, ha₁⟩ := acceptData_received h hnear ha ha1 ha2 hs hseq hold hp hhi
  obtain ⟨rcv₂, hle₂, h₂, hi₂, ha₂⟩ := acceptFin_received h₁ (hnear.mono hle₁) hseq hfin
  obtain ⟨rcv₃, hle₃, h₃, hi₃, ha₃⟩ :=
    takePendingFin_received h₂ (hnear.mono (hle₁.trans hle₂))
  exact ⟨rcv₃, by omega, h₃, by rw [RecvSpace.text, hi₃, hi₂, hi₁],
    by rw [RecvSpace.text, ha₃, ha₂, ha₁]⟩

/-! ## What the application and the sender do to it -/

/-- Bytes read by the application move from the ring to what was handed out. -/
theorem Received.read (h : Received sack iss str fin hi rcv got r) (n : Nat) :
    Received sack iss str fin hi rcv (got ++ (r.rx.read n).2.data)
      { r with rx := (r.rx.read n).1 } := by
  have hcat : got ++ (r.rx.read n).2.data ++ (r.rx.read n).1.buf.data = got ++ r.rx.buf.data := by
    simp [List.append_assoc, List.take_append_drop]
  refine ⟨h.pos, h.nxt, h.le, fun hf => ?_, fun hf => ?_, h.pending, h.reasm, h.unbuffered⟩
  · obtain ⟨h1, h2⟩ := h.opened hf
    exact ⟨h1, hcat.trans h2⟩
  · obtain ⟨h1, h2, h3⟩ := h.closed hf
    exact ⟨h1, h2, hcat.trans h3⟩

/-- The peer's stream may grow as long as its FIN is not out. -/
theorem Received.grow {str' : List UInt8} {fin' : Prop} {hi' : Nat}
    (h : Received sack iss str fin hi rcv got r) (hs : str <+: str') (hf : fin → fin' ∧ str' = str)
    (hh : hi ≤ hi') : Received sack iss str' fin' hi' rcv got r := by
  have hstream : ∀ q v, streamAt str q = some v → streamAt str' q = some v := by
    intro q v hv
    obtain ⟨t, rfl⟩ := hs
    unfold streamAt at hv ⊢
    split at hv
    · cases hv
    · rename_i hq
      rw [if_neg hq, List.getElem?_append_left (List.getElem?_eq_some_iff.mp hv).1, hv]
  obtain ⟨ps, hps, htr⟩ := h.reasm
  refine ⟨h.pos, h.nxt, h.le.trans hh, fun ho => ?_, fun hc => ?_, fun f he => ?_,
    ⟨ps, hps.mono le_rfl hh, fun p hp q v hv => hstream q v (htr p hp q v hv)⟩, h.unbuffered⟩
  · obtain ⟨h1, h2⟩ := h.opened ho
    obtain ⟨t, rfl⟩ := hs
    refine ⟨by rw [List.length_append]; omega, ?_⟩
    rw [h2, List.take_append_of_le_length (by omega)]
  · obtain ⟨h1, h2, h3⟩ := h.closed hc
    obtain ⟨h4, rfl⟩ := hf h1
    exact ⟨h4, h2, h3⟩
  · obtain ⟨h1, h2⟩ := h.pending f he
    obtain ⟨h4, rfl⟩ := hf h1
    exact ⟨h4, h2⟩

theorem Received.advertise (h : Received sack iss str fin hi rcv got r) (w : Nat) :
    Received sack iss str fin hi rcv got (r.advertisedWindow w).1 :=
  ⟨h.pos, h.nxt, h.le, h.opened, h.closed, h.pending, h.reasm, h.unbuffered⟩

/-- Everything handed out is a prefix of the stream. -/
theorem Received.got_prefix (h : Received sack iss str fin hi rcv got r) : got <+: str := by
  rcases hf : r.peerFinSeen with _ | _
  · obtain ⟨-, h2⟩ := h.opened hf
    exact ((List.prefix_append _ _).trans (by rw [h2])).trans (List.take_prefix _ _)
  · obtain ⟨-, -, h3⟩ := h.closed hf
    rw [← h3]; exact List.prefix_append _ _

end Ferrumnet
