import Ferrumnet.SackBlocks

/-
  Which copy of an octet the application reads.

  `Reasm::insert` keeps the octets already buffered. In-order data goes straight
  to the ring, and `discard_below` drops the octets it overtakes: there the later
  copy wins.

  1. `Traced` — a host, with the first copy accepted of every octet and the
     positions of the octets put into the ring.
  2. `first_copy_wins` — while in-order data agrees with what is buffered at the
     same positions, the application reads first copies.
-/

namespace Ferrumnet

open Reasm (Span Holds Lays)

namespace Reasm

/-- The octet held at `q`. -/
def octet (r : Reasm) (q : SeqNumber) : Option UInt8 :=
  (r.runs.find? (·.has q)).bind fun run => run.data.data[q.offsetFrom run.start]?

variable {b : SeqNumber} {r : Reasm} {lo hi : Nat} {ps : List Span}

theorem Holds.octet_iff (h : Holds b r lo hi ps) {q : Nat} {v : UInt8} (hlo : hi ≤ q + 2147483648)
    (hhi : q ≤ lo + 2147483648) (hb : hi < lo + 2147483648) :
    r.octet (b + q) = some v ↔ ∃ s ∈ ps, s.byte q = some v := by
  -- the octet of a run, by position
  have hrun : ∀ {run : Segment} {s : Span}, Lays b run s → s ∈ ps → run.has (b + q) = true →
      run.data.data[(b + q).offsetFrom run.start]? = s.byte q := by
    intro run s hl hs hq
    have h1 := h.spaced.above s hs
    have h2 := h.below s hs
    have h3 : s.stop = s.pos + s.data.len := rfl
    obtain ⟨n, hn, hc⟩ := (hl.has_iff (by omega)).mp hq
    have h4 := hc.1
    have h5 := hc.2
    rw [SeqNumber.pos_eq b (by omega) (by omega)] at hn
    subst hn
    rw [byte_of_covers hc, hl.1, hl.2, SeqNumber.offsetFrom_pos_le b h4 (by omega)]
  rw [octet, Option.bind_eq_some_iff]
  constructor
  · rintro ⟨run, hf, hv⟩
    obtain ⟨s, hs, hl⟩ := forall₂_mem_left h.lays (List.mem_of_find?_eq_some hf)
    exact ⟨s, hs, (hrun hl hs (List.find?_some (p := fun x : Segment => x.has (b + q)) hf)).symm.trans hv⟩
  · rintro ⟨s, hs, hv⟩
    have hc := byte_lt_stop hv
    have h1 := h.spaced.above s hs
    have h2 := h.below s hs
    have h3 : s.stop = s.pos + s.data.len := rfl
    obtain ⟨run, hmem, hl⟩ : ∃ run ∈ r.runs, Lays b run s := forall₂_mem_left h.lays.flip hs
    have hq : run.has (b + q) = true := (hl.has_iff (by omega)).mpr ⟨q, rfl, hc⟩
    exact ⟨run, find_has ((h.runs_apart hb).imp And.left) hmem hq, (hrun hl hs hq).trans hv⟩

end Reasm

/-- A host, with what its peer has had accepted. -/
structure Traced (κ : Type) where
  host : Host κ
  /-- The first copy accepted of the octet at a position. -/
  first : Nat → Option UInt8
  /-- The positions of the octets put into the ring. -/
  places : List Nat

namespace Host

variable {κ : Type} [CongestionControl κ] {r r' : Host κ} {i : Input} {ps ps' : List Span}

/-- The octets a call adds to the ring. -/
def gained (r : Host κ) (i : Input) : Nat := (r.input i).1.tcb.rx.len - r.tcb.rx.len

/-- The octet at position `q` that a call brings, if it went to the ring or is
held afterwards. -/
def copyOf (r : Host κ) (i : Input) (q : Nat) : Option UInt8 :=
  match i with
  | .segment seg now ce =>
    if r.Takes (.segment seg now ce) then
      let t := r.tcb.toRecvSpace.leftTrim seg.tcp.seq seg.tcp.payload
      let p := r.rcv + t.1.offsetFrom r.tcb.rcvNxt
      let h := (r.input (.segment seg now ce)).1
      if p ≤ q ∧ (q < r.rcv + r.gained (.segment seg now ce) ∨
          h.tcb.reasm.holds (h.tcb.irs + q) = true) then t.2.data[q - p]?
      else none
    else none
  | _ => none

/-- What an in-order payload brings agrees with what is held at its positions. -/
def Agrees (r : Host κ) : Input → Prop
  | .segment seg now ce =>
    r.Takes (.segment seg now ce) → r.tcb.toRecvSpace.InOrder seg.tcp →
      ∀ j < min (r.tcb.toRecvSpace.leftTrim seg.tcp.seq seg.tcp.payload).2.len r.tcb.rx.free,
        r.tcb.reasm.octet (r.tcb.rcvNxt + j) = none ∨ r.tcb.reasm.octet (r.tcb.rcvNxt + j) =
          (r.tcb.toRecvSpace.leftTrim seg.tcp.seq seg.tcp.payload).2.data[j]?
  | _ => True

instance : ∀ i, Decidable (r.Agrees i)
  | .segment _ _ _ => inferInstanceAs (Decidable (_ → _ → ∀ j < _, _ ∨ _))
  | .send _ | .recv _ | .close | .timer _ | .poll _ => isTrue trivial

/-- Only a segment that is taken brings anything. -/
theorem copyOf_none (hno : ¬ r.Takes i) (q : Nat) : r.copyOf i q = none := by
  cases i with
  | segment seg now ce => simp only [copyOf, hno, if_false]
  | _ => rfl

/-- Before the peer's SYN there is nothing to bring. -/
theorem Unlearned.copyOf (h : r.Unlearned) (i : Input) (q : Nat) : r.copyOf i q = none := by
  by_cases ht : r.Takes i
  · cases i with
    | segment seg now ce =>
      have h0 := h.takes_empty ht
      have hle := r.tcb.toRecvSpace.leftTrim_len_le seg.tcp.seq seg.tcp.payload
      have hnil := Bytes.data_eq_nil.mpr (Nat.le_zero.mp (hle.trans h0.le))
      simp [Host.copyOf, hnil]
    | _ => rfl
  · exact copyOf_none ht q

theorem copyOf_iff {seg : Segment} {now : Instant} {ce : Bool} {p k : Nat} (hr : r.Ring)
    (ht : r.Takes (.segment seg now ce))
    (hp : r.tcb.toRecvSpace.Placed r.rcv r.adv seg.tcp p)
    (hk : r.gained (.segment seg now ce) = k)
    (h' : (r.input (.segment seg now ce)).1.Pool ps')
    (hadv : (r.input (.segment seg now ce)).1.adv = r.adv)
    (hrcv : (r.input (.segment seg now ce)).1.rcv ≤ r.rcv + 262145)
    (hle : r.rcv ≤ (r.input (.segment seg now ce)).1.rcv) {q : Nat} {v : UInt8} :
    r.copyOf (.segment seg now ce) q = some v ↔
      p ≤ q ∧ (q < r.rcv + k ∨ ∃ s ∈ ps', s.covers q) ∧
        (r.tcb.toRecvSpace.leftTrim seg.tcp.seq seg.tcp.payload).2.data[q - p]? = some v := by
  have hlen := r.tcb.toRecvSpace.leftTrim_len_le seg.tcp.seq seg.tcp.payload
  have hfit := seg.fits
  have hbehind := hr.behind
  simp only [copyOf, ht, if_true, hk]
  have hp' := hp
  rw [RecvSpace.Placed] at hp'
  generalize r.tcb.toRecvSpace.leftTrim seg.tcp.seq seg.tcp.payload = t at hlen hp' ⊢
  rcases Nat.eq_zero_or_pos t.2.len with h0 | hpos
  · have hnil := Bytes.data_eq_nil.mpr h0
    simp [hnil]
  obtain ⟨hseq, h1, h2⟩ := hp'.resolve_left (by omega)
  have hat : r.rcv + t.1.offsetFrom r.tcb.rcvNxt = p := by
    rw [hseq, hr.nxt, SeqNumber.offsetFrom_pos_le _ h1 (by omega)]
    omega
  rw [hat]
  -- an octet of the segment lies where serial comparisons are exact
  have hheld : p ≤ q → t.2.data[q - p]? = some v →
      ((r.input (.segment seg now ce)).1.tcb.reasm.holds
        ((r.input (.segment seg now ce)).1.tcb.irs + q) = true ↔ ∃ s ∈ ps', s.covers q) := by
    intro hq hv
    have hlt := (List.getElem?_eq_some_iff.mp hv).1
    rw [Bytes.length_data] at hlt
    have hslot := (r.input (.segment seg now ce)).1.tcb.toRecvSpace.slot_le
    have hpool := h'.pool
    exact h'.holds.holds_iff (by omega) (by omega) (by omega)
  constructor
  · intro h
    split at h
    · rename_i hc
      exact ⟨hc.1, hc.2.imp_right (hheld hc.1 h).mp, h⟩
    · cases h
  · rintro ⟨hq, hor, hv⟩
    rw [if_pos ⟨hq, hor.imp_right (hheld hq hv).mpr⟩]
    exact hv

end Host

namespace Traced

variable {κ : Type} [CongestionControl κ] {w w' : Traced κ} {i : Input} {ps ps' : List Span}

/-- One call; a copy is recorded only where there was none. -/
def step (w : Traced κ) (i : Input) : Option (Traced κ) :=
  some
    { host := (w.host.input i).1
      first := fun q => (w.first q).or (w.host.copyOf i q)
      places := w.places ++ List.range' w.host.rcv (w.host.gained i) }

/-- What was handed out, what waits in the ring and what is held are first copies. -/
structure Firsts (w : Traced κ) (ps : List Span) : Prop where
  places : w.places.length = (w.host.got ++ w.host.tcb.rx.buf.data).length
  stream : ∀ (k : Nat) (v : UInt8), (w.host.got ++ w.host.tcb.rx.buf.data)[k]? = some v →
    ∃ q, w.places[k]? = some q ∧ w.first q = some v
  held : ∀ s ∈ ps, ∀ q v, s.byte q = some v → w.first q = some v
  fresh : ∀ q v, w.first q = some v → q < w.host.rcv ∨ ∃ s ∈ ps, s.covers q

structure Tracing (w : Traced κ) : Prop where
  sound : w.host.Sound
  pool : ∃ ps, w.host.Pool ps ∧ Firsts w ps

omit [CongestionControl κ] in
/-- Nothing has arrived. -/
theorem firsts_nil (hgot : w.host.got = []) (hrx : w.host.tcb.rx.buf.data = [])
    (hplaces : w.places = []) (hfirst : ∀ q, w.first q = none) : Firsts w [] := by
  refine ⟨by rw [hgot, hrx, hplaces]; rfl, fun k v h => ?_, by simp, fun q v h => ?_⟩
  · rw [hgot, hrx] at h
    cases h
  · rw [hfirst] at h
    cases h

/-- A call that takes no segment. -/
theorem Firsts.quiet {w' : Traced κ} (h : Firsts w ps) (hs : w.host.Sound) (hr : w.host.Ring)
    (hno : ¬ w.host.Takes i) (hgain : w.host.gained i = 0) (hrcv : (w.host.input i).1.rcv = w.host.rcv)
    (hw : step w i = some w') : Firsts w' ps := by
  have hstream := Host.input_stream hs hr hno
  cases hw
  have hfirst : ∀ q, (w.first q).or (w.host.copyOf i q) = w.first q := by
    intro q
    rw [Host.copyOf_none hno, Option.or_none]
  refine ⟨?_, ?_, ?_, ?_⟩
  · simpa [hstream, hgain] using h.places
  · simpa [hstream, hgain, hfirst] using h.stream
  · simpa [hfirst] using h.held
  · simpa [hfirst, hrcv] using h.fresh

/-- A segment that is taken. -/
theorem Firsts.taken {w' : Traced κ} {seg : Segment} {now : Instant} {ce : Bool} {p k f : Nat}
    (h : Firsts w ps) (hr : w.host.Ring) (hps : w.host.Pool ps)
    (ht : w.host.Takes (.segment seg now ce))
    (hp : w.host.tcb.toRecvSpace.Placed w.host.rcv w.host.adv seg.tcp p)
    (hag : w.host.Agrees (.segment seg now ce))
    (hps' : (w.host.input (.segment seg now ce)).1.Pool ps')
    (hrcv : (w.host.input (.segment seg now ce)).1.rcv = w.host.rcv + (k + f))
    (hadv : (w.host.input (.segment seg now ce)).1.adv = w.host.adv) (hf : f ≤ 1)
    (ha : RecvSpace.Absorbs w.host.tcb.toRecvSpace
      (w.host.input (.segment seg now ce)).1.tcb.toRecvSpace w.host.rcv k p
      (w.host.tcb.toRecvSpace.leftTrim seg.tcp.seq seg.tcp.payload).2 ps ps')
    (hw : step w (.segment seg now ce) = some w') : Firsts w' ps' := by
  obtain ⟨d, hd, hdl, hbytes⟩ := ha.ring
  have hgot : (w.host.input (.segment seg now ce)).1.got = w.host.got := rfl
  have hlen : (w.host.input (.segment seg now ce)).1.tcb.rx.len = w.host.tcb.rx.len + k := by
    have hl := congrArg List.length hd
    rwa [List.length_append, Bytes.length_data, Bytes.length_data, Bytes.length_data, hdl] at hl
  have hgain : w.host.gained (.segment seg now ce) = k := by
    rw [Host.gained, hlen, Nat.add_sub_cancel_left]
  have hcap : w.host.tcb.rx.len + k ≤ 262144 := by
    rw [← hlen]
    exact hps'.len_le
  have hcopy := fun q v => Host.copyOf_iff (q := q) (v := v) hr ht hp hgain hps' hadv
    (by rw [hrcv]; omega) (by rw [hrcv]; omega)
  have hbeyond : ∀ (j : Nat) (v : UInt8),
      (w.host.tcb.toRecvSpace.leftTrim seg.tcp.seq seg.tcp.payload).2.data[j]? = some v →
      j < (w.host.tcb.toRecvSpace.leftTrim seg.tcp.seq seg.tcp.payload).2.len ∧
        (w.host.tcb.toRecvSpace.leftTrim seg.tcp.seq seg.tcp.payload).1 = w.host.tcb.irs + p ∧
        w.host.rcv ≤ p := by
    intro j v hv
    have hlt := (List.getElem?_eq_some_iff.mp hv).1
    rw [Bytes.length_data] at hlt
    obtain ⟨h1, h2, -⟩ := hp.resolve_left (by omega)
    exact ⟨hlt, h1, h2⟩
  cases hw
  -- where nothing is held, nothing was accepted
  have hnone : ∀ q, w.host.rcv ≤ q → (∀ s ∈ ps, ¬ s.covers q) → w.first q = none := by
    intro q hq hno
    rcases hv : w.first q with _ | v
    · rfl
    · rcases h.fresh q v hv with hlt | ⟨s, hs, hcov⟩
      · omega
      · exact absurd hcov (hno s hs)
  have hkeep : ∀ q v, w.first q = some v →
      (w.first q).or (w.host.copyOf (.segment seg now ce) q) = some v := by
    intro q v hv
    rw [hv, Option.some_or]
  have hrecord : ∀ q v, w.first q = none → w.host.copyOf (.segment seg now ce) q = some v →
      (w.first q).or (w.host.copyOf (.segment seg now ce) q) = some v := by
    intro q v hn hv
    rw [hn, hv, Option.none_or]
  refine ⟨?_, fun j v hv => ?_, fun s' hs' q v hv => ?_, fun q v hv => ?_⟩
  · change (w.places ++ List.range' _ _).length = (w.host.got ++ _).length
    rw [hd, List.length_append, List.length_range', hgain, h.places]
    simp only [List.length_append, Bytes.length_data, hdl]
    omega
  · -- an octet of the ring was there before, is the segment's, or was held
    change (w.host.got ++ _)[j]? = some v at hv
    change ∃ q, (w.places ++ List.range' _ _)[j]? = some q ∧ _
    rw [hd, ← List.append_assoc] at hv
    rcases Nat.lt_or_ge j (w.host.got ++ w.host.tcb.rx.buf.data).length with hlt | hge
    · rw [List.getElem?_append_left hlt] at hv
      obtain ⟨q, hq, hf⟩ := h.stream j v hv
      exact ⟨q, by rw [List.getElem?_append_left (by rw [h.places]; exact hlt)]; exact hq, hkeep q v hf⟩
    rw [List.getElem?_append_right hge] at hv
    rw [← h.places] at hge hv
    have hjk : j - w.places.length < k := by
      have := (List.getElem?_eq_some_iff.mp hv).1
      rwa [Bytes.length_data, hdl] at this
    refine ⟨w.host.rcv + (j - w.places.length), ?_, ?_⟩
    · rw [List.getElem?_append_right hge, hgain, List.getElem?_range' hjk, Nat.one_mul]
    generalize j - w.places.length = n at hv hjk
    rcases hbytes n v hv with ⟨hpr, hb⟩ | ⟨⟨s, hs, hb⟩, -⟩
    · obtain ⟨hn, hseq, -⟩ := hbeyond n v hb
      by_cases hcov : ∃ s ∈ ps, s.covers (w.host.rcv + n)
      · -- held there, the same octet
        obtain ⟨s, hs, hcov⟩ := hcov
        obtain ⟨v₀, hv₀⟩ := Reasm.exists_byte hcov
        have hslot := w.host.tcb.toRecvSpace.slot_le
        have hpool := hr.pool
        have hoct := (hps.holds.octet_iff (q := w.host.rcv + n) (v := v₀) (by omega) (by omega)
          (by omega)).mpr ⟨s, hs, hv₀⟩
        rw [← SeqNumber.add_add, ← hr.nxt] at hoct
        have hin : w.host.tcb.toRecvSpace.InOrder seg.tcp :=
          ⟨by rw [hseq, hpr]; exact hr.nxt.symm, by omega⟩
        have hfree : w.host.tcb.rx.free = 262144 - w.host.tcb.rx.len := by
          change w.host.tcb.rx.capacity - _ = _
          rw [hr.cap]
          rfl
        rcases hag ht hin n (Nat.lt_min.mpr ⟨hn, by omega⟩) with hno | heq
        · rw [hno] at hoct
          cases hoct
        · rw [hoct, hb] at heq
          cases heq
          exact hkeep _ _ (h.held s hs _ _ hv₀)
      · refine hrecord _ _ (hnone _ (by omega) fun s hs hc => hcov ⟨s, hs, hc⟩) ?_
        refine (hcopy _ _).mpr ⟨by omega, .inl (by omega), ?_⟩
        rw [hpr, Nat.add_sub_cancel_left]
        exact hb
    · exact hkeep _ _ (h.held s hs _ _ hb)
  · rcases ha.old s' hs' q v hv with ⟨s, hs, hb⟩ | ⟨hno, hq, hb⟩
    · exact hkeep q v (h.held s hs q v hb)
    · have hge := (hbeyond _ _ hb).2.2
      refine hrecord q v (hnone q (by omega) fun s hs => Reasm.byte_eq_none.mp (hno s hs)) ?_
      exact (hcopy q v).mpr ⟨hq, .inr ⟨s', hs', Reasm.byte_lt_stop hv⟩, hb⟩
  · change q < (w.host.input _).1.rcv ∨ _
    rw [hrcv]
    rcases hold : w.first q with _ | v₀
    · have hv' : w.host.copyOf (.segment seg now ce) q = some v := by
        change (w.first q).or _ = some v at hv
        rwa [hold, Option.none_or] at hv
      rcases ((hcopy q v).mp hv').2.1 with hlt | hcov
      · exact .inl (by omega)
      · exact .inr hcov
    · rcases h.fresh q v₀ hold with hlt | ⟨s, hs, hcov⟩
      · exact .inl (by omega)
      · rcases Nat.lt_or_ge q (w.host.rcv + k) with hlt | hge
        · exact .inl (by omega)
        · obtain ⟨x, hx⟩ := Reasm.exists_byte hcov
          obtain ⟨s', hs', hx'⟩ := ha.kept s hs q x hge hx
          exact .inr ⟨s', hs', Reasm.byte_lt_stop hx'⟩

theorem Tracing.input (h : w.Tracing) (he : w.host.EdgeAhead i) (hag : w.host.Agrees i)
    (hw : step w i = some w') : w'.Tracing := by
  have hsound := h.sound.input i
  obtain ⟨ps, hps, hf⟩ := h.pool
  rcases h.sound.ring with hu | hr
  · -- the SYN brings no octet
    have hfirst : ∀ q, w.first q = none := by
      intro q
      rcases hv : w.first q with _ | v
      · rfl
      · have hnil : ps = [] := hps.holds.nil (by rw [hu.adv]; exact Nat.zero_le _)
        subst hnil
        rcases hf.fresh q v hv with hlt | ⟨s, hs, -⟩
        · rw [hu.rcv] at hlt
          omega
        · cases hs
    have hplaces : w.places = [] := by
      have := hf.places
      rw [hu.got, hu.recv] at this
      exact List.length_eq_zero_iff.mp this
    have hgot : (w.host.input i).1.got = [] := by
      rcases w.host.input_got i with ⟨n, -, hg⟩ | ⟨-, hg⟩
      · rw [hg, hu.got, hu.recv]
        simp [Tcb.freshRecv, RingBuffer.withCapacity]
      · rw [hg, hu.got]
    obtain ⟨hpool, hrx⟩ : (w.host.input i).1.Pool [] ∧ (w.host.input i).1.tcb.rx.buf = Bytes.empty := by
      rcases hu.input h.sound.ok i with hu' | hs'
      · exact ⟨hu'.pool, by rw [hu'.recv]; rfl⟩
      · obtain ⟨seq, hrecv⟩ := hs'.recv
        exact ⟨hs'.pool, by rw [hrecv]; rfl⟩
    cases hw
    refine ⟨hsound, [], hpool, firsts_nil hgot (congrArg Bytes.data hrx) ?_ fun q => ?_⟩
    · have hgain : w.host.gained i = 0 := by
        change (w.host.input i).1.tcb.rx.buf.len - _ = 0
        rw [hrx]
        exact Nat.zero_sub _
      change w.places ++ List.range' _ _ = []
      rw [hplaces, hgain]
      rfl
    · change (w.first q).or _ = none
      rw [hfirst, hu.copyOf, Option.or_none]
  · obtain ⟨ps', hps', hm⟩ := hps.step hr (Host.input_passes h.sound.ok hr.state i) (he.places hr hps)
    have hhost : w'.host = (w.host.input i).1 := by
      cases hw
      rfl
    rw [← hhost] at hsound hps'
    refine ⟨hsound, ps', hps', ?_⟩
    cases hm with
    | quiet hno hrcv _ hsame _ hring _ =>
      rw [hsame]
      obtain ⟨n, hn⟩ := hring
      refine hf.quiet h.sound hr hno ?_ hrcv hw
      change (w.host.input i).1.tcb.rx.buf.len - w.host.tcb.rx.buf.len = 0
      rw [hn, Bytes.drop_len]
      omega
    | taken seg now ce p k f hi ht hp hrcv hadv _ ha _ hf1 _ =>
      subst hi
      rw [hhost] at hps'
      refine hf.taken hr hps ht hp hag hps' hrcv hadv ?_ ha hw
      by_contra hgt
      have := (hf1 (by omega)).1
      omega

theorem Opens.tracing {r : Host κ} (h : r.Opens) : (⟨r, fun _ => none, []⟩ : Traced κ).Tracing := by
  have hgot : r.got = [] := by cases h <;> rfl
  rcases h.begins with hu | hs
  · refine ⟨h.sound, [], hu.pool, firsts_nil hgot ?_ rfl fun _ => rfl⟩
    change r.tcb.rx.buf.data = []
    rw [hu.recv]
    rfl
  · obtain ⟨seq, hrecv⟩ := hs.recv
    refine ⟨h.sound, [], hs.pool, firsts_nil hgot ?_ rfl fun _ => rfl⟩
    change r.tcb.rx.buf.data = []
    rw [hrecv]
    rfl

/-- In every state reached with the edge ahead of each payload taken and in-order
data in agreement with what it overtakes: each octet handed out is the first copy
accepted of the octet at its position. -/
theorem first_copy_wins {r₀ : Host κ} {is : List Input} (h0 : r₀.Opens)
    (hc : Run.Along step (fun w i => w.host.EdgeAhead i ∧ w.host.Agrees i)
      ⟨r₀, fun _ => none, []⟩ is)
    (hrun : Run.run step ⟨r₀, fun _ => none, []⟩ is = some w) :
    ∀ (k : Nat) (v : UInt8), w.host.got[k]? = some v →
      ∃ q, w.places[k]? = some q ∧ w.first q = some v := by
  have h : w.Tracing := by
    refine Run.run_invariant_along (fun s i s' hs hi he => ?_) (Opens.tracing h0) hc hrun
    exact hs.input hi.1 hi.2 he
  obtain ⟨ps, -, hf⟩ := h.pool
  intro k v hv
  refine hf.stream k v ?_
  rw [List.getElem?_append_left (List.getElem?_eq_some_iff.mp hv).1]
  exact hv

/-- Ten octets above a gap of ten, a different copy of them, and twenty octets
from the gap on that agree with the first. -/
def copies : List Input :=
  Host.settled ++ [
    .segment ⟨Host.peerSegment 5011 {} (Bytes.replicate 10 1), by decide⟩ ⟨0⟩ false,
    .segment ⟨Host.peerSegment 5011 {} (Bytes.replicate 10 2), by decide⟩ ⟨0⟩ false,
    .segment ⟨Host.peerSegment 5001 {} (Bytes.replicate 20 1), by decide⟩ ⟨0⟩ false,
    .recv 100]

theorem first_copy_wins_copies :
    ∃ w : Traced Reno, Run.run step ⟨Host.accepted, fun _ => none, []⟩ copies = some w ∧
      w.host.got = List.replicate 20 1 ∧
      ∃ q, w.places[12]? = some q ∧ w.first q = some 1 := by
  have hsteps : Run.Along step (fun w i => w.host.EdgeAhead i ∧ w.host.Agrees i)
      (⟨Host.accepted, fun _ => none, []⟩ : Traced Reno) copies := by decide +kernel
  obtain ⟨w, hrun, hgot⟩ := Run.exists_run step
    (⟨Host.accepted, fun _ => none, []⟩ : Traced Reno) copies
    (fun w => w.host.got = List.replicate 20 1) (by decide +kernel)
  refine ⟨w, hrun, hgot, first_copy_wins Host.accepted_opens hsteps hrun 12 1 ?_⟩
  rw [hgot]
  rfl

/-! ## An octet rewritten -/

/-- Ten octets above a gap of ten, and then twenty different ones in order. -/
def rewritten : List Input :=
  Host.settled ++ [
    .segment ⟨Host.peerSegment 5011 {} (Bytes.replicate 10 1), by decide⟩ ⟨0⟩ false,
    .segment ⟨Host.peerSegment 5001 {} (Bytes.replicate 20 2), by decide⟩ ⟨0⟩ false,
    .recv 100]

/-- The octet at position 13 was held as 1; the application reads 2. -/
theorem later_copy_read :
    ∃ w : Traced Reno, Run.run step ⟨Host.accepted, fun _ => none, []⟩ rewritten = some w ∧
      w.host.tcb.sackEnabled = true ∧ w.places[12]? = some 13 ∧ w.first 13 = some 1 ∧
      w.host.got[12]? = some 2 := by
  obtain ⟨w, hrun, h⟩ := Run.exists_run step
    (⟨Host.accepted, fun _ => none, []⟩ : Traced Reno) rewritten
    (fun w => w.host.tcb.sackEnabled = true ∧ w.places[12]? = some 13 ∧ w.first 13 = some 1 ∧
      w.host.got[12]? = some 2) (by decide +kernel)
  exact ⟨w, hrun, h⟩

end Traced

end Ferrumnet
