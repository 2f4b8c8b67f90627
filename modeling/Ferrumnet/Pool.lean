import Ferrumnet.Feed

/-
  The receive pool: the ring and the reassembly buffer by position.

  `Pooled` says that the ring and the advertised edge fit into the pool and that
  the runs lie between `RCV.NXT` and the edge, whoever the peer is.

  1. `text_pooled` — a segment that starts at or below the edge keeps it so;
     `Absorbs` says which octets it adds, and that none held is lost.
  2. `pool_accounted` — the pool is never overdrawn, what is in order and in the
     window finds room, and no run is ever put back.
-/

namespace Ferrumnet

open Reasm (Span Holds Spaced Keeps Fused)

namespace Reasm

variable {b : SeqNumber} {r : Reasm} {lo hi : Nat} {ps : List Span}

/-- Disjoint spans are no longer than the room they lie in. -/
theorem spaced_sum : ∀ {ps : List Span} {lo : Nat}, Spaced lo ps → (∀ p ∈ ps, p.stop ≤ hi) →
    (ps.map (·.data.len)).sum ≤ hi - lo := by
  intro ps
  induction ps with
  | nil => intro lo _ _; simp
  | cons p ps ih =>
    intro lo h hb
    have hap := List.pairwise_cons.mp h.apart
    have hrest : Spaced (p.stop + 1) ps :=
      ⟨hap.1, fun q hq => h.nonempty q (by simp [hq]), hap.2⟩
    have h1 := ih hrest fun q hq => hb q (by simp [hq])
    have h2 := h.above p (by simp)
    have h3 := hb p (by simp)
    have h4 : p.stop = p.pos + p.data.len := rfl
    rw [List.map_cons, List.sum_cons]
    omega

theorem Holds.buffered_le (h : Holds b r lo hi ps) : r.buffered ≤ hi - lo := by
  have := spaced_sum h.spaced h.below
  rwa [← h.bytes] at this

/-- There is no room for a span. -/
theorem Holds.nil (h : Holds b r lo hi ps) (hle : hi ≤ lo) : ps = [] := by
  cases ps with
  | nil => rfl
  | cons p ps =>
    have h1 := h.spaced.above p (by simp)
    have h2 := h.below p (by simp)
    have h3 := h.spaced.nonempty p (by simp)
    have h4 : p.stop = p.pos + p.data.len := rfl
    omega

theorem Holds.raise {lo' : Nat} (h : Holds b r lo hi ps) (ha : ∀ p ∈ ps, lo' ≤ p.pos) :
    Holds b r lo' hi ps :=
  ⟨h.lays, ⟨ha, h.spaced.nonempty, h.spaced.apart⟩, h.below, h.bytes⟩

/-- Only one span covers a position. -/
theorem covers_unique {q : Nat} : ∀ {ps : List Span}, ps.Pairwise (fun p p' => p.stop < p'.pos) →
    ∀ {p p' : Span}, p ∈ ps → p' ∈ ps → p.covers q → p'.covers q → p = p' := by
  intro ps
  induction ps with
  | nil => intro _ p p' hp; simp at hp
  | cons x ps ih =>
    intro h p p' hp hp' hc hc'
    obtain ⟨hx, hrest⟩ := List.pairwise_cons.mp h
    have hfar : ∀ y ∈ ps, x.covers q → ¬ y.covers q := by
      intro y hy h1 h2
      have h3 := hx y hy
      have h4 := h1.2
      have h5 := h2.1
      omega
    rcases List.mem_cons.mp hp with rfl | h1 <;> rcases List.mem_cons.mp hp' with rfl | h2
    · rfl
    · exact absurd hc' (hfar p' h2 hc)
    · exact absurd hc (hfar p h1 hc')
    · exact ih hrest h1 h2 hc hc'

/-- A span has an octet wherever it lies. -/
theorem exists_byte {p : Span} {q : Nat} (h : p.covers q) : ∃ v, p.byte q = some v := by
  rcases hb : p.byte q with _ | v
  · exact absurd h (byte_eq_none.mp hb)
  · exact ⟨v, rfl⟩

end Reasm

namespace RecvSpace

/-- The receive space by position; the runs are the spans `ps`, at `lo` or above. -/
structure Pooled (sack : Bool) (r : RecvSpace) (rcv adv lo : Nat) (ps : List Span) : Prop where
  nxt : r.rcvNxt = r.irs + rcv
  edge : r.rcvAdv = r.irs + adv
  cap : r.rx.capacity = rxBuffer
  pool : adv + r.rx.len ≤ rcv + 262144
  holds : Holds r.irs r.reasm lo adv ps
  above : rcv ≤ lo
  unbuffered : sack = false → ps = []

/-- The octets that a segment with `data` at position `p` brings: `k` of them, or
of those above them, go to the ring, where the segment comes first; what was held
wins in the runs, and stays. -/
structure Absorbs (r r' : RecvSpace) (rcv k p : Nat) (data : Bytes) (ps ps' : List Span) : Prop where
  ring : ∃ d : Bytes, r'.rx.buf.data = r.rx.buf.data ++ d.data ∧ d.len = k ∧
    ∀ i v, d.data[i]? = some v → (p = rcv ∧ data.data[i]? = some v) ∨
      ((∃ s ∈ ps, s.byte (rcv + i) = some v) ∧ (p = rcv → data.data[i]? = none))
  old : ∀ s' ∈ ps', ∀ q v, s'.byte q = some v → (∃ s ∈ ps, s.byte q = some v) ∨
    ((∀ s ∈ ps, s.byte q = none) ∧ p ≤ q ∧ data.data[q - p]? = some v)
  kept : ∀ s ∈ ps, ∀ q v, rcv + k ≤ q → s.byte q = some v → ∃ s' ∈ ps', s'.byte q = some v

/-- The re-buffering branch of the drain loop is taken. -/
def rebuffers : Nat → RecvSpace → Bool
  | 0, _ => false
  | fuel + 1, r =>
    let p := r.reasm.popContiguous r.rcvNxt
    let run := p.2
    if run.isEmpty then false
    else
      let w := (r.rx.write run).2
      if w < run.len then true
      else rebuffers fuel { r with reasm := p.1, rx := (r.rx.write run).1, rcvNxt := r.rcvNxt + w }

/-- In-order data makes the drain loop put a run back. -/
def inOrderRebuffers (r : RecvSpace) (sackEnabled : Bool) (data : Bytes) : Bool :=
  let n := (r.rx.write data).2
  let r := { r with rx := (r.rx.write data).1, rcvNxt := r.rcvNxt + n }
  if sackEnabled then
    let r := { r with reasm := r.reasm.discardBelow r.rcvNxt }
    r.rebuffers (r.reasm.runs.length + 1)
  else false

variable {sack : Bool} {r : RecvSpace} {rcv adv lo : Nat} {ps : List Span}

theorem Pooled.len_le (h : Pooled sack r rcv adv lo ps) : r.rx.len ≤ 262144 := by
  have := r.rx.len_le
  rwa [h.cap] at this

/-- The ring and the runs fit into the pool. -/
theorem Pooled.buffered (h : Pooled sack r rcv adv lo ps) :
    r.rx.len + r.reasm.buffered ≤ 262144 := by
  have h1 := h.holds.buffered_le
  have h2 := h.pool
  have h3 := h.above
  have h4 := h.len_le
  omega

/-- One write to the ring. -/
theorem Pooled.write (h : Pooled sack r rcv adv lo ps) (data : Bytes) {q : Reasm} {lo' : Nat}
    {ps' : List Span} (hq : Holds r.irs q lo' adv ps') (hlo : rcv + (r.rx.write data).2 ≤ lo')
    (hu : sack = false → ps' = []) :
    Pooled sack { r with
      rx := (r.rx.write data).1, rcvNxt := r.rcvNxt + (r.rx.write data).2, reasm := q }
      (rcv + (r.rx.write data).2) adv lo' ps' := by
  have hp := h.pool
  refine ⟨?_, h.edge, h.cap, ?_, hq, hlo, hu⟩
  · change r.rcvNxt + _ = _
    rw [h.nxt, SeqNumber.add_add]
  · change _ + (r.rx.write data).1.len ≤ _
    rw [RingBuffer.write_len]
    omega

/-- Draining takes the runs that have become contiguous, and always whole. -/
theorem drain_pooled : ∀ (fuel : Nat) (r : RecvSpace) (rcv : Nat) (ps : List Span),
    ps.length < fuel → Pooled true r rcv adv rcv ps → rcv ≤ adv + 262146 →
    ∃ (d : Bytes) (ps' : List Span),
      Pooled true (r.drain fuel) (rcv + d.len) adv (rcv + d.len + 1) ps' ∧
      (r.drain fuel).rx.buf.data = r.rx.buf.data ++ d.data ∧
      (∀ i v, d.data[i]? = some v → ∃ s ∈ ps, s.byte (rcv + i) = some v) ∧
      Keeps (rcv + d.len) ps ps' ∧ r.rebuffers fuel = false ∧
      (r.drain fuel).irs = r.irs ∧ (ps = [] → d.len = 0) := by
  intro fuel
  induction fuel with
  | zero => intro r rcv ps hlt; omega
  | succ fuel ih =>
    intro r rcv ps hlt h hnear
    have hpool := h.pool
    rcases Reasm.popContiguous_spec h.holds (by omega) with
      ⟨p, ps', rfl, hp, hlen, hdata, hrest⟩ | ⟨hdata, hsame, habove⟩
    · -- a run at `RCV.NXT`: it lies below the edge, so the ring has room for it
      rw [← h.nxt] at hdata hrest
      have hne : p.data.isEmpty = false := Bytes.isEmpty_eq_false.mpr hlen
      have hstop : p.stop = rcv + p.data.len := by rw [Span.stop, hp]
      have hbelow := h.holds.below p (by simp)
      have hfull : (r.rx.write p.data).2 = p.data.len := by
        rw [RingBuffer.write_snd, h.cap]
        have : rxBuffer = 262144 := rfl
        omega
      have hbyte : ∀ i, p.byte (rcv + i) = p.data.data[i]? := by
        intro i
        rw [Span.byte, if_pos (by omega), hp, Nat.add_sub_cancel_left]
      simp only [drain, rebuffers, hdata, hne, Bool.false_eq_true, if_false, hfull,
        lt_irrefl]
      generalize (r.reasm.popContiguous r.rcvNxt).1 = q at hrest ⊢
      have hw := h.write p.data (hrest.mono (by omega) le_rfl : Holds r.irs q p.stop adv ps')
        (by rw [hfull, hstop]) (by simp)
      rw [hfull, ← hstop] at hw
      obtain ⟨d, ps'', h1, h2, h3, h4, h5, h6, -⟩ := ih _ _ ps'
        (by simp only [List.length_cons] at hlt; omega) hw (by omega)
      have hassoc : rcv + (p.data ++ d).len = p.stop + d.len := by
        rw [Bytes.append_len, hstop, Nat.add_assoc]
      refine ⟨p.data ++ d, ps'', ?_, ?_, ?_, ?_, h5, h6, by simp⟩
      · rw [hassoc]; exact h1
      · rw [h2, Bytes.append_data, ← List.append_assoc]
        change (r.rx.write p.data).1.buf.data ++ _ = _
        rw [RingBuffer.write_buf, hfull, Bytes.append_data, Bytes.take_data,
          List.take_of_length_le (by rw [Bytes.length_data])]
      · intro i v hv
        rw [Bytes.append_data] at hv
        rcases Nat.lt_or_ge i p.data.len with hi | hi
        · rw [List.getElem?_append_left (by rwa [Bytes.length_data])] at hv
          exact ⟨p, by simp, (hbyte i).trans hv⟩
        · rw [List.getElem?_append_right (by rwa [Bytes.length_data]), Bytes.length_data] at hv
          obtain ⟨s, hs, hb⟩ := h3 _ v hv
          refine ⟨s, by simp [hs], ?_⟩
          rwa [show p.stop + (i - p.data.len) = rcv + i by omega] at hb
      · rw [hassoc]
        refine ⟨fun s' hs' q v hv => ?_, fun s hs q v hq hv => ?_⟩
        · obtain ⟨s, hs, hb⟩ := h4.old s' hs' q v hv
          exact ⟨s, by simp [hs], hb⟩
        · rcases List.mem_cons.mp hs with rfl | hs
          · have := Reasm.byte_lt_stop hv
            omega
          · exact h4.all s hs q v hq hv
    · rw [← h.nxt] at hdata hsame
      have hemp : Bytes.empty.isEmpty = true := rfl
      simp only [drain, rebuffers, hdata, hemp, if_true, hsame]
      refine ⟨Bytes.empty, ps, ⟨h.nxt, h.edge, h.cap, h.pool, h.holds.raise habove, by simp,
        by simp⟩, by simp, by simp, ?_, trivial, trivial, fun _ => rfl⟩
      exact .refl _ _

/-- The bytes that one write takes, and then those drained. -/
theorem absorbs_ring {data d : Bytes} {w : Nat} {ps ps' : List Span}
    (hw : w ≤ data.len) (hps : w < data.len → d.len = 0) (hold : Keeps (rcv + w) ps ps')
    (hd : ∀ i v, d.data[i]? = some v → ∃ s ∈ ps', s.byte (rcv + w + i) = some v) :
    ∀ i v, (data.take w ++ d).data[i]? = some v → data.data[i]? = some v ∨
      ((∃ s ∈ ps, s.byte (rcv + i) = some v) ∧ data.data[i]? = none) := by
  intro i v hv
  rw [Bytes.append_data, Bytes.take_data] at hv
  have hlen : (data.data.take w).length = w := by
    rw [List.length_take, Bytes.length_data]
    omega
  rcases Nat.lt_or_ge i w with hi | hi
  · rw [List.getElem?_append_left (by rwa [hlen]), List.getElem?_take_of_lt hi] at hv
    exact .inl hv
  · rw [List.getElem?_append_right (by rwa [hlen]), hlen] at hv
    have hpos : 0 < d.len := by
      rw [← Bytes.length_data]
      exact Nat.lt_of_le_of_lt (Nat.zero_le _) (List.getElem?_eq_some_iff.mp hv).1
    have hall : w = data.len := by
      by_contra hne
      have := hps (by omega)
      omega
    obtain ⟨s', hs', hb⟩ := hd _ v hv
    obtain ⟨s, hs, hb'⟩ := hold.old s' hs' _ v hb
    refine .inr ⟨⟨s, hs, ?_⟩, List.getElem?_eq_none (by rw [Bytes.length_data]; omega)⟩
    rwa [show rcv + w + (i - w) = rcv + i by omega] at hb'

/-- In-order data: as much as the ring takes, and then what it made contiguous. -/
theorem writeInOrder_pooled (h : Pooled sack r rcv adv lo ps) (hnear : rcv ≤ adv) (data : Bytes) :
    ∃ (k : Nat) (ps' : List Span),
      Pooled sack (r.writeInOrder sack data) (rcv + k) adv (rcv + k + 1) ps' ∧
      Absorbs r (r.writeInOrder sack data) rcv k rcv data ps ps' ∧
      r.inOrderRebuffers sack data = false ∧ (r.writeInOrder sack data).irs = r.irs := by
  have hpool := h.pool
  have habove := h.above
  have hwle := r.rx.write_le data
  have hfree := r.rx.write_le_free data
  have hcap := h.cap
  have hlen := h.len_le
  have hbuf : (r.rx.write data).1.buf.data = r.rx.buf.data ++ (data.take (r.rx.write data).2).data := by
    rw [RingBuffer.write_buf, Bytes.append_data]
  have htake : (data.take (r.rx.write data).2).len = (r.rx.write data).2 := by
    rw [Bytes.take_len]
    omega
  have hroom : r.rx.free = 262144 - r.rx.len := by
    change r.rx.capacity - r.rx.len = _
    rw [hcap]
    rfl
  cases sack with
  | false =>
    have hnil := h.unbuffered rfl
    subst hnil
    have hempty : Holds r.irs r.reasm (rcv + (r.rx.write data).2 + 1) adv [] :=
      h.holds.raise (by simp)
    refine ⟨(r.rx.write data).2, [], h.write data hempty (by omega) (by simp), ⟨⟨_, hbuf, htake, ?_⟩,
      by simp, by simp⟩, rfl, rfl⟩
    intro i v hv
    rw [Bytes.take_data, List.getElem?_take] at hv
    split at hv
    · exact .inl ⟨rfl, hv⟩
    · cases hv
  | true =>
    have hwin : Reasm.Within rcv (rcv + (r.rx.write data).2) := ⟨Nat.le_add_right _ _, by omega⟩
    obtain ⟨ps', hps', hk⟩ := Reasm.discardBelow_spec (h.holds.mono habove le_rfl) le_rfl hwin (by omega)
    rw [← SeqNumber.add_add, ← h.nxt] at hps'
    have hw := h.write data hps' le_rfl (by simp)
    -- what did not fit lies past the edge, and then nothing is left to drain
    have hcut : (r.rx.write data).2 < data.len → ps' = [] := by
      intro hlt
      refine hps'.nil ?_
      have := RingBuffer.write_snd r.rx data
      change (r.rx.write data).2 = min data.len r.rx.free at this
      omega
    obtain ⟨d, ps'', h1, h2, h3, h4, h5, h6, h7⟩ :=
      drain_pooled ((r.reasm.discardBelow (r.rcvNxt + (r.rx.write data).2)).runs.length + 1) _ _ ps'
        (by rw [hps'.lays.length_eq]; omega) hw (by omega)
    refine ⟨(r.rx.write data).2 + d.len, ps'', ?_, ⟨⟨data.take (r.rx.write data).2 ++ d, ?_, ?_, ?_⟩,
      fun s' hs' q v hv => ?_, fun s hs q v hq hv => ?_⟩, h5, h6⟩
    · rw [← Nat.add_assoc]; exact h1
    · change (RecvSpace.drain _ _).rx.buf.data = _
      rw [h2, Bytes.append_data, ← List.append_assoc, ← hbuf]
    · rw [Bytes.append_len, htake]
    · intro i v hv
      rcases absorbs_ring hwle (fun hlt => h7 (hcut hlt)) hk h3 i v hv with hd | ⟨hd, hno⟩
      · exact .inl ⟨rfl, hd⟩
      · exact .inr ⟨hd, fun _ => hno⟩
    · obtain ⟨s, hs, hb⟩ := h4.old s' hs' q v hv
      exact .inl (hk.old s hs q v hb)
    · obtain ⟨s₁, hs₁, hb₁⟩ := hk.all s hs q v (by omega) hv
      exact h4.all s₁ hs₁ q v (by omega) hb₁

/-- Where out-of-order data is cut off. -/
def edgePos (r : RecvSpace) (rcv adv : Nat) : Nat :=
  min (rcv + min (rxBuffer - (r.rx.len + r.reasm.buffered)) 65535) adv

theorem Pooled.rightEdge (h : Pooled sack r rcv adv lo ps) (hnear : rcv ≤ adv) :
    r.reasmRightEdge = r.irs + r.edgePos rcv adv := by
  have hpool := h.pool
  simp only [reasmRightEdge, h.nxt, h.edge, SeqNumber.add_add]
  rw [SeqNumber.pos_min _ (by omega) (by omega)]
  rfl

/-- Out-of-order data: cut off at the edge, and fused with what it touches. -/
theorem insert_pooled (h : Pooled true r rcv adv lo ps) (hnear : rcv ≤ adv) {p : Nat} {data : Bytes}
    (hp : rcv < p) (hpa : p ≤ adv) (hlo : lo ≤ rcv + 1) (hfit : data.len ≤ 65535) :
    ∃ ps', Pooled true
        { r with reasm := r.reasm.insert r.rcvNxt r.reasmRightEdge (r.irs + p) data } rcv adv lo ps' ∧
      Absorbs r { r with reasm := r.reasm.insert r.rcvNxt r.reasmRightEdge (r.irs + p) data }
        rcv 0 p data ps ps' ∧
      (∀ q, p ≤ q → q < p + data.len → q < r.edgePos rcv adv → ∃ s ∈ ps', s.covers q) ∧
      ∀ s' ∈ ps', ∀ q, s'.covers q → (∃ s ∈ ps, s.covers q) ∨ q < r.edgePos rcv adv := by
  have hpool := h.pool
  have habove := h.above
  have hedge : r.edgePos rcv adv ≤ adv := Nat.min_le_right _ _
  have hedge' : rcv ≤ r.edgePos rcv adv := Nat.le_min.mpr ⟨Nat.le_add_right _ _, hnear⟩
  have hwin : ∀ x, rcv ≤ x → x ≤ adv + 65535 → Reasm.Within rcv x := fun x h1 h2 => ⟨h1, by omega⟩
  have hsame : ∀ i v, Bytes.empty.data[i]? = some v → (p = rcv ∧ data.data[i]? = some v) ∨
      ((∃ s ∈ ps, s.byte (rcv + i) = some v) ∧ (p = rcv → data.data[i]? = none)) := by simp
  rw [h.rightEdge hnear, h.nxt]
  rcases Reasm.insert_spec (h.holds.mono habove le_rfl) (hwin rcv le_rfl (by omega))
    (hwin p (by omega) (by omega)) (hwin (p + data.len) (by omega) (by omega))
    (hwin (r.edgePos rcv adv) hedge' (by omega)) (by omega) with
    ⟨hle, hsm⟩ | ⟨hlt, pre, mid, post, seg, rfl, hh, hf, -⟩
  · -- nothing of it lies below the edge
    rw [hsm, ← h.nxt]
    refine ⟨ps, h, ⟨⟨Bytes.empty, by simp, rfl, hsame⟩, fun s' hs' q v hv => .inl ⟨s', hs', hv⟩,
      fun s hs q v _ hv => ⟨s, hs, hv⟩⟩, fun q h1 h2 h3 => ?_, fun s' hs' q hc => .inl ⟨s', hs', hc⟩⟩
    omega
  · have hmax : max p rcv = p := by omega
    rw [hmax] at hlt hf
    rw [show max adv (min (p + data.len) (r.edgePos rcv adv)) = adv by omega] at hh
    have hfar := List.pairwise_append.mp hh.spaced.apart
    have hnear' := List.pairwise_append.mp hfar.1
    -- each octet held now was held before, or is one of the segment where none was
    have hold : ∀ s' ∈ pre ++ [seg] ++ post, ∀ q v, s'.byte q = some v →
        (∃ s ∈ pre ++ mid ++ post, s.byte q = some v) ∨
        ((∀ s ∈ pre ++ mid ++ post, s.byte q = none) ∧ p ≤ q ∧ data.data[q - p]? = some v) := by
      intro s' hs' q v hv
      simp only [List.mem_append, List.mem_singleton] at hs'
      rcases hs' with (hs' | rfl) | hs'
      · exact .inl ⟨s', by simp [hs'], hv⟩
      · rcases hf.bytes q v hv with ⟨s, hs, hb⟩ | ⟨hnone, h1, -, h3⟩
        · exact .inl ⟨s, by simp [hs], hb⟩
        · refine .inr ⟨fun s hs => ?_, h1, h3⟩
          have hcov := Reasm.byte_lt_stop hv
          simp only [List.mem_append] at hs
          rcases hs with (hs | hs) | hs
          · have := hnear'.2.2 s hs s' (by simp)
            exact Reasm.byte_eq_none.mpr fun hc => by have := hc.2; omega
          · exact hnone s hs
          · have := hfar.2.2 s' (by simp) s hs
            exact Reasm.byte_eq_none.mpr fun hc => by have := hc.1; omega
      · exact .inl ⟨s', by simp [hs'], hv⟩
    have hkept : ∀ s ∈ pre ++ mid ++ post, ∀ q v, s.byte q = some v →
        ∃ s' ∈ pre ++ [seg] ++ post, s'.byte q = some v := by
      intro s hs q v hv
      simp only [List.mem_append] at hs
      rcases hs with (hs | hs) | hs
      · exact ⟨s, by simp [hs], hv⟩
      · have hcov := Reasm.byte_lt_stop hv
        obtain ⟨h1, h2⟩ := hf.inside s hs
        obtain ⟨v', hv'⟩ := Reasm.exists_byte (p := seg) (q := q) ⟨by omega, by omega⟩
        refine ⟨seg, by simp, ?_⟩
        rcases hf.bytes q v' hv' with ⟨s₁, hs₁, hb⟩ | ⟨hnone, -⟩
        · have : s₁ = s := Reasm.covers_unique h.holds.spaced.apart (by simp [hs₁]) (by simp [hs])
            (Reasm.byte_lt_stop hb) hcov
          subst this
          rw [hv', ← hb, hv]
        · rw [hnone s hs] at hv
          cases hv
      · exact ⟨s, by simp [hs], hv⟩
    -- the fused span starts at an old octet or at the segment
    have hstart : ∀ s' ∈ pre ++ [seg] ++ post, lo ≤ s'.pos := by
      intro s' hs'
      have hlen := hh.spaced.nonempty s' hs'
      obtain ⟨v, hv⟩ := Reasm.exists_byte (p := s') (q := s'.pos)
        ⟨le_rfl, by rw [Span.stop]; omega⟩
      rcases hold s' hs' _ v hv with ⟨s, hs, hb⟩ | ⟨-, h1, -⟩
      · exact (h.holds.spaced.above s hs).trans (Reasm.byte_lt_stop hb).1
      · omega
    refine ⟨pre ++ [seg] ++ post, ⟨rfl, h.edge, h.cap, h.pool, hh.raise hstart, habove, by simp⟩,
      ⟨⟨Bytes.empty, by simp, rfl, hsame⟩, hold, fun s hs q v _ hv => hkept s hs q v hv⟩,
      fun q h1 h2 h3 => ⟨seg, by simp, ?_, ?_⟩, fun s' hs' q hc => ?_⟩
    · exact hf.left.trans h1
    · have := hf.right
      omega
    · simp only [List.mem_append, List.mem_singleton] at hs'
      rcases hs' with (hs' | rfl) | hs'
      · exact .inl ⟨s', by simp [hs'], hc⟩
      · obtain ⟨v, hv⟩ := Reasm.exists_byte hc
        rcases hf.bytes q v hv with ⟨s, hs, hb⟩ | ⟨-, -, h2, -⟩
        · exact .inl ⟨s, by simp [hs], Reasm.byte_lt_stop hb⟩
        · exact .inr (by omega)
      · exact .inl ⟨s', by simp [hs'], hc⟩

/-! ## A whole segment -/

/-- The trimmed payload is empty or starts at position `p`, no higher than the edge. -/
def Placed (r : RecvSpace) (rcv adv : Nat) (tcp : TcpPacket) (p : Nat) : Prop :=
  (r.leftTrim tcp.seq tcp.payload).2.len = 0 ∨
    ((r.leftTrim tcp.seq tcp.payload).1 = r.irs + p ∧ rcv ≤ p ∧ p ≤ adv)

/-- The re-buffering branch is taken for the payload of a segment. -/
def segmentRebuffers (r : RecvSpace) (sackEnabled : Bool) (tcp : TcpPacket) : Bool :=
  let p := r.leftTrim tcp.seq tcp.payload
  !p.2.isEmpty && p.1 = r.rcvNxt && r.inOrderRebuffers sackEnabled p.2

variable {tcp : TcpPacket}

/-- While the edge is not behind, an acceptable segment starts at or below it. -/
theorem Pooled.placed (h : Pooled sack r rcv adv lo ps) (hnear : rcv ≤ adv) {n : Nat}
    (hacc : r.segmentAcceptable tcp.seq n = true) (hn : n ≤ 65537) (hpos : tcp.payload.len ≤ n) :
    ∃ p, r.Placed rcv adv tcp p := by
  have hpool := h.pool
  rcases Nat.eq_zero_or_pos tcp.payload.len with h0 | hlen
  · refine ⟨rcv, .inl ?_⟩
    simp only [leftTrim]
    split
    · rw [Bytes.drop_len]
      omega
    · exact h0
  have hx := SeqNumber.add_offsetFrom tcp.seq r.rcvNxt
  have hlt := SeqNumber.offsetFrom_lt tcp.seq r.rcvNxt
  generalize hxd : tcp.seq.offsetFrom r.rcvNxt = x at hx hlt
  rw [h.nxt, SeqNumber.add_add] at hx
  by_cases hback : 2147483648 ≤ x
  · -- it starts below `RCV.NXT`, and is trimmed to it
    have : tcp.seq.lt r.rcvNxt = true := (SeqNumber.lt_iff _ _).mpr (by omega)
    refine ⟨rcv, .inr ⟨?_, le_rfl, hnear⟩⟩
    simp only [leftTrim, this, if_true]
    exact h.nxt
  · have : tcp.seq.lt r.rcvNxt = false := by
      rw [Bool.eq_false_iff, Ne, SeqNumber.lt_iff]
      omega
    refine ⟨rcv + x, .inr ⟨?_, Nat.le_add_right _ _, ?_⟩⟩
    · simp only [leftTrim, this, Bool.false_eq_true, if_false]
      exact hx.symm
    · rw [segmentAcceptable, if_neg (by omega)] at hacc
      split at hacc
      · cases hacc
      · simp only [Bool.or_eq_true, Bool.and_eq_true] at hacc
        rcases hacc with ⟨-, h2⟩ | ⟨h1, h2⟩
        · rw [h.edge, ← hx, SeqNumber.pos_lt _ (by omega) (by omega), decide_eq_true_eq] at h2
          omega
        · rw [SeqNumber.ge_iff, h.nxt, ← hx, SeqNumber.add_add,
            SeqNumber.offsetFrom_pos_le _ (by omega) (by omega)] at h1
          rw [h.edge, ← hx, SeqNumber.add_add, SeqNumber.pos_lt _ (by omega) (by omega),
            decide_eq_true_eq] at h2
          omega

theorem leftTrim_len_le (r : RecvSpace) (seq : SeqNumber) (payload : Bytes) :
    (r.leftTrim seq payload).2.len ≤ payload.len := by
  simp only [leftTrim]
  split
  · rw [Bytes.drop_len]
    omega
  · exact le_rfl

/-- The payload of a segment. -/
theorem acceptData_pooled {e p : Nat} (h : Pooled sack r rcv adv (rcv + e) ps) (he : e ≤ 1)
    (hfit : tcp.payload.len ≤ 65535) (hp : r.Placed rcv adv tcp p) :
    ∃ (k : Nat) (ps' : List Span), Pooled sack (r.acceptData sack tcp) (rcv + k) adv (rcv + k + e) ps' ∧
      Absorbs r (r.acceptData sack tcp) rcv k p (r.leftTrim tcp.seq tcp.payload).2 ps ps' ∧
      r.segmentRebuffers sack tcp = false := by
  have hle := r.leftTrim_len_le tcp.seq tcp.payload
  have hsame : Pooled sack r (rcv + 0) adv (rcv + 0 + e) ps ∧
      Absorbs r r rcv 0 p (r.leftTrim tcp.seq tcp.payload).2 ps ps :=
    ⟨h, ⟨Bytes.empty, by simp, rfl, by simp⟩, fun s' hs' q v hv => .inl ⟨s', hs', hv⟩,
      fun s hs q v _ hv => ⟨s, hs, hv⟩⟩
  have hempty : (r.leftTrim tcp.seq tcp.payload).2.len = 0 →
      r.acceptData sack tcp = r ∧ r.segmentRebuffers sack tcp = false := by
    intro h0
    have hemp := Bytes.isEmpty_iff.mpr h0
    refine ⟨?_, by simp [segmentRebuffers, hemp]⟩
    unfold acceptData
    split
    · rfl
    · simp only [ingest, hemp, if_true]
  rcases hp with h0 | ⟨hseq, hp1, hp2⟩
  · obtain ⟨h1, h2⟩ := hempty h0
    rw [h1]
    exact ⟨0, ps, hsame.1, hsame.2, h2⟩
  rcases Nat.eq_zero_or_pos (r.leftTrim tcp.seq tcp.payload).2.len with h0 | hlen
  · obtain ⟨h1, h2⟩ := hempty h0
    rw [h1]
    exact ⟨0, ps, hsame.1, hsame.2, h2⟩
  have hpool := h.pool
  have hne : (r.leftTrim tcp.seq tcp.payload).2.isEmpty = false := Bytes.isEmpty_eq_false.mpr hlen
  have hpay : tcp.payload.isEmpty = false := Bytes.isEmpty_eq_false.mpr (by omega)
  have hat : (r.leftTrim tcp.seq tcp.payload).1 = r.rcvNxt ↔ p = rcv := by
    rw [hseq, h.nxt]
    exact SeqNumber.pos_eq _ (by omega) (by omega)
  simp only [acceptData, hpay, Bool.false_eq_true, if_false, ingest, hne, segmentRebuffers]
  by_cases hin : p = rcv
  · -- in order
    rw [if_pos (hat.mpr hin)]
    obtain ⟨k, ps', h1, h2, h3, -⟩ :=
      writeInOrder_pooled h (by omega) (r.leftTrim tcp.seq tcp.payload).2
    refine ⟨k, ps', ⟨h1.nxt, h1.edge, h1.cap, h1.pool, h1.holds.mono (by omega) le_rfl, by omega,
      h1.unbuffered⟩, by rw [hin]; exact h2, by simp [h3]⟩
  · rw [if_neg (mt hat.mp hin)]
    have hno : (!false && decide ((r.leftTrim tcp.seq tcp.payload).1 = r.rcvNxt) &&
        r.inOrderRebuffers sack (r.leftTrim tcp.seq tcp.payload).2) = false := by
      rw [decide_eq_false (mt hat.mp hin)]
      rfl
    cases sack with
    | false => exact ⟨0, ps, hsame.1, hsame.2, hno⟩
    | true =>
      obtain ⟨ps', h1, h2, -⟩ := insert_pooled h (by omega) (by omega) hp2
        (by omega) (hle.trans hfit)
      rw [← hseq] at h1 h2
      exact ⟨0, ps', h1, h2, hno⟩

/-- The slot kept free at `RCV.NXT` while the FIN is to come. -/
def slot (r : RecvSpace) : Nat := if r.peerFinSeen then 0 else 1

theorem slot_le (r : RecvSpace) : r.slot ≤ 1 := by
  unfold slot
  split <;> omega

/-- Data and FIN of a segment. -/
theorem text_pooled {p : Nat} (h : Pooled sack r rcv adv (rcv + r.slot) ps)
    (hfit : tcp.payload.len ≤ 65535) (hp : r.Placed rcv adv tcp p) :
    ∃ (k f : Nat) (ps' : List Span),
      Pooled sack (r.text sack tcp) (rcv + (k + f)) adv
        (rcv + (k + f) + (r.text sack tcp).slot) ps' ∧
      Absorbs r (r.text sack tcp) rcv k p (r.leftTrim tcp.seq tcp.payload).2 ps ps' ∧
      r.segmentRebuffers sack tcp = false ∧
      (f = 0 → (r.text sack tcp).peerFinSeen = r.peerFinSeen) ∧
      (f ≠ 0 → f = 1 ∧ r.peerFinSeen = false ∧ (r.text sack tcp).peerFinSeen = true) := by
  obtain ⟨k, ps', h1, h2, h3⟩ := acceptData_pooled h r.slot_le hfit hp
  obtain ⟨k', hs, hseen, -⟩ := r.acceptData_shift sack tcp
  obtain ⟨f, hf, -⟩ := (r.acceptData sack tcp).finish_shift tcp
  have hirs := hf.shift.irs
  obtain ⟨d, hd, hd0⟩ := hf.shift.rx
  have hdata : (r.text sack tcp).rx.buf.data = (r.acceptData sack tcp).rx.buf.data := by
    change _ = _ ++ _ at hd
    rw [Bytes.data_eq_nil.mpr hd0, List.append_nil] at hd
    exact hd
  have hlen : (r.text sack tcp).rx.len = (r.acceptData sack tcp).rx.len := by
    have := hf.shift.len
    rwa [Nat.add_zero] at this
  -- consuming the FIN takes the free slot
  have hslot : f + (r.text sack tcp).slot ≤ r.slot := by
    unfold slot
    by_cases h0 : f = 0
    · have : (r.text sack tcp).peerFinSeen = (r.acceptData sack tcp).peerFinSeen := hf.none h0
      rw [this, hseen, h0, Nat.zero_add]
    · obtain ⟨h4, h5, h6⟩ := hf.once h0
      rw [hseen] at h5
      have h6 : (r.text sack tcp).peerFinSeen = true := h6
      simp only [h5, h6, h4, if_true, Bool.false_eq_true, if_false]
      exact le_rfl
  refine ⟨k, f, ps', ⟨?_, ?_, ?_, ?_, ?_, by omega, h1.unbuffered⟩, ⟨?_, h2.old, h2.kept⟩, h3,
    fun h0 => (hf.none h0).trans hseen, fun h0 => ?_⟩
  · have := hf.shift.nxt
    rw [Nat.zero_add, h1.nxt, SeqNumber.add_add, Nat.add_assoc] at this
    change (r.text sack tcp).rcvNxt = _
    rw [show (r.text sack tcp).irs = _ from hirs]
    exact this
  · rw [show (r.text sack tcp).irs = _ from hirs]
    exact hf.shift.adv.trans h1.edge
  · exact hf.shift.cap.trans h1.cap
  · have := h1.pool
    omega
  · rw [show (r.text sack tcp).irs = _ from hirs, show (r.text sack tcp).reasm = _ from hf.reasm]
    exact h1.holds.mono (by omega) le_rfl
  · obtain ⟨d', h4, h5⟩ := h2.ring
    exact ⟨d', by rw [hdata]; exact h4, h5⟩
  · obtain ⟨h4, h5, h6⟩ := hf.once h0
    exact ⟨h4, hseen.symm.trans h5, h6⟩

/-- A read, or a move of the advertised edge. -/
theorem Pooled.still {r' : RecvSpace} {adv' : Nat} (h : Pooled sack r rcv adv lo ps)
    (hirs : r'.irs = r.irs) (hnxt : r'.rcvNxt = r.rcvNxt) (hreasm : r'.reasm = r.reasm)
    (hcap : r'.rx.capacity = r.rx.capacity) (hedge : r'.rcvAdv = r'.irs + adv') (hle : adv ≤ adv')
    (hpool : adv' + r'.rx.len ≤ rcv + 262144) : Pooled sack r' rcv adv' lo ps := by
  refine ⟨?_, hedge, hcap.trans h.cap, hpool, ?_, h.above, h.unbuffered⟩
  · rw [hnxt, hirs]; exact h.nxt
  · rw [hirs, hreasm]; exact h.holds.mono le_rfl hle

end RecvSpace

/-! ## One call -/

namespace Host

variable {κ : Type} [CongestionControl κ] {r r' : Host κ} {i : Input} {ps : List Span}

/-- The receive side of a host by position. -/
def Pool (r : Host κ) (ps : List Span) : Prop :=
  RecvSpace.Pooled r.tcb.sackEnabled r.tcb.toRecvSpace r.rcv r.adv
    (r.rcv + r.tcb.toRecvSpace.slot) ps

/-- What one call does to the pool. -/
inductive Moves (r : Host κ) (i : Input) (r' : Host κ) (ps ps' : List Span) : Prop
  | quiet (hno : ¬ r.Takes i) (hrcv : r'.rcv = r.rcv) (hadv : r.adv ≤ r'.adv) (hps : ps' = ps)
      (hreasm : r'.tcb.reasm = r.tcb.reasm) (hring : ∃ n, r'.tcb.rx.buf = r.tcb.rx.buf.drop n)
      (hfin : r'.tcb.peerFinSeen = r.tcb.peerFinSeen)
  | taken (seg : Segment) (now : Instant) (ce : Bool) (p k f : Nat) (hi : i = .segment seg now ce)
      (ht : r.Takes i) (hp : r.tcb.toRecvSpace.Placed r.rcv r.adv seg.tcp p)
      (hrcv : r'.rcv = r.rcv + (k + f)) (hadv : r'.adv = r.adv)
      (htext : r'.tcb.toRecvSpace = r.tcb.toRecvSpace.text r.tcb.sackEnabled seg.tcp)
      (ha : RecvSpace.Absorbs r.tcb.toRecvSpace r'.tcb.toRecvSpace r.rcv k p
        (r.tcb.toRecvSpace.leftTrim seg.tcp.seq seg.tcp.payload).2 ps ps')
      (hsame : f = 0 → r'.tcb.peerFinSeen = r.tcb.peerFinSeen)
      (hf : f ≠ 0 → f = 1 ∧ r.tcb.peerFinSeen = false ∧ r'.tcb.peerFinSeen = true)
      (hno : r.tcb.toRecvSpace.segmentRebuffers r.tcb.sackEnabled seg.tcp = false)

/-- The payloads taken start at or below the advertised edge. -/
def Places (r : Host κ) (i : Input) : Prop :=
  ∀ seg now ce, i = .segment seg now ce → r.Takes i →
    ∃ p, r.tcb.toRecvSpace.Placed r.rcv r.adv seg.tcp p

omit [CongestionControl κ] in
theorem Unlearned.pool (h : r.Unlearned) : r.Pool [] := by
  have hirs : r.tcb.irs = SeqNumber.new 0 := by rw [h.recv]; rfl
  have hslot : r.tcb.toRecvSpace.slot = 1 := by rw [h.recv]; rfl
  rw [Pool, h.rcv, h.adv, hslot]
  refine ⟨?_, ?_, ?_, ?_, ?_, by omega, fun _ => rfl⟩
  · rw [hirs, h.recv]; rfl
  · rw [hirs, h.recv]; rfl
  · rw [h.recv]; rfl
  · rw [h.recv]
    change 0 + 0 ≤ _
    omega
  · rw [h.recv]; exact Reasm.holds_new _ _ _

omit [CongestionControl κ] in
theorem Started.pool (h : r.Started) : r.Pool [] := by
  obtain ⟨seq, hr⟩ := h.recv
  have hslot : r.tcb.toRecvSpace.slot = 1 := by rw [hr]; rfl
  rw [Pool, h.rcv, h.adv, hslot]
  refine ⟨?_, ?_, ?_, ?_, ?_, by omega, fun _ => rfl⟩
  · rw [hr]; rfl
  · rw [hr]; exact SeqNumber.add_add _ _ _
  · rw [hr]; rfl
  · rw [hr]
    change 65536 + 0 ≤ _
    omega
  · rw [hr]; exact Reasm.holds_new _ _ _

omit [CongestionControl κ] in
/-- Past the handshake, one call moves the pool as `Moves` says. -/
theorem Pool.step (hr : r.Ring) (h : r.Pool ps) (hp : r.Passes i r') (hplace : r.Places i) :
    ∃ ps', r'.Pool ps' ∧ r.Moves i r' ps ps' := by
  have hr' := hr.passes hp
  obtain ⟨hrec, hopt, hst, h1, h2⟩ := hp
  have hsack : r'.tcb.sackEnabled = r.tcb.sackEnabled := congrArg Options.sackEnabled hopt
  have hpool := hr'.pool
  have hedge := hr'.edge
  obtain ⟨v, hv⟩ : ∃ v, r'.tcb.toRecvSpace = v := ⟨_, rfl⟩
  rw [hv] at hrec hpool hedge
  have hdrop : r.tcb.rx.buf = r.tcb.rx.buf.drop 0 := by ext1; simp
  cases hrec with
  | kept _ hno =>
    obtain ⟨-, h3, h4⟩ := hr.keep hv hst
    rw [h3] at h1
    rw [h4] at h2
    refine ⟨ps, ?_, .quiet hno h1 h2.ge rfl (by rw [hv]) ⟨0, by rw [hv]; exact hdrop⟩ (by rw [hv])⟩
    rw [Pool, hsack, hv, h1, h2]
    exact h
  | read n =>
    obtain ⟨-, h3, h4⟩ := hr.read hst hv
    rw [h3] at h1
    rw [h4] at h2
    refine ⟨ps, ?_, .quiet id h1 h2.ge rfl (by rw [hv]) ⟨n, by rw [hv]; rfl⟩ (by rw [hv])⟩
    rw [h1] at hpool
    rw [Pool, hsack, hv, h1]
    exact RecvSpace.Pooled.still h rfl rfl rfl rfl hedge h2.ge hpool
  | advertised now =>
    obtain ⟨-, h3, h4⟩ := hr.advertised hst hv
    rw [h3] at h1
    rw [h4] at h2
    refine ⟨ps, ?_, .quiet id h1 (by omega) rfl (by rw [hv]; rfl) ⟨0, by rw [hv]; exact hdrop⟩
      (by rw [hv]; rfl)⟩
    rw [h1] at hpool
    rw [Pool, hsack, hv, h1]
    exact RecvSpace.Pooled.still h rfl rfl rfl rfl hedge (by omega) hpool
  | taken seg now ce hadm hvalid =>
    have htakes : r.Takes (.segment seg now ce) := by
      simp only [Takes, hadm, hvalid, Bool.and_self]
    obtain ⟨p, hplaced⟩ := hplace seg now ce rfl htakes
    obtain ⟨k, f, ps', h3, h4, h5, hsame, h6⟩ := RecvSpace.text_pooled h seg.fits hplaced
    rw [← hv] at h3 h4 hsame h6
    -- the positions follow the ring
    have hk : k ≤ 262144 := by
      obtain ⟨d, hd, hlen, -⟩ := h4.ring
      have hl := congrArg List.length hd
      rw [List.length_append, Bytes.length_data, Bytes.length_data, Bytes.length_data, hlen] at hl
      have hle : r'.tcb.rx.buf.len ≤ 262144 := h3.len_le
      omega
    have hf : f ≤ 1 := by
      by_contra hne
      have := (h6 (by omega)).1
      omega
    have hirs : r'.tcb.irs = r.tcb.irs := by
      obtain ⟨_, _, hs, -⟩ := r.tcb.toRecvSpace.text_shift r.tcb.sackEnabled seg.tcp
      rw [hv]
      exact hs.irs
    have hrcv : r'.rcv = r.rcv + (k + f) := by
      rw [h1]
      simp only [follow, hr.state, if_false, h3.nxt, hirs]
      rw [show r.tcb.rcvNxt = r.tcb.irs + r.rcv from hr.nxt,
        SeqNumber.offsetFrom_pos_le _ (by omega) (by omega)]
      omega
    have hadv : r'.adv = r.adv := by
      obtain ⟨_, _, -, -, h7, -⟩ := hr.taken seg.fits hadm hst hv
      rw [h2]
      exact h7
    refine ⟨ps', ?_, .taken seg now ce p k f rfl htakes hplaced hrcv hadv hv h4
      hsame h6 h5⟩
    rw [Pool, hsack, hrcv, hadv]
    exact h3

/-! ## Payloads taken while the edge is ahead -/

/-- A payload is taken only while the advertised edge is not behind `RCV.NXT`. -/
def EdgeAhead (r : Host κ) : Input → Prop
  | .segment seg now ce => r.Takes (.segment seg now ce) → 0 < seg.tcp.payload.len →
      r.tcb.rcvNxt.le r.tcb.rcvAdv = true
  | _ => True

instance : ∀ i, Decidable (r.EdgeAhead i)
  | .segment _ _ _ => inferInstanceAs (Decidable (_ → _ → _))
  | .send _ | .recv _ | .close | .timer _ | .poll _ => isTrue trivial

omit [CongestionControl κ] in
theorem EdgeAhead.places (hr : r.Ring) (h : r.Pool ps) (he : r.EdgeAhead i) : r.Places i := by
  intro seg now ce hi ht
  subst hi
  have hle := r.tcb.toRecvSpace.leftTrim_len_le seg.tcp.seq seg.tcp.payload
  rcases Nat.eq_zero_or_pos seg.tcp.payload.len with h0 | hlen
  · exact ⟨r.rcv, .inl (by omega)⟩
  have hnear : r.rcv ≤ r.adv := by
    have h1 := he ht hlen
    have h2 := hr.ahead
    have h3 := hr.behind
    rwa [hr.nxt, hr.edge, SeqNumber.pos_le _ (by omega) (by omega), decide_eq_true_eq] at h1
  simp only [Takes, Core.admits, Bool.and_eq_true, Tcb.core_recv] at ht
  have hfit := seg.fits
  have hb1 : seg.tcp.flags.syn.toNat ≤ 1 := by cases seg.tcp.flags.syn <;> decide
  have hb2 : seg.tcp.flags.fin.toNat ≤ 1 := by cases seg.tcp.flags.fin <;> decide
  exact h.placed hnear ht.1.1.2 (by simp only [TcpPacket.segLen]; omega)
    (by simp only [TcpPacket.segLen]; omega)

/-! ## Payloads within the advertised window -/

/-- The payload of a segment that is taken ends at or below the advertised edge
(and starts less than half the sequence space below it). -/
def InWindow (r : Host κ) : Input → Prop
  | .segment seg now ce => r.Takes (.segment seg now ce) → 0 < seg.tcp.payload.len →
      seg.tcp.payload.len ≤ r.tcb.rcvAdv.offsetFrom seg.tcp.seq ∧
        r.tcb.rcvAdv.offsetFrom seg.tcp.seq < 2147483648
  | _ => True

instance : ∀ i, Decidable (r.InWindow i)
  | .segment _ _ _ => inferInstanceAs (Decidable (_ → _ → _ ∧ _))
  | .send _ | .recv _ | .close | .timer _ | .poll _ => isTrue trivial

/-- `RCV.NXT` is not past the edge; only a FIN may take the number at the edge. -/
structure Level (r : Host κ) : Prop where
  opened : r.tcb.peerFinSeen = false → r.rcv ≤ r.adv
  closed : r.rcv ≤ r.adv + 1

omit [CongestionControl κ] in
/-- Before the peer's SYN there is no window, and nothing to place. -/
theorem Unlearned.takes_empty (h : r.Unlearned) {seg : Segment} {now : Instant} {ce : Bool}
    (ht : r.Takes (.segment seg now ce)) : seg.tcp.payload.len = 0 := by
  simp only [Takes, Core.admits, Bool.and_eq_true, Tcb.core_recv] at ht
  have hacc := ht.1.1.2
  have hlen : seg.tcp.segLen = 0 := by
    by_contra hne
    simp [RecvSpace.segmentAcceptable, h.recv, Tcb.freshRecv, hne] at hacc
  simp only [TcpPacket.segLen] at hlen
  omega

omit [CongestionControl κ] in
/-- A payload in the window, trimmed, lies between `RCV.NXT` and the edge. -/
theorem inWindow_placed (hr : r.Ring) (hl : r.Level) {seg : Segment} {now : Instant}
    {ce : Bool} (ht : r.Takes (.segment seg now ce)) (hw : r.InWindow (.segment seg now ce)) :
    ∃ p, r.tcb.toRecvSpace.Placed r.rcv r.adv seg.tcp p ∧
      ((r.tcb.toRecvSpace.leftTrim seg.tcp.seq seg.tcp.payload).2.len = 0 ∨
        p + (r.tcb.toRecvSpace.leftTrim seg.tcp.seq seg.tcp.payload).2.len ≤ r.adv) := by
  have hclosed := hl.closed
  have hpool := hr.pool
  rcases Nat.eq_zero_or_pos seg.tcp.payload.len with h0 | hlen
  · have := r.tcb.toRecvSpace.leftTrim_len_le seg.tcp.seq seg.tcp.payload
    exact ⟨r.rcv, .inl (by omega), .inl (by omega)⟩
  obtain ⟨h1, h2⟩ := hw ht hlen
  -- distances from the start of the segment
  have hd := SeqNumber.offsetFrom_trans r.tcb.rcvNxt r.tcb.rcvAdv seg.tcp.seq
  have hd' := SeqNumber.offsetFrom_trans seg.tcp.seq r.tcb.rcvNxt seg.tcp.seq
  rw [SeqNumber.offsetFrom_self] at hd'
  have hx := SeqNumber.offsetFrom_lt seg.tcp.seq r.tcb.rcvNxt
  have hnxt : r.tcb.rcvNxt.offsetFrom r.tcb.rcvAdv =
      (r.rcv + (4294967296 - r.adv % 4294967296)) % 4294967296 := by
    rw [hr.nxt, hr.edge, SeqNumber.offsetFrom_pos]
  by_cases hback : seg.tcp.seq.lt r.tcb.rcvNxt = true
  · have hlt := (SeqNumber.lt_iff _ _).mp hback
    have htrim : (r.tcb.toRecvSpace.leftTrim seg.tcp.seq seg.tcp.payload) = (r.tcb.rcvNxt,
        seg.tcp.payload.drop (min (r.tcb.rcvNxt.offsetFrom seg.tcp.seq) seg.tcp.payload.len)) := by
      simp only [RecvSpace.leftTrim, hback, if_true]
    have hy : r.tcb.rcvNxt.offsetFrom seg.tcp.seq + r.adv =
        r.tcb.rcvAdv.offsetFrom seg.tcp.seq + r.rcv := by omega
    rw [htrim]
    refine ⟨r.rcv, ?_, ?_⟩
    · rcases Nat.lt_or_ge r.adv r.rcv with hgt | hle
      · left
        rw [htrim, Bytes.drop_len]
        omega
      · exact .inr ⟨by rw [htrim]; exact hr.nxt, le_rfl, hle⟩
    · rw [Bytes.drop_len]
      omega
  · have hnl : ¬ 2147483648 ≤ seg.tcp.seq.offsetFrom r.tcb.rcvNxt :=
      mt (SeqNumber.lt_iff _ _).mpr hback
    have hle : r.rcv ≤ r.adv := by
      by_contra hgt
      omega
    have htrim : (r.tcb.toRecvSpace.leftTrim seg.tcp.seq seg.tcp.payload) =
        (seg.tcp.seq, seg.tcp.payload) := by
      simp only [RecvSpace.leftTrim, hback, Bool.false_eq_true, if_false]
    have hseq : seg.tcp.seq = r.tcb.irs + (r.rcv + seg.tcp.seq.offsetFrom r.tcb.rcvNxt) := by
      rw [← SeqNumber.add_add, ← hr.nxt]
      exact (SeqNumber.add_offsetFrom _ _).symm
    have hend : r.rcv + seg.tcp.seq.offsetFrom r.tcb.rcvNxt + seg.tcp.payload.len ≤ r.adv := by omega
    rw [htrim]
    exact ⟨_, .inr ⟨by rw [htrim]; exact hseq, Nat.le_add_right _ _, by omega⟩, .inr hend⟩

omit [CongestionControl κ] in
theorem inWindow_end (hr : r.Ring) (hl : r.Level) {seg : Segment} {now : Instant} {ce : Bool} {p : Nat}
    (ht : r.Takes (.segment seg now ce)) (hw : r.InWindow (.segment seg now ce))
    (hp : r.tcb.toRecvSpace.Placed r.rcv r.adv seg.tcp p) :
    (r.tcb.toRecvSpace.leftTrim seg.tcp.seq seg.tcp.payload).2.len = 0 ∨
      p + (r.tcb.toRecvSpace.leftTrim seg.tcp.seq seg.tcp.payload).2.len ≤ r.adv := by
  have hpool := hr.pool
  obtain ⟨p', hp', hend⟩ := inWindow_placed hr hl ht hw
  rcases hend with h0 | hend
  · exact .inl h0
  rcases hp with h0 | ⟨h1, h2, h3⟩
  · exact .inl h0
  rcases hp' with h0 | ⟨h4, h5, h6⟩
  · exact .inl h0
  rw [h1, SeqNumber.pos_eq _ (by omega) (by omega)] at h4
  rw [h4]
  exact .inr hend

/-- The receive side while every payload stays in the window. -/
structure Accounted (r : Host κ) : Prop where
  sound : r.Sound
  pool : ∃ ps, r.Pool ps
  level : r.Level

omit [CongestionControl κ] in
theorem Unlearned.level (h : r.Unlearned) : r.Level := by
  have h1 := h.rcv
  have h2 := h.adv
  exact ⟨fun _ => by omega, by omega⟩

omit [CongestionControl κ] in
theorem Started.level (h : r.Started) : r.Level := by
  have h1 := h.rcv
  have h2 := h.adv
  exact ⟨fun _ => by omega, by omega⟩

omit [CongestionControl κ] in
/-- In the window, data stops at the edge. -/
theorem Level.moves {ps' : List Span} (hl : r.Level) (hr : r.Ring) (h : r.Pool ps)
    (hw : r.InWindow i) (hm : r.Moves i r' ps ps') : r'.Level := by
  have h1 := hl.opened
  have h2 := hl.closed
  cases hm with
  | quiet hno hrcv hadv hps hreasm hring hfin =>
    exact ⟨fun hf => by have := h1 (hfin.symm.trans hf); omega, by omega⟩
  | taken seg now ce p k f hi ht hp hrcv hadv htext ha hsame hf hno =>
    subst hi
    have hend := inWindow_end hr hl ht hw hp
    -- the last octet that went to the ring lies below the edge
    have hk : k = 0 ∨ r.rcv + k ≤ r.adv := by
      obtain ⟨d, -, hlen, hd⟩ := ha.ring
      rcases Nat.eq_zero_or_pos k with h0 | hpos
      · exact .inl h0
      right
      have hlast : k - 1 < d.data.length := by
        rw [Bytes.length_data]
        omega
      rcases hd (k - 1) _ (List.getElem?_eq_getElem hlast) with ⟨hpr, hdat⟩ | ⟨⟨s, hs, hb⟩, -⟩
      · have := (List.getElem?_eq_some_iff.mp hdat).1
        rw [Bytes.length_data] at this
        omega
      · have := (Reasm.byte_lt_stop hb).2
        have := h.holds.below s hs
        omega
    have hopen : ¬ r.rcv ≤ r.adv → r.tcb.peerFinSeen = true := by
      intro hgt
      by_contra hne
      exact hgt (h1 (Bool.eq_false_iff.mpr hne))
    by_cases h0 : f = 0
    · refine ⟨fun hs => ?_, by omega⟩
      have := h1 ((hsame h0).symm.trans hs)
      omega
    · obtain ⟨hf1, hf2, hf3⟩ := hf h0
      have hle : r.rcv ≤ r.adv := h1 hf2
      exact ⟨fun hs => absurd (hf3.symm.trans hs) (by simp), by omega⟩

theorem Opens.accounted (h : r.Opens) : r.Accounted := by
  refine ⟨h.sound, ?_, ?_⟩
  · rcases h.begins with hu | hs
    · exact ⟨[], hu.pool⟩
    · exact ⟨[], hs.pool⟩
  · rcases h.begins with hu | hs
    · exact hu.level
    · exact hs.level

/-- One call, with a payload in the window if it is a segment. -/
theorem Accounted.input (h : r.Accounted) (hw : r.InWindow i) : (r.input i).1.Accounted := by
  have hsound := h.sound.input i
  rcases h.sound.ring with hu | hr
  · rcases hu.input h.sound.ok i with hu' | hs'
    · exact ⟨hsound, ⟨[], hu'.pool⟩, hu'.level⟩
    · exact ⟨hsound, ⟨[], hs'.pool⟩, hs'.level⟩
  · obtain ⟨ps, hps⟩ := h.pool
    have hplace : r.Places i := by
      intro seg now ce hi ht
      subst hi
      obtain ⟨p, hp, -⟩ := inWindow_placed hr h.level ht hw
      exact ⟨p, hp⟩
    obtain ⟨ps', hps', hm⟩ := hps.step hr (input_passes h.sound.ok hr.state i) hplace
    exact ⟨hsound, ⟨ps', hps'⟩, h.level.moves hr hps hw hm⟩

theorem accounted_run {is : List Input} (h : r.Accounted) (hc : Run.Along step InWindow r is)
    (hrun : Run.run step r is = some r') : r'.Accounted := by
  refine Run.run_invariant_along (fun s i s' hs hi he => ?_) h hc hrun
  cases he
  exact hs.input hi

omit [CongestionControl κ] in
/-- A payload in the window finds room, and puts no run back. -/
theorem Accounted.accepts (h : r.Accounted) {seg : Segment} {now : Instant} {ce : Bool}
    (ht : r.Takes (.segment seg now ce)) (hw : r.InWindow (.segment seg now ce)) :
    (r.tcb.toRecvSpace.InOrder seg.tcp →
      (r.tcb.rx.write (r.tcb.toRecvSpace.leftTrim seg.tcp.seq seg.tcp.payload).2).2 =
        (r.tcb.toRecvSpace.leftTrim seg.tcp.seq seg.tcp.payload).2.len) ∧
      r.tcb.toRecvSpace.segmentRebuffers r.tcb.sackEnabled seg.tcp = false := by
  rcases h.sound.ring with hu | hr
  · have h0 := hu.takes_empty ht
    have hle := r.tcb.toRecvSpace.leftTrim_len_le seg.tcp.seq seg.tcp.payload
    have hz : (r.tcb.toRecvSpace.leftTrim seg.tcp.seq seg.tcp.payload).2.len = 0 := by omega
    refine ⟨fun hin => absurd hin.2 (by omega), ?_⟩
    simp [RecvSpace.segmentRebuffers, Bytes.isEmpty_iff.mpr hz]
  · obtain ⟨ps, hps⟩ := h.pool
    obtain ⟨p, hp, hend⟩ := inWindow_placed hr h.level ht hw
    obtain ⟨-, -, -, -, -, hno, -⟩ := RecvSpace.text_pooled hps seg.fits hp
    refine ⟨fun hin => ?_, hno⟩
    have hpool := hr.pool
    have hroom : r.tcb.rx.capacity = 262144 := hr.cap
    have hlen := hin.2
    have hle : r.rcv ≤ p := by
      rcases hp with h0 | ⟨-, h1, -⟩
      · omega
      · exact h1
    rw [RingBuffer.write_snd]
    omega

/-- The pool is never overdrawn, whatever the peer sends within the window: the
ring and the runs fit into it, and so do the ring and the rest of the window.
So an in-order payload is accepted whole and no popped run is put back. -/
theorem pool_accounted {r₀ : Host κ} {is : List Input} (h0 : r₀.Opens)
    (hc : Run.Along step InWindow r₀ is) (hrun : Run.run step r₀ is = some r) :
    r.tcb.rx.len + r.tcb.reasm.buffered ≤ rxBuffer ∧
      (r.tcb.rcvAdv + r.tcb.rx.len).le (r.tcb.rcvNxt + rxBuffer) = true ∧
      ∀ seg now ce, r.Takes (.segment seg now ce) → r.InWindow (.segment seg now ce) →
        (r.tcb.toRecvSpace.InOrder seg.tcp →
          (r.tcb.rx.write (r.tcb.toRecvSpace.leftTrim seg.tcp.seq seg.tcp.payload).2).2 =
            (r.tcb.toRecvSpace.leftTrim seg.tcp.seq seg.tcp.payload).2.len) ∧
          r.tcb.toRecvSpace.segmentRebuffers r.tcb.sackEnabled seg.tcp = false := by
  have h := accounted_run h0.accounted hc hrun
  obtain ⟨ps, hps⟩ := h.pool
  have hpool := hps.pool
  have hclosed := h.level.closed
  have hrx : rxBuffer = 262144 := rfl
  refine ⟨hps.buffered, ?_, fun seg now ce ht hw => h.accepts ht hw⟩
  rw [show r.tcb.rcvAdv = _ from hps.edge, show r.tcb.rcvNxt = _ from hps.nxt, SeqNumber.add_add,
    SeqNumber.add_add, SeqNumber.pos_le _ (by omega) (by omega), decide_eq_true_eq]
  omega

/-- Ten octets above a gap of ten, and then the gap. -/
def gapRun : List Input :=
  settled ++ [
    .segment ⟨peerSegment 5011 {} (Bytes.replicate 10 7), by decide⟩ ⟨0⟩ false,
    .segment ⟨peerSegment 5001 {} (Bytes.replicate 10 8), by decide⟩ ⟨0⟩ false]

theorem pool_accounted_gapRun :
    ∃ r : Host Reno, Run.run step accepted gapRun = some r ∧
      r.tcb.rx.len + r.tcb.reasm.buffered ≤ rxBuffer := by
  have hsteps : Run.Along step InWindow accepted gapRun := by decide +kernel
  obtain ⟨r, hrun, -⟩ := Run.exists_run step accepted gapRun (fun r => r.tcb.rx.len = 20)
    (by decide +kernel)
  exact ⟨r, hrun, (pool_accounted accepted_opens hsteps hrun).1⟩

end Host

end Ferrumnet
