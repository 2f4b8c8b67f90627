import Ferrumnet.Receiver

/-
  What a segment of any peer does to `RCV.NXT` and to the ring.

  `Receiver` follows the stream of a peer that has one. Here the peer may send
  anything; still `RCV.NXT` and the ring move together (`text_shift`), and what
  moves them shows that the advertised edge is not behind (`acceptable_edge`).
-/

namespace Ferrumnet

namespace RecvSpace

/-- `RCV.NXT` and the ring move together: `k` octets of data, and `f` for a FIN. -/
structure Shift (r r' : RecvSpace) (k f : Nat) : Prop where
  irs : r'.irs = r.irs
  adv : r'.rcvAdv = r.rcvAdv
  nxt : r'.rcvNxt = r.rcvNxt + (k + f)
  rx : ∃ data : Bytes, r'.rx.buf.data = r.rx.buf.data ++ data.data ∧ data.len = k
  cap : r'.rx.capacity = r.rx.capacity

variable {r r' r'' : RecvSpace} {k f : Nat} {tcp : TcpPacket}

theorem Shift.refl (r : RecvSpace) : Shift r r 0 0 :=
  ⟨rfl, rfl, by simp, ⟨Bytes.empty, by simp, rfl⟩, rfl⟩

theorem Shift.trans {k' f' : Nat} (h : Shift r r' k f) (h' : Shift r' r'' k' f') :
    Shift r r'' (k + k') (f + f') := by
  obtain ⟨d, h1, h2⟩ := h.rx
  obtain ⟨d', h3, h4⟩ := h'.rx
  refine ⟨h'.irs.trans h.irs, h'.adv.trans h.adv, ?_, ⟨d ++ d', ?_, by simp [h2, h4]⟩,
    h'.cap.trans h.cap⟩
  · rw [h'.nxt, h.nxt, SeqNumber.add_add]
    congr 1
    omega
  · rw [h3, h1, Bytes.append_data, List.append_assoc]

theorem Shift.len (h : Shift r r' k f) : r'.rx.len = r.rx.len + k := by
  obtain ⟨d, h1, h2⟩ := h.rx
  have := congrArg List.length h1
  rw [List.length_append, Bytes.length_data, Bytes.length_data, Bytes.length_data, h2] at this
  exact this

/-- One write to the ring. -/
theorem shift_write (data : Bytes) (q : Reasm) :
    Shift r { r with rx := (r.rx.write data).1, rcvNxt := r.rcvNxt + (r.rx.write data).2, reasm := q }
      (r.rx.write data).2 0 := by
  have hle := r.rx.write_le data
  exact ⟨rfl, rfl, rfl, ⟨data.take (r.rx.write data).2, by rw [RingBuffer.write_buf, Bytes.append_data],
    by rw [Bytes.take_len]; omega⟩, r.rx.write_capacity data⟩

theorem drain_shift : ∀ (fuel : Nat) (r : RecvSpace), ∃ k, Shift r (r.drain fuel) k 0 ∧
    (r.drain fuel).peerFinSeen = r.peerFinSeen ∧ (r.drain fuel).pendingFin = r.pendingFin := by
  intro fuel
  induction fuel with
  | zero => exact fun r => ⟨0, .refl r, rfl, rfl⟩
  | succ fuel ih =>
    intro r
    simp only [drain]
    generalize r.reasm.popContiguous r.rcvNxt = p
    obtain ⟨q, run⟩ := p
    dsimp only
    split
    · exact ⟨0, ⟨rfl, rfl, by simp, ⟨Bytes.empty, by simp, rfl⟩, rfl⟩, rfl, rfl⟩
    · split
      · exact ⟨_, shift_write run _, rfl, rfl⟩
      · obtain ⟨k, h1, h2, h3⟩ := ih { r with
          reasm := q, rx := (r.rx.write run).1, rcvNxt := r.rcvNxt + (r.rx.write run).2 }
        exact ⟨_, (shift_write run q).trans h1, h2, h3⟩

theorem writeInOrder_shift (sack : Bool) (data : Bytes) :
    ∃ k, (r.rx.write data).2 ≤ k ∧ Shift r (r.writeInOrder sack data) k 0 ∧
      (r.writeInOrder sack data).peerFinSeen = r.peerFinSeen ∧
      (r.writeInOrder sack data).pendingFin = r.pendingFin := by
  cases sack with
  | false => exact ⟨_, le_rfl, shift_write data r.reasm, rfl, rfl⟩
  | true =>
    simp only [writeInOrder, if_true]
    generalize hq : r.reasm.discardBelow (r.rcvNxt + (r.rx.write data).2) = q
    obtain ⟨k, h1, h2, h3⟩ := drain_shift (q.runs.length + 1) { r with
      rx := (r.rx.write data).1, rcvNxt := r.rcvNxt + (r.rx.write data).2, reasm := q }
    exact ⟨_, Nat.le_add_right _ k, (shift_write data q).trans h1, h2, h3⟩

/-- The segment has octets at `RCV.NXT`. -/
def InOrder (r : RecvSpace) (tcp : TcpPacket) : Prop :=
  (r.leftTrim tcp.seq tcp.payload).1 = r.rcvNxt ∧ 0 < (r.leftTrim tcp.seq tcp.payload).2.len

instance (tcp : TcpPacket) : Decidable (r.InOrder tcp) := inferInstanceAs (Decidable (_ ∧ _))

/-- The payload moves `RCV.NXT` only if it is in order. -/
theorem acceptData_shift (sack : Bool) (tcp : TcpPacket) :
    ∃ k, Shift r (r.acceptData sack tcp) k 0 ∧
      (r.acceptData sack tcp).peerFinSeen = r.peerFinSeen ∧
      (r.acceptData sack tcp).pendingFin = r.pendingFin ∧
      (r.InOrder tcp → min (r.leftTrim tcp.seq tcp.payload).2.len r.rx.free ≤ k) ∧
      (¬ r.InOrder tcp → k = 0) := by
  have hsame : ¬ r.InOrder tcp → ∃ k, Shift r r k 0 ∧ r.peerFinSeen = r.peerFinSeen ∧
      r.pendingFin = r.pendingFin ∧
      (r.InOrder tcp → min (r.leftTrim tcp.seq tcp.payload).2.len r.rx.free ≤ k) ∧
      (¬ r.InOrder tcp → k = 0) :=
    fun hn => ⟨0, .refl r, rfl, rfl, fun h => absurd h hn, fun _ => rfl⟩
  unfold acceptData
  split
  · rename_i hp
    refine hsame fun h => ?_
    have h2 := h.2
    rw [Bytes.isEmpty_iff] at hp
    simp only [leftTrim] at h2
    split at h2
    · rw [Bytes.drop_len] at h2
      omega
    · exact absurd hp (Nat.pos_iff_ne_zero.mp h2)
  · dsimp only [ingest]
    split
    · rename_i hd
      refine hsame fun h => ?_
      have := h.2
      rw [Bytes.isEmpty_iff] at hd
      omega
    rename_i hd
    split
    · rename_i hq
      obtain ⟨k, h1, h2, h3, h4⟩ := r.writeInOrder_shift sack (r.leftTrim tcp.seq tcp.payload).2
      rw [RingBuffer.write_snd] at h1
      refine ⟨k, h2, h3, h4, fun _ => h1, fun hn => ?_⟩
      rw [Bytes.isEmpty_iff] at hd
      exact absurd ⟨hq, by omega⟩ hn
    · rename_i hq
      split
      · exact ⟨0, ⟨rfl, rfl, by simp, ⟨Bytes.empty, by simp, rfl⟩, rfl⟩, rfl, rfl,
          fun h => absurd h.1 hq, fun _ => rfl⟩
      · exact hsame fun h => hq h.1

/-- What consuming a FIN does: `f` is one if it happened. -/
structure Finish (r r' : RecvSpace) (f : Nat) : Prop where
  shift : Shift r r' 0 f
  reasm : r'.reasm = r.reasm
  none : f = 0 → r'.peerFinSeen = r.peerFinSeen
  once : f ≠ 0 → f = 1 ∧ r.peerFinSeen = false ∧ r'.peerFinSeen = true

theorem Finish.refl (r : RecvSpace) : Finish r r 0 := ⟨.refl r, rfl, fun _ => rfl, by simp⟩

theorem takePendingFin_finish (r : RecvSpace) :
    ∃ f, Finish r r.takePendingFin f ∧ (f ≠ 0 → r.pendingFin = some r.rcvNxt) ∧
      (r.takePendingFin.peerFinSeen = false →
        r.takePendingFin.pendingFin ≠ some r.takePendingFin.rcvNxt) := by
  unfold takePendingFin
  split
  · rename_i finAt hp
    split
    · rename_i hc
      simp only [Bool.and_eq_true, decide_eq_true_eq, Bool.not_eq_true'] at hc
      refine ⟨1, ⟨⟨rfl, rfl, rfl, ⟨Bytes.empty, by simp, rfl⟩, rfl⟩, rfl, by simp,
        fun _ => ⟨rfl, hc.2, rfl⟩⟩, fun _ => by rw [hp, hc.1], by simp⟩
    · rename_i hc
      refine ⟨0, .refl r, by simp, fun hf he => hc ?_⟩
      rw [hp] at he
      simp [Option.some.inj he, hf]
  · rename_i hp
    exact ⟨0, .refl r, by simp, fun _ => by rw [hp]; simp⟩

/-- The FIN of a segment, and one remembered, take one number of the sequence
space between them. -/
theorem finish_shift (r : RecvSpace) (tcp : TcpPacket) :
    ∃ f, Finish r (r.acceptFin tcp).takePendingFin f ∧
      (f ≠ 0 → (tcp.flags.fin = true ∧ tcp.seq + tcp.payload.len = r.rcvNxt) ∨
        r.pendingFin = some r.rcvNxt) ∧
      ((r.acceptFin tcp).takePendingFin.peerFinSeen = false →
        (r.acceptFin tcp).takePendingFin.pendingFin ≠
          some (r.acceptFin tcp).takePendingFin.rcvNxt) := by
  have hsame : ∃ f, Finish r r.takePendingFin f ∧
      (f ≠ 0 → (tcp.flags.fin = true ∧ tcp.seq + tcp.payload.len = r.rcvNxt) ∨
        r.pendingFin = some r.rcvNxt) ∧
      (r.takePendingFin.peerFinSeen = false →
        r.takePendingFin.pendingFin ≠ some r.takePendingFin.rcvNxt) := by
    obtain ⟨f, h1, h2, h3⟩ := r.takePendingFin_finish
    exact ⟨f, h1, fun hf => .inr (h2 hf), h3⟩
  unfold acceptFin
  split
  · rename_i hfin
    unfold takeFin
    split
    · rename_i hc
      simp only [Bool.and_eq_true, decide_eq_true_eq, Bool.not_eq_true'] at hc
      -- consumed now: nothing is left for the remembered one
      have hrest : ({ r with rcvNxt := r.rcvNxt + 1, peerFinSeen := true } : RecvSpace).takePendingFin =
          { r with rcvNxt := r.rcvNxt + 1, peerFinSeen := true } := by
        unfold takePendingFin
        split
        · simp
        · rfl
      rw [hrest]
      exact ⟨1, ⟨⟨rfl, rfl, rfl, ⟨Bytes.empty, by simp, rfl⟩, rfl⟩, rfl, by simp,
        fun _ => ⟨rfl, hc.2, rfl⟩⟩, fun _ => .inl ⟨hfin, hc.1⟩, by simp⟩
    · rename_i hc
      split
      · rename_i hs
        -- above a gap: remembered, and not at `RCV.NXT`
        rw [Bool.not_eq_true'] at hs
        have hne : tcp.seq + tcp.payload.len ≠ r.rcvNxt := fun he => hc (by simp [he, hs])
        have hrest : ({ r with pendingFin := some (tcp.seq + tcp.payload.len) } :
            RecvSpace).takePendingFin = { r with pendingFin := some (tcp.seq + tcp.payload.len) } := by
          simp [takePendingFin, hne]
        rw [hrest]
        exact ⟨0, ⟨⟨rfl, rfl, by simp, ⟨Bytes.empty, by simp, rfl⟩, rfl⟩, rfl, fun _ => rfl,
          by simp⟩, by simp, fun _ he => hne (Option.some.inj he)⟩
      · exact hsame
  · exact hsame

/-- A segment taken in whole. -/
theorem text_shift (r : RecvSpace) (sack : Bool) (tcp : TcpPacket) :
    ∃ k f, Shift r (r.text sack tcp) k f ∧
      (r.InOrder tcp → min (r.leftTrim tcp.seq tcp.payload).2.len r.rx.free ≤ k) ∧
      (¬ r.InOrder tcp → k = 0) ∧
      (f = 0 → (r.text sack tcp).peerFinSeen = r.peerFinSeen) ∧
      (f ≠ 0 → f = 1 ∧ r.peerFinSeen = false ∧ (r.text sack tcp).peerFinSeen = true) ∧
      (f ≠ 0 → k = 0 → (tcp.flags.fin = true ∧ tcp.seq + tcp.payload.len = r.rcvNxt) ∨
        r.pendingFin = some r.rcvNxt) ∧
      ((r.text sack tcp).peerFinSeen = false →
        (r.text sack tcp).pendingFin ≠ some (r.text sack tcp).rcvNxt) := by
  obtain ⟨k, h1, h2, h3, h4, h5⟩ := r.acceptData_shift sack tcp
  obtain ⟨f, h6, h7, h8⟩ := (r.acceptData sack tcp).finish_shift tcp
  refine ⟨k, f, ?_, h4, h5, fun hf => (h6.none hf).trans h2, fun hf => ?_, fun hf hk => ?_, h8⟩
  · have := h1.trans h6.shift
    rwa [Nat.add_zero, Nat.zero_add] at this
  · obtain ⟨h9, h10, h11⟩ := h6.once hf
    exact ⟨h9, h2.symm.trans h10, h11⟩
  · have hn := h1.nxt
    rw [hk, Nat.zero_add, SeqNumber.add_zero] at hn
    have := h7 hf
    rwa [hn, h3] at this

/-- Where the octet at `RCV.NXT` lies in a segment that is in order. -/
theorem InOrder.at (h : r.InOrder tcp) : ∃ d, r.rcvNxt = tcp.seq + d ∧ d < tcp.payload.len := by
  obtain ⟨h1, h2⟩ := h
  simp only [leftTrim] at h1 h2
  split at h2
  · rw [Bytes.drop_len] at h2
    exact ⟨_, (SeqNumber.add_offsetFrom r.rcvNxt tcp.seq).symm, by omega⟩
  · rename_i hlt
    rw [if_neg hlt] at h1
    exact ⟨0, by rw [SeqNumber.add_zero]; exact h1.symm, h2⟩

/-- An acceptable segment with an octet at `RCV.NXT` shows that the advertised
edge is not behind it. -/
theorem acceptable_edge {irs : SeqNumber} {rcv adv d n : Nat} {seq : SeqNumber}
    (hn : r.rcvNxt = irs + rcv) (ha : r.rcvAdv = irs + adv) (h1 : rcv ≤ adv + 262146)
    (hd : r.rcvNxt = seq + d) (hdn : d < n) (hlen : n ≤ 65537)
    (h : r.segmentAcceptable seq n = true) : rcv ≤ adv := by
  by_contra hlt
  have hnxt : r.rcvNxt = r.rcvAdv + (rcv - adv) := by
    rw [ha, SeqNumber.add_add, hn]
    congr 1
    omega
  have hne : r.rcvAdv ≠ r.rcvNxt := by
    rw [hnxt]
    exact (SeqNumber.add_ne_self r.rcvAdv (by omega)).symm
  have hlast : seq + (n - 1) = r.rcvAdv + (rcv - adv + (n - 1 - d)) := by
    rw [← SeqNumber.add_add, ← hnxt, hd, SeqNumber.add_add]
    congr 1
    omega
  have hseq : (d + seq.offsetFrom r.rcvAdv) % 4294967296 = rcv - adv := by
    have h2 := SeqNumber.offsetFrom_trans r.rcvNxt seq r.rcvAdv
    have h3 : r.rcvNxt.offsetFrom seq = d := by
      rw [hd, SeqNumber.offsetFrom_add]
      omega
    have h4 : r.rcvNxt.offsetFrom r.rcvAdv = rcv - adv := by
      rw [hnxt, SeqNumber.offsetFrom_add]
      omega
    rwa [h3, h4] at h2
  have hback : (seq.offsetFrom r.rcvNxt + d) % 4294967296 = 0 := by
    have h2 := SeqNumber.offsetFrom_trans seq r.rcvNxt seq
    have h3 : r.rcvNxt.offsetFrom seq = d := by
      rw [hd, SeqNumber.offsetFrom_add]
      omega
    rwa [h3, SeqNumber.offsetFrom_self] at h2
  have := SeqNumber.offsetFrom_lt seq r.rcvAdv
  have := SeqNumber.offsetFrom_lt seq r.rcvNxt
  rw [segmentAcceptable, if_neg (by omega), if_neg hne, hlast] at h
  simp only [Bool.or_eq_true, Bool.and_eq_true, SeqNumber.ge_iff, SeqNumber.lt_iff] at h
  rw [SeqNumber.offsetFrom_add] at h
  rcases h with ⟨h2, h3⟩ | ⟨-, h3⟩ <;> omega

/-- The octets that the receive pool still has room for, as far as the window field
can tell. -/
def room (r : RecvSpace) (wscale : Nat) : Nat :=
  min (rxBuffer - (r.rx.len + r.reasm.buffered)) (65535 <<< wscale)

/-- The advertised edge moves to the room there is, and never back. -/
theorem advertisedWindow_eq {irs : SeqNumber} {rcv adv : Nat} (hn : r.rcvNxt = irs + rcv)
    (ha : r.rcvAdv = irs + adv) (h1 : rcv ≤ adv + 262146) (h2 : adv ≤ rcv + 262144) (w : Nat) :
    (r.advertisedWindow w).1.rcvAdv = irs + max adv (rcv + r.room w) ∧
      (r.advertisedWindow w).2 = max adv (rcv + r.room w) - rcv := by
  have hroom : min (rxBuffer - (r.rx.len + r.reasm.buffered)) (65535 <<< w) = r.room w := rfl
  have hle : r.room w ≤ 262144 := by
    have : rxBuffer = 262144 := rfl
    rw [← hroom]
    omega
  simp only [advertisedWindow, hn, ha, SeqNumber.add_add, hroom]
  rw [SeqNumber.pos_lt _ (by omega) (by omega)]
  split
  · rename_i hlt
    rw [decide_eq_true_eq] at hlt
    rw [Nat.max_eq_left hlt.le]
    exact ⟨rfl, SeqNumber.offsetFrom_pos_le _ (by omega) (by omega)⟩
  · rename_i hlt
    rw [decide_eq_true_eq] at hlt
    rw [Nat.max_eq_right (by omega)]
    exact ⟨rfl, SeqNumber.offsetFrom_pos_le _ (by omega) (by omega)⟩

end RecvSpace

end Ferrumnet
