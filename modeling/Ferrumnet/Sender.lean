import Ferrumnet.Receiver

/-
  The send space against the stream it sends.

  `Sending sent una s` says that `s`, whose `SND.UNA` is at position `una` (the
  SYN is at 0, byte `k` of `sent` at `k + 1`, the FIN at `sent.length + 1`),
  holds exactly the bytes of `sent` from `una` on, and that `SND.NXT` has passed
  no more than what was accepted from the application, and the FIN.

  1. `sends_spec` — a segment that may be sent is a piece of that stream at its
     own position, and sending it keeps the send space in step.
  2. `acked_sending` — so does a valid acknowledgement.
-/

namespace Ferrumnet

/-- `SND.NXT - SND.UNA`. -/
def SendSpace.outstanding (s : SendSpace) : Nat := s.sndNxt.offsetFrom s.sndUna

structure Sending (sent : List UInt8) (una : Nat) (s : SendSpace) : Prop where
  at_una : s.sndUna = s.iss + una
  bytes : s.tx.buf.data = sent.drop (una - 1)
  capacity : s.tx.capacity = txBuffer
  opening : una = 0 → sent = []
  opened : s.finSeq = none → una + s.outstanding ≤ 1 + sent.length ∧ s.finAcked = false
  finished : ∀ f, s.finSeq = some f → f = s.iss + (1 + sent.length) ∧ 1 ≤ una ∧
    una + s.outstanding = 2 + sent.length ∧ (s.finAcked = true ↔ una = 2 + sent.length)

/-- Where `SND.UNA` and the FIN can be in each state. -/
def Phase (st : State) (una : Nat) (finSeq : Option SeqNumber) : Prop :=
  match st with
  | .closed => True
  | .listen => False
  | .synSent | .synReceived => una = 0
  | .established | .closeWait => 1 ≤ una ∧ finSeq = none
  | _ => 1 ≤ una

/-- A segment at position `pos` is a piece of the stream: the SYN, or text with
its bytes, and with the FIN only at the end. -/
structure OfStream (sent : List UInt8) (fin : Prop) (pos : Nat) (flags : TcpFlags)
    (payload : Bytes) : Prop where
  syn : flags.syn = true → pos = 0 ∧ payload.len = 0 ∧ flags.fin = false
  text : flags.syn = false → 1 ≤ pos ∧ Carries sent pos payload.data ∧
    (flags.fin = true → fin ∧ pos + payload.len = 1 + sent.length)

/-- The end of what has been on the wire, with `k` octets of slack for window
probes. Before the SYN is acknowledged it is the SYN. -/
def SendSpace.reach (s : SendSpace) (k una : Nat) : Nat :=
  if una = 0 then 1 else una + s.outstanding + k

variable {sent : List UInt8} {una : Nat} {s : SendSpace} {st : State} {fin : Option SeqNumber}

/-! ## Consequences -/

theorem Sending.tx_len (h : Sending sent una s) : s.tx.len = sent.length - (una - 1) := by
  rw [RingBuffer.len, ← Bytes.length_data, h.bytes, List.length_drop]

theorem Sending.nxt_le (h : Sending sent una s) : una + s.outstanding ≤ 2 + sent.length := by
  rcases hf : s.finSeq with _ | f
  · have := (h.opened hf).1
    omega
  · have := (h.finished f hf).2.2.1
    omega

theorem Sending.len_le (h : Sending sent una s) : sent.length - (una - 1) ≤ 262144 := by
  have := s.tx.len_le
  rw [h.tx_len, h.capacity] at this
  exact this

theorem Sending.outstanding_le (h : Sending sent una s) : s.outstanding ≤ 262145 := by
  have h1 := h.nxt_le
  have h2 := h.len_le
  have h3 := h.opening
  rcases Nat.eq_zero_or_pos una with h0 | h0
  · have := h3 h0
    subst this
    simp only [List.length_nil] at h1
    omega
  · omega

theorem Sending.at_nxt (h : Sending sent una s) : s.sndNxt = s.iss + (una + s.outstanding) := by
  rw [← SeqNumber.add_add, ← h.at_una]
  exact (SeqNumber.add_offsetFrom _ _).symm

theorem Sending.fin_none (h : Sending sent una s) (h0 : una = 0) : s.finSeq = none := by
  rcases hf : s.finSeq with _ | f
  · rfl
  · have := (h.finished f hf).2.1
    omega

theorem Sending.opening_le (h : Sending sent una s) (h0 : una = 0) : s.outstanding ≤ 1 := by
  have h1 := (h.opened (h.fin_none h0)).1
  rw [h.opening h0, List.length_nil] at h1
  omega

/-- While something is unsent, the FIN is not out. -/
theorem Sending.unsent_open (h : Sending sent una s) (hu : s.outstanding < s.tx.len) :
    s.finSeq = none ∧ una + s.tx.len ≤ 1 + sent.length := by
  have hl := h.tx_len
  refine ⟨?_, by omega⟩
  rcases hf : s.finSeq with _ | f
  · rfl
  · have := (h.finished f hf).2
    omega

/-- The bytes of the send buffer, where they lie in the stream. -/
theorem Sending.peek (h : Sending sent una s) (h1 : 1 ≤ una) (off n : Nat) :
    Carries sent (una + off) (s.tx.peek off n).data := by
  have hp : una + off - 1 = una - 1 + off := by omega
  rw [Carries, hp, ← List.drop_drop, ← h.bytes]
  exact List.take_prefix _ _

theorem SendSpace.reach_mono {k k' : Nat} (h : k ≤ k') : s.reach k una ≤ s.reach k' una := by
  unfold SendSpace.reach; split <;> omega

theorem Phase.synchronized (h : Phase st una fin) (hs : st.synchronized = true) : 1 ≤ una := by
  cases st <;> simp only [State.synchronized, Bool.false_eq_true] at hs <;>
    simp only [Phase] at h <;> omega

theorem Phase.closing (h : Phase st una fin) (a p : Bool) :
    Phase (Tcb.closingState st a p) una fin := by
  cases st <;> cases a <;> cases p <;> simp only [Phase] at h <;>
    simp only [Tcb.closingState, Phase, if_true, Bool.false_eq_true, if_false] <;>
    exact h

/-- The closing state the FIN enters, whatever the FIN's slot. -/
theorem Phase.finish (h : Phase st una fin) (hs : st.synchronized = true) (f : Option SeqNumber) :
    Phase (Tcb.finState st) una f ∧ Tcb.finState st ≠ .synSent := by
  cases st <;> simp only [State.synchronized, Bool.false_eq_true] at hs <;>
    simp only [Phase] at h <;> simp only [Tcb.finState, Phase] <;>
    first | exact ⟨h, by simp⟩ | exact ⟨h.1, by simp⟩

/-! ## Sending -/

/-- More in flight, with the same bytes and no FIN. -/
theorem Sending.advance (h : Sending sent una s) (hf : s.finSeq = none) {n : Nat}
    (hn : una + s.outstanding + n ≤ 1 + sent.length) :
    Sending sent una { s with sndNxt := s.sndNxt + n } ∧
      SendSpace.outstanding { s with sndNxt := s.sndNxt + n } = s.outstanding + n := by
  have hle := h.len_le
  have hout : SendSpace.outstanding { s with sndNxt := s.sndNxt + n } = s.outstanding + n := by
    change (s.sndNxt + n).offsetFrom s.sndUna = _
    rw [h.at_nxt, h.at_una, SeqNumber.add_add, SeqNumber.offsetFrom_pos_le _ (by omega) (by omega)]
    omega
  refine ⟨⟨h.at_una, h.bytes, h.capacity, h.opening, fun _ => ⟨?_, (h.opened hf).2⟩, ?_⟩, hout⟩
  · rw [hout]; omega
  · intro f hc
    exact absurd (hf.symm.trans hc) (by simp)

/-- The FIN goes out behind the last byte. -/
theorem Sending.finish (h : Sending sent una s) (h1 : 1 ≤ una) (ha : s.finAcked = false)
    (hn : s.sndNxt = s.sndUna + s.tx.len) :
    s.sndUna + s.tx.len = s.iss + (1 + sent.length) ∧ una + s.tx.len = 1 + sent.length ∧
      s.outstanding = s.tx.len ∧
      Sending sent una
        { s with finSeq := some (s.sndUna + s.tx.len), sndNxt := s.sndUna + s.tx.len + 1 } ∧
      SendSpace.outstanding
        { s with finSeq := some (s.sndUna + s.tx.len), sndNxt := s.sndUna + s.tx.len + 1 } =
        s.outstanding + 1 := by
  have hcap := h.len_le
  have hlen := h.tx_len
  have hout : s.outstanding = s.tx.len := by
    rw [SendSpace.outstanding, hn, SeqNumber.offsetFrom_add]
    omega
  have hnone : s.finSeq = none := by
    rcases hf : s.finSeq with _ | f
    · rfl
    · obtain ⟨-, -, h3, h4⟩ := h.finished f hf
      have : ¬ una = 2 + sent.length := fun he => by simp [h4.mpr he] at ha
      omega
  have hend : una + s.tx.len = 1 + sent.length := by
    have := (h.opened hnone).1
    omega
  have hseq : s.sndUna + s.tx.len = s.iss + (1 + sent.length) := by
    rw [h.at_una, SeqNumber.add_add, hend]
  have hout' : SendSpace.outstanding
      { s with finSeq := some (s.sndUna + s.tx.len), sndNxt := s.sndUna + s.tx.len + 1 } =
        s.outstanding + 1 := by
    change (s.sndUna + s.tx.len + 1).offsetFrom s.sndUna = _
    rw [SeqNumber.add_add, SeqNumber.offsetFrom_add]
    omega
  refine ⟨hseq, hend, hout, ⟨h.at_una, h.bytes, h.capacity, h.opening, by simp, ?_⟩, hout'⟩
  rintro f hf
  cases hf
  refine ⟨hseq, h1, by rw [hout']; omega, ?_⟩
  change s.finAcked = true ↔ _
  rw [ha]
  simp only [Bool.false_eq_true, false_iff]
  omega

/-- A connection that has not heard of its peer, or is closed, sends no segment. -/
theorem sends_open {c : Core} {seq : SeqNumber} {extra : TcpFlags} {payload : Bytes}
    (h : c.Sends seq extra payload s st) : c.state ≠ .closed ∧ c.state ≠ .synSent := by
  cases h <;> refine ⟨?_, ?_⟩ <;> intro hc <;>
    simp_all only [State.synchronized, Bool.false_eq_true, reduceCtorEq, not_true_eq_false,
      ne_eq]

/-- A FIN is in the send space once it has been sent. -/
theorem sends_fin {c : Core} {seq : SeqNumber} {extra : TcpFlags} {payload : Bytes}
    (h : c.Sends seq extra payload s st) :
    s.finSeq = c.finSeq ∨ extra.fin = true := by
  cases h with
  | fin => exact .inr rfl
  | _ => exact .inl rfl

/-- What a segment that may be sent says about its position and content, and
what sending it leaves behind. -/
structure SendsSpec (sent : List UInt8) (una : Nat) (c : Core) (pos : Nat) (extra : TcpFlags)
    (payload : Bytes) (s : SendSpace) (st : State) : Prop where
  sending : Sending sent una s
  phase : Phase st una s.finSeq
  iss : s.iss = c.iss
  una_eq : s.sndUna = c.sndUna
  nxt_le : c.toSendSpace.outstanding ≤ s.outstanding
  fin_eq : ∀ f, c.finSeq = some f → s.finSeq = some f
  stream : OfStream sent (s.finSeq.isSome) pos extra payload
  ends : pos + (payload.len + extra.syn.toNat + extra.fin.toNat) ≤ s.reach 0 una ∨
    (extra = {} ∧ payload.len = 1 ∧ pos = una ∧ 1 ≤ una)
  waiting : st = .synReceived → c.state = .synReceived
  learned : st ≠ .synSent

theorem sends_spec {c : Core} {seq : SeqNumber} {extra : TcpFlags} {payload : Bytes}
    (h : Sending sent una c.toSendSpace) (hp : Phase c.state una c.finSeq)
    (hs : c.Sends seq extra payload s st) :
    ∃ pos, seq = c.iss + pos ∧ una + seq.offsetFrom c.sndUna = pos ∧
      SendsSpec sent una c pos extra payload s st := by
  have hle := h.outstanding_le
  have hcap := h.len_le
  have hpos : ∀ d, d < 4294967296 → una + (c.sndUna + d).offsetFrom c.sndUna = una + d := by
    intro d hd
    rw [SeqNumber.offsetFrom_add, Nat.mod_eq_of_lt hd]
  have hsync : c.state.synchronized = true → c.state ≠ .synSent := by
    intro hs hc
    rw [hc] at hs
    simp [State.synchronized] at hs
  cases hs with
  | synAck hst hn =>
    have h0 : una = 0 := by rw [hst] at hp; exact hp
    have hnone := h.fin_none h0
    have hu : c.sndUna = c.iss := by have := h.at_una; rwa [h0, SeqNumber.add_zero] at this
    have hz : c.toSendSpace.outstanding = 0 := by
      rw [SendSpace.outstanding, hn, hu, SeqNumber.offsetFrom_self]
    have hadv := h.advance hnone (n := 1) (by omega)
    rw [hn] at hadv
    refine ⟨0, by simp, by rw [hu]; simp [h0], hadv.1, hp, rfl, rfl, by rw [hadv.2]; omega,
      fun f hf => hf, ⟨fun _ => ⟨rfl, rfl, rfl⟩, by simp⟩, ?_, id, by simp [hst]⟩
    rw [SendSpace.reach, if_pos h0]
    exact .inl (by simp)
  | synAckAgain hst hn =>
    have h0 : una = 0 := by rw [hst] at hp; exact hp
    have hu : c.sndUna = c.iss := by have := h.at_una; rwa [h0, SeqNumber.add_zero] at this
    refine ⟨0, by simp, by rw [hu]; simp [h0], h, hp, rfl, rfl, le_rfl,
      fun f hf => hf, ⟨fun _ => ⟨rfl, rfl, rfl⟩, by simp⟩, ?_, id, by simp [hst]⟩
    rw [SendSpace.reach, if_pos h0]
    exact .inl (by simp)
  | ack h1 h2 h3 h4 =>
    have hpos1 : 1 ≤ una + c.toSendSpace.outstanding := by
      rcases Nat.eq_zero_or_pos una with h0 | h0
      · have hst : c.state = .synReceived := by
          rcases hc : c.state <;> rw [hc] at hp h1 h2 h3 <;> simp only [Phase] at hp <;>
            first | rfl | contradiction | omega
        have hne := h4 hst
        have hu : c.sndUna = c.iss := by have := h.at_una; rwa [h0, SeqNumber.add_zero] at this
        rw [← hu, Ne, SeqNumber.eq_iff_offsetFrom] at hne
        change 1 ≤ una + c.sndNxt.offsetFrom c.sndUna
        omega
      · omega
    refine ⟨una + c.toSendSpace.outstanding, h.at_nxt, rfl, h, hp, rfl, rfl, le_rfl, fun f hf => hf,
      ⟨by simp, fun _ => ⟨hpos1, carries_nil _ _, by simp⟩⟩, ?_, id, h3⟩
    have := h.opening_le
    refine .inl ?_
    unfold SendSpace.reach
    split
    · simp; omega
    · simp
  | again off n psh hst hn hl hi =>
    have h1 := hp.synchronized hst
    have hi' : off + n ≤ c.toSendSpace.outstanding := hi
    have hl' := hsync hst
    refine ⟨una + off, by rw [h.at_una, SeqNumber.add_add], hpos off (by omega), h, hp, rfl, rfl,
      le_rfl, fun f hf => hf, ⟨by simp, fun _ => ⟨by omega, h.peek h1 off n, by simp⟩⟩, ?_,
      id, hl'⟩
    refine .inl ?_
    rw [SendSpace.reach, if_neg (by omega)]
    simp only [RingBuffer.peek_len, Bool.toNat_false]
    omega
  | data n psh hst hn hu hr =>
    have h1 := hp.synchronized hst
    have hu' : n ≤ c.tx.len - min c.toSendSpace.outstanding c.tx.len := hu
    obtain ⟨hnone, hend⟩ := h.unsent_open (by omega)
    obtain ⟨hadv, hout⟩ := h.advance hnone (n := n) (by omega)
    have hsd : c.sentData = c.toSendSpace.outstanding := by
      change min c.toSendSpace.outstanding c.tx.len = _
      omega
    have hl' := hsync hst
    refine ⟨una + c.toSendSpace.outstanding, h.at_nxt, rfl, hadv, hp, rfl, rfl, by rw [hout]; omega,
      fun f hf => hf, ⟨by simp, fun _ => ⟨by omega, ?_, by simp⟩⟩, ?_, id, hl'⟩
    · rw [hsd]; exact h.peek h1 _ _
    · refine .inl ?_
      rw [SendSpace.reach, if_neg (by omega), hout]
      simp only [RingBuffer.peek_len, Bool.toNat_false]
      omega
  | probe hst hi hr hu =>
    have h1 := hp.synchronized hst
    have hz : c.toSendSpace.outstanding = 0 := hi
    have hl' := hsync hst
    refine ⟨una, h.at_una, by rw [SeqNumber.offsetFrom_self, Nat.add_zero], h, hp, rfl, rfl, le_rfl,
      fun f hf => hf, ⟨by simp, fun _ => ⟨h1, h.peek h1 0 1, by simp⟩⟩, ?_,
      id, hl'⟩
    have hu' : 0 < c.tx.len - min c.toSendSpace.outstanding c.tx.len := hu
    refine .inr ⟨rfl, ?_, rfl, h1⟩
    simp only [RingBuffer.peek_len]
    omega
  | fin hst hq ha hn =>
    have h1 := hp.synchronized hst
    obtain ⟨hseq, hend, hout, hs', hout'⟩ := h.finish h1 ha hn
    have hl' := hsync hst
    refine ⟨1 + sent.length, hseq, ?_, hs', ?_, rfl, rfl, ?_, ?_, ?_, ?_, ?_, ?_⟩
    · have := hpos c.tx.len (by have := h.tx_len; omega)
      exact this.trans hend
    · exact (hp.finish hst _).1
    · exact (Nat.le_succ _).trans hout'.ge
    · intro f hf
      obtain ⟨-, -, h3, h4⟩ := h.finished f hf
      omega
    · exact ⟨by simp, fun _ => ⟨by omega, carries_nil _ _, fun _ => ⟨rfl, rfl⟩⟩⟩
    · rw [SendSpace.reach, if_neg (by omega)]
      refine .inl (Nat.le_trans ?_ (Nat.add_le_add_right (Nat.add_le_add_left hout'.ge una) 0))
      simp only [Bytes.empty_len, Bool.toNat_true, Bool.toNat_false]
      omega
    · intro hc
      rcases hcs : c.state <;> rw [hcs] at hc hst <;> simp [Tcb.finState] at hc hst
    · exact (hp.finish hst none).2
  | finAgain _ hst hf ha hu hi =>
    have h1 := hp.synchronized hst
    obtain ⟨hf1, -, hf3, -⟩ := h.finished seq hf
    have hi' : 0 < c.toSendSpace.outstanding := hi
    have hend : una = 1 + sent.length := by
      rw [hf1, h.at_una] at hu
      exact (SeqNumber.pos_eq _ (by omega) (by omega)).mp hu
    have hl' := hsync hst
    refine ⟨una, by rw [← hu]; exact h.at_una, by rw [← hu, SeqNumber.offsetFrom_self, Nat.add_zero],
      h, hp, rfl, rfl, le_rfl, fun f hf => hf, ⟨by simp, fun _ => ⟨h1, carries_nil _ _, fun _ =>
        ⟨by rw [hf]; rfl, by simp [hend]⟩⟩⟩, ?_, id, hl'⟩
    refine .inl ?_
    rw [SendSpace.reach, if_neg (by omega)]
    simp only [Bytes.empty_len, Bool.toNat_true, Bool.toNat_false]
    omega

/-! ## Acknowledgements -/

theorem Sending.offset_una (h : Sending sent una s) {a : Nat} (hle : una ≤ a)
    (hn : a ≤ una + s.outstanding) : (s.iss + a).offsetFrom s.sndUna = a - una := by
  have := h.outstanding_le
  rw [h.at_una]
  exact SeqNumber.offsetFrom_pos_le _ hle (by omega)

/-- An acknowledgement inside what is in flight takes its bytes out of the buffer. -/
theorem Sending.consume (h : Sending sent una s) {a : Nat} (hlt : una < a)
    (hle : a ≤ una + s.outstanding) : Sending sent a (s.consume (s.iss + a)) := by
  have ho := h.outstanding_le
  have hlen := h.tx_len
  have hempty : una = 0 → sent.length = 0 := fun h0 => by rw [h.opening h0]; rfl
  have hoff := h.offset_una hlt.le hle
  have hnxt : SendSpace.outstanding (s.consume (s.iss + a)) = una + s.outstanding - a := by
    change s.sndNxt.offsetFrom (s.iss + a) = _
    rw [h.at_nxt, SeqNumber.offsetFrom_pos_le _ hle (by omega)]
  refine ⟨rfl, ?_, h.capacity, by omega, fun hf => ?_, fun f hf => ?_⟩
  · change (s.tx.buf.drop (min ((s.iss + a).offsetFrom s.sndUna) s.tx.len)).data = _
    rw [hoff, Bytes.drop_data, h.bytes, List.drop_drop]
    rcases Nat.le_total (a - una) s.tx.len with hc | hc
    · rw [Nat.min_eq_left hc]
      rcases Nat.eq_zero_or_pos una with h0 | h0
      · rw [h.opening h0, List.drop_nil, List.drop_nil]
      · congr 1; omega
    · rw [Nat.min_eq_right hc, List.drop_eq_nil_of_le (by omega), List.drop_eq_nil_of_le (by omega)]
  · have hf' : s.finSeq = none := hf
    obtain ⟨h1, h2⟩ := h.opened hf'
    refine ⟨by rw [hnxt]; omega, ?_⟩
    simp only [SendSpace.consume, hf']
    exact h2
  · have hf' : s.finSeq = some f := hf
    obtain ⟨h1, h2, h3, h4⟩ := h.finished f hf'
    refine ⟨h1, by omega, by rw [hnxt]; omega, ?_⟩
    simp only [SendSpace.consume, hf']
    rw [h1, SeqNumber.pos_gt _ (by omega) (by omega), Bool.or_eq_true, h4, decide_eq_true_eq]
    omega

/-- The acknowledgement of our SYN: nothing but it was in flight. -/
theorem Sending.synAcked (h : Sending sent 0 s) {ack : SeqNumber} (ha : ack = s.iss + 1)
    (h1 : 1 ≤ s.outstanding) : Sending sent 1 { s with sndUna := ack } := by
  have ho := h.opening_le rfl
  have hnone := h.fin_none rfl
  have hnxt : SendSpace.outstanding { s with sndUna := ack } = 0 := by
    change s.sndNxt.offsetFrom ack = 0
    rw [ha, h.at_nxt, SeqNumber.offsetFrom_pos_le _ (by omega) (by omega)]
    omega
  refine ⟨ha, ?_, h.capacity, by simp, fun hf => ⟨?_, (h.opened hf).2⟩, ?_⟩
  · change s.tx.buf.data = _
    rw [h.bytes]
  · rw [hnxt]; omega
  · intro f hf
    exact absurd (hnone.symm.trans hf) (by simp)

/-- A valid acknowledgement, not older than half the space, moves `SND.UNA` to
its position, if that is forward. -/
theorem acked_sending {c : Core} {tcp : TcpPacket} {ack : Nat} (h : Sending sent una c.toSendSpace)
    (hp : Phase c.state una c.finSeq) (hns : c.state ≠ .synSent) (ha : tcp.ack = c.iss + ack)
    (hold : una + c.toSendSpace.outstanding ≤ ack + 2147483648)
    (hnear : ack ≤ una + c.toSendSpace.outstanding + 1073741824) (hv : c.validAck tcp = true) :
    ack ≤ una + c.toSendSpace.outstanding ∧ Sending sent (max una ack) (c.ackedSend tcp) ∧
      Phase c.ackedState (max una ack) c.finSeq ∧ (c.ackedSend tcp).iss = c.iss ∧
      (c.ackedSend tcp).finSeq = c.finSeq ∧
      (c.ackedSend tcp).sndUna = c.iss + max una ack ∧
      (c.ackedSend tcp).sndNxt = c.sndNxt := by
  have ho := h.outstanding_le
  have hgu : tcp.ack.gt c.sndUna = decide (una < ack) := by
    rw [ha, h.at_una]; exact SeqNumber.pos_gt _ (by omega) (by omega)
  have hgn : tcp.ack.gt c.sndNxt = decide (una + c.toSendSpace.outstanding < ack) := by
    rw [ha, h.at_nxt]; exact SeqNumber.pos_gt _ (by omega) (by omega)
  simp only [Core.validAck, SeqNumber.le_eq, hgu, hgn] at hv
  rw [Core.ackedSend, Core.ackedState]
  by_cases hst : c.state = .synReceived
  · rw [if_pos hst] at hv ⊢
    rw [if_pos hst]
    simp only [Bool.and_eq_true, decide_eq_true_eq, Bool.not_eq_true', decide_eq_false_iff_not] at hv
    have h0 : una = 0 := by rw [hst] at hp; exact hp
    have h1 := h.opening_le h0
    have hack : ack = 1 := by omega
    have hnone := h.fin_none h0
    subst h0 hack
    exact ⟨by omega, h.synAcked ha (by omega), ⟨le_rfl, hnone⟩, rfl, rfl, ha, rfl⟩
  · rw [if_neg hst] at hv ⊢
    rw [if_neg hst, hgu]
    simp only [Bool.not_eq_true', decide_eq_false_iff_not] at hv
    have hph : Phase c.state (max una ack) c.finSeq := by
      rcases hc : c.state <;> rw [hc] at hp hst hns <;> simp only [Phase] at hp ⊢ <;>
        first | contradiction | omega | exact ⟨by omega, hp.2⟩
    by_cases hlt : una < ack
    · rw [Nat.max_eq_right hlt.le] at hph ⊢
      simp only [hlt, decide_true, if_true, ha]
      exact ⟨by omega, h.consume hlt (by omega), hph, rfl, rfl, rfl, rfl⟩
    · rw [Nat.max_eq_left (by omega)] at hph ⊢
      simp only [hlt, decide_false, Bool.false_eq_true, if_false]
      exact ⟨by omega, h, hph, trivial, trivial, h.at_una, trivial⟩

end Ferrumnet
