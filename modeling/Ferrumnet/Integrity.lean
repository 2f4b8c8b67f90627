import Ferrumnet.Joint

/-
  Stream integrity over an unreliable network.

  `stream_integrity` — for any two endpoints and any interleaving of the
  application, the timers and a network that drops, duplicates, delays and
  reorders: what one side has been handed out is a prefix of what the other side
  was given, and the end of the stream is reported only behind the peer's FIN
  and the whole of that stream.
-/

namespace Ferrumnet

namespace Host

variable {κ : Type} {s r : Host κ} {p : Packet}

/-- Any slack of one octet covers everything on the wire. -/
theorem within_one (h : p.dgram.repr.flags.rst = false → s.Carried p) : s.Within 1 r p := by
  intro ha
  obtain ⟨hrst, hsyn, -⟩ := admits_flags ha
  have hc := h hrst
  have he := hc.ends_one (.inl (hc.stream.text hsyn).1)
  refine .inl (Nat.le_trans ?_ he)
  simp only [TcpPacket.segLen, Datagram.parse]
  omega

theorem Linked.rcv_le {k : Nat} (h : s.Linked k r) : r.rcv ≤ 2 + s.sent.length := by
  rcases h with ⟨h, -⟩ | h
  · have := h.rcv
    omega
  · rcases hf : r.tcb.peerFinSeen with _ | _
    · have := (h.received.opened hf).1
      omega
    · exact (h.received.closed hf).2.1.le

/-- With fewer than 2^31 bytes on both streams no packet is ever too late. -/
theorem fresh_of_short {k : Nat} (hr : r.Ok) (hl : s.Linked k r)
    (h : p.dgram.repr.flags.rst = false → s.Carried p) (hs : s.sent.length < 2147483648)
    (hr' : r.sent.length < 2147483648) : r.Fresh p := by
  intro hsyn hrst
  have hc := h hrst
  have h1 := (hc.stream.text hsyn).1
  have h2 := (hc.ack (hc.acks hsyn)).1
  have h3 := hl.rcv_le
  have h4 : r.nxt ≤ 2 + r.sent.length := hr.sending.nxt_le
  exact ⟨by omega, by omega⟩

end Host

namespace World

variable {κ : Type} [CongestionControl κ] {w w' : World κ}

/-- Fewer than 2^31 bytes in each direction. -/
def Short (w : World κ) : Prop := ∀ x, (w.sent x).length < 2147483648

omit [CongestionControl κ] in
theorem sent_eq {x : Side} {h : Host κ} (hx : w.host x = some h) : w.sent x = h.sent := by
  rw [sent, hx]; rfl

omit [CongestionControl κ] in
/-- Replacing a host by one that was given at least as much. -/
theorem sent_setHost {x : Side} {h : Host κ} {o : Option Packet} (hp : w.sent x <+: h.sent)
    (y : Side) : w.sent y <+: ((w.setHost x h).transmit x o).sent y := by
  rcases Side.eq_or_other x y with rfl | rfl
  · simpa [sent] using hp
  · simp [sent]

/-- What was accepted from the application stays accepted. -/
theorem sent_mono {act : Action} (h : w.apply act = some w') (y : Side) :
    w.sent y <+: w'.sent y := by
  have hkeep : ∀ (x : Side) (r r' : Host κ) (o : Option Packet), w.host x = some r →
      r.sent <+: r'.sent → w.sent y <+: ((w.setHost x r').transmit x o).sent y := by
    intro x r r' o hx hp
    exact sent_setHost (by rw [sent_eq hx]; exact hp) y
  have hnew : ∀ (x : Side) (r : Host κ), w.host x = none → w.sent y <+: (w.setHost x r).sent y := by
    intro x r hx
    have := sent_setHost (w := w) (x := x) (h := r) (o := none) (by simp [sent, hx]) y
    rwa [transmit_none] at this
  cases act with
  | connect x loc remote iss now mss kind =>
    simp only [apply] at h
    split at h
    · cases h
    · cases h; exact hnew _ _ (by assumption)
  | accept x i offered iss now mss kind =>
    simp only [apply] at h
    split at h
    · split at h
      · cases h; exact hnew _ _ (by assumption)
      · cases h
    · cases h
  | send x data =>
    simp only [apply] at h
    split at h
    · rename_i r hx
      cases h
      have := hkeep x r { r.follow (r.tcb.send data).1 with
        sent := r.sent ++ data.data.take (r.tcb.send data).2 } none hx (List.prefix_append _ _)
      rwa [transmit_none] at this
    · cases h
  | recv x n =>
    simp only [apply] at h
    split at h
    · rename_i r hx
      cases h
      have := hkeep x r { r.follow (r.tcb.recv n).1 with got := r.got ++ (r.tcb.recv n).2.data } none
        hx List.prefix_rfl
      rwa [transmit_none] at this
    · cases h
  | close x =>
    simp only [apply] at h
    split at h
    · rename_i r hx
      cases h
      have := hkeep x r (r.follow r.tcb.close) none hx List.prefix_rfl
      rwa [transmit_none] at this
    · cases h
  | timer x now =>
    simp only [apply] at h
    split at h
    · rename_i r hx
      cases h
      have := hkeep x r (r.follow (r.tcb.onTimer now)) none hx List.prefix_rfl
      rwa [transmit_none] at this
    · cases h
  | poll x now =>
    simp only [apply] at h
    split at h
    · rename_i r hx
      cases h
      exact hkeep x r _ _ hx List.prefix_rfl
    · cases h
  | deliver x i now ce =>
    simp only [apply] at h
    split at h
    · rename_i r p hx hp
      cases h
      have := hkeep x r (r.follow (r.tcb.onSegment now p.dgram.parse ce)) none hx List.prefix_rfl
      rwa [transmit_none] at this
    · cases h

omit [CongestionControl κ] in
/-- While the streams are short, every step is timely. -/
theorem timely_of_short (hi : Inv 1 w) (hs : w.Short) (act : Action) : Timely 1 w act := by
  cases act with
  | deliver x i now ce =>
    intro r hx s ho p hp
    have hc := hi.carried _ _ ho p (List.mem_of_getElem? hp)
    have hl : s.Linked 1 r := hi.linked _ _ _ ho (by rw [Side.other_other]; exact hx)
    refine ⟨Host.fresh_of_short (hi.ok _ _ hx) hl hc ?_ ?_, Host.within_one hc⟩
    · rw [← sent_eq ho]; exact hs _
    · rw [← sent_eq hx]; exact hs _
  | _ => exact trivial

/-- The invariant along any run that ends with short streams. -/
theorem inv_of_short {acts : List Action} (h : Run.run apply init acts = some w) :
    w.Short → Inv 1 w := by
  refine Run.run_invariant (I := fun w : World κ => w.Short → Inv 1 w) ?_ (fun _ => inv_init) h
  intro u act u' hi hstep hs
  have hs' : u.Short := fun x => Nat.lt_of_le_of_lt (sent_mono hstep x).length_le (hs x)
  exact inv_step le_rfl (hi hs') (timely_of_short (hi hs') hs' act) hstep

omit [CongestionControl κ] in
/-- Integrity of one direction, from the invariant. -/
theorem Inv.integrity (hi : Inv 1 w) (x : Side) :
    w.got x <+: w.sent x.other ∧
      (w.eof x = true → w.finEmitted x.other = true ∧ w.got x = w.sent x.other) := by
  rcases hx : w.host x with _ | r
  · simp [got, eof, hx]
  have hgot : w.got x = r.got := by rw [got, hx]; rfl
  have heof : w.eof x = r.tcb.recvEof := by rw [eof, hx]; rfl
  rw [hgot, heof]
  have hun : r.Unlearned → r.got <+: w.sent x.other ∧ ¬ r.tcb.recvEof = true := by
    intro hun
    rw [hun.got, Tcb.recvEof, hun.recv]
    exact ⟨List.nil_prefix, by simp [Tcb.freshRecv]⟩
  rcases ho : w.host x.other with _ | s
  · obtain ⟨h1, h2⟩ := hun (hi.alone _ _ hx ho).1
    exact ⟨h1, fun h => absurd h h2⟩
  · rw [sent_eq ho]
    rcases hi.linked x.other s r ho (by rw [Side.other_other]; exact hx) with ⟨hu, -⟩ | hl
    · obtain ⟨h1, h2⟩ := hun hu
      rw [sent_eq ho] at h1
      exact ⟨h1, fun h => absurd h h2⟩
    · refine ⟨hl.received.got_prefix, fun he => ?_⟩
      simp only [Tcb.recvEof, Bool.and_eq_true] at he
      obtain ⟨hfin, -, hall⟩ := hl.received.closed he.1
      obtain ⟨p, hp, hpf⟩ := hi.finOut _ _ ho hfin
      refine ⟨List.any_eq_true.mpr ⟨p, hp, hpf⟩, ?_⟩
      have hempty : r.tcb.rx.buf.data = [] := Bytes.data_eq_nil.mpr (Bytes.isEmpty_iff.mp he.2)
      rwa [hempty, List.append_nil] at hall

/-- Stream integrity, at the end of every run and so at every moment of it. -/
theorem stream_integrity {acts : List Action} (hrun : Run.run apply (init : World κ) acts = some w)
    (hshort : w.Short) (x : Side) :
    w.got x <+: w.sent x.other ∧
      (w.eof x = true → w.finEmitted x.other = true ∧ w.got x = w.sent x.other) :=
  (inv_of_short hrun hshort).integrity x

/-- Three bytes and a FIN, of which the FIN arrives first. -/
def exchange : List Action :=
  handshake ++ [.send .a (Bytes.ofList [1, 2, 3]), .close .a, .poll .a ⟨0⟩, .poll .a ⟨0⟩,
    .deliver .b 3 ⟨0⟩ false, .deliver .b 2 ⟨0⟩ false, .recv .b 10]

theorem stream_integrity_exchange :
    ∃ w : World Reno, Run.run apply init exchange = some w ∧ w.eof .b = true ∧
      w.finEmitted .a = true ∧ w.got .b = w.sent .a := by
  obtain ⟨w, hrun, ha, hb, heof⟩ := Run.exists_run apply (init : World Reno) exchange
    (fun w => (w.sent .a).length < 2147483648 ∧ (w.sent .b).length < 2147483648 ∧ w.eof .b = true)
    (by decide +kernel)
  have hshort : w.Short := by rintro (_ | _) <;> assumption
  exact ⟨w, hrun, heof, (stream_integrity hrun hshort .b).2 heof⟩

end World

end Ferrumnet
