import Ferrumnet.Feed

/-
  What a consumed FIN means to the receive side.

  Steps 7 and 7b of `on_segment` consume no second FIN, but step 6 does not ask
  whether the stream has ended.

  1. `Finished.input` — one call leaves `RCV.NXT` where it is exactly if it is
     not a segment with an octet at `RCV.NXT` that the ring has room for.
  2. `fin_final` — the same of every run.
  3. `data_after_fin` — such a segment takes the end of the stream back.
-/

namespace Ferrumnet

namespace Host

variable {κ : Type} [CongestionControl κ] {r r' : Host κ}

/-- A segment is taken with an octet at `RCV.NXT`, and the ring has room for it. -/
def Extends (r : Host κ) : Input → Prop
  | .segment seg now ce =>
    r.Takes (.segment seg now ce) ∧ r.tcb.toRecvSpace.InOrder seg.tcp ∧ 0 < r.tcb.rx.free
  | _ => False

instance : ∀ i, Decidable (r.Extends i)
  | .segment _ _ _ => inferInstanceAs (Decidable (_ ∧ _ ∧ _))
  | .send _ | .recv _ | .close | .timer _ | .poll _ => isFalse id

/-- The stream has gained nothing, and its end is still its end. -/
structure Still (r r' : Host κ) : Prop where
  nxt : r'.tcb.rcvNxt = r.tcb.rcvNxt
  ring : ∃ n, r'.tcb.rx.buf = r.tcb.rx.buf.drop n
  eof : r.tcb.recvEof = true → r'.tcb.recvEof = true

/-- A host that has consumed the peer's FIN. -/
structure Finished (r : Host κ) : Prop where
  sound : r.Sound
  seen : r.tcb.peerFinSeen = true

omit [CongestionControl κ] in
theorem Finished.ring (h : r.Finished) : r.Ring := by
  refine h.sound.ring.resolve_left fun hu => ?_
  have := h.seen
  rw [hu.recv] at this
  cases this

omit [CongestionControl κ] in
/-- A ring that has only been read from is empty if it was. -/
theorem still_of_drop {n : Nat} (hnxt : r'.tcb.rcvNxt = r.tcb.rcvNxt)
    (hring : r'.tcb.rx.buf = r.tcb.rx.buf.drop n) (hseen : r'.tcb.peerFinSeen = r.tcb.peerFinSeen) :
    r.Still r' := by
  refine ⟨hnxt, ⟨n, hring⟩, fun he => ?_⟩
  simp only [Tcb.recvEof, Bool.and_eq_true, RingBuffer.isEmpty, Bytes.isEmpty_iff] at he ⊢
  rw [hseen, hring, Bytes.drop_len]
  exact ⟨he.1, by omega⟩

omit [CongestionControl κ] in
theorem Still.refl (r : Host κ) : r.Still r :=
  still_of_drop (n := 0) rfl (by ext1; simp) rfl

omit [CongestionControl κ] in
theorem Still.trans {r'' : Host κ} (h : r.Still r') (h' : r'.Still r'') : r.Still r'' := by
  obtain ⟨n, hn⟩ := h.ring
  obtain ⟨m, hm⟩ := h'.ring
  refine ⟨h'.nxt.trans h.nxt, ⟨n + m, ?_⟩, fun he => h'.eof (h.eof he)⟩
  rw [hm, hn]
  ext1
  rw [Bytes.drop_data, Bytes.drop_data, Bytes.drop_data, List.drop_drop]

/-- One call, past the FIN. -/
theorem Finished.input (h : r.Finished) (i : Input) :
    (r.input i).1.Finished ∧ (¬ r.Extends i → r.Still (r.input i).1) ∧
      (r.Extends i → (r.input i).1.tcb.rcvNxt ≠ r.tcb.rcvNxt) := by
  have hring := h.ring
  have hsound := h.sound.input i
  have hp := input_passes h.sound.ok hring.state i
  generalize (r.input i).1 = r' at hsound hp ⊢
  obtain ⟨hrec, -, -, -, -⟩ := hp
  -- whatever only reads from the ring changes nothing else
  have hquiet : ∀ n, ¬ r.Extends i → r'.tcb.rcvNxt = r.tcb.rcvNxt →
      r'.tcb.rx.buf = r.tcb.rx.buf.drop n → r'.tcb.peerFinSeen = r.tcb.peerFinSeen →
      r'.Finished ∧ (¬ r.Extends i → r.Still r') ∧
        (r.Extends i → r'.tcb.rcvNxt ≠ r.tcb.rcvNxt) := by
    intro n hno h1 h2 h3
    exact ⟨⟨hsound, h3.trans h.seen⟩, fun _ => still_of_drop h1 h2 h3, fun he => absurd he hno⟩
  have hdrop : r.tcb.rx.buf = r.tcb.rx.buf.drop 0 := by ext1; simp
  obtain ⟨v, hv⟩ : ∃ v, r'.tcb.toRecvSpace = v := ⟨_, rfl⟩
  rw [hv] at hrec
  cases hrec with
  | kept _ hno =>
    refine hquiet 0 (fun he => hno ?_) (by rw [hv]) (by rw [hv]; exact hdrop) (by rw [hv])
    cases i with
    | segment seg now ce => exact he.1
    | _ => exact he.elim
  | read n => exact hquiet n id (by rw [hv]) (by rw [hv]; rfl) (by rw [hv])
  | advertised now => exact hquiet 0 id (by rw [hv]; rfl) (by rw [hv]; exact hdrop) (by rw [hv]; rfl)
  | taken seg now ce hadm hvalid =>
    obtain ⟨k, f, hs, hin, hno, hsame, honce, -, -⟩ :=
      r.tcb.toRecvSpace.text_shift r.tcb.sackEnabled seg.tcp
    rw [← hv] at hs hsame honce
    -- the FIN is not consumed twice
    have hf : f = 0 := by
      by_contra hne
      have := (honce hne).2.1
      rw [h.seen] at this
      cases this
    subst hf
    have hseen : r'.tcb.peerFinSeen = r.tcb.peerFinSeen := hsame rfl
    refine ⟨⟨hsound, hseen.trans h.seen⟩, fun hext => ?_, fun hext hstill => ?_⟩
    · -- without one, `k` is zero
      have hk : k = 0 := by
        by_cases hord : r.tcb.toRecvSpace.InOrder seg.tcp
        · have hfree : r.tcb.rx.free = 0 := by
            by_contra hne
            refine hext ⟨?_, hord, Nat.pos_of_ne_zero hne⟩
            simp only [Takes, hadm, hvalid, Bool.and_self]
          have h1 : r'.tcb.rx.len = r.tcb.rx.len + k := hs.len
          have h2 := r'.tcb.rx.len_le
          have h3 : r'.tcb.rx.capacity = r.tcb.rx.capacity := hs.cap
          have h4 : r.tcb.rx.capacity - r.tcb.rx.len = 0 := hfree
          omega
        · exact hno hord
      subst hk
      have hnxt : r'.tcb.rcvNxt = r.tcb.rcvNxt := by
        have := hs.nxt
        rwa [Nat.zero_add, SeqNumber.add_zero] at this
      obtain ⟨d, hd, hlen⟩ := hs.rx
      have hbuf : r'.tcb.rx.buf = r.tcb.rx.buf.drop 0 := by
        ext1
        rw [Bytes.drop_data, List.drop_zero, show r'.tcb.rx.buf.data = _ from hd,
          Bytes.data_eq_nil.mpr hlen, List.append_nil]
      exact still_of_drop hnxt hbuf hseen
    · -- an octet with room for it moves `RCV.NXT`
      have hk := hin hext.2.1
      have hlen := hext.2.1.2
      have hfree := hext.2.2
      have hnxt : r'.tcb.rcvNxt = r.tcb.rcvNxt + k := hs.nxt
      have hcap : r'.tcb.rx.len ≤ 262144 := by
        have := r'.tcb.rx.len_le
        rw [hs.cap, hring.cap] at this
        exact this
      have hkl : r'.tcb.rx.len = r.tcb.rx.len + k := hs.len
      have hpos : 0 < min (r.tcb.toRecvSpace.leftTrim seg.tcp.seq seg.tcp.payload).2.len
          r.tcb.rx.free := Nat.lt_min.mpr ⟨hlen, hfree⟩
      refine SeqNumber.add_ne_self (s := r.tcb.rcvNxt) (n := k) ?_ (hnxt.symm.trans hstill)
      omega

/-- The peer's FIN is final for exactly as long as no such segment comes. -/
theorem Finished.still_iff (h : r.Finished) (is : List Input) :
    (∀ pre r', pre <+: is → Run.run step r pre = some r' → r.Still r') ↔
      Run.Along step (fun r i => ¬ r.Extends i) r is := by
  constructor
  · -- the first such segment would move `RCV.NXT`
    intro hall
    have hnxt : ∀ pre r', pre <+: is → Run.run step r pre = some r' →
        r'.tcb.rcvNxt = r.tcb.rcvNxt := fun pre r' hp hr => (hall pre r' hp hr).nxt
    clear hall
    induction is generalizing r with
    | nil => trivial
    | cons i is ih =>
      obtain ⟨hfin, -, hmoves⟩ := h.input i
      have hone : (r.input i).1.tcb.rcvNxt = r.tcb.rcvNxt := hnxt [i] _ (by simp) rfl
      refine ⟨fun he => hmoves he hone, fun s hs => ?_⟩
      cases hs
      refine ih hfin fun pre r' hp hr => ?_
      rw [hone]
      exact hnxt (i :: pre) r' (List.cons_prefix_cons.mpr ⟨rfl, hp⟩) hr
  · rintro hal pre r' ⟨rest, rfl⟩ hr
    have hinv : r'.Finished ∧ r.Still r' := by
      refine Run.run_invariant_along (I := fun s => s.Finished ∧ r.Still s)
        (fun s i s' hs hno he => ?_) ⟨h, .refl r⟩ (Run.along_append.mp hal).1 hr
      cases he
      obtain ⟨hfin, hstill, -⟩ := hs.1.input i
      exact ⟨hfin, hs.2.trans (hstill hno)⟩
    exact hinv.2

/-- In every state reached after the FIN was consumed, `RCV.NXT` and the end of
the stream are what they were, if and only if no segment was taken with an octet
at `RCV.NXT` that the ring had room for. -/
theorem fin_final {r₀ : Host κ} {before after : List Input} (h0 : r₀.Opens)
    (hb : Run.run step r₀ before = some r) (hfin : r.tcb.peerFinSeen = true) :
    (∀ is r', is <+: after → Run.run step r is = some r' → r.Still r') ↔
      Run.Along step (fun r i => ¬ r.Extends i) r after :=
  Finished.still_iff ⟨sound_run h0.sound hb, hfin⟩ after

/-- A segment of the peer with its FIN. -/
def finAt (seq : Nat) : Input :=
  .segment ⟨peerSegment seq { fin := true } Bytes.empty, by simp [peerSegment]⟩ ⟨0⟩ false

/-- A FIN, and then another FIN and a timer. -/
theorem fin_final_accepted :
    ∃ r r' : Host Reno, Run.run step accepted (settled ++ [finAt 5001]) = some r ∧
      Run.run step r [finAt 5001, .timer ⟨0⟩] = some r' ∧ r.Still r' := by
  obtain ⟨r, hb, hfin, hal, hend⟩ := Run.exists_run step accepted (settled ++ [finAt 5001])
    (fun r => r.tcb.peerFinSeen = true ∧
      Run.Along step (fun r i => ¬ r.Extends i) r [finAt 5001, .timer ⟨0⟩] ∧
      (Run.run step r [finAt 5001, .timer ⟨0⟩]).isSome = true) (by decide +kernel)
  obtain ⟨r', hr⟩ := Option.isSome_iff_exists.mp hend
  exact ⟨r, r', hb, hr, (fin_final accepted_opens hb hfin).mpr hal _ _ List.prefix_rfl hr⟩

/-! ## Data after the FIN -/

/-- An octet of the peer after its FIN. -/
def octetAt (seq : Nat) : Input :=
  .segment ⟨peerSegment seq {} (Bytes.ofList [7]), by simp [peerSegment]⟩ ⟨0⟩ false

/-- The FIN is consumed and the end of the stream seen; then an octet after the
FIN is taken, `RCV.NXT` moves, and the application is no longer at the end. -/
theorem data_after_fin :
    ∃ r r' : Host Reno, Run.run step accepted (settled ++ [finAt 5001]) = some r ∧
      r.tcb.peerFinSeen = true ∧ r.tcb.recvEof = true ∧
      Run.run step r [octetAt 5002] = some r' ∧
      r'.tcb.rcvNxt ≠ r.tcb.rcvNxt ∧ r'.tcb.rx.len = 1 ∧ r'.tcb.recvEof = false := by
  obtain ⟨r, hb, hfin, heof, hnext⟩ := Run.exists_run step accepted (settled ++ [finAt 5001])
    (fun r => r.tcb.peerFinSeen = true ∧ r.tcb.recvEof = true ∧
      (Run.run step r [octetAt 5002]).any (fun r' => decide (r'.tcb.rcvNxt ≠ r.tcb.rcvNxt ∧
        r'.tcb.rx.len = 1 ∧ r'.tcb.recvEof = false)) = true) (by decide +kernel)
  obtain ⟨r', hr, hd⟩ := Run.exists_run step r [octetAt 5002] _ hnext
  exact ⟨r, r', hb, hfin, heof, hr, hd⟩

end Host

end Ferrumnet
