import Ferrumnet.Feed

/-
  The send side of a connection, in its own numbers.

  Four paths read the send buffer: new data, the go-back-N resend, the SACK
  resend and the window probe. Each indexes it by its own offset; `Sends` has them
  as one relation and `sends_spec` says where each lies in the stream.

  1. `Ok.sendSide` — the two sequence numbers, the buffer and the FIN.
  2. `Ok.emits` — what a datagram carries.
  3. `send_side` — both, of every run.
-/

namespace Ferrumnet

namespace Host

variable {κ : Type} {r : Host κ}

/-- Our FIN is out and not acknowledged. -/
def finOut (t : Tcb κ) : Nat := if t.finSeq.isSome && !t.finAcked then 1 else 0

/-- Past the handshake, closed connections included if they got that far. -/
structure PastHandshake (t : Tcb κ) : Prop where
  sent : t.state ≠ .synSent
  received : t.state ≠ .synReceived
  closed : t.state = .closed → t.sndUna ≠ t.iss

/-- The send space of a host: `una` is the position of `SND.UNA`, and byte `k` of
`sent` is the one at `ISS + 1 + k`. -/
structure SendSide (r : Host κ) : Prop where
  at_una : 1 ≤ r.una ∧ r.tcb.sndUna = r.tcb.iss + r.una
  ordered : r.tcb.sndUna.le r.tcb.sndNxt = true
  within : r.tcb.inflight ≤ r.tcb.tx.len + finOut r.tcb
  fin : finOut r.tcb = 1 → r.tcb.finSeq = some (r.tcb.sndUna + r.tcb.tx.len) ∧
    r.tcb.sndNxt = r.tcb.sndUna + r.tcb.tx.len + 1
  bytes : ∀ j, r.tcb.tx.buf.data[j]? = r.sent[r.una - 1 + j]?

theorem PastHandshake.una_pos (hp : PastHandshake r.tcb) (hok : r.Ok) : 1 ≤ r.una := by
  rcases Nat.eq_zero_or_pos r.una with h0 | h0
  · have hat := hok.sending.at_una
    have hph := hok.phase
    rw [h0] at hat hph
    rw [SeqNumber.add_zero] at hat
    rcases hst : r.tcb.state <;> rw [hst] at hph <;> simp only [Phase] at hph
    · exact absurd hat (hp.closed hst)
    · exact absurd hst hp.sent
    · exact absurd hst hp.received
    all_goals omega
  · exact h0

/-- What is in flight is data of the buffer, and the FIN behind it. -/
theorem Ok.sendSide (hok : r.Ok) (hp : PastHandshake r.tcb) : r.SendSide := by
  have hs := hok.sending
  have hpos := hp.una_pos hok
  have hlen := hs.tx_len
  have hout := hs.outstanding_le
  have hbytes : ∀ j, r.tcb.tx.buf.data[j]? = r.sent[r.una - 1 + j]? := by
    intro j
    rw [hs.bytes, List.getElem?_drop]
  refine ⟨⟨hpos, hs.at_una⟩, ?_, ?_, fun hfin => ?_, hbytes⟩
  · rw [hs.at_una, hs.at_nxt, SeqNumber.pos_le _ (by omega) (by omega), decide_eq_true_eq]
    omega
  · change r.tcb.toSendSpace.outstanding ≤ _
    rcases hf : r.tcb.finSeq with _ | f
    · have := (hs.opened hf).1
      omega
    · obtain ⟨-, -, hend, hacked⟩ := hs.finished f hf
      cases ha : r.tcb.finAcked
      · have hone : finOut r.tcb = 1 := by simp [finOut, hf, ha]
        omega
      · have := hacked.mp ha
        omega
  · -- nothing lies between the last byte and the FIN
    have hflags : r.tcb.finSeq.isSome = true ∧ r.tcb.finAcked = false := by
      by_contra hne
      simp only [finOut, Bool.and_eq_true, Bool.not_eq_true', hne, if_false] at hfin
      exact absurd hfin (by omega)
    obtain ⟨f, hf⟩ := Option.isSome_iff_exists.mp hflags.1
    obtain ⟨hseq, -, hend, hacked⟩ := hs.finished f hf
    have hne : r.una ≠ 2 + r.sent.length := fun he => by
      rw [hacked.mpr he] at hflags
      exact absurd hflags.2 (by simp)
    have hat : r.tcb.sndUna + r.tcb.tx.len = f := by
      rw [hs.at_una, SeqNumber.add_add, hseq]
      congr 1
      omega
    refine ⟨by rw [hat]; exact hf, ?_⟩
    rw [hat, hs.at_nxt, hseq, SeqNumber.add_add]
    congr 1
    omega

/-- A datagram that carries text carries the stream at its own number. -/
structure Text (r : Host κ) (d : Datagram) (pos : Nat) : Prop where
  seq : d.repr.seq = r.tcb.iss + pos
  from_una : r.una ≤ pos
  written : pos + d.payload.len ≤ 1 + r.sent.length
  bytes : d.payload.data = (r.sent.drop (pos - 1)).take d.payload.len

variable [CongestionControl κ]

theorem Ok.emits (hok : r.Ok) {i : Input} {d : Datagram} (hd : (r.input i).2 = some d)
    (hlen : 0 < d.payload.len) : ∃ pos, 1 ≤ pos ∧ r.Text d pos := by
  cases i with
  | segment | send | recv | close | timer => cases hd
  | poll now =>
    have hp := hok.polls now
    change (r.tcb.pollTransmit now).2 = some d at hd
    rw [hd] at hp
    generalize (r.tcb.pollTransmit now).1 = t at hp
    cases hp with
    | rst => exact absurd hlen (by simp [Tcb.buildRst, buildSegment])
    | syn => exact absurd hlen (by simp [Tcb.buildSyn, buildSegment])
    | segment t₀ h0 _ hs hc =>
      obtain ⟨hseq, -, hpay, -, -, -, -⟩ := t₀.build_spec _ _ _
      rw [hpay] at hlen
      obtain ⟨pos, hat, hoff, hspec⟩ := sends_spec (c := r.tcb.core) hok.sending hok.phase hs
      have hnosyn : ∀ {extra : TcpFlags} {payload : Bytes} {fin : Prop},
          OfStream r.sent fin pos extra payload → 0 < payload.len →
            1 ≤ pos ∧ Carries r.sent pos payload.data := by
        intro extra payload fin hof hpos
        cases hsyn : extra.syn
        · exact ⟨(hof.text hsyn).1, (hof.text hsyn).2.1⟩
        · have := (hof.syn hsyn).2.1
          omega
      obtain ⟨hpos, hcar⟩ := hnosyn hspec.stream hlen
      have hle := hcar.length (by rw [Bytes.length_data]; exact hlen)
      rw [Bytes.length_data] at hle
      refine ⟨pos, hpos, ⟨by rw [hseq]; exact hat, by omega, by rw [hpay]; omega, ?_⟩⟩
      rw [hpay]
      have htake := List.prefix_iff_eq_take.mp hcar
      rwa [Bytes.length_data] at htake

/-- Past the handshake, the send buffer holds the stream from `SND.UNA` on,
`SND.NXT` has passed no more than it and the FIN, and every datagram carries the
bytes of the stream at its own numbers. -/
theorem send_side {r₀ : Host κ} {is : List Input} (h0 : r₀.Opens)
    (hr : Run.run step r₀ is = some r) (hp : PastHandshake r.tcb) :
    r.SendSide ∧ ∀ i d, (r.input i).2 = some d → 0 < d.payload.len → ∃ pos, 1 ≤ pos ∧ r.Text d pos := by
  have hok : r.Ok := (sound_run h0.sound hr).ok
  exact ⟨hok.sendSide hp, fun i d hd hlen => hok.emits hd hlen⟩

/-- Five octets and the FIN, all in flight. -/
def fiveAndFin : List Input :=
  settled ++ [.send (Bytes.replicate 5 7), .close, .poll ⟨0⟩, .poll ⟨0⟩]

theorem send_side_fiveAndFin : ∃ r : Host Reno, Run.run step accepted fiveAndFin = some r ∧
    finOut r.tcb = 1 ∧ r.tcb.inflight = 6 ∧ r.SendSide := by
  obtain ⟨r, hr, hst, hf, hn⟩ := Run.exists_run step accepted fiveAndFin
    (fun r => r.tcb.state = .finWait1 ∧ finOut r.tcb = 1 ∧ r.tcb.inflight = 6) (by decide +kernel)
  have hpast : PastHandshake r.tcb := ⟨by rw [hst]; simp, by rw [hst]; simp, by rw [hst]; simp⟩
  exact ⟨r, hr, hf, hn, (send_side accepted_opens hr hpast).1⟩

end Host

end Ferrumnet
