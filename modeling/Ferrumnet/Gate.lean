import Ferrumnet.Board

/-
  What the send gate counts against the congestion window.

  Under SACK the gate for new data counts the RFC 6675 pipe instead of the bytes in
  flight, inside recovery and outside it. The two agree as long as the peer has
  reported nothing out of order.

  1. `pipeLoop_all`, `pipeLoop_lt` — the walk counts every octet of the window, unless
     one of them is sacked.
  2. `gate_classic` — the pipe is what is in flight, and no new data
     goes beyond either window, exactly if the scoreboard holds no sacked range.
  3. `gate_discounts` — one SACK block below the threshold is enough to send past the
     congestion window.
-/

namespace Ferrumnet

namespace Scoreboard

variable (s : Scoreboard) (nxt seq : SeqNumber)

/-! ## The walk of `pipe` -/

/-- No span of the walk runs across the start of a sacked run. -/
theorem nextBoundary_le {limit : SeqNumber} (hpos : 0 < limit.offsetFrom seq) (hlim : limit.offsetFrom seq < 2147483648) {run : Run}
    (hr : run ∈ s.sacked) (hgt : run.1.gt seq = true) :
    (s.nextBoundary seq limit).offsetFrom seq ≤ run.1.offsetFrom seq := by
  have hstep : ∀ (b : SeqNumber) (r : Run), 0 < b.offsetFrom seq → b.offsetFrom seq < 2147483648 →
      0 < (nearer seq (nearer seq b r.1) r.2).offsetFrom seq ∧
        (nearer seq (nearer seq b r.1) r.2).offsetFrom seq ≤ b.offsetFrom seq := by
    intro b r h1 h2
    obtain ⟨h3, h4⟩ := nearer_spec r.1 h1 h2
    obtain ⟨h5, h6⟩ := nearer_spec r.2 h3 (by omega)
    exact ⟨h5, h6.trans h4⟩
  have hfold : ∀ (runs : List Run) (b : SeqNumber), 0 < b.offsetFrom seq → b.offsetFrom seq < 2147483648 →
      run ∈ runs → (runs.foldl (fun b r => nearer seq (nearer seq b r.1) r.2) b).offsetFrom seq ≤
        run.1.offsetFrom seq := by
    intro runs
    induction runs with
    | nil =>
      intro b _ _ hm
      cases hm
    | cons head runs ih =>
      intro b h1 h2 hm
      obtain ⟨h3, h4⟩ := hstep b head h1 h2
      rw [List.foldl_cons]
      rcases List.mem_cons.mp hm with rfl | hm
      · obtain ⟨h5, h6⟩ := nearer_spec run.1 h1 h2
        obtain ⟨-, h7⟩ := nearer_spec run.2 h5 (by omega)
        obtain ⟨-, h8⟩ := foldl_nearer _ hstep runs h3 (by omega)
        exact h8.trans (h7.trans (nearer_le run.1 h1 h2 hgt))
      · exact ih _ h3 (by omega) hm
  exact hfold (s.sacked ++ s.rexmit) limit hpos hlim (List.mem_append_left _ hr)

/-- A walk that has not arrived takes another step. -/
theorem lt_of_offset (hpos : 0 < nxt.offsetFrom seq) (hlim : nxt.offsetFrom seq < 2147483648) :
    seq.lt nxt = true := by
  have htrans := SeqNumber.offsetFrom_trans seq nxt seq
  have hlt := SeqNumber.offsetFrom_lt seq nxt
  rw [SeqNumber.offsetFrom_self] at htrans
  rw [SeqNumber.lt_iff]
  omega

/-- What is left of the walk behind a step of it. -/
theorem offset_step (hpos : 0 < nxt.offsetFrom seq) (hlim : nxt.offsetFrom seq < 2147483648) :
    0 < (s.nextBoundary seq nxt).offsetFrom seq ∧
      (s.nextBoundary seq nxt).offsetFrom seq + nxt.offsetFrom (s.nextBoundary seq nxt) = nxt.offsetFrom seq := by
  obtain ⟨h1, h2⟩ := s.nextBoundary_spec seq nxt hpos hlim
  have htrans := SeqNumber.offsetFrom_trans nxt (s.nextBoundary seq nxt) seq
  have hlt := SeqNumber.offsetFrom_lt nxt (s.nextBoundary seq nxt)
  omega

/-- One step of the walk. -/
theorem pipeLoop_succ (smss fuel acc : Nat) :
    s.pipeLoop nxt smss (fuel + 1) seq acc =
      if seq.lt nxt then s.pipeLoop nxt smss fuel (s.nextBoundary seq nxt)
        (if !s.isSacked seq && (s.isRexmit seq || !s.isLost seq smss)
          then acc + (s.nextBoundary seq nxt).offsetFrom seq else acc)
      else acc := rfl

/-- With nothing sacked, every octet counts. -/
theorem pipeLoop_all (smss : Nat) (hnil : s.sacked = []) (fuel acc : Nat)
    (hlim : nxt.offsetFrom seq < 2147483648) (hfuel : nxt.offsetFrom seq ≤ fuel) :
    s.pipeLoop nxt smss fuel seq acc = acc + nxt.offsetFrom seq := by
  induction fuel generalizing seq acc with
  | zero =>
    rw [Nat.le_zero.mp hfuel]
    rfl
  | succ fuel ih =>
    have hcounts : (!s.isSacked seq && (s.isRexmit seq || !s.isLost seq smss)) = true := by
      rw [isSacked, isLost, hnil]
      simp [contains, dupThresh]
    rw [pipeLoop_succ, hcounts]
    split
    · rename_i hlt
      obtain ⟨h1, h2⟩ := s.offset_step nxt seq (SeqNumber.offset_pos_of_lt hlt) hlim
      rw [if_pos rfl, ih _ _ (by omega) (by omega)]
      omega
    · rename_i hge
      have hzero : nxt.offsetFrom seq = 0 := by
        by_contra hne
        exact hge (lt_of_offset nxt seq (by omega) hlim)
      omega

/-- No octet counts twice. -/
theorem pipeLoop_le (smss fuel acc : Nat) (hlim : nxt.offsetFrom seq < 2147483648) :
    s.pipeLoop nxt smss fuel seq acc ≤ acc + nxt.offsetFrom seq := by
  induction fuel generalizing seq acc with
  | zero => exact Nat.le_add_right _ _
  | succ fuel ih =>
    rw [pipeLoop_succ]
    split
    · rename_i hlt
      obtain ⟨h1, h2⟩ := s.offset_step nxt seq (SeqNumber.offset_pos_of_lt hlt) hlim
      have hrest := ih (s.nextBoundary seq nxt)
        (if (!s.isSacked seq && (s.isRexmit seq || !s.isLost seq smss)) = true
          then acc + (s.nextBoundary seq nxt).offsetFrom seq else acc) (by omega)
      refine hrest.trans ?_
      split <;> omega
    · exact Nat.le_add_right _ _

/-- A sacked run ahead does not count. -/
theorem pipeLoop_lt (smss : Nat) {run : Run} (hr : run ∈ s.sacked) (hsacked : s.isSacked run.1 = true)
    (fuel acc : Nat) (hlim : nxt.offsetFrom seq < 2147483648)
    (hfuel : nxt.offsetFrom seq ≤ fuel) (hrun : run.1.offsetFrom seq < nxt.offsetFrom seq) :
    s.pipeLoop nxt smss fuel seq acc < acc + nxt.offsetFrom seq := by
  induction fuel generalizing seq acc with
  | zero => omega
  | succ fuel ih =>
    have hlt := lt_of_offset nxt seq (by omega) hlim
    obtain ⟨h1, h2⟩ := s.offset_step nxt seq (by omega) hlim
    rw [pipeLoop_succ, if_pos hlt]
    by_cases hat : run.1 = seq
    · -- the walk has reached the run
      have hnot : (!s.isSacked seq && (s.isRexmit seq || !s.isLost seq smss)) = false := by
        rw [← hat, hsacked]
        rfl
      rw [hnot, if_neg (by simp)]
      have hrest := s.pipeLoop_le nxt (s.nextBoundary seq nxt) smss fuel acc (by omega)
      omega
    · -- it stops there at the latest
      have hne : run.1.offsetFrom seq ≠ 0 := fun hz => hat ((SeqNumber.eq_iff_offsetFrom _ _).mpr hz)
      have hgt : run.1.gt seq = true := by
        rw [SeqNumber.gt_iff]
        omega
      have hstop := s.nextBoundary_le seq (by omega : 0 < nxt.offsetFrom seq) hlim hr hgt
      have htrans := SeqNumber.offsetFrom_trans run.1 (s.nextBoundary seq nxt) seq
      have hsmall := SeqNumber.offsetFrom_lt run.1 (s.nextBoundary seq nxt)
      have hrest := ih (s.nextBoundary seq nxt)
        (if (!s.isSacked seq && (s.isRexmit seq || !s.isLost seq smss)) = true
          then acc + (s.nextBoundary seq nxt).offsetFrom seq else acc) (by omega) (by omega) (by omega)
      refine hrest.trans_le ?_
      split <;> omega

end Scoreboard

namespace Tcb

variable {κ : Type} [CongestionControl κ] (t : Tcb κ) (now : Instant)

/-- Pacing only ever takes away. -/
theorem allowance_le : t.allowance now ≤ t.windowRoom := by
  simp only [allowance, pace]
  split
  · exact le_rfl
  · exact Nat.min_le_left _ _

/-- Text either lies below `SND.NXT`, or moves it by no more than both windows allow. -/
theorem pollTransmit_room {d : Datagram} (hd : (t.pollTransmit now).2 = some d) (hlen : 0 < d.payload.len) :
    (t.pollTransmit now).1.toSendSpace = t.toSendSpace ∨
      ∃ n, n ≤ t.windowRoom ∧
        (t.pollTransmit now).1.toSendSpace = { t.toSendSpace with sndNxt := t.sndNxt + n } := by
  have hturn := t.pollTransmit_turn now
  generalize t.pollTransmit now = q at hturn hd ⊢
  have hempty : ∀ b : Bytes, b = Bytes.empty → b.len = 0 := by
    intro b hb
    rw [hb]
    rfl
  have hstart : ∀ u : Tcb κ, (u.startRtx now).toSendSpace = u.toSendSpace :=
    fun u => congrArg Core.toSendSpace (u.core_startRtx now)
  cases hturn with
  | rst _ _ | syn _ _ _ | synAgain _ _ _ _ | synAck _ _ _ | synAckAgain _ _ _ _ | ack _ _ _ =>
    cases hd
    exact (Nat.ne_of_gt hlen (hempty _ rfl)).elim
  | mute _ _ | synWaits _ _ _ _ | idle _ _ _ => cases hd
  | sends _ _ hs _ =>
    cases hs with
    | resend _ _ _ _ _ | repair _ _ _ _ _ _ _ _ _ => exact .inl (hstart _)
    | resendFin _ _ _ _ _ _ _ | fin _ _ _ _ =>
      cases hd
      exact (Nat.ne_of_gt hlen (hempty _ rfl)).elim
    | probe _ _ _ => exact .inl (congrArg Core.toSendSpace ((t.clocked now).lowered.core_gated now))
    | quiet _ => cases hd
    | data n hn hpos =>
      right
      have hle : n ≤ t.windowRoom := by
        have hportion : n ≤ (t.clocked now).allowance now := by
          rw [hn, portion]
          omega
        exact hportion.trans ((t.clocked now).allowance_le now)
      refine ⟨n, hle, ?_⟩
      simp only [Emit.after, hstart]
      generalize hu : (((t.clocked now).lowered.paced now).emit (t.clocked now).sndNxt
        { psh := (t.clocked now).sentData + n = (t.clocked now).tx.len }
        ((t.clocked now).tx.peek (t.clocked now).sentData n)).1 = u
      have hsend : u.toSendSpace = t.toSendSpace := by
        rw [← hu]
        exact congrArg Core.toSendSpace ((t.clocked now).lowered.core_paced now)
      refine (congrArg Core.toSendSpace (u.core_noteSent now n (t.clocked now).windowRoom)).trans ?_
      change ({ u.toSendSpace with sndNxt := u.sndNxt + n } : SendSpace) = _
      rw [hsend]

end Tcb

namespace Host

variable {κ : Type} [CongestionControl κ] {r : Host κ}

/-- The gate of a connection without SACK: what is in flight counts against both
windows, and new data leaves it within them. -/
structure Classic (r : Host κ) : Prop where
  pipe : r.tcb.scoreboard.pipe r.tcb.sndUna r.tcb.sndNxt r.tcb.sndMss = r.tcb.inflight
  room : ∀ now d, (r.input (.poll now)).2 = some d → 0 < d.payload.len → r.nxt < (r.input (.poll now)).1.nxt →
    (r.input (.poll now)).1.tcb.inflight ≤ CongestionControl.cwnd r.tcb.cc ∧
      (r.input (.poll now)).1.tcb.inflight ≤ r.tcb.sndWnd

omit [CongestionControl κ] in
/-- The pipe is what is in flight exactly if nothing is reported out of order. -/
theorem Board.pipe_iff (h : r.Board) (hok : r.Ok) :
    r.tcb.scoreboard.pipe r.tcb.sndUna r.tcb.sndNxt r.tcb.sndMss = r.tcb.inflight ↔
      r.tcb.scoreboard.sacked = [] := by
  have hw : r.tcb.inflight ≤ 262145 := hok.sending.outstanding_le
  have hin : r.tcb.sndNxt.offsetFrom r.tcb.sndUna = r.tcb.inflight := rfl
  constructor
  · intro heq
    by_contra hne
    obtain ⟨l, hl⟩ := h.sacked
    obtain ⟨run, hr⟩ := List.exists_mem_of_ne_nil _ hne
    obtain ⟨i, hi, rfl⟩ := List.mem_map.mp (hl.runs ▸ hr)
    have hbounds := hl.inside i hi
    have hlong := hl.spaced.nonempty i hi
    have hend : r.una + r.tcb.inflight = r.nxt := rfl
    have hsacked : r.tcb.scoreboard.isSacked (r.tcb.iss + i.1) = true := by
      rw [Scoreboard.isSacked, hl.contains hbounds.1 (by omega), decide_eq_true_iff]
      exact ⟨i, hi, le_rfl, hlong⟩
    have hat : (r.tcb.iss + i.1).offsetFrom r.tcb.sndUna = i.1 - r.una := by
      rw [hok.sending.at_una, SeqNumber.offsetFrom_pos_le _ hbounds.1 (by omega)]
    have hlt := r.tcb.scoreboard.pipeLoop_lt r.tcb.sndNxt r.tcb.sndUna r.tcb.sndMss hr hsacked r.tcb.inflight 0
      (by omega) hin.le (by
        rw [hin]
        change (r.tcb.iss + i.1).offsetFrom r.tcb.sndUna < r.tcb.inflight
        omega)
    rw [hin, Nat.zero_add] at hlt
    exact absurd heq (Nat.ne_of_lt hlt)
  · intro hnil
    have hall := r.tcb.scoreboard.pipeLoop_all r.tcb.sndNxt r.tcb.sndUna r.tcb.sndMss hnil r.tcb.inflight 0
      (by omega) hin.le
    rw [hin, Nat.zero_add] at hall
    exact hall

/-- In every state of a SACK connection, in recovery or not, the gate is the classic one
exactly if the scoreboard holds no sacked range. -/
theorem gate_classic {r₀ : Host κ} {is : List Input} (h0 : r₀.Opens) (hr : Run.run step r₀ is = some r)
    (hs : r.tcb.sackEnabled = true) :
    r.Classic ↔ r.tcb.scoreboard.sacked = [] := by
  obtain ⟨hok, hboard⟩ := board_run h0 hr
  constructor
  · exact fun h => (hboard.pipe_iff hok).mp h.pipe
  · intro hnil
    have hpipe := (hboard.pipe_iff hok).mpr hnil
    refine ⟨hpipe, fun now d hd hlen hmoves => ?_⟩
    have hcwnd : r.tcb.cwndRoom = CongestionControl.cwnd r.tcb.cc - r.tcb.inflight := by
      rw [Tcb.cwndRoom, if_pos hs, hpipe]
    rcases r.tcb.pollTransmit_room now hd hlen with hsame | ⟨n, hn, hsend⟩
    · have hnxt : (r.input (.poll now)).1.nxt = r.nxt :=
        nxt_follow ⟨congrArg SendSpace.sndUna hsame, congrArg SendSpace.sndNxt hsame⟩
      omega
    · have hin : (r.input (.poll now)).1.tcb.inflight ≤ r.tcb.inflight + n := by
        change (r.tcb.pollTransmit now).1.inflight ≤ _
        have htrans := SeqNumber.offsetFrom_trans (r.tcb.sndNxt + n) r.tcb.sndNxt r.tcb.sndUna
        rw [SeqNumber.offsetFrom_add] at htrans
        simp only [Tcb.inflight, hsend]
        omega
      have huna : (r.input (.poll now)).1.una = r.una :=
        follow_una ((congrArg SendSpace.sndUna hsend).trans rfl)
      have hmore : r.tcb.inflight < (r.input (.poll now)).1.tcb.inflight := by
        rw [nxt, nxt, huna] at hmoves
        omega
      have hroom : r.tcb.windowRoom = min r.tcb.cwndRoom (r.tcb.sndWnd - r.tcb.inflight) := rfl
      omega

/-- A window of ten segments, and two more to send. -/
def filled : List Input :=
  settled ++ [.send (Bytes.replicate 6432 7)] ++ List.replicate 10 (.poll ⟨0⟩)

theorem gate_classic_filled : ∃ r : Host Reno, Run.run step accepted filled = some r ∧
    r.tcb.inflight = 5360 ∧ r.Classic := by
  obtain ⟨r, hr, hin, hs, hnil⟩ := Run.exists_run step accepted filled
    (fun r => r.tcb.inflight = 5360 ∧ r.tcb.sackEnabled = true ∧ r.tcb.scoreboard.sacked = [])
    (by decide +kernel)
  exact ⟨r, hr, hin, (gate_classic accepted_opens hr hs).mpr hnil⟩

/-- The peer reports the second of the ten. -/
def discounted : List Input :=
  filled ++ [.segment ⟨{ peerSegment 5001 {} Bytes.empty with
    sackBlocks := [(SeqNumber.new 637, SeqNumber.new 1173)] }, by decide⟩ ⟨0⟩ false]

/-- The congestion window is full, the connection is not in recovery, and one more
segment goes out. -/
theorem gate_discounts : ∃ r : Host Reno, Run.run step accepted discounted = some r ∧
    r.tcb.sackEnabled = true ∧ r.tcb.scoreboard.inRecovery = false ∧ r.tcb.cc.cwnd = 5360 ∧
    r.tcb.inflight = 5360 ∧ (r.input (.poll ⟨0⟩)).1.tcb.inflight = 5896 ∧ ¬ r.Classic := by
  obtain ⟨r, hr, h1, h2, h3, h4, h5, h6⟩ := Run.exists_run step accepted discounted
    (fun r => r.tcb.sackEnabled = true ∧ r.tcb.scoreboard.inRecovery = false ∧ r.tcb.cc.cwnd = 5360 ∧
      r.tcb.inflight = 5360 ∧ (r.input (.poll ⟨0⟩)).1.tcb.inflight = 5896 ∧
      r.tcb.scoreboard.pipe r.tcb.sndUna r.tcb.sndNxt r.tcb.sndMss ≠ r.tcb.inflight) (by decide +kernel)
  exact ⟨r, hr, h1, h2, h3, h4, h5, fun h => h6 h.pipe⟩

end Host

end Ferrumnet
