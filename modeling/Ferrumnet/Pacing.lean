import Ferrumnet.Emission
import Ferrumnet.Setting
import Ferrumnet.Lib.Bucket

/-
  Pacing (`pace_allowance`) as a token bucket.

  The bucket is counted by the calls of `poll_transmit` that come as far as new data, and
  by nothing else: a segment, a timer and the application leave it alone, and so does a
  retransmission. What is earned is cut down to whole bytes each time it is counted.

  1. `pacing_onSegment`, `serves_poll` — what one call does to the bucket.
  2. `pacing_conforms` — however the calls are spaced, the new data of any window of time
     is at most one burst allowance and what the rate brings over the window.
  3. `credit_exact` — while nothing is sent, the credit is short of what the rate brings
     by more than a byte exactly if the fractions cut off come to two bytes or more.
-/

namespace Ferrumnet

namespace Tcb

variable {κ : Type} [CongestionControl κ] (t : Tcb κ) (now : Instant)

/-- The bucket, when it was counted, and the timer of pacing. -/
def pacing (t : Tcb κ) : Nat × Instant × Option Instant := (t.paceTokens, t.paceLast, t.paceDeadline)

/-! ## Stages that leave it alone -/

omit [CongestionControl κ] in
@[simp] theorem pacing_startRtx : (t.startRtx now).pacing = t.pacing := by
  unfold startRtx
  split <;> rfl

omit [CongestionControl κ] in
@[simp] theorem pacing_armPersist : (t.armPersist now).pacing = t.pacing := by
  unfold armPersist
  split <;> rfl

/-- No segment touches the bucket. -/
theorem pacing_onSegment (p : TcpPacket) (ce : Bool) : (t.onSegment now p ce).pacing = t.pacing :=
  congrArg (fun x => (x.1, x.2.1, x.2.2.1)) (t.setting_onSegment now p ce)

/-- No timer does. -/
theorem pacing_onTimer : (t.onTimer now).pacing = t.pacing :=
  congrArg (fun x => (x.1, x.2.1, x.2.2.1)) (t.setting_onTimer now)

/-! ## Counting the bucket -/

/-- What `g` microseconds earn at `rate`, in whole bytes. -/
def earned (rate g : Nat) : Nat := min (g * rate) Instant.u64Max / 1000000

/-- The burst allowance in force. -/
def burst (t : Tcb κ) (rate : Nat) : Nat := max (rate / 1000) (2 * t.maxSegmentPayload)

/-- The bucket, counted now. -/
def refilled (t : Tcb κ) (now : Instant) (rate : Nat) : Nat :=
  min (min (t.paceTokens + earned rate (now.saturatingMicrosSince t.paceLast)) Instant.u64Max) (t.burst rate)

theorem earned_le (rate g : Nat) : earned rate g ≤ rate * g / 1000000 := by
  rw [Nat.mul_comm rate g]
  exact Nat.div_le_div_right (Nat.min_le_left _ _)

variable {t now} {rate : Nat}

/-- The gate counts the bucket, and allows no more than it holds. -/
theorem paced_bucket (h : CongestionControl.pacingRate t.cc = some rate) (now : Instant) :
    (t.paced now).paceTokens = t.refilled now rate ∧ (t.paced now).paceLast = now ∧
      t.allowance now ≤ t.refilled now rate := by
  simp only [paced, allowance, pace, h]
  refine ⟨?_, ?_, (Nat.min_le_right _ _).trans (Nat.min_le_left _ _)⟩
  · split <;> rfl
  · split <;> rfl

/-- Arming the persist timer does not change the bucket. -/
theorem gated_bucket (h : CongestionControl.pacingRate t.cc = some rate) (now : Instant) :
    (t.gated now).paceTokens = t.refilled now rate ∧ (t.gated now).paceLast = now := by
  obtain ⟨htokens, hlast, -⟩ := paced_bucket h now
  unfold gated
  split
  · have hsame := (t.paced now).pacing_armPersist now
    exact ⟨(congrArg Prod.fst hsame).trans htokens, (congrArg (fun x => x.2.1) hsame).trans hlast⟩
  · exact ⟨htokens, hlast⟩

/-- The new data of one call: the text of a segment that moves `SND.NXT`. A window probe
does not move it, and its byte is sent again once the window opens. -/
def Emit.newData (q : Emit κ) (nxt : SeqNumber) : Nat :=
  q.2.elim 0 fun d => if q.1.sndNxt = nxt then 0 else d.payload.len

def newData (t : Tcb κ) (now : Instant) : Nat := Emit.newData (t.pollTransmit now) t.sndNxt

/-- The bucket, as a level. -/
def level (t : Tcb κ) : Bucket.Level := ⟨t.paceTokens, t.paceLast.micros⟩

/-- What `g` microseconds bring at `rate`. -/
def brings (rate g : Nat) : Nat := rate * g / 1000000

omit [CongestionControl κ] in
theorem level_eq {u : Tcb κ} (h : u.pacing = t.pacing) : u.level = t.level := by
  have htokens : u.paceTokens = t.paceTokens := congrArg Prod.fst h
  have hlast : u.paceLast = t.paceLast := congrArg (fun x => x.2.1) h
  rw [level, level, htokens, hlast]

omit [CongestionControl κ] in
/-- A segment without text is no new data, and neither is one that leaves `SND.NXT`. -/
theorem newData_eq_zero {q : Emit κ} {nxt : SeqNumber} (h : q.1.sndNxt = nxt ∨ ∀ d, q.2 = some d → d.payload.len = 0) :
    q.newData nxt = 0 := by
  obtain ⟨u, o⟩ := q
  cases o with
  | none => rfl
  | some d =>
    change (if u.sndNxt = nxt then 0 else d.payload.len) = 0
    rcases h with h | h
    · rw [if_pos h]
    · rw [h d rfl, ite_self]

omit [CongestionControl κ] in
/-- A call that does not come as far as new data. -/
theorem serves_passes {q : Emit κ} (h : q.newData t.sndNxt = 0) (hsame : q.1.pacing = t.pacing) :
    Bucket.Serves (brings rate) t.level ⟨now.micros, t.burst rate, q.newData t.sndNxt⟩ q.1.level := by
  rw [level_eq hsame]
  exact .passes h

omit [CongestionControl κ] in
/-- A call that counts the bucket and spends `n` of it. -/
theorem serves_fills {q : Emit κ} {n : Nat} (hq : q.newData t.sndNxt ≤ n) (hn : n ≤ t.refilled now rate)
    (htokens : q.1.paceTokens = t.refilled now rate - n) (hlast : q.1.paceLast = now) :
    Bucket.Serves (brings rate) t.level ⟨now.micros, t.burst rate, q.newData t.sndNxt⟩ q.1.level := by
  have hearn := earned_le rate (now.saturatingMicrosSince t.paceLast)
  have hcredit : t.refilled now rate ≤
      t.paceTokens + brings rate (now.saturatingMicrosSince t.paceLast) := by
    unfold refilled brings
    omega
  have hcap : t.refilled now rate ≤ t.burst rate := Nat.min_le_right _ _
  have hlevel : q.1.level = ⟨t.refilled now rate - n, now.micros⟩ := by rw [level, htokens, hlast]
  rw [hlevel]
  apply Bucket.Serves.fills
  · change _ ≤ t.paceTokens + brings rate (now.saturatingMicrosSince t.paceLast)
    dsimp only
    omega
  · dsimp only
    omega

omit [CongestionControl κ] in
theorem pacing_noteFin (t : Tcb κ) (now : Instant) : (t.noteFin now).pacing = t.pacing :=
  pacing_startRtx { t with finSeq := some t.dataEnd, sndNxt := t.dataEnd + 1 } now

/-- What new data spends. -/
theorem noteSent_bucket (h : CongestionControl.pacingRate t.cc = some rate) (now : Instant) (n room : Nat) :
    (t.noteSent now n room).paceTokens = t.paceTokens - n ∧ (t.noteSent now n room).paceLast = t.paceLast := by
  simp only [noteSent]
  split <;> simp [h]

/-- The data path: a retransmission passes the bucket by, anything behind it counts it. -/
theorem serves_source (hrate : CongestionControl.pacingRate t.cc = some rate) {q : Emit κ} (h : Source t now q) :
    Bucket.Serves (brings rate) t.level ⟨now.micros, t.burst rate, q.newData t.sndNxt⟩ q.1.level := by
  have hcounted := gated_bucket (t := t.lowered) hrate now
  have hrefilled : t.lowered.refilled now rate = t.refilled now rate := rfl
  rw [hrefilled] at hcounted
  have hnxt : (t.lowered.gated now).sndNxt = t.sndNxt :=
    congrArg SendSpace.sndNxt (reads_of_core (t.lowered.core_gated now)).1
  cases h with
  | resend n =>
    refine serves_passes (newData_eq_zero (.inl ?_)) (pacing_startRtx _ now)
    exact congrArg (fun c : Core => c.sndNxt) (core_startRtx _ now)
  | resendFin finSeq =>
    refine serves_passes (newData_eq_zero (.inr fun d hd => ?_)) (pacing_startRtx _ now)
    cases hd
    rfl
  | repair seq n isRescue =>
    refine serves_passes (newData_eq_zero (.inl ?_)) (pacing_startRtx _ now)
    exact congrArg (fun c : Core => c.sndNxt) (core_startRtx _ now)
  | data n hn hpos =>
    obtain ⟨htokens, hlast, hallow⟩ := paced_bucket (t := t.lowered) hrate now
    rw [hrefilled] at htokens hallow
    rw [allowance_lowered] at hallow
    have hcc : CongestionControl.pacingRate (t.lowered.paced now).cc = some rate :=
      (congrArg CongestionControl.pacingRate
        (congrArg LossRecovery.cc (t.lowered.owed_paced now).2)).trans hrate
    -- the segment is built out of the counted bucket, and then paid for
    let u := ((t.lowered.paced now).build t.sndNxt { psh := t.sentData + n = t.tx.len } (t.tx.peek t.sentData n)).1
    obtain ⟨hspent, hkept⟩ := noteSent_bucket (t := u) hcc now n t.windowRoom
    have hstart := pacing_startRtx (u.noteSent now n t.windowRoom) now
    refine serves_fills (n := n) ?_ ?_ ?_ ?_
    · change (if _ then 0 else (t.tx.peek t.sentData n).len) ≤ n
      rw [RingBuffer.peek_len]
      split
      · exact Nat.zero_le _
      · exact Nat.min_le_left _ _
    · have hle : t.portion now ≤ t.allowance now := (Nat.min_le_left _ _).trans (Nat.min_le_left _ _)
      omega
    · exact (congrArg Prod.fst hstart).trans (hspent.trans (congrArg (· - n) htokens))
    · exact (congrArg (fun x => x.2.1) hstart).trans (hkept.trans hlast)
  | probe =>
    refine serves_fills (n := 0) ?_ (Nat.zero_le _) hcounted.1 hcounted.2
    exact (newData_eq_zero (.inl hnxt)).le
  | fin =>
    have hfin := pacing_noteFin ((t.lowered.gated now).build t.dataEnd { fin := true } Bytes.empty).1 now
    refine serves_fills (n := 0) ?_ (Nat.zero_le _) ?_ ?_
    · refine (newData_eq_zero (.inr fun d hd => ?_)).le
      cases hd
      rfl
    · exact (congrArg Prod.fst hfin).trans hcounted.1
    · exact (congrArg (fun x => x.2.1) hfin).trans hcounted.2
  | quiet => exact serves_fills (n := 0) (Nat.le_refl 0) (Nat.zero_le _) hcounted.1 hcounted.2

/-- What one call of `poll_transmit` does to the bucket. -/
theorem serves_poll (hrate : CongestionControl.pacingRate t.cc = some rate) (now : Instant) :
    Bucket.Serves (brings rate) t.level ⟨now.micros, t.burst rate, t.newData now⟩
      (t.pollTransmit now).1.level := by
  have hturn := t.pollTransmit_turn now
  unfold newData
  generalize t.pollTransmit now = q at hturn ⊢
  have hcounted := gated_bucket (t := (t.clocked now).lowered) hrate now
  have hrefilled : (t.clocked now).lowered.refilled now rate = t.refilled now rate := rfl
  rw [hrefilled] at hcounted
  cases hturn with
  | rst => exact serves_passes (newData_eq_zero (.inl rfl)) rfl
  | mute => exact serves_passes rfl rfl
  | syn =>
    refine serves_passes (newData_eq_zero (.inr fun d hd => ?_)) (pacing_startRtx _ now)
    cases hd
    rfl
  | synAgain => exact serves_passes (newData_eq_zero (.inl rfl)) rfl
  | synWaits => exact serves_passes rfl rfl
  | synAck =>
    refine serves_passes (newData_eq_zero (.inr fun d hd => ?_)) (pacing_startRtx _ now)
    cases hd
    rfl
  | synAckAgain => exact serves_passes (newData_eq_zero (.inl rfl)) rfl
  | sends _ _ hsource => exact serves_source (t := t.clocked now) hrate hsource
  | ack _ hidles =>
    have hzero : ∀ u : Tcb κ, Emit.newData (u.emit u.sndNxt {} Bytes.empty) t.sndNxt = 0 := fun u =>
      newData_eq_zero (.inr fun d hd => by cases hd; rfl)
    cases hidles with
    | synReceived => exact serves_passes (hzero _) rfl
    | timeWait => exact serves_passes (hzero _) rfl
    | data => exact serves_fills (n := 0) (hzero _).le (Nat.zero_le _) hcounted.1 hcounted.2
  | idle _ hidles =>
    cases hidles with
    | synReceived => exact serves_passes rfl rfl
    | timeWait => exact serves_passes rfl rfl
    | data => exact serves_fills (n := 0) (Nat.le_refl 0) (Nat.zero_le _) hcounted.1 hcounted.2

end Tcb

/-! ## Runs -/

/-- The time of a call of `poll_transmit`. -/
def Input.pollTime : Input → Option Nat
  | .poll now => some now.micros
  | _ => none

def pollTimes (is : List Input) : List Nat := is.filterMap Input.pollTime

namespace Host

variable {κ : Type} [CongestionControl κ] {h : Host κ} {is : List Input} {rate : Nat}

/-- The visit to the bucket that a call makes. -/
def visit (rate : Nat) (h : Host κ) : Input → List Bucket.Visit
  | .poll now => [⟨now.micros, h.tcb.burst rate, h.tcb.newData now⟩]
  | _ => []

def visits (rate : Nat) : Host κ → List Input → List Bucket.Visit
  | _, [] => []
  | h, i :: is => visit rate h i ++ visits rate (h.input i).1 is

/-- The new data sent from `t₁` to `t₂`. -/
def sentWithin (h : Host κ) (is : List Input) (rate : Nat) (t₁ t₂ : Instant) : Nat :=
  Bucket.spent (Bucket.within t₁.micros t₂.micros (h.visits rate is))

/-- The largest burst allowance in force from `t₁` to `t₂`. -/
def burstWithin (h : Host κ) (is : List Input) (rate : Nat) (t₁ t₂ : Instant) : Nat :=
  Bucket.peak (Bucket.within t₁.micros t₂.micros (h.visits rate is))

/-- The controller reports `rate`. -/
def Rated (rate : Nat) (h : Host κ) : Input → Prop
  | .poll _ => CongestionControl.pacingRate h.tcb.cc = some rate
  | _ => True

instance (rate : Nat) (h : Host κ) : ∀ i : Input, Decidable (h.Rated rate i)
  | .poll _ => inferInstanceAs (Decidable (_ = _))
  | .segment .. | .send _ | .recv _ | .close | .timer _ => instDecidableTrue

/-- Only `poll_transmit` comes to the bucket. -/
theorem level_input (h : Host κ) {i : Input} (hi : i.pollTime = none) :
    (h.input i).1.tcb.pacing = h.tcb.pacing := by
  cases i with
  | segment seg now ce => exact h.tcb.pacing_onSegment now seg.tcp ce
  | send data =>
    change (h.tcb.send data).1.pacing = _
    unfold Tcb.send
    split <;> rfl
  | recv n => rfl
  | close => rfl
  | timer now => exact h.tcb.pacing_onTimer now
  | poll now => cases hi

theorem visits_time (rate : Nat) (h : Host κ) (is : List Input) : (h.visits rate is).map Bucket.Visit.time = pollTimes is := by
  induction is generalizing h with
  | nil => rfl
  | cons i is ih =>
    rw [visits, List.map_append, ih]
    cases i <;> rfl

/-- A run visits the bucket call by call. -/
theorem visits_served (hrate : Run.Along step (Rated rate) h is) :
    Bucket.Visits (Tcb.brings rate) h.tcb.level (h.visits rate is) := by
  induction is generalizing h with
  | nil => exact .nil _
  | cons i is ih =>
    have hrest := ih (hrate.2 _ rfl)
    cases hi : i.pollTime with
    | none =>
      rw [Tcb.level_eq (h.level_input hi)] at hrest
      have hvisit : h.visit rate i = [] := by
        cases i with
        | poll now => cases hi
        | _ => rfl
      rw [visits, hvisit]
      exact hrest
    | some m =>
      cases i with
      | poll now => exact .cons (Tcb.serves_poll hrate.1 now) hrest
      | _ => cases hi

/-- A token bucket that conforms: however the calls are spaced, and whatever segments,
timers and retransmissions come in between, the new data of any window of time is at most
the largest burst allowance in force and what the rate brings over the window. -/
theorem pacing_conforms (hrate : Run.Along step (Rated rate) h is) (hmono : (pollTimes is).Pairwise (· ≤ ·))
    (t₁ t₂ : Instant) : h.sentWithin is rate t₁ t₂ ≤
      h.burstWithin is rate t₁ t₂ + rate * (t₂.micros - t₁.micros) / 1000000 := by
  rw [← visits_time rate h is] at hmono
  exact (visits_served hrate).spent_le (Bucket.units_add_le rate 1000000) hmono t₁.micros t₂.micros

/-- A controller that keeps its window and its rate. -/
structure Metronome where
  window : Nat
  rate : Nat
  deriving DecidableEq

instance : CongestionControl Metronome where
  new _ mss := ⟨initialWindow mss, 500000⟩
  cwnd c := c.window
  onAck c _ _ := c
  onDupAck c _ _ := (c, false)
  enterRecovery c _ _ := c
  onRto c _ _ := c
  pacingRate c := some c.rate

/-- A host that has accepted the SYN under it. -/
def metered : Host Metronome :=
  fresh ((Tcb.newSynReceived ⟨2, 80⟩ ⟨1, 1000⟩ peerSyn (SeqNumber.new 100) ⟨0⟩ 65495).setCongestionControl
    .bbr)

theorem metered_opens : metered.Opens := .passive ..

/-- Text to send, and a call of `poll_transmit` at each of the times. -/
def polled (n : Nat) (times : List Nat) : List Input :=
  .send (Bytes.ofList (List.replicate n 7)) :: times.map fun m => .poll ⟨m⟩

/-- Ten milliseconds after the SYN-ACK, the burst allowance goes out at once, and no more. -/
theorem pacing_conforms_burst :
    let is := settled ++ polled 1200 [10000, 10000, 10000]
    metered.sentWithin is 500000 ⟨10000⟩ ⟨10000⟩ = 1072 ∧
      metered.sentWithin is 500000 ⟨10000⟩ ⟨10000⟩ ≤ metered.burstWithin is 500000 ⟨10000⟩ ⟨10000⟩ +
        500000 * ((⟨10000⟩ : Instant).micros - (⟨10000⟩ : Instant).micros) / 1000000 := by
  refine ⟨by decide +kernel, ?_⟩
  apply pacing_conforms
  · decide +kernel
  · decide +kernel

/-! ## The credit of a sender that waits -/

/-- A call that comes as far as new data and sends nothing, with the bucket below its cap.
`snd_mss` is a `u16`. -/
structure Accrues (rate : Nat) (h : Host κ) (now : Instant) : Prop where
  rated : CongestionControl.pacingRate h.tcb.cc = some rate
  state : h.tcb.state.synchronized = true
  silent : (h.tcb.pollTransmit now).2 = none
  below : (h.tcb.pollTransmit now).1.paceTokens < h.tcb.burst rate
  mss : h.tcb.sndMss ≤ 65535

instance (rate : Nat) (h : Host κ) (now : Instant) : Decidable (h.Accrues rate now) :=
  decidable_of_iff
    (CongestionControl.pacingRate h.tcb.cc = some rate ∧ h.tcb.state.synchronized = true ∧
      (h.tcb.pollTransmit now).2 = none ∧ (h.tcb.pollTransmit now).1.paceTokens < h.tcb.burst rate ∧
      h.tcb.sndMss ≤ 65535)
    ⟨fun ⟨h1, h2, h3, h4, h5⟩ => ⟨h1, h2, h3, h4, h5⟩, fun ⟨h1, h2, h3, h4, h5⟩ => ⟨h1, h2, h3, h4, h5⟩⟩

/-- Every call of `poll_transmit` is one. -/
def Accruing (rate : Nat) (h : Host κ) : Input → Prop
  | .poll now => h.Accrues rate now
  | _ => True

instance (rate : Nat) (h : Host κ) : ∀ i : Input, Decidable (h.Accruing rate i)
  | .poll now => inferInstanceAs (Decidable (h.Accrues rate now))
  | .segment .. | .send _ | .recv _ | .close | .timer _ => instDecidableTrue

/-- Such a call earns what the time since the last one brings, cut down to whole bytes. -/
theorem Accrues.credit {now : Instant} (ha : h.Accrues rate now) (hrate : rate ≤ Instant.u64Max) :
    (h.tcb.pollTransmit now).1.paceTokens =
        h.tcb.paceTokens + Tcb.earned rate (now.saturatingMicrosSince h.tcb.paceLast) ∧
      (h.tcb.pollTransmit now).1.paceLast = now := by
  obtain ⟨hrated, hstate, hsilent, hbelow, hmss⟩ := ha
  have hsync : ∀ st : State, st.synchronized = false → h.tcb.state ≠ st := by
    intro st hst he
    rw [he, hst] at hstate
    cases hstate
  have hturn := h.tcb.pollTransmit_turn now
  generalize h.tcb.pollTransmit now = q at hturn hsilent hbelow ⊢
  obtain ⟨htokens, hlast⟩ := Tcb.gated_bucket (t := (h.tcb.clocked now).lowered) hrated now
  have hcounted : q.1.paceTokens = h.tcb.refilled now rate ∧ q.1.paceLast = now := by
    cases hturn with
    | rst => cases hsilent
    | mute _ hst => exact (hst.elim (hsync _ rfl) (hsync _ rfl)).elim
    | syn => cases hsilent
    | synAgain => cases hsilent
    | synWaits _ hst => exact absurd hst (hsync _ rfl)
    | synAck => cases hsilent
    | synAckAgain => cases hsilent
    | sends _ _ _ hsome =>
      rw [hsilent] at hsome
      cases hsome
    | ack => cases hsilent
    | idle _ hidles =>
      cases hidles with
      | synReceived hst => exact absurd hst (hsync _ rfl)
      | timeWait hst => exact absurd hst (hsync _ rfl)
      | data => exact ⟨htokens, hlast⟩
  refine ⟨?_, hcounted.2⟩
  rw [hcounted.1] at hbelow ⊢
  -- neither the cap nor the width of the counter has cut anything
  have hmax : h.tcb.maxSegmentPayload ≤ h.tcb.sndMss := by
    rw [Tcb.maxSegmentPayload]
    exact Nat.sub_le _ _
  have hburst : h.tcb.burst rate ≤ Instant.u64Max := by
    have hu64 : Instant.u64Max = 18446744073709551615 := rfl
    unfold Tcb.burst
    omega
  unfold Tcb.refilled at hbelow ⊢
  omega

/-- Gap by gap, the credit of a run. -/
theorem credit_run {t : Host κ} (hrate : rate ≤ Instant.u64Max) (hrun : Run.run step h is = some t)
    (ha : Run.Along step (Accruing rate) h is) : t.tcb.paceTokens =
      h.tcb.paceTokens + ((Bucket.gaps h.tcb.paceLast.micros (pollTimes is)).map (Tcb.earned rate)).sum := by
  induction is generalizing h with
  | nil =>
    cases hrun
    rfl
  | cons i is ih =>
    have hrest := ih (h := (h.input i).1) hrun (ha.2 _ rfl)
    cases hi : i.pollTime with
    | none =>
      have hsame := h.level_input hi
      rw [show (h.input i).1.tcb.paceTokens = h.tcb.paceTokens from congrArg Prod.fst hsame,
        show (h.input i).1.tcb.paceLast = h.tcb.paceLast from congrArg (fun x => x.2.1) hsame] at hrest
      rw [hrest, pollTimes, pollTimes, List.filterMap_cons_none hi]
    | some m =>
      cases i with
      | poll now =>
        obtain ⟨htokens, hlast⟩ := ha.1.credit hrate
        rw [show (h.input (.poll now)).1.tcb = (h.tcb.pollTransmit now).1 from rfl, htokens, hlast] at hrest
        rw [hrest]
        exact Nat.add_assoc _ _ _
      | _ => cases hi

/-- What counting a gap cuts off, in millionths of a byte: the remainder, and beyond 64 bits
all that the product has no room for. -/
def cutOff (rate g : Nat) : Nat :=
  if rate * g ≤ Instant.u64Max then rate * g % 1000000
  else rate * g - 1000000 * (Instant.u64Max / 1000000)

/-- Every millionth that a gap brings is earned or cut off. -/
theorem earned_add_cutOff (rate g : Nat) : 1000000 * Tcb.earned rate g + cutOff rate g = rate * g := by
  rw [Tcb.earned, cutOff, Nat.mul_comm g rate]
  split
  · rename_i hfits
    rw [Nat.min_eq_left hfits]
    exact Nat.div_add_mod _ _
  · rename_i hwide
    have hle : 1000000 * (Instant.u64Max / 1000000) ≤ Instant.u64Max := Nat.mul_div_le _ _
    rw [Nat.min_eq_right (by omega)]
    omega

/-- While nothing is sent and the bucket stays below its cap, the credit falls short of
what the rate brings by at most a byte exactly if the fractions cut off at the calls come
to less than two bytes. -/
theorem credit_exact {t : Host κ} (hrate : rate ≤ Instant.u64Max) (hrun : Run.run step h is = some t)
    (ha : Run.Along step (Accruing rate) h is)
    (hmono : (h.tcb.paceLast.micros :: pollTimes is).Pairwise (· ≤ ·)) :
    rate * ((pollTimes is).getLastD h.tcb.paceLast.micros - h.tcb.paceLast.micros) / 1000000 - 1 ≤
        t.tcb.paceTokens - h.tcb.paceTokens ↔
      ((Bucket.gaps h.tcb.paceLast.micros (pollTimes is)).map (cutOff rate)).sum < 2 * 1000000 := by
  have hcredit := credit_run hrate hrun ha
  have hiff := Bucket.whole_le_iff (by decide : 0 < 1000000) (earned_add_cutOff rate)
    (Bucket.gaps h.tcb.paceLast.micros (pollTimes is)) 1
  rw [Bucket.sum_gaps hmono] at hiff
  rw [← hiff]
  omega

/-- Calls so frequent that each gap brings less than a byte earn nothing, however many. -/
theorem starves {t : Host κ} (hrate : rate ≤ Instant.u64Max) (hrun : Run.run step h is = some t)
    (ha : Run.Along step (Accruing rate) h is)
    (hshort : ∀ g ∈ Bucket.gaps h.tcb.paceLast.micros (pollTimes is), rate * g < 1000000) :
    t.tcb.paceTokens = h.tcb.paceTokens := by
  rw [credit_run hrate hrun ha]
  have hnone : ∀ n ∈ (Bucket.gaps h.tcb.paceLast.micros (pollTimes is)).map (Tcb.earned rate), n = 0 := by
    intro n hn
    obtain ⟨g, hg, rfl⟩ := List.mem_map.mp hn
    apply Nat.eq_zero_of_le_zero
    exact (Tcb.earned_le rate g).trans (Nat.div_eq_of_lt (hshort g hg)).le
  rw [List.sum_eq_zero hnone, Nat.add_zero]

/-- Half a byte each microsecond: called at every one of ten, the sender earns nothing. -/
theorem polled_each_microsecond : ∃ h t : Host Metronome,
    Run.run step metered (settled ++ polled 100 []) = some h ∧
      Run.run step h (polled 0 (List.range' 1 10)) = some t ∧
      Run.Along step (Accruing 500000) h (polled 0 (List.range' 1 10)) ∧
      (h.tcb.paceLast.micros :: pollTimes (polled 0 (List.range' 1 10))).Pairwise (· ≤ ·) ∧
      ¬ 500000 * ((pollTimes (polled 0 (List.range' 1 10))).getLastD h.tcb.paceLast.micros -
          h.tcb.paceLast.micros) / 1000000 - 1 ≤ t.tcb.paceTokens - h.tcb.paceTokens := by
  obtain ⟨h, hsetup, hlast, ha, hany⟩ := Run.exists_run step metered (settled ++ polled 100 [])
    (fun h => h.tcb.paceLast.micros = 0 ∧ Run.Along step (Accruing 500000) h (polled 0 (List.range' 1 10)) ∧
      (Run.run step h (polled 0 (List.range' 1 10))).any
        (fun t => decide (t.tcb.paceTokens = h.tcb.paceTokens)) = true) (by decide +kernel)
  obtain ⟨t, hrun, htokens⟩ := (Option.any_eq_true _ _).mp hany
  have htokens := of_decide_eq_true htokens
  refine ⟨h, t, hsetup, hrun, ha, ?_, ?_⟩
  · rw [hlast]
    decide
  · rw [hlast, htokens, Nat.sub_self]
    decide

/-- At every other microsecond, a whole byte is earned each time. -/
theorem credit_exact_whole : ∃ h t : Host Metronome, Run.run step metered settled = some h ∧
    Run.run step h (polled 0 [2, 4, 6, 8, 10]) = some t ∧
      500000 * ((pollTimes (polled 0 [2, 4, 6, 8, 10])).getLastD h.tcb.paceLast.micros -
          h.tcb.paceLast.micros) / 1000000 - 1 ≤ t.tcb.paceTokens - h.tcb.paceTokens := by
  obtain ⟨h, hsetup, hlast, ha, hany⟩ := Run.exists_run step metered settled
    (fun h => h.tcb.paceLast.micros = 0 ∧ Run.Along step (Accruing 500000) h (polled 0 [2, 4, 6, 8, 10]) ∧
      (Run.run step h (polled 0 [2, 4, 6, 8, 10])).isSome = true) (by decide +kernel)
  obtain ⟨t, hrun⟩ := Option.isSome_iff_exists.mp hany
  refine ⟨h, t, hsetup, hrun, (credit_exact (by decide) hrun ha ?_).mpr ?_⟩
  · rw [hlast]
    decide
  · rw [hlast]
    decide

end Host

end Ferrumnet
