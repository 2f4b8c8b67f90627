import Ferrumnet.Coverage
import Ferrumnet.Ledger

/-
  AccECN and sequence numbers that come round.

  Without timestamps nothing tells an ACK from one that is 2^32 octets old. This
  module runs a connection for that long, one octet at a time: in `round` the
  octet is sent, delivered, delivered once more (which forces an ACK out),
  read and acknowledged. Then the first ACK comes once more, is taken for the
  newest, and its counter is read again.

  `marks_recounted` — a run in which marks are decoded that were never set.
-/

namespace Ferrumnet

/-! ## Two plain endpoints -/

/-- Established, with no option in use and no FIN in sight. -/
structure Core.Plain (c : Core) : Prop where
  state : c.state = .established
  finQueued : c.finQueued = false
  sack : c.sackEnabled = false
  ts : c.tsEnabled = false
  seen : c.peerFinSeen = false
  pending : c.pendingFin = none

/-- A text segment: ACK and maybe data. -/
structure TcpPacket.Text (p : TcpPacket) : Prop where
  syn : p.flags.syn = false
  rst : p.flags.rst = false
  fin : p.flags.fin = false
  ack : p.flags.ack = true

namespace Core

variable {c : Core} {p : TcpPacket}

theorem Plain.admits (h : c.Plain) (hp : p.Text)
    (hacc : c.toRecvSpace.segmentAcceptable p.seq p.segLen = true) : c.admits p = true := by
  have hpaws : c.pawsStale p = false := by simp [pawsStale, segTs, h.ts]
  simp [Core.admits, h.state, hp.syn, hp.rst, hp.ack, hpaws, hacc]

theorem Plain.validAck (h : c.Plain) (hack : p.ack.gt c.sndNxt = false) : c.validAck p = true := by
  have hne : ¬ c.state = .synReceived := by simp [h.state]
  rw [Core.validAck, if_neg hne, hack]
  rfl

/-- A text segment that is taken in touches the streams only. -/
theorem Plain.taken (h : c.Plain) (hp : p.Text) (hadm : c.admits p = true)
    (hv : c.validAck p = true) :
    c.onSegment p = (c.acked p).withRecv (c.toRecvSpace.acceptData false p) := by
  have hts : c.advanceTsRecent p = c := by
    simp [Core.advanceTsRecent, tsRecentAfter, segTs, h.ts]
  obtain ⟨-, -, hseen, hpend, -, -⟩ := c.toRecvSpace.acceptData_shift false p
  have htext : c.toRecvSpace.text false p = c.toRecvSpace.acceptData false p := by
    simp [RecvSpace.text, RecvSpace.acceptFin, RecvSpace.takePendingFin, hp.fin, hpend, h.pending]
  have hstate : c.ackedState = .established := by simp [ackedState, h.state]
  rw [onSegment_taken (by simp [h.state]) hadm hv, hts, onText]
  change (((c.acked p).withRecv (c.toRecvSpace.text c.sackEnabled p)).withState
    (Tcb.closingState c.ackedState _ (c.toRecvSpace.text c.sackEnabled p).peerFinSeen)) = _
  rw [h.sack, htext, hseen, h.seen, hstate]
  simp only [Tcb.closingState, Bool.false_eq_true, if_false, ← hstate]
  rfl

/-- One that is not acceptable changes nothing. -/
theorem Plain.dropped (h : c.Plain) (hp : p.Text)
    (hacc : c.toRecvSpace.segmentAcceptable p.seq p.segLen = false) : c.onSegment p = c := by
  have hpaws : c.pawsStale p = false := by simp [pawsStale, segTs, h.ts]
  simp [onSegment, h.state, hp.syn, hp.rst, hpaws, hacc]

theorem Plain.acked (h : c.Plain) (p : TcpPacket) : (c.acked p).Plain := by
  have hsend : (c.acked p).finQueued = c.finQueued := by
    change (c.ackedSend p).finQueued = _
    unfold ackedSend
    split
    · rfl
    · split <;> rfl
  exact ⟨by simp [Core.acked, ackedState, h.state], hsend.trans h.finQueued, h.sack, h.ts, h.seen,
    h.pending⟩

theorem Plain.withRecv (h : c.Plain) {r : RecvSpace} (h1 : r.peerFinSeen = c.peerFinSeen)
    (h2 : r.pendingFin = c.pendingFin) : (c.withRecv r).Plain :=
  ⟨h.state, h.finQueued, h.sack, h.ts, h1.trans h.seen, h2.trans h.pending⟩

end Core

namespace Tcb

variable {t : Tcb Reno} {now : Instant}

/-- With no option in use the MSS is the payload. -/
theorem maxSegmentPayload_plain (h : t.core.Plain) : t.maxSegmentPayload = t.sndMss := by
  have hts : t.tsEnabled = false := h.ts
  have hsack : t.sackEnabled = false := h.sack
  simp [maxSegmentPayload, hts, hsack]

/-- A plain Tcb with nothing in flight has nothing to retransmit. -/
theorem transmit_idle (h : t.core.Plain) (hidle : t.sndNxt = t.sndUna) :
    t.transmitDataOrFin now = (t.sendNewData now).orElse (·.sendFin now) := by
  have hflight : t.inflight = 0 := by rw [inflight, hidle, SeqNumber.offsetFrom_self]
  have hretx : t.retransmitOldest now = (t, none) := by simp [retransmitOldest, hflight]
  have hsack : t.sackRetransmit now = (t, none) := by
    have : t.sackEnabled = false := h.sack
    simp [sackRetransmit, this]
  rw [transmitDataOrFin, hretx, Emit.orElse, hsack, Emit.orElse]

theorem poll_established (h : t.state = .established) (hreset : t.pendingReset = none) :
    t.pollTransmit now =
      ({ t with curTsval := BitVec.ofNat 32 now.micros }.transmitDataOrFin now).orElse
        (·.emitOwedAck) := by
  simp only [pollTransmit, hreset, h]

/-- One octet is queued, the windows are open and nothing is in flight: it is sent. -/
theorem poll_octet (now : Instant) (h : t.core.Plain) (hreset : t.pendingReset = none) (hidle : t.sndNxt = t.sndUna)
    (htx : t.tx.len = 1) (hwnd : 0 < t.sndWnd) (hcwnd : 0 < t.cc.cwnd) (hmss : 0 < t.sndMss) :
    ∃ d, (t.pollTransmit now).2 = some d ∧
      (t.pollTransmit now).1.core =
        t.core.sent { t.toSendSpace with sndNxt := t.sndNxt + 1 } .established ∧
      (t.pollTransmit now).1.pendingReset = none ∧ (t.pollTransmit now).1.cc = t.cc ∧
      d.parse.Text ∧ d.repr.seq = t.sndNxt ∧ d.repr.ack = t.rcvNxt ∧ d.payload.len = 1 := by
  rw [poll_established h.state hreset]
  have hstate : t.state = .established := h.state
  generalize hu : ({ t with curTsval := BitVec.ofNat 32 now.micros } : Tcb Reno) = u
  have hcore : u.core = t.core := by rw [← hu]; rfl
  have hplain : u.core.Plain := by rw [hcore]; exact h
  have hflight : u.inflight = 0 := by
    rw [← hu]
    change t.sndNxt.offsetFrom t.sndUna = 0
    rw [hidle, SeqNumber.offsetFrom_self]
  have hunsent : u.unsentData = 1 := by
    rw [unsentData, sentData, hflight, ← hu]
    change t.tx.len - min 0 t.tx.len = 1
    omega
  -- no option and nothing in flight: both windows are open by what they hold
  have hrwnd : u.rwndRoom = t.sndWnd := by
    rw [rwndRoom, hflight, ← hu]
    exact Nat.sub_zero _
  have hcroom : u.cwndRoom = t.cc.cwnd := by
    have hsack : u.sackEnabled = false := hplain.sack
    simp only [cwndRoom, hsack, hflight]
    rw [← hu]
    exact Nat.sub_zero _
  have hpace : ∀ n, u.pace now n = (u, n) := fun n => rfl
  have hseg : u.maxSegmentPayload = t.sndMss := by
    rw [maxSegmentPayload_plain hplain, ← hu]
  have hroom : 0 < min u.cwndRoom u.rwndRoom := by omega
  have hone : min (min (min u.cwndRoom u.rwndRoom) u.unsentData) u.maxSegmentPayload = 1 := by omega
  have hsend : u.sendNewData now =
      (u.emit u.sndNxt { psh := u.sentData + 1 = u.tx.len } (u.tx.peek u.sentData 1)).after
        fun v => (v.noteSent now 1 (min u.cwndRoom u.rwndRoom)).startRtx now := by
    simp only [sendNewData, hpace, hroom, if_true, sendAllowed, hone, Nat.one_pos]
  rw [transmit_idle hplain (by rw [← hu]; exact hidle), hsend]
  simp only [emit, Emit.after, Emit.orElse]
  have hbuilt : ∀ seq extra payload, (u.build seq extra payload).1.core =
      t.core.sent t.toSendSpace .established ∧ (u.build seq extra payload).1.pendingReset = none ∧
        (u.build seq extra payload).1.cc = t.cc := by
    intro seq extra payload
    rw [core_build, hcore, ← hu, ← hstate]
    exact ⟨rfl, hreset, rfl⟩
  have hnoted : ∀ v : Tcb Reno, ((v.noteSent now 1 (min u.cwndRoom u.rwndRoom)).startRtx now).core =
      { v.core with sndNxt := v.sndNxt + 1 } ∧
      ((v.noteSent now 1 (min u.cwndRoom u.rwndRoom)).startRtx now).pendingReset = v.pendingReset ∧
      ((v.noteSent now 1 (min u.cwndRoom u.rwndRoom)).startRtx now).cc = v.cc := by
    intro v
    rw [core_startRtx, core_noteSent]
    refine ⟨rfl, ?_, ?_⟩
    · unfold startRtx
      split <;> simp only [noteSent] <;> split <;> split <;> rfl
    · unfold startRtx
      split <;> simp only [noteSent] <;> split <;> split <;> rfl
  refine ⟨_, rfl, ?_, ?_, ?_, ⟨?_, ?_, ?_, ?_⟩, ?_, ?_, ?_⟩
  · rw [(hnoted _).1, (hbuilt _ _ _).1, ← hu]
    rfl
  · rw [(hnoted _).2.1]
    exact (hbuilt _ _ _).2.1
  · rw [(hnoted _).2.2]
    exact (hbuilt _ _ _).2.2
  · exact aceFlags_syn ..
  · exact aceFlags_rst ..
  · exact aceFlags_fin ..
  · exact aceFlags_ack ..
  · rw [← hu]
    rfl
  · rw [← hu]
    rfl
  · change (u.tx.peek u.sentData 1).len = 1
    rw [RingBuffer.peek_len, sentData, hflight, ← hu]
    change min 1 (t.tx.len - min 0 t.tx.len) = 1
    omega

/-- Nothing is queued and an ACK is owed: it is sent. -/
theorem poll_owed (now : Instant) (h : t.core.Plain) (hreset : t.pendingReset = none) (hidle : t.sndNxt = t.sndUna)
    (htx : t.tx.len = 0) (howed : t.needsAck = true) :
    ∃ d, (t.pollTransmit now).2 = some d ∧
      (t.pollTransmit now).1.core = t.core.sent t.toSendSpace .established ∧
      (t.pollTransmit now).1.pendingReset = none ∧
      d.parse.Text ∧ d.repr.seq = t.sndNxt ∧ d.repr.ack = t.rcvNxt ∧ d.payload.len = 0 ∧
      d.repr.window = windowField false t.rcvWscale (t.toRecvSpace.advertisedWindow t.rcvWscale).2 := by
  rw [poll_established h.state hreset]
  have hstate : t.state = .established := h.state
  generalize hu : ({ t with curTsval := BitVec.ofNat 32 now.micros } : Tcb Reno) = u
  have hcore : u.core = t.core := by rw [← hu]; rfl
  have hplain : u.core.Plain := by rw [hcore]; exact h
  have hunsent : u.unsentData = 0 := by
    rw [unsentData, ← hu]
    change t.tx.len - _ = 0
    omega
  have hnone : u.sendNewData now = (u, none) := by
    have hpace : ∀ n, u.pace now n = (u, n) := fun n => rfl
    simp only [sendNewData, hpace, sendAllowed, hunsent, Nat.min_zero, Nat.zero_min]
    simp
  have hfin : u.sendFin now = (u, none) := by
    have : u.finQueued = false := hplain.finQueued
    simp [sendFin, this]
  have hack : u.needsAck = true := by rw [← hu]; exact howed
  rw [transmit_idle hplain (by rw [← hu]; exact hidle), hnone, Emit.orElse, hfin, Emit.orElse,
    emitOwedAck, if_pos hack]
  refine ⟨_, rfl, ?_, ?_, ⟨?_, ?_, ?_, ?_⟩, ?_, ?_, ?_, ?_⟩
  · rw [← hu, ← hstate]
    rfl
  · rw [← hu]
    exact hreset
  · exact aceFlags_syn ..
  · exact aceFlags_rst ..
  · exact aceFlags_fin ..
  · exact aceFlags_ack ..
  · rw [← hu]
    rfl
  · rw [← hu]
    rfl
  · rfl
  · rw [← hu]
    rfl

/-- Reno never closes its window on an ACK. -/
theorem cwnd_onAck (c : Reno) (n : Nat) (h : 0 < c.cwnd) : 0 < (c.onAck n).cwnd := by
  have hmax : 0 < u32Max := by decide
  have hloop : ∀ fuel (c : Reno), 0 < c.cwnd → 0 < (Reno.creditLoop fuel c).cwnd := by
    intro fuel
    induction fuel with
    | zero => exact fun c h => h
    | succ fuel ih =>
      intro c h
      rw [Reno.creditLoop]
      split
      · refine ih _ ?_
        change 0 < min (c.cwnd + c.mss) u32Max
        omega
      · exact h
  simp only [Reno.onAck]
  split
  · exact h
  · split
    · change 0 < min (c.cwnd + min n c.mss) u32Max
      omega
    · exact hloop _ _ h

theorem cc_onText (u : Tcb Reno) (p : TcpPacket) (ce : Bool) : (u.onText now p ce).cc = u.cc := by
  have hsched : ∀ (v : Tcb Reno) (b : Bool), (v.scheduleAck now b).cc = v.cc := by
    intro v b
    simp only [scheduleAck, armDelayedAck]
    split
    · split
      · rfl
      · split <;> rfl
    · rfl
  have hdata : (u.onData now p ce).cc = u.cc := by
    simp only [onData]
    split
    · rfl
    · rw [hsched]
      split <;> rfl
  have hfin : ∀ v : Tcb Reno, (v.onFin p).cc = v.cc := by
    intro v
    unfold onFin
    split <;> rfl
  have hpend : ∀ v : Tcb Reno, v.onPendingFin.cc = v.cc := by
    intro v
    unfold onPendingFin
    split
    · split <;> rfl
    · rfl
  have hclose : ∀ v : Tcb Reno, (v.recomputeClosingState now).cc = v.cc := by
    intro v
    simp only [recomputeClosingState]
    split
    · split <;> rfl
    · rfl
  rw [onText, hclose, hpend, hfin, hdata]

theorem cwnd_ackAdvance (h : t.sackEnabled = false) (hcwnd : 0 < t.cc.cwnd) (a : SeqNumber)
    (e : Option (BitVec 32)) (ace : Nat) : 0 < (t.ackAdvance a e ace now).cc.cwnd := by
  have htimer : ∀ v : Tcb Reno, (v.ackTimer now).cc = v.cc := by
    intro v
    simp only [ackTimer]
    split <;> split <;> rfl
  have hrtt : ∀ v : Tcb Reno, (v.ackRtt now a e).cc = v.cc := by
    intro v
    simp only [ackRtt]
    split
    · split
      · split <;> rfl
      · rfl
    · split
      · rfl
      · split
        · split <;> rfl
        · rfl
  have hgbn : ∀ v : Tcb Reno, v.ackGbn.cc = v.cc := by
    intro v
    simp only [ackGbn]
    split
    · split <;> rfl
    · rfl
  have hecn : ∀ (v : Tcb Reno) n b, (v.ackEcn now ace n b).cc = v.cc := by
    intro v n b
    simp only [ackEcn]
    split
    · split <;> rfl
    · rfl
  have hboard : ∀ v : Tcb Reno, v.sackEnabled = false → v.ackScoreboard now = v := by
    intro v hv
    simp [ackScoreboard, hv]
  have hkeep : ∀ (v : Tcb Reno) n b, (v.ackEcn now ace n b).sackEnabled = v.sackEnabled := by
    intro v n b
    simp only [ackEcn]
    split
    · split <;> rfl
    · rfl
  simp only [ackAdvance, htimer, hrtt, hgbn]
  rw [hboard _ (by rw [hkeep]; exact h), hecn]
  simp only [ackSample, h, Bool.false_and, Bool.false_eq_true, if_false]
  exact cwnd_onAck _ _ hcwnd

/-- The congestion window stays open on an ACK that is not a duplicate. -/
theorem cwnd_onSegment {p : TcpPacket} (now : Instant) (ce : Bool) (h : t.core.Plain) (hp : p.Text)
    (hcwnd : 0 < t.cc.cwnd) (hacc : t.toRecvSpace.segmentAcceptable p.seq p.segLen = true)
    (hack : p.ack.gt t.sndNxt = false) (hdup : t.isDupAck p = false) :
    0 < (t.onSegment now p ce).cc.cwnd := by
  have hstate : t.state = .established := h.state
  have hts : t.tsEnabled = false := h.ts
  have hsack : t.sackEnabled = false := h.sack
  have hpaws : t.pawsStale p = false := by simp [pawsStale, segTs, hts]
  have hrecent : t.advanceTsRecent p = t := by simp [advanceTsRecent, segTs, hts]
  have hproc : ∃ u, t.processAck p.seq p.ack p.window ((t.segTs p).map (·.2)) p.ace now = .ok u ∧
      0 < u.cc.cwnd ∧ u.sackEnabled = false := by
    refine ⟨_, by rw [processAck, if_neg (by simp [hack])], ?_, ?_⟩
    · have hwin : ∀ (v : Tcb Reno) q a w, (v.updateWindow q a w).cc = v.cc := by
        intro v q a w
        simp only [updateWindow]
        split <;> rfl
      rw [hwin]
      split
      · exact cwnd_ackAdvance hsack hcwnd ..
      · exact hcwnd
    · rw [← hsack]
      split
      · exact (congrArg (fun c : Core => c.sackEnabled) (core_updateWindow _ _ _ _)).trans
          (congrArg (fun c : Core => c.sackEnabled) (core_ackAdvance ..))
      · exact congrArg (fun c : Core => c.sackEnabled) (core_updateWindow ..)
  obtain ⟨u, hu, hucwnd, husack⟩ := hproc
  have hon : t.onAck now p = .ok u := by
    simp only [onAck, hstate, hu, hdup, husack]
    rfl
  simp only [onSegment, hstate, hp.rst, hp.syn, hpaws, hacc, onAcceptable, hrecent, hp.ack, hon]
  change 0 < (u.onText now p ce).cc.cwnd
  rw [cc_onText]
  exact hucwnd

end Tcb

/-! ## One round, host by host -/

namespace Host

/-- The two initial sequence numbers. -/
def issA : SeqNumber := SeqNumber.new 100
def issB : SeqNumber := SeqNumber.new 4294967290

/-- The side that sends: `SND.UNA` and `SND.NXT` at `una` and `nxt`, `len` octets in
the buffer, windows open. -/
structure Sends (una nxt len : Nat) (r : Host Reno) : Prop where
  plain : r.tcb.core.Plain
  calm : r.tcb.pendingReset = none
  at_una : r.tcb.sndUna = issA + una
  at_nxt : r.tcb.sndNxt = issA + nxt
  tx : r.tcb.tx.len = len
  cap : r.tcb.tx.capacity = 262144
  una : r.una = una
  wnd : 0 < r.tcb.sndWnd
  cwnd : 0 < r.tcb.cc.cwnd
  mss : 0 < r.tcb.sndMss
  rcv : r.rcv = 1
  at_rcv : r.tcb.rcvNxt = issB + 1
  edge : ∃ a, 65536 ≤ a ∧ a ≤ 262145 ∧ r.tcb.rcvAdv = issB + a

/-- The side that receives: `RCV.NXT` at `pos`, `len` octets in the ring, room for
at least `room` more. -/
structure Hears (pos len room : Nat) (r : Host Reno) : Prop where
  plain : r.tcb.core.Plain
  calm : r.tcb.pendingReset = none
  at_una : r.tcb.sndUna = issB + 1
  at_nxt : r.tcb.sndNxt = issB + 1
  tx : r.tcb.tx.len = 0
  una : r.una = 1
  rcv : r.rcv = pos
  at_rcv : r.tcb.rcvNxt = issA + pos
  edge : ∃ a, pos + room ≤ a ∧ a ≤ pos + 262144 ∧ r.tcb.rcvAdv = issA + a
  rx : r.tcb.rx.len = len
  cap : r.tcb.rx.capacity = 262144
  reasm : r.tcb.reasm.buffered = 0
  scale : r.tcb.rcvWscale = 0

/-- The octet at position `pos` of the sender's stream. -/
structure Octet (pos : Nat) (d : Datagram) : Prop where
  text : d.parse.Text
  seq : d.repr.seq = issA + pos
  ack : d.repr.ack = issB + 1
  len : d.payload.len = 1

/-- The ACK of everything below position `pos`. -/
structure Acks (pos : Nat) (d : Datagram) : Prop where
  text : d.parse.Text
  seq : d.repr.seq = issB + 1
  ack : d.repr.ack = issA + pos
  len : d.payload.len = 0
  window : 0 < d.repr.window

variable {r : Host Reno} {una nxt len pos room : Nat} {d : Datagram} {now : Instant} {ce : Bool}

theorem follow_established (h : r.tcb.state = .established) (t : Tcb Reno) :
    (r.follow t).una = r.una + t.sndUna.offsetFrom r.tcb.sndUna ∧
      (r.follow t).rcv = r.rcv + t.rcvNxt.offsetFrom r.tcb.rcvNxt := by
  simp [follow, h]

theorem Sends.send (h : r.Sends una una 0) :
    (r.input (.send (Bytes.ofList [0]))).1.Sends una una 1 := by
  have hstate : r.tcb.state = .established := h.plain.state
  have hsend : r.tcb.send (Bytes.ofList [0]) =
      ({ r.tcb with tx := (r.tcb.tx.write (Bytes.ofList [0])).1 },
        (r.tcb.tx.write (Bytes.ofList [0])).2) := by
    simp only [Tcb.send, hstate]
  simp only [input, hsend]
  obtain ⟨h1, h2⟩ := follow_established hstate
    { r.tcb with tx := (r.tcb.tx.write (Bytes.ofList [0])).1 }
  have hlen : (r.tcb.tx.write (Bytes.ofList [0])).1.len = 1 := by
    rw [RingBuffer.write_len, RingBuffer.write_snd, h.cap, h.tx]
    rfl
  refine ⟨⟨hstate, h.plain.finQueued, h.plain.sack, h.plain.ts, h.plain.seen, h.plain.pending⟩, h.calm,
    h.at_una, h.at_nxt, hlen, h.cap, ?_, h.wnd, h.cwnd, h.mss, ?_, h.at_rcv, h.edge⟩
  · refine h1.trans ?_
    rw [SeqNumber.offsetFrom_self]
    exact h.una
  · refine h2.trans ?_
    rw [SeqNumber.offsetFrom_self]
    exact h.rcv

/-- Where the advertised edge is after a segment was built. -/
theorem edge_sent {v : RecvSpace} {iss : SeqNumber} {a w : Nat} (hn : v.rcvNxt = iss + pos)
    (ha : v.rcvAdv = iss + a) (h1 : pos ≤ a) (h2 : a ≤ pos + 262144) :
    (v.advertisedWindow w).1.rcvAdv = iss + max a (pos + v.room w) ∧
      (v.advertisedWindow w).2 = max a (pos + v.room w) - pos ∧ v.room w ≤ 262144 := by
  obtain ⟨h3, h4⟩ := RecvSpace.advertisedWindow_eq hn ha (by omega) h2 w
  refine ⟨h3, h4, ?_⟩
  have : rxBuffer = 262144 := rfl
  unfold RecvSpace.room
  omega

theorem Sends.poll (h : r.Sends una una 1) (now : Instant) :
    (r.input (.poll now)).1.Sends una (una + 1) 1 ∧
      ∃ d, (r.input (.poll now)).2 = some d ∧ Octet una d := by
  have hstate : r.tcb.state = .established := h.plain.state
  obtain ⟨d, hd, hcore, hcalm, hcc, htext, hseq, hack, hlen⟩ := Tcb.poll_octet now h.plain
    h.calm (by rw [h.at_nxt, h.at_una]) h.tx h.wnd h.cwnd h.mss
  refine ⟨?_, d, hd, htext, by rw [hseq, h.at_nxt], by rw [hack, h.at_rcv], hlen⟩
  simp only [input]
  generalize (r.tcb.pollTransmit now).1 = t at hcore hcalm hcc
  obtain ⟨h1, h2⟩ := follow_established hstate t
  have hsend : t.toSendSpace = { r.tcb.toSendSpace with sndNxt := r.tcb.sndNxt + 1 } :=
    congrArg Core.toSendSpace hcore
  have hrecv : t.toRecvSpace = (r.tcb.toRecvSpace.advertisedWindow r.tcb.rcvWscale).1 :=
    congrArg Core.toRecvSpace hcore
  obtain ⟨a, ha1, ha2, ha⟩ := h.edge
  obtain ⟨h3, -, h5⟩ := edge_sent (w := r.tcb.rcvWscale) h.at_rcv ha (by omega) (by omega)
  have hplain : t.core.Plain := by
    rw [hcore]
    exact ⟨rfl, h.plain.finQueued, h.plain.sack, h.plain.ts, h.plain.seen, h.plain.pending⟩
  refine ⟨hplain, hcalm, ?_, ?_, ?_, ?_, ?_, ?_, ?_, ?_, ?_, ?_, ?_⟩
  · change t.toSendSpace.sndUna = _
    rw [hsend]
    exact h.at_una
  · change t.toSendSpace.sndNxt = _
    rw [hsend]
    change r.tcb.sndNxt + 1 = _
    rw [h.at_nxt, SeqNumber.add_add]
  · change t.toSendSpace.tx.len = _
    rw [hsend]
    exact h.tx
  · change t.toSendSpace.tx.capacity = _
    rw [hsend]
    exact h.cap
  · rw [h1, hsend, SeqNumber.offsetFrom_self]
    exact h.una
  · change 0 < t.core.sndWnd
    rw [hcore]
    exact h.wnd
  · change 0 < t.cc.cwnd
    rw [hcc]
    exact h.cwnd
  · change 0 < t.core.sndMss
    rw [hcore]
    exact h.mss
  · rw [h2, hrecv]
    change r.rcv + r.tcb.rcvNxt.offsetFrom r.tcb.rcvNxt = 1
    rw [SeqNumber.offsetFrom_self]
    exact h.rcv
  · change t.toRecvSpace.rcvNxt = _
    rw [hrecv]
    exact h.at_rcv
  · refine ⟨max a (1 + r.tcb.toRecvSpace.room r.tcb.rcvWscale), by omega, by omega, ?_⟩
    change t.toRecvSpace.rcvAdv = _
    rw [hrecv]
    exact h3

/-- The ACK is in the window of the sender, and not past what was sent. -/
theorem Sends.ack (h : r.Sends una (una + 1) 1) (now : Instant) (ce : Bool) (hd : Acks (una + 1) d) :
    (r.follow (r.tcb.onSegment now d.parse ce)).Sends (una + 1) (una + 1) 0 ∧
      r.tcb.reads d.parse = true := by
  have hstate : r.tcb.state = .established := h.plain.state
  obtain ⟨a, ha1, ha2, ha⟩ := h.edge
  have hseg : d.parse.segLen = 0 := by
    simp only [TcpPacket.segLen, hd.text.syn, hd.text.fin]
    exact hd.len
  have hacc : r.tcb.toRecvSpace.segmentAcceptable d.parse.seq d.parse.segLen = true := by
    have hne : ¬ r.tcb.rcvAdv = r.tcb.rcvNxt := by
      rw [ha, h.at_rcv, SeqNumber.pos_eq _ (by omega) (by omega)]
      omega
    have hseq : d.parse.seq = issB + 1 := hd.seq
    rw [RecvSpace.segmentAcceptable, if_pos hseg, RecvSpace.seqInWindow, if_neg hne, hseq, h.at_rcv, ha,
      SeqNumber.pos_ge _ (by omega) (by omega), SeqNumber.pos_lt _ (by omega) (by omega)]
    simp
    omega
  have hat : d.parse.ack = issA + (una + 1) := hd.ack
  have hnew : d.parse.ack.gt r.tcb.sndUna = true := by
    rw [hat, h.at_una, SeqNumber.pos_gt _ (by omega) (by omega)]
    simp
  have hold : d.parse.ack.gt r.tcb.sndNxt = false := by
    rw [hat, h.at_nxt, SeqNumber.pos_gt _ (by omega) (by omega)]
    simp
  have hdup : r.tcb.isDupAck d.parse = false := by
    have hne : ¬ d.parse.ack = r.tcb.sndUna := by
      rw [hat, h.at_una, SeqNumber.pos_eq _ (by omega) (by omega)]
      omega
    simp [Tcb.isDupAck, hne]
  have hcwnd := Tcb.cwnd_onSegment now ce h.plain hd.text h.cwnd hacc hold hdup
  have hadm := h.plain.admits hd.text hacc
  have hv := h.plain.validAck (p := d.parse) hold
  have hcore := (r.tcb.core_onSegment now d.parse ce).trans (h.plain.taken hd.text hadm hv)
  -- no payload: the receive space stays
  have hdata : r.tcb.toRecvSpace.acceptData false d.parse = r.tcb.toRecvSpace := by
    have hempty : d.parse.payload.isEmpty = true := Bytes.isEmpty_iff.mpr hd.len
    rw [RecvSpace.acceptData, if_pos hempty]
  have hacked : r.tcb.core.ackedSend d.parse = r.tcb.toSendSpace.consume d.parse.ack := by
    have hne : ¬ r.tcb.core.state = .synReceived := by simp [hstate]
    have hnew' : d.parse.ack.gt r.tcb.core.sndUna = true := hnew
    rw [Core.ackedSend, if_neg hne, if_pos hnew']
    rfl
  have hst : (r.tcb.onSegment now d.parse ce).state = .established := by
    refine (congrArg Core.state hcore).trans ?_
    simp [Core.acked, Core.ackedState, hstate]
  have hcalm : (r.tcb.onSegment now d.parse ce).pendingReset = none :=
    (congrArg Prod.fst (r.tcb.alarms_onSegment now (by simp [hstate]) d.parse ce (by simp [hst])
      (by simp [hst]) (by simp [hst]))).trans h.calm
  generalize r.tcb.onSegment now d.parse ce = t at hcwnd hcore hst hcalm
  obtain ⟨h1, h2⟩ := follow_established hstate t
  have hsend : t.toSendSpace = r.tcb.toSendSpace.consume d.parse.ack :=
    (congrArg Core.toSendSpace hcore).trans hacked
  have hrecv : t.toRecvSpace = r.tcb.toRecvSpace := (congrArg Core.toRecvSpace hcore).trans hdata
  have hplain : t.core.Plain := by
    have hdata' : r.tcb.core.toRecvSpace.acceptData false d.parse = r.tcb.toRecvSpace := hdata
    rw [hcore, hdata']
    exact (h.plain.acked d.parse).withRecv rfl rfl
  have hopts : t.toOptions = r.tcb.toOptions := congrArg Core.toOptions hcore
  refine ⟨⟨hplain, hcalm, ?_, ?_, ?_, ?_, ?_, ?_, hcwnd, ?_, ?_, ?_, ?_⟩,
    by simp [Tcb.reads, Tcb.takesIn, hstate, hadm, hv, hnew]⟩
  · change t.toSendSpace.sndUna = _
    rw [hsend]
    exact hat
  · change t.toSendSpace.sndNxt = _
    rw [hsend]
    exact h.at_nxt
  · change t.toSendSpace.tx.len = 0
    rw [hsend]
    change (r.tcb.tx.consume (r.tcb.toSendSpace.dataAcked d.parse.ack)).len = 0
    rw [RingBuffer.consume_len, SendSpace.dataAcked, hat, h.at_una, h.tx,
      SeqNumber.offsetFrom_pos_le _ (by omega) (by omega)]
    omega
  · change t.toSendSpace.tx.capacity = _
    rw [hsend]
    exact h.cap
  · rw [h1, hsend]
    change r.una + d.parse.ack.offsetFrom r.tcb.sndUna = _
    rw [hat, h.at_una, h.una, SeqNumber.offsetFrom_pos_le _ (by omega) (by omega)]
    omega
  · -- the window is the old one, or the positive one of the ACK
    change 0 < t.core.sndWnd
    rw [hcore]
    change 0 < (r.tcb.toSendWindow.update r.tcb.sndWscale d.parse.seq d.parse.ack d.parse.window).sndWnd
    unfold SendWindow.update
    split
    · change 0 < d.repr.window <<< r.tcb.sndWscale
      rw [Nat.shiftLeft_eq]
      exact Nat.mul_pos hd.window (Nat.two_pow_pos _)
    · exact h.wnd
  · change 0 < t.toOptions.sndMss
    rw [hopts]
    exact h.mss
  · rw [h2, hrecv, SeqNumber.offsetFrom_self]
    exact h.rcv
  · change t.toRecvSpace.rcvNxt = _
    rw [hrecv]
    exact h.at_rcv
  · refine ⟨a, ha1, ha2, ?_⟩
    change t.toRecvSpace.rcvAdv = _
    rw [hrecv]
    exact ha

/-- The octet at `RCV.NXT` goes into the ring. -/
theorem Hears.octet (h : r.Hears pos 0 1) (now : Instant) (ce : Bool) (hd : Octet pos d) :
    (r.follow (r.tcb.onSegment now d.parse ce)).Hears (pos + 1) 1 0 ∧
      r.tcb.counts d.parse ce = ce := by
  have hstate : r.tcb.state = .established := h.plain.state
  obtain ⟨a, ha1, ha2, ha⟩ := h.edge
  have hlen : d.parse.payload.len = 1 := hd.len
  have hseg : d.parse.segLen = 1 := by
    simp only [TcpPacket.segLen, hd.text.syn, hd.text.fin, hlen]
    rfl
  have hseq : d.parse.seq = r.tcb.rcvNxt := hd.seq.trans h.at_rcv.symm
  have hacc : r.tcb.toRecvSpace.segmentAcceptable d.parse.seq d.parse.segLen = true := by
    have hne : ¬ r.tcb.rcvAdv = r.tcb.rcvNxt := by
      rw [ha, h.at_rcv, SeqNumber.pos_eq _ (by omega) (by omega)]
      omega
    have hge : r.tcb.rcvNxt.ge r.tcb.rcvNxt = true := by
      rw [h.at_rcv, SeqNumber.pos_ge _ (by omega) (by omega)]
      simp
    have hlt : r.tcb.rcvNxt.lt r.tcb.rcvAdv = true := by
      rw [h.at_rcv, ha, SeqNumber.pos_lt _ (by omega) (by omega)]
      simp
      omega
    rw [RecvSpace.segmentAcceptable, hseg, if_neg (by omega), if_neg hne, hseq, hge, hlt]
    rfl
  have hold : d.parse.ack.gt r.tcb.sndNxt = false := by
    have hat : d.parse.ack = issB + 1 := hd.ack
    rw [hat, h.at_nxt, SeqNumber.pos_gt _ (by omega) (by omega)]
    simp
  have hnew : d.parse.ack.gt r.tcb.sndUna = false := by
    have hat : d.parse.ack = issB + 1 := hd.ack
    rw [hat, h.at_una, SeqNumber.pos_gt _ (by omega) (by omega)]
    simp
  have hadm := h.plain.admits hd.text hacc
  have hv := h.plain.validAck (p := d.parse) hold
  have hcore := (r.tcb.core_onSegment now d.parse ce).trans (h.plain.taken hd.text hadm hv)
  -- nothing is trimmed, and the ring has room
  have htrim : r.tcb.toRecvSpace.leftTrim d.parse.seq d.parse.payload =
      (r.tcb.rcvNxt, d.parse.payload) := by
    have hlt : r.tcb.rcvNxt.lt r.tcb.rcvNxt = false := by
      rw [h.at_rcv, SeqNumber.pos_lt _ (by omega) (by omega)]
      simp
    rw [RecvSpace.leftTrim, hseq, hlt]
    rfl
  have hfull : d.parse.payload.isEmpty = false := Bytes.isEmpty_eq_false.mpr (by omega)
  have hroom : (r.tcb.rx.write d.parse.payload).2 = 1 := by
    rw [RingBuffer.write_snd, h.cap, h.rx, hlen]
    rfl
  have hdata : r.tcb.toRecvSpace.acceptData false d.parse = { r.tcb.toRecvSpace with
      rx := (r.tcb.rx.write d.parse.payload).1, rcvNxt := r.tcb.rcvNxt + 1 } := by
    simp only [RecvSpace.acceptData, hfull, htrim, RecvSpace.ingest, RecvSpace.writeInOrder, hroom]
    rfl
  have hacked : r.tcb.core.ackedSend d.parse = r.tcb.toSendSpace := by
    have hne : ¬ r.tcb.core.state = .synReceived := by simp [hstate]
    have hnew' : ¬ d.parse.ack.gt r.tcb.core.sndUna = true := by
      change ¬ d.parse.ack.gt r.tcb.sndUna = true
      simp [hnew]
    rw [Core.ackedSend, if_neg hne, if_neg hnew']
    rfl
  have hst : (r.tcb.onSegment now d.parse ce).state = .established := by
    refine (congrArg Core.state hcore).trans ?_
    simp [Core.acked, Core.ackedState, hstate]
  have hcalm : (r.tcb.onSegment now d.parse ce).pendingReset = none :=
    (congrArg Prod.fst (r.tcb.alarms_onSegment now (by simp [hstate]) d.parse ce (by simp [hst])
      (by simp [hst]) (by simp [hst]))).trans h.calm
  constructor
  · generalize r.tcb.onSegment now d.parse ce = t at hcore hst hcalm
    obtain ⟨h1, h2⟩ := follow_established hstate t
    have hsend : t.toSendSpace = r.tcb.toSendSpace := (congrArg Core.toSendSpace hcore).trans hacked
    have hrecv := (congrArg Core.toRecvSpace hcore).trans hdata
    have hopts : t.toOptions = r.tcb.toOptions := congrArg Core.toOptions hcore
    have hrecv' : t.toRecvSpace = { r.tcb.toRecvSpace with
        rx := (r.tcb.rx.write d.parse.payload).1, rcvNxt := r.tcb.rcvNxt + 1 } := hrecv
    have hplain : t.core.Plain := by
      have hdata' : r.tcb.core.toRecvSpace.acceptData false d.parse = _ := hdata
      rw [hcore, hdata']
      exact (h.plain.acked d.parse).withRecv rfl rfl
    have hnext : t.rcvNxt = issA + (pos + 1) := by
      rw [hrecv']
      change r.tcb.rcvNxt + 1 = _
      rw [h.at_rcv, SeqNumber.add_add]
    refine ⟨hplain, hcalm, ?_, ?_, ?_, ?_, ?_, hnext, ⟨a, by omega, by omega, ?_⟩, ?_, ?_, ?_, ?_⟩
    · change t.toSendSpace.sndUna = _
      rw [hsend]
      exact h.at_una
    · change t.toSendSpace.sndNxt = _
      rw [hsend]
      exact h.at_nxt
    · change t.toSendSpace.tx.len = 0
      rw [hsend]
      exact h.tx
    · rw [h1, hsend, SeqNumber.offsetFrom_self]
      exact h.una
    · rw [h2, hnext, h.at_rcv, h.rcv, SeqNumber.offsetFrom_pos_le _ (by omega) (by omega)]
      omega
    · change t.toRecvSpace.rcvAdv = _
      rw [hrecv']
      exact ha
    · change t.toRecvSpace.rx.len = 1
      rw [hrecv']
      change (r.tcb.rx.write d.parse.payload).1.len = 1
      rw [RingBuffer.write_len, hroom, h.rx]
    · change t.toRecvSpace.rx.capacity = _
      rw [hrecv']
      exact h.cap
    · change t.toRecvSpace.reasm.buffered = 0
      rw [hrecv']
      exact h.reasm
    · change t.toOptions.rcvWscale = 0
      rw [hopts]
      exact h.scale
  · have hmoves : r.tcb.toRecvSpace.contributes r.tcb.sackEnabled d.parse = true := by
      have hsack : r.tcb.sackEnabled = false := h.plain.sack
      have hne : ¬ r.tcb.rcvNxt + 1 = r.tcb.rcvNxt := by
        rw [h.at_rcv, SeqNumber.add_add, SeqNumber.pos_eq _ (by omega) (by omega)]
        omega
      simp only [RecvSpace.contributes, hsack, hdata]
      simp [hne]
    simp [Tcb.counts, Tcb.takesIn, hadm, hv, hmoves]

/-- The same octet once more is answered. -/
theorem Hears.again (h : r.Hears (pos + 1) len 0) (now : Instant) (ce : Bool) (hd : Octet pos d) :
    (r.follow (r.tcb.onSegment now d.parse ce)).Hears (pos + 1) len 0 ∧
      (r.tcb.onSegment now d.parse ce).needsAck = true ∧ r.tcb.counts d.parse ce = false := by
  have hstate : r.tcb.state = .established := h.plain.state
  obtain ⟨a, ha1, ha2, ha⟩ := h.edge
  have hlen : d.parse.payload.len = 1 := hd.len
  have hseg : d.parse.segLen = 1 := by
    simp only [TcpPacket.segLen, hd.text.syn, hd.text.fin, hlen]
    rfl
  have hacc : r.tcb.toRecvSpace.segmentAcceptable d.parse.seq d.parse.segLen = false := by
    have hseq : d.parse.seq = issA + pos := hd.seq
    have hge : (issA + pos).ge r.tcb.rcvNxt = false := by
      rw [h.at_rcv, SeqNumber.pos_ge _ (by omega) (by omega)]
      simp
    rw [RecvSpace.segmentAcceptable, hseg, if_neg (by omega)]
    split
    · rfl
    · simp only [hseq, Nat.sub_self, SeqNumber.add_zero, hge, Bool.false_and, Bool.or_self]
  have hdrop : r.tcb.onSegment now d.parse ce = { r.tcb with needsAck := true } := by
    have hts : r.tcb.tsEnabled = false := h.plain.ts
    have hpaws : r.tcb.pawsStale d.parse = false := by simp [Tcb.pawsStale, Tcb.segTs, hts]
    simp [Tcb.onSegment, hstate, hd.text.rst, hd.text.syn, hpaws, hacc]
  have hno : r.tcb.core.admits d.parse = false := by
    simp [Core.admits, hacc]
  rw [hdrop]
  obtain ⟨h1, h2⟩ := follow_established hstate { r.tcb with needsAck := true }
  refine ⟨⟨h.plain, h.calm, h.at_una, h.at_nxt, h.tx, ?_, ?_, h.at_rcv, h.edge, h.rx, h.cap, h.reasm,
    h.scale⟩, rfl, by simp [Tcb.counts, Tcb.takesIn, hno]⟩
  · refine h1.trans ?_
    rw [SeqNumber.offsetFrom_self]
    exact h.una
  · refine h2.trans ?_
    rw [SeqNumber.offsetFrom_self]
    exact h.rcv

/-- The application reads it. -/
theorem Hears.read (h : r.Hears pos 1 0) :
    (r.input (.recv 1)).1.Hears pos 0 0 ∧ (r.input (.recv 1)).1.tcb.needsAck = r.tcb.needsAck := by
  have hstate : r.tcb.state = .established := h.plain.state
  obtain ⟨h1, h2⟩ := follow_established hstate (r.tcb.recv 1).1
  refine ⟨⟨⟨hstate, h.plain.finQueued, h.plain.sack, h.plain.ts, h.plain.seen, h.plain.pending⟩, h.calm,
    h.at_una, h.at_nxt, h.tx, ?_, ?_, h.at_rcv, h.edge, ?_, h.cap, h.reasm, h.scale⟩, rfl⟩
  · refine h1.trans ?_
    change r.una + r.tcb.sndUna.offsetFrom r.tcb.sndUna = 1
    rw [SeqNumber.offsetFrom_self]
    exact h.una
  · refine h2.trans ?_
    change r.rcv + r.tcb.rcvNxt.offsetFrom r.tcb.rcvNxt = pos
    rw [SeqNumber.offsetFrom_self]
    exact h.rcv
  · change (r.tcb.rx.consume 1).len = 0
    rw [RingBuffer.consume_len, h.rx]

/-- And the ACK goes out, with an open window. -/
theorem Hears.poll (h : r.Hears pos 0 0) (howed : r.tcb.needsAck = true) (now : Instant) :
    (r.input (.poll now)).1.Hears pos 0 1 ∧ ∃ d, (r.input (.poll now)).2 = some d ∧ Acks pos d := by
  have hstate : r.tcb.state = .established := h.plain.state
  obtain ⟨d, hd, hcore, hcalm, htext, hseq, hack, hlen, hwin⟩ := Tcb.poll_owed now h.plain
    h.calm (by rw [h.at_nxt, h.at_una]) h.tx howed
  obtain ⟨a, ha1, ha2, ha⟩ := h.edge
  obtain ⟨h3, h4, h5⟩ := edge_sent (w := r.tcb.rcvWscale) h.at_rcv ha (by omega) (by omega)
  have hroom : r.tcb.toRecvSpace.room r.tcb.rcvWscale = 65535 := by
    rw [RecvSpace.room, h.rx, h.reasm, h.scale]
    rfl
  rw [hroom] at h3 h4
  constructor
  · simp only [input]
    generalize (r.tcb.pollTransmit now).1 = t at hcore hcalm
    obtain ⟨h1, h2⟩ := follow_established hstate t
    have hsend : t.toSendSpace = r.tcb.toSendSpace := congrArg Core.toSendSpace hcore
    have hrecv : t.toRecvSpace = (r.tcb.toRecvSpace.advertisedWindow r.tcb.rcvWscale).1 :=
      congrArg Core.toRecvSpace hcore
    have hopts : t.toOptions = r.tcb.toOptions := congrArg Core.toOptions hcore
    have hplain : t.core.Plain := by
      rw [hcore]
      exact ⟨rfl, h.plain.finQueued, h.plain.sack, h.plain.ts, h.plain.seen, h.plain.pending⟩
    refine ⟨hplain, hcalm, ?_, ?_, ?_, ?_, ?_, ?_, ⟨max a (pos + 65535), by omega, by omega, ?_⟩, ?_, ?_,
      ?_, ?_⟩
    · change t.toSendSpace.sndUna = _
      rw [hsend]
      exact h.at_una
    · change t.toSendSpace.sndNxt = _
      rw [hsend]
      exact h.at_nxt
    · change t.toSendSpace.tx.len = 0
      rw [hsend]
      exact h.tx
    · rw [h1, hsend, SeqNumber.offsetFrom_self]
      exact h.una
    · rw [h2, hrecv]
      change r.rcv + r.tcb.rcvNxt.offsetFrom r.tcb.rcvNxt = pos
      rw [SeqNumber.offsetFrom_self]
      exact h.rcv
    · change t.toRecvSpace.rcvNxt = _
      rw [hrecv]
      exact h.at_rcv
    · change t.toRecvSpace.rcvAdv = _
      rw [hrecv]
      exact h3
    · change t.toRecvSpace.rx.len = 0
      rw [hrecv]
      exact h.rx
    · change t.toRecvSpace.rx.capacity = _
      rw [hrecv]
      exact h.cap
    · change t.toRecvSpace.reasm.buffered = 0
      rw [hrecv]
      exact h.reasm
    · change t.toOptions.rcvWscale = 0
      rw [hopts]
      exact h.scale
  · refine ⟨d, hd, htext, by rw [hseq, h.at_nxt], by rw [hack, h.at_rcv], hlen, ?_⟩
    rw [hwin, h4, h.scale, windowField]
    simp only [Bool.false_eq_true, if_false, Nat.shiftRight_zero]
    omega

theorem Hears.fresh (h : r.Hears pos len room) {p : Packet} (hseq : pos ≤ p.seqPos + 2147483648)
    (hack : 1 ≤ p.ackPos) : r.Fresh p := by
  intro _ _
  have hnxt : r.nxt = 1 := by
    change r.una + r.tcb.sndNxt.offsetFrom r.tcb.sndUna = 1
    rw [h.una, h.at_una, h.at_nxt, SeqNumber.offsetFrom_self]
  rw [h.rcv, hnxt]
  omega

theorem Sends.fresh (h : r.Sends una (una + 1) len) {p : Packet} (hseq : 1 ≤ p.seqPos)
    (hack : una + 1 ≤ p.ackPos) : r.Fresh p := by
  intro _ _
  have hnxt : r.nxt = una + 1 := by
    change r.una + r.tcb.sndNxt.offsetFrom r.tcb.sndUna = una + 1
    rw [h.una, h.at_una, h.at_nxt, SeqNumber.offsetFrom_pos_le _ (by omega) (by omega)]
    omega
  rw [h.rcv, hnxt]
  omega

/-- The positions of the two packets of a round. -/
theorem Sends.label (h : r.Sends una una 1) (hd : Octet una d) :
    (r.label d).seqPos = una ∧ (r.label d).ackPos = 1 := by
  refine ⟨?_, h.rcv⟩
  change r.una + d.repr.seq.offsetFrom r.tcb.sndUna = una
  rw [hd.seq, h.at_una, h.una, SeqNumber.offsetFrom_self, Nat.add_zero]

theorem Hears.label (h : r.Hears pos len room) (hd : Acks pos d) :
    (r.label d).seqPos = 1 ∧ (r.label d).ackPos = pos := by
  refine ⟨?_, h.rcv⟩
  change r.una + d.repr.seq.offsetFrom r.tcb.sndUna = 1
  rw [hd.seq, h.at_una, h.una, SeqNumber.offsetFrom_self]

end Host

/-! ## The ledger, written out -/

namespace Ledger

/-- A ledger of two open hosts. -/
def book (A B : Host Reno) (wa wb : List Packet) (c : Nat) (em : List (Packet × Nat)) (d q : Nat) :
    Ledger Reno :=
  { world := { hostA := some A, hostB := some B, wireA := wa, wireB := wb }
    accepted := c, emitted := em, decoded := d, reported := q }

variable {A B : Host Reno} {wa wb : List Packet} {c d q : Nat} {em : List (Packet × Nat)}
  {now : Instant} {ce : Bool} {i : Nat} {p : Packet}

/-- What every step but the last meets. -/
def Regular (l : Ledger Reno) (act : Action) : Prop := l.Sparse .a act ∧ l.world.Prompt act

theorem step_send (data : Bytes) : step .a (book A B wa wb c em d q) (.send .a data) =
    some (book (A.input (.send data)).1 B wa wb c em d q) := by
  simp [step, book, World.apply, World.host, World.setHost, World.wire, marks, decodes, moves, emits,
    delivery, Host.input]

theorem step_recv (n : Nat) : step .a (book A B wa wb c em d q) (.recv .b n) =
    some (book A (B.input (.recv n)).1 wa wb c em d q) := by
  simp [step, book, World.apply, World.host, World.setHost, World.wire, marks, decodes, moves, emits,
    delivery, Host.input, Side.other]

theorem step_pollA {x : Datagram} (hx : (A.input (.poll now)).2 = some x) :
    step .a (book A B wa wb c em d q) (.poll .a now) =
      some (book (A.input (.poll now)).1 B (wa ++ [A.label x]) wb c em d q) := by
  have hx' : (A.tcb.pollTransmit now).2 = some x := hx
  simp [step, book, World.apply, World.host, World.setHost, World.wire, World.transmit, marks, decodes,
    moves, emits, delivery, Host.input, Side.other, hx']

theorem step_pollB {x : Datagram} (hx : (B.input (.poll now)).2 = some x) :
    step .a (book A B wa wb c em d q) (.poll .b now) =
      some (book A (B.input (.poll now)).1 wa (wb ++ [B.label x]) c (em ++ [(B.label x, c)]) d q) := by
  have hx' : (B.tcb.pollTransmit now).2 = some x := hx
  simp [step, book, World.apply, World.host, World.setHost, World.wire, World.transmit, marks, decodes,
    moves, emits, delivery, Host.input, Side.other, hx']

theorem step_octet (hp : wa[i]? = some p) :
    step .a (book A B wa wb c em d q) (.deliver .b i now ce) =
      some (book A (B.follow (B.tcb.onSegment now p.dgram.parse ce)) wa wb
        (c + (B.tcb.counts p.dgram.parse ce).toNat) em d q) := by
  simp [step, book, World.apply, World.host, World.setHost, World.wire, marks, decodes, moves, emits,
    delivery, Side.other, hp]

theorem apply_ack (hp : wb[i]? = some p) :
    (book A B wa wb c em d q).world.apply (.deliver .a i now ce) =
      some (book (A.follow (A.tcb.onSegment now p.dgram.parse ce)) B wa wb c em d q).world := by
  simp [book, World.apply, World.host, World.setHost, World.wire, Side.other, hp]

theorem moves_ack {m : Nat} (hm : em[i]? = some (p, m)) (A' : Host Reno) (hlt : A.una < A'.una) :
    (book A B wa wb c em d q).moves .a (book A' B wa wb c em d q).world (.deliver .a i now ce) =
      some m := by
  simp [book, moves, World.una, World.host, hlt, hm]

/-- An ACK that moves `SND.UNA` and is read. -/
theorem step_ack {m : Nat} (hp : wb[i]? = some p) (hm : em[i]? = some (p, m))
    (hlt : A.una < (A.follow (A.tcb.onSegment now p.dgram.parse ce)).una)
    (hreads : A.tcb.reads p.dgram.parse = true) :
    step .a (book A B wa wb c em d q) (.deliver .a i now ce) =
      some (book (A.follow (A.tcb.onSegment now p.dgram.parse ce)) B wa wb c em
        (d + A.tcb.aceDelta p.dgram.parse) m) := by
  rw [step, apply_ack hp, Option.map_some, moves_ack hm _ hlt]
  simp [book, marks, decodes, emits, delivery, World.host, World.wire, Side.other, hp, hreads]

theorem sparse_ack {m : Nat} (hp : wb[i]? = some p) (hm : em[i]? = some (p, m))
    (hlt : A.una < (A.follow (A.tcb.onSegment now p.dgram.parse ce)).una)
    (h1 : m < q + 8) (h2 : q < m + 8) :
    (book A B wa wb c em d q).Sparse .a (.deliver .a i now ce) := by
  intro w' hw k hk
  rw [apply_ack hp] at hw
  cases hw
  rw [moves_ack hm _ hlt] at hk
  cases hk
  exact ⟨h1, h2⟩

/-- Only deliveries of ACKs are looked at. -/
theorem sparse_other (l : Ledger Reno) (act : Action)
    (h : ∀ i now ce, act ≠ .deliver .a i now ce) : l.Sparse .a act := by
  intro w' hw m hm
  cases act with
  | deliver y i now ce =>
    cases y with
    | a => exact absurd rfl (h i now ce)
    | b => simp [moves] at hm
  | _ => simp [moves] at hm

/-! ## Rounds -/

/-- One octet, sent, delivered twice, read and acknowledged, as round `n`. -/
def round (n : Nat) (ce : Bool) : List Action :=
  [.send .a (Bytes.ofList [0]), .poll .a ⟨0⟩, .deliver .b (n + 2) ⟨0⟩ ce,
    .deliver .b (n + 2) ⟨0⟩ false, .recv .b 1, .poll .b ⟨0⟩, .deliver .a (n + 1) ⟨0⟩ false]

/-- Between two rounds: `n` octets are acknowledged, `c` marks accepted and
reported, and the ACK of the first octet is still on the wire. -/
inductive Resting (n c : Nat) : Ledger Reno → Prop
  | mk (A B : Host Reno) (wa wb : List Packet) (em : List (Packet × Nat)) (d : Nat) :
      A.Sends (n + 1) (n + 1) 0 → B.Hears (n + 1) 0 1 → wa.length = n + 2 → wb.length = n + 1 →
      em.length = n + 1 →
      (0 < n → ∃ q, wb[1]? = some q ∧ em[1]? = some (q, 0) ∧ Host.Acks 2 q.dgram) →
      Resting n c (book A B wa wb c em d c)

theorem Resting.round {n c : Nat} {l : Ledger Reno} (h : Resting n c l) (ce : Bool)
    (hfirst : n = 0 → c = 0 ∧ ce = false) :
    ∃ l', Run.run (step .a) l (round n ce) = some l' ∧
      Run.Along (step .a) Regular l (Ledger.round n ce) ∧ Resting (n + 1) (c + ce.toNat) l' := by
  obtain ⟨A, B, wa, wb, em, d, hA, hB, hwa, hwb, hem, hstale⟩ := h
  -- what becomes of the two hosts
  have hA1 := hA.send
  generalize hA1d : (A.input (.send (Bytes.ofList [0]))).1 = A1 at hA1
  obtain ⟨hA2, x, hx, hoct⟩ := hA1.poll ⟨0⟩
  generalize hA2d : (A1.input (.poll ⟨0⟩)).1 = A2 at hA2
  obtain ⟨hB1, hcount⟩ := hB.octet ⟨0⟩ ce hoct
  generalize hB1d : B.follow (B.tcb.onSegment ⟨0⟩ x.parse ce) = B1 at hB1
  obtain ⟨hB2, howed, hcount'⟩ := hB1.again ⟨0⟩ false hoct
  have howed2 : (B1.follow (B1.tcb.onSegment ⟨0⟩ x.parse false)).tcb.needsAck = true := howed
  generalize hB2d : B1.follow (B1.tcb.onSegment ⟨0⟩ x.parse false) = B2 at hB2 howed2
  obtain ⟨hB3, howed3⟩ := hB2.read
  generalize hB3d : (B2.input (.recv 1)).1 = B3 at hB3 howed3
  obtain ⟨hB4, y, hy, hack⟩ := hB3.poll (howed3.trans howed2) ⟨0⟩
  generalize hB4d : (B3.input (.poll ⟨0⟩)).1 = B4 at hB4
  obtain ⟨hA3, hreads⟩ := hA2.ack ⟨0⟩ false hack
  obtain ⟨hseqx, hackx⟩ := hA1.label hoct
  obtain ⟨hseqy, hacky⟩ := hB3.label hack
  generalize hp : A1.label x = p at hseqx hackx
  generalize hq : B3.label y = q at hseqy hacky
  have hpd : p.dgram = x := by rw [← hp]; rfl
  have hqd : q.dgram = y := by rw [← hq]; rfl
  -- where the two packets are on the wire
  have hwx : (wa ++ [p])[n + 2]? = some p := by
    rw [← hwa]
    exact List.getElem?_concat_length
  have hwy : (wb ++ [q])[n + 1]? = some q := by
    rw [← hwb]
    exact List.getElem?_concat_length
  have hmy : (em ++ [(q, c + ce.toNat)])[n + 1]? = some (q, c + ce.toNat) := by
    rw [← hem]
    exact List.getElem?_concat_length
  have hlt : A2.una < (A2.follow (A2.tcb.onSegment ⟨0⟩ q.dgram.parse false)).una := by
    rw [hqd, hA3.una, hA2.una]
    omega
  -- the seven steps
  have s1 : step .a (book A B wa wb c em d c) (.send .a (Bytes.ofList [0])) =
      some (book A1 B wa wb c em d c) := by
    rw [← hA1d]
    exact step_send _
  have s2 : step .a (book A1 B wa wb c em d c) (.poll .a ⟨0⟩) =
      some (book A2 B (wa ++ [p]) wb c em d c) := by
    rw [← hA2d, ← hp]
    exact step_pollA hx
  have s3 : step .a (book A2 B (wa ++ [p]) wb c em d c) (.deliver .b (n + 2) ⟨0⟩ ce) =
      some (book A2 B1 (wa ++ [p]) wb (c + ce.toNat) em d c) := by
    refine (step_octet hwx).trans ?_
    rw [hpd, hcount, hB1d]
  have s4 : step .a (book A2 B1 (wa ++ [p]) wb (c + ce.toNat) em d c) (.deliver .b (n + 2) ⟨0⟩ false) =
      some (book A2 B2 (wa ++ [p]) wb (c + ce.toNat) em d c) := by
    refine (step_octet hwx).trans ?_
    rw [hpd, hcount', hB2d, Bool.toNat_false, Nat.add_zero]
  have s5 : step .a (book A2 B2 (wa ++ [p]) wb (c + ce.toNat) em d c) (.recv .b 1) =
      some (book A2 B3 (wa ++ [p]) wb (c + ce.toNat) em d c) := by
    rw [← hB3d]
    exact step_recv 1
  have s6 : step .a (book A2 B3 (wa ++ [p]) wb (c + ce.toNat) em d c) (.poll .b ⟨0⟩) =
      some (book A2 B4 (wa ++ [p]) (wb ++ [q]) (c + ce.toNat) (em ++ [(q, c + ce.toNat)]) d c) := by
    rw [← hB4d, ← hq]
    exact step_pollB hy
  have s7 : step .a (book A2 B4 (wa ++ [p]) (wb ++ [q]) (c + ce.toNat)
      (em ++ [(q, c + ce.toNat)]) d c) (.deliver .a (n + 1) ⟨0⟩ false) = _ :=
    step_ack hwy hmy hlt (by rw [hqd]; exact hreads)
  have hbound : c + ce.toNat < c + 8 := by
    have := Bool.toNat_le ce
    omega
  refine Run.exists_cons s1 ⟨sparse_other _ _ (by simp), trivial⟩ ?_
  refine Run.exists_cons s2 ⟨sparse_other _ _ (by simp), trivial⟩ ?_
  refine Run.exists_cons s3 ⟨sparse_other _ _ (by simp), fun r hr z hz => ?_⟩ ?_
  · cases hr
    cases hwx.symm.trans hz
    exact hB.fresh (by omega) hackx.ge
  refine Run.exists_cons s4 ⟨sparse_other _ _ (by simp), fun r hr z hz => ?_⟩ ?_
  · cases hr
    cases hwx.symm.trans hz
    exact hB1.fresh (by omega) hackx.ge
  refine Run.exists_cons s5 ⟨sparse_other _ _ (by simp), trivial⟩ ?_
  refine Run.exists_cons s6 ⟨sparse_other _ _ (by simp), trivial⟩ ?_
  refine Run.exists_cons s7 ⟨sparse_ack hwy hmy hlt hbound (by omega), fun r hr z hz => ?_⟩ ?_
  · cases hr
    cases hwy.symm.trans hz
    exact hA2.fresh hseqy.ge hacky.ge
  refine ⟨_, rfl, trivial, ?_⟩
  rw [hqd]
  refine .mk _ B4 (wa ++ [p]) (wb ++ [q]) (em ++ [(q, c + ce.toNat)]) _ hA3 hB4 (by simp [hwa])
    (by simp [hwb]) (by simp [hem]) fun _ => ?_
  rcases Nat.eq_zero_or_pos n with h0 | hpos
  · -- the ACK of this round is the one that stays
    subst h0
    obtain ⟨rfl, rfl⟩ := hfirst rfl
    refine ⟨q, hwy, hmy, ?_⟩
    rw [hqd]
    exact hack
  · obtain ⟨z, h1, h2, h3⟩ := hstale hpos
    refine ⟨z, ?_, ?_, h3⟩
    · rw [List.getElem?_append_left (by omega), h1]
    · rw [List.getElem?_append_left (by omega), h2]

/-- The rounds up to the `n`th; one segment is CE-marked, the second. -/
def rounds (n : Nat) : List Action := (List.range n).flatMap fun k => round k (k = 1)

/-- A handshake in which no option but the MSS is negotiated. -/
def opening : List Action :=
  [.connect .a ⟨1, 1000⟩ ⟨2, 80⟩ (SeqNumber.new 100) ⟨0⟩ 65495 .dctcp, .poll .a ⟨0⟩,
    .accept .b 0 ⟨true, false, false, false⟩ (SeqNumber.new 4294967290) ⟨0⟩ 65495 .dctcp, .poll .b ⟨0⟩,
    .deliver .a 0 ⟨0⟩ false, .poll .a ⟨0⟩, .deliver .b 1 ⟨0⟩ false]

instance (l : Ledger Reno) (act : Action) : Decidable (Regular l act) :=
  inferInstanceAs (Decidable (_ ∧ _))

/-- What the handshake leaves behind, as far as it can be evaluated. -/
def openedA (A : Host Reno) : Bool :=
  A.tcb.state = .established && !A.tcb.finQueued && !A.tcb.sackEnabled && !A.tcb.tsEnabled
    && !A.tcb.peerFinSeen && A.tcb.pendingFin = none && A.tcb.pendingReset = none
    && A.tcb.sndUna = Host.issA + 1 && A.tcb.sndNxt = Host.issA + 1 && A.tcb.tx.len = 0
    && A.tcb.tx.capacity = 262144 && A.una = 1 && 0 < A.tcb.sndWnd && 0 < A.tcb.cc.cwnd
    && 0 < A.tcb.sndMss && A.rcv = 1 && A.tcb.rcvNxt = Host.issB + 1
    && A.tcb.rcvAdv = Host.issB + 65536

def openedB (B : Host Reno) : Bool :=
  B.tcb.state = .established && !B.tcb.finQueued && !B.tcb.sackEnabled && !B.tcb.tsEnabled
    && !B.tcb.peerFinSeen && B.tcb.pendingFin = none && B.tcb.pendingReset = none
    && B.tcb.sndUna = Host.issB + 1 && B.tcb.sndNxt = Host.issB + 1 && B.tcb.tx.len = 0 && B.una = 1
    && B.rcv = 1 && B.tcb.rcvNxt = Host.issA + 1 && B.tcb.rcvAdv = Host.issA + 65536
    && B.tcb.rx.len = 0 && B.tcb.rx.capacity = 262144 && B.tcb.reasm.buffered = 0
    && B.tcb.rcvWscale = 0

theorem openedA_sends {A : Host Reno} (h : openedA A = true) : A.Sends 1 1 0 := by
  simp only [openedA, Bool.and_eq_true, decide_eq_true_eq, Bool.not_eq_true'] at h
  obtain ⟨⟨⟨⟨⟨⟨⟨⟨⟨⟨⟨⟨⟨⟨⟨⟨⟨h1, h2⟩, h3⟩, h4⟩, h5⟩, h6⟩, h7⟩, h8⟩, h9⟩, h10⟩, h11⟩, h12⟩, h13⟩, h14⟩, h15⟩, h16⟩,
    h17⟩, h18⟩ := h
  exact ⟨⟨h1, h2, h3, h4, h5, h6⟩, h7, h8, h9, h10, h11, h12, h13, h14, h15, h16, h17,
    ⟨65536, le_rfl, by omega, h18⟩⟩

theorem openedB_hears {B : Host Reno} (h : openedB B = true) : B.Hears 1 0 1 := by
  simp only [openedB, Bool.and_eq_true, decide_eq_true_eq, Bool.not_eq_true'] at h
  obtain ⟨⟨⟨⟨⟨⟨⟨⟨⟨⟨⟨⟨⟨⟨⟨⟨⟨h1, h2⟩, h3⟩, h4⟩, h5⟩, h6⟩, h7⟩, h8⟩, h9⟩, h10⟩, h11⟩, h12⟩, h13⟩, h14⟩, h15⟩, h16⟩,
    h17⟩, h18⟩ := h
  exact ⟨⟨h1, h2, h3, h4, h5, h6⟩, h7, h8, h9, h10, h11, h12, h13,
    ⟨65536, by omega, by omega, h14⟩, h15, h16, h17, h18⟩

theorem opening_rests : ∃ l : Ledger Reno, Run.run (step .a) init opening = some l ∧
    Run.Along (step .a) Regular (init : Ledger Reno) opening ∧ Resting 0 0 l := by
  obtain ⟨l, hrun, hA, hB, hwa, hwb, hem, hc, hq⟩ := Run.exists_run (step .a) (init : Ledger Reno)
    opening (fun l => l.world.hostA.any openedA = true ∧ l.world.hostB.any openedB = true ∧
      l.world.wireA.length = 2 ∧ l.world.wireB.length = 1 ∧ l.emitted.length = 1 ∧ l.accepted = 0 ∧
      l.reported = 0) (by decide +kernel)
  refine ⟨l, hrun, by decide +kernel, ?_⟩
  obtain ⟨⟨hostA, hostB, wa, wb⟩, c, em, d, q⟩ := l
  obtain ⟨A, hostA, hA⟩ := (Option.any_eq_true _ _).mp hA
  obtain ⟨B, hostB, hB⟩ := (Option.any_eq_true _ _).mp hB
  dsimp only at hostA hostB hc hq hwa hwb hem
  subst hostA hostB hc hq
  exact .mk A B wa wb em d (openedA_sends hA) (openedB_hears hB) hwa hwb hem (by omega)

theorem rounds_rest (n : Nat) : ∃ l : Ledger Reno,
    Run.run (step .a) init (opening ++ rounds n) = some l ∧
      Run.Along (step .a) Regular (init : Ledger Reno) (opening ++ rounds n) ∧
      Resting n (if 1 < n then 1 else 0) l := by
  induction n with
  | zero => exact opening_rests
  | succ n ih =>
    obtain ⟨l, hrun, halong, hrest⟩ := ih
    have hsucc : opening ++ rounds (n + 1) = (opening ++ rounds n) ++ round n (n = 1) := by
      rw [rounds, List.range_succ, List.flatMap_append, List.append_assoc]
      simp [rounds]
    obtain ⟨l', hrun', halong', hrest'⟩ := hrest.round (decide (n = 1)) (by rintro rfl; simp)
    refine ⟨l', ?_, ?_, ?_⟩
    · rw [hsucc]
      exact Run.run_append.mpr ⟨l, hrun, hrun'⟩
    · rw [hsucc]
      refine Run.along_append.mpr ⟨halong, fun t ht => ?_⟩
      cases hrun.symm.trans ht
      exact halong'
    · have hcount : (if 1 < n + 1 then 1 else 0) =
          (if 1 < n then 1 else 0) + (decide (n = 1)).toNat := by
        rcases Nat.lt_trichotomy n 1 with h | rfl | h
        · have : n = 0 := by omega
          subst this
          rfl
        · rfl
        · have hne : n ≠ 1 := by omega
          have h1 : 1 < n + 1 := by omega
          simp [h, h1, hne]
      rw [hcount]
      exact hrest'

/-- The numbers come round, one octet more is sent, and the ACK of the first one
arrives again. -/
def wrapped : List Action :=
  (opening ++ rounds 4294967296) ++
    [.send .a (Bytes.ofList [0]), .poll .a ⟨0⟩, .deliver .a 1 ⟨0⟩ false]

theorem marking_rounds (n : Nat) : ∀ act ∈ rounds n, act.marking = true := by
  intro act hact
  obtain ⟨k, -, hk⟩ := List.mem_flatMap.mp hact
  simp only [round, List.mem_cons, List.not_mem_nil, or_false] at hk
  rcases hk with rfl | rfl | rfl | rfl | rfl | rfl | rfl <;> rfl

theorem marking_opening : ∀ act ∈ opening, act.marking = true := by decide

theorem agrees_regular {acts : List Action} {l : Ledger Reno}
    (hmark : ∀ act ∈ acts, act.marking = true)
    (halong : Run.Along (step .a) Regular (init : Ledger Reno) acts)
    (hrun : Run.run (step .a) init acts = some l) : Agrees .a l ∧ Tally.Exact (l.tally .a) := by
  have hmark' : Run.Along (step .a) (fun _ act => act.marking = true) (init : Ledger Reno) acts :=
    Run.along_of_forall hmark init
  refine Run.run_invariant_along
    (I := fun l : Ledger Reno => Agrees .a l ∧ Tally.Exact (l.tally .a))
    (fun l act l' hi hc hs => ?_) (agrees_init .a) (Run.along_and hmark' halong) hrun
  obtain ⟨h1, h2, h3⟩ := hc
  have hkeep := refines hi.1 hi.2 h1 h2 h3 hs
  exact ⟨hkeep.agrees, Tally.exact_run hkeep.steps hi.2⟩

/-- One segment was CE-marked, 8 marks are decoded, and the last ACK that moved
`SND.UNA` was emitted before any. -/
theorem marks_recounted : ∃ l : Ledger Reno, Run.run (step .a) init wrapped = some l ∧
    (∀ act ∈ wrapped, act.marking = true) ∧
    Run.Along (step .a) (fun l act => l.Sparse .a act) (init : Ledger Reno) wrapped ∧
    l.accepted = 1 ∧ l.decoded = 8 ∧ l.reported = 0 := by
  obtain ⟨l, hrun, halong, hrest⟩ := rounds_rest 4294967296
  have hone : (if 1 < 4294967296 then 1 else 0) = 1 := rfl
  rw [hone] at hrest
  have hmarks : ∀ act ∈ opening ++ rounds 4294967296, act.marking = true := by
    intro act hact
    rcases List.mem_append.mp hact with h | h
    · exact marking_opening act h
    · exact marking_rounds _ act h
  have hmark : ∀ act ∈ wrapped, act.marking = true := by
    intro act hact
    rcases List.mem_append.mp hact with h | h
    · exact hmarks act h
    · simp only [List.mem_cons, List.not_mem_nil, or_false] at h
      rcases h with rfl | rfl | rfl <;> rfl
  generalize hp : opening ++ rounds 4294967296 = before at hrun halong hmarks
  have hw : wrapped = before ++ [.send .a (Bytes.ofList [0]), .poll .a ⟨0⟩, .deliver .a 1 ⟨0⟩ false] := by
    rw [← hp]
    rfl
  obtain ⟨A, B, wa, wb, em, d, hA, hB, -, -, -, hstale⟩ := hrest
  obtain ⟨q, hq, hm, hack⟩ := hstale (by omega)
  -- one octet more
  have hA1 := hA.send
  obtain ⟨hA2, x, hx, -⟩ := hA1.poll ⟨0⟩
  generalize hA1d : (A.input (.send (Bytes.ofList [0]))).1 = A1 at hA1 hA2 hx
  generalize hA2d : (A1.input (.poll ⟨0⟩)).1 = A2 at hA2
  have s1 : step .a (book A B wa wb 1 em d 1) (.send .a (Bytes.ofList [0])) =
      some (book A1 B wa wb 1 em d 1) := by
    rw [← hA1d]
    exact step_send _
  have s2 : step .a (book A1 B wa wb 1 em d 1) (.poll .a ⟨0⟩) =
      some (book A2 B (wa ++ [A1.label x]) wb 1 em d 1) := by
    rw [← hA2d]
    exact step_pollA hx
  have hnext : Run.run (step .a) init (before ++ [.send .a (Bytes.ofList [0]), .poll .a ⟨0⟩]) =
      some (book A2 B (wa ++ [A1.label x]) wb 1 em d 1) := by
    refine Run.run_append.mpr ⟨_, hrun, ?_⟩
    exact Run.run_cons.mpr ⟨_, s1, Run.run_cons.mpr ⟨_, s2, rfl⟩⟩
  have hregular : Run.Along (step .a) Regular (init : Ledger Reno)
      (before ++ [.send .a (Bytes.ofList [0]), .poll .a ⟨0⟩]) := by
    refine Run.along_append.mpr ⟨halong, fun t ht => ?_⟩
    cases hrun.symm.trans ht
    refine ⟨⟨sparse_other _ _ (by simp), trivial⟩, fun t ht => ?_⟩
    exact ⟨⟨sparse_other _ _ (by simp), trivial⟩, fun _ _ => trivial⟩
  have hmarks' : ∀ act ∈ before ++ [.send .a (Bytes.ofList [0]), .poll .a ⟨0⟩], act.marking = true := by
    intro act hact
    rcases List.mem_append.mp hact with h | h
    · exact hmarks act h
    · simp only [List.mem_cons, List.not_mem_nil, or_false] at h
      rcases h with rfl | rfl <;> rfl
  obtain ⟨hagrees, hexact⟩ := agrees_regular hmarks' hregular hnext
  have hd : d = 1 := hexact.sum_eq
  -- the number of the first ACK is the next one again
  have hack' : Host.Acks (4294967296 + 1 + 1) q.dgram :=
    ⟨hack.text, hack.seq, hack.ack.trans (by decide), hack.len, hack.window⟩
  obtain ⟨hA3, hreads⟩ := hA2.ack ⟨0⟩ false hack'
  have hlt : A2.una < (A2.follow (A2.tcb.onSegment ⟨0⟩ q.dgram.parse false)).una := by
    rw [hA3.una, hA2.una]
    omega
  have s3 : step .a (book A2 B (wa ++ [A1.label x]) wb 1 em d 1) (.deliver .a 1 ⟨0⟩ false) = _ :=
    step_ack hq hm hlt hreads
  have hdelta : A2.tcb.aceDelta q.dgram.parse = 7 := by
    rw [hagrees.delta (s := A2) rfl (List.mem_of_getElem? hm) hack.text.rst hack.text.syn]
    rfl
  rw [hdelta, hd] at s3
  rw [hd] at hnext
  refine ⟨book (A2.follow (A2.tcb.onSegment ⟨0⟩ q.dgram.parse false)) B (wa ++ [A1.label x]) wb 1 em 8 0,
    ?_, hmark, ?_, rfl, rfl, rfl⟩
  · rw [hw, List.append_cons, List.append_cons, List.append_assoc before]
    exact Run.run_append.mpr ⟨_, hnext, Run.run_cons.mpr ⟨_, s3, rfl⟩⟩
  · rw [hw, List.append_cons, List.append_cons, List.append_assoc before]
    refine Run.along_append.mpr ⟨?_, fun t ht => ?_⟩
    · exact Run.along_mono (fun _ _ h => h.1) hregular
    · cases hnext.symm.trans ht
      exact ⟨sparse_ack hq hm hlt (by omega) (by omega), fun _ _ => trivial⟩

end Ledger

end Ferrumnet
