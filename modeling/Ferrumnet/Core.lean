import Ferrumnet.Outbound

/-
  The stream core of a connection: an abstract machine that says what a
  connection does to its two byte streams and to its state, and nothing about
  timers, congestion control, RTT or loss bookkeeping.

  A segment acts on the core as a function (`Core.onSegment`); what
  `poll_transmit` may send from a core is a relation (`Core.Sends`), because
  which of the segments goes out depends on what the core leaves out. The
  refinement of the core by the Tcb is in `Refine`.
-/

namespace Ferrumnet

/-- The part of a Tcb that the two streams and the state consist of. -/
structure Core extends Options, SendSpace, SendWindow, RecvSpace where
  tsRecent : BitVec 32
  state : State
  reset : Bool
  deriving DecidableEq, Repr

/-- The core of a Tcb. -/
def Tcb.core {κ : Type} (t : Tcb κ) : Core :=
  { toOptions := t.toOptions
    toSendSpace := t.toSendSpace
    toSendWindow := t.toSendWindow
    toRecvSpace := t.toRecvSpace
    tsRecent := t.tsRecent
    state := t.state
    reset := t.reset }

section Fields

variable {κ : Type} (t : Tcb κ)

@[simp] theorem Tcb.core_options : t.core.toOptions = t.toOptions := rfl
@[simp] theorem Tcb.core_send : t.core.toSendSpace = t.toSendSpace := rfl
@[simp] theorem Tcb.core_window : t.core.toSendWindow = t.toSendWindow := rfl
@[simp] theorem Tcb.core_recv : t.core.toRecvSpace = t.toRecvSpace := rfl
@[simp] theorem Tcb.core_tsRecent : t.core.tsRecent = t.tsRecent := rfl
@[simp] theorem Tcb.core_state : t.core.state = t.state := rfl
@[simp] theorem Tcb.core_reset : t.core.reset = t.reset := rfl

end Fields

namespace Core

/-- Replace the receive space. -/
def withRecv (c : Core) (r : RecvSpace) : Core := { c with toRecvSpace := r }

/-- Replace the state. -/
def withState (c : Core) (st : State) : Core := { c with state := st }

variable (c : Core) (r r' : RecvSpace) (st st' : State)

@[simp] theorem withRecv_options : (c.withRecv r).toOptions = c.toOptions := rfl
@[simp] theorem withRecv_send : (c.withRecv r).toSendSpace = c.toSendSpace := rfl
@[simp] theorem withRecv_recv : (c.withRecv r).toRecvSpace = r := rfl
@[simp] theorem withRecv_state : (c.withRecv r).state = c.state := rfl
@[simp] theorem withRecv_withRecv : (c.withRecv r).withRecv r' = c.withRecv r' := rfl
@[simp] theorem withState_send : (c.withState st).toSendSpace = c.toSendSpace := rfl
@[simp] theorem withState_recv : (c.withState st).toRecvSpace = c.toRecvSpace := rfl
@[simp] theorem withState_state : (c.withState st).state = st := rfl

end Core

namespace RecvSpace

/-- A remembered FIN is consumed once `RCV.NXT` reaches it. -/
def takePendingFin (r : RecvSpace) : RecvSpace :=
  match r.pendingFin with
  | some finAt =>
    if finAt = r.rcvNxt && !r.peerFinSeen then
      { r with rcvNxt := r.rcvNxt + 1, peerFinSeen := true, pendingFin := none }
    else r
  | none => r

/-- The payload of one segment. -/
def acceptData (r : RecvSpace) (sackEnabled : Bool) (tcp : TcpPacket) : RecvSpace :=
  if tcp.payload.isEmpty then r
  else
    let p := r.leftTrim tcp.seq tcp.payload
    r.ingest sackEnabled p.1 p.2

/-- The FIN of one segment. -/
def acceptFin (r : RecvSpace) (tcp : TcpPacket) : RecvSpace :=
  if tcp.flags.fin then r.takeFin (tcp.seq + tcp.payload.len) else r

/-- Data, FIN and remembered FIN of one segment. -/
def text (r : RecvSpace) (sackEnabled : Bool) (tcp : TcpPacket) : RecvSpace :=
  ((r.acceptData sackEnabled tcp).acceptFin tcp).takePendingFin

end RecvSpace

namespace Core

variable (c : Core) (tcp : TcpPacket)

def inflight : Nat := c.sndNxt.offsetFrom c.sndUna
def sentData : Nat := min c.inflight c.tx.len
def unsentData : Nat := c.tx.len - c.sentData
def dataEnd : SeqNumber := c.sndUna + c.tx.len
def rwndRoom : Nat := c.sndWnd - c.inflight

def segTs : Option (BitVec 32 × BitVec 32) := if c.tsEnabled then tcp.timestamps else none

def pawsStale : Bool :=
  match c.segTs tcp with
  | some (tsval, _) => (tsval - c.tsRecent).toInt < 0
  | none => false

/-- A segment that passes PAWS and the acceptability test, and carries ACK. -/
def admits : Bool :=
  c.state ≠ .synSent && !tcp.flags.rst && c.state ≠ .timeWait && !tcp.flags.syn
    && !c.pawsStale tcp && c.toRecvSpace.segmentAcceptable tcp.seq tcp.segLen && tcp.flags.ack

/-- The ACK of an admitted segment acknowledges what was sent; in SYN-RECEIVED
it has to acknowledge the SYN. -/
def validAck : Bool :=
  if c.state = .synReceived then tcp.ack.gt c.sndUna && tcp.ack.le c.sndNxt
  else !tcp.ack.gt c.sndNxt

/-- A SYN that repeats the one SYN-RECEIVED was entered on. -/
def dupSyn : Bool :=
  c.state = .synReceived && !tcp.flags.rst && tcp.flags.syn && tcp.seq = c.irs

theorem state_of_dupSyn (h : c.dupSyn tcp = true) : c.state = .synReceived := by
  simp only [dupSyn, Bool.and_eq_true, decide_eq_true_eq] at h
  exact h.1.1.1

theorem syn_of_dupSyn (h : c.dupSyn tcp = true) : tcp.flags.syn = true := by
  simp only [dupSyn, Bool.and_eq_true] at h
  exact h.1.2

/-- TS.Recent after an acceptable segment. -/
def tsRecentAfter : BitVec 32 :=
  match c.segTs tcp with
  | some (tsval, _) => if tcp.seq.le c.rcvNxt then tsval else c.tsRecent
  | none => c.tsRecent

/-- The send space after a valid ACK. -/
def ackedSend : SendSpace :=
  if c.state = .synReceived then { c.toSendSpace with sndUna := tcp.ack }
  else if tcp.ack.gt c.sndUna then c.toSendSpace.consume tcp.ack
  else c.toSendSpace

/-- The state before step 8, after a valid ACK. -/
def ackedState : State := if c.state = .synReceived then .established else c.state

/-- The core after a valid ACK. -/
def acked : Core :=
  { c with
    toSendSpace := c.ackedSend tcp
    toSendWindow := c.toSendWindow.update c.sndWscale tcp.seq tcp.ack tcp.window
    state := c.ackedState }

def advanceTsRecent : Core := { c with tsRecent := c.tsRecentAfter tcp }

/-- Data and FIN of a segment whose ACK was processed, and the closing state. -/
def onText : Core :=
  let r := c.toRecvSpace.text c.sackEnabled tcp
  (c.withRecv r).withState (Tcb.closingState c.state c.finAcked r.peerFinSeen)

/-- An acceptable segment: dropped without ACK or with an invalid one (which
closes a half-open connection), else taken in whole. -/
def onAcceptable : Core :=
  let c := c.advanceTsRecent tcp
  if tcp.flags.ack then
    if c.validAck tcp then (c.acked tcp).onText tcp
    else if c.state = .synReceived then c.withState .closed
    else c
  else c

/-- The SYN of the peer, in SYN-SENT. -/
def learnPeer : Core :=
  { c with
    toOptions := Tcb.negotiate tcp c.mssAdvertise
    irs := tcp.seq
    rcvNxt := tcp.seq + 1
    rcvAdv := tcp.seq + 1 + synWindow
    tsRecent := match tcp.timestamps with
      | some (tsval, _) => tsval
      | none => c.tsRecent
    sndWnd := tcp.window
    sndWl1 := tcp.seq }

/-- The SYN is acknowledged by a segment received in SYN-SENT. -/
def acksSyn : Bool := tcp.flags.ack && tcp.ack.gt c.iss && tcp.ack.le c.sndNxt

/-- SYN-SENT. -/
def onSegmentSynSent : Core :=
  if tcp.flags.ack && !c.acksSyn tcp then c
  else if tcp.flags.rst then
    if c.acksSyn tcp then { c with state := .closed, reset := true } else c
  else if tcp.flags.syn then
    if c.acksSyn tcp then
      { c.learnPeer tcp with sndUna := tcp.ack, sndWl2 := tcp.ack, state := .established }
    else { c.learnPeer tcp with sndWl2 := c.iss, state := .synReceived }
  else c

/-- One received segment. -/
def onSegment : Core :=
  if c.state = .synSent then c.onSegmentSynSent tcp
  else if tcp.flags.rst then
    if c.toRecvSpace.seqInWindow tcp.seq && tcp.seq = c.rcvNxt then
      { c with state := .closed, reset := true }
    else c
  else if c.state = .timeWait then c
  else if tcp.flags.syn then
    if c.state = .synReceived && tcp.seq = c.irs then { c with sndNxt := c.iss } else c
  else if c.pawsStale tcp then c
  else if c.toRecvSpace.segmentAcceptable tcp.seq tcp.segLen then c.onAcceptable tcp
  else c

/-! ## What may be sent -/

/-- A segment built by `build`: where it starts, its flags beside ACK, its
payload, and the send space and state it leaves behind. -/
inductive Sends : SeqNumber → TcpFlags → Bytes → SendSpace → State → Prop
  | synAck : c.state = .synReceived → c.sndNxt = c.iss →
      Sends c.iss { syn := true } Bytes.empty { c.toSendSpace with sndNxt := c.iss + 1 } c.state
  | synAckAgain : c.state = .synReceived → c.sndNxt ≠ c.iss →
      Sends c.iss { syn := true } Bytes.empty c.toSendSpace c.state
  | ack : c.state ≠ .closed → c.state ≠ .listen → c.state ≠ .synSent →
      (c.state = .synReceived → c.sndNxt ≠ c.iss) →
      Sends c.sndNxt {} Bytes.empty c.toSendSpace c.state
  | again (off n : Nat) (psh : Bool) : c.state.synchronized = true → 0 < n →
      off + n ≤ c.tx.len → off + n ≤ c.inflight →
      Sends (c.sndUna + off) { psh := psh } (c.tx.peek off n) c.toSendSpace c.state
  | data (n : Nat) (psh : Bool) : c.state.synchronized = true → 0 < n →
      n ≤ c.unsentData → n ≤ c.rwndRoom →
      Sends c.sndNxt { psh := psh } (c.tx.peek c.sentData n)
        { c.toSendSpace with sndNxt := c.sndNxt + n } c.state
  | probe : c.state.synchronized = true → c.inflight = 0 → c.rwndRoom = 0 → 0 < c.unsentData →
      Sends c.sndUna {} (c.tx.peek 0 1) c.toSendSpace c.state
  | fin : c.state.synchronized = true → c.finQueued = true → c.finAcked = false →
      c.sndNxt = c.dataEnd →
      Sends c.dataEnd { fin := true } Bytes.empty
        { c.toSendSpace with finSeq := some c.dataEnd, sndNxt := c.dataEnd + 1 }
        (Tcb.finState c.state)
  | finAgain (finSeq : SeqNumber) : c.state.synchronized = true → c.finSeq = some finSeq →
      c.finAcked = false → c.sndUna = finSeq → 0 < c.inflight →
      Sends finSeq { fin := true } Bytes.empty c.toSendSpace c.state

/-- The core behind a segment built by `build`: the advertised edge moves too. -/
def sent (s : SendSpace) (st : State) : Core :=
  { c with
    toSendSpace := s
    toRecvSpace := (c.toRecvSpace.advertisedWindow c.rcvWscale).1
    state := st }

/-! ## What a received segment may do -/

/-- The outcomes of `onSegmentSynSent`: nothing, a reset, or the peer's SYN, with
or without the ACK of ours. -/
inductive TakesSyn : Core → Prop
  | dropped : TakesSyn c
  | reset : tcp.flags.rst = true → c.acksSyn tcp = true →
      TakesSyn { c with state := .closed, reset := true }
  | acked : tcp.flags.rst = false → tcp.flags.syn = true → c.acksSyn tcp = true →
      TakesSyn { c.learnPeer tcp with sndUna := tcp.ack, sndWl2 := tcp.ack, state := .established }
  | crossed : tcp.flags.rst = false → tcp.flags.syn = true → tcp.flags.ack = false →
      TakesSyn { c.learnPeer tcp with sndWl2 := c.iss, state := .synReceived }

theorem onSegmentSynSent_takes : c.TakesSyn tcp (c.onSegmentSynSent tcp) := by
  simp only [onSegmentSynSent]
  split
  · exact .dropped
  rename_i hbad
  split
  · rename_i hrst
    split
    · exact .reset hrst (by assumption)
    · exact .dropped
  rename_i hrst
  split
  · rename_i hsyn
    split
    · exact .acked (Bool.eq_false_iff.mpr hrst) hsyn (by assumption)
    · rename_i hack
      refine .crossed (Bool.eq_false_iff.mpr hrst) hsyn ?_
      cases hf : tcp.flags.ack
      · rfl
      · simp [hf, hack] at hbad
  · exact .dropped

/-- Past the handshake, a valid ACK is of something that was sent. -/
theorem not_gt_of_validAck (hst : c.state ≠ .synReceived) (hv : c.validAck tcp = true) :
    tcp.ack.gt c.sndNxt = false := by
  rw [validAck, if_neg hst, Bool.not_eq_true'] at hv
  exact hv

/-- The outcomes of `onSegment` outside SYN-SENT: dropped (TS.Recent may have
moved), a reset, the SYN once more, a half-open connection that closes on a bad
ACK, or a segment taken in whole. -/
inductive Takes : Core → Prop
  | dropped (ts : BitVec 32) : (c.admits tcp && c.validAck tcp) = false →
      Takes { c with tsRecent := ts }
  | reset : tcp.flags.rst = true → tcp.seq = c.rcvNxt →
      Takes { c with state := .closed, reset := true }
  | synAgain : c.dupSyn tcp = true → Takes { c with sndNxt := c.iss }
  | badAck (ts : BitVec 32) : c.state = .synReceived → c.admits tcp = true →
      c.validAck tcp = false → Takes { c with tsRecent := ts, state := .closed }
  | taken : c.admits tcp = true → c.validAck tcp = true →
      Takes (((c.advanceTsRecent tcp).acked tcp).onText tcp)

theorem onSegment_takes (h : c.state ≠ .synSent) : c.Takes tcp (c.onSegment tcp) := by
  have hkeep : (c.admits tcp && c.validAck tcp) = false → c.Takes tcp c := fun h => .dropped _ h
  simp only [onSegment, h, if_false]
  split
  · rename_i hr
    have hn : c.admits tcp = false := by simp [admits, hr]
    split
    · rename_i hq
      simp only [Bool.and_eq_true, decide_eq_true_eq] at hq
      exact .reset hr hq.2
    · exact hkeep (by rw [hn, Bool.false_and])
  rename_i hr
  split
  · rename_i ht
    exact hkeep (by simp [admits, ht])
  rename_i ht
  split
  · rename_i hsyn
    split
    · rename_i hd
      exact .synAgain (by simp only [dupSyn]; simp_all)
    · exact hkeep (by simp [admits, hsyn])
  rename_i hsyn
  split
  · rename_i hp
    exact hkeep (by simp [admits, hp])
  rename_i hp
  split
  · rename_i ha
    simp only [onAcceptable]
    split
    · rename_i hack
      have hadm : c.admits tcp = true := by simp [admits, h, hr, ht, hsyn, hp, ha, hack]
      split
      · rename_i hv
        exact .taken hadm hv
      · rename_i hv
        have hv' : c.validAck tcp = false := Bool.eq_false_iff.mpr hv
        split
        · rename_i hs
          exact .badAck _ hs hadm hv'
        · exact .dropped _ (by rw [hv', Bool.and_false])
    · rename_i hack
      exact .dropped _ (by simp [admits, hack])
  · rename_i ha
    exact hkeep (by simp [admits, ha])

end Core

end Ferrumnet
