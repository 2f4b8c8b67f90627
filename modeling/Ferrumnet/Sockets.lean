import Ferrumnet.Incarnations

/-
  Streams, and the connections they were created for.

  A stream names its connection by the remote endpoint alone, and its operations act on
  whatever is in the table under that endpoint. Connections are reaped while their streams
  are alive, so a stream may outlive its connection and meet the next one of its remote.

  1. `Reactor.Detached` — an operation that neither changes nor shows what is under an
     endpoint; it is so for every endpoint but its own.
  2. `detached_iff` — when it is so for its own.
  3. `isolated_iff` — the streams of a run are isolated exactly if none acts on a connection
     it was not created for.
-/

namespace Ferrumnet

/-- What a task does with a stream. -/
inductive Operation where
  | read (n : Nat) (w : Waker)
  | write (data : Bytes) (w : Waker)
  | close
  deriving DecidableEq

/-- The call it comes to: the stream has nothing but the remote endpoint. -/
def Operation.call (remote : Endpoint) : Operation → Reactor.Call
  | .read n w => .poll (.read remote n) w
  | .write data w => .poll (.write remote data) w
  | .close => .close remote

namespace Reactor

variable {κ : Type} (s : Reactor κ)

/-- What the reactor has under an endpoint: the connection and the parked wakers. -/
def under (e : Endpoint) : Option (Tcb κ) × Option Waker × Option Waker × Option Waker :=
  (s.stack.connection e, s.readWakers.lookup e, s.writeWakers.lookup e, s.connectWakers.lookup e)

/-- The read resolves to `Ok(0)`. -/
def AtEnd (remote : Endpoint) (n : Nat) (w : Waker) : Prop :=
  ∃ bytes : Bytes, (s.pollRead remote n w).2 = .ready (.ok bytes) ∧ bytes.len = 0

/-- The same reactor without the connection under `e`. -/
def without (e : Endpoint) : Reactor κ := { s with stack := { s.stack with conns := s.stack.conns.erase e } }

variable [CongestionControl κ]

/-- What the task gets to see of a call. -/
def answer : Call → Option (Poll Output)
  | .poll f w => some (s.poll f w).2
  | .start _ _ => none
  | .close _ => none

/-- The call neither changes nor shows what is under `e`. -/
structure Detached (a : Call) (e : Endpoint) : Prop where
  untouched : (s.act a).under e = s.under e
  unseen : s.answer a = (s.without e).answer a

end Reactor

/-- The operation finds nothing to do on the connection, and nothing to tell of it. -/
def Operation.Idle {κ : Type} (t : Tcb κ) : Operation → Prop
  | .read n _ => n = 0 ∨ t.rxAvailable = 0 ∧ t.isReset = false ∧ (t.peerFinSeen = true ∨ t.state = .closed)
  | .write _ _ => False
  | .close => t.finQueued = true

namespace Reactor

variable {κ : Type} [CongestionControl κ] {s : Reactor κ} {e remote : Endpoint} {o : Operation} {t : Tcb κ}

/-! ## A read that finds the end -/

omit [CongestionControl κ] in
/-- A read that finds nothing to wait for changes nothing. -/
theorem pollRead_end {n : Nat} (w : Waker) (hn : n ≠ 0) (h : ∀ t, s.stack.connection remote = some t →
      t.rxAvailable = 0 ∧ t.isReset = false ∧ (t.peerFinSeen = true ∨ t.state = .closed)) :
    s.pollRead remote n w = (s, .ready (.ok Bytes.empty)) := by
  cases ht : s.stack.connection remote with
  | none => simp only [pollRead, if_neg hn, ht]
  | some t =>
    obtain ⟨hrx, hreset, hend⟩ := h t ht
    have hempty : t.rx.isEmpty = true := Bytes.isEmpty_iff.mpr hrx
    have hend' : (t.recvEof || decide (t.state = .closed)) = true := by
      rw [Bool.or_eq_true, decide_eq_true_eq, Tcb.recvEof, hempty, Bool.and_true]
      exact hend
    simp only [pollRead, if_neg hn, ht, hrx, hreset, hend']
    rfl

omit [CongestionControl κ] in
/-- It is the peer's FIN, a connection closed in another way than by a reset, or none at all. -/
theorem atEnd_iff {n : Nat} {w : Waker} (hn : n ≠ 0) : s.AtEnd remote n w ↔
    ∀ t, s.stack.connection remote = some t →
      t.rxAvailable = 0 ∧ t.isReset = false ∧ (t.peerFinSeen = true ∨ t.state = .closed) := by
  constructor
  · rintro ⟨bytes, hread, hlen⟩ t ht
    simp only [pollRead, if_neg hn, ht] at hread
    split at hread
    · -- bytes that are there are handed out
      rename_i hrx
      injection hread with hread
      injection hread with hread
      rw [← hread] at hlen
      have hlen' : min n t.rx.len = 0 := hlen
      have hpos : 0 < t.rx.len := hrx
      omega
    rename_i hrx
    split at hread
    · cases hread
    rename_i hreset
    split at hread
    · rename_i hend
      have hrx' : t.rxAvailable = 0 := Nat.eq_zero_of_not_pos hrx
      have hempty : t.rx.isEmpty = true := Bytes.isEmpty_iff.mpr hrx'
      rw [Bool.or_eq_true, decide_eq_true_eq, Tcb.recvEof, hempty, Bool.and_true] at hend
      exact ⟨hrx', Bool.eq_false_iff.mpr hreset, hend⟩
    · cases hread
  · intro h
    rw [AtEnd, pollRead_end w hn h]
    exact ⟨Bytes.empty, rfl, rfl⟩

/-! ## Other endpoints -/

omit [CongestionControl κ] in
theorem connection_without (s : Reactor κ) (e : Endpoint) : (s.without e).stack.connection e = none :=
  AList.lookup_erase e _

omit [CongestionControl κ] in
theorem connection_without_ne (s : Reactor κ) (h : remote ≠ e) :
    (s.without e).stack.connection remote = s.stack.connection remote := AList.lookup_erase_ne h

omit [CongestionControl κ] in
/-- A connection put back under another key. -/
theorem under_setConn (s : Reactor κ) (u : Tcb κ) (h : e ≠ remote) :
    ({ s with stack := s.stack.setConn remote u } : Reactor κ).under e = s.under e := by
  simp only [under, Stack.connection_setConn_ne _ h]

/-- An operation stays under its own endpoint. -/
theorem under_act (s : Reactor κ) (o : Operation) (h : e ≠ remote) : (s.act (o.call remote)).under e = s.under e := by
  cases o with
  | read n w =>
    have hpolled := s.polled (.read remote n) w
    change (s.poll (.read remote n) w).1.under e = _
    generalize s.poll (.read remote n) w = q at hpolled ⊢
    cases hpolled with
    | parks => simp only [register, under, AList.lookup_insert_ne h]
    | reads => exact s.under_setConn _ h
    | answers => rfl
  | write data w =>
    have hpolled := s.polled (.write remote data) w
    change (s.poll (.write remote data) w).1.under e = _
    generalize s.poll (.write remote data) w = q at hpolled ⊢
    cases hpolled with
    | parks => simp only [register, under, AList.lookup_insert_ne h]
    | writes => exact s.under_setConn _ h
    | answers => rfl
  | close =>
    change (s.close remote).under e = _
    unfold close
    split
    · exact s.under_setConn _ h
    · rfl

omit [CongestionControl κ] in
/-- What it answers comes from its own endpoint. -/
theorem answer_congr {s' : Reactor κ} (o : Operation) (h : s.stack.connection remote = s'.stack.connection remote) :
    s.answer (o.call remote) = s'.answer (o.call remote) := by
  cases o with
  | read n w =>
    simp only [Operation.call, answer, poll, pollRead, h]
    cases s'.stack.connection remote with
    | none => split_ifs <;> rfl
    | some t => dsimp only; split_ifs <;> rfl
  | write data w =>
    simp only [Operation.call, answer, poll, pollWrite, h]
    cases s'.stack.connection remote with
    | none => rfl
    | some t => dsimp only; split_ifs <;> rfl
  | close => rfl

/-- An operation is detached from every endpoint but its own. -/
theorem detached_of_ne (s : Reactor κ) (o : Operation) (h : e ≠ remote) : s.Detached (o.call remote) e :=
  ⟨s.under_act o h, answer_congr o (s.connection_without_ne h.symm).symm⟩

/-! ## Its own endpoint -/

/-- With no connection there, nothing happens. -/
theorem detached_of_none (o : Operation) (h : s.stack.connection remote = none) :
    s.Detached (o.call remote) remote := by
  refine ⟨?_, answer_congr o (h.trans (s.connection_without remote).symm)⟩
  cases o with
  | read n w =>
    change (s.pollRead remote n w).1.under remote = _
    simp only [pollRead, h]
    split
    · rfl
    · rfl
  | write data w =>
    change (s.pollWrite remote data w).1.under remote = _
    simp only [pollWrite, h]
  | close =>
    change (s.close remote).under remote = _
    simp only [close, h]

omit [CongestionControl κ] in
/-- The end of stream, which a reader gets where there is no connection. -/
theorem answer_read_without (s : Reactor κ) (remote : Endpoint) (n : Nat) (w : Waker) :
    (s.without remote).answer (.poll (.read remote n) w) = some (.ready (.read (.ok Bytes.empty))) := by
  simp only [answer, poll, pollRead, connection_without]
  split
  · rfl
  · rfl

omit [CongestionControl κ] in
theorem answer_write_without (s : Reactor κ) (remote : Endpoint) (data : Bytes) (w : Waker) :
    (s.without remote).answer (.poll (.write remote data) w) =
      some (.ready (.written (.error ⟨.brokenPipe, "connection reset"⟩))) := by
  simp only [answer, poll, pollWrite, connection_without]
  rfl

omit [CongestionControl κ] in
/-- A read that answers as if there were no connection is at the end. -/
theorem pollRead_of_answer {n : Nat} {w : Waker}
    (h : s.answer (.poll (.read remote n) w) = (s.without remote).answer (.poll (.read remote n) w)) :
    (s.pollRead remote n w).2 = .ready (.ok Bytes.empty) := by
  rw [answer_read_without] at h
  injection h with h
  change ((s.pollRead remote n w).2.map _) = _ at h
  generalize (s.pollRead remote n w).2 = q at h ⊢
  cases q with
  | pending => cases h
  | ready r =>
    injection h with h
    injection h with h
    rw [h]

/-- A read is detached from a connection that looks to it as if it were gone. -/
theorem detached_read_iff (n : Nat) (w : Waker) (ht : s.stack.connection remote = some t) :
    s.Detached (.poll (.read remote n) w) remote ↔ (Operation.read n w).Idle t := by
  have hquiet : s.pollRead remote n w = (s, .ready (.ok Bytes.empty)) → s.Detached (.poll (.read remote n) w) remote := by
    intro hself
    refine ⟨?_, ?_⟩
    · change (s.pollRead remote n w).1.under remote = _
      rw [hself]
    · rw [answer_read_without]
      change some ((s.pollRead remote n w).2.map _) = _
      rw [hself]
      rfl
  by_cases hn : n = 0
  · exact iff_of_true (hquiet (if_pos hn)) (.inl hn)
  constructor
  · intro h
    have hend : s.AtEnd remote n w := ⟨Bytes.empty, pollRead_of_answer h.unseen, rfl⟩
    exact .inr ((atEnd_iff hn).mp hend t ht)
  · intro h
    apply hquiet
    apply pollRead_end w hn
    intro u hu
    cases ht.symm.trans hu
    exact h.resolve_left hn

/-- A write is never detached from one: it fails in another way, or does not fail. -/
theorem not_detached_write (data : Bytes) (w : Waker) (ht : s.stack.connection remote = some t) :
    ¬ s.Detached (.poll (.write remote data) w) remote := by
  intro h
  have hunseen := h.unseen
  rw [answer_write_without] at hunseen
  simp only [answer, poll, pollWrite, ht] at hunseen
  split at hunseen
  · cases hunseen
  split at hunseen
  · simp [Poll.map] at hunseen
  split at hunseen
  · cases hunseen
  · cases hunseen

theorem detached_close_iff (ht : s.stack.connection remote = some t) :
    s.Detached (.close remote) remote ↔ t.finQueued = true := by
  have hunder : (s.close remote).under remote = (some t.close, (s.under remote).2) := by
    simp only [close, ht, under, Stack.connection_setConn]
  constructor
  · intro h
    have hsame := h.untouched
    change (s.close remote).under remote = _ at hsame
    rw [hunder] at hsame
    have hconn : some t.close = s.stack.connection remote := congrArg Prod.fst hsame
    rw [ht, Option.some.injEq] at hconn
    rw [← hconn]
    rfl
  · intro h
    refine ⟨?_, rfl⟩
    change (s.close remote).under remote = _
    rw [hunder, under, ht]
    have hclose : t.close = t := by
      rw [Tcb.close, ← h]
    rw [hclose]

/-- An operation is detached from a connection exactly if it is idle there. -/
theorem detached_iff (o : Operation) (ht : s.stack.connection remote = some t) :
    s.Detached (o.call remote) remote ↔ o.Idle t := by
  cases o with
  | read n w => exact detached_read_iff n w ht
  | write data w => exact iff_of_false (not_detached_write data w ht) id
  | close => exact detached_close_iff ht

end Reactor

/-! ## The streams of a run -/

/-- The reactor, and what its tasks hold. -/
structure Sockets (κ : Type) where
  reactor : Reactor κ
  /-- How many connections have been installed under a remote. -/
  epoch : Endpoint → Nat
  /-- The connections that the `Connect` futures have opened. -/
  dials : List Incarnation
  /-- The connections that the streams were created for. -/
  streams : List Incarnation
  /-- Every connection, as it last stood in the table. -/
  record : Incarnation → Option (Tcb κ)
  /-- The bytes that were read from each connection. -/
  taken : Incarnation → List UInt8
  /-- The bytes of its own connection that each stream returned. -/
  got : Nat → List UInt8

/-- What a task does with its sockets, and what happens between the tasks. -/
inductive SocketAct where
  | event (v : Reactor.Event)
  | accept (w : Waker)
  | start (remote : Endpoint) (w : Waker)
  /-- A later poll of the `Connect` that was started as the `i`-th. -/
  | connect (i : Nat) (w : Waker)
  /-- An operation of the `i`-th stream. -/
  | operate (i : Nat) (o : Operation)
  deriving DecidableEq

namespace Sockets

open Reactor (Event)

variable {κ : Type} [CongestionControl κ]

def new (loc : Endpoint) (isn : IsnGenerator) (mss : Nat) : Sockets κ :=
  { reactor := Reactor.new loc isn mss, epoch := fun _ => 0, dials := [], streams := []
    record := fun _ => none, taken := fun _ => [], got := fun _ => [] }

variable (s : Sockets κ)

/-- The connection that was last installed under a remote. -/
def current (e : Endpoint) : Incarnation := ⟨e, s.epoch e⟩

/-- The connection that the operations of a stream act on. -/
def target (i : Nat) : Option Incarnation := s.streams[i]?.map fun x => s.current x.remote

/-- What an act comes to. The calls of the tasks are no events of their own. -/
def event : SocketAct → Option Event
  | .event (.action _) => none
  | .event v => some v
  | .accept w => some (.action (.poll .accept w))
  | .start remote w => some (.action (.start remote w))
  | .connect i w => s.dials[i]?.map fun x => .action (.poll (.connect x.remote) w)
  | .operate i o => s.streams[i]?.map fun x => .action (o.call x.remote)

/-- The connection that a `Connect` opens. -/
def dialled : SocketAct → List Incarnation
  | .start remote _ => [⟨remote, s.epoch remote + 1⟩]
  | _ => []

/-- The stream that a future resolves to. -/
def created : SocketAct → List Incarnation
  | .accept w =>
    match (s.reactor.pollAccept w).2 with
    | .ready remote => [s.current remote]
    | .pending => []
  | .connect i w =>
    match s.dials[i]? with
    | some x =>
      match (s.reactor.pollConnect x.remote w).2 with
      | .ready (.ok _) => [x]
      | _ => []
    | none => []
  | _ => []

/-- The bytes that a read returns. -/
def returned : SocketAct → List UInt8
  | .operate i (.read n w) =>
    match s.streams[i]? with
    | some x =>
      match (s.reactor.pollRead x.remote n w).2 with
      | .ready (.ok bytes) => bytes.data
      | _ => []
    | none => []
  | _ => []

/-- The stream that an act is made through. -/
def handle : SocketAct → Option Nat
  | .operate i _ => some i
  | _ => none

def after (a : SocketAct) (v : Event) : Sockets κ :=
  let epoch := s.reactor.age s.epoch v
  { reactor := s.reactor.apply v
    epoch := epoch
    dials := s.dials ++ s.dialled a
    streams := s.streams ++ s.created a
    record := fun x =>
      (if x.epoch = epoch x.remote then (s.reactor.apply v).stack.connection x.remote else none).or (s.record x)
    taken := fun x => if (handle a).bind s.target = some x then s.taken x ++ s.returned a else s.taken x
    got := fun i =>
      if handle a = some i ∧ s.target i = s.streams[i]? then s.got i ++ s.returned a else s.got i }

/-- One act, as a step of a run. -/
def step (a : SocketAct) : Option (Sockets κ) := (s.event a).map (s.after a)

/-! ## Isolation -/

/-- An operation touches and shows no connection but the one its stream was created for. -/
def Isolated : SocketAct → Prop
  | .operate i o => ∀ x, s.streams[i]? = some x → ∀ e, s.current e ≠ x → s.reactor.Detached (o.call x.remote) e
  | _ => True

/-- The stream's own connection is the last of its remote, or there is nothing to do for the
operation on the one that is. -/
def Loyal : SocketAct → Prop
  | .operate i o => ∀ x, s.streams[i]? = some x →
      s.current x.remote = x ∨ ∀ t, s.reactor.stack.connection x.remote = some t → o.Idle t
  | _ => True

variable {s} {a : SocketAct} {i : Nat} {o : Operation} {x : Incarnation}

/-- What isolation means for a stream that has outlived its connection. -/
theorem Isolated.spares (h : s.Isolated (.operate i o)) (hx : s.streams[i]? = some x)
    (hstale : s.current x.remote ≠ x) :
    (s.reactor.act (o.call x.remote)).under x.remote = s.reactor.under x.remote ∧
      s.returned (.operate i o) = [] := by
  have hdetached := h x hx x.remote hstale
  refine ⟨hdetached.untouched, ?_⟩
  cases o with
  | read n w =>
    simp only [returned, hx, Reactor.pollRead_of_answer hdetached.unseen]
    rfl
  | write => rfl
  | close => rfl

theorem isolated_iff_loyal (s : Sockets κ) (a : SocketAct) : s.Isolated a ↔ s.Loyal a := by
  cases a with
  | operate i o =>
    refine forall_congr' fun x => imp_congr_right fun hx => ?_
    constructor
    · intro h
      by_cases hown : s.current x.remote = x
      · exact .inl hown
      · exact .inr fun t ht => (Reactor.detached_iff o ht).mp (h x.remote hown)
    · intro h e he
      by_cases hne : e = x.remote
      · subst hne
        have hidle := h.resolve_left he
        cases ht : s.reactor.stack.connection x.remote with
        | none => exact Reactor.detached_of_none o ht
        | some t => exact (Reactor.detached_iff o ht).mpr (hidle t ht)
      · exact s.reactor.detached_of_ne o hne
  | event v => exact Iff.rfl
  | accept w => exact Iff.rfl
  | start remote w => exact Iff.rfl
  | connect i w => exact Iff.rfl

/-- In every run the operations of the streams are isolated exactly as long as each is made
while its stream's connection is the last that was installed under the remote, or finds
nothing to do on the one that is there. -/
theorem isolated_iff (loc : Endpoint) (isn : IsnGenerator) (mss : Nat) (as : List SocketAct) :
    Run.Along step Isolated (new loc isn mss : Sockets κ) as ↔ Run.Along step Loyal (new loc isn mss : Sockets κ) as :=
  Run.along_iff (I := fun _ => True) (fun _ _ _ _ _ => trivial) (fun s a _ => s.isolated_iff_loyal a) trivial as

/-! ## An endpoint that connects again -/

/-- One turn in which a frame arrives. -/
def turn (now : Nat) (frame : List UInt8) (acts : List SocketAct) : List SocketAct :=
  [.event (.timers ⟨now⟩), .event (.frame frame), .event .dispatch] ++ acts ++ [.event .transmit]

open Reactor (peerFrame) in
/-- A connection is accepted, reset by its peer and reaped. -/
def abandoned : List SocketAct :=
  turn 0 (peerFrame 2 5000 0 []) [] ++ turn 1000 (peerFrame 16 5001 35424799 []) [.accept 0] ++
    turn 2000 (peerFrame 4 5001 0 []) []

open Reactor (peerFrame) in
/-- The peer opens another one from the same port, and sends a byte. -/
def reopened : List SocketAct :=
  abandoned ++ (turn 3000 (peerFrame 2 9000 0 []) [] ++ turn 4000 (peerFrame 16 9001 35425549 [171]) [])

theorem reopened_ends : (Run.run step (new ⟨2, 80⟩ ⟨0, 0⟩ 1460) reopened).any
    (fun s : Sockets Reno => decide (s.streams[0]? = some ⟨⟨1, 1000⟩, 1⟩ ∧ s.current ⟨1, 1000⟩ = ⟨⟨1, 1000⟩, 2⟩ ∧
      s.returned (.operate 0 (.read 4 0)) = [171])) = true := by
  decide +kernel

/-- A read on the old stream returns the byte of the new connection. -/
theorem old_stream_reads : ∃ s : Sockets Reno,
    Run.run step (new ⟨2, 80⟩ ⟨0, 0⟩ 1460) reopened = some s ∧ s.streams[0]? = some ⟨⟨1, 1000⟩, 1⟩ ∧
      s.current ⟨1, 1000⟩ = ⟨⟨1, 1000⟩, 2⟩ ∧ s.returned (.operate 0 (.read 4 0)) = [171] ∧
      ¬ s.Isolated (.operate 0 (.read 4 0)) := by
  obtain ⟨s, hs, hx, hnow, hread⟩ := Run.exists_run step _ _ _ reopened_ends
  refine ⟨s, hs, hx, hnow, hread, fun h => ?_⟩
  have hstale : s.current ⟨1, 1000⟩ ≠ ⟨⟨1, 1000⟩, 1⟩ := by
    rw [hnow]
    decide
  have hnothing := (h.spares hx hstale).2
  rw [hread] at hnothing
  cases hnothing

end Sockets

end Ferrumnet
