import Mathlib.Data.Finset.Basic
import Ferrumnet.Ipv4
import Ferrumnet.Drained

/-
  The runtime (`runtime/reactor.rs`, `runtime/socket.rs`): the state that the reactor
  shares with the socket futures, the polls of these futures, and the parts of a turn.

  Everything is keyed by the remote endpoint: the connections, the parked wakers, the
  accept queue, and the set of connections already announced. A waker is the id of its
  task. ICMP and frames that fail the checks of `Ipv4Packet` touch none of this state.

  A turn is a sequence of events. The executor polls the tasks that were woken; here any
  futures may be polled, in any order.
-/

namespace Ferrumnet

/-! ## The stack, connection by connection -/

/-- The loop of `Stack::poll_transmit` over one connection. -/
def Tcb.flush {κ : Type} [CongestionControl κ] (t : Tcb κ) (now : Instant) : Tcb κ × List Datagram :=
  (t.drain now (t.workload + 1)).getD (t, [])

namespace Stack

variable {κ : Type} [CongestionControl κ] (s : Stack κ)

/-- Fire the due timers of one connection. -/
def fire (now : Instant) (s : Stack κ) (key : Endpoint) : Stack κ :=
  match s.connection key with
  | some t => s.setConn key (t.onTimer now)
  | none => s

def onTimer (now : Instant) : Stack κ := s.conns.keys.foldl (fire now) s

/-- Drain one connection, and reap it once it is closed. -/
def drainConn (now : Instant) (p : Stack κ × List Datagram) (key : Endpoint) : Stack κ × List Datagram :=
  match p.1.connection key with
  | some t =>
    let q := t.flush now
    (if q.1.state = .closed then { p.1 with conns := p.1.conns.erase key } else p.1.setConn key q.1,
      p.2 ++ q.2)
  | none => p

def pollTransmit (now : Instant) : Stack κ × List Datagram :=
  s.conns.keys.foldl (drainConn now) ({ s with pending := [] }, s.pending)

end Stack

/-! ## The shared state -/

/-- The id of the task to wake. -/
abbrev Waker := Nat

abbrev Wakers := AList fun _ : Endpoint => Waker

structure Reactor (κ : Type) where
  stack : Stack κ
  readWakers : Wakers
  writeWakers : Wakers
  connectWakers : Wakers
  acceptWaker : Option Waker
  acceptQueue : List Endpoint
  now : Instant
  /-- Connections already handed to `accept`. -/
  announced : Finset Endpoint
  /-- The tasks woken so far. -/
  woken : List Waker

inductive Poll (α : Type) where
  | pending
  | ready (value : α)
  deriving DecidableEq, Repr

/-- The value of a poll, under a constructor. -/
def Poll.map {α β : Type} (f : α → β) : Poll α → Poll β
  | .pending => .pending
  | .ready a => .ready (f a)

def Poll.isPending {α : Type} : Poll α → Bool
  | .pending => true
  | .ready _ => false

inductive ErrorKind where
  | timedOut | connectionRefused | connectionReset | brokenPipe
  deriving DecidableEq, Repr

structure IoError where
  kind : ErrorKind
  message : String
  deriving DecidableEq, Repr

/-- The first connection of the queue that is still usable, and the queue behind it. -/
def Stack.nextUsable {κ : Type} (s : Stack κ) : List Endpoint → Option Endpoint × List Endpoint
  | [] => (none, [])
  | remote :: queue =>
    if (s.connection remote).any fun t => t.isSynchronized || t.rxAvailable > 0 then (some remote, queue)
    else s.nextUsable queue

namespace Reactor

variable {κ : Type} [CongestionControl κ] (s : Reactor κ)

def new (loc : Endpoint) (isn : IsnGenerator) (mss : Nat) : Reactor κ :=
  { stack := Stack.new loc isn mss, readWakers := ∅, writeWakers := ∅, connectWakers := ∅
    acceptWaker := none, acceptQueue := [], now := ⟨0⟩, announced := ∅, woken := [] }

/-! ## The futures -/

/-- `Accept::poll`. -/
def pollAccept (w : Waker) : Reactor κ × Poll Endpoint :=
  let p := s.stack.nextUsable s.acceptQueue
  match p.1 with
  | some remote => ({ s with acceptQueue := p.2 }, .ready remote)
  | none => ({ s with acceptQueue := p.2, acceptWaker := some w }, .pending)

/-- The first poll of `Connect`: it installs the connection and parks. -/
def startConnect (remote : Endpoint) (w : Waker) : Reactor κ :=
  { s with stack := s.stack.connect remote s.now, connectWakers := s.connectWakers.insert remote w }

/-- A later poll of `Connect`. -/
def pollConnect (remote : Endpoint) (w : Waker) : Reactor κ × Poll (Except IoError Endpoint) :=
  match s.stack.connection remote with
  | none => (s, .ready (.error ⟨.timedOut, "connect failed"⟩))
  | some t =>
    if t.isSynchronized then (s, .ready (.ok remote))
    else if t.state = .closed then
      (s, .ready (.error (if t.isReset then ⟨.connectionRefused, "connection refused"⟩
        else ⟨.timedOut, "connect timed out"⟩)))
    else ({ s with connectWakers := s.connectWakers.insert remote w }, .pending)

/-- `Read::poll`, for a buffer of `n` bytes. -/
def pollRead (remote : Endpoint) (n : Nat) (w : Waker) : Reactor κ × Poll (Except IoError Bytes) :=
  if n = 0 then (s, .ready (.ok Bytes.empty))
  else
    match s.stack.connection remote with
    | none => (s, .ready (.ok Bytes.empty))
    | some t =>
      if t.rxAvailable > 0 then
        ({ s with stack := s.stack.setConn remote (t.recv n).1 }, .ready (.ok (t.recv n).2))
      else if t.isReset then (s, .ready (.error ⟨.connectionReset, "connection reset"⟩))
      else if t.recvEof || t.state = .closed then (s, .ready (.ok Bytes.empty))
      else ({ s with readWakers := s.readWakers.insert remote w }, .pending)

/-- `Write::poll`; it resolves to the number of bytes taken. -/
def pollWrite (remote : Endpoint) (data : Bytes) (w : Waker) : Reactor κ × Poll (Except IoError Nat) :=
  match s.stack.connection remote with
  | none => (s, .ready (.error ⟨.brokenPipe, "connection reset"⟩))
  | some t =>
    if t.isReset then (s, .ready (.error ⟨.connectionReset, "connection reset"⟩))
    else if t.state ≠ .established ∧ t.state ≠ .closeWait then
      (s, .ready (.error ⟨.brokenPipe, "not connected"⟩))
    else if (t.send data).2 > 0 then
      ({ s with stack := s.stack.setConn remote (t.send data).1 }, .ready (.ok (t.send data).2))
    else ({ s with writeWakers := s.writeWakers.insert remote w }, .pending)

/-- What a task may wait for. -/
inductive Future where
  | accept
  | connect (remote : Endpoint)
  | read (remote : Endpoint) (n : Nat)
  | write (remote : Endpoint) (data : Bytes)
  deriving DecidableEq

/-- What a future resolves to. -/
inductive Output where
  | accepted (remote : Endpoint)
  | connected (r : Except IoError Endpoint)
  | read (r : Except IoError Bytes)
  | written (r : Except IoError Nat)

/-- Poll a future; a `Connect` has been polled before. -/
def poll (f : Future) (w : Waker) : Reactor κ × Poll Output :=
  match f with
  | .accept => ((s.pollAccept w).1, (s.pollAccept w).2.map .accepted)
  | .connect remote => ((s.pollConnect remote w).1, (s.pollConnect remote w).2.map .connected)
  | .read remote n => ((s.pollRead remote n w).1, (s.pollRead remote n w).2.map .read)
  | .write remote data => ((s.pollWrite remote data w).1, (s.pollWrite remote data w).2.map .written)

/-- `TcpStream::close`. -/
def close (remote : Endpoint) : Reactor κ :=
  match s.stack.connection remote with
  | some t => { s with stack := s.stack.setConn remote t.close }
  | none => s

/-! ## The parts of a turn -/

/-- The turn starts: the clock is taken and the timers fire. -/
def fireTimers (now : Instant) : Reactor κ := { s with now := now, stack := s.stack.onTimer now }

/-- One frame of the device is ingested. -/
def ingest (frame : List UInt8) : Reactor κ :=
  match Ipv4Packet.newChecked frame with
  | .error _ => s
  | .ok ip => if ip.protocol = ipprotoTcp then { s with stack := s.stack.onRecv s.now ip } else s

/-- The passively opened connections past the handshake. An active open has an ephemeral
local port. -/
def synced : List Endpoint :=
  s.stack.conns.keys.filter fun e =>
    (s.stack.connection e).any fun t => t.isSynchronized && t.localEnd.port = s.stack.localEnd.port

/-- Promote one connection to the accept queue, unless it has been announced. -/
def announce (s : Reactor κ) (e : Endpoint) : Reactor κ :=
  if e ∈ s.announced then s
  else { s with announced := insert e s.announced, acceptQueue := s.acceptQueue ++ [e] }

/-- Take the accept waker while anything is queued. -/
def wakeAccept : Reactor κ :=
  if s.acceptQueue.isEmpty then s
  else { s with acceptWaker := none, woken := s.woken ++ s.acceptWaker.toList }

/-- Take the wakers of the connections that are ready. -/
def wake (ready : Endpoint → Bool) (wakers : Wakers) : Wakers × List Waker :=
  wakers.keys.foldl (fun p e => if ready e then (p.1.erase e, p.2 ++ (p.1.lookup e).toList) else p) (wakers, [])

def connectReady (e : Endpoint) : Bool :=
  match s.stack.connection e with
  | some t => t.isSynchronized || t.state = .closed
  | none => true

def readReady (e : Endpoint) : Bool :=
  match s.stack.connection e with
  | some t => t.rxAvailable > 0 || t.recvEof || t.state = .closed
  | none => true

def writeReady (e : Endpoint) : Bool :=
  match s.stack.connection e with
  | some t => !(t.state = .established || t.state = .closeWait) || t.txFree > 0
  | none => true

def wakeConnects : Reactor κ :=
  let p := wake s.connectReady s.connectWakers
  { s with connectWakers := p.1, woken := s.woken ++ p.2 }

def wakeReads : Reactor κ :=
  let p := wake s.readReady s.readWakers
  { s with readWakers := p.1, woken := s.woken ++ p.2 }

def wakeWrites : Reactor κ :=
  let p := wake s.writeReady s.writeWakers
  { s with writeWakers := p.1, woken := s.woken ++ p.2 }

/-- Drop the bookkeeping of connections that the stack has reaped. -/
def prune : Reactor κ :=
  { s with announced := s.announced.filter fun e => e ∈ s.stack.conns
           acceptQueue := s.acceptQueue.filter fun e => e ∈ s.stack.conns }

def dispatchWakeups : Reactor κ :=
  ((((s.synced.foldl announce s).wakeAccept).wakeConnects).wakeReads).wakeWrites.prune

/-- The turn ends: everything the stack wants to send goes out. -/
def transmit : Reactor κ × List Datagram :=
  let p := s.stack.pollTransmit s.now
  ({ s with stack := p.1 }, p.2)

/-- `Runtime::set_congestion_control`. -/
def setCongestionControl (kind : CcKind) : Reactor κ := { s with stack := { s.stack with ccKind := kind } }

/-- The earliest deadline of all connections. -/
def pollAt : Option Instant :=
  (s.stack.conns.keys.filterMap fun e => (s.stack.connection e).bind Tcb.pollAt).foldl
    (fun best d => match best with
      | none => some d
      | some b => some (if d.micros < b.micros then d else b)) none

/-! ## Events -/

/-- What a task may do. -/
inductive Call where
  | start (remote : Endpoint) (w : Waker)
  | poll (f : Future) (w : Waker)
  | close (remote : Endpoint)
  deriving DecidableEq

inductive Event where
  | select (kind : CcKind)
  | timers (now : Instant)
  | frame (buf : List UInt8)
  | dispatch
  | action (a : Call)
  | transmit
  deriving DecidableEq

/-- One turn: timers, ingress, wakeups, tasks, egress. -/
structure Turn where
  now : Instant
  frames : List (List UInt8)
  actions : List Call

/-- The turn up to its wakeups. -/
def Turn.arrivals (x : Turn) : List Event := .timers x.now :: x.frames.map .frame ++ [.dispatch]

def Turn.events (x : Turn) : List Event := x.arrivals ++ x.actions.map .action ++ [.transmit]

def act : Call → Reactor κ
  | .start remote w => s.startConnect remote w
  | .poll f w => (s.poll f w).1
  | .close remote => s.close remote

def apply : Event → Reactor κ
  | .select kind => s.setCongestionControl kind
  | .timers now => s.fireTimers now
  | .frame buf => s.ingest buf
  | .dispatch => s.dispatchWakeups
  | .action a => s.act a
  | .transmit => s.transmit.1

end Reactor

end Ferrumnet
