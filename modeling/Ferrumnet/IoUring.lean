import Ferrumnet.Lib.FreeRunning
import Ferrumnet.Lib.Interleaving
import Ferrumnet.Buffers

/-
  The io_uring device (`iou.rs`) beside the kernel that serves its ring.

  A submission queue, a completion queue, and the pools of read and write buffers. What
  the kernel sees of the device are the two queues and the buffers; it takes steps of its
  own before each step that touches them, and answers the two system calls.

  A buffer that leaves a pool for the submission queue is popped in the step that pushes
  it: in between only the call in progress knows of it, and the kernel sees neither.
-/

namespace Ferrumnet

open FreeRunning Interleaving

/-! ## The queues -/

def ioringOpRead : Nat := 22
def ioringOpWrite : Nat := 23

/-- The current position of the file. -/
def offCurPos : Nat := Instant.u64Max

/-- A buffer of the device, by its address. -/
inductive Buffer where
  | read (i : Nat)
  | write (j : Nat)
  deriving DecidableEq, Repr

/-- A submission: read into a buffer, or write from one. -/
structure Sqe where
  opcode : Nat
  fd : Nat
  addr : Buffer
  len : Nat
  off : Nat
  userData : Nat
  deriving DecidableEq, Repr

/-- A completion. -/
structure Cqe where
  userData : Nat
  res : Int
  deriving DecidableEq, Repr

/-- The ring: what is mapped, and the tail and the count of submissions that are kept locally. -/
structure IoUring where
  sqMask : Nat
  sqHead : Nat
  sqTail : Nat
  sqes : Nat → Sqe
  cqMask : Nat
  cqHead : Nat
  cqTail : Nat
  cqes : Nat → Cqe
  sqLocalTail : Nat
  /-- Pushed since the last submit. -/
  pending : Nat

namespace IoUring

def sqFree (r : IoUring) : Nat := r.sqMask + 1 - distance r.sqLocalTail r.sqHead

def push (r : IoUring) (sqe : Sqe) : IoUring :=
  { r with
    sqes := write r.sqes (slot r.sqMask r.sqLocalTail) sqe, sqLocalTail := advance r.sqLocalTail 1
    pending := advance r.pending 1 }

/-- The completions that are there, each given to `f`. -/
def reap {τ : Type} (r : IoUring) (f : τ → Cqe → τ) (t : τ) : IoUring × τ :=
  let n := distance r.cqTail r.cqHead
  ({ r with cqHead := advance r.cqHead n }, (entries r.cqes r.cqMask r.cqHead n).foldl f t)

end IoUring

/-! ## The device -/

/-- The bit of `user_data` that tells a write from a read. -/
def writeTag : Nat := 9223372036854775808

def readUd (i : Nat) : Nat := i

def writeUd (j : Nat) : Nat := writeTag ||| j

def nRead : Nat := 256
def nWrite : Nat := 512

structure IoUringTun where
  fd : Nat
  ring : IoUring
  bufsz : Nat
  /-- `read_bufs` and `write_bufs`. -/
  bufs : Buffer → List UInt8
  /-- A received packet: buffer and length. -/
  readReady : List (Nat × Nat)
  repost : List Nat
  writeFree : List Nat

/-- `copy_from_slice` into the front of a buffer. -/
def overlay (old new : List UInt8) : List UInt8 := new ++ old.drop new.length

def IoUringTun.store (t : IoUringTun) (b : Buffer) (data : List UInt8) : IoUringTun :=
  { t with bufs := fun c => if c = b then overlay (t.bufs c) data else t.bufs c }

/-- What `drain_cq` does with a completion. -/
def IoUringTun.drainOne (t : IoUringTun) (c : Cqe) : IoUringTun :=
  if c.userData &&& writeTag ≠ 0 then
    { t with writeFree := t.writeFree ++ [c.userData &&& (Instant.u64Max ^^^ writeTag)] }
  else if c.res > 0 then { t with readReady := t.readReady ++ [(c.userData, c.res.toNat)] }
  else { t with repost := t.repost ++ [c.userData] }

/-! ## The kernel -/

/-- The device, the submissions that the kernel has consumed and not yet completed, and what it
has written to the interface. -/
structure Driver where
  tun : IoUringTun
  inFlight : List Sqe
  wire : List (List UInt8)

inductive Outcome where
  | failed (errno : Nat)
  /-- A read takes the data, cut to the buffer's length; a write writes what it was given. -/
  | done (data : List UInt8)
  deriving DecidableEq, Repr

inductive KernelAct where
  /-- Consume the submission at the head of the queue, if one is published. -/
  | consume
  /-- Complete a submission in flight, in any order, if the completion queue has room. -/
  | complete (k : Nat) (outcome : Outcome)
  deriving DecidableEq, Repr

namespace Driver

def post (s : Driver) (c : Cqe) : Driver :=
  { s with
    tun.ring.cqes := write s.tun.ring.cqes (slot s.tun.ring.cqMask s.tun.ring.cqTail) c
    tun.ring.cqTail := advance s.tun.ring.cqTail 1 }

/-- Carry a submission out, and its result. -/
def execute (s : Driver) (sqe : Sqe) : Outcome → Driver × Int
  | .failed errno => (s, -errno)
  | .done data =>
    if sqe.opcode = ioringOpRead then
      ({ s with tun := s.tun.store sqe.addr (data.take sqe.len) }, ((data.take sqe.len).length : Int))
    else ({ s with wire := s.wire ++ [(s.tun.bufs sqe.addr).take sqe.len] }, (sqe.len : Int))

def kernel (s : Driver) : KernelAct → Driver
  | .consume =>
    if s.tun.ring.sqHead = s.tun.ring.sqTail then s
    else
      { s with
        inFlight := s.inFlight ++ [s.tun.ring.sqes (slot s.tun.ring.sqMask s.tun.ring.sqHead)]
        tun.ring.sqHead := advance s.tun.ring.sqHead 1 }
  | .complete k outcome =>
    match s.inFlight[k]? with
    | none => s
    | some sqe =>
      if distance s.tun.ring.cqTail s.tun.ring.cqHead > s.tun.ring.cqMask then s
      else
        let done := s.execute sqe outcome
        { done.1 with inFlight := s.inFlight.eraseIdx k }.post ⟨sqe.userData, done.2⟩

end Driver

/-! ## The device's calls -/

/-- What a call does with what the kernel sees. -/
inductive Access where
  | loadHead
  | push (sqe : Sqe)
  | publish
  | enter (toSubmit : Nat)
  | poll (timeoutMs : Int)
  | reap
  /-- Write into a write buffer. -/
  | copyIn (j : Nat) (data : List UInt8)
  /-- Read the front of a read buffer. -/
  | copyOut (i n : Nat)
  deriving DecidableEq, Repr

inductive DeviceError where
  | os
  | wouldBlock (message : String)
  deriving DecidableEq, Repr

/-- A call: its steps, each after a turn of the kernel. A system call is answered by a number,
negative if it fails. -/
abbrev Io (α : Type) := Thread Driver KernelAct Int Access α

namespace Io

def look {α : Type} (f : IoUringTun → α) : Io α := silent fun s => (f s.tun, s)

/-- A step on the device. -/
def touch (a : Access) (f : IoUringTun → IoUringTun) : Io Unit :=
  act Driver.kernel a fun _ s => ((), { s with tun := f s.tun })

def sqFree : Io Nat := act Driver.kernel .loadHead fun _ s => (s.tun.ring.sqFree, s)

def submit : Io (Except DeviceError Unit) := do
  let toSubmit ← look (·.ring.pending)
  if toSubmit = 0 then return .ok ()
  touch .publish fun t => { t with ring.sqTail := t.ring.sqLocalTail }
  let rc ← act Driver.kernel (.enter toSubmit) fun rc s => (rc, s)
  if rc < 0 then return .error .os
  silent fun s => ((), { s with tun.ring.pending := 0 })
  return .ok ()

def drainCq : Io Unit :=
  touch .reap fun t =>
    let reaped := t.ring.reap IoUringTun.drainOne t
    { reaped.2 with ring := reaped.1 }

def readSqe (t : IoUringTun) (i : Nat) : Sqe :=
  ⟨ioringOpRead, t.fd, .read i, t.bufsz, offCurPos, readUd i⟩

def writeSqe (t : IoUringTun) (j n : Nat) : Sqe :=
  ⟨ioringOpWrite, t.fd, .write j, n, offCurPos, writeUd j⟩

/-- Push the read buffer `i`, the last of `repost`. -/
def pushRead (i : Nat) : Io Unit := do
  let sqe ← look (readSqe · i)
  touch (.push sqe) fun t => { t with repost := t.repost.dropLast, ring := t.ring.push sqe }

/-- Push `n` bytes of the write buffer `j`, the last of `write_free`. -/
def pushWrite (j n : Nat) : Io Unit := do
  let sqe ← look (writeSqe · j n)
  touch (.push sqe) fun t => { t with writeFree := t.writeFree.dropLast, ring := t.ring.push sqe }

/-- `while let Some(i) = repost.pop()`, at most so often. -/
def repostUpTo : Nat → Io Unit
  | 0 => pure ()
  | n + 1 => do
    match ← look (·.repost.getLast?) with
    | none => pure ()
    | some i =>
      if (← sqFree) = 0 then
        let _ ← submit
      pushRead i
      repostUpTo n

def postReposts : Io Unit := do
  repostUpTo (← look (·.repost.length))

def pollReadable (timeoutMs : Int) : Io (Except DeviceError Bool) := do
  postReposts
  match ← submit with
  | .error e => return .error e
  | .ok () =>
    drainCq
    if (← look (·.readReady)) ≠ [] then return .ok true
    -- an interrupted wait is not ready, and no failure
    let rc ← act Driver.kernel (.poll timeoutMs) fun rc s => (rc, s)
    if rc < 0 then return .error .os
    if rc > 0 then drainCq
    return .ok (decide ((← look (·.readReady)) ≠ []))

/-- What is copied into a caller's buffer of `room` bytes. -/
def recv (room : Nat) : Io (Except DeviceError (Option (List UInt8))) := do
  match ← look (·.readReady.head?) with
  | none => return .ok none
  | some (idx, len) =>
    let n := min len room
    let data ← act Driver.kernel (.copyOut idx n) fun _ s =>
      ((s.tun.bufs (.read idx)).take n,
        { s with tun.readReady := s.tun.readReady.tail, tun.repost := s.tun.repost ++ [idx] })
    return .ok (some data)

/-- The second half of `send`, when there is a write buffer. -/
def sendFrom (j : Nat) (pkt : List UInt8) : Io (Except DeviceError Unit) := do
  let n ← look fun t => min pkt.length t.bufsz
  touch (.copyIn j (pkt.take n)) (·.store (.write j) (pkt.take n))
  if (← sqFree) = 0 then
    match ← submit with
    -- the buffer is lost to the pool
    | .error e =>
      silent fun s => ((), { s with tun.writeFree := s.tun.writeFree.dropLast })
      return .error e
    | .ok () => pure ()
  pushWrite j n
  return .ok ()

def send (pkt : List UInt8) : Io (Except DeviceError Unit) := do
  match ← look (·.writeFree.getLast?) with
  | some j => sendFrom j pkt
  | none =>
    postReposts
    match ← submit with
    | .error e => return .error e
    | .ok () =>
      drainCq
      match ← look (·.writeFree.getLast?) with
      | some j => sendFrom j pkt
      | none => return .error (.wouldBlock "io_uring tx buffers exhausted")

/-- Post a READ for every read buffer, and submit. -/
def openReads : List Nat → Io (Except DeviceError Unit)
  | [] => submit
  | i :: is => do
    let sqe ← look (readSqe · i)
    touch (.push sqe) fun t => { t with ring := t.ring.push sqe }
    openReads is

end Io

/-- The device as `open` builds it, over a ring of 1024 submissions and 2048 completions as the
kernel sets it up. -/
def Driver.fresh (fd bufsz : Nat) : Driver :=
  { tun :=
      { fd := fd, bufsz := bufsz, bufs := fun _ => List.replicate bufsz 0
        readReady := [], repost := [], writeFree := List.range nWrite
        ring :=
          { sqMask := 1023, sqHead := 0, sqTail := 0, sqes := fun _ => ⟨0, 0, .read 0, 0, 0, 0⟩
            cqMask := 2047, cqHead := 0, cqTail := 0, cqes := fun _ => ⟨0, 0⟩, sqLocalTail := 0, pending := 0 } }
    inFlight := [], wire := [] }

/-- `IoUringTun::open`, from there. -/
def Io.openTun : Io (Except DeviceError Unit) := openReads (List.range nRead)

end Ferrumnet
