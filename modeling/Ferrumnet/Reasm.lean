import Ferrumnet.Seq
import Ferrumnet.Buffers

/-
  Out-of-order receive reassembly (`reasm.rs`): the buffer and its operations.

  Bytes that arrive above a gap wait here as a sorted list of coalesced runs.
  The definitions follow the source loop by loop; what they compute as a map
  from sequence numbers to bytes is in `ReasmMap`.
-/

namespace Ferrumnet

namespace Reasm

/-- One contiguous run of out-of-order bytes, `[start, start + data.length)`. -/
structure Segment where
  start : SeqNumber
  data : Bytes
  /-- The run with the highest stamp was touched last. -/
  stamp : Nat
  deriving DecidableEq, Repr

/-- One past the run's last sequence number. -/
def Segment.stop (run : Segment) : SeqNumber := run.start + run.data.len

end Reasm

/-- The out-of-order reassembly buffer of one connection. -/
structure Reasm where
  runs : List Reasm.Segment
  /-- The sum of the run lengths, maintained incrementally. -/
  bytes : Nat
  nextStamp : Nat
  deriving DecidableEq, Repr

namespace Reasm

def new : Reasm := ⟨[], 0, 0⟩

def buffered (r : Reasm) : Nat := r.bytes
def isEmpty (r : Reasm) : Bool := r.runs.isEmpty

/-- What the scan of `insert` has collected: the merged span and the block of
runs it swallows. -/
structure Merge where
  start : SeqNumber
  stop : SeqNumber
  firstIdx : Nat
  count : Nat

/-- One iteration of the scan: a run overlapping or adjacent to `[lo, newEnd)`
joins the block and widens the merged span. -/
def mergeStep (lo newEnd : SeqNumber) (m : Merge) (entry : Segment × Nat) : Merge :=
  let run := entry.1
  if run.start.le newEnd && lo.le run.stop then
    { start := if run.start.lt m.start then run.start else m.start
      stop := if run.stop.gt m.stop then run.stop else m.stop
      firstIdx := if m.count = 0 then entry.2 else m.firstIdx
      count := m.count + 1 }
  else m

/-- The whole scan over `runs`. -/
def scan (lo newEnd : SeqNumber) (runs : List Segment) : Merge :=
  runs.zipIdx.foldl (mergeStep lo newEnd)
    { start := lo, stop := newEnd, firstIdx := runs.length, count := 0 }

/-- `data[at..at + src.len()].copy_from_slice(src)`. -/
def copyAt (data : Bytes) (pos : Nat) (src : Bytes) : Bytes :=
  data.take pos ++ src ++ data.drop (pos + src.len)

/-- Insert `seg` before the first run that starts above it. -/
def insertSorted (seg : Segment) (runs : List Segment) : List Segment :=
  let pos := (runs.findIdx? fun r => seg.start.lt r.start).getD runs.length
  runs.take pos ++ [seg] ++ runs.drop pos

/-- Replace the runs touched by `newBytes`, which begins at `lo`, by one run.
Bytes already buffered win. -/
def fuse (r : Reasm) (lo : SeqNumber) (newBytes : Bytes) : Reasm :=
  let m := scan lo (lo + newBytes.len) r.runs
  let block := (r.runs.drop m.firstIdx).take m.count
  let rest := r.runs.take m.firstIdx ++ r.runs.drop (m.firstIdx + m.count)
  let span := m.stop.offsetFrom m.start
  -- the new bytes first, then the existing ones over them
  let laid := copyAt (Bytes.replicate span 0) (lo.offsetFrom m.start) newBytes
  let data := block.foldl (fun d run => copyAt d (run.start.offsetFrom m.start) run.data) laid
  let seg := { start := m.start, data := data, stamp := r.nextStamp + 1 }
  { runs := insertSorted seg rest
    bytes := r.bytes - (block.map fun run => run.data.len).sum + data.len
    nextStamp := r.nextStamp + 1 }

/-- Buffer `payload`, which begins at `segSeq`, clipped to `(rcvNxt, rightEdge)`
and coalesced with the runs it touches. -/
def insert (r : Reasm) (rcvNxt rightEdge segSeq : SeqNumber) (payload : Bytes) : Reasm :=
  let segEnd := segSeq + payload.len
  let lo := segSeq.max rcvNxt
  let hi := segEnd.min rightEdge
  if lo.ge hi then r
  else
    let off := lo.offsetFrom segSeq
    let len := hi.offsetFrom lo
    r.fuse lo ((payload.drop off).take len)

/-- Remove and return the lowest run if it begins exactly at `rcvNxt`. -/
def popContiguous (r : Reasm) (rcvNxt : SeqNumber) : Reasm × Bytes :=
  match r.runs with
  | [] => (r, Bytes.empty)
  | first :: rest =>
    if first.start = rcvNxt then
      ({ r with runs := rest, bytes := r.bytes - first.data.len }, first.data)
    else (r, Bytes.empty)

/-- The loop of `discard_below`, on the runs and the byte count. -/
def discardLoop (rcvNxt : SeqNumber) : List Segment → Nat → List Segment × Nat
  | [], bytes => ([], bytes)
  | first :: rest, bytes =>
    if first.stop.le rcvNxt then discardLoop rcvNxt rest (bytes - first.data.len)
    else if first.start.lt rcvNxt then
      let n := rcvNxt.offsetFrom first.start
      ({ first with data := first.data.drop n, start := rcvNxt } :: rest, bytes - n)
    else (first :: rest, bytes)

/-- Drop buffered data the advancing `rcvNxt` has overtaken. -/
def discardBelow (r : Reasm) (rcvNxt : SeqNumber) : Reasm :=
  let p := discardLoop rcvNxt r.runs r.bytes
  { r with runs := p.1, bytes := p.2 }

/-- Re-buffer the unwritten tail of a popped run at the front. -/
def reinsertFront (r : Reasm) (start : SeqNumber) (data : Bytes) : Reasm :=
  if data.isEmpty then r
  else
    { runs := { start := start, data := data, stamp := r.nextStamp + 1 } :: r.runs
      bytes := r.bytes + data.len
      nextStamp := r.nextStamp + 1 }

/-- The buffered runs as `(left, right)` edges, most recently touched first, at
most `n` of them. -/
def report (r : Reasm) (n : Nat) : List (SeqNumber × SeqNumber) :=
  let order := r.runs.insertionSort fun a b => b.stamp ≤ a.stamp
  (order.take n).map fun run => (run.start, run.stop)

end Reasm

end Ferrumnet
