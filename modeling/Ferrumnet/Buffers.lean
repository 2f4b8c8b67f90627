import Mathlib.Data.List.Basic
import Mathlib.Tactic

/-
  The injected clock (`time.rs`), byte slices and the bounded byte ring
  (`buffers.rs`).

  `Instant` counts microseconds; additions saturate at the largest 64-bit value.
  `Bytes` is a slice: its bytes and, as in the source, their count beside them.
  `RingBuffer` carries the bound the source keeps by construction: it never
  holds more than its capacity, so `free` never wraps.
-/

namespace Ferrumnet

/-- A monotonic instant, in microseconds since the backend's epoch. -/
structure Instant where
  micros : Nat
  deriving DecidableEq, Repr

namespace Instant

def u64Max : Nat := 18446744073709551615

def fromMillis (millis : Nat) : Instant := ⟨min (millis * 1000) u64Max⟩

/-- Microseconds elapsed from `earlier` to `self`, 0 if `self` precedes it. -/
def saturatingMicrosSince (t earlier : Instant) : Nat := t.micros - earlier.micros

def plusMicros (t : Instant) (micros : Nat) : Instant := ⟨min (t.micros + micros) u64Max⟩

def plusMillis (t : Instant) (millis : Nat) : Instant :=
  ⟨min (t.micros + min (millis * 1000) u64Max) u64Max⟩

/-- `now >= d` for an armed deadline; an unarmed one is never due. -/
def due (now : Instant) : Option Instant → Bool
  | none => false
  | some d => d.micros ≤ now.micros

end Instant

/-! ## Byte slices -/

/-- A byte slice: its bytes, and how many they are. -/
structure Bytes where
  data : List UInt8
  len : Nat
  len_eq : data.length = len
  deriving DecidableEq, Repr

namespace Bytes

def ofList (data : List UInt8) : Bytes := ⟨data, data.length, rfl⟩

def empty : Bytes := ⟨[], 0, rfl⟩

/-- `n` copies of one byte (`vec![b; n]`). -/
def replicate (n : Nat) (b : UInt8) : Bytes := ⟨List.replicate n b, n, List.length_replicate⟩

def isEmpty (b : Bytes) : Bool := b.len = 0

/-- `&b[..n]`, the whole slice if it is shorter. -/
def take (n : Nat) (b : Bytes) : Bytes :=
  ⟨b.data.take n, min n b.len, by rw [List.length_take, b.len_eq]⟩

/-- `&b[n..]`, empty if the slice is shorter. -/
def drop (n : Nat) (b : Bytes) : Bytes :=
  ⟨b.data.drop n, b.len - n, by rw [List.length_drop, b.len_eq]⟩

def append (a b : Bytes) : Bytes :=
  ⟨a.data ++ b.data, a.len + b.len, by rw [List.length_append, a.len_eq, b.len_eq]⟩

instance : Append Bytes := ⟨append⟩

@[ext] theorem ext {a b : Bytes} (h : a.data = b.data) : a = b := by
  obtain ⟨x, n, hn⟩ := a
  obtain ⟨y, m, hm⟩ := b
  subst hn hm
  cases h
  rfl

@[simp] theorem length_data (b : Bytes) : b.data.length = b.len := b.len_eq

@[simp] theorem ofList_data (l : List UInt8) : (ofList l).data = l := rfl
@[simp] theorem ofList_len (l : List UInt8) : (ofList l).len = l.length := rfl
@[simp] theorem empty_data : empty.data = [] := rfl
@[simp] theorem empty_len : empty.len = 0 := rfl
@[simp] theorem replicate_data (n : Nat) (b : UInt8) : (replicate n b).data = List.replicate n b := rfl
@[simp] theorem replicate_len (n : Nat) (b : UInt8) : (replicate n b).len = n := rfl
@[simp] theorem take_data (n : Nat) (b : Bytes) : (b.take n).data = b.data.take n := rfl
@[simp] theorem take_len (n : Nat) (b : Bytes) : (b.take n).len = min n b.len := rfl
@[simp] theorem drop_data (n : Nat) (b : Bytes) : (b.drop n).data = b.data.drop n := rfl
@[simp] theorem drop_len (n : Nat) (b : Bytes) : (b.drop n).len = b.len - n := rfl
@[simp] theorem append_data (a b : Bytes) : (a ++ b).data = a.data ++ b.data := rfl
@[simp] theorem append_len (a b : Bytes) : (a ++ b).len = a.len + b.len := rfl

theorem isEmpty_iff {b : Bytes} : b.isEmpty = true ↔ b.len = 0 := by simp [isEmpty]

theorem isEmpty_eq_false {b : Bytes} : b.isEmpty = false ↔ 0 < b.len := by
  simp [isEmpty, Nat.pos_iff_ne_zero]

theorem data_eq_nil {b : Bytes} : b.data = [] ↔ b.len = 0 := by
  rw [← List.length_eq_zero_iff, length_data]

end Bytes

/-! ## The ring -/

/-- A bounded byte queue, used for both the send and the receive side. -/
structure RingBuffer where
  buf : Bytes
  capacity : Nat
  fits : buf.len ≤ capacity
  deriving DecidableEq, Repr

namespace RingBuffer

def withCapacity (capacity : Nat) : RingBuffer := ⟨Bytes.empty, capacity, Nat.zero_le _⟩

def len (r : RingBuffer) : Nat := r.buf.len
def isEmpty (r : RingBuffer) : Bool := r.buf.isEmpty
def free (r : RingBuffer) : Nat := r.capacity - r.buf.len

/-- How many bytes of `data` a `write` accepts. -/
def accepts (r : RingBuffer) (data : Bytes) : Nat := min data.len r.free

/-- Append up to `free` bytes of `data`; also returns how many were accepted. -/
def write (r : RingBuffer) (data : Bytes) : RingBuffer × Nat :=
  (⟨r.buf ++ data.take (r.accepts data), r.capacity, by
    have := r.fits
    have : r.accepts data ≤ r.capacity - r.buf.len := Nat.min_le_right _ _
    simp only [Bytes.append_len, Bytes.take_len]
    omega⟩, r.accepts data)

/-- Up to `n` bytes starting `offset` bytes from the front, left in place. -/
def peek (r : RingBuffer) (offset n : Nat) : Bytes := (r.buf.drop offset).take n

/-- Remove `n` bytes (all of them, if fewer are held) from the front. -/
def consume (r : RingBuffer) (n : Nat) : RingBuffer :=
  ⟨r.buf.drop n, r.capacity, by
    have := r.fits
    simp only [Bytes.drop_len]
    omega⟩

/-- Pop up to `n` bytes from the front. -/
def read (r : RingBuffer) (n : Nat) : RingBuffer × Bytes := (r.consume n, r.buf.take n)

@[simp] theorem withCapacity_buf (c : Nat) : (withCapacity c).buf = Bytes.empty := rfl
@[simp] theorem withCapacity_capacity (c : Nat) : (withCapacity c).capacity = c := rfl
@[simp] theorem withCapacity_len (c : Nat) : (withCapacity c).len = 0 := rfl
@[simp] theorem write_capacity (r : RingBuffer) (d : Bytes) :
    (r.write d).1.capacity = r.capacity := rfl
@[simp] theorem consume_capacity (r : RingBuffer) (n : Nat) :
    (r.consume n).capacity = r.capacity := rfl
@[simp] theorem consume_buf (r : RingBuffer) (n : Nat) : (r.consume n).buf = r.buf.drop n := rfl
@[simp] theorem consume_len (r : RingBuffer) (n : Nat) : (r.consume n).len = r.len - n := rfl
@[simp] theorem write_buf (r : RingBuffer) (d : Bytes) :
    (r.write d).1.buf = r.buf ++ d.take (r.write d).2 := rfl
@[simp] theorem read_fst (r : RingBuffer) (n : Nat) : (r.read n).1 = r.consume n := rfl
@[simp] theorem read_snd (r : RingBuffer) (n : Nat) : (r.read n).2 = r.buf.take n := rfl
@[simp] theorem peek_len (r : RingBuffer) (k n : Nat) :
    (r.peek k n).len = min n (r.len - k) := rfl

@[simp] theorem consume_zero (r : RingBuffer) : r.consume 0 = r := by
  obtain ⟨b, c, h⟩ := r
  simp only [consume, mk.injEq, and_true]
  ext1
  simp

@[simp] theorem withCapacity_consume (c n : Nat) : (withCapacity c).consume n = withCapacity c := by
  simp [consume, withCapacity, Bytes.drop, Bytes.empty]

theorem write_le (r : RingBuffer) (d : Bytes) : (r.write d).2 ≤ d.len := Nat.min_le_left _ _

theorem write_le_free (r : RingBuffer) (d : Bytes) : (r.write d).2 ≤ r.free :=
  Nat.min_le_right _ _

theorem write_snd (r : RingBuffer) (d : Bytes) :
    (r.write d).2 = min d.len (r.capacity - r.len) := rfl

theorem write_len (r : RingBuffer) (d : Bytes) :
    (r.write d).1.len = r.len + (r.write d).2 := by
  have := r.write_le d
  simp only [len, write_buf, Bytes.append_len, Bytes.take_len]
  omega

theorem len_le (r : RingBuffer) : r.len ≤ r.capacity := r.fits

end RingBuffer

end Ferrumnet
