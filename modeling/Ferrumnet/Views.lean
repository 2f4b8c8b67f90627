import Ferrumnet.Lib.Tlv
import Ferrumnet.Ipv4
import Ferrumnet.RoundTrip

/-
  The parsers read by read (`wire/ipv4.rs`, `wire/tcp.rs`): where each index and each
  slice of the source lies in bounds.

  A read that would panic is `none` here. The views and their accessors follow the source
  index by index; `TcpPacket.ofOctets` and `Ipv4Packet.ofOctets` are what they return.

  1. `forEachOption_entries` — the walker calls back on the options of the longest
     well-formed prefix, in order, and on nothing else.
  2. `Ipv4View.reads`, `TcpView.reads` — a checked view reads within its buffer.
  3. `parsers_exact` — both, for every byte string.
-/

namespace Ferrumnet

/-! ## Reads that can panic -/

/-- `buf[i]` -/
def index (buf : List UInt8) (i : Nat) : Option UInt8 := buf[i]?

/-- `&buf[a..b]` -/
def slice (buf : List UInt8) (a b : Nat) : Option (List UInt8) :=
  if a ≤ b ∧ b ≤ buf.length then some ((buf.take b).drop a) else none

/-- `u16::from_be_bytes` of two bytes from `i` on. -/
def index16 (buf : List UInt8) (i : Nat) : Option Nat := do
  return fromBe16 (← index buf i) (← index buf (i + 1))

/-- `u32::from_be_bytes` of four bytes from `i` on. -/
def index32 (buf : List UInt8) (i : Nat) : Option Nat := do
  return fromBe32 (← index buf i) (← index buf (i + 1)) (← index buf (i + 2)) (← index buf (i + 3))

open TcpPacket (octet read16 read32)

theorem index_eq {buf : List UInt8} {i : Nat} (h : i < buf.length) : index buf i = some (octet buf i) := by
  rw [index, octet, List.getD_eq_getElem?_getD, List.getElem?_eq_getElem h]
  rfl

theorem index16_eq {buf : List UInt8} {i : Nat} (h : i + 1 < buf.length) :
    index16 buf i = some (read16 buf i) := by
  rw [index16, index_eq (by omega : i < buf.length), index_eq h]
  rfl

theorem index32_eq {buf : List UInt8} {i : Nat} (h : i + 3 < buf.length) :
    index32 buf i = some (read32 buf i) := by
  rw [index32, index_eq (by omega : i < buf.length), index_eq (by omega : i + 1 < buf.length),
    index_eq (by omega : i + 2 < buf.length), index_eq h]
  rfl

theorem slice_eq {buf : List UInt8} {a b : Nat} (h : a ≤ b) (hb : b ≤ buf.length) :
    slice buf a b = some ((buf.take b).drop a) := if_pos ⟨h, hb⟩

/-! ## The IPv4 view -/

/-- A view of received bytes. -/
structure Ipv4View where
  buf : List UInt8
  deriving DecidableEq, Repr

namespace Ipv4View

variable (p : Ipv4View)

def version : Option UInt8 := do return (← index p.buf 0) >>> 4
def headerLen : Option Nat := do return ((← index p.buf 0) &&& 0x0f).toNat * 4
def totalLen : Option Nat := index16 p.buf 2
def ttl : Option UInt8 := index p.buf 8
def protocol : Option UInt8 := index p.buf 9
def ecn : Option UInt8 := do return (← index p.buf 1) &&& 0x03
def checksum : Option Nat := index16 p.buf 10
def src : Option (BitVec 32) := do return BitVec.ofNat 32 (← index32 p.buf 12)
def dst : Option (BitVec 32) := do return BitVec.ofNat 32 (← index32 p.buf 16)

def isFragment : Option Bool := do
  let flagsFrag ← index16 p.buf 6
  return flagsFrag &&& 0x2000 ≠ 0 || flagsFrag &&& 0x1fff ≠ 0

def checksumValid : Option Bool := do
  let header ← slice p.buf 0 (← p.headerLen)
  return fold (accumulate 0 header) = 0xffff

def payload : Option (List UInt8) := do slice p.buf (← p.headerLen) (← p.totalLen)

/-- Bind a view and validate what the accessors rely on. -/
def newChecked (buf : List UInt8) : Option (Except Ipv4Error Ipv4View) :=
  if buf.length < 20 then some (.error .truncated)
  else do
    let p : Ipv4View := ⟨buf⟩
    if (← p.version) ≠ 4 then return .error .badVersion
    let ihl ← p.headerLen
    if ihl < 20 ∨ 60 < ihl then return .error .badHeaderLen
    let total ← p.totalLen
    if total < ihl ∨ buf.length < total then return .error .truncated
    if ← p.isFragment then return .error .fragmented
    return .ok p

end Ipv4View

/-! ## The TCP view -/

structure TcpView where
  buf : List UInt8
  deriving DecidableEq, Repr

/-- `for_each_option` from byte `i` on: the callback folds its state over the options.
Every turn moves `i` up. -/
def forEachFrom {σ : Type} (opts : List UInt8) (f : σ → UInt8 → List UInt8 → Option σ) (i : Nat) (s : σ) : Option σ :=
  if _h : i < opts.length then do
    let kind ← index opts i
    if kind = 0 then some s
    else if kind = 1 then forEachFrom opts f (i + 1) s
    else if i + 1 ≥ opts.length then some s
    else do
      let len ← index opts (i + 1)
      if _hlen : len.toNat < 2 ∨ i + len.toNat > opts.length then some s
      else do
        let value ← slice opts (i + 2) (i + len.toNat)
        let s ← f s kind value
        forEachFrom opts f (i + len.toNat) s
  else some s
termination_by opts.length - i

/-- The pairs of edges of one SACK option, into the array from slot `n` on. -/
def fillBlocks (value : List UInt8) (j : Nat) (out : List SackBlock) (n : Nat) : Option (List SackBlock × Nat) :=
  if j + 8 ≤ value.length ∧ n < maxSackBlocks then do
    let left ← index32 value j
    let right ← index32 value (j + 4)
    if n < out.length then
      fillBlocks value (j + 8) (out.set n (SeqNumber.new left, SeqNumber.new right)) (n + 1)
    else none
  else some (out, n)
termination_by value.length - j

/-! The callbacks of the accessors. -/

def takeMss (mss : Option Nat) (kind : UInt8) (value : List UInt8) : Option (Option Nat) :=
  if kind = 2 ∧ value.length = 2 ∧ mss.isNone then do return some (← index16 value 0) else some mss

def takeTimestamps (ts : Option (BitVec 32 × BitVec 32)) (kind : UInt8) (value : List UInt8) :
    Option (Option (BitVec 32 × BitVec 32)) :=
  if kind = 8 ∧ value.length = 8 ∧ ts.isNone then do
    let tsval ← index32 value 0
    let tsecr ← index32 value 4
    return some (BitVec.ofNat 32 tsval, BitVec.ofNat 32 tsecr)
  else some ts

def takeScale (scale : Option Nat) (kind : UInt8) (value : List UInt8) : Option (Option Nat) :=
  if kind = 3 ∧ value.length = 1 ∧ scale.isNone then do return some (min (← index value 0).toNat 14) else some scale

def takePermitted (permitted : Bool) (kind : UInt8) (value : List UInt8) : Option Bool :=
  some (if kind = 4 ∧ value.length = 0 then true else permitted)

def takeBlocks (st : List SackBlock × Nat) (kind : UInt8) (value : List UInt8) : Option (List SackBlock × Nat) :=
  if kind ≠ 5 then some st else fillBlocks value 0 st.1 st.2

namespace TcpView

variable (p : TcpView)

def srcPort : Option UInt16 := do return UInt16.ofNat (← index16 p.buf 0)
def dstPort : Option UInt16 := do return UInt16.ofNat (← index16 p.buf 2)
def seq : Option SeqNumber := do return SeqNumber.new (← index32 p.buf 4)
def ack : Option SeqNumber := do return SeqNumber.new (← index32 p.buf 8)
def dataOffset : Option Nat := do return ((← index p.buf 12) >>> 4).toNat * 4
def flags : Option TcpFlags := do return TcpFlags.ofOctet (← index p.buf 13)
def ae : Option Bool := do return (← index p.buf 12) &&& 1 ≠ 0
def window : Option Nat := index16 p.buf 14
def checksum : Option Nat := index16 p.buf 16
def options : Option (List UInt8) := do slice p.buf 20 (← p.dataOffset)
def payload : Option (List UInt8) := do slice p.buf (← p.dataOffset) p.buf.length
def asBytes : List UInt8 := p.buf

def forEachOption {σ : Type} (f : σ → UInt8 → List UInt8 → Option σ) (s : σ) : Option σ := do
  forEachFrom (← p.options) f 0 s

def mssOption : Option (Option Nat) := p.forEachOption takeMss none
def timestamps : Option (Option (BitVec 32 × BitVec 32)) := p.forEachOption takeTimestamps none
def windowScale : Option (Option Nat) := p.forEachOption takeScale none
def sackPermitted : Option Bool := p.forEachOption takePermitted false

/-- The array as filled, and the number of blocks in it. -/
def sackBlocks (out : List SackBlock) : Option (List SackBlock × Nat) := p.forEachOption takeBlocks (out, 0)

def newChecked (buf : List UInt8) : Option (Except ParseError TcpView) :=
  if buf.length < 20 then some (.error .truncated)
  else do
    let p : TcpView := ⟨buf⟩
    let dataOff ← p.dataOffset
    if dataOff < 20 ∨ 60 < dataOff then return .error .badDataOffset
    if buf.length < dataOff then return .error .truncated
    return .ok p

end TcpView

/-! ## The walker -/

section Walker

variable {σ : Type} {opts pre rest : List UInt8} (f : σ → UInt8 → List UInt8 → Option σ) (s : σ)

theorem index_append {kind : UInt8} (hopts : opts = pre ++ kind :: rest) : index opts pre.length = some kind := by
  rw [index, hopts, List.getElem?_append_right le_rfl, Nat.sub_self]
  rfl

/-- A pad is one byte. -/
theorem forEachFrom_pad (hopts : opts = pre ++ 1 :: rest) :
    forEachFrom opts f pre.length s = forEachFrom opts f (pre.length + 1) s := by
  have hlen : pre.length < opts.length := by
    rw [hopts, List.length_append, List.length_cons]
    omega
  rw [forEachFrom, dif_pos hlen, index_append hopts]
  rfl

/-- An option is handed to the callback. -/
theorem forEachFrom_entry (e : Tlv.Entry) (hopts : opts = pre ++ ((Tlv.Item.entry e).bytes ++ rest)) :
    forEachFrom opts f pre.length s =
      (f s e.kind e.value).bind fun s => forEachFrom opts f (pre.length + (e.value.length + 2)) s := by
  have hbytes : opts = pre ++ e.kind :: (UInt8.ofNat (e.value.length + 2) :: (e.value ++ rest)) := hopts
  have hlen : opts.length = pre.length + (e.value.length + 2 + rest.length) := by
    rw [hbytes, List.length_append, List.length_cons, List.length_cons, List.length_append]
    omega
  have hnext : index opts (pre.length + 1) = some (UInt8.ofNat (e.value.length + 2)) := by
    have happend : opts = (pre ++ [e.kind]) ++ UInt8.ofNat (e.value.length + 2) :: (e.value ++ rest) := by
      rw [hbytes, List.append_assoc]
      rfl
    have h := index_append happend
    rwa [List.length_append] at h
  have hvalue : slice opts (pre.length + 2) (pre.length + (e.value.length + 2)) = some e.value := by
    have happend : opts = (pre ++ [e.kind, UInt8.ofNat (e.value.length + 2)]) ++ (e.value ++ rest) := by
      rw [hbytes, List.append_assoc]
      rfl
    have hpre : (pre ++ [e.kind, UInt8.ofNat (e.value.length + 2)]).length = pre.length + 2 := by
      rw [List.length_append]
      rfl
    rw [slice_eq (by omega) (by omega), List.drop_take, happend, List.drop_left' hpre]
    refine congrArg some (List.take_left' ?_)
    omega
  rw [forEachFrom, dif_pos (by omega), index_append hbytes, Option.bind_eq_bind, Option.bind_some,
    if_neg e.not_end, if_neg e.not_pad, if_neg (by omega), hnext, Option.bind_eq_bind, Option.bind_some,
    Tlv.length_byte, dif_neg (by omega), hvalue]
  rfl

/-- Where no option begins the walk ends, with the callback's state as it is. -/
theorem forEachFrom_stuck (hopts : opts = pre ++ rest)
    (hs : rest = [] ∨ (∃ xs, rest = 0 :: xs) ∨ (∃ kind, kind ≠ 1 ∧ rest = [kind]) ∨
      ∃ kind len value, kind ≠ 1 ∧ rest = kind :: len :: value ∧ (len.toNat < 2 ∨ value.length + 2 < len.toNat)) :
    forEachFrom opts f pre.length s = some s := by
  obtain rfl | ⟨xs, rfl⟩ | ⟨kind, h1, rfl⟩ | ⟨kind, len, value, h1, rfl, hbad⟩ := hs
  · have hlen : opts.length = pre.length := by rw [hopts, List.append_nil]
    rw [forEachFrom, dif_neg (by omega)]
  · have hlen : pre.length < opts.length := by
      rw [hopts, List.length_append, List.length_cons]
      omega
    rw [forEachFrom, dif_pos hlen, index_append hopts]
    rfl
  · have hlen : opts.length = pre.length + 1 := by
      rw [hopts, List.length_append]
      rfl
    rw [forEachFrom, dif_pos (by omega), index_append hopts, Option.bind_eq_bind, Option.bind_some]
    by_cases h0 : kind = 0
    · rw [if_pos h0]
    · rw [if_neg h0, if_neg h1, if_pos (by omega)]
  · have hlen : opts.length = pre.length + (value.length + 2) := by
      rw [hopts, List.length_append, List.length_cons, List.length_cons]
    have hnext : index opts (pre.length + 1) = some len := by
      have happend : opts = (pre ++ [kind]) ++ len :: value := by
        rw [hopts, List.append_assoc]
        rfl
      have h := index_append happend
      rwa [List.length_append] at h
    rw [forEachFrom, dif_pos (by omega), index_append hopts, Option.bind_eq_bind, Option.bind_some]
    by_cases h0 : kind = 0
    · rw [if_pos h0]
    · rw [if_neg h0, if_neg h1, if_neg (by omega), hnext, Option.bind_eq_bind, Option.bind_some,
        dif_pos (by omega)]

/-- From any byte on, the walker calls back on the options of the longest prefix. -/
theorem forEachFrom_entries (opts : List UInt8) (n : Nat) : ∀ pre rest : List UInt8, rest.length ≤ n →
    opts = pre ++ rest → ∃ items tail, rest = Tlv.encode items ++ tail ∧ Tlv.Stuck tail ∧
      TcpPacket.walk rest = Tlv.entries items ∧
      ∀ (σ : Type) (f : σ → UInt8 → List UInt8 → Option σ) (s : σ),
        forEachFrom opts f pre.length s = (Tlv.entries items).foldlM (fun s o => f s o.1 o.2) s := by
  induction n with
  | zero =>
    intro pre rest hlen hopts
    have hnil : rest = [] := List.length_eq_zero_iff.mp (Nat.le_zero.mp hlen)
    subst hnil
    exact ⟨[], [], rfl, Tlv.stuck_nil, rfl, fun σ f s => forEachFrom_stuck f s hopts (.inl rfl)⟩
  | succ n ih =>
    intro pre rest hlen hopts
    cases rest with
    | nil => exact ⟨[], [], rfl, Tlv.stuck_nil, rfl, fun σ f s => forEachFrom_stuck f s hopts (.inl rfl)⟩
    | cons kind rest =>
      rw [List.length_cons] at hlen
      by_cases h0 : kind = 0
      · subst h0
        exact ⟨[], _, rfl, Tlv.stuck_end rest, rfl,
          fun σ f s => forEachFrom_stuck f s hopts (.inr (.inl ⟨rest, rfl⟩))⟩
      by_cases h1 : kind = 1
      · subst h1
        have happend : opts = (pre ++ [1]) ++ rest := by rw [hopts, List.append_assoc]; rfl
        obtain ⟨items, tail, hrest, hstuck, hwalk, hfold⟩ := ih (pre ++ [1]) rest (by omega) happend
        refine ⟨.pad :: items, tail, ?_, hstuck, hwalk, fun σ f s => ?_⟩
        · rw [Tlv.encode_cons, List.append_assoc, ← hrest]
          rfl
        · have hgo := hfold σ f s
          rw [List.length_append] at hgo
          exact (forEachFrom_pad f s hopts).trans hgo
      cases rest with
      | nil =>
        refine ⟨[], [kind], rfl, Tlv.stuck_kind h1, ?_,
          fun σ f s => forEachFrom_stuck f s hopts (.inr (.inr (.inl ⟨kind, h1, rfl⟩)))⟩
        rw [TcpPacket.walk, List.length_cons, TcpPacket.walkOptions, if_neg h0, if_neg h1]
        rfl
      | cons len value =>
        rw [List.length_cons] at hlen
        by_cases hbad : len.toNat < 2 ∨ value.length + 2 < len.toNat
        · refine ⟨[], kind :: len :: value, rfl, Tlv.stuck_length h1 hbad, ?_,
            fun σ f s => forEachFrom_stuck f s hopts (.inr (.inr (.inr ⟨kind, len, value, h1, rfl, hbad⟩)))⟩
          rw [TcpPacket.walk, List.length_cons, TcpPacket.walkOptions, if_neg h0, if_neg h1, if_pos (by omega)]
          rfl
        · have hlt := len.toNat_lt
          have htake : (value.take (len.toNat - 2)).length = len.toNat - 2 := by
            rw [List.length_take]
            omega
          let e : Tlv.Entry := ⟨kind, value.take (len.toNat - 2), h0, h1, by omega⟩
          have hbyte : UInt8.ofNat (e.value.length + 2) = len := by
            have : e.value.length + 2 = len.toNat := by
              change (value.take (len.toNat - 2)).length + 2 = len.toNat
              omega
            rw [this, UInt8.ofNat_toNat]
          have hsplit : kind :: len :: value = (Tlv.Item.entry e).bytes ++ value.drop (len.toNat - 2) := by
            change _ = kind :: UInt8.ofNat (e.value.length + 2) ::
              (value.take (len.toNat - 2) ++ value.drop (len.toNat - 2))
            rw [hbyte, List.take_append_drop]
          have happend : opts = (pre ++ (Tlv.Item.entry e).bytes) ++ value.drop (len.toNat - 2) := by
            rw [hopts, List.append_assoc, ← hsplit]
          have hlength : (pre ++ (Tlv.Item.entry e).bytes).length = pre.length + (e.value.length + 2) := by
            rw [List.length_append]
            rfl
          obtain ⟨items, tail, hrest, hstuck, hwalk, hfold⟩ := ih _ (value.drop (len.toNat - 2))
            (by rw [List.length_drop]; omega) happend
          refine ⟨.entry e :: items, tail, ?_, hstuck, ?_, fun σ f s => ?_⟩
          · rw [Tlv.encode_cons, List.append_assoc, ← hrest, hsplit]
          · have hvalue : value = e.value ++ value.drop (len.toNat - 2) := (List.take_append_drop _ _).symm
            have hcount : len.toNat = 2 + e.value.length := by
              change len.toNat = 2 + (value.take (len.toNat - 2)).length
              omega
            calc TcpPacket.walk (kind :: len :: value)
                = TcpPacket.walk (kind :: len :: (e.value ++ value.drop (len.toNat - 2))) := by rw [← hvalue]
              _ = (kind, e.value) :: TcpPacket.walk (value.drop (len.toNat - 2)) :=
                  TcpPacket.walk_option kind len e.value _ h0 h1 hcount
              _ = Tlv.entries (.entry e :: items) := by rw [hwalk]; rfl
          · have hgo := forEachFrom_entry f s e (hopts.trans (congrArg (pre ++ ·) hsplit))
            rw [hgo]
            refine congrArg (Option.bind (f s e.kind e.value)) (funext fun s' => ?_)
            rw [← hlength]
            exact hfold σ f s'

end Walker

/-! ## The accessors -/

section Folds

variable {α : Type} {kind : UInt8} {n : Nat} {h : List UInt8 → α}
  {c : Option α → UInt8 → List UInt8 → Option (Option α)}

/-- A callback that takes the first option of a kind and a length. -/
theorem foldlM_first (hhit : ∀ v, v.length = n → c none kind v = some (some (h v)))
    (hmiss : ∀ acc k v, ¬ (k = kind ∧ v.length = n ∧ acc.isNone = true) → c acc k v = some acc) :
    ∀ (es : List (UInt8 × List UInt8)) (acc : Option α), es.foldlM (fun acc o => c acc o.1 o.2) acc =
      some (acc.or ((TcpPacket.findOption es kind n).map h)) := by
  intro es
  induction es with
  | nil =>
    intro acc
    rw [TcpPacket.findOption, List.find?_nil, Option.map_none, Option.map_none, Option.or_none]
    rfl
  | cons o es ih =>
    intro acc
    rw [List.foldlM_cons, TcpPacket.findOption, List.find?_cons]
    by_cases hm : o.1 = kind ∧ o.2.length = n
    · have htest : (decide (o.1 = kind) && decide (o.2.length = n)) = true := by simp [hm.1, hm.2]
      rw [htest]
      cases acc with
      | none =>
        rw [hm.1, hhit o.2 hm.2, Option.bind_eq_bind, Option.bind_some, ih]
        rfl
      | some a =>
        rw [hmiss (some a) o.1 o.2 (by simp), Option.bind_eq_bind, Option.bind_some, ih]
        rfl
    · have htest : (decide (o.1 = kind) && decide (o.2.length = n)) = false := by simpa using hm
      rw [htest, hmiss acc o.1 o.2 (fun hc => hm ⟨hc.1, hc.2.1⟩), Option.bind_eq_bind, Option.bind_some, ih]
      rfl

/-- A callback that notes whether there is such an option. -/
theorem foldlM_any : ∀ (es : List (UInt8 × List UInt8)) (acc : Bool),
    es.foldlM (fun (acc : Bool) o => some (if o.1 = kind ∧ o.2.length = n then true else acc)) acc =
      some (acc || (TcpPacket.findOption es kind n).isSome) := by
  intro es
  induction es with
  | nil =>
    intro acc
    rw [TcpPacket.findOption, List.find?_nil, Option.map_none, Option.isSome_none, Bool.or_false]
    rfl
  | cons o es ih =>
    intro acc
    rw [List.foldlM_cons, Option.bind_eq_bind, Option.bind_some, ih]
    conv_rhs => rw [TcpPacket.findOption, List.find?_cons]
    by_cases hm : o.1 = kind ∧ o.2.length = n
    · have htest : (decide (o.1 = kind) && decide (o.2.length = n)) = true := by simp [hm.1, hm.2]
      rw [htest, if_pos hm, Bool.true_or]
      exact congrArg some (Bool.or_true acc).symm
    · have htest : (decide (o.1 = kind) && decide (o.2.length = n)) = false := by simpa using hm
      rw [htest, if_neg hm]
      rfl

end Folds

/-! ### SACK blocks -/

theorem edges_short {xs : List UInt8} (h : xs.length < 8) : TcpPacket.edges xs = [] := by
  rw [TcpPacket.edges]
  intro l0 l1 l2 l3 r0 r1 r2 r3 rest he
  rw [he] at h
  simp at h
  omega

/-- A pair of edges, read at its place in the value. -/
theorem edges_drop {value : List UInt8} {j : Nat} (h : j + 8 ≤ value.length) :
    TcpPacket.edges (value.drop j) =
      (SeqNumber.new (read32 value j), SeqNumber.new (read32 value (j + 4))) :: TcpPacket.edges (value.drop (j + 8)) := by
  have hoctet : ∀ k, k < value.length → value.drop k = octet value k :: value.drop (k + 1) := by
    intro k hk
    rw [List.drop_eq_getElem_cons hk, octet, List.getD_eq_getElem?_getD, List.getElem?_eq_getElem hk]
    rfl
  rw [hoctet j (by omega), hoctet (j + 1) (by omega), hoctet (j + 1 + 1) (by omega),
    hoctet (j + 1 + 1 + 1) (by omega), hoctet (j + 1 + 1 + 1 + 1) (by omega),
    hoctet (j + 1 + 1 + 1 + 1 + 1) (by omega), hoctet (j + 1 + 1 + 1 + 1 + 1 + 1) (by omega),
    hoctet (j + 1 + 1 + 1 + 1 + 1 + 1 + 1) (by omega)]
  rfl

/-- The array holds the first four of `blocks`. -/
def Filled (blocks : List SackBlock) (st : List SackBlock × Nat) : Prop :=
  st.1.length = maxSackBlocks ∧ st.2 = min blocks.length maxSackBlocks ∧ st.1.take st.2 = blocks.take maxSackBlocks

/-- Filling goes on where it stands, and stays in the array. -/
theorem fillBlocks_filled (value : List UInt8) (m : Nat) : ∀ (j : Nat) (out : List SackBlock) (n : Nat)
    (blocks : List SackBlock), value.length ≤ j + m → Filled blocks (out, n) →
      ∃ st, fillBlocks value j out n = some st ∧ Filled (blocks ++ TcpPacket.edges (value.drop j)) st := by
  have hdone : ∀ (j : Nat) (out : List SackBlock) (n : Nat) (blocks : List SackBlock), Filled blocks (out, n) →
      ¬ (j + 8 ≤ value.length ∧ n < maxSackBlocks) →
      ∃ st, fillBlocks value j out n = some st ∧ Filled (blocks ++ TcpPacket.edges (value.drop j)) st := by
    intro j out n blocks hf hstop
    refine ⟨(out, n), by rw [fillBlocks, if_neg hstop], ?_⟩
    obtain ⟨h1, h2, h3⟩ := hf
    dsimp only at h1 h2 h3
    by_cases hfull : n < maxSackBlocks
    · have hshort : TcpPacket.edges (value.drop j) = [] := by
        refine edges_short ?_
        rw [List.length_drop]
        omega
      rw [hshort, List.append_nil]
      exact ⟨h1, h2, h3⟩
    · have hlong : maxSackBlocks ≤ blocks.length := by omega
      refine ⟨h1, ?_, ?_⟩
      · dsimp only
        rw [List.length_append]
        omega
      · dsimp only
        rw [List.take_append_of_le_length hlong, h3]
  induction m with
  | zero =>
    intro j out n blocks hlen hf
    exact hdone j out n blocks hf (by omega)
  | succ m ih =>
    intro j out n blocks hlen hf
    by_cases hgo : j + 8 ≤ value.length ∧ n < maxSackBlocks
    · obtain ⟨h1, h2, h3⟩ := hf
      dsimp only at h1 h2 h3
      have hn : n = blocks.length := by omega
      have hslot : n < out.length := by omega
      have hnext : Filled (blocks ++ [(SeqNumber.new (read32 value j), SeqNumber.new (read32 value (j + 4)))])
          (out.set n (SeqNumber.new (read32 value j), SeqNumber.new (read32 value (j + 4))), n + 1) := by
        refine ⟨?_, ?_, ?_⟩
        · dsimp only
          rw [List.length_set]
          exact h1
        · dsimp only
          rw [List.length_append, List.length_singleton]
          omega
        · dsimp only
          rw [List.take_succ_eq_append_getElem (by rw [List.length_set]; exact hslot), List.take_set_of_le le_rfl,
            List.getElem_set_self, h3, List.take_of_length_le (by omega),
            List.take_of_length_le (by rw [List.length_append, List.length_singleton]; omega)]
      obtain ⟨st, hst, hfilled⟩ := ih (j + 8) _ _ _ (by omega) hnext
      refine ⟨st, ?_, ?_⟩
      · rw [fillBlocks, if_pos hgo, index32_eq (by omega), index32_eq (by omega)]
        simp only [Option.bind_eq_bind, Option.bind_some, if_pos hslot]
        exact hst
      · rw [edges_drop hgo.1]
        rwa [List.append_assoc] at hfilled
    · exact hdone j out n blocks hf hgo

/-- All SACK options together fill the array once. -/
theorem foldlM_filled : ∀ (es : List (UInt8 × List UInt8)) (st : List SackBlock × Nat) (blocks : List SackBlock),
    Filled blocks st → ∃ st', es.foldlM (fun (st : List SackBlock × Nat) o =>
        if o.1 ≠ 5 then some st else fillBlocks o.2 0 st.1 st.2) st = some st' ∧
      Filled (blocks ++ es.flatMap fun o => if o.1 = 5 then TcpPacket.edges o.2 else []) st' := by
  intro es
  induction es with
  | nil =>
    intro st blocks hf
    exact ⟨st, rfl, by rwa [List.flatMap_nil, List.append_nil]⟩
  | cons o es ih =>
    intro st blocks hf
    rw [List.foldlM_cons, List.flatMap_cons]
    by_cases h5 : o.1 = 5
    · obtain ⟨st₁, h₁, hf₁⟩ := fillBlocks_filled o.2 o.2.length 0 st.1 st.2 blocks (by omega) hf
      obtain ⟨st₂, h₂, hf₂⟩ := ih st₁ _ hf₁
      refine ⟨st₂, ?_, ?_⟩
      · rw [if_neg (not_not.mpr h5), h₁]
        exact h₂
      · rw [if_pos h5]
        rwa [List.drop_zero, List.append_assoc] at hf₂
    · obtain ⟨st₂, h₂, hf₂⟩ := ih st blocks hf
      refine ⟨st₂, ?_, ?_⟩
      · rw [if_pos h5]
        exact h₂
      · rwa [if_neg h5, List.nil_append]

/-! ## Checked views -/

namespace TcpView

variable {p : TcpView} {buf : List UInt8}

theorem dataOffset_eq (h : 20 ≤ p.buf.length) : p.dataOffset = some (TcpPacket.dataOffset p.buf) := by
  rw [dataOffset, index_eq (by omega)]
  rfl

/-- The check itself reads in bounds, and is that of `TcpPacket.newChecked`. -/
theorem newChecked_eq (buf : List UInt8) :
    newChecked buf = some ((TcpPacket.newChecked buf).map fun _ => (⟨buf⟩ : TcpView)) := by
  rw [newChecked, TcpPacket.newChecked]
  by_cases hshort : buf.length < 20
  · rw [if_pos hshort, if_pos hshort]
    rfl
  · have hoff : (⟨buf⟩ : TcpView).dataOffset = some (TcpPacket.dataOffset buf) :=
      dataOffset_eq (Nat.le_of_not_lt hshort)
    rw [if_neg hshort, if_neg hshort]
    simp only [hoff, Option.bind_eq_bind, Option.bind_some]
    by_cases hrange : TcpPacket.dataOffset buf < 20 ∨ 60 < TcpPacket.dataOffset buf
    · rw [if_pos hrange, if_pos hrange]
      rfl
    · rw [if_neg hrange, if_neg hrange]
      by_cases htrunc : buf.length < TcpPacket.dataOffset buf
      · rw [if_pos htrunc, if_pos htrunc]
        rfl
      · rw [if_neg htrunc, if_neg htrunc]
        rfl

end TcpView

namespace Ipv4View

variable {p : Ipv4View} {buf : List UInt8}

theorem version_eq (h : 20 ≤ p.buf.length) : p.version = some (Ipv4Packet.version p.buf) := by
  rw [version, index_eq (by omega)]
  rfl

theorem headerLen_eq (h : 20 ≤ p.buf.length) : p.headerLen = some (Ipv4Packet.headerLen p.buf) := by
  rw [headerLen, index_eq (by omega)]
  rfl

theorem totalLen_eq (h : 20 ≤ p.buf.length) : p.totalLen = some (Ipv4Packet.totalLen p.buf) :=
  index16_eq (by omega)

theorem isFragment_eq (h : 20 ≤ p.buf.length) : p.isFragment = some (Ipv4Packet.isFragment p.buf) := by
  rw [isFragment, index16_eq (by omega)]
  rfl

theorem newChecked_eq (buf : List UInt8) :
    newChecked buf = some ((Ipv4Packet.newChecked buf).map fun _ => (⟨buf⟩ : Ipv4View)) := by
  rw [newChecked, Ipv4Packet.newChecked]
  by_cases hshort : buf.length < 20
  · rw [if_pos hshort, if_pos hshort]
    rfl
  · have h : 20 ≤ (⟨buf⟩ : Ipv4View).buf.length := Nat.le_of_not_lt hshort
    rw [if_neg hshort, if_neg hshort]
    simp only [version_eq h, headerLen_eq h, totalLen_eq h, isFragment_eq h, Option.bind_eq_bind, Option.bind_some]
    by_cases hver : Ipv4Packet.version buf ≠ 4
    · rw [if_pos hver, if_pos hver]
      rfl
    · rw [if_neg hver, if_neg hver]
      by_cases hrange : Ipv4Packet.headerLen buf < 20 ∨ 60 < Ipv4Packet.headerLen buf
      · rw [if_pos hrange, if_pos hrange]
        rfl
      · rw [if_neg hrange, if_neg hrange]
        by_cases htotal : Ipv4Packet.totalLen buf < Ipv4Packet.headerLen buf ∨ buf.length < Ipv4Packet.totalLen buf
        · rw [if_pos htotal, if_pos htotal]
          rfl
        · rw [if_neg htotal, if_neg htotal]
          cases hf : Ipv4Packet.isFragment buf with
          | true => rfl
          | false => rfl

/-- Every accessor reads in bounds, and the header and the payload are the announced
length. -/
structure Safe (p : Ipv4View) : Prop where
  version : p.version = some 4
  ttl : ∃ n, p.ttl = some n
  checksum : ∃ n, p.checksum = some n
  protocol : ∃ n, p.protocol = some n ∧ n.toNat = (Ipv4Packet.ofOctets p.buf).protocol
  ecn : ∃ n, p.ecn = some n ∧ n.toNat = (Ipv4Packet.ofOctets p.buf).ecn
  src : p.src = some (Ipv4Packet.ofOctets p.buf).src
  dst : p.dst = some (Ipv4Packet.ofOctets p.buf).dst
  isFragment : p.isFragment = some false
  checksumValid : p.checksumValid = some (Ipv4Packet.checksumValid p.buf)
  payload : p.payload = some (Ipv4Packet.ofOctets p.buf).payload
  partition : ∃ header payload, p.headerLen = some header.length ∧ 20 ≤ header.length ∧ header.length ≤ 60 ∧
    p.payload = some payload ∧ p.totalLen = some (header ++ payload).length ∧ header ++ payload <+: p.buf

/-- What the check has found. -/
theorem of_checked (h : newChecked buf = some (.ok p)) : p.buf = buf ∧ 20 ≤ p.buf.length ∧
    Ipv4Packet.version p.buf = 4 ∧ ¬ (Ipv4Packet.headerLen p.buf < 20 ∨ 60 < Ipv4Packet.headerLen p.buf) ∧
    ¬ (Ipv4Packet.totalLen p.buf < Ipv4Packet.headerLen p.buf ∨ p.buf.length < Ipv4Packet.totalLen p.buf) ∧
    Ipv4Packet.isFragment p.buf = false := by
  rw [newChecked_eq, Ipv4Packet.newChecked] at h
  split at h
  · cases h
  split at h
  · cases h
  split at h
  · cases h
  split at h
  · cases h
  split at h
  · cases h
  rename_i hlong hver hrange htotal hfrag
  cases h
  exact ⟨rfl, Nat.le_of_not_lt hlong, not_not.mp hver, hrange, htotal, Bool.eq_false_iff.mpr hfrag⟩

theorem safe_of_checked (h : newChecked buf = some (.ok p)) : p.buf = buf ∧ p.Safe := by
  obtain ⟨hbuf, hlen, hver, hrange, htotal, hfrag⟩ := of_checked h
  have hhead : (p.buf.take (Ipv4Packet.headerLen p.buf)).length = Ipv4Packet.headerLen p.buf := by
    rw [List.length_take]
    omega
  have hpayload : p.payload = some (Ipv4Packet.ofOctets p.buf).payload := by
    rw [payload, headerLen_eq hlen, totalLen_eq hlen]
    exact slice_eq (by omega) (by omega)
  have hwhole : p.buf.take (Ipv4Packet.headerLen p.buf) ++ (Ipv4Packet.ofOctets p.buf).payload =
      p.buf.take (Ipv4Packet.totalLen p.buf) := by
    have hhead : p.buf.take (Ipv4Packet.headerLen p.buf) =
        (p.buf.take (Ipv4Packet.totalLen p.buf)).take (Ipv4Packet.headerLen p.buf) := by
      rw [List.take_take, Nat.min_eq_left (by omega)]
    rw [hhead]
    exact List.take_append_drop _ _
  refine ⟨hbuf, ?_, ⟨_, index_eq (by omega)⟩, ⟨_, index16_eq (by omega)⟩, ⟨_, index_eq (by omega), rfl⟩, ?_, ?_, ?_, ?_,
    ?_, hpayload, p.buf.take (Ipv4Packet.headerLen p.buf), _, ?_, by omega, by omega, hpayload, ?_, ?_⟩
  · rw [version_eq hlen, hver]
  · refine ⟨octet p.buf 1 &&& 0x03, ?_, rfl⟩
    rw [ecn, index_eq (by omega)]
    rfl
  · rw [src, index32_eq (by omega)]
    rfl
  · rw [dst, index32_eq (by omega)]
    rfl
  · rw [isFragment_eq hlen, hfrag]
  · rw [checksumValid, headerLen_eq hlen, Option.bind_eq_bind, Option.bind_some, slice_eq (by omega) (by omega)]
    rfl
  · rw [headerLen_eq hlen, hhead]
  · rw [totalLen_eq hlen, hwhole, List.length_take]
    refine congrArg some ?_
    omega
  · rw [hwhole]
    exact List.take_prefix _ _

end Ipv4View

namespace TcpView

variable {p : TcpView} {buf : List UInt8}

/-- The walker over `opts` calls back on `items`, and the accessors read them. -/
structure WalksOver (p : TcpView) (items : List Tlv.Item) : Prop where
  each : ∀ (σ : Type) (f : σ → UInt8 → List UInt8 → Option σ) (s : σ),
    p.forEachOption f s = (Tlv.entries items).foldlM (fun s o => f s o.1 o.2) s
  mssOption : p.mssOption = some ((TcpPacket.findOption (Tlv.entries items) 2 2).map (read16 · 0))
  timestamps : p.timestamps = some ((TcpPacket.findOption (Tlv.entries items) 8 8).map fun v =>
    (BitVec.ofNat 32 (read32 v 0), BitVec.ofNat 32 (read32 v 4)))
  windowScale : p.windowScale =
    some ((TcpPacket.findOption (Tlv.entries items) 3 1).map fun v => min (octet v 0).toNat 14)
  sackPermitted : p.sackPermitted = some (TcpPacket.findOption (Tlv.entries items) 4 0).isSome
  sackBlocks : ∀ out, out.length = maxSackBlocks → ∃ out' n, p.sackBlocks out = some (out', n) ∧ n ≤ maxSackBlocks ∧
    out'.take n =
      ((Tlv.entries items).flatMap fun o => if o.1 = 5 then TcpPacket.edges o.2 else []).take maxSackBlocks

/-- The accessors follow from the walk. -/
theorem walksOver_of_each {items : List Tlv.Item} (h : ∀ (σ : Type) (f : σ → UInt8 → List UInt8 → Option σ) (s : σ),
    p.forEachOption f s = (Tlv.entries items).foldlM (fun s o => f s o.1 o.2) s) : p.WalksOver items := by
  refine ⟨h, ?_, ?_, ?_, ?_, fun out hout => ?_⟩
  · refine (h _ takeMss none).trans (foldlM_first (c := takeMss) (fun v hv => ?_)
      (fun acc k v hno => if_neg hno) _ none)
    rw [takeMss, if_pos ⟨rfl, hv, rfl⟩, index16_eq (by omega)]
    rfl
  · refine (h _ takeTimestamps none).trans (foldlM_first (c := takeTimestamps) (fun v hv => ?_)
      (fun acc k v hno => if_neg hno) _ none)
    rw [takeTimestamps, if_pos ⟨rfl, hv, rfl⟩, index32_eq (by omega), index32_eq (by omega)]
    rfl
  · refine (h _ takeScale none).trans (foldlM_first (c := takeScale) (fun v hv => ?_)
      (fun acc k v hno => if_neg hno) _ none)
    rw [takeScale, if_pos ⟨rfl, hv, rfl⟩, index_eq (by omega)]
    rfl
  · exact (h _ takePermitted false).trans (foldlM_any _ false)
  · obtain ⟨st, hst, hfilled⟩ := foldlM_filled (Tlv.entries items) (out, 0) [] ⟨hout, rfl, rfl⟩
    refine ⟨st.1, st.2, (h _ takeBlocks (out, 0)).trans hst, ?_, hfilled.2.2⟩
    have := hfilled.2.1
    omega

/-- Every accessor reads in bounds; the fixed header, the options and the payload are the
whole segment; and the walker sees the longest well-formed prefix of the options. -/
structure Safe (p : TcpView) : Prop where
  srcPort : p.srcPort = some (TcpPacket.ofOctets p.buf).srcPort
  dstPort : p.dstPort = some (TcpPacket.ofOctets p.buf).dstPort
  seq : p.seq = some (TcpPacket.ofOctets p.buf).seq
  ack : p.ack = some (TcpPacket.ofOctets p.buf).ack
  flags : p.flags = some (TcpPacket.ofOctets p.buf).flags
  ae : p.ae = some (TcpPacket.ofOctets p.buf).ae
  window : p.window = some (TcpPacket.ofOctets p.buf).window
  checksum : p.checksum = some (TcpPacket.checksum p.buf)
  payload : p.payload = some (TcpPacket.ofOctets p.buf).payload.data
  partition : ∃ fixed opts payload, fixed.length = 20 ∧ p.dataOffset = some (fixed ++ opts).length ∧ opts.length ≤ 40 ∧
    p.options = some opts ∧ p.payload = some payload ∧ p.asBytes = fixed ++ opts ++ payload
  walker : ∃ opts items, p.options = some opts ∧ Tlv.Longest opts items ∧ p.WalksOver items ∧
    TcpPacket.options p.buf = Tlv.entries items

/-- What the check has found. -/
theorem of_checked (h : newChecked buf = some (.ok p)) : p.buf = buf ∧ 20 ≤ p.buf.length ∧
    ¬ (TcpPacket.dataOffset p.buf < 20 ∨ 60 < TcpPacket.dataOffset p.buf) ∧
    ¬ p.buf.length < TcpPacket.dataOffset p.buf := by
  rw [newChecked_eq, TcpPacket.newChecked] at h
  split at h
  · cases h
  split at h
  · cases h
  split at h
  · cases h
  rename_i hlong hrange htrunc
  cases h
  exact ⟨rfl, Nat.le_of_not_lt hlong, hrange, htrunc⟩

theorem safe_of_checked (h : newChecked buf = some (.ok p)) : p.buf = buf ∧ p.Safe := by
  obtain ⟨hbuf, hlen, hrange, htrunc⟩ := of_checked h
  have hoff := dataOffset_eq hlen
  have hopts : p.options = some ((p.buf.take (TcpPacket.dataOffset p.buf)).drop 20) := by
    rw [options, hoff]
    exact slice_eq (by omega) (by omega)
  have hpayload : p.payload = some (p.buf.drop (TcpPacket.dataOffset p.buf)) := by
    have hslice := slice_eq (by omega : TcpPacket.dataOffset p.buf ≤ p.buf.length) le_rfl
    rw [List.take_length] at hslice
    rw [payload, hoff]
    exact hslice
  have hcount : ((p.buf.take (TcpPacket.dataOffset p.buf)).drop 20).length = TcpPacket.dataOffset p.buf - 20 := by
    rw [List.length_drop, List.length_take]
    omega
  refine ⟨hbuf, ?_, ?_, ?_, ?_, ?_, ?_, index16_eq (by omega), index16_eq (by omega), hpayload, ?_, ?_⟩
  · rw [srcPort, index16_eq (by omega)]
    rfl
  · rw [dstPort, index16_eq (by omega)]
    rfl
  · rw [seq, index32_eq (by omega)]
    rfl
  · rw [ack, index32_eq (by omega)]
    rfl
  · rw [flags, index_eq (by omega)]
    rfl
  · rw [ae, index_eq (by omega)]
    rfl
  · have hfixed : (p.buf.take 20).length = 20 := by
      rw [List.length_take]
      exact Nat.min_eq_left hlen
    refine ⟨p.buf.take 20, _, _, hfixed, ?_, by omega, hopts, hpayload, ?_⟩
    · rw [hoff, List.length_append, hfixed, hcount]
      refine congrArg some ?_
      omega
    · have hhead : p.buf.take 20 = (p.buf.take (TcpPacket.dataOffset p.buf)).take 20 := by
        rw [List.take_take, Nat.min_eq_left (by omega)]
      rw [hhead, List.take_append_drop, List.take_append_drop]
      rfl
  · obtain ⟨items, tail, hsplit, hstuck, hwalk, hfold⟩ :=
      forEachFrom_entries ((p.buf.take (TcpPacket.dataOffset p.buf)).drop 20) _ [] _ le_rfl rfl
    have hlongest : Tlv.Longest ((p.buf.take (TcpPacket.dataOffset p.buf)).drop 20) items := by
      rw [hsplit]
      exact Tlv.longest_of_stuck hstuck
    refine ⟨_, items, hopts, hlongest, walksOver_of_each fun σ f s => ?_, hwalk⟩
    rw [forEachOption, hopts]
    exact hfold σ f s

end TcpView

/-- No byte string makes the checks or, once they succeed, an accessor read out of bounds;
the parts of a checked view are the announced length; and the option walker calls back on
exactly the options of the longest well-formed prefix. -/
theorem parsers_exact (buf : List UInt8) :
    (∃ r, Ipv4View.newChecked buf = some r) ∧ (∃ r, TcpView.newChecked buf = some r) ∧
      (∀ p, Ipv4View.newChecked buf = some (.ok p) → p.buf = buf ∧ p.Safe) ∧
      ∀ p, TcpView.newChecked buf = some (.ok p) → p.buf = buf ∧ p.Safe :=
  ⟨⟨_, Ipv4View.newChecked_eq buf⟩, ⟨_, TcpView.newChecked_eq buf⟩, fun _ h => Ipv4View.safe_of_checked h,
    fun _ h => TcpView.safe_of_checked h⟩

/-- A SYN with an MSS option, a pad and a window scale; behind the end mark another MSS
option begins. -/
def synOctets : List UInt8 :=
  [0x30, 0x39, 0, 80, 0, 0, 0, 1, 0, 0, 0, 0, 0x80, 0x02, 0xff, 0xff, 0, 0, 0, 0] ++
    [2, 4, 5, 180, 1, 3, 3, 7, 0, 2, 4, 1] ++ [7]

theorem parsers_exact_syn : ∃ p, TcpView.newChecked synOctets = some (.ok p) ∧ p.mssOption = some (some 1460) ∧
    p.windowScale = some (some 7) ∧ p.payload = some [7] := by
  have hchecked : TcpView.newChecked synOctets = some (.ok ⟨synOctets⟩) := by decide
  obtain ⟨-, hsafe⟩ := (parsers_exact synOctets).2.2.2 ⟨synOctets⟩ hchecked
  obtain ⟨opts, items, -, -, hwalk, hitems⟩ := hsafe.walker
  refine ⟨⟨synOctets⟩, hchecked, ?_, ?_, hsafe.payload.trans (by decide)⟩
  · rw [hwalk.mssOption, ← hitems]
    decide
  · rw [hwalk.windowScale, ← hitems]
    decide

end Ferrumnet
