import Mathlib.Tactic

/-
  Type-length-value options with a padding byte, as items and as bytes.

  A byte string need not be options all through: what it has is a longest prefix that is.
  The items are prefix-free, so that prefix is read off from the left, and it is the only
  one (`Longest.unique`).

  1. `Item.bytes_inj` — no item begins another.
  2. `longest_of_stuck` — reading stops where no item fits, and has then read the most.
-/

namespace Tlv

/-- An option: a kind that is neither the end mark nor the pad, and a value that a length
byte can announce. -/
structure Entry where
  kind : UInt8
  value : List UInt8
  not_end : kind ≠ 0
  not_pad : kind ≠ 1
  short : value.length + 2 < 256

inductive Item where
  | pad
  | entry (e : Entry)

/-- The length byte counts the kind and itself. -/
def Item.bytes : Item → List UInt8
  | .pad => [1]
  | .entry e => e.kind :: UInt8.ofNat (e.value.length + 2) :: e.value

def encode (items : List Item) : List UInt8 := items.flatMap Item.bytes

def Item.option : Item → Option (UInt8 × List UInt8)
  | .pad => none
  | .entry e => some (e.kind, e.value)

/-- The options of a list of items, in order. -/
def entries (items : List Item) : List (UInt8 × List UInt8) := items.filterMap Item.option

/-- No item begins here. -/
def Stuck (rest : List UInt8) : Prop := ∀ (item : Item) (xs : List UInt8), rest ≠ item.bytes ++ xs

/-- The items of the longest prefix that is made of items. -/
structure Longest (bytes : List UInt8) (items : List Item) : Prop where
  here : encode items <+: bytes
  most : ∀ items', encode items' <+: bytes → items' <+: items

variable {bytes rest : List UInt8} {items items' : List Item}

theorem length_byte (e : Entry) : (UInt8.ofNat (e.value.length + 2)).toNat = e.value.length + 2 := by
  have := e.short
  rw [UInt8.toNat_ofNat']
  omega

theorem encode_cons (item : Item) (items : List Item) : encode (item :: items) = item.bytes ++ encode items := rfl

/-- No item begins another. -/
theorem Item.bytes_inj {i j : Item} {xs ys : List UInt8} (h : i.bytes ++ xs = j.bytes ++ ys) : i = j ∧ xs = ys := by
  cases i with
  | pad =>
    cases j with
    | pad => exact ⟨rfl, (List.cons.inj h).2⟩
    | entry e => exact absurd (List.cons.inj h).1.symm e.not_pad
  | entry e =>
    cases j with
    | pad => exact absurd (List.cons.inj h).1 e.not_pad
    | entry e' =>
      obtain ⟨hkind, htail⟩ := List.cons.inj h
      obtain ⟨hbyte, hvalues⟩ := List.cons.inj htail
      -- equal length bytes announce values of one length
      have hlen : e.value.length = e'.value.length := by
        have h1 := length_byte e
        have h2 := length_byte e'
        rw [hbyte, h2] at h1
        omega
      obtain ⟨hvalue, hrest⟩ := List.append_inj hvalues hlen
      obtain ⟨kind, value, h1, h2, h3⟩ := e
      obtain ⟨kind', value', h1', h2', h3'⟩ := e'
      cases hkind
      cases hvalue
      exact ⟨rfl, hrest⟩

theorem stuck_nil : Stuck [] := by
  intro item xs h
  cases item with
  | pad => cases h
  | entry e => cases h

/-- The end mark is no option. -/
theorem stuck_end (rest : List UInt8) : Stuck (0 :: rest) := by
  intro item xs h
  cases item with
  | pad => exact absurd (List.cons.inj h).1 (by decide)
  | entry e => exact e.not_end (List.cons.inj h).1.symm

/-- A kind without a length. -/
theorem stuck_kind {kind : UInt8} (h1 : kind ≠ 1) : Stuck [kind] := by
  intro item xs h
  cases item with
  | pad => exact h1 (List.cons.inj h).1
  | entry e => cases (List.cons.inj h).2

/-- A length that does not count itself, or more bytes than there are. -/
theorem stuck_length {kind len : UInt8} {value : List UInt8} (h1 : kind ≠ 1)
    (hbad : len.toNat < 2 ∨ value.length + 2 < len.toNat) : Stuck (kind :: len :: value) := by
  intro item xs h
  cases item with
  | pad => exact h1 (List.cons.inj h).1
  | entry e =>
    obtain ⟨hbyte, hvalue⟩ := List.cons.inj (List.cons.inj h).2
    have hlen := length_byte e
    have hfits : e.value.length ≤ value.length := by
      have hsplit : value = e.value ++ xs := hvalue
      rw [hsplit, List.length_append]
      exact Nat.le_add_right _ _
    rw [← hbyte] at hlen
    omega

/-- Reading stops where no item fits, and has then read the most. -/
theorem longest_of_stuck (hs : Stuck rest) : Longest (encode items ++ rest) items := by
  refine ⟨List.prefix_append _ _, ?_⟩
  induction items with
  | nil =>
    intro items' h
    cases items' with
    | nil => exact List.prefix_rfl
    | cons item items' =>
      obtain ⟨xs, hxs⟩ := h
      rw [encode_cons, List.append_assoc] at hxs
      exact absurd hxs.symm (hs item _)
  | cons item items ih =>
    intro items' h
    cases items' with
    | nil => exact List.nil_prefix
    | cons item' items' =>
      obtain ⟨xs, hxs⟩ := h
      rw [encode_cons, encode_cons, List.append_assoc, List.append_assoc] at hxs
      obtain ⟨rfl, hrest⟩ := Item.bytes_inj hxs
      exact List.cons_prefix_cons.mpr ⟨rfl, ih items' ⟨xs, hrest⟩⟩

theorem Longest.unique (h : Longest bytes items) (h' : Longest bytes items') : items = items' :=
  (h'.most items h.here).eq_of_length_le (h.most items' h'.here).length_le

end Tlv
