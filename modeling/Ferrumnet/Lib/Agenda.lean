import Mathlib.Data.List.Basic

/-
  Dated items, of which those that are due are taken out in order.

  1. `due_append_rest` — items that were put in by their dates are taken out as they were
     put in, whatever else is among them.
  2. `taken_append` — what is taken out at one time after another is in order, and before
     what is left.
-/

namespace Agenda

variable {α : Type*} {R : α → α → Prop} {le : α → α → Bool} {due : α → Bool} {l : List α}

/-- Of a list in order, what is due comes first. -/
theorem filter_append_filter_not (h : l.Pairwise R) (hdue : ∀ a b, R a b → due b = true → due a = true) :
    l.filter due ++ l.filter (fun a => !due a) = l := by
  induction h with
  | nil => rfl
  | @cons a l ha _ ih =>
    cases hd : due a with
    | true => rw [List.filter_cons_of_pos hd, List.filter_cons_of_neg (by rw [hd]; decide), List.cons_append, ih]
    | false =>
      have hnone : l.filter due = [] := by
        rw [List.filter_eq_nil_iff]
        intro b hb hdb
        rw [hdue a b (ha b hb) hdb] at hd
        cases hd
      rw [hnone, List.nil_append] at ih
      rw [List.filter_cons_of_neg (by rw [hd]; decide), hnone, List.filter_cons_of_pos (by rw [hd]; rfl), ih,
        List.nil_append]

/-- Of two items in order, the second is not before the first. -/
theorem eq_of_le_of_le (h : l.Pairwise R) (hR : ∀ a b, R a b → le b a = false) :
    ∀ a ∈ l, ∀ b ∈ l, le a b = true → le b a = true → a = b := by
  induction h with
  | nil => exact fun a ha => absurd ha List.not_mem_nil
  | @cons x l hx _ ih =>
    intro a ha b hb hab hba
    rcases List.mem_cons.mp ha with rfl | ha'
    · rcases List.mem_cons.mp hb with rfl | hb'
      · rfl
      · rw [hR a b (hx b hb')] at hba
        cases hba
    · rcases List.mem_cons.mp hb with rfl | hb'
      · rw [hR b a (hx a ha')] at hab
        cases hab
      · exact ih a ha' b hb' hab hba

variable {keep : α → Bool}

/-- What is due is sorted and taken out. Of the items that `keep` tells from the others, and
that are in order, what is taken and what is left are all there was, in the order there was. -/
theorem due_append_rest (htrans : ∀ a b c, le a b = true → le b c = true → le a c = true)
    (htotal : ∀ a b, (le a b || le b a) = true) (h : (l.filter keep).Pairwise R)
    (hle : ∀ a b, R a b → le a b = true) (hlt : ∀ a b, R a b → le b a = false)
    (hdue : ∀ a b, R a b → due b = true → due a = true) :
    ((l.filter due).mergeSort le).filter keep ++ (l.filter fun a => !due a).filter keep = l.filter keep := by
  have hcomm : ∀ p : α → Bool, (l.filter p).filter keep = (l.filter keep).filter p := by
    intro p
    rw [List.filter_filter, List.filter_filter]
    exact List.filter_congr fun a _ => Bool.and_comm _ _
  have hsorted : ((l.filter keep).filter due).Pairwise R := h.sublist List.filter_sublist
  have htaken : ((l.filter due).mergeSort le).filter keep = (l.filter keep).filter due := by
    have hperm : (((l.filter due).mergeSort le).filter keep).Perm ((l.filter keep).filter due) :=
      hcomm due ▸ (List.mergeSort_perm _ le).filter keep
    have hmerged : (((l.filter due).mergeSort le).filter keep).Pairwise fun a b => le a b = true :=
      (List.pairwise_mergeSort htrans htotal _).sublist List.filter_sublist
    have hput : ((l.filter keep).filter due).Pairwise fun a b => le a b = true := hsorted.imp fun {a b} => hle a b
    refine List.Perm.eq_of_pairwise (fun a b ha hb hab hba => ?_) hmerged hput hperm
    exact eq_of_le_of_le hsorted hlt a (hperm.mem_iff.mp ha) b hb hab hba
  rw [htaken, hcomm, filter_append_filter_not h hdue]

/-- What is due is taken out after what was taken before. -/
theorem taken_append (htrans : ∀ a b c, le a b = true → le b c = true → le a c = true)
    (htotal : ∀ a b, (le a b || le b a) = true) {taken : List α} (ht : taken.Pairwise fun a b => le a b = true)
    (hahead : ∀ a ∈ taken, ∀ b ∈ l, le a b = true)
    (hdue : ∀ a ∈ l, ∀ b ∈ l, due a = true → due b = false → le a b = true) :
    (taken ++ (l.filter due).mergeSort le).Pairwise (fun a b => le a b = true) ∧
      ∀ a ∈ taken ++ (l.filter due).mergeSort le, ∀ b ∈ l.filter fun a => !due a, le a b = true := by
  have hmem : ∀ a ∈ (l.filter due).mergeSort le, a ∈ l ∧ due a = true :=
    fun a ha => List.mem_filter.mp ((List.mergeSort_perm _ le).mem_iff.mp ha)
  constructor
  · rw [List.pairwise_append]
    exact ⟨ht, List.pairwise_mergeSort htrans htotal _, fun a ha b hb => hahead a ha b (hmem b hb).1⟩
  · intro a ha b hb
    obtain ⟨hb, hnot⟩ := List.mem_filter.mp hb
    rcases List.mem_append.mp ha with ha | ha
    · exact hahead a ha b hb
    · obtain ⟨hal, had⟩ := hmem a ha
      apply hdue a hal b hb had
      rwa [Bool.not_eq_true'] at hnot

end Agenda
