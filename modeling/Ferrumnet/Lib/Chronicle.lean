import Mathlib.Data.List.Basic

/-
  Logs of events, the latest at the end.

  1. `told_concat` — a rule that ties every event to what came before it.
  2. `answered_concat` — every event that asks is followed by one that answers.
-/

namespace Chronicle

variable {α : Type*} {l : List α} {a b : α}

/-- The places of a log that has grown: an old one, or the new event's. -/
theorem concat_eq_append_cons {l₁ l₂ : List α} :
    l ++ [b] = l₁ ++ a :: l₂ ↔ (l₂ = [] ∧ l = l₁ ∧ b = a) ∨ ∃ l₃, l₂ = l₃ ++ [b] ∧ l = l₁ ++ a :: l₃ := by
  constructor
  · intro h
    rcases List.eq_nil_or_concat l₂ with rfl | ⟨l₃, c, rfl⟩
    · obtain ⟨hl, hb⟩ := List.append_inj' h rfl
      exact .inl ⟨rfl, hl, List.singleton_injective hb⟩
    · rw [List.concat_eq_append, ← List.cons_append, ← List.append_assoc] at h
      obtain ⟨hl, hb⟩ := List.append_inj' h rfl
      cases List.singleton_injective hb
      exact .inr ⟨l₃, List.concat_eq_append, hl⟩
  · rintro (⟨rfl, rfl, rfl⟩ | ⟨l₃, rfl, rfl⟩)
    · rfl
    · rw [List.append_assoc, List.cons_append]

/-- Every event agrees with what came before it. -/
def Told (P : List α → α → Prop) (l : List α) : Prop := ∀ l₁ a l₂, l = l₁ ++ a :: l₂ → P l₁ a

theorem told_nil (P : List α → α → Prop) : Told P [] := by
  intro l₁ a l₂ h
  exact absurd h.symm (List.append_ne_nil_of_right_ne_nil l₁ (List.cons_ne_nil a l₂))

theorem told_concat {P : List α → α → Prop} : Told P (l ++ [b]) ↔ Told P l ∧ P l b := by
  constructor
  · intro h
    refine ⟨fun l₁ a l₂ hl => h l₁ a (l₂ ++ [b]) ?_, h l b [] rfl⟩
    rw [hl, List.append_assoc, List.cons_append]
  · rintro ⟨hold, hnew⟩ l₁ a l₂ hl
    rcases concat_eq_append_cons.mp hl with ⟨-, rfl, rfl⟩ | ⟨l₃, -, hl⟩
    · exact hnew
    · exact hold l₁ a l₃ hl

/-- Every event that asks is followed by one that answers. -/
def Answered (asks answers : α → Bool) (l : List α) : Prop :=
  ∀ l₁ a l₂, l = l₁ ++ a :: l₂ → asks a = true → ∃ b ∈ l₂, answers b = true

variable {asks answers : α → Bool}

/-- The new event answers all that came before it, and asks for none itself. -/
theorem answered_concat : Answered asks answers (l ++ [b]) ↔
    asks b = false ∧ (answers b = true ∨ Answered asks answers l) := by
  constructor
  · intro h
    refine ⟨Bool.eq_false_iff.mpr fun hb => ?_, ?_⟩
    · obtain ⟨c, hc, -⟩ := h l b [] rfl hb
      cases hc
    · by_cases hb : answers b = true
      · exact .inl hb
      · refine .inr fun l₁ a l₂ hl ha => ?_
        obtain ⟨c, hc, hans⟩ := h l₁ a (l₂ ++ [b]) (by rw [hl, List.append_assoc, List.cons_append]) ha
        rcases List.mem_append.mp hc with hc | hc
        · exact ⟨c, hc, hans⟩
        · cases List.mem_singleton.mp hc
          exact absurd hans hb
  · rintro ⟨hask, hans⟩ l₁ a l₂ hl ha
    rcases concat_eq_append_cons.mp hl with ⟨-, -, rfl⟩ | ⟨l₃, rfl, hl'⟩
    · exact absurd ha (Bool.eq_false_iff.mp hask)
    · rcases hans with hans | hold
      · exact ⟨b, List.mem_append_right _ List.mem_cons_self, hans⟩
      · obtain ⟨c, hc, hans⟩ := hold l₁ a l₃ hl' ha
        exact ⟨c, List.mem_append_left _ hc, hans⟩

end Chronicle
