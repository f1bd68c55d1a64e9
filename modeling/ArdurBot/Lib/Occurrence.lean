import Mathlib.Data.List.Count
import Mathlib.Data.List.Nodup

/-!
# Numbered occurrences

Each item of a list with the number of its occurrence: the first, the second and so on. No two are
the same, so names that are made of them are distinct as far as the names of different ones are.
-/

namespace ArdurBot.Occurrence

open List

variable {α β : Type*} [BEq α] {before items : List α} {item : α} {n : ℕ}

/-- The items, each with its number after those before. -/
def numbered (before : List α) : List α → List (α × ℕ)
  | [] => []
  | item :: items => (item, before.count item + 1) :: numbered (item :: before) items

variable [LawfulBEq α]

theorem mem_numbered :
    (item, n) ∈ numbered before items ↔ before.count item < n ∧ n ≤ before.count item + items.count item := by
  induction items generalizing before with
  | nil =>
    simp only [numbered, not_mem_nil, count_nil, false_iff]
    omega
  | cons first items ih =>
    rw [numbered, mem_cons, ih, Prod.mk.injEq]
    by_cases hfirst : first = item
    · subst hfirst
      rw [count_cons_self, count_cons_self, and_iff_right (Eq.refl first)]
      omega
    · rw [count_cons_of_ne hfirst, count_cons_of_ne hfirst]
      simp [Ne.symm hfirst]

theorem nodup_numbered (before items : List α) : (numbered before items).Nodup := by
  induction items generalizing before with
  | nil => exact nodup_nil
  | cons item items ih =>
    rw [numbered, nodup_cons, mem_numbered, count_cons_self]
    exact ⟨by omega, ih _⟩

end ArdurBot.Occurrence
