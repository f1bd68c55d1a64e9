import Mathlib.Data.List.Sort

/-!
# Ranking by several keys

A comparison answers with a number: negative where the first comes first. Comparisons that are tried
one after another, until one of them tells the two apart, make up a comparison again. The first item
of what is sorted is the one that no other precedes, so it does not depend on the order in which the
items came.
-/

namespace ArdurBot.Ranking

open List

variable {α : Type*} {cmp first second : α → α → ℤ} {items items' : List α} {a b c best : α}

structure Comparison (cmp : α → α → ℤ) : Prop where
  flip : ∀ a b, cmp a b < 0 ↔ 0 < cmp b a
  trans : ∀ a b c, cmp a b ≤ 0 → cmp b c ≤ 0 → cmp a c ≤ 0

def byScore (score : α → ℤ) (a b : α) : ℤ := score a - score b

theorem comparison_byScore (score : α → ℤ) : Comparison (byScore score) := by
  unfold byScore
  refine ⟨fun a b => ?_, fun a b c hab hbc => ?_⟩ <;> omega

/-- The first comparison that tells the two apart. -/
def lexicographic : List (α → α → ℤ) → α → α → ℤ
  | [], _, _ => 0
  | cmp :: others, a, b => if cmp a b = 0 then lexicographic others a b else cmp a b

theorem Comparison.zero_flip (h : Comparison cmp) : cmp a b = 0 ↔ cmp b a = 0 := by
  have hab := h.flip a b
  have hba := h.flip b a
  omega

theorem Comparison.total (h : Comparison cmp) (a b : α) : cmp a b ≤ 0 ∨ cmp b a ≤ 0 := by
  have hba := h.flip b a
  omega

theorem Comparison.then (hfirst : Comparison first) (hsecond : Comparison second) :
    Comparison fun a b => if first a b = 0 then second a b else first a b := by
  refine ⟨fun a b => ?_, fun a b c hab hbc => ?_⟩
  · have hzero := @Comparison.zero_flip _ _ a b hfirst
    by_cases hab : first a b = 0
    · simp only [if_pos hab, if_pos (hzero.mp hab)]
      exact hsecond.flip a b
    · simp only [if_neg hab, if_neg fun hba => hab (hzero.mpr hba)]
      exact hfirst.flip a b
  · have hfirstAb : first a b ≤ 0 := by
      by_cases h : first a b = 0
      · exact h.le
      · simpa only [if_neg h] using hab
    have hfirstBc : first b c ≤ 0 := by
      by_cases h : first b c = 0
      · exact h.le
      · simpa only [if_neg h] using hbc
    have hfirstAc := hfirst.trans a b c hfirstAb hfirstBc
    by_cases hac : first a c = 0
    · -- the first key tells no two of the three apart
      have hca := hfirst.zero_flip.mp hac
      have hab' : first a b = 0 := by
        have hba := hfirst.trans b c a hfirstBc hca.le
        have hflip := hfirst.flip a b
        omega
      have hbc' : first b c = 0 := by
        have hcb := hfirst.trans c a b hca.le hfirstAb
        have hflip := hfirst.flip b c
        omega
      simp only [if_pos hac]
      simp only [if_pos hab'] at hab
      simp only [if_pos hbc'] at hbc
      exact hsecond.trans a b c hab hbc
    · simpa only [if_neg hac] using hfirstAc

theorem comparison_lexicographic {keys : List (α → α → ℤ)} (h : ∀ cmp ∈ keys, Comparison cmp) :
    Comparison (lexicographic keys) := by
  induction keys with
  | nil => exact comparison_byScore fun _ => 0
  | cons cmp keys ih =>
    have hrest := ih fun other hother => h other (mem_cons_of_mem _ hother)
    exact (h cmp mem_cons_self).then hrest

theorem lexicographic_eq_zero {keys : List (α → α → ℤ)} (h : lexicographic keys a b = 0) :
    ∀ cmp ∈ keys, cmp a b = 0 := by
  induction keys with
  | nil => exact forall_mem_nil _
  | cons cmp keys ih =>
    rw [lexicographic] at h
    split at h
    · next hzero =>
      intro other hother
      obtain rfl | hother := mem_cons.mp hother
      · exact hzero
      · exact ih h other hother
    · next hapart => exact absurd h hapart

/-- `items.sort(cmp)` -/
def sort (cmp : α → α → ℤ) (items : List α) : List α := items.insertionSort fun a b => cmp a b ≤ 0

theorem mem_sort : a ∈ sort cmp items ↔ a ∈ items := mem_insertionSort _

theorem first_le (h : Comparison cmp) (hbest : (sort cmp items).head? = some best) :
    best ∈ items ∧ ∀ other ∈ items, cmp best other ≤ 0 := by
  have htotal : Std.Total fun a b : α => cmp a b ≤ 0 := ⟨h.total⟩
  have htrans : IsTrans α fun a b => cmp a b ≤ 0 := ⟨h.trans⟩
  have hsorted : (sort cmp items).Pairwise fun a b => cmp a b ≤ 0 := pairwise_insertionSort _ _
  obtain ⟨rest, hrest⟩ := head?_eq_some_iff.mp hbest
  rw [hrest] at hsorted
  refine ⟨mem_sort.mp (mem_of_mem_head? hbest), fun other hother => ?_⟩
  have hmem : other ∈ sort cmp items := mem_sort.mpr hother
  rw [hrest, mem_cons] at hmem
  obtain rfl | hmem := hmem
  · have hself := h.flip other other
    omega
  · exact rel_of_pairwise_cons hsorted hmem

theorem head_sort_eq_none : (sort cmp items).head? = none ↔ items = [] := by
  rw [head?_eq_none_iff, ← length_eq_zero_iff, sort, length_insertionSort, length_eq_zero_iff]

/-- Where the comparison tells different items apart, the first one does not depend on their
order. -/
theorem head_sort_eq_of_perm (h : Comparison cmp) (hperm : items.Perm items')
    (hapart : ∀ a ∈ items, ∀ b ∈ items, cmp a b = 0 → a = b) :
    (sort cmp items).head? = (sort cmp items').head? := by
  cases hbest : (sort cmp items).head? with
  | none =>
    rw [head_sort_eq_none.mp hbest] at hperm
    rw [nil_perm.mp hperm]
    rfl
  | some best =>
    cases hbest' : (sort cmp items').head? with
    | none =>
      rw [head_sort_eq_none.mp hbest'] at hperm
      rw [perm_nil.mp hperm] at hbest
      cases hbest
    | some best' =>
      obtain ⟨hmem, hle⟩ := first_le h hbest
      obtain ⟨hmem', hle'⟩ := first_le h hbest'
      have hin := hperm.mem_iff.mpr hmem'
      have hforth := hle best' hin
      have hback := hle' best (hperm.mem_iff.mp hmem)
      have hflip := h.flip best best'
      rw [hapart best hmem best' hin (by omega)]

end ArdurBot.Ranking
