import Mathlib.Data.List.Infix

/-!
# Replacing patterns in one left-to-right scan

A scan walks a word from the left. Where one of its patterns starts it writes a mask and steps over
the whole match; elsewhere it copies one letter. The patterns are tried in the order of the list, so
a list sorted by length gives longest-match replacement, but nothing here depends on the order.

Two facts carry everything that is built on a scan. The choice made at a position depends only on as
many letters as the longest pattern has, so a scan may be run on a part of the word as soon as that
many letters are known. And no pattern survives in the result, unless it shares letters with the
mask.
-/

namespace ArdurBot.Scan

open List

variable {α : Type} [DecidableEq α]

/-- A pattern a scan can step over: never empty. -/
abbrev Pattern (α : Type) := {p : List α // p ≠ []}

omit [DecidableEq α] in
theorem Pattern.length_pos (p : Pattern α) : 0 < p.val.length :=
  length_pos_iff.mpr p.property

/-- The first pattern in the list that `text` starts with. -/
def firstMatch (patterns : List (Pattern α)) (text : List α) : Option (Pattern α) :=
  patterns.find? fun p => p.val.isPrefixOf text

/-- One scan over `text`. -/
def replaceAll (patterns : List (Pattern α)) (mask : List α) : List α → List α
  | [] => []
  | c :: rest =>
    match firstMatch patterns (c :: rest) with
    | some p => mask ++ replaceAll patterns mask ((c :: rest).drop p.val.length)
    | none => c :: replaceAll patterns mask rest
termination_by text => text.length
decreasing_by
  · have := p.length_pos
    simp only [length_drop, length_cons]
    omega
  · simp

variable {patterns : List (Pattern α)} {mask : List α}

@[simp] theorem replaceAll_nil : replaceAll patterns mask [] = [] := by
  rw [replaceAll]

theorem firstMatch_nil : firstMatch patterns ([] : List α) = none := by
  rw [firstMatch, find?_eq_none]
  intro p _ hp
  exact p.property (prefix_nil.mp (List.isPrefixOf_iff_prefix.mp hp))

variable {rest text : List α} {p : Pattern α}

theorem firstMatch_some (h : firstMatch patterns text = some p) : p ∈ patterns ∧ p.val <+: text := by
  have hstart : p.val.isPrefixOf text := by
    simpa using find?_some h
  exact ⟨mem_of_find?_eq_some h, isPrefixOf_iff_prefix.mp hstart⟩

theorem firstMatch_none : firstMatch patterns text = none ↔ ∀ p ∈ patterns, ¬ p.val <+: text := by
  simp only [firstMatch, find?_eq_none, isPrefixOf_iff_prefix]

theorem replaceAll_of_some (h : firstMatch patterns text = some p) :
    replaceAll patterns mask text = mask ++ replaceAll patterns mask (text.drop p.val.length) := by
  cases text with
  | nil => simp [firstMatch_nil] at h
  | cons c rest => rw [replaceAll, h]

theorem replaceAll_of_none {c : α} (h : firstMatch patterns (c :: rest) = none) :
    replaceAll patterns mask (c :: rest) = c :: replaceAll patterns mask rest := by
  rw [replaceAll, h]

theorem replaceAll_no_patterns (text : List α) : replaceAll [] mask text = text := by
  induction text with
  | nil => exact replaceAll_nil
  | cons c rest ih =>
    have hnone : firstMatch [] (c :: rest) = none := rfl
    rw [replaceAll_of_none hnone, ih]

private theorem isPrefixOf_append {p : List α} (more : List α) (h : p.length ≤ text.length) :
    p.isPrefixOf (text ++ more) = p.isPrefixOf text := by
  rw [Bool.eq_iff_iff, isPrefixOf_iff_prefix, isPrefixOf_iff_prefix]
  exact ⟨fun hp => prefix_of_prefix_length_le hp (prefix_append text more) h,
    fun hp => hp.trans (prefix_append text more)⟩

theorem firstMatch_append (more : List α) (h : ∀ p ∈ patterns, p.val.length ≤ text.length) :
    firstMatch patterns (text ++ more) = firstMatch patterns text := by
  unfold firstMatch
  induction patterns with
  | nil => rfl
  | cons p rest ih =>
    simp only [find?_cons, isPrefixOf_append more (h p mem_cons_self)]
    rw [ih fun q hq => h q (mem_cons_of_mem p hq)]

/-- Some occurrence of `s` and some occurrence of `mask` can share a letter. -/
def Overlaps (mask s : List α) : Prop :=
  ∃ a c b, c ≠ [] ∧
    (mask = a ++ c ∧ s = c ++ b ∨ mask = c ++ b ∧ s = a ++ c ∨ mask = a ++ c ++ b ∧ s = c ∨
      s = a ++ c ++ b ∧ mask = c)

/-- A tail of `s` that the scanned word starts with was already there: the scan wrote no mask into
it. -/
private theorem prefix_of_prefix_replaceAll {s : List α} (hmask : mask ≠ []) (hov : ¬ Overlaps mask s) :
    ∀ (text before t : List α), s = before ++ t → t <+: replaceAll patterns mask text → t <+: text := by
  intro text
  induction text with
  | nil =>
    intro before t _ ht
    simpa using ht
  | cons c rest ih =>
    intro before t hs ht
    cases hm : firstMatch patterns (c :: rest) with
    | none =>
      rw [replaceAll_of_none hm] at ht
      cases t with
      | nil => exact nil_prefix
      | cons d t =>
        obtain ⟨rfl, htail⟩ := cons_prefix_cons.mp ht
        exact cons_prefix_cons.mpr ⟨rfl, ih (before ++ [d]) t (by simp [hs]) htail⟩
    | some p =>
      rw [replaceAll_of_some hm] at ht
      by_contra hno
      have hne : t ≠ [] := by
        rintro rfl
        exact hno nil_prefix
      obtain ⟨b, hb⟩ | ⟨u, rfl⟩ := prefix_or_prefix_of_prefix ht (prefix_append mask _)
      · exact hov ⟨before, t, b, hne, .inr (.inl ⟨hb.symm, hs⟩)⟩
      · exact hov ⟨before, mask, u, hmask, .inr (.inr (.inr ⟨by simp [hs], rfl⟩))⟩

omit [DecidableEq α] in
private theorem infix_append_mask {s : List α} (hov : ¬ Overlaps mask s) (hs : s ≠ [])
    (h : s <:+: mask ++ rest) :
    s <:+: rest := by
  obtain ⟨u, v, huv⟩ := h
  rw [append_assoc, append_eq_append_iff] at huv
  obtain ⟨w, hmask, hsv⟩ | ⟨w, rfl, hrest⟩ := huv
  · rw [append_eq_append_iff] at hsv
    obtain ⟨x, rfl, -⟩ | ⟨x, rfl, hrest⟩ := hsv
    · exact absurd ⟨u, s, x, hs, .inr (.inr (.inl ⟨by simp [hmask], rfl⟩))⟩ hov
    · by_cases hw : w = []
      · subst hw
        exact ⟨[], v, by simpa using hrest.symm⟩
      · exact absurd ⟨u, w, x, hw, .inl ⟨hmask, rfl⟩⟩ hov
  · exact ⟨w, v, by simp [hrest]⟩

/-- **No pattern survives a scan**, unless it overlaps the mask. -/
theorem not_infix_replaceAll (hp : p ∈ patterns) (hmask : mask ≠ []) (hov : ¬ Overlaps mask p.val)
    (text : List α) :
    ¬ p.val <:+: replaceAll patterns mask text := by
  induction text using replaceAll.induct patterns with
  | case1 =>
    rw [replaceAll_nil, infix_nil]
    exact p.property
  | case2 c rest q hq ih =>
    rw [replaceAll_of_some hq]
    exact fun h => ih (infix_append_mask hov p.property h)
  | case3 c rest hnone ih =>
    rw [replaceAll_of_none hnone, infix_cons_iff]
    rintro (hstart | hlater)
    · have hcopied : p.val <+: c :: rest := by
        apply @prefix_of_prefix_replaceAll α _ patterns mask p.val hmask hov (c :: rest) [] p.val rfl
        rwa [replaceAll_of_none hnone]
      exact firstMatch_none.mp hnone p hp hcopied
    · exact ih hlater

end ArdurBot.Scan
