import Mathlib.Data.List.Infix

/-!
# Lines

A text is a list of lines with a separator between them. Where a separator stands at both ends of
what is searched and of what is searched for, a block of lines is found just where it stands as
whole lines.
-/

namespace ArdurBot.Lines

open List

variable {α : Type*} {sep : α} {lines block : List (List α)} {line line' : List α} {i j m : ℕ}

def marked (sep : α) (lines : List (List α)) : List α := lines.flatMap fun line => sep :: line

@[simp] theorem marked_nil : marked sep [] = [] := rfl

@[simp] theorem marked_cons :
    marked sep (line :: lines) = sep :: (line ++ marked sep lines) := by simp [marked]

@[simp] theorem marked_append (lines lines' : List (List α)) :
    marked sep (lines ++ lines') = marked sep lines ++ marked sep lines' := by simp [marked]

theorem marked_eq (h : lines ≠ []) : marked sep lines = sep :: [sep].intercalate lines := by
  induction lines with
  | nil => exact absurd rfl h
  | cons line lines ih =>
    by_cases hnil : lines = []
    · subst hnil
      simp
    · rw [marked_cons, ih hnil, intercalate_cons_of_ne_nil hnil, append_assoc]
      rfl

theorem marked_concat (sep : α) (lines : List (List α)) :
    ∃ rest, marked sep lines ++ [sep] = sep :: rest := by
  cases lines with
  | nil => exact ⟨[], rfl⟩
  | cons line lines => exact ⟨line ++ marked sep lines ++ [sep], by simp⟩

theorem line_prefix (hline : sep ∉ line) (hline' : sep ∉ line') {rest rest' : List α} :
    line ++ sep :: rest <+: line' ++ sep :: rest' ↔ line = line' ∧ rest <+: rest' := by
  induction line generalizing line' with
  | nil =>
    cases line' with
    | nil => simp
    | cons a line' =>
      have hne : sep ≠ a := fun heq => hline' (heq ▸ mem_cons_self)
      simp [hne]
  | cons a line ih =>
    cases line' with
    | nil =>
      have hne : a ≠ sep := fun heq => hline (heq ▸ mem_cons_self)
      simp [hne]
    | cons b line' =>
      rw [mem_cons, not_or] at hline hline'
      simp [ih hline.2 hline'.2, and_assoc]

theorem block_prefix (hblock : ∀ line ∈ block, sep ∉ line) (hlines : ∀ line ∈ lines, sep ∉ line) :
    marked sep block ++ [sep] <+: marked sep lines ++ [sep] ↔ block <+: lines := by
  induction block generalizing lines with
  | nil =>
    obtain ⟨rest, hrest⟩ := marked_concat sep lines
    simp [hrest]
  | cons line block ih =>
    rw [forall_mem_cons] at hblock
    obtain ⟨rest, hrest⟩ := marked_concat sep block
    cases lines with
    | nil => simp
    | cons line' lines =>
      rw [forall_mem_cons] at hlines
      obtain ⟨rest', hrest'⟩ := marked_concat sep lines
      have hinner := ih hblock.2 hlines.2
      rw [hrest, hrest', prefix_cons_inj] at hinner
      rw [marked_cons, marked_cons, cons_append, cons_append, append_assoc, append_assoc, hrest, hrest',
        prefix_cons_inj, cons_prefix_cons, line_prefix hblock.1 hlines.1, hinner]

theorem found_iff (m : ℕ) (hne : block ≠ []) (hblock : ∀ line ∈ block, sep ∉ line)
    (hlines : ∀ line ∈ lines, sep ∉ line) :
    marked sep block ++ [sep] <+: (marked sep lines ++ [sep]).drop m ↔
      ∃ i < lines.length, m = (marked sep (lines.take i)).length ∧ block <+: lines.drop i := by
  obtain ⟨first, block', rfl⟩ := exists_cons_of_ne_nil hne
  induction lines generalizing m with
  | nil =>
    cases m with
    | zero | succ => simp
  | cons line lines ih =>
    have hwhole := block_prefix hblock hlines
    rw [forall_mem_cons] at hlines
    cases m with
    | zero =>
      rw [drop_zero, hwhole]
      constructor
      · exact fun hprefix => ⟨0, by simp, by simp, hprefix⟩
      · rintro ⟨i, -, hzero, hprefix⟩
        cases i with
        | zero => exact hprefix
        | succ i => simp at hzero
    | succ m =>
      have hcons : marked sep (line :: lines) = sep :: (line ++ marked sep lines) := marked_cons
      rw [hcons, cons_append, drop_succ_cons, append_assoc]
      by_cases hm : m < line.length
      · constructor
        · intro hprefix
          rw [drop_append_of_le_length hm.le, marked_cons, drop_eq_getElem_cons hm] at hprefix
          have hsame := (cons_prefix_cons.mp hprefix).1
          exact absurd (hsame ▸ getElem_mem hm) hlines.1
        · rintro ⟨i, -, hlength, -⟩
          cases i with
          | zero => simp at hlength
          | succ i =>
            simp at hlength
            omega
      · obtain ⟨k, rfl⟩ : ∃ k, m = line.length + k := ⟨m - line.length, by omega⟩
        rw [← drop_drop, drop_left, ih _ hlines.2]
        constructor
        · rintro ⟨i, hi, rfl, hprefix⟩
          exact ⟨i + 1, by simpa using hi, by simp, by simpa using hprefix⟩
        · rintro ⟨i, hi, hlength, hprefix⟩
          cases i with
          | zero => simp at hlength
          | succ i => exact ⟨i, by simpa using hi, by simp at hlength; omega, by simpa using hprefix⟩

theorem length_marked_lt (hij : i < j) (hj : j ≤ lines.length) :
    (marked sep (lines.take i)).length < (marked sep (lines.take j)).length := by
  have hsplit : lines.take j = lines.take i ++ (lines.drop i).take (j - i) := by
    rw [← take_add, Nat.add_sub_cancel' hij.le]
  obtain ⟨line, rest, hrest⟩ : ∃ line rest, (lines.drop i).take (j - i) = line :: rest := by
    apply exists_cons_of_length_pos
    rw [length_take, length_drop]
    omega
  rw [hsplit, hrest, marked_append, marked_cons, length_append, length_cons]
  omega

theorem eq_of_length_marked (hi : i ≤ lines.length) (hj : j ≤ lines.length)
    (h : (marked sep (lines.take i)).length = (marked sep (lines.take j)).length) : i = j := by
  obtain hlt | heq | hlt := Nat.lt_trichotomy i j
  · exact absurd h (length_marked_lt hlt hj).ne
  · exact heq
  · exact absurd h (length_marked_lt hlt hi).ne'

variable [DecidableEq α]

theorem sep_notMem {text : List α} (h : line ∈ text.splitOn sep) : sep ∉ line := by
  induction text generalizing line with
  | nil =>
    rw [splitOn_nil, mem_singleton] at h
    simp [h]
  | cons a text ih =>
    rw [splitOn_cons_eq_if_modifyHead] at h
    split at h
    · obtain rfl | h := mem_cons.mp h
      · exact not_mem_nil
      · exact ih h
    · next hne =>
      obtain ⟨first, rest, hparts⟩ := exists_cons_of_ne_nil (splitOn_ne_nil sep text)
      rw [hparts] at h ih
      rw [modifyHead_cons] at h
      obtain rfl | h := mem_cons.mp h
      · have hfirst := ih mem_cons_self
        rw [beq_iff_eq] at hne
        simp [Ne.symm hne, hfirst]
      · exact ih (mem_cons_of_mem _ h)

theorem splitOn_take (hlines : ∀ line ∈ lines, sep ∉ line) (hi : i < lines.length) :
    (([sep].intercalate lines).take (marked sep (lines.take i)).length).splitOn sep = lines.take i ++ [[]] := by
  have hne : lines ≠ [] := ne_nil_of_length_pos (by omega)
  have htake : ([sep].intercalate lines).take (marked sep (lines.take i)).length =
      [sep].intercalate (lines.take i ++ [[]]) := by
    have hmarked : (marked sep lines).take ((marked sep (lines.take i)).length + 1) =
        marked sep (lines.take i ++ [[]]) := by
      have hsplit : marked sep lines = marked sep (lines.take i) ++ sep ::
          (lines[i] ++ marked sep (lines.drop (i + 1))) := by
        rw [← marked_cons, ← marked_append, cons_getElem_drop_succ, take_append_drop]
      rw [hsplit, take_append, take_of_length_le (by omega), Nat.add_sub_cancel_left, marked_append]
      simp
    have hlast : marked sep (lines.take i ++ [[]]) =
        sep :: [sep].intercalate (lines.take i ++ [[]]) := marked_eq (by simp)
    rw [marked_eq hne, hlast, take_succ_cons] at hmarked
    exact (cons.inj hmarked).2
  rw [htake, splitOn_intercalate sep _ (by simp)]
  intro line hline
  obtain hline | hline := mem_append.mp hline
  · exact hlines line (mem_of_mem_take hline)
  · rw [mem_singleton.mp hline]
    exact not_mem_nil

end ArdurBot.Lines
