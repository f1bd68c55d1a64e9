import ArdurBot.Lib.Lines
import ArdurBot.Lib.Utf16

/-!
# Undoing a learned change

`packages/adapters/src/learning-inverse.ts`. The lines that a change took away and those it put in
their place are found between the first lines and the last lines that it left alone, and the change
is undone where they stand once with their neighbours.
-/

namespace ArdurBot.Learning

open List Utf16 Lines Option

def splitLines (text : Text) : List Text := text.splitOn newline

def joinLines (lines : List Text) : Text := [newline].intercalate lines

/-- `haystack.indexOf(pattern, start)` -/
def indexOf (haystack pattern : Text) (start : ℕ) : Option ℕ :=
  (List.range (haystack.length + 1)).find? fun index =>
    start ≤ index && pattern.isPrefixOf (haystack.drop index)

/-- How many lines are the same from the first on. -/
def commonLines : List Text → List Text → ℕ
  | line :: lines, other :: others => if line = other then commonLines lines others + 1 else 0
  | _, _ => 0

/-- `lines.splice(index, count, ...replacement)` -/
def splice (lines : List Text) (index count : ℕ) (replacement : List Text) : List Text :=
  lines.take index ++ replacement ++ lines.drop (index + count)

/-- What is between the common lines of two texts. -/
structure Change where
  left : List Text
  removed : List Text
  replacement : List Text
  right : List Text

def change (oldLines newLines : List Text) : Change :=
  let start := commonLines oldLines newLines
  let last := commonLines (oldLines.drop start).reverse (newLines.drop start).reverse
  { left := (newLines.take start).getLast?.toList
    removed := (newLines.drop start).take (newLines.length - start - last)
    replacement := (oldLines.drop start).take (oldLines.length - start - last)
    right := (newLines.drop (newLines.length - last)).head?.toList }

def Change.needle (change : Change) : List Text := change.left ++ change.removed ++ change.right

def inverseLearningChange (before applied current : Text) : Option Text :=
  if applied = current then some before
  else
    let change := change (splitLines before) (splitLines applied)
    if change.needle = [] then none
    else
      let haystack := newline :: current ++ [newline]
      let pattern := newline :: joinLines change.needle ++ [newline]
      match indexOf haystack pattern 0 with
      | none => none
      | some index =>
        if (indexOf haystack pattern (index + 1)).isSome then none
        else
          let line := (splitLines (current.take index)).length - 1
          some (joinLines
            (splice (splitLines current) (line + change.left.length) change.removed.length
            change.replacement))

section

variable {oldLines newLines lines others needle : List Text}
  {text haystack pattern before applied current : Text} {index start : ℕ}

theorem commonLines_le (lines others : List Text) :
    commonLines lines others ≤ lines.length ∧ commonLines lines others ≤ others.length := by
  induction lines generalizing others with
  | nil => simp [commonLines]
  | cons line lines ih =>
    cases others with
    | nil => simp [commonLines]
    | cons other others =>
      rw [commonLines]
      have hrest := ih others
      split
      · simp [hrest]
      · simp

theorem take_commonLines (lines others : List Text) :
    lines.take (commonLines lines others) = others.take (commonLines lines others) := by
  induction lines generalizing others with
  | nil => simp [commonLines]
  | cons line lines ih =>
    cases others with
    | nil => simp [commonLines]
    | cons other others =>
      rw [commonLines]
      split
      · next hsame => rw [take_succ_cons, take_succ_cons, hsame, ih]
      · simp

/-- The lines before and after the span are those of both texts, and its neighbours are the nearest
of them. -/
structure Spans (change : Change) (oldLines newLines : List Text) (head tail : List Text) :
  Prop where
  old : oldLines = head ++ change.replacement ++ tail
  new : newLines = head ++ change.removed ++ tail
  left : change.left = head.getLast?.toList
  right : change.right = tail.head?.toList

theorem change_spans (oldLines newLines : List Text) :
    ∃ head tail, Spans (change oldLines newLines) oldLines newLines head tail := by
  have hstart := commonLines_le oldLines newLines
  have hlast := commonLines_le (oldLines.drop (commonLines oldLines newLines)).reverse
    (newLines.drop (commonLines oldLines newLines)).reverse
  have hhead := take_commonLines oldLines newLines
  have htail := take_commonLines (oldLines.drop (commonLines oldLines newLines)).reverse
    (newLines.drop (commonLines oldLines newLines)).reverse
  simp only [length_reverse, length_drop] at hlast
  rw [take_reverse, take_reverse, reverse_inj, length_drop, length_drop] at htail
  unfold change
  dsimp only
  generalize commonLines oldLines newLines = start at hstart hlast hhead htail ⊢
  generalize commonLines (oldLines.drop start).reverse (newLines.drop start).reverse = last at hlast htail ⊢
  have hsame : (newLines.drop start).drop (newLines.length - start - last) =
      newLines.drop (newLines.length - last) := by
    rw [drop_drop]
    congr 1
    omega
  refine ⟨newLines.take start, newLines.drop (newLines.length - last), ?_, ?_, rfl, rfl⟩
  · rw [← hsame, ← htail, ← hhead, append_assoc, take_append_drop, take_append_drop]
  · rw [← hsame, append_assoc, take_append_drop, take_append_drop]

theorem indexOf_eq_some (hne : pattern ≠ []) : indexOf haystack pattern start = some index ↔
    (start ≤ index ∧ pattern <+: haystack.drop index) ∧ ∀ other < index,
      ¬(start ≤ other ∧ pattern <+: haystack.drop other) := by
  unfold indexOf
  rw [find?_range_eq_some]
  simp only [Bool.and_eq_true, decide_eq_true_eq, isPrefixOf_iff_prefix, Bool.not_eq_true', Bool.and_eq_false_iff,
    decide_eq_false_iff_not, mem_range]
  constructor
  · rintro ⟨hat, -, hfirst⟩
    refine ⟨hat, fun other hlt hother => ?_⟩
    have hnot := hfirst other hlt
    simp only [hother.1, not_true_eq_false, false_or] at hnot
    exact absurd (List.isPrefixOf_iff_prefix.mpr hother.2) (by simp [hnot])
  · rintro ⟨hat, hfirst⟩
    refine ⟨hat, ?_, fun other hlt => ?_⟩
    · by_contra hout
      rw [drop_of_length_le (by omega)] at hat
      exact hne (prefix_nil.mp hat.2)
    · by_contra hboth
      simp only [not_or, not_not, Bool.not_eq_false, isPrefixOf_iff_prefix] at hboth
      exact hfirst other hlt hboth

theorem indexOf_eq_none (hne : pattern ≠ []) :
    (indexOf haystack pattern start).isSome = false ↔ ∀ index, start ≤ index → ¬ pattern <+: haystack.drop index := by
  cases hfound : indexOf haystack pattern start with
  | some index =>
    have hat := ((indexOf_eq_some hne).mp hfound).1
    simp only [isSome_some, Bool.true_eq_false, false_iff, not_forall, not_not]
    exact ⟨index, hat.1, hat.2⟩
  | none =>
    unfold indexOf at hfound
    rw [find?_range_eq_none] at hfound
    simp only [isSome_none, true_iff]
    intro index hstart hstarts
    by_cases hlt : index < haystack.length + 1
    · have hnot := hfound index hlt
      simp [hstart, isPrefixOf_iff_prefix.mpr hstarts] at hnot
    · rw [drop_of_length_le (by omega)] at hstarts
      exact hne (prefix_nil.mp hstarts)

/-- The block of lines stands in the lines once, from this line on. -/
def StandsOnce (block lines : List Text) (index : ℕ) : Prop :=
  block <+: lines.drop index ∧ ∀ other, block <+: lines.drop other → other = index

theorem joinLines_splitLines (text : Text) : joinLines (splitLines text) = text :=
  intercalate_splitOn newline

theorem splitLines_joinLines (h : ∀ line ∈ lines, newline ∉ line) (hne : lines ≠ []) :
    splitLines (joinLines lines) = lines :=
  splitOn_intercalate newline h hne

theorem length_joinLines_cons (line : Text) (lines : List Text) :
    (joinLines (line :: lines)).length = line.length + (lines.map fun line => line.length + 1).sum := by
  unfold joinLines
  induction lines generalizing line with
  | nil => simp
  | cons next lines ih =>
    rw [intercalate_cons_cons, length_append, length_append, ih]
    simp only [length_cons, length_nil, map_cons, sum_cons]
    omega

theorem newline_notMem {line : Text} (h : line ∈ splitLines text) : newline ∉ line := sep_notMem h

theorem marked_lines (h : lines ≠ []) :
    newline :: joinLines lines ++ [newline] = marked newline lines ++ [newline] := by
  rw [marked_eq h, joinLines]

theorem StandsOnce.lt (h : StandsOnce needle lines index) (hneedle : needle ≠ []) : index < lines.length := by
  by_contra hout
  have hstarts := h.1
  rw [drop_of_length_le (by omega)] at hstarts
  exact hneedle (prefix_nil.mp hstarts)

theorem line_at (h : index < (splitLines text).length) :
    (splitLines (text.take (marked newline ((splitLines text).take index)).length)).length - 1 = index := by
  have hsplit := splitOn_take (fun _ hline => newline_notMem hline) h
  rw [← joinLines, joinLines_splitLines] at hsplit
  unfold splitLines at hsplit h ⊢
  rw [hsplit, length_append, length_take]
  simp
  omega

theorem search_iff (text : Text) (index : ℕ) (hneedle : needle ≠ [])
    (hlines : ∀ line ∈ needle, newline ∉ line) :
    (indexOf (newline :: text ++ [newline]) (newline :: joinLines needle ++ [newline]) 0 = some index ∧
      (indexOf (newline :: text ++ [newline]) (newline :: joinLines needle ++ [newline])
        (index + 1)).isSome = false) ↔
    ∃ line, StandsOnce needle (splitLines text) line ∧
      index = (marked newline ((splitLines text).take line)).length := by
  have hne : splitLines text ≠ [] := splitOn_ne_nil newline text
  have hown : ∀ line ∈ splitLines text, newline ∉ line := fun _ hline => newline_notMem hline
  have htext : newline :: text ++ [newline] = marked newline (splitLines text) ++ [newline] := by
    rw [← marked_lines hne, joinLines_splitLines]
  have hpattern : marked newline needle ++ [newline] ≠ [] := by simp
  have hfound := fun index => found_iff index hneedle hlines hown
  have hshort : ∀ {line}, needle <+: (splitLines text).drop line → line < (splitLines text).length := by
    intro line hstarts
    by_contra hout
    rw [drop_of_length_le (by omega)] at hstarts
    exact hneedle (prefix_nil.mp hstarts)
  rw [htext, marked_lines hneedle, indexOf_eq_some hpattern, indexOf_eq_none hpattern]
  constructor
  · rintro ⟨⟨⟨-, hat⟩, hfirst⟩, hlater⟩
    obtain ⟨line, hlt, hindex, hstarts⟩ := (hfound index).mp hat
    refine ⟨line, ⟨hstarts, fun other hother => ?_⟩, hindex⟩
    have hotherAt := (hfound _).mpr ⟨other, hshort hother, rfl, hother⟩
    refine eq_of_length_marked (hshort hother).le hlt.le (Eq.trans ?_ hindex)
    by_contra hdiffers
    obtain hbefore | hafter := Nat.lt_or_gt_of_ne hdiffers
    · exact hfirst _ hbefore ⟨Nat.zero_le _, hotherAt⟩
    · exact hlater _ hafter hotherAt
  · rintro ⟨line, ⟨hstarts, honly⟩, hindex⟩
    have hsame : ∀ other,
        marked newline needle ++ [newline] <+:
          (marked newline (splitLines text) ++ [newline]).drop other → other = index := by
      intro other hother
      obtain ⟨otherLine, -, rfl, hotherPrefix⟩ := (hfound other).mp hother
      rw [honly otherLine hotherPrefix, hindex]
    refine ⟨⟨⟨Nat.zero_le _, (hfound index).mpr ⟨line, hshort hstarts, hindex, hstarts⟩⟩, ?_⟩, ?_⟩
    · exact fun other hlt hother => hlt.ne (hsame other hother.2)
    · intro other hlt hother
      have heq := hsame other hother
      omega

theorem needle_spec (before applied : Text) : (change (splitLines before) (splitLines applied)).needle ≠ [] ∧
      ∀ line ∈ (change (splitLines before) (splitLines applied)).needle, newline ∉ line := by
  obtain ⟨head, tail, -, hnew, hleft, hright⟩ := change_spans (splitLines before) (splitLines applied)
  constructor
  · intro hnil
    unfold Change.needle at hnil
    rw [append_eq_nil_iff, append_eq_nil_iff, hleft, hright] at hnil
    obtain ⟨⟨hhead, hremoved⟩, htail⟩ := hnil
    rw [hremoved] at hnew
    simp only [toList_eq_nil_iff, getLast?_eq_none_iff, head?_eq_none_iff] at hhead htail
    rw [hhead, htail] at hnew
    exact splitOn_ne_nil newline applied hnew
  · intro line hline
    have hown : line ∈ splitLines applied := by
      rw [hnew]
      unfold Change.needle at hline
      rw [hleft, hright] at hline
      simp only [mem_append, mem_toList] at hline ⊢
      obtain (hline | hline) | hline := hline
      · exact .inl (.inl (mem_of_getLast? hline))
      · exact .inl (.inr hline)
      · exact .inr (mem_of_head? hline)
    exact newline_notMem hown

theorem inverse_eq_some (before result : Text) (hne : applied ≠ current) :
    inverseLearningChange before applied current = some result ↔
      ∃ line, StandsOnce (change (splitLines before) (splitLines applied)).needle (splitLines current) line ∧
        result = joinLines (splice (splitLines current)
          (line + (change (splitLines before) (splitLines applied)).left.length)
          (change (splitLines before) (splitLines applied)).removed.length
          (change (splitLines before) (splitLines applied)).replacement) := by
  obtain ⟨hneedle, hlines⟩ := needle_spec before applied
  unfold inverseLearningChange
  rw [if_neg hne]
  dsimp only
  rw [if_neg hneedle]
  generalize change (splitLines before) (splitLines applied) = change at hneedle hlines ⊢
  have hsearch := fun index => search_iff current index hneedle hlines
  constructor
  · intro hresult
    split at hresult
    · cases hresult
    · next index hindex =>
      split at hresult
      · cases hresult
      · next hlater =>
        obtain ⟨line, honce, rfl⟩ := (hsearch index).mp ⟨hindex, by simpa using hlater⟩
        rw [line_at (honce.lt hneedle)] at hresult
        exact ⟨line, honce, (some.inj hresult).symm⟩
  · rintro ⟨line, honce, rfl⟩
    obtain ⟨hindex, hlater⟩ := (hsearch _).mpr ⟨line, honce, rfl⟩
    simp only [hindex, hlater, line_at (honce.lt hneedle), Bool.false_eq_true, if_false]

theorem splice_between (head removed tail replacement : List Text) :
    splice (head ++ removed ++ tail) head.length removed.length replacement = head ++ replacement ++ tail := by
  unfold splice
  rw [append_assoc head, take_left, ← drop_drop, drop_left, drop_left]

theorem StandsOnce.parts {change : Change} (h : StandsOnce change.needle lines index) :
    ∃ tail, lines = (lines.take index ++ change.left) ++ change.removed ++ (change.right ++ tail) ∧
      splice lines (index + change.left.length) change.removed.length change.replacement =
        (lines.take index ++ change.left) ++ change.replacement ++ (change.right ++ tail) := by
  obtain ⟨tail, htail⟩ := h.1
  have hlines : lines = (lines.take index ++ change.left) ++ change.removed ++ (change.right ++ tail) := by
    conv_lhs => rw [← take_append_drop index lines, ← htail]
    unfold Change.needle
    simp only [append_assoc]
  have hlength : (lines.take index ++ change.left).length = index + change.left.length ∨ lines.length < index := by
    rw [length_append, length_take]
    omega
  refine ⟨tail, hlines, ?_⟩
  obtain hlength | hout := hlength
  · conv_lhs => rw [hlines, ← hlength]
    exact splice_between _ _ _ _
  · rw [drop_of_length_le hout.le, append_eq_nil_iff] at htail
    have hone := h.2 (index + 1) (by rw [htail.1]; exact nil_prefix)
    omega

/-- A change is undone exactly where it stands once with its neighbours, by its old lines; so an
edit elsewhere stays, if it is one. -/
theorem inverse_undoes_change (before applied current : Text) :
    let change := change (splitLines before) (splitLines applied)
    (∃ head tail, splitLines before = head ++ change.left ++ change.replacement ++ change.right ++ tail ∧
      splitLines applied = head ++ change.needle ++ tail) ∧
    (applied = current → inverseLearningChange before applied current = some before) ∧
    (applied ≠ current → ∀ result, inverseLearningChange before applied current = some result ↔
      ∃ line, StandsOnce change.needle (splitLines current) line ∧
        result = joinLines
          (splice (splitLines current) (line + change.left.length) change.removed.length change.replacement)) ∧
    (applied ≠ current → ∀ result, inverseLearningChange before applied current = some result →
      ∃ head tail, current = joinLines (head ++ change.removed ++ tail) ∧
        result = joinLines (head ++ change.replacement ++ tail) ∧
        change.left <:+ head ∧ change.right <+: tail) ∧
    ∀ head tail result, (∀ line ∈ head ++ tail, newline ∉ line) →
      current = joinLines (head ++ change.needle ++ tail) →
      applied ≠ current → inverseLearningChange before applied current = some result →
      result = joinLines (head ++ change.left ++ change.replacement ++ change.right ++ tail) := by
  intro change
  have hresult := fun (hne : applied ≠ current) result => inverse_eq_some before result hne
  obtain ⟨hneedle, hlines⟩ := needle_spec before applied
  refine ⟨?_, ?_, hresult, ?_, ?_⟩
  · obtain ⟨head, tail, hold, hnew, hleft, hright⟩ := change_spans (splitLines before) (splitLines applied)
    have hhead : head = head.dropLast ++ change.left := by
      obtain rfl | ⟨rest, last, rfl⟩ := eq_nil_or_concat head
      · simp [change, hleft]
      · simp [change, hleft]
    have htail : tail = change.right ++ tail.tail := by
      cases tail with
      | nil | cons => simp [change, hright]
    refine ⟨head.dropLast, tail.tail, ?_, ?_⟩
    · rw [hold, append_assoc _ change.right, ← htail, ← hhead]
    · rw [hnew]
      conv_lhs => rw [hhead, htail]
      unfold Change.needle
      simp only [append_assoc, change]
  · intro heq
    unfold inverseLearningChange
    rw [if_pos heq]
  · intro hne result hsome
    obtain ⟨line, honce, rfl⟩ := (hresult hne result).mp hsome
    obtain ⟨tail, hcurrent, hspliced⟩ := honce.parts
    refine ⟨_, _, ?_, by rw [hspliced], suffix_append _ _, prefix_append _ _⟩
    rw [← hcurrent, joinLines_splitLines]
  · intro head tail result hedit hcurrent hne hsome
    obtain ⟨line, honce, rfl⟩ := (hresult hne result).mp hsome
    have hsplit : splitLines current = head ++ change.needle ++ tail := by
      rw [hcurrent]
      refine splitLines_joinLines (fun line hline => ?_) (by simp [hneedle, change])
      simp only [mem_append] at hline hedit
      obtain (hline | hline) | hline := hline
      · exact hedit line (.inl hline)
      · exact hlines line hline
      · exact hedit line (.inr hline)
    have hline : head.length = line := by
      refine honce.2 head.length ?_
      rw [hsplit, append_assoc, drop_left]
      exact prefix_append _ _
    have hparts : head ++ change.needle ++ tail = (head ++ change.left) ++ change.removed ++
        (change.right ++ tail) := by
      unfold Change.needle
      simp only [append_assoc]
    have hlength : line + change.left.length = (head ++ change.left).length := by rw [length_append, hline]
    rw [hsplit, hparts, hlength, splice_between, ← append_assoc]

/-- Lines taken away in one place and put back in another give the applied text again, and undoing
it gives the text before. -/
theorem moved_lines_are_no_edit :
    let before := lit "l" ++ newline :: lit "r" ++ newline :: lit "l"
    let applied := before ++ newline :: lit "r"
    let change := change (splitLines before) (splitLines applied)
    ∃ head tail result, (∀ line ∈ head ++ tail, newline ∉ line) ∧
      applied = joinLines (head ++ change.needle ++ tail) ∧
      inverseLearningChange before applied applied = some result ∧
      result ≠ joinLines (head ++ change.left ++ change.replacement ++ change.right ++ tail) :=
  ⟨[], [lit "l", lit "r"], lit "l" ++ newline :: lit "r" ++ newline ::
    lit "l", by decide, by decide, by decide, by decide⟩

end

end ArdurBot.Learning
