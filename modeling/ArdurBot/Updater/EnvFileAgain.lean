import ArdurBot.Updater.EnvFileOk

/-!
# An environment file that is written again

The text that an update leaves is its lines, each with a break after it. From that follow the lines
that are kept, those that are read, and when the same update changes nothing more.
-/

namespace ArdurBot.Updater

open List Utf16

def endsInReturn (line : Text) : Bool := line.getLast? = some carriageReturn

/-- What is split off where only the line feed was put after the line. -/
def withoutReturn (line : Text) : Text := if endsInReturn line then line.dropLast else line

def ended (brk : Text) (lines : List Text) : Text := lines.flatMap fun line => line ++ brk

theorem ended_cons (brk line : Text) (lines : List Text) :
    ended brk (line :: lines) = line ++ (brk ++ ended brk lines) := by
  unfold ended
  rw [flatMap_cons, append_assoc]

theorem splitLines_feed {line : Text} (h : newline ∉ line) (rest : Text) :
    splitLines (line ++ newline :: rest) = withoutReturn line :: splitLines rest := by
  induction line with
  | nil => rw [nil_append, splitLines, if_pos (Eq.refl newline)]; rfl
  | cons u line ih =>
    rw [mem_cons, not_or] at h
    rw [cons_append, splitLines, if_neg fun hu => h.1 hu.symm]
    cases line with
    | nil =>
      rw [ih h.2, nil_append, head?_cons]
      by_cases hu : u = carriageReturn
      · simp [hu, withoutReturn, endsInReturn]
      · simp [hu, consUnitOfLine, withoutReturn, endsInReturn]
    | cons v line =>
      have hv : v ≠ newline := fun hv => h.2 (hv ▸ mem_cons_self)
      rw [ih h.2, if_neg (by simp [hv])]
      have hlast : endsInReturn (u :: v :: line) = endsInReturn (v :: line) := by
        unfold endsInReturn
        rw [getLast?_cons_cons]
      unfold withoutReturn
      rw [hlast]
      split <;> rfl

theorem withoutReturn_concat (line : Text) : withoutReturn (line ++ [carriageReturn]) = line := by
  simp [withoutReturn, endsInReturn]

section

variable {lines : List Text} (h : ∀ line ∈ lines, newline ∉ line)
include h

theorem splitLines_ended_feed :
    splitLines (ended (lit "\n") lines) = lines.map withoutReturn ++ [[]] := by
  induction lines with
  | nil => rfl
  | cons line lines ih =>
    have htext : ended (lit "\n") (line :: lines) = line ++ newline :: ended (lit "\n") lines := ended_cons ..
    rw [htext, splitLines_feed (h line mem_cons_self), ih fun other hother => h other (mem_cons_of_mem _ hother)]
    rfl

theorem splitLines_ended_return :
    splitLines (ended (lit "\r\n") lines) = lines ++ [[]] := by
  induction lines with
  | nil => rfl
  | cons line lines ih =>
    have hline : newline ∉ line ++ [carriageReturn] := by
      rw [mem_append, not_or]
      exact ⟨h line mem_cons_self, by decide⟩
    have htext : ended (lit "\r\n") (line :: lines) =
        line ++ [carriageReturn] ++ newline :: ended (lit "\r\n") lines := by
      rw [ended_cons, append_assoc]
      rfl
    rw [htext, splitLines_feed hline, withoutReturn_concat, ih fun other hother => h other (mem_cons_of_mem _ hother)]
    rfl

end

theorem lineBreak_cases (contents : Text) :
    lineBreak contents = lit "\n" ∨ lineBreak contents = lit "\r\n" := by
  unfold lineBreak
  split
  · exact .inr (Eq.refl _)
  · exact .inl (Eq.refl _)

theorem lineBreak_eq_concat (contents : Text) : ∃ before, lineBreak contents = before ++ [newline] := by
  obtain hbreak | hbreak := lineBreak_cases contents
  · exact ⟨[], hbreak⟩
  · exact ⟨[carriageReturn], hbreak⟩

section

variable (brk : Text) (lines : List Text) (line : Text)

theorem ended_concat :
    ended brk (lines ++ [line]) = ended brk lines ++ (line ++ brk) := by
  unfold ended
  rw [flatMap_append, flatMap_singleton]

theorem intercalate_eq_ended : brk.intercalate (lines ++ [line]) = ended brk lines ++ line := by
  induction lines with
  | nil => exact intercalate_singleton
  | cons first lines ih =>
    have hne : lines ++ [line] ≠ [] := append_ne_nil_of_right_ne_nil _ (cons_ne_nil _ _)
    rw [cons_append, intercalate_cons_of_ne_nil hne, ih, ended_cons, append_assoc, append_assoc, append_assoc]

end

/-- The lines that are ended: a last blank line stands for the break before it. -/
def endedLines (lines : List Text) : List Text :=
  if lines.getLast? = some [] && lines.dropLast ≠ [] then lines.dropLast else lines

theorem endedLines_concat (lines : List Text) (line : Text) :
    endedLines (lines ++ [line]) = if line = [] && lines ≠ [] then lines else lines ++ [line] := by
  simp [endedLines]

theorem rendered_eq {brk before : Text} (hbrk : brk = before ++ [newline]) {lines : List Text}
    (hne : lines ≠ []) (hlines : ∀ line ∈ lines, newline ∉ line) :
    (if brk <:+ brk.intercalate lines then brk.intercalate lines else brk.intercalate lines ++ brk) =
      ended brk (endedLines lines) := by
  obtain ⟨lines, line, rfl⟩ : ∃ init last, lines = init ++ [last] :=
    ⟨lines.dropLast, lines.getLast hne, (dropLast_append_getLast hne).symm⟩
  rw [intercalate_eq_ended, endedLines_concat]
  by_cases hblank : line = [] ∧ lines ≠ []
  · obtain ⟨hline, hfirst⟩ := hblank
    obtain ⟨others, last, rfl⟩ : ∃ init last, lines = init ++ [last] :=
      ⟨lines.dropLast, lines.getLast hfirst, (dropLast_append_getLast hfirst).symm⟩
    have hsuffix : brk <:+ ended brk (others ++ [last]) ++ line := by
      rw [hline, append_nil, ended_concat, ← append_assoc]
      exact suffix_append _ _
    rw [if_pos hsuffix, hline, append_nil, if_pos (by simp)]
  · have hnot : ¬ brk <:+ ended brk lines ++ line := by
      rintro ⟨rest, hrest⟩
      rw [hbrk, ← append_assoc] at hrest
      have hlast := congrArg getLast? hrest
      rw [getLast?_concat] at hlast
      by_cases hline : line = []
      · have hfirst : lines = [] := by
          by_contra hother
          exact hblank ⟨hline, hother⟩
        rw [hline, hfirst] at hlast
        cases hlast
      · rw [getLast?_append_of_ne_nil _ hline] at hlast
        exact hlines line (by simp) (mem_of_getLast? hlast.symm)
    have hkept : ¬ (decide (line = []) && decide (lines ≠ [])) := by
      rw [Bool.and_eq_true, decide_eq_true_iff, decide_eq_true_iff]
      exact hblank
    rw [if_neg hnot, if_neg hkept, ended_concat, append_assoc]

theorem mem_endedLines {lines : List Text} {line : Text} (h : line ≠ []) :
    line ∈ endedLines lines ↔ line ∈ lines := by
  unfold endedLines
  split
  · next hblank =>
    rw [Bool.and_eq_true, decide_eq_true_iff, decide_eq_true_iff] at hblank
    have hlines := dropLast_append_getLast? [] hblank.1
    conv_rhs => rw [← hlines]
    simp [h]
  · exact Iff.rfl

theorem mem_of_mem_endedLines {lines : List Text} {line : Text} (h : line ∈ endedLines lines) :
    line ∈ lines := by
  unfold endedLines at h
  split at h
  · exact dropLast_subset _ h
  · exact h

/-- A line as it is split off from the break after it. -/
def splitOff (brk line : Text) : Text := if brk = lit "\n" then withoutReturn line else line

theorem splitLines_ended {brk : Text} (hbrk : brk = lit "\n" ∨ brk = lit "\r\n") {lines : List Text}
    (h : ∀ line ∈ lines, newline ∉ line) :
    splitLines (ended brk lines) = lines.map (splitOff brk) ++ [[]] := by
  obtain rfl | rfl := hbrk
  · rw [splitLines_ended_feed h]
    rfl
  · have hsame : splitOff (lit "\r\n") = id := by
      funext line
      exact if_neg (by decide)
    rw [splitLines_ended_return h, hsame, map_id]

theorem withoutReturn_chomped (line : Text) : Chomped (withoutReturn line) line := by
  unfold withoutReturn
  split
  · next hreturn =>
    refine ⟨line.dropLast, 0, 1, by simp, ?_⟩
    exact (dropLast_append_getLast? _ (of_decide_eq_true hreturn)).symm
  · exact Chomped.refl line

theorem splitOff_chomped (brk line : Text) : Chomped (splitOff brk line) line := by
  unfold splitOff
  split
  · exact withoutReturn_chomped line
  · exact Chomped.refl line

theorem splitOff_of_not {brk line : Text} (h : endsInReturn line = false) : splitOff brk line = line := by
  unfold splitOff withoutReturn
  rw [h, if_neg Bool.false_ne_true, ite_self]

section

variable {assignments : List (Text × Text)} {contents next : Text} {lines : List Text} {line : Text}
  {entry : Text × Text}

section

variable (assignments : List (Text × Text)) (line : Text)

def assignedBy : Option (Text × Text) :=
  (managedKey line).bind fun key => assignments.find? fun entry => entry.1 = key

theorem rewriteLine_eq :
    rewriteLine assignments line = ((assignedBy assignments line).map assignment).getD line := by
  unfold rewriteLine assignedBy
  cases (managedKey line).bind fun key => assignments.find? fun entry => entry.1 = key <;> rfl

end

theorem assignedBy_eq_some (h : Writable assignments) :
    assignedBy assignments line = some entry ↔ entry ∈ assignments ∧ managedKey line = some entry.1 := by
  unfold assignedBy
  rw [Option.bind_eq_some_iff]
  constructor
  · rintro ⟨key, hkey, hfind⟩
    obtain ⟨hentry, hsame⟩ := (Table.find_eq_some h.keys).mp hfind
    exact ⟨hentry, by rw [hkey, hsame]⟩
  · rintro ⟨hentry, hkey⟩
    exact ⟨entry.1, hkey, (Table.find_eq_some h.keys).mpr ⟨hentry, Eq.refl _⟩⟩

theorem assignedBy_assignment (h : Writable assignments) (hentry : entry ∈ assignments) :
    assignedBy assignments (assignment entry) = some entry :=
  (assignedBy_eq_some h).mpr ⟨hentry, managedKey_assignment (h.isKey entry hentry) entry.2⟩

theorem assignedBy_rewriteLine (h : Writable assignments) (line : Text) :
    assignedBy assignments (rewriteLine assignments line) = assignedBy assignments line := by
  rw [rewriteLine_eq]
  cases hassigned : assignedBy assignments line with
  | none => exact hassigned
  | some entry => exact assignedBy_assignment h ((assignedBy_eq_some h).mp hassigned).1

theorem Chomped.assignedBy {line line' : Text} (h : Chomped line line') :
    assignedBy assignments line = assignedBy assignments line' := by
  unfold Updater.assignedBy
  rw [h.managedKey]

theorem not_return_assignment (h : Writable assignments) (hentry : entry ∈ assignments) :
    endsInReturn (assignment entry) = false := by
  rw [Bool.eq_false_iff]
  intro hreturn
  have hmem : carriageReturn ∈ assignment entry := mem_of_getLast? (of_decide_eq_true hreturn)
  obtain hkey | hvalue := mem_append.mp hmem
  · exact absurd ((IsEnvKey.units (h.isKey entry hentry)).2 _ hkey) (by decide)
  · obtain hequals | hvalue := mem_cons.mp hvalue
    · exact absurd hequals (by decide)
    · exact absurd (h.plain entry hentry _ hvalue).1 (by decide)

theorem assignment_ne_nil (entry : Text × Text) : assignment entry ≠ [] :=
  append_ne_nil_of_right_ne_nil _ (cons_ne_nil _ _)

/-- A line without the carriage returns at its end. -/
def chomp (line : Text) : Text := (line.reverse.dropWhile (· = carriageReturn)).reverse

/-- The lines that are not assigned to, up to their ends and the blank ones after them. -/
def otherLines (assignments : List (Text × Text)) (lines : List Text) : List Text :=
  withoutLastBlanks ((lines.filter fun line => (assignedBy assignments line).isNone).map chomp)

theorem chomp_splitOff (brk line : Text) : chomp (splitOff brk line) = chomp line := by
  unfold splitOff withoutReturn
  split
  · split
    · next hreturn =>
      obtain ⟨before, rfl⟩ := getLast?_eq_some_iff.mp (of_decide_eq_true hreturn)
      simp [chomp]
    · exact Eq.refl _
  · exact Eq.refl _

section

variable (lines : List Text)

theorem withoutLastBlanks_concat (line : Text) :
    withoutLastBlanks (lines ++ [line]) = if line = [] then withoutLastBlanks lines else lines ++ [line] := by
  unfold withoutLastBlanks
  rw [reverse_append, reverse_singleton, singleton_append, dropWhile_cons]
  by_cases hline : line = [] <;> simp [hline]

theorem otherLines_concat_nil : otherLines assignments (lines ++ [[]]) = otherLines assignments lines := by
  have hnone : (assignedBy assignments []).isNone := Eq.refl true
  have hchomp : chomp [] = [] := Eq.refl []
  unfold otherLines
  rw [filter_append, filter_cons_of_pos (by exact hnone), filter_nil, map_append, map_singleton,
    hchomp, withoutLastBlanks_concat, if_pos (Eq.refl _)]

theorem otherLines_withoutLastBlanks :
    otherLines assignments (withoutLastBlanks lines) = otherLines assignments lines := by
  induction lines using reverseRecOn with
  | nil => exact Eq.refl _
  | append_singleton lines line ih =>
    rw [withoutLastBlanks_concat]
    split
    · next hblank => rw [ih, hblank, otherLines_concat_nil]
    · exact Eq.refl _

theorem otherLines_append_assigned {extra : List Text}
    (h : ∀ line ∈ extra, (assignedBy assignments line).isSome) :
    otherLines assignments (lines ++ extra) = otherLines assignments lines := by
  have hnone : extra.filter (fun line => (assignedBy assignments line).isNone) = [] := by
    rw [filter_eq_nil_iff]
    intro line hline
    rw [Option.isNone_iff_eq_none]
    exact Option.ne_none_iff_isSome.mpr (h line hline)
  unfold otherLines
  rw [filter_append, hnone, append_nil]

end

theorem otherLines_map {f : Text → Text}
    (hf : ∀ line, assignedBy assignments (f line) = assignedBy assignments line)
    (hchomp : ∀ line, assignedBy assignments line = none → chomp (f line) = chomp line) (lines : List Text) :
    otherLines assignments (lines.map f) = otherLines assignments lines := by
  unfold otherLines
  rw [filter_map, map_map]
  have hsame : (fun line => (assignedBy assignments line).isNone) ∘ f = fun line =>
      (assignedBy assignments line).isNone := by
    funext line
    exact congrArg Option.isNone (hf line)
  rw [hsame]
  congr 1
  refine map_congr_left ?_
  intro line hline
  exact hchomp line (Option.isNone_iff_eq_none.mp (mem_filter.mp hline).2)

theorem otherLines_endedLines (lines : List Text) :
    otherLines assignments (endedLines lines) = otherLines assignments lines := by
  unfold endedLines
  split
  · next hblank =>
    rw [Bool.and_eq_true, decide_eq_true_iff] at hblank
    conv_rhs => rw [← dropLast_append_getLast? [] hblank.1]
    rw [otherLines_concat_nil]
  · exact Eq.refl _

theorem otherLines_updateLines (h : Writable assignments) (lines : List Text) :
    otherLines assignments (updateLines assignments lines) = otherLines assignments lines := by
  have hnext : otherLines assignments (lines.map (rewriteLine assignments)) = otherLines assignments lines := by
    refine otherLines_map (assignedBy_rewriteLine h) ?_ lines
    intro line hnone
    rw [rewriteLine_eq, hnone]
    rfl
  have hadded : ∀ line ∈ (pending assignments lines).map assignment, (assignedBy assignments line).isSome := by
    intro line hline
    obtain ⟨entry, hentry, rfl⟩ := mem_map.mp hline
    rw [assignedBy_assignment h (mem_of_mem_filter hentry)]
    rfl
  unfold updateLines
  split
  · exact hnext
  · rw [otherLines_append_assigned _ hadded, ← hnext, ← otherLines_withoutLastBlanks (lines.map _)]
    split
    · next hempty => rw [hempty]
    · exact otherLines_concat_nil _

theorem mem_withoutLastBlanks (h : line ≠ []) : line ∈ withoutLastBlanks lines ↔ line ∈ lines := by
  induction lines using reverseRecOn with
  | nil => exact Iff.rfl
  | append_singleton lines last ih =>
    rw [withoutLastBlanks_concat]
    split
    · next hblank => simp [ih, hblank, h]
    · exact Iff.rfl

theorem mem_updateLines (h : line ∈ updateLines assignments lines) :
    (∃ old ∈ lines, line = rewriteLine assignments old) ∨ line = [] ∨ ∃ entry ∈ assignments,
      line = assignment entry := by
  by_cases hblank : line = []
  · exact .inr (.inl hblank)
  have hmapped : line ∈ lines.map (rewriteLine assignments) → ∃ old ∈ lines, line = rewriteLine assignments old := by
    intro hmem
    obtain ⟨old, hold, hline⟩ := mem_map.mp hmem
    exact ⟨old, hold, hline.symm⟩
  unfold updateLines at h
  split at h
  · exact .inl (hmapped h)
  · obtain hbefore | hadded := mem_append.mp h
    · split at hbefore
      · cases hbefore
      · obtain hold | hseparator := mem_append.mp hbefore
        · exact .inl (hmapped ((mem_withoutLastBlanks hblank).mp hold))
        · exact absurd (mem_singleton.mp hseparator) hblank
    · obtain ⟨entry, hentry, hline⟩ := mem_map.mp hadded
      exact .inr (.inr ⟨entry, mem_of_mem_filter hentry, hline.symm⟩)

theorem mem_updateLines_of_mapped (h : line ∈ lines.map (rewriteLine assignments)) (hne : line ≠ []) :
    line ∈ updateLines assignments lines := by
  unfold updateLines
  dsimp only
  split
  · exact h
  · have hkept := (mem_withoutLastBlanks hne).mpr h
    rw [if_neg (ne_nil_of_mem hkept)]
    exact mem_append_left _ (mem_append_left _ hkept)

theorem assignment_mem_updateLines (h : Writable assignments) (hentry : entry ∈ assignments)
    (lines : List Text) :
    assignment entry ∈ updateLines assignments lines := by
  by_cases hmanaged : ∃ line ∈ lines, managedKey line = some entry.1
  · obtain ⟨line, hline, hkey⟩ := hmanaged
    refine mem_updateLines_of_mapped ?_ (assignment_ne_nil entry)
    exact mem_map.mpr ⟨line, hline, rewriteLine_managed h hentry hkey⟩
  · have hpending : entry ∈ pending assignments lines := by
      unfold pending
      rw [mem_filter, Bool.not_eq_true', any_eq_false]
      exact ⟨hentry, fun line hline hkey => hmanaged ⟨line, hline, of_decide_eq_true hkey⟩⟩
    unfold updateLines
    rw [if_neg (ne_nil_of_mem hpending)]
    exact mem_append_right _ (mem_map_of_mem hpending)

theorem eq_assignment_of_mem (h : Writable assignments) (hline : line ∈ updateLines assignments lines)
    (hassigned : assignedBy assignments line = some entry) : line = assignment entry := by
  obtain ⟨old, -, rfl⟩ | rfl | ⟨other, hother, rfl⟩ := mem_updateLines hline
  · rw [assignedBy_rewriteLine h] at hassigned
    rw [rewriteLine_eq, hassigned]
    rfl
  · cases hassigned
  · rw [assignedBy_assignment h hother] at hassigned
    rw [Option.some.inj hassigned]

/-- The lines of the new text that are ended. -/
def writtenLines (contents : Text) (assignments : List (Text × Text)) : List Text :=
  endedLines (updateLines assignments (splitLines contents))

section

variable (h : Writable assignments)
include h

theorem not_newline_writtenLines : ∀ line ∈ writtenLines contents assignments, newline ∉ line :=
  fun _ hline => not_newline_updateLines h (splitLines_ne_nil contents).2 _ (mem_of_mem_endedLines hline)

section

variable (hnext : upsertEnvAssignments contents assignments = some next)
include hnext

theorem eq_ended : next = ended (lineBreak contents) (writtenLines contents assignments) := by
  obtain ⟨hne, hlines⟩ := splitLines_ne_nil contents
  obtain ⟨before, hbrk⟩ := lineBreak_eq_concat contents
  have hwritten : updateLines assignments (splitLines contents) ≠ [] := updateLines_ne_nil hne
  have hrendered := rendered_eq hbrk hwritten (not_newline_updateLines h hlines)
  unfold upsertEnvAssignments at hnext
  split at hnext
  · exact (Option.some.inj hnext).symm.trans hrendered
  · cases hnext

theorem splitLines_next :
    splitLines next = (writtenLines contents assignments).map (splitOff (lineBreak contents)) ++ [[]] := by
  rw [eq_ended h hnext]
  exact splitLines_ended (lineBreak_cases contents) (not_newline_writtenLines h)

theorem written_of_mem
    (hline : line ∈ splitLines next) : line = [] ∨ ∃ written ∈ updateLines assignments (splitLines contents),
      line = splitOff (lineBreak contents) written := by
  rw [splitLines_next h hnext, mem_append, mem_map, mem_singleton] at hline
  obtain ⟨written, hwritten, rfl⟩ | hblank := hline
  · exact .inr ⟨written, mem_of_mem_endedLines hwritten, Eq.refl _⟩
  · exact .inl hblank

theorem eq_assignment_of_mem_next
    (hline : line ∈ splitLines next) (hassigned : assignedBy assignments line = some entry) :
    line = assignment entry := by
  obtain rfl | ⟨written, hwritten, rfl⟩ := written_of_mem h hnext hline
  · cases hassigned
  · rw [(splitOff_chomped _ written).assignedBy] at hassigned
    have hentry := ((assignedBy_eq_some h).mp hassigned).1
    rw [eq_assignment_of_mem h hwritten hassigned]
    exact splitOff_of_not (not_return_assignment h hentry)

theorem assignment_mem_next (hentry : entry ∈ assignments) : assignment entry ∈ splitLines next := by
  have hwritten := assignment_mem_updateLines h hentry (splitLines contents)
  rw [splitLines_next h hnext]
  refine mem_append_left _ (mem_map.mpr ⟨assignment entry, ?_, ?_⟩)
  · exact (mem_endedLines (assignment_ne_nil entry)).mpr hwritten
  · exact splitOff_of_not (not_return_assignment h hentry)

theorem otherLines_next :
    otherLines assignments (splitLines next) = otherLines assignments (splitLines contents) := by
  rw [splitLines_next h hnext, otherLines_concat_nil, otherLines_map]
  · exact (otherLines_endedLines _).trans (otherLines_updateLines h _)
  · exact fun line => (splitOff_chomped _ line).assignedBy
  · exact fun line _ => chomp_splitOff _ line

end

end

end

end ArdurBot.Updater
