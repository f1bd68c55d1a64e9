import ArdurBot.Updater.EnvFileAgain

/-!
# The laws of an update of the environment file

What an update writes is carried by every line that begins with its key, and other lines stay. It is
read where no other line assigns later, and the same update changes nothing more unless a lone
carriage return became a break.
-/

namespace ArdurBot.Updater

open List Utf16

variable {assignments : List (Text × Text)} {contents next : Text} {lines : List Text} {line : Text}
  {entry : Text × Text}

theorem isAccepted_of_upsert (h : upsertEnvAssignments contents assignments = some next) :
    assignments.all (fun entry => isEnvKey entry.1 && isEnvValue entry.2) = true := by
  unfold upsertEnvAssignments at h
  split at h
  · assumption
  · cases h

theorem writable_of_upsert (hkeys : (assignments.map Prod.fst).Nodup)
    (h : upsertEnvAssignments contents assignments = some next) : Writable assignments := by
  have haccepted : ∀ entry ∈ assignments, isEnvKey entry.1 ∧ isEnvValue entry.2 := fun entry hentry =>
    Bool.and_eq_true_iff.mp (all_eq_true.mp (isAccepted_of_upsert h) entry hentry)
  refine ⟨hkeys, fun entry hentry => (haccepted entry hentry).1, fun entry hentry u hu => ?_⟩
  have hvalue := (haccepted entry hentry).2
  unfold isEnvValue at hvalue
  rw [Bool.and_eq_true, all_eq_true] at hvalue
  exact isValueUnit_plain (hvalue.2 u hu)

/-- No line begins with the key, or the last line that assigns to it does, or that line has the
value already. -/
def ReadsLast (lines : List Text) (entry : Text × Text) : Prop :=
  (∃ line ∈ lines, managedKey line = some entry.1) →
    ∃ line ∈ lines.reverse.find? (reads entry.1), managedKey line = some entry.1 ∨
      lineValue entry.1 line = some entry.2

instance (lines : List Text) (entry : Text × Text) : Decidable (ReadsLast lines entry) :=
  inferInstanceAs (Decidable ((∃ line ∈ lines, _) → ∃ line ∈ lines.reverse.find? (reads entry.1), _))

theorem readEnvAssignment_next (h : Writable assignments)
    (hnext : upsertEnvAssignments contents assignments = some next)
    (key : Text) : readEnvAssignment next key = lastValue key (updateLines assignments (splitLines contents)) := by
  have hblank : lastValue key (updateLines assignments (splitLines contents) ++ [[]]) =
      lastValue key (updateLines assignments (splitLines contents)) := by
    unfold lastValue
    rw [foldl_append]
    exact Option.none_or
  unfold readEnvAssignment
  obtain hlines | hlines := lines_upsert h hnext
  · exact lastValue_chomped hlines key
  · exact (lastValue_chomped hlines key).trans hblank

theorem exists_last_reads {key : Text} (h : ∃ line ∈ lines, managedKey line = some key) :
    ∃ line, lines.reverse.find? (reads key) = some line := by
  obtain ⟨managed, hmem, hmanaged⟩ := h
  refine Option.isSome_iff_exists.mp (find?_isSome.mpr ⟨managed, mem_reverse.mpr hmem, ?_⟩)
  rw [reads_managed hmanaged, decide_eq_true (Eq.refl key)]

theorem lastValue_updateLines_iff (h : Writable assignments) (hentry : entry ∈ assignments) :
    lastValue entry.1 (updateLines assignments lines) = some entry.2 ↔ ReadsLast lines entry := by
  have hvalue := lineValue_assignment (h.isKey entry hentry) (h.plain entry hentry)
  by_cases hmanaged : ∃ line ∈ lines, managedKey line = some entry.1
  · obtain ⟨line, hlast⟩ := exists_last_reads hmanaged
    have hreads : ReadsLast lines entry ↔ managedKey line = some entry.1 ∨ lineValue entry.1 line = some entry.2 := by
      unfold ReadsLast
      rw [hlast]
      simp [hmanaged]
    obtain ⟨managed, hmem, hkey⟩ := hmanaged
    rw [hreads, (lastLine_rewritten h hlast hmem hkey).value]
    by_cases hline : managedKey line = some entry.1
    · rw [rewriteLine_managed h hentry hline]
      exact iff_of_true hvalue (.inl hline)
    · have hunmanaged : managedKey line = none := by
        cases hother : managedKey line with
        | none => rfl
        | some other =>
          have hfound := find?_some hlast
          rw [reads_managed hother, decide_eq_true_iff] at hfound
          exact absurd (hfound ▸ hother) hline
      have hsame : rewriteLine assignments line = line := by
        unfold rewriteLine
        rw [hunmanaged]
        rfl
      rw [hsame, or_iff_right hline]
  · have hnone : ∀ line ∈ lines, managedKey line ≠ some entry.1 := fun line hline hkey => hmanaged ⟨line, hline, hkey⟩
    have hlast : LastLine entry.1 (assignment entry) (updateLines assignments lines) :=
      lastLine_update h hentry (.inl hnone)
    rw [hlast.value]
    exact iff_of_true hvalue fun hsome => absurd hsome hmanaged

theorem isInfix_feed_iff {line : Text} (h : newline ∉ line) (rest : Text) :
    lit "\r\n" <:+: line ++ newline :: rest ↔ endsInReturn line ∨ lit "\r\n" <:+: rest := by
  induction line with
  | nil =>
    rw [nil_append, infix_cons_iff, or_iff_right fun ⟨_, hafter⟩ => absurd (cons.inj hafter).1 (by decide)]
    simp [endsInReturn]
  | cons u line ih =>
    rw [mem_cons, not_or] at h
    have hpair : lit "\r\n" = [carriageReturn, newline] := by decide
    rw [cons_append, infix_cons_iff, ih h.2]
    cases line with
    | nil => simp [endsInReturn, hpair, eq_comm]
    | cons v line =>
      have hv : newline ≠ v := fun hv => h.2 (hv ▸ mem_cons_self)
      have hlast : endsInReturn (u :: v :: line) = endsInReturn (v :: line) := by
        unfold endsInReturn
        rw [getLast?_cons_cons]
      simp [hlast, hpair, hv]

theorem isInfix_ended_feed_iff {lines : List Text} (h : ∀ line ∈ lines, newline ∉ line) :
    lit "\r\n" <:+: ended (lit "\n") lines ↔ ∃ line ∈ lines, endsInReturn line := by
  induction lines with
  | nil =>
    have hnil : ¬ lit "\r\n" <:+: [] := by decide
    simpa [ended] using hnil
  | cons line lines ih =>
    have htext : ended (lit "\n") (line :: lines) = line ++ newline :: ended (lit "\n") lines := ended_cons ..
    rw [htext, isInfix_feed_iff (h line mem_cons_self), ih fun other hother => h other (mem_cons_of_mem _ hother)]
    simp

theorem isInfix_ended_return {lines : List Text} (hne : lines ≠ []) :
    lit "\r\n" <:+: ended (lit "\r\n") lines := by
  cases lines with
  | nil => exact absurd (Eq.refl _) hne
  | cons line lines =>
    rw [ended_cons]
    exact ⟨line, _, append_assoc ..⟩

theorem endsInReturn_dropLast (h : ¬ lit "\r\n" <:+: contents) :
    ∀ line ∈ (splitLines contents).dropLast, endsInReturn line = false := by
  induction hlength : contents.length using Nat.strong_induction_on generalizing contents with
  | _ length ih =>
    by_cases hfeed : newline ∈ contents
    · obtain ⟨first, rest, rfl, hfirst⟩ := eq_append_cons_of_mem hfeed
      rw [isInfix_feed_iff hfirst, not_or, Bool.not_eq_true] at h
      have hkept : withoutReturn first = first := by
        unfold withoutReturn
        rw [h.1, if_neg Bool.false_ne_true]
      have hshorter : rest.length < length := by
        rw [← hlength, length_append, length_cons]
        omega
      rw [splitLines_feed hfirst, hkept, dropLast_cons_of_ne_nil (splitLines_ne_nil rest).1]
      intro line hline
      obtain rfl | hrest := mem_cons.mp hline
      · exact h.1
      · exact ih rest.length hshorter h.2 (Eq.refl _) line hrest
    · rw [splitLines_noBreak hfeed]
      simp

/-- A last line that ends in a return without a break keeps it, so that it and the break become one
of another kind. -/
def EndsLone (contents : Text) (assignments : List (Text × Text)) : Prop :=
  lineBreak contents = lit "\n" ∧ ∃ last ∈ (splitLines contents).getLast?, endsInReturn last ∧
    assignedBy assignments last = none ∧ (assignments ≠ [] ∨ splitLines contents ≠ [last])

instance (contents : Text) (assignments : List (Text × Text)) : Decidable (EndsLone contents assignments) :=
  inferInstanceAs (Decidable (_ ∧ ∃ last ∈ (splitLines contents).getLast?, _))

theorem writtenLines_ne_nil : writtenLines contents assignments ≠ [] := by
  have hne : updateLines assignments (splitLines contents) ≠ [] :=
    updateLines_ne_nil (splitLines_ne_nil contents).1
  unfold writtenLines endedLines
  split
  · next hblank =>
    rw [Bool.and_eq_true] at hblank
    exact of_decide_eq_true hblank.2
  · exact hne

section

variable (h : Writable assignments) (hnext : upsertEnvAssignments contents assignments = some next)
include h hnext

theorem updateLines_next : updateLines assignments (splitLines next) = splitLines next := by
  have hrewrite : ∀ line ∈ splitLines next, rewriteLine assignments line = line := by
    intro line hline
    rw [rewriteLine_eq]
    cases hassigned : assignedBy assignments line with
    | none => rfl
    | some entry => exact (eq_assignment_of_mem_next h hnext hline hassigned).symm
  have hpending : pending assignments (splitLines next) = [] := by
    unfold pending
    rw [filter_eq_nil_iff]
    intro entry hentry
    rw [Bool.not_eq_true', any_eq_false]
    intro hnone
    refine hnone (assignment entry) (assignment_mem_next h hnext hentry) (decide_eq_true ?_)
    exact managedKey_assignment (h.isKey entry hentry) entry.2
  unfold updateLines
  rw [if_pos hpending, map_congr_left hrewrite, map_id']

theorem upsert_next : upsertEnvAssignments next assignments =
      some (ended (lineBreak next) ((writtenLines contents assignments).map (splitOff (lineBreak contents)))) := by
  obtain ⟨again, hagain⟩ : ∃ again, upsertEnvAssignments next assignments = some again := by
    unfold upsertEnvAssignments
    rw [if_pos (isAccepted_of_upsert hnext)]
    exact ⟨_, Eq.refl _⟩
  have hlines : writtenLines next assignments =
      (writtenLines contents assignments).map (splitOff (lineBreak contents)) := by
    have hne : (writtenLines contents assignments).map (splitOff (lineBreak contents)) ≠ [] := by
      rw [Ne, map_eq_nil_iff]
      exact writtenLines_ne_nil
    unfold writtenLines
    rw [updateLines_next h hnext, splitLines_next h hnext, endedLines_concat]
    exact if_pos (by simpa using hne)
  rw [hagain, eq_ended h hagain, hlines]

end

theorem ended_withoutReturn (lines : List Text) :
    (ended (lit "\n") lines).length ≤ (ended (lit "\r\n") (lines.map withoutReturn)).length ∧
      (ended (lit "\r\n") (lines.map withoutReturn) = ended (lit "\n") lines ↔
        ∀ line ∈ lines, endsInReturn line) := by
  induction lines with
  | nil => simp [ended]
  | cons line lines ih =>
    obtain ⟨hlength, hiff⟩ := ih
    have hfeed : (lit "\n").length = 1 := by decide
    have hpair : (lit "\r\n").length = 2 := by decide
    by_cases hreturn : endsInReturn line
    · obtain ⟨before, rfl⟩ := getLast?_eq_some_iff.mp (of_decide_eq_true hreturn)
      have hsame : before ++ [carriageReturn] ++ lit "\n" = before ++ lit "\r\n" := by
        rw [append_assoc]
        rfl
      have hcons : ended (lit "\n") ((before ++ [carriageReturn]) :: lines) =
          before ++ lit "\r\n" ++ ended (lit "\n") lines := by
        rw [ended_cons, ← append_assoc, hsame]
      rw [map_cons, withoutReturn_concat, hcons, ended_cons, ← append_assoc]
      constructor
      · simp only [length_append]
        omega
      · rw [append_cancel_left_eq, hiff, forall_mem_cons, and_iff_right hreturn]
    · have hkept : withoutReturn line = line := by
        unfold withoutReturn
        rw [if_neg hreturn]
      rw [map_cons, hkept, ended_cons, ended_cons]
      have hlonger : (line ++ (lit "\n" ++ ended (lit "\n") lines)).length <
          (line ++ (lit "\r\n" ++ ended (lit "\r\n") (lines.map withoutReturn))).length := by
        simp only [length_append, hfeed, hpair]
        omega
      refine ⟨hlonger.le, iff_of_false ?_ ?_⟩
      · intro hsame
        exact absurd (congrArg length hsame) hlonger.ne'
      · exact fun hall => hreturn (hall line mem_cons_self)

theorem writtenLines_nil {last : Text} (hend : (splitLines contents).getLast? = some last) (hne : last ≠ []) :
    writtenLines contents [] = splitLines contents := by
  have hrewrite : rewriteLine [] = id := by
    funext line
    rw [rewriteLine_eq]
    cases hassigned : assignedBy [] line with
    | none => rfl
    | some entry =>
      obtain ⟨key, -, hfind⟩ := Option.bind_eq_some_iff.mp hassigned
      cases hfind
  have hupdate : updateLines [] (splitLines contents) = splitLines contents := by
    unfold updateLines
    rw [if_pos (by rfl), hrewrite, map_id]
  obtain ⟨before, hlines⟩ := getLast?_eq_some_iff.mp hend
  unfold writtenLines
  rw [hupdate, hlines, endedLines_concat]
  exact if_neg (by simp [hne])

section

variable (h : Writable assignments)
include h

theorem mem_of_endsInReturn (hline : line ∈ writtenLines contents assignments) (hreturn : endsInReturn line) :
    line ∈ splitLines contents ∧ assignedBy assignments line = none := by
  obtain ⟨old, hold, rfl⟩ | rfl | ⟨entry, hentry, rfl⟩ := mem_updateLines (mem_of_mem_endedLines hline)
  · cases hassigned : assignedBy assignments old with
    | none =>
      have hsame : rewriteLine assignments old = old := by
        rw [rewriteLine_eq, hassigned]
        rfl
      rw [hsame]
      exact ⟨hold, hassigned⟩
    | some entry =>
      rw [rewriteLine_eq, hassigned, Option.map_some, Option.getD_some,
        not_return_assignment h ((assignedBy_eq_some h).mp hassigned).1] at hreturn
      cases hreturn
  · cases hreturn
  · rw [not_return_assignment h hentry] at hreturn
    cases hreturn

/-- With a feed after each line, some line ends in a return, and not all do, exactly where a lone
return is at the end. -/
theorem endsLone_iff (hfeed : lineBreak contents = lit "\n") : EndsLone contents assignments ↔
    (∃ line ∈ writtenLines contents assignments, endsInReturn line) ∧
      ¬ ∀ line ∈ writtenLines contents assignments, endsInReturn line := by
  have hnoPair : ¬ lit "\r\n" <:+: contents := by
    intro hpair
    unfold lineBreak at hfeed
    rw [if_pos hpair] at hfeed
    exact absurd hfeed (by decide)
  have hlines := (dropLast_append_getLast (splitLines_ne_nil contents).1).symm
  have hinit := endsInReturn_dropLast hnoPair
  generalize (splitLines contents).dropLast = init at hlines hinit
  generalize (splitLines contents).getLast _ = last at hlines
  have hend : (splitLines contents).getLast? = some last := by rw [hlines, getLast?_concat]
  have hblank : endsInReturn [] = false := rfl
  have hat : ∀ line ∈ writtenLines contents assignments, endsInReturn line →
      line = last ∧ assignedBy assignments line = none := by
    intro line hline hreturn
    obtain ⟨hmem, hassigned⟩ := mem_of_endsInReturn h hline hreturn
    rw [hlines, mem_append, mem_singleton] at hmem
    refine ⟨hmem.resolve_left fun hbefore => ?_, hassigned⟩
    rw [hinit line hbefore] at hreturn
    cases hreturn
  have hwritten : ∀ line, line ∈ (splitLines contents).map (rewriteLine assignments) → line ≠ [] →
      line ∈ writtenLines contents assignments := fun line hmem hne =>
    (mem_endedLines hne).mpr (mem_updateLines_of_mapped hmem hne)
  constructor
  · rintro ⟨-, other, hother, hreturn, hassigned, hmore⟩
    have hsame : last = other := Option.some.inj (hend.symm.trans hother)
    subst hsame
    have hne : last ≠ [] := by
      rintro rfl
      rw [hblank] at hreturn
      cases hreturn
    have hkept : rewriteLine assignments last = last := by
      rw [rewriteLine_eq, hassigned]
      rfl
    refine ⟨⟨last, hwritten last ?_ hne, hreturn⟩, ?_⟩
    · refine mem_map.mpr ⟨last, ?_, hkept⟩
      rw [hlines]
      exact mem_append_right _ mem_cons_self
    · intro hall
      by_cases hnone : assignments = []
      · subst hnone
        rw [writtenLines_nil hend hne, hlines] at hall
        have hothers : init = [] := by
          refine eq_nil_iff_forall_not_mem.mpr fun line hline => ?_
          have hreturn' := hall line (mem_append_left _ hline)
          rw [hinit line hline] at hreturn'
          cases hreturn'
        rw [hothers] at hlines
        exact (hmore.resolve_left fun hassigning => hassigning rfl) hlines
      · obtain ⟨entry, hentry⟩ := exists_mem_of_ne_nil _ hnone
        have hmem : assignment entry ∈ writtenLines contents assignments :=
          (mem_endedLines (assignment_ne_nil entry)).mpr (assignment_mem_updateLines h hentry _)
        have hreturn' := hall _ hmem
        rw [not_return_assignment h hentry] at hreturn'
        cases hreturn'
  · rintro ⟨⟨line, hline, hreturn⟩, hnotAll⟩
    obtain ⟨rfl, hassigned⟩ := hat line hline hreturn
    refine ⟨hfeed, line, hend, hreturn, hassigned, ?_⟩
    by_contra hless
    obtain ⟨hnone, honly⟩ : assignments = [] ∧ splitLines contents = [line] := by
      rw [not_or, not_not, not_not] at hless
      exact hless
    subst hnone
    have hne : line ≠ [] := by
      rintro rfl
      cases hreturn
    rw [writtenLines_nil hend hne, honly] at hnotAll
    exact hnotAll fun other hother => mem_singleton.mp hother ▸ hreturn

theorem upsert_again_iff (hnext : upsertEnvAssignments contents assignments = some next) :
    upsertEnvAssignments next assignments = some next ↔ ¬ EndsLone contents assignments := by
  have hlines := @not_newline_writtenLines assignments contents h
  have hended := eq_ended h hnext
  have hne := @writtenLines_ne_nil assignments contents
  rw [upsert_next h hnext]
  obtain hfeed | hpair := lineBreak_cases contents
  · have hsplit : splitOff (lit "\n") = withoutReturn := by
      funext line
      exact if_pos (Eq.refl _)
    have hpair_iff := isInfix_ended_feed_iff hlines
    rw [endsLone_iff h hfeed, not_and_not_right, hended, hfeed, hsplit, Option.some.injEq]
    by_cases hsome : ∃ line ∈ writtenLines contents assignments, endsInReturn line
    · have hbreak : lineBreak (ended (lit "\n") (writtenLines contents assignments)) = lit "\r\n" :=
        if_pos (hpair_iff.mpr hsome)
      rw [hbreak, (ended_withoutReturn _).2]
      exact ⟨fun hall _ => hall, fun hall => hall hsome⟩
    · have hbreak : lineBreak (ended (lit "\n") (writtenLines contents assignments)) = lit "\n" :=
        if_neg fun hinside => hsome (hpair_iff.mp hinside)
      have hkept : (writtenLines contents assignments).map withoutReturn = writtenLines contents assignments := by
        refine (map_congr_left fun line hline => ?_).trans (map_id _)
        exact if_neg fun hreturn => hsome ⟨line, hline, hreturn⟩
      rw [hbreak, hkept]
      exact iff_of_true (Eq.refl _) fun hreturn => absurd hreturn hsome
  · have hsplit : splitOff (lit "\r\n") = id := by
      funext line
      exact if_neg (by decide)
    have hbreak : lineBreak next = lit "\r\n" := by
      rw [hended, hpair]
      exact if_pos (isInfix_ended_return hne)
    rw [hbreak, hpair, hsplit, map_id, ← hpair, ← hended]
    refine iff_of_true (Eq.refl _) ?_
    rintro ⟨hfeed, -⟩
    rw [hpair] at hfeed
    exact absurd hfeed (by decide)

end

structure Upserted (contents : Text) (assignments : List (Text × Text)) (next : Text) : Prop where
  carried : ∀ entry ∈ assignments,
    (∀ line ∈ splitLines next, managedKey line = some entry.1 → line = assignment entry) ∧
      ∃ line ∈ splitLines next, managedKey line = some entry.1
  read : ∀ entry ∈ assignments, readEnvAssignment next entry.1 = some entry.2
  kept : otherLines assignments (splitLines next) = otherLines assignments (splitLines contents)
  again : upsertEnvAssignments next assignments = some next

/-- **An update is what it should be** exactly when no line that only the reader knows wins, and no
lone carriage return is at the end. -/
theorem upserted_iff (hkeys : (assignments.map Prod.fst).Nodup)
    (hnext : upsertEnvAssignments contents assignments = some next) :
    Upserted contents assignments next ↔
      (∀ entry ∈ assignments, ReadsLast (splitLines contents) entry) ∧ ¬ EndsLone contents assignments := by
  have h := writable_of_upsert hkeys hnext
  have hread : ∀ entry ∈ assignments,
      (readEnvAssignment next entry.1 = some entry.2 ↔ ReadsLast (splitLines contents) entry) := by
    intro entry hentry
    rw [readEnvAssignment_next h hnext]
    exact lastValue_updateLines_iff h hentry
  constructor
  · intro hupserted
    exact ⟨fun entry hentry => (hread entry hentry).mp (hupserted.read entry hentry),
      (upsert_again_iff h hnext).mp hupserted.again⟩
  · rintro ⟨hlast, hlone⟩
    refine ⟨fun entry hentry => ⟨fun line hline hmanaged => ?_, ?_⟩, fun entry hentry => ?_, ?_, ?_⟩
    · exact eq_assignment_of_mem_next h hnext hline ((assignedBy_eq_some h).mpr ⟨hentry, hmanaged⟩)
    · exact ⟨assignment entry, assignment_mem_next h hnext hentry,
        managedKey_assignment (h.isKey entry hentry) entry.2⟩
    · exact (hread entry hentry).mpr (hlast entry hentry)
    · exact otherLines_next h hnext
    · exact (upsert_again_iff h hnext).mpr hlone

theorem upserted_iff_rewritten : Upserted (lit "# tags\nA=1\nB=2\n") [(lit "A", lit "3")] (lit "# tags\nA=3\nB=2\n") :=
  (upserted_iff (by decide) (by decide)).mpr (by decide)

/-- A spaced line after the one that is rewritten is not, and is what is read. -/
theorem spaced_line_wins : upsertEnvAssignments (lit "A=1\nA = 2\n") [(lit "A", lit "3")] = some (lit "A=3\nA = 2\n") ∧
      readEnvAssignment (lit "A=3\nA = 2\n") (lit "A") = some (lit "2") := by decide

end ArdurBot.Updater
