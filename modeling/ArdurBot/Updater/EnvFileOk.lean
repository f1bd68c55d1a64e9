import ArdurBot.Lib.Table
import ArdurBot.Updater.EnvFile

/-!
# What the environment file pins

A tag that is written is read again, where the lines that are rewritten are the last that assign to
their keys.
-/

namespace ArdurBot.Updater

open List Utf16
open Bool hiding not_and not_or
open Option hiding all all_eq_true any any_eq_false

/-! ### Lines -/

/-- The lines are the same but for carriage returns at their end. -/
def Chomped (line line' : Text) : Prop :=
  ∃ base m n, line = base ++ List.replicate m carriageReturn ∧ line' = base ++ List.replicate n carriageReturn

theorem Chomped.refl (line : Text) : Chomped line line := ⟨line, 0, 0, by simp, by simp⟩

variable {line line' : Text} {lines' : List Text}

theorem splitLines_noBreak (h : newline ∉ line) : splitLines line = [line] := by
  induction line with
  | nil => rfl
  | cons u line ih =>
    rw [mem_cons, not_or] at h
    have hhead : line.head? ≠ some newline := fun hhead => h.2 (mem_of_mem_head? hhead)
    rw [splitLines, if_neg fun hu => h.1 hu.symm, if_neg (by simp [hhead]), ih h.2]
    rfl

theorem splitLines_break (h : newline ∉ line) (rest : Text) :
    ∃ line' n, splitLines (line ++ newline :: rest) = line' :: splitLines rest ∧
      line = line' ++ replicate n carriageReturn := by
  induction line with
  | nil => exact ⟨[], 0, by rw [nil_append, splitLines, if_pos rfl], rfl⟩
  | cons u line ih =>
    rw [mem_cons, not_or] at h
    obtain ⟨line', n, hsplit, hline⟩ := ih h.2
    rw [cons_append, splitLines, if_neg fun hu => h.1 hu.symm]
    split
    · next hreturn =>
      rw [and_eq_true] at hreturn
      have hu : u = carriageReturn := of_decide_eq_true hreturn.1
      have hempty : line = [] := by
        cases line with
        | nil => rfl
        | cons v line =>
          have hv : v = newline := some.inj (of_decide_eq_true hreturn.2)
          exact absurd (hv ▸ mem_cons_self) h.2
      refine ⟨[], 1, ?_, ?_⟩
      · rw [hempty, nil_append, splitLines, if_pos rfl]
      · rw [hempty, hu]
        rfl
    · refine ⟨u :: line', n, ?_, by rw [hline]; rfl⟩
      rw [hsplit]
      rfl

theorem splitLines_intercalate {brk : Text} (hbreak : brk = lit "\n" ∨ brk = lit "\r\n")
    {lines : List Text} (hne : lines ≠ []) (h : ∀ line ∈ lines, newline ∉ line) :
    List.Forall₂ Chomped (splitLines (brk.intercalate lines)) lines := by
  induction lines with
  | nil => exact absurd rfl hne
  | cons line lines ih =>
    have hline := h line mem_cons_self
    cases lines with
    | nil =>
      rw [intercalate_singleton, splitLines_noBreak hline]
      exact List.Forall₂.cons (Chomped.refl line) List.Forall₂.nil
    | cons next lines =>
      have hrest := ih (cons_ne_nil _ _) fun other hother => h other (mem_cons_of_mem _ hother)
      rw [intercalate_cons_cons]
      obtain rfl | rfl := hbreak
      · obtain ⟨line', n, hsplit, hsame⟩ := splitLines_break hline ((lit "\n").intercalate (next :: lines))
        have htext : line ++ lit "\n" ++ (lit "\n").intercalate (next :: lines) =
            line ++ newline :: (lit "\n").intercalate (next :: lines) := by
          rw [append_assoc]
          rfl
        rw [htext, hsplit]
        exact List.Forall₂.cons ⟨line', 0, n, by simp, hsame⟩ hrest
      · have hreturn : newline ∉ line ++ [carriageReturn] := by
          rw [mem_append, not_or]
          exact ⟨hline, by decide⟩
        obtain ⟨line', n, hsplit, hsame⟩ := splitLines_break hreturn ((lit "\r\n").intercalate (next :: lines))
        have htext : line ++ lit "\r\n" ++ (lit "\r\n").intercalate (next :: lines) =
            line ++ [carriageReturn] ++ newline :: (lit "\r\n").intercalate (next :: lines) := by
          rw [append_assoc, append_assoc]
          rfl
        rw [htext, hsplit]
        refine List.Forall₂.cons ?_ hrest
        cases n with
        | zero =>
          rw [replicate_zero, append_nil] at hsame
          exact ⟨line, 1, 0, hsame.symm, by simp⟩
        | succ n =>
          rw [replicate_succ', ← append_assoc] at hsame
          exact ⟨line', 0, n, by simp, append_cancel_right hsame⟩

/-! ### What a line assigns -/

theorem trim_append_white (text : Text) {white : Text} (h : ∀ u ∈ white, isWhite u) :
    trim (text ++ white) = trim text := by
  have hwhite : white.dropWhile isWhite = [] := dropWhile_eq_nil_iff.mpr h
  have hreverse : ∀ u ∈ white.reverse, isWhite u := fun u hu => h u (mem_reverse.mp hu)
  unfold trim
  rw [dropWhile_append]
  split
  · next hempty =>
    rw [List.isEmpty_iff] at hempty
    rw [hempty, hwhite]
  · rw [reverse_append, dropWhile_append_of_pos hreverse]

theorem Chomped.trim (h : Chomped line line') : trim line = trim line' := by
  obtain ⟨base, m, n, rfl, rfl⟩ := h
  have hwhite : ∀ count, ∀ u ∈ replicate count carriageReturn, isWhite u := by
    intro count u hu
    rw [eq_of_mem_replicate hu]
    decide
  rw [trim_append_white base (hwhite m), trim_append_white base (hwhite n)]

theorem Chomped.lineValue (h : Chomped line line') (key : Text) :
    lineValue key line = lineValue key line' := by
  unfold Updater.lineValue
  rw [h.trim]

theorem managedKey_replicate (base : Text) (count : ℕ) :
    managedKey (base ++ replicate count carriageReturn) = managedKey base := by
  have hdrop : (replicate count carriageReturn).dropWhile isKeyUnit = replicate count carriageReturn := by
    cases count with
    | zero => rfl
    | succ count => rw [replicate_succ, dropWhile_cons,
      show isKeyUnit carriageReturn = false by decide, if_neg Bool.false_ne_true]
  unfold managedKey
  rw [dropWhile_append]
  cases hbase : base.dropWhile isKeyUnit with
  | nil =>
    rw [isEmpty_nil, if_pos rfl, hdrop]
    cases count with
    | zero => rfl
    | succ count =>
      rw [replicate_succ]
      dsimp only
      rw [if_neg]
      rw [and_eq_true, not_and]
      intro hequals
      exact absurd (of_decide_eq_true hequals) (by decide)
  | cons u rest =>
    rw [isEmpty_cons, if_neg Bool.false_ne_true]
    have htake : (base ++ replicate count carriageReturn).takeWhile isKeyUnit = base.takeWhile isKeyUnit := by
      rw [takeWhile_append, if_neg]
      intro hlength
      have hsplit := congrArg length (takeWhile_append_dropWhile (p := isKeyUnit) (l := base))
      rw [length_append, hbase, length_cons] at hsplit
      omega
    rw [htake]
    rfl

theorem Chomped.managedKey (h : Chomped line line') : managedKey line = managedKey line' := by
  obtain ⟨base, m, n, rfl, rfl⟩ := h
  rw [managedKey_replicate, managedKey_replicate]

theorem not_isWhite_of_isKeyUnit {u : CodeUnit} (h : isKeyUnit u) :
    isWhite u = false ∧ u ≠ equals ∧ u ≠ unit '#' := by
  have hbound : u.toNat < 128 := by
    unfold isKeyUnit isUpper isDigit at h
    rw [or_eq_true, or_eq_true, and_eq_true, and_eq_true] at h
    have hle : ∀ v : CodeUnit, v.toNat < 128 → u ≤ v → u.toNat < 128 := fun v hv huv =>
      Nat.lt_of_le_of_lt (UInt16.le_iff_toNat_le.mp huv) hv
    obtain (⟨-, hupper⟩ | ⟨-, hdigit⟩) | hunder := h
    · exact hle (unit 'Z') (by decide) (of_decide_eq_true hupper)
    · exact hle (unit '9') (by decide) (of_decide_eq_true hdigit)
    · rw [of_decide_eq_true hunder]
      decide
  have hall : ∀ n < 128, isKeyUnit (UInt16.ofNat n) →
      isWhite (UInt16.ofNat n) = false ∧ UInt16.ofNat n ≠ equals ∧ UInt16.ofNat n ≠ unit '#' := by decide +kernel
  have hu := hall u.toNat hbound
  rw [UInt16.ofNat_toNat] at hu
  exact hu h

theorem IsEnvKey.units {key : Text} (h : isEnvKey key) : key ≠ [] ∧ ∀ u ∈ key, isKeyUnit u := by
  cases key with
  | nil => cases h
  | cons u rest =>
    unfold isEnvKey at h
    rw [and_eq_true] at h
    refine ⟨cons_ne_nil _ _, ?_⟩
    intro v hv
    obtain rfl | hrest := mem_cons.mp hv
    · unfold isKeyUnit
      rw [h.1]
      rfl
    · exact all_eq_true.mp h.2 v hrest

theorem trim_of_not_white {text : Text} (h : ∀ u ∈ text, isWhite u = false) : trim text = text := by
  have hdrop : ∀ {text : Text}, (∀ u ∈ text, isWhite u = false) → text.dropWhile isWhite = text := by
    intro text htext
    cases text with
    | nil => rfl
    | cons u rest => rw [dropWhile_cons, htext u mem_cons_self, if_neg Bool.false_ne_true]
  unfold trim
  rw [hdrop h, hdrop fun u hu => h u (mem_reverse.mp hu), reverse_reverse]

theorem trim_keyLine {key : Text} (hkey : isEnvKey key) (rest : Text) :
    ∃ rest', trim (key ++ equals :: rest) = key ++ equals :: rest' := by
  obtain ⟨hne, hunits⟩ := IsEnvKey.units hkey
  have hstart : (key ++ equals :: rest).dropWhile isWhite = key ++ equals :: rest := by
    cases key with
    | nil => exact absurd rfl hne
    | cons u key =>
      rw [cons_append, dropWhile_cons, (not_isWhite_of_isKeyUnit (hunits u mem_cons_self)).1,
        if_neg Bool.false_ne_true]
  have hequals : isWhite equals = false := by decide
  unfold trim
  rw [hstart, reverse_append, reverse_cons, append_assoc, dropWhile_append]
  split
  · refine ⟨[], ?_⟩
    rw [singleton_append, dropWhile_cons, hequals, if_neg Bool.false_ne_true]
    simp
  · refine ⟨(rest.reverse.dropWhile isWhite).reverse, ?_⟩
    simp

theorem lineValue_keyLine {key : Text} (hkey : isEnvKey key) {rest : Text}
    (hline : trim line = key ++ equals :: rest) (key' : Text) :
    lineValue key' line = if key = key' then
      some (unquote (unit '\'') (unquote (unit '"') (trim rest))) else none := by
  obtain ⟨hne, hunits⟩ := IsEnvKey.units hkey
  have htake : (key ++ equals :: rest).takeWhile (· ≠ equals) = key := by
    rw [takeWhile_append_of_pos, takeWhile_cons, if_neg, append_nil]
    · simp
    · intro u hu
      exact decide_eq_true (not_isWhite_of_isKeyUnit (hunits u hu)).2.1
  have hdrop : (key ++ equals :: rest).dropWhile (· ≠ equals) = equals :: rest := by
    rw [dropWhile_append_of_pos, dropWhile_cons, if_neg]
    · simp
    · intro u hu
      exact decide_eq_true (not_isWhite_of_isKeyUnit (hunits u hu)).2.1
  have htrim : trim key = key := trim_of_not_white fun u hu => (not_isWhite_of_isKeyUnit (hunits u hu)).1
  unfold lineValue
  rw [hline]
  dsimp only
  rw [htake, hdrop]
  cases key with
  | nil => exact absurd rfl hne
  | cons u key =>
    have hhash : (u :: key ++ equals :: rest).head? ≠ some (unit '#') := by
      intro hhead
      exact (not_isWhite_of_isKeyUnit (hunits u mem_cons_self)).2.2 (some.inj hhead)
    rw [if_neg hhash]
    dsimp only
    rw [htrim]

theorem managedKey_eq_some {key : Text} (h : managedKey line = some key) :
    isEnvKey key ∧ ∃ rest, line = key ++ equals :: rest := by
  unfold managedKey at h
  split at h
  · cases h
  · next u rest hdrop =>
    split at h
    · next hmanaged =>
      rw [and_eq_true] at hmanaged
      cases h
      refine ⟨hmanaged.2, rest, ?_⟩
      have hsplit := takeWhile_append_dropWhile (p := isKeyUnit) (l := line)
      rw [hdrop, of_decide_eq_true hmanaged.1] at hsplit
      exact hsplit.symm
    · cases h

theorem managedKey_assignment {key : Text} (hkey : isEnvKey key) (value : Text) :
    managedKey (assignment (key, value)) = some key := by
  obtain ⟨-, hunits⟩ := IsEnvKey.units hkey
  have htake : (key ++ equals :: value).takeWhile isKeyUnit = key := by
    rw [takeWhile_append_of_pos hunits, takeWhile_cons, if_neg (by decide), append_nil]
  have hdrop : (key ++ equals :: value).dropWhile isKeyUnit = equals :: value := by
    rw [dropWhile_append_of_pos hunits, dropWhile_cons, if_neg (by decide)]
  unfold managedKey assignment
  rw [hdrop, htake]
  dsimp only
  rw [hkey, Bool.and_true, if_pos (decide_eq_true rfl)]

def reads (key line : Text) : Bool := (lineValue key line).isSome

theorem reads_managed {key : Text} (h : managedKey line = some key) (key' : Text) :
    reads key' line = decide (key = key') := by
  obtain ⟨hkey, rest, rfl⟩ := managedKey_eq_some h
  obtain ⟨rest', htrim⟩ := trim_keyLine hkey rest
  unfold reads
  rw [lineValue_keyLine hkey htrim]
  split
  · next hsame => rw [decide_eq_true hsame, isSome_some]
  · next hother => rw [decide_eq_false hother, isSome_none]

def IsPlain (value : Text) : Prop := ∀ u ∈ value, isWhite u = false ∧ u ≠ unit '"' ∧ u ≠ unit '\''

theorem unquote_plain {quote : CodeUnit} {value : Text} (h : quote ∉ value) :
    unquote quote value = value := by
  cases value with
  | nil => rfl
  | cons u rest =>
    unfold unquote
    dsimp only
    rw [if_neg]
    intro hquoted
    rw [and_eq_true, and_eq_true] at hquoted
    rw [of_decide_eq_true hquoted.1.1] at h
    exact h mem_cons_self

theorem lineValue_assignment {key value : Text} (hkey : isEnvKey key) (hvalue : IsPlain value) :
    lineValue key (assignment (key, value)) = some value := by
  obtain ⟨-, hunits⟩ := IsEnvKey.units hkey
  have htrim : trim (assignment (key, value)) = key ++ equals :: value := by
    refine trim_of_not_white ?_
    intro u hu
    obtain hin | hin := mem_append.mp hu
    · exact (not_isWhite_of_isKeyUnit (hunits u hin)).1
    · obtain rfl | hin := mem_cons.mp hin
      · decide
      · exact (hvalue u hin).1
  have hdouble : unquote (unit '"') value = value := unquote_plain fun hmem => (hvalue _ hmem).2.1 rfl
  have hsingle : unquote (unit '\'') value = value := unquote_plain fun hmem => (hvalue _ hmem).2.2 rfl
  rw [lineValue_keyLine hkey htrim, if_pos rfl, trim_of_not_white fun u hu => (hvalue u hu).1,
    hdouble, hsingle]

/-! ### The last line that assigns to a key -/

/-- Where lines begin with the key, so does the last one that assigns to it. -/
def AssignsLast (key : Text) (lines : List Text) : Prop :=
  (∀ line ∈ lines, managedKey line ≠ some key) ∨ ∃ line ∈ lines.reverse.find? (reads key),
    managedKey line = some key

instance (key : Text) (lines : List Text) : Decidable (AssignsLast key lines) :=
  inferInstanceAs (Decidable ((∀ line ∈ lines, _) ∨ ∃ line ∈ lines.reverse.find? (reads key), _))

theorem lastValue_eq (key : Text) (lines : List Text) :
    lastValue key lines = lines.reverse.findSome? (lineValue key) := by
  have hfold : ∀ (lines : List Text) (found : Option Text),
      lines.foldl (fun found line => (lineValue key line).or found) found =
        (lines.reverse.findSome? (lineValue key)).or found := by
    intro lines
    induction lines with
    | nil =>
      intro found
      rfl
    | cons line lines ih =>
      intro found
      rw [foldl_cons, ih, reverse_cons, findSome?_append, Option.or_assoc]
      congr 1
      rw [findSome?_singleton]
  unfold lastValue
  rw [hfold, or_none]

def LastLine (key line : Text) (lines : List Text) : Prop :=
  lines.reverse.find? (reads key) = some line

section

variable {key : Text} {lines : List Text} (h : LastLine key line lines)
include h

theorem LastLine.value : lastValue key lines = lineValue key line := by
  unfold LastLine at h
  rw [lastValue_eq]
  generalize lines.reverse = reversed at h ⊢
  induction reversed with
  | nil => cases h
  | cons first rest ih =>
    rw [find?_cons] at h
    rw [findSome?_cons]
    unfold reads at h ih
    cases hvalue : lineValue key first with
    | none =>
      rw [hvalue] at h
      exact ih h
    | some value =>
      rw [hvalue] at h
      cases h
      exact hvalue.symm

theorem LastLine.assignsLast (hmanaged : managedKey line = some key) : AssignsLast key lines :=
  .inr ⟨line, h, hmanaged⟩

end

theorem map_chomped {α : Type} {lines : List Text} (h : List.Forall₂ Chomped lines lines') {f : Text → α}
    (hf : ∀ {line line'}, Chomped line line' → f line = f line') : lines.map f = lines'.map f := by
  induction h with
  | nil => rfl
  | cons hline _ ih => rw [map_cons, map_cons, hf hline, ih]

theorem lastValue_chomped {lines : List Text} (h : List.Forall₂ Chomped lines lines') (key : Text) :
    lastValue key lines = lastValue key lines' := by
  have hfold : ∀ lines : List Text, lastValue key lines =
      (lines.map (lineValue key)).foldl (fun found value => value.or found) none := by
    intro lines
    rw [foldl_map]
    rfl
  rw [hfold, hfold, map_chomped h fun hline => hline.lineValue key]

def mark (key line : Text) : Option Text × Bool := (managedKey line, reads key line)

theorem assignsLast_iff (key : Text) (lines : List Text) : AssignsLast key lines ↔
    (∀ seen ∈ lines.map (mark key), seen.1 ≠ some key) ∨
      ∃ seen ∈ (lines.map (mark key)).reverse.find? Prod.snd, seen.1 = some key := by
  unfold AssignsLast
  rw [← map_reverse, find?_map]
  refine or_congr ?_ ?_
  · constructor
    · intro h seen hseen
      obtain ⟨line, hline, rfl⟩ := mem_map.mp hseen
      exact h line hline
    · intro h line hline
      exact h _ (mem_map_of_mem hline)
  · constructor
    · rintro ⟨line, hline, hmanaged⟩
      exact ⟨mark key line, mem_map_of_mem (mark key) hline, hmanaged⟩
    · rintro ⟨seen, hseen, hmanaged⟩
      obtain ⟨line, hline, rfl⟩ := map_eq_some_iff.mp hseen
      exact ⟨line, hline, hmanaged⟩

theorem assignsLast_chomped {lines : List Text} (h : List.Forall₂ Chomped lines lines') {key : Text}
    (hlast : AssignsLast key lines') : AssignsLast key lines := by
  rw [assignsLast_iff] at hlast ⊢
  have hmark : ∀ {line line'}, Chomped line line' → mark key line = mark key line' := by
    intro line line' hline
    unfold mark reads
    rw [hline.managedKey, hline.lineValue]
  rw [map_chomped h hmark]
  exact hlast

/-! ### Updates -/

section

variable {assignments : List (Text × Text)} {lines : List Text} {key value : Text}

/-- What is written: keys that differ, and values that stand for themselves. -/
structure Writable (assignments : List (Text × Text)) : Prop where
  keys : (assignments.map Prod.fst).Nodup
  isKey : ∀ entry ∈ assignments, isEnvKey entry.1
  plain : ∀ entry ∈ assignments, IsPlain entry.2

theorem Writable.eq (h : Writable assignments) {entry : Text × Text} (hentry : entry ∈ assignments)
    (hkey : (key, value) ∈ assignments) (hsame : entry.1 = key) : entry = (key, value) :=
  Table.eq_of_key h.keys hentry hkey hsame

theorem rewriteLine_managed (h : Writable assignments) (hentry : (key, value) ∈ assignments) {line : Text}
    (hmanaged : managedKey line = some key) : rewriteLine assignments line = assignment (key, value) := by
  have hfind : assignments.find? (fun entry => entry.1 = key) = some (key, value) :=
    (Table.find_eq_some h.keys).mpr ⟨hentry, rfl⟩
  unfold rewriteLine
  rw [hmanaged, bind_some, hfind]

theorem reads_rewriteLine (h : Writable assignments) (key line : Text) :
    reads key (rewriteLine assignments line) = reads key line := by
  unfold rewriteLine
  split
  · rfl
  · next entry hfound =>
    obtain ⟨managed, hmanaged, hfind⟩ := bind_eq_some_iff.mp hfound
    have hentry := mem_of_find?_eq_some hfind
    have hkey : entry.1 = managed := by simpa using find?_some hfind
    rw [reads_managed hmanaged, reads_managed (managedKey_assignment (h.isKey entry hentry) entry.2), hkey]

theorem find_unique {α : Type} {p : α → Bool} {items : List α} {item : α} (hitem : item ∈ items) (hp : p item)
    (hunique : ∀ other ∈ items, p other → other = item) : items.find? p = some item := by
  cases hfind : items.find? p with
  | none => exact absurd hp (find?_eq_none.mp hfind item hitem)
  | some other => rw [hunique other (mem_of_find?_eq_some hfind) (find?_some hfind)]

theorem reads_assignment (h : Writable assignments) {entry : Text × Text}
    (hentry : entry ∈ assignments) (key : Text) :
    reads key (assignment entry) = decide (entry.1 = key) :=
  reads_managed (managedKey_assignment (h.isKey entry hentry) entry.2) key

theorem lastLine_pending (h : Writable assignments) (hentry : (key, value) ∈ assignments)
    (hnone : ∀ line ∈ lines, managedKey line ≠ some key) (before : List Text) :
    LastLine key (assignment (key, value)) (before ++ (pending assignments lines).map assignment) := by
  have hpending : (key, value) ∈ pending assignments lines := by
    unfold pending
    rw [mem_filter]
    refine ⟨hentry, ?_⟩
    rw [not_eq_true', any_eq_false]
    intro line hline
    rw [decide_eq_true_iff]
    exact hnone line hline
  have hfind : ((pending assignments lines).map assignment).reverse.find? (reads key) =
      some (assignment (key, value)) := by
    refine find_unique ?_ ?_ ?_
    · exact mem_reverse.mpr (mem_map_of_mem hpending)
    · rw [reads_assignment h hentry, decide_eq_true rfl]
    · intro other hother hreads
      obtain ⟨entry, hpending', rfl⟩ := mem_map.mp (mem_reverse.mp hother)
      have hentry' := mem_of_mem_filter hpending'
      rw [reads_assignment h hentry'] at hreads
      rw [h.eq hentry' hentry (of_decide_eq_true hreads)]
  unfold LastLine
  rw [reverse_append, find?_append, hfind]
  rfl

theorem find_dropWhile {α : Type} {p q : α → Bool} (hpq : ∀ item, q item → p item = false) (items : List α) :
    (items.dropWhile q).find? p = items.find? p := by
  induction items with
  | nil => rfl
  | cons item items ih =>
    rw [dropWhile_cons]
    split
    · next hq => rw [ih, find?_cons, hpq item hq]
    · rfl

theorem reads_nil (key : Text) : reads key [] = false := rfl

theorem lastLine_rewritten (h : Writable assignments) {line managed : Text}
    (hline : lines.reverse.find? (reads key) = some line) (hmem : managed ∈ lines)
    (hmanaged : managedKey managed = some key) :
    LastLine key (rewriteLine assignments line) (updateLines assignments lines) := by
  have hnext : (lines.map (rewriteLine assignments)).reverse.find? (reads key) =
      some (rewriteLine assignments line) := by
    have hreads : reads key ∘ rewriteLine assignments = reads key := by
      funext other
      exact reads_rewriteLine h key other
    rw [← map_reverse, find?_map, hreads, hline, map_some]
  have hpending : ((pending assignments lines).map assignment).reverse.find? (reads key) = none := by
    rw [find?_eq_none]
    intro other hother hreads
    obtain ⟨entry, hpending', rfl⟩ := mem_map.mp (mem_reverse.mp hother)
    rw [reads_assignment h (mem_of_mem_filter hpending')] at hreads
    have hnone := (mem_filter.mp hpending').2
    rw [not_eq_true', any_eq_false] at hnone
    exact hnone managed hmem (decide_eq_true (of_decide_eq_true hreads ▸ hmanaged))
  unfold updateLines LastLine
  split
  · exact hnext
  · have hkept : (withoutLastBlanks (lines.map (rewriteLine assignments))).reverse.find? (reads key) =
        some (rewriteLine assignments line) := by
      unfold withoutLastBlanks
      rw [reverse_reverse, find_dropWhile, hnext]
      intro other hother
      rw [of_decide_eq_true hother, reads_nil]
    rw [reverse_append, find?_append, hpending, none_or]
    split
    · next hempty =>
      rw [hempty] at hkept
      cases hkept
    · rw [reverse_append, find?_append, hkept]
      rfl

section

variable (h : Writable assignments) (hentry : (key, value) ∈ assignments)
include h hentry

theorem lastLine_managed {line : Text}
    (hline : lines.reverse.find? (reads key) = some line) (hmanaged : managedKey line = some key) :
    LastLine key (assignment (key, value)) (updateLines assignments lines) := by
  have hmem : line ∈ lines := mem_reverse.mp (mem_of_find?_eq_some hline)
  rw [← rewriteLine_managed h hentry hmanaged]
  exact lastLine_rewritten h hline hmem hmanaged

theorem lastLine_update (hlast : AssignsLast key lines) :
    LastLine key (assignment (key, value)) (updateLines assignments lines) := by
  obtain hnone | ⟨line, hline, hmanaged⟩ := hlast
  · have hpending : pending assignments lines ≠ [] := by
      have hlastLine := lastLine_pending h hentry hnone []
      intro hempty
      rw [hempty] at hlastLine
      cases hlastLine
    unfold updateLines
    rw [if_neg hpending]
    exact lastLine_pending h hentry hnone _
  · exact lastLine_managed h hentry hline hmanaged

end

end

/-! ### The text -/

theorem splitLines_ne_nil (text : Text) :
    splitLines text ≠ [] ∧ ∀ line ∈ splitLines text, newline ∉ line := by
  induction text with
  | nil =>
    refine ⟨cons_ne_nil _ _, ?_⟩
    intro line hline
    rw [mem_singleton.mp hline]
    exact not_mem_nil
  | cons u text ih =>
    rw [splitLines]
    split
    · refine ⟨cons_ne_nil _ _, ?_⟩
      intro line hline
      obtain rfl | hrest := mem_cons.mp hline
      · exact not_mem_nil
      · exact ih.2 line hrest
    · next hu =>
      split
      · exact ih
      · obtain ⟨hne, hlines⟩ := ih
        cases hsplit : splitLines text with
        | nil => exact absurd hsplit hne
        | cons first rest =>
          rw [hsplit] at hlines
          refine ⟨cons_ne_nil _ _, ?_⟩
          intro line hline
          obtain rfl | hrest := mem_cons.mp hline
          · rw [mem_cons, not_or]
            exact ⟨fun hsame => hu hsame.symm, hlines first mem_cons_self⟩
          · exact hlines line (mem_cons_of_mem _ hrest)

theorem intercalate_concat (brk : Text) {lines : List Text} (hne : lines ≠ []) :
    brk.intercalate lines ++ brk = brk.intercalate (lines ++ [[]]) := by
  induction lines with
  | nil => exact absurd rfl hne
  | cons line lines ih =>
    cases lines with
    | nil =>
      rw [intercalate_singleton, singleton_append, intercalate_cons_cons, intercalate_singleton, append_nil]
    | cons next lines =>
      rw [intercalate_cons_cons, append_assoc, ih (cons_ne_nil _ _)]
      exact intercalate_cons_cons.symm

theorem not_newline_updateLines {assignments : List (Text × Text)} (h : Writable assignments)
    {lines : List Text}
    (hlines : ∀ line ∈ lines, newline ∉ line) : ∀ line ∈ updateLines assignments lines, newline ∉ line := by
  have hassignment : ∀ entry ∈ assignments, newline ∉ assignment entry := by
    intro entry hentry hmem
    obtain hkey | hvalue := mem_append.mp hmem
    · exact absurd ((IsEnvKey.units (h.isKey entry hentry)).2 _ hkey) (by decide)
    · obtain hequals | hvalue := mem_cons.mp hvalue
      · exact absurd hequals (by decide)
      · exact absurd (h.plain entry hentry _ hvalue).1 (by decide)
  have hnext : ∀ line ∈ lines.map (rewriteLine assignments), newline ∉ line := by
    intro line hline
    obtain ⟨old, hold, rfl⟩ := mem_map.mp hline
    unfold rewriteLine
    split
    · exact hlines old hold
    · next entry hfound =>
      obtain ⟨managed, -, hfind⟩ := bind_eq_some_iff.mp hfound
      exact hassignment entry (mem_of_find?_eq_some hfind)
  have hpending : ∀ line ∈ (pending assignments lines).map assignment, newline ∉ line := by
    intro line hline
    obtain ⟨entry, hentry, rfl⟩ := mem_map.mp hline
    exact hassignment entry (mem_of_mem_filter hentry)
  have hkept : ∀ line ∈ withoutLastBlanks (lines.map (rewriteLine assignments)), newline ∉ line := by
    intro line hline
    unfold withoutLastBlanks at hline
    have hmem := (dropWhile_sublist _).subset (mem_reverse.mp hline)
    exact hnext line (mem_reverse.mp hmem)
  unfold updateLines
  split
  · exact hnext
  · intro line hline
    obtain hbefore | hafter := mem_append.mp hline
    · split at hbefore
      · cases hbefore
      · obtain hold | hblank := mem_append.mp hbefore
        · exact hkept line hold
        · rw [mem_singleton.mp hblank]
          exact not_mem_nil
    · exact hpending line hafter

theorem updateLines_ne_nil {assignments : List (Text × Text)} {lines : List Text} (hne : lines ≠ []) :
    updateLines assignments lines ≠ [] := by
  unfold updateLines
  split
  · exact fun h => hne (map_eq_nil_iff.mp h)
  · next hpending =>
    intro h
    exact hpending (map_eq_nil_iff.mp (append_eq_nil_iff.mp h).2)

variable {contents current previous tag : Text}

section

variable {assignments : List (Text × Text)} (h : Writable assignments)
include h

/-- The lines of the new text are those that were written, but for carriage returns and a last blank
line. -/
theorem lines_upsert {next : Text} (hnext : upsertEnvAssignments contents assignments = some next) :
    List.Forall₂ Chomped (splitLines next) (updateLines assignments (splitLines contents)) ∨
      List.Forall₂ Chomped (splitLines next) (updateLines assignments (splitLines contents) ++ [[]]) := by
  obtain ⟨hne, hlines⟩ := splitLines_ne_nil contents
  have hbreak : lineBreak contents = lit "\n" ∨ lineBreak contents = lit "\r\n" := by
    unfold lineBreak
    split
    · exact .inr rfl
    · exact .inl rfl
  have hupdated := not_newline_updateLines h hlines
  unfold upsertEnvAssignments at hnext
  split at hnext
  · cases hnext
    split
    · exact .inl (splitLines_intercalate hbreak (updateLines_ne_nil hne) hupdated)
    · rw [intercalate_concat _ (updateLines_ne_nil hne)]
      refine .inr (splitLines_intercalate hbreak (append_ne_nil_of_right_ne_nil _ (cons_ne_nil _ _)) ?_)
      intro line hline
      obtain hold | hblank := mem_append.mp hline
      · exact hupdated line hold
      · rw [mem_singleton.mp hblank]
        exact not_mem_nil
  · cases hnext

theorem readEnvAssignment_upsert {contents next : Text}
    (hnext : upsertEnvAssignments contents assignments = some next) {key value : Text}
    (hentry : (key, value) ∈ assignments) (hlast : AssignsLast key (splitLines contents)) :
    readEnvAssignment next key = some value ∧ AssignsLast key (splitLines next) := by
  have hkey := h.isKey _ hentry
  have hline := lastLine_update h hentry hlast
  have hmanaged := managedKey_assignment hkey value
  have hblank : LastLine key (assignment (key, value)) (updateLines assignments (splitLines contents) ++ [[]]) := by
    unfold LastLine at hline ⊢
    rw [reverse_append, reverse_singleton, singleton_append, find?_cons, reads_nil]
    exact hline
  have hvalue := lineValue_assignment hkey (h.plain _ hentry)
  unfold readEnvAssignment
  obtain hlines | hlines := lines_upsert h hnext
  · rw [lastValue_chomped hlines, hline.value]
    exact ⟨hvalue, assignsLast_chomped hlines (hline.assignsLast hmanaged)⟩
  · rw [lastValue_chomped hlines, hblank.value]
    exact ⟨hvalue, assignsLast_chomped hlines (hblank.assignsLast hmanaged)⟩

end

/-! ### Tags -/

def isTagUnit (u : CodeUnit) : Bool :=
  isUpper u || isLower u || isDigit u || u = unit '_' || u = unit '.' || u = unit '-'

def isValueUnit (u : CodeUnit) : Bool := isUpper u || isLower u || isDigit u || u ∈ lit "._:/@+-"

theorem isValueUnit_plain {u : CodeUnit} (h : isValueUnit u) :
    isWhite u = false ∧ u ≠ unit '"' ∧ u ≠ unit '\'' := by
  have hbound : u.toNat < 128 := by
    have hle : ∀ v : CodeUnit, v.toNat < 128 → u ≤ v → u.toNat < 128 := fun v hv huv =>
      Nat.lt_of_le_of_lt (UInt16.le_iff_toNat_le.mp huv) hv
    have hpunctuation : ∀ v ∈ lit "._:/@+-", v.toNat < 128 := forall_iff_forall_mem.mp (by decide)
    unfold isValueUnit isUpper isLower isDigit at h
    simp only [or_eq_true, and_eq_true, decide_eq_true_iff] at h
    obtain ((⟨-, hu⟩ | ⟨-, hu⟩) | ⟨-, hu⟩) | hu := h
    · exact hle (unit 'Z') (by decide) hu
    · exact hle (unit 'z') (by decide) hu
    · exact hle (unit '9') (by decide) hu
    · exact hpunctuation u hu
  have hall : ∀ n < 128, isValueUnit (UInt16.ofNat n) →
      isWhite (UInt16.ofNat n) = false ∧ UInt16.ofNat n ≠ unit '"' ∧ UInt16.ofNat n ≠ unit '\'' := by decide +kernel
  have hu := hall u.toNat hbound
  rw [UInt16.ofNat_toNat] at hu
  exact hu h

theorem isValueUnit_of_isTagUnit {u : CodeUnit} (h : isTagUnit u) : isValueUnit u := by
  have hpunctuation : ∀ v ∈ lit "_.-", v ∈ lit "._:/@+-" := forall_iff_forall_mem.mp (by decide)
  unfold isTagUnit at h
  unfold isValueUnit
  simp only [or_eq_true, decide_eq_true_iff] at h ⊢
  obtain ((h | rfl) | rfl) | rfl := h
  · exact .inl h
  · exact .inr (hpunctuation _ (by decide))
  · exact .inr (hpunctuation _ (by decide))
  · exact .inr (hpunctuation _ (by decide))

theorem isValidImageTag_units (h : isValidImageTag tag) : tag.length ≤ 128 ∧ ∀ u ∈ tag, isTagUnit u := by
  cases tag with
  | nil => cases h
  | cons u rest =>
    unfold isValidImageTag at h
    rw [and_eq_true, and_eq_true, all_eq_true] at h
    obtain ⟨⟨hfirst, hlength⟩, hrest⟩ := h
    refine ⟨?_, ?_⟩
    · rw [length_cons]
      have := of_decide_eq_true hlength
      omega
    · intro v hv
      obtain rfl | hmem := mem_cons.mp hv
      · unfold isTagUnit
        rw [hfirst]
        rfl
      · exact hrest v hmem

theorem isPlain_imageTag (h : isValidImageTag tag) : IsPlain tag ∧ isEnvValue tag := by
  obtain ⟨hlength, hunits⟩ := isValidImageTag_units h
  refine ⟨fun u hu => isValueUnit_plain (isValueUnit_of_isTagUnit (hunits u hu)), ?_⟩
  unfold isEnvValue
  rw [and_eq_true, all_eq_true]
  exact ⟨decide_eq_true (by omega), fun u hu => isValueUnit_of_isTagUnit (hunits u hu)⟩

/-- The assignments by which a deployment is pinned. -/
def pins (current previous : Text) : List (Text × Text) :=
  [(imageTagEnv, current), (previousImageTagEnv, previous)]

/-- A text in which a tag that is written is read. -/
def Readable (contents : Text) : Prop :=
  AssignsLast imageTagEnv (splitLines contents) ∧ AssignsLast previousImageTagEnv (splitLines contents)

instance (contents : Text) : Decidable (Readable contents) := inferInstanceAs (Decidable (_ ∧ _))

theorem writable_pins (hcurrent : isValidImageTag current) (hprevious : isValidImageTag previous) :
    Writable (pins current previous) := by
  refine ⟨?_, ?_, ?_⟩
  · change [imageTagEnv, previousImageTagEnv].Nodup
    decide +kernel
  · intro entry hentry
    obtain rfl | hentry := mem_cons.mp hentry
    · show isEnvKey imageTagEnv
      decide +kernel
    · rw [mem_singleton.mp hentry]
      show isEnvKey previousImageTagEnv
      decide +kernel
  · intro entry hentry
    obtain rfl | hentry := mem_cons.mp hentry
    · exact (isPlain_imageTag hcurrent).1
    · rw [mem_singleton.mp hentry]
      exact (isPlain_imageTag hprevious).1

theorem pin_ok (hcontents : Readable contents) (hcurrent : isValidImageTag current)
    (hprevious : isValidImageTag previous) :
    ∃ next, upsertEnvAssignments contents (pins current previous) = some next ∧
      readTagState next = ⟨current, some previous⟩ ∧ Readable next := by
  have hwritable := writable_pins hcurrent hprevious
  have hvalues : (pins current previous).all (fun entry => isEnvKey entry.1 && isEnvValue entry.2) = true := by
    rw [all_eq_true]
    intro entry hentry
    rw [hwritable.isKey entry hentry, Bool.true_and]
    obtain rfl | hentry := mem_cons.mp hentry
    · exact (isPlain_imageTag hcurrent).2
    · rw [mem_singleton.mp hentry]
      exact (isPlain_imageTag hprevious).2
  obtain ⟨next, hnext⟩ : ∃ next, upsertEnvAssignments contents (pins current previous) = some next := by
    unfold upsertEnvAssignments
    rw [if_pos hvalues]
    exact ⟨_, rfl⟩
  obtain ⟨hread, hlast⟩ :=
    @readEnvAssignment_upsert _ hwritable _ _ hnext imageTagEnv current mem_cons_self hcontents.1
  obtain ⟨hread', hlast'⟩ := @readEnvAssignment_upsert _ hwritable _ _ hnext previousImageTagEnv previous
    (mem_cons_of_mem _ mem_cons_self) hcontents.2
  refine ⟨next, hnext, ?_, hlast, hlast'⟩
  unfold readTagState
  rw [hread, hread', filter_some, filter_some, if_pos hcurrent, if_pos hprevious, getD_some]

end ArdurBot.Updater
