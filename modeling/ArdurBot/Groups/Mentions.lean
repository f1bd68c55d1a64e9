import ArdurBot.Lib.Utf16

/-!
# The members that a message addresses

`packages/core/src/group-mentions.ts`. A message addresses the members that it names at its start. A
message may be read in more than one way: a comma joins two names or closes the address, and a
conjunction behind it may be the name of a member. The scanner takes one reading and does not go
back. So it is the documented rule but for two kinds of message: a word that opens a message is
passed over before the names are looked for, and a member of that name is not found there; and where
the names go on behind a comma, the address is not closed at the comma.
-/

namespace ArdurBot.Mentions

open List Utf16
open Option hiding filter filter_filter

/-- The regular expressions read a text by its code points. -/
abbrev CodePoint := ℕ

def points (s : String) : List CodePoint := s.toList.map Char.toNat

/-- `CLOSING_PUNCTUATION_PATTERN` -/
def isClosing (c : CodePoint) : Bool := c ∈ points ";:!?."

def comma : CodePoint := 0x2c

structure Unicode where
  /-- `\p{L}` -/
  isLetter : CodePoint → Bool
  /-- `[\p{L}\p{N}_-]`, of either case. -/
  isWordPart : CodePoint → Bool
  /-- The same for both cases. -/
  fold : CodePoint → CodePoint
  toLowerCase : List CodePoint → List CodePoint
  /-- No punctuation is the letter that "and" begins with. -/
  fold_ne : ∀ c ∈ points ",;:!?.", fold 0x61 ≠ fold c

structure GroupMemberRef where
  id : Text
  name : List CodePoint

/-- A name that is found, and what stands behind it. -/
structure Found where
  id : Text
  rest : List CodePoint
  mentioned : Bool
deriving DecidableEq

def isSpace (c : CodePoint) : Bool := c < 0x10000 && isWhite c.toUInt16

section

variable (text : List CodePoint)

def trimStart : List CodePoint := text.dropWhile isSpace

def trim : List CodePoint := (trimStart (trimStart text).reverse).reverse

def unitCount : ℕ := (text.map fun c => if c < 0x10000 then 1 else 2).sum

end

def addressOpeners : List (List CodePoint) :=
  ["hey", "hi", "hello", "yo", "ok", "okay", "so"].map points

def candidates (members : List GroupMemberRef) : List GroupMemberRef :=
  ((members.map fun member => { member with name := trim member.name }).filter fun member =>
    member.name ≠ []).mergeSort
    fun a b => unitCount b.name ≤ unitCount a.name

section

variable (u : Unicode)

/-- `OPENER_PATTERN`: the word, and what stands behind the match. A letter is no space and no
comma. -/
def opener (text : List CodePoint) : Option (List CodePoint × List CodePoint) :=
  if text.takeWhile u.isLetter = [] then none
  else
    match trimStart (text.dropWhile u.isLetter) with
    | 0x2c :: rest => some (text.takeWhile u.isLetter, trimStart rest)
    | rest => if (text.dropWhile u.isLetter).head?.any isSpace then some (text.takeWhile u.isLetter, rest) else none

def afterOpener (text : List CodePoint) : Option (List CodePoint) :=
  ((opener u text).filter fun found => u.toLowerCase found.1 ∈ addressOpeners).map Prod.snd

/-- What stands behind the name, if it is a whole one. -/
def afterName : List CodePoint → List CodePoint → Option (List CodePoint)
  | [], rest => if rest.head?.any u.isWordPart then none else some rest
  | _ :: _, [] => none
  | c :: name, d :: rest => if u.fold c = u.fold d then afterName name rest else none

/-- `CONJUNCTION_PATTERN` -/
def afterConjunction (text : List CodePoint) : Option (List CodePoint) :=
  match afterName u (points "and") text with
  | some rest => some (trimStart rest)
  | none =>
    match text with
    | 0x26 :: rest => some (trimStart rest)
    | 0x2b :: rest => some (trimStart rest)
    | _ => none

/-- The pattern of a candidate, with or without an "@". -/
def matchCandidate (text : List CodePoint) (candidate : GroupMemberRef) : Option Found :=
  let plain := (afterName u candidate.name text).map (⟨candidate.id, ·, false⟩)
  match text with
  | 0x40 :: rest => ((afterName u candidate.name rest).map (⟨candidate.id, ·, true⟩)).or plain
  | _ => plain

variable (cs : List GroupMemberRef)

section

variable (text : List CodePoint)

def matchName : Option Found := cs.findSome? (matchCandidate u text)

/-- Where the name behind a conjunction begins. -/
def pastConjunction : Option (List CodePoint) :=
  (afterConjunction u text).filter fun past => (matchName u cs past).isSome

def pastComma : Option (List CodePoint) :=
  if (matchName u cs (trimStart text)).isSome then some (trimStart text)
    else pastConjunction u cs (trimStart text)

end

def push (addressed : List Text) (id : Text) : List Text :=
  if id ∈ addressed then addressed else addressed ++ [id]

/-- The loop of `resolveAddressedBotIds`: who is addressed, and whether the address is closed. -/
def scan : ℕ → List CodePoint → List Text → Bool → List Text × Bool
  | 0, _, addressed, terminated => (addressed, terminated)
  | fuel + 1, text, addressed, terminated =>
    match matchName u cs text with
    | none => (addressed, terminated)
    | some name =>
      match trimStart name.rest with
      | [] => (push addressed name.id, true)
      | c :: rest =>
        if c = comma then
          match pastComma u cs rest with
          | some past => scan fuel past (push addressed name.id) (terminated || name.mentioned)
          | none => (push addressed name.id, true)
        else if isClosing c then (push addressed name.id, true)
        else
          match pastConjunction u cs (c :: rest) with
          | some past => scan fuel past (push addressed name.id) (terminated || name.mentioned)
          | none => (push addressed name.id, terminated || name.mentioned)

def resolve (text : List CodePoint) : List Text :=
  if cs = [] then []
  else
    let start := (afterOpener u (trimStart text)).getD (trimStart text)
    let found := scan u cs (start.length + 1) start [] false
    if found.1 ≠ [] && (found.2 || (afterOpener u (trimStart text)).isSome) then found.1 else []

end

def resolveAddressedBotIds (u : Unicode) (text : List CodePoint) (members : List GroupMemberRef) :
    List Text :=
  resolve u (candidates members) text

section

variable (u : Unicode) (cs : List GroupMemberRef)

/-- Where the next name begins, if one is joined to what stands before this. -/
def nextName : List CodePoint → Option (List CodePoint)
  | [] => none
  | c :: rest =>
    if c = comma then pastComma u cs rest else if isClosing c then none else pastConjunction u cs (c :: rest)

def closes : List CodePoint → Bool
  | [] => true
  | c :: _ => c = comma || isClosing c

/-- The message begins with these names, and is read as the scanner reads it: joined as far as they
go. -/
inductive Clause : List CodePoint → List Found → Prop
  | last {text : List CodePoint} {name : Found} (h : matchName u cs text = some name)
      (hend : nextName u cs (trimStart name.rest) = none) : Clause text [name]
  | more {text past : List CodePoint} {name : Found} {names : List Found}
    (h : matchName u cs text = some name)
      (hnext : nextName u cs (trimStart name.rest) = some past) (hrest : Clause past names) :
        Clause text (name :: names)

/-- What joins two names, by the rule: behind the one, and where the other begins. -/
inductive Joins : List CodePoint → List CodePoint → Prop
  | comma (rest : List CodePoint) : Joins (comma :: rest) (trimStart rest)
  | commaConjunction {rest past : List CodePoint} (h : afterConjunction u (trimStart rest) =
    some past) : Joins (comma :: rest) past
  | conjunction {text past : List CodePoint} (h : afterConjunction u text = some past) : Joins text past

/-- The message begins with these names, joined. -/
inductive Reading : List CodePoint → List Found → Prop
  | last {text : List CodePoint} {name : Found} (h : matchName u cs text = some name) : Reading text [name]
  | more {text past : List CodePoint} {name : Found} {names : List Found}
    (h : matchName u cs text = some name)
      (hjoins : Joins u (trimStart name.rest) past) (hrest : Reading past names) : Reading text (name :: names)

/-- No other name is joined to the last one. -/
def IsWhole (names : List Found) : Prop :=
  ∀ name, names.getLast? = some name → ∀ past, Joins u (trimStart name.rest) past → matchName u cs past = none

/-- An "@" on a name, or what stands behind the last name, closes the address. -/
def isClosed (names : List Found) : Bool :=
  names.any Found.mentioned || names.getLast?.any fun name => closes (trimStart name.rest)

/-- The message addresses those of these names: behind its leading space and, if it has one and it
is taken for one, an opener. -/
def Addresses (text : List CodePoint) (names : List Found) : Prop :=
  (Reading u cs (trimStart text) names ∧ isClosed names) ∨
    ∃ start, afterOpener u (trimStart text) = some start ∧ Reading u cs start names

/-- The message addresses members from the word that opens it, and no name stands behind that
word. -/
def OpenerIsName (text : List CodePoint) : Prop :=
  ∃ start names, afterOpener u (trimStart text) = some start ∧ matchName u cs start = none ∧
    Reading u cs (trimStart text) names ∧ isClosed names

/-- The message has no opener, and its names go on behind a comma, to an end that does not close the
address. -/
def CommaGoesOn (text : List CodePoint) : Prop :=
  afterOpener u (trimStart text) = none ∧ ∃ names, Clause u cs (trimStart text) names ∧
    isClosed names = false ∧
    ∃ name ∈ names, (trimStart name.rest).head? = some comma

end

/-- Members are found just if the message addresses some, and they are all that one reading of it
addresses, in its order and without repeats. -/
def FollowsRule (u : Unicode) (members : List GroupMemberRef) (text : List CodePoint) : Prop :=
  (resolveAddressedBotIds u text members ≠ [] ↔ ∃ names, Addresses u (candidates members) text names) ∧
    (resolveAddressedBotIds u text members ≠ [] → ∃ names, Addresses u (candidates members) text names ∧
      IsWhole u (candidates members) names ∧ resolveAddressedBotIds u text members = (names.map Found.id).eraseDups)

variable {u : Unicode} {cs : List GroupMemberRef} {text rest past : List CodePoint} {name : Found}
  {names : List Found}

theorem length_trimStart (text : List CodePoint) : (trimStart text).length ≤ text.length :=
  (dropWhile_suffix _).length_le

theorem length_afterName {found : List CodePoint} (h : afterName u found text = some rest) :
    rest.length + found.length = text.length := by
  induction found generalizing text with
  | nil =>
    rw [afterName] at h
    split at h
    · cases h
    · rw [some.inj h]
      rfl
  | cons c found ih =>
    cases text with
    | nil => cases h
    | cons d text =>
      rw [afterName] at h
      split at h
      · have hlength := ih h
        rw [length_cons, length_cons]
        omega
      · cases h

theorem length_afterConjunction (h : afterConjunction u text = some rest) : rest.length ≤ text.length := by
  unfold afterConjunction at h
  split at h
  · next past hand =>
    have hlength := length_afterName hand
    have htrim := length_trimStart past
    rw [← some.inj h]
    omega
  · split at h
    · exact some.inj h ▸ (length_trimStart _).trans (Nat.le_succ _)
    · exact some.inj h ▸ (length_trimStart _).trans (Nat.le_succ _)
    · cases h

theorem exists_of_matchName (h : matchName u cs text = some name) :
    ∃ candidate ∈ cs, name.rest.length + candidate.name.length ≤ text.length := by
  obtain ⟨candidate, hmem, hmatch⟩ := exists_of_findSome?_eq_some h
  have hplain : ∀ mentioned, (afterName u candidate.name text).map (⟨candidate.id, ·, mentioned⟩) = some name →
      name.rest.length + candidate.name.length ≤ text.length := by
    intro mentioned hfound
    obtain ⟨rest, hrest, rfl⟩ := map_eq_some_iff.mp hfound
    exact (length_afterName hrest).le
  refine ⟨candidate, hmem, ?_⟩
  unfold matchCandidate at hmatch
  split at hmatch
  · obtain hfound | ⟨-, hfound⟩ := or_eq_some_iff.mp hmatch
    · obtain ⟨rest, hrest, rfl⟩ := map_eq_some_iff.mp hfound
      exact (length_afterName hrest).le.trans (Nat.le_succ _)
    · exact hplain false hfound
  · exact hplain false hmatch

theorem pastConjunction_spec (h : pastConjunction u cs text = some past) :
    past.length ≤ text.length ∧ (matchName u cs past).isSome := by
  obtain ⟨hpast, hnamed⟩ := filter_eq_some_iff.mp h
  exact ⟨length_afterConjunction hpast, hnamed⟩

theorem nextName_spec (h : nextName u cs text = some past) :
    past.length ≤ text.length ∧ (matchName u cs past).isSome := by
  cases text with
  | nil => cases h
  | cons c rest =>
    have hrest := length_trimStart rest
    rw [nextName] at h
    split at h
    · unfold pastComma at h
      split at h
      · next hnamed =>
        obtain rfl := some.inj h
        exact ⟨hrest.trans (Nat.le_succ _), hnamed⟩
      · obtain ⟨hlength, hnamed⟩ := pastConjunction_spec h
        exact ⟨(hlength.trans hrest).trans (Nat.le_succ _), hnamed⟩
    · split at h
      · cases h
      · exact pastConjunction_spec h

/-! ### Readings -/

theorem not_punctuation {c : CodePoint} (h : afterConjunction u (c :: rest) = some past) :
    c ∉ points ",;:!?." := by
  intro hc
  unfold afterConjunction at h
  have hand : afterName u (points "and") (c :: rest) = none := if_neg (u.fold_ne c hc)
  rw [hand] at h
  have hother : ∀ d ∈ points ",;:!?.", d ≠ 0x26 ∧ d ≠ 0x2b := by decide
  dsimp only at h
  split at h
  · next heq => exact (hother c hc).1 (cons.inj heq).1
  · next heq => exact (hother c hc).2 (cons.inj heq).1
  · cases h

theorem joins_of_nextName (h : nextName u cs text = some past) : Joins u text past := by
  cases text with
  | nil => cases h
  | cons c rest =>
    rw [nextName] at h
    split at h
    · next hcomma =>
      subst hcomma
      unfold pastComma at h
      split at h
      · exact some.inj h ▸ .comma rest
      · exact .commaConjunction (filter_eq_some_iff.mp h).1
    · split at h
      · cases h
      · exact .conjunction (filter_eq_some_iff.mp h).1

theorem nextName_of_joins (h : Joins u text past) (hname : matchName u cs past ≠ none) :
    nextName u cs text ≠ none := by
  have hpast : (matchName u cs past).isSome := isSome_iff_ne_none.mpr hname
  have hfilter : ∀ {start}, afterConjunction u start = some past → pastConjunction u cs start = some past :=
    fun hstart => filter_eq_some_iff.mpr ⟨hstart, hpast⟩
  cases h with
  | comma rest =>
    rw [nextName, if_pos rfl, pastComma, if_pos hpast]
    exact some_ne_none _
  | @commaConjunction rest _ h =>
    rw [nextName, if_pos rfl, pastComma, hfilter h]
    split <;> exact some_ne_none _
  | conjunction h =>
    cases text with
    | nil => cases h
    | cons c rest =>
      have hmem : ∀ d ∈ points ";:!?.", d ∈ points ",;:!?." := by decide
      have hcomma : c ≠ comma := by
        rintro rfl
        exact not_punctuation h (by decide)
      have hclosing : ¬ isClosing c := fun hc => not_punctuation h (hmem c (of_decide_eq_true hc))
      rw [nextName, if_neg hcomma, if_neg hclosing, hfilter h]
      exact some_ne_none _

theorem Reading.named (h : Reading u cs text names) : matchName u cs text ≠ none := by
  cases h with
  | last hname | more hname => exact hname ▸ some_ne_none _

theorem Clause.reading (h : Clause u cs text names) : Reading u cs text names := by
  induction h with
  | last hname => exact .last hname
  | more hname hnext _ ih => exact .more hname (joins_of_nextName hnext) ih

theorem Clause.ne_nil (h : Clause u cs text names) : names ≠ [] := by
  cases h <;> exact cons_ne_nil _ _

theorem Reading.ne_nil (h : Reading u cs text names) : names ≠ [] := by
  cases h <;> exact cons_ne_nil _ _

theorem Clause.isWhole (h : Clause u cs text names) : IsWhole u cs names := by
  induction h with
  | last hname hend =>
    intro name hlast past hjoins
    obtain rfl := some.inj hlast
    exact not_not.mp fun hpast => nextName_of_joins hjoins hpast hend
  | more hname hnext hrest ih =>
    intro name hlast
    rw [getLast?_cons_of_ne_nil hrest.ne_nil] at hlast
    exact ih name hlast

theorem isClosed_cons (name : Found) (h : names ≠ []) :
    isClosed (name :: names) = (name.mentioned || isClosed names) := by
  unfold isClosed
  rw [any_cons, getLast?_cons_of_ne_nil h, Bool.or_assoc]

theorem closes_of_comma (h : text.head? = some comma) : closes text := by
  cases text with
  | nil => cases h
  | cons c rest =>
    obtain rfl := some.inj h
    rfl

/-- A message may be read to end at any of its names, and so at a comma that joins two of them. -/
theorem Clause.closed_at (h : Clause u cs text names) {name : Found} (hmem : name ∈ names)
    (hcomma : (trimStart name.rest).head? = some comma) :
    ∃ names', Reading u cs text names' ∧ isClosed names' := by
  have hlast : isClosed [name] := by
    unfold isClosed
    rw [getLast?_singleton, any_some, closes_of_comma hcomma, Bool.or_true]
  induction h with
  | last hname =>
    rw [mem_singleton] at hmem
    exact ⟨[name], .last (hmem ▸ hname), hlast⟩
  | @more text past first rest hname hnext hrest ih =>
    obtain rfl | hmem := mem_cons.mp hmem
    · exact ⟨[name], .last hname, hlast⟩
    · obtain ⟨names', hreading, hclosed⟩ := ih hmem
      refine ⟨first :: names', .more hname (joins_of_nextName hnext) hreading, ?_⟩
      rw [isClosed_cons first hreading.ne_nil, hclosed, Bool.or_true]

/-- With no comma behind a name, a message has the readings that the scanner's begins with, and none
is closed unless it is. -/
theorem Clause.open_of (h : Clause u cs text names) (hopen : isClosed names = false)
    (hcomma : ∀ name ∈ names, (trimStart name.rest).head? ≠ some comma) {names' : List Found}
    (hreading : Reading u cs text names') : isClosed names' = false := by
  induction h generalizing names' with
  | @last text name hname hend =>
    cases hreading with
    | last hname' =>
      obtain rfl := some.inj (hname.symm.trans hname')
      exact hopen
    | more hname' hjoins hrest =>
      obtain rfl := some.inj (hname.symm.trans hname')
      exact absurd hend (nextName_of_joins hjoins hrest.named)
  | @more text past name names hname hnext hrest ih =>
    rw [isClosed_cons name hrest.ne_nil, Bool.or_eq_false_iff] at hopen
    have hhead := hcomma name mem_cons_self
    cases hreading with
    | last hname' =>
      obtain rfl := some.inj (hname.symm.trans hname')
      have hcloses : closes (trimStart name.rest) = false := by
        cases htext : trimStart name.rest with
        | nil =>
          rw [htext] at hnext
          cases hnext
        | cons c rest =>
          rw [htext] at hnext hhead
          have hne : c ≠ comma := fun heq => hhead (congrArg some heq)
          rw [nextName, if_neg hne] at hnext
          split at hnext
          · cases hnext
          · next hclosing => simp [closes, hne, hclosing]
      unfold isClosed
      rw [getLast?_singleton, any_some, hcloses, any_cons, any_nil, hopen.1]
      rfl
    | @more _ past' _ names' hname' hjoins hrest' =>
      obtain rfl := some.inj (hname.symm.trans hname')
      have hpast : past' = past := by
        -- only a conjunction joins here, and it ends where it ends
        cases hjoins' : trimStart name.rest with
        | nil =>
          rw [hjoins'] at hnext
          cases hnext
        | cons c rest =>
          rw [hjoins'] at hnext hjoins hhead
          have hne : c ≠ comma := fun heq => hhead (congrArg some heq)
          rw [nextName, if_neg hne] at hnext
          split at hnext
          · cases hnext
          · cases hjoins with
            | comma | commaConjunction => exact absurd rfl hne
            | conjunction h => exact some.inj (h.symm.trans (filter_eq_some_iff.mp hnext).1)
      rw [isClosed_cons name hrest'.ne_nil, hopen.1, Bool.false_or]
      exact ih hopen.2 (fun other hmem => hcomma other (mem_cons_of_mem _ hmem)) (hpast ▸ hrest')

/-! ### The scanner -/

def Named (cs : List GroupMemberRef) : Prop := ∀ candidate ∈ cs, candidate.name ≠ []

theorem shorter_of_matchName (hcs : Named cs) (h : matchName u cs text = some name) :
    name.rest.length < text.length := by
  obtain ⟨candidate, hmem, hlength⟩ := exists_of_matchName h
  have hpos := length_pos_iff.mpr (hcs candidate hmem)
  omega

theorem exists_clause (hcs : Named cs) (h : (matchName u cs text).isSome) :
    ∃ names, Clause u cs text names := by
  induction hn : text.length using Nat.strong_induction_on generalizing text with
  | h n ih =>
    obtain ⟨name, hname⟩ := isSome_iff_exists.mp h
    rcases hnext : nextName u cs (trimStart name.rest) with _ | past
    · exact ⟨_, .last hname hnext⟩
    obtain ⟨hlength, hnamed⟩ := nextName_spec hnext
    have htrim := length_trimStart name.rest
    have hshorter := shorter_of_matchName hcs hname
    obtain ⟨names, hnames⟩ := ih past.length (by omega) hnamed rfl
    exact ⟨_, .more hname hnext hnames⟩

theorem scan_eq (h : matchName u cs text = some name) (fuel : ℕ) (addressed : List Text) (terminated : Bool) :
    scan u cs (fuel + 1) text addressed terminated =
      match nextName u cs (trimStart name.rest) with
      | some past => scan u cs fuel past (push addressed name.id) (terminated || name.mentioned)
      | none => (push addressed name.id, terminated || name.mentioned || closes (trimStart name.rest)) := by
  rw [scan, h]
  dsimp only
  cases trimStart name.rest with
  | nil => simp [nextName, closes]
  | cons c rest =>
    rw [nextName, closes]
    dsimp only
    by_cases hcomma : c = comma
    · rw [if_pos hcomma, if_pos hcomma]
      cases pastComma u cs rest <;> simp [hcomma]
    · rw [if_neg hcomma, if_neg hcomma]
      by_cases hclosing : isClosing c
      · simp [hclosing]
      · rw [if_neg hclosing, if_neg hclosing]
        cases pastConjunction u cs (c :: rest) <;> simp [hcomma, hclosing]

theorem scan_of_clause (hcs : Named cs) (h : Clause u cs text names) {fuel : ℕ} (hfuel : text.length < fuel)
    (addressed : List Text) (terminated : Bool) : scan u cs fuel text addressed terminated =
      ((names.map Found.id).foldl push addressed, terminated || isClosed names) := by
  induction h generalizing fuel addressed terminated with
  | last hname hend =>
    obtain ⟨fuel, rfl⟩ := Nat.exists_eq_add_of_lt hfuel
    rw [scan_eq hname, hend]
    simp [isClosed, Bool.or_assoc]
  | @more text past name names hname hnext hrest ih =>
    obtain ⟨fuel, rfl⟩ := Nat.exists_eq_add_of_lt hfuel
    have hlength := (nextName_spec hnext).1
    have htrim := length_trimStart name.rest
    have hshorter := shorter_of_matchName hcs hname
    rw [scan_eq hname, hnext, isClosed_cons _ hrest.ne_nil, map_cons, foldl_cons, ← Bool.or_assoc]
    exact ih (by omega) _ _

theorem foldl_push (ids addressed : List Text) :
    ids.foldl push addressed = addressed ++ (ids.filter fun id => id ∉ addressed).eraseDups := by
  induction ids generalizing addressed with
  | nil => exact (append_nil _).symm
  | cons id ids ih =>
    rw [foldl_cons, ih, push]
    by_cases hmem : id ∈ addressed
    · simp [hmem]
    · have hsame : (ids.filter fun other => other ∉ addressed ++ [id]) =
          ids.filter fun other => (!other == id) && decide (other ∉ addressed) :=
        filter_congr fun other _ => Bool.eq_iff_iff.mpr (by simp [and_comm])
      rw [if_neg hmem, filter_cons_of_pos (by simpa using hmem), eraseDups_cons, filter_filter, append_assoc, hsame]
      rfl

theorem named_candidates (members : List GroupMemberRef) : Named (candidates members) := by
  intro candidate hmem
  have hfound := mem_filter.mp (mem_mergeSort.mp hmem)
  exact of_decide_eq_true hfound.2

theorem scan_of_none (h : matchName u cs text = none) (fuel : ℕ) :
    scan u cs fuel text [] false = ([], false) := by
  cases fuel with
  | zero => rfl
  | succ fuel => rw [scan, h]

theorem Clause.ids_ne_nil (h : Clause u cs text names) : (names.map Found.id).eraseDups ≠ [] := by
  obtain ⟨name, rest, rfl⟩ := exists_cons_of_ne_nil h.ne_nil
  rw [map_cons, eraseDups_cons]
  exact cons_ne_nil _ _

section

variable {start : List CodePoint}
  (hstart : (afterOpener u (trimStart text)).getD (trimStart text) = start)
include hstart

theorem resolve_of_none (h : matchName u cs start = none) : resolve u cs text = [] := by
  unfold resolve
  rw [hstart]
  dsimp only
  rw [scan_of_none h]
  simp

theorem resolve_of_clause (hcs : Named cs) (h : Clause u cs start names) : resolve u cs text =
    if isClosed names || (afterOpener u (trimStart text)).isSome then (names.map Found.id).eraseDups else [] := by
  have hsome : cs ≠ [] := by
    rintro rfl
    exact h.reading.named rfl
  have hids : (names.map Found.id).foldl push [] = (names.map Found.id).eraseDups := by simp [foldl_push]
  unfold resolve
  rw [if_neg hsome, hstart]
  dsimp only
  rw [scan_of_clause hcs h (Nat.lt_succ_self _), hids]
  simp [h.ids_ne_nil]

end

/-- Nobody is found, so the rule is followed just if it addresses nobody. -/
theorem followsRule_of_nil {members : List GroupMemberRef} (h : resolveAddressedBotIds u text members = []) :
    FollowsRule u members text ↔ ∀ names, ¬ Addresses u (candidates members) text names := by
  unfold FollowsRule
  rw [h]
  simp

theorem follows_rule_iff (u : Unicode) (members : List GroupMemberRef) (text : List CodePoint) :
    FollowsRule u members text ↔
      ¬ OpenerIsName u (candidates members) text ∧ ¬ CommaGoesOn u (candidates members) text := by
  have hcs := named_candidates members
  obtain ⟨start, hstart⟩ : ∃ start, (afterOpener u (trimStart text)).getD (trimStart text) = start := ⟨_, rfl⟩
  by_cases hname : matchName u (candidates members) start = none
  · rw [followsRule_of_nil (resolve_of_none hstart hname)]
    cases hopener : afterOpener u (trimStart text) with
    | none =>
      -- no name stands at the start
      rw [hopener, getD_none] at hstart
      refine iff_of_true ?_ ⟨?_, ?_⟩
      · rintro names (⟨hreading, -⟩ | ⟨start', hstart', -⟩)
        · exact hreading.named (hstart ▸ hname)
        · rw [hopener] at hstart'
          cases hstart'
      · rintro ⟨start', -, hstart', -⟩
        rw [hopener] at hstart'
        cases hstart'
      · rintro ⟨-, names, hclause, -⟩
        exact hclause.reading.named (hstart ▸ hname)
    | some past =>
      -- no name stands behind the opener
      rw [hopener, getD_some] at hstart
      subst hstart
      constructor
      · intro hnone
        refine ⟨?_, fun hcomma => ?_⟩
        · rintro ⟨start', names, -, -, hclosed⟩
          exact hnone names (.inl hclosed)
        · have hnever := hcomma.1
          rw [hopener] at hnever
          cases hnever
      · rintro ⟨hopens, -⟩ names (hclosed | ⟨start', hstart', hreading⟩)
        · exact hopens ⟨past, names, hopener, hname, hclosed⟩
        · rw [hopener] at hstart'
          obtain rfl := some.inj hstart'
          exact hreading.named hname
  · obtain ⟨names, hclause⟩ := exists_clause hcs (isSome_iff_ne_none.mpr hname)
    have hresolve := resolve_of_clause hstart hcs hclause
    have hopens : ¬ OpenerIsName u (candidates members) text := by
      rintro ⟨start', -, hopener, hnone, -⟩
      rw [hopener, getD_some] at hstart
      exact hname (hstart ▸ hnone)
    by_cases hfound : (isClosed names || (afterOpener u (trimStart text)).isSome) = true
    · -- the scanner's reading is addressed
      rw [if_pos hfound] at hresolve
      have haddressed : Addresses u (candidates members) text names := by
        cases hopener : afterOpener u (trimStart text) with
        | none =>
          rw [hopener, getD_none] at hstart
          rw [hopener] at hfound
          exact .inl ⟨hstart ▸ hclause.reading, by simpa using hfound⟩
        | some start' =>
          rw [hopener, getD_some] at hstart
          exact .inr ⟨start', hopener, hstart ▸ hclause.reading⟩
      refine iff_of_true ?_ ⟨hopens, ?_⟩
      · unfold FollowsRule resolveAddressedBotIds
        rw [hresolve]
        exact ⟨iff_of_true hclause.ids_ne_nil ⟨names, haddressed⟩, fun _ => ⟨names, haddressed, hclause.isWhole, rfl⟩⟩
      · rintro ⟨hopener, names', hclause', hopen, -⟩
        rw [hopener, getD_none] at hstart
        have hsame := resolve_of_clause (by rw [hopener]; exact hstart) hcs (hstart ▸ hclause')
        rw [hresolve, hopen, hopener, if_neg (by simp)] at hsame
        exact hclause.ids_ne_nil hsame
    · -- the scanner's reading is not: then another one is, if a comma joins its names
      rw [if_neg hfound] at hresolve
      simp only [Bool.not_eq_true, Bool.or_eq_false_iff, isSome_eq_false_iff, isNone_iff_eq_none] at hfound
      obtain ⟨hopen, hopener⟩ := hfound
      rw [hopener, getD_none] at hstart
      subst hstart
      rw [followsRule_of_nil hresolve]
      constructor
      · intro hnone
        refine ⟨hopens, ?_⟩
        rintro ⟨-, names', hclause', -, name, hmem, hcomma⟩
        obtain ⟨names'', hclosed⟩ := hclause'.closed_at hmem hcomma
        exact hnone names'' (.inl hclosed)
      · rintro ⟨-, hgoesOn⟩ names' (⟨hreading, hclosed⟩ | ⟨start', hstart', -⟩)
        · have hfree : ∀ name ∈ names, (trimStart name.rest).head? ≠ some comma :=
            fun name hmem hcomma => hgoesOn ⟨hopener, names, hclause, hopen, name, hmem, hcomma⟩
          rw [hclause.open_of hopen hfree hreading] at hclosed
          cases hclosed
        · rw [hopener] at hstart'
          cases hstart'

def ascii : Unicode where
  isLetter c := 0x41 ≤ c && c ≤ 0x5a || 0x61 ≤ c && c ≤ 0x7a
  isWordPart c := 0x41 ≤ c && c ≤ 0x5a || 0x61 ≤ c && c ≤ 0x7a || 0x30 ≤ c && c ≤ 0x39 || c = 0x5f || c = 0x2d
  fold c := if 0x41 ≤ c && c ≤ 0x5a then c + 0x20 else c
  toLowerCase := List.map fun c => if 0x41 ≤ c && c ≤ 0x5a then c + 0x20 else c
  fold_ne := by decide

def member (name : String) : GroupMemberRef := ⟨lit name, points name⟩

def found (name rest : String) : Found := ⟨lit name, points rest, false⟩

def trio : List GroupMemberRef := [member "Radiant", member "Chief", member "And"]

/-- A member whose name opens the message; and a conjunction that is a member's name, or a comma,
behind which names go on. -/
theorem opener_hides_member :
    (resolveAddressedBotIds ascii (points "So, please do it") [member "So"] = [] ∧
      Addresses ascii (candidates [member "So"]) (points "So, please do it") [found "So" ", please do it"] ∧
      resolveAddressedBotIds ascii (points "So: please do it") [member "So"] = [lit "So"]) ∧
    (resolveAddressedBotIds ascii (points "Chief, and Radiant: hi") trio = [] ∧
      Addresses ascii (candidates trio) (points "Chief, and Radiant: hi")
        [found "Chief" ", and Radiant: hi", found "Radiant" ": hi"]) ∧
    resolveAddressedBotIds ascii (points "Chief, Radiant said so") trio = [] ∧
      Addresses ascii (candidates trio) (points "Chief, Radiant said so") [found "Chief" ", Radiant said so"] := by
  have hone : candidates [member "So"] = [member "So"] := mergeSort_singleton _
  have hmany : candidates trio = trio := mergeSort_of_pairwise (by decide)
  unfold resolveAddressedBotIds
  rw [hone, hmany]
  have hjoins : Joins ascii (points ", and Radiant: hi") (points "Radiant: hi") :=
    .commaConjunction (by decide)
  refine ⟨⟨by decide, .inl ⟨.last (by decide), by decide⟩, by decide⟩,
    ⟨by decide, .inl ⟨?_, by decide⟩⟩, by decide,
    .inl ⟨.last (by decide), by decide⟩⟩
  exact .more (by decide) hjoins (.last (by decide))

end ArdurBot.Mentions
