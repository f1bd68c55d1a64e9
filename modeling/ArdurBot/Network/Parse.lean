import ArdurBot.Network.Spelling

/-!
# Reading an address

`isIP` knows each spelling, and `parseIpv6` reads one without a zone id as the address it stands
for. One with a zone id is not read at all: the zone stays in the last group.
-/

namespace ArdurBot.Network

open List Utf16 Bool
open Option hiding map map_map

section

variable {parts left right : List Text} {code : CodeUnit}

theorem countGroups_cons (dotted : Bool) {part : Text} (h : isGroup part) (parts : List Text) :
    countGroups dotted (part :: parts) = (countGroups dotted parts).map (· + 1) := by
  cases parts with
  | nil => simp [countGroups, h]
  | cons next parts => rw [countGroups, if_pos h]; simp

theorem countGroups_groups (dotted : Bool) (h : ∀ part ∈ parts, isGroup part) :
    countGroups dotted parts = some parts.length := by
  induction parts with
  | nil => rfl
  | cons part parts ih =>
    obtain ⟨hpart, hparts⟩ := forall_mem_cons.mp h
    rw [countGroups_cons dotted hpart, ih hparts]
    rfl

theorem countGroups_tail (h : ∀ part ∈ parts, isGroup part) (tail : Ipv4) :
    countGroups true (parts ++ [tail.text]) = some (parts.length + 2) := by
  induction parts with
  | nil => simp [countGroups, tail.isGroup_text, tail.isIPv4_text]
  | cons part parts ih =>
    obtain ⟨hpart, hparts⟩ := forall_mem_cons.mp h
    rw [cons_append, countGroups_cons true hpart, ih hparts]
    rfl

theorem mem_spelled {gap : Bool} (h : code ∈ spelled gap left right) :
    code = colon ∨ ∃ part ∈ left ++ right, code ∈ part := by
  cases gap with
  | true =>
    simp only [spelled, if_true, mem_append, mem_cons] at h
    obtain h | h | h | h := h
    · refine (mem_of_mem_intercalate h).imp_right ?_
      rintro ⟨part, hpart, hmem⟩
      exact ⟨part, mem_append_left _ hpart, hmem⟩
    · exact .inl h
    · exact .inl h
    · refine (mem_of_mem_intercalate h).imp_right ?_
      rintro ⟨part, hpart, hmem⟩
      exact ⟨part, mem_append_right _ hpart, hmem⟩
  | false => exact mem_of_mem_intercalate h

theorem isHexDigit_of_isDigit (h : isDigit code) : isHexDigit code := by
  simp [isHexDigit, isLowerHex, h]

end

namespace Spelling

variable (spelling : Spelling)

theorem mem_body {code : CodeUnit} (h : code ∈ spelling.body) :
    isHexDigit code ∨ code = dot ∨ code = colon := by
  obtain hcolon | ⟨part, hpart, hmem⟩ := mem_spelled h
  · exact .inr (.inr hcolon)
  have hgroup : isGroup part → isHexDigit code := by
    intro hgroup
    simp only [isGroup, and_eq_true] at hgroup
    exact all_eq_true.mp hgroup.2 code hmem
  obtain hleft | hright := mem_append.mp hpart
  · exact .inl (hgroup (spelling.isGroup_left part hleft))
  obtain hright | htail := mem_append.mp hright
  · exact .inl (hgroup (spelling.isGroup_right part hright))
  · obtain ⟨tail, -, rfl⟩ := mem_map.mp htail
    exact (tail.isDigit_or_dot hmem).imp isHexDigit_of_isDigit .inl

theorem notMem_body {code : CodeUnit} (hhex : isHexDigit code = false) (hdot : code ≠ dot)
    (hcolon : code ≠ colon) :
    code ∉ spelling.body := by
  intro hmem
  obtain h | h | h := spelling.mem_body hmem
  · rw [h] at hhex
    cases hhex
  · exact hdot h
  · exact hcolon h

theorem cutGap_body : cutGap spelling.body
      = if spelling.gap then some (joined spelling.leftParts, joined spelling.rightParts) else none :=
  cutGap_spelled _ spelling.parts_left spelling.parts_right

theorem countGroups_right :
    countGroups true spelling.rightParts = some (spelling.right.length + spelling.tailLength) := by
  unfold rightParts tailLength
  cases spelling.tail with
  | none => simpa using countGroups_groups true spelling.isGroup_right
  | some tail => simpa using countGroups_tail spelling.isGroup_right tail

theorem countGroups_both : countGroups true (spelling.leftParts ++ spelling.rightParts)
      = some (spelling.left.length + spelling.right.length + spelling.tailLength) := by
  have hgroups : ∀ part ∈ spelling.leftParts ++ spelling.right.map Hextet.digits, isGroup part :=
    forall_mem_append.mpr ⟨spelling.isGroup_left, spelling.isGroup_right⟩
  unfold rightParts tailLength
  rw [← append_assoc]
  cases spelling.tail with
  | none => simpa [leftParts] using countGroups_groups true hgroups
  | some tail => simpa [leftParts] using countGroups_tail hgroups tail

theorem isIPv6Address_body : isIPv6Address spelling.body := by
  have hshape := spelling.shape
  unfold isIPv6Address
  rw [cutGap_body]
  cases hgap : spelling.gap with
  | true =>
    rw [hgap, if_pos rfl] at hshape
    rw [if_pos rfl]
    simp only [partsOf_joined spelling.parts_left, partsOf_joined spelling.parts_right,
      countGroups_groups false spelling.isGroup_left, countGroups_right]
    simp only [leftParts, length_map, tailLength, decide_eq_true_eq]
    omega
  | false =>
    rw [hgap, if_neg (by decide)] at hshape
    rw [if_neg (by decide)]
    have hparts : partsOf spelling.body = spelling.leftParts ++ spelling.rightParts := by
      unfold body
      rw [hgap]
      exact partsOf_joined (spelling.parts_left.append spelling.parts_right)
    simp only [hparts, countGroups_both, tailLength, hshape, beq_self_eq_true]

theorem takeWhile_text : spelling.text.takeWhile (· != percent) = spelling.body := by
  have hbody : ∀ code ∈ spelling.body, (code != percent) = true := by
    intro code hcode
    exact bne_iff_ne.mpr fun heq => spelling.notMem_body (by decide) (by decide) (by decide) (heq ▸ hcode)
  unfold text zoneText
  cases spelling.zone with
  | none => rw [append_nil, takeWhile_eq_self_iff.mpr hbody]
  | some zone => rw [takeWhile_append_of_pos hbody, takeWhile_cons_of_neg (by simp), append_nil]

theorem dropWhile_text : spelling.text.dropWhile (· != percent) = spelling.zoneText := by
  have h := takeWhile_append_dropWhile (p := (· != percent)) (l := spelling.text)
  rw [takeWhile_text] at h
  exact append_cancel_left h

theorem isIPv6_text : isIPv6 spelling.text := by
  unfold isIPv6
  simp only [takeWhile_text, dropWhile_text, isIPv6Address_body, Bool.true_and]
  unfold zoneText
  cases spelling.zone with
  | none => rfl
  | some zone => simp [zone.nonempty, zone.units]

theorem colon_mem_body : colon ∈ spelling.body := by
  have hshape := spelling.shape
  unfold body
  cases hgap : spelling.gap with
  | true => simp [spelled]
  | false =>
    rw [hgap, if_neg (by decide)] at hshape
    have hlength : 2 ≤ (spelling.leftParts ++ spelling.rightParts).length := by
      simp only [leftParts, rightParts, length_append, length_map]
      split_ifs at hshape <;> omega
    simp only [spelled, false_eq_true, if_false]
    obtain ⟨first, others, hparts⟩ := exists_cons_of_length_pos (Nat.lt_of_lt_of_le Nat.zero_lt_two hlength)
    rw [hparts] at hlength ⊢
    rw [joined_cons _ (ne_nil_of_length_pos (Nat.lt_of_succ_lt_succ hlength))]
    simp

theorem isIP_text : isIP spelling.text = 6 := by
  have hcolon : colon ∈ spelling.text := mem_append_left _ spelling.colon_mem_body
  unfold isIP
  rw [isIPv4_of_mem hcolon (by decide) (by decide), isIPv6_text]
  rfl

end Spelling

section

variable {groups left right : List Text} {value text rest tail : Text} {code : CodeUnit}

/-- One step of `reduce`. -/
def readGroup (result : ℕ) (group : Text) : Option ℕ :=
  (bigInt (if group = [] then lit "0" else group)).map fun value => result <<< 16 ||| value

variable {group : Text}

theorem readGroup_of_isGroup (result : ℕ) (h : isGroup group) :
    readGroup result group = some (65536 * result + hexValue group) := by
  have hlt : hexValue group < 2 ^ 16 := hexValue_lt h
  unfold readGroup
  rw [if_neg (part_of_isGroup h).1, bigInt_of_isGroup h, map_some,
    ← Nat.shiftLeft_add_eq_or_of_lt hlt, Nat.shiftLeft_eq, Nat.mul_comm]

theorem readGroup_of_mem (result : ℕ) (hmem : code ∈ group) (hcode : isHexDigit code = false) :
    readGroup result group = none := by
  unfold readGroup bigInt
  rw [if_neg (ne_nil_of_mem hmem), if_neg]
  · rfl
  · rintro ⟨-, hall⟩
    exact notMem_of_isHexDigit hall hcode hmem

theorem foldlM_readGroup (h : ∀ group ∈ groups, isGroup group) (start : ℕ) : groups.foldlM readGroup start
      = some ((groups.map hexValue).foldl (fun result group => 65536 * result + group) start) := by
  induction groups generalizing start with
  | nil => rfl
  | cons group groups ih =>
    obtain ⟨hgroup, hgroups⟩ := forall_mem_cons.mp h
    rw [foldlM_cons, readGroup_of_isGroup start hgroup]
    exact ih hgroups _

theorem foldlM_readGroup_of_mem (hgroup : group ∈ groups) (hmem : code ∈ group)
    (hcode : isHexDigit code = false) (start : ℕ) : groups.foldlM readGroup start = none := by
  induction groups generalizing start with
  | nil => cases hgroup
  | cons first groups ih =>
    rw [foldlM_cons]
    obtain rfl | hrest := mem_cons.mp hgroup
    · rw [readGroup_of_mem start hmem hcode]
      rfl
    · cases readGroup start first with
      | none => rfl
      | some result => exact ih hrest result

/-- The sides of the first gap, without what follows a second one. -/
def sidesOf (value : Text) : Text × Text :=
  match cutGap value with
  | none => (value, [])
  | some (left, rest) => (left, ((cutGap rest).map Prod.fst).getD rest)

theorem readGroups_eq (hasGap : Bool) (value : Text) : readGroups hasGap value
      = let left := partsOf (sidesOf value).1
        let right := partsOf (sidesOf value).2
        let missing : ℤ := 8 - left.length - right.length
        if !hasGap ∧ missing ≠ 0 then none
        else
          let groups := left ++ replicate missing.toNat (lit "0") ++ right
          if groups.length ≠ 8 then none else groups.foldlM readGroup 0 := rfl

theorem hexValue_zero : hexValue (lit "0") = 0 := by
  decide

theorem sidesOf_gap (hleft : Parts left) (hright : Parts right) :
    sidesOf (spelled true left right) = (joined left, joined right) := by
  unfold sidesOf
  rw [cutGap_spelled true hleft hright, if_pos rfl]
  simp only [cutGap_joined hright, map_none, getD_none]

theorem sidesOf_noGap (hleft : Parts left) (hright : Parts right) :
    sidesOf (spelled false left right) = (joined (left ++ right), []) := by
  unfold sidesOf
  rw [cutGap_spelled false hleft hright, if_neg (by decide)]
  rfl

theorem readGroups_spelled (gap : Bool) (hleft : ∀ part ∈ left, isGroup part)
    (hright : ∀ part ∈ right, isGroup part)
    (hshape : if gap then left.length + right.length ≤ 7 else left.length + right.length = 8) :
    readGroups gap (spelled gap left right)
      = some ((left.map hexValue ++ replicate (8 - (left.length + right.length)) 0 ++ right.map hexValue).foldl
          (fun result group => 65536 * result + group) 0) := by
  have hgroups : ∀ n, ∀ part ∈ left ++ replicate n (lit "0") ++ right, isGroup part := by
    intro n
    refine forall_mem_append.mpr ⟨forall_mem_append.mpr ⟨hleft, fun part hpart => ?_⟩, hright⟩
    rw [eq_of_mem_replicate hpart]
    decide
  rw [readGroups_eq]
  cases gap with
  | true =>
    rw [if_pos rfl] at hshape
    have hmissing : ((8 : ℤ) - left.length - right.length).toNat = 8 - (left.length + right.length) := by omega
    simp only [sidesOf_gap (parts_of_isGroup hleft) (parts_of_isGroup hright),
      partsOf_joined (parts_of_isGroup hleft),
      partsOf_joined (parts_of_isGroup hright), hmissing]
    rw [if_neg (by simp), if_neg (by simp only [length_append, length_replicate]; omega),
      foldlM_readGroup (hgroups _)]
    simp only [map_append, map_replicate, hexValue_zero]
  | false =>
    rw [if_neg (by decide)] at hshape
    have hboth := (parts_of_isGroup hleft).append (parts_of_isGroup hright)
    have hnil : partsOf [] = [] := rfl
    have hmissing : (8 : ℤ) - (left ++ right).length - ([] : List Text).length = 0 := by
      simp only [length_append, length_nil]
      omega
    have hall := hgroups 0
    simp only [replicate_zero, append_nil] at hall
    simp only [sidesOf_noGap (parts_of_isGroup hleft) (parts_of_isGroup hright), partsOf_joined hboth, hnil, hmissing]
    rw [if_neg (by simp), if_neg (by simp only [Int.toNat_zero, replicate_zero, append_nil, length_append]; omega)]
    simp only [Int.toNat_zero, replicate_zero, append_nil]
    rw [foldlM_readGroup hall, hshape]
    simp

theorem dottedTail_suffix (value : Text) : dottedTail value <:+ value := by
  have hjoined : joined (value.splitOn colon) = value := intercalate_splitOn colon
  unfold dottedTail
  obtain hnil | ⟨parts, last, hconcat⟩ := eq_nil_or_concat (value.splitOn colon)
  · exact absurd hnil (splitOn_ne_nil _ _)
  · rw [concat_eq_append] at hconcat
    rw [hconcat, joined_concat] at hjoined
    rw [hconcat, getLast?_concat, getD_some]
    exact ⟨front parts, hjoined⟩

theorem dottedTail_append (pre : Text) (h : colon ∉ tail) : dottedTail (pre ++ colon :: tail) = tail := by
  unfold dottedTail
  rw [splitOn_append_cons_of_beq _ _ (by simp), splitOn_eq_singleton h, getLast?_concat]
  rfl

theorem isIP_eq_four : isIP value = 4 ↔ isIPv4 value := by
  unfold isIP
  split_ifs <;> simp_all

theorem replaceIpv4Tail_text (pre : Text) (tail : Ipv4) : replaceIpv4Tail (pre ++ tail.text) tail.text
      = some (pre ++ (hexText (tail.a * 256 + tail.b) ++ colon :: hexText (tail.c * 256 + tail.d))) := by
  have hword : ∀ a b : Fin 256, (a : ℕ) <<< 8 ||| b = a * 256 + b := by
    intro a b
    rw [← Nat.shiftLeft_add_eq_or_of_lt (show (b : ℕ) < 2 ^ 8 from b.isLt), Nat.shiftLeft_eq]
  unfold replaceIpv4Tail
  rw [if_neg (not_not.mpr (isIP_eq_four.mpr tail.isIPv4_text)), tail.numbers_text]
  simp only [Ipv4.octets, map_cons, map_nil, hword]
  simp

theorem joined_group (parts : List Text) (first second : Text) :
    joined (parts ++ [first ++ colon :: second]) = joined (parts ++ [first, second]) := by
  have hsplit : parts ++ [first, second] = (parts ++ [first]) ++ [second] := by simp
  rw [hsplit, joined_concat, joined_concat]
  simp [front]

theorem spelled_group (gap : Bool) (left right : List Text) (first second : Text) :
    spelled gap left (right ++ [first ++ colon :: second]) = spelled gap left (right ++ [first, second]) := by
  cases gap with
  | true =>
    simp only [spelled, if_true]
    rw [joined_group]
  | false =>
    simp only [spelled, false_eq_true, if_false, ← append_assoc]
    rw [joined_group]

theorem spelled_nil (gap : Bool) (left right : List Text) (h : gap ∨ left ++ right ≠ []) :
    ∃ pre, spelled gap left (right ++ [[]]) = pre ++ [colon] := by
  have hfront : ∀ parts : List Text, parts ≠ [] → ∃ pre, front parts = pre ++ [colon] := by
    intro parts hparts
    obtain ⟨parts, last, rfl⟩ := (eq_nil_or_concat parts).resolve_left hparts
    exact ⟨front parts ++ last, by simp [front]⟩
  cases gap with
  | true =>
    simp only [spelled, if_true, joined_concat, append_nil]
    by_cases hright : right = []
    · exact ⟨joined left ++ [colon], by simp [hright, front]⟩
    · obtain ⟨pre, hpre⟩ := hfront right hright
      exact ⟨joined left ++ colon :: colon :: pre, by simp [hpre]⟩
  | false =>
    obtain ⟨pre, hpre⟩ := hfront _ (h.resolve_left (by decide))
    refine ⟨pre, ?_⟩
    simp only [spelled, false_eq_true, if_false, ← append_assoc]
    rw [joined_concat, hpre, append_nil]

theorem mem_of_cutGap (hpart : cutGap text = none) (hcode : code ≠ colon) {cut : Text × Text}
    (h : cutGap (text ++ code :: rest) = some cut) : code ∈ cut.1 := by
  induction text generalizing cut with
  | nil =>
    cases rest with
    | nil => cases h
    | cons second rest =>
      rw [nil_append, cutGap, if_neg fun hboth => hcode hboth.1] at h
      obtain ⟨inner, -, rfl⟩ := map_eq_some_iff.mp h
      exact mem_cons_self
  | cons first text ih =>
    cases text with
    | nil =>
      rw [cons_append, nil_append, cutGap, if_neg fun hboth => hcode hboth.2] at h
      obtain ⟨inner, hinner, rfl⟩ := map_eq_some_iff.mp h
      exact mem_cons_of_mem _ (ih rfl hinner)
    | cons second text =>
      rw [cutGap] at hpart
      split_ifs at hpart with hboth
      rw [cons_append, cons_append, cutGap, if_neg hboth, ← cons_append] at h
      obtain ⟨inner, hinner, rfl⟩ := map_eq_some_iff.mp h
      exact mem_cons_of_mem _ (ih (map_eq_none_iff.mp hpart) hinner)

theorem exists_part_of_mem (hmem : code ∈ value) (hcode : code ≠ colon) :
    ∃ part ∈ partsOf value, code ∈ part := by
  unfold partsOf
  rw [if_neg (ne_nil_of_mem hmem)]
  have hjoined : [colon].intercalate (value.splitOn colon) = value := intercalate_splitOn colon
  rw [← hjoined] at hmem
  exact (mem_of_mem_intercalate hmem).resolve_left hcode

theorem readGroups_of_mem (hasGap : Bool) (hcode : isHexDigit code = false) (hcolon : code ≠ colon)
    (hmem : code ∈ (sidesOf value).1 ∨ code ∈ (sidesOf value).2) : readGroups hasGap value = none := by
  have hpart : ∃ part ∈ partsOf (sidesOf value).1 ++ partsOf (sidesOf value).2, code ∈ part := by
    obtain h | h := hmem
    · obtain ⟨part, hpart, hin⟩ := exists_part_of_mem h hcolon
      exact ⟨part, mem_append_left _ hpart, hin⟩
    · obtain ⟨part, hpart, hin⟩ := exists_part_of_mem h hcolon
      exact ⟨part, mem_append_right _ hpart, hin⟩
  obtain ⟨part, hpart, hin⟩ := hpart
  rw [readGroups_eq]
  simp only
  split_ifs
  · rfl
  · rfl
  · refine foldlM_readGroup_of_mem ?_ hin hcode 0
    simp only [mem_append] at hpart ⊢
    tauto

theorem readGroups_percent (hasGap : Bool) (gap : Bool) (hleft : Parts left) (hright : Parts right)
    (zone : Text) :
    readGroups hasGap (spelled gap left right ++ percent :: zone) = none := by
  have hpercent : percent ≠ colon := by decide
  refine readGroups_of_mem hasGap (by decide) hpercent ?_
  unfold sidesOf
  cases gap with
  | true =>
    have hcut : cutGap (spelled true left right ++ percent :: zone)
        = some (joined left, joined right ++ percent :: zone) := by
      simp only [spelled, if_true, append_assoc, cons_append]
      exact cutGap_gap (cutGap_joined hleft) (getLast?_joined hleft)
    rw [hcut]
    refine .inr ?_
    cases hrest : cutGap (joined right ++ percent :: zone) with
    | none => simp [hrest]
    | some cut =>
      simp only [hrest, map_some, getD_some]
      exact mem_of_cutGap (cutGap_joined hright) hpercent hrest
  | false =>
    refine .inl ?_
    cases hcut : cutGap (spelled false left right ++ percent :: zone) with
    | none => simp
    | some cut =>
      change percent ∈ cut.1
      exact mem_of_cutGap (cutGap_joined (hleft.append hright)) hpercent hcut

end

namespace Spelling

variable (spelling : Spelling)

/-- The right parts with the tail as two groups. -/
def rightGroups : List Text :=
  spelling.right.map Hextet.digits
    ++ match spelling.tail with
      | some tail => [hexText (tail.a * 256 + tail.b), hexText (tail.c * 256 + tail.d)]
      | none => []

theorem isGroup_rightGroups : ∀ part ∈ spelling.rightGroups, isGroup part := by
  refine forall_mem_append.mpr ⟨spelling.isGroup_right, ?_⟩
  cases spelling.tail with
  | none => exact fun part hpart => absurd hpart not_mem_nil
  | some tail =>
    have hword : ∀ a b : Fin 256, isGroup (hexText (a * 256 + b)) := fun a b => isGroup_hexText (by omega)
    simp [hword]

theorem map_rightGroups : spelling.rightGroups.map hexValue
      = spelling.right.map (fun part => hexValue part.digits) ++ spelling.tailGroups := by
  unfold rightGroups tailGroups
  rw [map_append, map_map]
  cases spelling.tail <;> simp [hexText_spec, Function.comp_def]

theorem readGroups_body :
    readGroups spelling.gap (spelled spelling.gap spelling.leftParts spelling.rightGroups) = some spelling.value := by
  have hlength : spelling.rightGroups.length = spelling.right.length + spelling.tailLength := by
    unfold rightGroups tailLength
    cases spelling.tail <;> simp
  have hleft : spelling.leftParts.length = spelling.left.length := length_map _
  rw [readGroups_spelled _ spelling.isGroup_left spelling.isGroup_rightGroups, map_rightGroups,
    hlength, hleft]
  · simp only [value, groups, leftParts, map_map, Function.comp_def, Nat.add_assoc]
  · have hshape := spelling.shape
    rw [hlength, hleft]
    unfold tailLength
    split_ifs at hshape ⊢ <;> omega

theorem body_tail {tail : Ipv4} (h : spelling.tail = some tail) :
    ∃ pre, spelling.body = pre ++ colon :: tail.text
      ∧ pre ++ colon :: (hexText (tail.a * 256 + tail.b) ++ colon :: hexText (tail.c * 256 + tail.d))
          = spelled spelling.gap spelling.leftParts spelling.rightGroups := by
  have hshape := spelling.shape
  have hnonempty : spelling.gap ∨ spelling.leftParts ++ spelling.right.map Hextet.digits ≠ [] := by
    by_contra hnot
    obtain ⟨hgap, hnil⟩ := not_or.mp hnot
    rw [if_neg hgap, h] at hshape
    obtain ⟨hleft, hright⟩ := append_eq_nil_iff.mp (not_not.mp hnil)
    simp only [leftParts, map_eq_nil_iff] at hleft hright
    simp [hleft, hright] at hshape
  obtain ⟨pre, hpre⟩ := spelled_nil _ _ _ hnonempty
  refine ⟨pre, ?_, ?_⟩
  · unfold body rightParts
    rw [h, toList_some, map_singleton, spelled_concat, hpre]
    simp
  · unfold rightGroups
    rw [h, ← spelled_group, spelled_concat, hpre]
    simp

theorem dot_notMem_body (htail : spelling.tail = none) : dot ∉ spelling.body := by
  intro hmem
  obtain hcolon | ⟨part, hpart, hin⟩ := mem_spelled hmem
  · exact absurd hcolon (by decide)
  · simp only [rightParts, htail, toList_none, map_nil, append_nil] at hpart
    have hgroup : isGroup part :=
      (mem_append.mp hpart).elim (spelling.isGroup_left part) (spelling.isGroup_right part)
    simp only [isGroup, and_eq_true] at hgroup
    exact notMem_of_isHexDigit hgroup.2 (by decide) hin

theorem parseIpv6_text (h : spelling.zone = none) : parseIpv6 spelling.text = some spelling.value := by
  have htext : spelling.text = spelling.body := by
    unfold text zoneText
    rw [h, append_nil]
  have hgap : (cutGap spelling.body).isSome = spelling.gap := by
    rw [cutGap_body]
    cases spelling.gap <;> rfl
  unfold parseIpv6
  rw [if_neg (not_not.mpr spelling.isIP_text), htext, hgap]
  cases htail : spelling.tail with
  | none =>
    have hdot := spelling.dot_notMem_body htail
    have hcontains : (dottedTail spelling.body).contains dot = false := by
      simpa using fun hmem => hdot ((dottedTail_suffix _).subset hmem)
    simp only [hcontains, false_eq_true, if_false]
    have hbody : spelling.body = spelled spelling.gap spelling.leftParts spelling.rightGroups := by
      simp only [body, rightParts, rightGroups, htail, toList_none, map_nil]
    rw [hbody]
    exact spelling.readGroups_body
  | some tail =>
    obtain ⟨pre, hbody, hgroups⟩ := spelling.body_tail htail
    have hdotted : dottedTail spelling.body = tail.text := by
      rw [hbody]
      exact dottedTail_append pre tail.part_text.2
    have hcontains : tail.text.contains dot := by simpa using tail.dot_mem_text
    have hreplace : replaceIpv4Tail spelling.body tail.text
        = some (spelled spelling.gap spelling.leftParts spelling.rightGroups) := by
      rw [hbody, ← hgroups]
      simpa using replaceIpv4Tail_text (pre ++ [colon]) tail
    simp only [hdotted, hcontains, if_true, hreplace]
    exact spelling.readGroups_body

theorem parseIpv6_zone {zone : Zone} (h : spelling.zone = some zone) : parseIpv6 spelling.text = none := by
  have htext : spelling.text = spelling.body ++ percent :: zone.id := by
    unfold text zoneText
    rw [h]
  have hread : ∀ hasGap rest, readGroups hasGap (spelling.body ++ percent :: rest) = none :=
    fun hasGap rest =>
    readGroups_percent hasGap _ spelling.parts_left spelling.parts_right rest
  unfold parseIpv6
  rw [if_neg (not_not.mpr spelling.isIP_text), htext]
  simp only
  split_ifs with hdot
  · -- the tail that is replaced stands behind the `%`
    generalize htail : dottedTail (spelling.body ++ percent :: zone.id) = tail
    rcases hreplace : replaceIpv4Tail (spelling.body ++ percent :: zone.id) tail with _ | normalized
    · rfl
    have hsuffix : tail <:+ spelling.body ++ percent :: zone.id := htail ▸ dottedTail_suffix _
    unfold replaceIpv4Tail at hreplace
    split_ifs at hreplace with hip
    have hpercent : percent ∉ tail := by
      intro hmem
      have hfalse := isIPv4_of_mem hmem (by decide) (by decide)
      rw [isIP_eq_four.mp (not_not.mp hip)] at hfalse
      cases hfalse
    obtain ⟨pre, hpre⟩ := hsuffix
    have hbefore : ∃ rest, pre = spelling.body ++ percent :: rest := by
      obtain ⟨middle, -, hmiddle⟩ | ⟨middle, hmiddle, hzone⟩ := append_eq_append_iff.mp hpre
      · exact absurd (hmiddle ▸ mem_append_right _ mem_cons_self) hpercent
      · cases middle with
        | nil =>
          rw [nil_append] at hzone
          exact absurd (hzone ▸ mem_cons_self) hpercent
        | cons first middle =>
          obtain ⟨rfl, -⟩ := cons.inj hzone
          exact ⟨middle, hmiddle⟩
    obtain ⟨rest, rfl⟩ := hbefore
    have htake : (spelling.body ++ percent :: zone.id).take
        ((spelling.body ++ percent :: zone.id).length - tail.length) = spelling.body ++ percent :: rest := by
      rw [← hpre, length_append, Nat.add_sub_cancel, take_left]
    rw [htake] at hreplace
    split at hreplace
    · obtain rfl := some.inj hreplace
      simp only [append_assoc, cons_append]
      exact hread _ _
    · cases hreplace
  · exact hread _ _

end Spelling

end ArdurBot.Network
