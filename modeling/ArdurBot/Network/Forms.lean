import ArdurBot.Network.Classify

/-!
# Every form of an address

The spellings are all the texts that `isIP` knows. The classifiers answer alike for two spellings of
one address, and for an IPv4 address and those that embed it, except where a zone id or a translated
link-local address comes in.
-/

namespace ArdurBot.Network

open List Utf16
open Bool hiding true_and

section

variable {part text : Text} {parts : List Text}

theorem exists_digit {code : CodeUnit} (h : isDigit code) : ∃ digit :
    Fin 10, unit (digit : ℕ).digitChar = code := by
  rw [isDigit_iff] at h
  refine ⟨⟨code.toNat - 48, by omega⟩, ?_⟩
  have hdigits : ∀ digit : Fin 10, (unit (digit : ℕ).digitChar).toNat = digit + 48 := by decide
  rw [← UInt16.toNat_inj, hdigits]
  simp only
  omega

theorem foldl_number_ge (digits : Text) (start : ℕ) :
    10 ^ digits.length * start ≤ digits.foldl (fun result code => 10 * result + digitValue code) start := by
  induction digits generalizing start with
  | nil => simp
  | cons code digits ih =>
    calc 10 ^ (digits.length + 1) * start = 10 ^ digits.length * (10 * start) := by rw [pow_succ, Nat.mul_assoc]
      _ ≤ 10 ^ digits.length * (10 * start + digitValue code) := Nat.mul_le_mul_left _ (by omega)
      _ ≤ (code :: digits).foldl (fun result code => 10 * result + digitValue code) start := ih _

theorem one_digit (a : Fin 10) : [unit (a : ℕ).digitChar] = octetText ⟨a, by omega⟩ := by
  revert a
  decide

theorem two_digits (a b : Fin 10) (ha : a ≠ 0) :
    [unit (a : ℕ).digitChar, unit (b : ℕ).digitChar] = octetText ⟨10 * a + b, by omega⟩ := by
  revert a b
  decide

theorem three_digits (a b c : Fin 10) (ha : a ≠ 0) (h : 100 * (a : ℕ) + 10 * b + c < 256) :
    [unit (a : ℕ).digitChar, unit (b : ℕ).digitChar, unit (c : ℕ).digitChar] =
      octetText ⟨100 * a + 10 * b + c, h⟩ := by
  revert a b c
  decide +kernel

theorem exists_octet (h : isOctet part) : ∃ octet, part = octetText octet := by
  simp only [isOctet, and_eq_true, or_eq_true, bne_iff_ne, ne_eq, beq_iff_eq, decide_eq_true_eq] at h
  obtain ⟨⟨⟨hnil, hall⟩, hzero⟩, hle⟩ := h
  have hvalue : ∀ digit : Fin 10, digitValue (unit (digit : ℕ).digitChar) = digit := by decide
  cases part with
  | nil => exact absurd rfl hnil
  | cons code rest =>
    simp only [all_cons, and_eq_true] at hall
    obtain ⟨a, rfl⟩ := exists_digit hall.1
    have hlong : 10 ^ rest.length * (a : ℕ) ≤ 255 := by
      have hge := foldl_number_ge rest a
      simp only [number, foldl_cons, hvalue, Nat.mul_zero, Nat.zero_add] at hle
      exact hge.trans hle
    cases rest with
    | nil => exact ⟨_, one_digit a⟩
    | cons second rest =>
      have ha : a ≠ 0 := by
        rintro rfl
        exact (hzero.resolve_left (by simp)) rfl
      have hpos : 1 ≤ (a : ℕ) := Nat.one_le_iff_ne_zero.mpr fun h0 => ha (Fin.ext h0)
      simp only [all_cons, and_eq_true] at hall
      obtain ⟨b, rfl⟩ := exists_digit hall.2.1
      cases rest with
      | nil => exact ⟨_, two_digits a b ha⟩
      | cons third rest =>
        simp only [all_cons, and_eq_true] at hall
        obtain ⟨c, rfl⟩ := exists_digit hall.2.2.1
        cases rest with
        | nil =>
          simp only [number, foldl_cons, foldl_nil, hvalue] at hle
          exact ⟨_, three_digits a b c ha (by omega)⟩
        | cons fourth rest =>
          exfalso
          simp only [length_cons] at hlong
          have hpow : 10 ^ 3 ≤ 10 ^ (rest.length + 1 + 1 + 1) := Nat.pow_le_pow_right (by omega) (by omega)
          have hmul := (Nat.mul_le_mul hpow hpos).trans hlong
          norm_num at hmul

theorem isIPv4_iff : isIPv4 text ↔ ∃ address : Ipv4, address.text = text := by
  constructor
  · intro h
    simp only [isIPv4, and_eq_true, beq_iff_eq, all_eq_true] at h
    obtain ⟨hlength, hall⟩ := h
    have hjoin : [dot].intercalate (text.splitOn dot) = text := intercalate_splitOn dot
    obtain ⟨p, q, r, s, hparts⟩ := length_eq_four.mp hlength
    rw [hparts] at hall hjoin
    obtain ⟨a, rfl⟩ := exists_octet (hall p (by simp))
    obtain ⟨b, rfl⟩ := exists_octet (hall q (by simp))
    obtain ⟨c, rfl⟩ := exists_octet (hall r (by simp))
    obtain ⟨d, rfl⟩ := exists_octet (hall s (by simp))
    exact ⟨⟨a, b, c, d⟩, hjoin⟩
  · rintro ⟨address, rfl⟩
    exact address.isIPv4_text

theorem cutGap_some {left right : Text} (h : cutGap text = some (left, right)) :
    text = left ++ colon :: colon :: right := by
  induction text generalizing left with
  | nil => cases h
  | cons first text ih =>
    cases text with
    | nil => cases h
    | cons second text =>
      rw [cutGap] at h
      split_ifs at h with hboth
      · obtain ⟨rfl, rfl⟩ := hboth
        cases h
        rfl
      · obtain ⟨cut, hcut, hpair⟩ := Option.map_eq_some_iff.mp h
        obtain ⟨rfl, rfl⟩ := Prod.mk.inj hpair
        rw [ih hcut]
        rfl

theorem joined_partsOf (text : Text) : joined (partsOf text) = text := by
  unfold partsOf
  split_ifs with h
  · rw [h]
    rfl
  · exact intercalate_splitOn colon

theorem exists_groups {dotted : Bool} {n : ℕ} (h : countGroups dotted parts = some n) :
    ∃ (groups : List Hextet) (tail : Option Ipv4),
      parts = groups.map Hextet.digits ++ tail.toList.map Ipv4.text
        ∧ n = groups.length + (if tail.isSome then 2 else 0) ∧ (tail.isSome → dotted) := by
  induction parts generalizing n with
  | nil =>
    cases h
    exact ⟨[], none, rfl, rfl, by simp⟩
  | cons part parts ih =>
    by_cases hgroup : isGroup part
    · rw [countGroups_cons dotted hgroup] at h
      obtain ⟨rest, hrest, rfl⟩ := Option.map_eq_some_iff.mp h
      obtain ⟨groups, tail, rfl, rfl, hdotted⟩ := ih hrest
      refine ⟨⟨part, hgroup⟩ :: groups, tail, rfl, ?_, hdotted⟩
      simp only [length_cons]
      omega
    · cases parts with
      | nil =>
        rw [countGroups, if_neg hgroup] at h
        split_ifs at h with hdotted
        rw [and_eq_true] at hdotted
        obtain ⟨address, rfl⟩ := isIPv4_iff.mp hdotted.2
        cases h
        exact ⟨[], some address, by simp, rfl, fun _ => hdotted.1⟩
      | cons next parts =>
        rw [countGroups, if_neg hgroup] at h
        · cases h
        · simp

theorem exists_body (h : isIPv6Address text) (zone : Option Zone) :
    ∃ spelling : Spelling, spelling.body = text ∧ spelling.zone = zone := by
  unfold isIPv6Address at h
  cases hcut : cutGap text with
  | none =>
    rw [hcut] at h
    simp only [beq_iff_eq] at h
    obtain ⟨groups, tail, hparts, hcount, -⟩ := exists_groups h
    refine ⟨⟨groups, false, [], tail, zone, ?_⟩, ?_, rfl⟩
    · simp only [false_eq_true, if_false, length_nil]
      omega
    · simp only [Spelling.body, spelled, Spelling.leftParts, Spelling.rightParts, false_eq_true, if_false,
        map_nil, nil_append]
      rw [← hparts, joined_partsOf]
  | some cut =>
    obtain ⟨left, right⟩ := cut
    rw [hcut] at h
    simp only at h
    rcases hbefore : countGroups false (partsOf left) with _ | before
    · simp [hbefore] at h
    rcases hafter : countGroups true (partsOf right) with _ | after
    · simp [hbefore, hafter] at h
    simp only [hbefore, hafter, decide_eq_true_eq] at h
    obtain ⟨groups, noTail, hleft, hcount, hdotted⟩ := exists_groups hbefore
    obtain ⟨others, tail, hright, hcount', -⟩ := exists_groups hafter
    have hnone : noTail = none := by
      cases noTail with
      | none => rfl
      | some tail => exact absurd (hdotted rfl) (by decide)
    subst hnone
    refine ⟨⟨groups, true, others, tail, zone, ?_⟩, ?_, rfl⟩
    · simp only [Option.isSome_none, false_eq_true, if_false] at hcount
      rw [if_pos rfl]
      omega
    · simp only [Option.toList_none, map_nil, append_nil] at hleft
      simp only [Spelling.body, spelled, Spelling.leftParts, Spelling.rightParts, if_true]
      rw [← hleft, ← hright, joined_partsOf, joined_partsOf, cutGap_some hcut]

theorem isIPv6_iff : isIPv6 text ↔ ∃ spelling : Spelling, spelling.text = text := by
  constructor
  · intro h
    simp only [isIPv6, and_eq_true, or_eq_true, beq_iff_eq, bne_iff_ne, ne_eq] at h
    obtain ⟨hbody, hzone⟩ := h
    have hsplit := takeWhile_append_dropWhile (p := (· != percent)) (l := text)
    obtain hnil | ⟨hnonempty, hunits⟩ := hzone
    · obtain ⟨spelling, hspelling, hnone⟩ := exists_body hbody none
      refine ⟨spelling, ?_⟩
      rw [← hsplit, hnil, ← hspelling]
      simp [Spelling.text, Spelling.zoneText, hnone]
    · obtain ⟨spelling, hspelling, hsome⟩ := exists_body hbody (some ⟨_, hnonempty, hunits⟩)
      refine ⟨spelling, ?_⟩
      have hne : text.dropWhile (· != percent) ≠ [] := fun hnil => hnonempty (by rw [hnil]; rfl)
      have hhead : (text.dropWhile (· != percent)).head hne = percent := by
        simpa using head_dropWhile_not (· != percent) hne
      rw [← hsplit, ← hspelling]
      simp only [Spelling.text, Spelling.zoneText, hsome]
      conv_rhs => rw [← cons_head_tail hne, hhead]
  · rintro ⟨spelling, rfl⟩
    exact spelling.isIPv6_text

end

/-- Whether a spelling of an address that embeds an IPv4 address is answered as that is. -/
def EmbeddedAlike (address : Ipv4) (spelling : Spelling) : Prop :=
  if spelling.zone.isNone then EmbedsPlain spelling.value address ∨ address.isLinkLocal = false
  else
    isPrivateIpv4Number address.value ∧ isCloudMetadataIpv4Number address.value = false
      ∧ address.isLinkLocal = false

/-- Whether two spellings of an address are answered alike. -/
def SpelledAlike (spelling other : Spelling) : Prop :=
  (spelling.zone.isNone ↔ other.zone.isNone)
    ∨ (isPrivateIpv6 spelling.value ∧ isCloudMetadataIpv6 spelling.value = false
        ∧ isLinkLocalIpv6 spelling.value = false)

theorem answers_embedded_iff {address : Ipv4} {spelling : Spelling} (h : Embeds spelling.value address) :
    answers spelling.text = answers address.text ↔ EmbeddedAlike address spelling := by
  rw [answers_ipv4]
  unfold EmbeddedAlike
  cases hzone : spelling.zone with
  | none =>
    rw [answers_noZone hzone, Option.isNone_none, if_pos rfl]
    simp only [ipv6Answers, ipv4Answers, isPrivateIpv6_of_embeds h, isCloudMetadataIpv6_of_embeds h,
      Prod.mk.injEq, true_and]
    obtain hplain | htranslated := h
    · exact ⟨fun _ => .inl hplain, fun _ => isLinkLocalIpv6_of_plain hplain⟩
    · rw [isLinkLocalIpv6_of_translated htranslated]
      constructor
      · exact fun hfalse => .inr hfalse.symm
      · rintro (hplain | hfalse)
        · rw [← isLinkLocalIpv6_of_plain hplain, isLinkLocalIpv6_of_translated htranslated]
        · exact hfalse.symm
  | some zone =>
    rw [answers_zone (by simp [hzone]), Option.isNone_some, if_neg (by decide)]
    simp only [unreadAnswers, ipv4Answers, Prod.mk.injEq]
    exact and_congr eq_comm (and_congr eq_comm eq_comm)

theorem unread_iff (ipv6 : ℕ) : ipv6Answers ipv6 = unreadAnswers
      ↔ isPrivateIpv6 ipv6 ∧ isCloudMetadataIpv6 ipv6 = false ∧ isLinkLocalIpv6 ipv6 = false := by
  simp only [ipv6Answers, unreadAnswers, Prod.mk.injEq]

theorem answers_spelled_iff {spelling other : Spelling} (h : spelling.value = other.value) :
    answers spelling.text = answers other.text ↔ SpelledAlike spelling other := by
  unfold SpelledAlike
  rw [← unread_iff]
  cases hzone : spelling.zone with
  | none =>
    rw [answers_noZone hzone]
    cases hother : other.zone with
    | none =>
      rw [answers_noZone hother, h]
      simp
    | some zone =>
      rw [answers_zone (by simp [hother])]
      simp
  | some zone =>
    rw [answers_zone (by simp [hzone])]
    cases hother : other.zone with
    | none =>
      rw [answers_noZone hother, ← h]
      simpa using eq_comm
    | some _ =>
      rw [answers_zone (by simp [hother])]
      simp

/-- When the spelling of an address does not matter. -/
theorem classification_ignores_spelling_iff (address : Ipv4) (spelling other : Spelling) (text : Text) :
    (Embeds spelling.value address → (answers spelling.text = answers address.text ↔ EmbeddedAlike address spelling))
    ∧ (spelling.value = other.value → (answers spelling.text = answers other.text ↔ SpelledAlike spelling other))
    ∧ (isIP text = 4 ↔ ∃ address : Ipv4, address.text = text)
    ∧ (isIP text = 6 ↔ ∃ spelling : Spelling, spelling.text = text) := by
  refine ⟨answers_embedded_iff, answers_spelled_iff, ?_, ?_⟩
  · rw [isIP_eq_four, isIPv4_iff]
  · constructor
    · intro h
      unfold isIP at h
      split_ifs at h with hipv4 hipv6
      · cases h
      · exact isIPv6_iff.mp hipv6
    · rintro ⟨spelling, rfl⟩
      exact spelling.isIP_text

/-- A link-local address behind the NAT64 prefix. -/
def nat64LinkLocal : Spelling where
  left := [⟨lit "64", by decide⟩, ⟨lit "ff9b", by decide⟩]
  gap := true
  right := [⟨lit "a9fe", by decide⟩, ⟨lit "101", by decide⟩]
  tail := none
  zone := none
  shape := by decide

/-- `fe80::1` with a zone id or without. -/
def linkLocalSpelling (zone : Option Zone) : Spelling where
  left := [⟨lit "fe80", by decide⟩]
  gap := true
  right := [⟨lit "1", by decide⟩]
  tail := none
  zone
  shape := by simp

theorem classification_ignores_spelling_mapped :
    (answers (mappedSpelling ⟨169, 254, 1, 1⟩).text = answers (Ipv4.text ⟨169, 254, 1, 1⟩)
      ↔ EmbeddedAlike ⟨169, 254, 1, 1⟩ (mappedSpelling ⟨169, 254, 1, 1⟩))
    ∧ (answers (linkLocalSpelling none).text = answers (linkLocalSpelling none).text
      ↔ SpelledAlike (linkLocalSpelling none) (linkLocalSpelling none)) :=
  ⟨(classification_ignores_spelling_iff _ _ (linkLocalSpelling none) []).1
    (.inl (.inl (value_mappedSpelling _))),
    (classification_ignores_spelling_iff ⟨169, 254, 1, 1⟩ _ _ []).2.1 rfl⟩

/-- The classifiers answer otherwise for a link-local address behind NAT64, and for one with its
zone id. -/
theorem nat64_hides_link_local :
    (nat64LinkLocal.text = lit "64:ff9b::a9fe:101" ∧ Ipv4.text ⟨169, 254, 1, 1⟩ = lit "169.254.1.1"
      ∧ Embeds nat64LinkLocal.value ⟨169, 254, 1, 1⟩
      ∧ isLinkLocalAddress (lit "169.254.1.1") = true ∧ isLinkLocalAddress (lit "64:ff9b::a9fe:101") = false)
    ∧ (linkLocalSpelling none).text = lit "fe80::1"
      ∧ (linkLocalSpelling (some ⟨lit "eth0", by decide, by decide⟩)).text = lit "fe80::1%eth0"
      ∧ isLinkLocalAddress (lit "fe80::1") = true ∧ isLinkLocalAddress (lit "fe80::1%eth0") = false := by
  refine ⟨⟨by decide, by decide,
    ?_, by decide +kernel, by decide +kernel⟩, by decide, by decide, by decide +kernel,
    by decide +kernel⟩
  exact .inr (.inl (by decide +kernel))

end ArdurBot.Network
