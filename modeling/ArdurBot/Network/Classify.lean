import ArdurBot.Network.Parse

/-!
# Classifying an address

The classifiers answer for the address that a spelling stands for, in upper or lower case. They
differ from what they answer for an embedded IPv4 address only where it is link-local and behind the
NAT64 or the 6to4 prefix, and they do not read an address with a zone id.
-/

namespace ArdurBot.Network

open List Utf16

section

variable {code : CodeUnit} {digits : Text}

theorem toNat_lower (code : CodeUnit) :
    (lower code).toNat = if 65 ≤ code.toNat ∧ code.toNat ≤ 90 then code.toNat + 32 else code.toNat := by
  have hA : (unit 'A').toNat = 65 := rfl
  have hZ : (unit 'Z').toNat = 90 := rfl
  have hstep : (32 : CodeUnit).toNat = 32 := rfl
  unfold lower
  simp only [Bool.and_eq_true, decide_eq_true_eq, UInt16.le_iff_toNat_le, hA, hZ]
  split_ifs with h
  · rw [UInt16.toNat_add, hstep]
    omega
  · rfl

theorem isHexDigit_iff : isHexDigit code
      ↔ (48 ≤ code.toNat ∧ code.toNat ≤ 57) ∨ (97 ≤ code.toNat ∧ code.toNat ≤ 102)
          ∨ (65 ≤ code.toNat ∧ code.toNat ≤ 70) := by
  simp only [isHexDigit, isLowerHex, Bool.or_eq_true, isDigit_iff, Bool.and_eq_true,
    decide_eq_true_eq, UInt16.le_iff_toNat_le, or_assoc]
  exact Iff.rfl

theorem isZoneUnit_iff : isZoneUnit code
      ↔ (48 ≤ code.toNat ∧ code.toNat ≤ 57) ∨ (97 ≤ code.toNat ∧ code.toNat ≤ 122)
          ∨ (65 ≤ code.toNat ∧ code.toNat ≤ 90) ∨ code.toNat = 45 ∨ code.toNat = 46 ∨ code.toNat = 58 := by
  simp only [isZoneUnit, isLower, isUpper, Bool.or_eq_true, isDigit_iff, Bool.and_eq_true,
    decide_eq_true_eq, UInt16.le_iff_toNat_le,
    beq_iff_eq, ← UInt16.toNat_inj, or_assoc]
  exact Iff.rfl

theorem digitValue_eq (code : CodeUnit) : digitValue code
      = if 48 ≤ code.toNat ∧ code.toNat ≤ 57 then code.toNat - 48
        else if 97 ≤ code.toNat then code.toNat - 87
        else code.toNat - 55 := by
  have ha : (unit 'a').toNat = 97 := rfl
  unfold digitValue
  simp only [isDigit_iff, UInt16.le_iff_toNat_le, ha]

theorem isHexDigit_lower (h : isHexDigit code) : isHexDigit (lower code) := by
  rw [isHexDigit_iff] at h ⊢
  rw [toNat_lower]
  split_ifs <;> omega

theorem isZoneUnit_lower (h : isZoneUnit code) : isZoneUnit (lower code) := by
  rw [isZoneUnit_iff] at h ⊢
  rw [toNat_lower]
  split_ifs <;> omega

theorem digitValue_lower (code : CodeUnit) : digitValue (lower code) = digitValue code := by
  rw [digitValue_eq, digitValue_eq, toNat_lower]
  split_ifs <;> omega

theorem hexValue_lower (digits : Text) : hexValue (digits.map lower) = hexValue digits := by
  unfold hexValue
  rw [foldl_map]
  simp only [digitValue_lower]

theorem isGroup_lower (h : isGroup digits) : isGroup (digits.map lower) := by
  simp only [isGroup, Bool.and_eq_true, bne_iff_ne, ne_eq, decide_eq_true_eq] at h ⊢
  obtain ⟨⟨hnil, hlength⟩, hall⟩ := h
  refine ⟨⟨by simpa using hnil, by simpa using hlength⟩, all_eq_true.mpr fun code hcode => ?_⟩
  obtain ⟨upper, hupper, rfl⟩ := mem_map.mp hcode
  exact isHexDigit_lower (all_eq_true.mp hall upper hupper)

theorem lower_of_lt (h : code.toNat < 65) : lower code = code := by
  rw [← UInt16.toNat_inj, toNat_lower, if_neg (by omega)]

theorem Ipv4.map_lower (address : Ipv4) : address.text.map lower = address.text := by
  have hcode : ∀ code ∈ address.text, lower code = id code := by
    intro code hmem
    refine lower_of_lt ?_
    obtain h | rfl := address.isDigit_or_dot hmem
    · rw [isDigit_iff] at h
      omega
    · decide
  rw [map_congr_left hcode, map_id]

end

theorem normalized_of_notMem {address : Text}
    (hopen : unit '[' ∉ address.map lower) (hclose : unit ']' ∉ address.map lower) :
    normalized address = address.map lower := by
  have hhead : (address.map lower).head? ≠ some (unit '[') := fun h => hopen (mem_of_head? h)
  have hlast : (address.map lower).getLast? ≠ some (unit ']') := fun h => hclose (mem_of_getLast? h)
  unfold normalized unbracketed
  simp only [if_neg hhead, if_neg hlast]

theorem Ipv4.normalized_text (address : Ipv4) : normalized address.text = address.text := by
  have h : ∀ code, isDigit code = false → code ≠ dot → code ∉ address.text.map lower := by
    intro code hdigit hdot
    rw [address.map_lower]
    exact address.notMem_text hdigit hdot
  rw [normalized_of_notMem (h _ (by decide) (by decide)) (h _ (by decide) (by decide)), address.map_lower]

def Hextet.lowered (part : Hextet) : Hextet := ⟨part.digits.map lower, isGroup_lower part.group⟩

def Zone.lowered (zone : Zone) : Zone where
  id := zone.id.map lower
  nonempty := by simpa using zone.nonempty
  units := by
    refine all_eq_true.mpr fun code hcode => ?_
    obtain ⟨upper, hupper, rfl⟩ := mem_map.mp hcode
    exact isZoneUnit_lower (all_eq_true.mp zone.units upper hupper)

theorem map_lower_joined (parts : List Text) :
    (joined parts).map lower = joined (parts.map (·.map lower)) := by
  have hcolon : lower colon = colon := lower_of_lt (by decide)
  induction parts with
  | nil => rfl
  | cons part parts ih =>
    by_cases hnil : parts = []
    · simp [hnil, joined]
    · rw [map_cons, joined_cons _ hnil, joined_cons _ (by simpa using hnil), map_append, map_cons, hcolon, ih]

namespace Spelling

variable (spelling : Spelling)

def lowered : Spelling where
  left := spelling.left.map Hextet.lowered
  gap := spelling.gap
  right := spelling.right.map Hextet.lowered
  tail := spelling.tail
  zone := spelling.zone.map Zone.lowered
  shape := by
    simp only [length_map]
    exact spelling.shape

theorem value_lowered : spelling.lowered.value = spelling.value := by
  simp only [value, groups, lowered, map_map, Function.comp_def, Hextet.lowered, hexValue_lower, length_map,
    tailLength, tailGroups]
  rfl

theorem body_lowered : spelling.lowered.body = spelling.body.map lower := by
  have hcolon : lower colon = colon := lower_of_lt (by decide)
  have hleft : spelling.lowered.leftParts = spelling.leftParts.map (·.map lower) := by
    simp [leftParts, lowered, Hextet.lowered, Function.comp_def]
  have hright : spelling.lowered.rightParts = spelling.rightParts.map (·.map lower) := by
    simp only [rightParts, lowered, map_append, map_map, Function.comp_def, Hextet.lowered, Ipv4.map_lower]
  unfold body spelled
  rw [hleft, hright]
  change (if spelling.gap then _ else _) = _
  split_ifs
  · simp only [map_append, map_cons, hcolon, map_lower_joined]
  · rw [map_lower_joined, map_append]

theorem text_lowered : spelling.lowered.text = spelling.text.map lower := by
  have hpercent : lower percent = percent := lower_of_lt (by decide)
  unfold text
  rw [map_append, body_lowered]
  congr 1
  unfold zoneText lowered
  cases spelling.zone with
  | none => rfl
  | some zone => simp [Zone.lowered, hpercent]

theorem notMem_text {code : CodeUnit} (hzone : isZoneUnit code = false) (hhex : isHexDigit code = false)
    (hpercent : code ≠ percent) (hdot : code ≠ dot) (hcolon : code ≠ colon) : code ∉ spelling.text := by
  intro hmem
  obtain hbody | htail := mem_append.mp hmem
  · exact spelling.notMem_body hhex hdot hcolon hbody
  · unfold zoneText at htail
    rcases hz : spelling.zone with _ | zone
    · rw [hz] at htail
      exact absurd htail not_mem_nil
    rw [hz] at htail
    obtain rfl | hid := mem_cons.mp htail
    · exact hpercent rfl
    · rw [all_eq_true.mp zone.units code hid] at hzone
      cases hzone

theorem normalized_text : normalized spelling.text = spelling.lowered.text := by
  have h : ∀ code, isZoneUnit code = false → isHexDigit code = false → code ≠ percent → code ≠ dot → code ≠ colon →
      code ∉ spelling.text.map lower := by
    intro code hzone hhex hpercent hdot hcolon
    rw [← text_lowered]
    exact spelling.lowered.notMem_text hzone hhex hpercent hdot hcolon
  rw [text_lowered]
  exact normalized_of_notMem (h _ (by decide) (by decide) (by decide) (by decide) (by decide))
    (h _ (by decide) (by decide) (by decide) (by decide) (by decide))

end Spelling

section

variable {address : Ipv4} {ipv6 : ℕ}

section

variable (ipv6 : ℕ) (address : Ipv4)

def EmbedsPlain : Prop := ipv6 = 0xffff * 2 ^ 32 + address.value ∨ ipv6 = address.value

/-- NAT64 addresses, and 6to4 addresses with any interface. -/
def EmbedsTranslated : Prop :=
  ipv6 = 0x64ff9b * 2 ^ 96 + address.value ∨ ipv6 / 2 ^ 80 = 0x2002 * 2 ^ 32 + address.value

def Embeds : Prop := EmbedsPlain ipv6 address ∨ EmbedsTranslated ipv6 address

end

def Ipv4.isLinkLocal (address : Ipv4) : Bool := (address.a : ℕ) == 169 && (address.b : ℕ) == 254

variable (address) in
theorem low_word (h : ipv6 % 2 ^ 32 = address.value) : ipv6 &&& 0xffffffff = address.value := by
  have hmask : (0xffffffff : ℕ) = 2 ^ 32 - 1 := by norm_num
  rw [hmask, Nat.and_two_pow_sub_one_eq_mod, h]

theorem getEmbedded_of_embeds (h : Embeds ipv6 address) :
    getEmbeddedIpv4Number ipv6 = some address.value := by
  have hlt := address.value_lt
  unfold getEmbeddedIpv4Number
  simp only [Nat.shiftRight_eq_div_pow]
  obtain (rfl | rfl) | rfl | h := h
  · rw [if_pos (.inl (by omega)), low_word address (by omega)]
  · rw [if_pos (.inr (by omega)), low_word address (by omega)]
  · rw [if_neg (by omega), if_pos (by rw [Nat.shiftLeft_eq]; omega), low_word address (by omega)]
  · have hmask : (0xffffffff : ℕ) = 2 ^ 32 - 1 := by norm_num
    rw [if_neg (by omega), if_neg (by rw [Nat.shiftLeft_eq]; omega), if_pos (by omega), h, hmask,
      Nat.and_two_pow_sub_one_eq_mod]
    congr 1
    omega

theorem octets_of_value (address : Ipv4) :
    (address.value >>> 24) &&& 0xff = address.a ∧ (address.value >>> 16) &&& 0xff = address.b := by
  have hmask : (0xff : ℕ) = 2 ^ 8 - 1 := by norm_num
  have ha := address.a.isLt
  have hb := address.b.isLt
  have hc := address.c.isLt
  have hd := address.d.isLt
  rw [hmask, Nat.and_two_pow_sub_one_eq_mod, Nat.and_two_pow_sub_one_eq_mod, Nat.shiftRight_eq_div_pow,
    Nat.shiftRight_eq_div_pow]
  unfold Ipv4.value
  omega

theorem isPrivateOctets_text (address : Ipv4) :
    isPrivateOctets (octetAt address.text 0) (octetAt address.text 1) = isPrivateIpv4Number address.value := by
  obtain ⟨ha, hb⟩ := octets_of_value address
  unfold isPrivateIpv4Number octetAt
  rw [address.numbers_text]
  simp only [ha, hb]
  simp [Ipv4.octets, isPrivateOctets, Bool.and_assoc]

theorem ipv4ToNumber_text (address : Ipv4) : ipv4ToNumber address.text = address.value := by
  have hstep : ∀ (result : ℕ) (octet : Fin 256), result * 256 + octet < 2 ^ 32 →
      (result <<< 8 ||| (octet : ℕ)) % 2 ^ 32 = result * 256 + octet := by
    intro result octet hlt
    rw [← Nat.shiftLeft_add_eq_or_of_lt (show (octet : ℕ) < 2 ^ 8 from octet.isLt),
      Nat.shiftLeft_eq, Nat.mod_eq_of_lt hlt]
  have ha := address.a.isLt
  have hb := address.b.isLt
  have hc := address.c.isLt
  have hd := address.d.isLt
  have hmap : ipv4ToNumber address.text
      = ((address.text.splitOn dot).map number).foldl (fun result octet => (result <<< 8 ||| octet) % 2 ^ 32) 0 := by
    rw [foldl_map]
    rfl
  rw [hmap, address.numbers_text]
  simp only [Ipv4.octets, map_cons, map_nil, foldl_cons, foldl_nil]
  rw [hstep 0 address.a (by omega), hstep _ address.b (by omega), hstep _ address.c (by omega),
    hstep _ address.d (by omega)]
  unfold Ipv4.value
  omega

/-- Private, metadata of a cloud, link-local. -/
abbrev Answers := Bool × Bool × Bool

def answers (address : Text) : Answers :=
  (isPrivateAddress address, isCloudMetadataAddress address, isLinkLocalAddress address)

def ipv4Answers (address : Ipv4) : Answers :=
  (isPrivateIpv4Number address.value, isCloudMetadataIpv4Number address.value, address.isLinkLocal)

def ipv6Answers (ipv6 : ℕ) : Answers :=
  (isPrivateIpv6 ipv6, isCloudMetadataIpv6 ipv6, isLinkLocalIpv6 ipv6)

/-- A text that is not read is private and nothing else. -/
def unreadAnswers : Answers := (true, false, false)

theorem mappedIpv4_some {value mapped : Text} (h : mappedIpv4 value = some mapped) :
    value = lit "::ffff:" ++ mapped ∧ (∀ code ∈ mapped, isDigit code ∨ code = dot) ∧ dot ∈ mapped := by
  unfold mappedIpv4 at h
  simp only at h
  split_ifs at h with hmapped
  obtain ⟨hstart, hlength, hall⟩ := hmapped
  obtain rfl := Option.some.inj h
  obtain ⟨rest, rfl⟩ := isPrefixOf_iff_prefix.mp hstart
  have hdrop : (lit "::ffff:" ++ rest).drop 7 = rest := by simp [lit]
  rw [hdrop] at hlength hall ⊢
  refine ⟨rfl, fun code hcode => ?_, ?_⟩
  · have hjoined : [dot].intercalate (rest.splitOn dot) = rest := intercalate_splitOn dot
    rw [← hjoined] at hcode
    obtain hdot | ⟨part, hpart, hin⟩ := mem_of_mem_intercalate hcode
    · exact .inr hdot
    · have hdigits := all_eq_true.mp hall part hpart
      rw [Bool.and_eq_true] at hdigits
      exact .inl (all_eq_true.mp hdigits.2 code hin)
  · by_contra hdot
    rw [splitOn_eq_singleton hdot] at hlength
    simp at hlength

section

variable (address : Ipv4)

theorem isLinkLocal_text :
    (octetAt address.text 0 == some 169 && octetAt address.text 1 == some 254) = address.isLinkLocal := by
  unfold octetAt Ipv4.isLinkLocal
  rw [address.numbers_text]
  simp [Ipv4.octets]

theorem answers_ipv4 : answers address.text = ipv4Answers address := by
  have hnotMapped : mappedIpv4 address.text = none := by
    rcases h : mappedIpv4 address.text with _ | mapped
    · rfl
    have hcolon : colon ∈ address.text := by
      rw [(mappedIpv4_some h).1]
      simp [lit]
    exact absurd hcolon address.part_text.2
  have hof : ipv4Of address.text = some address.text := by
    unfold ipv4Of
    rw [hnotMapped, if_pos (isIP_eq_four.mpr address.isIPv4_text)]
    rfl
  unfold answers isPrivateAddress isCloudMetadataAddress isLinkLocalAddress
  simp only [address.normalized_text, hof]
  rw [isPrivateOctets_text, ipv4ToNumber_text, isLinkLocal_text]
  rfl

/-- A mapped address with a dotted tail, as the classifiers look for it. -/
def mappedSpelling : Spelling where
  left := []
  gap := true
  right := [⟨lit "ffff", by decide⟩]
  tail := some address
  zone := none
  shape := by simp

theorem text_mappedSpelling : (mappedSpelling address).text = lit "::ffff:" ++ address.text := by
  simp [Spelling.text, Spelling.body, Spelling.zoneText, Spelling.leftParts, Spelling.rightParts, mappedSpelling, spelled,
    joined, lit, intercalate]

theorem value_mappedSpelling : (mappedSpelling address).value = 0xffff * 2 ^ 32 + address.value := by
  have hffff : hexValue (lit "ffff") = 0xffff := by decide
  simp [Spelling.value, Spelling.groups, Spelling.tailGroups, Spelling.tailLength, mappedSpelling, hffff,
    replicate]
  unfold Ipv4.value
  omega

end

theorem mappedIpv4_text {spelling : Spelling} {mapped : Text} (h : mappedIpv4 spelling.text = some mapped) :
    spelling.zone = none ∧ ∃ address :
    Ipv4, mapped = address.text ∧ spelling.value = 0xffff * 2 ^ 32 + address.value := by
  obtain ⟨htext, hcodes, hdot⟩ := mappedIpv4_some h
  have hzone : spelling.zone = none := by
    by_contra hsome
    obtain ⟨zone, hzone⟩ := Option.ne_none_iff_exists'.mp hsome
    have hpercent : percent ∈ spelling.text := by
      unfold Spelling.text Spelling.zoneText
      rw [hzone]
      exact mem_append_right _ mem_cons_self
    rw [htext, mem_append] at hpercent
    obtain hin | hin := hpercent
    · exact absurd hin (by decide)
    · exact absurd (hcodes _ hin) (by decide)
  have hbody : spelling.text = spelling.body := by
    unfold Spelling.text Spelling.zoneText
    rw [hzone, append_nil]
  refine ⟨hzone, ?_⟩
  have hcolon : colon ∉ mapped := fun hin => absurd (hcodes _ hin) (by decide)
  have hlast : dottedTail spelling.body = mapped := by
    have hsplit : lit "::ffff:" ++ mapped = lit "::ffff" ++ colon :: mapped := by simp [lit]
    rw [← hbody, htext, hsplit]
    exact dottedTail_append _ hcolon
  cases htail : spelling.tail with
  | none =>
    refine absurd ?_ (spelling.dot_notMem_body htail)
    rw [← hbody, htext]
    exact mem_append_right _ hdot
  | some address =>
    obtain ⟨pre, hpre, -⟩ := spelling.body_tail htail
    have hmapped : mapped = address.text := by
      rw [← hlast, hpre]
      exact dottedTail_append pre address.part_text.2
    refine ⟨address, hmapped, ?_⟩
    have hsame : spelling.text = (mappedSpelling address).text := by rw [htext, hmapped, text_mappedSpelling]
    have hread := spelling.parseIpv6_text hzone
    rw [hsame, (mappedSpelling address).parseIpv6_text rfl, value_mappedSpelling] at hread
    exact (Option.some.inj hread).symm

theorem isIP_ne_four (spelling : Spelling) : isIP spelling.text ≠ 4 := by
  rw [spelling.isIP_text]
  decide

theorem answers_zone {spelling : Spelling} (h : spelling.zone ≠ none) :
    answers spelling.text = unreadAnswers := by
  obtain ⟨zone, hzone⟩ := Option.ne_none_iff_exists'.mp h
  have hlowered : spelling.lowered.zone = some zone.lowered := by
    simp [Spelling.lowered, hzone]
  have hof : ipv4Of spelling.lowered.text = none := by
    unfold ipv4Of
    rw [if_neg (isIP_ne_four _), Option.or_none]
    cases hmapped : mappedIpv4 spelling.lowered.text with
    | none => rfl
    | some mapped =>
      rw [(mappedIpv4_text hmapped).1] at hlowered
      cases hlowered
  unfold answers isPrivateAddress isCloudMetadataAddress isLinkLocalAddress
  simp only [spelling.normalized_text, hof, spelling.lowered.parseIpv6_zone hlowered]
  rfl

theorem isPrivateIpv6_of_embeds (h : Embeds ipv6 address) :
    isPrivateIpv6 ipv6 = isPrivateIpv4Number address.value := by
  have hlt := address.value_lt
  have hrange : ipv6 < 2 ^ 120 ∨ ipv6 / 2 ^ 112 = 0x2002 := by
    obtain (rfl | rfl) | rfl | h := h <;> omega
  have hzero : isPrivateIpv4Number 0 := by decide
  have hone : isPrivateIpv4Number 1 := by decide
  unfold isPrivateIpv6
  simp only [getEmbedded_of_embeds h, Nat.shiftRight_eq_div_pow]
  by_cases hlow : ipv6 = 0 ∨ ipv6 = 1
  · rw [if_pos hlow]
    have hvalue : address.value = 0 ∨ address.value = 1 := by
      obtain (h | h) | h | h := h <;> omega
    obtain h0 | h1 := hvalue
    · rw [h0, hzero]
    · rw [h1, hone]
  · have hmask : (ipv6 / 2 ^ 120) &&& 0xfe ≠ 0xfc := by
      have hsmall : ipv6 / 2 ^ 120 = 0 ∨ ipv6 / 2 ^ 120 = 0x20 := by omega
      obtain h0 | h0 := hsmall <;> rw [h0] <;> decide
    rw [if_neg hlow, if_neg (by omega), if_neg (by omega), if_neg hmask]

theorem isCloudMetadataIpv6_of_embeds (h : Embeds ipv6 address) :
    isCloudMetadataIpv6 ipv6 = isCloudMetadataIpv4Number address.value := by
  have haws : getEmbeddedIpv4Number awsImdsIpv6 = none := by decide
  have hne : (ipv6 == awsImdsIpv6) = false := by
    rw [beq_eq_false_iff_ne]
    rintro rfl
    rw [getEmbedded_of_embeds h] at haws
    cases haws
  unfold isCloudMetadataIpv6
  rw [hne, getEmbedded_of_embeds h]
  rfl

theorem isLinkLocalIpv6_of_plain (h : EmbedsPlain ipv6 address) :
    isLinkLocalIpv6 ipv6 = address.isLinkLocal := by
  have hlt := address.value_lt
  obtain ⟨ha, hb⟩ := octets_of_value address
  have hstart : ipv6 >>> 32 = 0xffff ∨ ipv6 >>> 32 = 0 := by
    simp only [Nat.shiftRight_eq_div_pow]
    obtain rfl | rfl := h <;> omega
  have hword : ipv6 &&& 0xffffffff = address.value := low_word address (by rcases h with rfl | rfl <;> omega)
  unfold isLinkLocalIpv6
  simp only [if_pos hstart, hword, ha, hb]
  rfl

theorem isLinkLocalIpv6_of_translated (h : EmbedsTranslated ipv6 address) : isLinkLocalIpv6 ipv6 = false := by
  have hlt := address.value_lt
  unfold isLinkLocalIpv6
  simp only [Nat.shiftRight_eq_div_pow]
  obtain rfl | h := h
  · rw [if_neg (by omega), beq_eq_false_iff_ne]
    omega
  · rw [if_neg (by omega), beq_eq_false_iff_ne]
    omega

theorem answers_noZone {spelling : Spelling} (h : spelling.zone = none) :
    answers spelling.text = ipv6Answers spelling.value := by
  have hlowered : spelling.lowered.zone = none := by
    simp [Spelling.lowered, h]
  have hparse := spelling.lowered.parseIpv6_text hlowered
  rw [spelling.value_lowered] at hparse
  unfold answers isPrivateAddress isCloudMetadataAddress isLinkLocalAddress
  simp only [spelling.normalized_text]
  cases hmapped : mappedIpv4 spelling.lowered.text with
  | none =>
    have hof : ipv4Of spelling.lowered.text = none := by
      unfold ipv4Of
      rw [if_neg (isIP_ne_four _), hmapped]
      rfl
    simp only [hof, hparse]
    rfl
  | some mapped =>
    have hof : ipv4Of spelling.lowered.text = some mapped := by
      unfold ipv4Of
      rw [hmapped]
      rfl
    obtain ⟨-, address, rfl, hvalue⟩ := mappedIpv4_text hmapped
    rw [spelling.value_lowered] at hvalue
    have hplain : EmbedsPlain spelling.value address := .inl hvalue
    simp only [hof, isPrivateOctets_text, ipv4ToNumber_text, isLinkLocal_text, ipv6Answers,
      isPrivateIpv6_of_embeds (.inl hplain),
      isCloudMetadataIpv6_of_embeds (.inl hplain), isLinkLocalIpv6_of_plain hplain]

end

end ArdurBot.Network
