import Mathlib.Tactic.IntervalCases
import ArdurBot.Network.Address

/-!
# The spellings of an address

An IPv4 address is four decimals. An IPv6 address is groups of hex digits, with or without one `::`,
with or without a dotted tail and a zone id. Each spelling is read back as the number it stands for.
-/

namespace ArdurBot.Network

open List Utf16
open Bool hiding and_true true_and

variable {code : CodeUnit}

section

variable {parts left right : List Text} {part text rest : Text}

def Parts (parts : List Text) : Prop :=
  ∀ part ∈ parts, part ≠ [] ∧ colon ∉ part

theorem Parts.append (hleft : Parts left) (hright : Parts right) : Parts (left ++ right) :=
  forall_mem_append.mpr ⟨hleft, hright⟩

def joined (parts : List Text) : Text := [colon].intercalate parts

theorem joined_cons (part : Text) (h : parts ≠ []) :
    joined (part :: parts) = part ++ colon :: joined parts := by
  unfold joined
  rw [intercalate_cons_of_ne_nil h]
  simp

def front (parts : List Text) : Text := parts.flatMap (· ++ [colon])

theorem joined_concat (parts : List Text) (part : Text) : joined (parts ++ [part]) = front parts ++ part := by
  induction parts with
  | nil => simp [joined, front]
  | cons first parts ih =>
    rw [cons_append, joined_cons _ (by simp), ih]
    simp [front]

theorem joined_eq_nil (h : Parts parts) : joined parts = [] ↔ parts = [] := by
  constructor
  · intro hnil
    cases parts with
    | nil => rfl
    | cons part parts =>
      exfalso
      have hpart := (h part mem_cons_self).1
      by_cases hrest : parts = []
      · simp [hrest, joined] at hnil
        exact hpart hnil
      · rw [joined_cons _ hrest] at hnil
        simp at hnil
  · rintro rfl
    rfl

theorem partsOf_joined (h : Parts parts) : partsOf (joined parts) = parts := by
  unfold partsOf
  by_cases hnil : parts = []
  · rw [if_pos ((joined_eq_nil h).mpr hnil), hnil]
  · rw [if_neg (mt (joined_eq_nil h).mp hnil)]
    exact splitOn_intercalate _ (fun part hpart => (h part hpart).2) hnil

theorem cutGap_of_notMem (h : colon ∉ text) : cutGap text = none := by
  induction text with
  | nil => rfl
  | cons first text ih =>
    cases text with
    | nil => rfl
    | cons second rest =>
      obtain ⟨hfirst, hrest⟩ := ne_and_not_mem_of_not_mem_cons h
      rw [cutGap, if_neg fun hboth => hfirst hboth.1.symm, ih hrest]
      rfl

theorem cutGap_append_colon (h : colon ∉ part) (hrest : cutGap rest = none)
    (hhead : rest.head? ≠ some colon) :
    cutGap (part ++ colon :: rest) = none := by
  induction part with
  | nil =>
    cases rest with
    | nil => rfl
    | cons second rest =>
      rw [nil_append, cutGap, if_neg fun hboth => hhead (by rw [hboth.2]; rfl), hrest]
      rfl
  | cons first part ih =>
    obtain ⟨hfirst, hpart⟩ := ne_and_not_mem_of_not_mem_cons h
    have hstep : ∀ text, cutGap (first :: text) = (cutGap text).map fun cut => (first :: cut.1, cut.2) := by
      intro text
      cases text with
      | nil => rfl
      | cons second rest => rw [cutGap, if_neg fun hboth => hfirst hboth.1.symm]
    rw [cons_append, hstep, ih hpart]
    rfl

theorem cutGap_gap (h : cutGap text = none) (hlast : text.getLast? ≠ some colon) :
    cutGap (text ++ colon :: colon :: rest) = some (text, rest) := by
  induction text with
  | nil => simp [cutGap]
  | cons first text ih =>
    cases text with
    | nil =>
      have hfirst : first ≠ colon := fun heq => hlast (by rw [heq]; rfl)
      simp [cutGap, hfirst]
    | cons second text =>
      rw [cutGap] at h
      split_ifs at h with hboth
      rw [cons_append, cons_append, cutGap, if_neg hboth, ← cons_append,
        ih (Option.map_eq_none_iff.mp h) (by rwa [getLast?_cons_cons] at hlast)]
      rfl

theorem head?_joined (h : Parts parts) : (joined parts).head? ≠ some colon := by
  cases parts with
  | nil => simp [joined]
  | cons part parts =>
    obtain ⟨hpart, hcolon⟩ := h part mem_cons_self
    obtain ⟨first, part, rfl⟩ := exists_cons_of_ne_nil hpart
    have hfirst : first ≠ colon := fun heq => hcolon (by rw [heq]; exact mem_cons_self)
    by_cases hrest : parts = []
    · simp [hrest, joined, hfirst]
    · rw [joined_cons _ hrest]
      simp [hfirst]

theorem getLast?_joined (h : Parts parts) : (joined parts).getLast? ≠ some colon := by
  obtain rfl | ⟨parts, part, rfl⟩ := eq_nil_or_concat parts
  · simp [joined]
  · obtain ⟨hpart, hcolon⟩ := h part (by simp)
    rw [concat_eq_append, joined_concat, getLast?_append_of_ne_nil _ hpart]
    intro hlast
    exact hcolon (mem_of_getLast? hlast)

theorem cutGap_joined (h : Parts parts) : cutGap (joined parts) = none := by
  induction parts with
  | nil => rfl
  | cons part parts ih =>
    have hrest : Parts parts := fun other hother => h other (mem_cons_of_mem _ hother)
    obtain ⟨-, hcolon⟩ := h part mem_cons_self
    by_cases hnil : parts = []
    · simp only [hnil, joined, intercalate_singleton]
      exact cutGap_of_notMem hcolon
    · rw [joined_cons _ hnil]
      exact cutGap_append_colon hcolon (ih hrest) (head?_joined hrest)

/-- The parts with a gap after the left ones, or without. -/
def spelled (gap : Bool) (left right : List Text) : Text :=
  if gap then joined left ++ colon :: colon :: joined right else joined (left ++ right)

theorem cutGap_spelled (gap : Bool) (hleft : Parts left) (hright : Parts right) :
    cutGap (spelled gap left right) = if gap then some (joined left, joined right) else none := by
  cases gap with
  | true => exact cutGap_gap (cutGap_joined hleft) (getLast?_joined hleft)
  | false => exact cutGap_joined (hleft.append hright)

theorem spelled_concat (gap : Bool) (left right : List Text) (part : Text) :
    spelled gap left (right ++ [part]) = spelled gap left (right ++ [[]]) ++ part := by
  cases gap with
  | true =>
    simp only [spelled, if_true]
    rw [joined_concat, joined_concat]
    simp
  | false =>
    simp only [spelled, false_eq_true, if_false, ← append_assoc]
    rw [joined_concat, joined_concat]
    simp

end

section

variable {digits part text : Text} {parts : List Text}

def hexValue (digits : Text) : ℕ :=
  digits.foldl (fun result code => 16 * result + digitValue code) 0

theorem bigInt_of_isGroup (h : isGroup part) : bigInt part = some (hexValue part) := by
  simp only [isGroup, and_eq_true, bne_iff_ne, ne_eq] at h
  exact if_pos ⟨h.1.1, h.2⟩

theorem digitValue_lt (h : isHexDigit code) : digitValue code < 16 := by
  simp only [isHexDigit, isLowerHex, isDigit, or_eq_true, and_eq_true, decide_eq_true_eq,
    UInt16.le_iff_toNat_le] at h
  have h0 : (unit '0').toNat = 48 := rfl
  have h9 : (unit '9').toNat = 57 := rfl
  have ha : (unit 'a').toNat = 97 := rfl
  have hf : (unit 'f').toNat = 102 := rfl
  have hA : (unit 'A').toNat = 65 := rfl
  have hF : (unit 'F').toNat = 70 := rfl
  unfold digitValue isDigit
  simp only [and_eq_true, decide_eq_true_eq, UInt16.le_iff_toNat_le]
  split_ifs <;> omega

theorem foldl_hex_lt (h : digits.all isHexDigit) (start : ℕ) :
    digits.foldl (fun result code => 16 * result + digitValue code) start < 16 ^ digits.length * (start + 1) := by
  induction digits generalizing start with
  | nil => simp
  | cons code digits ih =>
    simp only [all_cons, and_eq_true] at h
    have hcode := digitValue_lt h.1
    calc (code :: digits).foldl (fun result code => 16 * result + digitValue code) start
        < 16 ^ digits.length * (16 * start + digitValue code + 1) := ih h.2 _
      _ ≤ 16 ^ digits.length * (16 * (start + 1)) := Nat.mul_le_mul_left _ (by omega)
      _ = 16 ^ (digits.length + 1) * (start + 1) := by rw [pow_succ, Nat.mul_assoc]

theorem hexValue_lt (h : isGroup part) : hexValue part < 65536 := by
  simp only [isGroup, and_eq_true, bne_iff_ne, ne_eq, decide_eq_true_eq] at h
  calc hexValue part < 16 ^ part.length * (0 + 1) := foldl_hex_lt h.2 0
    _ ≤ 16 ^ 4 * (0 + 1) := Nat.mul_le_mul_right _ (Nat.pow_le_pow_right (by omega) h.1.2)

theorem isHexDigit_digitChar {digit : ℕ} (h : digit < 16) :
    isHexDigit (unit digit.digitChar) ∧ digitValue (unit digit.digitChar) = digit := by
  interval_cases digit <;> decide

theorem hexText_spec (value : ℕ) : (hexText value).all isHexDigit ∧ hexValue (hexText value) = value := by
  induction value using Nat.strong_induction_on with
  | _ value ih =>
    unfold hexText hexValue
    rw [Nat.toDigits_eq_if (by omega)]
    split_ifs with hlt
    · have hdigit := isHexDigit_digitChar hlt
      simp [hdigit]
    · have hdigit := isHexDigit_digitChar (Nat.mod_lt value (show 0 < 16 by omega))
      obtain ⟨hall, hvalue⟩ := ih (value / 16) (by omega)
      unfold hexText hexValue at hvalue
      unfold hexText at hall
      rw [map_append, map_singleton, all_append, foldl_append, hvalue, hall]
      simp only [all_cons, all_nil, hdigit.1, Bool.and_self, foldl_cons, foldl_nil, hdigit.2, true_and]
      omega

theorem isGroup_hexText {value : ℕ} (h : value < 65536) : isGroup (hexText value) := by
  have hlength : (Nat.toDigits 16 value).length ≤ 4 :=
    (Nat.length_toDigits_le_iff (by omega) (by omega)).mpr (by omega)
  simp only [isGroup, and_eq_true, bne_iff_ne, ne_eq, decide_eq_true_eq, (hexText_spec value).1, and_true]
  refine ⟨?_, ?_⟩
  · simp [hexText]
  · simpa [hexText] using hlength

theorem notMem_of_isHexDigit (h : digits.all isHexDigit) (hcode : isHexDigit code = false) :
    code ∉ digits := by
  intro hmem
  rw [all_eq_true.mp h code hmem] at hcode
  cases hcode

theorem part_of_isGroup (h : isGroup part) : part ≠ [] ∧ colon ∉ part := by
  simp only [isGroup, and_eq_true, bne_iff_ne, ne_eq, decide_eq_true_eq] at h
  exact ⟨h.1.1, notMem_of_isHexDigit h.2 (by decide)⟩

theorem parts_of_isGroup (h : ∀ part ∈ parts, isGroup part) : Parts parts :=
  fun part hpart => part_of_isGroup (h part hpart)

end

structure Ipv4 where
  a : Fin 256
  b : Fin 256
  c : Fin 256
  d : Fin 256

def octetText (octet : Fin 256) : Text := (Nat.toDigits 10 octet).map unit

theorem octetText_spec (octet : Fin 256) :
    isOctet (octetText octet) ∧ number (octetText octet) = octet ∧ dot ∉ octetText octet
      ∧ (octetText octet).all isDigit ∧ octetText octet ≠ [] := by
  revert octet
  decide +kernel

namespace Ipv4

variable (address : Ipv4)

def octets : List (Fin 256) := [address.a, address.b, address.c, address.d]

def value : ℕ := ((address.a * 256 + address.b) * 256 + address.c) * 256 + address.d

def text : Text := [dot].intercalate (address.octets.map octetText)

theorem splitOn_text : address.text.splitOn dot = address.octets.map octetText := by
  refine splitOn_intercalate _ (fun part hpart => ?_) (by simp [octets])
  obtain ⟨octet, -, rfl⟩ := mem_map.mp hpart
  exact (octetText_spec octet).2.2.1

theorem isIPv4_text : isIPv4 address.text := by
  unfold isIPv4
  rw [splitOn_text]
  simp [octets, octetText_spec]

theorem numbers_text : (address.text.splitOn dot).map number = address.octets.map Fin.val := by
  rw [splitOn_text, map_map]
  exact map_congr_left fun octet _ => (octetText_spec octet).2.1

theorem text_eq : address.text
      = octetText address.a ++ dot ::
        (octetText address.b ++ dot :: (octetText address.c ++ dot :: octetText address.d)) := by
  simp [text, octets, intercalate]

theorem dot_mem_text : dot ∈ address.text := by
  rw [text_eq]
  simp

theorem isDigit_or_dot (h : code ∈ address.text) : isDigit code ∨ code = dot := by
  have hdigits : ∀ octet : Fin 256, code ∈ octetText octet → isDigit code := fun octet hmem =>
    all_eq_true.mp (octetText_spec octet).2.2.2.1 code hmem
  rw [text_eq] at h
  simp only [mem_append, mem_cons] at h
  obtain h | h | h | h | h | h | h := h
  · exact .inl (hdigits _ h)
  · exact .inr h
  · exact .inl (hdigits _ h)
  · exact .inr h
  · exact .inl (hdigits _ h)
  · exact .inr h
  · exact .inl (hdigits _ h)

theorem notMem_text (hdigit : isDigit code = false) (hdot : code ≠ dot) : code ∉ address.text := by
  intro hmem
  obtain h | h := address.isDigit_or_dot hmem
  · rw [h] at hdigit
    cases hdigit
  · exact hdot h

theorem isGroup_text : isGroup address.text = false := by
  by_contra h
  have hgroup : isGroup address.text := by simpa using h
  simp only [isGroup, and_eq_true] at hgroup
  exact notMem_of_isHexDigit hgroup.2 (by decide) address.dot_mem_text

theorem part_text : address.text ≠ [] ∧ colon ∉ address.text :=
  ⟨ne_nil_of_mem address.dot_mem_text, address.notMem_text (by decide) (by decide)⟩

theorem value_lt : address.value < 2 ^ 32 := by
  have ha := address.a.isLt
  have hb := address.b.isLt
  have hc := address.c.isLt
  have hd := address.d.isLt
  unfold value
  omega

end Ipv4

theorem mem_of_mem_intercalate {sep code : CodeUnit} {parts : List Text}
    (h : code ∈ [sep].intercalate parts) :
    code = sep ∨ ∃ part ∈ parts, code ∈ part := by
  induction parts with
  | nil => cases h
  | cons part parts ih =>
    by_cases hnil : parts = []
    · rw [hnil, intercalate_singleton] at h
      exact .inr ⟨part, mem_cons_self, h⟩
    · rw [intercalate_cons_of_ne_nil hnil, mem_append, mem_append, mem_singleton] at h
      obtain (h | h) | h := h
      · exact .inr ⟨part, mem_cons_self, h⟩
      · exact .inl h
      · exact (ih h).imp_right fun ⟨other, hother, hmem⟩ => ⟨other, mem_cons_of_mem _ hother, hmem⟩

theorem isDigit_or_dot_of_isIPv4 {text : Text} (h : isIPv4 text) (hmem : code ∈ text) :
    isDigit code ∨ code = dot := by
  simp only [isIPv4, and_eq_true, all_eq_true] at h
  have hjoined : [dot].intercalate (text.splitOn dot) = text := intercalate_splitOn dot
  rw [← hjoined] at hmem
  obtain hdot | ⟨part, hpart, hcode⟩ := mem_of_mem_intercalate hmem
  · exact .inr hdot
  · have hoctet := h.2 part hpart
    simp only [isOctet, and_eq_true] at hoctet
    exact .inl (all_eq_true.mp hoctet.1.1.2 code hcode)

theorem isIPv4_of_mem {text : Text} (hmem : code ∈ text) (hdigit : isDigit code = false)
    (hdot : code ≠ dot) : isIPv4 text = false := by
  by_contra h
  obtain hcode | hcode := isDigit_or_dot_of_isIPv4 (by simpa using h) hmem
  · rw [hcode] at hdigit
    cases hdigit
  · exact hdot hcode

structure Hextet where
  digits : Text
  group : isGroup digits

structure Zone where
  id : Text
  nonempty : id ≠ []
  units : id.all isZoneUnit

structure Spelling where
  left : List Hextet
  gap : Bool
  right : List Hextet
  tail : Option Ipv4
  zone : Option Zone
  shape :
    if gap then left.length + right.length + (if tail.isSome then 2 else 0) ≤ 7
    else left.length + right.length + (if tail.isSome then 2 else 0) = 8

namespace Spelling

variable (spelling : Spelling)

def tailLength : ℕ := if spelling.tail.isSome then 2 else 0

def leftParts : List Text := spelling.left.map Hextet.digits

/-- What stands behind the gap, with a dotted tail as one part. -/
def rightParts : List Text := spelling.right.map Hextet.digits ++ spelling.tail.toList.map Ipv4.text

def body : Text := spelled spelling.gap spelling.leftParts spelling.rightParts

def zoneText : Text :=
  match spelling.zone with
  | some zone => percent :: zone.id
  | none => []

def text : Text := spelling.body ++ spelling.zoneText

def tailGroups : List ℕ :=
  match spelling.tail with
  | some tail => [tail.a * 256 + tail.b, tail.c * 256 + tail.d]
  | none => []

def groups : List ℕ :=
  spelling.left.map (fun part => hexValue part.digits)
    ++ List.replicate (8 - (spelling.left.length + spelling.right.length + spelling.tailLength)) 0
    ++ (spelling.right.map (fun part => hexValue part.digits) ++ spelling.tailGroups)

/-- The address that the spelling stands for. -/
def value : ℕ := spelling.groups.foldl (fun result group => 65536 * result + group) 0

theorem isGroup_left : ∀ part ∈ spelling.leftParts, isGroup part := by
  intro part hpart
  obtain ⟨group, -, rfl⟩ := mem_map.mp hpart
  exact group.group

theorem isGroup_right : ∀ part ∈ spelling.right.map Hextet.digits, isGroup part := by
  intro part hpart
  obtain ⟨group, -, rfl⟩ := mem_map.mp hpart
  exact group.group

theorem parts_left : Parts spelling.leftParts := parts_of_isGroup spelling.isGroup_left

theorem parts_right : Parts spelling.rightParts := by
  refine Parts.append (parts_of_isGroup spelling.isGroup_right) fun part hpart => ?_
  obtain ⟨tail, -, rfl⟩ := mem_map.mp hpart
  exact tail.part_text

end Spelling

end ArdurBot.Network
