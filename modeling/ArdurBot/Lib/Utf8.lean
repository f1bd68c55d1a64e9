import Mathlib.Data.Nat.Bits
import ArdurBot.Lib.Utf16

/-!
# Text as bytes

`Buffer.from(text)` encodes a string as UTF-8, an unpaired surrogate as U+FFFD, and a fatal
`TextDecoder` decodes bytes, a byte order mark in front dropped. A well-formed text that does not
begin with a byte order mark comes back.
-/

namespace ArdurBot.Utf16

open List Bool

abbrev Bytes := List UInt8

def loneChar (u : CodeUnit) : Char :=
  if isHigh u || isLow u then Char.ofNat replacement.toNat else Char.ofNat u.toNat

def pairChar (u v : CodeUnit) : Char :=
  Char.ofNat (0x10000 + (u.toNat - 0xd800) * 0x400 + (v.toNat - 0xdc00))

def toChars : Text → List Char
  | [] => []
  | [u] => [loneChar u]
  | u :: v :: rest =>
    if isHigh u && isLow v then pairChar u v :: toChars rest else loneChar u :: toChars (v :: rest)

def charUnits (c : Char) : Text :=
  if c.toNat < 0x10000 then [c.toNat.toUInt16]
  else [(0xd800 + (c.toNat - 0x10000) / 0x400).toUInt16, (0xdc00 + (c.toNat - 0x10000) % 0x400).toUInt16]

def ofChars (chars : List Char) : Text := chars.flatMap charUnits

/-- `Buffer.from(text)` -/
def utf8 (text : Text) : Bytes := (toChars text).flatMap String.utf8EncodeChar

def byteOrderMark : CodeUnit := 0xfeff

/-- `new TextDecoder("utf-8", { fatal: true }).decode(bytes)` -/
def decodeUtf8 (bytes : Bytes) : Option Text :=
  bytes.toByteArray.utf8Decode?.map fun chars =>
    match ofChars chars.toList with
    | [] => []
    | u :: rest => if u = byteOrderMark then rest else u :: rest

private theorem toNat_ofNat_of_valid {n : ℕ} (h : n.isValidChar) : (Char.ofNat n).toNat = n := by
  rw [Char.toNat, Char.ofNat, dif_pos h]
  rfl

theorem charUnits_loneChar {u : CodeUnit} (hu : isHigh u = false) (hv : isLow u = false) :
    charUnits (loneChar u) = [u] := by
  have hlt := u.toNat_lt
  have hvalid : u.toNat.isValidChar := by
    by_contra hnot
    have hsurrogate : ¬ (u.toNat < 0xd800 ∨ 0xdfff < u.toNat ∧ u.toNat < 0x110000) := hnot
    have hhigh : ¬ (0xd800 ≤ u.toNat ∧ u.toNat ≤ 0xdbff) := fun h => by simp [isHigh_iff.mpr h] at hu
    have hlow : ¬ (0xdc00 ≤ u.toNat ∧ u.toNat ≤ 0xdfff) := fun h => by simp [isLow_iff.mpr h] at hv
    omega
  have hone : loneChar u = Char.ofNat u.toNat := by simp [loneChar, hu, hv]
  rw [hone, charUnits, toNat_ofNat_of_valid hvalid, if_pos (by omega)]
  simp

theorem charUnits_pairChar {u v : CodeUnit} (hu : isHigh u) (hv : isLow v) :
    charUnits (pairChar u v) = [u, v] := by
  have hhigh := isHigh_iff.mp hu
  have hlow := isLow_iff.mp hv
  have hvalid : (0x10000 + (u.toNat - 0xd800) * 0x400 + (v.toNat - 0xdc00)).isValidChar :=
    .inr ⟨by omega, by omega⟩
  have hsplit : 0x10000 + (u.toNat - 0xd800) * 0x400 + (v.toNat - 0xdc00) - 0x10000 =
      (u.toNat - 0xd800) * 0x400 + (v.toNat - 0xdc00) := by omega
  have hdiv : 0xd800 + ((u.toNat - 0xd800) * 0x400 + (v.toNat - 0xdc00)) / 0x400 = u.toNat := by omega
  have hmod : 0xdc00 + ((u.toNat - 0xd800) * 0x400 + (v.toNat - 0xdc00)) % 0x400 = v.toNat := by omega
  rw [pairChar, charUnits, toNat_ofNat_of_valid hvalid, if_neg (by omega), hsplit, hdiv, hmod]
  simp

theorem ofChars_toChars {text : Text} (h : WellFormed text) : ofChars (toChars text) = text := by
  induction text using toChars.induct with
  | case1 => rfl
  | case2 u =>
    simp only [WellFormed, wellFormed, and_eq_true, not_eq_true'] at h
    simp [toChars, ofChars, charUnits_loneChar h.1 h.2]
  | case3 u v rest hpair ih =>
    obtain ⟨hu, hv⟩ : isHigh u ∧ isLow v := by simpa using hpair
    rw [WellFormed, wellFormed, if_pos hu, hv, Bool.true_and] at h
    rw [toChars, if_pos hpair, ofChars, flatMap_cons, charUnits_pairChar hu hv]
    exact congrArg ([u, v] ++ ·) (ih h)
  | case4 u v rest hpair ih =>
    rw [WellFormed, wellFormed] at h
    split at h
    · next hu =>
      have hv : isLow v := by
        simp only [and_eq_true] at h
        exact h.1
      exact absurd (by simp [hu, hv]) hpair
    · next hu =>
      simp only [and_eq_true, not_eq_true'] at h
      rw [toChars, if_neg hpair, ofChars, flatMap_cons, charUnits_loneChar (by simpa using hu) h.1]
      exact congrArg ([u] ++ ·) (ih h.2)

/-- **UTF-8 round trip.** -/
theorem decodeUtf8_utf8 {text : Text} (h : WellFormed text) (hmark : text.head? ≠ some byteOrderMark) :
    decodeUtf8 (utf8 text) = some text := by
  have hdecode : (utf8 text).toByteArray.utf8Decode? = some (toChars text).toArray :=
    utf8Decode?_utf8Encode
  rw [decodeUtf8, hdecode, Option.map_some, toList_toArray, ofChars_toChars h]
  cases text with
  | nil => rfl
  | cons u rest =>
    have hu : u ≠ byteOrderMark := fun heq => hmark (by simp [heq])
    simp [hu]

theorem length_utf8_of_ascii {text : Text} (h : ∀ u ∈ text, u.toNat < 128) :
    (utf8 text).length = text.length := by
  induction text with
  | nil => rfl
  | cons u text ih =>
    have hu := h u mem_cons_self
    obtain ⟨hhigh, hlow⟩ := not_surrogate_of_lt (hu.trans (by decide))
    have hchars : toChars (u :: text) = loneChar u :: toChars text := by
      cases text <;> simp [toChars, hhigh]
    have hchar : loneChar u = Char.ofNat u.toNat := by simp [loneChar, hhigh, hlow]
    have hsize : (String.utf8EncodeChar (Char.ofNat u.toNat)).length = 1 := by
      have hvalid : u.toNat.isValidChar := .inl (hu.trans (by decide))
      rw [String.length_utf8EncodeChar, Char.utf8Size_eq_one_iff, UInt32.le_iff_toNat_le]
      exact (toNat_ofNat_of_valid hvalid).trans_le (Nat.le_of_lt_succ hu)
    have hrest := ih fun v hv => h v (mem_cons_of_mem u hv)
    rw [utf8, hchars, flatMap_cons, length_append, hchar, hsize, ← utf8, hrest, length_cons, Nat.add_comm]

theorem utf8EncodeChar_append_inj {c d : Char} {a b : Bytes}
    (h : String.utf8EncodeChar c ++ a = String.utf8EncodeChar d ++ b) : c = d ∧ a = b := by
  have hdecode : ∀ (c : Char) (a : Bytes), (String.utf8EncodeChar c ++ a).toByteArray.utf8DecodeChar? 0 = some c := by
    intro c a
    rw [toByteArray_append]
    exact ByteArray.utf8DecodeChar?_utf8EncodeChar_append
  have hsame := hdecode d b
  rw [← h, hdecode c a] at hsame
  obtain rfl := Option.some.inj hsame
  exact ⟨rfl, append_cancel_left h⟩

theorem prefix_of_encoded {cs ds : List Char} {a b : Bytes}
    (h : cs.flatMap String.utf8EncodeChar ++ a = ds.flatMap String.utf8EncodeChar ++ b) :
    cs <+: ds ∨ ds <+: cs := by
  induction cs generalizing ds with
  | nil => exact .inl nil_prefix
  | cons c cs ih =>
    cases ds with
    | nil => exact .inr nil_prefix
    | cons d ds =>
      rw [flatMap_cons, flatMap_cons, append_assoc, append_assoc] at h
      obtain ⟨rfl, hrest⟩ := utf8EncodeChar_append_inj h
      obtain hbefore | hbefore := ih hrest
      · exact .inl (cons_prefix_cons.mpr ⟨rfl, hbefore⟩)
      · exact .inr (cons_prefix_cons.mpr ⟨rfl, hbefore⟩)

theorem prefix_of_toChars {s t : Text} (hs : WellFormed s) (ht : WellFormed t)
    (h : toChars s <+: toChars t) : s <+: t := by
  obtain ⟨more, hmore⟩ := h
  refine ⟨ofChars more, ?_⟩
  rw [← ofChars_toChars hs, ← ofChars_toChars ht, ← hmore]
  exact flatMap_append.symm

/-- `Buffer.from(text, "ascii")` -/
def asciiBytes (text : Text) : Bytes := text.map fun u => u.toUInt8

end ArdurBot.Utf16
