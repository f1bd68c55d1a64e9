import ArdurBot.Lib.Utf8

/-!
# Unpadded base64url

Three bytes are four letters of the alphabet; one byte left over is two letters and two bytes are
three. `decode` reads the letters and ignores whatever is not one.
-/

namespace ArdurBot.Base64url

open List Utf16

def alphabet : Text := lit "ABCDEFGHIJKLMNOPQRSTUVWXYZabcdefghijklmnopqrstuvwxyz0123456789-_"

def letter (n : ℕ) : CodeUnit := alphabet.getD n 0

/-- `/^[A-Za-z0-9_-]+$/` on one unit. -/
def isLetter (u : CodeUnit) : Bool :=
  unit 'A' ≤ u && u ≤ unit 'Z' || unit 'a' ≤ u && u ≤ unit 'z' || unit '0' ≤ u && u ≤ unit '9' ||
    u = unit '_' || u = unit '-'

def sextet (u : CodeUnit) : Option ℕ := alphabet.findIdx? (· = u)

def encodeSextets : Bytes → List ℕ
  | [] => []
  | [a] => [a.toNat / 4, a.toNat % 4 * 16]
  | [a, b] => [a.toNat / 4, a.toNat % 4 * 16 + b.toNat / 16, b.toNat % 16 * 4]
  | a :: b :: c :: rest =>
    a.toNat / 4 :: (a.toNat % 4 * 16 + b.toNat / 16) :: (b.toNat % 16 * 4 + c.toNat / 64) ::
      c.toNat % 64 :: encodeSextets rest

def decodeSextets : List ℕ → Bytes
  | a :: b :: c :: d :: rest =>
    (a * 4 + b / 16).toUInt8 :: (b % 16 * 16 + c / 4).toUInt8 :: (c % 4 * 64 + d).toUInt8 :: decodeSextets rest
  | [a, b, c] => [(a * 4 + b / 16).toUInt8, (b % 16 * 16 + c / 4).toUInt8]
  | [a, b] => [(a * 4 + b / 16).toUInt8]
  | _ => []

/-- `buffer.toString("base64url")` -/
def encode (bytes : Bytes) : Text := (encodeSextets bytes).map letter

/-- `Buffer.from(text, "base64url")` -/
def decode (text : Text) : Bytes := decodeSextets (text.filterMap sextet)

theorem sextet_letter : ∀ n < 64, sextet (letter n) = some n := by
  unfold sextet letter alphabet
  rw [lit_ofList]
  decide +kernel

theorem isLetter_letter : ∀ n < 64, isLetter (letter n) := by
  unfold letter alphabet
  rw [lit_ofList]
  decide +kernel

variable {bytes : Bytes} {n : ℕ}

theorem lt_of_mem_encodeSextets (h : n ∈ encodeSextets bytes) : n < 64 := by
  induction bytes using encodeSextets.induct with
  | case1 => simp [encodeSextets] at h
  | case2 a =>
    have ha := a.toNat_lt
    simp only [encodeSextets, mem_cons, not_mem_nil, or_false] at h
    omega
  | case3 a b =>
    have ha := a.toNat_lt
    have hb := b.toNat_lt
    simp only [encodeSextets, mem_cons, not_mem_nil, or_false] at h
    omega
  | case4 a b c rest ih =>
    have ha := a.toNat_lt
    have hb := b.toNat_lt
    have hc := c.toNat_lt
    simp only [encodeSextets, mem_cons] at h
    obtain h | h | h | h | h := h
    · omega
    · omega
    · omega
    · omega
    · exact ih h

private theorem toUInt8_toNat (a : UInt8) (h : n = a.toNat) : n.toUInt8 = a := by
  rw [h]
  exact UInt8.ofNat_toNat

theorem decodeSextets_encodeSextets (bytes : Bytes) : decodeSextets (encodeSextets bytes) = bytes := by
  induction bytes using encodeSextets.induct with
  | case1 => rfl
  | case2 a =>
    have ha := a.toNat_lt
    rw [encodeSextets, decodeSextets, toUInt8_toNat a (by omega)]
  | case3 a b =>
    have ha := a.toNat_lt
    have hb := b.toNat_lt
    rw [encodeSextets, decodeSextets, toUInt8_toNat a (by omega), toUInt8_toNat b (by omega)]
  | case4 a b c rest ih =>
    have ha := a.toNat_lt
    have hb := b.toNat_lt
    have hc := c.toNat_lt
    rw [encodeSextets, decodeSextets, toUInt8_toNat a (by omega), toUInt8_toNat b (by omega),
      toUInt8_toNat c (by omega), ih]

theorem filterMap_sextet_encode (bytes : Bytes) : (encode bytes).filterMap sextet = encodeSextets bytes := by
  have hmap : ∀ ns : List ℕ, (∀ n ∈ ns, n < 64) → (ns.map letter).filterMap sextet = ns := by
    intro ns hlt
    induction ns with
    | nil => rfl
    | cons n ns ih =>
      rw [map_cons, filterMap_cons_some (sextet_letter n (hlt n mem_cons_self)),
        ih fun m hm => hlt m (mem_cons_of_mem n hm)]
  exact hmap _ fun n hn => lt_of_mem_encodeSextets hn

/-- **Base64url decodes what it encodes.** -/
theorem decode_encode (bytes : Bytes) : decode (encode bytes) = bytes := by
  rw [decode, filterMap_sextet_encode, decodeSextets_encodeSextets]

theorem isLetter_of_mem_encode {u : CodeUnit} (h : u ∈ encode bytes) : isLetter u := by
  obtain ⟨n, hn, rfl⟩ := mem_map.mp h
  exact isLetter_letter n (lt_of_mem_encodeSextets hn)

theorem toNat_lt_of_isLetter {u : CodeUnit} (h : isLetter u) : u.toNat < 128 := by
  have hz : (unit 'z').toNat = 122 := rfl
  have hZ : (unit 'Z').toNat = 90 := rfl
  have h9 : (unit '9').toNat = 57 := rfl
  simp only [isLetter, Bool.or_eq_true, Bool.and_eq_true, decide_eq_true_eq, UInt16.le_iff_toNat_le,
    hz, hZ, h9] at h
  obtain (((h | h) | h) | rfl) | rfl := h
  · omega
  · omega
  · omega
  · decide
  · decide

theorem length_encode (bytes : Bytes) : (encode bytes).length = (4 * bytes.length + 2) / 3 := by
  rw [encode, length_map]
  induction bytes using encodeSextets.induct with
  | case1 => rfl
  | case2 a => simp [encodeSextets]
  | case3 a b => simp [encodeSextets]
  | case4 a b c rest ih =>
    simp only [encodeSextets, length_cons, ih]
    omega

theorem encode_ne_nil (h : bytes ≠ []) : encode bytes ≠ [] := by
  intro hnil
  have hdecode := decode_encode bytes
  rw [hnil] at hdecode
  exact h hdecode.symm

end ArdurBot.Base64url
