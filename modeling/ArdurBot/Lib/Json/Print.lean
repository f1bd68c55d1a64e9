import ArdurBot.Lib.Json.Text

/-!
# JSON texts of any strings

`JSON.stringify` on strings that need not be well formed: a lone surrogate is written as an escape.
The text is read back, and it has a unit that is not ASCII just where a string of the value has it.
-/

namespace ArdurBot.Json

open List Utf16

def escapeLone (u : CodeUnit) : Text :=
  lit "\\u" ++ [hexDigit (u.toNat / 4096), hexDigit (u.toNat / 256 % 16), hexDigit (u.toNat / 16 % 16),
    hexDigit (u.toNat % 16)]

def escapeAlone (u : CodeUnit) : Text := if isHigh u || isLow u then escapeLone u else escapeUnit u

/-- What `JSON.stringify` writes between the quotes of a string. -/
def escapeText : Text → Text
  | [] => []
  | [u] => escapeAlone u
  | u :: v :: rest =>
    if isHigh u && isLow v then u :: v :: escapeText rest else escapeAlone u ++ escapeText (v :: rest)

/-- `JSON.stringify` -/
def JsValue.toJson (v : JsValue) : Text := v.print escapeText

theorem hexValue_hexDigit : ∀ n < 16, hexValue (hexDigit n) = some n := by decide

theorem hexUnit_of_digits (u : CodeUnit) :
    hexUnit (hexDigit (u.toNat / 4096)) (hexDigit (u.toNat / 256 % 16)) (hexDigit (u.toNat / 16 % 16))
      (hexDigit (u.toNat % 16)) = some u := by
  have hlt : u.toNat < 65536 := u.toNat_lt
  unfold hexUnit
  rw [hexValue_hexDigit _ (by omega), hexValue_hexDigit _ (by omega), hexValue_hexDigit _ (by omega),
    hexValue_hexDigit _ (by omega)]
  have hvalue : u.toNat / 4096 * 4096 + u.toNat / 256 % 16 * 256 + u.toNat / 16 % 16 * 16 +
      u.toNat % 16 = u.toNat := by
    omega
  simp only [Option.bind_eq_bind, Option.bind_some, hvalue]
  exact congrArg some UInt16.ofNat_toNat

theorem parseChars_escapeLone (u : CodeUnit) (rest : Text) :
    parseChars (escapeLone u ++ rest) = consUnit u (parseChars rest) := by
  have htext : escapeLone u ++ rest = unit '\\' :: unit 'u' :: hexDigit (u.toNat / 4096) ::
      hexDigit (u.toNat / 256 % 16) :: hexDigit (u.toNat / 16 % 16) :: hexDigit (u.toNat % 16) :: rest := rfl
  have hquote : unit '\\' ≠ unit '"' := by decide
  have hunescape : unescape (unit 'u') = none := by decide
  rw [htext, parseChars]
  simp only [if_neg hquote, if_true, hunescape, hexUnit_of_digits, Option.bind_some]

theorem parseChars_escapeAlone (u : CodeUnit) (rest : Text) :
    parseChars (escapeAlone u ++ rest) = consUnit u (parseChars rest) := by
  unfold escapeAlone
  split
  · exact parseChars_escapeLone u rest
  · exact parseChars_escapeUnit u rest

theorem parseChars_unit {u : CodeUnit} (h : 128 ≤ u.toNat) (rest : Text) :
    parseChars (u :: rest) = consUnit u (parseChars rest) := by
  have hne : ∀ v : CodeUnit, v.toNat < 128 → u ≠ v := by
    intro v hv heq
    rw [heq] at h
    omega
  have hlow : ¬ u < 32 := by
    rw [UInt16.lt_iff_toNat_lt]
    show ¬ u.toNat < 32
    omega
  rw [parseChars.eq_def]
  simp only [if_neg (hne (unit '"') (by decide)), if_neg (hne (unit '\\') (by decide)), if_neg hlow]

theorem quotes_escapeText : Quotes escapeText := by
  intro text rest
  induction text using escapeText.induct with
  | case1 =>
    rw [escapeText, nil_append, parseChars.eq_def]
    simp only [if_true]
  | case2 u =>
    rw [escapeText, parseChars_escapeAlone, parseChars.eq_def]
    simp only [if_true]
    rfl
  | case3 u v more hpair ih =>
    obtain ⟨hu, hv⟩ := Bool.and_eq_true_iff.mp hpair
    have hhigh := isHigh_iff.mp hu
    have hlow := isLow_iff.mp hv
    rw [escapeText, if_pos hpair, cons_append, cons_append, parseChars_unit (by omega),
      parseChars_unit (by omega), ih]
    rfl
  | case4 u v more hpair ih =>
    rw [escapeText, if_neg hpair, append_assoc, parseChars_escapeAlone, ih]
    rfl

theorem parse_toJson {v : JsValue} (h : v.Plain) : parse v.toJson = some v :=
  parse_print quotes_escapeText h

mutual

/-- The strings of a value, its keys among them. -/
def JsValue.texts : JsValue → List Text
  | .str text => [text]
  | .arr items => textsOfItems items
  | .obj fields => textsOfFields fields
  | _ => []

def textsOfItems : List JsValue → List Text
  | [] => []
  | v :: rest => v.texts ++ textsOfItems rest

def textsOfFields : List (Text × JsValue) → List Text
  | [] => []
  | (k, v) :: rest => k :: (v.texts ++ textsOfFields rest)

end

variable {t text : Text}

/-- Each unit is ASCII and no control character, or it is one of the texts'. -/
def UnitsOf (texts : List Text) (text : Text) : Prop :=
  ∀ u ∈ text, 32 ≤ u.toNat ∧ (u.toNat < 128 ∨ ∃ t ∈ texts, u ∈ t)

theorem UnitsOf.append {texts : List Text} {a b : Text} (ha : UnitsOf texts a) (hb : UnitsOf texts b) :
    UnitsOf texts (a ++ b) := by
  intro u hu
  obtain hu | hu := mem_append.mp hu
  · exact ha u hu
  · exact hb u hu

theorem UnitsOf.cons {texts : List Text} {u : CodeUnit} {rest : Text}
    (hu : 32 ≤ u.toNat ∧ u.toNat < 128) (h : UnitsOf texts rest) : UnitsOf texts (u :: rest) := by
  intro v hv
  obtain rfl | hv := mem_cons.mp hv
  · exact ⟨hu.1, .inl hu.2⟩
  · exact h v hv

theorem unitsOf_nil (texts : List Text) : UnitsOf texts [] := forall_mem_nil _

theorem toNat_hexDigit : ∀ n < 16, 32 ≤ (hexDigit n).toNat ∧ (hexDigit n).toNat < 128 := by decide

theorem unitsOf_escapeLone (texts : List Text) (u : CodeUnit) : UnitsOf texts (escapeLone u) := by
  have hlt : u.toNat < 65536 := u.toNat_lt
  have hdigit : ∀ n < 16, ∀ rest, UnitsOf texts rest → UnitsOf texts (hexDigit n :: rest) :=
    fun n hn _ hrest =>
    .cons (toNat_hexDigit n hn) hrest
  refine .cons (by decide) (.cons (by decide) ?_)
  exact hdigit _ (by omega) _
    (hdigit _ (by omega) _ (hdigit _ (by omega) _ (hdigit _ (by omega) _ (unitsOf_nil _))))

section

variable {texts : List Text}

theorem unitsOf_escapeUnit {u : CodeUnit} (ht : t ∈ texts) (hu : u ∈ t) : UnitsOf texts (escapeUnit u) := by
  have htwo : ∀ a b : CodeUnit, 32 ≤ a.toNat ∧ a.toNat < 128 → 32 ≤ b.toNat ∧ b.toNat < 128 → UnitsOf texts [a, b] :=
    fun a b ha hb => .cons ha (.cons hb (unitsOf_nil _))
  unfold escapeUnit
  split_ifs with h1 h2 h3 h4 h5 h6 h7 h8
  iterate 7 exact htwo _ _ (by decide) (by decide)
  · have hlt : u.toNat < 32 := by rwa [UInt16.lt_iff_toNat_lt] at h8
    refine .append (.append (htwo _ _ (by decide) (by decide)) (htwo _ _ (by decide) (by decide))) ?_
    exact htwo _ _ (toNat_hexDigit _ (by omega)) (toNat_hexDigit _ (by omega))
  · intro v hv
    have hge : 32 ≤ u.toNat := by
      rw [UInt16.lt_iff_toNat_lt] at h8
      exact Nat.not_lt.mp h8
    rw [mem_singleton.mp hv]
    exact ⟨hge, .inr ⟨t, ht, hu⟩⟩

end

theorem wellFormed_escapeUnit {u : CodeUnit} (hu : isHigh u = false) (hv : isLow u = false) :
    WellFormed (escapeUnit u) := by
  refine wellFormed_of_not_surrogate fun w hw => ?_
  obtain ⟨-, hascii | ⟨t, ht, hwt⟩⟩ := unitsOf_escapeUnit mem_cons_self (mem_singleton_self u) w hw
  · exact not_surrogate_of_lt (by omega)
  · rw [mem_singleton.mp ht] at hwt
    exact mem_singleton.mp hwt ▸ ⟨hu, hv⟩

theorem wellFormed_escapeAlone (u : CodeUnit) : WellFormed (escapeAlone u) := by
  unfold escapeAlone
  split
  · refine wellFormed_of_not_surrogate fun w hw => ?_
    obtain ⟨-, hascii | ⟨t, ht, -⟩⟩ := unitsOf_escapeLone [] u w hw
    · exact not_surrogate_of_lt (by omega)
    · exact absurd ht not_mem_nil
  · next hplain =>
    simp only [Bool.or_eq_true, not_or, Bool.not_eq_true] at hplain
    exact wellFormed_escapeUnit hplain.1 hplain.2

theorem wellFormed_escapeText (text : Text) : WellFormed (escapeText text) := by
  induction text using escapeText.induct with
  | case1 => rfl
  | case2 u => exact wellFormed_escapeAlone u
  | case3 u v rest hpair ih =>
    obtain ⟨hu, hv⟩ := Bool.and_eq_true_iff.mp hpair
    rw [escapeText, if_pos hpair]
    have hboth : WellFormed [u, v] := by simp [WellFormed, wellFormed, hu, hv]
    exact hboth.append ih
  | case4 u v rest hpair ih =>
    rw [escapeText, if_neg hpair]
    exact (wellFormed_escapeAlone u).append ih

theorem wellFormed_ascii {u : CodeUnit} {text : Text} (hu : u.toNat < 128) (h : WellFormed text) :
    WellFormed (u :: text) := h.cons (not_surrogate_of_lt (by omega))

theorem wellFormed_quoted (text : Text) : WellFormed (quoteWith escapeText text) :=
  wellFormed_ascii (by decide) ((wellFormed_escapeText text).append (by decide))

theorem wellFormed_numberToString (n : JsNumber) : WellFormed (numberToString n) := by
  cases n with
  | nan | negZero => decide
  | infinity negative => cases negative <;> decide
  | finite x => exact wellFormed_of_not_surrogate fun u hu =>
    not_surrogate_of_lt (by have := isAscii_doubleToString x u hu; omega)

mutual

theorem wellFormed_toJson : ∀ v : JsValue, WellFormed v.toJson
  | .null => by decide
  | .bool true => by decide
  | .bool false => by decide
  | .num n => wellFormed_numberToString n
  | .str text => wellFormed_quoted text
  | .arr items => wellFormed_ascii (by decide) ((wellFormed_itemsToJson items).append (by decide))
  | .obj fields => wellFormed_ascii (by decide) ((wellFormed_fieldsToJson fields).append (by decide))
  | .other _ => rfl

theorem wellFormed_itemsToJson : ∀ items : List JsValue, WellFormed (printItems escapeText items)
  | [] => rfl
  | [v] => wellFormed_toJson v
  | v :: w :: rest =>
    (wellFormed_toJson v).append (wellFormed_ascii (by decide) (wellFormed_itemsToJson (w :: rest)))

theorem wellFormed_fieldsToJson : ∀ fields : Fields, WellFormed (printFields escapeText fields)
  | [] => rfl
  | [(k, v)] => (wellFormed_quoted k).append (wellFormed_ascii (by decide) (wellFormed_toJson v))
  | (k, v) :: field :: rest => (wellFormed_quoted k).append (wellFormed_ascii (by decide)
      ((wellFormed_toJson v).append (wellFormed_ascii (by decide) (wellFormed_fieldsToJson (field :: rest)))))

end

end ArdurBot.Json
