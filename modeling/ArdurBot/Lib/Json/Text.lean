import ArdurBot.Lib.Json.Value

/-!
# JSON texts

`stringify` prints a value without spaces and `parse` reads the JSON grammar. A property that an
object text names twice has its last value. The recursion of `parse` is bounded by the length of the
text: every call that reads a value or goes on to the next one stands at least one character
further.

`parse_stringify`: what is printed is read back. The two strings between which it matters most, the
canonical text and the value it came from, then determine each other.
-/

namespace ArdurBot.Json

open List Utf16 Option

/-! ### Strings -/

def hexDigit (n : ℕ) : CodeUnit := if n < 10 then (48 + n).toUInt16 else (87 + n).toUInt16

/-- How `JSON.stringify` writes one unit of a well-formed string. -/
def escapeUnit (u : CodeUnit) : Text :=
  if u = unit '"' then lit "\\\""
  else if u = unit '\\' then lit "\\\\"
  else if u = 8 then lit "\\b"
  else if u = 9 then lit "\\t"
  else if u = 10 then lit "\\n"
  else if u = 12 then lit "\\f"
  else if u = 13 then lit "\\r"
  else if u < 32 then lit "\\u00" ++ [hexDigit (u.toNat / 16), hexDigit (u.toNat % 16)]
  else [u]

def quote (text : Text) : Text := unit '"' :: (text.flatMap escapeUnit ++ [unit '"'])

def hexValue (u : CodeUnit) : Option ℕ :=
  if isDigit u then some (u.toNat - 48)
  else if unit 'a' ≤ u && u ≤ unit 'f' then some (u.toNat - 87)
  else if unit 'A' ≤ u && u ≤ unit 'F' then some (u.toNat - 55)
  else none

def hexUnit (a b c d : CodeUnit) : Option CodeUnit := do
  let a ← hexValue a
  let b ← hexValue b
  let c ← hexValue c
  let d ← hexValue d
  return (a * 4096 + b * 256 + c * 16 + d).toUInt16

/-- The unit a backslash and `u` stand for, `\u` apart. -/
def unescape (u : CodeUnit) : Option CodeUnit :=
  if u = unit '"' then some (unit '"')
  else if u = unit '\\' then some (unit '\\')
  else if u = unit '/' then some (unit '/')
  else if u = unit 'b' then some 8
  else if u = unit 't' then some 9
  else if u = unit 'n' then some 10
  else if u = unit 'f' then some 12
  else if u = unit 'r' then some 13
  else none

def consUnit (u : CodeUnit) (p : Option (Text × Text)) : Option (Text × Text) :=
  p.map fun p => (u :: p.1, p.2)

def parseChars : Text → Option (Text × Text)
  | [] => none
  | u :: rest =>
    if u = unit '"' then some ([], rest)
    else if u = unit '\\' then
      match rest with
      | [] => none
      | v :: rest =>
        match unescape v with
        | some w => consUnit w (parseChars rest)
        | none =>
          if v = unit 'u' then
            match rest with
            | a :: b :: c :: d :: rest => (hexUnit a b c d).bind fun w => consUnit w (parseChars rest)
            | _ => none
          else none
    else if u < 32 then none
    else consUnit u (parseChars rest)

/-! ### Values -/

mutual

def JsValue.stringify : JsValue → Text
  | .null => lit "null"
  | .bool b => if b then lit "true" else lit "false"
  | .num n => numberToString n
  | .str text => quote text
  | .arr items => unit '[' :: (stringifyItems items ++ [unit ']'])
  | .obj fields => unit '{' :: (stringifyFields fields ++ [unit '}'])
  | .other _ => []

def stringifyItems : List JsValue → Text
  | [] => []
  | [v] => v.stringify
  | v :: w :: rest => v.stringify ++ unit ',' :: stringifyItems (w :: rest)

def stringifyFields : List (Text × JsValue) → Text
  | [] => []
  | [(k, v)] => quote k ++ unit ':' :: v.stringify
  | (k, v) :: field :: rest => quote k ++ unit ':' ::
    (v.stringify ++ unit ',' :: stringifyFields (field :: rest))

end

section

variable (chars : Text → Text)

/-- A quoted string, given what stands between the quotes. -/
def quoteWith (text : Text) : Text := unit '"' :: (chars text ++ [unit '"'])

mutual

/-- A value as it is printed, with any way to write its strings. -/
def JsValue.print : JsValue → Text
  | .null => lit "null"
  | .bool b => if b then lit "true" else lit "false"
  | .num n => numberToString n
  | .str text => quoteWith chars text
  | .arr items => unit '[' :: (printItems items ++ [unit ']'])
  | .obj fields => unit '{' :: (printFields fields ++ [unit '}'])
  | .other _ => []

def printItems : List JsValue → Text
  | [] => []
  | [v] => v.print
  | v :: w :: rest => v.print ++ unit ',' :: printItems (w :: rest)

def printFields : List (Text × JsValue) → Text
  | [] => []
  | [(k, v)] => quoteWith chars k ++ unit ':' :: v.print
  | (k, v) :: field :: rest =>
    quoteWith chars k ++ unit ':' :: (v.print ++ unit ',' :: printFields (field :: rest))

end

end

mutual

theorem JsValue.stringify_eq_print : ∀ v : JsValue, v.stringify = v.print (·.flatMap escapeUnit)
  | .null => rfl
  | .bool _ => rfl
  | .num _ => rfl
  | .str _ => rfl
  | .arr items => by rw [JsValue.stringify, JsValue.print, stringifyItems_eq_print items]
  | .obj fields => by rw [JsValue.stringify, JsValue.print, stringifyFields_eq_print fields]
  | .other _ => rfl

theorem stringifyItems_eq_print : ∀ items :
    List JsValue, stringifyItems items = printItems (·.flatMap escapeUnit) items
  | [] => rfl
  | [v] => by rw [stringifyItems, printItems, v.stringify_eq_print]
  | v :: w :: rest => by
    rw [stringifyItems, printItems, v.stringify_eq_print, stringifyItems_eq_print (w :: rest)]

theorem stringifyFields_eq_print : ∀ fields :
    Fields, stringifyFields fields = printFields (·.flatMap escapeUnit) fields
  | [] => rfl
  | [(k, v)] => by rw [stringifyFields, printFields, v.stringify_eq_print, quote, quoteWith]
  | (k, v) :: field :: rest => by
    rw [stringifyFields, printFields, v.stringify_eq_print,
      stringifyFields_eq_print (field :: rest), quote, quoteWith]

end

def isSpace (u : CodeUnit) : Bool := u = 32 || u = 9 || u = 10 || u = 13

def skipSpace (text : Text) : Text := text.dropWhile isSpace

/-- The rest of `text` after `u`, spaces before it skipped. -/
def expect (u : CodeUnit) (text : Text) : Option Text :=
  match skipSpace text with
  | [] => none
  | v :: rest => if v = u then some rest else none

def parseWord (word : Text) (value : JsValue) (text : Text) : Option (JsValue × Text) :=
  if word.isPrefixOf text then some (value, text.drop word.length) else none

def parseScalar (u : CodeUnit) (text : Text) : Option (JsValue × Text) :=
  if u = unit 'n' then parseWord (lit "null") .null text
  else if u = unit 't' then parseWord (lit "true") (.bool true) text
  else if u = unit 'f' then parseWord (lit "false") (.bool false) text
  else (parseNumber text).map fun p => (.num p.1, p.2)

mutual

def parseValue : ℕ → Text → Option (JsValue × Text)
  | 0, _ => none
  | fuel + 1, text =>
    match skipSpace text with
    | [] => none
    | u :: rest =>
      if u = unit '"' then (parseChars rest).map fun p => (.str p.1, p.2)
      else if u = unit '[' then
        match expect (unit ']') rest with
        | some rest => some (.arr [], rest)
        | none => (parseItems fuel rest).map fun p => (.arr p.1, p.2)
      else if u = unit '{' then
        match expect (unit '}') rest with
        | some rest => some (.obj [], rest)
        | none => (parseFields fuel [] rest).map fun p => (.obj p.1, p.2)
      else parseScalar u (u :: rest)

def parseItems : ℕ → Text → Option (List JsValue × Text)
  | 0, _ => none
  | fuel + 1, text => do
    let (v, text) ← parseValue fuel text
    match expect (unit ',') text with
    | some text =>
      let (items, text) ← parseItems fuel text
      return (v :: items, text)
    | none =>
      let text ← expect (unit ']') text
      return ([v], text)

/-- The properties of an object up to its brace, set on those before. -/
def parseFields : ℕ → Fields → Text → Option (Fields × Text)
  | 0, _, _ => none
  | fuel + 1, fields, text => do
    let text ← expect (unit '"') text
    let (k, text) ← parseChars text
    let text ← expect (unit ':') text
    let (v, text) ← parseValue fuel text
    match expect (unit ',') text with
    | some text => parseFields fuel (setField fields k v) text
    | none =>
      let text ← expect (unit '}') text
      return (setField fields k v, text)

end

/-- `JSON.parse` -/
def parse (text : Text) : Option JsValue :=
  match parseValue (2 * text.length + 1) text with
  | some (v, rest) => if skipSpace rest = [] then some v else none
  | none => none

theorem hexUnit_hexDigit : ∀ n < 32,
    hexUnit (unit '0') (unit '0') (hexDigit (n / 16)) (hexDigit (n % 16)) = some n.toUInt16 := by
  decide

theorem parseChars_escapeUnit (u : CodeUnit) (rest : Text) :
    parseChars (escapeUnit u ++ rest) = consUnit u (parseChars rest) := by
  rw [escapeUnit]
  split_ifs with h1 h2 h3 h4 h5 h6 h7 h8
  · subst h1; rfl
  · subst h2; rfl
  · subst h3; rfl
  · subst h4; rfl
  · subst h5; rfl
  · subst h6; rfl
  · subst h7; rfl
  · have hlt : u.toNat < 32 := by rwa [UInt16.lt_iff_toNat_lt] at h8
    have hhex := hexUnit_hexDigit u.toNat hlt
    have hu : u.toNat.toUInt16 = u := UInt16.ofNat_toNat
    rw [hu] at hhex
    have htext : lit "\\u00" ++ [hexDigit (u.toNat / 16), hexDigit (u.toNat % 16)] ++ rest =
        unit '\\' :: unit 'u' :: unit '0' :: unit '0' :: hexDigit (u.toNat / 16) ::
          hexDigit (u.toNat % 16) :: rest := rfl
    rw [htext, parseChars]
    have hquote : unit '\\' ≠ unit '"' := by decide
    have hunescape : unescape (unit 'u') = none := by decide
    simp only [if_neg hquote, if_true, hunescape, hhex, bind_some]
  · rw [singleton_append, parseChars.eq_def]
    simp only [if_neg h1, if_neg h2, if_neg h8]

theorem parseChars_quote (text rest : Text) :
    parseChars (text.flatMap escapeUnit ++ unit '"' :: rest) = some (text, rest) := by
  induction text with
  | nil =>
    rw [flatMap_nil, nil_append, parseChars.eq_def]
    simp only [if_true]
  | cons u text ih =>
    rw [flatMap_cons, append_assoc, parseChars_escapeUnit, ih]
    rfl

/-! ### Values are read back -/

/-- What a printed value starts with: no space, nothing that closes an array or an object, and
ASCII. -/
abbrev StartsValue (u : CodeUnit) : Prop :=
  isSpace u = false ∧ u ≠ unit ']' ∧ u ≠ unit '}' ∧ u.toNat < 128

theorem expect_cons (u : CodeUnit) (rest : Text) (h : isSpace u = false) :
    expect u (u :: rest) = some rest := by
  rw [expect, skipSpace, dropWhile_cons, h]
  simp

theorem expect_of_ne {u v : CodeUnit} (rest : Text) (hv : isSpace v = false) (hne : v ≠ u) :
    expect u (v :: rest) = none := by
  rw [expect, skipSpace, dropWhile_cons, hv]
  simp [hne]

theorem isDigit_starts {u : CodeUnit} (h : isDigit u) : StartsValue u := by
  have hdigit := isDigit_iff.mp h
  refine ⟨?_, ?_, ?_, by omega⟩
  · by_contra hspace
    have hcases : u = 32 ∨ u = 9 ∨ u = 10 ∨ u = 13 := by
      simp only [isSpace, Bool.not_eq_false, Bool.or_eq_true] at hspace
      grind
    obtain rfl | rfl | rfl | rfl := hcases <;> exact absurd h (by decide)
  · rintro rfl
    exact absurd h (by decide)
  · rintro rfl
    exact absurd h (by decide)

theorem doubleToString_head (x : Binary64.Double) :
    ∃ u rest, doubleToString x = u :: rest ∧ (isDigit u ∨ u = unit '-') := by
  have hformat : ∀ {y : Binary64.Double}, 0 < y.val →
      ∃ u rest, formatDecimal (Binary64.shortest y) = u :: rest ∧ isDigit u := by
    intro y hy
    have hexact := (Binary64.shortest_spec hy).1
    have hpos : 0 < (Binary64.shortest y).digits := lt_of_lt_of_le (by positivity) hexact.2.1
    obtain ⟨u, more, heq, hu, -⟩ := head_digitsOf hpos
    simp only [formatDecimal, heq]
    split_ifs with hwhole hpoint hsmall hone
    · exact ⟨u, _, rfl, hu⟩
    · obtain ⟨m, hm⟩ : ∃ m, (Binary64.shortest y).point.toNat = m + 1 :=
        ⟨(Binary64.shortest y).point.toNat - 1, by omega⟩
      rw [hm]
      exact ⟨u, _, rfl, hu⟩
    · exact ⟨unit '0', _, rfl, by decide⟩
    · exact ⟨u, _, rfl, hu⟩
    · exact ⟨u, _, rfl, hu⟩
  rw [doubleToString]
  split_ifs with hzero hneg
  · exact ⟨unit '0', [], rfl, .inl (by decide)⟩
  · exact ⟨unit '-', _, rfl, .inr rfl⟩
  · obtain ⟨u, rest, heq, hu⟩ := hformat (lt_of_le_of_ne (not_lt.mp hneg) (Ne.symm hzero))
    exact ⟨u, rest, heq, .inl hu⟩

section

variable {chars : Text → Text}

theorem print_head {v : JsValue} (h : v.Plain) : ∃ u rest, v.print chars = u :: rest ∧ StartsValue u := by
  cases v with
  | null => exact ⟨unit 'n', lit "ull", rfl, by decide⟩
  | bool b =>
    cases b
    · exact ⟨unit 'f', lit "alse", rfl, by decide⟩
    · exact ⟨unit 't', lit "rue", rfl, by decide⟩
  | num n =>
    obtain ⟨x, rfl⟩ : ∃ x, n = .finite x := h
    obtain ⟨u, rest, heq, hu⟩ := doubleToString_head x
    refine ⟨u, rest, heq, ?_⟩
    obtain hu | rfl := hu
    · exact isDigit_starts hu
    · decide
  | str text => exact ⟨unit '"', _, rfl, by decide⟩
  | arr items => exact ⟨unit '[', _, rfl, by decide⟩
  | obj fields => exact ⟨unit '{', _, rfl, by decide⟩
  | other reason => exact absurd h (by simp [JsValue.Plain, JsValue.All])

/-- A printed value may be followed by the end of the text, a comma or a closing bracket. -/
def EndsValue (rest : Text) : Prop :=
  ∀ u ∈ rest.head?, u = unit ',' ∨ u = unit ']' ∨ u = unit '}'

variable {rest : Text} {fuel : ℕ} {v : JsValue} {items : List JsValue} {fields : Fields}

theorem endsValue_comma (rest : Text) : EndsValue (unit ',' :: rest) := by
  intro u hu
  cases hu
  exact .inl rfl

theorem endsValue_bracket (rest : Text) : EndsValue (unit ']' :: rest) := by
  intro u hu
  cases hu
  exact .inr (.inl rfl)

theorem endsValue_brace (rest : Text) : EndsValue (unit '}' :: rest) := by
  intro u hu
  cases hu
  exact .inr (.inr rfl)

theorem skipSpace_cons {u : CodeUnit} (rest : Text) (h : isSpace u = false) :
    skipSpace (u :: rest) = u :: rest := by
  rw [skipSpace, dropWhile_cons, h]
  rfl

theorem parseWord_append (word : Text) (v : JsValue) (rest : Text) :
    parseWord word v (word ++ rest) = some (v, rest) := by
  rw [parseWord, if_pos (List.isPrefixOf_iff_prefix.mpr (prefix_append word rest)), drop_left]

theorem parseValue_scalar {fuel : ℕ} {u : CodeUnit} {rest : Text} (hu : isSpace u = false)
    (h1 : u ≠ unit '"') (h2 : u ≠ unit '[') (h3 : u ≠ unit '{') :
    parseValue (fuel + 1) (u :: rest) = parseScalar u (u :: rest) := by
  rw [parseValue, skipSpace_cons rest hu]
  simp only [if_neg h1, if_neg h2, if_neg h3]

theorem parseValue_number (x : Binary64.Double) (h : EndsNumber rest) :
    parseValue (fuel + 1) (doubleToString x ++ rest) = some (.num (.finite x), rest) := by
  have hread := parseNumber_doubleToString x h
  obtain ⟨u, more, heq, hu⟩ := doubleToString_head x
  have hnot : ∀ v, isDigit v = false → v ≠ unit '-' → u ≠ v := by
    rintro v hv hminus rfl
    obtain hu | hu := hu
    · rw [hv] at hu
      exact absurd hu (by decide)
    · exact hminus hu
  have hspace : isSpace u = false := by
    obtain hu | rfl := hu
    · exact (isDigit_starts hu).1
    · decide
  rw [heq, cons_append] at hread ⊢
  rw [parseValue_scalar hspace (hnot _ (by decide) (by decide)) (hnot _ (by decide) (by decide))
    (hnot _ (by decide) (by decide)), parseScalar, if_neg (hnot _ (by decide) (by decide)),
    if_neg (hnot _ (by decide) (by decide)), if_neg (hnot _ (by decide) (by decide)), hread]
  rfl

theorem printItems_cons (h : items ≠ []) :
    printItems chars (v :: items) = v.print chars ++ unit ',' :: printItems chars items := by
  obtain ⟨w, rest, rfl⟩ := exists_cons_of_ne_nil h
  rw [printItems]

theorem printFields_cons {k : Text} (h : fields ≠ []) : printFields chars ((k, v) :: fields) =
      quoteWith chars k ++ unit ':' :: (v.print chars ++ unit ',' :: printFields chars fields) := by
  obtain ⟨field, rest, rfl⟩ := exists_cons_of_ne_nil h
  rw [printFields]

theorem printItems_head (hne : items ≠ []) (h : ∀ v ∈ items, v.Plain) :
    ∃ u rest, printItems chars items = u :: rest ∧ StartsValue u := by
  obtain ⟨v, items, rfl⟩ := exists_cons_of_ne_nil hne
  obtain ⟨u, rest, heq, hu⟩ := print_head (h v mem_cons_self)
  cases items with
  | nil => exact ⟨u, rest, heq, hu⟩
  | cons w items => exact ⟨u, _, by rw [printItems, heq, cons_append], hu⟩

theorem printFields_head (hne : fields ≠ []) : ∃ rest, printFields chars fields = unit '"' :: rest := by
  obtain ⟨⟨k, v⟩, fields, rfl⟩ := exists_cons_of_ne_nil hne
  cases fields with
  | nil | cons => exact ⟨_, by rw [printFields, quoteWith, cons_append]⟩

/-- What is written between the quotes of a string is read back. -/
abbrev Quotes (chars : Text → Text) : Prop :=
  ∀ text rest, parseChars (chars text ++ unit '"' :: rest) = some (text, rest)

theorem parseFields_key (hchars : Quotes chars) (k : Text) (text : Text) :
    parseFields (fuel + 1) fields (quoteWith chars k ++ unit ':' :: text) =
      (parseValue fuel text).bind fun p =>
        match expect (unit ',') p.2 with
        | some text => parseFields fuel (setField fields k p.1) text
        | none => (expect (unit '}') p.2).bind fun text => some (setField fields k p.1, text) := by
  have hquote : expect (unit '"') (quoteWith chars k ++ unit ':' :: text) =
      some (chars k ++ unit '"' :: unit ':' :: text) := by
    rw [quoteWith, cons_append, expect_cons _ _ (by decide), append_assoc, singleton_append]
  rw [parseFields, hquote, bind_eq_bind, bind_some, hchars, bind_eq_bind, bind_some]
  simp only [expect_cons (unit ':') text (by decide), bind_eq_bind, bind_some]
  rfl

/-- `v` is read back, given the fuel its length asks for. -/
def ReadsBack (chars : Text → Text) (v : JsValue) : Prop :=
  ∀ fuel rest, 2 * (v.print chars).length ≤ fuel → EndsValue rest →
    parseValue fuel (v.print chars ++ rest) = some (v, rest)

theorem parseItems_print (hne : items ≠ []) (h : ∀ v ∈ items, ReadsBack chars v)
    (hfuel : 2 * (printItems chars items).length < fuel) :
    parseItems fuel (printItems chars items ++ unit ']' :: rest) = some (items, rest) := by
  induction items generalizing fuel with
  | nil => exact absurd rfl hne
  | cons v items ih =>
    obtain ⟨fuel, rfl⟩ : ∃ fuel', fuel = fuel' + 1 := ⟨fuel - 1, by omega⟩
    have hv := h v mem_cons_self
    rw [parseItems]
    by_cases hlast : items = []
    · subst hlast
      have hlen : printItems chars [v] = v.print chars := rfl
      rw [hlen] at hfuel ⊢
      rw [hv fuel _ (by omega) (endsValue_bracket rest)]
      have hcomma : expect (unit ',') (unit ']' :: rest) = none :=
        expect_of_ne rest (by decide) (by decide)
      simp [hcomma, expect_cons (unit ']') rest (by decide)]
    · rw [printItems_cons hlast] at hfuel ⊢
      simp only [length_append, length_cons] at hfuel
      rw [append_assoc, cons_append, hv fuel _ (by omega) (endsValue_comma _)]
      have hmore : parseItems fuel (printItems chars items ++ unit ']' :: rest) = some (items, rest) :=
        ih hlast (fun w hw => h w (mem_cons_of_mem v hw)) (by omega)
      simp [expect_cons (unit ',') _ (by decide : isSpace (unit ',') = false), hmore]

theorem parseFields_print (hchars : Quotes chars) (hne : fields ≠ [])
    (h : ∀ f ∈ fields, ReadsBack chars f.2) {before : Fields}
    (hkeys : (keys (before ++ fields)).Nodup) (hfuel : 2 * (printFields chars fields).length < fuel) :
    parseFields fuel before (printFields chars fields ++ unit '}' :: rest) = some (before ++ fields, rest) := by
  induction fields generalizing before fuel with
  | nil => exact absurd rfl hne
  | cons field fields ih =>
    obtain ⟨k, v⟩ := field
    obtain ⟨fuel, rfl⟩ : ∃ fuel', fuel = fuel' + 1 := ⟨fuel - 1, by omega⟩
    have hv : ReadsBack chars v := h (k, v) mem_cons_self
    have hnew : k ∉ keys before := by
      rw [keys_append, nodup_append] at hkeys
      exact fun hk => hkeys.2.2 k hk k mem_cons_self rfl
    by_cases hlast : fields = []
    · subst hlast
      have hlen : printFields chars [(k, v)] = quoteWith chars k ++ unit ':' :: v.print chars := rfl
      rw [hlen] at hfuel ⊢
      simp only [length_append, length_cons] at hfuel
      rw [append_assoc, cons_append, parseFields_key hchars, hv fuel _ (by omega) (endsValue_brace rest), bind_some]
      have hcomma : expect (unit ',') (unit '}' :: rest) = none :=
        expect_of_ne rest (by decide) (by decide)
      simp [hcomma, expect_cons (unit '}') rest (by decide), setField_of_notMem v hnew]
    · rw [printFields_cons hlast] at hfuel ⊢
      simp only [length_append, length_cons] at hfuel
      rw [append_assoc, cons_append, parseFields_key hchars, append_assoc, cons_append,
        hv fuel _ (by omega) (endsValue_comma _), bind_some]
      have hmore : parseFields fuel (before ++ [(k, v)]) (printFields chars fields ++ unit '}' :: rest) =
          some (before ++ [(k, v)] ++ fields, rest) :=
        ih hlast (fun f hf => h f (mem_cons_of_mem _ hf)) (by simpa using hkeys) (by omega)
      rw [append_assoc, singleton_append] at hmore
      simp [expect_cons (unit ',') _ (by decide : isSpace (unit ',') = false), setField_of_notMem v hnew, hmore]

section

variable (hplain : ∀ v ∈ items, v.Plain) (h : ∀ v ∈ items, ReadsBack chars v)
include hplain h

theorem parseValue_arr (fuel : ℕ) (rest : Text)
    (hfuel : 2 * ((JsValue.arr items).print chars).length ≤ fuel) :
    parseValue fuel ((JsValue.arr items).print chars ++ rest) = some (.arr items, rest) := by
  obtain ⟨fuel, rfl⟩ : ∃ fuel', fuel = fuel' + 1 := by
    rw [JsValue.print] at hfuel
    simp only [length_cons] at hfuel
    exact ⟨fuel - 1, by omega⟩
  rw [JsValue.print] at hfuel ⊢
  simp only [length_cons, length_append, length_nil] at hfuel
  rw [cons_append, append_assoc, singleton_append, parseValue, skipSpace_cons _ (by decide)]
  by_cases hne : items = []
  · subst hne
    have hclose : expect (unit ']') (printItems chars [] ++ unit ']' :: rest) = some rest :=
      expect_cons _ _ (by decide)
    have hquote : unit '[' ≠ unit '"' := by decide
    simp [hclose, hquote]
  · obtain ⟨u, more, heq, hu⟩ := printItems_head hne hplain
    have hitems : parseItems fuel (printItems chars items ++ unit ']' :: rest) = some (items, rest) :=
      parseItems_print hne h (by omega)
    rw [heq, cons_append] at hitems ⊢
    have hopen : expect (unit ']') (u :: (more ++ unit ']' :: rest)) = none :=
      expect_of_ne _ hu.1 hu.2.1
    have hquote : unit '[' ≠ unit '"' := by decide
    simp [hopen, hquote, hitems]

end

section

variable (hchars : Quotes chars) (hkeys : (keys fields).Nodup)
  (h : ∀ f ∈ fields, ReadsBack chars f.2)
include hchars hkeys h

theorem parseValue_obj (fuel : ℕ) (rest : Text)
    (hfuel : 2 * ((JsValue.obj fields).print chars).length ≤ fuel) :
    parseValue fuel ((JsValue.obj fields).print chars ++ rest) = some (.obj fields, rest) := by
  obtain ⟨fuel, rfl⟩ : ∃ fuel', fuel = fuel' + 1 := by
    rw [JsValue.print] at hfuel
    simp only [length_cons] at hfuel
    exact ⟨fuel - 1, by omega⟩
  rw [JsValue.print] at hfuel ⊢
  simp only [length_cons, length_append, length_nil] at hfuel
  rw [cons_append, append_assoc, singleton_append, parseValue, skipSpace_cons _ (by decide)]
  have hquote : unit '{' ≠ unit '"' := by decide
  have hbracket : unit '{' ≠ unit '[' := by decide
  by_cases hne : fields = []
  · subst hne
    have hclose : expect (unit '}') (printFields chars [] ++ unit '}' :: rest) = some rest :=
      expect_cons _ _ (by decide)
    simp [hclose, hquote, hbracket]
  · obtain ⟨more, heq⟩ := printFields_head hne
    have hfields : parseFields fuel [] (printFields chars fields ++ unit '}' :: rest) = some (fields, rest) :=
      parseFields_print hchars hne h (by simpa using hkeys) (by omega)
    rw [heq, cons_append] at hfields ⊢
    have hopen : expect (unit '}') (unit '"' :: (more ++ unit '}' :: rest)) = none :=
      expect_of_ne _ (by decide) (by decide)
    simp [hopen, hquote, hbracket, hfields]

end

theorem readsBack_scalar (hchars : Quotes chars) (h : v.Plain) (harr : ∀ items, v ≠ .arr items)
    (hobj : ∀ fields, v ≠ .obj fields) : ReadsBack chars v := by
  intro fuel rest hfuel hrest
  obtain ⟨u, more, heq, -⟩ := @print_head chars _ h
  obtain ⟨fuel, rfl⟩ : ∃ fuel', fuel = fuel' + 1 := by
    simp only [heq, length_cons] at hfuel
    exact ⟨fuel - 1, by omega⟩
  cases v with
  | null =>
    show parseValue (fuel + 1) (unit 'n' :: (lit "ull" ++ rest)) = _
    rw [parseValue_scalar (by decide) (by decide) (by decide) (by decide), parseScalar, if_pos rfl]
    exact parseWord_append (lit "null") .null rest
  | bool b =>
    cases b with
    | true =>
      show parseValue (fuel + 1) (unit 't' :: (lit "rue" ++ rest)) = _
      rw [parseValue_scalar (by decide) (by decide) (by decide) (by decide), parseScalar,
        if_neg (by decide), if_pos rfl]
      exact parseWord_append (lit "true") (.bool true) rest
    | false =>
      show parseValue (fuel + 1) (unit 'f' :: (lit "alse" ++ rest)) = _
      rw [parseValue_scalar (by decide) (by decide) (by decide) (by decide), parseScalar,
        if_neg (by decide), if_neg (by decide), if_pos rfl]
      exact parseWord_append (lit "false") (.bool false) rest
  | num n =>
    obtain ⟨x, rfl⟩ : ∃ x, n = .finite x := h
    exact parseValue_number x fun u hu => by rcases hrest u hu with rfl | rfl | rfl <;> decide
  | str text =>
    show parseValue (fuel + 1) (unit '"' :: (chars text ++ [unit '"'] ++ rest)) = _
    rw [append_assoc, singleton_append, parseValue, skipSpace_cons _ (by decide)]
    simp only [if_true, hchars text, map_some]
  | arr items => exact absurd rfl (harr items)
  | obj fields => exact absurd rfl (hobj fields)
  | other reason => exact absurd h (by simp [JsValue.Plain, JsValue.All])

mutual

theorem readsBack (hchars : Quotes chars) : ∀ {v : JsValue}, v.Plain → ReadsBack chars v
  | .null, h => readsBack_scalar hchars h (by simp) (by simp)
  | .bool _, h => readsBack_scalar hchars h (by simp) (by simp)
  | .num _, h => readsBack_scalar hchars h (by simp) (by simp)
  | .str _, h => readsBack_scalar hchars h (by simp) (by simp)
  | .arr _, h => fun fuel rest hfuel _ =>
    parseValue_arr (allItems_iff.mp h) (readsBack_items hchars h) fuel rest hfuel
  | .obj _, h => fun fuel rest hfuel _ =>
    parseValue_obj hchars h.1 (readsBack_fields hchars h.2) fuel rest hfuel
  | .other _, h => absurd h (by simp [JsValue.Plain, JsValue.All])

theorem readsBack_items (hchars : Quotes chars) : ∀ {items : List JsValue},
    AllItems (fun n => ∃ x, n = .finite x) False items → ∀ v ∈ items, ReadsBack chars v
  | [], _, v, hv => by simp at hv
  | w :: items, h, v, hv => by
    obtain heq | hv := mem_cons.mp hv
    · exact heq ▸ readsBack hchars h.1
    · exact readsBack_items hchars h.2 v hv

theorem readsBack_fields (hchars : Quotes chars) : ∀ {fields : Fields},
    AllFields (fun n => ∃ x, n = .finite x) False fields → ∀ f ∈ fields, ReadsBack chars f.2
  | [], _, f, hf => by simp at hf
  | (k, v) :: fields, h, f, hf => by
    obtain heq | hf := mem_cons.mp hf
    · exact heq ▸ readsBack hchars h.1
    · exact readsBack_fields hchars h.2 f hf

end

/-- **What is printed is read back.** -/
theorem parse_print (hchars : Quotes chars) {v : JsValue} (h : v.Plain) : parse (v.print chars) = some v := by
  have hread := readsBack hchars h (2 * (v.print chars).length + 1) [] (by omega) (by simp [EndsValue])
  rw [append_nil] at hread
  rw [parse, hread]
  simp [skipSpace]

end

theorem stringify_head {v : JsValue} (h : v.Plain) : ∃ u rest, v.stringify = u :: rest ∧ StartsValue u := by
  rw [JsValue.stringify_eq_print]
  exact print_head h

theorem stringifyItems_cons {v : JsValue} {items : List JsValue} (h : items ≠ []) :
    stringifyItems (v :: items) = v.stringify ++ unit ',' :: stringifyItems items := by
  obtain ⟨w, rest, rfl⟩ := exists_cons_of_ne_nil h
  rw [stringifyItems]

theorem stringifyFields_cons {k : Text} {v : JsValue} {fields : Fields} (h : fields ≠ []) :
    stringifyFields ((k, v) :: fields) =
      quote k ++ unit ':' :: (v.stringify ++ unit ',' :: stringifyFields fields) := by
  obtain ⟨field, rest, rfl⟩ := exists_cons_of_ne_nil h
  rw [stringifyFields]

theorem parse_stringify {v : JsValue} (h : v.Plain) : parse v.stringify = some v := by
  rw [JsValue.stringify_eq_print]
  exact parse_print parseChars_quote h

end ArdurBot.Json
