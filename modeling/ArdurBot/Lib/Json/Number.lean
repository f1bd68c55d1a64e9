import Mathlib.Data.Nat.Digits.Lemmas
import ArdurBot.Lib.Binary64
import ArdurBot.Lib.Utf16

/-!
# JSON numbers

`numberToString` prints a number as JavaScript does: the digits of its shortest decimal, with a
decimal point while it stays near them and an exponent otherwise. `parseNumber` reads the number
grammar of JSON and rounds what it read. Reading back what was printed gives the same number, except
that both zeros print as "0".
-/

namespace ArdurBot.Json

open List Utf16 Binary64

inductive JsNumber where
  | nan
  | infinity (negative : Bool)
  | negZero
  | finite (x : Double)
deriving DecidableEq

def maxSafeInteger : ℕ := 9007199254740991

def zeroDouble : Double := ⟨0, by decide +kernel⟩

def digitUnit (d : ℕ) : CodeUnit := (48 + d).toUInt16

def digitsOf (n : ℕ) : Text := (Nat.digits 10 n).reverse.map digitUnit

def readDigits (digits : Text) : ℕ := digits.foldl (fun n u => 10 * n + (u.toNat - 48)) 0

theorem toNat_digitUnit {d : ℕ} (h : d < 10) : (digitUnit d).toNat = 48 + d := by
  rw [digitUnit, Nat.toUInt16, UInt16.toNat_ofNat']
  omega

variable {d : Decimal} {u : CodeUnit} {n : ℕ} {a b ds rest text : Text} {e : ℤ}

theorem isDigit_of_mem_digitsOf (h : u ∈ digitsOf n) : isDigit u := by
  simp only [digitsOf, mem_map, mem_reverse] at h
  obtain ⟨d, hd, rfl⟩ := h
  have hlt := Nat.digits_lt_base (by norm_num) hd
  rw [isDigit_iff, toNat_digitUnit hlt]
  omega

theorem readDigits_append (a b : Text) :
    readDigits (a ++ b) = readDigits a * 10 ^ b.length + readDigits b := by
  induction b using reverseRecOn with
  | nil => simp [readDigits]
  | append_singleton b u ih =>
    rw [← append_assoc]
    simp only [readDigits, foldl_append, foldl_cons, foldl_nil, length_append, length_cons, length_nil] at ih ⊢
    rw [ih]
    ring

theorem readDigits_zeros (k : ℕ) : readDigits (replicate k (unit '0')) = 0 := by
  induction k with
  | zero => rfl
  | succ k ih =>
    rw [replicate_succ', readDigits_append, ih]
    rfl

theorem readDigits_digitsOf (n : ℕ) : readDigits (digitsOf n) = n := by
  have hread : ∀ ds : List ℕ, (∀ d ∈ ds, d < 10) → readDigits (ds.reverse.map digitUnit) = Nat.ofDigits 10 ds := by
    intro ds
    induction ds with
    | nil => intro _; rfl
    | cons d ds ih =>
      intro hlt
      have hd := hlt d mem_cons_self
      rw [reverse_cons, map_append, readDigits_append, ih fun e he => hlt e (mem_cons_of_mem d he), Nat.ofDigits_cons]
      simp only [readDigits, map_cons, map_nil, foldl_cons, foldl_nil, toNat_digitUnit hd, length_cons, length_nil]
      omega
  rw [digitsOf, hread _ fun d hd => Nat.digits_lt_base (by norm_num) hd, Nat.ofDigits_digits]

theorem length_digitsOf (h : d.Exact) : (digitsOf d.digits).length = d.count := by
  obtain ⟨hpos, hlow, hhigh⟩ := h
  rw [digitsOf, length_map, length_reverse]
  apply Nat.le_antisymm
  · exact (Nat.digits_length_le_iff (by norm_num) _).mpr hhigh
  · have := (Nat.lt_digits_length_iff (b := 10) (k := d.count - 1) (by norm_num) d.digits).mpr hlow
    omega

theorem head_digitsOf (hn : 0 < n) : ∃ u rest, digitsOf n = u :: rest ∧ isDigit u ∧ u ≠ unit '0' := by
  have hne : Nat.digits 10 n ≠ [] := Nat.digits_ne_nil_iff_ne_zero.mpr hn.ne'
  have hlast := Nat.getLast_digit_ne_zero 10 hn.ne'
  have hsplit : digitsOf n = digitUnit ((Nat.digits 10 n).getLast hne) ::
      (Nat.digits 10 n).dropLast.reverse.map digitUnit := by
    rw [digitsOf]
    conv_lhs => rw [← dropLast_append_getLast hne]
    simp
  refine ⟨_, _, hsplit, ?_, ?_⟩
  · exact isDigit_of_mem_digitsOf (hsplit ▸ mem_cons_self)
  · intro heq
    have hlt := Nat.digits_lt_base (by norm_num) (getLast_mem hne)
    have hnat := congrArg UInt16.toNat heq
    rw [toNat_digitUnit hlt] at hnat
    have hzero : (unit '0').toNat = 48 := rfl
    omega

def zeros (n : ℤ) : Text := List.replicate n.toNat (unit '0')

def exponentPart (e : ℤ) : Text :=
  unit 'e' :: (if e < 0 then unit '-' else unit '+') :: digitsOf e.natAbs

/-- Number::toString on a positive number, given its digits. -/
def formatDecimal (d : Decimal) : Text :=
  let digits := digitsOf d.digits
  let k : ℤ := d.count
  let n := d.point
  if k ≤ n ∧ n ≤ 21 then digits ++ zeros (n - k)
  else if 0 < n ∧ n ≤ 21 then digits.take n.toNat ++ unit '.' :: digits.drop n.toNat
  else if -6 < n ∧ n ≤ 0 then unit '0' :: unit '.' :: (zeros (-n) ++ digits)
  else if k = 1 then digits ++ exponentPart (n - 1)
  else digits.take 1 ++ unit '.' :: (digits.drop 1 ++ exponentPart (n - 1))

def doubleToString (x : Double) : Text :=
  if x.val = 0 then lit "0"
  else if x.val < 0 then unit '-' :: formatDecimal (shortest x.abs)
  else formatDecimal (shortest x)

/-- `String(x)` -/
def numberToString : JsNumber → Text
  | .nan => lit "NaN"
  | .infinity negative => if negative then lit "-Infinity" else lit "Infinity"
  | .negZero => lit "0"
  | .finite x => doubleToString x

/-- The `int` of the grammar: "0", or digits that do not start with it. -/
def parseInt : Text → Option (Text × Text)
  | [] => none
  | u :: rest =>
    if u = unit '0' then some ([u], rest)
    else if isDigit u then some (u :: rest.takeWhile isDigit, rest.dropWhile isDigit)
    else none

def parseDigits (text : Text) : Option (Text × Text) :=
  if text.takeWhile isDigit = [] then none
  else some (text.takeWhile isDigit, text.dropWhile isDigit)

def parseFraction : Text → Option (Text × Text)
  | [] => some ([], [])
  | u :: rest => if u = unit '.' then parseDigits rest else some ([], u :: rest)

def parseExponentDigits (text : Text) : Option (ℤ × Text) :=
  (parseDigits text).map fun p => ((readDigits p.1 : ℤ), p.2)

def parseSignedDigits : Text → Option (ℤ × Text)
  | [] => none
  | u :: rest =>
    if u = unit '+' then parseExponentDigits rest
    else if u = unit '-' then (parseExponentDigits rest).map fun p => (-p.1, p.2)
    else parseExponentDigits (u :: rest)

def parseExponent : Text → Option (ℤ × Text)
  | [] => some (0, [])
  | u :: rest =>
    if u = unit 'e' ∨ u = unit 'E' then parseSignedDigits rest else some (0, u :: rest)

def parseUnsigned (text : Text) : Option (ℚ × Text) := do
  let (int, text) ← parseInt text
  let (frac, text) ← parseFraction text
  let (e, text) ← parseExponent text
  return ((readDigits (int ++ frac) : ℚ) * 10 ^ (e - frac.length), text)

/-- The number a decimal with a sign is read as. -/
def toNumber (negative : Bool) (q : ℚ) : JsNumber :=
  match nearest (if negative then -q else q) with
  | none => .infinity negative
  | some x => if x.val = 0 ∧ negative then .negZero else .finite x

def parseNumber : Text → Option (JsNumber × Text)
  | [] => none
  | u :: rest =>
    if u = unit '-' then (parseUnsigned rest).map fun p => (toNumber true p.1, p.2)
    else (parseUnsigned (u :: rest)).map fun p => (toNumber false p.1, p.2)

/-- `rest` cannot be taken for more of a number. -/
def EndsNumber (rest : Text) : Prop :=
  ∀ u ∈ rest.head?, isDigit u = false ∧ u ≠ unit '.' ∧ u ≠ unit 'e' ∧ u ≠ unit 'E'

def NoDigit (rest : Text) : Prop := ∀ u ∈ rest.head?, isDigit u = false

theorem EndsNumber.noDigit (h : EndsNumber rest) : NoDigit rest :=
  fun u hu => (h u hu).1

theorem noDigit_cons (rest : Text) (h : isDigit u = false) : NoDigit (u :: rest) := by
  intro v hv
  cases hv
  exact h

private theorem takeWhile_digits (hds : ∀ u ∈ ds, isDigit u) (hrest : NoDigit rest) :
    (ds ++ rest).takeWhile isDigit = ds := by
  rw [takeWhile_append_of_pos hds]
  cases rest with
  | nil => simp
  | cons u rest => simp [hrest u rfl]

private theorem dropWhile_digits (hds : ∀ u ∈ ds, isDigit u) (hrest : NoDigit rest) :
    (ds ++ rest).dropWhile isDigit = rest := by
  rw [dropWhile_append_of_pos hds]
  cases rest with
  | nil => rfl
  | cons u rest => simp [hrest u rfl]

theorem parseDigits_append (hne : ds ≠ []) (hds : ∀ u ∈ ds, isDigit u) (hrest : NoDigit rest) :
    parseDigits (ds ++ rest) = some (ds, rest) := by
  rw [parseDigits, takeWhile_digits hds hrest, dropWhile_digits hds hrest, if_neg hne]

/-- A number without superfluous zeros in front. -/
def IsInt (ds : Text) : Prop :=
  ds = [unit '0'] ∨ ∃ u rest, ds = u :: rest ∧ isDigit u ∧ u ≠ unit '0' ∧ ∀ v ∈ rest, isDigit v

theorem parseInt_append (hds : IsInt ds) (hrest : NoDigit rest) :
    parseInt (ds ++ rest) = some (ds, rest) := by
  obtain rfl | ⟨u, more, rfl, hu, hne, hmore⟩ := hds
  · rw [singleton_append, parseInt, if_pos rfl]
  · rw [cons_append, parseInt, if_neg hne, if_pos hu, takeWhile_digits hmore hrest, dropWhile_digits hmore hrest]

theorem parseFraction_of_ends (h : EndsNumber rest) : parseFraction rest = some ([], rest) := by
  cases rest with
  | nil => rfl
  | cons u rest => rw [parseFraction, if_neg (h u rfl).2.1]

theorem parseExponent_of_ends (h : EndsNumber rest) : parseExponent rest = some (0, rest) := by
  cases rest with
  | nil => rfl
  | cons u rest =>
    have hu : ¬ (u = unit 'e' ∨ u = unit 'E') := not_or.mpr (h u rfl).2.2
    rw [parseExponent, if_neg hu]

theorem digitsOf_ne_nil (hn : 0 < n) : digitsOf n ≠ [] := by
  obtain ⟨u, rest, heq, -⟩ := head_digitsOf hn
  simp [heq]

theorem parseExponent_exponentPart (he : e ≠ 0) (h : NoDigit rest) :
    parseExponent (exponentPart e ++ rest) = some (e, rest) := by
  have hdigits : parseExponentDigits (digitsOf e.natAbs ++ rest) = some ((e.natAbs : ℤ), rest) := by
    rw [parseExponentDigits, parseDigits_append (digitsOf_ne_nil (Int.natAbs_pos.mpr he))
      (fun u hu => isDigit_of_mem_digitsOf hu) h, Option.map_some, readDigits_digitsOf]
  rw [exponentPart, cons_append, cons_append, parseExponent, if_pos (.inl rfl)]
  by_cases hneg : e < 0
  · have habs : -(e.natAbs : ℤ) = e := by omega
    rw [if_pos hneg, parseSignedDigits, if_neg (by decide), if_pos rfl, hdigits, Option.map_some, habs]
  · have habs : (e.natAbs : ℤ) = e := by omega
    rw [if_neg hneg, parseSignedDigits, if_pos rfl, hdigits, habs]

theorem parseUnsigned_of_parts {i f t₁ t₂ t₃ : Text} (hi : parseInt text = some (i, t₁))
    (hf : parseFraction t₁ = some (f, t₂)) (he : parseExponent t₂ = some (e, t₃)) :
    parseUnsigned text = some ((readDigits (i ++ f) : ℚ) * 10 ^ (e - f.length), t₃) := by
  simp [parseUnsigned, hi, hf, he]

theorem isInt_digitsOf (hn : 0 < n) : IsInt (digitsOf n) := by
  obtain ⟨u, rest, heq, hu, hne⟩ := head_digitsOf hn
  refine .inr ⟨u, rest, heq, hu, hne, fun v hv => ?_⟩
  exact isDigit_of_mem_digitsOf (n := n) (heq ▸ mem_cons_of_mem u hv)

theorem isInt_take_digitsOf {m : ℕ} (hn : 0 < n) (hm : 0 < m) : IsInt ((digitsOf n).take m) := by
  obtain ⟨u, rest, heq, hu, hne⟩ := head_digitsOf hn
  obtain ⟨m, rfl⟩ : ∃ m', m = m' + 1 := ⟨m - 1, by omega⟩
  refine .inr ⟨u, rest.take m, by rw [heq, take_succ_cons], hu, hne, fun v hv => ?_⟩
  have hmem := mem_of_mem_take hv
  exact isDigit_of_mem_digitsOf (n := n) (heq ▸ mem_cons_of_mem u hmem)

theorem isDigit_of_mem_zeros {n : ℤ} (h : u ∈ zeros n) : isDigit u := by
  rw [eq_of_mem_replicate h]
  rfl

theorem readDigits_zeros_append (n : ℤ) (ds : Text) : readDigits (zeros n ++ ds) = readDigits ds := by
  rw [readDigits_append, zeros, readDigits_zeros, Nat.zero_mul, Nat.zero_add]

theorem parseUnsigned_formatDecimal (hd : d.Exact) (h : EndsNumber rest) :
    parseUnsigned (formatDecimal d ++ rest) = some (d.value, rest) := by
  have hpos : 0 < d.digits := lt_of_lt_of_le (by positivity) hd.2.1
  have hlen := length_digitsOf hd
  have hcount := hd.1
  have hdigits : ∀ u ∈ digitsOf d.digits, isDigit u := fun u hu => isDigit_of_mem_digitsOf hu
  have hdot : isDigit (unit '.') = false := by decide
  have hexp : isDigit (unit 'e') = false := by decide
  simp only [formatDecimal]
  split_ifs with hwhole hpoint hsmall hone
  · -- an integer, with zeros up to the decimal point
    have hint : IsInt (digitsOf d.digits ++ zeros (d.point - d.count)) := by
      obtain ⟨u, more, heq, hu, hne⟩ := head_digitsOf hpos
      refine .inr ⟨u, more ++ zeros (d.point - d.count), by rw [heq, cons_append], hu, hne, ?_⟩
      intro v hv
      obtain hv | hv := mem_append.mp hv
      · exact hdigits v (heq ▸ mem_cons_of_mem u hv)
      · exact isDigit_of_mem_zeros hv
    rw [parseUnsigned_of_parts (parseInt_append hint h.noDigit) (parseFraction_of_ends h)
      (parseExponent_of_ends h), append_nil, readDigits_append, zeros, readDigits_zeros,
            length_replicate, Nat.add_zero, readDigits_digitsOf]
    have hz : ((10 ^ (d.point - d.count).toNat : ℕ) : ℚ) = 10 ^ (d.point - d.count) := by
      push_cast
      rw [← zpow_natCast, Int.toNat_of_nonneg (by omega)]
    simp only [Decimal.value, Nat.cast_mul, hz, length_nil, Nat.cast_zero, sub_zero, zpow_zero, mul_one]
  · -- the decimal point among the digits
    obtain ⟨m, hm⟩ : ∃ m : ℕ, (m : ℤ) = d.point := ⟨d.point.toNat, by omega⟩
    have hmpos : 0 < m := by omega
    have hlt : m < d.count := by omega
    rw [← hm, Int.toNat_natCast, append_assoc, cons_append]
    have hfrac : parseFraction (unit '.' :: ((digitsOf d.digits).drop m ++ rest)) =
        some ((digitsOf d.digits).drop m, rest) := by
      rw [parseFraction, if_pos rfl]
      apply parseDigits_append _ (fun u hu => hdigits u (mem_of_mem_drop hu)) h.noDigit
      intro hnil
      have hle := drop_eq_nil_iff.mp hnil
      omega
    rw [parseUnsigned_of_parts (parseInt_append (isInt_take_digitsOf hpos hmpos)
        (noDigit_cons _ hdot)) hfrac (parseExponent_of_ends h),
      take_append_drop, readDigits_digitsOf, length_drop, hlen, Decimal.value, ← hm]
    congr 4
    omega
  · -- a small number, with zeros after the decimal point
    rw [cons_append, cons_append]
    have hfrac : parseFraction (unit '.' :: (zeros (-d.point) ++ digitsOf d.digits ++ rest)) =
        some (zeros (-d.point) ++ digitsOf d.digits, rest) := by
      rw [parseFraction, if_pos rfl]
      apply parseDigits_append _ _ h.noDigit
      · simp [digitsOf_ne_nil hpos]
      · intro u hu
        obtain hu | hu := mem_append.mp hu
        · exact isDigit_of_mem_zeros hu
        · exact hdigits u hu
    have hzero : parseInt (unit '0' :: unit '.' :: (zeros (-d.point) ++ digitsOf d.digits ++ rest)) =
        some ([unit '0'], unit '.' :: (zeros (-d.point) ++ digitsOf d.digits ++ rest)) := by
      rw [parseInt, if_pos rfl]
    have hread : readDigits ([unit '0'] ++ (zeros (-d.point) ++ digitsOf d.digits)) = d.digits := by
      have hlead : [unit '0'] = zeros 1 := rfl
      rw [hlead, readDigits_zeros_append, readDigits_zeros_append, readDigits_digitsOf]
    rw [parseUnsigned_of_parts hzero hfrac (parseExponent_of_ends h), hread, length_append, hlen,
      zeros, length_replicate, Decimal.value]
    congr 4
    omega
  · -- one digit and an exponent
    have hne : d.point - 1 ≠ 0 := by omega
    rw [append_assoc]
    have hfrac : parseFraction (exponentPart (d.point - 1) ++ rest) =
        some ([], exponentPart (d.point - 1) ++ rest) := by
      rw [exponentPart, cons_append, parseFraction, if_neg (by decide)]
    have hint : parseInt (digitsOf d.digits ++ (exponentPart (d.point - 1) ++ rest)) =
        some (digitsOf d.digits, exponentPart (d.point - 1) ++ rest) :=
      parseInt_append (isInt_digitsOf hpos) (noDigit_cons _ hexp)
    rw [parseUnsigned_of_parts hint hfrac (parseExponent_exponentPart hne h.noDigit), append_nil,
      readDigits_digitsOf, Decimal.value, hone]
    simp
  · -- several digits and an exponent
    have hne : d.point - 1 ≠ 0 := by omega
    rw [append_assoc, cons_append, append_assoc]
    have hfrac : parseFraction (unit '.' :: ((digitsOf d.digits).drop 1 ++ (exponentPart (d.point - 1) ++ rest))) =
        some ((digitsOf d.digits).drop 1, exponentPart (d.point - 1) ++ rest) := by
      rw [parseFraction, if_pos rfl]
      apply parseDigits_append _ (fun u hu => hdigits u (mem_of_mem_drop hu)) (noDigit_cons _ hexp)
      intro hnil
      have hle := drop_eq_nil_iff.mp hnil
      omega
    rw [parseUnsigned_of_parts (parseInt_append (isInt_take_digitsOf hpos Nat.one_pos)
        (noDigit_cons _ hdot)) hfrac (parseExponent_exponentPart hne h.noDigit),
      take_append_drop, readDigits_digitsOf, length_drop, hlen, Decimal.value]
    congr 4
    omega

theorem formatDecimal_head (hd : d.Exact) (rest : Text) :
    ∃ u more, formatDecimal d ++ rest = u :: more ∧ u ≠ unit '-' := by
  have hpos : 0 < d.digits := lt_of_lt_of_le (by positivity) hd.2.1
  obtain ⟨u, more, heq, hu, -⟩ := head_digitsOf hpos
  have hminus : u ≠ unit '-' := by
    rintro rfl
    exact absurd hu (by decide)
  simp only [formatDecimal, heq]
  split_ifs with hwhole hpoint hsmall hone
  · exact ⟨u, _, rfl, hminus⟩
  · obtain ⟨m, hm⟩ : ∃ m, d.point.toNat = m + 1 := ⟨d.point.toNat - 1, by omega⟩
    rw [hm]
    exact ⟨u, _, rfl, hminus⟩
  · exact ⟨unit '0', _, rfl, by decide⟩
  · exact ⟨u, _, rfl, hminus⟩
  · exact ⟨u, _, rfl, hminus⟩

/-- **A double is read back from its text.** -/
theorem parseNumber_doubleToString (x : Double) (h : EndsNumber rest) :
    parseNumber (doubleToString x ++ rest) = some (.finite x, rest) := by
  rw [doubleToString]
  split_ifs with hzero hneg
  · have hx : x = zeroDouble := Subtype.ext hzero
    have hread : parseUnsigned ([unit '0'] ++ rest) = some (0, rest) := by
      rw [parseUnsigned_of_parts (parseInt_append (.inl rfl) h.noDigit) (parseFraction_of_ends h)
        (parseExponent_of_ends h)]
      have hdigits : readDigits [unit '0'] = 0 := by decide
      simp [hdigits]
    have hnearest : nearest (0 : ℚ) = some zeroDouble := nearest_eq_some zeroDouble.property
    rw [singleton_append] at hread
    have htext : lit "0" ++ rest = unit '0' :: rest := rfl
    rw [htext, parseNumber, if_neg (by decide), hread, hx]
    simp [toNumber, hnearest]
  · have habs := x.abs_of_neg hneg
    obtain ⟨hexact, hround⟩ := shortest_spec (x := x.abs) (by rw [habs]; linarith)
    have hback : roundNearest (-(shortest x.abs).value) = some x.val := by
      have hpos := hexact.value_pos
      have hpositive := hround
      rw [round_of_nonneg hpos.le] at hpositive
      rw [roundNearest, if_pos (by linarith), neg_neg, hpositive, Option.map_some, habs, neg_neg]
    rw [cons_append, parseNumber, if_pos rfl, parseUnsigned_formatDecimal hexact h]
    simp [toNumber, nearest_eq_some hback, hzero]
  · have hxpos : 0 < x.val := lt_of_le_of_ne (not_lt.mp hneg) (Ne.symm hzero)
    obtain ⟨hexact, hround⟩ := shortest_spec hxpos
    obtain ⟨u, more, heq, hminus⟩ := formatDecimal_head hexact rest
    have hread := parseUnsigned_formatDecimal hexact h
    rw [heq] at hread ⊢
    rw [parseNumber, if_neg hminus, hread]
    simp [toNumber, nearest_eq_some hround]

def ofNat (n : ℕ) : JsNumber := toNumber false n

theorem roundNearest_natCast (h : n < 2 ^ 53) : roundNearest (n : ℚ) = some (n : ℚ) := by
  rw [round_of_nonneg (Nat.cast_nonneg n)]
  have hulp : ulpExponent (n : ℚ) ≤ 0 := by
    have hlog : Int.log 2 (n : ℚ) ≤ 52 := by
      by_cases hn : n = 0
      · simp [hn]
      · have hpos : (0 : ℚ) < n := by exact_mod_cast Nat.pos_of_ne_zero hn
        have hlt : (n : ℚ) < ((2 : ℕ) : ℚ) ^ (53 : ℤ) := by exact_mod_cast h
        have := (Int.lt_zpow_iff_log_lt (b := 2) (by norm_num) hpos).mp hlt
        omega
    exact max_le (by norm_num) (by omega)
  obtain ⟨k, hk⟩ : ∃ k : ℕ, ulpExponent (n : ℚ) = -k := ⟨(-ulpExponent (n : ℚ)).toNat, by omega⟩
  have hpow : (0 : ℚ) < 2 ^ k := by positivity
  have hscaled : (n : ℚ) / 2 ^ (-k : ℤ) = ((n * 2 ^ k : ℕ) : ℤ) := by
    rw [zpow_neg, zpow_natCast, div_inv_eq_mul]
    push_cast
    rfl
  have hback : (((n * 2 ^ k : ℕ) : ℤ) : ℚ) * 2 ^ (-k : ℤ) = n := by
    rw [zpow_neg, zpow_natCast]
    push_cast
    field_simp
  have hbound : (n : ℚ) < 2 ^ 1024 := by
    have hlt : (n : ℚ) < 2 ^ 53 := by exact_mod_cast h
    exact hlt.trans_le (pow_le_pow_right₀ (by norm_num) (by norm_num))
  simp only [roundPos, hk, hscaled, roundEven_intCast, hback, if_pos hbound]

theorem ofNat_eq (h : n < 2 ^ 53) : ofNat n = .finite ⟨n, roundNearest_natCast h⟩ := by
  have hnearest : nearest (n : ℚ) = some ⟨n, roundNearest_natCast h⟩ :=
    nearest_eq_some (x := ⟨n, roundNearest_natCast h⟩) (roundNearest_natCast h)
  simp [ofNat, toNumber, hnearest]

def IsAscii (text : Text) : Prop := ∀ u ∈ text, u.toNat < 128

theorem IsAscii.append (ha : IsAscii a) (hb : IsAscii b) : IsAscii (a ++ b) := by
  intro u hu
  obtain hu | hu := mem_append.mp hu
  · exact ha u hu
  · exact hb u hu

theorem IsAscii.cons {u : CodeUnit} {rest : Text} (hu : u.toNat < 128) (h : IsAscii rest) :
    IsAscii (u :: rest) := by
  intro v hv
  obtain rfl | hv := mem_cons.mp hv
  · exact hu
  · exact h v hv

/-- Units from the plus sign to the letter of an exponent. -/
def IsNumeric (text : Text) : Prop := ∀ u ∈ text, 43 ≤ u.toNat ∧ u.toNat ≤ 101

theorem IsNumeric.append (ha : IsNumeric a) (hb : IsNumeric b) : IsNumeric (a ++ b) := by
  intro u hu
  obtain hu | hu := mem_append.mp hu
  · exact ha u hu
  · exact hb u hu

theorem IsNumeric.cons {u : CodeUnit} {rest : Text} (hu : 43 ≤ u.toNat ∧ u.toNat ≤ 101) (h : IsNumeric rest) :
    IsNumeric (u :: rest) := by
  intro v hv
  obtain rfl | hv := mem_cons.mp hv
  · exact hu
  · exact h v hv

theorem isNumeric_of_digits (h : ∀ u ∈ text, isDigit u) : IsNumeric text := by
  intro u hu
  have := isDigit_iff.mp (h u hu)
  omega

theorem isNumeric_digitsOf (n : ℕ) : IsNumeric (digitsOf n) :=
  isNumeric_of_digits fun _ hu => isDigit_of_mem_digitsOf hu

theorem isNumeric_exponentPart (e : ℤ) : IsNumeric (exponentPart e) := by
  rw [exponentPart]
  split_ifs
  · exact .cons (by decide) (.cons (by decide) (isNumeric_digitsOf _))
  · exact .cons (by decide) (.cons (by decide) (isNumeric_digitsOf _))

theorem isNumeric_formatDecimal (d : Decimal) : IsNumeric (formatDecimal d) := by
  have hdigits := isNumeric_digitsOf d.digits
  have htake : ∀ n, IsNumeric ((digitsOf d.digits).take n) := fun n u hu => hdigits u (mem_of_mem_take hu)
  have hdrop : ∀ n, IsNumeric ((digitsOf d.digits).drop n) := fun n u hu => hdigits u (mem_of_mem_drop hu)
  have hzeros : ∀ n, IsNumeric (zeros n) := fun n => isNumeric_of_digits fun _ hu => isDigit_of_mem_zeros hu
  simp only [formatDecimal]
  split_ifs
  · exact hdigits.append (hzeros _)
  · exact (htake _).append (.cons (by decide) (hdrop _))
  · exact .cons (by decide) (.cons (by decide) ((hzeros _).append hdigits))
  · exact hdigits.append (isNumeric_exponentPart _)
  · exact (htake _).append (.cons (by decide) ((hdrop _).append (isNumeric_exponentPart _)))

theorem isNumeric_doubleToString (x : Double) : IsNumeric (doubleToString x) := by
  rw [doubleToString]
  split_ifs
  · exact .cons (by decide) (fun u hu => absurd hu not_mem_nil)
  · exact .cons (by decide) (isNumeric_formatDecimal _)
  · exact isNumeric_formatDecimal _

theorem isAscii_doubleToString (x : Double) : IsAscii (doubleToString x) := by
  intro u hu
  have hnumeric := isNumeric_doubleToString x u hu
  omega

end ArdurBot.Json
