import Mathlib.Data.Int.Log
import Mathlib.Data.Rat.Floor

/-!
# Finite doubles as rationals, and their shortest decimal

A finite binary64 number is a rational that rounding to binary64 leaves alone, so a `Double` is a
rational together with that fact. Rounding is to nearest, ties to even, with the subnormal range
below `2 ^ -1022` and overflow from `2 ^ 1024` on.

`shortest x` is the decimal a JavaScript engine prints for a positive double: the fewest digits that
still round to `x`, and among those the closest. That it rounds to `x` is the whole of what the
round trip needs, and it holds because the search only ever answers with such a decimal.
-/

namespace ArdurBot.Binary64

open Option

def roundEven (q : ℚ) : ℤ :=
  let f := ⌊q⌋
  if q - f < 1 / 2 then f else if 1 / 2 < q - f then f + 1 else if f % 2 = 0 then f else f + 1

/-- The distance between neighbouring doubles around a positive `q`. -/
def ulpExponent (q : ℚ) : ℤ := max (-1074) (Int.log 2 q - 52)

def roundPos (q : ℚ) : Option ℚ :=
  let r := (roundEven (q / 2 ^ ulpExponent q) : ℚ) * 2 ^ ulpExponent q
  if r < 2 ^ 1024 then some r else none

/-- The nearest double; `none` when it is an infinity. -/
def roundNearest (q : ℚ) : Option ℚ :=
  if q < 0 then (roundPos (-q)).map (- ·) else roundPos q

/-- A finite double, either zero being the rational 0. -/
abbrev Double := {q : ℚ // roundNearest q = some q}

variable {q r : ℚ} {z : ℤ} {x : Double} {count fuel : ℕ} {d : Decimal}

theorem roundPos_eq (h : roundPos q = some r) :
    r = roundEven (q / 2 ^ ulpExponent q) * 2 ^ ulpExponent q ∧ r < 2 ^ 1024 := by
  simp only [roundPos] at h
  split at h
  · next hlt =>
    have hr := some.inj h
    exact ⟨hr.symm, hr ▸ hlt⟩
  · simp at h

theorem round_of_nonneg (hq : 0 ≤ q) : roundNearest q = roundPos q := by
  rw [roundNearest, if_neg (not_lt.mpr hq)]

theorem roundEven_intCast (z : ℤ) : roundEven (z : ℚ) = z := by
  simp [roundEven]

theorem floor_le_roundEven (q : ℚ) : ⌊q⌋ ≤ roundEven q := by
  simp only [roundEven]
  split_ifs <;> omega

theorem roundEven_le (h : q ≤ z) : roundEven q ≤ z := by
  by_cases heq : q = z
  · rw [heq, roundEven_intCast]
  · have hfloor : ⌊q⌋ + 1 ≤ z := Int.floor_lt.mpr (lt_of_le_of_ne h heq)
    simp only [roundEven]
    split_ifs <;> omega

theorem roundEven_nonneg (hq : 0 ≤ q) : 0 ≤ roundEven q :=
  (Int.floor_nonneg.mpr hq).trans (floor_le_roundEven q)

private theorem two_zpow_pos (n : ℤ) : (0 : ℚ) < 2 ^ n := zpow_pos (by norm_num) n

section

variable (hq : 0 ≤ q) (h : roundPos q = some r)
include hq h

theorem roundPos_nonneg : 0 ≤ r := by
  rw [(roundPos_eq h).1]
  have hz := roundEven_nonneg (div_nonneg hq (two_zpow_pos (ulpExponent q)).le)
  have hz' : (0 : ℚ) ≤ roundEven (q / 2 ^ ulpExponent q) := by exact_mod_cast hz
  exact mul_nonneg hz' (two_zpow_pos _).le

/-- A rounded number is a multiple of its own ulp. It may have moved up into the next binade, where
the ulp is twice as large, but then it is a power of two. -/
private theorem exists_multiple : ∃ z : ℤ, r = z * 2 ^ ulpExponent r := by
  obtain ⟨hval, -⟩ := roundPos_eq h
  set e := ulpExponent q with he
  by_cases hr : r = 0
  · exact ⟨0, by simp [hr]⟩
  have hrpos : 0 < r := lt_of_le_of_ne (roundPos_nonneg hq h) (Ne.symm hr)
  have hqpos : 0 < q := by
    apply lt_of_le_of_ne hq
    rintro rfl
    exact hr (by simpa [roundEven] using hval)
  have hmax : ulpExponent r = max (-1074) (Int.log 2 r - 52) := rfl
  have hmaxq : e = max (-1074) (Int.log 2 q - 52) := rfl
  by_cases hle : ulpExponent r ≤ e
  · refine ⟨roundEven (q / 2 ^ e) * 2 ^ (e - ulpExponent r).toNat, ?_⟩
    have hsplit : (2 : ℚ) ^ e = 2 ^ (e - ulpExponent r).toNat * 2 ^ ulpExponent r := by
      rw [← zpow_natCast, ← zpow_add₀ (by norm_num)]
      congr 1
      omega
    push_cast
    rw [mul_assoc, ← hsplit]
    exact hval
  · have hlog : Int.log 2 q + 1 ≤ Int.log 2 r := by omega
    have hbelow : q < 2 ^ (Int.log 2 q + 1) := by
      exact_mod_cast Int.lt_zpow_succ_log_self (b := 2) (by norm_num) q
    have hlow : (2 : ℚ) ^ (Int.log 2 q + 1) ≤ r := by
      refine le_trans (zpow_le_zpow_right₀ (by norm_num) hlog) ?_
      exact_mod_cast Int.zpow_log_le_self (b := 2) (by norm_num) hrpos
    by_cases hexp : e ≤ Int.log 2 q + 1
    · -- `q` is below the power of two `2 ^ (log q + 1)`, so `r` is at most that, and at least that
      have hpow : q / 2 ^ e ≤ ((2 ^ (Int.log 2 q + 1 - e).toNat : ℤ) : ℚ) := by
        push_cast
        rw [← zpow_natCast, Int.toNat_of_nonneg (by omega), zpow_sub₀ (by norm_num)]
        have := two_zpow_pos e
        gcongr
      have hupper : r ≤ 2 ^ (Int.log 2 q + 1) := by
        have hround : (roundEven (q / 2 ^ e) : ℚ) ≤ ((2 ^ (Int.log 2 q + 1 - e).toNat : ℤ) : ℚ) := by
          exact_mod_cast roundEven_le hpow
        calc r = roundEven (q / 2 ^ e) * 2 ^ e := hval
          _ ≤ ((2 ^ (Int.log 2 q + 1 - e).toNat : ℤ) : ℚ) * 2 ^ e := by
            have := two_zpow_pos e
            gcongr
          _ = 2 ^ (Int.log 2 q + 1) := by
            push_cast
            rw [← zpow_natCast, ← zpow_add₀ (by norm_num)]
            congr 1
            omega
      have hrval : r = 2 ^ (Int.log 2 q + 1) := le_antisymm hupper hlow
      have hrlog : Int.log 2 r = Int.log 2 q + 1 := by
        rw [hrval]
        exact_mod_cast Int.log_zpow (R := ℚ) (b := 2) (by norm_num) (Int.log 2 q + 1)
      have hsplit : (2 : ℚ) ^ (Int.log 2 q + 1) = 2 ^ (Int.log 2 q + 1 - ulpExponent r).toNat *
          2 ^ ulpExponent r := by
        rw [← zpow_natCast, ← zpow_add₀ (by norm_num)]
        congr 1
        omega
      refine ⟨2 ^ (Int.log 2 q + 1 - ulpExponent r).toNat, ?_⟩
      push_cast
      rw [← hsplit]
      exact hrval
    · -- less than half the smallest double rounds to 0
      have hhalf : q / 2 ^ e < 1 / 2 := by
        have hstep : (2 : ℚ) ^ (Int.log 2 q + 1) ≤ 2 ^ (e - 1) :=
          zpow_le_zpow_right₀ (by norm_num) (by omega)
        rw [div_lt_iff₀ (two_zpow_pos e)]
        calc q < 2 ^ (Int.log 2 q + 1) := hbelow
          _ ≤ 2 ^ (e - 1) := hstep
          _ = 1 / 2 * 2 ^ e := by
            rw [zpow_sub_one₀ (by norm_num)]
            ring
      have hnonneg : 0 ≤ q / 2 ^ e := div_nonneg hq (two_zpow_pos e).le
      have hfloor : ⌊q / 2 ^ e⌋ = 0 := Int.floor_eq_zero_iff.mpr ⟨hnonneg, by linarith⟩
      have hzero : roundEven (q / 2 ^ e) = 0 := by
        simp only [roundEven, hfloor, Int.cast_zero, sub_zero, if_pos hhalf]
      exact absurd (by simpa [hzero] using hval) hr

theorem roundPos_idem : roundPos r = some r := by
  obtain ⟨z, hz⟩ := exists_multiple hq h
  have hscaled : r / 2 ^ ulpExponent r = z := by
    rw [div_eq_iff (two_zpow_pos _).ne']
    exact hz
  simp only [roundPos, hscaled, roundEven_intCast, ← hz, if_pos (roundPos_eq h).2]

end

theorem round_idem (h : roundNearest q = some r) : roundNearest r = some r := by
  by_cases hq : q < 0
  · rw [roundNearest, if_pos hq] at h
    obtain ⟨s, hs, rfl⟩ := map_eq_some_iff.mp h
    have hidem := roundPos_idem (by linarith) hs
    have hnonneg := roundPos_nonneg (by linarith) hs
    by_cases hzero : s = 0
    · rw [round_of_nonneg (by simp [hzero])]
      simpa [hzero] using hidem
    · have hneg : -s < 0 := by
        have := lt_of_le_of_ne hnonneg (Ne.symm hzero)
        linarith
      rw [roundNearest, if_pos hneg, neg_neg, hidem, map_some]
  · rw [roundNearest, if_neg hq] at h
    have hnonneg := not_lt.mp hq
    rw [round_of_nonneg (roundPos_nonneg hnonneg h)]
    exact roundPos_idem hnonneg h

/-- The double nearest to `q`, unless that is an infinity. -/
def nearest (q : ℚ) : Option Double :=
  match h : roundNearest q with
  | some r => some ⟨r, round_idem h⟩
  | none => none

theorem nearest_eq_some (h : roundNearest q = some x.val) : nearest q = some x := by
  unfold nearest
  split
  · next r hr =>
    congr 1
    exact Subtype.ext (some.inj (hr.symm.trans h))
  · next hr => simp [hr] at h

def Double.abs (x : Double) : Double :=
  if h : x.val < 0 then
    ⟨-x.val, by
      have hx := x.property
      rw [roundNearest, if_pos h] at hx
      obtain ⟨s, hs, heq⟩ := map_eq_some_iff.mp hx
      have hval : s = -x.val := by rw [← heq, neg_neg]
      rw [round_of_nonneg (by linarith)]
      exact hval ▸ hs⟩
  else x

theorem Double.abs_of_neg (h : x.val < 0) : x.abs.val = -x.val := by
  rw [Double.abs, dif_pos h]

/-- `digits` has `count` digits, and the number is `digits * 10 ^ (point - count)`: the decimal
point stands after the first `point` digits. -/
structure Decimal where
  digits : ℕ
  count : ℕ
  point : ℤ
deriving Repr, DecidableEq

def Decimal.value (d : Decimal) : ℚ := d.digits * 10 ^ (d.point - d.count)

/-- `count` really is how many digits there are, and the first is not 0. -/
def Decimal.Exact (d : Decimal) : Prop :=
  0 < d.count ∧ 10 ^ (d.count - 1) ≤ d.digits ∧ d.digits < 10 ^ d.count

instance (d : Decimal) : Decidable d.Exact := inferInstanceAs (Decidable (_ ∧ _ ∧ _))

/-- The position of the decimal point of a positive `q`. -/
def pointOf (q : ℚ) : ℤ := Int.log 10 q + 1

/-- The decimal just above `lo`; one more than `99…9` is a 1 with the point one place further. -/
def above (lo count : ℕ) (point : ℤ) : Decimal :=
  if lo + 1 = 10 ^ count then { digits := 10 ^ (count - 1), count, point := point + 1 }
  else { digits := lo + 1, count, point }

/-- The two decimals of `count` digits around `q`, the closer one first. -/
def around (q : ℚ) (count : ℕ) : List Decimal :=
  let point := pointOf q
  let scaled := q / 10 ^ (point - count)
  let lo := ⌊scaled⌋₊
  let below : Decimal := { digits := lo, count, point }
  if scaled - lo < 1 / 2 ∨ scaled - lo = 1 / 2 ∧ lo % 2 = 0 then [below, above lo count point]
  else [above lo count point, below]

def roundsTo (q : ℚ) (d : Decimal) : Bool := d.Exact ∧ roundNearest d.value = some q

/-- The first digit count from `count` on for which a decimal rounds to `q`. -/
def search (q : ℚ) : ℕ → ℕ → Option Decimal
  | 0, _ => none
  | fuel + 1, count =>
    match (around q count).find? (roundsTo q) with
    | some d => some d
    | none => search q fuel (count + 1)

/-- The exact decimal of a double has no more digits than this. In fact 17 always suffice. -/
def digitLimit (q : ℚ) : ℕ := (pointOf q + 1075).toNat

/-- The shortest decimal of a positive double. -/
def shortest (x : Double) : Decimal :=
  (search x.val (digitLimit x.val) 1).getD { digits := 0, count := 1, point := 1 }

theorem search_roundsTo (h : search q fuel count = some d) : roundsTo q d := by
  induction fuel generalizing count with
  | zero => simp [search] at h
  | succ fuel ih =>
    rw [search] at h
    split at h
    · next d' hfound =>
      have hsome := List.find?_some hfound
      exact (some.inj h) ▸ hsome
    · exact ih h

theorem isSome_search {first : ℕ} (hfirst : first ≤ count) (hcount : count < first + fuel)
    (h : ∃ d ∈ around q count, roundsTo q d) :
    (search q fuel first).isSome := by
  induction fuel generalizing first with
  | zero => omega
  | succ fuel ih =>
    rw [search]
    split
    · rfl
    · next hnone =>
      by_cases heq : first = count
      · obtain ⟨d, hmem, hd⟩ := h
        rw [heq] at hnone
        exact absurd hd (by simpa using List.find?_eq_none.mp hnone d hmem)
      · exact ih (by omega) (by omega)

/-! ### Every double has a shortest decimal

The search ends at the latest where the candidate is `q` itself: a double is a multiple of
`2 ^ -1074`, so `1074` decimal places hold it exactly. -/

private theorem ten_zpow_pos (n : ℤ) : (0 : ℚ) < 10 ^ n := zpow_pos (by norm_num) n

private theorem mul_ten_pow_eq {e : ℤ} {m k : ℕ} (hz : 0 < z) (he : e = m - k) (hq : q = z * 2 ^ e) :
    q * 10 ^ k = (z.toNat * 2 ^ m * 5 ^ k : ℕ) := by
  have hcast : ((z.toNat : ℕ) : ℚ) = z := by exact_mod_cast Int.toNat_of_nonneg hz.le
  have hten : (10 : ℚ) ^ k = 2 ^ k * 5 ^ k := by
    rw [← mul_pow]
    norm_num
  have htwo : (2 : ℚ) ^ e * 2 ^ k = 2 ^ m := by
    rw [he, zpow_sub₀ (by norm_num), zpow_natCast, zpow_natCast]
    apply div_mul_cancel₀
    positivity
  push_cast
  rw [hq, hten, hcast, ← mul_assoc, mul_assoc (z : ℚ), htwo]

theorem exists_mul_ten_pow_eq (hq : 0 < q) (h : roundNearest q = some q) : ∃ n :
    ℕ, 0 < n ∧ q * 10 ^ 1074 = n := by
  rw [round_of_nonneg hq.le] at h
  have hval := (roundPos_eq h).1
  have hz : 0 < roundEven (q / 2 ^ ulpExponent q) := by
    by_contra hle
    have hle' : (roundEven (q / 2 ^ ulpExponent q) : ℚ) ≤ 0 := by exact_mod_cast not_lt.mp hle
    have hpos : (0 : ℚ) < 2 ^ ulpExponent q := zpow_pos (by norm_num) _
    have hneg : q ≤ 0 := hval ▸ mul_nonpos_of_nonpos_of_nonneg hle' hpos.le
    exact absurd hq (not_lt.mpr hneg)
  have hulp : -1074 ≤ ulpExponent q := le_max_left _ _
  have heq := mul_ten_pow_eq (m := (ulpExponent q + 1074).toNat) (k := 1074) hz (by omega) hval
  refine ⟨_, ?_, heq⟩
  have : 0 < (roundEven (q / 2 ^ ulpExponent q)).toNat := by omega
  positivity

theorem mem_around_exact (hq : 0 < q) (h : roundNearest q = some q) :
    ∃ count : ℕ, (count : ℤ) = pointOf q + 1074 ∧ 0 < count ∧ ∃ d ∈ around q count, roundsTo q d := by
  obtain ⟨n, hn, hqn⟩ := exists_mul_ten_pow_eq hq h
  have hlow : (10 : ℚ) ^ Int.log 10 q ≤ q := by
    exact_mod_cast Int.zpow_log_le_self (b := 10) (by norm_num) hq
  have hhigh : q < (10 : ℚ) ^ (Int.log 10 q + 1) := by
    exact_mod_cast Int.lt_zpow_succ_log_self (b := 10) (by norm_num) q
  -- `n` is `q` scaled, so it has `log q + 1 + 1074` digits
  have hscale : ∀ e : ℤ, (10 : ℚ) ^ (e + 1074) = 10 ^ e * 10 ^ 1074 := by
    intro e
    rw [zpow_add₀ (by norm_num)]
    norm_cast
  have hbelow : (10 : ℚ) ^ (Int.log 10 q + 1074) ≤ n := by
    rw [hscale, ← hqn]
    gcongr
  have habove : (n : ℚ) < 10 ^ (Int.log 10 q + 1 + 1074) := by
    rw [hscale, ← hqn]
    gcongr
  have hpoint : 0 < pointOf q + 1074 := by
    by_contra hle
    have hexp : Int.log 10 q + 1 + 1074 ≤ 0 := not_lt.mp hle
    have hone : (10 : ℚ) ^ (Int.log 10 q + 1 + 1074) ≤ 1 :=
      zpow_le_one_of_nonpos₀ (by norm_num) hexp
    have hn' : (1 : ℚ) ≤ n := by exact_mod_cast hn
    linarith
  obtain ⟨count, hcount⟩ : ∃ count : ℕ, (count : ℤ) = pointOf q + 1074 :=
    ⟨(pointOf q + 1074).toNat, by omega⟩
  have hpos : 0 < count := by omega
  have hshift : pointOf q - count = -1074 := by omega
  have hscaled : q / 10 ^ (pointOf q - count) = n := by
    rw [hshift, zpow_neg, div_inv_eq_mul, ← hqn]
    norm_cast
  refine ⟨count, hcount, hpos, { digits := n, count, point := pointOf q }, ?_, ?_⟩
  · simp [around, hscaled]
  · have hvalue : Decimal.value { digits := n, count, point := pointOf q } = q := by
      rw [Decimal.value, ← hscaled, div_mul_cancel₀]
      exact (ten_zpow_pos _).ne'
    have hexact : Decimal.Exact { digits := n, count, point := pointOf q } := by
      refine ⟨hpos, ?_, ?_⟩
      · have hexp : Int.log 10 q + 1074 = (count - 1 : ℕ) := by
          have : pointOf q = Int.log 10 q + 1 := rfl
          omega
        rw [hexp, zpow_natCast] at hbelow
        exact_mod_cast hbelow
      · have hexp : Int.log 10 q + 1 + 1074 = (count : ℕ) := hcount.symm
        rw [hexp, zpow_natCast] at habove
        exact_mod_cast habove
    simp [roundsTo, hexact, hvalue, h]

theorem Decimal.Exact.value_pos (h : d.Exact) : 0 < d.value := by
  have hdigits : 0 < d.digits := lt_of_lt_of_le (by positivity) h.2.1
  have hcast : (0 : ℚ) < d.digits := by exact_mod_cast hdigits
  exact mul_pos hcast (ten_zpow_pos _)

/-- **The shortest decimal of a double rounds to it.** -/
theorem shortest_spec (hx : 0 < x.val) :
    (shortest x).Exact ∧ roundNearest (shortest x).value = some x.val := by
  obtain ⟨count, hcount, hpos, hfound⟩ := mem_around_exact hx x.property
  have hin : count < 1 + digitLimit x.val := by
    rw [digitLimit]
    omega
  obtain ⟨d, hd⟩ := isSome_iff_exists.mp (isSome_search hpos hin hfound)
  have hrounds := search_roundsTo hd
  rw [shortest, hd, getD_some]
  simpa [roundsTo] using hrounds

end ArdurBot.Binary64
