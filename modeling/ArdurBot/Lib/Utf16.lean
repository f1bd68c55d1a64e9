import Mathlib.Algebra.GroupWithZero.Nat
import Mathlib.Data.List.Infix
import Mathlib.Data.List.Forall2
import Mathlib.Data.List.TakeWhile
import Mathlib.Data.List.Lex

/-!
# UTF-16 text

A string of a JavaScript program is a sequence of 16-bit code units, not of characters: a character
outside the first plane is a high surrogate followed by a low one, and nothing stops a program from
cutting between them. `WellFormed` is a text with no unpaired surrogate, and `replaceLone` is what
is left of a text when each unpaired surrogate becomes U+FFFD.
-/

namespace ArdurBot.Utf16

open List Bool

abbrev CodeUnit := UInt16

abbrev Text := List CodeUnit

-- Named, so that no definition carries a proof of its own that texts have a lawful equality.
instance : LawfulBEq Text := inferInstance

instance : LawfulBEq (ℕ × Text) := inferInstance

instance : LinearOrder CodeUnit where
  le_refl _ := Std.le_refl _
  le_trans _ _ _ := Std.le_trans
  lt_iff_le_not_ge _ _ := Std.lt_iff_le_and_not_ge
  le_antisymm _ _ := Std.le_antisymm
  le_total _ _ := Std.le_total
  toDecidableLE := inferInstance

def unit (c : Char) : CodeUnit := c.toNat.toUInt16

def lit (s : String) : Text := s.toList.map unit

/-- The kernel decodes a literal in quadratic time, so a long one is rewritten to its characters
first. -/
theorem lit_ofList (cs : List Char) : lit (String.ofList cs) = cs.map unit := by
  rw [lit, String.toList_ofList]

def isHigh (u : CodeUnit) : Bool := 0xd800 ≤ u && u ≤ 0xdbff

def isLow (u : CodeUnit) : Bool := 0xdc00 ≤ u && u ≤ 0xdfff

def replacement : CodeUnit := 0xfffd

/-- The units `trim` removes. -/
def isWhite (u : CodeUnit) : Bool :=
  9 ≤ u && u ≤ 13 || u = 32 || u = 0xa0 || u = 0x1680 || 0x2000 ≤ u && u ≤ 0x200a || u = 0x2028 ||
    u = 0x2029 || u = 0x202f || u = 0x205f || u = 0x3000 || u = 0xfeff

def newline : CodeUnit := 10

def carriageReturn : CodeUnit := 13

def isDigit (u : CodeUnit) : Bool := unit '0' ≤ u && u ≤ unit '9'

def isLower (u : CodeUnit) : Bool := unit 'a' ≤ u && u ≤ unit 'z'

def isUpper (u : CodeUnit) : Bool := unit 'A' ≤ u && u ≤ unit 'Z'

def isLowerHex (u : CodeUnit) : Bool := isDigit u || unit 'a' ≤ u && u ≤ unit 'f'

/-- The units that `\w` matches. -/
def isWordUnit (u : CodeUnit) : Bool := isDigit u || isLower u || isUpper u || u = unit '_'

def trim (text : Text) : Text := ((text.dropWhile isWhite).reverse.dropWhile isWhite).reverse

variable {u : CodeUnit} {rest text : Text}

theorem isDigit_iff : isDigit u ↔ 48 ≤ u.toNat ∧ u.toNat ≤ 57 := by
  simp only [isDigit, and_eq_true, decide_eq_true_eq, UInt16.le_iff_toNat_le]
  rfl

theorem isHigh_iff : isHigh u ↔ 0xd800 ≤ u.toNat ∧ u.toNat ≤ 0xdbff := by
  simp only [isHigh, and_eq_true, decide_eq_true_eq, UInt16.le_iff_toNat_le]
  rfl

theorem isLow_iff : isLow u ↔ 0xdc00 ≤ u.toNat ∧ u.toNat ≤ 0xdfff := by
  simp only [isLow, and_eq_true, decide_eq_true_eq, UInt16.le_iff_toNat_le]
  rfl

theorem not_isLow_of_isHigh (h : isHigh u) : isLow u = false := by
  have hhigh := isHigh_iff.mp h
  by_contra hlow
  have := isLow_iff.mp (by simpa using hlow)
  omega

theorem not_surrogate_of_lt (h : u.toNat < 0xd800) : isHigh u = false ∧ isLow u = false := by
  constructor
  · by_contra hhigh
    have := isHigh_iff.mp (by simpa using hhigh)
    omega
  · by_contra hlow
    have := isLow_iff.mp (by simpa using hlow)
    omega

@[grind =] def wellFormed : Text → Bool
  | [] => true
  | [u] => !isHigh u && !isLow u
  | u :: v :: rest =>
    if isHigh u then isLow v && wellFormed rest else !isLow u && wellFormed (v :: rest)

abbrev WellFormed (text : Text) : Prop := wellFormed text = true

theorem WellFormed.not_isLow_head (h : WellFormed (u :: rest)) : isLow u = false := by
  cases rest with
  | nil =>
    simp only [WellFormed, wellFormed, and_eq_true, not_eq_true'] at h
    exact h.2
  | cons v rest =>
    rw [WellFormed, wellFormed] at h
    split at h
    · next hu => exact not_isLow_of_isHigh hu
    · simp only [and_eq_true, not_eq_true'] at h
      exact h.1

theorem WellFormed.append {a b : Text} (ha : WellFormed a) (hb : WellFormed b) : WellFormed (a ++ b) := by
  induction a using wellFormed.induct with
  | case1 => exact hb
  | case2 u =>
    simp only [WellFormed, wellFormed, and_eq_true, not_eq_true'] at ha
    cases b with
    | nil => simp [WellFormed, wellFormed, ha]
    | cons v b =>
      rw [singleton_append, WellFormed, wellFormed, if_neg (by simp [ha.1]), ha.2]
      exact hb
  | case3 u v rest hu ih =>
    rw [WellFormed, wellFormed, if_pos hu, and_eq_true] at ha
    rw [cons_append, cons_append, WellFormed, wellFormed, if_pos hu, ha.1, Bool.true_and]
    exact ih ha.2
  | case4 u v rest hu ih =>
    rw [WellFormed, wellFormed, if_neg hu, and_eq_true] at ha
    rw [cons_append, cons_append, WellFormed, wellFormed, if_neg hu, ha.1, Bool.true_and]
    exact ih ha.2

theorem wellFormed_of_not_surrogate (h : ∀ u ∈ text, isHigh u = false ∧ isLow u = false) :
    WellFormed text := by
  induction text with
  | nil => rfl
  | cons u text ih =>
    have hu := h u mem_cons_self
    have hone : WellFormed [u] := by simp [WellFormed, wellFormed, hu]
    exact hone.append (ih fun v hv => h v (mem_cons_of_mem u hv))

/-- Does the text stop after a high surrogate? -/
def endsHigh (text : Text) : Bool := text.getLast?.any isHigh

@[simp] theorem endsHigh_nil : endsHigh [] = false := rfl

theorem endsHigh_concat (text : Text) (u : CodeUnit) : endsHigh (text ++ [u]) = isHigh u := by
  simp [endsHigh]

theorem endsHigh_cons_cons (u v : CodeUnit) (rest : Text) :
    endsHigh (u :: v :: rest) = endsHigh (v :: rest) := by
  simp only [endsHigh, getLast?_cons_cons]

@[grind =] def replaceLone : Text → Text
  | [] => []
  | [u] => [if isHigh u || isLow u then replacement else u]
  | u :: v :: rest =>
    if isHigh u then
      if isLow v then u :: v :: replaceLone rest else replacement :: replaceLone (v :: rest)
    else (if isLow u then replacement else u) :: replaceLone (v :: rest)

attribute [elab_as_elim] replaceLone.induct

theorem replaceLone_pair {v : CodeUnit} (hu : isHigh u) (hv : isLow v) (rest : Text) :
    replaceLone (u :: v :: rest) = u :: v :: replaceLone rest := by
  rw [replaceLone, if_pos hu, if_pos hv]

theorem replaceLone_of_not_isHigh (hu : isHigh u = false) (rest : Text) :
    replaceLone (u :: rest) = (if isLow u then replacement else u) :: replaceLone rest := by
  cases rest with
  | nil => simp only [replaceLone, hu, Bool.false_or]
  | cons v rest => rw [replaceLone, if_neg (by simp [hu])]

theorem replaceLone_lone_high (hu : isHigh u) (hrest : rest.head?.any isLow = false) :
    replaceLone (u :: rest) = replacement :: replaceLone rest := by
  cases rest with
  | nil => simp [replaceLone, hu]
  | cons v rest =>
    simp only [head?_cons, Option.any_some] at hrest
    rw [replaceLone, if_pos hu, if_neg (by simp [hrest])]

theorem replaceLone_append (a b : Text) (h : endsHigh a → b.head?.any isLow = false) :
    replaceLone (a ++ b) = replaceLone a ++ replaceLone b := by
  induction a using replaceLone.induct with
  | case1 => simp [replaceLone]
  | case2 u =>
    by_cases hu : isHigh u
    · have hb := h (by simpa [endsHigh] using hu)
      rw [singleton_append, replaceLone_lone_high hu hb, replaceLone_lone_high hu rfl]
      simp [replaceLone]
    · have hnot : isHigh u = false := by simpa using hu
      rw [singleton_append, replaceLone_of_not_isHigh hnot, replaceLone_of_not_isHigh hnot]
      simp [replaceLone]
  | case3 u v rest hu hv ih =>
    have hrest : endsHigh rest → b.head?.any isLow = false := by
      intro hends
      cases rest with
      | nil => simp at hends
      | cons w rest => exact h (by rwa [endsHigh_cons_cons, endsHigh_cons_cons])
    rw [cons_append, cons_append, replaceLone_pair hu hv, replaceLone_pair hu hv, ih hrest]
    rfl
  | case4 u v rest hu hv ih =>
    have hlone : isLow v = false := by simpa using hv
    rw [endsHigh_cons_cons] at h
    rw [cons_append, replaceLone_lone_high hu (by simp [hlone]), replaceLone_lone_high hu (by simp [hlone]), ih h]
    rfl
  | case5 u v rest hu ih =>
    have hnot : isHigh u = false := by simpa using hu
    rw [endsHigh_cons_cons] at h
    rw [cons_append, replaceLone_of_not_isHigh hnot, replaceLone_of_not_isHigh hnot, ih h]
    rfl

theorem replaceLone_of_wellFormed (h : WellFormed text) : replaceLone text = text := by
  induction text using replaceLone.induct with
  | case1 => rfl
  | case2 u =>
    simp only [WellFormed, wellFormed, and_eq_true, not_eq_true'] at h
    simp [replaceLone, h]
  | case3 u v rest hu hv ih =>
    rw [WellFormed, wellFormed, if_pos hu, hv, Bool.true_and] at h
    rw [replaceLone_pair hu hv, ih h]
  | case4 u v rest hu hv ih =>
    rw [WellFormed, wellFormed, if_pos hu] at h
    exact absurd (and_eq_true_iff.mp h).1 hv
  | case5 u v rest hu ih =>
    have hnot : isHigh u = false := by simpa using hu
    rw [WellFormed, wellFormed, if_neg hu, and_eq_true, not_eq_true'] at h
    rw [replaceLone_of_not_isHigh hnot, h.1, ih h.2]
    rfl

theorem WellFormed.cons {u : CodeUnit} {text : Text} (hu : isHigh u = false ∧ isLow u = false)
    (h : WellFormed text) :
    WellFormed (u :: text) := by
  have hone : WellFormed [u] := by simp [WellFormed, wellFormed, hu]
  exact hone.append h

theorem wellFormed_replaceLone (text : Text) : WellFormed (replaceLone text) := by
  have hreplacement : isHigh replacement = false ∧ isLow replacement = false := by decide
  induction text using replaceLone.induct with
  | case1 => rfl
  | case2 u =>
    rw [replaceLone]
    split
    · rfl
    · rename_i hnot
      have hu : isHigh u = false ∧ isLow u = false := by simpa using hnot
      exact WellFormed.cons hu rfl
  | case3 u v rest hu hv ih =>
    rw [replaceLone_pair hu hv, WellFormed, wellFormed, if_pos hu, hv, Bool.true_and]
    exact ih
  | case4 u v rest hu hv ih =>
    rw [replaceLone_lone_high hu (by simpa using hv)]
    exact ih.cons hreplacement
  | case5 u v rest hu ih =>
    have hnot : isHigh u = false := by simpa using hu
    rw [replaceLone_of_not_isHigh hnot]
    split
    · exact ih.cons hreplacement
    · rename_i hlow
      exact ih.cons ⟨hnot, by simpa using hlow⟩

theorem replaceLone_forall₂ (text : Text) :
    List.Forall₂ (fun u v => v = u ∨ v = replacement) text (replaceLone text) := by
  induction text using replaceLone.induct with
  | case1 => exact .nil
  | case2 u =>
    refine .cons ?_ .nil
    split
    · exact .inr rfl
    · exact .inl rfl
  | case3 u v rest hu hv ih =>
    rw [replaceLone_pair hu hv]
    exact .cons (.inl rfl) (.cons (.inl rfl) ih)
  | case4 u v rest hu hv ih =>
    rw [replaceLone_lone_high hu (by simpa using hv)]
    exact .cons (.inr rfl) ih
  | case5 u v rest hu ih =>
    rw [replaceLone_of_not_isHigh (by simpa using hu)]
    refine .cons ?_ ih
    split
    · exact .inr rfl
    · exact .inl rfl

theorem infix_of_infix_replaceLone {s : Text} (hs : replacement ∉ s) (h : s <:+: replaceLone text) :
    s <:+: text := by
  obtain ⟨before, after, hparts⟩ := h
  have hunits := replaceLone_forall₂ text
  rw [← hparts, append_assoc] at hunits
  have hrest := forall₂_drop_append _ _ _ hunits
  have hmiddle := forall₂_take_append _ _ _ hrest
  have hsame : (text.drop before.length).take s.length = s := by
    rw [← forall₂_eq_eq_eq]
    refine forall₂_iff_zip.mpr ⟨hmiddle.length_eq, fun {u v} hmem => ?_⟩
    obtain heq | hrep := (forall₂_iff_zip.mp hmiddle).2 hmem
    · exact heq.symm
    · exact absurd (hrep ▸ (of_mem_zip hmem).2) hs
  exact hsame ▸ (List.take_prefix _ _).isInfix.trans (drop_suffix _ _).isInfix

theorem mem_dropWhile {p : CodeUnit → Bool} (hmem : u ∈ text) (hu : p u = false) : u ∈ text.dropWhile p := by
  induction text with
  | nil => cases hmem
  | cons v rest ih =>
    rw [dropWhile_cons]
    split
    · next hv =>
      obtain rfl | hrest := mem_cons.mp hmem
      · rw [hu] at hv
        cases hv
      · exact ih hrest
    · exact hmem

theorem mem_trim (hmem : u ∈ text) (hu : isWhite u = false) : u ∈ trim text := by
  rw [trim, mem_reverse]
  exact mem_dropWhile (mem_reverse.mpr (mem_dropWhile hmem hu)) hu

theorem trim_trim_ne_nil (h : trim text ≠ []) : trim (trim text) ≠ [] := by
  have hseen : ∃ u ∈ text, isWhite u = false := by
    by_contra hwhite
    push Not at hwhite
    have hdrop : text.dropWhile isWhite = [] := by
      rw [dropWhile_eq_nil_iff]
      exact fun u hu => by simpa using hwhite u hu
    rw [trim, hdrop] at h
    exact h rfl
  obtain ⟨u, hmem, hu⟩ := hseen
  exact ne_nil_of_mem (mem_trim (mem_trim hmem hu) hu)

end ArdurBot.Utf16
