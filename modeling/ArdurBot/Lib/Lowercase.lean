import ArdurBot.Lib.Utf8

/-!
# Lower case

`toLowerCase` maps each character by the tables of a version of Unicode, but for a capital sigma at
the end of a word, which becomes a final one. What is around the sigma is looked at over characters
that the tables let pass. A solidus is mapped to itself and ends a word, so a path is mapped part by
part.
-/

namespace ArdurBot.Utf16

open List

/-- The tables of a version of Unicode, as far as lower case goes. -/
structure CaseTables where
  lower : Char → List Char
  isCased : Char → Bool
  isIgnorable : Char → Bool
  lower_slash : lower '/' = ['/']
  slash_not_cased : isCased '/' = false
  slash_not_ignorable : isIgnorable '/' = false

variable (tables : CaseTables)

/-- There is a cased character, with none before it but those that may be ignored. -/
def CaseTables.meetsCased : List Char → Bool
  | [] => false
  | c :: rest => tables.isCased c || (tables.isIgnorable c && meetsCased rest)

/-- The text before the sigma is given backwards. -/
def CaseTables.isFinalSigma (before after : List Char) : Bool :=
  tables.meetsCased before && !tables.meetsCased after

def CaseTables.lowerChars (before : List Char) : List Char → List Char
  | [] => []
  | c :: rest =>
    (if c = 'Σ' && tables.isFinalSigma before rest then ['ς'] else tables.lower c) ++ lowerChars (c :: before) rest

def CaseTables.toLowerCase (text : Text) : Text := ofChars (tables.lowerChars [] (toChars text))

def solidus : CodeUnit := 0x2f

theorem toChars_append_solidus (p q : Text) :
    toChars (p ++ solidus :: q) = toChars p ++ '/' :: toChars q := by
  have hslash : loneChar solidus = '/' := by decide
  have hcons : toChars (solidus :: q) = '/' :: toChars q := by
    cases q with
    | nil =>
      change [loneChar solidus] = ['/']
      rw [hslash]
    | cons v q => rw [toChars, if_neg (by simp [isHigh, solidus]), hslash]
  induction p using toChars.induct with
  | case1 => exact hcons
  | case2 u =>
    have hlow : isLow solidus = false := by decide
    change (if isHigh u && isLow solidus then pairChar u solidus :: toChars q
      else loneChar u :: toChars (solidus :: q)) =
      [loneChar u] ++ '/' :: toChars q
    rw [hlow, Bool.and_false, if_neg Bool.false_ne_true, hcons, singleton_append]
  | case3 u v rest hpair ih =>
    rw [cons_append, cons_append, toChars, if_pos hpair, ih, toChars, if_pos hpair, cons_append]
  | case4 u v rest hpair ih =>
    rw [cons_append, cons_append, toChars, if_neg hpair, toChars, if_neg hpair, cons_append]
    exact congrArg (loneChar u :: ·) ih

variable {tables}

theorem CaseTables.meetsCased_append (chars more : List Char) :
    tables.meetsCased (chars ++ '/' :: more) = tables.meetsCased chars := by
  induction chars with
  | nil => simp [meetsCased, tables.slash_not_ignorable, tables.slash_not_cased]
  | cons c chars ih => rw [cons_append, meetsCased, meetsCased, ih]

theorem CaseTables.lowerChars_before (before more chars : List Char) :
    tables.lowerChars (before ++ '/' :: more) chars = tables.lowerChars before chars := by
  induction chars generalizing before with
  | nil => rfl
  | cons c chars ih =>
    rw [lowerChars, lowerChars, isFinalSigma, isFinalSigma, meetsCased_append, ← cons_append, ih]

theorem CaseTables.lowerChars_append (before p q : List Char) :
    tables.lowerChars before (p ++ '/' :: q) = tables.lowerChars before p ++ '/' :: tables.lowerChars [] q := by
  induction p generalizing before with
  | nil =>
    have hnot : ('/' = 'Σ' && tables.isFinalSigma before q) = false := by simp
    have hrest : tables.lowerChars ('/' :: before) q = tables.lowerChars [] q := lowerChars_before [] before q
    change (if '/' = 'Σ' && tables.isFinalSigma before q then ['ς'] else tables.lower '/') ++
      tables.lowerChars ('/' :: before) q = '/' :: tables.lowerChars [] q
    rw [hnot, hrest, if_neg Bool.false_ne_true, tables.lower_slash, singleton_append]
  | cons c p ih =>
    rw [cons_append, lowerChars, lowerChars, isFinalSigma, isFinalSigma, meetsCased_append, ih, append_assoc]

theorem CaseTables.toLowerCase_append (p q : Text) :
    tables.toLowerCase (p ++ solidus :: q) = tables.toLowerCase p ++ solidus :: tables.toLowerCase q := by
  have hslash : charUnits '/' = [solidus] := by decide
  unfold toLowerCase ofChars
  rw [toChars_append_solidus, lowerChars_append, flatMap_append, flatMap_cons, hslash, singleton_append]

end ArdurBot.Utf16
