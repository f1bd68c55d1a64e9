import Mathlib.Data.List.Sort
import ArdurBot.Lib.Scan
import ArdurBot.Lib.Utf16

/-!
# Redacting known secrets from a text

`redactSecrets` and `sanitizeUtf16ForJson` of `packages/core/src/events.ts`, as the loops over an
index that the source writes, and what each loop computes: the first is a `Scan.replaceAll` with the
secrets tried longest first, the second replaces each unpaired surrogate by U+FFFD.
-/

namespace ArdurBot.Core

open List Utf16 Scan

abbrev JsString := Text

/-- A secret that can be looked for: `filter(Boolean)` has dropped the empty ones. -/
abbrev Secret := Pattern CodeUnit

def redacted : JsString := lit "[redacted]"

def secretAt (value secret : JsString) (index : Nat) : Bool := secret.isPrefixOf (value.drop index)

/-- `[...new Set(secrets.filter(Boolean))].sort((a, b) => b.length - a.length)` -/
def activeSecrets (secrets : List JsString) : List Secret :=
  ((secrets.filterMap fun s => if h : s ≠ [] then some (⟨s, h⟩ : Secret) else none).eraseDups).insertionSort
    fun a b => b.val.length ≤ a.val.length

theorem mem_activeSecrets {secrets : List JsString} {s : Secret} :
    s ∈ activeSecrets secrets ↔ s.val ∈ secrets := by
  simp only [activeSecrets, mem_insertionSort, mem_eraseDups, mem_filterMap]
  constructor
  · rintro ⟨t, ht, heq⟩
    split at heq
    · cases heq
      exact ht
    · simp at heq
  · exact fun hs => ⟨s.val, hs, by simp [s.property]⟩

theorem length_le_of_activeSecrets_eq_cons {secrets : List JsString} {longest : Secret}
    {others : List Secret} (h : activeSecrets secrets = longest :: others) :
    ∀ s ∈ activeSecrets secrets, s.val.length ≤ longest.val.length := by
  have htotal : Std.Total fun a b : Secret => b.val.length ≤ a.val.length :=
    ⟨fun a b => Nat.le_total b.val.length a.val.length⟩
  have htrans : IsTrans Secret fun a b => b.val.length ≤ a.val.length :=
    ⟨fun _ _ _ hab hbc => hbc.trans hab⟩
  have hsorted : (activeSecrets secrets).Pairwise fun a b => b.val.length ≤ a.val.length :=
    pairwise_insertionSort _ _
  rw [h] at hsorted ⊢
  intro s hs
  obtain rfl | hs := mem_cons.mp hs
  · exact Nat.le_refl _
  · exact rel_of_pairwise_cons hsorted hs

/-- The `for` loop of `redactSecrets`. -/
def redactLoop (value : JsString) (active : List Secret) (index : Nat) (output : JsString) : JsString :=
  if h : index < value.length then
    match active.find? fun candidate => secretAt value candidate.val index with
    | some secret => redactLoop value active (index + secret.val.length) (output ++ redacted)
    | none => redactLoop value active (index + 1) (output ++ [value[index]])
  else output
termination_by value.length - index
decreasing_by
  · have := secret.length_pos
    omega
  · omega

def redactSecrets (value : JsString) (secrets : List JsString) : JsString :=
  redactLoop value (activeSecrets secrets) 0 []

theorem redactLoop_eq (value : JsString) (active : List Secret) (index : Nat) (output : JsString) :
    redactLoop value active index output = output ++ replaceAll active redacted (value.drop index) := by
  induction index, output using redactLoop.induct value active with
  | case1 index output h secret hsecret ih =>
    have hmatch : firstMatch active (value.drop index) = some secret := hsecret
    rw [redactLoop, dif_pos h, hsecret, replaceAll_of_some hmatch, drop_drop]
    simpa only [append_assoc] using ih
  | case2 index output h hnone ih =>
    have hdrop : value.drop index = value[index] :: value.drop (index + 1) := drop_eq_getElem_cons h
    have hmatch : firstMatch active (value[index] :: value.drop (index + 1)) = none := hdrop ▸ hnone
    rw [redactLoop, dif_pos h, hnone, hdrop, replaceAll_of_none hmatch]
    simpa only [append_assoc, singleton_append] using ih
  | case3 index output h =>
    rw [redactLoop, dif_neg h, drop_eq_nil_of_le (by omega), replaceAll_nil, append_nil]

theorem redactSecrets_eq (value : JsString) (secrets : List JsString) :
    redactSecrets value secrets = replaceAll (activeSecrets secrets) redacted value := by
  rw [redactSecrets, redactLoop_eq, drop_zero, nil_append]

def highSurrogateStart : CodeUnit := 0xd800
def highSurrogateEnd : CodeUnit := 0xdbff
def lowSurrogateStart : CodeUnit := 0xdc00
def lowSurrogateEnd : CodeUnit := 0xdfff

def isHighSurrogate (code : CodeUnit) : Bool := code ≥ highSurrogateStart && code ≤ highSurrogateEnd

def isLowSurrogate (code : CodeUnit) : Bool := code ≥ lowSurrogateStart && code ≤ lowSurrogateEnd

@[simp] theorem isHighSurrogate_eq : isHighSurrogate = isHigh := rfl

@[simp] theorem isLowSurrogate_eq : isLowSurrogate = isLow := rfl

/-- `charCodeAt(index)`; `none` stands for the -1 the source puts past the end. -/
def nextCode (value : JsString) (index : Nat) : Option CodeUnit := value[index]?

/-- The `for` loop of `sanitizeUtf16ForJson`. -/
def sanitizeLoop (value : JsString) (i : Nat) (result : JsString) : JsString :=
  if h : i < value.length then
    let code := value[i]
    if isHighSurrogate code then
      match nextCode value (i + 1) with
      | some next =>
        if isLowSurrogate next then sanitizeLoop value (i + 2) (result ++ [code, next])
        else sanitizeLoop value (i + 1) (result ++ [replacement])
      | none => sanitizeLoop value (i + 1) (result ++ [replacement])
    else if isLowSurrogate code then sanitizeLoop value (i + 1) (result ++ [replacement])
    else sanitizeLoop value (i + 1) (result ++ [code])
  else result
termination_by value.length - i

def sanitizeUtf16ForJson (value : JsString) : JsString := sanitizeLoop value 0 []

theorem head?_drop_eq_nextCode (value : JsString) (index : Nat) :
    (value.drop index).head? = nextCode value index := by
  rw [nextCode, head?_drop]

theorem sanitizeLoop_eq (value : JsString) (i : Nat) (result : JsString) :
    sanitizeLoop value i result = result ++ replaceLone (value.drop i) := by
  fun_induction sanitizeLoop value i result with
  | case1 i result h code hhigh next hnext hlow ih =>
    obtain ⟨hlt, hget⟩ := List.getElem?_eq_some_iff.mp hnext
    have hdrop : value.drop i = code :: next :: value.drop (i + 2) := by
      rw [drop_eq_getElem_cons h, drop_eq_getElem_cons hlt, hget]
    rw [ih, hdrop, replaceLone_pair hhigh hlow, append_assoc]
    rfl
  | case2 i result h code hhigh next hnext hlow ih =>
    rw [ih, drop_eq_getElem_cons h, replaceLone_lone_high hhigh, append_assoc]
    · rfl
    · rw [head?_drop_eq_nextCode, hnext]
      simpa using hlow
  | case3 i result h code hhigh hnext ih =>
    rw [ih, drop_eq_getElem_cons h, replaceLone_lone_high hhigh, append_assoc]
    · rfl
    · rw [head?_drop_eq_nextCode, hnext]
      rfl
  | case4 i result h code hhigh hlow ih =>
    have hnot : isHigh code = false := by simpa using hhigh
    have hlow : isLow code := hlow
    rw [ih, drop_eq_getElem_cons h, replaceLone_of_not_isHigh hnot, if_pos hlow, append_assoc]
    rfl
  | case5 i result h code hhigh hlow ih =>
    have hnot : isHigh code = false := by simpa using hhigh
    have hlow : ¬ isLow code := hlow
    rw [ih, drop_eq_getElem_cons h, replaceLone_of_not_isHigh hnot, if_neg hlow, append_assoc]
    rfl
  | case6 i result h =>
    rw [drop_eq_nil_of_le (by omega), replaceLone, append_nil]

theorem sanitizeUtf16ForJson_eq (value : JsString) : sanitizeUtf16ForJson value = replaceLone value := by
  rw [sanitizeUtf16ForJson, sanitizeLoop_eq, drop_zero, nil_append]

end ArdurBot.Core
