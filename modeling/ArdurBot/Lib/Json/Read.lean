import ArdurBot.Lib.Json.Value

/-!
# Reading JSON values

The readers that a schema is made of: texts, numbers, lists, values that may be null or missing, and
strict objects. Each reads back the value that is written for what it gives.
-/

namespace ArdurBot.Json

open List Utf16 Bool

section

def optionalField (key : String) (value : Option JsValue) : Fields :=
  value.toList.map fun value => (lit key, value)

def readText : JsValue → Option Text
  | .str text => some text
  | _ => none

def readOptional {α : Type} (read : JsValue → Option α) : Option JsValue → Option (Option α)
  | none => some none
  | some value => (read value).map some

def readTexts : List JsValue → Option (List Text)
  | [] => some []
  | value :: rest =>
    match readText value, readTexts rest with
    | some text, some texts => some (text :: texts)
    | _, _ => none

def readNat : JsValue → Option ℕ
  | .num (.finite x) => if x.val.den = 1 && 0 ≤ x.val.num then some x.val.num.toNat else none
  | .num .negZero => some 0
  | _ => none

/-- A strict object: no other keys than these. -/
def readStrict (allowed : List String) : JsValue → Option Fields
  | .obj fields => if (keys fields).all fun key => key ∈ allowed.map lit then some fields else none
  | _ => none

def textField (fields : Fields) (key : String) : Option Text :=
  (getField fields (lit key)).bind readText

mutual

/-- Finite numbers other than minus zero, and no key twice. -/
def isPlain : JsValue → Bool
  | .num (.finite _) => true
  | .num _ => false
  | .arr items => isPlainItems items
  | .obj fields => decide (keys fields).Nodup && isPlainFields fields
  | .other _ => false
  | _ => true

def isPlainItems : List JsValue → Bool
  | [] => true
  | value :: rest => isPlain value && isPlainItems rest

def isPlainFields : List (Text × JsValue) → Bool
  | [] => true
  | (_, value) :: rest => isPlain value && isPlainFields rest

end

mutual

theorem plain_of_isPlain : ∀ {value : JsValue}, isPlain value → value.Plain
  | .null, _ => trivial
  | .bool _, _ => trivial
  | .num (.finite x), _ => ⟨x, rfl⟩
  | .str _, _ => trivial
  | .arr _, h => plain_of_isPlainItems h
  | .obj _, h =>
    ⟨of_decide_eq_true (and_eq_true_iff.mp h).1, plain_of_isPlainFields (and_eq_true_iff.mp h).2⟩

theorem plain_of_isPlainItems : ∀ {items : List JsValue}, isPlainItems items →
    AllItems (fun n => ∃ x, n = .finite x) False items
  | [], _ => trivial
  | _ :: _, h => ⟨plain_of_isPlain (and_eq_true_iff.mp h).1, plain_of_isPlainItems (and_eq_true_iff.mp h).2⟩

theorem plain_of_isPlainFields : ∀ {fields : Fields}, isPlainFields fields →
    AllFields (fun n => ∃ x, n = .finite x) False fields
  | [], _ => trivial
  | (_, _) :: _, h =>
    ⟨plain_of_isPlain (and_eq_true_iff.mp h).1, plain_of_isPlainFields (and_eq_true_iff.mp h).2⟩

end

theorem getField_append (a b : Fields) (key : Text) :
    getField (a ++ b) key = (getField a key).or (getField b key) := by
  unfold getField
  rw [find?_append, Option.map_or]

theorem getField_cons (key : Text) (value : JsValue) (fields : Fields) (other : Text) :
    getField ((key, value) :: fields) other = if key = other then some value else getField fields other := by
  unfold getField
  rw [find?_cons]
  by_cases h : key = other
  · simp [h]
  · simp [h]

theorem getField_optionalField (key : String) (value : Option JsValue) (other : Text) :
    getField (optionalField key value) other = if lit key = other then value else none := by
  cases value with
  | none => exact (ite_self _).symm
  | some value => exact getField_cons _ _ _ _

theorem keys_optionalField (key : String) (value : Option JsValue) :
    (keys (optionalField key value)).Sublist [lit key] := by
  cases value with
  | none => exact nil_sublist _
  | some value => exact List.Sublist.refl _

theorem readText_optional (text : Option Text) : readOptional readText (text.map .str) = some text := by
  cases text <;> rfl

theorem readTexts_strings (texts : List Text) : readTexts (texts.map .str) = some texts := by
  induction texts with
  | nil => rfl
  | cons text texts ih =>
    rw [map_cons, readTexts, ih]
    rfl

theorem readNat_ofNat {n : ℕ} (h : n < 2 ^ 53) : readNat (.num (ofNat n)) = some n := by
  rw [ofNat_eq h]
  show (if ((n : ℚ).den = 1 && 0 ≤ (n : ℚ).num) then some (n : ℚ).num.toNat else none) = some n
  rw [Rat.den_natCast, Rat.num_natCast, if_pos (by simp), Int.toNat_natCast]

end

section

variable {fields : Fields} {key : Text} {value : JsValue}

theorem mem_setField {entry : Text × JsValue} (h : entry ∈ setField fields key value) :
    entry = (key, value) ∨ entry ∈ fields := by
  unfold setField at h
  split at h
  · obtain ⟨old, hold, rfl⟩ := mem_map.mp h
    split
    · exact .inl rfl
    · exact .inr hold
  · exact (mem_append.mp h).symm.imp_left mem_singleton.mp

theorem keys_setField (fields : Fields) (key : Text) (value : JsValue) :
    keys (setField fields key value) = if key ∈ keys fields then keys fields else keys fields ++ [key] := by
  unfold setField
  split
  · rw [keys, keys, map_map]
    refine map_congr_left fun entry _ => ?_
    rw [Function.comp_apply]
    split
    · next hsame => exact hsame.symm
    · rfl
  · rw [keys_append]
    rfl

theorem mem_keys_setField {other : Text} : other ∈ keys (setField fields key value) ↔ other = key ∨
    other ∈ keys fields := by
  rw [keys_setField]
  split <;> grind

theorem getField_setField (fields : Fields) (key : Text) (value : JsValue) (other : Text) :
    getField (setField fields key value) other = if key = other then some value else getField fields other := by
  have hmap : ∀ fields :
      Fields, getField (fields.map fun field => if field.1 = key then (key, value)
      else field) other =
      if key = other ∧ key ∈ keys fields then some value else getField fields other := by
    intro fields
    induction fields with
    | nil => simp
    | cons field fields ih => grind [getField_cons, keys_cons]
  unfold setField
  split
  · next hmem => simp [hmap, hmem]
  · next hnew =>
    have hnone := getField_eq_none.mpr hnew
    rw [getField_append, getField_cons]
    split
    · next hkey => rw [← hkey, hnone, Option.none_or]
    · exact Option.or_none

theorem nodup_setField (h : (keys fields).Nodup) : (keys (setField fields key value)).Nodup := by
  rw [keys_setField]
  split
  · exact h
  · next hnew => exact nodup_append'.mpr ⟨h, nodup_singleton key, by simpa using hnew⟩

end

end ArdurBot.Json
