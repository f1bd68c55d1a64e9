import ArdurBot.Lib.Json.Number

/-!
# Values of a JavaScript program

`JsValue` is what a function that takes `unknown` may be given: JSON data, or something that is not
(`undefined`, a function, an instance of a class). An object is the list of its enumerable own
properties; no two have one key, which `WellKeyed` says at every depth.

`Plain` are the values that `JSON.parse` gives back from what was printed: finite numbers, one zero.
-/

namespace ArdurBot.Json

open List Utf16 Prod

inductive JsValue where
  | null
  | bool (b : Bool)
  | num (n : JsNumber)
  | str (text : Text)
  | arr (items : List JsValue)
  | obj (fields : List (Text × JsValue))
  /-- Not JSON data; the text is what a canonical encoder says of it. -/
  | other (reason : Text)

abbrev Fields := List (Text × JsValue)

def keys (fields : Fields) : List Text := fields.map fst

/-- `fields[key]`, or nothing when the object has no such property. -/
def getField (fields : Fields) (key : Text) : Option JsValue :=
  (fields.find? fun field => field.1 = key).map snd

/-- `fields[key] = value` -/
def setField (fields : Fields) (key : Text) (value : JsValue) : Fields :=
  if key ∈ keys fields then fields.map fun field => if field.1 = key then (key, value) else field
  else fields ++ [(key, value)]

@[simp] theorem keys_nil : keys [] = [] := rfl

@[simp] theorem keys_cons (field : Text × JsValue) (fields : Fields) :
    keys (field :: fields) = field.1 :: keys fields := rfl

@[simp] theorem keys_append (a b : Fields) : keys (a ++ b) = keys a ++ keys b := by
  simp [keys]

variable {fields : Fields} {key : Text}

theorem setField_of_notMem (value : JsValue) (h : key ∉ keys fields) :
    setField fields key value = fields ++ [(key, value)] := by
  rw [setField, if_neg h]

theorem getField_eq_none : getField fields key = none ↔ key ∉ keys fields := by
  simp only [getField, Option.map_eq_none_iff, find?_eq_none, decide_eq_true_eq, keys, mem_map]
  exact ⟨fun h ⟨field, hmem, hkey⟩ => h field hmem hkey, fun h field hmem hkey => h ⟨field, hmem, hkey⟩⟩

theorem getField_eq_some (hkeys : (keys fields).Nodup) {value : JsValue} :
    getField fields key = some value ↔ (key, value) ∈ fields := by
  induction fields with
  | nil => simp [getField]
  | cons field fields ih =>
    obtain ⟨k, v⟩ := field
    have hnodup := nodup_cons.mp hkeys
    by_cases hk : k = key
    · have hget : getField ((k, v) :: fields) key = some v := by simp [getField, hk]
      rw [hget]
      constructor
      · intro hv
        rw [← Option.some.inj hv, ← hk]
        exact mem_cons_self
      · intro hmem
        obtain heq | hmem := mem_cons.mp hmem
        · rw [(mk.inj heq).2]
        · have hkey : k ∈ keys fields := mem_map.mpr ⟨(key, value), hmem, hk.symm⟩
          exact absurd hkey hnodup.1
    · have hget : getField ((k, v) :: fields) key = getField fields key := by simp [getField, hk]
      rw [hget, ih hnodup.2]
      constructor
      · exact mem_cons_of_mem _
      · intro hmem
        obtain heq | hmem := mem_cons.mp hmem
        · exact absurd (mk.inj heq).1.symm hk
        · exact hmem

mutual

/-- No object in the value repeats a key, `number` holds of every number in it, and `other` if some
part of it is not JSON data. -/
def JsValue.All (number : JsNumber → Prop) (other : Prop) : JsValue → Prop
  | .null => True
  | .bool _ => True
  | .num n => number n
  | .str _ => True
  | .arr items => AllItems number other items
  | .obj fields => (keys fields).Nodup ∧ AllFields number other fields
  | .other _ => other

def AllItems (number : JsNumber → Prop) (other : Prop) : List JsValue → Prop
  | [] => True
  | v :: rest => v.All number other ∧ AllItems number other rest

def AllFields (number : JsNumber → Prop) (other : Prop) : List (Text × JsValue) → Prop
  | [] => True
  | (_, v) :: rest => v.All number other ∧ AllFields number other rest

end

def JsValue.Plain (v : JsValue) : Prop := v.All (fun n => ∃ x, n = .finite x) False

def JsValue.WellKeyed (v : JsValue) : Prop := v.All (fun _ => True) True

theorem allItems_iff {number : JsNumber → Prop} {other : Prop} {items : List JsValue} :
    AllItems number other items ↔ ∀ v ∈ items, v.All number other := by
  induction items with
  | nil => simp [AllItems]
  | cons v items ih => simp [AllItems, ih]

theorem allFields_iff {number : JsNumber → Prop} {other : Prop} {fields : Fields} :
    AllFields number other fields ↔ ∀ field ∈ fields, field.2.All number other := by
  induction fields with
  | nil => simp [AllFields]
  | cons field fields ih =>
    obtain ⟨k, v⟩ := field
    simp [AllFields, ih]

end ArdurBot.Json
