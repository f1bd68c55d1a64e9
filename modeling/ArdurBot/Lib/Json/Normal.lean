import ArdurBot.Lib.Json.Print

/-!
# Data and its JSON text

`JSON.stringify` writes a number that is not finite as null and both zeros as "0", so what it wrote
is read back as the `normal` form of the value. Two values are the same JSON if their normal forms
have the same properties, in any order.

The text of an object is read back whatever stands behind it: only spaces may.
-/

namespace ArdurBot.Json

open Utf16

def JsNumber.normal : JsNumber → JsValue
  | .nan => .null
  | .infinity _ => .null
  | .negZero => .num (.finite zeroDouble)
  | .finite x => .num (.finite x)

mutual

def JsValue.normal : JsValue → JsValue
  | .null => .null
  | .bool b => .bool b
  | .num n => n.normal
  | .str text => .str text
  | .arr items => .arr (normalItems items)
  | .obj fields => .obj (normalFields fields)
  | .other reason => .other reason

def normalItems : List JsValue → List JsValue
  | [] => []
  | v :: rest => v.normal :: normalItems rest

def normalFields : List (Text × JsValue) → List (Text × JsValue)
  | [] => []
  | (k, v) :: rest => (k, v.normal) :: normalFields rest

end

/-- JSON data: any numbers, but nothing that is no data. -/
def JsValue.Data (v : JsValue) : Prop := v.All (fun _ => True) False

/-- What `JSON.stringify` writes of JSON data. -/
def JsValue.encode (v : JsValue) : Text := v.normal.toJson

@[simp] theorem keys_normalFields (fields : Fields) : keys (normalFields fields) = keys fields := by
  induction fields with
  | nil => rfl
  | cons field fields ih =>
    obtain ⟨k, v⟩ := field
    rw [normalFields, keys_cons, keys_cons, ih]

mutual

theorem plain_normal : ∀ {v : JsValue}, v.Data → v.normal.Plain
  | .null, _ => trivial
  | .bool _, _ => trivial
  | .num .nan, _ => trivial
  | .num (.infinity _), _ => trivial
  | .num .negZero, _ => ⟨zeroDouble, rfl⟩
  | .num (.finite x), _ => ⟨x, rfl⟩
  | .str _, _ => trivial
  | .arr _, h => plain_normalItems h
  | .obj fields, h => ⟨(keys_normalFields fields).symm ▸ h.1, plain_normalFields h.2⟩
  | .other _, h => absurd h (by simp [JsValue.Data, JsValue.All])

theorem plain_normalItems : ∀ {items : List JsValue}, AllItems (fun _ => True) False items →
    AllItems (fun n => ∃ x, n = .finite x) False (normalItems items)
  | [], _ => trivial
  | _ :: _, h => ⟨plain_normal h.1, plain_normalItems h.2⟩

theorem plain_normalFields : ∀ {fields : Fields}, AllFields (fun _ => True) False fields →
    AllFields (fun n => ∃ x, n = .finite x) False (normalFields fields)
  | [], _ => trivial
  | (_, _) :: _, h => ⟨plain_normal h.1, plain_normalFields h.2⟩

end

theorem JsNumber.normal_normal (n : JsNumber) : n.normal.normal = n.normal := by
  cases n <;> rfl

mutual

theorem normal_normal : ∀ v : JsValue, v.normal.normal = v.normal
  | .null => rfl
  | .bool _ => rfl
  | .num n => n.normal_normal
  | .str _ => rfl
  | .arr items => congrArg JsValue.arr (normalItems_normalItems items)
  | .obj fields => congrArg JsValue.obj (normalFields_normalFields fields)
  | .other _ => rfl

theorem normalItems_normalItems : ∀ items : List JsValue, normalItems (normalItems items) = normalItems items
  | [] => rfl
  | v :: rest => congrArg₂ List.cons (normal_normal v) (normalItems_normalItems rest)

theorem normalFields_normalFields : ∀ fields :
    Fields, normalFields (normalFields fields) = normalFields fields
  | [] => rfl
  | (k, v) :: rest => by
    simp only [normalFields, normal_normal v, normalFields_normalFields rest]

end

theorem parse_encode {v : JsValue} (h : v.Data) : parse v.encode = some v.normal :=
  parse_toJson (plain_normal h)

mutual

/-- The properties of each object in the order of their keys. -/
def JsValue.sortKeys : JsValue → JsValue
  | .arr items => .arr (sortItems items)
  | .obj fields => .obj ((sortFields fields).mergeSort fun a b => decide (a.1 ≤ b.1))
  | v => v

def sortItems : List JsValue → List JsValue
  | [] => []
  | v :: rest => v.sortKeys :: sortItems rest

def sortFields : List (Text × JsValue) → List (Text × JsValue)
  | [] => []
  | (k, v) :: rest => (k, v.sortKeys) :: sortFields rest

end

def SameJson (v w : JsValue) : Prop := v.normal.sortKeys = w.normal.sortKeys

theorem SameJson.refl (v : JsValue) : SameJson v v := rfl

variable {v w : JsValue}

theorem SameJson.symm (h : SameJson v w) : SameJson w v := Eq.symm h

theorem SameJson.trans {u : JsValue} (h : SameJson u v) (h' : SameJson v w) : SameJson u w :=
  Eq.trans h h'

theorem sameJson_normal (v : JsValue) : SameJson v.normal v := by rw [SameJson, normal_normal]

def TextOf (v : JsValue) (text : Text) : Prop := ∃ w, parse text = some w ∧ SameJson w v

/-- Two texts of one JSON value, or one text. -/
def SameText (a b : Text) : Prop :=
  a = b ∨ ∃ v w, parse a = some v ∧ parse b = some w ∧ SameJson v w

theorem TextOf.sameText {a b : Text} (ha : TextOf v a) (hb : TextOf v b) : SameText a b := by
  obtain ⟨w, hw, hwv⟩ := ha
  obtain ⟨u, hu, huv⟩ := hb
  exact .inr ⟨w, u, hw, hu, hwv.trans huv.symm⟩

variable {fields : Fields} {rest : Text}

theorem encode_obj (fields : Fields) :
    (JsValue.obj fields).encode = unit '{' :: (printFields escapeText (normalFields fields) ++ [unit '}']) := by
  rw [JsValue.encode, JsValue.normal, JsValue.toJson, JsValue.print]

theorem parse_encode_append (h : (JsValue.obj fields).Data) : parse ((JsValue.obj fields).encode ++ rest) =
      if skipSpace rest = [] then some (JsValue.obj fields).normal else none := by
  have hplain := plain_normal h
  have hread := parseValue_obj quotes_escapeText hplain.1 (readsBack_fields quotes_escapeText hplain.2)
    (2 * ((JsValue.obj fields).encode ++ rest).length + 1) rest (by
      rw [List.length_append, JsValue.encode, JsValue.normal, JsValue.toJson]
      omega)
  rw [parse]
  rw [JsValue.encode, JsValue.normal, JsValue.toJson] at hread ⊢
  rw [hread]

theorem skipSpace_of_parse_append (h : (JsValue.obj fields).Data)
    (hparse : parse ((JsValue.obj fields).encode ++ rest) = some v) : skipSpace rest = [] := by
  rw [parse_encode_append h] at hparse
  split at hparse
  · assumption
  · cases hparse

theorem skipSpace_encode_append (fields : Fields) (rest : Text) :
    skipSpace ((JsValue.obj fields).encode ++ rest) ≠ [] := by
  rw [encode_obj, List.cons_append, skipSpace_cons _ (by decide)]
  exact List.cons_ne_nil _ _

theorem skipSpace_of_parse {text : Text} (h : parse text = some v) : skipSpace text ≠ [] := by
  intro hblank
  rw [parse, parseValue, hblank] at h
  cases h

end ArdurBot.Json
