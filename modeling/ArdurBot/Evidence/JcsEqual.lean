import ArdurBot.Evidence.Jcs

/-!
# Equal values and equal canonical texts

Two values are equal as JSON if they have the same structure: the same items in their order, and the
same properties in any order. The canonical value of a value is equal to it, and equal values have
one canonical value, so that the canonical texts of values are equal exactly when the values are.
-/

namespace ArdurBot.Evidence

open List Utf16 Json Sorted

def sameNumber : JsNumber → JsNumber → Prop
  | .negZero, m => m = .negZero ∨ m = .finite zeroDouble
  | .finite x, m => m = .finite x ∨ x = zeroDouble ∧ m = .negZero
  | n, m => m = n

mutual

def JsonEq : JsValue → JsValue → Prop
  | .num n, w => ∃ m, w = .num m ∧ sameNumber n m
  | .arr items, w => ∃ items', w = .arr items' ∧ EqItems items items'
  | .obj fields, w => ∃ fields', w = .obj fields' ∧ (keys fields).Perm (keys fields') ∧
    EqFields fields fields'
  | v, w => w = v

def EqItems : List JsValue → List JsValue → Prop
  | [], items' => items' = []
  | v :: items, items' => ∃ w rest, items' = w :: rest ∧ JsonEq v w ∧ EqItems items rest

def EqFields : List (Text × JsValue) → List (Text × JsValue) → Prop
  | [], _ => True
  | (k, v) :: fields, fields' => (∃ w, getField fields' k = some w ∧ JsonEq v w) ∧ EqFields fields fields'

end

variable {n : JsNumber} {w : JsValue} {fields : Fields}

theorem sameNumber_iff {m : JsNumber} : sameNumber n m ↔ canonical (.num n) = canonical (.num m) := by
  cases n <;> cases m <;> simp [sameNumber, canonical, eq_comm]

theorem keys_canonicalFields (fields : Fields) : keys (canonicalFields fields) = keys fields := by
  rw [canonicalFields_eq, Json.keys, Json.keys, map_map]
  rfl

theorem canonical_eq_num (h : canonical w = .num n) : ∃ m, w = .num m := by
  cases w with
  | num m => exact ⟨m, rfl⟩
  | _ => simp [canonical] at h

theorem canonical_eq_arr {items : List JsValue} (h : canonical w = .arr items) :
    ∃ items', w = .arr items' ∧ canonicalItems items' = items := by
  cases w with
  | arr items' => exact ⟨items', rfl, JsValue.arr.inj h⟩
  | num m => cases m <;> simp [canonical] at h
  | _ => simp [canonical] at h

theorem canonical_eq_obj (h : canonical w = .obj fields) :
    ∃ fields', w = .obj fields' ∧ sortByKey Prod.fst (canonicalFields fields') = fields := by
  cases w with
  | obj fields' => exact ⟨fields', rfl, JsValue.obj.inj h⟩
  | num m => cases m <;> simp [canonical] at h
  | _ => simp [canonical] at h

theorem canonicalFields_eq_of_eq {fields' : Fields} (hkeys : (keys fields).Nodup)
    (hperm : (keys fields).Perm (keys fields'))
    (hvalues : ∀ field ∈ fields, ∃ w, getField fields' field.1 = some w ∧ canonical field.2 = canonical w) :
    sortByKey Prod.fst (canonicalFields fields) = sortByKey Prod.fst (canonicalFields fields') := by
  have hkeys' : ((canonicalFields fields).map Prod.fst).Nodup := by
    have hsame : (canonicalFields fields).map Prod.fst = keys fields := keys_canonicalFields fields
    rw [hsame]
    exact hkeys
  refine sortByKey_eq_of_perm ?_ hkeys'
  have hsubset : canonicalFields fields ⊆ canonicalFields fields' := by
    rw [canonicalFields_eq, canonicalFields_eq]
    intro entry hentry
    obtain ⟨field, hfield, rfl⟩ := mem_map.mp hentry
    obtain ⟨w, hget, hsame⟩ := hvalues field hfield
    have hmem : (field.1, w) ∈ fields' := (getField_eq_some (hperm.nodup_iff.mp hkeys)).mp hget
    exact mem_map.mpr ⟨(field.1, w), hmem, by rw [hsame]⟩
  refine (subperm_of_subset (List.Nodup.of_map _ hkeys') hsubset).perm_of_length_le ?_
  have hlength := hperm.length_eq
  simp only [Json.keys, length_map] at hlength
  rw [canonicalFields_eq, canonicalFields_eq, length_map, length_map, hlength]

mutual

theorem canonical_eq_of_jsonEq : ∀ {v w : JsValue}, v.WellKeyed → JsonEq v w → canonical v = canonical w
  | .null, _, _, h => by rw [h]
  | .bool _, _, _, h => by rw [h]
  | .str _, _, _, h => by rw [h]
  | .other _, _, _, h => by rw [h]
  | .num n, w, _, h => by
    obtain ⟨m, rfl, hsame⟩ := h
    exact sameNumber_iff.mp hsame
  | .arr items, w, hv, h => by
    obtain ⟨items', rfl, hitems⟩ := h
    exact congrArg JsValue.arr (canonicalItems_eq_of_eqItems hv hitems)
  | .obj fields, w, hv, h => by
    obtain ⟨fields', rfl, hperm, hfields⟩ := h
    exact congrArg JsValue.obj (canonicalFields_eq_of_eq hv.1 hperm (canonical_eq_of_eqFields hv.2 hfields))

theorem canonicalItems_eq_of_eqItems : ∀ {items items' : List JsValue}, AllItems (fun _ => True) True items →
    EqItems items items' → canonicalItems items = canonicalItems items'
  | [], _, _, h => by rw [h]
  | v :: items, _, hv, h => by
    obtain ⟨w, rest, rfl, hhead, hrest⟩ := h
    rw [canonicalItems, canonicalItems, canonical_eq_of_jsonEq hv.1 hhead, canonicalItems_eq_of_eqItems hv.2 hrest]

theorem canonical_eq_of_eqFields : ∀ {fields fields' : Fields}, AllFields (fun _ => True) True fields →
    EqFields fields fields' → ∀ field ∈ fields, ∃ w, getField fields' field.1 = some w ∧
      canonical field.2 = canonical w
  | [], _, _, _, field, hfield => absurd hfield not_mem_nil
  | (k, v) :: fields, fields', hv, h, field, hfield => by
    obtain ⟨⟨w, hget, hsame⟩, hrest⟩ := h
    obtain rfl | hfield := mem_cons.mp hfield
    · exact ⟨w, hget, canonical_eq_of_jsonEq hv.1 hsame⟩
    · exact canonical_eq_of_eqFields hv.2 hrest field hfield

end

theorem exists_getField_of_canonical {fields fields' : Fields} (hkeys' : (keys fields').Nodup)
    (h : sortByKey Prod.fst (canonicalFields fields) = sortByKey Prod.fst (canonicalFields fields')) :
    (keys fields).Perm (keys fields') ∧
      ∀ field ∈ fields, ∃ w, getField fields' field.1 = some w ∧ (field.1, w) ∈ fields' ∧
        canonical field.2 = canonical w := by
  have hperm : (canonicalFields fields).Perm (canonicalFields fields') :=
    (sortByKey_perm Prod.fst _).symm.trans (h ▸ sortByKey_perm Prod.fst _)
  constructor
  · rw [← keys_canonicalFields fields, ← keys_canonicalFields fields']
    exact hperm.map Prod.fst
  · intro field hfield
    have hmem : (field.1, canonical field.2) ∈ canonicalFields fields' := by
      rw [← hperm.mem_iff, canonicalFields_eq]
      exact mem_map.mpr ⟨field, hfield, rfl⟩
    rw [canonicalFields_eq] at hmem
    obtain ⟨field', hfield', hsame⟩ := mem_map.mp hmem
    obtain ⟨hkey, hvalue⟩ := Prod.mk.inj hsame
    have hpair : (field.1, field'.2) ∈ fields' := by
      rw [← hkey]
      exact hfield'
    exact ⟨field'.2, (getField_eq_some hkeys').mpr hpair, hpair, hvalue.symm⟩

mutual

theorem jsonEq_of_canonical_eq : ∀ {v w : JsValue}, w.WellKeyed → canonical v = canonical w → JsonEq v w
  | .null, w, _, h => by cases w with
    | null => rfl
    | num m => cases m <;> simp [canonical] at h
    | _ => simp [canonical] at h
  | .bool b, w, _, h => by cases w with
    | bool b' => exact (show JsValue.bool b = JsValue.bool b' from h).symm
    | num m => cases m <;> simp [canonical] at h
    | _ => simp [canonical] at h
  | .str text, w, _, h => by cases w with
    | str text' => exact (show JsValue.str text = JsValue.str text' from h).symm
    | num m => cases m <;> simp [canonical] at h
    | _ => simp [canonical] at h
  | .other reason, w, _, h => by cases w with
    | other reason' => exact (show JsValue.other reason = JsValue.other reason' from h).symm
    | num m => cases m <;> simp [canonical] at h
    | _ => simp [canonical] at h
  | .num n, w, _, h => by
    obtain ⟨n', hn⟩ : ∃ n', canonical (.num n) = .num n' := by cases n <;> exact ⟨_, rfl⟩
    obtain ⟨m, rfl⟩ := canonical_eq_num (h.symm.trans hn)
    exact ⟨m, rfl, sameNumber_iff.mpr h⟩
  | .arr items, w, hw, h => by
    obtain ⟨items', rfl, hitems⟩ := canonical_eq_arr h.symm
    exact ⟨items', rfl, eqItems_of_canonicalItems_eq hw hitems.symm⟩
  | .obj fields, w, hw, h => by
    obtain ⟨fields', rfl, hfields⟩ := canonical_eq_obj h.symm
    obtain ⟨hperm, hvalues⟩ := exists_getField_of_canonical hw.1 hfields.symm
    exact ⟨fields', rfl, hperm, eqFields_of_canonical_eq hw.2 hvalues⟩

theorem eqItems_of_canonicalItems_eq : ∀ {items items' : List JsValue}, AllItems (fun _ => True) True items' →
    canonicalItems items = canonicalItems items' → EqItems items items'
  | [], [], _, _ => rfl
  | [], _ :: _, _, h => by simp [canonicalItems] at h
  | _ :: _, [], _, h => by simp [canonicalItems] at h
  | v :: items, w :: items', hw, h => by
    obtain ⟨hhead, hrest⟩ := cons.inj h
    exact ⟨w, items', rfl, jsonEq_of_canonical_eq hw.1 hhead, eqItems_of_canonicalItems_eq hw.2 hrest⟩

theorem eqFields_of_canonical_eq : ∀ {fields fields' : Fields}, AllFields (fun _ => True) True fields' →
    (∀ field ∈ fields, ∃ w, getField fields' field.1 = some w ∧ (field.1, w) ∈ fields' ∧
      canonical field.2 = canonical w) →
      EqFields fields fields'
  | [], _, _, _ => trivial
  | (k, v) :: fields, fields', hw, h => by
    obtain ⟨w, hget, hmem, hsame⟩ := h (k, v) mem_cons_self
    refine ⟨⟨w, hget, jsonEq_of_canonical_eq (allFields_iff.mp hw _ hmem) hsame⟩, ?_⟩
    exact eqFields_of_canonical_eq hw fun field hfield => h field (mem_cons_of_mem _ hfield)

end

theorem sortByKey_map_sortByKey {β γ : Type} (f : β → γ) (entries : List (Text × β)) :
    sortByKey Prod.fst ((sortByKey Prod.fst entries).map fun entry => (entry.1, f entry.2)) =
      sortByKey Prod.fst (entries.map fun entry => (entry.1, f entry.2)) := by
  rw [sortByKey_map_snd, sortByKey_map_snd, sortByKey_of_sorted (sortedByKey_sortByKey _ entries)]

mutual

theorem encode_canonical : ∀ v : JsValue, encode (canonical v) = encode v
  | .null => rfl
  | .bool _ => rfl
  | .str _ => rfl
  | .other _ => rfl
  | .num .negZero => by
    rw [canonical, encode, encode]
    simp [encodeNumber, isFinite, isInteger, isSafeInteger, zeroDouble, numberToString, doubleToString]
  | .num .nan => rfl
  | .num (.infinity _) => rfl
  | .num (.finite _) => rfl
  | .arr items => by rw [canonical, encode, encode, encodeItems_canonicalItems items]
  | .obj fields => by
    rw [canonical, encode, encode, encodeFields_eq, sortByKey_map_sortByKey, ← encodeFields_eq,
      encodeFields_canonicalFields fields]

theorem encodeItems_canonicalItems : ∀ items :
    List JsValue, encodeItems (canonicalItems items) = encodeItems items
  | [] => rfl
  | v :: items => by rw [canonicalItems, encodeItems, encodeItems, encode_canonical v,
    encodeItems_canonicalItems items]

theorem encodeFields_canonicalFields : ∀ fields :
    Fields, encodeFields (canonicalFields fields) = encodeFields fields
  | [] => rfl
  | (k, v) :: fields => by
    rw [canonicalFields, encodeFields, encodeFields, encode_canonical v, encodeFields_canonicalFields fields]

end

mutual

theorem canonical_canonical : ∀ v : JsValue, canonical (canonical v) = canonical v
  | .null => rfl
  | .bool _ => rfl
  | .str _ => rfl
  | .other _ => rfl
  | .num .negZero => rfl
  | .num .nan => rfl
  | .num (.infinity _) => rfl
  | .num (.finite _) => rfl
  | .arr items => by rw [canonical, canonical, canonicalItems_canonicalItems items]
  | .obj fields => by
    rw [canonical, canonical, canonicalFields_eq (sortByKey _ _), sortByKey_map_sortByKey, ← canonicalFields_eq,
      canonicalFields_canonicalFields fields]

theorem canonicalItems_canonicalItems : ∀ items :
    List JsValue, canonicalItems (canonicalItems items) = canonicalItems items
  | [] => rfl
  | v :: items => by rw [canonicalItems, canonicalItems, canonical_canonical v,
    canonicalItems_canonicalItems items]

theorem canonicalFields_canonicalFields : ∀ fields : Fields,
    canonicalFields (canonicalFields fields) = canonicalFields fields
  | [] => rfl
  | (k, v) :: fields => by
    rw [canonicalFields, canonicalFields, canonical_canonical v, canonicalFields_canonicalFields fields]

end

/-- **A canonical text is that of one value.** It parses to an equal value, whose text it is again,
and the other values that have it are the ones that are equal, whatever the order of their keys. -/
theorem canonicalize_faithful {v : JsValue} (hv : v.WellKeyed) {t : Text} (h : canonicalize v = .ok t) :
    (∃ u, parse t = some u ∧ JsonEq u v ∧ canonicalize u = .ok t) ∧
      ∀ w : JsValue, w.WellKeyed → (JsonEq v w ↔ canonicalize w = .ok t) := by
  have hspec := canonicalize_spec hv h
  refine ⟨⟨canonical v, hspec.parses, ?_, hspec.stable⟩, fun w hw => ⟨fun hsame => ?_, fun hw' => ?_⟩⟩
  · exact jsonEq_of_canonical_eq hv (canonical_canonical v)
  · rw [canonicalize, ← encode_canonical w, ← canonical_eq_of_jsonEq hv hsame, encode_canonical v]
    exact h
  · have hparses := hspec.parses.symm.trans (canonicalize_spec hw hw').parses
    exact jsonEq_of_canonical_eq hw (Option.some.inj hparses)

def ba : JsValue := .obj [(lit "b", .null), (lit "a", .bool true)]

def baText : Text := lit "\x7b\"a\":true,\"b\":null\x7d"

theorem canonicalize_faithful_ba : (∃ u, parse baText = some u ∧ JsonEq u ba ∧ canonicalize u = .ok baText) ∧
    ∀ w : JsValue, w.WellKeyed → (JsonEq ba w ↔ canonicalize w = .ok baText) := by
  have hkeyed : ba.WellKeyed := ⟨by decide, trivial, trivial, trivial⟩
  exact canonicalize_faithful hkeyed (by rfl)

end ArdurBot.Evidence
