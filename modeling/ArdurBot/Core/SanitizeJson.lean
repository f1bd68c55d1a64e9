import ArdurBot.Lib.Json.Read
import ArdurBot.Lib.Json.Print
import ArdurBot.Lib.Occurrence
import ArdurBot.Core.Redaction
import ArdurBot.Lib.Dict

/-!
# Sanitizing JSON data

`sanitizeJsonValue` of `packages/core/src/events.ts`: lone surrogates are replaced in the strings of
a value and in its keys, and keys that become the same are numbered. The properties of an object are
in the order in which they are enumerated; keys that are array indices, which come first, stay what
they are and come first in the new object too.
-/

namespace ArdurBot.Core

open List Utf16 Json Occurrence

/-- The property that is set by assignment as the prototype. -/
def protoKey : Text := lit "__proto__"

/-- `out[key] = value` on an ordinary object: the prototype is no property of it. -/
def assignProperty (out : Fields) (key : Text) (value : JsValue) : Fields :=
  if key = protoKey then out else setField out key value

def numberedKey (safeKey : Text) (count : ℕ) : Text := safeKey ++ unit '#' :: digitsOf count

mutual

def sanitizeJsonValue : JsValue → JsValue
  | .str text => .str (sanitizeUtf16ForJson text)
  | .arr items => .arr (sanitizeItems items)
  | .obj fields => .obj (sanitizeEntries [] [] fields)
  | value => value

def sanitizeItems : List JsValue → List JsValue
  | [] => []
  | item :: items => sanitizeJsonValue item :: sanitizeItems items

def sanitizeEntries (used : List (Text × ℕ)) (out : Fields) : List (Text × JsValue) → Fields
  | [] => out
  | (key, nested) :: entries =>
    let safeKey := sanitizeUtf16ForJson key
    let seen := (Dict.get used safeKey).getD 0
    sanitizeEntries (Dict.set used safeKey (seen + 1))
      (assignProperty out (if 0 < seen then numberedKey safeKey (seen + 1)
        else safeKey) (sanitizeJsonValue nested)) entries

end

/-- The key of the numbered occurrence of a sanitized key. -/
def keyOf (occurrence : Text × ℕ) : Text :=
  if occurrence.2 = 1 then occurrence.1 else numberedKey occurrence.1 occurrence.2

/-- The keys that are assigned, in their order. -/
def assignedKeys (safeKeys : List Text) : List Text := (numbered [] safeKeys).map keyOf

theorem numberedKey_inj {a b : Text} {n m : ℕ} (h : numberedKey a n = numberedKey b m) : a = b ∧ n = m := by
  have hsplit : ∀ {c : Text} {k : ℕ}, ((numberedKey c k).reverse.takeWhile (· ≠ unit '#')).reverse = digitsOf k := by
    intro c k
    have hdigits : ∀ u ∈ (digitsOf k).reverse, decide (u ≠ unit '#') := fun u hu =>
      decide_eq_true fun hhash => absurd (isDigit_of_mem_digitsOf (hhash ▸ mem_reverse.mp hu)) (by decide)
    unfold numberedKey
    rw [reverse_append, reverse_cons, append_assoc, takeWhile_append_of_pos hdigits]
    simp
  have hnumber : digitsOf n = digitsOf m := by rw [← @hsplit a n, ← @hsplit b m, h]
  refine ⟨?_, ?_⟩
  · unfold numberedKey at h
    rw [hnumber] at h
    exact append_cancel_right h
  · rw [← readDigits_digitsOf n, ← readDigits_digitsOf m, hnumber]

/-- No sanitized key is the numbered form of one that repeats. -/
def Apart (safeKeys : List Text) : Prop :=
  ∀ key ∈ safeKeys, ∀ other ∈ safeKeys, ∀ n, 2 ≤ n → n ≤ safeKeys.count other → key ≠ numberedKey other n

section

variable {safeKeys : List Text} {key : Text}

theorem mem_numbered_nil {n : ℕ} : (key, n) ∈ numbered [] safeKeys ↔ 1 ≤ n ∧ n ≤ safeKeys.count key := by
  rw [mem_numbered, count_nil, Nat.zero_add]
  rfl

theorem one_mem_numbered (h : key ∈ safeKeys) : (key, 1) ∈ numbered [] safeKeys :=
  mem_numbered_nil.mpr ⟨le_rfl, count_pos_iff.mpr h⟩

theorem mem_of_mem_numbered {n : ℕ} (h : (key, n) ∈ numbered [] safeKeys) : key ∈ safeKeys := by
  obtain ⟨hpos, hcount⟩ := mem_numbered_nil.mp h
  exact count_pos_iff.mp (by omega)

end

theorem nodup_assignedKeys_iff (safeKeys : List Text) : (assignedKeys safeKeys).Nodup ↔ Apart safeKeys := by
  unfold assignedKeys
  rw [nodup_map_iff_inj_on (nodup_numbered _ _)]
  constructor
  · intro hinj key hkey other hother n htwo hcount heq
    have hnumbered : (other, n) ∈ numbered [] safeKeys := mem_numbered_nil.mpr ⟨by omega, hcount⟩
    have hname : keyOf (key, 1) = keyOf (other, n) := by
      unfold keyOf
      rw [if_pos (Eq.refl 1), if_neg (by show n ≠ 1; omega)]
      exact heq
    have hsame := congrArg Prod.snd (hinj _ (one_mem_numbered hkey) _ hnumbered hname)
    have hone : 1 = n := hsame
    omega
  · rintro hapart ⟨key, n⟩ hkey ⟨other, m⟩ hother heq
    have hkeyMem := mem_of_mem_numbered hkey
    have hotherMem := mem_of_mem_numbered hother
    obtain ⟨hn, hncount⟩ := mem_numbered_nil.mp hkey
    obtain ⟨hm, hmcount⟩ := mem_numbered_nil.mp hother
    unfold keyOf at heq
    dsimp only at heq
    split at heq
    · next hone =>
      split at heq
      · next hone' => rw [heq, hone, hone']
      · next hmore => exact absurd heq (hapart key hkeyMem other hotherMem m (by omega) hmcount)
    · next hmore =>
      split at heq
      · next hone => exact absurd heq.symm (hapart other hotherMem key hkeyMem n (by omega) hncount)
      · obtain ⟨hsame, hnumber⟩ := numberedKey_inj heq
        rw [hsame, hnumber]

theorem sanitize_eq_proto_iff {key : Text} : sanitizeUtf16ForJson key = protoKey ↔ key = protoKey := by
  constructor
  · intro h
    have hunits := replaceLone_forall₂ key
    rw [← sanitizeUtf16ForJson_eq, h] at hunits
    have hplain : ∀ v ∈ protoKey, v ≠ replacement := forall_iff_forall_mem.mp (by decide)
    clear h
    generalize protoKey = proto at hunits hplain
    induction hunits with
    | nil => rfl
    | cons hunit _ ih =>
      have hhead := hunit.resolve_right (hplain _ mem_cons_self)
      rw [hhead, ih fun v hv => hplain v (mem_cons_of_mem _ hv)]
  · rintro rfl
    rw [sanitizeUtf16ForJson_eq]
    exact replaceLone_of_wellFormed (by decide)

theorem keyOf_ne_proto {key : Text} {n : ℕ} (h : key ≠ protoKey) : keyOf (key, n) ≠ protoKey := by
  unfold keyOf
  split
  · exact h
  · intro heq
    have hmem : unit '#' ∈ protoKey := by
      rw [← heq]
      exact mem_append_right _ mem_cons_self
    exact absurd hmem (by decide)

def assignAll (out entries : Fields) : Fields :=
  entries.foldl (fun out entry => assignProperty out entry.1 entry.2) out

section

variable {out entries : Fields} {key : Text} {value : JsValue}

theorem nodup_assignProperty (h : (keys out).Nodup) : (keys (assignProperty out key value)).Nodup := by
  unfold assignProperty
  split
  · exact h
  · exact nodup_setField h

theorem nodup_assignAll (h : (keys out).Nodup) (entries : Fields) : (keys (assignAll out entries)).Nodup := by
  induction entries generalizing out with
  | nil => exact h
  | cons entry entries ih => exact ih (nodup_assignProperty h)

theorem forall_assignAll {p : Text × JsValue → Prop} (hout : ∀ entry ∈ out, p entry)
    (hentries : ∀ entry ∈ entries, entry.1 ≠ protoKey → p entry) :
    ∀ entry ∈ assignAll out entries, p entry := by
  induction entries generalizing out with
  | nil => exact hout
  | cons entry entries ih =>
    refine ih ?_ fun other hother => hentries other (mem_cons_of_mem _ hother)
    intro other hother
    unfold assignProperty at hother
    dsimp only at hother
    split at hother
    · exact hout other hother
    · next hplain =>
      obtain rfl | hold := mem_setField hother
      · exact hentries entry mem_cons_self hplain
      · exact hout other hold

theorem length_setField (out : Fields) (key : Text) (value : JsValue) :
    (setField out key value).length = out.length + if key ∈ keys out then 0 else 1 := by
  unfold setField
  split
  · rw [length_map, Nat.add_zero]
  · rw [length_append, length_singleton]

theorem assignAll_spec (out entries : Fields) : (assignAll out entries).length ≤ out.length + entries.length ∧
    ((assignAll out entries).length = out.length + entries.length ↔
      protoKey ∉ keys entries ∧ (keys entries).Nodup ∧ ∀ key ∈ keys entries, key ∉ keys out) := by
  induction entries generalizing out with
  | nil => simp [assignAll]
  | cons entry entries ih =>
    obtain ⟨key, value⟩ := entry
    have hcons : assignAll out ((key, value) :: entries) = assignAll (assignProperty out key value) entries := rfl
    rw [hcons, length_cons, Json.keys_cons]
    obtain ⟨hlength, hiff⟩ := ih (assignProperty out key value)
    by_cases hlost : key = protoKey ∨ key ∈ keys out
    · have hsame : (assignProperty out key value).length = out.length := by
        unfold assignProperty
        split
        · rfl
        · next hplain => rw [length_setField, if_pos (hlost.resolve_left hplain), Nat.add_zero]
      rw [hsame] at hlength
      refine ⟨by omega, iff_of_false (by omega) ?_⟩
      rintro ⟨hproto, -, hnew⟩
      obtain rfl | hold := hlost
      · exact hproto mem_cons_self
      · exact hnew key mem_cons_self hold
    · rw [not_or] at hlost
      have hadded : assignProperty out key value = out ++ [(key, value)] := by
        unfold assignProperty
        rw [if_neg hlost.1, setField_of_notMem value hlost.2]
      rw [hadded, length_append, length_singleton] at hlength hiff
      rw [hadded]
      refine ⟨by omega, ?_⟩
      have hsum : out.length + (entries.length + 1) = out.length + 1 + entries.length := by omega
      rw [hsum, hiff, Json.keys_append, nodup_cons]
      constructor
      · rintro ⟨hproto, hnodup, hnew⟩
        refine ⟨?_, ⟨?_, hnodup⟩, ?_⟩
        · rw [mem_cons, not_or]
          exact ⟨fun heq => hlost.1 heq.symm, hproto⟩
        · exact fun hmem => hnew key hmem (mem_append_right _ mem_cons_self)
        · intro other hother
          obtain rfl | hother := mem_cons.mp hother
          · exact hlost.2
          · exact fun hold => hnew other hother (mem_append_left _ hold)
      · rintro ⟨hproto, ⟨hfirst, hnodup⟩, hnew⟩
        refine ⟨fun hmem => hproto (mem_cons_of_mem _ hmem), hnodup, ?_⟩
        intro other hother hmem
        obtain hold | hsame := mem_append.mp hmem
        · exact hnew other (mem_cons_of_mem _ hother) hold
        · rw [mem_singleton.mp hsame] at hother
          exact hfirst hother

theorem assignAll_eq (hproto : protoKey ∉ keys entries) (hnodup : (keys entries).Nodup)
    (hnew : ∀ key ∈ keys entries, key ∉ keys out) : assignAll out entries = out ++ entries := by
  induction entries generalizing out with
  | nil => exact (append_nil out).symm
  | cons entry entries ih =>
    obtain ⟨key, value⟩ := entry
    obtain ⟨hfirst, hnodup⟩ := nodup_cons.mp hnodup
    rw [Json.keys_cons, mem_cons, not_or] at hproto
    have hadded : assignProperty out key value = out ++ [(key, value)] := by
      unfold assignProperty
      rw [if_neg fun heq => hproto.1 heq.symm, setField_of_notMem value (hnew key mem_cons_self)]
    have hcons : assignAll out ((key, value) :: entries) = assignAll (assignProperty out key value) entries := rfl
    rw [hcons, hadded, ih hproto.2 hnodup, append_assoc]
    · rfl
    · intro other hother hmem
      rw [Json.keys_append] at hmem
      obtain hold | hsame := mem_append.mp hmem
      · exact hnew other (mem_cons_of_mem _ hother) hold
      · rw [mem_singleton.mp hsame] at hother
        exact hfirst hother

end

/-- The properties that are assigned, after those whose sanitized keys are given. -/
def entriesAfter (before : List Text) : Fields → Fields
  | [] => []
  | (key, nested) :: fields =>
    (keyOf (sanitizeUtf16ForJson key, before.count (sanitizeUtf16ForJson key) + 1), sanitizeJsonValue nested) ::
      entriesAfter (sanitizeUtf16ForJson key :: before) fields

def safeKeys (fields : Fields) : List Text := (keys fields).map sanitizeUtf16ForJson

theorem keys_entriesAfter (before : List Text) (fields : Fields) :
    keys (entriesAfter before fields) = (numbered before (safeKeys fields)).map keyOf := by
  induction fields generalizing before with
  | nil => rfl
  | cons field fields ih =>
    obtain ⟨key, nested⟩ := field
    rw [entriesAfter, Json.keys_cons, ih]
    rfl

theorem length_entriesAfter (before : List Text) (fields : Fields) :
    (entriesAfter before fields).length = fields.length := by
  induction fields generalizing before with
  | nil => rfl
  | cons field fields ih => rw [entriesAfter, length_cons, ih, length_cons]

theorem sanitizeEntries_eq (fields : Fields) {used : List (Text × ℕ)} {before : List Text}
    (out : Fields) (hused : ∀ key, (Dict.get used key).getD 0 = before.count key) :
    sanitizeEntries used out fields = assignAll out (entriesAfter before fields) := by
  induction fields generalizing used before out with
  | nil => rfl
  | cons field fields ih =>
    obtain ⟨key, nested⟩ := field
    have hnext : ∀ other, (Dict.get (Dict.set used (sanitizeUtf16ForJson key)
        ((Dict.get used (sanitizeUtf16ForJson key)).getD 0 + 1)) other).getD 0 =
          (sanitizeUtf16ForJson key :: before).count other := by
      intro other
      by_cases hother : other = sanitizeUtf16ForJson key
      · rw [hother, Dict.get_set_self, Option.getD_some, hused, count_cons_self]
      · rw [Dict.get_set_ne hother, hused, count_cons_of_ne (Ne.symm hother)]
    have hkey : (if 0 < (Dict.get used (sanitizeUtf16ForJson key)).getD 0 then
        numberedKey (sanitizeUtf16ForJson key) ((Dict.get used (sanitizeUtf16ForJson key)).getD 0 + 1)
        else sanitizeUtf16ForJson key) =
          keyOf (sanitizeUtf16ForJson key, before.count (sanitizeUtf16ForJson key) + 1) := by
      rw [hused]
      unfold keyOf
      by_cases hfirst : before.count (sanitizeUtf16ForJson key) = 0
      · rw [if_neg (by omega), if_pos (by show _ + 1 = 1; omega)]
      · rw [if_pos (by omega), if_neg (by show ¬ _ + 1 = 1; omega)]
    rw [sanitizeEntries, hkey, ih _ hnext]
    rfl

theorem sanitize_obj (fields : Fields) :
    sanitizeJsonValue (.obj fields) = .obj (assignAll [] (entriesAfter [] fields)) := by
  rw [sanitizeJsonValue, sanitizeEntries_eq fields []]
  exact fun _ => count_nil.symm

theorem proto_mem_entries_iff (fields : Fields) :
    protoKey ∈ keys (entriesAfter [] fields) ↔ protoKey ∈ keys fields := by
  rw [keys_entriesAfter]
  constructor
  · intro hmem
    obtain ⟨⟨key, n⟩, hnumbered, hkey⟩ := mem_map.mp hmem
    have hsame : key = protoKey := by
      by_contra hother
      exact keyOf_ne_proto hother hkey
    obtain ⟨old, hold, hsafe⟩ := mem_map.mp (mem_of_mem_numbered hnumbered)
    rw [← sanitize_eq_proto_iff.mp (hsafe.trans hsame)]
    exact hold
  · intro hmem
    have hsafe : protoKey ∈ safeKeys fields := mem_map.mpr ⟨protoKey, hmem, sanitize_eq_proto_iff.mpr rfl⟩
    exact mem_map.mpr ⟨(protoKey, 1), one_mem_numbered hsafe, rfl⟩

mutual

/-- Strings are well formed, and properties can be assigned. -/
def Clean : JsValue → Prop
  | .str text => WellFormed text
  | .arr items => CleanItems items
  | .obj fields => (keys fields).Nodup ∧ protoKey ∉ keys fields ∧ CleanFields fields
  | _ => True

def CleanItems : List JsValue → Prop
  | [] => True
  | item :: items => Clean item ∧ CleanItems items

def CleanFields : List (Text × JsValue) → Prop
  | [] => True
  | (key, nested) :: fields => (WellFormed key ∧ Clean nested) ∧ CleanFields fields

end

theorem cleanFields_iff {fields : Fields} :
    CleanFields fields ↔ ∀ field ∈ fields, WellFormed field.1 ∧ Clean field.2 := by
  induction fields with
  | nil => simp [CleanFields]
  | cons field fields ih =>
    obtain ⟨key, nested⟩ := field
    simp [CleanFields, ih]

theorem wellFormed_sanitize (text : Text) : WellFormed (sanitizeUtf16ForJson text) := by
  rw [sanitizeUtf16ForJson_eq]
  exact wellFormed_replaceLone text

theorem sanitize_of_wellFormed {text : Text} (h : WellFormed text) : sanitizeUtf16ForJson text = text := by
  rw [sanitizeUtf16ForJson_eq]
  exact replaceLone_of_wellFormed h

theorem wellFormed_digitsOf (n : ℕ) : WellFormed (digitsOf n) := by
  refine wellFormed_of_not_surrogate fun u hu => not_surrogate_of_lt ?_
  have hdigit := isDigit_iff.mp (isDigit_of_mem_digitsOf hu)
  omega

theorem wellFormed_keyOf {key : Text} (h : WellFormed key) (n : ℕ) : WellFormed (keyOf (key, n)) := by
  unfold keyOf
  split
  · exact h
  · exact h.append (wellFormed_ascii (by decide) (wellFormed_digitsOf n))

mutual

theorem clean_sanitize : ∀ value : JsValue, Clean (sanitizeJsonValue value)
  | .null => trivial
  | .bool _ => trivial
  | .num _ => trivial
  | .str text => wellFormed_sanitize text
  | .arr items => clean_sanitizeItems items
  | .obj fields => by
    rw [sanitize_obj]
    have hproto : ∀ entry ∈ assignAll [] (entriesAfter [] fields), entry.1 ≠ protoKey :=
      forall_assignAll (forall_mem_nil _) fun _ _ hplain => hplain
    have hnil : (Json.keys []).Nodup := nodup_nil
    refine ⟨nodup_assignAll hnil _, ?_, cleanFields_iff.mpr ?_⟩
    · intro hmem
      obtain ⟨entry, hentry, hkey⟩ := mem_map.mp hmem
      exact hproto entry hentry hkey
    · exact forall_assignAll (forall_mem_nil _) fun entry hentry _ =>
        clean_entriesAfter fields [] entry hentry
  | .other _ => trivial

theorem clean_sanitizeItems : ∀ items : List JsValue, CleanItems (sanitizeItems items)
  | [] => trivial
  | item :: items => ⟨clean_sanitize item, clean_sanitizeItems items⟩

theorem clean_entriesAfter : ∀ (fields : Fields) (before : List Text),
    ∀ entry ∈ entriesAfter before fields, WellFormed entry.1 ∧ Clean entry.2
  | [], _, entry, hentry => absurd hentry not_mem_nil
  | (key, nested) :: fields, before, entry, hentry => by
    obtain rfl | hentry := mem_cons.mp hentry
    · exact ⟨wellFormed_keyOf (wellFormed_sanitize key) _, clean_sanitize nested⟩
    · exact clean_entriesAfter fields _ entry hentry

end

mutual

theorem sanitize_of_clean : ∀ {value : JsValue}, Clean value → sanitizeJsonValue value = value
  | .null, _ => rfl
  | .bool _, _ => rfl
  | .num _, _ => rfl
  | .str _, h => congrArg JsValue.str (sanitize_of_wellFormed h)
  | .arr _, h => congrArg JsValue.arr (sanitizeItems_of_clean h)
  | .obj fields, h => by
    obtain ⟨hnodup, hproto, hfields⟩ := h
    have hsame : entriesAfter [] fields = fields :=
      entriesAfter_of_clean hfields hnodup fun _ _ => not_mem_nil
    rw [sanitize_obj, hsame, assignAll_eq hproto hnodup fun _ _ => not_mem_nil, nil_append]
  | .other _, _ => rfl

theorem sanitizeItems_of_clean : ∀ {items : List JsValue}, CleanItems items → sanitizeItems items = items
  | [], _ => rfl
  | _ :: _, h => by rw [sanitizeItems, sanitize_of_clean h.1, sanitizeItems_of_clean h.2]

theorem entriesAfter_of_clean : ∀ {fields : Fields} {before : List Text}, CleanFields fields →
    (keys fields).Nodup →
    (∀ key ∈ keys fields, key ∉ before) → entriesAfter before fields = fields
  | [], _, _, _, _ => rfl
  | (key, nested) :: fields, before, h, hnodup, hbefore => by
    obtain ⟨hfirst, hrest⟩ := nodup_cons.mp hnodup
    have hcount : before.count key = 0 := count_eq_zero.mpr (hbefore key mem_cons_self)
    have hothers : ∀ other ∈ keys fields, other ∉ key :: before := by
      intro other hother
      rw [mem_cons, not_or]
      exact ⟨fun heq => hfirst (heq ▸ hother), hbefore other (mem_cons_of_mem _ hother)⟩
    rw [entriesAfter, sanitize_of_wellFormed h.1.1, hcount, sanitize_of_clean h.1.2,
      entriesAfter_of_clean h.2 hrest hothers]
    rfl

end

mutual

theorem wellFormed_of_clean : ∀ {value : JsValue}, Clean value → ∀ text ∈ value.texts, WellFormed text
  | .null, _, _, hnone => absurd hnone not_mem_nil
  | .bool _, _, _, hnone => absurd hnone not_mem_nil
  | .num _, _, _, hnone => absurd hnone not_mem_nil
  | .str _, h, _, htext => mem_singleton.mp htext ▸ h
  | .arr _, h, text, htext => wellFormed_of_cleanItems h text htext
  | .obj _, h, text, htext => wellFormed_of_cleanFields h.2.2 text htext
  | .other _, _, _, hnone => absurd hnone not_mem_nil

theorem wellFormed_of_cleanItems :
    ∀ {items : List JsValue}, CleanItems items → ∀ text ∈ textsOfItems items, WellFormed text
  | [], _, _, hnone => absurd hnone not_mem_nil
  | _ :: _, h, text, htext => by
    obtain hhead | hrest := mem_append.mp htext
    · exact wellFormed_of_clean h.1 text hhead
    · exact wellFormed_of_cleanItems h.2 text hrest

theorem wellFormed_of_cleanFields :
    ∀ {fields : Fields}, CleanFields fields → ∀ text ∈ textsOfFields fields, WellFormed text
  | [], _, _, hnone => absurd hnone not_mem_nil
  | (_, _) :: _, h, text, htext => by
    obtain rfl | htext := mem_cons.mp htext
    · exact h.1.1
    · obtain hnested | hrest := mem_append.mp htext
      · exact wellFormed_of_clean h.1.2 text hnested
      · exact wellFormed_of_cleanFields h.2 text hrest

end

mutual

/-- The second value has the shape of the first, with its leaves sanitized. -/
def Kept : JsValue → JsValue → Prop
  | .str text, w => w = .str (sanitizeUtf16ForJson text)
  | .arr items, w => ∃ items', w = .arr items' ∧ KeptItems items items'
  | .obj fields, w => ∃ fields', w = .obj fields' ∧ (keys fields').Nodup ∧ KeptFields fields fields'
  | v, w => w = v

def KeptItems : List JsValue → List JsValue → Prop
  | [], items' => items' = []
  | v :: items, items' => ∃ w rest, items' = w :: rest ∧ Kept v w ∧ KeptItems items rest

/-- A property for each, whose key is the sanitized one or a numbered form of it. -/
def KeptFields : List (Text × JsValue) → List (Text × JsValue) → Prop
  | [], fields' => fields' = []
  | (k, v) :: fields, fields' =>
    ∃ n w rest, fields' = (keyOf (sanitizeUtf16ForJson k, n), w) :: rest ∧ Kept v w ∧
      KeptFields fields rest

end

mutual

/-- No key is the prototype's, and none is, sanitized, the numbered form of one that repeats. -/
def Separate : JsValue → Prop
  | .arr items => SeparateItems items
  | .obj fields => protoKey ∉ keys fields ∧ Apart (safeKeys fields) ∧ SeparateFields fields
  | _ => True

def SeparateItems : List JsValue → Prop
  | [] => True
  | item :: items => Separate item ∧ SeparateItems items

def SeparateFields : List (Text × JsValue) → Prop
  | [] => True
  | (_, nested) :: fields => Separate nested ∧ SeparateFields fields

end

theorem length_of_keptFields {fields fields' : Fields} (h : KeptFields fields fields') :
    fields'.length = fields.length := by
  induction fields generalizing fields' with
  | nil =>
    rw [h]
  | cons field fields ih =>
    obtain ⟨key, nested⟩ := field
    obtain ⟨n, w, rest, rfl, -, hrest⟩ := h
    rw [length_cons, length_cons, ih hrest]

mutual

theorem kept_iff : ∀ value : JsValue, Kept value (sanitizeJsonValue value) ↔ Separate value
  | .null => iff_of_true rfl trivial
  | .bool _ => iff_of_true rfl trivial
  | .num _ => iff_of_true rfl trivial
  | .str _ => iff_of_true rfl trivial
  | .arr items => by
    refine Iff.trans ?_ (keptItems_iff items)
    constructor
    · rintro ⟨items', hitems, hkept⟩
      rw [JsValue.arr.inj hitems]
      exact hkept
    · exact fun hkept => ⟨_, rfl, hkept⟩
  | .obj fields => by
    obtain ⟨-, hlength⟩ := assignAll_spec [] (entriesAfter [] fields)
    rw [proto_mem_entries_iff, length_nil, Nat.zero_add, length_entriesAfter] at hlength
    have hnodup : (keys (entriesAfter [] fields)).Nodup ↔ Apart (safeKeys fields) := by
      rw [keys_entriesAfter]
      exact nodup_assignedKeys_iff (safeKeys fields)
    rw [sanitize_obj]
    constructor
    · rintro ⟨fields', hsame, -, hkept⟩
      rw [← JsValue.obj.inj hsame] at hkept
      obtain ⟨hproto, hdistinct, hnew⟩ := hlength.mp (length_of_keptFields hkept)
      have hproto' : protoKey ∉ keys (entriesAfter [] fields) :=
        fun hmem => hproto ((proto_mem_entries_iff fields).mp hmem)
      rw [assignAll_eq hproto' hdistinct hnew, nil_append] at hkept
      exact ⟨hproto, hnodup.mp hdistinct, (keptFields_iff fields []).mp hkept⟩
    · rintro ⟨hproto, hapart, hfields⟩
      have hproto' : protoKey ∉ keys (entriesAfter [] fields) :=
        fun hmem => hproto ((proto_mem_entries_iff fields).mp hmem)
      have hdistinct := hnodup.mpr hapart
      refine ⟨entriesAfter [] fields, ?_, hdistinct, (keptFields_iff fields []).mpr hfields⟩
      rw [assignAll_eq hproto' hdistinct fun _ _ => not_mem_nil, nil_append]
  | .other _ => iff_of_true rfl trivial

theorem keptItems_iff : ∀ items : List JsValue, KeptItems items (sanitizeItems items) ↔ SeparateItems items
  | [] => iff_of_true rfl trivial
  | v :: items => by
    refine Iff.trans ?_ (and_congr (kept_iff v) (keptItems_iff items))
    constructor
    · rintro ⟨w, rest, hsame, hv, hrest⟩
      obtain ⟨rfl, rfl⟩ := cons.inj hsame
      exact ⟨hv, hrest⟩
    · exact fun ⟨hv, hrest⟩ => ⟨_, _, rfl, hv, hrest⟩

theorem keptFields_iff : ∀ (fields : Fields) (before : List Text),
    KeptFields fields (entriesAfter before fields) ↔ SeparateFields fields
  | [], _ => iff_of_true rfl trivial
  | (k, v) :: fields, before => by
    refine Iff.trans ?_ (and_congr (kept_iff v) (keptFields_iff fields (sanitizeUtf16ForJson k :: before)))
    constructor
    · rintro ⟨n, w, rest, hsame, hv, hrest⟩
      obtain ⟨hhead, rfl⟩ := cons.inj hsame
      rw [← (Prod.mk.inj hhead).2] at hv
      exact ⟨hv, hrest⟩
    · exact fun ⟨hv, hrest⟩ => ⟨_, _, _, rfl, hv, hrest⟩

end

structure Sanitized (value sanitized : JsValue) : Prop where
  kept : Kept value sanitized
  wellFormed : ∀ text ∈ sanitized.texts, WellFormed text
  again : sanitizeJsonValue sanitized = sanitized

/-- **Nothing is lost** exactly where the keys of each object stay separate. -/
theorem sanitized_iff (value : JsValue) : Sanitized value (sanitizeJsonValue value) ↔ Separate value := by
  have hclean := clean_sanitize value
  constructor
  · exact fun h => (kept_iff value).mp h.kept
  · exact fun h => ⟨(kept_iff value).mpr h, wellFormed_of_clean hclean, sanitize_of_clean hclean⟩

/-- Two keys that become the same, and one that is as the second of them is numbered. -/
def collidingFields : Fields :=
  [([unit 'a', 0xd83d], .bool true), ([unit 'a', 0xde00], .bool true),
    ([unit 'a', replacement] ++ lit "#2", .null)]

theorem collision_loses : sanitizeJsonValue (.obj collidingFields) =
      .obj [([unit 'a', replacement], .bool true), ([unit 'a', replacement] ++ lit "#2", .null)] := by
  rw [sanitize_obj]
  simp only [collidingFields, entriesAfter, sanitizeUtf16ForJson_eq]
  rfl

end ArdurBot.Core
