import ArdurBot.Lib.Checked
import ArdurBot.Lib.Json.Print
import ArdurBot.Lib.Sorted

/-!
# Canonical JSON

`canonicalize` of `packages/evidence/src/jcs.ts`: RFC 8785 with the safe-integer restriction, for a
value of any kind, so that most of it is what the encoder refuses.

`canonical v` is the value with its properties sorted and one zero. The canonical text of `v` is the
printed text of `canonical v`, so parsing it gives `canonical v` back, and that has the same
canonical text again.
-/

namespace ArdurBot.Evidence

open List Utf16 Json Sorted Bool
open Checked (bind_eq_ok)

def serializeString (value : Text) : Except Text Text :=
  if wellFormed value then .ok (quote value) else .error (lit "Lone surrogate")

def isFinite : JsNumber → Bool
  | .finite _ => true
  | .negZero => true
  | _ => false

def isInteger : JsNumber → Bool
  | .finite x => x.val.den = 1
  | .negZero => true
  | _ => false

def isSafeInteger : JsNumber → Bool
  | .finite x => x.val.den = 1 && x.val.num.natAbs ≤ maxSafeInteger
  | .negZero => true
  | _ => false

/-- `JSON.stringify` of a number is its text, or `null` for one that is not finite. -/
def encodeNumber (value : JsNumber) : Except Text Text :=
  let encoded := numberToString value
  if !isFinite value then .error (lit "Non-finite number")
  else if isInteger value && !isSafeInteger value && !encoded.contains (unit 'e') then
    .error (lit "Unsafe integer")
  else .ok encoded

/-- `key:value`, the value's own encoding having been tried. -/
def encodeEntry (entry : Text × Except Text Text) : Except Text Text := do
  let key ← serializeString entry.1
  let value ← entry.2
  return key ++ unit ':' :: value

def commaSeparated (entries : List Text) : Text := [unit ','].intercalate entries

mutual

def encode : JsValue → Except Text Text
  | .null => .ok (lit "null")
  | .str text => serializeString text
  | .bool b => .ok (if b then lit "true" else lit "false")
  | .num n => encodeNumber n
  | .other reason => .error reason
  | .arr items =>
    match encodeItems items with
    | .ok entries => .ok (unit '[' :: (commaSeparated entries ++ [unit ']']))
    | .error e => .error e
  | .obj fields =>
    match (sortByKey Prod.fst (encodeFields fields)).mapM encodeEntry with
    | .ok entries => .ok (unit '{' :: (commaSeparated entries ++ [unit '}']))
    | .error e => .error e

def encodeItems : List JsValue → Except Text (List Text)
  | [] => .ok []
  | v :: rest =>
    match encode v with
    | .ok entry =>
      match encodeItems rest with
      | .ok entries => .ok (entry :: entries)
      | .error e => .error e
    | .error e => .error e

def encodeFields : List (Text × JsValue) → List (Text × Except Text Text)
  | [] => []
  | (k, v) :: rest => (k, encode v) :: encodeFields rest

end

def canonicalize (value : JsValue) : Except Text Text := encode value

mutual

def canonical : JsValue → JsValue
  | .num .negZero => .num (.finite zeroDouble)
  | .arr items => .arr (canonicalItems items)
  | .obj fields => .obj (sortByKey Prod.fst (canonicalFields fields))
  | v => v

def canonicalItems : List JsValue → List JsValue
  | [] => []
  | v :: rest => canonical v :: canonicalItems rest

def canonicalFields : List (Text × JsValue) → List (Text × JsValue)
  | [] => []
  | (k, v) :: rest => (k, canonical v) :: canonicalFields rest

end

theorem canonicalItems_eq (items : List JsValue) : canonicalItems items = items.map canonical := by
  induction items with
  | nil => rfl
  | cons v items ih => rw [canonicalItems, ih, map_cons]

theorem canonicalFields_eq (fields : Fields) :
    canonicalFields fields = fields.map fun field => (field.1, canonical field.2) := by
  induction fields with
  | nil => rfl
  | cons field fields ih =>
    obtain ⟨k, v⟩ := field
    rw [canonicalFields, ih, map_cons]

theorem encodeFields_eq (fields : Fields) :
    encodeFields fields = fields.map fun field => (field.1, encode field.2) := by
  induction fields with
  | nil => rfl
  | cons field fields ih =>
    obtain ⟨k, v⟩ := field
    rw [encodeFields, ih, map_cons]

variable {a b t text : Text} {u : CodeUnit} {items : List JsValue}

theorem commaSeparated_cons (entry : Text) {entries : List Text} (h : entries ≠ []) :
    commaSeparated (entry :: entries) = entry ++ unit ',' :: commaSeparated entries := by
  obtain ⟨next, rest, rfl⟩ := exists_cons_of_ne_nil h
  simp [commaSeparated, intercalate, intersperse]

theorem stringifyItems_eq (items : List JsValue) :
    stringifyItems items = commaSeparated (items.map JsValue.stringify) := by
  induction items with
  | nil => rfl
  | cons v items ih =>
    by_cases hlast : items = []
    · simp [hlast, stringifyItems, commaSeparated, intercalate]
    · rw [stringifyItems_cons hlast, ih, map_cons, commaSeparated_cons]
      simpa using hlast

def entryText (entry : Text × JsValue) : Text := quote entry.1 ++ unit ':' :: entry.2.stringify

theorem stringifyFields_eq (fields : Fields) :
    stringifyFields fields = commaSeparated (fields.map entryText) := by
  induction fields with
  | nil => rfl
  | cons entry fields ih =>
    obtain ⟨k, v⟩ := entry
    by_cases hlast : fields = []
    · simp [hlast, stringifyFields, commaSeparated, intercalate, entryText]
    · rw [stringifyFields_cons hlast, ih, map_cons, commaSeparated_cons, entryText,
        append_assoc, cons_append]
      simpa using hlast

theorem wellFormed_commaSeparated {entries : List Text} (h : ∀ t ∈ entries, WellFormed t) :
    WellFormed (commaSeparated entries) := by
  induction entries with
  | nil => rfl
  | cons t entries ih =>
    have ht := h t mem_cons_self
    by_cases hlast : entries = []
    · simpa [hlast, commaSeparated, intercalate] using ht
    · have hcomma : WellFormed [unit ','] := by decide
      rw [commaSeparated_cons t hlast]
      exact ht.append (hcomma.append (ih fun s hs => h s (mem_cons_of_mem t hs)))

theorem escapeUnit_of_surrogate (h : isHigh u ∨ isLow u) : escapeUnit u = [u] := by
  have hlarge : ∀ v : CodeUnit, isHigh v = false → isLow v = false → u ≠ v := by
    rintro v hv hw rfl
    simp [hv, hw] at h
  have hnot : ¬ u < 32 := by
    rw [UInt16.lt_iff_toNat_lt]
    show ¬ u.toNat < 32
    rw [isHigh_iff, isLow_iff] at h
    omega
  rw [escapeUnit, if_neg (hlarge _ (by decide) (by decide)), if_neg (hlarge _ (by decide) (by decide)),
    if_neg (hlarge _ (by decide) (by decide)), if_neg (hlarge _ (by decide) (by decide)),
    if_neg (hlarge _ (by decide) (by decide)), if_neg (hlarge _ (by decide) (by decide)),
    if_neg (hlarge _ (by decide) (by decide)), if_neg hnot]

theorem wellFormed_quote (h : WellFormed text) : WellFormed (quote text) := by
  have hquote : WellFormed [unit '"'] := by decide
  have hescaped : WellFormed (text.flatMap escapeUnit) := by
    induction text using wellFormed.induct with
    | case1 => rfl
    | case2 u =>
      simp only [WellFormed, wellFormed, and_eq_true, not_eq_true'] at h
      simpa using wellFormed_escapeUnit h.1 h.2
    | case3 u v rest hu ih =>
      rw [WellFormed, wellFormed, if_pos hu, and_eq_true] at h
      rw [flatMap_cons, flatMap_cons, escapeUnit_of_surrogate (.inl hu), escapeUnit_of_surrogate (.inr h.1)]
      have hpair : WellFormed [u, v] := by simp [WellFormed, wellFormed, hu, h.1]
      exact hpair.append (ih h.2)
    | case4 u v rest hu ih =>
      rw [WellFormed, wellFormed, if_neg hu, and_eq_true, not_eq_true'] at h
      rw [flatMap_cons]
      exact (wellFormed_escapeUnit (by simpa using hu) h.1).append (ih h.2)
  exact hquote.append (hescaped.append hquote)

section

variable {α β : Type} {f : α → Except Text β} {l : List α} {r : List β}

private theorem mapM_eq_ok (h : l.mapM f = .ok r) : List.Forall₂ (fun a b => f a = .ok b) l r := by
  induction l generalizing r with
  | nil =>
    simp only [mapM_nil, pure, Except.pure, Except.ok.injEq] at h
    exact h ▸ .nil
  | cons a l ih =>
    rw [mapM_cons, bind_eq_ok] at h
    obtain ⟨b, ha, h⟩ := h
    obtain ⟨bs, hl, h⟩ := bind_eq_ok.mp h
    exact Except.ok.inj h ▸ .cons ha (ih hl)

private theorem mapM_of_forall₂ (h : List.Forall₂ (fun a b => f a = .ok b) l r) : l.mapM f = .ok r := by
  induction h with
  | nil => rfl
  | cons ha _ ih => simp [mapM_cons, ha, ih, bind, Except.bind, pure, Except.pure]

end

theorem encodeItems_eq_ok {entries : List Text} :
    encodeItems items = .ok entries ↔ List.Forall₂ (fun v t => encode v = .ok t) items entries := by
  induction items generalizing entries with
  | nil => simp [encodeItems, eq_comm]
  | cons v items ih =>
    rw [encodeItems]
    cases hv : encode v with
    | error e =>
      simp only [forall₂_cons_left_iff, reduceCtorEq, false_iff, not_exists]
      intro t rest hboth
      simp [hv] at hboth
    | ok t =>
      cases hitems : encodeItems items with
      | error e =>
        simp only [forall₂_cons_left_iff, reduceCtorEq, false_iff, not_exists]
        intro s rest hboth
        have := ih.mpr hboth.2.1
        simp [hitems] at this
      | ok rest =>
        simp only [Except.ok.injEq, forall₂_cons_left_iff, hv]
        constructor
        · intro heq
          exact ⟨t, rest, rfl, ih.mp hitems, heq.symm⟩
        · rintro ⟨s, more, hs, hmore, rfl⟩
          have hrest : rest = more := by simpa [hitems] using ih.mpr hmore
          rw [hs, hrest]

theorem encodeEntry_eq_ok {entry : Text × Except Text Text} : encodeEntry entry = .ok t ↔
      WellFormed entry.1 ∧ ∃ value, entry.2 = .ok value ∧ t = quote entry.1 ++ unit ':' :: value := by
  obtain ⟨k, r⟩ := entry
  rw [encodeEntry, serializeString]
  by_cases hk : WellFormed k
  · cases r with
    | error e => simp [hk, bind, Except.bind]
    | ok value => simp [hk, bind, Except.bind, pure, Except.pure, eq_comm]
  · simp [hk, bind, Except.bind]

/-- What it means that `t` is the canonical text of `v`. -/
structure CanonicalText (v : JsValue) (t : Text) : Prop where
  printed : t = (canonical v).stringify
  plain : (canonical v).Plain
  stable : canonicalize (canonical v) = .ok t
  wellFormed : WellFormed t

theorem CanonicalText.parses {v : JsValue} (h : CanonicalText v t) : parse t = some (canonical v) := by
  rw [h.printed]
  exact parse_stringify h.plain

theorem canonicalText_str (h : serializeString text = .ok t) : CanonicalText (.str text) t := by
  have hok := h
  rw [serializeString] at h
  split at h
  · next hwf =>
    cases h
    exact ⟨rfl, trivial, hok, wellFormed_quote hwf⟩
  · simp at h

theorem canonicalText_num {n : JsNumber} (h : encodeNumber n = .ok t) : CanonicalText (.num n) t := by
  have hok := h
  rw [encodeNumber] at h
  cases n with
  | nan | infinity => simp [isFinite] at h
  | negZero =>
    have ht : t = lit "0" := by
      simp only [isFinite, isInteger, isSafeInteger, Bool.not_true, Bool.and_false, Bool.false_and,
        false_eq_true, if_false, Except.ok.injEq] at h
      exact h.symm
    have hzero : numberToString (.finite zeroDouble) = lit "0" := by
      simp [numberToString, doubleToString, zeroDouble]
    refine ⟨?_, ⟨zeroDouble, rfl⟩, ?_, by rw [ht]; decide⟩
    · rw [ht, canonical, JsValue.stringify, hzero]
    · rw [ht, canonical, canonicalize, encode, encodeNumber, hzero]
      simp [isFinite, isInteger, isSafeInteger, zeroDouble]
  | finite x =>
    have ht : t = doubleToString x := by
      simp only [isFinite, Bool.not_true, false_eq_true, if_false] at h
      split at h
      · simp at h
      · exact (Except.ok.inj h).symm
    refine ⟨ht, ⟨x, rfl⟩, hok, ?_⟩
    rw [ht]
    exact wellFormed_of_not_surrogate fun u hu =>
      not_surrogate_of_lt ((isAscii_doubleToString x u hu).trans (by norm_num))

section

variable {α β : Type} {R : α → β → Prop} {l : List α} {r : List β} (h : List.Forall₂ R l r)
include h

private theorem exists_of_mem_right : ∀ b ∈ r, ∃ a ∈ l, R a b := by
  induction h with
  | nil => simp
  | cons hab _ ih =>
    intro b hb
    obtain rfl | hb := mem_cons.mp hb
    · exact ⟨_, mem_cons_self, hab⟩
    · obtain ⟨a, ha, hr⟩ := ih b hb
      exact ⟨a, mem_cons_of_mem _ ha, hr⟩

private theorem exists_of_mem_left : ∀ a ∈ l, ∃ b, R a b := by
  intro a ha
  obtain ⟨b, -, hb⟩ := exists_of_mem_right h.flip a ha
  exact ⟨b, hb⟩

end

theorem canonicalText_arr {entries : List Text} (h : List.Forall₂ CanonicalText items entries) :
    CanonicalText (.arr items) (unit '[' :: (commaSeparated entries ++ [unit ']'])) := by
  have hprinted : entries = (items.map canonical).map JsValue.stringify := by
    induction h with
    | nil => rfl
    | cons hv _ ih => rw [map_cons, map_cons, ← hv.printed, ← ih]
  have hstable : encodeItems (items.map canonical) = .ok entries := by
    rw [encodeItems_eq_ok, forall₂_map_left_iff]
    exact h.imp fun _ _ hv => hv.stable
  have hwf : ∀ t ∈ entries, WellFormed t := by
    intro t ht
    obtain ⟨v, -, hv⟩ := exists_of_mem_right h t ht
    exact hv.wellFormed
  refine ⟨?_, ?_, ?_, ?_⟩
  · rw [canonical, canonicalItems_eq, JsValue.stringify, stringifyItems_eq, ← hprinted]
  · rw [canonical, canonicalItems_eq]
    refine allItems_iff.mpr fun v hv => ?_
    obtain ⟨w, hw, rfl⟩ := mem_map.mp hv
    obtain ⟨t, ht⟩ := exists_of_mem_left h w hw
    exact ht.plain
  · rw [canonical, canonicalItems_eq, canonicalize, encode, hstable]
  · have hopen : WellFormed [unit '['] := by decide
    have hclose : WellFormed [unit ']'] := by decide
    exact hopen.append ((wellFormed_commaSeparated hwf).append hclose)

def CanonicalEntry (entry : Text × JsValue) (t : Text) : Prop :=
  WellFormed entry.1 ∧ ∃ value, CanonicalText entry.2 value ∧ t = quote entry.1 ++ unit ':' :: value

theorem canonicalText_obj {fields : Fields} (hkeys : (keys fields).Nodup) {entries : List Text}
    (h : List.Forall₂ CanonicalEntry (sortByKey Prod.fst fields) entries) :
    CanonicalText (.obj fields) (unit '{' :: (commaSeparated entries ++ [unit '}'])) := by
  have hcanonical : canonical (.obj fields) =
      .obj ((sortByKey Prod.fst fields).map fun entry => (entry.1, canonical entry.2)) := by
    rw [canonical, canonicalFields_eq, sortByKey_map_snd]
  have hprinted : entries =
      ((sortByKey Prod.fst fields).map fun entry => (entry.1, canonical entry.2)).map
      entryText := by
    rw [map_map]
    generalize sortByKey Prod.fst fields = sorted at h
    induction h with
    | nil => rfl
    | cons hentry _ ih =>
      obtain ⟨-, value, hvalue, rfl⟩ := hentry
      rw [map_cons, ← ih, Function.comp_apply, entryText, ← hvalue.printed]
  have hsorted : SortedByKey Prod.fst ((sortByKey Prod.fst fields).map fun entry =>
      (entry.1, encode (canonical entry.2))) :=
    (sortedByKey_sortByKey _ fields).map_snd fun v => encode (canonical v)
  have hstable : (sortByKey Prod.fst (encodeFields ((sortByKey Prod.fst fields).map fun entry =>
      (entry.1, canonical entry.2)))).mapM encodeEntry = .ok entries := by
    rw [encodeFields_eq, map_map]
    have hcomp : ((fun entry : Text × JsValue => (entry.1, encode entry.2)) ∘
        fun entry : Text × JsValue => (entry.1, canonical entry.2)) =
          fun entry => (entry.1, encode (canonical entry.2)) := rfl
    rw [hcomp, sortByKey_of_sorted hsorted]
    apply mapM_of_forall₂
    rw [forall₂_map_left_iff]
    refine h.imp fun entry t hentry => ?_
    obtain ⟨hwf, value, hvalue, rfl⟩ := hentry
    exact encodeEntry_eq_ok.mpr ⟨hwf, value, hvalue.stable, rfl⟩
  refine ⟨?_, ?_, ?_, ?_⟩
  · rw [hcanonical, JsValue.stringify, stringifyFields_eq, ← hprinted]
  · rw [hcanonical]
    refine ⟨?_, allFields_iff.mpr fun entry hentry => ?_⟩
    · have hperm : (keys (sortByKey Prod.fst fields)).Perm (keys fields) := (sortByKey_perm _ fields).map Prod.fst
      have hsame : keys ((sortByKey Prod.fst fields).map fun entry => (entry.1, canonical entry.2)) =
          keys (sortByKey Prod.fst fields) := by
        rw [Json.keys, Json.keys, map_map]
        rfl
      rw [hsame]
      exact hperm.nodup_iff.mpr hkeys
    · obtain ⟨before, hbefore, rfl⟩ := mem_map.mp hentry
      obtain ⟨t, -, value, hvalue, -⟩ := exists_of_mem_left h before hbefore
      exact hvalue.plain
  · rw [hcanonical, canonicalize, encode, hstable]
  · have hopen : WellFormed [unit '{'] := by decide
    have hclose : WellFormed [unit '}'] := by decide
    have hcolon : WellFormed [unit ':'] := by decide
    have hwf : ∀ t ∈ entries, WellFormed t := by
      intro t ht
      obtain ⟨entry, -, hkey, value, hvalue, rfl⟩ := exists_of_mem_right h t ht
      exact (wellFormed_quote hkey).append (hcolon.append hvalue.wellFormed)
    exact hopen.append ((wellFormed_commaSeparated hwf).append hclose)

mutual

theorem canonicalText : ∀ {v : JsValue} {t : Text}, v.WellKeyed → encode v = .ok t → CanonicalText v t
  | .null, t, _, h => by
    rw [encode] at h
    cases h
    exact ⟨rfl, trivial, rfl, by decide⟩
  | .bool b, t, _, h => by
    rw [encode] at h
    cases h
    refine ⟨rfl, trivial, rfl, ?_⟩
    cases b <;> decide
  | .num n, t, _, h => canonicalText_num h
  | .str text, t, _, h => canonicalText_str h
  | .arr items, t, hkeyed, h => by
    rw [encode] at h
    cases hitems : encodeItems items with
    | error e => simp [hitems] at h
    | ok entries =>
      simp only [hitems, Except.ok.injEq] at h
      rw [← h]
      exact canonicalText_arr (canonicalText_items hkeyed (encodeItems_eq_ok.mp hitems))
  | .obj fields, t, hkeyed, h => by
    rw [encode] at h
    rcases hfields : (sortByKey Prod.fst (encodeFields fields)).mapM encodeEntry with _ | entries
    · simp [hfields] at h
    simp only [hfields, Except.ok.injEq] at h
    rw [← h]
    rw [encodeFields_eq, sortByKey_map_snd] at hfields
    have hentries := forall₂_map_left_iff.mp (mapM_eq_ok hfields)
    clear hfields h
    have hmem : ∀ entry ∈ sortByKey Prod.fst fields, entry ∈ fields :=
      fun entry hentry => (sortByKey_perm _ fields).mem_iff.mp hentry
    refine canonicalText_obj hkeyed.1 ?_
    generalize sortByKey Prod.fst fields = sorted at hentries hmem
    induction hentries with
    | nil => exact .nil
    | cons hentry _ ih =>
      obtain ⟨hwf, value, hvalue, ht⟩ := encodeEntry_eq_ok.mp hentry
      refine .cons ⟨hwf, value, ?_, ht⟩ (ih fun e he => hmem e (mem_cons_of_mem _ he))
      exact canonicalText_fields hkeyed.2 (hmem _ mem_cons_self) hvalue
  | .other reason, t, _, h => by
    rw [encode] at h
    simp at h

theorem canonicalText_items : ∀ {items : List JsValue} {entries : List Text},
    AllItems (fun _ => True) True items → List.Forall₂ (fun v t => encode v = .ok t) items entries →
      List.Forall₂ CanonicalText items entries
  | [], _, _, h => by
    cases h
    exact .nil
  | v :: items, _, hkeyed, h => by
    cases h with
    | cons hv hitems => exact .cons (canonicalText hkeyed.1 hv) (canonicalText_items hkeyed.2 hitems)

theorem canonicalText_fields : ∀ {fields : Fields} {entry : Text × JsValue} {t : Text},
    AllFields (fun _ => True) True fields → entry ∈ fields → encode entry.2 = .ok t → CanonicalText entry.2 t
  | [], _, _, _, hmem, _ => by simp at hmem
  | (k, v) :: fields, entry, t, hkeyed, hmem, h => by
    obtain heq | hmem := mem_cons.mp hmem
    · rw [heq] at h ⊢
      exact canonicalText hkeyed.1 h
    · exact canonicalText_fields hkeyed.2 hmem h

end

/-- **Canonical JSON.** What is accepted parses to the canonical value, which has the same text. -/
theorem canonicalize_spec {v : JsValue} (hkeyed : v.WellKeyed) {t : Text} (h : canonicalize v = .ok t) :
    CanonicalText v t := canonicalText hkeyed h

end ArdurBot.Evidence
