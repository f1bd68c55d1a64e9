import ArdurBot.Broker.Admitted
import ArdurBot.Lib.Table

/-!
# Where the two routes of the broker agree

Either route refuses what the other refuses, but for a request that has `max_completion_tokens`.
`refusals_translated` carries this: the checks read the fields of a request by their names, and the
body that the translated route gives `admittedBody` has the same fields under all names but that of
the output limit.
-/

namespace ArdurBot.Broker

open List Utf16 Json

def namedTools (fields : Fields) : List Text :=
  (itemsOf (fieldOf fields "tools")).map fun item => string (functionName item)

section

variable (pin : Pinned)

/-- The tools that the request names, the limit it asks for or one within the pinned, and a choice
of what is offered. -/
structure CallOk (fields : Fields) (call : ProviderCall) : Prop where
  tools : ∀ definition, definition ∈ call.tools ↔
    definition ∈ pin.allowed.definitions ∧ definition.name ∈ namedTools fields
  limited : bounded call.limit pin.connection.maxOutputTokens
  asked : ∀ key ∈ ["max_tokens", "max_completion_tokens"],
    bounded (fieldOf fields key) pin.connection.maxOutputTokens → call.limit = fieldOf fields key
  choice : isUndefined call.toolChoice ∨ (∃ word ∈ choiceWords, call.toolChoice = .str (lit word)) ∨
    ∃ definition ∈ call.tools, isText (functionName call.toolChoice) definition.name

/-- Both routes admit the request or neither does, and both then make a right call. -/
def RoutesAgree (input : JsValue) : Prop :=
  let passed := admittedBody pin input
  let translated := admittedTranslatedBody pin input
  ((∃ body, translated = .ok body) ↔ ∃ body, passed = .ok body) ∧
    ∀ fields body translatedBody, input = .obj fields → passed = .ok body → translated = .ok translatedBody →
      CallOk pin fields (passThroughCall body) ∧
        ∃ call, translatedCall pin translatedBody = some call ∧ CallOk pin fields call

def Admissible (fields : Fields) : Prop :=
  ∀ refusal ∈ refusals pin fields, refusal.2 = false

end

variable {pin : Pinned} {fields : Fields} {body : AdmittedBody}

theorem admittedBody_eq_ok : admittedBody pin (.obj fields) = .ok body ↔
    Admissible pin fields ∧ body = rewritten pin fields := by
  have hadmissible : Admissible pin fields ↔ (refusals pin fields).find? Prod.snd = none := by
    simp [Admissible, find?_eq_none]
  rw [admittedBody, hadmissible]
  cases (refusals pin fields).find? Prod.snd with
  | some refusal => simp
  | none => simp [eq_comm]

theorem bounded_default (pin : Pinned) : bounded (defaultLimit pin) pin.connection.maxOutputTokens := by
  have hlimit := pin.connection.limited
  have hpos := pin.connection.positive
  unfold maxToken at hlimit
  rw [defaultLimit, ofNat_eq (by omega)]
  simp only [bounded, Evidence.isSafeInteger, Rat.den_natCast, Rat.num_natCast, Int.natAbs_natCast, Json.maxSafeInteger,
    Bool.and_eq_true, decide_eq_true_eq, Nat.cast_pos, le_refl, and_true]
  exact ⟨⟨trivial, decide_eq_true (by omega)⟩, hpos⟩

theorem fieldOf_setField (fields : Fields) (key other : String) (value : JsValue) :
    fieldOf (setField fields (lit key) value) other = if lit key = lit other then value
      else fieldOf fields other := by
  rw [fieldOf, getField_setField, apply_ite (Option.getD · undefined)]
  rfl

theorem fieldOf_of_not_own {key : String} (h : hasOwn fields key = false) :
    fieldOf fields key = undefined := by
  rw [fieldOf, getField_eq_none.mpr (of_decide_eq_false h)]
  rfl

theorem fieldOf_translated (heffort : fieldOf fields "reasoning_effort" = undefined) {key : String}
    (hkey : lit "max_tokens" ≠ lit key) : fieldOf (translatedFields pin fields) key = fieldOf fields key := by
  rw [translatedFields, fieldOf_setField, fieldOf_setField, if_neg hkey, fieldOf_setField]
  split
  · next heq =>
    rw [fieldOf, ← heq]
    exact heffort.symm
  · split
    · next heq => rw [fieldOf, fieldOf, heq]
    · rfl

theorem hasOwn_translated (key : String) : hasOwn (translatedFields pin fields) key =
    (hasOwn fields key || decide (lit key ∈ [lit "stream_options", lit "max_tokens", lit "reasoning_effort"])) := by
  simp only [hasOwn, translatedFields, mem_keys_setField, mem_cons, not_mem_nil, or_false]
  grind

theorem fieldOf_translated_max : fieldOf (translatedFields pin fields) "max_tokens" =
    if hasOwn fields "max_tokens" then fieldOf fields "max_tokens"
    else if hasOwn fields "max_completion_tokens" then undefined else defaultLimit pin := by
  rw [translatedFields, fieldOf_setField, if_neg (by decide), fieldOf_setField, if_pos rfl]

/-- The body that the translated route checks always has `max_tokens`. -/
theorem outputRefused_translated (heffort : fieldOf fields "reasoning_effort" = undefined) :
    outputRefused pin.connection.maxOutputTokens (translatedFields pin fields) =
      (outputRefused pin.connection.maxOutputTokens fields || hasOwn fields "max_completion_tokens") := by
  have hcompletion : hasOwn (translatedFields pin fields) "max_completion_tokens" =
      hasOwn fields "max_completion_tokens" := by
    rw [hasOwn_translated]
    exact Bool.or_false _
  have hmax : hasOwn (translatedFields pin fields) "max_tokens" := by
    rw [hasOwn_translated]
    exact Bool.or_true _
  have hdefault := bounded_default pin
  rw [outputRefused, outputRefused, hcompletion, hmax, fieldOf_translated_max,
    fieldOf_translated heffort (by decide)]
  cases hasOwn fields "max_tokens" <;> cases hasOwn fields "max_completion_tokens" <;> simp [hdefault]

theorem unknownField_translated :
    (unknownField (translatedFields pin fields)).isSome = (unknownField fields).isSome := by
  have hown : ∀ key ∈ [lit "stream_options", lit "max_tokens", lit "reasoning_effort"],
      key ∈ admittedFields.map lit := by
    decide
  rw [Bool.eq_iff_iff, unknownField, unknownField, find?_isSome, find?_isSome]
  simp only [translatedFields, mem_keys_setField, decide_eq_true_eq]
  grind

theorem admissible_translated (heffort : fieldOf fields "reasoning_effort" = undefined) :
    Admissible pin (translatedFields pin fields) ↔
      Admissible pin fields ∧ hasOwn fields "max_completion_tokens" = false := by
  have hfield := @fieldOf_translated pin fields heffort
  simp only [Admissible, refusals, forall_mem_cons, not_mem_nil, false_imp_iff, implies_true, and_true,
    unknownField_translated, outputRefused_translated heffort, Bool.or_eq_false_iff]
  simp (disch := decide) only [hfield]
  constructor
  · rintro ⟨hunknown, hmodel, hmessages, hstream, hoptions, hparallel, htemperature, htop, hstop,
      ⟨houtput, hasked⟩, hrest⟩
    exact ⟨⟨hunknown, hmodel, hmessages, hstream, hoptions, hparallel, htemperature, htop, hstop,
      houtput, hrest⟩, hasked⟩
  · rintro ⟨⟨hunknown, hmodel, hmessages, hstream, hoptions, hparallel, htemperature, htop, hstop,
      houtput, hrest⟩, hasked⟩
    exact ⟨hunknown, hmodel, hmessages, hstream, hoptions, hparallel, htemperature, htop, hstop,
      ⟨houtput, hasked⟩, hrest⟩

theorem isText_iff {value : JsValue} {text : Text} : isText value text ↔ value = .str text := by
  cases value <;> simp [isText]

theorem has_iff {name : JsValue} : pin.allowed.has name ↔ ∃ definition ∈ pin.allowed.definitions,
    name = .str definition.name := by
  cases name with
  | str name =>
    simp only [Catalog.has, readText, Option.any_some, Catalog.get, find?_isSome, decide_eq_true_eq,
      JsValue.str.injEq]
    exact exists_congr fun _ => and_congr_right fun _ => eq_comm
  | _ => simp [Catalog.has, readText]

theorem mem_selected {definition : Definition} : definition ∈ selected pin fields ↔
    definition ∈ pin.allowed.definitions ∧ definition.name ∈ namedTools fields := by
  have hget : ∀ name, pin.allowed.get name = some definition ↔
      definition ∈ pin.allowed.definitions ∧ definition.name = name :=
    fun name => Table.find_eq_some pin.allowed.distinct
  simp only [selected, namedTools, mem_filterMap, mem_map, hget]
  grind

/-- The limit of an admitted body is the one that the request asks for, or the pinned one. -/
theorem limit_rewritten (h : outputRefused pin.connection.maxOutputTokens fields = false) :
    bounded (rewritten pin fields).limit pin.connection.maxOutputTokens ∧
      ∀ key ∈ ["max_tokens", "max_completion_tokens"], bounded (fieldOf fields key) pin.connection.maxOutputTokens →
        (rewritten pin fields).limit = fieldOf fields key := by
  have hgiven : ∀ value, bounded value pin.connection.maxOutputTokens →
      (isNull value || isUndefined value) = false := by
    intro value hvalue
    cases value with
    | num => rfl
    | _ => cases hvalue
  have hdefault := bounded_default pin
  unfold outputRefused at h
  simp only [forall_mem_cons, not_mem_nil, false_imp_iff, implies_true, and_true]
  cases hmax : hasOwn fields "max_tokens" with
  | false =>
    rw [fieldOf_of_not_own hmax]
    cases hcompletion : hasOwn fields "max_completion_tokens" with
    | false =>
      have hlimit : (rewritten pin fields).limit = defaultLimit pin := by
        simp [AdmittedBody.limit, rewritten, hmax, hcompletion, hgiven _ hdefault]
      rw [hlimit, fieldOf_of_not_own hcompletion]
      exact ⟨hdefault, nofun, nofun⟩
    | true =>
      have hlimit : (rewritten pin fields).limit = fieldOf fields "max_completion_tokens" := by
        simp [AdmittedBody.limit, rewritten, hmax, hcompletion, fieldOf_of_not_own hmax, isUndefined, undefined]
      rw [hlimit]
      exact ⟨by simpa [hmax, hcompletion] using h, nofun, fun _ => rfl⟩
  | true =>
    cases hcompletion : hasOwn fields "max_completion_tokens" with
    | true => simp [hmax, hcompletion] at h
    | false =>
      have hbounded : bounded (fieldOf fields "max_tokens") pin.connection.maxOutputTokens := by
        simpa [hmax, hcompletion] using h
      have hlimit : (rewritten pin fields).limit = fieldOf fields "max_tokens" := by
        simp [AdmittedBody.limit, rewritten, hmax, hcompletion, hgiven _ hbounded]
      rw [hlimit, fieldOf_of_not_own hcompletion]
      exact ⟨hbounded, fun _ => rfl, nofun⟩

theorem numberToString_ne (n : JsNumber) {word : String} (hword : word ∈ choiceWords) :
    numberToString n ≠ lit word := by
  have hnot : ∀ word ∈ choiceWords, ∀ other ∈ ["NaN", "-Infinity", "Infinity", "0"], lit other ≠ lit word := by decide
  intro heq
  cases n with
  | nan | negZero => exact hnot word hword _ (by simp) heq
  | infinity negative => cases negative <;> exact hnot word hword _ (by simp) heq
  | finite x =>
    have hnone : ∀ word ∈ choiceWords, parseNumber (lit word) = none := by decide
    have hread := @parseNumber_doubleToString [] x nofun
    rw [append_nil, show doubleToString x = lit word from heq, hnone word hword] at hread
    cases hread

/-- Of what a request may give for one of the words, only an array is not that word. -/
theorem oneOf_choiceWords {choice : JsValue} (h : oneOf choice choiceWords) :
    isArray choice ∨ ∃ word ∈ choiceWords, choice = .str (lit word) := by
  have hnot : ∀ word ∈ choiceWords, ∀ other ∈ ["null", "true", "false", "[object Object]", "undefined"],
      lit word ≠ lit other := by decide
  obtain ⟨word, hword, hstring⟩ := mem_map.mp (contains_iff_mem.mp h)
  cases choice with
  | arr => exact .inl rfl
  | str text => exact .inr ⟨word, hword, congrArg JsValue.str hstring.symm⟩
  | num n => exact absurd hstring.symm (numberToString_ne n hword)
  | bool b => cases b <;> exact absurd hstring (hnot word hword _ (by simp))
  | null | obj | other => exact absurd hstring (hnot word hword _ (by simp))

theorem outputRefused_of_admissible (h : Admissible pin fields) :
    outputRefused pin.connection.maxOutputTokens fields = false :=
  h (lit "output-tokens", outputRefused pin.connection.maxOutputTokens fields) (by simp [refusals])

/-- The tool choice of an admitted request is one of the words or a tool it names, unless it is an
array. -/
theorem choice_passed (h : Admissible pin fields) (harray : isArray (fieldOf fields "tool_choice") = false) :
    isUndefined (fieldOf fields "tool_choice") ∨
      (∃ word ∈ choiceWords, fieldOf fields "tool_choice" = .str (lit word)) ∨
      ∃ definition ∈ selected pin fields, isText (functionName (fieldOf fields "tool_choice")) definition.name := by
  simp only [Admissible, refusals, forall_mem_cons] at h
  obtain ⟨-, -, -, -, -, -, -, -, -, -, -, hchoice, -, -, -, hoffered, -⟩ := h
  generalize fieldOf fields "tool_choice" = choice at *
  have hcases : isUndefined choice ∨ oneOf choice choiceWords ∨ validChoice pin.allowed choice := by
    revert hchoice
    cases isUndefined choice <;> cases oneOf choice choiceWords <;> simp
  obtain hundefined | hword | hvalid := hcases
  · exact .inl hundefined
  · exact .inr (.inl ((oneOf_choiceWords hword).resolve_left (by simp [harray])))
  · obtain ⟨definition, hmem, hname⟩ := has_iff.mp (Bool.and_eq_true_iff.mp hvalid).2
    rw [hname] at hoffered
    have hnamed : ((itemsOf (fieldOf fields "tools")).any fun item =>
        isText (functionName item) definition.name) := by
      simpa [readText] using hoffered
    obtain ⟨item, hitem, hsame⟩ := any_eq_true.mp hnamed
    refine .inr (.inr ⟨definition, mem_selected.mpr ⟨hmem, mem_map.mpr ⟨item, hitem, ?_⟩⟩, isText_iff.mpr hname⟩)
    rw [isText_iff.mp hsame]
    rfl

theorem admittedTranslatedBody_eq_ok (heffort : fieldOf fields "reasoning_effort" = undefined) :
    admittedTranslatedBody pin (.obj fields) = .ok body ↔
      (Admissible pin fields ∧ hasOwn fields "max_completion_tokens" = false) ∧
        body = rewritten pin (translatedFields pin fields) := by
  rw [← admissible_translated heffort, ← admittedBody_eq_ok, admittedTranslatedBody, heffort]
  cases admittedBody pin (.obj (translatedFields pin fields)) <;> exact Iff.rfl

theorem callOk_passed (h : Admissible pin fields) (harray : isArray (fieldOf fields "tool_choice") = false) :
    CallOk pin fields (passThroughCall (rewritten pin fields)) := by
  have hlimit := limit_rewritten (outputRefused_of_admissible h)
  exact ⟨fun definition => mem_selected, hlimit.1, hlimit.2, choice_passed h harray⟩

theorem callOk_translated (heffort : fieldOf fields "reasoning_effort" = undefined)
    (h : Admissible pin fields) (hasked : hasOwn fields "max_completion_tokens" = false)
    (hnamed : ∀ definition ∈ pin.allowed.definitions, definition.name ∈ namedTools fields) :
    CallOk pin fields ⟨pin.allowed.definitions, undefined, (rewritten pin (translatedFields pin fields)).limit⟩ := by
  have hlimit := limit_rewritten (outputRefused_of_admissible ((admissible_translated heffort).mpr ⟨h, hasked⟩))
  refine ⟨fun definition => ⟨fun hmem => ⟨hmem, hnamed definition hmem⟩, And.left⟩, hlimit.1, ?_, .inl rfl⟩
  intro key hkey hbounded
  have hsame : fieldOf (translatedFields pin fields) key = fieldOf fields key := by
    by_cases hmax : lit "max_tokens" = lit key
    · cases hown : hasOwn fields "max_tokens" with
      | false =>
        rw [fieldOf, ← hmax, ← fieldOf, fieldOf_of_not_own hown] at hbounded
        cases hbounded
      | true =>
        have hgiven := @fieldOf_translated_max pin fields
        rw [hown, if_pos rfl, fieldOf, fieldOf, hmax] at hgiven
        exact hgiven
    · exact fieldOf_translated heffort hmax
  rw [← hsame] at hbounded ⊢
  exact hlimit.2 key hkey hbounded

/-- The two routes agree on a request that fails a check, and on one that has no
`max_completion_tokens`, no array for a tool choice and no image to fetch, and that names every tool
of the lease. -/
theorem routes_agree (pin : Pinned) (input : JsValue)
    (heffort : memberOf input "reasoning_effort" = undefined) : RoutesAgree pin input ↔
      ∀ fields, input = .obj fields → Admissible pin fields →
        hasOwn fields "max_completion_tokens" = false ∧ isArray (fieldOf fields "tool_choice") = false ∧
          (∀ definition ∈ pin.allowed.definitions, definition.name ∈ namedTools fields) ∧
          (itemsOf (fieldOf fields "messages")).all inlineImages = true := by
  cases input with
  | obj fields =>
    constructor
    · rintro ⟨hsame, hcalls⟩ _ ⟨⟩ hadmissible
      have hpassed := admittedBody_eq_ok.mpr ⟨hadmissible, rfl⟩
      obtain ⟨body, htranslated⟩ := hsame.mpr ⟨_, hpassed⟩
      obtain ⟨⟨-, hasked⟩, rfl⟩ := (admittedTranslatedBody_eq_ok heffort).mp htranslated
      obtain ⟨hok, call, hcall, htools⟩ := hcalls _ _ _ rfl hpassed htranslated
      rw [translatedCall, Option.ite_none_right_eq_some] at hcall
      obtain ⟨himages, hcall⟩ := hcall
      obtain rfl := Option.some.inj hcall
      refine ⟨hasked, ?_, fun definition hmem => ((htools.tools definition).mp hmem).2, ?_⟩
      · cases hchoice : fieldOf fields "tool_choice" with
        | arr items =>
          have hcalled : (passThroughCall (rewritten pin fields)).toolChoice = .arr items := hchoice
          have hnot := hok.choice
          rw [hcalled] at hnot
          obtain hnot | ⟨_, -, hnot⟩ | ⟨_, -, hnot⟩ := hnot <;> cases hnot
        | _ => rfl
      · rwa [rewritten, fieldOf_translated heffort (by decide)] at himages
    · intro h
      refine ⟨?_, ?_⟩
      · simp only [admittedTranslatedBody_eq_ok heffort, admittedBody_eq_ok, exists_and_left, exists_eq, and_true]
        exact ⟨And.left, fun hadmissible => ⟨hadmissible, (h fields rfl hadmissible).1⟩⟩
      · rintro _ body translatedBody ⟨⟩ hpassed htranslated
        obtain ⟨hadmissible, rfl⟩ := admittedBody_eq_ok.mp hpassed
        obtain ⟨-, rfl⟩ := (admittedTranslatedBody_eq_ok heffort).mp htranslated
        obtain ⟨hasked, harray, hnamed, himages⟩ := h fields rfl hadmissible
        refine ⟨callOk_passed hadmissible harray, _, if_pos ?_, callOk_translated heffort hadmissible hasked hnamed⟩
        rw [rewritten, fieldOf_translated heffort (by decide)]
        exact himages
  | _ => exact ⟨fun _ _ heq => (nomatch heq),
    fun _ => ⟨⟨fun ⟨_, h⟩ => (nomatch h), fun ⟨_, h⟩ => (nomatch h)⟩,
      fun _ _ _ heq => (nomatch heq)⟩⟩

def plainPin : Pinned where
  connection :=
    { modelId := lit "m", maxOutputTokens := 8, acceptsImages := false,
      supportsDeveloperRole := false, effortField := .none
      supportedEfforts := [lit "off"], positive := by decide, limited := by decide }
  effort := lit "off"
  allowed := ⟨[], nodup_nil⟩

def plainFields : Fields :=
  [(lit "model", .str (lit "m")),
    (lit "messages", .arr [.obj [(lit "role", .str (lit "user")), (lit "content", .str (lit "hi"))]])]

def fiveTokens : JsValue := .num (.finite ⟨(5 : ℕ), roundNearest_natCast (by decide)⟩)

/-- A lease of two tools. -/
def toolPin : Pinned where
  __ := plainPin
  allowed :=
    { definitions := [⟨lit "read", [], []⟩, ⟨lit "write", lit "Writes a file", []⟩]
      distinct := by decide }

def namedFunction (name : String) (more : Fields) : JsValue :=
  .obj [(lit "type", .str (lit "function")), (lit "function", .obj ((lit "name", .str (lit name)) :: more))]

/-- Both tools, one of them as the choice, and at most five tokens. -/
def toolFields : Fields :=
  plainFields ++
    [(lit "tools", .arr [namedFunction "write" [(lit "strict", .bool true)], namedFunction "read" []]),
      (lit "tool_choice", namedFunction "write" []), (lit "max_tokens", fiveTokens)]

theorem routes_agree_tools : Admissible toolPin toolFields ∧ RoutesAgree toolPin (.obj toolFields) := by
  refine ⟨by unfold Admissible; decide +kernel, (routes_agree toolPin _ rfl).mpr ?_⟩
  rintro _ ⟨⟩ -
  decide +kernel

/-- A request for at most five tokens. -/
def cappedFields : Fields := plainFields ++ [(lit "max_completion_tokens", fiveTokens)]

theorem capped_routes_differ : ¬RoutesAgree plainPin (.obj cappedFields) := by
  intro h
  have hadmissible : Admissible plainPin cappedFields := by
    unfold Admissible
    decide +kernel
  obtain ⟨body, htranslated⟩ := h.1.mpr ⟨_, admittedBody_eq_ok.mpr ⟨hadmissible, rfl⟩⟩
  have hasked := ((admittedTranslatedBody_eq_ok (by rfl)).mp htranslated).1.2
  exact absurd hasked (by decide)

end ArdurBot.Broker
