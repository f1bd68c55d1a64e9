import ArdurBot.Evidence.Jcs
import ArdurBot.Lib.Json.Read

/-!
# What a request to the broker may ask for

`admittedBody` and `admittedTranslatedBody` of `packages/adapters/src/hermes-provider-broker.ts`,
and the call that either route makes of the body it admits. A field that is undefined reads like one
that is missing, although the body has it; nothing else in a request is not JSON data. What `open`
checks of both bodies afterwards (required context, bytes, reserved tokens) is left out, and of what
`piContext` makes of the messages all but its refusal of an image not inline.
-/

namespace ArdurBot.Broker

open List Utf16 Json

def undefined : JsValue := .other (lit "undefined")

def isUndefined : JsValue → Bool
  | .other _ => true
  | _ => false

def fieldOf (fields : Fields) (key : String) : JsValue := (getField fields (lit key)).getD undefined

def hasOwn (fields : Fields) (key : String) : Bool := decide (lit key ∈ keys fields)

/-- `object(value)?.[key]` -/
def memberOf (value : JsValue) (key : String) : JsValue :=
  match value with
  | .obj fields => fieldOf fields key
  | _ => undefined

/-- An object, with no other keys than these. -/
def onlyKeys (value : JsValue) (allowed : List String) : Bool := (readStrict allowed value).isSome

def isText (value : JsValue) (text : Text) : Bool :=
  match value with
  | .str other => other == text
  | _ => false

def isString (value : JsValue) : Bool := (readText value).isSome

def isBool (value : JsValue) (b : Bool) : Bool :=
  match value with
  | .bool other => other == b
  | _ => false

def isNull : JsValue → Bool
  | .null => true
  | _ => false

def isArray : JsValue → Bool
  | .arr _ => true
  | _ => false

def itemsOf : JsValue → List JsValue
  | .arr items => items
  | _ => []

mutual

/-- `String(value)` -/
def string : JsValue → Text
  | .null => lit "null"
  | .bool b => lit (if b then "true" else "false")
  | .num n => numberToString n
  | .str text => text
  | .arr items => [unit ','].intercalate (strings items)
  | .obj _ => lit "[object Object]"
  | .other _ => lit "undefined"

/-- The texts that `join` puts commas between. -/
def strings : List JsValue → List Text
  | [] => []
  | value :: rest => (if isNull value || isUndefined value then [] else string value) :: strings rest

end

def oneOf (value : JsValue) (words : List String) : Bool := (words.map lit).contains (string value)

def bounded (value : JsValue) (max : ℕ) : Bool :=
  match value with
  | .num (.finite x) => Evidence.isSafeInteger (.finite x) && decide (0 < x.val) && decide (x.val ≤ max)
  | _ => false

/-- A finite number from 0 to `max`. -/
def within (value : JsValue) (max : ℚ) : Bool :=
  match value with
  | .num (.finite x) => decide (0 ≤ x.val) && decide (x.val ≤ max)
  | .num .negZero => true
  | _ => false

structure Definition where
  name : Text
  /-- Empty where the catalog leaves it out. -/
  description : Text
  parameters : Fields

/-- What `catalog` builds of the lease's tools. -/
structure Catalog where
  definitions : List Definition
  distinct : (definitions.map Definition.name).Nodup

def Catalog.get (allowed : Catalog) (name : Text) : Option Definition :=
  allowed.definitions.find? fun definition => definition.name = name

def Catalog.has (allowed : Catalog) (name : JsValue) : Bool :=
  (readText name).any fun name => (allowed.get name).isSome

inductive EffortField where
  | reasoningEffort
  | none
  deriving DecidableEq

def maxToken : ℕ := 2147483647

/-- A connection that the broker's constructor accepts. -/
structure Connection where
  modelId : Text
  maxOutputTokens : ℕ
  acceptsImages : Bool
  supportsDeveloperRole : Bool
  effortField : EffortField
  supportedEfforts : List Text
  positive : 0 < maxOutputTokens
  limited : maxOutputTokens ≤ maxToken

def validPart (images : Bool) (part : JsValue) : Bool :=
  if isText (memberOf part "type") (lit "text") then onlyKeys part ["type", "text"] &&
    isString (memberOf part "text")
  else
    let image := memberOf part "image_url"
    isText (memberOf part "type") (lit "image_url") && images && onlyKeys part ["type", "image_url"] &&
      onlyKeys image ["url", "detail"] && (readText (memberOf image "url")).any (fun url => !(trim url).isEmpty) &&
      (isUndefined (memberOf image "detail") || oneOf (memberOf image "detail") ["auto", "low", "high"])

def validContent (content : JsValue) (images : Bool) : Bool :=
  match content with
  | .str _ => true
  | .arr parts => parts.length ≤ 64 && parts.all (validPart images)
  | _ => false

def validCall (allowed : Catalog) (call : JsValue) : Bool :=
  let fn := memberOf call "function"
  onlyKeys call ["id", "type", "function"] && isText (memberOf call "type") (lit "function") &&
    isString (memberOf call "id") && onlyKeys fn ["name", "arguments"] && allowed.has (memberOf fn "name") &&
    isString (memberOf fn "arguments")

def validMessage (images developer : Bool) (allowed : Catalog) (message : JsValue) : Bool :=
  let role := memberOf message "role"
  let content := memberOf message "content"
  let calls := memberOf message "tool_calls"
  let optionalText := fun key => isUndefined (memberOf message key) || isString (memberOf message key)
  oneOf role ["system", "developer", "user", "assistant", "tool"] &&
    !(isText role (lit "developer") && !developer) &&
    onlyKeys message ["role", "content", "name", "tool_call_id", "tool_calls", "refusal"] &&
    (validContent content images || isText role (lit "assistant") && isNull content && isArray calls ||
      isText role (lit "tool") && (isNull content || isUndefined content)) &&
    optionalText "name" && optionalText "tool_call_id" && optionalText "refusal" &&
    (isUndefined calls || isText role (lit "assistant") && isArray calls && (itemsOf calls).all (validCall allowed))

/-- `object(object(item)?.function)?.name` -/
def functionName (item : JsValue) : JsValue := memberOf (memberOf item "function") "name"

def validTools (allowed : Catalog) (seen : List Text) : List JsValue → Bool
  | [] => true
  | item :: rest =>
    onlyKeys item ["type", "function"] && isText (memberOf item "type") (lit "function") &&
      onlyKeys (memberOf item "function") ["name", "description", "parameters", "strict"] &&
      allowed.has (functionName item) && !seen.contains (string (functionName item)) &&
      validTools allowed (string (functionName item) :: seen) rest

def choiceWords : List String := ["auto", "none", "required"]

def validChoice (allowed : Catalog) (choice : JsValue) : Bool :=
  onlyKeys choice ["type", "function"] && isText (memberOf choice "type") (lit "function") &&
    onlyKeys (memberOf choice "function") ["name"] && allowed.has (functionName choice)

def validStop (stop : JsValue) : Bool :=
  isString stop || isArray stop && (itemsOf stop).length ≤ 4 && (itemsOf stop).all isString

def admittedFields : List String :=
  ["model", "messages", "tools", "tool_choice", "stream", "stream_options", "max_tokens", "max_completion_tokens",
    "reasoning_effort", "temperature", "top_p", "stop", "parallel_tool_calls"]

/-- The unknown fields that have a refusal category of their own. -/
def knownFields : List String :=
  ["reasoning", "extra_body", "user", "seed", "n", "metadata", "prompt_cache_key",
    "response_format", "service_tier", "store"]

def unknownField (fields : Fields) : Option Text :=
  (keys fields).find? fun key => key ∉ admittedFields.map lit

def unknownCategory (field : Text) : Text :=
  if field ∈ knownFields.map lit then lit "unknown-field:" ++ field else lit "unknown-field"

/-- What a broker keeps for all of its requests. -/
structure Pinned where
  connection : Connection
  effort : Text
  allowed : Catalog

def wireEffort (pinnedEffort : Text) : Text :=
  if pinnedEffort = lit "off" then lit "none" else pinnedEffort

def outputRefused (max : ℕ) (fields : Fields) : Bool :=
  hasOwn fields "max_tokens" && hasOwn fields "max_completion_tokens" ||
    hasOwn fields "max_tokens" && !bounded (fieldOf fields "max_tokens") max ||
    hasOwn fields "max_completion_tokens" && !bounded (fieldOf fields "max_completion_tokens") max

section

variable (pin : Pinned)

def effortRefused (effort : JsValue) : Bool :=
  match pin.connection.effortField with
  | .none => pin.effort ≠ lit "off" || !isUndefined effort
  | .reasoningEffort => !isUndefined effort && !isText effort (wireEffort pin.effort)

/-- The checks in their order: the category, and whether the request is refused. -/
def refusals (fields : Fields) : List (Text × Bool) :=
  let get := fieldOf fields
  let optional := fun key (valid : JsValue → Bool) => !isUndefined (get key) && !valid (get key)
  [(unknownCategory ((unknownField fields).getD []), (unknownField fields).isSome),
    (lit "model", !isText (get "model") pin.connection.modelId),
    (lit "messages", !(isArray (get "messages") && !(itemsOf (get "messages")).isEmpty &&
      (itemsOf (get "messages")).length ≤ 256 && (itemsOf (get "messages")).all
        (validMessage pin.connection.acceptsImages pin.connection.supportsDeveloperRole pin.allowed))),
    (lit "stream-options", optional "stream" fun stream => isBool stream true || isBool stream false),
    (lit "stream-options", optional "stream_options" fun options => isBool (get "stream") true &&
      onlyKeys options ["include_usage"] && isBool (memberOf options "include_usage") true),
    (lit "tools", optional "parallel_tool_calls" fun parallel => isBool parallel false),
    (lit "sampling", optional "temperature" fun temperature => within temperature 2),
    (lit "sampling", optional "top_p" fun top => within top 1),
    (lit "sampling", optional "stop" validStop),
    (lit "output-tokens", outputRefused pin.connection.maxOutputTokens fields),
    (lit "tools", optional "tools" fun tools => isArray tools &&
      (itemsOf tools).length ≤ pin.allowed.definitions.length && validTools pin.allowed [] (itemsOf tools)),
    (lit "tool-choice", optional "tool_choice" fun choice => oneOf choice choiceWords ||
      validChoice pin.allowed choice),
    (lit "tool-choice", isText (get "tool_choice") (lit "required") && (itemsOf (get "tools")).isEmpty),
    (lit "effort", !pin.connection.supportedEfforts.contains pin.effort),
    (lit "effort", effortRefused pin (get "reasoning_effort")),
    (lit "tool-choice", (readText (functionName (get "tool_choice"))).any fun selected =>
      !(itemsOf (get "tools")).any fun item => isText (functionName item) selected)]

/-- `{ ...fields, tools, … }`: the fields of the request, and what stands in the place of some of
them. -/
structure AdmittedBody where
  fields : Fields
  tools : List Definition
  maxTokens : Option JsValue
  includeUsage : Bool
  reasoningEffort : Option JsValue

def defaultLimit : JsValue := .num (ofNat pin.connection.maxOutputTokens)

/-- The definitions of the tools that the request names: none of the names is without one, once they
were checked. -/
def selected (fields : Fields) : List Definition :=
  (itemsOf (fieldOf fields "tools")).filterMap fun item => pin.allowed.get (string (functionName item))

def rewritten (fields : Fields) : AdmittedBody where
  fields
  tools := selected pin fields
  maxTokens :=
    if !hasOwn fields "max_tokens" && !hasOwn fields "max_completion_tokens" then some (defaultLimit pin) else none
  includeUsage := isBool (fieldOf fields "stream") true
  reasoningEffort := if pin.connection.effortField = .reasoningEffort then
    some (.str (wireEffort pin.effort)) else none

def admittedBody : JsValue → Except Text AdmittedBody
  | .obj fields =>
    match (refusals pin fields).find? Prod.snd with
    | some refusal => .error refusal.1
    | none => .ok (rewritten pin fields)
  | _ => .error (lit "messages")

/-- The body that the translated route gives `admittedBody`. -/
def translatedFields (fields : Fields) : Fields :=
  setField (setField (setField fields (lit "stream_options") (fieldOf fields "stream_options"))
    (lit "max_tokens")
    (if hasOwn fields "max_tokens" then fieldOf fields "max_tokens"
      else if hasOwn fields "max_completion_tokens" then undefined else defaultLimit pin))
    (lit "reasoning_effort") undefined

def admittedTranslatedBody : JsValue → Except Text AdmittedBody
  | .obj fields =>
    (admittedBody pin (.obj (translatedFields pin fields))).map fun admitted =>
      let effort := fieldOf fields "reasoning_effort"
      if isUndefined effort then admitted else { admitted with reasoningEffort := some effort }
  | _ => .error (lit "grant")

end

/-- What a provider is called with. -/
structure ProviderCall where
  tools : List Definition
  toolChoice : JsValue
  limit : JsValue

/-- `Number(body.max_tokens ?? body.max_completion_tokens)` -/
def AdmittedBody.limit (body : AdmittedBody) : JsValue :=
  let given := body.maxTokens.getD (fieldOf body.fields "max_tokens")
  if isNull given || isUndefined given then fieldOf body.fields "max_completion_tokens" else given

/-- `/^data:image\/(png|jpeg|webp|gif);base64,([A-Za-z0-9+/=]+)$/` -/
def isImageDataUrl (url : Text) : Bool :=
  ["png", "jpeg", "webp", "gif"].any fun type =>
    let head := lit "data:image/" ++ lit type ++ lit ";base64,"
    let data := url.drop head.length
    head.isPrefixOf url && !data.isEmpty && data.all fun u =>
      unit 'A' ≤ u && u ≤ unit 'Z' || unit 'a' ≤ u && u ≤ unit 'z' || unit '0' ≤ u && u ≤ unit '9' ||
        u = unit '+' || u = unit '/' || u = unit '='

/-- `piContext` reads the images of every message but an assistant's, and throws for one that is not
inline. -/
def inlineImages (message : JsValue) : Bool :=
  !(["system", "developer", "user", "tool"].any fun role => isText (memberOf message "role") (lit role)) ||
    (itemsOf (memberOf message "content")).all fun part =>
      !isText (memberOf part "type") (lit "image_url") ||
        (readText (memberOf (memberOf part "image_url") "url")).all isImageDataUrl

def passThroughCall (body : AdmittedBody) : ProviderCall where
  tools := body.tools
  toolChoice := fieldOf body.fields "tool_choice"
  limit := body.limit

/-- `openTranslated` offers `this.allowed` and sends no tool choice. -/
def translatedCall (pin : Pinned) (body : AdmittedBody) : Option ProviderCall :=
  if (itemsOf (fieldOf body.fields "messages")).all inlineImages then
    some { tools := pin.allowed.definitions, toolChoice := undefined, limit := body.limit }
  else none

end ArdurBot.Broker
