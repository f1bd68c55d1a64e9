import ArdurBot.Lib.Dict
import ArdurBot.Lib.Json.Normal
import ArdurBot.Lib.Json.Read

/-!
# Completions from a provider's events

`translateStream` of `packages/adapters/src/hermes-provider-translation.ts`: one loop over the
events of the provider layer, which gives the frames of a Chat Completions stream or the body of a
plain completion. Arrays have no limit here.
-/

namespace ArdurBot.Completions

open Utf16 Json

/-- `a + b` -/
def addNumbers : JsNumber → JsNumber → JsNumber
  | .nan, _ => .nan
  | _, .nan => .nan
  | .infinity a, .infinity b => if a = b then .infinity a else .nan
  | .infinity a, _ => .infinity a
  | _, .infinity b => .infinity b
  | .negZero, b => b
  | a, .negZero => a
  | .finite a, .finite b =>
    match Binary64.nearest (a.val + b.val) with
    | some sum => .finite sum
    | none => .infinity (a.val + b.val < 0)

/-- A number that `||` passes over. -/
def isFalsy : JsNumber → Bool
  | .nan => true
  | .negZero => true
  | .infinity _ => false
  | .finite x => x.val = 0

inductive StopReason where
  | stop
  | length
  | toolUse
  | deferred
  | aborted
  | error

inductive Finish where
  | stop
  | length
  | toolCalls
deriving DecidableEq

def Finish.text : Finish → Text
  | .stop => lit "stop"
  | .length => lit "length"
  | .toolCalls => lit "tool_calls"

def finishReason : Option StopReason → Finish
  | some .length => .length
  | some .toolUse => .toolCalls
  | _ => .stop

structure ProviderUsage where
  input : JsNumber
  output : JsNumber
  cacheRead : JsNumber
  cacheWrite : JsNumber
  totalTokens : JsNumber

structure ChatUsage where
  promptTokens : JsNumber
  completionTokens : JsNumber
  totalTokens : JsNumber

def chatUsage (usage : ProviderUsage) : ChatUsage :=
  let prompt := addNumbers (addNumbers usage.input usage.cacheRead) usage.cacheWrite
  ⟨prompt, usage.output, if isFalsy usage.totalTokens then addNumbers prompt usage.output
    else usage.totalTokens⟩

/-- What stands at a content index of the partial message. -/
inductive Block where
  | toolCall (id name : Text)
  | other

/-- A finished tool call. Its arguments are JSON data. -/
structure ToolCall where
  id : Text
  name : Text
  arguments : Fields
  data : (JsValue.obj arguments).Data

inductive Event where
  | textDelta (delta : Text)
  | thinkingDelta (delta : Text)
  | toolcallStart (contentIndex : ℕ) (content : List Block)
  | toolcallDelta (contentIndex : ℕ) (delta : Text)
  | toolcallEnd (contentIndex : ℕ) (toolCall : ToolCall)
  | done (reason : Option StopReason) (usage : Option ProviderUsage)
  | error (aborted : Bool) (errorMessage : Option Text)
  | other

structure BrokerTranslationError where
  message : Text
  aborted : Bool

def text (key : String) (value : Text) : Text × JsValue := (lit key, .str value)

def number (key : String) (value : JsNumber) : Text × JsValue := (lit key, .num value)

def ChatUsage.toJs (usage : ChatUsage) : JsValue :=
  .obj [number "prompt_tokens" usage.promptTokens, number "completion_tokens" usage.completionTokens,
    number "total_tokens" usage.totalTokens]

structure Choice where
  delta : Fields
  finishReason : Option Text

def Choice.toJs (choice : Choice) : JsValue :=
  .obj [number "index" (ofNat 0), (lit "delta", .obj choice.delta),
    (lit "finish_reason", (choice.finishReason.map .str).getD .null)]

/-- What every frame and the body of one completion name. -/
structure Stamp where
  id : Text
  created : JsNumber
  model : Text

structure Chunk where
  stamp : Stamp
  choices : List Choice
  usage : Option ChatUsage

def Chunk.toJs (chunk : Chunk) : JsValue :=
  .obj ([text "id" chunk.stamp.id, text "object" (lit "chat.completion.chunk"),
    number "created" chunk.stamp.created,
    text "model" chunk.stamp.model, (lit "choices", .arr (chunk.choices.map Choice.toJs))] ++
    optionalField "usage" (chunk.usage.map ChatUsage.toJs))

def sseFrame (chunk : Chunk) : Text := lit "data: " ++ chunk.toJs.encode ++ lit "\n\n"

def doneFrame : Text := lit "data: [DONE]\n\n"

structure ToolCallAccumulator where
  id : Text
  name : Text
  arguments : Text
  hasDeltas : Bool

structure Progress where
  text : Text
  finish : Finish
  toolCalls : List ToolCallAccumulator
  callIndex : List (ℕ × ℕ)
  usage : Option ProviderUsage
  frames : List Text

section

variable (stamp : Stamp) (streamMode : Bool)

def emit (delta : Fields) (finish : Option Text) (p : Progress) : Progress :=
  if streamMode then { p with frames := p.frames ++ [sseFrame ⟨stamp, [⟨delta, finish⟩], none⟩] } else p

def callDelta (index : ℕ) (id name arguments : Text) : Fields :=
  [(lit "tool_calls", .arr [.obj [number "index" (ofNat index), text "id" id, text "type" (lit "function"),
    (lit "function", .obj [text "name" name, text "arguments" arguments])]])]

def argumentsDelta (index : ℕ) (arguments : Text) : Fields :=
  [(lit "tool_calls",
    .arr [.obj [number "index" (ofNat index),
    (lit "function", .obj [text "arguments" arguments])]])]

def onStart (contentIndex : ℕ) (content : List Block) (p : Progress) : Progress :=
  let index := p.toolCalls.length
  let entry : ToolCallAccumulator :=
    match content[contentIndex]? with
    | some (.toolCall id name) => ⟨id, name, [], false⟩
    | _ => ⟨lit "call_" ++ digitsText index, [], [], false⟩
  emit stamp streamMode (callDelta index entry.id entry.name []) none
    { p with callIndex := Dict.set p.callIndex contentIndex index, toolCalls := p.toolCalls ++ [entry] }
where
  digitsText (index : ℕ) : Text := if index = 0 then lit "0" else digitsOf index

def onDelta (contentIndex : ℕ) (delta : Text) (p : Progress) : Progress :=
  match Dict.get p.callIndex contentIndex with
  | none => p
  | some index =>
    emit stamp streamMode (argumentsDelta index delta) none
      { p with toolCalls := p.toolCalls.modify index fun call =>
          { call with arguments := call.arguments ++ delta, hasDeltas := true } }

def onEnd (contentIndex : ℕ) (toolCall : ToolCall) (p : Progress) : Progress :=
  let fullArgs := (JsValue.obj toolCall.arguments).encode
  match Dict.get p.callIndex contentIndex with
  | none =>
    let index := p.toolCalls.length
    emit stamp streamMode (callDelta index toolCall.id toolCall.name fullArgs) none
      { p with callIndex := Dict.set p.callIndex contentIndex index,
               toolCalls := p.toolCalls ++ [⟨toolCall.id, toolCall.name, fullArgs, false⟩] }
  | some index =>
    let hadDeltas := (p.toolCalls[index]?.map (·.hasDeltas)).getD false
    emit stamp streamMode (callDelta index toolCall.id toolCall.name (if hadDeltas then [] else fullArgs)) none
      { p with toolCalls := p.toolCalls.set index ⟨toolCall.id, toolCall.name, fullArgs, hadDeltas⟩ }

def onEvent (p : Progress) : Event → Except BrokerTranslationError Progress
  | .textDelta delta =>
    .ok (emit stamp streamMode [text "content" delta] none { p with text := p.text ++ delta })
  | .thinkingDelta delta => .ok (emit stamp streamMode [text "reasoning_content" delta] none p)
  | .toolcallStart contentIndex content => .ok (onStart stamp streamMode contentIndex content p)
  | .toolcallDelta contentIndex delta => .ok (onDelta stamp streamMode contentIndex delta p)
  | .toolcallEnd contentIndex toolCall => .ok (onEnd stamp streamMode contentIndex toolCall p)
  | .done reason usage => .ok { p with finish := finishReason reason, usage := usage.or p.usage }
  | .error aborted errorMessage =>
    .error ⟨errorMessage.getD (lit "The model stream could not complete."), aborted⟩
  | .other => .ok p

def start : Progress :=
  emit stamp streamMode [text "role" (lit "assistant")] none ⟨[], .stop, [], [], none, []⟩

def callJs (index : ℕ) (call : ToolCallAccumulator) : JsValue :=
  .obj [number "index" (ofNat index), text "id" call.id, text "type" (lit "function"),
    (lit "function", .obj [text "name" call.name, text "arguments" call.arguments])]

def message (p : Progress) : Fields :=
  [text "role" (lit "assistant"), (lit "content", if p.text = [] then .null else .str p.text)] ++
    if p.toolCalls = [] then [] else [(lit "tool_calls", .arr (p.toolCalls.mapIdx callJs))]

def bodyOf (finish : Finish) (p : Progress) : JsValue :=
  .obj ([text "id" stamp.id, text "object" (lit "chat.completion"), number "created" stamp.created,
    text "model" stamp.model,
    (lit "choices", .arr [.obj [number "index" (ofNat 0), (lit "message", .obj (message p)),
      text "finish_reason" finish.text]])] ++
    optionalField "usage" (p.usage.map fun usage => (chatUsage usage).toJs))

structure Translated where
  frames : List Text
  body : Option JsValue
  finish : Finish

def lastFinish (p : Progress) : Finish :=
  if 0 < p.toolCalls.length ∧ p.finish = .stop then .toolCalls else p.finish

def usageFrames (p : Progress) : List Text :=
  p.usage.toList.map fun usage => sseFrame ⟨stamp, [], some (chatUsage usage)⟩

def conclude (p : Progress) : Translated :=
  let finish := lastFinish p
  if streamMode then
    ⟨(emit stamp streamMode [] (some finish.text) p).frames ++ usageFrames stamp p ++ [doneFrame], none, finish⟩
  else ⟨p.frames, some (bodyOf stamp finish p), finish⟩

def translateStream (events : List Event) : Except BrokerTranslationError Translated := do
  let p ← events.foldlM (onEvent stamp streamMode) (start stamp streamMode)
  return conclude stamp streamMode p

end

end ArdurBot.Completions
