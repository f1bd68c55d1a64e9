import ArdurBot.Lib.Json.Text
import ArdurBot.Steering.Input

/-!
# The context of a turn

`packages/adapters/src/context/assemble.ts`. The layers of a turn each have a budget of characters.
History that is too long is cut in front, on a grid of steps, but not within the newest message or
within a tool call and its result.
-/

namespace ArdurBot.Context

open Utf16 Json Steering
open Learning (joinLines indexOf)

abbrev Message := HistoryMessage

def characters (messages : List Message) : ℕ := (messages.map (·.content.length)).sum

def includes (text part : Text) : Bool := (indexOf text part 0).isSome

/-- `\bid="([^"]+)"` at a place. -/
def idAt (text : Text) (place : ℕ) : Option Text :=
  let value := (text.drop (place + 4)).takeWhile (· ≠ unit '"')
  if (lit "id=\"").isPrefixOf (text.drop place) &&
    !(text[place - 1]?.any fun u => 0 < place && isWordUnit u) && value ≠ [] &&
      text[place + 4 + value.length]? = some (unit '"') then some value
  else none

/-- `/<tool_call\b[^>]*\bid="([^"]+)"/` at a place; what stands before the id is as long as it can
be. -/
def toolCallAt (text : Text) (start : ℕ) : Option Text :=
  let inner := start + (lit "<tool_call").length
  if (lit "<tool_call").isPrefixOf (text.drop start) && !text[inner]?.any isWordUnit then
    (List.range (((text.drop inner).takeWhile (· ≠ unit '>')).length + 1)).reverse.findSome?
      fun skipped => idAt text (inner + skipped)
  else none

def toolCallId (text : Text) : Option Text := (List.range text.length).findSome? (toolCallAt text)

/-- Whether the message is a tool call, and the next its result. -/
def isPair (call next : Message) : Bool :=
  (toolCallId call.content).any fun id => includes next.content (lit "<tool_result id=\"" ++ id ++ lit "\">")

structure Span where
  start : ℕ
  stop : ℕ

/-- The loop over the messages, from an offset on. -/
def spansFrom (offset : ℕ) : List Message → List Span
  | [] => []
  | [_] => []
  | message :: next :: messages =>
    let rest := spansFrom (offset + message.content.length) (next :: messages)
    if isPair message next then ⟨offset, offset + message.content.length + next.content.length⟩ :: rest else rest

def toolPairSpans (messages : List Message) : List Span := spansFrom 0 messages

/-- The loop of `sliceFrom`, from an offset on. -/
def sliceAt (start offset : ℕ) : List Message → List Message
  | [] => []
  | message :: messages =>
    let stop := offset + message.content.length
    let rest := sliceAt start stop messages
    if start < stop then
      (if start ≤ offset then message else { message with content := message.content.drop (start - offset) }) :: rest
    else rest

def sliceFrom (messages : List Message) (start : ℕ) : List Message := sliceAt start 0 messages

/-- Where the cut goes that would part a call from its result, or drop both. -/
def aroundSpan (overflow safeStep start : ℕ) (span : Span) : ℕ :=
  if span.start < start && start < span.stop || span.stop ≤ start && overflow < span.stop then
    if overflow ≤ span.start && span.start - overflow ≤ safeStep then span.start else overflow
  else start

def safeStep (step : ℚ) : ℕ := (max 1 ⌊step⌋).toNat

/-- Where history starts that is longer than its budget. -/
def cutAt (messages : List Message) (overflow safeStep : ℕ) : ℕ :=
  let total := characters messages
  let grid := (overflow + safeStep - 1) / safeStep * safeStep
  let start := if total ≤ grid then overflow else grid
  let newestStart := total - (messages.getLast?.map (·.content.length)).getD 0
  let start :=
    if newestStart < start && overflow ≤ newestStart then
      if newestStart - overflow ≤ safeStep then newestStart else overflow
    else start
  let start := (toolPairSpans messages).foldl (aroundSpan overflow safeStep) start
  if total ≤ start then overflow else start

def boundMessages (messages : List Message) (budget : ℤ) (step : ℚ) : List Message :=
  if budget ≤ 0 then []
  else if characters messages ≤ budget then messages
  else sliceFrom messages (cutAt messages (characters messages - budget).toNat (safeStep step))

def escapePromptData (value : Text) : Text :=
  value.flatMap fun u =>
    if u = unit '&' then lit "&amp;" else if u = unit '<' then lit "&lt;" else if u = unit '>' then
      lit "&gt;" else [u]

def opening (name : Text) : Text := unit '<' :: name ++ [unit '>', newline]

def closing (name : Text) : Text := [newline, unit '<', unit '/'] ++ name ++ [unit '>']

def frame (name text : Text) (budget : ℤ) : Text :=
  if trim text = [] then []
  else
    opening name ++ (escapePromptData text).take (budget - (opening name).length -
      (closing name).length).toNat ++ closing name

def linesWithin (first : Bool) (room : ℤ) : List Text → List Text
  | [] => []
  | line :: lines =>
    let cost : ℤ := line.length + if first then 0 else 1
    if cost > room then [] else line :: linesWithin false (room - cost) lines

def frameLines (name text : Text) (budget : ℤ) : Text :=
  if trim text = [] then []
  else
    let kept := linesWithin true (budget - (opening name).length - (closing name).length)
        ((escapePromptData text).splitOn newline)
    if kept = [] then [] else opening name ++ joinLines kept ++ closing name

/-- A budget of the settings: its least and largest value, and the one it has when none is given. -/
structure Bounds where
  least : ℤ
  most : ℤ
  standard : ℤ

def Bounds.parse (bounds : Bounds) (value : Option ℤ) : Option ℤ :=
  let value := value.getD bounds.standard
  if bounds.least ≤ value && value ≤ bounds.most then some value else none

structure Budgets (α : Type) where
  stable : α
  brief : α
  summary : α
  messages : α
  «recall» : α
  message : α

def contextBudgets : Budgets Bounds where
  stable := ⟨4000, 64000, 64000⟩
  brief := ⟨200, 6000, 6000⟩
  summary := ⟨200, 12000, 4000⟩
  messages := ⟨200, 48000, 12000⟩
  «recall» := ⟨200, 12000, 6000⟩
  message := ⟨1000, 128000, 48000⟩

/-- `ContextBudgetsSchema.parse` -/
def parseBudgets (given : Budgets (Option ℤ)) : Option (Budgets ℤ) := do
  let stable ← contextBudgets.stable.parse given.stable
  let brief ← contextBudgets.brief.parse given.brief
  let summary ← contextBudgets.summary.parse given.summary
  let messages ← contextBudgets.messages.parse given.messages
  let recalled ← contextBudgets.recall.parse given.recall
  let message ← contextBudgets.message.parse given.message
  some { stable, brief, summary, messages, «recall» := recalled, message }

/-- `identity` is the text of `runIdentityText`, `tools` what is shown of the tools, `recall` what a
recall gives. -/
structure Turn (ι : Type*) where
  peerReadOnly : Bool
  instructions : Text
  identity : Option Text
  tools : List JsValue
  brief : Option Text
  summary : Option Text
  teammates : Option Text
  goal : Option Text
  history : List Message
  requiredContext : Option Message
  message : Text
  steering : List (AgentSteeringMessage ι)
  query : Option Text
  sourceMessageId : Option Text
  budgets : Budgets (Option ℤ)
  «recall» : Option Text

structure Layers where
  stable : ℕ
  brief : ℕ
  summary : ℕ
  messages : ℕ
  «recall» : ℕ
  message : ℕ

structure TurnContext where
  instructions : Text
  history : List Message
  stableHistory : ℕ
  prompt : Text
  layers : Layers
  recallRan : Bool

inductive Refusal where
  | schema
  | error (message : Text)

def messageRefused : Refusal :=
  .error (lit "This message exceeds the context budget. Send a shorter message.")

def resultTruncatedMarker : Text :=
  lit "[Result truncated to fit the history budget; open the thread for the full report.]"

def requiredMessage (budget : ℤ) (required : Message) : Message :=
  if budget < required.content.length then
    { required with
      content := required.content.take (budget - resultTruncatedMarker.length - 1).toNat ++
        newline :: resultTruncatedMarker }
  else required

def userMessage (content : Text) : List Message :=
  if content = [] then [] else [⟨none, .user, content⟩]

def blankLine : Text := [newline, newline]

section Assemble

variable {ι : Type*}

section

variable (run : Turn ι)

def ownText (text : Option Text) : Text := if run.peerReadOnly then [] else text.getD []

def turnInstructions : Text :=
  blankLine.intercalate ([run.identity.getD [], run.instructions].filter (· ≠ []))

def stableCharacters : ℕ :=
  (turnInstructions run).length + if run.tools = [] then 0 else (JsValue.stringify (.arr run.tools)).length

/-- The request, behind the state of the goal. -/
def turnBase : Text :=
  let goal := ownText run run.goal
  if goal = [] then run.message else goal ++ blankLine ++ run.message

def turnPrompt : Text := promptWithInitialSteering (turnBase run) run.steering

end

def requiredAllowance (budget : ℤ) (required : Option Message) : ℤ :=
  min ((required.map (·.content.length)).getD 0) budget

def teammateAllowance (budget : ℤ) (required : Option Message) : ℤ :=
  min 8000 (max 0 (budget - requiredAllowance budget required) / 3)

def turnTeammates (budget : ℤ) (run : Turn ι) : Text :=
  let allowance := teammateAllowance budget run.requiredContext
  if 64 ≤ allowance then frameLines (lit "teammate_directory") (run.teammates.getD []) allowance else []

def turnMessages (budget : ℤ) (run : Turn ι) : List Message :=
  let historyBudget :=
    max 0 (budget - requiredAllowance budget run.requiredContext -
    (turnTeammates budget run).length)
  let past := if run.peerReadOnly then [] else run.history
  boundMessages (past.filter fun message => run.sourceMessageId.all fun id => id = [] ||
    message.id ≠ some id) historyBudget
    (max 1 (historyBudget / 4) : ℤ)

/-- `needsRecall` says of the question and the brief whether memory is asked. -/
def contextOf (needsRecall : Text → Text → Bool) (run : Turn ι) (budgets : Budgets ℤ) : TurnContext :=
  let brief := frame (lit "group_brief") (ownText run run.brief) budgets.brief
  let summary := frame (lit "thread_summary") (ownText run run.summary) budgets.summary
  let teammates := turnTeammates budgets.messages run
  let required := (run.requiredContext.map (requiredMessage budgets.messages)).toList
  let messages := turnMessages budgets.messages run
  let recallRan := !run.peerReadOnly && run.recall.isSome &&
      needsRecall (run.query.getD run.message) (run.brief.getD [])
  let recalled := frame (lit "recalled_memory") (if recallRan then run.recall.getD [] else []) budgets.recall
  let stable := userMessage summary ++ messages
  { instructions := turnInstructions run
    history := stable ++ userMessage teammates ++ userMessage brief ++ required ++ userMessage recalled
    stableHistory := stable.length
    prompt := turnPrompt run
    layers := {
      stable := stableCharacters run
      brief := brief.length
      summary := summary.length
      messages := teammates.length + characters messages + characters required
      «recall» := recalled.length
      message := (turnPrompt run).length }
    recallRan }

def instructionsRefused : Refusal :=
  .error (lit "Bot instructions exceed the context budget including exposed tools. Increase the space budget or load tools when needed.")

def assembleTurnContext (needsRecall : Text → Text → Bool) (run : Turn ι) : Except Refusal TurnContext :=
  match parseBudgets run.budgets with
  | none => .error .schema
  | some budgets =>
    if budgets.stable < stableCharacters run + (ownText run run.goal).length then .error instructionsRefused
    else if budgets.message < run.message.length then .error messageRefused
    else if budgets.message <
      ((turnPrompt run).length - (turnBase run).length + run.message.length : ℤ) then
      .error messageRefused
    else .ok (contextOf needsRecall run budgets)

end Assemble

end ArdurBot.Context
