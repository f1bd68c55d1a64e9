import ArdurBot.Lib.Utf16

/-!
# Live blocks

`reduceLiveMessageBlocks` of `packages/core/src/events.ts`, with what it calls: an update of a run
is folded into the blocks that show it live. Blocks of other kinds are not made by updates. The
tables of upper and lower case are those of the runtime.
-/

namespace ArdurBot.LiveBlocks

open Utf16

inductive LiveBlockCategory where
  | activity
  | reasoning
  | narration
deriving DecidableEq

def progressCategory (activity reasoning : Bool) : LiveBlockCategory :=
  if activity then .activity else if reasoning then .reasoning else .narration

structure Progress where
  text : Text
  activity : Bool
  reasoning : Bool
  streaming : Bool
  pendingToolNames : List Text

def Progress.category (p : Progress) : LiveBlockCategory := progressCategory p.activity p.reasoning

structure ToolStep where
  label : Text
  count : ℕ

inductive MessageBlock where
  | text (text : Text)
  | progress (p : Progress)
  | steps (steps : List ToolStep)

/-- What is read of a payload: the delta, if it is a string, the text or the empty one, and the
flags that are `true`. -/
structure Payload where
  delta : Option Text
  text : Text
  activity : Bool
  reasoning : Bool
  streaming : Bool

def Payload.category (payload : Payload) : LiveBlockCategory :=
  progressCategory payload.activity payload.reasoning

inductive LiveMessageUpdate where
  | progress (payload : Payload)
  | tool (name : Text)

def LiveMessageUpdate.category : LiveMessageUpdate → Option LiveBlockCategory
  | .progress payload => some payload.category
  | .tool _ => none

def LiveMessageUpdate.textPayload : LiveMessageUpdate → Option Text
  | .progress payload => if payload.delta.isNone then some payload.text else none
  | .tool _ => none

def LiveMessageUpdate.toolNames : LiveMessageUpdate → List Text
  | .progress _ => []
  | .tool name => [name]

structure Casing where
  toLowerCase : Text → Text
  toUpperCase : Text → Text

variable (casing : Casing)

def humanizeToolName (name : Text) : Text :=
  let spaced := trim (name.map fun u => if u = unit '_' then unit ' ' else u)
  if spaced = [] then name
  else casing.toUpperCase ((casing.toLowerCase spaced).take 1) ++ (casing.toLowerCase spaced).drop 1

def appendToolStep (steps : List ToolStep) (toolName : Text) : List ToolStep :=
  let label := humanizeToolName casing toolName
  match steps.getLast? with
  | some last => if last.label = label then steps.dropLast ++ [⟨label, last.count + 1⟩]
    else steps ++ [⟨label, 1⟩]
  | none => steps ++ [⟨label, 1⟩]

def isStop (u : CodeUnit) : Bool := u ∈ lit ".!?"

def isCloser (u : CodeUnit) : Bool := u ∈ lit "\"'”’)]"

/-- `text.trim() === "" || /[.!?]["'”’)\]]*\s*$/.test(text)` -/
def endsSentence (text : Text) : Bool :=
  trim text = [] || ((text.reverse.dropWhile isWhite).dropWhile isCloser).head?.any isStop

section

variable (segments : List MessageBlock)

def appendTextSegment (text : Text) : List MessageBlock :=
  if text = [] then segments
  else
    match segments.getLast? with
    | some (.text last) => segments.dropLast ++ [.text (last ++ text)]
    | _ => segments ++ [.text text]

def appendToolCallSegment (toolName : Text) : List MessageBlock :=
  match segments.getLast? with
  | some (.steps steps) => segments.dropLast ++ [.steps (appendToolStep casing steps toolName)]
  | _ => segments ++ [.steps (appendToolStep casing [] toolName)]

def appendToolCallSegments (toolNames : List Text) : List MessageBlock :=
  toolNames.foldl (appendToolCallSegment casing) segments

end

def MessageBlock.reply : MessageBlock → Text
  | .text written => written
  | .progress p => if !p.activity && !p.reasoning then p.text else []
  | .steps _ => []

def replyText (blocks : List MessageBlock) : Text := blocks.flatMap MessageBlock.reply

/-- Narration that is the whole text of the reply. -/
def Payload.isWhole (payload : Payload) : Bool :=
  payload.delta.isNone && payload.streaming && !payload.activity && !payload.reasoning

/-- The text does not go on from the reply that is shown. -/
def isReplacing (blocks : List MessageBlock) (payload : Payload) : Bool :=
  payload.isWhole && 0 < (replyText blocks).length && !(replyText blocks).isPrefixOf payload.text

def keepBlock (kept : List MessageBlock) : MessageBlock → List MessageBlock
  | .text _ => kept
  | .progress p =>
    let kept := appendToolCallSegments casing kept p.pendingToolNames
    if p.reasoning then kept ++ [.progress { p with pendingToolNames := [] }] else kept
  | .steps steps => kept ++ [.steps steps]

def replaceReply (blocks : List MessageBlock) (incoming : Text) : List MessageBlock :=
  let kept := blocks.foldl (keepBlock casing) []
  if incoming = [] then kept else kept ++ [.progress ⟨incoming, false, false, true, []⟩]

def tailProgress (blocks : List MessageBlock) : Option Progress :=
  match blocks.getLast? with
  | some (.progress p) => some p
  | _ => none

section

variable (tail : Option Progress)

def pendingOf : List Text := (tail.map Progress.pendingToolNames).getD []

section

variable (update : LiveMessageUpdate)

/-- An update of another category starts a new block. -/
def isSealed : Bool :=
  match tail, update.category with
  | some p, some category => p.category ≠ category
  | _, _ => false

/-- Held names are steps before a reasoning summary or narration starts. -/
def flushesEarly : Bool :=
  isSealed tail update && (update.category = some .reasoning || update.category = some .narration)
    && pendingOf tail ≠ []

def carriedNames : List Text :=
  if isSealed tail update && !flushesEarly tail update then pendingOf tail else []

/-- The reply's text that an activity line interrupts becomes durable. -/
def reservesReplyText : Bool :=
  isSealed tail update && update.category = some .activity && tail.any fun p => p.category =
    .narration && p.streaming

def openTail : Option Progress :=
  if isSealed tail update then none else tail

end

end

/-- The blocks before the one that the update is about. -/
def segmentsOf (blocks : List MessageBlock) (update : LiveMessageUpdate) : List MessageBlock :=
  match tailProgress blocks with
  | none => blocks
  | some p =>
    if reservesReplyText (some p) update then appendTextSegment blocks.dropLast p.text
    else if isSealed (some p) update then
      let segments := blocks.dropLast ++ [.progress { p with pendingToolNames := [], streaming := false }]
      if flushesEarly (some p) update then appendToolCallSegments casing segments p.pendingToolNames else segments
    else blocks.dropLast

section

variable (tail : Option Progress) (update : LiveMessageUpdate)

def categoryOf : LiveBlockCategory :=
  match update.category with
  | some category => category
  | none => ((openTail tail update).map Progress.category).getD .narration

/-- Narration is a new chunk; activity and reasoning replace the title. -/
def tailTextOf : Text :=
  let openText := ((openTail tail update).map Progress.text).getD []
  match update with
  | .tool _ => openText
  | .progress payload =>
    match payload.delta with
    | some delta => openText ++ delta
    | none => if categoryOf tail update = .narration then openText ++ payload.text else payload.text

end

/-- The last block. Names that are held become steps where a sentence ends, or a reasoning title is
finished. -/
def land (segments : List MessageBlock) (category : LiveBlockCategory) (tailText : Text)
    (toolNames : List Text) (isCarried isClosed streaming : Bool) : List MessageBlock :=
  if toolNames ≠ [] && (endsSentence tailText || isClosed) then
    let next :=
      match category with
      | .narration => appendTextSegment segments tailText
      | .reasoning => if trim tailText ≠ [] then
        segments ++ [.progress ⟨tailText, false, true, false, []⟩] else segments
      | .activity =>
        if isCarried && trim tailText ≠ [] then
          segments ++ [.progress ⟨tailText, true, false, false, []⟩] else segments
    appendToolCallSegments casing next toolNames
  else if tailText = [] then segments
  else segments ++ [.progress ⟨tailText, category = .activity, category = .reasoning, streaming, toolNames⟩]

def isReasoningClosed (tail : Option Progress) (update : LiveMessageUpdate) : Bool :=
  update.category.isNone && categoryOf tail update = .reasoning && trim (tailTextOf tail update) ≠ []

def isStreaming : LiveMessageUpdate → Bool
  | .progress payload => payload.streaming && payload.category = .narration
  | .tool _ => false

/-- An empty title leaves held names where they are. -/
def isEmptyTitle (tail : Option Progress) (update : LiveMessageUpdate) : Bool :=
  (update.textPayload.any fun text => trim text = []) && pendingOf tail ≠ []

section

variable (blocks : List MessageBlock) (update : LiveMessageUpdate)

def reduceTail : List MessageBlock :=
  let tail := tailProgress blocks
  if isEmptyTitle tail update then
    if update.category = some .activity && tail.any fun p => p.category = .activity then
      appendToolCallSegments casing blocks.dropLast (pendingOf tail)
    else blocks
  else
    land casing (segmentsOf casing blocks update) (categoryOf tail update) (tailTextOf tail update)
      (pendingOf (openTail tail update) ++ carriedNames tail update ++ update.toolNames)
      (carriedNames tail update ≠ []) (isReasoningClosed tail update) (isStreaming update)

def reduceLiveMessageBlocks : List MessageBlock :=
  match update with
  | .tool _ => reduceTail casing blocks update
  | .progress payload =>
    if isReplacing blocks payload then replaceReply casing blocks payload.text else reduceTail casing blocks update

end

def reduceAll (updates : List LiveMessageUpdate) : List MessageBlock :=
  updates.foldl (reduceLiveMessageBlocks casing) []

end ArdurBot.LiveBlocks
