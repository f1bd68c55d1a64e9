import ArdurBot.Lib.Run
import ArdurBot.Lib.Utf16
import Mathlib.Data.List.Sort

/-!
# Command cards

`packages/core/src/command-blocks.ts` and `packages/db/src/command-blocks.ts`. The events of a run
tell of its commands; each command has a card in the thread. The cards are made in three ways: from
all recorded events (`projectCommandBlocks`), from one event after the other as a reader receives
them (`reduceCommandMessages`), and in the store as each event is recorded
(`materializeCommandEvent`).

`parseDate` is `Date.parse`, and `none` is its NaN; what it is of a text that is no ISO date is up
to the platform.
-/

namespace ArdurBot.Commands

open Utf16

inductive CommandOutcome where
  | waiting
  | running
  | completed
  | cancelled
  | unknown
deriving DecidableEq

structure CommandBlock where
  commandId : Text
  runId : Text
  attemptId : Option Text
  executionId : Text
  command : Option Text
  cwd : Option Text
  computerId : Option Text
  computer : Option Text
  startedAt : Option Text
  durationMs : Option ℤ
  exitCode : Option ℤ
  outcome : CommandOutcome
  stdout : Option Text
  stderr : Option Text
  error : Option Text
  refusalId : Option Text
  redacted : Bool
  truncated : Bool
  replayOf : Option Text
  rerunDisabledReason : Option Text
  fence : Option ℕ
  resumedFrom : Option (List Text)
deriving DecidableEq

def settleCommandBlock (block : CommandBlock) (live : Bool) : CommandBlock :=
  if live || (block.outcome ≠ .running && block.outcome ≠ .waiting) then block
    else { block with outcome := .unknown }

/-- `cards` are the command ids of the two cards, `fromCommandId` and `toCommandId`. -/
structure ToolResumedPayload where
  fromCall : Text
  toCall : Text
  cards : Option (Text × Text)

inductive CommandEventType where
  | intent
  | started
  | finished
deriving DecidableEq

/-- The payload of an event that changes a card; `none` where it is not of the schema. -/
inductive CardPayload where
  | command (type : CommandEventType) (block : Option CommandBlock)
  | resumed (link : Option ToolResumedPayload)

inductive EventPayload where
  | card (payload : CardPayload)
  | runEnded
  | shellCall (executionId : Text)
  | other

structure CommandEvent where
  id : Text
  seq : ℤ
  runId : Option Text
  payload : EventPayload

/-- The block with the highest fence wins, and among equal fences the later one. -/
def replacesCommandBlock (shown : Option CommandBlock) (next : CommandBlock) : Bool :=
  shown.all fun shown => shown.commandId ≠ next.commandId || shown.fence.getD 0 ≤ next.fence.getD 0

def commandMessageId (commandId : Text) : Text := lit "command:" ++ commandId

def resumedCommandMessageId (commandId : Text) : Text := lit "command:resumed:" ++ commandId

structure CommandJoins where
  resumedAway : Bool
  joined : Bool

def commandJoins (links : List ToolResumedPayload) (commandId : Text) : CommandJoins where
  resumedAway := links.any fun link => link.cards.any fun cards => cards.1 = commandId
  joined := links.any fun link => link.cards.any fun cards => cards.2 = commandId

def commandCardId (commandId : Text) (joins : CommandJoins) : Option Text :=
  if joins.resumedAway then none
  else some (if joins.joined then resumedCommandMessageId commandId else commandMessageId commandId)

structure ResumedCards where
  fromId : Text
  toId : Text
  fromCommandId : Text

def resumedCardIds (link : ToolResumedPayload) (joinsBefore : Text → CommandJoins) : Option ResumedCards := do
  let (fromCommandId, toCommandId) ← link.cards
  let fromId ← commandCardId fromCommandId (joinsBefore fromCommandId)
  return { fromId, toId := resumedCommandMessageId toCommandId, fromCommandId }

def resumeCommandCard (block : CommandBlock) (fromCommandId : Text) : CommandBlock :=
  { block with resumedFrom := some (block.resumedFrom.getD [] ++ [fromCommandId]).eraseDups }

section

variable (parseDate : Text → Option ℤ)

def parseStart (block : CommandBlock) : Option ℤ :=
  block.startedAt.bind fun startedAt => if startedAt = [] then none else parseDate startedAt

def mergeResumedCommand (earlier later : CommandBlock) : CommandBlock :=
  let joined :=
    match earlier.resumedFrom with
    | some resumedFrom => { later with resumedFrom := some resumedFrom }
    | none => later
  match parseStart parseDate earlier with
  | none => joined
  | some origin =>
    let start := parseStart parseDate later
    if start.any (· ≤ origin) then joined
    else
      { joined with
        startedAt := earlier.startedAt
        durationMs :=
          match later.durationMs, start with
          | some durationMs, some start => some (start + durationMs - origin)
          | durationMs, _ => durationMs }

/-- What the card shows after the block, unless the block must not change it. -/
def nextCommandCard (id : Text) (shown : Option CommandBlock) (next : CommandBlock) : Option CommandBlock :=
  if replacesCommandBlock shown next then
    match shown with
    | some shown => if id = resumedCommandMessageId next.commandId then
      some (mergeResumedCommand parseDate shown next) else some next
    | none => some next
  else none

structure Card where
  id : Text
  block : CommandBlock

def findCard (cards : List Card) (id : Text) : Option CommandBlock :=
  (cards.find? fun card => card.id = id).map Card.block

/-- A map keeps the place of a key that it has. -/
def setCard (cards : List Card) (id : Text) (block : CommandBlock) : List Card :=
  if cards.any fun card => card.id = id then cards.map fun card => if card.id = id then ⟨id, block⟩ else card
  else cards ++ [⟨id, block⟩]

def addBlock (cards : List Card) (joins : CommandJoins) (block : CommandBlock) : List Card :=
  match commandCardId block.commandId joins with
  | none => cards
  | some id =>
    match nextCommandCard parseDate id (findCard cards id) block with
    | none => cards
    | some next => setCard cards id next

structure Projection where
  cards : List Card
  legacy : List (Text × CommandBlock)
  finishedRuns : List Text
  recordedExecutions : List Text
  links : List (Text × ToolResumedPayload)
  seen : List Text

def emptyProjection : Projection := ⟨[], [], [], [], [], []⟩

def Projection.linksOf (projection : Projection) (runId : Text) : List ToolResumedPayload :=
  (projection.links.filter fun entry => entry.1 = runId).map Prod.snd

def executionKey (runId executionId : Text) : Text := runId ++ lit ":" ++ executionId

def legacyBlock (runId executionId : Text) : CommandBlock where
  commandId := lit "legacy:" ++ executionKey runId executionId
  runId
  attemptId := none
  executionId
  command := none
  cwd := none
  computerId := none
  computer := none
  startedAt := none
  durationMs := none
  exitCode := none
  outcome := .unknown
  stdout := none
  stderr := none
  error := none
  refusalId := none
  redacted := false
  truncated := false
  replayOf := none
  rerunDisabledReason := some (lit "The original command was not recorded.")
  fence := none
  resumedFrom := none

/-- The card of the killed call is the card of the call that repeats it. -/
def projectLink (projection : Projection) (runId : Text) (link : ToolResumedPayload) : Projection :=
  let prior := projection.linksOf runId
  let linked := { projection with
    links := projection.links ++ [(runId, link)]
    legacy := projection.legacy.filter fun entry => entry.1 ≠ executionKey runId link.fromCall }
  match resumedCardIds link (commandJoins prior) with
  | none => linked
  | some ids =>
    match findCard projection.cards ids.fromId with
    | none => linked
    | some card =>
      if (findCard projection.cards ids.toId).isSome then linked
      else
        { linked with
          cards := projection.cards.map fun other =>
            if other.id = ids.fromId then
              { id := ids.toId, block := resumeCommandCard card ids.fromCommandId } else other }

def projectEvent (projection : Projection) (event : CommandEvent) : Projection :=
  if event.id ∈ projection.seen then projection
  else
    let projection := { projection with seen := event.id :: projection.seen }
    match event.payload with
    | .runEnded => { projection with finishedRuns := event.runId.toList ++ projection.finishedRuns }
    | .card (.resumed link) =>
      match link, event.runId with
      | some link, some runId => projectLink projection runId link
      | _, _ => projection
    | .card (.command _ block) =>
      match block with
      | none => projection
      | some block =>
        if some block.runId ≠ event.runId then projection
        else
          { projection with
            recordedExecutions := executionKey block.runId block.executionId :: projection.recordedExecutions
            cards := addBlock parseDate projection.cards
              (commandJoins (projection.linksOf block.runId) block.commandId) block }
    | .shellCall executionId =>
      match event.runId with
      | none => projection
      | some runId =>
        let key := executionKey runId executionId
        let block := legacyBlock runId executionId
        if projection.legacy.any fun entry => entry.1 = key then
          { projection with legacy := projection.legacy.map fun entry => if entry.1 = key then
            (key, block) else entry }
        else { projection with legacy := projection.legacy ++ [(key, block)] }
    | .other => projection

def projectEvents (events : List CommandEvent) : Projection :=
  (events.insertionSort fun a b => a.seq ≤ b.seq).foldl (projectEvent parseDate) emptyProjection

def projectCommandBlocks (events : List CommandEvent) (liveRunIds : List Text) : List CommandBlock :=
  let projection := projectEvents parseDate events
  let legacy := projection.legacy.filter fun entry => entry.1 ∉ projection.recordedExecutions
  (projection.cards.map Card.block ++ legacy.map Prod.snd).map fun block =>
    settleCommandBlock block (block.runId ∈ liveRunIds && block.runId ∉ projection.finishedRuns)

/-- The messages that are cards, and the links that were received. -/
structure CommandMessages where
  messages : List Card
  links : List ToolResumedPayload

def messageJoins (messages : List Card) (commandId : Text) : CommandJoins where
  resumedAway := messages.any fun card => card.block.resumedFrom.any fun resumed => commandId ∈ resumed
  joined := messages.any fun card => card.id = resumedCommandMessageId commandId

section

variable (state : CommandMessages)

def readerJoins (commandId : Text) : CommandJoins :=
  let fromMessages := messageJoins state.messages commandId
  let fromLinks := commandJoins state.links commandId
  { resumedAway := fromMessages.resumedAway || fromLinks.resumedAway
    joined := fromMessages.joined || fromLinks.joined }

def reduceLink (link : ToolResumedPayload) : CommandMessages :=
  let linked := { state with links := state.links ++ [link] }
  match resumedCardIds link (readerJoins state) with
  | none => linked
  | some ids =>
    if state.messages.any fun card => card.id = ids.toId then linked
    else
      { linked with
        messages := state.messages.map fun card =>
          if card.id = ids.fromId then
            { id := ids.toId, block := resumeCommandCard card.block ids.fromCommandId } else card }

def reduceCommandMessages (event : CommandEvent) : CommandMessages :=
  match event.payload with
  | .runEnded =>
    { state with
      messages := state.messages.map fun card =>
        if some card.block.runId = event.runId then
          { card with block := settleCommandBlock card.block false } else card }
  | .card (.resumed link) =>
    match link with
    | none => state
    | some link => reduceLink state link
  | .card (.command _ _) =>
    match (projectCommandBlocks parseDate [event] event.runId.toList).head? with
    | none => state
    | some projected =>
      { state with messages := addBlock parseDate state.messages (readerJoins state projected.commandId) projected }
  | .shellCall _ | .other => state

end

def reduceEvents (events : List CommandEvent) : CommandMessages :=
  events.foldl (reduceCommandMessages parseDate) ⟨[], []⟩

structure StoredCard where
  id : Text
  seq : ℤ
  block : CommandBlock

def StoredCard.card (row : StoredCard) : Card := ⟨row.id, row.block⟩

/-- The events of a run and the rows of its cards, in a thread with other messages. -/
structure CommandStore where
  nextMessageSeq : ℤ
  nextEventSeq : ℤ
  events : List CommandEvent
  rows : List StoredCard

def emptyStore : CommandStore := ⟨0, 0, [], []⟩

/-- The links of the run that name the command id on either side. -/
def resumeLinks (events : List CommandEvent) (runId : Option Text) (commandId : Text) (except : Option Text) :
    List ToolResumedPayload :=
  events.filterMap fun event =>
    match event.payload with
    | .card (.resumed link) =>
      if event.runId = runId && some event.id ≠ except then
        link.filter fun link => link.cards.any fun cards => cards.1 = commandId || cards.2 = commandId
      else none
    | _ => none

def findRow (rows : List StoredCard) (id : Text) : Option StoredCard :=
  rows.find? fun row => row.id = id

section

variable (store : CommandStore) (event : CommandEvent)

def materializeBlock (block : CommandBlock) : CommandStore :=
  let joins := commandJoins (resumeLinks store.events event.runId block.commandId none) block.commandId
  match commandCardId block.commandId joins with
  | none => store
  | some id =>
    let row := findRow store.rows id
    match nextCommandCard parseDate id (row.map StoredCard.block) block with
    | none => store
    | some command =>
      if row.isSome then
        { store with rows := store.rows.map fun row => if row.id = id then { row with block := command } else row }
      else
        { store with
          nextMessageSeq := store.nextMessageSeq + 1
          rows := store.rows ++ [{ id, seq := store.nextMessageSeq, block := command }] }

def materializeResumedCall (link : ToolResumedPayload) : CommandStore :=
  match link.cards with
  | none => store
  | some (fromCommandId, _) =>
    let prior := resumeLinks store.events event.runId fromCommandId (some event.id)
    match resumedCardIds link (commandJoins prior) with
    | none => store
    | some ids =>
      if (findRow store.rows ids.toId).isSome || (findRow store.rows ids.fromId).isNone then store
      else
        { store with
          rows := store.rows.map fun row =>
            if row.id = ids.fromId then
              { row with id := ids.toId, block := resumeCommandCard row.block ids.fromCommandId }
            else row }

def materializeCommandEvent : CommandStore :=
  match event.payload with
  | .card (.resumed (some link)) => materializeResumedCall store event link
  | .card (.command _ (some block)) => materializeBlock parseDate store event block
  | _ => store

end

/-- An earlier event of the same type for the command, of the same attempt if one is named. -/
def isRecorded (events : List CommandEvent) (runId : Text) (type : CommandEventType)
    (block : CommandBlock) : Bool :=
  events.any fun event =>
    match event.payload with
    | .card (.command type' (some block')) =>
      event.runId = some runId && type' = type && block'.commandId = block.commandId &&
        (block.attemptId.isNone || block'.attemptId = block.attemptId)
    | _ => false

def recordEvent (store : CommandStore) (id runId : Text) (payload : CardPayload) : CommandStore :=
  let event : CommandEvent := { id, seq := store.nextEventSeq, runId := some runId, payload := .card payload }
  materializeCommandEvent parseDate
    { store with nextEventSeq := store.nextEventSeq + 1, events := store.events ++ [event] } event

/-- `appendEventInTransaction` for an event of the run. A command that is not of the schema, or of
another run, is refused, and one that was recorded is not recorded again. -/
def appendCardEvent (runId : Text) (store : CommandStore) (id : Text) (payload : CardPayload) :
    CommandStore :=
  if store.events.any fun event => event.id = id then store
  else
    match payload with
    | .resumed _ => recordEvent parseDate store id runId payload
    | .command _ none => store
    | .command type (some block) =>
      if block.runId ≠ runId then store
      else if isRecorded store.events runId type block then { store with nextEventSeq := store.nextEventSeq + 1 }
      else recordEvent parseDate store id runId payload

/-- A card event of the run is recorded, or another message or event is stored in its thread. -/
inductive StoreOp where
  | append (id : Text) (payload : CardPayload)
  | otherMessage
  | otherEvent

def StoreOp.apply (runId : Text) (store : CommandStore) : StoreOp → CommandStore
  | append id payload => appendCardEvent parseDate runId store id payload
  | otherMessage => { store with nextMessageSeq := store.nextMessageSeq + 1 }
  | otherEvent => { store with nextEventSeq := store.nextEventSeq + 1 }

end

end ArdurBot.Commands
