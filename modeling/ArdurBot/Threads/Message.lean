import ArdurBot.Core.RunState
import ArdurBot.Lib.Run
import ArdurBot.Lib.Table
import ArdurBot.Lib.Utf16

/-!
# Messages of a thread

`packages/db/src/messages.ts` and `packages/db/src/events.ts`: the row of a thread numbers its
messages and its events. A running reply holds a place in the thread from its first visible text,
and the message that saves the reply fills the place; a trigger releases it when the run leaves
`running`.

Every transaction that numbers a message or an event locks the row of the thread first, so they take
effect one after the other.
-/

namespace ArdurBot.Threads

open Utf16 ArdurBot.Core

inductive Role where
  | user
  | bot
  | system
deriving DecidableEq

inductive Block where
  | text (text : Text)
  | other (kind content : Text)
deriving DecidableEq

def Block.isText : Block → Bool
  | text _ => true
  | other _ _ => false

structure Message where
  seq : ℤ
  role : Role
  runId : Option Text
  blocks : List Block
deriving DecidableEq

structure ThreadRun where
  id : Text
  threadId : Text
  botId : Text
  status : RunStatus
  replySeq : Option ℤ

inductive EventPayload where
  | progress (streaming : Bool) (text delta : Option Text)
  | command (type commandId : Text) (attemptId : Option Text)
  | other (type : Text)
deriving DecidableEq

structure Event where
  seq : ℤ
  payload : EventPayload
  runId : Option Text
deriving DecidableEq

/-- A thread with its messages and events, and the runs that write to it. `botId` is the bot of a
thread that is not of a group. Events are kept in the order in which they were stored. -/
structure Thread where
  id : Text
  botId : Option Text
  nextMessageSeq : ℤ
  nextEventSeq : ℤ
  historyCompactedUpToSeq : Option ℤ
  historyCompactionGeneration : ℕ
  historyCompactionSummary : Option Text
  messages : List Message
  runs : List ThreadRun
  events : List Event

def findRun (thread : Thread) (id : Text) : Option ThreadRun :=
  thread.runs.find? fun run => run.id = id

def updateRun (thread : Thread) (id : Text) (update : ThreadRun → ThreadRun) : Thread :=
  { thread with runs := thread.runs.map fun run => if run.id = id then update run else run }

/-- The trigger `release_run_reply_seq` -/
def releaseReplySeq (run : ThreadRun) : ThreadRun :=
  if run.status = .running then run else { run with replySeq := none }

def withStatus (status : RunStatus) (run : ThreadRun) : ThreadRun :=
  releaseReplySeq { run with status }

/-- The run, where there is one; nothing if it may not write. -/
def assertRunCanWriteHistory (thread : Thread) : Option Text → Option (Option ThreadRun)
  | none => some none
  | some runId =>
    match findRun thread runId with
    | none => none
    | some run => if run.status = .cancelled then none else some (some run)

structure MessageInput where
  role : Role
  runId : Option Text
  blocks : List Block
  heldReplySeq : Option ℤ

def MessageInput.fillsReplyPlace (input : MessageInput) : Bool :=
  input.runId.isSome && input.role = .bot && (input.heldReplySeq.isSome || input.blocks.any Block.isText)

/-- The place that the run of the input holds in the thread, if the input may fill it. -/
def runHold (thread : Thread) (input : MessageInput) (run : Option ThreadRun) : Option ℤ :=
  if input.fillsReplyPlace then run.bind fun run => if run.threadId = thread.id then run.replySeq
    else none else none

/-- The seq of the message, and the thread with it. -/
def createThreadMessage (input : MessageInput) (thread : Thread) : Option (Thread × ℤ) := do
  let run ← assertRunCanWriteHistory thread input.runId
  let hold := runHold thread input run
  let heldSeq := input.heldReplySeq.or hold
  let released :=
    if hold.isSome && hold = heldSeq then
      { thread with
        runs := thread.runs.map fun run => if input.runId = some run.id then { run with replySeq := none } else run }
    else thread
  let seq := heldSeq.getD thread.nextMessageSeq
  return ({ released with
    nextMessageSeq := if heldSeq.isNone then thread.nextMessageSeq + 1 else thread.nextMessageSeq
    messages := { seq, role := input.role, runId := input.runId, blocks := input.blocks } :: thread.messages }, seq)

/-- A message with a number of its own, as the card of a command has it. -/
def createCard (runId : Option Text) (content : Text) (thread : Thread) : Thread :=
  { thread with
    nextMessageSeq := thread.nextMessageSeq + 1
    messages :=
      { seq := thread.nextMessageSeq, role := .bot, runId,
        blocks := [.other (lit "command") content] } :: thread.messages }

def isStreamingReplyText : EventPayload → Bool
  | .progress streaming text delta => streaming && (text.any (· ≠ []) || delta.any (· ≠ []))
  | _ => false

/-- An earlier event of the same type for the command, of the same attempt if one is named. -/
def isDuplicate (payload : EventPayload) (runId : Option Text) (event : Event) : Bool :=
  match payload, event.payload with
  | .command type commandId attemptId, .command type' commandId' attemptId' =>
    event.runId = runId && type' = type && commandId' = commandId && (attemptId.isNone || attemptId' = attemptId)
  | _, _ => false

def holdReplyPlace (run : ThreadRun) (thread : Thread) : Thread :=
  if run.status = .running && run.replySeq.isNone && run.threadId = thread.id then
    updateRun { thread with nextMessageSeq := thread.nextMessageSeq + 1 } run.id fun run =>
      releaseReplySeq { run with replySeq := some thread.nextMessageSeq }
  else thread

/-- The run that writes the event. The event that tells the cancellation of a run is written without
it. -/
def eventWriter (thread : Thread) (runId : Option Text) (cancels : Bool) : Option (Option ThreadRun) :=
  if cancels then some none else assertRunCanWriteHistory thread runId

def appendEvent (payload : EventPayload) (runId : Option Text) (cancels : Bool) (thread : Thread) :
    Option Thread :=
  let numbered := { thread with nextEventSeq := thread.nextEventSeq + 1 }
  if thread.events.any (isDuplicate payload runId) then some numbered
  else do
    let run ← eventWriter thread runId cancels
    let held :=
      match run with
      | some run => if isStreamingReplyText payload then holdReplyPlace run numbered else numbered
      | none => numbered
    return { held with events := held.events ++ [{ seq := thread.nextEventSeq, payload, runId }] }

def messageCreated : EventPayload := .other (lit "thread.message.created")

def postMessage (input : MessageInput) (thread : Thread) : Option Thread := do
  let (posted, _) ← createThreadMessage input thread
  appendEvent messageCreated input.runId false posted

def isProgressOf (runId : Text) (event : Event) : Bool :=
  match event.payload with
  | .progress _ _ _ => event.runId = some runId
  | _ => false

/-- The reply of a run that has ended. `posts` tells whether it is posted in the thread. -/
def saveReply (run : ThreadRun) (outcome : RunStatus) (blocks : List Block) (posts : Bool)
    (finished : Thread) :
    Option Thread :=
  if outcome = .completed && posts && blocks ≠ [] then
    postMessage { role := .bot, runId := some run.id, blocks, heldReplySeq := run.replySeq } finished
  else some finished

def runEnded (outcome : RunStatus) : EventPayload :=
  .other (if outcome = .completed then lit "run.completed" else lit "run.failed")

/-- `finalizeRun`. The place is read before the run leaves `running`. -/
def finalizeRun (runId : Text) (outcome : RunStatus) (blocks : List Block) (posts : Bool) (thread : Thread) :
    Option Thread := do
  guard (outcome = .completed || outcome = .failed)
  let run ← findRun thread runId
  guard (run.threadId = thread.id && run.status = .running)
  let saved ← saveReply run outcome blocks posts (updateRun thread runId (withStatus outcome))
  let told ← appendEvent (runEnded outcome) (some runId) false saved
  return { told with events := told.events.filter fun event => !isProgressOf runId event }

/-- `pauseRunForInput`: the card is in the thread, unless there is one already or it is for another
thread. -/
def pauseRunForInput (runId : Text) (card : Option (List Block)) (thread : Thread) : Option Thread := do
  let run ← findRun thread runId
  guard (run.threadId = thread.id && run.status = .running)
  let paused := updateRun thread runId (withStatus .waitingInput)
  match card with
  | none => return paused
  | some blocks => postMessage { role := .bot, runId := some runId, blocks, heldReplySeq := run.replySeq } paused

/-- Any other change of the status of a run: it is claimed, queued again, loses its lease or is
cancelled. -/
def moveRun (runId : Text) (status : RunStatus) (thread : Thread) : Thread :=
  updateRun thread runId (withStatus status)

/-- A run is created, in the thread of its bot or of a group of it. -/
def createRun (run : ThreadRun) (thread : Thread) : Option Thread := do
  guard (!thread.runs.any fun other => other.id = run.id)
  guard (run.threadId ≠ thread.id || thread.botId.all fun botId => botId = run.botId)
  return { thread with runs := { run with replySeq := none } :: thread.runs }

/-- A run of another thread takes or gives up a place there. -/
def moveElsewhere (runId : Text) (replySeq : Option ℤ) (thread : Thread) : Option Thread := do
  let run ← findRun thread runId
  guard (run.threadId ≠ thread.id)
  return updateRun thread runId fun run => releaseReplySeq { run with replySeq }

/-- The summary that a clear leaves which keeps the messages: `RECEIPT_FILTERED_SUMMARY_MARKER` and
`LEGACY_RESTART_SUMMARY`. -/
def summaryMarker : Text := lit "[receipt-filtered-summary:v1]\n"

def restartSummary : Text := lit "New chat."

/-- The run is one that a clear of the thread cancels. -/
def ThreadRun.isCleared (thread : Thread) (run : ThreadRun) : Bool :=
  run.threadId = thread.id && (thread.botId.all fun botId => botId = run.botId) && run.status.isActive

def clearThread (preserveHistory : Bool) (thread : Thread) : Option Thread :=
  let cancelled :=
    { thread with
      runs := thread.runs.map fun run => if run.isCleared thread then withStatus .cancelled run else run
      messages := if preserveHistory then thread.messages else []
      events := if preserveHistory then thread.events else []
      historyCompactedUpToSeq :=
        if 0 < thread.nextMessageSeq then some (thread.nextMessageSeq - 1) else thread.historyCompactedUpToSeq
      historyCompactionSummary := if preserveHistory then some (summaryMarker ++ restartSummary) else none
      historyCompactionGeneration := thread.historyCompactionGeneration + 1 }
  appendEvent (.other (lit "thread.cleared")) none false cancelled

inductive ThreadOp where
  | post (role : Role) (runId : Option Text) (blocks : List Block)
  | showCard (runId : Option Text) (content : Text)
  | event (payload : EventPayload) (runId : Option Text) (cancels : Bool)
  | finalize (runId : Text) (outcome : RunStatus) (blocks : List Block) (posts : Bool)
  | pause (runId : Text) (card : Option (List Block))
  | moveRun (runId : Text) (status : RunStatus)
  | moveElsewhere (runId : Text) (replySeq : Option ℤ)
  | createRun (run : ThreadRun)
  | clear (preserveHistory : Bool)

namespace ThreadOp

/-- What the transaction leaves, or nothing if it is rolled back. -/
def result (thread : Thread) : ThreadOp → Option Thread
  | post role runId blocks => postMessage { role, runId, blocks, heldReplySeq := none } thread
  | showCard runId content => some (createCard runId content thread)
  | event payload runId cancels => appendEvent payload runId cancels thread
  | finalize runId outcome blocks posts => finalizeRun runId outcome blocks posts thread
  | pause runId card => pauseRunForInput runId card thread
  | moveRun runId status => some (Threads.moveRun runId status thread)
  | moveElsewhere runId replySeq => Threads.moveElsewhere runId replySeq thread
  | createRun run => Threads.createRun run thread
  | clear preserveHistory => clearThread preserveHistory thread

def apply (thread : Thread) (op : ThreadOp) : Thread := (op.result thread).getD thread

end ThreadOp

def newThread (id : Text) (botId : Option Text) : Thread where
  id
  botId
  nextMessageSeq := 0
  nextEventSeq := 0
  historyCompactedUpToSeq := none
  historyCompactionGeneration := 0
  historyCompactionSummary := none
  messages := []
  runs := []
  events := []

end ArdurBot.Threads
