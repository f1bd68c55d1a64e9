import ArdurBot.Threads.Message
import Mathlib.Data.List.Sort

/-!
# Compaction of the history of a thread

`packages/adapters/src/history-compaction.ts`. A compaction reads the row of the thread, the places
that are held, and a batch of messages, each in a query of its own, has the batch summarised, and
stores the summary if the cursor and the generation of the thread are as it read them. A run is
given the messages above the cursor and the summary.
-/

namespace ArdurBot.Threads

open Utf16 ArdurBot.Core

def compactionBatchSize : ℕ := 50

def historyWindowSize : ℕ := 50

def legacyHistoryWindowSize : ℕ := 200

def maxCompactedSummaryChars : ℕ := 20000

def maxTranscriptChars : ℕ := 40000

/-- `NOTHING_COMPACTED` -/
def nothingCompacted : ℤ := -1

def pendingSummaryRebuild : Text := lit "[pending-summary-rebuild:v1]"

def receiptFilteredSummary (stored : Option Text) : Option Text :=
  match stored with
  | none => none
  | some stored =>
    if stored = restartSummary then some stored
    else if summaryMarker.isPrefixOf stored then
      let summary := trim (stored.drop summaryMarker.length)
      if summary = [] then none else some summary
    else none

def bySeq (messages : List Message) : List Message :=
  messages.insertionSort fun a b => a.seq ≤ b.seq

def newest (count : ℕ) (messages : List Message) : List Message :=
  ((bySeq messages).reverse.take count).reverse

def messagesBetween (thread : Thread) (above below : ℤ) : List Message :=
  bySeq (thread.messages.filter fun message => above < message.seq && message.seq < below)

def heldReplySeqs (thread : Thread) : List ℤ :=
  thread.runs.filterMap fun run => if run.threadId = thread.id && run.status = .running then
    run.replySeq else none

def lowestHeldReplySeq (holds : List ℤ) (aboveSeq : ℤ) : Option ℤ :=
  (holds.filter fun hold => aboveSeq < hold).min?

def compactionUpperSeq (thread : Thread) (nextMessageSeq aboveSeq : ℤ) : ℤ :=
  match lowestHeldReplySeq (heldReplySeqs thread) aboveSeq with
  | none => nextMessageSeq
  | some lowestHeld => min nextMessageSeq lowestHeld

structure Selection where
  history : List Message
  summary : Option Text
  usedLocalSummary : Bool

def selectCompactedHistory (messages : List Message) (summary : Option Text)
    (historyCompactedUpToSeq : Option ℤ) :
    Selection :=
  let messages := bySeq messages
  match receiptFilteredSummary summary, historyCompactedUpToSeq with
  | some summary, some cursor =>
    let uncompacted := messages.filter fun message => cursor < message.seq
    if maxCompactedSummaryChars < summary.length then ⟨messages, none, false⟩
    else if uncompacted ≠ [] && messages.head?.any fun first => cursor + 1 < first.seq then ⟨messages, none, false⟩
    else ⟨uncompacted, some summary, true⟩
  | _, _ => ⟨messages, none, false⟩

/-- What a run is given of the history of its thread. -/
def runHistory (thread : Thread) : Selection :=
  selectCompactedHistory (newest legacyHistoryWindowSize thread.messages) thread.historyCompactionSummary
    thread.historyCompactedUpToSeq

/-- What an attempt has read beyond the row of the thread. -/
inductive Stage where
  | row
  | legacy
  | legacyCleared (cleared : Bool)
  | ready
  | bounded (upper : ℤ)
  | windowed (oldestKept : ℤ)
  | batched (batch : List Message) (bootstrapping : Bool)

structure Attempt where
  cursor : Option ℤ
  generation : ℕ
  storedSummary : Option Text
  nextMessageSeq : ℤ
  stage : Stage

/-- `fromSeqExclusive` -/
def Attempt.from (attempt : Attempt) : ℤ := attempt.cursor.getD nothingCompacted

def Attempt.isCurrent (attempt : Attempt) (thread : Thread) : Bool :=
  thread.historyCompactedUpToSeq = attempt.cursor && thread.historyCompactionGeneration = attempt.generation

def beginAttempt (thread : Thread) : Attempt where
  cursor := thread.historyCompactedUpToSeq
  generation := thread.historyCompactionGeneration
  storedSummary := thread.historyCompactionSummary
  nextMessageSeq := thread.nextMessageSeq
  stage := .row

/-- A stored summary without the marker is discarded. -/
def Attempt.invalidates (attempt : Attempt) : Bool :=
  attempt.storedSummary.any (· ≠ []) && (receiptFilteredSummary attempt.storedSummary).isNone &&
    !(attempt.storedSummary = some pendingSummaryRebuild && attempt.cursor.isNone)

def Attempt.needsLocalBootstrap (attempt : Attempt) : Bool :=
  attempt.generation = 0 && attempt.cursor.isSome && (receiptFilteredSummary attempt.storedSummary).isNone

def checkSummary (attempt : Attempt) (thread : Thread) : Thread × Option Attempt :=
  if attempt.invalidates then
    if attempt.isCurrent thread && thread.historyCompactionSummary = attempt.storedSummary then
      ({ thread with historyCompactedUpToSeq := none, historyCompactionSummary := some pendingSummaryRebuild },
        some { attempt with cursor := none, storedSummary := none, stage := .ready })
    else (thread, none)
  else if (receiptFilteredSummary attempt.storedSummary).any fun summary =>
    maxCompactedSummaryChars < summary.length then
    (thread, none)
  else if attempt.needsLocalBootstrap then (thread, some { attempt with stage := .legacy })
  else (thread, some { attempt with stage := .ready })

def isThreadCleared (event : Event) : Bool := event.payload = .other (lit "thread.cleared")

section

variable (attempt : Attempt)

/-- The messages of a thread whose summary is not stored, if they are few and without a gap. -/
def readLegacyBatch (cleared : Bool) (thread : Thread) : Option Attempt :=
  match attempt.cursor with
  | none => none
  | some cursor =>
    let batch := newest (legacyHistoryWindowSize + 1) (thread.messages.filter fun message => message.seq ≤ cursor)
    if cursor < 0 then none
    else
      match batch with
      | [] => some { attempt with stage := .ready }
      | first :: _ =>
        if legacyHistoryWindowSize < batch.length then none
        else if batch.map Message.seq = (List.range batch.length).map (fun (index : ℕ) => first.seq + index) &&
            first.seq + batch.length = cursor + 1 && (cleared || first.seq = 0) then
          some { attempt with stage := .batched batch true }
        else none

def readKept (upper : ℤ) (thread : Thread) : Option Attempt :=
  let kept := (messagesBetween thread attempt.from upper).reverse.take historyWindowSize
  if historyWindowSize ≤ kept.length then
    kept.getLast?.map fun oldest => { attempt with stage := .windowed oldest.seq }
  else none

def readBatch (oldestKept : ℤ) (thread : Thread) : Option Attempt :=
  let batch := (messagesBetween thread attempt.from oldestKept).take compactionBatchSize
  if batch = [] then none else some { attempt with stage := .batched batch false }

/-- The next query of an attempt: what it leaves of the thread, and the attempt unless it
returns. -/
def Attempt.advance (thread : Thread) : Thread × Option Attempt :=
  match attempt.stage with
  | .row => checkSummary attempt thread
  | .legacy => (thread, some { attempt with stage := .legacyCleared (thread.events.any isThreadCleared) })
  | .legacyCleared cleared => (thread, readLegacyBatch attempt cleared thread)
  | .ready =>
    (thread, some { attempt with stage := .bounded (compactionUpperSeq thread attempt.nextMessageSeq attempt.from) })
  | .bounded upper => (thread, readKept attempt upper thread)
  | .windowed oldestKept => (thread, readBatch attempt oldestKept thread)
  | .batched _ _ => (thread, some attempt)

end

def joinParts (parts : List Text) : Text := (lit "\n\n").intercalate parts

/-- How many parts fit into the transcript, after parts of the length, if there are any. -/
def fittingParts : Option ℕ → List Text → ℕ
  | _, [] => 0
  | length, part :: parts =>
    let next := length.elim part.length (· + 2 + part.length)
    if maxTranscriptChars < next then 0 else fittingParts (some next) parts + 1

def fitBatch (render : Message → Text) (batch : List Message) (bootstrapping : Bool) :
    Option (List Message) :=
  let parts := batch.map render
  if maxTranscriptChars < (joinParts parts).length then
    if bootstrapping then none
    else if fittingParts none parts = 0 then none
    else some (batch.take (fittingParts none parts))
  else some batch

/-- A summary that was committed: for which generation, and of which messages. -/
structure Commit where
  generation : ℕ
  batch : List Message

/-- What the attempt has read to summarise, and whether it is for a summary that was not stored. -/
def Attempt.batch (attempt : Attempt) : Option (List Message × Bool) :=
  match attempt.stage with
  | .batched batch bootstrapping => some (batch, bootstrapping)
  | _ => none

/-- `render` is the text of a message, and `text` what the summariser gave for the transcript. -/
def commitSummary (attempt : Attempt) (render : Message → Text) (text : Text) (thread : Thread) :
    Option (Thread × Commit) := do
  let (batch, bootstrapping) ← attempt.batch
  let fitting ← fitBatch render batch bootstrapping
  let last ← fitting.getLast?
  guard (trim text ≠ [])
  guard ((trim text).length + summaryMarker.length ≤ maxCompactedSummaryChars)
  guard (attempt.isCurrent thread)
  return ({ thread with
    historyCompactedUpToSeq := some last.seq
    historyCompactionSummary := some (summaryMarker ++ trim text) }, { generation := attempt.generation, batch := fitting })

/-- A thread with the compactions of it. `commits` and `clearedBelow` record what was committed, and
the next seq of the thread at its last clear. -/
structure Compactions where
  thread : Thread
  attempts : ℕ → Option Attempt
  commits : List Commit
  clearedBelow : ℤ

inductive CompactionOp where
  | thread (op : ThreadOp)
  | begin (id : ℕ)
  | advance (id : ℕ)
  | commit (id : ℕ) (render : Message → Text) (text : Text)
  | abandon (id : ℕ)

namespace CompactionOp

def threadCleared (state : Compactions) : ThreadOp → ℤ
  | .clear _ => state.thread.nextMessageSeq
  | _ => state.clearedBelow

def apply (state : Compactions) : CompactionOp → Compactions
  | thread op =>
    match op.result state.thread with
    | none => state
    | some next => { state with thread := next, clearedBelow := threadCleared state op }
  | begin id => { state with attempts := Function.update state.attempts id (some (beginAttempt state.thread)) }
  | advance id =>
    match state.attempts id with
    | none => state
    | some attempt =>
      let (next, advanced) := attempt.advance state.thread
      { state with thread := next, attempts := Function.update state.attempts id advanced }
  | commit id render text =>
    match state.attempts id with
    | none => state
    | some attempt =>
      let ended := { state with attempts := Function.update state.attempts id none }
      match commitSummary attempt render text state.thread with
      | none => ended
      | some (next, committed) => { ended with thread := next, commits := committed :: state.commits }
  | abandon id => { state with attempts := Function.update state.attempts id none }

end CompactionOp

def newCompactions (id : Text) (botId : Option Text) : Compactions where
  thread := newThread id botId
  attempts := fun _ => none
  commits := []
  clearedBelow := 0

end ArdurBot.Threads
