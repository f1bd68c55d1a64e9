import ArdurBot.Lib.Calls
import ArdurBot.Threads.Compaction

/-!
# Refreshing the brief of a bot

`packages/memory/src/briefs/maintenance.ts`. A bot has a brief for a thread. A run that is leased
marks the brief as pending; when it has ended, a refresh claims the brief, considers the messages
above its watermark, and moves the watermark if the brief was rewritten or has nothing new.
Refreshes and marks are calls that interleave with the transactions of the thread, each with a query
at a time.

Whether a run is of a comparison, of another channel or shared, what the brief's model gives, and
whether a claim is admitted beside other work, is answered from outside.
-/

namespace ArdurBot.Briefs

open Utf16 ArdurBot.Core Threads

structure Brief where
  pendingRunId : Option Text
  toolResults : Text
  lastMessageSeq : ℤ
  historyGeneration : ℕ
  rewrittenAt : Option ℕ
  attemptedAt : Option ℕ
  leaseExpiresAt : Option ℕ
  reason : Option Text
  failureCount : ℕ
  nextAttemptAt : Option ℕ
deriving DecidableEq

/-- What a call reads of its run and the thread. -/
structure Row where
  botId : Text
  generation : ℕ
  nextMessageSeq : ℤ
deriving DecidableEq

/-- A refresh that has claimed the brief and has not ended. -/
structure Claim where
  botId : Text
  time : ℕ
  call : ℕ

/-- A refresh that moved the watermark: in which generation, and the messages that it considered. -/
structure Considered where
  botId : Text
  generation : ℕ
  batch : List Message

/-- The thread with its briefs. The last three fields are not kept anywhere: which call claimed a
brief last, the claims that have not ended, and what was considered. -/
structure Store where
  thread : Thread
  briefs : Text → Option Brief
  lastClaim : Text → Option ℕ
  inFlight : List Claim
  considered : List Considered

def Store.put (s : Store) (botId : Text) (brief : Brief) : Store :=
  { s with briefs := Function.update s.briefs botId (some brief) }

def Store.leave (s : Store) (index : ℕ) : Store :=
  { s with inFlight := s.inFlight.filter fun claim => claim.call ≠ index }

/-- What a refresh has read, and when it attempts. -/
structure Attempt where
  row : Row
  state : Brief
  now : ℕ
deriving DecidableEq

/-- How a refresh ends: it `covers` what it considered, or failed. Which places were `held` when the
messages were read is not kept by the code. -/
inductive Result where
  | covers (rewritten : Bool) (batch : List Message) (held : List ℤ)
  | failed (reason : Option Text) (deterministic : Bool)
deriving DecidableEq

/-- The next query of a call. The first three are those of `markBriefPending`. -/
inductive Phase where
  | marking
  | resetting (row : Row)
  | creating (row : Row)
  | opening
  | belonging (row : Row)
  | looking (row : Row)
  | claiming (attempt : Attempt)
  | budgeting (attempt : Attempt)
  | reading (attempt : Attempt)
  | considering (attempt : Attempt) (batch : List Message) (held : List ℤ)
  | releasing (attempt : Attempt) (result : Result)
  | holding (attempt : Attempt) (result : Result)
  | committing (attempt : Attempt) (result : Result) (coveredThrough : ℤ)
  | done
deriving DecidableEq

structure Call where
  runId : Text
  phase : Phase

inductive Answer where
  | go
  | eligible (ok : Bool)
  | member (ok : Bool)
  | clock (now : ℕ)
  | admitted (ok : Bool)
  | budget (ok : Bool)
  | outcome (rewritten : Bool)
  | failed (reason : Option Text) (deterministic : Bool)
  | stop

def Call.to (call : Call) (phase : Phase) : Call := { call with phase }

abbrev Acted := Store × Call

/-- The run with the thread, unless it has no brief. -/
def readRow (s : Store) (runId : Text) (eligible : Bool) : Option (ThreadRun × Row) := do
  let run ← findRun s.thread runId
  guard (eligible && run.threadId = s.thread.id)
  return (run, ⟨run.botId, s.thread.historyCompactionGeneration, s.thread.nextMessageSeq⟩)

def newBrief (runId : Text) (generation : ℕ) : Brief where
  pendingRunId := some runId
  toolResults := []
  lastMessageSeq := -1
  historyGeneration := generation
  rewrittenAt := none
  attemptedAt := none
  leaseExpiresAt := none
  reason := none
  failureCount := 0
  nextAttemptAt := none

def resetPending (s : Store) (runId botId : Text) : Store :=
  match s.briefs botId with
  | none => s
  | some brief =>
    if brief.pendingRunId.isSome && brief.pendingRunId ≠ some runId then
      s.put botId { brief with failureCount := 0, nextAttemptAt := none, pendingRunId := some runId, toolResults := [] }
    else s

def upsertPending (s : Store) (runId botId : Text) (generation : ℕ) : Store :=
  match s.briefs botId with
  | none => s.put botId (newBrief runId generation)
  | some brief => s.put botId { brief with pendingRunId := some runId, toolResults := [] }

/-- `take: 50` -/
def batchSize : ℕ := 50

def leaseMs : ℕ := 45000

/-- The statuses of a run whose brief is refreshed. -/
def canRefresh (status : RunStatus) : Bool :=
  status = .completed || status = .failed || status = .cancelled || status = .waitingInput ||
    status = .waitingTakeover

def coveredMessageSeq (nextMessageSeq : ℤ) (holds : List ℤ) : ℤ :=
  match holds.min? with
  | none => nextMessageSeq - 1
  | some lowestHeld => min (nextMessageSeq - 1) (lowestHeld - 1)

def briefRetryAfter (failures : ℕ) (deterministic : Bool) (now : ℕ) : ℕ × ℕ :=
  let failureCount := if deterministic then max 4 (failures + 1) else failures + 1
  let delays := [10 * 60000, 30 * 60000, 2 * 3600000, 24 * 3600000]
  (min failureCount 2147483647, now + delays.getD (min (failureCount - 1) 3) 0)

/-- The watermark above which the messages are read. -/
def Attempt.after (attempt : Attempt) : ℤ :=
  if attempt.state.historyGeneration = attempt.row.generation then attempt.state.lastMessageSeq else -1

/-- The messages that the brief does not cover. -/
def Attempt.unread (attempt : Attempt) (thread : Thread) : List Message :=
  thread.messages.filter fun message => attempt.after < message.seq && message.seq ≤
    attempt.row.nextMessageSeq - 1

/-- The places below the next seq that the attempt read. -/
def Attempt.held (attempt : Attempt) (thread : Thread) : List ℤ :=
  (heldReplySeqs thread).filter fun place => place < attempt.row.nextMessageSeq

def openRefresh (s : Store) (call : Call) (eligible : Bool) : Acted :=
  match readRow s call.runId eligible with
  | none => (s, call.to .done)
  | some (run, row) =>
    if !canRefresh run.status then (s, call.to .done)
    else (s, call.to (if s.thread.botId.isNone then .belonging row else .looking row))

def lookUp (s : Store) (call : Call) (row : Row) (now : ℕ) : Acted :=
  match s.briefs row.botId with
  | none => (s, call.to .done)
  | some state =>
    if state.pendingRunId ≠ some call.runId then (s, call.to .done)
    else if state.historyGeneration = row.generation && row.nextMessageSeq - 1 ≤ state.lastMessageSeq then
      (s, call.to .done)
    else if state.nextAttemptAt.any fun next => now < next then (s, call.to .done)
    else (s, call.to (.claiming ⟨row, state, now⟩))

/-- The brief is as it was read, and no refresh of it has a lease. -/
def isClaimable (brief : Brief) (runId : Text) (attempt : Attempt) : Bool :=
  !(brief.leaseExpiresAt.any fun lease => attempt.now < lease) && brief.pendingRunId = some runId &&
    brief.attemptedAt = attempt.state.attemptedAt && brief.nextAttemptAt = attempt.state.nextAttemptAt

def claim (s : Store) (index : ℕ) (call : Call) (attempt : Attempt) : Acted :=
  match s.briefs attempt.row.botId with
  | none => (s, call.to .done)
  | some brief =>
    if isClaimable brief call.runId attempt then
      let claimed := s.put attempt.row.botId
        { brief with attemptedAt := some attempt.now, leaseExpiresAt := some (attempt.now + leaseMs) }
      ({ claimed with
          lastClaim := Function.update s.lastClaim attempt.row.botId (some index)
          inFlight := ⟨attempt.row.botId, attempt.now, index⟩ :: s.inFlight }, call.to (.budgeting attempt))
    else (s, call.to .done)

def release (s : Store) (call : Call) (attempt : Attempt) (result : Result) : Acted :=
  let released :=
    match s.briefs attempt.row.botId with
    | none => s
    | some brief =>
      if brief.attemptedAt = some attempt.now then
        s.put attempt.row.botId { brief with leaseExpiresAt := none } else s
  match result with
  | .covers .. => (released, call.to (.holding attempt result))
  | .failed .. => (released, call.to (.committing attempt result (attempt.row.nextMessageSeq - 1)))

/-- No other attempt, source run or generation has overtaken the refresh. -/
def isCurrent (brief : Brief) (runId : Text) (attempt : Attempt) : Bool :=
  brief.pendingRunId = some runId && brief.historyGeneration = attempt.state.historyGeneration &&
    brief.attemptedAt = some attempt.now

def refreshed (brief : Brief) (attempt : Attempt) (result : Result) (coveredThrough : ℤ) : Brief :=
  match result with
  | .covers rewritten _ _ =>
    { brief with
      reason := none
      failureCount := 0
      nextAttemptAt := none
      historyGeneration := attempt.row.generation
      lastMessageSeq := coveredThrough
      rewrittenAt := if rewritten then some attempt.now else brief.rewrittenAt }
  | .failed reason deterministic =>
    let retry := briefRetryAfter attempt.state.failureCount deterministic attempt.now
    { brief with reason, failureCount := retry.1, nextAttemptAt := some retry.2 }

def Result.considered (result : Result) (row : Row) : List Considered :=
  match result with
  | .covers _ batch _ => [⟨row.botId, row.generation, batch⟩]
  | .failed .. => []

def commit (s : Store) (index : ℕ) (call : Call) (attempt : Attempt) (result : Result)
    (coveredThrough : ℤ) : Acted :=
  match s.briefs attempt.row.botId with
  | none => (s.leave index, call.to .done)
  | some brief =>
    if isCurrent brief call.runId attempt then
      let moved := s.put attempt.row.botId (refreshed brief attempt result coveredThrough)
      ({ moved.leave index with considered := result.considered attempt.row ++ s.considered }, call.to .done)
    else (s.leave index, call.to .done)

def act (s : Store) (index : ℕ) (call : Call) (answer : Answer) : Acted :=
  match call.phase, answer with
  | .marking, .eligible ok =>
    match readRow s call.runId ok with
    | none => (s, call.to .done)
    | some (_, row) => (s, call.to (.resetting row))
  | .resetting row, .go => (resetPending s call.runId row.botId, call.to (.creating row))
  | .creating row, .go => (upsertPending s call.runId row.botId row.generation, call.to .done)
  | .opening, .eligible ok => openRefresh s call ok
  | .belonging row, .member ok => (s, call.to (if ok then .looking row else .done))
  | .looking row, .clock now => lookUp s call row now
  | .claiming attempt, .admitted ok => if ok then claim s index call attempt else (s, call.to .done)
  | .budgeting attempt, .budget ok =>
    (s, call.to (if ok then .reading attempt
      else .releasing attempt (.failed (some (lit "Task budget reached")) false)))
  | .budgeting attempt, .failed reason deterministic =>
    (s, call.to (.releasing attempt (.failed reason deterministic)))
  | .reading attempt, .go =>
    (s, call.to (.considering attempt (newest batchSize (attempt.unread s.thread)) (attempt.held s.thread)))
  | .reading attempt, .failed reason deterministic =>
    (s, call.to (.releasing attempt (.failed reason deterministic)))
  | .considering attempt batch held, .outcome rewritten =>
    (s, call.to (.releasing attempt (.covers rewritten batch held)))
  | .considering attempt _ _, .failed reason deterministic =>
    (s, call.to (.releasing attempt (.failed reason deterministic)))
  | .releasing attempt result, .go => release s call attempt result
  | .holding attempt result, .go =>
    (s, call.to (.committing attempt result (coveredMessageSeq attempt.row.nextMessageSeq (heldReplySeqs s.thread))))
  | .committing attempt result coveredThrough, .go => commit s index call attempt result coveredThrough
  | _, .stop => (s.leave index, call.to .done)
  | _, _ => (s, call)

/-- Transactions of the thread, a run that leaves what its tools gave, and a change of settings that
resets the retries of a brief. -/
inductive Event where
  | thread (op : ThreadOp)
  | toolResults (botId runId toolResults : Text)
  | resetBriefRetries (botId : Text)

def updateBrief (s : Store) (botId : Text) (update : Brief → Brief) : Store :=
  match s.briefs botId with
  | none => s
  | some brief => s.put botId (update brief)

def environment (s : Store) : Event → Store
  | .thread op => { s with thread := op.apply s.thread }
  | .toolResults botId runId toolResults =>
    updateBrief s botId fun brief => if brief.pendingRunId = some runId then { brief with toolResults } else brief
  | .resetBriefRetries botId =>
    updateBrief s botId fun brief => { brief with failureCount := 0, nextAttemptAt := none, attemptedAt := none }

def program : Calls.Program Store Call Answer Event where
  act
  environment

def Call.isNew (call : Call) : Prop := call.phase = .marking ∨ call.phase = .opening

instance (call : Call) : Decidable call.isNew := inferInstanceAs (Decidable (_ ∨ _))

def newStore (id : Text) (botId : Option Text) : Store where
  thread := newThread id botId
  briefs := fun _ => none
  lastClaim := fun _ => none
  inFlight := []
  considered := []

end ArdurBot.Briefs
