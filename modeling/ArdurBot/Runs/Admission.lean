import ArdurBot.Lib.Calls
import ArdurBot.Runs.Row

/-!
# Admission of runs

`claimBotRun` of `packages/adapters/src/context/concurrency.ts`, with the calls that claim through
it: `continueRun` of `executor.ts` and `refreshRunBrief` of
`packages/memory/src/briefs/maintenance.ts`. A claim is a transaction that locks the bot and the
thread, reads their limits, counts what is live with a query for each count, and then writes one
row. An attempt that has claimed its run renews its lease, saves its progress, waits, or ends, in
any order; its heartbeat goes on beside a requeue. Each act is one query.

Whether a goal holds a run back, whether the process restarts, and what an attempt does next is
answered from outside. The limits do not change. The history of what was written to the runs is kept
beside the rows.
-/

namespace ArdurBot.Runs

open Utf16 ArdurBot.Core

/-- What wrote a run: a claim with the row that its call had read, an attempt, or something else. -/
inductive Writer where
  | claim (call : ℕ) (lease : Lease) (read : Run)
  | attempt (call : ℕ) (lease : Lease)
  | requeue (call : ℕ) (lease : Lease)
  | release
  | other
deriving DecidableEq

structure Event where
  writer : Writer
  before : Run
  after : Run

inductive Lock where
  | bot (id : Text)
  | thread (id : Text)
deriving DecidableEq

structure System where
  now : ℕ
  runs : List Run
  briefs : List Brief
  /-- Which call has a lock. -/
  locks : List (Lock × ℕ)
  history : List Event

structure Limits where
  bots : Text → Option Bot
  threads : Text → Option Thread

section

variable (s : System)

def System.findRun (runId : Text) : Option Run := s.runs.find? fun run => run.id = runId

def System.unlock (index : ℕ) : System :=
  { s with locks := s.locks.filter fun entry => entry.2 ≠ index }

def System.setRun (runId : Text) (data : Run → Run) : System :=
  { s with runs := s.runs.map fun run => if run.id = runId then data run else run }

/-- `updateMany` on the run of an id, and whether it matched. -/
def System.updateMany (writer : Writer) (runId : Text) (matching : Run → Bool) (data : Run → Run) :
    System × Bool :=
  match s.runs.find? fun run => run.id = runId && matching run with
  | none => (s, false)
  | some run =>
    let written := s.setRun runId data
    ({ written with history := ⟨writer, run, data run⟩ :: s.history }, true)

def System.setBrief (matching : Brief → Bool) (data : Brief → Brief) : System :=
  { s with briefs := s.briefs.map fun brief => if matching brief then data brief else brief }

end

/-- What a claim is for: a run that a worker goes on with, or a refresh of a brief. -/
inductive Target where
  | run (workerId : Text) (read : Run)
  | brief (read : Brief)

/-- The input of `claimBotRun`. -/
structure ClaimInput where
  runId : Text
  botId : Text
  threadId : Text
  now : ℕ
  target : Target

inductive Query where
  | bot
  | thread
  | botThread
  | botMaintenance
  | ownBriefMaintenance
deriving DecidableEq

def Query.all : List Query := [.bot, .thread, .botThread, .botMaintenance, .ownBriefMaintenance]

def Query.count (s : System) (x : ClaimInput) : Query → ℕ
  | .bot => s.runs.countP fun run => run.id ≠ x.runId && run.isLive x.now && run.botId = x.botId
  | .thread => s.runs.countP fun run => run.id ≠ x.runId && run.isLive x.now && run.threadId = x.threadId
  | .botThread => s.runs.countP fun run =>
    run.id ≠ x.runId && run.isLive x.now && (run.threadId = x.threadId && run.botId = x.botId)
  | .botMaintenance => s.briefs.countP fun brief => brief.isLive x.now && brief.botId = x.botId
  | .ownBriefMaintenance => s.briefs.countP fun brief =>
    brief.isLive x.now && (brief.threadId = x.threadId && brief.botId = x.botId)

structure Counts where
  bot : ℕ
  thread : ℕ
  botThread : ℕ
  botMaintenance : ℕ
  ownBriefMaintenance : ℕ

def Counts.zero : Counts := ⟨0, 0, 0, 0, 0⟩

def Counts.get (counts : Counts) : Query → ℕ
  | .bot => counts.bot
  | .thread => counts.thread
  | .botThread => counts.botThread
  | .botMaintenance => counts.botMaintenance
  | .ownBriefMaintenance => counts.ownBriefMaintenance

def Counts.set (counts : Counts) (n : ℕ) : Query → Counts
  | .bot => { counts with bot := n }
  | .thread => { counts with thread := n }
  | .botThread => { counts with botThread := n }
  | .botMaintenance => { counts with botMaintenance := n }
  | .ownBriefMaintenance => { counts with ownBriefMaintenance := n }

def isQueued (concurrentRuns maxConcurrentRuns : ℕ) (counts : Counts) : Bool :=
  concurrentRuns ≤ counts.bot + counts.botMaintenance || maxConcurrentRuns ≤ counts.thread ||
    0 < counts.botThread + counts.ownBriefMaintenance

/-- A run that was claimed, with the plan of the call. -/
structure Attempt where
  runId : Text
  lease : Lease
  plan : Plan
  createdAt : ℕ

/-- The three writes of `writeComputerRunRequeue`. -/
inductive Stage where
  | preserve
  | planned
  | retried

inductive Call where
  | continueRun (runId workerId : Text)
  | prepare (run : Run) (workerId : Text)
  | refreshRunBrief (runId : Text)
  | readBrief (run : Run)
  | lockBot (x : ClaimInput)
  | lockThread (x : ClaimInput)
  | readBot (x : ClaimInput)
  | readThread (x : ClaimInput) (concurrentRuns : ℕ)
  | count (x : ClaimInput) (concurrentRuns maxConcurrentRuns : ℕ) (counts : Counts) (rest : List Query)
  | admits (x : ClaimInput)
  | claim (x : ClaimInput) (stamp : ℕ)
  | refused (queued : Bool)
  | claimed (a : Attempt)
  | starting (a : Attempt) (current : Run)
  | working (a : Attempt) (requeue : Option (Stage × Requeue))
  | refreshing (briefId : Text) (now : ℕ)
  | done
  | failed

/-- What comes of what a call awaits, and what an attempt does next. -/
inductive Answer where
  | ok
  | fails
  /-- It was done while the answer is lost. -/
  | lost
  /-- The transaction is tried again. -/
  | conflict
  | refuses
  | renew (stamp : ℕ)
  | renewPlacement (stamp : ℕ)
  | save (turnCheckpoint : Text)
  | suspend
  | requeue (error : Option Text) (providerRetryAt : Option ℕ)
  /-- The checkpoint is read, and the run requeued if a release stamped it. -/
  | requeueReleased
  | refreshPlan
  | pauseForInput (offered : Option Text)
  | pauseForTakeover
  | finalize (error : Option Text)
deriving DecidableEq

def awaited (s : System) (answer : Answer) (done : System × Call) : System × Call :=
  match answer with
  | .fails => (s, .failed)
  | .lost => (done.1, .failed)
  | _ => done

/-- A transaction that fails is rolled back, and its locks are released. -/
def transaction (s : System) (index : ℕ) (x : ClaimInput) (answer : Answer) (done : System × Call) :
    System × Call :=
  match answer with
  | .fails => (s.unlock index, .failed)
  | .conflict => (s.unlock index, .lockBot x)
  | .lost => (done.1.unlock index, .failed)
  | _ => done

/-- A lock that another call has is waited for. -/
def lock (s : System) (index : ℕ) (lock : Lock) (waits next : Call) : System × Call :=
  if s.locks.any fun entry => entry.1 = lock then (s, waits)
    else ({ s with locks := (lock, index) :: s.locks }, next)

def prepare (s : System) (run : Run) (workerId : Text) : Call :=
  if run.cancelRequestedAt.isSome &&
    (run.status = .queued || run.status = .peerPaused || run.status = .peerReady ||
    run.status = .waitingInput) then .done
  else .lockBot ⟨run.id, run.botId, run.threadId, s.now, .run workerId run⟩

def maintenanceRunId (runId : Text) : Text := lit "brief-" ++ runId

def readBrief (s : System) (run : Run) : Call :=
  match s.briefs.find? fun brief => brief.botId = run.botId && brief.threadId = run.threadId with
  | none => .done
  | some brief =>
    if brief.pendingRunId ≠ some run.id then .done
    else if brief.nextAttemptAt.any fun time => s.now < time then .done
    else .lockBot ⟨maintenanceRunId run.id, run.botId, run.threadId, s.now, .brief brief⟩

def admission (s : System) (index : ℕ) (x : ClaimInput) (concurrentRuns maxConcurrentRuns : ℕ)
    (counts : Counts) :
    System × Call :=
  if isQueued concurrentRuns maxConcurrentRuns counts then (s.unlock index, .refused true)
  else
    match x.target with
    | .run _ _ => (s, .admits x)
    | .brief _ => (s, .claim x s.now)

def Brief.isClaimable (read brief : Brief) : Bool :=
  brief.id = read.id && brief.pendingRunId = read.pendingRunId && brief.attemptedAt = read.attemptedAt &&
    brief.nextAttemptAt = read.nextAttemptAt

def claim (s : System) (index : ℕ) (x : ClaimInput) (stamp : ℕ) : System × Call :=
  match x.target with
  | .run workerId read =>
    let lease : Lease := ⟨workerId, nextFence read.leaseFence⟩
    let (claimed, matched) := s.updateMany (.claim index lease read) x.runId (read.isClaimable x.now)
      (claimData workerId lease.fence stamp)
    (claimed.unlock index,
      if matched then .claimed ⟨x.runId, lease, takeoverContinuePlan read.status read.checkpoint, read.createdAt⟩
      else .refused false)
  | .brief read =>
    if s.briefs.any read.isClaimable then
      ((s.setBrief read.isClaimable fun brief =>
          { brief with attemptedAt := some x.now, leaseExpiresAt := some (x.now + briefLeaseMs) }).unlock index,
        .refreshing read.id x.now)
    else (s.unlock index, .refused false)

/-- What an attempt writes to its run while it has it. -/
def Attempt.write (a : Attempt) (s : System) (index : ℕ) (allowed : Run → Bool) (data : Run → Run) :
    System × Bool :=
  s.updateMany (.attempt index a.lease) a.runId (fun run => a.lease.isRunning run && allowed run) data

def requeueStage (s : System) (index : ℕ) (a : Attempt) (stage : Stage) (x : Requeue) : System × Call :=
  let isStamped (run : Run) : Bool := (takeoverCheckpointOf run.checkpoint).isSome
  let write (allowed : Run → Bool) (data : Run → Run) : System × Bool :=
    s.updateMany (.requeue index a.lease) a.runId (fun run => a.lease.isRunning run && allowed run) data
  match stage with
  | .preserve =>
    let (written, matched) := write isStamped (releasedHold x)
    (written, .working a (if matched then none else some (.planned, x)))
  | .planned =>
    let (written, matched) := write (fun run => run.checkpoint = none) (computerRunRequeueData x)
    (written, .working a (if matched then none else some (.retried, x)))
  | .retried => ((write isStamped (releasedHold x)).1, .working a none)

def Run.isNotStopped (run : Run) : Bool := run.cancelRequestedAt = none

def working (s : System) (index : ℕ) (a : Attempt) (requeue : Option (Stage × Requeue)) (answer : Answer) :
    System × Call :=
  let stay : Call := .working a requeue
  match answer with
  | .renew stamp => ((a.write s index (fun _ => true) (renewData (min stamp s.now))).1, stay)
  | .renewPlacement stamp => ((a.write s index Run.isNotStopped (renewData (min stamp s.now))).1, stay)
  | .save turnCheckpoint =>
    ((a.write s index (fun _ => true) fun run => { run with turnCheckpoint := some turnCheckpoint }).1, stay)
  | .suspend =>
    ((a.write s index (fun run => run.isNotStopped && run.turnCheckpoint.isSome) suspendData).1, stay)
  | .requeue error providerRetryAt =>
    (s, .working a (some (.preserve, ⟨a.plan.resumeCheckpoint, a.plan.heldForTakeover, error, providerRetryAt⟩)))
  | .requeueReleased =>
    if !a.plan.heldForTakeover then (s, stay)
    else
      match (s.findRun a.runId).bind fun run => takeoverCheckpointOf run.checkpoint with
      | none => (s, stay)
      | some resume => (s, .working a (some (.preserve, ⟨some resume, false, none, none⟩)))
  | .refreshPlan =>
    match s.findRun a.runId with
    | none => (s, stay)
    | some run => (s, .working { a with plan := refreshTakeoverContinuePlan a.plan run } requeue)
  | .pauseForInput offered => ((a.write s index (fun _ => true) (pauseForInputData offered)).1, stay)
  | .pauseForTakeover => ((a.write s index (fun _ => true) pauseForTakeoverData).1, stay)
  | .finalize error => ((a.write s index Run.isNotStopped (finalizeData error)).1, stay)
  | .ok =>
    match requeue with
    | none => (s, stay)
    | some (stage, x) => requeueStage s index a stage x
  | _ => (s, stay)

def act (limits : Limits) (s : System) (index : ℕ) (call : Call) (answer : Answer) : System × Call :=
  match call with
  | .continueRun runId workerId =>
    awaited s answer (s,
      match s.findRun runId with
      | none => .done
      | some run => if run.status.isTerminal then .done else .prepare run workerId)
  | .prepare run workerId => awaited s answer (s, if answer = .refuses then .done else prepare s run workerId)
  | .refreshRunBrief runId =>
    awaited s answer (s,
      match s.findRun runId with
      | none => .done
      | some run =>
        if answer = .refuses then .done
        else if run.status.isTerminal || run.status = .waitingInput || run.status =
          .waitingTakeover then .readBrief run
        else .done)
  | .readBrief run => awaited s answer (s, if answer = .refuses then .done else readBrief s run)
  | .lockBot x => transaction s index x answer (lock s index (.bot x.botId) (.lockBot x) (.lockThread x))
  | .lockThread x => transaction s index x answer
    (lock s index (.thread x.threadId) (.lockThread x) (.readBot x))
  | .readBot x =>
    transaction s index x answer (
      match limits.bots x.botId with
      | none => (s.unlock index, .failed)
      | some bot => (s, .readThread x bot.limit))
  | .readThread x concurrentRuns =>
    transaction s index x answer (
      match limits.threads x.threadId with
      | none => (s.unlock index, .failed)
      | some thread => (s, .count x concurrentRuns (threadMaxConcurrentRuns thread) .zero Query.all))
  | .count x concurrentRuns maxConcurrentRuns counts rest =>
    transaction s index x answer (
      match rest with
      | [] => admission s index x concurrentRuns maxConcurrentRuns counts
      | query :: rest =>
        (s, .count x concurrentRuns maxConcurrentRuns (counts.set (query.count s x) query) rest))
  | .admits x =>
    transaction s index x answer (
      if answer = .refuses then (s.unlock index, .refused false) else (s, .claim x s.now))
  | .claim x stamp => transaction s index x answer (claim s index x stamp)
  | .claimed a =>
    awaited s answer (s,
      match s.findRun a.runId with
      | none => .failed
      | some current => if answer = .refuses then .done else .starting a current)
  | .starting a current =>
    let (started, matched) := s.updateMany (.attempt index a.lease) a.runId
      (fun run => run.status = .leased && a.lease.holds run) (startData current a.createdAt s.now)
    awaited s answer (started, if matched then .working a none else .done)
  | .working a requeue => working s index a requeue answer
  | .refreshing briefId now =>
    awaited s answer (s.setBrief (fun brief => brief.id = briefId && brief.attemptedAt = some now)
      fun brief => { brief with leaseExpiresAt := none }, .done)
  | .refused queued => (s, .refused queued)
  | .done => (s, .done)
  | .failed => (s, .failed)

inductive Happening where
  | pass (ms : ℕ)
  | created (run : Run)
  | release (runId : Text) (resume : Resume)
  | stopRequested (runId : Text)
  | cancelled (runId : Text)
  | answered (runId : Text) (wasChoice denied : Bool)
  /-- A run for a peer is admitted. -/
  | woken (runId : Text)
  | pending (botId threadId runId briefId : Text)

/-- A new run is not leased, and its id is none of a maintenance. -/
def System.accepts (s : System) (run : Run) : Bool :=
  !run.isLeased && !(lit "brief-").isPrefixOf run.id && s.runs.all fun other => other.id ≠ run.id

def markBriefPending (s : System) (botId threadId runId briefId : Text) : System :=
  let isOf (brief : Brief) : Bool := brief.botId = botId && brief.threadId = threadId
  if s.briefs.any isOf then
    s.setBrief isOf fun brief =>
      if brief.pendingRunId.isSome && brief.pendingRunId ≠ some runId then
        { brief with pendingRunId := some runId, nextAttemptAt := none }
      else { brief with pendingRunId := some runId }
  else if s.briefs.all fun other => other.id ≠ briefId then
    { s with briefs := ⟨briefId, botId, threadId, some runId, none, none, none⟩ :: s.briefs }
  else s

def happen (s : System) : Happening → System
  | .pass ms => { s with now := s.now + ms }
  | .created run => if s.accepts run then { s with runs := run :: s.runs } else s
  | .release runId resume => (s.updateMany .release runId Run.isReleasable (releaseData resume)).1
  | .stopRequested runId =>
    (s.updateMany .other runId (fun _ => true) fun run => { run with cancelRequestedAt := some s.now }).1
  | .cancelled runId => (s.updateMany .other runId (fun _ => true) cancelData).1
  | .answered runId wasChoice denied =>
    (s.updateMany .other runId (fun run => run.status = .waitingInput) (answerData wasChoice denied)).1
  | .woken runId =>
    (s.updateMany .other runId (fun run => run.status = .peerPaused) fun run => { run with status := .queued }).1
  | .pending botId threadId runId briefId => markBriefPending s botId threadId runId briefId

def program (limits : Limits) : Calls.Program System Call Answer Happening where
  act := act limits
  environment := happen

def Call.isStart : Call → Bool
  | .continueRun _ _ => true
  | .refreshRunBrief _ => true
  | _ => false

end ArdurBot.Runs
