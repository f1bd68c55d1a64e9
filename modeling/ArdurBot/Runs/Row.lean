import ArdurBot.Core.RunState
import ArdurBot.Lib.Json.Value

/-!
# Rows of runs and briefs

The statements that change the status, the lease or a checkpoint of a run: those of `executor.ts`,
`turn-progress.ts` and `fleet/placement.ts` in `packages/adapters/src`, and of
`packages/db/src/events.ts`. Each is a condition on the row and the row that it leaves. The limits
are those of `packages/adapters/src/context/concurrency.ts`.
-/

namespace ArdurBot.Runs

open Utf16 ArdurBot.Core Json

structure Run where
  id : Text
  botId : Text
  threadId : Text
  status : RunStatus
  checkpoint : Option Text
  turnCheckpoint : Option Text
  leaseOwner : Option Text
  leaseFence : ℕ
  leaseExpiresAt : Option ℕ
  providerRetryAt : Option ℕ
  cancelRequestedAt : Option ℕ
  createdAt : ℕ
  startedAt : Option ℕ
  queueWaitMs : Option ℕ
  error : Option Text
deriving DecidableEq

structure Brief where
  id : Text
  botId : Text
  threadId : Text
  pendingRunId : Option Text
  attemptedAt : Option ℕ
  nextAttemptAt : Option ℕ
  leaseExpiresAt : Option ℕ

def runLeaseMs : ℕ := 5 * 60000

def briefLeaseMs : ℕ := 45000

def Run.isLeased (run : Run) : Bool := run.status = .leased || run.status = .running

/-- A run that is leased or running is live until its lease runs out. -/
def Run.isLive (run : Run) (now : ℕ) : Bool :=
  run.isLeased && run.leaseExpiresAt.any fun expiresAt => now < expiresAt

def Brief.isLive (brief : Brief) (now : ℕ) : Bool :=
  brief.leaseExpiresAt.any fun expiresAt => now < expiresAt

structure Bot where
  concurrentRuns : Option ℕ
  spaceConcurrentRuns : ℕ

def Bot.limit (bot : Bot) : ℕ := bot.concurrentRuns.getD bot.spaceConcurrentRuns

/-- A thread of a group has the policy that is stored for the group, if there is one. -/
structure Thread where
  policy : Option (Option JsValue)

/-- Bots answer one at a time in a direct thread. -/
def directThreadMaxConcurrentRuns : ℕ := 1

/-- `ROOM_POLICY_V1_DEFAULTS` -/
def defaultMaxConcurrentRuns : ℕ := 4

/-- An integer within the bounds of `maxConcurrentRuns`. -/
def parseMaxConcurrentRuns : JsValue → Option ℕ
  | .num (.finite x) => if x.val.den = 1 ∧ 1 ≤ x.val ∧ x.val ≤ 8 then some x.val.num.toNat else none
  | _ => none

def isVersionOne : JsValue → Bool
  | .num (.finite x) => x.val = 1
  | _ => false

/-- `parseRoomPolicy`: a setting that is missing or not valid has its default. -/
def parseRoomPolicy : Option JsValue → ℕ
  | some (.obj stored) =>
    if (getField stored (lit "version")).any isVersionOne then
      ((getField stored (lit "maxConcurrentRuns")).bind parseMaxConcurrentRuns).getD defaultMaxConcurrentRuns
    else defaultMaxConcurrentRuns
  | _ => defaultMaxConcurrentRuns

def threadMaxConcurrentRuns (thread : Thread) : ℕ :=
  match thread.policy with
  | none => directThreadMaxConcurrentRuns
  | some policy => parseRoomPolicy policy

inductive Resume where
  | takeover
  | takeoverSkipped

def Resume.checkpoint : Resume → Text
  | .takeover => lit "takeover"
  | .takeoverSkipped => lit "takeover-skipped"

/-- `takeoverCheckpointOf`, with `TAKEOVER_RESUME_CHECKPOINTS`. -/
def takeoverCheckpointOf (checkpoint : Option Text) : Option Resume :=
  if checkpoint = some Resume.takeover.checkpoint then some .takeover
  else if checkpoint = some Resume.takeoverSkipped.checkpoint then some .takeoverSkipped
  else none

structure Plan where
  resumeCheckpoint : Option Resume
  heldForTakeover : Bool

def takeoverContinuePlan (status : RunStatus) (checkpoint : Option Text) : Plan where
  resumeCheckpoint := takeoverCheckpointOf checkpoint
  heldForTakeover := status = .waitingTakeover && (takeoverCheckpointOf checkpoint).isNone

/-- A release that stamped a checkpoint while the run was held gives a new plan. -/
def refreshTakeoverContinuePlan (plan : Plan) (run : Run) : Plan :=
  if !plan.heldForTakeover then plan
  else if (takeoverCheckpointOf run.checkpoint).isNone then plan
  else takeoverContinuePlan run.status run.checkpoint

def nextFence (current : ℕ) : ℕ := current + 1

/-- `continueRunClaimFence`, and that no one has the run. -/
def Run.isClaimable (read : Run) (now : ℕ) (run : Run) : Bool :=
  run.status = read.status && run.checkpoint = read.checkpoint &&
    (run.status = .queued || run.status = .waitingInput || run.status = .waitingTakeover ||
      run.isLeased && run.leaseExpiresAt.any fun expiresAt => expiresAt ≤ now)

def claimData (workerId : Text) (fence stamp : ℕ) (run : Run) : Run where
  __ := run
  status := .leased
  leaseOwner := some workerId
  leaseFence := fence
  leaseExpiresAt := some (stamp + runLeaseMs)
  error := none
  checkpoint := none
  providerRetryAt := none

/-- Who holds a run: the worker with its fence. -/
structure Lease where
  workerId : Text
  fence : ℕ
deriving DecidableEq

def Lease.holds (lease : Lease) (run : Run) : Bool :=
  run.leaseOwner = some lease.workerId && run.leaseFence = lease.fence

def Lease.isRunning (lease : Lease) (run : Run) : Bool := run.status = .running && lease.holds run

/-- `current` was read before, and so was the run that says when it was created. -/
def startData (current : Run) (createdAt now : ℕ) (run : Run) : Run where
  __ := run
  status := .running
  startedAt := some (current.startedAt.getD now)
  queueWaitMs := some (current.queueWaitMs.getD (now - createdAt))

def renewData (stamp : ℕ) (run : Run) : Run :=
  { run with leaseExpiresAt := some (stamp + runLeaseMs) }

def suspendData (run : Run) : Run := { run with leaseOwner := none, leaseExpiresAt := some 0 }

def pauseForInputData (offered : Option Text) (run : Run) : Run where
  __ := run
  status := .waitingInput
  leaseOwner := none
  leaseExpiresAt := none
  turnCheckpoint := none
  checkpoint := offered.or run.checkpoint

def pauseForTakeoverData (run : Run) : Run where
  __ := run
  status := .waitingTakeover
  leaseOwner := none
  leaseExpiresAt := none
  checkpoint := none

/-- The outcome of a turn: completed, or failed with an error. -/
def finalizeData (error : Option Text) (run : Run) : Run where
  __ := run
  status := if error.isSome then .failed else .completed
  error
  leaseOwner := none
  leaseExpiresAt := none

/-- The arguments of `writeComputerRunRequeue`, beside the lease. -/
structure Requeue where
  resumeCheckpoint : Option Resume
  heldForTakeover : Bool
  error : Option Text
  providerRetryAt : Option ℕ

def releasedHold (x : Requeue) (run : Run) : Run where
  __ := run
  status := .queued
  error := x.error
  leaseOwner := none
  leaseExpiresAt := none
  providerRetryAt := x.providerRetryAt.or run.providerRetryAt

def computerRunRequeueData (x : Requeue) (run : Run) : Run where
  __ := run
  status := if x.heldForTakeover && x.resumeCheckpoint.isNone then .waitingTakeover else .queued
  error := x.error
  leaseOwner := none
  leaseExpiresAt := none
  checkpoint := x.resumeCheckpoint.map Resume.checkpoint
  providerRetryAt := x.providerRetryAt.or run.providerRetryAt

/-- `finalizeComputerControlRelease`: the run is queued again, or only stamped while a worker has
it. -/
def releaseData (resume : Resume) (run : Run) : Run :=
  if run.status = .waitingTakeover then { run with status := .queued, checkpoint := some resume.checkpoint }
  else { run with checkpoint := some resume.checkpoint }

def Run.isReleasable (run : Run) : Bool := run.status = .waitingTakeover || run.isLeased

/-- `cancelRunsInTransaction` -/
def cancelData (run : Run) : Run :=
  { run with status := .cancelled, leaseOwner := none, leaseExpiresAt := none }

/-- A person answers; a choice that was offered is taken from the row. -/
def answerData (wasChoice denied : Bool) (run : Run) : Run where
  __ := run
  status := if denied then .cancelled else .queued
  turnCheckpoint := none
  checkpoint := if wasChoice then none else run.checkpoint

end ArdurBot.Runs
