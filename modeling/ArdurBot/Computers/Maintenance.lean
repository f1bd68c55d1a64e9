import ArdurBot.Lib.Calls
import ArdurBot.Lib.History
import ArdurBot.Lib.Utf16

/-!
# Maintenance of a computer

`computer-update.ts`, `fleet/placement.ts`, and the provisioning, the replacement and the execution
leases of `computer-lifecycle.ts`, all of `packages/adapters/src`. A call acts between two of its
awaits at a time, and may stop at any. The database may fail, or commit while the answer is lost; so
may the provider. The transactions that reserve the computer lock its row before their first read of
it and commit in a later act: until then the others read the row as it was, and wait to write it.

One computer is modelled. The database issues no id twice, so the id of an update is that of nothing
else. What a configuration asks for, which engine there is, and where a run is to be placed are left
open. So is whatever else changes the rows, except the reservation.
-/

namespace ArdurBot.Maintenance

open Utf16

/-! ### Rows -/

inductive ComputerState where
  | running
  | stopped
  | suspended
  | error
  | booting
  | suspending
deriving DecidableEq

/-- An update, or anything else that works on the computer. -/
inductive Operation where
  | update (id : ℕ)
  | other (name : Text)
deriving DecidableEq

structure Computer where
  isTeam : Bool
  kind : Text
  connectionId : Option Text
  providerRef : Option Text
  state : ComputerState
  maintenanceId : Option ℕ
  isUserHolder : Bool
  controlLeaseId : Option Text
  controlLeaseExpiresAt : Option ℕ
  provisioningId : Option ℕ
  updatedAt : ℕ
  /-- Not kept by the code: the call, and the operation, under whose boot or suspension the row
  is. -/
  claim : Option (ℕ × Operation)

inductive UpdateStatus where
  | queued
  | running
  | interrupted
  | completed
  | failed
  | dismissed
deriving DecidableEq

structure ComputerUpdate where
  id : ℕ
  botId : Text
  isRecover : Bool
  status : UpdateStatus
  updatedAt : ℕ

structure ExecutionLease where
  botId : Text
  runId : Text
  fence : ℕ
  expiresAt : ℕ
deriving DecidableEq

structure Bot where
  id : Text
  isArchived : Bool
  computerSwitching : Bool
  isPi : Bool
  moveAutomatically : Bool
  placementConsent : Bool
  declined : Bool

inductive RunStatus where
  | queued
  | leased
  | running
  | waitingInput
  | waitingTakeover
  | over
deriving DecidableEq

inductive PlacementStatus where
  | pending
  | declined
  | skipped
  | moving
  | moved
  | failed
deriving DecidableEq

structure Run where
  id : Text
  botId : Text
  status : RunStatus
  isCancelRequested : Bool
  leaseOwner : Option Text
  leaseFence : ℕ
  leaseExpiresAt : Option ℕ
  hasRuntimeComputer : Bool
  placement : Option PlacementStatus

/-- An update was taken up by a call, its replacement began, the provider was used to provision or
replace the computer, the replacement ended, its reservation was cleared. -/
inductive Event where
  | taken (call update : ℕ)
  | began (update : ℕ)
  | used (operation : Operation) (reserved : Option ℕ)
  | ended (update : ℕ)
  | cleared (update : ℕ)
deriving DecidableEq

structure System where
  now : ℕ
  computer : Computer
  updates : List ComputerUpdate
  nextUpdate : ℕ
  leases : List ExecutionLease
  bots : List Bot
  runs : List Run
  /-- The call whose transaction has the row of the computer locked. -/
  lock : Option ℕ
  history : List Event

def System.record (s : System) (event : Event) : System := { s with history := event :: s.history }

def executionLeaseMs : ℕ := 300000

def bootClaimStaleMs : ℕ := executionLeaseMs

def staleMs : ℕ := 600000

def bootWaitAttempts : ℕ := 40

def hasActiveComputerControl (computer : Computer) (now : ℕ) : Bool :=
  computer.isUserHolder && computer.controlLeaseId.isSome &&
    computer.controlLeaseExpiresAt.any fun expiresAt => now < expiresAt

/-- There is a lease of control, and it has run out. -/
def hasLapsedComputerControl (computer : Computer) (now : ℕ) : Bool :=
  computer.controlLeaseId.isSome && !hasActiveComputerControl computer now

def isAbandonedLifecycleClaim (updatedAt now : ℕ) : Bool := updatedAt + bootClaimStaleMs ≤ now

def isLiveSuspending (computer : Computer) (now : ℕ) : Bool :=
  computer.state = .suspending && !isAbandonedLifecycleClaim computer.updatedAt now

def computerRunsOnHost (computer : Computer) : Bool :=
  computer.connectionId.isNone && computer.kind = lit "desktop"

def RunStatus.isActive (status : RunStatus) : Bool := status ≠ .over

section

variable (s : System)

def System.hasActiveRun (except : Option Text) : Bool :=
  s.runs.any fun run => run.status.isActive && except ≠ some run.id && s.bots.any fun bot =>
    bot.id = run.botId

/-- A live worker lease on another run that uses the computer. -/
def hasLiveForeignRunLease (exceptRunId : Option Text) : Bool :=
  s.runs.any fun run => run.status.isActive && (s.bots.any fun bot => bot.id = run.botId) &&
    run.leaseExpiresAt.any (fun expiresAt => s.now < expiresAt) && exceptRunId ≠ some run.id

def hasForeignExecutionLease (botId : Text) (now : ℕ) : Bool :=
  s.leases.any fun lease => lease.botId ≠ botId && now < lease.expiresAt

def System.hasLiveLease : Bool := s.leases.any fun lease => s.now < lease.expiresAt

/-- `heldByNobodyElse`, at the time that it was asked for. -/
def heldByNobodyElse (now : ℕ) (lease : Option (Text × ℕ)) : Bool :=
  s.leases.all fun other => !(now < other.expiresAt && lease ≠ some (other.runId, other.fence))

/-- The computer may be reserved: a transaction that has locked its row asks this of the rows that
are committed. -/
def System.isReservable : Bool :=
  s.computer.maintenanceId.isNone && s.computer.state ≠ .booting && s.computer.state ≠ .suspending &&
    !s.computer.isUserHolder && !s.hasLiveLease

/-- `updateMany` on the row of the computer, and whether it matched. -/
def System.updateComputer (matching : Bool) (data : Computer → Computer) : System × Bool :=
  if matching then ({ s with computer := data s.computer }, true) else (s, false)

/-- `updateMany` on the row of an update, and whether it matched. -/
def System.updateUpdate (id : ℕ) (matching : ComputerUpdate → Bool)
    (data : ComputerUpdate → ComputerUpdate) : System × Bool :=
  ({ s with updates := s.updates.map fun row =>
      if row.id = id && matching row then { data row with updatedAt := s.now } else row },
    s.updates.any fun row => row.id = id && matching row)

def System.setStatus (id : ℕ) (matching : ComputerUpdate → Bool) (status : UpdateStatus) : System × Bool :=
  s.updateUpdate id matching fun row => { row with status }

end

def isRunning (row : ComputerUpdate) : Bool := row.status = .running

/-- The reservation of an update is taken off the computer. -/
def System.clearReservation (s : System) (id : ℕ) : System :=
  if s.computer.maintenanceId = some id then
    { s with computer := { s.computer with maintenanceId := none, updatedAt := s.now }, history := .cleared id :: s.history }
  else s

/-- `finishUpdate`. -/
def finishUpdate (s : System) (id : ℕ) (status : UpdateStatus) : System :=
  match s.setStatus id (fun row => row.status = .running || row.status = .interrupted) status with
  | (_, false) => s
  | (finished, true) => finished.clearReservation id

structure OwnedRun where
  id : Text
  botId : Text
  leaseOwner : Option Text
  leaseFence : ℕ

def OwnedRun.matches (x : OwnedRun) (run : Run) : Bool :=
  run.id = x.id && run.status = .running && !run.isCancelRequested && run.leaseOwner = x.leaseOwner &&
    run.leaseFence = x.leaseFence

def System.updateRun (s : System) (x : OwnedRun) (data : Run → Run) : System × Bool :=
  ({ s with runs := s.runs.map fun run => if x.matches run then data run else run }, s.runs.any x.matches)

/-! ### Calls -/

/-- A placement that has reserved the computer. -/
structure Placing where
  updateId : ℕ
  run : OwnedRun

inductive Owner where
  | other (name : Text)
  | update (id : ℕ)
  | placement (x : Placing)

/-- The context of an operation: whose it is, its bot, its run and its screen lease. -/
structure Task where
  owner : Owner
  botId : Option Text
  runId : Option Text
  lease : Option (Text × ℕ)

def Owner.updateId : Owner → Option ℕ
  | .other _ => none
  | .update id => some id
  | .placement x => some x.updateId

def Task.operation (task : Task) : Operation :=
  match task.owner with
  | .other name => .other name
  | .update id => .update id
  | .placement x => .update x.updateId

/-- `maintenanceId && maintenanceId !== operationId` is refused. -/
def Task.admits (task : Task) (computer : Computer) : Bool :=
  computer.maintenanceId.all fun id => Operation.update id = task.operation

inductive Mode where
  | recover
  | reset
  | update
deriving DecidableEq

/-- A replacement that has read the row; `kind` and `connectionId` are what its configuration leads
to. -/
structure Replacing where
  task : Task
  mode : Mode
  existing : Computer
  hasSource : Bool
  kind : Option Text
  connectionId : Option Text
  /-- When it made its claim, and the stamp it put on the row. -/
  now : ℕ
  claimStamp : ℕ

def Replacing.placementRunId (x : Replacing) : Option Text :=
  match x.task.owner with
  | .placement placing => some placing.run.id
  | _ => none

def Replacing.matches (s : System) (x : Replacing) (botId : Text) : Bool :=
  s.computer.state = x.existing.state && s.computer.maintenanceId = x.existing.maintenanceId &&
    ((x.existing.state ≠ .booting && x.existing.state ≠ .suspending) ||
      s.computer.updatedAt = x.existing.updatedAt) &&
    !hasForeignExecutionLease s botId x.now &&
    (!s.computer.isUserHolder || s.computer.controlLeaseId.isNone ||
      s.computer.controlLeaseExpiresAt.all fun expiresAt => expiresAt ≤ x.now)

def Replacing.holds (s : System) (x : Replacing) : Bool :=
  s.computer.state = .suspending && s.computer.updatedAt = x.claimStamp

def Replacing.oldRef (x : Replacing) : Bool := x.hasSource && x.existing.providerRef.isSome

def Replacing.saves (x : Replacing) : Bool :=
  x.oldRef &&
    !((x.existing.kind = lit "kubernetes" || x.existing.kind = lit "remote-docker") &&
      (x.existing.state = .stopped || x.existing.state = .suspended)) &&
    (x.mode = .update || (computerRunsOnHost x.existing && x.mode = .reset) ||
      (x.existing.state = .running && x.mode = .recover))

/-- What provisioning remembers of the row that it read first. -/
structure Seen where
  reclaimStamp : Option ℕ
  suspendStamp : Option ℕ
  suspendClaimIsStale : Bool

structure Ref where
  providerRef : Text
  kind : Text
  fresh : Bool
deriving DecidableEq

/-- Provisioning that goes on with the row; it may be the end of a replacement. -/
structure Booting where
  task : Task
  replacing : Option Replacing
  seen : Seen
  existing : Computer
  /-- When it made its claim, and the stamp it put on the row. -/
  now : ℕ
  claimStamp : ℕ
  ref : Option Ref

def Booting.reconnecting (x : Booting) : Bool :=
  x.existing.providerRef.isSome && (x.existing.state = .running || x.existing.state = .suspending)

def Booting.isPrevious (x : Booting) (computer : Computer) : Bool :=
  computer.providerRef = x.existing.providerRef && computer.kind = x.existing.kind

/-- `claimWhere`, with the reservation and the bot. -/
def Booting.matches (s : System) (x : Booting) : Bool :=
  s.computer.state = x.existing.state &&
    (if x.existing.state = .booting || x.existing.state = .suspending then
      some s.computer.updatedAt = (if x.existing.state = .booting then x.seen.reclaimStamp
        else x.seen.suspendStamp) &&
        (x.existing.state = .booting || x.isPrevious s.computer) && heldByNobodyElse s x.now x.task.lease
    else x.isPrevious s.computer) &&
    s.computer.maintenanceId = x.existing.maintenanceId &&
    x.task.botId.all fun botId => s.bots.any fun bot => bot.id = botId && !bot.isArchived

/-- The boot that it claimed stands; its id is that of the call. -/
def Booting.holds (s : System) (index : ℕ) (x : Booting) : Bool :=
  s.computer.state = .booting && s.computer.provisioningId = some index && x.isPrevious s.computer &&
    s.computer.maintenanceId = x.existing.maintenanceId

def Booting.replacement (x : Booting) (ref : Ref) : Bool :=
  ref.fresh || x.existing.providerRef ≠ some ref.providerRef || x.existing.kind ≠ ref.kind

inductive Stage where
  | provision
  | prepare
  | restore
  | layout

structure QueueInput where
  botId : Text
  isRecover : Bool
  hasConfiguration : Bool
  confirmed : Bool

structure LeaseInput where
  runId : Text
  botId : Text
  resumeHeldLease : Bool

inductive Call where
  | queue (x : QueueInput)
  | queueLock (x : QueueInput)
  | queueCommit (x : QueueInput)
  | queueEnqueue
  | performClaim (id : ℕ)
  | performRead (id : ℕ)
  | performBot (id : ℕ) (botId : Text) (isRecover : Bool)
  | performEngine (id : ℕ) (botId : Text) (isRecover : Bool)
  | performFinish (id : ℕ) (completed : Bool)
  | performSleep (id : ℕ)
  | reconcileRead
  | reconcile (rows : List ComputerUpdate)
  | placeRead (runId : Text)
  | placeDecide (run : OwnedRun) (computer : Computer)
  | placeLock (run : OwnedRun) (computer : Computer)
  | placeCommit (run : OwnedRun)
  | placeTarget (x : Placing)
  | placeMoved (x : Placing)
  | placeFail (x : Placing)
  | placeFailRun (x : Placing)
  | placeFinally (x : Placing)
  | leaseRead (x : LeaseInput)
  | leaseReclaim (x : LeaseInput) (now : ℕ)
  | leaseCreate (x : LeaseInput) (now : ℕ)
  | leaseValidate (x : LeaseInput) (fence : ℕ)
  | leaseRelease (x : LeaseInput) (fence : ℕ)
  | replaceStart (task : Task) (mode : Mode)
  | replaceRead (task : Task) (mode : Mode)
  | replaceExpire (task : Task) (mode : Mode)
  | replaceReread (task : Task) (mode : Mode) (expired : Bool)
  | replaceClear (task : Task) (mode : Mode)
  | replaceCleared (task : Task) (mode : Mode)
  | replaceForeign (task : Task) (mode : Mode) (existing : Computer)
  | replaceIdle (task : Task) (mode : Mode) (existing : Computer)
  | replaceEngine (task : Task) (mode : Mode) (existing : Computer)
  | replaceClaim (x : Replacing)
  | replaceCheck (x : Replacing)
  | replaceUndo (x : Replacing)
  | replaceSaving (x : Replacing)
  | replaceSave (x : Replacing)
  | replaceRecord (x : Replacing)
  | replaceRecreating (x : Replacing)
  | replaceDestroy (x : Replacing)
  | replaceStopped (x : Replacing)
  | replaceCatch (x : Replacing)
  | bootRead (task : Task) (replacing : Option Replacing)
  | bootExpire (task : Task) (replacing : Option Replacing)
  | bootReread (task : Task) (replacing : Option Replacing)
  | bootForeign (task : Task) (replacing : Option Replacing) (seen : Seen)
  | bootWait (task : Task) (replacing : Option Replacing) (seen : Seen) (attempts : ℕ)
  | bootReady (task : Task) (replacing : Option Replacing) (seen : Seen) (existing : Computer)
  | bootEngine (task : Task) (replacing : Option Replacing) (seen : Seen) (existing : Computer)
  | bootClaim (x : Booting)
  | bootProgress (x : Booting) (stage : Stage)
  | bootUse (x : Booting) (stage : Stage)
  | bootActivate (x : Booting) (stamp : ℕ)
  | bootClear (x : Booting) (stamp : ℕ)
  | bootUndo (x : Booting)
  | bootFail (x : Booting) (rollbackFailed : Bool)
  | done
  | failed

/-- What comes of what a call awaits: it is done, fails, or is done while the answer is lost; it
goes the other way that it may go; the provider gives a machine; the engines are found. -/
inductive Answer where
  | ok
  | fails
  | lost
  | other
  | provisioned (ref : Ref)
  | engine (hasSource : Bool) (kind connectionId : Option Text)
deriving DecidableEq

section

variable (s : System)

/-- A statement or a call of the provider, and where the call goes on when it throws. -/
def awaited (answer : Answer) (thrown : System → System × Call) (done : System × Call) : System × Call :=
  match answer with
  | .fails => thrown s
  | .lost => thrown done.1
  | _ => done

/-- A read, or a statement of a transaction that is rolled back when it throws: nothing is done
without its answer. -/
def attempted (answer : Answer) (thrown : Call) (done : System × Call) : System × Call :=
  match answer with
  | .fails => (s, thrown)
  | .lost => (s, thrown)
  | _ => done

/-- The end of a transaction that has the row locked: it reserves the computer for a new update. -/
def commit (index : ℕ) (answer : Answer) (reserved : System × Call) : System × Call :=
  if s.lock = some index then
    match answer with
    | .fails => ({ s with lock := none }, .failed)
    | .lost => (reserved.1, .failed)
    | _ => reserved
  else (s, .failed)

def System.reserve (updates : List ComputerUpdate) (row : ComputerUpdate) : System where
  __ := s
  computer := { s.computer with maintenanceId := some s.nextUpdate, updatedAt := s.now }
  updates := updates ++ [row]
  nextUpdate := s.nextUpdate + 1
  lock := none

/-- The bot uses the computer, and none that uses it switches or has an active run. -/
def System.isIdleFor (botId : Text) : Bool :=
  (s.bots.any fun bot => bot.id = botId && !bot.isArchived) &&
    (s.bots.all fun bot => !bot.computerSwitching) && !s.hasActiveRun none

def queueLock (index : ℕ) (x : QueueInput) : System × Call :=
  if !x.isRecover && !x.hasConfiguration && computerRunsOnHost s.computer then (s, .failed)
  else if s.isReservable && s.isIdleFor x.botId then ({ s with lock := some index }, .queueCommit x)
  else (s, .failed)

def queueCommit (x : QueueInput) : System :=
  s.reserve (s.updates.map fun row => if row.status = .failed then
    { row with status := .dismissed, updatedAt := s.now } else row)
    ⟨s.nextUpdate, x.botId, x.isRecover, .queued, s.now⟩

end

def isStale (now : ℕ) (row : ComputerUpdate) : Bool :=
  row.status = .running && row.updatedAt + staleMs < now

def toReconcile (s : System) : List ComputerUpdate :=
  ((s.updates.filter fun row => row.status = .queued || isStale s.now row).mergeSort
    fun a b => a.updatedAt ≤ b.updatedAt).take 100

def reconcile (s : System) (row : ComputerUpdate) : System :=
  if row.status = .queued then s
  -- a stale heartbeat is not proof that provider calls have stopped: the reservation stays
  else (s.setStatus row.id (fun current => current.status = .running && current.updatedAt =
    row.updatedAt) .interrupted).1

/-- A lease of the bot that has run out, or that the run is to take up again. -/
def LeaseInput.reclaims (x : LeaseInput) (now : ℕ) (lease : ExecutionLease) : Bool :=
  lease.botId = x.botId && (lease.expiresAt < now || (x.resumeHeldLease && lease.runId = x.runId))

section

variable (s : System) (x : LeaseInput)

def leaseReclaim (now : ℕ) : System × Call :=
  match s.leases.find? (x.reclaims now) with
  | none => (s, .leaseCreate x now)
  | some lease =>
    ({ s with leases := s.leases.map fun lease =>
        if x.reclaims now lease then ⟨lease.botId, x.runId, lease.fence + 1, now + executionLeaseMs⟩ else lease },
      .leaseValidate x (lease.fence + 1))

def leaseCreate (now : ℕ) : System × Call :=
  if s.leases.any fun lease => lease.botId = x.botId then (s, .failed)
  else ({ s with leases := s.leases ++ [⟨x.botId, x.runId, 1, now + executionLeaseMs⟩] }, .leaseValidate x 1)

def leaseRelease (fence : ℕ) : System :=
  { s with leases := s.leases.map fun lease =>
      if lease.botId = x.botId && lease.runId = x.runId && lease.fence = fence then
        { lease with expiresAt := 0 } else lease }

end

/-- The replacement ended, and whoever awaits it goes on. -/
def settle (s : System) (task : Task) (ok : Bool) : System × Call :=
  match task.owner with
  | .other _ => (s, if ok then .done else .failed)
  | .update id => (s.record (.ended id), .performFinish id ok)
  | .placement x => (s.record (.ended x.updateId), if ok then .placeMoved x else .placeFail x)

def refuse (task : Task) (s : System) : System × Call := settle s task false

/-- The stage is reported, unless the operation has been interrupted. -/
def progress (s : System) (task : Task) (answer : Answer) : System × Bool :=
  match task.owner with
  | .other _ => (s, true)
  | .update id =>
    if answer = .fails then (s, false)
    else
      let (reported, matched) := s.updateUpdate id isRunning fun row => row
      (reported, matched && answer ≠ .lost)
  | .placement x =>
    if answer = .fails then (s, false)
    else
      match s.updateRun x.run fun run => { run with leaseExpiresAt := some (s.now + 300000) } with
      | (_, false) => (s, false)
      | (renewed, true) =>
        let (reported, matched) := renewed.updateUpdate x.updateId (fun _ => true) fun row => row
        (reported, matched && answer ≠ .lost)

/-- The provider is used to provision or to replace the computer. -/
def System.use (s : System) (task : Task) : System :=
  s.record (.used task.operation s.computer.maintenanceId)

def clearControl (computer : Computer) : Computer where
  __ := computer
  isUserHolder := false
  controlLeaseId := none
  controlLeaseExpiresAt := none

/-! ### `provisionComputer` -/

/-- Provisioning throws; so does a replacement that it is the end of, which first records it. -/
def bootThrown (replacing : Option Replacing) (s : System) : System × Call :=
  match replacing with
  | none => (s, .failed)
  | some x => (s, .replaceCatch x)

def booted (s : System) (replacing : Option Replacing) : System × Call :=
  match replacing with
  | none => (s, .done)
  | some x => settle s x.task true

section

variable (s : System) (task : Task) (replacing : Option Replacing)

def bootObserve : System × Call :=
  let existing := s.computer
  let seen : Seen :=
    { reclaimStamp := if existing.state = .booting then some existing.updatedAt else none
      suspendStamp := if existing.state = .suspending then some existing.updatedAt else none
      suspendClaimIsStale := existing.state = .suspending && isAbandonedLifecycleClaim existing.updatedAt s.now }
  match existing.state with
  | .booting =>
    if isAbandonedLifecycleClaim existing.updatedAt s.now then (s, .bootForeign task replacing seen)
    else bootThrown replacing s
  | .suspending => (s, .bootWait task replacing seen bootWaitAttempts)
  | _ => (s, .bootEngine task replacing seen existing)

def bootRead : System × Call :=
  if !task.admits s.computer then bootThrown replacing s
  else if hasLapsedComputerControl s.computer s.now then (s, .bootExpire task replacing)
  else bootObserve s task replacing

/-- The row is read again; whose reservation it has is not asked again. -/
def bootReread : System × Call :=
  if hasLapsedComputerControl s.computer s.now then bootThrown replacing s else bootObserve s task replacing

/-- The row that it goes on with once the wait is over. -/
def bootWaited (seen : Seen) : System × Call :=
  let existing := s.computer
  match existing.state with
  | .suspending =>
    if seen.suspendClaimIsStale then (s, .bootReady task replacing seen existing) else bootThrown replacing s
  | .booting => if seen.reclaimStamp.isSome then (s, .bootReady task replacing seen existing)
    else bootThrown replacing s
  | .running => if seen.reclaimStamp.isSome then bootThrown replacing s
    else (s, .bootEngine task replacing seen existing)
  | _ => (s, .bootEngine task replacing seen existing)

/-- `waitForComputerReady`, one poll at a time. -/
def bootWait (seen : Seen) : ℕ → System × Call
  | 0 => bootWaited s task replacing seen
  | attempts + 1 =>
    if (s.computer.state = .running && s.computer.providerRef.isSome) ||
        (s.computer.state ≠ .booting && s.computer.state ≠ .suspending) then bootWaited s task replacing seen
    else (s, .bootWait task replacing seen attempts)

end

def bootClaim (s : System) (index : ℕ) (x : Booting) : System × Call :=
  match s.updateComputer (x.matches s) fun computer =>
      { computer with state := .booting, updatedAt := x.claimStamp, provisioningId := some index,
                      claim := some (index, x.task.operation) } with
  | (_, false) => bootThrown x.replacing s
  | (claimed, true) => (claimed, .bootProgress x .provision)

/-- The next stage, if the provider did its part. -/
def bootUse (s : System) (x : Booting) (stage : Stage) (answer : Answer) : System × Call :=
  let used := s.use x.task
  if answer = .fails || answer = .lost then (used, .bootUndo x)
  else
    match stage, x.ref, answer with
    | .provision, _, .provisioned ref => (used, .bootUse { x with ref := some ref } .prepare)
    | .prepare, some ref, _ => (used, .bootProgress x (if x.replacement ref then .restore else .layout))
    | .restore, _, _ => (used, .bootProgress x .layout)
    | .layout, _, _ => (used, .bootActivate x (max s.now (x.claimStamp + 1)))
    | _, _, _ => (used, .bootUndo x)

def Booting.clears (x : Booting) (now : ℕ) : Bool :=
  !x.reconnecting || (x.existing.isUserHolder && x.existing.controlLeaseId.isNone &&
    !hasActiveComputerControl x.existing now)

def bootActivate (s : System) (index : ℕ) (x : Booting) (stamp : ℕ) : System × Call :=
  match s.updateComputer
      (x.holds s index && x.task.botId.all fun botId => s.bots.any fun bot => bot.id = botId && !bot.isArchived)
      fun computer =>
        { computer with state := .running, provisioningId := none, updatedAt := stamp, claim := none,
                        providerRef := x.ref.map Ref.providerRef, kind :=
                          (x.ref.map Ref.kind).getD computer.kind } with
  | (_, false) => (s, .bootUndo x)
  | (activated, true) => if x.clears s.now then (activated, .bootClear x stamp)
    else booted activated x.replacing

def bootClear (s : System) (x : Booting) (stamp : ℕ) : System × Call :=
  booted (s.updateComputer (s.computer.state = .running && s.computer.provisioningId.isNone &&
      s.computer.updatedAt = stamp && s.computer.isUserHolder = x.existing.isUserHolder &&
      s.computer.controlLeaseId.isNone && s.computer.controlLeaseExpiresAt = x.existing.controlLeaseExpiresAt)
    clearControl).1 x.replacing

/-- A machine that it provisioned is rolled back, unless it reconnected to one that was there. -/
def Booting.rollsBack (x : Booting) : Bool := x.ref.any fun ref => !x.reconnecting || ref.fresh

section

variable (s : System)

def bootFail (index : ℕ) (x : Booting) (rollbackFailed : Bool) : System :=
  (s.updateComputer (x.holds s index) fun computer =>
    let ref := if !x.reconnecting && rollbackFailed then x.ref else none
    { computer with state := if x.reconnecting then .running else .error, provisioningId := none, updatedAt := s.now,
                    claim := none, providerRef := ref.elim computer.providerRef fun ref => some ref.providerRef,
                    kind := (ref.map Ref.kind).getD computer.kind }).1

/-! ### `replaceComputer` -/

section

variable (task : Task)

def isMoving (x : Placing) : Bool :=
  s.runs.any fun run => run.id = x.run.id && task.botId = some run.botId && run.status = .running &&
    !run.isCancelRequested && (run.leaseExpiresAt.any fun expiresAt => s.now < expiresAt) &&
      !run.hasRuntimeComputer &&
    run.placement = some .moving

section

variable (mode : Mode)

def replaceStart : System × Call :=
  match task.owner with
  | .placement x => if isMoving s task x then (s, .replaceRead task mode) else refuse task s
  | _ => (s, .replaceRead task mode)

def replaceObserve : System × Call :=
  let existing := s.computer
  if task.botId.isNone || hasActiveComputerControl existing s.now then refuse task s
  else
    match existing.state with
    | .suspending => if mode = .reset then (s, .replaceForeign task mode existing) else refuse task s
    | .booting => (s, .replaceForeign task mode existing)
    | _ => (s, .replaceEngine task mode existing)

/-- Control without a lease is cleared first. -/
def replaceControl : System × Call :=
  if s.computer.isUserHolder && s.computer.controlLeaseId.isNone then (s, .replaceClear task mode)
  else replaceObserve s task mode

def replaceRead : System × Call :=
  if !task.admits s.computer then refuse task s
  else if hasLapsedComputerControl s.computer s.now then (s, .replaceExpire task mode)
  else replaceControl s task mode

/-- The row is read again; whose reservation it has is not asked again. -/
def replaceReread (expired : Bool) : System × Call :=
  if !expired && hasLapsedComputerControl s.computer s.now then refuse task s else replaceControl s task mode

end

end

/-- `clearInactiveUserComputerControl`. -/
def clearInactiveUserComputerControl : System :=
  (s.updateComputer (s.computer.isUserHolder &&
      (s.computer.controlLeaseId.isNone || s.computer.controlLeaseExpiresAt.all fun expiresAt => expiresAt ≤ s.now))
    fun computer => { clearControl computer with updatedAt := s.now }).1

def replaceCleared (task : Task) (mode : Mode) : System × Call :=
  if s.computer.isUserHolder && !hasActiveComputerControl s.computer s.now then refuse task s
  else replaceObserve s task mode

def replaceForeign (task : Task) (mode : Mode) (existing : Computer) : System × Call :=
  if task.botId.any (fun botId => hasForeignExecutionLease s botId s.now) then refuse task s
  else if isAbandonedLifecycleClaim existing.updatedAt s.now then (s, .replaceIdle task mode existing)
  else refuse task s

def replaceClaim (index : ℕ) (x : Replacing) : System × Call :=
  match s.updateComputer (x.task.botId.any (x.matches s)) fun computer =>
      { computer with state := .suspending, updatedAt := x.claimStamp, claim := some (index, x.task.operation) } with
  | (_, false) => refuse x.task s
  | (claimed, true) => (claimed, .replaceCheck x)

def replaceCheck (x : Replacing) : System × Call :=
  if s.hasActiveRun x.placementRunId then (s, .replaceUndo x)
  else (s, if x.saves then .replaceSaving x else .replaceRecreating x)

def replaceUndo (x : Replacing) : System :=
  (s.updateComputer (x.holds s) fun computer =>
    { computer with state := x.existing.state, updatedAt := s.now, claim := none }).1

end

/-- The workspace could not be saved: only a recovery goes on. -/
def saveFailed (x : Replacing) : Call :=
  if x.mode = .recover then .replaceRecreating x else .replaceCatch x

section

variable (s : System)

def replaceStopped (x : Replacing) : System × Call :=
  match s.updateComputer (x.holds s && s.computer.maintenanceId = x.existing.maintenanceId) fun computer =>
      { clearControl computer with
        state := .stopped, providerRef := none, connectionId := x.connectionId, kind := x.kind.getD computer.kind
        updatedAt := x.claimStamp, claim := none } with
  | (_, false) => (s, .replaceCatch x)
  | (stopped, true) => (stopped, .bootRead x.task (some x))

def replaceCatch (x : Replacing) : System :=
  (s.updateComputer (s.computer.updatedAt = x.claimStamp && s.computer.maintenanceId =
    x.existing.maintenanceId)
    fun computer => { computer with state := .error, updatedAt := s.now, claim := none }).1

/-- What a placement is for, if the run may be moved and the computer is free. -/
def placeRead (runId : Text) : System × Call :=
  match s.runs.find? fun run => run.id = runId with
  | none => (s, .failed)
  | some run =>
    match s.bots.find? fun bot => bot.id = run.botId with
    | none => (s, .done)
    | some bot =>
      if run.hasRuntimeComputer || !bot.isPi || run.placement = some .declined then (s, .done)
      else if s.computer.maintenanceId.isSome || s.computer.isUserHolder then (s, .done)
      else (s, .placeDecide { run with } s.computer)

/-- Every bot that uses the computer lets it be moved. -/
def System.mayMove : Bool :=
  s.bots.all fun bot => bot.isArchived ||
    (bot.isPi && (bot.moveAutomatically || bot.placementConsent) && !bot.declined)

def placeLock (index : ℕ) (run : OwnedRun) (computer : Computer) : System × Call :=
  if s.computer.kind ≠ computer.kind || s.computer.providerRef ≠ computer.providerRef ||
      s.computer.connectionId ≠ computer.connectionId then
    ((s.updateRun run fun row => { row with placement := some .skipped }).1, .done)
  else if !s.mayMove || s.hasActiveRun (some run.id) then (s, .done)
  else if !s.runs.any run.matches then (s, .failed)
  else if s.isReservable then ({ s with lock := some index }, .placeCommit run)
  else (s, .done)

def placeCommit (index : ℕ) (run : OwnedRun) : System × Call :=
  let moving := (s.updateRun run fun row => { row with placement := some .moving }).1
  ((moving.reserve s.updates ⟨s.nextUpdate, run.botId, false, .running, s.now⟩).record (.taken index s.nextUpdate),
    .placeTarget ⟨s.nextUpdate, run⟩)

end

def Placing.task (x : Placing) : Task := ⟨.placement x, some x.run.botId, some x.run.id, none⟩

def placeMoved (s : System) (x : Placing) : System :=
  ((s.updateRun x.run fun row => { row with placement := some .moved }).1.setStatus x.updateId
    (fun _ => true) .completed).1

def performClaim (s : System) (index id : ℕ) : System × Call :=
  match s.setStatus id (fun row => row.status = .queued) .running with
  -- never replay a destructive operation on job redelivery
  | (_, false) => (s, .done)
  | (claimed, true) => (claimed.record (.taken index id), .performRead id)

def performRead (s : System) (id : ℕ) : System × Call :=
  match s.updates.find? fun row => row.id = id with
  | none => (s, .failed)
  | some row => (s, .performBot id row.botId row.isRecover)

def updateTask (id : ℕ) (botId : Text) : Task := ⟨.update id, some botId, none, none⟩

/-! ### Every call -/

/-- Whose statement waits while a transaction has the row locked. -/
def Call.writesComputer : Call → Bool
  | .queueLock _ => true
  | .performFinish _ _ => true
  | .placeLock _ _ => true
  | .placeFinally _ => true
  | .replaceClear _ _ => true
  | .replaceClaim _ => true
  | .replaceUndo _ => true
  | .replaceRecord _ => true
  | .replaceStopped _ => true
  | .replaceCatch _ => true
  | .bootClaim _ => true
  | .bootActivate _ _ => true
  | .bootClear _ _ => true
  | .bootFail _ _ => true
  | _ => false

section

variable (s : System) (index : ℕ) (call : Call) (answer : Answer)

def next : System × Call :=
  match call with
  | .queue x => (s, if x.hasConfiguration && !x.confirmed then .failed else .queueLock x)
  | .queueLock x => attempted s answer .failed (queueLock s index x)
  | .queueCommit x => commit s index answer (queueCommit s x, .queueEnqueue)
  -- the reconciler republishes durable queued intent if publishing fails
  | .queueEnqueue => (s, .done)
  | .performClaim id => awaited s answer (·, .failed) (performClaim s index id)
  | .performRead id => awaited s answer (·, .failed) (performRead s id)
  | .performBot id botId isRecover =>
    awaited s answer (·, .performFinish id false) (s,
      if s.bots.any fun bot => bot.id = botId && !bot.isArchived then .performEngine id botId isRecover
      else .performFinish id false)
  | .performEngine id botId isRecover =>
    attempted s answer (.performFinish id false) (
      -- the configuration changes nothing
      if answer = .other then (s, .performFinish id true)
      else (s.record (.began id), .replaceStart (updateTask id botId) (if isRecover then .recover else .update)))
  | .performFinish id completed =>
    let thrown : Call := if completed then .performFinish id false else .failed
    awaited s answer (·, thrown) (finishUpdate s id (if completed then .completed else .failed),
      if completed then .performSleep id else .failed)
  | .performSleep id => awaited s answer (·, .performFinish id false) (s, .done)
  | .reconcileRead => awaited s answer (·, .failed) (s, .reconcile (toReconcile s))
  | .reconcile [] => (s, .done)
  | .reconcile (row :: rows) => awaited s answer (·, .failed) (reconcile s row, .reconcile rows)
  | .placeRead runId => awaited s answer (·, .failed) (placeRead s runId)
  | .placeDecide run computer =>
    awaited s answer (·, .failed) (s, if answer = .other then .done else .placeLock run computer)
  | .placeLock run computer => attempted s answer .failed (placeLock s index run computer)
  | .placeCommit run => commit s index answer (placeCommit s index run)
  | .placeTarget x =>
    attempted s answer (.placeFail x) (s.record (.began x.updateId), .replaceStart x.task .update)
  | .placeMoved x => awaited s answer (·, .placeFail x) (placeMoved s x, .placeFinally x)
  | .placeFail x =>
    awaited s answer (·, .placeFinally x) ((s.setStatus x.updateId isRunning .failed).1, .placeFailRun x)
  | .placeFailRun x =>
    awaited s answer (·, .placeFinally x)
      ((s.updateRun x.run fun row => { row with placement := some .failed }).1, .placeFinally x)
  | .placeFinally x => awaited s answer (·, .failed) (s.clearReservation x.updateId, .done)
  | .leaseRead x =>
    awaited s answer (·, .failed) (s,
      if s.computer.maintenanceId.isSome then .failed
      else if !s.computer.isTeam then .done
      else if isLiveSuspending s.computer s.now then .failed
      else .leaseReclaim x s.now)
  | .leaseReclaim x now => awaited s answer (·, .failed) (leaseReclaim s x now)
  | .leaseCreate x now => awaited s answer (·, .failed) (leaseCreate s x now)
  | .leaseValidate x fence =>
    awaited s answer (·, .failed) (s,
      if !isLiveSuspending s.computer s.now && s.computer.maintenanceId.isNone then .done else .leaseRelease x fence)
  | .leaseRelease x fence => awaited s answer (·, .failed) (leaseRelease s x fence, .failed)
  | .replaceStart task mode => awaited s answer (refuse task) (replaceStart s task mode)
  | .replaceRead task mode => awaited s answer (refuse task) (replaceRead s task mode)
  | .replaceExpire task mode => awaited s answer (refuse task) (s, .replaceReread task mode (answer ≠ .other))
  | .replaceReread task mode expired => awaited s answer (refuse task) (replaceReread s task mode expired)
  | .replaceClear task mode =>
    awaited s answer (refuse task) (clearInactiveUserComputerControl s, .replaceCleared task mode)
  | .replaceCleared task mode => awaited s answer (refuse task) (replaceCleared s task mode)
  | .replaceForeign task mode existing => awaited s answer (refuse task) (replaceForeign s task mode existing)
  | .replaceIdle task mode existing =>
    awaited s answer (refuse task) (if s.hasActiveRun none then refuse task s
      else (s, .replaceEngine task mode existing))
  | .replaceEngine task mode existing =>
    match answer with
    | .engine hasSource kind connectionId =>
      (s, .replaceClaim ⟨task, mode, existing, hasSource, kind, connectionId, s.now,
        max s.now (existing.updatedAt + 1)⟩)
    | _ => refuse task s
  | .replaceClaim x => awaited s answer (refuse x.task) (replaceClaim s index x)
  | .replaceCheck x => awaited s answer (refuse x.task) (replaceCheck s x)
  | .replaceUndo x => awaited s answer (refuse x.task) (refuse x.task (replaceUndo s x))
  | .replaceSaving x =>
    let (reported, goesOn) := progress s x.task answer
    (reported, if goesOn then .replaceSave x else saveFailed x)
  | .replaceSave x => awaited (s.use x.task) answer (·, saveFailed x) (s.use x.task, .replaceRecord x)
  | .replaceRecord x =>
    awaited s answer (·, saveFailed x) (s, if x.holds s then .replaceRecreating x else .replaceCatch x)
  | .replaceRecreating x =>
    let (reported, goesOn) := progress s x.task answer
    (reported, if !goesOn then .replaceCatch x else if x.oldRef then .replaceDestroy x else .replaceStopped x)
  | .replaceDestroy x =>
    awaited (s.use x.task) answer (·, if x.mode = .recover then .replaceStopped x else .replaceCatch x)
      (s.use x.task, .replaceStopped x)
  | .replaceStopped x => awaited s answer (·, .replaceCatch x) (replaceStopped s x)
  | .replaceCatch x => refuse x.task (if answer = .fails then s else replaceCatch s x)
  | .bootRead task replacing => awaited s answer (bootThrown replacing) (bootRead s task replacing)
  | .bootExpire task replacing => awaited s answer (bootThrown replacing) (s, .bootReread task replacing)
  | .bootReread task replacing => awaited s answer (bootThrown replacing) (bootReread s task replacing)
  | .bootForeign task replacing seen =>
    awaited s answer (bootThrown replacing) (
      if hasLiveForeignRunLease s task.runId then bootThrown replacing s
      else (s, .bootWait task replacing seen bootWaitAttempts))
  | .bootWait task replacing seen attempts =>
    awaited s answer (bootThrown replacing) (bootWait s task replacing seen attempts)
  | .bootReady task replacing seen existing =>
    awaited s answer (bootThrown replacing) (
      if hasLiveForeignRunLease s task.runId then bootThrown replacing s
      else (s, .bootEngine task replacing seen existing))
  | .bootEngine task replacing seen existing =>
    let observedStamp := (seen.reclaimStamp.orElse fun _ => seen.suspendStamp).getD existing.updatedAt
    awaited s answer (bootThrown replacing)
      (s, .bootClaim ⟨task, replacing, seen, existing, s.now, max s.now (observedStamp + 1), none⟩)
  | .bootClaim x => awaited s answer (bootThrown x.replacing) (bootClaim s index x)
  | .bootProgress x stage =>
    let (reported, goesOn) := progress s x.task answer
    (reported, if goesOn then .bootUse x stage else .bootUndo x)
  | .bootUse x stage => bootUse s x stage answer
  | .bootActivate x stamp => awaited s answer (·, .bootUndo x) (bootActivate s index x stamp)
  | .bootClear x stamp => awaited s answer (bootThrown x.replacing) (bootClear s x stamp)
  | .bootUndo x => (s, .bootFail x (x.rollsBack && (answer = .fails || answer = .lost)))
  | .bootFail x rollbackFailed =>
    bootThrown x.replacing (if answer = .fails then s else bootFail s index x rollbackFailed)
  | .done => (s, .done)
  | .failed => (s, .failed)

def act : System × Call :=
  if call.writesComputer && s.lock.isSome then (s, call) else next s index call answer

end

inductive Happening where
  | pass (ms : ℕ)
  /-- Anything else writes the row: the reservation stays, and a claim that stands is left to its
  call. -/
  | computer (row : Computer)
  | bots (bots : List Bot)
  | runs (runs : List Run)
  /-- The holder of a live lease renews it. -/
  | renew (lease : ExecutionLease) (expiresAt : ℕ)
  | release (lease : ExecutionLease)
  | heartbeat (id : ℕ)
  | dismiss (id : ℕ)
  /-- A connection is lost: its transaction is rolled back. -/
  | disconnect

def happen (s : System) : Happening → System
  | .pass ms => { s with now := s.now + ms }
  | .computer row =>
    if s.lock.isSome then s
    else
      { s with
        computer := { row with
          maintenanceId := s.computer.maintenanceId
          claim := if row.state = s.computer.state then s.computer.claim else none } }
  | .bots bots => { s with bots }
  | .runs runs => { s with runs }
  | .renew lease expiresAt =>
    { s with leases := s.leases.map fun row =>
        if row = lease && s.now < row.expiresAt then { row with expiresAt } else row }
  | .release lease => { s with leases := s.leases.filter fun row => row ≠ lease }
  | .heartbeat id => (s.updateUpdate id isRunning fun row => row).1
  | .dismiss id => (s.setStatus id (fun row => row.status = .failed) .dismissed).1
  | .disconnect => { s with lock := none }

def program : Calls.Program System Call Answer Happening where
  act
  environment := happen

/-- How calls begin; an operation of an update begins with that update. -/
def Call.isStart : Call → Bool
  | .queue _ => true
  | .performClaim _ => true
  | .reconcileRead => true
  | .placeRead _ => true
  | .leaseRead _ => true
  | .replaceStart task _ => task.owner.updateId.isNone
  | .bootRead task none => task.owner.updateId.isNone
  | _ => false

end ArdurBot.Maintenance
