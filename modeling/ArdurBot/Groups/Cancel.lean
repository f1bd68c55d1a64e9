import ArdurBot.Core.RunState
import ArdurBot.Lib.Calls

/-!
# Cancelling the runs of a room

`updateGroup` and `archiveGroup` of `packages/db/src/groups.ts`, `cancel-runs.ts`, `clearThread` and
`finalizeRun` of `events.ts` beside it, `sendThreadMessage` (`apps/api/src/thread-target.ts`), and
the claim of a run (`packages/adapters/src/context/concurrency.ts` and `executor.ts`). Transactions
are read-committed: an act of a call takes a lock, or reads what is committed, and the last act of a
transaction writes all that it writes. A lock is held until the transaction ends, and the call that
wants it waits. What is read under a lock that every writer of it takes is read in the act that uses
it. A transaction that is tried again is another call.

One room is modelled, with its thread; a bot has a direct thread of its own. Left open: which
members a message is for and which of their runs its goals leave to answer, what admission counts,
and whether steering waits for a bot. Computers, goals, holds of deliveries and the events of a
thread are left out.
-/

namespace ArdurBot.GroupRuns

open ArdurBot.Core

/-! ### Rows -/

inductive ThreadId where
  | room
  | direct (botId : ℕ)
deriving DecidableEq

structure Run where
  id : ℕ
  taskId : ℕ
  botId : ℕ
  threadId : ThreadId
  status : RunStatus
  isCancelRequested : Bool
  leaseOwner : Option ℕ
  leaseFence : ℕ
  leaseExpiresAt : Option ℕ
  delegationId : Option ℕ
  /-- What the delegation says of it. -/
  isReadOnlyPeer : Bool
  /-- It answers a message of the user, or a reaction. -/
  isOwnerSent : Bool

def Run.isWorking (run : Run) : Bool := run.status = .leased || run.status = .running

inductive WorkStatus where
  | queued
  | running
  | completed
  | failed
  | cancelled
deriving DecidableEq

structure Task where
  id : ℕ
  status : WorkStatus

structure Attempt where
  id : ℕ
  runId : ℕ
  fence : ℕ
  status : WorkStatus

structure Bot where
  id : ℕ
  isOwned : Bool
  isArchived : Bool

/-- A delivery of a message to a bot; `isOfRoom` if the room is its source or its target. -/
structure Delivery where
  isOfRoom : Bool
  recipientBotId : ℕ
  delegationId : Option ℕ

structure Group where
  hasThread : Bool
  members : List ℕ
  coordinatorBotId : Option ℕ
  isArchived : Bool

inductive Lock where
  | group
  | bot (id : ℕ)
  | thread (id : ThreadId)
deriving DecidableEq

structure Tables where
  group : Group
  bots : List Bot
  deliveries : List Delivery
  runs : List Run
  tasks : List Task
  attempts : List Attempt
  /-- The database issues no id twice. -/
  nextId : ℕ

structure System where
  now : ℕ
  tables : Tables
  /-- Which call holds the lock. -/
  locks : List (Lock × ℕ)
  /-- Not kept by the code: the bots that were removed from the room, and are not members again. -/
  removed : List ℕ
  /-- Not kept by the code: the runs that a call has read and is about to cancel, and those it will
  not report. -/
  listed : List (ℕ × Run)
  parked : List (ℕ × Run)

def groupMemberMin : ℕ := 2

def groupMemberMax : ℕ := 6

section

variable (t : Tables)

def Tables.isActiveBot (botId : ℕ) : Bool := t.bots.any fun bot => bot.id = botId && !bot.isArchived

def Tables.isOwnedBot (botId : ℕ) : Bool :=
  t.bots.any fun bot => bot.id = botId && bot.isOwned && !bot.isArchived

/-- `hasMinimumActiveMembers`, of the members whose bots are not archived. -/
def Tables.hasMinimumActiveMembers : Bool :=
  groupMemberMin ≤ (t.group.members.filter t.isActiveBot).length

def Tables.updateRuns (matching : Run → Bool) (data : Run → Run) : Tables :=
  { t with runs := t.runs.map fun run => if matching run then data run else run }

def Tables.updateTasks (matching : Task → Bool) (status : WorkStatus) : Tables :=
  { t with tasks := t.tasks.map fun task => if matching task then { task with status } else task }

def Tables.updateAttempts (matching : Attempt → Bool) (status : WorkStatus) : Tables :=
  { t with attempts := t.attempts.map fun attempt => if matching attempt then
    { attempt with status } else attempt }

end

def hasRun (runs : List Run) (run : Run) : Bool := runs.any fun other => other.id = run.id

def hasTask (runs : List Run) (task : Task) : Bool := runs.any fun run => run.taskId = task.id

/-- `cancelRunsInTransaction` -/
def Tables.cancelRuns (t : Tables) (runs : List Run) : Tables :=
  ((t.updateRuns (hasRun runs) fun run => { run with status := .cancelled, leaseOwner := none, leaseExpiresAt := none }
    ).updateAttempts (fun attempt => (runs.any fun run => run.id = attempt.runId) && attempt.status = .running) .cancelled
    ).updateTasks (hasTask runs) .cancelled

/-- A task for a bot, and a queued run of it. -/
def Tables.createRun (t : Tables) (botId : ℕ) (threadId : ThreadId) (isOwnerSent : Bool) : Tables :=
  { t with
    runs := t.runs ++ [⟨t.nextId, t.nextId, botId, threadId, .queued, false, none, 0, none, none, false, isOwnerSent⟩]
    tasks := t.tasks ++ [⟨t.nextId, .queued⟩]
    nextId := t.nextId + 1 }

def Tables.createRuns (t : Tables) (threadId : ThreadId) : List ℕ → Tables
  | [] => t
  | botId :: botIds => (t.createRun botId threadId true).createRuns threadId botIds

/-! ### Calls -/

structure UpdateInput where
  coordinatorBotId : Option (Option ℕ)
  botIds : Option (List ℕ)

structure Updating where
  input : UpdateInput
  members : Option (List ℕ)
  current : Group

def Updating.nextBotIds (y : Updating) : List ℕ := y.members.getD y.current.members

def Updating.removedBotIds (y : Updating) : List ℕ :=
  y.current.members.filter fun botId => botId ∉ y.nextBotIds

/-- A message to a bot in its direct thread, or to members of the room. -/
structure SendInput where
  direct : Option ℕ
  recipients : List ℕ
  hasText : Bool
  isFromDevice : Bool
  /-- The runs whose goal is over. -/
  stalled : List ℕ

def SendInput.threadId (x : SendInput) : ThreadId := x.direct.elim .room .direct

structure Lease where
  runId : ℕ
  leaseOwner : ℕ
  leaseFence : ℕ

structure Claiming where
  run : Run
  workerId : ℕ
  now : ℕ

inductive Outcome where
  | completed
  | failed

structure FinalizeInput where
  runId : ℕ
  taskId : ℕ
  botId : ℕ
  threadId : ThreadId
  attemptId : ℕ
  leaseOwner : ℕ
  leaseFence : ℕ
  outcome : Outcome

def Outcome.runStatus : Outcome → RunStatus
  | .completed => .completed
  | .failed => .failed

def Outcome.workStatus : Outcome → WorkStatus
  | .completed => .completed
  | .failed => .failed

inductive Call where
  | update (x : UpdateInput)
  | updateLock (x : UpdateInput) (members : Option (List ℕ))
  | updateRead (x : UpdateInput) (members : Option (List ℕ))
  | updateParked (y : Updating)
  | updateActive (y : Updating) (parked : List Run)
  | updateCommit (y : Updating) (parked active : List Run)
  | archive
  | archiveRead
  | archiveActive
  | archiveCommit (active : List Run)
  | clear
  | clearThread
  | clearRead
  | clearCommit (active : List Run)
  | send (x : SendInput)
  | sendThread (x : SendInput)
  | sendCommit (x : SendInput)
  | claim (runId workerId : ℕ)
  | claimBot (x : Claiming)
  | claimThread (x : Claiming)
  | claimCommit (x : Claiming)
  | start (x : Lease)
  | startAttempt (x : Lease)
  | finalize (x : FinalizeInput)
  | finalizeThread (x : FinalizeInput)
  | finalizeCommit (x : FinalizeInput)
  /-- It returned `cancelledRunIds`. -/
  | cancelled (ids : List ℕ)
  | done
  /-- It threw. -/
  | failed

/-- A statement, or what was left open, is answered. -/
inductive Answer where
  | ok
  | fails
  | declines
deriving DecidableEq

section

variable (s : System) (index : ℕ)

/-- The transaction of a call ends: its locks are released. -/
def System.ended : System :=
  { s with
    locks := s.locks.filter fun held => held.2 ≠ index
    listed := s.listed.filter fun entry => entry.1 ≠ index
    parked := s.parked.filter fun entry => entry.1 ≠ index }

def thrown : System × Call := (s.ended index, .failed)

def commit (tables : Tables) (call : Call) : System × Call :=
  ({ s with tables }.ended index, call)

/-- The call waits while another holds the lock. -/
def acquire (lock : Lock) (waiting next : Call) : System × Call :=
  if s.locks.any fun held => held.1 = lock && held.2 ≠ index then (s, waiting)
  else ({ s with locks := (lock, index) :: s.locks }, next)

def System.list (runs : List Run) : System :=
  { s with listed := runs.map (index, ·) ++ s.listed }

def System.park (runs : List Run) : System :=
  { s.list index runs with parked := runs.map (index, ·) ++ s.parked }

end

def assertOwnedBots (t : Tables) (botIds : List ℕ) : Option (List ℕ) :=
  if groupMemberMin ≤ botIds.eraseDups.length && botIds.eraseDups.length ≤ groupMemberMax
      && botIds.eraseDups.all t.isOwnedBot then some botIds.eraseDups
  else none

def update (s : System) (index : ℕ) (x : UpdateInput) : System × Call :=
  match x.botIds with
  | none => (s, .updateLock x none)
  | some botIds =>
    match assertOwnedBots s.tables botIds with
    | none => thrown s index
    | some members => (s, .updateLock x (some members))

def Updating.isRefused (y : Updating) (t : Tables) : Bool :=
  t.group.isArchived || !t.group.hasThread || (y.members.isNone && !t.hasMinimumActiveMembers)
    || y.input.coordinatorBotId.any fun coordinator => coordinator.any fun botId => botId ∉ y.nextBotIds

def updateRead (s : System) (index : ℕ) (x : UpdateInput) (members : Option (List ℕ)) : System × Call :=
  if Updating.isRefused ⟨x, members, s.tables.group⟩ s.tables then thrown s index
  else (s, .updateParked ⟨x, members, s.tables.group⟩)

def delegationIds (t : Tables) (removedBotIds : List ℕ) : List ℕ :=
  (t.deliveries.filter fun delivery => delivery.isOfRoom && delivery.recipientBotId ∈ removedBotIds).filterMap
    (·.delegationId)

def parkedRuns (t : Tables) (removedBotIds : List ℕ) : List Run :=
  t.runs.filter fun run => run.delegationId.any (· ∈ delegationIds t removedBotIds)
    && (run.status = .queued || run.status = .peerReady)

def updateParked (s : System) (index : ℕ) (y : Updating) : System × Call :=
  (s.park index (parkedRuns s.tables y.removedBotIds), .updateActive y (parkedRuns s.tables y.removedBotIds))

def activeRunsOf (t : Tables) (botIds : List ℕ) : List Run :=
  t.runs.filter fun run => run.threadId = .room && run.botId ∈ botIds && run.status.isActive

def updateActive (s : System) (index : ℕ) (y : Updating) (parked : List Run) : System × Call :=
  (s.list index (activeRunsOf s.tables y.removedBotIds),
    .updateCommit y parked (activeRunsOf s.tables y.removedBotIds))

/-- A coordinator that was not set stays, unless it is removed. -/
def Updating.coordinatorBotId (y : Updating) (group : Group) : Option ℕ :=
  match y.input.coordinatorBotId with
  | some coordinator => coordinator
  | none => if y.current.coordinatorBotId.any (· ∉ y.nextBotIds) then none else group.coordinatorBotId

/-- The members that are removed, and those that are added. -/
def Updating.changeMembers (y : Updating) (group : Group) : List ℕ :=
  match y.members with
  | none => group.members
  | some members =>
    (group.members.filter fun botId => botId ∉ y.removedBotIds) ++
      members.filter fun botId => botId ∉ y.current.members

def updateTables (t : Tables) (y : Updating) (parked active : List Run) : Tables :=
  { t.cancelRuns (active ++ parked) with
    group := { t.group with members := y.changeMembers t.group, coordinatorBotId := y.coordinatorBotId t.group } }

def updateCommit (s : System) (index : ℕ) (y : Updating) (parked active : List Run) : System × Call :=
  commit { s with removed := (y.removedBotIds ++ s.removed).filter fun botId =>
    botId ∉ y.changeMembers s.tables.group }
    index (updateTables s.tables y parked active)
    -- The thread is looked for once more, after the commit.
    (if s.tables.group.hasThread then .cancelled (active.map (·.id)) else .failed)

def roomRuns (t : Tables) : List Run :=
  t.runs.filter fun run => run.threadId = .room && run.status.isActive

def archiveRead (s : System) (index : ℕ) : System × Call :=
  if s.tables.group.isArchived || !s.tables.group.hasThread then thrown s index else (s, .archiveActive)

def archiveActive (s : System) (index : ℕ) : System × Call :=
  (s.list index (roomRuns s.tables), .archiveCommit (roomRuns s.tables))

def archiveTables (t : Tables) (active : List Run) : Tables :=
  { t.cancelRuns active with group := { t.group with isArchived := true } }

section

variable (s : System) (index : ℕ)

def archiveCommit (active : List Run) : System × Call :=
  commit s index (archiveTables s.tables active) (.cancelled (active.map (·.id)))

/-- The row of the thread is updated first, which fails if there is none. -/
def clearRead : System × Call :=
  if s.tables.group.hasThread then (s, .clearCommit (roomRuns s.tables)) else thrown s index

def clearCommit (active : List Run) : System × Call :=
  commit s index (s.tables.cancelRuns active) (.cancelled (active.map (·.id)))

end

def SendInput.isRoutable (x : SendInput) (run : Run) : Bool := x.direct.isSome || run.id ∉ x.stalled

section

variable (x : SendInput) (t : Tables)

/-- The members that the message is for, or the bot. -/
def SendInput.targetBotIds : List ℕ :=
  match x.direct with
  | some botId => [botId]
  | none => t.group.members.filter fun botId => botId ∈ x.recipients && t.isActiveBot botId

def SendInput.isRefused : Bool :=
  x.direct.isNone && (t.group.isArchived || !t.group.hasThread || !t.hasMinimumActiveMembers ||
    x.targetBotIds t = [])

def SendInput.reaches (run : Run) : Bool :=
  run.threadId = x.threadId && run.botId ∈ x.targetBotIds t && run.status.isActive && x.isRoutable run

def SendInput.answers (run : Run) : Bool := x.reaches t run && run.status = .waitingInput

/-- The bots that have no run which takes the message get one. -/
def SendInput.idleBotIds : List ℕ :=
  (x.targetBotIds t).filter fun botId => !t.runs.any fun run => run.botId = botId && x.reaches t run

end

/-- Queued runs that `cancelSupersededQueuedRuns` finds among those that were there before. -/
def supersededRuns (t : Tables) (threadId : ThreadId) (botIds : List ℕ) (before : ℕ) : List Run :=
  t.runs.filter fun run => run.threadId = threadId && run.botId ∈ botIds &&
    run.status = .queued && run.isOwnerSent
    && run.id < before

/-- `cancelSupersededQueuedRuns` -/
def Tables.supersede (t : Tables) (runs : List Run) : Tables :=
  (t.updateRuns (hasRun runs) fun run => { run with status := .cancelled }).updateTasks
    (hasTask runs) .cancelled

def sendTables (t : Tables) (x : SendInput) : Tables :=
  let answered := t.updateRuns (x.answers t) fun run => { run with status := .queued }
  let created := answered.createRuns x.threadId (x.idleBotIds t)
  if x.isFromDevice then created
  else created.supersede (supersededRuns created x.threadId (x.idleBotIds t) t.nextId)

/-- An answer must have a text, and its run must not be about to stop. -/
def SendInput.isConflict (x : SendInput) (t : Tables) : Bool :=
  t.runs.any fun run => x.answers t run && (!x.hasText || run.isCancelRequested)

def sendCommit (s : System) (index : ℕ) (x : SendInput) : System × Call :=
  if x.isRefused s.tables || x.isConflict s.tables then thrown s index
  else commit s index (sendTables s.tables x) .done

def claim (s : System) (runId workerId : ℕ) : System × Call :=
  match s.tables.runs.find? fun run => run.id = runId with
  | none => (s, .done)
  | some run => (s, .claimBot ⟨run, workerId, s.now⟩)

def Claiming.matches (x : Claiming) (run : Run) : Bool :=
  run.id = x.run.id && run.status = x.run.status &&
    (run.status = .queued || run.status = .waitingInput || run.status = .waitingTakeover ||
      (run.isWorking && run.leaseExpiresAt.any fun expiresAt => expiresAt ≤ x.now))

def leaseMs : ℕ := 5 * 60000

def claimTables (t : Tables) (now : ℕ) (x : Claiming) : Tables :=
  t.updateRuns x.matches fun run => { run with
    status := .leased
    leaseOwner := some x.workerId
    leaseFence := x.run.leaseFence + 1
    leaseExpiresAt := some (now + leaseMs) }

def claimCommit (s : System) (index : ℕ) (x : Claiming) : System × Call :=
  commit s index (claimTables s.tables s.now x) .done

def Lease.matches (x : Lease) (run : Run) : Bool :=
  run.id = x.runId && run.status = .leased && run.leaseOwner = some x.leaseOwner && run.leaseFence =
    x.leaseFence

def start (s : System) (index : ℕ) (x : Lease) : System × Call :=
  if s.tables.runs.any x.matches then
    ({ s with tables := s.tables.updateRuns x.matches fun run => { run with status := .running } }, .startAttempt x)
  else (s.ended index, .done)

def startAttempt (s : System) (index : ℕ) (x : Lease) : System × Call :=
  commit s index { s.tables with
    attempts := s.tables.attempts ++ [⟨s.tables.nextId, x.runId, x.leaseFence, .running⟩]
    nextId := s.tables.nextId + 1 } .done

def FinalizeInput.matches (x : FinalizeInput) (run : Run) : Bool :=
  run.id = x.runId && run.threadId = x.threadId && run.botId = x.botId && run.taskId =
    x.taskId && run.status = .running
    && !run.isCancelRequested && run.leaseOwner = some x.leaseOwner && run.leaseFence = x.leaseFence

def FinalizeInput.matchesAttempt (x : FinalizeInput) (attempt : Attempt) : Bool :=
  attempt.id = x.attemptId && attempt.runId = x.runId &&
    attempt.fence = x.leaseFence && attempt.status = .running

section

variable (t : Tables) (x : FinalizeInput)

def finalizeTables : Tables :=
  ((t.updateRuns x.matches fun run => { run with
      status := x.outcome.runStatus, leaseOwner := none, leaseExpiresAt := none }
    ).updateAttempts x.matchesAttempt x.outcome.workStatus
    ).updateTasks (fun task => task.id = x.taskId) x.outcome.workStatus

/-- The active runs of the bot, all for a peer that only reads, do not keep it from steering that
waits. -/
def continues : Bool :=
  t.runs.all fun run => !(run.threadId = x.threadId && run.botId = x.botId && run.status.isActive)
    || run.isReadOnlyPeer

/-- `createSteeringContinuation`, if steering waits. -/
def createSteeringContinuation (pending : Bool) : Tables :=
  if pending && continues t x then t.createRun x.botId x.threadId false else t

end

/-- The attempt and the task are there to finalize. -/
def FinalizeInput.isAvailable (x : FinalizeInput) (t : Tables) : Bool :=
  t.attempts.any x.matchesAttempt && t.tasks.any fun task => task.id = x.taskId

def finalizeCommit (s : System) (index : ℕ) (x : FinalizeInput) (pending : Bool) : System × Call :=
  if s.tables.runs.any x.matches then
    if x.isAvailable s.tables then
      commit s index (createSteeringContinuation (finalizeTables s.tables x) x pending) .done
    else thrown s index
  else (s.ended index, .done)

/-! ### Acts -/

def next (s : System) (index : ℕ) (call : Call) (answer : Answer) : System × Call :=
  match call with
  | .update x => update s index x
  | .updateLock x members => acquire s index .group call (.updateRead x members)
  | .updateRead x members => updateRead s index x members
  | .updateParked y => updateParked s index y
  | .updateActive y parked => updateActive s index y parked
  | .updateCommit y parked active => updateCommit s index y parked active
  | .archive => acquire s index .group call .archiveRead
  | .archiveRead => archiveRead s index
  | .archiveActive => archiveActive s index
  | .archiveCommit active => archiveCommit s index active
  | .clear => acquire s index .group call .clearThread
  | .clearThread => acquire s index (.thread .room) call .clearRead
  | .clearRead => clearRead s index
  | .clearCommit active => clearCommit s index active
  | .send x =>
    match x.direct with
    | none => acquire s index .group call (.sendThread x)
    | some _ => (s, .sendThread x)
  | .sendThread x => acquire s index (.thread x.threadId) call (.sendCommit x)
  | .sendCommit x => sendCommit s index x
  | .claim runId workerId => claim s runId workerId
  | .claimBot x => acquire s index (.bot x.run.botId) call (.claimThread x)
  | .claimThread x => acquire s index (.thread x.run.threadId) call (.claimCommit x)
  | .claimCommit x => if answer = .declines then (s.ended index, .done) else claimCommit s index x
  | .start x => start s index x
  | .startAttempt x => startAttempt s index x
  | .finalize x => acquire s index (.bot x.botId) call (.finalizeThread x)
  | .finalizeThread x => acquire s index (.thread x.threadId) call (.finalizeCommit x)
  | .finalizeCommit x => finalizeCommit s index x (answer = .ok)
  | .cancelled _ => (s, call)
  | .done => (s, call)
  | .failed => (s, call)

def Call.hasEnded : Call → Bool
  | .cancelled _ => true
  | .done => true
  | .failed => true
  | _ => false

def act (s : System) (index : ℕ) (call : Call) (answer : Answer) : System × Call :=
  if answer = .fails && !call.hasEnded then thrown s index else next s index call answer

inductive Event where
  | tick
  | bots (rows : List Bot)
  | deliveries (rows : List Delivery)
  | requestCancel (runId : ℕ)

def environment (s : System) : Event → System
  | .tick => { s with now := s.now + 1 }
  | .bots rows => { s with tables := { s.tables with bots := rows } }
  | .deliveries rows => { s with tables := { s.tables with deliveries := rows } }
  | .requestCancel runId =>
    { s with tables := s.tables.updateRuns (fun run => run.id = runId) fun run =>
      { run with isCancelRequested := true } }

def program : Calls.Program System Call Answer Event where
  act
  environment

abbrev Op := Calls.Op Call Answer Event

abbrev World := Calls.State System Call

def step : World → Op → World := Calls.step program

def Call.isStart : Call → Bool
  | .update _ => true
  | .archive => true
  | .clear => true
  | .send _ => true
  | .claim _ _ => true
  | .start _ => true
  | .finalize _ => true
  | _ => false

end ArdurBot.GroupRuns
