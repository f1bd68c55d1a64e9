import ArdurBot.Core.RunState
import ArdurBot.Lib.Run
import ArdurBot.Lib.Table
import ArdurBot.Lib.Utf16

/-!
# Group asks

The coordinator of a room asks members in one turn, each with a delegation and a run of its own
(`packages/adapters/src/group-ask.ts`). Once they have answered, failed, stopped or wait for the
person, the coordinator gets one follow-up turn (`packages/db/src/group-asks.ts`); every finish of a
member and every reconciliation tries to create it.

Whether a turn may ask is settled as it begins, by the run as its worker read it
(`packages/adapters/src/executor.ts`); what is asked is put under the root that the row of the run
has by then, which another worker may have linked to a goal.
-/

namespace ArdurBot.Groups

open Utf16 ArdurBot.Core

structure GroupAsk where
  round : ℕ
  askRunId : Text
deriving DecidableEq

/-- The delegation of an asked member. Its admission key names the ask, the call and the member. -/
structure AskRow where
  id : Text
  rootTaskId : Text
  ask : GroupAsk
  callId : Text
  actingBotId : Text
  status : DelegationStatus
  runId : Option Text
  createdAt : ℤ
  completedAt : Option ℤ
  deadlineAt : ℤ
  coordinatorWokenAt : Option ℤ

/-- A run in a room. `wakes` is the ask whose `askWakeNonce` the run has. -/
structure RoomRun where
  id : Text
  threadId : Text
  botId : Text
  taskId : Text
  delegationRootTaskId : Option Text
  delegationId : Option Text
  goalId : Option Text
  status : RunStatus
  cancelRequested : Bool
  startedAt : Option ℤ
  sourceMessageId : Option Text
  wakes : Option GroupAsk

structure AskRoot where
  rootTaskId : Text
  coordinatorBotId : Text
  coordinatorThreadId : Text
  cancelRequested : Bool

/-- A group that is not archived; `memberIds` are the members that are not. -/
structure Room where
  threadId : Text
  coordinatorBotId : Option Text
  memberIds : List Text
  paused : Bool

/-- A goal of a room; `running` is whether its status is. -/
structure RoomGoal where
  id : Text
  rootTaskId : Text
  threadId : Text
  coordinatorBotId : Text
  running : Bool

/-- A worker's turn of a run, with what it read when it began and whether it offers
`ask_members`. -/
structure Turn where
  runId : Text
  goalId : Option Text
  canAsk : Bool

/-- Rows are kept in the order in which they were created, and turns in that in which they began. -/
structure AskStore where
  rooms : List Room
  goals : List RoomGoal
  turns : List Turn
  roots : List AskRoot
  rows : List AskRow
  runs : List RoomRun

section

variable (store : AskStore)

def findRun (id : Text) : Option RoomRun := store.runs.find? fun run => run.id = id

def findRoot (rootTaskId : Text) : Option AskRoot :=
  store.roots.find? fun root => root.rootTaskId = rootTaskId

def findRoom (threadId : Text) : Option Room :=
  store.rooms.find? fun room => room.threadId = threadId

def runOf (row : AskRow) : Option RoomRun := row.runId.bind (findRun store)

def updateRun (id : Text) (update : RoomRun → RoomRun) : AskStore :=
  { store with runs := store.runs.map fun run => if run.id = id then update run else run }

end

inductive AskMemberOutcome where
  | answered
  | failed
  | stopped
  | waiting
  | pending
deriving DecidableEq

def askMemberOutcome (delegationStatus : DelegationStatus) (runStatus : Option RunStatus) :
    AskMemberOutcome :=
  if delegationStatus = .completed || delegationStatus = .accepted then .answered
  else if delegationStatus = .failed then .failed
  else if delegationStatus = .cancelled then .stopped
  else if runStatus = some .waitingInput || runStatus = some .waitingTakeover then .waiting
  else .pending

def rowOutcome (store : AskStore) (row : AskRow) : AskMemberOutcome :=
  askMemberOutcome row.status ((runOf store row).map RoomRun.status)

/-- The run has ended, but not its delegation: the room's Stop, clearing it or removing a member. -/
def directlyStopped (store : AskStore) (row : AskRow) : Bool :=
  row.status.isActive && (runOf store row).any fun run => run.status.isTerminal

/-- `GROUP_ASK_EXPIRY_GRACE_MS` -/
def expiryGrace : ℤ := 15 * 60000

/-- `MAX_ASK_ROUNDS` -/
def maxAskRounds : ℕ := 2

def askRoundForRun (run : RoomRun) : ℕ := (run.wakes.map GroupAsk.round).getD 0 + 1

def askRows (store : AskStore) (rootTaskId : Text) (ask : GroupAsk) : List AskRow :=
  store.rows.filter fun row => row.rootTaskId = rootTaskId && row.ask = ask

def AskRow.isWoken (row : AskRow) : Bool := row.coordinatorWokenAt.isSome

/-- The rows of the ask are marked, so that nobody is woken for it again. -/
def settleAsk (store : AskStore) (rootTaskId : Text) (ask : GroupAsk) (now : ℤ) : AskStore :=
  { store with
    rows := store.rows.map fun row =>
      if row.rootTaskId = rootTaskId && row.ask = ask && !row.isWoken then { row with coordinatorWokenAt := some now }
      else row }

/-- The group of the thread with its coordinator as it was, and no pause. -/
def roomOpen (store : AskStore) (root : AskRoot) : Bool :=
  (findRoom store root.coordinatorThreadId).any fun room =>
    room.coordinatorBotId = some root.coordinatorBotId &&
      room.memberIds.contains root.coordinatorBotId && !room.paused

def coordinatorRuns (store : AskStore) (root : AskRoot) : List RoomRun :=
  store.runs.filter fun run => run.threadId = root.coordinatorThreadId && run.botId = root.coordinatorBotId

/-- Not when each of them was asked: when it had its result. -/
def latestOutcomeAt (rows : List AskRow) : Option ℤ :=
  (rows.map fun row => row.completedAt.getD row.createdAt).max?

/-- The coordinator has taken a turn after the last result. -/
def tookTurn (store : AskStore) (root : AskRoot) (rows : List AskRow) : Bool :=
  (latestOutcomeAt rows).any fun latest => (coordinatorRuns store root).any fun run =>
    run.startedAt.any fun at_ => latest < at_

/-- `ACTIVE_RUN`: the statuses of a run that has not ended. -/
def coordinatorBusy (store : AskStore) (root : AskRoot) : Bool :=
  (coordinatorRuns store root).any fun run => !run.status.isTerminal

/-- What the transaction of `wakeCoordinatorForGroupAsk` comes to, for the rows of an ask that is
not settled. -/
inductive AskDecision where
  | settle
  | retry
  | wake

section

variable (store : AskStore)

def decideGroupAsk (root : AskRoot) (rows : List AskRow) (now : ℤ) : AskDecision :=
  if rows.any (directlyStopped store) || root.cancelRequested then .settle
  else if rows.any fun row => rowOutcome store row = .pending then
    if (rows.map AskRow.deadlineAt).max?.any fun deadline => deadline + expiryGrace < now then .settle else .retry
  else if !roomOpen store root then .settle
  else if tookTurn store root rows then .settle
  else if coordinatorBusy store root then .retry
  else .wake

/-- `acceptDelegation`, for each row of the ask that has completed. -/
def acceptRows (rootTaskId : Text) (ask : GroupAsk) : AskStore :=
  { store with
    rows := store.rows.map fun row =>
      if row.rootTaskId = rootTaskId && row.ask = ask && row.status = .completed then { row with status := .accepted }
      else row }

def wakeRun (root : AskRoot) (rows : List AskRow) (ask : GroupAsk) (runId taskId : Text) : RoomRun where
  id := runId
  threadId := root.coordinatorThreadId
  botId := root.coordinatorBotId
  taskId
  delegationRootTaskId := none
  delegationId := none
  goalId := none
  status := .queued
  cancelRequested := false
  startedAt := none
  sourceMessageId := rows.findSome? fun row => (runOf store row).bind RoomRun.sourceMessageId
  wakes := some ask

/-- The rows are accepted and marked, and the run of the follow-up is created. -/
def createFollowUp (root : AskRoot) (ask : GroupAsk) (runId taskId : Text) (now : ℤ) : AskStore :=
  let woken := wakeRun store root (askRows store root.rootTaskId ask) ask runId taskId
  settleAsk { acceptRows store root.rootTaskId ask with runs := woken :: store.runs } root.rootTaskId ask now

end

/-- The run of the follow-up, if one is created; nothing if the transaction is rolled back, as it is
when the nonce of the follow-up has been used. `runId` and `taskId` are the ids of the new rows. -/
def wakeCoordinatorForGroupAsk (delegationId runId taskId : Text) (now : ℤ) (store : AskStore) :
    Option (AskStore × Option Text) :=
  match store.rows.find? fun row => row.id = delegationId with
  | none => some (store, none)
  | some initial =>
    match findRoot store initial.rootTaskId with
    | none => some (store, none)
    | some root =>
      let rows := askRows store root.rootTaskId initial.ask
      if rows.any AskRow.isWoken then some (store, none)
      else
        match decideGroupAsk store root rows now with
        | .settle => some (settleAsk store root.rootTaskId initial.ask now, none)
        | .retry => some (store, none)
        | .wake =>
          if store.runs.any fun run => run.id = runId || run.wakes = some initial.ask then none
          else some (createFollowUp store root initial.ask runId taskId now, some runId)

/-- A member that is asked: its bot, and the ids of its delegation, its run and the task of that. -/
structure AskedMember where
  botId : Text
  delegationId : Text
  runId : Text
  taskId : Text

def RoomRun.rootTaskId (run : RoomRun) : Text := run.delegationRootTaskId.getD run.taskId

/-- `ensureDelegationRootBudget` -/
def ensureRoot (store : AskStore) (run : RoomRun) : AskStore :=
  if store.roots.any fun root => root.rootTaskId = run.rootTaskId then store
  else { store with
    roots :=
      { rootTaskId := run.rootTaskId
        coordinatorBotId := run.botId
        coordinatorThreadId := run.threadId
        cancelRequested := false } :: store.roots }

def askedRow (run : RoomRun) (callId : Text) (deadlineAt now : ℤ) (member : AskedMember) : AskRow where
  id := member.delegationId
  rootTaskId := run.rootTaskId
  ask := { round := askRoundForRun run, askRunId := run.id }
  callId
  actingBotId := member.botId
  status := .queued
  runId := some member.runId
  createdAt := now
  completedAt := none
  deadlineAt
  coordinatorWokenAt := none

def askedRun (run : RoomRun) (messageId : Text) (member : AskedMember) : RoomRun where
  id := member.runId
  threadId := run.threadId
  botId := member.botId
  taskId := member.taskId
  delegationRootTaskId := some run.rootTaskId
  delegationId := some member.delegationId
  goalId := none
  status := .queued
  cancelRequested := false
  startedAt := none
  sourceMessageId := some messageId
  wakes := none

/-- A new member with a row and a run of its own, unless the ask has it already. -/
def addMember (run : RoomRun) (callId messageId : Text) (deadlineAt now : ℤ) (store : AskStore)
    (member : AskedMember) :
    Option AskStore := do
  let row := askedRow run callId deadlineAt now member
  guard (!store.rows.any fun other => other.id = row.id ||
    (other.ask = row.ask && other.actingBotId = row.actingBotId))
  guard (!store.runs.any fun other => other.id = member.runId || other.delegationId = some row.id)
  return { store with rows := store.rows ++ [row], runs := askedRun run messageId member :: store.runs }

/-- The transaction of `askGroupMembers`; `members` are those that are admitted. A call that has
been made before changes nothing. -/
def askGroupMembers (sourceId callId messageId : Text) (members : List AskedMember)
    (deadlineAt now : ℤ) (store : AskStore) : Option AskStore := do
  let run ← findRun store sourceId
  guard (run.status = .running)
  guard (askRoundForRun run ≤ maxAskRounds)
  let room ← findRoom store run.threadId
  guard (room.coordinatorBotId = some run.botId && room.memberIds.contains run.botId && !room.paused)
  let ask := { round := askRoundForRun run, askRunId := run.id }
  if store.rows.any fun row => row.ask = ask && row.callId = callId then return store
  else
    guard (!run.cancelRequested)
    let ensured := ensureRoot store run
    let root ← findRoot ensured run.rootTaskId
    guard (!root.cancelRequested)
    guard (members ≠ [])
    guard (members.all fun member => room.memberIds.contains member.botId && member.botId ≠ run.botId)
    members.foldlM (addMember run callId messageId deadlineAt now) ensured

/-- The tool `ask_members`, in a turn that offers it. -/
def askMembers (turn : ℕ) (callId messageId : Text) (members : List AskedMember)
    (deadlineAt now : ℤ) (store : AskStore) :
    Option AskStore := do
  let turn ← store.turns[turn]?
  guard turn.canAsk
  askGroupMembers turn.runId callId messageId members deadlineAt now store

inductive RunOutcome where
  | completed
  | failed
  | cancelled
deriving DecidableEq

def RunOutcome.delegation : RunOutcome → DelegationStatus
  | completed => .completed
  | failed => .failed
  | cancelled => .cancelled

def RunOutcome.run : RunOutcome → RunStatus
  | completed => .completed
  | failed => .failed
  | cancelled => .cancelled

/-- `finishDelegation` of the row's current run. A result after a request to cancel is not taken. -/
def finishRow (outcome : RunOutcome) (now : ℤ) (row : AskRow) : AskRow :=
  if !row.status.isActive then row
  else if row.status = .cancelRequested && outcome = .completed then row
  else { row with status := outcome.delegation, completedAt := some now }

def finishDelegation (run : RoomRun) (outcome : RunOutcome) (now : ℤ) (store : AskStore) : AskStore :=
  { store with
    rows := store.rows.map fun row =>
      if run.delegationId = some row.id && row.runId = some run.id then finishRow outcome now row else row }

def endRun (store : AskStore) (runId : Text) (outcome : RunOutcome) : AskStore :=
  updateRun store runId fun run => { run with status := outcome.run }

def finalizeRun (runId : Text) (outcome : RunOutcome) (now : ℤ) (store : AskStore) : Option AskStore := do
  let run ← findRun store runId
  guard (run.status = .running && !run.cancelRequested && outcome ≠ .cancelled)
  return finishDelegation run outcome now (endRun store runId outcome)

/-- `confirmDispatchStop`: a worker that reports a failure while it stops has failed. -/
def confirmStop (runId : Text) (failed : Bool) (now : ℤ) (store : AskStore) : Option AskStore := do
  let run ← findRun store runId
  guard (run.cancelRequested && !run.status.isTerminal)
  return finishDelegation run (if failed then .failed else .cancelled) now (endRun store runId .cancelled)

/-- `settleFrozenGoalRun` -/
def settleFrozenRun (runId : Text) (now : ℤ) (store : AskStore) : Option AskStore := do
  let run ← findRun store runId
  guard (!run.status.isTerminal)
  return finishDelegation run .cancelled now (endRun store runId .cancelled)

/-- The tool `complete_task`: the run goes on. -/
def completeTask (runId : Text) (now : ℤ) (store : AskStore) : Option AskStore := do
  let run ← findRun store runId
  guard (run.status = .running && !run.cancelRequested)
  guard (store.rows.any fun row => run.delegationId = some row.id && row.status = .running)
  return finishDelegation run .completed now store

/-- `cancelRunsInTransaction`, which leaves the delegations as they are. -/
def stopRuns (runIds : List Text) (store : AskStore) : AskStore :=
  { store with
    runs := store.runs.map fun run =>
      if runIds.contains run.id && !run.status.isTerminal then { run with status := .cancelled } else run }

def startDelegation (id : Text) (store : AskStore) : AskStore :=
  { store with
    rows := store.rows.map fun row => if row.id = id && row.status = .queued then
      { row with status := .running } else row }

/-- A run that has not ended moves to another status that is no end. -/
def moveRun (runId : Text) (status : RunStatus) (startedAt : Option ℤ) (store : AskStore) :
    Option AskStore := do
  guard !status.isTerminal
  return updateRun store runId fun run => if run.status.isTerminal then run
    else { run with status, startedAt }

/-- A run that is no follow-up and not for a delegation. -/
def createRun (run : RoomRun) (store : AskStore) : Option AskStore := do
  guard (!store.runs.any fun other => other.id = run.id)
  return { store with runs := { run with delegationId := none, wakes := none } :: store.runs }

def openRoot (root : AskRoot) (store : AskStore) : Option AskStore := do
  guard (!store.roots.any fun other => other.rootTaskId = root.rootTaskId)
  return { store with roots := root :: store.roots }

def linkRun (runId : Text) (goal : RoomGoal) (store : AskStore) : AskStore :=
  updateRun store runId fun run =>
    if run.goalId.isNone && run.delegationRootTaskId.isNone then
      { run with goalId := some goal.id, delegationRootTaskId := some goal.rootTaskId }
    else run

/-- `continueRunInternal`, as it begins: a run that has no goal is linked to the one of its thread
that is running and not `exhausted`, whether or not the worker gets the lease after that. -/
def beginTurn (runId : Text) (exhausted : Bool) (store : AskStore) : Option AskStore := do
  let run ← findRun store runId
  guard !run.status.isTerminal
  let found :=
    if run.delegationId.isNone && run.goalId.isNone && !exhausted then
      store.goals.find? fun goal => goal.running && goal.threadId = run.threadId && goal.coordinatorBotId = run.botId
    else none
  let linked := found.elim store fun goal => linkRun runId goal store
  return { linked with turns := store.turns ++ [⟨runId, run.goalId.or (found.map RoomGoal.id), false⟩] }

/-- `goalRoom`: the goal of the turn, if it leads it in this room. -/
def goalRoom (store : AskStore) (run : RoomRun) (turn : Turn) : Bool :=
  run.delegationId.isNone && turn.goalId.any fun id =>
    store.goals.any fun goal =>
      goal.id = id && goal.running && goal.threadId = run.threadId && goal.coordinatorBotId = run.botId

/-- `roomCanAsk`, once the turn has the run; `offered` is what it finds of the runtime and of other
kinds of runs. -/
def offerAsk (turn : ℕ) (offered : Bool) (store : AskStore) : Option AskStore := do
  let found ← store.turns[turn]?
  let run ← findRun store found.runId
  let room ← findRoom store run.threadId
  let canAsk := offered && run.delegationId.isNone && room.coordinatorBotId = some run.botId &&
      !goalRoom store run found
  return { store with turns := store.turns.set turn { found with canAsk } }

/-- A goal of a room is started, or goes on. -/
def setGoal (goal : RoomGoal) (store : AskStore) : AskStore :=
  { store with goals := goal :: store.goals.filter fun other => other.id ≠ goal.id }

def cancelRow (row : AskRow) : AskRow :=
  if row.status.isActive then { row with status := .cancelRequested } else row

/-- `requestCancelInTransaction` and `requestDispatchStop` -/
def requestCancel (rootTaskId : Text) (store : AskStore) : AskStore :=
  { store with
    roots := store.roots.map fun root => if root.rootTaskId = rootTaskId then
      { root with cancelRequested := true } else root
    rows := store.rows.map fun row => if row.rootTaskId = rootTaskId then cancelRow row else row
    runs := store.runs.map fun run =>
      if run.rootTaskId = rootTaskId && !run.status.isTerminal then { run with cancelRequested := true } else run }

/-- `requestSelectiveCancelInTransaction` -/
def requestSelectiveCancel (runIds : List Text) (store : AskStore) : AskStore :=
  { store with
    rows := store.rows.map fun row => if row.runId.any fun id => runIds.contains id then cancelRow row else row
    runs := store.runs.map fun run =>
      if runIds.contains run.id && !run.status.isTerminal then { run with cancelRequested := true } else run }

def acceptDelegation (id : Text) (store : AskStore) : AskStore :=
  { store with
    rows := store.rows.map fun row =>
      if row.id = id && row.status = .completed then { row with status := .accepted } else row }

/-- `rejectDelegation`: a completed task goes back to its worker, with a new run. -/
def rejectDelegation (id runId taskId : Text) (store : AskStore) : Option AskStore := do
  let row ← store.rows.find? fun row => row.id = id
  guard (row.status = .completed)
  let old ← runOf store row
  guard old.status.isTerminal
  guard (!store.runs.any fun other => other.id = runId)
  let unbound := updateRun store old.id fun run => { run with delegationId := none }
  guard (!unbound.runs.any fun other => other.delegationId = some id)
  return { unbound with
    rows := store.rows.map fun row =>
      if row.id = id then { row with status := .queued, runId := some runId, completedAt := none } else row
    runs :=
      { old with
        id := runId
        taskId
        delegationRootTaskId := some row.rootTaskId
        delegationId := some id
        goalId := none
        status := .queued
        cancelRequested := false
        startedAt := none
        wakes := none } :: unbound.runs }

/-- The room is archived, paused or resumed, or has another coordinator or other members. -/
def setRoom (room : Room) (present : Bool) (store : AskStore) : AskStore :=
  let others := store.rooms.filter fun other => other.threadId ≠ room.threadId
  { store with rooms := if present then room :: others else others }

/-- `wakeGoalCoordinatorForDelegation`, where the goal of the root is over or frozen: the result of
the one row is taken. -/
def consumeResult (id : Text) (now : ℤ) (store : AskStore) : AskStore :=
  { store with
    rows := store.rows.map fun row =>
      if row.id = id && !row.status.isActive && !row.isWoken then
        { row with coordinatorWokenAt := some now } else row }

inductive AskOp where
  | ask (turn : ℕ) (callId messageId : Text) (members : List AskedMember) (deadlineAt now : ℤ)
  | wake (delegationId runId taskId : Text) (now : ℤ)
  | finalize (runId : Text) (outcome : RunOutcome) (now : ℤ)
  | confirmStop (runId : Text) (failed : Bool) (now : ℤ)
  | settleFrozen (runId : Text) (now : ℤ)
  | completeTask (runId : Text) (now : ℤ)
  | stop (runIds : List Text)
  | start (id : Text)
  | moveRun (runId : Text) (status : RunStatus) (startedAt : Option ℤ)
  | createRun (run : RoomRun)
  | openRoot (root : AskRoot)
  | setGoal (goal : RoomGoal)
  | begin (runId : Text) (exhausted : Bool)
  | offer (turn : ℕ) (offered : Bool)
  | cancel (rootTaskId : Text)
  | selectiveCancel (runIds : List Text)
  | accept (id : Text)
  | reject (id runId taskId : Text)
  | changeRoom (room : Room) (present : Bool)
  | consume (id : Text) (now : ℤ)

namespace AskOp

/-- What the transaction leaves, or nothing if it is rolled back. -/
def result (store : AskStore) : AskOp → Option AskStore
  | ask turn callId messageId members deadlineAt now =>
    askMembers turn callId messageId members deadlineAt now store
  | wake delegationId runId taskId now =>
    (wakeCoordinatorForGroupAsk delegationId runId taskId now store).map Prod.fst
  | finalize runId outcome now => finalizeRun runId outcome now store
  | confirmStop runId failed now => Groups.confirmStop runId failed now store
  | settleFrozen runId now => settleFrozenRun runId now store
  | completeTask runId now => Groups.completeTask runId now store
  | stop runIds => some (stopRuns runIds store)
  | start id => some (startDelegation id store)
  | moveRun runId status startedAt => Groups.moveRun runId status startedAt store
  | createRun run => Groups.createRun run store
  | openRoot root => Groups.openRoot root store
  | setGoal goal => some (Groups.setGoal goal store)
  | begin runId exhausted => beginTurn runId exhausted store
  | offer turn offered => offerAsk turn offered store
  | cancel rootTaskId => some (requestCancel rootTaskId store)
  | selectiveCancel runIds => some (requestSelectiveCancel runIds store)
  | accept id => some (acceptDelegation id store)
  | reject id runId taskId => rejectDelegation id runId taskId store
  | changeRoom room present => some (setRoom room present store)
  | consume id now => some (consumeResult id now store)

def apply (store : AskStore) (op : AskOp) : AskStore := (op.result store).getD store

end AskOp

def emptyStore : AskStore :=
  { rooms := [], goals := [], turns := [], roots := [], rows := [], runs := [] }

end ArdurBot.Groups
