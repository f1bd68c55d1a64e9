import ArdurBot.Core.RunState
import ArdurBot.Goals.Plan
import ArdurBot.Lib.Run
import Mathlib.Data.List.MinMax

/-!
# Goals and their review

`packages/db/src/goals.ts`: a goal is started, submitted for review as a revision with conditions,
and accepted or sent back by its owner; or it is stopped, or its budget is exhausted. While it is
completed or accepted it is frozen: its runs may not record effects, and may not execute those that
are recorded.

The worker of a run reads the row of the run once, when it starts to continue it, and goes by what
it has read (`continueRunInternal` and `recordEffect` of `packages/adapters/src/executor.ts`). It is
then that a run of the coordinator which has no goal is linked to the one that is running.
-/

namespace ArdurBot.Goals

open Utf16 ArdurBot.Core

/-! ### Rows -/

inductive ConditionStatus where
  | unknown
  | pass
  | fail
deriving DecidableEq

structure GoalCondition where
  id : Text
  description : Text
  status : ConditionStatus
  actorId : Option Text
  reason : Option Text
  support : List ConditionSupport
  proposedSupport : List ConditionSupport
  createdAt : Option ℤ

structure GoalRevision where
  id : Text
  goalId : Text
  summary : Text
  conditions : List GoalCondition
  attempts : ℕ
  usedTokens : ℕ
  reservedTokens : ℕ

inductive VerdictType where
  | accept
  | reject
deriving DecidableEq

structure GoalVerdict where
  goalId : Text
  revisionId : Text
  actorId : Text
  type : VerdictType
  reworkNotes : Option Text

structure GoalSettlement where
  goalId : Text
  revisionId : Text
  rootTaskId : Text
  actorId : Text
  usedTokens : ℕ
  reservedTokens : ℕ

/-- The budget that the work of a goal shares: its delegation root. -/
structure GoalRoot where
  usedTokens : ℕ
  reservedTokens : ℕ
  tokenLimit : ℕ
  deadlineAt : ℤ
  cancelRequested : Bool
deriving DecidableEq

structure TeamGoal where
  id : Text
  groupId : Text
  rootTaskId : Text
  status : GoalStatus
  doneWhen : List Text
  tokenLimit : ℕ
  untilAt : ℤ
  root : GoalRoot
deriving DecidableEq

structure GoalRun where
  id : Text
  goalId : Option Text
  rootTaskId : Option Text
  delegationId : Option Text
  status : RunStatus
  leaseExpiresAt : Option ℤ

inductive EffectStatus where
  | intended
  | approved
  | executing
  | paused
  | uncertain
  | completed
  | denied
  | failed
deriving DecidableEq

structure GoalEffect where
  id : Text
  runId : Text
  kind : Text
  idempotencyKey : Text
  status : EffectStatus

/-- What a worker has read of its run, and the goal that it has found to link it to. -/
structure Session where
  runId : Text
  goalId : Option Text
  rootTaskId : Option Text
  delegationId : Option Text
  found : Option TeamGoal

/-- What the operations on goals read and write. -/
structure Store where
  goals : List TeamGoal
  revisions : List GoalRevision
  verdicts : List GoalVerdict
  settlements : List GoalSettlement
  runs : List GoalRun
  effects : List GoalEffect
  sessions : List Session

section

variable (store : Store)

def findGoal (id : Text) : Option TeamGoal := store.goals.find? fun goal => goal.id = id

def findRoot (rootTaskId : Text) : Option TeamGoal :=
  store.goals.find? fun goal => goal.rootTaskId = rootTaskId

def updateGoal (id : Text) (update : TeamGoal → TeamGoal) : Store :=
  { store with goals := store.goals.map fun goal => if goal.id = id then update goal else goal }

def setStatus (id : Text) (status : GoalStatus) : Store :=
  updateGoal store id fun goal => { goal with status }

end

/-- The runs of a goal: `OR: [{ goalId }, { delegationRootTaskId }]`. -/
def TeamGoal.owns (goal : TeamGoal) (run : GoalRun) : Bool :=
  run.goalId = some goal.id || run.rootTaskId = some goal.rootTaskId

def goalEffects (store : Store) (goal : TeamGoal) : List GoalEffect :=
  store.effects.filter fun effect => store.runs.any fun run => run.id = effect.runId && goal.owns run

/-- The statuses that hold the place of the group. -/
def GoalStatus.holdsGroup (status : GoalStatus) : Bool :=
  status = .running || status = .needsOwner || status = .paused || status = .blocked || status = .completed

/-- `goal` and `run` are the rows that are created, with the ids of a new goal, task and run. -/
def startGoal (goal : TeamGoal) (run : GoalRun) (store : Store) : Option Store := do
  guard (!store.goals.any fun other => other.groupId = goal.groupId && other.status.holdsGroup)
  guard (!store.goals.any fun other => other.id = goal.id || other.rootTaskId = goal.rootTaskId)
  guard (!store.runs.any fun other =>
    other.id = run.id || other.goalId = some goal.id || other.rootTaskId = some goal.rootTaskId)
  guard (!store.effects.any fun effect => effect.runId = run.id)
  return { store with
    goals := { goal with status := .running } :: store.goals
    runs := { run with goalId := some goal.id, rootTaskId := some goal.rootTaskId, status := .queued } :: store.runs }

/-! ### Submitting -/

/-- The runs that the freeze may settle at the submission, and when one of them would be
continued. -/
def heldAtSubmission (run : GoalRun) : Bool := run.status = .queued

def heldAtResume (now : ℤ) (run : GoalRun) : Bool :=
  run.status = .queued || run.status = .waitingInput || run.status = .waitingTakeover ||
    run.status = .peerPaused ||
    run.status = .peerReady ||
    ((run.status = .leased || run.status = .running) && run.leaseExpiresAt.any fun leaseExpiresAt =>
      leaseExpiresAt ≤ now)

/-- `settleFrozenRunEffects`, for an effect of one of the runs. -/
def settleFrozenEffect (effect : GoalEffect) : GoalEffect :=
  if effect.status = .intended || effect.status = .approved || effect.status = .paused then
    { effect with status := .denied }
  else if effect.status = .executing then { effect with status := .uncertain }
  else effect

/-- `settleFrozenGoalRun`, for each run that is `held`. -/
def settleFrozenGoalRuns (held : GoalRun → Bool) (store : Store) : Store :=
  { store with
    runs := store.runs.map fun run =>
      if held run then { run with status := .cancelled, leaseExpiresAt := none } else run
    effects := store.effects.map fun effect =>
      if store.runs.any (fun run => run.id = effect.runId && held run) then settleFrozenEffect effect else effect }

def unknownCondition (id description : Text) : GoalCondition where
  id
  description
  status := .unknown
  actorId := none
  reason := none
  support := []
  proposedSupport := []
  createdAt := none

def finalReviewDescription : Text := lit "goal.final-owner-review"

def conditionId (index : ℕ) : Text := lit "cond-" ++ lit (toString index)

def openConditions (doneWhen : List Text) : List GoalCondition :=
  if doneWhen = [] then [unknownCondition (lit "cond-final") finalReviewDescription]
  else doneWhen.mapIdx fun index description => unknownCondition (conditionId index) description

def attemptsOf (store : Store) (goalId : Text) : ℕ :=
  (store.revisions.filter fun revision => revision.goalId = goalId).length

/-- `revisionId` is the id of the new row; `goal` is the row that was read before. -/
def commitGoalSubmission (goalId revisionId summary : Text) (store : Store) : Option Store := do
  let goal ← findGoal store goalId
  guard (goal.status = .running)
  let completed := setStatus store goalId .completed
  guard (!(goalEffects completed goal).any fun effect => effect.status = .executing)
  let frozen := settleFrozenGoalRuns (fun run => goal.owns run && heldAtSubmission run) completed
  guard (!(goalEffects frozen goal).any fun effect =>
    effect.status = .intended || effect.status = .approved || effect.status = .executing)
  guard (!store.revisions.any fun revision => revision.id = revisionId)
  return { frozen with
    revisions :=
      { id := revisionId
        goalId
        summary
        conditions := openConditions goal.doneWhen
        attempts := attemptsOf store goalId + 1
        usedTokens := goal.root.usedTokens
        reservedTokens := goal.root.reservedTokens } :: store.revisions }

/-! ### Reviewing -/

/-- `orderBy: { attempts: "desc" }` -/
def newestRevision (store : Store) (goalId : Text) : Option GoalRevision :=
  (store.revisions.filter fun revision => revision.goalId = goalId).argmax GoalRevision.attempts

def findVerdict (store : Store) (goalId revisionId : Text) : Option GoalVerdict :=
  store.verdicts.find? fun verdict => verdict.goalId = goalId && verdict.revisionId = revisionId

def conditionsPass (conditions : List GoalCondition) : Bool :=
  conditions ≠ [] && conditions.all fun condition => condition.status = .pass

/-- `collecting` tells whether usage of the goal's work is still being collected. -/
def acceptGoal (collecting : Bool) (actorId goalId revisionId : Text) (store : Store) : Option Store := do
  let goal ← findGoal store goalId
  let revision ← newestRevision store goalId
  guard (revision.id = revisionId)
  match findVerdict store goalId revision.id with
  | some existing => if existing.type = .accept then return store else none
  | none =>
    guard (goal.status = .completed)
    guard (goal.root.reservedTokens = 0)
    guard (!store.runs.any fun run => goal.owns run && !run.status.isTerminal)
    guard (!(goalEffects store goal).any fun effect =>
      effect.status = .intended || effect.status = .approved || effect.status = .executing ||
        effect.status = .paused || effect.status = .uncertain)
    guard (!collecting)
    guard (conditionsPass revision.conditions)
    let accepted := setStatus store goalId .accepted
    guard (!store.settlements.any fun settlement => settlement.goalId = goalId)
    return { accepted with
      verdicts := { goalId, revisionId, actorId, type := .accept, reworkNotes := none } :: store.verdicts
      settlements :=
        { goalId
          revisionId
          rootTaskId := goal.rootTaskId
          actorId
          usedTokens := goal.root.usedTokens
          reservedTokens := goal.root.reservedTokens } :: store.settlements }

def rejectGoal (actorId goalId revisionId reworkNotes : Text) (store : Store) : Option Store := do
  let goal ← findGoal store goalId
  let revision ← newestRevision store goalId
  guard (revision.id = revisionId)
  match findVerdict store goalId revision.id with
  | some existing => if existing.type = .reject then return store else none
  | none =>
    guard (goal.status = .completed)
    return { setStatus store goalId .running with
      verdicts := { goalId, revisionId, actorId, type := .reject, reworkNotes := some reworkNotes }
        :: store.verdicts }

/-- The first condition with the id is changed. -/
def updateCondition (conditions : List GoalCondition) (id : Text) (update : GoalCondition → GoalCondition) :
    Option (List GoalCondition) :=
  let index := conditions.findIdx fun condition => condition.id = id
  if index < conditions.length then some (conditions.modify index update) else none

/-- What the two operations on a condition share: the newest revision, still awaiting its
verdict. -/
def changeCondition (goalId revisionId conditionId : Text) (update : GoalCondition → GoalCondition)
    (store : Store) :
    Option Store := do
  let goal ← findGoal store goalId
  let revision ← newestRevision store goalId
  guard (revision.id = revisionId)
  guard (goal.status = .completed)
  guard (findVerdict store goalId revision.id).isNone
  let conditions ← updateCondition revision.conditions conditionId update
  return { store with
    revisions := store.revisions.map fun row => if row.id = revision.id then { row with conditions } else row }

/-- `supported` is what `validateGoalConditionSupport` finds. -/
def reviewGoalCondition (supported : Bool) (actorId goalId revisionId conditionId : Text)
    (status : ConditionStatus)
    (reason : Option Text) (support : Option (List ConditionSupport)) (now : ℤ) (store : Store) :
    Option Store := do
  guard supported
  changeCondition goalId revisionId conditionId (fun condition =>
    { condition with
      status
      actorId := some actorId
      reason
      support := support.getD condition.support
      proposedSupport := if support.isSome then [] else condition.proposedSupport
      createdAt := some now }) store

def proposeGoalConditionSupport (supported : Bool) (goalId revisionId conditionId : Text)
    (support : List ConditionSupport) (store : Store) : Option Store := do
  guard supported
  changeCondition goalId revisionId conditionId
    (fun condition => { condition with proposedSupport := support }) store

inductive ExhaustionReason where
  | deadline
  | tokens
  | cancelled

def goalExhaustionReason (goal : TeamGoal) (now : ℤ) : Option ExhaustionReason :=
  if goal.untilAt ≤ now || goal.root.deadlineAt ≤ now then some .deadline
  else if min goal.tokenLimit goal.root.tokenLimit ≤ goal.root.usedTokens then some .tokens
  else if goal.root.cancelRequested then some .cancelled
  else none

def requestGoalCancel (goalId : Text) (store : Store) : Store :=
  updateGoal store goalId fun goal => { goal with root.cancelRequested := true }

def reconcileGoalExhaustion (goalId : Text) (now : ℤ) (store : Store) : Option Store := do
  let goal ← findGoal store goalId
  guard (goal.status = .running)
  guard (goalExhaustionReason goal now).isSome
  return setStatus (requestGoalCancel goalId store) goalId .exhausted

/-- The second transaction of `stopGoal`; the first is `requestGoalCancel`. -/
def stopGoal (goalId : Text) (store : Store) : Option Store := do
  let goal ← findGoal store goalId
  guard (goal.status = .running)
  return setStatus store goalId .stopped

/-! ### Workers and effects -/

def load (runId : Text) (store : Store) : Option Store := do
  let run ← store.runs.find? fun run => run.id = runId
  guard (!run.status.isTerminal)
  return { store with
    sessions := store.sessions ++
      [{ runId, goalId := run.goalId, rootTaskId := run.rootTaskId, delegationId := run.delegationId, found := none }] }

/-- The worker of a run with no goal finds the one that is running. -/
def findRunning (index : ℕ) (goalId : Text) (now : ℤ) (store : Store) : Option Store := do
  let session ← store.sessions[index]?
  guard (session.delegationId.isNone && session.goalId.isNone)
  let goal ← findGoal store goalId
  guard (goal.status = .running && (goalExhaustionReason goal now).isNone)
  return { store with sessions := store.sessions.set index { session with found := some goal } }

/-- It links the run, if nobody else has, and takes it for linked. -/
def linkRun (index : ℕ) (store : Store) : Option Store := do
  let session ← store.sessions[index]?
  let goal ← session.found
  return { store with
    runs := store.runs.map fun run =>
      if run.id = session.runId && run.goalId.isNone && run.rootTaskId.isNone then
        { run with goalId := some goal.id, rootTaskId := some goal.rootTaskId }
      else run
    sessions := store.sessions.set index
      { session with goalId := some goal.id, rootTaskId := some goal.rootTaskId, found := none } }

/-- `cancelRunHeldByFrozenGoal`, with what the worker has read of its run. -/
def cancelRunHeldByFrozenGoal (index : ℕ) (now : ℤ) (store : Store) : Option Store := do
  let session ← store.sessions[index]?
  let goal ← match session.goalId, session.rootTaskId with
    | some goalId, _ => findGoal store goalId
    | none, some rootTaskId => findRoot store rootTaskId
    | none, none => none
  guard goal.status.isFrozen
  return settleFrozenGoalRuns (fun run => run.id = session.runId && heldAtResume now run) store

/-- The kind of the effect that holds a message to a peer. -/
def peerHold : Text := lit "peer_hold"

def createEffect (effect : GoalEffect) (store : Store) : Option Store := do
  guard (!store.effects.any fun other => other.id = effect.id || other.idempotencyKey = effect.idempotencyKey)
  return { store with effects := effect :: store.effects }

def admitGoalRunEffect (goalId : Text) (effect : GoalEffect) (store : Store) : Option Store := do
  let goal ← findGoal store goalId
  guard (!goal.status.isFrozen)
  createEffect { effect with status := .intended } store

/-- The goal that the session's run is taken to belong to. -/
def Session.linkedGoalId (session : Session) (store : Store) : Option Text :=
  match session.goalId with
  | some goalId => some goalId
  | none => (session.rootTaskId.bind (findRoot store)).map TeamGoal.id

/-- `recordEffect`, where no earlier row is found for the call. The kind is the name of a tool. -/
def recordEffect (index : ℕ) (effectId kind idempotencyKey : Text) (store : Store) : Option Store :=
  do
  let session ← store.sessions[index]?
  guard (kind ≠ peerHold)
  let effect := { id := effectId, runId := session.runId, kind, idempotencyKey, status := .intended }
  match session.linkedGoalId store, session.rootTaskId with
  | some goalId, some _ => admitGoalRunEffect goalId effect store
  | _, _ => createEffect effect store

def setEffect (store : Store) (id : Text) (status : EffectStatus) : Store :=
  { store with effects := store.effects.map fun effect => if effect.id = id then
    { effect with status } else effect }

/-- The two statuses from which an effect is claimed. -/
inductive ClaimFrom where
  | approved
  | intended

def ClaimFrom.status : ClaimFrom → EffectStatus
  | approved => .approved
  | intended => .intended

/-- `claimApprovedEffect` and `claimIntendedEffect` -/
def claimExternalEffect (origin : ClaimFrom) (effectId : Text) (store : Store) : Option Store := do
  let effect ← store.effects.find? fun effect => effect.id = effectId
  guard (effect.status = origin.status)
  return setEffect store effectId .executing

def claimGoalRunEffect (goalId rootTaskId : Option Text) (origin : ClaimFrom) (effectId : Text)
    (store : Store) :
    Option Store :=
  let goal := match goalId with
    | some goalId => findGoal store goalId
    | none => rootTaskId.bind (findRoot store)
  match goal with
  | none => if goalId.isSome then none else claimExternalEffect origin effectId store
  | some goal => if goal.status = .running then claimExternalEffect origin effectId store else none

/-- The claim of a worker, for an effect of its run. -/
def claimEffect (index : ℕ) (origin : ClaimFrom) (effectId : Text) (store : Store) : Option Store :=
  do
  let session ← store.sessions[index]?
  let effect ← store.effects.find? fun effect => effect.id = effectId
  guard (effect.runId = session.runId)
  if session.goalId.isSome || session.rootTaskId.isSome then
    claimGoalRunEffect session.goalId session.rootTaskId origin effectId store
  else claimExternalEffect origin effectId store

/-- A message to a peer that waits for an approval: the run of its delegation, which is not admitted
for a frozen goal, and the effect that holds it. -/
def holdPeerMessage (run : GoalRun) (delegationId rootTaskId effectId idempotencyKey : Text) (store : Store) :
    Option Store := do
  let goal ← findRoot store rootTaskId
  guard (!goal.status.isFrozen && !goal.root.cancelRequested)
  guard (run.goalId.all fun goalId => goalId = goal.id)
  guard (!store.runs.any fun other => other.id = run.id)
  guard (!store.effects.any fun effect => effect.runId = run.id)
  createEffect { id := effectId, runId := run.id, kind := peerHold, idempotencyKey, status := .intended }
    { store with
      runs := { run with delegationId := some delegationId, rootTaskId := some rootTaskId } :: store.runs }

/-- `claimPeerBoundEffect`: the claim of an approved exact write, which asks no goal. -/
def claimPeerBoundEffect (effectId : Text) (store : Store) : Option Store := do
  let effect ← store.effects.find? fun effect => effect.id = effectId
  guard (effect.kind = peerHold)
  claimExternalEffect .approved effectId store

inductive EffectMove where
  | approve
  | deny
  | fail
  | complete
  | unsettle
  | release

def EffectMove.target (effect : GoalEffect) : EffectMove → Option EffectStatus
  | approve => if effect.status = .intended then some .approved else none
  | deny => if effect.status = .intended || effect.status = .approved then some .denied else none
  | fail => if effect.status = .intended || effect.status = .approved then some .failed else none
  | complete => if effect.status = .intended || effect.status = .executing then some .completed else none
  | unsettle => if effect.status = .executing then some .uncertain else none
  | release => if effect.status = .executing then some .intended else none

def moveEffect (move : EffectMove) (effectId : Text) (store : Store) : Option Store := do
  let effect ← store.effects.find? fun effect => effect.id = effectId
  let status ← move.target effect
  return setEffect store effectId status

/-- A run of the goal that something else has created: a wake of its coordinator, or a delegated
one. -/
def createGoalRun (run : GoalRun) (goalId : Text) (store : Store) : Option Store := do
  let goal ← findGoal store goalId
  guard (run.goalId.all fun id => id = goal.id)
  guard (!store.runs.any fun other => other.id = run.id)
  guard (!store.effects.any fun effect => effect.runId = run.id)
  return { store with runs := { run with rootTaskId := some goal.rootTaskId } :: store.runs }

/-- A run of no goal, which may be for a delegation of other work. -/
def createPlainRun (run : GoalRun) (store : Store) : Option Store := do
  guard (run.rootTaskId.all fun rootTaskId => (findRoot store rootTaskId).isNone)
  guard (!store.runs.any fun other => other.id = run.id)
  guard (!store.effects.any fun effect => effect.runId = run.id)
  return { store with runs := { run with goalId := none } :: store.runs }

def moveGoalRun (runId : Text) (status : RunStatus) (leaseExpiresAt : Option ℤ) (store : Store) : Store :=
  { store with
    runs := store.runs.map fun run =>
      if run.id = runId && !run.status.isTerminal then { run with status, leaseExpiresAt } else run }

/-- What the work of a goal has used and reserved changes as it goes on. -/
def accountTokens (goalId : Text) (usedTokens reservedTokens : ℕ) (store : Store) : Store :=
  updateGoal store goalId fun goal =>
    { goal with root.usedTokens := usedTokens, root.reservedTokens := reservedTokens }

/-! ### Operations -/

inductive ReviewOp where
  | start (goal : TeamGoal) (run : GoalRun)
  | submit (goalId revisionId summary : Text)
  | review (supported : Bool) (actorId goalId revisionId conditionId : Text) (status : ConditionStatus)
      (reason : Option Text) (support : Option (List ConditionSupport)) (now : ℤ)
  | propose (supported : Bool) (goalId revisionId conditionId : Text) (support : List ConditionSupport)
  | accept (collecting : Bool) (actorId goalId revisionId : Text)
  | reject (actorId goalId revisionId reworkNotes : Text)
  | requestCancel (goalId : Text)
  | stop (goalId : Text)
  | exhaust (goalId : Text) (now : ℤ)
  | load (runId : Text)
  | find (index : ℕ) (goalId : Text) (now : ℤ)
  | link (index : ℕ)
  | resume (index : ℕ) (now : ℤ)
  | record (index : ℕ) (effectId kind idempotencyKey : Text)
  | claim (index : ℕ) (origin : ClaimFrom) (effectId : Text)
  | hold (run : GoalRun) (delegationId rootTaskId effectId idempotencyKey : Text)
  | claimBound (effectId : Text)
  | effect (move : EffectMove) (effectId : Text)
  | createRun (run : GoalRun) (goalId : Text)
  | createPlainRun (run : GoalRun)
  | moveRun (runId : Text) (status : RunStatus) (leaseExpiresAt : Option ℤ)
  | tokens (goalId : Text) (usedTokens reservedTokens : ℕ)

namespace ReviewOp

/-- What the transaction leaves, or nothing if it is rolled back. -/
def result (store : Store) : ReviewOp → Option Store
  | start goal run => startGoal goal run store
  | submit goalId revisionId summary => commitGoalSubmission goalId revisionId summary store
  | review supported actorId goalId revisionId conditionId status reason support now =>
    reviewGoalCondition supported actorId goalId revisionId conditionId status reason support now store
  | propose supported goalId revisionId conditionId support =>
    proposeGoalConditionSupport supported goalId revisionId conditionId support store
  | accept collecting actorId goalId revisionId => acceptGoal collecting actorId goalId revisionId store
  | reject actorId goalId revisionId reworkNotes => rejectGoal actorId goalId revisionId reworkNotes store
  | requestCancel goalId => some (requestGoalCancel goalId store)
  | stop goalId => stopGoal goalId store
  | exhaust goalId now => reconcileGoalExhaustion goalId now store
  | load runId => Goals.load runId store
  | find index goalId now => findRunning index goalId now store
  | link index => linkRun index store
  | resume index now => cancelRunHeldByFrozenGoal index now store
  | record index effectId kind idempotencyKey => recordEffect index effectId kind idempotencyKey store
  | claim index origin effectId => claimEffect index origin effectId store
  | hold run delegationId rootTaskId effectId idempotencyKey =>
    holdPeerMessage run delegationId rootTaskId effectId idempotencyKey store
  | claimBound effectId => claimPeerBoundEffect effectId store
  | effect move effectId => moveEffect move effectId store
  | createRun run goalId => createGoalRun run goalId store
  | createPlainRun run => Goals.createPlainRun run store
  | moveRun runId status leaseExpiresAt => some (moveGoalRun runId status leaseExpiresAt store)
  | tokens goalId usedTokens reservedTokens => some (accountTokens goalId usedTokens reservedTokens store)

def apply (store : Store) (op : ReviewOp) : Store := (op.result store).getD store

end ReviewOp

def emptyStore : Store :=
  { goals := [], revisions := [], verdicts := [], settlements := [], runs := [], effects := [],
    sessions := [] }

end ArdurBot.Goals
