import ArdurBot.Core.Redaction
import ArdurBot.Lib.Dag

/-!
# The project plan of a goal

`packages/db/src/goal-plan.ts`: the steps of a plan, what an update of it checks, and how the
statuses that follow from other steps are derived again after each change. A change names the
revision of the plan that it was based on, and is refused when that is no longer the current one.

The database lists the rows of a plan in no particular order, so each operation has the order it saw
as an argument.
-/

namespace ArdurBot.Goals

open Utf16 ArdurBot.Core

inductive StepStatus where
  | pending
  | active
  | blocked
  | done
  | cancelled
deriving DecidableEq

inductive GoalStatus where
  | running
  | needsOwner
  | paused
  | blocked
  | stopped
  | exhausted
  | completed
  | accepted
deriving DecidableEq

/-- The statuses of a goal whose work is frozen. -/
def GoalStatus.isFrozen (status : GoalStatus) : Bool := status = .completed || status = .accepted

inductive GoalPlanConflict where
  | revisionChanged
  | notRunning
  | unknownOwner
  | prerequisiteMissing
  | dependencyCycle
  | unknownStep
  | stepSettled
  | stepNotSettled
  | stepInFlight
  | missingSupport

/-- What a change throws; `diverges` stands for a loop that does not end. -/
inductive PlanFault where
  | conflict (reason : GoalPlanConflict)
  | invalidSupport
  | diverges

abbrev PlanResult := Except PlanFault

def refuseUnless (condition : Bool) (reason : GoalPlanConflict) : PlanResult Unit :=
  if condition then .ok () else .error (.conflict reason)

structure ConditionSupport where
  kind : Text
  recordId : Text
  revision : Option Text
deriving DecidableEq

/-- `recordedAt` in milliseconds. -/
structure StepOutcome where
  actorId : Text
  support : List ConditionSupport
  recordedAt : ℤ
deriving DecidableEq

structure StepDispatch where
  runId : Text
  delegationId : Text
  dispatchedAt : ℤ
deriving DecidableEq

/-- A row of `goal_plan_steps`; the `id` of an input is its `clientId`, and there is one row for
each. -/
structure PlanStep where
  clientId : Text
  revision : ℕ
  position : ℕ
  title : Text
  ownerId : Text
  ownerIsUser : Bool
  condition : Text
  prerequisiteIds : List Text
  status : StepStatus
  outcome : Option StepOutcome
  dispatchRunId : Option Text
  dispatchDelegationId : Option Text
  dispatch : Option StepDispatch
deriving DecidableEq

structure StepInput where
  id : Text
  title : Text
  ownerId : Text
  ownerIsUser : Bool
  condition : Text
  prerequisiteIds : List Text

/-- What the plan's operations use of a goal, with its steps. -/
structure Plan where
  status : GoalStatus
  userId : Text
  planRevision : ℕ
  steps : List PlanStep

abbrev RowOrder := {list : List PlanStep → List PlanStep // ∀ rows, (list rows).Perm rows}

def storedOrder : RowOrder := ⟨id, fun _ => .refl _⟩

def findStep (rows : List PlanStep) (id : Text) : Option PlanStep :=
  rows.find? fun row => row.clientId = id

def statusOf (rows : List PlanStep) (id : Text) : Option StepStatus :=
  (findStep rows id).map PlanStep.status

/-- Pending and blocked steps, whose status follows from those of others. -/
def StepStatus.isDerived (status : StepStatus) : Bool := status = .pending || status = .blocked

def deriveStatus (prior : StepStatus) (prerequisiteStatuses : Text → Option StepStatus)
    (prerequisiteIds : List Text) : StepStatus :=
  if !prior.isDerived then prior
  else if prerequisiteIds.any fun id =>
      prerequisiteStatuses id = some .blocked || prerequisiteStatuses id = some .cancelled then .blocked
  else .pending

/-- The body of the `for` loop, for the row of one step. -/
def relax (revision : ℕ) (id : Text) (rows : List PlanStep) : List PlanStep :=
  rows.map fun row =>
    if row.clientId = id then
      let next := deriveStatus row.status (statusOf rows) row.prerequisiteIds
      if next = row.status then row else { row with status := next, revision }
    else row

def sweep (revision : ℕ) (rows : List PlanStep) : List PlanStep :=
  Dag.sweep (relax revision) (rows.map PlanStep.clientId) rows

/-- The `while` loop, for so many passes at most. -/
def settle (revision : ℕ) : ℕ → List PlanStep → PlanResult (List PlanStep)
  | 0, _ => .error .diverges
  | passes + 1, rows =>
    let next := sweep revision rows
    if next = rows then .ok rows else settle revision passes next

/-- With no cycle, the loop has ended after a pass for each step and one more. -/
def recomputePlanStepStatuses (order : RowOrder) (revision : ℕ) (rows : List PlanStep) :
    PlanResult (List PlanStep) :=
  settle revision (rows.length + 1) (order.val rows)

def graphHasCycle (entries : List (Text × List Text)) : Bool :=
  Dag.hasCycle (entries.map Prod.fst) fun id =>
    ((entries.find? fun entry => entry.1 = id).map Prod.snd).getD []

/-- `members` are the bots of the group that are not archived. -/
def validatePlanOwners (userId : Text) (members : List Text) (steps : List StepInput) : PlanResult Unit :=
  steps.forM fun step =>
    refuseUnless (if step.ownerIsUser then step.ownerId = userId else members.contains step.ownerId)
      .unknownOwner

section

variable (steps : List StepInput) (existing : List PlanStep)

/-- The submitted steps with their new prerequisites, and the others with those they keep. -/
def mergedGraph : List (Text × List Text) :=
  steps.map (fun step => (step.id, step.prerequisiteIds)) ++
    (existing.filter fun row => row.clientId ∉ steps.map StepInput.id).map fun row =>
      (row.clientId, row.prerequisiteIds)

def validatePlanShape : PlanResult Unit := do
  refuseUnless (steps.map StepInput.id).Nodup .prerequisiteMissing
  let known := steps.map StepInput.id ++ existing.map PlanStep.clientId
  refuseUnless (steps.all fun step => step.prerequisiteIds.all known.contains) .prerequisiteMissing
  refuseUnless (!graphHasCycle (mergedGraph steps existing)) .dependencyCycle

end

section

variable (secrets : Option (List Text))

def sameDefinitionText (stored submitted : Text) : Bool :=
  match secrets with
  | some secrets => redactSecrets stored secrets = redactSecrets submitted secrets
  | none => stored = submitted

def sameDefinition (prior : PlanStep) (step : StepInput) : Bool :=
  sameDefinitionText secrets prior.title step.title &&
    sameDefinitionText secrets prior.condition step.condition && prior.ownerId = step.ownerId &&
    prior.ownerIsUser = step.ownerIsUser && prior.prerequisiteIds = step.prerequisiteIds

def validateSettled (existing : List PlanStep) (steps : List StepInput) :
    PlanResult Unit :=
  steps.forM fun step =>
    refuseUnless ((findStep existing step.id).all fun prior =>
      prior.status ≠ .done || sameDefinition secrets prior step) .stepSettled

end

/-- The row of a listed step: a known one keeps its status, outcome and dispatch. -/
def writeStep (revision position : ℕ) (prior : Option PlanStep) (step : StepInput) : PlanStep where
  clientId := step.id
  revision
  position
  title := step.title
  ownerId := step.ownerId
  ownerIsUser := step.ownerIsUser
  condition := step.condition
  prerequisiteIds := step.prerequisiteIds
  status := (prior.map PlanStep.status).getD .pending
  outcome := prior.bind PlanStep.outcome
  dispatchRunId := prior.bind PlanStep.dispatchRunId
  dispatchDelegationId := prior.bind PlanStep.dispatchDelegationId
  dispatch := prior.bind PlanStep.dispatch

/-- A known step that is no longer listed is cancelled, not deleted. -/
def leaveStep (revision : ℕ) (row : PlanStep) : PlanStep :=
  if row.status = .done ∨ row.status = .cancelled then row else { row with revision, status := .cancelled }

def writeSteps (revision : ℕ) (existing : List PlanStep) (steps : List StepInput) : List PlanStep :=
  steps.mapIdx (fun index step => writeStep revision index (findStep existing step.id) step) ++
    (existing.filter fun row => row.clientId ∉ steps.map StepInput.id).map (leaveStep revision)

def commitPlanUpdate (members : List Text) (secrets : Option (List Text)) (order : RowOrder)
    (baseRevision : ℕ) (steps : List StepInput) (plan : Plan) : PlanResult Plan := do
  refuseUnless (plan.status = .running) .notRunning
  refuseUnless (plan.planRevision = baseRevision) .revisionChanged
  validatePlanOwners plan.userId members steps
  validatePlanShape steps plan.steps
  validateSettled secrets plan.steps steps
  let revision := plan.planRevision + 1
  let rows ← recomputePlanStepStatuses order revision (writeSteps revision plan.steps steps)
  return { plan with planRevision := revision, steps := rows }

def claimPlanStep (plan : Plan) (stepId : Text) (baseRevision : ℕ) : PlanResult PlanStep := do
  refuseUnless (plan.status = .running) .notRunning
  refuseUnless (plan.planRevision = baseRevision) .revisionChanged
  match findStep plan.steps stepId with
  | some step => return step
  | none => .error (.conflict .unknownStep)

def updateStep (rows : List PlanStep) (id : Text) (update : PlanStep → PlanStep) : List PlanStep :=
  rows.map fun row => if row.clientId = id then update row else row

/-- `supported` is what `validateGoalConditionSupport` finds in the records of the goal. -/
def requireSupport (supported : Bool) : PlanResult Unit :=
  if supported then .ok () else .error .invalidSupport

def recordGoalPlanStepOutcome (byOwner : Bool) (outcome : StepOutcome) (supported : Bool)
    (order : RowOrder) (stepId : Text) (baseRevision : ℕ) (plan : Plan) : PlanResult Plan := do
  let step ← claimPlanStep plan stepId baseRevision
  refuseUnless (step.status ≠ .done && step.status ≠ .cancelled) .stepSettled
  refuseUnless (byOwner || outcome.support ≠ []) .missingSupport
  requireSupport supported
  let revision := plan.planRevision + 1
  let rows ← recomputePlanStepStatuses order revision (updateStep plan.steps stepId fun row =>
    { row with revision, status := .done, outcome := some outcome })
  return { plan with planRevision := revision, steps := rows }

inductive StepAction where
  | cancel
  | reopen

def reopenStep (revision : ℕ) (status : StepStatus) (row : PlanStep) : PlanStep :=
  { row with revision, status, outcome := none, dispatchRunId := none, dispatchDelegationId := none, dispatch := none }

/-- `inFlight` tells the runs that exist and have not ended. -/
def settleGoalPlanStep (action : StepAction) (inFlight : Text → Bool) (order : RowOrder)
    (stepId : Text) (baseRevision : ℕ) (plan : Plan) : PlanResult Plan := do
  let step ← claimPlanStep plan stepId baseRevision
  match action with
  | .cancel => refuseUnless (step.status ≠ .done && step.status ≠ .cancelled) .stepSettled
  | .reopen => do
    refuseUnless (step.status = .done || step.status = .cancelled || step.status = .active) .stepNotSettled
    refuseUnless (!step.dispatchRunId.any inFlight) .stepInFlight
  let revision := plan.planRevision + 1
  let reopened := deriveStatus .pending (statusOf plan.steps) step.prerequisiteIds
  let rows ← recomputePlanStepStatuses order revision (updateStep plan.steps stepId fun row =>
    match action with
    | .cancel => { row with revision, status := .cancelled }
    | .reopen => reopenStep revision reopened row)
  return { plan with planRevision := revision, steps := rows }

/-- `markGoalPlanStepDispatched` -/
def markDispatched (runId delegationId : Text) (at_ : ℤ) (row : PlanStep) : PlanStep :=
  if row.dispatchRunId = none then
    { row with
      status := .active
      dispatchRunId := some runId
      dispatchDelegationId := some delegationId
      dispatch := some { runId, delegationId, dispatchedAt := at_ } }
  else row

/-- Whether the step as it is now may be handed out as the one that was `seen` before. -/
def isDispatchable (rows : List PlanStep) (seen current : PlanStep) : Bool :=
  current.status = .pending && current.dispatchRunId = none && current.revision = seen.revision &&
    current.ownerId = seen.ownerId &&
    current.prerequisiteIds.all fun id => statusOf rows id = some .done

/-- The part of the dispatch that is about the plan, in the transaction that has made the run. -/
def dispatchStep (seen : PlanStep) (runId delegationId : Text) (at_ : ℤ) (plan : Plan) : Option Plan :=
  match findStep plan.steps seen.clientId with
  | some current =>
    if isDispatchable plan.steps seen current then
      some { plan with steps := updateStep plan.steps seen.clientId (markDispatched runId delegationId at_) }
    else none
  | none => none

end ArdurBot.Goals
