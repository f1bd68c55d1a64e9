import ArdurBot.Core.RunState
import ArdurBot.Goals.PlanRun
import ArdurBot.Lib.Run

/-!
# Handing plan steps out

A ready step is handed out through a delegation, whose admission key names the step and the revision
it had, and a run that works on it (`packages/adapters/src/chief/project-plan.ts`). A delegation
that has completed may be rejected by the coordinator, which gives it one more run
(`packages/db/src/delegation-rework.ts`). The step keeps only the run that it was first handed out
to.

A delegation is admitted under the root of the coordinator's run (`packages/db/src/delegation.ts`),
which need not be that of the goal; whether the goal is running is read before the transaction.
-/

namespace ArdurBot.Goals

open Utf16 ArdurBot.Core

structure WorkRun where
  id : Text
  status : RunStatus
  delegationId : Option Text
deriving DecidableEq

/-- A delegation of a plan step: its admission key is the step with the revision. -/
structure StepDelegation where
  id : Text
  stepId : Text
  revision : ℕ
  onGoalRoot : Bool
  status : DelegationStatus
  runId : Option Text
deriving DecidableEq

/-- The message that hands a step out: its nonce is the step with the revision. -/
structure Handoff where
  stepId : Text
  revision : ℕ
  runId : Text

/-- One goal with its plan, and what has been handed out of it. -/
structure Work where
  plan : Plan
  cancelRequested : Bool
  delegations : List StepDelegation
  runs : List WorkRun
  handoffs : List Handoff

/-- The ids of runs are distinct, and so are the delegations that runs have. -/
def createRun (run : WorkRun) (runs : List WorkRun) : Option (List WorkRun) :=
  if runs.any fun other => other.id =
    run.id || (run.delegationId.isSome && other.delegationId = run.delegationId) then none
  else some (run :: runs)

def findRun (runs : List WorkRun) (id : Text) : Option WorkRun := runs.find? fun run => run.id = id

section

variable (delegations : List StepDelegation) (id : Text)

def findDelegation : Option StepDelegation :=
  delegations.find? fun delegation => delegation.id = id

def updateDelegation (update : StepDelegation → StepDelegation) :
    List StepDelegation :=
  delegations.map fun delegation => if delegation.id = id then update delegation else delegation

end

/-- `admitDelegation` for a plan step: the delegation of the key, if there is one, and else a new
one. `affordable` is what its other checks find, those of another root among them. -/
def admitStep (affordable onGoalRoot : Bool) (id stepId : Text) (revision : ℕ) (work : Work) :
    Option (StepDelegation × List StepDelegation) :=
  match work.delegations.find? fun delegation => delegation.stepId = stepId && delegation.revision =
    revision with
  | some replay => if affordable then some (replay, work.delegations) else none
  | none =>
    if onGoalRoot && (work.cancelRequested || work.plan.status.isFrozen) || !affordable ||
        work.delegations.any (fun delegation => delegation.id = id) then none
    else
      let delegation := { id, stepId, revision, onGoalRoot, status := .queued, runId := none }
      some (delegation, delegation :: work.delegations)

/-- What one dispatch of a step is given: the row that was read before, the bots of the group,
whether the coordinator's run is running and its root is that of the goal, and the ids of what it
creates. -/
structure DispatchInput where
  seen : PlanStep
  members : List Text
  sourceRunning : Bool
  onGoalRoot : Bool
  affordable : Bool
  runId : Text
  delegationId : Text
  dispatchedAt : ℤ

/-- The transaction of `dispatchReadyGoalPlanSteps`; nothing if it is refused. -/
def dispatchReadyGoalPlanStep (input : DispatchInput) (work : Work) : Option Work := do
  guard input.sourceRunning
  let current ← findStep work.plan.steps input.seen.clientId
  guard (input.members.contains current.ownerId && isDispatchable work.plan.steps input.seen current)
  match work.handoffs.find? fun handoff => handoff.stepId = current.clientId && handoff.revision =
    current.revision with
  | some existing =>
    let delegation ← work.delegations.find? fun delegation => delegation.runId = some existing.runId
    let plan ← dispatchStep input.seen existing.runId delegation.id input.dispatchedAt work.plan
    return { work with plan }
  | none =>
    let (delegation, delegations) ←
      admitStep input.affordable input.onGoalRoot input.delegationId current.clientId current.revision work
    let runs ← createRun { id := input.runId, status := .queued, delegationId := some delegation.id } work.runs
    let plan ← dispatchStep input.seen input.runId delegation.id input.dispatchedAt work.plan
    return { work with
      plan, runs
      delegations := updateDelegation delegations delegation.id fun row => { row with runId := some input.runId }
      handoffs := { stepId := current.clientId, revision := current.revision, runId := input.runId }
        :: work.handoffs }

/-- `affordable` is what the checks of the limits find, and those of another root. -/
def rejectDelegation (affordable : Bool) (id runId : Text) (work : Work) : Option Work := do
  let row ← findDelegation work.delegations id
  guard (row.status = .completed && !(row.onGoalRoot && work.cancelRequested) && affordable)
  let old ← findRun work.runs (← row.runId)
  guard old.status.isTerminal
  let released := work.runs.map fun run => if run.id = old.id then { run with delegationId := none } else run
  let runs ← createRun { id := runId, status := .queued, delegationId := some row.id } released
  return { work with
    runs
    delegations := updateDelegation work.delegations id fun row =>
      { row with runId := some runId, status := .queued } }

inductive DelegationOutcome where
  | completed
  | failed
  | cancelled
deriving DecidableEq

def DelegationOutcome.status : DelegationOutcome → DelegationStatus
  | completed => .completed
  | failed => .failed
  | cancelled => .cancelled

/-- `expectedRunId` is what the caller takes for the run of the delegation, if it names one. -/
def finishDelegation (outcome : DelegationOutcome) (expectedRunId : Option (Option Text))
    (row : StepDelegation) :
    StepDelegation :=
  if expectedRunId.any fun runId => row.runId ≠ runId then row
  else if row.status = .cancelRequested && outcome = .completed then row
  else if row.status.isActive then { row with status := outcome.status }
  else row

def acceptDelegation (row : StepDelegation) : StepDelegation :=
  if row.status = .completed then { row with status := .accepted } else row

def requestCancel (row : StepDelegation) : StepDelegation :=
  if row.onGoalRoot && row.status.isActive then { row with status := .cancelRequested } else row

/-- A run that has ended is not started again. -/
def moveRun (status : RunStatus) (run : WorkRun) : WorkRun :=
  if run.status.isTerminal then run else { run with status }

/-- The status of the goal, and the request to cancel, which comes before it is stopped or
exhausted. -/
inductive GoalMove where
  | submit
  | accept
  | rework
  | requestCancel
  | stop
  | exhaust

inductive WorkOp where
  | update (members : List Text) (secrets : Option (List Text)) (order : RowOrder) (baseRevision : ℕ)
      (steps : List StepInput)
  | outcome (byOwner : Bool) (value : StepOutcome) (supported : Bool) (order : RowOrder) (stepId : Text)
      (baseRevision : ℕ)
  | settle (action : StepAction) (order : RowOrder) (stepId : Text) (baseRevision : ℕ)
  | dispatch (input : DispatchInput)
  | startDelegation (id : Text)
  | finishDelegation (id : Text) (outcome : DelegationOutcome) (expectedRunId : Option (Option Text))
  | acceptDelegation (id : Text)
  | rejectDelegation (affordable : Bool) (id runId : Text)
  | moveRun (id : Text) (status : RunStatus)
  | goal (move : GoalMove)

/-- The runs that a step may not be reopened under. -/
def inFlight (runs : List WorkRun) (id : Text) : Bool :=
  (findRun runs id).any fun run => !run.status.isTerminal

def GoalMove.apply (work : Work) : GoalMove → Work
  | submit => if work.plan.status = .running then { work with plan.status := .completed } else work
  | accept => if work.plan.status = .completed then { work with plan.status := .accepted } else work
  | rework => if work.plan.status = .completed then { work with plan.status := .running } else work
  | requestCancel =>
    { work with cancelRequested := true, delegations := work.delegations.map Goals.requestCancel }
  | stop =>
    if work.cancelRequested && work.plan.status = .running then { work with plan.status := .stopped } else work
  | exhaust =>
    if work.cancelRequested && work.plan.status = .running then { work with plan.status := .exhausted } else work

namespace WorkOp

/-- The change of the plan, for those that are about nothing else. -/
def planOp (work : Work) : WorkOp → Option PlanOp
  | update members secrets order baseRevision steps => some (.update members secrets order baseRevision steps)
  | outcome byOwner value supported order stepId baseRevision =>
    some (.outcome byOwner value supported order stepId baseRevision)
  | settle action order stepId baseRevision =>
    some (.settle action (inFlight work.runs) order stepId baseRevision)
  | _ => none

def apply (work : Work) (op : WorkOp) : Work :=
  match op with
  | update .. | outcome .. | settle .. =>
    { work with plan := ((op.planOp work).map fun change => change.apply work.plan).getD work.plan }
  | dispatch input => (dispatchReadyGoalPlanStep input work).getD work
  | startDelegation id =>
    { work with delegations := updateDelegation work.delegations id fun row =>
        if row.status = .queued then { row with status := .running } else row }
  | finishDelegation id value expectedRunId =>
    { work with delegations := updateDelegation work.delegations id (Goals.finishDelegation value expectedRunId) }
  | acceptDelegation id =>
    { work with delegations := updateDelegation work.delegations id Goals.acceptDelegation }
  | rejectDelegation affordable id runId => (Goals.rejectDelegation affordable id runId work).getD work
  | moveRun id status =>
    { work with runs := work.runs.map fun run => if run.id = id then Goals.moveRun status run else run }
  | goal move => move.apply work

def after (work : Work) (ops : List WorkOp) : Work := Run.after apply work ops

end WorkOp

end ArdurBot.Goals
