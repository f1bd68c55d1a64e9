import Mathlib.Tactic.TypeStar

/-!
# The states of a run

`packages/core/src/run-state.ts`, with the two states in which a run for a peer waits, and the
states of a delegation (`packages/contracts/src/delegation.ts`).
-/

namespace ArdurBot.Core

inductive RunStatus where
  | queued
  | leased
  | running
  | waitingInput
  | waitingTakeover
  | peerPaused
  | peerReady
  | completed
  | failed
  | cancelled
deriving DecidableEq

def RunStatus.isTerminal (status : RunStatus) : Bool :=
  status = .completed || status = .failed || status = .cancelled

/-- `ACTIVE_RUN_STATUSES` -/
def RunStatus.isActive (status : RunStatus) : Bool :=
  status = .queued || status = .leased || status = .running || status = .waitingInput || status =
    .waitingTakeover

inductive DelegationStatus where
  | queued
  | running
  | cancelRequested
  | completed
  | accepted
  | failed
  | cancelled
deriving DecidableEq

/-- `ACTIVE_DELEGATIONS` -/
def DelegationStatus.isActive (status : DelegationStatus) : Bool :=
  status = .queued || status = .running || status = .cancelRequested

end ArdurBot.Core
