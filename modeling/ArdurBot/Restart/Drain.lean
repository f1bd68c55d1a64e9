import ArdurBot.Core.RunState
import ArdurBot.Lib.Run
import ArdurBot.Lib.Table
import ArdurBot.Lib.Utf16

/-!
# Restart drain

`RestartDrain` of `packages/adapters/src/restart-drain.ts`, with the claim of
`packages/adapters/src/executor.ts` that asks it. The row of the deployment settings holds one id
and one time. Updaters write it and then wait for the runs; claims read it under a lock that their
transaction keeps, so a claim is one step from that read to its end. There is one clock.
-/

namespace ArdurBot.Restart

open Utf16 ArdurBot.Core

def restartUpdateHoldMs : ℕ := 65 * 60000

def leaseMs : ℕ := 5 * 60000

/-- A run, as far as claims and drains read it. -/
structure LeasedRun where
  id : Text
  status : RunStatus
  leaseFence : ℕ
  leaseExpiresAt : ℕ

/-- A `begin` that has written the row and not returned. -/
structure DrainCall where
  id : Text
  startedAt : ℕ
  timeoutMs : ℕ
deriving DecidableEq

/-- A claim that `admits` let through: whether its process was stopping, and whether a `begin` had
returned ok that was relied on. -/
structure Admission where
  stopping : Bool
  relied : Bool

/-- `asking` are the claims past the first check of `admits`, with their processes. The last three
fields are not stored anywhere: the ids whose `begin` returned ok and that are not cleared since,
the hold time the last `begin` set, and the claims that were let through. -/
structure Deployment where
  now : ℕ
  restartDrainId : Option Text
  restartDrainUntil : Option ℕ
  runs : List LeasedRun
  waiting : List DrainCall
  stopping : List ℕ
  asking : List (ℕ × Text)
  relied : List Text
  holdUntil : ℕ
  admissions : List Admission

/-- Any runs, and any row left by an earlier deployment. -/
def newDeployment (now : ℕ) (restartDrainId : Option Text) (restartDrainUntil : Option ℕ)
    (runs : List LeasedRun) :
    Deployment where
  now
  restartDrainId
  restartDrainUntil
  runs
  waiting := []
  stopping := []
  asking := []
  relied := []
  holdUntil := 0
  admissions := []

def LeasedRun.isLive (run : LeasedRun) (now : ℕ) : Bool :=
  (run.status = .running || run.status = .leased) && now < run.leaseExpiresAt

section

variable (deployment : Deployment)

def Deployment.isClosed : Bool := deployment.restartDrainUntil.any fun time => deployment.now < time

/-- The ids of a hold are relied on until its time passes. -/
def Deployment.tick (ms : ℕ) : Deployment :=
  { deployment with
    now := deployment.now + ms
    relied := if deployment.now + ms < deployment.holdUntil then deployment.relied else [] }

/-- The first statement of `begin`. -/
def Deployment.begin (id : Text) (timeoutMs : ℕ) : Deployment :=
  { deployment with
    restartDrainId := some id
    restartDrainUntil := some (deployment.now + restartUpdateHoldMs)
    holdUntil := deployment.now + restartUpdateHoldMs
    waiting := deployment.waiting ++ [{ id, startedAt := deployment.now, timeoutMs }] }

def Deployment.findCall (id : Text) : Option DrainCall :=
  deployment.waiting.find? fun call => call.id = id

/-- A count of `begin`: it returns ok when no run has a live lease. -/
def Deployment.count (id : Text) : Deployment :=
  match deployment.findCall id with
  | none => deployment
  | some call =>
    if deployment.runs.any fun run => run.isLive deployment.now then deployment
    else
      { deployment with
        waiting := deployment.waiting.erase call
        relied := if deployment.now < deployment.holdUntil then id :: deployment.relied else deployment.relied }

def clearRow (id : Text) : Deployment :=
  if deployment.restartDrainId = some id then
    { deployment with restartDrainId := none, restartDrainUntil := none }
  else deployment

end

def DrainCall.isDue (call : DrainCall) (now : ℕ) : Bool := call.startedAt + call.timeoutMs ≤ now

/-- The time of a `begin` is over, and it clears its id. -/
def Deployment.expire (deployment : Deployment) (id : Text) : Deployment :=
  match deployment.findCall id with
  | none => deployment
  | some call =>
    if call.isDue deployment.now then clearRow { deployment with waiting := deployment.waiting.erase call } id
    else deployment

def Deployment.clear (deployment : Deployment) (id : Text) : Deployment :=
  clearRow { deployment with relied := deployment.relied.filter (· ≠ id) } id

def canClaim (run : LeasedRun) (now : ℕ) : Bool :=
  (run.status = .queued || run.status = .waitingInput || run.status = .waitingTakeover) ||
    ((run.status = .leased || run.status = .running) && run.leaseExpiresAt ≤ now)

def claimRun (now : ℕ) (runId : Text) (run : LeasedRun) : LeasedRun :=
  if run.id = runId && canClaim run now then
    { run with status := .leased, leaseFence := run.leaseFence + 1, leaseExpiresAt := now + leaseMs }
  else run

section

variable (deployment : Deployment) (process : ℕ) (runId : Text)

/-- `admits` up to its locked read. -/
def Deployment.ask : Deployment :=
  if process ∈ deployment.stopping then deployment
  else { deployment with asking := (process, runId) :: deployment.asking }

/-- `admits` from its locked read on, and the claim. -/
def Deployment.claim : Deployment :=
  if (process, runId) ∈ deployment.asking then
    let asked := { deployment with asking := deployment.asking.erase (process, runId) }
    if deployment.isClosed then asked
    else
      { asked with
        runs := deployment.runs.map (claimRun deployment.now runId)
        admissions := { stopping := process ∈ deployment.stopping, relied := deployment.relied ≠ [] } ::
          deployment.admissions }
  else deployment

end

def startRun (runId : Text) (fence : ℕ) (run : LeasedRun) : LeasedRun :=
  if run.id = runId && run.status = .leased && run.leaseFence = fence then
    { run with status := .running } else run

/-- `renewRunLease` -/
def renewRun (now : ℕ) (runId : Text) (fence : ℕ) (run : LeasedRun) : LeasedRun :=
  if run.id = runId && run.status = .running && run.leaseFence = fence then
    { run with leaseExpiresAt := now + leaseMs }
  else run

/-- A run ends, or goes back to a status that no lease is needed for. -/
def settleRun (runId : Text) (status : RunStatus) (run : LeasedRun) : LeasedRun :=
  if run.id = runId && !(status = .running || status = .leased) then { run with status } else run

inductive DrainOp where
  | tick (ms : ℕ)
  | begin (id : Text) (timeoutMs : ℕ)
  | count (id : Text)
  | expire (id : Text)
  | clear (id : Text)
  | ask (process : ℕ) (runId : Text)
  | claim (process : ℕ) (runId : Text)
  | start (runId : Text) (fence : ℕ)
  | renew (runId : Text) (fence : ℕ)
  | settle (runId : Text) (status : RunStatus)
  | shutdown (process : ℕ)

def DrainOp.apply (deployment : Deployment) : DrainOp → Deployment
  | tick ms => deployment.tick ms
  | begin id timeoutMs => deployment.begin id timeoutMs
  | count id => deployment.count id
  | expire id => deployment.expire id
  | clear id => deployment.clear id
  | ask process runId => deployment.ask process runId
  | claim process runId => deployment.claim process runId
  | start runId fence => { deployment with runs := deployment.runs.map (startRun runId fence) }
  | renew runId fence => { deployment with runs := deployment.runs.map (renewRun deployment.now runId fence) }
  | settle runId status => { deployment with runs := deployment.runs.map (settleRun runId status) }
  | shutdown process => { deployment with stopping := process :: deployment.stopping }

/-- The row is only cleared while no other `begin` waits for the runs or is relied on; a lease is
renewed while it is live; and a process is stopped while none of its claims is past the first
check. -/
def Deployment.Sound (deployment : Deployment) : DrainOp → Prop
  | .clear id =>
    deployment.restartDrainId = some id → deployment.waiting = [] ∧ ∀ other ∈ deployment.relied, other = id
  | .expire id =>
    ∀ call ∈ deployment.findCall id, call.isDue deployment.now → deployment.restartDrainId = some id →
      deployment.waiting.erase call = [] ∧ deployment.relied = []
  | .renew runId fence =>
    ∀ run ∈ deployment.runs, run.id = runId → run.status = .running → run.leaseFence = fence →
      run.isLive deployment.now
  | .shutdown process => ∀ asked ∈ deployment.asking, asked.1 ≠ process
  | _ => True

instance Deployment.decidableSound (deployment : Deployment) : ∀ op, Decidable (deployment.Sound op)
  | .tick _ => inferInstanceAs (Decidable True)
  | .begin _ _ => inferInstanceAs (Decidable True)
  | .count _ => inferInstanceAs (Decidable True)
  | .expire id => inferInstanceAs (Decidable (∀ call ∈ deployment.findCall id, _))
  | .clear _ => inferInstanceAs (Decidable (_ → _))
  | .ask _ _ => inferInstanceAs (Decidable True)
  | .claim _ _ => inferInstanceAs (Decidable True)
  | .start _ _ => inferInstanceAs (Decidable True)
  | .renew _ _ => inferInstanceAs (Decidable (∀ run ∈ deployment.runs, _))
  | .settle _ _ => inferInstanceAs (Decidable True)
  | .shutdown _ => inferInstanceAs (Decidable (∀ asked ∈ deployment.asking, _))

end ArdurBot.Restart
