import ArdurBot.Lib.Calls
import ArdurBot.Lib.History
import ArdurBot.Lib.Utf16

/-!
# Waking a routine

`wakeRoutine` of `packages/adapters/src/executor.ts`, with the schedules of
`packages/core/src/cron.ts`. A wake reads the routine, advances its schedule and creates the run in
one transaction, and then enqueues the run; when that throws, a second transaction takes the run
back and restores the schedule. A wake acts between two of its awaits at a time, and may stop at
any. Wakes come for any time at any time; a run that is queued may be taken up at any time, by its
job or by the reconciler. Its task stays queued until the run ends, and a task that is deleted takes
its run with it (`packages/db/prisma/schema.prisma`).

One routine is modelled, with a person who edits its schedule. Each edit begins a schedule of its
own, so that a time that is set again is another scheduled time. The next run of a pattern is that
of the cron library.
-/

namespace ArdurBot.Routines

open Utf16

def onceRoutineCron : Text := lit "@once"

def isOneShotRoutineCron (cron : Text) : Bool := trim cron = onceRoutineCron

def isOneShotRoutineCrons : List Text → Bool
  | [cron] => isOneShotRoutineCron cron
  | _ => false

/-- The next run of a pattern in a time zone after a time, if it parses and has one. -/
abbrev NextRun := Text → Text → ℕ → Option ℕ

def fieldCount (cron : Text) : ℕ := ((trim cron).splitOnP isWhite).countP fun field => field ≠ []

/-- `none` when it throws. -/
def nextCronDate (nextRun : NextRun) (cron : Text) (start : ℕ) (timezone : Text) : Option ℕ :=
  if isOneShotRoutineCron cron then none
  else if fieldCount cron ≠ 5 then none
  else nextRun cron timezone start

/-- The earlier of two, where a pattern that does not parse has none. -/
def nearer (nextRun : NextRun) (start : ℕ) (timezone : Text) (earliest : Option ℕ) (cron : Text) : Option ℕ :=
  if isOneShotRoutineCron cron then earliest
  else
    match nextCronDate nextRun cron start timezone with
    | none => earliest
    | some next => if earliest.all fun time => next < time then some next else earliest

def nextCronDateAcross (nextRun : NextRun) (crons : List Text) (start : ℕ) (timezone : Text) : Option ℕ :=
  crons.foldl (nearer nextRun start timezone) none

section

variable {nextRun : NextRun} {start : ℕ} {timezone : Text}

/-- The cron library gives a time after the one it is asked from. -/
def IsLater (nextRun : NextRun) : Prop :=
  ∀ cron timezone start time, nextRun cron timezone start = some time → start < time

theorem lt_nextCronDate (h : IsLater nextRun) {cron : Text} {time : ℕ}
    (hnext : nextCronDate nextRun cron start timezone = some time) : start < time := by
  unfold nextCronDate at hnext
  split at hnext
  · cases hnext
  · split at hnext
    · cases hnext
    · exact h _ _ _ _ hnext

theorem lt_nearer (h : IsLater nextRun) {earliest : Option ℕ}
    (hearliest : ∀ time, earliest = some time → start < time)
    (cron : Text) {time : ℕ} (htime : nearer nextRun start timezone earliest cron = some time) :
    start < time := by
  unfold nearer at htime
  split at htime
  · exact hearliest time htime
  · split at htime
    · exact hearliest time htime
    · next next hnext =>
      split at htime
      · cases htime
        exact lt_nextCronDate h hnext
      · exact hearliest time htime

theorem lt_nextCronDateAcross (h : IsLater nextRun) (crons : List Text) {time : ℕ}
    (htime : nextCronDateAcross nextRun crons start timezone = some time) : start < time := by
  have hfold : ∀ (crons : List Text) (earliest : Option ℕ), (∀ t, earliest = some t → start < t) →
      ∀ t, crons.foldl (nearer nextRun start timezone) earliest = some t → start < t := by
    intro crons
    induction crons with
    | nil => exact fun earliest hearliest => hearliest
    | cons cron crons ih => exact fun earliest hearliest => ih _ fun t ht => lt_nearer h hearliest cron ht
  exact hfold crons none (fun _ hnone => by cases hnone) time htime

end

structure Routine where
  active : Bool
  nextRunAt : Option ℕ
  lastRunAt : Option ℕ
  crons : List Text
  timezone : Text
  prompt : Text
  threadId : Option Text

structure Scheduled where
  schedule : ℕ
  time : ℕ
deriving DecidableEq

/-- A run of the routine, with its task. Not kept anywhere: what it was scheduled for, the time that
was to come next, and whether it was ever taken up. -/
structure RoutineRun where
  id : ℕ
  prompt : Text
  isQueued : Bool
  isTaskQueued : Bool
  scheduled : Scheduled
  next : Option ℕ
  isStarted : Bool
deriving DecidableEq

/-- A restored routine, with the schedule that it had then, and the row that was left. -/
inductive Event where
  | accepted (call : ℕ) (scheduled : Scheduled) (runId : ℕ)
  | started (runId : ℕ) (scheduled : Scheduled)
  | restored (call : ℕ) (scheduled : Scheduled) (runId schedule : ℕ) (row : Routine)

structure System where
  now : ℕ
  routine : Routine
  /-- How often a person has edited the schedule. -/
  schedule : ℕ
  /-- The newest first. -/
  runs : List RoutineRun
  nextId : ℕ
  history : List Event

/-- What a wake goes on with once it has claimed; `schedule` is not kept by the code. -/
structure Claimed where
  runId : ℕ
  scheduledAt : ℕ
  nextRunAt : Option ℕ
  previousLastRunAt : Option ℕ
  isOneShot : Bool
  schedule : ℕ

def Claimed.scheduled (x : Claimed) : Scheduled := ⟨x.schedule, x.scheduledAt⟩

inductive Call where
  | wake (scheduledAt : ℕ)
  | defer (scheduledAt : ℕ)
  | readThread (routine : Routine) (scheduledAt : ℕ)
  | stop (scheduledAt : ℕ)
  | claim (routine : Routine) (scheduledAt : ℕ) (nextRunAt : Option ℕ)
  | enqueue (x : Claimed)
  | restore (x : Claimed)
  | signal (x : Claimed)
  | reschedule (x : Claimed)
  | done
  | failed

/-- What comes of what a wake awaits: it is done, fails, or is done while the answer is lost; the
bot has no thread, or the thread of the routine is not there. -/
inductive Answer where
  | ok
  | fails
  | lost
  | missing
  | unavailable
deriving DecidableEq

def awaited (s : System) (answer : Answer) (done : System × Call) : System × Call :=
  match answer with
  | .fails => (s, .failed)
  | .lost => (done.1, .failed)
  | _ => done

/-- The condition on the row of a wake for a time. -/
def Routine.isDue (routine : Routine) (scheduledAt : ℕ) : Bool :=
  routine.active && routine.nextRunAt = some scheduledAt

def nextRunOf (nextRun : NextRun) (routine : Routine) (scheduledAt now : ℕ) : Option ℕ :=
  if isOneShotRoutineCrons routine.crons then none
  else nextCronDateAcross nextRun routine.crons (max now scheduledAt) routine.timezone

def claim (s : System) (index : ℕ) (read : Routine) (scheduledAt : ℕ) (nextRunAt : Option ℕ) :
    System × Call :=
  if s.routine.isDue scheduledAt then
    let scheduled : Scheduled := ⟨s.schedule, scheduledAt⟩
    ({ s with
        routine := { s.routine with lastRunAt := some s.now, nextRunAt, active := nextRunAt.isSome }
        runs := ⟨s.nextId, read.prompt, true, true, scheduled, nextRunAt, false⟩ :: s.runs
        nextId := s.nextId + 1
        history := .accepted index scheduled s.nextId :: s.history },
      .enqueue ⟨s.nextId, scheduledAt, nextRunAt, read.lastRunAt, isOneShotRoutineCrons read.crons, s.schedule⟩)
  else (s, .done)

def Claimed.isRestorable (x : Claimed) (routine : Routine) : Bool :=
  routine.nextRunAt = x.nextRunAt && (x.nextRunAt.isSome || !routine.active)

/-- The run that the claim created, while it is queued or its task is. -/
def Claimed.isDeleted (x : Claimed) (run : RoutineRun) : Bool :=
  run.id = x.runId && (run.isQueued || run.isTaskQueued)

def restore (s : System) (index : ℕ) (x : Claimed) : System :=
  let deleted : System := { s with runs := s.runs.filter fun run => !x.isDeleted run }
  if x.isRestorable s.routine then
    let row : Routine :=
      { s.routine with nextRunAt := some x.scheduledAt, active := true, lastRunAt := x.previousLastRunAt }
    { deleted with routine := row, history := .restored index x.scheduled x.runId s.schedule row :: s.history }
  else deleted

def act (nextRun : NextRun) (s : System) (index : ℕ) (call : Call) (answer : Answer) : System × Call :=
  match call with
  | .wake scheduledAt =>
    awaited s answer (s,
      if !s.routine.isDue scheduledAt then .done
      else if s.now + 1000 < scheduledAt then .defer scheduledAt
      else .readThread s.routine scheduledAt)
  | .defer _ => awaited s answer (s, .done)
  | .readThread routine scheduledAt =>
    awaited s answer (s,
      if answer = .missing then .done
      else if answer = .unavailable && routine.threadId.isSome then .stop scheduledAt
      else .claim routine scheduledAt (nextRunOf nextRun routine scheduledAt s.now))
  | .stop scheduledAt =>
    awaited s answer (
      if s.routine.isDue scheduledAt then
        ({ s with routine := { s.routine with active := false, nextRunAt := none } }, .done)
      else (s, .done))
  | .claim routine scheduledAt nextRunAt => awaited s answer (claim s index routine scheduledAt nextRunAt)
  | .enqueue x => (s, if answer = .fails || answer = .lost then .restore x else .signal x)
  | .restore x => (if answer = .fails then s else restore s index x, .failed)
  | .signal x => (s, if x.isOneShot then .done else if x.nextRunAt.isSome then .reschedule x else .done)
  | .reschedule _ => awaited s answer (s, .done)
  | .done => (s, .done)
  | .failed => (s, .failed)

inductive Happening where
  | pass (ms : ℕ)
  /-- A queued run is taken up by its job or after a pass of the reconciler. -/
  | take (runId : ℕ)
  /-- A run that was taken up is queued again. -/
  | requeue (runId : ℕ)
  /-- A run ends, or is cancelled, and its task with it. -/
  | finish (runId : ℕ)
  /-- A person switches the routine off or on, or moves its next run. -/
  | edit (active : Bool) (nextRunAt : Option ℕ) (crons : List Text) (timezone prompt : Text)

def System.setRun (s : System) (runId : ℕ) (data : RoutineRun → RoutineRun) : System :=
  { s with runs := s.runs.map fun run => if run.id = runId then data run else run }

def take (s : System) (runId : ℕ) : System :=
  match s.runs.find? fun run => run.id = runId && run.isQueued with
  | none => s
  | some run =>
    let taken := s.setRun runId fun run => { run with isQueued := false, isStarted := true }
    if run.isStarted then taken else { taken with history := .started runId run.scheduled :: s.history }

def happen (s : System) : Happening → System
  | .pass ms => { s with now := s.now + ms }
  | .take runId => take s runId
  | .requeue runId => s.setRun runId fun run =>
    { run with isQueued := run.isQueued || run.isStarted && run.isTaskQueued }
  | .finish runId => s.setRun runId fun run => { run with isQueued := false, isTaskQueued := false }
  | .edit active nextRunAt crons timezone prompt =>
    { s with
      routine := { s.routine with
        active := active, nextRunAt, crons, timezone, prompt }
      schedule := s.schedule + 1 }

def program (nextRun : NextRun) : Calls.Program System Call Answer Happening where
  act := act nextRun
  environment := happen

def Call.isStart : Call → Bool
  | .wake _ => true
  | _ => false

end ArdurBot.Routines
