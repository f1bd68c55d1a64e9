import ArdurBot.Lib.Calls
import ArdurBot.Lib.History
import ArdurBot.Lib.Utf16

/-!
# Control of a computer

`computer-control.ts` of `packages/adapters/src`, with the release of `apps/api/src/router.ts`, the
transaction that ends a release in `packages/db/src/events.ts`, and the cleanup of a fresh boot in
`computer-lifecycle.ts`. A call acts between two of its awaits at a time. The database may fail, or
commit while the answer is lost; the provider may fail, and may have no engine or no screen control
here. A call may stop at any await.

One computer is modelled. Whatever else changes its row is left open, except that no lease id is
issued twice and that only an extension moves the deadline of a lease. The history of what was done
is kept beside the rows.
-/

namespace ArdurBot.ComputerControl

open Utf16

inductive Holder where
  | none
  | user
  | bot
deriving DecidableEq

structure Computer where
  controlHolder : Holder
  controlLeaseId : Option Text
  controlLeaseExpiresAt : Option ℕ
  controlBotId : Option Text
  controlRunId : Option Text
  controlFence : ℕ
  providerRef : Option Text
  screenGeneration : ℕ
  running : Bool
  provisioningId : Option Text
  updatedAt : ℕ

inductive RunStatus where
  | queued
  | leased
  | running
  | waitingTakeover
  | other
deriving DecidableEq

structure Run where
  id : Text
  botId : Text
  status : RunStatus
  checkpoint : Option Text

inductive Job where
  | controlExpire (leaseId : Text) (availableAt : ℕ)
  | runContinue (runId : Text)

/-- `replaceKey`: a job takes the place of one with the same key. -/
def Job.sameKey : Job → Job → Bool
  | .controlExpire leaseId _, .controlExpire other _ => leaseId = other
  | .runContinue runId, .runContinue other => runId = other
  | _, _ => false

inductive Cause where
  | expired
  | ended
  | released
  | swept
  | other
deriving DecidableEq

/-- What was done to a lease: its holder was denied, the provider revoked it, its id left the
row. -/
inductive Deed where
  | denied
  | revoked
  | cleared

/-- `deadline` is what the row said when it was done. -/
inductive Event where
  | called (call : ℕ) (leaseId : Text)
  | extended (call : ℕ) (leaseId : Text) (expiresAt : ℕ)
  /-- An expiry found the lease run out. -/
  | looked (call : ℕ) (leaseId : Text) (time : ℕ)
  | acted (call : ℕ) (leaseId : Text) (cause : Cause) (deed : Deed) (deadline : Option ℕ) (time : ℕ)
  /-- There was nothing to revoke. -/
  | spared (call : ℕ) (leaseId : Text)

def Event.call : Event → ℕ
  | .called call _ => call
  | .extended call _ _ => call
  | .looked call _ _ => call
  | .acted call _ _ _ _ _ => call
  | .spared call _ => call

/-- The deadline that the latest extension of a lease set. -/
def lastExtension (leaseId : Text) : List Event → Option ℕ
  | [] => none
  | .extended _ other expiresAt :: earlier => if other = leaseId then some expiresAt
    else lastExtension leaseId earlier
  | _ :: earlier => lastExtension leaseId earlier

structure System where
  now : ℕ
  computer : Option Computer
  runs : List Run
  jobs : List Job
  /-- The lease ids that were given out. -/
  issued : List Text
  history : List Event

section

variable (s : System)

def System.record (event : Event) : System := { s with history := event :: s.history }

def System.lease : Option Text := s.computer.bind (·.controlLeaseId)

def System.deadline (leaseId : Text) : Option ℕ :=
  if s.lease = some leaseId then s.computer.bind (·.controlLeaseExpiresAt) else none

/-- `updateMany` on the row that sets its time, and whether it matched. -/
def System.updateManyAt (stamp : ℕ) (matching : Computer → Bool) (data : Computer → Computer) :
    System × Bool :=
  match s.computer with
  | none => (s, false)
  | some computer =>
    if matching computer then
      ({ s with computer := some { data computer with updatedAt := stamp } }, true) else (s, false)

def System.updateMany (matching : Computer → Bool) (data : Computer → Computer) : System × Bool :=
  s.updateManyAt s.now matching data

end

def clearControl (holder : Holder) (computer : Computer) : Computer where
  __ := computer
  controlHolder := holder
  controlLeaseId := none
  controlLeaseExpiresAt := none
  controlBotId := none
  controlRunId := none

def denyUser (computer : Computer) : Computer := { computer with controlHolder := .none }

def activate (ref : Text) (computer : Computer) : Computer where
  __ := computer
  running := true
  provisioningId := none
  providerRef := some ref

def hasActiveComputerControl (computer : Computer) (now : ℕ) : Bool :=
  computer.controlHolder = .user && computer.controlLeaseId.isSome &&
    computer.controlLeaseExpiresAt.any fun expiresAt => now < expiresAt

def enqueue (s : System) (job : Job) : System :=
  { s with jobs := s.jobs.filter (fun other => !job.sameKey other) ++ [job] }

def cancel (s : System) (leaseId : Text) : System :=
  { s with jobs := s.jobs.filter fun other => !(Job.controlExpire leaseId 0).sameKey other }

def teachingControlLeaseExpiresAt (takeoverLeaseMs teachingExpiresAt now : ℕ) : ℕ :=
  max (now + takeoverLeaseMs) teachingExpiresAt

/-- The end of a terminal, with the generation of the computer it was on. -/
structure Ended where
  fence : ℕ
  providerRef : Text
  screenGeneration : ℕ

def Ended.isOn (ended : Ended) (computer : Computer) : Bool :=
  computer.controlFence = ended.fence && computer.providerRef = some ended.providerRef &&
    computer.screenGeneration = ended.screenGeneration

/-- What an expiry goes on with: the row it read. -/
structure Expiry where
  leaseId : Text
  ended : Option Ended
  now : ℕ
  computer : Computer

def Expiry.matches (x : Expiry) (computer : Computer) : Bool :=
  computer.controlLeaseId = some x.leaseId && x.ended.all fun ended => ended.isOn computer

def Expiry.cause (x : Expiry) : Cause := if x.ended.isSome then .ended else .expired

/-- The input of `finalizeComputerControlRelease`. -/
structure Finalize where
  botId : Text
  runId : Option Text
  leaseId : Text
  holder : Holder
  skipped : Bool

def Finalize.matches (x : Finalize) (computer : Computer) : Bool :=
  computer.controlBotId = some x.botId && computer.controlLeaseId = some x.leaseId &&
    computer.controlRunId = x.runId

/-- The run is queued again, or stamped when a worker has it; `none` when it is neither. -/
def resume (runs : List Run) (x : Finalize) : List Run × Option Text :=
  let checkpoint := some (if x.skipped then lit "takeover-skipped" else lit "takeover")
  let isOf (run : Run) : Bool := x.runId = some run.id && run.botId = x.botId
  if runs.any fun run => isOf run && run.status = .waitingTakeover then
    (runs.map fun run => if isOf run && run.status = .waitingTakeover then
        { run with status := .queued, checkpoint } else run, x.runId)
  else if runs.any fun run => isOf run && (run.status = .leased || run.status = .running) then
    (runs.map fun run => if isOf run && (run.status = .leased || run.status = .running) then
        { run with checkpoint } else run, x.runId)
  else (runs, none)

/-- `finalizeComputerControlRelease`, with the run to continue when it matched. -/
def finalizeComputerControlRelease (s : System) (x : Finalize) : System × Option (Option Text) :=
  match s.updateMany x.matches (clearControl x.holder) with
  | (_, false) => (s, none)
  | (cleared, true) =>
    let (runs, runId) := resume s.runs x
    ({ cleared with runs }, some runId)

/-- What a boot observed before it used the provider, and its claim. -/
structure Boot where
  observed : Computer
  claimStamp : ℕ
  provisioningId : Text
  ref : Text
  reconnecting : Bool
  holder : Holder

/-- Whether the boot clears the control once it is activated. -/
def Boot.clears (x : Boot) (now : ℕ) : Bool :=
  let retryingStaleUserControl := x.reconnecting && x.observed.controlHolder = .user &&
    x.observed.controlLeaseId.isNone && !hasActiveComputerControl x.observed now
  !x.reconnecting || retryingStaleUserControl

inductive Call where
  | extendRead (botId : Text) (deadline : ℕ)
  | extend (botId : Text) (deadline : ℕ) (computer : Computer)
  | extendWrite (botId leaseId : Text) (expiresAt : ℕ)
  | extendSchedule (leaseId : Text) (expiresAt : ℕ)
  | expire (leaseId : Text) (ended : Option Ended)
  | expireRead (leaseId : Text) (ended : Option Ended) (now : ℕ)
  | reschedule (leaseId : Text) (availableAt : ℕ)
  | orphanRevoke (x : Expiry)
  | orphanRetry (leaseId : Text) (availableAt : ℕ)
  | orphanClear (x : Expiry)
  | claim (x : Expiry) (botId : Text)
  | revoke (x : Expiry) (botId : Text)
  | finalize (x : Expiry) (botId : Text)
  | releaseRead (botId : Text) (skipped : Bool)
  | release (botId : Text) (skipped : Bool) (computer : Computer)
  | sweep (now : ℕ)
  | releaseDeny (x : Finalize) (providerRef : Option Text)
  | releaseRevoke (x : Finalize)
  | releaseFinalize (x : Finalize)
  | releaseCancel (leaseId : Text) (runId : Option Text)
  | continuation (runId : Text)
  | bootRead (claimStamp : ℕ) (provisioningId ref : Text) (reconnecting : Bool) (holder : Holder)
  | bootPrepared (x : Boot)
  | bootActivate (x : Boot) (stamp : ℕ)
  | bootClear (x : Boot) (stamp : ℕ)
  | done (result : Bool)
  | failed

def Call.cause : Call → Cause
  | .expire _ ended => if ended.isSome then .ended else .expired
  | .expireRead _ ended _ => if ended.isSome then .ended else .expired
  | .orphanRevoke x => x.cause
  | .orphanClear x => x.cause
  | .claim x _ => x.cause
  | .revoke x _ => x.cause
  | .finalize x _ => x.cause
  | .sweep _ => .swept
  | .releaseDeny _ _ => .released
  | .releaseRevoke _ => .released
  | .releaseFinalize _ => .released
  | _ => .other

/-- What comes of what a call awaits: the database or the queue answers, fails, or did it while the
answer is lost; the provider has no engine for the computer, or no screen control. -/
inductive Answer where
  | ok
  | fails
  | lost
  | missing
  | absent
deriving DecidableEq

/-- A statement of the database, or a call of the queue. -/
def awaited (s : System) (answer : Answer) (done : System × Call) : System × Call :=
  match answer with
  | .fails => (s, .failed)
  | .lost => (done.1, .failed)
  | _ => done

/-- `revokeScreenControl`: an engine that is missing, or that has no screen control, has nothing to
revoke. -/
def revokeScreenControl (s : System) (index : ℕ) (leaseId : Text) (cause : Cause) (refused next : Call) :
    Answer → System × Call
  | .ok => (s.record (.acted index leaseId cause .revoked (s.deadline leaseId) s.now), next)
  | .missing => (s.record (.spared index leaseId), next)
  | .absent => (s.record (.spared index leaseId), next)
  | .fails => (s, refused)
  | .lost => (s, refused)

def expireRead (s : System) (index : ℕ) (leaseId : Text) (ended : Option Ended) (now : ℕ) : System × Call :=
  match s.computer with
  | none => (s, .done false)
  | some computer =>
    if computer.controlLeaseId ≠ some leaseId then (s, .done false)
    else if ended.any fun ended => !ended.isOn computer then (s, .done false)
    else
      match if ended.isSome then none else computer.controlLeaseExpiresAt.filter fun expiresAt => now < expiresAt with
      | some expiresAt => (s, .reschedule leaseId expiresAt)
      | none =>
        let x : Expiry := ⟨leaseId, ended, now, computer⟩
        let s := if ended.isSome then s else s.record (.looked index leaseId now)
        match computer.controlBotId with
        | some botId => (s, .claim x botId)
        | none =>
          if computer.providerRef.isSome then (s, .orphanRevoke x)
          else (s.record (.spared index leaseId), .orphanClear x)

def release (s : System) (botId : Text) (skipped : Bool) (computer : Computer) : System × Call :=
  match computer.controlLeaseId with
  | none => (s, .sweep s.now)
  | some leaseId =>
    if hasActiveComputerControl computer s.now then
      (s, .releaseDeny ⟨botId, computer.controlRunId, leaseId, .bot, skipped⟩ computer.providerRef)
    else (s, .expire leaseId none)

/-- What a call does next; `takeoverLeaseMs` is configured. -/
def next (takeoverLeaseMs : ℕ) (s : System) (index : ℕ) (call : Call) (answer : Answer) : System × Call :=
  match call with
  | .extendRead botId deadline =>
    awaited s answer (s, (s.computer.map fun computer => Call.extend botId deadline computer).getD (.done false))
  | .extend botId deadline computer =>
    match computer.controlLeaseId with
    | some leaseId =>
      if hasActiveComputerControl computer s.now && computer.controlBotId = some botId then
        (s, .extendWrite botId leaseId (teachingControlLeaseExpiresAt takeoverLeaseMs deadline s.now))
      else (s, .done false)
    | none => (s, .done false)
  | .extendWrite botId leaseId expiresAt =>
    let (written, matched) := s.updateMany
      (fun computer => computer.controlHolder = .user && computer.controlBotId = some botId &&
        computer.controlLeaseId = some leaseId)
      fun computer => { computer with controlLeaseExpiresAt := some expiresAt }
    awaited s answer (if matched then
      (written.record (.extended index leaseId expiresAt), .extendSchedule leaseId expiresAt)
      else (s, .done false))
  | .extendSchedule leaseId expiresAt =>
    awaited s answer (enqueue s (.controlExpire leaseId expiresAt), .done true)
  | .expire leaseId ended => (s.record (.called index leaseId), .expireRead leaseId ended s.now)
  | .expireRead leaseId ended now => awaited s answer (expireRead s index leaseId ended now)
  | .reschedule leaseId availableAt =>
    awaited s answer (enqueue s (.controlExpire leaseId availableAt), .done false)
  | .orphanRevoke x =>
    revokeScreenControl s index x.leaseId x.cause (.orphanRetry x.leaseId (x.now + 30000)) (.orphanClear x) answer
  | .orphanRetry leaseId availableAt =>
    -- a queue that fails is only logged: the lease id is kept, so the reconciler retries
    (if answer = .fails then s else enqueue s (.controlExpire leaseId availableAt), .done false)
  | .orphanClear x =>
    let (cleared, matched) := s.updateMany x.matches (clearControl .none)
    awaited s answer (cleared, .done matched)
  | .claim x botId =>
    let (claimed, matched) := s.updateMany x.matches denyUser
    awaited s answer (
      if !matched then (s, .done false)
      else if x.computer.providerRef.isSome then (claimed, .revoke x botId)
      else (claimed.record (.spared index x.leaseId), .finalize x botId))
  | .revoke x botId => revokeScreenControl s index x.leaseId x.cause .failed (.finalize x botId) answer
  | .finalize x botId =>
    let input : Finalize := ⟨botId, x.computer.controlRunId, x.leaseId, .none, true⟩
    let (finalized, released) := finalizeComputerControlRelease s input
    awaited s answer (finalized,
      match released with
      | none => .done false
      | some none => .done true
      | some (some runId) => .continuation runId)
  | .releaseRead botId skipped =>
    awaited s answer (
      match s.computer with
      | none => (s, .failed)
      | some computer =>
        if computer.controlHolder = .user && computer.controlBotId = some botId then
          ((computer.controlLeaseId.map fun leaseId => s.record (.called index leaseId)).getD s,
            .release botId skipped computer)
        else (s, .done true))
  | .release botId skipped computer => release s botId skipped computer
  | .sweep now =>
    let (swept, _) := s.updateMany
      (fun computer => computer.controlHolder = .user &&
        (computer.controlLeaseId.isNone || computer.controlLeaseExpiresAt.all fun expiresAt => expiresAt ≤ now))
      (clearControl .none)
    awaited s answer (swept, .done true)
  | .releaseDeny x providerRef =>
    let (denied, _) := s.updateMany (fun computer => computer.controlLeaseId = some x.leaseId) denyUser
    awaited s answer (
      if providerRef.isSome then (denied, .releaseRevoke x)
      else (denied.record (.spared index x.leaseId), .releaseFinalize x))
  | .releaseRevoke x => revokeScreenControl s index x.leaseId .released .failed (.releaseFinalize x) answer
  | .releaseFinalize x =>
    let (finalized, released) := finalizeComputerControlRelease s x
    awaited s answer (finalized,
      match released with
      | none => .done true
      | some runId => .releaseCancel x.leaseId runId)
  | .releaseCancel leaseId runId =>
    -- a cancellation that fails is only logged
    (if answer = .fails then s else cancel s leaseId, (runId.map Call.continuation).getD (.done true))
  | .continuation runId =>
    -- the release is durable: when the queue fails the reconciler takes up the run
    (if answer = .fails then s else enqueue s (.runContinue runId), .done true)
  | .bootRead claimStamp provisioningId ref reconnecting holder =>
    awaited s answer (s, (s.computer.map fun computer =>
      Call.bootPrepared ⟨computer, claimStamp, provisioningId, ref, reconnecting, holder⟩).getD .failed)
  | .bootPrepared x => (s, if answer = .ok then .bootActivate x (max s.now (x.claimStamp + 1)) else .failed)
  | .bootActivate x stamp =>
    let (activated, matched) := s.updateManyAt stamp
      (fun computer => !computer.running && computer.provisioningId = some x.provisioningId) (activate x.ref)
    awaited s answer (
      if !matched then (s, .failed)
      else if x.clears s.now then (activated, .bootClear x stamp)
      else (activated, .done true))
  | .bootClear x stamp =>
    let (cleared, _) := s.updateManyAt stamp
      (fun computer => computer.running && computer.provisioningId.isNone && computer.updatedAt = stamp &&
        computer.controlHolder = x.observed.controlHolder && computer.controlLeaseId.isNone &&
        computer.controlLeaseExpiresAt = x.observed.controlLeaseExpiresAt &&
        computer.controlBotId = x.observed.controlBotId && computer.controlRunId = x.observed.controlRunId)
      (clearControl x.holder)
    awaited s answer (cleared, .done true)
  | .done result => (s, .done result)
  | .failed => (s, .failed)

def isUser (computer : Option Computer) : Bool :=
  computer.any fun computer => computer.controlHolder = .user

/-- What a call did to the lease of the row: it took its id, or it took the control from the
user. -/
def deed (before after : System) : Option Deed :=
  if after.lease ≠ before.lease then some .cleared
  else if isUser before.computer && !isUser after.computer then some .denied
  else none

/-- Whatever a call does to the row is put in the history. -/
def note (s : System) (index : ℕ) (cause : Cause) (after : System) : System :=
  match s.lease, deed s after with
  | some leaseId, some deed => after.record (.acted index leaseId cause deed (s.deadline leaseId) s.now)
  | _, _ => after

def act (takeoverLeaseMs : ℕ) (s : System) (index : ℕ) (call : Call) (answer : Answer) : System × Call :=
  let (after, call') := next takeoverLeaseMs s index call answer
  (note s index call.cause after, call')

/-- The row after anything else: a lease that it has is the same with its deadline, or a new one. -/
inductive Happening where
  | pass (ms : ℕ)
  | computer (row : Option Computer)
  | runs (runs : List Run)
  | jobs (jobs : List Job)

def System.allows (s : System) (row : Option Computer) : Bool :=
  row.all fun computer => computer.controlLeaseId.all fun leaseId =>
    decide (leaseId ∉ s.issued) ||
      s.lease = some leaseId && s.computer.bind (·.controlLeaseExpiresAt) = computer.controlLeaseExpiresAt

def happen (s : System) : Happening → System
  | .pass ms => { s with now := s.now + ms }
  | .computer row =>
    if s.allows row then
      { s with computer := row, issued := (row.bind (·.controlLeaseId)).toList ++ s.issued }
    else s
  | .runs runs => { s with runs }
  | .jobs jobs => { s with jobs }

def program (takeoverLeaseMs : ℕ) : Calls.Program System Call Answer Happening where
  act := act takeoverLeaseMs
  environment := happen

def Call.isStart : Call → Bool
  | .extendRead .. => true
  | .expire .. => true
  | .releaseRead .. => true
  | .bootRead .. => true
  | _ => false

end ArdurBot.ComputerControl
