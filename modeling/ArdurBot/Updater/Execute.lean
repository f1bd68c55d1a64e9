import ArdurBot.Updater.EnvFile

/-!
# A run of the updater

`execute` of `infra/updater/src/index.ts`, with the plan of `packages/core/src/compose-update.ts`
and the drain of `infra/updater/src/restart-drain.ts`. A run waits for one command, write or request
at a time, each of which succeeds, fails or throws. What a failed command leaves of what it touches
is open, and so is where a successful checkout or merge ends. What commands print and how long they
take is left out.
-/

namespace ArdurBot.Updater

open Utf16

/-- `branch` is none where the head is detached. -/
structure Checkout where
  branch : Option Text
  commit : Text

/-- The image that a service runs, and the checkout it was created from. -/
structure Service where
  tag : Text
  checkout : Checkout

/-- The services that an update recreates, by their names: what each runs, if it does. -/
abbrev Services := List (Text × Option Service)

def Services.recreate (services : Services) (service : Service) : Services :=
  services.map fun (name, _) => (name, some service)

/-- Each of the services is as in the others. -/
def Services.asIn (services others : Services) : Services :=
  services.map fun (name, _) => (name, (others.lookup name).join)

/-- `held` tells whether the API holds new turns for this run. -/
structure Installation where
  env : Text
  checkout : Checkout
  remote : Text
  services : Services
  held : Bool

inductive Strategy where
  | pull
  | build
deriving DecidableEq

/-- The command of a step, with what its arguments name. -/
inductive Command where
  | setUrl (url : Text)
  | fetch (branch : Text)
  | checkout (branch : Text)
  | merge (branch : Text)
  | restore (branch : Option Text) (commit : Text)
  | pull
  | up (build : Bool)
deriving DecidableEq

def Command.isGit : Command → Bool
  | pull => false
  | up _ => false
  | _ => true

inductive StepId where
  | remote
  | fetch
  | checkout
  | merge
  | pull
  | recreate
  | restoreCheckout
  | recover
  | restoreRemote
deriving DecidableEq

structure Step where
  id : StepId
  label : Text
  command : Command
deriving DecidableEq

def recreateBuild : Step :=
  ⟨.recreate, lit "Build the new images and recreate the services", .up true⟩

def recreatePulled : Step := ⟨.recreate, lit "Recreate the services", .up false⟩

def pullStep : Step := ⟨.pull, lit "Download the new images", .pull⟩

def composeUpdatePlan (strategy : Strategy) (repoUrl branch : Text) (repointRemote : Bool) : List Step :=
  match strategy with
  | .build =>
    (if repointRemote && repoUrl ≠ [] then
      [⟨.remote, lit "Point the checkout at the chosen repository", .setUrl repoUrl⟩]
    else []) ++
      [⟨.fetch, lit "Fetch the latest commits", .fetch branch⟩,
        ⟨.checkout, lit "Check out " ++ branch, .checkout branch⟩,
        ⟨.merge, lit "Fast-forward to the fetched commit", .merge branch⟩, recreateBuild]
  | .pull => [pullStep, recreatePulled]

structure Input where
  repoUrl : Text
  branch : Text
  strategy : Strategy
  fromTag : Text
  originalPreviousTag : Option Text
  toTag : Option Text
  fromCommit : Option Text
  fromBranch : Option Text
  toCommit : Option Text
  restoreRemoteUrl : Option Text
  steps : List Step
  restartAdvice : Text

/-- `/^[0-9a-f]{40}(?:[0-9a-f]{24})?$/i`, of the text without white space around it. -/
def isGitCommit (value : Text) : Bool :=
  ((trim value).length = 40 || (trim value).length = 64) &&
    (trim value).all fun u => isLowerHex u || unit 'A' ≤ u && u ≤ unit 'F'

/-- `/^[0-9a-f]{40,64}$/` -/
def isResolvedCommit (commit : Text) : Bool :=
  40 ≤ commit.length && commit.length ≤ 64 && commit.all isLowerHex

def forkImageTag (commit : Text) : Option Text :=
  if isResolvedCommit commit then some (lit "local-" ++ commit) else none

def commitImageTag (commit : Text) : Option Text :=
  if isResolvedCommit commit then some (lit "sha-" ++ commit) else none

def hasUnsafeCharacter (value : Text) : Bool := value.any fun u => u ≤ 0x20 || u = 0x7f

/-- `/[\s~^:?*[\\]/` -/
def isRejectedInBranch (u : CodeUnit) : Bool := isWhite u || u ∈ lit "~^:?*[\\"

def isRefusedComponent (component : Text) : Bool :=
  (lit ".").isPrefixOf component || (lit ".lock").isSuffixOf component

def normalizeUpdateBranch (input : Text) : Option Text :=
  let branch := trim input
  if branch = [] || 200 < branch.length || hasUnsafeCharacter branch ||
    branch.any isRejectedInBranch then none
  else if (lit "-").isPrefixOf branch || lit ".." <:+: branch || lit "@\x7b" <:+: branch || branch =
    lit "@" then none
  else if (lit ".").isSuffixOf branch || (lit "/").isPrefixOf branch || (lit "/").isSuffixOf branch then none
  else if lit "//" <:+: branch || (branch.splitOn (unit '/')).any isRefusedComponent then none
  else some branch

/-- The branch that can be restored, unless the head was detached or its name is refused. -/
def namedBranch (fromBranch : Option Text) : Option Text :=
  (fromBranch.filter fun branch => branch ≠ lit "HEAD").bind normalizeUpdateBranch

/-- `restoreCheckoutArgv` -/
def restoreCommand (fromBranch : Option Text) (fromCommit : Text) : Command :=
  .restore (namedBranch fromBranch) fromCommit

inductive Restart where
  | notRequired
  | recreated
  | manual

/-- `ServerUpdateRun`, with the outcome of each step. -/
structure Report where
  ok : Bool
  toCommit : Option Text
  toTag : Option Text
  restart : Restart
  restartAdvice : Text
  error : Option Text
  steps : List (Step × Bool)

def restartPausedMessage : Text := lit "Bot work is still paused after the update. Try again."

def updatePaused : Text := lit "Update paused because a bot is still working. Try again."

def notPersisted : Text :=
  lit "Could not persist the target image tag in the deployment environment."

def recoveredAdvice (primaryError fromTag : Text) (envRestored : Bool) : Text :=
  primaryError ++ lit " The updater restored the previously running " ++ fromTag ++ lit " image" ++
    (if envRestored then lit " and its environment pin" else lit ", but could not restore the environment pin") ++
    lit ". Read the failed step output before retrying."

def manualAdvice (primaryError fromTag : Text) (checkoutRestored envRestored : Bool) : Text :=
  primaryError ++ lit " Automatic recovery to " ++ fromTag ++ lit " " ++
    (if checkoutRestored then lit "also failed"
    else lit "was skipped because the previous checkout could not be restored") ++
    (if envRestored then [] else lit ", and the environment pin could not be restored") ++
    lit ". The runtime may contain a mix of versions; use the recorded commands to recover it manually."

def notRecreatedAdvice (primaryError : Text) (envRestored : Bool) : Text :=
  primaryError ++ lit " No service was recreated" ++
    (if envRestored then lit ", and the prior environment pin was restored"
    else lit ", but the prior environment pin could not be restored") ++
    lit ". Read the failed step output before retrying."

def checkoutAdvice (advice : Text) : Text :=
  advice ++ lit " The previous checkout also could not be restored; fix it before retrying."

def remoteAdvice (advice : Text) : Text :=
  advice ++ lit " The previous Git remote also could not be restored; fix it before retrying."

inductive Outcome where
  | ok
  | failed
  | threw
deriving DecidableEq

/-- The outcome of what is awaited, and what is left of what it touches where it does not tell. -/
structure Answer where
  outcome : Outcome
  left : Installation

inductive Phase where
  | git (step : Step) (rest : List Step)
  | head
  | pinning (toTag : Text)
  | beginning (toTag : Text) (step : Step) (rest : List Step)
  | compose (toTag : Text) (step : Step) (rest : List Step)
  | pausing
  | restoring (step : Step)
  | unpinning (step : Step) (checkoutRestored : Bool)
  | recovering (step : Step) (envRestored : Bool)
  | clearing (attempt : ℕ)
  | cleaning
  | pointing
  | ended
deriving DecidableEq

/-- `draining` tells whether the drain has an id. An execution that `threw` reports nothing but its
error. -/
structure Update where
  input : Input
  installation : Installation
  report : Report
  checkoutNeedsRestore : Bool
  draining : Bool
  threw : Bool
  phase : Phase

/-- What a command does to the installation. Compose runs images of the tag that it is given in its
environment. -/
def Command.effect (command : Command) (tag : Text) (answer : Answer) (w : Installation) : Installation :=
  match command, answer.outcome with
  | .setUrl url, .ok => { w with remote := url }
  | .setUrl _, _ => { w with remote := answer.left.remote }
  | .fetch _, _ => w
  | .checkout branch, .ok => { w with checkout := ⟨some branch, answer.left.checkout.commit⟩ }
  | .merge _, .ok => { w with checkout := ⟨w.checkout.branch, answer.left.checkout.commit⟩ }
  | .restore branch commit, .ok => { w with checkout := ⟨branch, commit⟩ }
  | .checkout _, _ => { w with checkout := answer.left.checkout }
  | .merge _, _ => { w with checkout := answer.left.checkout }
  | .restore _ _, _ => { w with checkout := answer.left.checkout }
  | .pull, _ => w
  | .up _, .ok => { w with services := w.services.recreate ⟨tag, w.checkout⟩ }
  | .up _, _ => { w with services := w.services.asIn answer.left.services }

/-- `writeEnvAssignments`: the file is replaced, or is as it was. -/
def writeEnv (assignments : List (Text × Text)) (answer : Answer) (w : Installation) : Option Installation :=
  if answer.outcome = .ok then (upsertEnvAssignments w.env assignments).map fun env => { w with env } else none

namespace Update

section

variable (u : Update)

def awaits (phase : Phase) : Update := { u with phase }

/-- `runStep`, up to its result. -/
def ran (step : Step) (tag : Text) (answer : Answer) (setError : Bool) : Update :=
  { u with
    installation := step.command.effect tag answer u.installation
    report := { u.report with
      steps := u.report.steps ++ [(step, decide (answer.outcome = .ok))]
      error := if answer.outcome ≠ .ok && setError then some (step.label ++ lit " failed.") else u.report.error } }

def crashed (step : Step) (tag : Text) (answer : Answer) : Update :=
  { u with installation := step.command.effect tag answer u.installation, threw := true }

def advise (advice : Text) : Update :=
  { u with report := { u.report with restartAdvice := advice } }

def fail (error : Text) : Update := { u with report := { u.report with error := some error } }

def revertAssignments : List (Text × Text) :=
  [(imageTagEnv, u.input.fromTag), (previousImageTagEnv, u.input.originalPreviousTag.getD u.input.fromTag)]

end

def restoreStep (commit : Text) (u : Update) : Step :=
  ⟨.restoreCheckout, lit "Restore the previous checkout", restoreCommand u.input.fromBranch commit⟩

section

variable (u : Update)

/-- The commit that the checkout can be restored to. -/
def restorable : Option Text := u.input.fromCommit.filter fun commit => isGitCommit commit

def afterCleaning : Update :=
  if !u.report.ok && u.input.restoreRemoteUrl.isSome then u.awaits .pointing else u.awaits .ended

def afterClearing : Update :=
  if !u.report.ok && u.checkoutNeedsRestore then
    match u.restorable with
    | some _ => { u with checkoutNeedsRestore := false }.awaits .cleaning
    | none =>
      ({ u with checkoutNeedsRestore := false }.advise (checkoutAdvice u.report.restartAdvice)).afterCleaning
  else u.afterCleaning

/-- The `finally` of `execute`. -/
def finish : Update := if u.draining then u.awaits (.clearing 0) else u.afterClearing

def cleared (attempt : ℕ) (answer : Answer) : Update :=
  if answer.outcome = .ok then
    { u with draining := false, installation := { u.installation with held := false } }.afterClearing
  else if attempt + 1 < 5 then u.awaits (.clearing (attempt + 1))
  else
    { u with report := { u.report with ok := false, error := some restartPausedMessage } }.afterClearing

def cleaned (answer : Answer) : Update :=
  match u.restorable with
  | none => u.awaits .ended
  | some commit =>
    if answer.outcome = .threw then (u.crashed (u.restoreStep commit) [] answer).awaits .ended
    else
      let ran := u.ran (u.restoreStep commit) [] answer false
      if answer.outcome = .ok then ran.afterCleaning
      else (ran.advise (checkoutAdvice ran.report.restartAdvice)).afterCleaning

def pointed (answer : Answer) : Update :=
  match u.input.restoreRemoteUrl with
  | none => u.awaits .ended
  | some url =>
    let step : Step := ⟨.restoreRemote, lit "Restore the previous origin remote", .setUrl url⟩
    if answer.outcome = .threw then (u.crashed step [] answer).awaits .ended
    else
      let ran := u.ran step [] answer false
      if answer.outcome = .ok then ran.awaits .ended
        else (ran.advise (remoteAdvice ran.report.restartAdvice)).awaits .ended

def succeed : Update :=
  { u with report := { u.report with ok := true, restart := .recreated } }.finish

def nextCompose (toTag : Text) (steps : List Step) : Update :=
  match steps with
  | [] => u.succeed
  | step :: rest => u.awaits (if step.id = .recreate then .beginning toTag step rest
    else .compose toTag step rest)

def composeSteps : List Step := u.input.steps.filter fun step => !step.command.isGit

def gitSteps : List Step := u.input.steps.filter fun step => step.command.isGit

def resolved : Update :=
  match u.report.toTag with
  | none => (u.fail (lit "Could not resolve a target image tag.")).finish
  | some toTag => u.awaits (.pinning toTag)

def afterGit : Update := if u.input.strategy = .build then u.awaits .head else u.resolved

/-- A step of Git that may change the checkout is marked before it is run. -/
def awaitGit (step : Step) (rest : List Step) : Update :=
  { u with
    checkoutNeedsRestore := u.checkoutNeedsRestore || step.id = .checkout || step.id = .merge
    phase := .git step rest }

def nextGit (steps : List Step) : Update :=
  match steps with
  | [] => u.afterGit
  | step :: rest => u.awaitGit step rest

def ranGit (step : Step) (rest : List Step) (answer : Answer) : Update :=
  match answer.outcome with
  | .ok => (u.ran step [] answer true).nextGit rest
  | .failed => (u.ran step [] answer true).finish
  | .threw => (u.crashed step [] answer).finish

/-- `git rev-parse HEAD`, and the tag of its commit. -/
def readHead (answer : Answer) : Update :=
  match answer.outcome with
  | .threw => { u with threw := true }.finish
  | outcome =>
    let commit := if outcome = .ok then trim u.installation.checkout.commit else []
    if !isGitCommit commit then (u.fail (lit "Could not read the commit to build.")).finish
    else
      let read := { u with report := { u.report with toCommit := some commit } }
      match forkImageTag commit with
      | none => { read with threw := true }.finish
      | some toTag => { read with report := { read.report with toTag := some toTag } }.resolved

def pinned (toTag : Text) (answer : Answer) : Update :=
  match writeEnv [(imageTagEnv, toTag), (previousImageTagEnv, u.input.fromTag)] answer u.installation with
  | some installation => { u with installation }.nextCompose toTag u.composeSteps
  | none => ((u.fail notPersisted).advise (notPersisted ++ lit " Nothing was recreated.")).finish

/-- `drain.begin`, which sets the id first and is false if it throws. -/
def begun (toTag : Text) (step : Step) (rest : List Step) (answer : Answer) : Update :=
  let began := { u with draining := true, installation := { u.installation with held := answer.left.held } }
  if answer.outcome = .ok then began.awaits (.compose toTag step rest)
  else ((began.fail updatePaused).advise updatePaused).awaits .pausing

/-- What follows the attempt to restore the pin when bots still work: an error of the write is
thrown. -/
def paused (answer : Answer) : Update :=
  match writeEnv u.revertAssignments answer u.installation with
  | some installation => { u with installation }.finish
  | none => { u with threw := true }.finish

/-- A step of Compose failed: the checkout is restored, if it has to be. -/
def undo (step : Step) : Update :=
  if !u.checkoutNeedsRestore then u.awaits (.unpinning step true)
  else
    match u.restorable with
    | none => { u with checkoutNeedsRestore := false }.awaits (.unpinning step false)
    | some _ => { u with checkoutNeedsRestore := false }.awaits (.restoring step)

def ranCompose (toTag : Text) (step : Step) (rest : List Step) (answer : Answer) : Update :=
  match answer.outcome with
  | .ok => (u.ran step toTag answer true).nextCompose toTag rest
  | .failed => (u.ran step toTag answer true).undo step
  | .threw => (u.crashed step toTag answer).finish

def restored (step : Step) (answer : Answer) : Update :=
  match u.restorable with
  | none => u.awaits (.unpinning step false)
  | some commit =>
    if answer.outcome = .threw then (u.crashed (u.restoreStep commit) [] answer).finish
    else (u.ran (u.restoreStep commit) [] answer false).awaits (.unpinning step (answer.outcome = .ok))

def primaryError (step : Step) : Text := u.report.error.getD (step.label ++ lit " failed.")

/-- A run that is not recovered to the old image. -/
def leaveManual (step : Step) (checkoutRestored envRestored : Bool) : Update :=
  let error := u.primaryError step
  { u with report := { u.report with
    restart := .manual
    restartAdvice := manualAdvice error u.input.fromTag checkoutRestored envRestored
    error := some error } }.finish

def unpinned (step : Step) (checkoutRestored : Bool) (answer : Answer) : Update :=
  let write := writeEnv u.revertAssignments answer u.installation
  let u := { u with installation := write.getD u.installation }
  if step.id = .recreate then
    if checkoutRestored then u.awaits (.recovering step write.isSome) else u.leaveManual step false write.isSome
  else
    let error := u.primaryError step
    ((u.fail error).advise (notRecreatedAdvice error write.isSome)).finish

def recoverStep : Step :=
  ⟨.recover, lit "Restore the previously running " ++ u.input.fromTag ++ lit " image", .up false⟩

def recovered (step : Step) (envRestored : Bool) (answer : Answer) : Update :=
  match answer.outcome with
  | .threw => (u.crashed u.recoverStep u.input.fromTag answer).finish
  | .failed => (u.ran u.recoverStep u.input.fromTag answer false).leaveManual step true envRestored
  | .ok =>
    let u := u.ran u.recoverStep u.input.fromTag answer false
    let error := u.primaryError step
    { u with report := { u.report with
      restart := .notRequired
      restartAdvice := recoveredAdvice error u.input.fromTag envRestored
      error := some error } }.finish

/-- What is awaited settles, and the run goes on to what it awaits next. -/
def step (answer : Answer) : Update :=
  match u.phase with
  | .git step rest => u.ranGit step rest answer
  | .head => u.readHead answer
  | .pinning toTag => u.pinned toTag answer
  | .beginning toTag step rest => u.begun toTag step rest answer
  | .compose toTag step rest => u.ranCompose toTag step rest answer
  | .pausing => u.paused answer
  | .restoring step => u.restored step answer
  | .unpinning step checkoutRestored => u.unpinned step checkoutRestored answer
  | .recovering step envRestored => u.recovered step envRestored answer
  | .clearing attempt => u.cleared attempt answer
  | .cleaning => u.cleaned answer
  | .pointing => u.pointed answer
  | .ended => u

end

end Update

def execute (input : Input) (installation : Installation) : Update :=
  let report : Report :=
    { ok := false, toCommit := input.toCommit, toTag := input.toTag, restart := .notRequired,
      restartAdvice := input.restartAdvice, error := none, steps := [] }
  let u : Update :=
    { input, installation, report, checkoutNeedsRestore := false, draining := false, threw := false, phase := .ended }
  u.nextGit u.gitSteps

section

variable (w : Installation)

/-- What `readCheckout` gives of the head: nothing where it could not be read. -/
def readCommit (commitRead : Bool) : Option Text :=
  if commitRead then some w.checkout.commit else none

def readBranch (branchRead : Bool) : Option Text :=
  if branchRead then some (w.checkout.branch.getD (lit "HEAD")) else none

/-- What `apply` gives to `execute` for the published image of a commit. -/
def pullInput (repoUrl branch : Text) (commitRead branchRead : Bool)
    (releaseTag toTag commit : Text) : Input where
  repoUrl
  branch
  strategy := .pull
  fromTag := (readTagState w.env).currentTag
  originalPreviousTag := (readTagState w.env).previousTag
  toTag := some toTag
  fromCommit := readCommit w commitRead
  fromBranch := readBranch w branchRead
  toCommit := some commit
  restoreRemoteUrl := none
  steps := composeUpdatePlan .pull repoUrl branch false
  restartAdvice := lit "The updater deployed " ++ releaseTag ++
    lit " from its full source-commit image tag and recreated the API, worker, and web containers. Migrations ran inside the new API container before it became healthy."

/-- What `apply` gives to `execute` for a fork. `differs` tells whether the remote of the checkout
is another repository. -/
def buildInput (repoUrl branch : Text) (branchRead differs : Bool) : Input where
  repoUrl
  branch
  strategy := .build
  fromTag := (readTagState w.env).currentTag
  originalPreviousTag := (readTagState w.env).previousTag
  toTag := none
  fromCommit := readCommit w true
  fromBranch := readBranch w branchRead
  toCommit := none
  restoreRemoteUrl := if differs then some w.remote else none
  steps := composeUpdatePlan .build repoUrl branch differs
  restartAdvice := lit
    "The updater built the fork and recreated the API, worker, and web containers. Migrations ran inside the new API container before it started serving."

/-- What `rollback` gives to `execute`. -/
def rollbackInput (commitRead branchRead : Bool) (tag : Text) : Input where
  repoUrl := []
  branch := []
  strategy := .pull
  fromTag := (readTagState w.env).currentTag
  originalPreviousTag := (readTagState w.env).previousTag
  toTag := some tag
  fromCommit := readCommit w commitRead
  fromBranch := readBranch w branchRead
  toCommit := none
  restoreRemoteUrl := none
  steps := (composeUpdatePlan .pull [] [] false).filter fun step => step.id ≠ .pull
  restartAdvice := lit "Rolled back to " ++ tag ++
    lit ". Database migrations are not reversed: if the newer version added a migration, roll forward again or restore a database backup."

end

inductive Planned (w : Installation) : Input → Prop
  | pull (repoUrl branch : Text) (commitRead branchRead : Bool) (releaseTag toTag commit : Text)
      (htag : commitImageTag commit = some toTag) :
      Planned w (pullInput w repoUrl branch commitRead branchRead releaseTag toTag commit)
  | build (repoUrl branch : Text) (branchRead differs : Bool) (hcommit : isGitCommit w.checkout.commit) :
      Planned w (buildInput w repoUrl branch branchRead differs)
  | rollback (commitRead branchRead : Bool) (tag : Text) (htag : (readTagState w.env).previousTag = some tag) :
      Planned w (rollbackInput w commitRead branchRead tag)

end ArdurBot.Updater
