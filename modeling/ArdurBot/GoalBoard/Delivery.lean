import ArdurBot.GoalBoard.Ledger
import ArdurBot.Lib.Calls
import ArdurBot.Lib.Dict

/-!
# Deliveries of goals to the board

`deliverGoalBoardRow` of `packages/adapters/src/board/goal-delivery.ts`, with `deliverKeyed` of
`beads.ts`. A worker acts between two of its awaits at a time: it reads or writes a row of the
database, or has the host run one command. What it awaits succeeds, fails, or takes effect while its
answer is lost; and a worker may stop at any await, which frees its lock.

The token of a claim is the number of its worker. What `show` observes for others is left out.
-/

namespace ArdurBot.GoalBoard

open Utf16

def workMs : ℕ := 120000

def claimGraceMs : ℕ := 60000

def retryMs : List ℕ := [5000, 15000, 60000, 300000, 900000]

def goalBoardRetryAt (attempts now : ℕ) : ℕ :=
  now + retryMs.getD (min (max attempts 1 - 1) (retryMs.length - 1)) 0

inductive State where
  | pending
  | delivered
  | paused
  | needsOwner
  | handled
deriving DecidableEq

structure Row where
  id : Text
  goalId : Text
  revisionId : Text
  transition : Transition
  spaceId : Text
  userId : Text
  workspaceId : Text
  itemId : Text
  state : State
  claimToken : Option ℕ
  claimGeneration : ℕ
  claimExpiresAt : Option ℕ
  commentReceipt : Option Text
  closeReceipt : Option Text
  retryAt : Option ℕ
  attempts : ℕ
  failure : Option Text

/-- What a delivery reads of a goal: its revisions with their attempts, and those that a verdict
accepts. -/
structure Goal where
  spaceId : Text
  userId : Text
  groupId : Text
  boardWorkspaceId : Option Text
  boardItemId : Option Text
  accepted : Bool
  revisions : List (Text × ℕ)
  verdicts : List Text

structure Comment where
  id : Text
  text : Text
  createdAt : Text
deriving DecidableEq

/-- `closeWhenDone` is the consent to close; `metadata` has the ledgers, by their names. -/
structure Item where
  closed : Bool
  closeWhenDone : Bool
  comments : List Comment
  metadata : List (Text × Text)
deriving DecidableEq

/-- An item of a board of a space: the space, the workspace and the item. -/
structure Place where
  spaceId : Text
  workspaceId : Text
  itemId : Text
deriving DecidableEq

def Row.place (row : Row) : Place where
  spaceId := row.spaceId
  workspaceId := row.workspaceId
  itemId := row.itemId

def isMarked (hash : Text) (comment : Comment) : Bool :=
  (goalBoardMarker hash).isPrefixOf comment.text

def Item.ledger (item : Item) (hash : Text) : Option GoalBoardLedger :=
  (Dict.get item.metadata (goalBoardMetadataName hash)).bind parseGoalBoardLedger

/-- An entry of an item's history: whether it was closed then, the reason and the date. -/
structure HistoryEntry where
  closed : Bool
  closeReason : Text
  commitDate : Text
deriving DecidableEq

/-- `closedThenReopened`, of the entries that are read. -/
def closedThenReopened (entries : List HistoryEntry) (closeReason : Text) (after : Option Text) : Bool :=
  entries.any fun entry => entry.closed && entry.closeReason = closeReason &&
    (after.all (fun date => date = [] || date ≤ entry.commitDate) || entry.commitDate = [])

/-- What was done: a ledger or a comment written or an item closed, by which generation, the close
with the item as it was last shown; and a row recorded as delivered, with its claim then, the time,
and whether the row before it was settled. -/
inductive Event where
  | ledger (place : Place) (hash : Text) (generation : ℕ) (ledger : GoalBoardLedger)
  | comment (place : Place) (hash : Text) (generation : ℕ)
  | close (place : Place) (hash : Text) (generation : ℕ) (shown : Item)
  | delivered (row : Row) (worker generation now : ℕ) (priorSettled : Bool)

/-- `log` has what was done, the last first, and is not kept anywhere. -/
structure System where
  rows : List Row
  goals : Text → Option Goal
  items : Place → Option Item
  locks : Text → Option ℕ
  now : ℕ
  log : List Event

/-! ### Workers -/

/-- `safeBoardFailure` tells these apart. -/
inductive Failure where
  | missing
  | denied
  | expired
  | unavailable
deriving DecidableEq

def Failure.text : Failure → Text
  | .missing => lit "Board item missing"
  | .denied => lit "Board access lost"
  | .expired => lit "Delivery claim expired"
  | .unavailable => lit "Board unavailable"

/-- `boardFailureNeedsOwner` -/
def Failure.needsOwner : Failure → Bool
  | .missing => true
  | .denied => true
  | _ => false

def updatePending : Text := lit "Board update pending"

/-- What a worker holds: the row as it claimed it, until when it works, and the text of the
comment. -/
structure Job where
  row : Row
  deadline : ℕ
  comment : Text

/-- What `deliverKeyed` goes on: the item when it was first shown, the marked comment and the ledger
then, the id of the comment, and the item as it was last shown. -/
structure Seen where
  first : Item
  existing : Option Comment
  ledger : Option GoalBoardLedger
  commentId : Option Text
  shown : Item
deriving DecidableEq

structure KeyedResult where
  commentId : Option Text
  commented : Bool
  closedByThisDelivery : Bool
  alreadyClosed : Bool
  leftOpen : Bool
  discrepancy : Bool
  expired : Bool

/-- What a worker with the filing lock awaits. -/
inductive Stage where
  | actor
  | workspace
  | provider
  | plain
  | showing
  | unmarked (seen : Seen)
  | comment (seen : Seen)
  | commented (seen : Seen)
  | closingHistory (seen : Seen)
  | current (seen : Seen)
  | currentHistory (seen : Seen)
  | consent (seen : Seen)
  | history (seen : Seen)
  | stamp (seen : Seen) (close : Close)
  | close (seen : Seen)
  | after (seen : Seen)
  | afterHistory (seen : Seen)
deriving DecidableEq

inductive Next where
  | gate
  | stage (stage : Stage)
  | ack (result : KeyedResult)

/-- What a worker awaits. `caught` tells whether an error is handled already. -/
inductive Phase where
  | prior
  | claim
  | claimed (deadline : ℕ)
  | held (job : Job) (next : Next)
  | reading (job : Job) (next : Next)
  | goal (job : Job)
  | current (job : Job) (goal : Goal)
  | own (job : Job) (goal : Goal) (current : Option Text)
  | verdict (job : Job) (goal : Goal)
  | gatePrior (job : Job) (goal : Goal)
  | wait (job : Job)
  | release (job : Job) (state : State) (failure : Text) (caught : Bool)
  | locking (job : Job)
  | board (job : Job) (stage : Stage)
  | pause (job : Job) (state : State) (failure : Text) (receipt : Option (Option Text))
  | acking (job : Job) (result : KeyedResult)
  | unlocking (job : Job) (error : Option Failure)
  | done

/-- A call of `deliverGoalBoardRow`, with the row as it was listed. -/
structure Worker where
  row : Row
  reachable : Bool
  phase : Phase

/-- What is awaited succeeds, with what is read of it; or it fails, or its answer is lost, with the
comment it made if it did; or the worker stops. -/
inductive Answer where
  | go
  | provider (keyed : Bool)
  | comment (id createdAt : Text)
  | entries (entries : List HistoryEntry)
  | closed (listed : Bool)
  | lost (failure : Failure) (id createdAt : Text)
  | failed (failure : Failure)
  | stop
deriving DecidableEq

def Worker.awaits (worker : Worker) (phase : Phase) : Worker := { worker with phase }

def goalBoardPriorSettled (state : State) : Bool := state = .delivered || state = .handled

def Row.isKey (row : Row) (goalId revisionId : Text) (transition : Transition) : Bool :=
  row.goalId = goalId && row.revisionId = revisionId && row.transition = transition

namespace System

def row (s : System) (id : Text) : Option Row := s.rows.find? fun row => row.id = id

/-- Whether a row before this one is settled, where there is one. -/
def priorSettled (s : System) (row : Row) : Bool :=
  (s.rows.find? fun prior => prior.isKey row.goalId row.revisionId .completed).all fun prior =>
    goalBoardPriorSettled prior.state

/-- `updateMany` of one row, where its id and a condition hold. -/
def update (s : System) (id : Text) (condition : Row → Bool) (data : Row → Row) : System :=
  { s with rows := s.rows.map fun row => if row.id = id && condition row then data row else row }

def put (s : System) (place : Place) (item : Item) : System :=
  { s with items := fun other => if other = place then some item else s.items other }

def record (s : System) (event : Event) : System := { s with log := event :: s.log }

def lock (s : System) (spaceId : Text) (holder : Option ℕ) : System :=
  { s with locks := fun other => if other = spaceId then holder else s.locks other }

end System

def Row.isDue (row : Row) (now : ℕ) : Bool :=
  row.state = .pending && row.retryAt.all (· ≤ now) && row.claimExpiresAt.all (· ≤ now)

def claim (s : System) (index : ℕ) (id : Text) (deadline : ℕ) : System :=
  s.update id (·.isDue s.now) fun row =>
    { row with
      claimToken := some index
      claimGeneration := row.claimGeneration + 1
      claimExpiresAt := some (deadline + claimGraceMs) }

/-- What a worker reads of its claim, before the deadline. -/
def stillHeld (s : System) (index : ℕ) (job : Job) : Bool :=
  (s.row job.row.id).any fun current => current.claimToken = some index &&
    current.claimGeneration = job.row.claimGeneration && current.claimExpiresAt.any (s.now < ·)

/-- `release`, with the receipt of a comment where there is one to write. -/
def release (s : System) (index : ℕ) (job : Job) (state : State) (failure : Text)
    (receipt : Option (Option Text)) : System :=
  s.update job.row.id (fun row => row.claimToken = some index) fun row =>
    { row with
      state
      failure := some (failure.take 200)
      retryAt := if state = .pending then some (goalBoardRetryAt (job.row.attempts + 1) s.now) else none
      attempts := row.attempts + 1
      claimToken := none
      claimExpiresAt := none
      commentReceipt := receipt.getD row.commentReceipt }

/-- The claim of a row that has to wait for the one before it. -/
def unclaim (s : System) (index : ℕ) (job : Job) : System :=
  s.update job.row.id (fun row => row.claimToken = some index) fun row =>
    { row with claimToken := none, claimExpiresAt := none }

def Row.isHeld (row : Row) (index : ℕ) (job : Job) (now : ℕ) : Bool :=
  row.claimToken = some index && row.claimGeneration = job.row.claimGeneration &&
    row.claimExpiresAt.any (now < ·)

def closeReceipt (result : KeyedResult) : Option Text :=
  if result.closedByThisDelivery then some (lit "closed")
  else if result.alreadyClosed then some (lit "already-closed")
  else if result.leftOpen then some (lit "left-open")
  else none

def delivered (result : KeyedResult) (row : Row) : Row :=
  { row with
    state := .delivered
    commentReceipt := result.commentId
    closeReceipt := closeReceipt result
    claimToken := none
    claimExpiresAt := none
    failure := none
    retryAt := none }

def ack (s : System) (index : ℕ) (job : Job) (result : KeyedResult) : System :=
  match s.rows.find? fun row => row.id = job.row.id && row.isHeld index job s.now with
  | none => s
  | some row =>
    (s.update job.row.id (·.isHeld index job s.now) (delivered result)).record
      (.delivered row index job.row.claimGeneration s.now (s.priorSettled row))

def currentRevision (goal : Goal) : Option Text :=
  (goal.revisions.foldl (fun best revision =>
    if best.all (·.2 < revision.2) then some revision else best) (none : Option (Text × ℕ))).map Prod.fst

def Row.isLinked (row : Row) (goal : Goal) : Bool :=
  goal.spaceId = row.spaceId && goal.userId = row.userId && goal.boardWorkspaceId = some row.workspaceId &&
    goal.boardItemId = some row.itemId

section

variable (sha256 : Text → Text)

def Job.hash (job : Job) : Text :=
  goalBoardHash sha256 (goalBoardDeliveryKey job.row.goalId job.row.revisionId job.row.transition)

def Job.close (job : Job) : Bool := job.row.transition = .accepted

def closeReason : Text := lit "Goal accepted"

def blank (seen : Option Comment) : KeyedResult where
  commentId := seen.bind fun comment => if comment.id = [] then none else some comment.id
  commented := seen.isSome
  closedByThisDelivery := false
  alreadyClosed := false
  leftOpen := false
  discrepancy := false
  expired := false

/-- What is returned once there is a comment. -/
def Seen.result (seen : Seen) (closedByThisDelivery alreadyClosed leftOpen : Bool) : KeyedResult :=
  { blank seen.existing with commentId := seen.commentId, commented := true, closedByThisDelivery, alreadyClosed, leftOpen }

/-- The host writes a ledger, if it admits it. -/
def writeLedger (s : System) (job : Job) (commented : Bool) (close : Close) : Option System :=
  let ledger : GoalBoardLedger := ⟨job.row.claimGeneration, commented, close⟩
  let hash := job.hash sha256
  if allowedBoardMetadata hash (formatGoalBoardLedger ledger) then
    (s.items job.row.place).map fun item =>
      (s.put job.row.place
        { item with
          metadata := Dict.set item.metadata (goalBoardMetadataName hash) (formatGoalBoardLedger ledger) }).record
        (.ledger job.row.place hash job.row.claimGeneration ledger)
  else none

def addComment (s : System) (job : Job) (id createdAt : Text) : Option System :=
  (s.items job.row.place).map fun item =>
    (s.put job.row.place { item with comments := item.comments ++ [⟨id, job.comment, createdAt⟩] }).record
      (.comment job.row.place (job.hash sha256) job.row.claimGeneration)

def closeItem (s : System) (job : Job) (shown : Item) : Option System :=
  (s.items job.row.place).map fun item =>
    (s.put job.row.place { item with closed := true }).record
      (.close job.row.place (job.hash sha256) job.row.claimGeneration shown)

/-! ### `deliverKeyed`, from one command to the next -/

def Job.guard (job : Job) (stage : Stage) : Phase := .held job (.stage stage)

def Job.acks (job : Job) (result : KeyedResult) : Phase := .held job (.ack result)

def Job.throws (job : Job) (failure : Failure) : Phase := .unlocking job (some failure)

def Job.afterComment (job : Job) (seen : Seen) : Phase :=
  if !job.close then job.acks (seen.result false false true)
  else
    match seen.ledger with
    | none => .board job (.current seen)
    | some ledger =>
      if ledger.close = .closing then
        if seen.first.closed then job.guard (.stamp seen .alreadyClosed) else .board job (.closingHistory seen)
      else if ledger.close ≠ .unclosed then job.acks (seen.result false seen.first.closed (!seen.first.closed))
      else .board job (.current seen)

def Job.shown (job : Job) (item : Item) : Phase :=
  let hash := job.hash sha256
  let ledger := item.ledger hash
  let existing := item.comments.find? fun comment => isMarked hash comment
  let seen : Seen := ⟨item, existing, ledger, existing.bind fun comment => if comment.id = [] then
      none else some comment.id, item⟩
  if ledger.any (job.row.claimGeneration < ·.generation) then job.acks { blank existing with expired := true }
  else if ledger.any (·.commented) && existing.isNone then
    job.acks { blank existing with discrepancy := true }
  else if existing.isNone then job.guard (.unmarked seen)
  else job.afterComment seen

/-- A provider that cannot deduplicate shows the item, and writes nothing. -/
def Job.plain (job : Job) (item : Item) : Phase :=
  let hash := job.hash sha256
  match item.comments.find? fun comment => isMarked hash comment with
  | none =>
    job.acks ⟨none, false, false, item.closed, false, false, false⟩
  | some found =>
    job.acks ⟨some (if found.id = [] then goalBoardMarker hash else found.id), true, false, false,
      !job.close, job.close, false⟩

def Job.consented (job : Job) (seen : Seen) (item : Item) : Phase :=
  let seen := { seen with shown := item }
  if item.closed then job.guard (.stamp seen .alreadyClosed)
  else if !item.closeWhenDone then job.guard (.stamp seen .leftOpen)
  else if seen.existing.isSome then .board job (.history seen)
  else job.guard (.stamp seen .closing)

/-- A ledger is stamped: the close that was intended is made, and any other is what is returned. -/
def Job.stamped (job : Job) (seen : Seen) (close : Close) : Phase :=
  match close with
  | .closing => job.guard (.close seen)
  | .closed => job.acks (seen.result true false false)
  | .alreadyClosed => job.acks (seen.result false true false)
  | .leftOpen => job.acks (seen.result false false true)
  | .unclosed => job.afterComment seen

/-- `if (!/^[a-f0-9]{16}$/.test(input.hash) || input.generation < 1)` -/
def Job.isAllowed (job : Job) : Bool :=
  isGoalBoardHash (job.hash sha256) && 1 ≤ job.row.claimGeneration

/-- A command that is refused, or whose item is not there, fails. -/
def refused (s : System) (job : Job) (failure : Failure) : System × Phase := (s, job.throws failure)

def showItem (s : System) (job : Job) (next : Item → Phase) : System × Phase :=
  match s.items job.row.place with
  | none => refused s job .missing
  | some item => (s, next item)

/-- What a worker with the lock does with the answer of what it awaits. -/
def Job.board (s : System) (job : Job) (stage : Stage) (answer : Answer) : System × Phase :=
  match stage, answer with
  | .actor, .go => (s, .board job .workspace)
  | .workspace, .go => (s, .board job .provider)
  | .provider, .provider keyed =>
    if !keyed then (s, .board job .plain)
    else if job.isAllowed sha256 then (s, .board job .showing)
    else refused s job .denied
  | .plain, .go => showItem s job (job.plain sha256)
  | .showing, .go => showItem s job (job.shown sha256)
  | .unmarked seen, .go =>
    match writeLedger sha256 s job false .unclosed with
    | none => refused s job .denied
    | some s => (s, job.guard (.comment seen))
  | .comment seen, .comment id createdAt =>
    match addComment sha256 s job id createdAt with
    | none => refused s job .missing
    | some s => (s, job.guard (.commented { seen with commentId := some id }))
  | .commented seen, .go =>
    match writeLedger sha256 s job true .unclosed with
    | none => refused s job .denied
    | some s => (s, job.afterComment seen)
  | .closingHistory seen, .entries entries =>
    if closedThenReopened entries closeReason (seen.existing.map (·.createdAt)) then
      (s, job.guard (.stamp seen .leftOpen))
    else (s, job.throws .unavailable)
  | .current seen, .go => showItem s job fun item => .board job (.currentHistory { seen with shown := item })
  | .currentHistory seen, .entries _ =>
    if seen.shown.closed then (s, job.guard (.stamp seen .alreadyClosed)) else (s, job.guard (.consent seen))
  | .consent seen, .go => showItem s job (job.consented seen)
  | .history seen, .entries entries =>
    if closedThenReopened entries closeReason (seen.existing.map (·.createdAt)) then
      (s, job.guard (.stamp seen .leftOpen))
    else (s, job.guard (.stamp seen .closing))
  | .stamp seen close, .go =>
    match writeLedger sha256 s job true close with
    | none => refused s job .denied
    | some s => (s, job.stamped seen close)
  | .close seen, .closed listed =>
    match closeItem sha256 s job seen.shown with
    | none => refused s job .missing
    | some s => if listed then (s, .board job (.after seen)) else (s, job.throws .unavailable)
  | .after seen, .go => showItem s job fun item => .board job (.afterHistory { seen with shown := item })
  | .afterHistory seen, .entries _ =>
    if seen.shown.closed then (s, job.guard (.stamp seen .closed)) else (s, job.throws .unavailable)
  | _, _ => (s, .board job stage)

/-- What a command leaves that takes effect, and whose answer is lost. -/
def Job.takesEffect (s : System) (job : Job) (stage : Stage) (id createdAt : Text) : System :=
  match stage with
  | .unmarked _ => (writeLedger sha256 s job false .unclosed).getD s
  | .comment _ => (addComment sha256 s job id createdAt).getD s
  | .commented _ => (writeLedger sha256 s job true .unclosed).getD s
  | .stamp _ close => (writeLedger sha256 s job true close).getD s
  | .close seen => (closeItem sha256 s job seen.shown).getD s
  | _ => s

/-! ### `deliverGoalBoardRow`, from one await to the next -/

/-- An error is handled: a failure that only the owner can mend is theirs. -/
def Job.caught (job : Job) (failure : Failure) : Phase :=
  .release job (if failure.needsOwner then .needsOwner else .pending) failure.text true

def Job.lapsed (job : Job) : Next → Phase
  | .gate => .release job .pending Failure.expired.text false
  | _ => job.throws .expired

def Job.proceeds (job : Job) : Next → Phase
  | .gate => .goal job
  | .stage stage => .board job stage
  | .ack result =>
    if result.expired then job.throws .expired
    else if result.discrepancy then .pause job .paused updatePending (some result.commentId)
    else if !result.commented then .pause job .pending Failure.unavailable.text none
    else .acking job result

/-- The gate is passed: the text of the comment is made, unless an id in its path cannot be
encoded. -/
def Job.ready (job : Job) (goal : Goal) : Phase :=
  match goalResultPath goal.groupId job.row.goalId job.row.revisionId with
  | none => job.caught .unavailable
  | some path => .locking { job with comment := goalBoardCommentText job.row.transition path (job.hash sha256) }

def proceed (s : System) (index : ℕ) (worker : Worker) (answer : Answer) : System × Phase :=
  match worker.phase with
  | .prior =>
    if worker.row.transition = .accepted && !s.priorSettled worker.row || !worker.reachable then (s, .done) else (s, .claim)
  | .claim =>
    let deadline := s.now + workMs
    if (s.row worker.row.id).any (·.isDue s.now) then
      (claim s index worker.row.id deadline, .claimed deadline) else (s, .done)
  | .claimed deadline =>
    match s.row worker.row.id with
    | none => (s, .done)
    | some row => if row.claimToken = some index then (s, .held ⟨row, deadline, []⟩ .gate) else (s, .done)
  | .held job next => if job.deadline ≤ s.now then (s, job.lapsed next) else (s, .reading job next)
  | .reading job next => if stillHeld s index job then (s, job.proceeds next) else (s, job.lapsed next)
  | .goal job =>
    match (s.goals job.row.goalId).filter fun goal => job.row.isLinked goal with
    | none => (s, .release job .needsOwner Failure.denied.text false)
    | some goal => (s, .current job goal)
  | .current job goal => (s, .own job goal ((s.goals job.row.goalId).bind currentRevision))
  | .own job goal current =>
    if !(s.goals job.row.goalId).any fun goal => goal.revisions.any fun revision => revision.1 = job.row.revisionId then
      (s, .release job .needsOwner Failure.denied.text false)
    else if job.row.transition = .completed then (s, job.ready sha256 goal)
    else if current ≠ some job.row.revisionId || !goal.accepted then (s, .release job .paused updatePending false)
    else (s, .verdict job goal)
  | .verdict job goal =>
    if (s.goals job.row.goalId).any fun goal => job.row.revisionId ∈ goal.verdicts then (s, .gatePrior job goal)
    else (s, .release job .paused updatePending false)
  | .gatePrior job goal => if s.priorSettled job.row then (s, job.ready sha256 goal) else (s, .wait job)
  | .wait job => (unclaim s index job, .done)
  | .release job state failure _ => (release s index job state failure none, .done)
  | .locking job =>
    match s.locks job.row.spaceId with
    | none => (s.lock job.row.spaceId (some index), .held job (.stage .actor))
    | some _ => (s, .locking job)
  | .board job stage => job.board sha256 s stage answer
  | .pause job state failure receipt => (release s index job state failure receipt, .unlocking job none)
  | .acking job result =>
    if s.rows.any fun row => row.id = job.row.id && row.isHeld index job s.now then
      (ack s index job result, .unlocking job none)
    else (s, job.throws .expired)
  | .unlocking job error => (s.lock job.row.spaceId none, error.elim .done job.caught)
  | .done => (s, .done)

/-- What takes effect though its answer is lost. -/
def takesEffect (s : System) (index : ℕ) (worker : Worker) (id createdAt : Text) : System :=
  match worker.phase with
  | .claim => claim s index worker.row.id (s.now + workMs)
  | .wait job => unclaim s index job
  | .release job state failure _ => release s index job state failure none
  | .board job stage => job.takesEffect sha256 s stage id createdAt
  | .pause job state failure receipt => release s index job state failure receipt
  | .acking job result => ack s index job result
  | _ => s

/-- An error is thrown: nothing handles it before the row is claimed, or where an error is
handled. -/
def Phase.throws (phase : Phase) (failure : Failure) : Phase :=
  match phase with
  | .held job .gate => job.caught failure
  | .reading job .gate => job.caught failure
  | .goal job => job.caught failure
  | .current job _ => job.caught failure
  | .own job _ _ => job.caught failure
  | .verdict job _ => job.caught failure
  | .gatePrior job _ => job.caught failure
  | .wait job => job.caught failure
  | .release job _ _ false => job.caught failure
  | .locking job => job.caught failure
  | .held job _ => job.throws failure
  | .reading job _ => job.throws failure
  | .board job _ => job.throws failure
  | .pause job _ _ _ => job.throws failure
  | .acking job _ => job.throws failure
  | .unlocking job error => .unlocking job error
  | .prior => .done
  | .claim => .done
  | .claimed _ => .done
  | .release _ _ _ true => .done
  | .done => .done

def unlock (s : System) (index : ℕ) : System :=
  { s with locks := fun spaceId => if s.locks spaceId = some index then none else s.locks spaceId }

def act (s : System) (index : ℕ) (worker : Worker) (answer : Answer) : System × Worker :=
  match answer with
  | .stop => (unlock s index, worker.awaits .done)
  | .failed failure => (s, worker.awaits (worker.phase.throws failure))
  | .lost failure id createdAt =>
    (takesEffect sha256 s index worker id createdAt, worker.awaits (worker.phase.throws failure))
  | _ =>
    let (s, phase) := proceed sha256 s index worker answer
    (s, worker.awaits phase)

end

/-! ### Beside the workers -/

/-- A goal is submitted or accepted, the owner settles a row that needs them or edits an item, and
time passes. -/
inductive Change where
  | queue (row : Row)
  | settle (id : Text) (retry : Bool) (attempt : ℕ)
  | goal (goalId : Text) (goal : Goal)
  | create (place : Place) (closeWhenDone : Bool)
  | setClosed (place : Place) (closed : Bool)
  | setCloseWhenDone (place : Place) (closeWhenDone : Bool)
  | addComment (place : Place) (comment : Comment)
  | deleteComment (place : Place) (id : Text)
  | tick (now : ℕ)

/-- `queueGoalBoardDelivery`: one row for each revision and transition, the one of the completion
when the revision is made. -/
def queueGoalBoardDelivery (s : System) (row : Row) : System :=
  if s.rows.any fun other => other.id = row.id ||
      (other.goalId = row.goalId && other.revisionId = row.revisionId &&
        (other.transition = row.transition || row.transition = .completed)) then s
  else
    { s with rows := s.rows ++ [{ row with
      state := .pending
      claimToken := none
      claimGeneration := 0
      claimExpiresAt := none
      commentReceipt := none
      closeReceipt := none
      retryAt := none
      attempts := 0
      failure := none }] }

def Row.awaitsOwner (row : Row) : Bool := row.state = .paused || row.state = .needsOwner

/-- Only the current revision is delivered again. -/
def settleGoalBoardDelivery (s : System) (id : Text) (retry : Bool) (attempt : ℕ) : System :=
  s.update id (fun row => row.awaitsOwner && row.attempts = attempt && row.claimToken = none &&
      (!retry || (s.goals row.goalId).bind currentRevision = some row.revisionId)) fun row =>
    { row with state := if retry then .pending else .handled, failure := none, retryAt := none, claimExpiresAt := none }

def edit (s : System) (place : Place) (change : Item → Item) : System :=
  match s.items place with
  | none => s
  | some item => s.put place (change item)

/-- The marker of a delivery is in no other comment. -/
def environment (s : System) : Change → System
  | .queue row => queueGoalBoardDelivery s row
  | .settle id retry attempt => settleGoalBoardDelivery s id retry attempt
  | .goal goalId goal => { s with goals := fun other => if other = goalId then some goal else s.goals other }
  | .create place closeWhenDone => if (s.items place).isSome then s
    else s.put place ⟨false, closeWhenDone, [], []⟩
  | .setClosed place closed => edit s place fun item => { item with closed }
  | .setCloseWhenDone place closeWhenDone => edit s place fun item => { item with closeWhenDone }
  | .addComment place comment =>
    if (lit "[Goal ").isPrefixOf comment.text then s
    else edit s place fun item => { item with comments := item.comments ++ [comment] }
  | .deleteComment place id => edit s place fun item =>
    { item with comments := item.comments.filter fun comment => comment.id ≠ id }
  | .tick now => { s with now := max s.now now }

def program (sha256 : Text → Text) : Calls.Program System Worker Answer Change where
  act := act sha256
  environment

/-- A worker starts with a row that it listed. -/
def Worker.isNew (worker : Worker) : Prop := worker.phase = .prior

/-- A system before any delivery: nothing is marked, and no row is claimed. -/
structure System.IsNew (s : System) : Prop where
  rows : ∀ row ∈ s.rows, row.claimToken = none
  ids : ∀ row ∈ s.rows, ∀ other ∈ s.rows, row.id = other.id → row = other
  items : ∀ place item, s.items place = some item → item.metadata = [] ∧
    ∀ comment ∈ item.comments, (lit "[Goal ").isPrefixOf comment.text = false
  locks : ∀ spaceId, s.locks spaceId = none
  log : s.log = []

end ArdurBot.GoalBoard
