import ArdurBot.Lib.Json.Read
import ArdurBot.Lib.Run

/-!
# The messaging outbox

`packages/adapters/src/messaging-delivery.ts`: bot messages are copied into outbox rows, and drains
send the rows that are pending. Several drains go on at once. One step of a drain is one statement
or one call of the provider, and either may throw.
-/

namespace ArdurBot.Messaging

open Utf16 Json

inductive OutboundKind
  | dm
  | group
  | intro
  deriving DecidableEq, Repr

/-- The data of a `createMany` of outbox rows. -/
structure OutboundData where
  idempotencyKey : Text
  kind : OutboundKind
  identityId : Option ℕ
  threadId : Option Text
  body : Text
  sourceMessageId : Option Text

def textOfBlock : JsValue → Option Text
  | .obj fields => if textField fields "kind" = some (lit "text") then textField fields "text" else none
  | _ => none

def joinLines : List Text → Text
  | [] => []
  | [text] => text
  | text :: texts => text ++ unit '\n' :: joinLines texts

def extractText : JsValue → Text
  | .arr blocks => trim (joinLines (blocks.filterMap textOfBlock))
  | _ => []

def isChannelMessage : JsValue → Bool
  | .obj fields => textField fields "kind" = some (lit "channel_message")
  | _ => false

def isAnsweredAsk : JsValue → Bool
  | .obj fields => textField fields "kind" = some (lit "ask") && textField fields "status" =
    some (lit "answered")
  | _ => false

def blocksOf : JsValue → List JsValue
  | .arr blocks => blocks
  | _ => []

structure MirroredMessage where
  id : Text
  blocks : JsValue

/-- What the statements of `mirrorRun` read: the run and the blocks of its source message, the
identity of its bot, the channel's thread, the name of the identity's owner, and the run's bot
messages. -/
structure MirrorRead where
  found : Bool
  originDeviceGrant : Bool
  trigger : Text
  sourceBlocks : JsValue
  identityId : Option ℕ
  channelThreadId : Option Text
  ownerName : Option Text
  messages : List MirroredMessage

def messageKey (messageId : Text) : Text := lit "msg:" ++ messageId

def firstName (ownerName : Option Text) : Text :=
  match (trim (ownerName.getD [])).takeWhile fun u => !isWhite u with
  | [] => lit "Owner"
  | name => name

def mirrorDirectRun (read : MirrorRead) (identityId : ℕ) : List OutboundData :=
  (read.messages.map fun message =>
    { idempotencyKey := messageKey message.id, kind := .dm, identityId := some identityId, threadId := none,
      body := extractText message.blocks, sourceMessageId := some message.id : OutboundData }).filter fun row =>
        row.body ≠ []

/-- The rows of a channel run. The fan-out to peer bots makes no outbox rows. -/
def mirrorChannelRun (read : MirrorRead) : List OutboundData :=
  match read.identityId, read.channelThreadId with
  | some _, some threadId =>
    if read.messages.any fun message => (blocksOf message.blocks).any isAnsweredAsk then []
    else
      (read.messages.filter fun message => extractText message.blocks ≠ []).map fun message =>
        { idempotencyKey := messageKey message.id, kind := .group, identityId := none, threadId := some threadId,
          body := firstName read.ownerName ++ lit "'s agent: " ++ extractText message.blocks,
          sourceMessageId := some message.id }
  | _, _ => []

/-- The rows that `mirrorRun` creates. -/
def mirrorRun (read : MirrorRead) : List OutboundData :=
  if !read.found || read.originDeviceGrant then []
  else if read.trigger = lit "messaging" && (blocksOf read.sourceBlocks).any isChannelMessage then
    mirrorChannelRun read
  else if read.trigger = lit "messaging" || read.trigger = lit "bot_message" then
    match read.identityId with
    | some identityId => mirrorDirectRun read identityId
    | none => []
  else []

inductive OutboundStatus
  | pending
  | sent
  | failed
  deriving DecidableEq, Repr

structure Outbound where
  id : ℕ
  idempotencyKey : Text
  kind : OutboundKind
  identityId : Option ℕ
  threadId : Option Text
  body : Text
  status : OutboundStatus := .pending
  attempts : ℕ := 0
  nextAttemptAt : Option ℕ := none
  providerHandle : Option Text := none
  sourceMessageId : Option Text

structure IdentityRow where
  id : ℕ
  provider : Text
  address : Text
  dmThreadId : Option Text
  outboundSinceInbound : ℕ := 0

def messagingDmOutboundCap : ℕ := 140

def messagingOutboundMaxAttempts : ℕ := 5

def messagingOutboundRetryDelayMs (attempts : ℕ) : ℕ := min (2 ^ attempts * 1000) 60000

/-- The bots of `connect:{requesterBotId}:{targetBotId}`. -/
def connectInvitePair (idempotencyKey : Text) : Option (Text × Text) :=
  if (lit "connect:").isPrefixOf idempotencyKey then
    let rest := idempotencyKey.drop (lit "connect:").length
    match rest.dropWhile fun u => u ≠ unit ':' with
    | [] => none
    | _ :: targetBotId =>
      let requesterBotId := rest.takeWhile fun u => u ≠ unit ':'
      if requesterBotId ≠ [] && targetBotId ≠ [] && !targetBotId.contains (unit ':') then
        some (requesterBotId, targetBotId)
      else none
  else none

/-- Which statement a drain executes next for a row that it has claimed, with what the ones before
it read. -/
inductive Stage
  | fail
  | lookup (identityId : ℕ)
  | release
  | openDirectThread (identity : IdentityRow)
  | saveThread (identity : IdentityRow) (threadId : Text)
  | invite (identity : IdentityRow) (threadId : Text) (pair : Text × Text)
  | send (identity : Option IdentityRow) (threadId : Text)
  | saveHandle (identity : Option IdentityRow) (handle : Text)
  | count (identity : IdentityRow)
  | recover

inductive Phase
  | next
  | claimed (row : Outbound) (stage : Stage)
  | enqueue (retryAt : ℕ)
  | done

/-- A drain: what is left of the rows it found pending, as they were then. -/
structure Drain where
  pending : List Outbound
  phase : Phase

/-- What the world answers to a step of a drain: whether the statement or the call succeeds, and the
thread or the handle that the provider returns. In a connect invite's transaction also whether the
lock is taken, the status of the connection, and whether the writes after these are committed. -/
structure Outcome where
  succeeds : Bool := true
  answer : Text := []
  locks : Bool := true
  connection : Option Text := none
  commits : Bool := true

/-- What the provider and the people on its other side see. -/
inductive Event
  | call (rowId : ℕ) (identityId : Option ℕ) (body : Text) (accepted : Bool)
  | inbound (identityId : ℕ)

/-- The tables and the drains. `log` has what was sent and received, the newest first, and `unknown`
the connect invites that were held with an unknown outcome; no code reads these two. -/
structure Outbox where
  now : ℕ := 0
  nextId : ℕ := 0
  nextIdentityId : ℕ := 0
  rows : List Outbound := []
  identities : List IdentityRow := []
  drains : List Drain := []
  log : List Event := []
  unknown : List ℕ := []

def newOutbox : Outbox := {}

section

variable (s : Outbox)

def Outbox.hasRow (id : ℕ) : Bool := s.rows.any fun row => row.id = id

def Outbox.updateRow (id : ℕ) (data : Outbound → Outbound) : Outbox :=
  { s with rows := s.rows.map fun row => if row.id = id then data row else row }

def Outbox.findIdentity (id : ℕ) : Option IdentityRow :=
  s.identities.find? fun identity => identity.id = id

def Outbox.updateIdentity (id : ℕ) (data : IdentityRow → IdentityRow) : Outbox :=
  { s with identities := s.identities.map fun identity => if identity.id = id then data identity
    else identity }

def Outbox.record (event : Event) : Outbox := { s with log := event :: s.log }

/-- A row of the data, if no row has its key. -/
def Outbox.createRow (data : OutboundData) : Outbox :=
  if s.rows.any fun row => row.idempotencyKey = data.idempotencyKey then s
  else
    { s with
      nextId := s.nextId + 1
      rows := s.rows ++ [{
        id := s.nextId, idempotencyKey := data.idempotencyKey, kind := data.kind, identityId := data.identityId,
        threadId := data.threadId, body := data.body, sourceMessageId := data.sourceMessageId }] }

/-- `createMany` with `skipDuplicates`. -/
def Outbox.createMany (rows : List OutboundData) : Outbox := rows.foldl Outbox.createRow s

end

def Outbound.isDue (now : ℕ) (row : Outbound) : Bool :=
  row.status = .pending && match row.nextAttemptAt with
    | none => true
    | some at' => at' ≤ now

/-- The thread of a row or an identity, unless it has none or an empty one. -/
def truthy : Option Text → Option Text
  | some [] => none
  | value => value

/-- The first statement for a row that is claimed. -/
def firstStage (row : Outbound) : Stage :=
  if row.kind = .group || row.kind = .intro then
    match truthy row.threadId with
    | none => .fail
    | some threadId => .send none threadId
  else
    match row.identityId with
    | none => .fail
    | some identityId => .lookup identityId

/-- How a direct message goes out when its thread is known. -/
def directStage (row : Outbound) (identity : IdentityRow) (threadId : Text) : Stage :=
  match connectInvitePair row.idempotencyKey with
  | some pair => .invite identity threadId pair
  | none => .send (some identity) threadId

/-- After an identity was read: held at the cap, or sent to its thread. -/
def resolveDirectThread (row : Outbound) (identity : IdentityRow) : Stage :=
  if identity.provider = lit "sendblue" &&
    messagingDmOutboundCap ≤ identity.outboundSinceInbound then .release
  else
    match truthy identity.dmThreadId with
    | some threadId => directStage row identity threadId
    | none => .openDirectThread identity

/-- An `update` of the row, which throws when there is none. -/
def Outbox.updateClaimed (s : Outbox) (row : Outbound) (outcome : Outcome)
    (data : Outbound → Outbound) : Outbox × Phase :=
  if outcome.succeeds && s.hasRow row.id then (s.updateRow row.id data, .next) else (s, .claimed row .recover)

/-- An `update` of the identity, which throws when there is none. -/
def Outbox.updateOwner (s : Outbox) (row : Outbound) (identity : IdentityRow) (outcome : Outcome)
    (data : IdentityRow → IdentityRow) (after : Phase) : Outbox × Phase :=
  if outcome.succeeds && (s.findIdentity identity.id).isSome then (s.updateIdentity identity.id data, after)
  else (s, .claimed row .recover)

inductive InviteResult
  | delivered
  | skipped
  | held

section

variable (s : Outbox) (row : Outbound)

/-- The transaction holds the lock of the connection. What fails after the provider's answer is
rolled back. -/
def Outbox.sendConnectInvite (identityId : ℕ) (outcome : Outcome) : Outbox × InviteResult :=
  if !outcome.locks then (s, .held)
  else if outcome.connection ≠ some (lit "pending") then
    if outcome.commits then (s.updateRow row.id fun row => { row with status := .failed }, .skipped) else (s, .held)
  else if !s.hasRow row.id then (s, .skipped)
  else
    let s := s.record (.call row.id (some identityId) row.body outcome.succeeds)
    if outcome.succeeds && outcome.commits then
      (s.updateRow row.id fun row => { row with providerHandle := some outcome.answer }, .delivered)
    else (s, .held)

def Outbox.inviteStep (identity : IdentityRow) (outcome : Outcome) : Outbox × Phase :=
  match s.sendConnectInvite row identity.id outcome with
  | (s, .delivered) => (s, .claimed row (.count identity))
  | (s, .skipped) => (s, .next)
  | (s, .held) => ({ s with unknown := row.id :: s.unknown }, .next)

def Outbox.sendStep (identity : Option IdentityRow) (outcome : Outcome) : Outbox × Phase :=
  let s := s.record (.call row.id (identity.map (·.id)) row.body outcome.succeeds)
  (s, .claimed row (if outcome.succeeds then .saveHandle identity outcome.answer else .recover))

/-- The catch block: the row is pending again, or failed when its attempts are used up. -/
def Outbox.recoverStep (outcome : Outcome) : Outbox × Phase :=
  if !outcome.succeeds then (s, .done)
  else
    let attempts := row.attempts + 1
    if messagingOutboundMaxAttempts ≤ attempts then
      (s.updateRow row.id fun row => { row with attempts, status := .failed, nextAttemptAt := none }, .next)
    else
      let retryAt := s.now + messagingOutboundRetryDelayMs attempts
      (s.updateRow row.id fun row => { row with attempts, status := .pending, nextAttemptAt := some retryAt },
        .enqueue retryAt)

def Outbox.stageStep (outcome : Outcome) : Stage → Outbox × Phase
  | .fail => s.updateClaimed row outcome fun row => { row with status := .failed }
  | .lookup identityId =>
    if outcome.succeeds then
      match s.findIdentity identityId with
      | none => (s, .claimed row .fail)
      | some identity => (s, .claimed row (resolveDirectThread row identity))
    else (s, .claimed row .recover)
  | .release => s.updateClaimed row outcome fun row => { row with status := .pending }
  | .openDirectThread identity =>
    (s, .claimed row (if outcome.succeeds then .saveThread identity outcome.answer else .recover))
  | .saveThread identity threadId =>
    s.updateOwner row identity outcome (fun identity => { identity with dmThreadId := some threadId })
      (.claimed row (directStage row identity threadId))
  | .invite identity _ _ => s.inviteStep row identity outcome
  | .send identity _ => s.sendStep row identity outcome
  | .saveHandle none handle => s.updateClaimed row outcome fun row =>
    { row with providerHandle := some handle }
  | .saveHandle (some identity) handle =>
    if outcome.succeeds then
      (s.updateRow row.id fun row => { row with providerHandle := some handle }, .claimed row (.count identity))
    else (s, .claimed row .recover)
  | .count identity =>
    s.updateOwner row identity outcome
      (fun identity => { identity with outboundSinceInbound := identity.outboundSinceInbound + 1 }) .next
  | .recover => s.recoverStep row outcome

/-- The claim: only a row that is pending still becomes `sent`. -/
def Outbox.claimStep (outcome : Outcome) : Outbox × Phase :=
  if !outcome.succeeds then (s, .done)
  else if s.rows.any fun other => other.id = row.id && other.status = .pending then
    (s.updateRow row.id fun row => { row with status := .sent, nextAttemptAt := none }, .claimed row (firstStage row))
  else (s, .next)

end

def Outbox.drainStep (s : Outbox) (drain : Drain) (outcome : Outcome) : Outbox × Drain :=
  match drain.phase with
  | .next =>
    match drain.pending with
    | [] => (s, { drain with phase := .done })
    | row :: rest => ((s.claimStep row outcome).1, ⟨rest, (s.claimStep row outcome).2⟩)
  | .claimed row stage =>
    ((s.stageStep row outcome stage).1, ⟨drain.pending, (s.stageStep row outcome stage).2⟩)
  | .enqueue _ => (s, { drain with phase := if outcome.succeeds then .next else .done })
  | .done => (s, drain)

/-- A message from an address. The first statement for a linked address resets its counter, and may
throw. An address that is not linked becomes so when the message has a link code. -/
def Outbox.inbound (s : Outbox) (provider address threadId : Text) (links succeeds : Bool) : Outbox :=
  match s.identities.find? fun identity => identity.provider = provider && identity.address = address with
  | some identity =>
    let s := s.record (.inbound identity.id)
    if succeeds then
      s.updateIdentity identity.id fun identity =>
        { identity with outboundSinceInbound := 0, dmThreadId := some threadId }
    else s
  | none =>
    if links && succeeds then
      { s with
        nextIdentityId := s.nextIdentityId + 1
        identities := s.identities ++ [{ id := s.nextIdentityId, provider, address, dmThreadId := some threadId }]
        log := .inbound s.nextIdentityId :: s.log }
    else s

/-- The status that a webhook's status stands for. -/
def statusOfWebhook (status : Text) : Option OutboundStatus :=
  if status = lit "ERROR" || status = lit "DECLINED" then some .failed
  else if status = lit "SENT" || status = lit "DELIVERED" then some .sent
  else none

def Outbox.applyMessagingOutboundStatus (s : Outbox) (handle status : Text) : Outbox :=
  match statusOfWebhook status with
  | none => s
  | some status =>
    { s with rows := s.rows.map fun row => if row.providerHandle = some handle then { row with status } else row }

def Outbox.startDrain (s : Outbox) : Outbox :=
  { s with drains := s.drains ++ [{ pending := s.rows.filter fun row => row.isDue s.now, phase := .next }] }

def Outbox.step (s : Outbox) (i : ℕ) (outcome : Outcome) : Outbox :=
  match s.drains[i]? with
  | none => s
  | some drain =>
    let (s', drain) := s.drainStep drain outcome
    { s' with drains := s'.drains.set i drain }

/-- What happens at any time. Confirmations, invites and intros are deleted by their keys and
created; they are not copies of messages. -/
inductive Op
  | tick (ms : ℕ)
  | mirror (read : MirrorRead)
  | delete (idempotencyKey : Text)
  | create (row : OutboundData)
  | startDrain
  | step (i : ℕ) (outcome : Outcome)
  | inbound (provider address threadId : Text) (links succeeds : Bool)
  | webhook (handle status : Text)

def Outbox.apply (s : Outbox) : Op → Outbox
  | .tick ms => { s with now := s.now + ms }
  | .mirror read => s.createMany (mirrorRun read)
  | .delete key => { s with rows := s.rows.filter fun row => row.idempotencyKey ≠ key }
  | .create row => s.createMany [{ row with sourceMessageId := none }]
  | .startDrain => s.startDrain
  | .step i outcome => s.step i outcome
  | .inbound provider address threadId links succeeds => s.inbound provider address threadId links succeeds
  | .webhook handle status => s.applyMessagingOutboundStatus handle status

/-- Whether the provider returned success for the row. -/
def accepted (log : List Event) (rowId : ℕ) : Bool :=
  log.any fun event => match event with
    | .call id _ _ true => id = rowId
    | _ => false

/-- No call for a row comes after one that succeeded. -/
def NotRepeated (log : List Event) : Prop :=
  log.Pairwise fun later earlier => match later, earlier with
    | .call laterId _ _ _, .call earlierId _ _ true => laterId ≠ earlierId
    | _, _ => True

instance (log : List Event) : Decidable (NotRepeated log) := by
  unfold NotRepeated
  have : DecidableRel fun later earlier : Event => match later, earlier with
      | .call laterId _ _ _, .call earlierId _ _ true => laterId ≠ earlierId
      | _, _ => True := by
    intro later earlier
    dsimp only
    split <;> infer_instance
  infer_instance

/-- The direct messages that went to an identity since its last message. -/
def sendsSinceInbound (identityId : ℕ) : List Event → ℕ
  | [] => 0
  | .inbound id :: log => if id = identityId then 0 else sendsSinceInbound identityId log
  | .call _ id _ true :: log => sendsSinceInbound identityId log + if id = some identityId then 1 else 0
  | .call _ _ _ false :: log => sendsSinceInbound identityId log

/-- The row that a drain has claimed and not finished. -/
def Drain.row (drain : Drain) : Option ℕ :=
  match drain.phase with
  | .claimed row _ => some row.id
  | _ => none

structure OutboxHolds (s : Outbox) : Prop where
  once : NotRepeated s.log
  mirrored : ∀ messageId, (s.rows.countP fun row => row.sourceMessageId = some messageId) ≤ 1
  handed : ∀ row ∈ s.rows, row.status = .sent →
    accepted s.log row.id ∨ row.id ∈ s.unknown ∨ ∃ drain ∈ s.drains, drain.row = some row.id
  capped : ∀ identity ∈ s.identities, identity.provider = lit "sendblue" →
    sendsSinceInbound identity.id s.log ≤ messagingDmOutboundCap

/-- The identity that a drain is about to send to, after it read the counter. -/
def Stage.bound : Stage → Option ℕ
  | .openDirectThread identity => some identity.id
  | .saveThread identity _ => some identity.id
  | .invite identity _ _ => some identity.id
  | .send identity _ => identity.map (·.id)
  | _ => none

/-- The identity that a drain has sent to and not counted yet. -/
def Stage.uncounted : Stage → Option ℕ
  | .saveHandle identity _ => identity.map (·.id)
  | .count identity => some identity.id
  | _ => none

def Drain.inFlight (identityId : ℕ) (drain : Drain) : Bool :=
  match drain.phase with
  | .claimed _ stage => stage.bound = some identityId || stage.uncounted = some identityId
  | _ => false

def Outbox.inFlight (s : Outbox) (identityId : ℕ) : ℕ := s.drains.countP (Drain.inFlight identityId)

/-- The statements after the provider's success succeed, so does the write of the catch block, and a
counter that is read below the cap is so together with the messages that other drains have in
flight. -/
def StageSound (s : Outbox) (row : Outbound) (outcome : Outcome) : Stage → Prop
  | .lookup identityId =>
    outcome.succeeds → ∀ identity ∈ s.identities, identity.id = identityId → identity.provider = lit "sendblue" →
      identity.outboundSinceInbound < messagingDmOutboundCap →
        identity.outboundSinceInbound + s.inFlight identityId < messagingDmOutboundCap
  | .invite _ _ _ =>
    outcome.locks → outcome.connection = some (lit "pending") → outcome.succeeds → outcome.commits
  | .saveHandle none _ => outcome.succeeds ∧ s.hasRow row.id
  | .saveHandle (some _) _ => outcome.succeeds
  | .count identity => outcome.succeeds ∧ (s.findIdentity identity.id).isSome
  | .recover => outcome.succeeds
  | _ => True

def Sound (s : Outbox) : Op → Prop
  | .step i outcome =>
    match s.drains[i]? with
    | some ⟨_, .claimed row stage⟩ => StageSound s row outcome stage
    | _ => True
  | _ => True

instance (s : Outbox) (row : Outbound) (outcome : Outcome) (stage : Stage) :
    Decidable (StageSound s row outcome stage) := by
  unfold StageSound
  split <;> infer_instance

instance (s : Outbox) (op : Op) : Decidable (Sound s op) := by
  unfold Sound
  split
  · split <;> infer_instance
  · infer_instance

end ArdurBot.Messaging
