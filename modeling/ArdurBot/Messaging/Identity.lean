import ArdurBot.Lib.Calls
import ArdurBot.Lib.Json.Print

/-!
# Messaging identities and link codes

`packages/db/src/messaging.ts`, with `bootstrapUserSpace` of `packages/db/src/bootstrap-user.ts`:
the calls that provision an identity for an address, and that issue and redeem link codes. A call
acts by one database statement at a time, and any statement may fail. The transaction of a
redemption locks the row of its code; what else it does is seen by others when it commits. An id the
database makes is a new number.
-/

namespace ArdurBot.MessagingIdentity

open Utf16 Json

structure Organization where
  id : ℕ
  slug : Text

structure SpaceMember where
  spaceId : ℕ
  userId : Text
deriving DecidableEq

structure Bot where
  id : ℕ
  spaceId : ℕ
  userId : Text
  archived : Bool
  thread : Option ℕ

structure Identity where
  id : ℕ
  provider : Text
  address : Text
  dmThreadId : Option Text
  userId : Text
  spaceId : ℕ
  botId : ℕ
deriving DecidableEq

def Identity.key (identity : Identity) : Text × Text := (identity.provider, identity.address)

structure LinkCode where
  id : ℕ
  code : Text
  userId : Text
  spaceId : ℕ
  botId : ℕ
  expiresAt : ℕ
deriving DecidableEq

/-- `locks` are the code rows that a transaction has deleted and not committed, with the index of
its call. The fields after `nextId` are not stored anywhere: the codes that were redeemed and when,
the calls that stored an identity, all that was ever stored of an identity, and for which users
provisioning made a user, a space and a bot. -/
structure Database where
  now : ℕ
  users : List Text
  organizations : List Organization
  members : List (ℕ × Text)
  spaces : List ℕ
  spaceMembers : List SpaceMember
  bots : List Bot
  identities : List Identity
  codes : List LinkCode
  locks : List (ℕ × ℕ)
  nextId : ℕ
  redeemed : List (LinkCode × ℕ)
  bound : List ℕ
  history : List Identity
  madeUsers : List Text
  madeSpaces : List Text
  madeBots : List Text

structure IdentityRequest where
  provider : Text
  address : Text
  dmThreadId : Option Text

structure CodeRequest where
  userId : Text
  spaceId : ℕ
  botId : ℕ

structure RedeemRequest where
  code : Text
  provider : Text
  address : Text
  dmThreadId : Option Text

structure RedeemedLink where
  identityId : ℕ
  userId : Text
  spaceId : ℕ
  botId : ℕ
  confirmationKey : ℕ

structure ProvisionedIdentity where
  provider : Text
  address : Text
  userId : Text
  spaceId : ℕ
  botId : ℕ
  threadId : ℕ
  created : Bool

/-- `ADDRESS_PATTERN` -/
def isAddress (address : Text) : Bool :=
  1 ≤ address.length && address.length ≤ 128 && !address.any isWhite

/-- `messagingUserId`, with the hash of a text. -/
def messagingUserId (sha256 : Text → Text) (provider address : Text) : Text :=
  sha256 (JsValue.arr [.str provider, .str address]).stringify ++ lit "-msg"

def slug (userId : Text) : Text := lit "user-" ++ userId.take 12

def messagingLinkCodeTtlMs : ℕ := 10 * 60 * 1000

/-- Where a call is. A `spaceId` of `bootstrapUserSpace` is the id of its organization. -/
inductive Call where
  | issue (request : CodeRequest) (code : Text)
  | issueDelete (request : CodeRequest) (code : Text) (expiresAt : ℕ)
  | issueCreate (request : CodeRequest) (code : Text) (expiresAt : ℕ)
  | redeemFind (request : RedeemRequest)
  | redeemClaim (request : RedeemRequest) (row : LinkCode)
  | redeemIdentity (request : RedeemRequest) (row : LinkCode)
  | redeemWrite (request : RedeemRequest) (row : LinkCode) (existing : Option Identity)
  | findIdentity (request : IdentityRequest)
  | existingThread (request : IdentityRequest) (existing : Identity)
  | findUser (request : IdentityRequest)
  | createUser (request : IdentityRequest) (userId : Text)
  | joinUser (request : IdentityRequest) (userId : Text)
  | findMembership (request : IdentityRequest) (userId : Text)
  | createOrganization (request : IdentityRequest) (userId : Text)
  | joinOrganization (request : IdentityRequest) (userId : Text)
  | createMember (request : IdentityRequest) (userId : Text) (spaceId : ℕ)
  | createSpace (request : IdentityRequest) (userId : Text) (spaceId : ℕ)
  | createSpaceMember (request : IdentityRequest) (userId : Text) (spaceId : ℕ)
  | findBot (request : IdentityRequest) (userId : Text) (spaceId : ℕ)
  | createBot (request : IdentityRequest) (userId : Text) (spaceId : ℕ)
  | findThread (request : IdentityRequest) (userId : Text) (spaceId botId : ℕ)
  | createIdentity (request : IdentityRequest) (userId : Text) (spaceId botId threadId : ℕ)
  | findWinner (request : IdentityRequest) (botId threadId : ℕ)
  | winnerThread (request : IdentityRequest) (winner : Identity)
  | issued (code : Text) (expiresAt : ℕ)
  | redeemed (link : Option RedeemedLink)
  | provisioned (result : ProvisionedIdentity)
  | failed

def Call.isStart : Call → Bool
  | issue .. => true
  | redeemFind _ => true
  | findIdentity _ => true
  | _ => false

namespace Database

section

variable (db : Database)

def findIdentity (provider address : Text) : Option Identity :=
  db.identities.find? fun identity => identity.key = (provider, address)

def findThread (botId : ℕ) : Option ℕ :=
  (db.bots.find? fun bot => bot.id = botId).bind Bot.thread

def findMembership (userId : Text) : Option ℕ :=
  (db.spaceMembers.find? fun member => member.userId = userId).map SpaceMember.spaceId

def findBot (spaceId : ℕ) (userId : Text) : Option Bot :=
  db.bots.find? fun bot => bot.spaceId = spaceId && bot.userId = userId && !bot.archived

def isLocked (rowId : ℕ) : Bool := db.locks.any fun (id, _) => id = rowId

/-- The transaction of a call ends, and its locks are gone. -/
def release (index : ℕ) : Database :=
  { db with locks := db.locks.filter fun (_, holder) => holder ≠ index }

/-- The transaction of a redemption commits: the row of its code is gone. -/
def spend (index : ℕ) (row : LinkCode) : Database :=
  { db.release index with codes := db.codes.filter fun code => code.id ≠ row.id }

def addUser (userId : Text) : Database :=
  { db with users := db.users ++ [userId], madeUsers := db.madeUsers ++ [userId] }

def addOrganization (userId : Text) : Database :=
  { db with
    organizations := db.organizations ++ [{ id := db.nextId, slug := slug userId }]
    nextId := db.nextId + 1 }

section

variable (spaceId : ℕ) (userId : Text)

def addMember : Database :=
  if (spaceId, userId) ∈ db.members then db else { db with members := db.members ++ [(spaceId, userId)] }

def addSpace : Database :=
  if spaceId ∈ db.spaces then db
  else { db with spaces := db.spaces ++ [spaceId], madeSpaces := db.madeSpaces ++ [userId] }

def addSpaceMember : Database :=
  if { spaceId, userId } ∈ db.spaceMembers then db
  else { db with spaceMembers := db.spaceMembers ++ [{ spaceId, userId }] }

/-- `createBot` makes a bot and its thread. -/
def addBot : Database :=
  { db with
    bots := db.bots ++ [{ id := db.nextId, spaceId, userId, archived := false, thread := some (db.nextId + 1) }]
    nextId := db.nextId + 2
    madeBots := db.madeBots ++ [userId] }

end

/-- `@@unique([provider, address])` and `botId @unique` -/
def isFree (key : Text × Text) (botId : ℕ) : Bool :=
  !db.identities.any fun identity => identity.key = key || identity.botId = botId

def addIdentity (index : ℕ) (data : Identity) : Database :=
  { db with
    identities := db.identities ++ [{ data with id := db.nextId }]
    nextId := db.nextId + 1
    bound := db.bound ++ [index]
    history := db.history ++ [{ data with id := db.nextId }] }

end

def relinked (request : RedeemRequest) (row : LinkCode) (identity : Identity) : Identity :=
  { identity with botId := row.botId, spaceId := row.spaceId, dmThreadId := request.dmThreadId }

def relink (db : Database) (index : ℕ) (request : RedeemRequest) (row : LinkCode) (id : ℕ) : Database :=
  { db with
    identities := db.identities.map fun identity => if identity.id = id then
      relinked request row identity else identity
    bound := db.bound ++ [index]
    history := db.history ++ (db.identities.filter fun identity => identity.id = id).map (relinked request row) }

def redeem (db : Database) (row : LinkCode) : Database :=
  { db with redeemed := db.redeemed ++ [(row, db.now)] }

end Database

section

variable (db : Database) (request : CodeRequest) (code : Text) (expiresAt : ℕ)

def issueDelete : Database × Call :=
  -- Rows that a transaction has deleted are waited for.
  if db.codes.any fun row => row.userId = request.userId && db.isLocked row.id then
    (db, .issueDelete request code expiresAt)
  else
    ({ db with codes := db.codes.filter fun row => row.userId ≠ request.userId }, .issueCreate request code expiresAt)

def issueCreate : Database × Call :=
  if db.codes.any fun row => row.code = code then (db, .failed)
  else
    ({ db with
        codes := db.codes ++
          [{ id := db.nextId, code, userId := request.userId, spaceId := request.spaceId, botId := request.botId, expiresAt }]
        nextId := db.nextId + 1 }, .issued code expiresAt)

end

def redeemFind (db : Database) (request : RedeemRequest) : Call :=
  match db.codes.find? fun row => row.code = request.code with
  | none => .redeemed none
  | some row => if row.expiresAt < db.now then .redeemed none else .redeemClaim request row

def redeemClaim (db : Database) (index : ℕ) (request : RedeemRequest) (row : LinkCode) : Database × Call :=
  if db.isLocked row.id then (db, .redeemClaim request row)
  else if row ∈ db.codes then
    ({ db with locks := db.locks ++ [(row.id, index)] }, .redeemIdentity request row)
  else (db, .redeemed none)

def redeemedLink (row : LinkCode) (identityId : ℕ) : Call :=
  .redeemed (some
    { identityId, userId := row.userId, spaceId := row.spaceId, botId := row.botId, confirmationKey := row.id })

/-- The last statement of the transaction, and its commit. On a unique violation it is rolled
back. -/
def redeemWrite (db : Database) (index : ℕ) (request : RedeemRequest) (row : LinkCode) :
    Option Identity → Database × Call
  | some existing =>
    if existing.userId ≠ row.userId then (db.spend index row, .redeemed none)
    else if db.identities.any fun identity => identity.id ≠ existing.id && identity.botId = row.botId then
      (db.release index, .redeemed none)
    else (((db.spend index row).relink index request row existing.id).redeem row, redeemedLink row existing.id)
  | none =>
    if db.isFree (request.provider, request.address) row.botId then
      (((db.spend index row).addIdentity index
          { id := 0, provider := request.provider, address := request.address, dmThreadId := request.dmThreadId,
            userId := row.userId, spaceId := row.spaceId, botId := row.botId }).redeem row,
              redeemedLink row db.nextId)
    else (db.release index, .redeemed none)

def provisionedFrom (request : IdentityRequest) (identity : Identity) (threadId : ℕ)
    (created : Bool) : Call :=
  .provisioned
    { provider := request.provider, address := request.address, userId := identity.userId,
      spaceId := identity.spaceId,
      botId := identity.botId, threadId, created }

def createIdentity (db : Database) (index : ℕ) (request : IdentityRequest) (userId : Text)
    (spaceId botId threadId : ℕ) : Database × Call :=
  let data : Identity :=
    { id := 0, provider := request.provider, address := request.address,
      dmThreadId := request.dmThreadId, userId, spaceId,
      botId }
  if db.isFree data.key botId then (db.addIdentity index data, provisionedFrom request data threadId true)
  else (db, .findWinner request botId threadId)

def next (sha256 : Text → Text) (db : Database) (index : ℕ) : Call → Database × Call
  | .issue request code => (db, .issueDelete request code (db.now + messagingLinkCodeTtlMs))
  | .issueDelete request code expiresAt => issueDelete db request code expiresAt
  | .issueCreate request code expiresAt => issueCreate db request code expiresAt
  | .redeemFind request => (db, redeemFind db request)
  | .redeemClaim request row => redeemClaim db index request row
  | .redeemIdentity request row => (db, .redeemWrite request row (db.findIdentity request.provider request.address))
  | .redeemWrite request row existing => redeemWrite db index request row existing
  | .findIdentity request =>
    if !isAddress request.address then (db, .failed)
    else
      match db.findIdentity request.provider request.address with
      | some existing => (db, .existingThread request existing)
      | none => (db, .findUser request)
  | .existingThread request existing =>
    match db.findThread existing.botId with
    | none => (db, .failed)
    | some thread => (db, provisionedFrom request existing thread false)
  | .findUser request =>
    let userId := messagingUserId sha256 request.provider request.address
    if userId ∈ db.users then (db, .findMembership request userId) else (db, .createUser request userId)
  | .createUser request userId =>
    if userId ∈ db.users then (db, .joinUser request userId) else (db.addUser userId, .findMembership request userId)
  | .joinUser request userId =>
    if userId ∈ db.users then (db, .findMembership request userId) else (db, .failed)
  | .findMembership request userId =>
    match db.findMembership userId with
    | some spaceId => (db, .findBot request userId spaceId)
    | none => (db, .createOrganization request userId)
  | .createOrganization request userId =>
    if db.organizations.any fun organization => organization.slug = slug userId then (db, .joinOrganization request userId)
    else (db.addOrganization userId, .createMember request userId db.nextId)
  | .joinOrganization request userId =>
    match db.organizations.find? fun organization => organization.slug = slug userId with
    | some organization => (db, .createMember request userId organization.id)
    | none => (db, .failed)
  | .createMember request userId spaceId => (db.addMember spaceId userId, .createSpace request userId spaceId)
  | .createSpace request userId spaceId => (db.addSpace spaceId userId, .createSpaceMember request userId spaceId)
  | .createSpaceMember request userId spaceId => (db.addSpaceMember spaceId userId, .findBot request userId spaceId)
  | .findBot request userId spaceId =>
    match db.findBot spaceId userId with
    | some bot => (db, .findThread request userId spaceId bot.id)
    | none => (db, .createBot request userId spaceId)
  | .createBot request userId spaceId => (db.addBot spaceId userId, .findThread request userId spaceId db.nextId)
  | .findThread request userId spaceId botId =>
    match db.findThread botId with
    | none => (db, .failed)
    | some thread => (db, .createIdentity request userId spaceId botId thread)
  | .createIdentity request userId spaceId botId threadId => createIdentity db index request userId spaceId botId threadId
  | .findWinner request botId threadId =>
    match db.findIdentity request.provider request.address with
    | none => (db, .failed)
    | some winner =>
      if winner.botId = botId then (db, provisionedFrom request winner threadId false) else (db, .winnerThread request winner)
  | .winnerThread request winner =>
    match db.findThread winner.botId with
    | none => (db, .failed)
    | some thread => (db, provisionedFrom request winner thread false)
  | .issued code expiresAt => (db, .issued code expiresAt)
  | .redeemed link => (db, .redeemed link)
  | .provisioned result => (db, .provisioned result)
  | .failed => (db, .failed)

def Call.isDone : Call → Bool
  | issued .. => true
  | redeemed _ => true
  | provisioned _ => true
  | failed => true
  | _ => false

inductive Fate where
  | answered
  | lost
deriving DecidableEq

def act (sha256 : Text → Text) (db : Database) (index : ℕ) (call : Call) : Fate → Database × Call
  | .answered => next sha256 db index call
  | .lost => if call.isDone then (db, call) else (db.release index, .failed)

def tick (db : Database) (ms : ℕ) : Database := { db with now := db.now + ms }

def program (sha256 : Text → Text) : Calls.Program Database Call Fate ℕ where
  act := act sha256
  environment := tick

end ArdurBot.MessagingIdentity
