import ArdurBot.Memory.Documents

/-!
# Memory in the database

The rows of `packages/memory/src/postgres-store.ts`, the filters of
`packages/memory/src/scoped-where.ts`, and the reads of `PostgresDocumentStore`. The database orders
ids as texts are compared.
-/

namespace ArdurBot.Memory

open Utf16 Json Paging Sorted

structure DocumentRow where
  kind : DocumentKind
  id : Text
  spaceId : Text
  userId : Text
  botId : Option Text
  scope : ScopeKind
  scopeKey : Option Text
  path : Text
  content : Text
  revision : ℕ
  deletedAt : Option Text
  deliveryStatus : DeliveryStatus
  deliveryGeneration : ℕ
  deliveryProvider : Option Text
  deliveryReceipt : Option Text
  deliveryRetryAt : Option Text
  updatedAt : Text

structure RevisionRow where
  kind : DocumentKind
  revision : ℕ
  content : Text
  sourceRunId : Option Text
  sourceThreadId : Option Text
  commitId : Option Text
  authorKind : AuthorKind
  learning : Option Provenance
  imported : Option Provenance
  authorUserId : Option Text
  authorBotId : Option Text
  modelProvider : Option Text
  modelId : Option Text
  modelEffort : Option Text
  references : List Text
  deletedAt : Option Text
  createdAt : Text

section

variable (row : DocumentRow)

def rowScope : DocumentScope :=
  match row.scope with
  | .spaceShared => .spaceShared row.spaceId
  | .group =>
    let botId := row.botId.getD []
    .group row.spaceId row.userId botId ((row.scopeKey.getD []).drop (botId.length + 1))
  | .bot => .bot row.spaceId row.userId (row.botId.getD [])
  | .user => .user row.spaceId row.userId

def rowRevision (revision : RevisionRow) : DocumentRevision where
  kind := some revision.kind
  documentId := row.id
  revision := revision.revision
  scopeKey := rowScope row
  path := row.path
  content := revision.content
  author :=
    { kind := revision.authorKind, userId := present revision.authorUserId, botId := present revision.authorBotId }
  learning := revision.learning
  imported := revision.imported
  model := do
    let provider ← present revision.modelProvider
    let modelId ← present revision.modelId
    return { provider, modelId, effort := revision.modelEffort }
  runId := revision.sourceRunId
  threadId := revision.sourceThreadId
  references := revision.references
  createdAt := revision.createdAt
  deletedAt := revision.deletedAt
  commitId := present revision.commitId

/-- A document older than revision rows has one revision, its row. -/
def legacyRevision : DocumentRevision where
  kind := some row.kind
  documentId := row.id
  revision := row.revision
  scopeKey := rowScope row
  path := row.path
  content := row.content
  author := { kind := .runtime, userId := present (some row.userId), botId := present row.botId }
  learning := none
  imported := none
  model := none
  runId := none
  threadId := none
  references := []
  createdAt := row.updatedAt
  deletedAt := row.deletedAt
  commitId := none

def rowDelivery : DocumentDelivery where
  status := row.deliveryStatus
  generation := row.deliveryGeneration
  provider := row.deliveryProvider
  receipt := present row.deliveryReceipt
  retryAt := row.deliveryRetryAt

def rowHead (latest : Option RevisionRow) : MemoryDocumentHead :=
  let revision := latest.elim (legacyRevision row) (rowRevision row)
  { revision with id := row.id, updatedAt := revision.createdAt, delivery := rowDelivery row }

end

/-- The columns of a scope, as the journal writes them. Only a group's key is ever read. -/
structure ScopeColumns (row : DocumentRow) : Prop where
  group : row.scope = .group → ∃ botId groupId, row.botId = some botId ∧
    row.scopeKey = some (groupKey botId groupId)
  bot : row.scope = .bot → row.botId.isSome
  user : row.scope = .user → row.botId = none
  shared : row.scope = .spaceShared → row.botId = none

/-- A row with its revisions: the last of them is the one the row has, unless there is none. -/
structure StoredDocument where
  row : DocumentRow
  revisions : List RevisionRow
  columns : ScopeColumns row
  ascending : revisions.Pairwise fun a b => a.revision < b.revision
  current : ∀ last ∈ revisions.getLast?, last.revision = row.revision ∧ last.deletedAt = row.deletedAt

/-- What the journal reads in place of missing revisions. -/
def legacyRow (row : DocumentRow) : RevisionRow where
  kind := row.kind
  revision := row.revision
  content := row.content
  sourceRunId := none
  sourceThreadId := none
  commitId := none
  authorKind := .runtime
  learning := none
  imported := none
  authorUserId := some row.userId
  authorBotId := row.botId
  modelProvider := none
  modelId := none
  modelEffort := none
  references := []
  deletedAt := row.deletedAt
  createdAt := row.updatedAt

def StoredDocument.journalRows (doc : StoredDocument) : List RevisionRow :=
  if doc.revisions = [] then [legacyRow doc.row] else doc.revisions

theorem journalRows_ne_nil (doc : StoredDocument) : doc.journalRows ≠ [] := by
  unfold StoredDocument.journalRows
  split
  · exact List.cons_ne_nil _ _
  · assumption

/-- A document as `PostgresMemoryJournal` reads it. -/
def journalDocument (doc : StoredDocument) : JournalDocument where
  id := doc.row.id
  revisions := doc.journalRows.map (rowRevision doc.row)
  delivery := (rowHead doc.row doc.journalRows.getLast?).delivery
  nonempty := by simpa using journalRows_ne_nil doc

/-- `authorizedDocumentWhere` at a row. -/
def authorizedDocumentWhere (access : MemoryAccess) (row : DocumentRow) : Bool :=
  let botIds := (present access.botId).elim access.botIds fun botId => access.botIds.filter (· = botId)
  let groups := direct :: access.groupIds
  let visibleGroups :=
    if (present access.runId).isSome then groups.filter (· = access.groupId.getD direct) else groups
  let groupKeys := botIds.flatMap fun botId => visibleGroups.map (groupKey botId)
  row.spaceId = access.spaceId &&
    (row.scope = .spaceShared || (row.scope = .user && row.userId = access.userId) ||
      (row.scope = .bot && row.userId = access.userId && row.botId.any (· ∈ botIds)) ||
      (row.scope = .group && row.userId = access.userId && row.botId.any (· ∈ botIds) &&
        row.scopeKey.any (· ∈ groupKeys)))

/-- `listedDocumentWhere` at a row, but for the cursor. -/
def listedDocumentWhere (access : MemoryAccess) (input : DocumentListInput) (row : DocumentRow) : Bool :=
  authorizedDocumentWhere access row && (input.includeDeleted || row.deletedAt.isNone) &&
    input.scope.all (row.scope = ·) &&
    (present input.groupId).all (fun groupId =>
      row.scope = .group && row.scopeKey.any (· ∈ access.botIds.map (groupKey · groupId))) &&
    (present input.botId).all (row.botId = some ·)

namespace PostgresDocumentStore

/-- The revision a row has, as `currentRevisions` finds it. -/
def currentRevision (doc : StoredDocument) : Option RevisionRow :=
  doc.revisions.find? fun revision => revision.revision = doc.row.revision

def head (doc : StoredDocument) : MemoryDocumentHead := rowHead doc.row (currentRevision doc)

section

variable (safe : HeadCheck) (documents : List StoredDocument)

/-- `PostgresDocumentStore.list` -/
def list (input : DocumentListInput) (access : MemoryAccess) :
    Except MemoryRefusal (Page MemoryDocumentHead Text) :=
  if refusesBot input access then .error .access
  else
    let limit := pageLimit input
    let listed := documents.filter fun doc =>
      listedDocumentWhere access input doc.row && isAfter id (present input.cursor) doc.row.id
    let ids := ((sortByKey (fun doc => doc.row.id) listed).take (limit + 1)).map fun doc => doc.row.id
    let rows := (documents.filter fun doc => authorizedDocumentWhere access doc.row &&
        doc.row.id ∈ ids).take ids.length
    let ordered := ids.filterMap fun id => rows.find? fun doc => doc.row.id = id
    .ok
      { items := ((ordered.take limit).map head).filter (safe · access.knownSecrets)
        nextCursor := if limit < ordered.length then (ordered[limit - 1]?).map fun doc => doc.row.id else none }

/-- `PostgresDocumentStore.read` -/
def read (id : Text) (access : MemoryAccess) :
    Option MemoryDocumentHead :=
  let rows := (documents.filter fun doc => authorizedDocumentWhere access doc.row && doc.row.id = id).take 1
  (rows.head?.map head).filter (safe · access.knownSecrets)

end

end PostgresDocumentStore

end ArdurBot.Memory
