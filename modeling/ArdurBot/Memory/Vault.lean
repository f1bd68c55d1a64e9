import ArdurBot.Memory.WritesRun
import ArdurBot.Memory.ReadsAgree

/-!
# A vault with private documents

`VaultWithPrivateDocuments` of `packages/adapters/src/memory/obsidian-store.ts`: what is shared in a
space, and what the owner of the folder keeps as a user, is in the vault; every other document is in
the database. The journals of both stores (`obsidian-store.ts`,
`packages/memory/src/postgres-store.ts`) are given by what their transactions refuse, and what they
keep before they fail.
-/

namespace ArdurBot.Memory

open Utf16 Json Paging

def JournalDocument.bundled (doc : JournalDocument) : BundleDocument where
  id := doc.id
  revisions := doc.revisions

/-- Which documents may be exported to an access with these secrets. -/
abbrev ExportCheck := BundleDocument → List Text → Bool

/-- `JournalDocumentStore.exportBundle` -/
def exportBundle (safe : ExportCheck) (docs : List JournalDocument) (access : MemoryAccess) :
    MemoryBundle where
  documents := ((docs.filter fun doc => canAccess doc.current.scopeKey access).map
    JournalDocument.bundled).filter
    (safe · access.knownSecrets)

/-- A document of a bundle that another of the current ones is in the way of. -/
def isTaken (current : MemoryBundle) (doc : BundleDocument) : Bool :=
  current.documents.any fun other =>
    (other.id = doc.id || other.headPlace = doc.headPlace) &&
      !(other.id = doc.id && isExtendedBy other.revisions doc.revisions)

/-- `previewImport`, without remapping: the documents in conflict. -/
def previewImport (rules : MemoryRules) (bundle current : MemoryBundle) (access : MemoryAccess) :
    Except MemoryRefusal (List BundleDocument) :=
  if !isReadable rules bundle then .error .bundle
  else if !(bundle.documents.all fun doc => doc.revisions.all fun revision =>
    canAccess revision.scopeKey access) then
    .error .access
  else .ok (bundle.documents.filter (isTaken current))

/-- `requireImportReady`, at the preview's own hash. -/
def requireImportReady : Except MemoryRefusal (List BundleDocument) → Except MemoryRefusal Unit
  | .error refusal => .error refusal
  | .ok [] => .ok ()
  | .ok (_ :: _) => .error .conflict

/-- Why a store gives nothing: a refusal of the memory, or a failure of the files or the
database. -/
inductive StoreRefusal where
  | memory (refusal : MemoryRefusal)
  | failed

/-- A store's documents, and what its journal refuses: to start, to keep documents, or, when it
keeps them already, to finish. -/
structure JournalStore where
  documents : List JournalDocument
  opens : MemoryAccess → Option StoreRefusal
  keeps : List JournalDocument → Option StoreRefusal
  finishes : List JournalDocument → Option StoreRefusal
  unique : (documents.map JournalDocument.id).Nodup
  named : ∀ doc ∈ documents, doc.id ≠ []

namespace JournalStore

/-- `MemoryJournal.transaction`: the documents as it leaves them, and what it gives. -/
def transaction {α : Type} (store : JournalStore) (access : MemoryAccess)
    (action : List JournalDocument → List JournalDocument × Except MemoryRefusal α) :
    List JournalDocument × Except StoreRefusal α :=
  match store.opens access with
  | some refusal => (store.documents, .error refusal)
  | none =>
    match action store.documents with
    | (_, .error refusal) => (store.documents, .error (.memory refusal))
    | (later, .ok value) =>
      match store.keeps later with
      | some refusal => (store.documents, .error refusal)
      | none =>
        match store.finishes later with
        | some refusal => (later, .error refusal)
        | none => (later, .ok value)

def list (store : JournalStore) (safe : HeadCheck) (input : DocumentListInput) (access : MemoryAccess) :
    Except StoreRefusal (Page MemoryDocumentHead Text) :=
  (store.transaction access fun docs => (docs, JournalDocumentStore.list safe docs input access)).2

def exportBundle (store : JournalStore) (safe : ExportCheck) (access : MemoryAccess) :
    Except StoreRefusal MemoryBundle :=
  (store.transaction access fun docs => (docs, .ok (Memory.exportBundle safe docs access))).2

def importBundle (store : JournalStore) (rules : MemoryRules) (bundle : MemoryBundle)
    (delivery : DocumentDelivery)
    (access : MemoryAccess) : List JournalDocument × Except StoreRefusal Unit :=
  store.transaction access fun docs => Memory.importBundle rules docs bundle delivery access

end JournalStore

structure VaultOptions where
  spaceId : Text
  ownerUserId : Text

/-- What the folder's files do: whether its journal and notes are read, and whether documents are
written to the journal and then to the notes. Nothing is written for no documents. -/
structure VaultFiles where
  read : Option StoreRefusal
  writeJournal : List JournalDocument → Option StoreRefusal
  publish : List JournalDocument → Option StoreRefusal

/-- `ObsidianJournal.allowed` -/
def VaultOptions.allowed (options : VaultOptions) (revision : DocumentRevision) : Bool :=
  revision.scopeKey.spaceId = options.spaceId &&
    match revision.scopeKey with
    | .spaceShared _ => true
    | .user _ userId => userId = options.ownerUserId
    | _ => false

def VaultOptions.allAllowed (options : VaultOptions) (docs : List JournalDocument) : Bool :=
  docs.all fun doc => doc.revisions.all options.allowed

/-- `ObsidianJournal`, with the documents as its journal and the edited notes have them. -/
def obsidianStore (rules : MemoryRules) (options : VaultOptions) (files : VaultFiles)
    (documents : List JournalDocument)
    (unique : (documents.map JournalDocument.id).Nodup) (named : ∀ doc ∈ documents, doc.id ≠ []) :
    JournalStore where
  documents
  opens access :=
    if access.spaceId ≠ options.spaceId then some (.memory .access)
    else if files.read.isSome then files.read
    else if !isReadable rules { documents := documents.map JournalDocument.bundled } then some (.memory .bundle)
    else if !options.allAllowed documents then some (.memory .access)
    else none
  keeps later := if !options.allAllowed later then some (.memory .access) else files.writeJournal later
  finishes := files.publish
  unique
  named

/-- What the database has beside the documents of the access's space: the ids of other spaces'
documents, its bots, and whether rows are read and written. -/
structure Database where
  elsewhere : List Text
  bots : List Text
  read : Option StoreRefusal
  write : List JournalDocument → Option StoreRefusal

/-- `@@unique([spaceId, scope, botId, path])`, in which no two rows without a bot are the same. -/
def botPlace (doc : JournalDocument) : Option (ScopeKind × Text × Text) :=
  doc.current.scopeKey.botId.map fun botId => (doc.current.scopeKey.kind, botId, doc.current.path)

/-- `PostgresMemoryJournal`. A key that is taken is a conflict; the transaction it is part of keeps
nothing. -/
def postgresStore (database : Database) (documents : List JournalDocument)
    (unique : (documents.map JournalDocument.id).Nodup) (named : ∀ doc ∈ documents, doc.id ≠ []) :
    JournalStore where
  documents
  opens _ := database.read
  keeps later :=
    if later.any (fun doc => doc ∉ documents && doc.id ∈ database.elsewhere) || !(later.filterMap botPlace).Nodup ||
        !(later.map JournalDocument.place).Nodup then some (.memory .conflict)
    else if later.any fun doc => doc ∉ documents &&
      doc.current.scopeKey.botId.any (· ∉ database.bots) then some .failed
    else database.write later
  finishes _ := none
  unique
  named

inductive StoreChoice where
  | vault
  | privateStore
deriving DecidableEq

structure VaultWithPrivateDocuments where
  vault : JournalStore
  privateStore : JournalStore
  ownerUserId : Option Text

namespace VaultWithPrivateDocuments

section

variable (stores : VaultWithPrivateDocuments)

def selected : DocumentScope → StoreChoice
  | .spaceShared _ => .vault
  | .user _ userId => if stores.ownerUserId = some userId then .vault else .privateStore
  | _ => .privateStore

def store : StoreChoice → JournalStore
  | .vault => stores.vault
  | .privateStore => stores.privateStore

def selects (choice : StoreChoice) (head : MemoryDocumentHead) : Bool :=
  stores.selected head.scopeKey = choice

end

/-- One store's heads, a hundred at a time, until they are more than `limit`. -/
def collect (list : DocumentListInput → Except StoreRefusal (Page MemoryDocumentHead Text))
    (kept : MemoryDocumentHead → Bool) (input : DocumentListInput) (limit : ℕ) :
    ℕ → List MemoryDocumentHead → Option Text → Except StoreRefusal (List MemoryDocumentHead)
  | 0, items, _ => .ok items
  | fuel + 1, items, cursor =>
    match list { input with cursor, limit := some 100 } with
    | .error refusal => .error refusal
    | .ok page =>
      let items := items ++ page.items.filter kept
      match present page.nextCursor with
      | none => .ok items
      | some after => if items.length ≤ limit then
        collect list kept input limit fuel items (some after) else .ok items

section

variable (stores : VaultWithPrivateDocuments)

/-- `collect`, with as many rounds as there may be pages. -/
def collectFrom (safe : HeadCheck) (choice : StoreChoice) (input : DocumentListInput)
    (access : MemoryAccess) : Except StoreRefusal (List MemoryDocumentHead) :=
  collect ((stores.store choice).list safe · access) (stores.selects choice) input (input.limit.getD 50).toNat
    ((stores.store choice).documents.length + 1) [] input.cursor

/-- `VaultWithPrivateDocuments.list`; by its schema a limit is at least one. -/
def list (safe : HeadCheck) (input : DocumentListInput) (access : MemoryAccess) :
    Except StoreRefusal (Page MemoryDocumentHead Text) :=
  match stores.collectFrom safe .vault input access, stores.collectFrom safe .privateStore input access with
  | .error refusal, _ => .error refusal
  | .ok _, .error refusal => .error refusal
  | .ok vault, .ok own => .ok (mergedPage MemoryDocumentHead.id (input.limit.getD 50).toNat vault own)

/-- A document's store, by the scope of its last revision; a document has a revision, by the schema
of a bundle. -/
def owner (doc : BundleDocument) : StoreChoice :=
  (doc.revisions.getLast?.map fun head => stores.selected head.scopeKey).getD .privateStore

def exportBundle (safe : ExportCheck) (access : MemoryAccess) : Except StoreRefusal MemoryBundle :=
  match stores.vault.exportBundle safe access, stores.privateStore.exportBundle safe access with
  | .error refusal, _ => .error refusal
  | .ok _, .error refusal => .error refusal
  | .ok vault, .ok own =>
    .ok { documents := vault.documents ++ own.documents.filter fun doc => stores.owner doc = .privateStore }

/-- The documents of a bundle that one store owns. -/
def half (choice : StoreChoice) (bundle : MemoryBundle) : MemoryBundle where
  documents := bundle.documents.filter fun doc => stores.owner doc = choice

end

/-- What an import leaves: the documents of the vault, those of the private store, and whether it
throws. -/
structure Imported where
  vault : List JournalDocument
  privateStore : List JournalDocument
  result : Except StoreRefusal Unit

/-- `VaultWithPrivateDocuments.importBundle`: the halves are imported one after the other. -/
def importBundle (stores : VaultWithPrivateDocuments) (rules : MemoryRules) (safe : ExportCheck)
    (bundle : MemoryBundle) (delivery : DocumentDelivery) (access : MemoryAccess) : Imported :=
  match stores.exportBundle safe access with
  | .error refusal => ⟨stores.vault.documents, stores.privateStore.documents, .error refusal⟩
  | .ok current =>
    match requireImportReady (previewImport rules bundle current access) with
    | .error refusal => ⟨stores.vault.documents, stores.privateStore.documents, .error (.memory refusal)⟩
    | .ok () =>
      match stores.vault.importBundle rules (stores.half .vault bundle) delivery access with
      | (vault, .error refusal) => ⟨vault, stores.privateStore.documents, .error refusal⟩
      | (vault, .ok ()) =>
        match stores.privateStore.importBundle rules (stores.half .privateStore bundle) delivery access with
        | (own, result) => ⟨vault, own, result⟩

end VaultWithPrivateDocuments

end ArdurBot.Memory
