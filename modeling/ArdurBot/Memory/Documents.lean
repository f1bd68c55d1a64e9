import ArdurBot.Lib.Paging
import ArdurBot.Memory.Scope

/-!
# Memory documents

The revisions of `packages/contracts/src/memory-documents.ts`, and the documents of a journal with
the reads of `JournalDocumentStore` (`packages/memory/src/journal.ts`). Which content is safe to
keep or to show is left open: a `SafetyCheck` says it of each kind of value, and `assertMemorySafe`
is one.
-/

namespace ArdurBot.Memory

open Utf16 Json Paging

inductive DocumentKind where
  | profile
  | preferences
  | topic
deriving DecidableEq

inductive AuthorKind where
  | user
  | bot
  | runtime
  | learningLoop
deriving DecidableEq

structure RevisionAuthor where
  kind : AuthorKind
  userId : Option Text
  botId : Option Text
deriving DecidableEq

structure MemoryModel where
  provider : Text
  modelId : Text
  effort : Option Text
deriving DecidableEq

/-- Where a revision was learnt or imported from, as JSON. -/
abbrev Provenance := {value : JsValue // value.Plain}

theorem provenance_ext {a b : Provenance} (h : a.val.stringify = b.val.stringify) : a = b := by
  have hparse : parse a.val.stringify = parse b.val.stringify := by rw [h]
  rw [parse_stringify a.property, parse_stringify b.property] at hparse
  exact Subtype.ext (Option.some.inj hparse)

instance : DecidableEq Provenance := fun a b =>
  decidable_of_iff (a.val.stringify = b.val.stringify) ⟨provenance_ext, fun h => by rw [h]⟩

structure DocumentRevision where
  kind : Option DocumentKind
  documentId : Text
  revision : ℕ
  scopeKey : DocumentScope
  path : Text
  content : Text
  author : RevisionAuthor
  learning : Option Provenance
  imported : Option Provenance
  model : Option MemoryModel
  runId : Option Text
  threadId : Option Text
  references : List Text
  createdAt : Text
  deletedAt : Option Text
  commitId : Option Text
deriving DecidableEq

inductive DeliveryStatus where
  | pending
  | delivered
  | failed
deriving DecidableEq

structure DocumentDelivery where
  status : DeliveryStatus
  generation : ℕ
  provider : Option Text
  receipt : Option Text
  retryAt : Option Text
deriving DecidableEq

structure JournalDocument where
  id : Text
  revisions : List DocumentRevision
  delivery : DocumentDelivery
  nonempty : revisions ≠ []
deriving DecidableEq

structure MemoryDocumentHead extends DocumentRevision where
  id : Text
  updatedAt : Text
  delivery : DocumentDelivery
deriving DecidableEq

/-- `revisions.at(-1)` -/
def JournalDocument.current (doc : JournalDocument) : DocumentRevision :=
  doc.revisions.getLast doc.nonempty

def documentHead (doc : JournalDocument) : MemoryDocumentHead :=
  { doc.current with id := doc.id, updatedAt := doc.current.createdAt, delivery := doc.delivery }

/-- Which heads may be shown to an access with these secrets. -/
abbrev HeadCheck := MemoryDocumentHead → List Text → Bool

inductive MemoryRefusal where
  | access
  | conflict
  | redaction
  | schema
  | path
  | briefSize
  | bundle

structure DocumentListInput where
  cursor : Option Text
  limit : Option ℤ
  scope : Option ScopeKind
  groupId : Option Text
  botId : Option Text
  includeDeleted : Bool

section

variable (input : DocumentListInput)

def pageLimit : ℕ := (min 100 (max 1 (input.limit.getD 50))).toNat

theorem pageLimit_pos : 0 < pageLimit input := by
  unfold pageLimit
  omega

/-- The filter of `list`, but for the cursor. -/
def isListed (access : MemoryAccess) (head : MemoryDocumentHead) : Bool :=
  canAccess head.scopeKey access && (input.includeDeleted || head.deletedAt.isNone) &&
    input.scope.all (head.scopeKey.kind = ·) && (present input.groupId).all (head.scopeKey.groupId = some ·) &&
    (present input.botId).all (head.scopeKey.botId = some ·)

def refusesBot (access : MemoryAccess) : Bool :=
  (present input.botId).any (· ∉ access.botIds)

end

namespace JournalDocumentStore

section

variable (safe : HeadCheck) (docs : List JournalDocument)

/-- `JournalDocumentStore.list` -/
def list (input : DocumentListInput) (access : MemoryAccess) :
    Except MemoryRefusal (Page MemoryDocumentHead Text) :=
  if refusesBot input access then .error .access
  else
    .ok (page MemoryDocumentHead.id (safe · access.knownSecrets) (pageLimit input)
      ((docs.map documentHead).filter (isListed input access)) (present input.cursor))

/-- `JournalDocumentStore.read` -/
def read (id : Text) (access : MemoryAccess) :
    Option MemoryDocumentHead :=
  ((docs.find? fun doc => doc.id = id && canAccess doc.current.scopeKey access).map documentHead).filter
    (safe · access.knownSecrets)

end

end JournalDocumentStore

end ArdurBot.Memory
