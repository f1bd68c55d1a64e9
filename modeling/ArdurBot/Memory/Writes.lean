import ArdurBot.Memory.Documents

/-!
# Writing memory documents

The writes of `JournalDocumentStore` (`packages/memory/src/journal.ts`), with
`packages/memory/src/portable.ts` and the path check of `packages/memory/src/redaction.ts`. A write
gives the documents as it leaves them, also when it is refused. Two revisions print as the same JSON
when they have the same fields.
-/

namespace ArdurBot.Memory

open Utf16 Json

structure DocumentCommit where
  kind : Option DocumentKind
  id : Option Text
  scopeKey : DocumentScope
  path : Text
  content : Text
  expectedRevision : ℤ
  references : Option (List Text)
  author : RevisionAuthor
  learning : Option Provenance
  imported : Option Provenance
  model : Option MemoryModel
  runId : Option Text
  threadId : Option Text
  delivery : DocumentDelivery
  deleted : Bool

/-- A property that is spread over another object's. -/
inductive Spread (α : Type) where
  | absent
  | given (value : Option α)

def Spread.over {α : Type} (spread : Spread α) (base : Option α) : Option α :=
  match spread with
  | absent => base
  | given value => value

structure Attribution where
  kind : Spread DocumentKind
  references : Spread (List Text)
  author : RevisionAuthor
  learning : Spread Provenance
  imported : Spread Provenance
  model : Spread MemoryModel
  runId : Spread Text
  threadId : Spread Text
  delivery : DocumentDelivery

structure BundleDocument where
  id : Text
  revisions : List DocumentRevision

structure MemoryBundle where
  documents : List BundleDocument

/-- What a store is given: what is safe to keep, the schemas of what is nested in a revision, how
long a bundle is as JSON, and new ids. -/
structure MemoryRules where
  safePath : Text → Bool
  safeCommit : DocumentCommit → List Text → Bool
  safeRevision : DocumentRevision → List Text → Bool
  safeBundle : MemoryBundle → Bool
  isLearning : Provenance → Bool
  isImported : Provenance → Bool
  isDatetime : Text → Bool
  bundleLength : MemoryBundle → ℕ
  randomUUID : List Text → Text
  fresh : ∀ ids, randomUUID ids ∉ ids

section

variable (rules : MemoryRules)

def isAuthor (author : RevisionAuthor) : Bool :=
  author.userId.all isIdentity && author.botId.all isIdentity

def isModel (model : MemoryModel) : Bool :=
  1 ≤ model.provider.length && model.provider.length ≤
    160 && (1 ≤ model.modelId.length && model.modelId.length ≤ 300) &&
    model.effort.all fun effort => effort.length ≤ 80

def isCommitId (id : Text) : Bool := 40 ≤ id.length && id.length ≤ 64 && id.all isLowerHex

def isObject : JsValue → Bool
  | .obj _ => true
  | _ => false

theorem present_of_isCommitId {id : Option Text} (h : id.all isCommitId) : present id = id := by
  rcases id with _ | id
  · rfl
  have hne : id ≠ [] := by
    intro hnil
    subst hnil
    cases h
  unfold present
  rw [Option.filter_some, if_pos (decide_eq_true hne)]

/-- `DocumentRevisionSchema` -/
def isRevision (revision : DocumentRevision) : Bool :=
  isIdentity revision.documentId && (1 ≤ revision.revision && revision.revision ≤ maxSafeInteger) &&
    revision.scopeKey.isValid && (1 ≤ revision.path.length && revision.path.length ≤ 500) &&
    revision.content.length ≤ 1000000 && isAuthor revision.author &&
    (revision.learning.all fun learning => isObject learning.val && rules.isLearning learning) &&
    (revision.imported.all fun imported => isObject imported.val && rules.isImported imported) &&
    revision.model.all isModel && revision.runId.all isIdentity && revision.threadId.all isIdentity &&
    (revision.references.length ≤ 100 && revision.references.all fun reference => reference.length ≤ 2000) &&
    rules.isDatetime revision.createdAt && revision.deletedAt.all rules.isDatetime && revision.commitId.all isCommitId

/-- What the schema says of a revision's ids, its scope, its number and what is nested in it. -/
structure RevisionFacts (revision : DocumentRevision) : Prop where
  documentId : isIdentity revision.documentId
  number : 1 ≤ revision.revision ∧ revision.revision ≤ maxSafeInteger
  scope : revision.scopeKey.isValid
  author : isAuthor revision.author
  learning : revision.learning.all (fun learning => isObject learning.val)
  imported : revision.imported.all (fun imported => isObject imported.val)
  runId : revision.runId.all isIdentity
  threadId : revision.threadId.all isIdentity
  commitId : revision.commitId.all isCommitId

theorem isRevision_facts {revision : DocumentRevision} (h : isRevision rules revision) :
    RevisionFacts revision := by
  have hobject : ∀ {value : Option Provenance} {accepts : Provenance → Bool},
      (value.all fun nested => isObject nested.val && accepts nested) = true →
      value.all (fun nested => isObject nested.val) := by
    intro value accepts hvalue
    cases value with
    | none => rfl
    | some nested => exact (Bool.and_eq_true_iff.mp hvalue).1
  simp only [isRevision, Bool.and_eq_true, decide_eq_true_eq] at h
  obtain ⟨⟨⟨⟨⟨⟨⟨⟨⟨⟨⟨⟨⟨⟨hid, hnumber⟩, hscope⟩, -⟩, -⟩, hauthor⟩, hlearning⟩, himported⟩, -⟩, hrun⟩,
      hthread⟩, -⟩, -⟩, -⟩, hcommit⟩ := h
  exact ⟨hid, hnumber, hscope, hauthor, hobject hlearning, hobject himported, hrun, hthread, hcommit⟩

/-- `MemoryBundleSchema` -/
def isBundle (bundle : MemoryBundle) : Bool :=
  bundle.documents.length ≤ 10000 && bundle.documents.all fun doc =>
    isIdentity doc.id && (1 ≤ doc.revisions.length && doc.revisions.length ≤ 10000) &&
      doc.revisions.all (isRevision rules)

def pathParts (path : Text) : List Text := path.splitOn (unit '/')

/-- `assertMemoryPath` -/
def isMemoryPath (path : Text) : Bool :=
  !(path = [] || path.length > 500 || path.head? = some (unit '/') ||
    path.any (fun u => u = unit '\\' || u = unit ':') ||
      path.any (· < 32) ||
      (pathParts path).any fun part => part = [] || part = lit "." || part = lit ".." || part = lit ".git") &&
    rules.safePath path

section

variable (docs : List JournalDocument)

def visibleDocument (id : Text) (access : MemoryAccess) : Option JournalDocument :=
  (docs.find? fun doc => doc.id = id).filter fun doc => canAccess doc.current.scopeKey access

def findByPath (scope : DocumentScope) (path : Text) : Option JournalDocument :=
  docs.find? fun doc => doc.current.path = path && scopeKey doc.current.scopeKey = scopeKey scope

def commitTarget (input : DocumentCommit) (access : MemoryAccess) :
    Except MemoryRefusal (Option JournalDocument) :=
  match present input.id with
  | none => .ok (findByPath docs input.scopeKey input.path)
  | some id =>
    match visibleDocument docs id access with
    | none => .error .access
    | some doc => .ok (some doc)

end

def isStale (current : Option DocumentRevision) (input : DocumentCommit) : Bool :=
  (current.elim 0 fun current => (current.revision : ℤ)) ≠ input.expectedRevision ||
    current.any fun current => scopeKey current.scopeKey ≠ scopeKey input.scopeKey || current.path ≠ input.path

def nextRevision (id createdAt : Text) (current : Option DocumentRevision) (input : DocumentCommit) :
    DocumentRevision where
  kind := some ((input.kind.or (current.bind DocumentRevision.kind)).getD .topic)
  documentId := id
  revision := (current.elim 0 DocumentRevision.revision) + 1
  scopeKey := input.scopeKey
  path := input.path
  content := if input.deleted then [] else input.content
  author := input.author
  learning := input.learning
  imported := input.imported.or (current.bind DocumentRevision.imported)
  model := input.model
  runId := input.runId
  threadId := input.threadId
  references := input.references.getD []
  createdAt
  deletedAt := if input.deleted then some createdAt else none
  commitId := none

def JournalDocument.push (doc : JournalDocument) (revision : DocumentRevision) (delivery : DocumentDelivery) :
    JournalDocument where
  id := doc.id
  revisions := doc.revisions ++ [revision]
  delivery
  nonempty := List.append_ne_nil_of_right_ne_nil _ (List.cons_ne_nil _ _)

def newDocument (id : Text) (revision : DocumentRevision) (delivery : DocumentDelivery) :
    JournalDocument where
  id
  revisions := [revision]
  delivery
  nonempty := List.cons_ne_nil _ _

/-- The revision is pushed to its document, or to a new one. -/
def pushRevision (docs : List JournalDocument) (doc : Option JournalDocument)
    (revision : DocumentRevision) (delivery : DocumentDelivery) : List JournalDocument :=
  match doc with
  | none => docs ++ [newDocument revision.documentId revision delivery]
  | some doc => docs.map fun other => if other.id = doc.id then other.push revision delivery else other

/-- A write's result, and the documents as it leaves them. -/
abbrev Written := List JournalDocument × Except MemoryRefusal Unit

section

variable (docs : List JournalDocument) (input : DocumentCommit) (createdAt : Text)
  (access : MemoryAccess)

def append : Written :=
  match commitTarget docs input access with
  | .error refusal => (docs, .error refusal)
  | .ok doc =>
    let current := doc.map JournalDocument.current
    if isStale current input then (docs, .error .conflict)
    else
      let id := doc.elim (rules.randomUUID (docs.map JournalDocument.id)) JournalDocument.id
      let revision := nextRevision id createdAt current input
      if !isRevision rules revision then (docs, .error .schema)
      else if !rules.safeRevision revision access.knownSecrets then (docs, .error .redaction)
      else (pushRevision docs doc revision input.delivery, .ok ())

def commit : Written :=
  if !input.scopeKey.isValid then (docs, .error .schema)
  else if !canAccess input.scopeKey access then (docs, .error .access)
  else if input.scopeKey.kind = .group && input.content.length > 6000 then (docs, .error .briefSize)
  else if !isMemoryPath rules input.path then (docs, .error .path)
  else if !rules.safeCommit input access.knownSecrets then (docs, .error .redaction)
  else append rules docs input createdAt access

end

/-- A revision that is written once more, with an attribution spread over it. -/
def recommit (base : DocumentRevision) (attribution : Attribution) (id : Text)
    (expectedRevision : ℤ) (deleted : Bool) :
    DocumentCommit where
  kind := attribution.kind.over base.kind
  id := some id
  scopeKey := base.scopeKey
  path := base.path
  content := base.content
  expectedRevision
  references := attribution.references.over (some base.references)
  author := attribution.author
  learning := attribution.learning.over base.learning
  imported := attribution.imported.over base.imported
  model := attribution.model.over base.model
  runId := attribution.runId.over base.runId
  threadId := attribution.threadId.over base.threadId
  delivery := attribution.delivery
  deleted

section

variable (docs : List JournalDocument) (id : Text)

def delete (expectedRevision : ℤ) (attribution : Attribution) (createdAt : Text)
    (access : MemoryAccess) : Written :=
  match visibleDocument docs id access with
  | none => (docs, .error .access)
  | some doc => append rules docs (recommit doc.current attribution id expectedRevision true) createdAt access

def restore (revision : ℕ) (expectedRevision : ℤ) (attribution : Attribution)
    (createdAt : Text) (access : MemoryAccess) : Written :=
  match visibleDocument docs id access with
  | none => (docs, .error .access)
  | some doc =>
    match doc.revisions.find? fun entry => entry.revision = revision && entry.deletedAt.isNone with
    | none => (docs, .error .access)
    | some previous =>
      if !rules.safeRevision previous access.knownSecrets then (docs, .error .redaction)
      else append rules docs (recommit previous attribution id expectedRevision false) createdAt access

def setDelivery (revision : ℕ) (delivery : DocumentDelivery) (access : MemoryAccess) : Written :=
  match visibleDocument docs id access with
  | none => (docs, .error .access)
  | some doc =>
    if doc.current.revision = revision && doc.delivery.generation = delivery.generation then
      (docs.map fun other => if other.id = doc.id then { other with delivery } else other, .ok ())
    else (docs, .ok ())

end

/-- What a revision is without its commit id. -/
def DocumentRevision.body (revision : DocumentRevision) : DocumentRevision :=
  { revision with commitId := none }

def samePortableRevision (a b : DocumentRevision) : Bool :=
  a.body = b.body && ((present a.commitId).isNone || (present b.commitId).isNone || a.commitId = b.commitId)

/-- A revision follows the one before it, if there is one. -/
def isNextIn (doc : BundleDocument) (first : DocumentRevision) (index : ℕ)
    (revision : DocumentRevision) : Bool :=
  revision.documentId = doc.id && revision.revision = index + 1 && scopeKey revision.scopeKey =
    scopeKey first.scopeKey &&
    revision.path = first.path &&
    (index = 0 || (doc.revisions[index - 1]?).all fun previous => previous.createdAt ≤ revision.createdAt)

def isHistory (doc : BundleDocument) : Bool :=
  match doc.revisions with
  | [] => false
  | first :: _ =>
    doc.revisions.zipIdx.all fun (revision, index) => isMemoryPath rules revision.path &&
      isNextIn doc first index revision

/-- The key and path of a document's first revision. -/
def BundleDocument.place (doc : BundleDocument) : Option (Text × Text) :=
  doc.revisions.head?.map fun first => (scopeKey first.scopeKey, first.path)

/-- `parseBundle` -/
def isReadable (bundle : MemoryBundle) : Bool :=
  bundle.documents.length ≤ 10000 && rules.bundleLength bundle ≤ 20000000 && rules.safeBundle bundle &&
    isBundle rules bundle && (bundle.documents.map BundleDocument.id).Nodup &&
    (bundle.documents.map BundleDocument.place).Nodup && bundle.documents.all (isHistory rules)

def JournalDocument.place (doc : JournalDocument) : Text × Text :=
  (scopeKey doc.current.scopeKey, doc.current.path)

/-- The key and path of a document's last revision. -/
def BundleDocument.headPlace (doc : BundleDocument) : Option (Text × Text) :=
  doc.revisions.getLast?.map fun head => (scopeKey head.scopeKey, head.path)

def isExtendedBy (revisions later : List DocumentRevision) : Bool :=
  revisions.length ≤ later.length && (revisions.zip later).all fun (a, b) => samePortableRevision a b

/-- A document of the bundle that another of the journal is in the way of. -/
def conflicts (docs : List JournalDocument) (doc : BundleDocument) : Bool :=
  docs.any fun other =>
    (other.id = doc.id || some other.place = doc.headPlace) &&
      !(other.id = doc.id && isExtendedBy other.revisions doc.revisions)

/-- One round of the loop of `importBundle`; a document has a revision, by the schema of a
bundle. -/
def importDocument (delivery : DocumentDelivery) (docs : List JournalDocument) (doc : BundleDocument) :
    List JournalDocument :=
  if hne : doc.revisions ≠ [] then
    if docs.any fun other => other.id = doc.id then
      docs.map fun other =>
        if other.id = doc.id then { other with revisions := doc.revisions, delivery, nonempty := hne } else other
    else docs ++ [{ id := doc.id, revisions := doc.revisions, delivery, nonempty := hne }]
  else docs

def importBundle (docs : List JournalDocument) (bundle : MemoryBundle) (delivery : DocumentDelivery)
    (access : MemoryAccess) : Written :=
  if !isReadable rules bundle then (docs, .error .bundle)
  else if !(bundle.documents.all fun doc => doc.revisions.all fun revision =>
    canAccess revision.scopeKey access) then
    (docs, .error .access)
  else if bundle.documents.any (conflicts docs) then (docs, .error .conflict)
  else (bundle.documents.foldl (importDocument delivery) docs, .ok ())

inductive JournalOp where
  | commit (input : DocumentCommit) (createdAt : Text) (access : MemoryAccess)
  | delete (id : Text) (expectedRevision : ℤ) (attribution : Attribution) (createdAt : Text)
    (access : MemoryAccess)
  | restore (id : Text) (revision : ℕ) (expectedRevision : ℤ) (attribution : Attribution) (createdAt : Text)
      (access : MemoryAccess)
  | importBundle (bundle : MemoryBundle) (delivery : DocumentDelivery) (access : MemoryAccess)
  | setDelivery (id : Text) (revision : ℕ) (delivery : DocumentDelivery) (access : MemoryAccess)

def JournalOp.write (docs : List JournalDocument) : JournalOp → Written
  | commit input createdAt access => Memory.commit rules docs input createdAt access
  | delete id expectedRevision attribution createdAt access =>
    Memory.delete rules docs id expectedRevision attribution createdAt access
  | restore id revision expectedRevision attribution createdAt access =>
    Memory.restore rules docs id revision expectedRevision attribution createdAt access
  | importBundle bundle delivery access => Memory.importBundle rules docs bundle delivery access
  | setDelivery id revision delivery access => Memory.setDelivery docs id revision delivery access

def JournalOp.apply (docs : List JournalDocument) (op : JournalOp) : List JournalDocument :=
  (op.write rules docs).1

end

end ArdurBot.Memory
