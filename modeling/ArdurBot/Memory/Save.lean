import ArdurBot.Memory.WritesOk

/-!
# Saving memory

`MemoryService.save` and what it calls of `packages/memory/src/service.ts`, over the journal's
store. Each call of the service is one transaction, in a session of its own, and others write
between them. A session may not open, or refuse what is asked in it, and a store may report a
conflict of its own; nothing is written then. A store may also throw after it has kept what was
written: the vault of `packages/adapters/src/memory/obsidian-store.ts` writes its journal before its
notes. What is recorded beside the documents is what was read, added and answered, the newest first.
-/

namespace ArdurBot.Memory

open Utf16

/-- What every session of an operation has in common. -/
structure MemoryOperationContext where
  spaceId : Text
  userId : Text
  botId : Option Text
  runId : Option Text
  groupId : Option Text
  knownSecrets : List Text
  learning : Option Provenance
  imported : Option Provenance
  memoryModel : Option MemoryModel
  threadId : Option Text
  memoryGeneration : Option ℕ

structure MemorySession where
  botIds : List Text
  groupIds : List Text
  generation : ℕ
  /-- The provider of semantic memory. -/
  semantic : Option Text

inductive SaveError where
  | conflict
  | other
deriving DecidableEq

inductive Call where
  /-- The store may still throw, with what the call has written kept. -/
  | opens (session : MemorySession) (thrown : Option SaveError)
  | refuses
  | conflicts

def Call.thrown : Call → Option SaveError
  | .opens _ thrown => thrown
  | _ => none

def MemoryOperationContext.access (context : MemoryOperationContext) (session : MemorySession) :
    MemoryAccess where
  spaceId := context.spaceId
  userId := context.userId
  botId := context.botId
  runId := context.runId
  botIds := session.botIds
  groupIds := session.groupIds
  groupId := context.groupId
  knownSecrets := context.knownSecrets

def ownedScope (kind : ScopeKind) (access : MemoryAccess) (botId groupId : Option Text) :
    Option DocumentScope :=
  let owner := ((botId.or access.botId).getD [])
  let scope : DocumentScope :=
    match kind with
    | .group => .group access.spaceId access.userId owner ((groupId.or access.groupId).getD direct)
    | .spaceShared => .spaceShared access.spaceId
    | .user => .user access.spaceId access.userId
    | .bot => .bot access.spaceId access.userId owner
  if scope.isValid && canAccess scope access then some scope else none

structure SaveInput where
  scope : ScopeKind
  botId : Option Text
  groupId : Option Text
  path : Text
  content : Text
  references : Option (List Text)
  expectedRevision : Option ℤ
deriving DecidableEq

/-- What is safe to save, to export and to show. -/
structure SaveRules extends MemoryRules where
  safeInput : SaveInput → Option Text → List Text → Bool
  safeHistory : Text → List DocumentRevision → List Text → Bool
  safeHead : HeadCheck

/-- The access and the scope of a call in its session. -/
def openSession (context : MemoryOperationContext) (session : MemorySession) (input : SaveInput) :
    Option (MemoryAccess × DocumentScope) :=
  if context.memoryGeneration.all fun generation => generation = session.generation then
    let access := context.access session
    (ownedScope input.scope access input.botId input.groupId).map fun scope => (access, scope)
  else none

section

variable (rules : SaveRules)

/-- The revision that a save is based on: the one it names, or the last. -/
def readBase (docs : List JournalDocument) (access : MemoryAccess)
    (scope : DocumentScope) (path : Text) (revision : Option ℤ) : Option DocumentRevision :=
  let bundle := docs.filter fun doc =>
    canAccess doc.current.scopeKey access && rules.safeHistory doc.id doc.revisions access.knownSecrets
  (bundle.find? fun doc => doc.current.path = path && doc.current.scopeKey = scope).bind fun doc =>
    match revision with
    | none => some doc.current
    | some revision => doc.revisions.find? fun value => (value.revision : ℤ) = revision

/-- `attribution`, with the commit it is spread over. -/
def documentCommit (context : MemoryOperationContext) (session : MemorySession)
    (access : MemoryAccess) (scope : DocumentScope)
    (input : SaveInput) (id : Option Text) (content : Text) (expectedRevision : ℤ) : DocumentCommit where
  kind := none
  id
  scopeKey := scope
  path := input.path
  content
  expectedRevision
  references := input.references
  author :=
    { kind := if context.learning.isSome then .learningLoop else if (present access.runId).isSome then .bot else .user
      userId := some access.userId
      botId := present access.botId }
  learning := context.learning
  imported := context.imported
  model := context.memoryModel
  runId := access.runId
  threadId := context.threadId
  delivery :=
    if input.scope = .group then ⟨.delivered, session.generation, none, none, none⟩
    else ⟨if session.semantic.isSome then .pending else .delivered, session.generation, session.semantic, none, none⟩
  deleted := false

/-- `MemoryService.commit` -/
def serviceCommit (docs : List JournalDocument) (context : MemoryOperationContext) (call : Call)
    (input : SaveInput)
    (id : Option Text) (content : Text) (expectedRevision : ℤ) (createdAt : Text) :
    List JournalDocument × Except SaveError Unit :=
  if rules.safeInput
      { input with content, expectedRevision := some expectedRevision } id context.knownSecrets then
    match call with
    | .refuses => (docs, .error .other)
    | .conflicts => (docs, .error .conflict)
    | .opens session thrown =>
      match openSession context session input with
      | none => (docs, .error .other)
      | some (access, scope) =>
        match commit rules.toMemoryRules docs
          (documentCommit context session access scope input id content expectedRevision)
            createdAt access with
        | (docs, .ok ()) => (docs, thrown.elim (.ok ()) .error)
        | (docs, .error .conflict) => (docs, .error .conflict)
        | (docs, .error _) => (docs, .error .other)
  else (docs, .error .other)

/-- What the saver's content adds to its base. -/
def addition (base : Option DocumentRevision) (content : Text) : Text :=
  match base with
  | none => content
  | some base => if base.content.isPrefixOf content then trim (content.drop base.content.length) else content

def blankLine : Text := [unit '\n', unit '\n']

inductive Phase where
  | idle
  | based (input : SaveInput) (context : MemoryOperationContext) (base : Option DocumentRevision)
  | conflicted (input : SaveInput) (context : MemoryOperationContext) (base : Option DocumentRevision)
  | reread (input : SaveInput) (context : MemoryOperationContext) (base : Option DocumentRevision) (id : Text)
  | merging (input : SaveInput) (context : MemoryOperationContext) (base : Option DocumentRevision)
    (latest : MemoryDocumentHead)
  | done

inductive Event where
  | read (save : ℕ) (input : SaveInput) (base : Option DocumentRevision)
  | added (save : Option ℕ) (revision : DocumentRevision)
  /-- The store threw after it kept what the save added. -/
  | failed (save : ℕ)
  | saved (save : ℕ)
  | threw (save : ℕ)
deriving DecidableEq

structure SaveState where
  docs : List JournalDocument
  saves : ℕ → Phase
  log : List Event

def SaveState.init (docs : List JournalDocument) : SaveState := ⟨docs, fun _ => .idle, []⟩

def historyOf (docs : List JournalDocument) (id : Text) : List DocumentRevision :=
  (docs.find? fun doc => doc.id = id).elim [] JournalDocument.revisions

def addedRevision (docs later : List JournalDocument) : Option DocumentRevision :=
  (later.find? fun doc => historyOf docs doc.id ≠ doc.revisions).map JournalDocument.current

namespace SaveState

section

variable (s : SaveState)

def write (save : Option ℕ) (docs : List JournalDocument) : SaveState :=
  { s with docs, log := (addedRevision s.docs docs).elim s.log fun revision => .added save revision :: s.log }

/-- What a commit of the save has written, and whether the store threw all the same. -/
def keep (save : ℕ) (docs : List JournalDocument) (result : Except SaveError Unit) : SaveState :=
  let s' := s.write (some save) docs
  match addedRevision s.docs docs, result with
  | some _, .error _ => { s' with log := .failed save :: s'.log }
  | _, _ => s'

def goTo (save : ℕ) (phase : Phase) : SaveState :=
  { s with saves := Function.update s.saves save phase }

def throws (save : ℕ) : SaveState := { s.goTo save .done with log := .threw save :: s.log }

/-- `save`, until its base is read. -/
def save (save : ℕ) (input : SaveInput) (context : MemoryOperationContext) (call : Call) : SaveState :=
  if rules.safeInput input none context.knownSecrets then
    match call with
    | .opens session none =>
      match openSession context session input with
      | none => s.throws save
      | some (access, scope) =>
        let base := readBase rules s.docs access scope input.path input.expectedRevision
        { s.goTo save (.based input context base) with log := .read save input base :: s.log }
    | _ => s.throws save
  else s.throws save

def commitBase (save : ℕ) (input : SaveInput) (context : MemoryOperationContext)
    (base : Option DocumentRevision) (call : Call) (createdAt : Text) : SaveState :=
  let expectedRevision := input.expectedRevision.getD (base.elim 0 fun base => (base.revision : ℤ))
  let (docs, result) :=
    serviceCommit rules s.docs context call input (base.map DocumentRevision.documentId)
      input.content expectedRevision createdAt
  let s := s.keep save docs result
  match result with
  | .ok () => { s.goTo save .done with log := .saved save :: s.log }
  | .error .conflict => if (present context.runId).isSome then
    s.goTo save (.conflicted input context base) else s.throws save
  | .error .other => s.throws save

/-- `readBase()`, after a conflict. -/
def readAgain (save : ℕ) (input : SaveInput) (context : MemoryOperationContext)
    (base : Option DocumentRevision) (call : Call) : SaveState :=
  match call with
  | .opens session none =>
    match openSession context session input with
    | none => s.throws save
    | some (access, scope) =>
      match readBase rules s.docs access scope input.path none with
      | none => s.throws save
      | some latest => s.goTo save (.reread input context base latest.documentId)
  | _ => s.throws save

/-- `MemoryService.read` of the latest. -/
def readLatest (save : ℕ) (input : SaveInput) (context : MemoryOperationContext)
    (base : Option DocumentRevision) (id : Text) (call : Call) : SaveState :=
  match call with
  | .opens session none =>
    if context.memoryGeneration.all fun generation => generation = session.generation then
      match JournalDocumentStore.read rules.safeHead s.docs id (context.access session) with
      | none => s.throws save
      | some latest => if latest.deletedAt.isSome then s.throws save
        else s.goTo save (.merging input context base latest)
    else s.throws save
  | _ => s.throws save

def commitMerged (save : ℕ) (input : SaveInput) (context : MemoryOperationContext)
    (base : Option DocumentRevision)
    (latest : MemoryDocumentHead) (call : Call) (createdAt : Text) : SaveState :=
  let content := latest.content ++ blankLine ++ addition base input.content
  let (docs, result) :=
    serviceCommit rules s.docs context call input (some latest.id) content latest.revision createdAt
  let s := s.keep save docs result
  match result with
  | .ok () => { s.goTo save .done with log := .saved save :: s.log }
  | .error _ => s.throws save

end

end SaveState

/-- What `ObsidianJournal.reconcile` adds for a note that its owner edited in the folder, or removed
from it. -/
def reconciled (ownerUserId : Text) (note : Option (Text × List Text)) (createdAt : Text)
    (head : DocumentRevision) :
    DocumentRevision :=
  let edited :=
    { head with
      revision := head.revision + 1, createdAt, model := none, runId := none, threadId := none
      author := { kind := .user, userId := some ownerUserId, botId := none } }
  match note with
  | none => { edited with content := [], deletedAt := some createdAt }
  | some (content, references) => { edited with content, references }

def reconcile (docs : List JournalDocument) (id ownerUserId : Text)
    (note : Option (Text × List Text)) (createdAt : Text) :
    List JournalDocument :=
  match docs.find? fun doc => doc.id = id with
  | none => docs
  | some doc =>
    if doc.current.deletedAt.isSome then docs
    else
      let delivery := if doc.delivery.provider.isSome then { doc.delivery with status := .pending } else doc.delivery
      pushRevision docs doc (reconciled ownerUserId note createdAt doc.current) delivery

inductive SaveOp where
  | commit (input : DocumentCommit) (createdAt : Text) (access : MemoryAccess)
  | delete (id : Text) (expectedRevision : ℤ) (attribution : Attribution) (createdAt : Text)
    (access : MemoryAccess)
  | restore (id : Text) (revision : ℕ) (expectedRevision : ℤ) (attribution : Attribution)
    (createdAt : Text) (access : MemoryAccess)
  | reconcile (id ownerUserId : Text) (note : Option (Text × List Text)) (createdAt : Text)
  | save (save : ℕ) (input : SaveInput) (context : MemoryOperationContext) (call : Call)
  /-- The next call of a save. -/
  | goOn (save : ℕ) (call : Call) (createdAt : Text)

def saveStep (s : SaveState) : SaveOp → SaveState
  | .commit input createdAt access =>
    s.write none (commit rules.toMemoryRules s.docs input createdAt access).1
  | .delete id expectedRevision attribution createdAt access =>
    s.write none (delete rules.toMemoryRules s.docs id expectedRevision attribution createdAt access).1
  | .restore id revision expectedRevision attribution createdAt access =>
    s.write none (restore rules.toMemoryRules s.docs id revision expectedRevision attribution createdAt access).1
  | .reconcile id ownerUserId note createdAt => s.write none (reconcile s.docs id ownerUserId note createdAt)
  | .save save input context call =>
    match s.saves save with
    | .idle => s.save rules save input context call
    | _ => s
  | .goOn save call createdAt =>
    match s.saves save with
    | .based input context base => s.commitBase rules save input context base call createdAt
    | .conflicted input context base => s.readAgain rules save input context base call
    | .reread input context base id => s.readLatest rules save input context base id call
    | .merging input context base latest => s.commitMerged rules save input context base latest call createdAt
    | _ => s

def saveAfter (docs : List JournalDocument) (ops : List SaveOp) : SaveState :=
  Run.after (saveStep rules) (SaveState.init docs) ops

end

end ArdurBot.Memory
