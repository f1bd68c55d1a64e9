import ArdurBot.Lib.Run
import ArdurBot.Memory.Documents

/-!
# The recall index

`MemoryRecallIndex` of `packages/memory/src/node/recall-index.ts`, for one space, with the builds of
`packages/adapters/src/context/recall.ts`. A step is what runs without an `await`: a build announces
a slice, reads the store, asks for the database, and loads what it read when the database is there.
Between any two of them others go on, the entry of the space may be replaced, and a build that
already has an entry loads into that one.

Which scopes a slice covers is left to the store. The store commits a revision before the index is
given it.
-/

namespace ArdurBot.Recall

open Utf16 Memory

inductive RecallIndexScope where
  | bot
  | user
  | shared
deriving DecidableEq

structure RecallIndexDocument where
  id : Text
  path : Text
  content : Text
  revision : ℕ
  scope : RecallIndexScope
  owner : Text
deriving DecidableEq

/-- `/^(?:skills|preferences)\//u` -/
def isExcluded (path : Text) : Bool :=
  (lit "skills/").isPrefixOf path || (lit "preferences/").isPrefixOf path

def RecallIndexScope.text : RecallIndexScope → Text
  | bot => lit "bot"
  | user => lit "user"
  | shared => lit "shared"

def recallPartition (scope : RecallIndexScope) (owner : Text) : Text :=
  jsonKey [scope.text, if scope = .shared then [] else owner]

def recallScope : DocumentScope → Option (RecallIndexScope × Text)
  | .group _ _ _ _ => none
  | .bot _ _ botId => some (.bot, botId)
  | .user _ userId => some (.user, userId)
  | .spaceShared _ => some (.shared, [])

section

variable (document : MemoryDocumentHead)

def readDocument : Option RecallIndexDocument :=
  (recallScope document.scopeKey).map fun (scope, owner) =>
    { document with scope, owner }

def indexableDocument : Option RecallIndexDocument :=
  if isExcluded document.path then none else readDocument document

/-- What `applyWrite` writes. -/
def writtenDocument : Option RecallIndexDocument :=
  if document.deletedAt.isSome then none else indexableDocument document

end

/-- The database of an entry, if it was opened. -/
inductive Database where
  | unopened
  | opened
  | closed
deriving DecidableEq

/-- A write that waits for the builds, with the revision it is of. -/
structure Write where
  id : Text
  document : Option RecallIndexDocument
  revision : ℕ

/-- A space's entry. A row is in one of the database's tables, of which each partition has one.
Beside what the program keeps, `ended` counts how often a slice was taken from those that build. -/
structure SpaceEntry where
  db : Database
  failed : Bool
  opening : Bool
  building : List Text
  slices : List Text
  pending : List Write
  partitions : List Text
  documentPartitions : Text → Option ℕ
  rows : List (ℕ × RecallIndexDocument)
  ended : Text → ℕ

def newEntry : SpaceEntry :=
  ⟨.unopened, false, false, [], [], [], [], fun _ => none, [], fun _ => 0⟩

namespace SpaceEntry

section

variable (entry : SpaceEntry)

/-- `DELETE FROM table WHERE id = ?` -/
def deleteRow (id : Text) : SpaceEntry :=
  match entry.documentPartitions id with
  | none => entry
  | some table => { entry with rows := entry.rows.filter fun row => !(row.1 = table && row.2.id = id) }

def replace (id : Text) (document : Option RecallIndexDocument) : SpaceEntry :=
  let deleted := entry.deleteRow id
  match document with
  | none => { deleted with documentPartitions := Function.update entry.documentPartitions id none }
  | some document =>
    let partition := recallPartition document.scope document.owner
    let table := entry.partitions.idxOf partition
    { deleted with
      partitions := if partition ∈ entry.partitions then entry.partitions else entry.partitions ++ [partition]
      rows := (table, document) :: deleted.rows
      documentPartitions := Function.update entry.documentPartitions id (some table) }

/-- A `replace` of which a statement throws: the first, or one after the row was deleted. -/
def replaceFailing (id : Text) (deletes : Bool) : SpaceEntry :=
  if deletes then entry.replace id none else entry

def held (id : Text) : List RecallIndexDocument :=
  (entry.rows.filter fun row => row.2.id = id).map Prod.snd

def announce (sliceKey : Text) : SpaceEntry :=
  { entry with building := if sliceKey ∈ entry.building then entry.building
    else entry.building ++ [sliceKey] }

/-- A build of the slice is over. What waits is dropped with the last. -/
def finish (sliceKey : Text) : SpaceEntry :=
  let building := entry.building.filter (· ≠ sliceKey)
  { entry with
    building
    pending := if building = [] then [] else entry.pending
    ended := Function.update entry.ended sliceKey (entry.ended sliceKey + 1) }

end

def loadable (document : RecallIndexDocument) : Bool :=
  document.id ≠ [] && !isExcluded document.path

def load (entry : SpaceEntry) (sliceKey : Text) (documents : List RecallIndexDocument) : SpaceEntry :=
  let loaded := (documents.filter loadable).foldl (fun entry document =>
      entry.replace document.id (some document)) entry
  let sliced := { loaded with slices := if sliceKey ∈ loaded.slices then loaded.slices
      else loaded.slices ++ [sliceKey] }
  entry.pending.foldl (fun entry write => entry.replace write.id write.document) sliced

end SpaceEntry

section

variable (heads : List MemoryDocumentHead)
include heads

/-- The newest revision of a document; the heads are all that were committed, the newest first. -/
def newest (id : Text) : Option MemoryDocumentHead := heads.find? fun head => head.id = id

def newestRevision (id : Text) : ℕ := (newest heads id).elim 0 fun head => head.revision

/-- The row that a revision of a document has. -/
def rowAt (id : Text) (revision : ℕ) : Option RecallIndexDocument :=
  (heads.find? fun head => head.id = id && head.revision = revision).bind writtenDocument

/-- A revision follows the newest, in the same scope and at the same path. -/
def follows (head : MemoryDocumentHead) : Bool :=
  head.id ≠ [] && head.revision = newestRevision heads head.id + 1 &&
    (newest heads head.id).all fun current => scopeKey current.scopeKey = scopeKey head.scopeKey &&
      current.path = head.path

end

/-- What a build of the slice reads: the documents that are not deleted. -/
def snapshot (covers : Text → Text → Bool) (heads : List MemoryDocumentHead) (sliceKey : Text) :
    List RecallIndexDocument :=
  (heads.filter fun head => newest heads head.id = some head && head.deletedAt.isNone &&
    covers sliceKey (scopeKey head.scopeKey)).filterMap
    readDocument

/-- A build's announcement: the entry it was made on and how many of the slice had ended there. -/
abbrev Announcement := Option (ℕ × ℕ)

/-- Where a build is. What it read is what the store had then. -/
inductive Build where
  | idle
  | begun (sliceKey : Text) (announced : Announcement)
  | read (sliceKey : Text) (announced : Announcement) (heads : List MemoryDocumentHead)
  | indexing (sliceKey : Text) (announced : Announcement) (heads : List MemoryDocumentHead) (entry : ℕ)

/-- Beside the index, what of each document it was given and what a build loaded of it. -/
structure State where
  available : Bool
  disabled : Bool
  watermark : Option Text
  entries : ℕ → SpaceEntry
  count : ℕ
  current : Option ℕ
  heads : List MemoryDocumentHead
  builds : ℕ → Build
  given : Text → ℕ
  loaded : Text → ℕ

/-- No loader that is not `available` gives a database. -/
def State.init (available : Bool) : State :=
  ⟨available, false, none, fun _ => newEntry, 0, none, [], fun _ => .idle, fun _ => 0, fun _ => 0⟩

namespace State

section

variable (s : State)

def setEntry (ref : ℕ) (entry : SpaceEntry) : State :=
  { s with entries := Function.update s.entries ref entry }

def setBuild (caller : ℕ) (build : Build) : State :=
  { s with builds := Function.update s.builds caller build }

/-- The entry of the space, a new one if there is none. -/
def withEntry : State × ℕ :=
  match s.current with
  | some ref => (s, ref)
  | none => ({ s.setEntry s.count newEntry with count := s.count + 1, current := some s.count }, s.count)

def invalidate : State :=
  match s.current with
  | none => { s with watermark := none }
  | some ref =>
    let entry := s.entries ref
    { s.setEntry ref { entry with db := if entry.db = .opened then .closed else entry.db } with
      current := none, watermark := none }

def synchronize (revision : Option Text) : State :=
  if revision.isSome && s.watermark = revision then s else { s.invalidate with watermark := revision }

def beginSlice (caller : ℕ) (sliceKey : Text) : State :=
  if s.disabled then s.setBuild caller (.begun sliceKey none)
  else
    let (s, ref) := s.withEntry
    let entry := s.entries ref
    if entry.failed || sliceKey ∈ entry.slices then s.setBuild caller (.begun sliceKey none)
    else (s.setEntry ref (entry.announce sliceKey)).setBuild caller
      (.begun sliceKey (some (ref, entry.ended sliceKey)))

def abortSlice (sliceKey : Text) : State :=
  match s.current with
  | none => s
  | some ref =>
    let entry := (s.entries ref).finish sliceKey
    let s := s.setEntry ref entry
    if entry.db = .unopened && !entry.opening && entry.building = [] && entry.slices = [] then
      { s with current := none } else s

/-- `database`, until the database is there. -/
def openEntry (ref : ℕ) : State :=
  let entry := s.entries ref
  if entry.db = .unopened && !entry.failed then s.setEntry ref { entry with opening := true } else s

/-- The rest of `database`, with what the constructor gave. -/
def opened (ref : ℕ) (opens : Bool) : State :=
  let entry := s.entries ref
  if entry.db = .unopened && !entry.failed then
    if s.available && opens then s.setEntry ref { entry with db := .opened }
    else { s.setEntry ref { entry with failed := true, opening := false }
      with disabled := s.disabled || !s.available }
  else s

/-- `indexSlice`, until the database is there. -/
def indexSlice (caller : ℕ) (sliceKey : Text) (announced : Announcement)
    (heads : List MemoryDocumentHead) : State :=
  if s.disabled then s.setBuild caller .idle
  else
    let (s, ref) := s.withEntry
    let entry := (s.entries ref).announce sliceKey
    if sliceKey ∈ entry.slices then (s.setEntry ref (entry.finish sliceKey)).setBuild caller .idle
    else ((s.setEntry ref entry).openEntry ref).setBuild caller (.indexing sliceKey announced heads ref)

end

/-- The newest revisions of documents that were loaded. -/
def loadedAfter (loaded : Text → ℕ) (documents : List RecallIndexDocument) : Text → ℕ :=
  documents.foldl (fun loaded document =>
    Function.update loaded document.id (max (loaded document.id) document.revision)) loaded

/-- The rest of `indexSlice`. A load that fails leaves the space without an entry. -/
def finishIndex (covers : Text → Text → Bool) (s : State) (caller : ℕ) (sliceKey : Text)
    (heads : List MemoryDocumentHead) (ref : ℕ) (opens fails : Bool) : State :=
  let s := (s.opened ref opens).setBuild caller .idle
  let entry := s.entries ref
  match entry.db with
  | .unopened => s.setEntry ref ({ entry with pending := [] }.finish sliceKey)
  | .closed => { s.setEntry ref ({ entry with failed := true }.finish sliceKey) with current := none }
  | .opened =>
    if fails then { s.setEntry ref ({ entry with failed := true }.finish sliceKey) with current := none }
    else
      let documents := snapshot covers heads sliceKey
      { s.setEntry ref ((entry.load sliceKey documents).finish sliceKey) with
        loaded := if s.current = some ref then
          loadedAfter s.loaded (documents.filter SpaceEntry.loadable) else s.loaded }

/-- `applyWrite`, and `upsert` or `remove` of what was read again: the index is given a revision
that was committed. -/
def applyWrite (s : State) (document : MemoryDocumentHead) (fails : Option Bool) : State :=
  let row := writtenDocument document
  let given := { s with given := Function.update s.given document.id (max (s.given document.id) document.revision) }
  if s.disabled then given
  else
    match s.current with
    | none => given
    | some ref =>
      let entry := s.entries ref
      if entry.failed then given
      else if entry.building ≠ [] || (entry.db = .unopened && entry.opening) then
        given.setEntry ref { entry with pending := entry.pending ++ [⟨document.id, row, document.revision⟩] }
      else if entry.db = .unopened then given
      else
        match fails with
        | none => given.setEntry ref (entry.replace document.id row)
        | some deletes => given.setEntry ref (entry.replaceFailing document.id deletes)

/-- `query` opens the database of the entry. -/
def query (s : State) : State :=
  if s.disabled then s
  else
    match s.current with
    | none => s
    | some ref => s.openEntry ref

def entryOf (s : State) (id : Text) : List RecallIndexDocument :=
  match s.current with
  | none => []
  | some ref => (s.entries ref).held id

end State

inductive Op where
  | commit (head : MemoryDocumentHead)
  | applyWrite (head : MemoryDocumentHead) (fails : Option Bool)
  /-- A build that is announced or not. -/
  | begin (caller : ℕ) (sliceKey : Text) (announces : Bool)
  | read (caller : ℕ)
  | abort (caller : ℕ)
  | index (caller : ℕ)
  | load (caller : ℕ) (opens fails : Bool)
  | query
  | opened (ref : ℕ) (opens : Bool)
  | synchronize (revision : Option Text)
  | invalidate

variable (covers : Text → Text → Bool)

def step (s : State) : Op → State
  | .commit head => if follows s.heads head then { s with heads := head :: s.heads } else s
  | .applyWrite head fails => if head ∈ s.heads then s.applyWrite head fails else s
  | .begin caller sliceKey announces =>
    match s.builds caller with
    | .idle => if announces then s.beginSlice caller sliceKey else s.setBuild caller (.begun sliceKey none)
    | _ => s
  | .read caller =>
    match s.builds caller with
    | .begun sliceKey announced => s.setBuild caller (.read sliceKey announced s.heads)
    | _ => s
  | .abort caller =>
    match s.builds caller with
    | .begun sliceKey _ => (s.abortSlice sliceKey).setBuild caller .idle
    | .read sliceKey _ _ => (s.abortSlice sliceKey).setBuild caller .idle
    | _ => s
  | .index caller =>
    match s.builds caller with
    | .read sliceKey announced heads => s.indexSlice caller sliceKey announced heads
    | _ => s
  | .load caller opens fails =>
    match s.builds caller with
    | .indexing sliceKey _ heads ref => s.finishIndex covers caller sliceKey heads ref opens fails
    | _ => s
  | .query => s.query
  | .opened ref opens => if (s.entries ref).opening then s.opened ref opens else s
  | .synchronize revision => s.synchronize revision
  | .invalidate => s.invalidate

def after (available : Bool) (ops : List Op) : State :=
  Run.after (step covers) (State.init available) ops

end ArdurBot.Recall
