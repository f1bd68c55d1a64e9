import ArdurBot.Lib.Run
import ArdurBot.Lib.Tree
import ArdurBot.Lib.Utf16

/-!
# The store of agent homes

`packages/adapters/src/home.ts`: the home of a bot is a directory. A commit copies a tree into a
staging directory, renames the home away and the staging directory in; every call first puts back a
home that an interrupted commit renamed away. Writers wait for each other, and readers wait for the
writers that were called before them. One step is one call of the file system. Homes that the store
writes have no links.
-/

namespace ArdurBot.Homes

open Utf16 Option

abbrev Path := List Text

/-- Directories and files; a file has an inode. -/
abbrev Dir := Tree Text ℕ

/-- Directories and files with their content. -/
abbrev Contents := Tree Text Text

/-- A bot's `dest` and `dest.previous`, and the content of inodes. -/
structure Disk where
  home : Option Dir := none
  previous : Option Dir := none
  data : List Text := []

section

variable (disk : Disk)

def Disk.content (inode : ℕ) : Text := disk.data.getD inode []

def Disk.contents (dir : Dir) : Contents := Tree.mapValues disk.content dir

/-- What is at a path of the home, when there is a home. -/
def Disk.find (path : Path) : Option (Option ℕ) := disk.home.bind fun dir => Tree.find dir path

/-- The home after `recoverInterruptedCommit`; a missing one is made empty. -/
def Disk.recovered : Dir := disk.home.getD (disk.previous.getD [])

/-- A rename onto the home succeeds when there is none, or an empty one. -/
def Disk.homeIsFree : Bool := disk.home.getD [] = []

def Disk.add (path : Path) (value : Option ℕ) : Disk :=
  { disk with home := disk.home.map fun dir => dir ++ [(path, value)] }

end

/-- The tree that is committed: what `copyDir` finds in the caller's directory. -/
structure Source where
  tree : Contents
  ok : tree.Ok

inductive Job
  | commit (src : Source)
  | writeFile (path : Path) (content : Text)
  | checkout
  | list (path : Path)
  /-- `readFile`, `exportHome` and `streamHome`. What they read is not followed. -/
  | read

/-- What `copyDir` still does of a home, for a path of it: the calls for a directory, for an entry
and for a file. -/
inductive Task
  | root
  | enter (path : Path)
  | readdir (path : Path)
  | resolve (path : Path)
  | stat (path : Path)
  | openFile (path : Path)
  | check (path : Path) (inode : ℕ)
  | readFile (path : Path) (inode : ℕ)
  deriving DecidableEq

inductive Phase
  | checkHome
  | checkPrevious
  | renameBack
  | mkdirHome
  | resolve (made : Path) (rest : List Text)
  | mkdir (made : Path) (rest : List Text)
  | copy (staged : Dir) (rest : Contents)
  | rmPrevious (staged : Dir)
  | checkAway (staged : Dir)
  | renameAway (staged : Dir)
  | renameIn (staged : Dir)
  | catchHome
  | catchPrevious
  | catchRename
  | rmReplaced
  | writeRevision
  | rmStaging (throws : Bool)
  | openFile
  | writeContent (inode : ℕ)
  | copyHome (tasks : List Task) (delivered : Contents)
  | done
  | threw
  deriving DecidableEq

/-- After `recoverInterruptedCommit`. -/
def Job.afterRecover : Job → Phase
  | .commit src => .copy [] src.tree
  | _ => .mkdirHome

/-- After `mkdir` of the home. -/
def Job.afterMkdir : Job → Phase
  | .writeFile path _ => .resolve [] path.dropLast
  | .checkout => .copyHome [.root] []
  | .list path => .resolve [] path
  | _ => .done

def Job.afterDirectories : Job → Phase
  | .writeFile _ _ => .openFile
  | _ => .done

/-- One entry of `rm` with `recursive`; the directory itself is the last. -/
def Disk.rmEntry (disk : Disk) : Disk :=
  match disk.previous with
  | some [] => { disk with previous := none }
  | some (entry :: dir) => { disk with previous := some (entry :: dir).dropLast }
  | none => disk

/-- One call of `copyDir` on the home, with what is left after it. What throws here rejects the
checkout. -/
def Disk.copyStep (disk : Disk) (tasks : List Task) (delivered : Contents) : Task → Phase
  | .root => if disk.home.isSome then .copyHome (.enter [] :: tasks) delivered else .threw
  | .enter path =>
    match disk.find path with
    | none => .copyHome tasks delivered
    | some _ => .copyHome (.readdir path :: tasks) delivered
  | .readdir path =>
    match disk.home, disk.find path with
    | some dir, some none => .copyHome ((Tree.children dir path).map .resolve ++ tasks) delivered
    | _, _ => .copyHome tasks delivered
  | .resolve path =>
    match disk.find path with
    | none => .copyHome tasks delivered
    | some _ => .copyHome (.stat path :: tasks) delivered
  | .stat path =>
    match disk.find path with
    | none => .threw
    | some none => .copyHome (.enter path :: tasks) delivered
    | some (some _) => .copyHome (.openFile path :: tasks) delivered
  | .openFile path =>
    match disk.find path with
    | some (some inode) => .copyHome (.check path inode :: tasks) delivered
    | _ => .threw
  | .check path inode =>
    -- the descriptor's path is in the home, wherever it was opened
    if (disk.home.getD []).any fun entry => entry.2 = some inode then
      .copyHome (.readFile path inode :: tasks) delivered
    else .threw
  | .readFile path inode => .copyHome tasks (delivered ++ [(path, some (disk.content inode))])

def Disk.call (disk : Disk) (job : Job) : Phase → Disk × Phase
  | .checkHome => (disk, if disk.home.isSome then job.afterRecover else .checkPrevious)
  | .checkPrevious => (disk, if disk.previous.isSome then .renameBack else job.afterRecover)
  | .renameBack =>
    if disk.previous.isSome && disk.homeIsFree then
      ({ disk with home := disk.previous, previous := none }, job.afterRecover)
    else (disk, .threw)
  | .mkdirHome => ({ disk with home := some (disk.home.getD []) }, job.afterMkdir)
  | .resolve _ [] => (disk, job.afterDirectories)
  | .resolve made (name :: rest) =>
    match disk.find (made ++ [name]) with
    | none => (disk, .mkdir made (name :: rest))
    | some none => (disk, .resolve (made ++ [name]) rest)
    | some (some _) => (disk, .threw)
  | .mkdir _ [] => (disk, .threw)
  | .mkdir made (name :: rest) =>
    if disk.find made = some none && disk.find (made ++ [name]) = none then
      (disk.add (made ++ [name]) none, .resolve (made ++ [name]) rest)
    else (disk, .threw)
  | .copy staged [] => (disk, .rmPrevious staged)
  | .copy staged ((path, none) :: rest) => (disk, .copy (staged ++ [(path, none)]) rest)
  | .copy staged ((path, some content) :: rest) =>
    ({ disk with data := disk.data ++ [content] }, .copy (staged ++ [(path, some disk.data.length)]) rest)
  | .rmPrevious staged => (disk.rmEntry, if disk.previous.isSome then .rmPrevious staged
    else .checkAway staged)
  | .checkAway staged => (disk, if disk.home.isSome then .renameAway staged else .renameIn staged)
  | .renameAway staged =>
    if disk.home.isSome && disk.previous.getD [] = [] then
      ({ disk with home := none, previous := disk.home }, .renameIn staged)
    else (disk, .rmStaging true)
  | .renameIn staged =>
    if disk.homeIsFree then ({ disk with home := some staged }, .rmReplaced) else (disk, .catchHome)
  | .catchHome => (disk, if disk.home.isSome then .rmStaging true else .catchPrevious)
  | .catchPrevious => (disk, if disk.previous.isSome then .catchRename else .rmStaging true)
  | .catchRename =>
    if disk.previous.isSome && disk.homeIsFree then
      ({ disk with home := disk.previous, previous := none }, .rmStaging true)
    else (disk, .rmStaging true)
  | .rmReplaced => (disk.rmEntry, if disk.previous.isSome then .rmReplaced else .writeRevision)
  | .writeRevision => (disk, .rmStaging false)
  | .rmStaging throws => (disk, if throws then .threw else .done)
  | .openFile =>
    match job with
    | .writeFile path _ =>
      match disk.find path, disk.find path.dropLast with
      | some (some inode), _ => ({ disk with data := disk.data.set inode [] }, .writeContent inode)
      | none, some none =>
        ({ disk.add path (some disk.data.length) with data := disk.data ++ [[]] }, .writeContent disk.data.length)
      | _, _ => (disk, .threw)
    | _ => (disk, .threw)
  | .writeContent inode =>
    match job with
    | .writeFile _ content => ({ disk with data := disk.data.set inode content }, .done)
    | _ => (disk, .threw)
  | .copyHome [] _ => (disk, .done)
  | .copyHome (task :: tasks) delivered => (disk, disk.copyStep tasks delivered task)
  | .done => (disk, .done)
  | .threw => (disk, .threw)

/-- A writer in the queue of `botWrites`, with its place. `begun` tells whether it made a call. -/
structure Writer where
  ticket : ℕ
  job : Job
  phase : Phase := .checkHome
  begun : Bool := false

/-- A reader: it waits for the writers with places below `bound`, and then has a next call. -/
structure Reader where
  bound : ℕ
  job : Job
  phase : Option Phase := none

def put (tree : Contents) (path : Path) (content : Text) : Contents :=
  tree.filter (fun entry => entry.1 ≠ path) ++ [(path, some content)]

/-- The version after a call: a commit's rename gives its tree, and `writeFile` writes to it. -/
def Job.newVersion (version : Contents) : Job → Phase → Phase → Contents
  | .commit src, .renameIn _, .rmReplaced => src.tree
  | .writeFile path _, .openFile, .writeContent _ => put version path []
  | .writeFile path content, .writeContent _, .done => put version path content
  | _, _, _ => version

/-- The store for one bot, in a process. `version` is the tree of the last commit with the writes
since, `versions` those up to now, `returned` what checkouts delivered, and `failed` tells whether a
commit threw; no code reads these four. -/
structure Store where
  disk : Disk := {}
  nextTicket : ℕ := 0
  writers : List Writer := []
  readers : List Reader := []
  version : Contents := []
  versions : List Contents := [[]]
  returned : List Contents := []
  failed : Bool := false

def newStore : Store := {}

def Phase.hasEnded : Phase → Bool
  | .done => true
  | .threw => true
  | _ => false

def Job.isCommit : Job → Bool
  | .commit _ => true
  | _ => false

/-- A call of the writer at the head of the queue. The next one begins when it has ended. -/
def Store.stepWriter (s : Store) : Store :=
  match s.writers with
  | [] => s
  | writer :: rest =>
    let (disk, phase) := s.disk.call writer.job writer.phase
    let version := writer.job.newVersion s.version writer.phase phase
    { s with
      disk
      writers := if phase.hasEnded then rest else { writer with phase, begun := true } :: rest
      version
      versions := version :: s.versions
      failed := s.failed || writer.job.isCommit && phase = .threw }

/-- What a checkout has delivered when it returns. -/
def deliveredOf : Phase → Option Contents
  | .copyHome [] delivered => some delivered
  | _ => none

/-- A reader begins when no writer called before it is left, and then makes its calls. -/
def Store.stepReader (s : Store) (i : ℕ) : Store :=
  match s.readers[i]? with
  | none => s
  | some reader =>
    match reader.phase with
    | none =>
      if s.writers.any fun writer => writer.ticket < reader.bound then s
      else { s with readers := s.readers.set i { reader with phase := some .checkHome } }
    | some phase =>
      { s with
        disk := (s.disk.call reader.job phase).1
        readers := s.readers.set i { reader with phase := some (s.disk.call reader.job phase).2 }
        returned := (deliveredOf phase).toList ++ s.returned }

/-- Which jobs `withBotWrite` is for. -/
def Job.isWrite : Job → Bool
  | .commit _ => true
  | .writeFile _ _ => true
  | _ => false

inductive Op
  | call (job : Job)
  | stepWriter
  | stepReader (i : ℕ)
  /-- The process stops and starts again: the disk is as it was, and nobody is at work. -/
  | stop

def Store.apply (s : Store) : Op → Store
  | .call job =>
    if job.isWrite then
      { s with nextTicket := s.nextTicket + 1, writers := s.writers ++ [{ ticket := s.nextTicket, job }] }
    else { s with readers := s.readers ++ [{ bound := s.nextTicket, job }] }
  | .stepWriter => s.stepWriter
  | .stepReader i => s.stepReader i
  | .stop => { s with writers := [], readers := [] }

/-- The tree is the version, but for directories that were made since. -/
def IsVersion (tree version : Contents) : Prop :=
  (∀ entry ∈ version, entry ∈ tree) ∧ ∀ path content, (path, some content) ∈ tree →
    (path, some content) ∈ version

instance (tree version : Contents) : Decidable (IsVersion tree version) :=
  decidable_of_iff
    ((∀ entry ∈ version, entry ∈ tree) ∧ ∀ entry ∈ tree, entry.2 ≠ none → entry ∈ version) (by
      refine and_congr_right fun _ => ⟨fun h path content hmem => h _ hmem (some_ne_none _), ?_⟩
      rintro h ⟨path, value⟩ hmem hne
      cases value with
      | none => exact absurd rfl hne
      | some content => exact h path content hmem)

def SameFiles (delivered version : Contents) : Prop :=
  ∀ path content, (path, some content) ∈ delivered ↔ (path, some content) ∈ version

instance (delivered version : Contents) : Decidable (SameFiles delivered version) :=
  decidable_of_iff
    ((∀ entry ∈ delivered, entry.2 ≠ none → entry ∈ version) ∧ ∀ entry ∈ version, entry.2 ≠ none →
      entry ∈ delivered) (by
      constructor
      · rintro ⟨hto, hback⟩ path content
        exact ⟨fun h => hto _ h (some_ne_none _), fun h => hback _ h (some_ne_none _)⟩
      · intro h
        constructor
        all_goals
          rintro ⟨path, value⟩ hmem hne
          obtain ⟨content, rfl⟩ := ne_none_iff_exists'.mp hne
        · exact (h path content).mp hmem
        · exact (h path content).mpr hmem)

structure StoreHolds (s : Store) : Prop where
  commits : s.failed = false
  recovers : IsVersion (s.disk.contents s.disk.recovered) s.version
  whole : ∀ delivered ∈ s.returned, ∃ version ∈ s.versions, SameFiles delivered version

def Reader.hasEnded (reader : Reader) : Bool := (reader.phase.map Phase.hasEnded).getD false

/-- A writer begins when the readers called before it have ended. -/
def Sound (s : Store) : Op → Prop
  | .stepWriter => ∀ writer ∈ s.writers.head?, writer.begun = false →
      ∀ reader ∈ s.readers, reader.bound ≤ writer.ticket → reader.hasEnded
  | _ => True

instance (s : Store) (op : Op) : Decidable (Sound s op) := by
  unfold Sound
  split
  · infer_instance
  · infer_instance

end ArdurBot.Homes
