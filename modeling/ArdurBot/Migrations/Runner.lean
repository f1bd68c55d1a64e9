import ArdurBot.Lib.Run
import ArdurBot.Lib.Utf16

/-!
# The migration runner

`packages/db/src/migrate-sql.ts`. A run of the runner sends one call after the other to the
database, and may end at any of them. It holds a lock, so one run goes on at a time; files are
edited between runs.

What the text of a file says is read by a `SqlReader`. What SQL does to indexes is left open: a call
that may change them ends with any catalog. A file that is not built concurrently is run in a
transaction, which its SQL may commit itself: from there on each statement stands by itself.
-/

namespace ArdurBot.Migrations

open Utf16

/-- An index in a schema, or in the current one. -/
structure IndexName where
  schema : Option Text
  name : Text
deriving DecidableEq

/-- What `indexTargets` finds; an unnamed build is `none`. -/
structure IndexTargets where
  created : List (Option IndexName)
  dropped : List IndexName
deriving DecidableEq

/-- `ownCommits` is how often the database finds a commit in SQL that it runs. -/
structure SqlReader where
  checksum : Text → Text
  buildsIndexConcurrently : Text → Bool
  indexTargets : Text → IndexTargets
  ownCommits : Text → ℕ

structure SqlMigration where
  name : Text
  sql : Text
deriving DecidableEq

/-- The files of the directory: their names differ. -/
structure MigrationList where
  files : List SqlMigration
  nodup : (files.map SqlMigration.name).Nodup

structure MigrationRow where
  id : ℕ
  checksum : Text
  migrationName : Text
  finished : Bool
  rolledBack : Bool
deriving DecidableEq

def MigrationRow.isOpen (row : MigrationRow) : Bool := !row.finished && !row.rolledBack

/-- Whether an index is valid, where there is one. -/
abbrev Catalog := IndexName → Option Bool

/-- A part of a file's SQL took effect, in the attempt that a row records. The commits of the SQL
divide it into parts. -/
structure Execution where
  name : Text
  checksum : Text
  transactional : Bool
  attempt : ℕ
  part : ℕ
  lastPart : ℕ
deriving DecidableEq

/-- `executed` records the SQL that took effect, in order. -/
structure Database where
  rows : List MigrationRow
  indexes : Catalog
  executed : List Execution

def finishedRow (recorded : List MigrationRow) (name : Text) : Bool :=
  recorded.any fun row => row.migrationName = name && row.finished && !row.rolledBack

section

variable (database : Database)

def recordStarted (name checksum : Text) : Database :=
  { database with rows := database.rows ++ [⟨database.rows.length, checksum, name, false, false⟩] }

def recordFinished (id : ℕ) : Database :=
  { database with rows := database.rows.map fun row => if row.id = id then
    { row with finished := true } else row }

def recordRolledBack (id : ℕ) : Database :=
  { database with rows := database.rows.map fun row => if row.id = id then
    { row with rolledBack := true } else row }

def execute (execution : Execution) (indexes : Catalog) : Database :=
  { database with indexes, executed := database.executed ++ [execution] }

end

/-- All that a file builds is valid, and all that it drops is gone. -/
def indexesInPlace (indexes : Catalog) (targets : IndexTargets) : Bool :=
  if targets.created.length + targets.dropped.length = 0 || targets.created.any Option.isNone then false
  else
    (targets.created.all fun target => target.all fun target => indexes target = some true) &&
      targets.dropped.all fun target => (indexes target).isNone

inductive TransactionStage where
  | insert
  | sql
  | finish
  | commit

/-- A turn of the loop at a migration: the rows as the run has read and settled them, and the files
that are left. -/
structure Turn where
  migration : SqlMigration
  recorded : List MigrationRow
  rest : List SqlMigration

/-- What a row is finished after. -/
inductive Ending where
  | adopted
  | concurrently
  | ownCommit
deriving DecidableEq

/-- The next call of a run. `work` is what a transaction has done that is not committed. Of SQL that
has committed its transaction the parts are `committed`; after its row is finished, the runner's own
commit has nothing to commit. -/
inductive Phase where
  | idle
  | settling (settled rest : List MigrationRow)
  | looping (recorded : List MigrationRow) (rest : List SqlMigration)
  | dropping (targets : List IndexName) (turn : Turn)
  | started (id : ℕ) (turn : Turn)
  | transaction (stage : TransactionStage) (id : ℕ) (turn : Turn) (work : Database)
  | committed (part id : ℕ) (turn : Turn)
  | finishing (ending : Ending) (id : ℕ) (turn : Turn)
  | failing (id : ℕ)

def Phase.isIdle : Phase → Bool
  | idle => true
  | _ => false

/-- Why `assertHistory` refuses a history. -/
inductive Refusal where
  | newer
  | unfinished
  | modified
deriving DecidableEq

/-- `refusals` records the runs that were refused. -/
structure Runner where
  files : List SqlMigration
  database : Database
  phase : Phase
  refusals : List Refusal

def newRunner (list : MigrationList) (indexes : Catalog) : Runner where
  files := list.files
  database := { rows := [], indexes, executed := [] }
  phase := .idle
  refusals := []

def findFile (files : List SqlMigration) (name : Text) : Option SqlMigration :=
  files.find? fun file => file.name = name

section

variable (reader : SqlReader)

section

variable (migration : SqlMigration)

def SqlMigration.checksum : Text := reader.checksum migration.sql

def SqlMigration.isConcurrent : Bool := reader.buildsIndexConcurrently migration.sql

def SqlMigration.inPlace (indexes : Catalog) : Bool :=
  indexesInPlace indexes (reader.indexTargets migration.sql)

def SqlMigration.lastPart : ℕ :=
  if migration.isConcurrent reader then 0 else reader.ownCommits migration.sql

def SqlMigration.execution (attempt part : ℕ) : Execution where
  name := migration.name
  checksum := migration.checksum reader
  transactional := !migration.isConcurrent reader
  attempt
  part
  lastPart := migration.lastPart reader

end

def rowRefusal (files : List SqlMigration) (row : MigrationRow) : Option Refusal :=
  if row.rolledBack then none
  else
    match findFile files row.migrationName with
    | none => some .newer
    | some file =>
      if !row.finished then some .unfinished
      else if row.checksum ≠ file.checksum reader then some .modified
      else none

def assertHistory (files : List SqlMigration) (recorded : List MigrationRow) : Option Refusal :=
  recorded.findSome? (rowRefusal reader files)

def triedConcurrently (recorded : List MigrationRow) (migration : SqlMigration) : Bool :=
  migration.isConcurrent reader && recorded.any fun row => row.migrationName = migration.name

section

variable (runner : Runner)

/-- `settleInterrupted` at a row. -/
def settleRow (settled : List MigrationRow) (row : MigrationRow) (rest : List MigrationRow) : Runner :=
  let skip := { runner with phase := .settling (settled ++ [row]) rest }
  if row.finished || row.rolledBack then skip
  else
    match findFile runner.files row.migrationName with
    | none => skip
    | some file =>
      if !file.isConcurrent reader then skip
      else if row.checksum = file.checksum reader && file.inPlace reader runner.database.indexes then
        { runner with
          database := recordFinished runner.database row.id
          phase := .settling (settled ++ [{ row with finished := true }]) rest }
      else
        { runner with
          database := recordRolledBack runner.database row.id
          phase := .settling (settled ++ [{ row with rolledBack := true }]) rest }

def assertSettled (recorded : List MigrationRow) : Runner :=
  match assertHistory reader runner.files recorded with
  | some refusal => { runner with phase := .idle, refusals := runner.refusals ++ [refusal] }
  | none => { runner with phase := .looping recorded runner.files }

section

variable (turn : Turn)

/-- The row of the migration, and what is next. -/
def startRow (phase : Phase) : Runner :=
  { runner with database := recordStarted runner.database turn.migration.name (turn.migration.checksum reader), phase }

/-- The loop of `applySqlMigrations` at a migration. -/
def applyNext : Runner :=
  let id := runner.database.rows.length
  if finishedRow turn.recorded turn.migration.name then { runner with phase := .looping turn.recorded turn.rest }
  else if triedConcurrently reader turn.recorded turn.migration &&
      turn.migration.inPlace reader runner.database.indexes then
    startRow reader runner turn (.finishing .adopted id turn)
  else if turn.migration.isConcurrent reader then
    { runner with phase := .dropping ((reader.indexTargets turn.migration.sql).created.filterMap fun target => target) turn }
  else { runner with phase := .transaction .insert id turn runner.database }

/-- A call of `dropInvalidIndexes`, or the row of the migration after them. -/
def dropNext (targets : List IndexName) (indexes : Catalog) : Runner :=
  match targets with
  | [] => startRow reader runner turn (.started runner.database.rows.length turn)
  | target :: targets =>
    if runner.database.indexes target = some false then
      { runner with
        database := { runner.database with indexes := Function.update indexes target none }
        phase := .dropping targets turn }
    else { runner with phase := .dropping targets turn }

def runConcurrently (id : ℕ) (indexes : Catalog) : Runner :=
  { runner with
    database := execute runner.database (turn.migration.execution reader id 0) indexes
    phase := .finishing .concurrently id turn }

/-- The first commit of the SQL publishes what the transaction has done, its open row too. -/
def runTransaction (stage : TransactionStage) (id : ℕ) (work : Database) (indexes : Catalog) : Runner :=
  match stage with
  | .insert =>
    { runner with
      phase := .transaction .sql id turn (recordStarted work turn.migration.name (turn.migration.checksum reader)) }
  | .sql =>
    let work := execute work (turn.migration.execution reader id 0) indexes
    if turn.migration.lastPart reader = 0 then { runner with phase := .transaction .finish id turn work }
    else { runner with database := work, phase := .committed 1 id turn }
  | .finish => { runner with phase := .transaction .commit id turn (recordFinished work id) }
  | .commit => { runner with database := work, phase := .looping turn.recorded turn.rest }

/-- The next part of SQL that has committed, or the first. -/
def runCommitted (part id : ℕ) (indexes : Catalog) : Runner :=
  { runner with
    database := execute runner.database (turn.migration.execution reader id part) indexes
    phase :=
      if part < turn.migration.lastPart reader then .committed (part + 1) id turn
      else .finishing .ownCommit id turn }

def finishTurn (id : ℕ) : Runner :=
  { runner with database := recordFinished runner.database id, phase := .looping turn.recorded turn.rest }

end

/-- The run goes on after a call; one that may change indexes leaves the ones given. -/
def Runner.proceed (indexes : Catalog) : Runner :=
  match runner.phase with
  | .idle => runner
  | .settling settled [] => assertSettled reader runner settled
  | .settling settled (row :: rest) => settleRow reader runner settled row rest
  | .looping _ [] => { runner with phase := .idle }
  | .looping recorded (migration :: rest) => applyNext reader runner ⟨migration, recorded, rest⟩
  | .dropping targets turn => dropNext reader runner turn targets indexes
  | .started id turn => runConcurrently reader runner turn id indexes
  | .transaction stage id turn work => runTransaction reader runner turn stage id work indexes
  | .committed part id turn => runCommitted reader runner turn part id indexes
  | .finishing _ id turn => finishTurn runner turn id
  | .failing id => { runner with database := recordRolledBack runner.database id, phase := .idle }

/-- A call fails: a transaction is rolled back, unless its SQL has committed it, and the row of SQL
that ran outside of one is about to be. -/
def Runner.fail (indexes : Catalog) : Runner :=
  match runner.phase with
  | .started id _ => { runner with database := { runner.database with indexes }, phase := .failing id }
  | .finishing .concurrently id _ => { runner with phase := .failing id }
  | _ => { runner with phase := .idle }

end

/-- Between runs a file that is not finished may be edited. -/
inductive RunnerOp where
  | edit (name sql : Text)
  | start
  | succeed (indexes : Catalog)
  | fail (indexes : Catalog)
  | cut

def RunnerOp.apply (runner : Runner) : RunnerOp → Runner
  | edit name sql =>
    if runner.phase.isIdle && !finishedRow runner.database.rows name then
      { runner with files := runner.files.map fun file => if file.name = name then { file with sql } else file }
    else runner
  | start =>
    if runner.phase.isIdle then { runner with phase := .settling [] runner.database.rows } else runner
  | succeed indexes => runner.proceed reader indexes
  | fail indexes => runner.fail indexes
  | cut => { runner with phase := .idle }

end

end ArdurBot.Migrations
