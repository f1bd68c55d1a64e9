import ArdurBot.Migrations.Effect
import ArdurBot.Migrations.Sql

/-!
# One run to the end

A run all of whose calls succeed takes a number of calls bounded by the rows and the files that are
left, and leaves every file finished.
-/

namespace ArdurBot.Migrations

open List Utf16

variable {reader : SqlReader} {runner : Runner}

/-- No run is at a file for more calls than this. -/
def SqlMigration.effort (reader : SqlReader) (migration : SqlMigration) : ℕ :=
  ((reader.indexTargets migration.sql).created.filterMap id).length + reader.ownCommits migration.sql + 5

def effort (reader : SqlReader) (files : List SqlMigration) : ℕ :=
  (files.map (SqlMigration.effort reader)).sum

def TransactionStage.remaining (ownCommits : ℕ) : TransactionStage → ℕ
  | insert => ownCommits + 5
  | sql => ownCommits + 4
  | finish => 3
  | commit => 2

def Runner.remaining (reader : SqlReader) (runner : Runner) : ℕ :=
  match runner.phase with
  | .idle => 0
  | .settling _ rest => rest.length + 2 + effort reader runner.files
  | .looping _ rest => 1 + effort reader rest
  | .dropping targets turn => targets.length + 4 + effort reader turn.rest
  | .started _ turn => 3 + effort reader turn.rest
  | .transaction stage _ turn _ => stage.remaining (reader.ownCommits turn.migration.sql) +
    effort reader turn.rest
  | .committed part _ turn => (reader.ownCommits turn.migration.sql - part) + 3 + effort reader turn.rest
  | .finishing _ _ turn => 2 + effort reader turn.rest
  | .failing _ => 1

variable {settled rest : List MigrationRow} {row : MigrationRow} {turn : Turn}

theorem remaining_settleRow :
    (settleRow reader runner settled row rest).remaining reader = rest.length + 2 + effort reader runner.files := by
  unfold settleRow
  dsimp only
  repeat' split
  all_goals rfl

theorem remaining_assertSettled :
    (assertSettled reader runner settled).remaining reader < 2 + effort reader runner.files := by
  unfold assertSettled
  split <;> (simp only [Runner.remaining]; omega)

theorem remaining_applyNext :
    (applyNext reader runner turn).remaining reader < 1 + effort reader (turn.migration :: turn.rest) := by
  rw [effort, map_cons, sum_cons, SqlMigration.effort, ← effort]
  unfold applyNext
  dsimp only
  split_ifs <;> (simp only [Runner.remaining, startRow, TransactionStage.remaining, id_def]; omega)

theorem remaining_dropNext (targets : List IndexName) (indexes : Catalog) :
    (dropNext reader runner turn targets indexes).remaining reader < targets.length + 4 +
      effort reader turn.rest := by
  cases targets with
  | nil =>
    simp only [dropNext, startRow, Runner.remaining]
    omega
  | cons target targets =>
    rw [length_cons]
    dsimp only [dropNext]
    split_ifs <;> (simp only [Runner.remaining]; omega)

theorem remaining_runTransaction (stage : TransactionStage) (id : ℕ) (work : Database) (indexes : Catalog) :
    (runTransaction reader runner turn stage id work indexes).remaining reader <
      stage.remaining (reader.ownCommits turn.migration.sql) + effort reader turn.rest := by
  cases stage with
  | sql =>
    have hsome : turn.migration.lastPart reader ≠ 0 → reader.ownCommits turn.migration.sql ≠ 0 := by
      intro hlast hzero
      apply hlast
      unfold SqlMigration.lastPart
      rw [hzero, ite_self]
    unfold runTransaction
    dsimp only
    split_ifs with hlast
    · simp only [Runner.remaining, TransactionStage.remaining]
      omega
    · have := hsome hlast
      simp only [Runner.remaining, TransactionStage.remaining]
      omega
  | insert | finish | commit =>
    simp only [runTransaction, Runner.remaining, TransactionStage.remaining]
    omega

theorem remaining_runCommitted (part id : ℕ) (indexes : Catalog) :
    (runCommitted reader runner turn part id indexes).remaining reader <
      (reader.ownCommits turn.migration.sql - part) + 3 + effort reader turn.rest := by
  have hle : turn.migration.lastPart reader ≤ reader.ownCommits turn.migration.sql := by
    unfold SqlMigration.lastPart
    split
    · exact Nat.zero_le _
    · exact le_rfl
  unfold runCommitted
  split_ifs <;> (simp only [Runner.remaining]; omega)

theorem remaining_proceed (hgoing : runner.phase.isIdle = false) (indexes : Catalog) :
    (runner.proceed reader indexes).remaining reader < runner.remaining reader := by
  generalize hnext : runner.proceed reader indexes = next
  unfold Runner.proceed at hnext
  unfold Runner.remaining
  cases hphase : runner.phase <;> rw [hphase] at hnext hgoing <;> subst hnext
  case idle => cases hgoing
  case settling settled rest =>
    cases rest with
    | nil =>
      have hless := @remaining_assertSettled reader runner settled
      show (assertSettled reader runner settled).remaining reader < 0 + 2 + effort reader runner.files
      omega
    | cons row rest =>
      show (settleRow reader runner settled row rest).remaining reader < rest.length + 1 + 2 +
        effort reader runner.files
      rw [remaining_settleRow]
      omega
  case looping recorded rest =>
    cases rest with
    | nil =>
      show 0 < 1 + effort reader []
      omega
    | cons migration rest => exact remaining_applyNext
  case dropping targets turn => exact remaining_dropNext targets indexes
  case started id turn =>
    show 2 + effort reader turn.rest < 3 + effort reader turn.rest
    omega
  case transaction stage id turn work => exact remaining_runTransaction stage id work indexes
  case committed part id turn => exact remaining_runCommitted part id indexes
  case finishing ending id turn =>
    show 1 + effort reader turn.rest < 2 + effort reader turn.rest
    omega
  case failing id =>
    show 0 < 1
    omega

theorem proceed_of_idle (h : runner.phase.isIdle) (indexes : Catalog) :
    runner.proceed reader indexes = runner := by
  unfold Runner.proceed
  cases hphase : runner.phase <;> rw [hphase] at h <;> first | rfl | cases h

theorem after_idle (h : runner.phase.isIdle) (catalogs : List Catalog) :
    Run.after (RunnerOp.apply reader) runner (catalogs.map RunnerOp.succeed) = runner := by
  induction catalogs with
  | nil => rfl
  | cons indexes catalogs ih =>
    show Run.after (RunnerOp.apply reader) (runner.proceed reader indexes) (catalogs.map RunnerOp.succeed) = runner
    rw [proceed_of_idle h, ih]

theorem idle_after (catalogs : List Catalog) (h : runner.remaining reader ≤ catalogs.length) :
    (Run.after (RunnerOp.apply reader) runner (catalogs.map RunnerOp.succeed)).phase.isIdle := by
  induction catalogs generalizing runner with
  | nil =>
    show runner.phase.isIdle
    by_contra hgoing
    have hless := @remaining_proceed reader runner (eq_false_of_ne_true hgoing) fun _ => none
    rw [length_nil] at h
    omega
  | cons indexes catalogs ih =>
    cases hidle : runner.phase.isIdle with
    | true =>
      rw [after_idle hidle]
      exact hidle
    | false =>
      apply @ih (runner.proceed reader indexes)
      have hless := @remaining_proceed reader runner hidle indexes
      rw [length_cons] at h
      omega

theorem files_proceed (indexes : Catalog) : (runner.proceed reader indexes).files = runner.files := by
  unfold Runner.proceed
  split
  · rfl
  · unfold assertSettled
    split <;> rfl
  · dsimp only [settleRow]
    repeat' split
    all_goals rfl
  · rfl
  · dsimp only [applyNext]
    repeat' split
    all_goals rfl
  · unfold dropNext
    repeat' split
    all_goals rfl
  · rfl
  · unfold runTransaction
    dsimp only
    repeat' split
    all_goals rfl
  · rfl
  · rfl
  · rfl

theorem files_fail (indexes : Catalog) : (runner.fail indexes).files = runner.files := by
  unfold Runner.fail
  split <;> rfl

theorem files_after (catalogs : List Catalog) :
    (Run.after (RunnerOp.apply reader) runner (catalogs.map RunnerOp.succeed)).files = runner.files := by
  induction catalogs generalizing runner with
  | nil => rfl
  | cons indexes catalogs ih =>
    show (Run.after (RunnerOp.apply reader) (runner.proceed reader indexes) _).files = runner.files
    rw [ih, files_proceed]

/-- The run has not failed, and once it is over every file is finished. -/
def Runner.Going (runner : Runner) : Prop :=
  match runner.phase with
  | .failing _ => False
  | .idle => ∀ file ∈ runner.files, finishedRow runner.database.rows file.name
  | _ => True

theorem going_proceed (hok : RunnerOk reader runner) (hresumable : Resumable reader runner)
    (h : runner.Going) (indexes : Catalog) : (runner.proceed reader indexes).Going := by
  have hphase := hok.phase
  unfold PhaseOk at hphase
  unfold Runner.proceed
  split at hphase <;> rename_i heq <;> rw [heq]
  · exact h
  · rename_i settled rest
    cases rest with
    | nil =>
      rw [append_nil] at hphase
      show (assertSettled reader runner settled).Going
      rw [assertSettled_eq hok hresumable heq hphase]
      trivial
    | cons row rest =>
      dsimp only [settleRow]
      repeat' split
      all_goals trivial
  · rename_i recorded rest
    cases rest with
    | nil =>
      obtain ⟨pre, hsplit, hpre⟩ := hphase.split
      show ∀ file ∈ runner.files, _
      rw [hsplit, append_nil]
      exact hpre
    | cons migration rest =>
      dsimp only [applyNext]
      repeat' split
      all_goals trivial
  · rename_i targets turn
    cases targets with
    | nil => trivial
    | cons target targets =>
      dsimp only [dropNext]
      split <;> trivial
  · trivial
  · rename_i stage id turn work
    cases stage with
    | insert | finish | commit => trivial
    | sql =>
      dsimp only [runTransaction]
      split <;> trivial
  · dsimp only [runCommitted]
    unfold Runner.Going
    split <;> split at * <;> simp_all
  · trivial
  · unfold Runner.Going at h
    rw [heq] at h
    exact h.elim

structure Finishing (reader : SqlReader) (runner : Runner) : Prop where
  ok : RunnerOk reader runner
  resumable : Resumable reader runner
  going : runner.Going

theorem finishing_after (h : Finishing reader runner) (catalogs : List Catalog) :
    Finishing reader (Run.after (RunnerOp.apply reader) runner (catalogs.map RunnerOp.succeed)) := by
  induction catalogs generalizing runner with
  | nil => exact h
  | cons indexes catalogs ih =>
    apply @ih (runner.proceed reader indexes)
    exact ⟨runnerOk_proceed h.ok _, resumable_proceed h.ok h.resumable _,
      going_proceed h.ok h.resumable h.going indexes⟩

/-- A run that is not cut off, with what its calls leave of the indexes. -/
def lastRun (catalogs : List Catalog) : List RunnerOp := .start :: catalogs.map RunnerOp.succeed

/-- The file's row is finished, with its checksum. -/
def FinishedIn (reader : SqlReader) (rows : List MigrationRow) (file : SqlMigration) : Prop :=
  ∃ row ∈ rows, row.migrationName = file.name ∧ row.checksum = file.checksum reader ∧ row.finished ∧
    row.rolledBack = false

theorem finishes (hok : RunnerOk reader runner) (hresumable : Resumable reader runner)
    (hover : runner.phase.isIdle) : ∃ calls, ∀ catalogs : List Catalog, calls ≤ catalogs.length →
      (Run.after (RunnerOp.apply reader) runner (lastRun catalogs)).phase.isIdle ∧
      (Run.after (RunnerOp.apply reader) runner (lastRun catalogs)).files = runner.files ∧
      ∀ file ∈ runner.files,
        FinishedIn reader (Run.after (RunnerOp.apply reader) runner (lastRun catalogs)).database.rows file := by
  let begun : Runner := { runner with phase := .settling [] runner.database.rows }
  have hstart : RunnerOp.apply reader runner .start = begun := if_pos hover
  have hbegun : Finishing reader begun := by
    refine ⟨hok.setPhase rfl, hresumable.of_same (Phase.own_of_isIdle hover) (fun _ hrow _ => hrow) ?_, trivial⟩
    intro settled rest heq
    cases heq
    exact nofun
  refine ⟨begun.remaining reader, ?_⟩
  intro catalogs hlength
  have hidle : (Run.after (RunnerOp.apply reader) begun (catalogs.map RunnerOp.succeed)).phase.isIdle :=
    idle_after catalogs hlength
  have hfiles : (Run.after (RunnerOp.apply reader) begun (catalogs.map RunnerOp.succeed)).files = runner.files :=
    files_after catalogs
  have hend := finishing_after hbegun catalogs
  rw [show Run.after (RunnerOp.apply reader) runner (lastRun catalogs) =
    Run.after (RunnerOp.apply reader) (RunnerOp.apply reader runner .start)
      (catalogs.map RunnerOp.succeed) from rfl, hstart]
  generalize Run.after (RunnerOp.apply reader) begun (catalogs.map RunnerOp.succeed) = final at *
  refine ⟨hidle, hfiles, ?_⟩
  intro file hfile
  have hgoing := hend.going
  unfold Runner.Going at hgoing
  cases hphase : final.phase <;> rw [hphase] at hidle hgoing <;> try cases hidle
  rw [← hfiles] at hfile
  obtain ⟨row, hrow, hname, hfinished, hkept⟩ := finishedRow_iff.mp (hgoing file hfile)
  exact ⟨row, hrow, hname, hend.ok.rows.checksums row hrow hfinished file hfile hname.symm, hfinished, hkept⟩

/-- After any runs, each of which may be cut off, with edits between them. -/
def runnerAfter (reader : SqlReader) (list : MigrationList) (indexes : Catalog)
    (ops : List RunnerOp) : Runner :=
  Run.after (RunnerOp.apply reader) (newRunner list indexes) ops

section

variable (list : MigrationList) (indexes : Catalog) (ops : List RunnerOp)

theorem runnerOk_after : RunnerOk reader (runnerAfter reader list indexes ops) :=
  @Run.inv_after _ _ (RunnerOp.apply reader) (RunnerOk reader) (fun _ op h => runnerOk_apply h op) _
    (runnerOk_new list indexes) ops

theorem names_after :
    (runnerAfter reader list indexes ops).files.map SqlMigration.name = list.files.map SqlMigration.name := by
  unfold runnerAfter
  induction ops using reverseRecOn with
  | nil => rfl
  | append_singleton ops op ih =>
    rw [Run.after_concat, ← ih]
    cases op with
    | edit name sql =>
      unfold RunnerOp.apply
      dsimp only
      split
      · exact names_edit _ _ _
      · rfl
    | start =>
      unfold RunnerOp.apply
      dsimp only
      split <;> rfl
    | succeed indexes => exact congrArg (map SqlMigration.name) (files_proceed indexes)
    | fail indexes => exact congrArg (map SqlMigration.name) (files_fail indexes)
    | cut => rfl

end

structure SoundOk (reader : SqlReader) (runner : Runner) : Prop where
  ok : RunnerOk reader runner
  resumable : Resumable reader runner
  traced : Traced reader runner

theorem soundOk_after {list : MigrationList} {indexes : Catalog} {ops : List RunnerOp}
    (hsound : Run.Meets (RunnerOp.apply reader) (Runner.Sound reader) (newRunner list indexes) ops) :
    SoundOk reader (runnerAfter reader list indexes ops) := by
  apply Run.inv_of_meets _ _ hsound
  · intro runner op h hop
    exact ⟨runnerOk_apply h.ok op, resumable_apply h.ok h.resumable op hop, traced_apply h.ok h.traced op hop⟩
  · exact ⟨runnerOk_new list indexes, ⟨nofun, nofun, rfl⟩, ⟨nofun, trivial, Pairwise.nil, nofun, nofun⟩⟩

/-- SQL takes effect in the order of the files. Where every step is sound, a transactional file's
takes effect in one attempt, each part once, a row is finished only with the checksum of SQL that
took effect, no run is refused, and one run to the end finishes every file. -/
theorem migrations_hold (reader : SqlReader) (list : MigrationList) (indexes : Catalog) (ops : List RunnerOp) :
    ((runnerAfter reader list indexes ops).database.executed.Pairwise fun earlier later =>
        ¬Before list.files later.name earlier.name) ∧
      (Run.Meets (RunnerOp.apply reader) (Runner.Sound reader) (newRunner list indexes) ops →
        ((runnerAfter reader list indexes ops).database.executed.Pairwise fun earlier later =>
          earlier.transactional = true → earlier.name = later.name →
            earlier.attempt = later.attempt ∧ earlier.part < later.part) ∧
        (∀ row ∈ (runnerAfter reader list indexes ops).database.rows, row.finished = true →
          RanAs (runnerAfter reader list indexes ops).database.executed row.migrationName row.checksum) ∧
        (runnerAfter reader list indexes ops).refusals = [] ∧
        ((runnerAfter reader list indexes ops).phase.isIdle = true → ∃ calls, ∀ catalogs : List Catalog,
          calls ≤ catalogs.length →
            (runnerAfter reader list indexes (ops ++ lastRun catalogs)).phase.isIdle = true ∧
            (runnerAfter reader list indexes (ops ++ lastRun catalogs)).files =
              (runnerAfter reader list indexes ops).files ∧
            ∀ file ∈ (runnerAfter reader list indexes ops).files,
              FinishedIn reader (runnerAfter reader list indexes (ops ++ lastRun catalogs)).database.rows file)) := by
  constructor
  · have hexecuted := (@runnerOk_after reader list indexes ops).executed
    have hnames : list.files.map SqlMigration.name =
        (runnerAfter reader list indexes ops).files.map SqlMigration.name := (names_after list indexes ops).symm
    exact (hexecuted.of_names hnames).ordered
  · intro hsound
    have h := soundOk_after hsound
    refine ⟨h.traced.parts, h.traced.finished, h.resumable.accepted, fun hover => ?_⟩
    obtain ⟨calls, hcalls⟩ := finishes h.ok h.resumable hover
    refine ⟨calls, ?_⟩
    intro catalogs hlength
    unfold runnerAfter
    rw [Run.after_append]
    exact hcalls catalogs hlength

def widgetsById : SqlMigration where
  name := lit "20260901000000_widgets"
  sql := lit "CREATE INDEX CONCURRENTLY \"widgets_idx\" ON \"widgets\" (\"id\");\n"

def widgetsByName : Text :=
  lit "CREATE INDEX CONCURRENTLY \"widgets_idx\" ON \"widgets\" (\"name\");\n"

/-- A file that commits itself. -/
def spaces : SqlMigration where
  name := lit "20260830150000_organization_spaces"
  sql := lit "BEGIN;\nCOMMIT;\n"

def testReader : SqlReader :=
  sqlReader (fun sql => if sql = widgetsById.sql then lit "217e" else if sql = spaces.sql then
    lit "3c1a" else lit "2406")
    fun sql => if sql = spaces.sql then 1 else 0

def testList : MigrationList where
  files := [spaces, widgetsById]
  nodup := by decide

def noIndex : Catalog := fun _ => none

def widgetsIndex : Catalog :=
  fun index => if index.name = lit "widgets_idx" then some true else none

/-- A run is cut off once the index is built. -/
def cutRun : List RunnerOp :=
  .start :: (List.replicate 9 noIndex ++ [widgetsIndex]).map RunnerOp.succeed ++ [.cut]

/-- The next run is of the file as it was. -/
theorem migrations_hold_cut : (runnerAfter testReader testList noIndex
      (cutRun ++ .start :: List.replicate 4 (RunnerOp.succeed widgetsIndex))).refusals = [] :=
  ((migrations_hold testReader testList noIndex _).2 (by
    unfold testReader
    repeat rw [lit_ofList]
    decide +kernel)).2.2.1

/-- The next run is of a file that builds the index of another column. -/
def editedRun : List RunnerOp :=
  cutRun ++ .edit widgetsById.name widgetsByName :: .start :: List.replicate 7 (RunnerOp.succeed widgetsIndex)

/-- A run is cut off when the SQL has committed its open row, and another is started. -/
def openRun : List RunnerOp :=
  .start :: List.replicate 4 (RunnerOp.succeed noIndex) ++ .cut :: .start ::
    List.replicate 2 (RunnerOp.succeed noIndex)

/-- An edited file is finished with a checksum none of whose SQL took effect, and a file that
commits itself is refused. -/
theorem migrations_fail : (∃ row ∈ (runnerAfter testReader testList noIndex editedRun).database.rows,
      row.finished ∧ row.rolledBack = false ∧
        ¬RanAs (runnerAfter testReader testList noIndex editedRun).database.executed row.migrationName row.checksum) ∧
    (runnerAfter testReader testList noIndex openRun).refusals = [.unfinished] := by
  have hadopted : ∃ row ∈ (runnerAfter testReader testList noIndex editedRun).database.rows,
      row.finished ∧ row.rolledBack = false ∧
        ¬∃ execution ∈ (runnerAfter testReader testList noIndex editedRun).database.executed,
          execution.name = row.migrationName ∧ execution.checksum = row.checksum := by
    unfold testReader editedRun widgetsByName
    repeat rw [lit_ofList]
    decide +kernel
  obtain ⟨row, hrow, hfinished, hkept, hnone⟩ := hadopted
  refine ⟨⟨row, hrow, hfinished, hkept, fun hran => hnone hran.exists⟩, ?_⟩
  unfold testReader
  repeat rw [lit_ofList]
  decide +kernel

end ArdurBot.Migrations
