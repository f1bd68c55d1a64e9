import ArdurBot.Migrations.Rows

/-!
# What a call keeps

The loop goes through the files in order: those before the one it is at are finished, and the rows
it has read say of the files that are left what the table says.
-/

namespace ArdurBot.Migrations

open List Utf16

variable {reader : SqlReader}

/-- `name` is a file before `other`. -/
def Before (files : List SqlMigration) (name other : Text) : Prop :=
  (files.map SqlMigration.name).idxOf name < (files.map SqlMigration.name).idxOf other

theorem mem_of_before {pre rest : List SqlMigration} {migration : SqlMigration} {name : Text}
    (h : Before (pre ++ migration :: rest) name migration.name) : name ∈ pre.map SqlMigration.name := by
  by_contra hnot
  unfold Before at h
  rw [map_append, map_cons, idxOf_append_of_notMem hnot] at h
  have hle : (pre.map SqlMigration.name ++ migration.name :: rest.map SqlMigration.name).idxOf migration.name ≤
      (pre.map SqlMigration.name).length := by
    by_cases hmem : migration.name ∈ pre.map SqlMigration.name
    · rw [idxOf_append_of_mem hmem]
      exact idxOf_le_length
    · rw [idxOf_append_of_notMem hmem, idxOf_cons_self]
      omega
  omega

/-- All files before `name` are finished. -/
def Behind (files : List SqlMigration) (rows : List MigrationRow) (name : Text) : Prop :=
  ∀ earlier ∈ files.map SqlMigration.name, Before files earlier name → finishedRow rows earlier

/-- All files before one that was begun are finished. -/
def TriedOk (files : List SqlMigration) (rows : List MigrationRow) : Prop :=
  ∀ name ∈ triedNames rows, Behind files rows name

/-- Where SQL of a file took effect all files before it are finished. -/
structure ExecutedOk (files : List SqlMigration) (rows : List MigrationRow)
  (executed : List Execution) : Prop where
  ordered : executed.Pairwise fun earlier later => ¬Before files later.name earlier.name
  behind : ∀ execution ∈ executed, Behind files rows execution.name

section

variable {files : List SqlMigration} {rows rows' : List MigrationRow} {executed : List Execution}
  (hrows : ∀ name, finishedRow rows name = true → finishedRow rows' name = true)
include hrows

theorem Behind.mono {name : Text} (h : Behind files rows name) : Behind files rows' name :=
  fun earlier hmem hbefore => hrows earlier (h earlier hmem hbefore)

theorem TriedOk.of_names (h : TriedOk files rows) (hnames : triedNames rows' = triedNames rows) :
    TriedOk files rows' := by
  intro name hname
  rw [hnames] at hname
  exact (h name hname).mono hrows

theorem ExecutedOk.mono (h : ExecutedOk files rows executed) : ExecutedOk files rows' executed where
  __ := h
  behind execution hmem := (h.behind execution hmem).mono hrows

end

/-- The run is at `turn.migration`, which is not finished, and all files before it are. -/
structure AtFile (files : List SqlMigration) (rows : List MigrationRow) (turn : Turn) : Prop where
  split : ∃ pre, files = pre ++ turn.migration :: turn.rest ∧ ∀ file ∈ pre, finishedRow rows file.name
  unfinished : finishedRow rows turn.migration.name = false
  agree : ∀ file ∈ turn.rest, finishedRow turn.recorded file.name = finishedRow rows file.name
  known : triedNames turn.recorded ⊆ triedNames rows

structure AtLoop (files : List SqlMigration) (rows recorded : List MigrationRow)
  (rest : List SqlMigration) :
    Prop where
  split : ∃ pre, files = pre ++ rest ∧ ∀ file ∈ pre, finishedRow rows file.name
  agree : ∀ file ∈ rest, finishedRow recorded file.name = finishedRow rows file.name
  known : triedNames recorded ⊆ triedNames rows

/-- The row of a run that has begun with a file. -/
def startedRow (reader : SqlReader) (id : ℕ) (migration : SqlMigration) : MigrationRow where
  id
  checksum := migration.checksum reader
  migrationName := migration.name
  finished := false
  rolledBack := false

/-- What a transaction has done. -/
def stageWork (reader : SqlReader) (database work : Database) (migration : SqlMigration) :
    TransactionStage → Prop
  | .insert => work = database
  | .sql => work = recordStarted database migration.name (migration.checksum reader)
  | .finish => migration.lastPart reader = 0 ∧ ∃ indexes,
    work = execute (recordStarted database migration.name (migration.checksum reader))
      (migration.execution reader database.rows.length 0) indexes
  | .commit => migration.lastPart reader = 0 ∧ ∃ indexes,
    work = recordFinished (execute (recordStarted database migration.name (migration.checksum reader))
      (migration.execution reader database.rows.length 0) indexes) database.rows.length

def PhaseOk (reader : SqlReader) (runner : Runner) : Prop :=
  match runner.phase with
  | .idle => True
  | .settling settled rest => runner.database.rows = settled ++ rest
  | .looping recorded rest => AtLoop runner.files runner.database.rows recorded rest
  | .dropping targets turn =>
    AtFile runner.files runner.database.rows turn ∧ turn.migration.isConcurrent reader ∧
      ∀ target ∈ targets, some target ∈ (reader.indexTargets turn.migration.sql).created
  | .started id turn =>
    AtFile runner.files runner.database.rows turn ∧ startedRow reader id turn.migration ∈ runner.database.rows ∧
      turn.migration.isConcurrent reader
  | .transaction stage id turn work =>
    AtFile runner.files runner.database.rows turn ∧ id = runner.database.rows.length ∧
      turn.migration.isConcurrent reader = false ∧ stageWork reader runner.database work turn.migration stage
  | .committed part id turn =>
    AtFile runner.files runner.database.rows turn ∧ startedRow reader id turn.migration ∈ runner.database.rows ∧
      turn.migration.isConcurrent reader = false ∧ part ≤ turn.migration.lastPart reader
  | .finishing _ id turn =>
    AtFile runner.files runner.database.rows turn ∧ startedRow reader id turn.migration ∈ runner.database.rows
  | .failing id => ∃ row ∈ runner.database.rows, row.id = id ∧ row.finished = false

structure RunnerOk (reader : SqlReader) (runner : Runner) : Prop where
  nodup : (runner.files.map SqlMigration.name).Nodup
  rows : RowsOk reader runner.files runner.database.rows
  executed : ExecutedOk runner.files runner.database.rows runner.database.executed
  tried : TriedOk runner.files runner.database.rows
  phase : PhaseOk reader runner

theorem runnerOk_new (list : MigrationList) (indexes : Catalog) :
    RunnerOk reader (newRunner list indexes) where
  nodup := list.nodup
  rows := by constructor <;> simp [newRunner]
  executed := by constructor <;> simp [newRunner]
  tried := nofun
  phase := trivial

section

variable {files : List SqlMigration} {database : Database} {row : MigrationRow}

theorem ExecutedOk.recordStarted (h : ExecutedOk files database.rows database.executed)
    (name checksum : Text) :
    ExecutedOk files (recordStarted database name checksum).rows database.executed :=
  h.mono fun other hother => by rwa [finishedRow_recordStarted]

section

variable (h : ExecutedOk files database.rows database.executed)
  (hrows : RowsOk reader files database.rows) (hrow : row ∈ database.rows)
include h hrows hrow

theorem ExecutedOk.recordFinished (hkept : row.rolledBack = false) :
    ExecutedOk files (recordFinished database row.id).rows database.executed := by
  apply h.mono
  intro other hother
  rw [finishedRow_recordFinished hrows hrow hkept, hother, Bool.or_true]

theorem ExecutedOk.recordRolledBack (hunfinished : row.finished = false) :
    ExecutedOk files (recordRolledBack database row.id).rows database.executed :=
  h.mono fun other hother => by rwa [finishedRow_recordRolledBack hrows hrow hunfinished]

end

theorem checksum_startedRow (hnodup : (files.map SqlMigration.name).Nodup)
    {migration : SqlMigration} (hmem : migration ∈ files) (id : ℕ) :
    ∀ file ∈ files, file.name = (startedRow reader id migration).migrationName →
      (startedRow reader id migration).checksum = file.checksum reader := by
  intro file hfile hname
  rw [Table.eq_of_key hnodup hfile hmem hname]
  rfl

end

section

variable {files : List SqlMigration} {rows rows' recorded : List MigrationRow}
  {migration : SqlMigration} {rest : List SqlMigration} {turn : Turn}

section

variable (h : AtFile files rows turn)
include h

theorem AtFile.mem : turn.migration ∈ files := by
  obtain ⟨pre, hfiles, -⟩ := h.split
  rw [hfiles]
  exact mem_append_right _ mem_cons_self

theorem AtFile.mem_names : turn.migration.name ∈ files.map SqlMigration.name := mem_map_of_mem h.mem

theorem AtFile.name_ne (hnodup : (files.map SqlMigration.name).Nodup) {file : SqlMigration}
    (hfile : file ∈ turn.rest) :
    turn.migration.name ≠ file.name := by
  obtain ⟨pre, hfiles, -⟩ := h.split
  rw [hfiles, map_append, map_cons, nodup_append, nodup_cons] at hnodup
  intro heq
  exact hnodup.2.1.1 (heq ▸ mem_map_of_mem hfile)

theorem AtFile.of_same (hsame : ∀ name, finishedRow rows' name = finishedRow rows name)
    (hnames : triedNames rows ⊆ triedNames rows') : AtFile files rows' turn where
  split := by
    obtain ⟨pre, hsplit, hpre⟩ := h.split
    exact ⟨pre, hsplit, fun file hfile => by rw [hsame]; exact hpre file hfile⟩
  unfinished := by rw [hsame]; exact h.unfinished
  agree file hfile := by rw [hsame]; exact h.agree file hfile
  known := List.Subset.trans h.known hnames

theorem AtFile.behind : Behind files rows turn.migration.name := by
  intro earlier _ hbefore
  obtain ⟨pre, hsplit, hpre⟩ := h.split
  rw [hsplit] at hbefore
  obtain ⟨file, hfile, rfl⟩ := mem_map.mp (mem_of_before hbefore)
  exact hpre file hfile

theorem AtFile.finish (hnodup : (files.map SqlMigration.name).Nodup)
    (hfinish : ∀ name, finishedRow rows' name = (decide (turn.migration.name = name) || finishedRow rows name))
    (hnames : triedNames rows ⊆ triedNames rows') : AtLoop files rows' turn.recorded turn.rest where
  split := by
    obtain ⟨pre, hsplit, hpre⟩ := h.split
    refine ⟨pre ++ [turn.migration], by rw [hsplit, append_assoc]; rfl, ?_⟩
    intro file hfile
    rw [hfinish]
    obtain hfile | hfile := mem_append.mp hfile
    · rw [hpre file hfile, Bool.or_true]
    · rw [mem_singleton.mp hfile, decide_eq_true rfl, Bool.true_or]
  agree file hfile := by
    rw [hfinish, decide_eq_false (h.name_ne hnodup hfile), Bool.false_or]
    exact h.agree file hfile
  known := List.Subset.trans h.known hnames

/-- No other file was begun and is not finished. -/
theorem AtFile.only (hnodup : (files.map SqlMigration.name).Nodup) (htried : TriedOk files rows)
    {file : SqlMigration}
    (hfile : file ∈ files) (hname : file.name ∈ triedNames rows)
    (hunfinished : finishedRow rows file.name = false) :
    file = turn.migration := by
  have hnames : file.name ∈ files.map SqlMigration.name := mem_map_of_mem hfile
  rcases lt_trichotomy ((files.map SqlMigration.name).idxOf file.name)
    ((files.map SqlMigration.name).idxOf turn.migration.name) with hlt | heq | hgt
  · rw [h.behind file.name hnames hlt] at hunfinished
    cases hunfinished
  · exact Table.eq_of_key hnodup hfile h.mem ((idxOf_inj hnames).mp heq)
  · have hfinished := htried file.name hname turn.migration.name h.mem_names hgt
    rw [h.unfinished] at hfinished
    cases hfinished

end

theorem AtLoop.next (h : AtLoop files rows recorded (migration :: rest))
    (hfinished : finishedRow recorded migration.name) : AtLoop files rows recorded rest where
  split := by
    obtain ⟨pre, hsplit, hpre⟩ := h.split
    refine ⟨pre ++ [migration], by rw [hsplit, append_assoc]; rfl, ?_⟩
    intro file hfile
    obtain hfile | hfile := mem_append.mp hfile
    · exact hpre file hfile
    · rw [mem_singleton.mp hfile, ← h.agree migration mem_cons_self]
      exact hfinished
  agree file hfile := h.agree file (mem_cons_of_mem _ hfile)
  known := h.known

theorem AtLoop.atFile (h : AtLoop files rows turn.recorded (turn.migration :: turn.rest))
    (hunfinished : finishedRow turn.recorded turn.migration.name = false) : AtFile files rows turn where
  split := h.split
  unfinished := by
    rw [← h.agree turn.migration mem_cons_self]
    exact hunfinished
  agree file hfile := h.agree file (mem_cons_of_mem _ hfile)
  known := h.known

theorem ExecutedOk.concat {executed : List Execution} (h : ExecutedOk files rows executed)
    (hat : AtFile files rows turn)
    (attempt part : ℕ) :
    ExecutedOk files rows (executed ++ [turn.migration.execution reader attempt part]) where
  ordered := by
    rw [pairwise_append]
    refine ⟨h.ordered, pairwise_singleton _ _, ?_⟩
    intro execution hmem later hlater hbefore
    rw [mem_singleton.mp hlater] at hbefore
    have hfinished := h.behind execution hmem turn.migration.name hat.mem_names hbefore
    rw [hat.unfinished] at hfinished
    cases hfinished
  behind := by
    intro execution hmem
    obtain hmem | hmem := mem_append.mp hmem
    · exact h.behind execution hmem
    · rw [mem_singleton.mp hmem]
      exact hat.behind

theorem TriedOk.concat {row : MigrationRow} (h : TriedOk files rows) (hat : AtFile files rows turn)
    (hname : row.migrationName = turn.migration.name)
    (hrows : ∀ name, finishedRow rows name → finishedRow (rows ++ [row]) name) :
    TriedOk files (rows ++ [row]) := by
  intro name hmem
  rw [triedNames, map_append, mem_append] at hmem
  obtain hmem | hmem := hmem
  · exact (h name hmem).mono hrows
  · rw [mem_singleton.mp hmem, hname]
    exact hat.behind.mono hrows

end

variable {runner : Runner} {phase : Phase} {turn : Turn}

section

variable (h : RunnerOk reader runner)
include h

theorem RunnerOk.setPhase (hphase : PhaseOk reader { runner with phase }) :
    RunnerOk reader { runner with phase } where
  __ := h
  phase := hphase

theorem RunnerOk.stop : RunnerOk reader { runner with phase := .idle } :=
  h.setPhase trivial

theorem RunnerOk.setIndexes {indexes : Catalog}
    (hphase : PhaseOk reader { runner with database := { runner.database with indexes }, phase }) :
    RunnerOk reader { runner with database := { runner.database with indexes }, phase } where
  __ := h
  phase := hphase

theorem RunnerOk.finish {row : MigrationRow} (hrow : row ∈ runner.database.rows)
    (hkept : row.rolledBack = false)
    (hchecksum : ∀ file ∈ runner.files, file.name = row.migrationName → row.checksum = file.checksum reader)
    (hphase : PhaseOk reader { runner with database := recordFinished runner.database row.id, phase }) :
    RunnerOk reader { runner with database := recordFinished runner.database row.id, phase } where
  nodup := h.nodup
  rows := h.rows.recordFinished hrow hkept hchecksum
  executed := h.executed.recordFinished h.rows hrow hkept
  tried := by
    refine h.tried.of_names ?_ (triedNames_recordFinished _)
    intro other hother
    rw [finishedRow_recordFinished h.rows hrow hkept, hother, Bool.or_true]
  phase := hphase

theorem RunnerOk.rollBack {row : MigrationRow} (hrow : row ∈ runner.database.rows)
    (hunfinished : row.finished = false)
    (hphase : PhaseOk reader { runner with database := recordRolledBack runner.database row.id, phase }) :
    RunnerOk reader { runner with database := recordRolledBack runner.database row.id, phase } where
  nodup := h.nodup
  rows := h.rows.recordRolledBack hrow hunfinished
  executed := h.executed.recordRolledBack h.rows hrow hunfinished
  tried := by
    refine h.tried.of_names ?_ (triedNames_recordRolledBack _)
    intro other hother
    rwa [finishedRow_recordRolledBack h.rows hrow hunfinished]
  phase := hphase

theorem RunnerOk.start (hat : AtFile runner.files runner.database.rows turn)
    (hphase : ∀ runner' : Runner, runner'.phase = phase → AtFile runner'.files runner'.database.rows turn →
      startedRow reader runner.database.rows.length turn.migration ∈ runner'.database.rows → PhaseOk reader runner') :
    RunnerOk reader (startRow reader runner turn phase) where
  nodup := h.nodup
  rows := h.rows.recordStarted _ hat.mem_names
  executed := h.executed.recordStarted _ _
  tried := h.tried.concat hat rfl fun name hname => (finishedRow_recordStarted _ _ name).trans hname
  phase := by
    apply hphase _ rfl
    · exact hat.of_same (fun name => finishedRow_recordStarted _ _ _) (triedNames_append _)
    · exact mem_append_right _ mem_cons_self

theorem runnerOk_finishTurn {ending : Ending} {id : ℕ} (heq : runner.phase = .finishing ending id turn) :
    RunnerOk reader (finishTurn runner turn id) := by
  have hphase := h.phase
  unfold PhaseOk at hphase
  rw [heq] at hphase
  obtain ⟨hat, hrow⟩ := hphase
  apply h.finish hrow rfl
  · exact checksum_startedRow h.nodup hat.mem id
  · apply hat.finish h.nodup (finishedRow_recordFinished h.rows hrow rfl)
    rw [triedNames_recordFinished]
    exact List.Subset.refl _

theorem runnerOk_settleRow {settled rest : List MigrationRow} {row : MigrationRow}
    (hrows : runner.database.rows = settled ++ row :: rest) :
    RunnerOk reader (settleRow reader runner settled row rest) := by
  have hrow : row ∈ runner.database.rows := by
    rw [hrows]
    exact mem_append_right _ mem_cons_self
  have hskip : RunnerOk reader { runner with phase := .settling (settled ++ [row]) rest } := by
    apply h.setPhase
    show runner.database.rows = settled ++ [row] ++ rest
    rw [hrows, append_assoc]
    rfl
  unfold settleRow
  split
  · exact hskip
  rename_i hclosed
  have hopen : row.finished = false ∧ row.rolledBack = false := by simpa using hclosed
  split
  · exact hskip
  rename_i file hfile
  have hmem : file ∈ runner.files := mem_of_find?_eq_some hfile
  have hname : file.name = row.migrationName := by simpa using find?_some hfile
  split
  · exact hskip
  split
  · rename_i hplace
    have hchecksum : row.checksum = file.checksum reader := by
      simp only [Bool.and_eq_true, decide_eq_true_eq] at hplace
      exact hplace.1
    apply h.finish hrow hopen.2
    · intro other hother hsame
      rw [Table.eq_of_key h.nodup hother hmem (hsame.trans hname.symm), hchecksum]
    · show (recordFinished runner.database row.id).rows = _
      rw [rows_recordFinished h.rows hrows, append_assoc]
      rfl
  · apply h.rollBack hrow hopen.1
    show (recordRolledBack runner.database row.id).rows = _
    rw [rows_recordRolledBack h.rows hrows, append_assoc]
    rfl

theorem runnerOk_assertSettled (recorded : List MigrationRow) (hrecorded : runner.database.rows = recorded) :
    RunnerOk reader (assertSettled reader runner recorded) := by
  unfold assertSettled
  split
  · exact { h with phase := trivial }
  · apply h.setPhase
    rw [← hrecorded]
    exact ⟨⟨[], rfl, nofun⟩, fun _ _ => rfl, List.Subset.refl _⟩

theorem runnerOk_applyNext
    (hat : AtLoop runner.files runner.database.rows turn.recorded (turn.migration :: turn.rest)) :
    RunnerOk reader (applyNext reader runner turn) := by
  unfold applyNext
  dsimp only
  split
  · exact h.setPhase (hat.next ‹_›)
  rename_i hfinished
  have hat' := hat.atFile (eq_false_of_ne_true hfinished)
  split_ifs with hplace hconcurrent
  · apply h.start hat'
    intro runner' hphase hstay hrow
    rw [PhaseOk, hphase]
    exact ⟨hstay, hrow⟩
  · refine h.setPhase ⟨hat', hconcurrent, ?_⟩
    intro target htarget
    obtain ⟨created, hcreated, rfl⟩ := mem_filterMap.mp htarget
    exact hcreated
  · exact h.setPhase ⟨hat', rfl, eq_false_of_ne_true hconcurrent, rfl⟩

section

variable (hat : AtFile runner.files runner.database.rows turn)
include hat

theorem runnerOk_dropNext (hconcurrent : turn.migration.isConcurrent reader) {targets : List IndexName}
    (htargets : ∀ target ∈ targets, some target ∈ (reader.indexTargets turn.migration.sql).created)
    (indexes : Catalog) :
    RunnerOk reader (dropNext reader runner turn targets indexes) := by
  cases targets with
  | nil =>
    apply h.start hat
    intro runner' hphase hstay hrow
    rw [PhaseOk, hphase]
    exact ⟨hstay, hrow, hconcurrent⟩
  | cons target targets =>
    dsimp only [dropNext]
    split_ifs with hinvalid
    · exact h.setIndexes ⟨hat, hconcurrent, forall_mem_of_forall_mem_cons htargets⟩
    · exact h.setPhase ⟨hat, hconcurrent, forall_mem_of_forall_mem_cons htargets⟩

theorem runnerOk_runConcurrently {id : ℕ} (hrow : startedRow reader id turn.migration ∈ runner.database.rows)
    (indexes : Catalog) : RunnerOk reader (runConcurrently reader runner turn id indexes) where
  nodup := h.nodup
  rows := h.rows
  executed := h.executed.concat hat _ _
  tried := h.tried
  phase := ⟨hat, hrow⟩

theorem runnerOk_runCommitted {part id : ℕ}
    (hrow : startedRow reader id turn.migration ∈ runner.database.rows)
    (htransactional : turn.migration.isConcurrent reader = false) (indexes : Catalog) :
    RunnerOk reader (runCommitted reader runner turn part id indexes) where
  nodup := h.nodup
  rows := h.rows
  executed := h.executed.concat hat _ _
  tried := h.tried
  phase := by
    dsimp only [runCommitted]
    split_ifs with hmore
    · exact ⟨hat, hrow, htransactional, hmore⟩
    · exact ⟨hat, hrow⟩

end

/-- The SQL of a transaction commits its first part, with the row of the file. -/
def commitFirst (reader : SqlReader) (runner : Runner) (turn : Turn) (indexes : Catalog) : Runner :=
  let id := runner.database.rows.length
  runCommitted reader (startRow reader runner turn (.committed 0 id turn)) turn 0 id indexes

omit h in
/-- A call of a transaction publishes nothing, or what the SQL commits, or that and the row as
finished. -/
theorem runTransaction_cases {stage : TransactionStage} {work : Database}
    (hwork : stageWork reader runner.database work turn.migration stage) (indexes : Catalog) :
    let result := runTransaction reader runner turn stage runner.database.rows.length work indexes
    (∃ stage' work', stageWork reader runner.database work' turn.migration stage' ∧
      result = { runner with phase := .transaction stage' runner.database.rows.length turn work' }) ∨
    ∃ indexes', result = commitFirst reader runner turn indexes' ∨
      (commitFirst reader runner turn indexes').phase = .finishing .ownCommit runner.database.rows.length turn ∧
        result = finishTurn (commitFirst reader runner turn indexes') turn runner.database.rows.length := by
  cases stage with
  | insert => exact .inl ⟨.sql, _, congrArg (recordStarted · _ _) hwork, rfl⟩
  | sql =>
    rw [show work = _ from hwork]
    by_cases hlast : turn.migration.lastPart reader = 0
    · exact .inl ⟨.finish, _, ⟨hlast, indexes, rfl⟩, if_pos hlast⟩
    · refine .inr ⟨indexes, .inl ?_⟩
      dsimp only [runTransaction, commitFirst, runCommitted]
      rw [if_neg hlast, if_pos (Nat.pos_of_ne_zero hlast)]
      rfl
  | finish =>
    obtain ⟨hlast, indexes', rfl⟩ := hwork
    exact .inl ⟨.commit, _, ⟨hlast, indexes', rfl⟩, rfl⟩
  | commit =>
    obtain ⟨hlast, indexes', rfl⟩ := hwork
    have hphase : ¬0 < turn.migration.lastPart reader := by omega
    exact .inr ⟨indexes', .inr ⟨if_neg hphase, rfl⟩⟩

section

variable (hat : AtFile runner.files runner.database.rows turn)
  (htransactional : turn.migration.isConcurrent reader = false)
include hat htransactional

theorem runnerOk_committed :
    RunnerOk reader (startRow reader runner turn (.committed 0 runner.database.rows.length turn)) := by
  apply h.start hat
  intro runner' hphase hstay hrow
  rw [PhaseOk, hphase]
  exact ⟨hstay, hrow, htransactional, Nat.zero_le _⟩

theorem runnerOk_commitFirst (indexes : Catalog) :
    RunnerOk reader (commitFirst reader runner turn indexes) := by
  have hok := runnerOk_committed h hat htransactional
  exact runnerOk_runCommitted hok hok.phase.1 hok.phase.2.1 htransactional indexes

theorem runnerOk_runTransaction {stage : TransactionStage} {work : Database}
    (hwork : stageWork reader runner.database work turn.migration stage) (indexes : Catalog) :
    RunnerOk reader (runTransaction reader runner turn stage runner.database.rows.length work indexes) := by
  obtain ⟨stage', work', hwork', heq⟩ | ⟨indexes', heq | ⟨hphase, heq⟩⟩ := runTransaction_cases hwork indexes
  · rw [heq]
    exact h.setPhase ⟨hat, rfl, htransactional, hwork'⟩
  · rw [heq]
    exact runnerOk_commitFirst h hat htransactional indexes'
  · rw [heq]
    exact runnerOk_finishTurn (runnerOk_commitFirst h hat htransactional indexes') hphase

end

theorem runnerOk_proceed (indexes : Catalog) : RunnerOk reader (runner.proceed reader indexes) := by
  have hphase := h.phase
  unfold PhaseOk at hphase
  unfold Runner.proceed
  split at hphase <;> rename_i heq <;> rw [heq]
  · exact h
  · rename_i settled rest
    cases rest with
    | nil => exact runnerOk_assertSettled h settled (by rwa [append_nil] at hphase)
    | cons row rest => exact runnerOk_settleRow h hphase
  · rename_i recorded rest
    cases rest with
    | nil => exact h.stop
    | cons migration rest => exact runnerOk_applyNext h hphase
  · exact runnerOk_dropNext h hphase.1 hphase.2.1 hphase.2.2 indexes
  · exact runnerOk_runConcurrently h hphase.1 hphase.2.1 indexes
  · obtain ⟨hat, rfl, htransactional, hwork⟩ := hphase
    exact runnerOk_runTransaction h hat htransactional hwork indexes
  · exact runnerOk_runCommitted h hphase.1 hphase.2.1 hphase.2.2.1 indexes
  · exact runnerOk_finishTurn h heq
  · obtain ⟨row, hrow, rfl, hunfinished⟩ := hphase
    exact h.rollBack hrow hunfinished trivial

theorem runnerOk_fail (indexes : Catalog) : RunnerOk reader (runner.fail indexes) := by
  have hphase := h.phase
  unfold PhaseOk at hphase
  unfold Runner.fail
  split <;> rename_i heq
  · rw [heq] at hphase
    exact h.setIndexes ⟨_, hphase.2.1, rfl, rfl⟩
  · rw [heq] at hphase
    exact h.setPhase ⟨_, hphase.2, rfl, rfl⟩
  · exact h.stop

end

end ArdurBot.Migrations
