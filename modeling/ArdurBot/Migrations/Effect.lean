import ArdurBot.Migrations.RunnerRun

/-!
# What took effect

A run may take what it finds in place for the work of a file. Where runs and edits are sound,
indexes are in place only by SQL of the file's text, or while its SQL runs; so a row is finished
only with the checksum of SQL that took effect, and the SQL of a transactional file takes effect in
one attempt.
-/

namespace ArdurBot.Migrations

open List Utf16 Option Bool

variable {reader : SqlReader} {runner : Runner} {executed : List Execution}
  {migration file : SqlMigration} {rows settled : List MigrationRow} {row : MigrationRow}
  {turn : Turn} {indexes : Catalog} {phase : Phase} {name checksum : Text} {attempt part id : ℕ}

/-- SQL of this checksum took effect for the file, in all of its parts. -/
def RanAs (executed : List Execution) (name checksum : Text) : Prop :=
  ∃ lastPart, ∀ part ≤ lastPart, ∃ execution ∈ executed,
    execution.name = name ∧ execution.checksum = checksum ∧ execution.part = part ∧ execution.lastPart = lastPart

def TookEffect (reader : SqlReader) (executed : List Execution) (migration : SqlMigration) : Prop :=
  RanAs executed migration.name (migration.checksum reader)

/-- The parts before this one took effect. -/
def PartsRan (reader : SqlReader) (executed : List Execution) (migration : SqlMigration) (part : ℕ) : Prop :=
  ∀ earlier < part, ∃ execution ∈ executed, execution.name = migration.name ∧
    execution.checksum = migration.checksum reader ∧ execution.part = earlier ∧
    execution.lastPart = migration.lastPart reader

theorem RanAs.concat (h : RanAs executed name checksum) (execution : Execution) :
    RanAs (executed ++ [execution]) name checksum := by
  obtain ⟨lastPart, h⟩ := h
  refine ⟨lastPart, fun part hle => ?_⟩
  obtain ⟨other, hmem, hsame⟩ := h part hle
  exact ⟨other, mem_append_left _ hmem, hsame⟩

theorem RanAs.exists (h : RanAs executed name checksum) :
    ∃ execution ∈ executed, execution.name = name ∧ execution.checksum = checksum := by
  obtain ⟨lastPart, h⟩ := h
  obtain ⟨execution, hmem, hname, hchecksum, -⟩ := h 0 (Nat.zero_le _)
  exact ⟨execution, hmem, hname, hchecksum⟩

theorem PartsRan.concat (h : PartsRan reader executed migration part) (attempt : ℕ) :
    PartsRan reader (executed ++ [migration.execution reader attempt part]) migration (part + 1) := by
  intro earlier hlt
  obtain hlt | rfl := Nat.lt_succ_iff_lt_or_eq.mp hlt
  · obtain ⟨other, hmem, hsame⟩ := h earlier hlt
    exact ⟨other, mem_append_left _ hmem, hsame⟩
  · exact ⟨_, mem_append_right _ mem_cons_self, rfl, rfl, rfl, rfl⟩

theorem partsRan_zero : PartsRan reader executed migration 0 :=
  fun _ hlt => absurd hlt (Nat.not_lt_zero _)

theorem PartsRan.tookEffect (h : PartsRan reader executed migration part)
    (hlast : migration.lastPart reader < part) :
    TookEffect reader executed migration :=
  ⟨migration.lastPart reader, fun earlier hle => h earlier (Nat.lt_of_le_of_lt hle hlast)⟩

/-- A row that is about to be finished is of SQL that took effect. -/
def PhaseRecorded (reader : SqlReader) (executed : List Execution) : Phase → Prop
  | .committed part _ turn => PartsRan reader executed turn.migration part
  | .finishing _ _ turn => TookEffect reader executed turn.migration
  | _ => True

/-- The execution is of the attempt that the run is in, whose SQL has committed it. -/
def Phase.Continues (execution : Execution) : Phase → Prop
  | .committed part id turn =>
    execution.name = turn.migration.name ∧ execution.attempt = id ∧ execution.part < part
  | .finishing .ownCommit _ turn => execution.name = turn.migration.name
  | _ => False

/-- The run is about to run the SQL of the file, which builds its indexes concurrently. -/
def Phase.Runs (file : SqlMigration) : Phase → Prop
  | .started _ turn => turn.migration = file
  | _ => False

/-- What is in place of a file that was begun is the work of its SQL, or its SQL is about to run. -/
def InPlaceOk (reader : SqlReader) (runner : Runner) : Prop :=
  ∀ file ∈ runner.files, file.name ∈ triedNames runner.database.rows →
    finishedRow runner.database.rows file.name = false → file.isConcurrent reader →
    file.inPlace reader runner.database.indexes →
    runner.phase.Runs file ∨ TookEffect reader runner.database.executed file

structure Traced (reader : SqlReader) (runner : Runner) : Prop where
  finished : ∀ row ∈ runner.database.rows, row.finished →
    RanAs runner.database.executed row.migrationName row.checksum
  phase : PhaseRecorded reader runner.database.executed runner.phase
  parts : runner.database.executed.Pairwise fun earlier later => earlier.transactional →
    earlier.name = later.name → earlier.attempt = later.attempt ∧ earlier.part < later.part
  done : ∀ execution ∈ runner.database.executed, execution.transactional →
    finishedRow runner.database.rows execution.name ∨ runner.phase.Continues execution
  inPlace : InPlaceOk reader runner

/-- No SQL has committed, or is about to run. -/
def Phase.isPlain : Phase → Bool
  | .started .. => false
  | .committed .. => false
  | .finishing .ownCommit .. => false
  | _ => true

theorem Phase.not_continues (h : phase.isPlain) (execution : Execution) : ¬phase.Continues execution := by
  cases phase with
  | committed => cases h
  | finishing ending => cases ending <;> first | exact not_false | cases h
  | _ => exact not_false

theorem Phase.not_runs (h : phase.isPlain) (file : SqlMigration) : ¬phase.Runs file := by
  cases phase <;> first | exact not_false | cases h

theorem Phase.isPlain_of_mayEnd (h : phase.mayEnd reader indexes) :
    phase.isPlain ∨ ∃ id turn, phase = .started id turn ∧ turn.migration.inPlace reader indexes = false := by
  cases phase with
  | started id turn => exact .inr ⟨id, turn, rfl, (not_eq_true' _).mp h⟩
  | committed => cases h
  | finishing ending =>
    cases ending with
    | adopted | concurrently => exact .inl rfl
    | ownCommit => cases h
  | _ => exact .inl rfl

section

variable (h : Traced reader runner)
include h

theorem Traced.of_same {database : Database} {refusals : List Refusal}
    (hruns : ∀ file, ¬runner.phase.Runs file)
    (hindexes : database.indexes = runner.database.indexes)
    (hexecuted : database.executed = runner.database.executed)
    (hfinished : ∀ row ∈ database.rows, row.finished →
      RanAs runner.database.executed row.migrationName row.checksum)
    (hmono : ∀ name, finishedRow runner.database.rows name → finishedRow database.rows name)
    (htried : triedNames database.rows ⊆ triedNames runner.database.rows)
    (hphase : PhaseRecorded reader runner.database.executed phase)
    (hcontinues : ∀ execution, runner.phase.Continues execution →
      finishedRow database.rows execution.name ∨ phase.Continues execution) :
    Traced reader { runner with database, phase, refusals } where
  finished := by rwa [hexecuted]
  phase := by rwa [hexecuted]
  parts := by
    rw [hexecuted]
    exact h.parts
  done := by
    rw [hexecuted]
    intro execution hmem htransactional
    obtain hdone | hcontinued := h.done execution hmem htransactional
    · exact .inl (hmono _ hdone)
    · exact hcontinues execution hcontinued
  inPlace := by
    unfold InPlaceOk
    rw [hexecuted, hindexes]
    intro file hfile hname hunfinished hconcurrent hplace
    have hbefore : finishedRow runner.database.rows file.name = false := by
      by_contra hnot
      rw [hmono _ (eq_true_of_ne_false hnot)] at hunfinished
      cases hunfinished
    exact .inr ((h.inPlace file hfile (htried hname) hbefore hconcurrent hplace).resolve_left (hruns file))

theorem Traced.done_of_plain (hplain : runner.phase.isPlain) : ∀ execution ∈ runner.database.executed,
    execution.transactional → finishedRow runner.database.rows execution.name :=
  fun execution hmem htransactional =>
    (h.done execution hmem htransactional).resolve_right (Phase.not_continues hplain execution)

/-- An execution of a file that is not finished is the next part of its attempt, or the first. -/
theorem Traced.parts_concat (hat : AtFile runner.files runner.database.rows turn)
    (hnext : ∀ execution, runner.phase.Continues execution → execution.name = turn.migration.name →
      execution.attempt = attempt ∧ execution.part < part) :
    (runner.database.executed ++ [turn.migration.execution reader attempt part]).Pairwise fun earlier later =>
      earlier.transactional → earlier.name = later.name →
        earlier.attempt = later.attempt ∧ earlier.part < later.part := by
  rw [pairwise_append]
  refine ⟨h.parts, pairwise_singleton _ _, ?_⟩
  intro execution hmem later hlater htransactional hname
  rw [mem_singleton.mp hlater] at hname ⊢
  obtain hdone | hcontinued := h.done execution hmem htransactional
  · rw [hname, show (turn.migration.execution reader attempt part).name = turn.migration.name from rfl,
      hat.unfinished] at hdone
    cases hdone
  · exact hnext execution hcontinued hname

section

variable (hplain : runner.phase.isPlain = true)
include hplain

theorem Traced.move {refusals : List Refusal} (hphase : PhaseRecorded reader runner.database.executed phase) :
    Traced reader { runner with phase, refusals } :=
  @Traced.of_same _ _ _ h runner.database refusals (Phase.not_runs hplain) rfl rfl h.finished
    (fun _ hname => hname)
    (List.Subset.refl _) hphase fun execution hcontinued => absurd hcontinued (Phase.not_continues hplain execution)

end

section

variable (hok : RunnerOk reader runner)
include hok

theorem Traced.finish (hrow : row ∈ runner.database.rows) (hkept : row.rolledBack = false)
    (heffect : RanAs runner.database.executed row.migrationName row.checksum)
    (hruns : ∀ file, ¬runner.phase.Runs file)
    (hcontinues : ∀ execution, runner.phase.Continues execution → row.migrationName = execution.name)
    (hphase : PhaseRecorded reader runner.database.executed phase) :
    Traced reader { runner with database := recordFinished runner.database row.id, phase } := by
  have hfinished := finishedRow_recordFinished hok.rows hrow hkept
  refine h.of_same hruns rfl rfl ?_ ?_ ?_ hphase ?_
  · intro other hother hdone
    obtain ⟨hmem, -⟩ | rfl := mem_recordFinished hok.rows hrow hother
    · exact h.finished other hmem hdone
    · exact heffect
  · intro name hname
    rw [hfinished, hname, Bool.or_true]
  · intro name hname
    rwa [triedNames_recordFinished] at hname
  · intro execution hcontinued
    rw [hfinished, decide_eq_true (hcontinues execution hcontinued), Bool.true_or]
    exact .inl rfl

theorem Traced.rollBack (hplain : runner.phase.isPlain) (hrow : row ∈ runner.database.rows)
    (hunfinished : row.finished = false) (hphase : PhaseRecorded reader runner.database.executed phase) :
    Traced reader { runner with database := recordRolledBack runner.database row.id, phase } := by
  refine h.of_same (Phase.not_runs hplain) rfl rfl ?_ ?_ ?_ hphase ?_
  · intro other hother hdone
    obtain ⟨hmem, -⟩ | rfl := mem_recordRolledBack hok.rows hrow hother
    · exact h.finished other hmem hdone
    · rw [show row.finished from hdone] at hunfinished
      cases hunfinished
  · intro name hname
    rwa [finishedRow_recordRolledBack hok.rows hrow hunfinished]
  · intro name hname
    rwa [triedNames_recordRolledBack] at hname
  · intro execution hcontinued
    exact absurd hcontinued (Phase.not_continues hplain execution)

/-- What is in place of a file that was begun took effect. -/
theorem tookEffect_of_tried (hplain : runner.phase.isPlain) (hfile : file ∈ runner.files)
    (hname : file.name ∈ triedNames runner.database.rows) (hconcurrent : file.isConcurrent reader)
    (hplace : file.inPlace reader runner.database.indexes) :
    TookEffect reader runner.database.executed file := by
  cases hfinished : finishedRow runner.database.rows file.name with
  | true =>
    obtain ⟨row, hrow, hsame, hdone, -⟩ := finishedRow_iff.mp hfinished
    have heffect := h.finished row hrow hdone
    rwa [hok.rows.checksums row hrow hdone file hfile hsame.symm, hsame] at heffect
  | false => exact (h.inPlace file hfile hname hfinished hconcurrent hplace).resolve_left (Phase.not_runs hplain file)

theorem traced_settleRow (hplain : runner.phase.isPlain)
    (hrows : runner.database.rows = settled ++ row :: rows) :
    Traced reader (settleRow reader runner settled row rows) := by
  have hrow : row ∈ runner.database.rows := by
    rw [hrows]
    exact mem_append_right _ mem_cons_self
  unfold settleRow
  split
  · exact h.move hplain trivial
  rename_i hclosed
  have hopen : row.finished = false ∧ row.rolledBack = false := by simpa using hclosed
  split
  · exact h.move hplain trivial
  rename_i file hfile
  obtain ⟨hmem, hname⟩ := (findFile_eq_some hok).mp hfile
  split
  · exact h.move hplain trivial
  rename_i hconcurrent
  split
  · rename_i hplace
    rw [and_eq_true, decide_eq_true_eq] at hplace
    have heffect := tookEffect_of_tried h hok hplain hmem (hname ▸ mem_map_of_mem hrow)
        (by simpa using hconcurrent) hplace.2
    unfold TookEffect at heffect
    rw [hname, ← hplace.1] at heffect
    exact h.finish hok hrow hopen.2 heffect (Phase.not_runs hplain)
      (fun execution hcontinued => absurd hcontinued (Phase.not_continues hplain execution)) trivial
  · exact h.rollBack hok hplain hrow hopen.1 trivial

end

end

theorem finished_recordStarted {database : Database}
    (hrow : row ∈ (recordStarted database name checksum).rows)
    (hfinished : row.finished) : row ∈ database.rows := by
  obtain hrow | hrow := mem_append.mp hrow
  · exact hrow
  · rw [mem_singleton.mp hrow] at hfinished
    cases hfinished

/-- Of what may be in place, only the file that the run is at was begun and is not finished. -/
theorem inPlace_of_at (hok : RunnerOk reader runner) (hat : AtFile runner.files runner.database.rows turn)
    (hwork : turn.migration.isConcurrent reader → turn.migration.inPlace reader runner.database.indexes →
      runner.phase.Runs turn.migration ∨ TookEffect reader runner.database.executed turn.migration) :
    InPlaceOk reader runner := by
  intro file hfile hname hunfinished hconcurrent hplace
  obtain rfl := hat.only hok.nodup hok.tried hfile hname hunfinished
  exact hwork hconcurrent hplace

section

variable (hok : RunnerOk reader runner) (h : Traced reader runner)
include hok h

omit hok in
theorem traced_startRow (hplain : runner.phase.isPlain)
    (hphase : PhaseRecorded reader runner.database.executed phase)
    (hin : InPlaceOk reader (startRow reader runner turn phase)) :
    Traced reader (startRow reader runner turn phase) where
  finished row hrow hfinished := h.finished row (finished_recordStarted hrow hfinished) hfinished
  phase := hphase
  parts := h.parts
  done execution hmem htransactional :=
    .inl ((finishedRow_recordStarted _ _ _).trans (h.done_of_plain hplain execution hmem htransactional))
  inPlace := hin

theorem traced_applyNext (hplain : runner.phase.isPlain)
    (hat : AtLoop runner.files runner.database.rows turn.recorded (turn.migration :: turn.rest)) :
    Traced reader (applyNext reader runner turn) := by
  unfold applyNext
  dsimp only
  split
  · exact h.move hplain trivial
  split
  · rename_i hplace
    rw [and_eq_true] at hplace
    obtain ⟨htried, hplace⟩ := hplace
    have hmem : turn.migration ∈ runner.files := by
      obtain ⟨pre, hsplit, -⟩ := hat.split
      rw [hsplit]
      exact mem_append_right _ mem_cons_self
    have hname : turn.migration.name ∈ triedNames runner.database.rows := by
      unfold triedConcurrently at htried
      rw [and_eq_true, List.any_eq_true] at htried
      obtain ⟨row, hrow, hsame⟩ := htried.2
      rw [← of_decide_eq_true hsame]
      exact hat.known (mem_map_of_mem hrow)
    have heffect := tookEffect_of_tried h hok hplain hmem hname (isConcurrent_of_tried htried) hplace
    refine h.of_same (Phase.not_runs hplain) rfl rfl ?_ ?_ ?_ heffect ?_
    · intro row hrow hfinished
      exact h.finished row (finished_recordStarted hrow hfinished) hfinished
    · intro other hother
      rwa [finishedRow_recordStarted]
    · intro other hother
      obtain ⟨row, hrow, rfl⟩ := mem_map.mp hother
      obtain hrow | hrow := mem_append.mp hrow
      · exact mem_map_of_mem hrow
      · rw [mem_singleton.mp hrow]
        exact hname
    · intro execution hcontinued
      exact absurd hcontinued (Phase.not_continues hplain execution)
  split
  · exact h.move hplain trivial
  · exact h.move hplain trivial

theorem traced_dropNext {targets : List IndexName} (hphase : runner.phase = .dropping targets turn)
    (indexes : Catalog) :
    Traced reader (dropNext reader runner turn targets indexes) := by
  have hat := hok.phase
  unfold PhaseOk at hat
  rw [hphase] at hat
  obtain ⟨hat, hconcurrent, htargets⟩ := hat
  have hplain : runner.phase.isPlain := congrArg Phase.isPlain hphase
  have hdone := h.done_of_plain hplain
  have hok' := runnerOk_dropNext hok hat hconcurrent htargets indexes
  revert hok'
  cases targets with
  | nil => exact fun hok' =>
    traced_startRow h hplain trivial (inPlace_of_at hok' hok'.phase.1 fun _ _ => .inl rfl)
  | cons target targets =>
    dsimp only [dropNext]
    split
    · intro hok'
      constructor
      · exact h.finished
      · trivial
      · exact h.parts
      · exact fun execution hmem htransactional => .inl (hdone execution hmem htransactional)
      · apply inPlace_of_at hok' hok'.phase.1
        intro _ hplace
        -- an index that was dropped is not in place
        have hgone : (reader.indexTargets turn.migration.sql).created.all
            (fun other => other.all fun other => Function.update indexes target none other = some true) = true := by
          unfold SqlMigration.inPlace indexesInPlace at hplace
          split at hplace
          · cases hplace
          · exact (and_eq_true_iff.mp hplace).1
        have hvalid := all_eq_true.mp hgone _ (htargets target mem_cons_self)
        simp at hvalid
    · exact fun _ => h.move hplain trivial

theorem traced_runConcurrently (hphase : runner.phase = .started id turn) (indexes : Catalog) :
    Traced reader (runConcurrently reader runner turn id indexes) := by
  have hat := hok.phase
  unfold PhaseOk at hat
  rw [hphase] at hat
  obtain ⟨hat, hrow, hconcurrent⟩ := hat
  have hcontinues : ∀ execution, ¬runner.phase.Continues execution := by
    rw [hphase]
    exact fun _ => not_false
  have hlast : turn.migration.lastPart reader = 0 := if_pos hconcurrent
  have heffect : TookEffect reader (runner.database.executed ++
      [turn.migration.execution reader id 0]) turn.migration :=
    (partsRan_zero.concat id).tookEffect (by omega)
  constructor
  · exact fun row hrow hfinished => (h.finished row hrow hfinished).concat _
  · exact heffect
  · exact h.parts_concat hat fun execution hcontinued => absurd hcontinued (hcontinues execution)
  · intro execution hmem htransactional
    obtain hmem | hmem := mem_append.mp hmem
    · exact .inl ((h.done execution hmem htransactional).resolve_right (hcontinues execution))
    · rw [mem_singleton.mp hmem] at htransactional
      simp [SqlMigration.execution, hconcurrent] at htransactional
  · exact inPlace_of_at (runnerOk_runConcurrently hok hat hrow indexes) hat fun _ _ => .inr heffect

theorem traced_runCommitted (hphase : runner.phase = .committed part id turn) (indexes : Catalog) :
    Traced reader (runCommitted reader runner turn part id indexes) := by
  have hat := hok.phase
  unfold PhaseOk at hat
  rw [hphase] at hat
  obtain ⟨hat, hrow, htransactional, hle⟩ := hat
  have hran := h.phase
  rw [hphase] at hran
  have hcontinues : ∀ execution, runner.phase.Continues execution →
      execution.name = turn.migration.name ∧ execution.attempt = id ∧ execution.part < part := by
    rw [hphase]
    exact fun _ hcontinued => hcontinued
  have hnext := PartsRan.concat hran id
  constructor
  · exact fun row hrow hfinished => (h.finished row hrow hfinished).concat _
  · dsimp only [runCommitted]
    split_ifs with hmore
    · exact hnext
    · exact hnext.tookEffect (by omega)
  · exact h.parts_concat hat fun execution hcontinued _ => (hcontinues execution hcontinued).2
  · intro execution hmem htr
    obtain hdone | hsame : finishedRow runner.database.rows execution.name ∨
        execution.name = turn.migration.name ∧ execution.attempt = id ∧ execution.part < part + 1 := by
      obtain hmem | hmem := mem_append.mp hmem
      · refine (h.done execution hmem htr).imp_right fun hcontinued => ?_
        obtain ⟨hname, hattempt, hlt⟩ := hcontinues execution hcontinued
        exact ⟨hname, hattempt, Nat.lt_succ_of_lt hlt⟩
      · rw [mem_singleton.mp hmem]
        exact .inr ⟨rfl, rfl, Nat.lt_succ_self _⟩
    · exact .inl hdone
    · refine .inr ?_
      dsimp only [runCommitted]
      split_ifs
      · exact hsame
      · exact hsame.1
  · apply inPlace_of_at (runnerOk_runCommitted hok hat hrow htransactional indexes) hat
    intro hconcurrent
    rw [htransactional] at hconcurrent
    cases hconcurrent

theorem traced_commitFirst (hplain : runner.phase.isPlain)
    (hat : AtFile runner.files runner.database.rows turn)
    (htransactional : turn.migration.isConcurrent reader = false) (indexes : Catalog) :
    Traced reader (commitFirst reader runner turn indexes) := by
  have hok' := runnerOk_committed hok hat htransactional
  refine traced_runCommitted hok'
    (traced_startRow h hplain partsRan_zero (inPlace_of_at hok' hok'.phase.1 ?_)) rfl indexes
  intro hconcurrent
  rw [htransactional] at hconcurrent
  cases hconcurrent

theorem traced_finishTurn {ending : Ending} (heq : runner.phase = .finishing ending id turn) :
    Traced reader (finishTurn runner turn id) := by
  have hphase := hok.phase
  have hran := h.phase
  unfold PhaseOk at hphase
  rw [heq] at hphase hran
  refine h.finish hok hphase.2 rfl hran ?_ ?_ trivial
  · rw [heq]
    exact fun _ => not_false
  · rw [heq]
    cases ending with
    | adopted | concurrently => exact fun _ => False.elim
    | ownCommit => exact fun _ => Eq.symm

theorem traced_proceed (indexes : Catalog) : Traced reader (runner.proceed reader indexes) := by
  have hphase := hok.phase
  unfold PhaseOk at hphase
  unfold Runner.proceed
  split at hphase <;> rename_i heq <;> have hplain := congrArg Phase.isPlain heq <;> rw [heq]
  · exact h
  · rename_i settled rest
    cases rest with
    | nil =>
      show Traced reader (assertSettled reader runner settled)
      unfold assertSettled
      split
      · exact h.move hplain trivial
      · exact h.move hplain trivial
    | cons row rest => exact traced_settleRow h hok hplain hphase
  · rename_i recorded rest
    cases rest with
    | nil => exact h.move hplain trivial
    | cons migration rest => exact traced_applyNext hok h hplain hphase
  · exact traced_dropNext hok h heq indexes
  · exact traced_runConcurrently hok h heq indexes
  · obtain ⟨hat, rfl, htransactional, hwork⟩ := hphase
    dsimp only
    obtain ⟨stage', work', -, hsame⟩ | ⟨indexes', hsame | ⟨hlast, hsame⟩⟩ := runTransaction_cases hwork indexes
    · rw [hsame]
      exact h.move hplain trivial
    · rw [hsame]
      exact traced_commitFirst hok h hplain hat htransactional indexes'
    · rw [hsame]
      exact traced_finishTurn (runnerOk_commitFirst hok hat htransactional indexes')
        (traced_commitFirst hok h hplain hat htransactional indexes') hlast
  · exact traced_runCommitted hok h heq indexes
  · exact traced_finishTurn hok h heq
  · obtain ⟨row, hrow, rfl, hunfinished⟩ := hphase
    exact h.rollBack hok hplain hrow hunfinished trivial

/-- The run leaves what it has started while its indexes are not in place. -/
theorem traced_leave (hphase : runner.phase = .started id turn)
    (hplace : turn.migration.inPlace reader indexes = false)
    (hok' : RunnerOk reader { runner with database := { runner.database with indexes }, phase })
    (hrecorded : PhaseRecorded reader runner.database.executed phase) :
    Traced reader { runner with database := { runner.database with indexes }, phase } := by
  have hat := hok.phase
  unfold PhaseOk at hat
  rw [hphase] at hat
  constructor
  · exact h.finished
  · exact hrecorded
  · exact h.parts
  · intro execution hmem htransactional
    refine .inl ((h.done execution hmem htransactional).resolve_right ?_)
    rw [hphase]
    exact not_false
  · apply inPlace_of_at hok' hat.1
    intro _ hin
    rw [show turn.migration.inPlace reader indexes from hin] at hplace
    cases hplace

theorem traced_cut (hend : runner.phase.mayEnd reader runner.database.indexes) :
    Traced reader { runner with phase := .idle } := by
  obtain hplain | ⟨id, turn, hphase, hplace⟩ := Phase.isPlain_of_mayEnd hend
  · exact h.move hplain trivial
  · exact traced_leave hok h hphase hplace hok.stop trivial

theorem traced_fail (hend : runner.phase.mayEnd reader indexes) : Traced reader (runner.fail indexes) := by
  obtain hplain | ⟨id, turn, hphase, hplace⟩ := Phase.isPlain_of_mayEnd hend
  · unfold Runner.fail
    split <;> rename_i heq
    · rw [heq] at hplain
      cases hplain
    · exact h.move hplain trivial
    · exact h.move hplain trivial
  · have hok' := runnerOk_fail hok indexes
    unfold Runner.fail at hok' ⊢
    rw [hphase] at hok' ⊢
    exact traced_leave hok h hphase hplace hok' trivial

theorem traced_apply (op : RunnerOp) (hsound : runner.Sound reader op) :
    Traced reader (RunnerOp.apply reader runner op) := by
  cases op with
  | edit name sql =>
    unfold RunnerOp.apply
    dsimp only
    split
    · refine { h with inPlace := ?_ }
      intro file hfile hname hunfinished hconcurrent hplace
      obtain hfile | ⟨rfl, hsql⟩ := mem_edit hfile
      · exact h.inPlace file hfile hname hunfinished hconcurrent hplace
      · have hnot := hsound.2 hname
        rw [← hsql, show indexesInPlace _ _ from hplace] at hnot
        cases hnot
    · exact h
  | start =>
    unfold RunnerOp.apply
    dsimp only
    split
    · rename_i hidle
      refine h.move ?_ trivial
      cases hphase : runner.phase <;> rw [hphase] at hidle <;> first | rfl | cases hidle
    · exact h
  | succeed indexes => exact traced_proceed hok h indexes
  | fail indexes => exact traced_fail hok h hsound
  | cut => exact traced_cut hok h hsound

end

end ArdurBot.Migrations
