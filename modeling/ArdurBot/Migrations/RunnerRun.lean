import ArdurBot.Migrations.RunnerOk

/-!
# Edits, cuts and refusals

What holds after any runs, and where runs and edits are sound: what was begun can be begun again, so
no run is refused.
-/

namespace ArdurBot.Migrations

open List Utf16 Option Bool

variable {reader : SqlReader} {runner : Runner}

/-! ### Edits and cuts -/

theorem names_edit (files : List SqlMigration) (name sql : Text) :
    (files.map fun file => if file.name = name then { file with sql } else file).map SqlMigration.name =
      files.map SqlMigration.name := by
  apply Table.map_key
  intro file
  split <;> rfl

variable {files : List SqlMigration} {name : Text} {file : SqlMigration} {runner' : Runner}
  {phase : Phase} {other row : MigrationRow} {rest settled : List MigrationRow} {turn : Turn}
  {indexes : Catalog}

theorem mem_edit {sql : Text}
    (hfile : file ∈ files.map fun file => if file.name = name then { file with sql } else file) :
    file ∈ files ∨ file.name = name ∧ file.sql = sql := by
  obtain ⟨other, hother, rfl⟩ := mem_map.mp hfile
  split
  · exact .inr ⟨‹_›, rfl⟩
  · exact .inl hother

section

variable {files' : List SqlMigration} {rows : List MigrationRow}
  (hnames : files'.map SqlMigration.name = files.map SqlMigration.name)
include hnames

theorem before_congr : Before files' = Before files := by
  funext name other
  unfold Before
  rw [hnames]

theorem behind_congr : Behind files' rows = Behind files rows := by
  funext name
  unfold Behind
  rw [hnames, before_congr hnames]

theorem ExecutedOk.of_names {executed : List Execution} (h : ExecutedOk files rows executed) :
    ExecutedOk files' rows executed where
  ordered := by
    rw [before_congr hnames]
    exact h.ordered
  behind := by
    rw [behind_congr hnames]
    exact h.behind

end

theorem runnerOk_apply (h : RunnerOk reader runner) (op : RunnerOp) :
    RunnerOk reader (RunnerOp.apply reader runner op) := by
  cases op with
  | edit name sql =>
    unfold RunnerOp.apply
    dsimp only
    split
    · rename_i hedit
      simp only [and_eq_true, not_eq_true'] at hedit
      constructor
      · show (map SqlMigration.name (map _ _)).Nodup
        rw [names_edit]
        exact h.nodup
      · constructor
        · exact h.rows.ids
        · rw [names_edit]
          exact h.rows.named
        · exact h.rows.closedOnce
        · intro row hrow hfinished file hfile hname
          obtain hfile | ⟨hedited, -⟩ := mem_edit hfile
          · exact h.rows.checksums row hrow hfinished file hfile hname
          · have hdone := finishedRow_iff.mpr ⟨row, hrow, rfl, hfinished, h.rows.closedOnce row hrow hfinished⟩
            rw [← hname, hedited, hedit.2] at hdone
            cases hdone
      · exact h.executed.of_names (names_edit _ _ _)
      · show TriedOk _ _
        unfold TriedOk
        rw [behind_congr (names_edit _ _ _)]
        exact h.tried
      · have hidle := hedit.1
        show PhaseOk reader { runner with files := _ }
        unfold PhaseOk
        cases hphase : runner.phase <;> rw [hphase] at hidle <;> trivial
    · exact h
  | start =>
    unfold RunnerOp.apply
    dsimp only
    split
    · exact h.setPhase rfl
    · exact h
  | succeed indexes => exact runnerOk_proceed h indexes
  | fail indexes => exact runnerOk_fail h indexes
  | cut => exact h.stop

/-- A call may fail here, or the run be cut off, with these indexes. -/
def Phase.mayEnd (reader : SqlReader) (indexes : Catalog) : Phase → Bool
  | .started _ turn => !turn.migration.inPlace reader indexes
  | .committed .. => false
  | .finishing .ownCommit .. => false
  | _ => true

/-- A file that was begun is edited to no text whose indexes are in place, and stays one that builds
its indexes concurrently while its row is open; and runs end only where they may. -/
def Runner.Sound (reader : SqlReader) (runner : Runner) : RunnerOp → Prop
  | .edit name sql =>
    ((∃ row ∈ runner.database.rows, row.isOpen ∧ row.migrationName = name) →
      reader.buildsIndexConcurrently sql) ∧
    (name ∈ triedNames runner.database.rows →
      indexesInPlace runner.database.indexes (reader.indexTargets sql) = false)
  | .fail indexes => runner.phase.mayEnd reader indexes
  | .cut => runner.phase.mayEnd reader runner.database.indexes
  | .start => True
  | .succeed _ => True

instance Runner.decidableSound (runner : Runner) : ∀ op, Decidable (runner.Sound reader op)
  | .edit _ _ => inferInstanceAs (Decidable (_ ∧ _))
  | .fail _ => inferInstanceAs (Decidable (_ = true))
  | .cut => inferInstanceAs (Decidable (_ = true))
  | .start => inferInstanceAs (Decidable True)
  | .succeed _ => inferInstanceAs (Decidable True)

/-! ### Runs are not refused -/

/-- The row of a file whose SQL has committed it. -/
def Phase.own : Phase → Option ℕ
  | .committed _ id _ => some id
  | .finishing .ownCommit id _ => some id
  | _ => none

theorem Phase.own_of_isIdle (h : phase.isIdle) : phase.own = none := by
  cases phase <;> first | rfl | cases h

theorem Phase.own_of_mayEnd (h : phase.mayEnd reader indexes) : phase.own = none := by
  cases phase with
  | committed => cases h
  | finishing ending => cases ending <;> first | rfl | cases h
  | _ => rfl

/-- What is begun can be begun again or is being finished, and no run was refused. -/
structure Resumable (reader : SqlReader) (runner : Runner) : Prop where
  opened : ∀ row ∈ runner.database.rows, row.isOpen → runner.phase.own = some row.id ∨
    ∀ file ∈ runner.files, file.name = row.migrationName → file.isConcurrent reader
  settled : ∀ settled rest, runner.phase = .settling settled rest → ∀ row ∈ settled, row.isOpen = false
  accepted : runner.refusals = []

section

variable (h : Resumable reader runner)
include h

theorem Resumable.concurrent (hown : runner.phase.own = none)
    (hrow : row ∈ runner.database.rows) (hopen : row.isOpen) :
    ∀ file ∈ runner.files, file.name = row.migrationName → file.isConcurrent reader := by
  obtain hsome | hconcurrent := h.opened row hrow hopen
  · rw [hown] at hsome
    cases hsome
  · exact hconcurrent

theorem Resumable.of_same {database : Database} (hown : runner.phase.own = none)
    (hrows : ∀ row ∈ database.rows, row.isOpen → row ∈ runner.database.rows)
    (hphase : ∀ settled rest, phase = .settling settled rest → ∀ row ∈ settled, row.isOpen = false) :
    Resumable reader { runner with database, phase } where
  opened row hrow hopen := .inr (h.concurrent hown (hrows row hrow hopen) hopen)
  settled := hphase
  accepted := h.accepted

theorem Resumable.move (hown : runner.phase.own = none) {database : Database}
    (hphase : ∀ settled rest, phase ≠ .settling settled rest)
    (hrows : ∀ row ∈ database.rows, row.isOpen → row ∈ runner.database.rows) :
    Resumable reader { runner with database, phase } :=
  h.of_same hown hrows fun settled rest heq => absurd heq (hphase settled rest)

theorem Resumable.setPhase (hown : runner.phase.own = none)
    (hphase : ∀ settled rest, phase ≠ .settling settled rest) :
    Resumable reader { runner with phase } :=
  @Resumable.move _ _ _ h hown runner.database hphase fun _ hrow _ => hrow

/-- The SQL has committed the row of its file. -/
theorem Resumable.own {id : ℕ} {database : Database}
    (hown : runner.phase.own = none ∨ runner.phase.own = some id) (hphase : phase.own = some id)
    (hrows : ∀ row ∈ database.rows, row.isOpen → row ∈ runner.database.rows ∨ row.id = id) :
    Resumable reader { runner with database, phase } where
  opened := by
    intro row hrow hopen
    show phase.own = _ ∨ _
    rw [hphase]
    obtain hrow | hid := hrows row hrow hopen
    · obtain hsome | hconcurrent := h.opened row hrow hopen
      · rw [hsome] at hown
        obtain hnone | hsame := hown
        · cases hnone
        · exact .inl hsame.symm
      · exact .inr hconcurrent
    · exact .inl (congrArg some hid.symm)
  settled settled rest heq := by
    rw [show phase = _ from heq] at hphase
    cases hphase
  accepted := h.accepted

theorem resumable_runCommitted {part id : ℕ} (hown : runner.phase.own = some id) (indexes : Catalog) :
    Resumable reader (runCommitted reader runner turn part id indexes) := by
  refine h.own (.inr hown) ?_ fun _ hrow _ => .inl hrow
  split <;> rfl

theorem resumable_commitFirst (hown : runner.phase.own = none) (indexes : Catalog) :
    Resumable reader (commitFirst reader runner turn indexes) := by
  refine resumable_runCommitted (h.own (.inl hown) rfl ?_) rfl indexes
  intro row hrow _
  obtain hrow | hrow := mem_append.mp hrow
  · exact .inl hrow
  · exact .inr (congrArg MigrationRow.id (mem_singleton.mp hrow))

theorem Resumable.fail (hown : runner.phase.own = none) (indexes : Catalog) :
    Resumable reader (runner.fail indexes) := by
  unfold Runner.fail
  split
  · exact h.move hown nofun fun _ hrow _ => hrow
  · exact h.setPhase hown nofun
  · exact h.setPhase hown nofun

end

section

variable (hok : RunnerOk reader runner)
include hok

theorem open_of_finished (hrow : row ∈ runner.database.rows)
    (hother : other ∈ (recordFinished runner.database row.id).rows) (hopen : other.isOpen) :
    other ∈ runner.database.rows ∧ other.id ≠ row.id := by
  obtain hother | rfl := mem_recordFinished hok.rows hrow hother
  · exact hother
  · cases hopen

theorem open_of_rolledBack (hrow : row ∈ runner.database.rows)
    (hother : other ∈ (recordRolledBack runner.database row.id).rows) (hopen : other.isOpen) :
    other ∈ runner.database.rows := by
  obtain ⟨hother, -⟩ | rfl := mem_recordRolledBack hok.rows hrow hother
  · exact hother
  · simp [MigrationRow.isOpen] at hopen

theorem findFile_eq_some : findFile runner.files name = some file ↔ file ∈ runner.files ∧ file.name = name :=
  Table.find_eq_some hok.nodup

theorem assertHistory_eq_none (hclosed : ∀ row ∈ runner.database.rows, row.isOpen = false) :
    assertHistory reader runner.files runner.database.rows = none := by
  unfold assertHistory
  rw [findSome?_eq_none_iff]
  intro row hrow
  unfold rowRefusal
  split
  · rfl
  rename_i hkept
  obtain ⟨file, hfile, hname⟩ := mem_map.mp (hok.rows.named row hrow)
  rw [(findFile_eq_some hok).mpr ⟨hfile, hname⟩]
  have hfinished : row.finished := by
    have := hclosed row hrow
    simp only [MigrationRow.isOpen, and_eq_false_iff, not_eq_false'] at this
    exact this.resolve_right hkept
  simp [hfinished, hok.rows.checksums row hrow hfinished file hfile hname]

end

theorem isConcurrent_of_tried {recorded : List MigrationRow} {migration : SqlMigration}
    (h : triedConcurrently reader recorded migration) : migration.isConcurrent reader := by
  unfold triedConcurrently at h
  rw [and_eq_true] at h
  exact h.1

section

variable (hok : RunnerOk reader runner) (h : Resumable reader runner)
include hok h

theorem resumable_startRow (hown : runner.phase.own = none) (hmem : turn.migration ∈ runner.files)
    (hconcurrent : turn.migration.isConcurrent reader)
    (hphase : ∀ settled rest, phase ≠ .settling settled rest) :
    Resumable reader (startRow reader runner turn phase) where
  opened := by
    intro row hrow hopen
    refine .inr fun file hfile hname => ?_
    obtain hrow | hrow := mem_append.mp hrow
    · exact h.concurrent hown hrow hopen file hfile hname
    · rw [mem_singleton.mp hrow] at hname
      rw [Table.eq_of_key hok.nodup hfile hmem hname]
      exact hconcurrent
  settled settled rest heq := absurd heq (hphase settled rest)
  accepted := h.accepted

theorem resumable_settleRow (hphase : runner.phase = .settling settled (row :: rest))
    (hrows : runner.database.rows = settled ++ row :: rest) :
    Resumable reader (settleRow reader runner settled row rest) := by
  have hrow : row ∈ runner.database.rows := by
    rw [hrows]
    exact mem_append_right _ mem_cons_self
  have hsettled : ∀ row' : MigrationRow, row'.isOpen = false → ∀ settled' rest',
      Phase.settling (settled ++ [row']) rest = .settling settled' rest' → ∀ row ∈ settled', row.isOpen = false := by
    intro row' hclosed settled' rest' heq other hother
    cases heq
    obtain hother | hother := mem_append.mp hother
    · exact h.settled settled (row :: rest) hphase other hother
    · rw [mem_singleton.mp hother]
      exact hclosed
  have hown : runner.phase.own = none := congrArg Phase.own hphase
  unfold settleRow
  split
  · rename_i hclosed
    refine @Resumable.of_same _ _ _ h runner.database hown (fun _ hother _ => hother) (hsettled row ?_)
    unfold MigrationRow.isOpen
    cases hfinished : row.finished <;> simp_all
  rename_i hopen
  have hopen' : row.isOpen := by
    simpa [MigrationRow.isOpen] using hopen
  -- The name of a row is the name of a file, and an open row's file builds its indexes concurrently.
  obtain ⟨file, hfile, hname⟩ := mem_map.mp (hok.rows.named row hrow)
  rw [(findFile_eq_some hok).mpr ⟨hfile, hname⟩]
  dsimp only
  rw [h.concurrent hown hrow hopen' file hfile hname]
  simp only [Bool.not_true, false_eq_true, if_false]
  split
  · refine h.of_same hown ?_ (hsettled _ rfl)
    intro other hother hopen
    exact (open_of_finished hok hrow hother hopen).1
  · refine h.of_same hown ?_ (hsettled _ (by simp [MigrationRow.isOpen]))
    intro other hother hopen
    exact open_of_rolledBack hok hrow hother hopen

theorem assertSettled_eq (hphase : runner.phase = .settling settled [])
    (hrows : runner.database.rows = settled) :
    assertSettled reader runner settled = { runner with phase := .looping settled runner.files } := by
  have hclosed : ∀ row ∈ runner.database.rows, row.isOpen = false := by
    rw [hrows]
    exact h.settled settled [] hphase
  have hnone := assertHistory_eq_none hok hclosed
  rw [hrows] at hnone
  unfold assertSettled
  rw [hnone]

theorem resumable_applyNext (hown : runner.phase.own = none)
    (hat : AtLoop runner.files runner.database.rows turn.recorded (turn.migration :: turn.rest)) :
    Resumable reader (applyNext reader runner turn) := by
  have hmem : turn.migration ∈ runner.files := by
    obtain ⟨pre, hsplit, -⟩ := hat.split
    rw [hsplit]
    exact mem_append_right _ mem_cons_self
  unfold applyNext
  dsimp only
  split
  · exact h.setPhase hown nofun
  split
  · rename_i hplace
    rw [and_eq_true] at hplace
    exact resumable_startRow hok h hown hmem (isConcurrent_of_tried hplace.1) nofun
  split
  · exact h.setPhase hown nofun
  · exact h.setPhase hown nofun

/-- A row that is being finished is the only open one of a file that does not build its indexes
concurrently. -/
theorem resumable_finish (hrow : row ∈ runner.database.rows)
    (hown : runner.phase.own = none ∨ runner.phase.own = some row.id)
    (hphase : ∀ settled rest, phase ≠ .settling settled rest) :
    Resumable reader { runner with database := recordFinished runner.database row.id, phase } where
  opened := by
    intro other hother hopen
    obtain ⟨hmem, hne⟩ := open_of_finished hok hrow hother hopen
    obtain hsome | hconcurrent := h.opened other hmem hopen
    · rw [hsome] at hown
      obtain hnone | hsame := hown
      · cases hnone
      · exact absurd (some.inj hsame) hne
    · exact .inr hconcurrent
  settled settled rest heq := absurd heq (hphase settled rest)
  accepted := h.accepted

theorem resumable_finishTurn {ending : Ending} {id : ℕ} (heq : runner.phase = .finishing ending id turn) :
    Resumable reader (finishTurn runner turn id) := by
  have hphase := hok.phase
  unfold PhaseOk at hphase
  rw [heq] at hphase
  refine resumable_finish hok h hphase.2 ?_ nofun
  rw [heq]
  cases ending with
  | adopted | concurrently => exact .inl rfl
  | ownCommit => exact .inr rfl

theorem resumable_proceed (indexes : Catalog) : Resumable reader (runner.proceed reader indexes) := by
  have hphase := hok.phase
  unfold PhaseOk at hphase
  unfold Runner.proceed
  split at hphase <;> rename_i heq <;> have hown := congrArg Phase.own heq <;> rw [heq]
  · exact h
  · rename_i settled rest
    cases rest with
    | nil =>
      rw [append_nil] at hphase
      show Resumable reader (assertSettled reader runner settled)
      rw [assertSettled_eq hok h heq hphase]
      exact h.setPhase hown nofun
    | cons row rest => exact resumable_settleRow hok h heq hphase
  · rename_i recorded rest
    cases rest with
    | nil => exact h.setPhase hown nofun
    | cons migration rest => exact resumable_applyNext hok h hown hphase
  · rename_i targets turn
    cases targets with
    | nil => exact resumable_startRow hok h hown hphase.1.mem hphase.2.1 nofun
    | cons target targets =>
      dsimp only [dropNext]
      split
      · exact h.move hown nofun fun _ hrow _ => hrow
      · exact h.setPhase hown nofun
  · exact h.move hown nofun fun _ hrow _ => hrow
  · obtain ⟨hat, rfl, htransactional, hwork⟩ := hphase
    dsimp only
    obtain ⟨stage', work', -, hsame⟩ | ⟨indexes', hsame | ⟨hlast, hsame⟩⟩ := runTransaction_cases hwork indexes
    · rw [hsame]
      exact h.setPhase hown nofun
    · rw [hsame]
      exact resumable_commitFirst h hown indexes'
    · rw [hsame]
      exact resumable_finishTurn (runnerOk_commitFirst hok hat htransactional indexes')
        (resumable_commitFirst h hown indexes')
        hlast
  · exact resumable_runCommitted h hown indexes
  · exact resumable_finishTurn hok h heq
  · obtain ⟨row, hrow, rfl, -⟩ := hphase
    exact h.move hown nofun fun _ hother hopen => open_of_rolledBack hok hrow hother hopen

theorem resumable_apply (op : RunnerOp) (hsound : runner.Sound reader op) :
    Resumable reader (RunnerOp.apply reader runner op) := by
  cases op with
  | edit name sql =>
    unfold RunnerOp.apply
    dsimp only
    split
    · rename_i hedit
      rw [and_eq_true] at hedit
      constructor
      · intro row hrow hopen
        refine .inr fun file hfile hname => ?_
        obtain hfile | ⟨hedited, hsql⟩ := mem_edit hfile
        · exact h.concurrent (Phase.own_of_isIdle hedit.1) hrow hopen file hfile hname
        · unfold SqlMigration.isConcurrent
          rw [hsql]
          exact hsound.1 ⟨row, hrow, hopen, hname.symm.trans hedited⟩
      · exact h.settled
      · exact h.accepted
    · exact h
  | start =>
    unfold RunnerOp.apply
    dsimp only
    split
    · rename_i hidle
      refine @Resumable.of_same _ _ _ h runner.database (Phase.own_of_isIdle hidle) (fun _ hrow _ => hrow) ?_
      intro settled rest heq
      cases heq
      exact nofun
    · exact h
  | succeed indexes => exact resumable_proceed hok h indexes
  | fail indexes => exact h.fail (Phase.own_of_mayEnd hsound) indexes
  | cut => exact h.setPhase (Phase.own_of_mayEnd hsound) nofun

end

end ArdurBot.Migrations
