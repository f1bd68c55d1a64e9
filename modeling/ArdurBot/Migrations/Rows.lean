import ArdurBot.Migrations.Runner
import ArdurBot.Lib.Table

/-!
# The rows of the runner

What the three writes to a row leave of a table that is in order: its ids number it, its names are
names of files, no row is closed twice, and a finished row has the checksum of its file.
-/

namespace ArdurBot.Migrations

open List

variable {reader : SqlReader} {files : List SqlMigration} {database : Database} {row : MigrationRow}

structure RowsOk (reader : SqlReader) (files : List SqlMigration) (rows : List MigrationRow) :
  Prop where
  ids : rows.map MigrationRow.id = List.range rows.length
  named : ∀ row ∈ rows, row.migrationName ∈ files.map SqlMigration.name
  closedOnce : ∀ row ∈ rows, row.finished → row.rolledBack = false
  checksums : ∀ row ∈ rows, row.finished →
    ∀ file ∈ files, file.name = row.migrationName → row.checksum = file.checksum reader

variable {rest rows settled : List MigrationRow} {name : Utf16.Text} {other : MigrationRow}

theorem RowsOk.nodup (h : RowsOk reader files rows) : (rows.map MigrationRow.id).Nodup := by
  rw [h.ids]
  exact nodup_range

theorem finishedRow_iff : finishedRow rows name ↔
      ∃ row ∈ rows, row.migrationName = name ∧ row.finished ∧ row.rolledBack = false := by
  simp [finishedRow, and_assoc]

theorem RowsOk.recordStarted (h : RowsOk reader files database.rows) (checksum : Utf16.Text)
    (hname : name ∈ files.map SqlMigration.name) :
    RowsOk reader files (recordStarted database name checksum).rows := by
  have hmem : ∀ row ∈ (Migrations.recordStarted database name checksum).rows,
      row ∈ database.rows ∨ row = ⟨database.rows.length, checksum, name, false, false⟩ := by
    intro row hrow
    exact (mem_append.mp hrow).imp_right mem_singleton.mp
  constructor
  · show (database.rows ++ [_]).map MigrationRow.id = range (database.rows ++ [_]).length
    rw [map_append, h.ids, length_append, length_singleton, range_succ]
    rfl
  · intro row hrow
    obtain hrow | rfl := hmem row hrow
    · exact h.named row hrow
    · exact hname
  · intro row hrow hfinished
    obtain hrow | rfl := hmem row hrow
    · exact h.closedOnce row hrow hfinished
    · rfl
  · intro row hrow hfinished
    obtain hrow | rfl := hmem row hrow
    · exact h.checksums row hrow hfinished
    · cases hfinished

theorem finishedRow_recordStarted (name checksum other : Utf16.Text) :
    finishedRow (recordStarted database name checksum).rows other = finishedRow database.rows other := by
  simp [finishedRow, recordStarted]

theorem rows_set (h : RowsOk reader files rows) (hrows : rows = settled ++ row :: rest)
    (update : MigrationRow → MigrationRow) :
    (rows.map fun other => if other.id = row.id then update other else other) = settled ++ update row :: rest := by
  have hnodup := h.nodup
  rw [hrows, map_append, map_cons, nodup_append, nodup_cons] at hnodup
  obtain ⟨-, ⟨hrest, -⟩, hsettled⟩ := hnodup
  have hkeep : ∀ others : List MigrationRow, (∀ other ∈ others, other.id ≠ row.id) →
      (others.map fun other => if other.id = row.id then update other else other) = others := by
    intro others hothers
    calc others.map (fun other => if other.id = row.id then update other else other)
        = others.map id := map_congr_left fun other hmem => if_neg (hothers other hmem)
      _ = others := map_id others
  rw [hrows, map_append, map_cons, if_pos rfl]
  rw [hkeep settled fun other hmem =>
    hsettled other.id (mem_map_of_mem hmem) row.id mem_cons_self]
  rw [hkeep rest]
  intro other hmem heq
  exact hrest (heq ▸ mem_map_of_mem hmem)

/-- The names of the files that were begun. -/
def triedNames (rows : List MigrationRow) : List Utf16.Text := rows.map MigrationRow.migrationName

theorem triedNames_append (row : MigrationRow) : triedNames rows ⊆ triedNames (rows ++ [row]) :=
  map_subset _ (subset_append_left _ _)

theorem triedNames_recordFinished (id : ℕ) :
    triedNames (recordFinished database id).rows = triedNames database.rows := by
  apply Table.map_key
  intro row
  split <;> rfl

theorem triedNames_recordRolledBack (id : ℕ) :
    triedNames (recordRolledBack database id).rows = triedNames database.rows := by
  apply Table.map_key
  intro row
  split <;> rfl

theorem mem_split (hrow : row ∈ rows) : ∃ settled rest, rows = settled ++ row :: rest :=
  append_of_mem hrow

section

variable (h : RowsOk reader files database.rows) (hrows : database.rows = settled ++ row :: rest)
include h hrows

theorem rows_recordFinished :
    (recordFinished database row.id).rows = settled ++ { row with finished := true } :: rest :=
  rows_set h hrows fun row => { row with finished := true }

theorem rows_recordRolledBack :
    (recordRolledBack database row.id).rows = settled ++ { row with rolledBack := true } :: rest :=
  rows_set h hrows fun row => { row with rolledBack := true }

end

theorem RowsOk.of_set (h : RowsOk reader files rows) (hrows : rows = settled ++ row :: rest)
    {row' : MigrationRow} (hid : row'.id = row.id) (hname : row'.migrationName = row.migrationName)
    (hclosed : row'.finished → row'.rolledBack = false) (hchecksum : row'.finished →
      ∀ file ∈ files, file.name = row'.migrationName → row'.checksum = file.checksum reader) :
    RowsOk reader files (settled ++ row' :: rest) := by
  have hmem : ∀ other ∈ settled ++ row' :: rest, other ∈ rows ∨ other = row' := by
    intro other hother
    rw [mem_append, mem_cons] at hother
    rw [hrows, mem_append, mem_cons]
    tauto
  constructor
  · have hids := h.ids
    rw [hrows, map_append, map_cons, length_append, length_cons] at hids
    rw [map_append, map_cons, hid, hids, length_append, length_cons]
  · intro other hother
    obtain hother | rfl := hmem other hother
    · exact h.named other hother
    · rw [hname]
      exact h.named row (by rw [hrows]; exact mem_append_right _ mem_cons_self)
  · intro other hother hfinished
    obtain hother | rfl := hmem other hother
    · exact h.closedOnce other hother hfinished
    · exact hclosed hfinished
  · intro other hother hfinished
    obtain hother | rfl := hmem other hother
    · exact h.checksums other hother hfinished
    · exact hchecksum hfinished

section

variable (h : RowsOk reader files database.rows) (hrow : row ∈ database.rows)
include h hrow

theorem RowsOk.recordFinished (hkept : row.rolledBack = false)
    (hchecksum : ∀ file ∈ files, file.name = row.migrationName → row.checksum = file.checksum reader) :
    RowsOk reader files (recordFinished database row.id).rows := by
  obtain ⟨settled, rest, hrows⟩ := mem_split hrow
  rw [rows_recordFinished h hrows]
  exact h.of_set hrows rfl rfl (fun _ => hkept) fun _ => hchecksum

theorem RowsOk.recordRolledBack (hunfinished : row.finished = false) :
    RowsOk reader files (recordRolledBack database row.id).rows := by
  obtain ⟨settled, rest, hrows⟩ := mem_split hrow
  rw [rows_recordRolledBack h hrows]
  have hnot : ¬row.finished := by rw [hunfinished]; nofun
  exact h.of_set hrows rfl rfl (fun hfinished => absurd hfinished hnot) fun hfinished => absurd hfinished hnot

theorem finishedRow_recordFinished (hkept : row.rolledBack = false) (name : Utf16.Text) :
    finishedRow (recordFinished database row.id).rows name =
      (decide (row.migrationName = name) || finishedRow database.rows name) := by
  obtain ⟨settled, rest, hrows⟩ := mem_split hrow
  rw [rows_recordFinished h hrows, hrows]
  simp only [finishedRow, any_append, any_cons, hkept, Bool.not_false, Bool.and_true]
  cases decide (row.migrationName = name) <;> simp

theorem finishedRow_recordRolledBack (hunfinished : row.finished = false) (name : Utf16.Text) :
    finishedRow (recordRolledBack database row.id).rows name = finishedRow database.rows name := by
  obtain ⟨settled, rest, hrows⟩ := mem_split hrow
  rw [rows_recordRolledBack h hrows, hrows]
  simp [finishedRow, hunfinished]

theorem mem_set (update : MigrationRow → MigrationRow)
    (hother : other ∈ database.rows.map fun other => if other.id = row.id then update other else other) :
    other ∈ database.rows ∧ other.id ≠ row.id ∨ other = update row := by
  obtain ⟨old, hold, rfl⟩ := mem_map.mp hother
  split
  · rename_i hid
    rw [Table.eq_of_key h.nodup hold hrow hid]
    exact .inr rfl
  · exact .inl ⟨hold, ‹_›⟩

theorem mem_recordFinished (hother : other ∈ (recordFinished database row.id).rows) :
    other ∈ database.rows ∧ other.id ≠ row.id ∨ other = { row with finished := true } :=
  mem_set h hrow (fun row => { row with finished := true }) hother

theorem mem_recordRolledBack (hother : other ∈ (recordRolledBack database row.id).rows) :
    other ∈ database.rows ∧ other.id ≠ row.id ∨ other = { row with rolledBack := true } :=
  mem_set h hrow (fun row => { row with rolledBack := true }) hother

end

end ArdurBot.Migrations
