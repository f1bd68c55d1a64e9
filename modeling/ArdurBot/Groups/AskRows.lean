import ArdurBot.Groups.Ask
import Mathlib.Data.Option.Basic

/-!
# What the operations leave of group asks

Each operation but the follow-up leaves the rows what they are for, with their marks, and those that
were stopped as stopped (`Onward`), and creates no follow-up (`PlainStep`).
-/

namespace ArdurBot.Groups

open List Utf16 ArdurBot.Core
open Bool hiding and_self not_and not_or
open Option hiding any any_eq_false any_eq_true map map_id

/-! ### Invariants -/

structure AskOk (store : AskStore) : Prop where
  rowIds : (store.rows.map AskRow.id).Nodup
  runIds : (store.runs.map RoomRun.id).Nodup
  rootIds : (store.roots.map AskRoot.rootTaskId).Nodup
  bound : ∀ row ∈ store.rows, ∀ run ∈ store.runs, run.delegationId = some row.id → row.runId = some run.id
  once : ∀ run ∈ store.runs, ∀ other ∈ store.runs, ∀ ask, run.wakes = some ask →
    other.wakes = some ask → run = other
  woken : ∀ run ∈ store.runs, ∀ ask, run.wakes = some ask → ∃ row ∈ store.rows, row.ask = ask ∧ row.isWoken

/-- A row stays what it is for, with its mark, and as stopped. -/
structure OnwardRow (store store' : AskStore) (row row' : AskRow) : Prop where
  id : row'.id = row.id
  rootTaskId : row'.rootTaskId = row.rootTaskId
  ask : row'.ask = row.ask
  mark : ∀ at_, row.coordinatorWokenAt = some at_ → row'.coordinatorWokenAt = some at_
  stopped : directlyStopped store row → directlyStopped store' row'

structure Onward (store store' : AskStore) : Prop where
  rows : ∀ row ∈ store.rows, ∃ row' ∈ store'.rows, OnwardRow store store' row row'
  roots : ∀ root ∈ store.roots, ∃ root' ∈ store'.roots, root'.rootTaskId = root.rootTaskId ∧
    (root.cancelRequested → root'.cancelRequested)

theorem Onward.refl (store : AskStore) : Onward store store where
  rows row hrow := ⟨row, hrow, rfl, rfl, rfl, fun _ h => h, fun h => h⟩
  roots root hroot := ⟨root, hroot, rfl, fun h => h⟩

variable {a b c store store' : AskStore} {row : AskRow} {run : RoomRun} {onRow : AskRow → AskRow}
  {onRun : RoomRun → RoomRun} {callId messageId runId : Text} {deadlineAt now : ℤ}
  {here : AskRow → Bool} {members : List AskedMember}

theorem Onward.trans (hab : Onward a b) (hbc : Onward b c) : Onward a c where
  rows row hrow := by
    obtain ⟨middle, hmiddle, hrow⟩ := hab.rows row hrow
    obtain ⟨last, hlast, hrow'⟩ := hbc.rows middle hmiddle
    exact ⟨last, hlast, hrow'.id.trans hrow.id, hrow'.rootTaskId.trans hrow.rootTaskId, hrow'.ask.trans hrow.ask,
      fun at_ h => hrow'.mark at_ (hrow.mark at_ h), fun h => hrow'.stopped (hrow.stopped h)⟩
  roots root hroot := by
    obtain ⟨middle, hmiddle, hid, hcancel⟩ := hab.roots root hroot
    obtain ⟨last, hlast, hid', hcancel'⟩ := hbc.roots middle hmiddle
    exact ⟨last, hlast, hid'.trans hid, fun h => hcancel' (hcancel h)⟩

def NoWake (store store' : AskStore) : Prop :=
  ∀ run' ∈ store'.runs, ∀ ask, run'.wakes = some ask → ∃ run ∈ store.runs, run.id = run'.id ∧
    run.wakes = some ask

theorem NoWake.refl (store : AskStore) : NoWake store store :=
  fun run hrun _ h => ⟨run, hrun, rfl, h⟩

theorem NoWake.trans (hab : NoWake a b) (hbc : NoWake b c) : NoWake a c := by
  intro run'' hrun'' ask hwakes
  obtain ⟨run', hrun', hid', hwakes'⟩ := hbc run'' hrun'' ask hwakes
  obtain ⟨run, hrun, hid, hwakes''⟩ := hab run' hrun' ask hwakes'
  exact ⟨run, hrun, hid.trans hid', hwakes''⟩

/-- What an operation that creates no follow-up leaves. -/
structure PlainStep (store store' : AskStore) : Prop where
  ok : AskOk store'
  onward : Onward store store'
  quiet : NoWake store store'

theorem PlainStep.refl (h : AskOk store) : PlainStep store store :=
  ⟨h, Onward.refl store, NoWake.refl store⟩

theorem PlainStep.trans (hab : PlainStep a b) (hbc : PlainStep b c) : PlainStep a c :=
  ⟨hbc.ok, hab.onward.trans hbc.onward, hab.quiet.trans hbc.quiet⟩

/-- What an operation that asks nobody leaves. -/
structure SteadyStep (store store' : AskStore) : Prop extends PlainStep store store' where
  rowIds : store'.rows.map AskRow.id = store.rows.map AskRow.id

theorem SteadyStep.refl (h : AskOk store) : SteadyStep store store := ⟨PlainStep.refl h, rfl⟩

theorem SteadyStep.trans (hab : SteadyStep a b) (hbc : SteadyStep b c) : SteadyStep a c :=
  ⟨hab.toPlainStep.trans hbc.toPlainStep, hbc.rowIds.trans hab.rowIds⟩

/-! ### Changes of rows and runs -/

/-- A change of a row that leaves what it is known by, and its mark. -/
structure SameRow (onRow : AskRow → AskRow) : Prop where
  id : ∀ row, (onRow row).id = row.id
  rootTaskId : ∀ row, (onRow row).rootTaskId = row.rootTaskId
  ask : ∀ row, (onRow row).ask = row.ask
  runId : ∀ row, (onRow row).runId = row.runId
  mark : ∀ row at_, row.coordinatorWokenAt = some at_ → (onRow row).coordinatorWokenAt = some at_

/-- A change of a run that leaves what it is known by, and that it has ended. It may lose its
delegation. -/
structure SameRun (onRun : RoomRun → RoomRun) : Prop where
  id : ∀ run, (onRun run).id = run.id
  delegationId : ∀ run id, (onRun run).delegationId = some id → run.delegationId = some id
  wakes : ∀ run, (onRun run).wakes = run.wakes
  ended : ∀ run, run.status.isTerminal → (onRun run).status.isTerminal

theorem sameRow_id : SameRow id :=
  ⟨fun _ => rfl, fun _ => rfl, fun _ => rfl, fun _ => rfl, fun _ _ h => h⟩

theorem sameRun_id : SameRun id := ⟨fun _ => rfl, fun _ _ h => h, fun _ => rfl, fun _ h => h⟩

theorem sameRow_if {onRow : AskRow → AskRow} (h : SameRow onRow) (here : AskRow → Bool) :
    SameRow fun row => if here row then onRow row else row := by
  refine ⟨fun row => ?_, fun row => ?_, fun row => ?_, fun row => ?_, fun row at_ hmark => ?_⟩ <;> split
  · exact h.id row
  · rfl
  · exact h.rootTaskId row
  · rfl
  · exact h.ask row
  · rfl
  · exact h.runId row
  · rfl
  · exact h.mark row at_ hmark
  · exact hmark

theorem sameRun_if {onRun : RoomRun → RoomRun} {here : RoomRun → Bool} (hid : ∀ run, (onRun run).id = run.id)
    (hdelegation : ∀ run id, (onRun run).delegationId = some id → run.delegationId = some id)
    (hwakes : ∀ run, (onRun run).wakes = run.wakes)
    (hended : ∀ run, here run → run.status.isTerminal → (onRun run).status.isTerminal) :
    SameRun fun run => if here run then onRun run else run := by
  refine ⟨fun run => ?_, fun run id => ?_, fun run => ?_, fun run hrun => ?_⟩ <;> split
  · exact hid run
  · rfl
  · exact hdelegation run id
  · exact fun h => h
  · exact hwakes run
  · rfl
  · next hhere => exact hended run hhere hrun
  · exact hrun

/-- The rows and the runs of a store change, each by itself. -/
structure Changes (store store' : AskStore) (onRow : AskRow → AskRow) (onRun : RoomRun → RoomRun) :
  Prop where
  rows : store'.rows = store.rows.map onRow
  runs : store'.runs = store.runs.map onRun
  roots : ∀ root ∈ store.roots, ∃ root' ∈ store'.roots, root'.rootTaskId = root.rootTaskId ∧
    (root.cancelRequested → root'.cancelRequested)
  rootIds : (store'.roots.map AskRoot.rootTaskId).Nodup
  row : SameRow onRow
  run : SameRun onRun
  active : ∀ row ∈ store.rows, directlyStopped store row → (onRow row).status.isActive

theorem AskRow.isWoken_iff : row.isWoken ↔ ∃ at_, row.coordinatorWokenAt = some at_ :=
  isSome_iff_exists

theorem findRun_eq_some (h : (store.runs.map RoomRun.id).Nodup) {id : Text} :
    findRun store id = some run ↔ run ∈ store.runs ∧ run.id = id := Table.find_eq_some h

theorem directlyStopped_iff (h : (store.runs.map RoomRun.id).Nodup) : directlyStopped store row ↔
      row.status.isActive ∧ ∃ run ∈ store.runs, row.runId = some run.id ∧ run.status.isTerminal := by
  rw [directlyStopped, and_eq_true, Option.any_eq_true]
  refine and_congr_right fun _ => ⟨?_, ?_⟩
  · rintro ⟨run, hrun, hended⟩
    obtain ⟨id, hid, hfind⟩ := bind_eq_some_iff.mp hrun
    obtain ⟨hmem, rfl⟩ := (findRun_eq_some h).mp hfind
    exact ⟨run, hmem, hid, hended⟩
  · rintro ⟨run, hmem, hid, hended⟩
    refine ⟨run, bind_eq_some_iff.mpr ⟨run.id, hid, (findRun_eq_some h).mpr ⟨hmem, rfl⟩⟩, hended⟩

theorem steadyStep_of_changes (h : AskOk store) (hchanges : Changes store store' onRow onRun) :
    SteadyStep store store' := by
  have hrunIds : (store'.runs.map RoomRun.id).Nodup := by
    rw [hchanges.runs]
    exact Table.nodup_map h.runIds hchanges.run.id
  have honward : ∀ row ∈ store.rows, OnwardRow store store' row (onRow row) := by
    intro row hrow
    refine ⟨hchanges.row.id row, hchanges.row.rootTaskId row, hchanges.row.ask row,
      hchanges.row.mark row, fun hstopped => ?_⟩
    obtain ⟨-, run, hrun, hid, hended⟩ := (directlyStopped_iff h.runIds).mp hstopped
    refine (directlyStopped_iff hrunIds).mpr ⟨hchanges.active row hrow hstopped, onRun run, ?_, ?_,
      hchanges.run.ended run hended⟩
    · rw [hchanges.runs]
      exact mem_map_of_mem hrun
    · rw [hchanges.row.runId, hchanges.run.id]
      exact hid
  refine ⟨⟨⟨?_, hrunIds, hchanges.rootIds, ?_, ?_, ?_⟩, ⟨?_, hchanges.roots⟩, ?_⟩, ?_⟩
  · rw [hchanges.rows]
    exact Table.nodup_map h.rowIds hchanges.row.id
  · intro row' hrow' run' hrun' hbound
    rw [hchanges.rows] at hrow'
    rw [hchanges.runs] at hrun'
    obtain ⟨row, hrow, rfl⟩ := mem_map.mp hrow'
    obtain ⟨run, hrun, rfl⟩ := mem_map.mp hrun'
    rw [hchanges.row.id] at hbound
    rw [hchanges.row.runId, hchanges.run.id]
    exact h.bound row hrow run hrun (hchanges.run.delegationId run row.id hbound)
  · intro run' hrun' other' hother' ask hwakes hwakes'
    rw [hchanges.runs] at hrun' hother'
    obtain ⟨run, hrun, rfl⟩ := mem_map.mp hrun'
    obtain ⟨other, hother, rfl⟩ := mem_map.mp hother'
    rw [hchanges.run.wakes] at hwakes hwakes'
    rw [h.once run hrun other hother ask hwakes hwakes']
  · intro run' hrun' ask hwakes
    rw [hchanges.runs] at hrun'
    obtain ⟨run, hrun, rfl⟩ := mem_map.mp hrun'
    rw [hchanges.run.wakes] at hwakes
    obtain ⟨row, hrow, hask, hwoken⟩ := h.woken run hrun ask hwakes
    obtain ⟨at_, hat⟩ := AskRow.isWoken_iff.mp hwoken
    refine ⟨onRow row, ?_, (hchanges.row.ask row).trans hask,
      AskRow.isWoken_iff.mpr ⟨at_, hchanges.row.mark row at_ hat⟩⟩
    rw [hchanges.rows]
    exact mem_map_of_mem hrow
  · intro row hrow
    refine ⟨onRow row, ?_, honward row hrow⟩
    rw [hchanges.rows]
    exact mem_map_of_mem hrow
  · intro run' hrun' ask hwakes
    rw [hchanges.runs] at hrun'
    obtain ⟨run, hrun, rfl⟩ := mem_map.mp hrun'
    rw [hchanges.run.wakes] at hwakes
    exact ⟨run, hrun, (hchanges.run.id run).symm, hwakes⟩
  · rw [hchanges.rows]
    exact Table.map_key hchanges.row.id

theorem steadyStep_of_same (h : AskOk store) (hrows : store'.rows = store.rows.map onRow)
    (hruns : store'.runs = store.runs.map onRun) (hroots : store'.roots = store.roots) (hrow : SameRow onRow)
    (hrun : SameRun onRun) (hactive : ∀ row ∈ store.rows, directlyStopped store row →
      (onRow row).status.isActive) : SteadyStep store store' := by
  refine steadyStep_of_changes h ⟨hrows, hruns, ?_, ?_, hrow, hrun, hactive⟩
  · rw [hroots]
    exact fun root hroot => ⟨root, hroot, rfl, fun hcancel => hcancel⟩
  · rw [hroots]
    exact h.rootIds

theorem isActive_of_directlyStopped (h : directlyStopped store row) : row.status.isActive := by
  rw [directlyStopped, and_eq_true] at h
  exact h.1

/-! ### Finishing -/

theorem sameRow_finish (outcome : RunOutcome) (now : ℤ) : SameRow (finishRow outcome now) := by
  refine ⟨fun row => ?_, fun row => ?_, fun row => ?_, fun row => ?_, fun row at_ hmark => ?_⟩ <;>
    rw [finishRow] <;> split
  all_goals first
    | rfl
    | exact hmark
    | (split <;> first | rfl | exact hmark)

/-- The run of a delegation that is finished has not ended, so the row is not one that was
stopped. -/
theorem active_of_finish (h : AskOk store) (hrun : run ∈ store.runs)
    (hlive : run.status.isTerminal = false) (outcome : RunOutcome) (now : ℤ) :
    ∀ row ∈ store.rows, directlyStopped store row →
      (if run.delegationId = some row.id && row.runId = some run.id then finishRow outcome now row
        else row).status.isActive := by
  intro row hrow hstopped
  obtain ⟨hactive, other, hother, hid, hended⟩ := (directlyStopped_iff h.runIds).mp hstopped
  split
  · next hbound =>
    simp only [and_eq_true, decide_eq_true_eq] at hbound
    have hsame : other.id = run.id := some.inj (hid.symm.trans hbound.2)
    rw [Table.eq_of_key h.runIds hother hrun hsame, hlive] at hended
    cases hended
  · exact hactive

theorem sameRun_update (h : SameRun onRun) (runId : Text) :
    SameRun fun run => if run.id = runId then onRun run else run := by
  have hrun := @sameRun_if onRun (fun run => decide (run.id = runId)) h.id h.delegationId h.wakes
      fun run _ => h.ended run
  simpa only [decide_eq_true_eq] using hrun

theorem sameRun_end (outcome : RunOutcome) : SameRun fun run => { run with status := outcome.run } :=
  ⟨fun _ => rfl, fun _ _ h => h, fun _ => rfl, fun _ _ => by cases outcome <;> rfl⟩

section

variable (h : AskOk store)
include h

theorem plain_finish (hrun : run ∈ store.runs) (hlive : run.status.isTerminal = false)
    (outcome ending : RunOutcome) (runId : Text) (now : ℤ) :
    SteadyStep store (finishDelegation run outcome now (endRun store runId ending)) :=
  steadyStep_of_same h rfl rfl rfl (sameRow_if (sameRow_finish outcome now) _)
    (sameRun_update (sameRun_end ending) runId)
    (active_of_finish h hrun hlive outcome now)

theorem plain_finalize {outcome : RunOutcome} (hop : finalizeRun runId outcome now store = some store') :
    SteadyStep store store' := by
  simp only [finalizeRun, bind_eq_bind, bind_eq_some_iff, guard_eq_some', and_eq_true,
    decide_eq_true_eq] at hop
  obtain ⟨run, hfind, -, ⟨⟨hrunning, -⟩, -⟩, hstore⟩ := hop
  cases hstore
  exact plain_finish h ((findRun_eq_some h.runIds).mp hfind).1 (by rw [hrunning]; rfl) _ _ _ _

theorem plain_confirmStop {failed : Bool} (hop : confirmStop runId failed now store = some store') :
    SteadyStep store store' := by
  simp only [confirmStop, bind_eq_bind, bind_eq_some_iff, guard_eq_some', and_eq_true, not_eq_true'] at hop
  obtain ⟨run, hfind, -, ⟨-, hlive⟩, hstore⟩ := hop
  cases hstore
  exact plain_finish h ((findRun_eq_some h.runIds).mp hfind).1 hlive _ _ _ _

theorem plain_settleFrozen (hop : settleFrozenRun runId now store = some store') :
    SteadyStep store store' := by
  simp only [settleFrozenRun, bind_eq_bind, bind_eq_some_iff, guard_eq_some', not_eq_true'] at hop
  obtain ⟨run, hfind, -, hlive, hstore⟩ := hop
  cases hstore
  exact plain_finish h ((findRun_eq_some h.runIds).mp hfind).1 hlive _ _ _ _

theorem plain_completeTask (hop : completeTask runId now store = some store') : SteadyStep store store' := by
  simp only [completeTask, bind_eq_bind, bind_eq_some_iff, guard_eq_some', and_eq_true,
    decide_eq_true_eq] at hop
  obtain ⟨run, hfind, -, ⟨hrunning, -⟩, -, -, hstore⟩ := hop
  cases hstore
  exact steadyStep_of_same h rfl (map_id _).symm rfl (sameRow_if (sameRow_finish .completed now) _) sameRun_id
    (active_of_finish h ((findRun_eq_some h.runIds).mp hfind).1 (by rw [hrunning]; rfl) .completed now)

/-! ### Changes of the rows and the runs -/

theorem plain_stop (runIds : List Text) : SteadyStep store (stopRuns runIds store) := by
  refine steadyStep_of_same h (map_id _).symm rfl rfl sameRow_id ?_ fun row _ => isActive_of_directlyStopped
  exact sameRun_if (fun _ => rfl) (fun _ _ hid => hid) (fun _ => rfl) fun _ _ _ => rfl

theorem plain_moveRun {status : RunStatus} {startedAt : Option ℤ}
    (hop : moveRun runId status startedAt store = some store') : SteadyStep store store' := by
  simp only [moveRun, bind_eq_bind, bind_eq_some_iff] at hop
  obtain ⟨-, -, hstore⟩ := hop
  cases hstore
  refine steadyStep_of_same h (map_id _).symm rfl rfl sameRow_id ?_ fun row _ => isActive_of_directlyStopped
  refine sameRun_update ⟨fun run => ?_, fun run id => ?_, fun run => ?_, fun run hended => ?_⟩ runId
  · split <;> rfl
  · split <;> exact fun hid => hid
  · split <;> rfl
  · rwa [if_pos hended]

theorem plain_link (runId : Text) (goal : RoomGoal) : SteadyStep store (linkRun runId goal store) := by
  refine steadyStep_of_same h (map_id _).symm rfl rfl sameRow_id ?_ fun row _ => isActive_of_directlyStopped
  refine sameRun_update ?_ runId
  exact sameRun_if (fun _ => rfl) (fun _ _ hid => hid) (fun _ => rfl) fun _ _ hended => hended

end

theorem sameRow_status (here : AskRow → Bool) (status : DelegationStatus) :
    SameRow fun row => if here row then { row with status } else row :=
  @sameRow_if (fun row => { row with status }) ⟨fun _ => rfl, fun _ => rfl, fun _ => rfl,
    fun _ => rfl, fun _ _ h => h⟩ here

theorem plain_start (h : AskOk store) (id : Text) : SteadyStep store (startDelegation id store) := by
  refine steadyStep_of_same h rfl (map_id _).symm rfl (sameRow_status _ _) sameRun_id fun row _ hstopped => ?_
  split
  · rfl
  · exact isActive_of_directlyStopped hstopped

theorem ne_completed_of_directlyStopped (h : directlyStopped store row) : row.status ≠ .completed := by
  intro hcompleted
  have hactive := isActive_of_directlyStopped h
  rw [hcompleted] at hactive
  cases hactive

theorem plain_accepted (h : AskOk store) (here : AskRow → Bool) :
    SteadyStep store { store with
      rows := store.rows.map fun row =>
        if here row && row.status = .completed then { row with status := .accepted } else row } := by
  refine steadyStep_of_same h rfl (map_id _).symm rfl (sameRow_status _ _) sameRun_id fun row _ hstopped => ?_
  split
  · next hcompleted =>
    simp only [and_eq_true, decide_eq_true_eq] at hcompleted
    exact absurd hcompleted.2 (ne_completed_of_directlyStopped hstopped)
  · exact isActive_of_directlyStopped hstopped

theorem sameRow_mark (hfree : ∀ row, here row → row.isWoken = false) (now : ℤ) :
    SameRow fun row => if here row then { row with coordinatorWokenAt := some now } else row := by
  refine ⟨fun row => ?_, fun row => ?_, fun row => ?_, fun row => ?_, fun row at_ hmark => ?_⟩ <;> split
  all_goals first | rfl | skip
  · next hhere =>
    have hwoken := hfree row hhere
    rw [AskRow.isWoken, hmark] at hwoken
    cases hwoken
  · exact hmark

theorem plain_mark (h : AskOk store) (hfree : ∀ row, here row → row.isWoken = false)
    (hrows : store'.rows = store.rows.map fun row => if here row then
      { row with coordinatorWokenAt := some now } else row)
    (hruns : store'.runs = store.runs) (hroots : store'.roots = store.roots) : SteadyStep store store' := by
  refine steadyStep_of_same h hrows ?_ hroots (sameRow_mark hfree now) sameRun_id fun row _ hstopped => ?_
  · rw [hruns, map_id]
  · split <;> exact isActive_of_directlyStopped hstopped

theorem plain_consume (h : AskOk store) (id : Text) (now : ℤ) :
    SteadyStep store (consumeResult id now store) := by
  refine plain_mark h (fun row hhere => ?_) rfl rfl rfl
  simp only [and_eq_true, not_eq_true'] at hhere
  exact hhere.2

theorem plain_settle (h : AskOk store) (rootTaskId : Text) (ask : GroupAsk) (now : ℤ) :
    SteadyStep store (settleAsk store rootTaskId ask now) := by
  refine plain_mark h (fun row hhere => ?_) rfl rfl rfl
  simp only [and_eq_true, not_eq_true'] at hhere
  exact hhere.2

theorem sameRow_cancel : SameRow cancelRow := by
  refine ⟨fun row => ?_, fun row => ?_, fun row => ?_, fun row => ?_, fun row at_ hmark => ?_⟩ <;>
    rw [cancelRow] <;> split
  all_goals first | rfl | exact hmark

theorem isActive_cancelRow (h : row.status.isActive) : (cancelRow row).status.isActive := by
  rw [cancelRow, if_pos h]
  rfl

theorem plain_cancel (h : AskOk store) (rootTaskId : Text) :
    SteadyStep store (requestCancel rootTaskId store) := by
  have hrow : SameRow fun row => if row.rootTaskId = rootTaskId then cancelRow row else row := by
    have hrow := sameRow_if sameRow_cancel fun row => decide (row.rootTaskId = rootTaskId)
    simpa only [decide_eq_true_eq] using hrow
  refine steadyStep_of_changes h ⟨rfl, rfl, ?_, ?_, hrow, sameRun_if (fun _ => rfl) (fun _ _ hid => hid)
    (fun _ => rfl) fun _ _ hended => hended, ?_⟩
  · intro root hroot
    refine ⟨_, mem_map_of_mem hroot, ?_, fun hcancel => ?_⟩
    · split <;> rfl
    · split
      · rfl
      · exact hcancel
  · refine Table.nodup_map h.rootIds fun root => ?_
    split <;> rfl
  · intro row _ hstopped
    split
    · exact isActive_cancelRow (isActive_of_directlyStopped hstopped)
    · exact isActive_of_directlyStopped hstopped

theorem plain_selectiveCancel (h : AskOk store) (runIds : List Text) :
    SteadyStep store (requestSelectiveCancel runIds store) := by
  refine steadyStep_of_same h rfl rfl rfl (sameRow_if sameRow_cancel _)
    (sameRun_if (fun _ => rfl) (fun _ _ hid => hid)
    (fun _ => rfl) fun _ _ hended => hended) fun row _ hstopped => ?_
  split
  · exact isActive_cancelRow (isActive_of_directlyStopped hstopped)
  · exact isActive_of_directlyStopped hstopped

/-! ### New rows and runs -/

theorem onwardRow_of_runs (h : AskOk store) (hrunIds : (store'.runs.map RoomRun.id).Nodup)
    (hruns : ∀ run ∈ store.runs, run ∈ store'.runs) (row : AskRow) :
    OnwardRow store store' row row := by
  refine ⟨rfl, rfl, rfl, fun _ hmark => hmark, fun hstopped => ?_⟩
  obtain ⟨hactive, run, hrun, hid, hended⟩ := (directlyStopped_iff h.runIds).mp hstopped
  exact (directlyStopped_iff hrunIds).mpr ⟨hactive, run, hruns run hrun, hid, hended⟩

section

variable {store store' : AskStore} (h : AskOk store) {rows : List AskRow} {run : RoomRun}
  (hrows : store'.rows = store.rows ++ rows) (hruns : store'.runs = run :: store.runs)
  (hroots : store'.roots = store.roots) (hrowIds : (store'.rows.map AskRow.id).Nodup)
  (hfresh : ∀ other ∈ store.runs, other.id ≠ run.id)
include h hrows hruns hroots hrowIds hfresh

/-- A run is added, and rows. If it is a follow-up, it is the first of its ask, which is settled. -/
theorem ok_add (hwakes : ∀ ask, run.wakes = some ask → (∀ other ∈ store.runs, other.wakes ≠ some ask) ∧
      ∃ row ∈ store.rows, row.ask = ask ∧ row.isWoken)
    (hbound : ∀ row ∈ store'.rows, run.delegationId = some row.id → row.runId = some run.id)
    (hunbound : ∀ row ∈ rows, ∀ other ∈ store.runs, other.delegationId ≠ some row.id) :
    AskOk store' ∧ Onward store store' := by
  have hrunIds : (store'.runs.map RoomRun.id).Nodup := by
    rw [hruns]
    exact Table.nodup_cons h.runIds hfresh
  have hmem : ∀ other ∈ store.runs, other ∈ store'.runs := by
    rw [hruns]
    exact fun other hother => mem_cons_of_mem _ hother
  have hrow : ∀ row ∈ store.rows, row ∈ store'.rows := by
    rw [hrows]
    exact fun row hrow => mem_append_left _ hrow
  refine ⟨⟨hrowIds, hrunIds, hroots ▸ h.rootIds, ?_, ?_, ?_⟩, ?_, ?_⟩
  · intro row hrow other hother hbind
    rw [hruns] at hother
    obtain rfl | hother := mem_cons.mp hother
    · exact hbound row hrow hbind
    · rw [hrows] at hrow
      obtain hrow | hrow := mem_append.mp hrow
      · exact h.bound row hrow other hother hbind
      · exact absurd hbind (hunbound row hrow other hother)
  · intro first hfirst other hother ask hsome hsome'
    rw [hruns] at hfirst hother
    obtain heq | hold := mem_cons.mp hfirst
    · obtain heq' | hold' := mem_cons.mp hother
      · exact heq.trans heq'.symm
      · exact absurd hsome' ((hwakes ask (heq ▸ hsome)).1 other hold')
    · obtain heq' | hold' := mem_cons.mp hother
      · exact absurd hsome ((hwakes ask (heq' ▸ hsome')).1 first hold)
      · exact h.once first hold other hold' ask hsome hsome'
  · intro other hother ask hsome
    rw [hruns] at hother
    have hwoken : ∃ row ∈ store.rows, row.ask = ask ∧ row.isWoken := by
      obtain rfl | hother := mem_cons.mp hother
      · exact (hwakes ask hsome).2
      · exact h.woken other hother ask hsome
    obtain ⟨row, hmemRow, hkeeps⟩ := hwoken
    exact ⟨row, hrow row hmemRow, hkeeps⟩
  · exact fun row hmemRow => ⟨row, hrow row hmemRow, onwardRow_of_runs h hrunIds hmem row⟩
  · exact fun root hroot => ⟨root, hroots ▸ hroot, rfl, fun hcancel => hcancel⟩

theorem plain_add (hwakes : run.wakes = none)
    (hbound : ∀ row ∈ store'.rows, run.delegationId = some row.id → row.runId = some run.id)
    (hunbound : ∀ row ∈ rows, ∀ other ∈ store.runs, other.delegationId ≠ some row.id) :
    PlainStep store store' := by
  have hnone : ∀ ask, run.wakes ≠ some ask := by
    rw [hwakes]
    exact fun ask hsome => by cases hsome
  obtain ⟨hok, honward⟩ :=
    ok_add h hrows hruns hroots hrowIds hfresh (fun ask hsome => absurd hsome (hnone ask)) hbound
    hunbound
  refine ⟨hok, honward, fun other hother ask hsome => ?_⟩
  rw [hruns] at hother
  obtain rfl | hother := mem_cons.mp hother
  · exact absurd hsome (hnone ask)
  · exact ⟨other, hother, rfl, hsome⟩

end

section

variable (h : AskOk store)
include h

theorem plain_createRun (hop : createRun run store = some store') : SteadyStep store store' := by
  simp only [createRun, bind_eq_bind, bind_eq_some_iff, guard_eq_some', not_eq_true',
    any_eq_false, decide_eq_true_eq] at hop
  obtain ⟨-, hfresh, hstore⟩ := hop
  cases hstore
  refine ⟨@plain_add store _ h [] _ (append_nil _).symm rfl rfl h.rowIds hfresh rfl
    (fun row _ hbind => ?_) ?_, rfl⟩
  · cases hbind
  · exact fun row hrow => absurd hrow not_mem_nil

theorem plain_addMember {member : AskedMember}
    (hop : addMember run callId messageId deadlineAt now store member = some store') :
    PlainStep store store' := by
  simp only [addMember, bind_eq_bind, bind_eq_some_iff, guard_eq_some', not_eq_true',
    any_eq_false, or_eq_true, decide_eq_true_eq, not_or] at hop
  obtain ⟨-, hrows, -, hruns, hstore⟩ := hop
  cases hstore
  have hrowIds : ((store.rows ++ [askedRow run callId deadlineAt now member]).map AskRow.id).Nodup := by
    rw [map_append, nodup_append_comm]
    exact Table.nodup_cons h.rowIds fun other hother => (hrows other hother).1
  refine plain_add h rfl rfl rfl hrowIds (fun other hother => (hruns other hother).1) rfl ?_ ?_
  · intro row hrow hbind
    obtain hrow | hrow := mem_append.mp hrow
    · exact absurd (some.inj hbind).symm (hrows row hrow).1
    · rw [mem_singleton.mp hrow]
      rfl
  · intro row hrow other hother
    rw [mem_singleton.mp hrow]
    exact (hruns other hother).2

theorem plain_roots (hrows : store'.rows = store.rows) (hruns : store'.runs = store.runs)
    (hroots : ∀ root ∈ store.roots, root ∈ store'.roots)
    (hrootIds : (store'.roots.map AskRoot.rootTaskId).Nodup) :
    SteadyStep store store' := by
  refine steadyStep_of_changes h ⟨?_, ?_,
    fun root hroot => ⟨root, hroots root hroot, rfl, fun hcancel => hcancel⟩,
    hrootIds, sameRow_id, sameRun_id, fun row _ => isActive_of_directlyStopped⟩
  · rw [hrows, map_id]
  · rw [hruns, map_id]

theorem plain_same (hrows : store'.rows = store.rows) (hruns : store'.runs = store.runs)
    (hroots : store'.roots = store.roots) :
    SteadyStep store store' :=
  plain_roots h hrows hruns (fun _ hroot => hroots ▸ hroot) (hroots ▸ h.rootIds)

theorem plain_begin {exhausted : Bool} (hop : beginTurn runId exhausted store = some store') :
    SteadyStep store store' := by
  simp only [beginTurn, bind_eq_bind, bind_eq_some_iff] at hop
  obtain ⟨run, -, -, -, hstore⟩ := hop
  cases hstore
  split
  · cases hfound : store.goals.find? fun goal =>
        goal.running && decide (goal.threadId = run.threadId) && decide (goal.coordinatorBotId = run.botId) with
    | none => exact plain_same h rfl rfl rfl
    | some goal =>
      have hlink := plain_link h runId goal
      exact hlink.trans (plain_same hlink.ok rfl rfl rfl)
  · exact plain_same h rfl rfl rfl

theorem plain_offer {turn : ℕ} {offered : Bool} (hop : offerAsk turn offered store = some store') :
    SteadyStep store store' := by
  simp only [offerAsk, bind_eq_bind, bind_eq_some_iff] at hop
  obtain ⟨found, -, run, -, room, -, hstore⟩ := hop
  cases hstore
  exact plain_same h rfl rfl rfl

theorem plain_openRoot {root : AskRoot} (hop : openRoot root store = some store') :
    SteadyStep store store' := by
  simp only [openRoot, bind_eq_bind, bind_eq_some_iff, guard_eq_some', not_eq_true',
    any_eq_false, decide_eq_true_eq] at hop
  obtain ⟨-, hfresh, hstore⟩ := hop
  cases hstore
  exact plain_roots h rfl rfl (fun other hother => mem_cons_of_mem _ hother)
    (Table.nodup_cons h.rootIds hfresh)

theorem plain_ensureRoot (run : RoomRun) : SteadyStep store (ensureRoot store run) := by
  rw [ensureRoot]
  split
  · exact SteadyStep.refl h
  · next hnone =>
    simp only [any_eq_true, decide_eq_true_eq, not_exists, not_and] at hnone
    exact plain_roots h rfl rfl (fun other hother => mem_cons_of_mem _ hother) (Table.nodup_cons h.rootIds hnone)

theorem plain_addMembers
    (hop : members.foldlM (addMember run callId messageId deadlineAt now) store = some store') :
    PlainStep store store' := by
  induction members generalizing store with
  | nil =>
    cases hop
    exact PlainStep.refl h
  | cons member members ih =>
    rw [foldlM_cons, bind_eq_bind, bind_eq_some_iff] at hop
    obtain ⟨middle, hfirst, hrest⟩ := hop
    have hstep := plain_addMember h hfirst
    exact hstep.trans (ih hstep.ok hrest)

theorem plain_ask {sourceId : Text}
    (hop : askGroupMembers sourceId callId messageId members deadlineAt now store = some store') :
    PlainStep store store' := by
  simp only [askGroupMembers, bind_eq_bind, bind_eq_some_iff] at hop
  obtain ⟨run, _, _, _, _, _, room, _, _, _, hop⟩ := hop
  split at hop
  · cases hop
    exact PlainStep.refl h
  · simp only [bind_eq_some_iff] at hop
    obtain ⟨_, _, root, _, _, _, _, _, _, _, hmembers⟩ := hop
    have hstep := plain_ensureRoot h run
    exact hstep.toPlainStep.trans (plain_addMembers hstep.ok hmembers)

/-- A row that has completed goes back to its worker, while no run is bound to it. It was not one
that was stopped. -/
theorem plain_reopen (hrow : row ∈ store.rows) (hcompleted : row.status = .completed)
    (hunbound : ∀ run ∈ store.runs, run.delegationId ≠ some row.id) (runId : Text) :
    SteadyStep store { store with
      rows := store.rows.map fun other =>
        if other.id = row.id then
          { other with status := .queued, runId := some runId, completedAt := none }
          else other } := by
  generalize hreopen : (fun other : AskRow => if other.id = row.id then
    { other with status := .queued, runId := some runId, completedAt := none } else other) = reopen
  have hother : ∀ other, other.id ≠ row.id → reopen other = other := by
    intro other hdifferent
    rw [← hreopen]
    exact if_neg hdifferent
  have hkeeps : ∀ other, (reopen other).id = other.id ∧ (reopen other).rootTaskId = other.rootTaskId ∧
      (reopen other).ask = other.ask ∧ (reopen other).coordinatorWokenAt = other.coordinatorWokenAt := by
    intro other
    by_cases hsame : other.id = row.id
    · rw [← hreopen]
      simp only [if_pos hsame, and_self]
    · rw [hother other hsame]
      exact ⟨rfl, rfl, rfl, rfl⟩
  refine ⟨⟨⟨Table.nodup_map h.rowIds fun other => (hkeeps other).1, h.runIds, h.rootIds, ?_, h.once, ?_⟩, ⟨?_, ?_⟩, ?_⟩,
    Table.map_key fun other => (hkeeps other).1⟩
  · intro other' hother' run hrun hbind
    obtain ⟨other, hmem, rfl⟩ := mem_map.mp hother'
    rw [(hkeeps other).1] at hbind
    by_cases hsame : other.id = row.id
    · rw [hsame] at hbind
      exact absurd hbind (hunbound run hrun)
    · rw [hother other hsame]
      exact h.bound other hmem run hrun hbind
  · intro run hrun ask hwakes
    obtain ⟨other, hmem, hask, hwoken⟩ := h.woken run hrun ask hwakes
    refine ⟨reopen other, mem_map_of_mem hmem, (hkeeps other).2.2.1.trans hask, ?_⟩
    rw [AskRow.isWoken, (hkeeps other).2.2.2]
    exact hwoken
  · intro other hmem
    obtain ⟨hid, hroot, hask, hmark⟩ := hkeeps other
    refine ⟨reopen other, mem_map_of_mem hmem, hid, hroot, hask, fun at_ hat => hmark.trans hat, fun hstopped => ?_⟩
    by_cases hsame : other.id = row.id
    · rw [Table.eq_of_key h.rowIds hmem hrow hsame] at hstopped
      exact absurd hcompleted (ne_completed_of_directlyStopped hstopped)
    · rw [hother other hsame]
      exact hstopped
  · exact fun root hroot => ⟨root, hroot, rfl, fun hcancel => hcancel⟩
  · exact fun run hrun ask hwakes => ⟨run, hrun, rfl, hwakes⟩

theorem plain_unbind (runId : Text) :
    SteadyStep store (updateRun store runId fun run => { run with delegationId := none }) := by
  refine steadyStep_of_same h (map_id _).symm rfl rfl sameRow_id ?_ fun row _ => isActive_of_directlyStopped
  have hunbind : SameRun fun run => { run with delegationId := none } :=
    ⟨fun _ => rfl, fun _ _ hid => absurd hid (some_ne_none _).symm, fun _ => rfl, fun _ hended => hended⟩
  exact sameRun_update hunbind runId

theorem plain_reject {id taskId : Text} (hop : rejectDelegation id runId taskId store = some store') :
    SteadyStep store store' := by
  simp only [rejectDelegation, bind_eq_bind, bind_eq_some_iff, guard_eq_some', not_eq_true',
    any_eq_false, decide_eq_true_eq] at hop
  obtain ⟨row, hfind, -, hcompleted, old, -, -, -, -, hfresh, -, hunbound, hstore⟩ := hop
  cases hstore
  obtain ⟨hrow, rfl⟩ := (Table.find_eq_some h.rowIds).mp hfind
  have hunbind := plain_unbind h old.id
  have hreopen := plain_reopen hunbind.ok hrow hcompleted hunbound runId
  refine hunbind.trans (hreopen.trans ⟨?_, rfl⟩)
  refine @plain_add _ _ hreopen.ok [] _ (append_nil _).symm rfl rfl hreopen.ok.rowIds ?_ rfl ?_ ?_
  · intro other hother
    obtain ⟨run, hrun, rfl⟩ := mem_map.mp hother
    have hid : (if run.id = old.id then { run with delegationId := none } else run).id = run.id := by
      split <;> rfl
    rw [hid]
    exact hfresh run hrun
  · intro other hother hbind
    obtain ⟨first, -, rfl⟩ := mem_map.mp hother
    split
    · rfl
    · next hdifferent =>
      rw [if_neg hdifferent] at hbind
      exact absurd (some.inj hbind).symm hdifferent
  · exact fun other hother => absurd hother not_mem_nil

end

end ArdurBot.Groups
