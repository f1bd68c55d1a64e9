import ArdurBot.Core.RunState
import ArdurBot.Lib.Paging
import ArdurBot.Lib.Run
import Mathlib.Data.Prod.Lex
import Mathlib.Order.WithBot

/-!
# The scans of the job reconciler

`reconcileWhileLeading` of `packages/adapters/src/job-reconciler.ts`: a pass enqueues a batch of the
runs, one of the routines and one of the controls, each after its own cursor. From a pass without a
cursor to the one that drops it each row that qualifies is enqueued once.
-/

namespace ArdurBot.Reconciler

open List Paging Sorted ArdurBot.Core Bool

def routineLookaheadMs : ℕ := 60000

def controlLookaheadMs : ℕ := 60000

structure Run (Id : Type) where
  id : Id
  status : RunStatus
  updatedAt : ℕ
  cancelRequestedAt : Option ℕ
  leaseExpiresAt : Option ℕ
  providerRetryAt : Option ℕ

structure Routine (Id : Type) where
  id : Id
  active : Bool
  nextRunAt : Option ℕ

structure Computer (Id : Type) where
  id : Id
  controlLeaseId : Option Id
  controlLeaseExpiresAt : Option ℕ

/-- What a pass finds, and when. -/
structure Pass (Id : Type) where
  now : ℕ
  runs : List (Run Id)
  routines : List (Routine Id)
  computers : List (Computer Id)
  runIds : (runs.map Run.id).Nodup
  routineIds : (routines.map Routine.id).Nodup
  computerIds : (computers.map Computer.id).Nodup

structure Cursor (τ Id : Type) where
  at_ : τ
  id : Id

/-- What the reconciler keeps from one pass to the next. -/
structure Cursors (Id : Type) where
  runCursor : Option (Cursor ℕ Id) := none
  routineCursor : Option (Cursor ℕ Id) := none
  controlCursor : Option (Cursor (Option ℕ) Id) := none
  controlScanDeadline : Option ℕ := none

/-- A `run.continue` that waits for a moment keeps its place in the queue. -/
inductive Job (Id : Type) where
  | runContinue (runId : Id) (availableAt : Option ℕ)
  | routineWakeup (routineId : Id) (scheduledFor : ℕ)
  | computerControlExpire (computerId leaseId : Id) (expiresAt : ℕ)

variable {Id : Type} [LinearOrder Id]

/-- A place in the order by a moment and then the id, without a moment at the end. -/
abbrev Place (Id : Type) := Lex (WithTop ℕ × Id)

def place (at_ : Option ℕ) (id : Id) : Place Id := toLex (at_, id)

def runOrder (run : Run Id) : Place Id := place (some run.updatedAt) run.id

def routineOrder (routine : Routine Id) : Place Id := place routine.nextRunAt routine.id

def controlOrder (computer : Computer Id) : Place Id :=
  place computer.controlLeaseExpiresAt computer.id

def runQualifies (now : ℕ) (run : Run Id) : Bool :=
  run.status = .queued ||
    (run.status = .waitingInput || run.status = .waitingTakeover) && run.cancelRequestedAt.isSome ||
    (run.status = .leased || run.status = .running) && run.leaseExpiresAt.any (· ≤ now)

def runCursorFilter (cursor : Option (Cursor ℕ Id)) (run : Run Id) : Bool :=
  cursor.all fun cursor => cursor.at_ < run.updatedAt || run.updatedAt = cursor.at_ && cursor.id < run.id

def routineQualifies (now : ℕ) (routine : Routine Id) : Bool :=
  routine.active && routine.nextRunAt.any (· ≤ now + routineLookaheadMs)

def routineCursorFilter (cursor : Option (Cursor ℕ Id)) (routine : Routine Id) : Bool :=
  cursor.all fun cursor =>
    routine.nextRunAt.any (cursor.at_ < ·) || routine.nextRunAt = some cursor.at_ && cursor.id < routine.id

def controlQualifies (deadline : ℕ) (computer : Computer Id) : Bool :=
  computer.controlLeaseId.isSome &&
    (computer.controlLeaseExpiresAt.isNone || computer.controlLeaseExpiresAt.any (· ≤ deadline))

def controlCursorFilter (cursor : Option (Cursor (Option ℕ) Id)) (computer : Computer Id) : Bool :=
  cursor.all fun cursor =>
    match cursor.at_ with
    | some at_ =>
      computer.controlLeaseExpiresAt.any (at_ < ·) ||
        computer.controlLeaseExpiresAt = some at_ && cursor.id < computer.id || computer.controlLeaseExpiresAt.isNone
    | none => computer.controlLeaseExpiresAt.isNone && cursor.id < computer.id

/-- The first `take` rows of those that match. -/
def findMany {α : Type} (orderBy : α → Place Id) (take : ℕ) (matching : α → Bool) (rows : List α) : List α :=
  (sortByKey orderBy (rows.filter matching)).take take

/-- The job of a run that waits out a provider's refusal is due at the moment of its retry. -/
def runJob (now : ℕ) (run : Run Id) : Job Id :=
  .runContinue run.id (run.providerRetryAt.filter (now < ·))

def routineJob (routine : Routine Id) : Option (Job Id) :=
  routine.nextRunAt.map (.routineWakeup routine.id)

def controlJob (now : ℕ) (computer : Computer Id) : Option (Job Id) :=
  computer.controlLeaseId.map fun leaseId =>
    .computerControlExpire computer.id leaseId (computer.controlLeaseExpiresAt.getD now)

def reconcileWhileLeading (batchSize : ℕ) (s : Cursors Id) (p : Pass Id) : Cursors Id × List (Job Id) :=
  let controlScanDeadline := s.controlScanDeadline.getD (p.now + controlLookaheadMs)
  let runs := findMany runOrder batchSize (fun run => runQualifies p.now run &&
      runCursorFilter s.runCursor run) p.runs
  let routines := findMany routineOrder batchSize
    (fun routine => routineQualifies p.now routine && routineCursorFilter s.routineCursor routine) p.routines
  let controls := findMany controlOrder batchSize (fun computer =>
    controlQualifies controlScanDeadline computer && controlCursorFilter s.controlCursor computer) p.computers
  let controlCursor :=
    if controls.length = batchSize then
      controls.getLast?.map fun computer => ⟨computer.controlLeaseExpiresAt, computer.id⟩
    else none
  ({  runCursor :=
        if runs.length = batchSize then runs.getLast?.map fun run => ⟨run.updatedAt, run.id⟩ else none
      routineCursor :=
        if routines.length = batchSize then
          routines.getLast?.bind fun routine => routine.nextRunAt.map fun at_ => ⟨at_, routine.id⟩
        else none
      controlCursor
      controlScanDeadline := if controlCursor.isSome then some controlScanDeadline else none },
    runs.map (runJob p.now) ++ (routines.filterMap routineJob ++ controls.filterMap (controlJob p.now)))

inductive Kind where
  | run
  | routine
  | control

/-- Where the next pass goes on. -/
def Cursors.cursor (s : Cursors Id) : Kind → Option (Place Id)
  | .run => s.runCursor.map fun cursor => place (some cursor.at_) cursor.id
  | .routine => s.routineCursor.map fun cursor => place (some cursor.at_) cursor.id
  | .control => s.controlCursor.map fun cursor => place cursor.at_ cursor.id

def Job.rowId : Kind → Job Id → Option Id
  | .run, .runContinue runId _ => some runId
  | .routine, .routineWakeup routineId _ => some routineId
  | .control, .computerControlExpire computerId _ _ => some computerId
  | _, _ => none

/-- The places of the rows that qualify in a pass of a cycle that began at `start`. -/
def qualifying (start : ℕ) (p : Pass Id) : Kind → List (Place Id)
  | .run => (p.runs.filter (runQualifies p.now)).map runOrder
  | .routine => (p.routines.filter (routineQualifies p.now)).map routineOrder
  | .control => (p.computers.filter (controlQualifies (start + controlLookaheadMs))).map controlOrder

/-- The jobs of the passes up to the one that drops the cursor, if one of them does. -/
def cycleJobs (batchSize : ℕ) (kind : Kind) : Cursors Id → List (Pass Id) → Option (List (Job Id))
  | _, [] => none
  | s, p :: later =>
    let (s', jobs) := reconcileWhileLeading batchSize s p
    match s'.cursor kind with
    | none => some jobs
    | some _ => (cycleJobs batchSize kind s' later).map (jobs ++ ·)

/-- The reconciler after some passes. -/
def afterPasses (batchSize : ℕ) (before : List (Pass Id)) : Cursors Id :=
  Run.after (fun s p => (reconcileWhileLeading batchSize s p).1) {} before

theorem place_lt {a b : Option ℕ} {i j : Id} : place a i < place b j ↔
    (a.any (fun a => b.all (a < ·))) ∨ a = b ∧ i < j := by
  rw [place, place, Prod.Lex.toLex_lt_toLex]
  refine or_congr ?_ Iff.rfl
  cases a with
  | none => exact iff_of_false not_top_lt false_ne_true
  | some a =>
    cases b with
    | none => exact iff_of_true (WithTop.coe_lt_top a) rfl
    | some b => exact WithTop.coe_lt_coe.trans decide_eq_true_iff.symm

theorem runCursorFilter_eq (cursor : Option (Cursor ℕ Id)) (run : Run Id) : runCursorFilter cursor run =
    isAfter runOrder (cursor.map fun cursor => place (some cursor.at_) cursor.id) run := by
  cases cursor with
  | none => rfl
  | some cursor => simp [runCursorFilter, isAfter, runOrder, place_lt, eq_comm]

omit [LinearOrder Id] in
theorem exists_nextRunAt {now : ℕ} {routine : Routine Id} (h : routineQualifies now routine) :
    ∃ at_, routine.nextRunAt = some at_ := by
  obtain ⟨at_, hat, -⟩ := (Option.any_eq_true _ _).mp (and_eq_true_iff.mp h).2
  exact ⟨at_, hat⟩

theorem routineCursorFilter_eq (cursor : Option (Cursor ℕ Id)) {now : ℕ} {routine : Routine Id}
    (h : routineQualifies now routine) : routineCursorFilter cursor routine =
      isAfter routineOrder (cursor.map fun cursor => place (some cursor.at_) cursor.id) routine := by
  obtain ⟨at_, hat⟩ := exists_nextRunAt h
  cases cursor with
  | none => rfl
  | some cursor => simp [routineCursorFilter, isAfter, routineOrder, place_lt, hat, eq_comm]

theorem controlCursorFilter_eq (cursor : Option (Cursor (Option ℕ) Id)) (computer : Computer Id) :
    controlCursorFilter cursor computer =
      isAfter controlOrder (cursor.map fun cursor => place cursor.at_ cursor.id) computer := by
  cases cursor with
  | none => rfl
  | some cursor =>
    obtain ⟨at_, id⟩ := cursor
    cases at_ <;> cases hexpires : computer.controlLeaseExpiresAt <;>
      simp [controlCursorFilter, isAfter, controlOrder, place_lt, hexpires, eq_comm]

section

variable {α γ : Type} {orderBy : α → Place Id} {items : List α} {qualifies after : α → Bool}
  {places : List (Place Id)} {cursor : Option (Place Id)} {take : ℕ}

theorem findMany_places (hids : (items.map fun item => (ofLex (orderBy item)).2).Nodup)
    (h : ((items.filter qualifies).map orderBy).Perm places)
    (hafter : ∀ item, qualifies item → after item = isAfter orderBy cursor item) :
    (findMany orderBy take (fun item => qualifies item && after item) items).map orderBy =
      ((sortByKey id places).filter (isAfter id cursor)).take take := by
  have hkeys : (items.map orderBy).Nodup := Nodup.of_map (fun place => (ofLex place).2) (by rwa [map_map])
  have hplaces : (places.map id).Nodup := by
    rw [map_id]
    exact h.nodup_iff.mp (nodup_filter hkeys qualifies)
  rw [findMany, map_take]
  congr 1
  refine @Ordered.ext _ _ _ id _ _ (pairwise_map.mpr (ordered_sortByKey (nodup_filter hkeys _)))
    ((ordered_sortByKey hplaces).sublist filter_sublist) fun place => ?_
  rw [mem_filter, mem_sortByKey, ← h.mem_iff, mem_map, mem_map]
  constructor
  · rintro ⟨item, hitem, rfl⟩
    obtain ⟨hitem, hmatch⟩ := mem_filter.mp (mem_sortByKey.mp hitem)
    obtain ⟨hqualifies, hlater⟩ := and_eq_true_iff.mp hmatch
    exact ⟨⟨item, mem_filter.mpr ⟨hitem, hqualifies⟩, rfl⟩, (hafter item hqualifies).symm.trans hlater⟩
  · rintro ⟨⟨item, hitem, rfl⟩, hlater⟩
    obtain ⟨hitem, hqualifies⟩ := mem_filter.mp hitem
    refine ⟨item, mem_sortByKey.mpr (mem_filter.mpr ⟨hitem, ?_⟩), rfl⟩
    rw [hqualifies, hafter item hqualifies]
    exact hlater

theorem mem_findMany {item : α}
    (h : item ∈ findMany orderBy take (fun item => qualifies item && after item) items) :
    qualifies item :=
  (and_eq_true_iff.mp (mem_filter.mp (mem_sortByKey.mp (mem_of_mem_take h))).2).1

omit [LinearOrder Id] in
/-- What a pass makes of the rows it found, by their places. -/
theorem batch_found {τ : Type} {found : List α} {size : ℕ} {row : α → Option Id}
    {next : α → Option (Cursor τ Id)}
    {toPlace : Cursor τ Id → Place Id} (hrow : ∀ item ∈ found, row item = some (ofLex (orderBy item)).2)
    (hnext : ∀ item ∈ found, (next item).map toPlace = some (orderBy item)) :
    found.filterMap row = (found.map orderBy).map (fun place => (ofLex place).2) ∧
      (if found.length = size then found.getLast?.bind next else none).map toPlace =
        if (found.map orderBy).length = size then (found.map orderBy).getLast? else none := by
  refine ⟨?_, ?_⟩
  · rw [filterMap_congr hrow, map_map]
    exact congrFun filterMap_eq_map found
  · rw [length_map, getLast?_map]
    split
    · cases hlast : found.getLast? with
      | none => rfl
      | some last => exact hnext last (mem_of_getLast? hlast)
    · rfl

end

omit [LinearOrder Id] in
theorem filterMap_rowId (now : ℕ) (kind : Kind) (runs : List (Run Id))
    (routines : List (Routine Id)) (controls : List (Computer Id)) :
    (runs.map (runJob now) ++ (routines.filterMap routineJob ++ controls.filterMap (controlJob now))).filterMap
        (Job.rowId kind) =
      match kind with
      | .run => runs.filterMap fun run => some run.id
      | .routine => routines.filterMap fun routine => routine.nextRunAt.bind fun _ => some routine.id
      | .control => controls.filterMap fun computer => computer.controlLeaseId.bind fun _ => some computer.id := by
  rw [filterMap_append, filterMap_append, filterMap_map, filterMap_filterMap, filterMap_filterMap]
  cases kind <;> simp [Function.comp_def, runJob, routineJob, controlJob, Job.rowId, Option.bind_map]

/-- The rows a pass enqueues for a kind and where the next pass goes on. -/
theorem reconcile_batch {batchSize start : ℕ} {kind : Kind} {s : Cursors Id} {p : Pass Id}
    {places : List (Place Id)}
    (hdeadline : kind = .control → s.controlScanDeadline.getD (p.now + controlLookaheadMs) = start +
      controlLookaheadMs)
    (h : (qualifying start p kind).Perm places) :
    ∃ batch, batch = ((sortByKey id places).filter (isAfter id (s.cursor kind))).take batchSize ∧
      (reconcileWhileLeading batchSize s p).2.filterMap (Job.rowId kind) = batch.map (fun place => (ofLex place).2) ∧
      (reconcileWhileLeading batchSize s p).1.cursor kind = if batch.length = batchSize then
        batch.getLast? else none := by
  unfold reconcileWhileLeading
  rw [filterMap_rowId]
  cases kind with
  | run =>
    refine ⟨_, findMany_places p.runIds h fun run _ => runCursorFilter_eq s.runCursor run, ?_⟩
    simp only [Option.map_eq_bind]
    exact batch_found (fun _ _ => rfl) fun _ _ => rfl
  | routine =>
    refine ⟨_, findMany_places p.routineIds h fun routine => routineCursorFilter_eq s.routineCursor,
      batch_found (fun routine hfound => ?_) fun routine hfound => ?_⟩
    all_goals
      obtain ⟨at_, hat⟩ := exists_nextRunAt (mem_findMany hfound)
      simp [hat, routineOrder, place]
  | control =>
    rw [hdeadline rfl]
    refine ⟨_, findMany_places p.computerIds h fun computer _ => controlCursorFilter_eq s.controlCursor computer, ?_⟩
    simp only [Option.map_eq_bind]
    refine batch_found (fun computer hfound => ?_) fun _ _ => rfl
    have hheld : controlQualifies _ computer := mem_findMany hfound
    obtain ⟨leaseId, hlease⟩ := Option.isSome_iff_exists.mp (and_eq_true_iff.mp hheld).1
    simp [hlease, controlOrder, place]

theorem deadline_kept {batchSize : ℕ} {s : Cursors Id} {p : Pass Id} :
    (reconcileWhileLeading batchSize s p).1.controlScanDeadline =
      if ((reconcileWhileLeading batchSize s p).1.cursor .control).isSome then
        some (s.controlScanDeadline.getD (p.now + controlLookaheadMs)) else none := by
  unfold Cursors.cursor
  rw [Option.isSome_map]
  rfl

/-- By induction on the passes: what is left of the rows in order is what is after the cursor. -/
theorem cycleJobs_rest {batchSize start : ℕ} (hsize : 1 ≤ batchSize) {kind : Kind}
    {rows : List (Place Id)} (hrows : (rows.map id).Nodup) {passes : List (Pass Id)}
    (h : ∀ p ∈ passes, (qualifying start p kind).Perm rows) {s : Cursors Id}
    (hdeadline : kind = .control → ∀ p ∈ passes.head?,
      s.controlScanDeadline.getD (p.now + controlLookaheadMs) = start + controlLookaheadMs)
    {pre rest : List (Place Id)} (hsplit : sortByKey id rows = pre ++ rest)
    (hcursor : (pre ++ rest).filter (isAfter id (s.cursor kind)) = rest) :
    (∀ jobs, cycleJobs batchSize kind s passes = some jobs →
      jobs.filterMap (Job.rowId kind) = rest.map fun place => (ofLex place).2) ∧
      (rest.length < passes.length * batchSize → (cycleJobs batchSize kind s passes).isSome) := by
  induction passes generalizing s pre rest with
  | nil => exact ⟨fun _ hjobs => (Option.some_ne_none _ hjobs.symm).elim, fun hlt => by simp at hlt⟩
  | cons p later ih =>
    obtain ⟨batch, hbatch, hids, hnext⟩ :=
      @reconcile_batch _ _ batchSize _ _ _ _ _ (fun hkind => hdeadline hkind p rfl) (h p mem_cons_self)
    rw [hsplit, hcursor] at hbatch
    subst hbatch
    unfold cycleJobs
    dsimp only
    by_cases hfull : batchSize ≤ rest.length
    · have hlast : (rest.take batchSize).getLast? = rest[batchSize - 1]? := by
        rw [getLast?_eq_getElem?, length_take, Nat.min_eq_left hfull, getElem?_take_of_lt (by omega)]
      rw [if_pos (length_take_of_le hfull), hlast] at hnext
      have hafter := filter_isAfter (hsplit ▸ ordered_sortByKey hrows) hsize hfull
      rw [Option.map_id, id, ← hnext] at hafter
      have hsplit' : pre ++ rest = (pre ++ rest.take batchSize) ++ rest.drop batchSize := by
        rw [append_assoc, take_append_drop]
      have hsome : ((reconcileWhileLeading batchSize s p).1.cursor kind).isSome := by
        rw [hnext, isSome_getElem?]
        omega
      have hkept : kind = .control → ∀ p' ∈ later.head?,
          (reconcileWhileLeading batchSize s p).1.controlScanDeadline.getD (p'.now + controlLookaheadMs) =
            start + controlLookaheadMs := by
        rintro rfl p' -
        rw [deadline_kept, if_pos hsome, Option.getD_some]
        exact hdeadline rfl p rfl
      obtain ⟨hjobs, hends⟩ :=
        ih (fun p hp => h p (mem_cons_of_mem _ hp)) hkept (hsplit.trans hsplit') (hsplit' ▸ hafter)
      obtain ⟨cursor, hcursor⟩ := Option.isSome_iff_exists.mp hsome
      rw [hcursor]
      refine ⟨fun jobs hcycle => ?_, fun hlt => ?_⟩
      · obtain ⟨more, hmore, rfl⟩ := Option.map_eq_some_iff.mp hcycle
        rw [filterMap_append, hids, hjobs more hmore, ← map_append, take_append_drop]
      · rw [Option.isSome_map]
        rw [length_cons, Nat.succ_mul] at hlt
        exact hends (by rw [length_drop]; omega)
    · rw [if_neg (by rw [length_take]; omega)] at hnext
      rw [hnext]
      refine ⟨fun jobs hjobs => ?_, fun _ => rfl⟩
      rw [← Option.some.inj hjobs, hids, take_of_length_le (by omega)]

/-- The passes of a cycle, from one without a cursor to the one that drops it. -/
theorem scans_miss_nothing {batchSize : ℕ} (hsize : 1 ≤ batchSize) (before : List (Pass Id)) (kind : Kind)
    (first : Pass Id) (later : List (Pass Id)) (rows : List (Place Id))
    (hstart : (afterPasses batchSize before).cursor kind = none)
    (hrows : ∀ p ∈ first :: later, (qualifying first.now p kind).Perm rows) :
    (∀ jobs, cycleJobs batchSize kind (afterPasses batchSize before) (first :: later) = some jobs →
      (jobs.filterMap (Job.rowId kind)).Perm (rows.map fun place => (ofLex place).2) ∧
        (jobs.filterMap (Job.rowId kind)).Nodup) ∧
      (rows.length < (first :: later).length * batchSize →
        (cycleJobs batchSize kind (afterPasses batchSize before) (first :: later)).isSome) := by
  have hinit : (afterPasses batchSize before).cursor .control = none →
      (afterPasses batchSize before).controlScanDeadline = none := by
    refine @Run.inv_after _ _ _ (fun s : Cursors Id => s.cursor .control = none → s.controlScanDeadline = none)
      (fun s p _ hnone => ?_) _ (fun _ => rfl) before
    rw [deadline_kept, hnone]
    rfl
  generalize afterPasses batchSize before = s at *
  have hids : (rows.map fun place => (ofLex place).2).Nodup := by
    refine ((hrows first mem_cons_self).map _).nodup_iff.mp ?_
    cases kind <;> (unfold qualifying; rw [map_map])
    · exact nodup_filter first.runIds _
    · exact nodup_filter first.routineIds _
    · exact nodup_filter first.computerIds _
  have hsorted : ((sortByKey id rows).map fun place => (ofLex place).2).Perm (rows.map fun place =>
      (ofLex place).2) :=
    (perm_insertionSort _ rows).map _
  have hplaces : (rows.map id).Nodup := by
    rw [map_id]
    exact Nodup.of_map _ hids
  obtain ⟨hjobs, hends⟩ := @cycleJobs_rest _ _ _ first.now hsize kind rows hplaces _ hrows s
    (fun hkind p hp => by rw [← Option.some.inj hp, hinit (hkind ▸ hstart), Option.getD_none]) []
      (sortByKey id rows) rfl
    (by rw [hstart]; exact filter_eq_self.mpr fun _ _ => rfl)
  refine ⟨fun jobs hcycle => ?_, fun hlt => hends ?_⟩
  · rw [hjobs jobs hcycle]
    exact ⟨hsorted, hsorted.nodup_iff.mpr hids⟩
  · rw [length_sortByKey]
    exact hlt

/-- Two controls, the second without an end of its lease. -/
def leasedPass : Pass ℕ where
  now := 0
  runs := []
  routines := []
  computers := [⟨2, some 0, none⟩, ⟨1, some 0, some 5⟩]
  runIds := nodup_nil
  routineIds := nodup_nil
  computerIds := by decide

theorem scans_miss_nothing_leased :
    (∀ jobs, cycleJobs 1 .control {} [leasedPass, leasedPass, leasedPass] = some jobs →
      (jobs.filterMap (Job.rowId .control)).Perm [2, 1] ∧ (jobs.filterMap (Job.rowId .control)).Nodup) ∧
      (2 < 3 * 1 → (cycleJobs 1 .control {} [leasedPass, leasedPass, leasedPass]).isSome) :=
  scans_miss_nothing le_rfl [] .control leasedPass [leasedPass, leasedPass] [place none 2,
    place (some 5) 1] rfl (by decide)

end ArdurBot.Reconciler
