import ArdurBot.Goals.Dispatch
import ArdurBot.Goals.PlanMarks
import ArdurBot.Lib.Checked

/-!
# Who works on a step

A live run has a delegation that names it as its run, and so a delegation has one live run at most.
While every live delegation is the one that its step records, a step has one live run at most. The
handout keeps that, since a step that is pending records no delegation; reopening a step whose
delegation still has a live run breaks it, and so does rejecting a delegation that its step no
longer records. The goal is looked at again only under its own root.
-/

namespace ArdurBot.Goals

open List Utf16 ArdurBot.Core
open Bool hiding not_and not_or
open Option hiding any any_eq_false any_eq_true map map_map

def WorkRun.IsLive (run : WorkRun) : Prop := run.status.isTerminal = false

/-- The run has not ended and is for a delegation of the step. -/
def Work.WorksOn (work : Work) (run : WorkRun) (stepId : Text) : Prop :=
  run ∈ work.runs ∧ run.IsLive ∧
    ∃ delegation ∈ work.delegations, run.delegationId = some delegation.id ∧ delegation.stepId = stepId

structure WorkOk (work : Work) : Prop where
  plan : PlanOk work.plan.steps
  runs : (work.runs.map WorkRun.id).Nodup
  delegations : (work.delegations.map StepDelegation.id).Nodup
  marks : ∀ row ∈ work.plan.steps, row.dispatchRunId = none → row.dispatchDelegationId = none
  revisions : ∀ row ∈ work.plan.steps, row.revision ≤ work.plan.planRevision
  keys : ∀ delegation ∈ work.delegations, delegation.revision ≤ work.plan.planRevision ∧
    ∀ row ∈ work.plan.steps, row.clientId = delegation.stepId → row.revision = delegation.revision →
      row.dispatchRunId ≠ none
  handoffs : ∀ handoff ∈ work.handoffs, ∃ delegation ∈ work.delegations,
    delegation.stepId = handoff.stepId ∧ delegation.revision = handoff.revision
  working : ∀ run ∈ work.runs, run.IsLive → ∃ delegation ∈ work.delegations,
    run.delegationId = some delegation.id ∧ delegation.runId = some run.id
  goal : work.plan.status = .running ∨ work.plan.status.isFrozen ∨ work.cancelRequested

/-- The delegation of each live run is the one that its step records. -/
def Recorded (work : Work) : Prop :=
  ∀ run ∈ work.runs, run.IsLive → ∀ delegation ∈ work.delegations, run.delegationId = some delegation.id →
    ∃ row ∈ work.plan.steps, row.clientId = delegation.stepId ∧ row.dispatchDelegationId = some delegation.id

theorem eq_of_mem {α β : Type} {l : List α} {f : α → β} (h : (l.map f).Nodup) {a b : α}
    (ha : a ∈ l) (hb : b ∈ l) (hab : f a = f b) : a = b := inj_on_of_nodup_map h ha hb hab

variable {work work' : Work} {delegationId runId stepId : Text} {old run : WorkRun} {op : PlanOp}
  {update : StepDelegation → StepDelegation} {current seen : PlanStep} {affordable : Bool}
  {row : StepDelegation} {input : DispatchInput} {at_ : ℤ} {plan plan' : Plan}

theorem eq_of_worksOn (h : WorkOk work) (hrecorded : Recorded work) {run' : WorkRun}
    (hrun : work.WorksOn run stepId) (hrun' : work.WorksOn run' stepId) : run = run' := by
  obtain ⟨hmem, hlive, delegation, hdelegation, hid, hstep⟩ := hrun
  obtain ⟨hmem', hlive', delegation', hdelegation', hid', hstep'⟩ := hrun'
  obtain ⟨row, hrow, hrowStep, hrowMark⟩ := hrecorded run hmem hlive delegation hdelegation hid
  obtain ⟨row', hrow', hrowStep', hrowMark'⟩ := hrecorded run' hmem' hlive' delegation' hdelegation' hid'
  have hrows : row = row' := by
    apply eq_of_mem h.plan.keys hrow hrow'
    rw [hrowStep, hrowStep', hstep, hstep']
  have hids : delegation.id = delegation'.id := by
    rw [hrows, hrowMark'] at hrowMark
    exact (some.inj hrowMark).symm
  obtain ⟨named, hnamed, hnamedId, hnamedRun⟩ := h.working run hmem hlive
  obtain ⟨named', hnamed', hnamedId', hnamedRun'⟩ := h.working run' hmem' hlive'
  have hsame : named = named' := by
    apply eq_of_mem h.delegations hnamed hnamed'
    rw [hid] at hnamedId
    rw [hid'] at hnamedId'
    exact (some.inj hnamedId).symm.trans (hids.trans (some.inj hnamedId'))
  rw [hsame, hnamedRun'] at hnamedRun
  exact eq_of_mem h.runs hmem hmem' (some.inj hnamedRun).symm

/-! ### Edits of the plan -/

theorem workOk_edit (h : WorkOk work) (hedit : op.IsEdit) :
    WorkOk { work with plan := op.apply work.plan } := by
  have hkept := marksKept_apply h.plan hedit
  have hrevision : work.plan.planRevision ≤ (op.apply work.plan).planRevision := by
    obtain hsame | hnext := hkept.revision
    · rw [hsame]
    · rw [hnext]
      exact Nat.le_succ _
  refine ⟨(stepOk_apply h.plan op).ok, h.runs, h.delegations, ?_, ?_, ?_, h.handoffs, h.working, ?_⟩
  · intro row' hrow' hfree
    obtain ⟨-, hunmarked⟩ | ⟨row, hrow, hsame, -⟩ := hkept.back row' hrow'
    · exact hunmarked.2
    · rw [hsame.2.2]
      exact h.marks row hrow (hsame.2.1.symm.trans hfree)
  · intro row' hrow'
    obtain hsame | hnext := hkept.revision
    · dsimp only at hrow' ⊢
      rw [hsame] at hrow' ⊢
      exact h.revisions row' hrow'
    · show row'.revision ≤ (op.apply work.plan).planRevision
      obtain ⟨hnew, -⟩ | ⟨row, hrow, -, hsame | hnew⟩ := hkept.back row' hrow'
      · rw [hnew, hnext]
      · rw [hsame]
        exact (h.revisions row hrow).trans hrevision
      · rw [hnew, hnext]
  · intro delegation hdelegation
    obtain ⟨hle, hkeys⟩ := h.keys delegation hdelegation
    refine ⟨hle.trans hrevision, ?_⟩
    intro row' hrow' hstep hrevision
    have hold : row'.revision ≠ work.plan.planRevision + 1 := by omega
    obtain ⟨hnew, -⟩ | ⟨row, hrow, hsame, hrevisions⟩ := hkept.back row' hrow'
    · exact absurd hnew hold
    · have hrowRevision := hrevisions.resolve_right hold
      rw [hsame.2.1]
      exact hkeys row hrow (hsame.1.symm.trans hstep) (hrowRevision.symm.trans hrevision)
  · show (op.apply work.plan).status = _ ∨ (op.apply work.plan).status.isFrozen ∨ _
    rw [hkept.status]
    exact h.goal

/-- What reopening has to see: that the run which the recorded delegation has now is over. -/
def Work.IsOver (work : Work) (stepId : Text) : Prop :=
  ∀ row ∈ work.plan.steps, row.clientId = stepId → ∀ delegation ∈ work.delegations,
    row.dispatchDelegationId = some delegation.id → ∀ run ∈ work.runs, delegation.runId = some run.id → ¬ run.IsLive

/-- The guards of reopening a step. -/
def Work.mayReopen (work : Work) (stepId : Text) (baseRevision : ℕ) : Bool :=
  work.plan.status = .running && work.plan.planRevision = baseRevision &&
    (findStep work.plan.steps stepId).any fun step =>
      (step.status = .done || step.status = .cancelled || step.status = .active) &&
        !step.dispatchRunId.any (inFlight work.runs)

theorem mayReopen_of_settle {order : RowOrder} {baseRevision : ℕ}
    (h : settleGoalPlanStep .reopen (inFlight work.runs) order stepId baseRevision work.plan = .ok plan') :
    work.mayReopen stepId baseRevision := by
  have hguard : ∀ {condition : Bool} {reason : GoalPlanConflict} {u : Unit},
      refuseUnless condition reason = .ok u → condition := by
    intro condition reason u hok
    cases condition
    · cases hok
    · rfl
  unfold settleGoalPlanStep at h
  obtain ⟨step, hclaim, h⟩ := Checked.bind_eq_ok.mp h
  obtain ⟨_, hrunning, hclaim⟩ := Checked.bind_eq_ok.mp hclaim
  obtain ⟨_, hrevision, hclaim⟩ := Checked.bind_eq_ok.mp hclaim
  obtain ⟨_, hstatus, h⟩ := Checked.bind_eq_ok.mp h
  obtain ⟨_, hflight, -⟩ := Checked.bind_eq_ok.mp h
  split at hclaim
  · next found hfound =>
    cases hclaim
    rw [Work.mayReopen, hfound, any_some, hguard hrunning, hguard hrevision, hguard hstatus, hguard hflight]
    rfl
  · cases hclaim

theorem recorded_edit (h : WorkOk work) (hrecorded : Recorded work) (hedit : op.IsEdit)
    (hover : ∀ id, op.reopens id → work.IsOver id) : Recorded { work with plan := op.apply work.plan } := by
  have hkept := marksKept_apply h.plan hedit
  intro run hrun hlive delegation hdelegation hid
  obtain ⟨row, hrow, hstep, hmark⟩ := hrecorded run hrun hlive delegation hdelegation hid
  have hopen : ¬ op.reopens row.clientId := by
    intro hreopens
    obtain ⟨named, hnamed, hnamedId, hnamedRun⟩ := h.working run hrun hlive
    have hsame : delegation = named := by
      apply eq_of_mem h.delegations hdelegation hnamed
      exact some.inj (hid.symm.trans hnamedId)
    exact hover row.clientId hreopens row hrow rfl delegation hdelegation hmark run hrun (hsame ▸ hnamedRun) hlive
  obtain ⟨row', hrow', hsame⟩ := hkept.forth row hrow hopen
  exact ⟨row', hrow', hsame.1.trans hstep, hsame.2.2.trans hmark⟩

/-! ### Runs and delegations that go on -/

/-- A change of a delegation that leaves what it is for. -/
structure SameTask (update : StepDelegation → StepDelegation) : Prop where
  id : ∀ row, (update row).id = row.id
  stepId : ∀ row, (update row).stepId = row.stepId
  revision : ∀ row, (update row).revision = row.revision
  runId : ∀ row, (update row).runId = row.runId

theorem SameTask.updateDelegation (h : SameTask update) (id : Text) :
    SameTask fun row => if row.id = id then update row else row where
  id row := by
    split
    · exact h.id row
    · rfl
  stepId row := by
    split
    · exact h.stepId row
    · rfl
  revision row := by
    split
    · exact h.revision row
    · rfl
  runId row := by
    split
    · exact h.runId row
    · rfl

theorem workOk_delegations (h : WorkOk work) (hupdate : SameTask update) :
    WorkOk { work with delegations := work.delegations.map update } := by
  refine ⟨h.plan, h.runs, ?_, h.marks, h.revisions, ?_, ?_, ?_, h.goal⟩
  · rw [map_map]
    convert h.delegations using 2
    funext row
    exact hupdate.id row
  · intro row' hrow'
    obtain ⟨row, hrow, rfl⟩ := mem_map.mp hrow'
    rw [hupdate.revision, hupdate.stepId]
    exact h.keys row hrow
  · intro handoff hhandoff
    obtain ⟨row, hrow, hstep, hrevision⟩ := h.handoffs handoff hhandoff
    exact ⟨update row, mem_map_of_mem hrow, (hupdate.stepId row).trans hstep, (hupdate.revision row).trans hrevision⟩
  · intro run hrun hlive
    obtain ⟨row, hrow, hid, hrunId⟩ := h.working run hrun hlive
    exact ⟨update row, mem_map_of_mem hrow, hid.trans (congrArg some (hupdate.id row).symm),
      (hupdate.runId row).trans hrunId⟩

theorem recorded_delegations (h : Recorded work) (hupdate : SameTask update) :
    Recorded { work with delegations := work.delegations.map update } := by
  intro run hrun hlive row' hrow' hid
  obtain ⟨row, hrow, rfl⟩ := mem_map.mp hrow'
  rw [hupdate.id] at hid ⊢
  rw [hupdate.stepId]
  exact h run hrun hlive row hrow hid

theorem sameTask_startDelegation :
    SameTask fun row => if row.status = .queued then { row with status := .running } else row := by
  constructor <;>
  · intro row
    split <;> rfl

theorem sameTask_finishDelegation (outcome : DelegationOutcome) (expectedRunId : Option (Option Text)) :
    SameTask (finishDelegation outcome expectedRunId) := by
  constructor <;>
  · intro row
    rw [finishDelegation]
    split_ifs <;> rfl

theorem sameTask_acceptDelegation : SameTask acceptDelegation := by
  constructor <;>
  · intro row
    rw [acceptDelegation]
    split <;> rfl

theorem sameTask_requestCancel : SameTask requestCancel := by
  constructor <;>
  · intro row
    rw [requestCancel]
    split <;> rfl

theorem isLive_of_moveRun {status : RunStatus} (h : (moveRun status run).IsLive) : run.IsLive := by
  cases hterminal : run.status.isTerminal with
  | false => exact hterminal
  | true =>
    rw [moveRun, if_pos hterminal, WorkRun.IsLive, hterminal] at h
    cases h

/-- The runs afterwards, with the ones that they were. -/
structure Onward (update : WorkRun → WorkRun) : Prop where
  id : ∀ run, (update run).id = run.id
  delegationId : ∀ run, (update run).delegationId = run.delegationId
  live : ∀ run, (update run).IsLive → run.IsLive

theorem onward_moveRun (id : Text) (status : RunStatus) :
    Onward fun run => if run.id = id then moveRun status run else run where
  id run := by
    split
    · rw [moveRun]
      split <;> rfl
    · rfl
  delegationId run := by
    split
    · rw [moveRun]
      split <;> rfl
    · rfl
  live run := by
    split
    · exact isLive_of_moveRun
    · exact fun h => h

theorem workOk_runs (h : WorkOk work) {update : WorkRun → WorkRun} (hupdate : Onward update) :
    WorkOk { work with runs := work.runs.map update } := by
  refine ⟨h.plan, ?_, h.delegations, h.marks, h.revisions, h.keys, h.handoffs, ?_, h.goal⟩
  · rw [map_map]
    convert h.runs using 2
    funext run
    exact hupdate.id run
  · intro run' hrun' hlive
    obtain ⟨run, hrun, rfl⟩ := mem_map.mp hrun'
    rw [hupdate.id, hupdate.delegationId]
    exact h.working run hrun (hupdate.live run hlive)

theorem recorded_runs (h : Recorded work) {update : WorkRun → WorkRun} (hupdate : Onward update) :
    Recorded { work with runs := work.runs.map update } := by
  intro run' hrun' hlive delegation hdelegation hid
  obtain ⟨run, hrun, rfl⟩ := mem_map.mp hrun'
  rw [hupdate.delegationId] at hid
  exact h run hrun (hupdate.live run hlive) delegation hdelegation hid

theorem workOk_status (h : WorkOk work) {status : GoalStatus}
    (hstatus : status = .running ∨ status.isFrozen ∨ work.cancelRequested) :
    WorkOk { work with plan.status := status } :=
  { h with goal := hstatus }

theorem workOk_cancelRequested (h : WorkOk work) : WorkOk { work with cancelRequested := true } :=
  { h with goal := .inr (.inr rfl) }

theorem workOk_goal (h : WorkOk work) (move : GoalMove) : WorkOk (move.apply work) := by
  cases move with
  | submit | accept =>
    show WorkOk (if _ then _ else _)
    split
    · exact workOk_status h (.inr (.inl rfl))
    · exact h
  | rework =>
    show WorkOk (if _ then _ else _)
    split
    · exact workOk_status h (.inl rfl)
    · exact h
  | requestCancel => exact workOk_delegations (workOk_cancelRequested h) sameTask_requestCancel
  | stop | exhaust =>
    show WorkOk (if _ then _ else _)
    split
    · next hcancel =>
      rw [and_eq_true] at hcancel
      exact workOk_status h (.inr (.inr hcancel.1))
    · exact h

theorem recorded_goal (h : Recorded work) (move : GoalMove) : Recorded (move.apply work) := by
  cases move with
  | requestCancel => exact recorded_delegations h sameTask_requestCancel
  | submit | accept | rework | stop | exhaust =>
    show Recorded (if _ then _ else _)
    split
    · exact h
    · exact h

/-! ### The handout -/

theorem createRun_eq_some {runs runs' : List WorkRun} (h : createRun run runs = some runs') :
    (∀ other ∈ runs, other.id ≠ run.id) ∧
      (∀ other ∈ runs, run.delegationId.isSome → other.delegationId ≠ run.delegationId) ∧ runs' = run :: runs := by
  rw [createRun] at h
  split at h
  · cases h
  · next hfree =>
    simp only [any_eq_true, or_eq_true, and_eq_true, decide_eq_true_eq, not_exists, not_and, not_or] at hfree
    exact ⟨fun other hother => (hfree other hother).1, fun other hother => (hfree other hother).2, (some.inj h).symm⟩

structure HandedOut (input : DispatchInput) (current : PlanStep) (work work' : Work) : Prop where
  running : input.onGoalRoot → work.plan.status = .running
  member : current.ownerId ∈ input.members
  marked : Dispatched input.seen current input.runId input.delegationId input.dispatchedAt
    work.plan work'.plan
  freshRun : ∀ run ∈ work.runs, run.id ≠ input.runId
  freshDelegation : ∀ row ∈ work.delegations, row.id ≠ input.delegationId
  cancelRequested : work'.cancelRequested = work.cancelRequested
  runs : work'.runs =
    { id := input.runId, status := .queued, delegationId := some input.delegationId } :: work.runs
  delegations : work'.delegations =
    { id := input.delegationId, stepId := current.clientId, revision := current.revision
      onGoalRoot := input.onGoalRoot, status := .queued, runId := some input.runId } :: work.delegations
  handoffs : work'.handoffs =
    { stepId := current.clientId, revision := current.revision, runId := input.runId } :: work.handoffs

variable {id : Text}

theorem admitStep_eq_some {onGoalRoot : Bool} {revision : ℕ}
    (hnew : ∀ delegation ∈ work.delegations, delegation.stepId = stepId → delegation.revision ≠ revision)
    {delegation : StepDelegation} {delegations : List StepDelegation}
    (h : admitStep affordable onGoalRoot id stepId revision work = some (delegation, delegations)) :
    (onGoalRoot → work.cancelRequested = false ∧ work.plan.status.isFrozen = false) ∧
      (∀ row ∈ work.delegations, row.id ≠ id) ∧
        delegation = { id, stepId, revision, onGoalRoot, status := .queued, runId := none } ∧
      delegations = delegation :: work.delegations := by
  rw [admitStep] at h
  split at h
  · next replay hreplay =>
    have hkey := find?_some hreplay
    rw [and_eq_true, decide_eq_true_eq, decide_eq_true_eq] at hkey
    exact absurd hkey.2 (hnew replay (mem_of_find?_eq_some hreplay) hkey.1)
  · split at h
    · cases h
    · next hopen =>
      simp only [or_eq_true, and_eq_true, not_or, not_and, not_eq_true, any_eq_false, decide_eq_true_eq] at hopen
      obtain ⟨⟨hroot, -⟩, hfresh⟩ := hopen
      cases h
      exact ⟨hroot, hfresh, rfl, rfl⟩

theorem updateDelegation_head {rows : List StepDelegation}
    (hfresh : ∀ other ∈ rows, other.id ≠ row.id) (update : StepDelegation → StepDelegation) :
    updateDelegation (row :: rows) row.id update = update row :: rows := by
  rw [updateDelegation, map_cons, if_pos rfl]
  congr 1
  conv_rhs => rw [← map_id rows]
  apply map_congr_left
  intro other hother
  exact if_neg (hfresh other hother)

theorem handedOut_of_dispatch (h : WorkOk work)
    (hdispatch : dispatchReadyGoalPlanStep input work = some work') :
    ∃ current, HandedOut input current work work' := by
  simp only [dispatchReadyGoalPlanStep, bind_eq_bind, bind_eq_some_iff, guard_eq_some'] at hdispatch
  obtain ⟨-, -, current, hcurrent, -, hready, hdispatch⟩ := hdispatch
  rw [and_eq_true, contains_iff_mem] at hready
  obtain ⟨hmember, hready⟩ := hready
  have hfree : current.dispatchRunId = none := by
    simp only [isDispatchable, and_eq_true, decide_eq_true_eq] at hready
    exact hready.1.1.1.2
  -- A step that is free has not been handed out under its revision: there is nothing to recover or to replay.
  have hnew : ∀ delegation ∈ work.delegations, delegation.stepId = current.clientId →
      delegation.revision ≠ current.revision :=
    fun delegation hdelegation hstep hrevision =>
      (h.keys delegation hdelegation).2 current (mem_of_findStep hcurrent) hstep.symm hrevision.symm hfree
  split at hdispatch
  · next existing hexisting =>
    have hkey := find?_some hexisting
    rw [and_eq_true, decide_eq_true_eq, decide_eq_true_eq] at hkey
    obtain ⟨delegation, hdelegation, hstep, hrevision⟩ := h.handoffs existing (mem_of_find?_eq_some hexisting)
    exact absurd (hrevision.trans hkey.2) (hnew delegation hdelegation (hstep.trans hkey.1))
  · simp only [bind_eq_some_iff, Prod.exists] at hdispatch
    obtain ⟨delegation, delegations, hadmitted, runs, hruns, plan, hplan, hwork⟩ := hdispatch
    obtain ⟨hroot, hfreshDelegation, rfl, rfl⟩ := admitStep_eq_some hnew hadmitted
    obtain ⟨hfreshRun, -, rfl⟩ := createRun_eq_some hruns
    obtain ⟨current', hmarked⟩ := dispatchStep_spec hplan
    have hsame : current' = current := some.inj (hmarked.found.symm.trans hcurrent)
    rw [hsame] at hmarked
    rw [updateDelegation_head hfreshDelegation] at hwork
    cases hwork
    have hrunning : input.onGoalRoot → work.plan.status = .running := by
      intro hon
      obtain ⟨hcancel, hfrozen⟩ := hroot hon
      obtain hrunning | hfrozen' | hcancel' := h.goal
      · exact hrunning
      · rw [hfrozen'] at hfrozen
        cases hfrozen
      · rw [hcancel'] at hcancel
        cases hcancel
    exact ⟨current, hrunning, hmember, hmarked, hfreshRun, hfreshDelegation, rfl, rfl, rfl, rfl⟩

section

variable (h : Dispatched seen current runId delegationId at_ plan plan')
include h

theorem Dispatched.back (hkeys : (plan.steps.map PlanStep.clientId).Nodup) {row' : PlanStep}
    (hrow' : row' ∈ plan'.steps) :
    (row' ∈ plan.steps ∧ row'.clientId ≠ seen.clientId) ∨
      (row' = markDispatched runId delegationId at_ current ∧ row'.clientId = seen.clientId) := by
  rw [h.marked] at hrow'
  obtain ⟨row, hrow, rfl⟩ := mem_map.mp hrow'
  by_cases hseen : row.clientId = seen.clientId
  · have hcurrent : row = current :=
      some.inj (((findStep_eq_some hkeys).mpr ⟨hrow, hseen⟩).symm.trans h.found)
    rw [if_pos hseen, ← hcurrent]
    exact .inr ⟨rfl, (clientId_markDispatched _ _ _ row).trans hseen⟩
  · rw [if_neg hseen]
    exact .inl ⟨hrow, hseen⟩

theorem Dispatched.forth {row : PlanStep}
    (hrow : row ∈ plan.steps) (hother : row.clientId ≠ seen.clientId) : row ∈ plan'.steps := by
  rw [h.marked]
  refine mem_map.mpr ⟨row, hrow, if_neg hother⟩

theorem Dispatched.mark_mem : markDispatched runId delegationId at_ current ∈ plan'.steps := by
  rw [h.marked]
  exact mem_map.mpr ⟨current, mem_of_findStep h.found, if_pos (clientId_of_findStep h.found)⟩

theorem Dispatched.mark : (markDispatched runId delegationId at_ current).dispatchRunId = some runId ∧
      (markDispatched runId delegationId at_ current).dispatchDelegationId = some delegationId ∧
      (markDispatched runId delegationId at_ current).revision = current.revision := by
  rw [markDispatched, if_pos h.free]
  exact ⟨rfl, rfl, rfl⟩

end

theorem workOk_handedOut (h : WorkOk work) (hout : HandedOut input current work work') : WorkOk work' := by
  have hcurrent := mem_of_findStep hout.marked.found
  have hid := clientId_of_findStep hout.marked.found
  obtain ⟨hmarkRun, hmarkDelegation, hmarkRevision⟩ := hout.marked.mark
  have hplan : work'.plan.planRevision = work.plan.planRevision ∧ work'.plan.status = work.plan.status := by
    rw [hout.marked.marked]
    exact ⟨rfl, rfl⟩
  refine ⟨dispatched_ok h.plan hout.marked, ?_, ?_, ?_, ?_, ?_, ?_, ?_, ?_⟩
  · rw [hout.runs, map_cons, nodup_cons]
    refine ⟨?_, h.runs⟩
    intro hmem
    obtain ⟨run, hrun, hsame⟩ := mem_map.mp hmem
    exact hout.freshRun run hrun hsame
  · rw [hout.delegations, map_cons, nodup_cons]
    refine ⟨?_, h.delegations⟩
    intro hmem
    obtain ⟨row, hrow, hsame⟩ := mem_map.mp hmem
    exact hout.freshDelegation row hrow hsame
  · intro row' hrow' hfree
    obtain ⟨hrow, -⟩ | ⟨rfl, -⟩ := hout.marked.back h.plan.keys hrow'
    · exact h.marks row' hrow hfree
    · rw [hmarkRun] at hfree
      cases hfree
  · intro row' hrow'
    rw [hplan.1]
    obtain ⟨hrow, -⟩ | ⟨rfl, -⟩ := hout.marked.back h.plan.keys hrow'
    · exact h.revisions row' hrow
    · rw [hmarkRevision]
      exact h.revisions current hcurrent
  · intro delegation hdelegation
    rw [hout.delegations] at hdelegation
    rw [hplan.1]
    obtain rfl | hold := mem_cons.mp hdelegation
    · refine ⟨h.revisions current hcurrent, ?_⟩
      intro row' hrow' hstep _
      obtain ⟨-, hother⟩ | ⟨rfl, -⟩ := hout.marked.back h.plan.keys hrow'
      · exact absurd (hstep.trans hid) hother
      · rw [hmarkRun]
        exact some_ne_none _
    · refine ⟨(h.keys delegation hold).1, ?_⟩
      intro row' hrow' hstep hrevision
      obtain ⟨hrow, -⟩ | ⟨rfl, -⟩ := hout.marked.back h.plan.keys hrow'
      · exact (h.keys delegation hold).2 row' hrow hstep hrevision
      · rw [hmarkRun]
        exact some_ne_none _
  · intro handoff hhandoff
    rw [hout.handoffs] at hhandoff
    rw [hout.delegations]
    obtain rfl | hold := mem_cons.mp hhandoff
    · exact ⟨_, mem_cons_self, rfl, rfl⟩
    · obtain ⟨delegation, hdelegation, hkey⟩ := h.handoffs handoff hold
      exact ⟨delegation, mem_cons_of_mem _ hdelegation, hkey⟩
  · intro run hrun hlive
    rw [hout.runs] at hrun
    rw [hout.delegations]
    obtain rfl | hold := mem_cons.mp hrun
    · exact ⟨_, mem_cons_self, rfl, rfl⟩
    · obtain ⟨delegation, hdelegation, hnamed⟩ := h.working run hold hlive
      exact ⟨delegation, mem_cons_of_mem _ hdelegation, hnamed⟩
  · rw [hplan.2, hout.cancelRequested]
    exact h.goal

theorem recorded_handedOut (h : WorkOk work) (hrecorded : Recorded work)
    (hout : HandedOut input current work work') :
    Recorded work' := by
  have hid := clientId_of_findStep hout.marked.found
  intro run hrun hlive delegation hdelegation hnamed
  rw [hout.runs] at hrun
  rw [hout.delegations] at hdelegation
  obtain rfl | hold := mem_cons.mp hrun
  · have hnew : delegation.id = input.delegationId := (some.inj hnamed).symm
    obtain rfl | hdelegation := mem_cons.mp hdelegation
    · exact ⟨_, hout.marked.mark_mem, clientId_markDispatched _ _ _ _, hout.marked.mark.2.1⟩
    · exact absurd hnew (hout.freshDelegation delegation hdelegation)
  · obtain ⟨known, hknown, hknownId, -⟩ := h.working run hold hlive
    have hsame : known.id = delegation.id := some.inj (hknownId.symm.trans hnamed)
    obtain rfl | hdelegation := mem_cons.mp hdelegation
    · exact absurd hsame (hout.freshDelegation known hknown)
    · obtain ⟨row, hrow, hstep, hmark⟩ := hrecorded run hold hlive delegation hdelegation hnamed
      refine ⟨row, hout.marked.forth hrow ?_, hstep, hmark⟩
      -- the step that is handed out records nothing
      intro hseen
      have hcurrent : row = current :=
        some.inj (((findStep_eq_some h.plan.keys).mpr ⟨hrow, hseen⟩).symm.trans hout.marked.found)
      rw [hcurrent, h.marks current (mem_of_findStep hout.marked.found) hout.marked.free] at hmark
      cases hmark

/-! ### Rework -/

/-- A rejection that is not refused: the run that the delegation had is over, and it has another
one. -/
structure Reworked (id runId : Text) (row : StepDelegation) (old : WorkRun) (work work' : Work) :
  Prop where
  mem : row ∈ work.delegations
  named : row.id = id
  completed : row.status = .completed
  oldMem : old ∈ work.runs
  oldNamed : row.runId = some old.id
  past : old.status.isTerminal
  freshRun : ∀ run ∈ work.runs, run.id ≠ runId
  plan : work'.plan = work.plan
  cancelRequested : work'.cancelRequested = work.cancelRequested
  handoffs : work'.handoffs = work.handoffs
  runs : work'.runs = { id := runId, status := .queued, delegationId := some id } ::
    work.runs.map fun run => if run.id = old.id then { run with delegationId := none } else run
  delegations : work'.delegations =
    updateDelegation work.delegations id fun row => { row with runId := some runId, status := .queued }

theorem reworked_of_reject (h : rejectDelegation affordable id runId work = some work') :
    ∃ row old, Reworked id runId row old work work' := by
  simp only [rejectDelegation, bind_eq_bind, bind_eq_some_iff, guard_eq_some', and_eq_true,
    decide_eq_true_eq] at h
  obtain ⟨row, hrow, -, ⟨⟨hcompleted, -⟩, -⟩, oldId, holdId, old, hold, -, hover, runs, hruns, hwork⟩ := h
  have hnamed : row.id = id := by simpa using find?_some hrow
  have holdNamed : old.id = oldId := by simpa using find?_some hold
  obtain ⟨hfresh, -, rfl⟩ := createRun_eq_some hruns
  cases hwork
  refine ⟨row, old, mem_of_find?_eq_some hrow, hnamed, hcompleted, mem_of_find?_eq_some hold,
    holdId.trans (congrArg some holdNamed.symm), hover, ?_, rfl, rfl, rfl, ?_, rfl⟩
  · intro run hrun
    have hreleased := hfresh _ (mem_map_of_mem hrun)
    split at hreleased
    · exact hreleased
    · exact hreleased
  · rw [hnamed]

theorem Reworked.live (h : Reworked id runId row old work work')
    (hruns : (work.runs.map WorkRun.id).Nodup) (hrun : run ∈ work'.runs) (hlive : run.IsLive) :
    run = { id := runId, status := .queued, delegationId := some id } ∨ run ∈ work.runs ∧ run.id ≠ old.id := by
  rw [h.runs] at hrun
  obtain hnew | hold := mem_cons.mp hrun
  · exact .inl hnew
  · obtain ⟨before, hbefore, rfl⟩ := mem_map.mp hold
    by_cases hsame : before.id = old.id
    · have heq : before = old := eq_of_mem hruns hbefore h.oldMem hsame
      rw [if_pos hsame, WorkRun.IsLive, heq, h.past] at hlive
      cases hlive
    · rw [if_neg hsame]
      exact .inr ⟨hbefore, hsame⟩

theorem Reworked.back (h : Reworked id runId row old work work') {delegation' : StepDelegation}
    (hmem : delegation' ∈ work'.delegations) :
    ∃ delegation ∈ work.delegations, delegation'.id = delegation.id ∧ delegation'.stepId = delegation.stepId ∧
      delegation'.revision = delegation.revision := by
  rw [h.delegations] at hmem
  obtain ⟨delegation, hdelegation, rfl⟩ := mem_map.mp hmem
  refine ⟨delegation, hdelegation, ?_⟩
  split <;> exact ⟨rfl, rfl, rfl⟩

theorem workOk_reworked (h : WorkOk work) (hreworked : Reworked id runId row old work work') :
    WorkOk work' := by
  refine ⟨?_, ?_, ?_, ?_, ?_, ?_, ?_, ?_, ?_⟩
  · rw [hreworked.plan]
    exact h.plan
  · have hsame : (WorkRun.id ∘ fun run : WorkRun => if run.id = old.id then
        { run with delegationId := none } else run) =
        WorkRun.id := by
      funext run
      show (ite _ _ _ : WorkRun).id = _
      split <;> rfl
    rw [hreworked.runs, map_cons, map_map, hsame, nodup_cons]
    refine ⟨?_, h.runs⟩
    intro hmem
    obtain ⟨run, hrun, hid⟩ := mem_map.mp hmem
    exact hreworked.freshRun run hrun hid
  · rw [hreworked.delegations, updateDelegation, map_map]
    convert h.delegations using 2
    funext delegation
    show (ite _ _ _ : StepDelegation).id = _
    split <;> rfl
  · rw [hreworked.plan]
    exact h.marks
  · rw [hreworked.plan]
    exact h.revisions
  · intro delegation' hdelegation'
    obtain ⟨delegation, hdelegation, -, hstep, hrevision⟩ := hreworked.back hdelegation'
    rw [hreworked.plan, hstep, hrevision]
    exact h.keys delegation hdelegation
  · intro handoff hhandoff
    rw [hreworked.handoffs] at hhandoff
    obtain ⟨delegation, hdelegation, hstep, hrevision⟩ := h.handoffs handoff hhandoff
    rw [hreworked.delegations]
    refine ⟨_, mem_map_of_mem hdelegation, ?_, ?_⟩
    · split <;> exact hstep
    · split <;> exact hrevision
  · intro run hrun hlive
    rw [hreworked.delegations]
    obtain rfl | ⟨hold, hother⟩ := hreworked.live h.runs hrun hlive
    · refine ⟨_, mem_map_of_mem hreworked.mem, ?_⟩
      rw [if_pos hreworked.named]
      exact ⟨congrArg some hreworked.named.symm, rfl⟩
    · obtain ⟨delegation, hdelegation, hid, hnamed⟩ := h.working run hold hlive
      refine ⟨_, mem_map_of_mem hdelegation, ?_⟩
      have hdifferent : delegation.id ≠ id := by
        intro hsame
        have heq : delegation = row :=
          eq_of_mem h.delegations hdelegation hreworked.mem (hsame.trans hreworked.named.symm)
        rw [heq, hreworked.oldNamed] at hnamed
        exact hother (some.inj hnamed).symm
      rw [if_neg hdifferent]
      exact ⟨hid, hnamed⟩
  · rw [hreworked.plan, hreworked.cancelRequested]
    exact h.goal

/-- The guards of rejecting a delegation. -/
def Work.mayReject (work : Work) (affordable : Bool) (id : Text) : Bool :=
  (findDelegation work.delegations id).any fun row =>
    row.status = .completed && !(row.onGoalRoot && work.cancelRequested) && affordable &&
      row.runId.any fun runId => (findRun work.runs runId).any fun run => run.status.isTerminal

theorem mayReject_of_reject (h : rejectDelegation affordable id runId work = some work') :
    work.mayReject affordable id := by
  simp only [rejectDelegation, bind_eq_bind, bind_eq_some_iff, guard_eq_some'] at h
  obtain ⟨row, hrow, -, hguard, oldId, holdId, old, hold, -, hover, -⟩ := h
  rw [Work.mayReject, hrow, any_some, hguard, holdId, any_some, hold, any_some, hover]
  rfl

/-- What rejecting has to see: that the step of the delegation still records it. -/
def Work.IsCurrent (work : Work) (id : Text) : Prop :=
  ∀ delegation ∈ work.delegations, delegation.id = id →
    ∃ row ∈ work.plan.steps, row.clientId = delegation.stepId ∧ row.dispatchDelegationId = some delegation.id

theorem recorded_reworked (h : WorkOk work) (hrecorded : Recorded work)
    (hreworked : Reworked id runId row old work work') (hcurrent : work.IsCurrent id) : Recorded work' := by
  intro run hrun hlive delegation' hdelegation' hnamed
  obtain ⟨delegation, hdelegation, hid, hstep, -⟩ := hreworked.back hdelegation'
  rw [hreworked.plan, hstep, hid]
  rw [hid] at hnamed
  obtain rfl | ⟨hold, -⟩ := hreworked.live h.runs hrun hlive
  · exact hcurrent delegation hdelegation (some.inj hnamed).symm
  · exact hrecorded run hold hlive delegation hdelegation hnamed

/-! ### Runs of changes -/

/-- The change does not give a step's work to another run while it has one. -/
def WorkOp.Careful (work : Work) : WorkOp → Prop
  | settle .reopen _ stepId baseRevision => work.mayReopen stepId baseRevision → work.IsOver stepId
  | rejectDelegation affordable id _ => work.mayReject affordable id → work.IsCurrent id
  | _ => True

instance WorkOp.Careful.decidable (work : Work) (op : WorkOp) : Decidable (op.Careful work) := by
  unfold WorkOp.Careful Work.IsOver Work.IsCurrent WorkRun.IsLive
  split <;> infer_instance

def WorkOp.CarefulRun (work : Work) (ops : List WorkOp) : Prop :=
  Run.Meets WorkOp.apply (fun work op => op.Careful work) work ops

theorem workOk_apply (h : WorkOk work) (op : WorkOp) : WorkOk (op.apply work) := by
  cases op with
  | update | outcome | settle => exact workOk_edit h trivial
  | dispatch input =>
    show WorkOk ((dispatchReadyGoalPlanStep input work).getD work)
    cases hdispatch : dispatchReadyGoalPlanStep input work with
    | none => exact h
    | some work' =>
      obtain ⟨current, hout⟩ := handedOut_of_dispatch h hdispatch
      exact workOk_handedOut h hout
  | startDelegation id => exact workOk_delegations h (sameTask_startDelegation.updateDelegation id)
  | finishDelegation id value expectedRunId =>
    exact workOk_delegations h ((sameTask_finishDelegation value expectedRunId).updateDelegation id)
  | acceptDelegation id => exact workOk_delegations h (sameTask_acceptDelegation.updateDelegation id)
  | rejectDelegation affordable id runId =>
    show WorkOk ((Goals.rejectDelegation affordable id runId work).getD work)
    cases hreject : Goals.rejectDelegation affordable id runId work with
    | none => exact h
    | some work' =>
      obtain ⟨row, old, hreworked⟩ := reworked_of_reject hreject
      exact workOk_reworked h hreworked
  | moveRun id status => exact workOk_runs h (onward_moveRun id status)
  | goal move => exact workOk_goal h move

theorem recorded_apply (h : WorkOk work) (hrecorded : Recorded work) {op : WorkOp}
    (hcareful : op.Careful work) :
    Recorded (op.apply work) := by
  cases op with
  | update | outcome => exact recorded_edit h hrecorded trivial fun id hreopens => hreopens.elim
  | settle action list stepId baseRevision =>
    cases action with
    | cancel => exact recorded_edit h hrecorded trivial fun id hreopens => hreopens.elim
    | reopen =>
      cases hsettled : settleGoalPlanStep .reopen (inFlight work.runs) list stepId baseRevision work.plan with
      | ok plan' =>
        refine recorded_edit h hrecorded trivial fun id hreopens => ?_
        exact hreopens ▸ hcareful (mayReopen_of_settle hsettled)
      | error fault =>
        have hsame : (WorkOp.settle .reopen list stepId baseRevision).apply work = work := by
          show { work with plan := PlanOp.apply work.plan _ } = work
          rw [PlanOp.apply, PlanOp.result, hsettled]
        rw [hsame]
        exact hrecorded
  | dispatch input =>
    show Recorded ((dispatchReadyGoalPlanStep input work).getD work)
    cases hdispatch : dispatchReadyGoalPlanStep input work with
    | none => exact hrecorded
    | some work' =>
      obtain ⟨current, hout⟩ := handedOut_of_dispatch h hdispatch
      exact recorded_handedOut h hrecorded hout
  | startDelegation id => exact recorded_delegations hrecorded (sameTask_startDelegation.updateDelegation id)
  | finishDelegation id value expectedRunId =>
    exact recorded_delegations hrecorded ((sameTask_finishDelegation value expectedRunId).updateDelegation id)
  | acceptDelegation id =>
    exact recorded_delegations hrecorded (sameTask_acceptDelegation.updateDelegation id)
  | rejectDelegation affordable id runId =>
    show Recorded ((Goals.rejectDelegation affordable id runId work).getD work)
    cases hreject : Goals.rejectDelegation affordable id runId work with
    | none => exact hrecorded
    | some work' =>
      obtain ⟨row, old, hreworked⟩ := reworked_of_reject hreject
      exact recorded_reworked h hrecorded hreworked (hcareful (mayReject_of_reject hreject))
  | moveRun id status => exact recorded_runs hrecorded (onward_moveRun id status)
  | goal move => exact recorded_goal hrecorded move

def started (userId : Text) : Work :=
  { plan := unplanned userId, cancelRequested := false, delegations := [], runs := [], handoffs := [] }

theorem workOk_started (userId : Text) : WorkOk (started userId) where
  plan := planOk_nil
  runs := nodup_nil
  delegations := nodup_nil
  marks _ hrow := absurd hrow not_mem_nil
  revisions _ hrow := absurd hrow not_mem_nil
  keys _ hrow := absurd hrow not_mem_nil
  handoffs _ hrow := absurd hrow not_mem_nil
  working _ hrow := absurd hrow not_mem_nil
  goal := .inl rfl

theorem workOk_after (h : WorkOk work) (ops : List WorkOp) : WorkOk (WorkOp.after work ops) := by
  have hkept : ∀ work op, WorkOk work → WorkOk (WorkOp.apply work op) :=
    fun _ op hwork => workOk_apply hwork op
  exact Run.inv_after hkept h ops

theorem recorded_after (h : WorkOk work) (hrecorded : Recorded work) {ops : List WorkOp}
    (hcareful : WorkOp.CarefulRun work ops) :
    Recorded (WorkOp.after work ops) := by
  have hkept : ∀ work (op : WorkOp), WorkOk work ∧ Recorded work → op.Careful work →
      WorkOk (op.apply work) ∧ Recorded (op.apply work) :=
    fun _ op hwork hop => ⟨workOk_apply hwork.1 op, recorded_apply hwork.1 hwork.2 hop⟩
  exact (Run.inv_of_meets hkept ⟨h, hrecorded⟩ hcareful).2

/-- **One worker at a time, and only for work that is ready.** -/
theorem one_worker (userId : Text) (ops : List WorkOp) :
    let work := WorkOp.after (started userId) ops
    (WorkOp.CarefulRun (started userId) ops → ∀ stepId run run', work.WorksOn run stepId → work.WorksOn run' stepId →
        run = run') ∧
      ∀ input work', dispatchReadyGoalPlanStep input work = some work' →
        (input.onGoalRoot = true → work.plan.status = .running) ∧
        ∃ current, findStep work.plan.steps input.seen.clientId = some current ∧
          current.status = .pending ∧ current.dispatchRunId = none ∧
          (∀ id ∈ current.prerequisiteIds, statusOf work.plan.steps id = some .done) ∧
          current.revision = input.seen.revision ∧ current.ownerId = input.seen.ownerId := by
  intro work
  have hok := workOk_after (workOk_started userId) ops
  refine ⟨fun hcareful stepId run run' hrun hrun' => ?_, fun input work' hdispatch => ?_⟩
  · have hrecorded : Recorded (started userId) := fun run hrun => absurd hrun not_mem_nil
    exact eq_of_worksOn hok (recorded_after (workOk_started userId) hrecorded hcareful) hrun hrun'
  · obtain ⟨current, hout⟩ := handedOut_of_dispatch hok hdispatch
    exact ⟨hout.running, current, hout.marked.found, hout.marked.pending, hout.marked.free, hout.marked.ready,
      hout.marked.revision, hout.marked.owner⟩

def buildStep : StepInput where
  id := lit "build"
  title := lit "Build"
  ownerId := lit "worker"
  ownerIsUser := false
  condition := lit "It builds"
  prerequisiteIds := []

def buildDispatch (revision : ℕ) (onGoalRoot : Bool) (runId delegationId : Text) : DispatchInput where
  seen := writeStep revision 0 none buildStep
  members := [lit "worker"]
  sourceRunning := true
  onGoalRoot
  affordable := true
  runId
  delegationId
  dispatchedAt := 0

def buildPlan : WorkOp := .update [lit "worker"] none storedOrder 1 [buildStep]

/-- The step is handed out, and its first run has ended. -/
def builtOps : List WorkOp :=
  [buildPlan, .dispatch (buildDispatch 2 true (lit "r1") (lit "d1")), .moveRun (lit "r1") .completed,
    .finishDelegation (lit "d1") .completed none]

/-- The step is reopened when its rework has ended, and is not while it is worked on again. -/
def reworkedOps : List WorkOp :=
  builtOps ++ [.rejectDelegation true (lit "d1") (lit "r2"), .moveRun (lit "r2") .completed,
    .settle .reopen storedOrder (lit "build") 2, .dispatch (buildDispatch 3 true (lit "r3") (lit "d2")),
    .settle .reopen storedOrder (lit "build") 3]

theorem one_worker_reworked :
    let work := WorkOp.after (started (lit "u")) reworkedOps
    let worker : WorkRun := { id := lit "r3", status := .queued, delegationId := some (lit "d2") }
    (work.WorksOn worker (lit "build") ∧ ∀ run, work.WorksOn run (lit "build") → run = worker) ∧
      (WorkOp.after (started (lit "u")) [buildPlan]).plan.status = .running := by
  intro work worker
  have hworker : work.WorksOn worker (lit "build") :=
    ⟨by decide +kernel, rfl, ⟨lit "d2", lit "build", 3, true, .queued, some (lit "r3")⟩, by decide +kernel, rfl, rfl⟩
  have hcareful : WorkOp.CarefulRun (started (lit "u")) reworkedOps := by
    unfold WorkOp.CarefulRun
    decide +kernel
  obtain ⟨hone, -⟩ := one_worker (lit "u") reworkedOps
  obtain ⟨-, hready⟩ := one_worker (lit "u") [buildPlan]
  refine ⟨⟨hworker, fun run hrun => hone hcareful _ run worker hrun hworker⟩, ?_⟩
  obtain ⟨work', hdispatch⟩ := Option.isSome_iff_exists.mp (show (dispatchReadyGoalPlanStep
    (buildDispatch 2 true (lit "r1") (lit "d1"))
      (WorkOp.after (started (lit "u")) [buildPlan])).isSome = true by decide +kernel)
  exact (hready _ work' hdispatch).1 rfl

/-- The delegation is rejected, and then its step reopened and handed out, while the rework goes
on. -/
def reworkOps : List WorkOp :=
  builtOps ++ [.rejectDelegation true (lit "d1") (lit "r2"), .settle .reopen storedOrder (lit "build") 2,
    .dispatch (buildDispatch 3 true (lit "r3") (lit "d2"))]

/-- Two runs work on the step; and a run under another root hands it out after the goal was
submitted. -/
theorem two_workers :
    (let work := WorkOp.after (started (lit "u")) reworkOps
      ∃ run run', work.WorksOn run (lit "build") ∧ work.WorksOn run' (lit "build") ∧ run ≠ run') ∧
    let work := WorkOp.after (started (lit "u")) [buildPlan, .goal .submit]
    (dispatchReadyGoalPlanStep (buildDispatch 2 false (lit "r1") (lit "d1")) work).isSome ∧
      work.plan.status ≠ .running := by
  refine ⟨⟨{ id := lit "r2", status := .queued, delegationId := some (lit "d1") },
    { id := lit "r3", status := .queued, delegationId := some (lit "d2") }, ⟨?_, rfl, ?_⟩,
      ⟨?_, rfl, ?_⟩, ?_⟩, by decide +kernel⟩
  · decide +kernel
  · exact ⟨⟨lit "d1", lit "build", 2, true, .queued, some (lit "r2")⟩, by decide +kernel, rfl, rfl⟩
  · decide +kernel
  · exact ⟨⟨lit "d2", lit "build", 3, true, .queued, some (lit "r3")⟩, by decide +kernel, rfl, rfl⟩
  · decide

end ArdurBot.Goals
