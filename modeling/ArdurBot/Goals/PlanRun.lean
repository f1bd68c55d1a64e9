import ArdurBot.Goals.PlanGraph

/-!
# What holds of a plan after any changes

A plan has one row for each step, its prerequisites are steps of the plan and form no cycle, and the
derived statuses are settled. Every change keeps that (`PlanOk`), so that the next one finds a graph
on which the derivation of the statuses ends.
-/

namespace ArdurBot.Goals

open Utf16 Relation Option Bool Prod

/-- What the changes of a plan rely on and keep. -/
structure PlanOk (rows : List PlanStep) : Prop where
  keys : (rows.map PlanStep.clientId).Nodup
  known : ∀ row ∈ rows, ∀ id ∈ row.prerequisiteIds, id ∈ rows.map PlanStep.clientId
  sorted : ∃ order : List Text, order.Perm (rows.map PlanStep.clientId) ∧
    Dag.Sorted (prerequisitesOf rows) order
  settled : Settled rows

/-- The change ends, and if it is not refused then `Q` holds of what it gives. -/
def Ends {α : Type} (Q : α → Prop) : PlanResult α → Prop
  | .ok a => Q a
  | .error fault => fault ≠ .diverges

theorem Ends.bind {α β : Type} {R : α → Prop} {Q : β → Prop} {x : PlanResult α}
    {f : α → PlanResult β} (hx : Ends R x) (hf : ∀ a, R a → Ends Q (f a)) : Ends Q (x >>= f) := by
  cases x with
  | ok a => exact hf a hx
  | error fault => exact hx

theorem Ends.imp {α : Type} {R Q : α → Prop} {x : PlanResult α} (hx : Ends R x)
    (h : ∀ a, R a → Q a) : Ends Q x := by
  cases x with
  | ok a => exact h a hx
  | error fault => exact hx

theorem ends_refuseUnless (condition : Bool) (reason : GoalPlanConflict) :
    Ends (fun _ => condition) (refuseUnless condition reason) := by
  cases condition
  · exact fun h => by cases h
  · exact rfl

theorem ends_forM {α : Type} {l : List α} {f : α → PlanResult Unit} {P : α → Prop}
    (h : ∀ a ∈ l, Ends (fun _ => P a) (f a)) : Ends (fun _ => ∀ a ∈ l, P a) (l.forM f) := by
  induction l with
  | nil => exact fun a ha => absurd ha List.not_mem_nil
  | cons a l ih =>
    rw [List.forall_mem_cons] at h
    rw [List.forM_eq_forM] at ih ⊢
    rw [List.forM_cons]
    refine h.1.bind fun _ ha => ?_
    refine (ih h.2).imp fun _ hl => ?_
    exact List.forall_mem_cons.mpr ⟨ha, hl⟩

/-! ### Graphs of rows -/

def graphOf (rows : List PlanStep) : List (Text × List Text) :=
  rows.map fun row => (row.clientId, row.prerequisiteIds)

theorem prerequisitesOf_eq (rows : List PlanStep) (id : Text) :
    prerequisitesOf rows id = (((graphOf rows).find? fun entry => entry.1 = id).map snd).getD [] := by
  rw [graphOf, List.find?_map, Option.map_map, prerequisitesOf, findStep]
  rfl

variable {existing rows rows' : List PlanStep} {revision : ℕ} {steps : List StepInput}
  {plan plan' : Plan} {seen : PlanStep} {delegationId runId : Text} {at_ : ℤ}

theorem mem_of_mem_prerequisitesOf {id prerequisite : Text} (h : prerequisite ∈ prerequisitesOf rows id) :
    ∃ row ∈ rows, row.clientId = id ∧ prerequisite ∈ row.prerequisiteIds := by
  rw [prerequisitesOf] at h
  cases hrow : findStep rows id with
  | none => simp [hrow] at h
  | some row =>
    rw [hrow] at h
    exact ⟨row, mem_of_findStep hrow, clientId_of_findStep hrow, h⟩

section

variable (hkeys : (rows.map PlanStep.clientId).Nodup)
  (hknown : ∀ row ∈ rows, ∀ id ∈ row.prerequisiteIds, id ∈ rows.map PlanStep.clientId)
include hkeys hknown

theorem sorted_of_accepted (h : graphHasCycle (graphOf rows) = false) :
    ∃ order : List Text, order.Perm (rows.map PlanStep.clientId) ∧ Dag.Sorted (prerequisitesOf rows) order := by
  have hids : (graphOf rows).map fst = rows.map PlanStep.clientId := by
    rw [graphOf, List.map_map]
    rfl
  have hnext : (fun id => ((((graphOf rows).find? fun entry => entry.1 = id).map snd).getD []).filter
      fun b => decide (b ∈ rows.map PlanStep.clientId)) = prerequisitesOf rows := by
    funext id
    rw [← prerequisitesOf_eq, List.filter_eq_self]
    intro b hb
    obtain ⟨row, hrow, -, hmem⟩ := mem_of_mem_prerequisitesOf hb
    exact decide_eq_true (hknown row hrow b hmem)
  rw [graphHasCycle, hids] at h
  obtain ⟨order, hperm, hsorted⟩ := Dag.sorted_of_not_hasCycle hkeys h
  refine ⟨order, hperm, ?_⟩
  rw [← hnext]
  convert hsorted

theorem recompute_ok (hsorted : ∃ order : List Text, order.Perm (rows.map PlanStep.clientId) ∧
      Dag.Sorted (prerequisitesOf rows) order) (list : RowOrder) (revision : ℕ) :
    ∃ rows', recomputePlanStepStatuses list revision rows = .ok rows' ∧ Reshape rows rows' ∧ PlanOk rows' := by
  obtain ⟨order, hperm, hsorted⟩ := hsorted
  obtain ⟨rows', hresult, hreshape, hsettled⟩ := recompute_spec hkeys hknown hperm hsorted list revision
  refine ⟨rows', hresult, hreshape, hreshape.nodup hkeys, ?_,
    ⟨order, hperm.trans hreshape.clientId, ?_⟩, hsettled⟩
  · intro row hrow id hid
    have hfind := (findStep_eq_some (hreshape.nodup hkeys)).mpr ⟨hrow, rfl⟩
    obtain ⟨before, hbefore, herase⟩ := hreshape.symm.find (hreshape.nodup hkeys) hfind
    have hids : row.prerequisiteIds = before.prerequisiteIds := by
      show (erase row).prerequisiteIds = (erase before).prerequisiteIds
      rw [herase]
    exact hreshape.clientId.mem_iff.mp (hknown before (mem_of_findStep hbefore) id (hids ▸ hid))
  · rwa [← hreshape.prerequisitesOf_eq hkeys]

end

theorem graph_map (h : PlanOk rows) {f : PlanStep → PlanStep} (hid : ∀ row, (f row).clientId = row.clientId)
    (hrequires : ∀ row, (f row).prerequisiteIds = row.prerequisiteIds) :
    ((rows.map f).map PlanStep.clientId).Nodup ∧
      (∀ row ∈ rows.map f, ∀ id ∈ row.prerequisiteIds, id ∈ (rows.map f).map PlanStep.clientId) ∧
      ∃ order : List Text, order.Perm ((rows.map f).map PlanStep.clientId) ∧
        Dag.Sorted (prerequisitesOf (rows.map f)) order := by
  rw [map_clientId_map hid]
  refine ⟨h.keys, ?_, ?_⟩
  · intro row hrow id hmem
    obtain ⟨before, hbefore, rfl⟩ := List.mem_map.mp hrow
    rw [hrequires] at hmem
    exact h.known before hbefore id hmem
  · have hsame : prerequisitesOf (rows.map f) = prerequisitesOf rows := by
      funext id
      rw [prerequisitesOf, prerequisitesOf, findStep_map hid, Option.map_map]
      congr 2
      funext row
      exact hrequires row
    rw [hsame]
    exact h.sorted

/-! ### Revisions -/

/-- Each row is an earlier one, whose revision is the new one if it has changed. -/
def Stamped (revision : ℕ) (rows rows' : List PlanStep) : Prop :=
  ∀ row' ∈ rows', ∃ row ∈ rows, erase row = erase row' ∧
    (row'.revision = row.revision ∨ row'.revision = revision)

theorem Stamped.refl (revision : ℕ) (rows : List PlanStep) : Stamped revision rows rows :=
  fun row hrow => ⟨row, hrow, rfl, .inl rfl⟩

theorem Stamped.trans {a b c : List PlanStep} (hab : Stamped revision a b) (hbc : Stamped revision b c) :
    Stamped revision a c := by
  intro row hrow
  obtain ⟨middle, hmiddle, herase, hrevision⟩ := hbc row hrow
  obtain ⟨first, hfirst, herase', hrevision'⟩ := hab middle hmiddle
  refine ⟨first, hfirst, herase'.trans herase, ?_⟩
  obtain hsame | hnew := hrevision
  · rw [hsame]
    exact hrevision'
  · exact .inr hnew

theorem stamped_relax (revision : ℕ) (id : Text) (rows : List PlanStep) :
    Stamped revision rows (relax revision id rows) := by
  intro row' hrow'
  have herase := map_erase_relax revision id rows
  rw [relax] at hrow'
  obtain ⟨row, hrow, rfl⟩ := List.mem_map.mp hrow'
  refine ⟨row, hrow, ?_, ?_⟩
  · rw [relax, List.map_map] at herase
    have hrows := List.map_inj_left.mp herase row hrow
    exact hrows.symm
  · split
    · dsimp only
      split
      · exact .inl rfl
      · exact .inr rfl
    · exact .inl rfl

theorem stamped_sweep (revision : ℕ) (rows : List PlanStep) :
    Stamped revision rows (sweep revision rows) := by
  have hfold : ∀ (ids : List Text) (s : List PlanStep), Stamped revision rows s →
      Stamped revision rows (Dag.sweep (relax revision) ids s) := by
    intro ids
    induction ids with
    | nil => exact fun s hs => hs
    | cons id ids ih => exact fun s hs => ih _ (hs.trans (stamped_relax revision id s))
  exact hfold _ rows (Stamped.refl revision rows)

theorem stamped_settle {n : ℕ} (h : settle revision n rows = .ok rows') : Stamped revision rows rows' := by
  induction n generalizing rows with
  | zero => cases h
  | succ n ih =>
    rw [settle] at h
    split at h
    · cases h
      exact Stamped.refl revision _
    · exact (stamped_sweep revision _).trans (ih h)

theorem stamped_recompute {order : RowOrder} (h : recomputePlanStepStatuses order revision rows = .ok rows') :
    Stamped revision rows rows' := by
  intro row' hrow'
  obtain ⟨row, hrow, hsame⟩ := stamped_settle h row' hrow'
  exact ⟨row, (order.property rows).mem_iff.mp hrow, hsame⟩

/-! ### An update -/

theorem mem_writeSteps {row : PlanStep} : row ∈ writeSteps revision existing steps ↔
      (∃ index step, steps[index]? = some step ∧ row = writeStep revision index (findStep existing step.id) step) ∨
      ∃ before ∈ existing, before.clientId ∉ steps.map StepInput.id ∧ row = leaveStep revision before := by
  rw [writeSteps, List.mem_append, List.mem_mapIdx, List.mem_map]
  constructor
  · rintro (⟨index, hlt, rfl⟩ | ⟨before, hbefore, rfl⟩)
    · exact .inl ⟨index, steps[index], List.getElem?_eq_getElem hlt, rfl⟩
    · rw [List.mem_filter, decide_eq_true_eq] at hbefore
      exact .inr ⟨before, hbefore.1, hbefore.2, rfl⟩
  · rintro (⟨index, step, hstep, rfl⟩ | ⟨before, hbefore, hleft, rfl⟩)
    · obtain ⟨hlt, rfl⟩ := List.getElem?_eq_some_iff.mp hstep
      exact .inl ⟨index, hlt, rfl⟩
    · exact .inr ⟨before, List.mem_filter.mpr ⟨hbefore, decide_eq_true hleft⟩, rfl⟩

theorem clientId_leaveStep (revision : ℕ) (row : PlanStep) :
    (leaveStep revision row).clientId = row.clientId := by
  rw [leaveStep]
  split <;> rfl

theorem prerequisiteIds_leaveStep (revision : ℕ) (row : PlanStep) :
    (leaveStep revision row).prerequisiteIds = row.prerequisiteIds := by
  rw [leaveStep]
  split <;> rfl

section

variable (revision : ℕ) (existing : List PlanStep) (steps : List StepInput)

theorem graphOf_writeSteps : graphOf (writeSteps revision existing steps) = mergedGraph steps existing := by
  rw [graphOf, writeSteps, mergedGraph, List.map_append, List.map_map]
  congr 1
  · apply List.ext_getElem?
    intro index
    rw [List.getElem?_map, List.getElem?_mapIdx, List.getElem?_map, Option.map_map]
    rfl
  · apply List.map_congr_left
    intro row _
    show ((leaveStep revision row).clientId, (leaveStep revision row).prerequisiteIds) = _
    rw [clientId_leaveStep, prerequisiteIds_leaveStep]

theorem clientId_writeSteps :
    (writeSteps revision existing steps).map PlanStep.clientId =
      steps.map StepInput.id ++
        (existing.filter fun row => row.clientId ∉ steps.map StepInput.id).map PlanStep.clientId := by
  have hgraph := congrArg (List.map fst) (graphOf_writeSteps revision existing steps)
  rw [graphOf, mergedGraph, List.map_append, List.map_map, List.map_map, List.map_map] at hgraph
  exact hgraph

end

theorem nodup_writeSteps {revision : ℕ} {existing : List PlanStep} {steps : List StepInput}
    (hkeys : (existing.map PlanStep.clientId).Nodup) (hsteps : (steps.map StepInput.id).Nodup) :
    ((writeSteps revision existing steps).map PlanStep.clientId).Nodup := by
  rw [clientId_writeSteps, List.nodup_append]
  refine ⟨hsteps, hkeys.sublist (List.filter_sublist.map _), ?_⟩
  rintro id hid id' hid' rfl
  obtain ⟨row, hrow, rfl⟩ := List.mem_map.mp hid'
  rw [List.mem_filter, decide_eq_true_eq] at hrow
  exact hrow.2 hid

theorem mem_clientId_writeSteps {id : Text} :
    id ∈ (writeSteps revision existing steps).map PlanStep.clientId ↔
      id ∈ steps.map StepInput.id ∨ id ∈ existing.map PlanStep.clientId := by
  rw [clientId_writeSteps, List.mem_append]
  constructor
  · rintro (hid | hid)
    · exact .inl hid
    · obtain ⟨row, hrow, rfl⟩ := List.mem_map.mp hid
      exact .inr (List.mem_map.mpr ⟨row, (List.mem_filter.mp hrow).1, rfl⟩)
  · rintro (hid | hid)
    · exact .inl hid
    · by_cases hlisted : id ∈ steps.map StepInput.id
      · exact .inl hlisted
      · obtain ⟨row, hrow, rfl⟩ := List.mem_map.mp hid
        exact .inr (List.mem_map.mpr ⟨row, List.mem_filter.mpr ⟨hrow, decide_eq_true hlisted⟩, rfl⟩)

theorem known_writeSteps {revision : ℕ} {existing : List PlanStep} {steps : List StepInput}
    (hexisting : ∀ row ∈ existing, ∀ id ∈ row.prerequisiteIds, id ∈ existing.map PlanStep.clientId)
    (hsteps : ∀ step ∈ steps, ∀ id ∈ step.prerequisiteIds,
      id ∈ steps.map StepInput.id ++ existing.map PlanStep.clientId) :
    ∀ row ∈ writeSteps revision existing steps, ∀ id ∈ row.prerequisiteIds,
      id ∈ (writeSteps revision existing steps).map PlanStep.clientId := by
  intro row hrow id hid
  rw [mem_clientId_writeSteps]
  obtain ⟨index, step, hstep, rfl⟩ | ⟨before, hbefore, -, rfl⟩ := mem_writeSteps.mp hrow
  · exact List.mem_append.mp (hsteps step (List.mem_of_getElem? hstep) id hid)
  · rw [prerequisiteIds_leaveStep] at hid
    exact .inr (hexisting before hbefore id hid)

/-- What an update has checked, and what it has written. -/
structure Updated (secrets : Option (List Text)) (baseRevision : ℕ) (steps : List StepInput)
  (plan plan' : Plan) :
    Prop where
  base : plan.planRevision = baseRevision
  running : plan.status = .running
  distinct : (steps.map StepInput.id).Nodup
  settled : ∀ step ∈ steps, ∀ prior, findStep plan.steps step.id = some prior → prior.status = .done →
    sameDefinition secrets prior step
  written : Reshape (writeSteps (plan.planRevision + 1) plan.steps steps) plan'.steps
  stamped : Stamped (plan.planRevision + 1) (writeSteps (plan.planRevision + 1) plan.steps steps) plan'.steps
  revision : plan'.planRevision = plan.planRevision + 1
  status : plan'.status = plan.status

theorem ends_validatePlanShape (steps : List StepInput) (existing : List PlanStep) :
    Ends (fun _ => (steps.map StepInput.id).Nodup ∧
      (∀ step ∈ steps, ∀ id ∈ step.prerequisiteIds,
        id ∈ steps.map StepInput.id ++ existing.map PlanStep.clientId) ∧
      graphHasCycle (mergedGraph steps existing) = false) (validatePlanShape steps existing) := by
  refine (ends_refuseUnless _ _).bind fun _ hdistinct => ?_
  refine (ends_refuseUnless _ _).bind fun _ hknown => ?_
  refine (ends_refuseUnless _ _).imp fun _ hacyclic => ?_
  simp only [decide_eq_true_eq, List.all_eq_true, List.contains_iff_mem, not_eq_true'] at hdistinct hknown hacyclic
  exact ⟨hdistinct, hknown, hacyclic⟩

theorem commitPlanUpdate_spec (h : PlanOk plan.steps) (members : List Text)
    (secrets : Option (List Text)) (list : RowOrder) (baseRevision : ℕ) (steps : List StepInput) :
    Ends (fun plan' => PlanOk plan'.steps ∧ Updated secrets baseRevision steps plan plan')
      (commitPlanUpdate members secrets list baseRevision steps plan) := by
  refine (ends_refuseUnless _ _).bind fun _ hrunning => ?_
  refine (ends_refuseUnless _ _).bind fun _ hbase => ?_
  refine (ends_forM fun _ _ => ends_refuseUnless _ _).bind fun _ _ => ?_
  refine (ends_validatePlanShape _ _).bind fun _ hshape => ?_
  refine (ends_forM fun _ _ => ends_refuseUnless _ _).bind fun _ hsettled => ?_
  rw [decide_eq_true_eq] at hrunning hbase
  obtain ⟨hdistinct, hknownSteps, hacyclic⟩ := hshape
  have hkeys := @nodup_writeSteps (plan.planRevision + 1) _ _ h.keys hdistinct
  have hknown := @known_writeSteps (plan.planRevision + 1) _ _ h.known hknownSteps
  rw [← graphOf_writeSteps (plan.planRevision + 1)] at hacyclic
  obtain ⟨rows, hrows, hreshape, hok⟩ :=
    recompute_ok hkeys hknown (sorted_of_accepted hkeys hknown hacyclic) list
    (plan.planRevision + 1)
  dsimp only
  rw [hrows]
  refine ⟨hok, hbase, hrunning, hdistinct, ?_, hreshape, stamped_recompute hrows, rfl, rfl⟩
  intro step hstep prior hprior hdone
  have hsame := hsettled step hstep
  simpa [hprior, hdone] using hsame

/-! ### Single steps -/

theorem claimPlanStep_spec (plan : Plan) (stepId : Text) (baseRevision : ℕ) :
    Ends (fun step => plan.status = .running ∧ plan.planRevision = baseRevision ∧
      findStep plan.steps stepId = some step) (claimPlanStep plan stepId baseRevision) := by
  refine (ends_refuseUnless _ _).bind fun _ hrunning => ?_
  refine (ends_refuseUnless _ _).bind fun _ hbase => ?_
  rw [decide_eq_true_eq] at hrunning hbase
  cases hstep : findStep plan.steps stepId with
  | some step => exact ⟨hrunning, hbase, rfl⟩
  | none => exact fun h => by cases h

/-- One step has been rewritten, and the statuses derived again. -/
structure Rewritten (stepId : Text) (baseRevision : ℕ) (update : PlanStep →
  PlanStep) (plan plan' : Plan) : Prop where
  base : plan.planRevision = baseRevision
  running : plan.status = .running
  written : Reshape (updateStep plan.steps stepId update) plan'.steps
  stamped : Stamped (plan.planRevision + 1) (updateStep plan.steps stepId update) plan'.steps
  revision : plan'.planRevision = plan.planRevision + 1
  status : plan'.status = plan.status

theorem clientId_updateStep {update : PlanStep → PlanStep}
    (hid : ∀ row, (update row).clientId = row.clientId) (stepId : Text) (row : PlanStep) :
    (if row.clientId = stepId then update row else row).clientId = row.clientId := by
  split
  · exact hid row
  · rfl

theorem rewrite_spec {plan : Plan} (h : PlanOk plan.steps) {update : PlanStep → PlanStep}
    (hid : ∀ row, (update row).clientId = row.clientId)
    (hrequires : ∀ row, (update row).prerequisiteIds = row.prerequisiteIds) (list : RowOrder)
    (stepId : Text) (revision : ℕ) :
    ∃ rows, recomputePlanStepStatuses list revision (updateStep plan.steps stepId update) = .ok rows ∧
      Reshape (updateStep plan.steps stepId update) rows ∧ PlanOk rows := by
  obtain ⟨hkeys, hknown, hsorted⟩ := graph_map h (clientId_updateStep hid stepId) fun row => by
    split
    · exact hrequires row
    · rfl
  exact recompute_ok hkeys hknown hsorted list revision

theorem ends_requireSupport (supported : Bool) : Ends (fun _ => True) (requireSupport supported) := by
  cases supported
  · exact fun h => by cases h
  · exact trivial

theorem recordGoalPlanStepOutcome_spec (h : PlanOk plan.steps) (byOwner : Bool)
    (outcome : StepOutcome) (supported : Bool)
    (list : RowOrder) (stepId : Text) (baseRevision : ℕ) :
    Ends (fun plan' => PlanOk plan'.steps ∧
      Rewritten stepId baseRevision
        (fun row => { row with revision := plan.planRevision + 1, status := .done, outcome := some outcome }) plan plan' ∧
      statusOf plan.steps stepId ≠ some .done)
      (recordGoalPlanStepOutcome byOwner outcome supported list stepId baseRevision plan) := by
  refine (claimPlanStep_spec _ _ _).bind fun step hclaim => ?_
  obtain ⟨hrunning, hbase, hstep⟩ := hclaim
  refine (ends_refuseUnless _ _).bind fun _ hopen => ?_
  refine (ends_refuseUnless _ _).bind fun _ _ => ?_
  refine (ends_requireSupport supported).bind fun _ _ => ?_
  obtain ⟨rows, hrows, hreshape, hok⟩ := @rewrite_spec plan h (fun row =>
    { row with revision := plan.planRevision + 1, status := .done, outcome := some outcome }) (fun _ => rfl)
    (fun _ => rfl) list stepId (plan.planRevision + 1)
  dsimp only
  rw [hrows]
  refine ⟨hok, ⟨hbase, hrunning, hreshape, stamped_recompute hrows, rfl, rfl⟩, ?_⟩
  rw [and_eq_true, decide_eq_true_eq] at hopen
  simpa [statusOf, hstep] using hopen.1

section

variable (action : StepAction) (revision : ℕ) (reopened : StepStatus) (row : PlanStep)

/-- What a cancel or a reopen writes to its step. -/
def settleWrite : PlanStep :=
  match action with
  | .cancel => { row with revision, status := .cancelled }
  | .reopen => reopenStep revision reopened row

theorem clientId_settleWrite : (settleWrite action revision reopened row).clientId = row.clientId := by
  cases action <;> rfl

end

theorem settleGoalPlanStep_spec (h : PlanOk plan.steps) (action : StepAction)
    (inFlight : Text → Bool) (list : RowOrder) (stepId : Text) (baseRevision : ℕ) :
    Ends (fun plan' => PlanOk plan'.steps ∧
      (∃ reopened, Rewritten stepId baseRevision (settleWrite action (plan.planRevision + 1) reopened) plan plan') ∧
      (action = .cancel → statusOf plan.steps stepId ≠ some .done))
      (settleGoalPlanStep action inFlight list stepId baseRevision plan) := by
  refine (claimPlanStep_spec _ _ _).bind fun step hclaim => ?_
  obtain ⟨hrunning, hbase, hstep⟩ := hclaim
  have hwrite : ∀ reopened, ∃ rows,
      recomputePlanStepStatuses list (plan.planRevision + 1)
        (updateStep plan.steps stepId (settleWrite action (plan.planRevision + 1) reopened)) = .ok rows ∧
      Reshape (updateStep plan.steps stepId (settleWrite action (plan.planRevision + 1) reopened)) rows ∧
      PlanOk rows :=
    fun reopened => rewrite_spec h (clientId_settleWrite action _ reopened)
      (by cases action <;> exact fun _ => rfl) list stepId _
  obtain ⟨rows, hrows, hreshape, hok⟩ :=
    hwrite (deriveStatus .pending (statusOf plan.steps) step.prerequisiteIds)
  cases action with
  | cancel =>
    refine (ends_refuseUnless _ _).bind fun _ hopen => ?_
    show Ends _ (recomputePlanStepStatuses list (plan.planRevision + 1) _ >>= _)
    erw [hrows]
    refine ⟨hok, ⟨_, hbase, hrunning, hreshape, stamped_recompute hrows, rfl, rfl⟩, fun _ => ?_⟩
    rw [and_eq_true, decide_eq_true_eq] at hopen
    rw [statusOf, hstep]
    exact fun hdone => hopen.1 (some.inj hdone)
  | reopen =>
    refine (ends_refuseUnless _ _).bind fun _ _ => ?_
    refine (ends_refuseUnless _ _).bind fun _ _ => ?_
    show Ends _ (recomputePlanStepStatuses list (plan.planRevision + 1) _ >>= _)
    erw [hrows]
    exact ⟨hok, ⟨_, hbase, hrunning, hreshape, stamped_recompute hrows, rfl, rfl⟩, fun hcancel => by cases hcancel⟩

section

variable (runId delegationId : Text) (at_ : ℤ) (row : PlanStep)

theorem clientId_markDispatched : (markDispatched runId delegationId at_ row).clientId = row.clientId := by
  rw [markDispatched]
  split <;> rfl

end

/-- What the dispatch has found before it marked the step. -/
structure Dispatched (seen current : PlanStep) (runId delegationId : Text) (at_ : ℤ)
  (plan plan' : Plan) : Prop where
  found : findStep plan.steps seen.clientId = some current
  pending : current.status = .pending
  free : current.dispatchRunId = none
  revision : current.revision = seen.revision
  owner : current.ownerId = seen.ownerId
  ready : ∀ id ∈ current.prerequisiteIds, statusOf plan.steps id = some .done
  marked : plan' = { plan with steps := updateStep plan.steps seen.clientId (markDispatched runId delegationId at_) }

theorem dispatchStep_spec (h : dispatchStep seen runId delegationId at_ plan = some plan') :
    ∃ current, Dispatched seen current runId delegationId at_ plan plan' := by
  rw [dispatchStep] at h
  split at h
  · next current hfound =>
    split at h
    · next hready =>
      simp only [isDispatchable, and_eq_true, decide_eq_true_eq, List.all_eq_true] at hready
      obtain ⟨⟨⟨⟨hpending, hfree⟩, hrevision⟩, howner⟩, hdone⟩ := hready
      exact ⟨current, hfound, hpending, hfree, hrevision, howner, hdone, (some.inj h).symm⟩
    · cases h
  · cases h

theorem deriveStatus_congr_statuses {statuses statuses' : Text → Option StepStatus}
    (h : ∀ id, (statuses id = some .blocked ↔ statuses' id = some .blocked) ∧
      (statuses id = some .cancelled ↔ statuses' id = some .cancelled)) (prior : StepStatus) (ids : List Text) :
    deriveStatus prior statuses ids = deriveStatus prior statuses' ids := by
  have hany : (fun id => decide (statuses id = some .blocked) || decide (statuses id = some .cancelled)) =
      fun id => decide (statuses' id = some .blocked) || decide (statuses' id = some .cancelled) := by
    funext id
    rw [decide_eq_decide.mpr (h id).1, decide_eq_decide.mpr (h id).2]
  rw [deriveStatus, deriveStatus, hany]

theorem dispatched_ok {current : PlanStep} (h : PlanOk plan.steps)
    (hdispatched : Dispatched seen current runId delegationId at_ plan plan') :
    PlanOk plan'.steps := by
  let write (row : PlanStep) : PlanStep :=
    if row.clientId = seen.clientId then markDispatched runId delegationId at_ row else row
  have hid : ∀ row, (write row).clientId = row.clientId :=
    clientId_updateStep (clientId_markDispatched runId delegationId at_) seen.clientId
  have hrequires : ∀ row, (write row).prerequisiteIds = row.prerequisiteIds := by
    intro row
    show (ite _ _ _ : PlanStep).prerequisiteIds = _
    split
    · rw [markDispatched]
      split <;> rfl
    · rfl
  have hwrite : ∀ row ∈ plan.steps, write row = row ∨ row.status = .pending ∧ (write row).status = .active := by
    intro row hrow
    by_cases hseen : row.clientId = seen.clientId
    · have hfind := (findStep_eq_some h.keys).mpr ⟨hrow, hseen⟩
      have hcurrent : row = current := some.inj (hfind.symm.trans hdispatched.found)
      have hmark : write row = markDispatched runId delegationId at_ row := if_pos hseen
      refine .inr ⟨hcurrent ▸ hdispatched.pending, ?_⟩
      rw [hmark, markDispatched, if_pos (hcurrent ▸ hdispatched.free)]
    · exact .inl (if_neg hseen)
  have hsteps : plan'.steps = plan.steps.map write := by
    rw [hdispatched.marked]
    rfl
  have hstatuses : ∀ id, (statusOf plan'.steps id = some .blocked ↔ statusOf plan.steps id = some .blocked) ∧
      (statusOf plan'.steps id = some .cancelled ↔ statusOf plan.steps id = some .cancelled) := by
    intro id
    rw [hsteps, statusOf, statusOf, findStep_map hid]
    cases hrow : findStep plan.steps id with
    | none => exact ⟨Iff.rfl, Iff.rfl⟩
    | some row =>
      obtain hsame | ⟨hpending, hactive⟩ := hwrite row (mem_of_findStep hrow)
      · simp [hsame]
      · simp [hpending, hactive]
  obtain ⟨hkeys, hknown, hsorted⟩ := graph_map h hid hrequires
  rw [← hsteps] at hkeys hknown hsorted
  refine ⟨hkeys, hknown, hsorted, ?_⟩
  intro row' hrow'
  rw [hsteps] at hrow'
  obtain ⟨row, hrow, rfl⟩ := List.mem_map.mp hrow'
  obtain hsame | ⟨-, hactive⟩ := hwrite row hrow
  · rw [hsame, deriveStatus_congr_statuses hstatuses]
    exact h.settled row hrow
  · rw [hactive]
    exact deriveStatus_of_not_isDerived rfl _ _

/-! ### Runs -/

/-- A change of a plan, with what it is given. -/
inductive PlanOp where
  | update (members : List Text) (secrets : Option (List Text)) (order : RowOrder) (baseRevision : ℕ)
      (steps : List StepInput)
  | outcome (byOwner : Bool) (value : StepOutcome) (supported : Bool) (order : RowOrder) (stepId : Text)
      (baseRevision : ℕ)
  | settle (action : StepAction) (inFlight : Text → Bool) (order : RowOrder) (stepId : Text)
    (baseRevision : ℕ)
  | dispatch (seen : PlanStep) (runId delegationId : Text) (at_ : ℤ)
  | setStatus (status : GoalStatus)

namespace PlanOp

def result (plan : Plan) : PlanOp → PlanResult Plan
  | update members secrets order baseRevision steps =>
    commitPlanUpdate members secrets order baseRevision steps plan
  | outcome byOwner value supported order stepId baseRevision =>
    recordGoalPlanStepOutcome byOwner value supported order stepId baseRevision plan
  | settle action inFlight order stepId baseRevision =>
    settleGoalPlanStep action inFlight order stepId baseRevision plan
  | dispatch seen runId delegationId at_ => .ok ((dispatchStep seen runId delegationId at_ plan).getD plan)
  | setStatus status => .ok { plan with status }

def apply (plan : Plan) (op : PlanOp) : Plan :=
  match op.result plan with
  | .ok plan' => plan'
  | .error _ => plan

def after (plan : Plan) (ops : List PlanOp) : Plan := ops.foldl apply plan

/-- The revision that the change is based on, where it names one. -/
def baseRevision : PlanOp → Option ℕ
  | update _ _ _ baseRevision _ | outcome _ _ _ _ _ baseRevision | settle _ _ _ _ baseRevision =>
    some baseRevision
  | dispatch .. | setStatus _ => none

/-- Whether the change is a reopening of the step. -/
def reopens (id : Text) : PlanOp → Prop
  | settle .reopen _ _ stepId _ => stepId = id
  | _ => False

/-- The secrets of the chief that submits an update. -/
def secrets : PlanOp → Option (List Text)
  | update _ secrets _ _ _ => secrets
  | _ => none

end PlanOp

/-- The step is done and is still the same one, up to what is redacted for the chief. -/
structure SameStep (secrets : Option (List Text)) (row row' : PlanStep) : Prop where
  done : row'.status = .done
  outcome : row'.outcome = row.outcome
  ownerId : row'.ownerId = row.ownerId
  ownerIsUser : row'.ownerIsUser = row.ownerIsUser
  prerequisiteIds : row'.prerequisiteIds = row.prerequisiteIds
  title : sameDefinitionText secrets row.title row'.title
  condition : sameDefinitionText secrets row.condition row'.condition

/-- What a change leaves as it was: it ends, no step is lost, a step that is done keeps what it is
and how it came out, and a change that is based on another revision does nothing. One that is not
refused takes the next revision. -/
structure Kept (op : PlanOp) (plan plan' : Plan) : Prop where
  ends : op.result plan ≠ .error .diverges
  rows : ∀ row ∈ plan.steps, ∃ row' ∈ plan'.steps, row'.clientId = row.clientId ∧
    (row.status = .done → ¬ op.reopens row.clientId → SameStep op.secrets row row')
  stale : ∀ revision, op.baseRevision = some revision → revision ≠ plan.planRevision → plan' = plan
  revision : ∀ done, op.result plan = .ok done →
    plan'.planRevision = plan.planRevision + if op.baseRevision.isSome then 1 else 0

theorem sameDefinitionText_self (secrets : Option (List Text)) (value : Text) :
    sameDefinitionText secrets value value := by
  cases secrets <;> exact decide_eq_true rfl

variable {row row' : PlanStep} {rows : List PlanStep} {plan plan' : Plan} {op : PlanOp}

theorem SameStep.self (h : row.status = .done) (secrets : Option (List Text)) : SameStep secrets row row :=
  ⟨h, rfl, rfl, rfl, rfl, sameDefinitionText_self _ _, sameDefinitionText_self _ _⟩

theorem status_of_erase (h : erase row = erase row') (hdone : row.status = .done) : row'.status = .done := by
  have hstatus : (erase row).status = (erase row').status := by rw [h]
  have hrow : (erase row).status = .done := by
    simp [erase, hdone, StepStatus.isDerived]
  rw [hrow] at hstatus
  cases hderived : row'.status.isDerived with
  | true => simp [erase, hderived] at hstatus
  | false => simpa [erase, hderived] using hstatus.symm

variable {secrets : Option (List Text)}

theorem SameStep.erase {middle : PlanStep} (h : SameStep secrets row middle)
    (herase : Goals.erase middle = Goals.erase row') : SameStep secrets row row' := by
  have hfield : ∀ {β : Type} (f : PlanStep → β), (∀ row, f (Goals.erase row) = f row) → f row' = f middle :=
    fun f hf => (hf row').symm.trans ((congrArg f herase.symm).trans (hf middle))
  refine ⟨status_of_erase herase h.done, ?_, ?_, ?_, ?_, ?_, ?_⟩
  · rw [hfield PlanStep.outcome fun _ => rfl, h.outcome]
  · rw [hfield PlanStep.ownerId fun _ => rfl, h.ownerId]
  · rw [hfield PlanStep.ownerIsUser fun _ => rfl, h.ownerIsUser]
  · rw [hfield PlanStep.prerequisiteIds fun _ => rfl, h.prerequisiteIds]
  · rw [hfield PlanStep.title fun _ => rfl]
    exact h.title
  · rw [hfield PlanStep.condition fun _ => rfl]
    exact h.condition

theorem Reshape.exists_mem {rows' : List PlanStep} (h : Reshape rows rows') (hrow : row ∈ rows) :
    ∃ row' ∈ rows', erase row = erase row' := by
  have hmem := h.mem_iff.mp (List.mem_map_of_mem hrow)
  obtain ⟨row', hrow', herase⟩ := List.mem_map.mp hmem
  exact ⟨row', hrow', herase.symm⟩

theorem clientId_of_erase (h : erase row = erase row') : row'.clientId = row.clientId := by
  show (erase row').clientId = (erase row).clientId
  rw [h]

variable {baseRevision : ℕ}

theorem Updated.forth {steps : List StepInput}
    (h : Updated secrets baseRevision steps plan plan') (hkeys : (plan.steps.map PlanStep.clientId).Nodup)
    (hrow : row ∈ plan.steps) : ∃ row' ∈ plan'.steps,
      (∃ step ∈ steps, ∃ index, step.id = row.clientId ∧ findStep plan.steps step.id = some row ∧
        erase (writeStep (plan.planRevision + 1) index (some row) step) = erase row') ∨
      erase (leaveStep (plan.planRevision + 1) row) = erase row' := by
  by_cases hlisted : row.clientId ∈ steps.map StepInput.id
  · obtain ⟨step, hstep, hid⟩ := List.mem_map.mp hlisted
    have hprior : findStep plan.steps step.id = some row := (findStep_eq_some hkeys).mpr ⟨hrow, hid.symm⟩
    obtain ⟨index, hindex⟩ := List.mem_iff_getElem?.mp hstep
    obtain ⟨row', hrow', herase⟩ := h.written.exists_mem (mem_writeSteps.mpr (.inl ⟨index, step, hindex, rfl⟩))
    exact ⟨row', hrow', .inl ⟨step, hstep, index, hid, hprior, hprior ▸ herase⟩⟩
  · obtain ⟨row', hrow', herase⟩ := h.written.exists_mem (mem_writeSteps.mpr (.inr ⟨row, hrow, hlisted, rfl⟩))
    exact ⟨row', hrow', .inr herase⟩

theorem Updated.kept {steps : List StepInput}
    (h : Updated secrets baseRevision steps plan plan')
    (hkeys : (plan.steps.map PlanStep.clientId).Nodup) (hrow : row ∈ plan.steps) :
    ∃ row' ∈ plan'.steps, row'.clientId = row.clientId ∧ (row.status = .done → SameStep secrets row row') := by
  obtain ⟨row', hrow', ⟨step, hstep, index, hid, hprior, herase⟩ | herase⟩ := h.forth hkeys hrow
  · refine ⟨row', hrow', (clientId_of_erase herase).trans hid, fun hdone => SameStep.erase ?_ herase⟩
    have hsame := h.settled step hstep row hprior hdone
    simp only [sameDefinition, and_eq_true, decide_eq_true_eq] at hsame
    obtain ⟨⟨⟨⟨htitle, hcondition⟩, howner⟩, howned⟩, hrequires⟩ := hsame
    exact ⟨hdone, rfl, howner.symm, howned.symm, hrequires.symm, htitle, hcondition⟩
  · refine ⟨row', hrow', (clientId_of_erase herase).trans (clientId_leaveStep _ _), fun hdone => ?_⟩
    rw [leaveStep, if_pos (.inl hdone)] at herase
    exact (SameStep.self hdone secrets).erase herase

theorem Rewritten.kept {stepId : Text} {update : PlanStep → PlanStep}
    (h : Rewritten stepId baseRevision update plan plan') (hid : ∀ row, (update row).clientId = row.clientId)
    (secrets : Option (List Text)) (hrow : row ∈ plan.steps) :
    ∃ row' ∈ plan'.steps, row'.clientId = row.clientId ∧
      (row.status = .done → row.clientId ≠ stepId → SameStep secrets row row') := by
  have hwritten : (if row.clientId = stepId then update row else row) ∈ updateStep plan.steps stepId update :=
    List.mem_map_of_mem hrow
  obtain ⟨row', hrow', herase⟩ := h.written.exists_mem hwritten
  refine ⟨row', hrow', (clientId_of_erase herase).trans (clientId_updateStep hid stepId row), ?_⟩
  intro hdone hother
  rw [if_neg hother] at herase
  exact (SameStep.self hdone secrets).erase herase

theorem Dispatched.kept {seen current : PlanStep} {runId delegationId : Text} {at_ : ℤ}
    (h : Dispatched seen current runId delegationId at_ plan plan')
    (hkeys : (plan.steps.map PlanStep.clientId).Nodup)
    (secrets : Option (List Text)) (hrow : row ∈ plan.steps) :
    ∃ row' ∈ plan'.steps, row'.clientId = row.clientId ∧ (row.status = .done → SameStep secrets row row') := by
  rw [h.marked]
  refine ⟨_, List.mem_map_of_mem hrow, clientId_updateStep (clientId_markDispatched _ _ _) _ _,
    fun hdone => ?_⟩
  have hother : row.clientId ≠ seen.clientId := by
    intro hseen
    have hcurrent := (findStep_eq_some hkeys).mpr ⟨hrow, hseen⟩
    rw [h.found, some.injEq] at hcurrent
    rw [← hcurrent, h.pending] at hdone
    cases hdone
  rw [if_neg hother]
  exact SameStep.self hdone secrets

structure StepOk (op : PlanOp) (plan plan' : Plan) : Prop where
  ok : PlanOk plan'.steps
  kept : Kept op plan plan'

theorem kept_self (h : op.result plan ≠ .error .diverges) (hrevision : ∀ done, op.result plan = .ok done →
    plan.planRevision = plan.planRevision + if op.baseRevision.isSome then 1 else 0) : Kept op plan plan where
  ends := h
  rows row hrow := ⟨row, hrow, rfl, fun hdone _ => SameStep.self hdone _⟩
  stale _ _ _ := rfl
  revision := hrevision

theorem stepOk_of_ends (h : PlanOk plan.steps)
    (hends : Ends (fun plan' => StepOk op plan plan') (op.result plan)) :
    StepOk op plan (op.apply plan) := by
  rw [PlanOp.apply]
  cases hresult : op.result plan with
  | ok plan' =>
    rw [hresult] at hends
    exact hends
  | error fault =>
    rw [hresult] at hends
    refine ⟨h, kept_self (fun heq => ?_) fun done heq => ?_⟩
    · rw [hresult] at heq
      exact hends (Except.error.inj heq)
    · rw [hresult] at heq
      cases heq

theorem not_diverges_of_ends {Q : Plan → Prop} {x : PlanResult Plan} (h : Ends Q x) :
    x ≠ .error .diverges := by
  rintro rfl
  exact h rfl

theorem stepOk_apply (h : PlanOk plan.steps) (op : PlanOp) : StepOk op plan (op.apply plan) := by
  apply stepOk_of_ends h
  cases op with
  | update members secrets list baseRevision steps =>
    have hspec := commitPlanUpdate_spec h members secrets list baseRevision steps
    refine hspec.imp fun plan' hplan' => ⟨hplan'.1, ?_⟩
    refine ⟨not_diverges_of_ends hspec, ?_, ?_, fun _ _ => hplan'.2.revision⟩
    · intro row hrow
      obtain ⟨row', hrow', hid, hsame⟩ := hplan'.2.kept h.keys hrow
      exact ⟨row', hrow', hid, fun hdone _ => hsame hdone⟩
    · rintro revision hrevision hstale
      exact absurd ((some.inj hrevision).symm.trans hplan'.2.base.symm) hstale
  | outcome byOwner value supported list stepId baseRevision =>
    have hspec := recordGoalPlanStepOutcome_spec h byOwner value supported list stepId baseRevision
    refine hspec.imp fun plan' hplan' => ⟨hplan'.1, ?_⟩
    obtain ⟨-, hwritten, hopen⟩ := hplan'
    refine ⟨not_diverges_of_ends hspec, ?_, ?_, fun _ _ => hwritten.revision⟩
    · intro row hrow
      obtain ⟨row', hrow', hid, hsame⟩ := hwritten.kept (fun _ => rfl) none hrow
      refine ⟨row', hrow', hid, fun hdone _ => hsame hdone ?_⟩
      rintro rfl
      exact hopen (by rw [statusOf, (findStep_eq_some h.keys).mpr ⟨hrow, rfl⟩, map_some, hdone])
    · rintro revision hrevision hstale
      exact absurd ((some.inj hrevision).symm.trans hwritten.base.symm) hstale
  | settle action inFlight list stepId baseRevision =>
    have hspec := settleGoalPlanStep_spec h action inFlight list stepId baseRevision
    refine hspec.imp fun plan' hplan' => ⟨hplan'.1, ?_⟩
    obtain ⟨-, ⟨reopened, hwritten⟩, hopen⟩ := hplan'
    refine ⟨not_diverges_of_ends hspec, ?_, ?_, fun _ _ => hwritten.revision⟩
    · intro row hrow
      obtain ⟨row', hrow', hid, hsame⟩ := hwritten.kept (clientId_settleWrite _ _ _) none hrow
      refine ⟨row', hrow', hid, fun hdone hreopens => hsame hdone ?_⟩
      rintro rfl
      cases action with
      | cancel => exact hopen rfl (by rw [statusOf, (findStep_eq_some h.keys).mpr ⟨hrow, rfl⟩, map_some, hdone])
      | reopen => exact hreopens rfl
    · rintro revision hrevision hstale
      exact absurd ((some.inj hrevision).symm.trans hwritten.base.symm) hstale
  | dispatch seen runId delegationId at_ =>
    show StepOk _ plan ((dispatchStep seen runId delegationId at_ plan).getD plan)
    rcases hresult : dispatchStep seen runId delegationId at_ plan with _ | plan'
    · exact ⟨h, kept_self (fun heq => by cases heq) fun _ _ => rfl⟩
    obtain ⟨current, hdispatched⟩ := dispatchStep_spec hresult
    refine ⟨dispatched_ok h hdispatched, ⟨fun heq => (by cases heq), ?_, fun _ hrevision => (by cases hrevision), ?_⟩⟩
    · intro row hrow
      obtain ⟨row', hrow', hid, hsame⟩ := hdispatched.kept h.keys none hrow
      exact ⟨row', hrow', hid, fun hdone _ => hsame hdone⟩
    · rw [getD_some, hdispatched.marked]
      exact fun _ _ => rfl
  | setStatus status =>
    refine ⟨h, ⟨fun heq => (by cases heq), ?_, fun _ hrevision => (by cases hrevision), fun _ _ => rfl⟩⟩
    exact fun row hrow => ⟨row, hrow, rfl, fun hdone _ => SameStep.self hdone _⟩

theorem planOk_nil : PlanOk [] :=
  ⟨List.nodup_nil, List.forall_mem_nil _, ⟨[], List.Perm.nil, trivial⟩, List.forall_mem_nil _⟩

theorem planOk_after (h : PlanOk plan.steps) (ops : List PlanOp) : PlanOk (PlanOp.after plan ops).steps := by
  induction ops generalizing plan with
  | nil => exact h
  | cons op ops ih => exact ih (stepOk_apply h op).ok

def Requires (rows : List PlanStep) (id prerequisite : Text) : Prop :=
  prerequisite ∈ prerequisitesOf rows id

theorem PlanOk.acyclic (h : PlanOk rows) (id : Text) : ¬ TransGen (Requires rows) id id := by
  obtain ⟨order, hperm, hsorted⟩ := h.sorted
  intro hcycle
  have hmem : id ∈ order := by
    have hfirst : ∃ next, Requires rows id next := by
      obtain ⟨next, hnext, -⟩ := TransGen.head'_iff.mp hcycle
      exact ⟨next, hnext⟩
    obtain ⟨next, hnext⟩ := hfirst
    obtain ⟨row, hrow, rfl, -⟩ := mem_of_mem_prerequisitesOf hnext
    exact hperm.mem_iff.mpr (List.mem_map_of_mem hrow)
  exact hsorted.acyclic hmem hcycle

/-- A goal that has been started, before anyone has planned it. -/
def unplanned (userId : Text) : Plan :=
  { status := .running, userId, planRevision := 1, steps := [] }

/-- **A plan stays a graph whose statuses say what can be worked on.** -/
theorem plan_holds (userId : Text) (ops : List PlanOp) (op : PlanOp) : ∃ plan, plan = PlanOp.after (unplanned userId) ops ∧
      (∀ id, ¬ TransGen (Requires plan.steps) id id) ∧
      (∀ row ∈ plan.steps, ∀ id ∈ row.prerequisiteIds, ∃ prerequisite ∈ plan.steps, prerequisite.clientId = id) ∧
      (∀ row ∈ plan.steps, row.status.isDerived = true →
        (row.status = .blocked ↔ ReachesCancelled plan.steps row.clientId)) ∧
      Kept op plan (op.apply plan) := by
  refine ⟨_, rfl, ?_⟩
  have hok : PlanOk (PlanOp.after (unplanned userId) ops).steps := planOk_after planOk_nil ops
  generalize PlanOp.after (unplanned userId) ops = plan at hok ⊢
  refine ⟨hok.acyclic, ?_, ?_, (stepOk_apply hok op).kept⟩
  · intro row hrow id hid
    obtain ⟨prerequisite, hmem, heq⟩ := List.mem_map.mp (hok.known row hrow id hid)
    exact ⟨prerequisite, hmem, heq⟩
  · intro row hrow hderived
    obtain ⟨order, hperm, hsorted⟩ := hok.sorted
    have hall : ∀ row ∈ plan.steps, row.clientId ∈ order :=
      fun row hrow => hperm.mem_iff.mpr (List.mem_map_of_mem hrow)
    exact blocked_iff hok.keys hsorted hall hok.settled hrow hderived

/-- The step, or one that it waits for, is worked on or can be handed out. -/
def GoesOn (rows : List PlanStep) (id : Text) : Prop :=
  ∃ step ∈ rows, ReflTransGen (Requires rows) id step.clientId ∧
    (step.status = .active ∨ step.status = .pending ∧ ∀ id ∈ step.prerequisiteIds, statusOf rows id = some .done)

theorem PlanOk.goesOn (h : PlanOk rows) (hrow : row ∈ rows) (hpending : row.status = .pending) :
    GoesOn rows row.clientId := by
  obtain ⟨order, hperm, hsorted⟩ := h.sorted
  have hmem : row.clientId ∈ order := hperm.mem_iff.mpr (List.mem_map_of_mem hrow)
  clear hperm
  -- along the order, since a prerequisite comes after what requires it
  induction order generalizing row with
  | nil => exact absurd hmem List.not_mem_nil
  | cons head rest ih =>
    obtain heq | hmem := List.mem_cons.mp hmem
    · by_cases hready : ∀ id ∈ row.prerequisiteIds, statusOf rows id = some .done
      · exact ⟨row, hrow, .refl, .inr ⟨hpending, hready⟩⟩
      · push Not at hready
        obtain ⟨id, hid, hwaits⟩ := hready
        obtain ⟨prior, hprior, rfl⟩ := List.mem_map.mp (h.known row hrow id hid)
        have hrequires : Requires rows row.clientId prior.clientId := by
          unfold Requires prerequisitesOf
          rwa [(findStep_eq_some h.keys).mpr ⟨hrow, rfl⟩]
        have hstatus : statusOf rows prior.clientId = some prior.status := by
          rw [statusOf, (findStep_eq_some h.keys).mpr ⟨hprior, rfl⟩, map_some]
        have hfree := h.settled row hrow
        rw [hpending] at hfree
        have hnot : ¬ (statusOf rows prior.clientId = some .blocked ∨
            statusOf rows prior.clientId = some .cancelled) := by
          intro hblocks
          rw [(deriveStatus_eq_blocked rfl).mpr ⟨_, hid, hblocks⟩] at hfree
          cases hfree
        cases hprogress : prior.status with
        | active => exact ⟨prior, hprior, .single hrequires, .inl hprogress⟩
        | pending =>
          obtain ⟨step, hstep, hreaches, hgoes⟩ := ih hprior hprogress hsorted.2 (hsorted.1 _ (heq ▸ hrequires))
          exact ⟨step, hstep, .head hrequires hreaches, hgoes⟩
        | done => exact absurd (hstatus.trans (congrArg some hprogress)) hwaits
        | blocked => exact absurd (.inl (hstatus.trans (congrArg some hprogress))) hnot
        | cancelled => exact absurd (.inr (hstatus.trans (congrArg some hprogress))) hnot
    · exact ih hrow hpending hsorted.2 hmem

/-- **A plan does not get stuck.** -/
theorem plan_goes_on (userId : Text) (ops : List PlanOp) : ∃ plan, plan = PlanOp.after (unplanned userId) ops ∧
      ∀ row ∈ plan.steps, row.status = .pending → GoesOn plan.steps row.clientId :=
  ⟨_, rfl, fun _ => (planOk_after planOk_nil ops).goesOn⟩

/-- An owner's step that names a secret, and the chief that lists it again as it was shown. -/
def keyStep (title : String) : StepInput where
  id := lit "k"
  title := lit title
  ownerId := lit "u"
  ownerIsUser := true
  condition := lit "c"
  prerequisiteIds := []

def keyOps : List PlanOp :=
  [.update [] none storedOrder 1 [keyStep "key sk1"],
    .outcome true { actorId := lit "u", support := [], recordedAt := 5 } true storedOrder (lit "k") 2]

def redactedUpdate : PlanOp :=
  .update [] (some [lit "sk1"]) storedOrder 3 [keyStep "key [redacted]"]

/-- A chief can rewrite a step that is done to what it was shown of it. -/
theorem done_redefined : ∃ plan, plan = PlanOp.after (unplanned (lit "u")) keyOps ∧
      statusOf plan.steps (lit "k") = some .done ∧ ¬ redactedUpdate.reopens (lit "k") ∧
      (findStep plan.steps (lit "k")).map PlanStep.title = some (lit "key sk1") ∧
      (findStep (redactedUpdate.apply plan).steps (lit "k")).map PlanStep.title = some (lit "key [redacted]") := by
  refine ⟨_, rfl, ?_, fun h => h, ?_, ?_⟩ <;> decide +kernel

end ArdurBot.Goals
