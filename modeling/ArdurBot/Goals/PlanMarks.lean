import ArdurBot.Goals.PlanRun

/-!
# What a change of a plan does to the dispatch marks

The run and the delegation that a step was handed out to stay with its row through every update,
outcome and cancel, and are cleared by reopening it. A row that a change has written has the new
revision of the plan.
-/

namespace ArdurBot.Goals

open Utf16

def SameMarks (row row' : PlanStep) : Prop :=
  row'.clientId = row.clientId ∧ row'.dispatchRunId = row.dispatchRunId ∧
    row'.dispatchDelegationId = row.dispatchDelegationId

def Unmarked (row : PlanStep) : Prop := row.dispatchRunId = none ∧ row.dispatchDelegationId = none

variable {row row' : PlanStep} {plan plan' : Plan} {op : PlanOp}

theorem sameMarks_of_erase (h : erase row = erase row') : SameMarks row row' := by
  refine ⟨clientId_of_erase h, ?_, ?_⟩
  · show (erase row').dispatchRunId = (erase row).dispatchRunId
    rw [h]
  · show (erase row').dispatchDelegationId = (erase row).dispatchDelegationId
    rw [h]

theorem SameMarks.trans {a b c : PlanStep} (hab : SameMarks a b) (hbc : SameMarks b c) : SameMarks a c :=
  ⟨hbc.1.trans hab.1, hbc.2.1.trans hab.2.1, hbc.2.2.trans hab.2.2⟩

theorem Unmarked.of_sameMarks (h : Unmarked row) (hsame : SameMarks row row') : Unmarked row' :=
  ⟨hsame.2.1.trans h.1, hsame.2.2.trans h.2⟩

/-- What a change does to the marks: each row has the new revision and no marks, or the marks of an
earlier one; and the marks of a step are still there, unless it has been reopened. -/
structure MarksKept (reopened : Text → Prop) (plan plan' : Plan) : Prop where
  back : ∀ row' ∈ plan'.steps, (row'.revision = plan.planRevision + 1 ∧ Unmarked row') ∨
    ∃ row ∈ plan.steps, SameMarks row row' ∧ (row'.revision = row.revision ∨ row'.revision = plan.planRevision + 1)
  forth : ∀ row ∈ plan.steps, ¬ reopened row.clientId → ∃ row' ∈ plan'.steps, SameMarks row row'
  revision : plan' = plan ∨ plan'.planRevision = plan.planRevision + 1
  status : plan'.status = plan.status

theorem MarksKept.refl (reopened : Text → Prop) (plan : Plan) : MarksKept reopened plan plan where
  back row hrow := .inr ⟨row, hrow, ⟨rfl, rfl, rfl⟩, .inl rfl⟩
  forth row hrow _ := ⟨row, hrow, rfl, rfl, rfl⟩
  revision := .inl rfl
  status := rfl

theorem sameMarks_leaveStep (revision : ℕ) (row : PlanStep) : SameMarks row (leaveStep revision row) := by
  rw [leaveStep]
  split <;> exact ⟨rfl, rfl, rfl⟩

theorem revision_leaveStep (revision : ℕ) (row : PlanStep) :
    (leaveStep revision row).revision = row.revision ∨ (leaveStep revision row).revision = revision := by
  rw [leaveStep]
  split
  · exact .inl rfl
  · exact .inr rfl

theorem Updated.marksKept {secrets : Option (List Text)} {baseRevision : ℕ} {steps : List StepInput}
    (h : Updated secrets baseRevision steps plan plan') (hkeys : (plan.steps.map PlanStep.clientId).Nodup)
    (reopened : Text → Prop) : MarksKept reopened plan plan' where
  back := by
    intro row' hrow'
    obtain ⟨middle, hmiddle, herase, hrevision⟩ := h.stamped row' hrow'
    have hmarks := sameMarks_of_erase herase
    obtain ⟨index, step, -, rfl⟩ | ⟨row, hrow, -, rfl⟩ := mem_writeSteps.mp hmiddle
    · have hnew : row'.revision = plan.planRevision + 1 := by
        obtain hsame | hnew := hrevision
        · exact hsame
        · exact hnew
      rcases hprior : findStep plan.steps step.id with _ | prior
      · rw [hprior] at hmarks
        exact .inl ⟨hnew, Unmarked.of_sameMarks ⟨rfl, rfl⟩ hmarks⟩
      rw [hprior] at hmarks
      have hwritten : SameMarks prior (writeStep (plan.planRevision + 1) index (some prior) step) :=
        ⟨(clientId_of_findStep hprior).symm, rfl, rfl⟩
      exact .inr ⟨prior, mem_of_findStep hprior, hwritten.trans hmarks, .inr hnew⟩
    · refine .inr ⟨row, hrow, (sameMarks_leaveStep _ row).trans hmarks, ?_⟩
      obtain hsame | hnew := hrevision
      · rw [hsame]
        exact revision_leaveStep _ row
      · exact .inr hnew
  forth := by
    intro row hrow _
    obtain ⟨row', hrow', ⟨step, -, index, hid, -, herase⟩ | herase⟩ := h.forth hkeys hrow
    · have hsame : SameMarks row (writeStep (plan.planRevision + 1) index (some row) step) := ⟨hid, rfl, rfl⟩
      exact ⟨row', hrow', hsame.trans (sameMarks_of_erase herase)⟩
    · exact ⟨row', hrow', (sameMarks_leaveStep _ row).trans (sameMarks_of_erase herase)⟩
  revision := .inr h.revision
  status := h.status

/-- A change of one step that writes the new revision, and keeps its marks or reopens it. -/
structure Writes (reopened : Text → Prop) (stepId : Text) (revision : ℕ) (update : PlanStep →
  PlanStep) : Prop where
  clientId : ∀ row, (update row).clientId = row.clientId
  revision : ∀ row, (update row).revision = revision
  marks : (∀ row, SameMarks row (update row)) ∨ reopened stepId ∧ ∀ row, Unmarked (update row)

theorem Rewritten.marksKept {stepId : Text} {baseRevision : ℕ} {update : PlanStep → PlanStep}
    (h : Rewritten stepId baseRevision update plan plan') {reopened : Text → Prop}
    (hwrites : Writes reopened stepId (plan.planRevision + 1) update) : MarksKept reopened plan plan' where
  back := by
    intro row' hrow'
    obtain ⟨middle, hmiddle, herase, hrevision⟩ := h.stamped row' hrow'
    have hmarks := sameMarks_of_erase herase
    obtain ⟨row, hrow, rfl⟩ := List.mem_map.mp hmiddle
    by_cases hstep : row.clientId = stepId
    · rw [if_pos hstep] at hmarks hrevision
      have hnew : row'.revision = plan.planRevision + 1 := by
        obtain hsame | hnew := hrevision
        · rw [hsame, hwrites.revision]
        · exact hnew
      obtain hkept | ⟨-, hcleared⟩ := hwrites.marks
      · exact .inr ⟨row, hrow, (hkept row).trans hmarks, .inr hnew⟩
      · exact .inl ⟨hnew, (hcleared row).of_sameMarks hmarks⟩
    · rw [if_neg hstep] at hmarks hrevision
      exact .inr ⟨row, hrow, hmarks, hrevision⟩
  forth := by
    intro row hrow hopen
    have hwritten : (if row.clientId = stepId then update row else row) ∈ updateStep plan.steps stepId update :=
      List.mem_map_of_mem hrow
    obtain ⟨row', hrow', herase⟩ := h.written.exists_mem hwritten
    have hmarks := sameMarks_of_erase herase
    by_cases hstep : row.clientId = stepId
    · rw [if_pos hstep] at hmarks
      obtain hkept | ⟨hreopened, -⟩ := hwrites.marks
      · exact ⟨row', hrow', (hkept row).trans hmarks⟩
      · exact absurd (hstep ▸ hreopened) hopen
    · rw [if_neg hstep] at hmarks
      exact ⟨row', hrow', hmarks⟩
  revision := .inr h.revision
  status := h.status

theorem PlanOp.apply_of_ends {Q : Plan → Prop} (hself : Q plan) (h : Ends Q (op.result plan)) :
    Q (op.apply plan) := by
  rw [PlanOp.apply]
  cases hresult : op.result plan with
  | ok plan' =>
    rw [hresult] at h
    exact h
  | error fault => exact hself

/-- The changes that come from the owner or the chief. -/
def PlanOp.IsEdit : PlanOp → Prop
  | update .. | outcome .. | settle .. => True
  | dispatch .. | setStatus _ => False

theorem marksKept_apply (h : PlanOk plan.steps) (hedit : op.IsEdit) :
    MarksKept (fun id => op.reopens id) plan (op.apply plan) := by
  apply PlanOp.apply_of_ends (MarksKept.refl _ plan)
  cases op with
  | update members secrets list baseRevision steps =>
    refine (commitPlanUpdate_spec h members secrets list baseRevision steps).imp fun plan' hplan' => ?_
    exact hplan'.2.marksKept h.keys _
  | outcome byOwner value supported list stepId baseRevision =>
    refine (recordGoalPlanStepOutcome_spec h byOwner value supported list stepId baseRevision).imp
      fun plan' hplan' => ?_
    exact hplan'.2.1.marksKept ⟨fun _ => rfl, fun _ => rfl, .inl fun _ => ⟨rfl, rfl, rfl⟩⟩
  | settle action inFlight list stepId baseRevision =>
    refine (settleGoalPlanStep_spec h action inFlight list stepId baseRevision).imp fun plan' hplan' => ?_
    obtain ⟨-, ⟨reopened, hwritten⟩, -⟩ := hplan'
    cases action with
    | cancel => exact hwritten.marksKept ⟨fun _ => rfl, fun _ => rfl, .inl fun _ => ⟨rfl, rfl, rfl⟩⟩
    | reopen => exact hwritten.marksKept ⟨fun _ => rfl, fun _ => rfl, .inr ⟨rfl, fun _ => ⟨rfl, rfl⟩⟩⟩
  | dispatch | setStatus => exact hedit.elim

end ArdurBot.Goals
