import ArdurBot.Goals.ReviewFreeze

/-!
# Goals under review after any run of operations

The steps put together: what each operation leaves, and what any run of operations leaves.
-/

namespace ArdurBot.Goals

open List Utf16 ArdurBot.Core Option

/-- Sessions, settlements and which effects there are stay as they were. -/
structure Apart (store store' : Store) : Prop where
  sessions : store'.sessions = store.sessions
  effects : store'.effects.map GoalEffect.id = store.effects.map GoalEffect.id
  settlements : store'.settlements = store.settlements

theorem apart_settle (held : GoalRun → Bool) (store : Store) :
    Apart store (settleFrozenGoalRuns held store) := by
  refine ⟨rfl, Table.map_key fun effect => ?_, rfl⟩
  split
  · exact (settleFrozenEffect_spec effect).1
  · rfl

variable {store store' : Store} {actorId goalId revisionId : Text} {run : GoalRun}
  {collecting : Bool}

theorem apart_changeCondition {conditionId : Text} {update : GoalCondition → GoalCondition}
    (h : changeCondition goalId revisionId conditionId update store = some store') : Apart store store' := by
  simp only [changeCondition, bind_eq_bind, bind_eq_some_iff] at h
  obtain ⟨_, _, _, _, _, _, _, _, _, _, _, _, hstore⟩ := h
  cases hstore
  exact ⟨rfl, rfl, rfl⟩

theorem apart_start {goal : TeamGoal} (h : startGoal goal run store = some store') : Apart store store' := by
  simp only [startGoal, bind_eq_bind, bind_eq_some_iff] at h
  obtain ⟨_, _, _, _, _, _, _, _, hstore⟩ := h
  cases hstore
  exact ⟨rfl, rfl, rfl⟩

theorem apart_submit {summary : Text}
    (h : commitGoalSubmission goalId revisionId summary store = some store') :
    Apart store store' := by
  simp only [commitGoalSubmission, bind_eq_bind, bind_eq_some_iff] at h
  obtain ⟨goal, _, _, _, _, _, _, _, _, _, hstore⟩ := h
  cases hstore
  have hsettle := apart_settle (fun run => goal.owns run && heldAtSubmission run) (setStatus store goalId .completed)
  exact { hsettle with }

theorem apart_reject {reworkNotes : Text}
    (h : rejectGoal actorId goalId revisionId reworkNotes store = some store') :
    Apart store store' := by
  simp only [rejectGoal, bind_eq_bind, bind_eq_some_iff] at h
  obtain ⟨_, _, _, _, _, _, h⟩ := h
  split at h
  · split at h <;> cases h
    exact ⟨rfl, rfl, rfl⟩
  · simp only [bind_eq_some_iff] at h
    obtain ⟨_, _, hstore⟩ := h
    cases hstore
    exact ⟨rfl, rfl, rfl⟩

theorem apart_stop (h : stopGoal goalId store = some store') : Apart store store' := by
  simp only [stopGoal, bind_eq_bind, bind_eq_some_iff] at h
  obtain ⟨_, _, _, _, hstore⟩ := h
  cases hstore
  exact ⟨rfl, rfl, rfl⟩

theorem apart_exhaust {now : ℤ} (h : reconcileGoalExhaustion goalId now store = some store') :
    Apart store store' := by
  simp only [reconcileGoalExhaustion, bind_eq_bind, bind_eq_some_iff] at h
  obtain ⟨_, _, _, _, _, _, hstore⟩ := h
  cases hstore
  exact ⟨rfl, rfl, rfl⟩

theorem apart_createGoalRun (h : createGoalRun run goalId store = some store') : Apart store store' := by
  simp only [createGoalRun, bind_eq_bind, bind_eq_some_iff] at h
  obtain ⟨_, _, _, _, _, _, _, _, hstore⟩ := h
  cases hstore
  exact ⟨rfl, rfl, rfl⟩

theorem apart_createPlainRun (h : createPlainRun run store = some store') : Apart store store' := by
  simp only [createPlainRun, bind_eq_bind, bind_eq_some_iff] at h
  obtain ⟨_, _, _, _, _, _, hstore⟩ := h
  cases hstore
  exact ⟨rfl, rfl, rfl⟩

theorem accept_same (h : acceptGoal collecting actorId goalId revisionId store = some store') :
    store'.sessions = store.sessions ∧ store'.effects = store.effects := by
  simp only [acceptGoal, bind_eq_bind, bind_eq_some_iff] at h
  obtain ⟨_, _, _, _, _, _, h⟩ := h
  split at h
  · split at h <;> cases h
    exact ⟨rfl, rfl⟩
  · simp only [bind_eq_some_iff] at h
    obtain ⟨_, _, _, _, _, _, _, _, _, _, _, _, _, _, hstore⟩ := h
    cases hstore
    exact ⟨rfl, rfl⟩

/-- A goal is accepted only if it was before, or as the owner's acceptance has seen it. -/
def AcceptsOk (store store' : Store) : Prop :=
  ∀ goal' ∈ store'.goals, goal'.status = .accepted →
    ∃ goal ∈ store.goals, goal.id = goal'.id ∧ (goal.status = .accepted ∨ ∃ revision, Acceptable store goal revision)

theorem accepts_of_settlements (h : StoreOk store) (h' : StoreOk store')
    (hsettlements : store'.settlements = store.settlements) :
    AcceptsOk store store' := by
  intro goal' hgoal' haccepted
  have hsettled := (h'.verdicts.settled goal' hgoal').mp haccepted
  rw [hsettlements] at hsettled
  obtain ⟨settlement, hsettlement, hid⟩ := mem_map.mp hsettled
  obtain ⟨goal, hgoal, hgoalId⟩ := h.verdicts.known settlement hsettlement
  refine ⟨goal, hgoal, hgoalId.trans hid, .inl ((h.verdicts.settled goal hgoal).mpr ?_)⟩
  exact mem_map.mpr ⟨settlement, hsettlement, hgoalId.symm⟩

structure ReviewStep (store store' : Store) : Prop where
  rows : StoreOk store'
  work : WorkersOk store'
  lasting : Lasting store store'
  accepts : AcceptsOk store store'

theorem step_of_work (h' : StoreOk store') (hwork' : WorkersOk store') (hsame : SameReview store store') :
    ReviewStep store store' := by
  refine ⟨h', hwork', lasting_of_same hsame.goals hsame.revisions hsame.verdicts hsame.settlements, ?_⟩
  rw [AcceptsOk, hsame.goals]
  exact fun goal hgoal haccepted => ⟨goal, hgoal, rfl, .inl haccepted⟩

theorem step_accept (h : StoreOk store) (hwork : WorkersOk store)
    (haccept : acceptGoal collecting actorId goalId revisionId store = some store') :
    ReviewStep store store' := by
  obtain ⟨⟨h', hlasting, -⟩, hcases⟩ := ok_accept h haccept
  obtain ⟨hsessions, heffects⟩ := accept_same haccept
  refine ⟨h', workOk_of_same hwork hlasting hsessions (congrArg _ heffects), hlasting, ?_⟩
  obtain rfl | ⟨goal, hgoal, hid, hacceptable, hgoals⟩ := hcases
  · exact fun goal hgoal haccepted => ⟨goal, hgoal, rfl, .inl haccepted⟩
  · intro goal' hgoal' haccepted
    rw [hgoals] at hgoal'
    obtain ⟨other, hother, rfl⟩ := mem_map.mp hgoal'
    by_cases hsame : other.id = goalId
    · rw [if_pos hsame]
      rw [Table.eq_of_key h.goals.ids hother hgoal (hsame.trans hid.symm)]
      exact ⟨goal, hgoal, rfl, .inr hacceptable⟩
    · rw [if_neg hsame] at haccepted ⊢
      exact ⟨other, hother, rfl, .inl haccepted⟩

/-- A worker that records or claims an effect of a run of a frozen goal goes by that goal. -/
def ReviewOp.Careful (store : Store) : ReviewOp → Prop
  | record index _ _ _ | claim index _ _ =>
    ∀ session, store.sessions[index]? = some session → session.Follows store
  | _ => True

section

variable {careful : Prop}

theorem step_of_lasts (h : StoreOk store) (hwork : WorkersOk store) (hlasts : Lasts store store')
    (hapart : Apart store store') :
    ReviewStep store store' ∧ (careful → Still store store') :=
  ⟨⟨hlasts.1, workOk_of_same hwork hlasts.2.1 hapart.sessions hapart.effects, hlasts.2.1,
    accepts_of_settlements h hlasts.1 hapart.settlements⟩, fun _ => hlasts.2.2⟩

theorem step_of_worked (hworked : Worked store store') :
    ReviewStep store store' ∧ (careful → Still store store') := by
  obtain ⟨h', hwork', hsame, hstill⟩ := hworked
  exact ⟨step_of_work h' hwork' hsame, fun _ => hstill⟩

end

theorem step_result (h : StoreOk store) (hwork : WorkersOk store) {op : ReviewOp}
    (hop : op.result store = some store') :
    ReviewStep store store' ∧ (op.Careful store → Still store store') := by
  cases op with
  | start goal run => exact step_of_lasts h hwork (ok_start h hop) (apart_start hop)
  | submit goalId revisionId summary => exact step_of_lasts h hwork (ok_submit h hop) (apart_submit hop)
  | review supported actorId goalId revisionId conditionId status reason support now =>
    simp only [ReviewOp.result, reviewGoalCondition, bind_eq_bind, bind_eq_some_iff] at hop
    obtain ⟨-, -, hchange⟩ := hop
    exact step_of_lasts h hwork (ok_changeCondition h hchange) (apart_changeCondition hchange)
  | propose supported goalId revisionId conditionId support =>
    have hlasts := ok_propose h hop
    simp only [ReviewOp.result, proposeGoalConditionSupport, bind_eq_bind, bind_eq_some_iff] at hop
    obtain ⟨-, -, hchange⟩ := hop
    exact step_of_lasts h hwork hlasts (apart_changeCondition hchange)
  | accept collecting actorId goalId revisionId =>
    obtain ⟨⟨-, -, hstill⟩, -⟩ := ok_accept h hop
    exact ⟨step_accept h hwork hop, fun _ => hstill⟩
  | reject actorId goalId revisionId reworkNotes =>
    exact step_of_lasts h hwork (ok_reject h hop) (apart_reject hop)
  | requestCancel goalId =>
    cases hop
    obtain ⟨h', hlasting⟩ := ok_requestCancel h goalId
    exact step_of_lasts h hwork ⟨h', hlasting, still_of_same rfl⟩ ⟨rfl, rfl, rfl⟩
  | stop goalId => exact step_of_lasts h hwork (ok_stop h hop) (apart_stop hop)
  | exhaust goalId now => exact step_of_lasts h hwork (ok_exhaust h hop) (apart_exhaust hop)
  | load runId => exact step_of_worked (ok_load h hwork hop)
  | find index goalId now => exact step_of_worked (ok_find h hwork hop)
  | link index => exact step_of_worked (ok_link h hwork hop)
  | resume index now =>
    obtain ⟨hlasts, held, rfl⟩ := ok_resume h hop
    exact step_of_lasts h hwork hlasts (apart_settle held store)
  | record index effectId kind idempotencyKey =>
    obtain ⟨⟨h', hwork', hsame⟩, hstill⟩ := ok_record h hwork hop
    exact ⟨step_of_work h' hwork' hsame, hstill⟩
  | claim index origin effectId =>
    obtain ⟨⟨h', hwork', hsame⟩, hstill⟩ := ok_claim h hwork hop
    exact ⟨step_of_work h' hwork' hsame, hstill⟩
  | hold run delegationId rootTaskId effectId idempotencyKey => exact step_of_worked (ok_hold h hwork hop)
  | claimBound effectId => exact step_of_worked (ok_claimBound h hwork hop)
  | effect move effectId => exact step_of_worked (ok_moveEffect h hwork hop)
  | createRun run goalId => exact step_of_lasts h hwork (ok_createGoalRun h hop) (apart_createGoalRun hop)
  | createPlainRun run => exact step_of_lasts h hwork (ok_createPlainRun h hop) (apart_createPlainRun hop)
  | moveRun runId status leaseExpiresAt =>
    cases hop
    exact step_of_lasts h hwork (ok_moveRun h runId status leaseExpiresAt) ⟨rfl, rfl, rfl⟩
  | tokens goalId usedTokens reservedTokens =>
    cases hop
    obtain ⟨h', hlasting⟩ := @ok_updateGoal store h
        (fun goal => { goal with root.usedTokens := usedTokens, root.reservedTokens := reservedTokens })
        ⟨fun _ => rfl, fun _ => rfl, fun _ => rfl⟩ (fun _ => rfl) goalId
    exact step_of_lasts h hwork ⟨h', hlasting, still_of_same rfl⟩ ⟨rfl, rfl, rfl⟩

theorem step_apply (h : StoreOk store) (hwork : WorkersOk store) (op : ReviewOp) :
    ReviewStep store (op.apply store) ∧ (op.Careful store → Still store (op.apply store)) := by
  rw [ReviewOp.apply]
  cases hresult : op.result store with
  | none =>
    refine ⟨⟨h, hwork, lasting_of_same rfl rfl rfl rfl, ?_⟩, fun _ => still_of_same rfl⟩
    exact fun goal hgoal haccepted => ⟨goal, hgoal, rfl, .inl haccepted⟩
  | some store' => exact step_result h hwork hresult

theorem ok_empty : StoreOk emptyStore ∧ WorkersOk emptyStore := by
  refine ⟨⟨⟨nodup_nil, nodup_nil, ?_⟩, ⟨nodup_nil, ?_, ?_⟩, ⟨?_, ?_⟩,
    ⟨nodup_nil, nodup_nil, ?_, nodup_nil, ?_⟩⟩, ⟨?_, ?_, nodup_nil⟩⟩ <;>
    exact forall_mem_nil _

theorem ok_after (ops : List ReviewOp) :
    StoreOk (Run.after ReviewOp.apply emptyStore ops) ∧ WorkersOk (Run.after ReviewOp.apply emptyStore ops) := by
  refine @Run.inv_after _ _ ReviewOp.apply (fun store => StoreOk store ∧ WorkersOk store) ?_ _ ok_empty ops
  intro store op h
  obtain ⟨⟨hrows, hwork, -, -⟩, -⟩ := step_apply h.1 h.2 op
  exact ⟨hrows, hwork⟩

theorem lasting_after (h : StoreOk store) (hwork : WorkersOk store) (ops : List ReviewOp) :
    Lasting store (Run.after ReviewOp.apply store ops) := by
  refine @Run.rel_after _ _ ReviewOp.apply Lasting (fun store => StoreOk store ∧ WorkersOk store) ?_
    (fun store => lasting_of_same rfl rfl rfl rfl) Lasting.trans ?_ store ⟨h, hwork⟩ ops
  · intro store op h
    obtain ⟨⟨hrows, hwork, -, -⟩, -⟩ := step_apply h.1 h.2 op
    exact ⟨hrows, hwork⟩
  · intro store op h
    exact (step_apply h.1 h.2 op).1.lasting

/-- **Review and freeze.** -/
theorem review_holds (ops : List ReviewOp) : ∃ store, store = Run.after ReviewOp.apply emptyStore ops ∧
      (∀ goal ∈ store.goals, ∀ other ∈ store.goals, goal.groupId = other.groupId → goal.status.holdsGroup = true →
        other.status.holdsGroup = true → goal = other) ∧
      (store.verdicts.map fun verdict => (verdict.goalId, verdict.revisionId)).Nodup ∧
      (store.settlements.map GoalSettlement.goalId).Nodup ∧
      (∀ goal ∈ store.goals, goal.status = .accepted ↔ goal.id ∈ store.settlements.map GoalSettlement.goalId) ∧
      (∀ ops', Lasting store (Run.after ReviewOp.apply store ops')) ∧
      ∀ op : ReviewOp, AcceptsOk store (op.apply store) ∧ (op.Careful store → Still store (op.apply store)) := by
  obtain ⟨h, hwork⟩ := ok_after ops
  refine ⟨_, rfl, h.goals.groups, h.verdicts.once, h.verdicts.settledOnce, h.verdicts.settled,
    lasting_after h hwork, fun op => ?_⟩
  obtain ⟨hstep, hstill⟩ := step_apply h hwork op
  exact ⟨hstep.accepts, hstill⟩

def exampleGoal : TeamGoal where
  id := lit "goal"
  groupId := lit "group"
  rootTaskId := lit "root"
  status := .running
  doneWhen := []
  tokenLimit := 1000
  untilAt := 1000
  root := { usedTokens := 0, reservedTokens := 0, tokenLimit := 1000, deadlineAt := 1000, cancelRequested := false }

def exampleRun (id : Text) : GoalRun where
  id
  goalId := none
  rootTaskId := none
  delegationId := none
  status := .queued
  leaseExpiresAt := none

/-- Two workers continue a run before its coordinator has a goal; the second one links it to the
goal, which is then submitted. -/
def unlinkedOps : List ReviewOp :=
  [.createPlainRun (exampleRun (lit "run")), .load (lit "run"), .load (lit "run"),
    .moveRun (lit "run") .running none,
    .start exampleGoal (exampleRun (lit "first")),
    .find 1 (lit "goal") 0,
    .link 1,
    .submit (lit "goal") (lit "revision") (lit "done")]

/-- The first worker records an effect of the completed goal, and executes it. -/
theorem completed_executes : ∃ store, store = Run.after ReviewOp.apply emptyStore unlinkedOps ∧
      ∃ goal ∈ store.goals, goal.status = .completed ∧ goalEffects store goal = [] ∧
        ∃ recorded, recorded = (ReviewOp.record 0 (lit "effect") (lit "bash") (lit "key")).apply store ∧
          (∃ effect ∈ goalEffects recorded goal, effect.status = .intended) ∧
          ∃ effect ∈ goalEffects ((ReviewOp.claim 0 .intended (lit "effect")).apply recorded) goal,
            effect.status = .executing := by
  refine ⟨_, rfl, { exampleGoal with status := .completed }, ?_, rfl, ?_, _, rfl, ?_⟩
  · decide +kernel
  · decide +kernel
  · decide +kernel

end ArdurBot.Goals
