import ArdurBot.Goals.ReviewFrame

/-!
# What holds of goals after any operations

Each operation keeps the invariants of the rows (`StoreOk`) and what is final (`Lasting`), whatever
its worker has read of its run. That no effect of a frozen goal is recorded or executed (`Still`)
needs in addition that the worker goes by the goal which its run is linked to now.
-/

namespace ArdurBot.Goals

open List Utf16 ArdurBot.Core
open Bool hiding not_and not_or
open Option hiding any any_eq_false any_eq_true

structure StoreOk (store : Store) : Prop where
  goals : GoalsOk store.goals
  runs : RunsOk store.goals store.runs
  holds : HoldsOk store.goals store.runs store.effects
  verdicts : VerdictsOk store.goals store.revisions store.verdicts store.settlements

def GoalStatus.isFinal (status : GoalStatus) : Bool :=
  status = .accepted || status = .stopped || status = .exhausted

structure Lasting (store store' : Store) : Prop where
  goals : ∀ goal ∈ store.goals, ∃ goal' ∈ store'.goals, goal'.id = goal.id ∧
    goal'.rootTaskId = goal.rootTaskId ∧
    (goal.status.isFinal → goal'.status = goal.status)
  revisions : ∀ revision ∈ store.revisions, findVerdict store revision.goalId revision.id ≠ none →
    revision ∈ store'.revisions
  verdicts : ∀ verdict ∈ store.verdicts, verdict ∈ store'.verdicts
  settlements : ∀ settlement ∈ store.settlements, settlement ∈ store'.settlements

/-- No effect of a goal that is frozen is recorded or starts to execute. -/
def Still (store store' : Store) : Prop :=
  ∀ goal ∈ store.goals, goal.status.isFrozen → ∀ effect' ∈ goalEffects store' goal,
    ∃ effect ∈ store.effects, effect.id = effect'.id ∧ (effect'.status = .executing → effect.status = .executing)

abbrev Lasts (store store' : Store) :
  Prop := StoreOk store' ∧ Lasting store store' ∧ Still store store'

variable {store store' : Store} {actorId goalId revisionId : Text} {update : TeamGoal → TeamGoal}
  {goal : TeamGoal} {status : GoalStatus} {now : ℤ} {supported : Bool}

theorem lasting_of_same (hgoals : store'.goals = store.goals)
    (hrevisions : store'.revisions = store.revisions)
    (hverdicts : store'.verdicts = store.verdicts) (hsettlements : store'.settlements = store.settlements) :
    Lasting store store' where
  goals goal hgoal := ⟨goal, hgoals ▸ hgoal, rfl, rfl, fun _ => rfl⟩
  revisions _ h _ := hrevisions ▸ h
  verdicts _ h := hverdicts ▸ h
  settlements _ h := hsettlements ▸ h

theorem findVerdict_ne_none : findVerdict store goalId revisionId ≠ none ↔
      ∃ verdict ∈ store.verdicts, verdict.goalId = goalId ∧ verdict.revisionId = revisionId := by
  rw [findVerdict, ← isSome_iff_ne_none, find?_isSome]
  simp only [and_eq_true, decide_eq_true_eq]

theorem Lasting.trans {a b c : Store} (hab : Lasting a b) (hbc : Lasting b c) : Lasting a c where
  goals goal hgoal := by
    obtain ⟨middle, hmiddle, hid, hroot, hfinal⟩ := hab.goals goal hgoal
    obtain ⟨last, hlast, hid', hroot', hfinal'⟩ := hbc.goals middle hmiddle
    refine ⟨last, hlast, hid'.trans hid, hroot'.trans hroot, fun h => ?_⟩
    have hstatus := hfinal h
    rw [← hstatus]
    exact hfinal' (hstatus ▸ h)
  revisions revision hrevision hverdict := by
    obtain ⟨verdict, hmem, hkey⟩ := findVerdict_ne_none.mp hverdict
    exact hbc.revisions revision (hab.revisions revision hrevision hverdict)
      (findVerdict_ne_none.mpr ⟨verdict, hab.verdicts verdict hmem, hkey⟩)
  verdicts verdict h := hbc.verdicts verdict (hab.verdicts verdict h)
  settlements settlement h := hbc.settlements settlement (hab.settlements settlement h)

theorem still_of_same (h : store'.effects = store.effects) : Still store store' := by
  intro goal _ _ effect heffect
  have hmem : effect ∈ store'.effects := (mem_filter.mp heffect).1
  exact ⟨effect, h ▸ hmem, rfl, fun hstatus => hstatus⟩

theorem still_of_map {update : GoalEffect → GoalEffect}
    (h : store'.effects = store.effects.map update) (hid : ∀ effect, (update effect).id = effect.id)
    (hstatus : ∀ effect ∈ store.effects, (update effect).status = .executing → effect.status = .executing) :
    Still store store' := by
  intro goal _ _ effect' heffect'
  have hmem : effect' ∈ store'.effects := (mem_filter.mp heffect').1
  rw [h] at hmem
  obtain ⟨effect, heffect, rfl⟩ := mem_map.mp hmem
  exact ⟨effect, heffect, (hid effect).symm, hstatus effect heffect⟩

theorem sameGoal_if (h : SameGoal update) (id : Text) :
    SameGoal fun goal => if goal.id = id then update goal else goal where
  id goal := by
    split
    · exact h.id goal
    · rfl
  groupId goal := by
    split
    · exact h.groupId goal
    · rfl
  rootTaskId goal := by
    split
    · exact h.rootTaskId goal
    · rfl

def Quits (status status' : GoalStatus) : Prop :=
  status' = status ∨ status = .running ∧ (status' = .stopped ∨ status' = .exhausted)

theorem ok_goals (h : StoreOk store) (hsame : SameGoal update)
    (hstatus : ∀ goal ∈ store.goals, Quits goal.status (update goal).status) :
    StoreOk { store with goals := store.goals.map update } ∧
      Lasting store { store with goals := store.goals.map update } := by
  refine ⟨⟨?_, runsOk_goals h.runs hsame, ?_, ?_⟩, ⟨fun goal hgoal => ⟨update goal, mem_map_of_mem hgoal, hsame.id goal, hsame.rootTaskId goal, ?_⟩,
    fun _ h _ => h, fun _ h => h, fun _ h => h⟩⟩
  · refine goalsOk_map h.goals hsame fun goal hgoal hholds => ?_
    obtain heq | ⟨-, heq | heq⟩ := hstatus goal hgoal
    · rwa [← heq]
    · rw [heq] at hholds
      cases hholds
    · rw [heq] at hholds
      cases hholds
  · refine holdsOk_goals h.holds hsame fun goal hgoal hfrozen => ?_
    obtain heq | ⟨-, heq | heq⟩ := hstatus goal hgoal
    · rwa [← heq]
    · rw [heq] at hfrozen
      cases hfrozen
    · rw [heq] at hfrozen
      cases hfrozen
  · refine verdictsOk_goals h.verdicts hsame fun goal hgoal => ?_
    obtain heq | ⟨hrunning, heq | heq⟩ := hstatus goal hgoal
    · rw [heq]
    · rw [heq, hrunning]
      exact iff_of_false (by decide) (by decide)
    · rw [heq, hrunning]
      exact iff_of_false (by decide) (by decide)
  · intro hfinal
    obtain heq | ⟨hrunning, -⟩ := hstatus goal hgoal
    · exact heq
    · rw [hrunning] at hfinal
      cases hfinal

theorem ok_updateGoal {store : Store} (h : StoreOk store) {update : TeamGoal → TeamGoal}
    (hsame : SameGoal update) (hstatus : ∀ goal, (update goal).status = goal.status) (id : Text) :
    StoreOk (updateGoal store id update) ∧ Lasting store (updateGoal store id update) := by
  refine ok_goals h (sameGoal_if hsame id) fun goal _ => .inl ?_
  split
  · exact hstatus goal
  · rfl

theorem sameGoal_status (status : GoalStatus) : SameGoal fun goal => { goal with status } :=
  ⟨fun _ => rfl, fun _ => rfl, fun _ => rfl⟩

section

variable (h : StoreOk store)
include h

theorem ok_end {id : Text} (hfind : findGoal store id = some goal)
    (hrunning : goal.status = .running) (hstatus : status = .stopped ∨ status = .exhausted) :
    StoreOk (setStatus store id status) ∧ Lasting store (setStatus store id status) := by
  obtain ⟨hgoal, hid⟩ := (findGoal_eq_some h.goals).mp hfind
  refine ok_goals h (sameGoal_if (sameGoal_status status) id) fun other hother => ?_
  split
  · next hsame =>
    have heq : other = goal := Table.eq_of_key h.goals.ids hother hgoal (hsame.trans hid.symm)
    exact .inr ⟨heq ▸ hrunning, hstatus⟩
  · exact .inl rfl

theorem ok_stop {id : Text} (hstop : stopGoal id store = some store') : Lasts store store' := by
  simp only [stopGoal, bind_eq_bind, bind_eq_some_iff, guard_eq_some'] at hstop
  obtain ⟨goal, hfind, -, hrunning, hstore⟩ := hstop
  cases hstore
  obtain ⟨hok, hlasting⟩ := ok_end h hfind hrunning (.inl rfl)
  exact ⟨hok, hlasting, still_of_same rfl⟩

theorem ok_requestCancel (id : Text) :
    StoreOk (requestGoalCancel id store) ∧ Lasting store (requestGoalCancel id store) :=
  @ok_updateGoal store h (fun goal => { goal with root.cancelRequested := true }) ⟨fun _ => rfl,
    fun _ => rfl, fun _ => rfl⟩ (fun _ => rfl) id

theorem ok_exhaust {id : Text} (hexhaust : reconcileGoalExhaustion id now store = some store') :
    Lasts store store' := by
  simp only [reconcileGoalExhaustion, bind_eq_bind, bind_eq_some_iff, guard_eq_some'] at hexhaust
  obtain ⟨goal, hfind, -, hrunning, -, -, hstore⟩ := hexhaust
  cases hstore
  obtain ⟨hgoal, hid⟩ := (findGoal_eq_some h.goals).mp hfind
  obtain ⟨hok, hlasting⟩ := ok_requestCancel h id
  have hfind' : findGoal (requestGoalCancel id store) id = some { goal with root.cancelRequested := true } := by
    refine (findGoal_eq_some hok.goals).mpr ⟨mem_map.mpr ⟨goal, hgoal, if_pos hid⟩, hid⟩
  obtain ⟨hok', hlasting'⟩ := ok_end hok hfind' hrunning (.inr rfl)
  exact ⟨hok', hlasting.trans hlasting', still_of_same rfl⟩

end

theorem newestRevision_eq_some {revision : GoalRevision} (h : newestRevision store goalId = some revision) :
    revision ∈ store.revisions ∧ revision.goalId = goalId ∧
      ∀ other ∈ store.revisions, other.goalId = goalId → other.attempts ≤ revision.attempts := by
  have hmem := mem_filter.mp (argmax_mem (mem_def.mpr h))
  refine ⟨hmem.1, of_decide_eq_true hmem.2, fun other hother hgoal => ?_⟩
  exact le_of_mem_argmax (mem_filter.mpr ⟨hother, decide_eq_true hgoal⟩) (mem_def.mpr h)

section

variable (h : StoreOk store) {conditionId : Text}
include h

theorem ok_changeCondition {update : GoalCondition → GoalCondition}
    (hchange : changeCondition goalId revisionId conditionId update store = some store') :
    Lasts store store' := by
  simp only [changeCondition, bind_eq_bind, bind_eq_some_iff, guard_eq_some'] at hchange
  obtain ⟨goal, -, revision, hnewest, -, hid, -, -, -, hopen, conditions, -, hstore⟩ := hchange
  obtain ⟨hrevision, hgoalId, -⟩ := newestRevision_eq_some hnewest
  cases hstore
  refine ⟨⟨h.goals, h.runs, h.holds, ?_, h.verdicts.once, h.verdicts.settled,
    h.verdicts.settledOnce, h.verdicts.known⟩,
    ⟨fun goal hgoal => ⟨goal, hgoal, rfl, rfl, fun _ => rfl⟩, ?_, fun _ hverdict => hverdict,
      fun _ hsettlement => hsettlement⟩, still_of_same rfl⟩
  · refine Table.nodup_map h.verdicts.revisions fun row => ?_
    split <;> rfl
  · -- a row with a verdict is not the one that is still open
    intro row hrow hverdict
    refine mem_map.mpr ⟨row, hrow, if_neg fun hsame => ?_⟩
    have heq : row = revision := Table.eq_of_key h.verdicts.revisions hrow hrevision hsame
    rw [heq, hgoalId] at hverdict
    exact hverdict (isNone_iff_eq_none.mp hopen)

theorem ok_propose {support : List ConditionSupport}
    (hpropose : proposeGoalConditionSupport supported goalId revisionId conditionId support store =
      some store') : Lasts store store' := by
  simp only [proposeGoalConditionSupport, bind_eq_bind, bind_eq_some_iff] at hpropose
  obtain ⟨-, -, hchange⟩ := hpropose
  exact ok_changeCondition h hchange

end

structure Acceptable (store : Store) (goal : TeamGoal) (revision : GoalRevision) : Prop where
  completed : goal.status = .completed
  mem : revision ∈ store.revisions
  goalId : revision.goalId = goal.id
  newest : ∀ other ∈ store.revisions, other.goalId = goal.id → other.attempts ≤ revision.attempts
  passed : revision.conditions ≠ [] ∧ ∀ condition ∈ revision.conditions, condition.status = .pass
  settled : goal.root.reservedTokens = 0
  ended : ∀ run ∈ store.runs, goal.owns run → run.status.isTerminal
  closed : ∀ effect ∈ goalEffects store goal, effect.status.isOpen = false ∧ effect.status ≠ .paused ∧
    effect.status ≠ .uncertain

section

variable (h : GoalsOk store.goals) {id : Text} (hfind : findGoal store id = some goal)
include h hfind

theorem eq_of_findGoal {other : TeamGoal} (hother : other ∈ store.goals) (hid : other.id = id) :
    other = goal := by
  obtain ⟨hgoal, hgoalId⟩ := (findGoal_eq_some h).mp hfind
  exact Table.eq_of_key h.ids hother hgoal (hid.trans hgoalId.symm)

theorem goalsOk_setStatus (hholds : goal.status.holdsGroup) (status : GoalStatus) :
    GoalsOk (setStatus store id status).goals := by
  refine goalsOk_map h (sameGoal_if (sameGoal_status status) id) fun other hother => ?_
  split
  · next hid =>
    rw [eq_of_findGoal h hfind hother hid]
    exact fun _ => hholds
  · exact fun hsame => hsame

end

section

variable (h : StoreOk store)
include h

theorem runsOk_setStatus (id : Text) (status : GoalStatus) :
    RunsOk (setStatus store id status).goals store.runs :=
  runsOk_goals h.runs (sameGoal_if (sameGoal_status status) id)

theorem lasting_setStatus {id : Text} (hfind : findGoal store id = some goal)
    (hopen : goal.status.isFinal = false) (status : GoalStatus) :
    ∀ other ∈ store.goals, ∃ other' ∈ (setStatus store id status).goals, other'.id = other.id ∧
      other'.rootTaskId = other.rootTaskId ∧ (other.status.isFinal → other'.status = other.status) := by
  intro other hother
  have hsame := sameGoal_if (sameGoal_status status) id
  refine ⟨_, mem_map_of_mem hother, hsame.id other, hsame.rootTaskId other, fun hfinal => ?_⟩
  split
  · next hid =>
    rw [eq_of_findGoal h.goals hfind hother hid, hopen] at hfinal
    cases hfinal
  · rfl

theorem holdsOk_setStatus {id : Text} (hfind : findGoal store id = some goal)
    (hfrozen : status.isFrozen → goal.status.isFrozen) :
    HoldsOk (setStatus store id status).goals store.runs store.effects := by
  refine holdsOk_goals h.holds (sameGoal_if (sameGoal_status status) id) fun other hother => ?_
  split
  · next hid =>
    rw [eq_of_findGoal h.goals hfind hother hid]
    exact hfrozen
  · exact fun hsame => hsame

theorem ok_accept {collecting : Bool}
    (haccept : acceptGoal collecting actorId goalId revisionId store = some store') :
    Lasts store store' ∧
      (store' = store ∨ ∃ goal ∈ store.goals, goal.id = goalId ∧ (∃ revision, Acceptable store goal revision) ∧
        store'.goals = (setStatus store goalId .accepted).goals) := by
  simp only [acceptGoal, bind_eq_bind, bind_eq_some_iff, guard_eq_some'] at haccept
  obtain ⟨goal, hfind, revision, hnewest, -, hid, haccept⟩ := haccept
  obtain ⟨hgoal, hgoalId⟩ := (findGoal_eq_some h.goals).mp hfind
  obtain ⟨hrevision, hrevisionGoal, hle⟩ := newestRevision_eq_some hnewest
  split at haccept
  · split at haccept
    · cases haccept
      exact ⟨⟨h, lasting_of_same rfl rfl rfl rfl, still_of_same rfl⟩, .inl rfl⟩
    · cases haccept
  · next hverdict =>
    simp only [bind_eq_some_iff, guard_eq_some'] at haccept
    obtain ⟨-, hcompleted, -, hreserved, -, hruns, -, heffects, -, -, -, hpass, -, hsettlement, hstore⟩ := haccept
    cases hstore
    have hacceptable : Acceptable store goal revision := by
      refine ⟨hcompleted, hrevision, hrevisionGoal.trans hgoalId.symm, fun other hother hsame =>
        hle other hother (hsame.trans hgoalId), ?_, hreserved, ?_, ?_⟩
      · simpa [conditionsPass] using hpass
      · intro run hrun howns
        simp only [not_eq_true', any_eq_false, and_eq_true, not_and] at hruns
        simpa using hruns run hrun howns
      · intro effect heffect
        simp only [not_eq_true', any_eq_false, or_eq_true, decide_eq_true_eq, not_or] at heffects
        obtain ⟨⟨⟨⟨hintended, happroved⟩, hexecuting⟩, hpaused⟩, huncertain⟩ := heffects effect heffect
        refine ⟨?_, hpaused, huncertain⟩
        simp [EffectStatus.isOpen, hintended, happroved, hexecuting]
    have hfree : ∀ settlement ∈ store.settlements, settlement.goalId ≠ goalId := by
      simpa [any_eq_false] using hsettlement
    have hsame := sameGoal_if (sameGoal_status .accepted) goalId
    refine ⟨⟨⟨goalsOk_setStatus h.goals hfind (by rw [hcompleted]; rfl) _, runsOk_setStatus h _ _,
      holdsOk_setStatus h hfind fun _ => by rw [hcompleted]; rfl, ?_⟩, ⟨?_, ?_, ?_, ?_⟩, ?_⟩,
      .inr ⟨goal, hgoal, hgoalId, ⟨revision, hacceptable⟩, rfl⟩⟩
    · refine ⟨h.verdicts.revisions, ?_, ?_, ?_, ?_⟩
      · rw [map_cons, nodup_cons]
        rw [hid] at hverdict
        exact ⟨findVerdict_eq_none.mp hverdict, h.verdicts.once⟩
      · intro other' hother'
        obtain ⟨other, hother, rfl⟩ := mem_map.mp hother'
        rw [hsame.id, map_cons, mem_cons]
        split
        · next hother => exact iff_of_true rfl (.inl hother)
        · next hdifferent =>
          rw [h.verdicts.settled other hother]
          exact ⟨.inr, fun hmem => hmem.resolve_left hdifferent⟩
      · exact Table.nodup_cons h.verdicts.settledOnce hfree
      · refine forall_mem_cons.mpr ⟨⟨_, mem_map_of_mem hgoal, (hsame.id goal).trans hgoalId⟩, ?_⟩
        intro settlement hmem
        obtain ⟨other, hother, hotherId⟩ := h.verdicts.known settlement hmem
        exact ⟨_, mem_map_of_mem hother, (hsame.id other).trans hotherId⟩
    · exact lasting_setStatus h hfind (by rw [hcompleted]; rfl) _
    · exact fun row hrow _ => hrow
    · exact fun verdict hmem => mem_cons_of_mem _ hmem
    · exact fun settlement hmem => mem_cons_of_mem _ hmem
    · exact still_of_same rfl

theorem ok_reject {reworkNotes : Text}
    (hreject : rejectGoal actorId goalId revisionId reworkNotes store = some store') :
    Lasts store store' := by
  simp only [rejectGoal, bind_eq_bind, bind_eq_some_iff, guard_eq_some'] at hreject
  obtain ⟨goal, hfind, revision, hnewest, -, hid, hreject⟩ := hreject
  split at hreject
  · split at hreject
    · cases hreject
      exact ⟨h, lasting_of_same rfl rfl rfl rfl, still_of_same rfl⟩
    · cases hreject
  · next hverdict =>
    simp only [bind_eq_some_iff, guard_eq_some'] at hreject
    obtain ⟨-, hcompleted, hstore⟩ := hreject
    cases hstore
    have hsame := sameGoal_if (sameGoal_status .running) goalId
    refine ⟨⟨goalsOk_setStatus h.goals hfind (by rw [hcompleted]; rfl) _, runsOk_setStatus h _ _,
      holdsOk_setStatus h hfind (fun hrunning => by cases hrunning), ?_⟩, ⟨?_, ?_, ?_, ?_⟩, still_of_same rfl⟩
    · have hstatuses := verdictsOk_goals h.verdicts hsame fun other hother => by
        split
        · next hotherId =>
          rw [eq_of_findGoal h.goals hfind hother hotherId, hcompleted]
          exact iff_of_false (fun heq => by cases heq) (fun heq => by cases heq)
        · exact Iff.rfl
      refine ⟨h.verdicts.revisions, ?_, hstatuses.settled, h.verdicts.settledOnce, hstatuses.known⟩
      rw [map_cons, nodup_cons]
      rw [hid] at hverdict
      exact ⟨findVerdict_eq_none.mp hverdict, h.verdicts.once⟩
    · exact lasting_setStatus h hfind (by rw [hcompleted]; rfl) _
    · exact fun row hrow _ => hrow
    · exact fun verdict hmem => mem_cons_of_mem _ hmem
    · exact fun settlement hmem => hmem

theorem ok_start {run : GoalRun} (hstart : startGoal goal run store = some store') : Lasts store store' := by
  simp only [startGoal, bind_eq_bind, bind_eq_some_iff, guard_eq_some', not_eq_true',
    any_eq_false, and_eq_true, or_eq_true, decide_eq_true_eq, not_or, not_and, not_eq_true]
    at hstart
  obtain ⟨-, hgroup, -, hkeys, -, hruns, -, heffects, hstore⟩ := hstart
  cases hstore
  refine ⟨⟨?_, ?_, ?_, ?_⟩, ⟨?_, fun _ hrevision _ => hrevision, fun _ hverdict => hverdict,
    fun _ hsettlement => hsettlement⟩, still_of_same rfl⟩
  · exact goalsOk_cons h.goals (fun other hother => (hkeys other hother).1) (fun other hother =>
      (hkeys other hother).2)
      hgroup
  · have hruns' := @runsOk_goal _ _ h.runs { goal with status := .running } fun other hother =>
        (hruns other hother).1.2
    refine runsOk_cons hruns' (fun other hother => (hruns other hother).1.1) ?_ ?_
    · rintro id hid
      exact ⟨_, mem_cons_self, some.inj hid⟩
    · intro other hother hid
      obtain rfl | hother := mem_cons.mp hother
      · rfl
      · exact absurd (some.inj hid).symm (hkeys other hother).1
  · exact holdsOk_run (holdsOk_goal h.holds rfl) heffects
  · exact verdictsOk_goal h.verdicts (fun other hother => (hkeys other hother).1) (fun heq => by cases heq)
  · exact fun other hother => ⟨other, mem_cons_of_mem _ hother, rfl, rfl, fun _ => rfl⟩

end

theorem sameLink_cancel (held : GoalRun → Bool) :
    SameLink fun run => if held run then { run with status := .cancelled, leaseExpiresAt := none } else run where
  id run := by
    split <;> rfl
  goalId run := by
    split <;> rfl
  rootTaskId run := by
    split <;> rfl

theorem settleFrozenEffect_spec (effect : GoalEffect) :
    (settleFrozenEffect effect).id = effect.id ∧ (settleFrozenEffect effect).runId = effect.runId ∧
      (settleFrozenEffect effect).kind = effect.kind ∧ (settleFrozenEffect effect).status.isOpen = false := by
  rw [settleFrozenEffect]
  split
  · exact ⟨rfl, rfl, rfl, rfl⟩
  · next hnot =>
    split
    · exact ⟨rfl, rfl, rfl, rfl⟩
    · next hother =>
      simp only [or_eq_true, decide_eq_true_eq, not_or] at hnot
      simp [EffectStatus.isOpen, hnot.1.1, hnot.1.2, hother]

theorem holdsOk_settle (h : HoldsOk store.goals store.runs store.effects) (held : GoalRun → Bool) :
    HoldsOk store.goals (settleFrozenGoalRuns held store).runs (settleFrozenGoalRuns held store).effects := by
  refine holdsOk_runs (holdsOk_effects h fun effect _ => ?_) (sameLink_cancel held)
  split
  · obtain ⟨-, hrunId, hkind, hclosed⟩ := settleFrozenEffect_spec effect
    refine ⟨hrunId, hkind, fun hopen => ?_⟩
    rw [hclosed] at hopen
    cases hopen
  · exact ⟨rfl, rfl, fun hopen => hopen⟩

theorem still_settle (held : GoalRun → Bool) (store : Store) :
    Still store (settleFrozenGoalRuns held store) := by
  refine still_of_map rfl (fun effect => ?_) fun effect _ => ?_
  · split
    · exact (settleFrozenEffect_spec effect).1
    · rfl
  · split
    · exact fun hexecuting =>
        absurd hexecuting
        (fun heq => by simpa [heq, EffectStatus.isOpen]
        using (settleFrozenEffect_spec effect).2.2.2)
    · exact fun hexecuting => hexecuting

theorem mem_goalEffects {effect : GoalEffect} : effect ∈ goalEffects store goal ↔
      effect ∈ store.effects ∧ ∃ run ∈ store.runs, run.id = effect.runId ∧ goal.owns run := by
  simp only [goalEffects, mem_filter, any_eq_true, and_eq_true, decide_eq_true_eq]

theorem ok_submit (h : StoreOk store) {summary : Text}
    (hsubmit : commitGoalSubmission goalId revisionId summary store = some store') : Lasts store store' := by
  simp only [commitGoalSubmission, bind_eq_bind, bind_eq_some_iff, guard_eq_some'] at hsubmit
  obtain ⟨goal, hfind, -, hrunning, -, -, -, hclosed, -, hfresh, hstore⟩ := hsubmit
  obtain ⟨hgoal, hgoalId⟩ := (findGoal_eq_some h.goals).mp hfind
  have hsame := sameGoal_if (sameGoal_status .completed) goalId
  generalize hheld : (fun run => goal.owns run && heldAtSubmission run) = held at hstore hclosed
  have hclosed' : ∀ effect ∈ goalEffects (settleFrozenGoalRuns held (setStatus store goalId .completed)) goal,
      effect.status.isOpen = false := by
    intro effect heffect
    simp only [not_eq_true', any_eq_false, or_eq_true, decide_eq_true_eq, not_or] at hclosed
    obtain ⟨⟨hintended, happroved⟩, hexecuting⟩ := hclosed effect heffect
    simp [EffectStatus.isOpen, hintended, happroved, hexecuting]
  have hruns := runsOk_map (runsOk_setStatus h goalId .completed) (sameLink_cancel held)
  cases hstore
  refine ⟨⟨goalsOk_setStatus h.goals hfind (by rw [hrunning]; rfl) _, hruns, ?_, ?_⟩, ⟨?_, ?_, ?_, ?_⟩, ?_⟩
  · have htied := holdsOk_settle h.holds held
    refine ⟨htied.tied, ?_⟩
    intro other' hother' hfrozen effect heffect hkind run hrun hid howns'
    obtain ⟨other, hother, rfl⟩ := mem_map.mp hother'
    rw [owns_map hsame] at howns'
    by_cases hotherId : other.id = goalId
    · rw [eq_of_findGoal h.goals hfind hother hotherId] at howns'
      exact hclosed' effect (mem_goalEffects.mpr ⟨heffect, run, hrun, hid, howns'⟩)
    · rw [if_neg hotherId] at hfrozen
      exact htied.still other hother hfrozen effect heffect hkind run hrun hid howns'
  · have hstatuses := verdictsOk_goals h.verdicts hsame fun other hother => by
      split
      · next hotherId =>
        rw [eq_of_findGoal h.goals hfind hother hotherId, hrunning]
        exact iff_of_false (fun heq => by cases heq) (fun heq => by cases heq)
      · exact Iff.rfl
    refine ⟨Table.nodup_cons h.verdicts.revisions ?_, h.verdicts.once, hstatuses.settled, h.verdicts.settledOnce,
      hstatuses.known⟩
    simpa [any_eq_false] using hfresh
  · exact lasting_setStatus h hfind (by rw [hrunning]; rfl) _
  · exact fun row hrow _ => mem_cons_of_mem _ hrow
  · exact fun verdict hmem => hmem
  · exact fun settlement hmem => hmem
  · exact still_settle held store

end ArdurBot.Goals
