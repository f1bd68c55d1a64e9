import ArdurBot.Goals.Review
import ArdurBot.Lib.Table

/-!
# What the rows of goals keep

The invariants are stated for each kind of row, with what each change of the rows has to show for
them: that the keys of goals stay and a group keeps one active goal, that a run keeps the goal it is
linked to, that no message to a peer is held for a frozen goal, and that a verdict and a settlement
are written once.
-/

namespace ArdurBot.Goals

open List Utf16 ArdurBot.Core

/-- Goals have distinct ids and root tasks, and a group has one active goal at most. -/
structure GoalsOk (goals : List TeamGoal) : Prop where
  ids : (goals.map TeamGoal.id).Nodup
  roots : (goals.map TeamGoal.rootTaskId).Nodup
  groups : ∀ goal ∈ goals, ∀ other ∈ goals, goal.groupId = other.groupId → goal.status.holdsGroup →
    other.status.holdsGroup → goal = other

/-- A change of a goal that leaves what it is known by. -/
structure SameGoal (update : TeamGoal → TeamGoal) : Prop where
  id : ∀ goal, (update goal).id = goal.id
  groupId : ∀ goal, (update goal).groupId = goal.groupId
  rootTaskId : ∀ goal, (update goal).rootTaskId = goal.rootTaskId

variable {goals : List TeamGoal} {update : TeamGoal → TeamGoal} {goal : TeamGoal} {store : Store}
  {runs : List GoalRun} {run : GoalRun} {effects : List GoalEffect} {revisions : List GoalRevision}
  {verdicts : List GoalVerdict} {settlements : List GoalSettlement}

theorem goalsOk_map (h : GoalsOk goals) (hsame : SameGoal update)
    (hholds : ∀ goal ∈ goals, (update goal).status.holdsGroup → goal.status.holdsGroup) :
    GoalsOk (goals.map update) := by
  refine ⟨Table.nodup_map h.ids hsame.id, Table.nodup_map h.roots hsame.rootTaskId, ?_⟩
  · intro goal' hgoal' other' hother' hgroup hholds' hholdsOther'
    obtain ⟨goal, hgoal, rfl⟩ := mem_map.mp hgoal'
    obtain ⟨other, hother, rfl⟩ := mem_map.mp hother'
    rw [hsame.groupId, hsame.groupId] at hgroup
    rw [h.groups goal hgoal other hother hgroup (hholds goal hgoal hholds') (hholds other hother hholdsOther')]

theorem goalsOk_cons (h : GoalsOk goals) (hid : ∀ other ∈ goals, other.id ≠ goal.id)
    (hroot : ∀ other ∈ goals, other.rootTaskId ≠ goal.rootTaskId)
    (hgroup : ∀ other ∈ goals, other.groupId = goal.groupId → other.status.holdsGroup = false) :
    GoalsOk (goal :: goals) := by
  refine ⟨Table.nodup_cons h.ids hid, Table.nodup_cons h.roots hroot, ?_⟩
  · intro a ha b hb hsame hholds hholds'
    obtain rfl | ha := mem_cons.mp ha
    · obtain rfl | hb := mem_cons.mp hb
      · rfl
      · rw [hgroup b hb hsame.symm] at hholds'
        cases hholds'
    · obtain heq | hb := mem_cons.mp hb
      · rw [hgroup a ha (hsame.trans (congrArg TeamGoal.groupId heq))] at hholds
        cases hholds
      · exact h.groups a ha b hb hsame hholds hholds'

theorem findGoal_eq_some (h : GoalsOk store.goals) {id : Text} :
    findGoal store id = some goal ↔ goal ∈ store.goals ∧ goal.id = id := Table.find_eq_some h.ids

theorem findRoot_eq_some (h : GoalsOk store.goals) {rootTaskId : Text} :
    findRoot store rootTaskId = some goal ↔ goal ∈ store.goals ∧ goal.rootTaskId = rootTaskId :=
  Table.find_eq_some h.roots

/-- A run that has a goal has its root task too. -/
structure RunsOk (goals : List TeamGoal) (runs : List GoalRun) : Prop where
  ids : (runs.map GoalRun.id).Nodup
  known : ∀ run ∈ runs, ∀ id, run.goalId = some id → ∃ goal ∈ goals, goal.id = id
  roots : ∀ run ∈ runs, ∀ goal ∈ goals, run.goalId = some goal.id → run.rootTaskId = some goal.rootTaskId

theorem RunsOk.root_of_owns (h : RunsOk goals runs) (hgoal : goal ∈ goals) (hrun : run ∈ runs)
    (howns : goal.owns run) :
    run.rootTaskId = some goal.rootTaskId := by
  rw [TeamGoal.owns, Bool.or_eq_true, decide_eq_true_eq, decide_eq_true_eq] at howns
  obtain hid | hroot := howns
  · exact h.roots run hrun goal hgoal hid
  · exact hroot

theorem owns_map (hsame : SameGoal update) (goal : TeamGoal) (run : GoalRun) :
    (update goal).owns run = goal.owns run := by
  rw [TeamGoal.owns, TeamGoal.owns, hsame.id, hsame.rootTaskId]

theorem runsOk_goals (h : RunsOk goals runs) (hsame : SameGoal update) : RunsOk (goals.map update) runs := by
  refine ⟨h.ids, ?_, ?_⟩
  · intro run hrun id hid
    obtain ⟨goal, hgoal, hgoalId⟩ := h.known run hrun id hid
    exact ⟨update goal, mem_map_of_mem hgoal, (hsame.id goal).trans hgoalId⟩
  · intro run hrun goal' hgoal' hid
    obtain ⟨goal, hgoal, rfl⟩ := mem_map.mp hgoal'
    rw [hsame.rootTaskId]
    rw [hsame.id] at hid
    exact h.roots run hrun goal hgoal hid

/-- A change of a run that leaves what it belongs to. -/
structure SameLink (update : GoalRun → GoalRun) : Prop where
  id : ∀ run, (update run).id = run.id
  goalId : ∀ run, (update run).goalId = run.goalId
  rootTaskId : ∀ run, (update run).rootTaskId = run.rootTaskId

theorem runsOk_map (h : RunsOk goals runs) {update : GoalRun → GoalRun} (hsame : SameLink update) :
    RunsOk goals (runs.map update) := by
  refine ⟨Table.nodup_map h.ids hsame.id, ?_, ?_⟩
  · intro run' hrun' id hid
    obtain ⟨run, hrun, rfl⟩ := mem_map.mp hrun'
    rw [hsame.goalId] at hid
    exact h.known run hrun id hid
  · intro run' hrun' goal hgoal hid
    obtain ⟨run, hrun, rfl⟩ := mem_map.mp hrun'
    rw [hsame.goalId] at hid
    rw [hsame.rootTaskId]
    exact h.roots run hrun goal hgoal hid

theorem runsOk_cons (h : RunsOk goals runs) (hfresh : ∀ other ∈ runs, other.id ≠ run.id)
    (hknown : ∀ id, run.goalId = some id → ∃ goal ∈ goals, goal.id = id)
    (hroot : ∀ goal ∈ goals, run.goalId = some goal.id → run.rootTaskId = some goal.rootTaskId) :
    RunsOk goals (run :: runs) := by
  refine ⟨Table.nodup_cons h.ids hfresh, ?_, ?_⟩
  · exact forall_mem_cons.mpr ⟨hknown, h.known⟩
  · exact forall_mem_cons.mpr ⟨hroot, h.roots⟩

theorem runsOk_goal {goals : List TeamGoal} {runs : List GoalRun} (h : RunsOk goals runs) {goal : TeamGoal}
    (hfree : ∀ run ∈ runs, run.goalId ≠ some goal.id) : RunsOk (goal :: goals) runs := by
  refine ⟨h.ids, ?_, ?_⟩
  · intro run hrun id hid
    obtain ⟨other, hother, hotherId⟩ := h.known run hrun id hid
    exact ⟨other, mem_cons_of_mem _ hother, hotherId⟩
  · intro run hrun other hother hid
    obtain rfl | hother := mem_cons.mp hother
    · exact absurd hid (hfree run hrun)
    · exact h.roots run hrun other hother hid

/-- An effect that may still be executed, or is. -/
def EffectStatus.isOpen (status : EffectStatus) : Bool :=
  status = .intended || status = .approved || status = .executing

/-- A message is held for the run of a delegation, and none is held open for a frozen goal. -/
structure HoldsOk (goals : List TeamGoal) (runs : List GoalRun) (effects : List GoalEffect) :
  Prop where
  tied : ∀ effect ∈ effects, effect.kind = peerHold → ∀ run ∈ runs, run.id = effect.runId →
    run.rootTaskId ≠ none
  still : ∀ goal ∈ goals, goal.status.isFrozen → ∀ effect ∈ effects, effect.kind = peerHold →
    ∀ run ∈ runs, run.id = effect.runId → goal.owns run → effect.status.isOpen = false

section

variable (h : HoldsOk goals runs effects)
include h

theorem holdsOk_goals (hsame : SameGoal update)
    (hfrozen : ∀ goal ∈ goals, (update goal).status.isFrozen → goal.status.isFrozen) :
    HoldsOk (goals.map update) runs effects := by
  refine ⟨h.tied, ?_⟩
  intro goal' hgoal' hstatus effect heffect hkind run hrun hid howns
  obtain ⟨goal, hgoal, rfl⟩ := mem_map.mp hgoal'
  rw [owns_map hsame] at howns
  exact h.still goal hgoal (hfrozen goal hgoal hstatus) effect heffect hkind run hrun hid howns

theorem holdsOk_goal (hopen : goal.status.isFrozen = false) : HoldsOk (goal :: goals) runs effects := by
  refine ⟨h.tied, forall_mem_cons.mpr ⟨?_, h.still⟩⟩
  intro hfrozen
  rw [hopen] at hfrozen
  cases hfrozen

theorem holdsOk_runs {update : GoalRun → GoalRun} (hsame : SameLink update) :
    HoldsOk goals (runs.map update) effects := by
  refine ⟨?_, ?_⟩
  · intro effect heffect hkind run' hrun' hid
    obtain ⟨run, hrun, rfl⟩ := mem_map.mp hrun'
    rw [hsame.id] at hid
    rw [hsame.rootTaskId]
    exact h.tied effect heffect hkind run hrun hid
  · intro goal hgoal hfrozen effect heffect hkind run' hrun' hid howns
    obtain ⟨run, hrun, rfl⟩ := mem_map.mp hrun'
    rw [hsame.id] at hid
    rw [TeamGoal.owns, hsame.goalId, hsame.rootTaskId] at howns
    exact h.still goal hgoal hfrozen effect heffect hkind run hrun hid howns

end

theorem holdsOk_run {goals : List TeamGoal} {runs : List GoalRun} {effects : List GoalEffect}
    (h : HoldsOk goals runs effects) {run : GoalRun} (hfree : ∀ effect ∈ effects, effect.runId ≠ run.id) :
    HoldsOk goals (run :: runs) effects := by
  refine ⟨?_, ?_⟩
  · intro effect heffect hkind other hother hid
    obtain rfl | hother := mem_cons.mp hother
    · exact absurd hid.symm (hfree effect heffect)
    · exact h.tied effect heffect hkind other hother hid
  · intro goal hgoal hfrozen effect heffect hkind other hother hid howns
    obtain rfl | hother := mem_cons.mp hother
    · exact absurd hid.symm (hfree effect heffect)
    · exact h.still goal hgoal hfrozen effect heffect hkind other hother hid howns

theorem holdsOk_effects (h : HoldsOk goals runs effects) {update : GoalEffect → GoalEffect}
    (hupdate : ∀ effect ∈ effects, (update effect).runId = effect.runId ∧ (update effect).kind = effect.kind ∧
      ((update effect).status.isOpen → effect.status.isOpen)) :
    HoldsOk goals runs (effects.map update) := by
  refine ⟨?_, ?_⟩
  · intro effect' heffect' hkind run hrun hid
    obtain ⟨effect, heffect, rfl⟩ := mem_map.mp heffect'
    obtain ⟨hrunId, hkindSame, -⟩ := hupdate effect heffect
    exact h.tied effect heffect (hkindSame.symm.trans hkind) run hrun (hid.trans hrunId)
  · intro goal hgoal hfrozen effect' heffect' hkind run hrun hid howns
    obtain ⟨effect, heffect, rfl⟩ := mem_map.mp heffect'
    obtain ⟨hrunId, hkindSame, hopen⟩ := hupdate effect heffect
    have hclosed := h.still goal hgoal hfrozen effect heffect (hkindSame.symm.trans hkind) run hrun
        (hid.trans hrunId) howns
    cases hstatus : (update effect).status.isOpen with
    | false => rfl
    | true =>
      rw [hopen hstatus] at hclosed
      cases hclosed

theorem holdsOk_effect (h : HoldsOk goals runs effects) {effect : GoalEffect}
    (hnew : effect.kind = peerHold → ∀ run ∈ runs, run.id = effect.runId →
      run.rootTaskId ≠ none ∧ ∀ goal ∈ goals, goal.status.isFrozen → goal.owns run = false) :
    HoldsOk goals runs (effect :: effects) := by
  refine ⟨forall_mem_cons.mpr ⟨?_, h.tied⟩, ?_⟩
  · intro hkind run hrun hid
    exact (hnew hkind run hrun hid).1
  · intro goal hgoal hfrozen other hother hkind run hrun hid howns
    obtain rfl | hother := mem_cons.mp hother
    · rw [(hnew hkind run hrun hid).2 goal hgoal hfrozen] at howns
      cases howns
    · exact h.still goal hgoal hfrozen other hother hkind run hrun hid howns

/-- A revision has one verdict at most, and a goal has a settlement exactly if it is accepted. -/
structure VerdictsOk (goals : List TeamGoal) (revisions : List GoalRevision)
  (verdicts : List GoalVerdict)
    (settlements : List GoalSettlement) : Prop where
  revisions : (revisions.map GoalRevision.id).Nodup
  once : (verdicts.map fun verdict => (verdict.goalId, verdict.revisionId)).Nodup
  settled : ∀ goal ∈ goals, goal.status = .accepted ↔ goal.id ∈ settlements.map GoalSettlement.goalId
  settledOnce : (settlements.map GoalSettlement.goalId).Nodup
  known : ∀ settlement ∈ settlements, ∃ goal ∈ goals, goal.id = settlement.goalId

theorem verdictsOk_goals (h : VerdictsOk goals revisions verdicts settlements) (hsame : SameGoal update)
    (haccepted : ∀ goal ∈ goals, (update goal).status = .accepted ↔ goal.status = .accepted) :
    VerdictsOk (goals.map update) revisions verdicts settlements := by
  refine ⟨h.revisions, h.once, ?_, h.settledOnce, ?_⟩
  · intro goal' hgoal'
    obtain ⟨goal, hgoal, rfl⟩ := mem_map.mp hgoal'
    rw [hsame.id, haccepted goal hgoal]
    exact h.settled goal hgoal
  · intro settlement hsettlement
    obtain ⟨goal, hgoal, hid⟩ := h.known settlement hsettlement
    exact ⟨update goal, mem_map_of_mem hgoal, (hsame.id goal).trans hid⟩

theorem verdictsOk_goal (h : VerdictsOk goals revisions verdicts settlements)
    (hid : ∀ other ∈ goals, other.id ≠ goal.id) (hstatus : goal.status ≠ .accepted) :
    VerdictsOk (goal :: goals) revisions verdicts settlements := by
  refine ⟨h.revisions, h.once, forall_mem_cons.mpr ⟨iff_of_false hstatus ?_, h.settled⟩, h.settledOnce, ?_⟩
  · intro hmem
    obtain ⟨settlement, hsettlement, hsame⟩ := mem_map.mp hmem
    obtain ⟨other, hother, hotherId⟩ := h.known settlement hsettlement
    exact hid other hother (hotherId.trans hsame)
  · intro settlement hsettlement
    obtain ⟨other, hother, hotherId⟩ := h.known settlement hsettlement
    exact ⟨other, mem_cons_of_mem _ hother, hotherId⟩

theorem findVerdict_eq_none {goalId revisionId : Text} : findVerdict store goalId revisionId = none ↔
      (goalId, revisionId) ∉ store.verdicts.map fun verdict => (verdict.goalId, verdict.revisionId) := by
  rw [findVerdict, find?_eq_none, mem_map]
  simp only [Bool.and_eq_true, decide_eq_true_eq, not_and, Prod.mk.injEq, not_exists]

end ArdurBot.Goals
