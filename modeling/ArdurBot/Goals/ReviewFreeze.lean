import ArdurBot.Goals.ReviewRun

/-!
# The freeze of a goal under review

What the workers of runs do: they link a run, and record, claim and settle effects. A worker goes by
what it has read of its run, so the freeze holds while it goes by the goal that the run belongs to.
-/

namespace ArdurBot.Goals

open List Utf16 ArdurBot.Core
open Bool hiding not_not not_or
open Option hiding any any_eq_false

/-- The goal that a worker has found is still there, it knows the root task of the goal that it goes
by, and effects have distinct ids. -/
structure WorkersOk (store : Store) : Prop where
  found : ∀ session ∈ store.sessions, ∀ goal, session.found = some goal →
    ∃ row ∈ store.goals, row.id = goal.id ∧ row.rootTaskId = goal.rootTaskId
  linked : ∀ session ∈ store.sessions, session.goalId ≠ none → session.rootTaskId ≠ none
  effects : (store.effects.map GoalEffect.id).Nodup

variable {store store' : Store} {index : ℕ} {effectId goalId idempotencyKey : Text} {now : ℤ}
  {effect : GoalEffect} {status : EffectStatus} {origin : ClaimFrom} {move : EffectMove}
  {run : GoalRun}

theorem found_of_lasting (hwork : WorkersOk store) (hlasting : Lasting store store') :
    ∀ session ∈ store.sessions, ∀ goal, session.found = some goal →
      ∃ row ∈ store'.goals, row.id = goal.id ∧ row.rootTaskId = goal.rootTaskId := by
  intro session hsession goal hfound
  obtain ⟨row, hrow, hid, hroot⟩ := hwork.found session hsession goal hfound
  obtain ⟨row', hrow', hid', hroot', -⟩ := hlasting.goals row hrow
  exact ⟨row', hrow', hid'.trans hid, hroot'.trans hroot⟩

/-- What an operation leaves that is not of a worker: the sessions, and which effects there are. -/
theorem workOk_of_same (hwork : WorkersOk store) (hlasting : Lasting store store')
    (hsessions : store'.sessions = store.sessions)
    (heffects : store'.effects.map GoalEffect.id = store.effects.map GoalEffect.id) : WorkersOk store' := by
  refine ⟨?_, ?_, ?_⟩
  · rw [hsessions]
    exact found_of_lasting hwork hlasting
  · rw [hsessions]
    exact hwork.linked
  · rw [heffects]
    exact hwork.effects

/-- The goals and their review are left as they are. -/
structure SameReview (store store' : Store) : Prop where
  goals : store'.goals = store.goals
  revisions : store'.revisions = store.revisions
  verdicts : store'.verdicts = store.verdicts
  settlements : store'.settlements = store.settlements

abbrev Worked (store store' : Store) : Prop :=
  StoreOk store' ∧ WorkersOk store' ∧ SameReview store store' ∧ Still store store'

theorem ok_sessions (h : StoreOk store) (sessions : List Session) :
    StoreOk { store with sessions } ∧ SameReview store { store with sessions } ∧
      Still store { store with sessions } :=
  ⟨{ h with }, ⟨rfl, rfl, rfl, rfl⟩, still_of_same rfl⟩

section

variable (h : StoreOk store) (hwork : WorkersOk store)
include h hwork

theorem ok_load {runId : Text} (hload : load runId store = some store') : Worked store store' := by
  simp only [load, bind_eq_bind, bind_eq_some_iff, guard_eq_some'] at hload
  obtain ⟨run, hfind, -, -, hstore⟩ := hload
  cases hstore
  obtain ⟨hok, hsame, hstill⟩ := ok_sessions h _
  refine ⟨hok, ⟨?_, ?_, hwork.effects⟩, hsame, hstill⟩
  · intro session hsession goal hfound
    obtain hold | hnew := mem_append.mp hsession
    · exact hwork.found session hold goal hfound
    · rw [mem_singleton.mp hnew] at hfound
      cases hfound
  · intro session hsession hgoalId
    obtain hold | hnew := mem_append.mp hsession
    · exact hwork.linked session hold hgoalId
    · rw [mem_singleton.mp hnew] at hgoalId ⊢
      obtain ⟨id, hid⟩ := ne_none_iff_exists'.mp hgoalId
      have hrun := mem_of_find?_eq_some hfind
      obtain ⟨goal, hgoal, rfl⟩ := h.runs.known run hrun id hid
      show run.rootTaskId ≠ none
      rw [h.runs.roots run hrun goal hgoal hid]
      exact some_ne_none _

theorem ok_find (hfind : findRunning index goalId now store = some store') : Worked store store' := by
  simp only [findRunning, bind_eq_bind, bind_eq_some_iff, guard_eq_some'] at hfind
  obtain ⟨session, hsession, -, -, goal, hgoal, -, -, hstore⟩ := hfind
  cases hstore
  obtain ⟨hok, hsame, hstill⟩ := ok_sessions h _
  refine ⟨hok, ⟨?_, ?_, hwork.effects⟩, hsame, hstill⟩
  · intro other hother found hfound
    obtain hold | heq := mem_or_eq_of_mem_set hother
    · exact hwork.found other hold found hfound
    · rw [heq] at hfound
      cases hfound
      exact ⟨goal, ((findGoal_eq_some h.goals).mp hgoal).1, rfl, rfl⟩
  · intro other hother
    obtain hold | heq := mem_or_eq_of_mem_set hother
    · exact hwork.linked other hold
    · rw [heq]
      exact hwork.linked session (mem_of_getElem? hsession)

theorem ok_link (hlink : linkRun index store = some store') : Worked store store' := by
  simp only [linkRun, bind_eq_bind, bind_eq_some_iff] at hlink
  obtain ⟨session, hsession, goal, hfound, hstore⟩ := hlink
  obtain ⟨row, hrow, hid, hroot⟩ := hwork.found session (mem_of_getElem? hsession) goal hfound
  cases hstore
  refine ⟨⟨h.goals, ⟨?_, ?_, ?_⟩, ⟨?_, ?_⟩, h.verdicts⟩, ⟨?_, ?_, hwork.effects⟩, ⟨rfl, rfl, rfl, rfl⟩,
    still_of_same rfl⟩
  · refine Table.nodup_map h.runs.ids fun run => ?_
    split <;> rfl
  · intro run' hrun' goalId hgoalId
    obtain ⟨run, hrun, rfl⟩ := mem_map.mp hrun'
    split at hgoalId
    · exact ⟨row, hrow, hid.trans (some.inj hgoalId)⟩
    · exact h.runs.known run hrun goalId hgoalId
  · intro run' hrun' other hother hgoalId
    obtain ⟨run, hrun, rfl⟩ := mem_map.mp hrun'
    split at hgoalId
    · next hlinked =>
      have heq : other = row := Table.eq_of_key h.goals.ids hother hrow ((some.inj hgoalId).symm.trans hid.symm)
      rw [if_pos hlinked, heq, hroot]
    · next hlinked =>
      rw [if_neg hlinked]
      exact h.runs.roots run hrun other hother hgoalId
  · intro effect heffect hkind run' hrun' hrunId
    obtain ⟨run, hrun, rfl⟩ := mem_map.mp hrun'
    split at hrunId
    · next hlinked =>
      rw [if_pos hlinked]
      exact some_ne_none _
    · next hlinked =>
      rw [if_neg hlinked]
      exact h.holds.tied effect heffect hkind run hrun hrunId
  · intro other hother hfrozen effect heffect hkind run' hrun' hrunId howns
    obtain ⟨run, hrun, rfl⟩ := mem_map.mp hrun'
    split at hrunId
    · next hlinked =>
      simp only [and_eq_true, isNone_iff_eq_none] at hlinked
      exact absurd hlinked.2 (h.holds.tied effect heffect hkind run hrun hrunId)
    · next hlinked =>
      rw [if_neg hlinked] at howns
      exact h.holds.still other hother hfrozen effect heffect hkind run hrun hrunId howns
  · intro other hother found hother'
    obtain hold | heq := mem_or_eq_of_mem_set hother
    · exact hwork.found other hold found hother'
    · rw [heq] at hother'
      cases hother'
  · intro other hother hgoalId
    obtain hold | heq := mem_or_eq_of_mem_set hother
    · exact hwork.linked other hold hgoalId
    · rw [heq]
      exact some_ne_none _

end

/-- If the run belongs to a frozen goal, then it is that goal by which the worker goes. -/
def Session.Follows (session : Session) (store : Store) : Prop :=
  ∀ goal ∈ store.goals, goal.status.isFrozen → ∀ run ∈ store.runs, run.id = session.runId →
    goal.owns run → session.linkedGoalId store = some goal.id

theorem createEffect_eq_some (h : createEffect effect store = some store') :
    (∀ other ∈ store.effects, other.id ≠ effect.id) ∧ store' = { store with effects := effect :: store.effects } := by
  simp only [createEffect, bind_eq_bind, bind_eq_some_iff, guard_eq_some', not_eq_true',
    any_eq_false, or_eq_true, decide_eq_true_eq, not_or] at h
  obtain ⟨-, hfresh, hstore⟩ := h
  exact ⟨fun other hother => (hfresh other hother).1, (some.inj hstore).symm⟩

theorem still_of_cons (heffects : store'.effects = effect :: store.effects) (hruns : store'.runs = store.runs)
    (hfree : ∀ goal ∈ store.goals, goal.status.isFrozen → ∀ run ∈ store.runs, run.id = effect.runId →
      goal.owns run = false) : Still store store' := by
  intro goal hgoal hfrozen effect' heffect'
  obtain ⟨hmem, run, hrun, hid, howns⟩ := mem_goalEffects.mp heffect'
  rw [heffects] at hmem
  obtain rfl | hold := mem_cons.mp hmem
  · rw [hruns] at hrun
    rw [hfree goal hgoal hfrozen run hrun hid] at howns
    cases howns
  · exact ⟨effect', hold, rfl, fun hstatus => hstatus⟩

section

variable (h : StoreOk store) (hwork : WorkersOk store)
include h hwork

theorem ok_newEffect (hfresh : ∀ other ∈ store.effects, other.id ≠ effect.id)
    (hkind : effect.kind ≠ peerHold) :
    StoreOk { store with effects := effect :: store.effects } ∧
      WorkersOk { store with effects := effect :: store.effects } ∧
      SameReview store { store with effects := effect :: store.effects } :=
  ⟨{ h with holds := holdsOk_effect h.holds fun hhold => absurd hhold hkind },
    ⟨hwork.found, hwork.linked, Table.nodup_cons hwork.effects hfresh⟩, ⟨rfl, rfl, rfl, rfl⟩⟩

theorem ok_record {kind : Text}
    (hrecord : recordEffect index effectId kind idempotencyKey store = some store') :
    (StoreOk store' ∧ WorkersOk store' ∧ SameReview store store') ∧
      ((∀ session, store.sessions[index]? = some session → session.Follows store) → Still store store') := by
  simp only [recordEffect, bind_eq_bind, bind_eq_some_iff, guard_eq_some'] at hrecord
  obtain ⟨session, hsession, -, hkind, hrecord⟩ := hrecord
  split at hrecord
  · next goalId rootTaskId hlinked hroot =>
    simp only [admitGoalRunEffect, bind_eq_bind, bind_eq_some_iff, guard_eq_some'] at hrecord
    obtain ⟨goal, hfind, -, hopen, hcreate⟩ := hrecord
    obtain ⟨hfresh, rfl⟩ := createEffect_eq_some hcreate
    refine ⟨ok_newEffect h hwork hfresh hkind, fun hfollows => still_of_cons rfl rfl ?_⟩
    intro other hother hfrozen run hrun hid
    rw [eq_false_iff]
    intro howns
    have hsame := hfollows session hsession other hother hfrozen run hrun hid howns
    rw [hlinked] at hsame
    rw [← eq_of_findGoal h.goals hfind hother (some.inj hsame).symm, hfrozen] at hopen
    cases hopen
  · next hunlinked =>
    obtain ⟨hfresh, rfl⟩ := createEffect_eq_some hrecord
    refine ⟨ok_newEffect h hwork hfresh hkind, fun hfollows => still_of_cons rfl rfl ?_⟩
    intro other hother hfrozen run hrun hid
    rw [eq_false_iff]
    intro howns
    have hlinked := hfollows session hsession other hother hfrozen run hrun hid howns
    -- a worker that goes by a goal knows its root task
    have hroot : session.rootTaskId ≠ none := by
      intro hnone
      cases hgoalId : session.goalId with
      | none =>
        rw [Session.linkedGoalId, hgoalId, hnone] at hlinked
        cases hlinked
      | some id =>
        have hgoal : session.goalId ≠ none := hgoalId ▸ some_ne_none id
        exact hwork.linked session (mem_of_getElem? hsession) hgoal hnone
    obtain ⟨rootTaskId, hrootTaskId⟩ := ne_none_iff_exists'.mp hroot
    exact hunlinked other.id rootTaskId hlinked hrootTaskId

theorem ok_setEffect (hfind : store.effects.find? (fun effect => effect.id = effectId) = some effect)
    (hopen : status.isOpen → effect.status.isOpen) :
    StoreOk (setEffect store effectId status) ∧ WorkersOk (setEffect store effectId status) ∧
      SameReview store (setEffect store effectId status) := by
  obtain ⟨heffect, hid⟩ := (Table.find_eq_some hwork.effects).mp hfind
  refine ⟨⟨h.goals, h.runs, ?_, h.verdicts⟩, ⟨hwork.found, hwork.linked, ?_⟩, ⟨rfl, rfl, rfl, rfl⟩⟩
  · refine holdsOk_effects h.holds fun other hother => ?_
    split
    · next hsame =>
      rw [Table.eq_of_key hwork.effects hother heffect (hsame.trans hid.symm)]
      exact ⟨rfl, rfl, hopen⟩
    · exact ⟨rfl, rfl, fun hstatus => hstatus⟩
  · refine Table.nodup_map hwork.effects fun other => ?_
    split <;> rfl

end

theorem claimExternalEffect_eq_some (h : claimExternalEffect origin effectId store = some store') :
    ∃ effect, store.effects.find? (fun effect => effect.id = effectId) = some effect ∧
      effect.status = origin.status ∧ store' = setEffect store effectId .executing := by
  simp only [claimExternalEffect, bind_eq_bind, bind_eq_some_iff, guard_eq_some'] at h
  obtain ⟨effect, hfind, -, hstatus, hstore⟩ := h
  exact ⟨effect, hfind, hstatus, (some.inj hstore).symm⟩

theorem ok_claimExternal (h : StoreOk store) (hwork : WorkersOk store)
    (hclaim : claimExternalEffect origin effectId store = some store') :
    StoreOk store' ∧ WorkersOk store' ∧ SameReview store store' := by
  obtain ⟨effect, hfind, hstatus, rfl⟩ := claimExternalEffect_eq_some hclaim
  refine ok_setEffect h hwork hfind fun _ => ?_
  rw [hstatus]
  cases origin <;> rfl

theorem still_of_claim (hwork : WorkersOk store)
    (hfind : store.effects.find? (fun effect => effect.id = effectId) = some effect)
    (hfree : ∀ goal ∈ store.goals, goal.status.isFrozen → ∀ run ∈ store.runs, run.id = effect.runId →
      goal.owns run = false) : Still store (setEffect store effectId .executing) := by
  obtain ⟨heffect, hid⟩ := (Table.find_eq_some hwork.effects).mp hfind
  intro goal hgoal hfrozen effect' heffect'
  obtain ⟨hmem, run, hrun, hrunId, howns⟩ := mem_goalEffects.mp heffect'
  obtain ⟨other, hother, rfl⟩ := mem_map.mp hmem
  by_cases hsame : other.id = effectId
  · have heq : other = effect := Table.eq_of_key hwork.effects hother heffect (hsame.trans hid.symm)
    rw [if_pos hsame, heq] at hrunId
    rw [hfree goal hgoal hfrozen run hrun hrunId] at howns
    cases howns
  · rw [if_neg hsame]
    exact ⟨other, hother, rfl, fun hstatus => hstatus⟩

def askedGoal (goalId rootTaskId : Option Text) (store : Store) : Option TeamGoal :=
  match goalId with
  | some goalId => findGoal store goalId
  | none => rootTaskId.bind (findRoot store)

theorem askedGoal_of_linked (h : StoreOk store) {session : Session} {goal : TeamGoal}
    (hgoal : goal ∈ store.goals) (hlinked : session.linkedGoalId store = some goal.id) :
    askedGoal session.goalId session.rootTaskId store = some goal := by
  cases hgoalId : session.goalId with
  | some id =>
    rw [Session.linkedGoalId, hgoalId] at hlinked
    exact (findGoal_eq_some h.goals).mpr ⟨hgoal, (some.inj hlinked).symm⟩
  | none =>
    rw [Session.linkedGoalId, hgoalId] at hlinked
    obtain ⟨other, hother, hid⟩ := map_eq_some_iff.mp hlinked
    obtain ⟨rootTaskId, hroot, hfind⟩ := bind_eq_some_iff.mp hother
    obtain ⟨hmem, -⟩ := (findRoot_eq_some h.goals).mp hfind
    rw [askedGoal, hroot, bind_some, hfind, Table.eq_of_key h.goals.ids hmem hgoal hid]

theorem claimGoalRunEffect_eq_some {goalId rootTaskId : Option Text}
    (h : claimGoalRunEffect goalId rootTaskId origin effectId store = some store') :
    claimExternalEffect origin effectId store = some store' ∧
      ∀ goal, askedGoal goalId rootTaskId store = some goal → goal.status = .running := by
  have hclaims : (askedGoal goalId rootTaskId store).elim
      (if goalId.isSome then none else claimExternalEffect origin effectId store)
      (fun goal => if goal.status = .running then claimExternalEffect origin effectId store
        else none) = some store' := by
    rw [← h]
    unfold claimGoalRunEffect askedGoal
    cases goalId with
    | none =>
      cases rootTaskId.bind (findRoot store) <;> rfl
    | some goalId =>
      dsimp only
      cases findGoal store goalId <;> rfl
  cases hgoal : askedGoal goalId rootTaskId store with
  | none =>
    rw [hgoal, elim_none] at hclaims
    split at hclaims
    · cases hclaims
    · exact ⟨hclaims, fun _ hsome => by cases hsome⟩
  | some goal =>
    rw [hgoal, elim_some] at hclaims
    split at hclaims
    · next hrunning =>
      refine ⟨hclaims, fun other hother => ?_⟩
      rwa [← some.inj hother]
    · cases hclaims

theorem ok_claim (h : StoreOk store) (hwork : WorkersOk store)
    (hclaim : claimEffect index origin effectId store = some store') :
    (StoreOk store' ∧ WorkersOk store' ∧ SameReview store store') ∧
      ((∀ session, store.sessions[index]? = some session → session.Follows store) → Still store store') := by
  simp only [claimEffect, bind_eq_bind, bind_eq_some_iff, guard_eq_some'] at hclaim
  obtain ⟨session, hsession, effect, hfind, -, hrunId, hclaim⟩ := hclaim
  have hasked : claimExternalEffect origin effectId store = some store' ∧
      ∀ goal, askedGoal session.goalId session.rootTaskId store = some goal → goal.status = .running := by
    split at hclaim
    · exact claimGoalRunEffect_eq_some hclaim
    · next hunlinked =>
      simp only [or_eq_true, isSome_iff_ne_none, not_or, not_not] at hunlinked
      refine ⟨hclaim, fun goal hgoal => ?_⟩
      rw [hunlinked.1, hunlinked.2] at hgoal
      cases hgoal
  obtain ⟨hexternal, hrunning⟩ := hasked
  refine ⟨ok_claimExternal h hwork hexternal, fun hfollows => ?_⟩
  obtain ⟨claimed, hfind', -, rfl⟩ := claimExternalEffect_eq_some hexternal
  refine still_of_claim hwork hfind fun goal hgoal hfrozen run hrun hid => ?_
  rw [eq_false_iff]
  intro howns
  have hlinked := hfollows session hsession goal hgoal hfrozen run hrun (hid.trans hrunId) howns
  rw [hrunning goal (askedGoal_of_linked h hgoal hlinked)] at hfrozen
  cases hfrozen

/-- The claim of an approved exact write: it holds a message, and none is open for a frozen goal. -/
theorem ok_claimBound (h : StoreOk store) (hwork : WorkersOk store)
    (hclaim : claimPeerBoundEffect effectId store = some store') :
    Worked store store' := by
  simp only [claimPeerBoundEffect, bind_eq_bind, bind_eq_some_iff, guard_eq_some'] at hclaim
  obtain ⟨effect, hfind, -, hkind, hexternal⟩ := hclaim
  obtain ⟨hok, hwork', hsame⟩ := ok_claimExternal h hwork hexternal
  refine ⟨hok, hwork', hsame, ?_⟩
  obtain ⟨claimed, hfind', hstatus, rfl⟩ := claimExternalEffect_eq_some hexternal
  have hsame : claimed = effect := some.inj (hfind'.symm.trans hfind)
  refine still_of_claim hwork hfind fun goal hgoal hfrozen run hrun hid => ?_
  rw [eq_false_iff]
  intro howns
  obtain ⟨heffect, -⟩ := (Table.find_eq_some hwork.effects).mp hfind
  have hclosed := h.holds.still goal hgoal hfrozen effect heffect hkind run hrun hid howns
  rw [← hsame, hstatus] at hclosed
  cases hclosed

theorem EffectMove.target_spec (h : move.target effect = some status) :
    status ≠ .executing ∧ (status.isOpen → effect.status.isOpen) := by
  cases move <;> simp only [target] at h <;> split at h <;> cases h <;>
    simp_all [EffectStatus.isOpen]

section

variable (h : StoreOk store)
include h

theorem ok_moveEffect (hwork : WorkersOk store)
    (hmove : moveEffect move effectId store = some store') : Worked store store' := by
  simp only [moveEffect, bind_eq_bind, bind_eq_some_iff] at hmove
  obtain ⟨effect, hfind, status, htarget, hstore⟩ := hmove
  cases hstore
  obtain ⟨hexecuting, hopen⟩ := EffectMove.target_spec htarget
  obtain ⟨hok, hwork', hsame⟩ := ok_setEffect h hwork hfind hopen
  refine ⟨hok, hwork', hsame, still_of_map rfl (fun other => ?_) fun other _ => ?_⟩
  · split <;> rfl
  · split
    · exact fun hstatus => absurd hstatus hexecuting
    · exact fun hstatus => hstatus

theorem ok_hold (hwork : WorkersOk store) {delegationId rootTaskId : Text}
    (hhold : holdPeerMessage run delegationId rootTaskId effectId idempotencyKey store =
      some store') : Worked store store' := by
  simp only [holdPeerMessage, bind_eq_bind, bind_eq_some_iff, guard_eq_some', not_eq_true',
    any_eq_false, and_eq_true, decide_eq_true_eq] at hhold
  obtain ⟨goal, hfind, -, ⟨hopen, -⟩, -, hlinked, -, hfreshRun, -, hfreeRun, hcreate⟩ := hhold
  obtain ⟨hgoal, hroot⟩ := (findRoot_eq_some h.goals).mp hfind
  obtain ⟨hfresh, rfl⟩ := createEffect_eq_some hcreate
  have hown : ∀ id, run.goalId = some id → id = goal.id := by
    intro id hid
    rw [hid] at hlinked
    exact of_decide_eq_true hlinked
  have hruns : RunsOk store.goals
      ({ run with delegationId := some delegationId, rootTaskId := some rootTaskId } :: store.runs) := by
    refine runsOk_cons h.runs hfreshRun (fun id hid => ⟨goal, hgoal, (hown id hid).symm⟩) fun other hother hid => ?_
    rw [Table.eq_of_key h.goals.ids hother hgoal (hown other.id hid), hroot]
  have hfree : ∀ other ∈ store.goals, other.status.isFrozen → ∀ row ∈
      { run with delegationId := some delegationId, rootTaskId := some rootTaskId } :: store.runs, row.id = run.id →
      other.owns row = false := by
    intro other hother hfrozen row hrow hid
    rw [eq_false_iff]
    intro howns
    have hrow' := Table.eq_of_key hruns.ids hrow mem_cons_self hid
    have hrootOther := hruns.root_of_owns hother hrow howns
    rw [hrow'] at hrootOther
    have heq := Table.eq_of_key h.goals.roots hother hgoal ((some.inj hrootOther).symm.trans hroot.symm)
    rw [heq, hopen] at hfrozen
    cases hfrozen
  refine ⟨⟨h.goals, hruns, ?_, h.verdicts⟩,
    ⟨hwork.found, hwork.linked, Table.nodup_cons hwork.effects hfresh⟩,
    ⟨rfl, rfl, rfl, rfl⟩, ?_⟩
  · have hholds := @holdsOk_run _ _ _ h.holds
      { run with delegationId := some delegationId, rootTaskId := some rootTaskId } hfreeRun
    refine holdsOk_effect hholds fun _ row hrow hid => ⟨?_, fun other hother hfrozen =>
      hfree other hother hfrozen row hrow hid⟩
    rw [Table.eq_of_key hruns.ids hrow mem_cons_self hid]
    exact some_ne_none _
  · intro other hother hfrozen effect heffect
    obtain ⟨hmem, row, hrow, hid, howns⟩ := mem_goalEffects.mp heffect
    obtain rfl | hold := mem_cons.mp hmem
    · rw [hfree other hother hfrozen row hrow hid] at howns
      cases howns
    · exact ⟨effect, hold, rfl, fun hstatus => hstatus⟩

theorem ok_resume (hresume : cancelRunHeldByFrozenGoal index now store = some store') :
    Lasts store store' ∧ ∃ held, store' = settleFrozenGoalRuns held store := by
  simp only [cancelRunHeldByFrozenGoal, bind_eq_bind, bind_eq_some_iff] at hresume
  obtain ⟨session, -, hresume⟩ := hresume
  have hheld : ∃ held, store' = settleFrozenGoalRuns held store := by
    split at hresume <;> simp only [bind_eq_some_iff, bind_none] at hresume
    · obtain ⟨goal, -, -, -, hstore⟩ := hresume
      exact ⟨_, (some.inj hstore).symm⟩
    · obtain ⟨goal, -, -, -, hstore⟩ := hresume
      exact ⟨_, (some.inj hstore).symm⟩
    · cases hresume
  obtain ⟨held, rfl⟩ := hheld
  exact ⟨⟨⟨h.goals, runsOk_map h.runs (sameLink_cancel held), holdsOk_settle h.holds held, h.verdicts⟩,
    lasting_of_same rfl rfl rfl rfl, still_settle held store⟩, held, rfl⟩

theorem ok_createGoalRun (hcreate : createGoalRun run goalId store = some store') : Lasts store store' := by
  simp only [createGoalRun, bind_eq_bind, bind_eq_some_iff, guard_eq_some', not_eq_true',
    any_eq_false, decide_eq_true_eq] at hcreate
  obtain ⟨goal, hfind, -, hlinked, -, hfreshRun, -, hfreeRun, hstore⟩ := hcreate
  cases hstore
  obtain ⟨hgoal, -⟩ := (findGoal_eq_some h.goals).mp hfind
  have hown : ∀ id, run.goalId = some id → id = goal.id := by
    intro id hid
    rw [hid] at hlinked
    exact of_decide_eq_true hlinked
  refine ⟨⟨h.goals, ?_, holdsOk_run h.holds hfreeRun, h.verdicts⟩, lasting_of_same rfl rfl rfl rfl,
    still_of_same rfl⟩
  refine runsOk_cons h.runs hfreshRun (fun id hid => ⟨goal, hgoal, (hown id hid).symm⟩)
    fun other hother hid => ?_
  rw [Table.eq_of_key h.goals.ids hother hgoal (hown other.id hid)]

theorem ok_createPlainRun (hcreate : createPlainRun run store = some store') : Lasts store store' := by
  simp only [createPlainRun, bind_eq_bind, bind_eq_some_iff, guard_eq_some', not_eq_true',
    any_eq_false, decide_eq_true_eq] at hcreate
  obtain ⟨-, -, -, hfreshRun, -, hfreeRun, hstore⟩ := hcreate
  cases hstore
  refine ⟨⟨h.goals, ?_, holdsOk_run h.holds hfreeRun, h.verdicts⟩, lasting_of_same rfl rfl rfl rfl,
    still_of_same rfl⟩
  exact runsOk_cons h.runs hfreshRun (fun _ hid => by cases hid) fun _ _ hid => by cases hid

theorem ok_moveRun (runId : Text) (status : RunStatus) (leaseExpiresAt : Option ℤ) :
    StoreOk (moveGoalRun runId status leaseExpiresAt store) ∧
      Lasting store (moveGoalRun runId status leaseExpiresAt store) ∧
      Still store (moveGoalRun runId status leaseExpiresAt store) := by
  have hsame : SameLink fun run =>
      if run.id = runId && !run.status.isTerminal then { run with status, leaseExpiresAt } else run := by
    refine ⟨fun run => ?_, fun run => ?_, fun run => ?_⟩
    · split <;> rfl
    · split <;> rfl
    · split <;> rfl
  exact ⟨⟨h.goals, runsOk_map h.runs hsame, holdsOk_runs h.holds hsame, h.verdicts⟩,
    lasting_of_same rfl rfl rfl rfl,
    still_of_same rfl⟩

end

end ArdurBot.Goals
