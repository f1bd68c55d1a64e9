import ArdurBot.Updater.ExecuteRun

/-!
# Every run of the updater ends

No step is taken twice, and turns are admitted in five attempts. Runs that end neither updated nor
as before are at the end.
-/

namespace ArdurBot.Updater

open Utf16

/-- A bound on what a run of so many steps of Compose still waits for. -/
def Phase.left (composeSteps : ℕ) : Phase → ℕ
  | .git _ rest => 20 + 2 * composeSteps + rest.length
  | .head => 19 + 2 * composeSteps
  | .pinning _ => 18 + 2 * composeSteps
  | .beginning _ _ rest => 17 + 2 * rest.length
  | .compose _ _ rest => 16 + 2 * rest.length
  | .pausing => 10
  | .restoring _ => 12
  | .unpinning _ _ => 11
  | .recovering _ _ => 10
  | .clearing attempt => 3 + (5 - attempt)
  | .cleaning => 2
  | .pointing => 1
  | .ended => 0

def Update.left (u : Update) : ℕ := u.phase.left u.composeSteps.length

variable {u : Update} {answer : Answer}

section

variable (u : Update)

theorem left_afterCleaning : u.afterCleaning.left ≤ 1 := by
  unfold Update.afterCleaning
  split
  · exact Nat.le_refl 1
  · exact Nat.zero_le 1

theorem left_afterClearing : u.afterClearing.left ≤ 2 := by
  unfold Update.afterClearing
  split
  · split
    · exact Nat.le_refl 2
    · exact Nat.le_succ_of_le (left_afterCleaning _)
  · exact Nat.le_succ_of_le (left_afterCleaning u)

theorem left_finish : u.finish.left ≤ 8 := by
  unfold Update.finish
  split
  · exact Nat.le_refl 8
  · exact Nat.le_trans (left_afterClearing u) (by omega)

theorem left_nextCompose (toTag : Text) (steps : List Step) :
    (u.nextCompose toTag steps).left ≤ 15 + 2 * steps.length := by
  cases steps with
  | nil => exact Nat.le_trans (left_finish _) (by omega)
  | cons step rest =>
    unfold Update.nextCompose
    dsimp only
    rw [List.length_cons]
    split
    · show 17 + 2 * rest.length ≤ 15 + 2 * (rest.length + 1)
      omega
    · show 16 + 2 * rest.length ≤ 15 + 2 * (rest.length + 1)
      omega

theorem left_resolved : u.resolved.left ≤ 18 + 2 * u.composeSteps.length := by
  unfold Update.resolved
  split
  · exact Nat.le_trans (left_finish _) (by omega)
  · exact Nat.le_refl _

theorem left_nextGit (steps : List Step) :
    (u.nextGit steps).left ≤ 19 + 2 * u.composeSteps.length + steps.length := by
  cases steps with
  | nil =>
    unfold Update.nextGit Update.afterGit
    dsimp only
    split
    · exact Nat.le_refl _
    · exact Nat.le_trans (left_resolved u) (by omega)
  | cons step rest =>
    show 20 + 2 * u.composeSteps.length + rest.length ≤ 19 + 2 * u.composeSteps.length + (step :: rest).length
    rw [List.length_cons]
    omega

theorem left_undo (step : Step) : (u.undo step).left ≤ 12 := by
  unfold Update.undo
  split
  · exact (by decide : 11 ≤ 12)
  · split
    · exact (by decide : 11 ≤ 12)
    · exact Nat.le_refl 12

theorem left_step (answer : Answer) (hmore : u.phase ≠ .ended) : (u.step answer).left < u.left := by
  show (u.step answer).left < u.phase.left u.composeSteps.length
  unfold Update.step
  cases hphase : u.phase with
  | git step rest =>
    dsimp only [Phase.left]
    unfold Update.ranGit
    split
    · have hnext := left_nextGit (u.ran step [] answer true) rest
      change _ ≤ 19 + 2 * u.composeSteps.length + rest.length at hnext
      omega
    · have hfinish := left_finish (u.ran step [] answer true)
      omega
    · have hfinish := left_finish (u.crashed step [] answer)
      omega
  | head =>
    dsimp only [Phase.left]
    have hfinish : ∀ {v : Update}, v.finish.left < 19 + 2 * u.composeSteps.length :=
      fun {v} => Nat.lt_of_le_of_lt (left_finish v) (by omega)
    unfold Update.readHead
    cases answer.outcome with
    | threw | failed => exact hfinish
    | ok =>
      dsimp only
      rw [if_pos rfl]
      split
      · exact hfinish
      · split
        · exact hfinish
        · refine Nat.lt_of_le_of_lt (left_resolved _) ?_
          show 18 + 2 * u.composeSteps.length < 19 + 2 * u.composeSteps.length
          omega
  | pinning toTag =>
    dsimp only [Phase.left]
    unfold Update.pinned
    split
    · exact Nat.lt_of_le_of_lt (left_nextCompose _ _ _) (by omega)
    · exact Nat.lt_of_le_of_lt (left_finish _) (by omega)
  | beginning toTag step rest =>
    dsimp only [Phase.left]
    unfold Update.begun
    split
    · show 16 + 2 * rest.length < 17 + 2 * rest.length
      omega
    · show 10 < 17 + 2 * rest.length
      omega
  | compose toTag step rest =>
    dsimp only [Phase.left]
    unfold Update.ranCompose
    split
    · exact Nat.lt_of_le_of_lt (left_nextCompose _ _ _) (by omega)
    · exact Nat.lt_of_le_of_lt (left_undo _ _) (by omega)
    · exact Nat.lt_of_le_of_lt (left_finish _) (by omega)
  | pausing =>
    dsimp only [Phase.left]
    unfold Update.paused
    split
    · exact Nat.lt_of_le_of_lt (left_finish _) (by omega)
    · exact Nat.lt_of_le_of_lt (left_finish _) (by omega)
  | restoring step =>
    dsimp only [Phase.left]
    unfold Update.restored
    split
    · exact (by decide : 11 < 12)
    · split
      · exact Nat.lt_of_le_of_lt (left_finish _) (by omega)
      · exact (by decide : 11 < 12)
  | unpinning step checkoutRestored =>
    dsimp only [Phase.left]
    unfold Update.unpinned
    split
    · split
      · exact (by decide : 10 < 11)
      · exact Nat.lt_of_le_of_lt (left_finish _) (by omega)
    · exact Nat.lt_of_le_of_lt (left_finish _) (by omega)
  | recovering step envRestored =>
    dsimp only [Phase.left]
    unfold Update.recovered
    split
    · exact Nat.lt_of_le_of_lt (left_finish _) (by omega)
    · exact Nat.lt_of_le_of_lt (left_finish _) (by omega)
    · exact Nat.lt_of_le_of_lt (left_finish _) (by omega)
  | clearing attempt =>
    dsimp only [Phase.left]
    unfold Update.cleared
    split
    · exact Nat.lt_of_le_of_lt (left_afterClearing _) (by omega)
    · split
      · show 3 + (5 - (attempt + 1)) < 3 + (5 - attempt)
        omega
      · exact Nat.lt_of_le_of_lt (left_afterClearing _) (by omega)
  | cleaning =>
    dsimp only [Phase.left]
    unfold Update.cleaned
    split
    · exact (by decide : 0 < 2)
    · dsimp only
      split
      · exact (by decide : 0 < 2)
      · split
        · exact Nat.lt_succ_of_le (left_afterCleaning _)
        · exact Nat.lt_succ_of_le (left_afterCleaning _)
  | pointing =>
    dsimp only [Phase.left]
    unfold Update.pointed
    split
    · exact (by decide : 0 < 1)
    · dsimp only
      split
      · exact (by decide : 0 < 1)
      · split
        · exact (by decide : 0 < 1)
        · exact (by decide : 0 < 1)
  | ended => exact absurd hphase hmore

end

theorem ended_step (h : u.phase = .ended) (answer : Answer) : (u.step answer).phase = .ended := by
  unfold Update.step
  rw [h]
  exact h

theorem ended_of_left (h : u.left = 0) : u.phase = .ended := by
  unfold Update.left at h
  cases hphase : u.phase with
  | ended => rfl
  | _ =>
    rw [hphase] at h
    simp only [Phase.left] at h
    omega

theorem execute_ends (answers : List Answer) (hanswers : u.left ≤ answers.length) :
    (Run.after Update.step u answers).phase = .ended := by
  induction answers generalizing u with
  | nil => exact ended_of_left (Nat.le_zero.mp hanswers)
  | cons answer answers ih =>
    by_cases hended : u.phase = .ended
    · have hstep : ∀ (v : Update) other, v.phase = .ended → (v.step other).phase = .ended :=
        fun _ other h => ended_step h other
      exact Run.inv_after hstep (ended_step hended answer) answers
    · have hstep := left_step u answer hended
      rw [List.length_cons] at hanswers
      exact ih (by omega)

/-- A deployment of a fork, at a commit of its main branch. -/
def deployment : Installation where
  env := lit "ARDURBOT_IMAGE_TAG=local-0\n"
  checkout := ⟨some (lit "main"), List.replicate 40 (unit '0')⟩
  remote := lit "https://example.com/old"
  services := [(lit "api", some ⟨lit "local-0", ⟨some (lit "main"), List.replicate 40 (unit '0')⟩⟩)]
  held := false

def forkInput : Input :=
  buildInput deployment (lit "https://example.com/new") (lit "main") true true

/-- An answer after which the checkout is at a new commit. -/
def succeeds : Answer := ⟨.ok, { deployment with checkout := ⟨some (lit "main"), List.replicate 40 (unit '1')⟩, held := true }⟩

def fails : Answer := ⟨.failed, deployment⟩

def throws : Answer := ⟨.threw, deployment⟩

theorem currentTag_deployment : (readTagState deployment.env).currentTag = lit "local-0" := by
  unfold deployment
  rw [lit_ofList]
  decide +kernel

theorem planned_fork : Planned deployment forkInput := .build _ _ _ _ (by decide +kernel)

theorem execute_ends_fails :
    (Run.after Update.step (execute forkInput deployment) (List.replicate 30 fails)).phase = .ended :=
  execute_ends _ (by decide +kernel)

/-- All that is awaited succeeds. -/
theorem execute_holds_fork : EndOk deployment forkInput
    (Run.after Update.step (execute forkInput deployment) (List.replicate 9 succeeds)) :=
  execute_holds planned_fork rfl _ (by decide +kernel) (by decide +kernel)

set_option maxRecDepth 20000 in
/-- The API does not admit turns again after an update: its checkout and remote are put back under
the services that it recreated. When bots still work and the pin cannot be restored, it is left, and
nothing is told. -/
theorem execute_fails :
    let unadmitted := Run.after Update.step (execute forkInput deployment)
      (List.replicate 8 succeeds ++ List.replicate 5 fails ++ List.replicate 2 succeeds)
    let busy := Run.after Update.step (execute forkInput deployment)
      (List.replicate 6 succeeds ++ [fails, throws] ++ List.replicate 3 succeeds)
    Planned deployment forkInput ∧ deployment.held = false ∧
      (unadmitted.phase = .ended ∧ ¬ EndOk deployment forkInput unadmitted) ∧
      busy.phase = .ended ∧ ¬ EndOk deployment forkInput busy := by
  intro unadmitted busy
  have hno : ∀ u : Update, u.report.ok = false → (readTagState u.installation.env).currentTag ≠ lit "local-0" →
      ¬ (u.threw = false ∧ (pinLeft <:+: u.report.restartAdvice ∨ pinNotRestored <:+: u.report.restartAdvice)) →
      ¬ EndOk deployment forkInput u := by
    intro u hok hpin htold h
    obtain h | h := h.1
    · exact Bool.eq_false_iff.mp hok h.reported.2
    · obtain hbefore | hleft | hnot := h.pin
      · exact hpin (hbefore.1.trans currentTag_deployment)
      · exact htold ⟨hleft.1, .inl hleft.2⟩
      · exact htold ⟨hnot.1, .inr hnot.2⟩
  obtain ⟨hended, hok, hpin⟩ : unadmitted.phase = .ended ∧ unadmitted.report.ok = false ∧
      (readTagState unadmitted.installation.env).currentTag ≠ lit "local-0" := by decide +kernel
  have hadvice : unadmitted.report.restartAdvice = forkInput.restartAdvice := rfl
  have htold : ¬ (pinLeft <:+: forkInput.restartAdvice ∨ pinNotRestored <:+: forkInput.restartAdvice) := by
    unfold pinLeft pinNotRestored forkInput buildInput
    repeat rw [lit_ofList]
    decide +kernel
  obtain ⟨hended', hok', hpin', hthrew⟩ : busy.phase = .ended ∧ busy.report.ok = false ∧
      (readTagState busy.installation.env).currentTag ≠ lit "local-0" ∧ busy.threw = true := by decide +kernel
  exact ⟨planned_fork, rfl, ⟨hended, hno _ hok hpin (hadvice ▸ fun h => htold h.2)⟩, hended',
    hno _ hok' hpin' (by rw [hthrew]; exact nofun)⟩

end ArdurBot.Updater
