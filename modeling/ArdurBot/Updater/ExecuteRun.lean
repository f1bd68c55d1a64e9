import ArdurBot.Updater.ExecuteOk

/-!
# Every run of the updater

Each outcome of what a run waits for leaves the installation as the next phase needs it, where
nothing throws that the run cannot undo or report.
-/

namespace ArdurBot.Updater

open Utf16 Option Bool

variable {w : Installation} {input : Input} {u : Update} {answer : Answer}

/-! ### Phases -/

structure Started (w : Installation) (input : Input) (u : Update) : Prop where
  same : u.input = input
  notOk : u.report.ok = false
  env : u.installation.env = w.env
  services : u.installation.services = w.services
  held : u.installation.held = false
  draining : u.draining = false
  checkout : u.checkoutNeedsRestore = false → u.installation.checkout = w.checkout
  remote : input.restoreRemoteUrl = none → u.installation.remote = w.remote
  pull : input.strategy = .pull → u.checkoutNeedsRestore = false

/-- The tag is that of the commit that is checked out. -/
def Targets (input : Input) (u : Update) : Prop :=
  input.strategy = .build → u.report.toCommit = some (trim u.installation.checkout.commit) ∧
    u.report.toTag = forkImageTag (trim u.installation.checkout.commit)

/-- The tag is pinned, and no service recreated. -/
structure Pinned (w : Installation) (input : Input) (u : Update) (toTag : Text) : Prop where
  same : u.input = input
  notOk : u.report.ok = false
  threw : u.threw = false
  tags : readTagState u.installation.env = ⟨toTag, some (readTagState w.env).currentTag⟩
  readable : Readable u.installation.env
  toTag : u.report.toTag = some toTag
  targets : Targets input u
  services : u.installation.services = w.services
  checkout : u.checkoutNeedsRestore = false → u.installation.checkout = w.checkout
  remote : input.restoreRemoteUrl = none → u.installation.remote = w.remote
  pull : input.strategy = .pull → u.checkoutNeedsRestore = false

structure Undone (w : Installation) (input : Input) (u : Update) : Prop where
  same : u.input = input
  notOk : u.report.ok = false
  threw : u.threw = false
  readable : Readable u.installation.env
  services : u.installation.services.Same w.services
  remote : input.restoreRemoteUrl = none → u.installation.remote = w.remote

structure Base (w : Installation) (input : Input) (u : Update) : Prop where
  same : u.input = input
  notOk : u.report.ok = false
  pin : PinOk w u
  services : ServicesOk w input u
  remote : input.restoreRemoteUrl = none → u.installation.remote = w.remote

/-- A run that has failed, before it cleans up. -/
structure Failed (w : Installation) (input : Input) (u : Update) : Prop where
  base : Base w input u
  threw : u.threw → u.draining = false
  held : u.draining = false → u.installation.held = false
  checkout : u.checkoutNeedsRestore ∧ input.strategy = .build ∨ CheckoutOk w u

structure Cleared (w : Installation) (input : Input) (u : Update) : Prop where
  base : Base w input u
  hold : HoldOk u
  checkout : u.checkoutNeedsRestore ∧ input.strategy = .build ∨ CheckoutOk w u

structure Cleaned (w : Installation) (input : Input) (u : Update) : Prop where
  base : Base w input u
  hold : HoldOk u
  checkout : CheckoutOk w u

section

variable (w : Installation) (input : Input) (u : Update)

def EndOk : Prop := (Updated w input u ∨ AsBefore w input u) ∧ HoldOk u

def PhaseOk : Prop :=
  match u.phase with
  | .git step rest => Started w input u ∧ u.threw = false ∧ (∀ other ∈ step :: rest, GitStepOk input other) ∧
      (step.id = .checkout ∨ step.id = .merge → u.checkoutNeedsRestore) ∧ input.strategy = .build
  | .head => Started w input u ∧ u.threw = false ∧ input.strategy = .build
  | .pinning toTag => Started w input u ∧ u.threw = false ∧ u.report.toTag = some toTag ∧
    isValidImageTag toTag ∧ Targets input u
  | .beginning toTag step rest => Pinned w input u toTag ∧ Recreates (step :: rest) ∧ step.id = .recreate ∧
      u.draining = false ∧ u.installation.held = false
  | .compose toTag step rest => Pinned w input u toTag ∧ Recreates (step :: rest) ∧
      if step.id = .recreate then u.draining = true
      else u.draining = false ∧ u.installation.held = false ∧ u.checkoutNeedsRestore = false
  | .pausing => Undone w input u ∧ u.installation.services = w.services ∧ u.draining ∧
      (u.checkoutNeedsRestore ∧ input.strategy = .build ∨ CheckoutOk w u)
  | .restoring step => Undone w input u ∧ u.draining ∧ u.checkoutNeedsRestore = false ∧ step.id = .recreate
  | .unpinning step checkoutRestored => Undone w input u ∧ u.checkoutNeedsRestore = false ∧
      (checkoutRestored → u.installation.checkout = w.checkout) ∧
      if step.id = .recreate then u.draining = true
      else u.draining = false ∧ u.installation.held = false ∧ u.installation.services = w.services ∧
        checkoutRestored
  | .recovering step envRestored => Undone w input u ∧ u.checkoutNeedsRestore = false ∧
      u.installation.checkout = w.checkout ∧ u.draining ∧ (envRestored → PinBefore w u) ∧ step.id = .recreate
  | .clearing attempt => u.draining ∧ attempt < 5 ∧ (Failed w input u ∨ Updated w input u)
  | .cleaning => Base w input u ∧ HoldOk u ∧ ∃ commit, u.restorable = some commit
  | .pointing => Cleaned w input u ∧ ∃ url, input.restoreRemoteUrl = some url
  | .ended => EndOk w input u

end

/-- No command of Compose throws, none that restores throws or, in a run that threw, fails; the pin
is restored when bots still work, and turns are admitted again when the services were recreated. The
tag is written to a text in which it is read, and the branch that is restored is the one before. -/
def Orderly (w : Installation) (u : Update) (answer : Answer) : Prop :=
  match u.phase with
  | .pinning _ => answer.outcome = .ok → Readable u.installation.env
  | .compose _ _ _ => answer.outcome ≠ .threw
  | .pausing => answer.outcome = .ok
  | .restoring _ => answer.outcome ≠ .threw ∧
    (answer.outcome = .ok → namedBranch u.input.fromBranch = w.checkout.branch)
  | .recovering _ _ => answer.outcome ≠ .threw
  | .clearing attempt => u.report.ok → attempt + 1 = 5 → answer.outcome = .ok
  | .cleaning => answer.outcome ≠ .threw ∧ (u.threw → answer.outcome = .ok) ∧
      (answer.outcome = .ok → namedBranch u.input.fromBranch = w.checkout.branch)
  | .pointing => answer.outcome ≠ .threw ∧ (u.threw → answer.outcome = .ok)
  | _ => True

instance (w : Installation) (u : Update) (answer : Answer) : Decidable (Orderly w u answer) := by
  unfold Orderly
  split <;> infer_instance

/-! ### The end of a run -/

theorem Base.awaits (h : Base w input u) (phase : Phase) : Base w input (u.awaits phase) :=
  { h with }

theorem endOk_of_cleaned (h : Cleaned w input u) (hremote : RemoteOk w u) : EndOk w input (u.awaits .ended) :=
  ⟨.inr ⟨.inr h.base.notOk, h.base.pin, h.checkout, hremote, h.base.services⟩, h.hold⟩

theorem afterCleaning_ok (h : Cleaned w input u) : PhaseOk w input u.afterCleaning := by
  unfold Update.afterCleaning
  split
  · next hpoint =>
    rw [and_eq_true, h.base.same] at hpoint
    exact ⟨⟨h.base.awaits _, h.hold, h.checkout⟩, isSome_iff_exists.mp hpoint.2⟩
  · next hno =>
    have hnone : input.restoreRemoteUrl = none := by
      rw [h.base.notOk, Bool.not_false, Bool.true_and, h.base.same] at hno
      exact not_isSome_iff_eq_none.mp hno
    exact endOk_of_cleaned h (.inl (h.base.remote hnone))

def Extends (u : Update) (advice : Text) : Prop :=
  ∀ text, text <:+: u.report.restartAdvice → text <:+: advice

variable {advice commit toTag : Text} {rest steps : List Step} {checkoutRestored envRestored : Bool}

theorem Told.advise {text : Text} (h : Told u text) (hadvice : Extends u advice) :
    Told (u.advise advice) text :=
  ⟨h.1, hadvice text h.2⟩

theorem advise_base (h : Base w input u) (hadvice : Extends u advice) : Base w input (u.advise advice) := by
  refine ⟨h.same, h.notOk, ?_, ?_, h.remote⟩
  · exact h.pin.imp id (Or.imp (Told.advise · hadvice) (Told.advise · hadvice))
  · exact h.services.imp id (Or.imp id (Told.advise · hadvice))

theorem advise_checkout (h : CheckoutOk w u) (hadvice : Extends u advice) : CheckoutOk w (u.advise advice) :=
  h.imp id (Or.imp (Told.advise · hadvice) (Told.advise · hadvice))

theorem leaveCheckout_ok (h : Base w input u) (hhold : HoldOk u) (hthrew : u.threw = false) :
    PhaseOk w input (u.advise (checkoutAdvice u.report.restartAdvice)).afterCleaning := by
  refine afterCleaning_ok ⟨advise_base h fun _ htext => infix_checkoutAdvice htext, hhold, ?_⟩
  exact .inr (.inr ⟨hthrew, told_checkout _⟩)

theorem restorable_of_build (hinput : InputOk w input) (hsame : u.input = input)
    (hstrategy : input.strategy = .build) :
    ∃ commit, u.restorable = some commit := by
  unfold Update.restorable
  rw [hsame]
  exact isSome_iff_exists.mp (hinput.restorable hstrategy)

theorem afterClearing_ok (hinput : InputOk w input) (h : Cleared w input u) :
    PhaseOk w input u.afterClearing := by
  unfold Update.afterClearing
  split
  · next hneeds =>
    rw [and_eq_true] at hneeds
    split
    · next commit hsome =>
      exact ⟨{ h.base with }, h.hold, commit, hsome⟩
    · next hnone =>
      obtain ⟨-, hstrategy⟩ | hcheckout := h.checkout
      · obtain ⟨commit, hsome⟩ := restorable_of_build hinput h.base.same hstrategy
        rw [hsome] at hnone
        cases hnone
      · have hbase : Base w input { u with checkoutNeedsRestore := false } :=
          { h.base with }
        have hextends : Extends { u with checkoutNeedsRestore := false } (checkoutAdvice u.report.restartAdvice) :=
          fun _ htext => infix_checkoutAdvice htext
        exact afterCleaning_ok ⟨advise_base hbase hextends, h.hold, advise_checkout hcheckout hextends⟩
  · next hno =>
    refine afterCleaning_ok ⟨h.base, h.hold, ?_⟩
    obtain ⟨hneeds, -⟩ | hcheckout := h.checkout
    · rw [h.base.notOk, hneeds] at hno
      exact absurd rfl hno
    · exact hcheckout

theorem finish_ok (hinput : InputOk w input) (h : Failed w input u) : PhaseOk w input u.finish := by
  unfold Update.finish
  split
  · next hdraining =>
    have hbase : Base w input (u.awaits (.clearing 0)) := h.base.awaits _
    exact ⟨hdraining, by decide, .inl { h with base := hbase }⟩
  · next hno =>
    have hdraining : u.draining = false := not_eq_true _ ▸ hno
    exact afterClearing_ok hinput ⟨h.base, .inl (h.held hdraining), h.checkout⟩

theorem failed_of_draining (h : Base w input u) (hthrew : u.threw = false) (hdraining : u.draining)
    (hcheckout : u.checkoutNeedsRestore ∧ input.strategy = .build ∨ CheckoutOk w u) : Failed w input u := by
  refine ⟨h, ?_, ?_, hcheckout⟩
  · intro hthrow
    rw [hthrew] at hthrow
    cases hthrow
  · intro hno
    rw [hdraining] at hno
    cases hno

theorem admitted_ok (h : Updated w input u) (hhold : HoldOk u) : PhaseOk w input u.afterClearing := by
  have hok : u.report.ok := h.reported.2
  unfold Update.afterClearing
  rw [hok, Bool.not_true, Bool.false_and, if_neg Bool.false_ne_true]
  unfold Update.afterCleaning
  rw [hok, Bool.not_true, Bool.false_and, if_neg Bool.false_ne_true]
  exact ⟨.inl { h with }, hhold⟩

theorem cleared_ok (hinput : InputOk w input) {attempt : ℕ} (hphase : u.phase = .clearing attempt)
    (h : PhaseOk w input u) (horderly : Orderly w u answer) : PhaseOk w input (u.cleared attempt answer) := by
  unfold PhaseOk at h
  unfold Orderly at horderly
  rw [hphase] at h horderly
  obtain ⟨hdraining, hattempt, h⟩ := h
  unfold Update.cleared
  split
  · obtain h | h := h
    · exact afterClearing_ok hinput
        ⟨{ h.base with }, .inl rfl, h.checkout⟩
    · exact admitted_ok { h with } (.inl rfl)
  · next hfailed =>
    split
    · next hmore =>
      refine ⟨hdraining, hmore, ?_⟩
      obtain h | h := h
      · exact .inl { h with base := h.base.awaits _ }
      · exact .inr { h with }
    · next hlast =>
      obtain h | h := h
      · have hthrew : u.threw = false := by
          cases hthrew : u.threw with
          | false => rfl
          | true => rw [h.threw hthrew] at hdraining; cases hdraining
        refine afterClearing_ok hinput ⟨?_, .inr ⟨hthrew, rfl, rfl⟩, h.checkout⟩
        exact { h.base with notOk := rfl }
      · exact absurd (horderly h.reported.2 (by omega)) hfailed

/-! ### Clean up -/

theorem eq_of_restorable (hinput : InputOk w input) (hsame : u.input = input)
    (h : u.restorable = some commit) :
    commit = w.checkout.commit := by
  unfold Update.restorable at h
  rw [hsame] at h
  exact hinput.commit commit (filter_eq_some_iff.mp h).1

theorem effect_restore (branch : Option Text) (commit tag : Text) (answer : Answer)
    (w : Installation) : ∃ checkout,
    (Command.restore branch commit).effect tag answer w = { w with checkout } ∧
      (answer.outcome = .ok → checkout = ⟨branch, commit⟩) := by
  cases houtcome : answer.outcome with
  | ok =>
    refine ⟨⟨branch, commit⟩, ?_, fun _ => rfl⟩
    unfold Command.effect
    rw [houtcome]
  | failed | threw =>
    refine ⟨answer.left.checkout, ?_, fun h => by cases h⟩
    unfold Command.effect
    rw [houtcome]

theorem restore_eq (hinput : InputOk w input) (hsame : u.input = input) (hcommit : u.restorable = some commit)
    (hbranch : answer.outcome = .ok → namedBranch u.input.fromBranch = w.checkout.branch) : ∃ checkout,
    (u.restoreStep commit).command.effect [] answer u.installation = { u.installation with checkout } ∧
      (answer.outcome = .ok → checkout = w.checkout) := by
  obtain ⟨checkout, heffect, hok⟩ :=
    effect_restore (namedBranch u.input.fromBranch) commit [] answer u.installation
  refine ⟨checkout, heffect, fun houtcome => ?_⟩
  rw [hok houtcome, hbranch houtcome, eq_of_restorable hinput hsame hcommit]

theorem cleaned_ok (hinput : InputOk w input) (hphase : u.phase = .cleaning) (h : PhaseOk w input u)
    (horderly : Orderly w u answer) : PhaseOk w input (u.cleaned answer) := by
  unfold PhaseOk at h
  unfold Orderly at horderly
  rw [hphase] at h horderly
  obtain ⟨hbase, hhold, commit, hcommit⟩ := h
  obtain ⟨hnothrew, hthrew, hbranch⟩ := horderly
  obtain ⟨checkout, heffect, hcheckout⟩ := restore_eq hinput hbase.same hcommit hbranch
  unfold Update.cleaned
  rw [hcommit]
  dsimp only
  rw [if_neg hnothrew]
  unfold Update.ran
  rw [heffect]
  split
  · next hok =>
    refine afterCleaning_ok ⟨{ hbase with }, ?_, .inl (hcheckout hok)⟩
    rw [Bool.and_false, if_neg Bool.false_ne_true]
    exact hhold
  · next hfailed =>
    refine leaveCheckout_ok { hbase with } ?_ ?_
    · rw [Bool.and_false, if_neg Bool.false_ne_true]
      exact hhold
    · cases hthrow : u.threw with
      | false => rfl
      | true => exact absurd (hthrew hthrow) hfailed

theorem pointed_ok (hinput : InputOk w input) (hphase : u.phase = .pointing) (h : PhaseOk w input u)
    (horderly : Orderly w u answer) : PhaseOk w input (u.pointed answer) := by
  unfold PhaseOk at h
  unfold Orderly at horderly
  rw [hphase] at h horderly
  obtain ⟨h, url, hurl⟩ := h
  obtain ⟨hnothrew, hthrew⟩ := horderly
  have hbefore : url = w.remote := hinput.remote url hurl
  unfold Update.pointed
  rw [h.base.same, hurl]
  dsimp only
  rw [if_neg hnothrew]
  unfold Update.ran
  rw [Bool.and_false, if_neg Bool.false_ne_true]
  have hno : ¬ input.restoreRemoteUrl = none := by
    rw [hurl]
    exact some_ne_none url
  have hremote : ∀ remote, input.restoreRemoteUrl = none → remote = w.remote := fun _ hnone => absurd hnone hno
  cases houtcome : answer.outcome with
  | ok =>
    rw [if_pos rfl]
    unfold Command.effect
    rw [houtcome]
    refine endOk_of_cleaned ⟨⟨h.base.same, h.base.notOk, h.base.pin, h.base.services, ?_⟩, h.hold, h.checkout⟩ ?_
    · exact hremote _
    · exact .inl hbefore
  | failed =>
    rw [if_neg (by decide)]
    unfold Command.effect
    rw [houtcome]
    have hthrew : u.threw = false := by
      cases hthrow : u.threw with
      | false => rfl
      | true => rw [houtcome] at hthrew; cases hthrew hthrow
    refine endOk_of_cleaned ⟨advise_base ?_ fun _ htext => infix_remoteAdvice htext, h.hold, ?_⟩
      (.inr ⟨hthrew, told_remote _⟩)
    · exact { h.base with remote := hremote _ }
    · exact advise_checkout h.checkout fun _ htext => infix_remoteAdvice htext
  | threw => exact absurd houtcome hnothrew

/-! ### Up to the pin -/

theorem build_of_needs (h : input.strategy = .pull → u.checkoutNeedsRestore = false)
    (hneeds : u.checkoutNeedsRestore) :
    input.strategy = .build := by
  cases hstrategy : input.strategy with
  | build => rfl
  | pull =>
    rw [h hstrategy] at hneeds
    cases hneeds

theorem checkout_or (hpull : input.strategy = .pull → u.checkoutNeedsRestore = false)
    (hcheckout : u.checkoutNeedsRestore = false → u.installation.checkout = w.checkout) :
    u.checkoutNeedsRestore ∧ input.strategy = .build ∨ CheckoutOk w u := by
  cases hneeds : u.checkoutNeedsRestore with
  | true => exact .inl ⟨rfl, build_of_needs hpull hneeds⟩
  | false => exact .inr (.inl (hcheckout hneeds))

theorem Started.of_eq {v : Update} (h : Started w input u) (hinput : v.input = u.input)
    (hinstallation : v.installation = u.installation) (hok : v.report.ok = u.report.ok)
    (hdraining : v.draining = u.draining)
    (hneeds : v.checkoutNeedsRestore = u.checkoutNeedsRestore) : Started w input v where
  same := hinput.trans h.same
  notOk := hok.trans h.notOk
  env := hinstallation ▸ h.env
  services := hinstallation ▸ h.services
  held := hinstallation ▸ h.held
  draining := hdraining.trans h.draining
  checkout hno := hinstallation ▸ h.checkout (hneeds ▸ hno)
  remote hnone := hinstallation ▸ h.remote hnone
  pull hstrategy := hneeds.trans (h.pull hstrategy)

theorem Started.finish (hinput : InputOk w input) (h : Started w input u) : PhaseOk w input u.finish := by
  have hpin : PinBefore w u := by
    unfold PinBefore
    rw [h.env]
    exact ⟨rfl, fun _ htag => htag⟩
  have hbase : Base w input u := ⟨h.same, h.notOk, .inl hpin, .inl h.services, h.remote⟩
  exact finish_ok hinput ⟨hbase, fun _ => h.draining, fun _ => h.held, checkout_or h.pull h.checkout⟩

variable {step : Step}

theorem Started.effect (h : Started w input u) (hstep : GitStepOk input step)
    (hneeds : step.id = .checkout ∨ step.id = .merge → u.checkoutNeedsRestore) (answer : Answer) :
    Started w input { u with installation := step.command.effect [] answer u.installation } := by
  have hno : step.id = .checkout ∨ step.id = .merge → ∀ checkout, u.checkoutNeedsRestore = false →
      checkout = w.checkout := by
    intro hid checkout hfalse
    rw [hneeds hid] at hfalse
    cases hfalse
  unfold GitStepOk at hstep
  unfold Command.effect
  split at hstep
  · next url hcommand =>
    have hremote : ∀ remote, input.restoreRemoteUrl = none → remote = w.remote := by
      intro remote hnone
      rw [hnone] at hstep
      cases hstep
    rw [hcommand]
    cases answer.outcome with
    | ok | failed | threw => exact { h with remote := hremote _ }
  · next hcommand =>
    rw [hcommand]
    exact { h with }
  · next branch hcommand =>
    rw [hcommand]
    have hcheckout := hno (.inl hstep)
    cases answer.outcome with
    | ok | failed | threw => exact { h with checkout := hcheckout _ }
  · next branch hcommand =>
    rw [hcommand]
    have hcheckout := hno (.inr hstep)
    cases answer.outcome with
    | ok | failed | threw => exact { h with checkout := hcheckout _ }
  · cases hstep

theorem nextGit_ok (h : Started w input u) (hthrew : u.threw = false) (hstrategy : input.strategy = .build)
    (hsteps : ∀ step ∈ steps, GitStepOk input step) : PhaseOk w input (u.nextGit steps) := by
  have hno : ¬ input.strategy = .pull := by
    rw [hstrategy]
    decide
  cases steps with
  | nil =>
    unfold Update.nextGit Update.afterGit
    rw [h.same, if_pos hstrategy]
    exact ⟨h.of_eq rfl rfl rfl rfl rfl, hthrew, hstrategy⟩
  | cons step rest =>
    refine ⟨⟨h.same, h.notOk, h.env, h.services, h.held, h.draining, ?_, h.remote, ?_⟩, hthrew, hsteps, ?_, hstrategy⟩
    · intro hnone
      change (u.checkoutNeedsRestore || decide (step.id = .checkout) || decide (step.id = .merge)) = false at hnone
      exact h.checkout (or_eq_false_iff.mp (or_eq_false_iff.mp hnone).1).1
    · exact fun hpull => absurd hpull hno
    · rintro (hid | hid)
      · show (u.checkoutNeedsRestore || decide (step.id = .checkout) || decide (step.id = .merge)) = true
        rw [decide_eq_true hid, Bool.or_true, Bool.true_or]
      · show (u.checkoutNeedsRestore || decide (step.id = .checkout) || decide (step.id = .merge)) = true
        rw [decide_eq_true hid, Bool.or_true]

theorem ranGit_ok (hinput : InputOk w input) (hphase : u.phase = .git step rest) (h : PhaseOk w input u) :
    PhaseOk w input (u.ranGit step rest answer) := by
  unfold PhaseOk at h
  rw [hphase] at h
  obtain ⟨h, hthrew, hsteps, hneeds, hstrategy⟩ := h
  have hafter := h.effect (hsteps step List.mem_cons_self) hneeds answer
  have hran : Started w input (u.ran step [] answer true) := hafter.of_eq rfl rfl rfl rfl rfl
  unfold Update.ranGit
  cases answer.outcome with
  | ok => exact nextGit_ok hran hthrew hstrategy fun other hother =>
    hsteps other (List.mem_cons_of_mem _ hother)
  | failed => exact hran.finish hinput
  | threw => exact Started.finish hinput (hafter.of_eq rfl rfl rfl rfl rfl)

theorem resolved_ok (hinput : InputOk w input) (h : Started w input u) (hthrew : u.threw = false)
    (htag : ∀ tag ∈ u.report.toTag, isValidImageTag tag) (htargets : Targets input u) :
    PhaseOk w input u.resolved := by
  unfold Update.resolved
  split
  · exact Started.finish hinput (h.of_eq rfl rfl rfl rfl rfl)
  · next toTag htoTag =>
    exact ⟨h.of_eq rfl rfl rfl rfl rfl, hthrew, htoTag, htag toTag htoTag, htargets⟩

theorem readHead_ok (hinput : InputOk w input) (hphase : u.phase = .head) (h : PhaseOk w input u) :
    PhaseOk w input (u.readHead answer) := by
  unfold PhaseOk at h
  rw [hphase] at h
  obtain ⟨h, hthrew, hstrategy⟩ := h
  unfold Update.readHead
  cases answer.outcome with
  | threw | failed => exact Started.finish hinput (h.of_eq rfl rfl rfl rfl rfl)
  | ok =>
    dsimp only
    rw [if_pos rfl]
    split
    · exact Started.finish hinput (h.of_eq rfl rfl rfl rfl rfl)
    · split
      · exact Started.finish hinput (h.of_eq rfl rfl rfl rfl rfl)
      · next toTag hfork =>
        refine resolved_ok hinput (h.of_eq rfl rfl rfl rfl rfl) hthrew ?_ ?_
        · intro tag htag
          rw [← some.inj htag]
          exact isValidImageTag_fork hfork
        · exact fun _ => ⟨rfl, hfork.symm⟩

/-! ### The pin and the steps of Compose -/

theorem writeEnv_pins {before : Installation} {current previous : Text} (hreadable : Readable before.env)
    (hcurrent : isValidImageTag current) (hprevious : isValidImageTag previous) (hok : answer.outcome = .ok) :
    ∃ env, writeEnv (pins current previous) answer before = some { before with env } ∧
      readTagState env = ⟨current, some previous⟩ ∧ Readable env := by
  obtain ⟨env, hwrite, htags, hafter⟩ := pin_ok hreadable hcurrent hprevious
  refine ⟨env, ?_, htags, hafter⟩
  unfold writeEnv
  rw [if_pos hok, hwrite]
  rfl

theorem recreates_cases (h : Recreates (step :: rest)) :
    (rest = [] ∧ step.id = .recreate ∧ ∃ build, step.command = .up build) ∨
      (step.id = .pull ∧ step.command = .pull ∧ Recreates rest) := by
  cases rest with
  | nil => exact .inl ⟨rfl, h⟩
  | cons next rest => exact .inr h

theorem nextCompose_ok (h : Pinned w input u toTag) (hsteps : Recreates steps)
    (hneeds : ∀ step ∈ steps, step.id ≠ .recreate → u.checkoutNeedsRestore = false)
    (hdraining : u.draining = false)
    (hheld : u.installation.held = false) : PhaseOk w input (u.nextCompose toTag steps) := by
  cases steps with
  | nil => cases hsteps
  | cons step rest =>
    unfold Update.nextCompose
    dsimp only
    have hpinned : ∀ phase, Pinned w input (u.awaits phase) toTag := fun _ =>
      { h with }
    split
    · next hid => exact ⟨hpinned _, hsteps, hid, hdraining, hheld⟩
    · next hid =>
      refine ⟨hpinned _, hsteps, ?_⟩
      rw [if_neg hid]
      exact ⟨hdraining, hheld, hneeds step List.mem_cons_self hid⟩

theorem pinned_ok (hinput : InputOk w input) (hphase : u.phase = .pinning toTag) (h : PhaseOk w input u)
    (horderly : Orderly w u answer) : PhaseOk w input (u.pinned toTag answer) := by
  unfold PhaseOk at h
  unfold Orderly at horderly
  rw [hphase] at h horderly
  obtain ⟨h, hthrew, htoTag, hvalid, htargets⟩ := h
  unfold Update.pinned
  by_cases hok : answer.outcome = .ok
  · have hfrom : isValidImageTag u.input.fromTag = true := by
      rw [h.same, hinput.fromTag]
      exact (readTagState_valid w.env).1
    obtain ⟨env, hwrite, htags, hreadable⟩ := writeEnv_pins (horderly hok) hvalid hfrom hok
    unfold pins at hwrite
    rw [hwrite]
    have hcompose : u.composeSteps = input.steps.filter fun step => !step.command.isGit := by
      unfold Update.composeSteps
      rw [h.same]
    have hpinned : Pinned w input { u with installation := { u.installation with env } } toTag :=
      ⟨h.same, h.notOk, hthrew, by rw [htags, h.same, hinput.fromTag], hreadable, htoTag, htargets, h.services, h.checkout,
        h.remote, h.pull⟩
    rw [hcompose]
    refine nextCompose_ok hpinned hinput.compose ?_ h.draining h.held
    intro step hmem hid
    cases hneeds : u.checkoutNeedsRestore with
    | false => rfl
    | true => exact absurd (hinput.build (build_of_needs h.pull hneeds) step hmem) hid
  · unfold writeEnv
    rw [if_neg hok]
    exact Started.finish hinput (h.of_eq rfl rfl rfl rfl rfl)

theorem begun_ok (hphase : u.phase = .beginning toTag step rest) (h : PhaseOk w input u) :
    PhaseOk w input (u.begun toTag step rest answer) := by
  unfold PhaseOk at h
  rw [hphase] at h
  obtain ⟨h, hsteps, hid, -, -⟩ := h
  unfold Update.begun
  split
  · refine ⟨?_, hsteps, ?_⟩
    · exact { h with }
    · rw [if_pos hid]
      rfl
  · refine ⟨⟨h.same, h.notOk, h.threw, h.readable, ?_, h.remote⟩, h.services, rfl, checkout_or h.pull h.checkout⟩
    exact congrArg (List.map Prod.fst) h.services

theorem revert_ok (hinput : InputOk w input) (h : Undone w input u) (answer : Answer) :
    (∃ env, writeEnv u.revertAssignments answer u.installation = some { u.installation with env } ∧
      PinBefore w { u with installation := { u.installation with env } } ∧ Readable env) ∨
      answer.outcome ≠ .ok ∧ writeEnv u.revertAssignments answer u.installation = none := by
  by_cases hok : answer.outcome = .ok
  · have hvalid := readTagState_valid w.env
    have hprevious : isValidImageTag (input.originalPreviousTag.getD input.fromTag) = true := by
      rw [hinput.previousTag, hinput.fromTag]
      cases hread : (readTagState w.env).previousTag with
      | none => exact hvalid.1
      | some tag => exact hvalid.2 tag hread
    have hcurrent : isValidImageTag input.fromTag = true := by
      rw [hinput.fromTag]
      exact hvalid.1
    obtain ⟨env, hwrite, htags, hreadable⟩ := writeEnv_pins h.readable hcurrent hprevious hok
    refine .inl ⟨env, ?_, ?_, hreadable⟩
    · unfold Update.revertAssignments
      rw [h.same]
      exact hwrite
    · unfold PinBefore
      rw [htags]
      refine ⟨hinput.fromTag, fun tag htag => ?_⟩
      rw [hinput.previousTag, htag]
      rfl
  · refine .inr ⟨hok, ?_⟩
    unfold writeEnv
    rw [if_neg hok]

theorem paused_ok (hinput : InputOk w input) (hphase : u.phase = .pausing) (h : PhaseOk w input u)
    (horderly : Orderly w u answer) : PhaseOk w input (u.paused answer) := by
  unfold PhaseOk at h
  unfold Orderly at horderly
  rw [hphase] at h horderly
  obtain ⟨h, hservices, hdraining, hcheckout⟩ := h
  unfold Update.paused
  obtain ⟨env, hwrite, hpin, -⟩ | ⟨hfailed, -⟩ := revert_ok hinput h answer
  · rw [hwrite]
    have hbase : Base w input { u with installation := { u.installation with env } } :=
      ⟨h.same, h.notOk, .inl hpin, .inl hservices, h.remote⟩
    exact finish_ok hinput (failed_of_draining hbase h.threw hdraining hcheckout)
  · exact absurd horderly hfailed

/-! ### The steps of Compose are undone -/

theorem undo_ok (h : Undone w input u)
    (hcheckout : u.checkoutNeedsRestore = false → u.installation.checkout = w.checkout)
    (hstep : if step.id = .recreate then u.draining = true
      else u.draining = false ∧ u.installation.held = false ∧ u.installation.services = w.services ∧
        u.checkoutNeedsRestore = false) : PhaseOk w input (u.undo step) := by
  unfold Update.undo
  by_cases hneeds : u.checkoutNeedsRestore
  · have hid : step.id = .recreate := by
      by_contra hid
      rw [if_neg hid, hneeds] at hstep
      cases hstep.2.2.2
    rw [if_pos hid] at hstep
    rw [hneeds, Bool.not_true, if_neg Bool.false_ne_true]
    split
    · refine ⟨{ h with }, rfl, ?_, ?_⟩
      · intro hrestored
        cases hrestored
      · rw [if_pos hid]
        exact hstep
    · exact ⟨{ h with }, hstep, rfl, hid⟩
  · have hno : u.checkoutNeedsRestore = false := not_eq_true _ ▸ hneeds
    rw [hno, Bool.not_false, if_pos rfl]
    refine ⟨{ h with }, hno, fun _ => hcheckout hno, ?_⟩
    split
    · next hid =>
      rw [if_pos hid] at hstep
      exact hstep
    · next hid =>
      rw [if_neg hid] at hstep
      exact ⟨hstep.1, hstep.2.1, hstep.2.2.1, rfl⟩

theorem succeed_ok (h : Updated w input { u with report := { u.report with ok := true, restart := .recreated } })
    (hdraining : u.draining) : PhaseOk w input u.succeed := by
  unfold Update.succeed Update.finish
  rw [if_pos hdraining]
  exact ⟨hdraining, by decide, .inr { h with }⟩

theorem ranCompose_ok (hphase : u.phase = .compose toTag step rest) (h : PhaseOk w input u)
    (horderly : Orderly w u answer) : PhaseOk w input (u.ranCompose toTag step rest answer) := by
  unfold PhaseOk at h
  unfold Orderly at horderly
  rw [hphase] at h horderly
  obtain ⟨h, hsteps, hstep⟩ := h
  unfold Update.ranCompose Update.ran
  obtain ⟨rfl, hid, build, hcommand⟩ | ⟨hid, hcommand, hrest⟩ := recreates_cases hsteps
  · rw [if_pos hid] at hstep
    rw [hcommand]
    unfold Command.effect
    cases houtcome : answer.outcome with
    | ok =>
      refine succeed_ok ⟨⟨h.threw, rfl⟩, ⟨toTag, h.toTag, h.tags, ?_⟩, h.targets, ?_⟩ hstep
      · dsimp only
        rw [h.services]
      · exact fun hstrategy => h.checkout (h.pull hstrategy)
    | failed =>
      refine undo_ok ⟨h.same, h.notOk, h.threw, h.readable, ?_, h.remote⟩ h.checkout ?_
      · dsimp only
        rw [h.services]
        exact Services.same_asIn _ _
      · rw [if_pos hid]
        exact hstep
    | threw => exact absurd houtcome horderly
  · have hno : ¬ step.id = .recreate := by
      rw [hid]
      decide
    rw [if_neg hno] at hstep
    obtain ⟨hdraining, hheld, hneeds⟩ := hstep
    rw [hcommand]
    unfold Command.effect
    cases houtcome : answer.outcome with
    | ok =>
      refine nextCompose_ok ?_ hrest (fun _ _ _ => hneeds) hdraining hheld
      exact { h with }
    | failed =>
      refine undo_ok { h with services := congrArg (List.map Prod.fst) h.services } h.checkout ?_
      rw [if_neg hno]
      exact ⟨hdraining, hheld, h.services, hneeds⟩
    | threw => exact absurd houtcome horderly

section

variable (hinput : InputOk w input)
include hinput

theorem restored_ok (hphase : u.phase = .restoring step) (h : PhaseOk w input u)
    (horderly : Orderly w u answer) : PhaseOk w input (u.restored step answer) := by
  unfold PhaseOk at h
  unfold Orderly at horderly
  rw [hphase] at h horderly
  obtain ⟨h, hdraining, hneeds, hid⟩ := h
  obtain ⟨hnothrew, hbranch⟩ := horderly
  unfold Update.restored
  split
  · refine ⟨{ h with }, hneeds, ?_, ?_⟩
    · intro hrestored
      cases hrestored
    · rw [if_pos hid]
      exact hdraining
  · next commit hcommit =>
    obtain ⟨checkout, heffect, hcheckout⟩ := restore_eq hinput h.same hcommit hbranch
    rw [if_neg hnothrew]
    unfold Update.ran
    rw [heffect]
    refine ⟨{ h with }, hneeds, ?_, ?_⟩
    · exact fun hrestored => hcheckout (of_decide_eq_true hrestored)
    · rw [if_pos hid]
      exact hdraining

theorem leaveManual_ok (h : Undone w input u) (hdraining : u.draining)
    (hcheckout : checkoutRestored → u.installation.checkout = w.checkout)
    (hpin : envRestored → PinBefore w u) :
    PhaseOk w input (u.leaveManual step checkoutRestored envRestored) := by
  unfold Update.leaveManual
  refine finish_ok hinput (failed_of_draining ⟨h.same, h.notOk, ?_, ?_, h.remote⟩ h.threw hdraining (.inr ?_))
  · cases envRestored with
    | true => exact .inl (hpin rfl)
    | false => exact .inr (.inr ⟨h.threw, told_manual_pin _ _ _⟩)
  · exact .inr (.inr ⟨h.threw, told_manual_mix _ _ _ _⟩)
  · cases checkoutRestored with
    | true => exact .inl (hcheckout rfl)
    | false => exact .inr (.inl ⟨h.threw, told_manual_checkout _ _ _⟩)

theorem unpinned_ok (hphase : u.phase = .unpinning step checkoutRestored) (h : PhaseOk w input u) :
    PhaseOk w input (u.unpinned step checkoutRestored answer) := by
  unfold PhaseOk at h
  rw [hphase] at h
  obtain ⟨h, hneeds, hcheckout, hstep⟩ := h
  -- Whether the pin was restored, the run goes on from an environment in which it is read.
  obtain ⟨env, restored, hwrite, hsome, hreadable, hpin⟩ : ∃ env restored,
      (writeEnv u.revertAssignments answer u.installation).getD u.installation = { u.installation with env } ∧
        (writeEnv u.revertAssignments answer u.installation).isSome = restored ∧ Readable env ∧
        (restored → PinBefore w { u with installation := { u.installation with env } }) := by
    obtain ⟨env, hwrite, hpin, hreadable⟩ | ⟨-, hwrite⟩ := revert_ok hinput h answer
    · exact ⟨env, true, by rw [hwrite]; rfl, by rw [hwrite]; rfl, hreadable, fun _ => hpin⟩
    · exact ⟨u.installation.env, false, by rw [hwrite]; rfl, by rw [hwrite]; rfl, h.readable, fun hno => by cases hno⟩
  unfold Update.unpinned
  dsimp only
  rw [hwrite, hsome]
  have hundone : Undone w input { u with installation := { u.installation with env } } :=
    { h with readable := hreadable }
  by_cases hid : step.id = .recreate
  · rw [if_pos hid] at hstep ⊢
    split
    · next hrestored =>
      exact ⟨{ h with readable := hreadable }, hneeds, hcheckout hrestored, hstep, hpin, hid⟩
    · refine leaveManual_ok hinput hundone hstep ?_ hpin
      intro hno
      cases hno
  · rw [if_neg hid] at hstep ⊢
    obtain ⟨hdraining, hheld, hservices, hrestored⟩ := hstep
    refine finish_ok hinput ⟨⟨h.same, h.notOk, ?_, .inl hservices, h.remote⟩, ?_, fun _ => hheld,
      .inr (.inl (hcheckout hrestored))⟩
    · cases restored with
      | true => exact .inl (hpin rfl)
      | false => exact .inr (.inr ⟨h.threw, told_notRecreated _⟩)
    · exact fun _ => hdraining

theorem recovered_ok (hphase : u.phase = .recovering step envRestored)
    (h : PhaseOk w input u) (horderly : Orderly w u answer) :
    PhaseOk w input (u.recovered step envRestored answer) := by
  unfold PhaseOk at h
  unfold Orderly at horderly
  rw [hphase] at h horderly
  obtain ⟨h, hneeds, hcheckout, hdraining, hpin, hid⟩ := h
  unfold Update.recovered Update.ran Update.recoverStep Command.effect
  cases houtcome : answer.outcome with
  | ok =>
    refine finish_ok hinput (failed_of_draining ⟨h.same, h.notOk, ?_, ?_, h.remote⟩ h.threw hdraining
      (.inr (.inl hcheckout)))
    · cases envRestored with
      | true => exact .inl (hpin rfl)
      | false => exact .inr (.inl ⟨h.threw, told_recovered _ _⟩)
    · refine .inr (.inl ?_)
      rw [h.services.recreate, hcheckout, h.same]
  | failed =>
    refine leaveManual_ok hinput ⟨h.same, h.notOk, h.threw, h.readable, ?_, h.remote⟩ hdraining
      (fun _ => hcheckout) hpin
    exact (Services.same_asIn _ _).trans h.services
  | threw => exact absurd houtcome horderly

/-! ### Every step and every run -/

theorem phaseOk_step (h : PhaseOk w input u) (horderly : Orderly w u answer) :
    PhaseOk w input (u.step answer) := by
  unfold Update.step
  split
  · next hphase => exact ranGit_ok hinput hphase h
  · next hphase => exact readHead_ok hinput hphase h
  · next hphase => exact pinned_ok hinput hphase h horderly
  · next hphase => exact begun_ok hphase h
  · next hphase => exact ranCompose_ok hphase h horderly
  · next hphase => exact paused_ok hinput hphase h horderly
  · next hphase => exact restored_ok hinput hphase h horderly
  · next hphase => exact unpinned_ok hinput hphase h
  · next hphase => exact recovered_ok hinput hphase h horderly
  · next hphase => exact cleared_ok hinput hphase h horderly
  · next hphase => exact cleaned_ok hinput hphase h horderly
  · next hphase => exact pointed_ok hinput hphase h horderly
  · exact h

theorem phaseOk_execute (hheld : w.held = false) : PhaseOk w input (execute input w) := by
  unfold execute
  have hstart : ∀ {u : Update}, u.input = input → u.installation = w → u.report.ok = false → u.draining = false →
      u.checkoutNeedsRestore = false → Started w input u := by
    intro u hsame hinstallation hok hdraining hneeds
    exact ⟨hsame, hok, hinstallation ▸ rfl, hinstallation ▸ rfl, hinstallation ▸ hheld, hdraining,
      fun _ => hinstallation ▸ rfl, fun _ => hinstallation ▸ rfl, fun _ => hneeds⟩
  cases hstrategy : input.strategy with
  | build => exact nextGit_ok (hstart rfl rfl rfl rfl rfl) rfl hstrategy hinput.git
  | pull =>
    unfold Update.gitSteps
    dsimp only
    rw [hinput.pull hstrategy]
    unfold Update.nextGit Update.afterGit
    rw [if_neg (by rw [hstrategy]; decide)]
    refine resolved_ok hinput (hstart rfl rfl rfl rfl rfl) rfl hinput.toTag ?_
    intro hbuild
    rw [hstrategy] at hbuild
    cases hbuild

end

/-- An update that ends, where all goes orderly, has either been done or been undone up to what its
advice tells. -/
theorem execute_holds (hplan : Planned w input) (hheld : w.held = false) (answers : List Answer)
    (horderly : Run.Meets Update.step (Orderly w) (execute input w) answers)
    (hended : (Run.after Update.step (execute input w) answers).phase = .ended) :
    EndOk w input (Run.after Update.step (execute input w) answers) := by
  have hinput := inputOk_of_planned hplan
  have hstep : ∀ u answer, PhaseOk w input u → Orderly w u answer → PhaseOk w input (u.step answer) :=
    fun _ _ => phaseOk_step hinput
  have hphase := Run.inv_of_meets hstep (phaseOk_execute hinput hheld) horderly
  unfold PhaseOk at hphase
  rw [hended] at hphase
  exact hphase

end ArdurBot.Updater
