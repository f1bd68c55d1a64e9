import ArdurBot.Lib.Run
import ArdurBot.Updater.EnvFileOk
import ArdurBot.Updater.Execute

/-!
# What a run of the updater leaves

A run goes through its steps, undoes them if one fails, and cleans up. For each thing that it waits
for there is what the installation is like then.
-/

namespace ArdurBot.Updater

open List Utf16

variable {w : Installation} {input : Input} {u : Update}

/-- A step of Git that changes the remote or the checkout is one that is undone. -/
def GitStepOk (input : Input) (step : Step) : Prop :=
  match step.command with
  | .setUrl _ => input.restoreRemoteUrl.isSome
  | .fetch _ => True
  | .checkout _ => step.id = .checkout
  | .merge _ => step.id = .merge
  | _ => False

def Recreates : List Step → Prop
  | [] => False
  | [step] => step.id = .recreate ∧ ∃ build, step.command = .up build
  | step :: rest => step.id = .pull ∧ step.command = .pull ∧ Recreates rest

structure InputOk (w : Installation) (input : Input) : Prop where
  fromTag : input.fromTag = (readTagState w.env).currentTag
  previousTag : input.originalPreviousTag = (readTagState w.env).previousTag
  toTag : ∀ tag ∈ input.toTag, isValidImageTag tag
  commit : ∀ commit ∈ input.fromCommit, commit = w.checkout.commit
  restorable : input.strategy = .build →
    (input.fromCommit.filter fun commit => isGitCommit commit).isSome = true
  remote : ∀ url ∈ input.restoreRemoteUrl, url = w.remote
  git : ∀ step ∈ input.steps.filter fun step => step.command.isGit, GitStepOk input step
  compose : Recreates (input.steps.filter fun step => !step.command.isGit)
  pull : input.strategy = .pull → (input.steps.filter fun step => step.command.isGit) = []
  build : input.strategy = .build → ∀ step ∈ input.steps.filter fun step => !step.command.isGit,
    step.id = .recreate

variable {advice commit tag text : Text}

theorem isValidImageTag_prefixed {pre : Text} (hpre : pre.all isTagUnit) (hlength : pre.length ≤ 6)
    (hstart : pre.head?.any (fun u => isUpper u || isLower u || isDigit u || u = unit '_') = true)
    (hcommit : isResolvedCommit commit) : isValidImageTag (pre ++ commit) := by
  unfold isResolvedCommit at hcommit
  rw [Bool.and_eq_true, Bool.and_eq_true, all_eq_true] at hcommit
  obtain ⟨⟨-, hlong⟩, hhex⟩ := hcommit
  have hunits : ∀ u ∈ pre ++ commit, isTagUnit u := by
    intro u hu
    obtain hin | hin := mem_append.mp hu
    · exact all_eq_true.mp hpre u hin
    · have hu := hhex u hin
      unfold isLowerHex at hu
      unfold isTagUnit isLower
      rw [Bool.or_eq_true, Bool.and_eq_true] at hu
      obtain hdigit | ⟨hfrom, hto⟩ := hu
      · rw [hdigit]
        simp
      · have hz : u ≤ unit 'z' := le_trans (of_decide_eq_true hto) (by decide)
        rw [hfrom, decide_eq_true hz]
        simp
  cases pre with
  | nil => cases hstart
  | cons u pre =>
    unfold isValidImageTag
    rw [cons_append]
    rw [Bool.and_eq_true, Bool.and_eq_true, all_eq_true]
    refine ⟨⟨hstart, decide_eq_true ?_⟩, ?_⟩
    · rw [length_append]
      rw [length_cons] at hlength
      have := of_decide_eq_true hlong
      omega
    · intro v hv
      exact hunits v (mem_cons_of_mem _ hv)

theorem isValidImageTag_fork (h : forkImageTag commit = some tag) : isValidImageTag tag := by
  unfold forkImageTag at h
  split at h
  · next hcommit =>
    cases h
    exact isValidImageTag_prefixed (by decide) (by decide) (by decide) hcommit
  · cases h

theorem isValidImageTag_commit (h : commitImageTag commit = some tag) : isValidImageTag tag := by
  unfold commitImageTag at h
  split at h
  · next hcommit =>
    cases h
    exact isValidImageTag_prefixed (by decide) (by decide) (by decide) hcommit
  · cases h

theorem readTagState_valid (contents : Text) : isValidImageTag (readTagState contents).currentTag ∧
    ∀ tag, (readTagState contents).previousTag = some tag → isValidImageTag tag := by
  unfold readTagState
  refine ⟨?_, ?_⟩
  · dsimp only
    cases hread : (readEnvAssignment contents imageTagEnv).filter fun tag => isValidImageTag tag with
    | none => decide
    | some tag => exact (Option.filter_eq_some_iff.mp hread).2
  · intro tag htag
    exact (Option.filter_eq_some_iff.mp htag).2

theorem inputOk_of_planned (h : Planned w input) : InputOk w input := by
  have hcommit : ∀ read, ∀ commit ∈ readCommit w read, commit = w.checkout.commit := by
    intro read commit hcommit
    unfold readCommit at hcommit
    split at hcommit
    · exact (Option.some.inj hcommit).symm
    · cases hcommit
  cases h with
  | pull repoUrl branch commitRead branchRead releaseTag toTag commit htag =>
    refine ⟨rfl, rfl, ?_, hcommit commitRead, (fun h => by cases h), ?_, ?_, ?_, fun _ => rfl, ?_⟩
    · intro tag hmem
      rw [← Option.some.inj hmem]
      exact isValidImageTag_commit htag
    · intro url hurl
      cases hurl
    · intro step hstep
      cases hstep
    · exact ⟨rfl, rfl, rfl, false, rfl⟩
    · intro hstrategy
      cases hstrategy
  | build repoUrl branch branchRead differs hvalid =>
    refine ⟨rfl, rfl, ?_, hcommit true, ?_, ?_, ?_, ?_, ?_, ?_⟩
    · intro tag hmem
      cases hmem
    · intro _
      unfold buildInput readCommit
      rw [if_pos rfl, Option.filter_some, if_pos hvalid]
      rfl
    · intro url hurl
      unfold buildInput at hurl
      split at hurl
      · exact (Option.some.inj hurl).symm
      · cases hurl
    · intro step hstep
      have hmem := mem_of_mem_filter hstep
      have hgit := (mem_filter.mp hstep).2
      unfold buildInput composeUpdatePlan at hmem
      obtain hremote | hmem := mem_append.mp hmem
      · split at hremote
        · next hrepoint =>
          rw [Bool.and_eq_true] at hrepoint
          rw [mem_singleton.mp hremote]
          unfold GitStepOk buildInput
          rw [hrepoint.1]
          rfl
        · cases hremote
      · simp only [mem_cons, not_mem_nil, or_false] at hmem
        obtain rfl | rfl | rfl | rfl := hmem
        · exact trivial
        · exact rfl
        · exact rfl
        · cases hgit
    · unfold buildInput composeUpdatePlan
      dsimp only
      split
      · exact ⟨rfl, true, rfl⟩
      · exact ⟨rfl, true, rfl⟩
    · intro hstrategy
      cases hstrategy
    · intro _ step hstep
      have hmem := mem_of_mem_filter hstep
      have hgit := (mem_filter.mp hstep).2
      unfold buildInput composeUpdatePlan at hmem
      obtain hremote | hmem := mem_append.mp hmem
      · split at hremote
        · rw [mem_singleton.mp hremote] at hgit
          cases hgit
        · cases hremote
      · simp only [mem_cons, not_mem_nil, or_false] at hmem
        obtain rfl | rfl | rfl | rfl := hmem
        · cases hgit
        · cases hgit
        · cases hgit
        · rfl
  | rollback commitRead branchRead tag htag =>
    refine ⟨rfl, rfl, ?_, hcommit commitRead, (fun h => by cases h), ?_, ?_, ?_, fun _ => rfl, ?_⟩
    · intro tag' hmem
      rw [← Option.some.inj hmem]
      exact (readTagState_valid w.env).2 tag htag
    · intro url hurl
      cases hurl
    · intro step hstep
      cases hstep
    · exact ⟨rfl, false, rfl⟩
    · intro hstrategy
      cases hstrategy

/-- The services are the same ones, whatever they run. -/
def Services.Same (services others : Services) : Prop := services.map Prod.fst = others.map Prod.fst

theorem Services.same_asIn (services others : Services) : (services.asIn others).Same services := by
  unfold Services.Same Services.asIn
  rw [map_map]
  rfl

theorem Services.Same.recreate {services others : Services} (h : services.Same others) (service : Service) :
    services.recreate service = others.recreate service := by
  have hnames : ∀ services :
      Services, services.recreate service = (services.map Prod.fst).map fun name =>
      (name, some service) := by
    intro services
    rw [map_map]
    rfl
  rw [hnames, hnames, h]

/-- The run is reported, and its advice says so. -/
def Told (u : Update) (text : Text) : Prop := u.threw = false ∧ text <:+: u.report.restartAdvice

def pinLeft : Text := lit "could not restore the environment pin"

def pinNotRestored : Text := lit "environment pin could not be restored"

def checkoutLeft : Text := lit "he previous checkout could not be restored"

def checkoutAlsoLeft : Text := lit "The previous checkout also could not be restored"

def remoteLeft : Text := lit "The previous Git remote also could not be restored"

def mixLeft : Text := lit "The runtime may contain a mix of versions"

theorem infix_of_eq {whole : Text} (before after : Text) (h : whole = before ++ text ++ after) :
    text <:+: whole :=
  ⟨before, after, h.symm⟩

theorem told_recovered (primaryError fromTag : Text) :
    pinLeft <:+: recoveredAdvice primaryError fromTag false := by
  refine infix_of_eq (primaryError ++ lit " The updater restored the previously running " ++
    fromTag ++ lit " image" ++ lit ", but ")
    (lit ". Read the failed step output before retrying.") ?_
  unfold recoveredAdvice
  rw [if_neg Bool.false_ne_true, append_assoc _ (lit ", but ") pinLeft]
  unfold pinLeft
  repeat rw [lit_ofList]
  rfl

theorem told_notRecreated (primaryError : Text) :
    pinNotRestored <:+: notRecreatedAdvice primaryError false := by
  refine infix_of_eq (primaryError ++ lit " No service was recreated" ++ lit ", but the prior ")
    (lit ". Read the failed step output before retrying.") ?_
  unfold notRecreatedAdvice
  rw [if_neg Bool.false_ne_true, append_assoc _ (lit ", but the prior ") pinNotRestored]
  unfold pinNotRestored
  repeat rw [lit_ofList]
  rfl

section

variable (primaryError fromTag : Text)

theorem told_manual_mix (checkoutRestored envRestored : Bool) :
    mixLeft <:+: manualAdvice primaryError fromTag checkoutRestored envRestored := by
  refine infix_of_eq (primaryError ++ lit " Automatic recovery to " ++ fromTag ++ lit " " ++
    (if checkoutRestored then lit "also failed"
    else lit "was skipped because the previous checkout could not be restored") ++
    (if envRestored then [] else lit ", and the environment pin could not be restored") ++ lit ". ")
    (lit "; use the recorded commands to recover it manually.") ?_
  unfold manualAdvice
  rw [append_assoc _ (lit ". ") mixLeft, append_assoc _ (lit ". " ++ mixLeft)]
  unfold mixLeft
  repeat rw [lit_ofList]
  rfl

theorem told_manual_pin (checkoutRestored : Bool) :
    pinNotRestored <:+: manualAdvice primaryError fromTag checkoutRestored false := by
  refine infix_of_eq (primaryError ++ lit " Automatic recovery to " ++ fromTag ++ lit " " ++
    (if checkoutRestored then lit "also failed"
    else lit "was skipped because the previous checkout could not be restored") ++ lit ", and the ")
    (lit ". The runtime may contain a mix of versions; use the recorded commands to recover it manually.") ?_
  unfold manualAdvice
  rw [if_neg Bool.false_ne_true, append_assoc _ (lit ", and the ") pinNotRestored]
  unfold pinNotRestored
  repeat rw [lit_ofList]
  rfl

theorem told_manual_checkout (envRestored : Bool) :
    checkoutLeft <:+: manualAdvice primaryError fromTag false envRestored := by
  refine infix_of_eq (primaryError ++ lit " Automatic recovery to " ++ fromTag ++ lit " " ++
    lit "was skipped because t")
    ((if envRestored then [] else lit ", and the environment pin could not be restored") ++
      lit ". The runtime may contain a mix of versions; use the recorded commands to recover it manually.") ?_
  unfold manualAdvice
  rw [if_neg Bool.false_ne_true, append_assoc _ (lit "was skipped because t") checkoutLeft,
    ← append_assoc _ _ (lit _)]
  unfold checkoutLeft
  repeat rw [lit_ofList]
  rfl

end

theorem told_checkout (advice : Text) : checkoutAlsoLeft <:+: checkoutAdvice advice := by
  refine infix_of_eq (advice ++ lit " ") (lit "; fix it before retrying.") ?_
  unfold checkoutAdvice
  rw [append_assoc advice, append_assoc advice]
  unfold checkoutAlsoLeft
  repeat rw [lit_ofList]
  rfl

theorem told_remote (advice : Text) : remoteLeft <:+: remoteAdvice advice := by
  refine infix_of_eq (advice ++ lit " ") (lit "; fix it before retrying.") ?_
  unfold remoteAdvice
  rw [append_assoc advice, append_assoc advice]
  unfold remoteLeft
  repeat rw [lit_ofList]
  rfl

theorem infix_checkoutAdvice (h : text <:+: advice) : text <:+: checkoutAdvice advice :=
  h.trans (prefix_append _ _).isInfix

theorem infix_remoteAdvice (h : text <:+: advice) : text <:+: remoteAdvice advice :=
  h.trans (prefix_append _ _).isInfix

section

variable (w : Installation) (u : Update)

/-- The tags that were pinned are, and the previous one where there was one. -/
def PinBefore : Prop :=
  (readTagState u.installation.env).currentTag = (readTagState w.env).currentTag ∧
    ∀ tag, (readTagState w.env).previousTag = some tag → (readTagState u.installation.env).previousTag = some tag

def PinOk : Prop := PinBefore w u ∨ Told u pinLeft ∨ Told u pinNotRestored

def CheckoutOk : Prop :=
  u.installation.checkout = w.checkout ∨ Told u checkoutLeft ∨ Told u checkoutAlsoLeft

def RemoteOk : Prop := u.installation.remote = w.remote ∨ Told u remoteLeft

end

/-- No service was recreated, or all were, from the image and the checkout before. -/
def ServicesOk (w : Installation) (input : Input) (u : Update) : Prop :=
  u.installation.services = w.services ∨
    u.installation.services = w.services.recreate ⟨input.fromTag, w.checkout⟩ ∨
    Told u mixLeft

/-- The hold of the run is cleared, or is reported not to be. -/
def HoldOk (u : Update) : Prop :=
  u.installation.held = false ∨
    (u.threw = false ∧ u.report.ok = false ∧ u.report.error = some restartPausedMessage)

/-- The tag and the checkout of the run, and its services recreated from them. -/
structure Updated (w : Installation) (input : Input) (u : Update) : Prop where
  reported : u.threw = false ∧ u.report.ok
  target : ∃ toTag, u.report.toTag = some toTag ∧
    readTagState u.installation.env = ⟨toTag, some (readTagState w.env).currentTag⟩ ∧
    u.installation.services = w.services.recreate ⟨toTag, u.installation.checkout⟩
  build : input.strategy = .build → u.report.toCommit = some (trim u.installation.checkout.commit) ∧
    u.report.toTag = forkImageTag (trim u.installation.checkout.commit)
  pull : input.strategy = .pull → u.installation.checkout = w.checkout

structure AsBefore (w : Installation) (input : Input) (u : Update) : Prop where
  notOk : u.threw ∨ u.report.ok = false
  pin : PinOk w u
  checkout : CheckoutOk w u
  remote : RemoteOk w u
  services : ServicesOk w input u

end ArdurBot.Updater
