import ArdurBot.Lib.Ranking
import ArdurBot.Lib.Utf16

/-!
# The chief's choice of a member

`chooseChiefMember` of `packages/core/src/chief-loop-policy.ts`, with the rules it reads. Of a
member are kept the facts that decide. How texts are put in lower case, and how `localeCompare`
orders them, is for the runtime. Members are ordered by keys of which the last is the id, so that
the choice does not depend on the order of the candidates.
-/

namespace ArdurBot.Chief

open List Utf16 Ranking Option

section

inductive TaskType where
  | smallTalk
  | simpleQuestion
  | writing
  | summary
  | codeChange
  | debugging
  | review
  | planning
  | research
  | data
  | operations
  | unknown

def TaskType.text : TaskType → Text
  | .smallTalk => lit "small-talk"
  | .simpleQuestion => lit "simple-question"
  | .writing => lit "writing"
  | .summary => lit "summary"
  | .codeChange => lit "code-change"
  | .debugging => lit "debugging"
  | .review => lit "review"
  | .planning => lit "planning"
  | .research => lit "research"
  | .data => lit "data"
  | .operations => lit "operations"
  | .unknown => lit "unknown"

inductive Purpose where
  | documentToService
  | installTool
  | general
  | createIssue
  | manageRepository
deriving DecidableEq

def Purpose.text : Purpose → Text
  | .documentToService => lit "document-to-service"
  | .installTool => lit "install-tool"
  | .general => lit "general"
  | .createIssue => lit "create-issue"
  | .manageRepository => lit "manage-repository"

structure ChiefOperation where
  taskType : TaskType
  purpose : Purpose

inductive RankingKey where
  | skill
  | role
  | slot
  | active
  | queued
  | id
deriving DecidableEq

inductive OnNoMatch where
  | queue
  | prepareAndAsk
  | chiefPlan
  | needsOwner
deriving DecidableEq

structure ChiefRule where
  operation : ChiefOperation
  requires : List Text
  preferredSkills : List Text
  preferredRoles : List Text
  ranking : List RankingKey
  onNoMatch : OnNoMatch

def ranking : List RankingKey := [.skill, .role, .slot, .active, .queued, .id]

def generalRule (taskType : TaskType) : ChiefRule :=
  ⟨⟨taskType, .general⟩, [], [taskType.text], [taskType.text], ranking, .chiefPlan⟩

/-- `CHIEF_OPERATION_RULES` -/
def chiefOperationRules : List ChiefRule :=
  [⟨⟨.operations, .documentToService⟩, [lit "notion:read-back"],
    [lit "document", lit "publishing", lit "notion"],
      [lit "documentation", lit "operations"], ranking, .chiefPlan⟩,
    ⟨⟨.operations, .installTool⟩, [lit "computer:package-preparation"], [lit "installation", lit "runbook"],
      [lit "operations"], ranking, .chiefPlan⟩,
    ⟨⟨.operations, .createIssue⟩, [lit "linear:read-back", lit "linear:write"],
      [lit "planning", lit "issue-tracking", lit "linear"], [lit "product", lit "operations"], ranking, .needsOwner⟩,
    ⟨⟨.codeChange, .manageRepository⟩, [lit "github:read-back", lit "github:write"],
      [lit "vcs", lit "git", lit "github"],
      [lit "developer", lit "operations"], ranking, .needsOwner⟩]

/-- A rule of the purpose, or the one that `CHIEF_TASK_RULES` has for the task. -/
def chiefRule (operation : ChiefOperation) : ChiefRule :=
  (chiefOperationRules.find? fun row => row.operation.purpose = operation.purpose).getD
    (generalRule operation.taskType)

inductive Access where
  | known
  | missing
  | unknown
deriving DecidableEq

structure ChiefCapabilityFact where
  id : Text
  access : Access

structure MemberComputer where
  id : Text
  isLocal : Bool
  leaseBusy : Bool

structure ChiefMemberFacts where
  id : Text
  role : Text
  /-- The descriptors of the skills. -/
  skills : List Text
  capabilities : List ChiefCapabilityFact
  authorized : Bool
  runtimeSupported : Bool
  computer : Option MemberComputer
  inputAccess : Access
  activeRuns : ℤ
  queuedRuns : ℤ
  runLimit : ℤ

inductive BlockerKey where
  | connectLinear
  | connectGithub
deriving DecidableEq

/-- `CHIEF_ACTIVITY_TEXT` of a blocker. -/
def BlockerKey.text : BlockerKey → Text
  | .connectLinear => lit "Connect Linear or grant a team member permission to read and write."
  | .connectGithub => lit "Connect GitHub or grant a team member permission to read and write."

inductive ChiefDecision where
  | self
  | delegate (memberId reason : Text)
  | queue (memberId reason : Text)
  | needsOwner (blocker : Text) (blockerKey : BlockerKey)
  | plan
deriving DecidableEq

structure ChiefRequest where
  chiefId : Text
  operation : ChiefOperation
  excludedIds : List Text
  explicitMemberId : Option Text
  requiredComputerId : Option Text

def given (id : Option Text) : Option Text := id.filter fun text => text ≠ []

variable (toLowerCase : Text → Text) (localeCompare : Text → Text → ℤ) (request : ChiefRequest)

section

variable (member : ChiefMemberFacts)

def hasCapability (capability : Text) : Bool :=
  member.capabilities.any fun fact => fact.id = capability && fact.access = .known

def isEligible : Bool :=
  member.authorized && member.runtimeSupported &&
    member.inputAccess = .known && member.id ∉ request.excludedIds &&
    (member.computer.any fun computer => computer.isLocal) &&
    ((given request.requiredComputerId).all fun required => member.computer.any fun computer =>
      computer.id = required) &&
    (request.operation.purpose ≠ .installTool || (given request.requiredComputerId).isSome) &&
    (chiefRule request.operation).requires.all (hasCapability member)

def ready : Bool :=
  member.activeRuns < member.runLimit && !member.computer.any fun computer => computer.leaseBusy

end

def matchesAny (values preferences : List Text) : Bool :=
  preferences.any fun preferred => values.any fun value => preferred <:+: toLowerCase value

def compareKey (rule : ChiefRule) : RankingKey → ChiefMemberFacts → ChiefMemberFacts → ℤ
  | .skill => byScore fun member => if matchesAny toLowerCase member.skills rule.preferredSkills then 0 else 1
  | .role => byScore fun member => if matchesAny toLowerCase [member.role] rule.preferredRoles then 0 else 1
  | .slot => byScore fun member => if ready member then 0 else 1
  | .active => byScore fun member => member.activeRuns
  | .queued => byScore fun member => member.queuedRuns
  | .id => fun a b => localeCompare a.id b.id

/-- The member that is asked for comes first. -/
def compareExplicit (explicitMemberId : Text) (a b : ChiefMemberFacts) : ℤ :=
  (if b.id = explicitMemberId then 1 else 0) - if a.id = explicitMemberId then 1 else 0

def compareMembers (a b : ChiefMemberFacts) : ℤ :=
  lexicographic
    (((given request.explicitMemberId).map compareExplicit).toList ++
      (chiefRule request.operation).ranking.map
        (compareKey toLowerCase localeCompare (chiefRule request.operation))) a b

def chooseChiefMember (members : List ChiefMemberFacts) : ChiefDecision :=
  if request.operation.purpose = .general then .plan
  else
    match (sort (compareMembers toLowerCase localeCompare request) (members.filter (isEligible request))).head? with
    | none =>
      if (chiefRule request.operation).onNoMatch = .needsOwner then
        let blockerKey := if request.operation.purpose = .createIssue then .connectLinear else .connectGithub
        .needsOwner blockerKey.text blockerKey
      else .plan
    | some best =>
      if best.id = request.chiefId then .self
      else
        let reason := request.operation.purpose.text ++ lit ": saved capability, skill, role and capacity"
        if ready best then .delegate best.id reason else .queue best.id reason

end

variable {toLowerCase : Text → Text} {localeCompare : Text → Text → ℤ} {request : ChiefRequest}
  {members members' : List ChiefMemberFacts} {member best : ChiefMemberFacts}
  {operation : ChiefOperation}

theorem comparison_compareKey (hlocale : Comparison localeCompare) (rule : ChiefRule) (key : RankingKey) :
    Comparison (compareKey toLowerCase localeCompare rule key) := by
  cases key with
  | skill | role | slot | active | queued => exact comparison_byScore _
  | id => exact ⟨fun a b => hlocale.flip a.id b.id, fun a b c => hlocale.trans a.id b.id c.id⟩

theorem comparison_compareMembers (hlocale : Comparison localeCompare) (request : ChiefRequest) :
    Comparison (compareMembers toLowerCase localeCompare request) := by
  refine comparison_lexicographic fun cmp hcmp => ?_
  obtain hexplicit | hkey := mem_append.mp hcmp
  · obtain ⟨explicitMemberId, -, rfl⟩ := map_eq_some_iff.mp (mem_toList.mp hexplicit)
    unfold compareExplicit
    refine ⟨fun a b => ?_, fun a b c hab hbc => ?_⟩ <;> omega
  · obtain ⟨key, -, rfl⟩ := mem_map.mp hkey
    exact comparison_compareKey hlocale _ key

theorem id_mem_ranking (operation : ChiefOperation) : .id ∈ (chiefRule operation).ranking := by
  have hrules : ∀ rule ∈ chiefOperationRules, .id ∈ rule.ranking := by decide
  unfold chiefRule
  cases hfound : chiefOperationRules.find? fun row => row.operation.purpose = operation.purpose with
  | none => exact (by decide : RankingKey.id ∈ ranking)
  | some rule => exact hrules rule (mem_of_find?_eq_some hfound)

theorem id_eq_of_compare (hstrict : ∀ a b, localeCompare a b = 0 → a = b)
    (h : compareMembers toLowerCase localeCompare request member best = 0) : member.id = best.id := by
  have hmem : compareKey toLowerCase localeCompare (chiefRule request.operation) .id ∈
      (chiefRule request.operation).ranking.map
        (compareKey toLowerCase localeCompare (chiefRule request.operation)) :=
    mem_map_of_mem (id_mem_ranking request.operation)
  exact hstrict _ _ (lexicographic_eq_zero h _ (mem_append_right _ hmem))

def chosenId (request : ChiefRequest) : ChiefDecision → Option Text
  | .self => some request.chiefId
  | .delegate memberId _ => some memberId
  | .queue memberId _ => some memberId
  | .needsOwner _ _ => none
  | .plan => none

def bestOf (toLowerCase : Text → Text) (localeCompare : Text → Text → ℤ) (request : ChiefRequest)
    (members : List ChiefMemberFacts) : Option ChiefMemberFacts :=
  (sort (compareMembers toLowerCase localeCompare request) (members.filter (isEligible request))).head?

theorem chosenId_eq (h : request.operation.purpose ≠ .general) :
    chosenId request (chooseChiefMember toLowerCase localeCompare request members) =
      (bestOf toLowerCase localeCompare request members).map ChiefMemberFacts.id := by
  unfold chooseChiefMember bestOf
  rw [if_neg h]
  cases (sort (compareMembers toLowerCase localeCompare request)
    (members.filter (isEligible request))).head? with
  | none =>
    dsimp only
    split <;> rfl
  | some best =>
    dsimp only
    split
    · next hself => exact congrArg some hself.symm
    · split <;> rfl

theorem bestOf_eq_some (hlocale : Comparison localeCompare)
    (h : bestOf toLowerCase localeCompare request members = some best) :
    (best ∈ members ∧ isEligible request best) ∧
      ∀ other ∈ members, isEligible request other →
        compareMembers toLowerCase localeCompare request best other ≤ 0 := by
  obtain ⟨hmem, hle⟩ := first_le (comparison_compareMembers hlocale request) h
  exact ⟨mem_filter.mp hmem, fun other hother heligible => hle other (mem_filter.mpr ⟨hother, heligible⟩)⟩

theorem bestOf_eq_none (h : bestOf toLowerCase localeCompare request members = none) :
    ∀ other ∈ members, isEligible request other = false := by
  have hnone := filter_eq_nil_iff.mp (head_sort_eq_none.mp h)
  exact fun other hother => Bool.eq_false_iff.mpr (hnone other hother)

theorem bestOf_eq_of_perm (hlocale : Comparison localeCompare)
    (hstrict : ∀ a b, localeCompare a b = 0 → a = b)
    (hids : (members.map ChiefMemberFacts.id).Nodup) (hperm : members.Perm members') :
    bestOf toLowerCase localeCompare request members = bestOf toLowerCase localeCompare request members' := by
  refine head_sort_eq_of_perm (comparison_compareMembers hlocale request) (hperm.filter _)
    fun a ha b hb hsame => ?_
  exact inj_on_of_nodup_map hids (mem_of_mem_filter ha) (mem_of_mem_filter hb)
    (id_eq_of_compare hstrict hsame)

/-- **The choice is fair.** It is the same for every order of the candidates, it falls on one that
may do the work and that no other candidate precedes, and unless the work is general, which the
chief plans, it falls on one where there is one. -/
theorem chooseChiefMember_fair (toLowerCase : Text → Text) (hlocale : Comparison localeCompare)
    (hstrict : ∀ a b, localeCompare a b = 0 → a = b) (request : ChiefRequest)
    (hids : (members.map ChiefMemberFacts.id).Nodup) :
    (∀ members', members.Perm members' → chooseChiefMember toLowerCase localeCompare request members =
      chooseChiefMember toLowerCase localeCompare request members') ∧
    (∀ memberId, chosenId request (chooseChiefMember toLowerCase localeCompare request members) = some memberId →
      ∃ best ∈ members, best.id = memberId ∧ isEligible request best = true ∧
        (best.authorized = true ∧ best.id ∉ request.excludedIds ∧
          ∀ capability ∈ (chiefRule request.operation).requires,
            ∃ fact ∈ best.capabilities, fact.id = capability ∧ fact.access = .known) ∧
        ∀ other ∈ members, isEligible request other = true →
          compareMembers toLowerCase localeCompare request best other ≤ 0) ∧
    (request.operation.purpose = .general → chooseChiefMember toLowerCase localeCompare request members = .plan) ∧
    (chosenId request (chooseChiefMember toLowerCase localeCompare request members) = none →
      request.operation.purpose = .general ∨ ∀ member ∈ members, isEligible request member = false) := by
  by_cases hgeneral : request.operation.purpose = .general
  · have hplan : ∀ members, chooseChiefMember toLowerCase localeCompare request members = .plan :=
      fun _ => if_pos hgeneral
    refine ⟨fun members' _ => by rw [hplan, hplan], fun memberId hchosen => ?_,
      fun _ => hplan members, fun _ => .inl hgeneral⟩
    rw [hplan] at hchosen
    cases hchosen
  · refine ⟨fun members' hperm => ?_, fun memberId hchosen => ?_, fun h => absurd h hgeneral, fun hnone => .inr ?_⟩
    · have hbest := @bestOf_eq_of_perm toLowerCase localeCompare request members members' hlocale hstrict hids hperm
      unfold bestOf at hbest
      unfold chooseChiefMember
      rw [hbest]
    · rw [chosenId_eq hgeneral] at hchosen
      obtain ⟨best, hbest, hid⟩ := map_eq_some_iff.mp hchosen
      obtain ⟨⟨hmem, heligible⟩, hle⟩ := bestOf_eq_some hlocale hbest
      have hfacts := heligible
      simp only [isEligible, Bool.and_eq_true, decide_eq_true_eq, List.all_eq_true] at hfacts
      obtain ⟨⟨⟨⟨⟨⟨⟨hauthorized, -⟩, -⟩, hexcluded⟩, -⟩, -⟩, -⟩, hcapabilities⟩ := hfacts
      refine ⟨best, hmem, hid, heligible, ⟨hauthorized, hexcluded, fun capability hrequired => ?_⟩, hle⟩
      simpa [hasCapability] using hcapabilities capability hrequired
    · rw [chosenId_eq hgeneral] at hnone
      exact bestOf_eq_none (map_eq_none_iff.mp hnone)

/-- The order of texts by their units, which is that of the locale on lower-case letters. -/
def compareUnits (a b : Text) : ℤ := if a < b then -1 else if b < a then 1 else 0

theorem comparison_compareUnits : Comparison compareUnits := by
  have hle : ∀ a b, compareUnits a b ≤ 0 ↔ ¬ b < a := by
    intro a b
    unfold compareUnits
    obtain hlt | rfl | hgt := lt_trichotomy a b
    · simp [hlt, hlt.not_gt]
    · simp
    · simp [hgt, hgt.not_gt]
  refine ⟨fun a b => ?_, fun a b c hab hbc => ?_⟩
  · unfold compareUnits
    obtain hlt | rfl | hgt := lt_trichotomy a b
    · simp [hlt, hlt.not_gt]
    · simp
    · simp [hgt, hgt.not_gt]
  · rw [hle, not_lt] at hab hbc ⊢
    exact hab.trans hbc

theorem eq_of_compareUnits (a b : Text) (h : compareUnits a b = 0) : a = b := by
  unfold compareUnits at h
  split at h
  · cases h
  · next hab =>
    split at h
    · cases h
    · next hba => exact le_antisymm (not_lt.mp hba) (not_lt.mp hab)

def capableMember (id : Text) : ChiefMemberFacts :=
  ⟨id, lit "documentation", [], [⟨lit "notion:read-back", .known⟩], true, true,
    some ⟨lit "computer", true, false⟩, .known,
    0, 0, 1⟩

def documentRequest : ChiefRequest :=
  ⟨lit "chief", ⟨.operations, .documentToService⟩, [], none, none⟩

theorem chooseChiefMember_fair_two :
    chooseChiefMember (fun text => text) compareUnits documentRequest [capableMember (lit "b"), capableMember (lit "a")] =
      chooseChiefMember (fun text => text) compareUnits documentRequest [capableMember (lit "a"), capableMember (lit "b")] :=
  (chooseChiefMember_fair (fun text => text) comparison_compareUnits eq_of_compareUnits
    documentRequest (by decide)).1 _
    (List.Perm.swap ..)

/-- General work is planned though there is a member that may do it. -/
theorem general_work_is_planned :
    chooseChiefMember (fun text => text) compareUnits ⟨lit "chief", ⟨.writing, .general⟩, [], none, none⟩
        [capableMember (lit "a")] = .plan ∧
      isEligible ⟨lit "chief", ⟨.writing, .general⟩, [], none, none⟩ (capableMember (lit "a")) = true := by decide

end ArdurBot.Chief
