import Mathlib.Data.List.ReduceOption
import ArdurBot.Lib.Checked
import ArdurBot.Usage.Request

/-!
# The order of usage observations

The totals of a request in closed form: a category is the sum of what is known of it, and complete
if each observation reported it. So the order of deltas does not matter, and an accumulation stops
only at a total that is too large or at a cumulative counter that decreased.
-/

namespace ArdurBot.Usage

open List PartialSum
open Option
open Checked (bind_eq_ok)

/-! ### What a validation accepts -/

section

variable {categories other : UsageCategories} {inputSemantics : InputSemantics}
  {reasoningSemantics : ReasoningSemantics} {totals : TokenTotals} {value : ℕ}

theorem parseToken_ok_iff {parsed : ℕ} : parseToken value = .ok parsed ↔ value ≤ tokenMax ∧
    parsed = value := by
  unfold parseToken
  split <;> rename_i h
  · simp [h, eq_comm]
  · simp [h]

/-- The input and output tokens together are a token count. -/
def TokensFit (categories : UsageCategories) (reasoningSemantics : ReasoningSemantics) : Prop :=
  (tokenTotals categories reasoningSemantics).inputTokens +
    (tokenTotals categories reasoningSemantics).outputTokens
    ≤ tokenMax

instance : Decidable (TokensFit categories reasoningSemantics) := by
  unfold TokensFit
  infer_instance

theorem usageTokenTotals_ok_iff : usageTokenTotals categories reasoningSemantics = .ok totals
      ↔ TokensFit categories reasoningSemantics ∧ totals = tokenTotals categories reasoningSemantics := by
  by_cases h : TokensFit categories reasoningSemantics
  · have hparse := parseToken_ok_iff.mpr ⟨h, rfl⟩
    simp only [usageTokenTotals, hparse, h, true_and]
    exact ⟨fun heq => (Except.ok.inj heq).symm, fun heq => by rw [heq]; rfl⟩
  · simp only [h, false_and, iff_false]
    have hparse : parseToken ((tokenTotals categories reasoningSemantics).inputTokens
        + (tokenTotals categories reasoningSemantics).outputTokens) = .error (.schema "") := if_neg h
    simp only [usageTokenTotals, hparse]
    exact fun heq => by cases heq

/-- What of the input a component is known to be. -/
def components (categories : UsageCategories) : ℕ :=
  (categories .uncachedInput).getD 0 + (categories .cacheReadInput).getD 0 +
    (categories .cacheWriteInput).getD 0

theorem sum_supplied : (supplied categories).sum = components categories := by
  unfold supplied components
  cases categories .uncachedInput <;> cases categories .cacheReadInput <;>
    cases categories .cacheWriteInput <;>
    simp [Nat.add_assoc]

def AllSupplied (categories : UsageCategories) : Prop :=
  (categories .uncachedInput).isSome ∧ (categories .cacheReadInput).isSome ∧
    (categories .cacheWriteInput).isSome

theorem length_supplied : (supplied categories).length = 3 ↔ AllSupplied categories := by
  unfold supplied AllSupplied
  cases categories .uncachedInput <;> cases categories .cacheReadInput <;>
    cases categories .cacheWriteInput <;>
    simp

theorem length_supplied_pos : ¬ 0 < (supplied categories).length
      ↔ categories .uncachedInput = none ∧ categories .cacheReadInput = none ∧
        categories .cacheWriteInput = none := by
  unfold supplied
  cases categories .uncachedInput <;> cases categories .cacheReadInput <;>
    cases categories .cacheWriteInput <;>
    simp

/-- The categories agree with each other under their semantics. -/
structure Coherent (inputSemantics : InputSemantics) (reasoningSemantics : ReasoningSemantics)
    (categories : UsageCategories) : Prop where
  within : ∀ input, categories .logicalInput = some input → components categories ≤ input
  exact : ∀ input, categories .logicalInput = some input → AllSupplied categories →
    components categories = input
  declared :
    inputSemantics = .unknown →
      categories .uncachedInput = none ∧ categories .cacheReadInput = none ∧ categories .cacheWriteInput = none
  subset :
    reasoningSemantics = .subsetOfOutput →
      ∀ output reasoning, categories .output = some output →
        categories .reasoning = some reasoning → reasoning ≤ output
  reasoned : reasoningSemantics = .unknown → categories .reasoning = none

theorem partitions_iff : partitions categories
      ↔ ∀ input, categories .logicalInput = some input →
          components categories ≤ input ∧ (AllSupplied categories → components categories = input) := by
  unfold partitions
  rw [sum_supplied, ← length_supplied]
  cases categories .logicalInput with
  | none => simp
  | some input =>
    simp only [Bool.and_eq_true, decide_eq_true_eq, Bool.or_eq_true, bne_iff_ne, beq_iff_eq, some.injEq,
      forall_eq', or_iff_not_imp_left, not_not, ne_eq]

theorem reasoningFits_iff : reasoningFits categories
      ↔ ∀ output reasoning,
          categories .output = some output → categories .reasoning = some reasoning → reasoning ≤ output := by
  unfold reasoningFits
  cases categories .output <;> cases categories .reasoning <;> simp

theorem validateUsageCategories_ok_iff :
    validateUsageCategories categories inputSemantics reasoningSemantics = .ok ()
      ↔ Coherent inputSemantics reasoningSemantics categories ∧ TokensFit categories reasoningSemantics := by
  have hguard : ∀ {c : Prop} [Decidable c] {error : UsageError} {rest : Except UsageError Unit},
      (do if c then throw error
          rest) = .ok () ↔ ¬ c ∧ rest = .ok () := by
    intro c _ error rest
    by_cases h : c
    · rw [if_pos h]
      exact ⟨fun heq => (by cases heq), fun hnot => absurd h hnot.1⟩
    · rw [if_neg h]
      exact ⟨fun heq => ⟨h, heq⟩, fun hrest => hrest.2⟩
  have htokens :
      (do let _ ← usageTokenTotals categories reasoningSemantics
          return () : Except UsageError Unit) = .ok () ↔ TokensFit categories reasoningSemantics := by
    cases h : usageTokenTotals categories reasoningSemantics with
    | ok totals => exact ⟨fun _ => (usageTokenTotals_ok_iff.mp h).1, fun _ => rfl⟩
    | error error =>
      refine ⟨fun heq => (by cases heq), fun hfit => ?_⟩
      rw [usageTokenTotals_ok_iff.mpr ⟨hfit, rfl⟩] at h
      cases h
  unfold validateUsageCategories
  rw [hguard, hguard, hguard, hguard, htokens]
  simp only [Bool.not_eq_true', Bool.not_eq_false, partitions_iff, reasoningFits_iff, not_and, length_supplied_pos,
    Bool.not_eq_true, isSome_eq_false_iff, isNone_iff_eq_none]
  constructor
  · rintro ⟨hpart, hdeclared, hsubset, hreasoned, hfit⟩
    exact ⟨⟨fun input h => (hpart input h).1, fun input h => (hpart input h).2, hdeclared, hsubset, hreasoned⟩, hfit⟩
  · rintro ⟨h, hfit⟩
    exact ⟨fun input hi => ⟨h.within input hi, h.exact input hi⟩, h.declared, h.subset, h.reasoned, hfit⟩

/-! ### Coherent categories -/

/-- The categories report nothing that the others do not. -/
def Restricts (categories other : UsageCategories) : Prop :=
  ∀ key value, categories key = some value → other key = some value

section

variable (h : Restricts categories other)
include h

theorem Restricts.getD_le (key : Category) : (categories key).getD 0 ≤ (other key).getD 0 := by
  cases hkey : categories key with
  | none => exact Nat.zero_le _
  | some value => rw [h key value hkey]

theorem Restricts.components_le : components categories ≤ components other := by
  have hu := h.getD_le .uncachedInput
  have hr := h.getD_le .cacheReadInput
  have hw := h.getD_le .cacheWriteInput
  unfold components
  omega

theorem Restricts.tokensFit (hfit : TokensFit other reasoningSemantics) :
    TokensFit categories reasoningSemantics := by
  have hi := h.getD_le .logicalInput
  have ho := h.getD_le .output
  have hr := h.getD_le .reasoning
  simp only [TokensFit, tokenTotals] at hfit ⊢
  split_ifs at hfit ⊢ <;> omega

end

theorem Restricts.eq_of_isSome {key : Category} (h : Restricts categories other)
    (hkey : (categories key).isSome) :
    categories key = other key := by
  obtain ⟨value, hvalue⟩ := isSome_iff_exists.mp hkey
  rw [hvalue, h key value hvalue]

theorem Coherent.restrict (hother : Coherent inputSemantics reasoningSemantics other)
    (h : Restricts categories other) : Coherent inputSemantics reasoningSemantics categories := by
  have hnone : ∀ key, other key = none → categories key = none := by
    intro key hkey
    by_contra hsome
    rw [h.eq_of_isSome (isSome_iff_ne_none.mpr hsome)] at hsome
    exact hsome hkey
  refine ⟨fun input hi => ?_, fun input hi hall => ?_, fun hs => ?_,
    fun hs output reasoning ho hr => ?_, fun hs => ?_⟩
  · exact h.components_le.trans (hother.within input (h _ _ hi))
  · obtain ⟨hu, hr, hw⟩ := hall
    have heq : components categories = components other := by
      unfold components
      rw [h.eq_of_isSome hu, h.eq_of_isSome hr, h.eq_of_isSome hw]
    rw [heq]
    refine hother.exact input (h _ _ hi) ⟨?_, ?_, ?_⟩
    · rwa [← h.eq_of_isSome hu]
    · rwa [← h.eq_of_isSome hr]
    · rwa [← h.eq_of_isSome hw]
  · obtain ⟨hu, hr, hw⟩ := hother.declared hs
    exact ⟨hnone _ hu, hnone _ hr, hnone _ hw⟩
  · exact hother.subset hs output reasoning (h _ _ ho) (h _ _ hr)
  · exact hnone _ (hother.reasoned hs)

/-- The sum of two reports, of what both know. -/
def both (categories other : UsageCategories) : UsageCategories :=
  fun key => Option.map₂ (· + ·) (categories key) (other key)

theorem both_eq_some {key : Category} : both categories other key = some value
      ↔ ∃ a b, categories key = some a ∧ other key = some b ∧ a + b = value := by
  unfold both
  rw [map₂_eq_some_iff]
  simp only [mem_def]

variable (categories other) in
theorem getD_both_le (key : Category) :
    (both categories other key).getD 0 ≤ (categories key).getD 0 + (other key).getD 0 := by
  unfold both
  cases categories key <;> cases other key <;> simp

theorem getD_both {key : Category} (h : (both categories other key).isSome) :
    (both categories other key).getD 0 = (categories key).getD 0 + (other key).getD 0
      ∧ (categories key).isSome ∧ (other key).isSome := by
  unfold both at h ⊢
  cases hc : categories key <;> cases ho : other key <;> simp_all

theorem Coherent.both {before : InputSemantics} (h : Coherent before reasoningSemantics categories)
    (hother : Coherent inputSemantics reasoningSemantics other) :
    Coherent inputSemantics reasoningSemantics (both categories other) := by
  refine ⟨fun input hi => ?_, fun input hi hall => ?_, fun hs => ?_,
    fun hs output reasoning ho hr => ?_, fun hs => ?_⟩
  · obtain ⟨a, b, ha, hb, rfl⟩ := both_eq_some.mp hi
    have hu := getD_both_le categories other .uncachedInput
    have hr := getD_both_le categories other .cacheReadInput
    have hw := getD_both_le categories other .cacheWriteInput
    have hleft := h.within a ha
    have hright := hother.within b hb
    unfold components at hleft hright ⊢
    omega
  · obtain ⟨a, b, ha, hb, rfl⟩ := both_eq_some.mp hi
    obtain ⟨hu, hus, hus'⟩ := getD_both hall.1
    obtain ⟨hr, hrs, hrs'⟩ := getD_both hall.2.1
    obtain ⟨hw, hws, hws'⟩ := getD_both hall.2.2
    have hleft := h.exact a ha ⟨hus, hrs, hws⟩
    have hright := hother.exact b hb ⟨hus', hrs', hws'⟩
    unfold components at hleft hright ⊢
    omega
  · obtain ⟨hu, hr, hw⟩ := hother.declared hs
    simp [Usage.both, hu, hr, hw]
  · obtain ⟨a, b, ha, hb, rfl⟩ := both_eq_some.mp ho
    obtain ⟨c, d, hc, hd, rfl⟩ := both_eq_some.mp hr
    have hleft := h.subset hs a c ha hc
    have hright := hother.subset hs b d hb hd
    omega
  · simp [Usage.both, h.reasoned hs]

end

/-! ### One observation -/

section

variable {reasoningSemantics : ReasoningSemantics} {previous : Option RequestUsageTotals}
  {request : RequestUsageObservation} {totals : RequestUsageTotals}

/-- An observation that is valid on its own, and counts reasoning as given. -/
structure Valid (reasoningSemantics : ReasoningSemantics) (request : RequestUsageObservation) :
  Prop where
  parsed : parseRequestUsage request = .ok request
  reasoningSemantics_eq : request.reasoningSemantics = reasoningSemantics

theorem Valid.coherent (h : Valid reasoningSemantics request) :
    Coherent request.inputSemantics reasoningSemantics request.categories := by
  have hvalidate :
      validateUsageCategories request.categories request.inputSemantics request.reasoningSemantics = .ok () := by
    have hparsed := h.parsed
    unfold parseRequestUsage at hparsed
    by_contra hnot
    split_ifs at hparsed
    all_goals first
      | cases hparsed
      | skip
    cases hcheck : validateUsageCategories request.categories request.inputSemantics request.reasoningSemantics with
    | ok _ => exact hnot hcheck
    | error error =>
      rw [hcheck] at hparsed
      cases hparsed
  rw [h.reasoningSemantics_eq] at hvalidate
  exact (validateUsageCategories_ok_iff.mp hvalidate).1

structure Fits (reasoningSemantics : ReasoningSemantics) (categories : UsageCategories) : Prop where
  category : ∀ key value, categories key = some value → value ≤ tokenMax
  tokens : TokensFit categories reasoningSemantics

def Decreases (previous : Option RequestUsageTotals) (request : RequestUsageObservation) : Prop :=
  ∃ key, decreases previous request key

theorem decreases_iff {key : Category} : decreases previous request key
      ↔ request.counter.mode = .cumulative
          ∧ ∃ value prior,
              request.categories key = some value ∧ priorOf previous key = some prior ∧ value < prior := by
  unfold decreases
  cases request.categories key <;> cases priorOf previous key <;> simp

theorem not_decreases_of_delta (h : request.counter.mode = .delta) : ¬ Decreases previous request := by
  rintro ⟨key, hkey⟩
  rw [decreases_iff, h] at hkey
  exact absurd hkey.1 (by decide)

theorem checkCategory_ok_iff {key : Category} : checkCategory previous request key = .ok ()
      ↔ ¬ decreases previous request key ∧ ∀ value, nextCategory previous request key = some value →
        value ≤ tokenMax := by
  unfold checkCategory
  cases hd : decreases previous request key with
  | true => exact ⟨fun heq => (by cases heq), fun h => absurd rfl h.1⟩
  | false =>
    rcases hn : nextCategory previous request key with _ | value
    · simp [pure, Except.pure]
    by_cases hv : value ≤ tokenMax
    · have hparse := parseToken_ok_iff.mpr ⟨hv, rfl⟩
      simp only [hparse]
      exact ⟨fun _ => ⟨by decide, fun other heq => some.inj heq ▸ hv⟩, fun _ => rfl⟩
    · have hparse : parseToken value = .error (.schema "") := if_neg hv
      simp only [hparse]
      exact ⟨fun heq => (by cases heq), fun h => absurd (h.2 value rfl) hv⟩

theorem forM_ok_iff {α : Type} {check : α → Except UsageError Unit} {keys : List α} :
    keys.forM check = .ok () ↔ ∀ key ∈ keys, check key = .ok () := by
  induction keys with
  | nil => simp [List.forM, pure, Except.pure]
  | cons key keys ih =>
    rw [forall_mem_cons, ← ih]
    change (check key >>= fun _ => keys.forM check) = .ok () ↔ _
    cases check key with
    | ok _ => exact ⟨fun h => ⟨rfl, h⟩, fun h => h.2⟩
    | error error => exact ⟨fun h => (by cases h), fun h => (by cases h.1)⟩

/-- What of the totals is known to be complete. -/
def complete (totals : RequestUsageTotals) : UsageCategories :=
  onlyComplete totals.categories totals.categoryCoverage

theorem complete_restricts (totals : RequestUsageTotals) : Restricts (complete totals) totals.categories := by
  intro key value h
  unfold complete onlyComplete at h
  split_ifs at h
  exact h

theorem accumulateRequestUsage_ok_iff : accumulateRequestUsage previous request = .ok totals
      ↔ ¬ Decreases previous request
          ∧ Fits request.reasoningSemantics (next previous request).categories
          ∧ Coherent request.inputSemantics request.reasoningSemantics (complete (next previous request))
          ∧ totals = next previous request := by
  have hloop :
      requestUsageCategories.forM (checkCategory previous request) = .ok ()
        ↔ ¬ Decreases previous request
            ∧ ∀ key value, (next previous request).categories key = some value → value ≤ tokenMax := by
    rw [forM_ok_iff]
    constructor
    · intro h
      refine ⟨fun ⟨key, hkey⟩ => ?_, fun key value hvalue => ?_⟩
      · exact (checkCategory_ok_iff.mp (h key (mem_requestUsageCategories key))).1 hkey
      · exact (checkCategory_ok_iff.mp (h key (mem_requestUsageCategories key))).2 value hvalue
    · intro h key _
      exact checkCategory_ok_iff.mpr ⟨fun hkey => h.1 ⟨key, hkey⟩, h.2 key⟩
  constructor
  · intro h
    obtain ⟨_, hf, h⟩ := bind_eq_ok.mp h
    obtain ⟨_, hv, h⟩ := bind_eq_ok.mp h
    obtain ⟨_, ht, h⟩ := bind_eq_ok.mp h
    obtain ⟨hdecreases, hcategory⟩ := hloop.mp hf
    exact ⟨hdecreases, ⟨hcategory, (usageTokenTotals_ok_iff.mp ht).1⟩,
      (validateUsageCategories_ok_iff.mp hv).1, (Except.ok.inj h).symm⟩
  · rintro ⟨hdecreases, hfits, hcoherent, rfl⟩
    have hf := hloop.mpr ⟨hdecreases, hfits.category⟩
    have hv := validateUsageCategories_ok_iff.mpr ⟨hcoherent, (complete_restricts _).tokensFit hfits.tokens⟩
    have ht := usageTokenTotals_ok_iff.mpr ⟨hfits.tokens, rfl⟩
    unfold complete at hv
    unfold accumulateRequestUsage
    simp only [bind, Except.bind, hf, hv, ht]
    rfl

theorem nextCoverage_complete_iff {key : Category} : nextCoverage previous request key = .complete
      ↔ (hasIncompleteUsage request.collection = false ∧ (request.categories key).isSome)
          ∧ resumes previous request key := by
  have hknown : (request.categories key).isSome → nextCategory previous request key ≠ none := by
    intro hsome
    obtain ⟨value, hvalue⟩ := isSome_iff_exists.mp hsome
    simp [nextCategory, hvalue]
  unfold nextCoverage
  split_ifs with hnone hall
  · refine ⟨fun h => (by cases h), ?_⟩
    rintro ⟨⟨-, hsome⟩, -⟩
    exact absurd hnone (hknown hsome)
  · simpa [and_assoc] using hall
  · refine ⟨fun h => (by cases h), ?_⟩
    rintro ⟨⟨hcollection, hsome⟩, hresumes⟩
    exact absurd ⟨by simp [hcollection], hsome, hresumes⟩ hall

theorem nextCategory_of_some {key : Category} {value : ℕ} (h : request.categories key = some value) :
    nextCategory previous request key
      = some (if request.counter.mode = .cumulative then value else (priorOf previous key).getD 0 + value) := by
  unfold nextCategory
  rw [h]

/-- Totals whose complete categories are known and agree. -/
structure TotalsOk (reasoningSemantics : ReasoningSemantics) (totals : RequestUsageTotals) :
  Prop where
  known : ∀ key, totals.categoryCoverage key = .complete → (totals.categories key).isSome
  coherent : ∃ inputSemantics, Coherent inputSemantics reasoningSemantics (complete totals)

theorem next_known (key : Category) (h : (next previous request).categoryCoverage key = .complete) :
    ((next previous request).categories key).isSome := by
  obtain ⟨⟨-, hsome⟩, -⟩ := nextCoverage_complete_iff.mp h
  obtain ⟨value, hvalue⟩ := isSome_iff_exists.mp hsome
  exact isSome_iff_exists.mpr ⟨_, nextCategory_of_some hvalue⟩

/-- A complete category after an observation is one that it reports, on top of what was complete
before. -/
theorem complete_next {key : Category} {value : ℕ}
    (h : complete (next previous request) key = some value) : ∃ reported,
      request.categories key = some reported
        ∧ resumes previous request key
        ∧ value = if request.counter.mode = .cumulative then reported
          else (priorOf previous key).getD 0 + reported := by
  have hcategory := complete_restricts _ _ _ h
  have hcoverage : nextCoverage previous request key = .complete := by
    by_contra hnot
    unfold complete onlyComplete next at h
    rw [if_neg hnot] at h
    cases h
  obtain ⟨⟨-, hsome⟩, hresumes⟩ := nextCoverage_complete_iff.mp hcoverage
  obtain ⟨reported, hreported⟩ := isSome_iff_exists.mp hsome
  refine ⟨reported, hreported, hresumes, ?_⟩
  exact some.inj (hcategory.symm.trans (nextCategory_of_some hreported))

section

variable (h : ∀ totals ∈ previous, TotalsOk reasoningSemantics totals)
  (hvalid : Valid reasoningSemantics request)
include h hvalid

theorem next_coherent :
    Coherent request.inputSemantics reasoningSemantics (complete (next previous request)) := by
  by_cases hreplace : request.counter.mode = .cumulative ∨ previous = none
  · -- the totals are what this observation reports
    refine hvalid.coherent.restrict fun key value hkey => ?_
    obtain ⟨reported, hreported, -, rfl⟩ := complete_next hkey
    obtain hmode | rfl := hreplace
    · rw [if_pos hmode, hreported]
    · simp [priorOf, hreported]
  · -- a delta on totals: what is complete now was complete before
    obtain ⟨hmode, hprevious⟩ := not_or.mp hreplace
    obtain ⟨totals, rfl⟩ := ne_none_iff_exists'.mp hprevious
    obtain ⟨before, hbefore⟩ := (h totals rfl).coherent
    refine (hbefore.both hvalid.coherent).restrict fun key value hkey => ?_
    obtain ⟨reported, hreported, hresumes, rfl⟩ := complete_next hkey
    have hcoverage : totals.categoryCoverage key = .complete := by
      simpa [resumes, hmode] using hresumes
    obtain ⟨prior, hprior⟩ := isSome_iff_exists.mp ((h totals rfl).known key hcoverage)
    refine both_eq_some.mpr ⟨prior, reported, ?_, hreported, ?_⟩
    · unfold complete onlyComplete
      rw [if_pos hcoverage, hprior]
    · rw [if_neg hmode]
      simp [priorOf, hprior]

/-- A valid observation is refused only for a counter that decreased or a total that is too
large. -/
theorem accumulate_ok_iff : accumulateRequestUsage previous request = .ok totals ↔ ¬ Decreases previous request
          ∧ Fits reasoningSemantics (next previous request).categories
          ∧ totals = next previous request := by
  have hcoherent := next_coherent h hvalid
  rw [accumulateRequestUsage_ok_iff, hvalid.reasoningSemantics_eq]
  constructor
  · rintro ⟨hdecreases, hfits, -, heq⟩
    exact ⟨hdecreases, hfits, heq⟩
  · rintro ⟨hdecreases, hfits, heq⟩
    exact ⟨hdecreases, hfits, hcoherent, heq⟩

end

end

/-! ### The totals in closed form -/

section

variable {reasoningSemantics : ReasoningSemantics} {requests others : List RequestUsageObservation}
  {request : RequestUsageObservation} {key : Category} {totals : Option RequestUsageTotals}

/-- The observation reports the whole of a category. -/
def Reports (key : Category) (request : RequestUsageObservation) : Prop :=
  hasIncompleteUsage request.collection = false ∧ (request.categories key).isSome

instance : DecidablePred (Reports key) := by
  unfold Reports
  infer_instance

/-- What deltas add up to, whatever their order. -/
def totalsOf (requests : List RequestUsageObservation) : RequestUsageTotals where
  categories key := knownSum (requests.map (·.categories key))
  categoryCoverage key :=
    if knownSum (requests.map (·.categories key)) = none then .unknown
    else if ∀ request ∈ requests, Reports key request then .complete
    else .partially
  cost := fullSum (requests.map (·.cost))

/-- There are no totals before the first observation. -/
def tally (requests : List RequestUsageObservation) : Option RequestUsageTotals :=
  if requests = [] then none else some (totalsOf requests)

theorem totalsOf_perm (h : requests.Perm others) : totalsOf requests = totalsOf others := by
  have hsum : ∀ key, knownSum (requests.map (·.categories key)) = knownSum (others.map (·.categories key)) :=
    fun key => knownSum_perm (h.map _)
  have hall : ∀ key, (∀ request ∈ requests, Reports key request) ↔ ∀ request ∈ others, Reports key request :=
    fun key => forall_congr' fun request => by rw [h.mem_iff]
  ext1
  · funext key
    exact hsum key
  · funext key
    simp only [totalsOf, hsum key, hall key]
  · exact fullSum_perm (h.map _)

theorem tally_perm (h : requests.Perm others) : tally requests = tally others := by
  have hnil : requests = [] ↔ others = [] := by
    rw [← length_eq_zero_iff, ← length_eq_zero_iff, h.length_eq]
  unfold tally
  simp only [hnil, totalsOf_perm h]

theorem priorOf_tally : priorOf (tally requests) key = knownSum (requests.map (·.categories key)) := by
  unfold tally priorOf
  split_ifs with h
  · simp [h]
  · rfl

theorem nextCategory_tally (hdelta : request.counter.mode = .delta) :
    nextCategory (tally requests) request key = knownSum ((requests ++ [request]).map (·.categories key)) := by
  rw [map_append, knownSum_append]
  unfold nextCategory
  rw [priorOf_tally, hdelta]
  cases h : request.categories key <;> cases knownSum (requests.map (·.categories key)) <;> simp [h]

theorem coverage_complete_iff (hnonempty : requests ≠ []) :
    (totalsOf requests).categoryCoverage key = .complete ↔ ∀ request ∈ requests, Reports key request := by
  simp only [totalsOf]
  constructor
  · intro h
    split_ifs at h with _ hall
    exact hall
  · intro hall
    obtain ⟨first, hfirst⟩ := exists_mem_of_ne_nil _ hnonempty
    have hknown : knownSum (requests.map (·.categories key)) ≠ none := by
      intro hnone
      have hvalue := knownSum_eq_none.mp hnone _ (mem_map_of_mem hfirst)
      have hsome := (hall first hfirst).2
      rw [hvalue] at hsome
      exact absurd hsome (by decide)
    rw [if_neg hknown, if_pos hall]

section

variable (hdelta : request.counter.mode = .delta)
include hdelta

theorem nextCoverage_tally :
    nextCoverage (tally requests) request key = (totalsOf (requests ++ [request])).categoryCoverage key := by
  have hmode : request.counter.mode ≠ .cumulative := by simp [hdelta]
  have hresumes : resumes (tally requests) request key ↔ ∀ request ∈ requests, Reports key request := by
    unfold resumes tally
    by_cases hnil : requests = []
    · simp [hnil]
    · rw [if_neg hnil]
      simp only [hmode, decide_false, Bool.false_or, decide_eq_true_eq]
      exact coverage_complete_iff hnil
  simp only [totalsOf, ← nextCategory_tally hdelta, forall_mem_append, forall_mem_singleton]
  by_cases hnone : nextCategory (tally requests) request key = none
  · rw [if_pos hnone]
    unfold nextCoverage
    rw [if_pos hnone]
  rw [if_neg hnone]
  by_cases hcomplete : (∀ request ∈ requests, Reports key request) ∧ Reports key request
  · rw [if_pos hcomplete]
    exact nextCoverage_complete_iff.mpr ⟨hcomplete.2, hresumes.mpr hcomplete.1⟩
  · rw [if_neg hcomplete]
    have hnot : nextCoverage (tally requests) request key ≠ .complete := by
      intro h
      obtain ⟨hreports, h⟩ := nextCoverage_complete_iff.mp h
      exact hcomplete ⟨hresumes.mp h, hreports⟩
    unfold nextCoverage at hnot ⊢
    rw [if_neg hnone] at hnot ⊢
    split_ifs at hnot ⊢ with hall
    · exact absurd rfl hnot
    · rfl

theorem nextCost_tally :
    nextCost (tally requests) request = fullSum ((requests ++ [request]).map (·.cost)) := by
  have hmode : request.counter.mode ≠ .cumulative := by simp [hdelta]
  rw [map_append, fullSum_append]
  unfold nextCost tally
  by_cases hnil : requests = []
  · cases h : request.cost <;> simp [hnil, h]
  · rw [if_neg hnil]
    simp only [hmode, if_false, totalsOf]
    cases h : request.cost <;> simp [h]

theorem next_tally :
    next (tally requests) request = totalsOf (requests ++ [request]) := by
  ext1
  · funext key
    exact nextCategory_tally hdelta
  · funext key
    exact nextCoverage_tally hdelta
  · exact nextCost_tally hdelta

end

/-! ### Runs -/

theorem accumulateAll_concat (requests : List RequestUsageObservation) (request : RequestUsageObservation) :
    accumulateAll (requests ++ [request])
      = accumulateAll requests >>= fun totals => some <$> accumulateRequestUsage totals request := by
  rw [accumulateAll, foldlM_append]
  congr 1
  funext totals
  simp

theorem accumulateAll_concat_ok_iff : accumulateAll (requests ++ [request]) = .ok totals
      ↔ ∃ previous reached,
          accumulateAll requests = .ok previous
            ∧ accumulateRequestUsage previous request = .ok reached ∧ totals = some reached := by
  simp only [accumulateAll_concat, map_eq_pure_bind, bind_eq_ok]
  constructor
  · rintro ⟨previous, hprevious, reached, hreached, h⟩
    exact ⟨previous, reached, hprevious, hreached, (Except.ok.inj h).symm⟩
  · rintro ⟨previous, reached, hprevious, hreached, rfl⟩
    exact ⟨previous, hprevious, reached, hreached, rfl⟩

def Grows (before after : UsageCategories) : Prop :=
  ∀ key value, before key = some value → ∃ later, after key = some later ∧ value ≤ later

theorem Grows.getD_le {before after : UsageCategories} (h : Grows before after) (key : Category) :
    (before key).getD 0 ≤ (after key).getD 0 := by
  cases hkey : before key with
  | none => exact Nat.zero_le _
  | some value =>
    obtain ⟨later, hlater, hle⟩ := h key value hkey
    rw [hlater]
    exact hle

theorem Fits.of_grows {before after : UsageCategories} (hfits : Fits reasoningSemantics after)
    (h : Grows before after) : Fits reasoningSemantics before := by
  refine ⟨fun key value hvalue => ?_, ?_⟩
  · obtain ⟨later, hlater, hle⟩ := h key value hvalue
    exact hle.trans (hfits.category key later hlater)
  · have hi := h.getD_le .logicalInput
    have ho := h.getD_le .output
    have hr := h.getD_le .reasoning
    have htokens := hfits.tokens
    simp only [TokensFit, tokenTotals] at htokens ⊢
    split_ifs at htokens ⊢ <;> omega

theorem totalsOf_grows (requests others : List RequestUsageObservation) :
    Grows (totalsOf requests).categories (totalsOf (requests ++ others)).categories := by
  intro key value h
  simp only [totalsOf] at h ⊢
  rw [map_append, knownSum_append, h]
  cases knownSum (others.map (·.categories key)) with
  | none => exact ⟨value, rfl, le_rfl⟩
  | some added => exact ⟨value + added, rfl, Nat.le_add_right _ _⟩

theorem accumulateAll_totalsOk (hvalid : ∀ request ∈ requests, Valid reasoningSemantics request)
    (h : accumulateAll requests = .ok totals) :
    ∀ reached ∈ totals, TotalsOk reasoningSemantics reached := by
  induction requests using reverseRecOn generalizing totals with
  | nil =>
    cases h
    exact fun reached hreached => (by cases hreached)
  | append_singleton requests request ih =>
    obtain ⟨previous, reached, hprevious, hstep, rfl⟩ := accumulateAll_concat_ok_iff.mp h
    have hok := ih (fun other hother => hvalid other (mem_append_left _ hother)) hprevious
    have hrequest := hvalid request (mem_append_right _ (mem_singleton_self _))
    rintro _ ⟨⟩
    obtain ⟨-, -, rfl⟩ := (accumulate_ok_iff hok hrequest).mp hstep
    exact ⟨next_known, _, next_coherent hok hrequest⟩

theorem accumulateAll_ok_iff
    (hvalid : ∀ request ∈ requests, Valid reasoningSemantics request ∧ request.counter.mode = .delta) :
    accumulateAll requests = .ok totals
      ↔ Fits reasoningSemantics (totalsOf requests).categories ∧ totals = tally requests := by
  induction requests using reverseRecOn generalizing totals with
  | nil =>
    have hfits : Fits reasoningSemantics (totalsOf []).categories := by
      refine ⟨fun key value h => (by cases h), ?_⟩
      unfold TokensFit tokenTotals
      split_ifs <;> decide
    exact ⟨fun h => ⟨hfits, (Except.ok.inj h).symm⟩, fun h => congrArg Except.ok h.2.symm⟩
  | append_singleton requests request ih =>
    have hrequests := fun other hother => hvalid other (mem_append_left _ hother)
    obtain ⟨hrequest, hdelta⟩ := hvalid request (mem_append_right _ (mem_singleton_self _))
    have htally : tally (requests ++ [request]) = some (totalsOf (requests ++ [request])) := if_neg (by simp)
    rw [accumulateAll_concat_ok_iff, htally]
    constructor
    · rintro ⟨previous, reached, hprevious, hstep, rfl⟩
      have hok := accumulateAll_totalsOk (fun other hother => (hrequests other hother).1) hprevious
      obtain ⟨-, rfl⟩ := (ih hrequests).mp hprevious
      obtain ⟨-, hfits, rfl⟩ := (accumulate_ok_iff hok hrequest).mp hstep
      rw [next_tally hdelta] at hfits ⊢
      exact ⟨hfits, rfl⟩
    · rintro ⟨hfits, rfl⟩
      have hprevious := (ih hrequests).mpr ⟨hfits.of_grows (totalsOf_grows requests [request]), rfl⟩
      have hok := accumulateAll_totalsOk (fun other hother => (hrequests other hother).1) hprevious
      refine ⟨_, _, hprevious, (accumulate_ok_iff hok hrequest).mpr ⟨not_decreases_of_delta hdelta, ?_, rfl⟩, ?_⟩
      · rwa [next_tally hdelta]
      · rw [next_tally hdelta]

end

end ArdurBot.Usage
