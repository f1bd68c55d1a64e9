import Mathlib.Data.Rat.Defs
import ArdurBot.Lib.PartialSum
import ArdurBot.Lib.Utf16

/-!
# The usage of a request

The totals of a request are accumulated from its observations: a delta adds, a cumulative counter
replaces. A category that an observation does not report is a lower bound from then on. Costs are
exact here.
-/

namespace ArdurBot.Usage

open Utf16

inductive Category
  | logicalInput
  | uncachedInput
  | cacheReadInput
  | cacheWriteInput
  | output
  | reasoning
  deriving DecidableEq, Repr

def requestUsageCategories : List Category :=
  [.logicalInput, .uncachedInput, .cacheReadInput, .cacheWriteInput, .output, .reasoning]

theorem mem_requestUsageCategories (key : Category) : key ∈ requestUsageCategories := by
  cases key <;> simp [requestUsageCategories]

abbrev UsageCategories := Category → Option ℕ

inductive Coverage
  | complete
  | partially
  | unknown
  deriving DecidableEq, Repr

abbrev CategoryCoverage := Category → Coverage

inductive InputSemantics
  | totalWithCacheSubsets
  | additiveCacheCategories
  | unknown
  deriving DecidableEq, Repr

inductive ReasoningSemantics
  | subsetOfOutput
  | separate
  | unknown
  deriving DecidableEq, Repr

inductive CounterMode
  | delta
  | cumulative
  deriving DecidableEq, Repr

structure Counter where
  mode : CounterMode
  epochId : Text
  sequence : ℕ
  deriving DecidableEq, Repr

inductive Limitation
  | providerOmitted
  | invalidProviderUsage
  | nativeRequestDetailUnavailable
  | unverifiedResumeBoundary
  | counterDiscontinuity
  | transportDetailUnavailable
  | streamEndedWithoutUsage
  | consumerStopped
  | lateUsageUnverified
  | usageNotFinal
  deriving DecidableEq, Repr

structure UsageCollection where
  limitations : List Limitation

inductive PricingKind
  | providerReported
  | rateCard
  deriving DecidableEq, Repr

structure PricingProvenance where
  source : Text
  datedAt : Text
  kind : PricingKind

structure RequestUsageObservation where
  requestId : Text
  parentRequestId : Option Text
  counter : Counter
  inputSemantics : InputSemantics
  reasoningSemantics : ReasoningSemantics
  categories : UsageCategories
  cost : Option ℚ
  pricingProvenance : Option PricingProvenance
  collection : Option UsageCollection

def hasIncompleteUsage (collection : Option UsageCollection) : Bool :=
  match collection with
  | some collection =>
      collection.limitations.any fun reason =>
        [.invalidProviderUsage, .unverifiedResumeBoundary, .counterDiscontinuity, .streamEndedWithoutUsage,
          .consumerStopped, .lateUsageUnverified, .usageNotFinal].contains reason
  | none => false

inductive UsageError
  | schema (path : String)
  | message (text : String)
  deriving DecidableEq, Repr

def tokenMax : ℕ := 2147483647

/-- `token.parse` -/
def parseToken (value : ℕ) : Except UsageError ℕ :=
  if value ≤ tokenMax then .ok value else .error (.schema "")

structure TokenTotals where
  inputTokens : ℕ
  outputTokens : ℕ
  deriving DecidableEq, Repr

section

variable (categories : UsageCategories)

def tokenTotals (reasoningSemantics : ReasoningSemantics) : TokenTotals where
  inputTokens := (categories .logicalInput).getD 0
  outputTokens :=
    (categories .output).getD 0
      + if reasoningSemantics = .separate then (categories .reasoning).getD 0 else 0

def usageTokenTotals (reasoningSemantics : ReasoningSemantics) : Except UsageError TokenTotals := do
  let totals := tokenTotals categories reasoningSemantics
  let _ ← parseToken (totals.inputTokens + totals.outputTokens)
  return totals

def supplied : List ℕ :=
  [categories .uncachedInput, categories .cacheReadInput, categories .cacheWriteInput].reduceOption

def partitions : Bool :=
  match categories .logicalInput with
  | some logicalInput =>
      (supplied categories).sum ≤ logicalInput
        && ((supplied categories).length != 3 || (supplied categories).sum == logicalInput)
  | none => true

def reasoningFits : Bool :=
  match categories .output, categories .reasoning with
  | some output, some reasoning => reasoning ≤ output
  | _, _ => true

def validateUsageCategories (inputSemantics : InputSemantics)
    (reasoningSemantics : ReasoningSemantics) : Except UsageError Unit := do
  if !partitions categories then
    throw (.message "Usage input categories must partition logical input")
  if inputSemantics = .unknown ∧ 0 < (supplied categories).length then
    throw (.message "Reported input components require declared semantics")
  if reasoningSemantics = .subsetOfOutput ∧ !reasoningFits categories then
    throw (.message "Usage reasoning subset exceeds output")
  if reasoningSemantics = .unknown ∧ (categories .reasoning).isSome then
    throw (.message "Reported reasoning requires declared semantics")
  let _ ← usageTokenTotals categories reasoningSemantics
  return ()

end

/-- What the schema checks of the fields kept here. -/
def schemaOk (request : RequestUsageObservation) : Bool :=
  [request.requestId, request.counter.epochId].all (fun id => 0 < id.length && id.length ≤ 200)
    && request.parentRequestId.all (fun id => 0 < id.length && id.length ≤ 200)
    && request.counter.sequence ≤ tokenMax
    && requestUsageCategories.all (fun key => (request.categories key).all (· ≤ tokenMax))
    && request.cost.all (0 ≤ ·)
    && request.pricingProvenance.all (fun price => 0 < price.source.length && price.source.length ≤ 500)
    && request.collection.all (fun collection => collection.limitations.length ≤ 9)

def parseRequestUsage (request : RequestUsageObservation) : Except UsageError RequestUsageObservation := do
  if !schemaOk request then
    throw (.schema "request")
  if some request.requestId = request.parentRequestId then
    throw (.message "Usage request cannot parent itself")
  if request.cost.isNone ≠ request.pricingProvenance.isNone then
    throw (.message "Known cost requires dated pricing provenance; unknown cost has no price")
  validateUsageCategories request.categories request.inputSemantics request.reasoningSemantics
  return request

@[ext]
structure RequestUsageTotals where
  categories : UsageCategories
  categoryCoverage : CategoryCoverage
  cost : Option ℚ

variable (previous : Option RequestUsageTotals) (request : RequestUsageObservation) (key : Category)

/-- `previous?.categories[key] ?? null` -/
def priorOf : Option ℕ :=
  previous.bind fun totals => totals.categories key

def nextCategory : Option ℕ :=
  match request.categories key with
  | none => priorOf previous key
  | some value =>
      some (if request.counter.mode = .cumulative then value else (priorOf previous key).getD 0 + value)

def decreases : Bool :=
  match request.categories key, priorOf previous key with
  | some value, some prior => request.counter.mode = .cumulative ∧ value < prior
  | _, _ => false

/-- What the loop over the categories may throw. -/
def checkCategory : Except UsageError Unit := do
  if decreases previous request key then
    throw (.message "Usage cumulative counter decreased; a verified reset requires a new epoch")
  match nextCategory previous request key with
  | some value => let _ ← parseToken value
  | none => pure ()

/-- Earlier observations do not make this one a lower bound. -/
def resumes : Bool :=
  request.counter.mode = .cumulative
    || match previous with
      | some totals => totals.categoryCoverage key = .complete
      | none => true

def nextCoverage : Coverage :=
  if nextCategory previous request key = none then .unknown
  else if !hasIncompleteUsage request.collection ∧ (request.categories key).isSome ∧
    resumes previous request key then
    .complete
  else .partially

/-- Only the categories whose total is known to be complete. -/
def onlyComplete (categories : UsageCategories) (categoryCoverage : CategoryCoverage) : UsageCategories :=
  fun key => if categoryCoverage key = .complete then categories key else none

def nextCost : Option ℚ :=
  match previous with
  | none => request.cost
  | some totals =>
      if request.counter.mode = .cumulative then request.cost else Option.map₂ (· + ·) totals.cost request.cost

/-- The totals that `accumulateRequestUsage` returns when it returns. -/
def next : RequestUsageTotals where
  categories := nextCategory previous request
  categoryCoverage := nextCoverage previous request
  cost := nextCost previous request

/-- `accumulateRequestUsage`. An exact cost is finite. -/
def accumulateRequestUsage : Except UsageError RequestUsageTotals := do
  requestUsageCategories.forM (checkCategory previous request)
  let totals := next previous request
  validateUsageCategories (onlyComplete totals.categories totals.categoryCoverage) request.inputSemantics
    request.reasoningSemantics
  let _ ← usageTokenTotals totals.categories request.reasoningSemantics
  return totals

/-- The totals after the observations of a request, in the order in which they arrive. -/
def accumulateAll (requests : List RequestUsageObservation) : Except UsageError (Option RequestUsageTotals) :=
  requests.foldlM (fun totals request => some <$> accumulateRequestUsage totals request) none

end ArdurBot.Usage
