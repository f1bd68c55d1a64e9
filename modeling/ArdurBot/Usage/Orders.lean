import ArdurBot.Usage.Accumulate

/-!
# Usage in any order

Deltas of one request add up to the same totals in any order, and cumulative counters only grow.
What an order may change is only how far an accumulation gets when its observations count reasoning
in different ways.
-/

namespace ArdurBot.Usage

open List Option

section

variable {reasoningSemantics : ReasoningSemantics} {previous : Option RequestUsageTotals}
  {totals : RequestUsageTotals} {request : RequestUsageObservation}
  {requests more : List RequestUsageObservation} {before after : Option RequestUsageTotals}

def known (previous : Option RequestUsageTotals) : UsageCategories :=
  priorOf previous

section

variable (hmode : request.counter.mode = .cumulative)
include hmode

theorem cumulative_grows
    (h : accumulateRequestUsage previous request = .ok totals) : Grows (known previous) totals.categories := by
  obtain ⟨hdecreases, -, -, rfl⟩ := accumulateRequestUsage_ok_iff.mp h
  intro key prior hprior
  cases hvalue : request.categories key with
  | none =>
    refine ⟨prior, ?_, le_rfl⟩
    simp only [next, nextCategory, hvalue]
    exact hprior
  | some value =>
    refine ⟨value, ?_, ?_⟩
    · simp only [next]
      rw [nextCategory_of_some hvalue, if_pos hmode]
    · by_contra hlt
      exact hdecreases ⟨key, decreases_iff.mpr ⟨hmode, value, prior, hvalue, hprior, by omega⟩⟩

theorem nextCategory_again (key : Category) :
    nextCategory (some (next previous request)) request key = nextCategory previous request key := by
  cases hvalue : request.categories key with
  | none => simp only [nextCategory, hvalue, priorOf, bind_some, next]
  | some value => rw [nextCategory_of_some hvalue, nextCategory_of_some hvalue, if_pos hmode, if_pos hmode]

theorem next_again : next (some (next previous request)) request = next previous request := by
  have hcategory : nextCategory (some (next previous request)) request = nextCategory previous request :=
    funext fun key => nextCategory_again hmode key
  have hcoverage : nextCoverage (some (next previous request)) request = nextCoverage previous request := by
    funext key
    simp only [nextCoverage, hcategory, resumes, hmode, decide_true, Bool.true_or]
  have hcost : nextCost (some (next previous request)) request = nextCost previous request := by
    cases previous <;> simp [nextCost, hmode]
  exact RequestUsageTotals.ext hcategory hcoverage hcost

theorem cumulative_twice (h : accumulateRequestUsage previous request = .ok totals) :
    accumulateRequestUsage (some totals) request = .ok totals := by
  obtain ⟨-, hfits, hcoherent, rfl⟩ := accumulateRequestUsage_ok_iff.mp h
  rw [accumulateRequestUsage_ok_iff, next_again hmode]
  refine ⟨?_, hfits, hcoherent, rfl⟩
  rintro ⟨key, hkey⟩
  obtain ⟨-, value, prior, hvalue, hprior, hlt⟩ := decreases_iff.mp hkey
  simp only [priorOf, bind_some, next] at hprior
  rw [nextCategory_of_some hvalue, if_pos hmode] at hprior
  have heq := some.inj hprior
  omega

end

theorem Grows.refl (categories : UsageCategories) : Grows categories categories :=
  fun _ value h => ⟨value, h, le_rfl⟩

theorem Grows.trans {a b c : UsageCategories} (h : Grows a b) (h' : Grows b c) : Grows a c := by
  intro key value hvalue
  obtain ⟨later, hlater, hle⟩ := h key value hvalue
  obtain ⟨last, hlast, hle'⟩ := h' key later hlater
  exact ⟨last, hlast, hle.trans hle'⟩

theorem cumulative_run_grows (hmode : ∀ request ∈ more, request.counter.mode = .cumulative)
    (hbefore : accumulateAll requests = .ok before) (hafter : accumulateAll (requests ++ more) = .ok after) :
    Grows (known before) (known after) := by
  induction more using reverseRecOn generalizing after with
  | nil =>
    rw [append_nil, hbefore] at hafter
    cases hafter
    exact Grows.refl _
  | append_singleton more request ih =>
    rw [← append_assoc] at hafter
    obtain ⟨reached, last, hreached, hstep, rfl⟩ := accumulateAll_concat_ok_iff.mp hafter
    have hearlier := ih (fun other hother => hmode other (mem_append_left _ hother)) hreached
    have hrequest := hmode request (mem_append_right _ (mem_singleton_self _))
    exact hearlier.trans (cumulative_grows hrequest hstep)

theorem cumulative_run_twice (hmode : request.counter.mode = .cumulative) :
    accumulateAll (requests ++ [request, request]) = accumulateAll (requests ++ [request]) := by
  have hsplit : requests ++ [request, request] = (requests ++ [request]) ++ [request] := by simp
  rw [hsplit, accumulateAll_concat]
  cases hall : accumulateAll (requests ++ [request]) with
  | error error => rfl
  | ok reached =>
    obtain ⟨_, totals, -, hstep, rfl⟩ := accumulateAll_concat_ok_iff.mp hall
    simp only [bind, Except.bind, cumulative_twice hmode hstep]
    rfl

theorem exists_refused {error : UsageError} (h : accumulateAll requests = .error error) :
    ∃ earlier request later previous,
      requests = earlier ++ request :: later
        ∧ accumulateAll earlier = .ok previous ∧ accumulateRequestUsage previous request = .error error := by
  induction requests using reverseRecOn with
  | nil => cases h
  | append_singleton requests request ih =>
    rw [accumulateAll_concat] at h
    cases hearlier : accumulateAll requests with
    | error earlierError =>
      rw [hearlier] at h
      cases h
      obtain ⟨earlier, refused, later, previous, rfl, hprevious, hrefused⟩ := ih hearlier
      exact ⟨earlier, refused, later ++ [request], previous, by simp, hprevious, hrefused⟩
    | ok previous =>
      refine ⟨requests, request, [], previous, rfl, hearlier, ?_⟩
      rw [hearlier] at h
      cases hstep : accumulateRequestUsage previous request with
      | error stepError =>
        simp only [bind, Except.bind, hstep] at h
        cases h
        rfl
      | ok reached =>
        simp only [bind, Except.bind, hstep] at h
        cases h

/-- Valid observations that count reasoning alike stop only at a counter that decreased or a total
that is too large. -/
theorem refused_why {error : UsageError} (hvalid : ∀ request ∈ requests, Valid reasoningSemantics request)
    (h : accumulateAll requests = .error error) :
    ∃ earlier request later previous,
      requests = earlier ++ request :: later
        ∧ accumulateAll earlier = .ok previous
        ∧ (Decreases previous request ∨ ¬ Fits reasoningSemantics (next previous request).categories) := by
  obtain ⟨earlier, request, later, previous, rfl, hprevious, hrefused⟩ := exists_refused h
  refine ⟨earlier, request, later, previous, rfl, hprevious, ?_⟩
  have hok := accumulateAll_totalsOk (fun other hother => hvalid other (mem_append_left _ hother)) hprevious
  have hrequest := hvalid request (mem_append_right _ mem_cons_self)
  by_contra hnot
  obtain ⟨hdecreases, hfits⟩ := not_or.mp hnot
  rw [(accumulate_ok_iff hok hrequest).mpr ⟨hdecreases, not_not.mp hfits, rfl⟩] at hrefused
  cases hrefused

theorem usage_any_order (reasoningSemantics : ReasoningSemantics) :
    (∀ requests others : List RequestUsageObservation,
      (∀ request ∈ requests, Valid reasoningSemantics request ∧ request.counter.mode = .delta) →
        requests.Perm others →
          (accumulateAll requests).toOption = (accumulateAll others).toOption
            ∧ ((accumulateAll requests).toOption = none ↔ ¬ Fits reasoningSemantics (totalsOf requests).categories))
    ∧ (∀ requests more before after,
      (∀ request ∈ more, request.counter.mode = .cumulative) →
        accumulateAll requests = .ok before →
          accumulateAll (requests ++ more) = .ok after → Grows (known before) (known after))
    ∧ (∀ requests request,
      request.counter.mode = .cumulative →
        accumulateAll (requests ++ [request, request]) = accumulateAll (requests ++ [request]))
    ∧ ∀ requests error,
      (∀ request ∈ requests, Valid reasoningSemantics request) →
        accumulateAll requests = .error error →
          ∃ earlier request later previous,
            requests = earlier ++ request :: later
              ∧ accumulateAll earlier = .ok previous
              ∧ (Decreases previous request ∨ ¬ Fits reasoningSemantics (next previous request).categories) := by
  refine ⟨fun requests others hvalid hperm => ?_, fun _ _ _ _ => cumulative_run_grows,
    fun _ _ => cumulative_run_twice, fun _ _ => refused_why⟩
  have hothers : ∀ request ∈ others, Valid reasoningSemantics request ∧ request.counter.mode = .delta :=
    fun request hrequest => hvalid request (hperm.mem_iff.mpr hrequest)
  by_cases hfits : Fits reasoningSemantics (totalsOf requests).categories
  · have hleft := (accumulateAll_ok_iff hvalid).mpr ⟨hfits, rfl⟩
    have hright := (accumulateAll_ok_iff hothers).mpr ⟨totalsOf_perm hperm ▸ hfits, rfl⟩
    rw [hleft, hright, tally_perm hperm]
    exact ⟨rfl, fun h => (by cases h), fun h => absurd hfits h⟩
  · have hstops : ∀ list : List RequestUsageObservation,
        (∀ request ∈ list, Valid reasoningSemantics request ∧ request.counter.mode = .delta) →
          ¬ Fits reasoningSemantics (totalsOf list).categories → (accumulateAll list).toOption = none := by
      intro list hlist hnot
      cases hall : accumulateAll list with
      | error error => rfl
      | ok reached => exact absurd ((accumulateAll_ok_iff hlist).mp hall).1 hnot
    have hleft := hstops requests hvalid hfits
    have hright := hstops others hothers (totalsOf_perm hperm ▸ hfits)
    exact ⟨hleft.trans hright.symm, fun _ => hfits, fun _ => hleft⟩

end

/-- An observation of output and reasoning only. -/
def observed (mode : CounterMode) (sequence : ℕ) (reasoningSemantics : ReasoningSemantics)
    (output reasoning : ℕ) :
    RequestUsageObservation where
  requestId := Utf16.lit "request"
  parentRequestId := none
  counter := { mode, epochId := Utf16.lit "epoch", sequence }
  inputSemantics := .totalWithCacheSubsets
  reasoningSemantics
  categories
    | .output => some output
    | .reasoning => some reasoning
    | _ => none
  cost := none
  pricingProvenance := none
  collection := none

theorem usage_any_order_observed :
    ((accumulateAll [observed .delta 0 .separate 1 2, observed .delta 1 .separate 3 4]).toOption
        = (accumulateAll [observed .delta 1 .separate 3 4, observed .delta 0 .separate 1 2]).toOption
      ∧ ((accumulateAll [observed .delta 0 .separate 1 2, observed .delta 1 .separate 3 4]).toOption = none
          ↔ ¬ Fits .separate
              (totalsOf [observed .delta 0 .separate 1 2, observed .delta 1 .separate 3 4]).categories))
    ∧ (Grows (known (some (next none (observed .cumulative 0 .separate 1 2))))
          (known (some (next (some (next none (observed .cumulative 0 .separate 1 2)))
            (observed .cumulative 1 .separate 5 2))))
      ∧ accumulateAll ([] ++ [observed .cumulative 0 .separate 1 2, observed .cumulative 0 .separate 1 2])
          = accumulateAll ([] ++ [observed .cumulative 0 .separate 1 2]))
    ∧ ∃ earlier request later previous,
        [observed .cumulative 0 .separate 5 2, observed .cumulative 1 .separate 1 2] = earlier ++ request :: later
          ∧ accumulateAll earlier = .ok previous
          ∧ (Decreases previous request ∨ ¬ Fits .separate (next previous request).categories) := by
  obtain ⟨horder, hgrows, htwice, hwhy⟩ := usage_any_order .separate
  refine ⟨horder _ _ ?_ (List.Perm.swap _ _ _), ⟨?_, htwice [] _ rfl⟩, ?_⟩
  · simp only [forall_mem_cons, not_mem_nil, false_imp_iff, implies_true, and_true]
    exact ⟨⟨⟨rfl, rfl⟩, rfl⟩, ⟨⟨rfl, rfl⟩, rfl⟩⟩
  · refine hgrows [observed .cumulative 0 .separate 1 2] [observed .cumulative 1 .separate 5 2] _ _ ?_ rfl rfl
    simp only [forall_mem_cons, not_mem_nil, false_imp_iff, implies_true, and_true]
    rfl
  · refine hwhy _ (.message "Usage cumulative counter decreased; a verified reset requires a new epoch") ?_ rfl
    simp only [forall_mem_cons, not_mem_nil, false_imp_iff, implies_true, and_true]
    exact ⟨⟨rfl, rfl⟩, ⟨rfl, rfl⟩⟩

/-- Deltas that count reasoning in different ways are refused in one order only, and a cumulative
counter that went back is refused although no total is too large. -/
theorem mixed_semantics_depend_on_order :
    (parseRequestUsage (observed .delta 0 .separate 0 10) = .ok (observed .delta 0 .separate 0 10)
      ∧ parseRequestUsage (observed .delta 1 .subsetOfOutput 1 1) = .ok (observed .delta 1 .subsetOfOutput 1 1)
      ∧ accumulateAll [observed .delta 0 .separate 0 10, observed .delta 1 .subsetOfOutput 1 1]
          = .error (.message "Usage reasoning subset exceeds output")
      ∧ (accumulateAll [observed .delta 1 .subsetOfOutput 1 1, observed .delta 0 .separate 0 10]).toOption ≠ none)
    ∧ (parseRequestUsage (observed .cumulative 0 .separate 5 2) = .ok (observed .cumulative 0 .separate 5 2)
      ∧ parseRequestUsage (observed .cumulative 1 .separate 1 2) = .ok (observed .cumulative 1 .separate 1 2)
      ∧ accumulateAll [observed .cumulative 0 .separate 5 2, observed .cumulative 1 .separate 1 2]
          = .error (.message "Usage cumulative counter decreased; a verified reset requires a new epoch")) := by
  refine ⟨⟨rfl, rfl, rfl, ?_⟩, rfl, rfl, rfl⟩
  exact fun h => by cases h

end ArdurBot.Usage
