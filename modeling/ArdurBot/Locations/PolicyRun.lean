import ArdurBot.Lib.Run
import ArdurBot.Locations.Policy

/-!
# Every run of patches

Whatever a space has stored and whatever patches were applied to it, the locations in force are the
built-in ones and a policy, and grants are for them. A patch that removes a location takes its
grants from every bot of the space.
-/

namespace ArdurBot.Locations

open List Utf16 Json
open Option hiding all all_eq_true any any_eq_false

theorem readKind_text (kind : ProtectedLocationKind) : readKind (.str kind.text) = some kind := by
  cases kind <;> decide

theorem keys_locationJson (location : ProtectedLocation) :
    (keys ([(lit "id", JsValue.str location.id), (lit "label", .str location.label),
      (lit "paths", .arr (location.paths.map .str)), (lit "kind", .str location.kind.text)] ++
      optionalField "tool" (location.tool.map .str))).all
        (fun key => key ∈ ["id", "label", "paths", "kind", "tool"].map lit) := by
  rw [Json.keys_append, all_append, Bool.and_eq_true]
  refine ⟨by rfl, ?_⟩
  rw [all_eq_true]
  intro key hkey
  rw [mem_singleton.mp ((keys_optionalField "tool" _).subset hkey)]
  decide

variable {location : ProtectedLocation}

theorem readLocation_locationJson (h : isLocation location) :
    readLocation (locationJson location) = some location := by
  have hget : ∀ key : Text, getField ([(lit "id", JsValue.str location.id), (lit "label", .str location.label),
      (lit "paths", .arr (location.paths.map .str)), (lit "kind", .str location.kind.text)] ++
      optionalField "tool" (location.tool.map .str)) key =
      (getField [(lit "id", JsValue.str location.id), (lit "label", .str location.label),
        (lit "paths", .arr (location.paths.map .str)), (lit "kind", .str location.kind.text)] key).or
        (if lit "tool" = key then location.tool.map .str else none) := by
    intro key
    rw [getField_append, getField_optionalField]
  unfold readLocation
  refine bind_eq_some_iff.mpr ⟨_, if_pos (keys_locationJson location), ?_⟩
  refine bind_eq_some_iff.mpr ⟨location.id, by rw [textField, hget]; rfl, ?_⟩
  refine bind_eq_some_iff.mpr ⟨location.label, by rw [textField, hget]; rfl, ?_⟩
  refine bind_eq_some_iff.mpr ⟨location.paths, by rw [hget]; exact readTexts_strings _, ?_⟩
  refine bind_eq_some_iff.mpr ⟨location.kind, by rw [hget]; exact readKind_text _, ?_⟩
  refine bind_eq_some_iff.mpr ⟨location.tool, by rw [hget]; exact readText_optional _, ?_⟩
  exact if_pos h

section

variable {folding : Folding}

variable {seen taken : List Text} {before custom rest : List ProtectedLocation}
  {policy : ProtectedLocationsPolicyV1}

theorem refineCustom_append : refineCustom folding seen taken (before ++ rest) =
      (refineCustom folding seen taken before &&
        refineCustom folding (seen ++ locationIds before) (taken ++ locationPaths before) rest) := by
  induction before generalizing seen taken with
  | nil => simp [refineCustom, locationIds, locationPaths]
  | cons location before ih =>
    rw [cons_append, refineCustom, refineCustom, ih]
    simp only [locationIds, locationPaths, map_cons, flatMap_cons, append_assoc, singleton_append, Bool.and_assoc]

theorem isPolicy_iff : isPolicy folding policy ↔ policy.custom.length ≤ customLocationsMax ∧
      (∀ location ∈ policy.custom, isLocation location) ∧
      refineCustom folding [] (locationPaths protectedLocationsDefaults) policy.custom := by
  simp only [isPolicy, Bool.and_eq_true, decide_eq_true_eq, all_eq_true, and_assoc]

theorem isPolicy_of_append (h : isPolicy folding ⟨before ++ rest⟩) : isPolicy folding ⟨before⟩ := by
  obtain ⟨hlength, hall, hrefine⟩ := isPolicy_iff.mp h
  dsimp only at hlength hall hrefine
  rw [length_append] at hlength
  rw [refineCustom_append, Bool.and_eq_true] at hrefine
  exact isPolicy_iff.mpr ⟨by dsimp only; omega,
    fun location hmem => hall location (mem_append_left _ hmem), hrefine.1⟩

theorem isPolicy_keepEntries (entries : List JsValue) (h : isPolicy folding ⟨custom⟩) :
    isPolicy folding ⟨entries.foldl (keepEntry folding) custom⟩ := by
  induction entries generalizing custom with
  | nil => exact h
  | cons entry entries ih =>
    refine ih ?_
    unfold keepEntry
    split
    · exact h
    · split
      · exact h
      · split
        · rename_i hnext
          exact hnext
        · exact h

theorem isPolicy_parse (folding : Folding) (raw : JsValue) :
    isPolicy folding (parseProtectedLocationsPolicy folding raw) := isPolicy_keepEntries _ rfl

theorem keepEntries_policy {custom rest : List ProtectedLocation} (h : isPolicy folding ⟨custom ++ rest⟩) :
    (rest.map locationJson).foldl (keepEntry folding) custom = custom ++ rest := by
  induction rest generalizing custom with
  | nil => rw [map_nil, foldl_nil, append_nil]
  | cons location rest ih =>
    obtain ⟨hlength, hall, -⟩ := isPolicy_iff.mp h
    dsimp only at hlength hall
    rw [length_append, length_cons] at hlength
    have hsplit : custom ++ location :: rest = custom ++ [location] ++ rest := by
      rw [append_assoc, singleton_append]
    have hnext : keepEntry folding custom (locationJson location) = custom ++ [location] := by
      unfold keepEntry
      rw [if_neg (by omega), readLocation_locationJson (hall location (mem_append_right _ mem_cons_self))]
      dsimp only
      rw [hsplit] at h
      rw [if_pos (isPolicy_of_append h)]
    rw [map_cons, foldl_cons, hnext, hsplit]
    rw [hsplit] at h
    exact ih h

theorem parse_policyJson (h : isPolicy folding policy) :
    parseProtectedLocationsPolicy folding (policyJson policy) = policy := by
  unfold parseProtectedLocationsPolicy
  rw [show storedCustomEntries (policyJson policy) = some (policy.custom.map locationJson) from
    if_pos rfl, getD_some]
  have hentries := @keepEntries_policy folding [] policy.custom h
  rw [hentries, nil_append]

/-- No path of one location is or contains one of the other. -/
def Apart (folding : Folding) (a b : ProtectedLocation) : Prop :=
  ∀ p ∈ a.paths, ∀ q ∈ b.paths, folding.fold p ≠ folding.fold q ∧
    ¬ folding.fold p ++ [unit '/'] <+: folding.fold q ∧
    ¬ folding.fold q ++ [unit '/'] <+: folding.fold p

theorem overlaps_eq_false {p q : Text} :
    overlaps folding p q = false ↔ folding.fold p ≠ folding.fold q ∧
      ¬ folding.fold p ++ [unit '/'] <+: folding.fold q ∧
      ¬ folding.fold q ++ [unit '/'] <+: folding.fold p := by
  rw [← Bool.not_eq_true]
  simp only [overlaps, Bool.or_eq_true, decide_eq_true_eq, isPrefixOf_iff_prefix, not_or, and_assoc, ne_eq]
  exact and_congr_right fun _ => and_comm

theorem Apart.symm {a b : ProtectedLocation} (h : Apart folding a b) : Apart folding b a := by
  intro q hq p hp
  obtain ⟨hne, hinside, hinside'⟩ := h p hp q hq
  exact ⟨hne.symm, hinside', hinside⟩

/-- What the refinement says of the locations it lets through. -/
structure Refined (folding : Folding) (seen taken : List Text) (custom : List ProtectedLocation) :
  Prop where
  nodup : (locationIds custom).Nodup
  fresh : ∀ location ∈ custom, location.id ∉ locationIds protectedLocationsDefaults ∧ location.id ∉ seen
  free : ∀ location ∈ custom, ∀ path ∈ location.paths, ∀ other ∈ taken, overlaps folding path other = false
  apart : custom.Pairwise (Apart folding)

theorem refined_of_refineCustom (h : refineCustom folding seen taken custom) :
    Refined folding seen taken custom := by
  induction custom generalizing seen taken with
  | nil =>
    exact ⟨nodup_nil, forall_mem_nil _, forall_mem_nil _, List.Pairwise.nil⟩
  | cons location rest ih =>
    simp only [refineCustom, Bool.and_eq_true, decide_eq_true_eq, all_eq_true, Bool.not_eq_true', any_eq_false] at h
    obtain ⟨⟨⟨hdefault, hseen⟩, hpaths⟩, hrest⟩ := h
    obtain ⟨hnodup, hfresh, hfree, hapart⟩ := ih hrest
    refine ⟨?_, ?_, ?_, ?_⟩
    · show (location.id :: locationIds rest).Nodup
      refine nodup_cons.mpr ⟨?_, hnodup⟩
      intro hmem
      obtain ⟨other, hother, hid⟩ := mem_map.mp hmem
      exact (hfresh other hother).2 (mem_append_right _ (mem_singleton.mpr hid))
    · intro other hother
      obtain rfl | hother := mem_cons.mp hother
      · exact ⟨hdefault, hseen⟩
      · exact ⟨(hfresh other hother).1, fun hmem => (hfresh other hother).2 (mem_append_left _ hmem)⟩
    · intro other hother path hpath place hplace
      obtain rfl | hother := mem_cons.mp hother
      · exact Bool.eq_false_iff.mpr (hpaths path hpath place hplace)
      · exact hfree other hother path hpath place (mem_append_left _ hplace)
    · refine pairwise_cons.mpr ⟨?_, hapart⟩
      intro other hother
      refine Apart.symm ?_
      intro q hq p hp
      exact overlaps_eq_false.mp (hfree other hother q hq p (mem_append_right _ hp))

/-- `overlaps` on paths that folding leaves as they are. -/
def overlapsPlain (a b : Text) : Bool :=
  a = b || (b ++ [unit '/']).isPrefixOf a || (a ++ [unit '/']).isPrefixOf b

theorem fold_default {path : Text} (h : path ∈ locationPaths protectedLocationsDefaults) :
    folding.fold path = path := by
  have hsmall : ∀ path ∈ locationPaths protectedLocationsDefaults,
      path.Forall fun u => u < 128 ∧ ¬ (unit 'A' ≤ u ∧ u ≤ unit 'Z') := by decide +kernel
  exact folding.small path (forall_iff_forall_mem.mp (hsmall path h))

theorem apart_defaults (folding : Folding) : protectedLocationsDefaults.Pairwise (Apart folding) := by
  have hplain : protectedLocationsDefaults.Pairwise fun a b =>
      ∀ p ∈ a.paths, ∀ q ∈ b.paths, overlapsPlain p q = false := by decide +kernel
  refine hplain.imp_of_mem ?_
  intro a b ha hb hab p hp q hq
  have hp' : p ∈ locationPaths protectedLocationsDefaults := mem_flatMap.mpr ⟨a, ha, hp⟩
  have hq' : q ∈ locationPaths protectedLocationsDefaults := mem_flatMap.mpr ⟨b, hb, hq⟩
  refine overlaps_eq_false.mp ?_
  unfold overlaps
  rw [fold_default hp', fold_default hq']
  exact hab p hp q hq

theorem nodup_defaults : (locationIds protectedLocationsDefaults).Nodup := by decide +kernel

section

variable (h : isPolicy folding policy = true)
include h

theorem protectedLocations_eq :
    protectedLocations folding policy = protectedLocationsDefaults ++ policy.custom := by
  unfold protectedLocations
  rw [parse_policyJson h]

theorem nodup_protectedLocations : (locationIds (protectedLocations folding policy)).Nodup := by
  obtain ⟨-, -, hrefine⟩ := isPolicy_iff.mp h
  have hrefined := refined_of_refineCustom hrefine
  rw [protectedLocations_eq h]
  unfold locationIds
  rw [map_append]
  refine nodup_defaults.append hrefined.nodup ?_
  intro id hid hid'
  obtain ⟨location, hlocation, rfl⟩ := mem_map.mp hid'
  exact (hrefined.fresh location hlocation).1 hid

theorem apart_protectedLocations : (protectedLocations folding policy).Pairwise (Apart folding) := by
  obtain ⟨-, -, hrefine⟩ := isPolicy_iff.mp h
  have hrefined := refined_of_refineCustom hrefine
  rw [protectedLocations_eq h]
  refine pairwise_append.mpr ⟨apart_defaults folding, hrefined.apart, ?_⟩
  intro a ha b hb
  refine Apart.symm ?_
  intro q hq p hp
  exact overlaps_eq_false.mp (hrefined.free b hb q hq p (mem_flatMap.mpr ⟨a, ha, hp⟩))

end

end

def storedIds (raw : JsValue) : List Text := (readTextList raw).getD []

theorem mem_distinct {id : Text} {ids : List Text} : id ∈ distinct ids ↔ id ∈ ids := by
  induction ids with
  | nil => exact Iff.rfl
  | cons first ids ih =>
    rw [distinct, mem_cons, mem_cons, mem_filter, ih]
    by_cases h : id = first
    · simp [h]
    · simp [h]

variable {locations : List ProtectedLocation}

theorem mem_parseGrants {raw : JsValue} {id : Text} :
    id ∈ parseProtectedLocationGrants raw locations ↔ id ∈ storedIds raw ∧ id ∈ locationIds locations := by
  unfold parseProtectedLocationGrants storedIds
  cases readTextList raw with
  | none => exact ⟨fun h => absurd h not_mem_nil, fun h => absurd h.1 not_mem_nil⟩
  | some ids =>
    rw [mem_distinct, mem_filter, decide_eq_true_eq]
    rfl

theorem storedIds_grantsJson (grants : List Text) : storedIds (grantsJson grants) = grants := by
  unfold storedIds grantsJson readTextList
  dsimp only
  rw [readTexts_strings]
  rfl

/-- Grants that a patch leaves are known: old ones are kept only if they are, and new ones are
checked. -/
theorem grants_known {stored patch : JsValue} {grants : List Text}
    (h : applyProtectedLocationGrantsPatch stored patch locations = .ok grants) :
    ∀ id ∈ grants, id ∈ locationIds locations := by
  unfold applyProtectedLocationGrantsPatch at h
  split at h
  · cases h
  · rename_i patch _
    dsimp only at h
    split at h
    · cases h
    · rename_i hknown
      split at h
      · cases h
      · obtain rfl := Except.ok.inj h
        intro id hid
        have hmem := mem_distinct.mp (mem_filter.mp hid).1
        obtain hold | hnew := mem_append.mp hmem
        · exact (mem_parseGrants.mp hold).2
        · have hid := find?_eq_none.mp hknown id (mem_append_left _ hnew)
          simpa using hid

section

variable {folding : Folding} {space : SpaceRows}

variable {patch stored : JsValue} {policy : ProtectedLocationsPolicyV1}

section

variable (h : applyProtectedLocationsPolicyPatch folding stored patch = .ok policy)
include h

theorem isPolicy_patched : isPolicy folding policy := by
  unfold applyProtectedLocationsPolicyPatch at h
  split at h
  · cases h
  · dsimp only at h
    split at h
    · cases h
    · split at h
      · rename_i hpolicy
        exact Except.ok.inj h ▸ hpolicy
      · cases h

theorem kept_patched
    (hlocation : location ∈ (parseProtectedLocationsPolicy folding stored).custom)
    (hkept : location.id ∉ removedIds patch) :
    location ∈ policy.custom := by
  unfold removedIds at hkept
  unfold applyProtectedLocationsPolicyPatch at h
  split at h
  · cases h
  · rename_i read hread
    rw [hread, bind_some] at hkept
    dsimp only at h
    split at h
    · cases h
    · split at h
      · obtain rfl := Except.ok.inj h
        exact mem_append_left _ (mem_filter.mpr ⟨hlocation, decide_eq_true hkept⟩)
      · cases h

end

theorem locations_eq (folding : Folding) (space : SpaceRows) : space.locations folding =
      protectedLocationsDefaults ++ (parseProtectedLocationsPolicy folding space.protectedLocations).custom :=
  protectedLocations_eq (isPolicy_parse folding _)

/-- What is read of the space, whatever is stored. -/
structure SpaceHolds (folding : Folding) (space : SpaceRows) : Prop where
  stored : parseProtectedLocationsPolicy folding
      (policyJson (parseProtectedLocationsPolicy folding space.protectedLocations)) =
    parseProtectedLocationsPolicy folding space.protectedLocations
  ids : (locationIds (space.locations folding)).Nodup
  apart : (space.locations folding).Pairwise (Apart folding)
  defaults : ∀ location ∈ protectedLocationsDefaults, location ∈ space.locations folding
  grants : ∀ bot ∈ space.bots,
    ∀ id ∈ parseProtectedLocationGrants bot.protectedLocationGrants (space.locations folding),
    id ∈ locationIds (space.locations folding)

theorem spaceHolds (folding : Folding) (space : SpaceRows) : SpaceHolds folding space where
  stored := parse_policyJson (isPolicy_parse folding _)
  ids := nodup_protectedLocations (isPolicy_parse folding _)
  apart := apart_protectedLocations (isPolicy_parse folding _)
  defaults := by
    intro location hlocation
    rw [locations_eq]
    exact mem_append_left _ hlocation
  grants := fun bot _ id hid => (mem_parseGrants.mp hid).2

/-- Every grant that is stored is for a location in force. -/
def GrantsKnown (folding : Folding) (space : SpaceRows) : Prop :=
  ∀ bot ∈ space.bots, ∀ id ∈ storedIds bot.protectedLocationGrants, id ∈ locationIds (space.locations folding)

/-- What an update does besides: a refused one changes nothing, and a location's grants go with
it. -/
structure UpdateHolds (folding : Folding) (space : SpaceRows) (op : LocationsOp) : Prop where
  refused : ∀ refusal, (op.update folding space).2 = .error refusal → op.apply folding space = space
  known : GrantsKnown folding space → GrantsKnown folding (op.apply folding space)
  removed : ∀ patch views, op = .patchPolicy patch → (op.update folding space).2 = .ok views →
    ∀ id ∈ removedIds patch, ∀ bot ∈ (op.apply folding space).bots, id ∉ storedIds bot.protectedLocationGrants

theorem grantsKnown_patchGrants (h : GrantsKnown folding space) (userId botId : Text) (patch : JsValue) :
    GrantsKnown folding (updateBotProtectedLocationGrants folding space userId botId patch).1 := by
  unfold updateBotProtectedLocationGrants
  split
  · exact h
  · split
    · exact h
    · rename_i grants hgrants
      intro bot hbot id hid
      obtain ⟨old, hold, rfl⟩ := mem_map.mp hbot
      split at hid
      · dsimp only at hid
        rw [storedIds_grantsJson] at hid
        exact grants_known hgrants id hid
      · exact h old hold id hid

theorem grantsKnown_patchPolicy (h : GrantsKnown folding space) (patch : JsValue) :
    GrantsKnown folding (updateSpaceProtectedLocations folding space patch).1 := by
  unfold updateSpaceProtectedLocations
  split
  · exact h
  · rename_i policy hpolicy
    have hvalid := isPolicy_patched hpolicy
    intro bot hbot id hid
    rw [SpaceRows.locations, parse_policyJson hvalid]
    split at hbot
    · obtain ⟨old, hold, rfl⟩ := mem_map.mp hbot
      rw [storedIds_grantsJson] at hid
      obtain ⟨location, hlocation, rfl⟩ := mem_map.mp (mem_parseGrants.mp hid).2
      exact mem_map_of_mem (mem_filter.mp hlocation).1
    · rename_i hnone
      obtain ⟨location, hlocation, rfl⟩ := mem_map.mp (h bot hbot id hid)
      refine mem_map_of_mem ?_
      rw [locations_eq] at hlocation
      rw [protectedLocations_eq hvalid]
      obtain hdefault | hcustom := mem_append.mp hlocation
      · exact mem_append_left _ hdefault
      · refine mem_append_right _ (kept_patched hpolicy hcustom ?_)
        rw [not_not.mp hnone]
        exact not_mem_nil

theorem refused_apply {op : LocationsOp} {refusal : PatchRefusal}
    (h : (op.update folding space).2 = .error refusal) :
    op.apply folding space = space := by
  unfold LocationsOp.apply
  cases op with
  | patchGrants userId botId patch =>
    dsimp only [LocationsOp.update, updateBotProtectedLocationGrants] at h ⊢
    split
    · rfl
    · rename_i bot hbot
      rw [hbot] at h
      dsimp only at h
      split
      · rfl
      · rename_i grants hgrants
        rw [hgrants] at h
        cases h
  | patchPolicy patch =>
    dsimp only [LocationsOp.update, updateSpaceProtectedLocations] at h ⊢
    split
    · rfl
    · rename_i policy hpolicy
      rw [hpolicy] at h
      cases h

theorem removed_apply {views : List ProtectedLocationView}
    (h : (updateSpaceProtectedLocations folding space patch).2 = .ok views) {id : Text}
    (hid : id ∈ removedIds patch) :
    ∀ bot ∈ (updateSpaceProtectedLocations folding space patch).1.bots,
      id ∉ storedIds bot.protectedLocationGrants := by
  unfold updateSpaceProtectedLocations at h ⊢
  split
  · rename_i refusal hrefused
    rw [hrefused] at h
    cases h
  · intro bot hbot hgranted
    dsimp only at hbot
    rw [if_pos (ne_nil_of_mem hid)] at hbot
    obtain ⟨old, hold, rfl⟩ := mem_map.mp hbot
    rw [storedIds_grantsJson] at hgranted
    obtain ⟨location, hlocation, hsame⟩ := mem_map.mp (mem_parseGrants.mp hgranted).2
    have hkept := of_decide_eq_true (mem_filter.mp hlocation).2
    exact hkept (hsame ▸ hid)

theorem updateHolds (folding : Folding) (space : SpaceRows) (op : LocationsOp) :
    UpdateHolds folding space op where
  refused := fun _ h => refused_apply h
  known := by
    intro h
    cases op with
    | patchGrants userId botId patch => exact grantsKnown_patchGrants h userId botId patch
    | patchPolicy patch => exact grantsKnown_patchPolicy h patch
  removed := by
    rintro patch views rfl h id hid
    exact removed_apply h hid

end

/-- Each state of a run holds what is promised of a space, each update does what is promised of an
update, and grants that were for locations in force are so after the run. -/
theorem locations_hold (folding : Folding) (space : SpaceRows) (ops : List LocationsOp) :
    SpaceHolds folding (Run.after (LocationsOp.apply folding) space ops) ∧
      (∀ op, UpdateHolds folding (Run.after (LocationsOp.apply folding) space ops) op) ∧
      (GrantsKnown folding space → GrantsKnown folding (Run.after (LocationsOp.apply folding) space ops)) := by
  refine ⟨spaceHolds folding _, fun op => updateHolds folding _ op, fun h => ?_⟩
  exact @Run.inv_after _ _ (LocationsOp.apply folding) (GrantsKnown folding)
    (fun rows op hrows => (updateHolds folding rows op).known hrows) _ h ops

/-- A folding that puts ASCII letters in lower case. -/
def asciiFolding : Folding where
  fold := fun text => text.map fun u => if unit 'A' ≤ u ∧ u ≤ unit 'Z' then u + 32 else u
  small := by
    intro text hsmall
    refine (map_congr_left ?_).trans (map_id text)
    intro u hu
    exact if_neg (hsmall u hu).2

/-- A space with two locations of its own, which its bot may use. -/
def twoLocations : SpaceRows where
  protectedLocations := policyJson
    ⟨[credentials "notes" "Notes" ["~/Notes"], agentTool "pi" "Pi configuration" ["~/.pi"] "pi"]⟩
  bots := [⟨lit "bot", lit "user", grantsJson [lit "notes", lit "pi", lit "aws"]⟩]

def removeNotes : LocationsOp := .patchPolicy (.obj [(lit "remove", .arr [.str (lit "notes")])])

theorem locations_hold_twoLocations : GrantsKnown asciiFolding twoLocations ∧
    locationIds (parseProtectedLocationsPolicy asciiFolding twoLocations.protectedLocations).custom =
      [lit "notes", lit "pi"] ∧
    ∃ space, space = Run.after (LocationsOp.apply asciiFolding) twoLocations [removeNotes] ∧
      SpaceHolds asciiFolding space ∧ GrantsKnown asciiFolding space ∧
      space.bots.map (fun bot => storedIds bot.protectedLocationGrants) = [[lit "pi", lit "aws"]] := by
  have hknown : GrantsKnown asciiFolding twoLocations := by
    unfold GrantsKnown
    decide +kernel
  have hrun := locations_hold asciiFolding twoLocations [removeNotes]
  exact ⟨hknown, by decide +kernel, _, rfl, hrun.1, hrun.2.2 hknown, by decide +kernel⟩

end ArdurBot.Locations
