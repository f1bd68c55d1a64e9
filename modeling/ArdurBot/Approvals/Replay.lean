import ArdurBot.Lib.Json.Text
import ArdurBot.Lib.Utf8

/-!
# Replay of approved requests

`packages/adapters/src/approval-effect.ts`. An approved request is stored as JSON; an array with the
marker in front is an envelope that names the live tool it was approved for. Two checks stand before
a replay, `approvalReplayPathError` and `approvalReplayResourceError`, and each leaves some of the
envelopes to the other.
-/

namespace ArdurBot.Approvals

open List Utf16 Json Option

inductive Revision where
  | text (t : Text)
  | number (n : JsNumber)

structure BoundApprovalRoute where
  connectorId : Text
  resourceId : Text
  toolName : Text
  resourceRevision : Option Revision
  hostCommand : Option JsValue

def textOf : Option JsValue → Option Text
  | some (.str text) => some text
  | _ => none

def isText (holds : Text → Bool) (value : Option JsValue) : Bool := (textOf value).any holds

def hostIntegrationIds : List Text :=
  ["github", "gitlab", "aws", "google-cloud", "azure", "kubernetes", "jenkins"].map lit

/-- `HostCommandApprovalSchema.safeParse(value).success` -/
def isHostCommandApproval : JsValue → Bool
  | .obj fields =>
    isText (· ∈ hostIntegrationIds) (getField fields (lit "id")) &&
      isText (· ≠ []) (getField fields (lit "identity")) &&
    (match getField fields (lit "workspace") with
      | some .null => true
      | workspace => isText (·.length ≤ 240) workspace) &&
    (match getField fields (lit "argv") with
      | some (.arr argv) => argv.all (fun arg => isText (fun _ => true) (some arg)) && 2 ≤ argv.length
      | _ => false) &&
    isText (· ≠ []) (getField fields (lit "cwd")) && isText (· ≠ []) (getField fields (lit "computerId"))
  | _ => false

/-- The inner option is a route without a revision; nothing is a revision of another type. -/
def revisionOf : Option JsValue → Option (Option Revision)
  | none => some none
  | some (.str text) => some (some (.text text))
  | some (.num n) => some (some (.number n))
  | some _ => none

def boundRoute : Option JsValue → Option BoundApprovalRoute
  | some (.obj route) => do
    let connectorId ← textOf (getField route (lit "connectorId"))
    let resourceId ← textOf (getField route (lit "resourceId"))
    let toolName ← textOf (getField route (lit "toolName"))
    let hostCommand := getField route (lit "hostCommand")
    if !hostCommand.all isHostCommandApproval then none
    else do
      let resourceRevision ← revisionOf (getField route (lit "resourceRevision"))
      some { connectorId, resourceId, toolName, resourceRevision, hostCommand }
  | _ => none

structure CatalogApproval where
  toolName : Text
  args : Fields
  route : Option BoundApprovalRoute

structure BoundDirectApproval where
  route : BoundApprovalRoute
  args : Fields

def executeTool : Text := lit "_execute_tool"

def directApprovalTag : Text := lit "direct"

def catalogApprovalDetails (request : Option JsValue) (marker : Text) : Option CatalogApproval :=
  match request with
  | some (.arr (.str head :: .str toolName :: .obj args :: route)) =>
    if head ≠ marker || !executeTool.isSuffixOf toolName then none
    else
      match route with
      | [] => some { toolName, args, route := none }
      | [route] => (boundRoute (some route)).map fun route => { toolName, args, route := some route }
      | _ => none
  | _ => none

def boundDirectApprovalDetails (request : Option JsValue) (marker : Text) : Option BoundDirectApproval :=
  match request with
  | some (.arr [.str head, .str tag, .obj payload]) =>
    if head ≠ marker || tag ≠ directApprovalTag then none
    else do
      let route ← boundRoute (getField payload (lit "route"))
      match getField payload (lit "args") with
      | some (.obj args) => some { route, args }
      | _ => none
  | _ => none

/-- `===` of two numbers -/
def sameNumber : JsNumber → JsNumber → Bool
  | .nan, _ => false
  | .negZero, .finite y => y = zeroDouble
  | .finite x, .negZero => x = zeroDouble
  | x, y => x = y

def sameRevision : Option Revision → Option Revision → Bool
  | none, none => true
  | some (.text a), some (.text b) => a = b
  | some (.number a), some (.number b) => sameNumber a b
  | _, _ => false

def approvalRoutesMatch : Option BoundApprovalRoute → Option BoundApprovalRoute → Bool
  | some left, some right =>
    left.connectorId = right.connectorId && left.resourceId = right.resourceId && left.toolName = right.toolName &&
      sameRevision left.resourceRevision right.resourceRevision
  | _, _ => false

/-- The text of the octets that were escaped one after another. -/
def decodeOctets (octets : Bytes) : Option Text :=
  octets.toByteArray.utf8Decode?.map fun chars => ofChars chars.toList

/-- `decodeURIComponent`, with the octets that are not decoded yet; nothing where it throws. -/
def decodeURIComponent (octets : Bytes) : Text → Option Text
  | [] => decodeOctets octets
  | u :: rest =>
    if u = unit '%' then
      match rest with
      | a :: b :: rest =>
        match hexValue a, hexValue b with
        | some a, some b => decodeURIComponent (octets ++ [(16 * a + b).toUInt8]) rest
        | _, _ => none
      | _ => none
    else do
      let decoded ← decodeOctets octets
      let rest ← decodeURIComponent [] rest
      some (decoded ++ u :: rest)

structure Target where
  resourceId : Text
  toolName : Text

def parseCatalogApprovalTarget (args : Fields) : Option Target := do
  let id ← textOf (getField args (lit "id"))
  let separator ← id.findIdx? (· = unit ':')
  if separator = 0 || separator = id.length - 1 then none
  else do
    let resourceId := id.take separator
    let toolName ← decodeURIComponent [] (id.drop (separator + 1))
    if resourceId = [] || toolName = [] then none else some { resourceId, toolName }

def catalogApprovalConnectorId (wrapperToolName : Text) : Text :=
  let name :=
    if executeTool.isSuffixOf wrapperToolName then wrapperToolName.take (wrapperToolName.length - executeTool.length)
    else wrapperToolName
  if name = lit "connectors" then lit "mcp" else name

def catalogApprovalMatchesLiveRoute (catalog : CatalogApproval)
    (liveRoute : Option BoundApprovalRoute) : Bool :=
  match catalog.route with
  | some route => approvalRoutesMatch (some route) liveRoute
  | none =>
    if (liveRoute.bind (·.resourceRevision)).isSome then false
    else
      match liveRoute, parseCatalogApprovalTarget catalog.args with
      | some live, some target =>
        live.connectorId = catalogApprovalConnectorId catalog.toolName && live.resourceId = target.resourceId &&
          live.toolName = target.toolName
      | _, _ => false

def falsy : Option JsValue → Bool
  | none => true
  | some .null => true
  | some (.bool b) => !b
  | some (.num n) => n = .nan || n = .negZero || n = .finite zeroDouble
  | some (.str text) => text = []
  | _ => false

section

variable (toolName : Text) (catalogRemapped : Bool) (approvedRequest : Option JsValue)

def approvalReplayPathError (marker : Text) (liveRoute : Option BoundApprovalRoute) : Option Text :=
  if falsy approvedRequest then none
  else
    match catalogRemapped, catalogApprovalDetails approvedRequest marker with
    | false, some catalog =>
      if catalogApprovalMatchesLiveRoute catalog liveRoute then none
      else some (lit "Approved catalog request " ++ toolName ++ lit " must be replayed via its catalog execute tool.")
    | _, _ => none

def approvalReplayResourceError (liveRoute : Option BoundApprovalRoute) (marker : Text) : Option Text :=
  let differs := lit "Approved request " ++ toolName ++ lit " was for a different connector resource."
  match catalogApprovalDetails approvedRequest marker with
  | some catalog =>
    if liveRoute.isNone then none
    else if !catalogApprovalMatchesLiveRoute catalog liveRoute then some differs
    else none
  | none =>
    match boundDirectApprovalDetails approvedRequest marker with
    | none =>
      if catalogRemapped then
        some (lit "Approved direct request " ++ toolName ++ lit " must be replayed as a direct tool call.")
      else none
    | some bound => if !approvalRoutesMatch (some bound.route) liveRoute then some differs else none

end

structure ApprovedEffectReplay where
  kind : Text
  request : JsValue

abbrev Queue := List ApprovedEffectReplay

def createApprovedEffectReplayQueue (effects : List ApprovedEffectReplay) : Queue :=
  effects.filter fun effect => effect.kind ≠ lit "peer_hold"

def Queue.nextToolName (pending : Queue) : Option Text := pending.head?.map (·.kind)

def Queue.nextRequest (pending : Queue) : Option JsValue := pending.head?.map (·.request)

def Queue.take : Queue → Text → Option JsValue × Queue
  | [], _ => (none, [])
  | next :: pending, toolName => if next.kind ≠ toolName then (none, next :: pending)
    else (some next.request, pending)

/-- The arguments to call with, an error, or neither. -/
def approvedCatalogReplay (queue : Queue) (toolName marker : Text) (onCatalogExecuteRoute : Bool) :
    Except Text (Option Fields) :=
  match catalogApprovalDetails queue.nextRequest marker with
  | none => .ok none
  | some pending =>
    if !onCatalogExecuteRoute then .ok none
    else if pending.toolName ≠ toolName &&
        !(pending.toolName = lit "mcp_execute_tool" && toolName = lit "connectors_execute_tool") then
      .error (lit "Approved request " ++ pending.toolName ++ lit " must be replayed before " ++ toolName ++ lit ".")
    else .ok (some pending.args)

/-- The arguments a request that was taken is replayed with. -/
def approvedReplayArgs (approvedRequest : Option JsValue) (resolvedArgs : Fields) (marker : Text) :
    Except Text Fields :=
  match catalogApprovalDetails approvedRequest marker with
  | some _ => .ok resolvedArgs
  | none =>
    match boundDirectApprovalDetails approvedRequest marker with
    | some bound => .ok bound.args
    | none =>
      match approvedRequest with
      | some (.obj fields) => .ok fields
      | _ => .error (lit "Approved tool request is not a JSON object")

/-- One call of `take` after another, with what each hands out. -/
def takes : Queue → List Text → List (Option JsValue) × Queue
  | pending, [] => ([], pending)
  | pending, toolName :: calls =>
    let (handed, pending) := pending.take toolName
    let (later, pending) := takes pending calls
    (handed :: later, pending)

variable {toolName marker : Text} {remapped : Bool} {request : Option JsValue}
  {catalog : CatalogApproval} {bound : BoundDirectApproval} {live : BoundApprovalRoute}

def BoundApprovalRoute.Same (route live : BoundApprovalRoute) : Prop :=
  live.connectorId = route.connectorId ∧ live.resourceId = route.resourceId ∧ live.toolName = route.toolName ∧
    sameRevision route.resourceRevision live.resourceRevision

/-- A catalog envelope without a route names no revision. -/
def CatalogApproval.Names (catalog : CatalogApproval) (live : BoundApprovalRoute) : Prop :=
  match catalog.route with
  | some route => route.Same live
  | none =>
    live.resourceRevision = none ∧ live.connectorId = catalogApprovalConnectorId catalog.toolName ∧
      parseCatalogApprovalTarget catalog.args = some ⟨live.resourceId, live.toolName⟩

def Passes (toolName : Text) (remapped : Bool) (request : Option JsValue) (marker : Text)
    (liveRoute : Option BoundApprovalRoute) :
    Prop :=
  approvalReplayPathError toolName remapped request marker liveRoute = none ∧
    approvalReplayResourceError toolName remapped request liveRoute marker = none

theorem approvalRoutesMatch_iff {route : BoundApprovalRoute} :
    approvalRoutesMatch (some route) (some live) ↔ route.Same live := by
  simp only [approvalRoutesMatch, BoundApprovalRoute.Same, Bool.and_eq_true, decide_eq_true_eq, and_assoc]
  constructor
  · rintro ⟨hconnector, hresource, htool, hrevision⟩
    exact ⟨hconnector.symm, hresource.symm, htool.symm, hrevision⟩
  · rintro ⟨hconnector, hresource, htool, hrevision⟩
    exact ⟨hconnector.symm, hresource.symm, htool.symm, hrevision⟩

theorem matchesLiveRoute_iff : catalogApprovalMatchesLiveRoute catalog (some live) ↔ catalog.Names live := by
  unfold catalogApprovalMatchesLiveRoute CatalogApproval.Names
  cases catalog.route with
  | some route => exact approvalRoutesMatch_iff
  | none =>
    cases hrevision : live.resourceRevision with
    | some revision => simp [hrevision]
    | none =>
      rcases parseCatalogApprovalTarget catalog.args with _ | target
      · simp
      obtain ⟨resourceId, tool⟩ := target
      simp only [bind_some, hrevision, isSome_none, Bool.false_eq_true, if_false, Bool.and_eq_true,
        decide_eq_true_eq, some.injEq, Target.mk.injEq, true_and, and_assoc]
      exact and_congr_right fun _ => and_congr eq_comm eq_comm

theorem not_matchesLiveRoute_none : catalogApprovalMatchesLiveRoute catalog none = false := by
  unfold catalogApprovalMatchesLiveRoute
  cases catalog.route with
  | some route => simp [approvalRoutesMatch]
  | none => simp

section

variable (h : catalogApprovalDetails request marker = some catalog)
include h

theorem catalog_spec : falsy request = false ∧ boundDirectApprovalDetails request marker = none := by
  unfold catalogApprovalDetails at h
  split at h
  · next head toolName args route =>
    split at h
    · cases h
    · next hhead =>
      refine ⟨rfl, ?_⟩
      simp only [Bool.or_eq_true, decide_eq_true_eq, Bool.not_eq_true', not_or, Bool.not_eq_false] at hhead
      have htag : toolName ≠ directApprovalTag := by
        intro htag
        have hsuffix := hhead.2
        rw [htag] at hsuffix
        exact absurd hsuffix (by decide)
      cases route with
      | nil => simp [boundDirectApprovalDetails, htag]
      | cons value route => simp [boundDirectApprovalDetails]
  · cases h

theorem passes_catalog : Passes toolName remapped request marker (some live) ↔ catalog.Names live := by
  rw [← matchesLiveRoute_iff]
  unfold Passes approvalReplayPathError approvalReplayResourceError
  rw [h, (catalog_spec h).1]
  cases hmatches : catalogApprovalMatchesLiveRoute catalog (some live) <;> cases remapped <;> simp [hmatches]

theorem passes_catalog_none : Passes toolName remapped request marker none ↔ remapped := by
  unfold Passes approvalReplayPathError approvalReplayResourceError
  rw [h, (catalog_spec h).1]
  cases remapped <;> simp [not_matchesLiveRoute_none]

end

theorem passes_bound (h : boundDirectApprovalDetails request marker = some bound)
    (liveRoute : Option BoundApprovalRoute) :
    Passes toolName remapped request marker liveRoute ↔ approvalRoutesMatch (some bound.route) liveRoute := by
  have hcatalog : catalogApprovalDetails request marker = none := by
    rw [eq_none_iff_forall_ne_some]
    intro catalog hcatalog
    rw [(catalog_spec hcatalog).2] at h
    cases h
  unfold Passes approvalReplayPathError approvalReplayResourceError
  rw [h, hcatalog]
  cases hmatches : approvalRoutesMatch (some bound.route) liveRoute <;> simp [hmatches]

theorem passes_unbound (hcatalog : catalogApprovalDetails request marker = none)
    (hbound : boundDirectApprovalDetails request marker = none) (liveRoute : Option BoundApprovalRoute) :
    Passes toolName remapped request marker liveRoute ↔ remapped = false := by
  unfold Passes approvalReplayPathError approvalReplayResourceError
  rw [hcatalog, hbound]
  cases remapped <;> simp

/-- What the calls that were handed something asked for, with what they got. -/
def handedOut (calls : List Text) (results : List (Option JsValue)) : List (Text × JsValue) :=
  (calls.zip results).filterMap fun (toolName, result) => result.map fun request => (toolName, request)

theorem takes_spec (calls : List Text) (queue : Queue) : (takes queue calls).1.length = calls.length ∧
    ∃ handed, handed ++ (takes queue calls).2 = queue ∧
      handedOut calls (takes queue calls).1 = handed.map fun effect => (effect.kind, effect.request) := by
  induction calls generalizing queue with
  | nil => exact ⟨rfl, [], rfl, rfl⟩
  | cons toolName calls ih =>
    obtain ⟨hlength, handed, hqueue, hhanded⟩ := ih (queue.take toolName).2
    refine ⟨by simp [takes, hlength], ?_⟩
    cases queue with
    | nil => exact ⟨handed, hqueue, hhanded⟩
    | cons next pending =>
      by_cases hkind : next.kind = toolName
      · have htake : Queue.take (next :: pending) toolName =
            (some next.request, pending) := by simp [Queue.take, hkind]
        rw [htake] at hqueue hhanded
        refine ⟨next :: handed, ?_, ?_⟩
        · simp only [takes, htake, cons_append, hqueue]
        · simp only [takes, htake, handedOut, zip_cons_cons, filterMap_cons, map_some, map_cons, hkind]
          exact congrArg _ hhanded
      · have htake : Queue.take (next :: pending) toolName = (none, next :: pending) := by simp [Queue.take, hkind]
        rw [htake] at hqueue hhanded
        refine ⟨handed, ?_, ?_⟩
        · simp only [takes, htake, hqueue]
        · simp only [takes, htake, handedOut, zip_cons_cons, filterMap_cons, map_none]
          exact hhanded

/-- An approved request is replayed for the live tool its envelope names and for no other, whichever
way it is called, and each effect is taken once, in order. -/
theorem replay_is_bound (toolName marker : Text) (remapped : Bool) :
    (∀ request, catalogApprovalDetails request marker = none ∨ boundDirectApprovalDetails request marker = none) ∧
    (∀ request live,
      (∀ catalog, catalogApprovalDetails request marker = some catalog →
        (Passes toolName remapped request marker (some live) ↔ catalog.Names live) ∧
        (Passes toolName remapped request marker none ↔ remapped = true) ∧
        (catalog.route = none → live.resourceRevision.isSome → ¬ Passes toolName remapped request marker (some live))) ∧
      (∀ bound, boundDirectApprovalDetails request marker = some bound →
        (Passes toolName remapped request marker (some live) ↔ bound.route.Same live) ∧
        ¬ Passes toolName remapped request marker none) ∧
      (catalogApprovalDetails request marker = none → boundDirectApprovalDetails request marker = none →
        ∀ liveRoute, Passes toolName remapped request marker liveRoute ↔ remapped = false)) ∧
    (∀ effects calls,
      (takes (createApprovedEffectReplayQueue effects) calls).1.length = calls.length ∧
      ∃ handed, handed ++ (takes (createApprovedEffectReplayQueue effects) calls).2 = createApprovedEffectReplayQueue effects ∧
        handedOut calls (takes (createApprovedEffectReplayQueue effects) calls).1 =
          handed.map fun effect => (effect.kind, effect.request)) ∧
    (∀ (queue : Queue) pending args, catalogApprovalDetails queue.nextRequest marker = some pending →
      approvedCatalogReplay queue toolName marker true = .ok (some args) → args = pending.args) ∧
    ∀ request resolvedArgs args, catalogApprovalDetails request marker = none →
      approvedReplayArgs request resolvedArgs marker = .ok args →
      request = some (.obj args) ∨ ∃ bound, boundDirectApprovalDetails request marker = some bound ∧ args = bound.args := by
  refine ⟨?_, ?_, fun effects calls => takes_spec calls _, ?_, ?_⟩
  · intro request
    cases hcatalog : catalogApprovalDetails request marker with
    | none => exact .inl rfl
    | some catalog => exact .inr (catalog_spec hcatalog).2
  · intro request live
    refine ⟨fun catalog h => ⟨passes_catalog h, passes_catalog_none h, ?_⟩, fun bound h => ⟨?_, ?_⟩, passes_unbound⟩
    · intro hroute hrevision hpasses
      have hnames := (passes_catalog h).mp hpasses
      unfold CatalogApproval.Names at hnames
      rw [hroute] at hnames
      rw [hnames.1] at hrevision
      cases hrevision
    · rw [passes_bound h, approvalRoutesMatch_iff]
    · rw [passes_bound h]
      simp [approvalRoutesMatch]
  · intro queue pending args hpending hargs
    unfold approvedCatalogReplay at hargs
    rw [hpending] at hargs
    dsimp only at hargs
    split at hargs
    · cases hargs
    · split at hargs
      · cases hargs
      · injection hargs with hargs
        exact (some.inj hargs).symm
  · intro request resolvedArgs args hcatalog hargs
    unfold approvedReplayArgs at hargs
    rw [hcatalog] at hargs
    dsimp only at hargs
    split at hargs
    · next bound hbound =>
      injection hargs with hargs
      exact .inr ⟨bound, hbound, hargs.symm⟩
    · split at hargs
      · injection hargs with hargs
        exact .inl (by rw [hargs])
      · cases hargs

end ArdurBot.Approvals
