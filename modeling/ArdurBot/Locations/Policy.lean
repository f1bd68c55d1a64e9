import ArdurBot.Lib.Json.Read

/-!
# Protected locations

`packages/contracts/src/protected-locations.ts`: the built-in locations, the policy of a space that
adds to them, and the grants of a bot, each read from what is stored and changed by patches. How a
path is normalised and put in lower case is the runtime's; a path of small ASCII letters is left as
it is.
-/

namespace ArdurBot.Locations

open Utf16 Json

inductive ProtectedLocationKind where
  | credentials
  | agentTool
deriving DecidableEq

structure ProtectedLocation where
  id : Text
  label : Text
  paths : List Text
  kind : ProtectedLocationKind
  tool : Option Text

def customLocationsMax : ℕ := 64

def grantsPatchMax : ℕ := 128

def hasControlCharacter (value : Text) : Bool := value.any fun code => code < 0x20 || code = 0x7f

/-- `locationPath` -/
def isLocationPath (value : Text) : Bool :=
  3 ≤ value.length && value.length ≤ 512 && ((lit "~/").isPrefixOf value && !hasControlCharacter value &&
    ((value.drop 2).splitOn (unit '/')).all fun part =>
      part ≠ [] && part ≠ lit "." && part ≠ lit ".." && unit '\\' ∉ part)

def isLocationId (id : Text) : Bool := 1 ≤ id.length && id.length ≤ 64

/-- `ProtectedLocationSchema` -/
def isLocation (location : ProtectedLocation) : Bool :=
  isLocationId location.id && (1 ≤ location.label.length && location.label.length ≤ 120) &&
    (1 ≤ location.paths.length && location.paths.length ≤ 16 && location.paths.all isLocationPath) &&
    (location.tool.all fun tool => 1 ≤ tool.length && tool.length ≤ 64) &&
    (location.kind = .agentTool) = location.tool.isSome

/-- `normalize("NFC")` and then `toLowerCase()`. -/
structure Folding where
  fold : Text → Text
  small : ∀ text, (∀ u ∈ text, u < 128 ∧ ¬ (unit 'A' ≤ u ∧ u ≤ unit 'Z')) → fold text = text

def overlaps (folding : Folding) (left right : Text) : Bool :=
  let a := folding.fold left
  let b := folding.fold right
  a = b || (b ++ [unit '/']).isPrefixOf a || (a ++ [unit '/']).isPrefixOf b

def credentials (id label : String) (paths : List String) : ProtectedLocation where
  id := lit id
  label := lit label
  paths := paths.map lit
  kind := .credentials
  tool := none

def agentTool (id label : String) (paths : List String) (tool : String) : ProtectedLocation where
  id := lit id
  label := lit label
  paths := paths.map lit
  kind := .agentTool
  tool := some (lit tool)

/-- `PROTECTED_LOCATIONS_DEFAULTS` -/
def protectedLocationsDefaults : List ProtectedLocation :=
  [credentials "aws" "Amazon Web Services credentials" ["~/.aws"],
    credentials "azure" "Azure credentials" ["~/.azure"],
    credentials "google-cloud" "Google Cloud credentials" ["~/.config/gcloud"],
    credentials "kubernetes" "Kubernetes credentials" ["~/.kube"],
    credentials "ssh" "SSH keys" ["~/.ssh"],
    credentials "gnupg" "GnuPG keys" ["~/.gnupg"],
    credentials "github-cli" "GitHub CLI sign-in" ["~/.config/gh"],
    credentials "docker" "Docker credentials" ["~/.docker"],
    credentials "netrc" "Netrc credentials" ["~/.netrc"],
    credentials "npmrc" "npm credentials" ["~/.npmrc"],
    credentials "git-credentials" "Git stored credentials" ["~/.git-credentials"],
    credentials "terraform" "Terraform credentials" ["~/.terraform.d"],
    credentials "pypi" "PyPI credentials" ["~/.pypirc"],
    credentials "cargo" "Cargo credentials" ["~/.cargo/credentials.toml", "~/.cargo/credentials"],
    credentials "maven" "Maven settings" ["~/.m2/settings.xml"],
    credentials "gradle" "Gradle properties" ["~/.gradle/gradle.properties"],
    agentTool "codex" "Codex configuration" ["~/.codex"] "codex-app-server",
    agentTool "claude-code" "Claude Code configuration" ["~/.claude", "~/.claude.json"] "claude-code",
    agentTool "hermes" "Hermes configuration" ["~/.hermes"] "hermes",
    agentTool "gemini" "Gemini and Antigravity configuration" ["~/.gemini"] "antigravity"]

def locationIds (locations : List ProtectedLocation) : List Text :=
  locations.map ProtectedLocation.id

def locationPaths (locations : List ProtectedLocation) : List Text :=
  locations.flatMap ProtectedLocation.paths

def ProtectedLocationKind.text : ProtectedLocationKind → Text
  | credentials => lit "credentials"
  | agentTool => lit "agent-tool"

def locationJson (location : ProtectedLocation) : JsValue :=
  .obj ([(lit "id", .str location.id), (lit "label", .str location.label),
    (lit "paths", .arr (location.paths.map .str)), (lit "kind", .str location.kind.text)] ++
    optionalField "tool" (location.tool.map .str))

def readKind (value : JsValue) : Option ProtectedLocationKind :=
  (readText value).bind fun text => [ProtectedLocationKind.credentials, .agentTool].find? (·.text = text)

def readTextList : JsValue → Option (List Text)
  | .arr items => readTexts items
  | _ => none

/-- `ProtectedLocationSchema.safeParse` -/
def readLocation (value : JsValue) : Option ProtectedLocation := do
  let fields ← readStrict ["id", "label", "paths", "kind", "tool"] value
  let location : ProtectedLocation := {
    id := ← textField fields "id"
    label := ← textField fields "label"
    paths := ← (getField fields (lit "paths")).bind readTextList
    kind := ← (getField fields (lit "kind")).bind readKind
    tool := ← readOptional readText (getField fields (lit "tool"))
  }
  if isLocation location then some location else none

structure ProtectedLocationsPolicyV1 where
  custom : List ProtectedLocation

def policyJson (policy : ProtectedLocationsPolicyV1) : JsValue :=
  .obj [(lit "version", .num (ofNat 1)), (lit "custom", .arr (policy.custom.map locationJson))]

section

variable (folding : Folding)

/-- The refinement of the schema of a policy: the ids that were seen, and the paths that are
taken. -/
def refineCustom (seen taken : List Text) : List ProtectedLocation → Bool
  | [] => true
  | location :: rest =>
    location.id ∉ locationIds protectedLocationsDefaults && location.id ∉ seen &&
      (location.paths.all fun path => !taken.any (overlaps folding path)) &&
      refineCustom (seen ++ [location.id]) (taken ++ location.paths) rest

/-- `ProtectedLocationsPolicyV1Schema` -/
def isPolicy (policy : ProtectedLocationsPolicyV1) : Bool :=
  policy.custom.length ≤ customLocationsMax && policy.custom.all isLocation &&
    refineCustom folding [] (locationPaths protectedLocationsDefaults) policy.custom

def storedCustomEntries (raw : JsValue) : Option (List JsValue) :=
  match raw with
  | .obj stored =>
    match getField stored (lit "version"), getField stored (lit "custom") with
    | some (.num version), some (.arr custom) => if version = ofNat 1 then some custom else none
    | _, _ => none
  | _ => none

/-- One round of the loop of `parseProtectedLocationsPolicy`. -/
def keepEntry (custom : List ProtectedLocation) (entry : JsValue) : List ProtectedLocation :=
  if customLocationsMax ≤ custom.length then custom
  else
    match readLocation entry with
    | none => custom
    | some location => if isPolicy folding ⟨custom ++ [location]⟩ then custom ++ [location] else custom

def parseProtectedLocationsPolicy (raw : JsValue) : ProtectedLocationsPolicyV1 :=
  ⟨((storedCustomEntries raw).getD []).foldl (keepEntry folding) []⟩

def protectedLocations (policy : ProtectedLocationsPolicyV1) : List ProtectedLocation :=
  protectedLocationsDefaults ++ (parseProtectedLocationsPolicy folding (policyJson policy)).custom

/-- `[...new Set(ids)]` -/
def distinct : List Text → List Text
  | [] => []
  | id :: rest => id :: (distinct rest).filter (· ≠ id)

def parseProtectedLocationGrants (raw : JsValue) (locations : List ProtectedLocation) : List Text :=
  match readTextList raw with
  | none => []
  | some ids => distinct (ids.filter fun id => id ∈ locationIds locations)

def grantsJson (grants : List Text) : JsValue := .arr (grants.map .str)

/-- Why a patch is refused: the schema, or an error with a text. -/
inductive PatchRefusal where
  | schema
  | patch (message : Text)
  | isolation

def readIds (limit : ℕ) (value : JsValue) : Option (List Text) :=
  (readTextList value).filter fun ids => ids.length ≤ limit && ids.all isLocationId

structure ProtectedLocationGrantsPatch where
  grant : Option (List Text)
  revoke : Option (List Text)

/-- `ProtectedLocationGrantsPatchSchema.parse` -/
def readGrantsPatch (value : JsValue) : Option ProtectedLocationGrantsPatch := do
  let fields ← readStrict ["grant", "revoke"] value
  return {
    grant := ← readOptional (readIds grantsPatchMax) (getField fields (lit "grant"))
    revoke := ← readOptional (readIds grantsPatchMax) (getField fields (lit "revoke"))
  }

def quoted (text : Text) : Text := unit '"' :: (text ++ [unit '"'])

def applyProtectedLocationGrantsPatch (stored patch : JsValue) (locations : List ProtectedLocation) :
    Except PatchRefusal (List Text) :=
  match readGrantsPatch patch with
  | none => .error .schema
  | some patch =>
    let grant := patch.grant.getD []
    let revoke := patch.revoke.getD []
    match (grant ++ revoke).find? fun id => id ∉ locationIds locations with
    | some id => .error (.patch (lit "Unknown protected location " ++ quoted id ++ lit "."))
    | none =>
      match grant.find? (· ∈ revoke) with
      | some id => .error (.patch (lit "Cannot grant and revoke protected location " ++ quoted id ++ lit "."))
      | none =>
        .ok ((distinct (parseProtectedLocationGrants stored locations ++ grant)).filter (· ∉ revoke))

structure ProtectedLocationsPolicyPatch where
  add : Option (List ProtectedLocation)
  remove : Option (List Text)

def readLocations : List JsValue → Option (List ProtectedLocation)
  | [] => some []
  | value :: rest =>
    match readLocation value, readLocations rest with
    | some location, some locations => some (location :: locations)
    | _, _ => none

def readLocationList : JsValue → Option (List ProtectedLocation)
  | .arr items => (readLocations items).filter fun locations => locations.length ≤ customLocationsMax
  | _ => none

/-- `ProtectedLocationsPolicyPatchSchema.parse` -/
def readPolicyPatch (value : JsValue) : Option ProtectedLocationsPolicyPatch := do
  let fields ← readStrict ["add", "remove"] value
  return {
    add := ← readOptional readLocationList (getField fields (lit "add"))
    remove := ← readOptional (readIds customLocationsMax) (getField fields (lit "remove"))
  }

def applyProtectedLocationsPolicyPatch (stored patch : JsValue) :
    Except PatchRefusal ProtectedLocationsPolicyV1 :=
  match readPolicyPatch patch with
  | none => .error .schema
  | some patch =>
    let removed := patch.remove.getD []
    match protectedLocationsDefaults.find? fun location => location.id ∈ removed with
    | some location => .error (.patch (lit "Cannot remove default location " ++ quoted location.id ++ lit "."))
    | none =>
      let next : ProtectedLocationsPolicyV1 :=
        ⟨((parseProtectedLocationsPolicy folding stored).custom.filter fun location => location.id ∉ removed) ++
          patch.add.getD []⟩
      if isPolicy folding next then .ok next else .error .schema

def removedIds (patch : JsValue) : List Text := ((readPolicyPatch patch).bind (·.remove)).getD []

def protectedLocationGrantsAfterPolicyPatch (stored patch : JsValue)
    (policy : ProtectedLocationsPolicyV1) : List Text :=
  parseProtectedLocationGrants stored
    ((protectedLocations folding policy).filter fun location => location.id ∉ removedIds patch)

structure ProtectedLocationView extends ProtectedLocation where
  custom : Bool
  granted : Bool

def protectedLocationViews (policy grants : JsValue) : List ProtectedLocationView :=
  let policy := parseProtectedLocationsPolicy folding policy
  let locations := protectedLocations folding policy
  let granted := parseProtectedLocationGrants grants locations
  locations.map fun location =>
    { location with custom := location.id ∈ locationIds policy.custom, granted := location.id ∈ granted }

structure BotRow where
  id : Text
  userId : Text
  protectedLocationGrants : JsValue

/-- A space and its bots (`packages/db/src/protected-locations.ts`). -/
structure SpaceRows where
  protectedLocations : JsValue
  bots : List BotRow

def SpaceRows.locations (space : SpaceRows) : List ProtectedLocation :=
  Locations.protectedLocations folding (parseProtectedLocationsPolicy folding space.protectedLocations)

/-- The rows after an update, and what it returns. -/
abbrev Updated := SpaceRows × Except PatchRefusal (List ProtectedLocationView)

def updateBotProtectedLocationGrants (space : SpaceRows) (userId botId : Text) (patch : JsValue) : Updated :=
  match space.bots.find? fun bot => bot.id = botId && bot.userId = userId with
  | none => (space, .error .isolation)
  | some bot =>
    match applyProtectedLocationGrantsPatch bot.protectedLocationGrants patch (space.locations folding) with
    | .error refusal => (space, .error refusal)
    | .ok grants =>
      let update (other : BotRow) : BotRow :=
        if other.id = botId && other.userId = userId then { other with protectedLocationGrants := grantsJson grants }
        else other
      ({ space with bots := space.bots.map update },
        .ok (protectedLocationViews folding space.protectedLocations (grantsJson grants)))

def updateSpaceProtectedLocations (space : SpaceRows) (patch : JsValue) : Updated :=
  match applyProtectedLocationsPolicyPatch folding space.protectedLocations patch with
  | .error refusal => (space, .error refusal)
  | .ok policy =>
    let update (bot : BotRow) : BotRow :=
      { bot with
        protectedLocationGrants :=
          grantsJson (protectedLocationGrantsAfterPolicyPatch folding bot.protectedLocationGrants patch policy) }
    let bots := if removedIds patch ≠ [] then space.bots.map update else space.bots
    ({ protectedLocations := policyJson policy, bots },
      .ok (protectedLocationViews folding (policyJson policy) .null))

inductive LocationsOp where
  | patchGrants (userId botId : Text) (patch : JsValue)
  | patchPolicy (patch : JsValue)

def LocationsOp.update (space : SpaceRows) : LocationsOp → Updated
  | patchGrants userId botId patch => updateBotProtectedLocationGrants folding space userId botId patch
  | patchPolicy patch => updateSpaceProtectedLocations folding space patch

def LocationsOp.apply (space : SpaceRows) (op : LocationsOp) : SpaceRows :=
  (op.update folding space).1

end

end ArdurBot.Locations
