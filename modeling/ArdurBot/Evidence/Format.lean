import ArdurBot.Evidence.Jcs
import ArdurBot.Lib.Base64url
import ArdurBot.Lib.Checked

/-!
# The evidence format

`errors.ts`, `tables.ts` and the validator of `receipt.ts` in `packages/evidence/src`: what a
receipt's claims must be. The validator throws at the first claim that is wrong, and
`validateReceiptClaims` returns what it throws.

What `node:crypto` and the Unicode tables of the engine do is a `Platform`.
-/

namespace ArdurBot.Evidence

open Utf16 Json
open Checked (bind_eq_ok)

structure Platform where
  /-- `KeyObject` -/
  Key : Type
  isPrivate : Key → Bool
  /-- `asymmetricKeyType === "ec"` and `namedCurve === "prime256v1"` -/
  isP256 : Key → Bool
  createPublicKey : Key → Key
  /-- The SPKI export in DER. -/
  spki : Key → Bytes
  /-- SHA-256 -/
  digest : Bytes → Bytes
  /-- ES256 with the random number it draws, in the IEEE P1363 encoding. -/
  sign : Key → ℕ → Bytes → Bytes
  verify : Key → Bytes → Bytes → Bool
  /-- `\p{C}` or `\p{Z}` -/
  isOtherOrSeparator : ℕ → Bool

inductive FormatErrorCode where
  | missingClaim
  | unknownClaim
  | invalidClaim
  | emptyChain
  | invalidKey
  | invalidJws
  | invalidSequence
  | tailMismatch

inductive Thrown where
  | format (code : FormatErrorCode) (claim message : Text)
  | typeError (message : Text)
  | syntaxError

abbrev Result := Except Thrown

def throwUnless (condition : Bool) (error : Thrown) : Result Unit :=
  if condition then .ok () else .error error

def requireClaim (condition : Bool) (claim : Text) (message : Text := lit "Invalid value") : Result Unit :=
  throwUnless condition (.format .invalidClaim claim message)

def checkIf (condition : Bool) (check : Result Unit) : Result Unit :=
  if condition then check else .ok ()

variable {condition : Bool} {u : Unit}

theorem throwUnless_eq_ok {error : Thrown} : throwUnless condition error = .ok u ↔ condition := by
  cases condition <;> simp [throwUnless]

theorem requireClaim_eq_ok {claim message : Text} :
    requireClaim condition claim message = .ok u ↔ condition := throwUnless_eq_ok

theorem checkIf_eq_ok {check : Result Unit} :
    checkIf condition check = .ok u ↔ (condition → check = .ok u) := by
  cases condition <;> simp [checkIf]

theorem seq_eq_ok {β : Type} {x : Result Unit} {y : Unit → Result β} {b : β} :
    x >>= y = .ok b ↔ x = .ok () ∧ y () = .ok b := by
  rw [bind_eq_ok]
  exact ⟨fun ⟨(), hx, hy⟩ => ⟨hx, hy⟩, fun ⟨hx, hy⟩ => ⟨(), hx, hy⟩⟩

/-- `canonicalize`, its `TypeError` as a thrown one. -/
def canonicalizeOrThrow (value : JsValue) : Result Text :=
  match canonicalize value with
  | .ok text => .ok text
  | .error message => .error (.typeError message)

def undefined : JsValue := .other (lit "Unsupported JSON value")

def isObject : JsValue → Bool
  | .obj _ => true
  | _ => false

def ownKeys : JsValue → List Text
  | .obj fields => keys fields
  | _ => []

def entries : JsValue → Fields
  | .obj fields => fields
  | _ => []

def hasOwn (value : JsValue) (claim : Text) : Bool := (ownKeys value).contains claim

/-- `value[claim]` -/
def get (value : JsValue) (claim : Text) : JsValue :=
  (getField (entries value) claim).getD undefined

def asString : JsValue → Option Text
  | .str text => some text
  | _ => none

def isNull : JsValue → Bool
  | .null => true
  | _ => false

def asArray : JsValue → Option (List JsValue)
  | .arr items => some items
  | _ => none

def stringIs (value : JsValue) (test : Text → Bool) : Bool := (asString value).any test

/-- `value === text` -/
def isText (value : JsValue) (text : Text) : Bool := stringIs value (· = text)

def isNonemptyText (text : Text) : Bool := trim text ≠ []

def isNonemptyString (value : JsValue) : Bool := stringIs value isNonemptyText

/-- The number of a nonnegative safe integer. -/
def natOf : JsValue → Option ℕ
  | .num .negZero => some 0
  | .num (.finite x) =>
    if isSafeInteger (.finite x) && 0 ≤ x.val then some x.val.num.toNat else none
  | _ => none

def isNonnegativeInteger (value : JsValue) : Bool := (natOf value).isSome

/-- `typeof value === "number" && Number.isFinite(value) && value >= 0` -/
def isNonnegativeNumber : JsValue → Bool
  | .num .negZero => true
  | .num (.finite x) => 0 ≤ x.val
  | _ => false

def isBoolean : JsValue → Bool
  | .bool _ => true
  | _ => false

def isTokenUnit (u : CodeUnit) : Bool :=
  unit 'A' ≤ u && u ≤ unit 'Z' || unit 'a' ≤ u && u ≤ unit 'z' || isDigit u || (lit "._:-").contains u

/-- `TOKEN_PATTERN` -/
def isToken (text : Text) : Bool := text ≠ [] && text.all isTokenUnit

/-- `BASE64URL_PATTERN` -/
def isBase64url (text : Text) : Bool := text ≠ [] && text.all Base64url.isLetter

/-- `HASH_PATTERN` -/
def isHash (text : Text) : Bool :=
  text.length = 64 && text.all fun u => unit 'a' ≤ u && u ≤ unit 'f' || isDigit u

def actionClasses : List Text :=
  [lit "search", lit "read", lit "write", lit "query", lit "delegate", lit "send", lit "summarize",
    lit "observe", lit "execute", lit "dispatch", lit "fetch", lit "invoke"]

def sideEffectClasses : List Text :=
  [lit "none", lit "internal_write", lit "external_send", lit "state_change", lit "filesystem_write",
    lit "process_launch", lit "network_read", lit "subagent_launch"]

def verdicts : List Text :=
  [lit "compliant", lit "violation", lit "insufficient_evidence", lit "unknown"]

def evidenceLevels : List Text :=
  [lit "self_signed", lit "counter_signed", lit "transparency_logged"]

def denialReasons : List Text :=
  [lit "policy_denied", lit "budget_exhausted", lit "insufficient_evidence", lit "revoked",
    lit "chain_invalid", lit "unknown", lit "observation_gap"]

def digestScopes : List Text :=
  [lit "result", lit "normalized_input", lit "measurement", lit "custom"]

def digestCanonicalizations : List Text := [lit "jcs-rfc8785", lit "none"]

def sensitivities : List Text :=
  [lit "public", lit "internal", lit "confidential", lit "restricted", lit "regulated", lit "unknown"]

def receiptRequiredClaims : List Text :=
  [lit "schema_version", lit "canonicalization", lit "receipt_kind", lit "receipt_id", lit "grant_id",
    lit "parent_receipt_hash", lit "parent_receipt_id", lit "actor", lit "verifier_id", lit "step_id",
    lit "tool", lit "action_class", lit "target", lit "resource_family", lit "side_effect_class",
    lit "verdict", lit "evidence_level", lit "reason", lit "policy_decisions", lit "arguments_hash",
    lit "trace_id", lit "run_nonce", lit "invocation_digest", lit "budget_remaining", lit "timestamp",
    lit "iss", lit "iat", lit "exp", lit "jti"]

def receiptOptionalClaims : List Text :=
  [lit "content_class", lit "content_provenance", lit "sensitivity", lit "instruction_bearing",
    lit "budget_delta", lit "result_hash", lit "public_denial_reason", lit "internal_denial_code",
    lit "evidence_proof_ref", lit "measurements"]

def sealRequiredClaims : List Text :=
  [lit "schema_version", lit "type", lit "iss", lit "sub", lit "aud", lit "iat", lit "exp", lit "jti",
    lit "passport_jti", lit "receipt_chain_head", lit "total_events", lit "permits", lit "denials"]

def sealLifetimeSeconds : ℕ := 7776000

/-- `member(table, value)` -/
def isMember (table : List Text) (value : JsValue) : Bool := stringIs value table.contains

def maxEpochSeconds : ℕ := 253402300799

/-- `epochSeconds`, given `getTime()` of the date: the milliseconds, or nothing for an invalid
date. -/
def epochSeconds (now : Option ℤ) : Result ℕ :=
  match now with
  | some ms =>
    let seconds := ms / 1000
    if 0 ≤ seconds ∧ seconds ≤ maxEpochSeconds then .ok seconds.toNat
    else .error (.format .invalidClaim (lit "iat") (lit "Invalid value"))
  | none => .error (.format .invalidClaim (lit "iat") (lit "Invalid value"))

/-- `n` with at least `width` digits. -/
def padded (width n : ℕ) : Text :=
  let digits := digitsOf n
  List.replicate (width - digits.length) (unit '0') ++ digits

/-- `new Date(seconds * 1000).toISOString().replace(".000Z", "Z")` up to the year 9999: the
Gregorian date of the day, counted in eras of 400 years that start on the first of March. -/
def isoSeconds (seconds : ℕ) : Text :=
  let time := seconds % 86400
  let day := seconds / 86400 + 719468
  let era := day / 146097
  let dayOfEra := day % 146097
  let yearOfEra := (dayOfEra - dayOfEra / 1460 + dayOfEra / 36524 - dayOfEra / 146096) / 365
  let dayOfYear := dayOfEra - (365 * yearOfEra + yearOfEra / 4 - yearOfEra / 100)
  let shifted := (5 * dayOfYear + 2) / 153
  let month := if shifted < 10 then shifted + 3 else shifted - 9
  let year := yearOfEra + era * 400 + if month ≤ 2 then 1 else 0
  padded 4 year ++ unit '-' :: padded 2 month ++ unit '-' ::
    padded 2 (dayOfYear - (153 * shifted + 2) / 5 + 1) ++ unit 'T' :: padded 2 (time / 3600) ++ unit ':' ::
    padded 2 (time / 60 % 60) ++ unit ':' :: padded 2 (time % 60) ++ [unit 'Z']

def digestKeys : List Text := [lit "alg", lit "canonicalization", lit "scope", lit "value"]

def validateDigest (value : JsValue) (claim : Text) : Result Unit := do
  requireClaim (isObject value) claim
  requireClaim ((ownKeys value).length = 4 && (ownKeys value).all digestKeys.contains) claim
  requireClaim (isText (get value (lit "alg")) (lit "sha-256") &&
    isMember digestCanonicalizations (get value (lit "canonicalization")) &&
    isMember digestScopes (get value (lit "scope")) &&
    stringIs (get value (lit "value")) isBase64url) claim

def decisionKeys : List Text :=
  [lit "backend", lit "decision", lit "reason", lit "rule_id", lit "eval_ms"]

/-- At most 256 characters, none of them a separator or in category C, a plain space apart. -/
def isRuleId (p : Platform) (ruleId : Text) : Bool :=
  (toChars ruleId).length ≤ 256 && (toChars ruleId).all fun c => c = ' ' || !p.isOtherOrSeparator c.toNat

def validateDecision (p : Platform) (decision : JsValue) (claim : Text) : Result Unit := do
  requireClaim (isObject decision && (ownKeys decision).contains (lit "backend") &&
    (ownKeys decision).contains (lit "decision") && (ownKeys decision).all decisionKeys.contains) claim
  requireClaim (isNonemptyString (get decision (lit "backend"))) (claim ++ lit ".backend")
  requireClaim (isNonemptyString (get decision (lit "decision"))) (claim ++ lit ".decision")
  checkIf (hasOwn decision (lit "reason")) <|
    requireClaim (isNull (get decision (lit "reason")) ||
      (asString (get decision (lit "reason"))).isSome) (claim ++ lit ".reason")
  checkIf (hasOwn decision (lit "rule_id")) <|
    requireClaim (stringIs (get decision (lit "rule_id")) (isRuleId p)) (claim ++ lit ".rule_id")
  checkIf (hasOwn decision (lit "eval_ms")) <|
    requireClaim (isNonnegativeNumber (get decision (lit "eval_ms"))) (claim ++ lit ".eval_ms")

def decisionClaim (index : ℕ) : Text :=
  lit "policy_decisions[" ++ (if index = 0 then lit "0" else digitsOf index) ++ lit "]"

/-- The loop over `policy_decisions.entries()`. -/
def validateDecisions (p : Platform) : ℕ → List JsValue → Result Unit
  | _, [] => .ok ()
  | index, decision :: rest => do
    validateDecision p decision (decisionClaim index)
    validateDecisions p (index + 1) rest

def validateNames (allowed : List Text) : Fields → Result Unit
  | [] => .ok ()
  | (claim, value) :: rest =>
    if !allowed.contains claim then .error (.format .unknownClaim claim (lit "Unknown claim"))
    else
      match canonicalize value with
      | .ok _ => validateNames allowed rest
      | .error _ => .error (.format .invalidClaim claim (lit "Not canonicalizable JSON"))

def validateBudget : Fields → Result Unit
  | [] => .ok ()
  | (key, remaining) :: rest => do
    requireClaim (isToken key && isNonnegativeInteger remaining) (lit "budget_remaining." ++ key)
    validateBudget rest

def requireEach (claims : List Text) (test : Text → Bool) : Result Unit :=
  claims.forM fun claim => requireClaim (test claim) claim

def requirePresent (value : JsValue) (claims : List Text) : Result Unit :=
  claims.forM fun claim =>
    throwUnless (hasOwn value claim) (.format .missingClaim claim (lit "Required claim"))

def fixedClaims : List (Text × Text) :=
  [(lit "schema_version", lit "ardur.execution_receipt.v0.2"), (lit "canonicalization", lit "jcs-rfc8785"),
    (lit "receipt_kind", lit "action")]

def nonemptyClaims : List Text :=
  [lit "receipt_id", lit "grant_id", lit "actor", lit "verifier_id", lit "trace_id", lit "run_nonce",
    lit "step_id", lit "tool", lit "target", lit "resource_family", lit "reason", lit "iss", lit "jti"]

def guards : List (Text × List Text) :=
  [(lit "action_class", actionClasses), (lit "side_effect_class", sideEffectClasses),
    (lit "verdict", verdicts), (lit "evidence_level", evidenceLevels)]

/-- `parent_receipt_id` is the first 16 digits of `parent_receipt_hash`, or both are null. -/
def parentsAgree (hash id : JsValue) : Bool :=
  if isNull hash then isNull id else (asString hash).any fun text => isText id (text.take 16)

/-- `a === b`, of two strings. -/
def sameString (a b : JsValue) : Bool := (asString a).any fun text => isText b text

/-- The loop over the policy decisions, which must be an array. -/
def validatePolicyDecisions (p : Platform) (value : JsValue) : Result Unit :=
  match asArray value with
  | none => requireClaim false (lit "policy_decisions")
  | some decisions => validateDecisions p 0 decisions

/-- A denial says why, and nothing else does. -/
def validateDenial (value : JsValue) : Result Unit :=
  if isText (get value (lit "verdict")) (lit "compliant") then
    [lit "public_denial_reason", lit "internal_denial_code"].forM fun claim =>
      requireClaim (!hasOwn value claim) claim (lit "Must be absent for compliant records")
  else do
    requireClaim (isMember denialReasons (get value (lit "public_denial_reason")))
      (lit "public_denial_reason")
    requireClaim (stringIs (get value (lit "internal_denial_code")) isToken) (lit "internal_denial_code")

def validateReceiptClaims (p : Platform) (value : JsValue) : Result Unit := do
  requireClaim (isObject value) (lit "claims")
  requirePresent value receiptRequiredClaims
  validateNames (receiptRequiredClaims ++ receiptOptionalClaims) (entries value)
  fixedClaims.forM fun fixed => requireClaim (isText (get value fixed.1) fixed.2) fixed.1
  requireEach nonemptyClaims fun claim => isNonemptyString (get value claim)
  requireClaim (stringIs (get value (lit "run_nonce")) fun nonce =>
    16 ≤ nonce.length && isBase64url nonce) (lit "run_nonce")
  requireClaim (isNull (get value (lit "parent_receipt_hash")) ||
    stringIs (get value (lit "parent_receipt_hash")) isHash) (lit "parent_receipt_hash")
  requireClaim (parentsAgree (get value (lit "parent_receipt_hash")) (get value (lit "parent_receipt_id")))
    (lit "parent_receipt_id")
  guards.forM fun guard => requireClaim (isMember guard.2 (get value guard.1)) guard.1
  validateDigest (get value (lit "invocation_digest")) (lit "invocation_digest")
  requireClaim
    (isText (get (get value (lit "invocation_digest")) (lit "canonicalization")) (lit "jcs-rfc8785") &&
      isText (get (get value (lit "invocation_digest")) (lit "scope")) (lit "normalized_input"))
    (lit "invocation_digest")
  requireClaim (stringIs (get value (lit "arguments_hash")) isHash) (lit "arguments_hash")
  checkIf (hasOwn value (lit "result_hash")) <|
    validateDigest (get value (lit "result_hash")) (lit "result_hash")
  requireClaim ((natOf (get value (lit "iat"))).any fun iat => iat ≤ maxEpochSeconds) (lit "iat")
  requireClaim ((natOf (get value (lit "exp"))).any fun exp =>
    (natOf (get value (lit "iat"))).any fun iat => exp = iat + 3600) (lit "exp")
  requireClaim ((natOf (get value (lit "iat"))).any fun iat =>
    isText (get value (lit "timestamp")) (isoSeconds iat)) (lit "timestamp")
  requireClaim (sameString (get value (lit "jti")) (get value (lit "receipt_id"))) (lit "jti")
  requireClaim (sameString (get value (lit "iss")) (get value (lit "verifier_id"))) (lit "iss")
  validatePolicyDecisions p (get value (lit "policy_decisions"))
  requireClaim (isObject (get value (lit "budget_remaining"))) (lit "budget_remaining")
  validateBudget (entries (get value (lit "budget_remaining")))
  validateDenial value
  checkIf (hasOwn value (lit "sensitivity")) <|
    requireClaim (isMember sensitivities (get value (lit "sensitivity"))) (lit "sensitivity")
  checkIf (hasOwn value (lit "instruction_bearing")) <|
    requireClaim (isBoolean (get value (lit "instruction_bearing"))) (lit "instruction_bearing")

end ArdurBot.Evidence
