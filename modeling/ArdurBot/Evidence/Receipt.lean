import ArdurBot.Evidence.Verify

/-!
# Building and resuming a chain, and sealing it

The builder of `receipt.ts` and `sealRun` of `seal.ts` in `packages/evidence/src`. What a call draws
from outside (the id of `randomUUID`, the random number of a signature, the date) is an argument.
-/

namespace ArdurBot.Evidence

open Utf16 Json

/-- What a caller passes as data: no JavaScript object has one property twice. -/
abbrev JsData := {v : JsValue // v.WellKeyed}

structure ReceiptRunIdentity where
  runId : Text
  spaceId : Text
  botId : Option Text
  actor : Option Text
  verifierId : Option Text
  grantId : Text
  traceId : Text
  runNonce : Text

/-- `ReceiptInput` without the step; `optional` are the optional claims that the input has. -/
structure ReceiptInput extends ReceiptRunIdentity where
  tool : Text
  args : JsData
  actionClass : Text
  sideEffectClass : Text
  target : Text
  resourceFamily : Text
  verdict : Text
  reason : Text
  policyDecisions : JsData
  budgetRemaining : JsData
  now : Option ℤ
  optional : List (Text × JsData)

variable (p : Platform)

section

variable (run : ReceiptRunIdentity)

def ReceiptRunIdentity.verifier : Text :=
  run.verifierId.getD (lit "ardur:" ++ run.spaceId ++ lit ":evidence")

def ReceiptRunIdentity.claims (step : ℕ) : List (Text × Text) :=
  [(lit "grant_id", run.grantId), (lit "trace_id", run.traceId), (lit "run_nonce", run.runNonce),
    (lit "actor", (run.actor.or run.botId).getD []), (lit "verifier_id", run.verifier),
    (lit "iss", run.verifier), (lit "step_id", stepId run.runId step)]

def receiptIdentity (step : ℕ) : Result (List (Text × Text)) := do
  requireClaim (isNonemptyText run.runId) (lit "runId")
  requireClaim (isNonemptyText run.spaceId) (lit "spaceId")
  return run.claims step

end

def natValue (n : ℕ) : JsValue := .num (ofNat n)

def textOrNull : Option Text → JsValue
  | some text => .str text
  | none => .null

/-- The optional claims that the input has, in the order of the table. -/
def optionalClaims (optional : List (Text × JsData)) : Fields :=
  receiptOptionalClaims.filterMap fun key =>
    (getField (optional.map fun entry => (entry.1, entry.2.val)) key).map fun value => (key, value)

/-- The claims of a receipt but for the optional ones. -/
def requiredClaims (input : ReceiptInput) (identity : List (Text × Text)) (receiptId : Text)
    (parentHash : Option Text) (argumentsHash invocationDigest : Text) (iat : ℕ) : Fields :=
  identity.map (fun claim => (claim.1, .str claim.2)) ++
  [(lit "schema_version", .str (lit "ardur.execution_receipt.v0.2")),
    (lit "canonicalization", .str (lit "jcs-rfc8785")),
    (lit "receipt_kind", .str (lit "action")),
    (lit "receipt_id", .str receiptId),
    (lit "parent_receipt_hash", textOrNull parentHash),
    (lit "parent_receipt_id", textOrNull (parentHash.map (·.take 16))),
    (lit "tool", .str input.tool),
    (lit "action_class", .str input.actionClass),
    (lit "side_effect_class", .str input.sideEffectClass),
    (lit "target", .str input.target),
    (lit "resource_family", .str input.resourceFamily),
    (lit "verdict", .str input.verdict),
    (lit "evidence_level", .str (lit "self_signed")),
    (lit "reason", .str input.reason),
    (lit "policy_decisions", input.policyDecisions.val),
    (lit "arguments_hash", .str argumentsHash),
    (lit "invocation_digest", .obj [(lit "alg", .str (lit "sha-256")),
      (lit "canonicalization", .str (lit "jcs-rfc8785")), (lit "scope", .str (lit "normalized_input")),
      (lit "value", .str invocationDigest)]),
    (lit "budget_remaining", input.budgetRemaining.val),
    (lit "timestamp", .str (isoSeconds iat)),
    (lit "iat", natValue iat),
    (lit "exp", natValue (iat + 3600)),
    (lit "jti", .str receiptId)]

/-- No optional claim is one of the others, so assigning them appends them. -/
def buildReceiptClaims (input : ReceiptInput) (step : ℕ) (receiptId : Text) (previous : Option Text) :
    Result JsValue := do
  let identity ← receiptIdentity input.toReceiptRunIdentity step
  requireClaim (step ≤ maxSafeInteger) (lit "step")
  let iat ← epochSeconds input.now
  let args ← canonicalizeOrThrow input.args
  let invocation ← canonicalizeOrThrow (.obj [(lit "tool", .str input.tool), (lit "args", input.args)])
  let claims := JsValue.obj (requiredClaims input identity receiptId (previous.map (sha256 p)) (sha256 p args)
    (Base64url.encode (p.digest (utf8 invocation))) iat ++ optionalClaims input.optional)
  validateReceiptClaims p claims
  return claims

def signReceipt (claims : JsValue) (key : p.Key) (random : ℕ) (kid : Text) : Result Text := do
  validateReceiptClaims p claims
  requireClaim (isText (get claims (lit "evidence_level")) (lit "self_signed")) (lit "evidence_level")
    (lit "Only self_signed records can be emitted")
  signCompact p claims key random kid receiptTyp

structure ChainRecord where
  jws : Text
  receiptId : Text
  sha256 : Text
  parentSha256 : Option Text
  seq : ℕ

/-- The closure of `chain`. -/
structure EvidenceChain where
  key : p.Key
  kid : Text
  previousJws : Option Text
  nextStep : ℕ

variable {p}

/-- What `append` returns or throws, and the chain after it. -/
def EvidenceChain.append (chain : EvidenceChain p) (input : ReceiptInput) (receiptId : Text) (random : ℕ) :
    Result ChainRecord × EvidenceChain p :=
  let signed : Result ChainRecord := do
    let claims ← buildReceiptClaims p input chain.nextStep receiptId chain.previousJws
    let jws ← signReceipt p claims chain.key random chain.kid
    return {
      jws
      receiptId
      sha256 := sha256 p jws
      parentSha256 := chain.previousJws.map (sha256 p)
      seq := chain.nextStep
    }
  match signed with
  | .error e => (.error e, chain)
  | .ok record =>
    (.ok record, { chain with previousJws := some record.jws, nextStep := chain.nextStep + 1 })

def createEvidenceChain (key : p.Key) (kid : Text) : EvidenceChain p :=
  { key, kid, previousJws := none, nextStep := 0 }

/-- What `resumeChain` checks of the stored tail; the claims it reads there. -/
def readTail (lastJws : Text) (key : p.Key) (kid : Text) : Result JsValue := do
  let decoded ← decodeCompact lastJws
  validateReceiptClaims p decoded.payload
  let publicKey := p.createPublicKey key
  let id ← evidenceKeyId p publicKey
  let header := decoded.header
  requireClaim (isObject header && isText (get header (lit "alg")) (lit "ES256") &&
    isText (get header (lit "typ")) receiptTyp && isText (get header (lit "kid")) kid && id = kid &&
    (ownKeys header).length = 3) (lit "header")
  let verified ← verifyCompactSignature p decoded publicKey
  requireClaim verified (lit "signature")
  let text ← canonicalizeOrThrow decoded.payload
  requireClaim (utf8 text = decoded.payloadBytes) (lit "payload")
  return decoded.payload

def resumeChain (lastJws : Text) (lastSeq : ℕ) (expectedRun : ReceiptRunIdentity) (key : p.Key) (kid : Text) :
    Result (EvidenceChain p) := do
  throwUnless (lastSeq < maxSafeInteger)
    (.format .invalidSequence (lit "lastSeq") (lit "Expected a resumable sequence"))
  let identity ← receiptIdentity expectedRun lastSeq
  let claims ← match readTail lastJws key kid with
    | .ok claims => .ok claims
    | .error _ => .error (.format .invalidJws (lit "lastJws")
      (lit "Stored tail is invalid or does not match the key"))
  identity.forM fun expected =>
    throwUnless (isText (get claims expected.1) expected.2)
      (.format .tailMismatch expected.1 (lit "Stored tail belongs to a different run or step"))
  return { key, kid, previousJws := some lastJws, nextStep := lastSeq + 1 }

variable (p)

structure SealRunInput where
  records : List Text
  actor : Text
  grantId : Text
  iss : Text
  now : Option ℤ

def sealClaims (input : SealRunInput) (jti : Text) (receipts : List JsValue) (receiptId : JsValue)
    (lastJws : Text) (iat : ℕ) : JsValue :=
  let permits := (receipts.filter isCompliant).length
  .obj [(lit "schema_version", .str (lit "ardur.behavioral_attestation.v0.2")),
    (lit "type", .str (lit "behavioral_attestation")),
    (lit "iss", .str input.iss),
    (lit "sub", .str input.actor),
    (lit "aud", .str (lit "vibap-attestation-verifier")),
    (lit "iat", natValue iat),
    (lit "exp", natValue (iat + sealLifetimeSeconds)),
    (lit "jti", .str jti),
    (lit "passport_jti", .str input.grantId),
    (lit "receipt_chain_head", .obj [(lit "hash_algorithm", .str (lit "sha-256")),
      (lit "receipt_id", receiptId), (lit "receipt_jwt_sha256", .str (sha256 p lastJws))]),
    (lit "total_events", natValue receipts.length),
    (lit "permits", natValue permits),
    (lit "denials", natValue (receipts.length - permits))]

def sealRun (input : SealRunInput) (jti : Text) (key : p.Key) (random : ℕ) (kid : Text) : Result Text := do
  throwUnless (input.records ≠ [])
    (.format .emptyChain (lit "records") (lit "Cannot seal a run with no records"))
  requireClaim (verifyChain p input.records (p.createPublicKey key)).ok (lit "records")
    (lit "Cannot seal an invalid chain")
  let receipts := payloads input.records
  requireClaim (receipts.all fun receipt => isText (get receipt (lit "actor")) input.actor &&
    isText (get receipt (lit "grant_id")) input.grantId && isText (get receipt (lit "iss")) input.iss)
    (lit "records") (lit "Run identity does not match its receipts")
  match receipts.getLast?, input.records.getLast? with
  | some last, some lastJws => do
    let iat ← epochSeconds input.now
    let claims := sealClaims p input jti receipts (get last (lit "receipt_id")) lastJws iat
    validateSealClaims claims
    signCompact p claims key random kid sealTyp
  | _, _ => .error (.format .invalidClaim (lit "records") (lit "Invalid value"))

end ArdurBot.Evidence
