import ArdurBot.Evidence.Jws

/-!
# Verifying a chain and its seal

`verifyChain` and `verifySeal` of `packages/evidence/src/verify.ts`. A verifier never throws: it
collects failures, and the chain or the seal is good if there are none.
-/

namespace ArdurBot.Evidence

open Utf16 Json

inductive VerificationCode where
  | emptyChain
  | malformedJws
  | headerInvalid
  | kidMismatch
  | signatureInvalid
  | payloadNotCanonical
  | claimsInvalid
  | chainBroken
  | runMismatch
  | sealSignatureInvalid
  | sealClaimsInvalid
  | sealMissingChainHead
  | receiptChainHeadMismatch
  | signedAfterRevocation

structure VerificationFailure where
  index : ℤ
  code : VerificationCode
  message : Text

inductive EvidenceSignerMatch where
  | expectedKey
  | differentKey
  | noExpectedKey

structure VerificationResult where
  signerMatch : Option EvidenceSignerMatch
  ok : Bool
  recordCount : ℕ
  headReceiptId : Option Text
  failures : List VerificationFailure

/-- `revokedAt` in milliseconds. -/
structure VerificationOptions where
  revokedAt : Option ℤ := none

variable (p : Platform)

def receiptTyp : Text := lit "application/ardur.er+jwt"

def sealTyp : Text := lit "JWT"

abbrev Complaint := VerificationCode × Text

def checkHeader (decoded : Decoded) (typ : Text) : Result (Option Complaint) :=
  let header := decoded.header
  if !(isObject header && isText (get header (lit "alg")) (lit "ES256") &&
      isText (get header (lit "typ")) typ && (asString (get header (lit "kid"))).isSome &&
      (ownKeys header).length = 3) then
    .ok (some (.headerInvalid, lit "Expected the ES256 protected header"))
  else do
    let text ← canonicalizeOrThrow header
    return if some (Base64url.encode (utf8 text)) ≠ (decoded.data.splitOn dot).head? then
      some (.headerInvalid, lit "Protected header is not canonical") else none

def checkSignature (decoded : Decoded) (key : p.Key) (typ : Text) : Option Complaint :=
  let code := if typ = sealTyp then VerificationCode.sealSignatureInvalid else .signatureInvalid
  match evidenceKeyId p key, verifyCompactSignature p decoded key with
  | .ok id, .ok verified =>
    if !isText (get decoded.header (lit "kid")) id then
      some (if typ = sealTyp then .sealSignatureInvalid else .kidMismatch,
        lit "Key ID does not match the supplied public key")
    else if !verified then some (code, lit "Signature verification failed")
    else none
  | _, _ => some (code, lit "Invalid verification key or signature")

def checkPayload (decoded : Decoded) : Option Complaint :=
  match canonicalize decoded.payload with
  | .error _ => some (.payloadNotCanonical, lit "Payload is not canonicalizable JSON")
  | .ok text =>
    if utf8 text ≠ decoded.payloadBytes then
      some (.payloadNotCanonical, lit "Payload bytes are not canonical JSON")
    else none

/-- `inspect`, with its failure as a result; what it throws is the canonicalizer's complaint of the
header. -/
def inspect (jws : Text) (key : p.Key) (typ : Text) : Result (Except Complaint Decoded) :=
  match decodeCompact jws with
  | .error _ => .ok (.error (.malformedJws,
      lit "Expected a compact JWS with valid JSON and unpadded base64url"))
  | .ok decoded => do
    match ← checkHeader decoded typ with
    | some complaint => return .error complaint
    | none =>
      match (checkSignature p decoded key typ).or (checkPayload decoded) with
      | some complaint => return .error complaint
      | none => return .ok decoded

/-- Anything signed in the second of the revocation could postdate it. -/
def signedAtOrAfterRevocation (iatSeconds : ℕ) (revokedAt : ℤ) : Bool :=
  iatSeconds * 1000 ≥ revokedAt - revokedAt.tmod 1000

def isRevoked (options : VerificationOptions) (claims : JsValue) : Bool :=
  options.revokedAt.any fun revokedAt =>
    (natOf (get claims (lit "iat"))).any fun iat => signedAtOrAfterRevocation iat revokedAt

/-- What the loop over the records carries from one to the next. -/
structure ChainState where
  failures : List VerificationFailure := []
  firstClaims : Option JsValue := none
  runId : Option Text := none
  headReceiptId : Option Text := none

def ChainState.fail (s : ChainState) (index : ℕ) (complaint : Complaint) : ChainState :=
  { s with failures := s.failures ++ [{ index, code := complaint.1, message := complaint.2 }] }

def ChainState.failIf (s : ChainState) (condition : Bool) (index : ℕ) (complaint : Complaint) : ChainState :=
  if condition then s.fail index complaint else s

/-- `value === text`, where no text stands for `null`. -/
def isTextOrNull (value : JsValue) : Option Text → Bool
  | some text => isText value text
  | none => isNull value

/-- `stepId.slice(0, stepId.lastIndexOf(":"))` -/
def runIdOf (stepId : Text) : Text :=
  if unit ':' ∈ stepId then ((stepId.reverse.dropWhile (· ≠ unit ':')).drop 1).reverse
  else stepId.dropLast

def natToString (n : ℕ) : Text := if n = 0 then lit "0" else digitsOf n

def stepId (runId : Text) (step : ℕ) : Text := runId ++ unit ':' :: natToString step

def identityClaims : List Text :=
  [lit "grant_id", lit "trace_id", lit "run_nonce", lit "actor", lit "verifier_id", lit "iss"]

/-- Whether the claims belong to the run of the first record, at this step of it. -/
def inRun (claims identity : JsValue) (runId : Option Text) (index : ℕ) : Bool :=
  runId.any fun runId =>
    isNonemptyText runId && isText (get claims (lit "step_id")) (stepId runId index) &&
      identityClaims.all fun claim => sameString (get claims claim) (get identity claim)

def parentMatches (payload : JsValue) (parentHash : Option Text) : Bool :=
  isTextOrNull (get payload (lit "parent_receipt_hash")) parentHash &&
    isTextOrNull (get payload (lit "parent_receipt_id")) (parentHash.map (·.take 16))

def ChainState.start (s : ChainState) (index : ℕ) (claims : JsValue) : ChainState :=
  if index = 0 then
    { s with firstClaims := some claims, runId := (asString (get claims (lit "step_id"))).map runIdOf }
  else s

/-- The body of the loop. `last` is the index of the last record. -/
def verifyRecord (key : p.Key) (options : VerificationOptions) (last index : ℕ)
    (previous : Option Text) (jws : Text) (s : ChainState) : ChainState :=
  match inspect p jws key receiptTyp with
  | .error _ => s.fail index (.headerInvalid, lit "Invalid protected header")
  | .ok (.error complaint) => s.fail index complaint
  | .ok (.ok decoded) =>
    let claims := decoded.payload
    let s := s.failIf (isObject claims && !parentMatches claims (previous.map (sha256 p))) index
      (.chainBroken, lit "Parent does not match the previous compact record")
    match validateReceiptClaims p claims with
    | .error _ => s.fail index (.claimsInvalid, lit "Receipt claims do not match the format")
    | .ok () =>
      let s := s.start index claims
      let s := s.failIf (s.firstClaims.any fun identity => !inRun claims identity s.runId index) index
        (.runMismatch, lit "Receipt identity or step does not match the first record's run")
      let s := s.failIf (isRevoked options claims) index
        (.signedAfterRevocation, lit "Record is dated after the signing key was revoked")
      if index = last then { s with headReceiptId := asString (get claims (lit "receipt_id")) } else s

def verifyRecords (key : p.Key) (options : VerificationOptions) (last : ℕ) :
    ℕ → Option Text → List Text → ChainState → ChainState
  | _, _, [], s => s
  | index, previous, jws :: rest, s =>
    verifyRecords key options last (index + 1) (some jws) rest
      (verifyRecord p key options last index previous jws s)

def failed (recordCount : ℕ) (code : VerificationCode) (message : Text) : VerificationResult :=
  { signerMatch := none, ok := false, recordCount, headReceiptId := none,
    failures := [{ index := -1, code, message }] }

def verifyChainContents (jwsList : List Text) (publicKey : p.Key) (options : VerificationOptions) :
    VerificationResult :=
  if jwsList = [] then failed 0 .emptyChain (lit "Expected at least one record")
  else
    match evidenceKeyId p publicKey with
    | .error _ => failed jwsList.length .signatureInvalid (lit "Expected an EC P-256 public key")
    | .ok _ =>
      let s := verifyRecords p publicKey options (jwsList.length - 1) 0 none jwsList {}
      { signerMatch := none, ok := s.failures = [], recordCount := jwsList.length,
        headReceiptId := s.headReceiptId, failures := s.failures }

def withSignerMatch (result : VerificationResult) (publicKey : p.Key) (expectedFingerprint : Option Text) :
    VerificationResult :=
  if !result.ok then result
  else
    let expected := (expectedFingerprint.map trim).filter (· ≠ [])
    { result with
      signerMatch := match expected, evidenceKeyId p publicKey with
        | none, _ => some .noExpectedKey
        | some fingerprint, .ok id => if id = fingerprint then some .expectedKey else some .differentKey
        | some _, .error _ => some .differentKey }

def verifyChain (jwsList : List Text) (publicKey : p.Key) (expectedFingerprint : Option Text := none)
    (options : VerificationOptions := {}) : VerificationResult :=
  withSignerMatch p (verifyChainContents p jwsList publicKey options) publicKey expectedFingerprint

def chainHeadOk (head : JsValue) : Bool :=
  isObject head && (ownKeys head).length = 3 && isText (get head (lit "hash_algorithm")) (lit "sha-256") &&
    isNonemptyString (get head (lit "receipt_id")) &&
    stringIs (get head (lit "receipt_jwt_sha256")) isHash

def validateSealClaims (value : JsValue) : Result Unit := do
  requireClaim (isObject value) (lit "seal")
  requireClaim ((ownKeys value).length = sealRequiredClaims.length && sealRequiredClaims.all (hasOwn value))
    (lit "seal")
  requireClaim (isText (get value (lit "schema_version")) (lit "ardur.behavioral_attestation.v0.2"))
    (lit "schema_version")
  requireClaim (isText (get value (lit "type")) (lit "behavioral_attestation")) (lit "type")
  requireClaim (isText (get value (lit "aud")) (lit "vibap-attestation-verifier")) (lit "aud")
  requireEach [lit "iss", lit "sub", lit "jti", lit "passport_jti"] fun claim =>
    isNonemptyString (get value claim)
  requireClaim (isNonnegativeInteger (get value (lit "iat"))) (lit "iat")
  requireClaim ((natOf (get value (lit "exp"))).any fun exp =>
    (natOf (get value (lit "iat"))).any fun iat => exp = iat + sealLifetimeSeconds) (lit "exp")
  requireEach [lit "total_events", lit "permits", lit "denials"] fun claim =>
    isNonnegativeInteger (get value claim)
  requireClaim ((natOf (get value (lit "permits"))).any fun permits =>
    (natOf (get value (lit "denials"))).any fun denials =>
      natOf (get value (lit "total_events")) = some (permits + denials)) (lit "total_events")
  requireClaim (chainHeadOk (get value (lit "receipt_chain_head"))) (lit "receipt_chain_head")
  let _ ← canonicalizeOrThrow value
  return ()

def isCompliant (receipt : JsValue) : Bool := isText (get receipt (lit "verdict")) (lit "compliant")

/-- `decodeCompact(jws).payload` of records that have passed. -/
def payloads (jwsList : List Text) : List JsValue :=
  jwsList.filterMap fun jws => (decodeCompact jws).toOption.map Decoded.payload

/-- The counts and the identity of a seal against its records. -/
def sealMatches (claims : JsValue) (receipts : List JsValue) : Bool :=
  let permits := (receipts.filter isCompliant).length
  natOf (get claims (lit "total_events")) = some receipts.length &&
    natOf (get claims (lit "permits")) = some permits &&
    natOf (get claims (lit "denials")) = some (receipts.length - permits) &&
    receipts.all fun receipt =>
      sameString (get receipt (lit "actor")) (get claims (lit "sub")) &&
        sameString (get receipt (lit "grant_id")) (get claims (lit "passport_jti")) &&
        sameString (get receipt (lit "iss")) (get claims (lit "iss"))

def namesHead (claims : JsValue) (lastJws : Text) (headReceiptId : Option Text) : Bool :=
  let head := get claims (lit "receipt_chain_head")
  isText (get head (lit "receipt_jwt_sha256")) (sha256 p lastJws) &&
    isTextOrNull (get head (lit "receipt_id")) headReceiptId

def VerificationResult.fail (r : VerificationResult) (complaint : Complaint) : VerificationResult :=
  { r with
    ok := false
    failures := r.failures ++ [{ index := r.recordCount, code := complaint.1, message := complaint.2 }] }

section

variable (sealJwt : Text) (jwsList : List Text) (publicKey : p.Key)

def verifySealContents
    (options : VerificationOptions) : VerificationResult :=
  let result := verifyChainContents p jwsList publicKey options
  match evidenceKeyId p publicKey, inspect p sealJwt publicKey sealTyp with
  | .error _, _ => result.fail (.sealSignatureInvalid, lit "Invalid seal or verification key")
  | _, .error _ => result.fail (.sealSignatureInvalid, lit "Invalid seal or verification key")
  | _, .ok (.error complaint) => result.fail complaint
  | _, .ok (.ok decoded) =>
    let claims := decoded.payload
    if !(isObject claims && hasOwn claims (lit "receipt_chain_head") &&
        !isNull (get claims (lit "receipt_chain_head"))) then
      result.fail (.sealMissingChainHead, lit "Seal has no receipt chain head")
    else
      match validateSealClaims claims with
      | .error _ => result.fail (.sealClaimsInvalid, lit "Seal claims do not match the format")
      | .ok () =>
        let result := if isRevoked options claims then
          result.fail (.signedAfterRevocation, lit "Seal is dated after the signing key was revoked")
          else result
        match jwsList.getLast? with
        | none => result.fail (.receiptChainHeadMismatch, lit "A seal requires at least one record")
        | some lastJws =>
          let result := if !namesHead p claims lastJws result.headReceiptId then
            result.fail (.receiptChainHeadMismatch, lit "Seal does not name the supplied chain tail")
            else result
          if result.failures ≠ [] then result
          else if !sealMatches claims (payloads jwsList) then
            result.fail (.sealClaimsInvalid, lit "Seal identity or counts do not match the records")
          else { result with ok := true }

def verifySeal
    (expectedFingerprint : Option Text := none) (options : VerificationOptions := {}) :
    VerificationResult :=
  withSignerMatch p (verifySealContents p sealJwt jwsList publicKey options) publicKey expectedFingerprint

end

end ArdurBot.Evidence
