import ArdurBot.Lib.Run
import ArdurBot.Lib.Utf16

/-!
# Pairing devices

`startDevicePairing`, `completeDevicePairing`, `requestShortCodePairing` and
`confirmShortCodePairing` of `packages/db/src/device-grants.ts`, as transactions on the tables they
share. A transaction that is done under the lock of one row, or by one conditional update, is one
step. The exchange of a short code is two: under the lock of the throttle it finds the challenge,
and then it claims it, and in between the same challenge may be claimed by its QR code. What is
recorded beside the tables is what the steps did, the newest first.

Digests, upper case and signatures are those of the runtime.
-/

namespace ArdurBot.Devices

open Utf16

structure PairDeviceInput where
  platform : Option Text
  challenge : Text
  instanceId : Text
  deviceName : Text
  devicePublicKey : Text
  presencePublicKey : Text
  signature : Text

structure Owner where
  userId : Text
  spaceId : Text
  instanceId : Text
  scopes : List Text

structure PairingChallenge where
  hash : Text
  shortCodeHash : Text
  owner : Owner
  expiresAt : ℕ
  usedAt : Option ℕ

structure PairingThrottle where
  attempts : ℕ
  lockedUntil : Option ℕ

structure GrantData where
  owner : Owner
  deviceName : Text
  platform : Option Text
  devicePublicKey : Text
  presencePublicKey : Text

structure PendingDevicePairing where
  id : Text
  challengeHash : Text
  data : GrantData
  expiresAt : ℕ
  grantId : Option Text
  deniedAt : Option ℕ

structure DeviceGrant where
  id : Text
  data : GrantData
  trustedAt : Option ℕ

/-- A short code that was found good, under the lock of its throttle. -/
structure Exchange where
  input : PairDeviceInput
  challenge : PairingChallenge
  now : ℕ

inductive Event where
  | created (hash : Text) (expiresAt : ℕ)
  | granted (hash grantId : Text) (now : ℕ)
  | denied (hash : Text) (now : ℕ)
  /-- A QR code was exchanged. -/
  | scanned (instanceId : Text) (now : ℕ)
  /-- A short code was exchanged. -/
  | exchanged (instanceId : Text) (now : ℕ)
  /-- A short code failed. -/
  | failed (instanceId : Text) (now : ℕ)
  /-- A short code was good when it was found, and its challenge was used before it was claimed. -/
  | lost (instanceId : Text) (now : ℕ)

structure State where
  challenges : List PairingChallenge
  throttle : Text → PairingThrottle
  exchanging : Text → Option Exchange
  pendings : List PendingDevicePairing
  grants : List DeviceGrant
  log : List Event

def State.init : State := ⟨[], fun _ => ⟨0, none⟩, fun _ => none, [], [], []⟩

structure Runtime where
  deviceDigest : Text → Text
  toUpperCase : Text → Text
  pairingSignedText : Text → Text → Text → Text → Text
  verifyDeviceSignature : Text → Text → Text → Bool

def pairingTtlMs : ℕ := 5 * 60000

def lockMs : ℕ := 15 * 60000

def maxAttempts : ℕ := 5

variable (runtime : Runtime)

def validPairSignature (input : PairDeviceInput) : Bool :=
  input.devicePublicKey ≠ input.presencePublicKey &&
    runtime.verifyDeviceSignature input.devicePublicKey
      (runtime.pairingSignedText input.challenge input.instanceId input.devicePublicKey input.presencePublicKey)
      input.signature

def grantData (challenge : PairingChallenge) (input : PairDeviceInput) : GrantData :=
  { input with owner := challenge.owner }

/-- `usedAt: null, expiresAt: { gt: now }` -/
def PairingChallenge.isOpen (challenge : PairingChallenge) (now : ℕ) : Bool :=
  challenge.usedAt = none && now < challenge.expiresAt

section

variable (s : State)

def State.claim (hash : Text) (now : ℕ) : State :=
  { s with challenges := s.challenges.map fun challenge =>
      if challenge.hash = hash then { challenge with usedAt := some now } else challenge }

def State.record (event : Event) : State := { s with log := event :: s.log }

def State.addGrant (hash : Text) (grant : DeviceGrant) (now : ℕ) : State :=
  { s with grants := grant :: s.grants, log := .granted hash grant.id now :: s.log }

def State.start (owner : Owner) (challenge shortCode : Text) (now : ℕ) : State :=
  let hash := runtime.deviceDigest challenge
  let shortCodeHash := runtime.deviceDigest shortCode
  if s.challenges.any fun other => other.hash = hash || other.shortCodeHash = shortCodeHash then s
  else
    { s with
      challenges := ⟨hash, shortCodeHash, owner, now + pairingTtlMs, none⟩ :: s.challenges
      log := .created hash (now + pairingTtlMs) :: s.log }

/-- The space says whether it requires trusted devices; without it the transaction is rolled
back. -/
def State.complete (instanceId : Text) (input : PairDeviceInput) (requireTrusted : Option Bool)
    (grantId : Text) (now : ℕ) : State :=
  if input.instanceId = instanceId && validPairSignature runtime input then
    match s.challenges.find? fun challenge =>
        challenge.hash = runtime.deviceDigest input.challenge && challenge.owner.instanceId = instanceId &&
          challenge.isOpen now with
    | none => s
    | some challenge =>
      match requireTrusted with
      | none => s
      | some trusted =>
        ((s.claim challenge.hash now).record (.scanned instanceId now)).addGrant challenge.hash
          ⟨grantId, grantData challenge input, if trusted then none else some now⟩ now
  else s

def State.fail (instanceId : Text) (now : ℕ) : State :=
  let throttle := s.throttle instanceId
  let attempts := (if throttle.lockedUntil.isSome then 0 else throttle.attempts) + 1
  { s with
    throttle := Function.update s.throttle instanceId
      ⟨attempts, if maxAttempts ≤ attempts then some (now + lockMs) else none⟩
    log := .failed instanceId now :: s.log }

end

def isLocked (throttle : PairingThrottle) (now : ℕ) : Bool :=
  throttle.lockedUntil.any fun lockedUntil => now < lockedUntil

/-- `requestShortCodePairing`, until the challenge is found: the throttle's row stays locked
then. -/
def State.request (s : State) (instanceId : Text) (input : PairDeviceInput) (now : ℕ) : State :=
  if (s.exchanging instanceId).isSome || isLocked (s.throttle instanceId) now then s
  else
    match s.challenges.find? fun challenge =>
        challenge.shortCodeHash = runtime.deviceDigest (runtime.toUpperCase input.challenge) &&
          challenge.owner.instanceId = instanceId && challenge.isOpen now with
    | none => s.fail instanceId now
    | some challenge =>
      if input.instanceId = instanceId && validPairSignature runtime input then
        { s with exchanging := Function.update s.exchanging instanceId (some ⟨input, challenge, now⟩) }
      else s.fail instanceId now

/-- The rest of `requestShortCodePairing`. -/
def State.settle (s : State) (instanceId pendingId : Text) : State :=
  match s.exchanging instanceId with
  | none => s
  | some exchange =>
    let released := { s with exchanging := Function.update s.exchanging instanceId none }
    if s.challenges.any fun challenge => challenge.hash = exchange.challenge.hash &&
      challenge.isOpen exchange.now then
      { released.claim exchange.challenge.hash exchange.now with
        throttle := Function.update s.throttle instanceId ⟨0, none⟩
        pendings := ⟨pendingId, exchange.challenge.hash, grantData exchange.challenge exchange.input,
          exchange.challenge.expiresAt, none, none⟩ :: s.pendings
        log := .exchanged instanceId exchange.now :: s.log }
    else released.record (.lost instanceId exchange.now)

def State.updatePending (s : State) (id : Text)
    (update : PendingDevicePairing → PendingDevicePairing) : State :=
  { s with pendings := s.pendings.map fun pending => if pending.id = id then update pending else pending }

/-- `confirmShortCodePairing` -/
def State.confirm (s : State) (userId spaceId id : Text) (allow : Bool) (grantId : Text) (now : ℕ) : State :=
  match s.pendings.find? fun pending =>
      pending.id = id && pending.data.owner.spaceId = spaceId && pending.data.owner.userId = userId &&
        pending.grantId = none && pending.deniedAt = none && now < pending.expiresAt with
  | none => s
  | some pending =>
    if allow then
      (s.updatePending id fun other => { other with grantId := some grantId }).addGrant pending.challengeHash
        ⟨grantId, pending.data, some now⟩ now
    else
      (s.updatePending id fun other => { other with deniedAt := some now }).record (.denied pending.challengeHash now)

inductive Op where
  | start (owner : Owner) (challenge shortCode : Text) (now : ℕ)
  | complete (instanceId : Text) (input : PairDeviceInput) (requireTrusted : Option Bool)
    (grantId : Text) (now : ℕ)
  | request (instanceId : Text) (input : PairDeviceInput) (now : ℕ)
  | settle (instanceId pendingId : Text)
  | confirm (userId spaceId id : Text) (allow : Bool) (grantId : Text) (now : ℕ)

def State.isFresh (s : State) : Op → Bool
  | .complete _ _ _ grantId _ => s.grants.all fun grant => grant.id ≠ grantId
  | .settle _ pendingId => s.pendings.all fun pending => pending.id ≠ pendingId
  | .confirm _ _ _ _ grantId _ => s.grants.all fun grant => grant.id ≠ grantId
  | _ => true

def step (s : State) (op : Op) : State :=
  if s.isFresh op then
    match op with
    | .start owner challenge shortCode now => s.start runtime owner challenge shortCode now
    | .complete instanceId input requireTrusted grantId now =>
      s.complete runtime instanceId input requireTrusted grantId now
    | .request instanceId input now => s.request runtime instanceId input now
    | .settle instanceId pendingId => s.settle instanceId pendingId
    | .confirm userId spaceId id allow grantId now => s.confirm userId spaceId id allow grantId now
  else s

def after (ops : List Op) : State := Run.after (step runtime) State.init ops

end ArdurBot.Devices
