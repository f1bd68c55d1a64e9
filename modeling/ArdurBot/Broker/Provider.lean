import ArdurBot.Lib.Calls
import Mathlib.Data.UInt

/-!
# The provider broker of a lease

`HermesProviderBroker` of `packages/adapters/src/hermes-provider-broker.ts`. A request acts between
two of its awaits at a time, on the answer of what it waits for. Requests are cancelled, the broker
is revoked and its grant expires at any time. The writes of a request to the usage records settle in
order, each stored or failed.

What the provider sends is given as chunks with the payloads that are read from them.
-/

namespace ArdurBot.ProviderBroker

/-- `MAX_RESPONSE_BYTES` -/
def maxResponseBytes : ℕ := 4 * 1024 * 1024

abbrev Bytes := List UInt8

inductive Outcome where
  | success
  | failed
  | cancelled
  | timedOut
deriving DecidableEq

inductive UsageKind where
  | started
  | snapshot
  | finished (outcome : Outcome)
deriving DecidableEq

structure Usage where
  request : ℕ
  kind : UsageKind
deriving DecidableEq

def Usage.isTerminal (usage : Usage) : Bool :=
  match usage.kind with
  | .finished _ => true
  | _ => false

/-- `usage` are the records that are stored. The fields after it are not kept anywhere: the writes
that failed, the requests the provider was called for, the successes that were recorded, with
whether the request was live then, and what `open` returned. -/
structure Broker where
  translated : Bool
  requiresModel : Bool
  admits : Bool
  expiresAt : ℕ
  now : ℕ
  revoked : Bool
  busy : Bool
  controller : Option ℕ
  aborted : List ℕ
  deliveredBytes : ℕ
  usage : List Usage
  failedWrites : List Usage
  called : List ℕ
  recorded : List (ℕ × Bool)
  delivered : List (ℕ × Bytes)

structure Head where
  ok : Bool
  json : Bool
  events : Bool
deriving DecidableEq

/-- A JSON object in a response: whether it counts usage or reports an error, and whether a model
that it names is the connection's. -/
structure Payload where
  usage : Bool
  error : Bool
  model : Option Bool
deriving DecidableEq

/-- What is done when the payloads of a chunk, or those at the end, are read. -/
inductive AfterPayloads where
  | chunk (bytes : Bytes)
  | close
deriving DecidableEq

/-- What follows the terminal record: an error is thrown, or was caught, or the response is
returned. -/
inductive AfterFinish where
  | thrown
  | caught
  | deliver (bytes : Bytes)
deriving DecidableEq

/-- What a request waits for, with what it has read of the response: `got`, and whether the model
was `observed`. -/
inductive Phase where
  | opening
  | checking
  | admitting
  | starting
  | preparing
  | calling
  | responded (head : Head)
  | reading (events : Bool) (got : Bytes) (observed : Bool)
  | read (events : Bool) (got : Bytes) (observed : Bool) (chunk : Option Bytes)
    (payloads : List Payload) (valid : Bool)
  | noting (got : Bytes) (observed : Bool) (payload : Payload) (rest : List Payload) (next : AfterPayloads)
  | noted (got : Bytes) (observed : Bool) (payload : Payload) (rest : List Payload) (next : AfterPayloads)
  | captured (got : Bytes) (observed : Bool) (bytes : Bytes)
  | streaming
  | streamed (bytes : Bytes)
  | observing (bytes : Bytes)
  | finishing (outcome : Outcome) (after : AfterFinish)
  | closing (outcome : Outcome) (after : AfterFinish)
  | done (response : Option Bytes)
deriving DecidableEq

/-- A request: whether its grant, scope and path are those of the broker, whether its body is
admitted and its tokens can be reserved, whether it asks for a stream; and where it is. The `queue`
are the writes that have not settled. -/
structure Request where
  granted : Bool
  admitted : Bool
  reservable : Bool
  stream : Bool
  phase : Phase
  queue : List Usage
  accountingFailed : Bool
  finished : Bool
deriving DecidableEq

/-- What a request is answered. An `active` that rejects, or any other promise, is `rejected`. -/
inductive Answer where
  | go
  | active (ok : Bool)
  | admitted (ok : Bool)
  | response (head : Head)
  | next (chunk : Option Bytes) (payloads : List Payload) (valid : Bool)
  | usage
  | translated (bytes : Bytes)
  | rejected
  | write (stored : Bool)

abbrev Acted := Broker × Request

namespace Broker

def live (b : Broker) (index : ℕ) : Bool :=
  !b.revoked && decide (index ∉ b.aborted) && b.now < b.expiresAt

def abort (b : Broker) (index : ℕ) : Broker := { b with aborted := index :: b.aborted }

/-- The `finally` of `open`. -/
def free (b : Broker) : Broker := { b with controller := none, busy := false }

end Broker

def Request.to (r : Request) (phase : Phase) : Request := { r with phase }

section

variable (b : Broker)

/-- `open` throws, before anything was recorded or after all was. -/
def close (r : Request) : Acted := (b.free, r.to (.done none))

/-- `open` returns the response. -/
def deliver (index : ℕ) (r : Request) (bytes : Bytes) : Acted :=
  ({ b.free with
      deliveredBytes := b.deliveredBytes + bytes.length
      delivered := b.delivered ++ [(index, bytes)] }, r.to (.done (some bytes)))

/-- `finish`, up to its first await. -/
def finish (r : Request) (outcome : Outcome) (after : AfterFinish) : Acted :=
  (b, { r with finished := true, phase := .finishing outcome after })

section

variable (index : ℕ) (r : Request)

/-- The `catch` of a request that was started. -/
def fail : Acted :=
  if r.finished then close (b.abort index) r
  else
    finish (b.abort index) r
      (if index ∈ b.aborted then if b.expiresAt ≤ b.now then .timedOut else .cancelled else .failed) .caught

/-- The start of `active`: it throws, or the request waits. -/
def awaitActive (phase : Phase) : Acted :=
  if b.live index then (b, r.to phase) else fail b index r

/-- The end of `active`, in a request that was started. -/
def afterActive (ok : Bool) (next : Acted) : Acted :=
  if !ok then fail (b.abort index) index r else if !b.live index then fail b index r else next

def startAccounting : Acted :=
  (b, { r with queue := [{ request := index, kind := .started }], phase := .starting })

/-- `checkGrant`, and `open` up to its first await. -/
def openRequest : Acted :=
  if b.revoked || b.expiresAt ≤ b.now || b.busy || !r.granted then (b, r.to (.done none))
  else
    let b := { b with busy := true, controller := some index }
    if !r.admitted || !b.live index then close b r else (b, r.to .checking)

def checked (ok : Bool) : Acted :=
  if !ok then close (b.abort index) r
  else if !b.live index || !r.reservable then close b r
  else if b.admits then (b, r.to .admitting)
  else startAccounting b index r

/-- The checks when all of a response is there. -/
def closeBody (got : Bytes) : Acted :=
  if maxResponseBytes < b.deliveredBytes + got.length then finish b r .failed .thrown
  else if !b.live index then finish b r (if b.expiresAt ≤ b.now then .timedOut else .cancelled) .thrown
  else (b, r.to (.observing got))

def closeRead (got : Bytes) (observed : Bool) : Acted :=
  if b.requiresModel && !observed then finish b r .failed .thrown else closeBody b index r got

def appendChunk (events : Bool) (got : Bytes) (observed : Bool) (bytes : Bytes) : Acted :=
  if maxResponseBytes < got.length + bytes.length then fail b index r
  else (b, r.to (.reading events (got ++ bytes) observed))

/-- The loop over the payloads, up to its next await. -/
def capture (got : Bytes) (observed : Bool) (payloads : List Payload) (next : AfterPayloads) : Acted :=
  match payloads with
  | payload :: rest =>
    if payload.usage then
      (b, { r with
        queue := r.queue ++ [{ request := index, kind := .snapshot }]
        phase := .noting got observed payload rest next })
    else awaitActive b index r (.noted got observed payload rest next)
  | [] =>
    match next with
    | .chunk bytes => awaitActive b index r (.captured got observed bytes)
    | .close => closeRead b index r got observed

def capturePayload (got : Bytes) (observed : Bool) (payload : Payload)
    (rest : List Payload) (next : AfterPayloads) : Acted :=
  if payload.error then fail b index r
  else if payload.model = some false then finish b r .failed .thrown
  else capture b index r got (observed || payload.model = some true) rest next

def checkHead (head : Head) : Acted :=
  if !head.ok then fail b index r
  else if !head.json && !head.events || r.stream != head.events then finish (b.abort index) r .failed .thrown
  else (b, r.to (.reading head.events [] false))

def checkRead (events : Bool) (got : Bytes) (observed : Bool)
    (chunk : Option Bytes) (payloads : List Payload) (valid : Bool) : Acted :=
  match chunk with
  | some bytes =>
    if events then capture b index r got observed payloads (.chunk bytes)
    else appendChunk b index r events got observed bytes
  | none =>
    if !events && !valid then finish b r .failed .thrown else capture b index r got observed payloads .close

/-- The translated route checks the size of the whole response. -/
def checkStreamed (bytes : Bytes) : Acted :=
  if maxResponseBytes < bytes.length then finish b r .failed .thrown else closeBody b index r bytes

/-- `finish` when the writes before it have settled. -/
def writeTerminal (outcome : Outcome) (after : AfterFinish) : Acted :=
  if r.accountingFailed then fail b index r
  else (b, { r with queue := [{ request := index, kind := .finished outcome }], phase := .closing outcome after })

def afterTerminal (after : AfterFinish) : Acted :=
  if r.accountingFailed then fail b index r
  else
    match after with
    | .thrown => fail b index r
    | .caught => close b r
    | .deliver bytes => deliver b index r bytes

def settle (stored : Bool) : Acted :=
  match r.queue with
  | [] => (b, r)
  | usage :: queue =>
    if stored then
      ({ b with
          usage := b.usage ++ [usage]
          recorded := if usage.kind = .finished .success then b.recorded ++ [(index, b.live index)] else b.recorded },
        { r with queue })
    else ({ b with failedWrites := b.failedWrites ++ [usage] }, { r with queue, accountingFailed := true })

def act (answer : Answer) : Acted :=
  match r.phase, answer with
  | _, .write stored => settle b index r stored
  | .opening, .go => openRequest b index r
  | .checking, .active ok => checked b index r ok
  | .checking, .rejected => close b r
  | .admitting, .admitted ok => if ok then startAccounting b index r else close b r
  | .admitting, .rejected => close b r
  | .starting, .go =>
    if r.queue ≠ [] then (b, r)
    else if r.accountingFailed then close b r
    else awaitActive b index r .preparing
  | .preparing, .active ok =>
    afterActive b index r ok
      ({ b with called := b.called ++ [index] }, r.to (if b.translated then .streaming else .calling))
  | .calling, .response head => awaitActive b index r (.responded head)
  | .responded head, .active ok => afterActive b index r ok (checkHead b index r head)
  | .reading events got observed, .next chunk payloads valid =>
    awaitActive b index r (.read events got observed chunk payloads valid)
  | .read events got observed chunk payloads valid, .active ok =>
    afterActive b index r ok (checkRead b index r events got observed chunk payloads valid)
  | .noting got observed payload rest next, .go =>
    if r.queue ≠ [] then (b, r)
    else if r.accountingFailed then fail b index r
    else awaitActive b index r (.noted got observed payload rest next)
  | .noted got observed payload rest next, .active ok =>
    afterActive b index r ok (capturePayload b index r got observed payload rest next)
  | .captured got observed bytes,
    .active ok => afterActive b index r ok (appendChunk b index r true got observed bytes)
  | .streaming, .usage => (b, { r with queue := r.queue ++ [{ request := index, kind := .snapshot }] })
  | .streaming, .translated bytes => awaitActive b index r (.streamed bytes)
  | .streamed bytes, .active ok => afterActive b index r ok (checkStreamed b index r bytes)
  | .observing bytes, .go => finish b r .success (.deliver bytes)
  | .finishing outcome after, .go => if r.queue ≠ [] then (b, r) else writeTerminal b index r outcome after
  | .closing _ after, .go => if r.queue ≠ [] then (b, r) else afterTerminal b index r after
  | .preparing, .rejected => fail b index r
  | .calling, .rejected => fail b index r
  | .responded _, .rejected => fail b index r
  | .reading .., .rejected => fail b index r
  | .read .., .rejected => fail b index r
  | .noted .., .rejected => fail b index r
  | .captured .., .rejected => fail b index r
  | .streaming, .rejected => fail b index r
  | .streamed _, .rejected => fail b index r
  | .observing _, .rejected => fail b index r
  | _, _ => (b, r)

end

end

inductive Event where
  | tick (ms : ℕ)
  | cancel (index : ℕ)
  | revoke

/-- Time passes, a request's signal or its timer aborts it, or the broker is revoked. -/
def environment (b : Broker) : Event → Broker
  | .tick ms => { b with now := b.now + ms }
  | .cancel index => b.abort index
  | .revoke =>
    { b with
      revoked := true
      aborted := match b.controller with
        | none => b.aborted
        | some index => index :: b.aborted }

def program : Calls.Program Broker Request Answer Event where
  act
  environment

def newRequest (granted admitted reservable stream : Bool) : Request where
  granted
  admitted
  reservable
  stream
  phase := .opening
  queue := []
  accountingFailed := false
  finished := false

/-- A request as it is given to `open`. -/
def Request.isNew (r : Request) : Prop := r = newRequest r.granted r.admitted r.reservable r.stream

instance (r : Request) : Decidable r.isNew := inferInstanceAs (Decidable (r = _))

def newBroker (translated requiresModel admits : Bool) (expiresAt now : ℕ) : Broker where
  translated
  requiresModel
  admits
  expiresAt
  now
  revoked := false
  busy := false
  controller := none
  aborted := []
  deliveredBytes := 0
  usage := []
  failedWrites := []
  called := []
  recorded := []
  delivered := []

end ArdurBot.ProviderBroker
