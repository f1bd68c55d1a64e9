import Mathlib.Data.Int.Notation
import Mathlib.Data.List.Basic

/-!
# Host hub

`apps/api/src/host-hub.ts`, with the limits of `packages/contracts/src/host-bridge.ts`. What awaits
an answer is kept in the state until the answer comes: an authorization, the sending of a request to
the host, the authorization of a frame of the host, and the sending of the host's end frame to the
worker. The frames of one host connection are handled one after another. A timer calls `cancel`, and
time does not pass it before it has.

The data of frames is left out but for the lengths of their encodings, and a value for what the
schemas say of it.
-/

namespace ArdurBot.HostHub

inductive RemoteAction where
  | capacity
  | test
  | kubeCapacity
  | kubeNamespaces
  | kubeVersion
  | other
deriving DecidableEq

/-- What is asked of the host, as far as the hub looks at it. -/
inductive Operation where
  | boardRun
  /-- The generation is that of the provider broker, if there is one. -/
  | runtimeTurn (isHermes : Bool) (hostGeneration : Option ℕ)
  | remoteDiscover
  | remoteCall (action : RemoteAction)
  | other
deriving DecidableEq

structure Request where
  id : ℕ
  runId : ℕ
  operation : Operation
deriving DecidableEq

def Request.isFleetProbe (request : Request) : Bool :=
  match request.operation with
  | .remoteDiscover => true
  | .remoteCall action => action ≠ .other
  | _ => false

def Request.isHermes (request : Request) : Bool :=
  match request.operation with
  | .runtimeTurn isHermes _ => isHermes
  | _ => false

inductive CallbackMethod where
  | authorizeTool
  | executeTool
  | onToolCompleted
  | onRuntimeInfo
  | acknowledgeInput
  | claimSteering
  | saveCheckpoint
  | providerOpen
  | providerRead
  | providerCancel
deriving DecidableEq

def CallbackMethod.isProvider : CallbackMethod → Bool
  | .providerOpen | .providerRead | .providerCancel => true
  | _ => false

/-- What the schemas of the provider say of a value. -/
structure ReplyValue where
  isOpen : Bool
  isRead : Bool
  isUndefined : Bool
deriving DecidableEq

inductive Frame where
  | request (request : Request)
  | cancel (id : ℕ)
  | ack (id seq : ℕ)
  | stream (id seq bytes : ℕ)
  | ended (id bytes : ℕ)
  | callback (id callId : ℕ) (method : CallbackMethod) (bytes : ℕ)
  | reply (id callId : ℕ) (value : ReplyValue) (isFailed : Bool) (bytes : ℕ)
  | health (isProviderRelay : Bool)
deriving DecidableEq

def Frame.id : Frame → Option ℕ
  | .request asked => some asked.id
  | .cancel id | .ack id _ | .stream id _ _ | .ended id _ | .callback id _ _ _ | .reply id _ _ _ _ => some id
  | .health _ => none

def hostTotalBytes : ℕ := 8 * 1024 * 1024

def hostInFlight : ℕ := 4

def hostWindow : ℕ := 8

structure Host where
  wire : ℕ
  ownerId : ℕ
  registrationGeneration : ℕ
  connectionGeneration : ℕ
deriving DecidableEq

/-- One call of `request`. -/
structure Call where
  number : ℕ
  request : Request
  worker : ℕ
deriving DecidableEq

structure Pending where
  call : Call
  seq : ℤ
  ack : ℤ
  bytes : ℕ
  workerBytes : ℕ
  providerBytes : ℕ
  otherWorkerBytes : ℕ
  calls : List (ℕ × CallbackMethod)
  deadline : ℕ
  /-- The end frame of the host has been handed to the worker. -/
  isHanded : Bool

structure QueuedProbe where
  call : Call
  deadline : ℕ

inductive Sent where
  /-- An end frame of the hub. -/
  | stopped (reason : String)
  /-- The end frame of the host. -/
  | ended
  | stream (seq : ℕ)
  | callback (callId : ℕ)

def Sent.isEnd : Sent → Bool
  | .stopped _ | .ended => true
  | _ => false

inductive Event where
  | attached (host : Host)
  | detached
  | requested (call : Call)
  | queued (call : Call) (time : ℕ)
  | admitted (call : Call) (host : Host)
  | authorized (call : Call) (host : Host)
  | forwarded (call : Call) (host : Host)
  | toWorker (worker id : ℕ) (call : Call) (frame : Sent)
  | acked (call : Call) (seq : ℕ)
  | cancelled (call : Call)
  | lost (runId : ℕ)
  /-- A handler threw. -/
  | failed (message : String)

/-- A frame of the host that is being authorized. -/
structure Checking where
  wire : ℕ
  frame : Frame
  call : Call

structure State where
  host : Option Host
  pending : List Pending
  probes : List QueuedProbe
  seen : List ℕ
  lostRuns : List ℕ
  completed : List (ℕ × List ℕ)
  /-- Whether the host that sent its health relays for providers. -/
  health : Option Bool
  authorizing : List (Call × Host)
  forwarding : List Call
  checking : List Checking
  relaying : List (ℕ × Call)
  now : ℕ
  calls : ℕ
  generations : ℕ
  log : List Event

def State.initial : State := ⟨none, [], [], [], [], [], none, [], [], [], [], 0, 0, 0, []⟩

namespace State

variable (s : State)

def record (event : Event) : State := { s with log := event :: s.log }

def fail (message : String) : State := s.record (.failed message)

def findPending (id : ℕ) : Option Pending := s.pending.find? fun p => p.call.request.id = id

def findProbe (id : ℕ) : Option QueuedProbe :=
  s.probes.find? fun probe => probe.call.request.id = id

/-- The entry of the call is the one under its id. -/
def isCurrent (call : Call) : Bool := (s.findPending call.request.id).any fun p => p.call = call

def setPending (p : Pending) : State :=
  { s with pending := s.pending.map fun other => if other.call.request.id = p.call.request.id then
    p else other }

def sendEnd (call : Call) (reason : String) : State :=
  s.record (.toWorker call.worker call.request.id call (.stopped reason))

def stoppedReason : String := "Host operation stopped — start a new run."

def disconnectedReason : String :=
  "Host service disconnected — open the desktop app and start a new run."

/-- Keeps half the shared slots for execution. -/
def probeCapacity : Bool :=
  s.pending.length < hostInFlight && s.pending.countP (fun p => p.call.request.isFleetProbe)
    < hostInFlight / 2

/-- A hermes turn is for the host whose broker it names, and that relays. -/
def lacksRelay (host : Host) (request : Request) : Bool :=
  match request.operation with
  | .runtimeTurn true hostGeneration => s.health ≠ some true ||
    hostGeneration ≠ some host.connectionGeneration
  | _ => false

def isRefused (host : Host) (request : Request) : Bool :=
  (!request.isFleetProbe && hostInFlight ≤ s.pending.length) ||
    (request.isFleetProbe && 128 ≤ s.probes.length) ||
    (s.findPending request.id).isSome || (s.findProbe request.id).isSome || request.id ∈ s.seen ||
    (request.runId ∈ s.lostRuns && request.operation ≠ .boardRun) || 100000 ≤ s.lostRuns.length ||
      s.lacksRelay host request

def refusedReason (runId : ℕ) : String :=
  if runId ∈ s.lostRuns then "This run lost its host — start a new run."
  else if s.host.isSome then "Host service is busy — try a new run later."
  else disconnectedReason

def enqueue (call : Call) : State :=
  { s with
    probes := s.probes ++ [⟨call, s.now + 30000⟩]
    log := .queued call s.now :: s.log }

def admitted (call : Call) (host : Host) : State :=
  { s with
    pending := s.pending ++ [⟨call, -1, -1, 0, 0, 0, 0, [], s.now + 15 * 60000, false⟩]
    authorizing := s.authorizing ++ [(call, host)]
    log := .admitted call host :: s.log }

/-- What `request` does before it first awaits. -/
def begin (call : Call) : State :=
  match s.host with
  | none => s.sendEnd call (s.refusedReason call.request.runId)
  | some host =>
    if s.isRefused host call.request then s.sendEnd call (s.refusedReason call.request.runId)
    else if call.request.isFleetProbe && !s.probeCapacity then s.enqueue call
    else s.admitted call host

def request (request : Request) (worker : ℕ) : State :=
  ({ s with calls := s.calls + 1 }.record (.requested ⟨s.calls, request, worker⟩)).begin ⟨s.calls,
    request, worker⟩

def rememberCompleted (worker id : ℕ) : State :=
  let ids := ((s.completed.find? fun entry => entry.1 = worker).map fun entry => entry.2).getD []
  let ids := if id ∈ ids then ids else ids ++ [id]
  let ids := if 64 < ids.length then ids.tail else ids
  { s with completed := (worker, ids) :: s.completed.filter fun entry => entry.1 ≠ worker }

/-- The queue is gone through while there is room. -/
def drain : List QueuedProbe → State → State
  | [], s => { s with probes := [] }
  | probe :: rest, s =>
    if s.host.isSome && s.probeCapacity then drain rest ({ s with probes := rest }.begin probe.call)
    else { s with probes := probe :: rest }

def drainProbes : State := drain s.probes s

def erasePending (id : ℕ) : State :=
  { s with pending := s.pending.filter fun p => p.call.request.id ≠ id }

def eraseProbe (id : ℕ) : State :=
  { s with probes := s.probes.filter fun probe => probe.call.request.id ≠ id }

def finish (id : ℕ) : State :=
  match s.findPending id with
  | none => (s.erasePending id).drainProbes
  | some p => ((s.rememberCompleted p.call.worker id).erasePending id).drainProbes

def cancel (id worker : ℕ) : State :=
  match (s.findProbe id).filter fun probe => probe.call.worker = worker with
  | some probe =>
    (((s.eraseProbe id).rememberCompleted worker id).record (.cancelled probe.call)).sendEnd probe.call stoppedReason
  | none =>
    match (s.findPending id).filter fun p => p.call.worker = worker with
    | none => s
    | some p => ((s.record (.cancelled p.call)).sendEnd p.call stoppedReason).finish id

def lose (runId : ℕ) : State :=
  { s with
    lostRuns := if runId ∈ s.lostRuns then s.lostRuns else s.lostRuns ++ [runId]
    log := .lost runId :: s.log }

def loseCall (call : Call) : State :=
  ((s.lose call.request.runId).record (.cancelled call)).sendEnd call disconnectedReason

def unhosted : State := { s with host := none, health := none, log := .detached :: s.log }

def detach : State :=
  let s := s.pending.foldl (fun s p => s.loseCall p.call) s.unhosted
  let s := { s with pending := [] }
  s.probes.foldl (fun s probe => (s.lose probe.call.request.runId).cancel probe.call.request.id
    probe.call.worker) s

def attach (wire ownerId registrationGeneration : ℕ) : State :=
  let s := s.detach
  let host : Host := ⟨wire, ownerId, registrationGeneration, s.generations⟩
  { s with
    host := some host
    generations := s.generations + 1
    log := .attached host :: s.log }

def closeWorker (worker : ℕ) : State :=
  let s := (s.probes.filter fun probe => probe.call.worker = worker).foldl
    (fun s probe => s.cancel probe.call.request.id worker) s
  (s.pending.filter fun p => p.call.worker = worker).foldl (fun s p => s.cancel p.call.request.id worker) s

/-- The end of a `request` that threw. -/
def abandon (call : Call) : State :=
  (s.finish call.request.id).sendEnd call "Host operation is unavailable for this run."

def authorize (number : ℕ) (answer : Bool) : State :=
  match s.authorizing.find? fun awaiting => awaiting.1.number = number with
  | none => s
  | some (call, host) =>
    let s := { s with authorizing := s.authorizing.filter fun awaiting => awaiting.1 ≠ call }
    if !answer || s.host ≠ some host then s.abandon call
    else
      let s := s.record (.authorized call host)
      if !s.isCurrent call then s
      else
        let s := { s with seen := if call.request.id ∈ s.seen then s.seen else s.seen ++ [call.request.id] }
        if 100000 < s.seen.length then s.detach.abandon call
        else { s.record (.forwarded call host) with forwarding := s.forwarding ++ [call] }

/-- The sending of the request to the host has succeeded, or failed. -/
def forwarded (number : ℕ) (isSent : Bool) : State :=
  match s.forwarding.find? fun call => call.number = number with
  | none => s
  | some call =>
    let s := { s with forwarding := s.forwarding.filter fun other => other ≠ call }
    if isSent then s else s.abandon call

end State

def Pending.isCallbackRefused (p : Pending) (callId : ℕ) (method : CallbackMethod) : Bool :=
  (match p.call.request.operation with
    | .runtimeTurn isHermes hostGeneration => method.isProvider && (!isHermes || hostGeneration = none)
    | _ => true) ||
    hostWindow ≤ p.calls.length || p.calls.any fun awaiting => awaiting.1 = callId

def Pending.receive (p : Pending) : Frame → Except String Pending
  | .stream _ seq bytes =>
    if seq ≠ p.seq + 1 || hostWindow < seq - p.ack then .error "Host stream window exceeded."
    else .ok { p with seq, bytes := p.bytes + bytes }
  | .callback _ callId method bytes =>
    if p.isCallbackRefused callId method then .error "Unexpected host callback."
    else .ok { p with calls := p.calls ++ [(callId, method)], bytes := p.bytes + bytes }
  | .ended _ bytes => .ok { p with bytes := p.bytes + bytes }
  | _ => .error "Unexpected host frame."

namespace State

variable (s : State)

/-- The frame is sent on; that it is the end frame is remembered until it is sent. -/
def sendOn (wire : ℕ) (p : Pending) : Frame → State
  | .stream id seq _ => s.record (.toWorker p.call.worker id p.call (.stream seq))
  | .callback id callId _ _ => s.record (.toWorker p.call.worker id p.call (.callback callId))
  | .ended id _ =>
    { (s.setPending { p with isHanded := true }).record (.toWorker p.call.worker id p.call .ended) with
      relaying := s.relaying ++ [(wire, p.call)] }
  | _ => s

def fromHost (wire : ℕ) (frame : Frame) : State :=
  if s.checking.any (fun c => c.wire = wire) || s.relaying.any fun r => r.1 = wire then s
  else if s.host.all fun host => host.wire ≠ wire then s
  else
    match frame with
    | .health isProviderRelay => { s with health := some isProviderRelay }
    | _ =>
      match frame.id with
      | none => s.fail "Unexpected host frame."
      | some id =>
        match s.findPending id with
        | none => s
        | some p => { s with checking := s.checking ++ [⟨wire, frame, p.call⟩] }

/-- The frame of the host is authorized or refused, or the authorization failed. -/
def checked (wire : ℕ) (answer : Option Bool) : State :=
  match s.checking.find? fun c => c.wire = wire with
  | none => s
  | some c =>
    let s := { s with checking := s.checking.filter fun c => c.wire ≠ wire }
    match c.frame.id, answer with
    | none, _ | _, none => s
    | some id, some false => s.cancel id c.call.worker
    | some id, some true =>
      if s.host.all fun host => host.wire ≠ wire then s
      else
        match (s.findPending id).filter fun p => p.call = c.call with
        | none => s
        | some p =>
          match p.receive c.frame with
          | .error message => s.fail message
          | .ok p =>
            if hostTotalBytes < p.bytes then (s.setPending p).cancel id p.call.worker
            else (s.setPending p).sendOn wire p c.frame

/-- The end frame of the host has been sent to the worker, or could not be. -/
def relayed (wire : ℕ) (isSent : Bool) : State :=
  match s.relaying.find? fun r => r.1 = wire with
  | none => s
  | some r =>
    let s := { s with relaying := s.relaying.filter fun r => r.1 ≠ wire }
    if isSent then s.finish r.2.request.id else s

end State

def ReplyValue.problem (value : ReplyValue) : CallbackMethod → Option String
  | .providerOpen => if value.isOpen then none else some "Invalid input"
  | .providerRead => if value.isRead then none else some "Invalid input"
  | .providerCancel => if value.isUndefined then none else some "Unexpected provider cancellation value."
  | _ => none

/-- The entry after a reply, and whether the replies have become too long. -/
def Pending.reply (p : Pending) (callId : ℕ) (value : ReplyValue) (isFailed : Bool) (bytes : ℕ) :
    Except String (Pending × Bool) :=
  match p.calls.find? fun awaiting => awaiting.1 = callId with
  | none => .error "Unknown callback."
  | some (_, method) =>
    match if isFailed then none else value.problem method with
    | some message => .error message
    | none =>
      let providerBytes :=
        if p.call.request.isHermes && method.isProvider then p.providerBytes + bytes else p.providerBytes
      let otherWorkerBytes :=
        if p.call.request.isHermes && !method.isProvider then p.otherWorkerBytes + bytes else p.otherWorkerBytes
      let workerBytes := p.workerBytes + bytes
      .ok
        ({ p with
            calls := p.calls.filter fun awaiting => awaiting.1 ≠ callId
            workerBytes
            providerBytes
            otherWorkerBytes := otherWorkerBytes },
          hostTotalBytes < workerBytes || (p.call.request.isHermes &&
            (6 * 1024 * 1024 < providerBytes || 2 * 1024 * 1024 < otherWorkerBytes)))

namespace State

variable (s : State)

def hasCompleted (worker id : ℕ) : Bool :=
  s.completed.any fun entry => entry.1 = worker && id ∈ entry.2

/-- A frame for an id under which nothing is pending. -/
def fromWorkerLate (worker id : ℕ) : Frame → State
  | .cancel _ | .ack _ _ | .reply _ _ _ _ _ =>
    if s.hasCompleted worker id then s else s.fail "Unknown worker operation."
  | _ => s.fail "Unknown worker operation."

def fromWorkerPending (worker id : ℕ) (p : Pending) : Frame → State
  | .cancel _ => s.cancel id worker
  | .ack _ seq =>
    if seq ≤ p.ack || p.seq < seq then s.fail "Invalid acknowledgement."
    else (s.setPending { p with ack := seq }).record (.acked p.call seq)
  | .reply _ callId value isFailed bytes =>
    match p.reply callId value isFailed bytes with
    | .error message => s.fail message
    | .ok (p, isTooLong) => if isTooLong then (s.setPending p).cancel id worker else s.setPending p
  | _ => s.fail "Unexpected worker frame."

def fromWorker (worker : ℕ) (frame : Frame) : State :=
  match frame, frame.id with
  | .request request, _ => s.request request worker
  | _, none => s.fail "Unexpected worker frame."
  | frame, some id =>
    if frame = .cancel id && (s.findProbe id).any fun probe => probe.call.worker = worker then s.cancel id worker
    else
      match s.findPending id with
      | none => s.fromWorkerLate worker id frame
      | some p =>
        if p.call.worker ≠ worker then s.fail "Unknown worker operation."
        else s.fromWorkerPending worker id p frame

def elapse (time : ℕ) : State :=
  if s.pending.all (fun p => s.now + time ≤ p.deadline) && s.probes.all fun probe => s.now + time ≤
    probe.deadline then
    { s with now := s.now + time }
  else s

end State

inductive Op where
  | attach (wire ownerId registrationGeneration : ℕ)
  | detach
  | request (request : Request) (worker : ℕ)
  | authorize (number : ℕ) (answer : Bool)
  | forwarded (number : ℕ) (isSent : Bool)
  | fromHost (wire : ℕ) (frame : Frame)
  | checked (wire : ℕ) (answer : Option Bool)
  | relayed (wire : ℕ) (isSent : Bool)
  | fromWorker (worker : ℕ) (frame : Frame)
  | cancel (id worker : ℕ)
  | closeWorker (worker : ℕ)
  | elapse (time : ℕ)

def step (s : State) : Op → State
  | .attach wire ownerId registrationGeneration => s.attach wire ownerId registrationGeneration
  | .detach => s.detach
  | .request request worker => s.request request worker
  | .authorize number answer => s.authorize number answer
  | .forwarded number isSent => s.forwarded number isSent
  | .fromHost wire frame => s.fromHost wire frame
  | .checked wire answer => s.checked wire answer
  | .relayed wire isSent => s.relayed wire isSent
  | .fromWorker worker frame => s.fromWorker worker frame
  | .cancel id worker => s.cancel id worker
  | .closeWorker worker => s.closeWorker worker
  | .elapse time => s.elapse time

end ArdurBot.HostHub
