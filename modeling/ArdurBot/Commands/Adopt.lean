import ArdurBot.Commands.CardsLive
import ArdurBot.Lib.Dict

/-!
# Commands that an earlier attempt left open

`adoptOpenCommands` in `packages/adapters/src/command-recording.ts`, and what the attempts of a run
record (`storeToolCall` in `executor.ts`, `createCommandRecording`).
-/

namespace ArdurBot.Commands

open Utf16

structure ToolCallIdentity where
  name : Text
  argumentDigest : Option Text

inductive RunPayload where
  | called (executionId : Text) (call : ToolCallIdentity)
  | completed (executionId name : Text)
  | card (payload : CardPayload)

structure RunEvent where
  id : Text
  seq : ℤ
  payload : RunPayload

def isOpen (outcome : CommandOutcome) : Prop := outcome = .waiting ∨ outcome = .running

instance : DecidablePred isOpen := fun _ => inferInstanceAs (Decidable (_ ∨ _))

def sameToolCall (recorded : Option ToolCallIdentity) (call : ToolCallIdentity) : Bool :=
  recorded.any fun recorded =>
    recorded.argumentDigest.isSome && recorded.name = call.name && recorded.argumentDigest = call.argumentDigest

structure Adoption where
  target : List (Text × CommandBlock)
  calls : List (Text × ToolCallIdentity)
  links : List ToolResumedPayload

/-- The card that the link hands off, under the execution id of the resumed call. -/
def handedOff (link : Option ToolResumedPayload) (block : CommandBlock) : Option (Text × CommandBlock) := do
  let link ← link
  let (fromCommandId, toCommandId) ← link.cards
  if fromCommandId = block.commandId then
    some (link.toCall, { block with commandId := toCommandId }) else none

/-- The walk over a map that changes: an entry set under a new key comes last and is visited too.
`none` where the walk does not end within the fuel. -/
def handOff (links : List ToolResumedPayload) (link : Option ToolResumedPayload) :
    ℕ → List (Text × CommandBlock) → List (Text × CommandBlock) → Option (List (Text × CommandBlock))
  | _, visited, [] => some visited
  | 0, _, _ :: _ => none
  | fuel + 1, visited, entry :: rest =>
    if (commandCardId entry.2.commandId (commandJoins links entry.2.commandId)).isSome then
      handOff links link fuel (visited ++ [entry]) rest
    else
      match handedOff link entry.2 with
      | none => handOff links link fuel visited rest
      | some (key, block) =>
        if visited.any fun other => other.1 = key then handOff links link fuel (Dict.set visited key block) rest
        else handOff links link fuel visited (Dict.set rest key block)

section

variable (finished finishedCommandIds : List Text)

/-- Each entry is visited, and once more where it is handed off; only a link from a command to
itself goes on forever. -/
def adoptEvent (adoption : Adoption) (event : RunEvent) : Option Adoption :=
  let { target, calls, links } := adoption
  match event.payload with
  | .card (.resumed link) =>
    let links := links ++ link.toList
    (handOff links link (2 * target.length + 1) [] target).map fun target => { target, calls, links }
  | .called executionId call =>
    let recorded := Dict.get calls executionId
    let target := if recorded.isSome && !sameToolCall recorded call then Dict.delete target executionId else target
    some { target, calls := Dict.set calls executionId call, links }
  | .card (.command .finished _) | .card (.command _ none) | .completed _ _ => some adoption
  | .card (.command _ (some block)) =>
    if block.executionId ∈ finished ∨ block.commandId ∈ finishedCommandIds then some adoption
    else if (commandCardId block.commandId (commandJoins links block.commandId)).isNone then some adoption
    else if isOpen block.outcome then some { target := Dict.set target block.executionId block, calls, links }
    else some adoption

def adoptOpenCommands (target : List (Text × CommandBlock)) (events : List RunEvent) :
    Option (List (Text × CommandBlock)) :=
  (events.foldlM (adoptEvent finished finishedCommandIds) ⟨target, [], []⟩).map Adoption.target

end

/-- The query of the same name in `packages/db/src/command-blocks.ts`. -/
def finishedCommandIds (events : List RunEvent) : List Text :=
  events.filterMap fun event =>
    match event.payload with
    | .card (.command .finished (some block)) => if block.commandId = [] then none else some block.commandId
    | _ => none

/-- The event as the cards are projected from it. -/
def RunEvent.command (runId : Text) (event : RunEvent) : CommandEvent where
  id := event.id
  seq := event.seq
  runId := some runId
  payload :=
    match event.payload with
    | .called executionId { name, .. } | .completed executionId name =>
      if name = lit "shell" then .shellCall executionId else .other
    | .card payload => .card payload

def RunEvent.link (event : RunEvent) : Option ToolResumedPayload :=
  match event.payload with
  | .card (.resumed link) => link
  | _ => none

def linksIn (events : List RunEvent) : List ToolResumedPayload := events.filterMap RunEvent.link

def RunEvent.commandIds (event : RunEvent) : List Text := (event.command []).commandIds

def IsCommandId (commandId : Text) : Prop := commandId ≠ [] ∧ ¬ lit "resumed:" <+: commandId

instance : DecidablePred IsCommandId := fun _ => inferInstanceAs (Decidable (_ ∧ _))

/-- What an attempt writes after the events: a command under the id made from its execution id
(`owner`), waiting or running until it is finished; and a link to a call on a new execution id,
before that call records a command. -/
def Written (runId : Text) (owner : Text → Text) (events : List RunEvent) (event : RunEvent) : Prop :=
  (∀ commandId ∈ event.commandIds, IsCommandId commandId) ∧
    match event.payload with
    | .card (.command type (some block)) =>
      block.runId = runId ∧ block.executionId = owner block.commandId ∧ (type = .finished ∨ isOpen block.outcome)
    | .card (.resumed (some link)) =>
      ∀ cards ∈ link.cards,
        link.toCall = owner cards.2 ∧ link.toCall ≠ owner cards.1 ∧
          ∀ other ∈ events, ∀ commandId ∈ other.commandIds, owner commandId ≠ link.toCall
    | .card _ => False
    | _ => True

instance (runId : Text) (owner : Text → Text) (events : List RunEvent) (event : RunEvent) :
    Decidable (Written runId owner events event) := by
  unfold Written
  refine @instDecidableAnd _ _ _ ?_
  split <;> infer_instance

/-- The events that the attempts of the run record, one after the other. -/
inductive Recorded (runId : Text) (owner : Text → Text) : List RunEvent → Prop where
  | nil : Recorded runId owner []
  | append {events : List RunEvent} {event : RunEvent} (earlier : Recorded runId owner events)
      (fresh : ∀ other ∈ events, other.id ≠ event.id) (later : ∀ other ∈ events, other.seq < event.seq)
      (written : Written runId owner events event) : Recorded runId owner (events ++ [event])

end ArdurBot.Commands
