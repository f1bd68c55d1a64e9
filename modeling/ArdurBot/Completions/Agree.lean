import ArdurBot.Completions.Calls
import ArdurBot.Completions.Client

/-!
# Streamed and plain completions

After each event the calls of the code, those that the client put together and those of the event
sequence are one list of rows, so both completions agree just if each call is settled.
-/

namespace ArdurBot.Completions

open List Utf16 Json

/-- A call of the event sequence with the id and the name it was given last. -/
structure Row where
  source : SourceCall
  id : Text
  name : Text

def Row.accumulator (row : Row) : ToolCallAccumulator :=
  ⟨row.id, row.name, plainArguments row.source.parts, hasDeltas row.source.parts⟩

def Row.call (row : Row) : Call := ⟨row.id, row.name, streamedArguments row.source.parts⟩

def Row.add (part : Part) (row : Row) : Row :=
  match part with
  | .delta _ => { row with source := row.source.add part }
  | .ended toolCall => ⟨row.source.add part, toolCall.id, toolCall.name⟩

theorem Row.source_add (part : Part) (row : Row) : (row.add part).source = row.source.add part := by
  cases part <;> rfl

theorem Row.add_ended (row : Row) (toolCall : ToolCall) :
    (row.add (.ended toolCall)).call = ⟨toolCall.id, toolCall.name,
        row.call.arguments ++ if row.accumulator.hasDeltas then [] else toolCall.fullArgs⟩ ∧
      (row.add (.ended toolCall)).accumulator =
        ⟨toolCall.id, toolCall.name, toolCall.fullArgs, row.accumulator.hasDeltas⟩ := by
  simp [Row.add, Row.call, Row.accumulator, SourceCall.add, streamedArguments_ended,
    plainArguments_concat, plainStep,
    hasDeltas]

def received (frames : List Text) : Received := frames.foldl takeFrame ⟨[], [], none, none⟩

theorem received_concat (frames : List Text) (frame : Text) :
    received (frames ++ [frame]) = takeFrame (received frames) frame := foldl_concat _ _ _ _

/-- The code and the client are on the same calls. -/
structure Follows (calls : List SourceCall) (p : Progress) : Prop where
  rows : ∃ rows : List Row, calls = rows.map Row.source ∧ p.toolCalls = rows.map Row.accumulator ∧
    (received p.frames).calls = Dict.numbered (rows.map Row.call)
  index : ∀ contentIndex, Dict.get p.callIndex contentIndex = latest contentIndex calls
  text : (received p.frames).text = p.text
  finish : (received p.frames).finish = none
  usage : (received p.frames).usage = none

variable {stamp : Stamp} {calls : List SourceCall} {p : Progress}

theorem Follows.length (h : Follows calls p) : p.toolCalls.length = calls.length := by
  obtain ⟨rows, hcalls, haccs, -⟩ := h.rows
  rw [hcalls, haccs, length_map, length_map]

theorem map_modify {α β : Type} {f : α → β} {g : α → α} {h : β → β} {items : List α} {index : ℕ}
    (hcomm : ∀ x, items[index]? = some x → f (g x) = h (f x)) :
    (items.modify index g).map f = (items.map f).modify index h := by
  induction items generalizing index with
  | nil => cases index <;> rfl
  | cons x rest ih =>
    cases index with
    | zero => exact congrArg (· :: rest.map f) (hcomm x rfl)
    | succ index =>
      rw [modify_succ_cons, map_cons, map_cons, modify_succ_cons, ih fun y hy => hcomm y hy]

theorem follows_text (h : Follows calls p) (delta : Text) :
    Follows calls (emit stamp true [text "content" delta] none { p with text := p.text ++ delta }) := by
  have hreceived : received (p.frames ++ [sseFrame ⟨stamp, [⟨[text "content" delta], none⟩], none⟩]) =
      { received p.frames with text := (received p.frames).text ++ delta } := by
    rw [received_concat, takeFrame_text]
  obtain ⟨rows, hcalls, haccs, hrows⟩ := h.rows
  refine ⟨⟨rows, hcalls, haccs, ?_⟩, h.index, ?_, ?_, ?_⟩
  · exact (congrArg Received.calls hreceived).trans hrows
  · exact (congrArg Received.text hreceived).trans (congrArg (· ++ delta) h.text)
  · exact (congrArg Received.finish hreceived).trans h.finish
  · exact (congrArg Received.usage hreceived).trans h.usage

theorem follows_thinking (h : Follows calls p) (delta : Text) :
    Follows calls (emit stamp true [text "reasoning_content" delta] none p) := by
  have hreceived : received (p.frames ++ [sseFrame ⟨stamp, [⟨[text "reasoning_content" delta], none⟩], none⟩]) =
      received p.frames := by
    rw [received_concat, takeFrame_other delta (by decide +kernel) (by decide +kernel)]
  obtain ⟨rows, hcalls, haccs, hrows⟩ := h.rows
  refine ⟨⟨rows, hcalls, haccs, ?_⟩, h.index, ?_, ?_, ?_⟩
  · exact (congrArg Received.calls hreceived).trans hrows
  · exact (congrArg Received.text hreceived).trans h.text
  · exact (congrArg Received.finish hreceived).trans h.finish
  · exact (congrArg Received.usage hreceived).trans h.usage

variable (stamp) in
theorem follows_begin (h : Follows calls p) (hsize : calls.length < 2 ^ 53)
    (contentIndex : ℕ) (row : Row) (hcontent : row.source.contentIndex = contentIndex) :
    Follows (calls ++ [row.source])
      (emit stamp true (callDelta p.toolCalls.length row.id row.name (streamedArguments row.source.parts)) none
        { p with callIndex := Dict.set p.callIndex contentIndex p.toolCalls.length,
                 toolCalls := p.toolCalls ++ [row.accumulator] }) := by
  have hlength := h.length
  obtain ⟨rows, hcalls, haccs, hreceived⟩ := h.rows
  have hrows : p.toolCalls.length = (rows.map Row.call).length := by rw [haccs, length_map, length_map]
  have hnone : Dict.get (Dict.numbered (rows.map Row.call)) (rows.map Row.call).length = none := by
    rw [Dict.get_numbered]
    exact getElem?_eq_none (Nat.le_refl _)
  have hframe : received (p.frames ++ [sseFrame ⟨stamp, [⟨callDelta p.toolCalls.length row.id row.name
      (streamedArguments row.source.parts), none⟩], none⟩]) =
      { received p.frames with calls := Dict.numbered ((rows ++ [row]).map Row.call) } := by
    rw [received_concat, takeFrame_call (by omega), Received.update, hreceived, hrows, hnone, Option.getD_none,
      nil_append, Dict.set_numbered_length, map_append]
    rfl
  refine ⟨⟨rows ++ [row], ?_, ?_, ?_⟩, fun other => ?_, ?_, ?_, ?_⟩
  · rw [hcalls, map_append, map_singleton]
  · show p.toolCalls ++ [row.accumulator] = _
    rw [haccs, map_append, map_singleton]
  · exact congrArg Received.calls hframe
  · show Dict.get (Dict.set p.callIndex contentIndex p.toolCalls.length) other = _
    rw [latest_concat, hcontent]
    by_cases hother : contentIndex = other
    · rw [if_pos hother, ← hother, Dict.get_set_self, hlength]
    · rw [if_neg hother, Dict.get_set_ne (Ne.symm hother), h.index]
  · exact (congrArg Received.text hframe).trans h.text
  · exact (congrArg Received.finish hframe).trans h.finish
  · exact (congrArg Received.usage hframe).trans h.usage

theorem follows_add (h : Follows calls p) {index : ℕ} (hindex : index < calls.length) (part : Part)
    (delta : Fields) {change : Call → Call} {accumulate : ToolCallAccumulator → ToolCallAccumulator}
    {toolCalls : List ToolCallAccumulator}
    (hdelta : takeFrame (received p.frames) (sseFrame ⟨stamp, [⟨delta, none⟩], none⟩) =
      (received p.frames).update index change)
    (hcalls : toolCalls = p.toolCalls.modify index accumulate)
    (hrow : ∀ row : Row, p.toolCalls[index]? = some row.accumulator →
      (row.add part).call = change row.call ∧ (row.add part).accumulator = accumulate row.accumulator) :
    Follows (calls.modify index (·.add part)) (emit stamp true delta none { p with toolCalls }) := by
  obtain ⟨rows, hsources, haccs, hreceived⟩ := h.rows
  have hrows : index < (rows.map Row.call).length := by
    rw [hsources, length_map] at hindex
    rwa [length_map]
  have hrow' : ∀ row, rows[index]? = some row →
      (row.add part).call = change row.call ∧ (row.add part).accumulator = accumulate row.accumulator := by
    intro row hget
    refine hrow row ?_
    rw [haccs, getElem?_map, hget]
    rfl
  have hframe : received (p.frames ++ [sseFrame ⟨stamp, [⟨delta, none⟩], none⟩]) =
      { received p.frames with calls := Dict.numbered ((rows.modify index (·.add part)).map Row.call) } := by
    rw [received_concat, hdelta, Received.update, hreceived, Dict.set_get_numbered hrows,
      map_modify fun row hget => (hrow' row hget).1]
  refine ⟨⟨rows.modify index (·.add part), ?_, ?_, ?_⟩, fun other => ?_, ?_, ?_, ?_⟩
  · rw [hsources, map_modify fun row _ => row.source_add part]
  · rw [map_modify fun row hget => (hrow' row hget).2, ← haccs]
    exact hcalls
  · exact congrArg Received.calls hframe
  · rw [latest_modify]
    exact h.index other
  · exact (congrArg Received.text hframe).trans h.text
  · exact (congrArg Received.finish hframe).trans h.finish
  · exact (congrArg Received.usage hframe).trans h.usage

theorem follows_start (h : Follows calls p) (hsize : calls.length < 2 ^ 53) (contentIndex : ℕ)
    (content : List Block) :
    Follows (calls ++ [⟨contentIndex, []⟩]) (onStart stamp true contentIndex content p) := by
  dsimp only [onStart]
  split
  next id name _ => exact follows_begin stamp h hsize contentIndex ⟨⟨contentIndex, []⟩, id, name⟩ rfl
  next => exact follows_begin stamp h hsize contentIndex ⟨⟨contentIndex, []⟩, _, []⟩ rfl

theorem follows_delta (h : Follows calls p) (hsize : calls.length ≤ 2 ^ 53) (contentIndex : ℕ)
    (delta : Text) :
    Follows (takeEvent calls (.toolcallDelta contentIndex delta)) (onDelta stamp true contentIndex delta p) := by
  rw [takeEvent, onDelta, h.index]
  rcases hlatest : latest contentIndex calls with _ | index
  · exact h
  have hlt := latest_lt hlatest
  refine follows_add h hlt (.delta delta) _ (takeFrame_arguments (by omega) delta) rfl fun row _ => ?_
  simp [Row.add, Row.call, Row.accumulator, SourceCall.add, streamedArguments_delta,
    plainArguments_concat, plainStep, hasDeltas]

theorem set_eq_modify {α : Type} {items : List α} {index : ℕ} (value : α) :
    items.set index value = items.modify index fun _ => value := by
  rw [modify_eq_set_getElem?]
  cases h : items[index]? with
  | none => exact set_eq_of_length_le (getElem?_eq_none_iff.mp h)
  | some x => rfl

theorem follows_end (h : Follows calls p) (hsize : calls.length < 2 ^ 53) (contentIndex : ℕ)
    (toolCall : ToolCall) :
    Follows (takeEvent calls (.toolcallEnd contentIndex toolCall)) (onEnd stamp true contentIndex toolCall p) := by
  rw [takeEvent, onEnd, h.index]
  cases hlatest : latest contentIndex calls with
  | none =>
    have hbegin := follows_begin stamp h hsize contentIndex
      ⟨⟨contentIndex, [.ended toolCall]⟩, toolCall.id, toolCall.name⟩ rfl
    have harguments : streamedArguments [.ended toolCall] = toolCall.fullArgs := by
      simp [streamedArguments, leading, fragments]
    rw [harguments] at hbegin
    exact hbegin
  | some index =>
    have hlt := latest_lt hlatest
    refine follows_add h hlt (.ended toolCall) _ (takeFrame_call (by omega) _ _ _) (set_eq_modify _)
      fun row hget => ?_
    rw [hget]
    exact row.add_ended toolCall

theorem length_le_takeEvent (calls : List SourceCall) (e : Event) :
    calls.length ≤ (takeEvent calls e).length := by
  cases e with
  | toolcallStart contentIndex content => simp [takeEvent]
  | toolcallDelta | toolcallEnd =>
    rw [takeEvent]
    split <;> simp
  | _ => exact Nat.le_refl _

theorem length_le_foldl (events : List Event) (calls : List SourceCall) :
    calls.length ≤ (events.foldl takeEvent calls).length := by
  induction events generalizing calls with
  | nil => exact Nat.le_refl _
  | cons e events ih => exact (length_le_takeEvent calls e).trans (ih _)

def Event.isError : Event → Bool
  | .error _ _ => true
  | _ => false

variable (stamp) in
theorem follows_event (h : Follows calls p) (hsize : calls.length < 2 ^ 53) {e : Event}
    (he : e.isError = false) :
    ∃ p', onEvent stamp true p e = .ok p' ∧ Follows (takeEvent calls e) p' := by
  cases e with
  | textDelta delta => exact ⟨_, rfl, follows_text h delta⟩
  | thinkingDelta delta => exact ⟨_, rfl, follows_thinking h delta⟩
  | toolcallStart contentIndex content => exact ⟨_, rfl, follows_start h hsize contentIndex content⟩
  | toolcallDelta contentIndex delta => exact ⟨_, rfl, follows_delta h (by omega) contentIndex delta⟩
  | toolcallEnd contentIndex toolCall => exact ⟨_, rfl, follows_end h hsize contentIndex toolCall⟩
  | done reason usage => exact ⟨_, rfl, { h with }⟩
  | error aborted errorMessage => cases he
  | other => exact ⟨_, rfl, h⟩

variable (stamp) in
theorem follows_events (h : Follows calls p) (events : List Event)
    (hsize : (events.foldl takeEvent calls).length < 2 ^ 53)
    (herror : ∀ e ∈ events, e.isError = false) :
    ∃ p', events.foldlM (onEvent stamp true) p = .ok p' ∧ Follows (events.foldl takeEvent calls) p' := by
  induction events generalizing calls p with
  | nil => exact ⟨p, rfl, h⟩
  | cons e events ih =>
    have hcalls : calls.length < 2 ^ 53 := by
      have hone := length_le_takeEvent calls e
      have hrest := length_le_foldl events (takeEvent calls e)
      rw [foldl_cons] at hsize
      omega
    obtain ⟨p', hstep, hfollows⟩ := follows_event stamp h hcalls (herror e mem_cons_self)
    obtain ⟨last, hrun, hlast⟩ := ih hfollows hsize fun e' hmem => herror e' (mem_cons_of_mem _ hmem)
    refine ⟨last, ?_, hlast⟩
    rw [foldlM_cons, hstep]
    exact hrun

theorem follows_start_empty : Follows [] (start stamp true) := by
  have hreceived : received (start stamp true).frames = ⟨[], [], none, none⟩ := by
    rw [start, emit, if_pos rfl, received_concat]
    exact takeFrame_other (lit "assistant") (by decide +kernel) (by decide +kernel)
  refine ⟨⟨[], rfl, rfl, ?_⟩, fun _ => rfl, ?_, ?_, ?_⟩
  · rw [hreceived]
    rfl
  · rw [hreceived]
    rfl
  · rw [hreceived]
  · rw [hreceived]

def Progress.quiet (p : Progress) : Progress := { p with frames := [] }

theorem onEvent_quiet (other : Stamp) (p : Progress) (e : Event) :
    onEvent other false p.quiet e = (onEvent stamp true p e).map Progress.quiet := by
  cases e with
  | toolcallDelta contentIndex delta =>
    simp only [onEvent, onDelta, Progress.quiet]
    cases Dict.get p.callIndex contentIndex <;> rfl
  | toolcallEnd contentIndex toolCall =>
    simp only [onEvent, onEnd, Progress.quiet]
    cases Dict.get p.callIndex contentIndex <;> rfl
  | _ => rfl

variable (stamp) in
theorem foldlM_quiet (other : Stamp) (events : List Event) (p : Progress) :
    events.foldlM (onEvent other false) p.quiet = (events.foldlM (onEvent stamp true) p).map Progress.quiet := by
  induction events generalizing p with
  | nil => rfl
  | cons e events ih =>
    rw [foldlM_cons, foldlM_cons, onEvent_quiet]
    cases onEvent stamp true p e with
    | error failure => rfl
    | ok p' => exact ih p'

theorem foldFrames_conclude (h : Follows calls p) : foldFrames (conclude stamp true p).frames =
      ⟨p.text, (received p.frames).calls.map Prod.snd, some (lastFinish p).text,
        p.usage.map fun usage => (chatUsage usage).toJs.normal⟩ := by
  have hframes : (conclude stamp true p).frames =
      p.frames ++ [sseFrame ⟨stamp, [⟨[], some (lastFinish p).text⟩], none⟩] ++ usageFrames stamp p ++ [doneFrame] := rfl
  have hfold : foldFrames (conclude stamp true p).frames = (received (conclude stamp true p).frames).completion := rfl
  rw [hfold, hframes, received_concat, takeFrame_done]
  have husage : ∀ frames, received (frames ++ usageFrames stamp p) =
      { received frames with usage := (p.usage.map fun usage => (chatUsage usage).toJs.normal).or (received frames).usage } := by
    intro frames
    rw [usageFrames]
    cases p.usage with
    | none => exact congrArg received (append_nil frames)
    | some usage => exact (received_concat frames _).trans (takeFrame_sseFrame (forall_mem_nil _))
  rw [husage, received_concat, takeFrame_finish]
  show (⟨(received p.frames).text, _, _, Option.or _ (received p.frames).usage⟩ : Completion) = _
  rw [h.text, h.usage, Option.or_none]

def ToolCallAccumulator.call (call : ToolCallAccumulator) : Call := { call with }

theorem readBody_bodyOf (finish : Finish) (p : Progress) : readBody (bodyOf stamp finish p) =
      ⟨p.text, p.toolCalls.map ToolCallAccumulator.call, some finish.text,
        p.usage.map fun usage => (chatUsage usage).toJs⟩ := by
  have hcontent : textOf (.obj (message p)) "content" = p.text := by
    show (readText (if p.text = [] then .null else .str p.text)).getD [] = p.text
    split
    next hnil => rw [hnil]; rfl
    next => rfl
  have hcalls : (itemsOf (field (.obj (message p)) "tool_calls")).map readCall =
      p.toolCalls.map ToolCallAccumulator.call := by
    by_cases hnil : p.toolCalls = []
    · have hmessage : field (.obj (message p)) "tool_calls" = .null := by
        rw [message, if_pos hnil]
        rfl
      rw [hmessage, hnil]
      rfl
    · have hmessage : field (.obj (message p)) "tool_calls" = .arr (p.toolCalls.mapIdx callJs) := by
        rw [message, if_neg hnil]
        rfl
      rw [hmessage]
      refine ext_getElem? fun index => ?_
      rw [getElem?_map, getElem?_map, itemsOf, getElem?_mapIdx, Option.map_map]
      rfl
  have husage : getField (fieldsOf (bodyOf stamp finish p)) (lit "usage") =
      p.usage.map fun usage => (chatUsage usage).toJs := by
    rw [bodyOf]
    cases p.usage <;> rfl
  show Completion.mk (textOf (.obj (message p)) "content")
    ((itemsOf (field (.obj (message p)) "tool_calls")).map readCall) _
    (getField (fieldsOf (bodyOf stamp finish p)) (lit "usage")) = _
  rw [hcontent, hcalls, husage]
  rfl

theorem optionRel_normal (usage : Option ProviderUsage) :
    Option.Rel SameJson (usage.map fun usage => (chatUsage usage).toJs.normal)
      (usage.map fun usage => (chatUsage usage).toJs) := by
  cases usage with
  | none => exact .none
  | some usage => exact .some (sameJson_normal _)

theorem forall₂_rows (rows : List Row) :
    List.Forall₂ SameCall (rows.map Row.call) (rows.map fun row => row.accumulator.call) ↔
      ∀ row ∈ rows, SameText (streamedArguments row.source.parts) (plainArguments row.source.parts) := by
  rw [forall₂_map_left_iff, forall₂_map_right_iff, forall₂_same]
  exact forall₂_congr fun row _ => ⟨fun h => h.2.2, fun h => ⟨rfl, rfl, h⟩⟩

/-- **Streamed and plain completions agree** just if each tool call is settled. The indexes of the
calls are exact numbers: an array has less than `2 ^ 32` items. -/
theorem translateStream_agrees (stamp other : Stamp) (events : List Event) (herror : ∀ e ∈ events, e.isError = false)
    (hsize : (callsOf events).length < 2 ^ 53) (hcarried : ∀ call ∈ callsOf events, Carried call.parts) :
    ∃ streamed plain body, translateStream stamp true events = .ok streamed ∧
      translateStream other false events = .ok plain ∧ plain.body = some body ∧ plain.finish = streamed.finish ∧
      (Agree (foldFrames streamed.frames) (readBody body) ↔ ∀ call ∈ callsOf events, Settled call.parts) := by
  obtain ⟨p, hrun, hfollows⟩ := follows_events stamp follows_start_empty events hsize herror
  have hquiet : events.foldlM (onEvent other false) (start other false) = .ok p.quiet := by
    have hfold := foldlM_quiet stamp other events (start stamp true)
    rw [hrun] at hfold
    exact hfold
  refine ⟨conclude stamp true p, conclude other false p.quiet, bodyOf other (lastFinish p.quiet) p.quiet,
    ?_, ?_, rfl, rfl, ?_⟩
  · rw [translateStream, hrun]
    rfl
  · rw [translateStream, hquiet]
    rfl
  obtain ⟨rows, hcalls, haccs, hreceived⟩ := hfollows.rows
  have hsource : callsOf events = rows.map Row.source := hcalls
  rw [foldFrames_conclude hfollows, readBody_bodyOf, hreceived, Dict.map_snd_numbered, hsource]
  rw [hsource] at hcarried
  have hrows : (∀ row ∈ rows, SameText (streamedArguments row.source.parts) (plainArguments row.source.parts)) ↔
      ∀ call ∈ rows.map Row.source, Settled call.parts := by
    rw [forall_mem_map]
    exact forall₂_congr fun row hmem => sameText_iff (hcarried _ (mem_map_of_mem hmem))
  have haccs' : p.quiet.toolCalls.map ToolCallAccumulator.call = rows.map fun row => row.accumulator.call := by
    show p.toolCalls.map ToolCallAccumulator.call = _
    rw [haccs, map_map]
    rfl
  rw [haccs', ← hrows, ← forall₂_rows]
  exact ⟨fun h => h.calls, fun h => ⟨rfl, h, rfl, optionRel_normal p.usage⟩⟩

def sampleCall : ToolCall :=
  ⟨lit "call_a", lit "run", [text "a" (lit "b")], nodup_singleton _, trivial, trivial⟩

def sampleStamp : Stamp := ⟨lit "chatcmpl-1", .finite zeroDouble, lit "model"⟩

def usualEvents : List Event :=
  [.toolcallStart 0 [], .toolcallDelta 0 (lit "\x7b\"a\":"), .textDelta (lit "hi"),
    .toolcallDelta 0 (lit "\"b\"\x7d"),
    .toolcallEnd 0 sampleCall, .done (some .toolUse) none]

def earlyEnd : List Event :=
  [.toolcallStart 0 [], .toolcallDelta 0 (lit "\x7b\"a\":\"b\""), .toolcallEnd 0 sampleCall,
    .toolcallDelta 0 (lit "\x7d"), .done (some .toolUse) none]

theorem carried_sample {events : List Event} (parts : List Part) (hcalls : callsOf events = [⟨0, parts⟩])
    (hends : ∀ toolCall, .ended toolCall ∈ parts → toolCall = sampleCall)
    (h : fragments parts = sampleCall.fullArgs) :
    ∀ call ∈ callsOf events, Carried call.parts := by
  intro call hmem delta _ toolCall hended
  rw [hcalls] at hmem
  rw [mem_singleton.mp hmem] at hended ⊢
  rw [hends toolCall hended]
  exact h ▸ ⟨_, parse_encode sampleCall.data, sameJson_normal _⟩

theorem carried_usual : ∀ call ∈ callsOf usualEvents, Carried call.parts :=
  carried_sample [.delta (lit "\x7b\"a\":"), .delta (lit "\"b\"\x7d"), .ended sampleCall] rfl
    (by intro toolCall hmem; simpa using hmem) rfl

theorem translateStream_agrees_usual : ∃ streamed plain body, translateStream sampleStamp true usualEvents = .ok streamed ∧
      translateStream sampleStamp false usualEvents = .ok plain ∧ plain.body = some body ∧
      plain.finish = streamed.finish ∧ Agree (foldFrames streamed.frames) (readBody body) := by
  obtain ⟨streamed, plain, body, hstreamed, hplain, hbody, hfinish, hagree⟩ :=
    translateStream_agrees sampleStamp sampleStamp usualEvents (by decide) (by decide) carried_usual
  refine ⟨streamed, plain, body, hstreamed, hplain, hbody, hfinish, hagree.mpr ?_⟩
  intro call hmem
  rw [mem_singleton.mp hmem]
  rfl

theorem carried_earlyEnd : ∀ call ∈ callsOf earlyEnd, Carried call.parts :=
  carried_sample [.delta (lit "\x7b\"a\":\"b\""), .ended sampleCall, .delta (lit "\x7d")] rfl
    (by intro toolCall hmem; simpa using hmem) rfl

def earlyCall (arguments : String) : List Call := [⟨lit "call_a", lit "run", lit arguments⟩]

theorem earlyEnd_reads :
    ((translateStream sampleStamp true earlyEnd).toOption.map fun t => (foldFrames t.frames).calls) =
        some (earlyCall "\x7b\"a\":\"b\"\x7d") ∧
      ((translateStream sampleStamp false earlyEnd).toOption.bind fun t => t.body.map fun body =>
        (readBody body).calls) =
        some (earlyCall "\x7b\"a\":\"b\"\x7d\x7d") := by
  constructor <;> decide +kernel

/-- The body has the arguments of the end with the fragment behind it, the client has the
fragments. -/
theorem translateStream_early_end : (∀ e ∈ earlyEnd, e.isError = false) ∧ (∀ call ∈ callsOf earlyEnd, Carried call.parts) ∧
    ∀ streamed plain body, translateStream sampleStamp true earlyEnd = .ok streamed →
      translateStream sampleStamp false earlyEnd = .ok plain → plain.body = some body →
      ¬ Agree (foldFrames streamed.frames) (readBody body) := by
  refine ⟨by decide, carried_earlyEnd, fun streamed plain body hstreamed hplain hbody h => ?_⟩
  have hclient : some (foldFrames streamed.frames).calls = some (earlyCall "\x7b\"a\":\"b\"\x7d") := by
    rw [← earlyEnd_reads.1, hstreamed]
    rfl
  have hbodyCalls : plain.body.map (fun body => (readBody body).calls) =
      some (earlyCall "\x7b\"a\":\"b\"\x7d\x7d") := by
    rw [← earlyEnd_reads.2, hplain]
    rfl
  rw [hbody, Option.map_some] at hbodyCalls
  have hcalls := h.calls
  rw [Option.some.inj hclient, Option.some.inj hbodyCalls] at hcalls
  obtain ⟨-, -, heq | ⟨v, w, -, hw, -⟩⟩ := (List.forall₂_cons.mp hcalls).1
  · exact absurd heq (by decide +kernel)
  · have hnone : (parse (lit "\x7b\"a\":\"b\"\x7d\x7d")).isSome = false := by decide +kernel
    rw [hw] at hnone
    cases hnone

end ArdurBot.Completions
