import ArdurBot.Completions.Translate

/-!
# A Chat Completions client

What a client makes of the frames of a stream: it appends the fragments of the text and, for each
index, those of the arguments, and keeps the id and the name it was given last. A plain completion
is read from its body.
-/

namespace ArdurBot.Completions

open List Utf16 Json

structure Call where
  id : Text
  name : Text
  arguments : Text
deriving DecidableEq

structure Completion where
  text : Text
  calls : List Call
  finish : Option Text
  usage : Option JsValue

def SameCall (a b : Call) : Prop := a.id = b.id ∧ a.name = b.name ∧ SameText a.arguments b.arguments

structure Agree (a b : Completion) : Prop where
  text : a.text = b.text
  calls : List.Forall₂ SameCall a.calls b.calls
  finish : a.finish = b.finish
  usage : Option.Rel SameJson a.usage b.usage

def fieldsOf : JsValue → Fields
  | .obj fields => fields
  | _ => []

def itemsOf : JsValue → List JsValue
  | .arr items => items
  | _ => []

def field (value : JsValue) (key : String) : JsValue :=
  (getField (fieldsOf value) (lit key)).getD .null

def textOf (value : JsValue) (key : String) : Text := (readText (field value key)).getD []

/-- The JSON value of a frame. The last one has none. -/
def readFrame (frame : Text) : Option JsValue :=
  if (lit "data: ").isPrefixOf frame then parse ((frame.drop 6).take (frame.length - 8)) else none

structure Received where
  text : Text
  calls : List (ℕ × Call)
  finish : Option Text
  usage : Option JsValue

def takeCall (calls : List (ℕ × Call)) (item : JsValue) : List (ℕ × Call) :=
  match readNat (field item "index") with
  | none => calls
  | some index =>
    let call := (Dict.get calls index).getD ⟨[], [], []⟩
    let function := field item "function"
    Dict.set calls index
      { id := (readText (field item "id")).getD call.id
        name := (readText (field function "name")).getD call.name
        arguments := call.arguments ++ textOf function "arguments" }

def takeChoice (r : Received) (choice : JsValue) : Received :=
  let delta := field choice "delta"
  { r with
    text := r.text ++ textOf delta "content"
    calls := (itemsOf (field delta "tool_calls")).foldl takeCall r.calls
    finish := (readText (field choice "finish_reason")).or r.finish }

def takeChunk (r : Received) (chunk : JsValue) : Received :=
  let r := (itemsOf (field chunk "choices")).foldl takeChoice r
  { r with usage := (getField (fieldsOf chunk) (lit "usage")).or r.usage }

def takeFrame (r : Received) (frame : Text) : Received := (readFrame frame).elim r (takeChunk r)

def Received.completion (r : Received) : Completion :=
  ⟨r.text, r.calls.map Prod.snd, r.finish, r.usage⟩

def foldFrames (frames : List Text) : Completion :=
  (frames.foldl takeFrame ⟨[], [], none, none⟩).completion

def readCall (item : JsValue) : Call :=
  ⟨textOf item "id", textOf (field item "function") "name", textOf (field item "function") "arguments"⟩

def readBody (body : JsValue) : Completion :=
  let choice := (itemsOf (field body "choices")).headD .null
  let message := field choice "message"
  ⟨textOf message "content", (itemsOf (field message "tool_calls")).map readCall,
    readText (field choice "finish_reason"), getField (fieldsOf body) (lit "usage")⟩

/-! ### Reading the normal form

Writing a value as JSON and reading it back does not change what the client reads in it. -/

theorem getField_normalFields (fields : Fields) (key : Text) :
    getField (normalFields fields) key = (getField fields key).map JsValue.normal := by
  induction fields with
  | nil => rfl
  | cons entry fields ih =>
    obtain ⟨k, v⟩ := entry
    rw [normalFields, getField_cons, getField_cons, ih]
    split <;> rfl

theorem fieldsOf_normal (v : JsValue) : fieldsOf v.normal = normalFields (fieldsOf v) := by
  cases v with
  | num n => cases n <;> rfl
  | _ => rfl

theorem field_normal (v : JsValue) (key : String) : field v.normal key = (field v key).normal := by
  rw [field, field, fieldsOf_normal, getField_normalFields]
  cases getField (fieldsOf v) (lit key) <;> rfl

theorem normalItems_eq_map (items : List JsValue) : normalItems items = items.map JsValue.normal := by
  induction items with
  | nil => rfl
  | cons v items ih => rw [normalItems, ih, map_cons]

theorem itemsOf_normal (v : JsValue) : itemsOf v.normal = (itemsOf v).map JsValue.normal := by
  cases v with
  | num n => cases n <;> rfl
  | arr items => exact normalItems_eq_map items
  | _ => rfl

theorem readText_normal (v : JsValue) : readText v.normal = readText v := by
  cases v with
  | num n => cases n <;> rfl
  | _ => rfl

theorem readNat_normal (v : JsValue) : readNat v.normal = readNat v := by
  cases v with
  | num n =>
    cases n with
    | negZero => decide +kernel
    | _ => rfl
  | _ => rfl

theorem textOf_normal (v : JsValue) (key : String) : textOf v.normal key = textOf v key := by
  rw [textOf, textOf, field_normal, readText_normal]

theorem takeChoice_normal (r : Received) (choice : JsValue) :
    takeChoice r choice.normal = takeChoice r choice := by
  simp only [takeChoice, field_normal, textOf_normal, readText_normal, itemsOf_normal, foldl_map,
    takeCall, readNat_normal]
  rfl

theorem takeChunk_normal (r : Received) (chunk : JsValue) : takeChunk r chunk.normal =
      { (itemsOf (field chunk "choices")).foldl takeChoice r with
        usage := ((getField (fieldsOf chunk) (lit "usage")).map JsValue.normal).or
          ((itemsOf (field chunk "choices")).foldl takeChoice r).usage } := by
  simp only [takeChunk, field_normal, itemsOf_normal, foldl_map, takeChoice_normal, fieldsOf_normal,
    getField_normalFields]

section

variable {stamp : Stamp} {r : Received}

variable {chunk : Chunk} {index : ℕ}

theorem readFrame_sseFrame (h : chunk.toJs.Data) : readFrame (sseFrame chunk) = some chunk.toJs.normal := by
  have hframe : sseFrame chunk = lit "data: " ++ (chunk.toJs.encode ++ lit "\n\n") := append_assoc _ _ _
  have hlength : (sseFrame chunk).length - 8 = chunk.toJs.encode.length := by
    rw [hframe, length_append, length_append]
    show 6 + (_ + 2) - 8 = _
    omega
  have hdrop : (sseFrame chunk).drop 6 = chunk.toJs.encode ++ lit "\n\n" := by rw [hframe]; rfl
  rw [readFrame, if_pos, hlength, hdrop, take_left, parse_encode h]
  rw [hframe]
  exact isPrefixOf_iff_prefix.mpr (prefix_append _ _)

theorem nodup_lits {fields : Fields} (names : List String) (hkeys : keys fields = names.map lit)
    (h : (names.map lit).Nodup) : (keys fields).Nodup := hkeys ▸ h

theorem data_choice {choice : Choice} (h : (JsValue.obj choice.delta).Data) : choice.toJs.Data := by
  refine ⟨nodup_lits ["index", "delta", "finish_reason"] rfl (by decide +kernel), trivial, h, ?_, trivial⟩
  cases choice.finishReason <;> exact trivial

section

variable (h : ∀ choice ∈ chunk.choices, (JsValue.obj choice.delta).Data)
include h

theorem data_chunk : chunk.toJs.Data := by
  have hchoices : AllItems (fun _ => True) False (chunk.choices.map Choice.toJs) := by
    refine allItems_iff.mpr fun v hv => ?_
    obtain ⟨choice, hmem, rfl⟩ := mem_map.mp hv
    exact data_choice (h choice hmem)
  unfold Chunk.toJs
  rcases chunk.usage with _ | usage
  · exact ⟨nodup_lits ["id", "object", "created", "model", "choices"] rfl (by decide +kernel),
      trivial, trivial, trivial, trivial, hchoices, trivial⟩
  exact ⟨nodup_lits ["id", "object", "created", "model", "choices", "usage"] rfl (by decide +kernel),
    trivial, trivial, trivial, trivial, hchoices,
      ⟨nodup_lits ["prompt_tokens", "completion_tokens", "total_tokens"] rfl
        (by decide +kernel), trivial, trivial, trivial, trivial⟩, trivial⟩

theorem takeFrame_sseFrame : takeFrame r (sseFrame chunk) =
      { (chunk.choices.map Choice.toJs).foldl takeChoice r with
        usage := (chunk.usage.map fun usage => usage.toJs.normal).or
          ((chunk.choices.map Choice.toJs).foldl takeChoice r).usage } := by
  have hchoices : itemsOf (field chunk.toJs "choices") = chunk.choices.map Choice.toJs := by
    have hget : getField (fieldsOf chunk.toJs) (lit "choices") = some (.arr (chunk.choices.map Choice.toJs)) := rfl
    rw [field, hget]
    rfl
  have husage : getField (fieldsOf chunk.toJs) (lit "usage") = chunk.usage.map ChatUsage.toJs := by
    cases chunk with
    | mk stamp choices usage => cases usage <;> rfl
  rw [takeFrame, readFrame_sseFrame (data_chunk h), Option.elim_some, takeChunk_normal, hchoices, husage,
    Option.map_map]
  rfl

end

theorem takeFrame_delta {delta : Fields} (finish : Option Text) (h : (JsValue.obj delta).Data) :
    takeFrame r (sseFrame ⟨stamp, [⟨delta, finish⟩], none⟩) =
      { r with
        text := r.text ++ textOf (.obj delta) "content"
        calls := (itemsOf (field (.obj delta) "tool_calls")).foldl takeCall r.calls
        finish := finish.or r.finish } := by
  have hdata : ∀ choice ∈ [Choice.mk delta finish], (JsValue.obj choice.delta).Data := by
    intro choice hmem
    rw [mem_singleton.mp hmem]
    exact h
  rw [takeFrame_sseFrame hdata]
  cases finish <;> rfl

theorem takeFrame_text (value : Text) :
    takeFrame r (sseFrame ⟨stamp, [⟨[text "content" value], none⟩], none⟩) = { r with text := r.text ++ value } :=
  takeFrame_delta none ⟨nodup_lits ["content"] rfl (by decide +kernel), trivial, trivial⟩

theorem takeFrame_other {key : String} (value : Text) (hcontent : lit key ≠ lit "content")
    (hcalls : lit key ≠ lit "tool_calls") :
    takeFrame r (sseFrame ⟨stamp, [⟨[text key value], none⟩], none⟩) = r := by
  have hdata : (JsValue.obj [text key value]).Data := ⟨nodup_singleton (lit key), trivial, trivial⟩
  rw [takeFrame_delta none hdata]
  have hnone : ∀ other : String, lit key ≠ lit other → field (.obj [text key value]) other = .null := by
    intro other hne
    have hget : getField [text key value] (lit other) = none := by
      rw [text, getField_cons, if_neg hne]
      rfl
    show (getField [text key value] (lit other)).getD .null = .null
    rw [hget]
    rfl
  rw [textOf, hnone "content" hcontent, hnone "tool_calls" hcalls]
  show { r with text := r.text ++ [] } = r
  rw [append_nil]

theorem takeFrame_finish (finish : Text) :
    takeFrame r (sseFrame ⟨stamp, [⟨[], some finish⟩], none⟩) = { r with finish := some finish } := by
  have hdata : (JsValue.obj []).Data := ⟨nodup_nil, trivial⟩
  rw [takeFrame_delta (some finish) hdata]
  show { r with text := r.text ++ [], finish := some finish } = _
  rw [append_nil]

theorem takeFrame_done : takeFrame r doneFrame = r := by
  have hread : readFrame doneFrame = none := by decide +kernel
  rw [takeFrame, hread]
  rfl

def Received.update (r : Received) (index : ℕ) (change : Call → Call) : Received :=
  { r with calls := Dict.set r.calls index (change ((Dict.get r.calls index).getD ⟨[], [], []⟩)) }

theorem takeFrame_call (hindex : index < 2 ^ 53) (id name arguments : Text) :
    takeFrame r (sseFrame ⟨stamp, [⟨callDelta index id name arguments, none⟩], none⟩) =
      r.update index fun call => ⟨id, name, call.arguments ++ arguments⟩ := by
  rw [takeFrame_delta none]
  · show ({ r with text := r.text ++ [], calls := takeCall r.calls _ } : Received) = _
    rw [append_nil, takeCall]
    have hread : readNat (field (.obj [number "index" (ofNat index), text "id" id, text "type" (lit "function"),
        (lit "function", .obj [text "name" name, text "arguments" arguments])]) "index") = some index :=
      readNat_ofNat hindex
    rw [hread]
    rfl
  · exact ⟨nodup_lits ["tool_calls"] rfl (by decide +kernel),
      ⟨⟨nodup_lits ["index", "id", "type", "function"] rfl (by decide +kernel), trivial, trivial, trivial,
        ⟨nodup_lits ["name", "arguments"] rfl (by decide +kernel), trivial, trivial, trivial⟩, trivial⟩, trivial⟩,
      trivial⟩

theorem takeFrame_arguments (hindex : index < 2 ^ 53) (arguments : Text) :
    takeFrame r (sseFrame ⟨stamp, [⟨argumentsDelta index arguments, none⟩], none⟩) =
      r.update index fun call => { call with arguments := call.arguments ++ arguments } := by
  rw [takeFrame_delta none]
  · show ({ r with text := r.text ++ [], calls := takeCall r.calls _ } : Received) = _
    rw [append_nil, takeCall]
    have hread : readNat (field (.obj [number "index" (ofNat index),
        (lit "function", .obj [text "arguments" arguments])]) "index") = some index :=
      readNat_ofNat hindex
    rw [hread]
    rfl
  · exact ⟨nodup_lits ["tool_calls"] rfl (by decide +kernel),
      ⟨⟨nodup_lits ["index", "function"] rfl (by decide +kernel), trivial,
        ⟨nodup_lits ["arguments"] rfl (by decide +kernel), trivial, trivial⟩, trivial⟩, trivial⟩, trivial⟩

end

end ArdurBot.Completions
