import ArdurBot.Completions.Translate

/-!
# The tool calls of an event sequence

An event belongs to the call that was begun last under its content index: by its start, or by its
end when none was begun. Of each call the parts that came for it are kept in their order: fragments
of its arguments and ends, with the arguments whole. A stream sends the ends that come before the
first fragment and every fragment; a plain completion has the last end and the fragments behind it.
-/

namespace ArdurBot.Completions

open List Utf16 Json Option

inductive Part where
  | delta (text : Text)
  | ended (toolCall : ToolCall)

structure SourceCall where
  contentIndex : ℕ
  parts : List Part

def SourceCall.add (part : Part) (call : SourceCall) : SourceCall :=
  { call with parts := call.parts ++ [part] }

/-- The call that was begun last under a content index. -/
def latest (contentIndex : ℕ) : List SourceCall → Option ℕ
  | [] => none
  | call :: rest =>
    match latest contentIndex rest with
    | some index => some (index + 1)
    | none => if call.contentIndex = contentIndex then some 0 else none

def takeEvent (calls : List SourceCall) : Event → List SourceCall
  | .toolcallStart contentIndex _ => calls ++ [⟨contentIndex, []⟩]
  | .toolcallDelta contentIndex delta =>
    match latest contentIndex calls with
    | none => calls
    | some index => calls.modify index (·.add (.delta delta))
  | .toolcallEnd contentIndex toolCall =>
    match latest contentIndex calls with
    | none => calls ++ [⟨contentIndex, [.ended toolCall]⟩]
    | some index => calls.modify index (·.add (.ended toolCall))
  | _ => calls

def callsOf (events : List Event) : List SourceCall := events.foldl takeEvent []

theorem latest_lt {calls : List SourceCall} {contentIndex index : ℕ}
    (h : latest contentIndex calls = some index) :
    index < calls.length := by
  induction calls generalizing index with
  | nil => cases h
  | cons call rest ih =>
    rw [latest] at h
    rw [length_cons]
    split at h
    next found hfound =>
      have hlt := ih hfound
      cases h
      omega
    next hnone =>
      split at h
      · cases h
        omega
      · cases h

theorem latest_concat (contentIndex : ℕ) (calls : List SourceCall) (call : SourceCall) :
    latest contentIndex (calls ++ [call]) =
      if call.contentIndex = contentIndex then some calls.length else latest contentIndex calls := by
  induction calls with
  | nil => rfl
  | cons first rest ih =>
    rw [cons_append, latest, ih]
    by_cases hcall : call.contentIndex = contentIndex
    · rw [if_pos hcall, if_pos hcall, length_cons]
    · rw [if_neg hcall, if_neg hcall, latest]

theorem latest_modify (contentIndex : ℕ) (calls : List SourceCall) (index : ℕ) (part : Part) :
    latest contentIndex (calls.modify index (·.add part)) = latest contentIndex calls := by
  induction calls generalizing index with
  | nil => cases index <;> rfl
  | cons call rest ih =>
    cases index with
    | zero => rfl
    | succ index => rw [modify_succ_cons, latest, ih, latest]

/-- The arguments of a finished call, as the code writes them. -/
def ToolCall.fullArgs (toolCall : ToolCall) : Text := (JsValue.obj toolCall.arguments).encode

def fragments : List Part → Text
  | [] => []
  | .delta text :: rest => text ++ fragments rest
  | .ended _ :: rest => fragments rest

def leading : List Part → List ToolCall
  | .ended toolCall :: rest => toolCall :: leading rest
  | _ => []

/-- The last end, with the fragments before it and those behind it. -/
structure Split where
  last : Option ToolCall
  before : Text
  after : Text

def Split.add (s : Split) : Part → Split
  | .delta text => { s with after := s.after ++ text }
  | .ended toolCall => ⟨some toolCall, s.before ++ s.after, []⟩

def splitEnd (parts : List Part) : Split := parts.foldl Split.add ⟨none, [], []⟩

def plainStep (arguments : Text) : Part → Text
  | .delta text => arguments ++ text
  | .ended toolCall => toolCall.fullArgs

section

variable (parts : List Part)

def plainArguments : Text := parts.foldl plainStep []

def hasDeltas : Bool :=
  parts.any fun
    | .delta _ => true
    | .ended _ => false

def streamedArguments : Text := (leading parts).flatMap ToolCall.fullArgs ++ fragments parts

/-- The fragments of a call are a JSON text of the arguments its end carries. -/
def Carried : Prop :=
  ∀ delta, .delta delta ∈ parts → ∀ toolCall, .ended toolCall ∈ parts →
    TextOf (.obj toolCall.arguments) (fragments parts)

/-- The call has no end; or no end before its first fragment and only spaces behind the last end; or
one end before the first fragment, with the arguments of the last, and no text between them. -/
def Settled : Prop :=
  match (splitEnd parts).last, leading parts with
  | none, _ => True
  | some _, [] => skipSpace (splitEnd parts).after = []
  | some last, [toolCall] => toolCall.fullArgs = last.fullArgs ∧ (splitEnd parts).before = []
  | some _, _ => False

end

theorem fragments_append (a b : List Part) : fragments (a ++ b) = fragments a ++ fragments b := by
  induction a with
  | nil => rfl
  | cons part rest ih => cases part <;> simp [fragments, ih]

theorem leading_append (parts : List Part) (part : Part) :
    leading (parts ++ [part]) = if hasDeltas parts then leading parts else leading parts ++ leading [part] := by
  induction parts with
  | nil => rfl
  | cons first rest ih =>
    cases first with
    | delta text => rfl
    | ended toolCall =>
      show toolCall :: leading (rest ++ [part]) = if hasDeltas rest then _ else _
      rw [ih]
      split <;> rfl

theorem plainArguments_concat (parts : List Part) (part : Part) :
    plainArguments (parts ++ [part]) = plainStep (plainArguments parts) part := by
  simp [plainArguments, foldl_append]

theorem streamedArguments_delta (parts : List Part) (text : Text) :
    streamedArguments (parts ++ [.delta text]) = streamedArguments parts ++ text := by
  have hleading : leading (parts ++ [.delta text]) = leading parts := by
    rw [leading_append]
    split
    · rfl
    · exact append_nil _
  rw [streamedArguments, hleading, fragments_append, streamedArguments, append_assoc]
  simp [fragments]

variable {parts : List Part} {s : Split} {a last toolCall : ToolCall} {rest : Text}

theorem fragments_of_not_hasDeltas (h : hasDeltas parts = false) : fragments parts = [] := by
  induction parts with
  | nil => rfl
  | cons part rest ih =>
    cases part with
    | delta text => cases h
    | ended toolCall => exact ih h

section

variable (parts : List Part)

theorem streamedArguments_ended (toolCall : ToolCall) : streamedArguments (parts ++ [.ended toolCall]) =
      streamedArguments parts ++ if hasDeltas parts then [] else toolCall.fullArgs := by
  rw [streamedArguments, leading_append, fragments_append, streamedArguments]
  cases h : hasDeltas parts with
  | true => simp [fragments]
  | false => simp [fragments, leading, fragments_of_not_hasDeltas h]

theorem split_fragments (s : Split) :
    (parts.foldl Split.add s).before ++ (parts.foldl Split.add s).after = s.before ++ s.after ++ fragments parts := by
  induction parts generalizing s with
  | nil => exact (append_nil _).symm
  | cons part rest ih =>
    rw [foldl_cons, ih]
    cases part <;> simp [Split.add, fragments]

theorem splitEnd_fragments : (splitEnd parts).before ++ (splitEnd parts).after = fragments parts :=
  split_fragments parts ⟨none, [], []⟩

theorem plain_split (s : Split) (text : Text)
    (h : text = s.last.elim (s.before ++ s.after) fun last => last.fullArgs ++ s.after) :
    parts.foldl plainStep text =
      (parts.foldl Split.add s).last.elim ((parts.foldl Split.add s).before ++ (parts.foldl Split.add s).after)
        fun last => last.fullArgs ++ (parts.foldl Split.add s).after := by
  induction parts generalizing s text with
  | nil => exact h
  | cons part rest ih =>
    refine ih (s.add part) (plainStep text part) ?_
    cases part with
    | ended toolCall => exact (append_nil _).symm
    | delta more =>
      rw [h]
      cases hlast : s.last <;> simp [plainStep, Split.add, hlast]

theorem plainArguments_split : plainArguments parts = (splitEnd parts).last.elim (fragments parts)
      fun last => last.fullArgs ++ (splitEnd parts).after := by
  rw [← splitEnd_fragments]
  exact plain_split parts ⟨none, [], []⟩ [] rfl

end

theorem mem_of_split_last (h : (parts.foldl Split.add s).last = some last) :
    .ended last ∈ parts ∨ s.last = some last := by
  induction parts generalizing s with
  | nil => exact .inr h
  | cons part rest ih =>
    obtain hmem | hlast := ih h
    · exact .inl (mem_cons_of_mem _ hmem)
    · cases part with
      | delta text => exact .inr hlast
      | ended toolCall =>
        cases hlast
        exact .inl mem_cons_self

theorem mem_of_last (h : (splitEnd parts).last = some last) : .ended last ∈ parts := by
  obtain hmem | hnone := mem_of_split_last h
  · exact hmem
  · cases hnone

theorem split_last_ne_none (h : .ended toolCall ∈ parts ∨ s.last = some toolCall) :
    (parts.foldl Split.add s).last ≠ none := by
  induction parts generalizing s toolCall with
  | nil =>
    obtain hmem | hlast := h
    · cases hmem
    · intro hnone
      rw [foldl_nil, hlast] at hnone
      cases hnone
  | cons part rest ih =>
    rw [foldl_cons]
    cases part with
    | ended other => exact ih (.inr rfl)
    | delta text =>
      obtain hmem | hlast := h
      · obtain heq | hmem := mem_cons.mp hmem
        · cases heq
        · exact ih (.inl hmem)
      · exact ih (.inr hlast)

theorem mem_of_mem_leading (h : toolCall ∈ leading parts) : .ended toolCall ∈ parts := by
  induction parts with
  | nil => cases h
  | cons part rest ih =>
    cases part with
    | delta text => cases h
    | ended first =>
      obtain heq | hmem := mem_cons.mp h
      · rw [heq]
        exact mem_cons_self
      · exact mem_cons_of_mem _ (ih hmem)

theorem eq_map_leading (h : ∀ text, .delta text ∉ parts) : parts = (leading parts).map .ended := by
  induction parts with
  | nil => rfl
  | cons part rest ih =>
    cases part with
    | delta text => exact absurd mem_cons_self (h text)
    | ended toolCall =>
      rw [leading, map_cons, ← ih fun text hmem => h text (mem_cons_of_mem _ hmem)]

theorem eq_of_fullArgs_append {b : ToolCall} (h : a.fullArgs ++ rest = b.fullArgs) : rest = [] := by
  have hparse : parse (a.fullArgs ++ rest) = some (JsValue.obj b.arguments).normal := by
    rw [h]
    exact parse_encode b.data
  have hblank := skipSpace_of_parse_append a.data hparse
  by_contra hne
  have hlast := congrArg getLast? h
  obtain ⟨u, hu⟩ : ∃ u, rest.getLast? = some u := ⟨_, getLast?_eq_some_getLast hne⟩
  have hspace : isSpace u :=
    dropWhile_eq_nil_iff.mp hblank u (mem_of_getLast? hu)
  rw [getLast?_append, hu, some_or, ToolCall.fullArgs, encode_obj, ← cons_append, getLast?_concat] at hlast
  rw [some.inj hlast] at hspace
  exact absurd hspace (by decide)

theorem not_sameText_append {text : Text} (hrest : skipSpace rest ≠ []) :
    SameText (a.fullArgs ++ rest) text ↔ a.fullArgs ++ rest = text := by
  refine ⟨fun h => ?_, .inl⟩
  obtain heq | ⟨v, w, hv, -, -⟩ := h
  · exact heq
  · exact absurd (skipSpace_of_parse_append a.data hv) hrest

/-- **The arguments of one call**: the client has those of the plain completion just if the call is
settled. -/
theorem sameText_iff (h : Carried parts) :
    SameText (streamedArguments parts) (plainArguments parts) ↔ Settled parts := by
  have hsplit := splitEnd_fragments parts
  rw [plainArguments_split, streamedArguments, Settled]
  cases hlast : (splitEnd parts).last with
  | none =>
    have hleading : leading parts = [] := by
      by_contra hne
      obtain ⟨toolCall, hmem⟩ := exists_mem_of_ne_nil _ hne
      exact split_last_ne_none (.inl (mem_of_mem_leading hmem)) hlast
    rw [hleading]
    exact ⟨fun _ => trivial, fun _ => .inl rfl⟩
  | some last =>
    have hmem := mem_of_last hlast
    rw [elim_some]
    match hleading : leading parts with
    | [] =>
      -- the first part is a fragment, so the fragments are a text of the arguments
      obtain ⟨text, htext⟩ : ∃ text, .delta text ∈ parts := by
        by_contra hnone
        have hparts := eq_map_leading fun text hin => hnone ⟨text, hin⟩
        rw [hparts, hleading] at hmem
        cases hmem
      have hcarried := h text htext last hmem
      show SameText (fragments parts) _ ↔ skipSpace (splitEnd parts).after = []
      constructor
      · intro hsame
        obtain heq | ⟨v, w, -, hw, -⟩ := hsame
        · obtain ⟨v, hv, -⟩ := hcarried
          rw [heq] at hv
          exact skipSpace_of_parse_append last.data hv
        · exact skipSpace_of_parse_append last.data hw
      · intro hblank
        exact hcarried.sameText ⟨_, (parse_encode_append last.data).trans (if_pos hblank), sameJson_normal _⟩
    | [toolCall] =>
      show SameText (toolCall.fullArgs ++ [] ++ fragments parts) _ ↔ _
      rw [append_nil]
      by_cases hdelta : ∃ text, .delta text ∈ parts
      · obtain ⟨text, htext⟩ := hdelta
        obtain ⟨v, hv, -⟩ := h text htext last hmem
        rw [not_sameText_append (skipSpace_of_parse hv), ← hsplit, ← append_assoc, append_cancel_right_eq]
        constructor
        · intro heq
          have hbefore := eq_of_fullArgs_append heq
          rw [hbefore, append_nil] at heq
          exact ⟨heq, hbefore⟩
        · intro hsettled
          rw [hsettled.1, hsettled.2, append_nil]
      · have hparts := eq_map_leading fun text hin => hdelta ⟨text, hin⟩
        rw [hleading] at hparts
        have hends : splitEnd parts = ⟨some toolCall, [], []⟩ := by rw [hparts]; rfl
        rw [hends] at hlast hsplit ⊢
        cases hlast
        rw [← hsplit]
        exact ⟨fun _ => ⟨rfl, rfl⟩, fun _ => .inl rfl⟩
    | first :: second :: more =>
      have hrest : ∀ rest, skipSpace (second.fullArgs ++ rest) ≠ [] := skipSpace_encode_append second.arguments
      show SameText (first.fullArgs ++ (second.fullArgs ++ more.flatMap ToolCall.fullArgs) ++
        fragments parts) _ ↔ False
      rw [iff_false, append_assoc, append_assoc, not_sameText_append (hrest _), ← hsplit]
      intro heq
      have hshort : first.fullArgs ++
          (second.fullArgs ++ (more.flatMap ToolCall.fullArgs ++ (splitEnd parts).before)) =
          last.fullArgs := by
        refine (append_left_inj (splitEnd parts).after).mp ?_
        simpa using heq
      have hnil := eq_of_fullArgs_append hshort
      exact hrest [] (by rw [append_nil, (append_eq_nil_iff.mp hnil).1]; rfl)

end ArdurBot.Completions
