import Mathlib.Algebra.BigOperators.Group.List.Basic
import ArdurBot.Lib.Run
import ArdurBot.Threads.LiveBlocks

/-!
# What live blocks keep

No tool call is dropped or shown twice, and the reply is what was said of it.
-/

namespace ArdurBot.LiveBlocks

open List Utf16 Option Bool

variable {casing : Casing} {blocks segments : List MessageBlock} {block : MessageBlock}
  {p : Progress} {update : LiveMessageUpdate} {counts : Text → Bool}

theorem dropLast_of_getLast? (h : blocks.getLast? = some block) : blocks.dropLast ++ [block] = blocks :=
  dropLast_append_getLast? block h

theorem tailProgress_eq_some : tailProgress blocks = some p ↔ blocks.getLast? = some (.progress p) := by
  unfold tailProgress
  split
  · next p' heq => simp [heq]
  · next hother =>
    constructor
    · exact nofun
    · exact fun heq => absurd heq (hother p)

/-! ### Counting tool calls -/

def MessageBlock.stepCount (counts : Text → Bool) : MessageBlock → ℕ
  | .steps taken => (taken.map fun step => if counts step.label then step.count else 0).sum
  | _ => 0

def MessageBlock.heldNames : MessageBlock → List Text
  | .progress p => p.pendingToolNames
  | _ => []

variable (casing counts)

/-- How many of these tool calls have labels that count. -/
def nameCount (toolNames : List Text) : ℕ :=
  toolNames.countP fun name => counts (humanizeToolName casing name)

def MessageBlock.toolCount (block : MessageBlock) : ℕ :=
  block.stepCount counts + nameCount casing counts block.heldNames

def toolCount (blocks : List MessageBlock) : ℕ :=
  (blocks.map (MessageBlock.toolCount casing counts)).sum

theorem toolCount_append (blocks segments : List MessageBlock) :
    toolCount casing counts (blocks ++ segments) = toolCount casing counts blocks +
      toolCount casing counts segments := by
  unfold toolCount
  rw [map_append, sum_append]

theorem toolCount_singleton (block : MessageBlock) :
    toolCount casing counts [block] = block.toolCount casing counts := by
  simp [toolCount]

theorem nameCount_append (names names' : List Text) :
    nameCount casing counts (names ++ names') = nameCount casing counts names + nameCount casing counts names' :=
  countP_append

variable {casing counts}

theorem toolCount_of_getLast? (h : blocks.getLast? = some block) :
    toolCount casing counts blocks = toolCount casing counts blocks.dropLast + block.toolCount casing counts := by
  rw [← toolCount_singleton, ← toolCount_append, dropLast_of_getLast? h]

theorem stepCount_appendToolStep (steps : List ToolStep) (toolName : Text) :
    (MessageBlock.steps (appendToolStep casing steps toolName)).stepCount counts =
      (MessageBlock.steps steps).stepCount counts + nameCount casing counts [toolName] := by
  have hone : nameCount casing counts [toolName] = if counts (humanizeToolName casing toolName) then 1 else 0 := by
    simp [nameCount, countP_singleton]
  rw [hone]
  unfold appendToolStep
  dsimp only
  split
  · next last hlast =>
    have hsteps := dropLast_append_getLast? last hlast
    split
    · next hlabel =>
      conv_rhs => rw [← hsteps]
      simp only [MessageBlock.stepCount, map_append, map_cons, map_nil, sum_append, sum_cons, sum_nil, hlabel]
      split <;> omega
    · simp [MessageBlock.stepCount]
  · simp [MessageBlock.stepCount]

section

variable (segments : List MessageBlock)

theorem toolCount_appendToolCallSegment (toolName : Text) :
    toolCount casing counts (appendToolCallSegment casing segments toolName) =
      toolCount casing counts segments + nameCount casing counts [toolName] := by
  unfold appendToolCallSegment
  split
  · next steps hlast =>
    have hstep := @stepCount_appendToolStep casing counts steps toolName
    rw [toolCount_append, toolCount_singleton, toolCount_of_getLast? hlast]
    unfold MessageBlock.toolCount MessageBlock.heldNames
    dsimp only
    omega
  · have hstep := @stepCount_appendToolStep casing counts [] toolName
    rw [toolCount_append, toolCount_singleton]
    unfold MessageBlock.toolCount MessageBlock.heldNames
    have hnone : (MessageBlock.steps []).stepCount counts = 0 := rfl
    have hnil : nameCount casing counts [] = 0 := rfl
    dsimp only
    omega

theorem toolCount_appendToolCallSegments (toolNames : List Text) :
    toolCount casing counts (appendToolCallSegments casing segments toolNames) =
      toolCount casing counts segments + nameCount casing counts toolNames := by
  induction toolNames generalizing segments with
  | nil => rfl
  | cons name toolNames ih =>
    have hcons := nameCount_append casing counts [name] toolNames
    rw [singleton_append] at hcons
    have hrest := ih (appendToolCallSegment casing segments name)
    have hfirst := @toolCount_appendToolCallSegment casing counts segments name
    unfold appendToolCallSegments at hrest ⊢
    rw [foldl_cons]
    omega

theorem toolCount_appendTextSegment (text : Text) :
    toolCount casing counts (appendTextSegment segments text) = toolCount casing counts segments := by
  unfold appendTextSegment
  split
  · rfl
  · split
    · next last hlast =>
      rw [toolCount_append, toolCount_singleton, toolCount_of_getLast? hlast]
      rfl
    · rw [toolCount_append, toolCount_singleton]
      rfl

end

theorem toolCount_replaceReply (blocks : List MessageBlock) (incoming : Text) :
    toolCount casing counts (replaceReply casing blocks incoming) = toolCount casing counts blocks := by
  have hkeep : ∀ kept block, toolCount casing counts (keepBlock casing kept block) =
      toolCount casing counts kept + block.toolCount casing counts := by
    intro kept block
    cases block with
    | text written => rfl
    | progress p =>
      have hsteps : (MessageBlock.progress p).toolCount casing counts = nameCount casing counts p.pendingToolNames :=
        Nat.zero_add _
      unfold keepBlock
      dsimp only
      split
      · rw [toolCount_append, toolCount_singleton, toolCount_appendToolCallSegments, hsteps]
        rfl
      · rw [toolCount_appendToolCallSegments, hsteps]
    | steps taken =>
      unfold keepBlock
      rw [toolCount_append, toolCount_singleton]
  have hfold : ∀ kept, toolCount casing counts (blocks.foldl (keepBlock casing) kept) =
      toolCount casing counts kept + toolCount casing counts blocks := by
    induction blocks with
    | nil => exact fun kept => rfl
    | cons block blocks ih =>
      intro kept
      rw [foldl_cons, ih, hkeep, ← singleton_append, toolCount_append, toolCount_singleton, Nat.add_assoc]
  have hkept := hfold []
  have hnil : toolCount casing counts [] = 0 := rfl
  unfold replaceReply
  dsimp only
  split
  · omega
  · rw [toolCount_append, toolCount_singleton]
    have hreply : (MessageBlock.progress ⟨incoming, false, false, true, []⟩).toolCount casing counts = 0 := rfl
    omega

variable {category : LiveBlockCategory} {tailText : Text} {toolNames : List Text}
  {isCarried isClosed streaming : Bool} {payload : Payload}

theorem toolCount_land :
    toolCount casing counts (land casing segments category tailText toolNames isCarried isClosed streaming) =
      toolCount casing counts segments + nameCount casing counts toolNames := by
  have hempty : endsSentence [] := rfl
  have hnil : nameCount casing counts [] = 0 := rfl
  unfold land
  split
  · rw [toolCount_appendToolCallSegments]
    congr 1
    cases category with
    | narration => exact toolCount_appendTextSegment segments tailText
    | reasoning | activity =>
      dsimp only
      split
      · rw [toolCount_append, toolCount_singleton]
        rfl
      · rfl
  · next hopen =>
    split
    · next htext =>
      have hnames : toolNames = [] := by
        by_contra hne
        simp [hne, htext, hempty] at hopen
      rw [hnames, hnil, Nat.add_zero]
    · rw [toolCount_append, toolCount_singleton]
      exact congrArg (toolCount casing counts segments + ·) (Nat.zero_add _)

section

variable (blocks : List MessageBlock)

section

variable (update : LiveMessageUpdate)

theorem toolCount_segmentsOf : toolCount casing counts (segmentsOf casing blocks update) +
        nameCount casing counts (pendingOf (openTail (tailProgress blocks) update) ++ carriedNames (tailProgress blocks) update) =
      toolCount casing counts blocks := by
  have hnil : nameCount casing counts [] = 0 := rfl
  rw [nameCount_append]
  unfold segmentsOf
  rcases htail : tailProgress blocks with _ | p
  · simp [openTail, carriedNames, isSealed, pendingOf, hnil]
  have hblocks := @toolCount_of_getLast? casing _ _ counts (tailProgress_eq_some.mp htail)
  have hheld : (MessageBlock.progress p).toolCount casing counts = nameCount casing counts p.pendingToolNames :=
    Nat.zero_add _
  have hclosed : (MessageBlock.progress { p with pendingToolNames := [], streaming := false }).toolCount casing counts = 0 := rfl
  unfold openTail carriedNames
  by_cases hsealed : isSealed (some p) update
  · simp only [hsealed, if_true, Bool.true_and]
    by_cases hearly : flushesEarly (some p) update
    · have hreserves : reservesReplyText (some p) update = false := by
        unfold flushesEarly at hearly
        unfold reservesReplyText
        simp only [and_eq_true, or_eq_true, decide_eq_true_eq] at hearly
        obtain ⟨⟨-, hcategory⟩, -⟩ := hearly
        obtain hcategory | hcategory := hcategory <;> simp [hcategory]
      simp only [hearly, hreserves, false_eq_true, if_false, if_true, Bool.not_true]
      rw [toolCount_appendToolCallSegments, toolCount_append, toolCount_singleton, hclosed]
      simp only [pendingOf, map_none, getD_none, hnil]
      omega
    · simp only [hearly, Bool.not_false, if_true, false_eq_true, if_false]
      simp only [pendingOf, map_none, getD_none, map_some, getD_some, hnil]
      split
      · rw [toolCount_appendTextSegment]
        omega
      · rw [toolCount_append, toolCount_singleton, hclosed]
        omega
  · have hreserves : reservesReplyText (some p) update = false := by simp [reservesReplyText, hsealed]
    simp only [hsealed, hreserves, false_eq_true, if_false, Bool.false_and]
    simp only [pendingOf, map_some, getD_some, hnil]
    omega

theorem toolCount_reduceTail : toolCount casing counts (reduceTail casing blocks update) =
      toolCount casing counts blocks + nameCount casing counts update.toolNames := by
  have hnil : nameCount casing counts [] = 0 := rfl
  unfold reduceTail
  dsimp only
  split
  · next htitle =>
    have hnone : update.toolNames = [] := by
      cases update with
      | progress payload => rfl
      | tool name => simp [isEmptyTitle, LiveMessageUpdate.textPayload] at htitle
    rw [hnone, hnil, Nat.add_zero]
    split
    · rw [toolCount_appendToolCallSegments]
      cases htail : tailProgress blocks with
      | none => simp [isEmptyTitle, htail, pendingOf] at htitle
      | some p =>
        rw [toolCount_of_getLast? (tailProgress_eq_some.mp htail)]
        exact congrArg (toolCount casing counts blocks.dropLast + ·) (Nat.zero_add _).symm
    · rfl
  · have hsegments := @toolCount_segmentsOf casing counts blocks update
    rw [toolCount_land, nameCount_append]
    omega

theorem toolCount_reduce :
    toolCount casing counts (reduceLiveMessageBlocks casing blocks update) =
      toolCount casing counts blocks + nameCount casing counts update.toolNames := by
  cases update with
  | tool name => exact toolCount_reduceTail blocks (.tool name)
  | progress payload =>
    unfold reduceLiveMessageBlocks
    dsimp only
    split
    · exact toolCount_replaceReply blocks payload.text
    · exact toolCount_reduceTail blocks (.progress payload)

end

/-! ### Names that are held -/

def Free : Prop := ∀ block ∈ blocks, block.heldNames = []

def OnlyLast : Prop := Free blocks.dropLast

end

section

variable (h : Free segments)
include h

theorem Free.concat (hblock : block.heldNames = []) : Free (segments ++ [block]) := by
  intro other hother
  obtain hother | hother := mem_append.mp hother
  · exact h other hother
  · rw [mem_singleton.mp hother]
    exact hblock

theorem Free.dropLast : Free segments.dropLast := fun other hother =>
  h other (dropLast_subset segments hother)

theorem Free.onlyLast : OnlyLast segments := h.dropLast

theorem Free.appendToolCallSegments (toolNames : List Text) :
    Free (appendToolCallSegments casing segments toolNames) := by
  induction toolNames generalizing segments with
  | nil => exact h
  | cons name toolNames ih =>
    refine ih ?_
    unfold appendToolCallSegment
    split
    · exact h.dropLast.concat rfl
    · exact h.concat rfl

theorem Free.appendTextSegment (text : Text) : Free (appendTextSegment segments text) := by
  unfold LiveBlocks.appendTextSegment
  split
  · exact h
  · split
    · exact h.dropLast.concat rfl
    · exact h.concat rfl

end

theorem free_replaceReply (blocks : List MessageBlock) (incoming : Text) :
    OnlyLast (replaceReply casing blocks incoming) := by
  have hkeep : ∀ kept, Free kept → ∀ block, Free (keepBlock casing kept block) := by
    intro kept hkept block
    cases block with
    | text written => exact hkept
    | progress p =>
      have hsteps := @Free.appendToolCallSegments casing _ hkept p.pendingToolNames
      unfold keepBlock
      dsimp only
      split
      · exact hsteps.concat rfl
      · exact hsteps
    | steps taken => exact hkept.concat rfl
  have hfold : ∀ kept, Free kept → Free (blocks.foldl (keepBlock casing) kept) := by
    induction blocks with
    | nil => exact fun kept hkept => hkept
    | cons block blocks ih => exact fun kept hkept => ih _ (hkeep kept hkept block)
  have hkept := hfold [] (forall_mem_nil _)
  unfold replaceReply
  split
  · exact hkept.onlyLast
  · exact (hkept.concat rfl).onlyLast

theorem free_land (h : Free segments) :
    OnlyLast (land casing segments category tailText toolNames isCarried isClosed streaming) := by
  unfold land
  split
  · refine (Free.appendToolCallSegments ?_ toolNames).onlyLast
    cases category with
    | narration => exact h.appendTextSegment tailText
    | reasoning | activity =>
      dsimp only
      split
      · exact h.concat rfl
      · exact h
  · split
    · exact h.onlyLast
    · unfold OnlyLast
      rwa [dropLast_concat]

section

variable (h : OnlyLast blocks) (update : LiveMessageUpdate)
include h

theorem OnlyLast.free_segmentsOf : Free (segmentsOf casing blocks update) := by
  unfold segmentsOf
  split
  · next htail =>
    rcases hlast : blocks.getLast? with _ | last
    · rw [getLast?_eq_none_iff.mp hlast]
      exact forall_mem_nil _
    rw [← dropLast_of_getLast? hlast]
    refine Free.concat h ?_
    cases last with
    | progress p =>
      rw [tailProgress_eq_some.mpr hlast] at htail
      cases htail
    | text | steps => rfl
  · split
    · exact Free.appendTextSegment h _
    · split
      · dsimp only
        split
        · exact (Free.concat h rfl).appendToolCallSegments _
        · exact Free.concat h rfl
      · exact h

theorem OnlyLast.reduceTail : OnlyLast (reduceTail casing blocks update) := by
  unfold LiveBlocks.reduceTail
  dsimp only
  split
  · split
    · exact (Free.appendToolCallSegments h _).onlyLast
    · exact h
  · exact free_land (h.free_segmentsOf update)

theorem OnlyLast.reduce : OnlyLast (reduceLiveMessageBlocks casing blocks update) := by
  cases update with
  | tool name => exact h.reduceTail (.tool name)
  | progress payload =>
    unfold reduceLiveMessageBlocks
    dsimp only
    split
    · exact free_replaceReply blocks payload.text
    · exact h.reduceTail (.progress payload)

end

theorem toolCount_reduceAll (updates : List LiveMessageUpdate) :
    toolCount casing counts (reduceAll casing updates) =
      nameCount casing counts (updates.flatMap LiveMessageUpdate.toolNames) := by
  induction updates using reverseRecOn with
  | nil => rfl
  | append_singleton updates update ih =>
    unfold reduceAll at ih ⊢
    rw [foldl_append, foldl_cons, foldl_nil, toolCount_reduce, ih, flatMap_append, nameCount_append,
      flatMap_singleton]

theorem onlyLast_reduceAll (updates : List LiveMessageUpdate) : OnlyLast (reduceAll casing updates) := by
  induction updates using reverseRecOn with
  | nil => exact forall_mem_nil _
  | append_singleton updates update ih =>
    unfold reduceAll at ih ⊢
    rw [foldl_append]
    exact ih.reduce update

/-- The steps that have the label, and the names that are held and will. -/
def shownCount (casing : Casing) (label : Text) (blocks : List MessageBlock) : ℕ :=
  (blocks.map (MessageBlock.stepCount fun other => other = label)).sum +
    (blocks.flatMap MessageBlock.heldNames).countP fun name => humanizeToolName casing name = label

theorem toolCount_eq (blocks : List MessageBlock) : toolCount casing counts blocks =
    (blocks.map (MessageBlock.stepCount counts)).sum +
      nameCount casing counts (blocks.flatMap MessageBlock.heldNames) := by
  induction blocks with
  | nil => rfl
  | cons block blocks ih =>
    have hcons : toolCount casing counts (block :: blocks) = block.toolCount casing counts +
        toolCount casing counts blocks := rfl
    rw [hcons, ih, map_cons, sum_cons, flatMap_cons, nameCount_append]
    unfold MessageBlock.toolCount
    omega

/-- **Tool calls are conserved**, those of each label and all of them, and only the last block holds
any back. -/
theorem liveBlocks_conserve (casing : Casing) (updates : List LiveMessageUpdate) :
    (∀ label, shownCount casing label (reduceAll casing updates) =
      (updates.flatMap LiveMessageUpdate.toolNames).countP fun name => humanizeToolName casing name = label) ∧
    ((reduceAll casing updates).map (MessageBlock.stepCount fun _ => true)).sum +
        ((reduceAll casing updates).flatMap MessageBlock.heldNames).length =
      (updates.flatMap LiveMessageUpdate.toolNames).length ∧
    ∀ block ∈ (reduceAll casing updates).dropLast, block.heldNames = [] := by
  refine ⟨fun label => ?_, ?_, onlyLast_reduceAll updates⟩
  · have hcount := @toolCount_reduceAll casing (fun other => other = label) updates
    rw [toolCount_eq] at hcount
    exact hcount
  · have hcount := @toolCount_reduceAll casing (fun _ => true) updates
    rw [toolCount_eq] at hcount
    simpa [nameCount] using hcount

/-! ### The reply -/

theorem replyText_append (blocks segments : List MessageBlock) :
    replyText (blocks ++ segments) = replyText blocks ++ replyText segments := flatMap_append

theorem replyText_singleton (block : MessageBlock) : replyText [block] = block.reply := by simp [replyText]

theorem replyText_of_getLast? (h : blocks.getLast? = some block) :
    replyText blocks = replyText blocks.dropLast ++ block.reply := by
  rw [← replyText_singleton, ← replyText_append, dropLast_of_getLast? h]

theorem reply_progress (p : Progress) :
    (MessageBlock.progress p).reply = if p.category = .narration then p.text else [] := by
  cases hactivity : p.activity <;> cases hreasoning : p.reasoning <;>
    simp [MessageBlock.reply, Progress.category, progressCategory, hactivity, hreasoning]

theorem replyText_appendToolCallSegments (segments : List MessageBlock) (toolNames : List Text) :
    replyText (appendToolCallSegments casing segments toolNames) = replyText segments := by
  induction toolNames generalizing segments with
  | nil => rfl
  | cons name toolNames ih =>
    refine (ih (appendToolCallSegment casing segments name)).trans ?_
    unfold appendToolCallSegment
    split
    · next steps hlast =>
      rw [replyText_append, replyText_singleton, replyText_of_getLast? hlast]
      rfl
    · rw [replyText_append, replyText_singleton]
      exact append_nil _

theorem replyText_appendTextSegment (segments : List MessageBlock) (text : Text) :
    replyText (appendTextSegment segments text) = replyText segments ++ text := by
  unfold appendTextSegment
  split
  · next htext => rw [htext, append_nil]
  · split
    · next last hlast =>
      rw [replyText_append, replyText_singleton, replyText_of_getLast? hlast, append_assoc]
      rfl
    · rw [replyText_append, replyText_singleton]
      rfl

theorem replyText_replaceReply (blocks : List MessageBlock) (incoming : Text) :
    replyText (replaceReply casing blocks incoming) = incoming := by
  have hkeep : ∀ kept block, replyText (keepBlock casing kept block) = replyText kept := by
    intro kept block
    cases block with
    | text written => rfl
    | progress p =>
      unfold keepBlock
      dsimp only
      split
      · next hreasoning =>
        rw [replyText_append, replyText_singleton, replyText_appendToolCallSegments]
        simp [MessageBlock.reply, hreasoning]
      · exact replyText_appendToolCallSegments kept p.pendingToolNames
    | steps taken =>
      unfold keepBlock
      rw [replyText_append, replyText_singleton]
      exact append_nil _
  have hfold : ∀ kept, replyText (blocks.foldl (keepBlock casing) kept) = replyText kept := by
    induction blocks with
    | nil => exact fun kept => rfl
    | cons block blocks ih => exact fun kept => (ih _).trans (hkeep kept block)
  unfold replaceReply
  split
  · next hempty =>
    rw [hfold, hempty]
    rfl
  · rw [replyText_append, hfold, replyText_singleton]
    rfl

theorem replyText_land :
    replyText (land casing segments category tailText toolNames isCarried isClosed streaming) =
      replyText segments ++ if category = .narration then tailText else [] := by
  unfold land
  split
  · rw [replyText_appendToolCallSegments]
    cases category with
    | narration => exact replyText_appendTextSegment segments tailText
    | reasoning | activity =>
      dsimp only
      split
      · rw [replyText_append, replyText_singleton]
        rfl
      · exact (append_nil _).symm
  · split
    · next htext => rw [htext, ite_self, append_nil]
    · rw [replyText_append, replyText_singleton]
      cases category <;> rfl

/-- The text of the open tail, if it is the reply's. -/
def openReply (tail : Option Progress) (update : LiveMessageUpdate) : Text :=
  ((openTail tail update).map fun p => (MessageBlock.progress p).reply).getD []

theorem replyText_segmentsOf (blocks : List MessageBlock) (update : LiveMessageUpdate) :
    replyText (segmentsOf casing blocks update) ++ openReply (tailProgress blocks) update = replyText blocks := by
  unfold segmentsOf openReply openTail
  rcases htail : tailProgress blocks with _ | p
  · simp [isSealed]
  have hblocks := replyText_of_getLast? (tailProgress_eq_some.mp htail)
  dsimp only
  by_cases hsealed : isSealed (some p) update
  · simp only [if_pos hsealed, map_none, getD_none, append_nil]
    split
    · next hreserves =>
      unfold reservesReplyText at hreserves
      simp only [and_eq_true, any_some, decide_eq_true_eq] at hreserves
      rw [replyText_appendTextSegment, hblocks, reply_progress, if_pos hreserves.2.1]
    · split
      · rw [replyText_appendToolCallSegments, replyText_append, replyText_singleton, hblocks]
        rfl
      · rw [replyText_append, replyText_singleton, hblocks]
        rfl
  · have hreserves : reservesReplyText (some p) update = false := by simp [reservesReplyText, hsealed]
    rw [hreserves, if_neg Bool.false_ne_true, if_neg hsealed, if_neg hsealed, map_some, getD_some, hblocks]

/-- What an update adds to the reply, if it is not the whole of it. -/
def LiveMessageUpdate.chunk : LiveMessageUpdate → Text
  | .progress payload => if payload.category = .narration then payload.delta.getD payload.text else []
  | .tool _ => []

theorem tailText_eq (tail : Option Progress) (update : LiveMessageUpdate) :
    (if categoryOf tail update = .narration then tailTextOf tail update else []) =
      openReply tail update ++ update.chunk := by
  have hsame : ∀ p, openTail tail update = some p → ∀ category, update.category = some category →
      p.category = category := by
    intro p hopen category hcategory
    unfold openTail at hopen
    split at hopen
    · cases hopen
    · next hsealed =>
      rw [hopen] at hsealed
      simpa [isSealed, hcategory] using hsealed
  unfold openReply
  cases update with
  | tool name =>
    unfold LiveMessageUpdate.chunk tailTextOf categoryOf
    cases hopen : openTail tail (.tool name) with
    | none => simp [LiveMessageUpdate.category]
    | some p => by_cases hp : p.category = .narration <;> simp [LiveMessageUpdate.category, reply_progress, hp]
  | progress payload =>
    have hcategory : categoryOf tail (.progress payload) = payload.category := rfl
    unfold LiveMessageUpdate.chunk tailTextOf
    rw [hcategory]
    cases hopen : openTail tail (.progress payload) with
    | none =>
      cases hdelta : payload.delta <;> by_cases hnarration :
        payload.category = .narration <;> simp [hdelta, hnarration]
    | some p =>
      have hp := hsame p hopen payload.category rfl
      cases hdelta : payload.delta <;> by_cases hnarration : payload.category = .narration <;>
        simp [reply_progress, hp, hdelta, hnarration]

theorem replyText_reduceTail (blocks : List MessageBlock) (update : LiveMessageUpdate) :
    replyText (reduceTail casing blocks update) =
      replyText blocks ++ if isEmptyTitle (tailProgress blocks) update then [] else update.chunk := by
  unfold reduceTail
  dsimp only
  split
  · rw [append_nil]
    split
    · next hactivity =>
      rw [replyText_appendToolCallSegments]
      cases htail : tailProgress blocks with
      | none => simp [htail] at hactivity
      | some p =>
        have hp : p.category = .activity := by simpa [htail] using (and_eq_true_iff.mp hactivity).2
        rw [replyText_of_getLast? (tailProgress_eq_some.mp htail), reply_progress, hp]
        exact (append_nil _).symm
    · rfl
  · rw [replyText_land, tailText_eq, ← append_assoc, replyText_segmentsOf]

def LiveMessageUpdate.isWhole : LiveMessageUpdate → Bool
  | .progress payload => payload.isWhole
  | .tool _ => false

theorem replyText_reduce (blocks : List MessageBlock) (h : update.isWhole = false) :
    replyText (reduceLiveMessageBlocks casing blocks update) =
      replyText blocks ++ if isEmptyTitle (tailProgress blocks) update then [] else update.chunk := by
  cases update with
  | tool name => exact replyText_reduceTail blocks (.tool name)
  | progress payload =>
    have hreplacing : isReplacing blocks payload = false := by
      unfold isReplacing
      rw [show payload.isWhole = false from h, Bool.false_and, Bool.false_and]
    unfold reduceLiveMessageBlocks
    dsimp only
    rw [hreplacing, if_neg Bool.false_ne_true]
    exact replyText_reduceTail blocks (.progress payload)

/-- The update loses nothing: it is no blank narration that meets held names. -/
def KeepsChunk (blocks : List MessageBlock) (update : LiveMessageUpdate) : Prop :=
  isEmptyTitle (tailProgress blocks) update → update.chunk = []

instance (blocks : List MessageBlock) (update : LiveMessageUpdate) : Decidable (KeepsChunk blocks update) :=
  inferInstanceAs (Decidable (_ → _))

theorem kept_eq_iff (blocks : List MessageBlock) (update : LiveMessageUpdate) :
    (if isEmptyTitle (tailProgress blocks) update then [] else update.chunk) = update.chunk ↔
      KeepsChunk blocks update := by
  unfold KeepsChunk
  split
  · next hempty => exact ⟨fun hchunk _ => hchunk.symm, fun hkeeps => (hkeeps hempty).symm⟩
  · next hopen => exact iff_of_true rfl fun hempty => absurd hempty hopen

theorem append_eq_append_iff_of_le {α : Type*} {xs xs' ys ys' : List α} (hxs : xs.length ≤ xs'.length)
    (hys : ys.length ≤ ys'.length) : xs ++ ys = xs' ++ ys' ↔ xs = xs' ∧ ys = ys' := by
  constructor
  · intro heq
    have hlength := congrArg length heq
    rw [length_append, length_append] at hlength
    exact append_inj heq (by omega)
  · rintro ⟨rfl, rfl⟩
    rfl

/-- What a run adds to the reply is all it was given exactly when no update of it loses its
chunk. -/
theorem replyText_after (blocks : List MessageBlock) (updates : List LiveMessageUpdate)
    (h : ∀ update ∈ updates, update.isWhole = false) :
    ∃ kept, replyText (Run.after (reduceLiveMessageBlocks casing) blocks updates) = replyText blocks ++ kept ∧
      kept.length ≤ (updates.flatMap LiveMessageUpdate.chunk).length ∧
      (kept = updates.flatMap LiveMessageUpdate.chunk ↔
        Run.Meets (reduceLiveMessageBlocks casing) KeepsChunk blocks updates) := by
  induction updates generalizing blocks with
  | nil => exact ⟨[], (append_nil _).symm, le_rfl, by simp [Run.Meets]⟩
  | cons update updates ih =>
    obtain ⟨kept, hreply, hlength, hiff⟩ :=
      ih (reduceLiveMessageBlocks casing blocks update) fun other hother => h other (mem_cons_of_mem _ hother)
    set first := if isEmptyTitle (tailProgress blocks) update then [] else update.chunk with hfirst
    have hfirstLength : first.length ≤ update.chunk.length := by
      rw [hfirst]
      split
      · exact Nat.zero_le _
      · exact le_rfl
    refine ⟨first ++ kept, ?_, ?_, ?_⟩
    · rw [← append_assoc, hfirst, ← replyText_reduce blocks (h update mem_cons_self)]
      exact hreply
    · rw [flatMap_cons, length_append, length_append]
      omega
    · rw [flatMap_cons, append_eq_append_iff_of_le hfirstLength hlength, hiff, hfirst, kept_eq_iff]
      rfl

theorem isReplacing_iff (h : payload.isWhole) :
    isReplacing blocks payload ↔ replyText blocks ≠ [] ∧ ¬ replyText blocks <+: payload.text := by
  simp [isReplacing, h, length_pos_iff, ← isPrefixOf_iff_prefix]

theorem chunk_of_isWhole (h : payload.isWhole) :
    (LiveMessageUpdate.progress payload).chunk = payload.text := by
  unfold Payload.isWhole at h
  simp only [and_eq_true, not_eq_true', isNone_iff_eq_none] at h
  simp [LiveMessageUpdate.chunk, Payload.category, progressCategory, h.1.1.1, h.1.2, h.2]

/-- The whole text becomes the reply: it replaces what is shown, or nothing is shown, or it is blank
and is shown already. -/
def Sets (blocks : List MessageBlock) (payload : Payload) : Prop :=
  (replyText blocks ≠ [] ∧ ¬ replyText blocks <+: payload.text) ∨
    if isEmptyTitle (tailProgress blocks) (.progress payload) then replyText blocks = payload.text
      else replyText blocks = []

theorem replyText_whole_iff (blocks : List MessageBlock) (h : payload.isWhole) :
    replyText (reduceLiveMessageBlocks casing blocks (.progress payload)) = payload.text ↔ Sets blocks payload := by
  unfold reduceLiveMessageBlocks Sets
  dsimp only
  by_cases hreplacing : isReplacing blocks payload
  · rw [if_pos hreplacing, replyText_replaceReply]
    exact iff_of_true rfl (.inl ((isReplacing_iff h).mp hreplacing))
  · rw [if_neg hreplacing, replyText_reduceTail, chunk_of_isWhole h, ← isReplacing_iff h, or_iff_right hreplacing]
    split
    · rw [append_nil]
    · exact append_left_eq_self

/-- **A whole text is the reply** exactly when it does not go on from what is shown, and **chunks
make up the reply** in their order exactly when no blank one meets held names. -/
theorem reply_live_iff (casing : Casing) (updates : List LiveMessageUpdate) : (∀ payload, payload.isWhole = true →
      (replyText (reduceAll casing (updates ++ [.progress payload])) = payload.text ↔
        Sets (reduceAll casing updates) payload)) ∧
    ((∀ update ∈ updates, update.isWhole = false) →
      (replyText (reduceAll casing updates) = updates.flatMap LiveMessageUpdate.chunk ↔
        Run.Meets (reduceLiveMessageBlocks casing) KeepsChunk [] updates)) := by
  constructor
  · intro payload hwhole
    have hlast : reduceAll casing (updates ++ [.progress payload]) =
        reduceLiveMessageBlocks casing (reduceAll casing updates) (.progress payload) := foldl_concat ..
    rw [hlast]
    exact replyText_whole_iff (reduceAll casing updates) hwhole
  · intro hchunks
    obtain ⟨kept, hreply, -, hiff⟩ := @replyText_after casing [] updates hchunks
    have hkept : replyText (reduceAll casing updates) = kept := hreply
    rw [hkept]
    exact hiff

def plainCasing : Casing := ⟨fun text => text, fun text => text⟩

def whole (text : Text) : Payload := ⟨none, text, false, false, true⟩

theorem reply_live_iff_hello :
    replyText (reduceAll plainCasing [.progress (whole (lit "Hello")), .progress (whole (lit "Bye"))]) = lit "Bye" ∧
      replyText (reduceAll plainCasing [.progress ⟨some (lit "Hi"), [], false, false, true⟩, .tool (lit "shell")]) = lit "Hi" :=
  ⟨((reply_live_iff plainCasing [.progress (whole (lit "Hello"))]).1 (whole (lit "Bye"))
    (by decide)).mpr (.inl (by decide)),
    ((reply_live_iff plainCasing [.progress ⟨some (lit "Hi"), [], false, false, true⟩, .tool (lit "shell")]).2
      (by decide)).mpr (by decide)⟩

/-- A whole text that goes on from what is shown is put after it. -/
theorem whole_text_doubled : (whole (lit "Hello world")).isWhole = true ∧
      replyText (reduceAll plainCasing [.progress (whole (lit "Hello")), .progress (whole (lit "Hello world"))]) ≠
        lit "Hello world" := by decide

end ArdurBot.LiveBlocks
