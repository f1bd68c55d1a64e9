import ArdurBot.Context.Assemble

/-!
# Context within its budgets

`cutAt_spec`: the cut is never before the exact one, and moves back from the grid only as far as the
newest message or a pair needs; `sliceAt_spec` says what a cut leaves of the messages.
-/

namespace ArdurBot.Context

open List Utf16 Json Steering Option Bool
open Learning (joinLines indexOf length_joinLines_cons)

variable {messages older newer : List Message} {message call result : Message}
  {start offset overflow step : ℕ} {budget : ℤ}

/-- The message lists end alike; the first that is kept may have lost its head. -/
def KeepsEnd (messages kept : List Message) (dropped : ℕ) : Prop :=
  (kept = [] ∧ characters messages ≤ dropped) ∨
    ∃ older first newer, messages = older ++ first :: newer ∧ characters older ≤ dropped ∧
      dropped - characters older < first.content.length ∧
      kept = { first with content := first.content.drop (dropped - characters older) } :: newer

@[simp] theorem characters_cons (message : Message) (messages : List Message) :
    characters (message :: messages) = message.content.length + characters messages := by
  simp [characters]

@[simp] theorem characters_append (older newer : List Message) :
    characters (older ++ newer) = characters older + characters newer := by
  simp [characters]

theorem sliceAt_of_le (h : start ≤ offset)
    (hfirst : ∀ m ∈ messages.head?, start < offset + m.content.length) :
    sliceAt start offset messages = messages := by
  induction messages generalizing offset with
  | nil => rfl
  | cons message messages ih =>
    have hlt : start < offset + message.content.length := hfirst message rfl
    simp only [sliceAt, hlt, h, if_true]
    rw [ih (by omega) fun m _ => by omega]

theorem sliceAt_spec (start offset : ℕ) (messages : List Message) (h : offset ≤ start) :
    KeepsEnd messages (sliceAt start offset messages) (start - offset) := by
  induction messages generalizing offset with
  | nil => exact .inl ⟨rfl, Nat.zero_le _⟩
  | cons message messages ih =>
    by_cases hstop : start < offset + message.content.length
    · right
      refine ⟨[], message, messages, rfl, Nat.zero_le _, ?_, ?_⟩
      · simp [characters]
        omega
      · have hrest : sliceAt start (offset + message.content.length) messages = messages :=
          sliceAt_of_le hstop.le fun m _ => by omega
        simp only [sliceAt, hstop, if_true, hrest, characters, map_nil, sum_nil, Nat.sub_zero]
        split
        · next hle =>
          have hzero : start - offset = 0 := by omega
          rw [hzero, drop_zero]
        · rfl
    · have hslice : sliceAt start offset (message :: messages) =
          sliceAt start (offset + message.content.length) messages := by
        simp only [sliceAt, hstop, if_false]
      have hdropped :
          start - offset = message.content.length +
          (start - (offset + message.content.length)) := by omega
      rw [hslice, hdropped]
      obtain ⟨hkept, hall⟩ | ⟨older, first, newer, rfl, hle, hlt, hkept⟩ :=
        ih (offset + message.content.length) (by omega)
      · left
        refine ⟨hkept, ?_⟩
        rw [characters_cons]
        omega
      · right
        refine ⟨message :: older, first, newer, rfl, ?_, ?_, ?_⟩
        · rw [characters_cons]
          omega
        · rw [characters_cons]
          omega
        · rw [hkept, characters_cons, Nat.add_sub_add_left]

theorem sliceAt_append (offset : ℕ) (older : List Message) (hstart : start ≤ offset + characters older)
    (hstop : start < offset + characters older + message.content.length) :
    ∃ front, sliceAt start offset (older ++ message :: newer) = front ++ message :: newer := by
  induction older generalizing offset with
  | nil =>
    refine ⟨[], ?_⟩
    rw [nil_append]
    apply sliceAt_of_le
    · simpa [characters] using hstart
    · intro m hm
      cases hm
      simpa [characters] using hstop
  | cons first older ih =>
    rw [characters_cons] at hstart hstop
    obtain ⟨front, hfront⟩ := ih (offset + first.content.length) (by omega) (by omega)
    simp only [cons_append, sliceAt, hfront]
    split
    · exact ⟨_ :: front, by rw [cons_append]⟩
    · exact ⟨front, rfl⟩

theorem aroundSpan_spec (span : Span) (hspan : span.start ≤ span.stop) (h : overflow ≤ start) :
    overflow ≤ aroundSpan overflow step start span ∧ aroundSpan overflow step start span ≤ start ∧
      (span.start < span.stop → overflow ≤ span.start → aroundSpan overflow step start span ≤ span.start) := by
  unfold aroundSpan
  split
  · next haround =>
    simp only [or_eq_true, and_eq_true, decide_eq_true_eq] at haround
    split
    · next hnear =>
      simp only [and_eq_true, decide_eq_true_eq] at hnear
      omega
    · omega
  · next haround =>
    simp only [or_eq_true, and_eq_true, decide_eq_true_eq] at haround
    omega

theorem aroundSpans_spec (spans : List Span) (hspans : ∀ span ∈ spans, span.start ≤ span.stop)
    (h : overflow ≤ start) :
    overflow ≤ spans.foldl (aroundSpan overflow step) start ∧ spans.foldl (aroundSpan overflow step) start ≤ start ∧
      ∀ span ∈ spans, span.start < span.stop → overflow ≤ span.start →
        spans.foldl (aroundSpan overflow step) start ≤ span.start := by
  induction spans generalizing start with
  | nil => exact ⟨h, le_rfl, by simp⟩
  | cons span spans ih =>
    rw [forall_mem_cons] at hspans
    obtain ⟨hover, hback, hspan⟩ := @aroundSpan_spec _ _ step span hspans.1 h
    obtain ⟨hover', hback', hrest⟩ := ih hspans.2 hover
    refine ⟨hover', hback'.trans hback, ?_⟩
    intro other hother hpos hkeeps
    obtain rfl | hother := mem_cons.mp hother
    · exact hback'.trans (hspan hpos hkeeps)
    · exact hrest other hother hpos hkeeps

theorem mem_spansFrom (hpair : isPair call result) (offset : ℕ) (older : List Message) :
    (⟨offset + characters older, offset + characters older + call.content.length + result.content.length⟩ : Span) ∈
      spansFrom offset (older ++ call :: result :: newer) := by
  induction older generalizing offset with
  | nil => simp [spansFrom, hpair, characters]
  | cons first older ih =>
    have hrest := ih (offset + first.content.length)
    rw [characters_cons, ← Nat.add_assoc, cons_append]
    obtain ⟨second, others, hothers⟩ : ∃ second others, older ++ call :: result :: newer = second :: others := by
      cases older with
      | nil | cons => exact ⟨_, _, rfl⟩
    rw [hothers] at hrest ⊢
    unfold spansFrom
    split
    · exact mem_cons_of_mem _ hrest
    · exact hrest

theorem le_of_mem_spansFrom (offset : ℕ) (messages : List Message) :
    ∀ span ∈ spansFrom offset messages, span.start ≤ span.stop := by
  fun_induction spansFrom offset messages with
  | case1 => simp
  | case2 => simp
  | case3 offset message next messages rest hpair ih =>
    rw [forall_mem_cons]
    exact ⟨by dsimp only; omega, ih⟩
  | case4 offset message next messages rest hpair ih => exact ih

theorem length_of_isPair (hpair : isPair call result) : 0 < call.content.length := by
  apply length_pos_of_ne_nil
  intro hnil
  unfold isPair at hpair
  rw [hnil] at hpair
  cases hpair

theorem cutAt_spec (messages : List Message) (hover : 0 < overflow)
    (htotal : overflow < characters messages) (hstep : 0 < step) :
    overflow ≤ cutAt messages overflow step ∧ cutAt messages overflow step < overflow + step ∧
      cutAt messages overflow step < characters messages ∧
      (∀ older newest, messages = older ++ [newest] → overflow ≤ characters older →
        cutAt messages overflow step ≤ characters older) ∧
      ∀ older call result newer, messages = older ++ call :: result :: newer → isPair call result →
        overflow ≤ characters older → cutAt messages overflow step ≤ characters older := by
  have hgrid : overflow ≤ (overflow + step - 1) / step * step ∧
      (overflow + step - 1) / step * step < overflow + step := by
    have hmod := Nat.div_add_mod (overflow + step - 1) step
    have hlt := Nat.mod_lt (overflow + step - 1) hstep
    rw [Nat.mul_comm] at hmod
    omega
  unfold cutAt
  dsimp only
  generalize (overflow + step - 1) / step * step = grid at hgrid
  have hfirst : overflow ≤ (if characters messages ≤ grid then overflow else grid) ∧
      (if characters messages ≤ grid then overflow else grid) < overflow + step ∧
      (if characters messages ≤ grid then overflow else grid) < characters messages := by
    split <;> omega
  generalize (if characters messages ≤ grid then overflow else grid) = first at hfirst
  generalize hnewest : characters messages - (messages.getLast?.map (·.content.length)).getD 0 = newestStart
  have hsecond : ∃ second, (if (decide (newestStart < first) && decide (overflow ≤ newestStart)) then
      if newestStart - overflow ≤ step then newestStart else overflow else first) = second ∧
      overflow ≤ second ∧ second ≤ first ∧ (overflow ≤ newestStart → second ≤ newestStart) := by
    refine ⟨_, rfl, ?_⟩
    split
    · next hback =>
      simp only [and_eq_true, decide_eq_true_eq] at hback
      split <;> omega
    · next hback =>
      simp only [and_eq_true, decide_eq_true_eq] at hback
      omega
  obtain ⟨second, hsecond, hover', hle, hnewestLe⟩ := hsecond
  rw [hsecond]
  obtain ⟨hspans, hspansLe, hpairs⟩ :=
    @aroundSpans_spec _ _ step (toolPairSpans messages) (le_of_mem_spansFrom 0 messages) hover'
  generalize (toolPairSpans messages).foldl (aroundSpan overflow step) second =
    third at hspans hspansLe hpairs
  rw [if_neg (by omega)]
  refine ⟨hspans, by omega, by omega, ?_, ?_⟩
  · rintro older newest rfl holder
    have hstart : newestStart = characters older := by
      rw [← hnewest, getLast?_append]
      simp [characters]
    have hnewestLe' := hnewestLe (by omega)
    omega
  · rintro older call result newer rfl hpair holder
    have hspan := hpairs _ (mem_spansFrom hpair 0 older)
    rw [Nat.zero_add] at hspan
    have hlength := length_of_isPair hpair
    exact hspan (by dsimp only; omega) holder

section

variable {kept : List Message} {dropped : ℕ} (h : KeepsEnd messages kept dropped)
include h

theorem KeepsEnd.text : kept.flatMap (·.content) = (messages.flatMap (·.content)).drop dropped := by
  have hlength : ∀ messages : List Message, (messages.flatMap (·.content)).length = characters messages := by
    intro messages
    simp [characters, length_flatMap]
  obtain ⟨rfl, hall⟩ | ⟨older, first, newer, rfl, hle, hlt, rfl⟩ := h
  · rw [drop_of_length_le (by rw [hlength]; exact hall)]
    rfl
  · have hdropped : dropped = (older.flatMap (·.content)).length + (dropped - characters older) := by
      rw [hlength]
      omega
    rw [flatMap_append, hdropped, ← drop_drop, drop_left, ← hdropped, flatMap_cons, flatMap_cons,
      drop_append_of_le_length hlt.le]

theorem KeepsEnd.characters_eq : characters kept = characters messages - dropped := by
  have htext := congrArg length h.text
  simpa [characters, length_flatMap, length_drop] using htext

end

/-- What is left of a history that is too long. -/
structure Bounded (messages kept : List Message) (budget step : ℕ) : Prop where
  keepsEnd : ∃ dropped, KeepsEnd messages kept dropped ∧ characters messages - budget ≤ dropped ∧
    dropped < characters messages - budget + step
  text : kept.flatMap (·.content) <:+ messages.flatMap (·.content)
  within : 0 < characters kept ∧ characters kept ≤ budget
  newest : ∀ older newest, messages = older ++ [newest] → characters messages - budget ≤ characters older →
    ∃ front, kept = front ++ [newest]
  pairs : ∀ older call result newer, messages = older ++ call :: result :: newer → isPair call result →
    characters messages - budget ≤ characters older → ∃ front, kept = front ++ call :: result :: newer

theorem boundMessages_spec (messages : List Message) (hbudget : 0 < budget)
    (hover : budget < characters messages) (step : ℚ) :
    Bounded messages (boundMessages messages budget step) budget.toNat (safeStep step) := by
  have hstep : 0 < safeStep step := by
    unfold safeStep
    omega
  have hoverflow : (characters messages - budget).toNat = characters messages - budget.toNat := by omega
  obtain ⟨hle, hlt, htotal, hnewest, hpairs⟩ := 
    cutAt_spec messages (show 0 < characters messages - budget.toNat by omega) (by omega) hstep
  have hkept : boundMessages messages budget step =
      sliceAt (cutAt messages (characters messages - budget.toNat) (safeStep step)) 0 messages := by
    unfold boundMessages sliceFrom
    rw [if_neg (not_le.mpr hbudget), if_neg (not_le.mpr hover), hoverflow]
  generalize cutAt messages (characters messages - budget.toNat) (safeStep step) =
    cut at hle hlt htotal hnewest hpairs hkept
  have hends := sliceAt_spec cut 0 messages (Nat.zero_le _)
  rw [Nat.sub_zero] at hends
  rw [hkept]
  refine ⟨⟨cut, hends, hle, hlt⟩, ?_, ?_, ?_, ?_⟩
  · rw [hends.text]
    exact drop_suffix _ _
  · rw [hends.characters_eq]
    omega
  · rintro older newest rfl holder
    have hcut := hnewest older newest rfl holder
    rw [characters_append, characters_cons] at htotal
    apply sliceAt_append 0 older
    · omega
    · simp only [characters, map_nil, sum_nil] at htotal ⊢
      omega
  · rintro older call result newer rfl hpair holder
    have hcut := hpairs older call result newer rfl hpair holder
    have hlength := length_of_isPair hpair
    exact sliceAt_append 0 older (by omega) (by omega)

theorem characters_boundMessages (messages : List Message) (hbudget : 0 ≤ budget) (step : ℚ) :
    (characters (boundMessages messages budget step) : ℤ) ≤ budget := by
  by_cases hpos : 0 < budget
  · by_cases hover : budget < characters messages
    · have hwithin := (boundMessages_spec messages hpos hover step).within.2
      omega
    · unfold boundMessages
      rw [if_neg (not_le.mpr hpos), if_pos (not_lt.mp hover)]
      exact not_lt.mp hover
  · unfold boundMessages
    rw [if_pos (not_lt.mp hpos)]
    simpa [characters] using hbudget

variable {name text : Text} {room : ℤ}

theorem length_frame (h : 2 * name.length + 7 ≤ budget) : (frame name text budget).length ≤ budget := by
  unfold frame
  split
  · simp only [length_nil]
    omega
  · simp only [length_append, length_take, opening, closing, length_cons, length_nil]
    omega

theorem length_linesWithin (room : ℤ) (lines : List Text) :
    ((((linesWithin false room lines).map fun line => line.length + 1).sum : ℕ) : ℤ) ≤ max 0 room := by
  induction lines generalizing room with
  | nil => simp [linesWithin]
  | cons line lines ih =>
    unfold linesWithin
    simp only [false_eq_true, if_false]
    split
    · simp
    · next hcost =>
      have hrest := ih (room - (line.length + 1))
      rw [map_cons, sum_cons]
      push_cast at hrest ⊢
      omega

theorem length_frameLines (h : 2 * name.length + 7 ≤ budget) :
    (frameLines name text budget).length ≤ budget := by
  unfold frameLines
  split
  · simp only [length_nil]
    omega
  · dsimp only
    split
    · simp only [length_nil]
      omega
    · next hkept =>
      have hroom : (opening name).length + (closing name).length = 2 * name.length + 7 := by
        simp only [opening, closing, length_append, length_cons, length_nil]
        omega
      have hlines : ((joinLines (linesWithin true (budget - (opening name).length - (closing name).length)
          ((escapePromptData text).splitOn newline))).length : ℤ) ≤ budget - (opening name).length -
            (closing name).length := by
        revert hkept
        generalize (budget - (opening name).length - (closing name).length : ℤ) = room
        intro hkept
        cases hlines : (escapePromptData text).splitOn newline with
        | nil =>
          rw [hlines] at hkept
          exact absurd rfl hkept
        | cons line lines =>
          rw [hlines] at hkept
          have hrest := length_linesWithin (room - line.length) lines
          unfold linesWithin at hkept ⊢
          simp only [if_true, add_zero] at hkept ⊢
          split at hkept
          · exact absurd rfl hkept
          · next hfits =>
            rw [if_neg hfits, length_joinLines_cons]
            push_cast at hrest ⊢
            omega
      simp only [length_append]
      push_cast
      omega

theorem least_le_of_parse {bounds : Bounds} {value : Option ℤ} {parsed : ℤ}
    (h : bounds.parse value = some parsed) : bounds.least ≤ parsed := by
  unfold Bounds.parse at h
  dsimp only at h
  split at h
  · next hwithin =>
    simp only [and_eq_true, decide_eq_true_eq] at hwithin
    exact some.inj h ▸ hwithin.1
  · cases h

theorem characters_required (budget : ℤ) (required : Option Message) (h : 200 ≤ budget) :
    (characters (required.map (requiredMessage budget)).toList : ℤ) ≤ requiredAllowance budget required := by
  have hmarker : resultTruncatedMarker.length = 82 := by decide
  unfold requiredAllowance
  rcases required with _ | required
  · simp [characters]
    omega
  simp only [map_some, toList_some, getD_some, characters, map_cons, map_nil, sum_cons, sum_nil,
    requiredMessage]
  split
  · simp only [length_append, length_take, length_cons, hmarker]
    omega
  · omega

@[simp] theorem characters_userMessage (content : Text) :
    characters (userMessage content) = content.length := by
  unfold userMessage characters
  split
  · next hnil => simp [hnil]
  · simp

variable {ι : Type*} {run : Turn ι} {budgets : Budgets ℤ}

/-- What the goal adds in front of the message. -/
def goalPrefix (run : Turn ι) : ℕ :=
  if ownText run run.goal = [] then 0 else (ownText run run.goal).length + 2

structure LayersOk (run : Turn ι) (budgets : Budgets ℤ) (context : TurnContext) : Prop where
  brief : context.layers.brief ≤ budgets.brief
  summary : context.layers.summary ≤ budgets.summary
  messages : context.layers.messages ≤ budgets.messages
  «recall» : context.layers.recall ≤ budgets.recall
  prompt : context.layers.message = context.prompt.length
  message : context.layers.message ≤ budgets.message + goalPrefix run
  history : characters context.history =
    context.layers.summary + context.layers.messages + context.layers.brief + context.layers.recall

theorem least_budgets {given : Budgets (Option ℤ)} (h : parseBudgets given = some budgets) :
    200 ≤ budgets.brief ∧ 200 ≤ budgets.summary ∧ 200 ≤ budgets.messages ∧ 200 ≤ budgets.recall := by
  unfold parseBudgets at h
  simp only [bind_eq_bind, bind_eq_some_iff] at h
  obtain ⟨_, -, brief, hbrief, summary, hsummary, messages, hmessages, recalled, hrecall, _, -, h⟩ := h
  cases h
  exact ⟨least_le_of_parse hbrief, least_le_of_parse hsummary, least_le_of_parse hmessages,
    least_le_of_parse hrecall⟩

theorem length_turnTeammates (budget : ℤ) (run : Turn ι) :
    (turnTeammates budget run).length ≤ max 0 (teammateAllowance budget run.requiredContext) := by
  unfold turnTeammates
  dsimp only
  split
  · have hname : (lit "teammate_directory").length = 18 := by decide
    exact le_max_of_le_right (length_frameLines (by omega))
  · exact le_max_left _ _

theorem contextOf_ok (needsRecall : Text → Text → Bool) (hbudgets : parseBudgets run.budgets = some budgets)
    (hprompt : ¬ budgets.message < ((turnPrompt run).length - (turnBase run).length + run.message.length : ℤ)) :
    LayersOk run budgets (contextOf needsRecall run budgets) := by
  obtain ⟨hbrief, hsummary, hmessages, hrecall⟩ := least_budgets hbudgets
  have hgroup : (lit "group_brief").length = 11 := by decide
  have hthread : (lit "thread_summary").length = 14 := by decide
  have hmemory : (lit "recalled_memory").length = 15 := by decide
  refine ⟨length_frame (by omega), length_frame (by omega), ?_, length_frame (by omega), rfl, ?_, ?_⟩
  · have hrequired := characters_required budgets.messages run.requiredContext hmessages
    have hteammates := length_turnTeammates budgets.messages run
    have hallowance : requiredAllowance budgets.messages run.requiredContext ≤ budgets.messages := min_le_right _ _
    have hkept : (characters (turnMessages budgets.messages run) : ℤ) ≤
        max 0 (budgets.messages - requiredAllowance budgets.messages run.requiredContext -
          (turnTeammates budgets.messages run).length) :=
      characters_boundMessages _ (le_max_left _ _) _
    unfold teammateAllowance at hteammates
    show ((_ + _ + _ : ℕ) : ℤ) ≤ _
    push_cast
    omega
  · have hbase : (turnBase run).length = goalPrefix run + run.message.length := by
      unfold turnBase goalPrefix
      dsimp only
      split
      · omega
      · rw [length_append, length_append]
        rfl
    show ((turnPrompt run).length : ℤ) ≤ _
    omega
  · simp only [contextOf, characters_append, characters_userMessage]
    omega

/-- History is cut to its budget at most a step before the exact cut, with the newest message and
each call with its result whole where the exact cut keeps them; and each layer of a turn is within
its budget, the message but for the goal in front of it. -/
theorem context_within_budgets (needsRecall : Text → Text → Bool) : (∀ messages budget step,
      (budget ≤ 0 → boundMessages messages budget step = []) ∧
      (0 < budget → characters messages ≤ budget → boundMessages messages budget step = messages) ∧
      (0 < budget → budget < characters messages →
        Bounded messages (boundMessages messages budget step) budget.toNat (safeStep step))) ∧
    ∀ (run : Turn ι) budgets context, parseBudgets run.budgets = some budgets → assembleTurnContext needsRecall run = .ok context →
      LayersOk run budgets context := by
  refine ⟨fun messages budget step => ⟨?_, ?_, ?_⟩, ?_⟩
  · intro hbudget
    rw [boundMessages, if_pos hbudget]
  · intro hbudget hwhole
    rw [boundMessages, if_neg (not_le.mpr hbudget), if_pos hwhole]
  · intro hbudget hover
    exact boundMessages_spec messages hbudget hover step
  · intro run budgets context hbudgets h
    unfold assembleTurnContext at h
    rw [hbudgets] at h
    dsimp only at h
    split at h
    · cases h
    · split at h
      · cases h
      · split at h
        · cases h
        · next hprompt =>
          injection h with h
          exact h ▸ contextOf_ok needsRecall hbudgets hprompt

/-- A message that fills its budget, behind a goal. -/
def goalTurn : Turn Unit where
  peerReadOnly := false
  instructions := []
  identity := none
  tools := []
  brief := none
  summary := none
  teammates := none
  goal := some (lit "goal")
  history := []
  requiredContext := none
  message := List.replicate 1000 (unit 'm')
  steering := []
  query := none
  sourceMessageId := none
  budgets := ⟨none, none, none, none, none, some 1000⟩
  «recall» := none

theorem goal_beyond_message_budget : ¬ ∀ (run : Turn Unit) budgets context, parseBudgets run.budgets = some budgets →
      assembleTurnContext (fun _ _ => false) run = .ok context → context.layers.message ≤ budgets.message := by
  intro hclaim
  have hbudgets : parseBudgets goalTurn.budgets = some ⟨64000, 6000, 4000, 12000, 6000, 1000⟩ := rfl
  have hprompt : (turnPrompt goalTurn).length = 1006 := by decide +kernel
  have hbase : (turnBase goalTurn).length = 1006 := by decide +kernel
  have hmessage : goalTurn.message.length = 1000 := length_replicate
  have hassembled : assembleTurnContext (fun _ _ => false) goalTurn =
      .ok (contextOf (fun _ _ => false) goalTurn ⟨64000, 6000, 4000, 12000, 6000, 1000⟩) := by
    have hstable : stableCharacters goalTurn + (ownText goalTurn goalTurn.goal).length = 4 := by decide +kernel
    unfold assembleTurnContext
    rw [hbudgets]
    dsimp only
    rw [hprompt, hbase, hmessage, if_neg (by omega), if_neg (by decide), if_neg (by decide)]
  have hwithin := hclaim goalTurn _ _ hbudgets hassembled
  unfold contextOf at hwithin
  dsimp only at hwithin
  omega

end ArdurBot.Context
