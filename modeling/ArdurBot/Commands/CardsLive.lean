import ArdurBot.Commands.CardsAgree

/-!
# Command cards while the events are received
-/

namespace ArdurBot.Commands

open List Utf16
open Option hiding any any_eq_true

def CommandEvent.commandIds (event : CommandEvent) : List Text :=
  match event.payload with
  | .card (.command _ (some block)) => [block.commandId]
  | .card (.resumed (some link)) => link.cards.toList.flatMap fun cards => [cards.1, cards.2]
  | _ => []

/-- No command of the events has the id of a resumed card of another, and no block says itself that
it resumes one. -/
def SeparateIds (events : List CommandEvent) : Prop :=
  ∀ event ∈ events, ∀ block ∈ event.block.toList, ∀ other ∈ events, ∀ commandId ∈ other.commandIds,
    block.commandId ≠ lit "resumed:" ++ commandId ∧ commandId ∉ block.resumedFrom.getD []

instance (events : List CommandEvent) : Decidable (SeparateIds events) := by
  unfold SeparateIds
  infer_instance

/-- The events name only these command ids, and their blocks keep apart from them. -/
structure Within (named : List Text) (events : List CommandEvent) : Prop where
  ids : ∀ event ∈ events, ∀ commandId ∈ event.commandIds, commandId ∈ named
  apart : ∀ event ∈ events, ∀ block, event.block = some block → ∀ commandId ∈ named,
    block.commandId ≠ lit "resumed:" ++ commandId ∧ commandId ∉ block.resumedFrom.getD []

theorem within_of_separateIds {events : List CommandEvent} (h : SeparateIds events) :
    Within (events.flatMap CommandEvent.commandIds) events where
  ids event hevent commandId hid := mem_flatMap.mpr ⟨event, hevent, hid⟩
  apart event hevent block hblock commandId hid := by
    obtain ⟨other, hother, hnamed⟩ := mem_flatMap.mp hid
    exact h event hevent block (by rw [hblock]; exact mem_singleton_self _) other hother commandId hnamed

theorem Within.append {named : List Text} {events events' : List CommandEvent}
    (h : Within named (events ++ events')) :
    Within named events where
  ids event hevent := h.ids event (mem_append_left _ hevent)
  apart event hevent := h.apart event (mem_append_left _ hevent)

/-- What the cards tell of the named command ids, the links tell too. -/
structure Reads (named : List Text) (cards : List Card) (links : List ToolResumedPayload) :
  Prop where
  resumedAway : ∀ card ∈ cards, ∀ commandId ∈ named, commandId ∈ card.block.resumedFrom.getD [] →
    ∃ link ∈ links, ∃ toCommandId, link.cards = some (commandId, toCommandId)
  joined : ∀ card ∈ cards, ∀ commandId ∈ named, card.id = resumedCommandMessageId commandId →
    ∃ link ∈ links, ∃ fromCommandId, link.cards = some (fromCommandId, commandId)

variable {card : Card} {shown : Option CommandBlock}

section

variable {named : List Text} {cards : List Card} {links : List ToolResumedPayload}

variable {a b commandId : Text} {link : ToolResumedPayload}

theorem commandJoins_resumedAway : (commandJoins links commandId).resumedAway ↔
      ∃ link ∈ links, ∃ toCommandId, link.cards = some (commandId, toCommandId) := by
  simp only [commandJoins, any_eq_true, Option.any_eq_true, decide_eq_true_eq]
  constructor
  · rintro ⟨link, hlink, ⟨fromId, toId⟩, hcards, rfl⟩
    exact ⟨link, hlink, toId, hcards⟩
  · rintro ⟨link, hlink, toId, hcards⟩
    exact ⟨link, hlink, _, hcards, rfl⟩

theorem commandJoins_joined : (commandJoins links commandId).joined ↔
      ∃ link ∈ links, ∃ fromCommandId, link.cards = some (fromCommandId, commandId) := by
  simp only [commandJoins, any_eq_true, Option.any_eq_true, decide_eq_true_eq]
  constructor
  · rintro ⟨link, hlink, ⟨fromId, toId⟩, hcards, rfl⟩
    exact ⟨link, hlink, fromId, hcards⟩
  · rintro ⟨link, hlink, fromId, hcards⟩
    exact ⟨link, hlink, _, hcards, rfl⟩

theorem Reads.readerJoins_eq (h : Reads named cards links) (hnamed : commandId ∈ named) :
    readerJoins ⟨cards, links⟩ commandId = commandJoins links commandId := by
  have haway : (messageJoins cards commandId).resumedAway → (commandJoins links commandId).resumedAway := by
    intro hmessages
    simp only [messageJoins, any_eq_true, Option.any_eq_true, decide_eq_true_eq] at hmessages
    obtain ⟨card, hcard, resumed, hresumed, hmem⟩ := hmessages
    refine commandJoins_resumedAway.mpr (h.resumedAway card hcard commandId hnamed ?_)
    rw [hresumed]
    exact hmem
  have hjoined : (messageJoins cards commandId).joined → (commandJoins links commandId).joined := by
    intro hmessages
    simp only [messageJoins, any_eq_true, decide_eq_true_eq] at hmessages
    obtain ⟨card, hcard, hid⟩ := hmessages
    exact commandJoins_joined.mpr (h.joined card hcard commandId hnamed hid)
  show CommandJoins.mk _ _ = _
  rw [Bool.or_eq_right_iff_imp.mpr haway, Bool.or_eq_right_iff_imp.mpr hjoined]

theorem resumedCardIds_congr {joins joins' : Text → CommandJoins}
    (h : ∀ fromCommandId toCommandId, link.cards = some (fromCommandId, toCommandId) →
      joins fromCommandId = joins' fromCommandId) : resumedCardIds link joins = resumedCardIds link joins' := by
  rw [resumedCardIds, resumedCardIds]
  cases hcards : link.cards with
  | none => rfl
  | some ids => simp only [bind_eq_bind, bind_some, h ids.1 ids.2 hcards]

theorem Reads.reduceLink_eq (h : Reads named cards links)
    (hnamed : ∀ fromCommandId toCommandId, link.cards = some (fromCommandId, toCommandId) → fromCommandId ∈ named) :
    reduceLink ⟨cards, links⟩ link = ⟨addLink cards links link, links ++ [link]⟩ := by
  rw [reduceLink, addLink, resumedCardIds_congr fun fromId toId hcards =>
    h.readerJoins_eq (hnamed fromId toId hcards)]
  cases resumedCardIds link (commandJoins links) with
  | none => rfl
  | some ids =>
    dsimp only
    split <;> rfl

/-! ### What a step leaves -/

theorem resumedMessageId_injective (h : resumedCommandMessageId a = resumedCommandMessageId b) : a = b :=
  append_cancel_left h

theorem eq_resumed_of_messageId (h : commandMessageId a = resumedCommandMessageId b) :
    a = lit "resumed:" ++ b := by
  have hsplit : resumedCommandMessageId b = lit "command:" ++ (lit "resumed:" ++ b) := by
    rw [resumedCommandMessageId, ← append_assoc]
    rfl
  rw [hsplit] at h
  exact append_cancel_left h

theorem commandCardId_eq_some {id : Text} {joins : CommandJoins}
    (h : commandCardId commandId joins = some id) :
    joins.joined ∧ id = resumedCommandMessageId commandId ∨ id = commandMessageId commandId := by
  rw [commandCardId] at h
  split at h
  · cases h
  · obtain rfl := some.inj h
    split
    · next hjoined => exact .inl ⟨hjoined, rfl⟩
    · exact .inr rfl

end

section

variable {parseDate : Text → Option ℤ} {named : List Text} {cards : List Card}
  {links : List ToolResumedPayload}

theorem mergeResumedCommand_resumedFrom (earlier later : CommandBlock) :
    (mergeResumedCommand parseDate earlier later).resumedFrom = earlier.resumedFrom.or later.resumedFrom := by
  rw [mergeResumedCommand]
  cases hresumed : earlier.resumedFrom with
  | none | some =>
    dsimp only
    split
    · rfl
    · split <;> rfl

variable {block : CommandBlock}

theorem nextCommandCard_resumedFrom {id : Text} {next : CommandBlock}
    (h : nextCommandCard parseDate id shown block = some next) :
    next.resumedFrom = block.resumedFrom ∨ ∃ earlier, shown = some earlier ∧
      next.resumedFrom = earlier.resumedFrom.or block.resumedFrom := by
  unfold nextCommandCard at h
  split at h
  · split at h
    · next earlier _ =>
      split at h
      · obtain rfl := some.inj h
        exact .inr ⟨earlier, rfl, mergeResumedCommand_resumedFrom earlier block⟩
      · obtain rfl := some.inj h
        exact .inl rfl
    · obtain rfl := some.inj h
      exact .inl rfl
  · cases h

theorem mem_setCard {id : Text} (h : card ∈ setCard cards id block) : card ∈ cards ∨ card = ⟨id, block⟩ := by
  rw [setCard] at h
  split at h
  · obtain ⟨other, hother, rfl⟩ := mem_map.mp h
    split
    · exact .inr rfl
    · exact .inl hother
  · exact (mem_append.mp h).imp_right mem_singleton.mp

theorem Reads.addBlock (h : Reads named cards links)
    (hapart : ∀ commandId ∈ named, block.commandId ≠ lit "resumed:" ++ commandId ∧
      commandId ∉ block.resumedFrom.getD []) :
    Reads named (addBlock parseDate cards (commandJoins links block.commandId) block) links := by
  rw [Commands.addBlock]
  split
  · exact h
  · next id hid =>
    split
    · exact h
    · next next hnext =>
      refine ⟨fun card hcard commandId hnamed hresumed => ?_, fun card hcard commandId hnamed hat => ?_⟩
      · obtain hold | rfl := mem_setCard hcard
        · exact h.resumedAway card hold commandId hnamed hresumed
        · dsimp only at hresumed
          obtain hsame | ⟨earlier, hshown, hmerged⟩ := nextCommandCard_resumedFrom hnext
          · rw [hsame] at hresumed
            exact absurd hresumed (hapart commandId hnamed).2
          · obtain ⟨other, hfind, rfl⟩ := map_eq_some_iff.mp hshown
            have hother := mem_of_find?_eq_some hfind
            rw [hmerged] at hresumed
            cases hearlier : other.block.resumedFrom with
            | none =>
              rw [hearlier, none_or] at hresumed
              exact absurd hresumed (hapart commandId hnamed).2
            | some resumed =>
              refine h.resumedAway other hother commandId hnamed ?_
              rw [hearlier] at hresumed ⊢
              exact hresumed
      · obtain hold | rfl := mem_setCard hcard
        · exact h.joined card hold commandId hnamed hat
        · obtain ⟨hjoined, rfl⟩ | rfl := commandCardId_eq_some hid
          · obtain rfl := resumedMessageId_injective hat
            exact commandJoins_joined.mp hjoined
          · exact absurd (eq_resumed_of_messageId hat) (hapart commandId hnamed).1

theorem Reads.addLink (h : Reads named cards links) (link : ToolResumedPayload) :
    Reads named (addLink cards links link) (links ++ [link]) := by
  have hmore : Reads named cards (links ++ [link]) := by
    refine ⟨fun card hcard commandId hnamed hresumed => ?_, fun card hcard commandId hnamed hat => ?_⟩
    · obtain ⟨other, hother, hcards⟩ := h.resumedAway card hcard commandId hnamed hresumed
      exact ⟨other, mem_append_left _ hother, hcards⟩
    · obtain ⟨other, hother, hcards⟩ := h.joined card hcard commandId hnamed hat
      exact ⟨other, mem_append_left _ hother, hcards⟩
  rw [Commands.addLink]
  split
  · exact hmore
  · next ids hids =>
    split
    · exact hmore
    · obtain ⟨⟨fromCommandId, toCommandId⟩, hcards, hrest⟩ := bind_eq_some_iff.mp hids
      obtain ⟨fromId, -, hmade⟩ := bind_eq_some_iff.mp hrest
      obtain rfl := some.inj hmade
      have hlink : link ∈ links ++ [link] := mem_append_right _ (mem_singleton_self _)
      refine ⟨fun card hcard commandId hnamed hresumed => ?_, fun card hcard commandId hnamed hat => ?_⟩
      · obtain ⟨other, hother, rfl⟩ := mem_map.mp hcard
        split at hresumed
        · rw [resumeCommandCard, getD_some, mem_eraseDups, mem_append] at hresumed
          obtain hold | hnew := hresumed
          · exact hmore.resumedAway other hother commandId hnamed hold
          · obtain rfl := mem_singleton.mp hnew
            exact ⟨link, hlink, toCommandId, hcards⟩
        · exact hmore.resumedAway other hother commandId hnamed hresumed
      · obtain ⟨other, hother, rfl⟩ := mem_map.mp hcard
        split at hat
        · obtain rfl := resumedMessageId_injective hat
          exact ⟨link, hlink, fromCommandId, hcards⟩
        · exact hmore.joined other hother commandId hnamed hat

end

/-! ### A reader of the recorded events -/

section

variable {parseDate : Text → Option ℤ} {named : List Text} {runId : Text} {store : CommandStore}

variable {block : CommandBlock} {next : CommandStore} {payload : CardPayload}

theorem project_single {event : CommandEvent} {type : CommandEventType}
    (hrun : event.runId = some block.runId)
    (hpayload : event.payload = .card (.command type (some block))) :
    (projectCommandBlocks parseDate [event] event.runId.toList).head? = some block := by
  have hcard : addBlock parseDate [] (commandJoins (emptyProjection.linksOf block.runId) block.commandId) block =
      [⟨commandMessageId block.commandId, block⟩] := rfl
  have hprojected : projectEvent parseDate emptyProjection event =
      { emptyProjection with
        seen := [event.id]
        recordedExecutions := [executionKey block.runId block.executionId]
        cards := [⟨commandMessageId block.commandId, block⟩] } := by
    have hnew : event.id ∉ emptyProjection.seen := not_mem_nil
    rw [projectEvent, if_neg hnew]
    simp only [hpayload, hrun, ne_eq, not_true_eq_false, if_false]
    rfl
  rw [projectCommandBlocks, projectEvents, insertionSort_cons, insertionSort_nil, orderedInsert_nil,
    foldl_cons, foldl_nil, hprojected, hrun]
  simp [emptyProjection, settleCommandBlock]

variable (parseDate named) in
/-- The reader of the recorded events shows the cards of the projection. -/
structure ReadsStore (store : CommandStore) : Prop where
  reduced : reduceEvents parseDate store.events =
    ⟨(project parseDate store.events).cards, recordedLinks store.events⟩
  reads : Reads named (project parseDate store.events).cards (recordedLinks store.events)

theorem reduceEvents_concat (events : List CommandEvent) (event : CommandEvent) :
    reduceEvents parseDate (events ++ [event]) =
      reduceCommandMessages parseDate (reduceEvents parseDate events) event := by
  rw [reduceEvents, foldl_append]
  rfl

theorem readsStore_record {id : Text} (hagrees : Agrees parseDate runId store)
    (hrecord : Recordable runId store id payload)
    (hevents : next.events = (recorded runId store id payload).events)
    (hwithin : Within named next.events) (h : ReadsStore parseDate named store) :
    ReadsStore parseDate named next := by
  rw [recorded] at hevents
  have hnew : id ∉ (project parseDate store.events).seen :=
    fun hseen => hrecord.fresh ((hagrees.seen id).mp hseen)
  have hlinks := linksOf_map hagrees.links
  rw [hevents] at hwithin
  have hlast : (⟨id, store.nextEventSeq, some runId, .card payload⟩ : CommandEvent) ∈ store.events ++
      [⟨id, store.nextEventSeq, some runId, .card payload⟩] := mem_append_right _ (mem_singleton_self _)
  have hids := hwithin.ids _ hlast
  have hapart := hwithin.apart _ hlast
  cases payload with
  | resumed link =>
    cases link with
    | none =>
      obtain ⟨hcards, -, -⟩ := @projectEvent_unlinked parseDate (project parseDate store.events)
        ⟨id, store.nextEventSeq, some runId, .card (.resumed none)⟩ hnew rfl
      refine ⟨?_, ?_⟩
      · rw [hevents, reduceEvents_concat, project_concat, recordedLinks_concat, hcards, h.reduced]
        exact congrArg (CommandMessages.mk _) (append_nil _).symm
      · rw [hevents, project_concat, recordedLinks_concat, hcards]
        exact (append_nil (recordedLinks store.events)).symm ▸ h.reads
    | some link =>
      obtain ⟨hcards, -, -⟩ := @projectEvent_resumed parseDate (project parseDate store.events)
        ⟨id, store.nextEventSeq, some runId, .card (.resumed (some link))⟩ runId link hagrees.cardIds hnew rfl rfl
      rw [hlinks] at hcards
      have hnamed : ∀ fromCommandId toCommandId, link.cards = some (fromCommandId, toCommandId) →
          fromCommandId ∈ named := by
        intro fromCommandId toCommandId hat
        refine hids fromCommandId ?_
        simp [CommandEvent.commandIds, hat]
      refine ⟨?_, ?_⟩
      · rw [hevents, reduceEvents_concat, project_concat, recordedLinks_concat, hcards, h.reduced]
        exact h.reads.reduceLink_eq hnamed
      · rw [hevents, project_concat, recordedLinks_concat, hcards]
        exact h.reads.addLink link
  | command type block =>
    rcases block with _ | block
    · exact absurd rfl (hrecord.parsed type)
    have hrun := hrecord.block type block rfl
    obtain ⟨hcards, -, -⟩ := @projectEvent_command parseDate (project parseDate store.events)
      ⟨id, store.nextEventSeq, some runId, .card (.command type (some block))⟩ type block hnew
        (congrArg some hrun.symm) rfl
    rw [hrun, hlinks] at hcards
    have hnamed : block.commandId ∈ named := hids block.commandId (mem_singleton_self _)
    refine ⟨?_, ?_⟩
    · rw [hevents, reduceEvents_concat, project_concat, recordedLinks_concat, hcards, h.reduced]
      rw [reduceCommandMessages]
      rw [project_single (congrArg some hrun.symm) rfl]
      show CommandMessages.mk _ _ = _
      rw [h.reads.readerJoins_eq hnamed]
      exact congrArg (CommandMessages.mk _) (append_nil _).symm
    · rw [hevents, project_concat, recordedLinks_concat, hcards]
      exact (append_nil (recordedLinks store.events)).symm ▸ h.reads.addBlock (hapart block rfl)

theorem materializeCommandEvent_events (store : CommandStore) (event : CommandEvent) :
    (materializeCommandEvent parseDate store event).events = store.events := by
  unfold materializeCommandEvent
  split
  · unfold materializeResumedCall
    split
    · rfl
    · dsimp only
      split
      · rfl
      · split <;> rfl
  · unfold materializeBlock
    dsimp only
    split
    · rfl
    · split
      · rfl
      · split <;> rfl
  · rfl

theorem apply_events (op : StoreOp) : (op.apply parseDate runId store).events = store.events ∨
      ∃ id payload, Recordable runId store id payload ∧
        (op.apply parseDate runId store).events = (recorded runId store id payload).events := by
  cases op with
  | otherMessage | otherEvent => exact .inl rfl
  | append id payload =>
    obtain hsame | hskipped | ⟨hrecord, hrecorded⟩ := @appendCardEvent_cases parseDate runId store id payload
    · exact .inl (congrArg CommandStore.events hsame)
    · exact .inl ((congrArg CommandStore.events hskipped).trans rfl)
    · exact .inr ⟨id, payload, hrecord,
        (congrArg CommandStore.events hrecorded).trans (materializeCommandEvent_events _ _)⟩

variable (parseDate named runId) in
theorem readsStore_after (ops : List StoreOp)
    (h : Within named (Run.after (StoreOp.apply parseDate runId) emptyStore ops).events) :
    ReadsStore parseDate named (Run.after (StoreOp.apply parseDate runId) emptyStore ops) := by
  induction ops using reverseRecOn with
  | nil =>
    refine ⟨rfl, fun card hcard => ?_, fun card hcard => ?_⟩
    · cases hcard
    · cases hcard
  | append_singleton ops op ih =>
    rw [Run.after_concat] at h ⊢
    have hagrees := agrees_after parseDate runId ops
    obtain hsame | ⟨id, payload, hrecord, hevents⟩ := apply_events op
    · rw [hsame] at h
      obtain ⟨hreduced, hreads⟩ := ih h
      exact ⟨hsame ▸ hreduced, hsame ▸ hreads⟩
    · have hbefore := h
      rw [hevents, recorded] at hbefore
      exact readsStore_record hagrees hrecord hevents h (ih hbefore.append)

/-! ### Cards of commands -/

theorem projectEvents_eq (h : Agrees parseDate runId store) :
    projectEvents parseDate store.events = project parseDate store.events := by
  rw [projectEvents, List.Pairwise.insertionSort_eq (h.ordered.imp le_of_lt)]
  rfl

theorem projectLink_legacy (projection : Projection) (runId : Text) (link : ToolResumedPayload) :
    (projectLink projection runId link).legacy =
      projection.legacy.filter fun entry => entry.1 ≠ executionKey runId link.fromCall := by
  rw [projectLink]
  split
  · rfl
  · split
    · rfl
    · split <;> rfl

theorem legacy_project {events : List CommandEvent}
    (h : ∀ event ∈ events, ∃ payload, event.payload = .card payload) :
    (project parseDate events).legacy = [] := by
  induction events using reverseRecOn with
  | nil => rfl
  | append_singleton events event ih =>
    have hbefore := ih fun other hother => h other (mem_append_left _ hother)
    obtain ⟨payload, hpayload⟩ := h event (mem_append_right _ (mem_singleton_self _))
    rw [project_concat, projectEvent]
    split
    · exact hbefore
    · simp only [hpayload]
      cases payload with
      | command type block =>
        dsimp only
        split
        · exact hbefore
        · split <;> exact hbefore
      | resumed link =>
        dsimp only
        split
        · rw [projectLink_legacy]
          exact filter_eq_nil_iff.mpr fun entry hentry => absurd (hbefore ▸ hentry) not_mem_nil
        · exact hbefore

/-- Each card has the id of the command that it shows. -/
def OwnCards (cards : List Card) : Prop :=
  ∀ card ∈ cards, card.id = commandMessageId card.block.commandId

def Shows (cards : List Card) (commandId : Text) : Prop :=
  ∃ card ∈ cards, card.block.commandId = commandId

variable {cards : List Card} {joins : CommandJoins}

/-- The block is of the same command, as far as it came. -/
def CommandBlock.Same (block other : CommandBlock) : Prop :=
  block.commandId = other.commandId ∧ block.runId = other.runId ∧ block.outcome = other.outcome

theorem same_mergeResumedCommand (earlier later : CommandBlock) :
    (mergeResumedCommand parseDate earlier later).Same later := by
  unfold mergeResumedCommand
  cases earlier.resumedFrom with
  | none | some =>
    dsimp only
    split
    · exact ⟨rfl, rfl, rfl⟩
    · split <;> exact ⟨rfl, rfl, rfl⟩

theorem same_nextCommandCard {id : Text} {next : CommandBlock}
    (h : nextCommandCard parseDate id shown block = some next) : next.Same block := by
  unfold nextCommandCard at h
  split at h
  · split at h
    · split at h
      · obtain rfl := some.inj h
        exact same_mergeResumedCommand _ block
      · obtain rfl := some.inj h
        exact ⟨rfl, rfl, rfl⟩
    · obtain rfl := some.inj h
      exact ⟨rfl, rfl, rfl⟩
  · cases h

theorem mem_setCard_self (cards : List Card) (id : Text) (block : CommandBlock) :
    ⟨id, block⟩ ∈ setCard cards id block := by
  rw [setCard]
  split
  · next hfound =>
    obtain ⟨card, hcard, hat⟩ := any_eq_true.mp hfound
    exact mem_map.mpr ⟨card, hcard, if_pos (of_decide_eq_true hat)⟩
  · exact mem_append_right _ (mem_singleton_self _)

theorem mem_setCard_of_ne {id : Text} (hcard : card ∈ cards) (hne : card.id ≠ id) (block : CommandBlock) :
    card ∈ setCard cards id block := by
  rw [setCard]
  split
  · exact mem_map.mpr ⟨card, hcard, if_neg hne⟩
  · exact mem_append_left _ hcard

/-- A card of the cards after the block is one of before, or the block's. -/
theorem mem_addBlock (h : card ∈ addBlock parseDate cards joins block) :
    card ∈ cards ∨ commandCardId block.commandId joins = some card.id ∧ card.block.Same block := by
  unfold addBlock at h
  split at h
  · exact .inl h
  · next id hid =>
    split at h
    · exact .inl h
    · next next hnext =>
      obtain hold | rfl := mem_setCard h
      · exact .inl hold
      · exact .inr ⟨hid, same_nextCommandCard hnext⟩

theorem mem_addBlock_of_ne (hcard : card ∈ cards) (hne : commandCardId block.commandId joins ≠ some card.id) :
    card ∈ addBlock parseDate cards joins block := by
  unfold addBlock
  split
  · exact hcard
  · next id hid =>
    split
    · exact hcard
    · exact mem_setCard_of_ne hcard (fun heq => hne (heq ▸ hid)) _

/-- The command of a block has its card after it. -/
theorem exists_mem_addBlock {id : Text} (hid : commandCardId block.commandId joins = some id) :
    ∃ card ∈ addBlock parseDate cards joins block, card.id = id ∧ card.block.commandId = block.commandId := by
  unfold addBlock
  rw [hid]
  dsimp only
  cases hnext : nextCommandCard parseDate id (findCard cards id) block with
  | some next => exact ⟨⟨id, next⟩, mem_setCard_self cards id next, rfl, (same_nextCommandCard hnext).1⟩
  | none =>
    -- Only a block of the command itself keeps its block away.
    rcases hshown : findCard cards id with _ | shown
    · rw [hshown] at hnext
      cases hnext
    obtain ⟨card, hfind, rfl⟩ := map_eq_some_iff.mp hshown
    refine ⟨card, mem_of_find?_eq_some hfind, by simpa using find?_some hfind, ?_⟩
    by_contra hne
    rw [hshown, nextCommandCard, if_pos (by simp [replacesCommandBlock, hne])] at hnext
    split at hnext
    · cases hnext
    · cases hnext

theorem addBlock_own {cards : List Card} (h : OwnCards cards) (block : CommandBlock) :
    OwnCards (addBlock parseDate cards (commandJoins [] block.commandId) block) ∧
      ∀ commandId, Shows (addBlock parseDate cards (commandJoins [] block.commandId) block) commandId ↔
        commandId = block.commandId ∨ Shows cards commandId := by
  have hid : commandCardId block.commandId (commandJoins [] block.commandId) =
      some (commandMessageId block.commandId) := rfl
  obtain ⟨shown, hshown, -, hcommand⟩ := @exists_mem_addBlock parseDate _ cards _ _ hid
  refine ⟨fun card hcard => ?_, fun commandId => ⟨?_, ?_⟩⟩
  · obtain hold | ⟨hat, hsame⟩ := mem_addBlock hcard
    · exact h card hold
    · rw [hsame.1]
      exact some.inj hat.symm
  · rintro ⟨card, hcard, rfl⟩
    obtain hold | ⟨-, hsame⟩ := mem_addBlock hcard
    · exact .inr ⟨card, hold, rfl⟩
    · exact .inl hsame.1
  · rintro (rfl | ⟨card, hcard, rfl⟩)
    · exact ⟨shown, hshown, hcommand⟩
    · by_cases hat : commandCardId block.commandId (commandJoins [] block.commandId) = some card.id
      · refine ⟨shown, hshown, hcommand.trans ?_⟩
        exact append_cancel_left ((some.inj hat).trans (h card hcard))
      · exact ⟨card, mem_addBlock_of_ne hcard hat, rfl⟩

variable (parseDate) in
/-- The cards of a store without links are those of the commands that its events name. -/
structure OwnStore (store : CommandStore) : Prop where
  own : OwnCards (project parseDate store.events).cards
  shows : ∀ commandId, Shows (project parseDate store.events).cards commandId ↔
    ∃ event ∈ store.events, ∃ block, event.block = some block ∧ block.commandId = commandId

theorem ownStore_record {id : Text} (hagrees : Agrees parseDate runId store)
    (hrecord : Recordable runId store id payload)
    (hevents : next.events = (recorded runId store id payload).events)
    (hunlinked : ∀ event ∈ next.events, event.link = none) (h : OwnStore parseDate store) :
    OwnStore parseDate next := by
  rw [recorded] at hevents
  have hnew : id ∉ (project parseDate store.events).seen :=
    fun hseen => hrecord.fresh ((hagrees.seen id).mp hseen)
  rw [hevents] at hunlinked
  have hlinks : recordedLinks store.events = [] :=
    filterMap_eq_nil_iff.mpr fun event hevent => hunlinked event (mem_append_left _ hevent)
  have hlast := hunlinked _ (mem_append_right _ (mem_singleton_self _))
  cases payload with
  | resumed link =>
    obtain rfl : link = none := hlast
    obtain ⟨hcards, -, -⟩ := @projectEvent_unlinked parseDate (project parseDate store.events)
      ⟨id, store.nextEventSeq, some runId, .card (.resumed none)⟩ hnew rfl
    refine ⟨?_, fun commandId => ?_⟩
    · rw [hevents, project_concat, hcards]
      exact h.own
    · rw [hevents, project_concat, hcards, h.shows]
      constructor
      · rintro ⟨event, hevent, hnames⟩
        exact ⟨event, mem_append_left _ hevent, hnames⟩
      · rintro ⟨event, hevent, block, hat, hnames⟩
        obtain hold | hlast := mem_append.mp hevent
        · exact ⟨event, hold, block, hat, hnames⟩
        · rw [mem_singleton.mp hlast] at hat
          cases hat
  | command type block =>
    rcases block with _ | block
    · exact absurd rfl (hrecord.parsed type)
    have hrun := hrecord.block type block rfl
    obtain ⟨hcards, -, -⟩ := @projectEvent_command parseDate (project parseDate store.events)
      ⟨id, store.nextEventSeq, some runId, .card (.command type (some block))⟩ type block hnew
        (congrArg some hrun.symm) rfl
    rw [hrun, linksOf_map hagrees.links, hlinks] at hcards
    obtain ⟨hown, hshows⟩ := @addBlock_own parseDate _ h.own block
    refine ⟨?_, fun commandId => ?_⟩
    · rw [hevents, project_concat, hcards]
      exact hown
    · rw [hevents, project_concat, hcards, hshows, h.shows]
      constructor
      · rintro (rfl | ⟨event, hevent, hnames⟩)
        · exact ⟨_, mem_append_right _ (mem_singleton_self _), block, rfl, rfl⟩
        · exact ⟨event, mem_append_left _ hevent, hnames⟩
      · rintro ⟨event, hevent, other, hat, hnames⟩
        obtain hold | hlast := mem_append.mp hevent
        · exact .inr ⟨event, hold, other, hat, hnames⟩
        · rw [mem_singleton.mp hlast] at hat
          obtain rfl := some.inj hat
          exact .inl hnames.symm

variable (parseDate runId) in
theorem ownStore_after (ops : List StoreOp)
    (h : ∀ event ∈ (Run.after (StoreOp.apply parseDate runId) emptyStore ops).events, event.link = none) :
    OwnStore parseDate (Run.after (StoreOp.apply parseDate runId) emptyStore ops) := by
  induction ops using reverseRecOn with
  | nil =>
    refine ⟨fun card hcard => ?_, fun commandId => ⟨?_, ?_⟩⟩
    · cases hcard
    · rintro ⟨card, hcard, -⟩
      cases hcard
    · rintro ⟨event, hevent, -⟩
      cases hevent
  | append_singleton ops op ih =>
    rw [Run.after_concat] at h ⊢
    have hagrees := agrees_after parseDate runId ops
    obtain hsame | ⟨id, payload, hrecord, hevents⟩ := apply_events op
    · rw [hsame] at h
      obtain ⟨hown, hshows⟩ := ih h
      exact ⟨hsame ▸ hown, hsame ▸ hshows⟩
    · have hbefore := h
      rw [hevents, recorded] at hbefore
      exact ownStore_record hagrees hrecord hevents h
        (ih fun event hevent => hbefore event (mem_append_left _ hevent))

/-- The rows of the store, the projection of the recorded events and a reader of them have the same
cards: the same ids in the same order, with the same blocks. Where no call is resumed, each command
of the run has one. -/
theorem cards_agree (parseDate : Text → Option ℤ) (runId : Text) (ops : List StoreOp)
    (hseparate : SeparateIds (Run.after (StoreOp.apply parseDate runId) emptyStore ops).events) :
    let store := Run.after (StoreOp.apply parseDate runId) emptyStore ops
    let cards := (projectEvents parseDate store.events).cards
    let live := (reduceEvents parseDate store.events).messages
    store.rows.map StoredCard.card = cards ∧ (store.rows.map StoredCard.seq).Pairwise (· < ·) ∧ live = cards ∧
      projectCommandBlocks parseDate store.events [] = live.map (fun card => settleCommandBlock card.block false) ∧
      (cards.map Card.id).Nodup ∧
      ((∀ event ∈ store.events, event.link = none) →
        (∀ card ∈ cards, card.id = commandMessageId card.block.commandId) ∧
          ∀ commandId, (∃ event ∈ store.events, ∃ block, event.block = some block ∧ block.commandId = commandId) ↔
            ∃! card, card ∈ cards ∧ card.block.commandId = commandId) := by
  intro store cards live
  have hagrees : Agrees parseDate runId store := agrees_after parseDate runId ops
  have hcards : cards = (project parseDate store.events).cards :=
    congrArg Projection.cards (projectEvents_eq hagrees)
  have hreads := readsStore_after parseDate _ runId ops (within_of_separateIds hseparate)
  have hlive : live = cards := by
    rw [hcards]
    exact congrArg CommandMessages.messages hreads.reduced
  have hnodup : (cards.map Card.id).Nodup := hcards ▸ hagrees.cardIds
  refine ⟨hagrees.rows.trans hcards.symm, hagrees.rowSeqs, hlive, ?_, hnodup, fun hunlinked => ?_⟩
  · rw [projectCommandBlocks, projectEvents_eq hagrees, legacy_project fun event hevent =>
      (hagrees.cardEvents event hevent).2,
      hlive, hcards]
    simp
  · obtain ⟨hown, hshows⟩ := ownStore_after parseDate runId ops hunlinked
    rw [← hcards] at hown
    refine ⟨hown, fun commandId => ?_⟩
    rw [← hshows, ← hcards]
    constructor
    · rintro ⟨card, hcard, hat⟩
      refine ⟨card, ⟨hcard, hat⟩, ?_⟩
      rintro other ⟨hother, hsame⟩
      have hid : other.id = card.id := by rw [hown other hother, hown card hcard, hsame, hat]
      exact inj_on_of_nodup_map hnodup hother hcard hid
    · rintro ⟨card, ⟨hcard, hat⟩, -⟩
      exact ⟨card, hcard, hat⟩

end

def shellBlock (commandId : Text) (fence : ℕ) (outcome : CommandOutcome) : CommandBlock where
  commandId
  runId := lit "run"
  attemptId := none
  executionId := commandId
  command := some (lit "ls")
  cwd := none
  computerId := none
  computer := none
  startedAt := none
  durationMs := none
  exitCode := none
  outcome
  stdout := none
  stderr := none
  error := none
  refusalId := none
  redacted := false
  truncated := false
  replayOf := none
  rerunDisabledReason := none
  fence := some fence
  resumedFrom := none

/-- A call is killed, another call resumes it, and the end of the first call comes late. -/
def resumedCall : List StoreOp :=
  [.append (lit "1") (.command .intent (some (shellBlock (lit "a") 1 .waiting))), .otherMessage,
    .append (lit "2") (.resumed (some ⟨lit "call", lit "again", some (lit "a", lit "b")⟩)),
    .append (lit "3") (.command .started (some (shellBlock (lit "b") 2 .running))),
    .append (lit "4") (.command .finished (some (shellBlock (lit "a") 1 .completed))),
    .append (lit "5") (.command .finished (some (shellBlock (lit "b") 2 .completed)))]

theorem cards_agree_resumedCall :
    let store := Run.after (StoreOp.apply (fun _ => none) (lit "run")) emptyStore resumedCall
    SeparateIds store.events ∧ store.rows.map StoredCard.card = (projectEvents (fun _ => none) store.events).cards ∧
      store.rows.map StoredCard.id = [lit "command:resumed:b"] := by
  have hseparate : SeparateIds
      (Run.after (StoreOp.apply (fun _ => none) (lit "run")) emptyStore resumedCall).events := by
    decide +kernel
  refine ⟨hseparate, (cards_agree _ _ resumedCall hseparate).1, ?_⟩
  decide +kernel

/-- A reader takes the card of the command `resumed:a` for the card of a call that resumed `a`. -/
theorem cards_disagree : let ops : List StoreOp :=
      [.append (lit "1") (.command .intent (some (shellBlock (lit "a") 1 .waiting))),
        .append (lit "2") (.command .intent (some (shellBlock (lit "resumed:a") 1 .waiting))),
        .append (lit "3") (.command .finished (some (shellBlock (lit "a") 1 .completed)))]
    let store := Run.after (StoreOp.apply (fun _ => none) (lit "run")) emptyStore ops
    projectCommandBlocks (fun _ => none) store.events [] ≠
      (reduceEvents (fun _ => none) store.events).messages.map fun card => settleCommandBlock card.block false := by
  decide +kernel

end ArdurBot.Commands
