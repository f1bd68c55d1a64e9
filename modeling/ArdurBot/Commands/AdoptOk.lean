import ArdurBot.Commands.Adopt

/-!
# Adopted cards are open

What an attempt adopts of a run's events is open in the projection of the same events, as long as no
link hands the card of an unfinished command to a finished one.
-/

namespace ArdurBot.Commands

open Utf16 Option Prod

section

variable {cards : List Card} {links : List ToolResumedPayload}

section

variable {link : ToolResumedPayload} {card : Card} (hcard : card ∈ cards)
include hcard

theorem mem_addLink_of_ne
    (hne : ∀ ids, link.cards = some ids → commandCardId ids.1 (commandJoins links ids.1) ≠ some card.id) :
    card ∈ addLink cards links link := by
  unfold addLink
  split
  · exact hcard
  · next resumed hresumed =>
    obtain ⟨ids, hids, hresumed⟩ := bind_eq_some_iff.mp hresumed
    obtain ⟨fromId, hid, hresumed⟩ := bind_eq_some_iff.mp hresumed
    obtain rfl := some.inj hresumed
    split
    · exact hcard
    · refine List.mem_map.mpr ⟨card, hcard, if_neg fun heq => hne ids hids ?_⟩
      rw [heq]
      exact hid

theorem resumed_mem_addLink {ids : Text × Text} (hids : link.cards = some ids)
    (hid : commandCardId ids.1 (commandJoins links ids.1) = some card.id)
    (hfresh : ∀ other ∈ cards, other.id ≠ resumedCommandMessageId ids.2) :
    ⟨resumedCommandMessageId ids.2, resumeCommandCard card.block ids.1⟩ ∈ addLink cards links link := by
  have hnone : (cards.any fun other => other.id = resumedCommandMessageId ids.2) = false := by simpa using hfresh
  simp only [addLink, resumedCardIds, hids, hid, bind_eq_bind, bind_some, pure_def, hnone,
    Bool.false_eq_true, if_false]
  exact List.mem_map.mpr ⟨card, hcard, if_pos rfl⟩

end

theorem commandJoins_concat {link : ToolResumedPayload} {commandId : Text}
    (h : ∀ ids, link.cards = some ids → ids.1 ≠ commandId ∧ ids.2 ≠ commandId) :
    commandJoins (links ++ [link]) commandId = commandJoins links commandId := by
  cases hcards : link.cards with
  | none => simp [commandJoins, hcards]
  | some ids => simp [commandJoins, hcards, (h ids hcards).1, (h ids hcards).2]

/-- Each command id has a card of its own. -/
theorem commandCardId_injective {a b id : Text} {joins joins' : CommandJoins} (ha : IsCommandId a)
    (hb : IsCommandId b)
    (h : commandCardId a joins = some id) (h' : commandCardId b joins' = some id) : a = b := by
  obtain ⟨-, rfl⟩ | rfl := commandCardId_eq_some h
  · obtain ⟨-, heq⟩ | heq := commandCardId_eq_some h'
    · exact resumedMessageId_injective heq
    · exact absurd ⟨a, (eq_resumed_of_messageId heq.symm).symm⟩ hb.2
  · obtain ⟨-, heq⟩ | heq := commandCardId_eq_some h'
    · exact absurd ⟨b, (eq_resumed_of_messageId heq).symm⟩ ha.2
    · exact List.append_cancel_left heq

end

section

variable {links : List ToolResumedPayload} {link : Option ToolResumedPayload}

/-- Entries whose cards stay are passed by. -/
theorem handOff_append {kept rest : List (Text × CommandBlock)}
    (hkept : ∀ entry ∈ kept,
      (commandCardId entry.2.commandId (commandJoins links entry.2.commandId)).isSome) (fuel : ℕ)
    (visited : List (Text × CommandBlock)) :
    handOff links link (kept.length + fuel) visited (kept ++ rest) =
      handOff links link fuel (visited ++ kept) rest := by
  induction kept generalizing visited with
  | nil => simp
  | cons entry kept ih =>
    have hlength : (entry :: kept).length + fuel = kept.length + fuel + 1 := by
      simp only [List.length_cons]
      omega
    rw [hlength, List.cons_append, handOff, if_pos (hkept entry List.mem_cons_self),
      ih fun other hother => hkept other (List.mem_cons_of_mem _ hother)]
    simp

theorem handOff_kept {kept : List (Text × CommandBlock)}
    (hkept : ∀ entry ∈ kept, (commandCardId entry.2.commandId (commandJoins links entry.2.commandId)).isSome)
    (visited : List (Text × CommandBlock)) {fuel : ℕ} (hfuel : kept.length ≤ fuel) :
    handOff links link fuel visited kept = some (visited ++ kept) := by
  obtain ⟨more, rfl⟩ := Nat.exists_eq_add_of_le hfuel
  have h := @handOff_append _ link _ [] hkept more visited
  rw [List.append_nil] at h
  rw [h]
  cases more <;> rfl

/-- An entry whose card the link hands off is filed last. -/
theorem handOff_handed {before after : List (Text × CommandBlock)} {entry handed : Text × CommandBlock}
    (hbefore : ∀ entry ∈ before, (commandCardId entry.2.commandId (commandJoins links entry.2.commandId)).isSome)
    (hafter : ∀ entry ∈ after ++ [handed],
      (commandCardId entry.2.commandId (commandJoins links entry.2.commandId)).isSome)
    (haway : commandCardId entry.2.commandId (commandJoins links entry.2.commandId) = none)
    (hlink : handedOff link entry.2 = some handed) (hkey : ∀ other ∈ before ++ after, other.1 ≠ handed.1) :
    handOff links link (2 * (before ++ entry :: after).length + 1) [] (before ++ entry :: after) =
      some (before ++ (after ++ [handed])) := by
  have hfuel : 2 * (before ++ entry :: after).length + 1 =
      before.length + (before.length + 2 * after.length + 2 + 1) := by
    simp only [List.length_append, List.length_cons]
    omega
  have hnone : (before.any fun other => other.1 = handed.1) = false := by
    simpa using fun key block hmem => hkey (key, block) (List.mem_append_left _ hmem)
  have hset : Dict.set after handed.1 handed.2 = after ++ [handed] := by
    refine if_neg ?_
    simpa using fun block hmem => hkey (handed.1, block) (List.mem_append_right _ hmem) rfl
  rw [hfuel, handOff_append hbefore, List.nil_append, handOff, if_neg (by simp [haway]), hlink]
  simp only [hnone, Bool.false_eq_true, if_false, hset]
  refine handOff_kept hafter before ?_
  simp only [List.length_append, List.length_singleton]
  omega

end

section

def commands (runId : Text) (events : List RunEvent) : List CommandEvent :=
  events.map (RunEvent.command runId)

/-- What is the same through a run, with the command ids that are finished at its end. -/
structure Recovery where
  parseDate : Text → Option ℤ
  runId : Text
  owner : Text → Text
  finishedIds : List Text

def Recovery.projection (r : Recovery) (events : List RunEvent) : Projection :=
  project r.parseDate (commands r.runId events)

variable {r : Recovery} {parseDate : Text → Option ℤ} {runId : Text} {events : List RunEvent}
  {event : RunEvent}

def namedIds (events : List RunEvent) : List Text := events.flatMap RunEvent.commandIds

theorem linksIn_concat : linksIn (events ++ [event]) = linksIn events ++ event.link.toList := by
  rw [linksIn, List.filterMap_append]
  cases hlink : event.link <;> simp [linksIn, hlink]

theorem mem_named_concat {commandId : Text} :
    commandId ∈ namedIds (events ++ [event]) ↔ commandId ∈ namedIds events ∨ commandId ∈ event.commandIds := by
  simp [namedIds]

theorem named_of_link {link : ToolResumedPayload} (h : link ∈ linksIn events) {cards : Text × Text}
    (hcards : link.cards = some cards) : cards.1 ∈ namedIds events ∧ cards.2 ∈ namedIds events := by
  obtain ⟨event, hevent, hlink⟩ := List.mem_filterMap.mp h
  have hids : event.commandIds = [cards.1, cards.2] := by
    unfold RunEvent.link at hlink
    split at hlink
    · next hpayload => simp [RunEvent.commandIds, RunEvent.command, CommandEvent.commandIds, hpayload, hlink, hcards]
    · cases hlink
  constructor
  · exact List.mem_flatMap.mpr ⟨event, hevent, by simp [hids]⟩
  · exact List.mem_flatMap.mpr ⟨event, hevent, by simp [hids]⟩

variable (r) in
/-- The cards of the events so far are of commands that they name, open unless their command is
finished. -/
structure Projected (events : List RunEvent) : Prop where
  links : (r.projection events).linksOf r.runId = linksIn events
  seen : ∀ id ∈ (r.projection events).seen, ∃ event ∈ events, event.id = id
  ended : (r.projection events).finishedRuns = []
  nodup : ((r.projection events).cards.map Card.id).Nodup
  ids : ∀ card ∈ (r.projection events).cards, ∃ commandId ∈ namedIds events,
    card.id = commandMessageId commandId ∨ card.id = resumedCommandMessageId commandId
  opens : ∀ card ∈ (r.projection events).cards,
    card.block.runId = r.runId ∧ (card.block.commandId ∉ r.finishedIds → isOpen card.block.outcome)

theorem projectEvent_other {projection : Projection} {event : CommandEvent}
    (hnew : event.id ∉ projection.seen)
    (hpayload : event.payload = .other ∨ ∃ executionId, event.payload = .shellCall executionId) :
    (projectEvent parseDate projection event).cards = projection.cards ∧
      (projectEvent parseDate projection event).links = projection.links ∧
      (projectEvent parseDate projection event).seen = event.id :: projection.seen ∧
      (projectEvent parseDate projection event).finishedRuns = projection.finishedRuns := by
  rw [projectEvent, if_neg hnew]
  obtain hpayload | ⟨executionId, hpayload⟩ := hpayload
  · simp only [hpayload, and_self]
  · simp only [hpayload]
    split
    · exact ⟨rfl, rfl, rfl, rfl⟩
    · split <;> exact ⟨rfl, rfl, rfl, rfl⟩

theorem projectEvent_ended {projection : Projection} {event : CommandEvent} {payload : CardPayload}
    (hpayload : event.payload = .card payload) :
    (projectEvent parseDate projection event).finishedRuns = projection.finishedRuns := by
  rw [projectEvent]
  split
  · rfl
  · simp only [hpayload]
    cases payload with
    | command type block =>
      dsimp only
      split
      · rfl
      · split <;> rfl
    | resumed link =>
      dsimp only
      split
      · rw [projectLink]
        split
        · rfl
        · split
          · rfl
          · split <;> rfl
      · rfl

theorem mem_addLink {cards : List Card} {links : List ToolResumedPayload}
    {link : ToolResumedPayload} {card : Card}
    (h : card ∈ addLink cards links link) : card ∈ cards ∨ ∃ ids, link.cards = some ids ∧
      card.id = resumedCommandMessageId ids.2 ∧ ∃ old ∈ cards, card.block = resumeCommandCard old.block ids.1 := by
  unfold addLink at h
  split at h
  · exact .inl h
  · next resumed hresumed =>
    split at h
    · exact .inl h
    · obtain ⟨old, hold, rfl⟩ := List.mem_map.mp h
      split
      · obtain ⟨ids, hids, hresumed⟩ := bind_eq_some_iff.mp hresumed
        obtain ⟨fromId, -, hresumed⟩ := bind_eq_some_iff.mp hresumed
        obtain rfl := some.inj hresumed
        exact .inr ⟨ids, hids, rfl, old, hold, rfl⟩
      · exact .inl hold

variable (parseDate) in
/-- The cards after a recorded event, under the links before it. -/
def cardsAfter (cards : List Card) (links : List ToolResumedPayload) : RunPayload → List Card
  | .card (.command _ (some block)) => addBlock parseDate cards (commandJoins links block.commandId) block
  | .card (.resumed (some link)) => addLink cards links link
  | _ => cards

theorem projectEvent_written (h : Projected r events)
    (hfresh : ∀ other ∈ events, other.id ≠ event.id) (hwritten : Written r.runId r.owner events event) :
    let before := r.projection events
    let after := r.projection (events ++ [event])
    after.cards = cardsAfter r.parseDate before.cards (linksIn events) event.payload ∧
      after.links = before.links ++ event.link.toList.map (fun link => (r.runId, link)) ∧
      after.seen = event.id :: before.seen ∧ after.finishedRuns = before.finishedRuns := by
  intro before after
  have hnew : (event.command r.runId).id ∉ before.seen := by
    intro hseen
    obtain ⟨other, hother, heq⟩ := h.seen event.id hseen
    exact hfresh other hother heq
  have hafter : after = projectEvent r.parseDate before (event.command r.runId) := by
    show project r.parseDate _ = _
    rw [commands, List.map_append, List.map_singleton, project_concat]
    rfl
  rw [hafter, RunEvent.link]
  cases hpayload : event.payload with
  | called executionId call | completed executionId name =>
    have hother : (event.command r.runId).payload = .other ∨ ∃ executionId,
        (event.command r.runId).payload = .shellCall executionId := by
      simp only [RunEvent.command, hpayload]
      split
      · exact .inr ⟨executionId, rfl⟩
      · exact .inl rfl
    obtain ⟨hcards, hlinks, hseen, hended⟩ := @projectEvent_other r.parseDate before _ hnew hother
    exact ⟨hcards, hlinks.trans (List.append_nil _).symm, hseen, hended⟩
  | card payload =>
    have hcommand : (event.command r.runId).payload = .card payload := by simp only [RunEvent.command, hpayload]
    have hended := @projectEvent_ended r.parseDate before _ _ hcommand
    have hwritten := hwritten.2
    rw [hpayload] at hwritten
    cases payload with
    | command type block =>
      rcases block with _ | block
      · cases hwritten
      obtain ⟨hrun, -, -⟩ := hwritten
      obtain ⟨hcards, hlinks, hseen⟩ :=
        @projectEvent_command r.parseDate _ _ _ _ hnew (congrArg some hrun.symm) hcommand
      rw [hcards, hrun, h.links]
      exact ⟨rfl, hlinks.trans (List.append_nil _).symm, hseen, hended⟩
    | resumed link =>
      cases link with
      | none => cases hwritten
      | some link =>
        obtain ⟨hcards, hlinks, hseen⟩ := @projectEvent_resumed r.parseDate _ _ _ _ h.nodup hnew rfl hcommand
        rw [hcards, h.links]
        exact ⟨rfl, hlinks, hseen, hended⟩

theorem mem_cardsAfter {cards : List Card} {links : List ToolResumedPayload} {card : Card}
    (h : card ∈ cardsAfter r.parseDate cards links event.payload)
    (hwritten : Written r.runId r.owner events event)
    (hopens : ∀ card ∈ cards, card.block.runId = r.runId ∧
      (card.block.commandId ∉ r.finishedIds → isOpen card.block.outcome))
    (hfinished : ∀ block, event.payload = .card (.command .finished (some block)) → block.commandId ∈ r.finishedIds) :
    card ∈ cards ∨ (∃ commandId ∈ event.commandIds,
        card.id = commandMessageId commandId ∨ card.id = resumedCommandMessageId commandId) ∧
      card.block.runId = r.runId ∧ (card.block.commandId ∉ r.finishedIds → isOpen card.block.outcome) := by
  have hwritten := hwritten.2
  unfold cardsAfter at h
  split at h
  · next type block hpayload =>
    rw [hpayload] at hwritten
    obtain ⟨hrun, -, hopen⟩ := hwritten
    obtain hold | ⟨hid, hsame⟩ := mem_addBlock h
    · exact .inl hold
    · right
      refine ⟨⟨block.commandId, ?_, ?_⟩, hsame.2.1.trans hrun, ?_⟩
      · simp [RunEvent.commandIds, CommandEvent.commandIds, RunEvent.command, hpayload]
      · exact (commandCardId_eq_some hid).symm.imp_right And.right
      · rw [hsame.1, hsame.2.2]
        intro hunfinished
        obtain rfl | hopen := hopen
        · exact absurd (hfinished block hpayload) hunfinished
        · exact hopen
  · next link hpayload =>
    obtain hold | ⟨ids, hids, hid, old, hold, hblock⟩ := mem_addLink h
    · exact .inl hold
    · right
      refine ⟨⟨ids.2, ?_, .inr hid⟩, ?_⟩
      · simp [RunEvent.commandIds, CommandEvent.commandIds, RunEvent.command, hpayload, hids]
      · rw [hblock]
        exact hopens old hold
  · exact .inl h

theorem nodup_cardsAfter {cards : List Card} (h : (cards.map Card.id).Nodup) (links : List ToolResumedPayload)
    (payload : RunPayload) : ((cardsAfter r.parseDate cards links payload).map Card.id).Nodup := by
  unfold cardsAfter
  split
  · exact nodup_addBlock h _ _
  · exact nodup_addLink h _ _
  · exact h

theorem projected_append (h : Projected r events) (hfresh : ∀ other ∈ events, other.id ≠ event.id)
    (hwritten : Written r.runId r.owner events event)
    (hfinished : ∀ block, event.payload = .card (.command .finished (some block)) → block.commandId ∈ r.finishedIds) :
    Projected r (events ++ [event]) := by
  obtain ⟨hcards, hlinks, hseen, hended⟩ := projectEvent_written h hfresh hwritten
  constructor
  case links =>
    have hold := h.links
    rw [linksIn_concat, Projection.linksOf, hlinks, List.filter_append, List.map_append]
    refine congrArg₂ _ hold ?_
    cases event.link <;> simp
  case seen =>
    rw [hseen]
    intro id hid
    obtain rfl | hold := List.mem_cons.mp hid
    · exact ⟨event, by simp⟩
    · obtain ⟨other, hother, heq⟩ := h.seen id hold
      exact ⟨other, List.mem_append_left _ hother, heq⟩
  case ended => exact hended.trans h.ended
  case nodup =>
    rw [hcards]
    exact nodup_cardsAfter h.nodup _ _
  case ids =>
    rw [hcards]
    intro card hcard
    obtain hold | ⟨⟨commandId, hid, heq⟩, -⟩ := mem_cardsAfter hcard hwritten h.opens hfinished
    · obtain ⟨commandId, hid, heq⟩ := h.ids card hold
      exact ⟨commandId, mem_named_concat.mpr (.inl hid), heq⟩
    · exact ⟨commandId, mem_named_concat.mpr (.inr hid), heq⟩
  case opens =>
    rw [hcards]
    intro card hcard
    obtain hold | ⟨-, hopen⟩ := mem_cardsAfter hcard hwritten h.opens hfinished
    · exact h.opens card hold
    · exact hopen

/-! ### What is adopted -/

variable (r) in
/-- The entry is of a command that is not finished, and whose card shows a command that is not. -/
structure OpenEntry (events : List RunEvent) (entry : Text × CommandBlock) : Prop where
  call : entry.1 = r.owner entry.2.commandId
  named : entry.2.commandId ∈ namedIds events
  unfinished : entry.2.commandId ∉ r.finishedIds
  card : ∃ card ∈ (r.projection events).cards, card.block.commandId ∉ r.finishedIds ∧
    commandCardId entry.2.commandId (commandJoins (linksIn events) entry.2.commandId) = some card.id

theorem OpenEntry.isSome {entry : Text × CommandBlock} (h : OpenEntry r events entry) :
    (commandCardId entry.2.commandId (commandJoins (linksIn events) entry.2.commandId)).isSome := by
  obtain ⟨card, -, -, hid⟩ := h.card
  exact isSome_of_eq_some hid

section

variable {entry : Text × CommandBlock} (hprojected : Projected r events)
  (hfresh : ∀ other ∈ events, other.id ≠ event.id) (hwritten : Written r.runId r.owner events event)
  (hids : ∀ commandId ∈ namedIds events, IsCommandId commandId)
include hprojected hfresh hwritten hids

/-- An entry stays open, unless its card is handed off. -/
theorem OpenEntry.append (h : OpenEntry r events entry)
    (hstays : ∀ link ids, event.payload = .card (.resumed (some link)) → link.cards = some ids →
      ids.1 ≠ entry.2.commandId) :
    OpenEntry r (events ++ [event]) entry where
  call := h.call
  named := mem_named_concat.mpr (.inl h.named)
  unfinished := h.unfinished
  card := by
    obtain ⟨card, hcard, hunfinished, hid⟩ := h.card
    obtain ⟨hspelled, hwritten'⟩ := hwritten
    rw [(projectEvent_written hprojected hfresh ⟨hspelled, hwritten'⟩).1, linksIn_concat, RunEvent.link]
    cases hpayload : event.payload with
    | called executionId call | completed executionId name =>
      rw [toList_none, List.append_nil]
      exact ⟨card, hcard, hunfinished, hid⟩
    | card payload =>
      rw [hpayload] at hwritten'
      cases payload with
      | command type block =>
        rcases block with _ | block
        · cases hwritten'
        dsimp only [cardsAfter]
        rw [toList_none, List.append_nil]
        by_cases hsame : commandCardId block.commandId
            (commandJoins (linksIn events) block.commandId) = some card.id
        · have hblock : IsCommandId block.commandId := hspelled _ (by
            simp [RunEvent.commandIds, CommandEvent.commandIds, RunEvent.command, hpayload])
          have heq := commandCardId_injective (hids _ h.named) hblock hid hsame
          obtain ⟨card', hcard', hid', hcommand⟩ :=
            @exists_mem_addBlock r.parseDate _ (r.projection events).cards _ _ hsame
          refine ⟨card', hcard', ?_, hid.trans (congrArg some hid'.symm)⟩
          rw [hcommand, ← heq]
          exact h.unfinished
        · exact ⟨card, mem_addBlock_of_ne hcard hsame, hunfinished, hid⟩
      | resumed link =>
        rcases link with _ | link
        · cases hwritten'
        have hother : ∀ ids, link.cards = some ids → ids.1 ≠ entry.2.commandId ∧ ids.2 ≠ entry.2.commandId := by
          intro ids hcards
          refine ⟨hstays link ids hpayload hcards, ?_⟩
          rintro heq
          obtain ⟨hcall, -, hnew⟩ := hwritten' ids hcards
          obtain ⟨event, hevent, hmem⟩ := List.mem_flatMap.mp h.named
          exact hnew event hevent _ hmem (heq ▸ hcall.symm)
        dsimp only [cardsAfter]
        rw [toList_some, commandJoins_concat hother]
        refine ⟨card, mem_addLink_of_ne hcard fun ids hcards hsame => ?_, hunfinished, hid⟩
        have hfrom : IsCommandId ids.1 := hspelled _ (by
          simp [RunEvent.commandIds, CommandEvent.commandIds, RunEvent.command, hpayload, hcards])
        exact (hother ids hcards).1 (commandCardId_injective hfrom (hids _ h.named) hsame hid)

end

variable (r) in
structure Adopted (events : List RunEvent) (adoption : Adoption) : Prop where
  links : adoption.links = linksIn events
  keys : (adoption.target.map fst).Nodup
  entries : ∀ entry ∈ adoption.target, OpenEntry r events entry

section

variable {adoption : Adoption} {entry : Text × CommandBlock} (h : Adopted r events adoption)
  (hprojected : Projected r events)
  (hfresh : ∀ other ∈ events, other.id ≠ event.id) (hwritten : Written r.runId r.owner events event)
  (hids : ∀ commandId ∈ namedIds events, IsCommandId commandId)
include h hprojected hfresh hwritten hids

theorem Adopted.kept {target : List (Text × CommandBlock)} (htarget : target.Sublist adoption.target)
    (hunlinked : event.link = none) (calls : List (Text × ToolCallIdentity)) :
    Adopted r (events ++ [event]) ⟨target, calls, adoption.links⟩ where
  links := by
    rw [linksIn_concat, hunlinked, toList_none, List.append_nil]
    exact h.links
  keys := h.keys.sublist (htarget.map _)
  entries entry hentry := by
    refine (h.entries entry (htarget.subset hentry)).append hprojected hfresh hwritten hids
      fun link ids hpayload _ => ?_
    rw [RunEvent.link, hpayload] at hunlinked
    cases hunlinked

/-- A card of a command that waits or runs is filed. -/
theorem Adopted.filed {type : CommandEventType} {block : CommandBlock}
    (hpayload : event.payload = .card (.command type (some block)))
    (hunfinished : block.commandId ∉ r.finishedIds)
    {id : Text} (hid : commandCardId block.commandId (commandJoins (linksIn events) block.commandId) = some id) :
    Adopted r (events ++ [event])
      { adoption with target := Dict.set adoption.target block.executionId block } := by
  have hunlinked : event.link = none := by rw [RunEvent.link, hpayload]
  have hkept := h.kept hprojected hfresh hwritten hids (List.Sublist.refl _) hunlinked adoption.calls
  refine ⟨hkept.links, Dict.nodup_set h.keys, fun entry hentry => ?_⟩
  obtain rfl | ⟨hold, -⟩ := Dict.mem_set.mp hentry
  · have hcards := (projectEvent_written hprojected hfresh hwritten).1
    obtain ⟨-, hwritten⟩ := hwritten
    rw [hpayload] at hwritten hcards
    refine ⟨hwritten.2.1, mem_named_concat.mpr (.inr ?_), hunfinished, ?_⟩
    · simp [RunEvent.commandIds, CommandEvent.commandIds, RunEvent.command, hpayload]
    · rw [hcards, linksIn_concat, hunlinked, toList_none, List.append_nil]
      obtain ⟨card, hcard, rfl, hcommand⟩ := @exists_mem_addBlock r.parseDate _ (r.projection events).cards _ _ hid
      exact ⟨card, hcard, hcommand ▸ hunfinished, hid⟩
  · exact hkept.entries entry hold

/-- The card that a link hands off is open under the command id that the link names. -/
theorem Adopted.handed {link : ToolResumedPayload} {ids : Text × Text}
    (hpayload : event.payload = .card (.resumed (some link))) (hcards : link.cards = some ids)
    (hentry : entry ∈ adoption.target) (hfrom : ids.1 = entry.2.commandId)
    (hunfinished : ids.2 ∉ r.finishedIds) :
    OpenEntry r (events ++ [event])
      (link.toCall, { entry.2 with commandId := ids.2 }) := by
  have hafter := (projectEvent_written hprojected hfresh hwritten).1
  obtain ⟨hspelled, hwritten⟩ := hwritten
  rw [hpayload] at hwritten hafter
  obtain ⟨hcall, hother, hnew⟩ := hwritten ids hcards
  have hto : ids.2 ∉ namedIds events := by
    intro hmem
    obtain ⟨other, hevent, hmem⟩ := List.mem_flatMap.mp hmem
    exact hnew other hevent _ hmem hcall.symm
  have hlink : event.link = some link := by rw [RunEvent.link, hpayload]
  have hnamed : event.commandIds = [ids.1, ids.2] := by
    simp [RunEvent.commandIds, CommandEvent.commandIds, RunEvent.command, hpayload, hcards]
  obtain ⟨card, hcard, hshown, hid⟩ := (h.entries entry hentry).card
  rw [← hfrom] at hid
  refine ⟨hcall, mem_named_concat.mpr (.inr (by simp [hnamed])), hunfinished,
    ⟨resumedCommandMessageId ids.2, resumeCommandCard card.block ids.1⟩, ?_, hshown, ?_⟩
  · rw [hafter]
    refine resumed_mem_addLink hcard hcards hid fun other hmem heq => ?_
    obtain ⟨commandId, hold, hat | hat⟩ := hprojected.ids other hmem
    · exact (hids commandId hold).2 ⟨ids.2, (eq_resumed_of_messageId (hat.symm.trans heq)).symm⟩
    · exact hto (resumedMessageId_injective (hat.symm.trans heq) ▸ hold)
  · have haway : (commandJoins (linksIn (events ++ [event])) ids.2).resumedAway = false := by
      rw [Bool.eq_false_iff, ne_eq, commandJoins_resumedAway, linksIn_concat, hlink]
      rintro ⟨other, hmem, toCommandId, heq⟩
      obtain hold | hlast := List.mem_append.mp hmem
      · exact hto (named_of_link hold heq).1
      · obtain rfl := List.mem_singleton.mp hlast
        rw [hcards] at heq
        exact hother (hcall.trans (congrArg r.owner (congrArg fst (some.inj heq)).symm))
    have hjoined : (commandJoins (linksIn (events ++ [event])) ids.2).joined := by
      rw [commandJoins_joined, linksIn_concat, hlink]
      exact ⟨link, by simp, ids.1, hcards⟩
    rw [commandCardId, haway, hjoined]
    rfl

/-- After a link the open cards are those that it leaves, and the one that it hands off. -/
theorem Adopted.linked {link : ToolResumedPayload} (hpayload : event.payload = .card (.resumed (some link)))
    (hunfinished : ∀ ids, link.cards = some ids → ids.1 ∉ r.finishedIds → ids.2 ∉ r.finishedIds) :
    ∃ target, handOff (linksIn (events ++ [event])) (some link) (2 * adoption.target.length + 1) [] adoption.target =
        some target ∧ (target.map fst).Nodup ∧
      ∀ entry ∈ target, OpenEntry r (events ++ [event]) entry := by
  have hstay : ∀ entry ∈ adoption.target, (∀ ids, link.cards = some ids → ids.1 ≠ entry.2.commandId) →
      OpenEntry r (events ++ [event]) entry := by
    intro entry hentry hother
    refine (h.entries entry hentry).append hprojected hfresh hwritten hids fun other ids hat hcards => ?_
    rw [hpayload] at hat
    cases hat
    exact hother ids hcards
  by_cases hhanded : ∃ entry ∈ adoption.target, ∃ ids, link.cards = some ids ∧ ids.1 = entry.2.commandId
  · obtain ⟨entry, hentry, ids, hcards, hfrom⟩ := hhanded
    have hhanded := h.handed hprojected hfresh hwritten hids hpayload hcards hentry hfrom
      (hunfinished ids hcards (hfrom ▸ (h.entries entry hentry).unfinished))
    obtain ⟨before, after, htarget⟩ := List.append_of_mem hentry
    have hkeys := h.keys
    rw [htarget, List.map_append, List.map_cons, List.nodup_middle, List.nodup_cons, ← List.map_append] at hkeys
    have hmem : ∀ other ∈ before ++ after, other ∈ adoption.target := by
      intro other hother
      rw [htarget]
      exact List.perm_middle.mem_iff.mpr (List.mem_cons_of_mem _ hother)
    have hopens : ∀ other ∈ before ++ after, OpenEntry r (events ++ [event]) other := by
      intro other hother
      refine hstay other (hmem other hother) fun ids' hcards' heq => hkeys.1 ?_
      -- Another entry of the command would have the same execution id.
      obtain rfl := some.inj (hcards.symm.trans hcards')
      rw [(h.entries entry hentry).call, ← hfrom, heq, ← (h.entries other (hmem other hother)).call]
      exact List.mem_map_of_mem hother
    have hkey : ∀ other ∈ before ++ after, other.1 ≠ link.toCall := by
      intro other hother heq
      obtain ⟨event', hevent, hnamed⟩ := List.mem_flatMap.mp (h.entries other (hmem other hother)).named
      have hnew := hwritten.2
      rw [hpayload] at hnew
      exact (hnew ids hcards).2.2 event' hevent _ hnamed ((h.entries other (hmem other hother)).call.symm.trans heq)
    have haway : (commandJoins (linksIn (events ++ [event])) entry.2.commandId).resumedAway := by
      rw [commandJoins_resumedAway, linksIn_concat, RunEvent.link, hpayload]
      exact ⟨link, by simp, ids.2, hfrom ▸ hcards⟩
    have hresult := @handOff_handed (linksIn (events ++ [event])) (some link) before after entry
      (link.toCall, { entry.2 with commandId := ids.2 }) (fun other hother =>
        (hopens other (List.mem_append_left _ hother)).isSome)
      (fun other hother => ?_) (by rw [commandCardId, if_pos haway]) (by simp [handedOff, hcards, hfrom]) hkey
    · rw [htarget]
      refine ⟨_, hresult, ?_, fun other hother => ?_⟩
      · rw [← List.append_assoc, List.map_append, List.map_singleton]
        refine hkeys.2.append (List.nodup_singleton _) fun key hmem hlast => ?_
        obtain ⟨other, hother, rfl⟩ := List.mem_map.mp hmem
        exact hkey other hother (List.mem_singleton.mp hlast)
      · rw [← List.append_assoc] at hother
        obtain hold | hlast := List.mem_append.mp hother
        · exact hopens other hold
        · exact List.mem_singleton.mp hlast ▸ hhanded
    · obtain hold | hlast := List.mem_append.mp hother
      · exact (hopens other (List.mem_append_right _ hold)).isSome
      · exact (List.mem_singleton.mp hlast ▸ hhanded).isSome
  · have hopens : ∀ entry ∈ adoption.target, OpenEntry r (events ++ [event]) entry :=
      fun entry hentry => hstay entry hentry fun ids hcards heq => hhanded ⟨entry, hentry, ids, hcards, heq⟩
    exact ⟨adoption.target,
      handOff_kept (fun entry hentry => (hopens entry hentry).isSome) [] (by omega), h.keys, hopens⟩

end

theorem adopted_append {adoption : Adoption} (h : Adopted r events adoption)
    (hprojected : Projected r events) (hfresh : ∀ other ∈ events, other.id ≠ event.id)
    (hwritten : Written r.runId r.owner events event) (hids : ∀ commandId ∈ namedIds events, IsCommandId commandId)
    (hunfinished : ∀ link, event.link = some link → ∀ ids, link.cards = some ids →
      ids.1 ∉ r.finishedIds → ids.2 ∉ r.finishedIds)
    (finished : List Text) :
    ∃ next, adoptEvent finished r.finishedIds adoption event = some next ∧ Adopted r (events ++ [event]) next := by
  have hkept := fun {target : List (Text × CommandBlock)} (htarget : target.Sublist adoption.target) =>
    h.kept hprojected hfresh hwritten hids htarget
  unfold adoptEvent
  cases hpayload : event.payload with
  | called executionId call =>
    have hunlinked : event.link = none := by rw [RunEvent.link, hpayload]
    refine ⟨_, rfl, hkept ?_ hunlinked _⟩
    split
    · exact List.filter_sublist
    · exact List.Sublist.refl _
  | completed executionId name =>
    have hunlinked : event.link = none := by rw [RunEvent.link, hpayload]
    exact ⟨adoption, rfl, hkept (List.Sublist.refl _) hunlinked _⟩
  | card payload =>
    cases payload with
    | command type block =>
      have hunlinked : event.link = none := by rw [RunEvent.link, hpayload]
      have hsame := hkept (List.Sublist.refl _) hunlinked adoption.calls
      rcases block with _ | block
      · cases type <;> exact ⟨adoption, rfl, hsame⟩
      have hfiled : ∃ next, (if block.executionId ∈ finished ∨ block.commandId ∈ r.finishedIds then some adoption
          else if (commandCardId block.commandId (commandJoins adoption.links block.commandId)).isNone then some adoption
          else if isOpen block.outcome then
            some { adoption with target := Dict.set adoption.target block.executionId block }
          else some adoption) = some next ∧ Adopted r (events ++ [event]) next := by
        split
        · exact ⟨adoption, rfl, hsame⟩
        · next hopen =>
          rcases hid : commandCardId block.commandId (commandJoins adoption.links block.commandId) with _ | id
          · exact ⟨adoption, rfl, hsame⟩
          rw [if_neg (by simp)]
          split
          · rw [h.links] at hid
            exact ⟨_, rfl, h.filed hprojected hfresh hwritten hids hpayload (fun hmem => hopen (.inr hmem)) hid⟩
          · exact ⟨adoption, rfl, hsame⟩
      cases type with
      | finished => exact ⟨adoption, rfl, hsame⟩
      | intent | started => exact hfiled
    | resumed link =>
      cases link with
      | none =>
        have hwritten := hwritten.2
        rw [hpayload] at hwritten
        cases hwritten
      | some link =>
        have hlink : event.link = some link := by rw [RunEvent.link, hpayload]
        obtain ⟨target, htarget, hkeys, hentries⟩ :=
          h.linked hprojected hfresh hwritten hids hpayload (hunfinished link hlink)
        have hlinks : adoption.links ++ [link] = linksIn (events ++ [event]) := by rw [linksIn_concat, hlink, h.links]; rfl
        refine ⟨⟨target, adoption.calls, linksIn (events ++ [event])⟩, ?_, rfl, hkeys, hentries⟩
        dsimp only [toList_some]
        rw [hlinks, htarget]
        rfl

end

/-! ### Whole runs -/

/-- No link hands the card of an unfinished command to a finished one. -/
def LinksUnfinished (events : List RunEvent) : Prop :=
  ∀ link ∈ linksIn events, ∀ ids ∈ link.cards.toList,
    ids.1 ∉ finishedCommandIds events → ids.2 ∉ finishedCommandIds events

instance (events : List RunEvent) : Decidable (LinksUnfinished events) := by
  unfold LinksUnfinished
  infer_instance

section

variable {r : Recovery} {events : List RunEvent} (h : Recorded r.runId r.owner events)
include h

theorem Recorded.ids : ∀ commandId ∈ namedIds events, IsCommandId commandId := by
  induction h with
  | nil => exact fun _ hmem => nomatch hmem
  | append _ _ _ written ih =>
    intro commandId hmem
    obtain hold | hnew := mem_named_concat.mp hmem
    · exact ih commandId hold
    · exact written.1 commandId hnew

theorem Recorded.ordered : (events.map RunEvent.seq).Pairwise (· < ·) := by
  induction h with
  | nil => exact List.Pairwise.nil
  | append _ _ later _ ih =>
    rw [List.map_append, List.pairwise_append]
    refine ⟨ih, List.pairwise_singleton _ _, fun seq hmem last hlast => ?_⟩
    obtain ⟨other, hother, rfl⟩ := List.mem_map.mp hmem
    obtain rfl := List.mem_singleton.mp hlast
    exact later other hother

theorem Recorded.adopted (finished : List Text)
    (hfinished : ∀ event ∈ events, ∀ block, event.payload = .card (.command .finished (some block)) →
      block.commandId ∈ r.finishedIds)
    (hlinks : ∀ link ∈ linksIn events, ∀ ids, link.cards = some ids → ids.1 ∉ r.finishedIds → ids.2 ∉ r.finishedIds) :
    Projected r events ∧ ∃ adoption, events.foldlM (adoptEvent finished r.finishedIds) ⟨[], [], []⟩ = some adoption ∧
      Adopted r events adoption := by
  induction h with
  | nil =>
    refine ⟨?_, ⟨[], [], []⟩, rfl, rfl, List.nodup_nil, fun _ hmem => nomatch hmem⟩
    constructor
    case links | ended => rfl
    case nodup => exact List.nodup_nil
    case seen | ids | opens =>
      intro _ hmem
      cases hmem
  | @append events event earlier fresh later written ih =>
    obtain ⟨hprojected, adoption, hadoption, hadopted⟩ :=
      ih (fun other hother => hfinished other (List.mem_append_left _ hother))
      fun link hlink => hlinks link (by rw [linksIn_concat]; exact List.mem_append_left _ hlink)
    have hlast := fun block => hfinished event (List.mem_append_right _ (List.mem_singleton_self _)) block
    refine ⟨projected_append hprojected fresh written hlast, ?_⟩
    obtain ⟨next, hnext, hadopted⟩ := adopted_append hadopted hprojected fresh written earlier.ids
      (fun link hlink => hlinks link (by rw [linksIn_concat, hlink]; simp)) finished
    refine ⟨next, ?_, hadopted⟩
    rw [List.foldlM_append, hadoption]
    simp [hnext]

end

/-- A card that is adopted is open, under its own execution id and once, as long as no link hands
the card of an unfinished command to a finished one. -/
theorem adopted_open (parseDate : Text → Option ℤ) {runId : Text} {owner : Text → Text} {events : List RunEvent}
    (hrecorded : Recorded runId owner events) (hlinks : LinksUnfinished events) (finished : List Text) :
    ∃ adopted, adoptOpenCommands finished (finishedCommandIds events) [] events = some adopted ∧
      (adopted.map fst).Nodup ∧ (adopted.map fun entry => entry.2.commandId).Nodup ∧
      ∀ entry ∈ adopted, entry.2.commandId ∉ finishedCommandIds events ∧
        ∃ card ∈ (projectEvents parseDate (commands runId events)).cards,
          commandCardId entry.2.commandId (commandJoins (linksIn events) entry.2.commandId) = some card.id ∧
            card.block ∈ projectCommandBlocks parseDate (commands runId events) [runId] ∧ isOpen card.block.outcome := by
  have hfinished : ∀ event ∈ events, ∀ block, event.payload = .card (.command .finished (some block)) →
      block.commandId ∈ finishedCommandIds events := by
    intro event hevent block hpayload
    have hid := @Recorded.ids ⟨parseDate, runId, owner, []⟩ events hrecorded block.commandId
        (List.mem_flatMap.mpr ⟨event, hevent, by
      simp [RunEvent.commandIds, CommandEvent.commandIds, RunEvent.command, hpayload]⟩)
    exact List.mem_filterMap.mpr ⟨event, hevent, by simp [hpayload, hid.1]⟩
  let r : Recovery := ⟨parseDate, runId, owner, finishedCommandIds events⟩
  have hrecorded : Recorded r.runId r.owner events := hrecorded
  obtain ⟨hprojected, adoption, hadoption, hadopted⟩ := hrecorded.adopted finished hfinished
    fun link hlink ids hcards => hlinks link hlink ids (by simp [hcards])
  have hproject : projectEvents parseDate (commands runId events) = project parseDate (commands runId events) := by
    have hordered : (commands runId events).Pairwise fun a b => a.seq ≤ b.seq :=
      List.pairwise_map.mpr ((List.pairwise_map.mp hrecorded.ordered).imp le_of_lt)
    rw [projectEvents, hordered.insertionSort_eq]
    rfl
  refine ⟨adoption.target, by rw [adoptOpenCommands, hadoption]; rfl, hadopted.keys, ?_,
    fun entry hentry => ?_⟩
  · have hkeys := hadopted.keys
    rw [List.map_congr_left fun entry hentry => (hadopted.entries entry hentry).call,
      ← Function.comp_def owner, ← List.map_map] at hkeys
    exact hkeys.of_map owner
  · obtain ⟨card, hcard, hunfinished, hid⟩ := (hadopted.entries entry hentry).card
    obtain ⟨(hrun : card.block.runId = runId), hopen⟩ := hprojected.opens card hcard
    have hended : (project parseDate (commands runId events)).finishedRuns = [] := hprojected.ended
    refine ⟨(hadopted.entries entry hentry).unfinished, card, hproject ▸ hcard, hid, ?_, hopen hunfinished⟩
    rw [projectCommandBlocks, hproject]
    refine List.mem_map.mpr ⟨card.block, List.mem_append_left _ (List.mem_map_of_mem hcard), ?_⟩
    simp [settleCommandBlock, hrun, hended]

/-- A call is killed, and the call that repeats it finishes under its own id before its attempt ends
too. -/
def repeatedCall : List RunEvent :=
  [⟨lit "1", 1, .card (.command .intent (some (shellBlock (lit "a") 1 .waiting)))⟩,
    ⟨lit "2", 2, .card (.resumed (some ⟨lit "a", lit "b", some (lit "a", lit "b")⟩))⟩,
    ⟨lit "3", 3, .card (.command .started (some (shellBlock (lit "b") 2 .running)))⟩]

theorem recorded_repeatedCall : Recorded (lit "run") id repeatedCall := by
  refine .append (.append (.append .nil ?_ ?_ ?_) ?_ ?_ ?_) ?_ ?_ ?_ <;> decide +kernel

theorem adopted_open_repeatedCall :
    ∃ adopted, adoptOpenCommands [] (finishedCommandIds repeatedCall) [] repeatedCall = some adopted ∧
      adopted.map fst = [lit "b"] ∧ (adopted.map fun entry => entry.2.commandId).Nodup := by
  obtain ⟨adopted, hadopted, -, hids, -⟩ :=
    adopted_open (fun _ => none) recorded_repeatedCall (by decide +kernel) []
  refine ⟨adopted, hadopted, ?_, hids⟩
  have hvalue : (adoptOpenCommands [] (finishedCommandIds repeatedCall) [] repeatedCall).map (·.map fst) =
    some [lit "b"] := by decide +kernel
  rw [hadopted] at hvalue
  exact some.inj hvalue

/-- The finished call is adopted as open: the link files its card without a look at what is
finished. -/
theorem finished_card_adopted :
    let events := repeatedCall ++ [⟨lit "4", 4, .card (.command .finished (some (shellBlock (lit "b") 2 .completed)))⟩]
    Recorded (lit "run") id events ∧ lit "b" ∈ finishedCommandIds events ∧
      (adoptOpenCommands [] (finishedCommandIds events) [] events).map
          (·.map fun entry => (entry.1, entry.2.commandId, entry.2.outcome)) = some [(lit "b", lit "b", .waiting)] ∧
      (projectCommandBlocks (fun _ => none) (commands (lit "run") events) [lit "run"]).map
          (fun block => (block.commandId, block.outcome)) = [(lit "b", .completed)] := by
  refine ⟨.append recorded_repeatedCall ?_ ?_ ?_, ?_⟩ <;> decide +kernel

end ArdurBot.Commands
