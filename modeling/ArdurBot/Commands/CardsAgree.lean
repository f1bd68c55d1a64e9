import ArdurBot.Commands.Cards

/-!
# Command cards agree on every path

The rows of the store and the projection of the recorded events go on in step (`Agrees`). A reader
that receives the events one by one learns where a command id is from the cards that it shows, too;
that tells the same unless the id of one command is `resumed:` and the id of another, or a block
itself says that it resumes a command of the run.
-/

namespace ArdurBot.Commands

open List Utf16 Function

/-! ### Links -/

def CommandEvent.link (event : CommandEvent) : Option ToolResumedPayload :=
  match event.payload with
  | .card (.resumed link) => link
  | _ => none

def CommandEvent.block (event : CommandEvent) : Option CommandBlock :=
  match event.payload with
  | .card (.command _ block) => block
  | _ => none

def recordedLinks (events : List CommandEvent) : List ToolResumedPayload :=
  events.filterMap CommandEvent.link

theorem recordedLinks_concat (events : List CommandEvent) (event : CommandEvent) :
    recordedLinks (events ++ [event]) = recordedLinks events ++ event.link.toList := by
  rw [recordedLinks, filterMap_append]
  cases hlink : event.link <;> simp [recordedLinks, hlink]

theorem commandJoins_filter (links : List ToolResumedPayload) (commandId : Text) :
    commandJoins (links.filter fun link => link.cards.any fun cards => cards.1 = commandId || cards.2 = commandId)
      commandId = commandJoins links commandId := by
  have hany : ∀ side : Text × Text → Text, (∀ cards, side cards = cards.1 ∨ side cards = cards.2) →
      ((links.filter fun link => link.cards.any fun cards => cards.1 = commandId ||
        cards.2 = commandId).any fun link =>
        link.cards.any fun cards => side cards = commandId) =
      links.any fun link => link.cards.any fun cards => side cards = commandId := by
    intro side hside
    rw [any_filter]
    congr 1
    funext link
    cases hcards : link.cards with
    | none => rfl
    | some cards =>
      simp only [Option.any_some]
      obtain h | h := hside cards <;> rw [h] <;> by_cases heq : cards.1 = commandId <;> simp [heq]
  rw [commandJoins, commandJoins, hany Prod.fst fun _ => .inl rfl, hany Prod.snd fun _ => .inr rfl]

variable {events : List CommandEvent} {except : Option Text} {cards : List Card}

section

variable {runId : Text} (hruns : ∀ event ∈ events, event.runId = some runId)
  (hexcept : ∀ event ∈ events, some event.id ≠ except) (commandId : Text)
include hruns hexcept

theorem resumeLinks_eq : resumeLinks events (some runId) commandId except =
      (recordedLinks events).filter fun link => link.cards.any fun cards =>
        cards.1 = commandId || cards.2 = commandId := by
  rw [resumeLinks, recordedLinks, filter_filterMap]
  refine filterMap_congr fun event hevent => ?_
  rw [CommandEvent.link]
  cases event.payload with
  | card payload =>
    cases payload with
    | resumed link => simp [hruns event hevent, hexcept event hevent]
    | command type block => rfl
  | runEnded | shellCall | other => rfl

theorem commandJoins_resumeLinks : commandJoins (resumeLinks events (some runId) commandId except) commandId =
      commandJoins (recordedLinks events) commandId := by
  rw [resumeLinks_eq hruns hexcept, commandJoins_filter]

end

theorem resumeLinks_concat_except (events : List CommandEvent) (event : CommandEvent)
    (runId : Option Text) (commandId : Text) :
    resumeLinks (events ++ [event]) runId commandId (some event.id) =
      resumeLinks events runId commandId (some event.id) := by
  rw [resumeLinks, resumeLinks, filterMap_append]
  refine (congrArg _ ?_).trans (append_nil _)
  cases hpayload : event.payload with
  | card payload =>
    cases payload with
    | resumed | command => simp [hpayload]
  | runEnded | shellCall executionId | other => simp [hpayload]

/-! ### Cards -/

theorem findCard_eq_some (h : (cards.map Card.id).Nodup) {card : Card} (hmem : card ∈ cards) :
    findCard cards card.id = some card.block := by
  rw [findCard]
  cases hfind : cards.find? fun other => other.id = card.id with
  | none =>
    rw [find?_eq_none] at hfind
    exact absurd (decide_eq_true rfl) (hfind card hmem)
  | some other =>
    have hid : other.id = card.id := by simpa using find?_some hfind
    obtain rfl := inj_on_of_nodup_map h (mem_of_find?_eq_some hfind) hmem hid
    rfl

theorem findCard_isSome {id : Text} : (findCard cards id).isSome = cards.any fun card => card.id = id := by
  rw [findCard, Option.isSome_map, isSome_find?]

theorem findRow_card (rows : List StoredCard) (id : Text) :
    (findRow rows id).map StoredCard.block = findCard (rows.map StoredCard.card) id := by
  rw [findRow, findCard, find?_map, Option.map_map]
  rfl

theorem isSome_findRow (rows : List StoredCard) (id : Text) :
    (findRow rows id).isSome = (rows.map StoredCard.card).any fun card => card.id = id := by
  rw [← findCard_isSome, ← findRow_card, Option.isSome_map]

theorem nodup_setCard (h : (cards.map Card.id).Nodup) (id : Text) (block : CommandBlock) :
    ((setCard cards id block).map Card.id).Nodup := by
  rw [setCard]
  split
  · have hids : (cards.map fun card => if card.id = id then ⟨id, block⟩ else card).map Card.id =
        cards.map Card.id := by
      rw [map_map]
      refine map_congr_left fun card _ => ?_
      dsimp only [comp]
      split
      · next hid => exact hid.symm
      · rfl
    rwa [hids]
  · next hfresh =>
    rw [map_append, nodup_append]
    refine ⟨h, nodup_singleton _, ?_⟩
    rintro other hother new hnew rfl
    obtain ⟨card, hcard, hid⟩ := mem_map.mp hother
    obtain rfl := mem_singleton.mp hnew
    exact hfresh (any_eq_true.mpr ⟨card, hcard, decide_eq_true hid⟩)

theorem nodup_rename (h : (cards.map Card.id).Nodup) {fromId toId : Text}
    (hfresh : (cards.any fun card => card.id = toId) = false) (block : Card → CommandBlock) :
    ((cards.map fun card => if card.id = fromId then ⟨toId, block card⟩ else card).map Card.id).Nodup := by
  rw [map_map]
  rw [List.Nodup, pairwise_map]
  have hpairs : cards.Pairwise fun a b => a.id ≠ b.id := pairwise_map.mp h
  have hto : ∀ card ∈ cards, card.id ≠ toId := by
    intro card hcard hid
    rw [any_eq_false] at hfresh
    exact hfresh card hcard (decide_eq_true hid)
  refine hpairs.imp_of_mem fun {a b} ha hb hne => ?_
  dsimp only [comp]
  split
  · next hfrom =>
    split
    · next hfrom' => exact absurd (hfrom.trans hfrom'.symm) hne
    · exact (hto b hb).symm
  · split
    · exact hto a ha
    · exact hne

/-! ### The rows of the store -/

section

variable {parseDate : Text → Option ℤ}

/-- What a link leaves of cards, under the links before it. -/
def addLink (cards : List Card) (prior : List ToolResumedPayload) (link : ToolResumedPayload) : List Card :=
  match resumedCardIds link (commandJoins prior) with
  | none => cards
  | some ids =>
    if cards.any fun card => card.id = ids.toId then cards
    else
      cards.map fun card =>
        if card.id = ids.fromId then ⟨ids.toId, resumeCommandCard card.block ids.fromCommandId⟩ else card

theorem map_of_findCard_none {cards : List Card} {id : Text} (h : findCard cards id = none)
    (update : Card → Card) :
    (cards.map fun card => if card.id = id then update card else card) = cards := by
  rw [findCard, Option.map_eq_none_iff, find?_eq_none] at h
  refine (map_congr_left fun card hcard => ?_).trans (map_id cards)
  exact if_neg (by simpa using h card hcard)

theorem projectLink_cards {projection : Projection} (h : (projection.cards.map Card.id).Nodup)
    (runId : Text) (link : ToolResumedPayload) :
    (projectLink projection runId link).cards = addLink projection.cards (projection.linksOf runId) link ∧
      (projectLink projection runId link).links = projection.links ++ [(runId, link)] ∧
      (projectLink projection runId link).seen = projection.seen := by
  rw [projectLink, addLink]
  rcases hids : resumedCardIds link (commandJoins (projection.linksOf runId)) with _ | ids
  · exact ⟨rfl, rfl, rfl⟩
  dsimp only
  rw [findCard_isSome]
  cases hcard : findCard projection.cards ids.fromId with
  | none =>
    dsimp only
    refine ⟨?_, rfl, rfl⟩
    split
    · rfl
    · exact (map_of_findCard_none hcard _).symm
  | some block =>
    dsimp only
    split
    · exact ⟨rfl, rfl, rfl⟩
    · refine ⟨map_congr_left fun card hcardMem => ?_, rfl, rfl⟩
      split
      · next hid =>
        rw [← hid, findCard_eq_some h hcardMem] at hcard
        rw [Option.some.inj hcard]
      · rfl

theorem materializeResumedCall_rows {store : CommandStore} {event : CommandEvent}
    {link : ToolResumedPayload} {prior : List ToolResumedPayload}
    (hprior : ∀ commandId,
      commandJoins (resumeLinks store.events event.runId commandId (some event.id)) commandId =
      commandJoins prior commandId) :
    (materializeResumedCall store event link).rows.map StoredCard.card =
        addLink (store.rows.map StoredCard.card) prior link ∧
      (materializeResumedCall store event link).rows.map StoredCard.seq = store.rows.map
      StoredCard.seq ∧ (materializeResumedCall store event link).events = store.events ∧
      (materializeResumedCall store event link).nextMessageSeq = store.nextMessageSeq ∧
      (materializeResumedCall store event link).nextEventSeq = store.nextEventSeq := by
  rw [materializeResumedCall, addLink]
  cases hcards : link.cards with
  | none =>
    have hids : resumedCardIds link (commandJoins prior) = none := by rw [resumedCardIds, hcards]; rfl
    rw [hids]
    exact ⟨rfl, rfl, rfl, rfl, rfl⟩
  | some cards =>
    have hids : resumedCardIds link
        (commandJoins (resumeLinks store.events event.runId cards.1 (some event.id))) =
        resumedCardIds link (commandJoins prior) := by
      rw [resumedCardIds, resumedCardIds, hcards]
      simp only [Option.bind_eq_bind, Option.bind_some, hprior]
    dsimp only
    rw [hids]
    rcases hjoin : resumedCardIds link (commandJoins prior) with _ | ids
    · exact ⟨rfl, rfl, rfl, rfl, rfl⟩
    dsimp only
    rw [isSome_findRow]
    by_cases hto : ((store.rows.map StoredCard.card).any fun card => card.id = ids.toId) = true
    · rw [if_pos (by simp only [hto, Bool.true_or]), if_pos hto]
      exact ⟨rfl, rfl, rfl, rfl, rfl⟩
    · rw [if_neg hto]
      cases hrow : findRow store.rows ids.fromId with
      | none =>
        rw [if_pos (by simp)]
        have hnone : findCard (store.rows.map StoredCard.card) ids.fromId = none := by
          rw [← findRow_card, hrow]
          rfl
        exact ⟨(map_of_findCard_none hnone _).symm, rfl, rfl, rfl, rfl⟩
      | some row =>
        rw [if_neg (by simpa using hto)]
        refine ⟨?_, ?_, rfl, rfl, rfl⟩
        · simp only [map_map]
          refine map_congr_left fun other _ => ?_
          simp only [comp]
          by_cases hid : other.id = ids.fromId
          · have hid' : other.card.id = ids.fromId := hid
            rw [if_pos hid, if_pos hid']
            rfl
          · have hid' : other.card.id ≠ ids.fromId := hid
            rw [if_neg hid, if_neg hid']
        · simp only [map_map]
          refine map_congr_left fun other _ => ?_
          simp only [comp]
          split <;> rfl

theorem materializeBlock_rows {store : CommandStore} {event : CommandEvent} {block : CommandBlock}
    {joins : CommandJoins}
    (hjoins : commandJoins (resumeLinks store.events event.runId block.commandId none) block.commandId = joins) :
    (materializeBlock parseDate store event block).rows.map StoredCard.card =
        addBlock parseDate (store.rows.map StoredCard.card) joins block ∧
      ((materializeBlock parseDate store event block).rows.map StoredCard.seq = store.rows.map StoredCard.seq ∧
          (materializeBlock parseDate store event block).nextMessageSeq = store.nextMessageSeq ∨
        (materializeBlock parseDate store event block).rows.map StoredCard.seq =
            store.rows.map StoredCard.seq ++ [store.nextMessageSeq] ∧
          (materializeBlock parseDate store event block).nextMessageSeq = store.nextMessageSeq + 1) ∧
      (materializeBlock parseDate store event block).events = store.events ∧
      (materializeBlock parseDate store event block).nextEventSeq = store.nextEventSeq := by
  rw [materializeBlock, addBlock, hjoins]
  rcases hid : commandCardId block.commandId joins with _ | id
  · exact ⟨rfl, .inl ⟨rfl, rfl⟩, rfl, rfl⟩
  dsimp only
  rw [findRow_card]
  rcases hnext : nextCommandCard parseDate id (findCard (store.rows.map StoredCard.card) id)
    block with _ | next
  · exact ⟨rfl, .inl ⟨rfl, rfl⟩, rfl, rfl⟩
  dsimp only
  rw [isSome_findRow, setCard]
  split
  · refine ⟨?_, .inl ⟨?_, rfl⟩, rfl, rfl⟩
    · simp only [map_map]
      refine map_congr_left fun row _ => ?_
      simp only [comp]
      by_cases hrow : row.id = id
      · have hrow' : row.card.id = id := hrow
        rw [if_pos hrow, if_pos hrow', ← hrow]
        rfl
      · have hrow' : row.card.id ≠ id := hrow
        rw [if_neg hrow, if_neg hrow']
    · simp only [map_map]
      refine map_congr_left fun row _ => ?_
      simp only [comp]
      split <;> rfl
  · refine ⟨?_, .inr ⟨?_, rfl⟩, rfl, rfl⟩
    · rw [map_append]
      rfl
    · rw [map_append]
      rfl

/-! ### In step -/

variable (parseDate) in
/-- The projection of events that are in order. -/
def project (events : List CommandEvent) : Projection :=
  events.foldl (projectEvent parseDate) emptyProjection

variable (parseDate) in
/-- The store and the projection of its events. -/
structure Agrees (runId : Text) (store : CommandStore) : Prop where
  runs : ∀ event ∈ store.events, event.runId = some runId
  ids : (store.events.map CommandEvent.id).Nodup
  ordered : store.events.Pairwise fun a b => a.seq < b.seq
  below : ∀ event ∈ store.events, event.seq < store.nextEventSeq
  blocks : ∀ event ∈ store.events, ∀ block, event.block = some block → block.runId = runId
  cardEvents : ∀ event ∈ store.events, event.payload ≠ .runEnded ∧ ∃ payload, event.payload = .card payload
  rows : store.rows.map StoredCard.card = (project parseDate store.events).cards
  rowSeqs : (store.rows.map StoredCard.seq).Pairwise (· < ·)
  rowsBelow : ∀ seq ∈ store.rows.map StoredCard.seq, seq < store.nextMessageSeq
  links : (project parseDate store.events).links = (recordedLinks store.events).map fun link => (runId, link)
  seen : ∀ id, id ∈ (project parseDate store.events).seen ↔ id ∈ store.events.map CommandEvent.id
  cardIds : ((project parseDate store.events).cards.map Card.id).Nodup

theorem project_concat (events : List CommandEvent) (event : CommandEvent) :
    project parseDate (events ++ [event]) = projectEvent parseDate (project parseDate events) event := by
  rw [project, foldl_append]
  rfl

theorem linksOf_map {projection : Projection} {runId : Text} {links : List ToolResumedPayload}
    (h : projection.links = links.map fun link => (runId, link)) : projection.linksOf runId = links := by
  rw [Projection.linksOf, h, filter_map, map_map]
  have hall : (links.filter ((fun entry => decide (entry.1 = runId)) ∘ fun link => (runId, link))) = links :=
    filter_eq_self.mpr fun link _ => decide_eq_true rfl
  rw [hall]
  exact map_id links

theorem nodup_addLink {cards : List Card} (h : (cards.map Card.id).Nodup) (prior : List ToolResumedPayload)
    (link : ToolResumedPayload) : ((addLink cards prior link).map Card.id).Nodup := by
  rw [addLink]
  split
  · exact h
  · split
    · exact h
    · next ids _ hfresh =>
      exact nodup_rename h (Bool.not_eq_true _ ▸ hfresh) fun card => resumeCommandCard card.block ids.fromCommandId

theorem nodup_addBlock {cards : List Card} (h : (cards.map Card.id).Nodup) (joins : CommandJoins)
    (block : CommandBlock) :
    ((addBlock parseDate cards joins block).map Card.id).Nodup := by
  rw [addBlock]
  split
  · exact h
  · split
    · exact h
    · exact nodup_setCard h _ _

section

variable {projection : Projection} {event : CommandEvent}

theorem projectEvent_resumed {runId : Text} {link : ToolResumedPayload}
    (h : (projection.cards.map Card.id).Nodup) (hnew : event.id ∉ projection.seen)
    (hrun : event.runId = some runId) (hpayload : event.payload = .card (.resumed (some link))) :
    (projectEvent parseDate projection event).cards = addLink projection.cards (projection.linksOf runId) link ∧
      (projectEvent parseDate projection event).links = projection.links ++ [(runId, link)] ∧
      (projectEvent parseDate projection event).seen = event.id :: projection.seen := by
  rw [projectEvent, if_neg hnew]
  simp only [hpayload, hrun]
  exact @projectLink_cards { projection with seen := event.id :: projection.seen } h runId link

theorem projectEvent_command {type : CommandEventType}
    {block : CommandBlock} (hnew : event.id ∉ projection.seen) (hrun : event.runId = some block.runId)
    (hpayload : event.payload = .card (.command type (some block))) :
    (projectEvent parseDate projection event).cards =
        addBlock parseDate projection.cards (commandJoins (projection.linksOf block.runId) block.commandId) block ∧
      (projectEvent parseDate projection event).links = projection.links ∧
      (projectEvent parseDate projection event).seen = event.id :: projection.seen := by
  rw [projectEvent, if_neg hnew]
  simp only [hpayload, hrun, ne_eq, not_true_eq_false, if_false]
  exact ⟨rfl, trivial, trivial⟩

theorem projectEvent_unlinked (hnew : event.id ∉ projection.seen)
    (hpayload : event.payload = .card (.resumed none)) :
    (projectEvent parseDate projection event).cards = projection.cards ∧
      (projectEvent parseDate projection event).links = projection.links ∧
      (projectEvent parseDate projection event).seen = event.id :: projection.seen := by
  rw [projectEvent, if_neg hnew]
  simp only [hpayload]
  exact ⟨trivial, trivial, trivial⟩

end

section

variable {runId : Text} {store : CommandStore} {id : Text} {payload : CardPayload}

/-- The store with an event of the run, before the rows are made from it. -/
def recorded (runId : Text) (store : CommandStore) (id : Text) (payload : CardPayload) : CommandStore :=
  { store with
    nextEventSeq := store.nextEventSeq + 1
    events := store.events ++ [{ id, seq := store.nextEventSeq, runId := some runId, payload := .card payload }] }

/-- What `appendCardEvent` checks of an event before it records it. -/
structure Recordable (runId : Text) (store : CommandStore) (id : Text) (payload : CardPayload) :
  Prop where
  fresh : id ∉ store.events.map CommandEvent.id
  block : ∀ type block, payload = .command type (some block) → block.runId = runId
  parsed : ∀ type, payload ≠ .command type none

theorem appendCardEvent_cases : appendCardEvent parseDate runId store id payload = store ∨
    appendCardEvent parseDate runId store id payload = { store with nextEventSeq := store.nextEventSeq + 1 } ∨
    Recordable runId store id payload ∧
      appendCardEvent parseDate runId store id payload = recordEvent parseDate store id runId payload := by
  unfold appendCardEvent
  split
  · exact .inl rfl
  · next hnew =>
    have hfresh : id ∉ store.events.map CommandEvent.id := by
      intro hmem
      obtain ⟨event, hevent, hid⟩ := mem_map.mp hmem
      exact hnew (any_eq_true.mpr ⟨event, hevent, decide_eq_true hid⟩)
    split
    · refine .inr (.inr ⟨⟨hfresh, fun type block heq => ?_, fun type heq => ?_⟩, rfl⟩)
      · cases heq
      · cases heq
    · exact .inl rfl
    · split
      · exact .inl rfl
      · next hrun =>
        split
        · exact .inr (.inl rfl)
        · refine .inr (.inr ⟨⟨hfresh, fun type block heq => ?_, fun type heq => ?_⟩, rfl⟩)
          · cases heq
            exact not_not.mp hrun
          · cases heq

/-- What an event of the run must leave of the rows and of the projection for the two to go on in
step. -/
theorem agrees_record {next : CommandStore} (h : Agrees parseDate runId store)
    (hrecord : Recordable runId store id payload)
    (hevents : next.events = (recorded runId store id payload).events)
    (hseq : next.nextEventSeq = store.nextEventSeq + 1)
    (hseqs : next.rows.map StoredCard.seq = store.rows.map StoredCard.seq ∧
      next.nextMessageSeq = store.nextMessageSeq ∨
      next.rows.map StoredCard.seq = store.rows.map StoredCard.seq ++ [store.nextMessageSeq] ∧
        next.nextMessageSeq = store.nextMessageSeq + 1)
    (hprojection : let event : CommandEvent := ⟨id, store.nextEventSeq, some runId, .card payload⟩
      let projection := projectEvent parseDate (project parseDate store.events) event
      next.rows.map StoredCard.card = projection.cards ∧
        projection.links = (project parseDate store.events).links ++
          event.link.toList.map (fun link => (runId, link)) ∧
        projection.seen = id :: (project parseDate store.events).seen ∧ (projection.cards.map Card.id).Nodup) :
    Agrees parseDate runId next := by
  obtain ⟨hrows, hlinks, hseen, hnodup⟩ := hprojection
  rw [recorded] at hevents
  have hlast : ∀ event ∈ next.events, event ∈ store.events ∨
      event = ⟨id, store.nextEventSeq, some runId, .card payload⟩ := by
    intro event hevent
    rw [hevents, mem_append, mem_singleton] at hevent
    exact hevent
  constructor
  case runs =>
    intro event hevent
    obtain hold | rfl := hlast event hevent
    · exact h.runs event hold
    · rfl
  case ids =>
    rw [hevents, map_append, nodup_append]
    refine ⟨h.ids, nodup_singleton _, ?_⟩
    rintro other hother new hnew rfl
    obtain rfl := mem_singleton.mp hnew
    exact hrecord.fresh hother
  case ordered =>
    rw [hevents, pairwise_append]
    refine ⟨h.ordered, pairwise_singleton _ _, fun event hevent new hnew => ?_⟩
    obtain rfl := mem_singleton.mp hnew
    exact h.below event hevent
  case below =>
    intro event hevent
    rw [hseq]
    obtain hold | rfl := hlast event hevent
    · have := h.below event hold
      omega
    · exact Int.lt_succ _
  case blocks =>
    intro event hevent block hat
    obtain hold | rfl := hlast event hevent
    · exact h.blocks event hold block hat
    · cases payload with
      | command type recordedBlock =>
        obtain rfl : recordedBlock = some block := hat
        exact hrecord.block type block rfl
      | resumed link => cases hat
  case cardEvents =>
    intro event hevent
    obtain hold | rfl := hlast event hevent
    · exact h.cardEvents event hold
    · exact ⟨nofun, payload, rfl⟩
  case rows => rw [hrows, hevents, project_concat]
  case rowSeqs =>
    obtain ⟨hsame, -⟩ | ⟨hmore, -⟩ := hseqs
    · rw [hsame]
      exact h.rowSeqs
    · rw [hmore, pairwise_append]
      refine ⟨h.rowSeqs, pairwise_singleton _ _, fun seq hmem new hnew => ?_⟩
      obtain rfl := mem_singleton.mp hnew
      exact h.rowsBelow seq hmem
  case rowsBelow =>
    obtain ⟨hsame, hnext⟩ | ⟨hmore, hnext⟩ := hseqs
    · rw [hsame, hnext]
      exact h.rowsBelow
    · rw [hmore, hnext]
      intro seq hmem
      obtain hold | hnew := mem_append.mp hmem
      · have := h.rowsBelow seq hold
        omega
      · rw [mem_singleton.mp hnew]
        exact Int.lt_succ _
  case links => rw [hevents, project_concat, hlinks, h.links, recordedLinks_concat, map_append]
  case seen =>
    intro other
    rw [hevents, project_concat, hseen, mem_cons, h.seen, map_append, mem_append, map_singleton, mem_singleton]
    exact or_comm
  case cardIds =>
    rw [hevents, project_concat]
    exact hnodup

theorem agrees_recordEvent (h : Agrees parseDate runId store) (hrecord : Recordable runId store id payload) :
    Agrees parseDate runId (recordEvent parseDate store id runId payload) := by
  have hnew : id ∉ (project parseDate store.events).seen := fun hseen => hrecord.fresh ((h.seen id).mp hseen)
  have hlinks := linksOf_map h.links
  have hruns : ∀ event ∈ (recorded runId store id payload).events, event.runId = some runId := by
    intro event hevent
    obtain hold | hlast := mem_append.mp hevent
    · exact h.runs event hold
    · rw [mem_singleton.mp hlast]
  cases payload with
  | resumed link =>
    cases link with
    | none =>
      obtain ⟨hcards, hlinks', hseen⟩ := @projectEvent_unlinked parseDate (project parseDate store.events)
        ⟨id, store.nextEventSeq, some runId, .card (.resumed none)⟩ hnew rfl
      refine agrees_record h hrecord rfl rfl (.inl ⟨rfl, rfl⟩) ⟨h.rows.trans hcards.symm, ?_, hseen, ?_⟩
      · rw [hlinks']
        exact (append_nil _).symm
      · rw [hcards]
        exact h.cardIds
    | some link =>
      obtain ⟨hcards, hlinks', hseen⟩ := @projectEvent_resumed parseDate (project parseDate store.events)
        ⟨id, store.nextEventSeq, some runId, .card (.resumed (some link))⟩ runId link h.cardIds hnew rfl rfl
      have hprior : ∀ commandId,
          commandJoins (resumeLinks (recorded runId store id (.resumed (some link))).events
            (some runId) commandId (some id))
            commandId = commandJoins (recordedLinks store.events) commandId := by
        intro commandId
        rw [recorded, resumeLinks_concat_except]
        refine commandJoins_resumeLinks h.runs (fun event hevent hsame => ?_) commandId
        exact hrecord.fresh (mem_map.mpr ⟨event, hevent, Option.some.inj hsame⟩)
      obtain ⟨hrows, hseqs, hevents, hnext, hseq⟩ := @materializeResumedCall_rows
        (recorded runId store id (.resumed (some link)))
        ⟨id, store.nextEventSeq, some runId, .card (.resumed (some link))⟩ link (recordedLinks store.events) hprior
      refine agrees_record h hrecord hevents hseq (.inl ⟨hseqs, hnext⟩) ⟨?_, hlinks', hseen, ?_⟩
      · rw [hcards, hlinks, ← h.rows]
        exact hrows
      · rw [hcards]
        exact nodup_addLink h.cardIds _ link
  | command type block =>
    rcases block with _ | block
    · exact absurd rfl (hrecord.parsed type)
    have hrun := hrecord.block type block rfl
    obtain ⟨hcards, hlinks', hseen⟩ := @projectEvent_command parseDate (project parseDate store.events)
      ⟨id, store.nextEventSeq, some runId, .card (.command type (some block))⟩ type block hnew
        (congrArg some hrun.symm) rfl
    have hjoins : commandJoins (resumeLinks (recorded runId store id (.command type (some block))).events (some runId)
        block.commandId none) block.commandId = commandJoins (recordedLinks store.events) block.commandId := by
      rw [commandJoins_resumeLinks hruns (fun _ _ => Option.some_ne_none _)]
      rw [recorded, recordedLinks_concat]
      exact congrArg (fun links => commandJoins links block.commandId) (append_nil _)
    obtain ⟨hrows, hseqs, hevents, hseq⟩ := @materializeBlock_rows parseDate
      (recorded runId store id (.command type (some block)))
      ⟨id, store.nextEventSeq, some runId, .card (.command type (some block))⟩ block _ hjoins
    refine agrees_record h hrecord hevents hseq hseqs ⟨?_, ?_, hseen, ?_⟩
    · rw [hcards, hrun, hlinks, ← h.rows]
      exact hrows
    · rw [hlinks']
      exact (append_nil _).symm
    · rw [hcards]
      exact nodup_addBlock h.cardIds _ block

variable (parseDate) in
theorem agrees_emptyStore (runId : Text) : Agrees parseDate runId emptyStore := by
  constructor
  case ids | ordered | rowSeqs | cardIds => exact List.Pairwise.nil
  case rows | links => rfl
  case seen =>
    intro id
    constructor
    · intro hmem
      cases hmem
    · intro hmem
      cases hmem
  case runs | below | blocks | cardEvents | rowsBelow =>
    intro _ hmem
    cases hmem

theorem agrees_apply (h : Agrees parseDate runId store) (op : StoreOp) :
    Agrees parseDate runId (op.apply parseDate runId store) := by
  cases op with
  | otherMessage =>
    refine { h with rowsBelow := fun seq hmem => ?_ }
    exact (h.rowsBelow seq hmem).trans (Int.lt_succ _)
  | otherEvent =>
    refine { h with below := fun event hevent => ?_ }
    exact (h.below event hevent).trans (Int.lt_succ _)
  | append id payload =>
    show Agrees parseDate runId (appendCardEvent parseDate runId store id payload)
    obtain hsame | hskipped | ⟨hrecord, hrecorded⟩ := @appendCardEvent_cases parseDate runId store id payload
    · rw [hsame]
      exact h
    · rw [hskipped]
      refine { h with below := fun event hevent => ?_ }
      exact (h.below event hevent).trans (Int.lt_succ _)
    · rw [hrecorded]
      exact agrees_recordEvent h hrecord

variable (parseDate) in
theorem agrees_after (runId : Text) (ops : List StoreOp) :
    Agrees parseDate runId (Run.after (StoreOp.apply parseDate runId) emptyStore ops) :=
  @Run.inv_after _ _ (StoreOp.apply parseDate runId) (Agrees parseDate runId)
    (fun _ op h => agrees_apply h op) _
    (agrees_emptyStore parseDate runId) ops

end

end

end ArdurBot.Commands
