import ArdurBot.Memory.Rows
import ArdurBot.Lib.Table

/-!
# The database reads what the journal reads

A row's filter says what `canAccess` says of its scope, if no bot of the access has a colon in its
id; so both stores list and read the same heads.
-/

namespace ArdurBot.Memory

open List Utf16 Json Paging Sorted

variable {access : MemoryAccess} {row : DocumentRow} {doc : StoredDocument}

section

variable (doc : StoredDocument)

theorem journalRows_getLast :
    (PostgresDocumentStore.currentRevision doc).elim (legacyRevision doc.row) (rowRevision doc.row) =
      rowRevision doc.row (doc.journalRows.getLast (journalRows_ne_nil doc)) := by
  unfold PostgresDocumentStore.currentRevision
  by_cases hrows : doc.revisions = []
  · have hlegacy : doc.journalRows = [legacyRow doc.row] := by
      rw [StoredDocument.journalRows, if_pos hrows]
    simp only [hrows, hlegacy, find?_nil, Option.elim_none, getLast_singleton]
    rfl
  · have hsame : doc.journalRows = doc.revisions := by
      rw [StoredDocument.journalRows, if_neg hrows]
    have hlast := getLast?_eq_some_getLast hrows
    have hrevision := (doc.current _ hlast).1
    have hsplit := dropLast_append_getLast hrows
    have hascending := doc.ascending
    rw [← hsplit, pairwise_append] at hascending
    -- Earlier revisions have smaller numbers.
    have hearlier : doc.revisions.dropLast.find? (fun revision => revision.revision = doc.row.revision) = none := by
      rw [find?_eq_none]
      intro revision hrevision' hsame'
      have hlt := hascending.2.2 revision hrevision' _ mem_cons_self
      rw [of_decide_eq_true hsame', hrevision] at hlt
      exact absurd hlt (lt_irrefl _)
    have hfind : doc.revisions.find? (fun revision => revision.revision = doc.row.revision) =
        some (doc.revisions.getLast hrows) := by
      conv_lhs => rw [← hsplit]
      rw [find?_append, hearlier, find?_singleton, decide_eq_true hrevision]
      rfl
    rw [hfind]
    simp only [hsame, Option.elim_some]

theorem head_eq : PostgresDocumentStore.head doc = documentHead (journalDocument doc) := by
  have hcurrent : (journalDocument doc).current =
      rowRevision doc.row (doc.journalRows.getLast (journalRows_ne_nil doc)) := getLast_map _
  unfold PostgresDocumentStore.head rowHead documentHead
  rw [hcurrent, journalRows_getLast doc]
  rfl

theorem current_scopeKey : (journalDocument doc).current.scopeKey = rowScope doc.row := by
  have hcurrent : (journalDocument doc).current =
      rowRevision doc.row (doc.journalRows.getLast (journalRows_ne_nil doc)) := getLast_map _
  rw [hcurrent]
  rfl

theorem head_deletedAt : (documentHead (journalDocument doc)).deletedAt = doc.row.deletedAt := by
  have hcurrent : (journalDocument doc).current =
      rowRevision doc.row (doc.journalRows.getLast (journalRows_ne_nil doc)) := getLast_map _
  show (journalDocument doc).current.deletedAt = doc.row.deletedAt
  rw [hcurrent]
  show (doc.journalRows.getLast (journalRows_ne_nil doc)).deletedAt = doc.row.deletedAt
  by_cases hrows : doc.revisions = []
  · have hlegacy : doc.journalRows = [legacyRow doc.row] := by
      rw [StoredDocument.journalRows, if_pos hrows]
    simp only [hlegacy, getLast_singleton]
    rfl
  · have hsame : doc.journalRows = doc.revisions := by
      rw [StoredDocument.journalRows, if_neg hrows]
    simp only [hsame]
    exact (doc.current _ (getLast?_eq_some_getLast hrows)).2

end

theorem mem_botIds {botId : Text} :
    botId ∈ (present access.botId).elim access.botIds (fun id => access.botIds.filter (· = id)) ↔
      canAccessBot access botId := by
  unfold canAccessBot
  cases present access.botId with
  | none => simp
  | some id =>
    rw [Option.elim_some, Option.all_some, mem_filter, Bool.and_eq_true, decide_eq_true_eq, decide_eq_true_eq,
      decide_eq_true_eq, @eq_comm _ id botId]

variable {botId groupId : Text}

theorem mem_visibleGroups : groupId ∈ (if (present access.runId).isSome then
        (direct :: access.groupIds).filter (· = access.groupId.getD direct) else direct :: access.groupIds) ↔
      canAccessGroup access groupId := by
  unfold canAccessGroup
  cases present access.runId with
  | none | some => simp

theorem groupKey_mem {access : MemoryAccess} (hids : ∀ id ∈ access.botIds, unit ':' ∉ id)
    {botIds groups : List Text}
    (hbots : ∀ id ∈ botIds, id ∈ access.botIds) (hbot : botId ∈ botIds) :
    groupKey botId groupId ∈ botIds.flatMap (fun id => groups.map (groupKey id)) ↔ groupId ∈ groups := by
  rw [mem_flatMap]
  constructor
  · rintro ⟨id, hid, hmem⟩
    obtain ⟨group, hgroup, hkey⟩ := mem_map.mp hmem
    rw [← (groupKey_inj (hids id (hbots id hid)) (hids botId (hbots botId hbot)) hkey).2]
    exact hgroup
  · intro hgroup
    exact ⟨botId, hbot, mem_map_of_mem hgroup⟩

theorem rowScope_group (hscope : row.scope = .group) (hbot : row.botId = some botId)
    (hkey : row.scopeKey = some (groupKey botId groupId)) :
    rowScope row = .group row.spaceId row.userId botId groupId := by
  unfold rowScope
  simp only [hscope, hbot, hkey, Option.getD_some]
  congr 1
  unfold groupKey
  rw [drop_append, drop_of_length_le (by omega)]
  simp

theorem authorizedDocumentWhere_eq (hids : ∀ id ∈ access.botIds, unit ':' ∉ id)
    (hcolumns : ScopeColumns row) :
    authorizedDocumentWhere access row = canAccess (rowScope row) access := by
  rw [Bool.eq_iff_iff]
  unfold authorizedDocumentWhere
  cases hscope : row.scope with
  | spaceShared =>
    have hrow : rowScope row = .spaceShared row.spaceId := by
      unfold rowScope
      rw [hscope]
    simp [hrow, canAccess]
  | user =>
    have hrow : rowScope row = .user row.spaceId row.userId := by
      unfold rowScope
      rw [hscope]
    simp [hrow, canAccess]
  | bot =>
    obtain ⟨botId, hbot⟩ := Option.isSome_iff_exists.mp (hcolumns.bot hscope)
    have hrow : rowScope row = .bot row.spaceId row.userId botId := by
      unfold rowScope
      rw [hscope, hbot]
      rfl
    have hmem := @mem_botIds access botId
    simp [hrow, canAccess, hbot, hmem]
  | group =>
    obtain ⟨botId, groupId, hbot, hkey⟩ := hcolumns.group hscope
    rw [rowScope_group hscope hbot hkey]
    have hbots : ∀ id ∈ (present access.botId).elim access.botIds (fun id => access.botIds.filter (· = id)),
        id ∈ access.botIds := by
      intro id hid
      have hcan := mem_botIds.mp hid
      unfold canAccessBot at hcan
      simp only [Bool.and_eq_true, decide_eq_true_eq] at hcan
      exact hcan.1
    simp only [hbot, hkey, canAccess, Bool.and_eq_true, Bool.or_eq_true, decide_eq_true_eq, Option.any_some,
      reduceCtorEq, false_and, false_or, or_false, true_and, mem_botIds]
    constructor
    · rintro ⟨hspace, ⟨huser, hcan⟩, hgroup⟩
      rw [groupKey_mem hids hbots (mem_botIds.mpr hcan)] at hgroup
      exact ⟨⟨hspace, mem_visibleGroups.mp hgroup⟩, huser, hcan⟩
    · rintro ⟨⟨hspace, hgroup⟩, huser, hcan⟩
      rw [groupKey_mem hids hbots (mem_botIds.mpr hcan)]
      exact ⟨hspace, ⟨huser, hcan⟩, mem_visibleGroups.mpr hgroup⟩

theorem kind_rowScope (row : DocumentRow) : (rowScope row).kind = row.scope := by
  unfold rowScope
  cases row.scope <;> rfl

theorem botId_rowScope (hcolumns : ScopeColumns row) : (rowScope row).botId = row.botId := by
  cases hscope : row.scope with
  | spaceShared =>
    rw [hcolumns.shared hscope]
    unfold rowScope
    rw [hscope]
    rfl
  | user =>
    rw [hcolumns.user hscope]
    unfold rowScope
    rw [hscope]
    rfl
  | bot =>
    obtain ⟨botId, hbot⟩ := Option.isSome_iff_exists.mp (hcolumns.bot hscope)
    unfold rowScope
    rw [hscope, hbot]
    rfl
  | group =>
    obtain ⟨botId, groupId, hbot, hkey⟩ := hcolumns.group hscope
    rw [rowScope_group hscope hbot hkey, hbot]
    rfl

theorem groupWhere_eq (hids : ∀ id ∈ access.botIds, unit ':' ∉ id) (hcolumns : ScopeColumns row)
    (hcan : canAccess (rowScope row) access) (groupId : Text) :
    (row.scope = .group && row.scopeKey.any (· ∈ access.botIds.map (groupKey · groupId))) =
      decide ((rowScope row).groupId = some groupId) := by
  by_cases hscope : row.scope = .group
  · obtain ⟨botId, groupId', hbot, hkey⟩ := hcolumns.group hscope
    rw [rowScope_group hscope hbot hkey] at hcan ⊢
    have hmem : botId ∈ access.botIds := by
      simp only [canAccess, canAccessBot, Bool.and_eq_true, decide_eq_true_eq] at hcan
      exact hcan.2.2.1
    rw [Bool.eq_iff_iff]
    simp only [hscope, hkey, decide_true, Bool.true_and, Option.any_some, decide_eq_true_eq, DocumentScope.groupId,
      Option.some.injEq, mem_map]
    constructor
    · rintro ⟨id, hid, heq⟩
      exact (groupKey_inj (hids id hid) (hids botId hmem) heq).2.symm
    · rintro rfl
      exact ⟨botId, hmem, rfl⟩
  · rw [decide_eq_false hscope, Bool.false_and, eq_comm, decide_eq_false_iff_not]
    intro hgroup
    apply hscope
    rw [← kind_rowScope row]
    cases hrow : rowScope row <;> rw [hrow] at hgroup <;> first | rfl | cases hgroup

theorem isListed_head (hids : ∀ id ∈ access.botIds, unit ':' ∉ id) (input : DocumentListInput)
    (doc : StoredDocument) :
    isListed input access (documentHead (journalDocument doc)) = listedDocumentWhere access input doc.row := by
  have hscope : (documentHead (journalDocument doc)).scopeKey = rowScope doc.row := current_scopeKey doc
  unfold isListed listedDocumentWhere
  rw [hscope, head_deletedAt doc, kind_rowScope, botId_rowScope doc.columns,
    authorizedDocumentWhere_eq hids doc.columns]
  cases hcan : canAccess (rowScope doc.row) access with
  | false => simp only [Bool.false_and]
  | true =>
    have hgroup : (present input.groupId).all (fun groupId => decide ((rowScope doc.row).groupId = some groupId)) =
        (present input.groupId).all fun groupId =>
          doc.row.scope = .group && doc.row.scopeKey.any (· ∈ access.botIds.map (groupKey · groupId)) := by
      congr 1
      funext groupId
      exact (groupWhere_eq hids doc.columns hcan groupId).symm
    rw [hgroup]

/-- What a table of documents keeps: one row for an id, and no id is empty. -/
structure DocumentTable where
  documents : List StoredDocument
  nodup : (documents.map fun doc => doc.row.id).Nodup
  named : ∀ doc ∈ documents, doc.row.id ≠ []

theorem ordered_eq (table : DocumentTable) {p q : StoredDocument → Bool}
    (hpq : ∀ doc, p doc → q doc) (count : ℕ) :
    let ids := ((sortByKey (fun doc : StoredDocument => doc.row.id) (table.documents.filter p)).take count).map
      fun doc => doc.row.id
    let rows := (table.documents.filter fun doc => q doc && doc.row.id ∈ ids).take ids.length
    (ids.filterMap fun id => rows.find? fun doc => doc.row.id = id) =
      (sortByKey (fun doc : StoredDocument => doc.row.id) (table.documents.filter p)).take count := by
  intro ids rows
  have hlisted : ∀ doc ∈ (sortByKey (fun doc : StoredDocument => doc.row.id) (table.documents.filter p)).take count,
      doc ∈ table.documents ∧ p doc := by
    intro doc hdoc
    exact mem_filter.mp (mem_sortByKey.mp (mem_of_mem_take hdoc))
  have hrowIds : ((table.documents.filter fun doc => q doc && doc.row.id ∈ ids).map fun doc => doc.row.id).Nodup :=
    nodup_filter table.nodup _
  -- As many rows are asked for as there are ids, and that is enough.
  have hlength : (table.documents.filter fun doc => q doc && doc.row.id ∈ ids).length ≤ ids.length := by
    rw [← length_map (f := fun doc : StoredDocument => doc.row.id)]
    apply (hrowIds.subperm _).length_le
    intro id hid
    obtain ⟨doc, hdoc, rfl⟩ := mem_map.mp hid
    have hkeep := (mem_filter.mp hdoc).2
    simp only [Bool.and_eq_true, decide_eq_true_eq] at hkeep
    exact hkeep.2
  have hrows : rows = table.documents.filter fun doc => q doc && doc.row.id ∈ ids := take_of_length_le hlength
  show (map _ _).filterMap _ = _
  rw [filterMap_map]
  calc filterMap _ _
      = filterMap some
        ((sortByKey (fun doc : StoredDocument => doc.row.id) (table.documents.filter p)).take
        count) := by
        apply filterMap_congr
        intro doc hdoc
        rw [hrows]
        apply (Table.find_eq_some hrowIds).mpr
        refine ⟨?_, rfl⟩
        rw [mem_filter, hpq doc (hlisted doc hdoc).2, Bool.true_and, decide_eq_true_eq]
        exact ⟨(hlisted doc hdoc).1, mem_map_of_mem hdoc⟩
    _ = _ := filterMap_some

theorem filter_heads (hids : ∀ id ∈ access.botIds, unit ':' ∉ id) (input : DocumentListInput)
    (documents : List StoredDocument) (p : Text → Bool) :
    ((((documents.map journalDocument).map documentHead).filter (isListed input access)).filter
      fun head => p head.id) =
      (documents.filter fun doc => listedDocumentWhere access input doc.row && p doc.row.id).map
        PostgresDocumentStore.head := by
  rw [filter_filter, map_map, filter_map]
  have hheads : documentHead ∘ journalDocument = PostgresDocumentStore.head := by
    funext doc
    exact (head_eq doc).symm
  have hfilter : ((fun head => p head.id && isListed input access head) ∘ (documentHead ∘ journalDocument)) =
      fun doc => listedDocumentWhere access input doc.row && p doc.row.id := by
    funext doc
    show (p doc.row.id && isListed input access (documentHead (journalDocument doc))) = _
    rw [isListed_head hids, Bool.and_comm]
  rw [hfilter, hheads]

theorem list_eq (safe : HeadCheck) (table : DocumentTable) (input : DocumentListInput)
    (hids : ∀ id ∈ access.botIds, unit ':' ∉ id) :
    PostgresDocumentStore.list safe table.documents input access =
      JournalDocumentStore.list safe (table.documents.map journalDocument) input access := by
  unfold PostgresDocumentStore.list JournalDocumentStore.list
  by_cases hrefuse : refusesBot input access
  · rw [if_pos hrefuse, if_pos hrefuse]
  rw [if_neg hrefuse, if_neg hrefuse]
  dsimp only
  have hauthorized : ∀ doc : StoredDocument,
      (listedDocumentWhere access input doc.row && isAfter id (present input.cursor) doc.row.id) →
        authorizedDocumentWhere access doc.row := by
    intro doc hdoc
    simp only [listedDocumentWhere, Bool.and_eq_true] at hdoc
    exact hdoc.1.1.1.1.1
  rw [ordered_eq table hauthorized (pageLimit input + 1)]
  unfold page
  have hsorted := filter_heads hids input table.documents (isAfter id (present input.cursor))
  rw [show (fun head : MemoryDocumentHead => isAfter id (present input.cursor) head.id) =
    isAfter MemoryDocumentHead.id (present input.cursor) from rfl] at hsorted
  rw [hsorted, sortByKey_map]
  show _ = Except.ok (firstPage _ _ _ ((sortByKey (fun doc : StoredDocument => doc.row.id) _).map _))
  generalize sortByKey (fun doc : StoredDocument => doc.row.id) (table.documents.filter fun doc =>
    listedDocumentWhere access input doc.row && isAfter id (present input.cursor) doc.row.id) = sorted
  unfold firstPage
  rw [take_take, min_eq_left (Nat.le_succ _), map_take, length_map, length_take, getElem?_map, Option.map_map]
  have hlimit := pageLimit_pos input
  by_cases hmore : pageLimit input < sorted.length
  · rw [if_pos (by omega), if_pos hmore, getElem?_take_of_lt (by omega)]
    rfl
  · rw [if_neg (by omega), if_neg hmore]

theorem read_eq (safe : HeadCheck) (table : DocumentTable) (id : Text)
    (hids : ∀ id ∈ access.botIds, unit ':' ∉ id) :
    PostgresDocumentStore.read safe table.documents id access =
      JournalDocumentStore.read safe (table.documents.map journalDocument) id access := by
  unfold PostgresDocumentStore.read JournalDocumentStore.read
  dsimp only
  have hfind : (table.documents.map journalDocument).find?
      (fun doc => decide (doc.id = id) && canAccess doc.current.scopeKey access) =
      ((table.documents.filter fun doc => authorizedDocumentWhere access doc.row &&
        decide (doc.row.id = id)).head?).map
        journalDocument := by
    rw [find?_map, head?_filter]
    congr 2
    funext doc
    show (decide (doc.row.id = id) && canAccess (journalDocument doc).current.scopeKey access) = _
    rw [current_scopeKey, authorizedDocumentWhere_eq hids doc.columns, Bool.and_comm]
  rw [hfind, head?_take, Option.map_map]
  have hheads : documentHead ∘ journalDocument = PostgresDocumentStore.head := by
    funext doc
    exact (head_eq doc).symm
  rw [hheads]
  rfl

/-- The page after a cursor. There is none when the list is refused. -/
def listPage (list : DocumentListInput → Except MemoryRefusal (Page MemoryDocumentHead Text))
    (input : DocumentListInput) (cursor : Option Text) : Page MemoryDocumentHead Text :=
  match list { input with cursor } with
  | .ok page => page
  | .error _ => { items := [], nextCursor := none }

/-- Following the cursors of the journal's lists visits each head once that is listed and safe to
show. -/
theorem follow_list (safe : HeadCheck) (table : DocumentTable) {input : DocumentListInput}
    (hallowed : refusesBot input access = false) :
    ∃ pages heads, follow
        (listPage (JournalDocumentStore.list safe (table.documents.map journalDocument) · access) input) pages none =
        some heads ∧
      (heads.map MemoryDocumentHead.id).Nodup ∧
      ∀ head, head ∈ heads ↔ (∃ doc ∈ table.documents, documentHead (journalDocument doc) = head) ∧
        isListed input access head ∧ safe head access.knownSecrets := by
  let items := ((table.documents.map journalDocument).map documentHead).filter (isListed input access)
  have hitems : ∀ head, head ∈ items ↔
      (∃ doc ∈ table.documents, documentHead (journalDocument doc) = head) ∧ isListed input access head := by
    intro head
    simp [items, mem_filter]
  have hnodup : (items.map MemoryDocumentHead.id).Nodup := by
    apply nodup_filter
    rw [map_map, map_map]
    exact table.nodup
  have hpage : ∀ cursor, listPage
      (JournalDocumentStore.list safe (table.documents.map journalDocument) · access) input cursor =
      page MemoryDocumentHead.id (safe · access.knownSecrets) (pageLimit input) items (present cursor) := by
    intro cursor
    have hallowed' : refusesBot { input with cursor } access = false := hallowed
    unfold listPage JournalDocumentStore.list
    dsimp only
    rw [hallowed']
    rfl
  refine ⟨items.length + 1,
    (sortByKey MemoryDocumentHead.id items).filter (safe · access.knownSecrets), ?_, ?_, ?_⟩
  · rw [← follow_first hnodup _ (pageLimit_pos input)]
    apply follow_congr _ _ (hpage none)
    intro from' cursor hcursor
    rw [hpage]
    -- A cursor is the id of a document, so it is not the empty text.
    obtain ⟨head, hhead, rfl⟩ := nextCursor_mem hcursor
    obtain ⟨⟨doc, hdoc, rfl⟩, -⟩ := (hitems head).mp hhead
    have hnamed : (documentHead (journalDocument doc)).id ≠ [] := table.named doc hdoc
    rw [present, Option.filter_some, if_pos (decide_eq_true hnamed)]
  · exact ((ordered_sortByKey hnodup).sublist filter_sublist).imp ne_of_lt |> pairwise_map.mpr
  · intro head
    rw [mem_filter, mem_sortByKey, hitems, and_assoc]

/-- Of any stored documents: a row is selected exactly when the access grants its scope; both stores
list and read the same heads; and the pages of a list, from the first to the last, have each head
once that is listed and safe to show. -/
theorem reads_agree (safe : HeadCheck) (table : DocumentTable) (access : MemoryAccess)
    (hids : ∀ id ∈ access.botIds, unit ':' ∉ id) :
    (∀ doc ∈ table.documents, authorizedDocumentWhere access doc.row = canAccess (rowScope doc.row) access) ∧
      (∀ input, PostgresDocumentStore.list safe table.documents input access =
        JournalDocumentStore.list safe (table.documents.map journalDocument) input access) ∧
      (∀ id, PostgresDocumentStore.read safe table.documents id access =
        JournalDocumentStore.read safe (table.documents.map journalDocument) id access) ∧
      ∀ input, refusesBot input access = false → ∃ pages heads,
        follow (listPage (PostgresDocumentStore.list safe table.documents · access) input) pages none = some heads ∧
          (heads.map MemoryDocumentHead.id).Nodup ∧
          ∀ head, head ∈ heads ↔ (∃ doc ∈ table.documents, documentHead (journalDocument doc) = head) ∧
            isListed input access head = true ∧ safe head access.knownSecrets = true := by
  refine ⟨?_, ?_, ?_, ?_⟩
  · intro doc hdoc
    exact authorizedDocumentWhere_eq hids doc.columns
  · intro input
    exact list_eq safe table input hids
  · intro id
    exact read_eq safe table id hids
  · intro input hallowed
    have hlists : (PostgresDocumentStore.list safe table.documents · access) =
        (JournalDocumentStore.list safe (table.documents.map journalDocument) · access) := by
      funext input
      exact list_eq safe table input hids
    rw [hlists]
    exact follow_list safe table hallowed

def groupRow : DocumentRow where
  kind := .topic
  id := lit "note"
  spaceId := lit "space"
  userId := lit "user"
  botId := some (lit "bot")
  scope := .group
  scopeKey := some (groupKey (lit "bot") (lit "group"))
  path := lit "note.md"
  content := lit "text"
  revision := 1
  deletedAt := none
  deliveryStatus := .delivered
  deliveryGeneration := 0
  deliveryProvider := none
  deliveryReceipt := none
  deliveryRetryAt := none
  updatedAt := lit "2026-01-01T00:00:00.000Z"

def userRow : DocumentRow :=
  { groupRow with id := lit "about", botId := none, scope := .user, scopeKey := none }

def sharedRow : DocumentRow :=
  { userRow with id := lit "plan", userId := lit "other", scope := .spaceShared }

/-- Another user's row, which is not listed. -/
def otherRow : DocumentRow := { userRow with id := lit "other", userId := lit "other" }

def legacyDocument (row : DocumentRow) (columns : ScopeColumns row) : StoredDocument where
  row
  revisions := []
  columns
  ascending := List.Pairwise.nil
  current last h := absurd h (Option.not_mem_none last)

theorem columns_groupRow : ScopeColumns groupRow where
  group _ := ⟨lit "bot", lit "group", rfl, rfl⟩
  bot h := by cases h
  user h := by cases h
  shared h := by cases h

theorem columns_of_user {row : DocumentRow} (hscope : row.scope = .user ∨ row.scope = .spaceShared)
    (hbot : row.botId = none) : ScopeColumns row where
  group h := by simp [h] at hscope
  bot h := by simp [h] at hscope
  user _ := hbot
  shared _ := hbot

def groupTable : DocumentTable where
  documents := [legacyDocument sharedRow (columns_of_user (.inr rfl) rfl),
    legacyDocument groupRow columns_groupRow,
    legacyDocument otherRow (columns_of_user (.inl rfl) rfl), legacyDocument userRow (columns_of_user (.inl rfl) rfl)]
  nodup := by decide
  named := by decide

def groupAccess : MemoryAccess where
  spaceId := lit "space"
  userId := lit "user"
  botId := some (lit "bot")
  runId := some (lit "run")
  botIds := [lit "bot"]
  groupIds := [lit "group"]
  groupId := some (lit "group")
  knownSecrets := []

/-- One document a page. -/
def onePage : DocumentListInput where
  scope := none
  botId := none
  groupId := none
  includeDeleted := false
  limit := some 1
  cursor := none

theorem reads_agree_group :
    (listPage (JournalDocumentStore.list (fun _ _ => true) (groupTable.documents.map journalDocument) · groupAccess)
      onePage (some (lit "about"))).items.map MemoryDocumentHead.id = [lit "note"] ∧
    ∃ pages heads, follow (listPage (PostgresDocumentStore.list (fun _ _ => true) groupTable.documents · groupAccess)
      onePage) pages none = some heads ∧ (heads.map MemoryDocumentHead.id).Nodup := by
  obtain ⟨-, hlists, -, hpages⟩ := reads_agree (fun _ _ => true) groupTable groupAccess (by decide)
  obtain ⟨pages, heads, hfollow, hnodup, -⟩ := hpages onePage (by decide)
  refine ⟨?_, pages, heads, hfollow, hnodup⟩
  unfold listPage
  dsimp only
  rw [← hlists]
  decide +kernel

end ArdurBot.Memory
