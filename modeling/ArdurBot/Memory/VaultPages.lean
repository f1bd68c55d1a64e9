import ArdurBot.Memory.VaultImport

/-!
# The pages of a vault and its private store

Each page is the first of what both stores have after its cursor. The pages visit each document once
that is visible in its own store, unless an id is visible in both: then pages of one document pass
over one of the two.
-/

namespace ArdurBot.Memory

open List Utf16 Json Paging Sorted

variable {access : MemoryAccess}

structure JournalStore.Answers (store : JournalStore) (access : MemoryAccess) : Prop where
  opens : store.opens access = none
  keeps : store.keeps store.documents = none
  finishes : store.finishes store.documents = none

theorem JournalStore.list_eq {store : JournalStore} (h : store.Answers access) (safe : HeadCheck)
    {input : DocumentListInput} (hallowed : refusesBot input access = false) :
    store.list safe input access =
      .ok (page MemoryDocumentHead.id (safe · access.knownSecrets) (pageLimit input)
        ((store.documents.map documentHead).filter (isListed input access)) (present input.cursor)) := by
  unfold JournalStore.list JournalStore.transaction
  rw [h.opens]
  dsimp only
  unfold JournalDocumentStore.list
  rw [hallowed, if_neg Bool.false_ne_true]
  dsimp only
  rw [h.keeps]
  rw [h.finishes]

namespace VaultWithPrivateDocuments

variable {limit : ℕ} {cursor : Option Text} {choice : StoreChoice}

theorem collect_eq {list : DocumentListInput → Except StoreRefusal (Page MemoryDocumentHead Text)}
    {next : Option Text → Page MemoryDocumentHead Text} {kept : MemoryDocumentHead → Bool}
    {input : DocumentListInput}
    (hlist : ∀ cursor, list { input with cursor, limit := some 100 } = .ok (next (present cursor)))
    (hnamed : ∀ cursor after, (next cursor).nextCursor = some after → after ≠ []) {fuel : ℕ}
    {items part : List MemoryDocumentHead} (h : gather next kept limit fuel items (present cursor) = some part) :
    collect list kept input limit fuel items cursor = .ok part := by
  induction fuel generalizing items cursor with
  | zero => cases h
  | succ fuel ih =>
    unfold gather at h
    unfold collect
    rw [hlist]
    dsimp only at h ⊢
    cases hnext : (next (present cursor)).nextCursor with
    | none =>
      rw [hnext] at h
      rw [← Option.some.inj h]
      rfl
    | some after =>
      have hafter : present (some after) = some after := by
        rw [present, Option.filter_some, if_pos (decide_eq_true (hnamed _ _ hnext))]
      rw [hnext] at h
      rw [hafter]
      dsimp only at h ⊢
      split
      · next hfew =>
        rw [if_pos hfew] at h
        apply ih
        rw [hafter]
        exact h
      · next hmany =>
        rw [if_neg hmany] at h
        rw [← Option.some.inj h]

variable (stores : VaultWithPrivateDocuments) (safe : HeadCheck) (input : DocumentListInput)
  (access : MemoryAccess)

/-- The heads that are visible in their own store. -/
def visible (choice : StoreChoice) : List MemoryDocumentHead :=
  ((((stores.store choice).documents.map documentHead).filter (isListed input access)).filter
    (safe · access.knownSecrets)).filter (stores.selects choice)

def visibleAfter (choice : StoreChoice) (cursor : Option Text) : List MemoryDocumentHead :=
  (sortByKey MemoryDocumentHead.id (stores.visible safe input access choice)).filter
    (isAfter MemoryDocumentHead.id (present cursor))

/-- The page after a cursor. There is none when the list is refused. -/
def pageAfter (limit : ℕ) (cursor : Option Text) : Page MemoryDocumentHead Text :=
  match stores.list safe { input with cursor, limit := some limit } access with
  | .ok page => page
  | .error _ => { items := [], nextCursor := none }

/-- The pages, from the first to the last, have each head once that is visible in its own store. -/
def VisitsOnce (limit : ℕ) : Prop :=
  ∃ pages heads, follow (stores.pageAfter safe input access limit) pages none = some heads ∧
    heads.Perm (stores.visible safe input access .vault ++ stores.visible safe input access .privateStore)

variable {stores safe input access}

theorem nodup_heads (choice : StoreChoice) :
    (((stores.store choice).documents.map documentHead).map MemoryDocumentHead.id).Nodup := by
  rw [map_map]
  exact (stores.store choice).unique

theorem nodup_visible (choice : StoreChoice) :
    ((stores.visible safe input access choice).map MemoryDocumentHead.id).Nodup :=
  nodup_filter (nodup_filter (nodup_filter (nodup_heads choice) _) _) _

theorem ordered_visibleAfter (choice : StoreChoice) (cursor : Option Text) :
    Ordered MemoryDocumentHead.id (stores.visibleAfter safe input access choice cursor) :=
  (ordered_sortByKey (nodup_visible choice)).sublist filter_sublist

theorem named_visible {head : MemoryDocumentHead}
    (h : head ∈ stores.visible safe input access choice) : head.id ≠ [] := by
  have hhead := mem_of_mem_filter (mem_of_mem_filter (mem_of_mem_filter h))
  obtain ⟨doc, hdoc, rfl⟩ := mem_map.mp hhead
  exact (stores.store choice).named doc hdoc

theorem mem_visibleAfter {head : MemoryDocumentHead} :
    head ∈ stores.visibleAfter safe input access choice cursor ↔
      head ∈ stores.visible safe input access choice ∧ isAfter MemoryDocumentHead.id (present cursor) head := by
  unfold visibleAfter
  rw [mem_filter, mem_sortByKey]

theorem collect_enough {choice : StoreChoice} (h : (stores.store choice).Answers access)
    (hallowed : refusesBot input access = false) (size : Option ℤ) (limit : ℕ) (cursor : Option Text) :
    ∃ part, collect ((stores.store choice).list safe · access) (stores.selects choice)
      { input with cursor, limit := size } limit
      ((stores.store choice).documents.length + 1) [] cursor = .ok part ∧
      IsEnough limit part (stores.visibleAfter safe input access choice cursor) := by
  let items := ((stores.store choice).documents.map documentHead).filter (isListed input access)
  have hnodup : (items.map MemoryDocumentHead.id).Nodup := nodup_filter (nodup_heads choice) _
  have hsplit := Ordered.split (ordered_sortByKey hnodup) (present cursor)
  have hlength : ((sortByKey MemoryDocumentHead.id items).filter
      (isAfter MemoryDocumentHead.id (present cursor))).length <
      (stores.store choice).documents.length + 1 := by
    have hfilter := length_filter_le (isAfter MemoryDocumentHead.id (present cursor))
      (sortByKey MemoryDocumentHead.id items)
    have hitems := length_filter_le (isListed input access) ((stores.store choice).documents.map documentHead)
    rw [length_sortByKey] at hfilter
    rw [length_map] at hitems
    exact Nat.lt_succ_of_le (hfilter.trans hitems)
  obtain ⟨part, hgather, henough⟩ := gather_rest hnodup (safe · access.knownSecrets) (stores.selects choice)
    (show 0 < 100 by decide) limit _ [] hsplit (by rw [← hsplit]) hlength
  refine ⟨part, collect_eq ?_ ?_ hgather, ?_⟩
  · intro cursor
    have hallowed' : refusesBot { input with cursor, limit := some 100 } access = false := hallowed
    exact JournalStore.list_eq h safe hallowed'
  · intro cursor after hafter
    obtain ⟨head, hhead, rfl⟩ := nextCursor_mem hafter
    obtain ⟨doc, hdoc, rfl⟩ := mem_map.mp (mem_of_mem_filter hhead)
    exact (stores.store choice).named doc hdoc
  · have hsame : (((sortByKey MemoryDocumentHead.id items).filter
        (isAfter MemoryDocumentHead.id (present cursor))).filter (safe · access.knownSecrets)).filter
          (stores.selects choice) = stores.visibleAfter safe input access choice cursor := by
      unfold visibleAfter visible
      rw [sortByKey_filter (nodup_filter hnodup _), sortByKey_filter hnodup]
      simp only [filter_filter]
      congr 1
      funext head
      ac_rfl
    rw [nil_append, hsame] at henough
    exact henough

theorem list_eq (h : ∀ choice, (stores.store choice).Answers access)
    (hallowed : refusesBot input access = false) (limit : ℕ) (cursor : Option Text) :
    ∃ vault own, IsEnough limit vault (stores.visibleAfter safe input access .vault cursor) ∧
      IsEnough limit own (stores.visibleAfter safe input access .privateStore cursor) ∧
      stores.pageAfter safe input access limit cursor = mergedPage MemoryDocumentHead.id limit vault own := by
  obtain ⟨vault, hvault, hvaultEnough⟩ :=
    @collect_enough stores safe input access _ (h .vault) hallowed (limit : ℤ) limit cursor
  obtain ⟨own, hown, hownEnough⟩ :=
    @collect_enough stores safe input access _ (h .privateStore) hallowed (limit : ℤ) limit cursor
  refine ⟨vault, own, hvaultEnough, hownEnough, ?_⟩
  have hvault' : stores.collectFrom safe .vault { input with cursor, limit := some limit } access =
      .ok vault := hvault
  have hown' : stores.collectFrom safe .privateStore { input with cursor, limit := some limit }
      access = .ok own := hown
  unfold pageAfter VaultWithPrivateDocuments.list
  rw [hvault', hown']
  rfl

def Apart (stores : VaultWithPrivateDocuments) (safe : HeadCheck) (input : DocumentListInput)
    (access : MemoryAccess) :
    Prop :=
  ∀ a ∈ stores.visible safe input access .vault,
    ∀ b ∈ stores.visible safe input access .privateStore, a.id ≠ b.id

theorem nodup_both : ((stores.visible safe input access .vault ++
    stores.visible safe input access .privateStore).map
    MemoryDocumentHead.id).Nodup ↔ stores.Apart safe input access := by
  rw [map_append, nodup_append]
  constructor
  · rintro ⟨-, -, hapart⟩ a ha b hb
    exact hapart _ (mem_map_of_mem ha) _ (mem_map_of_mem hb)
  · intro hapart
    refine ⟨nodup_visible _, nodup_visible _, ?_⟩
    intro id hid id' hid'
    obtain ⟨a, ha, rfl⟩ := mem_map.mp hid
    obtain ⟨b, hb, rfl⟩ := mem_map.mp hid'
    exact hapart a ha b hb

section

variable (h : ∀ choice, (stores.store choice).Answers access)
  (hallowed : refusesBot input access = false) (hapart : stores.Apart safe input access)
  (hlimit : 0 < limit)
include h hallowed hapart hlimit

theorem pageAfter_eq (cursor : Option Text) : stores.pageAfter safe input access limit cursor =
      page MemoryDocumentHead.id (fun _ => true) limit
        (stores.visible safe input access .vault ++ stores.visible safe input access .privateStore)
          (present cursor) := by
  obtain ⟨vault, own, hvault, hown, hpage⟩ := @list_eq stores safe input access h hallowed limit cursor
  have hboth := nodup_both.mpr hapart
  have hafter : ((stores.visibleAfter safe input access .vault cursor ++
      stores.visibleAfter safe input access .privateStore cursor).map MemoryDocumentHead.id).Nodup := by
    rw [map_append, nodup_append]
    refine ⟨nodup_filter (ordered_sortByKey (nodup_visible _)).nodup_map _,
      nodup_filter (ordered_sortByKey (nodup_visible _)).nodup_map _, ?_⟩
    intro id hid id' hid'
    obtain ⟨a, ha, rfl⟩ := mem_map.mp hid
    obtain ⟨b, hb, rfl⟩ := mem_map.mp hid'
    exact hapart a (mem_visibleAfter.mp ha).1 b (mem_visibleAfter.mp hb).1
  rw [hpage, mergedPage_eq hvault hown (ordered_visibleAfter _ _) (ordered_visibleAfter _ _) hafter]
  unfold page
  apply mergedPage_eq_page hlimit _ (nodup_filter hboth _) hafter
  intro head
  rw [mem_filter, mem_append, mem_append, mem_visibleAfter, mem_visibleAfter]
  exact or_and_right

theorem visitsOnce_of_apart : stores.VisitsOnce safe input access limit := by
  let heads := stores.visible safe input access .vault ++ stores.visible safe input access .privateStore
  have hpage := fun cursor => pageAfter_eq h hallowed hapart hlimit cursor
  refine ⟨heads.length + 1, (sortByKey MemoryDocumentHead.id heads).filter fun _ => true, ?_, ?_⟩
  · rw [← follow_first (nodup_both.mpr hapart) _ hlimit]
    apply follow_congr _ _ (hpage none)
    intro before cursor hcursor
    rw [hpage]
    -- A cursor is the id of a document, so it is not the empty text.
    obtain ⟨head, hhead, rfl⟩ := nextCursor_mem hcursor
    have hnamed : head.id ≠ [] := by
      obtain hhead | hhead := mem_append.mp hhead
      · exact named_visible hhead
      · exact named_visible hhead
    rw [present, Option.filter_some, if_pos (decide_eq_true hnamed)]
  · rw [filter_true]
    exact perm_insertionSort _ _

end

theorem nil_lt {text : Text} (h : text ≠ []) : [] < text := by
  cases text with
  | nil => exact absurd rfl h
  | cons u rest => exact nil_lt_cons u rest

section

variable (h : ∀ choice, (stores.store choice).Answers access)
  (hallowed : refusesBot input access = false)
include h hallowed

theorem single_page (cursor : Option Text) :
    stores.pageAfter safe input access 1 cursor = { items := [], nextCursor := none } ∨
      ∃ head, (stores.pageAfter safe input access 1 cursor).items = [head] ∧
        isAfter MemoryDocumentHead.id cursor head ∧
        ∀ after ∈ (stores.pageAfter safe input access 1 cursor).nextCursor, after = head.id := by
  obtain ⟨vault, own, hvault, hown, hpage⟩ := @list_eq stores safe input access h hallowed 1 cursor
  rw [hpage]
  unfold mergedPage
  dsimp only
  cases hall : sortByKey MemoryDocumentHead.id (vault ++ own) with
  | nil => exact .inl rfl
  | cons head rest =>
    refine .inr ⟨head, rfl, ?_, ?_⟩
    · have hhead : head ∈ vault ++ own := by
        rw [← @mem_sortByKey _ _ _ MemoryDocumentHead.id, hall]
        exact mem_cons_self
      have hvisible : ∃ choice, head ∈ stores.visibleAfter safe input access choice cursor := by
        obtain hhead | hhead := mem_append.mp hhead
        · exact ⟨_, hvault.1.subset hhead⟩
        · exact ⟨_, hown.1.subset hhead⟩
      obtain ⟨choice, hvisible⟩ := hvisible
      obtain ⟨hmem, hafter⟩ := mem_visibleAfter.mp hvisible
      rcases cursor with _ | cursor
      · rfl
      by_cases hempty : cursor = []
      · rw [hempty]
        exact isAfter_some.mpr (nil_lt (named_visible hmem))
      · rwa [present, Option.filter_some, if_pos (decide_eq_true hempty)] at hafter
    · intro after hafter
      split at hafter
      · exact (Option.some.inj hafter).symm
      · cases hafter

theorem apart_of_visitsOnce (hvisits : stores.VisitsOnce safe input access 1) :
    stores.Apart safe input access := by
  obtain ⟨pages, heads, hfollow, hperm⟩ := hvisits
  have hsingle := fun cursor => @single_page stores safe input access h hallowed cursor
  have hordered : Ordered MemoryDocumentHead.id heads := by
    refine (ordered_follow ?_ ?_ ?_ ?_ pages hfollow).1
    · intro cursor after hafter item hitem
      obtain hnone | ⟨head, hitems, -, hlast⟩ := hsingle cursor
      · rw [hnone] at hafter
        cases hafter
      · rw [hitems] at hitem
        rw [mem_singleton.mp hitem, hlast after hafter]
    · intro cursor item hitem
      obtain hnone | ⟨head, hitems, hhead, -⟩ := hsingle cursor
      · rw [hnone] at hitem
        exact absurd hitem not_mem_nil
      · rw [hitems] at hitem
        rw [mem_singleton.mp hitem]
        exact hhead
    · intro cursor
      obtain hnone | ⟨head, hitems, -, -⟩ := hsingle cursor
      · rw [hnone]
        exact List.Pairwise.nil
      · rw [hitems]
        exact pairwise_singleton _ _
    · intro cursor after hafter before hbefore
      obtain hnone | ⟨head, -, hhead, hlast⟩ := hsingle cursor
      · rw [hnone] at hafter
        cases hafter
      · rw [hlast after hafter]
        subst hbefore
        exact le_of_lt (isAfter_some.mp hhead)
  rw [← nodup_both]
  exact (hperm.map _).nodup_iff.mp (pairwise_map.mpr (hordered.imp ne_of_lt))

/-- Of any two stores that answer: pages of every size visit each visible document once, but when an
id is visible in both stores. -/
theorem visitsOnce_iff :
    (∀ limit, 0 < limit → stores.VisitsOnce safe input access limit) ↔ stores.Apart safe input access := by
  constructor
  · intro hvisits
    exact apart_of_visitsOnce h hallowed (hvisits 1 Nat.one_pos)
  · intro hapart limit hlimit
    exact visitsOnce_of_apart h hallowed hapart hlimit

end

end VaultWithPrivateDocuments

/-- Of any two stores, an import is all or nothing exactly when it is not torn. Where both answer,
pages of every size visit each document once that is visible in its own store exactly when no id is
visible in both. -/
theorem vault_holds (stores : VaultWithPrivateDocuments) (rules : MemoryRules) (safeExport : ExportCheck)
    (safe : HeadCheck) (bundle : MemoryBundle) (delivery : DocumentDelivery) (input : DocumentListInput)
    (access : MemoryAccess) :
    (stores.AllOrNothing bundle delivery (stores.importBundle rules safeExport bundle delivery access) ↔
        stores.isTorn rules safeExport bundle delivery access = false) ∧
      ((∀ choice, (stores.store choice).Answers access) → refusesBot input access = false →
        ((∀ limit, 0 < limit → stores.VisitsOnce safe input access limit) ↔ stores.Apart safe input access)) :=
  ⟨VaultWithPrivateDocuments.allOrNothing_iff, VaultWithPrivateDocuments.visitsOnce_iff⟩

def scopedNote (id : Text) (scope : DocumentScope) : DocumentRevision :=
  { sharedNote none with documentId := id, scopeKey := scope }

def scopedDocument (id : Text) (scope : DocumentScope) : JournalDocument where
  id
  revisions := [scopedNote id scope]
  delivery := delivered
  nonempty := cons_ne_nil _ _

def openOptions : VaultOptions where
  spaceId := lit "s"
  ownerUserId := lit "u"

def openFiles : VaultFiles where
  read := none
  writeJournal := fun _ => none
  publish := fun _ => none

def openDatabase : Database where
  elsewhere := []
  bots := [lit "b"]
  read := none
  write := fun _ => none

/-- An empty vault, and a private store with one document. -/
def vaultAnd (doc : JournalDocument) (hnamed : doc.id ≠ []) : VaultWithPrivateDocuments where
  vault := obsidianStore openRules openOptions openFiles [] nodup_nil (forall_mem_nil _)
  privateStore := postgresStore openDatabase [doc] (nodup_singleton _) (forall_mem_singleton.mpr hnamed)
  ownerUserId := some openOptions.ownerUserId

/-- A note that is shared in the space, and a bot's. -/
def mixedBundle : MemoryBundle where
  documents :=
    [{ id := lit "a", revisions := [scopedNote (lit "a") (.spaceShared (lit "s"))] },
      { id := lit "b", revisions := [scopedNote (lit "b") (.bot (lit "s") (lit "u") (lit "b"))] }]

def allInput : DocumentListInput where
  cursor := none
  limit := none
  scope := none
  groupId := none
  botId := none
  includeDeleted := false

/-- The bot's note is in the private store already. -/
theorem vault_holds_mixed :
    let stores := vaultAnd (scopedDocument (lit "b") (.bot (lit "s") (lit "u") (lit "b"))) (by decide)
    stores.AllOrNothing mixedBundle delivered
        (stores.importBundle openRules (fun _ _ => true) mixedBundle delivered (ownerAccess (lit "u"))) ∧
      ∀ limit, 0 < limit → stores.VisitsOnce (fun _ _ => true) allInput (ownerAccess (lit "u")) limit := by
  intro stores
  have hanswers : ∀ choice, (stores.store choice).Answers (ownerAccess (lit "u")) := by
    intro choice
    cases choice with
    | vault => exact ⟨by decide +kernel, by decide +kernel, rfl⟩
    | privateStore => exact ⟨rfl, by decide +kernel, rfl⟩
  obtain ⟨himport, hpages⟩ :=
    vault_holds stores openRules (fun _ _ => true) (fun _ _ => true) mixedBundle delivered
    allInput (ownerAccess (lit "u"))
  refine ⟨himport.mpr (by decide +kernel), (hpages hanswers (by decide)).mpr ?_⟩
  unfold VaultWithPrivateDocuments.Apart
  decide +kernel

/-- Another user's document has the id of the bundle's second note. -/
def hiddenId : VaultWithPrivateDocuments :=
  vaultAnd (scopedDocument (lit "b") (.user (lit "s") (lit "v"))) (by decide)

/-- A document of the vault has the id of a bot's note. -/
def sameIds : VaultWithPrivateDocuments where
  vault := obsidianStore openRules openOptions openFiles [scopedDocument (lit "a") (.spaceShared (lit "s"))]
    (nodup_singleton _) (by decide)
  privateStore := postgresStore openDatabase [scopedDocument (lit "a") (.bot (lit "s") (lit "u") (lit "b"))]
    (nodup_singleton _) (by decide)
  ownerUserId := some openOptions.ownerUserId

/-- The private store refuses the bundle after the vault has taken the shared note. Where an id is
in both stores, one of its documents is passed over. -/
theorem vault_fails : ¬ hiddenId.AllOrNothing mixedBundle delivered
        (hiddenId.importBundle openRules (fun _ _ => true) mixedBundle delivered (ownerAccess (lit "u"))) ∧
      ¬ ∀ limit, 0 < limit → sameIds.VisitsOnce (fun _ _ => true) allInput (ownerAccess (lit "u")) limit := by
  constructor
  · rw [VaultWithPrivateDocuments.allOrNothing_iff]
    decide +kernel
  · have hanswers : ∀ choice, (sameIds.store choice).Answers (ownerAccess (lit "u")) := by
      intro choice
      cases choice with
      | vault => exact ⟨by decide +kernel, by decide +kernel, rfl⟩
      | privateStore => exact ⟨rfl, by decide +kernel, rfl⟩
    rw [VaultWithPrivateDocuments.visitsOnce_iff hanswers (by decide)]
    unfold VaultWithPrivateDocuments.Apart
    decide +kernel

end ArdurBot.Memory
