import ArdurBot.Memory.Vault

/-!
# An import into a vault and its private store

The preview of an import sees what both stores export to an access; each store then checks its half
against all that it has. An import leaves both stores as they were, or takes the whole bundle,
unless the vault has taken something new before the import stops.
-/

namespace ArdurBot.Memory

open List Utf16 Json Paging

variable {rules : MemoryRules} {docs : List JournalDocument} {delivery : DocumentDelivery}
  {access : MemoryAccess}

def IsImport (delivery : DocumentDelivery) (doc : BundleDocument) (other : JournalDocument) : Prop :=
  other.id = doc.id ∧ other.revisions = doc.revisions ∧ other.delivery = delivery

instance (doc : BundleDocument) (other : JournalDocument) : Decidable (IsImport delivery doc other) :=
  inferInstanceAs (Decidable (_ ∧ _ ∧ _))

variable {doc : BundleDocument} {other : JournalDocument}

theorem IsImport.eq {a b : JournalDocument} (ha : IsImport delivery doc a)
    (hb : IsImport delivery doc b) : a = b := by
  obtain ⟨id, revisions, delivery', hne⟩ := a
  obtain ⟨hid, hrevisions, hdelivery⟩ := ha
  obtain ⟨hid', hrevisions', hdelivery'⟩ := hb
  dsimp only at hid hrevisions hdelivery
  subst hid hrevisions hdelivery
  obtain ⟨id', revisions', delivery'', hne'⟩ := b
  dsimp only at hid' hrevisions' hdelivery'
  subst hid' hrevisions' hdelivery'
  rfl

theorem isImport_imported (doc : BundleDocument) (hne : doc.revisions ≠ []) :
    IsImport delivery doc (doc.imported delivery hne) := ⟨rfl, rfl, rfl⟩

theorem mem_importDocument_iff (hne : doc.revisions ≠ []) :
    other ∈ importDocument delivery docs doc ↔ other ∈ docs ∧ doc.id ≠ other.id ∨ IsImport delivery doc other := by
  rw [importDocument_eq hne]
  by_cases hany : docs.any (fun other => other.id = doc.id) = true
  · rw [if_pos hany, mem_map]
    constructor
    · rintro ⟨old, hold, rfl⟩
      by_cases hid : old.id = doc.id
      · rw [if_pos hid]
        exact .inr (isImport_imported doc hne)
      · rw [if_neg hid]
        exact .inl ⟨hold, fun h => hid h.symm⟩
    · rintro (⟨hother, hid⟩ | himport)
      · exact ⟨other, hother, if_neg fun h => hid h.symm⟩
      · obtain ⟨old, hold, hid⟩ := any_eq_true.mp hany
        refine ⟨old, hold, ?_⟩
        rw [if_pos (of_decide_eq_true hid)]
        exact (isImport_imported doc hne).eq himport
  · rw [if_neg hany, mem_append, mem_singleton]
    have hnone : ∀ other ∈ docs, doc.id ≠ other.id := by
      intro other hother hid
      exact hany (any_eq_true.mpr ⟨other, hother, decide_eq_true hid.symm⟩)
    constructor
    · rintro (hother | rfl)
      · exact .inl ⟨hother, hnone other hother⟩
      · exact .inr (isImport_imported doc hne)
    · rintro (⟨hother, -⟩ | himport)
      · exact .inl hother
      · exact .inr (himport.eq (isImport_imported doc hne))

theorem mem_importDocuments {bundle : List BundleDocument}
    (hne : ∀ doc ∈ bundle, doc.revisions ≠ []) (hids : (bundle.map BundleDocument.id).Nodup) :
    other ∈ bundle.foldl (importDocument delivery) docs ↔
      (other ∈ docs ∧ ∀ doc ∈ bundle, doc.id ≠ other.id) ∨ ∃ doc ∈ bundle, IsImport delivery doc other := by
  induction bundle generalizing docs with
  | nil => simp
  | cons first bundle ih =>
    rw [map_cons, nodup_cons] at hids
    rw [foldl_cons, ih (fun doc hdoc => hne doc (mem_cons_of_mem _ hdoc)) hids.2,
      mem_importDocument_iff (hne first mem_cons_self)]
    have hother : IsImport delivery first other → ∀ doc ∈ bundle, doc.id ≠ other.id := by
      intro himport doc hdoc hid
      exact hids.1 (mem_map.mpr ⟨doc, hdoc, hid.trans himport.1⟩)
    constructor
    · rintro (⟨⟨hdocs, hid⟩ | himport, hrest⟩ | ⟨doc, hdoc, himport⟩)
      · exact .inl ⟨hdocs, forall_mem_cons.mpr ⟨hid, hrest⟩⟩
      · exact .inr ⟨first, mem_cons_self, himport⟩
      · exact .inr ⟨doc, mem_cons_of_mem _ hdoc, himport⟩
    · rintro (⟨hdocs, hall⟩ | ⟨doc, hdoc, himport⟩)
      · obtain ⟨hid, hrest⟩ := forall_mem_cons.mp hall
        exact .inl ⟨.inl ⟨hdocs, hid⟩, hrest⟩
      · obtain rfl | hdoc := mem_cons.mp hdoc
        · exact .inl ⟨.inr himport, hother himport⟩
        · exact .inr ⟨doc, hdoc, himport⟩

theorem importDocument_same (hunique : (docs.map JournalDocument.id).Nodup)
    (hne : doc.revisions ≠ []) (hother : other ∈ docs) (himport : IsImport delivery doc other) :
    importDocument delivery docs doc = docs := by
  rw [importDocument_eq hne, if_pos (any_eq_true.mpr ⟨other, hother, decide_eq_true himport.1⟩)]
  conv_rhs => rw [← map_id docs]
  refine map_congr_left fun old hold => ?_
  split
  · next hid =>
    have hsame : old = other := Table.eq_of_key hunique hold hother (hid.trans himport.1.symm)
    rw [hsame]
    exact (isImport_imported doc hne).eq himport
  · rfl

/-- An import changes nothing exactly when the documents are there already, as it would leave
them. -/
theorem importDocuments_same {bundle : List BundleDocument} (hunique : (docs.map JournalDocument.id).Nodup)
    (hne : ∀ doc ∈ bundle, doc.revisions ≠ []) (hids : (bundle.map BundleDocument.id).Nodup) :
    bundle.foldl (importDocument delivery) docs = docs ↔
      ∀ doc ∈ bundle, ∃ other ∈ docs, IsImport delivery doc other := by
  constructor
  · intro hsame doc hdoc
    refine ⟨doc.imported delivery (hne doc hdoc), ?_, isImport_imported doc (hne doc hdoc)⟩
    rw [← hsame, mem_importDocuments hne hids]
    exact .inr ⟨doc, hdoc, isImport_imported doc (hne doc hdoc)⟩
  · intro hall
    induction bundle with
    | nil => rfl
    | cons first bundle ih =>
      obtain ⟨other, hother, himport⟩ := hall first mem_cons_self
      rw [foldl_cons, importDocument_same hunique (hne first mem_cons_self) hother himport]
      rw [map_cons, nodup_cons] at hids
      exact ih (fun doc hdoc => hne doc (mem_cons_of_mem _ hdoc)) hids.2
        fun doc hdoc => hall doc (mem_cons_of_mem _ hdoc)

namespace JournalStore

/-- A store's documents after it has taken a bundle. -/
def later (store : JournalStore) (bundle : MemoryBundle) (delivery : DocumentDelivery) :
    List JournalDocument :=
  bundle.documents.foldl (importDocument delivery) store.documents

/-- Whether a store keeps a bundle: it opens, the bundle is readable and the access may write to its
scopes, none of the store's own documents is in the way, and the store keeps the documents that come
of it. -/
def takes (store : JournalStore) (rules : MemoryRules) (bundle : MemoryBundle)
    (delivery : DocumentDelivery) (access : MemoryAccess) : Bool :=
  store.opens access = none && isReadable rules bundle &&
    (bundle.documents.all fun doc => doc.revisions.all fun revision => canAccess revision.scopeKey access) &&
    !bundle.documents.any (conflicts store.documents) && store.keeps (store.later bundle delivery) = none

/-- Whether a store has the documents of a bundle already, as an import would leave them. -/
def has (store : JournalStore) (bundle : MemoryBundle) (delivery : DocumentDelivery) : Bool :=
  bundle.documents.all fun doc => store.documents.any fun other => IsImport delivery doc other

variable {store : JournalStore} {bundle : MemoryBundle}

theorem importBundle_takes (h : store.takes rules bundle delivery access) :
    store.importBundle rules bundle delivery access =
      (store.later bundle delivery,
        match store.finishes (store.later bundle delivery) with
        | some refusal => .error refusal
        | none => .ok ()) := by
  simp only [takes, Bool.and_eq_true, decide_eq_true_eq, Bool.not_eq_true'] at h
  obtain ⟨⟨⟨⟨hopens, hreadable⟩, hsee⟩, hfree⟩, hkeeps⟩ := h
  unfold importBundle transaction
  rw [hopens]
  dsimp only
  unfold Memory.importBundle
  rw [hreadable, hsee, hfree]
  change (match store.keeps (store.later bundle delivery) with | some refusal => _ | none => _) = _
  rw [hkeeps]
  change (match store.finishes (store.later bundle delivery) with | some refusal => _ | none => _) = _
  split <;> rfl

theorem importBundle_refused (h : store.takes rules bundle delivery access = false) :
    ∃ refusal, store.importBundle rules bundle delivery access = (store.documents, .error refusal) := by
  unfold importBundle transaction
  cases hopens : store.opens access with
  | some refusal => exact ⟨refusal, rfl⟩
  | none =>
    dsimp only
    unfold Memory.importBundle
    cases hreadable : isReadable rules bundle with
    | false => exact ⟨_, rfl⟩
    | true =>
      cases hsee : bundle.documents.all fun doc => doc.revisions.all fun revision =>
          canAccess revision.scopeKey access with
      | false => exact ⟨_, rfl⟩
      | true =>
        cases hfree : bundle.documents.any (conflicts store.documents) with
        | true => exact ⟨_, rfl⟩
        | false =>
          cases hkeeps : store.keeps (store.later bundle delivery) with
          | some refusal =>
            refine ⟨refusal, ?_⟩
            change (match store.keeps (store.later bundle delivery) with | some refusal => _ | none => _) = _
            rw [hkeeps]
          | none =>
            unfold takes at h
            rw [hopens, hreadable, hsee, hfree, hkeeps] at h
            cases h

theorem takes_readable (h : store.takes rules bundle delivery access) : isReadable rules bundle := by
  simp only [takes, Bool.and_eq_true] at h
  exact h.1.1.1.2

end JournalStore

theorem isReadable_nonempty {bundle : MemoryBundle} (h : isReadable rules bundle) :
    ∀ doc ∈ bundle.documents, doc.revisions ≠ [] := by
  intro doc hdoc hnone
  obtain ⟨first, hfirst, -⟩ := isHistory_parts ((isReadable_parts h).2.2 doc hdoc).1
  rw [hnone] at hfirst
  cases hfirst

theorem JournalStore.later_eq {store : JournalStore} {bundle : MemoryBundle} (h : isReadable rules bundle) :
    store.later bundle delivery = store.documents ↔ store.has bundle delivery := by
  unfold JournalStore.later JournalStore.has
  rw [importDocuments_same store.unique (isReadable_nonempty h) (isReadable_parts h).1]
  simp only [all_eq_true, any_eq_true, decide_eq_true_eq]

namespace VaultWithPrivateDocuments

def Imported.documents (outcome : Imported) : StoreChoice → List JournalDocument
  | .vault => outcome.vault
  | .privateStore => outcome.privateStore

/-- Each document of the bundle is in the store that owns its scope, as it was imported, and every
other document is as it was. -/
structure Imports (stores : VaultWithPrivateDocuments) (bundle : MemoryBundle)
  (delivery : DocumentDelivery)
    (outcome : Imported) : Prop where
  imported : ∀ doc ∈ bundle.documents, ∃ other ∈ outcome.documents (stores.owner doc),
    IsImport delivery doc other
  others : ∀ choice other, (∀ doc ∈ bundle.documents, stores.owner doc = choice → doc.id ≠ other.id) →
    (other ∈ outcome.documents choice ↔ other ∈ (stores.store choice).documents)

section

variable (stores : VaultWithPrivateDocuments)

/-- All of the bundle is imported, or the import throws and both stores are as they were. -/
def AllOrNothing (bundle : MemoryBundle) (delivery : DocumentDelivery) (outcome : Imported) : Prop :=
  (outcome.result = .ok () ∧ Imports stores bundle delivery outcome) ∨
    (∃ refusal, outcome.result = .error refusal) ∧ ∀ choice,
      outcome.documents choice = (stores.store choice).documents

section

variable (rules : MemoryRules) (safe : ExportCheck) (bundle : MemoryBundle)

/-- What is exported to the access has nothing in the bundle's way. -/
def isReady (access : MemoryAccess) : Bool :=
  match stores.exportBundle safe access with
  | .error _ => false
  | .ok current =>
    match requireImportReady (previewImport rules bundle current access) with
    | .error _ => false
    | .ok () => true

/-- The preview is ready and the vault takes its half; then its notes are not published, or the
private store refuses its half or fails; and one of the stores that have taken their halves did not
have it before. -/
def isTorn
    (delivery : DocumentDelivery) (access : MemoryAccess) : Bool :=
  let forVault := stores.half .vault bundle
  let forPrivate := stores.half .privateStore bundle
  stores.isReady rules safe bundle access && stores.vault.takes rules forVault delivery access &&
    if (stores.vault.finishes (stores.vault.later forVault delivery)).isSome ||
        !stores.privateStore.takes rules forPrivate delivery access then !stores.vault.has forVault delivery
    else (stores.privateStore.finishes (stores.privateStore.later forPrivate delivery)).isSome &&
      !(stores.vault.has forVault delivery && stores.privateStore.has forPrivate delivery)

end

end

variable {stores : VaultWithPrivateDocuments} {bundle : MemoryBundle} {safe : ExportCheck}

theorem mem_half {choice : StoreChoice} {doc : BundleDocument} :
    doc ∈ (stores.half choice bundle).documents ↔ doc ∈ bundle.documents ∧ stores.owner doc = choice := by
  unfold half
  rw [mem_filter, decide_eq_true_eq]

theorem mem_later {choice : StoreChoice} (hreadable : isReadable rules (stores.half choice bundle))
    {other : JournalDocument} : other ∈ (stores.store choice).later (stores.half choice bundle) delivery ↔
      (other ∈ (stores.store choice).documents ∧
        ∀ doc ∈ bundle.documents, stores.owner doc = choice → doc.id ≠ other.id) ∨
        ∃ doc ∈ bundle.documents, stores.owner doc = choice ∧ IsImport delivery doc other := by
  unfold JournalStore.later
  rw [mem_importDocuments (isReadable_nonempty hreadable) (isReadable_parts hreadable).1]
  simp only [mem_half, and_imp, and_assoc]

theorem imports_of_takes {outcome : Imported}
    (htakes : ∀ choice, (stores.store choice).takes rules (stores.half choice bundle) delivery access)
    (hdocuments : ∀ choice,
      outcome.documents choice = (stores.store choice).later (stores.half choice bundle) delivery) :
    Imports stores bundle delivery outcome := by
  have hmem := fun choice other => (hdocuments choice ▸
    @mem_later rules delivery stores bundle choice (JournalStore.takes_readable (htakes choice)) other)
  constructor
  · intro doc hdoc
    have hhalf : doc ∈ (stores.half (stores.owner doc) bundle).documents := mem_half.mpr ⟨hdoc, rfl⟩
    have hne := isReadable_nonempty (JournalStore.takes_readable (htakes (stores.owner doc))) doc hhalf
    have himport : IsImport delivery doc (doc.imported delivery hne) := isImport_imported doc hne
    exact ⟨_, (hmem _ _).mpr (.inr ⟨doc, hdoc, rfl, himport⟩), himport⟩
  · intro choice other hother
    rw [hmem]
    constructor
    · rintro (⟨hold, -⟩ | ⟨doc, hdoc, howner, himport⟩)
      · exact hold
      · exact absurd himport.1.symm (hother doc hdoc howner)
    · exact fun hold => .inl ⟨hold, hother⟩

theorem allOrNothing_thrown {vault own : List JournalDocument} {refusal : StoreRefusal} :
    AllOrNothing stores bundle delivery ⟨vault, own, .error refusal⟩ ↔
      vault = stores.vault.documents ∧ own = stores.privateStore.documents := by
  constructor
  · rintro (⟨h, -⟩ | ⟨-, hsame⟩)
    · cases h
    · exact ⟨hsame .vault, hsame .privateStore⟩
  · rintro ⟨hvault, hown⟩
    refine .inr ⟨⟨refusal, rfl⟩, fun choice => ?_⟩
    cases choice with
    | vault => exact hvault
    | privateStore => exact hown

theorem importBundle_notReady (h : stores.isReady rules safe bundle access = false) :
    ∃ refusal, stores.importBundle rules safe bundle delivery access =
      ⟨stores.vault.documents, stores.privateStore.documents, .error refusal⟩ := by
  unfold isReady at h
  unfold importBundle
  split
  · exact ⟨_, rfl⟩
  · next current hexport =>
    rw [hexport] at h
    dsimp only at h ⊢
    split
    · exact ⟨_, rfl⟩
    · next hready =>
      rw [hready] at h
      cases h

theorem importBundle_ready (h : stores.isReady rules safe bundle access) :
    stores.importBundle rules safe bundle delivery access =
      match stores.vault.importBundle rules (stores.half .vault bundle) delivery access with
      | (vault, .error refusal) => ⟨vault, stores.privateStore.documents, .error refusal⟩
      | (vault, .ok ()) =>
        match stores.privateStore.importBundle rules (stores.half .privateStore bundle) delivery access with
        | (own, result) => ⟨vault, own, result⟩ := by
  unfold isReady at h
  unfold importBundle
  rcases hexport : stores.exportBundle safe access with _ | current
  · rw [hexport] at h
    cases h
  rw [hexport] at h
  dsimp only at h ⊢
  cases hready : requireImportReady (previewImport rules bundle current access) with
  | error refusal =>
    rw [hready] at h
    cases h
  | ok => rfl

/-- Of any stores, bundle and access: the import is all or nothing, but when it stops after a store
took something. -/
theorem allOrNothing_iff :
    AllOrNothing stores bundle delivery (stores.importBundle rules safe bundle delivery access) ↔
    stores.isTorn rules safe bundle delivery access = false := by
  unfold isTorn
  cases hready : stores.isReady rules safe bundle access with
  | false =>
    obtain ⟨refusal, himport⟩ := @importBundle_notReady rules delivery access stores bundle safe hready
    rw [himport, allOrNothing_thrown]
    simp
  | true =>
    rw [importBundle_ready hready]
    cases hvault : stores.vault.takes rules (stores.half .vault bundle) delivery access with
    | false =>
      obtain ⟨refusal, himport⟩ := JournalStore.importBundle_refused hvault
      rw [himport]
      rw [allOrNothing_thrown]
      simp [hvault]
    | true =>
      have hvaultSame := @JournalStore.later_eq rules delivery stores.vault _ (JournalStore.takes_readable hvault)
      rw [JournalStore.importBundle_takes hvault]
      cases hpublish : stores.vault.finishes (stores.vault.later (stores.half .vault bundle) delivery) with
      | some refusal =>
        rw [allOrNothing_thrown, hvaultSame]
        simp [hvault, hpublish]
      | none =>
        dsimp only
        cases hprivate : stores.privateStore.takes rules (stores.half .privateStore bundle) delivery access with
        | false =>
          obtain ⟨refusal, himport⟩ := JournalStore.importBundle_refused hprivate
          rw [himport]
          rw [allOrNothing_thrown, hvaultSame]
          simp [hvault, hpublish]
        | true =>
          have hprivateSame := @JournalStore.later_eq rules delivery stores.privateStore _
            (JournalStore.takes_readable hprivate)
          rw [JournalStore.importBundle_takes hprivate]
          cases hfinish : stores.privateStore.finishes
              (stores.privateStore.later (stores.half .privateStore bundle) delivery) with
          | some refusal =>
            rw [allOrNothing_thrown, hvaultSame, hprivateSame]
            simp [hvault, hpublish]
          | none =>
            refine iff_of_true (.inl ⟨rfl, @imports_of_takes rules delivery access stores bundle _ ?_ ?_⟩)
              (by simp [hvault, hpublish])
            · intro choice
              cases choice with
              | vault => exact hvault
              | privateStore => exact hprivate
            · intro choice
              cases choice <;> rfl

end VaultWithPrivateDocuments

end ArdurBot.Memory
