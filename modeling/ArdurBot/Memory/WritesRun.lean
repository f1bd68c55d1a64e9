import Mathlib.Algebra.Order.BigOperators.Group.List
import ArdurBot.Memory.WritesOk

/-!
# Every run of writes

An import extends the histories of the documents it finds, and each other write is one more
revision, so a run from the empty journal keeps a well-formed journal and every revision in it. A
key is the same for the notes of two people about one group, and an import may leave out a commit
id: a run is kept from both by a condition on its operations.
-/

namespace ArdurBot.Memory

open List Utf16 Json Bool

variable {rules : MemoryRules} {docs : List JournalDocument} {input : DocumentCommit}
  {createdAt : Text} {access : MemoryAccess}

/-! ### Imported documents -/

def BundleDocument.imported (doc : BundleDocument) (delivery : DocumentDelivery) (hne : doc.revisions ≠ []) :
    JournalDocument where
  id := doc.id
  revisions := doc.revisions
  delivery
  nonempty := hne

/-- A document of a bundle that the journal can take as it is. -/
structure ImportedOk (delivery : DocumentDelivery) (doc : BundleDocument) : Prop where
  nonempty : doc.revisions ≠ []
  document : DocumentOk (doc.imported delivery nonempty)
  place : doc.place = some (doc.imported delivery nonempty).place
  headPlace : doc.headPlace = some (doc.imported delivery nonempty).place

/-- The imported history has the commit ids of the history it replaces. -/
def keepsCommits (revisions later : List DocumentRevision) : Bool :=
  (revisions.zip later).all fun (revision, other) => revision.commitId.isNone || other.commitId.isSome

theorem filledIn_of_same {revision other : DocumentRevision} (hrevision : revision.commitId.all isCommitId)
    (hother : other.commitId.all isCommitId) (hsame : samePortableRevision revision other)
    (hcommit : (revision.commitId.isNone || other.commitId.isSome) = true) : FilledIn revision other := by
  unfold samePortableRevision at hsame
  rw [present_of_isCommitId hrevision, present_of_isCommitId hother] at hsame
  obtain ⟨hbody, hids⟩ := and_eq_true_iff.mp hsame
  have hbody' : other.body = revision.body := (of_decide_eq_true hbody).symm
  rcases hid : revision.commitId with _ | id
  · exact .inr ⟨hid, hbody'⟩
  rcases hid' : other.commitId with _ | id'
  · rw [hid, hid'] at hcommit
    cases hcommit
  rw [hid, hid'] at hids
  have hsameId : some id = some id' := by simpa using hids
  refine .inl ?_
  calc other = { other.body with commitId := other.commitId } := rfl
    _ = { revision.body with commitId := revision.commitId } := by rw [hbody', hid, hid', hsameId]
    _ = revision := rfl

theorem historyKept_of_isExtendedBy {revisions later : List DocumentRevision}
    (hrevisions : ∀ revision ∈ revisions, revision.commitId.all isCommitId)
    (hlater : ∀ revision ∈ later, revision.commitId.all isCommitId)
    (h : isExtendedBy revisions later) (hkeeps : keepsCommits revisions later) :
    HistoryKept revisions later := by
  obtain ⟨hlength, hall⟩ := and_eq_true_iff.mp h
  have hlength' : revisions.length ≤ later.length := of_decide_eq_true hlength
  intro index revision hrevision
  obtain ⟨hlt, hget⟩ := List.getElem?_eq_some_iff.mp hrevision
  have hlt' : index < later.length := by omega
  obtain ⟨other, hother⟩ : ∃ other, later[index]? = some other := ⟨_, getElem?_eq_getElem hlt'⟩
  have hpair : (revision, other) ∈ revisions.zip later := by
    refine mem_of_getElem? (i := index) ?_
    rw [getElem?_zip_eq_some]
    exact ⟨hrevision, hother⟩
  refine ⟨other, hother, filledIn_of_same (hrevisions _ (mem_of_getElem? hrevision))
    (hlater _ (mem_of_getElem? hother)) ?_ ?_⟩
  · exact all_eq_true.mp hall _ hpair
  · exact all_eq_true.mp hkeeps _ hpair

/-! ### One round of an import -/

/-- What the journal has of a document of the bundle is the beginning of it. -/
def Compatible (docs : List JournalDocument) (doc : BundleDocument) : Prop :=
  ∀ other ∈ docs, other.id = doc.id ∨ some other.place = doc.headPlace →
    other.id = doc.id ∧ isExtendedBy other.revisions doc.revisions ∧
      keepsCommits other.revisions doc.revisions

section

variable {delivery : DocumentDelivery} {doc : BundleDocument}

theorem importDocument_eq (hne : doc.revisions ≠ []) (docs : List JournalDocument) :
    importDocument delivery docs doc =
      if docs.any fun other => other.id = doc.id then
        docs.map fun other => if other.id = doc.id then doc.imported delivery hne else other
      else docs ++ [doc.imported delivery hne] := by
  unfold importDocument
  rw [dif_pos hne]
  split
  · refine map_congr_left fun other _ => ?_
    split
    · rename_i hid
      unfold BundleDocument.imported
      rw [← hid]
    · rfl
  · rfl

theorem DocumentOk.commits {doc : JournalDocument} (h : DocumentOk doc) :
    ∀ revision ∈ doc.revisions, revision.commitId.all isCommitId := by
  intro revision hrevision
  obtain ⟨index, hindex⟩ := getElem?_of_mem hrevision
  exact (h.numbered index revision hindex).commit

theorem documentKept_imported {other : JournalDocument} (hother : DocumentOk other)
    (hdoc : ImportedOk delivery doc) (hid : other.id = doc.id)
    (hextended : isExtendedBy other.revisions doc.revisions)
    (hcommits : keepsCommits other.revisions doc.revisions) :
    DocumentKept other (doc.imported delivery hdoc.nonempty) := by
  have hhistory : HistoryKept other.revisions doc.revisions :=
    historyKept_of_isExtendedBy hother.commits hdoc.document.commits hextended hcommits
  obtain ⟨later, hlater, hfilled⟩ := hhistory _ _ other.getElem?_last
  have hlaterOk := hdoc.document.numbered _ later hlater
  have hbody : later.body = other.current.body := by
    obtain rfl | ⟨-, hbody⟩ := hfilled
    · rfl
    · exact hbody
  have hscope : later.body.scopeKey = other.current.body.scopeKey := by rw [hbody]
  have hpath : later.body.path = other.current.body.path := by rw [hbody]
  exact ⟨hid.symm, hlaterOk.scope.symm.trans hscope, hlaterOk.path.symm.trans hpath, hhistory⟩

theorem importDocument_ok (h : JournalOk docs) (hdoc : ImportedOk delivery doc)
    (hcompatible : Compatible docs doc) :
    JournalOk (importDocument delivery docs doc) ∧ Keeps docs (importDocument delivery docs doc) := by
  rw [importDocument_eq hdoc.nonempty]
  split
  · have hkept : ∀ other ∈ docs,
        DocumentKept other (if other.id = doc.id then doc.imported delivery hdoc.nonempty else other) := by
      intro other hother
      split
      · rename_i hid
        obtain ⟨-, hextended, hcommits⟩ := hcompatible other hother (.inl hid)
        exact documentKept_imported (h.docs other hother) hdoc hid hextended hcommits
      · exact .refl other
    refine ⟨h.map ?_ hkept, .map hkept⟩
    intro other hother
    split
    · exact hdoc.document
    · exact h.docs other hother
  · rename_i hnone
    have hfresh : ∀ other ∈ docs, other.id ≠ doc.id := by simpa using hnone
    refine ⟨h.concat hdoc.document hfresh ?_, .append _ _⟩
    intro other hother hplace
    have hhead : some other.place = doc.headPlace := by rw [hplace, hdoc.headPlace]
    exact hfresh other hother (hcompatible other hother (.inr hhead)).1

theorem mem_importDocument (hdoc : ImportedOk delivery doc) {other : JournalDocument}
    (h : other ∈ importDocument delivery docs doc) :
    other ∈ docs ∨ other = doc.imported delivery hdoc.nonempty := by
  rw [importDocument_eq hdoc.nonempty] at h
  split at h
  · obtain ⟨old, hold, rfl⟩ := mem_map.mp h
    split
    · exact .inr rfl
    · exact .inl hold
  · obtain h | h := mem_append.mp h
    · exact .inl h
    · exact .inr (mem_singleton.mp h)

end

/-- The loop of an import. The documents that are still to come keep apart from those that were
taken. -/
theorem importDocuments_ok {delivery : DocumentDelivery} {bundle : List BundleDocument} (h : JournalOk docs)
    (hok : ∀ doc ∈ bundle, ImportedOk delivery doc) (hcompatible : ∀ doc ∈ bundle, Compatible docs doc)
    (hids : (bundle.map BundleDocument.id).Nodup) (hplaces : (bundle.map BundleDocument.place).Nodup) :
    JournalOk (bundle.foldl (importDocument delivery) docs) ∧
      Keeps docs (bundle.foldl (importDocument delivery) docs) := by
  induction bundle generalizing docs with
  | nil => exact ⟨h, .refl docs⟩
  | cons doc bundle ih =>
    have hdoc := hok doc mem_cons_self
    obtain ⟨hfirst, hkept⟩ := importDocument_ok h hdoc (hcompatible doc mem_cons_self)
    rw [map_cons, nodup_cons] at hids hplaces
    have hrest : ∀ next ∈ bundle, Compatible (importDocument delivery docs doc) next := by
      intro next hnext other hother hsame
      obtain hother | rfl := mem_importDocument hdoc hother
      · exact hcompatible next (mem_cons_of_mem _ hnext) other hother hsame
      · obtain hid | hplace := hsame
        · exact absurd (mem_map.mpr ⟨next, hnext, hid.symm⟩) hids.1
        · have hnextOk := hok next (mem_cons_of_mem _ hnext)
          have hplace' : next.place = doc.place := by rw [hnextOk.place, hdoc.place, hplace, hnextOk.headPlace]
          exact absurd (mem_map.mpr ⟨next, hnext, hplace'⟩) hplaces.1
    obtain ⟨hlast, hkept'⟩ := ih hfirst (fun next hnext => hok next (mem_cons_of_mem _ hnext)) hrest hids.2 hplaces.2
    exact ⟨hlast, hkept.trans hkept'⟩

/-! ### Readable bundles -/

theorem isHistory_parts {doc : BundleDocument} (h : isHistory rules doc) :
    ∃ first, doc.revisions.head? = some first ∧ ∀ (index : ℕ) (revision : DocumentRevision),
      doc.revisions[index]? = some revision → revision.documentId = doc.id ∧ revision.revision = index + 1 ∧
        scopeKey revision.scopeKey = scopeKey first.scopeKey ∧ revision.path = first.path := by
  unfold isHistory at h
  split at h
  · cases h
  · rename_i first rest heq
    refine ⟨first, by rw [heq]; rfl, ?_⟩
    intro index revision hrevision
    have hnext := all_eq_true.mp h (revision, index) (mem_zipIdx_iff_getElem?.mpr hrevision)
    simp only [isNextIn, and_eq_true, decide_eq_true_eq] at hnext
    exact ⟨hnext.2.1.1.1.1, hnext.2.1.1.1.2, hnext.2.1.1.2, hnext.2.1.2⟩

theorem importedOk_of_isHistory {doc : BundleDocument} (hid : isIdentity doc.id)
    (hrevisions : ∀ revision ∈ doc.revisions, isRevision rules revision ∧
      canAccess revision.scopeKey access)
    (hhistory : isHistory rules doc) (delivery : DocumentDelivery) : ImportedOk delivery doc := by
  obtain ⟨first, hfirst, hall⟩ := isHistory_parts hhistory
  have hmem : first ∈ doc.revisions := mem_of_head? hfirst
  have hne : doc.revisions ≠ [] := ne_nil_of_mem hmem
  have hscope : ∀ revision ∈ doc.revisions, revision.scopeKey = first.scopeKey ∧ revision.path = first.path := by
    intro revision hrevision
    obtain ⟨index, hindex⟩ := getElem?_of_mem hrevision
    obtain ⟨-, -, hkey, hpath⟩ := hall index revision hindex
    exact ⟨scope_eq_of_key (isRevision_facts rules (hrevisions revision hrevision).1).scope
      (isRevision_facts rules (hrevisions first hmem).1).scope (hrevisions revision hrevision).2
        (hrevisions first hmem).2 hkey,
      hpath⟩
  have hcurrent : (doc.imported delivery hne).current ∈ doc.revisions := getLast_mem hne
  obtain ⟨hlastScope, hlastPath⟩ := hscope _ hcurrent
  refine ⟨hne, ⟨hid, (isRevision_facts rules (hrevisions _ hcurrent).1).scope, ?_⟩, ?_, ?_⟩
  · intro index revision hrevision
    obtain ⟨hown, hnumber, -, -⟩ := hall index revision hrevision
    have hrevisionMem : revision ∈ doc.revisions := mem_of_getElem? hrevision
    obtain ⟨hsame, hpath⟩ := hscope revision hrevisionMem
    exact ⟨hnumber, hown, by rw [hsame, hlastScope], by rw [hpath, hlastPath],
      (isRevision_facts rules (hrevisions revision hrevisionMem).1).commitId⟩
  · unfold BundleDocument.place JournalDocument.place
    rw [hfirst, Option.map_some, hlastScope, hlastPath]
  · unfold BundleDocument.headPlace
    rw [getLast?_eq_some_getLast hne]
    rfl

variable {bundle : MemoryBundle} {refusal : MemoryRefusal}

theorem isReadable_parts (h : isReadable rules bundle) :
    (bundle.documents.map BundleDocument.id).Nodup ∧ (bundle.documents.map BundleDocument.place).Nodup ∧
      ∀ doc ∈ bundle.documents, isHistory rules doc ∧ isIdentity doc.id ∧
        ∀ revision ∈ doc.revisions, isRevision rules revision := by
  simp only [isReadable, isBundle, and_eq_true, decide_eq_true_eq, all_eq_true] at h
  obtain ⟨⟨⟨⟨-, -, hdocs⟩, hids⟩, hplaces⟩, hhistories⟩ := h
  refine ⟨hids, hplaces, ?_⟩
  intro doc hdoc
  obtain ⟨⟨hid, -⟩, hrevisions⟩ := hdocs doc hdoc
  exact ⟨hhistories doc hdoc, hid, hrevisions⟩

/-! ### Operations -/

/-- A commit without an id does not go to a document of another scope, and an import does not take a
commit id away. -/
def JournalOp.Sound (rules : MemoryRules) (docs : List JournalDocument) : JournalOp → Prop
  | commit input _ access => present input.id = none → canAccess input.scopeKey access →
    ∀ doc ∈ findByPath docs input.scopeKey input.path, (doc.current.revision : ℤ) = input.expectedRevision →
      doc.current.scopeKey = input.scopeKey
  | importBundle bundle _ _ => isReadable rules bundle → bundle.documents.any (conflicts docs) = false →
    ∀ doc ∈ bundle.documents, ∀ other ∈ docs, other.id = doc.id → keepsCommits other.revisions doc.revisions
  | _ => True

instance (rules : MemoryRules) (docs : List JournalDocument) : ∀ op :
    JournalOp, Decidable (op.Sound rules docs)
  | .commit .. => inferInstanceAs (Decidable (_ → _ → ∀ doc ∈ findByPath _ _ _, _ → _))
  | .importBundle .. => inferInstanceAs (Decidable (_ → _ → ∀ doc ∈ _, ∀ other ∈ docs, _ → _))
  | .delete .. => inferInstanceAs (Decidable True)
  | .restore .. => inferInstanceAs (Decidable True)
  | .setDelivery .. => inferInstanceAs (Decidable True)

/-- A well-formed journal, with every document and revision of the journal before. -/
def WriteOk (docs later : List JournalDocument) : Prop := JournalOk later ∧ Keeps docs later

section

variable (h : JournalOk docs)
include h

theorem WriteOk.refl : WriteOk docs docs := ⟨h, .refl docs⟩

theorem commit_ok (hsound : (JournalOp.commit input createdAt access).Sound rules docs) :
    WriteOk docs (commit rules docs input createdAt access).1 := by
  unfold commit
  split
  · exact .refl h
  · rename_i hvalid
    split
    · exact .refl h
    · rename_i hsee
      split
      · exact .refl h
      · split
        · exact .refl h
        · split
          · exact .refl h
          · refine append_ok h ?_
            have hvalid' : input.scopeKey.isValid := by simpa using hvalid
            have hsee' : canAccess input.scopeKey access := by simpa using hsee
            intro doc htarget hstale
            obtain ⟨hrevision, hkey, -⟩ := not_isStale hstale
            have hscope := (h.docs doc (commitTarget_some htarget)).scope
            unfold commitTarget at htarget
            split at htarget
            · rename_i hid
              exact hsound hid hsee' doc (Except.ok.inj htarget) hrevision
            · split at htarget
              · cases htarget
              · rename_i hvisible
                obtain rfl := Option.some.inj (Except.ok.inj htarget)
                exact scope_eq_of_key hscope hvalid' (mem_of_visibleDocument hvisible).2.2 hsee' hkey

theorem recommit_ok {id : Text} {doc : JournalDocument}
    (hvisible : visibleDocument docs id access = some doc) {base : DocumentRevision}
    (hbase : base.scopeKey = doc.current.scopeKey) (attribution : Attribution)
    (expectedRevision : ℤ) (deleted : Bool) :
    WriteOk docs (append rules docs (recommit base attribution id expectedRevision deleted) createdAt access).1 := by
  refine append_ok h ?_
  intro target htarget _
  obtain ⟨hmem, hid, -⟩ := mem_of_visibleDocument hvisible
  have hne : id ≠ [] := by
    intro hnil
    have hidentity := (h.docs doc hmem).identity
    rw [hid, hnil] at hidentity
    cases hidentity
  have hpresent : present (recommit base attribution id expectedRevision deleted).id = some id := by
    unfold present
    exact (Option.filter_some).trans (if_pos (decide_eq_true hne))
  unfold commitTarget at htarget
  rw [hpresent] at htarget
  dsimp only at htarget
  rw [hvisible] at htarget
  obtain rfl := Option.some.inj (Except.ok.inj htarget)
  exact hbase.symm

theorem delete_ok (id : Text) (expectedRevision : ℤ) (attribution : Attribution) :
    WriteOk docs (delete rules docs id expectedRevision attribution createdAt access).1 := by
  unfold delete
  split
  · exact .refl h
  · rename_i doc hvisible
    exact recommit_ok h hvisible rfl attribution expectedRevision true

theorem restore_ok (id : Text) (revision : ℕ) (expectedRevision : ℤ) (attribution : Attribution) :
    WriteOk docs (restore rules docs id revision expectedRevision attribution createdAt access).1 := by
  unfold restore
  split
  · exact .refl h
  · rename_i doc hvisible
    split
    · exact .refl h
    · rename_i previous hprevious
      split
      · exact .refl h
      · obtain ⟨index, hindex⟩ := getElem?_of_mem (mem_of_find?_eq_some hprevious)
        have hdoc := h.docs doc (mem_of_visibleDocument hvisible).1
        exact recommit_ok h hvisible (hdoc.numbered index previous hindex).scope attribution expectedRevision false

theorem setDelivery_ok (id : Text) (revision : ℕ) (delivery : DocumentDelivery) :
    WriteOk docs (setDelivery docs id revision delivery access).1 := by
  unfold setDelivery
  split
  · exact .refl h
  · rename_i doc _
    split
    · have hsame : ∀ other : JournalDocument, DocumentKept other { other with delivery } :=
        fun other => ⟨rfl, rfl, rfl, .refl _⟩
      have hok : ∀ other : JournalDocument, DocumentOk other → DocumentOk { other with delivery } :=
        fun other hother => ⟨hother.identity, hother.scope, fun index revision hrevision =>
          have hnumbered := hother.numbered index revision hrevision
          { hnumbered with }⟩
      refine ⟨h.map ?_ ?_, .map ?_⟩
      · intro other hother
        split
        · exact hok other (h.docs other hother)
        · exact h.docs other hother
      all_goals
        intro other _
        split
        · exact hsame other
        · exact .refl other
    · exact .refl h

theorem importBundle_ok {delivery : DocumentDelivery}
    (hsound : (JournalOp.importBundle bundle delivery access).Sound rules docs) :
    WriteOk docs (importBundle rules docs bundle delivery access).1 := by
  unfold importBundle
  split
  · exact .refl h
  · rename_i hreadable
    split
    · exact .refl h
    · rename_i hsee
      split
      · exact .refl h
      · rename_i hconflicts
        have hreadable' : isReadable rules bundle := by simpa using hreadable
        have hconflicts' : bundle.documents.any (conflicts docs) = false := by simpa using hconflicts
        have hsee' : ∀ doc ∈ bundle.documents, ∀ revision ∈ doc.revisions,
            canAccess revision.scopeKey access := by simpa using hsee
        obtain ⟨hids, hplaces, hdocs⟩ := isReadable_parts hreadable'
        refine importDocuments_ok h ?_ ?_ hids hplaces
        · intro doc hdoc
          obtain ⟨hhistory, hid, hrevisions⟩ := hdocs doc hdoc
          exact importedOk_of_isHistory hid
            (fun revision hrevision =>
              ⟨hrevisions revision hrevision, hsee' doc hdoc revision hrevision⟩) hhistory delivery
        · intro doc hdoc other hother hsame
          have hclear : conflicts docs doc = false := by simpa using any_eq_false.mp hconflicts' doc hdoc
          have hfree := any_eq_false.mp hclear other hother
          have hextends : other.id = doc.id ∧ isExtendedBy other.revisions doc.revisions := by
            have hsame' : (decide (other.id = doc.id) || decide (some other.place = doc.headPlace)) = true := by
              simpa using hsame
            rw [hsame', Bool.true_and] at hfree
            simpa using hfree
          exact ⟨hextends.1, hextends.2, hsound hreadable' hconflicts' doc hdoc other hother hextends.1⟩

theorem write_ok (op : JournalOp) (hsound : op.Sound rules docs) : WriteOk docs (op.apply rules docs) := by
  cases op with
  | commit input createdAt access => exact commit_ok h hsound
  | delete id expectedRevision attribution createdAt access =>
    exact delete_ok h id expectedRevision attribution
  | restore id revision expectedRevision attribution createdAt access =>
    exact restore_ok h id revision expectedRevision attribution
  | importBundle bundle delivery access => exact importBundle_ok h hsound
  | setDelivery id revision delivery access => exact setDelivery_ok h id revision delivery

end

/-! ### Refusals -/

theorem append_refused (h : (append rules docs input createdAt access).2 = .error refusal) :
    (append rules docs input createdAt access).1 = docs := by
  obtain ⟨_, heq⟩ | ⟨_, _, -, -, -, -, heq⟩ := append_cases rules docs input createdAt access
  · rw [heq]
  · rw [heq] at h
    cases h

theorem commit_refused (h : (commit rules docs input createdAt access).2 = .error refusal) :
    (commit rules docs input createdAt access).1 = docs := by
  unfold commit at h ⊢
  split
  · rfl
  · rename_i hvalid
    rw [if_neg hvalid] at h
    split
    · rfl
    · rename_i hsee
      rw [if_neg hsee] at h
      split
      · rfl
      · rename_i hsize
        rw [if_neg hsize] at h
        split
        · rfl
        · rename_i hpath
          rw [if_neg hpath] at h
          split
          · rfl
          · rename_i hsafe
            rw [if_neg hsafe] at h
            exact append_refused h

theorem write_refused (rules : MemoryRules) (docs : List JournalDocument) (op : JournalOp)
    (h : (op.write rules docs).2 = .error refusal) : op.apply rules docs = docs := by
  unfold JournalOp.apply
  cases op with
  | commit input createdAt access => exact commit_refused h
  | delete id expectedRevision attribution createdAt access =>
    dsimp only [JournalOp.write, delete] at h ⊢
    split
    · rfl
    · rename_i doc hvisible
      rw [hvisible] at h
      exact append_refused h
  | restore id revision expectedRevision attribution createdAt access =>
    dsimp only [JournalOp.write, restore] at h ⊢
    split
    · rfl
    · rename_i doc hvisible
      rw [hvisible] at h
      dsimp only at h
      split
      · rfl
      · rename_i previous hprevious
        rw [hprevious] at h
        dsimp only at h
        split
        · rfl
        · rename_i hsafe
          rw [if_neg hsafe] at h
          exact append_refused h
  | importBundle bundle delivery access =>
    dsimp only [JournalOp.write, importBundle] at h ⊢
    split
    · rfl
    · rename_i hreadable
      rw [if_neg hreadable] at h
      split
      · rfl
      · rename_i hsee
        rw [if_neg hsee] at h
        split
        · rfl
        · rename_i hconflicts
          rw [if_neg hconflicts] at h
          cases h
  | setDelivery id revision delivery access =>
    dsimp only [JournalOp.write, setDelivery] at h ⊢
    split
    · rfl
    · rename_i doc hvisible
      rw [hvisible] at h
      dsimp only at h
      split
      · rename_i hcurrent
        rw [if_pos hcurrent] at h
        cases h
      · rfl

theorem run_ok (rules : MemoryRules) (h : JournalOk docs) {ops : List JournalOp}
    (hops : Run.Meets (JournalOp.apply rules) (JournalOp.Sound rules) docs ops) :
    WriteOk docs (Run.after (JournalOp.apply rules) docs ops) := by
  induction ops generalizing docs with
  | nil => exact .refl h
  | cons op ops ih =>
    obtain ⟨hfirst, hkept⟩ := write_ok h op hops.1
    obtain ⟨hlast, hkept'⟩ := ih hfirst hops.2
    exact ⟨hlast, hkept.trans hkept'⟩

/-- At each moment of a run the journal is well formed, what it has is kept to the end, and a
refused write changes nothing. -/
theorem journal_holds (rules : MemoryRules) (before rest : List JournalOp)
    (h : Run.Meets (JournalOp.apply rules) (JournalOp.Sound rules) [] (before ++ rest)) :
    JournalOk (Run.after (JournalOp.apply rules) [] before) ∧
      Keeps (Run.after (JournalOp.apply rules) [] before) (Run.after (JournalOp.apply rules) [] (before ++ rest)) ∧
      ∀ (op : JournalOp) (refusal : MemoryRefusal),
        (op.write rules (Run.after (JournalOp.apply rules) [] before)).2 = .error refusal →
        op.apply rules (Run.after (JournalOp.apply rules) [] before) = Run.after (JournalOp.apply rules) [] before := by
  obtain ⟨hbefore, hrest⟩ := h.append
  have hmid := (@run_ok [] rules ⟨nodup_nil, nodup_nil, forall_mem_nil _⟩ _ hbefore).1
  refine ⟨hmid, ?_, fun op _ hrefused => write_refused rules _ op hrefused⟩
  rw [Run.after_append]
  exact (run_ok rules hmid hrest).2

/-! ### A run that is kept, and one that is not -/

def longerId (ids : List Text) : Text := List.replicate ((ids.map List.length).sum + 1) (unit 'a')

theorem longerId_fresh (ids : List Text) : longerId ids ∉ ids := by
  intro hmem
  have hlength : (longerId ids).length ≤ (ids.map length).sum := le_sum_of_mem (mem_map_of_mem hmem)
  unfold longerId at hlength
  rw [length_replicate] at hlength
  omega

def openRules : MemoryRules where
  safePath := fun _ => true
  safeCommit := fun _ _ => true
  safeRevision := fun _ _ => true
  safeBundle := fun _ => true
  isLearning := fun _ => true
  isImported := fun _ => true
  isDatetime := fun _ => true
  bundleLength := fun _ => 0
  randomUUID := longerId
  fresh := longerId_fresh

def ownerAccess (userId : Text) : MemoryAccess where
  spaceId := lit "s"
  userId
  botId := none
  runId := none
  botIds := [lit "b"]
  groupIds := []
  groupId := none
  knownSecrets := []

def sharedNote (commitId : Option Text) : DocumentRevision where
  kind := some .topic
  documentId := lit "note"
  revision := 1
  scopeKey := .group (lit "s") (lit "u") (lit "b") direct
  path := lit "note.md"
  content := lit "text"
  author := { kind := .user, userId := none, botId := none }
  learning := none
  imported := none
  model := none
  runId := none
  threadId := none
  references := []
  createdAt := lit "2026-01-01T00:00:00Z"
  deletedAt := none
  commitId

def delivered : DocumentDelivery where
  status := .delivered
  generation := 0
  provider := none
  receipt := none
  retryAt := none

def importNote (commitId : Option Text) : JournalOp :=
  .importBundle { documents := [{ id := lit "note", revisions := [sharedNote commitId] }] }
    delivered (ownerAccess (lit "u"))

def firstCommit : Text := List.replicate 40 (unit '0')

def restoreNote : JournalOp :=
  .restore (lit "note") 1 1
    { kind := .absent, references := .absent, author := { kind := .user, userId := none, botId := none },
      learning := .absent, imported := .absent, model := .absent, runId := .absent, threadId := .absent,
      delivery := delivered }
    (lit "2026-01-02T00:00:00Z") (ownerAccess (lit "u"))

/-- An import that fills in a commit id, and a restore. -/
theorem journal_holds_restore : JournalOk (Run.after (JournalOp.apply openRules) [] [importNote none]) ∧
      Keeps (Run.after (JournalOp.apply openRules) [] [importNote none])
        (Run.after (JournalOp.apply openRules) [] ([importNote none] ++ [importNote (some firstCommit), restoreNote])) ∧
      ∀ (op : JournalOp) (refusal : MemoryRefusal),
        (op.write openRules (Run.after (JournalOp.apply openRules) [] [importNote none])).2 = .error refusal →
        op.apply openRules (Run.after (JournalOp.apply openRules) [] [importNote none]) =
          Run.after (JournalOp.apply openRules) [] [importNote none] :=
  journal_holds openRules [importNote none] [importNote (some firstCommit), restoreNote] (by decide +kernel)

theorem Keeps.commitIds {later : List JournalDocument} (h : Keeps docs later)
    {doc : JournalDocument} (hdoc : doc ∈ docs) {revision : DocumentRevision}
    (hrevision : revision ∈ doc.revisions) {id : Text}
    (hid : revision.commitId = some id) :
    ∃ other ∈ later, some id ∈ other.revisions.map DocumentRevision.commitId := by
  obtain ⟨other, hother, hkept⟩ := h doc hdoc
  obtain ⟨index, hindex⟩ := getElem?_of_mem hrevision
  obtain ⟨last, hlast, hfilled⟩ := hkept.history index revision hindex
  refine ⟨other, hother, mem_map.mpr ⟨last, mem_of_getElem? hlast, ?_⟩⟩
  obtain rfl | ⟨hnone, -⟩ := hfilled
  · exact hid
  · rw [hid] at hnone
    cases hnone

/-- The same bundle without the commit id takes it out of the journal. -/
theorem import_takes_commit : ¬ Keeps (Run.after (JournalOp.apply openRules) [] [importNote (some firstCommit)])
      (Run.after (JournalOp.apply openRules) [] ([importNote (some firstCommit)] ++ [importNote none])) := by
  intro h
  have hbefore : ∃ doc ∈ Run.after (JournalOp.apply openRules) [] [importNote (some firstCommit)],
      ∃ revision ∈ doc.revisions, revision.commitId = some firstCommit := by decide +kernel
  have hafter : ∀ doc ∈
      Run.after (JournalOp.apply openRules) [] ([importNote (some firstCommit)] ++
      [importNote none]),
      some firstCommit ∉ doc.revisions.map DocumentRevision.commitId := by decide +kernel
  obtain ⟨doc, hdoc, revision, hrevision, hid⟩ := hbefore
  obtain ⟨other, hother, hmem⟩ := h.commitIds hdoc hrevision hid
  exact hafter other hother hmem

end ArdurBot.Memory
