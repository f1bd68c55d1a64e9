import ArdurBot.Lib.Run
import ArdurBot.Lib.Table
import ArdurBot.Memory.Writes

/-!
# What a write keeps

A journal is well formed when each document's revisions are numbered from one, are its own, and stay
in one place, and no two documents share an id or a place. A write that fits keeps the journal well
formed and every history a prefix of the history after it, but for commit ids that are filled in.
-/

namespace ArdurBot.Memory

open List Utf16 Json

structure Numbered (doc : JournalDocument) (index : ℕ) (revision : DocumentRevision) : Prop where
  number : revision.revision = index + 1
  own : revision.documentId = doc.id
  scope : revision.scopeKey = doc.current.scopeKey
  path : revision.path = doc.current.path
  commit : revision.commitId.all isCommitId

structure DocumentOk (doc : JournalDocument) : Prop where
  identity : isIdentity doc.id
  scope : doc.current.scopeKey.isValid
  numbered : ∀ (index : ℕ) (revision : DocumentRevision), doc.revisions[index]? = some revision →
    Numbered doc index revision

structure JournalOk (docs : List JournalDocument) : Prop where
  ids : (docs.map JournalDocument.id).Nodup
  places : (docs.map JournalDocument.place).Nodup
  docs : ∀ doc ∈ docs, DocumentOk doc

/-- The same revision, or the same with a commit id that was missing. -/
def FilledIn (revision later : DocumentRevision) : Prop :=
  later = revision ∨ revision.commitId = none ∧ later.body = revision.body

def HistoryKept (revisions later : List DocumentRevision) : Prop :=
  ∀ (index : ℕ) (revision : DocumentRevision), revisions[index]? = some revision →
    ∃ other : DocumentRevision, later[index]? = some other ∧ FilledIn revision other

structure DocumentKept (doc later : JournalDocument) : Prop where
  id : later.id = doc.id
  scope : later.current.scopeKey = doc.current.scopeKey
  path : later.current.path = doc.current.path
  history : HistoryKept doc.revisions later.revisions

def Keeps (docs later : List JournalDocument) : Prop :=
  ∀ doc ∈ docs, ∃ other ∈ later, DocumentKept doc other

theorem FilledIn.trans {a b c : DocumentRevision} (hab : FilledIn a b) (hbc : FilledIn b c) :
    FilledIn a c := by
  obtain rfl | ⟨hnone, hbody⟩ := hab
  · exact hbc
  · refine .inr ⟨hnone, ?_⟩
    obtain rfl | ⟨-, hbody'⟩ := hbc
    · exact hbody
    · rw [hbody', hbody]

theorem HistoryKept.refl (revisions : List DocumentRevision) : HistoryKept revisions revisions :=
  fun _ revision h => ⟨revision, h, .inl rfl⟩

theorem HistoryKept.trans {a b c : List DocumentRevision} (hab : HistoryKept a b) (hbc : HistoryKept b c) :
    HistoryKept a c := by
  intro index revision h
  obtain ⟨mid, hmid, hfilled⟩ := hab index revision h
  obtain ⟨last, hlast, hfilled'⟩ := hbc index mid hmid
  exact ⟨last, hlast, hfilled.trans hfilled'⟩

theorem HistoryKept.append (revisions more : List DocumentRevision) :
    HistoryKept revisions (revisions ++ more) := by
  intro index revision h
  have hlt : index < revisions.length := (List.getElem?_eq_some_iff.mp h).1
  exact ⟨revision, by rw [getElem?_append_left hlt]; exact h, .inl rfl⟩

theorem DocumentKept.refl (doc : JournalDocument) : DocumentKept doc doc := ⟨rfl, rfl, rfl, .refl _⟩

theorem DocumentKept.trans {a b c : JournalDocument} (hab : DocumentKept a b) (hbc : DocumentKept b c) :
    DocumentKept a c where
  id := hbc.id.trans hab.id
  scope := hbc.scope.trans hab.scope
  path := hbc.path.trans hab.path
  history := hab.history.trans hbc.history

theorem DocumentKept.place {doc later : JournalDocument} (h : DocumentKept doc later) :
    later.place = doc.place := by
  unfold JournalDocument.place
  rw [h.scope, h.path]

theorem Keeps.refl (docs : List JournalDocument) : Keeps docs docs :=
  fun doc hdoc => ⟨doc, hdoc, .refl doc⟩

theorem Keeps.trans {a b c : List JournalDocument} (hab : Keeps a b) (hbc : Keeps b c) : Keeps a c := by
  intro doc hdoc
  obtain ⟨mid, hmid, hkept⟩ := hab doc hdoc
  obtain ⟨last, hlast, hkept'⟩ := hbc mid hmid
  exact ⟨last, hlast, hkept.trans hkept'⟩

theorem Keeps.append (docs more : List JournalDocument) : Keeps docs (docs ++ more) :=
  fun doc hdoc => ⟨doc, mem_append_left _ hdoc, .refl doc⟩

theorem JournalOk.concat {docs : List JournalDocument} (h : JournalOk docs) {doc : JournalDocument}
    (hdoc : DocumentOk doc) (hid : ∀ other ∈ docs, other.id ≠ doc.id)
    (hplace : ∀ other ∈ docs, other.place ≠ doc.place) :
    JournalOk (docs ++ [doc]) := by
  have hfresh : ∀ {α : Type} (key : JournalDocument → α), (docs.map key).Nodup →
      (∀ other ∈ docs, key other ≠ key doc) →
      ((docs ++ [doc]).map key).Nodup := by
    intro α key hkeys hne
    rw [map_append, map_singleton]
    refine hkeys.append (nodup_singleton _) ?_
    intro k hk hk'
    obtain ⟨other, hother, hkey⟩ := mem_map.mp hk
    exact hne other hother (hkey.trans (mem_singleton.mp hk'))
  refine ⟨hfresh _ h.ids hid, hfresh _ h.places hplace, ?_⟩
  intro other hother
  obtain hother | hother := mem_append.mp hother
  · exact h.docs other hother
  · rw [mem_singleton.mp hother]
    exact hdoc

section

variable {docs : List JournalDocument} {update : JournalDocument → JournalDocument}

theorem JournalOk.map (h : JournalOk docs) (hok : ∀ doc ∈ docs, DocumentOk (update doc))
    (hkept : ∀ doc ∈ docs, DocumentKept doc (update doc)) : JournalOk (docs.map update) := by
  have hkeys : ∀ {α : Type} (key : JournalDocument → α), (∀ doc ∈ docs, key (update doc) = key doc) →
      (docs.map update).map key = docs.map key := by
    intro α key hkey
    rw [map_map]
    exact map_congr_left hkey
  refine ⟨?_, ?_, ?_⟩
  · rw [hkeys _ fun doc hdoc => (hkept doc hdoc).id]
    exact h.ids
  · rw [hkeys _ fun doc hdoc => (hkept doc hdoc).place]
    exact h.places
  · intro doc hdoc
    obtain ⟨old, hold, rfl⟩ := mem_map.mp hdoc
    exact hok old hold

theorem Keeps.map (hkept : ∀ doc ∈ docs, DocumentKept doc (update doc)) : Keeps docs (docs.map update) :=
  fun doc hdoc => ⟨update doc, mem_map_of_mem hdoc, hkept doc hdoc⟩

end

@[simp] theorem current_push (doc : JournalDocument) (revision : DocumentRevision)
    (delivery : DocumentDelivery) :
    (doc.push revision delivery).current = revision := getLast_concat

theorem JournalDocument.getElem?_last (doc : JournalDocument) :
    doc.revisions[doc.revisions.length - 1]? = some doc.current := by
  rw [← getLast?_eq_getElem?, getLast?_eq_some_getLast doc.nonempty]
  rfl

variable {doc : JournalDocument} {revision : DocumentRevision}

theorem DocumentOk.current_number (h : DocumentOk doc) : doc.current.revision = doc.revisions.length := by
  have hnumber := (h.numbered _ _ doc.getElem?_last).number
  have hpos : 0 < doc.revisions.length := length_pos_of_ne_nil doc.nonempty
  omega

structure FitsDocument (doc : JournalDocument) (revision : DocumentRevision) : Prop where
  number : revision.revision = doc.revisions.length + 1
  own : revision.documentId = doc.id
  scope : revision.scopeKey = doc.current.scopeKey
  path : revision.path = doc.current.path
  commit : revision.commitId.all isCommitId

theorem FitsDocument.kept (h : FitsDocument doc revision) (delivery : DocumentDelivery) :
    DocumentKept doc (doc.push revision delivery) where
  id := rfl
  scope := by rw [current_push, h.scope]
  path := by rw [current_push, h.path]
  history := .append _ _

theorem FitsDocument.ok (h : FitsDocument doc revision) (hdoc : DocumentOk doc)
    (delivery : DocumentDelivery) :
    DocumentOk (doc.push revision delivery) where
  identity := hdoc.identity
  scope := by
    rw [current_push, h.scope]
    exact hdoc.scope
  numbered := by
    intro index other hother
    change (doc.revisions ++ [revision])[index]? = some other at hother
    by_cases hlt : index < doc.revisions.length
    · rw [getElem?_append_left hlt] at hother
      obtain ⟨hnumber, hown, hscope, hpath, hcommit⟩ := hdoc.numbered index other hother
      exact ⟨hnumber, hown, by rw [current_push, h.scope, hscope], by rw [current_push, h.path, hpath], hcommit⟩
    · rw [getElem?_append_right (by omega), getElem?_singleton] at hother
      split at hother
      · obtain rfl := Option.some.inj hother
        have hnumber := h.number
        exact ⟨by omega, h.own, by rw [current_push], by rw [current_push], h.commit⟩
      · cases hother

structure FitsNew (docs : List JournalDocument) (revision : DocumentRevision) : Prop where
  number : revision.revision = 1
  identity : isIdentity revision.documentId
  scope : revision.scopeKey.isValid
  commit : revision.commitId.all isCommitId
  id : ∀ other ∈ docs, other.id ≠ revision.documentId
  place : ∀ other ∈ docs, other.place ≠ (scopeKey revision.scopeKey, revision.path)

theorem FitsNew.ok {docs : List JournalDocument} (h : FitsNew docs revision) (delivery : DocumentDelivery) :
    DocumentOk (newDocument revision.documentId revision delivery) where
  __ := h
  numbered := by
    intro index other hother
    change [revision][index]? = some other at hother
    rw [getElem?_singleton] at hother
    split at hother
    · obtain rfl := Option.some.inj hother
      have hnumber := h.number
      exact ⟨by omega, rfl, rfl, rfl, h.commit⟩
    · cases hother

def Fits (docs : List JournalDocument) (revision : DocumentRevision) : Option JournalDocument → Prop
  | none => FitsNew docs revision
  | some doc => doc ∈ docs ∧ FitsDocument doc revision

theorem pushRevision_ok {docs : List JournalDocument} (h : JournalOk docs)
    {doc : Option JournalDocument} (hfits : Fits docs revision doc) (delivery : DocumentDelivery) :
    JournalOk (pushRevision docs doc revision delivery) ∧ Keeps docs (pushRevision docs doc revision delivery) := by
  rcases doc with _ | doc
  · exact ⟨h.concat (hfits.ok delivery) hfits.id hfits.place, .append _ _⟩
  obtain ⟨hmem, hfits⟩ := hfits
  have hsame : ∀ other ∈ docs, other.id = doc.id → other = doc := fun other hother hid =>
    Table.eq_of_key h.ids hother hmem hid
  have hkept : ∀ other ∈ docs,
      DocumentKept other (if other.id = doc.id then other.push revision delivery else other) := by
    intro other hother
    split
    · rename_i hid
      rw [hsame other hother hid]
      exact hfits.kept delivery
    · exact .refl other
  refine ⟨h.map ?_ hkept, .map hkept⟩
  intro other hother
  split
  · rename_i hid
    rw [hsame other hother hid]
    exact hfits.ok (h.docs doc hmem) delivery
  · exact h.docs other hother

section

variable {rules : MemoryRules} {docs : List JournalDocument} {input : DocumentCommit}
  {createdAt : Text} {access : MemoryAccess}

theorem mem_of_visibleDocument {id : Text} {doc : JournalDocument}
    (h : visibleDocument docs id access = some doc) :
    doc ∈ docs ∧ doc.id = id ∧ canAccess doc.current.scopeKey access := by
  obtain ⟨hfind, hsee⟩ := Option.filter_eq_some_iff.mp h
  exact ⟨mem_of_find?_eq_some hfind, by simpa using find?_some hfind, hsee⟩

theorem not_isStale {doc : JournalDocument} (h : isStale (some doc.current) input = false) :
    (doc.current.revision : ℤ) = input.expectedRevision ∧ scopeKey doc.current.scopeKey = scopeKey input.scopeKey ∧
      doc.current.path = input.path := by
  obtain ⟨hrevision, hplace⟩ := Bool.or_eq_false_iff.mp h
  refine ⟨not_not.mp (of_decide_eq_false hrevision), ?_⟩
  simpa only [Option.any_some, Bool.or_eq_false_iff, decide_eq_false_iff_not, not_not] using hplace

theorem commitTarget_some {doc : JournalDocument}
    (h : commitTarget docs input access = .ok (some doc)) : doc ∈ docs := by
  unfold commitTarget at h
  split at h
  · exact mem_of_find?_eq_some (Except.ok.inj h)
  · split at h
    · cases h
    · rename_i hvisible
      obtain rfl := Option.some.inj (Except.ok.inj h)
      exact (mem_of_visibleDocument hvisible).1

theorem commitTarget_none (h : commitTarget docs input access = .ok none) :
    ∀ other ∈ docs, other.place ≠ (scopeKey input.scopeKey, input.path) := by
  unfold commitTarget at h
  split at h
  · intro other hother hplace
    obtain ⟨hkey, hpath⟩ := Prod.mk.inj hplace
    refine find?_eq_none.mp (Except.ok.inj h) other hother ?_
    rw [hkey, hpath, decide_eq_true rfl, decide_eq_true rfl, Bool.and_self]
  · split at h
    · cases h
    · cases Except.ok.inj h

/-- A commit keeps the scope of the document it is for. -/
def KeepsScope (docs : List JournalDocument) (input : DocumentCommit) (access : MemoryAccess) : Prop :=
  ∀ doc, commitTarget docs input access = .ok (some doc) → isStale (some doc.current) input = false →
    doc.current.scopeKey = input.scopeKey

theorem append_cases (rules : MemoryRules) (docs : List JournalDocument) (input : DocumentCommit)
    (createdAt : Text) (access : MemoryAccess) :
    (∃ refusal, append rules docs input createdAt access = (docs, .error refusal)) ∨
      ∃ target, ∃ revision : DocumentRevision, commitTarget docs input access = .ok target ∧
        isStale (target.map JournalDocument.current) input = false ∧
        revision = nextRevision (target.elim (rules.randomUUID (docs.map JournalDocument.id)) JournalDocument.id)
          createdAt (target.map JournalDocument.current) input ∧
        isRevision rules revision ∧
        append rules docs input createdAt access = (pushRevision docs target revision input.delivery, .ok ()) := by
  unfold append
  split
  · exact .inl ⟨_, rfl⟩
  · rename_i target htarget
    dsimp only
    split
    · exact .inl ⟨_, rfl⟩
    · rename_i hstale
      split
      · exact .inl ⟨_, rfl⟩
      · rename_i hrevision
        split
        · exact .inl ⟨_, rfl⟩
        · exact .inr ⟨target, _, htarget, by simpa using hstale, rfl, by simpa using hrevision, rfl⟩

theorem append_ok (h : JournalOk docs) (hscope : KeepsScope docs input access) :
    JournalOk (append rules docs input createdAt access).1 ∧
      Keeps docs (append rules docs input createdAt access).1 := by
  obtain ⟨refusal, heq⟩ | ⟨target, revision, htarget, hstale, hnext, hrevision, heq⟩ :=
    append_cases rules docs input createdAt access
  · rw [heq]
    exact ⟨h, .refl docs⟩
  · rw [heq]
    refine pushRevision_ok h ?_ _
    obtain ⟨hidentity, -, hvalid, -, -, -, -, -, hcommit⟩ := isRevision_facts rules hrevision
    cases target with
    | none =>
      subst hnext
      refine ⟨rfl, hidentity, hvalid, hcommit, ?_, commitTarget_none htarget⟩
      intro other hother hid
      refine rules.fresh (docs.map JournalDocument.id) ?_
      have hmem : other.id ∈ docs.map JournalDocument.id := mem_map_of_mem hother
      rwa [hid] at hmem
    | some doc =>
      obtain ⟨-, -, hpath⟩ := not_isStale hstale
      have hmem := commitTarget_some htarget
      have hnumber := (h.docs doc hmem).current_number
      subst hnext
      refine ⟨hmem, ?_, rfl, (hscope doc htarget hstale).symm, hpath.symm, hcommit⟩
      show doc.current.revision + 1 = doc.revisions.length + 1
      omega

end

end ArdurBot.Memory
