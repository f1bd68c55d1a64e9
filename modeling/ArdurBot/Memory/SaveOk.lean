import ArdurBot.Lib.History
import ArdurBot.Memory.Save

/-!
# What a write adds

A write of the journal leaves every history as it is, or adds one revision to one of them: the next,
after the revision that the commit expected.
-/

namespace ArdurBot.Memory

open List Utf16 Option

/-- Each document has an id of its own, and its revisions are numbered from one. -/
structure DocsOk (docs : List JournalDocument) : Prop where
  ids : (docs.map JournalDocument.id).Nodup
  named : ∀ doc ∈ docs, doc.id ≠ []
  numbered : ∀ doc ∈ docs, ∀ (index : ℕ) (revision : DocumentRevision),
    doc.revisions[index]? = some revision →
    revision.revision = index + 1 ∧ revision.documentId = doc.id

structure Grows (docs later : List JournalDocument) (revision : DocumentRevision) : Prop where
  ok : DocsOk later
  history : ∀ id, historyOf later id = if id = revision.documentId then
    historyOf docs id ++ [revision] else historyOf docs id
  number : revision.revision = (historyOf docs revision.documentId).length + 1

variable {rules : MemoryRules} {docs later : List JournalDocument} {doc : JournalDocument}
  {revision : DocumentRevision} {id createdAt : Text} {access : MemoryAccess}
  {input : DocumentCommit}

theorem DocsOk.history (h : DocsOk docs) (hmem : doc ∈ docs) : historyOf docs doc.id = doc.revisions := by
  unfold historyOf
  rw [(Table.find_eq_some h.ids).mpr ⟨hmem, rfl⟩]
  rfl

theorem historyOf_eq_nil (h : ∀ doc ∈ docs, doc.id ≠ id) : historyOf docs id = [] := by
  unfold historyOf
  rw [Table.find_eq_none.mpr h]
  rfl

theorem exists_of_history (h : revision ∈ historyOf docs id) :
    ∃ doc ∈ docs, doc.id = id ∧ revision ∈ doc.revisions := by
  unfold historyOf at h
  cases hfound : docs.find? fun doc => doc.id = id with
  | none =>
    rw [hfound] at h
    exact absurd h not_mem_nil
  | some doc =>
    rw [hfound] at h
    exact ⟨doc, mem_of_find?_eq_some hfound, by simpa using find?_some hfound, h⟩

theorem DocsOk.current_number (h : DocsOk docs) (hmem : doc ∈ docs) :
    doc.current.revision = doc.revisions.length := by
  have hnumber := (h.numbered doc hmem _ _ doc.getElem?_last).1
  have hpos : 0 < doc.revisions.length := length_pos_of_ne_nil doc.nonempty
  omega

theorem DocsOk.eq_current (h : DocsOk docs) (hmem : doc ∈ docs) (hrevision : revision ∈ doc.revisions)
    (hnumber : revision.revision = doc.current.revision) : revision = doc.current := by
  obtain ⟨index, hindex⟩ := getElem?_of_mem hrevision
  have hown := (h.numbered doc hmem index revision hindex).1
  rw [h.current_number hmem] at hnumber
  have hlast : index = doc.revisions.length - 1 := by omega
  rw [hlast, doc.getElem?_last] at hindex
  exact (some.inj hindex).symm

theorem addedRevision_self (h : DocsOk docs) : addedRevision docs docs = none := by
  unfold addedRevision
  rw [find?_eq_none.mpr, map_none]
  intro doc hmem
  simp [h.history hmem]

theorem Grows.added (h : Grows docs later revision) : addedRevision docs later = some revision := by
  have hrevisions : ∀ doc ∈ later, doc.revisions =
      if doc.id = revision.documentId then historyOf docs doc.id ++ [revision] else historyOf docs doc.id := by
    intro doc hmem
    rw [← h.ok.history hmem, h.history]
  have hown : ∃ doc ∈ later, doc.id = revision.documentId := by
    have hlast : revision ∈ historyOf later revision.documentId := by
      rw [h.history, if_pos rfl]
      exact mem_append_right _ mem_cons_self
    obtain ⟨doc, hmem, hid, -⟩ := exists_of_history hlast
    exact ⟨doc, hmem, hid⟩
  unfold addedRevision
  cases hfound : later.find? fun doc => historyOf docs doc.id ≠ doc.revisions with
  | none =>
    obtain ⟨doc, hmem, hid⟩ := hown
    have hsame := find?_eq_none.mp hfound doc hmem
    rw [decide_eq_true_iff, not_not, hrevisions doc hmem, if_pos hid] at hsame
    have hlength := congrArg length hsame
    rw [length_append, length_singleton] at hlength
    omega
  | some doc =>
    have hmem := mem_of_find?_eq_some hfound
    have hdiffers : historyOf docs doc.id ≠ doc.revisions := by simpa using find?_some hfound
    have hlast := hrevisions doc hmem
    by_cases hid : doc.id = revision.documentId
    · rw [if_pos hid] at hlast
      have hcurrent : doc.revisions.getLast? = some doc.current := getLast?_eq_some_getLast doc.nonempty
      rw [hlast, getLast?_concat] at hcurrent
      rw [map_some, ← hcurrent]
    · rw [if_neg hid] at hlast
      exact absurd hlast.symm hdiffers

theorem grows_new (h : DocsOk docs) (hid : ∀ doc ∈ docs, doc.id ≠ revision.documentId)
    (hnamed : revision.documentId ≠ [])
    (hnumber : revision.revision = 1) (delivery : DocumentDelivery) :
    Grows docs (docs ++ [newDocument revision.documentId revision delivery]) revision := by
  have hnone := historyOf_eq_nil hid
  refine ⟨⟨?_, ?_, ?_⟩, fun id => ?_, ?_⟩
  · exact Table.nodup_concat h.ids hid
  · intro doc hmem
    obtain hmem | hmem := mem_append.mp hmem
    · exact h.named doc hmem
    · rw [mem_singleton.mp hmem]
      exact hnamed
  · intro doc hmem index other hother
    obtain hmem | hmem := mem_append.mp hmem
    · exact h.numbered doc hmem index other hother
    · rw [mem_singleton.mp hmem] at hother ⊢
      have hlist : [revision][index]? = some other := hother
      rw [getElem?_singleton] at hlist
      split at hlist
      · next hzero =>
        obtain rfl := some.inj hlist
        exact ⟨by omega, rfl⟩
      · cases hlist
  · unfold historyOf
    rw [find?_append]
    by_cases hsame : id = revision.documentId
    · subst hsame
      rw [if_pos rfl, Table.find_eq_none.mpr hid, none_or, find?_cons_of_pos (by simp [newDocument])]
      rfl
    · rw [if_neg hsame]
      have hother : [newDocument revision.documentId revision delivery].find? (fun doc => doc.id = id) = none := by
        rw [find?_eq_none]
        intro doc hmem
        rw [mem_singleton.mp hmem]
        have hne : revision.documentId ≠ id := fun heq => hsame heq.symm
        simp [newDocument, hne]
      rw [hother, or_none]
  · rw [hnone, hnumber]
    rfl

theorem grows_push (h : DocsOk docs) (hmem : doc ∈ docs) (hid : revision.documentId = doc.id)
    (hnumber : revision.revision = doc.current.revision + 1) (delivery : DocumentDelivery) :
    Grows docs (docs.map fun other => if other.id = doc.id then other.push revision delivery
      else other) revision := by
  have hkeep : ∀ other :
      JournalDocument, (if other.id = doc.id then other.push revision delivery else other).id =
      other.id := by
    intro other
    split <;> rfl
  have hlength := h.current_number hmem
  have hown := h.history hmem
  refine ⟨⟨?_, ?_, ?_⟩, fun id => ?_, ?_⟩
  · rw [Table.map_key hkeep]
    exact h.ids
  · intro other hother
    obtain ⟨old, hold, rfl⟩ := mem_map.mp hother
    rw [hkeep]
    exact h.named old hold
  · intro other hother index value hvalue
    obtain ⟨old, hold, rfl⟩ := mem_map.mp hother
    rw [hkeep]
    split at hvalue
    · next hsame =>
      obtain rfl : old = doc := Table.eq_of_key h.ids hold hmem hsame
      have hpushed : (old.revisions ++ [revision])[index]? = some value := hvalue
      by_cases hlt : index < old.revisions.length
      · rw [getElem?_append_left hlt] at hpushed
        exact h.numbered old hold index value hpushed
      · rw [getElem?_append_right (by omega), getElem?_singleton] at hpushed
        split at hpushed
        · obtain rfl := some.inj hpushed
          exact ⟨by omega, hid⟩
        · cases hpushed
    · exact h.numbered old hold index value hvalue
  · unfold historyOf
    rw [find?_map]
    have hkeys : ((fun other : JournalDocument => decide (other.id = id)) ∘
        fun other => if other.id = doc.id then other.push revision delivery
          else other) = fun other => decide (other.id = id) := by
      funext other
      rw [Function.comp_apply, hkeep]
    rw [hkeys]
    by_cases hsame : id = revision.documentId
    · subst hsame
      rw [if_pos rfl, hid, (Table.find_eq_some h.ids).mpr ⟨hmem, rfl⟩, map_some, if_pos rfl]
      rfl
    · rw [if_neg hsame]
      cases hfound : docs.find? fun other => decide (other.id = id) with
      | none => rfl
      | some other =>
        have hother : other.id = id := by simpa using find?_some hfound
        rw [map_some, if_neg fun heq => hsame (hother.symm.trans (heq.trans hid.symm))]
  · rw [hid, hown, hnumber, hlength]

theorem append_grows (h : DocsOk docs) (rules : MemoryRules) (input : DocumentCommit)
    (createdAt : Text) (access : MemoryAccess) :
    (∃ refusal, append rules docs input createdAt access = (docs, .error refusal)) ∨
      ∃ target, ∃ revision : DocumentRevision, ∃ later : List JournalDocument,
        append rules docs input createdAt access = (later, .ok ()) ∧ commitTarget docs input access = .ok target ∧
        isStale (target.map JournalDocument.current) input = false ∧ Grows docs later revision ∧
        (historyOf docs revision.documentId).getLast? = target.map JournalDocument.current ∧
        revision.content = if input.deleted then [] else input.content := by
  obtain hrefused | ⟨target, revision, htarget, hstale, hnext, hrevision, heq⟩ :=
    append_cases rules docs input createdAt access
  · exact .inl hrefused
  · refine .inr ⟨target, revision, _, heq, htarget, hstale, ?_, ?_, by rw [hnext]; rfl⟩
    · cases target with
      | none =>
        have hfresh := rules.fresh (docs.map JournalDocument.id)
        have hidentity := (isRevision_facts rules hrevision).documentId
        subst hnext
        refine grows_new h (fun doc hmem hsame => hfresh ?_) (fun hnil => ?_) rfl _
        · have hid := mem_map_of_mem (f := JournalDocument.id) hmem
          rw [hsame] at hid
          exact hid
        · rw [hnil] at hidentity
          cases hidentity
      | some doc =>
        subst hnext
        exact grows_push h (commitTarget_some htarget) rfl rfl _
    · cases target with
      | none =>
        have hfresh := rules.fresh (docs.map JournalDocument.id)
        rw [historyOf_eq_nil, getLast?_nil, map_none]
        intro doc hmem hsame
        have hid := mem_map_of_mem (f := JournalDocument.id) hmem
        rw [hsame, hnext] at hid
        exact hfresh hid
      | some doc =>
        have hid : revision.documentId = doc.id := by rw [hnext]; rfl
        rw [hid, h.history (commitTarget_some htarget), getLast?_eq_some_getLast doc.nonempty]
        rfl

/-- Nothing is written, or one more revision. -/
def Writes (docs later : List JournalDocument) : Prop :=
  later = docs ∨ ∃ revision, Grows docs later revision

theorem append_writes (h : DocsOk docs) : Writes docs (append rules docs input createdAt access).1 := by
  rcases append_grows h rules input createdAt access with
    ⟨refusal, heq⟩ | ⟨target, revision, later, heq, -, -, hgrows, -⟩
  · rw [heq]
    exact .inl rfl
  · rw [heq]
    exact .inr ⟨revision, hgrows⟩

theorem commit_eq_append (rules : MemoryRules) (docs : List JournalDocument)
    (input : DocumentCommit) (createdAt : Text)
    (access : MemoryAccess) : (∃ refusal, commit rules docs input createdAt access = (docs, .error refusal)) ∨
      commit rules docs input createdAt access = append rules docs input createdAt access := by
  unfold commit
  split_ifs
  · exact .inl ⟨_, rfl⟩
  · exact .inl ⟨_, rfl⟩
  · exact .inl ⟨_, rfl⟩
  · exact .inl ⟨_, rfl⟩
  · exact .inl ⟨_, rfl⟩
  · exact .inr rfl

theorem commit_writes (h : DocsOk docs) : Writes docs (commit rules docs input createdAt access).1 := by
  obtain ⟨refusal, heq⟩ | heq := commit_eq_append rules docs input createdAt access
  · rw [heq]
    exact .inl rfl
  · rw [heq]
    exact append_writes h

variable {expectedRevision : ℤ} {attribution : Attribution}

theorem delete_writes (h : DocsOk docs) :
    Writes docs (delete rules docs id expectedRevision attribution createdAt access).1 := by
  unfold delete
  split
  · exact .inl rfl
  · exact append_writes h

theorem restore_writes (h : DocsOk docs) {number : ℕ} :
    Writes docs (restore rules docs id number expectedRevision attribution createdAt access).1 := by
  unfold restore
  split
  · exact .inl rfl
  · split
    · exact .inl rfl
    · split
      · exact .inl rfl
      · exact append_writes h

theorem reconcile_writes (h : DocsOk docs) {ownerUserId : Text} {note : Option (Text × List Text)} :
    Writes docs (reconcile docs id ownerUserId note createdAt) := by
  unfold reconcile
  split
  · exact .inl rfl
  · next doc hfound =>
    split
    · exact .inl rfl
    · have hmem := mem_of_find?_eq_some hfound
      have hid : (reconciled ownerUserId note createdAt doc.current).documentId = doc.id := by
        rw [← (h.numbered doc hmem _ _ doc.getElem?_last).2]
        cases note <;> rfl
      have hnumber : (reconciled ownerUserId note createdAt doc.current).revision = doc.current.revision + 1 := by
        cases note <;> rfl
      exact .inr ⟨_, grows_push h hmem hid hnumber _⟩

/-- The document and the number that a commit of the service names are those of the last
revision. -/
theorem serviceCommit_grows (rules : SaveRules) (h : DocsOk docs) (context : MemoryOperationContext)
    (call : Call) (input : SaveInput) (target : Option Text) (htarget : target ≠ some [])
    (content : Text) (expectedRevision : ℤ) (createdAt : Text) :
    (∃ error, serviceCommit rules docs context call input target content expectedRevision
      createdAt = (docs, .error error)) ∨
      ∃ later, ∃ revision : DocumentRevision,
        serviceCommit rules docs context call input target content expectedRevision createdAt =
          (later, call.thrown.elim (.ok ()) .error) ∧
        Grows docs later revision ∧ revision.content = content ∧
        (historyOf docs revision.documentId).getLast?.elim 0 (fun last => (last.revision : ℤ)) = expectedRevision ∧
        ∀ id, target = some id → revision.documentId = id := by
  unfold serviceCommit
  split
  swap
  · exact .inl ⟨_, rfl⟩
  split
  · exact .inl ⟨_, rfl⟩
  · exact .inl ⟨_, rfl⟩
  split
  · exact .inl ⟨_, rfl⟩
  rename_i access scope _
  generalize hcommit : documentCommit context _ access scope input target content expectedRevision = written
  have hfields : written.id = target ∧ written.content = content ∧ written.expectedRevision = expectedRevision ∧
      written.deleted = false := by
    subst hcommit
    exact ⟨rfl, rfl, rfl, rfl⟩
  obtain ⟨hid, hcontent, hexpected, hdeleted⟩ := hfields
  obtain ⟨refusal, heq⟩ | heq := commit_eq_append rules.toMemoryRules docs written createdAt access
  · rw [heq]
    cases refusal <;> exact .inl ⟨_, rfl⟩
  rcases append_grows h rules.toMemoryRules written createdAt access with
    ⟨refusal, hrefused⟩ | ⟨doc, revision, later, hwritten, hdoc, hstale, hgrows, hlast, hnew⟩
  · rw [heq, hrefused]
    cases refusal <;> exact .inl ⟨_, rfl⟩
  · refine .inr ⟨later, revision, by rw [heq, hwritten]; rfl, hgrows, ?_, ?_, ?_⟩
    · rw [hnew, hdeleted, hcontent]
      rfl
    · have hnumber := (Bool.or_eq_false_iff.mp hstale).1
      rw [decide_eq_false_iff_not, not_not] at hnumber
      rw [hlast, hnumber, hexpected]
    · intro id hsome
      rw [hsome] at hid htarget
      have hpresent : present written.id = some id := by
        have hne : id ≠ [] := fun hnil => htarget (congrArg some hnil)
        simp [present, hid, hne]
      unfold commitTarget at hdoc
      rw [hpresent] at hdoc
      dsimp only at hdoc
      split at hdoc
      · cases hdoc
      · rename_i found hvisible
        obtain rfl := Except.ok.inj hdoc
        obtain ⟨hmem, hsame, -⟩ := mem_of_visibleDocument hvisible
        have hcurrent := (h.numbered found hmem _ _ found.getElem?_last).2
        have hin := mem_of_getLast? hlast
        obtain ⟨owner, howner, hownerId, hrevision⟩ := exists_of_history hin
        obtain ⟨index, hindex⟩ := getElem?_of_mem hrevision
        rw [← hownerId, ← (h.numbered owner howner index _ hindex).2, hcurrent, hsame]

theorem DocsOk.eq_last (h : DocsOk docs) {last : DocumentRevision}
    (hmem : revision ∈ historyOf docs id) (hlast : (historyOf docs id).getLast? = some last)
    (hnumber : revision.revision = last.revision) : revision = last := by
  obtain ⟨doc, hdoc, rfl, hrevision⟩ := exists_of_history hmem
  rw [h.history hdoc, getLast?_eq_some_getLast doc.nonempty] at hlast
  have hcurrent : doc.current = last := some.inj hlast
  rw [← hcurrent] at hnumber ⊢
  exact h.eq_current hdoc hrevision hnumber

theorem DocsOk.getLast_eq_none (h : DocsOk docs)
    (hzero : (historyOf docs id).getLast?.elim 0 (fun last => (last.revision : ℤ)) = 0) :
    (historyOf docs id).getLast? = none := by
  rcases hlast : (historyOf docs id).getLast? with _ | last
  · rfl
  rw [hlast, elim_some] at hzero
  obtain ⟨doc, hdoc, -, hrevision⟩ := exists_of_history (mem_of_getLast? hlast)
  obtain ⟨index, hindex⟩ := getElem?_of_mem hrevision
  have hnumber := (h.numbered doc hdoc index _ hindex).1
  omega

end ArdurBot.Memory
