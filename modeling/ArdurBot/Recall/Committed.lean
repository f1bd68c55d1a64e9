import ArdurBot.Lib.History
import ArdurBot.Recall.Index

/-!
# Revisions that were committed

The store numbers the revisions of a document one after the other and never moves it. So the row of
a revision stays what it is when others are committed, and a build that read the store earlier has
the rows of the revisions that were the newest then.
-/

namespace ArdurBot.Recall

open List Utf16 Memory
open Bool hiding not_and

variable {write : Write}

section

variable {entry : SpaceEntry} {id other : Text} {document : Option RecallIndexDocument}
  {writes : List Write}

namespace SpaceEntry

/-- Each row is where its document was last written to. -/
def Tidy (entry : SpaceEntry) : Prop :=
  ∀ row ∈ entry.rows, entry.documentPartitions row.2.id = some row.1

theorem tidy_of_rows (h : entry.rows = []) : entry.Tidy := by
  intro row hrow
  rw [h] at hrow
  exact absurd hrow not_mem_nil

theorem held_congr {entry' : SpaceEntry} (h : entry'.rows = entry.rows) : entry'.held id = entry.held id := by
  unfold held
  rw [h]

theorem held_of_rows (h : entry.rows = []) : entry.held id = [] := by
  unfold held
  rw [h]
  rfl

section

variable (h : entry.Tidy)
include h

theorem mem_deleteRow {row : ℕ × RecallIndexDocument} :
    row ∈ (entry.deleteRow id).rows ↔ row ∈ entry.rows ∧ row.2.id ≠ id := by
  unfold deleteRow
  split
  · next hnone =>
    refine (and_iff_left_of_imp fun hrow hsame => ?_).symm
    rw [← hsame, h row hrow] at hnone
    cases hnone
  · next table htable =>
    rw [mem_filter]
    refine and_congr_right fun hrow => ?_
    constructor
    · intro hkept hsame
      have htable' : row.1 = table := by
        rw [← hsame, h row hrow] at htable
        exact Option.some.inj htable
      simp [htable', hsame] at hkept
    · intro hother
      simp [hother]

theorem tidy_replace (hid : ∀ row, document = some row → row.id = id) : (entry.replace id document).Tidy := by
  intro row hrow
  unfold replace at hrow ⊢
  cases document with
  | none =>
    dsimp only at hrow ⊢
    obtain ⟨hold, hother⟩ := (mem_deleteRow h).mp hrow
    rw [Function.update_of_ne hother]
    exact h row hold
  | some written =>
    dsimp only at hrow ⊢
    obtain rfl | hrow := mem_cons.mp hrow
    · rw [hid written rfl, Function.update_self]
    · obtain ⟨hold, hother⟩ := (mem_deleteRow h).mp hrow
      rw [Function.update_of_ne hother]
      exact h row hold

theorem rows_deleteRow : (entry.deleteRow id).rows = entry.rows.filter fun row => row.2.id ≠ id := by
  have hfilter : (entry.deleteRow id).rows = (entry.deleteRow id).rows.filter fun row => row.2.id ≠ id := by
    rw [eq_comm, filter_eq_self]
    exact fun row hrow => decide_eq_true ((mem_deleteRow h).mp hrow).2
  rw [hfilter]
  unfold deleteRow
  split
  · rfl
  · dsimp only
    rw [filter_filter]
    refine filter_congr fun row _ => ?_
    by_cases hsame : row.2.id = id <;> simp [hsame]

theorem held_deleteRow : (entry.deleteRow id).held other = if other = id then [] else entry.held other := by
  unfold held
  rw [rows_deleteRow h, filter_filter]
  split
  · next hsame =>
    subst hsame
    simp
  · next hother =>
    congr 1
    refine filter_congr fun row _ => ?_
    by_cases hrow : row.2.id = other
    · simp [hrow, hother]
    · simp [hrow]

theorem held_replace (hid : ∀ row, document = some row → row.id = id) :
    (entry.replace id document).held other = if other = id then document.toList else entry.held other := by
  have hdeleted : (entry.deleteRow id).held other = if other = id then [] else entry.held other :=
    held_deleteRow h
  rcases document with _ | row
  · exact (held_congr rfl).trans hdeleted
  have hrow : row.id = id := hid row rfl
  have hrows : (entry.replace id (some row)).held other =
      if row.id = other then row :: (entry.deleteRow id).held other else (entry.deleteRow id).held other := by
    unfold held replace
    rw [filter_cons]
    by_cases hsame : row.id = other <;> simp [hsame]
  rw [hrows, hdeleted, hrow]
  by_cases hsame : other = id
  · subst hsame
    simp
  · rw [if_neg fun heq => hsame heq.symm, if_neg hsame, if_neg hsame]

end

def replaceAll (entry : SpaceEntry) (writes : List Write) : SpaceEntry :=
  writes.foldl (fun entry write => entry.replace write.id write.document) entry

end SpaceEntry

/-- A row that a write leaves is of its document. -/
def Write.Named (write : Write) : Prop := ∀ row, write.document = some row → row.id = write.id

def lastWrite (writes : List Write) (id : Text) : Option Write :=
  (writes.filter fun write => write.id = id).getLast?

theorem lastWrite_concat (writes : List Write) (write : Write) (id : Text) :
    lastWrite (writes ++ [write]) id = if write.id = id then some write else lastWrite writes id := by
  unfold lastWrite
  rw [filter_append, filter_cons]
  by_cases hsame : write.id = id <;> simp [hsame]

theorem lastWrite_append (writes later : List Write) (id : Text) :
    lastWrite (writes ++ later) id = (lastWrite later id).or (lastWrite writes id) := by
  unfold lastWrite
  rw [filter_append, getLast?_append]

theorem lastWrite_spec (h : lastWrite writes id = some write) : write ∈ writes ∧ write.id = id := by
  have hmem := mem_filter.mp (mem_of_getLast? h)
  exact ⟨hmem.1, of_decide_eq_true hmem.2⟩

theorem lastWrite_eq_none : lastWrite writes id = none ↔ ∀ write ∈ writes, write.id ≠ id := by
  unfold lastWrite
  simp

namespace SpaceEntry

theorem replaceAll_concat (writes : List Write) (write : Write) :
    entry.replaceAll (writes ++ [write]) = (entry.replaceAll writes).replace write.id write.document := by
  unfold replaceAll
  rw [foldl_append]
  rfl

theorem replaceAll_append (writes later : List Write) :
    entry.replaceAll (writes ++ later) = (entry.replaceAll writes).replaceAll later := foldl_append

theorem tidy_replaceAll (h : entry.Tidy) (hnamed : ∀ write ∈ writes, write.Named) :
    (entry.replaceAll writes).Tidy := by
  induction writes using reverseRecOn with
  | nil => exact h
  | append_singleton writes write ih =>
    rw [replaceAll_concat]
    refine tidy_replace (ih fun other hother => hnamed other (mem_append_left _ hother)) ?_
    exact hnamed write (mem_append_right _ mem_cons_self)

theorem held_replaceAll (h : entry.Tidy) (hnamed : ∀ write ∈ writes, write.Named) (id : Text) :
    (entry.replaceAll writes).held id = (lastWrite writes id).elim (entry.held id) fun write =>
      write.document.toList := by
  induction writes using reverseRecOn with
  | nil => rfl
  | append_singleton writes write ih =>
    have hbefore : ∀ other ∈ writes, other.Named := fun other hother => hnamed other (mem_append_left _ hother)
    have hlast : write.Named := hnamed write (mem_append_right _ mem_cons_self)
    rw [replaceAll_concat, held_replace (tidy_replaceAll h hbefore) hlast, ih hbefore, lastWrite_concat]
    by_cases hsame : id = write.id
    · subst hsame
      rw [if_pos rfl, if_pos rfl]
      rfl
    · rw [if_neg hsame, if_neg fun heq => hsame heq.symm]

theorem replace_frame (entry : SpaceEntry) (id : Text) (document : Option RecallIndexDocument) :
    (entry.replace id document).db = entry.db ∧ (entry.replace id document).failed = entry.failed ∧
      (entry.replace id document).building = entry.building ∧ (entry.replace id document).slices = entry.slices ∧
      (entry.replace id document).pending = entry.pending ∧ (entry.replace id document).ended = entry.ended := by
  unfold replace deleteRow
  cases document <;> dsimp only <;> split <;> simp

theorem replaceAll_frame (entry : SpaceEntry) (writes : List Write) :
    (entry.replaceAll writes).db = entry.db ∧ (entry.replaceAll writes).failed = entry.failed ∧
      (entry.replaceAll writes).building = entry.building ∧ (entry.replaceAll writes).slices = entry.slices ∧
      (entry.replaceAll writes).pending = entry.pending ∧ (entry.replaceAll writes).ended = entry.ended := by
  induction writes using reverseRecOn with
  | nil => exact ⟨rfl, rfl, rfl, rfl, rfl, rfl⟩
  | append_singleton writes write ih =>
    obtain ⟨hdb, hfailed, hbuilding, hslices, hpending, hended⟩ :=
      replace_frame (entry.replaceAll writes) write.id write.document
    obtain ⟨hdb', hfailed', hbuilding', hslices', hpending', hended'⟩ := ih
    rw [replaceAll_concat]
    exact ⟨hdb.trans hdb', hfailed.trans hfailed', hbuilding.trans hbuilding',
      hslices.trans hslices', hpending.trans hpending',
      hended.trans hended'⟩

end SpaceEntry

end

variable {heads earlier : List MemoryDocumentHead} {head : MemoryDocumentHead} {id : Text}
  {revision : ℕ}

abbrev Committed (heads : List MemoryDocumentHead) :
  Prop := History.Ok (fun earlier head => follows earlier head = true) heads

theorem newest_cons : newest (head :: heads) id = if head.id = id then some head else newest heads id := by
  unfold newest
  rw [find?_cons]
  by_cases hsame : head.id = id <;> simp [hsame]

theorem newestRevision_cons :
    newestRevision (head :: heads) id = if head.id = id then head.revision else newestRevision heads id := by
  unfold newestRevision
  rw [newest_cons]
  split <;> rfl

theorem newest_spec (h : newest heads id = some head) : head ∈ heads ∧ head.id = id := by
  unfold newest at h
  exact ⟨mem_of_find?_eq_some h, by simpa using find?_some h⟩

theorem follows_spec (h : follows heads head) :
    head.id ≠ [] ∧ head.revision = newestRevision heads head.id + 1 ∧
    ∀ current, newest heads head.id = some current → scopeKey current.scopeKey = scopeKey head.scopeKey := by
  simp only [follows, and_eq_true, decide_eq_true_eq, Option.all_eq_true] at h
  exact ⟨h.1.1, h.1.2, fun current hcurrent => (h.2 current hcurrent).1⟩

theorem newestRevision_le_cons (h : follows heads head) (id : Text) :
    newestRevision heads id ≤ newestRevision (head :: heads) id := by
  rw [newestRevision_cons]
  split
  · next hsame =>
    rw [(follows_spec h).2.1, hsame]
    omega
  · exact le_rfl

section

variable (h : Committed heads) (hsuffix : earlier <:+ heads)
include h hsuffix

theorem Committed.of_suffix : Committed earlier := by
  induction heads with
  | nil =>
    rw [suffix_nil.mp hsuffix]
    exact h
  | cons head heads ih =>
    obtain rfl | hsuffix := suffix_cons_iff.mp hsuffix
    · exact h
    · exact ih h.2 hsuffix

theorem newestRevision_mono (id : Text) : newestRevision earlier id ≤ newestRevision heads id := by
  induction heads with
  | nil => rw [suffix_nil.mp hsuffix]
  | cons head heads ih =>
    obtain rfl | hsuffix := suffix_cons_iff.mp hsuffix
    · exact le_rfl
    · exact (ih h.2 hsuffix).trans (newestRevision_le_cons h.1 id)

theorem scope_of_suffix {old : MemoryDocumentHead}
    (hold : newest earlier id = some old) :
    ∃ current, newest heads id = some current ∧ scopeKey current.scopeKey =
    scopeKey old.scopeKey := by
  induction heads with
  | nil =>
    rw [suffix_nil.mp hsuffix] at hold
    cases hold
  | cons head heads ih =>
    obtain rfl | hsuffix := suffix_cons_iff.mp hsuffix
    · exact ⟨old, hold, rfl⟩
    · obtain ⟨current, hcurrent, hscope⟩ := ih h.2 hsuffix
      rw [newest_cons]
      by_cases hsame : head.id = id
      · subst hsame
        rw [if_pos rfl]
        exact ⟨head, rfl, ((follows_spec h.1).2.2 current hcurrent).symm.trans hscope⟩
      · rw [if_neg hsame]
        exact ⟨current, hcurrent, hscope⟩

end

theorem rowAt_cons_of_le (h : follows heads head) (hle : revision ≤ newestRevision heads id) :
    rowAt (head :: heads) id revision = rowAt heads id revision := by
  unfold rowAt
  rw [find?_cons]
  have hother : (decide (head.id = id) && decide (head.revision = revision)) = false := by
    rw [and_eq_false_iff, decide_eq_false_iff_not, decide_eq_false_iff_not]
    by_cases hsame : head.id = id
    · subst hsame
      have hnumber := (follows_spec h).2.1
      exact .inr (by omega)
    · exact .inl hsame
  rw [hother]

section

variable (h : Committed heads)
include h

theorem rowAt_of_suffix (hsuffix : earlier <:+ heads) (hle : revision ≤ newestRevision earlier id) :
    rowAt heads id revision = rowAt earlier id revision := by
  induction heads with
  | nil => rw [suffix_nil.mp hsuffix]
  | cons head heads ih =>
    obtain rfl | hsuffix := suffix_cons_iff.mp hsuffix
    · rfl
    · rw [rowAt_cons_of_le h.1 (hle.trans (newestRevision_mono h.2 hsuffix id)), ih h.2 hsuffix]

section

variable (hmem : head ∈ heads)
include hmem

theorem revision_le_newest : head.revision ≤ newestRevision heads head.id := by
  induction heads with
  | nil => exact absurd hmem not_mem_nil
  | cons last heads ih =>
    obtain rfl | hmem := mem_cons.mp hmem
    · rw [newestRevision_cons, if_pos rfl]
    · exact (ih h.2 hmem).trans (newestRevision_le_cons h.1 head.id)

theorem revision_pos : 0 < head.revision := by
  obtain ⟨earlier, hsuffix⟩ := History.exists_suffix hmem
  rw [(follows_spec (History.Ok.of_suffix h hsuffix)).2.1]
  exact Nat.succ_pos _

theorem id_ne_nil : head.id ≠ [] := by
  obtain ⟨earlier, hsuffix⟩ := History.exists_suffix hmem
  exact (follows_spec (History.Ok.of_suffix h hsuffix)).1

theorem rowAt_of_mem : rowAt heads head.id head.revision = writtenDocument head := by
  induction heads with
  | nil => exact absurd hmem not_mem_nil
  | cons last heads ih =>
    obtain rfl | hmem := mem_cons.mp hmem
    · unfold rowAt
      rw [find?_cons_of_pos (by simp)]
      rfl
    · rw [rowAt_cons_of_le h.1 (revision_le_newest h.2 hmem), ih h.2 hmem]

end

theorem rowAt_zero (id : Text) : rowAt heads id 0 = none := by
  unfold rowAt
  rw [find?_eq_none.mpr]
  · rfl
  · intro head hmem
    have hpos := revision_pos h hmem
    simp only [and_eq_true, decide_eq_true_eq, not_and]
    omega

theorem rowAt_newest (id : Text) :
    rowAt heads id (newestRevision heads id) = (newest heads id).bind writtenDocument := by
  cases hnewest : newest heads id with
  | none =>
    have hzero : newestRevision heads id = 0 := by
      unfold newestRevision
      rw [hnewest]
      rfl
    rw [hzero]
    exact rowAt_zero h id
  | some head =>
    obtain ⟨hmem, rfl⟩ := newest_spec hnewest
    have hrevision : newestRevision heads head.id = head.revision := by
      unfold newestRevision
      rw [hnewest]
      rfl
    rw [hrevision, rowAt_of_mem h hmem]
    rfl

end

variable {row : RecallIndexDocument}

theorem writtenDocument_spec (h : writtenDocument head = some row) :
    row.id = head.id ∧ row.revision = head.revision := by
  unfold writtenDocument indexableDocument readDocument at h
  split at h
  · cases h
  · split at h
    · cases h
    · obtain ⟨place, -, rfl⟩ := Option.map_eq_some_iff.mp h
      exact ⟨rfl, rfl⟩

theorem rowAt_spec (h : rowAt heads id revision = some row) : row.id = id ∧ row.revision = revision := by
  obtain ⟨head, hfound, hrow⟩ := Option.bind_eq_some_iff.mp h
  have hkeys := find?_some hfound
  simp only [and_eq_true, decide_eq_true_eq] at hkeys
  obtain ⟨hid, hrevision⟩ := writtenDocument_spec hrow
  exact ⟨hid.trans hkeys.1, hrevision.trans hkeys.2⟩

section

variable {covers : Text → Text → Bool} {sliceKey : Text}

def loads (covers : Text → Text → Bool) (heads : List MemoryDocumentHead) (sliceKey : Text) : List Write :=
  ((snapshot covers heads sliceKey).filter SpaceEntry.loadable).map fun document =>
    ⟨document.id, some document, document.revision⟩

theorem mem_loads : write ∈ loads covers heads sliceKey ↔
    ∃ row, write = ⟨row.id, some row, row.revision⟩ ∧ SpaceEntry.loadable row ∧
      ∃ head ∈ heads, newest heads head.id = some head ∧ head.deletedAt.isNone ∧
        covers sliceKey (scopeKey head.scopeKey) ∧ readDocument head = some row := by
  simp only [loads, snapshot, mem_map, mem_filter, mem_filterMap, and_eq_true, decide_eq_true_eq]
  constructor
  · rintro ⟨row, ⟨⟨head, ⟨hmem, ⟨hnewest, hlive⟩, hcovers⟩, hread⟩, hloadable⟩, rfl⟩
    exact ⟨row, rfl, hloadable, head, hmem, hnewest, hlive, hcovers, hread⟩
  · rintro ⟨row, rfl, hloadable, head, hmem, hnewest, hlive, hcovers, hread⟩
    exact ⟨row, ⟨⟨head, ⟨hmem, ⟨hnewest, hlive⟩, hcovers⟩, hread⟩, hloadable⟩, rfl⟩

theorem readDocument_spec (h : readDocument head = some row) :
    row.id = head.id ∧ row.path = head.path ∧ row.revision = head.revision := by
  obtain ⟨place, -, rfl⟩ := Option.map_eq_some_iff.mp h
  exact ⟨rfl, rfl, rfl⟩

theorem loads_spec (h : Committed heads) (hmem : write ∈ loads covers heads sliceKey) :
    write.revision = newestRevision heads write.id ∧
      write.document = rowAt heads write.id (newestRevision heads write.id) ∧
      ∃ head, newest heads write.id = some head ∧ covers sliceKey (scopeKey head.scopeKey) := by
  obtain ⟨row, rfl, hloadable, head, hhead, hnewest, hlive, hcovers, hread⟩ := mem_loads.mp hmem
  obtain ⟨hid, hpath, hrevision⟩ := readDocument_spec hread
  rw [hid]
  have hnumber : newestRevision heads head.id = head.revision := by
    unfold newestRevision
    rw [hnewest]
    rfl
  refine ⟨hrevision.trans hnumber.symm, ?_, head, hnewest, hcovers⟩
  have hpath : isExcluded head.path = false := by
    rw [← hpath]
    simpa using (and_eq_true_iff.mp hloadable).2
  rw [hnumber, rowAt_of_mem h hhead, writtenDocument, if_neg, indexableDocument, if_neg, hread]
  · rw [hpath]
    exact false_ne_true
  · rw [Option.isNone_iff_eq_none.mp hlive]
    exact false_ne_true

theorem loads_complete (h : Committed heads) (hnewest : newest heads id = some head)
    (hcovers : covers sliceKey (scopeKey head.scopeKey))
    (hnone : lastWrite (loads covers heads sliceKey) id = none) :
    rowAt heads id (newestRevision heads id) = none := by
  rw [rowAt_newest h, hnewest, Option.bind_some]
  obtain ⟨hmem, rfl⟩ := newest_spec hnewest
  rcases hrow : writtenDocument head with _ | row
  · rfl
  obtain ⟨hid, -⟩ := writtenDocument_spec hrow
  unfold writtenDocument indexableDocument at hrow
  split at hrow
  · cases hrow
  · next hlive =>
    split at hrow
    · cases hrow
    · next hpath =>
      rw [not_eq_true, Option.isSome_eq_false_iff] at hlive
      rw [not_eq_true] at hpath
      have hloadable : SpaceEntry.loadable row := by
        unfold SpaceEntry.loadable
        rw [hid, (readDocument_spec hrow).2.1, hpath, decide_eq_true (id_ne_nil h hmem)]
        rfl
      have hload : ⟨row.id, some row, row.revision⟩ ∈ loads covers heads sliceKey :=
        mem_loads.mpr ⟨row, rfl, hloadable, head, hmem, hnewest, hlive, hcovers, hrow⟩
      exact absurd hid (lastWrite_eq_none.mp hnone _ hload)

end

end ArdurBot.Recall
