import ArdurBot.Recall.IndexActs

/-!
# Loads

A load writes what its build read and then what waits for the builds. So each document of the slice
is current after it, if a write waits of each that the snapshot is too old for, and no write that
waits is older than what it is written over.
-/

namespace ArdurBot.Recall

open List Utf16 Memory Option Bool Function

variable {covers : Text → Text → Bool} {s : State} {entry : SpaceEntry}
  {heads : List MemoryDocumentHead} {given loaded : Text → ℕ} {id sliceKey : Text} {ref caller : ℕ}
  {announced : Announcement}

structure LoadGood (covers : Text → Text → Bool) (s : State) (sliceKey : Text)
  (announced : Announcement)
    (heads : List MemoryDocumentHead) (entry : SpaceEntry) : Prop where
  newer : ∀ head ∈ s.heads, covers sliceKey (scopeKey head.scopeKey) →
    lastWrite entry.pending head.id ≠ none ∨
    s.loaded head.id ≤ newestRevision heads head.id ∧
      (Stands s sliceKey announced ∨ s.given head.id ≤ newestRevision heads head.id)
  buffered : ∀ id write, lastWrite entry.pending id = some write → s.given id ≤ write.revision ∧
    s.loaded id ≤ write.revision ∧
    ∀ load ∈ loads covers heads sliceKey, load.id = id → load.revision ≤ write.revision

namespace SpaceEntry

theorem replace_slices (entry : SpaceEntry) (slices : List Text) (id : Text)
    (document : Option RecallIndexDocument) :
    { entry with slices }.replace id document = { entry.replace id document with slices } := by
  unfold replace deleteRow
  cases document <;> dsimp only <;> split <;> rfl

theorem replaceAll_slices (entry : SpaceEntry) (slices : List Text) (writes : List Write) :
    { entry with slices }.replaceAll writes = { entry.replaceAll writes with slices } := by
  induction writes using reverseRecOn with
  | nil => rfl
  | append_singleton writes write ih => rw [replaceAll_concat, replaceAll_concat, ih, replace_slices]

def addSlice (entry : SpaceEntry) (sliceKey : Text) : List Text :=
  if sliceKey ∈ entry.slices then entry.slices else entry.slices ++ [sliceKey]

theorem mem_addSlice {other : Text} : other ∈ entry.addSlice sliceKey ↔ other ∈ entry.slices ∨
    other = sliceKey := by
  unfold addSlice
  split
  · next hmem =>
    refine (or_iff_left_of_imp ?_).symm
    rintro rfl
    exact hmem
  · simp

theorem load_eq (entry : SpaceEntry) (covers : Text → Text → Bool) (heads : List MemoryDocumentHead)
    (sliceKey : Text) :
    entry.load sliceKey (snapshot covers heads sliceKey) =
      { entry.replaceAll (loads covers heads sliceKey ++ entry.pending) with slices := entry.addSlice sliceKey } := by
  have hloads : ((snapshot covers heads sliceKey).filter loadable).foldl
      (fun entry document => entry.replace document.id (some document)) entry =
        entry.replaceAll (loads covers heads sliceKey) := by
    unfold replaceAll loads
    rw [foldl_map]
  have hslices : (entry.replaceAll (loads covers heads sliceKey)).slices = entry.slices :=
    (replaceAll_frame entry _).2.2.2.1
  unfold load
  dsimp only
  rw [hloads, hslices, replaceAll_append]
  exact replaceAll_slices _ _ _

end SpaceEntry

theorem loadedAfter_le {documents : List RecallIndexDocument} {bound : ℕ} (hle : loaded id ≤ bound)
    (hdocuments : ∀ document ∈ documents, document.id = id → document.revision ≤ bound) :
    State.loadedAfter loaded documents id ≤ bound := by
  unfold State.loadedAfter
  induction documents using reverseRecOn with
  | nil => exact hle
  | append_singleton documents document ih =>
    have hbefore := ih fun other hother => hdocuments other (mem_append_left _ hother)
    rw [foldl_append, foldl_cons, foldl_nil]
    by_cases hsame : id = document.id
    · rw [hsame, update_self]
      rw [hsame] at hbefore
      exact max_le hbefore (hdocuments document (mem_append_right _ mem_cons_self) hsame.symm)
    · rw [update_of_ne hsame]
      exact hbefore

theorem le_loadedAfter (loaded : Text → ℕ) (documents : List RecallIndexDocument) (id : Text) :
    loaded id ≤ State.loadedAfter loaded documents id ∧
      ∀ document ∈ documents, document.id = id → document.revision ≤ State.loadedAfter loaded documents id := by
  unfold State.loadedAfter
  induction documents using reverseRecOn with
  | nil => exact ⟨le_rfl, forall_mem_nil _⟩
  | append_singleton documents document ih =>
    obtain ⟨hbefore, hdocuments⟩ := ih
    rw [foldl_append, foldl_cons, foldl_nil]
    by_cases hsame : id = document.id
    · subst hsame
      rw [update_self]
      refine ⟨le_max_of_le_left hbefore, fun other hother hid => ?_⟩
      obtain hother | hother := mem_append.mp hother
      · exact le_max_of_le_left (hdocuments other hother hid)
      · rw [mem_singleton.mp hother]
        exact le_max_right _ _
    · rw [update_of_ne hsame]
      refine ⟨hbefore, fun other hother hid => ?_⟩
      obtain hother | hother := mem_append.mp hother
      · exact hdocuments other hother hid
      · rw [mem_singleton.mp hother] at hid
        exact absurd hid.symm hsame

theorem mem_loads_iff {document : RecallIndexDocument} :
    document ∈ (snapshot covers heads sliceKey).filter SpaceEntry.loadable ↔
      (⟨document.id, some document, document.revision⟩ : Write) ∈ loads covers heads sliceKey := by
  unfold loads
  constructor
  · intro hmem
    exact mem_map.mpr ⟨document, hmem, rfl⟩
  · intro hmem
    obtain ⟨other, hother, heq⟩ := mem_map.mp hmem
    have hsame : other = document := some.inj (congrArg Write.document heq)
    exact hsame ▸ hother

theorem loads_named (hcommitted : Committed heads) {write : Write}
    (hmem : write ∈ loads covers heads sliceKey) : write.Named := by
  intro row hrow
  rw [(loads_spec hcommitted hmem).2.1] at hrow
  exact (rowAt_spec hrow).1

theorem held_load (hcommitted : Committed heads) (hentry : EntryOk covers heads given loaded entry)
    {earlier : List MemoryDocumentHead} (hsuffix : earlier <:+ heads) (id : Text) :
    (entry.load sliceKey (snapshot covers earlier sliceKey)).held id =
      ((lastWrite entry.pending id).or (lastWrite (loads covers earlier sliceKey) id)).elim (entry.held id)
        fun write => write.document.toList := by
  have hnamed : ∀ write ∈ loads covers earlier sliceKey ++ entry.pending, write.Named := by
    intro write hwrite
    obtain hwrite | hwrite := mem_append.mp hwrite
    · exact loads_named (hcommitted.of_suffix hsuffix) hwrite
    · exact (hentry.pending write hwrite).named
  rw [SpaceEntry.load_eq, ← lastWrite_append, ← SpaceEntry.held_replaceAll hentry.tidy hnamed]
  rfl

section

variable (hcommitted : Committed heads) (hentry : EntryOk covers heads given loaded entry)
  {earlier : List MemoryDocumentHead} (hsuffix : earlier <:+ heads)
include hcommitted hentry hsuffix

theorem isCurrent_load (hnone : lastWrite entry.pending id = none)
    (hold : IsCurrent covers heads given loaded entry id)
    (hnewer : ∀ head, newest heads id = some head → covers sliceKey (scopeKey head.scopeKey) →
      given id ≤ newestRevision earlier id ∧ loaded id ≤ newestRevision earlier id) :
    IsCurrent covers heads given
    (State.loadedAfter loaded ((snapshot covers earlier sliceKey).filter SpaceEntry.loadable))
      (entry.load sliceKey (snapshot covers earlier sliceKey)) id := by
  have hearlier := hcommitted.of_suffix hsuffix
  have hheld : (entry.load sliceKey (snapshot covers earlier sliceKey)).held id =
      ((lastWrite entry.pending id).or (lastWrite (loads covers earlier sliceKey) id)).elim (entry.held id)
        fun write => write.document.toList := held_load hcommitted hentry hsuffix id
  rw [hnone, none_or] at hheld
  have hrow : rowAt heads id (newestRevision earlier id) = rowAt earlier id (newestRevision earlier id) :=
    rowAt_of_suffix hcommitted hsuffix le_rfl
  have hle := newestRevision_mono hcommitted hsuffix id
  cases hlast : lastWrite (loads covers earlier sliceKey) id with
  | some write =>
    obtain ⟨hmem, rfl⟩ := lastWrite_spec hlast
    obtain ⟨-, hdocument, head, hnewest, hcovers⟩ := loads_spec hearlier hmem
    obtain ⟨current, hcurrent, hscope⟩ := scope_of_suffix hcommitted hsuffix hnewest
    obtain ⟨hgiven, hloaded⟩ := hnewer current hcurrent (hscope ▸ hcovers)
    refine .inl ⟨newestRevision earlier write.id, hle, hgiven,
      loadedAfter_le hloaded fun document hdocument' hid => ?_, ?_⟩
    · have hload := (loads_spec hearlier (mem_loads_iff.mp hdocument')).1
      dsimp only at hload
      rw [hload, hid]
    · rw [hheld, hlast, elim_some, hdocument, hrow]
  | none =>
    rw [hlast, elim_none] at hheld
    have hunloaded : State.loadedAfter loaded
        ((snapshot covers earlier sliceKey).filter SpaceEntry.loadable) id ≤ loaded id := by
      refine loadedAfter_le le_rfl fun document hdocument hid => ?_
      exact absurd hid (lastWrite_eq_none.mp hlast _ (mem_loads_iff.mp hdocument))
    obtain ⟨revision, hrevision, hgiven, hloaded, hrow'⟩ | ⟨hempty, huncovered⟩ := hold
    · exact .inl ⟨revision, hrevision, hgiven, hunloaded.trans hloaded, hheld.trans hrow'⟩
    · by_cases hcovered : IsCovered covers heads (entry.load sliceKey (snapshot covers earlier sliceKey)) id
      · obtain ⟨head, hnewest, other, hother, hcovers⟩ := hcovered
        have hmem : other ∈ entry.slices ∨ other = sliceKey := by
          rw [SpaceEntry.load_eq] at hother
          exact SpaceEntry.mem_addSlice.mp hother
        obtain hmem | rfl := hmem
        · exact absurd ⟨head, hnewest, other, hmem, hcovers⟩ huncovered
        · obtain ⟨hgiven, hloaded⟩ := hnewer head hnewest hcovers
          refine .inl ⟨newestRevision earlier id, hle, hgiven, hunloaded.trans hloaded, ?_⟩
          rw [hheld, hempty, hrow]
          rcases hold : newest earlier id with _ | old
          · rw [rowAt_newest hearlier, hold]
            rfl
          obtain ⟨current, hcurrent, hscope⟩ := scope_of_suffix hcommitted hsuffix hold
          obtain rfl : head = current := some.inj (hnewest.symm.trans hcurrent)
          rw [hscope] at hcovers
          rw [loads_complete hearlier hold hcovers hlast]
          rfl
      · exact .inr ⟨hheld.trans hempty, hcovered⟩

end

theorem load_frame (entry : SpaceEntry) (covers : Text → Text → Bool)
    (earlier : List MemoryDocumentHead) (sliceKey : Text) :
    let after := entry.load sliceKey (snapshot covers earlier sliceKey)
    after.db = entry.db ∧ after.failed = entry.failed ∧ after.building = entry.building ∧
      after.pending = entry.pending ∧
      after.ended = entry.ended ∧ after.slices = entry.addSlice sliceKey := by
  intro after
  obtain ⟨hdb, hfailed, hbuilding, -, hpending, hended⟩ :=
    SpaceEntry.replaceAll_frame entry (loads covers earlier sliceKey ++ entry.pending)
  have hafter : after =
      { entry.replaceAll (loads covers earlier sliceKey ++ entry.pending)
      with slices := entry.addSlice sliceKey } :=
    SpaceEntry.load_eq entry covers earlier sliceKey
  rw [hafter]
  exact ⟨hdb, hfailed, hbuilding, hpending, hended, rfl⟩

theorem entryOk_load (hcommitted : Committed heads) (hentry : EntryOk covers heads given loaded entry)
    {earlier : List MemoryDocumentHead} (hsuffix : earlier <:+ heads) (hdb : entry.db = .opened)
    (hcurrent : ∀ id, IsCurrent covers heads given
      (State.loadedAfter loaded ((snapshot covers earlier sliceKey).filter SpaceEntry.loadable))
      (entry.load sliceKey (snapshot covers earlier sliceKey)) id) :
    EntryOk covers heads given
    (State.loadedAfter loaded ((snapshot covers earlier sliceKey).filter SpaceEntry.loadable))
      ((entry.load sliceKey (snapshot covers earlier sliceKey)).finish sliceKey) := by
  obtain ⟨hdb', hfailed', hbuilding', hpending', -, hslices'⟩ := load_frame entry covers earlier sliceKey
  have hearlier := hcommitted.of_suffix hsuffix
  refine
    { tidy := ?_, unopened := fun hno => ?_, notClosed := fun hno => ?_, failed := fun hno => ?_,
      apart := ?_, pending := ?_
      seen := ?_, single := ?_, current := fun _ id => .inl (hcurrent id) }
  · have htidy : (entry.replaceAll (loads covers earlier sliceKey ++ entry.pending)).Tidy := by
      refine SpaceEntry.tidy_replaceAll hentry.tidy fun write hwrite => ?_
      obtain hwrite | hwrite := mem_append.mp hwrite
      · exact loads_named hearlier hwrite
      · exact (hentry.pending write hwrite).named
    rw [SpaceEntry.load_eq]
    exact htidy
  · exact absurd (hdb.symm.trans (hdb'.symm.trans hno)) nofun
  · exact absurd (hdb.symm.trans (hdb'.symm.trans hno)) nofun
  · exact absurd (hdb.symm.trans (hentry.failed (hfailed'.symm.trans hno))) nofun
  · intro other hother hbuilding
    obtain ⟨hmem, hne⟩ := mem_finish.mp hbuilding
    rw [hbuilding'] at hmem
    have hslice : other ∈ entry.slices ∨ other = sliceKey := by
      refine SpaceEntry.mem_addSlice.mp ?_
      rw [← hslices']
      exact hother
    obtain hslice | hsame := hslice
    · exact hentry.apart other hslice hmem
    · exact hne hsame
  · intro write hwrite
    refine hentry.pending write ?_
    unfold SpaceEntry.finish at hwrite
    dsimp only at hwrite
    split at hwrite
    · exact absurd hwrite not_mem_nil
    · exact hpending' ▸ hwrite
  · intro id row hrow
    have hheld : row ∈ (entry.load sliceKey (snapshot covers earlier sliceKey)).held id := hrow
    rw [held_load hcommitted hentry hsuffix] at hheld
    obtain ⟨hmono, hdocuments⟩ :=
      le_loadedAfter loaded ((snapshot covers earlier sliceKey).filter SpaceEntry.loadable) id
    cases hlast : lastWrite entry.pending id with
    | some write =>
      rw [hlast, some_or, elim_some] at hheld
      obtain ⟨hmem, rfl⟩ := lastWrite_spec hlast
      have hwrite := hentry.pending write hmem
      rw [hwrite.row] at hheld
      rw [(rowAt_spec (mem_toList.mp hheld)).2]
      exact le_max_of_le_left hwrite.given
    | none =>
      rw [hlast, none_or] at hheld
      cases hload : lastWrite (loads covers earlier sliceKey) id with
      | some write =>
        rw [hload, elim_some] at hheld
        obtain ⟨hmem, rfl⟩ := lastWrite_spec hload
        obtain ⟨document, hdocument, rfl⟩ := mem_map.mp hmem
        obtain rfl : document = row := mem_singleton.mp hheld ▸ rfl
        exact le_max_of_le_right (hdocuments document hdocument rfl)
      | none =>
        rw [hload, elim_none] at hheld
        exact (hentry.seen id row hheld).trans (max_le_max le_rfl hmono)
  · intro id row hrow other hother
    have hheld : row ∈ (entry.load sliceKey (snapshot covers earlier sliceKey)).held id := hrow
    have hheld' : other ∈ (entry.load sliceKey (snapshot covers earlier sliceKey)).held id := hother
    rw [held_load hcommitted hentry hsuffix] at hheld hheld'
    cases hlast : (lastWrite entry.pending id).or (lastWrite (loads covers earlier sliceKey) id) with
    | some write =>
      rw [hlast, elim_some] at hheld hheld'
      exact some.inj ((mem_toList.mp hheld).symm.trans (mem_toList.mp hheld'))
    | none =>
      rw [hlast, elim_none] at hheld hheld'
      exact hentry.single id row hheld other hheld'

theorem opened_frame (s : State) (ref other : ℕ) (opens : Bool) :
    ((s.opened ref opens).entries other).pending = (s.entries other).pending ∧
      ((s.opened ref opens).entries other).ended = (s.entries other).ended ∧
      ((s.opened ref opens).entries other).rows = (s.entries other).rows ∧ (s.opened ref opens).current = s.current ∧
      (s.opened ref opens).heads = s.heads ∧ (s.opened ref opens).builds = s.builds ∧
        (s.opened ref opens).given = s.given ∧
      (s.opened ref opens).loaded = s.loaded ∧ (s.opened ref opens).count = s.count := by
  unfold State.opened State.setEntry
  dsimp only
  split
  · split <;> dsimp only <;> by_cases hsame : other = ref
    · rw [hsame, update_self]
      exact ⟨rfl, rfl, rfl, rfl, rfl, rfl, rfl, rfl, rfl⟩
    · rw [update_of_ne hsame]
      exact ⟨rfl, rfl, rfl, rfl, rfl, rfl, rfl, rfl, rfl⟩
    · rw [hsame, update_self]
      exact ⟨rfl, rfl, rfl, rfl, rfl, rfl, rfl, rfl, rfl⟩
    · rw [update_of_ne hsame]
      exact ⟨rfl, rfl, rfl, rfl, rfl, rfl, rfl, rfl, rfl⟩
  · exact ⟨rfl, rfl, rfl, rfl, rfl, rfl, rfl, rfl, rfl⟩

theorem failed_of_unopened {opens : Bool} (h : ((s.opened ref opens).entries ref).db = .unopened) :
    ((s.opened ref opens).entries ref).failed := by
  unfold State.opened State.setEntry at h ⊢
  dsimp only at h ⊢
  split at h
  · split at h
    · dsimp only at h
      rw [update_self] at h
      cases h
    · next hwaits hopens =>
      rw [if_pos hwaits, if_neg hopens]
      dsimp only
      rw [update_self]
  · next hwaits =>
    rw [if_neg hwaits]
    simpa [h] using hwaits

theorem core_dropPending (h : Core covers s)
    (hworks : ∀ own other, Works own other (s.builds caller) → other = sliceKey ∧ own = ref)
    (hfailed : (s.entries ref).failed) :
    Core covers ((s.setBuild caller .idle).setEntry ref ({ s.entries ref with pending := [] }.finish sliceKey)) := by
  by_cases hcurrent : s.current = some ref
  · have hentry := (h.entry ref hcurrent).2
    have hends : Extends s.given s.given (s.entries ref) ((s.entries ref).finish sliceKey) := extends_finish s.given
    have hcleared : EntryOk covers s.heads s.given s.loaded { s.entries ref with pending := [] } :=
      { tidy := hentry.tidy, unopened := hentry.unopened, notClosed := hentry.notClosed, failed := hentry.failed
        apart := hentry.apart, pending := forall_mem_nil _, seen := hentry.seen
        single := hentry.single
        current := fun hno => absurd (hfailed.symm.trans hno) true_eq_false.mp }
    have hfinished : EntryOk covers s.heads s.given s.loaded ({ s.entries ref with pending := [] }.finish sliceKey) :=
      hcleared.finish fun _ _ hno => absurd (hfailed.symm.trans hno) true_eq_false.mp
    refine h.update hcurrent h.given h.loaded hfinished ?_ trivial ?_
    · exact
        { ended := hends.ended, building := hends.building, failed := hends.failed
          pending := fun hno => absurd (hfailed.symm.trans hno) true_eq_false.mp
          given := fun _ hno => absurd (hfailed.symm.trans hno) true_eq_false.mp }
    · intro other hother
      obtain ⟨hmem, hne⟩ := mem_finish.mp hother
      exact .inr ⟨hmem, fun hown => hne (hworks ref other hown).1⟩
  · have hidle : Core covers (s.setBuild caller .idle) :=
      h.setBuild trivial fun own other hown hcurrent' => absurd ((hworks own other hown).2 ▸ hcurrent') hcurrent
    exact hidle.orphan hcurrent _

theorem LoadGood.fresh (hgood : LoadGood covers s sliceKey announced heads (s.entries ref))
    (hcurrent : s.current = some ref) (hannounced : AnnouncedOk s sliceKey announced heads)
    (hfailed : (s.entries ref).failed = false) (hnone : lastWrite (s.entries ref).pending id = none)
    {head : MemoryDocumentHead} (hnewest : newest s.heads id = some head)
    (hcovers : covers sliceKey (scopeKey head.scopeKey)) :
    s.given id ≤ newestRevision heads id ∧ s.loaded id ≤ newestRevision heads id := by
  obtain ⟨hmem, rfl⟩ := newest_spec hnewest
  obtain ⟨hloaded, hgiven⟩ := (hgood.newer head hmem hcovers).resolve_left fun hpending => hpending hnone
  refine ⟨?_, hloaded⟩
  obtain ⟨own, ended, hannouncement, hown, hended⟩ | hgiven := hgiven
  · obtain rfl : own = ref := some.inj (hown.symm.trans hcurrent)
    obtain ⟨-, hwaits⟩ := ((hannounced own ended hannouncement).2 hown).2 hended hfailed
    exact (hwaits head.id).resolve_right fun hpending => hpending hnone
  · exact hgiven

theorem failed_eq_false (h : Core covers s) (hcurrent : s.current = some ref)
    (hdb : (s.entries ref).db = .opened) :
    (s.entries ref).failed = false := by
  rw [← not_eq_true]
  intro hyes
  exact absurd (hdb.symm.trans ((h.entry ref hcurrent).2.failed hyes)) nofun

theorem core_load (h : Core covers s) (hbuild : s.builds caller = .indexing sliceKey announced heads ref)
    (hdb : (s.entries ref).db = .opened)
    (hgood : s.current = some ref → LoadGood covers s sliceKey announced heads (s.entries ref)) :
    Core covers { (s.setBuild caller .idle).setEntry ref
        (((s.entries ref).load sliceKey (snapshot covers heads sliceKey)).finish sliceKey) with
      loaded := if s.current = some ref then
        State.loadedAfter s.loaded ((snapshot covers heads sliceKey).filter SpaceEntry.loadable) else s.loaded } := by
  have hown := h.builds caller
  rw [hbuild] at hown
  obtain ⟨-, hsuffix, hannounced⟩ := hown
  by_cases hcurrent : s.current = some ref
  · rw [if_pos hcurrent]
    have hentry := (h.entry ref hcurrent).2
    have hgood := hgood hcurrent
    obtain ⟨-, hfailed', hbuilding', hpending', hended', -⟩ := load_frame (s.entries ref) covers heads sliceKey
    have hfailed := failed_eq_false h hcurrent hdb
    have hloads : ∀ id, ∀ document ∈ (snapshot covers heads sliceKey).filter SpaceEntry.loadable, document.id = id →
        document.revision = newestRevision heads id := by
      rintro id document hdocument rfl
      exact (loads_spec (h.committed.of_suffix hsuffix) (mem_loads_iff.mp hdocument)).1
    have hall : ∀ id, IsCurrent covers s.heads s.given
        (State.loadedAfter s.loaded ((snapshot covers heads sliceKey).filter SpaceEntry.loadable))
        ((s.entries ref).load sliceKey (snapshot covers heads sliceKey)) id := by
      intro id
      cases hlast : lastWrite (s.entries ref).pending id with
      | some write =>
        obtain ⟨hgiven, hloaded, hsnapshot⟩ := hgood.buffered id write hlast
        have hle : State.loadedAfter s.loaded
            ((snapshot covers heads sliceKey).filter SpaceEntry.loadable) id ≤ write.revision :=
          loadedAfter_le hloaded fun document hdocument hid => hsnapshot _ (mem_loads_iff.mp hdocument) hid
        obtain ⟨hmem, rfl⟩ := lastWrite_spec hlast
        have hwrite := hentry.pending write hmem
        refine .inl ⟨write.revision, hwrite.committed, hgiven, hle, ?_⟩
        rw [held_load h.committed hentry hsuffix, hlast, ← hwrite.row]
        rfl
      | none =>
        have hold : IsCurrent covers s.heads s.given s.loaded (s.entries ref) id :=
          (hentry.current hfailed id).resolve_right fun hwaits => hwaits.2 hlast
        exact isCurrent_load h.committed hentry hsuffix hlast hold fun head hnewest hcovers =>
          hgood.fresh hcurrent hannounced hfailed hlast hnewest hcovers
    have hends : Extends s.given s.given ((s.entries ref).load sliceKey (snapshot covers heads sliceKey))
        (((s.entries ref).load sliceKey (snapshot covers heads sliceKey)).finish sliceKey) := extends_finish s.given
    refine h.update hcurrent h.given ?_ (entryOk_load h.committed hentry hsuffix hdb hall) ?_ trivial ?_
    · intro id
      refine loadedAfter_le (h.loaded id) fun document hdocument hid => ?_
      rw [hloads id document hdocument hid]
      exact newestRevision_mono h.committed hsuffix id
    · exact
        { ended := hended' ▸ hends.ended, building := hended' ▸ hbuilding' ▸ hends.building
          failed := hfailed' ▸ hends.failed, pending := hpending' ▸ hends.pending, given := fun _ _ _ => .inl rfl }
    · intro other hother
      obtain ⟨hmem, hne⟩ := mem_finish.mp hother
      rw [hbuilding'] at hmem
      refine .inr ⟨hmem, fun hworks => hne ?_⟩
      rw [hbuild] at hworks
      exact hworks.1.symm
  · rw [if_neg hcurrent]
    have hidle : Core covers (s.setBuild caller .idle) := h.setBuild trivial fun own other hworks hown => by
      rw [hbuild] at hworks
      exact absurd (hworks.2 ▸ hown) hcurrent
    exact hidle.orphan hcurrent _

theorem LoadGood.opened {opens : Bool} (h : LoadGood covers s sliceKey announced heads (s.entries ref)) :
    LoadGood covers (s.opened ref opens) sliceKey announced heads ((s.opened ref opens).entries ref) := by
  obtain ⟨hpending, -, -, hcurrent, hheads, -, hgiven, hloaded, -⟩ := opened_frame s ref ref opens
  refine ⟨?_, ?_⟩
  · rw [hheads, hpending, hgiven, hloaded]
    intro head hmem hcovers
    refine (h.newer head hmem hcovers).imp_right fun ⟨hle, hstands⟩ => ⟨hle, hstands.imp_left ?_⟩
    rintro ⟨own, ended, heq, hown, hended⟩
    refine ⟨own, ended, heq, hcurrent.trans hown, ?_⟩
    rw [(opened_frame s ref own opens).2.1]
    exact hended
  · rw [hpending, hgiven, hloaded]
    exact h.buffered

theorem core_finishIndex (h : Core covers s)
    (hbuild : s.builds caller = .indexing sliceKey announced heads ref) (opens fails : Bool)
    (hgood : s.current = some ref → fails = false → ((s.opened ref opens).entries ref).db = .opened →
      LoadGood covers s sliceKey announced heads (s.entries ref)) :
    Core covers (s.finishIndex covers caller sliceKey heads ref opens fails) := by
  have hopened := core_opened h ref opens
  obtain ⟨-, -, -, hcurrent, -, hbuilds, -, -, -⟩ := opened_frame s ref ref opens
  rw [← hbuilds] at hbuild
  have hworks : ∀ own other, Works own other ((s.opened ref opens).builds caller) → other = sliceKey ∧ own = ref := by
    intro own other hown
    rw [hbuild] at hown
    exact ⟨hown.1.symm, hown.2.symm⟩
  have hidle : ∀ other, ((s.opened ref opens).setBuild caller .idle).builds other = .idle ∨
      ((s.opened ref opens).setBuild caller .idle).builds other = (s.opened ref opens).builds other := by
    intro other
    by_cases hsame : other = caller
    · rw [hsame]
      exact .inl (update_self ..)
    · exact .inr (update_of_ne hsame ..)
  unfold State.finishIndex
  dsimp only
  split
  · next hdb => exact core_dropPending hopened hworks (failed_of_unopened hdb)
  · exact hopened.without rfl rfl rfl rfl rfl hopened.given rfl hidle
  · next hdb =>
    split
    · exact hopened.without rfl rfl rfl rfl rfl hopened.given rfl hidle
    · next hsucceeds =>
      refine core_load hopened hbuild hdb fun hown => ?_
      exact (hgood (hcurrent.symm.trans hown) (not_eq_true _ ▸ hsucceeds) hdb).opened

end ArdurBot.Recall
