import ArdurBot.Recall.IndexOk

/-!
# Steps of builds and writes

What each method of the index leaves of the invariant, and the conditions that three of them need: a
build that is given up drops no write that the index lacks, a load finds a write of whatever its
snapshot is too old for, and a row that is written directly is none older than what the index was
given or has loaded.
-/

namespace ArdurBot.Recall

open List Utf16 Memory
open Function
open Option

variable {covers : Text → Text → Bool} {s : State} {entry : SpaceEntry}
  {heads : List MemoryDocumentHead} {head : MemoryDocumentHead} {given loaded : Text → ℕ}
  {id sliceKey : Text} {ref caller : ℕ} {announced : Announcement}

/-! ### Commits -/

theorem IsCurrent.commit (h : IsCurrent covers heads given loaded entry id)
    (hcommitted : Committed (head :: heads))
    (hgiven : given id ≤ newestRevision heads id) (hloaded : loaded id ≤ newestRevision heads id) :
    IsCurrent covers (head :: heads) given loaded entry id := by
  obtain ⟨revision, hle, hgiven', hloaded', hheld⟩ | ⟨hheld, huncovered⟩ := h
  · refine .inl ⟨revision, hle.trans (newestRevision_le_cons hcommitted.1 id), hgiven', hloaded', ?_⟩
    rw [rowAt_cons_of_le hcommitted.1 hle]
    exact hheld
  · cases hnewest : newest heads id with
    | none =>
      have hzero : newestRevision heads id = 0 := by
        unfold newestRevision
        rw [hnewest]
        rfl
      rw [hzero] at hgiven hloaded
      refine .inl ⟨0, Nat.zero_le _, hgiven, hloaded, ?_⟩
      rw [hheld, rowAt_zero hcommitted]
      rfl
    | some old =>
      refine .inr ⟨hheld, fun ⟨current, hcurrent, hcovered⟩ => huncovered ?_⟩
      obtain ⟨current', hcurrent', hscope⟩ := scope_of_suffix hcommitted (suffix_cons head heads) hnewest
      obtain rfl : current = current' := some.inj (hcurrent.symm.trans hcurrent')
      rw [hscope] at hcovered
      exact ⟨old, hnewest, hcovered⟩

theorem EntryOk.commit (h : EntryOk covers heads given loaded entry) (hcommitted : Committed (head :: heads))
    (hgiven : ∀ id, given id ≤ newestRevision heads id)
    (hloaded : ∀ id, loaded id ≤ newestRevision heads id) :
    EntryOk covers (head :: heads) given loaded entry where
  __ := h
  pending write hwrite := by
    obtain ⟨hrow, hle, hgiven⟩ := h.pending write hwrite
    refine ⟨?_, hle.trans (newestRevision_le_cons hcommitted.1 _), hgiven⟩
    rw [rowAt_cons_of_le hcommitted.1 hle]
    exact hrow
  current hfailed id := (h.current hfailed id).imp_left fun hcurrent =>
    hcurrent.commit hcommitted (hgiven id) (hloaded id)

theorem core_commit (h : Core covers s) (hfollows : follows s.heads head) :
    Core covers { s with heads := head :: s.heads } := by
  have hcommitted : Committed (head :: s.heads) := ⟨hfollows, h.committed⟩
  have hle := newestRevision_le_cons hfollows
  have hannounced : ∀ {sliceKey announced}, AnnouncedOk s sliceKey announced s.heads →
      AnnouncedOk { s with heads := head :: s.heads } sliceKey announced (head :: s.heads) := by
    intro sliceKey announced hold ref ended heq
    obtain ⟨hlt, hstands⟩ := hold ref ended heq
    refine ⟨hlt, fun hown => ⟨(hstands hown).1, fun hended hfailed => ?_⟩⟩
    obtain ⟨hbuilding, -⟩ := (hstands hown).2 hended hfailed
    exact ⟨hbuilding, fun id => .inl ((h.given id).trans (hle id))⟩
  refine
    { available := h.available, enabled := h.enabled, committed := hcommitted,
      given := fun id => (h.given id).trans (hle id)
      loaded := fun id => (h.loaded id).trans (hle id), entry := ?_, builds := ?_, working := h.working }
  · intro ref hcurrent
    obtain ⟨hlt, hentry⟩ := h.entry ref hcurrent
    exact ⟨hlt, hentry.commit hcommitted h.given h.loaded⟩
  · intro caller
    have hold := h.builds caller
    cases hbuild : s.builds caller with
    | idle => trivial
    | begun sliceKey announced =>
      rw [hbuild] at hold
      exact hannounced hold
    | read sliceKey announced heads =>
      rw [hbuild] at hold
      exact ⟨hold.1.trans (suffix_cons head s.heads), hold.2⟩
    | indexing sliceKey announced heads ref =>
      rw [hbuild] at hold
      exact ⟨hold.1, hold.2.1.trans (suffix_cons head s.heads), hold.2.2⟩

/-! ### Announcements -/

theorem core_withEntry (h : Core covers s) : Core covers s.withEntry.1 ∧ s.withEntry.1.current = some s.withEntry.2 ∧
    s.withEntry.1.builds = s.builds ∧ s.withEntry.1.heads = s.heads := by
  unfold State.withEntry
  cases hcurrent : s.current with
  | some ref => exact ⟨h, hcurrent, rfl, rfl⟩
  | none =>
    refine ⟨?_, rfl, rfl, rfl⟩
    have hannounced : ∀ {sliceKey announced heads}, AnnouncedOk s sliceKey announced heads →
        AnnouncedOk { s.setEntry s.count newEntry with count := s.count + 1, current := some s.count } sliceKey announced heads := by
      intro sliceKey announced heads hold ref ended heq
      have hlt := (hold ref ended heq).1
      refine ⟨Nat.lt_succ_of_lt hlt, fun hown => ?_⟩
      have hsame : s.count = ref := some.inj hown
      omega
    refine
      { available := h.available, enabled := h.enabled, committed := h.committed, given := h.given, loaded := h.loaded
        entry := ?_, builds := ?_, working := ?_ }
    · intro ref hown
      obtain rfl : s.count = ref := some.inj hown
      unfold State.setEntry
      dsimp only
      rw [update_self]
      exact ⟨Nat.lt_succ_self _, SpaceEntry.tidy_of_rows rfl, fun _ => ⟨rfl, rfl⟩, nofun, nofun, nofun, nofun, nofun, nofun,
        fun _ _ => .inl (.inr ⟨rfl, fun ⟨_, _, _, hnone, _⟩ => absurd hnone not_mem_nil⟩)⟩
    · intro caller
      have hold := h.builds caller
      cases hbuild : s.builds caller with
      | idle =>
        unfold State.setEntry
        rw [hbuild]
        trivial
      | begun sliceKey announced =>
        rw [hbuild] at hold
        unfold State.setEntry
        rw [hbuild]
        exact hannounced hold
      | read sliceKey announced heads =>
        rw [hbuild] at hold
        unfold State.setEntry
        rw [hbuild]
        exact ⟨hold.1, hannounced hold.2⟩
      | indexing sliceKey announced heads ref =>
        rw [hbuild] at hold
        unfold State.setEntry
        rw [hbuild]
        exact ⟨Nat.lt_succ_of_lt hold.1, hold.2.1, hannounced hold.2.2⟩
    · intro ref hown sliceKey hbuilding
      obtain rfl : s.count = ref := some.inj hown
      unfold State.setEntry at hbuilding
      dsimp only at hbuilding
      rw [update_self] at hbuilding
      exact absurd hbuilding not_mem_nil

theorem mem_announce {other : Text} :
    other ∈ (entry.announce sliceKey).building ↔ other ∈ entry.building ∨ other = sliceKey := by
  unfold SpaceEntry.announce
  split
  · next hmem =>
    refine (or_iff_left_of_imp ?_).symm
    rintro rfl
    exact hmem
  · simp

theorem EntryOk.announce (h : EntryOk covers heads given loaded entry) (hslice : sliceKey ∉ entry.slices) :
    EntryOk covers heads given loaded (entry.announce sliceKey) where
  __ := h
  apart other hother hbuilding := by
    obtain hbuilding | rfl := mem_announce.mp hbuilding
    · exact h.apart other hother hbuilding
    · exact hslice hother
  current hfailed id := (h.current hfailed id).imp_right fun ⟨_, hpending⟩ =>
    ⟨ne_nil_of_mem (mem_announce.mpr (.inr rfl)), hpending⟩

theorem extends_announce (given : Text → ℕ) : Extends given given entry (entry.announce sliceKey) where
  ended _ := le_rfl
  building _ hmem _ := mem_announce.mpr (.inl hmem)
  failed := id
  pending _ _ _ := id
  given _ _ _ := .inl rfl

theorem announcedOk_new {ended : ℕ} (hlt : ref < s.count) (hended : (s.entries ref).ended sliceKey = ended)
    (hmem : sliceKey ∈ (s.entries ref).building) (hgiven : ∀ id, s.given id ≤ newestRevision heads id) :
    AnnouncedOk s sliceKey (some (ref, ended)) heads := by
  intro other ended heq
  cases heq
  exact ⟨hlt, fun _ => ⟨hended.ge, fun _ _ => ⟨hmem, fun id => .inl (hgiven id)⟩⟩⟩

section

variable (h : Core covers s) (hidle : s.builds caller = .idle) (sliceKey : Text)
include h hidle

theorem core_begin_plain : Core covers (s.setBuild caller (.begun sliceKey none)) := by
  refine h.setBuild (fun _ _ hnone => by cases hnone) fun ref other hworks => ?_
  rw [hidle] at hworks
  exact hworks.elim

theorem core_beginSlice : Core covers (s.beginSlice caller sliceKey) := by
  unfold State.beginSlice
  rw [h.enabled, if_neg Bool.false_ne_true]
  obtain ⟨hentered, hcurrent, hbuilds, -⟩ := core_withEntry h
  rw [← hbuilds] at hidle
  obtain ⟨hlt, hentry⟩ := hentered.entry _ hcurrent
  dsimp only
  split
  · exact core_begin_plain hentered hidle sliceKey
  · next hopen =>
    rw [Bool.or_eq_true, not_or, decide_eq_true_iff] at hopen
    refine hentered.update hcurrent hentered.given hentered.loaded (hentry.announce hopen.2)
      (extends_announce _) ?_ ?_
    · refine announcedOk_new hlt ?_ ?_ hentered.given <;> dsimp only <;> rw [update_self]
      · rfl
      · exact mem_announce.mpr (.inr rfl)
    · intro other hother
      obtain hother | rfl := mem_announce.mp hother
      · refine .inr ⟨hother, fun hworks => ?_⟩
        rw [hidle] at hworks
        exact hworks
      · exact .inl rfl

end

/-! ### Ends of builds -/

theorem mem_finish {other : Text} :
    other ∈ (entry.finish sliceKey).building ↔ other ∈ entry.building ∧ other ≠ sliceKey := by
  unfold SpaceEntry.finish
  simp

theorem EntryOk.finish (h : EntryOk covers heads given loaded entry)
    (hcurrent : entry.building ≠ [] → (entry.finish sliceKey).building = [] → entry.failed = false →
      ∀ id, lastWrite entry.pending id ≠ none → IsCurrent covers heads given loaded entry id) :
    EntryOk covers heads given loaded (entry.finish sliceKey) where
  __ := h
  apart other hother hbuilding := h.apart other hother (mem_finish.mp hbuilding).1
  pending write hwrite := by
    refine h.pending write ?_
    unfold SpaceEntry.finish at hwrite
    dsimp only at hwrite
    split at hwrite
    · exact absurd hwrite not_mem_nil
    · exact hwrite
  current hfailed id := by
    have hsame : IsCurrent covers heads given loaded entry id →
        IsCurrent covers heads given loaded (entry.finish sliceKey) id :=
      fun hown => hown
    by_cases hlast : (entry.finish sliceKey).building = []
    · obtain hown | ⟨hbuilding, hpending⟩ := h.current hfailed id
      · exact .inl (hsame hown)
      · exact .inl (hsame (hcurrent hbuilding hlast hfailed id hpending))
    · refine (h.current hfailed id).imp hsame fun ⟨_, hpending⟩ => ⟨hlast, ?_⟩
      unfold SpaceEntry.finish at hlast ⊢
      dsimp only at hlast ⊢
      rw [if_neg hlast]
      exact hpending

theorem extends_finish (given : Text → ℕ) : Extends given given entry (entry.finish sliceKey) where
  ended other := by
    unfold SpaceEntry.finish
    dsimp only
    by_cases hsame : other = sliceKey
    · rw [hsame, update_self]
      omega
    · rw [update_of_ne hsame]
  building other hmem hended := by
    refine mem_finish.mpr ⟨hmem, ?_⟩
    rintro rfl
    unfold SpaceEntry.finish at hended
    dsimp only at hended
    rw [update_self] at hended
    omega
  failed := id
  pending _ hbuilding id hpending := by
    unfold SpaceEntry.finish at hbuilding ⊢
    dsimp only at hbuilding ⊢
    rw [if_neg hbuilding]
    exact hpending
  given _ _ _ := .inl rfl

/-- What an abort must find: each write that it drops is of a document that is current. -/
def AbortGood (covers : Text → Text → Bool) (s : State) (sliceKey : Text) : Prop :=
  ∀ ref, s.current = some ref → (s.entries ref).building ≠ [] →
    ((s.entries ref).finish sliceKey).building = [] →
    (s.entries ref).failed = false → ∀ write ∈ (s.entries ref).pending,
      IsCurrent covers s.heads s.given s.loaded (s.entries ref) write.id

theorem core_abort (h : Core covers s) (hgood : AbortGood covers s sliceKey)
    (hworks : ∀ ref other, Works ref other (s.builds caller) → other = sliceKey) :
    Core covers ((s.abortSlice sliceKey).setBuild caller .idle) := by
  unfold State.abortSlice
  cases hcurrent : s.current with
  | none =>
    exact h.without hcurrent rfl rfl rfl rfl h.given rfl fun other => by
      unfold State.setBuild
      by_cases hsame : other = caller
      · rw [hsame]
        exact .inl (update_self ..)
      · exact .inr (update_of_ne hsame ..)
  | some ref =>
    obtain ⟨-, hentry⟩ := h.entry ref hcurrent
    have hfinished : Core covers (((s.setEntry ref ((s.entries ref).finish sliceKey))).setBuild caller .idle) := by
      refine h.update hcurrent h.given h.loaded (hentry.finish ?_) (extends_finish _) trivial ?_
      · intro hbuilding hlast hfailed id hpending
        cases hwrite : lastWrite (s.entries ref).pending id with
        | none => exact absurd hwrite hpending
        | some write =>
          obtain ⟨hmem, rfl⟩ := lastWrite_spec hwrite
          exact hgood ref hcurrent hbuilding hlast hfailed write hmem
      · intro other hother
        obtain ⟨hmem, hne⟩ := mem_finish.mp hother
        exact .inr ⟨hmem, fun hown => hne (hworks ref other hown)⟩
    dsimp only
    split
    · exact hfinished.without rfl rfl rfl rfl rfl hfinished.given rfl fun _ => .inr rfl
    · exact hfinished

/-! ### The database -/

theorem extends_same {given : Text → ℕ} {entry entry' : SpaceEntry} (hended : entry'.ended = entry.ended)
    (hbuilding : entry'.building = entry.building) (hfailed : entry'.failed = false → entry.failed = false)
    (hpending : entry'.pending = entry.pending) : Extends given given entry entry' where
  ended sliceKey := by rw [hended]
  building sliceKey hmem _ := by rwa [hbuilding]
  failed := hfailed
  pending _ _ id h := by rwa [hpending]
  given _ _ _ := .inl rfl

theorem core_openEntry (h : Core covers s) (hcurrent : s.current = some ref) :
    Core covers (s.openEntry ref) := by
  unfold State.openEntry
  dsimp only
  split
  · exact h.updateEntry hcurrent h.given { (h.entry ref hcurrent).2 with } (extends_same rfl rfl (fun h => h) rfl) rfl
  · exact h

theorem Core.orphan (h : Core covers s) (hcurrent : s.current ≠ some ref) (entry : SpaceEntry) :
    Core covers (s.setEntry ref entry) := by
  have hsame : ∀ own, s.current = some own → (s.setEntry ref entry).entries own = s.entries own := by
    intro own hown
    have hne : own ≠ ref := by
      rintro rfl
      exact hcurrent hown
    exact update_of_ne hne ..
  exact
    { available := h.available, enabled := h.enabled, committed := h.committed, given := h.given, loaded := h.loaded
      entry := fun own hown => by
        rw [hsame own hown]
        exact h.entry own hown
      builds := fun caller => (h.builds caller).of_extends rfl rfl rfl fun own hown => by
        rw [hsame own hown]
        exact Extends.refl _ _
      working := fun own hown => by
        rw [hsame own hown]
        exact h.working own hown }

theorem EntryOk.opened (h : EntryOk covers heads given loaded entry) (hfailed : entry.failed = false) :
    EntryOk covers heads given loaded { entry with db := .opened } where
  tidy := h.tidy
  unopened hdb := by cases hdb
  notClosed := nofun
  failed hyes := by
    rw [hfailed] at hyes
    cases hyes
  __ := h

theorem EntryOk.failing (h : EntryOk covers heads given loaded entry) (hdb : entry.db = .unopened) :
    EntryOk covers heads given loaded { entry with failed := true, opening := false } where
  __ := h
  failed _ := hdb
  current hfailed := by cases hfailed

theorem core_opened (h : Core covers s) (ref : ℕ) (opens : Bool) : Core covers (s.opened ref opens) := by
  unfold State.opened
  dsimp only
  split
  · next hwaits =>
    simp only [Bool.and_eq_true, decide_eq_true_eq, Bool.not_eq_true'] at hwaits
    obtain ⟨hdb, hfailed⟩ := hwaits
    have hdisabled : (s.disabled || !s.available) = s.disabled := by
      rw [h.available, Bool.not_true, Bool.or_false]
    rw [hdisabled]
    by_cases hcurrent : s.current = some ref
    · have hentry := (h.entry ref hcurrent).2
      split
      · exact h.updateEntry hcurrent h.given (hentry.opened hfailed) (extends_same rfl rfl (fun h => h) rfl) rfl
      · have hextends : Extends s.given s.given (s.entries ref) { s.entries ref with failed := true, opening := false } :=
          extends_same rfl rfl (fun hno => by cases hno) rfl
        exact h.updateEntry hcurrent h.given (hentry.failing hdb) hextends rfl
    · split <;> exact h.orphan hcurrent _
  · exact h

/-! ### Builds -/

theorem core_read (h : Core covers s) (hbegun : s.builds caller = .begun sliceKey announced) :
    Core covers (s.setBuild caller (.read sliceKey announced s.heads)) := by
  have hbuild := h.builds caller
  rw [hbegun] at hbuild
  refine h.setBuild ⟨suffix_refl _, hbuild⟩ fun ref other hworks _ => ?_
  rw [hbegun] at hworks
  exact hworks

theorem building_finish (h : sliceKey ∉ entry.building) :
    (entry.finish sliceKey).building = entry.building := by
  refine filter_eq_self.mpr fun other hother => decide_eq_true ?_
  rintro rfl
  exact h hother

theorem finish_announce (h : sliceKey ∉ entry.building) :
    (entry.announce sliceKey).finish sliceKey = entry.finish sliceKey := by
  have hbuilding : (entry.announce sliceKey).building.filter (· ≠ sliceKey) =
      entry.building.filter (· ≠ sliceKey) := by
    unfold SpaceEntry.announce
    rw [if_neg h, filter_append]
    simp
  unfold SpaceEntry.finish
  rw [hbuilding]
  rfl

theorem setBuild_openEntry (s : State) (ref caller : ℕ) (build : Build) :
    (s.openEntry ref).setBuild caller build = (s.setBuild caller build).openEntry ref := by
  have hentries : (s.setBuild caller build).entries = s.entries := rfl
  unfold State.openEntry
  rw [hentries]
  dsimp only
  split <;> rfl

theorem core_indexSlice (h : Core covers s) (hread : s.builds caller = .read sliceKey announced heads) :
    Core covers (s.indexSlice caller sliceKey announced heads) := by
  unfold State.indexSlice
  rw [h.enabled, if_neg Bool.false_ne_true]
  obtain ⟨hentered, hcurrent, hbuilds, -⟩ := core_withEntry h
  rw [← hbuilds] at hread
  obtain ⟨hlt, hentry⟩ := hentered.entry _ hcurrent
  have hbuild := hentered.builds caller
  rw [hread] at hbuild
  dsimp only
  split
  · next hslice =>
    -- the slice was built meanwhile, so it is none of those that build
    have hapart := hentry.apart sliceKey hslice
    rw [finish_announce hapart]
    refine hentered.update hcurrent hentered.given hentered.loaded (hentry.finish ?_) (extends_finish _) trivial ?_
    · intro hbuilding hlast
      rw [building_finish hapart] at hlast
      exact absurd hlast hbuilding
    · intro other hother
      obtain ⟨hmem, hne⟩ := mem_finish.mp hother
      refine .inr ⟨hmem, fun hworks => hne ?_⟩
      rw [hread] at hworks
      exact hworks.symm
  · next hslice =>
    have hannounced : Core covers ((s.withEntry.1.setEntry s.withEntry.2
        ((s.withEntry.1.entries s.withEntry.2).announce sliceKey)).setBuild caller (.indexing
          sliceKey announced heads s.withEntry.2)) := by
      refine hentered.update hcurrent hentered.given hentered.loaded (hentry.announce hslice)
        (extends_announce _) ?_ ?_
      · refine ⟨hlt, hbuild.1, hbuild.2.of_extends rfl rfl fun own hown => ?_⟩
        obtain rfl : s.withEntry.2 = own := some.inj (hcurrent.symm.trans hown)
        dsimp only
        rw [update_self]
        exact extends_announce _
      · intro other hother
        obtain hother | rfl := mem_announce.mp hother
        · by_cases hsame : sliceKey = other
          · exact .inl ⟨hsame, rfl⟩
          · refine .inr ⟨hother, fun hworks => hsame ?_⟩
            rw [hread] at hworks
            exact hworks
        · exact .inl ⟨rfl, rfl⟩
    rw [setBuild_openEntry]
    exact core_openEntry hannounced hcurrent

/-! ### Writes -/

/-- What a row that is written directly must be. -/
def WriteGood (s : State) (document : MemoryDocumentHead) (fails : Option Bool) : Prop :=
  ∀ ref, s.current = some ref → (s.entries ref).failed = false → (s.entries ref).building = [] →
    (s.entries ref).db ≠ .unopened →
    fails = none ∧ s.given document.id ≤ document.revision ∧ s.loaded document.id ≤ document.revision

section

variable (given : Text → ℕ) (document : MemoryDocumentHead)

def giveTo : Text → ℕ :=
  Function.update given document.id (max (given document.id) document.revision)

theorem giveTo_self :
    giveTo given document document.id = max (given document.id) document.revision := update_self ..

end

theorem giveTo_of_ne {document : MemoryDocumentHead} (given : Text → ℕ) (h : id ≠ document.id) :
    giveTo given document id = given id :=
  update_of_ne h ..

theorem le_giveTo (given : Text → ℕ) (document : MemoryDocumentHead) (id : Text) :
    given id ≤ giveTo given document id := by
  by_cases hsame : id = document.id
  · rw [hsame, giveTo_self]
    exact le_max_left _ _
  · rw [giveTo_of_ne given hsame]

theorem giveTo_le (hcommitted : Committed heads) (hmem : head ∈ heads)
    (hgiven : ∀ id, given id ≤ newestRevision heads id)
    (id : Text) : giveTo given head id ≤ newestRevision heads id := by
  by_cases hsame : id = head.id
  · rw [hsame, giveTo_self]
    exact max_le (hgiven head.id) (revision_le_newest hcommitted hmem)
  · rw [giveTo_of_ne given hsame]
    exact hgiven id

theorem WriteOk.mono {write : Write} {given' : Text → ℕ} (h : WriteOk heads given write)
    (hle : ∀ id, given id ≤ given' id) :
    WriteOk heads given' write := ⟨h.row, h.committed, h.given.trans (hle write.id)⟩

theorem IsCurrent.give (h : IsCurrent covers heads given loaded entry id) (hother : id ≠ head.id) :
    IsCurrent covers heads (giveTo given head) loaded entry id := by
  unfold IsCurrent
  rw [giveTo_of_ne given hother]
  exact h

theorem EntryOk.give (h : EntryOk covers heads given loaded entry)
    (hcurrent : entry.failed = false → IsCurrent covers heads (giveTo given head) loaded entry head.id ∨
      entry.building ≠ [] ∧ lastWrite entry.pending head.id ≠ none) :
    EntryOk covers heads (giveTo given head) loaded entry where
  __ := h
  pending write hwrite := (h.pending write hwrite).mono (le_giveTo given head)
  seen id row hrow := (h.seen id row hrow).trans (max_le_max (le_giveTo given head id) le_rfl)
  current hfailed id := by
    by_cases hsame : id = head.id
    · rw [hsame]
      exact hcurrent hfailed
    · exact (h.current hfailed id).imp_left fun hown => hown.give hsame

theorem EntryOk.isCurrent_of_unopened (h : EntryOk covers heads given loaded entry)
    (hdb : entry.db = .unopened) (given' : Text → ℕ)
    (id : Text) : IsCurrent covers heads given' loaded entry id := by
  obtain ⟨hrows, hslices⟩ := h.unopened hdb
  refine .inr ⟨SpaceEntry.held_of_rows hrows, fun ⟨_, _, sliceKey, hmem, _⟩ => ?_⟩
  rw [hslices] at hmem
  exact absurd hmem not_mem_nil

theorem core_give (h : Core covers s) (hcurrent : s.current = some ref) (hmem : head ∈ s.heads)
    (hstays : (s.entries ref).failed = false → (s.entries ref).building = [] ∧
      IsCurrent covers s.heads (giveTo s.given head) s.loaded (s.entries ref) head.id) :
    Core covers { s with given := giveTo s.given head } := by
  have hentry : EntryOk covers s.heads (giveTo s.given head) s.loaded (s.entries ref) :=
    (h.entry ref hcurrent).2.give fun hfailed => .inl (hstays hfailed).2
  have hcore := h.updateEntry hcurrent (giveTo_le h.committed hmem h.given) hentry ?_ rfl
  · rwa [update_eq_self] at hcore
  · exact
      { ended := fun _ => le_rfl, building := fun _ hbuilding _ => hbuilding, failed := fun hfailed => hfailed
        pending := fun _ _ _ hpending => hpending
        given := fun hbuilding hfailed => absurd (hstays hfailed).1 hbuilding }

def writeOf (document : MemoryDocumentHead) : Write :=
  ⟨document.id, writtenDocument document, document.revision⟩

theorem writeOk_writeOf (hcommitted : Committed heads) (hmem : head ∈ heads) :
    WriteOk heads (giveTo given head) (writeOf head) where
  row := (rowAt_of_mem hcommitted hmem).symm
  committed := revision_le_newest hcommitted hmem
  given := (le_max_right _ _).trans (giveTo_self given head).ge

theorem WriteOk.named {write : Write} (h : WriteOk heads given write) : write.Named := by
  intro row hrow
  rw [h.row] at hrow
  exact (rowAt_spec hrow).1

section

variable (h : Core covers s) (hcurrent : s.current = some ref) (hmem : head ∈ s.heads)
include h hcurrent hmem

theorem core_buffer (hwaits : (s.entries ref).building ≠ [] ∨ (s.entries ref).db = .unopened) :
    Core covers { s with
      given := giveTo s.given head
      entries := Function.update s.entries ref
        { s.entries ref with pending := (s.entries ref).pending ++ [writeOf head] } } := by
  obtain ⟨-, hentry⟩ := h.entry ref hcurrent
  have hlast : ∀ id, lastWrite (s.entries ref).pending id ≠ none →
      lastWrite ((s.entries ref).pending ++ [writeOf head]) id ≠ none := by
    intro id hpending
    rw [lastWrite_concat]
    split
    · exact some_ne_none _
    · exact hpending
  have hown : lastWrite ((s.entries ref).pending ++ [writeOf head]) head.id ≠ none := by
    have hsame : (writeOf head).id = head.id := rfl
    rw [lastWrite_concat, if_pos hsame]
    exact some_ne_none _
  refine h.updateEntry hcurrent (giveTo_le h.committed hmem h.given) ?_ ?_ rfl
  · exact
      { tidy := hentry.tidy, unopened := hentry.unopened, notClosed := hentry.notClosed, failed := hentry.failed
        apart := hentry.apart
        pending := fun write hwrite => by
          obtain hwrite | hwrite := mem_append.mp hwrite
          · exact (hentry.pending write hwrite).mono (le_giveTo s.given head)
          · obtain rfl := mem_singleton.mp hwrite
            exact writeOk_writeOf h.committed hmem
        seen := fun id row hrow => (hentry.seen id row hrow).trans (max_le_max (le_giveTo s.given head id) le_rfl)
        single := hentry.single
        current := fun hfailed id => by
          by_cases hsame : id = head.id
          · obtain hbuilding | hdb := hwaits
            · exact .inr ⟨hbuilding, hsame ▸ hown⟩
            · exact .inl (hentry.isCurrent_of_unopened hdb _ id)
          · obtain hcurrent | ⟨hbuilding, hpending⟩ := hentry.current hfailed id
            · exact .inl (hcurrent.give hsame)
            · exact .inr ⟨hbuilding, hlast id hpending⟩ }
  · exact
      { ended := fun _ => le_rfl, building := fun _ hbuilding _ => hbuilding, failed := fun hfailed => hfailed
        pending := fun _ _ id hpending => hlast id hpending
        given := fun _ _ id => by
          by_cases hsame : id = head.id
          · exact .inr (hsame ▸ hown)
          · exact .inl (giveTo_of_ne s.given hsame) }

theorem core_writeRow
    (hbuilding : (s.entries ref).building = []) (hfailed : (s.entries ref).failed = false)
    (hdb : (s.entries ref).db ≠ .unopened)
    (hgiven : s.given head.id ≤ head.revision) (hloaded : s.loaded head.id ≤ head.revision) :
    Core covers { s with
      given := giveTo s.given head
      entries := Function.update s.entries ref ((s.entries ref).replace head.id (writtenDocument head)) } := by
  obtain ⟨-, hentry⟩ := h.entry ref hcurrent
  have hwrite : WriteOk s.heads (giveTo s.given head) (writeOf head) := writeOk_writeOf h.committed hmem
  obtain ⟨hdb', hfailed', hbuilding', hslices', hpending', hended'⟩ :=
    SpaceEntry.replace_frame (s.entries ref) head.id (writtenDocument head)
  have hheld : ∀ id, ((s.entries ref).replace head.id (writtenDocument head)).held id =
      if id = head.id then (writtenDocument head).toList else (s.entries ref).held id :=
    fun _ => SpaceEntry.held_replace hentry.tidy hwrite.named
  refine h.updateEntry hcurrent (giveTo_le h.committed hmem h.given) ?_ ?_ hbuilding'
  · refine
      { tidy := SpaceEntry.tidy_replace hentry.tidy hwrite.named,
        unopened := fun hno => absurd (hdb'.symm.trans hno) hdb
        notClosed := hdb' ▸ hentry.notClosed, failed := fun hno => ?_, apart := ?_, pending :=
          ?_, seen := ?_, single := ?_
        current := ?_ }
    · rw [hfailed', hfailed] at hno
      cases hno
    · rw [hslices', hbuilding']
      exact hentry.apart
    · rw [hpending']
      exact fun write hold => (hentry.pending write hold).mono (le_giveTo s.given head)
    · intro id row hrow
      rw [hheld id] at hrow
      split at hrow
      · next hsame =>
        subst hsame
        have hrevision : row.revision = head.revision := (writtenDocument_spec (mem_toList.mp hrow)).2
        rw [hrevision, giveTo_self]
        exact le_max_of_le_left (le_max_right _ _)
      · exact (hentry.seen id row hrow).trans (max_le_max (le_giveTo s.given head id) le_rfl)
    · intro id row hrow other hother
      rw [hheld id] at hrow hother
      split at hrow
      · next hsame =>
        rw [if_pos hsame] at hother
        exact some.inj ((mem_toList.mp hrow).symm.trans (mem_toList.mp hother))
      · next hsame =>
        rw [if_neg hsame] at hother
        exact hentry.single id row hrow other hother
    · intro _ id
      by_cases hsame : id = head.id
      · subst hsame
        refine .inl (.inl ⟨head.revision, hwrite.committed, ?_, hloaded, ?_⟩)
        · rw [giveTo_self]
          exact max_le hgiven le_rfl
        · rw [hheld head.id, if_pos rfl, rowAt_of_mem h.committed hmem]
      · refine (hentry.current hfailed id).imp (fun hown => ?_) fun ⟨hno, _⟩ => absurd hbuilding hno
        have hgive : IsCurrent covers s.heads (giveTo s.given head) s.loaded (s.entries ref) id := hown.give hsame
        unfold IsCurrent IsCovered at hgive ⊢
        rw [hheld id, if_neg hsame, hslices']
        exact hgive
  · exact
      { ended := fun _ => by rw [hended'], building := fun _ hmem _ => by rwa [hbuilding'],
        failed := fun hno => by rwa [hfailed'] at hno
        pending := fun _ hno => absurd (hbuilding'.trans hbuilding) hno
        given := fun hno => absurd hbuilding hno }

end

theorem core_applyWrite (h : Core covers s) (hmem : head ∈ s.heads) {fails : Option Bool}
    (hgood : WriteGood s head fails) :
    Core covers (s.applyWrite head fails) := by
  unfold State.applyWrite
  dsimp only
  split
  · next hdisabled => exact absurd (hdisabled.symm.trans h.enabled) Bool.true_eq_false.mp
  · split
    · next hcurrent => exact h.without hcurrent rfl rfl rfl rfl (giveTo_le h.committed hmem h.given) rfl fun _ => .inr rfl
    · next ref hcurrent =>
      split
      · next hfailed => exact core_give h hcurrent hmem fun hno => absurd (hfailed.symm.trans hno) Bool.true_eq_false.mp
      · next hfailed =>
        rw [Bool.not_eq_true] at hfailed
        split
        · next hwaits =>
          refine core_buffer h hcurrent hmem ?_
          simp only [Bool.or_eq_true, Bool.and_eq_true, decide_eq_true_eq] at hwaits
          exact hwaits.imp_right fun hdb => hdb.1
        · next hdirect =>
          simp only [Bool.or_eq_true, decide_eq_true_eq, not_or, not_not] at hdirect
          split
          · next hdb => exact core_give h hcurrent hmem fun _ =>
              ⟨hdirect.1, (h.entry ref hcurrent).2.isCurrent_of_unopened hdb _ head.id⟩
          · next hdb =>
            obtain ⟨rfl, hgiven, hloaded⟩ := hgood ref hcurrent hfailed hdirect.1 hdb
            exact core_writeRow h hcurrent hmem hdirect.1 hfailed hdb hgiven hloaded

end ArdurBot.Recall
