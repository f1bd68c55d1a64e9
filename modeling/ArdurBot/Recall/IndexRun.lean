import ArdurBot.Recall.IndexLoad

/-!
# Runs of the index

When no build is under way and the index was given a document's newest revision, it holds that
revision's row, or it holds nothing of the document and the next recall builds it; and what it holds
is never older than what it held before. Both are of runs whose aborts, loads and direct writes find
what they must: an abort drops the writes that wait also where a slice they belong to is built, a
snapshot is loaded also where a newer revision was given and nothing of it waits, and no write
compares revisions.
-/

namespace ArdurBot.Recall

open Utf16 Memory
open Function
open Option

variable {covers : Text → Text → Bool} {s s' : State} {id sliceKey : Text}
  {ref caller : ℕ} {op : Op}

def Good (covers : Text → Text → Bool) (s : State) : Op → Prop
  | .applyWrite head fails => WriteGood s head fails
  | .abort caller =>
    match s.builds caller with
    | .begun sliceKey _ => AbortGood covers s sliceKey
    | .read sliceKey _ _ => AbortGood covers s sliceKey
    | _ => True
  | .load caller opens fails =>
    match s.builds caller with
    | .indexing sliceKey announced heads ref =>
      s.current = some ref → fails = false → ((s.opened ref opens).entries ref).db = .opened →
        LoadGood covers s sliceKey announced heads (s.entries ref)
    | _ => True
  | _ => True

/-! ### Steps -/

theorem core_invalidate (h : Core covers s) : Core covers s.invalidate := by
  unfold State.invalidate
  split
  · next hcurrent => exact h.without hcurrent rfl rfl rfl rfl h.given rfl fun _ => .inr rfl
  · exact h.without rfl rfl rfl rfl rfl h.given rfl fun _ => .inr rfl

theorem current_invalidate (s : State) : s.invalidate.current = none := by
  unfold State.invalidate
  split
  · next hcurrent => exact hcurrent
  · rfl

theorem core_synchronize (h : Core covers s) (revision : Option Text) :
    Core covers (s.synchronize revision) := by
  unfold State.synchronize
  split
  · exact h
  · exact (core_invalidate h).without (current_invalidate s) rfl rfl rfl rfl
      (core_invalidate h).given rfl fun _ => .inr rfl

theorem core_query (h : Core covers s) : Core covers s.query := by
  unfold State.query
  split
  · exact h
  · split
    · exact h
    · next hcurrent => exact core_openEntry h hcurrent

theorem core_step (h : Core covers s) (hgood : Good covers s op) : Core covers (step covers s op) := by
  cases op with
  | commit head =>
    unfold step
    dsimp only
    split
    · next hfollows => exact core_commit h hfollows
    · exact h
  | applyWrite head fails =>
    unfold step
    dsimp only
    split
    · next hmem => exact core_applyWrite h hmem hgood
    · exact h
  | begin caller sliceKey announces =>
    unfold step
    dsimp only
    split
    · next hidle =>
      split
      · exact core_beginSlice h hidle sliceKey
      · exact core_begin_plain h hidle sliceKey
    · exact h
  | read caller =>
    unfold step
    dsimp only
    split
    · next hbegun => exact core_read h hbegun
    · exact h
  | abort caller =>
    unfold step
    unfold Good at hgood
    dsimp only at hgood ⊢
    split
    · next hbegun =>
      rw [hbegun] at hgood
      refine core_abort h hgood fun ref other hworks => ?_
      rw [hbegun] at hworks
      exact hworks.symm
    · next hread =>
      rw [hread] at hgood
      refine core_abort h hgood fun ref other hworks => ?_
      rw [hread] at hworks
      exact hworks.symm
    · exact h
  | index caller =>
    unfold step
    dsimp only
    split
    · next hread => exact core_indexSlice h hread
    · exact h
  | load caller opens fails =>
    unfold step
    unfold Good at hgood
    dsimp only at hgood ⊢
    split
    · next hindexing =>
      rw [hindexing] at hgood
      exact core_finishIndex h hindexing opens fails hgood
    · exact h
  | query => exact core_query h
  | opened ref opens =>
    unfold step
    dsimp only
    split
    · exact core_opened h ref opens
    · exact h
  | synchronize revision => exact core_synchronize h revision
  | invalidate => exact core_invalidate h

/-- The next recall builds the document's slices, or scans. -/
def IsMarked (covers : Text → Text → Bool) (s : State) (id : Text) : Prop :=
  ∀ ref, s.current = some ref → (s.entries ref).failed ∨ ¬ IsCovered covers s.heads (s.entries ref) id

def IsFresh (covers : Text → Text → Bool) (s : State) : Prop :=
  (∀ caller, s.builds caller = .idle) → ∀ id, s.given id = newestRevision s.heads id →
    s.entryOf id = ((newest s.heads id).bind writtenDocument).toList ∨ s.entryOf id = [] ∧ IsMarked covers s id

theorem Core.fresh (h : Core covers s) : IsFresh covers s := by
  intro hidle id hgiven
  cases hcurrent : s.current with
  | none =>
    refine .inr ⟨?_, fun ref hown => ?_⟩
    · unfold State.entryOf
      rw [hcurrent]
    · rw [hcurrent] at hown
      cases hown
  | some ref =>
    obtain ⟨-, hentry⟩ := h.entry ref hcurrent
    have hheld : s.entryOf id = (s.entries ref).held id := by
      unfold State.entryOf
      rw [hcurrent]
    have hmarked : (s.entries ref).failed ∨ ¬ IsCovered covers s.heads (s.entries ref) id → IsMarked covers s id := by
      intro hown other hother
      obtain rfl : ref = other := some.inj (hcurrent.symm.trans hother)
      exact hown
    by_cases hfailed : (s.entries ref).failed
    · refine .inr ⟨?_, hmarked (.inl hfailed)⟩
      rw [hheld]
      exact SpaceEntry.held_of_rows (hentry.unopened (hentry.failed hfailed)).1
    · have hbuilding : (s.entries ref).building = [] := by
        rw [List.eq_nil_iff_forall_not_mem]
        intro sliceKey hmem
        obtain ⟨caller, hworks⟩ := h.working ref hcurrent sliceKey hmem
        rw [hidle caller] at hworks
        exact hworks
      rw [Bool.not_eq_true] at hfailed
      rcases (hentry.current hfailed id).resolve_right fun hwaits => hwaits.1 hbuilding with
        ⟨revision, hle, hnewest, -, hrow⟩ | ⟨hempty, huncovered⟩
      · have hrevision : revision = newestRevision s.heads id := le_antisymm hle (hgiven ▸ hnewest)
        refine .inl ?_
        rw [hheld, hrow, hrevision, rowAt_newest h.committed]
      · exact .inr ⟨hheld.trans hempty, hmarked (.inr huncovered)⟩

/-! ### Without a database -/

/-- An entry that has no database has nothing. -/
def Blank (entry : SpaceEntry) : Prop := entry.db = .unopened ∧ entry.rows = [] ∧ entry.slices = []

def Shut (s : State) : Prop := s.available = false ∧ ∀ ref, Blank (s.entries ref)

variable {entry : SpaceEntry} {s'' : State} {row : RecallIndexDocument} {announced : Announcement}
  {heads : List MemoryDocumentHead}

theorem Blank.finish (h : Blank entry) : Blank (entry.finish sliceKey) := h

theorem Blank.announce (h : Blank entry) : Blank (entry.announce sliceKey) := h

theorem blank_new : Blank newEntry := ⟨rfl, rfl, rfl⟩

section

variable (h : Shut s)
include h

theorem Shut.setEntry (hblank : Blank entry) : Shut (s.setEntry ref entry) := by
  refine ⟨h.1, fun other => ?_⟩
  unfold State.setEntry
  dsimp only
  by_cases hsame : other = ref
  · rw [hsame, update_self]
    exact hblank
  · rw [update_of_ne hsame]
    exact h.2 other

theorem shut_withEntry : Shut s.withEntry.1 := by
  unfold State.withEntry
  split
  · exact h
  · exact h.setEntry blank_new

theorem shut_openEntry (ref : ℕ) : Shut (s.openEntry ref) := by
  unfold State.openEntry
  dsimp only
  split
  · exact h.setEntry (h.2 ref)
  · exact h

theorem shut_opened (ref : ℕ) (opens : Bool) : Shut (s.opened ref opens) := by
  unfold State.opened
  dsimp only
  split
  · split
    · next hopens =>
      rw [h.1] at hopens
      cases hopens
    · exact h.setEntry (h.2 ref)
  · exact h

theorem shut_invalidate : Shut s.invalidate := by
  unfold State.invalidate
  split
  · exact h
  · next ref _ =>
    dsimp only
    have hdb : (s.entries ref).db ≠ .opened := by
      rw [(h.2 ref).1]
      exact nofun
    rw [if_neg hdb]
    exact h.setEntry (h.2 ref)

theorem shut_applyWrite (head : MemoryDocumentHead) (fails : Option Bool) :
    Shut (s.applyWrite head fails) := by
  unfold State.applyWrite
  dsimp only
  split
  · exact h
  · split
    · exact h
    · next ref _ =>
      split
      · exact h
      · split
        · have hblank : Blank { s.entries ref with
            pending := (s.entries ref).pending ++ [⟨head.id, writtenDocument head, head.revision⟩] } := h.2 ref
          exact h.setEntry hblank
        · rw [if_pos (h.2 ref).1]
          exact h

theorem shut_step (op : Op) : Shut (step covers s op) := by
  unfold step
  cases op with
  | commit | read =>
    dsimp only
    split <;> exact h
  | applyWrite head fails =>
    dsimp only
    split
    · exact shut_applyWrite h head fails
    · exact h
  | begin caller sliceKey announces =>
    dsimp only
    split
    · split
      · unfold State.beginSlice
        split
        · exact h
        · have hentered := shut_withEntry h
          dsimp only
          split
          · exact hentered
          · exact hentered.setEntry (hentered.2 _).announce
      · exact h
    · exact h
  | abort caller =>
    have habort : ∀ sliceKey, Shut (s.abortSlice sliceKey) := by
      intro sliceKey
      unfold State.abortSlice
      split
      · exact h
      · next ref _ =>
        have hfinished : Shut (s.setEntry ref ((s.entries ref).finish sliceKey)) := h.setEntry (h.2 ref).finish
        dsimp only
        split <;> exact hfinished
    dsimp only
    split
    · exact habort _
    · exact habort _
    · exact h
  | index caller =>
    dsimp only
    split
    · unfold State.indexSlice
      split
      · exact h
      · have hentered := shut_withEntry h
        dsimp only
        split
        · exact hentered.setEntry (hentered.2 _).announce.finish
        · exact shut_openEntry (hentered.setEntry (hentered.2 _).announce) _
    · exact h
  | load caller opens fails =>
    dsimp only
    split
    · next ref _ =>
      have hopened := shut_opened h ref opens
      unfold State.finishIndex
      dsimp only
      split
      · exact hopened.setEntry (hopened.2 ref)
      · next hdb => exact absurd ((hopened.2 ref).1.symm.trans hdb) nofun
      · next hdb => exact absurd ((hopened.2 ref).1.symm.trans hdb) nofun
    · exact h
  | query =>
    dsimp only
    unfold State.query
    split
    · exact h
    · split
      · exact h
      · exact shut_openEntry h _
  | opened ref opens =>
    dsimp only
    split
    · exact shut_opened h ref opens
    · exact h
  | synchronize revision =>
    dsimp only
    unfold State.synchronize
    split
    · exact h
    · exact shut_invalidate h
  | invalidate => exact shut_invalidate h

theorem Shut.entryOf (id : Text) : s.entryOf id = [] := by
  unfold State.entryOf
  split
  · rfl
  · exact SpaceEntry.held_of_rows (h.2 _).2.1

theorem Shut.fresh : IsFresh covers s := by
  refine fun _ id _ => .inr ⟨h.entryOf id, fun ref _ => .inr ?_⟩
  rintro ⟨_, _, sliceKey, hmem, _⟩
  rw [(h.2 ref).2.2] at hmem
  exact absurd hmem List.not_mem_nil

end

/-! ### What is held, and what was -/

/-- The newest revision that the index was given of a document or has loaded. -/
def known (s : State) (id : Text) : ℕ := max (s.given id) (s.loaded id)

structure Keeps (s s' : State) : Prop where
  given : s'.given = s.given
  loaded : s'.loaded = s.loaded
  rows : ∀ ref, s'.current = some ref →
    (s'.entries ref).rows = [] ∨ s.current = some ref ∧ (s'.entries ref).rows = (s.entries ref).rows

theorem Keeps.refl (s : State) : Keeps s s := ⟨rfl, rfl, fun _ hcurrent => .inr ⟨hcurrent, rfl⟩⟩

theorem Keeps.trans (h : Keeps s s') (h' : Keeps s' s'') : Keeps s s'' where
  given := h'.given.trans h.given
  loaded := h'.loaded.trans h.loaded
  rows ref hcurrent := by
    obtain hempty | ⟨hcurrent', hrows'⟩ := h'.rows ref hcurrent
    · exact .inl hempty
    · rw [hrows']
      exact h.rows ref hcurrent'

theorem keeps_setEntry (hrows : entry.rows = (s.entries ref).rows) : Keeps s (s.setEntry ref entry) where
  given := rfl
  loaded := rfl
  rows other hcurrent := by
    refine .inr ⟨hcurrent, ?_⟩
    unfold State.setEntry
    dsimp only
    by_cases hsame : other = ref
    · rw [hsame, update_self, hrows]
    · rw [update_of_ne hsame]

theorem keeps_without (hgiven : s'.given = s.given) (hloaded : s'.loaded = s.loaded)
    (hcurrent : s'.current = none) : Keeps s s' where
  given := hgiven
  loaded := hloaded
  rows ref hown := by
    rw [hcurrent] at hown
    cases hown

theorem keeps_withEntry (s : State) : Keeps s s.withEntry.1 := by
  unfold State.withEntry
  split
  · exact Keeps.refl s
  · refine ⟨rfl, rfl, fun ref hcurrent => .inl ?_⟩
    obtain rfl : s.count = ref := some.inj hcurrent
    unfold State.setEntry
    dsimp only
    rw [update_self]
    rfl

theorem Keeps.setBuild (h : Keeps s s') (caller : ℕ) (build : Build) : Keeps s (s'.setBuild caller build) :=
  { h with }

section

variable (s : State)

theorem keeps_openEntry (ref : ℕ) : Keeps s (s.openEntry ref) := by
  unfold State.openEntry
  dsimp only
  split
  · exact keeps_setEntry rfl
  · exact Keeps.refl s

theorem keeps_opened (ref : ℕ) (opens : Bool) : Keeps s (s.opened ref opens) := by
  obtain ⟨-, -, -, hcurrent, -, -, hgiven, hloaded, -⟩ := opened_frame s ref ref opens
  refine ⟨hgiven, hloaded, fun other hown => .inr ⟨hcurrent.symm.trans hown, ?_⟩⟩
  exact (opened_frame s ref other opens).2.2.1

theorem keeps_invalidate : Keeps s s.invalidate := by
  unfold State.invalidate
  split
  · next hcurrent => exact keeps_without rfl rfl hcurrent
  · exact keeps_without rfl rfl rfl

theorem keeps_beginSlice (caller : ℕ) (sliceKey : Text) : Keeps s (s.beginSlice caller sliceKey) := by
  unfold State.beginSlice
  split
  · exact (Keeps.refl s).setBuild caller _
  · have hentered := keeps_withEntry s
    dsimp only
    split
    · exact hentered.setBuild caller _
    · refine Keeps.setBuild (hentered.trans ?_) caller _
      exact keeps_setEntry rfl

theorem keeps_abortSlice (sliceKey : Text) : Keeps s (s.abortSlice sliceKey) := by
  unfold State.abortSlice
  split
  · exact Keeps.refl s
  · dsimp only
    split
    · exact keeps_without rfl rfl rfl
    · exact keeps_setEntry rfl

theorem keeps_indexSlice (caller : ℕ) (sliceKey : Text) (announced : Announcement)
    (heads : List MemoryDocumentHead) :
    Keeps s (s.indexSlice caller sliceKey announced heads) := by
  unfold State.indexSlice
  split
  · exact (Keeps.refl s).setBuild caller _
  · have hentered := keeps_withEntry s
    dsimp only
    split
    · refine Keeps.setBuild (hentered.trans ?_) caller _
      exact keeps_setEntry rfl
    · have hannounced : Keeps s.withEntry.1 (s.withEntry.1.setEntry s.withEntry.2
          ((s.withEntry.1.entries s.withEntry.2).announce sliceKey)) := keeps_setEntry rfl
      exact ((hentered.trans hannounced).trans (keeps_openEntry _ _)).setBuild caller _

end

/-- What a step leaves of a document was held before it, or is as new as what the index knew. -/
def RowsNewer (s s' : State) (id : Text) : Prop :=
  known s id ≤ known s' id ∧ ∀ row ∈ s'.entryOf id, row ∈ s.entryOf id ∨ known s id ≤ row.revision

theorem mem_entryOf : row ∈ s.entryOf id ↔ ∃ ref, s.current = some ref ∧ row ∈ (s.entries ref).held id := by
  unfold State.entryOf
  cases s.current <;> simp

theorem Keeps.newer (h : Keeps s s') (id : Text) : RowsNewer s s' id := by
  refine ⟨?_, fun row hrow => .inl ?_⟩
  · unfold known
    rw [h.given, h.loaded]
  · obtain ⟨ref, hcurrent, hheld⟩ := mem_entryOf.mp hrow
    obtain hempty | ⟨hcurrent', hrows⟩ := h.rows ref hcurrent
    · rw [SpaceEntry.held_of_rows hempty] at hheld
      exact absurd hheld List.not_mem_nil
    · rw [SpaceEntry.held_congr hrows] at hheld
      exact mem_entryOf.mpr ⟨ref, hcurrent', hheld⟩

theorem newer_applyWrite (h : Core covers s) {head : MemoryDocumentHead} {fails : Option Bool}
    (hgood : WriteGood s head fails) (id : Text) : RowsNewer s (s.applyWrite head fails) id := by
  have hgive : ∀ s', s'.given = giveTo s.given head → s'.loaded = s.loaded → known s id ≤ known s' id := by
    intro s' hgiven hloaded
    unfold known
    rw [hgiven, hloaded]
    exact max_le_max (le_giveTo s.given head id) le_rfl
  have hsame : ∀ s', s'.given = giveTo s.given head → s'.loaded = s.loaded →
      (∀ ref, s'.current = some ref → s.current = some ref ∧
        (s'.entries ref).rows = (s.entries ref).rows) → RowsNewer s s' id := by
    intro s' hgiven hloaded hrows
    refine ⟨hgive s' hgiven hloaded, fun row hrow => .inl ?_⟩
    obtain ⟨ref, hcurrent, hheld⟩ := mem_entryOf.mp hrow
    obtain ⟨hcurrent', hkept⟩ := hrows ref hcurrent
    rw [SpaceEntry.held_congr hkept] at hheld
    exact mem_entryOf.mpr ⟨ref, hcurrent', hheld⟩
  unfold State.applyWrite
  dsimp only
  split
  · exact hsame _ rfl rfl fun ref hcurrent => ⟨hcurrent, rfl⟩
  · split
    · exact hsame _ rfl rfl fun ref hcurrent => ⟨hcurrent, rfl⟩
    · next ref hcurrent =>
      split
      · exact hsame _ rfl rfl fun ref hcurrent => ⟨hcurrent, rfl⟩
      · next hfailed =>
        split
        · refine hsame _ rfl rfl fun other hother => ⟨hother, ?_⟩
          unfold State.setEntry
          dsimp only
          by_cases hown : other = ref
          · rw [hown, update_self]
          · rw [update_of_ne hown]
        · next hdirect =>
          simp only [Bool.or_eq_true, decide_eq_true_eq, not_or, not_not] at hdirect
          split
          · exact hsame _ rfl rfl fun ref hcurrent => ⟨hcurrent, rfl⟩
          · next hdb =>
            rw [Bool.not_eq_true] at hfailed
            obtain ⟨rfl, hgiven, hloaded⟩ := hgood ref hcurrent hfailed hdirect.1 hdb
            refine ⟨hgive _ rfl rfl, fun row hrow => ?_⟩
            obtain ⟨other, hother, hheld⟩ := mem_entryOf.mp hrow
            obtain rfl : ref = other := some.inj (hcurrent.symm.trans hother)
            unfold State.setEntry at hheld
            dsimp only at hheld
            have hnamed : ∀ row, writtenDocument head = some row → row.id = head.id :=
              fun _ hrow => (writtenDocument_spec hrow).1
            rw [update_self, SpaceEntry.held_replace (h.entry ref hcurrent).2.tidy hnamed] at hheld
            split at hheld
            · next hid =>
              rw [(writtenDocument_spec (mem_toList.mp hheld)).2, hid]
              exact .inr (max_le hgiven hloaded)
            · exact .inl (mem_entryOf.mpr ⟨ref, hcurrent, hheld⟩)

theorem newer_load (h : Core covers s) (hbuild : s.builds caller = .indexing sliceKey announced heads ref)
    (hcurrent : s.current = some ref) (hdb : (s.entries ref).db = .opened)
    (hgood : LoadGood covers s sliceKey announced heads (s.entries ref))
    (hrow : row ∈ ((s.entries ref).load sliceKey (snapshot covers heads sliceKey)).held id) :
    row ∈ (s.entries ref).held id ∨ known s id ≤ row.revision := by
  have hown := h.builds caller
  rw [hbuild] at hown
  obtain ⟨-, hsuffix, hannounced⟩ := hown
  have hentry := (h.entry ref hcurrent).2
  have hearlier := h.committed.of_suffix hsuffix
  rw [held_load h.committed hentry hsuffix] at hrow
  cases hlast : lastWrite (s.entries ref).pending id with
  | some write =>
    rw [hlast, some_or, elim_some] at hrow
    obtain ⟨hgiven, hloaded, -⟩ := hgood.buffered id write hlast
    rw [(hentry.pending write (lastWrite_spec hlast).1).row] at hrow
    rw [(rowAt_spec (mem_toList.mp hrow)).2]
    exact .inr (max_le hgiven hloaded)
  | none =>
    rw [hlast, none_or] at hrow
    cases hload : lastWrite (loads covers heads sliceKey) id with
    | some write =>
      rw [hload, elim_some] at hrow
      obtain ⟨hmem, rfl⟩ := lastWrite_spec hload
      obtain ⟨-, hdocument, head, hnewest, hcovers⟩ := loads_spec hearlier hmem
      obtain ⟨current, hnow, hscope⟩ := scope_of_suffix h.committed hsuffix hnewest
      obtain ⟨hgiven, hloaded⟩ :=
        hgood.fresh hcurrent hannounced (failed_eq_false h hcurrent hdb) hlast hnow (hscope ▸ hcovers)
      rw [hdocument] at hrow
      rw [(rowAt_spec (mem_toList.mp hrow)).2]
      exact .inr (max_le hgiven hloaded)
    | none =>
      rw [hload, elim_none] at hrow
      exact .inl hrow

theorem RowsNewer.of_keeps (h : Keeps s s') (h' : RowsNewer s' s'' id) : RowsNewer s s'' id := by
  obtain ⟨hknown, hrows⟩ := h.newer id
  refine ⟨hknown.trans h'.1, fun row hrow => ?_⟩
  obtain hheld | hle := h'.2 row hrow
  · exact hrows row hheld
  · exact .inr (hknown.trans hle)

section

variable (h : Core covers s) (hbuild : s.builds caller = .indexing sliceKey announced heads ref)
include h hbuild

theorem newer_loaded (hdb : (s.entries ref).db = .opened)
    (hgood : s.current = some ref → LoadGood covers s sliceKey announced heads (s.entries ref)) (id : Text) :
    RowsNewer s { (s.setBuild caller .idle).setEntry ref
        (((s.entries ref).load sliceKey (snapshot covers heads sliceKey)).finish sliceKey) with
      loaded := if s.current = some ref then
        State.loadedAfter s.loaded ((snapshot covers heads sliceKey).filter SpaceEntry.loadable)
          else s.loaded } id := by
  refine ⟨max_le_max le_rfl ?_, fun row hrow => ?_⟩
  · dsimp only
    split
    · exact (le_loadedAfter _ _ id).1
    · exact le_rfl
  · obtain ⟨other, hcurrent, hheld⟩ := mem_entryOf.mp hrow
    unfold State.setEntry State.setBuild at hcurrent hheld
    dsimp only at hcurrent hheld
    by_cases hsame : other = ref
    · subst hsame
      rw [update_self] at hheld
      obtain hheld | hle := newer_load h hbuild hcurrent hdb (hgood hcurrent) hheld
      · exact .inl (mem_entryOf.mpr ⟨other, hcurrent, hheld⟩)
      · exact .inr hle
    · rw [update_of_ne hsame] at hheld
      exact .inl (mem_entryOf.mpr ⟨other, hcurrent, hheld⟩)

theorem newer_finishIndex
    (opens fails : Bool)
    (hgood : s.current = some ref → fails = false →
      ((s.opened ref opens).entries ref).db = .opened →
      LoadGood covers s sliceKey announced heads (s.entries ref)) (id : Text) :
    RowsNewer s (s.finishIndex covers caller sliceKey heads ref opens fails) id := by
  have hopened := core_opened h ref opens
  have hkeeps := keeps_opened s ref opens
  obtain ⟨-, -, hrows, hcurrent, -, hbuilds, -, -, -⟩ := opened_frame s ref ref opens
  rw [← hbuilds] at hbuild
  unfold State.finishIndex
  dsimp only
  split
  · have hidle : Keeps s ((s.opened ref opens).setBuild caller .idle) := hkeeps.setBuild caller .idle
    refine Keeps.newer (hidle.trans ?_) id
    exact keeps_setEntry rfl
  · refine Keeps.newer (keeps_without ?_ ?_ rfl) id
    · exact hkeeps.given
    · exact hkeeps.loaded
  · next hdb =>
    split
    · refine Keeps.newer (keeps_without ?_ ?_ rfl) id
      · exact hkeeps.given
      · exact hkeeps.loaded
    · next hsucceeds =>
      refine RowsNewer.of_keeps hkeeps (newer_loaded hopened hbuild hdb (fun hown => ?_) id)
      exact (hgood (hcurrent.symm.trans hown) (Bool.not_eq_true _ ▸ hsucceeds) hdb).opened

end

theorem newer_step (h : Core covers s) (hgood : Good covers s op) (id : Text) :
    RowsNewer s (step covers s op) id := by
  have hsame : RowsNewer s s id := (Keeps.refl s).newer id
  cases op with
  | commit head =>
    unfold step
    dsimp only
    split
    · exact ⟨le_rfl, fun row hrow => .inl hrow⟩
    · exact hsame
  | applyWrite head fails =>
    unfold step
    dsimp only
    split
    · exact newer_applyWrite h hgood id
    · exact hsame
  | begin caller sliceKey announces =>
    unfold step
    dsimp only
    split
    · split
      · exact (keeps_beginSlice s caller sliceKey).newer id
      · exact ((Keeps.refl s).setBuild caller _).newer id
    · exact hsame
  | read caller =>
    unfold step
    dsimp only
    split
    · exact ((Keeps.refl s).setBuild caller _).newer id
    · exact hsame
  | abort caller =>
    unfold step
    dsimp only
    split
    · exact ((keeps_abortSlice s _).setBuild caller _).newer id
    · exact ((keeps_abortSlice s _).setBuild caller _).newer id
    · exact hsame
  | index caller =>
    unfold step
    dsimp only
    split
    · exact (keeps_indexSlice s caller _ _ _).newer id
    · exact hsame
  | load caller opens fails =>
    unfold step
    unfold Good at hgood
    dsimp only at hgood ⊢
    split
    · next hindexing =>
      rw [hindexing] at hgood
      exact newer_finishIndex h hindexing opens fails hgood id
    · exact hsame
  | query =>
    have hquery : Keeps s s.query := by
      unfold State.query
      split
      · exact Keeps.refl s
      · split
        · exact Keeps.refl s
        · exact keeps_openEntry s _
    exact hquery.newer id
  | opened ref opens =>
    unfold step
    dsimp only
    split
    · exact (keeps_opened s ref opens).newer id
    · exact hsame
  | synchronize revision =>
    unfold step
    dsimp only
    unfold State.synchronize
    split
    · exact hsame
    · refine Keeps.newer (keeps_without ?_ ?_ (current_invalidate s)) id
      · exact (keeps_invalidate s).given
      · exact (keeps_invalidate s).loaded
  | invalidate => exact (keeps_invalidate s).newer id

/-! ### Runs -/

theorem Core.single (h : Core covers s) {other : RecallIndexDocument} (hrow : row ∈ s.entryOf id)
    (hother : other ∈ s.entryOf id) :
    row = other := by
  obtain ⟨ref, hcurrent, hheld⟩ := mem_entryOf.mp hrow
  obtain ⟨ref', hcurrent', hheld'⟩ := mem_entryOf.mp hother
  obtain rfl : ref = ref' := some.inj (hcurrent.symm.trans hcurrent')
  exact (h.entry ref hcurrent).2.single id row hheld other hheld'

theorem newer_after {ops : List Op} (h : Core covers s)
    (hops : Run.Meets (step covers) (Good covers) s ops) (id : Text) :
    RowsNewer s (Run.after (step covers) s ops) id := by
  induction ops generalizing s with
  | nil => exact (Keeps.refl s).newer id
  | cons op ops ih =>
    obtain ⟨hmono, hrows⟩ := newer_step h hops.1 id
    obtain ⟨hmono', hrows'⟩ := ih (core_step h hops.1) hops.2
    refine ⟨hmono.trans hmono', fun row hrow => ?_⟩
    obtain hheld | hle := hrows' row hrow
    · exact hrows row hheld
    · exact .inr (hmono.trans hle)

/-- The index after a run whose steps find what they must, and what it holds beside what it held and
was given, removals among it, at any time of the run. -/
theorem recall_fresh (covers : Text → Text → Bool) (available : Bool) (ops ops' : List Op)
    (hops : Run.Meets (step covers) (Good covers) (State.init available) (ops ++ ops')) :
    IsFresh covers (after covers available (ops ++ ops')) ∧
      ∀ id, ∀ later ∈ (after covers available (ops ++ ops')).entryOf id,
        (∀ row ∈ (after covers available ops).entryOf id, row.revision ≤ later.revision) ∧
        (later ∈ (after covers available ops).entryOf id ∨ known (after covers available ops) id ≤ later.revision) := by
  obtain ⟨hbefore, hafter⟩ := hops.append
  unfold after
  rw [Run.after_append]
  cases available with
  | false =>
    have hblank : Shut (State.init false) := ⟨rfl, fun _ => blank_new⟩
    have hstep : ∀ s op, Shut s → Shut (step covers s op) := fun _ op h => shut_step h op
    have hshut := Run.inv_after hstep hblank ops
    have hshut' := Run.inv_after hstep hshut ops'
    refine ⟨hshut'.fresh, fun id later hlater => ?_⟩
    rw [hshut'.entryOf] at hlater
    exact absurd hlater List.not_mem_nil
  | true =>
    have hstep : ∀ s op, Core covers s → Good covers s op → Core covers (step covers s op) :=
      fun _ _ h hgood => core_step h hgood
    have hcore := Run.inv_of_meets hstep (core_init covers) hbefore
    refine ⟨(Run.inv_of_meets hstep hcore hafter).fresh, fun id later hlater => ?_⟩
    have hnewer := (newer_after hcore hafter id).2 later hlater
    refine ⟨fun row hrow => ?_, hnewer⟩
    obtain hheld | hknown := hnewer
    · exact (hcore.single hrow hheld ▸ le_rfl)
    · obtain ⟨ref, hcurrent, hrow⟩ := mem_entryOf.mp hrow
      exact ((hcore.entry ref hcurrent).2.seen id row hrow).trans hknown

section

def headAt (revision : ℕ) : MemoryDocumentHead where
  kind := none
  documentId := [1]
  revision
  scopeKey := .bot [2] [3] [4]
  path := [5]
  content := [6]
  author := ⟨.user, none, none⟩
  learning := none
  imported := none
  model := none
  runId := none
  threadId := none
  references := []
  createdAt := []
  deletedAt := none
  commitId := none
  id := [1]
  updatedAt := []
  delivery := ⟨.delivered, 0, none, none, none⟩

/-- A write lands while the only build reads, and the build loads it after what it read. -/
def bufferedOps : List Op :=
  [.commit (headAt 1), .applyWrite (headAt 1) none, .begin 0 [7] true, .read 0, .commit (headAt 2), .applyWrite (headAt 2) none,
    .index 0, .load 0 true false]

theorem recall_fresh_buffered :
    ((after (fun _ _ => true) true bufferedOps).entryOf [1]).map RecallIndexDocument.revision = [2] ∧
      IsFresh (fun _ _ => true) (after (fun _ _ => true) true bufferedOps) := by
  refine ⟨by decide, (recall_fresh (fun _ _ => true) true [] bufferedOps ?_).1⟩
  refine ⟨trivial, ?_, trivial, trivial, trivial, ?_, trivial, ?_, trivial⟩
  · rintro ref hnone
    cases hnone
  · rintro ref hcurrent - hbuilding
    cases hcurrent
    exact absurd hbuilding (by decide)
  · rintro - - -
    refine ⟨fun head hmem _ => .inl ?_, fun id write hlast => ?_⟩
    · revert head
      decide
    · obtain ⟨hmem, rfl⟩ := lastWrite_spec hlast
      obtain rfl := List.mem_singleton.mp hmem
      decide

/-- A write lands while the second slice is read, and the read fails. -/
def abandonedOps : List Op :=
  [.commit (headAt 1), .applyWrite (headAt 1) none, .begin 0 [7] true, .read 0, .index 0, .load 0 true false,
    .begin 0 [8] true, .commit (headAt 2), .applyWrite (headAt 2) none, .abort 0]

theorem abandoned_write_is_lost : ¬ ∀ ops, IsFresh (fun _ _ => true) (after (fun _ _ => true) true ops) := by
  intro h
  have hidle : ∀ caller, (after (fun _ _ => true) true abandonedOps).builds caller = .idle := by
    intro caller
    obtain _ | caller := caller <;> rfl
  obtain hrow | ⟨hempty, -⟩ := h abandonedOps hidle [1] rfl
  · exact absurd hrow (by decide)
  · exact absurd hempty (by decide)

end

end ArdurBot.Recall
