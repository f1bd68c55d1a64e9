import ArdurBot.Recall.Committed

/-!
# What an entry knows

A document is current in an entry that holds the row of a revision no older than any the index was
given of it or loaded, or that holds nothing of it and has built no slice of its. Where it is not, a
write of it waits for the builds. A build whose announcement stands finds a write of each document
that the index was given since the build read the store.
-/

namespace ArdurBot.Recall

open List Utf16 Memory Option Function

section

variable (covers : Text → Text → Bool) (heads : List MemoryDocumentHead) (given loaded : Text → ℕ)

/-- A slice that was built covers the document. -/
def IsCovered (entry : SpaceEntry) (id : Text) : Prop :=
  ∃ head, newest heads id = some head ∧ ∃ sliceKey ∈ entry.slices, covers sliceKey (scopeKey head.scopeKey)

def IsCurrent (entry : SpaceEntry) (id : Text) : Prop :=
  (∃ revision ≤ newestRevision heads id, given id ≤ revision ∧ loaded id ≤ revision ∧
      entry.held id = (rowAt heads id revision).toList) ∨
    entry.held id = [] ∧ ¬ IsCovered covers heads entry id

/-- A write that waits is of a revision that the index was given. -/
structure WriteOk (write : Write) : Prop where
  row : write.document = rowAt heads write.id write.revision
  committed : write.revision ≤ newestRevision heads write.id
  given : write.revision ≤ given write.id

structure EntryOk (entry : SpaceEntry) : Prop where
  tidy : entry.Tidy
  unopened : entry.db = .unopened → entry.rows = [] ∧ entry.slices = []
  notClosed : entry.db ≠ .closed
  failed : entry.failed → entry.db = .unopened
  apart : ∀ sliceKey ∈ entry.slices, sliceKey ∉ entry.building
  pending : ∀ write ∈ entry.pending, WriteOk heads given write
  seen : ∀ id, ∀ row ∈ entry.held id, row.revision ≤ max (given id) (loaded id)
  single : ∀ id, ∀ row ∈ entry.held id, ∀ other ∈ entry.held id, row = other
  current : entry.failed = false → ∀ id, IsCurrent covers heads given loaded entry id ∨
    entry.building ≠ [] ∧ lastWrite entry.pending id ≠ none

end

section

variable (s : State) (sliceKey : Text) (announced : Announcement)

/-- The announcement has not ended, and its entry is the space's. -/
def Stands : Prop :=
  ∃ ref ended, announced = some (ref, ended) ∧ s.current = some ref ∧ (s.entries ref).ended sliceKey = ended

/-- What an announcement is good for: since the store was read, no write was dropped. -/
def AnnouncedOk (heads : List MemoryDocumentHead) : Prop :=
  ∀ ref ended, announced = some (ref, ended) → ref < s.count ∧
    (s.current = some ref → ended ≤ (s.entries ref).ended sliceKey ∧
    ((s.entries ref).ended sliceKey = ended → (s.entries ref).failed = false → sliceKey ∈ (s.entries ref).building ∧
      ∀ id, s.given id ≤ newestRevision heads id ∨ lastWrite (s.entries ref).pending id ≠ none))

end

def BuildOk (s : State) : Build → Prop
  | .idle => True
  | .begun sliceKey announced => AnnouncedOk s sliceKey announced s.heads
  | .read sliceKey announced heads => heads <:+ s.heads ∧ AnnouncedOk s sliceKey announced heads
  | .indexing sliceKey announced heads ref => ref < s.count ∧ heads <:+ s.heads ∧
    AnnouncedOk s sliceKey announced heads

/-- The build will take the slice from those that build on the entry. -/
def Works (ref : ℕ) (sliceKey : Text) : Build → Prop
  | .idle => False
  | .begun other _ => other = sliceKey
  | .read other _ _ => other = sliceKey
  | .indexing other _ _ own => other = sliceKey ∧ own = ref

structure Core (covers : Text → Text → Bool) (s : State) : Prop where
  available : s.available
  enabled : s.disabled = false
  committed : Committed s.heads
  given : ∀ id, s.given id ≤ newestRevision s.heads id
  loaded : ∀ id, s.loaded id ≤ newestRevision s.heads id
  entry : ∀ ref, s.current = some ref → ref < s.count ∧
    EntryOk covers s.heads s.given s.loaded (s.entries ref)
  builds : ∀ caller, BuildOk s (s.builds caller)
  working : ∀ ref, s.current = some ref → ∀ sliceKey ∈ (s.entries ref).building, ∃ caller,
    Works ref sliceKey (s.builds caller)

variable {covers : Text → Text → Bool} {s s' : State} {entry entry' : SpaceEntry}
  {heads : List MemoryDocumentHead} {given given' loaded loaded' : Text → ℕ} {id sliceKey : Text}
  {ref caller : ℕ} {announced : Announcement} {build : Build}

theorem core_init (covers : Text → Text → Bool) : Core covers (State.init true) where
  available := rfl
  enabled := rfl
  committed := trivial
  given _ := le_rfl
  loaded _ := le_rfl
  entry _ hnone := by cases hnone
  builds _ := trivial
  working _ hnone := by cases hnone

/-- Nothing that an announcement is good for is lost. -/
structure Extends (given given' : Text → ℕ) (entry entry' : SpaceEntry) : Prop where
  ended : ∀ sliceKey, entry.ended sliceKey ≤ entry'.ended sliceKey
  building : ∀ sliceKey ∈ entry.building, entry'.ended sliceKey = entry.ended sliceKey →
    sliceKey ∈ entry'.building
  failed : entry'.failed = false → entry.failed = false
  pending : entry'.failed = false → entry'.building ≠ [] → ∀ id, lastWrite entry.pending id ≠ none →
    lastWrite entry'.pending id ≠ none
  given : entry.building ≠ [] → entry'.failed = false → ∀ id, given' id = given id ∨
    lastWrite entry'.pending id ≠ none

theorem Extends.refl (given : Text → ℕ) (entry : SpaceEntry) : Extends given given entry entry :=
  ⟨fun _ => le_rfl, fun _ hmem _ => hmem, id, fun _ _ _ => id, fun _ _ _ => .inl rfl⟩

theorem AnnouncedOk.of_extends (h : AnnouncedOk s sliceKey announced heads)
    (hcount : s'.count = s.count) (hcurrent : s'.current = s.current)
    (hextends : ∀ ref, s.current = some ref → Extends s.given s'.given (s.entries ref) (s'.entries ref)) :
    AnnouncedOk s' sliceKey announced heads := by
  intro ref ended hannounced
  obtain ⟨hlt, hstands⟩ := h ref ended hannounced
  refine ⟨hcount ▸ hlt, fun hown => ?_⟩
  rw [hcurrent] at hown
  have hgoes := hextends ref hown
  obtain ⟨hle, hgood⟩ := hstands hown
  refine ⟨hle.trans (hgoes.ended sliceKey), fun hended hfailed => ?_⟩
  have hsame : (s.entries ref).ended sliceKey = ended := le_antisymm (hended ▸ hgoes.ended sliceKey) hle
  obtain ⟨hbuilding, hgiven⟩ := hgood hsame (hgoes.failed hfailed)
  have hbuilding' := hgoes.building sliceKey hbuilding (hended.trans hsame.symm)
  refine ⟨hbuilding', fun id => ?_⟩
  obtain hsame | hpending := hgoes.given (ne_nil_of_mem hbuilding) hfailed id
  · rw [hsame]
    exact (hgiven id).imp_right (hgoes.pending hfailed (ne_nil_of_mem hbuilding') id)
  · exact .inr hpending

theorem BuildOk.of_extends (h : BuildOk s build) (hcount : s'.count = s.count)
    (hcurrent : s'.current = s.current) (hheads : s'.heads = s.heads)
    (hextends : ∀ ref, s.current = some ref →
      Extends s.given s'.given (s.entries ref) (s'.entries ref)) : BuildOk s' build := by
  cases build with
  | idle => trivial
  | begun sliceKey announced =>
    unfold BuildOk
    rw [hheads]
    exact AnnouncedOk.of_extends h hcount hcurrent hextends
  | read sliceKey announced heads => exact ⟨hheads ▸ h.1, h.2.of_extends hcount hcurrent hextends⟩
  | indexing sliceKey announced heads ref =>
    exact ⟨hcount ▸ h.1, hheads ▸ h.2.1, h.2.2.of_extends hcount hcurrent hextends⟩

section

variable (h : Core covers s) (hcurrent : s.current = some ref)
  (hgiven : ∀ id, given' id ≤ newestRevision s.heads id)
include h hcurrent hgiven

theorem Core.update
    (hloaded : ∀ id, loaded' id ≤ newestRevision s.heads id)
    (hentry : EntryOk covers s.heads given' loaded' entry')
    (hextends : Extends s.given given' (s.entries ref) entry')
    (hbuild : BuildOk { s with given := given', entries := Function.update s.entries ref entry' } build)
    (hworking : ∀ sliceKey ∈ entry'.building,
      Works ref sliceKey build ∨ sliceKey ∈ (s.entries ref).building ∧ ¬ Works ref sliceKey (s.builds caller)) :
    Core covers { s with
      given := given', loaded := loaded', entries := Function.update s.entries ref entry'
      builds := Function.update s.builds caller build } where
  __ := h
  given := hgiven
  loaded := hloaded
  entry other hother := by
    obtain rfl : ref = other := some.inj (hcurrent.symm.trans hother)
    dsimp only
    rw [update_self]
    exact ⟨(h.entry ref hcurrent).1, hentry⟩
  builds other := by
    dsimp only
    by_cases hsame : other = caller
    · rw [hsame, update_self]
      exact hbuild.of_extends rfl rfl rfl fun ref _ => Extends.refl given' _
    · rw [update_of_ne hsame]
      refine (h.builds other).of_extends rfl rfl rfl fun own hown => ?_
      obtain rfl : ref = own := some.inj (hcurrent.symm.trans hown)
      dsimp only
      rw [update_self]
      exact hextends
  working own hown sliceKey hbuilding := by
    obtain rfl : ref = own := some.inj (hcurrent.symm.trans hown)
    dsimp only at hbuilding ⊢
    rw [update_self] at hbuilding
    obtain hworks | ⟨hold, hnot⟩ := hworking sliceKey hbuilding
    · refine ⟨caller, ?_⟩
      rw [update_self]
      exact hworks
    · obtain ⟨worker, hworks⟩ := h.working ref hcurrent sliceKey hold
      have hother : worker ≠ caller := by
        rintro rfl
        exact hnot hworks
      refine ⟨worker, ?_⟩
      rw [update_of_ne hother]
      exact hworks

theorem Core.updateEntry
    (hentry : EntryOk covers s.heads given' s.loaded entry')
    (hextends : Extends s.given given' (s.entries ref) entry')
    (hbuilding : entry'.building = (s.entries ref).building) :
    Core covers { s with given := given', entries := Function.update s.entries ref entry' } := by
  have hbuild : BuildOk { s with given := given', entries := Function.update s.entries ref entry' } (s.builds 0) := by
    refine (h.builds 0).of_extends rfl rfl rfl fun own hown => ?_
    obtain rfl : ref = own := some.inj (hcurrent.symm.trans hown)
    dsimp only
    rw [update_self]
    exact hextends
  have hworking : ∀ sliceKey ∈ entry'.building,
      Works ref sliceKey (s.builds 0) ∨ sliceKey ∈ (s.entries ref).building ∧ ¬ Works ref sliceKey (s.builds 0) := by
    intro sliceKey hmem
    rw [hbuilding] at hmem
    exact (em (Works ref sliceKey (s.builds 0))).imp_right fun hnot => ⟨hmem, hnot⟩
  have hcore := h.update hcurrent hgiven h.loaded hentry hextends hbuild hworking
  rwa [update_eq_self] at hcore

end

theorem Core.setBuild (h : Core covers s) (hbuild : BuildOk s build)
    (hworking : ∀ ref sliceKey, Works ref sliceKey (s.builds caller) → s.current = some ref →
      Works ref sliceKey build) :
    Core covers (s.setBuild caller build) where
  __ := h
  builds other := by
    unfold State.setBuild
    dsimp only
    by_cases hsame : other = caller
    · rw [hsame, update_self]
      exact hbuild.of_extends rfl rfl rfl fun ref _ => Extends.refl s.given _
    · rw [update_of_ne hsame]
      exact (h.builds other).of_extends rfl rfl rfl fun ref _ => Extends.refl s.given _
  working ref hcurrent sliceKey hbuilding := by
    obtain ⟨worker, hworks⟩ := h.working ref hcurrent sliceKey hbuilding
    unfold State.setBuild
    dsimp only
    by_cases hsame : worker = caller
    · subst hsame
      refine ⟨worker, ?_⟩
      rw [update_self]
      exact hworking ref sliceKey hworks hcurrent
    · refine ⟨worker, ?_⟩
      rw [update_of_ne hsame]
      exact hworks

theorem Core.without (h : Core covers s) (hcurrent : s'.current = none)
    (havailable : s'.available = s.available)
    (henabled : s'.disabled = s.disabled) (hheads : s'.heads = s.heads) (hcount : s'.count = s.count)
    (hgiven : ∀ id, s'.given id ≤ newestRevision s.heads id) (hloaded : s'.loaded = s.loaded)
    (hbuilds : ∀ caller, s'.builds caller = .idle ∨ s'.builds caller = s.builds caller) : Core covers s' where
  available := havailable.trans h.available
  enabled := henabled.trans h.enabled
  committed := hheads ▸ h.committed
  given := hheads ▸ hgiven
  loaded := by
    rw [hheads, hloaded]
    exact h.loaded
  entry ref hown := by
    rw [hcurrent] at hown
    cases hown
  builds caller := by
    have hannounced : ∀ {sliceKey announced heads}, AnnouncedOk s sliceKey announced heads →
        AnnouncedOk s' sliceKey announced heads := by
      intro sliceKey announced heads hold ref ended heq
      refine ⟨hcount ▸ (hold ref ended heq).1, fun hown => ?_⟩
      rw [hcurrent] at hown
      cases hown
    have hold := h.builds caller
    obtain hidle | hsame := hbuilds caller
    · rw [hidle]
      trivial
    · rw [hsame]
      cases hbuild : s.builds caller with
      | idle => trivial
      | begun sliceKey announced =>
        rw [hbuild] at hold
        unfold BuildOk
        rw [hheads]
        exact hannounced hold
      | read sliceKey announced heads =>
        rw [hbuild] at hold
        exact ⟨hheads ▸ hold.1, hannounced hold.2⟩
      | indexing sliceKey announced heads ref =>
        rw [hbuild] at hold
        exact ⟨hcount ▸ hold.1, hheads ▸ hold.2.1, hannounced hold.2.2⟩
  working ref hown := by
    rw [hcurrent] at hown
    cases hown

end ArdurBot.Recall
