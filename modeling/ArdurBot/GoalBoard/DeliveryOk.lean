import ArdurBot.GoalBoard.Delivery
import Mathlib.Data.List.Lemmas

/-!
# What a delivery leaves

What was written is in order: no ledger forgets what one before it had recorded. A worker with the
filing lock knows of its item what only a worker with that lock may change.
-/

namespace ArdurBot.GoalBoard

open Utf16

variable {s s' : System} {index : ℕ} {place : Place} {hash : Text}

/-- The ledgers that were written for a delivery, the last first. -/
def ledgersOf (log : List Event) (place : Place) (hash : Text) : List GoalBoardLedger :=
  log.filterMap fun
    | .ledger place' hash' _ ledger => if place' = place ∧ hash' = hash then some ledger else none
    | _ => none

def isClosed (log : List Event) (place : Place) (hash : Text) : Bool :=
  log.any fun
    | .close place' hash' _ _ => place' = place && hash' = hash
    | _ => false

/-- What was done is in order with what was done before it. -/
def EventOk (earlier : List Event) : Event → Prop
  | .ledger place hash generation ledger => ledger.generation = generation ∧
      (ledger.close ≠ .unclosed → ledger.commented) ∧
      ∀ before ∈ ledgersOf earlier place hash, before.generation ≤ generation ∧
        (before.commented → ledger.commented) ∧ (before.close ≠ .unclosed → ledger.close ≠ .unclosed)
  | .comment place hash generation =>
      ∀ before ∈ ledgersOf earlier place hash, before.generation ≤ generation ∧ before.commented = false
  | .close place hash generation shown => shown.closed = false ∧ shown.closeWhenDone ∧
      isClosed earlier place hash = false ∧
      ∀ before ∈ ledgersOf earlier place hash, before.generation ≤ generation ∧
        (before.close ≠ .unclosed → before = ⟨generation, true, .closing⟩)
  | .delivered row worker generation now priorSettled => row.claimToken = some worker ∧
    row.claimGeneration = generation ∧
      row.claimExpiresAt.any (now < ·) ∧ (row.transition = .accepted → priorSettled)

def LogOk : List Event → Prop
  | [] => True
  | event :: earlier => EventOk earlier event ∧ LogOk earlier

theorem eventOk_of_logOk {log earlier : List Event} {event : Event} (h : LogOk log)
    (hsuffix : event :: earlier <:+ log) :
    EventOk earlier event := by
  induction log with
  | nil => exact absurd (List.suffix_nil.mp hsuffix) (List.cons_ne_nil _ _)
  | cons last log ih =>
    obtain heq | hrest := List.suffix_cons_iff.mp hsuffix
    · obtain ⟨rfl, rfl⟩ := List.cons.inj heq
      exact h.1
    · exact ih h.2 hrest

def ledgerAt (s : System) (place : Place) (hash : Text) : Option GoalBoardLedger :=
  (s.items place).bind (·.ledger hash)

def marks (s : System) (place : Place) (hash : Text) : ℕ :=
  match s.items place with
  | none => 0
  | some item => item.comments.countP (isMarked hash)

/-- What a ledger keeps of those before it, and of the close. -/
structure Keeps (log : List Event) (place : Place) (hash : Text) (ledger : GoalBoardLedger) :
  Prop where
  generation : ∀ before ∈ ledgersOf log place hash, before.generation ≤ ledger.generation
  commented : ∀ before ∈ ledgersOf log place hash, before.commented → ledger.commented
  close : ∀ before ∈ ledgersOf log place hash, before.close ≠ .unclosed → ledger.close ≠ .unclosed
  closed : isClosed log place hash → ledger.close ≠ .unclosed
  receipt : ledger.close ≠ .unclosed → ledger.commented

/-- At most one comment is marked, and the ledger keeps what was recorded. -/
structure ItemOk (s : System) (place : Place) (hash : Text) : Prop where
  marks : marks s place hash ≤ 1
  keeps : ∀ ledger, ledgerAt s place hash = some ledger → Keeps s.log place hash ledger
  none : ledgerAt s place hash = none → ledgersOf s.log place hash = [] ∧ isClosed s.log place hash = false

structure SystemOk (s : System) : Prop where
  log : LogOk s.log
  items : ∀ place hash, isGoalBoardHash hash → ItemOk s place hash
  ids : ∀ row ∈ s.rows, ∀ other ∈ s.rows, row.id = other.id → row = other
  settled : ∀ row ∈ s.rows, goalBoardPriorSettled row.state → row.claimToken = none

def Row.Same (row other : Row) : Prop :=
  row.id = other.id ∧ row.goalId = other.goalId ∧ row.revisionId = other.revisionId ∧
    row.transition = other.transition ∧
    row.place = other.place

/-- While its claim is on the row, the generation of the row is that of the worker. -/
structure Running (s : System) (index : ℕ) (job : Job) : Prop where
  row : ∃ row ∈ s.rows, row.Same job.row
  token : ∀ row ∈ s.rows, row.id = job.row.id → row.claimToken = some index →
    row.claimGeneration = job.row.claimGeneration

section

variable (sha256 : Text → Text)

/-- The row before an accepted one is settled, and the comment is marked. -/
structure Passed (s : System) (job : Job) : Prop where
  settled : job.row.transition = .accepted → s.priorSettled job.row
  comment : isGoalBoardHash (job.hash sha256) → goalBoardMarker (job.hash sha256) <+: job.comment

/-- No ledger that is newer than the claim is there. -/
def Newest (s : System) (job : Job) : Prop :=
  ∀ ledger, ledgerAt s job.row.place (job.hash sha256) = some ledger → ledger.generation ≤
    job.row.claimGeneration

def Unclosed (s : System) (job : Job) : Prop :=
  ∀ ledger, ledgerAt s job.row.place (job.hash sha256) = some ledger → ledger.close = .unclosed

/-- The item was shown open, with the consent to close it. -/
def Seen.Consents (seen : Seen) : Prop := seen.shown.closed = false ∧ seen.shown.closeWhenDone

/-- The close of this claim is the one that is intended. -/
structure Intends (s : System) (job : Job) : Prop where
  open_ : isClosed s.log job.row.place (job.hash sha256) = false
  ledgers : ∀ before ∈ ledgersOf s.log job.row.place (job.hash sha256),
    before.generation ≤ job.row.claimGeneration ∧
    (before.close ≠ .unclosed → before = ⟨job.row.claimGeneration, true, .closing⟩)
  current : ledgerAt s job.row.place (job.hash sha256) = some ⟨job.row.claimGeneration, true, .closing⟩

def StageOk (s : System) (job : Job) (stage : Stage) : Prop :=
  match stage with
  | .actor => True
  | .workspace => True
  | .provider => True
  | .plain => True
  | .showing => isGoalBoardHash (job.hash sha256)
  | .unmarked seen => isGoalBoardHash (job.hash sha256) ∧ Newest sha256 s job ∧
      marks s job.row.place (job.hash sha256) = 0 ∧ (∀ ledger ∈ seen.ledger, ledger.close = .unclosed) ∧
      ∀ ledger, ledgerAt s job.row.place (job.hash sha256) = some ledger → ledger.commented = false
  | .comment seen => isGoalBoardHash (job.hash sha256) ∧ marks s job.row.place (job.hash sha256) = 0 ∧
      (∀ ledger ∈ seen.ledger, ledger.close = .unclosed) ∧
      ledgerAt s job.row.place (job.hash sha256) = some ⟨job.row.claimGeneration, false, .unclosed⟩
  | .commented seen => isGoalBoardHash (job.hash sha256) ∧
    (∀ ledger ∈ seen.ledger, ledger.close = .unclosed) ∧
      ledgerAt s job.row.place (job.hash sha256) = some ⟨job.row.claimGeneration, false, .unclosed⟩
  | .closingHistory _ => isGoalBoardHash (job.hash sha256) ∧ Newest sha256 s job
  | .current _ => isGoalBoardHash (job.hash sha256) ∧ Newest sha256 s job ∧ Unclosed sha256 s job
  | .currentHistory _ => isGoalBoardHash (job.hash sha256) ∧ Newest sha256 s job ∧ Unclosed sha256 s job
  | .consent _ => isGoalBoardHash (job.hash sha256) ∧ Newest sha256 s job ∧ Unclosed sha256 s job
  | .history seen => isGoalBoardHash (job.hash sha256) ∧ Newest sha256 s job ∧
    Unclosed sha256 s job ∧ seen.Consents
  | .stamp seen close => isGoalBoardHash (job.hash sha256) ∧ Newest sha256 s job ∧ close ≠ .unclosed ∧
      (close = .closing → Unclosed sha256 s job ∧ seen.Consents)
  | .close seen => isGoalBoardHash (job.hash sha256) ∧ Intends sha256 s job ∧ seen.Consents
  | .after _ => isGoalBoardHash (job.hash sha256) ∧ Newest sha256 s job
  | .afterHistory _ => isGoalBoardHash (job.hash sha256) ∧ Newest sha256 s job

section

variable (s : System) (index : ℕ)

/-- The worker has the filing lock of its space. -/
def Locked (job : Job) : Prop := s.locks job.row.spaceId = some index

def NextOk (job : Job) (next : Next) : Prop :=
  match next with
  | .gate => True
  | .stage stage => Passed sha256 s job ∧ Locked s index job ∧ StageOk sha256 s job stage
  | .ack _ => Passed sha256 s job ∧ Locked s index job

def PhaseOk (phase : Phase) : Prop :=
  match phase with
  | .prior => True
  | .claim => True
  | .claimed _ => True
  | .held job next => Running s index job ∧ NextOk sha256 s index job next
  | .reading job next => Running s index job ∧ NextOk sha256 s index job next
  | .goal job => Running s index job
  | .current job _ => Running s index job
  | .own job _ _ => Running s index job
  | .verdict job _ => Running s index job
  | .gatePrior job _ => Running s index job
  | .wait job => Running s index job
  | .release job _ _ _ => Running s index job
  | .locking job => Running s index job ∧ Passed sha256 s job
  | .board job stage => Running s index job ∧ Passed sha256 s job ∧ Locked s index job ∧
    StageOk sha256 s job stage
  | .pause job _ _ _ => Running s index job ∧ Locked s index job
  | .acking job _ => Running s index job ∧ Passed sha256 s job ∧ Locked s index job
  | .unlocking job _ => Running s index job ∧ Locked s index job
  | .done => True

end

end

/-- What an act, or an event beside the workers, leaves to a worker that it is not of. -/
structure Leaves (index : ℕ) (s s' : System) : Prop where
  locks : ∀ spaceId, s.locks spaceId = some index → s'.locks spaceId = some index
  ledgerAt : ∀ place hash, s.locks place.spaceId = some index → ledgerAt s' place hash = ledgerAt s place hash
  marks : ∀ place hash, isGoalBoardHash hash → s.locks place.spaceId = some index → marks s place hash = 0 →
    marks s' place hash = 0
  ledgersOf : ∀ place hash, s.locks place.spaceId = some index → ledgersOf s'.log place hash =
    ledgersOf s.log place hash
  isClosed : ∀ place hash, s.locks place.spaceId = some index → isClosed s'.log place hash =
    isClosed s.log place hash
  rows : ∀ row ∈ s.rows, ∃ row' ∈ s'.rows, row'.Same row
  tokens : ∀ row' ∈ s'.rows, row'.claimToken = some index →
    ∃ row ∈ s.rows, row.id = row'.id ∧ row.claimToken = some index ∧ row.claimGeneration = row'.claimGeneration
  settled : ∀ row, (∃ other ∈ s.rows, other.Same row) → s.priorSettled row → s'.priorSettled row

theorem Row.Same.trans {a b c : Row} (h : a.Same b) (h' : b.Same c) : a.Same c :=
  ⟨h.1.trans h'.1, h.2.1.trans h'.2.1, h.2.2.1.trans h'.2.2.1, h.2.2.2.1.trans h'.2.2.2.1,
    h.2.2.2.2.trans h'.2.2.2.2⟩

variable {sha256 : Text → Text} {job : Job}

theorem Running.leaves (h : Running s index job) (hleaves : Leaves index s s') : Running s' index job := by
  obtain ⟨row, hmem, hsame⟩ := h.row
  refine ⟨?_, ?_⟩
  · obtain ⟨row', hmem', hsame'⟩ := hleaves.rows row hmem
    exact ⟨row', hmem', hsame'.trans hsame⟩
  · intro row' hmem' hid htoken
    obtain ⟨before, hbefore, hid', htoken', hgeneration⟩ := hleaves.tokens row' hmem' htoken
    rw [← hgeneration]
    exact h.token before hbefore (hid'.trans hid) htoken'

theorem Passed.leaves (h : Passed sha256 s job) (hrunning : Running s index job)
    (hleaves : Leaves index s s') :
    Passed sha256 s' job :=
  ⟨fun haccepted => hleaves.settled job.row hrunning.row (h.settled haccepted), h.comment⟩

theorem StageOk.leaves {stage : Stage} (h : StageOk sha256 s job stage)
    (hlocked : Locked s index job) (hleaves : Leaves index s s') : StageOk sha256 s' job stage := by
  have hledger := hleaves.ledgerAt job.row.place (job.hash sha256) hlocked
  have hledgers := hleaves.ledgersOf job.row.place (job.hash sha256) hlocked
  have hclosed := hleaves.isClosed job.row.place (job.hash sha256) hlocked
  have hnewest : Newest sha256 s job → Newest sha256 s' job := fun h ledger hat => h ledger (hledger ▸ hat)
  have hunclosed : Unclosed sha256 s job → Unclosed sha256 s' job :=
    fun h ledger hat => h ledger (hledger ▸ hat)
  cases stage with
  | actor | workspace | provider | plain | showing => exact h
  | unmarked seen =>
    obtain ⟨hhash, h, hmarks, hseen, hcommented⟩ := h
    exact ⟨hhash, hnewest h, hleaves.marks _ _ hhash hlocked hmarks, hseen,
      fun ledger hat => hcommented ledger (hledger ▸ hat)⟩
  | comment seen =>
    obtain ⟨hhash, hmarks, hseen, hat⟩ := h
    exact ⟨hhash, hleaves.marks _ _ hhash hlocked hmarks, hseen, hledger.trans hat⟩
  | commented seen => exact ⟨h.1, h.2.1, hledger.trans h.2.2⟩
  | closingHistory | after | afterHistory => exact ⟨h.1, hnewest h.2⟩
  | current | currentHistory | consent => exact ⟨h.1, hnewest h.2.1, hunclosed h.2.2⟩
  | history seen => exact ⟨h.1, hnewest h.2.1, hunclosed h.2.2.1, h.2.2.2⟩
  | stamp seen close =>
    exact ⟨h.1, hnewest h.2.1, h.2.2.1, fun hclosing => ⟨hunclosed (h.2.2.2 hclosing).1, (h.2.2.2 hclosing).2⟩⟩
  | close seen =>
    obtain ⟨hhash, h, hseen⟩ := h
    refine ⟨hhash, ⟨hclosed.trans h.open_, ?_, hledger.trans h.current⟩, hseen⟩
    rw [hledgers]
    exact h.ledgers

theorem NextOk.leaves {next : Next} (h : NextOk sha256 s index job next) (hrunning : Running s index job)
    (hleaves : Leaves index s s') : NextOk sha256 s' index job next := by
  cases next with
  | gate => exact trivial
  | stage stage => exact ⟨h.1.leaves hrunning hleaves, hleaves.locks _ h.2.1, h.2.2.leaves h.2.1 hleaves⟩
  | ack result => exact ⟨h.1.leaves hrunning hleaves, hleaves.locks _ h.2⟩

theorem PhaseOk.leaves {phase : Phase} (h : PhaseOk sha256 s index phase) (hleaves : Leaves index s s') :
    PhaseOk sha256 s' index phase := by
  cases phase with
  | prior | claim | claimed | done => exact trivial
  | held | reading | locking => exact ⟨h.1.leaves hleaves, h.2.leaves h.1 hleaves⟩
  | goal | current | own | verdict | gatePrior | wait | release => exact Running.leaves h hleaves
  | board job stage =>
    obtain ⟨hrunning, hpassed, hlocked, hstage⟩ := h
    exact ⟨hrunning.leaves hleaves, hpassed.leaves hrunning hleaves, hleaves.locks _ hlocked,
      hstage.leaves hlocked hleaves⟩
  | pause | unlocking => exact ⟨h.1.leaves hleaves, hleaves.locks _ h.2⟩
  | acking job result => exact ⟨h.1.leaves hleaves, h.2.1.leaves h.1 hleaves, hleaves.locks _ h.2.2⟩

end ArdurBot.GoalBoard
