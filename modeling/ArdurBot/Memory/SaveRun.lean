import ArdurBot.Memory.SaveOk
import ArdurBot.Memory.WritesRun

/-!
# Every run of saves

A save adds one revision when it is answered and none when it throws, but for the commits that its
store threw on after keeping them. Each revision it adds comes after the one it read, or after a
live one whose content it keeps.
-/

namespace ArdurBot.Memory

open List Utf16 Option

/-! ### What is recorded -/

def Event.of : Event → Option ℕ
  | .read save _ _ => some save
  | .added save _ => save
  | .failed save => some save
  | .saved save => some save
  | .threw save => some save

def addedTo (id : Text) : List Event → List DocumentRevision
  | [] => []
  | .added _ revision :: earlier =>
    if id = revision.documentId then addedTo id earlier ++ [revision] else addedTo id earlier
  | _ :: earlier => addedTo id earlier

def Event.adds (save : ℕ) : Event → Bool
  | .added adder _ => adder = some save
  | _ => false

def addedBy (save : ℕ) (log : List Event) : ℕ := log.countP (Event.adds save)

/-- The commits of a save that were kept, although the store threw. -/
def failedBy (save : ℕ) (log : List Event) : ℕ := log.count (.failed save)

/-- The history of a document as it was when this was the log. -/
def historyAfter (docs : List JournalDocument) (log : List Event) (id : Text) : List DocumentRevision :=
  historyOf docs id ++ addedTo id log

/-- The revision replaces what the save read, or goes on from a live one with what the save adds. -/
def ReplacesWith (adds : Option DocumentRevision → Text → Text) (previous : Option DocumentRevision)
    (input : SaveInput) (base : Option DocumentRevision) (revision : DocumentRevision) : Prop :=
  (revision.content = input.content ∧
      (previous = base ∨
        base = none ∧ ∃ expected, input.expectedRevision = some expected ∧
          previous.elim 0 (fun last => (last.revision : ℤ)) = expected)) ∨
    ∃ latest, previous = some latest ∧ latest.deletedAt = none ∧
      revision.content = latest.content ++ blankLine ++ adds base input.content

def Replaces : Option DocumentRevision → SaveInput → Option DocumentRevision → DocumentRevision → Prop :=
  ReplacesWith addition

/-- The base of a save is in the history it is read from. -/
def BaseOk (history : Text → List DocumentRevision) (input : SaveInput)
    (base : Option DocumentRevision) : Prop :=
  ∀ found, base = some found → found ∈ history found.documentId ∧
    ∀ expected, input.expectedRevision = some expected → (found.revision : ℤ) = expected

/-- A save that has not ended, and for all it knows has added nothing. -/
structure Unfinished (log : List Event) (save : ℕ) : Prop where
  nothing : addedBy save log = failedBy save log
  notSaved : .saved save ∉ log
  notThrew : .threw save ∉ log

structure Reading (log : List Event) (save : ℕ) (input : SaveInput)
  (base : Option DocumentRevision) : Prop
    extends Unfinished log save where
  read : .read save input base ∈ log

def EventOk (docs : List JournalDocument) (earlier : List Event) : Event → Prop
  | .read save input base => (∀ event ∈ earlier, event.of ≠ some save) ∧
    BaseOk (historyAfter docs earlier) input base
  | .added adder revision =>
    revision.revision = (historyAfter docs earlier revision.documentId).length + 1 ∧
      ∀ save, adder = some save → ∃ input base, Reading earlier save input base ∧
        Replaces (historyAfter docs earlier revision.documentId).getLast? input base revision
  | .failed save => ∃ revision before, earlier = .added (some save) revision :: before
  | .saved save => addedBy save earlier = failedBy save earlier + 1 ∧ .saved save ∉ earlier ∧
    .threw save ∉ earlier
  | .threw save => Unfinished earlier save

/-- The journal is what it was at first, with what the log says was added. -/
structure Logged (docs later : List JournalDocument) (log : List Event) : Prop where
  ok : DocsOk later
  history : ∀ id, historyOf later id = historyAfter docs log id
  log : History.Ok (EventOk docs) log

section

variable {docs later last : List JournalDocument} {log new : List Event} {save : ℕ}
  {input : SaveInput} {base : Option DocumentRevision} {revision : DocumentRevision}
  {event : Event} {id : Text}

theorem Logged.init (h : DocsOk docs) : Logged docs docs [] := by
  refine ⟨h, fun id => ?_, trivial⟩
  unfold historyAfter addedTo
  rw [append_nil]

theorem Logged.cons (h : Logged docs later log) (hevent : EventOk docs log event)
    (hadds : ∀ id, addedTo id (event :: log) = addedTo id log) :
    Logged docs later (event :: log) := by
  refine ⟨h.ok, fun id => ?_, hevent, h.log⟩
  rw [h.history]
  unfold historyAfter
  rw [hadds]

theorem Logged.write (h : Logged docs later log) (hgrows : Grows later last revision) (adder : Option ℕ)
    (hadder : ∀ save, adder = some save → ∃ input base, Reading log save input base ∧
      Replaces (historyOf later revision.documentId).getLast? input base revision) :
    Logged docs last (.added adder revision :: log) := by
  have hnumber := hgrows.number
  rw [h.history] at hnumber hadder
  refine ⟨hgrows.ok, fun id => ?_, ⟨hnumber, hadder⟩, h.log⟩
  rw [hgrows.history, h.history]
  unfold historyAfter
  rw [addedTo]
  split
  · rw [append_assoc]
  · rfl

/-! ### Phases -/

def IsLatest (docs : List JournalDocument) (latest : MemoryDocumentHead) : Prop :=
  latest.id ≠ [] ∧ ∃ found ∈ historyOf docs latest.id, found.revision = latest.revision ∧
    found.content = latest.content ∧
    found.deletedAt = none

structure Open (docs : List JournalDocument) (log : List Event) (save : ℕ) (input : SaveInput)
    (base : Option DocumentRevision) : Prop where
  reading : Reading log save input base
  named : ∀ found, base = some found → found.documentId ≠ []
  base : BaseOk (historyOf docs) input base

structure Ended (log : List Event) (save : ℕ) : Prop where
  saved : .saved save ∈ log → addedBy save log = failedBy save log + 1 ∧ .threw save ∉ log
  threw : .threw save ∈ log → addedBy save log = failedBy save log

def PhaseOk (docs : List JournalDocument) (log : List Event) (save : ℕ) : Phase → Prop
  | .idle => ∀ event ∈ log, event.of ≠ some save
  | .based input _ base => Open docs log save input base
  | .conflicted input _ base => Open docs log save input base
  | .reread input _ base _ => Open docs log save input base
  | .merging input _ base latest => Open docs log save input base ∧ IsLatest docs latest
  | .done => Ended log save

/-- Histories only grow, and what is recorded is of others. -/
structure Later (docs later : List JournalDocument) (save : ℕ) (log new : List Event) : Prop where
  history : ∀ id, ∀ revision ∈ historyOf docs id, revision ∈ historyOf later id
  others : ∀ event ∈ new, event.of ≠ some save

theorem addedBy_append (log : List Event) (hnew : ∀ event ∈ new, event.of ≠ some save) :
    addedBy save (new ++ log) = addedBy save log := by
  unfold addedBy
  rw [countP_append, countP_eq_zero.mpr, Nat.zero_add]
  intro event hevent hadds
  cases event with
  | added adder revision => exact hnew _ hevent (of_decide_eq_true hadds)
  | _ => cases hadds

theorem failedBy_append (log : List Event) (hnew : ∀ event ∈ new, event.of ≠ some save) :
    failedBy save (new ++ log) = failedBy save log := by
  unfold failedBy
  rw [count_append, count_eq_zero.mpr fun hmem => hnew _ hmem rfl, Nat.zero_add]

theorem mem_append_of (hnew : ∀ event ∈ new, event.of ≠ some save) (hof : event.of = some save) :
    event ∈ new ++ log ↔ event ∈ log := by
  rw [mem_append]
  constructor
  · rintro (hmem | hmem)
    · exact absurd hof (hnew event hmem)
    · exact hmem
  · exact .inr

theorem Reading.append (h : Reading log save input base) (hnew : ∀ event ∈ new, event.of ≠ some save) :
    Reading (new ++ log) save input base where
  read := mem_append_right _ h.read
  nothing := by rw [addedBy_append _ hnew, failedBy_append _ hnew, h.nothing]
  notSaved := fun hmem => h.notSaved ((mem_append_of hnew rfl).mp hmem)
  notThrew := fun hmem => h.notThrew ((mem_append_of hnew rfl).mp hmem)

theorem Open.grow (h : Open docs log save input base) (hlater : Later docs later save log new) :
    Open later (new ++ log) save input base where
  reading := h.reading.append hlater.others
  named := h.named
  base := by
    intro found hfound
    obtain ⟨hmem, hexpected⟩ := h.base found hfound
    exact ⟨hlater.history _ _ hmem, hexpected⟩

theorem phaseOk_later (new : List Event) {phase : Phase} (h : PhaseOk docs log save phase)
    (hlater : Later docs later save log new) :
    PhaseOk later (new ++ log) save phase := by
  cases phase with
  | idle =>
    intro event hevent
    obtain hevent | hevent := mem_append.mp hevent
    · exact hlater.others event hevent
    · exact h event hevent
  | based | conflicted | reread => exact Open.grow h hlater
  | merging _ _ _ latest =>
    obtain ⟨hopen, hnamed, found, hmem, hfound⟩ := h
    exact ⟨hopen.grow hlater, hnamed, found, hlater.history _ _ hmem, hfound⟩
  | done =>
    obtain ⟨hsaved, hthrew⟩ := h
    refine ⟨fun hmem => ?_, fun hmem => ?_⟩
    · rw [mem_append_of hlater.others rfl] at hmem
      rw [addedBy_append _ hlater.others, failedBy_append _ hlater.others, mem_append_of hlater.others rfl]
      exact hsaved hmem
    · rw [mem_append_of hlater.others rfl] at hmem
      rw [addedBy_append _ hlater.others, failedBy_append _ hlater.others]
      exact hthrew hmem

end

/-! ### What a save adds -/

section

variable {rules : SaveRules} {docs later : List JournalDocument} {log : List Event} {save : ℕ}
  {input : SaveInput} {context : MemoryOperationContext} {call : Call}
  {base : Option DocumentRevision} {revision : DocumentRevision} {latest : MemoryDocumentHead}

theorem readBase_ok (h : DocsOk docs) {access : MemoryAccess} {scope : DocumentScope} {path : Text}
    {number : Option ℤ}
    {found : DocumentRevision} (hfound : readBase rules docs access scope path number = some found) :
    found ∈ historyOf docs found.documentId ∧ found.documentId ≠ [] ∧ ∀ expected, number = some expected →
      (found.revision : ℤ) = expected := by
  unfold readBase at hfound
  obtain ⟨doc, hdoc, hrevision⟩ := bind_eq_some_iff.mp hfound
  have hmem : doc ∈ docs := mem_of_mem_filter (mem_of_find?_eq_some hdoc)
  have hin : found ∈ doc.revisions ∧ ∀ expected, number = some expected → (found.revision : ℤ) = expected := by
    cases number with
    | none =>
      rw [← some.inj hrevision]
      exact ⟨getLast_mem doc.nonempty, nofun⟩
    | some number =>
      refine ⟨mem_of_find?_eq_some hrevision, fun expected hexpected => ?_⟩
      rw [← some.inj hexpected]
      simpa using find?_some hrevision
  obtain ⟨index, hindex⟩ := getElem?_of_mem hin.1
  rw [(h.numbered doc hmem index found hindex).2, h.history hmem]
  exact ⟨hin.1, h.named doc hmem, hin.2⟩

theorem replaces_base (h : DocsOk docs) (hopen : Open docs log save input base)
    (hnumber : (historyOf docs revision.documentId).getLast?.elim 0 (fun last => (last.revision : ℤ)) =
      input.expectedRevision.getD (base.elim 0 fun base => (base.revision : ℤ)))
    (hid : ∀ id, base.map DocumentRevision.documentId = some id → revision.documentId = id)
    (hcontent : revision.content = input.content) :
    Replaces (historyOf docs revision.documentId).getLast? input base revision := by
  refine .inl ⟨hcontent, ?_⟩
  cases base with
  | some found =>
    left
    obtain ⟨hmem, hexpected⟩ := hopen.base found rfl
    have hfound : input.expectedRevision.getD (found.revision : ℤ) = found.revision := by
      cases hgiven : input.expectedRevision with
      | none => rfl
      | some expected => exact (hexpected expected hgiven).symm
    rw [elim_some, hfound] at hnumber
    rw [hid found.documentId rfl] at hnumber ⊢
    obtain ⟨last, hlast⟩ : ∃ last, (historyOf docs found.documentId).getLast? = some last := by
      rw [getLast?_eq_some_getLast (ne_nil_of_mem hmem)]
      exact ⟨_, rfl⟩
    rw [hlast, elim_some] at hnumber
    rw [hlast, h.eq_last hmem hlast (by omega)]
  | none =>
    cases hgiven : input.expectedRevision with
    | none =>
      left
      rw [hgiven] at hnumber
      exact h.getLast_eq_none hnumber
    | some expected =>
      right
      rw [hgiven] at hnumber
      exact ⟨rfl, expected, rfl, hnumber⟩

theorem replaces_latest (h : DocsOk docs) (hlatest : IsLatest docs latest)
    (hid : revision.documentId = latest.id)
    (hnumber : (historyOf docs revision.documentId).getLast?.elim 0
      (fun last => (last.revision : ℤ)) = latest.revision)
    (hcontent : revision.content = latest.content ++ blankLine ++ addition base input.content) :
    Replaces (historyOf docs revision.documentId).getLast? input base revision := by
  obtain ⟨-, found, hmem, hrevision, hsame, hlive⟩ := hlatest
  rw [hid] at hnumber ⊢
  obtain ⟨last, hlast⟩ : ∃ last, (historyOf docs latest.id).getLast? = some last := by
    rw [getLast?_eq_some_getLast (ne_nil_of_mem hmem)]
    exact ⟨_, rfl⟩
  rw [hlast, elim_some] at hnumber
  have hfound : found = last := h.eq_last hmem hlast (by omega)
  rw [hlast, ← hfound]
  exact .inr ⟨found, rfl, hlive, by rw [hcontent, hsame]⟩

end

/-! ### Steps -/

structure SaveOk (docs : List JournalDocument) (s : SaveState) : Prop where
  logged : Logged docs s.docs s.log
  phases : ∀ save, PhaseOk s.docs s.log save (s.saves save)

section

variable {rules : SaveRules} {docs later : List JournalDocument} {s s' : SaveState}
  {new : List Event} {save : ℕ} {input : SaveInput} {context : MemoryOperationContext} {call : Call}
  {base : Option DocumentRevision} {revision : DocumentRevision} {latest : MemoryDocumentHead}
  {phase : Phase} {createdAt : Text}

theorem write_same (h : DocsOk s.docs) (adder : Option ℕ) : s.write adder s.docs = s := by
  unfold SaveState.write
  rw [addedRevision_self h]
  rfl

variable {result : Except SaveError Unit}

theorem keep_same (h : DocsOk s.docs) : s.keep save s.docs result = s := by
  unfold SaveState.keep
  rw [write_same h, addedRevision_self h]

theorem write_grows (h : Grows s.docs later revision) (adder : Option ℕ) :
    s.write adder later = { s with docs := later, log := .added adder revision :: s.log } := by
  unfold SaveState.write
  rw [h.added]
  rfl

theorem Grows.mem_history (h : Grows docs later revision) {id : Text} {other : DocumentRevision}
    (hmem : other ∈ historyOf docs id) : other ∈ historyOf later id := by
  rw [h.history]
  split
  · exact mem_append_left _ hmem
  · exact hmem

theorem SaveOk.write (h : SaveOk docs s) (hwrites : Writes s.docs later) :
    SaveOk docs (s.write none later) := by
  obtain rfl | ⟨revision, hgrows⟩ := hwrites
  · rw [write_same h.logged.ok]
    exact h
  · rw [write_grows hgrows]
    refine ⟨h.logged.write hgrows none fun _ hnone => absurd hnone.symm (some_ne_none _), fun save => ?_⟩
    refine phaseOk_later [.added none revision] (h.phases save) ⟨fun _ _ => hgrows.mem_history, ?_⟩
    intro event hevent
    rw [mem_singleton.mp hevent]
    exact nofun

theorem SaveOk.goTo (h : SaveOk docs s) (new : List Event) (phase : Phase)
    (hlogged : Logged docs s'.docs s'.log) (hlog : s'.log = new ++ s.log)
    (hnew : ∀ event ∈ new, event.of = some save)
    (hhistory : ∀ id, ∀ revision ∈ historyOf s.docs id, revision ∈ historyOf s'.docs id)
    (hsaves : s'.saves = Function.update s.saves save phase) (hphase : PhaseOk s'.docs s'.log save phase) :
    SaveOk docs s' := by
  refine ⟨hlogged, fun other => ?_⟩
  rw [hsaves]
  by_cases hother : other = save
  · subst hother
    rw [Function.update_self]
    exact hphase
  · rw [Function.update_of_ne hother, hlog]
    refine phaseOk_later new (h.phases other) ⟨hhistory, fun event hevent => ?_⟩
    rw [hnew event hevent]
    exact fun hsome => hother (some.inj hsome).symm

theorem unfinished_of_idle {log : List Event} (h : ∀ event ∈ log, event.of ≠ some save) :
    Unfinished log save where
  nothing := by
    have hadded := addedBy_append [] h
    have hfailed := failedBy_append [] h
    rw [append_nil] at hadded hfailed
    exact hadded.trans hfailed.symm
  notSaved := fun hmem => h _ hmem rfl
  notThrew := fun hmem => h _ hmem rfl

theorem addedBy_added {log : List Event} (hnothing : addedBy save log = failedBy save log)
    (revision : DocumentRevision) :
    addedBy save (.added (some save) revision :: log) = failedBy save (.added (some save) revision :: log) + 1 := by
  have hfailed : failedBy save (.added (some save) revision :: log) = failedBy save log := by simp [failedBy]
  rw [hfailed, ← hnothing]
  exact countP_cons_of_pos (by simp [Event.adds])

section

variable (h : SaveOk docs s)
include h

theorem SaveOk.throws (hunfinished : Unfinished s.log save) : SaveOk docs (s.throws save) := by
  refine h.goTo [.threw save] .done (h.logged.cons hunfinished fun _ => rfl) rfl ?_
    (fun _ _ hmem => hmem) rfl ⟨fun hmem => ?_, fun _ => ?_⟩
  · intro event hevent
    rw [mem_singleton.mp hevent]
    rfl
  · obtain heq | hmem := mem_cons.mp hmem
    · cases heq
    · exact absurd hmem hunfinished.notSaved
  · exact hunfinished.nothing

/-- What the save adds to the log with its revision. -/
theorem SaveOk.logged_add (hreading : Reading s.log save input base) (hgrows : Grows s.docs later revision)
    (hreplaces : Replaces (historyOf s.docs revision.documentId).getLast? input base revision) :
    Logged docs later (.added (some save) revision :: s.log) := by
  refine h.logged.write hgrows (some save) fun other hother => ?_
  obtain rfl := some.inj hother
  exact ⟨input, base, hreading, hreplaces⟩

theorem SaveOk.saves (hreading : Reading s.log save input base) (hgrows : Grows s.docs later revision)
    (hreplaces : Replaces (historyOf s.docs revision.documentId).getLast? input base revision) :
    SaveOk docs { (s.keep save later (.ok ())).goTo save .done with log := .saved save ::
      (s.keep save later (.ok ())).log } := by
  have hkeep : s.keep save later (.ok ()) = s.write (some save) later := by
    unfold SaveState.keep
    rw [hgrows.added]
  rw [hkeep, write_grows hgrows]
  have hadded := h.logged_add hreading hgrows hreplaces
  have hone := addedBy_added hreading.nothing revision
  have hnotSaved : .saved save ∉ .added (some save) revision :: s.log := by
    simpa using hreading.notSaved
  have hnotThrew : .threw save ∉ .added (some save) revision :: s.log := by
    simpa using hreading.notThrew
  refine h.goTo [.saved save, .added (some save) revision] .done
    (hadded.cons ⟨hone, hnotSaved, hnotThrew⟩ fun _ => rfl) rfl ?_ (fun _ _ => hgrows.mem_history)
      rfl ⟨fun _ => ?_, fun hmem => ?_⟩
  · intro event hevent
    simp only [mem_cons, not_mem_nil, or_false] at hevent
    obtain rfl | rfl := hevent <;> rfl
  · refine ⟨hone, fun hmem => ?_⟩
    obtain heq | hmem := mem_cons.mp hmem
    · cases heq
    · exact hnotThrew hmem
  · obtain heq | hmem := mem_cons.mp hmem
    · cases heq
    · exact absurd hmem hnotThrew

/-- The store threw, with the revision kept: the save goes on as if nothing was added. -/
theorem SaveOk.fails (hat : s.saves save = phase) (hopen : Open s.docs s.log save input base)
    (hgrows : Grows s.docs later revision)
    (hreplaces : Replaces (historyOf s.docs revision.documentId).getLast? input base revision)
    (error : SaveError)
    (hphase : Open later (.failed save :: .added (some save) revision :: s.log) save input base →
      PhaseOk later (.failed save :: .added (some save) revision :: s.log) save phase) :
    SaveOk docs (s.keep save later (.error error)) ∧
      Open (s.keep save later (.error error)).docs (s.keep save later (.error error)).log save input base := by
  have hkeep : s.keep save later (.error error) =
      { s with docs := later, log := .failed save :: .added (some save) revision :: s.log } := by
    unfold SaveState.keep
    rw [hgrows.added]
    dsimp only
    rw [write_grows hgrows]
  rw [hkeep]
  have hreading := hopen.reading
  have hadded := h.logged_add hreading hgrows hreplaces
  have hlater : Open later (.failed save :: .added (some save) revision :: s.log) save input base := by
    refine ⟨⟨⟨?_, ?_, ?_⟩, ?_⟩, hopen.named, fun found hfound => ?_⟩
    · have hone := addedBy_added hreading.nothing revision
      unfold addedBy at hone ⊢
      rw [countP_cons_of_neg (by simp [Event.adds]), hone]
      simp [failedBy]
    · simpa using hreading.notSaved
    · simpa using hreading.notThrew
    · simpa using hreading.read
    · obtain ⟨hmem, hexpected⟩ := hopen.base found hfound
      exact ⟨hgrows.mem_history hmem, hexpected⟩
  refine ⟨?_, hlater⟩
  refine h.goTo [.failed save, .added (some save) revision] phase
    (hadded.cons ⟨revision, s.log, rfl⟩ fun _ => rfl) rfl ?_ (fun _ _ => hgrows.mem_history) ?_ (hphase hlater)
  · intro event hevent
    simp only [mem_cons, not_mem_nil, or_false] at hevent
    obtain rfl | rfl := hevent <;> rfl
  · rw [← hat, Function.update_eq_self]

theorem SaveOk.moves (phase : Phase) (hphase : PhaseOk s.docs s.log save phase) :
    SaveOk docs (s.goTo save phase) :=
  h.goTo [] phase h.logged rfl (forall_mem_nil _) (fun _ _ hmem => hmem) rfl hphase

theorem save_ok (hidle : s.saves save = .idle) : SaveOk docs (s.save rules save input context call) := by
  have hphase := h.phases save
  rw [hidle] at hphase
  have hunfinished : Unfinished s.log save := unfinished_of_idle hphase
  unfold SaveState.save
  split
  swap
  · exact h.throws hunfinished
  split
  swap
  · exact h.throws hunfinished
  split
  · exact h.throws hunfinished
  rename_i session _ access scope _
  generalize hbase : readBase rules s.docs access scope input.path input.expectedRevision = base
  have hfound : ∀ found, base = some found → found ∈ historyOf s.docs found.documentId ∧ found.documentId ≠ [] ∧
      ∀ expected, input.expectedRevision = some expected → (found.revision : ℤ) = expected := by
    intro found hsome
    rw [hsome] at hbase
    exact readBase_ok h.logged.ok hbase
  have hread : EventOk docs s.log (.read save input base) := by
    refine ⟨hphase, fun found hsome => ?_⟩
    obtain ⟨hmem, -, hexpected⟩ := hfound found hsome
    rw [h.logged.history] at hmem
    exact ⟨hmem, hexpected⟩
  refine h.goTo [.read save input base] (.based input context base) (h.logged.cons hread fun _ => rfl) rfl
    ?_ (fun _ _ hmem => hmem) rfl ⟨⟨⟨hunfinished.nothing, ?_, ?_⟩, mem_cons_self⟩, ?_, ?_⟩
  · intro event hevent
    rw [mem_singleton.mp hevent]
    rfl
  · simpa using hunfinished.notSaved
  · simpa using hunfinished.notThrew
  · exact fun found hsome => (hfound found hsome).2.1
  · exact fun found hsome => ⟨(hfound found hsome).1, (hfound found hsome).2.2⟩

section

variable (hopen : Open s.docs s.log save input base)
include hopen

omit h in
theorem Open.target : base.map DocumentRevision.documentId ≠ some [] := by
  intro hnil
  obtain ⟨found, hfound, hid⟩ := map_eq_some_iff.mp hnil
  exact hopen.named found hfound hid

theorem commitBase_ok (hat : s.saves save = .based input context base) :
    SaveOk docs (s.commitBase rules save input context base call createdAt) := by
  -- what a conflict or another error leads to, with the revision kept or not
  have ends : ∀ {s' : SaveState}, SaveOk docs s' ∧ Open s'.docs s'.log save input base →
      SaveOk docs (s'.throws save) ∧ SaveOk docs
        (if (present context.runId).isSome then s'.goTo save (.conflicted input context base)
          else s'.throws save) := by
    rintro s' ⟨hok, hlater⟩
    have hthrows := hok.throws hlater.reading.toUnfinished
    refine ⟨hthrows, ?_⟩
    split
    · exact hok.moves _ hlater
    · exact hthrows
  unfold SaveState.commitBase
  dsimp only
  rcases serviceCommit_grows rules h.logged.ok context call input
    (base.map DocumentRevision.documentId) hopen.target input.content
      (input.expectedRevision.getD (base.elim 0 fun base => (base.revision : ℤ))) createdAt with
    ⟨error, heq⟩ | ⟨later, revision, heq, hgrows, hcontent, hnumber, hid⟩
  · rw [heq]
    obtain ⟨hthrows, hconflict⟩ := @ends (s.keep save s.docs (.error error))
      ⟨by rwa [keep_same h.logged.ok], by rwa [keep_same h.logged.ok]⟩
    cases error with
    | other => exact hthrows
    | conflict => exact hconflict
  · rw [heq]
    have hreplaces := replaces_base h.logged.ok hopen hnumber hid hcontent
    rcases call.thrown with _ | error
    · exact h.saves hopen.reading hgrows hreplaces
    obtain ⟨hthrows, hconflict⟩ := ends (h.fails hat hopen hgrows hreplaces error fun hlater => hlater)
    cases error with
    | other => exact hthrows
    | conflict => exact hconflict

theorem readAgain_ok : SaveOk docs (s.readAgain rules save input context base call) := by
  have hthrows := h.throws hopen.reading.toUnfinished
  unfold SaveState.readAgain
  split
  · split
    · exact hthrows
    · split
      · exact hthrows
      · exact h.moves _ hopen
  · exact hthrows

theorem readLatest_ok {id : Text} : SaveOk docs (s.readLatest rules save input context base id call) := by
  have hthrows := h.throws hopen.reading.toUnfinished
  unfold SaveState.readLatest
  split
  · split
    · split
      · exact hthrows
      · rename_i latest hread
        split
        · exact hthrows
        · rename_i hlive
          refine h.moves (.merging input context base latest) ⟨hopen, ?_⟩
          unfold JournalDocumentStore.read at hread
          obtain ⟨doc, hfound, rfl⟩ := map_eq_some_iff.mp (filter_eq_some_iff.mp hread).1
          have hmem := mem_of_find?_eq_some hfound
          refine ⟨h.logged.ok.named doc hmem, doc.current, ?_, rfl, rfl, ?_⟩
          · change doc.current ∈ historyOf s.docs doc.id
            rw [h.logged.ok.history hmem]
            exact getLast_mem doc.nonempty
          · exact not_isSome_iff_eq_none.mp hlive
    · exact hthrows
  · exact hthrows

theorem commitMerged_ok (hat : s.saves save = .merging input context base latest)
    (hlatest : IsLatest s.docs latest) :
    SaveOk docs (s.commitMerged rules save input context base latest call createdAt) := by
  have htarget : some latest.id ≠ some [] := fun hnil => hlatest.1 (some.inj hnil)
  unfold SaveState.commitMerged
  dsimp only
  rcases serviceCommit_grows rules h.logged.ok context call input (some latest.id) htarget
      (latest.content ++ blankLine ++ addition base input.content) latest.revision createdAt with
    ⟨error, heq⟩ | ⟨later, revision, heq, hgrows, hcontent, hnumber, hid⟩
  · rw [heq, keep_same h.logged.ok]
    exact h.throws hopen.reading.toUnfinished
  · rw [heq]
    have hreplaces := replaces_latest h.logged.ok hlatest (hid latest.id rfl) hnumber hcontent
    rcases call.thrown with _ | error
    · exact h.saves hopen.reading hgrows hreplaces
    obtain ⟨hnamed, found, hmem, hfound⟩ := hlatest
    obtain ⟨hok, hlater⟩ := h.fails hat hopen hgrows hreplaces error fun hlater =>
      ⟨hlater, hnamed, found, hgrows.mem_history hmem, hfound⟩
    exact hok.throws hlater.reading.toUnfinished

end

theorem saveStep_ok (op : SaveOp) : SaveOk docs (saveStep rules s op) := by
  cases op with
  | commit input createdAt access => exact h.write (commit_writes h.logged.ok)
  | delete id expectedRevision attribution createdAt access => exact h.write (delete_writes h.logged.ok)
  | restore id revision expectedRevision attribution createdAt access =>
    exact h.write (restore_writes h.logged.ok)
  | reconcile id ownerUserId note createdAt => exact h.write (reconcile_writes h.logged.ok)
  | save save input context call =>
    dsimp only [saveStep]
    split
    · next hidle => exact save_ok h hidle
    · exact h
  | goOn save call createdAt =>
    have hphase := h.phases save
    dsimp only [saveStep]
    split
    · next hat =>
      rw [hat] at hphase
      exact commitBase_ok h hphase hat
    · next hat =>
      rw [hat] at hphase
      exact readAgain_ok h hphase
    · next hat =>
      rw [hat] at hphase
      exact readLatest_ok h hphase
    · next hat =>
      rw [hat] at hphase
      exact commitMerged_ok h hphase.1 hat hphase.2
    · exact h

end

/-! ### Stores that throw after keeping -/

/-- A call of the save in which its store throws, with what it wrote kept. -/
def SaveOp.throwsAfter (save : ℕ) : SaveOp → Bool
  | .goOn other call _ => other = save && call.thrown.isSome
  | _ => false

theorem failedBy_write (adder : Option ℕ) :
    failedBy save (s.write adder later).log = failedBy save s.log := by
  unfold SaveState.write
  cases addedRevision s.docs later <;> simp [failedBy]

theorem failedBy_keep {other : ℕ} (hresult : other ≠ save ∨ result = .ok ()) :
    failedBy save (s.keep other later result).log = failedBy save s.log := by
  unfold SaveState.keep
  dsimp only
  split
  · next herror =>
    obtain hne | hok := hresult
    · have hwrite : failedBy save (s.write (some other) later).log = failedBy save s.log := failedBy_write _
      rw [← hwrite]
      simp [failedBy, hne]
    · cases hok
  · exact failedBy_write _

theorem failedBy_throws {other : ℕ} : failedBy save (s.throws other).log = failedBy save s.log := by
  simp [failedBy, SaveState.throws, SaveState.goTo]

/-- A commit of the service keeps the count, if the store does not throw after it. -/
theorem failedBy_commit (rules : SaveRules) (h : DocsOk s.docs) (context : MemoryOperationContext)
    (input : SaveInput) {target : Option Text} (htarget : target ≠ some []) (content : Text)
    (expectedRevision : ℤ) (createdAt : Text) {other : ℕ}
    (hcall : other ≠ save ∨ call.thrown = none) :
    let written := serviceCommit rules s.docs context call input target content expectedRevision createdAt
    failedBy save (s.keep other written.1 written.2).log = failedBy save s.log := by
  dsimp only
  rcases serviceCommit_grows rules h context call input target htarget content expectedRevision createdAt with
    ⟨error, heq⟩ | ⟨later, revision, heq, -⟩
  · rw [heq, keep_same h]
  · rw [heq]
    refine failedBy_keep (hcall.imp_right fun hnone => ?_)
    rw [hnone]
    rfl

theorem failedBy_step {op : SaveOp} (h : SaveOk docs s) (hop : op.throwsAfter save = false) :
    failedBy save (saveStep rules s op).log = failedBy save s.log := by
  cases op with
  | commit | delete | restore | reconcile => exact failedBy_write _
  | save other input context call =>
    dsimp only [saveStep]
    split
    · unfold SaveState.save
      split
      · split
        · split
          · exact failedBy_throws
          · simp [failedBy]
        · exact failedBy_throws
      · exact failedBy_throws
    · rfl
  | goOn other call createdAt =>
    have hcall : other ≠ save ∨ call.thrown = none := by simpa [SaveOp.throwsAfter, imp_iff_not_or] using hop
    have hphase := h.phases other
    dsimp only [saveStep]
    split
    · next input context base hat =>
      rw [hat] at hphase
      rw [← failedBy_commit rules h.logged.ok context input (Open.target hphase) input.content
        (input.expectedRevision.getD (base.elim 0 fun base => (base.revision : ℤ))) createdAt hcall]
      unfold SaveState.commitBase
      dsimp only
      split
      · simp [failedBy]
      · split
        · rfl
        · exact failedBy_throws
      · exact failedBy_throws
    · unfold SaveState.readAgain
      split
      · split
        · exact failedBy_throws
        · split
          · exact failedBy_throws
          · rfl
      · exact failedBy_throws
    · unfold SaveState.readLatest
      split
      · split
        · split
          · exact failedBy_throws
          · split
            · exact failedBy_throws
            · rfl
        · exact failedBy_throws
      · exact failedBy_throws
    · next input context base latest hat =>
      rw [hat] at hphase
      rw [← failedBy_commit rules h.logged.ok context input (fun hnil => hphase.2.1 (some.inj hnil))
        (latest.content ++ blankLine ++ addition base input.content) latest.revision createdAt hcall]
      unfold SaveState.commitMerged
      dsimp only
      split
      · simp [failedBy]
      · exact failedBy_throws
    · rfl

end

/-! ### Runs -/

theorem run_saveOk (rules : SaveRules) {docs : List JournalDocument} (h : DocsOk docs) (ops : List SaveOp) :
    SaveOk docs (saveAfter rules docs ops) := by
  have hstep : ∀ s op, SaveOk docs s → SaveOk docs (saveStep rules s op) := fun _ op hok => saveStep_ok hok op
  have hinit : SaveOk docs (.init docs) := ⟨.init h, fun _ _ hevent => absurd hevent not_mem_nil⟩
  exact Run.inv_after hstep hinit ops

theorem PhaseOk.ended {docs : List JournalDocument} {log : List Event} {save : ℕ} {phase : Phase}
    (h : PhaseOk docs log save phase) : Ended log save := by
  have hunfinished : Unfinished log save → Ended log save := fun hun =>
    ⟨fun hsaved => absurd hsaved hun.notSaved, fun hthrew => absurd hthrew hun.notThrew⟩
  cases phase with
  | idle => exact hunfinished (unfinished_of_idle h)
  | based | conflicted | reread => exact hunfinished h.reading.toUnfinished
  | merging _ _ _ _ => exact hunfinished h.1.reading.toUnfinished
  | done => exact h

theorem failedBy_eq_zero (rules : SaveRules) {docs : List JournalDocument} (h : DocsOk docs)
    {ops : List SaveOp} {save : ℕ}
    (hops : ∀ op ∈ ops, op.throwsAfter save = false) : failedBy save (saveAfter rules docs ops).log = 0 := by
  induction ops using reverseRecOn with
  | nil => rfl
  | append_singleton ops op ih =>
    have hstep : failedBy save (saveStep rules (saveAfter rules docs ops) op).log =
        failedBy save (saveAfter rules docs ops).log :=
      failedBy_step (run_saveOk rules h ops) (hops op (mem_append_right _ mem_cons_self))
    unfold saveAfter at hstep ih ⊢
    rw [Run.after_concat, hstep]
    exact ih fun other hother => hops other (mem_append_left _ hother)

/-- The histories are what was added, in order; a save that is answered added one revision, and one
that threw added none, but for the commits that its store kept and threw on; and each revision of a
save comes after what it read, or goes on from a live one. -/
theorem save_replaces_what_it_read (rules : SaveRules) {docs : List JournalDocument} (h : DocsOk docs) (ops : List SaveOp) :
    let s := saveAfter rules docs ops
    (∀ id, historyOf s.docs id = historyAfter docs s.log id) ∧
      ∀ save : ℕ,
        (.saved save ∈ s.log → addedBy save s.log = failedBy save s.log + 1) ∧
        (.threw save ∈ s.log → addedBy save s.log = failedBy save s.log) ∧
        ((∀ op ∈ ops, op.throwsAfter save = false) → failedBy save s.log = 0) ∧
        (∀ earlier input base, .read save input base :: earlier <:+ s.log →
          (∀ event ∈ earlier, event.of ≠ some save) ∧ BaseOk (historyAfter docs earlier) input base) ∧
        ∀ earlier revision, .added (some save) revision :: earlier <:+ s.log →
          ∃ input base, .read save input base ∈ earlier ∧
            Replaces (historyAfter docs earlier revision.documentId).getLast? input base revision := by
  intro s
  have hok := run_saveOk rules h ops
  refine ⟨hok.logged.history, fun save => ?_⟩
  have hended := (hok.phases save).ended
  refine ⟨fun hsaved => (hended.saved hsaved).1, hended.threw, failedBy_eq_zero rules h,
    fun earlier input base hread => ?_,
    fun earlier revision hadded => ?_⟩
  · exact hok.logged.log.of_suffix hread
  · obtain ⟨input, base, hreading, hreplaces⟩ := (hok.logged.log.of_suffix hadded).2 save rfl
    exact ⟨input, base, hreading.read, hreplaces⟩

def openSaveRules : SaveRules where
  toMemoryRules := openRules
  safeInput := fun _ _ _ => true
  safeHistory := fun _ _ _ => true
  safeHead := fun _ _ => true

def savedNote (content : Text) : SaveInput where
  scope := .spaceShared
  botId := none
  groupId := none
  path := lit "p"
  content
  references := none
  expectedRevision := none

def runContext : MemoryOperationContext where
  spaceId := lit "s"
  userId := lit "u"
  botId := none
  runId := some (lit "r")
  groupId := none
  knownSecrets := []
  learning := none
  imported := none
  memoryModel := none
  threadId := none
  memoryGeneration := none

def quietSession : MemorySession where
  botIds := []
  groupIds := []
  generation := 0
  semantic := none

def editNote (content : Text) (expectedRevision : ℤ) : SaveOp :=
  let access := ownerAccess (lit "u")
  .commit (documentCommit runContext quietSession access (.spaceShared (lit "s"))
    (savedNote content) none content
    expectedRevision) (lit "t") access

/-- A save reads a note, another edits it, and the save is tried again. -/
def retriedSave (content : Text) : List SaveOp :=
  [editNote (lit "a") 0, .save 0 (savedNote content) runContext (.opens quietSession none),
    editNote (lit "c") 1] ++
    List.replicate 4 (.goOn 0 (.opens quietSession none) (lit "t"))

/-- The store keeps what a save writes, and throws. -/
def keptSave (thrown : SaveError) : List SaveOp :=
  [.save 0 (savedNote (lit "a")) runContext (.opens quietSession none),
    .goOn 0 (.opens quietSession thrown) (lit "t")] ++ List.replicate 3 (.goOn 0 (.opens quietSession none) (lit "t"))

theorem save_replaces_what_it_read_retried :
    let s := saveAfter openSaveRules [] (retriedSave (lit "ab"))
    .saved 0 ∈ s.log ∧ addedBy 0 s.log = 1 := by
  intro s
  have hdocs : DocsOk [] := ⟨nodup_nil, forall_mem_nil _, forall_mem_nil _⟩
  obtain ⟨-, hsave⟩ := save_replaces_what_it_read openSaveRules hdocs (retriedSave (lit "ab"))
  have hsaved : .saved 0 ∈ s.log := by decide +kernel
  have hone := (hsave 0).1 hsaved
  rw [(hsave 0).2.2.1 (by decide)] at hone
  exact ⟨hsaved, hone⟩

/-- What the saver's content adds, with the white space around it. -/
def untrimmedAddition (base : Option DocumentRevision) (content : Text) : Text :=
  match base with
  | none => content
  | some base => if base.content.isPrefixOf content then content.drop base.content.length else content

def noteRevision (number : ℕ) (content : Text) (author : AuthorKind) (runId : Option Text) :
    DocumentRevision where
  kind := some .topic
  documentId := longerId []
  revision := number
  scopeKey := .spaceShared (lit "s")
  path := lit "p"
  content
  author := { kind := author, userId := some (lit "u"), botId := none }
  learning := none
  imported := none
  model := none
  runId
  threadId := none
  references := []
  createdAt := lit "t"
  deletedAt := none
  commitId := none

/-- The blank that the saver adds before its word is not in the note; and a store that throws after
it has kept a revision leaves one of a save that throws, and two of one that is tried again. -/
theorem retry_trims_addition :
    (∃ input base revision earlier,
      .added (some 0) revision :: earlier <:+ (saveAfter openSaveRules [] (retriedSave (lit "a b "))).log ∧
      .read 0 input base ∈ earlier ∧
      ¬ ReplacesWith untrimmedAddition (historyAfter [] earlier revision.documentId).getLast? input base revision) ∧
    (let s := saveAfter openSaveRules [] (keptSave .other); .threw 0 ∈ s.log ∧ addedBy 0 s.log = 1) ∧
      let s := saveAfter openSaveRules [] (keptSave .conflict); .saved 0 ∈ s.log ∧ addedBy 0 s.log = 2 := by
  refine ⟨?_, by decide +kernel, by decide +kernel⟩
  let first := noteRevision 1 (lit "a") .user none
  let second := noteRevision 2 (lit "c") .user none
  let merged := noteRevision 3 (lit "c" ++ blankLine ++ lit "b") .bot (some (lit "r"))
  let input := savedNote (lit "a b ")
  refine ⟨input, some first, merged,
    [.added none second, .read 0 input (some first), .added none first], ⟨[.saved 0], ?_⟩, ?_, ?_⟩
  · decide +kernel
  · simp
  · have hprevious : (historyAfter [] [.added none second, .read 0 input (some first), .added none first]
        merged.documentId).getLast? = some second := by decide +kernel
    rw [hprevious]
    rintro (⟨hcontent, -⟩ | ⟨latest, hlatest, -, hcontent⟩)
    · exact absurd hcontent (by decide +kernel)
    · rw [← some.inj hlatest] at hcontent
      exact absurd hcontent (by decide +kernel)

end ArdurBot.Memory
