import ArdurBot.GoalBoard.DeliveryActs

/-!
# Every interleaving of deliveries

A worker with the lock goes from one command to the next with what it knows of its item. Every act
and every event beside the workers keeps what was done in order, and so does every run.
-/

namespace ArdurBot.GoalBoard

open List Utf16
open Bool hiding not_and not_or or_false
open Option hiding all all_eq_true

variable {s s' : System} {index : ℕ} {sha256 : Text → Text} {job : Job}
  {place : Place} {hash : Text}

/-! ### From one command to the next -/

theorem passed_same (h : Passed sha256 s job) (hrows : s'.rows = s.rows) : Passed sha256 s' job := by
  refine ⟨fun haccepted => ?_, h.comment⟩
  unfold System.priorSettled
  rw [hrows]
  exact h.settled haccepted

theorem locked_same (h : Locked s index job) (hlocks : s'.locks = s.locks) : Locked s' index job :=
  (congrFun hlocks _).trans h

/-- What is ready for a phase of a worker with the lock. -/
structure Ready (sha256 : Text → Text) (s : System) (index : ℕ) (job : Job) : Prop where
  running : Running s index job
  passed : Passed sha256 s job
  locked : Locked s index job

theorem Ready.same (h : Ready sha256 s index job) (hrows : s'.rows = s.rows) (hlocks : s'.locks = s.locks) :
    Ready sha256 s' index job :=
  ⟨⟨hrows ▸ h.running.row, hrows ▸ h.running.token⟩, passed_same h.passed hrows, locked_same h.locked hlocks⟩

variable {stage : Stage} {seen : Seen} {item : Item} {next : Next} {close : Close} {phase : Phase}

section

variable (h : Ready sha256 s index job)
include h

theorem Ready.board (hstage : StageOk sha256 s job stage) :
    PhaseOk sha256 s index (.board job stage) := ⟨h.running, h.passed, h.locked, hstage⟩

theorem Ready.guard (hstage : StageOk sha256 s job stage) :
    PhaseOk sha256 s index (job.guard stage) := ⟨h.running, h.passed, h.locked, hstage⟩

theorem Ready.acks (result : KeyedResult) : PhaseOk sha256 s index (job.acks result) :=
  ⟨h.running, h.passed, h.locked⟩

theorem Ready.throws (failure : Failure) : PhaseOk sha256 s index (job.throws failure) :=
  ⟨h.running, h.locked⟩

/-- What follows the comment, where the ledger that was read tells whether a close was intended. -/
theorem afterComment_ok (hhash : isGoalBoardHash (job.hash sha256))
    (hnewest : Newest sha256 s job)
    (hunclosed : (∀ ledger ∈ seen.ledger, ledger.close = .unclosed) → Unclosed sha256 s job) :
    PhaseOk sha256 s index (job.afterComment seen) := by
  unfold Job.afterComment
  split
  · exact h.acks _
  · split
    · next hnone =>
      refine h.board ⟨hhash, hnewest, hunclosed ?_⟩
      rw [hnone]
      exact fun ledger hmem => by cases hmem
    · next ledger hledger =>
      split
      · split
        · exact h.guard ⟨hhash, hnewest, by decide, fun hclosing => by cases hclosing⟩
        · exact h.board ⟨hhash, hnewest⟩
      · split
        · exact h.acks _
        · next hclose =>
          refine h.board ⟨hhash, hnewest, hunclosed ?_⟩
          rw [hledger]
          intro other hother
          rw [← some.inj hother]
          exact not_not.mp hclose

end

theorem shown_ok (hok : SystemOk s) (h : Ready sha256 s index job) (hhash : isGoalBoardHash (job.hash sha256))
    (hitem : s.items job.row.place = some item) : PhaseOk sha256 s index (job.shown sha256 item) := by
  have hat := ledgerAt_of_items hitem (job.hash sha256)
  unfold Job.shown
  dsimp only
  split
  · exact h.acks _
  · next hnotnewer =>
    have hnewest : Newest sha256 s job := by
      intro ledger hledger
      rw [hat] at hledger
      rw [hledger, any_some, decide_eq_true_eq, not_lt] at hnotnewer
      exact hnotnewer
    split
    · exact h.acks _
    · next hnotcommented =>
      split
      · next hnone =>
        have hmarks : marks s job.row.place (job.hash sha256) = 0 := by
          rw [marks_of_items hitem, countP_eq_zero]
          intro comment hcomment
          exact find?_eq_none.mp (isNone_iff_eq_none.mp hnone) comment hcomment
        have hcommented : ∀ ledger, ledgerAt s job.row.place (job.hash sha256) = some ledger →
            ledger.commented = false := by
          intro ledger hledger
          rw [hat] at hledger
          rw [hledger, hnone, any_some, Bool.and_true, not_eq_true] at hnotcommented
          exact hnotcommented
        refine h.guard ⟨hhash, hnewest, hmarks, ?_, hcommented⟩
        intro ledger hledger
        have hledger' : ledgerAt s job.row.place (job.hash sha256) = some ledger := hat.trans hledger
        by_contra hclose
        have hreceipt := ((hok.items _ _ hhash).keeps ledger hledger').receipt hclose
        rw [hcommented ledger hledger'] at hreceipt
        cases hreceipt
      · refine afterComment_ok h hhash hnewest fun hunclosed ledger hledger => hunclosed ledger ?_
        exact hat.symm.trans hledger

theorem consented_ok (h : Ready sha256 s index job) (hhash : isGoalBoardHash (job.hash sha256))
    (hnewest : Newest sha256 s job) (hunclosed : Unclosed sha256 s job) (seen : Seen) (item : Item) :
    PhaseOk sha256 s index (job.consented seen item) := by
  unfold Job.consented
  dsimp only
  split
  · exact h.guard ⟨hhash, hnewest, by decide, fun hclosing => by cases hclosing⟩
  · next hopen =>
    split
    · exact h.guard ⟨hhash, hnewest, by decide, fun hclosing => by cases hclosing⟩
    · next hconsent =>
      have hconsents : Seen.Consents { seen with shown := item } := by
        refine ⟨not_eq_true _ ▸ hopen, ?_⟩
        rw [not_eq_true, not_eq_false'] at hconsent
        exact hconsent
      split
      · exact h.board ⟨hhash, hnewest, hunclosed, hconsents⟩
      · exact h.guard ⟨hhash, hnewest, by decide, fun _ => ⟨hunclosed, hconsents⟩⟩

theorem showItem_ok (hok : SystemOk s) (h : Ready sha256 s index job) {next : Item → Phase}
    (hnext : ∀ item, s.items job.row.place = some item → PhaseOk sha256 s index (next item)) :
    Acted index s (showItem s job next).1 ∧ PhaseOk sha256 (showItem s job next).1 index (showItem s job next).2 := by
  unfold showItem
  cases hitem : s.items job.row.place with
  | none => exact ⟨acted_refl hok index, h.throws _⟩
  | some item => exact ⟨acted_refl hok index, hnext item hitem⟩

/-! ### Ledgers from one to the next -/

theorem ItemOk.newest (h : ItemOk s job.row.place (job.hash sha256)) (hnewest : Newest sha256 s job)
    {before : GoalBoardLedger} (hbefore : before ∈ ledgersOf s.log job.row.place (job.hash sha256)) :
    before.generation ≤ job.row.claimGeneration := by
  obtain ⟨ledger, hat, hgeneration, -⟩ := h.ledgers hbefore
  exact Nat.le_trans hgeneration (hnewest ledger hat)

theorem Wrote.newest {commented : Bool}
    (h : Wrote s s' job.row.place (job.hash sha256) ⟨job.row.claimGeneration, commented, close⟩) :
    Newest sha256 s' job := by
  intro ledger hat
  rw [h.current] at hat
  rw [← some.inj hat]

section

variable (hok : SystemOk s) (h : Ready sha256 s index job)
include hok h

theorem unmarked_ok (hstage : StageOk sha256 s job (.unmarked seen))
    (hwrite : writeLedger sha256 s job false .unclosed = some s') :
    Acted index s s' ∧ Ready sha256 s' index job ∧ PhaseOk sha256 s' index (job.guard (.comment seen)) := by
  obtain ⟨hhash, hnewest, hmarks, hseen, hcommented⟩ := hstage
  have hitem := hok.items job.row.place (job.hash sha256) hhash
  have hunclosed : ∀ ledger, ledgerAt s job.row.place (job.hash sha256) = some ledger → ledger.close = .unclosed := by
    intro ledger hat
    by_contra hclose
    have hreceipt := (hitem.keeps ledger hat).receipt hclose
    rw [hcommented ledger hat] at hreceipt
    cases hreceipt
  have hevent : EventOk s.log (.ledger job.row.place (job.hash sha256) job.row.claimGeneration
      ⟨job.row.claimGeneration, false, .unclosed⟩) := by
    refine ⟨rfl, fun hclose => absurd rfl hclose, fun before hbefore => ?_⟩
    obtain ⟨ledger, hat, -, hkept, hclose⟩ := hitem.ledgers hbefore
    refine ⟨hitem.newest hnewest hbefore, fun htrue => ?_, fun hne => ?_⟩
    · have := hkept htrue
      rw [hcommented ledger hat] at this
      cases this
    · exact absurd (hunclosed ledger hat) (hclose hne)
  obtain ⟨hacted, hwrote⟩ := writeLedger_acted hok h.locked hevent
    (fun hclosed => by rw [hitem.not_closed hunclosed] at hclosed; cases hclosed) hwrite
  have hready := h.same hwrote.rows hwrote.locks
  exact ⟨hacted, hready, hready.guard ⟨hhash, hwrote.marked.trans hmarks, hseen, hwrote.current⟩⟩

theorem comment_ok (hstage : StageOk sha256 s job (.comment seen))
    {id createdAt : Text} (hadd : addComment sha256 s job id createdAt = some s') (commentId : Option Text) :
    Acted index s s' ∧ Ready sha256 s' index job ∧
      PhaseOk sha256 s' index (job.guard (.commented { seen with commentId })) := by
  obtain ⟨hhash, hmarks, hseen, hat⟩ := hstage
  have hitem := hok.items job.row.place (job.hash sha256) hhash
  have hevent : EventOk s.log (.comment job.row.place (job.hash sha256) job.row.claimGeneration) := by
    intro before hbefore
    obtain ⟨ledger, hledger, hgeneration, hkept, -⟩ := hitem.ledgers hbefore
    rw [hat] at hledger
    obtain rfl := some.inj hledger
    exact ⟨hgeneration, eq_false_iff.mpr fun htrue => false_ne_true (hkept htrue)⟩
  obtain ⟨hacted, hrows, hlocks, hledger⟩ :=
    addComment_acted hok h.locked hhash hmarks (h.passed.comment hhash) hevent hadd
  have hready := h.same hrows hlocks
  exact ⟨hacted, hready, hready.guard ⟨hhash, hseen, hledger.trans hat⟩⟩

theorem commented_ok (hstage : StageOk sha256 s job (.commented seen))
    (hwrite : writeLedger sha256 s job true .unclosed = some s') :
    Acted index s s' ∧ Ready sha256 s' index job ∧ PhaseOk sha256 s' index (job.afterComment seen) := by
  obtain ⟨hhash, hseen, hat⟩ := hstage
  have hitem := hok.items job.row.place (job.hash sha256) hhash
  have hunclosed : ∀ ledger, ledgerAt s job.row.place (job.hash sha256) = some ledger → ledger.close = .unclosed := by
    intro ledger hledger
    rw [hat] at hledger
    rw [← some.inj hledger]
  have hevent : EventOk s.log (.ledger job.row.place (job.hash sha256) job.row.claimGeneration
      ⟨job.row.claimGeneration, true, .unclosed⟩) := by
    refine ⟨rfl, fun hclose => absurd rfl hclose, fun before hbefore => ?_⟩
    obtain ⟨ledger, hledger, hgeneration, -, hclose⟩ := hitem.ledgers hbefore
    have heq := hledger
    rw [hat] at heq
    obtain rfl := some.inj heq
    exact ⟨hgeneration, fun _ => rfl, fun hne => absurd rfl (hclose hne)⟩
  obtain ⟨hacted, hwrote⟩ := writeLedger_acted hok h.locked hevent
    (fun hclosed => by rw [hitem.not_closed hunclosed] at hclosed; cases hclosed) hwrite
  have hready := h.same hwrote.rows hwrote.locks
  refine ⟨hacted, hready, afterComment_ok hready hhash hwrote.newest fun _ ledger hledger => ?_⟩
  rw [hwrote.current] at hledger
  rw [← some.inj hledger]

/-- A close is stamped over any ledger that is not newer, and the intention of one where none was
intended. -/
theorem stamp_ok (hstage : StageOk sha256 s job (.stamp seen close))
    (hwrite : writeLedger sha256 s job true close = some s') :
    Acted index s s' ∧ Ready sha256 s' index job ∧ PhaseOk sha256 s' index (job.stamped seen close) := by
  obtain ⟨hhash, hnewest, hclose, hclosing⟩ := hstage
  have hitem := hok.items job.row.place (job.hash sha256) hhash
  have hevent : EventOk s.log (.ledger job.row.place (job.hash sha256) job.row.claimGeneration
      ⟨job.row.claimGeneration, true, close⟩) :=
    ⟨rfl, fun _ => rfl, fun before hbefore => ⟨hitem.newest hnewest hbefore, fun _ => rfl, fun _ => hclose⟩⟩
  obtain ⟨hacted, hwrote⟩ := writeLedger_acted hok h.locked hevent (fun _ => hclose) hwrite
  have hready := h.same hwrote.rows hwrote.locks
  refine ⟨hacted, hready, ?_⟩
  unfold Job.stamped
  cases close with
  | unclosed => exact absurd rfl hclose
  | closed | alreadyClosed | leftOpen => exact hready.acks _
  | closing =>
    obtain ⟨hunclosed, hseen⟩ := hclosing rfl
    refine hready.guard ⟨hhash, ⟨hwrote.closed.trans (hitem.not_closed hunclosed), ?_, hwrote.current⟩, hseen⟩
    intro before hbefore
    rw [hwrote.ledgers] at hbefore
    obtain rfl | hbefore := mem_cons.mp hbefore
    · exact ⟨Nat.le_refl _, fun _ => rfl⟩
    · obtain ⟨ledger, hat, -, -, hkept⟩ := hitem.ledgers hbefore
      exact ⟨hitem.newest hnewest hbefore, fun hne => absurd (hunclosed ledger hat) (hkept hne)⟩

theorem close_ok (hstage : StageOk sha256 s job (.close seen))
    (hclose : closeItem sha256 s job seen.shown = some s') :
    Acted index s s' ∧ Ready sha256 s' index job ∧ Newest sha256 s' job := by
  obtain ⟨-, hintends, hseen⟩ := hstage
  obtain ⟨hacted, hrows, hlocks, hledger⟩ := closeItem_acted hok h.locked hintends hseen hclose
  refine ⟨hacted, h.same hrows hlocks, fun ledger hat => ?_⟩
  rw [hledger, hintends.current] at hat
  rw [← some.inj hat]

theorem refused_ok (failure : Failure) :
    Acted index s (refused s job failure).1 ∧
      PhaseOk sha256 (refused s job failure).1 index (refused s job failure).2 :=
  ⟨acted_refl hok index, h.throws failure⟩

theorem board_ok (hstage : StageOk sha256 s job stage) (answer : Answer) :
    Acted index s (job.board sha256 s stage answer).1 ∧
      PhaseOk sha256 (job.board sha256 s stage answer).1 index (job.board sha256 s stage answer).2 := by
  have hstay : ∀ {phase}, PhaseOk sha256 s index phase → Acted index s s ∧ PhaseOk sha256 s index phase :=
    fun hphase => ⟨acted_refl hok index, hphase⟩
  unfold Job.board
  split
  · exact hstay (h.board trivial)
  · exact hstay (h.board trivial)
  · split
    · exact hstay (h.board trivial)
    · split
      · next hallowed =>
        unfold Job.isAllowed at hallowed
        rw [and_eq_true] at hallowed
        exact hstay (h.board hallowed.1)
      · exact refused_ok hok h _
  · refine showItem_ok hok h fun item _ => ?_
    unfold Job.plain
    dsimp only
    split
    · exact h.acks _
    · exact h.acks _
  · exact showItem_ok hok h fun item hitem => shown_ok hok h hstage hitem
  · split
    · exact refused_ok hok h _
    · next hwrite =>
      obtain ⟨hacted, -, hphase⟩ := unmarked_ok hok h hstage hwrite
      exact ⟨hacted, hphase⟩
  · split
    · exact refused_ok hok h _
    · next hadd =>
      obtain ⟨hacted, -, hphase⟩ := comment_ok hok h hstage hadd _
      exact ⟨hacted, hphase⟩
  · split
    · exact refused_ok hok h _
    · next hwrite =>
      obtain ⟨hacted, -, hphase⟩ := commented_ok hok h hstage hwrite
      exact ⟨hacted, hphase⟩
  · split
    · exact hstay (h.guard ⟨hstage.1, hstage.2, by decide, fun hclosing => by cases hclosing⟩)
    · exact hstay (h.throws _)
  · exact showItem_ok hok h fun item _ => h.board hstage
  · split
    · exact hstay (h.guard ⟨hstage.1, hstage.2.1, by decide, fun hclosing => by cases hclosing⟩)
    · exact hstay (h.guard hstage)
  · exact showItem_ok hok h fun item _ => consented_ok h hstage.1 hstage.2.1 hstage.2.2 _ item
  · split
    · exact hstay (h.guard ⟨hstage.1, hstage.2.1, by decide, fun hclosing => by cases hclosing⟩)
    · exact hstay (h.guard ⟨hstage.1, hstage.2.1, by decide, fun _ => hstage.2.2⟩)
  · split
    · exact refused_ok hok h _
    · next hwrite =>
      obtain ⟨hacted, -, hphase⟩ := stamp_ok hok h hstage hwrite
      exact ⟨hacted, hphase⟩
  · split
    · exact refused_ok hok h _
    · next hclose =>
      obtain ⟨hacted, hready, hnewest⟩ := close_ok hok h hstage hclose
      split
      · exact ⟨hacted, hready.board ⟨hstage.1, hnewest⟩⟩
      · exact ⟨hacted, hready.throws _⟩
  · exact showItem_ok hok h fun item _ => h.board hstage
  · split
    · exact hstay (h.guard ⟨hstage.1, hstage.2, by decide, fun hclosing => by cases hclosing⟩)
    · exact hstay (h.throws _)
  · exact hstay (h.board hstage)

theorem boardEffect_ok (hstage : StageOk sha256 s job stage)
    (id createdAt : Text) : Acted index s (job.takesEffect sha256 s stage id createdAt) ∧
      Ready sha256 (job.takesEffect sha256 s stage id createdAt) index job := by
  have hstay : Acted index s s ∧ Ready sha256 s index job := ⟨acted_refl hok index, h⟩
  unfold Job.takesEffect
  split
  · cases hwrite : writeLedger sha256 s job false .unclosed with
    | none => exact hstay
    | some s' =>
      obtain ⟨hacted, hready, -⟩ := unmarked_ok hok h hstage hwrite
      exact ⟨hacted, hready⟩
  · cases hadd : addComment sha256 s job id createdAt with
    | none => exact hstay
    | some s' =>
      obtain ⟨hacted, hready, -⟩ := comment_ok hok h hstage hadd none
      exact ⟨hacted, hready⟩
  · cases hwrite : writeLedger sha256 s job true .unclosed with
    | none => exact hstay
    | some s' =>
      obtain ⟨hacted, hready, -⟩ := commented_ok hok h hstage hwrite
      exact ⟨hacted, hready⟩
  · next close =>
    cases hwrite : writeLedger sha256 s job true close with
    | none => exact hstay
    | some s' =>
      obtain ⟨hacted, hready, -⟩ := stamp_ok hok h hstage hwrite
      exact ⟨hacted, hready⟩
  · next seen =>
    cases hclose : closeItem sha256 s job seen.shown with
    | none => exact hstay
    | some s' =>
      obtain ⟨hacted, hready, -⟩ := close_ok hok h hstage hclose
      exact ⟨hacted, hready⟩
  · exact hstay

end

/-! ### Every act -/

section

variable (h : Running s index job)
include h

theorem ready_ok (goal : Goal) (hsettled : job.row.transition = .accepted → s.priorSettled job.row) :
    PhaseOk sha256 s index (job.ready sha256 goal) := by
  unfold Job.ready
  split
  · exact h
  · exact ⟨⟨h.row, h.token⟩, hsettled, fun hhash => marker_prefix_comment hhash _ _⟩

theorem lapsed_ok (hnext : NextOk sha256 s index job next) : PhaseOk sha256 s index (job.lapsed next) := by
  unfold Job.lapsed
  cases next with
  | gate => exact h
  | stage stage => exact ⟨h, hnext.2.1⟩
  | ack result => exact ⟨h, hnext.2⟩

theorem proceeds_ok (hnext : NextOk sha256 s index job next) :
    PhaseOk sha256 s index (job.proceeds next) := by
  unfold Job.proceeds
  cases next with
  | gate => exact h
  | stage stage => exact ⟨h, hnext⟩
  | ack result =>
    dsimp only
    split
    · exact ⟨h, hnext.2⟩
    · split
      · exact ⟨h, hnext.2⟩
      · split
        · exact ⟨h, hnext.2⟩
        · exact ⟨h, hnext⟩

end

theorem running_of_row (hok : SystemOk s) {id : Text} {row : Row} (hrow : s.row id = some row)
    (deadline : ℕ) (comment : Text) :
    Running s index ⟨row, deadline, comment⟩ := by
  have hmem := mem_of_find?_eq_some hrow
  refine ⟨⟨row, hmem, Row.Same.refl row⟩, fun other hother hid _ => ?_⟩
  rw [hok.ids other hother row hmem hid]

theorem proceed_ok (hok : SystemOk s) (worker : Worker)
    (hphase : PhaseOk sha256 s index worker.phase) (answer : Answer) :
    Acted index s (proceed sha256 s index worker answer).1 ∧
      PhaseOk sha256 (proceed sha256 s index worker answer).1 index (proceed sha256 s index worker answer).2 := by
  have hstay : ∀ {phase}, PhaseOk sha256 s index phase → Acted index s s ∧ PhaseOk sha256 s index phase :=
    fun hphase => ⟨acted_refl hok index, hphase⟩
  unfold proceed
  cases hcases : worker.phase with
  | prior =>
    dsimp only
    split
    · exact hstay trivial
    · exact hstay trivial
  | claim =>
    dsimp only
    split
    · exact ⟨claim_acted hok _ _, trivial⟩
    · exact hstay trivial
  | claimed deadline =>
    dsimp only
    split
    · exact hstay trivial
    · next row hrow =>
      split
      · exact hstay ⟨running_of_row hok hrow _ _, trivial⟩
      · exact hstay trivial
  | held job next =>
    rw [hcases] at hphase
    dsimp only
    split
    · exact hstay (lapsed_ok hphase.1 hphase.2)
    · exact hstay hphase
  | reading job next =>
    rw [hcases] at hphase
    dsimp only
    split
    · exact hstay (proceeds_ok hphase.1 hphase.2)
    · exact hstay (lapsed_ok hphase.1 hphase.2)
  | goal | verdict =>
    rw [hcases] at hphase
    dsimp only
    split
    · exact hstay hphase
    · exact hstay hphase
  | current job goal =>
    rw [hcases] at hphase
    exact hstay hphase
  | own job goal current =>
    rw [hcases] at hphase
    dsimp only
    split
    · exact hstay hphase
    · split
      · next hcompleted =>
        refine hstay (ready_ok hphase goal fun haccepted => ?_)
        rw [hcompleted] at haccepted
        cases haccepted
      · split
        · exact hstay hphase
        · exact hstay hphase
  | gatePrior job goal =>
    rw [hcases] at hphase
    dsimp only
    split
    · next hsettled => exact hstay (ready_ok hphase goal fun _ => hsettled)
    · exact hstay hphase
  | wait job => exact ⟨unclaim_acted hok, trivial⟩
  | release job state failure caught => exact ⟨release_acted hok state failure none, trivial⟩
  | locking job =>
    rw [hcases] at hphase
    dsimp only
    split
    · next hfree =>
      refine ⟨lock_acted hok fun other _ => ?_, ⟨hphase.1.row, hphase.1.token⟩, ⟨hphase.2.settled, hphase.2.comment⟩,
        if_pos rfl, trivial⟩
      rw [hfree]
      exact (some_ne_none other).symm
    · exact hstay hphase
  | board job stage =>
    rw [hcases] at hphase
    exact board_ok hok ⟨hphase.1, hphase.2.1, hphase.2.2.1⟩ hphase.2.2.2 answer
  | pause job state failure receipt =>
    rw [hcases] at hphase
    exact ⟨release_acted hok state failure receipt, running_release hphase.1 state failure receipt, hphase.2⟩
  | acking job result =>
    rw [hcases] at hphase
    dsimp only
    split
    · obtain ⟨hacted, hrunning⟩ := ack_acted hok hphase.1 hphase.2.1 result
      refine ⟨hacted, hrunning, ?_⟩
      unfold ack
      split
      · exact hphase.2.2
      · exact hphase.2.2
    · exact hstay ⟨hphase.1, hphase.2.2⟩
  | unlocking job error =>
    rw [hcases] at hphase
    have hfree : ∀ other, other ≠ index → s.locks job.row.spaceId ≠ some other := fun _ => others_locked hphase.2
    refine ⟨lock_acted hok hfree, ?_⟩
    cases error with
    | none => exact trivial
    | some failure => exact ⟨hphase.1.row, hphase.1.token⟩
  | done => exact hstay trivial

theorem throws_ok (h : PhaseOk sha256 s index phase) (failure : Failure) :
    PhaseOk sha256 s index (phase.throws failure) := by
  have hnext : ∀ {job next}, Running s index job → NextOk sha256 s index job next →
      PhaseOk sha256 s index (Phase.throws (.held job next) failure) := by
    intro job next hrunning hnext
    cases next with
    | gate => exact hrunning
    | stage stage => exact ⟨hrunning, hnext.2.1⟩
    | ack result => exact ⟨hrunning, hnext.2⟩
  cases phase with
  | prior | claim | claimed | done => exact trivial
  | held job next => exact hnext h.1 h.2
  | reading job next =>
    have := hnext h.1 h.2
    cases next <;> exact this
  | goal | current | own | verdict | gatePrior | wait | pause | unlocking => exact h
  | release job state failure' caught =>
    cases caught with
    | false => exact h
    | true => exact trivial
  | locking job => exact h.1
  | board job stage => exact ⟨h.1, h.2.2.1⟩
  | acking job result => exact ⟨h.1, h.2.2⟩

theorem locks_ack (result : KeyedResult) : (ack s index job result).locks = s.locks := by
  unfold ack
  split
  · rfl
  · rfl

section

variable (hok : SystemOk s) (worker : Worker) (hphase : PhaseOk sha256 s index worker.phase)
include hok hphase

/-- What takes effect though its answer is lost is as if it was answered, and then an error
thrown. -/
theorem takesEffect_ok
    (failure : Failure) (id createdAt : Text) :
    Acted index s (takesEffect sha256 s index worker id createdAt) ∧
      PhaseOk sha256 (takesEffect sha256 s index worker id createdAt) index (worker.phase.throws failure) := by
  unfold takesEffect
  split
  · next hcases =>
    rw [hcases]
    exact ⟨claim_acted hok _ _, trivial⟩
  · next job hcases =>
    rw [hcases] at hphase ⊢
    refine ⟨unclaim_acted hok, ?_⟩
    exact running_update (h := hphase) (fun _ => ⟨rfl, rfl, rfl, rfl, rfl⟩) fun _ => rfl
  · next job state text caught hcases =>
    rw [hcases] at hphase ⊢
    refine ⟨release_acted hok state text none, ?_⟩
    cases caught with
    | false => exact running_release hphase state text none
    | true => exact trivial
  · next job stage hcases =>
    rw [hcases] at hphase ⊢
    obtain ⟨hacted, hready⟩ :=
      boardEffect_ok hok ⟨hphase.1, hphase.2.1, hphase.2.2.1⟩ hphase.2.2.2 id createdAt
    exact ⟨hacted, hready.throws failure⟩
  · next job state text receipt hcases =>
    rw [hcases] at hphase ⊢
    exact ⟨release_acted hok state text receipt, running_release hphase.1 state text receipt, hphase.2⟩
  · next job result hcases =>
    rw [hcases] at hphase ⊢
    obtain ⟨hacted, hrunning⟩ := ack_acted hok hphase.1 hphase.2.1 result
    exact ⟨hacted, hrunning, locked_same hphase.2.2 (locks_ack result)⟩
  · exact ⟨acted_refl hok index, throws_ok hphase failure⟩

theorem act_ok (answer : Answer) :
    Acted index s (act sha256 s index worker answer).1 ∧
      PhaseOk sha256 (act sha256 s index worker answer).1 index (act sha256 s index worker answer).2.phase := by
  unfold act
  split
  · exact ⟨unlock_acted hok, trivial⟩
  · exact ⟨acted_refl hok index, throws_ok hphase _⟩
  · exact takesEffect_ok hok worker hphase _ _ _
  · exact proceed_ok hok worker hphase answer

end

/-! ### Beside the workers -/

structure Kept (s s' : System) : Prop where
  ok : SystemOk s'
  others : ∀ index, Leaves index s s'

section

variable (h : SystemOk s)
include h

theorem queue_kept (row : Row) : Kept s (queueGoalBoardDelivery s row) := by
  unfold queueGoalBoardDelivery
  split
  · exact ⟨h, fun index => leaves_refl index s⟩
  · next hnew =>
    have hfresh : ∀ other ∈ s.rows, other.id ≠ row.id ∧
        (other.goalId = row.goalId → other.revisionId = row.revisionId →
        row.transition ≠ .completed) := by
      intro other hother
      have hno := fun hany => hnew (any_eq_true.mpr ⟨other, hother, hany⟩)
      simp only [or_eq_true, and_eq_true, decide_eq_true_eq, imp_false, not_or, not_and] at hno
      exact ⟨hno.1, fun hgoal hrevision => (hno.2 ⟨hgoal, hrevision⟩).2⟩
    refine ⟨⟨h.log, fun place hash hhash => itemOk_rows (h.items place hash hhash), ?_, ?_⟩, fun index => ?_⟩
    · intro a ha b hb hid
      obtain ha | ha := mem_append.mp ha
      · obtain hb | hb := mem_append.mp hb
        · exact h.ids a ha b hb hid
        · rw [mem_singleton.mp hb] at hid
          exact absurd hid (hfresh a ha).1
      · obtain hb | hb := mem_append.mp hb
        · rw [mem_singleton.mp ha] at hid
          exact absurd hid.symm (hfresh b hb).1
        · rw [mem_singleton.mp ha, mem_singleton.mp hb]
    · intro other hother hsettled
      obtain hother | hother := mem_append.mp hother
      · exact h.settled other hother hsettled
      · rw [mem_singleton.mp hother]
    · have hrefl := leaves_refl index s
      refine ⟨hrefl.locks, hrefl.ledgerAt, hrefl.marks, hrefl.ledgersOf, hrefl.isClosed, ?_, ?_, ?_⟩
      · exact fun other hother => ⟨other, mem_append_left _ hother, Row.Same.refl other⟩
      · intro other hother htoken
        obtain hother | hother := mem_append.mp hother
        · exact ⟨other, hother, rfl, htoken, rfl⟩
        · rw [mem_singleton.mp hother] at htoken
          cases htoken
      · rintro later ⟨other, hother, hsame⟩ hsettled
        unfold System.priorSettled at hsettled ⊢
        rw [find?_append]
        cases hfind : s.rows.find? (·.isKey later.goalId later.revisionId .completed) with
        | some prior =>
          rw [hfind] at hsettled
          exact hsettled
        | none =>
          rw [none_or, find?_singleton]
          split
          · next hkey =>
            unfold Row.isKey at hkey
            simp only [and_eq_true, decide_eq_true_eq] at hkey
            obtain ⟨⟨hgoal, hrevision⟩, hcompleted⟩ := hkey
            exact absurd hcompleted
              ((hfresh other hother).2 (hsame.2.1.trans hgoal.symm)
              (hsame.2.2.1.trans hrevision.symm))
          · rfl

theorem settle_kept (id : Text) (retry : Bool) (attempt : ℕ) :
    Kept s (settleGoalBoardDelivery s id retry attempt) := by
  unfold settleGoalBoardDelivery
  have hsame : ∀ row : Row, Row.Same { row with
      state := if retry then .pending else .handled, failure := none, retryAt := none, claimExpiresAt := none } row :=
    fun row => ⟨rfl, rfl, rfl, rfl, rfl⟩
  have hcondition : ∀ row :
      Row, (row.awaitsOwner && decide (row.attempts = attempt) && decide (row.claimToken = none) &&
      (!retry || decide ((s.goals row.goalId).bind currentRevision = some row.revisionId))) = true →
      row.awaitsOwner ∧ row.claimToken = none := by
    intro row hrow
    rw [and_eq_true, and_eq_true, and_eq_true, decide_eq_true_eq] at hrow
    exact ⟨hrow.1.1.1, of_decide_eq_true hrow.1.2⟩
  have hstate : ∀ row : Row, row.awaitsOwner → ¬ goalBoardPriorSettled row.state := by
    intro row hawaits
    unfold Row.awaitsOwner at hawaits
    rw [or_eq_true, decide_eq_true_eq, decide_eq_true_eq] at hawaits
    obtain hstate | hstate := hawaits <;> rw [hstate] <;> decide
  refine ⟨update_ok h hsame ?_, fun index => update_leaves hsame ?_ ?_⟩
  · exact fun row _ hrow _ => (hcondition row hrow).2
  · exact fun row _ hrow hsettled => absurd hsettled (hstate row (hcondition row hrow).1)
  · intro row _ hrow
    show row.claimToken ≠ some index
    rw [(hcondition row hrow).2]
    exact (some_ne_none index).symm

theorem put_kept (hledger : ∀ hash, item.ledger hash = ledgerAt s place hash)
    (hmarks : ∀ hash, isGoalBoardHash hash → item.comments.countP (isMarked hash) ≤ marks s place hash) :
    Kept s (s.put place item) := by
  have hat : ∀ place' hash, ledgerAt (s.put place item) place' hash = ledgerAt s place' hash := by
    intro place' hash
    exact ledgerAt_put_kept hledger (.comment place hash 0) place' hash
  have hmarked : ∀ place' hash, isGoalBoardHash hash →
      marks (s.put place item) place' hash ≤ marks s place' hash := by
    intro place' hash hhash
    have hput := marks_put (s := s) place place' item (.comment place hash 0) hash
    change marks (s.put place item) place' hash = _ at hput
    rw [hput]
    split
    · next heq =>
      rw [heq]
      exact hmarks hash hhash
    · exact Nat.le_refl _
  refine ⟨⟨h.log, fun place' hash hhash => ?_, h.ids, h.settled⟩, fun index => ?_⟩
  · have hok := h.items place' hash hhash
    refine ⟨Nat.le_trans (hmarked place' hash hhash) hok.marks,
      fun ledger hl => hok.keeps ledger ((hat place' hash).symm.trans hl),
      fun hl => hok.none ((hat place' hash).symm.trans hl)⟩
  · have hrefl := leaves_refl index s
    refine ⟨hrefl.locks, fun place' hash _ => hat place' hash, ?_, hrefl.ledgersOf, hrefl.isClosed, hrefl.rows, hrefl.tokens,
      hrefl.settled⟩
    intro place' hash hhash _ hnone
    exact Nat.le_zero.mp (hnone ▸ hmarked place' hash hhash)

theorem edit_kept {change : Item → Item} (hmetadata : ∀ item, (change item).metadata = item.metadata)
    (hmarks : ∀ item hash, isGoalBoardHash hash →
      (change item).comments.countP (isMarked hash) ≤ item.comments.countP (isMarked hash)) : Kept s
      (edit s place change) := by
  unfold edit
  split
  · exact ⟨h, fun index => leaves_refl index s⟩
  · next item hitem =>
    refine put_kept h (fun hash => ?_) fun hash hhash => ?_
    · rw [ledgerAt_of_items hitem]
      unfold Item.ledger
      rw [hmetadata]
    · rw [marks_of_items hitem]
      exact hmarks item hash hhash

theorem environment_kept (change : Change) : Kept s (environment s change) := by
  cases change with
  | queue row => exact queue_kept h row
  | settle id retry attempt => exact settle_kept h id retry attempt
  | goal | tick =>
    refine ⟨⟨h.log, fun place hash hhash => ?_, h.ids, h.settled⟩, fun index => ?_⟩
    · have hitem := h.items place hash hhash
      exact ⟨hitem.marks, hitem.keeps, hitem.none⟩
    · have hrefl := leaves_refl index s
      exact { hrefl with }
  | create place closeWhenDone =>
    unfold environment
    dsimp only
    split
    · exact ⟨h, fun index => leaves_refl index s⟩
    · next hno =>
      have hnone := not_isSome_iff_eq_none.mp hno
      refine put_kept h (fun hash => ?_) fun hash _ => Nat.zero_le _
      unfold ledgerAt
      rw [hnone]
      rfl
  | setClosed | setCloseWhenDone => exact edit_kept h (fun _ => rfl) fun _ _ _ => Nat.le_refl _
  | addComment place comment =>
    unfold environment
    dsimp only
    split
    · exact ⟨h, fun index => leaves_refl index s⟩
    · next hplain =>
      refine edit_kept h (fun _ => rfl) fun item hash hhash => ?_
      have hunmarked : ¬ isMarked hash comment := by
        intro hmarked
        refine hplain (List.isPrefixOf_iff_prefix.mpr ?_)
        refine List.IsPrefix.trans ?_ (List.isPrefixOf_iff_prefix.mp hmarked)
        unfold goalBoardMarker
        rw [append_assoc]
        exact prefix_append _ _
      rw [countP_append, countP_singleton, if_neg hunmarked, Nat.add_zero]
  | deleteComment place id =>
    refine edit_kept h (fun _ => rfl) fun item hash _ => ?_
    exact List.Sublist.countP_le filter_sublist

end

/-! ### Every run -/

theorem keeps_program (sha256 : Text → Text) : Calls.Keeps (program sha256) SystemOk
    (fun s index worker => PhaseOk sha256 s index worker.phase) (fun _ _ => True) Worker.isNew
      (fun _ _ _ _ => True) where
  start s index worker _ _ hnew := by
    rw [show worker.phase = .prior from hnew]
    exact trivial
  act s index worker answer h hphase _ :=
    have hacted := act_ok h worker hphase answer
    ⟨hacted.1.ok, hacted.2⟩
  others s index worker answer other worker' h hphase _ hne hphase' :=
    PhaseOk.leaves hphase' ((act_ok h worker hphase answer).1.others other hne)
  idle _ _ _ _ _ _ _ _ _ _ := trivial
  environment s change h := (environment_kept h change).ok
  environmentLocal s change index worker h hphase :=
    PhaseOk.leaves hphase ((environment_kept h change).others index)
  environmentIdle _ _ _ _ _ := trivial

theorem systemOk_new (h : s.IsNew) : SystemOk s := by
  refine ⟨h.log ▸ trivial, fun place hash _ => ?_, h.ids, fun row hrow _ => h.rows row hrow⟩
  cases hitem : s.items place with
  | none =>
    have hat : ledgerAt s place hash = none := by
      unfold ledgerAt
      rw [hitem]
      rfl
    refine ⟨?_, fun ledger hl => ?_, fun _ => ?_⟩
    · unfold marks
      rw [hitem]
      exact Nat.zero_le 1
    · rw [hat] at hl
      cases hl
    · rw [h.log]
      exact ⟨rfl, rfl⟩
  | some item =>
    obtain ⟨hmetadata, hcomments⟩ := h.items place item hitem
    have hat : ledgerAt s place hash = none := by
      rw [ledgerAt_of_items hitem]
      unfold Item.ledger
      rw [hmetadata]
      rfl
    refine ⟨?_, fun ledger hl => ?_, fun _ => ?_⟩
    · rw [marks_of_items hitem, countP_eq_zero.mpr]
      · exact Nat.zero_le 1
      · intro comment hcomment hmarked
        have hplain := hcomments comment hcomment
        rw [List.isPrefixOf_iff_prefix.mpr] at hplain
        · cases hplain
        · refine List.IsPrefix.trans ?_ (List.isPrefixOf_iff_prefix.mp hmarked)
          unfold goalBoardMarker
          rw [append_assoc]
          exact prefix_append _ _
    · rw [hat] at hl
      cases hl
    · rw [h.log]
      exact ⟨rfl, rfl⟩

def IsDigest (digest : Text) : Prop := digest.length = 64 ∧ digest.all isLowerHex

theorem isGoalBoardHash_hash {key : Text} (h : IsDigest (sha256 key)) :
    isGoalBoardHash (goalBoardHash sha256 key) := by
  unfold isGoalBoardHash goalBoardHash
  rw [and_eq_true]
  refine ⟨decide_eq_true ?_, ?_⟩
  · rw [length_take, h.1]
    rfl
  · rw [all_eq_true]
    exact fun u hu => all_eq_true.mp h.2 u (mem_of_mem_take hu)

def Phase.holds : Phase → Option Job
  | .prior => none
  | .claim => none
  | .claimed _ => none
  | .held job _ => some job
  | .reading job _ => some job
  | .goal job => some job
  | .current job _ => some job
  | .own job _ _ => some job
  | .verdict job _ => some job
  | .gatePrior job _ => some job
  | .wait job => some job
  | .release job _ _ _ => some job
  | .locking job => some job
  | .board job _ => some job
  | .pause job _ _ _ => some job
  | .acking job _ => some job
  | .unlocking job _ => some job
  | .done => none

theorem running_of_phase (h : PhaseOk sha256 s index phase) (hjob : phase.holds = some job) :
    Running s index job := by
  cases phase with
  | prior | claim | claimed | done => cases hjob
  | goal | current | own | verdict | gatePrior | wait | release => exact some.inj hjob ▸ h
  | held | reading | locking | board | pause | acking | unlocking => exact some.inj hjob ▸ h.1

/-- What holds of the comments, of what was done, and of the claims, after any run. -/
structure Delivers (sha256 : Text → Text) (state : Calls.State System Worker) : Prop where
  marks : ∀ place goalId revisionId transition,
    marks state.shared place (goalBoardHash sha256 (goalBoardDeliveryKey goalId revisionId transition)) ≤ 1
  done : ∀ event earlier, event :: earlier <:+ state.shared.log → EventOk earlier event
  claims : ∀ index worker, state.calls[index]? = some worker → ∀ job, worker.phase.holds = some job →
    ∀ row ∈ state.shared.rows, row.id = job.row.id → row.claimToken = some index →
      row.claimGeneration = job.row.claimGeneration

theorem delivery_holds (hsha256 : ∀ text, IsDigest (sha256 text)) (hs : s.IsNew) (ops : List (Calls.Op Worker Answer Change))
    (hstart : ∀ op ∈ ops, Calls.OnStarts Worker.isNew op) :
    Delivers sha256 (Run.after (Calls.step (program sha256)) ⟨s, []⟩ ops) := by
  have hnew : Calls.Holds SystemOk (fun s index worker => PhaseOk sha256 s index worker.phase) (fun _ _ => True)
      (⟨s, []⟩ : Calls.State System Worker) := by
    refine ⟨systemOk_new hs, fun index worker hworker => ?_, fun _ _ => trivial⟩
    cases hworker
  have hafter := Calls.holds_every (keeps_program sha256) hnew hstart
  refine ⟨?_, ?_, ?_⟩
  · intro place goalId revisionId transition
    exact (hafter.shared.items place _ (isGoalBoardHash_hash (hsha256 _))).marks
  · exact fun event earlier hsuffix => eventOk_of_logOk hafter.shared.log hsuffix
  · intro index worker hworker job hjob
    exact (running_of_phase (hafter.calls index worker hworker) hjob).token

/-! ### An owner who reopens an item -/

/-- An acceptance that is queued, for an item whose owner consents to its close. -/
def acceptedRow : Row where
  id := lit "d"
  goalId := lit "g"
  revisionId := lit "r"
  transition := .accepted
  spaceId := lit "s"
  userId := lit "u"
  workspaceId := lit "w"
  itemId := lit "i"
  state := .pending
  claimToken := none
  claimGeneration := 0
  claimExpiresAt := none
  commentReceipt := none
  closeReceipt := none
  retryAt := none
  attempts := 0
  failure := none

def acceptedGoal : Goal where
  spaceId := lit "s"
  userId := lit "u"
  groupId := lit "t"
  boardWorkspaceId := some (lit "w")
  boardItemId := some (lit "i")
  accepted := true
  revisions := [(lit "r", 1)]
  verdicts := [lit "r"]

def acceptedSystem : System where
  rows := [acceptedRow]
  goals := fun goalId => if goalId = lit "g" then some acceptedGoal else none
  items := fun place => if place = acceptedRow.place then some ⟨false, true, [], []⟩ else none
  locks := fun _ => none
  now := 0
  log := []

def acceptedDigest (_ : Text) : Text :=
  lit "e2551e9548eaa70575a16ac1cdc3f9d273a91bcf5cbad51c9d5d019222a6751c"

/-- All that a worker awaits until it has closed the item succeeds. -/
def closingAnswers : List Answer :=
  List.replicate 15 .go ++ [.provider true] ++ List.replicate 6 .go ++
    [.comment (lit "c") (lit "2026-01-01")] ++
    List.replicate 4 .go ++ [.entries []] ++ List.replicate 8 .go ++ [.closed true]

/-- The owner closes the item and reopens it, and then a worker delivers the acceptance. -/
def reopenedRun : List (Calls.Op Worker Answer Change) :=
  [.environment (.setClosed acceptedRow.place true), .environment (.setClosed acceptedRow.place false),
    .start ⟨acceptedRow, true, .prior⟩] ++ closingAnswers.map (.act 0)

theorem isNew_accepted : acceptedSystem.IsNew where
  rows row hrow := by
    rw [mem_singleton.mp hrow]
    rfl
  ids row hrow other hother _ := by rw [mem_singleton.mp hrow, mem_singleton.mp hother]
  items place item hitem := by
    change (if place = acceptedRow.place then some (⟨false, true, [], []⟩ : Item) else none) = some item at hitem
    split at hitem
    · rw [← some.inj hitem]
      exact ⟨rfl, fun comment hcomment => by cases hcomment⟩
    · cases hitem
  locks _ := rfl
  log := rfl

theorem isDigest_accepted (text : Text) : IsDigest (acceptedDigest text) :=
  show IsDigest (acceptedDigest []) from ⟨by decide +kernel, by decide +kernel⟩

theorem starts_reopened : ∀ op ∈ reopenedRun, Calls.OnStarts Worker.isNew op := by
  intro op hop
  unfold reopenedRun at hop
  obtain hop | hop := mem_append.mp hop
  · simp only [mem_cons, not_mem_nil, or_false] at hop
    obtain rfl | rfl | rfl := hop
    · exact trivial
    · exact trivial
    · exact rfl
  · obtain ⟨answer, -, rfl⟩ := mem_map.mp hop
    exact trivial

theorem delivery_holds_reopened :
    Delivers acceptedDigest (Run.after (Calls.step (program acceptedDigest)) ⟨acceptedSystem, []⟩ reopenedRun) :=
  delivery_holds isDigest_accepted isNew_accepted reopenedRun starts_reopened

/-- An item is closed by a delivery after its owner reopened it. -/
theorem delivery_closes_reopened : acceptedSystem.IsNew ∧ (∀ op ∈ reopenedRun, Calls.OnStarts Worker.isNew op) ∧
    (∃ answers, reopenedRun =
      [.environment (.setClosed acceptedRow.place true), .environment (.setClosed acceptedRow.place false)] ++ answers) ∧
    isClosed (Run.after (Calls.step (program acceptedDigest)) ⟨acceptedSystem, []⟩ reopenedRun).shared.log
      acceptedRow.place (goalBoardHash acceptedDigest (goalBoardDeliveryKey (lit "g") (lit "r") .accepted)) = true :=
  ⟨isNew_accepted, starts_reopened, ⟨_, rfl⟩, by decide +kernel⟩

end ArdurBot.GoalBoard
