import ArdurBot.Computers.MaintenanceActs

/-!
# Runs on a reserved computer

Any calls in any order keep the reservation of a computer, on the condition of `InOrder`: each
update is replaced once at most, nobody but the update works on its computer or has a lease of it,
and its reservation is cleared after the replacement ended, or when it never began.
-/

namespace ArdurBot.Maintenance

open List Utf16 Bool

variable {s s' : System} {index id : ℕ} {task : Task}

/-! ### Acts that begin, clear or reserve -/

theorem Fresh.over (h : Fresh s index id) : Over s index id :=
  ⟨h.toOwning, fun hbegan => absurd hbegan h.unbegun⟩

theorem Over.finishing (h : Over s index id) : Finishing s index id := ⟨h.taken, fun _ => h⟩

section

variable (h : SystemOk s)
include h

theorem acted_performClaim : Acted s index (performClaim s index id) := by
  unfold performClaim
  split
  · exact acted_stay h trivial
  · next claimed heq =>
    obtain ⟨hclaimed, hany⟩ := Prod.mk.inj heq
    obtain ⟨row, hrow, hmatch⟩ := any_eq_true.mp hany
    rw [and_eq_true, decide_eq_true_eq, decide_eq_true_eq] at hmatch
    obtain ⟨rfl, hstatus⟩ := hmatch
    have hqueued := h.queued row hrow hstatus
    subst hclaimed
    have hrunning : UpdateStatus.running ≠ .queued := by decide
    have hsystem := systemOk_setStatus row.id h (fun row => row.status = .queued) hrunning
    refine ⟨systemOk_record hsystem hqueued.untaken ?_ ?_ (fun _ => nofun), ?_, ?_⟩
    · intro other hother
      cases hother
      exact h.rows row hrow
    · intro other hother hotherQueued other' hother' hsame
      cases hother'
      obtain ⟨old, -, -, ⟨rfl, hunmatched⟩ | ⟨-, -, hrunning⟩⟩ := mem_setStatus hother
      · exact hunmatched ⟨hsame.symm, by simpa using hotherQueued⟩
      · rw [hrunning] at hotherQueued
        cases hotherQueued
    · refine ⟨fun _ hmem => mem_cons_of_mem _ hmem, fun other hmem => ?_, fun _ hreserved => .inl hreserved,
        fun other hopen => ?_⟩
      · obtain hbegan | hmem := mem_cons.mp hmem
        · cases hbegan
        · exact .inl hmem
      · obtain ⟨changed, hchanged, hid, hopen⟩ := hopen
        obtain ⟨old, hold, hsame, ⟨rfl, -⟩ | ⟨hold', -, -⟩⟩ := mem_setStatus hchanged
        · exact .inl ⟨changed, hold, hid, hopen⟩
        · rw [← hid, ← hsame, hold']
          exact .inr mem_cons_self
    · refine ⟨⟨mem_cons_self, hqueued.reserved⟩, fun hmem => ?_⟩
      obtain hbegan | hmem := mem_cons.mp hmem
      · cases hbegan
      · exact hqueued.unbegun hmem

theorem acted_begin (hfresh : Fresh s index id) (hid : task.owner.updateId = some id) (mode : Mode) :
    Acted s index (s.record (.began id), .replaceStart task mode) := by
  have hevent : EventOk s.history (.began id) :=
    ⟨hfresh.unbegun, fun hcleared => h.cleared id hcleared hfresh.reserved⟩
  refine ⟨systemOk_record_owned h hfresh.taken hevent rfl (fun _ => nofun), kept_record _ ?_, working ?_⟩
  · intro other hother
    cases hother
    exact hfresh.taken
  · intro other hother
    rw [hid] at hother
    cases hother
    exact ⟨mem_cons_of_mem _ hfresh.taken, hfresh.reserved⟩

theorem finishUpdate_ok (hlock : s.lock = none) (hfinishing : Finishing s index id)
    {status : UpdateStatus} (hstatus : status = .completed ∨ status = .failed) :
    SystemOk (finishUpdate s id status) ∧ Kept index s (finishUpdate s id status) ∧
      Finishing (finishUpdate s id status) index id := by
  unfold finishUpdate
  split
  · exact ⟨h, .refl index s, hfinishing⟩
  · next finished heq =>
    obtain ⟨hfinished, hany⟩ := Prod.mk.inj heq
    obtain ⟨row, hrow, hmatch⟩ := any_eq_true.mp hany
    rw [and_eq_true, decide_eq_true_eq, or_eq_true, decide_eq_true_eq, decide_eq_true_eq] at hmatch
    have hquiet : Quiet s finished := by
      rw [← hfinished]
      refine quiet_setStatus h _ ?_ ?_
      · rintro rfl
        simp at hstatus
      · rintro (rfl | rfl) <;> simp at hstatus
    have hover : Over finished index id := hquiet.over (hfinishing.past ⟨row, hrow, hmatch⟩)
    have hkept : Kept index s (finished.clearReservation id) := hquiet.kept.trans (kept_clear hover.taken)
    refine ⟨systemOk_clear hquiet.system (by rw [← hfinished]; exact hlock) hover, hkept,
      hkept.history _ hfinishing.taken, fun hopen => ?_⟩
    have hupdates : (finished.clearReservation id).updates = finished.updates := by
      unfold System.clearReservation
      split <;> rfl
    obtain ⟨closed, hclosed, hid, hopen⟩ := hopen
    rw [hupdates, ← hfinished] at hclosed
    obtain ⟨old, -, -, ⟨rfl, hunmatched⟩ | ⟨-, -, hset⟩⟩ := mem_setStatus hclosed
    · exact absurd ⟨hid, by simpa using hopen⟩ hunmatched
    · rw [hset] at hopen
      obtain rfl | rfl := hstatus <;> simp at hopen

theorem acted_performFinish (hlock : s.lock = none) (hfinishing : Finishing s index id) (completed : Bool)
    (answer : Answer) : Acted s index (next s index (.performFinish id completed) answer) := by
  have hstatus : (if completed then UpdateStatus.completed else .failed) = .completed ∨
      (if completed then UpdateStatus.completed else .failed) = .failed := by cases completed <;> simp
  obtain ⟨hsystem, hkept, hdone⟩ := finishUpdate_ok h hlock hfinishing hstatus
  unfold next
  cases answer with
  | fails => exact acted_stay h (by cases completed <;> first | exact trivial | exact hfinishing)
  | _ => exact ⟨hsystem, hkept, by cases completed <;> first | exact trivial | exact hdone⟩

theorem acted_placeFinally {x : Placing} (hlock : s.lock = none) (hover : Over s index x.updateId)
    (answer : Answer) :
    Acted s index (next s index (.placeFinally x) answer) := by
  unfold next
  cases answer with
  | fails => exact acted_stay h trivial
  | _ => exact ⟨systemOk_clear h hlock hover, kept_clear hover.taken, trivial⟩

/-! ### Reservations -/

theorem quiet_unlock : Quiet s { s with lock := none } := by
  refine ⟨⟨h.history, h.ids, h.rows, ?_, h.cleared, ?_, ?_, h.leases⟩, fun _ hmem => hmem, fun _ hmem => hmem, rfl,
    fun _ hopen => hopen⟩
  · exact fun row hrow hqueued => { h.queued row hrow hqueued with }
  · exact fun index operation hclaim => (h.claim index operation hclaim).of_same rfl
  · exact fun hsome => absurd hsome false_ne_true

theorem quiet_lock (hreservable : s.isReservable) : Quiet s { s with lock := some index } := by
  unfold System.isReservable at hreservable
  simp only [and_eq_true, decide_eq_true_eq, not_eq_true', Option.isNone_iff_eq_none] at hreservable
  obtain ⟨⟨⟨⟨hreserved, hbooting⟩, hsuspending⟩, -⟩, hlive⟩ := hreservable
  refine ⟨⟨h.history, h.ids, h.rows, ?_, h.cleared, ?_, fun _ => ⟨hreserved, ?_, ?_⟩, h.leases⟩, fun _ hmem => hmem,
    fun _ hmem => hmem, rfl, fun _ hopen => hopen⟩
  · exact fun row hrow hqueued => { h.queued row hrow hqueued with }
  · exact fun index operation hclaim => (h.claim index operation hclaim).of_same rfl
  · cases hclaim : s.computer.claim with
    | none => rfl
    | some claim =>
      obtain hstate | hstate := (h.claim claim.1 claim.2 hclaim).state
      · exact absurd hstate hbooting
      · exact absurd hstate hsuspending
  · intro lease hmem
    by_contra hlate
    have hlive' : s.hasLiveLease := any_eq_true.mpr ⟨lease, hmem, by simpa using hlate⟩
    rw [hlive] at hlive'
    cases hlive'

theorem acted_commit {reserved : System × Call}
    (hreserved : s.lock = some index → Acted s index reserved) (answer : Answer) :
    Acted s index (commit s index answer reserved) := by
  unfold commit
  split
  · next hlock =>
    have hdone := hreserved hlock
    cases answer with
    | fails => exact Stepped.acted (.of_quiet (quiet_unlock h) trivial)
    | lost => exact ⟨hdone.system, hdone.kept, trivial⟩
    | _ => exact hdone
  · exact acted_stay h trivial

theorem acted_queueCommit (x : QueueInput) (hlock : s.lock = some index) :
    Acted s index (queueCommit s x, .queueEnqueue) := by
  have hsome : s.lock.isSome := by simp [hlock]
  have hrows : ∀ row ∈ s.updates.map fun row =>
      if row.status = .failed then { row with status := .dismissed, updatedAt := s.now } else row,
      ∃ old ∈ s.updates, old.id = row.id ∧ (row.status = old.status ∨ row.status = .dismissed) := by
    intro row hrow
    obtain ⟨old, hold, rfl⟩ := mem_map.mp hrow
    refine ⟨old, hold, ?_⟩
    split
    · exact ⟨rfl, .inr rfl⟩
    · exact ⟨rfl, .inl rfl⟩
  refine ⟨systemOk_reserve h hsome _ _ rfl ?_, kept_reserve (h.lock hsome).unreserved _ _ ?_, trivial⟩
  · intro row hrow
    obtain ⟨old, hold, hid, hsame | hdismissed⟩ := hrows row hrow
    · exact ⟨old, hold, hid, fun hqueued => hsame ▸ hqueued⟩
    · exact ⟨old, hold, hid, fun hqueued => by rw [hdismissed] at hqueued; cases hqueued⟩
  · rintro id ⟨row, hrow, hid, hopen⟩
    obtain hrow | hnew := mem_append.mp hrow
    · obtain ⟨old, hold, hsame, hkept | hdismissed⟩ := hrows row hrow
      · exact ⟨old, hold, hsame.trans hid, hkept ▸ hopen⟩
      · simp [hdismissed] at hopen
    · simp [mem_singleton.mp hnew] at hopen

theorem acted_placeCommit (run : OwnedRun) (hlock : s.lock = some index) :
    Acted s index (placeCommit s index run) := by
  have hsome : s.lock.isSome := by simp [hlock]
  have hfree := h.lock hsome
  have hnew : ∀ event ∈ s.history, event.about ≠ some s.nextUpdate := by
    intro event hevent habout
    have := h.ids event hevent _ habout
    omega
  have hmoving := systemOk_runs h ((s.updateRun run fun row => { row with placement := some .moving }).1).runs s.bots
  have hreserved := systemOk_reserve hmoving hsome s.updates ⟨s.nextUpdate, run.botId, false, .running, s.now⟩ rfl
    fun row hrow => ⟨row, hrow, rfl, fun hqueued => hqueued⟩
  refine ⟨systemOk_record hreserved ?_ ?_ ?_ (fun _ => nofun), ⟨?_, ?_, ?_, ?_⟩, ?_⟩
  · exact fun call hmem => hnew _ hmem rfl
  · intro id hid
    cases hid
    exact Nat.lt_succ_self _
  · intro row hrow hqueued id hid hsame
    cases hid
    have hrowReserved := (hreserved.queued row hrow hqueued).reserved
    obtain hrow | hlast := mem_append.mp hrow
    · have := h.rows row hrow
      omega
    · rw [mem_singleton.mp hlast] at hqueued
      cases hqueued
  · exact fun _ hmem => mem_cons_of_mem _ hmem
  · intro id hmem
    obtain hbegan | hmem := mem_cons.mp hmem
    · cases hbegan
    · exact .inl hmem
  · intro id hmaintenance
    rw [hfree.unreserved] at hmaintenance
    cases hmaintenance
  · rintro id ⟨row, hrow, rfl, hopen⟩
    obtain hrow | hlast := mem_append.mp hrow
    · exact .inl ⟨row, hrow, rfl, hopen⟩
    · rw [mem_singleton.mp hlast]
      exact .inr mem_cons_self
  · refine ⟨⟨mem_cons_self, rfl⟩, fun hmem => ?_⟩
    obtain hbegan | hmem := mem_cons.mp hmem
    · cases hbegan
    · exact hnew _ hmem rfl

end

/-! ### Every act -/

section

variable (h : SystemOk s)
include h

theorem stepped_reconcile (row : ComputerUpdate) (rows : List ComputerUpdate) :
    Stepped s index (reconcile s row, .reconcile rows) := by
  unfold reconcile
  split
  · exact stepped_stay h trivial
  · refine .of_quiet (quiet_setStatus h _ (by decide) fun _ current hmatch => ?_) trivial
    rw [and_eq_true, decide_eq_true_eq] at hmatch
    exact hmatch.1

theorem stepped_placeRead (runId : Text) : Stepped s index (placeRead s runId) := by
  unfold placeRead
  split
  · exact stepped_stay h trivial
  · split
    · exact stepped_stay h trivial
    · split
      · exact stepped_stay h trivial
      · split <;> exact stepped_stay h trivial

theorem stepped_queueLock (x : QueueInput) : Stepped s index (queueLock s index x) := by
  unfold queueLock
  split
  · exact stepped_stay h trivial
  · split
    · next hreservable => exact .of_quiet (quiet_lock h (and_eq_true _ _ ▸ hreservable).1) trivial
    · exact stepped_stay h trivial

theorem stepped_placeLock (run : OwnedRun) (computer : Computer) :
    Stepped s index (placeLock s index run computer) := by
  unfold placeLock
  split
  · exact .of_quiet (quiet_runs h _) trivial
  · split
    · exact stepped_stay h trivial
    · split
      · exact stepped_stay h trivial
      · split
        · next hreservable => exact .of_quiet (quiet_lock h hreservable) trivial
        · exact stepped_stay h trivial

theorem quiet_placeMoved (x : Placing) : Quiet s (placeMoved s x) := by
  have hruns := quiet_runs h (s.updateRun x.run fun row => { row with placement := some .moved }).1.runs
  exact hruns.trans (quiet_setStatus hruns.system _ (by decide) (by simp))

theorem stepped_performRead (hfresh : Fresh s index id) : Stepped s index (performRead s id) := by
  unfold performRead
  split
  · exact stepped_stay h trivial
  · exact stepped_stay h hfresh

end

section

variable (h : SystemOk s) (call : Call) (answer : Answer) (hcall : CallOk s index call)
  (horder : InOrder s index call answer)
include h hcall horder

theorem acted_next (hlock : call.writesComputer → s.lock = none) :
    Acted s index (next s index call answer) := by
  have hquiet : ∀ {task : Task} {done : System × Call}, TaskOk s index task → Stepped s index done →
      Stepped s index (awaited s answer (refuse task) done) :=
    fun htask hdone => stepped_awaited h (fun s' hs' => stepped_refuse htask s' hs') hdone answer
  have hboot : ∀ {task : Task} {replacing : Option Replacing} {done : System × Call}, Working s index task replacing →
      Stepped s index done → Stepped s index (awaited s answer (bootThrown replacing) done) :=
    fun hwork hdone => stepped_awaited h (fun s' hs' => stepped_bootThrown hwork s' hs') hdone answer
  have hplain : ∀ {thrown : Call} {done : System × Call}, CallOk s index thrown → Stepped s index done →
      Stepped s index (awaited s answer (·, thrown) done) :=
    fun hthrown hdone => stepped_awaited h (fun _ hs' => .of_quiet hs' hthrown) hdone answer
  have hfailed : CallOk s index .failed := trivial
  have hdone : CallOk s index .done := trivial
  cases call with
  | queue x =>
    refine acted_stay h ?_
    split <;> exact trivial
  | queueLock x => exact acted_attempted h hfailed (stepped_queueLock h x).acted answer
  | queueCommit x => exact acted_commit h (acted_queueCommit h x) answer
  | queueEnqueue | done | failed => exact acted_stay h trivial
  | performClaim id =>
    have hdone : Acted s index (performClaim s index id) := acted_performClaim h
    cases answer with
    | fails => exact acted_stay h trivial
    | lost => exact ⟨hdone.system, hdone.kept, trivial⟩
    | _ => exact hdone
  | performRead id => exact (hplain hfailed (stepped_performRead h hcall)).acted
  | performBot id botId isRecover =>
    have hover : CallOk s index (.performFinish id false) := (Fresh.over hcall).finishing
    refine (hplain hover (stepped_stay h ?_)).acted
    split
    · exact hcall
    · exact hover
  | performEngine id botId isRecover =>
    have hover : CallOk s index (.performFinish id false) := (Fresh.over hcall).finishing
    refine acted_attempted h hover ?_ answer
    split
    · exact acted_stay h hover
    · exact acted_begin h hcall rfl _
  | performFinish id completed => exact acted_performFinish h (hlock rfl) hcall completed answer
  | performSleep id =>
    have hfinishing : CallOk s index (.performFinish id false) := hcall
    exact (hplain hfinishing (stepped_stay h hdone)).acted
  | reconcileRead =>
    refine (hplain hfailed (stepped_stay h ?_)).acted
    exact trivial
  | reconcile rows =>
    cases rows with
    | nil => exact acted_stay h trivial
    | cons row rows => exact (hplain hfailed (stepped_reconcile h row rows)).acted
  | placeRead runId => exact (hplain hfailed (stepped_placeRead h runId)).acted
  | placeDecide | leaseValidate =>
    refine (hplain hfailed (stepped_stay h ?_)).acted
    split <;> exact trivial
  | placeLock run computer => exact acted_attempted h hfailed (stepped_placeLock h run computer).acted answer
  | placeCommit run => exact acted_commit h (acted_placeCommit h run) answer
  | placeTarget x =>
    have hover : CallOk s index (.placeFail x) := Fresh.over hcall
    exact acted_attempted h hover (acted_begin h hcall rfl _) answer
  | placeMoved x =>
    have hover : CallOk s index (.placeFail x) := hcall
    refine (hplain hover (.of_quiet ?_ ?_)).acted
    · exact quiet_placeMoved h x
    · exact hcall
  | placeFail x =>
    have hover : CallOk s index (.placeFinally x) := hcall
    refine (hplain hover (.of_quiet ?_ ?_)).acted
    · exact quiet_setStatus h _ (by decide) (by simp)
    · exact hcall
  | placeFailRun x =>
    have hover : CallOk s index (.placeFinally x) := hcall
    refine (hplain hover (.of_quiet ?_ ?_)).acted
    · exact quiet_runs h _
    · exact hcall
  | placeFinally x => exact acted_placeFinally h (hlock rfl) hcall answer
  | leaseRead x =>
    refine (hplain hfailed (stepped_stay h ?_)).acted
    split
    · exact trivial
    · split
      · exact trivial
      · split <;> exact trivial
  | leaseReclaim x now =>
    by_cases hfails : answer = .fails
    · rw [hfails]
      exact acted_stay h trivial
    · exact (hplain hfailed (stepped_leaseReclaim h x now (horder hfails))).acted
  | leaseCreate x now =>
    by_cases hfails : answer = .fails
    · rw [hfails]
      exact acted_stay h trivial
    · exact (hplain hfailed (stepped_leaseCreate h x now (horder hfails))).acted
  | leaseRelease x fence =>
    refine (hplain hfailed (.of_quiet (quiet_leases h _ fun hreserved row hrow => ?_) hfailed)).acted
    obtain ⟨old, hold, rfl⟩ := mem_map.mp hrow
    split
    · exact Nat.zero_le _
    · exact noLiveLease h hreserved old hold
  | replaceStart task mode => exact (hquiet hcall.1 (stepped_replaceStart h hcall.1)).acted
  | replaceRead task mode => exact (hquiet hcall.1 (stepped_replaceRead h hcall.1)).acted
  | replaceExpire task mode =>
    refine (hquiet hcall.1 (stepped_stay h ?_)).acted
    exact hcall
  | replaceReread task mode expired => exact (hquiet hcall.1 (stepped_replaceReread h hcall.1 expired)).acted
  | replaceClear task mode =>
    refine (hquiet hcall.1 (.of_quiet ?_ ?_)).acted
    · exact quiet_updateComputer h (quiet_control h (hlock rfl) _ rfl rfl rfl)
    · exact hcall
  | replaceCleared task mode => exact (hquiet hcall.1 (stepped_replaceCleared h hcall.1)).acted
  | replaceForeign task mode existing =>
    exact (hquiet hcall.1 (stepped_replaceForeign h hcall.1 existing)).acted
  | replaceIdle task mode existing =>
    refine (hquiet hcall.1 ?_).acted
    split
    · exact stepped_refuse hcall.1 s (.refl h)
    · exact stepped_stay h hcall
  | replaceEngine task mode existing =>
    cases answer with
    | engine hasSource kind connectionId => exact acted_stay h hcall
    | _ => exact (stepped_refuse hcall.1 s (.refl h)).acted
  | replaceClaim x =>
    by_cases hfails : answer = .fails
    · rw [hfails]
      exact (stepped_refuse hcall.1 s (.refl h)).acted
    · exact (hquiet hcall.1 (stepped_replaceClaim h hcall.1 (hlock rfl) (horder hfails))).acted
  | replaceCheck x => exact (hquiet hcall.1 (stepped_replaceCheck h hcall.1)).acted
  | replaceUndo x => exact (hquiet hcall.1
    (stepped_refuse hcall.1 _
    (quiet_updateComputer h (quiet_unclaimed h (hlock rfl) _ rfl rfl)))).acted
  | replaceSaving x =>
    change Acted s index ((progress s x.task answer).1,
      if (progress s x.task answer).2 then .replaceSave x else saveFailed x)
    refine Stepped.acted (.of_quiet (quiet_progress h x.task answer) ?_)
    split
    · exact hcall
    · exact saveFailed_ok hcall.1
  | replaceSave x =>
    have hused := quiet_use h hcall.1 horder
    have hfails := saveFailed_ok (hused.taskOk hcall.1)
    have hrecord : CallOk (s.use x.task) index (.replaceRecord x) := hused.need hcall
    have hresult := stepped_awaited hused.system (fun s' hs' => .of_quiet hs' hfails)
      (stepped_stay hused.system hrecord) answer
    exact (hresult.after hused).acted
  | replaceRecord x =>
    refine (hplain (saveFailed_ok hcall.1) (stepped_stay h ?_)).acted
    split <;> exact hcall
  | replaceRecreating x =>
    change Acted s index ((progress s x.task answer).1,
      if !(progress s x.task answer).2 then .replaceCatch x else if x.oldRef then .replaceDestroy x
        else .replaceStopped x)
    refine Stepped.acted (.of_quiet (quiet_progress h x.task answer) ?_)
    split
    · exact hcall
    · split <;> exact hcall
  | replaceDestroy x =>
    have hused := quiet_use h hcall.1 horder
    have hstopped : CallOk (s.use x.task) index (.replaceStopped x) := hused.need hcall
    have hfails : CallOk (s.use x.task) index (if x.mode = .recover then .replaceStopped x else .replaceCatch x) := by
      split <;> exact hused.need hcall
    have hresult := stepped_awaited hused.system (fun s' hs' => .of_quiet hs' hfails)
      (stepped_stay hused.system hstopped) answer
    exact (hresult.after hused).acted
  | replaceStopped x =>
    have hcatch : CallOk s index (.replaceCatch x) := hcall
    exact (hplain hcatch (stepped_replaceStopped h hcall.1 (hlock rfl))).acted
  | replaceCatch x => exact (stepped_replaceCatch h hcall.1 (hlock rfl) answer).acted
  | bootRead task replacing => exact (hboot hcall (stepped_bootRead h hcall)).acted
  | bootExpire | bootEngine =>
    refine (hboot hcall (stepped_stay h ?_)).acted
    exact hcall
  | bootReread task replacing => exact (hboot hcall (stepped_bootReread h hcall)).acted
  | bootForeign | bootReady =>
    refine (hboot hcall ?_).acted
    split
    · exact stepped_bootThrown hcall s (.refl h)
    · exact stepped_stay h hcall
  | bootWait task replacing seen attempts =>
    exact (hboot hcall (stepped_bootWait h hcall seen attempts)).acted
  | bootClaim x =>
    by_cases hfails : answer = .fails
    · rw [hfails]
      exact (stepped_bootThrown hcall s (.refl h)).acted
    · exact (hboot hcall (stepped_bootClaim h hcall (hlock rfl) (horder hfails))).acted
  | bootProgress x stage =>
    change Acted s index ((progress s x.task answer).1,
      if (progress s x.task answer).2 then .bootUse x stage else .bootUndo x)
    refine Stepped.acted (.of_quiet (quiet_progress h x.task answer) ?_)
    split <;> exact hcall
  | bootUse x stage => exact (stepped_bootUse h hcall horder stage answer).acted
  | bootActivate x stamp =>
    have hundo : CallOk s index (.bootUndo x) := hcall
    exact (hplain hundo (stepped_bootActivate h hcall (hlock rfl) stamp)).acted
  | bootClear x stamp =>
    exact (hboot hcall
    (stepped_booted hcall
    (quiet_updateComputer h (quiet_control h (hlock rfl) _ rfl rfl rfl)))).acted
  | bootUndo x => exact acted_stay h hcall
  | bootFail x rollbackFailed => exact (stepped_bootFail h hcall (hlock rfl) rollbackFailed answer).acted

theorem acted : Acted s index (act s index call answer) := by
  unfold act
  split
  · exact acted_stay h hcall
  · next hwaits =>
    refine acted_next h call answer hcall horder fun hwrites => ?_
    simpa [hwrites] using hwaits

end

/-! ### What happens beside the calls -/

theorem NoLiveLease.later (h : NoLiveLease s) (ms : ℕ) : NoLiveLease { s with now := s.now + ms } :=
  fun lease hmem => Nat.le_add_right_of_le (h lease hmem)

theorem quiet_pass (h : SystemOk s) (ms : ℕ) : Quiet s { s with now := s.now + ms } := by
  refine ⟨⟨h.history, h.ids, h.rows, ?_, h.cleared, ?_, ?_, ?_⟩, fun _ hmem => hmem, fun _ hmem => hmem, rfl,
    fun _ hopen => hopen⟩
  · exact fun row hrow hqueued => { h.queued row hrow hqueued with }
  · exact fun index operation hclaim => (h.claim index operation hclaim).of_same rfl
  · exact fun hsome => { h.lock hsome with leases := (h.lock hsome).leases.later ms }
  · exact fun id hid => (h.leases id hid).later ms

theorem quiet_happen (h : SystemOk s) (happening : Happening) : Quiet s (happen s happening) := by
  cases happening with
  | pass ms => exact quiet_pass h ms
  | computer row =>
    unfold happen
    dsimp only
    split
    · exact .refl h
    · next hunlocked =>
      refine quiet_computer h (by simpa using hunlocked) _ rfl fun index operation hclaim => ?_
      split at hclaim
      · next hstate =>
        have hold := h.claim index operation hclaim
        refine ⟨?_, hold.reserved⟩
        change row.state = .booting ∨ row.state = .suspending
        rw [hstate]
        exact hold.state
      · cases hclaim
  | bots bots =>
    exact ⟨systemOk_runs h s.runs bots, fun _ hmem => hmem, fun _ hmem => hmem, rfl, fun _ hopen => hopen⟩
  | runs runs => exact quiet_runs h runs
  | renew lease expiresAt =>
    refine quiet_leases h _ fun hreserved row hrow => ?_
    obtain ⟨old, hold, rfl⟩ := mem_map.mp hrow
    have hexpired := noLiveLease h hreserved old hold
    rw [if_neg]
    · exact hexpired
    · rw [and_eq_true, decide_eq_true_eq, decide_eq_true_eq]
      omega
  | release lease =>
    exact quiet_leases h _ fun hreserved row hrow => noLiveLease h hreserved row (mem_of_mem_filter hrow)
  | heartbeat id => exact quiet_touch h isRunning
  | dismiss id => exact quiet_setStatus h _ (by decide) (by simp)
  | disconnect => exact quiet_unlock h

theorem taskOk_other (h : task.owner.updateId.isNone) : TaskOk s index task := by
  intro id hid
  rw [hid] at h
  cases h

theorem keeps_program :
    Calls.Keeps program SystemOk CallOk (fun _ _ => True) (fun call => call.isStart) InOrder where
  start := by
    intro s index call _ _ hstart
    cases call with
    | replaceStart task mode => exact working (taskOk_other hstart)
    | bootRead task replacing =>
      cases replacing with
      | none => exact working (taskOk_other hstart)
      | some x => cases hstart
    | queue | performClaim | reconcileRead | placeRead | leaseRead => exact trivial
    | _ => cases hstart
  act := fun s index call answer h hcall horder =>
    have hacted := acted h call answer hcall horder
    ⟨hacted.system, hacted.call⟩
  others := by
    intro s index call answer index' call' h hcall horder hother hcall'
    have hacted := acted h call answer hcall horder
    exact Need.kept hacted.system hacted.kept hother hcall'
  idle := fun _ _ _ _ _ _ _ _ _ _ => trivial
  environment := fun s happening h => (quiet_happen h happening).system
  environmentLocal := fun s happening index call h hcall => (quiet_happen h happening).need hcall
  environmentIdle := fun _ _ _ _ _ => trivial

/-! ### Every run -/

/-- A computer that nothing has reserved or claimed, before any of the calls. -/
def newSystem (now : ℕ) (computer : Computer) (leases : List ExecutionLease) (bots : List Bot)
    (runs : List Run) :
    Calls.State System Call where
  shared := ⟨now, { computer with maintenanceId := none, claim := none }, [], 0, leases, bots, runs, none, []⟩
  calls := []

structure Reserved (s : System) : Prop where
  /-- The replacement of an update is carried out once at most. -/
  once : ∀ id, s.history.count (.began id) ≤ 1
  /-- The provider was used by the update only that the computer was reserved for. -/
  owner : ∀ operation id, .used operation (some id) ∈ s.history → operation = .update id
  /-- No run has a live lease while the computer is reserved. -/
  leases : ∀ id, s.computer.maintenanceId = some id → NoLiveLease s
  /-- A reservation was cleared once the replacement had ended, or it never began. -/
  cleared : ∀ id earlier, .cleared id :: earlier <:+ s.history → .began id ∈ earlier → .ended id ∈ earlier
  /-- Nothing is done for an update after its reservation was cleared. -/
  past : ∀ id earlier event, event :: earlier <:+ s.history → .cleared id ∈ earlier →
    event ≠ .began id ∧ ∀ reserved, event ≠ .used (.update id) reserved

theorem count_began {history : List Event} (h : History.Ok EventOk history) (id : ℕ) :
    history.count (.began id) ≤ 1 := by
  induction history with
  | nil => exact Nat.zero_le _
  | cons event earlier ih =>
    rw [count_cons]
    split
    · next hbegan =>
      have hevent : EventOk earlier (.began id) := by
        rw [← eq_of_beq hbegan]
        exact h.1
      rw [count_eq_zero.mpr hevent.1]
    · exact ih h.2

theorem SystemOk.reserved (h : SystemOk s) : Reserved s where
  once := count_began h.history
  owner := by
    intro operation id hmem
    obtain ⟨earlier, hsuffix⟩ := History.exists_suffix hmem
    exact (h.history.of_suffix hsuffix).1 id rfl
  leases := h.leases
  cleared := fun id earlier hsuffix => h.history.of_suffix hsuffix
  past := by
    intro id earlier event hsuffix hcleared
    have hevent := h.history.of_suffix hsuffix
    refine ⟨fun hbegan => ?_, fun reserved hused => ?_⟩
    · subst hbegan
      exact hevent.2 hcleared
    · subst hused
      exact hevent.2 id rfl hcleared

theorem reservation_holds (now : ℕ) (computer : Computer) (leases : List ExecutionLease) (bots : List Bot)
    (runs : List Run) (ops : List (Calls.Op Call Answer Happening))
    (hstart : ∀ op ∈ ops, Calls.OnStarts (fun call => call.isStart = true) op)
    (horder : Run.Meets (Calls.step program) (Calls.OnActs InOrder) (newSystem now computer leases bots runs) ops) :
    Reserved (Run.after (Calls.step program) (newSystem now computer leases bots runs) ops).shared := by
  have hsystem : SystemOk (newSystem now computer leases bots runs).shared := by
    refine ⟨trivial, ?_, ?_, ?_, ?_, ?_, ?_, ?_⟩
    · exact fun event hevent => absurd hevent not_mem_nil
    · exact fun row hrow => absurd hrow not_mem_nil
    · exact fun row hrow => absurd hrow not_mem_nil
    · exact fun id hid => absurd hid not_mem_nil
    · intro index operation hclaim
      cases hclaim
    · exact fun hsome => absurd hsome Bool.false_ne_true
    · intro id hid
      cases hid
  have hfirst : Calls.Holds SystemOk CallOk (fun _ _ => True) (newSystem now computer leases bots runs) := by
    refine ⟨hsystem, ?_, fun _ _ => trivial⟩
    intro index call hcall
    cases hcall
  exact (Calls.holds_after keeps_program hfirst hstart horder).shared.reserved

/-! ### A computer of one bot -/

def bot : Bot := ⟨lit "bot", false, false, true, true, true, false⟩

def computer (isTeam : Bool) (state : ComputerState) : Computer where
  isTeam
  kind := lit "docker"
  connectionId := none
  providerRef := some (lit "machine")
  state
  maintenanceId := none
  isUserHolder := false
  controlLeaseId := none
  controlLeaseExpiresAt := none
  provisioningId := none
  updatedAt := 0
  claim := none

def idleComputer (isTeam : Bool) (state : ComputerState) : Calls.State System Call :=
  newSystem 0 (computer isTeam state) [] [bot] []

def manually (name : Text) : Task := ⟨.other name, some (lit "bot"), none, none⟩

def queueing : Call := .queue ⟨lit "bot", false, false, true⟩

def acting (index count : ℕ) : List (Calls.Op Call Answer Happening) :=
  List.replicate count (.act index .ok)

/-- An update is queued and performed: the machine is saved, destroyed and provisioned again. Its
job comes twice, and a lease and a boot are refused until it is finished. -/
def updating : List (Calls.Op Call Answer Happening) :=
  .start queueing :: acting 0 4 ++ .start (.performClaim 0) :: .start (.performClaim 0) ::
    acting 1 1 ++ acting 2 2 ++
    acting 1 5 ++ [.start (.leaseRead ⟨lit "run", lit "bot", false⟩), .act 3 .ok,
      .start (.bootRead (manually (lit "boot")) none), .act 4 .ok, .act 1 (.engine true none none)] ++ acting 1 12 ++
    [.act 1 (.provisioned ⟨lit "next", lit "docker", true⟩)] ++ acting 1 9 ++
    [.start (.leaseRead ⟨lit "run", lit "bot", false⟩)] ++ acting 5 4

theorem reservation_holds_updating :
    Reserved (Run.after (Calls.step program) (idleComputer true .running) updating).shared ∧
      (Run.after (Calls.step program) (idleComputer true .running) updating).shared.history.length = 10 ∧
      (Run.after (Calls.step program) (idleComputer true .running) updating).shared.leases.length = 1 :=
  ⟨reservation_holds 0 (computer true .running) [] [bot] [] updating (by decide +kernel) (by decide +kernel),
    by decide +kernel, by decide +kernel⟩

/-- A boot waits for the idle save of the computer. An update is queued once it is saved, and the
boot goes on with the row that it reads then. -/
def bootedWhileReserved : List (Calls.Op Call Answer Happening) :=
  [.start (.bootRead (manually (lit "boot")) none), .act 0 .ok,
    .environment (.computer (computer false .suspended)),
    .start queueing] ++ acting 1 4 ++ acting 0 4 ++ [.act 0 (.provisioned ⟨lit "machine", lit "docker", false⟩)]

/-- A lease is written after the look at the reservation, and before the look that takes it back. -/
def leasedWhileReserved : List (Calls.Op Call Answer Happening) :=
  .start (.leaseRead ⟨lit "boot", lit "bot", false⟩) :: acting 0 2 ++ .start queueing ::
    acting 1 4 ++ acting 0 1

/-- A boot outlasts its claim, and goes on after another boot has taken it over and an update was
queued. -/
def overtakenBoot : List (Calls.Op Call Answer Happening) :=
  .start (.bootRead (manually (lit "boot")) none) :: acting 0 4 ++ .environment (.pass 300001) ::
    .start (.bootRead (manually (lit "other")) none) :: acting 1 47 ++
    [.act 1 (.provisioned ⟨lit "machine", lit "docker", false⟩)] ++ acting 1 6 ++ .start queueing :: acting 2 4 ++
    [.act 0 (.provisioned ⟨lit "machine", lit "docker", false⟩)]

theorem reservation_fails :
    ¬ Reserved (Run.after (Calls.step program) (idleComputer false .suspending) bootedWhileReserved).shared ∧
      ¬ Reserved (Run.after (Calls.step program) (idleComputer true .running) leasedWhileReserved).shared ∧
      ¬ Reserved (Run.after (Calls.step program) (idleComputer false .stopped) overtakenBoot).shared := by
  refine ⟨fun h => ?_, fun h => ?_, fun h => ?_⟩
  · have howner := h.owner (.other (lit "boot")) 0 (by decide +kernel)
    cases howner
  · have hlease := h.leases 0 (by decide +kernel) ⟨lit "bot", lit "boot", 1, 300000⟩ (by decide +kernel)
    revert hlease
    decide +kernel
  · have howner := h.owner (.other (lit "boot")) 0 (by decide +kernel)
    cases howner

end ArdurBot.Maintenance
