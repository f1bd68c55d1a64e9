import ArdurBot.Computers.MaintenanceOk

/-!
# The acts on a reserved computer

Each act keeps what `MaintenanceOk` states, on the condition that leases are written to a computer
that is free, that the row is claimed by an operation that its reservation admits, and that the
provider is used while the claim stands.
-/

namespace ArdurBot.Maintenance

open List

/-- No update has reserved the computer, and no transaction is about to. -/
def IsFree (s : System) : Prop := s.computer.maintenanceId = none ∧ s.lock = none

instance (s : System) : Decidable (IsFree s) := inferInstanceAs (Decidable (_ ∧ _))

/-- An operation other than that of an update has the row under its boot or suspension. -/
def HoldsClaim (s : System) (index : ℕ) (task : Task) : Prop :=
  task.owner.updateId = none → s.computer.claim = some (index, task.operation)

instance (s : System) (index : ℕ) (task : Task) : Decidable (HoldsClaim s index task) :=
  inferInstanceAs (Decidable (_ → _))

/-- A lease that is written is on a free computer, unless it has run out when it is written. -/
def WritesFree (s : System) (answer : Answer) (matching : Bool) (now : ℕ) : Prop :=
  answer ≠ .fails → matching → s.now < now + executionLeaseMs → IsFree s

instance (s : System) (answer : Answer) (matching : Bool) (now : ℕ) :
    Decidable (WritesFree s answer matching now) :=
  inferInstanceAs (Decidable (_ → _))

/-- The row that an operation claims is free, or reserved for the operation. -/
def ClaimsOwn (s : System) (answer : Answer) (matching : Bool) (task : Task) : Prop :=
  answer ≠ .fails → matching → task.admits s.computer

instance (s : System) (answer : Answer) (matching : Bool) (task : Task) :
    Decidable (ClaimsOwn s answer matching task) :=
  inferInstanceAs (Decidable (_ → _))

def InOrder (s : System) (index : ℕ) (call : Call) (answer : Answer) : Prop :=
  match call with
  | .leaseReclaim x now => WritesFree s answer (s.leases.any (x.reclaims now)) now
  | .leaseCreate x now => WritesFree s answer (s.leases.all fun lease => lease.botId ≠ x.botId) now
  | .bootClaim x => ClaimsOwn s answer (x.matches s) x.task
  | .replaceClaim x => ClaimsOwn s answer (x.task.botId.any (x.matches s)) x.task
  | .bootUse x _ => HoldsClaim s index x.task
  | .replaceSave x => HoldsClaim s index x.task
  | .replaceDestroy x => HoldsClaim s index x.task
  | _ => True

instance (s : System) (index : ℕ) (call : Call) (answer : Answer) :
    Decidable (InOrder s index call answer) := by
  unfold InOrder
  split <;> infer_instance

structure Quiet (s s' : System) : Prop where
  system : SystemOk s'
  history : ∀ event ∈ s.history, event ∈ s'.history
  began : ∀ id, .began id ∈ s'.history → .began id ∈ s.history
  reserved : s'.computer.maintenanceId = s.computer.maintenanceId
  opened : ∀ id, Open s' id → Open s id

structure Stepped (s : System) (index : ℕ) (result : System × Call) : Prop where
  quiet : Quiet s result.1
  call : CallOk result.1 index result.2

variable {s s' s'' : System} {index id : ℕ} {task : Task} {mode : Mode}
  {replacing : Option Replacing}

theorem Quiet.refl (h : SystemOk s) : Quiet s s :=
  ⟨h, fun _ hmem => hmem, fun _ hmem => hmem, rfl, fun _ hopen => hopen⟩

section

variable (h : Quiet s s')
include h

theorem Quiet.trans (h' : Quiet s' s'') : Quiet s s'' where
  system := h'.system
  history := fun event hmem => h'.history event (h.history event hmem)
  began := fun id hmem => h.began id (h'.began id hmem)
  reserved := h'.reserved.trans h.reserved
  opened := fun id hopen => h.opened id (h'.opened id hopen)

theorem Quiet.kept : Kept index s s' where
  history := h.history
  began := fun id hmem => .inl (h.began id hmem)
  reserved := fun _ hreserved => .inl (h.reserved.trans hreserved)
  opened := fun id hopen => .inl (h.opened id hopen)

theorem Quiet.owning (hown : Owning s index id) : Owning s' index id :=
  ⟨h.history _ hown.taken, h.reserved.trans hown.reserved⟩

theorem Quiet.over (hover : Over s index id) : Over s' index id :=
  ⟨h.owning hover.toOwning, fun hbegan => h.history _ (hover.ended (h.began id hbegan))⟩

theorem Quiet.taskOk (htask : TaskOk s index task) : TaskOk s' index task :=
  fun id hid => h.owning (htask id hid)

theorem Quiet.need {need : Need} (hneed : need.Holds s index) : need.Holds s' index := by
  cases need with
  | fresh id => exact ⟨h.owning hneed.toOwning, fun hbegan => hneed.unbegun (h.began id hbegan)⟩
  | past id => exact h.over hneed
  | finishing id => exact ⟨h.history _ hneed.taken, fun hopen => h.over (hneed.past (h.opened id hopen))⟩
  | work task replacing => exact ⟨h.taskOk hneed.1, fun x hx => h.taskOk (hneed.2 x hx)⟩
  | nothing => exact trivial

end

variable {done result : System × Call} {call : Call} {matching : Bool} {data : Computer → Computer}

theorem Stepped.acted (h : Stepped s index result) : Acted s index result :=
  ⟨h.quiet.system, h.quiet.kept, h.call⟩

theorem Stepped.of_quiet (h : Quiet s s') (hcall : CallOk s index call) : Stepped s index (s', call) :=
  ⟨h, h.need hcall⟩

theorem stepped_stay (h : SystemOk s) (hcall : CallOk s index call) : Stepped s index (s, call) :=
  .of_quiet (.refl h) hcall

theorem acted_stay (h : SystemOk s) (hcall : CallOk s index call) : Acted s index (s, call) :=
  (stepped_stay h hcall).acted

theorem Stepped.after (h : Quiet s s') (hresult : Stepped s' index result) :
    Stepped s index result := ⟨h.trans hresult.quiet, hresult.call⟩

theorem stepped_awaited {thrown : System → System × Call} (h : SystemOk s)
    (hthrown : ∀ s', Quiet s s' → Stepped s index (thrown s')) (hdone : Stepped s index done)
    (answer : Answer) :
    Stepped s index (awaited s answer thrown done) := by
  cases answer with
  | fails => exact hthrown s (.refl h)
  | lost => exact hthrown done.1 hdone.quiet
  | _ => exact hdone

theorem acted_attempted {thrown : Call} (h : SystemOk s) (hthrown : CallOk s index thrown)
    (hdone : Acted s index done)
    (answer : Answer) : Acted s index (attempted s answer thrown done) := by
  cases answer with
  | fails | lost => exact acted_stay h hthrown
  | _ => exact hdone

theorem quiet_runs (h : SystemOk s) (runs : List Run) : Quiet s { s with runs } :=
  ⟨systemOk_runs h runs s.bots, fun _ hmem => hmem, fun _ hmem => hmem, rfl, fun _ hopen => hopen⟩

theorem quiet_computer (h : SystemOk s) (hlock : s.lock = none) (computer : Computer)
    (hreserved : computer.maintenanceId = s.computer.maintenanceId)
    (hclaim : ∀ index operation, computer.claim = some (index, operation) →
      ClaimOk { s with computer } operation) : Quiet s { s with computer } :=
  ⟨{ h with
      queued := fun row hrow hqueued =>
        { h.queued row hrow hqueued with reserved := hreserved.trans (h.queued row hrow hqueued).reserved }
      cleared := fun id hid hmaintenance => h.cleared id hid (hreserved.symm.trans hmaintenance)
      claim := hclaim
      lock := fun hsome => absurd hsome (by simp [hlock])
      leases := fun id hmaintenance => h.leases id (hreserved.symm.trans hmaintenance) },
    fun _ hmem => hmem, fun _ hmem => hmem, hreserved, fun _ hopen => hopen⟩

theorem eq_of_updateComputer (heq : s.updateComputer matching data = (s', true)) :
    matching ∧ { s with computer := data s.computer } = s' := by
  cases matching with
  | false => cases heq
  | true => exact ⟨rfl, (Prod.mk.inj heq).1⟩

section

variable (h : SystemOk s) (hlock : s.lock = none) (computer : Computer)
  (hreserved : computer.maintenanceId = s.computer.maintenanceId)
include h hlock hreserved

theorem quiet_unclaimed (hclaim : computer.claim = none) : Quiet s { s with computer } := by
  refine quiet_computer h hlock computer hreserved fun index operation hsome => ?_
  rw [hclaim] at hsome
  cases hsome

theorem quiet_control (hclaim : computer.claim = s.computer.claim)
    (hstate : computer.state = s.computer.state) : Quiet s { s with computer } := by
  refine quiet_computer h hlock computer hreserved fun index operation hsome => ?_
  have hold := h.claim index operation (hclaim.symm.trans hsome)
  refine ⟨?_, fun id hid => hold.reserved id (hreserved.symm.trans hid)⟩
  change computer.state = .booting ∨ computer.state = .suspending
  rw [hstate]
  exact hold.state

theorem quiet_claim (hclaim : computer.claim = some (index, task.operation))
    (hstate : computer.state = .booting ∨ computer.state = .suspending) (hadmits : task.admits s.computer) :
    Quiet s { s with computer } := by
  refine quiet_computer h hlock computer hreserved fun claimant operation hsome => ?_
  rw [hclaim] at hsome
  cases hsome
  refine ⟨hstate, fun id hid => ?_⟩
  have hsome : s.computer.maintenanceId = some id := hreserved.symm.trans hid
  unfold Task.admits at hadmits
  rw [hsome] at hadmits
  exact (of_decide_eq_true hadmits).symm

end

theorem quiet_updateComputer (h : SystemOk s) (hmatched : Quiet s { s with computer := data s.computer }) :
    Quiet s (s.updateComputer matching data).1 := by
  cases matching with
  | false => exact .refl h
  | true => exact hmatched

theorem quiet_setStatus (h : SystemOk s) (matching : ComputerUpdate → Bool) {status : UpdateStatus}
    (hqueued : status ≠ .queued)
    (hopened : (status = .running ∨ status = .interrupted) → ∀ row, matching row → row.status = .running) :
    Quiet s (s.setStatus id matching status).1 := by
  refine ⟨systemOk_setStatus _ h matching hqueued, fun _ hmem => hmem, fun _ hmem => hmem, rfl,
    fun other hopen => ?_⟩
  unfold System.setStatus at hopen
  refine open_updateUpdate ?_ ?_ hopen
  · exact fun row => rfl
  · exact fun row hmatch hstatus => .inl (hopened hstatus row hmatch)

theorem quiet_touch (h : SystemOk s) (matching : ComputerUpdate → Bool) :
    Quiet s (s.updateUpdate id matching fun row => row).1 := by
  refine ⟨systemOk_updateUpdate h ?_ ?_, fun _ hmem => hmem, fun _ hmem => hmem, rfl, fun other hopen => ?_⟩
  · exact fun row => rfl
  · exact fun row _ hqueued => hqueued
  · exact open_updateUpdate (fun _ => rfl) (fun _ _ hstatus => hstatus) hopen

theorem quiet_leases (h : SystemOk s) (leases : List ExecutionLease)
    (hlive : s.lock.isSome ∨ s.computer.maintenanceId.isSome → ∀ lease ∈ leases, lease.expiresAt ≤ s.now) :
    Quiet s { s with leases } :=
  ⟨{ h with
      queued := fun row hrow hqueued => { h.queued row hrow hqueued with }
      claim := fun index operation hclaim => (h.claim index operation hclaim).of_same rfl
      lock := fun hlock => { h.lock hlock with leases := hlive (.inl hlock) }
      leases := fun id hmaintenance => hlive (.inr (Option.isSome_iff_exists.mpr ⟨id, hmaintenance⟩)) },
    fun _ hmem => hmem, fun _ hmem => hmem, rfl, fun _ hopen => hopen⟩

theorem quiet_record {event : Event} (h : SystemOk (s.record event))
    (hbegan : ∀ id, event ≠ .began id) : Quiet s (s.record event) := by
  refine ⟨h, fun _ hmem => mem_cons_of_mem _ hmem, fun id hmem => ?_, rfl, fun _ hopen => hopen⟩
  obtain heq | hmem := mem_cons.mp hmem
  · exact absurd heq.symm (hbegan id)
  · exact hmem

theorem quiet_use (h : SystemOk s) (htask : TaskOk s index task) (hclaim : HoldsClaim s index task) :
    Quiet s (s.use task) := by
  refine quiet_record
    (systemOk_record h ?_ (fun _ => nofun) (fun _ _ _ _ => nofun) (fun _ => nofun)) (fun _ => nofun)
  cases hid : task.owner.updateId with
  | none =>
    have hother : ∀ id, task.operation ≠ .update id := by
      intro id
      unfold Task.operation
      cases howner : task.owner <;> simp [howner, Owner.updateId] at hid ⊢
    exact ⟨(h.claim _ _ (hclaim hid)).reserved, fun id hid => absurd hid (hother id)⟩
  | some id =>
    have hown := htask id hid
    have hoperation : task.operation = .update id := by
      unfold Task.operation
      cases howner : task.owner <;> simp [howner, Owner.updateId] at hid ⊢ <;> exact hid
    refine ⟨fun other hother => ?_, fun other hother hcleared => ?_⟩
    · rw [hown.reserved] at hother
      cases hother
      exact hoperation
    · rw [hoperation] at hother
      cases hother
      exact h.cleared id hcleared hown.reserved

theorem quiet_ended (h : SystemOk s) (hown : .taken index id ∈ s.history) : Quiet s (s.record (.ended id)) :=
  quiet_record (systemOk_record_owned h hown trivial rfl (fun _ => nofun)) (fun _ => nofun)

theorem stepped_settle (h : SystemOk s) (htask : TaskOk s index task) (ok : Bool) :
    Stepped s index (settle s task ok) := by
  unfold settle
  cases howner : task.owner with
  | other name => exact stepped_stay h (by cases ok <;> exact trivial)
  | update id =>
    have hown := htask id (by rw [howner]; rfl)
    have hquiet := quiet_ended h hown.taken
    have hover : Over (s.record (.ended id)) index id := ⟨hquiet.owning hown, fun _ => mem_cons_self⟩
    exact ⟨hquiet, hover.taken, fun _ => hover⟩
  | placement x =>
    have hown := htask x.updateId (by rw [howner]; rfl)
    have hquiet := quiet_ended h hown.taken
    have hover : Over (s.record (.ended x.updateId)) index x.updateId := ⟨hquiet.owning hown, fun _ => mem_cons_self⟩
    refine ⟨hquiet, ?_⟩
    cases ok <;> exact hover

theorem stepped_refuse (htask : TaskOk s index task) (s' : System) (h : Quiet s s') :
    Stepped s index (refuse task s') := (stepped_settle h.system (h.taskOk htask) false).after h

/-- A replacement, or provisioning that may be the end of one. -/
def Working (s : System) (index : ℕ) (task : Task) (replacing : Option Replacing) : Prop :=
  (Need.work task replacing).Holds s index

theorem working (htask : TaskOk s index task) : Working s index task none :=
  ⟨htask, fun x hx => by cases hx⟩

theorem stepped_bootThrown (hwork : Working s index task replacing) (s' : System) (h : Quiet s s') :
    Stepped s index (bootThrown replacing s') := by
  cases replacing with
  | none => exact .of_quiet h trivial
  | some x => exact Stepped.of_quiet h (working (hwork.2 x rfl))

theorem stepped_booted (hwork : Working s index task replacing) (h : Quiet s s') :
    Stepped s index (booted s' replacing) := by
  cases replacing with
  | none => exact .of_quiet h trivial
  | some x => exact (stepped_settle h.system (h.taskOk (hwork.2 x rfl)) true).after h

theorem quiet_progress (h : SystemOk s) (task : Task) (answer : Answer) :
    Quiet s (progress s task answer).1 := by
  unfold progress
  cases task.owner with
  | other name => exact .refl h
  | update id =>
    dsimp only
    split
    · exact .refl h
    · exact quiet_touch h isRunning
  | placement x =>
    dsimp only
    split
    · exact .refl h
    · split
      · exact .refl h
      · next renewed heq =>
        have hrenewed : Quiet s renewed := by
          rw [← (Prod.mk.inj heq).1]
          exact quiet_runs h _
        exact hrenewed.trans (quiet_touch hrenewed.system fun _ => true)

section

variable (h : SystemOk s)
include h

section

variable (hwork : Working s index task replacing)
include hwork

theorem stepped_bootObserve : Stepped s index (bootObserve s task replacing) := by
  unfold bootObserve
  dsimp only
  split
  · split
    · exact stepped_stay h hwork
    · exact stepped_bootThrown hwork s (.refl h)
  · exact stepped_stay h hwork
  · exact stepped_stay h hwork

theorem stepped_bootRead : Stepped s index (bootRead s task replacing) := by
  unfold bootRead
  split
  · exact stepped_bootThrown hwork s (.refl h)
  · split
    · exact stepped_stay h hwork
    · exact stepped_bootObserve h hwork

theorem stepped_bootReread : Stepped s index (bootReread s task replacing) := by
  unfold bootReread
  split
  · exact stepped_bootThrown hwork s (.refl h)
  · exact stepped_bootObserve h hwork

theorem stepped_bootWaited (seen : Seen) : Stepped s index (bootWaited s task replacing seen) := by
  have hgoesOn : ∀ call : Call, call.need = .work task replacing → Stepped s index (s, call) := by
    intro call hneed
    refine stepped_stay h ?_
    rw [CallOk, hneed]
    exact hwork
  have hthrown := stepped_bootThrown hwork s (.refl h)
  unfold bootWaited
  dsimp only
  split
  · split
    · exact hgoesOn _ rfl
    · exact hthrown
  · split
    · exact hgoesOn _ rfl
    · exact hthrown
  · split
    · exact hthrown
    · exact hgoesOn _ rfl
  · exact hgoesOn _ rfl

theorem stepped_bootWait (seen : Seen) (attempts : ℕ) :
    Stepped s index (bootWait s task replacing seen attempts) := by
  unfold bootWait
  split
  · exact stepped_bootWaited h hwork seen
  · split
    · exact stepped_bootWaited h hwork seen
    · exact stepped_stay h hwork

end

section

variable {x : Booting} (hwork : Working s index x.task x.replacing)
include hwork

theorem stepped_bootClaim (hlock : s.lock = none)
    (hclaim : x.matches s → x.task.admits s.computer) : Stepped s index (bootClaim s index x) := by
  unfold bootClaim
  split
  · exact stepped_bootThrown hwork s (.refl h)
  · next claimed heq =>
    obtain ⟨hmatches, rfl⟩ := eq_of_updateComputer heq
    refine .of_quiet ?_ ?_
    · exact quiet_claim h hlock _ rfl rfl (.inl rfl) (hclaim hmatches)
    · exact hwork

theorem stepped_bootUse (hclaim : HoldsClaim s index x.task)
    (stage : Stage) (answer : Answer) : Stepped s index (bootUse s x stage answer) := by
  have hquiet := quiet_use h hwork.1 hclaim
  have hnext : ∀ call : Call, call.need = .work x.task x.replacing → Stepped s index (s.use x.task, call) := by
    intro call hneed
    refine .of_quiet hquiet ?_
    rw [CallOk, hneed]
    exact hwork
  unfold bootUse
  split
  · exact hnext _ rfl
  · split <;> exact hnext _ rfl

theorem stepped_bootActivate (hlock : s.lock = none) (stamp : ℕ) :
    Stepped s index (bootActivate s index x stamp) := by
  unfold bootActivate
  split
  · exact stepped_stay h hwork
  · next activated heq =>
    obtain ⟨-, rfl⟩ := eq_of_updateComputer heq
    split
    · refine .of_quiet ?_ ?_
      · exact quiet_unclaimed h hlock _ rfl rfl
      · exact hwork
    · exact stepped_booted hwork (quiet_unclaimed h hlock _ rfl rfl)

theorem stepped_bootFail (hlock : s.lock = none) (rollbackFailed : Bool) (answer : Answer) : Stepped s index
      (bootThrown x.replacing (if answer = .fails then s else bootFail s index x rollbackFailed)) := by
  refine stepped_bootThrown hwork _ ?_
  split
  · exact .refl h
  · exact quiet_updateComputer h (quiet_unclaimed h hlock _ rfl rfl)

end

section

variable (htask : TaskOk s index task)
include htask

theorem stepped_replaceObserve : Stepped s index (replaceObserve s task mode) := by
  unfold replaceObserve
  dsimp only
  split
  · exact stepped_refuse htask s (.refl h)
  · split
    · split
      · exact stepped_stay h (working htask)
      · exact stepped_refuse htask s (.refl h)
    · exact stepped_stay h (working htask)
    · exact stepped_stay h (working htask)

theorem stepped_replaceControl : Stepped s index (replaceControl s task mode) := by
  unfold replaceControl
  split
  · exact stepped_stay h (working htask)
  · exact stepped_replaceObserve h htask

theorem stepped_replaceRead : Stepped s index (replaceRead s task mode) := by
  unfold replaceRead
  split
  · exact stepped_refuse htask s (.refl h)
  · split
    · exact stepped_stay h (working htask)
    · exact stepped_replaceControl h htask

theorem stepped_replaceReread (expired : Bool) : Stepped s index (replaceReread s task mode expired) := by
  unfold replaceReread
  split
  · exact stepped_refuse htask s (.refl h)
  · exact stepped_replaceControl h htask

theorem stepped_replaceCleared : Stepped s index (replaceCleared s task mode) := by
  unfold replaceCleared
  split
  · exact stepped_refuse htask s (.refl h)
  · exact stepped_replaceObserve h htask

theorem stepped_replaceForeign (existing : Computer) :
    Stepped s index (replaceForeign s task mode existing) := by
  unfold replaceForeign
  split
  · exact stepped_refuse htask s (.refl h)
  · split
    · exact stepped_stay h (working htask)
    · exact stepped_refuse htask s (.refl h)

theorem stepped_replaceStart : Stepped s index (replaceStart s task mode) := by
  unfold replaceStart
  split
  · split
    · exact stepped_stay h (working htask)
    · exact stepped_refuse htask s (.refl h)
  · exact stepped_stay h (working htask)

end

section

variable {x : Replacing} (htask : TaskOk s index x.task)
include htask

theorem stepped_replaceClaim (hlock : s.lock = none)
    (hclaim : x.task.botId.any (x.matches s) → x.task.admits s.computer) :
    Stepped s index (replaceClaim s index x) := by
  unfold replaceClaim
  split
  · exact stepped_refuse htask s (.refl h)
  · next claimed heq =>
    obtain ⟨hmatches, rfl⟩ := eq_of_updateComputer heq
    refine .of_quiet ?_ ?_
    · exact quiet_claim h hlock _ rfl rfl (.inr rfl) (hclaim hmatches)
    · exact working htask

theorem stepped_replaceCheck : Stepped s index (replaceCheck s x) := by
  unfold replaceCheck
  split
  · exact stepped_stay h (working htask)
  · split <;> exact stepped_stay h (working htask)

omit h in
theorem saveFailed_ok : CallOk s index (saveFailed x) := by
  unfold saveFailed
  split <;> exact working htask

theorem stepped_replaceStopped (hlock : s.lock = none) : Stepped s index (replaceStopped s x) := by
  unfold replaceStopped
  split
  · exact stepped_stay h (working htask)
  · next stopped heq =>
    obtain ⟨-, rfl⟩ := eq_of_updateComputer heq
    refine .of_quiet ?_ ⟨htask, fun y hy => ?_⟩
    · exact quiet_unclaimed h hlock _ rfl rfl
    · cases hy
      exact htask

theorem stepped_replaceCatch (hlock : s.lock = none) (answer : Answer) :
    Stepped s index (refuse x.task (if answer = .fails then s else replaceCatch s x)) := by
  refine stepped_refuse htask _ ?_
  split
  · exact .refl h
  · exact quiet_updateComputer h (quiet_unclaimed h hlock _ rfl rfl)

end

theorem noLiveLease (hreserved : s.lock.isSome ∨ s.computer.maintenanceId.isSome) : NoLiveLease s := by
  obtain hlock | hmaintenance := hreserved
  · exact (h.lock hlock).leases
  · obtain ⟨id, hid⟩ := Option.isSome_iff_exists.mp hmaintenance
    exact h.leases id hid

theorem stepped_leaseReclaim (x : LeaseInput) (now : ℕ)
    (hfree : s.leases.any (x.reclaims now) → s.now < now + executionLeaseMs → IsFree s) :
    Stepped s index (leaseReclaim s x now) := by
  unfold leaseReclaim
  split
  · exact stepped_stay h trivial
  · next lease hfind =>
    refine .of_quiet (quiet_leases h _ fun hreserved row hrow => ?_) trivial
    obtain ⟨old, hmem, rfl⟩ := mem_map.mp hrow
    split
    · next hmatch =>
      by_contra hlive
      have hlate : s.now < now + executionLeaseMs := Nat.lt_of_not_le hlive
      obtain ⟨hmaintenance, hlock⟩ := hfree (any_eq_true.mpr ⟨old, hmem, hmatch⟩) hlate
      simp [hmaintenance, hlock] at hreserved
    · exact noLiveLease h hreserved old hmem

theorem stepped_leaseCreate (x : LeaseInput) (now : ℕ)
    (hfree : (s.leases.all fun lease => lease.botId ≠ x.botId) → s.now < now + executionLeaseMs → IsFree s) :
    Stepped s index (leaseCreate s x now) := by
  unfold leaseCreate
  split
  · exact stepped_stay h trivial
  · next hnone =>
    refine .of_quiet (quiet_leases h _ fun hreserved row hrow => ?_) trivial
    obtain hmem | hnew := mem_append.mp hrow
    · exact noLiveLease h hreserved row hmem
    · rw [mem_singleton.mp hnew]
      by_contra hlive
      have hlate : s.now < now + executionLeaseMs := Nat.lt_of_not_le hlive
      obtain ⟨hmaintenance, hlock⟩ := hfree (by simpa using hnone) hlate
      simp [hmaintenance, hlock] at hreserved

end

end ArdurBot.Maintenance
