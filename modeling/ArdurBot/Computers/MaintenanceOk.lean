import ArdurBot.Computers.Maintenance

/-!
# What a reservation keeps

An update is taken up by one call, which begins its replacement once and clears its reservation
after that ended. What the calls of others do leaves all of this as it is.
-/

namespace ArdurBot.Maintenance

open List

def EventOk (earlier : List Event) : Event → Prop
  | .taken _ id => ∀ call, .taken call id ∉ earlier
  | .began id => .began id ∉ earlier ∧ .cleared id ∉ earlier
  | .used operation reserved =>
    (∀ id, reserved = some id → operation = .update id) ∧ ∀ id, operation = .update id → .cleared id ∉ earlier
  | .ended _ => True
  | .cleared id => .began id ∈ earlier → .ended id ∈ earlier

theorem taken_unique {history : List Event} (h : History.Ok EventOk history) {a b id : ℕ}
    (ha : .taken a id ∈ history) (hb : .taken b id ∈ history) : a = b := by
  induction history with
  | nil => cases ha
  | cons event earlier ih =>
    obtain ⟨hevent, hearlier⟩ := h
    obtain heqa | ha := mem_cons.mp ha
    · obtain heqb | hb := mem_cons.mp hb
      · rw [← heqa] at heqb
        exact (Event.taken.inj heqb).1.symm
      · rw [← heqa] at hevent
        exact absurd hb (hevent b)
    · obtain heqb | hb := mem_cons.mp hb
      · rw [← heqb] at hevent
        exact absurd ha (hevent a)
      · exact ih hearlier ha hb

def Event.about : Event → Option ℕ
  | .taken _ id => some id
  | .began id => some id
  | .used _ _ => none
  | .ended id => some id
  | .cleared id => some id

def NoLiveLease (s : System) : Prop := ∀ lease ∈ s.leases, lease.expiresAt ≤ s.now

structure QueuedOk (s : System) (id : ℕ) : Prop where
  reserved : s.computer.maintenanceId = some id
  untaken : ∀ call, .taken call id ∉ s.history
  unbegun : .began id ∉ s.history

structure ClaimOk (s : System) (operation : Operation) : Prop where
  state : s.computer.state = .booting ∨ s.computer.state = .suspending
  reserved : ∀ id, s.computer.maintenanceId = some id → operation = .update id

/-- A transaction may reserve the computer once it commits. -/
structure LockOk (s : System) : Prop where
  unreserved : s.computer.maintenanceId = none
  unclaimed : s.computer.claim = none
  leases : NoLiveLease s

structure SystemOk (s : System) : Prop where
  history : History.Ok EventOk s.history
  ids : ∀ event ∈ s.history, ∀ id, event.about = some id → id < s.nextUpdate
  rows : ∀ row ∈ s.updates, row.id < s.nextUpdate
  queued : ∀ row ∈ s.updates, row.status = .queued → QueuedOk s row.id
  cleared : ∀ id, .cleared id ∈ s.history → s.computer.maintenanceId ≠ some id
  claim : ∀ index operation, s.computer.claim = some (index, operation) → ClaimOk s operation
  lock : s.lock.isSome → LockOk s
  leases : ∀ id, s.computer.maintenanceId = some id → NoLiveLease s

def Open (s : System) (id : ℕ) : Prop :=
  ∃ row ∈ s.updates, row.id = id ∧ (row.status = .running ∨ row.status = .interrupted)

/-- The call carries out the update, for which the computer is reserved. -/
structure Owning (s : System) (index id : ℕ) : Prop where
  taken : .taken index id ∈ s.history
  reserved : s.computer.maintenanceId = some id

structure Fresh (s : System) (index id : ℕ) : Prop extends Owning s index id where
  unbegun : .began id ∉ s.history

structure Over (s : System) (index id : ℕ) : Prop extends Owning s index id where
  ended : .began id ∈ s.history → .ended id ∈ s.history

/-- An update that is not finished yet is over. -/
structure Finishing (s : System) (index id : ℕ) : Prop where
  taken : .taken index id ∈ s.history
  past : Open s id → Over s index id

def TaskOk (s : System) (index : ℕ) (task : Task) : Prop :=
  ∀ id, task.owner.updateId = some id → Owning s index id

inductive Need where
  | fresh (id : ℕ)
  | past (id : ℕ)
  | finishing (id : ℕ)
  /-- A replacement, or provisioning that may be the end of one. -/
  | work (task : Task) (replacing : Option Replacing)
  | nothing

def Need.Holds (s : System) (index : ℕ) : Need → Prop
  | .fresh id => Fresh s index id
  | .past id => Over s index id
  | .finishing id => Finishing s index id
  | .work task replacing => TaskOk s index task ∧ ∀ x, replacing = some x → TaskOk s index x.task
  | .nothing => True

def Call.need : Call → Need
  | .performRead id => .fresh id
  | .performBot id _ _ => .fresh id
  | .performEngine id _ _ => .fresh id
  | .performFinish id _ => .finishing id
  | .performSleep id => .finishing id
  | .placeTarget x => .fresh x.updateId
  | .placeMoved x => .past x.updateId
  | .placeFail x => .past x.updateId
  | .placeFailRun x => .past x.updateId
  | .placeFinally x => .past x.updateId
  | .replaceStart task _ => .work task none
  | .replaceRead task _ => .work task none
  | .replaceExpire task _ => .work task none
  | .replaceReread task _ _ => .work task none
  | .replaceClear task _ => .work task none
  | .replaceCleared task _ => .work task none
  | .replaceForeign task _ _ => .work task none
  | .replaceIdle task _ _ => .work task none
  | .replaceEngine task _ _ => .work task none
  | .replaceClaim x => .work x.task none
  | .replaceCheck x => .work x.task none
  | .replaceUndo x => .work x.task none
  | .replaceSaving x => .work x.task none
  | .replaceSave x => .work x.task none
  | .replaceRecord x => .work x.task none
  | .replaceRecreating x => .work x.task none
  | .replaceDestroy x => .work x.task none
  | .replaceStopped x => .work x.task none
  | .replaceCatch x => .work x.task none
  | .bootRead task replacing => .work task replacing
  | .bootExpire task replacing => .work task replacing
  | .bootReread task replacing => .work task replacing
  | .bootForeign task replacing _ => .work task replacing
  | .bootWait task replacing _ _ => .work task replacing
  | .bootReady task replacing _ _ => .work task replacing
  | .bootEngine task replacing _ _ => .work task replacing
  | .bootClaim x => .work x.task x.replacing
  | .bootProgress x _ => .work x.task x.replacing
  | .bootUse x _ => .work x.task x.replacing
  | .bootActivate x _ => .work x.task x.replacing
  | .bootClear x _ => .work x.task x.replacing
  | .bootUndo x => .work x.task x.replacing
  | .bootFail x _ => .work x.task x.replacing
  | _ => .nothing

def CallOk (s : System) (index : ℕ) (call : Call) : Prop := call.need.Holds s index

/-- The act of a call touches the updates that it has taken up only. -/
structure Kept (index : ℕ) (s s' : System) : Prop where
  history : ∀ event ∈ s.history, event ∈ s'.history
  began : ∀ id, .began id ∈ s'.history → .began id ∈ s.history ∨ .taken index id ∈ s'.history
  reserved : ∀ id, s.computer.maintenanceId = some id →
    s'.computer.maintenanceId = some id ∨ .taken index id ∈ s'.history
  opened : ∀ id, Open s' id → Open s id ∨ .taken index id ∈ s'.history

structure Acted (s : System) (index : ℕ) (result : System × Call) : Prop where
  system : SystemOk result.1
  kept : Kept index s result.1
  call : CallOk result.1 index result.2

section

variable {s s' s'' : System} {index index' id : ℕ} {task : Task} {replacing : Option Replacing}

theorem Kept.of_same (hhistory : s'.history = s.history)
    (hreserved : s'.computer.maintenanceId = s.computer.maintenanceId)
    (hopened : ∀ id, Open s' id → Open s id) :
    Kept index s s' where
  history := fun _ hevent => hhistory ▸ hevent
  began := fun _ hbegan => .inl (hhistory ▸ hbegan)
  reserved := fun _ hmaintenance => .inl (hreserved.trans hmaintenance)
  opened := fun id hopen => .inl (hopened id hopen)

theorem Kept.refl (index : ℕ) (s : System) : Kept index s s := .of_same rfl rfl fun _ hopen => hopen

theorem Kept.trans (h : Kept index s s') (h' : Kept index s' s'') : Kept index s s'' where
  history := fun event hevent => h'.history event (h.history event hevent)
  began := by
    intro id hbegan
    obtain hbegan | htaken := h'.began id hbegan
    · exact (h.began id hbegan).imp_right fun htaken => h'.history _ htaken
    · exact .inr htaken
  reserved := by
    intro id hmaintenance
    obtain hkept | htaken := h.reserved id hmaintenance
    · exact h'.reserved id hkept
    · exact .inr (h'.history _ htaken)
  opened := by
    intro id hopen
    obtain hopen | htaken := h'.opened id hopen
    · exact (h.opened id hopen).imp_right fun htaken => h'.history _ htaken
    · exact .inr htaken

section

variable (hs' : SystemOk s') (hkept : Kept index s s') (hother : index' ≠ index)
include hs' hkept hother

theorem not_taken (htaken : .taken index' id ∈ s.history) : .taken index id ∉ s'.history := by
  intro hown
  exact hother (taken_unique hs'.history (hkept.history _ htaken) hown)

theorem Owning.kept (h : Owning s index' id) : Owning s' index' id :=
  ⟨hkept.history _ h.taken, (hkept.reserved id h.reserved).resolve_right (not_taken hs' hkept hother h.taken)⟩

theorem Fresh.kept (h : Fresh s index' id) : Fresh s' index' id := by
  refine ⟨h.toOwning.kept hs' hkept hother, fun hbegan => h.unbegun ?_⟩
  exact (hkept.began id hbegan).resolve_right (not_taken hs' hkept hother h.taken)

theorem Over.kept (h : Over s index' id) : Over s' index' id := by
  refine ⟨h.toOwning.kept hs' hkept hother, fun hbegan => hkept.history _ (h.ended ?_)⟩
  exact (hkept.began id hbegan).resolve_right (not_taken hs' hkept hother h.taken)

theorem Finishing.kept (h : Finishing s index' id) : Finishing s' index' id := by
  refine ⟨hkept.history _ h.taken, fun hopen => ?_⟩
  have hbefore := (hkept.opened id hopen).resolve_right (not_taken hs' hkept hother h.taken)
  exact (h.past hbefore).kept hs' hkept hother

theorem TaskOk.kept (h : TaskOk s index' task) : TaskOk s' index' task :=
  fun id hid => (h id hid).kept hs' hkept hother

theorem Need.kept {need : Need} (h : need.Holds s index') : need.Holds s' index' := by
  cases need with
  | fresh id => exact Fresh.kept hs' hkept hother h
  | past id => exact Over.kept hs' hkept hother h
  | finishing id => exact Finishing.kept hs' hkept hother h
  | work task replacing =>
    obtain ⟨htask, hreplacing⟩ := h
    exact ⟨htask.kept hs' hkept hother, fun x hx => (hreplacing x hx).kept hs' hkept hother⟩
  | nothing => exact trivial

end

theorem ClaimOk.of_same {operation : Operation} (h : ClaimOk s operation)
    (hcomputer : s'.computer = s.computer) :
    ClaimOk s' operation := by
  refine ⟨?_, ?_⟩
  · rw [hcomputer]
    exact h.state
  · rw [hcomputer]
    exact h.reserved

theorem systemOk_runs (h : SystemOk s) (runs : List Run) (bots : List Bot) :
    SystemOk { s with runs, bots } where
  __ := h
  queued := fun row hrow hqueued => { h.queued row hrow hqueued with }
  claim := fun index operation hclaim => (h.claim index operation hclaim).of_same rfl
  lock := fun hlock => { h.lock hlock with }

variable {event : Event} {matching : ComputerUpdate → Bool} {data : ComputerUpdate → ComputerUpdate}
  {row : ComputerUpdate} {status : UpdateStatus}

theorem systemOk_record (h : SystemOk s) (hevent : EventOk s.history event)
    (hid : ∀ id, event.about = some id → id < s.nextUpdate)
    (hqueued : ∀ row ∈ s.updates, row.status = .queued → ∀ id, event.about = some id → id ≠ row.id)
    (hcleared : ∀ id, event = .cleared id → s.computer.maintenanceId ≠ some id) :
    SystemOk (s.record event) where
  history := ⟨hevent, h.history⟩
  ids := by
    intro other hother
    obtain rfl | hother := mem_cons.mp hother
    · exact hid
    · exact h.ids other hother
  rows := h.rows
  queued := by
    intro row hrow hstatus
    have hrowOk := h.queued row hrow hstatus
    refine ⟨hrowOk.reserved, fun call hmem => ?_, fun hmem => ?_⟩
    · obtain heq | hmem := mem_cons.mp hmem
      · exact hqueued row hrow hstatus row.id (heq ▸ rfl) rfl
      · exact hrowOk.untaken call hmem
    · obtain heq | hmem := mem_cons.mp hmem
      · exact hqueued row hrow hstatus row.id (heq ▸ rfl) rfl
      · exact hrowOk.unbegun hmem
  cleared := by
    intro id hmem
    obtain heq | hmem := mem_cons.mp hmem
    · exact hcleared id heq.symm
    · exact h.cleared id hmem
  claim := fun index operation hclaim => (h.claim index operation hclaim).of_same rfl
  lock := fun hlock => { h.lock hlock with }
  leases := h.leases

theorem systemOk_record_owned (h : SystemOk s) (hown : .taken index id ∈ s.history)
    (hevent : EventOk s.history event)
    (habout : event.about = some id)
    (hcleared : ∀ id, event = .cleared id → s.computer.maintenanceId ≠ some id) :
    SystemOk (s.record event) := by
  refine systemOk_record h hevent ?_ ?_ hcleared
  · intro other hother
    rw [habout] at hother
    cases hother
    exact h.ids _ hown id rfl
  · intro row hrow hqueued other hother hsame
    rw [habout] at hother
    cases hother
    rw [hsame] at hown
    exact (h.queued row hrow hqueued).untaken index hown

theorem kept_record (event : Event) (hbegan : ∀ id, event = .began id → .taken index id ∈ s.history) :
    Kept index s (s.record event) where
  history := fun _ hmem => mem_cons_of_mem _ hmem
  began := by
    intro id hmem
    obtain heq | hmem := mem_cons.mp hmem
    · exact .inr (mem_cons_of_mem _ (hbegan id heq.symm))
    · exact .inl hmem
  reserved := fun _ hmaintenance => .inl hmaintenance
  opened := fun _ hopen => .inl hopen

theorem systemOk_updates (h : SystemOk s) (updates : List ComputerUpdate)
    (hrows : ∀ row ∈ updates, ∃ old ∈ s.updates, old.id = row.id ∧ (row.status = .queued → old.status = .queued)) :
    SystemOk { s with updates } where
  __ := h
  rows := by
    intro row hrow
    obtain ⟨old, hold, hid, -⟩ := hrows row hrow
    rw [← hid]
    exact h.rows old hold
  queued := by
    intro row hrow hqueued
    obtain ⟨old, hold, hid, hstatus⟩ := hrows row hrow
    rw [← hid]
    exact { h.queued old hold (hstatus hqueued) with }
  claim := fun index operation hclaim => (h.claim index operation hclaim).of_same rfl
  lock := fun hlock => { h.lock hlock with }

/-- A row after a statement is one that did not match, or what the statement made of one that
did. -/
theorem mem_updateUpdate (hdata : ∀ row, (data row).id = row.id)
    (hrow : row ∈ (s.updateUpdate id matching data).1.updates) :
    ∃ old ∈ s.updates, old.id = row.id ∧
      ((row = old ∧ ¬ (old.id = id ∧ matching old)) ∨
        (old.id = id ∧ matching old ∧ row.status = (data old).status)) := by
  obtain ⟨old, hold, rfl⟩ := mem_map.mp hrow
  refine ⟨old, hold, ?_⟩
  by_cases hmatch : old.id = id ∧ matching old
  · rw [if_pos (by simpa using hmatch)]
    exact ⟨(hdata old).symm, .inr ⟨hmatch.1, hmatch.2, rfl⟩⟩
  · rw [if_neg (by simpa using hmatch)]
    exact ⟨rfl, .inl ⟨rfl, hmatch⟩⟩

theorem systemOk_updateUpdate (h : SystemOk s) (hdata : ∀ row, (data row).id = row.id)
    (hqueued : ∀ row, matching row → (data row).status = .queued → row.status = .queued) :
    SystemOk (s.updateUpdate id matching data).1 := by
  refine systemOk_updates h _ ?_
  intro row hrow
  obtain ⟨old, hold, hid, ⟨rfl, -⟩ | ⟨-, hmatch, hstatus⟩⟩ := mem_updateUpdate hdata hrow
  · exact ⟨row, hold, rfl, fun hq => hq⟩
  · exact ⟨old, hold, hid, fun hq => hqueued old hmatch (hstatus ▸ hq)⟩

theorem open_updateUpdate (hdata : ∀ row, (data row).id = row.id)
    (hopened : ∀ row, matching row → ((data row).status = .running ∨ (data row).status = .interrupted) →
      row.status = .running ∨ row.status = .interrupted) {other : ℕ} (hopen :
      Open (s.updateUpdate id matching data).1 other) :
    Open s other := by
  obtain ⟨row, hrow, hid, hstatus⟩ := hopen
  obtain ⟨old, hold, hsame, ⟨rfl, -⟩ | ⟨-, hmatch, hdata⟩⟩ := mem_updateUpdate hdata hrow
  · exact ⟨row, hold, hid, hstatus⟩
  · exact ⟨old, hold, hsame.trans hid, hopened old hmatch (hdata ▸ hstatus)⟩

theorem mem_setStatus (hrow : row ∈ (s.setStatus id matching status).1.updates) :
    ∃ old ∈ s.updates, old.id = row.id ∧
      ((row = old ∧ ¬ (old.id = id ∧ matching old)) ∨ (old.id = id ∧ matching old ∧ row.status = status)) := by
  unfold System.setStatus at hrow
  refine mem_updateUpdate ?_ hrow
  exact fun _ => rfl

variable (id) in
theorem systemOk_setStatus (h : SystemOk s) (matching : ComputerUpdate → Bool) (hstatus : status ≠ .queued) :
    SystemOk (s.setStatus id matching status).1 :=
  systemOk_updateUpdate h (fun _ => rfl) fun _ _ hqueued => absurd hqueued hstatus

theorem systemOk_clear (h : SystemOk s) (hlock : s.lock = none) (hover : Over s index id) :
    SystemOk (s.clearReservation id) := by
  unfold System.clearReservation
  rw [if_pos hover.reserved]
  have hunqueued : ∀ row ∈ s.updates, row.status ≠ .queued := by
    intro row hrow hqueued
    have hrowOk := h.queued row hrow hqueued
    have hsame : id = row.id := Option.some.inj (hover.reserved.symm.trans hrowOk.reserved)
    exact hrowOk.untaken index (hsame ▸ hover.taken)
  constructor
  · exact ⟨hover.ended, h.history⟩
  · intro event hevent
    obtain rfl | hevent := mem_cons.mp hevent
    · intro other hother
      cases hother
      exact h.ids _ hover.taken id rfl
    · exact h.ids event hevent
  · exact h.rows
  · exact fun row hrow hqueued => absurd hqueued (hunqueued row hrow)
  · exact fun other _ => nofun
  · intro index operation hclaim
    exact ⟨(h.claim index operation hclaim).state, nofun⟩
  · exact fun hsome => absurd hsome (by simp [hlock])
  · exact nofun

theorem kept_clear (hown : .taken index id ∈ s.history) : Kept index s (s.clearReservation id) := by
  unfold System.clearReservation
  split
  · next hreserved =>
    refine ⟨fun _ hmem => mem_cons_of_mem _ hmem, fun other hmem => ?_, fun other hother => ?_,
      fun _ hopen => .inl hopen⟩
    · obtain heq | hmem := mem_cons.mp hmem
      · cases heq
      · exact .inl hmem
    · rw [hreserved] at hother
      cases hother
      exact .inr (mem_cons_of_mem _ hown)
  · exact .refl _ _

theorem systemOk_reserve (h : SystemOk s) (hlock : s.lock.isSome) (updates : List ComputerUpdate)
    (row : ComputerUpdate) (hid : row.id = s.nextUpdate)
    (hrows : ∀ row ∈ updates, ∃ old ∈ s.updates, old.id = row.id ∧ (row.status = .queued → old.status = .queued)) :
    SystemOk (s.reserve updates row) := by
  have hfree := h.lock hlock
  have hunqueued : ∀ old ∈ s.updates, old.status ≠ .queued := by
    intro old hold hqueued
    have hreserved := (h.queued old hold hqueued).reserved
    rw [hfree.unreserved] at hreserved
    cases hreserved
  have hnew : ∀ event ∈ s.history, event.about ≠ some s.nextUpdate := by
    intro event hevent habout
    have := h.ids event hevent _ habout
    omega
  constructor
  · exact h.history
  · intro event hevent other hother
    exact Nat.lt_succ_of_lt (h.ids event hevent other hother)
  · intro other hother
    obtain hother | hother := mem_append.mp hother
    · obtain ⟨old, hold, hsame, -⟩ := hrows other hother
      rw [← hsame]
      exact Nat.lt_succ_of_lt (h.rows old hold)
    · rw [mem_singleton.mp hother, hid]
      exact Nat.lt_succ_self _
  · intro other hother hqueued
    obtain hother | hother := mem_append.mp hother
    · obtain ⟨old, hold, -, hstatus⟩ := hrows other hother
      exact absurd (hstatus hqueued) (hunqueued old hold)
    · rw [mem_singleton.mp hother, hid]
      exact ⟨rfl, fun call hmem => hnew _ hmem rfl, fun hmem => hnew _ hmem rfl⟩
  · intro other hmem heq
    cases heq
    exact hnew _ hmem rfl
  · intro index operation hclaim
    rw [show (s.reserve updates row).computer.claim = s.computer.claim from rfl, hfree.unclaimed] at hclaim
    cases hclaim
  · exact fun hsome => absurd hsome Bool.false_ne_true
  · exact fun _ _ => hfree.leases

theorem kept_reserve (hfree : s.computer.maintenanceId = none) (updates : List ComputerUpdate)
    (row : ComputerUpdate)
    (hopened : ∀ id, Open (s.reserve updates row) id → Open s id) : Kept index s (s.reserve updates row) := by
  refine ⟨fun _ hmem => hmem, fun _ hmem => .inl hmem, fun id hreserved => ?_,
    fun id hopen => .inl (hopened id hopen)⟩
  rw [hfree] at hreserved
  cases hreserved

end

end ArdurBot.Maintenance
