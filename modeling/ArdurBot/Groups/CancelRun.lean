import ArdurBot.Groups.CancelActs

/-!
# Any order of acts on a room

On the condition that no run is finished between the read of an update or of an archiving and its
commit, if it was read there, and that no parked run is claimed then, any calls in any order leave
finished runs and their tasks as they are, no active run to a bot that was removed, and report the
runs that they cancel at work. The locks of a room hold off the rest.
-/

namespace ArdurBot.GroupRuns

open List ArdurBot.Core Option Prod
open Bool hiding not_and not_not not_or

def FinalizeInput.succeeds (f : FinalizeInput) (t : Tables) : Bool :=
  t.runs.any f.matches && f.isAvailable t

/-- A run that is finished is not one that an update or an archiving has read and is about to
cancel; a run that is claimed is not one that an update has read as parked. -/
def InOrder (s : System) (_ : ℕ) (call : Call) (answer : Answer) : Prop :=
  match call with
  | .finalizeCommit f => answer ≠ .fails → f.succeeds s.tables → ∀ entry ∈ s.listed, entry.2.id ≠ f.runId
  | .claimCommit c => answer = .ok → s.tables.runs.any c.matches → ∀ entry ∈ s.parked, entry.2.id ≠ c.run.id
  | _ => True

instance (s : System) (index : ℕ) (call : Call) (answer : Answer) :
    Decidable (InOrder s index call answer) := by
  unfold InOrder
  split <;> infer_instance

/-! ### Invariants -/

structure SystemOk (s : System) : Prop where
  tables : TablesOk s.tables
  locks : ∀ lock a b, (lock, a) ∈ s.locks → (lock, b) ∈ s.locks → a = b
  /-- A bot that was removed is no member, and does not work in the room. -/
  removed : ∀ botId ∈ s.removed, botId ∉ s.tables.group.members ∧
    ∀ run ∈ s.tables.runs, run.threadId = .room → run.botId = botId → run.status.isActive = false

def Listed (s : System) (index : ℕ) (read : Run) : Prop :=
  (index, read) ∈ s.listed ∧ Pending s.tables read

/-- A run that the call is about to cancel and will not report. -/
def Parked (s : System) (index : ℕ) (read : Run) : Prop :=
  Listed s index read ∧ (index, read) ∈ s.parked ∧ ∀ run ∈ s.tables.runs, run.id = read.id →
    run.isWorking = false

structure UpdatingOk (s : System) (index : ℕ) (y : Updating) : Prop where
  lock : (.group, index) ∈ s.locks
  current : y.current = s.tables.group
  thread : s.tables.group.hasThread
  coordinator : ∀ botId, y.input.coordinatorBotId = some (some botId) → botId ∈ y.nextBotIds

/-- Whatever the bots to remove have to do in the room was read. -/
def Complete (t : Tables) (y : Updating) (active : List Run) : Prop :=
  ∀ run ∈ t.runs, run.threadId = .room → run.botId ∈ y.removedBotIds → run.status.isActive →
    ∃ read ∈ active, read.id = run.id

def CallOk (s : System) (index : ℕ) : Call → Prop
  | .updateRead _ _ => (.group, index) ∈ s.locks
  | .updateParked y => UpdatingOk s index y
  | .updateActive y parked => UpdatingOk s index y ∧ ∀ read ∈ parked, Parked s index read
  | .updateCommit y parked active => UpdatingOk s index y ∧ (∀ read ∈ parked, Parked s index read) ∧
      (∀ read ∈ active, Listed s index read) ∧ Complete s.tables y active
  | .archiveRead => (.group, index) ∈ s.locks
  | .archiveActive => (.group, index) ∈ s.locks
  | .archiveCommit active => (.group, index) ∈ s.locks ∧ ∀ read ∈ active, Listed s index read
  | .clearRead => (.thread .room, index) ∈ s.locks
  | .clearCommit active =>
      (.thread .room, index) ∈ s.locks ∧ ∀ read ∈ active, read.threadId = .room ∧ Pending s.tables read
  | .sendThread y => y.direct = none → (.group, index) ∈ s.locks
  | .sendCommit y => y.direct = none → (.group, index) ∈ s.locks
  | .finalizeCommit f => (.thread f.threadId, index) ∈ s.locks
  | _ => True

structure Kept (index : ℕ) (s s' : System) : Prop where
  group : s'.tables.group = s.tables.group ∨ (.group, index) ∈ s.locks
  locks : ∀ lock other, other ≠ index → (lock, other) ∈ s.locks → (lock, other) ∈ s'.locks
  listed : ∀ other read, other ≠ index → (other, read) ∈ s.listed → (other, read) ∈ s'.listed
  parked : ∀ other read, other ≠ index → (other, read) ∈ s.parked → (other, read) ∈ s'.parked

def Call.hasReturned : Call → Bool
  | .cancelled _ => true
  | .done => true
  | _ => false

/-- What an act does to the rows and to the other calls. -/
structure Worked (s : System) (index : ℕ) (x : Effect) (s' : System) : Prop where
  turns : Turns x s.tables s'.tables
  system : SystemOk s'
  kept : Kept index s s'
  /-- A run is finished under the lock of its thread, and not one that is about to be cancelled. -/
  finished : ∀ run ∈ s.tables.runs, x.finished = some run.id →
    (.thread run.threadId, index) ∈ s.locks ∧ ∀ entry ∈ s.listed, entry.2.id ≠ run.id
  claimed : ∀ id, x.claimed = some id → ∀ entry ∈ s.parked, entry.2.id ≠ id
  /-- The room gets runs of members while its lock is held, or of the bot whose run in it is
  finished. -/
  created : ∀ botId ∈ x.created, ((.group, index) ∈ s.locks ∧ botId ∈ s.tables.group.members) ∨
    ∃ run ∈ s.tables.runs, run.threadId = .room ∧ run.botId = botId ∧ run.status.isActive ∧
      x.finished = some run.id

structure Acted (s : System) (index : ℕ) (call : Call) (x : Effect) (result : System × Call) : Prop
    extends Worked s index x result.1 where
  callOk : CallOk result.1 index result.2
  reported : ∀ id ∈ x.reported, ∃ ids, result.2 = .cancelled ids ∧ id ∈ ids
  atomic : (∃ l, call = Call.start l) ∨ result.1.tables = s.tables ∨ result.2.hasReturned

variable {s s' : System} {index : ℕ} {call : Call} {x : Effect} {t : Tables}

/-! ### Acts that change no table -/

def quiet : Effect := ⟨none, none, [], []⟩

theorem Kept.refl (index : ℕ) (s : System) : Kept index s s :=
  ⟨.inl rfl, fun _ _ _ h => h, fun _ _ _ h => h, fun _ _ _ h => h⟩

theorem kept_ended (index : ℕ) (s : System) : Kept index s (s.ended index) where
  group := .inl rfl
  locks := fun _ _ hother hmem => mem_filter.mpr ⟨hmem, decide_eq_true hother⟩
  listed := fun _ _ hother hmem => mem_filter.mpr ⟨hmem, decide_eq_true hother⟩
  parked := fun _ _ hother hmem => mem_filter.mpr ⟨hmem, decide_eq_true hother⟩

theorem worked_quiet (hkept : Kept index s s') (hsystem : SystemOk s')
    (hturns : Turns quiet s.tables s'.tables) :
    Worked s index quiet s' where
  turns := hturns
  system := hsystem
  kept := hkept
  finished := fun _ _ heq => by cases heq
  claimed := fun _ heq => by cases heq
  created := forall_mem_nil _

variable {call' : Call} {read : Run} {tables : Tables} {botId : ℕ} {f : FinalizeInput}

theorem acted_quiet (hkept : Kept index s s') (hsystem : SystemOk s') (htables : s'.tables = s.tables)
    (hcall : CallOk s' index call') : Acted s index call quiet (s', call') where
  toWorked := worked_quiet hkept hsystem (htables ▸ Turns.refl _ _)
  callOk := hcall
  reported := forall_mem_nil _
  atomic := .inr (.inl htables)

section

variable (h : SystemOk s)
include h

theorem acted_stay (hcall : CallOk s index call') : Acted s index call quiet (s, call') :=
  acted_quiet (.refl index s) h rfl hcall

theorem acted_ended (hcall : CallOk (s.ended index) index call') :
    Acted s index call quiet (s.ended index, call') := acted_quiet (kept_ended index s)
    ⟨h.tables, fun lock a b ha hb => h.locks lock a b (mem_filter.mp ha).1 (mem_filter.mp hb).1, h.removed⟩ rfl hcall

theorem acted_thrown : Acted s index call quiet (thrown s index) := acted_ended h trivial

theorem acted_acquire (lock : Lock) (hcall : CallOk s index call)
    (hnext : CallOk { s with locks := (lock, index) :: s.locks } index call') :
    Acted s index call quiet (acquire s index lock call call') := by
  unfold acquire
  split
  · exact acted_stay h hcall
  · next hfree =>
    have hfree : ∀ other, (lock, other) ∈ s.locks → other = index := by
      intro other hmem
      by_contra hother
      exact hfree (any_eq_true.mpr ⟨(lock, other), hmem, by simp [hother]⟩)
    have hkept : Kept index s { s with locks := (lock, index) :: s.locks } :=
      ⟨.inl rfl, fun _ _ _ hmem => mem_cons_of_mem _ hmem, fun _ _ _ hmem => hmem, fun _ _ _ hmem => hmem⟩
    refine acted_quiet hkept ⟨h.tables, ?_, h.removed⟩ rfl hnext
    · intro held a b ha hb
      obtain hnewA | holdA := mem_cons.mp ha
      · obtain ⟨rfl, rfl⟩ := mk.inj hnewA
        obtain hnewB | holdB := mem_cons.mp hb
        · exact (mk.inj hnewB).2.symm
        · exact (hfree b holdB).symm
      · obtain hnewB | holdB := mem_cons.mp hb
        · obtain ⟨rfl, rfl⟩ := mk.inj hnewB
          exact hfree a holdA
        · exact h.locks held a b holdA holdB

theorem systemOk_list (runs : List Run) : SystemOk (s.list index runs) := { h with }

end

theorem kept_list (index : ℕ) (s : System) (runs : List Run) : Kept index s (s.list index runs) :=
  ⟨.inl rfl, fun _ _ _ h => h, fun _ _ _ h => mem_append_right _ h, fun _ _ _ h => h⟩

theorem listed_list {runs : List Run} (hmem : read ∈ runs) (hpending : Pending s.tables read) :
    Listed (s.list index runs) index read := ⟨mem_append_left _ (mem_map_of_mem hmem), hpending⟩

theorem not_terminal_of_active {status : RunStatus} (h : status.isActive) : status.isTerminal = false := by
  cases status <;> first | rfl | cases h

theorem acted_commit {removed : List ℕ} (h : SystemOk s) (hturns : Turns x s.tables tables)
    (htables : TablesOk tables) (hremoved : ∀ botId ∈ removed, botId ∉ tables.group.members ∧
      ∀ run ∈ tables.runs, run.threadId = .room → run.botId = botId → run.status.isActive = false)
    (hgroup : tables.group = s.tables.group ∨ (.group, index) ∈ s.locks) (hcall : ∀ s', CallOk s' index call')
    (hfinished : ∀ run ∈ s.tables.runs, x.finished = some run.id →
      (.thread run.threadId, index) ∈ s.locks ∧ ∀ entry ∈ s.listed, entry.2.id ≠ run.id)
    (hclaimed : ∀ id, x.claimed = some id → ∀ entry ∈ s.parked, entry.2.id ≠ id)
    (hcreated : ∀ botId ∈ x.created, ((.group, index) ∈ s.locks ∧ botId ∈ s.tables.group.members) ∨
      ∃ run ∈ s.tables.runs, run.threadId = .room ∧ run.botId = botId ∧ run.status.isActive ∧
        x.finished = some run.id) (hreported : ∀ id ∈ x.reported, ∃ ids, call' = .cancelled ids ∧ id ∈ ids)
    (hreturned : call'.hasReturned) :
    Acted s index call x (commit { s with removed } index tables call') where
  turns := hturns
  system := ⟨htables,
    fun lock a b ha hb => h.locks lock a b (mem_filter.mp ha).1 (mem_filter.mp hb).1, hremoved⟩
  kept :=
    { group := hgroup
      locks := fun _ _ hother hmem => mem_filter.mpr ⟨hmem, decide_eq_true hother⟩
      listed := fun _ _ hother hmem => mem_filter.mpr ⟨hmem, decide_eq_true hother⟩
      parked := fun _ _ hother hmem => mem_filter.mpr ⟨hmem, decide_eq_true hother⟩ }
  callOk := hcall _
  finished := hfinished
  claimed := hclaimed
  created := hcreated
  reported := hreported
  atomic := .inr (.inr hreturned)

theorem removed_turned (h : SystemOk s) (hturns : Turns x s.tables tables)
    (hcreated : ∀ botId ∈ x.created, botId ∉ s.removed) (hbot : botId ∈ s.removed) :
    ∀ run ∈ tables.runs, run.threadId = .room → run.botId = botId → run.status.isActive = false := by
  intro run' hrun' hroom hsame
  by_contra hactive
  rw [not_eq_false] at hactive
  obtain ⟨run, hrun, hturn⟩ | hnew := hturns.runs run' hrun'
  · have hidle := (h.removed botId hbot).2 run hrun (hturn.threadId.symm.trans hroom) (hturn.botId.symm.trans hsame)
    rw [hturn.active hactive] at hidle
    cases hidle
  · exact hcreated botId (hsame ▸ hnew.room hroom) hbot

/-! ### `updateGroup` -/

variable {y : Updating} {parked active : List Run}

theorem acted_updateRead (h : SystemOk s) {input : UpdateInput} {members : Option (List ℕ)}
    (hlock : (.group, index) ∈ s.locks) : Acted s index call quiet (updateRead s index input members) := by
  unfold updateRead
  split
  · exact acted_thrown h
  · next hadmitted =>
    unfold Updating.isRefused at hadmitted
    simp only [or_eq_true, not_eq_true', not_or, not_eq_false, not_eq_true] at hadmitted
    obtain ⟨⟨⟨-, hthread⟩, -⟩, hcoordinator⟩ := hadmitted
    refine acted_stay h ⟨hlock, rfl, hthread, fun botId hinput => ?_⟩
    rw [hinput] at hcoordinator
    simpa using hcoordinator

theorem acted_updateParked (h : SystemOk s) (hupdating : UpdatingOk s index y) :
    Acted s index call quiet (updateParked s index y) := by
  have hkept : Kept index s (updateParked s index y).1 :=
    ⟨.inl rfl, fun _ _ _ h => h, fun _ _ _ h => mem_append_right _ h, fun _ _ _ h => mem_append_right _ h⟩
  refine acted_quiet hkept { h with } rfl ⟨?_, ?_⟩
  · exact { hupdating with }
  · intro read hread
    have hfound := mem_filter.mp hread
    simp only [and_eq_true, or_eq_true, decide_eq_true_eq] at hfound
    obtain ⟨hmem, -, hstatus⟩ := hfound
    have hopen : read.status.isTerminal = false ∧ read.isWorking = false := by
      unfold Run.isWorking
      obtain hstatus | hstatus := hstatus <;> rw [hstatus] <;> decide
    refine ⟨listed_list hread (pending_of_open hmem hopen.1), mem_append_left _ (mem_map_of_mem hread), ?_⟩
    intro run hrun hid
    rw [Table.eq_of_key h.tables.runIds hrun hmem hid]
    exact hopen.2

theorem acted_updateActive (h : SystemOk s) (hupdating : UpdatingOk s index y)
    (hparked : ∀ read ∈ parked, Parked s index read) :
    Acted s index call quiet (updateActive s index y parked) := by
  refine acted_quiet (kept_list index s _) (systemOk_list h _) rfl ⟨?_, ?_, ?_, ?_⟩
  · exact { hupdating with }
  · intro read hread
    obtain ⟨⟨hlisted, hpending⟩, hentry, hidle⟩ := hparked read hread
    exact ⟨⟨mem_append_right _ hlisted, hpending⟩, hentry, hidle⟩
  · intro read hread
    have hfound := mem_filter.mp hread
    rw [and_eq_true] at hfound
    exact listed_list hread (pending_of_open hfound.1 (not_terminal_of_active hfound.2.2))
  · intro run hrun hroom hbot hactive
    refine ⟨run, mem_filter.mpr ⟨hrun, ?_⟩, rfl⟩
    simp [hroom, hbot, hactive]

theorem mem_changeMembers (hcurrent : y.current = s.tables.group) :
    botId ∈ y.changeMembers s.tables.group ↔ botId ∈ y.nextBotIds := by
  unfold Updating.changeMembers Updating.removedBotIds Updating.nextBotIds
  cases y.members with
  | none => simp [hcurrent]
  | some members =>
    simp only [hcurrent, mem_append, mem_filter, getD_some, decide_eq_true_eq, not_and, not_not]
    tauto

theorem coordinator_changed (hupdating : UpdatingOk s index y) :
    ∀ botId ∈ y.coordinatorBotId s.tables.group, botId ∈ y.changeMembers s.tables.group := by
  intro botId hbot
  rw [mem_changeMembers hupdating.current]
  unfold Updating.coordinatorBotId at hbot
  split at hbot
  · next coordinator hinput =>
    rw [mem_def] at hbot
    exact hupdating.coordinator botId (hinput.trans (congrArg some hbot))
  · split at hbot
    · cases hbot
    · next hstays =>
      rw [hupdating.current, mem_def.mp hbot] at hstays
      simpa using hstays

theorem mem_cancelRuns {rs : List Run} {run' : Run} (hmem : run' ∈ (t.cancelRuns rs).runs)
    (hactive : run'.status.isActive) : run' ∈ t.runs ∧ hasRun rs run' = false := by
  obtain ⟨run, hrun, heq⟩ := mem_map.mp hmem
  split at heq
  · rw [← heq] at hactive
    cases hactive
  · next hunmatched =>
    rw [← heq]
    exact ⟨hrun, not_eq_true _ ▸ hunmatched⟩

theorem reported_of_parked (hparked : ∀ read ∈ parked, Parked s index read) :
    ∀ run ∈ s.tables.runs, hasRun (active ++ parked) run → run.isWorking →
      run.id ∈ active.map (·.id) := by
  intro run hrun hmatch hworking
  obtain ⟨read, hread, hid⟩ := hasRun_iff.mp hmatch
  obtain hread | hread := mem_append.mp hread
  · exact hid ▸ mem_map_of_mem hread
  · rw [(hparked read hread).2.2 run hrun hid.symm] at hworking
    cases hworking

theorem acted_updateCommit (h : SystemOk s) (hupdating : UpdatingOk s index y)
    (hparked : ∀ read ∈ parked, Parked s index read)
    (hactive : ∀ read ∈ active, Listed s index read) (hcomplete : Complete s.tables y active) :
    Acted s index call ⟨none, none, active.map (·.id), []⟩ (updateCommit s index y parked active) := by
  have hpending : ∀ read ∈ active ++ parked, Pending s.tables read := by
    intro read hread
    obtain hread | hread := mem_append.mp hread
    · exact (hactive read hread).2
    · exact (hparked read hread).1.2
  have hturns : Turns ⟨none, none, active.map (·.id), []⟩ s.tables (updateTables s.tables y parked active) := by
    refine turns_cancel h.tables hpending (reported_of_parked hparked) ?_ rfl rfl rfl
    exact fun run => ⟨rfl, rfl, rfl, rfl, rfl⟩
  have htables : TablesOk (updateTables s.tables y parked active) := by
    refine h.tables.mapped hturns rfl rfl ?_ ?_ (coordinator_changed hupdating)
    · intro run
      split <;> rfl
    · intro task
      split <;> rfl
  unfold updateCommit
  rw [if_pos hupdating.thread]
  refine acted_commit h hturns htables ?_ (.inr hupdating.lock) (fun _ => trivial)
    (fun _ _ heq => by cases heq) (fun _ heq => by cases heq) (forall_mem_nil _) ?_ rfl
  · intro botId hbot
    obtain ⟨hmem, hout⟩ := mem_filter.mp hbot
    refine ⟨of_decide_eq_true hout, ?_⟩
    obtain hremoved | hbefore := mem_append.mp hmem
    · intro run' hrun' hroom hsame
      by_contra hworks
      rw [not_eq_false] at hworks
      obtain ⟨hrun, hunmatched⟩ := mem_cancelRuns hrun' hworks
      obtain ⟨read, hread, hid⟩ := hcomplete run' hrun hroom (hsame ▸ hremoved) hworks
      rw [hasRun_iff.mpr ⟨read, mem_append_left _ hread, hid⟩] at hunmatched
      cases hunmatched
    · exact removed_turned h hturns (forall_mem_nil _) hbefore
  · exact fun id hid => ⟨_, rfl, hid⟩

/-! ### `archiveGroup` and `clearThread` -/

theorem roomRuns_ok (hread : read ∈ roomRuns t) : read.threadId = .room ∧ Pending t read := by
  have hfound := mem_filter.mp hread
  rw [and_eq_true, decide_eq_true_eq] at hfound
  exact ⟨hfound.2.1, pending_of_open hfound.1 (not_terminal_of_active hfound.2.2)⟩

theorem acted_archiveRead (h : SystemOk s) (hlock : (.group, index) ∈ s.locks) :
    Acted s index call quiet (archiveRead s index) := by
  unfold archiveRead
  split
  · exact acted_thrown h
  · exact acted_stay h hlock

theorem acted_archiveActive (h : SystemOk s) (hlock : (.group, index) ∈ s.locks) :
    Acted s index call quiet (archiveActive s index) := by
  refine acted_quiet (kept_list index s _) (systemOk_list h _) rfl ⟨hlock, ?_⟩
  exact fun read hread => listed_list hread (roomRuns_ok hread).2

theorem reported_of_active : ∀ run ∈ t.runs, hasRun active run → run.isWorking →
    run.id ∈ active.map (·.id) := by
  intro run _ hmatch _
  obtain ⟨read, hread, hid⟩ := hasRun_iff.mp hmatch
  exact hid ▸ mem_map_of_mem hread

theorem acted_archiveCommit (h : SystemOk s) (hlock : (.group, index) ∈ s.locks)
    (hactive : ∀ read ∈ active, Listed s index read) :
    Acted s index call ⟨none, none, active.map (·.id), []⟩ (archiveCommit s index active) := by
  have hturns : Turns ⟨none, none, active.map (·.id), []⟩ s.tables (archiveTables s.tables active) := by
    refine turns_cancel h.tables (fun read hread => (hactive read hread).2) reported_of_active ?_ rfl rfl rfl
    exact fun run => ⟨rfl, rfl, rfl, rfl, rfl⟩
  have htables : TablesOk (archiveTables s.tables active) := by
    refine h.tables.mapped hturns rfl rfl ?_ ?_ h.tables.coordinator
    · intro run
      split <;> rfl
    · intro task
      split <;> rfl
  refine acted_commit h hturns htables ?_ (.inr hlock) (fun _ => trivial)
    (fun _ _ heq => by cases heq) (fun _ heq => by cases heq) (forall_mem_nil _) (fun id hid => ⟨_, rfl, hid⟩) rfl
  exact fun botId hbot => ⟨(h.removed botId hbot).1, removed_turned h hturns (forall_mem_nil _) hbot⟩

theorem acted_clearRead (h : SystemOk s) (hlock : (.thread .room, index) ∈ s.locks) :
    Acted s index call quiet (clearRead s index) := by
  unfold clearRead
  split
  · exact acted_stay h ⟨hlock, fun read hread => roomRuns_ok hread⟩
  · exact acted_thrown h

theorem acted_clearCommit (h : SystemOk s)
    (hactive : ∀ read ∈ active, read.threadId = .room ∧ Pending s.tables read) :
    Acted s index call ⟨none, none, active.map (·.id), []⟩ (clearCommit s index active) := by
  have hturns : Turns ⟨none, none, active.map (·.id), []⟩ s.tables (s.tables.cancelRuns active) :=
    turns_cancelRuns h.tables (fun read hread => (hactive read hread).2) reported_of_active
  refine acted_commit h hturns (tablesOk_cancelRuns h.tables hturns) ?_ (.inl rfl) (fun _ => trivial)
    (fun _ _ heq => by cases heq) (fun _ heq => by cases heq) (forall_mem_nil _)
    (fun id hid => ⟨_, rfl, hid⟩) rfl
  exact fun botId hbot => ⟨(h.removed botId hbot).1, removed_turned h hturns (forall_mem_nil _) hbot⟩

/-! ### The others -/

theorem sendTables_group (t : Tables) (z : SendInput) : (sendTables t z).group = t.group := by
  have hcreate : ∀ (botIds : List ℕ) (t : Tables), (t.createRuns z.threadId botIds).group = t.group := by
    intro botIds
    induction botIds with
    | nil => exact fun _ => rfl
    | cons botId botIds ih => exact fun t => ih (t.createRun botId z.threadId true)
  unfold sendTables
  split
  · exact hcreate _ _
  · exact hcreate _ _

theorem acted_sendCommit (h : SystemOk s) {z : SendInput}
    (hlock : z.direct = none → (.group, index) ∈ s.locks) :
    ∃ x, Acted s index call x (sendCommit s index z) := by
  unfold sendCommit
  split
  · exact ⟨quiet, acted_thrown h⟩
  · have hdirect : z.threadId = .room → z.direct = none := by
      unfold SendInput.threadId
      cases z.direct with
      | none => exact fun _ => rfl
      | some botId => exact nofun
    have hmember : z.direct = none → ∀ botId ∈ z.targetBotIds s.tables, botId ∈ s.tables.group.members := by
      intro hnone botId hbot
      unfold SendInput.targetBotIds at hbot
      rw [hnone] at hbot
      exact (mem_filter.mp hbot).1
    let x : Effect := ⟨none, none, [], if z.direct = none then z.targetBotIds s.tables else []⟩
    have hcreated : ∀ botId ∈ x.created, z.direct = none ∧ botId ∈ s.tables.group.members := by
      intro botId hbot
      dsimp only [x] at hbot
      split at hbot
      · next hnone => exact ⟨hnone, hmember hnone botId hbot⟩
      · exact absurd hbot not_mem_nil
    obtain ⟨hturns, htables⟩ := send_ok (x := x) h.tables z fun hroom botId hbot => by
      dsimp only [x]
      rwa [if_pos (hdirect hroom)]
    refine ⟨x, acted_commit h hturns htables ?_ (.inl (sendTables_group _ _)) (fun _ => trivial)
      (fun _ _ heq => by cases heq) (fun _ heq => by cases heq)
      (fun botId hbot => .inl ⟨hlock (hcreated botId hbot).1, (hcreated botId hbot).2⟩)
      (forall_mem_nil _) rfl⟩
    intro botId hbot
    refine ⟨?_, removed_turned h hturns (fun other hother hgone => ?_) hbot⟩
    · rw [sendTables_group]
      exact (h.removed botId hbot).1
    · exact (h.removed other hgone).1 (hcreated other hother).2

theorem acted_claimCommit (h : SystemOk s) {c : Claiming}
    (horder : s.tables.runs.any c.matches → ∀ entry ∈ s.parked, entry.2.id ≠ c.run.id) :
    ∃ x, Acted s index call x (claimCommit s index c) := by
  unfold claimCommit
  by_cases hmatch : s.tables.runs.any c.matches
  · let x : Effect := ⟨none, some c.run.id, [], []⟩
    have hturns : Turns x s.tables (claimTables s.tables s.now c) := turns_claim s.now c rfl
    have htables : TablesOk (claimTables s.tables s.now c) := tablesOk_updateRuns h.tables hturns fun _ => rfl
    refine ⟨x, acted_commit h hturns htables ?_ (.inl rfl) (fun _ => trivial) (fun _ _ heq => by cases heq) ?_
      (forall_mem_nil _) (forall_mem_nil _) rfl⟩
    · exact fun botId hbot => ⟨(h.removed botId hbot).1, removed_turned h hturns (forall_mem_nil _) hbot⟩
    · intro id hid
      cases hid
      exact horder hmatch
  · -- No row matches, and nothing is written.
    have hsame : claimTables s.tables s.now c = s.tables := by
      have hruns : (claimTables s.tables s.now c).runs = s.tables.runs := by
        refine (map_congr_left fun run hrun => ?_).trans (map_id _)
        rw [if_neg fun hrunMatch => hmatch (any_eq_true.mpr ⟨run, hrun, hrunMatch⟩)]
        rfl
      have heq : claimTables s.tables s.now c = { s.tables with runs := (claimTables s.tables s.now c).runs } := rfl
      rw [heq, hruns]
    refine ⟨quiet, ?_⟩
    rw [hsame]
    exact acted_ended h trivial

theorem acted_start (h : SystemOk s) (l : Lease) : Acted s index (.start l) quiet (start s index l) := by
  unfold start
  split
  · have hturns := turns_start (x := quiet) (t := s.tables) l
    have htables := tablesOk_updateRuns h.tables hturns fun _ => rfl
    refine ⟨worked_quiet ?_ ⟨htables, h.locks, fun botId hbot => ⟨(h.removed botId hbot).1, ?_⟩⟩
      hturns, trivial, ?_, ?_⟩
    · exact ⟨.inl rfl, fun _ _ _ hmem => hmem, fun _ _ _ hmem => hmem, fun _ _ _ hmem => hmem⟩
    · exact removed_turned h hturns (forall_mem_nil _) hbot
    · exact forall_mem_nil _
    · exact .inl ⟨l, rfl⟩
  · exact acted_ended h trivial

theorem acted_startAttempt (h : SystemOk s) (l : Lease) :
    Acted s index call quiet (startAttempt s index l) := by
  unfold startAttempt
  have hturns : Turns quiet s.tables { s.tables with
      attempts := s.tables.attempts ++ [⟨s.tables.nextId, l.runId, l.leaseFence, .running⟩]
      nextId := s.tables.nextId + 1 } :=
    { next := Nat.le_succ _
      old := fun run hrun => ⟨run, hrun, .refl _ _ _⟩
      runs := fun run hrun => .inl ⟨run, hrun, .refl _ _ _⟩
      oldTask := fun task htask => ⟨task, htask, rfl⟩
      tasks := fun task htask => .inl ⟨task, htask, rfl, .inl rfl⟩ }
  have htables := h.tables.turned hturns h.tables.runIds h.tables.taskIds h.tables.coordinator
  exact acted_commit h hturns htables h.removed (.inl rfl) (fun _ => trivial)
    (fun _ _ heq => by cases heq) (fun _ heq => by cases heq) (forall_mem_nil _)
    (forall_mem_nil _) rfl

theorem finalized_ok (h : TablesOk t) (hfinished : x.finished = some f.runId)
    (hcreated : f.threadId = .room → f.botId ∈ x.created) (hmatch : t.runs.any f.matches) (pending : Bool) :
    Turns x t (createSteeringContinuation (finalizeTables t f) f pending) ∧
      TablesOk (createSteeringContinuation (finalizeTables t f) f pending) := by
  have hturns : Turns x t (finalizeTables t f) := turns_finalize f hfinished hmatch
  have htables := tablesOk_finalize h hturns
  unfold createSteeringContinuation
  split
  · exact ⟨hturns.trans (turns_createRun _ _ _ false hcreated) h htables, tablesOk_createRun htables _ _ _⟩
  · exact ⟨hturns, htables⟩

theorem acted_finalizeCommit (h : SystemOk s) (hlock : (.thread f.threadId, index) ∈ s.locks)
    (horder : f.succeeds s.tables → ∀ entry ∈ s.listed, entry.2.id ≠ f.runId) (pending : Bool) :
    ∃ x, Acted s index call x (finalizeCommit s index f pending) := by
  unfold finalizeCommit
  split
  · next hmatch =>
    split
    · next havailable =>
      have hunlisted := horder (and_eq_true_iff.mpr ⟨hmatch, havailable⟩)
      obtain ⟨run, hrun, hrunMatch⟩ := any_eq_true.mp hmatch
      obtain ⟨hid, hthread, hbot, -, hstatus⟩ := FinalizeInput.eq_of_matches hrunMatch
      let x : Effect := ⟨some f.runId, none, [], if f.threadId = .room then [f.botId] else []⟩
      obtain ⟨hturns, htables⟩ := finalized_ok (x := x) h.tables rfl
        (fun hroom => by dsimp only [x]; rw [if_pos hroom]; exact mem_singleton_self _) hmatch pending
      have hcreated : ∀ botId ∈ x.created, run.threadId = .room ∧ run.botId = botId := by
        intro botId hmem
        dsimp only [x] at hmem
        split at hmem
        · next hroom => exact ⟨hthread.trans hroom, hbot.trans (mem_singleton.mp hmem).symm⟩
        · exact absurd hmem not_mem_nil
      have hactive : run.status.isActive := by
        rw [hstatus]
        rfl
      have hgroup : (createSteeringContinuation (finalizeTables s.tables f) f pending).group = s.tables.group := by
        unfold createSteeringContinuation
        split <;> rfl
      refine ⟨x, acted_commit h hturns htables ?_ (.inl hgroup) (fun _ => trivial) ?_ (fun _ heq => by cases heq) ?_
        (forall_mem_nil _) rfl⟩
      · intro botId hgone
        refine ⟨?_, removed_turned h hturns (fun other hother hremoved => ?_) hgone⟩
        · rw [hgroup]
          exact (h.removed botId hgone).1
        · obtain ⟨hroom, hsame⟩ := hcreated other hother
          rw [(h.removed other hremoved).2 run hrun hroom hsame] at hactive
          cases hactive
      · intro other hother hsame
        have heq : other = run := Table.eq_of_key h.tables.runIds hother hrun (hid.trans (some.inj hsame)).symm
        rw [heq, hthread, hid]
        exact ⟨hlock, hunlisted⟩
      · intro botId hmem
        obtain ⟨hroom, hsame⟩ := hcreated botId hmem
        exact .inr ⟨run, hrun, hroom, hsame, hactive, congrArg some hid.symm⟩
    · exact ⟨quiet, acted_thrown h⟩
  · exact ⟨quiet, acted_ended h trivial⟩

/-! ### Every act -/

section

variable (h : SystemOk s) (hcall : CallOk s index call) {answer : Answer}
include h hcall

theorem acted_next (hok : answer ≠ .fails)
    (horder : InOrder s index call answer) : ∃ x, Acted s index call x (next s index call answer) := by
  cases call with
  | update input =>
    unfold next update
    refine ⟨quiet, ?_⟩
    dsimp only
    split
    · exact acted_stay h trivial
    · split
      · exact acted_thrown h
      · exact acted_stay h trivial
  | updateLock | archive => exact ⟨quiet, acted_acquire h .group trivial mem_cons_self⟩
  | updateRead input members => exact ⟨quiet, acted_updateRead h hcall⟩
  | updateParked y => exact ⟨quiet, acted_updateParked h hcall⟩
  | updateActive y parked => exact ⟨quiet, acted_updateActive h hcall.1 hcall.2⟩
  | updateCommit y parked active => exact ⟨_, acted_updateCommit h hcall.1 hcall.2.1 hcall.2.2.1 hcall.2.2.2⟩
  | archiveRead => exact ⟨quiet, acted_archiveRead h hcall⟩
  | archiveActive => exact ⟨quiet, acted_archiveActive h hcall⟩
  | archiveCommit active => exact ⟨_, acted_archiveCommit h hcall.1 hcall.2⟩
  | clear => exact ⟨quiet, acted_acquire h .group trivial trivial⟩
  | clearThread => exact ⟨quiet, acted_acquire h (.thread .room) trivial mem_cons_self⟩
  | clearRead => exact ⟨quiet, acted_clearRead h hcall⟩
  | clearCommit active => exact ⟨_, acted_clearCommit h hcall.2⟩
  | send z =>
    unfold next
    refine ⟨quiet, ?_⟩
    dsimp only
    split
    · exact acted_acquire h .group trivial fun _ => mem_cons_self
    · next hdirect =>
      refine acted_stay h fun hnone => ?_
      rw [hdirect] at hnone
      cases hnone
  | sendThread z =>
    exact ⟨quiet, acted_acquire h (.thread z.threadId) hcall fun hnone => mem_cons_of_mem _ (hcall hnone)⟩
  | sendCommit z => exact acted_sendCommit h hcall
  | claim runId workerId =>
    unfold next claim
    refine ⟨quiet, ?_⟩
    dsimp only
    split <;> exact acted_stay h trivial
  | claimBot c => exact ⟨quiet, acted_acquire h (.bot c.run.botId) trivial trivial⟩
  | claimThread c => exact ⟨quiet, acted_acquire h (.thread c.run.threadId) trivial trivial⟩
  | claimCommit c =>
    unfold next
    dsimp only
    split
    · exact ⟨quiet, acted_ended h trivial⟩
    · next hadmitted =>
      refine acted_claimCommit h (horder ?_)
      cases answer with
      | ok => rfl
      | fails => exact absurd rfl hok
      | declines => exact absurd rfl hadmitted
  | start l => exact ⟨quiet, acted_start h l⟩
  | startAttempt l => exact ⟨quiet, acted_startAttempt h l⟩
  | finalize f => exact ⟨quiet, acted_acquire h (.bot f.botId) trivial trivial⟩
  | finalizeThread f => exact ⟨quiet, acted_acquire h (.thread f.threadId) trivial mem_cons_self⟩
  | finalizeCommit f => exact acted_finalizeCommit h hcall (horder hok) _
  | cancelled | done | failed => exact ⟨quiet, acted_stay h trivial⟩

theorem acted_act (horder : InOrder s index call answer) :
    ∃ x, Acted s index call x (act s index call answer) := by
  unfold act
  split
  · exact ⟨quiet, acted_thrown h⟩
  · next hacts =>
    by_cases hok : answer = .fails
    · have hended : call.hasEnded := by simpa [hok] using hacts
      refine ⟨quiet, ?_⟩
      cases call <;> first | exact acted_stay h trivial | cases hended
    · exact acted_next h hcall hok horder

end

/-! ### The others -/

theorem Worked.pending_other {index' : ℕ} (hworked : Worked s index x s') (h : SystemOk s)
    (hlisted : Listed s index' read) :
    Pending s'.tables read := by
  refine hlisted.2.turned h.tables hworked.turns fun hfinished => ?_
  obtain ⟨run, hrun, hid, -⟩ := hlisted.2
  exact (hworked.finished run hrun (hid ▸ hfinished)).2 _ hlisted.1 hid.symm

section

variable {index' : ℕ} (hother : index' ≠ index) (hworked : Worked s index x s')
include hother hworked

theorem Worked.listed_other {read : Run} (h : SystemOk s) (hlisted : Listed s index' read) :
    Listed s' index' read :=
  ⟨hworked.kept.listed index' read hother hlisted.1, hworked.pending_other h hlisted⟩

theorem Worked.parked_other {read : Run} (h : SystemOk s) (hparked : Parked s index' read) :
    Parked s' index' read := by
  obtain ⟨hlisted, hentry, hidle⟩ := hparked
  refine ⟨hworked.listed_other hother h hlisted, hworked.kept.parked index' read hother hentry,
    fun run' hrun' hid => ?_⟩
  by_contra hworking
  rw [not_eq_false] at hworking
  obtain ⟨run, hrun, hturn⟩ | hnew := hworked.turns.runs run' hrun'
  · have hsame := hturn.id.symm.trans hid
    obtain hbefore | hclaimed := hturn.working hworking
    · rw [hidle run hrun hsame] at hbefore
      cases hbefore
    · exact hworked.claimed run.id hclaimed _ hentry hsame.symm
  · obtain ⟨old, hold, hsame, -⟩ := hlisted.2
    have hbelow := (h.tables.runs old hold).1
    have habove := hnew.above
    omega

theorem Worked.updating_other (h : SystemOk s) (hupdating : UpdatingOk s index' y) :
    UpdatingOk s' index' y := by
  have hgroup := hworked.kept.group.resolve_right fun hmine => hother (h.locks _ _ _ hupdating.lock hmine)
  refine ⟨hworked.kept.locks _ _ hother hupdating.lock, ?_, ?_, hupdating.coordinator⟩
  · rw [hgroup]
    exact hupdating.current
  · rw [hgroup]
    exact hupdating.thread

/-- Nothing that the bots to remove have to do in the room is added while the lock of the room is
held. -/
theorem Worked.complete_other (h : SystemOk s) (hlock : (.group, index') ∈ s.locks)
    (hactive : ∀ read ∈ active, Listed s index' read) (hcomplete : Complete s.tables y active) :
    Complete s'.tables y active := by
  intro run' hrun' hroom hbot hworks
  obtain ⟨run, hrun, hturn⟩ | hnew := hworked.turns.runs run' hrun'
  · rw [hturn.id]
    exact hcomplete run hrun (hturn.threadId.symm.trans hroom) (hturn.botId ▸ hbot) (hturn.active hworks)
  · obtain ⟨hmine, -⟩ | ⟨run, hrun, hrunRoom, hsame, hrunActive, hfinished⟩ := hworked.created _ (hnew.room hroom)
    · exact absurd (h.locks _ _ _ hlock hmine) hother
    · obtain ⟨read, hread, hid⟩ := hcomplete run hrun hrunRoom (hsame.symm ▸ hbot) hrunActive
      exact absurd hid ((hworked.finished run hrun hfinished).2 _ (hactive read hread).1)

theorem Worked.callOk_other (h : SystemOk s) {call' : Call} (hcall : CallOk s index' call') :
    CallOk s' index' call' := by
  have hlock : ∀ {lock : Lock}, (lock, index') ∈ s.locks → (lock, index') ∈ s'.locks :=
    fun hmem => hworked.kept.locks _ _ hother hmem
  cases call' with
  | updateRead | archiveRead | archiveActive | clearRead | finalizeCommit => exact hlock hcall
  | updateParked y => exact hworked.updating_other hother h hcall
  | updateActive y parked =>
    exact ⟨hworked.updating_other hother h hcall.1,
      fun read hread => hworked.parked_other hother h (hcall.2 read hread)⟩
  | updateCommit y parked active =>
    obtain ⟨hupdating, hparked, hactive, hcomplete⟩ := hcall
    exact ⟨hworked.updating_other hother h hupdating,
      fun read hread => hworked.parked_other hother h (hparked read hread),
      fun read hread => hworked.listed_other hother h (hactive read hread),
      hworked.complete_other hother h hupdating.lock hactive hcomplete⟩
  | archiveCommit active =>
    exact ⟨hlock hcall.1, fun read hread => hworked.listed_other hother h (hcall.2 read hread)⟩
  | clearCommit active =>
    refine ⟨hlock hcall.1, fun read hread => ?_⟩
    obtain ⟨hroom, hpending⟩ := hcall.2 read hread
    refine ⟨hroom, hpending.turned h.tables hworked.turns fun hfinished => ?_⟩
    -- The run is finished under the lock of the room's thread, which this call holds.
    obtain ⟨run, hrun, hid, -, -, hthread, -⟩ := hpending
    have hheld := (hworked.finished run hrun (hid ▸ hfinished)).1
    rw [hthread, hroom] at hheld
    exact hother (h.locks _ _ _ hcall.1 hheld)
  | sendThread | sendCommit => exact fun hnone => hlock (hcall hnone)
  | _ => exact trivial

end

theorem worked_environment (h : SystemOk s) (event : Event) (index : ℕ) :
    Worked s index quiet (environment s event) := by
  have hkept : Kept index s (environment s event) := by
    refine ⟨.inl ?_, ?_, ?_, ?_⟩
    · cases event <;> rfl
    all_goals cases event <;> exact fun _ _ _ hmem => hmem
  cases event with
  | tick => exact worked_quiet hkept { h with } (.refl _ _)
  | bots rows =>
    have hturns : Turns quiet s.tables { s.tables with bots := rows } :=
      .of_map (map_id _).symm (map_id _).symm rfl (fun _ _ => .refl _ _ _) fun _ _ => ⟨rfl, .inl rfl⟩
    exact worked_quiet hkept ⟨h.tables.turned hturns h.tables.runIds h.tables.taskIds h.tables.coordinator, h.locks,
      h.removed⟩ hturns
  | deliveries rows =>
    have hturns : Turns quiet s.tables { s.tables with deliveries := rows } :=
      .of_map (map_id _).symm (map_id _).symm rfl (fun _ _ => .refl _ _ _) fun _ _ => ⟨rfl, .inl rfl⟩
    exact worked_quiet hkept ⟨h.tables.turned hturns h.tables.runIds h.tables.taskIds h.tables.coordinator, h.locks,
      h.removed⟩ hturns
  | requestCancel runId =>
    have hturns : Turns quiet s.tables (environment s (.requestCancel runId)).tables :=
      turns_updateRuns fun run _ _ => .of_status rfl rfl rfl rfl rfl
    have htables := tablesOk_updateRuns h.tables hturns fun _ => rfl
    exact worked_quiet hkept ⟨htables, h.locks, fun botId hbot => ⟨(h.removed botId hbot).1,
      removed_turned h hturns (forall_mem_nil _) hbot⟩⟩ hturns

theorem keeps : Calls.Keeps program SystemOk CallOk (fun _ _ => True) (fun call => call.isStart) InOrder where
  start := by
    intro s index call _ _ hstart
    cases call <;> first | exact trivial | cases hstart
  act := by
    intro s index call answer h hcall horder
    obtain ⟨x, hacted⟩ := acted_act h hcall horder
    exact ⟨hacted.system, hacted.callOk⟩
  others := by
    intro s index call answer index' call' h hcall horder hother hcall'
    obtain ⟨x, hacted⟩ := acted_act h hcall horder
    exact hacted.toWorked.callOk_other hother h hcall'
  idle := fun _ _ _ _ _ _ _ _ _ _ => trivial
  environment := fun s event h => (worked_environment h event 0).system
  environmentLocal := by
    intro s event index call h hcall
    exact (worked_environment h event (index + 1)).callOk_other (Nat.ne_of_lt (Nat.lt_succ_self index)) h hcall
  environmentIdle := fun _ _ _ _ _ => trivial

/-! ### What holds in any order -/

/-- A run that is over and its task keep their status. -/
def Settled (t t' : Tables) : Prop :=
  ∀ run ∈ t.runs, run.status.isTerminal →
    (∃ run' ∈ t'.runs, run'.id = run.id ∧ run'.taskId = run.taskId ∧ run'.status = run.status) ∧
      ∀ task ∈ t.tasks, task.id = run.taskId → ∃ task' ∈ t'.tasks, task'.id = task.id ∧ task'.status = task.status

instance (t t' : Tables) : Decidable (Settled t t') := by
  unfold Settled
  infer_instance

/-- The bots that were removed from the room, and are not members again, have nothing to do in
it. -/
def RemovedStopped (s : System) : Prop :=
  ∀ botId ∈ s.removed, ∀ run ∈ s.tables.runs, run.threadId = .room → run.botId = botId →
    run.status.isActive = false

instance (s : System) : Decidable (RemovedStopped s) := by
  unfold RemovedStopped
  infer_instance

def CoordinatorIsMember (group : Group) : Prop :=
  ∀ botId ∈ group.coordinatorBotId, botId ∈ group.members

/-- The runs that an act cancels at work are among those that its call returns. -/
def ReportsCancelled (w w' : World) (index : ℕ) : Prop :=
  ∀ run ∈ w.shared.tables.runs, run.isWorking → ∀ run' ∈ w'.shared.tables.runs, run'.id = run.id →
    run'.status = .cancelled → ∃ ids, w'.calls[index]? = some (.cancelled ids) ∧ run.id ∈ ids

/-- An operation changes the tables in its last act only, and returns then. -/
def ChangesAtOnce (w w' : World) (index : ℕ) : Prop :=
  ∀ call ∈ w.calls[index]?, (∀ l, call ≠ .start l) →
    w'.shared.tables = w.shared.tables ∨ ∃ call' ∈ w'.calls[index]?, call'.hasReturned

theorem Settled.refl (t : Tables) : Settled t t :=
  fun run hrun _ => ⟨⟨run, hrun, rfl, rfl, rfl⟩, fun task htask _ => ⟨task, htask, rfl, rfl⟩⟩

variable {t' : Tables} {w : World}

theorem Settled.trans {t'' : Tables} (h : Settled t t') (h' : Settled t' t'') : Settled t t'' := by
  intro run hrun hover
  obtain ⟨⟨run', hrun', hid, htaskId, hstatus⟩, htasks⟩ := h run hrun hover
  obtain ⟨⟨run'', hrun'', hid', htaskId', hstatus'⟩, htasks'⟩ := h' run' hrun' (hstatus ▸ hover)
  refine ⟨⟨run'', hrun'', hid'.trans hid, htaskId'.trans htaskId, hstatus'.trans hstatus⟩,
    fun task htask hsame => ?_⟩
  obtain ⟨task', htask', hsame', htaskStatus⟩ := htasks task htask hsame
  obtain ⟨task'', htask'', hsame'', htaskStatus'⟩ :=
    htasks' task' htask' (hsame'.trans (hsame.trans htaskId.symm))
  exact ⟨task'', htask'', hsame''.trans hsame', htaskStatus'.trans htaskStatus⟩

theorem Turns.isSettled (h : Turns x t t') (ht : TablesOk t) : Settled t t' := by
  intro run hrun hover
  obtain ⟨run', hrun', hturn⟩ := h.old run hrun
  refine ⟨⟨run', hrun', hturn.id, hturn.taskId, hturn.settled hover⟩, fun task htask hsame => ?_⟩
  obtain ⟨task', htask', hid⟩ := h.oldTask task htask
  obtain ⟨old, hold, hid', hstatus⟩ := h.task_eq ht hrun hover htask' (hid.trans hsame)
  rw [Table.eq_of_key ht.taskIds hold htask (hid'.symm.trans hid)] at hstatus
  exact ⟨task', htask', hid, hstatus⟩

abbrev WorldOk (w : World) : Prop := Calls.Holds SystemOk CallOk (fun _ _ => True) w

theorem settled_step (h : WorldOk w) {op : Op} (horder : Calls.OnActs InOrder w op) :
    Settled w.shared.tables (step w op).shared.tables := by
  cases op with
  | start call => exact .refl _
  | act index answer =>
    unfold step Calls.step
    dsimp only
    cases hcall : w.calls[index]? with
    | none => exact .refl _
    | some call =>
      obtain ⟨x, hacted⟩ := acted_act h.shared (h.calls index call hcall) (horder call hcall)
      exact hacted.turns.isSettled h.shared.tables
  | environment event => exact (worked_environment h.shared event 0).turns.isSettled h.shared.tables

theorem settled_after (h : WorldOk w) {ops : List Op}
    (hstart : ∀ op ∈ ops, Calls.OnStarts (fun call => call.isStart) op)
    (hops : Run.Meets step (Calls.OnActs InOrder) w ops) :
    Settled w.shared.tables (Run.after step w ops).shared.tables := by
  induction ops generalizing w with
  | nil => exact .refl _
  | cons op ops ih =>
    have hnext := Calls.holds_step keeps h (hstart op mem_cons_self) hops.1
    have hrest := ih hnext (fun other hmem => hstart other (mem_cons_of_mem _ hmem)) hops.2
    exact (settled_step h hops.1).trans hrest

theorem act_reports (h : WorldOk w) {index : ℕ} {answer : Answer}
    (horder : Calls.OnActs InOrder w (.act index answer : Op)) :
    ReportsCancelled w (step w (.act index answer)) index ∧ ChangesAtOnce w (step w (.act index answer)) index := by
  cases hcall : w.calls[index]? with
  | none =>
    have hsame : step w (.act index answer) = w := by
      unfold step Calls.step
      simp only [hcall]
    rw [hsame]
    refine ⟨?_, ?_⟩
    · intro run hrun hworking run' hrun' hid hcancelled
      rw [Table.eq_of_key h.shared.tables.runIds hrun' hrun hid] at hcancelled
      simp [Run.isWorking, hcancelled] at hworking
    · intro call hmem
      rw [hcall] at hmem
      cases hmem
  | some call =>
    obtain ⟨x, hacted⟩ := acted_act h.shared (h.calls index call hcall) (horder call hcall)
    have hstep : step w (.act index answer) =
        ⟨(act w.shared index call answer).1, w.calls.set index (act w.shared index call answer).2⟩ := by
      unfold step Calls.step
      simp only [hcall]
      rfl
    have hset : (w.calls.set index (act w.shared index call answer).2)[index]? =
        some (act w.shared index call answer).2 := by
      rw [getElem?_set_self (List.getElem?_eq_some_iff.mp hcall).1]
    rw [hstep]
    refine ⟨?_, ?_⟩
    · intro run hrun hworking run' hrun' hid hcancelled
      have hreported : run.id ∈ x.reported := by
        obtain ⟨old, hold, hturn⟩ | hnew := hacted.turns.runs run' hrun'
        · rw [Table.eq_of_key h.shared.tables.runIds hold hrun (hturn.id.symm.trans hid)] at hturn
          exact hturn.reported hworking hcancelled
        · have hbelow := (h.shared.tables.runs run hrun).1
          have habove := hnew.above
          omega
      obtain ⟨ids, hresult, hmem⟩ := hacted.reported run.id hreported
      exact ⟨ids, hset.trans (congrArg some hresult), hmem⟩
    · intro other hmem hstart
      obtain rfl : call = other := some.inj (hcall.symm.trans hmem)
      obtain ⟨l, rfl⟩ | hsame | hreturned := hacted.atomic
      · exact absurd rfl (hstart l)
      · exact .inl hsame
      · exact .inr ⟨_, hset, hreturned⟩

def World.initial (now : ℕ) (t : Tables) : World := ⟨⟨now, t, [], [], [], []⟩, []⟩

theorem worldOk_initial {t : Tables} (h : TablesOk t) (now : ℕ) : WorldOk (World.initial now t) where
  shared := ⟨h, fun _ _ _ hmem => absurd hmem not_mem_nil, forall_mem_nil _⟩
  calls := by
    intro index call hcall
    cases hcall
  idle := fun _ _ => trivial

def RunsInOrder (w : World) (ops : List Op) : Prop :=
  (∀ op ∈ ops, Calls.OnStarts (fun call => call.isStart) op) ∧ Run.Meets step (Calls.OnActs InOrder) w ops

instance (w : World) (ops : List Op) : Decidable (RunsInOrder w ops) :=
  inferInstanceAs (Decidable (_ ∧ _))

/-- What a run in order leads to, from tables in which a task is worked on by one run. -/
def Reached (w : World) : Prop :=
  ∃ now t ops, TablesOk t ∧ RunsInOrder (World.initial now t) ops ∧
    w = Run.after step (World.initial now t) ops

theorem Reached.ok (h : Reached w) : WorldOk w := by
  obtain ⟨now, t, ops, ht, ⟨hstart, hops⟩, rfl⟩ := h
  exact Calls.holds_after keeps (worldOk_initial ht now) hstart hops

theorem cancelling_in_order {w : World} (h : Reached w) :
    (∀ ops, RunsInOrder w ops → Settled w.shared.tables (Run.after step w ops).shared.tables) ∧
      RemovedStopped w.shared ∧ CoordinatorIsMember w.shared.tables.group ∧
      ∀ index answer, Calls.OnActs InOrder w (.act index answer : Op) →
        ReportsCancelled w (step w (.act index answer)) index ∧ ChangesAtOnce w (step w (.act index answer)) index := by
  have hok := h.ok
  refine ⟨?_, ?_, ?_, ?_⟩
  · exact fun ops hops => settled_after hok hops.1 hops.2
  · exact fun botId hbot => (hok.shared.removed botId hbot).2
  · exact hok.shared.tables.coordinator
  · exact fun index answer horder => act_reports hok horder

/-- A room of three bots, the third at work on its own task. -/
def roomTables : Tables where
  group := ⟨true, [1, 2, 3], some 1, false⟩
  bots := [⟨1, true, false⟩, ⟨2, true, false⟩, ⟨3, true, false⟩]
  deliveries := []
  runs := [⟨10, 11, 3, .room, .running, false, some 7, 1, some 300000, none, false, true⟩]
  tasks := [⟨11, .queued⟩]
  attempts := [⟨12, 10, 1, .running⟩]
  nextId := 13

/-- The third bot is removed; its run fails, while steering waits for it. -/
def removeThird : Op := .start (.update ⟨none, some [1, 2]⟩)

def finishThird : Op := .start (.finalize ⟨10, 11, 3, .room, 12, 7, 1, .failed⟩)

def acts (index count : ℕ) : List Op := List.replicate count (.act index .ok)

theorem tablesOk_room : TablesOk roomTables := by
  refine ⟨by decide, by decide, by decide, by decide, by decide, ?_⟩
  unfold roomTables
  decide

/-- The run is finished after the update has read it: it is cancelled with its task when the update
commits, and what it leaves to the bot goes on. -/
theorem finished_between_read_and_commit : ∃ t ops more, TablesOk t ∧
      (∀ op ∈ ops ++ more, Calls.OnStarts (fun call => Call.isStart call = true) op) ∧
      ¬Settled (Run.after step (World.initial 0 t) ops).shared.tables
        (Run.after step (World.initial 0 t) (ops ++ more)).shared.tables ∧
      ¬RemovedStopped (Run.after step (World.initial 0 t) (ops ++ more)).shared := by
  refine ⟨roomTables, removeThird :: finishThird :: acts 0 5 ++ acts 1 3, acts 0 1, tablesOk_room, ?_, ?_, ?_⟩
  · decide
  · decide
  · decide

/-- Finished before the update reads it, it stays failed. -/
theorem cancelling_in_order_finished_first : Settled
      (Run.after step (World.initial 0 roomTables) (removeThird :: finishThird :: acts 1 3 ++ acts 0 2)).shared.tables
      (Run.after step (Run.after step (World.initial 0 roomTables) (removeThird :: finishThird :: acts 1 3 ++ acts 0 2))
        (acts 0 4)).shared.tables :=
  (cancelling_in_order ⟨0, roomTables, _, tablesOk_room, by decide, rfl⟩).1 (acts 0 4) (by decide)

end ArdurBot.GroupRuns
