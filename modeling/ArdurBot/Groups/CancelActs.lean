import ArdurBot.Groups.Cancel
import ArdurBot.Lib.Table

/-!
# What an act leaves of the runs

Each act is described by the run it finishes, the run it claims, the runs whose cancelling it
reports and the bots for which it creates runs in the room. The statements of the acts compose.
-/

namespace ArdurBot.GroupRuns

open List ArdurBot.Core Bool

structure Effect where
  finished : Option ℕ
  claimed : Option ℕ
  reported : List ℕ
  created : List ℕ

structure Turn (x : Effect) (t' : Tables) (run run' : Run) : Prop where
  id : run'.id = run.id
  taskId : run'.taskId = run.taskId
  botId : run'.botId = run.botId
  threadId : run'.threadId = run.threadId
  settled : run.status.isTerminal → run'.status = run.status
  ended : run.status.isTerminal = false → run'.status.isTerminal → x.finished = some run.id ∨
    (run'.status = .cancelled ∧ ∀ task ∈ t'.tasks, task.id = run.taskId → task.status = .cancelled)
  active : run'.status.isActive → run.status.isActive
  working : run'.isWorking → run.isWorking ∨ x.claimed = some run.id
  stays : run.isWorking → run'.isWorking ∨ run'.status.isTerminal
  reported : run.isWorking → run'.status = .cancelled → run.id ∈ x.reported

structure New (x : Effect) (t t' : Tables) (run : Run) : Prop where
  above : t.nextId ≤ run.id
  below : run.id < t'.nextId
  taskId : run.taskId = run.id
  room : run.threadId = .room → run.botId ∈ x.created

def InWork (t : Tables) (taskId : ℕ) : Prop :=
  ∃ run ∈ t.runs, run.taskId = taskId ∧ run.status.isTerminal = false

structure Turns (x : Effect) (t t' : Tables) : Prop where
  next : t.nextId ≤ t'.nextId
  old : ∀ run ∈ t.runs, ∃ run' ∈ t'.runs, Turn x t' run run'
  runs : ∀ run' ∈ t'.runs, (∃ run ∈ t.runs, Turn x t' run run') ∨ New x t t' run'
  oldTask : ∀ task ∈ t.tasks, ∃ task' ∈ t'.tasks, task'.id = task.id
  tasks : ∀ task' ∈ t'.tasks,
    (∃ task ∈ t.tasks, task'.id = task.id ∧ (task'.status = task.status ∨ InWork t task.id)) ∨
      (t.nextId ≤ task'.id ∧ task'.id < t'.nextId)

/-- Ids are not issued twice, and a task is worked on by one run. -/
structure TablesOk (t : Tables) : Prop where
  runIds : (t.runs.map (·.id)).Nodup
  taskIds : (t.tasks.map (·.id)).Nodup
  runs : ∀ run ∈ t.runs, run.id < t.nextId ∧ run.taskId < t.nextId
  tasks : ∀ task ∈ t.tasks, task.id < t.nextId
  apart : ∀ a ∈ t.runs, ∀ b ∈ t.runs, a.taskId = b.taskId →
    a.id = b.id ∨ (a.status.isTerminal ∧ b.status.isTerminal)
  coordinator : ∀ botId ∈ t.group.coordinatorBotId, botId ∈ t.group.members

variable {x : Effect} {t t' t'' : Tables} {run run' run'' : Run}

/-! ### What the statements compose to -/

theorem TablesOk.not_inWork (h : TablesOk t) (hmem : run ∈ t.runs) (hover : run.status.isTerminal) :
    ¬InWork t run.taskId := by
  rintro ⟨other, hother, htask, hopen⟩
  obtain hid | ⟨hboth, -⟩ := h.apart other hother run hmem htask
  · rw [Table.eq_of_key h.runIds hother hmem hid, hover] at hopen
    cases hopen
  · rw [hboth] at hopen
    cases hopen

theorem Turns.task_eq (h : Turns x t t') (ht : TablesOk t) (hmem : run ∈ t.runs)
    (hover : run.status.isTerminal)
    {task' : Task} (htask' : task' ∈ t'.tasks) (hid : task'.id = run.taskId) :
    ∃ task ∈ t.tasks, task'.id = task.id ∧ task'.status = task.status := by
  obtain ⟨task, htask, hsame, hstatus⟩ | ⟨habove, -⟩ := h.tasks task' htask'
  · refine ⟨task, htask, hsame, hstatus.resolve_right ?_⟩
    rw [← hsame, hid]
    exact ht.not_inWork hmem hover
  · have := (ht.runs run hmem).2
    omega

theorem Turn.trans (h : Turn x t' run run') (h' : Turn x t'' run' run'') (hturns : Turns x t' t'')
    (ht' : TablesOk t') (hmem : run' ∈ t'.runs) : Turn x t'' run run'' where
  id := h'.id.trans h.id
  taskId := h'.taskId.trans h.taskId
  botId := h'.botId.trans h.botId
  threadId := h'.threadId.trans h.threadId
  settled := fun hover => (h'.settled (h.settled hover ▸ hover)).trans (h.settled hover)
  ended := by
    intro hopen hover
    cases hmid : run'.status.isTerminal with
    | false =>
      obtain hfinished | ⟨hcancelled, htasks⟩ := h'.ended hmid hover
      · exact .inl (hfinished.trans (congrArg some h.id))
      · exact .inr ⟨hcancelled, fun task htask hid => htasks task htask (hid.trans h.taskId.symm)⟩
    | true =>
      obtain hfinished | ⟨hcancelled, htasks⟩ := h.ended hopen hmid
      · exact .inl hfinished
      · refine .inr ⟨(h'.settled hmid).trans hcancelled, fun task htask hid => ?_⟩
        obtain ⟨old, hold, hsame, hstatus⟩ := hturns.task_eq ht' hmem hmid htask (hid.trans h.taskId.symm)
        rw [hstatus]
        exact htasks old hold (hsame.symm.trans hid)
  active := fun hactive => h.active (h'.active hactive)
  working := by
    intro hworking
    obtain hmid | hclaimed := h'.working hworking
    · exact h.working hmid
    · exact .inr (hclaimed.trans (congrArg some h.id))
  stays := by
    intro hworking
    obtain hmid | hmid := h.stays hworking
    · exact h'.stays hmid
    · refine .inr ?_
      rw [h'.settled hmid]
      exact hmid
  reported := by
    intro hworking hcancelled
    obtain hmid | hmid := h.stays hworking
    · rw [← h.id]
      exact h'.reported hmid hcancelled
    · exact h.reported hworking ((h'.settled hmid).symm.trans hcancelled)

theorem New.later (h : New x t t' run') (h' : Turn x t'' run' run'') (hnext : t'.nextId ≤ t''.nextId) :
    New x t t'' run'' where
  above := by
    rw [h'.id]
    exact h.above
  below := by
    rw [h'.id]
    exact Nat.lt_of_lt_of_le h.below hnext
  taskId := by rw [h'.taskId, h'.id, h.taskId]
  room := by
    rw [h'.threadId, h'.botId]
    exact h.room

theorem Turns.inWork (h : Turns x t t') {task : Task} (htask : task.id < t.nextId)
    (hwork : InWork t' task.id) :
    InWork t task.id := by
  obtain ⟨run', hrun', hid, hopen⟩ := hwork
  obtain ⟨run, hrun, hturn⟩ | hnew := h.runs run' hrun'
  · refine ⟨run, hrun, hturn.taskId.symm.trans hid, ?_⟩
    cases hover : run.status.isTerminal with
    | false => rfl
    | true =>
      rw [hturn.settled hover, hover] at hopen
      cases hopen
  · have habove := hnew.above
    have hsame := hnew.taskId
    omega

theorem Turns.trans (h : Turns x t t') (h' : Turns x t' t'') (ht : TablesOk t) (ht' : TablesOk t') :
    Turns x t t'' where
  next := Nat.le_trans h.next h'.next
  old := by
    intro run hrun
    obtain ⟨run', hrun', hturn⟩ := h.old run hrun
    obtain ⟨run'', hrun'', hturn'⟩ := h'.old run' hrun'
    exact ⟨run'', hrun'', hturn.trans hturn' h' ht' hrun'⟩
  runs := by
    intro run'' hrun''
    obtain ⟨run', hrun', hturn'⟩ | hnew := h'.runs run'' hrun''
    · obtain ⟨run, hrun, hturn⟩ | hnew := h.runs run' hrun'
      · exact .inl ⟨run, hrun, hturn.trans hturn' h' ht' hrun'⟩
      · exact .inr (hnew.later hturn' h'.next)
    · exact .inr { hnew with above := Nat.le_trans h.next hnew.above }
  oldTask := by
    intro task htask
    obtain ⟨task', htask', hid⟩ := h.oldTask task htask
    obtain ⟨task'', htask'', hid'⟩ := h'.oldTask task' htask'
    exact ⟨task'', htask'', hid'.trans hid⟩
  tasks := by
    intro task'' htask''
    obtain ⟨task', htask', hid', hstatus'⟩ | ⟨habove, hbelow⟩ := h'.tasks task'' htask''
    · obtain ⟨task, htask, hid, hstatus⟩ | ⟨habove, hbelow⟩ := h.tasks task' htask'
      · refine .inl ⟨task, htask, hid'.trans hid, ?_⟩
        obtain hsame' | hwork' := hstatus'
        · obtain hsame | hwork := hstatus
          · exact .inl (hsame'.trans hsame)
          · exact .inr hwork
        · rw [hid] at hwork'
          exact .inr (h.inWork (ht.tasks task htask) hwork')
      · have hnext := h'.next
        exact .inr ⟨by omega, by omega⟩
    · have hnext := h.next
      exact .inr ⟨by omega, hbelow⟩

theorem Turn.of_status (hid : run'.id = run.id) (htask : run'.taskId = run.taskId)
    (hbot : run'.botId = run.botId)
    (hthread : run'.threadId = run.threadId) (hstatus : run'.status = run.status) : Turn x t' run run' where
  id := hid
  taskId := htask
  botId := hbot
  threadId := hthread
  settled := fun _ => hstatus
  ended := by
    intro hopen hover
    rw [hstatus, hopen] at hover
    cases hover
  active := by
    intro hactive
    rwa [hstatus] at hactive
  working := by
    intro hworking
    unfold Run.isWorking at hworking ⊢
    rw [hstatus] at hworking
    exact .inl hworking
  stays := by
    intro hworking
    unfold Run.isWorking at hworking ⊢
    rw [hstatus]
    exact .inl hworking
  reported := by
    intro hworking hcancelled
    simp [Run.isWorking, hstatus ▸ hcancelled] at hworking

theorem Turn.refl (x : Effect) (t' : Tables) (run : Run) : Turn x t' run run :=
  .of_status rfl rfl rfl rfl rfl

variable {f : Run → Run} {g : Task → Task}

theorem Turns.of_map (hruns : t'.runs = t.runs.map f) (htasks : t'.tasks = t.tasks.map g)
    (hnext : t'.nextId = t.nextId) (hf : ∀ run ∈ t.runs, Turn x t' run (f run))
    (hg : ∀ task ∈ t.tasks, (g task).id = task.id ∧ ((g task).status = task.status ∨ InWork t task.id)) :
    Turns x t t' where
  next := by omega
  old := by
    intro run hrun
    refine ⟨f run, ?_, hf run hrun⟩
    rw [hruns]
    exact mem_map_of_mem hrun
  runs := by
    intro run' hrun'
    rw [hruns] at hrun'
    obtain ⟨run, hrun, rfl⟩ := mem_map.mp hrun'
    exact .inl ⟨run, hrun, hf run hrun⟩
  oldTask := by
    intro task htask
    refine ⟨g task, ?_, (hg task htask).1⟩
    rw [htasks]
    exact mem_map_of_mem htask
  tasks := by
    intro task' htask'
    rw [htasks] at htask'
    obtain ⟨task, htask, rfl⟩ := mem_map.mp htask'
    exact .inl ⟨task, htask, hg task htask⟩

theorem Turns.refl (x : Effect) (t : Tables) : Turns x t t := by
  apply Turns.of_map (f := id) (g := id)
  · simp
  · simp
  · rfl
  · exact fun run _ => Turn.refl x t run
  · exact fun task _ => ⟨rfl, .inl rfl⟩

theorem TablesOk.turned (h : TablesOk t) (hturns : Turns x t t')
    (hruns : (t'.runs.map (·.id)).Nodup) (htasks : (t'.tasks.map (·.id)).Nodup)
    (hcoordinator : ∀ botId ∈ t'.group.coordinatorBotId, botId ∈ t'.group.members) : TablesOk t' where
  runIds := hruns
  taskIds := htasks
  runs := by
    intro run' hrun'
    have hnext := hturns.next
    obtain ⟨run, hrun, hturn⟩ | hnew := hturns.runs run' hrun'
    · have hbelow := h.runs run hrun
      rw [hturn.id, hturn.taskId]
      omega
    · have hbelow := hnew.below
      rw [hnew.taskId]
      omega
  tasks := by
    intro task' htask'
    have hnext := hturns.next
    obtain ⟨task, htask, hid, -⟩ | ⟨-, hbelow⟩ := hturns.tasks task' htask'
    · have hbelow := h.tasks task htask
      omega
    · exact hbelow
  apart := by
    intro a' ha' b' hb' hsame
    obtain ⟨a, ha, hturnA⟩ | hnewA := hturns.runs a' ha'
    · obtain ⟨b, hb, hturnB⟩ | hnewB := hturns.runs b' hb'
      · rw [hturnA.taskId, hturnB.taskId] at hsame
        obtain hid | ⟨hoverA, hoverB⟩ := h.apart a ha b hb hsame
        · exact .inl (by rw [hturnA.id, hturnB.id, hid])
        · refine .inr ⟨?_, ?_⟩
          · rw [hturnA.settled hoverA]
            exact hoverA
          · rw [hturnB.settled hoverB]
            exact hoverB
      · have hbelow := (h.runs a ha).2
        have habove := hnewB.above
        rw [hturnA.taskId, hnewB.taskId] at hsame
        omega
    · obtain ⟨b, hb, hturnB⟩ | hnewB := hturns.runs b' hb'
      · have hbelow := (h.runs b hb).2
        have habove := hnewA.above
        rw [hnewA.taskId, hturnB.taskId] at hsame
        omega
      · rw [hnewA.taskId, hnewB.taskId] at hsame
        exact .inl hsame
  coordinator := hcoordinator

/-! ### Statements -/

theorem TablesOk.mapped (h : TablesOk t) (hturns : Turns x t t') (hruns : t'.runs = t.runs.map f)
    (htasks : t'.tasks = t.tasks.map g) (hf : ∀ run, (f run).id = run.id) (hg : ∀ task, (g task).id = task.id)
    (hcoordinator : ∀ botId ∈ t'.group.coordinatorBotId, botId ∈ t'.group.members) : TablesOk t' := by
  refine h.turned hturns ?_ ?_ hcoordinator
  · rw [hruns]
    exact Table.nodup_map h.runIds hf
  · rw [htasks]
    exact Table.nodup_map h.taskIds hg

theorem turns_createRun (t : Tables) (botId : ℕ) (threadId : ThreadId) (isOwnerSent : Bool)
    (hroom : threadId = .room → botId ∈ x.created) : Turns x t (t.createRun botId threadId isOwnerSent) where
  next := Nat.le_succ _
  old := fun run hrun => ⟨run, mem_append_left _ hrun, .refl _ _ _⟩
  runs := by
    intro run' hrun'
    obtain hrun | hnew := mem_append.mp hrun'
    · exact .inl ⟨run', hrun, .refl _ _ _⟩
    · rw [mem_singleton] at hnew
      subst hnew
      exact .inr ⟨Nat.le_refl _, Nat.lt_succ_self _, rfl, hroom⟩
  oldTask := fun task htask => ⟨task, mem_append_left _ htask, rfl⟩
  tasks := by
    intro task' htask'
    obtain htask | hnew := mem_append.mp htask'
    · exact .inl ⟨task', htask, rfl, .inl rfl⟩
    · rw [mem_singleton] at hnew
      subst hnew
      exact .inr ⟨Nat.le_refl _, Nat.lt_succ_self _⟩

theorem tablesOk_createRun (h : TablesOk t) (botId : ℕ) (threadId : ThreadId) (isOwnerSent : Bool) :
    TablesOk (t.createRun botId threadId isOwnerSent) := by
  have hturns := turns_createRun (x := ⟨none, none, [], [botId]⟩) t botId threadId isOwnerSent fun _ =>
    mem_singleton_self botId
  refine h.turned hturns ?_ ?_ h.coordinator
  · exact Table.nodup_concat h.runIds fun run hrun => Nat.ne_of_lt (h.runs run hrun).1
  · exact Table.nodup_concat h.taskIds fun task htask => Nat.ne_of_lt (h.tasks task htask)

theorem createRuns_ok (h : TablesOk t) (threadId : ThreadId) (botIds : List ℕ)
    (hroom : threadId = .room → ∀ botId ∈ botIds, botId ∈ x.created) :
    Turns x t (t.createRuns threadId botIds) ∧ TablesOk (t.createRuns threadId botIds) := by
  induction botIds generalizing t with
  | nil => exact ⟨.refl x t, h⟩
  | cons botId botIds ih =>
    have hfirst := turns_createRun (x := x) t botId threadId true fun hthread =>
      hroom hthread botId mem_cons_self
    have hok := tablesOk_createRun h botId threadId true
    obtain ⟨hrest, hrestOk⟩ := ih hok fun hthread other hother =>
      hroom hthread other (mem_cons_of_mem _ hother)
    exact ⟨hfirst.trans hrest h hok, hrestOk⟩

/-- The run that was read may still be cancelled: it is not over, or it was cancelled with its
task. -/
def Pending (t : Tables) (read : Run) : Prop :=
  ∃ run ∈ t.runs, run.id = read.id ∧ run.taskId = read.taskId ∧ run.botId = read.botId ∧
    run.threadId = read.threadId ∧
    (run.status.isTerminal = false ∨
      (run.status = .cancelled ∧ ∀ task ∈ t.tasks, task.id = run.taskId → task.status = .cancelled))

theorem pending_of_open (hmem : run ∈ t.runs) (hopen : run.status.isTerminal = false) : Pending t run :=
  ⟨run, hmem, rfl, rfl, rfl, rfl, .inl hopen⟩

theorem Pending.turned {read : Run} (h : Pending t read) (ht : TablesOk t) (hturns : Turns x t t')
    (hfinished : x.finished ≠ some read.id) : Pending t' read := by
  obtain ⟨run, hrun, hid, htask, hbot, hthread, hstatus⟩ := h
  obtain ⟨run', hrun', hturn⟩ := hturns.old run hrun
  refine ⟨run', hrun', hturn.id.trans hid, hturn.taskId.trans htask, hturn.botId.trans hbot,
    hturn.threadId.trans hthread,
    ?_⟩
  obtain hopen | ⟨hcancelled, htasks⟩ := hstatus
  · cases hover : run'.status.isTerminal with
    | false => exact .inl rfl
    | true =>
      obtain heq | ⟨hcancelled, htasks⟩ := hturn.ended hopen hover
      · exact absurd (hid ▸ heq) hfinished
      · exact .inr ⟨hcancelled, hturn.taskId ▸ htasks⟩
  · have hover : run.status.isTerminal := by
      rw [hcancelled]
      rfl
    refine .inr ⟨(hturn.settled hover).trans hcancelled, fun task' htask' hsame => ?_⟩
    obtain ⟨task, htask, hid', hstatus'⟩ := hturns.task_eq ht hrun hover htask' (hsame.trans hturn.taskId)
    rw [hstatus']
    exact htasks task htask (hid'.symm.trans (hsame.trans hturn.taskId))

section

variable {rs : List Run} {data : Run → Run}

theorem hasRun_iff : hasRun rs run ↔ ∃ read ∈ rs, read.id = run.id := by
  unfold hasRun
  simp

theorem hasTask_iff {task : Task} : hasTask rs task ↔ ∃ read ∈ rs, read.taskId = task.id := by
  unfold hasTask
  simp

section

variable (h : TablesOk t) (hpending : ∀ read ∈ rs, Pending t read)
  (hreported : ∀ run ∈ t.runs, hasRun rs run = true → run.isWorking = true → run.id ∈ x.reported)
include h hpending hreported

theorem turns_cancel
    (hdata : ∀ run, (data run).id = run.id ∧ (data run).taskId = run.taskId ∧ (data run).botId = run.botId ∧
      (data run).threadId = run.threadId ∧ (data run).status = .cancelled)
    (hruns : t'.runs = t.runs.map fun run => if hasRun rs run then data run else run)
    (htasks : t'.tasks = t.tasks.map fun task => if hasTask rs task then { task with status := .cancelled } else task)
    (hnext : t'.nextId = t.nextId) : Turns x t t' := by
  have hread : ∀ run ∈ t.runs, hasRun rs run → hasTask rs ⟨run.taskId, .queued⟩ ∧
      (run.status.isTerminal → run.status = .cancelled) := by
    intro run hrun hmatch
    obtain ⟨read, hmem, hid⟩ := hasRun_iff.mp hmatch
    obtain ⟨old, hold, hsame, htask, -, -, hstatus⟩ := hpending read hmem
    have heq := Table.eq_of_key h.runIds hold hrun (hsame.trans hid)
    subst heq
    refine ⟨hasTask_iff.mpr ⟨read, hmem, htask.symm⟩, fun hover => ?_⟩
    obtain hopen | ⟨hcancelled, -⟩ := hstatus
    · rw [hopen] at hover
      cases hover
    · exact hcancelled
  refine Turns.of_map hruns htasks hnext ?_ ?_
  · intro run hrun
    split
    · next hmatch =>
      obtain ⟨hid, htask, hbot, hthread, hstatus⟩ := hdata run
      obtain ⟨hhas, hcancelled⟩ := hread run hrun hmatch
      refine ⟨hid, htask, hbot, hthread, ?_, ?_, ?_, ?_, ?_, ?_⟩
      · intro hover
        rw [hstatus, hcancelled hover]
      · refine fun _ _ => .inr ⟨hstatus, fun task' htask' hsame => ?_⟩
        rw [htasks] at htask'
        obtain ⟨task, -, rfl⟩ := mem_map.mp htask'
        have hmatched : hasTask rs task := by
          obtain ⟨read, hmem, hread⟩ := hasTask_iff.mp hhas
          refine hasTask_iff.mpr ⟨read, hmem, hread.trans ?_⟩
          split at hsame <;> exact hsame.symm
        rw [if_pos hmatched]
      · intro hactive
        rw [hstatus] at hactive
        cases hactive
      · intro hworking
        simp [Run.isWorking, hstatus] at hworking
      · intro _
        rw [hstatus]
        exact .inr rfl
      · exact fun hworking _ => hreported run hrun hmatch hworking
    · exact Turn.refl x t' run
  · intro task htask
    split
    · next hmatch =>
      refine ⟨rfl, ?_⟩
      obtain ⟨read, hmem, hid⟩ := hasTask_iff.mp hmatch
      obtain ⟨run, hrun, -, hsame, -, -, hopen | ⟨-, hcancelled⟩⟩ := hpending read hmem
      · exact .inr ⟨run, hrun, hsame.trans hid, hopen⟩
      · exact .inl (hcancelled task htask (hid.symm.trans hsame.symm)).symm
    · exact ⟨rfl, .inl rfl⟩

theorem turns_cancelRuns : Turns x t (t.cancelRuns rs) := by
  refine turns_cancel h hpending hreported ?_ rfl rfl rfl
  exact fun run => ⟨rfl, rfl, rfl, rfl, rfl⟩

end

theorem turns_supersede (h : TablesOk t) (hpending : ∀ read ∈ rs, Pending t read)
    (hidle : ∀ run ∈ t.runs, hasRun rs run → run.isWorking = false) : Turns x t (t.supersede rs) := by
  refine turns_cancel h hpending ?_ ?_ rfl rfl rfl
  · intro run hrun hmatch hworking
    rw [hidle run hrun hmatch] at hworking
    cases hworking
  · exact fun run => ⟨rfl, rfl, rfl, rfl, rfl⟩

end

/-! ### Acts on one run -/

theorem Turn.moved (hid : run'.id = run.id) (htask : run'.taskId = run.taskId)
    (hbot : run'.botId = run.botId) (hthread : run'.threadId = run.threadId)
    (hactive : run.status.isActive) (hopen : run'.status.isTerminal = false)
    (hworking : run'.isWorking → run.isWorking ∨ x.claimed = some run.id)
    (hstays : run.isWorking → run'.isWorking) : Turn x t' run run' where
  id := hid
  taskId := htask
  botId := hbot
  threadId := hthread
  settled := by
    intro hover
    cases hstatus : run.status <;> simp [hstatus, RunStatus.isActive, RunStatus.isTerminal] at hactive hover
  ended := by
    intro _ hover
    rw [hopen] at hover
    cases hover
  active := fun _ => hactive
  working := hworking
  stays := fun hworking => .inl (hstays hworking)
  reported := by
    intro _ hcancelled
    rw [hcancelled] at hopen
    cases hopen

variable {matching : Run → Bool} {f : FinalizeInput}

theorem turns_updateRuns {data : Run → Run}
    (hdata : ∀ run ∈ t.runs, matching run → Turn x (t.updateRuns matching data) run (data run)) :
    Turns x t (t.updateRuns matching data) := by
  refine Turns.of_map rfl (map_id _).symm rfl ?_ fun task _ => ⟨rfl, .inl rfl⟩
  intro run hrun
  split
  · next hmatch => exact hdata run hrun hmatch
  · exact Turn.refl _ _ _

theorem tablesOk_updateRuns (h : TablesOk t) {data : Run → Run}
    (hturns : Turns x t (t.updateRuns matching data)) (hdata : ∀ run, (data run).id = run.id) :
    TablesOk (t.updateRuns matching data) := by
  refine h.mapped hturns rfl (map_id _).symm ?_ (fun _ => rfl) h.coordinator
  intro run
  split
  · exact hdata run
  · rfl

theorem turns_claim (now : ℕ) (c : Claiming) (hclaimed : x.claimed = some c.run.id) :
    Turns x t (claimTables t now c) := by
  refine turns_updateRuns fun run _ hmatch => ?_
  unfold Claiming.matches at hmatch
  simp only [and_eq_true, or_eq_true, decide_eq_true_eq] at hmatch
  obtain ⟨⟨hid, -⟩, hstatus⟩ := hmatch
  have hactive : run.status.isActive := by
    unfold Run.isWorking at hstatus
    unfold RunStatus.isActive
    simp only [or_eq_true, decide_eq_true_eq] at hstatus ⊢
    tauto
  exact .moved rfl rfl rfl rfl hactive rfl (fun _ => .inr (hclaimed.trans (congrArg some hid.symm)))
    fun _ => rfl

theorem turns_start (l : Lease) :
    Turns x t (t.updateRuns l.matches fun run => { run with status := .running }) := by
  refine turns_updateRuns fun run _ hmatch => ?_
  unfold Lease.matches at hmatch
  simp only [and_eq_true, decide_eq_true_eq] at hmatch
  obtain ⟨⟨⟨-, hleased⟩, -⟩, -⟩ := hmatch
  have hworking : run.isWorking := by simp [Run.isWorking, hleased]
  exact .moved rfl rfl rfl rfl (by simp [hleased, RunStatus.isActive]) rfl (fun _ => .inl hworking)
    fun _ => rfl

theorem FinalizeInput.eq_of_matches (h : f.matches run) :
    run.id = f.runId ∧ run.threadId = f.threadId ∧ run.botId = f.botId ∧ run.taskId = f.taskId ∧
      run.status = .running := by
  unfold FinalizeInput.matches at h
  simp only [and_eq_true, decide_eq_true_eq] at h
  obtain ⟨⟨⟨⟨⟨⟨⟨hid, hthread⟩, hbot⟩, htask⟩, hstatus⟩, -⟩, -⟩, -⟩ := h
  exact ⟨hid, hthread, hbot, htask, hstatus⟩

theorem turns_finalize (f : FinalizeInput) (hfinished : x.finished = some f.runId)
    (hmatch : t.runs.any f.matches) :
    Turns x t (finalizeTables t f) := by
  have hwork : InWork t f.taskId := by
    obtain ⟨run, hrun, hmatch⟩ := any_eq_true.mp hmatch
    obtain ⟨-, -, -, htask, hstatus⟩ := FinalizeInput.eq_of_matches hmatch
    exact ⟨run, hrun, htask, by rw [hstatus]; rfl⟩
  refine Turns.of_map rfl rfl rfl ?_ ?_
  · intro run hrun
    split
    · next hmatch =>
      obtain ⟨hid, -, -, -, hstatus⟩ := FinalizeInput.eq_of_matches hmatch
      have hover : f.outcome.runStatus.isTerminal ∧ f.outcome.runStatus.isActive = false ∧
          f.outcome.runStatus ≠ .cancelled := by
        cases f.outcome <;> decide
      refine ⟨rfl, rfl, rfl, rfl, ?_, ?_, ?_, ?_, ?_, ?_⟩
      · intro hsettled
        rw [hstatus] at hsettled
        cases hsettled
      · exact fun _ _ => .inl (hfinished.trans (congrArg some hid.symm))
      · intro hactive
        rw [hover.2.1] at hactive
        cases hactive
      · intro _
        exact .inl (by simp [Run.isWorking, hstatus])
      · exact fun _ => .inr hover.1
      · exact fun _ hcancelled => absurd hcancelled hover.2.2
    · exact Turn.refl _ _ _
  · intro task htask
    split
    · next hid =>
      rw [decide_eq_true_eq] at hid
      exact ⟨rfl, .inr (hid ▸ hwork)⟩
    · exact ⟨rfl, .inl rfl⟩

theorem tablesOk_finalize (h : TablesOk t) (hturns : Turns x t (finalizeTables t f)) :
    TablesOk (finalizeTables t f) := by
  refine h.mapped hturns rfl rfl ?_ ?_ h.coordinator
  · intro run
    split <;> rfl
  · intro task
    split <;> rfl

theorem tablesOk_cancelRuns (h : TablesOk t) {rs : List Run} (hturns : Turns x t (t.cancelRuns rs)) :
    TablesOk (t.cancelRuns rs) := by
  refine h.mapped hturns rfl rfl ?_ ?_ h.coordinator
  · intro run
    split <;> rfl
  · intro task
    split <;> rfl

theorem tablesOk_supersede (h : TablesOk t) {rs : List Run} (hturns : Turns x t (t.supersede rs)) :
    TablesOk (t.supersede rs) := by
  refine h.mapped hturns rfl rfl ?_ ?_ h.coordinator
  · intro run
    split <;> rfl
  · intro task
    split <;> rfl

theorem mem_supersededRuns {threadId : ThreadId} {botIds : List ℕ} {before : ℕ} :
    run ∈ supersededRuns t threadId botIds before → run ∈ t.runs ∧ run.status = .queued := by
  unfold supersededRuns
  simp only [mem_filter, and_eq_true, decide_eq_true_eq]
  rintro ⟨hmem, ⟨⟨-, hstatus⟩, -⟩, -⟩
  exact ⟨hmem, hstatus⟩

theorem superseded_ok (h : TablesOk t) (threadId : ThreadId) (botIds : List ℕ) (before : ℕ) :
    Turns x t (t.supersede (supersededRuns t threadId botIds before)) ∧
      TablesOk (t.supersede (supersededRuns t threadId botIds before)) := by
  have hturns : Turns x t (t.supersede (supersededRuns t threadId botIds before)) := by
    refine turns_supersede h ?_ ?_
    · intro read hread
      obtain ⟨hmem, hstatus⟩ := mem_supersededRuns hread
      exact pending_of_open hmem (by rw [hstatus]; rfl)
    · intro run hrun hmatch
      obtain ⟨read, hread, hid⟩ := hasRun_iff.mp hmatch
      obtain ⟨hmem, hstatus⟩ := mem_supersededRuns hread
      have heq := Table.eq_of_key h.runIds hmem hrun hid
      simp [Run.isWorking, ← heq, hstatus]
  exact ⟨hturns, tablesOk_supersede h hturns⟩

theorem send_ok (h : TablesOk t) (y : SendInput)
    (hroom : y.threadId = .room → ∀ botId ∈ y.targetBotIds t, botId ∈ x.created) :
    Turns x t (sendTables t y) ∧ TablesOk (sendTables t y) := by
  have hanswered : Turns x t (t.updateRuns (y.answers t) fun run => { run with status := .queued }) := by
    refine turns_updateRuns fun run _ hmatch => ?_
    unfold SendInput.answers at hmatch
    simp only [and_eq_true, decide_eq_true_eq] at hmatch
    have hidle : run.isWorking = false := by simp [Run.isWorking, hmatch.2]
    refine .moved rfl rfl rfl rfl (by simp [hmatch.2, RunStatus.isActive]) rfl ?_ ?_
    · intro hworking
      simp [Run.isWorking] at hworking
    · intro hworking
      rw [hidle] at hworking
      cases hworking
  have hansweredOk := tablesOk_updateRuns h hanswered fun _ => rfl
  obtain ⟨hcreated, hcreatedOk⟩ := createRuns_ok (x := x) hansweredOk y.threadId (y.idleBotIds t)
    fun hthread botId hbot => hroom hthread botId (mem_filter.mp hbot).1
  have hboth := hanswered.trans hcreated h hansweredOk
  unfold sendTables
  split
  · exact ⟨hboth, hcreatedOk⟩
  · obtain ⟨hsuperseded, hok⟩ := superseded_ok (x := x) hcreatedOk y.threadId (y.idleBotIds t) t.nextId
    exact ⟨hboth.trans hsuperseded h hcreatedOk, hok⟩

end ArdurBot.GroupRuns
