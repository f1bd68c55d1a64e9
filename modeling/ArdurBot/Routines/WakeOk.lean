import Mathlib.Data.List.Chain
import ArdurBot.Lib.Table
import ArdurBot.Routines.Wake

/-!
# The runs of a schedule

The runs of the schedule that a routine has now are linked: each was created when the routine was at
its time, and left it at the time of the next. A wake that takes its run back while the row is as it
left it takes the last of them.
-/

namespace ArdurBot.Routines

open List

def current (s : System) : List RoutineRun :=
  s.runs.filter fun run => run.scheduled.schedule = s.schedule

def Follows (later earlier : RoutineRun) : Prop := earlier.next = some later.scheduled.time

/-- The scheduled times whose runs were taken up. -/
def startedOf : List Event → List Scheduled
  | [] => []
  | .started _ scheduled :: earlier => scheduled :: startedOf earlier
  | _ :: earlier => startedOf earlier

/-- The routine was put back to a time after its run was taken back. -/
structure PutBack (history : List Event) (scheduled : Scheduled) (runId : ℕ) : Prop where
  restored : ∃ call schedule row, .restored call scheduled runId schedule row ∈ history

structure RestoredOk (scheduled : Scheduled) (schedule : ℕ) (row : Routine) : Prop where
  schedule : schedule = scheduled.schedule
  next : row.nextRunAt = some scheduled.time
  active : row.active

structure SystemOk (s : System) : Prop where
  ids : (s.runs.map RoutineRun.id).Nodup
  fresh : ∀ run ∈ s.runs, run.id < s.nextId
  keys : (s.runs.map RoutineRun.scheduled).Nodup
  schedules : ∀ run ∈ s.runs, run.scheduled.schedule ≤ s.schedule
  later : ∀ run ∈ s.runs, ∀ n, run.next = some n → run.scheduled.time < n
  linked : (current s).IsChain Follows
  head : ∀ run, (current s).head? = some run → ∀ n, s.routine.nextRunAt = some n → run.next = some n
  started : ∀ scheduled ∈ startedOf s.history, ∃ run ∈ s.runs, run.scheduled = scheduled ∧ run.isStarted
  once : (startedOf s.history).Nodup
  accepted : ∀ call scheduled runId, .accepted call scheduled runId ∈ s.history →
    (∃ run ∈ s.runs, run.id = runId ∧ run.scheduled = scheduled) ∨ PutBack s.history scheduled runId
  restored : ∀ call scheduled runId schedule row, .restored call scheduled runId schedule row ∈ s.history →
    RestoredOk scheduled schedule row

/-- The run that a wake created is as it was then. -/
structure ClaimedOk (s : System) (x : Claimed) : Prop where
  fresh : x.runId < s.nextId
  same : ∀ run ∈ s.runs, run.id = x.runId → run.scheduled = x.scheduled ∧ run.next = x.nextRunAt

def CallOk (s : System) : Call → Prop
  | .claim _ scheduledAt nextRunAt => ∀ n, nextRunAt = some n → scheduledAt < n
  | .enqueue x => ClaimedOk s x
  | .restore x => ClaimedOk s x
  | _ => True

variable {s s' : System}

variable {run : RoutineRun} {call : Call}

theorem mem_current : run ∈ current s ↔ run ∈ s.runs ∧ run.scheduled.schedule = s.schedule := by
  rw [current, mem_filter, decide_eq_true_eq]

theorem current_cons (hruns : s'.runs = run :: s.runs) (hschedule : s'.schedule = s.schedule)
    (hrun : run.scheduled.schedule = s.schedule) : current s' = run :: current s := by
  unfold current
  rw [hruns, hschedule]
  exact filter_cons_of_pos (decide_eq_true hrun)

theorem time_lt_of_linked {runs : List RoutineRun} (hlinked : runs.IsChain Follows)
    (hlater : ∀ run ∈ runs, ∀ n, run.next = some n → run.scheduled.time < n) {n : ℕ}
    (hhead : ∀ run, runs.head? = some run → run.next = some n) (hmem : run ∈ runs) :
    run.scheduled.time < n := by
  induction runs generalizing n with
  | nil => cases hmem
  | cons first rest ih =>
    have hfirst : first.scheduled.time < n := hlater first mem_cons_self n (hhead first rfl)
    obtain rfl | hrest := mem_cons.mp hmem
    · exact hfirst
    · have hnext : ∀ other, rest.head? = some other → other.next = some first.scheduled.time := by
        intro other hother
        cases rest with
        | nil => cases hother
        | cons second rest =>
          cases hother
          exact (isChain_cons_cons.mp hlinked).1
      have hbefore := ih hlinked.tail (fun other hother => hlater other (mem_cons_of_mem _ hother)) hnext hrest
      omega

theorem head_of_next (h : SystemOk s) (hmem : run ∈ current s) (hnext : run.next = s.routine.nextRunAt) :
    ∃ rest, current s = run :: rest := by
  have hlater : ∀ other ∈ current s, ∀ n, other.next = some n → other.scheduled.time < n :=
    fun other hother => h.later other (mem_current.mp hother).1
  cases hruns : current s with
  | nil =>
    rw [hruns] at hmem
    cases hmem
  | cons first rest =>
    have hlinked := h.linked
    rw [hruns] at hmem hlinked
    obtain rfl | hrest := mem_cons.mp hmem
    · exact ⟨rest, rfl⟩
    · -- a run behind the first was left by the time of another, and the routine is later than both
      exfalso
      obtain ⟨before, after, hsplit⟩ := append_of_mem hrest
      obtain ⟨later, hlaterMem, hfollows⟩ : ∃ later ∈ first :: rest, Follows later run := by
        rw [hsplit] at hlinked
        rcases hlast : (first :: before).getLast? with _ | later
        · simp at hlast
        refine ⟨later, ?_, ?_⟩
        · rw [hsplit, ← cons_append]
          exact mem_append_left _ (mem_of_getLast? hlast)
        · have hchain := isChain_append.mp (cons_append ▸ hlinked)
          exact hchain.2.2 later hlast run rfl
      rw [hfollows] at hnext
      have hbefore := time_lt_of_linked h.linked hlater
        (fun other hother => h.head other hother later.scheduled.time hnext.symm) (hruns.symm ▸ hlaterMem)
      exact absurd hbefore (Nat.lt_irrefl _)

/-- Runs are only taken up, queued again, removed, or created under new ids. -/
structure Kept (s s' : System) : Prop where
  nextId : s.nextId ≤ s'.nextId
  runs : ∀ run' ∈ s'.runs, s.nextId ≤ run'.id ∨
    ∃ run ∈ s.runs, run.id = run'.id ∧ run.scheduled = run'.scheduled ∧ run.next = run'.next

theorem Kept.of_same (hruns : s'.runs = s.runs) (hnextId : s'.nextId = s.nextId) : Kept s s' :=
  ⟨hnextId.ge, fun run hmem => .inr ⟨run, hruns ▸ hmem, rfl, rfl, rfl⟩⟩

theorem ClaimedOk.mono {x : Claimed} (h : ClaimedOk s x) (hkept : Kept s s') : ClaimedOk s' x := by
  refine ⟨h.fresh.trans_le hkept.nextId, fun run' hmem hid => ?_⟩
  obtain hnew | ⟨run, hrun, hsame, hscheduled, hnext⟩ := hkept.runs run' hmem
  · have hfresh := h.fresh
    omega
  · rw [← hscheduled, ← hnext]
    exact h.same run hrun (hsame.trans hid)

theorem CallOk.mono (h : CallOk s call) (hkept : Kept s s') : CallOk s' call := by
  cases call with
  | claim routine scheduledAt nextRunAt => exact h
  | enqueue | restore => exact ClaimedOk.mono h hkept
  | _ => exact trivial

structure Acted (s : System) (result : System × Call) : Prop where
  system : SystemOk result.1
  kept : Kept s result.1
  call : CallOk result.1 result.2

theorem acted_stay (h : SystemOk s) (hcall : CallOk s call) : Acted s (s, call) :=
  ⟨h, .of_same rfl rfl, hcall⟩

theorem acted_awaited (h : SystemOk s) {done : System × Call} (hdone : Acted s done) (answer : Answer) :
    Acted s (awaited s answer done) := by
  cases answer with
  | fails => exact acted_stay h trivial
  | lost => exact ⟨hdone.system, hdone.kept, trivial⟩
  | _ => exact hdone

theorem SystemOk.of_routine (h : SystemOk s) (routine : Routine)
    (hnext : ∀ n, routine.nextRunAt = some n → s.routine.nextRunAt = some n) : SystemOk { s with routine } :=
  ⟨h.ids, h.fresh, h.keys, h.schedules, h.later, h.linked,
    fun run hrun n hn => h.head run hrun n (hnext n hn), h.started,
    h.once, h.accepted, h.restored⟩

theorem acted_claim (h : SystemOk s) (index : ℕ) (read : Routine) (scheduledAt : ℕ)
    {nextRunAt : Option ℕ} (hlater : ∀ n, nextRunAt = some n → scheduledAt < n) :
    Acted s (claim s index read scheduledAt nextRunAt) := by
  unfold claim
  split
  · next hdue =>
    rw [Routine.isDue, Bool.and_eq_true, decide_eq_true_eq] at hdue
    have hbefore : ∀ run ∈ current s, run.scheduled.time < scheduledAt := fun run hmem =>
      time_lt_of_linked h.linked (fun other hother => h.later other (mem_current.mp hother).1)
        (fun other hother => h.head other hother scheduledAt hdue.2) hmem
    have hnew : ∀ run ∈ s.runs, run.scheduled ≠ ⟨s.schedule, scheduledAt⟩ := by
      intro run hmem heq
      have hschedule : run.scheduled.schedule = s.schedule := by rw [heq]
      have hlt := hbefore run (mem_current.mpr ⟨hmem, hschedule⟩)
      rw [heq] at hlt
      exact Nat.lt_irrefl _ hlt
    have hcurrent : current (claim s index read scheduledAt nextRunAt).1 =
        ⟨s.nextId, read.prompt, true, true, ⟨s.schedule, scheduledAt⟩, nextRunAt, false⟩ :: current s := by
      refine current_cons ?_ ?_ rfl
      · rw [claim, if_pos (by rw [Routine.isDue, hdue.1, hdue.2]; simp)]
      · rw [claim, if_pos (by rw [Routine.isDue, hdue.1, hdue.2]; simp)]
    rw [claim, if_pos (by rw [Routine.isDue, hdue.1, hdue.2]; simp)] at hcurrent
    refine ⟨⟨?_, ?_, ?_, ?_, ?_, ?_, ?_, ?_, h.once, ?_, ?_⟩, ⟨Nat.le_succ _, ?_⟩, ⟨Nat.lt_succ_self _, ?_⟩⟩
    · exact Table.nodup_cons h.ids fun run hmem => (h.fresh run hmem).ne
    · intro run hmem
      obtain rfl | hmem := mem_cons.mp hmem
      · exact Nat.lt_succ_self _
      · exact (h.fresh run hmem).trans (Nat.lt_succ_self _)
    · exact Table.nodup_cons h.keys hnew
    · intro run hmem
      obtain rfl | hmem := mem_cons.mp hmem
      · exact le_rfl
      · exact h.schedules run hmem
    · intro run hmem
      obtain rfl | hmem := mem_cons.mp hmem
      · exact hlater
      · exact h.later run hmem
    · rw [hcurrent]
      refine isChain_cons.mpr ⟨fun run hrun => ?_, h.linked⟩
      exact h.head run hrun scheduledAt hdue.2
    · intro run hrun n hn
      rw [hcurrent] at hrun
      cases hrun
      exact hn
    · intro scheduled hmem
      obtain ⟨run, hrun, hsame⟩ := h.started scheduled hmem
      exact ⟨run, mem_cons_of_mem _ hrun, hsame⟩
    · intro call scheduled runId hmem
      obtain heq | hmem := mem_cons.mp hmem
      · cases heq
        exact .inl ⟨_, mem_cons_self, rfl, rfl⟩
      · obtain ⟨run, hrun, hsame⟩ | ⟨call', schedule, row, hback⟩ := h.accepted call scheduled runId hmem
        · exact .inl ⟨run, mem_cons_of_mem _ hrun, hsame⟩
        · exact .inr ⟨call', schedule, row, mem_cons_of_mem _ hback⟩
    · intro call scheduled runId schedule row hmem
      obtain heq | hmem := mem_cons.mp hmem
      · cases heq
      · exact h.restored call scheduled runId schedule row hmem
    · intro run hmem
      obtain rfl | hmem := mem_cons.mp hmem
      · exact .inl le_rfl
      · exact .inr ⟨run, hmem, rfl, rfl, rfl⟩
    · intro run hmem hid
      obtain rfl | hmem := mem_cons.mp hmem
      · exact ⟨rfl, rfl⟩
      · exact absurd hid (h.fresh run hmem).ne
  · exact acted_stay h trivial

end ArdurBot.Routines
