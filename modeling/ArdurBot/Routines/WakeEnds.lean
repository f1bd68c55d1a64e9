import ArdurBot.Routines.WakeOk

/-!
# Each scheduled time has one run

The compensation of a wake is in order when it takes back a run that no one has taken up, and puts
back a routine that no one has edited, or does neither. The queue may fail after it accepted the
job, and the reconciler takes up any run that is queued, so the code does not see to that; and the
task of a run stays queued while it works, and is deleted with it.
-/

namespace ArdurBot.Routines

open List Utf16 Bool

variable {s s' : System}

/-- A compensation takes back a run that no one took up and restores the routine, or finds the run
ended and the routine not as it left it. -/
def InOrder (s : System) (_ : ℕ) : Call → Answer → Prop
  | .restore x, answer => answer ≠ .fails →
      ((∃ run ∈ s.runs, x.isDeleted run ∧ run.isStarted = false) ∧ x.isRestorable s.routine ∧
        s.schedule = x.schedule) ∨
      (∀ run ∈ s.runs, x.isDeleted run = false) ∧ x.isRestorable s.routine = false
  | _, _ => True

instance InOrder.decidable (s : System) (index : ℕ) (call : Call) (answer : Answer) :
    Decidable (InOrder s index call answer) := by
  unfold InOrder
  split <;> infer_instance

theorem filter_isDeleted {x : Claimed} {run : RoutineRun} {rest : List RoutineRun}
    (hids : ((run :: rest).map RoutineRun.id).Nodup) (hrun : x.isDeleted run) :
    (run :: rest).filter (fun other => !x.isDeleted other) = rest := by
  rw [filter_cons_of_neg (by rw [hrun]; decide), filter_eq_self]
  intro other hother
  have hid : run.id = x.runId := of_decide_eq_true (and_eq_true_iff.mp hrun).1
  have hne : other.id ≠ x.runId := by
    intro heq
    exact (nodup_cons.mp hids).1 (mem_map.mpr ⟨other, hother, heq.trans hid.symm⟩)
  simp [Claimed.isDeleted, hne]

theorem acted_restore (h : SystemOk s) (index : ℕ) {x : Claimed} (hx : ClaimedOk s x)
    (horder : ((∃ run ∈ s.runs, x.isDeleted run ∧ run.isStarted = false) ∧ x.isRestorable s.routine ∧
        s.schedule = x.schedule) ∨
      (∀ run ∈ s.runs, x.isDeleted run = false) ∧ x.isRestorable s.routine = false) :
    Acted s (restore s index x, .failed) := by
  obtain ⟨⟨run, hmem, hdeleted, hstarted⟩, hrestorable, hschedule⟩ | ⟨hnone, hrestorable⟩ := horder
  · have hid : run.id = x.runId := of_decide_eq_true (and_eq_true_iff.mp hdeleted).1
    obtain ⟨hscheduled, hnext⟩ := hx.same run hmem hid
    have hrow : s.routine.nextRunAt = x.nextRunAt := of_decide_eq_true (and_eq_true_iff.mp hrestorable).1
    have hcurrent : run ∈ current s := by
      refine mem_current.mpr ⟨hmem, ?_⟩
      rw [hscheduled, hschedule]
      rfl
    obtain ⟨rest, hruns⟩ := head_of_next h hcurrent (hnext.trans hrow.symm)
    have hids : ((run :: rest).map RoutineRun.id).Nodup := by
      rw [← hruns]
      exact h.ids.sublist (filter_sublist.map _)
    have hkept : ∀ other ∈ s.runs, other ≠ run → (!x.isDeleted other) = true := by
      intro other hother hne
      have hother' : other.id ≠ x.runId := fun heq => hne (Table.eq_of_key h.ids hother hmem (heq.trans hid.symm))
      simp [Claimed.isDeleted, hother']
    have hrest : current (restore s index x) = rest := by
      rw [restore, if_pos hrestorable]
      unfold current
      rw [filter_filter]
      have hswap : (fun run : RoutineRun => decide (run.scheduled.schedule = s.schedule) && !x.isDeleted run) =
          fun run => (!x.isDeleted run) && decide (run.scheduled.schedule = s.schedule) := by
        funext run
        exact and_comm _ _
      change s.runs.filter (fun run => decide (run.scheduled.schedule = s.schedule) && !x.isDeleted run) = rest
      rw [hswap, ← filter_filter]
      change (current s).filter (fun run => !x.isDeleted run) = rest
      rw [hruns]
      exact filter_isDeleted hids hdeleted
    have hlinked := h.linked
    rw [hruns] at hlinked
    rw [restore, if_pos hrestorable] at hrest
    rw [restore, if_pos hrestorable]
    refine ⟨⟨?_, ?_, ?_, ?_, ?_, ?_, ?_, ?_, h.once, ?_, ?_⟩, ⟨le_rfl, ?_⟩, trivial⟩
    · exact h.ids.sublist (filter_sublist.map _)
    · exact fun other hother => h.fresh other (mem_of_mem_filter hother)
    · exact h.keys.sublist (filter_sublist.map _)
    · exact fun other hother => h.schedules other (mem_of_mem_filter hother)
    · exact fun other hother => h.later other (mem_of_mem_filter hother)
    · rw [hrest]
      exact (isChain_cons.mp hlinked).2
    · intro other hother n hn
      rw [hrest] at hother
      cases hn
      have hfollows := (isChain_cons.mp hlinked).1 other hother
      rw [hfollows, hscheduled]
      rfl
    · intro scheduled hstart
      obtain ⟨other, hother, hsame, htaken⟩ := h.started scheduled hstart
      refine ⟨other, mem_filter.mpr ⟨hother, hkept other hother ?_⟩, hsame, htaken⟩
      rintro rfl
      rw [hstarted] at htaken
      cases htaken
    · intro call scheduled runId haccepted
      obtain heq | haccepted := mem_cons.mp haccepted
      · cases heq
      obtain ⟨other, hother, hrun, hsame⟩ | ⟨call', schedule, row, hback⟩ := h.accepted call scheduled runId haccepted
      · by_cases heq : other = run
        · subst heq
          rw [hid] at hrun
          subst hrun
          rw [← hsame, hscheduled]
          exact .inr ⟨index, s.schedule, _, mem_cons_self⟩
        · exact .inl ⟨other, mem_filter.mpr ⟨hother, hkept other hother heq⟩, hrun, hsame⟩
      · exact .inr ⟨call', schedule, row, mem_cons_of_mem _ hback⟩
    · intro call scheduled runId schedule row hmem'
      obtain heq | hmem' := mem_cons.mp hmem'
      · cases heq
        exact ⟨hschedule, rfl, rfl⟩
      · exact h.restored call scheduled runId schedule row hmem'
    · exact fun other hother => .inr ⟨other, mem_of_mem_filter hother, rfl, rfl, rfl⟩
  · have hsame : restore s index x = s := by
      have hruns : s.runs.filter (fun run => !x.isDeleted run) = s.runs := by
        rw [filter_eq_self]
        intro run hmem
        rw [hnone run hmem]
        rfl
      unfold restore
      rw [if_neg (by rw [hrestorable]; exact false_ne_true)]
      rw [hruns]
    rw [hsame]
    exact acted_stay h trivial

theorem acted_act {nextRun : NextRun} (hlater : IsLater nextRun) (h : SystemOk s) (index : ℕ) {call : Call}
    (hcall : CallOk s call) (answer : Answer) (horder : InOrder s index call answer) :
    Acted s (act nextRun s index call answer) := by
  cases call with
  | wake scheduledAt =>
    refine acted_awaited h (acted_stay h ?_) answer
    split
    · exact trivial
    · split <;> exact trivial
  | defer | reschedule =>
    refine acted_awaited h ?_ answer
    exact acted_stay h trivial
  | readThread routine scheduledAt =>
    refine acted_awaited h (acted_stay h ?_) answer
    split
    · exact trivial
    · split
      · exact trivial
      · intro n hn
        unfold nextRunOf at hn
        split at hn
        · cases hn
        · have hlt := lt_nextCronDateAcross hlater routine.crons hn
          exact (le_max_right _ _).trans_lt hlt
  | stop scheduledAt =>
    refine acted_awaited h ?_ answer
    split
    · refine ⟨h.of_routine _ fun n hn => ?_, .of_same rfl rfl, trivial⟩
      cases hn
    · exact acted_stay h trivial
  | claim routine scheduledAt nextRunAt =>
    exact acted_awaited h (acted_claim h index routine scheduledAt hcall) answer
  | enqueue x =>
    refine acted_stay h ?_
    split
    · exact hcall
    · exact trivial
  | restore x =>
    change Acted s (if answer = .fails then s else restore s index x, .failed)
    by_cases hfails : answer = .fails
    · rw [if_pos hfails]
      exact acted_stay h trivial
    · rw [if_neg hfails]
      exact acted_restore h index hcall (horder hfails)
  | signal x =>
    refine acted_stay h ?_
    split
    · exact trivial
    · split <;> exact trivial
  | done | failed => exact acted_stay h trivial

structure Happened (s s' : System) : Prop where
  system : SystemOk s'
  kept : Kept s s'

theorem current_setRun (s : System) (runId : ℕ) {data : RoutineRun → RoutineRun}
    (hdata : ∀ run, (data run).scheduled = run.scheduled) :
    current (s.setRun runId data) = (current s).map fun run => if run.id = runId then data run else run := by
  unfold current System.setRun
  rw [filter_map]
  refine congrArg (map _) (filter_congr fun run _ => ?_)
  rw [Function.comp_apply]
  split
  · rw [hdata]
  · rfl

theorem happened_setRun (h : SystemOk s) (runId : ℕ) (data : RoutineRun → RoutineRun)
    (hdata : ∀ run, (data run).id = run.id ∧ (data run).scheduled = run.scheduled ∧ (data run).next = run.next)
    (hstarted : ∀ run, run.isStarted → (data run).isStarted) : Happened s (s.setRun runId data) := by
  have hsame : ∀ run : RoutineRun, (if run.id = runId then data run else run).id = run.id ∧
      (if run.id = runId then data run else run).scheduled = run.scheduled ∧
      (if run.id = runId then data run else run).next = run.next := by
    intro run
    split
    · exact hdata run
    · exact ⟨rfl, rfl, rfl⟩
  have hmem : ∀ run' ∈ (s.setRun runId data).runs, ∃ run ∈ s.runs,
      run.id = run'.id ∧ run.scheduled = run'.scheduled ∧ run.next = run'.next := by
    intro run' hrun'
    obtain ⟨run, hrun, rfl⟩ := mem_map.mp hrun'
    exact ⟨run, hrun, (hsame run).1.symm, (hsame run).2.1.symm, (hsame run).2.2.symm⟩
  have hfollows : ∀ later earlier : RoutineRun, Follows later earlier →
      Follows (if later.id = runId then data later else later) (if earlier.id = runId then
        data earlier else earlier) := by
    intro later earlier hlinked
    rw [Follows, (hsame earlier).2.2, (hsame later).2.1]
    exact hlinked
  refine ⟨⟨?_, ?_, ?_, ?_, ?_, ?_, ?_, ?_, h.once, ?_, h.restored⟩,
    ⟨le_rfl, fun run' hrun' => .inr (hmem run' hrun')⟩⟩
  · exact Table.nodup_map h.ids fun run => (hsame run).1
  · intro run' hrun'
    obtain ⟨run, hrun, hid, -⟩ := hmem run' hrun'
    rw [← hid]
    exact h.fresh run hrun
  · exact Table.nodup_map h.keys fun run => (hsame run).2.1
  · intro run' hrun'
    obtain ⟨run, hrun, -, hscheduled, -⟩ := hmem run' hrun'
    rw [← hscheduled]
    exact h.schedules run hrun
  · intro run' hrun'
    obtain ⟨run, hrun, -, hscheduled, hnext⟩ := hmem run' hrun'
    rw [← hscheduled, ← hnext]
    exact h.later run hrun
  · rw [current_setRun s runId fun run => (hdata run).2.1]
    exact isChain_map_of_isChain _ hfollows h.linked
  · intro run' hrun' n hn
    rw [current_setRun s runId fun run => (hdata run).2.1, head?_map] at hrun'
    obtain ⟨run, hrun, rfl⟩ := Option.map_eq_some_iff.mp hrun'
    rw [(hsame run).2.2]
    exact h.head run hrun n hn
  · intro scheduled hstart
    obtain ⟨run, hrun, hscheduled, htaken⟩ := h.started scheduled hstart
    refine ⟨_, mem_map_of_mem hrun, (hsame run).2.1.trans hscheduled, ?_⟩
    split
    · exact hstarted run htaken
    · exact htaken
  · intro call scheduled id haccepted
    obtain ⟨run, hrun, hid, hscheduled⟩ | hback := h.accepted call scheduled id haccepted
    · exact .inl ⟨_, mem_map_of_mem hrun, (hsame run).1.trans hid, (hsame run).2.1.trans hscheduled⟩
    · exact .inr hback

theorem happened_take (h : SystemOk s) (runId : ℕ) : Happened s (take s runId) := by
  unfold take
  split
  · exact ⟨h, .of_same rfl rfl⟩
  · next run hfind =>
    have hmem := mem_of_find?_eq_some hfind
    have hfound := find?_some hfind
    rw [and_eq_true, decide_eq_true_eq] at hfound
    have hset := happened_setRun h runId (fun run => { run with isQueued := false, isStarted := true })
      (fun _ => ⟨rfl, rfl, rfl⟩) fun _ _ => rfl
    split
    · exact hset
    · next hfirst =>
      have hok := hset.system
      refine ⟨⟨hok.ids, hok.fresh, hok.keys, hok.schedules, hok.later, hok.linked, hok.head, ?_, ?_, ?_, ?_⟩,
        ⟨hset.kept.nextId, hset.kept.runs⟩⟩
      · intro scheduled hstart
        obtain rfl | hstart := mem_cons.mp hstart
        · exact ⟨_, mem_map_of_mem hmem, by rw [if_pos hfound.1], by rw [if_pos hfound.1]⟩
        · exact hok.started scheduled hstart
      · refine nodup_cons.mpr ⟨fun hstart => ?_, h.once⟩
        obtain ⟨other, hother, hsame, htaken⟩ := h.started run.scheduled hstart
        rw [Table.eq_of_key h.keys hother hmem hsame] at htaken
        exact hfirst htaken
      · intro call scheduled id haccepted
        obtain heq | haccepted := mem_cons.mp haccepted
        · cases heq
        · obtain hrun | ⟨call', schedule, row, hback⟩ := hok.accepted call scheduled id haccepted
          · exact .inl hrun
          · exact .inr ⟨call', schedule, row, mem_cons_of_mem _ hback⟩
      · intro call scheduled id schedule row hback
        obtain heq | hback := mem_cons.mp hback
        · cases heq
        · exact h.restored call scheduled id schedule row hback

theorem happened_happen (h : SystemOk s) (happening : Happening) : Happened s (happen s happening) := by
  cases happening with
  | pass ms =>
    exact ⟨{ h with }, .of_same rfl rfl⟩
  | take runId => exact happened_take h runId
  | requeue runId =>
    exact happened_setRun h runId (fun run =>
      { run with isQueued := run.isQueued || run.isStarted && run.isTaskQueued }) (fun _ =>
        ⟨rfl, rfl, rfl⟩) fun _ htaken => htaken
  | finish runId =>
    exact happened_setRun h runId (fun run => { run with isQueued := false, isTaskQueued := false })
      (fun _ => ⟨rfl, rfl, rfl⟩) fun _ htaken => htaken
  | edit active nextRunAt crons timezone prompt =>
    have hnone : current (happen s (.edit active nextRunAt crons timezone prompt)) = [] := by
      refine filter_eq_nil_iff.mpr fun run hmem => ?_
      have hle := h.schedules run hmem
      rw [decide_eq_true_eq]
      change run.scheduled.schedule ≠ s.schedule + 1
      omega
    refine ⟨⟨h.ids, h.fresh, h.keys, fun run hmem => (h.schedules run hmem).trans (Nat.le_succ _), h.later, ?_, ?_,
      h.started, h.once, h.accepted, h.restored⟩, .of_same rfl rfl⟩
    · rw [hnone]
      exact List.IsChain.nil
    · intro run hrun
      rw [hnone] at hrun
      cases hrun

theorem keeps_program {nextRun : NextRun} (hlater : IsLater nextRun) :
    Calls.Keeps (program nextRun) SystemOk (fun s _ => CallOk s) (fun _ _ => True) (fun call => call.isStart)
      InOrder where
  start s index call _ _ hstart := by
    cases call with
    | wake scheduledAt => exact trivial
    | _ => cases hstart
  act s index call answer h hcall horder := by
    have hacted := acted_act hlater h index hcall answer horder
    exact ⟨hacted.system, hacted.call⟩
  others s index call answer index' call' h hcall horder _ hcall' :=
    hcall'.mono (acted_act hlater h index hcall answer horder).kept
  idle _ _ _ _ _ _ _ _ _ _ := trivial
  environment s happening h := (happened_happen h happening).system
  environmentLocal s happening index call h hcall := hcall.mono (happened_happen h happening).kept
  environmentIdle _ _ _ _ _ := trivial

/-- What holds of the runs and the history of a routine. -/
structure WakeupsOk (runs : List RoutineRun) (history : List Event) : Prop where
  /-- Each scheduled time has one run at most that was ever taken up. -/
  once : (startedOf history).Nodup
  /-- A time that was accepted has its run, or was put back. -/
  accepted : ∀ call scheduled runId, .accepted call scheduled runId ∈ history →
    (∃ run ∈ runs, run.id = runId ∧ run.scheduled = scheduled) ∨ PutBack history scheduled runId
  /-- A routine is put back to its time, switched on, only when no one has edited it since. -/
  restored : ∀ call scheduled runId schedule row, .restored call scheduled runId schedule row ∈ history →
    RestoredOk scheduled schedule row

def newSystem (now : ℕ) (routine : Routine) : Calls.State System Call where
  shared := ⟨now, routine, 0, [], 0, []⟩
  calls := []

def dayMs : ℕ := 86400000

def midnight : NextRun := fun _ _ start => some ((start / dayMs + 1) * dayMs)

theorem isLater_midnight : IsLater midnight := by
  intro cron timezone start time h
  cases h
  unfold dayMs
  omega

def daily : Routine where
  active := true
  nextRunAt := some dayMs
  lastRunAt := none
  crons := [lit "0 0 * * *"]
  timezone := lit "UTC"
  prompt := lit "Report."
  threadId := none

/-- A wake whose job is refused puts the routine back; the next wake starts the run, and another
finds it gone on. The run ends, and the compensation of its wake, after the routine was edited,
leaves it. -/
def wokenAgain : List (Calls.Op Call Answer Happening) :=
  [.environment (.pass dayMs), .start (.wake dayMs), .act 0 .ok, .act 0 .ok, .act 0 .ok, .act 0 .fails, .act 0 .ok,
    .start (.wake dayMs), .act 1 .ok, .act 1 .ok, .act 1 .ok, .act 1 .lost, .environment (.take 1),
    .start (.wake dayMs), .act 2 .ok, .environment (.finish 1),
    .environment (.edit true (some (3 * dayMs)) [lit "0 0 * * *"] (lit "UTC") (lit "Report.")), .act 1 .ok]

/-- The queue fails after it accepted the job, and the run is taken up before the compensation. -/
def acceptedThenFailed : List (Calls.Op Call Answer Happening) :=
  [.environment (.pass dayMs), .start (.wake dayMs), .act 0 .ok, .act 0 .ok, .act 0 .ok, .act 0 .lost,
    .environment (.take 0), .act 0 .ok,
    .start (.wake dayMs), .act 1 .ok, .act 1 .ok, .act 1 .ok, .act 1 .ok, .environment (.take 1)]

end ArdurBot.Routines
