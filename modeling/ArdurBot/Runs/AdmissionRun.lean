import ArdurBot.Runs.AdmissionActs

/-!
# Every run keeps the limits

A claim that writes its row adds one to what is live, for its bot and its thread only. An attempt
adds nothing, if it renews its lease before that runs out; an attempt that goes on later makes its
run live again, beside those that were admitted in the meantime.
-/

namespace ArdurBot.Runs

open List Utf16 ArdurBot.Core Bool

variable {limits : Limits} {s s' : System} {index : ℕ} {x : ClaimInput}

def IsOf (x : ClaimInput) (botId threadId : Text) : Prop := botId = x.botId ∧ threadId = x.threadId

theorem Bounded.of_room (h : Bounded limits s) (hroom : Room limits s x) (hs : Shrinks (IsOf x) s s')
    (hgrows : ∀ keep keepBriefs, liveRuns s' keep + liveBriefs s' keepBriefs ≤
      liveRuns s (fun id b t => id ≠ x.runId && keep id b t) + liveBriefs s keepBriefs + 1) : Bounded limits s' := by
  refine ⟨fun botId bot hbot => ?_, fun threadId thread hthread => ?_, fun botId threadId => ?_⟩
  · by_cases heq : botId = x.botId
    · subst heq
      obtain ⟨other, hother, hlt⟩ := hroom.bot
      have hsame : other = bot := Option.some.inj (hother.symm.trans hbot)
      subst hsame
      have hone := hgrows (fun _ b _ => b = x.botId) fun b _ => b = x.botId
      exact hone.trans hlt
    · have hruns := hs.liveRuns (fun _ b _ => b = botId) fun _ b _ hof => decide_eq_false fun hb =>
          heq (hb.symm.trans hof.1)
      have hbriefs := hs.liveBriefs (fun b _ => b = botId) fun b _ hof => decide_eq_false fun hb =>
          heq (hb.symm.trans hof.1)
      exact (Nat.add_le_add hruns hbriefs).trans (h.bot botId bot hbot)
  · by_cases heq : threadId = x.threadId
    · subst heq
      obtain ⟨other, hother, hlt⟩ := hroom.thread
      have hsame : other = thread := Option.some.inj (hother.symm.trans hthread)
      subst hsame
      have hone := hgrows (fun _ _ t => t = x.threadId) fun _ _ => false
      have hnone : liveBriefs s (fun _ _ => false) = 0 := by simp [liveBriefs]
      have hlive : liveRuns s (fun id _ t => id ≠ x.runId && t = x.threadId) < threadMaxConcurrentRuns other := hlt
      omega
    · have hruns := hs.liveRuns (fun _ _ t => t = threadId) fun _ _ t hof =>
        decide_eq_false fun ht => heq (ht.symm.trans hof.2)
      exact hruns.trans (h.thread threadId thread hthread)
  · by_cases heq : botId = x.botId ∧ threadId = x.threadId
    · obtain ⟨rfl, rfl⟩ := heq
      have hone := hgrows (fun _ b t => t = x.threadId && b = x.botId) fun b t => t = x.threadId && b = x.botId
      have hnone : liveRuns s (fun id b t => id ≠ x.runId && (t = x.threadId && b = x.botId)) +
        liveBriefs s (fun b t => t = x.threadId && b = x.botId) = 0 := hroom.botThread
      omega
    · have hother : ∀ b t, IsOf x b t → (decide (t = threadId) && decide (b = botId)) = false := by
        intro b t hof
        rw [and_eq_false_iff, decide_eq_false_iff_not, decide_eq_false_iff_not]
        by_contra hboth
        push Not at hboth
        exact heq ⟨hboth.2.symm.trans hof.1, hboth.1.symm.trans hof.2⟩
      have hruns := hs.liveRuns (fun _ b t => t = threadId && b = botId) fun _ b t hof => hother b t hof
      have hbriefs := hs.liveBriefs (fun b t => t = threadId && b = botId) fun b t hof => hother b t hof
      exact (Nat.add_le_add hruns hbriefs).trans (h.botThread botId threadId)

theorem liveRuns_setRun_le (h : (s.runs.map Run.id).Nodup) (runId : Text) (data : Run → Run)
    (keep : Text → Text → Text → Bool) :
    liveRuns (s.setRun runId data) keep ≤ liveRuns s (fun id b t => id ≠ runId && keep id b t) + 1 := by
  refine Table.countP_map_le h (k := runId) fun run _ hne hcounted => ?_
  rw [if_neg hne] at hcounted
  rw [and_eq_true] at hcounted ⊢
  exact ⟨hcounted.1, and_eq_true_iff.mpr ⟨decide_eq_true hne, hcounted.2⟩⟩

theorem setRun_shrinks_of {data : Run → Run} (hdata : ∀ run, SameIds (data run) run)
    (hof : ∀ run ∈ s.runs, run.id = x.runId → IsOf x run.botId run.threadId) :
    Shrinks (IsOf x) s (s.setRun x.runId data) where
  now := le_rfl
  runs run hmem := ⟨_, mem_setRun hmem, sameIds_setRun _ hdata run⟩
  briefs brief hmem := ⟨brief, hmem, rfl, rfl, rfl⟩
  liveRuns keep hkeep := by
    unfold Runs.liveRuns System.setRun
    rw [countP_map]
    refine countP_mono_left fun run hmem hcounted => ?_
    obtain ⟨-, hbot, hthread⟩ := sameIds_setRun x.runId hdata run
    rw [Function.comp_apply, and_eq_true] at hcounted
    by_cases hid : run.id = x.runId
    · rw [hbot, hthread, hkeep _ _ _ (hof run hmem hid)] at hcounted
      cases hcounted.2
    · rw [if_neg hid] at hcounted
      exact and_eq_true_iff.mpr hcounted
  liveBriefs keep _ := le_rfl

variable {matching : Brief → Bool} {writer : Writer} {runId : Text} {run : Run}

theorem liveBriefs_setBrief_le (h : (s.briefs.map Brief.id).Nodup) {briefId : Text}
    (hmatching : ∀ brief, matching brief → brief.id = briefId) (data : Brief → Brief)
    (keep : Text → Text → Bool) :
    liveBriefs (s.setBrief matching data) keep ≤ liveBriefs s keep + 1 := by
  refine Table.countP_map_le h (k := briefId) fun brief _ hne hcounted => ?_
  rw [if_neg fun hmatch => hne (hmatching brief hmatch)] at hcounted
  exact hcounted

theorem acted_claim (h : SystemOk limits s) (stamp : ℕ) (hinput : InputOk s x)
    (hlocked : Locked s index x.botId x.threadId) (hroom : Room limits s x) :
    Acted limits s index (claim s index x stamp) := by
  have hof : ∀ b t, IsOf x b t → Locked s index b t := by
    rintro b t ⟨rfl, rfl⟩
    exact hlocked
  have hhas := hinput.has
  unfold Has at hhas
  unfold claim
  cases htarget : x.target with
  | run workerId read =>
    rw [htarget] at hhas
    obtain ⟨hread, row, hrow, hid, hbot, hthread⟩ := hhas
    dsimp only
    have hdata : ∀ run, SameIds (claimData workerId (nextFence read.leaseFence) stamp run) run :=
      fun _ => ⟨rfl, rfl, rfl⟩
    have hkeys := updateMany_sameKeys (s := s)
      (.claim index ⟨workerId, nextFence read.leaseFence⟩ read) x.runId (read.isClaimable x.now) hdata
    refine acted_unlock .done ?_ (by split <;> exact trivial)
    obtain hnone | ⟨run, hmem, hrun, -, hsome⟩ := updateMany_cases (s := s)
      (.claim index ⟨workerId, nextFence read.leaseFence⟩ read) x.runId (read.isClaimable x.now)
      (claimData workerId (nextFence read.leaseFence) stamp)
    · rw [hnone]
      exact acted_stay h trivial
    · rw [hsome] at hkeys ⊢
      have hrows : ∀ other ∈ s.runs, other.id = x.runId → IsOf x other.botId other.threadId := by
        intro other hother hsame
        have heq : other = row := Table.eq_of_key h.runs hother hrow (hsame.trans hid.symm)
        subst heq
        exact ⟨hbot, hthread⟩
      have hset := setRun_shrinks_of hdata hrows
      refine ⟨⟨h.bounded.of_room hroom (hset.of_history _) fun keep keepBriefs => ?_, hkeys.runs ▸ h.runs, h.briefs,
        ids_of_sameKeys hkeys h.ids, h.locks⟩, (hset.of_history _).weaken hof, fun _ _ _ hlock => hlock, trivial⟩
      have hone := liveRuns_setRun_le h.runs x.runId (claimData workerId (nextFence read.leaseFence) stamp) keep
      exact (Nat.add_le_add_right hone (liveBriefs s keepBriefs)).trans (by omega)
  | brief read =>
    rw [htarget] at hhas
    obtain ⟨hmaintenance, row, hrow, hid, hbot, hthread⟩ := hhas
    dsimp only
    split
    · refine acted_unlock .done ?_ trivial
      have hdata : ∀ brief : Brief, ({ brief with
          attemptedAt := some x.now, leaseExpiresAt := some (x.now + briefLeaseMs) } : Brief).id = brief.id :=
        fun _ => rfl
      have hkeys : SameKeys s (s.setBrief read.isClaimable _) := setBrief_sameKeys hdata
      have hmatching : ∀ brief, read.isClaimable brief → brief.id = read.id := by
        intro brief hmatch
        simp only [Brief.isClaimable, and_eq_true, decide_eq_true_eq] at hmatch
        exact hmatch.1.1.1
      have hshrinks : Shrinks (IsOf x) s (s.setBrief read.isClaimable fun brief =>
          { brief with attemptedAt := some x.now, leaseExpiresAt := some (x.now + briefLeaseMs) }) := by
        refine setBrief_shrinks (fun _ => ⟨rfl, rfl, rfl⟩) fun brief hmem hmatch _ => .inr ?_
        have heq : brief = row := Table.eq_of_key h.briefs hmem hrow ((hmatching brief hmatch).trans hid.symm)
        subst heq
        exact ⟨hbot, hthread⟩
      refine ⟨⟨h.bounded.of_room hroom hshrinks fun keep keepBriefs => ?_, h.runs, hkeys.briefs ▸ h.briefs, h.ids,
        h.locks⟩, hshrinks.weaken hof, fun _ _ _ hlock => hlock, trivial⟩
      have hone := liveBriefs_setBrief_le h.briefs hmatching (fun brief =>
        { brief with attemptedAt := some x.now, leaseExpiresAt := some (x.now + briefLeaseMs) }) keepBriefs
      -- the maintenance is under an id that no run has, so the queries have left no run out
      have hruns : liveRuns s keep ≤ liveRuns s fun id b t => id ≠ x.runId && keep id b t := by
        refine countP_mono_left fun run hmem hcounted => ?_
        have hne : run.id ≠ x.runId := by
          intro hsame
          have hid := h.ids run hmem
          rw [hsame, hmaintenance] at hid
          cases hid
        rw [and_eq_true] at hcounted ⊢
        exact ⟨hcounted.1, and_eq_true_iff.mpr ⟨decide_eq_true hne, hcounted.2⟩⟩
      exact (Nat.add_le_add hruns hone).trans (by omega)
    · exact acted_unlock .done (acted_stay h trivial) trivial

def InTime (s : System) (_ : ℕ) : Call → Answer → Prop
  | .working a _, .renew _ => ∀ run ∈ s.runs, run.id = a.runId → a.lease.isRunning run → run.isLive s.now
  | .working a _, .renewPlacement _ =>
    ∀ run ∈ s.runs, run.id = a.runId → a.lease.isRunning run → run.isLive s.now
  | _, _ => True

instance InTime.decidable (s : System) (index : ℕ) (call : Call) (answer : Answer) :
    Decidable (InTime s index call answer) := by
  unfold InTime
  split <;> infer_instance

theorem acted_write (h : SystemOk limits s) {matching : Run → Bool} (data : Run → Run)
    (hdata : ∀ run, SameIds (data run) run)
    (hlive : ∀ run ∈ s.runs, run.id = runId → matching run → (data run).isLive s.now →
      run.isLive s.now) {a : Attempt} {requeue : Option (Stage × Requeue)} :
    Acted limits s index ((s.updateMany writer runId matching data).1, .working a requeue) :=
  acted_shrinks h (updateMany_shrinks h.runs writer hdata hlive)
    (updateMany_sameKeys writer runId matching hdata) trivial

theorem not_isLive_of_none (h : run.leaseExpiresAt = none) (now : ℕ) : run.isLive now = false := by
  simp [Run.isLive, h]

theorem acted_requeueStage (h : SystemOk limits s) (a : Attempt) (stage : Stage) (x : Requeue) :
    Acted limits s index (requeueStage s index a stage x) := by
  have hreleased : ∀ run, (releasedHold x run).isLive s.now = false := fun run => not_isLive_of_none rfl _
  have hplanned : ∀ run, (computerRunRequeueData x run).isLive s.now = false :=
    fun run => not_isLive_of_none rfl _
  cases stage with
  | preserve | retried =>
    refine acted_write h (releasedHold x) (fun _ => ⟨rfl, rfl, rfl⟩) fun run _ _ _ hlive => ?_
    rw [hreleased] at hlive
    cases hlive
  | planned =>
    refine acted_write h (computerRunRequeueData x) (fun _ => ⟨rfl, rfl, rfl⟩) fun run _ _ _ hlive => ?_
    rw [hplanned] at hlive
    cases hlive

theorem acted_working (h : SystemOk limits s) (a : Attempt) (requeue : Option (Stage × Requeue))
    (answer : Answer) (htime : InTime s index (.working a requeue) answer) :
    Acted limits s index (working s index a requeue answer) := by
  have hstay : ∀ a requeue, Acted limits s index (s, .working a requeue) := fun _ _ => acted_stay h trivial
  cases answer with
  | renew | renewPlacement =>
    refine acted_write h (renewData _) (fun _ => ⟨rfl, rfl, rfl⟩) fun run hmem hid hmatch _ => ?_
    exact htime run hmem hid (and_eq_true_iff.mp hmatch).1
  | save turnCheckpoint =>
    exact acted_write h (fun run => { run with turnCheckpoint := some turnCheckpoint })
      (fun _ => ⟨rfl, rfl, rfl⟩) fun _ _ _ _ hlive => hlive
  | suspend =>
    refine acted_write h suspendData (fun _ => ⟨rfl, rfl, rfl⟩) fun run _ _ _ hlive => ?_
    simp [Run.isLive, suspendData] at hlive
  | pauseForInput offered =>
    refine acted_write h (pauseForInputData offered) (fun _ => ⟨rfl, rfl, rfl⟩) fun run _ _ _ hlive => ?_
    rw [not_isLive_of_none rfl] at hlive
    cases hlive
  | pauseForTakeover =>
    refine acted_write h pauseForTakeoverData (fun _ => ⟨rfl, rfl, rfl⟩) fun run _ _ _ hlive => ?_
    rw [not_isLive_of_none rfl] at hlive
    cases hlive
  | finalize error =>
    refine acted_write h (finalizeData error) (fun _ => ⟨rfl, rfl, rfl⟩) fun run _ _ _ hlive => ?_
    rw [not_isLive_of_none rfl] at hlive
    cases hlive
  | requeueReleased =>
    unfold working
    dsimp only
    split
    · exact hstay _ _
    · split <;> exact hstay _ _
  | refreshPlan =>
    unfold working
    dsimp only
    split <;> exact hstay _ _
  | ok =>
    unfold working
    dsimp only
    split
    · exact hstay _ _
    · exact acted_requeueStage h a _ _
  | _ => exact hstay _ _

theorem callOk_prepare (h : ∃ other ∈ s.runs, SameIds other run) (workerId : Text) :
    CallOk limits s index (prepare s run workerId) := by
  unfold prepare
  split
  · exact trivial
  · obtain ⟨other, hmem, hsame⟩ := h
    exact ⟨le_rfl, rfl, other, hmem, hsame⟩

theorem callOk_readBrief (s : System) (run : Run) : CallOk limits s index (readBrief s run) := by
  unfold readBrief
  split
  · exact trivial
  · next brief hfind =>
    have hfound := find?_some hfind
    rw [and_eq_true, decide_eq_true_eq, decide_eq_true_eq] at hfound
    split
    · exact trivial
    · split
      · exact trivial
      · refine ⟨le_rfl, ?_, brief, mem_of_find?_eq_some hfind, rfl, hfound⟩
        exact isPrefixOf_iff_prefix.mpr (prefix_append _ _)

theorem acted_act (h : SystemOk limits s) {call : Call} (hcall : CallOk limits s index call) (answer : Answer)
    (htime : InTime s index call answer) : Acted limits s index (act limits s index call answer) := by
  have hdone : ∀ call, (∀ s', CallOk limits s' index call) → Acted limits s index (s, call) :=
    fun _ hany => acted_stay h (hany s)
  cases call with
  | continueRun runId workerId =>
    refine acted_awaited h (acted_stay h ?_) answer
    split
    · exact trivial
    · next run hfind =>
      split
      · exact trivial
      · exact ⟨run, mem_of_find?_eq_some hfind, rfl, rfl, rfl⟩
  | prepare run workerId =>
    refine acted_awaited h (acted_stay h ?_) answer
    split
    · exact trivial
    · exact callOk_prepare hcall workerId
  | refreshRunBrief runId =>
    refine acted_awaited h (acted_stay h ?_) answer
    split
    · exact trivial
    · split
      · exact trivial
      · split <;> exact trivial
  | readBrief run =>
    refine acted_awaited h (acted_stay h ?_) answer
    split
    · exact trivial
    · exact callOk_readBrief s run
  | lockBot x =>
    have hinput : InputOk s x := hcall
    refine acted_transaction h hinput ?_ answer
    refine acted_lock h (.bot x.botId) (.lockBot x) (.lockThread x) hinput ?_
    exact ⟨hinput.mono (Shrinks.of_same rfl rfl rfl), mem_cons_self⟩
  | lockThread x =>
    obtain ⟨hinput, hbot⟩ := hcall
    refine acted_transaction h hinput ?_ answer
    refine acted_lock h (.thread x.threadId) (.lockThread x) (.readBot x) ⟨hinput, hbot⟩ ?_
    exact ⟨hinput.mono (Shrinks.of_same rfl rfl rfl), mem_cons_of_mem _ hbot, mem_cons_self⟩
  | readBot x =>
    obtain ⟨hinput, hlocked⟩ := hcall
    refine acted_transaction h hinput ?_ answer
    split
    · exact acted_unlock .done (acted_stay h trivial) trivial
    · next bot hbot => exact acted_stay h ⟨hinput, hlocked, bot, hbot, rfl⟩
  | readThread x concurrentRuns =>
    obtain ⟨hinput, hlocked, hbot⟩ := hcall
    refine acted_transaction h hinput ?_ answer
    split
    · exact acted_unlock .done (acted_stay h trivial) trivial
    · next thread hthread =>
      refine acted_stay h ⟨hinput, hlocked, hbot, ⟨thread, hthread, rfl⟩, fun query hquery => ?_⟩
      exact absurd (show query ∈ Query.all by cases query <;> decide) hquery
  | count x concurrentRuns maxConcurrentRuns counts rest =>
    obtain ⟨hinput, hlocked, hcounted⟩ := hcall
    refine acted_transaction h hinput ?_ answer
    cases rest with
    | nil => exact acted_admission h ⟨hinput, hlocked, hcounted⟩
    | cons query rest => exact acted_stay h ⟨hinput, hlocked, hcounted.count hinput.now⟩
  | admits x =>
    refine acted_transaction h hcall.1 ?_ answer
    split
    · exact acted_unlock .done (acted_stay h trivial) trivial
    · exact acted_stay h hcall
  | claim x stamp => exact acted_transaction h hcall.1 (acted_claim h stamp hcall.1 hcall.2.1 hcall.2.2) answer
  | claimed a =>
    refine acted_awaited h (acted_stay h ?_) answer
    split
    · exact trivial
    · split <;> exact trivial
  | starting a current =>
    refine acted_awaited h ?_ answer
    have hdata : ∀ run, SameIds (startData current a.createdAt s.now run) run := fun _ => ⟨rfl, rfl, rfl⟩
    refine acted_shrinks h (updateMany_shrinks h.runs _ hdata fun run _ _ hmatch hlive => ?_)
      (updateMany_sameKeys _ _ _ hdata) (by split <;> exact trivial)
    rw [and_eq_true, decide_eq_true_eq] at hmatch
    rw [Run.isLive, and_eq_true] at hlive ⊢
    exact ⟨by simp [Run.isLeased, hmatch.1], hlive.2⟩
  | working a requeue => exact acted_working h a requeue answer htime
  | refreshing briefId now =>
    refine acted_awaited h ?_ answer
    have hshrinks : Shrinks NoOne s (s.setBrief (fun brief => brief.id = briefId && brief.attemptedAt = some now)
        fun brief => { brief with leaseExpiresAt := none }) := by
      refine setBrief_shrinks (fun _ => ⟨rfl, rfl, rfl⟩) fun brief _ _ hlive => .inl ?_
      simp [Brief.isLive] at hlive
    exact acted_shrinks h hshrinks (setBrief_sameKeys fun _ => rfl) trivial
  | refused | done | failed => exact hdone _ fun _ => trivial

/-- What happens beside the calls adds nothing that is live, and takes no lock. -/
structure Happened (limits : Limits) (s s' : System) : Prop where
  system : SystemOk limits s'
  shrinks : Shrinks NoOne s s'
  locks : s'.locks = s.locks

section

variable (h : SystemOk limits s)
include h

theorem happened_write {matching : Run → Bool} (data : Run → Run) (hdata : ∀ run, SameIds (data run) run)
    (hlive : ∀ run ∈ s.runs, run.id = runId → matching run → (data run).isLive s.now →
      run.isLive s.now) : Happened limits s (s.updateMany writer runId matching data).1 := by
  have hshrinks := updateMany_shrinks h.runs writer hdata hlive
  have hkeys := updateMany_sameKeys (s := s) writer runId matching hdata
  exact ⟨h.of_shrinks hshrinks hkeys, hshrinks, hkeys.locks⟩

theorem happened_brief (data : Brief → Brief)
    (hdata : ∀ brief, (data brief).id = brief.id ∧ (data brief).botId = brief.botId ∧
      (data brief).threadId = brief.threadId) (hlive : ∀ brief, (data brief).isLive s.now → brief.isLive s.now) :
    Happened limits s (s.setBrief matching data) := by
  have hshrinks : Shrinks NoOne s (s.setBrief matching data) :=
    setBrief_shrinks hdata fun brief _ _ hafter => .inl (hlive brief hafter)
  exact ⟨h.of_shrinks hshrinks (setBrief_sameKeys fun brief => (hdata brief).1), hshrinks, rfl⟩

theorem happened_markBriefPending (botId threadId runId briefId : Text) :
    Happened limits s (markBriefPending s botId threadId runId briefId) := by
  unfold markBriefPending
  dsimp only
  split
  · refine happened_brief h _ (fun brief => ?_) fun brief hlive => ?_
    · split <;> exact ⟨rfl, rfl, rfl⟩
    · split at hlive <;> exact hlive
  · split
    · next hfresh =>
      have hshrinks : Shrinks NoOne s { s with
          briefs := ⟨briefId, botId, threadId, some runId, none, none, none⟩ :: s.briefs } := by
        refine ⟨le_rfl, fun run hmem => ⟨run, hmem, rfl, rfl, rfl⟩,
          fun brief hmem => ⟨brief, mem_cons_of_mem _ hmem, rfl, rfl, rfl⟩, fun keep _ => le_rfl, fun keep _ => ?_⟩
        simp [liveBriefs, Brief.isLive]
      refine ⟨⟨h.bounded.of_shrinks hshrinks, h.runs, Table.nodup_cons h.briefs fun brief hmem => ?_, h.ids, h.locks⟩,
        hshrinks, rfl⟩
      exact of_decide_eq_true (all_eq_true.mp hfresh brief hmem)
    · exact ⟨h, .of_same rfl rfl rfl, rfl⟩

theorem happened_happen (happening : Happening) : Happened limits s (happen s happening) := by
  cases happening with
  | pass ms =>
    have hshrinks : Shrinks NoOne s { s with now := s.now + ms } := by
      refine ⟨Nat.le_add_right _ _, fun run hmem => ⟨run, hmem, rfl, rfl, rfl⟩,
        fun brief hmem => ⟨brief, hmem, rfl, rfl, rfl⟩, fun keep _ => ?_, fun keep _ => ?_⟩
      · refine countP_mono_left fun run _ hcounted => ?_
        rw [and_eq_true] at hcounted ⊢
        exact ⟨Run.isLive_mono (Nat.le_add_right _ _) hcounted.1, hcounted.2⟩
      · refine countP_mono_left fun brief _ hcounted => ?_
        rw [and_eq_true] at hcounted ⊢
        exact ⟨Brief.isLive_mono (Nat.le_add_right _ _) hcounted.1, hcounted.2⟩
    exact ⟨{ h with bounded := h.bounded.of_shrinks hshrinks }, hshrinks, rfl⟩
  | created run =>
    unfold happen
    dsimp only
    split
    · next haccepts =>
      rw [System.accepts, and_eq_true, and_eq_true, not_eq_true', not_eq_true'] at haccepts
      obtain ⟨⟨hleased, hid⟩, hfresh⟩ := haccepts
      have hshrinks : Shrinks NoOne s { s with runs := run :: s.runs } := by
        refine ⟨le_rfl, fun other hmem => ⟨other, mem_cons_of_mem _ hmem, rfl, rfl, rfl⟩,
          fun brief hmem => ⟨brief, hmem, rfl, rfl, rfl⟩, fun keep _ => ?_, fun keep _ => le_rfl⟩
        simp [liveRuns, Run.isLive, hleased]
      refine ⟨⟨h.bounded.of_shrinks hshrinks, Table.nodup_cons h.runs fun other hmem => ?_, h.briefs, ?_, h.locks⟩,
        hshrinks, rfl⟩
      · exact of_decide_eq_true (all_eq_true.mp hfresh other hmem)
      · intro other hmem
        obtain rfl | hmem := mem_cons.mp hmem
        · exact hid
        · exact h.ids other hmem
    · exact ⟨h, .of_same rfl rfl rfl, rfl⟩
  | release runId resume =>
    refine happened_write h (releaseData resume) (fun run => ?_) fun run _ _ _ hlive => ?_
    · unfold releaseData
      split <;> exact ⟨rfl, rfl, rfl⟩
    · unfold releaseData at hlive
      split at hlive
      · simp [Run.isLive, Run.isLeased] at hlive
      · exact hlive
  | stopRequested runId =>
    exact happened_write h (fun run => { run with cancelRequestedAt := some s.now }) (fun _ => ⟨rfl, rfl, rfl⟩)
      fun _ _ _ _ hlive => hlive
  | cancelled runId =>
    refine happened_write h cancelData (fun _ => ⟨rfl, rfl, rfl⟩) fun run _ _ _ hlive => ?_
    rw [not_isLive_of_none rfl] at hlive
    cases hlive
  | answered runId wasChoice denied =>
    refine happened_write h (answerData wasChoice denied) (fun _ => ⟨rfl, rfl, rfl⟩) fun run _ _ _ hlive => ?_
    cases denied <;> simp [Run.isLive, Run.isLeased, answerData] at hlive
  | woken runId =>
    refine happened_write h (fun run => { run with status := .queued }) (fun _ => ⟨rfl, rfl, rfl⟩)
      fun run _ _ _ hlive => ?_
    simp [Run.isLive, Run.isLeased] at hlive
  | pending botId threadId runId briefId => exact happened_markBriefPending h botId threadId runId briefId

end

theorem keeps_program (limits : Limits) :
    Calls.Keeps (program limits) (SystemOk limits) (CallOk limits) (fun _ _ => True) (fun call => call.isStart)
      InTime where
  start s index call _ _ hstart := by
    cases call with
    | continueRun | refreshRunBrief => exact trivial
    | _ => cases hstart
  act s index call answer h hcall htime := by
    have hacted := acted_act h hcall answer htime
    exact ⟨hacted.system, hacted.call⟩
  others s index call answer index' call' h hcall htime hne hcall' :=
    (acted_act h hcall answer htime).others h hne hcall'
  idle _ _ _ _ _ _ _ _ _ _ := trivial
  environment s happening h := (happened_happen h happening).system
  environmentLocal s happening index call h hcall :=
    have hhappened := happened_happen h happening
    hcall.mono hhappened.shrinks (fun _ _ _ _ hno => hno.elim) fun _ hmem => hhappened.locks.symm ▸ hmem
  environmentIdle _ _ _ _ _ := trivial

end ArdurBot.Runs
