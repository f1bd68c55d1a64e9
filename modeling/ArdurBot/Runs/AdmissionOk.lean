import ArdurBot.Lib.Table
import ArdurBot.Runs.Admission

/-!
# What each act of a claim keeps

What is live is counted under any condition on the ids. Every act but a claim leaves no count
greater, if a lease is renewed only before it runs out. A claim has the locks of its bot and its
thread, so no other claim adds to what it has counted.
-/

namespace ArdurBot.Runs

open List Utf16 ArdurBot.Core Bool

def liveRuns (s : System) (keep : Text → Text → Text → Bool) : ℕ :=
  s.runs.countP fun run => run.isLive s.now && keep run.id run.botId run.threadId

def liveBriefs (s : System) (keep : Text → Text → Bool) : ℕ :=
  s.briefs.countP fun brief => brief.isLive s.now && keep brief.botId brief.threadId

/-- The limits of bots and threads are kept, and no bot has two turns in one thread. -/
structure Bounded (limits : Limits) (s : System) : Prop where
  bot : ∀ botId bot, limits.bots botId = some bot →
    liveRuns s (fun _ b _ => b = botId) + liveBriefs s (fun b _ => b = botId) ≤ bot.limit
  thread : ∀ threadId thread, limits.threads threadId = some thread →
    liveRuns s (fun _ _ t => t = threadId) ≤ threadMaxConcurrentRuns thread
  botThread : ∀ botId threadId,
    liveRuns s (fun _ b t => t = threadId && b = botId) + liveBriefs s (fun b t => t = threadId && b = botId) ≤ 1

def isMaintenanceId (runId : Text) : Bool := (lit "brief-").isPrefixOf runId

structure SystemOk (limits : Limits) (s : System) : Prop where
  bounded : Bounded limits s
  runs : (s.runs.map Run.id).Nodup
  briefs : (s.briefs.map Brief.id).Nodup
  ids : ∀ run ∈ s.runs, isMaintenanceId run.id = false
  locks : (s.locks.map Prod.fst).Nodup

def Query.live (s : System) (x : ClaimInput) : Query → ℕ
  | .bot => liveRuns s fun id b _ => id ≠ x.runId && b = x.botId
  | .thread => liveRuns s fun id _ t => id ≠ x.runId && t = x.threadId
  | .botThread => liveRuns s fun id b t => id ≠ x.runId && (t = x.threadId && b = x.botId)
  | .botMaintenance => liveBriefs s fun b _ => b = x.botId
  | .ownBriefMaintenance => liveBriefs s fun b t => t = x.threadId && b = x.botId

variable {run : Run} {later now : ℕ} {runId : Text} {data : Run → Run} {matching : Brief → Bool}

theorem Run.isLive_mono (h : now ≤ later) (hlive : run.isLive later) : run.isLive now := by
  simp only [Run.isLive, and_eq_true, Option.any_eq_true, decide_eq_true_eq] at hlive ⊢
  obtain ⟨hleased, expiresAt, hat, hlt⟩ := hlive
  exact ⟨hleased, expiresAt, hat, by omega⟩

theorem Brief.isLive_mono {brief : Brief} (h : now ≤ later) (hlive : brief.isLive later) :
    brief.isLive now := by
  simp only [Brief.isLive, Option.any_eq_true, decide_eq_true_eq] at hlive ⊢
  obtain ⟨expiresAt, hat, hlt⟩ := hlive
  exact ⟨expiresAt, hat, by omega⟩

theorem Query.live_le_count {s : System} {x : ClaimInput} (h : x.now ≤ s.now) (query : Query) :
    query.live s x ≤ query.count s x := by
  cases query with
  | botMaintenance | ownBriefMaintenance =>
    refine countP_mono_left fun brief _ hlive => ?_
    rw [and_eq_true] at hlive ⊢
    exact ⟨Brief.isLive_mono h hlive.1, hlive.2⟩
  | _ =>
    refine countP_mono_left fun run _ hlive => ?_
    rw [and_eq_true, and_eq_true] at hlive
    rw [and_eq_true, and_eq_true]
    exact ⟨⟨hlive.2.1, Run.isLive_mono h hlive.1⟩, hlive.2.2⟩

def SameIds (run' run : Run) : Prop :=
  run'.id = run.id ∧ run'.botId = run.botId ∧ run'.threadId = run.threadId

/-- Nothing more is live, but for a bot and a thread that are excepted. -/
structure Shrinks (except : Text → Text → Prop) (s s' : System) : Prop where
  now : s.now ≤ s'.now
  runs : ∀ run ∈ s.runs, ∃ run' ∈ s'.runs, SameIds run' run
  briefs : ∀ brief ∈ s.briefs, ∃ brief' ∈ s'.briefs,
    brief'.id = brief.id ∧ brief'.botId = brief.botId ∧ brief'.threadId = brief.threadId
  liveRuns : ∀ keep, (∀ id b t, except b t → keep id b t = false) → liveRuns s' keep ≤ liveRuns s keep
  liveBriefs : ∀ keep, (∀ b t, except b t → keep b t = false) → liveBriefs s' keep ≤ liveBriefs s keep

def NoOne (_ _ : Text) : Prop := False

variable {limits : Limits} {s s' : System} {index : ℕ}

theorem Shrinks.of_same (hnow : s'.now = s.now) (hruns : s'.runs = s.runs) (hbriefs : s'.briefs = s.briefs) :
    Shrinks NoOne s s' where
  now := hnow.ge
  runs run hmem := ⟨run, hruns.symm ▸ hmem, rfl, rfl, rfl⟩
  briefs brief hmem := ⟨brief, hbriefs.symm ▸ hmem, rfl, rfl, rfl⟩
  liveRuns keep _ := by rw [Runs.liveRuns, Runs.liveRuns, hnow, hruns]
  liveBriefs keep _ := by rw [Runs.liveBriefs, Runs.liveBriefs, hnow, hbriefs]

theorem Shrinks.weaken {except except' : Text → Text → Prop} (h : Shrinks except s s')
    (hsub : ∀ b t, except b t → except' b t) : Shrinks except' s s' where
  __ := h
  liveRuns keep hkeep := h.liveRuns keep fun id b t hexcept => hkeep id b t (hsub b t hexcept)
  liveBriefs keep hkeep := h.liveBriefs keep fun b t hexcept => hkeep b t (hsub b t hexcept)

variable {except : Text → Text → Prop}

theorem Shrinks.of_noOne (h : Shrinks NoOne s s') : Shrinks except s s' :=
  h.weaken fun _ _ hno => hno.elim

theorem Shrinks.of_history (h : Shrinks except s s') (history : List Event) :
    Shrinks except s { s' with history } :=
  { h with }

theorem Bounded.of_shrinks (h : Bounded limits s) (hs : Shrinks NoOne s s') : Bounded limits s' := by
  have hruns : ∀ keep, liveRuns s' keep ≤ liveRuns s keep :=
    fun keep => hs.liveRuns keep fun _ _ _ hno => hno.elim
  have hbriefs : ∀ keep, liveBriefs s' keep ≤ liveBriefs s keep :=
    fun keep => hs.liveBriefs keep fun _ _ hno => hno.elim
  refine ⟨fun botId bot hbot => ?_, fun threadId thread hthread => ?_, fun botId threadId => ?_⟩
  · exact (Nat.add_le_add (hruns _) (hbriefs _)).trans (h.bot botId bot hbot)
  · exact (hruns _).trans (h.thread threadId thread hthread)
  · exact (Nat.add_le_add (hruns _) (hbriefs _)).trans (h.botThread botId threadId)

theorem mem_setRun (h : run ∈ s.runs) :
    (if run.id = runId then data run else run) ∈ (s.setRun runId data).runs :=
  mem_map_of_mem h

theorem sameIds_setRun (runId : Text) (hdata : ∀ run, SameIds (data run) run) (run : Run) :
    SameIds (if run.id = runId then data run else run) run := by
  split
  · exact hdata run
  · exact ⟨rfl, rfl, rfl⟩

theorem setRun_shrinks (hdata : ∀ run, SameIds (data run) run)
    (hlive : ∀ run ∈ s.runs, run.id = runId → (data run).isLive s.now → run.isLive s.now) :
    Shrinks NoOne s (s.setRun runId data) where
  now := le_rfl
  runs run hmem := ⟨_, mem_setRun hmem, sameIds_setRun _ hdata run⟩
  briefs brief hmem := ⟨brief, hmem, rfl, rfl, rfl⟩
  liveRuns keep _ := by
    unfold Runs.liveRuns System.setRun
    rw [countP_map]
    refine countP_mono_left fun run hmem hcounted => ?_
    obtain ⟨hid, hbot, hthread⟩ := sameIds_setRun runId hdata run
    simp only [Function.comp_apply, hid, hbot, hthread, and_eq_true] at hcounted ⊢
    refine ⟨?_, hcounted.2⟩
    have hafter := hcounted.1
    split at hafter
    · next hsame => exact hlive run hmem hsame hafter
    · exact hafter
  liveBriefs keep _ := le_rfl

theorem updateMany_cases (writer : Writer) (runId : Text) (matching : Run → Bool) (data : Run → Run) :
    s.updateMany writer runId matching data = (s, false) ∨
      ∃ run ∈ s.runs, run.id = runId ∧ matching run ∧ s.updateMany writer runId matching data =
        ({ s.setRun runId data with history := ⟨writer, run, data run⟩ :: s.history }, true) := by
  unfold System.updateMany
  split
  · exact .inl rfl
  · next run hfind =>
    have hfound := find?_some hfind
    rw [and_eq_true, decide_eq_true_eq] at hfound
    exact .inr ⟨run, mem_of_find?_eq_some hfind, hfound.1, hfound.2, rfl⟩

theorem updateMany_shrinks (h : (s.runs.map Run.id).Nodup) (writer : Writer) {matching : Run → Bool}
    (hdata : ∀ run, SameIds (data run) run)
    (hlive : ∀ run ∈ s.runs, run.id = runId → matching run → (data run).isLive s.now →
      run.isLive s.now) : Shrinks NoOne s (s.updateMany writer runId matching data).1 := by
  obtain hnone | ⟨run, hmem, hid, hmatch, hsome⟩ := updateMany_cases (s := s) writer runId matching data
  · rw [hnone]
    exact .of_same rfl rfl rfl
  · rw [hsome]
    have hset : Shrinks NoOne s (s.setRun runId data) := by
      refine setRun_shrinks hdata fun other hother hsame hafter => ?_
      have heq : other = run := Table.eq_of_key h hother hmem (hsame.trans hid.symm)
      subst heq
      exact hlive other hother hsame hmatch hafter
    exact hset.of_history _

theorem setBrief_shrinks {data : Brief → Brief}
    (hdata : ∀ brief, (data brief).id = brief.id ∧ (data brief).botId = brief.botId ∧
      (data brief).threadId = brief.threadId)
    (hlive : ∀ brief ∈ s.briefs, matching brief → (data brief).isLive s.now →
      brief.isLive s.now ∨ except brief.botId brief.threadId) :
    Shrinks except s (s.setBrief matching data) where
  now := le_rfl
  runs run hmem := ⟨run, hmem, rfl, rfl, rfl⟩
  briefs brief hmem := by
    refine ⟨_, mem_map_of_mem hmem, ?_⟩
    split
    · exact hdata brief
    · exact ⟨rfl, rfl, rfl⟩
  liveRuns keep _ := le_rfl
  liveBriefs keep hkeep := by
    unfold Runs.liveBriefs System.setBrief
    rw [countP_map]
    refine countP_mono_left fun brief hmem hcounted => ?_
    obtain ⟨-, hbot, hthread⟩ := hdata brief
    rw [Function.comp_apply, and_eq_true] at hcounted
    rw [and_eq_true]
    split at hcounted
    · rename_i hmatch
      rw [hbot, hthread] at hcounted
      obtain hbefore | hexcept := hlive brief hmem hmatch hcounted.1
      · exact ⟨hbefore, hcounted.2⟩
      · rw [hkeep _ _ hexcept] at hcounted
        cases hcounted.2
    · exact hcounted

/-- The lists of ids, and the locks, are as they were. -/
structure SameKeys (s s' : System) : Prop where
  runs : s'.runs.map Run.id = s.runs.map Run.id
  briefs : s'.briefs.map Brief.id = s.briefs.map Brief.id
  locks : s'.locks = s.locks

theorem updateMany_sameKeys (writer : Writer) (runId : Text) (matching : Run → Bool)
    (hdata : ∀ run, SameIds (data run) run) :
    SameKeys s (s.updateMany writer runId matching data).1 := by
  obtain hnone | ⟨run, -, -, -, hsome⟩ := updateMany_cases (s := s) writer runId matching data
  · rw [hnone]
    exact ⟨rfl, rfl, rfl⟩
  · rw [hsome]
    exact ⟨Table.map_key fun run => (sameIds_setRun runId hdata run).1, rfl, rfl⟩

theorem setBrief_sameKeys {data : Brief → Brief} (hdata : ∀ brief, (data brief).id = brief.id) :
    SameKeys s (s.setBrief matching data) := by
  refine ⟨rfl, Table.map_key fun brief => ?_, rfl⟩
  split
  · exact hdata brief
  · rfl

theorem ids_of_sameKeys (h : SameKeys s s') (hids : ∀ run ∈ s.runs, isMaintenanceId run.id = false) :
    ∀ run ∈ s'.runs, isMaintenanceId run.id = false := by
  intro run hmem
  have hid : run.id ∈ s.runs.map Run.id := h.runs ▸ mem_map_of_mem hmem
  obtain ⟨other, hother, heq⟩ := mem_map.mp hid
  rw [← heq]
  exact hids other hother

theorem SystemOk.of_shrinks (h : SystemOk limits s) (hs : Shrinks NoOne s s') (hkeys : SameKeys s s') :
    SystemOk limits s' where
  bounded := h.bounded.of_shrinks hs
  runs := hkeys.runs ▸ h.runs
  briefs := hkeys.briefs ▸ h.briefs
  ids := ids_of_sameKeys hkeys h.ids
  locks := hkeys.locks ▸ h.locks

end ArdurBot.Runs
