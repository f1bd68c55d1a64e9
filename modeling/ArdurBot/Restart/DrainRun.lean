import ArdurBot.Restart.Drain

/-!
# Holds after any operations

While a `begin` that returned ok is relied on, the row holds the time that the last `begin` set, and
no run has a live lease. A waiting `begin` finds that time in the row when it returns.
-/

namespace ArdurBot.Restart

open List Utf16 ArdurBot.Core Bool

variable {deployment : Deployment}

structure DrainOk (deployment : Deployment) : Prop where
  held : deployment.relied ≠ [] → deployment.restartDrainUntil = some deployment.holdUntil
  ahead : deployment.relied ≠ [] → deployment.now < deployment.holdUntil
  quiet : deployment.relied ≠ [] → ∀ run ∈ deployment.runs, run.isLive deployment.now = false
  waits : deployment.waiting ≠ [] → deployment.restartDrainUntil = some deployment.holdUntil
  asking : ∀ asked ∈ deployment.asking, asked.1 ∉ deployment.stopping
  admissions : ∀ admission ∈ deployment.admissions, admission.stopping = false ∧ admission.relied = false

theorem DrainOk.isClosed (h : DrainOk deployment) (hrelied : deployment.relied ≠ []) :
    deployment.isClosed := by
  unfold Deployment.isClosed
  rw [h.held hrelied]
  exact decide_eq_true (h.ahead hrelied)

variable {run : LeasedRun} {now : ℕ} {call : DrainCall} {waiting : List DrainCall}

theorem isLive_mono {later : ℕ} (hle : now ≤ later) (h : run.isLive now = false) :
    run.isLive later = false := by
  unfold LeasedRun.isLive at h ⊢
  rw [and_eq_false_iff] at h ⊢
  refine h.imp_right ?_
  intro hexpired
  rw [decide_eq_false_iff_not] at hexpired ⊢
  omega

theorem DrainOk.setRuns (h : DrainOk deployment) {update : LeasedRun → LeasedRun}
    (hupdate : deployment.relied ≠ [] → ∀ run ∈ deployment.runs, run.isLive deployment.now = false →
      (update run).isLive deployment.now = false) :
    DrainOk { deployment with runs := deployment.runs.map update } where
  __ := h
  quiet := by
    intro hrelied run hrun
    obtain ⟨other, hother, rfl⟩ := mem_map.mp hrun
    exact hupdate hrelied other hother (h.quiet hrelied other hother)

theorem isLive_startRun (runId : Text) (fence : ℕ) (h : run.isLive now = false) :
    (startRun runId fence run).isLive now = false := by
  unfold startRun
  split
  · rename_i hstart
    simp only [and_eq_true, decide_eq_true_eq] at hstart
    unfold LeasedRun.isLive at h ⊢
    simpa [hstart.1.2] using h
  · exact h

theorem isLive_settleRun (runId : Text) (status : RunStatus) (h : run.isLive now = false) :
    (settleRun runId status run).isLive now = false := by
  unfold settleRun
  split
  · rename_i hsettle
    simp only [and_eq_true, not_eq_true'] at hsettle
    unfold LeasedRun.isLive
    rw [and_eq_false_iff]
    exact .inl hsettle.2
  · exact h

variable {id : Text}

section

variable (h : DrainOk deployment)
include h

theorem drainOk_tick (ms : ℕ) : DrainOk (deployment.tick ms) := by
  have hkept : (deployment.tick ms).relied ≠ [] →
      deployment.relied ≠ [] ∧ deployment.now + ms < deployment.holdUntil := by
    intro hrelied
    by_cases hahead : deployment.now + ms < deployment.holdUntil
    · exact ⟨by simpa [Deployment.tick, hahead] using hrelied, hahead⟩
    · simp [Deployment.tick, hahead] at hrelied
  constructor
  · exact fun hrelied => h.held (hkept hrelied).1
  · exact fun hrelied => (hkept hrelied).2
  · intro hrelied run hrun
    exact isLive_mono (Nat.le_add_right _ _) (h.quiet (hkept hrelied).1 run hrun)
  · exact h.waits
  · exact h.asking
  · exact h.admissions

theorem drainOk_begin (id : Text) (timeoutMs : ℕ) : DrainOk (deployment.begin id timeoutMs) where
  held _ := rfl
  ahead _ := by
    show deployment.now < deployment.now + restartUpdateHoldMs
    unfold restartUpdateHoldMs
    omega
  quiet := h.quiet
  waits _ := rfl
  __ := h

theorem drainOk_count (id : Text) : DrainOk (deployment.count id) := by
  unfold Deployment.count
  split
  · exact h
  rename_i call hcall
  have hwaiting : deployment.waiting ≠ [] := ne_nil_of_mem (mem_of_find?_eq_some hcall)
  split
  · exact h
  rename_i hlive
  have hquiet : ∀ run ∈ deployment.runs, run.isLive deployment.now = false := by
    simpa using hlive
  constructor
  · exact fun _ => h.waits hwaiting
  · intro hrelied
    show deployment.now < deployment.holdUntil
    by_contra hpassed
    rw [if_neg hpassed] at hrelied
    exact hpassed (h.ahead hrelied)
  · exact fun _ => hquiet
  · exact fun _ => h.waits hwaiting
  · exact h.asking
  · exact h.admissions

theorem drainOk_clearRow
    (hfree : deployment.restartDrainId = some id → deployment.waiting = [] ∧ deployment.relied = []) :
    DrainOk (clearRow deployment id) := by
  unfold clearRow
  split
  · rename_i hid
    obtain ⟨hwaiting, hrelied⟩ := hfree hid
    exact ⟨fun hne => absurd hrelied hne, fun hne => absurd hrelied hne, fun hne => absurd hrelied hne,
      fun hne => absurd hwaiting hne, h.asking, h.admissions⟩
  · exact h

theorem DrainOk.fewer {relied : List Text} (hwaiting : waiting ≠ [] → deployment.waiting ≠ [])
    (hrelied : relied ≠ [] → deployment.relied ≠ []) :
    DrainOk { deployment with waiting, relied } where
  held hne := h.held (hrelied hne)
  ahead hne := h.ahead (hrelied hne)
  quiet hne := h.quiet (hrelied hne)
  waits hne := h.waits (hwaiting hne)
  __ := h

end

theorem drainOk_expire (h : DrainOk deployment) (hsound : deployment.Sound (.expire id)) :
    DrainOk (deployment.expire id) := by
  unfold Deployment.expire
  split
  · exact h
  rename_i call hcall
  split
  · rename_i hdue
    have hfewer : DrainOk { deployment with waiting := deployment.waiting.erase call } :=
      h.fewer (fun hne hnil => hne (by rw [hnil]; rfl)) fun hne => hne
    exact drainOk_clearRow hfewer fun hid => hsound call hcall hdue hid
  · exact h

theorem drainOk_clear (h : DrainOk deployment) (hsound : deployment.Sound (.clear id)) :
    DrainOk (deployment.clear id) := by
  have hfewer : DrainOk { deployment with relied := deployment.relied.filter (· ≠ id) } := by
    apply h.fewer fun hne => hne
    rintro hne hnil
    rw [hnil] at hne
    exact hne rfl
  apply drainOk_clearRow hfewer
  intro hid
  obtain ⟨hwaiting, hrelied⟩ := hsound hid
  refine ⟨hwaiting, ?_⟩
  show deployment.relied.filter (· ≠ id) = []
  rw [filter_eq_nil_iff]
  intro other hother
  simp [hrelied other hother]

theorem restartDrainId_expire (hcall : deployment.findCall id = some call)
    (hdue : call.isDue deployment.now) :
    (deployment.expire id).restartDrainId ≠ some id := by
  unfold Deployment.expire
  rw [hcall]
  dsimp only
  rw [if_pos hdue]
  unfold clearRow
  split
  · exact nofun
  · assumption

section

variable (h : DrainOk deployment)
include h

theorem drainOk_ask (process : ℕ) (runId : Text) : DrainOk (deployment.ask process runId) := by
  unfold Deployment.ask
  split
  · exact h
  · rename_i hgoing
    refine ⟨h.held, h.ahead, h.quiet, h.waits, ?_, h.admissions⟩
    intro asked hasked
    obtain rfl | hasked := mem_cons.mp hasked
    · exact hgoing
    · exact h.asking asked hasked

theorem drainOk_claim (process : ℕ) (runId : Text) : DrainOk (deployment.claim process runId) := by
  unfold Deployment.claim
  split
  · rename_i hasked
    have hasking : ∀ asked ∈ deployment.asking.erase (process, runId), asked.1 ∉ deployment.stopping :=
      fun asked hmem => h.asking asked (mem_of_mem_erase hmem)
    split
    · exact { h with asking := hasking }
    · rename_i hopen
      -- Nobody relies on a hold when the row is open.
      have hrelied : deployment.relied = [] := by
        by_contra hne
        exact hopen (h.isClosed hne)
      refine ⟨fun hne => absurd hrelied hne, fun hne => absurd hrelied hne, fun hne => absurd hrelied hne, h.waits,
        hasking, ?_⟩
      intro admission hadmission
      obtain rfl | hadmission := mem_cons.mp hadmission
      · exact ⟨decide_eq_false (h.asking _ hasked), by simp [hrelied]⟩
      · exact h.admissions admission hadmission
  · exact h

theorem drainOk_renew {runId : Text} {fence : ℕ} (hsound : deployment.Sound (.renew runId fence)) :
    DrainOk { deployment with runs := deployment.runs.map (renewRun deployment.now runId fence) } := by
  apply h.setRuns
  intro hrelied run hrun hquiet
  unfold renewRun
  split
  · rename_i hrenew
    simp only [and_eq_true, decide_eq_true_eq] at hrenew
    rw [hsound run hrun hrenew.1.1 hrenew.1.2 hrenew.2] at hquiet
    cases hquiet
  · exact hquiet

theorem drainOk_apply (op : DrainOp) (hsound : deployment.Sound op) :
    DrainOk (DrainOp.apply deployment op) := by
  cases op with
  | tick ms => exact drainOk_tick h ms
  | begin id timeoutMs => exact drainOk_begin h id timeoutMs
  | count id => exact drainOk_count h id
  | expire id => exact drainOk_expire h hsound
  | clear id => exact drainOk_clear h hsound
  | ask process runId => exact drainOk_ask h process runId
  | claim process runId => exact drainOk_claim h process runId
  | start runId fence => exact h.setRuns fun _ _ _ hquiet => isLive_startRun runId fence hquiet
  | renew runId fence => exact drainOk_renew h hsound
  | settle runId status => exact h.setRuns fun _ _ _ hquiet => isLive_settleRun runId status hquiet
  | shutdown process =>
    refine ⟨h.held, h.ahead, h.quiet, h.waits, ?_, h.admissions⟩
    intro asked hasked hstopping
    obtain heq | hstopping := mem_cons.mp hstopping
    · exact hsound asked hasked heq
    · exact h.asking asked hasked hstopping

end

def idleRun : LeasedRun where
  id := lit "run"
  status := .queued
  leaseFence := 0
  leaseExpiresAt := 0

end ArdurBot.Restart
