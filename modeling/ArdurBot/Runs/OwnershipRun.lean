import ArdurBot.Runs.Ownership

/-!
# Every run of the calls keeps ownership

A call reads its run before it claims it, and the fence that it claims with is one more than the
fence that it read. As long as no other claim of the run lies in between, the fences grow, and each
write of an attempt is of the one that claimed last.
-/

namespace ArdurBot.Runs

open List Utf16 ArdurBot.Core Bool

variable {limits : Limits} {s s' : System} {index : ℕ}

/-- A claim that matches its row finds the fence that its call read. -/
def FreshFence (s : System) (_ : ℕ) : Call → Answer → Prop
  | .claim ⟨runId, _, _, now, .run _ read⟩ _, _ =>
    ∀ run ∈ s.runs, run.id = runId → read.isClaimable now run → run.leaseFence = read.leaseFence
  | _, _ => True

instance FreshFence.decidable (s : System) (index : ℕ) (call : Call) (answer : Answer) :
    Decidable (FreshFence s index call answer) := by
  unfold FreshFence
  split <;> infer_instance

structure OwnActed (s : System) (index : ℕ) (result : System × Call) : Prop where
  system : OwnedOk result.1
  grew : Grew s result.1
  call : OwnCallOk result.1 index result.2

theorem OwnedOk.of_same (h : OwnedOk s) (hruns : s'.runs = s.runs)
    (hhistory : s'.history = s.history) : OwnedOk s' where
  history := hhistory.symm ▸ h.history
  keys := hruns.symm ▸ h.keys
  fence := by
    rw [hruns, hhistory]
    exact h.fence
  known := by
    rw [hruns, hhistory]
    exact h.known
  recorded := by
    rw [hruns, hhistory]
    exact h.recorded

theorem grew_of_same (hhistory : s'.history = s.history) : Grew s s' := by
  intro runId claim hmem
  rw [hhistory]
  exact hmem

variable {call : Call} {done : System × Call} {run : Run} {a : Attempt}

section

variable (h : OwnedOk s)
include h

theorem own_same (s' : System) (hruns : s'.runs = s.runs) (hhistory : s'.history = s.history)
    (hcall : OwnCallOk s index call) : OwnActed s index (s', call) :=
  ⟨h.of_same hruns hhistory, grew_of_same hhistory, hcall.mono (grew_of_same hhistory)⟩

theorem own_stay (hcall : OwnCallOk s index call) : OwnActed s index (s, call) :=
  own_same h s rfl rfl hcall

theorem own_awaited (hdone : OwnActed s index done) (answer : Answer) :
    OwnActed s index (awaited s answer done) := by
  cases answer with
  | fails => exact own_stay h trivial
  | lost => exact ⟨hdone.system, hdone.grew, trivial⟩
  | _ => exact hdone

theorem own_transaction (x : ClaimInput) (hdone : OwnActed s index done) (answer : Answer) :
    OwnActed s index (transaction s index x answer done) := by
  cases answer with
  | fails | conflict => exact own_same h (s.unlock index) rfl rfl trivial
  | lost => exact ⟨hdone.system.of_same rfl rfl, hdone.grew, trivial⟩
  | _ => exact hdone

theorem own_lock (lock : Lock) (waits next : Call) (hwaits : OwnCallOk s index waits)
    (hnext : OwnCallOk s index next) : OwnActed s index (Runs.lock s index lock waits next) := by
  unfold Runs.lock
  split
  · exact own_stay h hwaits
  · exact own_same h { s with locks := (lock, index) :: s.locks } rfl rfl hnext

end

theorem not_isTerminal_of_isClaimable (read : Run) (now : ℕ) (h : read.isClaimable now run) :
    run.status.isTerminal = false := by
  simp only [Run.isClaimable, Run.isLeased, and_eq_true, or_eq_true, decide_eq_true_eq] at h
  rw [RunStatus.isTerminal]
  obtain ((hstatus | hstatus) | hstatus) | ⟨hstatus | hstatus, -⟩ := h.2 <;> rw [hstatus] <;> rfl

/-- The fence of a claim that finds what its call read is greater than those of all claims
before. -/
theorem fence_lt (h : OwnedOk s) (hmem : run ∈ s.runs) {claim : ℕ × Lease}
    (hclaim : claim ∈ claims run.id s.history) :
    claim.2.fence < nextFence run.leaseFence := by
  rcases hfirst : (claims run.id s.history).head? with _ | first
  · rw [head?_eq_none_iff.mp hfirst] at hclaim
    cases hclaim
  have hfence := h.fence run hmem first hfirst
  unfold nextFence
  obtain rfl | hlt := le_head_of_pairwise (claims_pairwise h.history run.id) hfirst hclaim
  · omega
  · omega

theorem own_claim (h : OwnedOk s) (x : ClaimInput) (stamp : ℕ) {answer : Answer}
    (hfresh : FreshFence s index (.claim x stamp) answer) : OwnActed s index (claim s index x stamp) := by
  obtain ⟨runId, botId, threadId, now, target⟩ := x
  cases target with
  | brief read =>
    unfold claim
    dsimp only
    split
    · exact own_same h ((s.setBrief _ _).unlock index) rfl rfl trivial
    · exact own_same h (s.unlock index) rfl rfl trivial
  | run workerId read =>
    have hfresh' : ∀ run ∈ s.runs, run.id = runId → read.isClaimable now run → run.leaseFence = read.leaseFence :=
      hfresh
    have hsystem := ownedOk_updateMany h (.claim index ⟨workerId, nextFence read.leaseFence⟩ read) runId
      (read.isClaimable now) (claimData workerId (nextFence read.leaseFence) stamp) (fun _ => rfl)
      fun run hmem hid hmatch => by
        have hread := hfresh' run hmem hid hmatch
        simp only [Run.isClaimable, and_eq_true, decide_eq_true_eq] at hmatch
        refine ⟨⟨fun claim hclaim => ?_, hmatch.1.2, not_isTerminal_of_isClaimable read now ?_⟩, rfl⟩
        · rw [← hread]
          exact fence_lt h hmem hclaim
        · simp only [Run.isClaimable, and_eq_true, decide_eq_true_eq]
          exact hmatch
    have hgrew := grew_updateMany (s := s) (.claim index ⟨workerId, nextFence read.leaseFence⟩ read) runId
      (read.isClaimable now) (claimData workerId (nextFence read.leaseFence) stamp)
    obtain hnone | ⟨run, hmem, hid, hmatch, hsome⟩ := updateMany_cases (s := s)
      (.claim index ⟨workerId, nextFence read.leaseFence⟩ read) runId (read.isClaimable now)
      (claimData workerId (nextFence read.leaseFence) stamp)
    · unfold claim
      dsimp only
      rw [hnone]
      exact own_same h (s.unlock index) rfl rfl trivial
    · unfold claim
      dsimp only
      rw [hsome] at hsystem hgrew ⊢
      refine ⟨hsystem.of_same rfl rfl, hgrew, ?_⟩
      change (index, _) ∈ claims runId (_ :: s.history)
      unfold claims
      dsimp only
      rw [if_pos hid]
      exact mem_cons_self

theorem own_write (h : OwnedOk s) (howns : Owns s index a) {matching : Run → Bool}
    (data : Run → Run) (hmatching : ∀ run, matching run → a.lease.holds run)
    (hid : ∀ run, (data run).id = run.id) (hfence : ∀ run, (data run).leaseFence = run.leaseFence)
    (hcall : ∀ s', Grew s s' → OwnCallOk s' index call) :
    OwnActed s index ((s.updateMany (.attempt index a.lease) a.runId matching data).1, call) := by
  have hgrew := grew_updateMany (s := s) (.attempt index a.lease) a.runId matching data
  refine ⟨ownedOk_updateMany h _ _ _ _ hid fun run hmem hrun hmatch => ⟨?_, hfence run⟩, hgrew, hcall _ hgrew⟩
  exact howns.head h hmem hrun (hmatching run hmatch)

theorem holds_of_isRunning {lease : Lease} (h : lease.isRunning run) : lease.holds run :=
  (and_eq_true_iff.mp h).2

section

variable (h : OwnedOk s) (howns : Owns s index a) (allowed : Run → Bool) (data : Run → Run)
  (hid : ∀ run, (data run).id = run.id) (hfence : ∀ run, (data run).leaseFence = run.leaseFence)
include h howns hid hfence

theorem own_attempt
    (requeue : Option (Stage × Requeue)) :
    OwnActed s index ((a.write s index allowed data).1, .working a requeue) :=
  own_write h howns data (fun _ hmatch => holds_of_isRunning (and_eq_true_iff.mp hmatch).1) hid hfence
    fun _ hgrew => hgrew _ _ howns

theorem own_requeue (hkept : ∀ run, allowed run → (takeoverCheckpointOf run.checkpoint).isSome →
      (data run).checkpoint = run.checkpoint) (requeue : Option (Stage × Requeue)) :
    OwnActed s index ((s.updateMany (.requeue index a.lease) a.runId (fun run => a.lease.isRunning run && allowed run)
      data).1, .working a requeue) := by
  have hgrew := grew_updateMany (s := s) (.requeue index a.lease) a.runId
    (fun run => a.lease.isRunning run && allowed run) data
  refine ⟨ownedOk_updateMany h _ _ _ _ hid fun run hmem hrun hmatch => ⟨⟨?_, ?_⟩, hfence run⟩,
    hgrew, hgrew _ _ howns⟩
  · exact howns.head h hmem hrun (holds_of_isRunning (and_eq_true_iff.mp hmatch).1)
  · exact hkept run (and_eq_true_iff.mp hmatch).2

end

theorem own_requeueStage (h : OwnedOk s) (howns : Owns s index a) (stage : Stage) (x : Requeue) :
    OwnActed s index (requeueStage s index a stage x) := by
  cases stage with
  | preserve | retried => exact own_requeue h howns _ (releasedHold x) (fun _ => rfl) (fun _ => rfl) (fun _ _ _ => rfl) _
  | planned =>
    refine own_requeue h howns _ (computerRunRequeueData x) (fun _ => rfl) (fun _ => rfl) (fun run hnone hstamped => ?_) _
    rw [of_decide_eq_true hnone] at hstamped
    cases hstamped

theorem own_working (h : OwnedOk s) (howns : Owns s index a) (requeue : Option (Stage × Requeue)) (answer : Answer) :
    OwnActed s index (working s index a requeue answer) := by
  have hstay : ∀ requeue, OwnActed s index (s, .working a requeue) := fun _ => own_stay h howns
  cases answer with
  | renew | renewPlacement => exact own_attempt h howns _ (renewData _) (fun _ => rfl) (fun _ => rfl) _
  | save turnCheckpoint =>
    exact own_attempt h howns _ (fun run => { run with turnCheckpoint := some turnCheckpoint }) (fun _ => rfl)
      (fun _ => rfl) _
  | suspend => exact own_attempt h howns _ suspendData (fun _ => rfl) (fun _ => rfl) _
  | pauseForInput offered => exact own_attempt h howns _ (pauseForInputData offered) (fun _ => rfl) (fun _ => rfl) _
  | pauseForTakeover => exact own_attempt h howns _ pauseForTakeoverData (fun _ => rfl) (fun _ => rfl) _
  | finalize error => exact own_attempt h howns _ (finalizeData error) (fun _ => rfl) (fun _ => rfl) _
  | requeueReleased =>
    unfold working
    dsimp only
    split
    · exact hstay _
    · split <;> exact hstay _
  | refreshPlan =>
    unfold working
    dsimp only
    split
    · exact hstay _
    · exact own_stay h howns
  | ok =>
    unfold working
    dsimp only
    split
    · exact hstay _
    · exact own_requeueStage h howns _ _
  | _ => exact hstay _

theorem own_act (h : OwnedOk s) (hcall : OwnCallOk s index call) (answer : Answer)
    (hfresh : FreshFence s index call answer) :
    OwnActed s index (act limits s index call answer) := by
  cases call with
  | continueRun runId workerId =>
    refine own_awaited h (own_stay h ?_) answer
    split
    · exact trivial
    · split <;> exact trivial
  | prepare run workerId =>
    refine own_awaited h (own_stay h ?_) answer
    unfold prepare
    split
    · exact trivial
    · split <;> exact trivial
  | refreshRunBrief runId =>
    refine own_awaited h (own_stay h ?_) answer
    split
    · exact trivial
    · split
      · exact trivial
      · split <;> exact trivial
  | readBrief run =>
    refine own_awaited h (own_stay h ?_) answer
    unfold readBrief
    split
    · exact trivial
    · split
      · exact trivial
      · split
        · exact trivial
        · split <;> exact trivial
  | lockBot x => exact own_transaction h x (own_lock h _ (.lockBot x) (.lockThread x) trivial trivial) answer
  | lockThread x => exact own_transaction h x (own_lock h _ (.lockThread x) (.readBot x) trivial trivial) answer
  | readBot x | readThread x concurrentRuns | admits x =>
    refine own_transaction h x ?_ answer
    split
    · exact own_same h (s.unlock index) rfl rfl trivial
    · exact own_stay h trivial
  | count x concurrentRuns maxConcurrentRuns counts rest =>
    refine own_transaction h x ?_ answer
    cases rest with
    | nil =>
      change OwnActed s index (admission s index x concurrentRuns maxConcurrentRuns counts)
      unfold admission
      split
      · exact own_same h (s.unlock index) rfl rfl trivial
      · split <;> exact own_stay h trivial
    | cons query rest => exact own_stay h trivial
  | claim x stamp => exact own_transaction h x (own_claim h x stamp hfresh) answer
  | claimed a =>
    have howns : Owns s index a := hcall
    refine own_awaited h (own_stay h ?_) answer
    split
    · exact trivial
    · split
      · exact trivial
      · exact howns
  | starting a current =>
    have howns : Owns s index a := hcall
    have hnext : ∀ (matched : Bool) (s' : System), Grew s s' →
        OwnCallOk s' index (if matched then .working a none else .done) := by
      intro matched s' hgrew
      cases matched with
      | true => exact hgrew _ _ howns
      | false => exact trivial
    refine own_awaited h ?_ answer
    exact own_write h howns (startData current a.createdAt s.now)
      (fun _ hmatch => (and_eq_true_iff.mp hmatch).2) (fun _ => rfl) (fun _ => rfl) (hnext _)
  | working a requeue => exact own_working h hcall requeue answer
  | refreshing briefId now =>
    refine own_awaited h ?_ answer
    exact own_same h (s.setBrief _ _) rfl rfl trivial
  | refused | done | failed => exact own_stay h trivial

structure OwnHappened (s s' : System) : Prop where
  system : OwnedOk s'
  grew : Grew s s'

theorem released_releaseData (resume : Resume) (run : Run) : Released run (releaseData resume run) := by
  unfold releaseData
  split
  · next hwaits => exact ⟨rfl, rfl, rfl, rfl, .inr ⟨hwaits, rfl⟩⟩
  · exact ⟨rfl, rfl, rfl, rfl, .inl rfl⟩

theorem ownHappened_created (h : OwnedOk s) (hfresh : ∀ other ∈ s.runs, other.id ≠ run.id) :
    OwnHappened s { s with runs := run :: s.runs } := by
  have hnone : ∀ event ∈ s.history, event.before.id ≠ run.id := by
    intro event hevent heq
    obtain ⟨other, hother, hid⟩ := h.known event hevent
    exact hfresh other hother (hid.trans heq)
  refine ⟨⟨h.history, Table.nodup_cons h.keys hfresh, ?_, ?_, ?_⟩, fun _ _ hmem => hmem⟩
  · intro row hrow claim hclaim
    obtain rfl | hrow := mem_cons.mp hrow
    · obtain ⟨event, hevent, hid⟩ := mem_of_mem_claims (mem_of_head? hclaim)
      exact absurd hid (hnone event hevent)
    · exact h.fence row hrow claim hclaim
  · intro event hevent
    obtain ⟨other, hother, hid⟩ := h.known event hevent
    exact ⟨other, mem_cons_of_mem _ hother, hid⟩
  · intro row hrow last hlast
    obtain rfl | hrow := mem_cons.mp hrow
    · obtain ⟨event, hevent, hid⟩ := mem_of_lastRow hlast
      exact absurd hid (hnone event hevent)
    · exact h.recorded row hrow last hlast

theorem ownHappened_happen (h : OwnedOk s) (happening : Happening) : OwnHappened s (happen s happening) := by
  have hsame : OwnHappened s s := ⟨h, fun _ _ hmem => hmem⟩
  cases happening with
  | pass ms => exact ⟨h.of_same rfl rfl, fun _ _ hmem => hmem⟩
  | created run =>
    unfold happen
    dsimp only
    split
    · next haccepts =>
      rw [System.accepts, and_eq_true] at haccepts
      exact ownHappened_created h fun other hmem => of_decide_eq_true (all_eq_true.mp haccepts.2 other hmem)
    · exact hsame
  | release runId resume =>
    refine ⟨ownedOk_updateMany h _ _ _ _ (fun run => ?_) fun run _ _ _ => ⟨released_releaseData resume run, ?_⟩,
      grew_updateMany _ _ _ _⟩
    · unfold releaseData
      split <;> rfl
    · exact (released_releaseData resume run).fence
  | stopRequested | cancelled | answered | woken =>
    exact ⟨ownedOk_updateMany h _ _ _ _ (fun _ => rfl) fun run _ _ _ => ⟨trivial, rfl⟩, grew_updateMany _ _ _ _⟩
  | pending botId threadId runId briefId =>
    unfold happen
    unfold markBriefPending
    dsimp only
    split
    · exact ⟨h.of_same rfl rfl, fun _ _ hmem => hmem⟩
    · split
      · exact ⟨h.of_same rfl rfl, fun _ _ hmem => hmem⟩
      · exact hsame

theorem owns_program (limits : Limits) :
    Calls.Keeps (program limits) OwnedOk OwnCallOk (fun _ _ => True) (fun call => call.isStart) FreshFence where
  start s index call _ _ hstart := by
    cases call with
    | continueRun | refreshRunBrief => exact trivial
    | _ => cases hstart
  act s index call answer h hcall hfresh := by
    have hacted : OwnActed s index (act limits s index call answer) := own_act h hcall answer hfresh
    exact ⟨hacted.system, hacted.call⟩
  others s index call answer index' call' h hcall hfresh _ hcall' := by
    have hacted : OwnActed s index (act limits s index call answer) := own_act h hcall answer hfresh
    exact hcall'.mono hacted.grew
  idle _ _ _ _ _ _ _ _ _ _ := trivial
  environment s happening h := (ownHappened_happen h happening).system
  environmentLocal s happening index call h hcall := hcall.mono (ownHappened_happen h happening).grew
  environmentIdle _ _ _ _ _ := trivial

end ArdurBot.Runs
