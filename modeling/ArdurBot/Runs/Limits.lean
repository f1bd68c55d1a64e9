import ArdurBot.Runs.AdmissionRun

/-!
# The limits of runs

Any calls in any order keep the limits of bots and threads, as long as each attempt renews its lease
before that runs out. A claim that is refused has written no run.
-/

namespace ArdurBot.Runs

open Utf16 ArdurBot.Core

def Call.isClaiming : Call → Bool
  | .continueRun _ _ => true
  | .prepare _ _ => true
  | .refreshRunBrief _ => true
  | .readBrief _ => true
  | .lockBot _ => true
  | .lockThread _ => true
  | .readBot _ => true
  | .readThread _ _ => true
  | .count _ _ _ _ _ => true
  | .admits _ => true
  | .claim _ _ => true
  | _ => false

def Call.isRefused : Call → Bool
  | .refused _ => true
  | _ => false

section

variable {limits : Limits} {s : System} {index : ℕ}

theorem transaction_runs (x : ClaimInput) (answer : Answer) {done : System × Call}
    (h : done.1.runs = s.runs) :
    (transaction s index x answer done).1.runs = s.runs := by
  cases answer with
  | fails | conflict => rfl
  | _ => exact h

theorem admission_runs (x : ClaimInput) (concurrentRuns maxConcurrentRuns : ℕ) (counts : Counts) :
    (admission s index x concurrentRuns maxConcurrentRuns counts).1.runs = s.runs := by
  unfold admission
  split
  · rfl
  · split <;> rfl

theorem claim_runs (x : ClaimInput) (stamp : ℕ) (h : (claim s index x stamp).2.isRefused) :
    (claim s index x stamp).1.runs = s.runs := by
  unfold claim at h ⊢
  split
  · next workerId read htarget =>
    rw [htarget] at h
    dsimp only at h ⊢
    obtain hnone | ⟨run, -, -, -, hsome⟩ := updateMany_cases (s := s)
      (.claim index ⟨workerId, nextFence read.leaseFence⟩ read) x.runId (read.isClaimable x.now)
      (claimData workerId (nextFence read.leaseFence) stamp)
    · rw [hnone]
      rfl
    · rw [hsome, if_pos rfl] at h
      cases h
  · split <;> rfl

theorem act_runs {call : Call} (hcall : call.isClaiming) (answer : Answer)
    (hresult : (act limits s index call answer).2.isClaiming ∨ (act limits s index call answer).2.isRefused) :
    (act limits s index call answer).1.runs = s.runs := by
  cases call with
  | continueRun | prepare | refreshRunBrief | readBrief => cases answer <;> rfl
  | lockBot x | lockThread x => exact transaction_runs x answer (by unfold Runs.lock; split <;> rfl)
  | readBot x | readThread x concurrentRuns | admits x =>
    refine transaction_runs x answer ?_
    split <;> rfl
  | count x concurrentRuns maxConcurrentRuns counts rest =>
    refine transaction_runs x answer ?_
    cases rest with
    | nil => exact admission_runs x _ _ _
    | cons query rest => rfl
  | claim x stamp =>
    have hclaim : (claim s index x stamp).2.isClaiming = false := by
      unfold claim
      split
      · dsimp only
        split <;> rfl
      · split <;> rfl
    cases answer with
    | fails | conflict => rfl
    | lost =>
      obtain hresult | hresult := hresult
      · cases hresult
      · cases hresult
    | _ =>
      obtain hresult | hresult := hresult
      · exact absurd (hclaim.symm.trans hresult) Bool.false_ne_true
      · exact claim_runs x stamp hresult
  | _ => cases hcall

end

def newSystem (now : ℕ) (runs : List Run) (briefs : List Brief) : Calls.State System Call where
  shared := ⟨now, runs, briefs, [], []⟩
  calls := []

/-- The ids of the rows are keys, and none is that of a maintenance. -/
structure RowsOk (runs : List Run) (briefs : List Brief) : Prop where
  runKeys : (runs.map Run.id).Nodup
  briefKeys : (briefs.map Brief.id).Nodup
  ids : ∀ run ∈ runs, isMaintenanceId run.id = false

theorem limits_hold (limits : Limits) (now : ℕ) (runs : List Run) (briefs : List Brief) (hrows : RowsOk runs briefs)
    (hbounded : Bounded limits (newSystem now runs briefs).shared) (ops : List (Calls.Op Call Answer Happening))
    (hstart : ∀ op ∈ ops, Calls.OnStarts (fun call => call.isStart = true) op)
    (htime : Run.Meets (Calls.step (program limits)) (Calls.OnActs InTime) (newSystem now runs briefs) ops) :
    let s := Run.after (Calls.step (program limits)) (newSystem now runs briefs) ops
    Bounded limits s.shared ∧
      ∀ index call answer, s.calls[index]? = some call → call.isClaiming = true →
        (act limits s.shared index call answer).2.isClaiming = true ∨
          (act limits s.shared index call answer).2.isRefused = true →
        (act limits s.shared index call answer).1.runs = s.shared.runs := by
  have hfirst : Calls.Holds (SystemOk limits) (CallOk limits) (fun _ _ => True) (newSystem now runs briefs) := by
    refine ⟨⟨hbounded, hrows.runKeys, hrows.briefKeys, hrows.ids, List.nodup_nil⟩, ?_, fun _ _ => trivial⟩
    intro index call hcall
    cases hcall
  have hholds := Calls.holds_after (keeps_program limits) hfirst hstart htime
  exact ⟨hholds.shared.bounded, fun index call answer _ hclaiming hresult =>
    act_runs hclaiming answer hresult⟩

def queuedRun (id : Text) : Run where
  id
  botId := lit "bot"
  threadId := lit "thread"
  status := .queued
  checkpoint := none
  turnCheckpoint := none
  leaseOwner := none
  leaseFence := 0
  leaseExpiresAt := none
  providerRetryAt := none
  cancelRequestedAt := none
  createdAt := 0
  startedAt := none
  queueWaitMs := none
  error := none

/-- One bot that answers in one direct thread. -/
def oneAtATime : Limits where
  bots _ := some ⟨none, 1⟩
  threads _ := some ⟨none⟩

def twoRuns : Calls.State System Call :=
  newSystem 0 [queuedRun (lit "first"), queuedRun (lit "second")] []

def claiming (index : ℕ) : List (Calls.Op Call Answer Happening) :=
  List.replicate 14 (.act index .ok)

/-- The first run is claimed and renewed in time; the second is refused, and claimed once the first
is finished. -/
def inTurn : List (Calls.Op Call Answer Happening) :=
  .start (.continueRun (lit "first") (lit "worker")) :: claiming 0 ++ [.act 0 .ok, .act 0 .ok,
    .environment (.pass 200000), .act 0 (.renew 200000), .environment (.pass 200000),
    .start (.continueRun (lit "second") (lit "worker"))] ++ claiming 1 ++ [.act 0 (.finalize none),
    .start (.continueRun (lit "second") (lit "worker"))] ++ claiming 2

theorem limits_hold_inTurn : Bounded oneAtATime (Run.after (Calls.step (program oneAtATime)) twoRuns inTurn).shared ∧
      (Run.after (Calls.step (program oneAtATime)) twoRuns inTurn).shared.runs.map Run.status = [.completed, .leased] := by
  refine ⟨(limits_hold oneAtATime 0 _ [] ⟨by decide, by decide, by decide⟩ ⟨?_, ?_, ?_⟩ inTurn (by decide)
    (by decide +kernel)).1, by decide +kernel⟩
  · intro botId bot _
    exact Nat.zero_le _
  · intro threadId thread _
    exact Nat.zero_le _
  · intro botId threadId
    exact Nat.zero_le _

/-- The lease of the first run runs out, the second run is claimed, and then the heartbeat of the
first goes on. -/
def afterLapse : List (Calls.Op Call Answer Happening) :=
  .start (.continueRun (lit "first") (lit "worker")) :: claiming 0 ++ [.act 0 .ok, .act 0 .ok,
    .environment (.pass 300000), .start (.continueRun (lit "second") (lit "other"))] ++ claiming 1 ++
    [.act 0 (.renew 300000)]

theorem limits_fail_afterLapse : Bounded oneAtATime twoRuns.shared ∧
      ¬ Bounded oneAtATime (Run.after (Calls.step (program oneAtATime)) twoRuns afterLapse).shared := by
  refine ⟨⟨fun _ _ _ => Nat.zero_le _, fun _ _ _ => Nat.zero_le _, fun _ _ => Nat.zero_le _⟩, fun h => ?_⟩
  have hbot := h.bot (lit "bot") ⟨none, 1⟩ rfl
  revert hbot
  decide +kernel

end ArdurBot.Runs
