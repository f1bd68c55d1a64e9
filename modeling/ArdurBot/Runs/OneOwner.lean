import ArdurBot.Runs.Limits
import ArdurBot.Runs.OwnershipRun

/-!
# One owner at a time

What the history of any run of the calls says of who wrote the runs. The row that a call reads and
the claim that it makes with the fence of that row are apart; a claim of another call in between,
with a requeue, gives one fence twice.
-/

namespace ArdurBot.Runs

open Utf16 ArdurBot.Core

structure OneOwner (history : List Event) : Prop where
  /-- Each claim of a run gives a greater fence than all before it. -/
  fences : ∀ runId, (claims runId history).Pairwise fun later earlier => earlier.2.fence < later.2.fence
  leases : ∀ runId, ((claims runId history).map Prod.snd).Nodup
  /-- An attempt that writes a run is that of its latest claim. -/
  latest : ∀ event earlier, event :: earlier <:+ history → ∀ call lease,
    event.writer = .attempt call lease ∨ event.writer = .requeue call lease →
      (claims event.before.id earlier).head? = some (call, lease)
  released : ∀ event ∈ history, event.writer = .release → Released event.before event.after
  /-- A claim clears only a checkpoint that its call had read. -/
  read : ∀ event ∈ history, ∀ call lease read, event.writer = .claim call lease read →
    event.before.checkpoint = read.checkpoint
  /-- A requeue keeps the checkpoint of a release. -/
  kept : ∀ event ∈ history, ∀ call lease, event.writer = .requeue call lease →
    (takeoverCheckpointOf event.before.checkpoint).isSome → event.after.checkpoint = event.before.checkpoint
  ended : ∀ event ∈ history, ∀ call lease read, event.writer = .claim call lease read →
    event.before.status.isTerminal = false
  /-- The history is all that was written. -/
  chain : ∀ event earlier, event :: earlier <:+ history → ∀ row, lastRow event.before.id earlier = some row →
    event.before = row

theorem oneOwner_of_history {history : List Event} (h : History.Ok EventOk history) : OneOwner history where
  fences := claims_pairwise h
  leases runId := by
    rw [List.Nodup, List.pairwise_map]
    refine (claims_pairwise h runId).imp fun hlt heq => ?_
    rw [heq] at hlt
    omega
  latest event earlier hsuffix call lease hwriter := by
    have hwrite := (h.of_suffix hsuffix).write
    unfold WriteOk at hwrite
    obtain hattempt | hrequeue := hwriter
    · rw [hattempt] at hwrite
      exact hwrite
    · rw [hrequeue] at hwrite
      exact hwrite.1
  released event hmem hwriter := by
    obtain ⟨earlier, hsuffix⟩ := History.exists_suffix hmem
    have hwrite := (h.of_suffix hsuffix).write
    rw [WriteOk, hwriter] at hwrite
    exact hwrite
  read event hmem call lease read hwriter := by
    obtain ⟨earlier, hsuffix⟩ := History.exists_suffix hmem
    have hwrite := (h.of_suffix hsuffix).write
    rw [WriteOk, hwriter] at hwrite
    exact hwrite.2.1
  kept event hmem call lease hwriter := by
    obtain ⟨earlier, hsuffix⟩ := History.exists_suffix hmem
    have hwrite := (h.of_suffix hsuffix).write
    rw [WriteOk, hwriter] at hwrite
    exact hwrite.2
  ended event hmem call lease read hwriter := by
    obtain ⟨earlier, hsuffix⟩ := History.exists_suffix hmem
    have hwrite := (h.of_suffix hsuffix).write
    rw [WriteOk, hwriter] at hwrite
    exact hwrite.2.2
  chain event earlier hsuffix := (h.of_suffix hsuffix).chain

/-- Any calls in any order, where each claim finds the fence that its call read. The rows are as the
history left them. -/
theorem oneOwner_holds (limits : Limits) (now : ℕ) (runs : List Run) (briefs : List Brief)
    (hkeys : (runs.map Run.id).Nodup) (ops : List (Calls.Op Call Answer Happening))
    (hstart : ∀ op ∈ ops, Calls.OnStarts (fun call => call.isStart = true) op)
    (hfresh : Run.Meets (Calls.step (program limits)) (Calls.OnActs FreshFence) (newSystem now runs briefs) ops) :
    let s := (Run.after (Calls.step (program limits)) (newSystem now runs briefs) ops).shared
    OneOwner s.history ∧ ∀ run ∈ s.runs, ∀ row, lastRow run.id s.history = some row → run = row := by
  have hfirst : Calls.Holds OwnedOk OwnCallOk (fun _ _ => True) (newSystem now runs briefs) := by
    refine ⟨⟨trivial, hkeys, ?_, ?_, ?_⟩, ?_, fun _ _ => trivial⟩
    · intro run _ claim hclaim
      cases hclaim
    · intro event hevent
      cases hevent
    · intro run _ row hrow
      cases hrow
    · intro index call hcall
      cases hcall
  have hholds := Calls.holds_after (owns_program limits) hfirst hstart hfresh
  exact ⟨oneOwner_of_history hholds.shared.history, hholds.shared.recorded⟩

def oneRun : Calls.State System Call := newSystem 0 [queuedRun (lit "first")] []

/-- A worker claims the run, its computer is busy, and another worker claims it from the queue. -/
def claimedInTurn : List (Calls.Op Call Answer Happening) :=
  .start (.continueRun (lit "first") (lit "worker")) :: claiming 0 ++ [.act 0 .ok, .act 0 .ok,
    .act 0 (.requeue none none), .act 0 .ok, .act 0 .ok,
    .start (.continueRun (lit "first") (lit "other"))] ++ claiming 1 ++ [.act 1 .ok, .act 1 .ok]

theorem oneOwner_holds_claimedInTurn :
    OneOwner (Run.after (Calls.step (program oneAtATime)) oneRun claimedInTurn).shared.history ∧
      claims (lit "first") (Run.after (Calls.step (program oneAtATime)) oneRun claimedInTurn).shared.history =
        [(1, ⟨lit "other", 2⟩), (0, ⟨lit "worker", 1⟩)] :=
  ⟨(oneOwner_holds oneAtATime 0 _ [] (by decide) claimedInTurn (by decide)
    (by decide +kernel)).1, by decide +kernel⟩

/-- The first call has read the run and waits. The second claims it and requeues it, and then the
first claims it with the same fence; the second, of the same worker, finishes the run. -/
def claimedApart : List (Calls.Op Call Answer Happening) :=
  [.start (.continueRun (lit "first") (lit "worker")), .act 0 .ok, .act 0 .ok,
    .start (.continueRun (lit "first") (lit "worker"))] ++ claiming 1 ++ [.act 1 .ok, .act 1 .ok,
    .act 1 (.requeue none none), .act 1 .ok, .act 1 .ok] ++ claiming 0 ++ [.act 0 .ok, .act 1 (.finalize none)]

theorem oneOwner_fails_claimedApart :
    claims (lit "first") (Run.after (Calls.step (program oneAtATime)) oneRun claimedApart).shared.history =
        [(0, ⟨lit "worker", 1⟩), (1, ⟨lit "worker", 1⟩)] ∧
      (Run.after (Calls.step (program oneAtATime)) oneRun claimedApart).shared.history.head?.map Event.writer =
        some (.attempt 1 ⟨lit "worker", 1⟩) ∧
      ¬ OneOwner (Run.after (Calls.step (program oneAtATime)) oneRun claimedApart).shared.history := by
  have hclaims : claims (lit "first")
      (Run.after (Calls.step (program oneAtATime)) oneRun claimedApart).shared.history =
      [(0, ⟨lit "worker", 1⟩), (1, ⟨lit "worker", 1⟩)] := by decide +kernel
  refine ⟨hclaims, by decide +kernel, fun h => ?_⟩
  have hpairs := h.fences (lit "first")
  rw [hclaims] at hpairs
  exact absurd (List.rel_of_pairwise_cons hpairs List.mem_cons_self) (Nat.lt_irrefl 1)

end ArdurBot.Runs
