import ArdurBot.Threads.Compaction
import ArdurBot.Threads.PlacesRun

/-!
# Compaction loses no message

What an attempt has read stays true while other transactions go on: a seq below the next one that no
run holds (`Settled`) gets no message any more. So a batch that is read below every held place has
all messages up to its last.
-/

namespace ArdurBot.Threads

open List Utf16 ArdurBot.Core
open Prod
open Option hiding map mem_map

variable {batch messages : List Message} {message : Message} {below seq : ℤ} {runId text : Text}
  {op : ThreadOp} {preserveHistory : Bool} {attempt : Attempt} {render : Message → Text}
  {commit : Commit}

theorem mem_bySeq : message ∈ bySeq messages ↔ message ∈ messages :=
  mem_insertionSort _

theorem bySeq_strict (h : (messages.map Message.seq).Nodup) :
    (bySeq messages).Pairwise fun a b => a.seq < b.seq := by
  have hperm : (bySeq messages).Perm messages := perm_insertionSort _ _
  have hnodup : ((bySeq messages).map Message.seq).Nodup := (hperm.map _).nodup_iff.mpr h
  have hne : (bySeq messages).Pairwise fun a b => a.seq ≠ b.seq := pairwise_map.mp hnodup
  have hle : (bySeq messages).Pairwise fun a b => a.seq ≤ b.seq := pairwise_insertionSort _ _
  exact (hle.and hne).imp fun hab => lt_of_le_of_ne hab.1 hab.2

theorem mem_messagesBetween {thread : Thread} {above : ℤ} : message ∈ messagesBetween thread above below ↔
      message ∈ thread.messages ∧ above < message.seq ∧ message.seq < below := by
  rw [messagesBetween, mem_bySeq, mem_filter, Bool.and_eq_true, decide_eq_true_eq, decide_eq_true_eq]

theorem mem_take_of_le (h : messages.Pairwise fun a b => a.seq < b.seq) {n : ℕ} {last : Message}
    (hmem : message ∈ messages) (hlast : last ∈ messages.take n) (hle : message.seq ≤ last.seq) :
    message ∈ messages.take n := by
  rw [← take_append_drop n messages, mem_append] at hmem
  obtain htaken | hdropped := hmem
  · exact htaken
  · rw [← take_append_drop n messages, pairwise_append] at h
    have := h.2.2 last hlast message hdropped
    omega

/-! ### Settled seqs -/

/-- No run holds a place between the two seqs, and none will. -/
structure Settled (thread : Thread) (above upTo : ℤ) : Prop where
  below : upTo < thread.nextMessageSeq
  free : ∀ runId seq, Holds thread runId seq → seq ≤ above ∨ upTo < seq

variable {thread next : Thread} {above upTo : ℤ}

section

variable (h : Settled thread above upTo)
include h

theorem Settled.mono (hseq : seq ≤ upTo) : Settled thread above seq where
  below := hseq.trans_lt h.below
  free runId place hheld := (h.free runId place hheld).imp_right fun hlt => hseq.trans_lt hlt

theorem Settled.spent (habove : above < seq) (hle : seq ≤ upTo) : Spent thread seq := by
  refine ⟨hle.trans_lt h.below, fun runId hheld => ?_⟩
  obtain hbelow | hafter := h.free runId seq hheld
  · exact absurd habove (not_lt.mpr hbelow)
  · exact absurd hafter (not_lt.mpr hle)

theorem Settled.moves (hmoves : Moves thread next) : Settled next above upTo where
  below := h.below.trans_le hmoves.mono
  free runId seq hheld := by
    by_contra hbetween
    push Not at hbetween
    exact (hmoves.spent seq (h.spent hbetween.1 hbetween.2)).1.2 runId hheld

theorem Settled.mem (hmoves : Moves thread next) (hmem : message ∈ next.messages)
    (habove : above < message.seq) (hle : message.seq ≤ upTo) :
    message ∈ thread.messages := (hmoves.spent message.seq (h.spent habove hle)).2 message hmem rfl

end

theorem mem_heldReplySeqs : seq ∈ heldReplySeqs thread ↔
      ∃ run ∈ thread.runs, run.threadId = thread.id ∧ run.status = .running ∧ run.replySeq = some seq := by
  simp only [heldReplySeqs, mem_filterMap, ite_none_right_eq_some, Bool.and_eq_true,
    decide_eq_true_eq, and_assoc]

theorem settled_compactionUpperSeq (hok : PlacesOk thread) {nextMessageSeq : ℤ}
    (hnext : nextMessageSeq ≤ thread.nextMessageSeq) :
    Settled thread above (compactionUpperSeq thread nextMessageSeq above - 1) := by
  have hle : compactionUpperSeq thread nextMessageSeq above ≤ nextMessageSeq := by
    rw [compactionUpperSeq]
    split
    · exact le_rfl
    · exact min_le_left _ _
  refine ⟨by omega, fun runId seq hheld => ?_⟩
  obtain ⟨run, hrun, -, hthread, hplace⟩ := hheld
  by_contra hbetween
  push Not at hbetween
  have hrunning := hok.running run hrun (by rw [hplace]; rfl)
  have hmem : seq ∈ (heldReplySeqs thread).filter fun hold => above < hold :=
    mem_filter.mpr ⟨mem_heldReplySeqs.mpr ⟨run, hrun, hthread, hrunning, hplace⟩, decide_eq_true hbetween.1⟩
  have hlow : compactionUpperSeq thread nextMessageSeq above ≤ seq := by
    rw [compactionUpperSeq, lowestHeldReplySeq]
    cases hmin : (filter (fun hold => above < hold) (heldReplySeqs thread)).min? with
    | none =>
      rw [min?_eq_none_iff] at hmin
      rw [hmin] at hmem
      cases hmem
    | some lowest =>
      have hlowest := (min?_eq_some_iff.mp hmin).2 seq hmem
      exact (min_le_right _ _).trans hlowest
  omega

/-- The batch has every message after the cursor up to each of its own. -/
structure BatchOk (thread : Thread) (above : ℤ) (batch : List Message) : Prop where
  ordered : batch.Pairwise fun a b => a.seq < b.seq
  after : ∀ message ∈ batch, above < message.seq
  settled : ∀ last ∈ batch, Settled thread above last.seq
  all : ∀ last ∈ batch, ∀ message ∈ thread.messages, above < message.seq → message.seq ≤ last.seq →
    message ∈ batch

theorem BatchOk.moves (h : BatchOk thread above batch) (hmoves : Moves thread next) :
    BatchOk next above batch where
  __ := h
  settled last hlast := (h.settled last hlast).moves hmoves
  all last hlast message hmem habove hle :=
    h.all last hlast message ((h.settled last hlast).mem hmoves hmem habove hle) habove hle

theorem BatchOk.take (h : BatchOk thread above batch) (n : ℕ) : BatchOk thread above (batch.take n) where
  ordered := h.ordered.sublist (take_sublist _ _)
  after message hmem := h.after message (mem_of_mem_take hmem)
  settled last hlast := h.settled last (mem_of_mem_take hlast)
  all last hlast message hmem habove hle :=
    mem_take_of_le h.ordered (h.all last (mem_of_mem_take hlast) message hmem habove hle) hlast hle

theorem batchOk_messagesBetween (hok : PlacesOk thread) (h : Settled thread above (below - 1)) :
    BatchOk thread above (messagesBetween thread above below) where
  ordered := bySeq_strict (hok.seqs.sublist (filter_sublist.map _))
  after message hmem := (mem_messagesBetween.mp hmem).2.1
  settled last hlast := by
    have := (mem_messagesBetween.mp hlast).2.2
    exact h.mono (by omega)
  all last hlast message hmem habove hle := by
    have := (mem_messagesBetween.mp hlast).2.2
    exact mem_messagesBetween.mpr ⟨hmem, habove, by omega⟩

/-! ### What a transaction leaves of the summary -/

/-- The fields of the row that tell of the compaction. -/
def Thread.compaction (thread : Thread) : Option ℤ × ℕ × Option Text :=
  (thread.historyCompactedUpToSeq, thread.historyCompactionGeneration, thread.historyCompactionSummary)

theorem compaction_appendEvent {payload : EventPayload} {runId : Option Text} {cancels : Bool}
    (h : appendEvent payload runId cancels thread = some next) : next.compaction = thread.compaction := by
  obtain rfl | ⟨held, rfl | ⟨run, -, -, -, rfl⟩, rfl⟩ := appendEvent_cases h
  · rfl
  · rfl
  · rw [holdReplyPlace]
    split <;> rfl

theorem compaction_postMessage {input : MessageInput} (h : postMessage input thread = some next) :
    next.compaction = thread.compaction := by
  obtain ⟨⟨posted, seq⟩, hcreate, happend⟩ := bind_eq_some_iff.mp h
  rw [compaction_appendEvent happend]
  obtain ⟨run, -, hposted⟩ := bind_eq_some_iff.mp hcreate
  simp only [Option.pure_def, some.injEq, mk.injEq] at hposted
  rw [← hposted.1]
  show (if _ then _ else thread : Thread).compaction = thread.compaction
  split <;> rfl

theorem compaction_finalizeRun {outcome : RunStatus} {blocks : List Block} {posts : Bool}
    (h : finalizeRun runId outcome blocks posts thread = some next) :
    next.compaction = thread.compaction := by
  obtain ⟨-, run, -, -, -, saved, told, hsaved, htold, rfl⟩ := finalizeRun_cases h
  have hcompaction : saved.compaction = thread.compaction := by
    rw [saveReply] at hsaved
    split at hsaved
    · exact (compaction_postMessage hsaved).trans rfl
    · obtain rfl := some.inj hsaved
      rfl
  exact (compaction_appendEvent htold).trans hcompaction

theorem compaction_pauseRunForInput {card : Option (List Block)}
    (h : pauseRunForInput runId card thread = some next) :
    next.compaction = thread.compaction := by
  obtain ⟨run, -, -, -, hsilent, hcard⟩ := pauseRunForInput_cases h
  cases card with
  | none =>
    rw [hsilent rfl]
    rfl
  | some blocks => exact (compaction_postMessage (hcard blocks rfl)).trans rfl

theorem compaction_result (hop : ∀ preserveHistory, op ≠ .clear preserveHistory)
    (h : op.result thread = some next) :
    next.compaction = thread.compaction := by
  cases op with
  | post role runId blocks => exact compaction_postMessage h
  | showCard | moveRun =>
    obtain rfl := some.inj h
    rfl
  | event payload runId cancels => exact compaction_appendEvent h
  | finalize runId outcome blocks posts => exact compaction_finalizeRun h
  | pause runId card => exact compaction_pauseRunForInput h
  | moveElsewhere runId replySeq =>
    rw [ThreadOp.result, moveElsewhere] at h
    simp only [bind_eq_bind, bind_eq_some_iff] at h
    obtain ⟨run, -, -, -, hnext⟩ := h
    cases hnext
    rfl
  | createRun run =>
    rw [ThreadOp.result, createRun] at h
    simp only [bind_eq_bind, bind_eq_some_iff] at h
    obtain ⟨-, -, -, -, hnext⟩ := h
    cases hnext
    rfl
  | clear preserveHistory => exact absurd rfl (hop preserveHistory)

theorem clearThread_cases (hok : PlacesOk thread)
    (h : clearThread preserveHistory thread = some next) : next.compaction =
        (if 0 < thread.nextMessageSeq then some (thread.nextMessageSeq - 1) else thread.historyCompactedUpToSeq,
          thread.historyCompactionGeneration + 1,
          if preserveHistory then some (summaryMarker ++ restartSummary) else none) ∧
      next.nextMessageSeq = thread.nextMessageSeq ∧ (∀ message ∈ next.messages, message ∈ thread.messages) ∧
      ∀ runId seq, ¬Holds next runId seq := by
  rw [clearThread] at h
  obtain ⟨hid, -, hruns, hnext, hmessages⟩ := appendEvent_quiet rfl h
  refine ⟨compaction_appendEvent h, hnext, ?_, ?_⟩
  · intro message hmem
    rw [hmessages] at hmem
    dsimp only at hmem
    split at hmem
    · exact hmem
    · cases hmem
  · rintro runId seq ⟨run', hrun', -, hthread, hplace⟩
    rw [hruns, mem_map] at hrun'
    obtain ⟨run, hrun, rfl⟩ := hrun'
    split at hplace
    · rw [replySeq_withStatus (by decide)] at hplace
      cases hplace
    · next hkept =>
      rw [if_neg hkept] at hthread
      apply hkept
      have hhere : run.threadId = thread.id := hthread.trans hid
      rw [ThreadRun.isCleared, hok.bots run hrun hhere, hok.running run hrun (by rw [hplace]; rfl)]
      simp [hhere, RunStatus.isActive]

/-! ### Attempts -/

/-- What an attempt has read is as it was, and is true of the thread. -/
structure AttemptOk (thread : Thread) (attempt : Attempt) : Prop where
  from_le : nothingCompacted ≤ attempt.from
  generation : attempt.generation ≤ thread.historyCompactionGeneration
  nextMessageSeq : attempt.nextMessageSeq ≤ thread.nextMessageSeq
  valid : attempt.invalidates = false
  local' : attempt.needsLocalBootstrap = false
  stage : match attempt.stage with
    | .row | .ready => True
    | .legacy | .legacyCleared _ => False
    | .bounded upper => Settled thread attempt.from (upper - 1)
    | .windowed oldestKept => Settled thread attempt.from (oldestKept - 1)
    | .batched batch _ => BatchOk thread attempt.from batch

theorem AttemptOk.moves (h : AttemptOk thread attempt) (hmoves : Moves thread next)
    (hgeneration : thread.historyCompactionGeneration ≤ next.historyCompactionGeneration) :
    AttemptOk next attempt where
  from_le := h.from_le
  generation := h.generation.trans hgeneration
  nextMessageSeq := h.nextMessageSeq.trans hmoves.mono
  valid := h.valid
  local' := h.local'
  stage := by
    have hstage := h.stage
    cases hat : attempt.stage with
    | row | ready => trivial
    | legacy | legacyCleared =>
      rw [hat] at hstage
      exact hstage
    | bounded | windowed | batched =>
      rw [hat] at hstage
      exact hstage.moves hmoves

theorem advance_advanced {advanced : Attempt} (h : AttemptOk thread attempt) (hok : PlacesOk thread)
    (hadvance : attempt.advance thread = (next, some advanced)) :
    next = thread ∧ AttemptOk thread advanced := by
  have hstage := h.stage
  rw [Attempt.advance] at hadvance
  cases hat : attempt.stage with
  | row =>
    simp only [hat, checkSummary, h.valid, h.local', Bool.false_eq_true, if_false] at hadvance
    split at hadvance
    · cases hadvance
    · cases hadvance
      exact ⟨rfl, h.from_le, h.generation, h.nextMessageSeq, h.valid, h.local', trivial⟩
  | legacy | legacyCleared =>
    rw [hat] at hstage
    exact hstage.elim
  | ready =>
    simp only [hat] at hadvance
    cases hadvance
    exact ⟨rfl, h.from_le, h.generation, h.nextMessageSeq, h.valid, h.local',
      settled_compactionUpperSeq hok h.nextMessageSeq⟩
  | bounded upper =>
    rw [hat] at hstage
    simp only [hat, readKept, mk.injEq, ite_none_right_eq_some, map_eq_some_iff] at hadvance
    obtain ⟨rfl, -, oldest, holdest, rfl⟩ := hadvance
    have hmem := mem_reverse.mp (mem_of_mem_take (mem_of_getLast? holdest))
    have hbelow := (mem_messagesBetween.mp hmem).2.2
    exact ⟨rfl, h.from_le, h.generation, h.nextMessageSeq, h.valid, h.local', hstage.mono (by omega)⟩
  | windowed oldestKept =>
    rw [hat] at hstage
    simp only [hat, readBatch, mk.injEq, ite_none_left_eq_some, some.injEq] at hadvance
    obtain ⟨rfl, -, rfl⟩ := hadvance
    exact ⟨rfl, h.from_le, h.generation, h.nextMessageSeq, h.valid, h.local',
      (batchOk_messagesBetween hok hstage).take _⟩
  | batched batch bootstrapping =>
    simp only [hat, mk.injEq, some.injEq] at hadvance
    obtain ⟨rfl, rfl⟩ := hadvance
    exact ⟨rfl, h⟩

theorem advance_ended (h : AttemptOk thread attempt)
    (hadvance : attempt.advance thread = (next, none)) : next = thread := by
  have hstage := h.stage
  rw [Attempt.advance] at hadvance
  cases hat : attempt.stage with
  | row =>
    simp only [hat, checkSummary, h.valid, h.local', Bool.false_eq_true, if_false] at hadvance
    split at hadvance
    · exact (congrArg fst hadvance).symm
    · cases hadvance
  | legacy | legacyCleared =>
    rw [hat] at hstage
    exact hstage.elim
  | ready | bounded upper | windowed oldestKept | batched batch bootstrapping =>
    simp only [hat] at hadvance
    exact (congrArg fst hadvance).symm

theorem fitBatch_eq_some {fitting : List Message} {bootstrapping : Bool}
    (h : fitBatch render batch bootstrapping = some fitting) : ∃ n, fitting = batch.take n := by
  rw [fitBatch] at h
  split at h
  · split at h
    · cases h
    · split at h
      · cases h
      · exact ⟨_, (some.inj h).symm⟩
  · exact ⟨batch.length, by rw [take_length, some.inj h]⟩

theorem commitSummary_cases (h : AttemptOk thread attempt)
    (hcommit : commitSummary attempt render text thread = some (next, commit)) :
    attempt.isCurrent thread ∧ trim text ≠ [] ∧ ∃ last ∈ commit.batch,
      BatchOk thread attempt.from commit.batch ∧ commit.generation = attempt.generation ∧
      next = { thread with
        historyCompactedUpToSeq := some last.seq
        historyCompactionSummary := some (summaryMarker ++ trim text) } := by
  have hstage := h.stage
  simp only [commitSummary, bind_eq_bind, bind_eq_some_iff, guard_eq_some'] at hcommit
  obtain ⟨⟨batch, bootstrapping⟩, hbatch, fitting, hfitting, last, hlast, -, htext, -, -, -,
      hcurrent, hnext⟩ := hcommit
  cases hnext
  cases hat : attempt.stage with
  | batched read mode =>
    rw [hat] at hstage
    rw [Attempt.batch, hat] at hbatch
    cases hbatch
    obtain ⟨n, rfl⟩ := fitBatch_eq_some hfitting
    exact ⟨hcurrent, htext, last, mem_of_getLast? hlast, hstage.take n, rfl, rfl⟩
  | row | legacy | legacyCleared _ | ready | bounded _ | windowed _ =>
    rw [Attempt.batch, hat] at hbatch
    cases hbatch

/-! ### The invariant -/

/-- The seq above which the messages of a thread are not compacted. -/
def Thread.from (thread : Thread) : ℤ := thread.historyCompactedUpToSeq.getD nothingCompacted

structure CompactionsOk (state : Compactions) : Prop where
  thread : ThreadOk state.thread
  summary : ∀ summary, state.thread.historyCompactionSummary = some summary →
    (receiptFilteredSummary (some summary)).isSome
  local' : state.thread.historyCompactionGeneration = 0 → state.thread.historyCompactedUpToSeq.isSome →
    state.thread.historyCompactionSummary.isSome
  from_le : nothingCompacted ≤ state.thread.from
  from_lt : state.thread.from < state.thread.nextMessageSeq
  held : ∀ runId seq, Holds state.thread runId seq → state.thread.from < seq
  covered : ∀ message ∈ state.thread.messages, message.seq ≤ state.thread.from →
    message.seq < state.clearedBelow ∨
      ∃ commit ∈ state.commits, commit.generation = state.thread.historyCompactionGeneration ∧ message ∈ commit.batch
  attempts : ∀ id attempt, state.attempts id = some attempt → AttemptOk state.thread attempt

variable {state : Compactions}

theorem CompactionsOk.attempts_update (h : CompactionsOk state) {id : ℕ} {attempt : Option Attempt}
    (hattempt : ∀ attempt', attempt = some attempt' → AttemptOk state.thread attempt') :
    CompactionsOk { state with attempts := Function.update state.attempts id attempt } := by
  refine ⟨h.thread, h.summary, h.local', h.from_le, h.from_lt, h.held, h.covered, ?_⟩
  intro other attempt' hat
  by_cases hid : other = id
  · subst hid
    exact hattempt attempt' ((Function.update_self other attempt state.attempts).symm.trans hat)
  · exact h.attempts other attempt' ((Function.update_of_ne hid attempt state.attempts).symm.trans hat)

theorem attemptOk_beginAttempt (h : CompactionsOk state) :
    AttemptOk state.thread (beginAttempt state.thread) where
  from_le := h.from_le
  generation := le_rfl
  nextMessageSeq := le_rfl
  valid := by
    rw [Attempt.invalidates, beginAttempt]
    cases hsummary : state.thread.historyCompactionSummary with
    | none => rfl
    | some summary => simp [isNone_eq_false_iff.mpr (h.summary summary hsummary)]
  local' := by
    rw [Attempt.needsLocalBootstrap, beginAttempt]
    simp only [Bool.and_eq_false_iff, decide_eq_false_iff_not, isNone_eq_false_iff]
    by_cases hlegacy : state.thread.historyCompactionGeneration = 0 ∧ state.thread.historyCompactedUpToSeq.isSome
    · obtain ⟨summary, hsummary⟩ := isSome_iff_exists.mp (h.local' hlegacy.1 hlegacy.2)
      rw [hsummary]
      exact .inr (h.summary summary hsummary)
    · left
      by_contra hnot
      simp only [not_or, not_not, Bool.not_eq_false] at hnot
      exact hlegacy hnot
  stage := trivial

theorem receiptFilteredSummary_marked (h : trim text ≠ []) :
    (receiptFilteredSummary (some (summaryMarker ++ trim text))).isSome := by
  rw [receiptFilteredSummary]
  split
  · rfl
  · rw [if_pos (List.isPrefixOf_iff_prefix.mpr (prefix_append _ _))]
    simp [trim_trim_ne_nil h]

section

variable (h : CompactionsOk state)
include h

theorem compactionsOk_write (hclear : ∀ preserveHistory, op ≠ .clear preserveHistory)
    (hop : op.result state.thread = some next) : CompactionsOk { state with thread := next } := by
  have hkept := threadKept_result h.thread hop
  have hmoves := hkept.places.moves
  obtain ⟨hcursor, hgeneration, hsummary⟩ := by simpa [Thread.compaction] using compaction_result hclear hop
  have hfrom : next.from = state.thread.from := by rw [Thread.from, Thread.from, hcursor]
  have hspent : ∀ seq ≤ state.thread.from, Spent state.thread seq := by
    refine fun seq hle => ⟨hle.trans_lt h.from_lt, fun runId hheld => ?_⟩
    exact absurd (h.held runId seq hheld) (not_lt.mpr hle)
  refine ⟨hkept.ok, hsummary ▸ h.summary, ?_, hfrom ▸ h.from_le,
    hfrom ▸ h.from_lt.trans_le hmoves.mono, ?_, ?_, ?_⟩
  · rw [hgeneration, hcursor, hsummary]
    exact h.local'
  · intro runId seq hheld
    by_contra hle
    rw [hfrom] at hle
    exact (hmoves.spent seq (hspent seq (not_lt.mp hle))).1.2 runId hheld
  · intro message hmem hle
    rw [hfrom] at hle
    rw [hgeneration]
    exact h.covered message ((hmoves.spent _ (hspent _ hle)).2 message hmem rfl) hle
  · exact fun id attempt hat => (h.attempts id attempt hat).moves hmoves hgeneration.ge

theorem compactionsOk_clear (hclear : clearThread preserveHistory state.thread = some next) :
    CompactionsOk { state with thread := next, clearedBelow := state.thread.nextMessageSeq } := by
  have hkept := threadKept_clearThread h.thread hclear
  have hmoves := hkept.places.moves
  obtain ⟨hcompaction, hnext, hold, hfree⟩ := clearThread_cases h.thread.places hclear
  simp only [Thread.compaction, mk.injEq] at hcompaction
  obtain ⟨hcursor, hgeneration, hsummary⟩ := hcompaction
  have hbounds : nothingCompacted ≤ next.from ∧ next.from < next.nextMessageSeq := by
    rw [Thread.from, hcursor, hnext]
    split
    · next hsome =>
      rw [getD_some, nothingCompacted]
      omega
    · exact ⟨h.from_le, h.from_lt⟩
  refine ⟨hkept.ok, ?_, ?_, hbounds.1, hbounds.2, ?_, ?_, ?_⟩
  · intro summary hstored
    rw [hsummary] at hstored
    split at hstored
    · cases hstored
      decide +kernel
    · cases hstored
  · rw [hgeneration]
    exact fun hzero => absurd hzero (Nat.succ_ne_zero _)
  · exact fun runId seq hheld => absurd hheld (hfree runId seq)
  · exact fun message hmem _ => .inl (h.thread.places.spent message (hold message hmem)).1
  · exact fun id attempt hat => (h.attempts id attempt hat).moves hmoves (by rw [hgeneration]; exact Nat.le_succ _)

/-- A commit covers the messages up to the new cursor: those of the batch, and those that were
covered. -/
theorem compactionsOk_commit (hattempt : AttemptOk state.thread attempt)
    (hcommit : commitSummary attempt render text state.thread = some (next, commit)) :
    CompactionsOk { state with thread := next, commits := commit :: state.commits } := by
  obtain ⟨hcurrent, htext, last, hlast, hbatch, hgeneration, rfl⟩ := commitSummary_cases hattempt hcommit
  simp only [Attempt.isCurrent, Bool.and_eq_true, decide_eq_true_eq] at hcurrent
  have hfrom : attempt.from = state.thread.from := by rw [Attempt.from, Thread.from, hcurrent.1]
  rw [hfrom] at hbatch
  have hkept := @kept_of_same state.thread { state.thread with
    historyCompactedUpToSeq := some last.seq
    historyCompactionSummary := some (summaryMarker ++ trim text) } h.thread.places ⟨rfl, rfl, rfl, rfl, rfl⟩
  have hlt := hbatch.after last hlast
  refine ⟨⟨hkept.ok, h.thread.events.ordered, h.thread.events.below⟩, ?_, fun _ _ => rfl, h.from_le.trans hlt.le,
    (hbatch.settled last hlast).below, ?_, ?_, ?_⟩
  · intro summary hstored
    cases hstored
    exact receiptFilteredSummary_marked htext
  · intro runId seq hheld
    have habove := h.held runId seq hheld
    obtain hle | hafter := (hbatch.settled last hlast).free runId seq hheld
    · exact absurd habove (not_lt.mpr hle)
    · exact hafter
  · intro message hmem hle
    by_cases hold : message.seq ≤ state.thread.from
    · refine (h.covered message hmem hold).imp_right ?_
      rintro ⟨earlier, hearlier, hsame⟩
      exact ⟨earlier, mem_cons_of_mem _ hearlier, hsame⟩
    · exact .inr ⟨commit, mem_cons_self, hgeneration.trans hcurrent.2.symm,
        hbatch.all last hlast message hmem (not_le.mp hold) hle⟩
  · exact fun id other hat => (h.attempts id other hat).moves hkept.moves le_rfl

theorem compactionsOk_apply (op : CompactionOp) : CompactionsOk (op.apply state) := by
  cases op with
  | thread op =>
    rw [CompactionOp.apply]
    split
    · exact h
    · next next hop =>
      by_cases hclear : ∃ preserveHistory, op = .clear preserveHistory
      · obtain ⟨preserveHistory, rfl⟩ := hclear
        exact compactionsOk_clear h hop
      · have hwrite : ∀ preserveHistory, op ≠ .clear preserveHistory := fun preserveHistory heq => hclear ⟨_, heq⟩
        have hcleared : CompactionOp.threadCleared state op = state.clearedBelow := by
          cases op with
          | clear preserveHistory => exact absurd rfl (hwrite preserveHistory)
          | _ => rfl
        rw [hcleared]
        exact compactionsOk_write h hwrite hop
  | begin id =>
    refine h.attempts_update fun attempt hattempt => ?_
    cases hattempt
    exact attemptOk_beginAttempt h
  | advance id =>
    rw [CompactionOp.apply]
    split
    · exact h
    · next attempt hat =>
      have hattempt := h.attempts id attempt hat
      cases hadvance : attempt.advance state.thread with
      | mk next advanced =>
        rcases advanced with _ | advanced
        · obtain rfl := advance_ended hattempt hadvance
          exact h.attempts_update fun attempt' hattempt' => nomatch hattempt'
        obtain ⟨rfl, hadvanced⟩ := advance_advanced hattempt h.thread.places hadvance
        refine h.attempts_update fun attempt' hattempt' => ?_
        cases hattempt'
        exact hadvanced
  | commit id render text =>
    rw [CompactionOp.apply]
    split
    · exact h
    · next attempt hat =>
      have hattempt := h.attempts id attempt hat
      have hended : CompactionsOk { state with attempts := Function.update state.attempts id none } :=
        h.attempts_update fun attempt' hattempt' => nomatch hattempt'
      split
      · exact hended
      · next hcommit => exact compactionsOk_commit hended hattempt hcommit
  | abandon id => exact h.attempts_update fun attempt' hattempt' => nomatch hattempt'

end

theorem compactionsOk_new (id : Text) (botId : Option Text) : CompactionsOk (newCompactions id botId) := by
  refine ⟨threadOk_newThread id botId, ?_, ?_, le_rfl, Int.negSucc_lt_zero 0, ?_, ?_, ?_⟩
  · intro summary hsummary
    cases hsummary
  · intro _ hcursor
    cases hcursor
  · rintro runId seq ⟨run, hrun, -⟩
    cases hrun
  · intro message hmem
    cases hmem
  · intro id attempt hat
    cases hat

/-! ### What a run is given -/

theorem mem_selectCompactedHistory {summary : Option Text} {cursor : Option ℤ}
    (habove : ∀ upTo, cursor = some upTo → upTo < message.seq) :
    message ∈ (selectCompactedHistory messages summary cursor).history ↔ message ∈ messages := by
  rcases hsummary : receiptFilteredSummary summary with _ | filtered
  · simp only [selectCompactedHistory, hsummary]
    exact mem_bySeq
  rcases cursor with _ | upTo
  · simp only [selectCompactedHistory, hsummary]
    exact mem_bySeq
  simp only [selectCompactedHistory, hsummary]
  split
  · exact mem_bySeq
  · split
    · exact mem_bySeq
    · rw [mem_filter, mem_bySeq, decide_eq_true (habove upTo rfl)]
      exact and_iff_left rfl

theorem mem_newest (h : (messages.map Message.seq).Nodup) {count : ℕ} (hmem : message ∈ messages)
    (hfew : (messages.filter fun other => message.seq ≤ other.seq).length ≤ count) :
    message ∈ newest count messages := by
  rw [newest, mem_reverse]
  have hmem' : message ∈ (bySeq messages).reverse := mem_reverse.mpr (mem_bySeq.mpr hmem)
  rw [← take_append_drop count (bySeq messages).reverse, mem_append] at hmem'
  obtain htaken | hdropped := hmem'
  · exact htaken
  · exfalso
    -- The messages that were taken come after it, and so does the message itself.
    have hdescending : (bySeq messages).reverse.Pairwise fun a b => b.seq < a.seq :=
      pairwise_reverse.mpr (bySeq_strict h)
    have hsub := (List.Sublist.refl ((bySeq messages).reverse.take count)).append (singleton_sublist.mpr hdropped)
    rw [take_append_drop] at hsub
    rw [← take_append_drop count (bySeq messages).reverse, pairwise_append] at hdescending
    have hlater : ∀ other ∈ (bySeq messages).reverse.take count ++ [message], message.seq ≤ other.seq := by
      intro other hother
      obtain htaken | hself := mem_append.mp hother
      · exact (hdescending.2.2 other htaken message hdropped).le
      · rw [mem_singleton.mp hself]
    have hfiltered := (hsub.filter fun other => message.seq ≤ other.seq).length_le
    rw [filter_eq_self.mpr fun other hother => decide_eq_true (hlater other hother)] at hfiltered
    have hperm : (bySeq messages).reverse.Perm messages :=
      (reverse_perm _).trans (perm_insertionSort _ _)
    rw [(hperm.filter _).length_eq, length_append, length_take, length_singleton] at hfiltered
    have hlong : count < (bySeq messages).reverse.length := by
      by_contra hshort
      rw [drop_eq_nil_of_le (not_lt.mp hshort)] at hdropped
      cases hdropped
    omega

theorem commitSummary_moved (h : attempt.isCurrent thread = false) (render : Message → Text) (text : Text) :
    commitSummary attempt render text thread = none := by
  rw [eq_none_iff_forall_ne_some]
  rintro ⟨next, commit⟩ hcommit
  simp only [commitSummary, bind_eq_bind, bind_eq_some_iff, guard_eq_some'] at hcommit
  obtain ⟨-, -, -, -, -, -, -, -, -, -, -, hcurrent, -⟩ := hcommit
  rw [h] at hcurrent
  cases hcurrent

/-- Whatever sends, replies, clears and compactions have gone on: what is not above the cursor is
covered by a committed summary or cleared, what is above it is selected if the window of a run
reaches it, and a compaction that finds the cursor or the generation moved changes nothing. -/
theorem compaction_loses_nothing (id : Text) (botId : Option Text) (ops : List CompactionOp) :
    let state := Run.after CompactionOp.apply (newCompactions id botId) ops
    let thread := state.thread
    (∀ message ∈ thread.messages, ∀ cursor, thread.historyCompactedUpToSeq = some cursor → message.seq ≤ cursor →
      message.seq < state.clearedBelow ∨
        ∃ commit ∈ state.commits, commit.generation = thread.historyCompactionGeneration ∧ message ∈ commit.batch) ∧
    (∀ message ∈ thread.messages, (∀ cursor, thread.historyCompactedUpToSeq = some cursor → cursor < message.seq) →
      (message ∈ (runHistory thread).history ↔ message ∈ newest legacyHistoryWindowSize thread.messages) ∧
        ((thread.messages.filter fun other => message.seq ≤ other.seq).length ≤ legacyHistoryWindowSize →
          message ∈ (runHistory thread).history)) ∧
    ∀ attemptId attempt, state.attempts attemptId = some attempt → attempt.isCurrent thread = false →
      ((CompactionOp.advance attemptId).apply state).thread = thread ∧
        ∀ render text, ((CompactionOp.commit attemptId render text).apply state).thread = thread ∧
          ((CompactionOp.commit attemptId render text).apply state).commits = state.commits := by
  intro state thread
  have hok : CompactionsOk state :=
      @Run.inv_after _ _ CompactionOp.apply CompactionsOk (fun _ op h => compactionsOk_apply h op) _
        (compactionsOk_new id botId) ops
  refine ⟨?_, ?_, ?_⟩
  · intro message hmem cursor hcursor hle
    refine hok.covered message hmem ?_
    show message.seq ≤ thread.historyCompactedUpToSeq.getD nothingCompacted
    rw [hcursor]
    exact hle
  · intro message hmem habove
    refine ⟨mem_selectCompactedHistory habove, fun hfew => ?_⟩
    exact (mem_selectCompactedHistory habove).mpr (mem_newest hok.thread.places.seqs hmem hfew)
  · intro attemptId attempt hat hmoved
    have hattempt := hok.attempts attemptId attempt hat
    refine ⟨?_, fun render text => ?_⟩
    · simp only [CompactionOp.apply, hat]
      cases hadvance : attempt.advance state.thread with
      | mk next advanced =>
        cases advanced with
        | none => exact advance_ended hattempt hadvance
        | some advanced => exact (advance_advanced hattempt hok.thread.places hadvance).1
    · simp only [CompactionOp.apply, hat]
      rw [commitSummary_moved hmoved render text]
      exact ⟨rfl, rfl⟩

theorem post_user (thread : Thread) (blocks : List Block) :
    ∃ next, (ThreadOp.post .user none blocks).result thread = some next ∧
      next.historyCompactedUpToSeq = thread.historyCompactedUpToSeq ∧
      next.messages.length = thread.messages.length + 1 := by
  obtain ⟨posted, seq, hposted, hcursor, hlength⟩ :
      ∃ posted seq, createThreadMessage ⟨.user, none, blocks, none⟩ thread = some (posted, seq) ∧
        posted.historyCompactedUpToSeq = thread.historyCompactedUpToSeq ∧
        posted.messages.length = thread.messages.length + 1 := ⟨_, _, rfl, rfl, rfl⟩
  rw [ThreadOp.result, postMessage, hposted]
  show ∃ next, appendEvent messageCreated none false posted = some next ∧ _
  unfold appendEvent
  split
  · exact ⟨_, rfl, hcursor, hlength⟩
  · exact ⟨_, rfl, hcursor, hlength⟩

theorem after_posts {state : Compactions} (h : state.thread.historyCompactedUpToSeq = none)
    (blocks : List Block) (count : ℕ) :
    let state' := Run.after CompactionOp.apply state (replicate count (CompactionOp.thread (.post .user none blocks)))
    state'.thread.historyCompactedUpToSeq = none ∧
      state'.thread.messages.length = state.thread.messages.length + count := by
  induction count generalizing state with
  | zero => exact ⟨h, rfl⟩
  | succ count ih =>
    obtain ⟨next, hnext, hcursor, hlength⟩ := post_user state.thread blocks
    have happly : (CompactionOp.apply state (.thread (.post .user none blocks))).thread = next := by
      rw [CompactionOp.apply, hnext]
    obtain ⟨hcursor', hlength'⟩ := @ih (CompactionOp.apply state (CompactionOp.thread (.post .user none blocks)))
      (by rw [happly, hcursor, h])
    rw [happly, hlength] at hlength'
    exact ⟨hcursor', hlength'.trans (by omega)⟩

/-- No two messages are equal, and only the newest two hundred are selected. -/
theorem exists_not_selected {state : Compactions} (h : CompactionsOk state)
    (hcursor : state.thread.historyCompactedUpToSeq = none)
    (hlong : legacyHistoryWindowSize < state.thread.messages.length) :
    ∃ message ∈ state.thread.messages, message ∉ (runHistory state.thread).history := by
  by_contra! hall
  have hsub : state.thread.messages ⊆ newest legacyHistoryWindowSize state.thread.messages :=
    fun message hmem =>
    (mem_selectCompactedHistory (by rw [hcursor]; exact nofun)).mp (hall message hmem)
  have hle := (subperm_of_subset (h.thread.places.seqs.of_map _) hsub).length_le
  rw [newest, length_reverse, length_take] at hle
  exact absurd (hle.trans (min_le_left _ _)) (not_le.mpr hlong)

/-- Of 201 messages that are not compacted, the first is not selected. -/
theorem oldest_not_selected :
    let send := CompactionOp.thread (.post .user none [.text (lit "hello")])
    let state := Run.after CompactionOp.apply (newCompactions (lit "thread") none) (List.replicate 201 send)
    state.thread.historyCompactedUpToSeq = none ∧
      ∃ message ∈ state.thread.messages, message ∉ (runHistory state.thread).history := by
  obtain ⟨hcursor, hlength⟩ := @after_posts (newCompactions (lit "thread") none) rfl [.text (lit "hello")] 201
  have hok := @Run.inv_after _ _ CompactionOp.apply CompactionsOk (fun _ op h => compactionsOk_apply h op) _
    (compactionsOk_new (lit "thread") none) (List.replicate 201 (.thread (.post .user none [.text (lit "hello")])))
  exact ⟨hcursor, exists_not_selected hok hcursor (by rw [hlength]; decide)⟩

end ArdurBot.Threads
