import ArdurBot.Threads.Message
import Mathlib.Data.Option.Basic
import Mathlib.Data.Int.Order.Basic

/-!
# Places of replies

A seq below the next one of a thread is held by one running run, or spent: no message will take it
any more. A transaction spends seqs and hands out new ones, and a message takes a seq only when it
is handed out or from the run that held it (`Moves`).
-/

namespace ArdurBot.Threads

open List Utf16 ArdurBot.Core

def Holds (thread : Thread) (runId : Text) (seq : ℤ) : Prop :=
  ∃ run ∈ thread.runs, run.id = runId ∧ run.threadId = thread.id ∧ run.replySeq = some seq

/-- The seq was given to a message or to a run that gave it up. -/
def Spent (thread : Thread) (seq : ℤ) : Prop :=
  seq < thread.nextMessageSeq ∧ ∀ runId, ¬Holds thread runId seq

structure PlacesOk (thread : Thread) : Prop where
  runIds : (thread.runs.map ThreadRun.id).Nodup
  seqs : (thread.messages.map Message.seq).Nodup
  spent : ∀ message ∈ thread.messages, Spent thread message.seq
  running : ∀ run ∈ thread.runs, run.replySeq.isSome → run.status = .running
  bots : ∀ run ∈ thread.runs, run.threadId = thread.id → thread.botId.all fun botId => botId = run.botId
  below : ∀ runId seq, Holds thread runId seq → seq < thread.nextMessageSeq
  one : ∀ runId runId' seq, Holds thread runId seq → Holds thread runId' seq → runId = runId'

/-- What a transaction does to seqs that were given before it. -/
structure Moves (thread next : Thread) : Prop where
  id : next.id = thread.id
  mono : thread.nextMessageSeq ≤ next.nextMessageSeq
  spent : ∀ seq, Spent thread seq → Spent next seq ∧ ∀ message ∈ next.messages, message.seq = seq →
    message ∈ thread.messages
  held : ∀ runId seq, Holds thread runId seq →
    Holds next runId seq ∨
      (Spent next seq ∧ ∀ message ∈ next.messages, message.seq = seq → message.runId = some runId)

theorem Moves.refl (thread : Thread) : Moves thread thread where
  id := rfl
  mono := le_rfl
  spent _ hseq := ⟨hseq, fun _ hmessage _ => hmessage⟩
  held _ _ hheld := .inl hheld

theorem Moves.trans {a b c : Thread} (h : Moves a b) (h' : Moves b c) : Moves a c where
  id := h'.id.trans h.id
  mono := h.mono.trans h'.mono
  spent seq hseq := by
    obtain ⟨hb, hfrom⟩ := h.spent seq hseq
    obtain ⟨hc, hfrom'⟩ := h'.spent seq hb
    exact ⟨hc, fun message hmessage hat => hfrom message (hfrom' message hmessage hat) hat⟩
  held runId seq hheld := by
    obtain hb | ⟨hb, hfrom⟩ := h.held runId seq hheld
    · exact h'.held runId seq hb
    · obtain ⟨hc, hfrom'⟩ := h'.spent seq hb
      exact .inr ⟨hc, fun message hmessage hat => hfrom message (hfrom' message hmessage hat) hat⟩

/-- A transaction that keeps the order of the messages. -/
structure Kept (thread next : Thread) : Prop where
  ok : PlacesOk next
  moves : Moves thread next

theorem Kept.trans {a b c : Thread} (h : Kept a b) (h' : PlacesOk b → Kept b c) : Kept a c :=
  ⟨(h' h.ok).ok, h.moves.trans (h' h.ok).moves⟩

/-- Each run of the thread keeps its place or gives it up. -/
structure GivesUp (thread : Thread) (update : ThreadRun → ThreadRun) : Prop where
  id : ∀ run, (update run).id = run.id
  threadId : ∀ run, (update run).threadId = run.threadId
  botId : ∀ run, (update run).botId = run.botId
  place : ∀ run ∈ thread.runs, ∀ seq, (update run).replySeq = some seq →
    (update run).status = .running ∧ (run.threadId = thread.id → run.replySeq = some seq)

theorem givesUp_id {thread : Thread} (h : PlacesOk thread) : GivesUp thread fun run => run where
  id _ := rfl
  threadId _ := rfl
  botId _ := rfl
  place run hrun _ hseq := ⟨h.running run hrun (by rw [hseq]; rfl), fun _ => hseq⟩

theorem replySeq_withStatus {status : RunStatus} (h : status ≠ .running) (run : ThreadRun) :
    (withStatus status run).replySeq = none := by
  rw [withStatus, releaseReplySeq, if_neg h]

theorem withStatus_place {status : RunStatus} {run : ThreadRun} {seq : ℤ}
    (h : (withStatus status run).replySeq = some seq) :
    (withStatus status run).status = .running ∧ run.replySeq = some seq := by
  by_cases hrunning : status = .running
  · rw [withStatus, releaseReplySeq, if_pos hrunning] at h ⊢
    exact ⟨hrunning, h⟩
  · rw [replySeq_withStatus hrunning] at h
    cases h

section

variable (status : RunStatus) (run : ThreadRun)

@[simp] theorem withStatus_id : (withStatus status run).id = run.id := by
  rw [withStatus, releaseReplySeq]
  split <;> rfl

@[simp] theorem withStatus_threadId : (withStatus status run).threadId = run.threadId := by
  rw [withStatus, releaseReplySeq]
  split <;> rfl

@[simp] theorem withStatus_botId : (withStatus status run).botId = run.botId := by
  rw [withStatus, releaseReplySeq]
  split <;> rfl

end

theorem givesUp_withStatus {thread : Thread} (h : PlacesOk thread) (status : RunStatus) (p : ThreadRun → Prop)
    [DecidablePred p] : GivesUp thread fun run => if p run then withStatus status run else run where
  id run := by
    split
    · exact withStatus_id status run
    · rfl
  threadId run := by
    split
    · exact withStatus_threadId status run
    · rfl
  botId run := by
    split
    · exact withStatus_botId status run
    · rfl
  place run hrun seq := by
    split
    · intro hseq
      obtain ⟨hrunning, hplace⟩ := withStatus_place hseq
      exact ⟨hrunning, fun _ => hplace⟩
    · exact (givesUp_id h).place run hrun seq

theorem givesUp_release {thread : Thread} (h : PlacesOk thread) (p : ThreadRun → Prop) [DecidablePred p] :
    GivesUp thread fun run => if p run then { run with replySeq := none } else run where
  id run := by split <;> rfl
  threadId run := by split <;> rfl
  botId run := by split <;> rfl
  place run hrun seq := by
    split
    · intro hseq
      cases hseq
    · exact (givesUp_id h).place run hrun seq

section

variable {thread next : Thread} {update : ThreadRun → ThreadRun}

variable {runId : Text} {seq : ℤ} {message : Message}

section

variable (h : GivesUp thread update)
include h

theorem GivesUp.holds (hid : next.id = thread.id) (hruns : next.runs = thread.runs.map update)
    (hheld : Holds next runId seq) : Holds thread runId seq := by
  obtain ⟨run', hrun', hrunId, hthread, hseq⟩ := hheld
  rw [hruns, mem_map] at hrun'
  obtain ⟨run, hrun, rfl⟩ := hrun'
  rw [h.id] at hrunId
  rw [h.threadId, hid] at hthread
  exact ⟨run, hrun, hrunId, hthread, (h.place run hrun seq hseq).2 hthread⟩

theorem GivesUp.running (hruns : next.runs = thread.runs.map update) :
    ∀ run ∈ next.runs, run.replySeq.isSome → run.status = .running := by
  intro run' hrun' hsome
  rw [hruns, mem_map] at hrun'
  obtain ⟨run, hrun, rfl⟩ := hrun'
  obtain ⟨seq, hseq⟩ := Option.isSome_iff_exists.mp hsome
  exact (h.place run hrun seq hseq).1

theorem GivesUp.runIds (hok : PlacesOk thread) (hruns : next.runs = thread.runs.map update) :
    (next.runs.map ThreadRun.id).Nodup := by
  rw [hruns]
  exact Table.nodup_map hok.runIds h.id

theorem GivesUp.bots (hok : PlacesOk thread) (hid : next.id = thread.id)
    (hbot : next.botId = thread.botId) (hruns : next.runs = thread.runs.map update) :
    ∀ run ∈ next.runs, run.threadId = next.id → next.botId.all fun botId => botId = run.botId := by
  intro run' hrun' hthread
  rw [hruns, mem_map] at hrun'
  obtain ⟨run, hrun, rfl⟩ := hrun'
  rw [h.threadId, hid] at hthread
  rw [hbot, h.botId]
  exact hok.bots run hrun hthread

end

theorem Spent.of_holds (hnext : thread.nextMessageSeq ≤ next.nextMessageSeq)
    (hholds : ∀ {runId seq}, Holds next runId seq → Holds thread runId seq) (h : Spent thread seq) :
    Spent next seq :=
  ⟨h.1.trans_le hnext, fun runId hheld => h.2 runId (hholds hheld)⟩

section

variable (hok : PlacesOk thread)
include hok

theorem kept_of_runs (h : GivesUp thread update) (hid : next.id = thread.id)
    (hbot : next.botId = thread.botId) (hruns : next.runs = thread.runs.map update)
    (hnext : next.nextMessageSeq = thread.nextMessageSeq)
    (hmessages : next.messages.Sublist thread.messages) : Kept thread next := by
  have hholds : ∀ {runId seq}, Holds next runId seq → Holds thread runId seq :=
    fun hheld => h.holds hid hruns hheld
  have hspent : ∀ seq, Spent thread seq → Spent next seq := fun _ hseq => Spent.of_holds hnext.ge hholds hseq
  refine ⟨⟨h.runIds hok hruns, hok.seqs.sublist (hmessages.map _), ?_, h.running hruns,
    h.bots hok hid hbot hruns, ?_, ?_⟩, ⟨hid, hnext.ge, ?_, ?_⟩⟩
  · exact fun message hmessage => hspent _ (hok.spent message (hmessages.subset hmessage))
  · intro runId seq hheld
    rw [hnext]
    exact hok.below runId seq (hholds hheld)
  · exact fun runId runId' seq hheld hheld' => hok.one runId runId' seq (hholds hheld) (hholds hheld')
  · exact fun seq hseq => ⟨hspent seq hseq, fun message hmessage _ => hmessages.subset hmessage⟩
  · intro runId seq hheld
    by_cases hstill : Holds next runId seq
    · exact .inl hstill
    · refine .inr ⟨⟨hnext ▸ hok.below runId seq hheld, fun other hother => ?_⟩, fun message hmessage hat => ?_⟩
      · rw [hok.one other runId seq (hholds hother) hheld] at hother
        exact hstill hother
      · have hmessageSpent := hok.spent message (hmessages.subset hmessage)
        rw [hat] at hmessageSpent
        exact absurd hheld (hmessageSpent.2 runId)

theorem kept_of_fresh (hid : next.id = thread.id) (hbot : next.botId = thread.botId)
    (hruns : next.runs = thread.runs) (hnext : next.nextMessageSeq = thread.nextMessageSeq + 1)
    (hseq : message.seq = thread.nextMessageSeq) (hmessages : next.messages = message :: thread.messages) :
    Kept thread next := by
  have hmono : thread.nextMessageSeq ≤ next.nextMessageSeq := by omega
  have hsame : ∀ {runId seq}, Holds next runId seq ↔ Holds thread runId seq := by
    intro runId seq
    rw [Holds, Holds, hruns, hid]
  have hspent : ∀ seq, Spent thread seq → Spent next seq := fun _ h => Spent.of_holds hmono hsame.mp h
  have hnew : Spent next message.seq := by
    refine ⟨by omega, fun runId hheld => ?_⟩
    have := hok.below runId _ (hsame.mp hheld)
    omega
  refine ⟨⟨hruns ▸ hok.runIds, ?_, ?_, hruns ▸ hok.running, ?_, ?_, ?_⟩, ⟨hid, hmono, ?_, ?_⟩⟩
  · rw [hmessages]
    refine Table.nodup_cons hok.seqs fun other hother hsame' => ?_
    have := (hok.spent other hother).1
    omega
  · intro other hother
    rw [hmessages, mem_cons] at hother
    obtain rfl | hother := hother
    · exact hnew
    · exact hspent _ (hok.spent other hother)
  · rw [hruns, hid, hbot]
    exact hok.bots
  · intro runId seq hheld
    exact (hok.below runId seq (hsame.mp hheld)).trans_le hmono
  · exact fun runId runId' seq hheld hheld' => hok.one runId runId' seq (hsame.mp hheld) (hsame.mp hheld')
  · refine fun seq h => ⟨hspent seq h, fun other hother hat => ?_⟩
    rw [hmessages, mem_cons] at hother
    obtain rfl | hother := hother
    · have := h.1
      omega
    · exact hother
  · exact fun runId seq hheld => .inl (hsame.mpr hheld)

theorem kept_of_fill (h : GivesUp thread update) (hheld : Holds thread runId message.seq)
    (hrunId : message.runId = some runId) (hreleased : ¬Holds next runId message.seq)
    (hid : next.id = thread.id) (hbot : next.botId = thread.botId)
    (hruns : next.runs = thread.runs.map update)
    (hnext : next.nextMessageSeq = thread.nextMessageSeq)
    (hmessages : next.messages = message :: thread.messages) :
    Kept thread next := by
  have hholds : ∀ {runId seq}, Holds next runId seq → Holds thread runId seq :=
    fun hheld => h.holds hid hruns hheld
  have hspent : ∀ seq, Spent thread seq → Spent next seq := fun _ hseq => Spent.of_holds hnext.ge hholds hseq
  have hfilled : Spent next message.seq := by
    refine ⟨hnext ▸ hok.below runId _ hheld, fun other hother => ?_⟩
    rw [hok.one other runId _ (hholds hother) hheld] at hother
    exact hreleased hother
  refine ⟨⟨h.runIds hok hruns, ?_, ?_, h.running hruns, h.bots hok hid hbot hruns, ?_, ?_⟩,
    ⟨hid, hnext.ge, ?_, ?_⟩⟩
  · rw [hmessages]
    refine Table.nodup_cons hok.seqs fun other hother hsame => ?_
    have hother' := hok.spent other hother
    rw [hsame] at hother'
    exact hother'.2 runId hheld
  · intro other hother
    rw [hmessages, mem_cons] at hother
    obtain rfl | hother := hother
    · exact hfilled
    · exact hspent _ (hok.spent other hother)
  · intro other seq hother
    rw [hnext]
    exact hok.below other seq (hholds hother)
  · exact fun other other' seq hother hother' => hok.one other other' seq (hholds hother) (hholds hother')
  · refine fun seq hseq => ⟨hspent seq hseq, fun other hother hat => ?_⟩
    rw [hmessages, mem_cons] at hother
    obtain rfl | hother := hother
    · exact absurd (hat ▸ hheld) (hseq.2 runId)
    · exact hother
  · intro other seq hother
    by_cases hstill : Holds next other seq
    · exact .inl hstill
    · refine .inr ⟨⟨hnext ▸ hok.below other seq hother, fun other' hother' => ?_⟩, fun written hwritten hat => ?_⟩
      · rw [hok.one other' other seq (hholds hother') hother] at hother'
        exact hstill hother'
      · rw [hmessages, mem_cons] at hwritten
        obtain rfl | hwritten := hwritten
        · rw [hat] at hheld
          rw [hrunId, hok.one runId other seq hheld hother]
        · have hspent' := hok.spent written hwritten
          rw [hat] at hspent'
          exact absurd hother (hspent'.2 other)

theorem kept_of_hold {run : ThreadRun} (hrun : run ∈ thread.runs) (hrunning : run.status = .running)
    (hnone : run.replySeq = none) (hid : next.id = thread.id) (hbot : next.botId = thread.botId)
    (hruns : next.runs =
      thread.runs.map fun other => if other.id =
      run.id then { other with replySeq := some thread.nextMessageSeq } else other)
    (hnext : next.nextMessageSeq = thread.nextMessageSeq + 1) (hmessages : next.messages = thread.messages) :
    Kept thread next := by
  have hmono : thread.nextMessageSeq ≤ next.nextMessageSeq := by omega
  have heq : ∀ other ∈ thread.runs, other.id = run.id → other = run := fun other hother hsame =>
    Table.eq_of_key hok.runIds hother hrun hsame
  -- Beyond the places that were held there is the new one only.
  have hholds : ∀ {runId seq}, Holds next runId seq →
      Holds thread runId seq ∨ (runId = run.id ∧ seq = thread.nextMessageSeq) := by
    rintro runId seq ⟨other', hother', hotherId, hotherThread, hseq⟩
    rw [hruns, mem_map] at hother'
    obtain ⟨other, hother, rfl⟩ := hother'
    split at hseq
    · next hsame =>
      rw [if_pos hsame] at hotherId
      exact .inr ⟨hotherId.symm.trans hsame, (Option.some.inj hseq).symm⟩
    · next hdiffers =>
      rw [if_neg hdiffers] at hotherId hotherThread
      exact .inl ⟨other, hother, hotherId, hotherThread.trans hid, hseq⟩
  have hkeeps : ∀ {runId seq}, Holds thread runId seq → Holds next runId seq := by
    rintro runId seq ⟨other, hother, hotherId, hotherThread, hseq⟩
    have hdiffers : other.id ≠ run.id := by
      intro hsame
      rw [heq other hother hsame, hnone] at hseq
      cases hseq
    refine ⟨other, ?_, hotherId, hotherThread.trans hid.symm, hseq⟩
    rw [hruns, mem_map]
    exact ⟨other, hother, if_neg hdiffers⟩
  have hspent : ∀ seq, Spent thread seq → Spent next seq := by
    intro seq hseq
    refine ⟨hseq.1.trans_le hmono, fun runId hheld => ?_⟩
    obtain hheld | ⟨-, rfl⟩ := hholds hheld
    · exact hseq.2 runId hheld
    · exact absurd hseq.1 (lt_irrefl _)
  refine ⟨⟨?_, hmessages ▸ hok.seqs, ?_, ?_, ?_, ?_, ?_⟩, ⟨hid, hmono, ?_, ?_⟩⟩
  · rw [hruns]
    refine Table.nodup_map hok.runIds fun other => ?_
    split <;> rfl
  · exact fun message hmessage => hspent _ (hok.spent message (hmessages ▸ hmessage))
  · intro other' hother' hsome
    rw [hruns, mem_map] at hother'
    obtain ⟨other, hother, rfl⟩ := hother'
    split
    · next hsame =>
      rw [heq other hother hsame]
      exact hrunning
    · next hdiffers =>
      rw [if_neg hdiffers] at hsome
      exact hok.running other hother hsome
  · intro other' hother' hotherThread
    rw [hruns, mem_map] at hother'
    obtain ⟨other, hother, rfl⟩ := hother'
    have hbots := hok.bots other hother
    rw [hbot]
    split at hotherThread
    · next hsame =>
      rw [if_pos hsame]
      exact hbots (hotherThread.trans hid)
    · next hdiffers =>
      rw [if_neg hdiffers]
      exact hbots (hotherThread.trans hid)
  · intro runId seq hheld
    obtain hheld | ⟨-, rfl⟩ := hholds hheld
    · exact (hok.below runId seq hheld).trans_le hmono
    · omega
  · intro runId runId' seq hheld hheld'
    rcases hholds hheld with hheld | ⟨rfl, rfl⟩ <;> rcases hholds hheld' with hheld' | ⟨rfl, hseq⟩
    · exact hok.one runId runId' seq hheld hheld'
    · have := hok.below runId seq hheld
      omega
    · exact absurd (hok.below runId' _ hheld') (lt_irrefl _)
    · rfl
  · exact fun seq hseq => ⟨hspent seq hseq, fun message hmessage _ => hmessages ▸ hmessage⟩
  · exact fun runId seq hheld => .inl (hkeeps hheld)

end

end

end ArdurBot.Threads
