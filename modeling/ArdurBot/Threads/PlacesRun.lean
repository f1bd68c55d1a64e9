import ArdurBot.Threads.Places

/-!
# Places after any transactions
-/

namespace ArdurBot.Threads

open List Utf16 ArdurBot.Core
open Option hiding any any_eq_false map mem_map

structure EventsOk (thread : Thread) : Prop where
  ordered : (thread.events.map Event.seq).Pairwise (· < ·)
  below : ∀ event ∈ thread.events, event.seq < thread.nextEventSeq

/-- What a transaction does to the events that were stored before it. -/
structure EventsKept (thread next : Thread) : Prop where
  ok : EventsOk next
  mono : thread.nextEventSeq ≤ next.nextEventSeq
  old : ∀ event ∈ next.events, event.seq < thread.nextEventSeq → event ∈ thread.events

variable {a b c : Thread} {run : ThreadRun} {runId : Text} {payload : EventPayload}
  {cancels posts : Bool} {input : MessageInput} {place seq : ℤ} {outcome status : RunStatus}
  {blocks : List Block} {card : Option (List Block)} {op : ThreadOp}

theorem EventsKept.trans (h : EventsKept a b) (h' : EventsOk b → EventsKept b c) : EventsKept a c where
  ok := (h' h.ok).ok
  mono := h.mono.trans (h' h.ok).mono
  old event hevent hseq := h.old event ((h' h.ok).old event hevent (hseq.trans_le h.mono)) hseq

variable {thread next : Thread}

theorem eventsKept_of_sublist (h : EventsOk thread) (hmono : thread.nextEventSeq ≤ next.nextEventSeq)
    (hevents : next.events.Sublist thread.events) : EventsKept thread next where
  ok := ⟨h.ordered.sublist (hevents.map _),
    fun event hevent => (h.below event (hevents.subset hevent)).trans_le hmono⟩
  mono := hmono
  old _ hevent _ := hevents.subset hevent

theorem eventsKept_of_new (h : EventsOk thread) {event : Event} (hseq : event.seq = thread.nextEventSeq)
    (hnext : next.nextEventSeq = thread.nextEventSeq + 1) (hevents : next.events = thread.events ++ [event]) :
    EventsKept thread next := by
  refine ⟨⟨?_, ?_⟩, by omega, ?_⟩
  · rw [hevents, map_append, pairwise_append]
    refine ⟨h.ordered, pairwise_singleton _ _, fun seq hold seq' hnew => ?_⟩
    obtain ⟨other, hother, rfl⟩ := mem_map.mp hold
    obtain rfl : seq' = event.seq := by simpa using hnew
    rw [hseq]
    exact h.below other hother
  · intro other hother
    rw [hevents, mem_append, mem_singleton] at hother
    obtain hother | rfl := hother
    · have := h.below other hother
      omega
    · omega
  · intro other hother hbelow
    rw [hevents, mem_append, mem_singleton] at hother
    obtain hother | rfl := hother
    · exact hother
    · omega

/-! ### Appending an event -/

theorem kept_of_same (hok : PlacesOk thread)
    (h : next.id = thread.id ∧ next.botId = thread.botId ∧ next.runs = thread.runs ∧
      next.nextMessageSeq = thread.nextMessageSeq ∧
      next.messages = thread.messages) : Kept thread next := by
  obtain ⟨hid, hbot, hruns, hnext, hmessages⟩ := h
  refine kept_of_runs hok (givesUp_id hok) hid hbot ?_ hnext (hmessages ▸ List.Sublist.refl _)
  rw [hruns, List.map_id']

theorem holdReplyPlace_eq (hok : PlacesOk thread) (hrun : run ∈ thread.runs) (seq : ℤ)
    (hseq : seq = thread.nextMessageSeq) :
    holdReplyPlace run thread =
      if run.status = .running ∧ run.replySeq = none ∧ run.threadId = thread.id then
        { thread with
          nextMessageSeq := thread.nextMessageSeq + 1
          runs := thread.runs.map fun other => if other.id = run.id then
            { other with replySeq := some seq } else other }
      else thread := by
  rw [holdReplyPlace]
  simp only [Bool.and_eq_true, decide_eq_true_eq, isNone_iff_eq_none, and_assoc]
  split
  · next hholds =>
    simp only [updateRun, hseq, Thread.mk.injEq, true_and, and_true]
    refine map_congr_left fun other hother => ?_
    split
    · next hsame =>
      obtain rfl := Table.eq_of_key hok.runIds hother hrun hsame
      exact if_pos hholds.1
    · rfl
  · rfl

theorem mem_of_assertRunCanWriteHistory {runId : Option Text}
    (h : assertRunCanWriteHistory thread runId = some (some run)) :
    run ∈ thread.runs ∧ runId = some run.id := by
  rcases runId with _ | id
  · cases h
  simp only [assertRunCanWriteHistory] at h
  split at h
  · cases h
  · next found hfound =>
    split at h
    · cases h
    · cases h
      refine ⟨mem_of_find?_eq_some hfound, ?_⟩
      have hid := find?_some hfound
      rw [of_decide_eq_true hid]

/-- What an event leaves: the thread with the event, and the place of a reply that appears for the
first time. -/
theorem appendEvent_cases {runId : Option Text} (h : appendEvent payload runId cancels thread = some next) :
    next = { thread with nextEventSeq := thread.nextEventSeq + 1 } ∨
      ∃ held : Thread,
        (held = { thread with nextEventSeq := thread.nextEventSeq + 1 } ∨
          ∃ run ∈ thread.runs, runId = some run.id ∧ isStreamingReplyText payload ∧
            held = holdReplyPlace run { thread with nextEventSeq := thread.nextEventSeq + 1 }) ∧
        next = { held with events := held.events ++ [{ seq := thread.nextEventSeq, payload, runId }] } := by
  rw [appendEvent] at h
  split at h
  · cases h
    exact .inl rfl
  · obtain ⟨found, hfound, hnext⟩ := bind_eq_some_iff.mp h
    cases hnext
    refine .inr ⟨_, ?_, rfl⟩
    rcases found with _ | run
    · exact .inl rfl
    have hcan : assertRunCanWriteHistory thread runId = some (some run) := by
      rw [eventWriter] at hfound
      split at hfound
      · cases hfound
      · exact hfound
    obtain ⟨hrun, hid⟩ := mem_of_assertRunCanWriteHistory hcan
    dsimp only
    split
    · next hshows => exact .inr ⟨run, hrun, hid, hshows, rfl⟩
    · exact .inl rfl

theorem appendEvent_quiet {runId : Option Text} (hquiet : isStreamingReplyText payload = false)
    (h : appendEvent payload runId cancels thread = some next) :
    next.id = thread.id ∧ next.botId = thread.botId ∧ next.runs = thread.runs ∧
      next.nextMessageSeq = thread.nextMessageSeq ∧ next.messages = thread.messages := by
  obtain rfl | ⟨held, rfl | ⟨run, -, -, hshows, -⟩, rfl⟩ := appendEvent_cases h
  · exact ⟨rfl, rfl, rfl, rfl, rfl⟩
  · exact ⟨rfl, rfl, rfl, rfl, rfl⟩
  · rw [hquiet] at hshows
    cases hshows

theorem eventsKept_appendEvent (h : EventsOk thread) {runId : Option Text}
    (happend : appendEvent payload runId cancels thread = some next) : EventsKept thread next := by
  obtain rfl | ⟨held, hheld, rfl⟩ := appendEvent_cases happend
  · refine eventsKept_of_sublist h ?_ (List.Sublist.refl _)
    show thread.nextEventSeq ≤ thread.nextEventSeq + 1
    omega
  · obtain ⟨hevents, hseq⟩ : held.events = thread.events ∧ held.nextEventSeq = thread.nextEventSeq + 1 := by
      obtain rfl | ⟨run, -, -, -, rfl⟩ := hheld
      · exact ⟨rfl, rfl⟩
      · rw [holdReplyPlace]
        split <;> exact ⟨rfl, rfl⟩
    have hnew : (Event.mk thread.nextEventSeq payload runId).seq = thread.nextEventSeq := rfl
    exact eventsKept_of_new h hnew hseq (congrArg (· ++ [⟨thread.nextEventSeq, payload, runId⟩]) hevents)

theorem kept_holdReplyPlace (hok : PlacesOk thread) (hrun : run ∈ thread.runs) :
    Kept thread (holdReplyPlace run thread) := by
  rw [holdReplyPlace_eq hok hrun _ rfl]
  split
  · next hholds => exact kept_of_hold hok hrun hholds.1 hholds.2.1 rfl rfl rfl rfl rfl
  · exact kept_of_same hok ⟨rfl, rfl, rfl, rfl, rfl⟩

theorem kept_appendEvent (hok : PlacesOk thread) {runId : Option Text}
    (h : appendEvent payload runId cancels thread = some next) : Kept thread next := by
  have hnumbered : Kept thread { thread with nextEventSeq := thread.nextEventSeq + 1 } :=
    kept_of_same hok ⟨rfl, rfl, rfl, rfl, rfl⟩
  obtain rfl | ⟨held, hheld, rfl⟩ := appendEvent_cases h
  · exact hnumbered
  · have hkept : Kept thread held := by
      obtain rfl | ⟨run, hrun, -, -, rfl⟩ := hheld
      · exact hnumbered
      · exact hnumbered.trans fun hok' => kept_holdReplyPlace hok' hrun
    exact hkept.trans fun hok' => kept_of_same hok' ⟨rfl, rfl, rfl, rfl, rfl⟩

/-! ### Messages -/

/-- The message that an input writes at a seq. -/
def MessageInput.message (input : MessageInput) (seq : ℤ) : Message where
  seq
  role := input.role
  runId := input.runId
  blocks := input.blocks

theorem runHold_eq_some {run : Option ThreadRun} : runHold thread input run = some seq ↔
      input.fillsReplyPlace ∧ ∃ writer, run = some writer ∧ writer.threadId = thread.id ∧
        writer.replySeq = some seq := by
  rw [runHold]
  constructor
  · intro h
    split at h
    · next hfills =>
      obtain ⟨writer, hwriter, hplace⟩ := bind_eq_some_iff.mp h
      split at hplace
      · next hthread => exact ⟨hfills, writer, hwriter, hthread, hplace⟩
      · cases hplace
    · cases h
  · rintro ⟨hfills, writer, rfl, hthread, hplace⟩
    rw [if_pos hfills, bind_some, if_pos hthread, hplace]

theorem createThreadMessage_cases (h : createThreadMessage input thread = some (next, seq)) :
    ∃ run, assertRunCanWriteHistory thread input.runId = some run ∧
      ((runHold thread input run = none ∧ input.heldReplySeq = some seq ∧
          next = { thread with messages := input.message seq :: thread.messages }) ∨
        (runHold thread input run = none ∧ input.heldReplySeq = none ∧ seq = thread.nextMessageSeq ∧
          next = { thread with
            nextMessageSeq := thread.nextMessageSeq + 1
            messages := input.message seq :: thread.messages }) ∨
        (runHold thread input run = some seq ∧ input.heldReplySeq.all (· = seq) ∧
          next = { thread with
            runs := thread.runs.map fun run => if input.runId = some run.id then
              { run with replySeq := none } else run
            messages := input.message seq :: thread.messages }) ∨
        ∃ hold, runHold thread input run = some hold ∧ input.heldReplySeq = some seq ∧ hold ≠ seq) := by
  rw [createThreadMessage] at h
  obtain ⟨run, hrun, hnext⟩ := bind_eq_some_iff.mp h
  refine ⟨run, hrun, ?_⟩
  simp only [Option.pure_def, some.injEq, Prod.mk.injEq] at hnext
  obtain ⟨hnext, hseq⟩ := hnext
  cases hhold : runHold thread input run with
  | none =>
    cases hread : input.heldReplySeq with
    | none =>
      simp only [hhold, hread, or_none, getD_none] at hnext hseq
      subst hseq
      exact .inr (.inl ⟨rfl, rfl, rfl, hnext.symm⟩)
    | some place =>
      simp only [hhold, hread] at hnext hseq
      subst hseq
      exact .inl ⟨rfl, rfl, hnext.symm⟩
  | some hold =>
    cases hread : input.heldReplySeq with
    | none =>
      simp only [hhold, hread, none_or, getD_some] at hnext hseq
      subst hseq
      refine .inr (.inr (.inl ⟨rfl, rfl, ?_⟩))
      simpa [MessageInput.message] using hnext.symm
    | some place =>
      simp only [hhold, hread, some_or, getD_some] at hnext hseq
      subst hseq
      by_cases hsame : hold = place
      · subst hsame
        refine .inr (.inr (.inl ⟨rfl, by simp, ?_⟩))
        simpa [MessageInput.message] using hnext.symm
      · exact .inr (.inr (.inr ⟨hold, rfl, rfl, hsame⟩))

theorem holds_of_runHold {run : Option ThreadRun}
    (hrun : assertRunCanWriteHistory thread input.runId = some run)
    (hhold : runHold thread input run = some seq) :
    ∃ runId, input.runId = some runId ∧ Holds thread runId seq := by
  obtain ⟨-, writer, rfl, hthread, hplace⟩ := runHold_eq_some.mp hhold
  obtain ⟨hmem, hid⟩ := mem_of_assertRunCanWriteHistory hrun
  exact ⟨writer.id, hid, writer, hmem, rfl, hthread, hplace⟩

theorem not_holds_released {runId : Text} {seq : ℤ} (hruns : next.runs =
      thread.runs.map fun run => if some runId = some run.id then { run with replySeq := none } else run) :
    ¬Holds next runId seq := by
  rintro ⟨run', hrun', hid, -, hseq⟩
  rw [hruns, mem_map] at hrun'
  obtain ⟨run, -, rfl⟩ := hrun'
  split at hseq
  · cases hseq
  · next hdiffers =>
    rw [if_neg hdiffers] at hid
    exact hdiffers (congrArg some hid.symm)

theorem kept_createThreadMessage (hok : PlacesOk thread) (hread : input.heldReplySeq = none)
    (h : createThreadMessage input thread = some (next, seq)) : Kept thread next := by
  obtain ⟨run, hrun, ⟨-, hplace, -⟩ | ⟨-, -, hseq, rfl⟩ | ⟨hhold, -, rfl⟩ | ⟨-, -, hplace, -⟩⟩ :=
    createThreadMessage_cases h
  · rw [hread] at hplace
    cases hplace
  · exact kept_of_fresh hok rfl rfl rfl rfl hseq rfl
  · obtain ⟨runId, hrunId, hheld⟩ := holds_of_runHold hrun hhold
    have hfilled : (input.message seq).runId = some runId := hrunId
    refine kept_of_fill hok (givesUp_release hok fun run => input.runId = some run.id) hheld hfilled
      ?_ rfl rfl rfl rfl rfl
    exact not_holds_released (by rw [hrunId])
  · rw [hread] at hplace
    cases hplace

theorem quiet_messageCreated : isStreamingReplyText messageCreated = false := rfl

theorem kept_postMessage (hok : PlacesOk thread) (hread : input.heldReplySeq = none)
    (h : postMessage input thread = some next) :
    Kept thread next := by
  obtain ⟨⟨posted, seq⟩, hcreate, happend⟩ := bind_eq_some_iff.mp h
  exact (kept_createThreadMessage hok hread hcreate).trans fun hok' => kept_appendEvent hok' happend

theorem postMessage_fills (hok : PlacesOk thread) (hheld : Holds thread runId place)
    (hread : input.heldReplySeq = none)
    (hrunId : input.runId = some runId) (hfills : input.fillsReplyPlace)
    (h : postMessage input thread = some next) :
    next.messages = input.message place :: thread.messages ∧ ¬Holds next runId place := by
  obtain ⟨⟨posted, seq⟩, hcreate, happend⟩ := bind_eq_some_iff.mp h
  obtain ⟨hid, -, hruns, -, hmessages⟩ := appendEvent_quiet quiet_messageCreated happend
  obtain ⟨run, hrun, hcases⟩ := createThreadMessage_cases hcreate
  have hhold : runHold thread input run = some place := by
    obtain ⟨holder, hholder, hholderId, hthread, hplace⟩ := hheld
    rw [hrunId] at hrun
    cases run with
    | none =>
      simp only [assertRunCanWriteHistory] at hrun
      split at hrun
      · cases hrun
      · split at hrun <;> cases hrun
    | some writer =>
      obtain ⟨hwriter, hwriterId⟩ := mem_of_assertRunCanWriteHistory hrun
      obtain rfl := Table.eq_of_key hok.runIds hwriter hholder ((some.inj hwriterId).symm.trans hholderId.symm)
      exact runHold_eq_some.mpr ⟨hfills, writer, rfl, hthread, hplace⟩
  obtain ⟨hnone, -⟩ | ⟨hnone, -⟩ | ⟨hsome, -, rfl⟩ | ⟨-, -, hplace, -⟩ := hcases
  · rw [hhold] at hnone
    cases hnone
  · rw [hhold] at hnone
    cases hnone
  · obtain rfl : place = seq := some.inj (hhold.symm.trans hsome)
    refine ⟨hmessages, @not_holds_released thread next runId place (hruns.trans ?_)⟩
    simp only [hrunId]
  · rw [hread] at hplace
    cases hplace

/-! ### Leaving `running` -/

theorem not_holds_left (h : status ≠ .running)
    (hruns : next.runs = (updateRun thread runId (withStatus status)).runs) :
    ¬Holds next runId seq := by
  rintro ⟨run', hrun', hid, -, hseq⟩
  rw [hruns, updateRun, mem_map] at hrun'
  obtain ⟨run, -, rfl⟩ := hrun'
  split at hseq
  · rw [replySeq_withStatus h] at hseq
    cases hseq
  · next hdiffers =>
    rw [if_neg hdiffers] at hid
    exact hdiffers hid

theorem kept_updateRun (hok : PlacesOk thread) (status : RunStatus) (runId : Text) :
    Kept thread (updateRun thread runId (withStatus status)) :=
  kept_of_runs hok (givesUp_withStatus hok status fun run => run.id = runId) rfl rfl rfl rfl
    (List.Sublist.refl _)

theorem postMessage_left (hstatus : status ≠ .running) (hrunId : input.runId = some runId)
    (hread : input.heldReplySeq = some place)
    (h : postMessage input (updateRun thread runId (withStatus status)) = some next) :
    next.id = thread.id ∧ next.botId = thread.botId ∧ next.runs = (updateRun thread runId (withStatus status)).runs ∧
      next.nextMessageSeq = thread.nextMessageSeq ∧ next.messages = input.message place :: thread.messages := by
  obtain ⟨⟨posted, seq⟩, hcreate, happend⟩ := bind_eq_some_iff.mp h
  obtain ⟨hid, hbot, hruns, hnext, hmessages⟩ := appendEvent_quiet quiet_messageCreated happend
  obtain ⟨run, hrun, hcases⟩ := createThreadMessage_cases hcreate
  have hnone : runHold (updateRun thread runId (withStatus status)) input run = none := by
    refine eq_none_iff_forall_ne_some.mpr fun hold hhold => ?_
    obtain ⟨other, hother, hheld⟩ := holds_of_runHold hrun hhold
    obtain rfl : runId = other := some.inj (hrunId.symm.trans hother)
    exact not_holds_left hstatus rfl hheld
  obtain ⟨-, hplace, rfl⟩ | ⟨-, hunread, -⟩ | ⟨hhold, -⟩ | ⟨hold, hhold, -⟩ := hcases
  · obtain rfl : place = seq := some.inj (hread.symm.trans hplace)
    exact ⟨hid, hbot, hruns, hnext, hmessages⟩
  · rw [hread] at hunread
    cases hunread
  · rw [hnone] at hhold
    cases hhold
  · rw [hnone] at hhold
    cases hhold

theorem kept_postMessage_left (hok : PlacesOk thread) (hrun : run ∈ thread.runs)
    (hthread : run.threadId = thread.id) (hstatus : status ≠ .running)
    (hrunId : input.runId = some run.id) (hread : input.heldReplySeq = run.replySeq)
    (h : postMessage input (updateRun thread run.id (withStatus status)) = some next) : Kept thread next := by
  cases hplace : run.replySeq with
  | none => exact (kept_updateRun hok status run.id).trans fun hok' =>
    kept_postMessage hok' (hread.trans hplace) h
  | some place =>
    obtain ⟨hid, hbot, hruns, hnext, hmessages⟩ := postMessage_left hstatus hrunId (hread.trans hplace) h
    have hheld : Holds thread run.id (input.message place).seq := ⟨run, hrun, rfl, hthread, hplace⟩
    have hwritten : (input.message place).runId = some run.id := hrunId
    exact kept_of_fill hok (givesUp_withStatus hok status fun other => other.id = run.id) hheld hwritten
      (not_holds_left hstatus hruns) hid hbot hruns hnext hmessages

theorem eventsKept_of_same (h : EventsOk thread) (hevents : next.events = thread.events)
    (hseq : next.nextEventSeq = thread.nextEventSeq) : EventsKept thread next :=
  eventsKept_of_sublist h hseq.ge (hevents ▸ List.Sublist.refl _)

theorem eventsKept_postMessage (h : EventsOk thread) (hpost : postMessage input thread = some next) :
    EventsKept thread next := by
  obtain ⟨⟨posted, seq⟩, hcreate, happend⟩ := bind_eq_some_iff.mp hpost
  obtain ⟨run, -, hposted⟩ := bind_eq_some_iff.mp hcreate
  simp only [Option.pure_def, some.injEq, Prod.mk.injEq] at hposted
  refine EventsKept.trans (eventsKept_of_same h ?_ ?_) fun h' => eventsKept_appendEvent h' happend
  · rw [← hposted.1]
    split <;> rfl
  · rw [← hposted.1]
    split <;> rfl

/-! ### Transactions -/

structure ThreadOk (thread : Thread) : Prop where
  places : PlacesOk thread
  events : EventsOk thread

structure ThreadKept (thread next : Thread) : Prop where
  places : Kept thread next
  events : EventsKept thread next

theorem ThreadKept.ok (h : ThreadKept thread next) : ThreadOk next := ⟨h.places.ok, h.events.ok⟩

theorem ThreadKept.trans (h : ThreadKept a b) (h' : ThreadOk b → ThreadKept b c) : ThreadKept a c where
  places := ⟨(h' h.ok).places.ok, h.places.moves.trans (h' h.ok).places.moves⟩
  events := h.events.trans fun _ => (h' h.ok).events

theorem threadKept_appendEvent (h : ThreadOk thread) {runId : Option Text}
    (happend : appendEvent payload runId cancels thread = some next) : ThreadKept thread next :=
  ⟨kept_appendEvent h.places happend, eventsKept_appendEvent h.events happend⟩

theorem finalizeRun_cases (h : finalizeRun runId outcome blocks posts thread = some next) :
    outcome ≠ .running ∧ ∃ run ∈ thread.runs, run.id = runId ∧ run.threadId = thread.id ∧ ∃ saved told,
      saveReply run outcome blocks posts (updateRun thread runId (withStatus outcome)) = some saved ∧
      appendEvent (runEnded outcome) (some runId) false saved = some told ∧
      next = { told with events := told.events.filter fun event => !isProgressOf runId event } := by
  rw [finalizeRun] at h
  simp only [bind_eq_bind, bind_eq_some_iff, guard_eq_some'] at h
  obtain ⟨-, houtcome, run, hfind, -, hguard, saved, hsaved, told, htold, hnext⟩ := h
  have hid : run.id = runId := by simpa using find?_some hfind
  simp only [Bool.and_eq_true, decide_eq_true_eq] at hguard
  refine ⟨?_, run, mem_of_find?_eq_some hfind, hid, hguard.1, saved, told, hsaved, htold,
    (some.inj hnext).symm⟩
  rintro rfl
  cases houtcome

theorem threadKept_updateRun (h : ThreadOk thread) (status : RunStatus) (runId : Text) :
    ThreadKept thread (updateRun thread runId (withStatus status)) :=
  ⟨kept_updateRun h.places status runId, eventsKept_of_same h.events rfl rfl⟩

theorem threadKept_postMessage_left (h : ThreadOk thread) (hrun : run ∈ thread.runs)
    (hthread : run.threadId = thread.id)
    (hstatus : status ≠ .running) (hrunId : input.runId = some run.id)
    (hread : input.heldReplySeq = run.replySeq)
    (hpost : postMessage input (updateRun thread run.id (withStatus status)) = some next) :
    ThreadKept thread next where
  places := kept_postMessage_left h.places hrun hthread hstatus hrunId hread hpost
  events := (threadKept_updateRun h status run.id).events.trans fun h' => eventsKept_postMessage h' hpost

theorem threadKept_finalizeRun (h : ThreadOk thread)
    (hfinal : finalizeRun runId outcome blocks posts thread = some next) :
    ThreadKept thread next := by
  obtain ⟨hout, run, hrun, rfl, hthread, saved, told, hsaved, htold, rfl⟩ := finalizeRun_cases hfinal
  have hkept : ThreadKept thread saved := by
    rw [saveReply] at hsaved
    split at hsaved
    · exact threadKept_postMessage_left h hrun hthread hout rfl rfl hsaved
    · obtain rfl := some.inj hsaved
      exact threadKept_updateRun h outcome run.id
  refine (hkept.trans fun h' => threadKept_appendEvent h' htold).trans fun h' => ⟨?_, ?_⟩
  · exact kept_of_same h'.places ⟨rfl, rfl, rfl, rfl, rfl⟩
  · exact eventsKept_of_sublist h'.events le_rfl filter_sublist

theorem pauseRunForInput_cases (h : pauseRunForInput runId card thread = some next) :
    ∃ run ∈ thread.runs, run.id = runId ∧ run.threadId = thread.id ∧
      (card = none → next = updateRun thread runId (withStatus .waitingInput)) ∧
      ∀ blocks, card = some blocks →
        postMessage { role := .bot, runId := some runId, blocks, heldReplySeq := run.replySeq }
          (updateRun thread runId (withStatus .waitingInput)) = some next := by
  rw [pauseRunForInput] at h
  simp only [bind_eq_bind, bind_eq_some_iff, guard_eq_some'] at h
  obtain ⟨run, hfind, -, hguard, hcard⟩ := h
  have hid : run.id = runId := by simpa using find?_some hfind
  simp only [Bool.and_eq_true, decide_eq_true_eq] at hguard
  refine ⟨run, mem_of_find?_eq_some hfind, hid, hguard.1, ?_, ?_⟩
  · rintro rfl
    exact (some.inj hcard).symm
  · rintro blocks rfl
    exact hcard

section

variable (h : ThreadOk thread)
include h

theorem threadKept_pauseRunForInput (hpause : pauseRunForInput runId card thread = some next) :
    ThreadKept thread next := by
  obtain ⟨run, hrun, rfl, hthread, hsilent, hcard⟩ := pauseRunForInput_cases hpause
  have hout : RunStatus.waitingInput ≠ .running := by decide
  cases card with
  | none =>
    rw [hsilent rfl]
    exact threadKept_updateRun h .waitingInput run.id
  | some blocks => exact threadKept_postMessage_left h hrun hthread hout rfl rfl (hcard blocks rfl)

theorem threadKept_moveElsewhere {replySeq : Option ℤ}
    (hmove : moveElsewhere runId replySeq thread = some next) : ThreadKept thread next := by
  rw [moveElsewhere] at hmove
  simp only [bind_eq_bind, bind_eq_some_iff, guard_eq_some'] at hmove
  obtain ⟨run, hfind, -, hthread, hnext⟩ := hmove
  cases hnext
  obtain ⟨hrun, hid⟩ := (Table.find_eq_some h.places.runIds).mp hfind
  refine ⟨kept_of_runs h.places ⟨fun other => ?_, fun other => ?_, fun other => ?_,
    fun other hother seq => ?_⟩ rfl rfl rfl rfl
      (List.Sublist.refl _),
    eventsKept_of_same h.events rfl rfl⟩
  · simp only [releaseReplySeq]
    split
    · split <;> rfl
    · rfl
  · simp only [releaseReplySeq]
    split
    · split <;> rfl
    · rfl
  · simp only [releaseReplySeq]
    split
    · split <;> rfl
    · rfl
  · simp only [releaseReplySeq]
    split
    · next hsame =>
      obtain rfl := Table.eq_of_key h.places.runIds hother hrun (hsame.trans hid.symm)
      split
      · next hrunning => exact fun _ => ⟨hrunning, fun hhere => absurd hhere hthread⟩
      · intro hseq
        cases hseq
    · exact (givesUp_id h.places).place other hother seq

theorem threadKept_createRun (hcreate : createRun run thread = some next) : ThreadKept thread next := by
  rw [createRun] at hcreate
  simp only [bind_eq_bind, bind_eq_some_iff, guard_eq_some'] at hcreate
  obtain ⟨-, hfresh, -, hbots, hnext⟩ := hcreate
  cases hnext
  have hholds : ∀ {runId seq}, Holds { thread with runs := { run with replySeq := none } :: thread.runs } runId seq ↔
      Holds thread runId seq := by
    intro runId seq
    constructor
    · rintro ⟨other, hother, hid, hthread, hseq⟩
      obtain rfl | hother := mem_cons.mp hother
      · cases hseq
      · exact ⟨other, hother, hid, hthread, hseq⟩
    · rintro ⟨other, hother, hheld⟩
      exact ⟨other, mem_cons_of_mem _ hother, hheld⟩
  have hspent : ∀ {seq},
      Spent { thread with runs := { run with replySeq := none } :: thread.runs } seq ↔
      Spent thread seq := by
    intro seq
    simp only [Spent, hholds]
  have hok := h.places
  refine ⟨⟨⟨?_, hok.seqs, fun message hmessage => hspent.mpr (hok.spent message hmessage), ?_, ?_,
    ?_, ?_⟩, ⟨rfl, le_rfl, ?_, ?_⟩⟩,
    eventsKept_of_same h.events rfl rfl⟩
  · refine Table.nodup_cons hok.runIds fun other hother hsame => ?_
    simp only [Bool.not_eq_true', any_eq_false, decide_eq_true_eq] at hfresh
    exact hfresh other hother hsame
  · intro other hother hsome
    obtain rfl | hother := mem_cons.mp hother
    · cases hsome
    · exact hok.running other hother hsome
  · intro other hother hotherThread
    obtain rfl | hother := mem_cons.mp hother
    · simp only [Bool.or_eq_true, decide_eq_true_eq] at hbots
      exact hbots.resolve_left (not_not_intro hotherThread)
    · exact hok.bots other hother hotherThread
  · exact fun runId seq hheld => hok.below runId seq (hholds.mp hheld)
  · exact fun runId runId' seq hheld hheld' => hok.one runId runId' seq (hholds.mp hheld) (hholds.mp hheld')
  · exact fun seq hseq => ⟨hspent.mpr hseq, fun _ hmessage _ => hmessage⟩
  · exact fun runId seq hheld => .inl (hholds.mpr hheld)

theorem threadKept_clearThread {preserveHistory : Bool}
    (hclear : clearThread preserveHistory thread = some next) : ThreadKept thread next := by
  rw [clearThread] at hclear
  refine ThreadKept.trans ⟨?_, ?_⟩ fun h' => threadKept_appendEvent h' hclear
  · refine kept_of_runs h.places (givesUp_withStatus h.places .cancelled fun run => run.isCleared thread) rfl rfl rfl
      rfl ?_
    dsimp only
    split
    · exact List.Sublist.refl _
    · exact nil_sublist _
  · refine eventsKept_of_sublist h.events le_rfl ?_
    dsimp only
    split
    · exact List.Sublist.refl _
    · exact nil_sublist _

theorem threadKept_result (hop : op.result thread = some next) : ThreadKept thread next := by
  cases op with
  | post role runId blocks => exact ⟨kept_postMessage h.places rfl hop, eventsKept_postMessage h.events hop⟩
  | showCard runId content =>
    obtain rfl := some.inj hop
    exact ⟨kept_of_fresh h.places rfl rfl rfl rfl rfl rfl, eventsKept_of_same h.events rfl rfl⟩
  | event payload runId cancels => exact threadKept_appendEvent h hop
  | finalize runId outcome blocks posts => exact threadKept_finalizeRun h hop
  | pause runId card => exact threadKept_pauseRunForInput h hop
  | moveRun runId status =>
    obtain rfl := some.inj hop
    exact threadKept_updateRun h status runId
  | moveElsewhere runId replySeq => exact threadKept_moveElsewhere h hop
  | createRun run => exact threadKept_createRun h hop
  | clear preserveHistory => exact threadKept_clearThread h hop

end

/-! ### Replies -/

/-- The blocks of the message by which a transaction saves what the run has shown. -/
def ThreadOp.saves (runId : Text) : ThreadOp → Option (List Block)
  | .post role writer blocks => if role = .bot ∧ writer = some runId ∧ blocks.any Block.isText then
    some blocks else none
  | .finalize writer outcome blocks posts =>
    if writer = runId ∧ outcome = .completed ∧ posts ∧ blocks ≠ [] then some blocks else none
  | .pause writer card => if writer = runId then card else none
  | _ => none

theorem eq_of_holds (hok : PlacesOk thread) (hrun : run ∈ thread.runs) (hheld : Holds thread run.id place) :
    run.threadId = thread.id ∧ run.replySeq = some place := by
  obtain ⟨other, hother, hid, hthread, hplace⟩ := hheld
  obtain rfl := Table.eq_of_key hok.runIds hother hrun hid
  exact ⟨hthread, hplace⟩

theorem result_saves (hok : PlacesOk thread) (hheld : Holds thread runId place)
    (hsaves : op.saves runId = some blocks) (h : op.result thread = some next) :
    next.messages = { seq := place, role := .bot, runId := some runId, blocks } :: thread.messages ∧
      ¬Holds next runId place := by
  cases op with
  | post role writer posted =>
    simp only [ThreadOp.saves, ite_none_right_eq_some, some.injEq] at hsaves
    obtain ⟨⟨rfl, rfl, htext⟩, rfl⟩ := hsaves
    refine postMessage_fills hok hheld rfl rfl ?_ h
    simp [MessageInput.fillsReplyPlace, htext]
  | finalize writer outcome posted posts =>
    simp only [ThreadOp.saves, ite_none_right_eq_some, some.injEq] at hsaves
    obtain ⟨⟨rfl, rfl, rfl, hne⟩, rfl⟩ := hsaves
    obtain ⟨hout, run, hrun, rfl, -, saved, told, hsaved, htold, rfl⟩ := finalizeRun_cases h
    have hplace := (eq_of_holds hok hrun hheld).2
    rw [saveReply, if_pos (by simp [hne])] at hsaved
    obtain ⟨-, -, hruns, -, hmessages⟩ := postMessage_left hout rfl hplace hsaved
    obtain ⟨-, -, hruns', -, hmessages'⟩ := appendEvent_quiet rfl htold
    exact ⟨hmessages'.trans hmessages, not_holds_left hout (hruns'.trans hruns)⟩
  | pause writer card =>
    simp only [ThreadOp.saves, ite_none_right_eq_some] at hsaves
    obtain ⟨rfl, rfl⟩ := hsaves
    have hpause : pauseRunForInput writer (some blocks) thread = some next := h
    obtain ⟨run, hrun, rfl, -, -, hpost⟩ := pauseRunForInput_cases hpause
    have hout : RunStatus.waitingInput ≠ .running := by decide
    obtain ⟨-, -, hruns, -, hmessages⟩ := postMessage_left hout rfl (eq_of_holds hok hrun hheld).2 (hpost blocks rfl)
    exact ⟨hmessages, not_holds_left hout hruns⟩
  | showCard | event | moveRun | moveElsewhere | createRun | clear => cases hsaves

theorem not_isDuplicate_of_shows (hshows : isStreamingReplyText payload) (runId : Option Text)
    (event : Event) :
    isDuplicate payload runId event = false := by
  cases payload with
  | progress streaming text delta => rfl
  | command | other => cases hshows

theorem holds_of_shows (hok : PlacesOk thread) (hrun : run ∈ thread.runs) (hthread : run.threadId = thread.id)
    (hrunning : run.status = .running) (hshows : isStreamingReplyText payload)
    (h : appendEvent payload (some run.id) false thread = some next) :
    Holds next run.id (run.replySeq.getD thread.nextMessageSeq) := by
  have hcan : assertRunCanWriteHistory thread (some run.id) = some (some run) := by
    have hfind : findRun thread run.id = some run := (Table.find_eq_some hok.runIds).mpr ⟨hrun, rfl⟩
    simp only [assertRunCanWriteHistory, hfind, hrunning]
    rfl
  have hnumbered : PlacesOk { thread with nextEventSeq := thread.nextEventSeq + 1 } :=
    (@kept_of_same thread { thread with nextEventSeq := thread.nextEventSeq + 1 } hok ⟨rfl, rfl, rfl, rfl, rfl⟩).ok
  have hnew : ¬thread.events.any (isDuplicate payload (some run.id)) := by
    simp [not_isDuplicate_of_shows hshows]
  rw [appendEvent, if_neg hnew, eventWriter, if_neg Bool.false_ne_true, hcan] at h
  simp only [hshows, bind_eq_bind, bind_some, if_true, Option.pure_def, some.injEq] at h
  subst h
  show Holds (holdReplyPlace run { thread with nextEventSeq := thread.nextEventSeq + 1 }) run.id _
  rw [holdReplyPlace_eq hnumbered hrun thread.nextMessageSeq rfl]
  cases hplace : run.replySeq with
  | none =>
    rw [if_pos ⟨hrunning, rfl, hthread⟩]
    refine ⟨{ run with replySeq := some thread.nextMessageSeq }, ?_, rfl, hthread, rfl⟩
    exact mem_map.mpr ⟨run, hrun, if_pos rfl⟩
  | some place =>
    rw [if_neg (by simp)]
    exact ⟨run, hrun, rfl, hthread, hplace⟩

/-! ### Runs -/

theorem threadOk_newThread (id : Text) (botId : Option Text) : ThreadOk (newThread id botId) := by
  refine ⟨⟨nodup_nil, nodup_nil, ?_, ?_, ?_, ?_, ?_⟩, ⟨List.Pairwise.nil, ?_⟩⟩
  · intro message hmessage
    cases hmessage
  · intro run hrun
    cases hrun
  · intro run hrun
    cases hrun
  · rintro runId seq ⟨run, hrun, -⟩
    cases hrun
  · rintro runId runId' seq ⟨run, hrun, -⟩
    cases hrun
  · intro event hevent
    cases hevent

theorem threadKept_apply (h : ThreadOk thread) (op : ThreadOp) : ThreadKept thread (op.apply thread) := by
  rw [ThreadOp.apply]
  cases hop : op.result thread with
  | none => exact ⟨⟨h.places, Moves.refl thread⟩, eventsKept_of_same h.events rfl rfl⟩
  | some next => exact threadKept_result h hop

section

variable (h : ThreadOk thread) (ops : List ThreadOp)
include h

theorem threadOk_after : ThreadOk (Run.after ThreadOp.apply thread ops) :=
  @Run.inv_after _ _ ThreadOp.apply ThreadOk (fun _ op h => (threadKept_apply h op).ok) _ h ops

theorem moves_after : Moves thread (Run.after ThreadOp.apply thread ops) :=
  @Run.rel_after _ _ ThreadOp.apply Moves ThreadOk (fun _ op h => (threadKept_apply h op).ok)
    Moves.refl Moves.trans
    (fun _ op h => (threadKept_apply h op).places.moves) _ h ops

theorem events_after : EventsKept thread (Run.after ThreadOp.apply thread ops) := by
  induction ops generalizing thread with
  | nil => exact eventsKept_of_same h.events rfl rfl
  | cons op ops ih =>
    have hkept := threadKept_apply h op
    exact hkept.events.trans fun _ => ih hkept.ok

end

/-- Seqs and places after any transactions, and what any later transactions leave of them. -/
theorem reply_places (id : Text) (botId : Option Text) (ops : List ThreadOp) :
    let thread := Run.after ThreadOp.apply (newThread id botId) ops
    ((thread.messages.map Message.seq).Nodup ∧ ∀ message ∈ thread.messages, message.seq < thread.nextMessageSeq) ∧
    -- each place is of one running run, and of no message
    (∀ run ∈ thread.runs, ∀ place, run.threadId = thread.id → run.replySeq = some place →
      run.status = .running ∧ place < thread.nextMessageSeq ∧ (∀ message ∈ thread.messages, message.seq ≠ place) ∧
        ∀ other ∈ thread.runs, other.threadId = thread.id → other.replySeq = some place → other = run) ∧
    -- a run has a place from the first text that it shows
    (∀ payload next, ∀ run ∈ thread.runs, run.threadId = thread.id → run.status = .running →
      isStreamingReplyText payload = true → (ThreadOp.event payload (some run.id) false).result thread = some next →
      Holds next run.id (run.replySeq.getD thread.nextMessageSeq)) ∧
    -- and its reply takes the place
    (∀ op next runId place blocks, Holds thread runId place → ThreadOp.saves runId op = some blocks →
      op.result thread = some next →
      next.messages = { seq := place, role := .bot, runId := some runId, blocks } :: thread.messages ∧
        ¬Holds next runId place) ∧
    ((thread.events.map Event.seq).Pairwise (· < ·) ∧ ∀ event ∈ thread.events, event.seq < thread.nextEventSeq) ∧
    ∀ ops', let later := Run.after ThreadOp.apply thread ops'
      -- no message takes the seq of another, or one that was given up
      (∀ message ∈ thread.messages, ∀ message' ∈ later.messages, message'.seq = message.seq → message' = message) ∧
      (∀ seq < thread.nextMessageSeq, (∀ runId, ¬Holds thread runId seq) →
        ∀ message ∈ later.messages, message.seq = seq → message ∈ thread.messages) ∧
      (∀ runId place, Holds thread runId place →
        ∀ message ∈ later.messages, message.seq = place → message.runId = some runId) ∧
      ∀ event ∈ later.events, event.seq < thread.nextEventSeq → event ∈ thread.events := by
  intro thread
  have hok : ThreadOk thread := threadOk_after (threadOk_newThread id botId) ops
  have hplaces := hok.places
  refine ⟨⟨hplaces.seqs, fun message hmessage => (hplaces.spent message hmessage).1⟩, ?_, ?_, ?_,
    ⟨hok.events.ordered, hok.events.below⟩, ?_⟩
  · intro run hrun place hthread hplace
    have hheld : Holds thread run.id place := ⟨run, hrun, rfl, hthread, hplace⟩
    refine ⟨hplaces.running run hrun (by rw [hplace]; rfl), hplaces.below _ _ hheld, ?_, ?_⟩
    · rintro message hmessage rfl
      exact (hplaces.spent message hmessage).2 run.id hheld
    · intro other hother hotherThread hotherPlace
      have hid := hplaces.one other.id run.id place ⟨other, hother, rfl, hotherThread, hotherPlace⟩ hheld
      exact Table.eq_of_key hplaces.runIds hother hrun hid
  · exact fun payload next run hrun hthread hrunning hshows h => holds_of_shows hplaces hrun hthread hrunning hshows h
  · exact fun op next runId place blocks hheld hsaves h => result_saves hplaces hheld hsaves h
  · intro ops' later
    have hlater : ThreadOk later := threadOk_after hok ops'
    have hmoves : Moves thread later := moves_after hok ops'
    refine ⟨?_, ?_, ?_, (events_after hok ops').old⟩
    · intro message hmessage message' hmessage' hsame
      have hold := (hmoves.spent _ (hplaces.spent message hmessage)).2 message' hmessage' hsame
      exact Table.eq_of_key hplaces.seqs hold hmessage hsame
    · exact fun seq hseq hfree => (hmoves.spent seq ⟨hseq, hfree⟩).2
    · intro runId place hheld message hmessage hsame
      obtain hstill | ⟨-, hfilled⟩ := hmoves.held runId place hheld
      · exact absurd hstill (hsame ▸ (hlater.places.spent message hmessage).2 runId)
      · exact hfilled message hmessage hsame

end ArdurBot.Threads
