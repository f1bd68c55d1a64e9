import ArdurBot.Runs.AdmissionOk

/-!
# The acts of claims

A claim that may write its row has room for it: what its queries answered is still at least what is
live, since it has the locks of its bot and its thread.
-/

namespace ArdurBot.Runs

open List Utf16 ArdurBot.Core

/-- A call has the locks of a bot and a thread. -/
def Locked (s : System) (index : ℕ) (botId threadId : Text) : Prop :=
  (Lock.bot botId, index) ∈ s.locks ∧ (Lock.thread threadId, index) ∈ s.locks

/-- The row that a claim is for is of its bot and its thread. -/
def Has (s : System) (x : ClaimInput) : Prop :=
  match x.target with
  | .run _ read => read.id = x.runId ∧
      ∃ run ∈ s.runs, run.id = x.runId ∧ run.botId = x.botId ∧ run.threadId = x.threadId
  | .brief read => isMaintenanceId x.runId ∧
      ∃ brief ∈ s.briefs, brief.id = read.id ∧ brief.botId = x.botId ∧ brief.threadId = x.threadId

structure InputOk (s : System) (x : ClaimInput) : Prop where
  now : x.now ≤ s.now
  has : Has s x

/-- The queries of a claim that were answered counted all that is live, up to the limits. -/
structure Counted (limits : Limits) (s : System) (x : ClaimInput)
  (concurrentRuns maxConcurrentRuns : ℕ) (counts : Counts)
    (rest : List Query) : Prop where
  bot : ∃ bot, limits.bots x.botId = some bot ∧ bot.limit = concurrentRuns
  thread : ∃ thread, limits.threads x.threadId = some thread ∧ threadMaxConcurrentRuns thread =
    maxConcurrentRuns
  counted : ∀ query ∉ rest, query.live s x ≤ counts.get query

structure Room (limits : Limits) (s : System) (x : ClaimInput) : Prop where
  bot : ∃ bot, limits.bots x.botId = some bot ∧ Query.bot.live s x + Query.botMaintenance.live s x < bot.limit
  thread : ∃ thread, limits.threads x.threadId = some thread ∧ Query.thread.live s x <
    threadMaxConcurrentRuns thread
  botThread : Query.botThread.live s x + Query.ownBriefMaintenance.live s x = 0

def CallOk (limits : Limits) (s : System) (index : ℕ) : Call → Prop
  | .prepare run _ => ∃ other ∈ s.runs, SameIds other run
  | .lockBot x => InputOk s x
  | .lockThread x => InputOk s x ∧ (Lock.bot x.botId, index) ∈ s.locks
  | .readBot x => InputOk s x ∧ Locked s index x.botId x.threadId
  | .readThread x concurrentRuns => InputOk s x ∧ Locked s index x.botId x.threadId ∧
      ∃ bot, limits.bots x.botId = some bot ∧ bot.limit = concurrentRuns
  | .count x concurrentRuns maxConcurrentRuns counts rest => InputOk s x ∧ Locked s index x.botId x.threadId ∧
      Counted limits s x concurrentRuns maxConcurrentRuns counts rest
  | .admits x => InputOk s x ∧ Locked s index x.botId x.threadId ∧ Room limits s x
  | .claim x _ => InputOk s x ∧ Locked s index x.botId x.threadId ∧ Room limits s x
  | _ => True

variable {limits : Limits} {s s' : System} {index : ℕ} {except : Text → Text → Prop}
  {x : ClaimInput}

theorem Has.mono (h : Has s x) (hs : Shrinks except s s') : Has s' x := by
  unfold Has at h ⊢
  split at h
  · obtain ⟨hid, run, hmem, hrun, hbot, hthread⟩ := h
    obtain ⟨run', hmem', hsame⟩ := hs.runs run hmem
    exact ⟨hid, run', hmem', hsame.1.trans hrun, hsame.2.1.trans hbot, hsame.2.2.trans hthread⟩
  · obtain ⟨hid, brief, hmem, hbrief, hbot, hthread⟩ := h
    obtain ⟨brief', hmem', hsame⟩ := hs.briefs brief hmem
    exact ⟨hid, brief', hmem', hsame.1.trans hbrief, hsame.2.1.trans hbot, hsame.2.2.trans hthread⟩

theorem InputOk.mono (h : InputOk s x) (hs : Shrinks except s s') : InputOk s' x :=
  ⟨h.now.trans hs.now, h.has.mono hs⟩

/-- What is excepted is of another bot and another thread. -/
def Apart (except : Text → Text → Prop) (s : System) (other : ℕ) : Prop :=
  ∀ lock, (lock, other) ∈ s.locks → ∀ b t, except b t → lock ≠ .bot b ∧ lock ≠ .thread t

theorem Query.live_mono (hs : Shrinks except s s') (hlocked : Locked s index x.botId x.threadId)
    (happart : Apart except s index) (query : Query) : query.live s' x ≤ query.live s x := by
  have hbot : ∀ b t, except b t → b ≠ x.botId := fun b t hexcept hsame =>
    (happart _ hlocked.1 b t hexcept).1 (by rw [hsame])
  have hthread : ∀ b t, except b t → t ≠ x.threadId := fun b t hexcept hsame =>
    (happart _ hlocked.2 b t hexcept).2 (by rw [hsame])
  cases query with
  | bot | botThread =>
    rw [Query.live, Query.live]
    refine hs.liveRuns _ fun id b t hexcept => ?_
    simp [hbot b t hexcept]
  | thread =>
    rw [Query.live, Query.live]
    refine hs.liveRuns _ fun id b t hexcept => ?_
    simp [hthread b t hexcept]
  | botMaintenance | ownBriefMaintenance =>
    rw [Query.live, Query.live]
    refine hs.liveBriefs _ fun b t hexcept => ?_
    simp [hbot b t hexcept]

theorem Room.mono (h : Room limits s x) (hs : Shrinks except s s')
    (hlocked : Locked s index x.botId x.threadId)
    (happart : Apart except s index) : Room limits s' x := by
  have hlive := Query.live_mono hs hlocked happart
  obtain ⟨bot, hbot, hroom⟩ := h.bot
  obtain ⟨thread, hthread, hthreadRoom⟩ := h.thread
  refine ⟨⟨bot, hbot, ?_⟩, ⟨thread, hthread, ?_⟩, ?_⟩
  · have hruns := hlive .bot
    have hbriefs := hlive .botMaintenance
    omega
  · have hruns := hlive .thread
    omega
  · have hruns := hlive .botThread
    have hbriefs := hlive .ownBriefMaintenance
    have hnone := h.botThread
    omega

variable {call : Call} {concurrentRuns maxConcurrentRuns other : ℕ} {done : System × Call}
  {query : Query} {counts : Counts}

theorem CallOk.mono (h : CallOk limits s index call) (hs : Shrinks except s s')
    (happart : Apart except s index)
    (hlocks : ∀ lock, (lock, index) ∈ s.locks → (lock, index) ∈ s'.locks) :
    CallOk limits s' index call := by
  have hlocked : ∀ {b t}, Locked s index b t → Locked s' index b t := fun hl => ⟨hlocks _ hl.1, hlocks _ hl.2⟩
  cases call with
  | prepare run workerId =>
    obtain ⟨other, hmem, hsame⟩ := h
    obtain ⟨other', hmem', hsame'⟩ := hs.runs other hmem
    exact ⟨other', hmem', hsame'.1.trans hsame.1, hsame'.2.1.trans hsame.2.1, hsame'.2.2.trans hsame.2.2⟩
  | lockBot x => exact InputOk.mono h hs
  | lockThread x => exact ⟨h.1.mono hs, hlocks _ h.2⟩
  | readBot x => exact ⟨h.1.mono hs, hlocked h.2⟩
  | readThread x concurrentRuns => exact ⟨h.1.mono hs, hlocked h.2.1, h.2.2⟩
  | count x concurrentRuns maxConcurrentRuns counts rest =>
    obtain ⟨hinput, hl, hcounted⟩ := h
    exact ⟨hinput.mono hs, hlocked hl, hcounted.bot, hcounted.thread, fun query hquery =>
      (Query.live_mono hs hl happart query).trans (hcounted.counted query hquery)⟩
  | admits | claim => exact ⟨h.1.mono hs, hlocked h.2.1, h.2.2.mono hs h.2.1 happart⟩
  | _ => exact trivial

structure Acted (limits : Limits) (s : System) (index : ℕ) (result : System × Call) : Prop where
  system : SystemOk limits result.1
  shrinks : Shrinks (Locked s index) s result.1
  locks : ∀ lock other, other ≠ index → (lock, other) ∈ s.locks → (lock, other) ∈ result.1.locks
  call : CallOk limits result.1 index result.2

theorem apart_of_locked (h : SystemOk limits s) (hother : other ≠ index) :
    Apart (Locked s index) s other := by
  intro lock hlock b t hlocked
  refine ⟨fun heq => hother ?_, fun heq => hother ?_⟩
  · subst heq
    exact (Prod.ext_iff.mp (Table.eq_of_key h.locks hlock hlocked.1 rfl)).2
  · subst heq
    exact (Prod.ext_iff.mp (Table.eq_of_key h.locks hlock hlocked.2 rfl)).2

theorem Acted.others {result : System × Call} (h : Acted limits s index result) (hs : SystemOk limits s)
    (hother : other ≠ index) (hcall : CallOk limits s other call) : CallOk limits result.1 other call :=
  hcall.mono h.shrinks (apart_of_locked hs hother) fun lock hmem => h.locks lock other hother hmem

theorem acted_stay (h : SystemOk limits s) (hcall : CallOk limits s index call) :
    Acted limits s index (s, call) :=
  ⟨h, (Shrinks.of_same rfl rfl rfl).of_noOne, fun _ _ _ hmem => hmem, hcall⟩

theorem acted_shrinks (h : SystemOk limits s) (hs : Shrinks NoOne s s') (hkeys : SameKeys s s')
    (hcall : CallOk limits s' index call) : Acted limits s index (s', call) :=
  ⟨h.of_shrinks hs hkeys, hs.of_noOne, fun _ _ _ hmem => hkeys.locks.symm ▸ hmem, hcall⟩

theorem acted_unlock (call : Call) (h : Acted limits s index (s', call)) {call' : Call}
    (hcall : CallOk limits (s'.unlock index) index call') : Acted limits s index (s'.unlock index, call') where
  system := { h.system with bounded := h.system.bounded.of_shrinks (.of_same rfl rfl rfl), locks := h.system.locks.sublist (filter_sublist.map _) }
  shrinks := { h.shrinks with }
  locks lock other hother hmem :=
    mem_filter.mpr ⟨h.locks lock other hother hmem, decide_eq_true hother⟩
  call := hcall

theorem acted_awaited (h : SystemOk limits s) (hdone : Acted limits s index done) (answer : Answer) :
    Acted limits s index (awaited s answer done) := by
  cases answer with
  | fails => exact acted_stay h trivial
  | lost => exact { hdone with call := trivial }
  | _ => exact hdone

theorem acted_transaction (h : SystemOk limits s) (hinput : InputOk s x)
    (hdone : Acted limits s index done) (answer : Answer) :
    Acted limits s index (transaction s index x answer done) := by
  have hstay : Acted limits s index (s, .failed) := acted_stay h trivial
  cases answer with
  | fails => exact acted_unlock _ hstay trivial
  | conflict =>
    refine acted_unlock _ hstay ?_
    have hsame : Shrinks NoOne s (s.unlock index) := .of_same rfl rfl rfl
    exact hinput.mono hsame
  | lost => exact acted_unlock done.2 hdone trivial
  | _ => exact hdone

theorem acted_lock (h : SystemOk limits s) (lock : Lock) (waits next : Call)
    (hwaits : CallOk limits s index waits)
    (hnext : CallOk limits { s with locks := (lock, index) :: s.locks } index next) :
    Acted limits s index (Runs.lock s index lock waits next) := by
  unfold Runs.lock
  split
  · exact acted_stay h hwaits
  · next hfree =>
    have hsame : Shrinks NoOne s { s with locks := (lock, index) :: s.locks } := .of_same rfl rfl rfl
    refine ⟨⟨h.bounded.of_shrinks hsame, h.runs, h.briefs, h.ids, ?_⟩, hsame.of_noOne,
      fun _ _ _ hmem => mem_cons_of_mem _ hmem, hnext⟩
    refine Table.nodup_cons h.locks fun entry hentry hsame => hfree ?_
    exact any_eq_true.mpr ⟨entry, hentry, decide_eq_true hsame⟩

theorem Counts.get_set_self (counts : Counts) (n : ℕ) (query : Query) :
    (counts.set n query).get query = n := by
  cases query <;> rfl

theorem Counts.get_set_ne (counts : Counts) (n : ℕ) {other : Query} (h : other ≠ query) :
    (counts.set n query).get other = counts.get other := by
  cases query <;> cases other <;> first | rfl | exact absurd rfl h

theorem Counted.count {rest : List Query}
    (h : Counted limits s x concurrentRuns maxConcurrentRuns counts (query :: rest))
    (hnow : x.now ≤ s.now) :
    Counted limits s x concurrentRuns maxConcurrentRuns (counts.set (query.count s x) query) rest := by
  refine ⟨h.bot, h.thread, fun other hother => ?_⟩
  by_cases heq : other = query
  · subst heq
    rw [Counts.get_set_self]
    exact Query.live_le_count hnow other
  · rw [Counts.get_set_ne _ _ heq]
    refine h.counted other fun hmem => ?_
    obtain hsame | hrest := mem_cons.mp hmem
    · exact heq hsame
    · exact hother hrest

theorem Counted.room (h : Counted limits s x concurrentRuns maxConcurrentRuns counts [])
    (hadmitted : isQueued concurrentRuns maxConcurrentRuns counts = false) : Room limits s x := by
  simp only [isQueued, Bool.or_eq_false_iff, decide_eq_false_iff_not, not_le, not_lt] at hadmitted
  obtain ⟨⟨hbots, hthreads⟩, hpairs⟩ := hadmitted
  have hcounted : ∀ query, query.live s x ≤ counts.get query := fun query => h.counted query not_mem_nil
  obtain ⟨bot, hbot, hlimit⟩ := h.bot
  obtain ⟨thread, hthread, hmax⟩ := h.thread
  refine ⟨⟨bot, hbot, ?_⟩, ⟨thread, hthread, ?_⟩, ?_⟩
  · have hruns : Query.bot.live s x ≤ counts.bot := hcounted .bot
    have hbriefs : Query.botMaintenance.live s x ≤ counts.botMaintenance := hcounted .botMaintenance
    omega
  · have hruns : Query.thread.live s x ≤ counts.thread := hcounted .thread
    omega
  · have hruns : Query.botThread.live s x ≤ counts.botThread := hcounted .botThread
    have hbriefs : Query.ownBriefMaintenance.live s x ≤ counts.ownBriefMaintenance := hcounted .ownBriefMaintenance
    omega

theorem acted_admission (h : SystemOk limits s)
    (hcall : CallOk limits s index (.count x concurrentRuns maxConcurrentRuns counts [])) :
    Acted limits s index (admission s index x concurrentRuns maxConcurrentRuns counts) := by
  obtain ⟨hinput, hlocked, hcounted⟩ := hcall
  unfold admission
  split
  · exact acted_unlock .done (acted_stay h trivial) trivial
  · next hadmitted =>
    have hroom := hcounted.room (Bool.eq_false_iff.mpr hadmitted)
    split
    · exact acted_stay h ⟨hinput, hlocked, hroom⟩
    · exact acted_stay h ⟨hinput, hlocked, hroom⟩

end ArdurBot.Runs
