import ArdurBot.Briefs.RefreshRun

/-!
# Watermarks over every run

In a run in which nothing disturbs a refresh, the watermark of a brief covers what was considered,
goes forward, and is moved by refreshes that nothing has overtaken.
-/

namespace ArdurBot.Briefs

open Utf16 ArdurBot.Core Threads Option

abbrev System := Calls.State Store Call

abbrev Op := Calls.Op Call Answer Event

def Kept (state : System) : Prop := Calls.Holds StoreOk CallOk (fun _ _ => True) state

def start (id : Text) (botId : Option Text) : System := ⟨newStore id botId, []⟩

theorem kept_start (id : Text) (botId : Option Text) : Kept (start id botId) where
  shared := by
    refine ⟨threadOk_newThread id botId, ⟨?_, ?_⟩, ?_, ?_, ?_⟩
    · show (-1 : ℤ) < 0
      omega
    · rintro runId seq ⟨run, hrun, -⟩
      cases hrun
    · intro message hmessage
      cases hmessage
    · intro other brief hbrief
      cases hbrief
    · intro claim hclaim
      cases hclaim
  calls _ _ hcall := by cases hcall
  idle _ _ := trivial

def Covered (s : Store) : Prop :=
  ∀ botId brief, s.briefs botId = some brief → ∀ message ∈ s.thread.messages,
    message.seq ≤ brief.lastMessageSeq →
    ∃ considered ∈ s.considered, considered.botId = botId ∧ considered.generation = brief.historyGeneration ∧
      message ∈ considered.batch

/-- In one generation no watermark is further back. -/
def NeverBack (s later : Store) : Prop :=
  ∀ botId brief, s.briefs botId = some brief → ∃ brief', later.briefs botId = some brief' ∧
    (brief'.historyGeneration = brief.historyGeneration → brief.lastMessageSeq ≤ brief'.lastMessageSeq)

/-- The refresh that commits was the last to claim the brief, which names its run and the generation
that it read, not one that is later than the generation of its thread. -/
def CommitsLast (state : System) (op : Op) (botId : Text) (brief : Brief) : Prop :=
  ∃ index call attempt result through, op = .act index .go ∧ state.calls[index]? = some call ∧
    call.phase = .committing attempt result through ∧ attempt.row.botId = botId ∧
    state.shared.lastClaim botId = some index ∧ brief.pendingRunId = some call.runId ∧
    brief.historyGeneration = attempt.state.historyGeneration ∧ brief.historyGeneration ≤ attempt.row.generation

/-- A step moves a watermark only for a refresh that nothing has overtaken. -/
def NotOvertaken (state : System) (op : Op) : Prop :=
  ∀ botId brief later, state.shared.briefs botId = some brief →
    (Calls.step program state op).shared.briefs botId = some later →
    SameMark brief later ∨ CommitsLast state op botId brief

section

variable {state : System} {botId : Text} {brief later : Brief}

variable {s s' : Store} {index : ℕ} {call : Call}

theorem forward_of_leaves {other : ℕ} (h : Leaves other s s') (hbrief : s.briefs botId = some brief) :
    ∃ later, s'.briefs botId = some later ∧ Forward brief later := by
  obtain ⟨later, hlater, hforward, -⟩ := h.briefs botId brief hbrief
  exact ⟨later, hlater, hforward⟩

theorem forward_step (h : Kept state) {op : Op} (hfree : Calls.OnActs Undisturbed state op)
    (hbrief : state.shared.briefs botId = some brief) :
    ∃ later, (Calls.step program state op).shared.briefs botId = some later ∧ Forward brief later := by
  cases op with
  | start call => exact ⟨brief, hbrief, Forward.refl brief⟩
  | act index answer =>
    unfold Calls.step
    dsimp only
    cases hcall : state.calls[index]? with
    | none => exact ⟨brief, hbrief, Forward.refl brief⟩
    | some call =>
      have hacted := act_ok h.shared (h.calls index call hcall) (hfree call hcall)
      exact forward_of_leaves (hacted.others (index + 1) (Nat.succ_ne_self index)) hbrief
  | environment event =>
    cases event with
    | thread op => exact ⟨brief, hbrief, Forward.refl brief⟩
    | toolResults botId' runId toolResults =>
      exact forward_of_leaves ((toolResults_ok h.shared botId' runId toolResults).2 0) hbrief
    | resetBriefRetries botId' => exact forward_of_leaves ((resetBriefRetries_ok h.shared botId').2 0) hbrief

def KeepsMarks (s s' : Store) : Prop :=
  ∀ botId brief later, s.briefs botId = some brief → s'.briefs botId = some later → SameMark brief later

theorem keepsMarks_same (h : s'.briefs = s.briefs) : KeepsMarks s s' := by
  intro botId brief later hbrief hlater
  rw [h, hbrief] at hlater
  cases hlater
  exact ⟨rfl, rfl⟩

theorem keepsMarks_put (hbrief : s.briefs botId = some brief) (hmark : SameMark brief later) :
    KeepsMarks s (s.put botId later) := by
  intro botId' brief' later' hbrief' hlater'
  rw [put_briefs] at hlater'
  split at hlater'
  · next hsame =>
    rw [hsame, hbrief] at hbrief'
    cases hbrief'
    cases hlater'
    exact hmark
  · rw [hbrief'] at hlater'
    cases hlater'
    exact ⟨rfl, rfl⟩

section

variable (s : Store)

theorem resetPending_marks (runId botId : Text) : KeepsMarks s (resetPending s runId botId) := by
  unfold resetPending
  split
  · exact keepsMarks_same rfl
  · next brief hbrief =>
    split
    · exact keepsMarks_put hbrief ⟨rfl, rfl⟩
    · exact keepsMarks_same rfl

theorem upsertPending_marks (runId botId : Text) (generation : ℕ) :
    KeepsMarks s (upsertPending s runId botId generation) := by
  unfold upsertPending
  split
  · next hnone =>
    intro botId' brief later hbrief hlater
    have hother : botId' ≠ botId := by
      rintro rfl
      rw [hnone] at hbrief
      cases hbrief
    rw [put_briefs, if_neg hother, hbrief] at hlater
    cases hlater
    exact ⟨rfl, rfl⟩
  · next brief hbrief => exact keepsMarks_put hbrief ⟨rfl, rfl⟩

theorem lookUp_marks (call : Call) (row : Row) (now : ℕ) : KeepsMarks s (lookUp s call row now).1 := by
  unfold lookUp
  repeat' split
  all_goals exact keepsMarks_same rfl

theorem claim_marks (index : ℕ) (call : Call) (attempt : Attempt) :
    KeepsMarks s (claim s index call attempt).1 := by
  unfold claim
  split
  · exact keepsMarks_same rfl
  · next brief hbrief =>
    split
    · have hput : KeepsMarks s (s.put attempt.row.botId
          { brief with attemptedAt := some attempt.now, leaseExpiresAt := some (attempt.now + leaseMs) }) :=
        keepsMarks_put hbrief ⟨rfl, rfl⟩
      exact hput
    · exact keepsMarks_same rfl

theorem release_marks (call : Call) (attempt : Attempt) (result : Result) :
    KeepsMarks s (release s call attempt result).1 := by
  unfold release
  cases result with
  | covers | failed =>
    split
    · exact keepsMarks_same rfl
    · next brief hbrief =>
      split
      · exact keepsMarks_put hbrief ⟨rfl, rfl⟩
      · exact keepsMarks_same rfl

end

/-- A commit moves the watermark of the brief it claimed only, and only if that is as the refresh
knows it. -/
theorem commit_marks {attempt : Attempt} {result : Result} {through : ℤ}
    (hbrief : s.briefs botId = some brief)
    (hlater : (commit s index call attempt result through).1.briefs botId = some later) :
    SameMark brief later ∨ attempt.row.botId = botId ∧ isCurrent brief call.runId attempt := by
  by_cases hsame : attempt.row.botId = botId
  · unfold commit at hlater
    rw [hsame, hbrief] at hlater
    dsimp only at hlater
    split at hlater
    · next hcurrent => exact .inr ⟨hsame, hcurrent⟩
    · have hkeeps : KeepsMarks s (s.leave index) := keepsMarks_same rfl
      exact .inl (hkeeps botId brief later hbrief hlater)
  · left
    have hkept : (commit s index call attempt result through).1.briefs botId = s.briefs botId := by
      unfold commit
      split
      · rfl
      · split
        · exact (put_briefs s attempt.row.botId _ botId).trans (if_neg fun h => hsame h.symm)
        · rfl
    rw [hkept, hbrief] at hlater
    cases hlater
    exact ⟨rfl, rfl⟩

def Commits (call : Call) (answer : Answer) (botId : Text) (brief : Brief) : Prop :=
  ∃ attempt result through, answer = .go ∧ call.phase = .committing attempt result through ∧
    attempt.row.botId = botId ∧ isCurrent brief call.runId attempt

theorem act_marks {answer : Answer} (hbrief : s.briefs botId = some brief)
    (hlater : (act s index call answer).1.briefs botId = some later) :
    SameMark brief later ∨ Commits call answer botId brief := by
  have hsame : ∀ {s' : Store}, KeepsMarks s s' → s'.briefs botId = some later →
      SameMark brief later ∨ Commits call answer botId brief :=
    fun hkeeps hlater' => .inl (hkeeps botId brief later hbrief hlater')
  unfold act at hlater
  split at hlater
  · split at hlater <;> exact hsame (keepsMarks_same rfl) hlater
  · exact hsame (resetPending_marks s _ _) hlater
  · exact hsame (upsertPending_marks s _ _ _) hlater
  · unfold openRefresh at hlater
    repeat' split at hlater
    all_goals exact hsame (keepsMarks_same rfl) hlater
  · exact hsame (keepsMarks_same rfl) hlater
  · exact hsame (lookUp_marks s _ _ _) hlater
  · split at hlater
    · exact hsame (claim_marks s index call _) hlater
    · exact hsame (keepsMarks_same rfl) hlater
  iterate 6 exact hsame (keepsMarks_same rfl) hlater
  · exact hsame (release_marks s call _ _) hlater
  · exact hsame (keepsMarks_same rfl) hlater
  · next attempt result through hphase =>
    obtain hmark | ⟨hbot, hcurrent⟩ := commit_marks hbrief hlater
    · exact .inl hmark
    · exact .inr ⟨attempt, result, through, rfl, hphase, hbot, hcurrent⟩
  · have hkeeps : KeepsMarks s (s.leave index) := keepsMarks_same rfl
    exact hsame hkeeps hlater
  · exact hsame (keepsMarks_same rfl) hlater

theorem updateBrief_marks (s : Store) (botId : Text) {update : Brief → Brief}
    (hmark : ∀ brief, SameMark brief (update brief)) :
    KeepsMarks s (updateBrief s botId update) := by
  unfold updateBrief
  split
  · exact keepsMarks_same rfl
  · next brief hbrief => exact keepsMarks_put hbrief (hmark brief)

theorem environment_marks (s : Store) (event : Event) : KeepsMarks s (environment s event) := by
  cases event with
  | thread op => exact keepsMarks_same rfl
  | toolResults botId runId toolResults =>
    refine updateBrief_marks s botId ?_
    intro brief
    split <;> exact ⟨rfl, rfl⟩
  | resetBriefRetries botId =>
    refine updateBrief_marks s botId ?_
    intro brief
    exact ⟨rfl, rfl⟩

theorem notOvertaken_step (h : Kept state) (op : Op) : NotOvertaken state op := by
  intro botId brief later hbrief hlater
  cases op with
  | start call => exact .inl (keepsMarks_same rfl botId brief later hbrief hlater)
  | environment event => exact .inl (environment_marks state.shared event botId brief later hbrief hlater)
  | act index answer =>
    unfold Calls.step at hlater
    dsimp only at hlater
    rcases hcall : state.calls[index]? with _ | call
    · rw [hcall] at hlater
      exact .inl (keepsMarks_same rfl botId brief later hbrief hlater)
    rw [hcall] at hlater
    obtain hmark | ⟨attempt, result, through, rfl, hphase, rfl, hcurrent⟩ := act_marks hbrief hlater
    · exact .inl hmark
    · have hok := h.calls index call hcall
      unfold CallOk at hok
      rw [hphase] at hok
      have hlast := lastClaim_of_current h.shared hok.1 hbrief hcurrent
      have hbehind := hok.1.ahead hlast brief hbrief
      unfold isCurrent at hcurrent
      rw [Bool.and_eq_true, Bool.and_eq_true] at hcurrent
      exact .inr ⟨index, call, attempt, result, through, rfl, hcall, hphase, rfl, hlast,
        of_decide_eq_true hcurrent.1.1, of_decide_eq_true hcurrent.1.2, hbehind.1⟩

end

theorem Kept.covered {state : System} (h : Kept state) : Covered state.shared :=
  fun botId brief hbrief => (h.shared.briefs botId brief hbrief).covered

theorem forward_after {state : System} (h : Kept state) {ops : List Op}
    (hstart : ∀ op ∈ ops, Calls.OnStarts Call.isNew op)
    (hops : Run.Meets (Calls.step program) (Calls.OnActs Undisturbed) state ops) {botId : Text}
    {brief : Brief} (hbrief : state.shared.briefs botId = some brief) :
    ∃ later, (Run.after (Calls.step program) state ops).shared.briefs botId = some later ∧ Forward brief later := by
  induction ops generalizing state brief with
  | nil => exact ⟨brief, hbrief, Forward.refl brief⟩
  | cons op ops ih =>
    obtain ⟨hfirst, hrest⟩ := hops
    obtain ⟨later, hlater, hforward⟩ := forward_step h hfirst hbrief
    have hkept := Calls.holds_step keeps_program h (hstart op List.mem_cons_self) hfirst
    obtain ⟨last, hlast, hforward'⟩ :=
      ih hkept (fun other hother => hstart other (List.mem_cons_of_mem _ hother)) hrest hlater
    exact ⟨last, hlast, hforward.trans hforward'⟩

/-- After every run in which nothing disturbs a refresh, what the briefs cover was considered; and
in the run no watermark went back in its generation, or was moved by a refresh that was
overtaken. -/
theorem refresh_holds (id : Text) (botId : Option Text) (ops : List Op) (hstart : ∀ op ∈ ops, Calls.OnStarts Call.isNew op)
    (hops : Run.Meets (Calls.step program) (Calls.OnActs Undisturbed) (start id botId) ops) :
    Covered (Run.after (Calls.step program) (start id botId) ops).shared ∧
      ∀ earlier rest, ops = earlier ++ rest →
        NeverBack (Run.after (Calls.step program) (start id botId) earlier).shared
          (Run.after (Calls.step program) (start id botId) ops).shared ∧
        ∀ op ∈ rest.head?, NotOvertaken (Run.after (Calls.step program) (start id botId) earlier) op := by
  have hkept : ∀ earlier rest, ops = earlier ++ rest →
      Kept (Run.after (Calls.step program) (start id botId) earlier) := by
    rintro earlier rest rfl
    exact Calls.holds_after keeps_program (kept_start id botId) (fun op hop => hstart op (List.mem_append_left _ hop))
      hops.append.1
  refine ⟨(hkept ops [] (List.append_nil ops).symm).covered, ?_⟩
  intro earlier rest hsplit
  have hearlier := hkept earlier rest hsplit
  subst hsplit
  refine ⟨?_, fun op _ => notOvertaken_step hearlier op⟩
  intro bot brief hbrief
  rw [Run.after_append]
  obtain ⟨later, hlater, hforward⟩ :=
    forward_after hearlier (fun op hop => hstart op (List.mem_append_right _ hop)) hops.append.2 hbrief
  refine ⟨later, hlater, ?_⟩
  intro hsame
  unfold Forward at hforward
  omega

def thread (op : ThreadOp) : Op := .environment (.thread op)

def posted (text : Text) : Op := thread (.post .user none [.text text])

/-- A run that has ended, whose brief is marked by the first call. -/
def markedRun : List Op :=
  thread (.createRun ⟨lit "run", lit "thread", lit "bot", .completed, none⟩) ::
    .start ⟨lit "run", .marking⟩ ::
    [Answer.eligible true, .go, .go].map (.act 0)

/-- A refresh, up to the commit of its watermark. In a group the bot is looked up among its
members. -/
def refreshOf (members : List Answer) : List Op :=
  .start ⟨lit "run", .opening⟩ ::
    ([Answer.eligible true] ++ members ++
      [Answer.clock 5, .admitted true, .budget true, .go, .outcome false, .go, .go, .go]).map (.act 1)

def refreshRun : List Op := refreshOf []

def afterRun (ops : List Op) : Store :=
  (Run.after (Calls.step program) (start (lit "thread") (some (lit "bot"))) ops).shared

def afterGroupRun (ops : List Op) : Store :=
  (Run.after (Calls.step program) (start (lit "thread") none) ops).shared

theorem refresh_holds_marked : (afterRun (markedRun ++ posted (lit "hello") :: refreshRun)).briefs (lit "bot") ≠ none ∧
      Covered (afterRun (markedRun ++ posted (lit "hello") :: refreshRun)) :=
  ⟨by decide +kernel,
    (refresh_holds (lit "thread") (some (lit "bot")) (markedRun ++ posted (lit "hello") ::
      refreshRun) (by decide +kernel)
      (by decide +kernel)).1⟩

def manyRun : List Op := markedRun ++ List.replicate 51 (posted (lit "hello")) ++ refreshRun

/-- In a group, another bot's reply takes its place after the messages are read, and before the
places are. -/
def lateRun : List Op :=
  markedRun ++
    [thread (.createRun ⟨lit "reply", lit "thread", lit "other", .running, none⟩),
      thread (.event (.progress true (some (lit "hm")) none) (some (lit "reply")) false), posted (lit "hello")] ++
    (refreshOf [.member true]).take 7 ++
    thread (.finalize (lit "reply") .completed [.text (lit "hm")] true) :: (refreshOf [.member true]).drop 7

/-- A refresh reads the thread before another does, and claims the brief when the other has
committed. -/
def staleRun : List Op :=
  markedRun ++ posted (lit "hello") :: .start ⟨lit "run", .opening⟩ :: .act 1 (.eligible true) ::
    posted (lit "again") ::
    .start ⟨lit "run", .opening⟩ :: [Answer.eligible true, .clock 5, .admitted true].map (.act 2) ++
    .act 1 (.clock 6) :: [Answer.budget true, .go, .outcome false, .go, .go, .go].map (.act 2)

def staleRefresh : List Op :=
  [Answer.admitted true, .budget true, .go, .outcome false, .go, .go, .go].map (.act 1)

theorem not_covered {s : Store} {botId : Text} {through : ℤ} {message : Message}
    (hbrief : (s.briefs botId).map Brief.lastMessageSeq = some through)
    (hmessage : message ∈ s.thread.messages) (hseq : message.seq ≤ through)
    (hnot : ∀ considered ∈ s.considered, message ∉ considered.batch) : ¬Covered s := by
  intro h
  obtain ⟨brief, hbrief', rfl⟩ := map_eq_some_iff.mp hbrief
  obtain ⟨considered, hconsidered, -, -, hbatch⟩ := h botId brief hbrief' message hmessage hseq
  exact hnot considered hconsidered hbatch

/-- A message beyond the batch, or a reply that lands late, is covered and was never considered; and
a refresh that read the thread before another committed moves the watermark back. -/
theorem refresh_fails : ¬Covered (afterRun manyRun) ∧ ¬Covered (afterGroupRun lateRun) ∧
      ¬NeverBack (afterRun staleRun) (afterRun (staleRun ++ staleRefresh)) := by
  refine ⟨?_, ?_, ?_⟩
  · exact @not_covered _ (lit "bot") 50 ⟨0, .user, none, [.text (lit "hello")]⟩ (by decide +kernel)
      (by decide +kernel)
      (by decide) (by decide +kernel)
  · exact @not_covered _ (lit "bot") 1 ⟨0, .bot, some (lit "reply"), [.text (lit "hm")]⟩ (by decide +kernel)
      (by decide +kernel) (by decide) (by decide +kernel)
  · intro h
    have hbefore : ((afterRun staleRun).briefs (lit "bot")).map
        (fun brief => (brief.historyGeneration, brief.lastMessageSeq)) =
        some (0, 1) := by decide +kernel
    have hafter : ((afterRun (staleRun ++ staleRefresh)).briefs (lit "bot")).map
        (fun brief => (brief.historyGeneration, brief.lastMessageSeq)) = some (0, 0) := by decide +kernel
    obtain ⟨brief, hbrief, hmark⟩ := map_eq_some_iff.mp hbefore
    obtain ⟨later, hlater, hback⟩ := h (lit "bot") brief hbrief
    rw [hlater] at hafter
    obtain ⟨hgeneration, hseq⟩ := Prod.mk.inj hmark
    obtain ⟨hgeneration', hseq'⟩ := Prod.mk.inj (some.inj hafter)
    have := hback (hgeneration'.trans hgeneration.symm)
    omega

end ArdurBot.Briefs
