import ArdurBot.Briefs.RefreshOk

/-!
# Every interleaving of refreshes

Each act of a call keeps what holds of it, and leaves the other calls what they rely on, where
nothing disturbs the refresh between its queries.
-/

namespace ArdurBot.Briefs

open List Utf16 ArdurBot.Core Threads Option Bool

variable {s : Store} {index : ℕ} {call : Call} {attempt : Attempt}

/-- The claim finds a brief that is not ahead of the row that the refresh read of the thread, and no
claim of the same time that has not ended. -/
def ClaimsAlone (s : Store) (runId : Text) (attempt : Attempt) : Prop :=
  ∀ brief ∈ s.briefs attempt.row.botId, isClaimable brief runId attempt →
    NotBehind brief attempt.row ∧ ∀ claim ∈ s.inFlight, claim.botId = attempt.row.botId → claim.time ≠ attempt.now

/-- A message that took a place since the messages were read is above a place that is held. -/
def RepliesAbove (s : Store) (held : List ℤ) : Prop :=
  ∀ message ∈ s.thread.messages, message.seq ∈ held → ∃ place ∈ heldReplySeqs s.thread, place < message.seq

instance (s : Store) (runId : Text) (attempt : Attempt) : Decidable (ClaimsAlone s runId attempt) :=
  inferInstanceAs (Decidable (∀ brief ∈ s.briefs attempt.row.botId, _))

instance (s : Store) (held : List ℤ) : Decidable (RepliesAbove s held) :=
  inferInstanceAs (Decidable (∀ message ∈ s.thread.messages, _))

/-- What disturbs none of the queries of a refresh. -/
def Undisturbed (s : Store) (_ : ℕ) (call : Call) (answer : Answer) : Prop :=
  match call.phase, answer with
  | .claiming attempt, .admitted true => ClaimsAlone s call.runId attempt
  | .reading attempt, .go => (attempt.unread s.thread).length ≤ batchSize
  | .holding _ (.covers _ _ held), .go => RepliesAbove s held
  | _, _ => True

instance (s : Store) (index : ℕ) (call : Call) (answer : Answer) :
    Decidable (Undisturbed s index call answer) := by
  unfold Undisturbed
  split <;> infer_instance

/-- What an act leaves of the store, its call and the others. -/
structure ActedOk (s : Store) (index : ℕ) (result : Acted) : Prop where
  store : StoreOk result.1
  call : CallOk result.1 index result.2
  others : ∀ other ≠ index, Leaves other s result.1

variable {phase : Phase} {botId : Text} {brief later : Brief} {row : Row} {message : Message}
  {batch : List Message} {through : ℤ} {result : Result}

section

variable (h : StoreOk s)
include h

theorem actedOk_same (hphase : PhaseOk s index phase) : ActedOk s index (s, call.to phase) :=
  ⟨h, hphase, fun other _ => leaves_refl other s⟩

theorem actedOk_put (hbrief : s.briefs botId = some brief) (hmark : SameMark brief later)
    (hattempted : later.attemptedAt = brief.attemptedAt ∨ later.attemptedAt = none)
    (hphase : PhaseOk s index phase) :
    ActedOk s index (s.put botId later, call.to phase) where
  store := storeOk_put h hbrief hmark hattempted
  call := phaseOk_leaves (leaves_put hbrief hmark index) hphase
  others other _ := leaves_put hbrief hmark other

theorem resetPending_ok (runId botId : Text) (hphase : PhaseOk s index phase) :
    ActedOk s index (resetPending s runId botId, call.to phase) := by
  unfold resetPending
  split
  · exact actedOk_same h hphase
  · next brief hbrief =>
    split
    · refine actedOk_put h hbrief ?_ ?_ hphase
      · exact ⟨rfl, rfl⟩
      · exact .inl rfl
    · exact actedOk_same h hphase

theorem create_ok (hnone : s.briefs botId = none) (runId : Text) (generation : ℕ) :
    ActedOk s index (s.put botId (newBrief runId generation), call.to .done) := by
  refine ⟨⟨h.thread, h.closed, h.nonneg, ?_, ?_⟩, trivial, ?_⟩
  · intro botId' brief hbrief
    rw [put_briefs] at hbrief
    split at hbrief
    · cases hbrief
      refine ⟨h.closed, ?_⟩
      intro message hmessage hseq
      exact absurd (h.nonneg message hmessage) (not_lt.mpr hseq)
    · have hold := h.briefs botId' brief hbrief
      exact ⟨hold.closed, hold.covered⟩
  · intro claim hclaim brief hbrief htime
    rw [put_briefs] at hbrief
    split at hbrief
    · cases hbrief
      cases htime
    · exact h.claims claim hclaim brief hbrief htime
  · intro other _
    refine ⟨rfl, ?_, fun _ hlast => hlast, fun _ hclaim _ => hclaim⟩
    intro botId' brief hbrief
    have hother : botId' ≠ botId := by
      rintro rfl
      rw [hnone] at hbrief
      cases hbrief
    rw [put_briefs, if_neg hother]
    exact ⟨brief, hbrief, Forward.refl brief, fun _ => ⟨rfl, rfl⟩⟩

theorem upsertPending_ok (runId botId : Text) (generation : ℕ) :
    ActedOk s index (upsertPending s runId botId generation, call.to .done) := by
  unfold upsertPending
  split
  · next hnone => exact create_ok h hnone runId generation
  · next brief hbrief =>
    refine actedOk_put h hbrief ?_ ?_ ?_
    · exact ⟨rfl, rfl⟩
    · exact .inl rfl
    · exact trivial

end

/-! ### Looking up and claiming -/

theorem readRow_next {runId : Text} {eligible : Bool} {run : ThreadRun}
    (h : readRow s runId eligible = some (run, row)) :
    row.nextMessageSeq = s.thread.nextMessageSeq := by
  unfold readRow at h
  simp only [bind_eq_bind, bind_eq_some_iff, Option.pure_def, some.injEq, Prod.mk.injEq] at h
  obtain ⟨run', -, -, -, -, rfl⟩ := h
  rfl

theorem openRefresh_ok (h : StoreOk s) (eligible : Bool) : ActedOk s index (openRefresh s call eligible) := by
  unfold openRefresh
  split
  · exact actedOk_same h trivial
  · next run row hrow =>
    split
    · exact actedOk_same h trivial
    · refine actedOk_same h ?_
      have hnext := (readRow_next hrow).le
      split <;> exact hnext

theorem lookUp_ok (h : StoreOk s) (hrow : row.nextMessageSeq ≤ s.thread.nextMessageSeq) (now : ℕ) :
    ActedOk s index (lookUp s call row now) := by
  unfold lookUp
  split
  · exact actedOk_same h trivial
  · next state hstate =>
    split
    · exact actedOk_same h trivial
    · split
      · exact actedOk_same h trivial
      · split
        · exact actedOk_same h trivial
        · exact actedOk_same h ⟨hrow, state, hstate, Forward.refl state⟩

section

variable (s : Store) (index : ℕ) (attempt : Attempt) (brief : Brief)

def claimed : Store :=
  { s.put attempt.row.botId
      { brief with attemptedAt := some attempt.now, leaseExpiresAt := some (attempt.now + leaseMs) } with
    lastClaim := Function.update s.lastClaim attempt.row.botId (some index)
    inFlight := ⟨attempt.row.botId, attempt.now, index⟩ :: s.inFlight }

theorem claimed_briefs (botId : Text) :
    (claimed s index attempt brief).briefs botId = if botId = attempt.row.botId then
      some { brief with attemptedAt := some attempt.now, leaseExpiresAt := some (attempt.now + leaseMs) }
    else s.briefs botId :=
  put_briefs s attempt.row.botId _ botId

theorem claimed_lastClaim (botId : Text) :
    (claimed s index attempt brief).lastClaim botId = if botId = attempt.row.botId then some index
      else s.lastClaim botId := by
  unfold claimed
  dsimp only
  rw [Function.update_apply]

end

theorem claimed_ok (h : StoreOk s) (hlooked : Looked s attempt)
    (hbrief : s.briefs attempt.row.botId = some brief) (hbehind : NotBehind brief attempt.row)
    (hclaims : ∀ claim ∈ s.inFlight, claim.botId = attempt.row.botId → claim.time ≠ attempt.now) :
    ActedOk s index (claimed s index attempt brief, call.to (.budgeting attempt)) := by
  obtain ⟨brief', hbrief', hforward⟩ := hlooked.since
  rw [hbrief] at hbrief'
  cases hbrief'
  refine ⟨⟨h.thread, h.closed, h.nonneg, ?_, ?_⟩, ⟨⟨hlooked.next, ?_⟩, mem_cons_self, ?_⟩, ?_⟩
  · intro botId later hlater
    rw [claimed_briefs] at hlater
    split at hlater
    · next hsame =>
      cases hlater
      have hold := h.briefs botId brief (hsame ▸ hbrief)
      exact ⟨hold.closed, hold.covered⟩
    · have hold := h.briefs botId later hlater
      exact ⟨hold.closed, hold.covered⟩
  · intro claim hclaim later hlater htime
    rw [claimed_briefs] at hlater
    rw [claimed_lastClaim]
    split at hlater
    · next hsame =>
      cases hlater
      rw [if_pos hsame]
      obtain rfl | hold := mem_cons.mp hclaim
      · rfl
      · exact absurd (some.inj htime).symm (hclaims claim hold hsame)
    · next hother =>
      rw [if_neg hother]
      obtain rfl | hold := mem_cons.mp hclaim
      · exact absurd rfl hother
      · exact h.claims claim hold later hlater htime
  · have hclaimed := claimed_briefs s index attempt brief attempt.row.botId
    rw [if_pos rfl] at hclaimed
    exact ⟨_, hclaimed, hforward⟩
  · intro _ later hlater
    rw [claimed_briefs, if_pos rfl] at hlater
    cases hlater
    exact hbehind
  · intro other hother
    refine ⟨rfl, ?_, ?_, fun _ hclaim _ => mem_cons_of_mem _ hclaim⟩
    · intro botId brief' hbrief'
      change ∃ later, (claimed s index attempt brief).briefs botId = some later ∧ _
      rw [claimed_briefs]
      split
      · next hsame =>
        rw [hsame, hbrief] at hbrief'
        cases hbrief'
        exact ⟨_, rfl, SameMark.forward ⟨rfl, rfl⟩, fun _ => ⟨rfl, rfl⟩⟩
      · exact ⟨brief', hbrief', Forward.refl brief', fun _ => ⟨rfl, rfl⟩⟩
    · intro botId hlast
      change (claimed s index attempt brief).lastClaim botId = some other at hlast
      rw [claimed_lastClaim] at hlast
      split at hlast
      · exact absurd (some.inj hlast).symm hother
      · exact hlast

theorem claim_ok (h : StoreOk s) (hlooked : Looked s attempt) (halone : ClaimsAlone s call.runId attempt) :
    ActedOk s index (claim s index call attempt) := by
  unfold claim
  split
  · exact actedOk_same h trivial
  · next brief hbrief =>
    split
    · next hclaimable =>
      obtain ⟨hbehind, hclaims⟩ := halone brief hbrief hclaimable
      exact claimed_ok h hlooked hbrief hbehind hclaims
    · exact actedOk_same h trivial

theorem mem_newest {messages : List Message} (hfits : messages.length ≤ batchSize)
    (hmessage : message ∈ messages) :
    message ∈ newest batchSize messages := by
  unfold newest bySeq
  have hlength : (messages.insertionSort fun a b => a.seq ≤ b.seq).reverse.length ≤ batchSize := by
    rw [length_reverse, length_insertionSort]
    exact hfits
  rw [take_of_length_le hlength, reverse_reverse]
  exact (mem_insertionSort _).mpr hmessage

theorem read_ok (h : StoreOk s) (hfits : (attempt.unread s.thread).length ≤ batchSize) :
    HasRead s attempt (newest batchSize (attempt.unread s.thread)) (attempt.held s.thread) where
  batch message hmessage hafter hseq := by
    refine .inl (mem_newest hfits ?_)
    refine mem_filter.mpr ⟨hmessage, ?_⟩
    rw [and_eq_true, decide_eq_true_iff, decide_eq_true_iff]
    exact ⟨hafter, by omega⟩
  held runId seq hheld hseq := by
    unfold Attempt.held
    rw [mem_filter]
    exact ⟨(mem_heldReplySeqs h.thread.places).mpr ⟨runId, hheld⟩, decide_eq_true hseq⟩

theorem hold_ok (h : StoreOk s) (hclaimed : Claimed s index attempt) {held : List ℤ}
    (hread : HasRead s attempt batch held) (habove : RepliesAbove s held) :
    HasCovered s index attempt batch (coveredMessageSeq attempt.row.nextMessageSeq (heldReplySeqs s.thread)) where
  closed := by
    refine ⟨?_, ?_⟩
    · exact (coveredMessageSeq_lt_next _ _).trans_le hclaimed.looked.next
    · intro runId seq hheld
      exact coveredMessageSeq_lt _ ((mem_heldReplySeqs h.thread.places).mpr ⟨runId, hheld⟩)
  batch message hmessage hafter hseq := by
    have hnext := coveredMessageSeq_lt_next attempt.row.nextMessageSeq (heldReplySeqs s.thread)
    obtain hbatch | hheld := hread.batch message hmessage hafter (by omega)
    · exact hbatch
    · obtain ⟨place, hplace, hbelow⟩ := habove message hmessage hheld
      have := coveredMessageSeq_lt attempt.row.nextMessageSeq hplace
      omega
  ahead hlast brief hbrief hsame := by
    refine le_coveredMessageSeq ((hclaimed.ahead hlast brief hbrief).2 hsame) ?_
    intro place hplace
    obtain ⟨runId, hheld⟩ := (mem_heldReplySeqs h.thread.places).mp hplace
    exact (h.briefs _ brief hbrief).closed.free runId place hheld

/-! ### Committing -/

theorem leaves_leave {other : ℕ} (hother : other ≠ index) : Leaves other s (s.leave index) where
  thread := rfl
  briefs _ brief hbrief := ⟨brief, hbrief, Forward.refl brief, fun _ => ⟨rfl, rfl⟩⟩
  lastClaim _ hlast := hlast
  inFlight claim hclaim hcall := by
    unfold Store.leave
    rw [mem_filter]
    exact ⟨hclaim, decide_eq_true (by rw [hcall]; exact hother)⟩

theorem storeOk_leave (h : StoreOk s) (index : ℕ) : StoreOk (s.leave index) where
  __ := h
  briefs botId brief hbrief := by
    have hold := h.briefs botId brief hbrief
    exact ⟨hold.closed, hold.covered⟩
  claims claim hclaim := h.claims claim (mem_of_mem_filter hclaim)

theorem leave_ok (h : StoreOk s) : ActedOk s index (s.leave index, call.to .done) :=
  ⟨storeOk_leave h index, trivial, fun _ hother => leaves_leave hother⟩

theorem lastClaim_of_current (h : StoreOk s) (hclaimed : Claimed s index attempt)
    (hbrief : s.briefs attempt.row.botId = some brief) (hcurrent : isCurrent brief call.runId attempt) :
    s.lastClaim attempt.row.botId = some index := by
  unfold isCurrent at hcurrent
  rw [and_eq_true] at hcurrent
  exact h.claims _ hclaimed.inFlight brief hbrief (of_decide_eq_true hcurrent.2)

section

variable (s : Store) (index : ℕ) (attempt : Attempt) (later : Brief) (batch : List Message)

/-- What the store is when the watermark has moved. -/
def moved : Store :=
  { (s.put attempt.row.botId later).leave index with
    considered := ⟨attempt.row.botId, attempt.row.generation, batch⟩ :: s.considered }

theorem moved_briefs (botId : Text) :
    (moved s index attempt later batch).briefs botId = if botId = attempt.row.botId then some later
      else s.briefs botId :=
  put_briefs s attempt.row.botId later botId

end

section

variable (h : StoreOk s)
include h

theorem covered_moved (hcovered : HasCovered s index attempt batch through)
    (hold : BriefOk s attempt.row.botId brief) (hforward : Forward attempt.state brief)
    (hgeneration : brief.historyGeneration = attempt.state.historyGeneration)
    (hmessage : message ∈ s.thread.messages) (hseq : message.seq ≤ through) :
    (∃ considered ∈ s.considered, considered.botId = attempt.row.botId ∧
      considered.generation = attempt.row.generation ∧ message ∈ considered.batch) ∨ message ∈ batch := by
  by_cases hsame : attempt.state.historyGeneration = attempt.row.generation
  · by_cases hbelow : message.seq ≤ brief.lastMessageSeq
    · rw [← hsame, ← hgeneration]
      exact .inl (hold.covered message hmessage hbelow)
    · refine .inr (hcovered.batch message hmessage ?_ hseq)
      unfold Attempt.after
      rw [if_pos hsame]
      unfold Forward at hforward
      omega
  · refine .inr (hcovered.batch message hmessage ?_ hseq)
    unfold Attempt.after
    rw [if_neg hsame]
    exact h.nonneg message hmessage

section

variable (hclaimed : Claimed s index attempt)
include hclaimed

theorem moved_ok (hcovered : HasCovered s index attempt batch through)
    (hbrief : s.briefs attempt.row.botId = some brief) (hcurrent : isCurrent brief call.runId attempt)
    (hlater : later.historyGeneration = attempt.row.generation ∧ later.lastMessageSeq = through ∧
      later.attemptedAt = brief.attemptedAt) :
    ActedOk s index (moved s index attempt later batch, call.to .done) := by
  have hlast := lastClaim_of_current h hclaimed hbrief hcurrent
  obtain ⟨hgeneration, hseq, hattempted⟩ := hlater
  have hsame : brief.historyGeneration = attempt.state.historyGeneration := by
    unfold isCurrent at hcurrent
    rw [and_eq_true, and_eq_true] at hcurrent
    exact of_decide_eq_true hcurrent.1.2
  have hsince : Forward attempt.state brief := by
    obtain ⟨brief', hbrief', hforward⟩ := hclaimed.looked.since
    rw [hbrief] at hbrief'
    cases hbrief'
    exact hforward
  have hforward : Forward brief later := by
    have hbehind := hclaimed.ahead hlast brief hbrief
    have hahead := hcovered.ahead hlast brief hbrief
    unfold NotBehind at hbehind
    unfold Forward
    rw [hgeneration, hseq]
    omega
  refine ⟨⟨h.thread, h.closed, h.nonneg, ?_, ?_⟩, trivial, ?_⟩
  · intro botId brief' hbrief'
    rw [moved_briefs] at hbrief'
    split at hbrief'
    · next hbot =>
      cases hbrief'
      refine ⟨hseq ▸ hcovered.closed, ?_⟩
      intro message hmessage hbelow
      rw [hseq] at hbelow
      rw [hbot, hgeneration]
      rcases covered_moved h hcovered (h.briefs _ brief hbrief) hsince hsame hmessage hbelow with
        ⟨considered, hconsidered, hfacts⟩ | hbatch
      · exact ⟨considered, mem_cons_of_mem _ hconsidered, hfacts⟩
      · exact ⟨_, mem_cons_self, rfl, rfl, hbatch⟩
    · have hold := h.briefs botId brief' hbrief'
      refine ⟨hold.closed, ?_⟩
      intro message hmessage hbelow
      obtain ⟨considered, hconsidered, hfacts⟩ := hold.covered message hmessage hbelow
      exact ⟨considered, mem_cons_of_mem _ hconsidered, hfacts⟩
  · intro claim hclaim brief' hbrief' htime
    have hclaim' : claim ∈ s.inFlight := mem_of_mem_filter hclaim
    rw [moved_briefs] at hbrief'
    split at hbrief'
    · next hbot =>
      cases hbrief'
      exact h.claims claim hclaim' brief (hbot ▸ hbrief) (hattempted ▸ htime)
    · exact h.claims claim hclaim' brief' hbrief' htime
  · intro other hother
    refine ⟨rfl, ?_, fun _ hlast => hlast, (leaves_leave hother).inFlight⟩
    intro botId brief' hbrief'
    change ∃ later', (moved s index attempt later batch).briefs botId = some later' ∧ _
    rw [moved_briefs]
    split
    · next hbot =>
      rw [hbot, hbrief] at hbrief'
      cases hbrief'
      refine ⟨later, rfl, hforward, ?_⟩
      intro hclaim
      rw [hbot] at hclaim
      exact absurd (some.inj (hlast.symm.trans hclaim)).symm hother
    · exact ⟨brief', hbrief', Forward.refl brief', fun _ => ⟨rfl, rfl⟩⟩

theorem commit_ok (hcovers : CoversOk s index attempt through result) :
    ActedOk s index (commit s index call attempt result through) := by
  unfold commit
  split
  · exact leave_ok h
  · next brief hbrief =>
    split
    · next hcurrent =>
      cases result with
      | covers rewritten batch held =>
        refine moved_ok h hclaimed hcovers hbrief hcurrent ?_
        exact ⟨rfl, rfl, rfl⟩
      | failed reason deterministic =>
        have hput : ActedOk s index
            (s.put attempt.row.botId
              (refreshed brief attempt (.failed reason deterministic) through), call.to .done) := by
          refine actedOk_put h hbrief ?_ ?_ ?_
          · exact ⟨rfl, rfl⟩
          · exact .inl rfl
          · exact trivial
        refine ⟨storeOk_leave hput.store index, trivial, ?_⟩
        intro other hother
        exact (hput.others other hother).trans (leaves_leave hother)
    · exact leave_ok h

theorem release_ok (hresult : ResultOk s attempt result) :
    ActedOk s index (release s call attempt result) := by
  have hnext : ∀ {phase : Phase}, PhaseOk s index phase →
      ActedOk s index ((release s call attempt result).1, call.to phase) := by
    intro phase hphase
    unfold release
    cases result with
    | covers | failed =>
      split
      · exact actedOk_same h hphase
      · next brief hbrief =>
        split
        · refine actedOk_put h hbrief ?_ ?_ hphase
          · exact ⟨rfl, rfl⟩
          · exact .inl rfl
        · exact actedOk_same h hphase
  cases result with
  | covers rewritten batch held => exact hnext ⟨hclaimed, hresult⟩
  | failed reason deterministic => exact hnext ⟨hclaimed, trivial⟩

end

/-! ### Acts -/

theorem act_ok (hcall : CallOk s index call) {answer : Answer} (hfree : Undisturbed s index call answer) :
    ActedOk s index (act s index call answer) := by
  obtain ⟨runId, phase⟩ := call
  have hsame : ActedOk s index (s, ⟨runId, phase⟩) := ⟨h, hcall, fun other _ => leaves_refl other s⟩
  have hdone : ActedOk s index (s.leave index, (⟨runId, phase⟩ : Call).to .done) := leave_ok h
  cases answer with
  | stop => cases phase <;> exact hdone
  | eligible ok =>
    cases phase with
    | marking =>
      dsimp only [act]
      split
      · exact actedOk_same h trivial
      · exact actedOk_same h trivial
    | opening => exact openRefresh_ok h ok
    | _ => exact hsame
  | member ok =>
    cases phase with
    | belonging row =>
      refine actedOk_same h ?_
      split
      · exact hcall
      · exact trivial
    | _ => exact hsame
  | clock now =>
    cases phase with
    | looking row => exact lookUp_ok h hcall now
    | _ => exact hsame
  | admitted ok =>
    cases phase with
    | claiming attempt =>
      cases ok with
      | true => exact claim_ok h hcall hfree
      | false => exact actedOk_same h trivial
    | _ => exact hsame
  | budget ok =>
    cases phase with
    | budgeting attempt =>
      refine actedOk_same h ?_
      split
      · exact hcall
      · exact ⟨hcall, trivial⟩
    | _ => exact hsame
  | outcome rewritten =>
    cases phase with
    | considering attempt batch held => exact actedOk_same h hcall
    | _ => exact hsame
  | failed reason deterministic =>
    cases phase with
    | budgeting | reading => exact actedOk_same h ⟨hcall, trivial⟩
    | considering attempt batch held => exact actedOk_same h ⟨hcall.1, trivial⟩
    | _ => exact hsame
  | go =>
    cases phase with
    | resetting row => exact resetPending_ok h runId row.botId trivial
    | creating row => exact upsertPending_ok h runId row.botId row.generation
    | reading attempt => exact actedOk_same h ⟨hcall, read_ok h hfree⟩
    | releasing attempt result => exact release_ok h hcall.1 hcall.2
    | holding attempt result =>
      cases result with
      | covers rewritten batch held => exact actedOk_same h ⟨hcall.1, hold_ok h hcall.1 hcall.2 hfree⟩
      | failed reason deterministic => exact actedOk_same h ⟨hcall.1, trivial⟩
    | committing attempt result through => exact commit_ok h hcall.1 hcall.2
    | _ => exact hsame

theorem updateBrief_ok (botId : Text) {update : Brief → Brief}
    (hmark : ∀ brief, SameMark brief (update brief))
    (hattempted : ∀ brief, (update brief).attemptedAt = brief.attemptedAt ∨ (update brief).attemptedAt = none) :
    StoreOk (updateBrief s botId update) ∧ ∀ other, Leaves other s (updateBrief s botId update) := by
  unfold updateBrief
  split
  · exact ⟨h, fun other => leaves_refl other s⟩
  · next brief hbrief =>
    exact ⟨storeOk_put h hbrief (hmark brief) (hattempted brief), leaves_put hbrief (hmark brief)⟩

theorem toolResults_ok (botId runId toolResults : Text) :
    StoreOk (environment s (.toolResults botId runId toolResults)) ∧
      ∀ other, Leaves other s (environment s (.toolResults botId runId toolResults)) := by
  refine updateBrief_ok h botId ?_ ?_
  · intro brief
    split <;> exact ⟨rfl, rfl⟩
  · intro brief
    split <;> exact .inl rfl

theorem resetBriefRetries_ok (botId : Text) : StoreOk (environment s (.resetBriefRetries botId)) ∧
    ∀ other, Leaves other s (environment s (.resetBriefRetries botId)) :=
  updateBrief_ok h botId (fun _ => ⟨rfl, rfl⟩) fun _ => .inr rfl

end

theorem keeps_program : Calls.Keeps program StoreOk CallOk (fun _ _ => True) Call.isNew Undisturbed where
  start s index call _ _ hnew := by
    unfold CallOk
    obtain hphase | hphase := hnew <;> rw [hphase] <;> exact trivial
  act _ _ _ _ h hcall hfree := ⟨(act_ok h hcall hfree).store, (act_ok h hcall hfree).call⟩
  others _ _ _ _ other _ h hcall hfree hother hcall' :=
    phaseOk_leaves ((act_ok h hcall hfree).others other hother) hcall'
  idle _ _ _ _ _ _ _ _ _ _ := trivial
  environment s event h := by
    cases event with
    | thread op => exact storeOk_thread (threadKept_apply h.thread op) h
    | toolResults botId runId toolResults => exact (toolResults_ok h botId runId toolResults).1
    | resetBriefRetries botId => exact (resetBriefRetries_ok h botId).1
  environmentLocal s event index call h hcall := by
    cases event with
    | thread op => exact phaseOk_thread (threadKept_apply h.thread op) hcall
    | toolResults botId runId toolResults =>
      exact phaseOk_leaves ((toolResults_ok h botId runId toolResults).2 index) hcall
    | resetBriefRetries botId => exact phaseOk_leaves ((resetBriefRetries_ok h botId).2 index) hcall
  environmentIdle _ _ _ _ _ := trivial

end ArdurBot.Briefs
