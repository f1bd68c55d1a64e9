import ArdurBot.Briefs.Refresh
import ArdurBot.Threads.PlacesRun

/-!
# What a watermark covers

Below a watermark no place of the thread is open, so no message can appear there any more
(`Closed`). A refresh that has read its messages and then the places moves the watermark to where
both hold.
-/

namespace ArdurBot.Briefs

open Utf16 ArdurBot.Core Threads

variable {s : Store} {thread next : Thread} {index : ℕ} {call : Call} {attempt : Attempt}

/-- Up to the seq the thread has no place that a message may still take. -/
structure Closed (thread : Thread) (through : ℤ) : Prop where
  below : through < thread.nextMessageSeq
  free : ∀ runId seq, Holds thread runId seq → through < seq

theorem Closed.spent (h : Closed thread through) {seq : ℤ} (hseq : seq ≤ through) : Spent thread seq := by
  refine ⟨hseq.trans_lt h.below, ?_⟩
  intro runId hheld
  have := h.free runId seq hheld
  omega

theorem Closed.moves (h : Closed thread through) (hmoves : Moves thread next) : Closed next through where
  below := h.below.trans_le hmoves.mono
  free runId seq hheld := by
    by_contra hnot
    exact (hmoves.spent seq (h.spent (by omega))).1.2 runId hheld

theorem Closed.message (h : Closed thread through) (hmoves : Moves thread next) {message : Message}
    (hmessage : message ∈ next.messages) (hseq : message.seq ≤ through) : message ∈ thread.messages :=
  (hmoves.spent message.seq (h.spent hseq)).2 message hmessage rfl

theorem mem_heldReplySeqs (h : PlacesOk thread) {seq : ℤ} :
    seq ∈ heldReplySeqs thread ↔ ∃ runId, Holds thread runId seq := by
  unfold heldReplySeqs
  rw [List.mem_filterMap]
  constructor
  · rintro ⟨run, hrun, hplace⟩
    split at hplace
    · next hholds =>
      rw [Bool.and_eq_true] at hholds
      exact ⟨run.id, run, hrun, rfl, of_decide_eq_true hholds.1, hplace⟩
    · cases hplace
  · rintro ⟨runId, run, hrun, -, hthread, hplace⟩
    refine ⟨run, hrun, ?_⟩
    rw [if_pos, hplace]
    rw [Bool.and_eq_true]
    exact ⟨decide_eq_true hthread, decide_eq_true (h.running run hrun (by rw [hplace]; rfl))⟩

theorem coveredMessageSeq_lt (nextMessageSeq : ℤ) {holds : List ℤ} {place : ℤ} (hplace : place ∈ holds) :
    coveredMessageSeq nextMessageSeq holds < place := by
  unfold coveredMessageSeq
  cases hmin : holds.min? with
  | none =>
    rw [List.min?_eq_none_iff.mp hmin] at hplace
    cases hplace
  | some lowest =>
    have hlowest := (List.min?_eq_some_iff.mp hmin).2 place hplace
    dsimp only
    omega

theorem coveredMessageSeq_lt_next (nextMessageSeq : ℤ) (holds : List ℤ) :
    coveredMessageSeq nextMessageSeq holds < nextMessageSeq := by
  unfold coveredMessageSeq
  split <;> omega

theorem le_coveredMessageSeq {through nextMessageSeq : ℤ} {holds : List ℤ}
    (hnext : through ≤ nextMessageSeq - 1)
    (hholds : ∀ place ∈ holds, through < place) : through ≤ coveredMessageSeq nextMessageSeq holds := by
  unfold coveredMessageSeq
  cases hmin : holds.min? with
  | none => exact hnext
  | some lowest =>
    have hlowest := hholds lowest (List.min?_eq_some_iff.mp hmin).1
    dsimp only
    omega

/-- The brief is in a later generation, or in the same one and no further back. -/
def Forward (brief later : Brief) : Prop :=
  brief.historyGeneration < later.historyGeneration ∨
    brief.historyGeneration = later.historyGeneration ∧ brief.lastMessageSeq ≤ later.lastMessageSeq

theorem Forward.refl (brief : Brief) : Forward brief brief := .inr ⟨rfl, le_refl _⟩

theorem Forward.trans {a b c : Brief} (h : Forward a b) (h' : Forward b c) : Forward a c := by
  unfold Forward at *
  omega

def SameMark (brief later : Brief) : Prop :=
  later.historyGeneration = brief.historyGeneration ∧ later.lastMessageSeq = brief.lastMessageSeq

theorem SameMark.forward {brief later : Brief} (h : SameMark brief later) : Forward brief later :=
  .inr ⟨h.1.symm, h.2.ge⟩

/-- The row of the thread is not older than what the brief records. -/
def NotBehind (brief : Brief) (row : Row) : Prop :=
  brief.historyGeneration ≤ row.generation ∧
    (brief.historyGeneration = row.generation → brief.lastMessageSeq ≤ row.nextMessageSeq - 1)

instance (brief : Brief) (row : Row) : Decidable (NotBehind brief row) :=
  inferInstanceAs (Decidable (_ ∧ _))

/-- What a brief covers was considered, and no message can appear there. -/
structure BriefOk (s : Store) (botId : Text) (brief : Brief) : Prop where
  closed : Closed s.thread brief.lastMessageSeq
  covered : ∀ message ∈ s.thread.messages, message.seq ≤ brief.lastMessageSeq → ∃ considered ∈ s.considered,
    considered.botId = botId ∧ considered.generation = brief.historyGeneration ∧ message ∈ considered.batch

structure StoreOk (s : Store) : Prop where
  thread : ThreadOk s.thread
  closed : Closed s.thread (-1)
  nonneg : ∀ message ∈ s.thread.messages, -1 < message.seq
  briefs : ∀ botId brief, s.briefs botId = some brief → BriefOk s botId brief
  claims : ∀ claim ∈ s.inFlight, ∀ brief, s.briefs claim.botId = some brief →
    brief.attemptedAt = some claim.time →
    s.lastClaim claim.botId = some claim.call

structure Looked (s : Store) (attempt : Attempt) : Prop where
  next : attempt.row.nextMessageSeq ≤ s.thread.nextMessageSeq
  since : ∃ brief, s.briefs attempt.row.botId = some brief ∧ Forward attempt.state brief

/-- A refresh that has claimed the brief, and what holds while no other claims it. -/
structure Claimed (s : Store) (index : ℕ) (attempt : Attempt) : Prop where
  looked : Looked s attempt
  inFlight : ⟨attempt.row.botId, attempt.now, index⟩ ∈ s.inFlight
  ahead : s.lastClaim attempt.row.botId = some index →
    ∀ brief, s.briefs attempt.row.botId = some brief → NotBehind brief attempt.row

/-- A refresh that has read the messages: what is unread since was in a place. -/
structure HasRead (s : Store) (attempt : Attempt) (batch : List Message) (held : List ℤ) :
  Prop where
  batch : ∀ message ∈ s.thread.messages, attempt.after < message.seq →
    message.seq < attempt.row.nextMessageSeq →
    message ∈ batch ∨ message.seq ∈ held
  held : ∀ runId seq, Holds s.thread runId seq → seq < attempt.row.nextMessageSeq → seq ∈ held

structure HasCovered (s : Store) (index : ℕ) (attempt : Attempt) (batch : List Message)
  (through : ℤ) : Prop where
  closed : Closed s.thread through
  batch : ∀ message ∈ s.thread.messages, attempt.after < message.seq → message.seq ≤ through → message ∈ batch
  ahead : s.lastClaim attempt.row.botId = some index → ∀ brief, s.briefs attempt.row.botId = some brief →
    brief.historyGeneration = attempt.row.generation → brief.lastMessageSeq ≤ through

/-- What holds of a result until it is committed. -/
def ResultOk (s : Store) (attempt : Attempt) : Result → Prop
  | .covers _ batch held => HasRead s attempt batch held
  | .failed .. => True

section

variable (s : Store) (index : ℕ)

def CoversOk (attempt : Attempt) (through : ℤ) : Result → Prop
  | .covers _ batch _ => HasCovered s index attempt batch through
  | .failed .. => True

def PhaseOk : Phase → Prop
  | .belonging row => row.nextMessageSeq ≤ s.thread.nextMessageSeq
  | .looking row => row.nextMessageSeq ≤ s.thread.nextMessageSeq
  | .claiming attempt => Looked s attempt
  | .budgeting attempt => Claimed s index attempt
  | .reading attempt => Claimed s index attempt
  | .considering attempt batch held => Claimed s index attempt ∧ HasRead s attempt batch held
  | .releasing attempt result => Claimed s index attempt ∧ ResultOk s attempt result
  | .holding attempt result => Claimed s index attempt ∧ ResultOk s attempt result
  | .committing attempt result through => Claimed s index attempt ∧ CoversOk s index attempt through result
  | _ => True

def CallOk (call : Call) : Prop := PhaseOk s index call.phase

end

section

variable (hkept : ThreadKept s.thread next)

include hkept

theorem looked_thread (h : Looked s attempt) : Looked { s with thread := next } attempt :=
  ⟨h.next.trans hkept.places.moves.mono, h.since⟩

theorem claimed_thread (h : Claimed s index attempt) : Claimed { s with thread := next } index attempt :=
  ⟨looked_thread hkept h.looked, h.inFlight, h.ahead⟩

theorem holds_of_given {runId : Text} {seq : ℤ} (hseq : seq < s.thread.nextMessageSeq)
    (hheld : Holds next runId seq) :
    ∃ runId', Holds s.thread runId' seq := by
  by_contra hnone
  have hspent : Spent s.thread seq := ⟨hseq, fun runId' hheld' => hnone ⟨runId', hheld'⟩⟩
  exact (hkept.places.moves.spent seq hspent).1.2 runId hheld

theorem hasRead_thread (h : HasRead s attempt batch held)
    (hnext : attempt.row.nextMessageSeq ≤ s.thread.nextMessageSeq) :
    HasRead { s with thread := next } attempt batch held where
  batch message hmessage hafter hseq := by
    by_cases hplace : ∃ runId, Holds s.thread runId message.seq
    · obtain ⟨runId, hheld⟩ := hplace
      exact .inr (h.held runId message.seq hheld hseq)
    · have hspent : Spent s.thread message.seq := ⟨hseq.trans_le hnext, fun runId hheld => hplace ⟨runId, hheld⟩⟩
      exact h.batch message ((hkept.places.moves.spent _ hspent).2 message hmessage rfl) hafter hseq
  held runId seq hheld hseq := by
    obtain ⟨runId', hheld'⟩ := holds_of_given hkept (hseq.trans_le hnext) hheld
    exact h.held runId' seq hheld' hseq

theorem phaseOk_thread {phase : Phase} (h : PhaseOk s index phase) :
    PhaseOk { s with thread := next } index phase := by
  cases phase with
  | belonging | looking => exact h.trans hkept.places.moves.mono
  | claiming attempt => exact looked_thread hkept h
  | budgeting | reading => exact claimed_thread hkept h
  | considering attempt batch held =>
    exact ⟨claimed_thread hkept h.1, hasRead_thread hkept h.2 h.1.looked.next⟩
  | releasing attempt result | holding attempt result =>
    cases result with
    | covers rewritten batch held => exact ⟨claimed_thread hkept h.1, hasRead_thread hkept h.2 h.1.looked.next⟩
    | failed reason deterministic => exact ⟨claimed_thread hkept h.1, trivial⟩
  | committing attempt result through =>
    cases result with
    | covers rewritten batch held => exact ⟨claimed_thread hkept h.1, ⟨h.2.closed.moves hkept.places.moves,
      fun message hmessage hafter hseq =>
        h.2.batch message (h.2.closed.message hkept.places.moves hmessage hseq) hafter hseq,
      h.2.ahead⟩⟩
    | failed reason deterministic => exact ⟨claimed_thread hkept h.1, trivial⟩
  | _ => trivial

theorem storeOk_thread (h : StoreOk s) : StoreOk { s with thread := next } where
  thread := hkept.ok
  closed := h.closed.moves hkept.places.moves
  nonneg message hmessage := by
    by_contra hnot
    have hseq : message.seq ≤ -1 := by omega
    exact hnot (h.nonneg message (h.closed.message hkept.places.moves hmessage hseq))
  briefs botId brief hbrief :=
    have hold := h.briefs botId brief hbrief
    ⟨hold.closed.moves hkept.places.moves, fun message hmessage hseq =>
      hold.covered message (hold.closed.message hkept.places.moves hmessage hseq) hseq⟩
  claims := h.claims

end

/-- What a change of the store leaves for a call: no brief goes back, and one that the call was the
last to claim keeps its mark. -/
structure Leaves (other : ℕ) (s s' : Store) : Prop where
  thread : s'.thread = s.thread
  briefs : ∀ botId brief, s.briefs botId = some brief → ∃ later, s'.briefs botId = some later ∧
    Forward brief later ∧
    (s'.lastClaim botId = some other → SameMark brief later)
  lastClaim : ∀ botId, s'.lastClaim botId = some other → s.lastClaim botId = some other
  inFlight : ∀ claim ∈ s.inFlight, claim.call = other → claim ∈ s'.inFlight

section

variable {other : ℕ} {s' : Store} (hleaves : Leaves other s s')

theorem Leaves.trans {a b c : Store} (h : Leaves other a b) (h' : Leaves other b c) : Leaves other a c where
  thread := h'.thread.trans h.thread
  briefs botId brief hbrief := by
    obtain ⟨later, hlater, hforward, hsame⟩ := h.briefs botId brief hbrief
    obtain ⟨last, hlast, hforward', hsame'⟩ := h'.briefs botId later hlater
    refine ⟨last, hlast, hforward.trans hforward', ?_⟩
    intro hclaim
    obtain ⟨hgeneration, hseq⟩ := hsame (h'.lastClaim botId hclaim)
    obtain ⟨hgeneration', hseq'⟩ := hsame' hclaim
    exact ⟨hgeneration'.trans hgeneration, hseq'.trans hseq⟩
  lastClaim botId hlast := h.lastClaim botId (h'.lastClaim botId hlast)
  inFlight claim hclaim hcall := h'.inFlight claim (h.inFlight claim hclaim hcall) hcall

theorem leaves_refl (other : ℕ) (s : Store) : Leaves other s s where
  thread := rfl
  briefs _ brief hbrief := ⟨brief, hbrief, Forward.refl brief, fun _ => ⟨rfl, rfl⟩⟩
  lastClaim _ hlast := hlast
  inFlight _ hclaim _ := hclaim

include hleaves

theorem looked_leaves (h : Looked s attempt) : Looked s' attempt where
  next := hleaves.thread ▸ h.next
  since := by
    obtain ⟨brief, hbrief, hforward⟩ := h.since
    obtain ⟨later, hlater, hforward', -⟩ := hleaves.briefs _ brief hbrief
    exact ⟨later, hlater, hforward.trans hforward'⟩

theorem sameMark_leaves (h : Looked s attempt) (hlast : s'.lastClaim attempt.row.botId = some other)
    {later : Brief} (hlater : s'.briefs attempt.row.botId = some later) :
    ∃ brief, s.briefs attempt.row.botId = some brief ∧ SameMark brief later := by
  obtain ⟨brief, hbrief, -⟩ := h.since
  obtain ⟨later', hlater', -, hsame⟩ := hleaves.briefs _ brief hbrief
  rw [hlater'] at hlater
  cases hlater
  exact ⟨brief, hbrief, hsame hlast⟩

theorem claimed_leaves (h : Claimed s other attempt) : Claimed s' other attempt where
  looked := looked_leaves hleaves h.looked
  inFlight := hleaves.inFlight _ h.inFlight rfl
  ahead hlast later hlater := by
    obtain ⟨brief, hbrief, hgeneration, hseq⟩ := sameMark_leaves hleaves h.looked hlast hlater
    have hahead := h.ahead (hleaves.lastClaim _ hlast) brief hbrief
    unfold NotBehind at hahead ⊢
    rw [hgeneration, hseq]
    exact hahead

theorem hasRead_leaves {batch : List Message} {held : List ℤ} (h : HasRead s attempt batch held) :
    HasRead s' attempt batch held := by
  obtain ⟨hbatch, hheld⟩ := h
  rw [← hleaves.thread] at hbatch hheld
  exact ⟨hbatch, hheld⟩

theorem hasCovered_leaves (h : Looked s attempt) {batch : List Message} {through : ℤ}
    (hcovered : HasCovered s other attempt batch through) : HasCovered s' other attempt batch through where
  closed := hleaves.thread ▸ hcovered.closed
  batch := by
    rw [hleaves.thread]
    exact hcovered.batch
  ahead hlast later hlater hsame := by
    obtain ⟨brief, hbrief, hgeneration, hseq⟩ := sameMark_leaves hleaves h hlast hlater
    rw [hseq]
    exact hcovered.ahead (hleaves.lastClaim _ hlast) brief hbrief (hgeneration.symm.trans hsame)

theorem phaseOk_leaves {phase : Phase} (h : PhaseOk s other phase) : PhaseOk s' other phase := by
  cases phase with
  | belonging | looking => exact h.trans (hleaves.thread ▸ le_refl _)
  | claiming attempt => exact looked_leaves hleaves h
  | budgeting | reading => exact claimed_leaves hleaves h
  | considering attempt batch held => exact ⟨claimed_leaves hleaves h.1, hasRead_leaves hleaves h.2⟩
  | releasing attempt result | holding attempt result =>
    cases result with
    | covers rewritten batch held => exact ⟨claimed_leaves hleaves h.1, hasRead_leaves hleaves h.2⟩
    | failed reason deterministic => exact ⟨claimed_leaves hleaves h.1, trivial⟩
  | committing attempt result through =>
    cases result with
    | covers rewritten batch held => exact ⟨claimed_leaves hleaves h.1, hasCovered_leaves hleaves h.1.looked h.2⟩
    | failed reason deterministic => exact ⟨claimed_leaves hleaves h.1, trivial⟩
  | _ => trivial

end

section

variable {botId : Text} {brief later : Brief}

theorem put_briefs (s : Store) (botId : Text) (brief : Brief) (other : Text) :
    (s.put botId brief).briefs other = if other = botId then some brief else s.briefs other := by
  unfold Store.put
  dsimp only
  rw [Function.update_apply]

theorem leaves_put (hbrief : s.briefs botId = some brief) (hmark : SameMark brief later) (other : ℕ) :
    Leaves other s (s.put botId later) where
  thread := rfl
  briefs botId' brief' hbrief' := by
    rw [put_briefs]
    by_cases hsame : botId' = botId
    · subst hsame
      rw [hbrief] at hbrief'
      cases hbrief'
      rw [if_pos rfl]
      exact ⟨later, rfl, hmark.forward, fun _ => hmark⟩
    · rw [if_neg hsame]
      exact ⟨brief', hbrief', Forward.refl brief', fun _ => ⟨rfl, rfl⟩⟩
  lastClaim _ hlast := hlast
  inFlight _ hclaim _ := hclaim

theorem storeOk_put (h : StoreOk s) (hbrief : s.briefs botId = some brief) (hmark : SameMark brief later)
    (hattempted : later.attemptedAt = brief.attemptedAt ∨ later.attemptedAt = none) :
    StoreOk (s.put botId later) where
  __ := h
  briefs botId' brief' hbrief' := by
    rw [put_briefs] at hbrief'
    split at hbrief'
    · next hsame =>
      cases hbrief'
      have hold := h.briefs botId brief hbrief
      rw [hsame]
      refine ⟨?_, ?_⟩
      · rw [hmark.2]
        exact hold.closed
      · rw [hmark.1, hmark.2]
        exact hold.covered
    · have hold := h.briefs botId' brief' hbrief'
      exact ⟨hold.closed, hold.covered⟩
  claims claim hclaim brief' hbrief' htime := by
    rw [put_briefs] at hbrief'
    split at hbrief'
    · next hsame =>
      cases hbrief'
      obtain hkept | hnone := hattempted
      · exact h.claims claim hclaim brief (hsame ▸ hbrief) (hkept ▸ htime)
      · rw [hnone] at htime
        cases htime
    · exact h.claims claim hclaim brief' hbrief' htime

end

end ArdurBot.Briefs
