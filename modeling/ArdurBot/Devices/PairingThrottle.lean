import ArdurBot.Devices.PairingOk

/-!
# Short codes that fail

The throttle of an instance counts the short codes that fail, and five lock it for as long as a
window lasts. A lock that was set within a window lasts until the window is over, and one that was
set before began with none of the window's failures counted; so without an exchange, which clears
the count, no window has more than five.
-/

namespace ArdurBot.Devices

open List Utf16 Option Function

def inWindow (start now : ℕ) : Bool := start ≤ now && now < start + lockMs

variable {runtime : Runtime} {s s' : State} {log : List Event} {both : Bool} {instanceId : Text}
  {start last last' n now : ℕ} {event : Event} {throttle : PairingThrottle}

/-- A short code that failed; those that were lost to a QR code are counted or not. -/
def Event.failedAt (both : Bool) (instanceId : Text) : Event → Option ℕ
  | .failed other now => if other = instanceId then some now else none
  | .lost other now => if both && other = instanceId then some now else none
  | _ => none

/-- An exchange, that of a short code or, where those are counted that were lost to it, of a QR
code. -/
def Event.exchangedAt (both : Bool) (instanceId : Text) : Event → Option ℕ
  | .exchanged other now => if other = instanceId then some now else none
  | .scanned other now => if both && other = instanceId then some now else none
  | _ => none

/-- The short codes that were evaluated in a window and failed. -/
def failures (both : Bool) (instanceId : Text) (start : ℕ) (log : List Event) : ℕ :=
  log.countP fun event => (event.failedAt both instanceId).any (inWindow start)

def HasExchange (both : Bool) (instanceId : Text) (start : ℕ) (log : List Event) : Prop :=
  ∃ event ∈ log, (event.exchangedAt both instanceId).any (inWindow start)

/-- The time of an attempt with a code of the instance. -/
def Op.attemptAt (both : Bool) (instanceId : Text) : Op → Option ℕ
  | .request other _ now => if other = instanceId then some now else none
  | .complete other _ _ _ now => if both && other = instanceId then some now else none
  | _ => none

/-- The attempts come at times that do not decrease. -/
def Timed (both : Bool) (instanceId : Text) : ℕ → List Op → Prop
  | _, [] => True
  | last, op :: ops =>
    last ≤ (op.attemptAt both instanceId).getD last ∧
      Timed both instanceId ((op.attemptAt both instanceId).getD last) ops

theorem inWindow_iff : inWindow start now ↔ start ≤ now ∧ now < start + lockMs := by
  simp [inWindow]

theorem failures_cons : failures both instanceId start (event :: log) =
    failures both instanceId start log + if (event.failedAt both instanceId).any (inWindow start) then 1 else 0 :=
  countP_cons

theorem failures_cons_none (h : event.failedAt both instanceId = none) :
    failures both instanceId start (event :: log) = failures both instanceId start log := by
  rw [failures_cons, h]
  rfl

theorem HasExchange.cons (h : HasExchange both instanceId start log) (event : Event) :
    HasExchange both instanceId start (event :: log) := by
  obtain ⟨other, hother, hexchanged⟩ := h
  exact ⟨other, mem_cons_of_mem _ hother, hexchanged⟩

/-- What the throttle's row knows of the failures of a window, after the last attempt. -/
inductive Covers (start last n : ℕ) (throttle : PairingThrottle) : Prop
  | past (h : start + lockMs ≤ last)
  | locked (lockedUntil : ℕ) (hlocked : throttle.lockedUntil = some lockedUntil)
    (h : start + lockMs ≤ lockedUntil)
  | counted (hlocked : throttle.lockedUntil = none) (h : n ≤ throttle.attempts)
    (hattempts : throttle.attempts < maxAttempts)
  | fresh (hlocked : throttle.lockedUntil.isSome) (h : n = 0)

structure Bounded (start last n : ℕ) (throttle : PairingThrottle) : Prop where
  le : n ≤ maxAttempts
  early : last < start → n = 0
  covers : Covers start last n throttle

theorem Bounded.mono (h : Bounded start last n throttle) (hle : last ≤ last') :
    Bounded start last' n throttle where
  le := h.le
  early hearly := h.early (lt_of_le_of_lt hle hearly)
  covers := by
    cases h.covers with
    | past hover => exact .past (hover.trans hle)
    | locked lockedUntil hlocked h => exact .locked lockedUntil hlocked h
    | counted hlocked h hattempts => exact .counted hlocked h hattempts
    | fresh hlocked h => exact .fresh hlocked h

theorem Bounded.lt_of_open (h : Bounded start last n throttle) (hle : last ≤ now)
    (hopen : isLocked throttle now = false) (hwindow : inWindow start now) : n < maxAttempts ∧
      n ≤ if throttle.lockedUntil.isSome then 0 else throttle.attempts := by
  rw [inWindow_iff] at hwindow
  cases h.covers with
  | past hover => omega
  | locked lockedUntil hlocked hlate =>
    rw [isLocked, hlocked, any_some, decide_eq_false_iff_not] at hopen
    omega
  | counted hlocked hn hattempts =>
    rw [hlocked]
    exact ⟨lt_of_le_of_lt hn hattempts, hn⟩
  | fresh hlocked hn =>
    rw [hn]
    exact ⟨by decide, Nat.zero_le _⟩

theorem Bounded.fail (h : Bounded start last n throttle) (hle : last ≤ now)
    (hopen : isLocked throttle now = false)
    {attempts : ℕ} (hattempts : attempts = (if throttle.lockedUntil.isSome then 0 else throttle.attempts) + 1) :
    Bounded start now (n + if inWindow start now then 1 else 0)
      ⟨attempts, if maxAttempts ≤ attempts then some (now + lockMs) else none⟩ := by
  by_cases hwindow : inWindow start now
  · obtain ⟨hlt, hcount⟩ := h.lt_of_open hle hopen hwindow
    rw [inWindow_iff] at hwindow
    simp only [inWindow_iff, hwindow, and_self, if_true]
    refine ⟨hlt, fun hearly => by omega, ?_⟩
    by_cases hfull : maxAttempts ≤ attempts
    · exact .locked (now + lockMs) (if_pos hfull) (by omega)
    · exact .counted (if_neg hfull) (by dsimp only; omega) (not_le.mp hfull)
  · rw [if_neg hwindow, Nat.add_zero]
    rw [inWindow_iff, not_and_or, not_le, not_lt] at hwindow
    refine ⟨h.le, fun hearly => h.early (by omega), ?_⟩
    obtain hearly | hlate := hwindow
    · have hnone : n = 0 := h.early (by omega)
      by_cases hfull : maxAttempts ≤ attempts
      · exact .fresh (by rw [if_pos hfull]; rfl) hnone
      · exact .counted (if_neg hfull) (by omega) (not_le.mp hfull)
    · exact .past hlate

theorem Bounded.cleared (h : Bounded start last n throttle) (hpast : now ≤ last)
    (hearly : now < start → n = 0)
    (hwindow : ¬ inWindow start now) : Bounded start last n ⟨0, none⟩ where
  __ := h
  covers := by
    rw [inWindow_iff, not_and_or, not_le, not_lt] at hwindow
    obtain hbefore | hafter := hwindow
    · exact .counted rfl (hearly hbefore).le (Nat.zero_lt_succ 4)
    · exact .past (hafter.trans hpast)

/-- The challenge of an exchange is still open. -/
def IsHeld (s : State) (exchange : Exchange) : Prop :=
  ∃ challenge ∈ s.challenges, challenge.hash = exchange.challenge.hash ∧ challenge.isOpen exchange.now

/-- The challenge of an exchange was claimed by its QR code. -/
def IsTaken (s : State) (instanceId : Text) (last : ℕ) (exchange : Exchange) : Prop :=
  ∃ now, .scanned instanceId now ∈ s.log ∧ exchange.now ≤ now ∧ now ≤ last

structure ExchangeTimed (both : Bool) (instanceId : Text) (start last : ℕ) (s : State)
  (exchange : Exchange) : Prop where
  past : exchange.now ≤ last
  early : exchange.now < start → failures both instanceId start s.log = 0
  within : inWindow start exchange.now → failures both instanceId start s.log < maxAttempts
  held : both → IsHeld s exchange ∨ IsTaken s instanceId last exchange

def Throttled (both : Bool) (instanceId : Text) (start last : ℕ) (s : State) : Prop :=
  HasExchange both instanceId start s.log ∨
    Bounded start last (failures both instanceId start s.log) (s.throttle instanceId) ∧
      ∀ exchange, s.exchanging instanceId = some exchange → ExchangeTimed both instanceId start last s exchange

theorem Throttled.of_same (h : Throttled both instanceId start last s) (hle : last ≤ last')
    (hthrottle : s'.throttle instanceId = s.throttle instanceId)
    (hexchanging : s'.exchanging instanceId = s.exchanging instanceId)
    (hmono : HasExchange both instanceId start s.log → HasExchange both instanceId start s'.log)
    (hfailures : failures both instanceId start s'.log = failures both instanceId start s.log)
    (htaken : ∀ exchange, IsTaken s instanceId last exchange → IsTaken s' instanceId last' exchange)
    (hheld : both → ∀ exchange, s.exchanging instanceId = some exchange → exchange.now ≤ last → IsHeld s exchange →
      IsHeld s' exchange ∨ IsTaken s' instanceId last' exchange) : Throttled both instanceId start last' s' := by
  obtain hexchange | ⟨hbounded, hexchanges⟩ := h
  · exact .inl (hmono hexchange)
  · refine .inr ⟨?_, fun exchange hexchange => ?_⟩
    · rw [hfailures, hthrottle]
      exact hbounded.mono hle
    · rw [hexchanging] at hexchange
      obtain ⟨hpast, hearly, hwithin, hopen⟩ := hexchanges exchange hexchange
      refine ⟨hpast.trans hle, ?_, ?_, fun hboth => ?_⟩
      · rwa [hfailures]
      · rwa [hfailures]
      · obtain hopen | htaken' := hopen hboth
        · exact hheld hboth exchange hexchange hpast hopen
        · exact .inr (htaken exchange htaken')

variable {exchange : Exchange}

theorem IsTaken.mono (h : IsTaken s instanceId last exchange) (hle : last ≤ last')
    (hlog : ∀ event ∈ s.log, event ∈ s'.log) :
    IsTaken s' instanceId last' exchange := by
  obtain ⟨now, hmem, hafter, hbefore⟩ := h
  exact ⟨now, hlog _ hmem, hafter, hbefore.trans hle⟩

theorem IsHeld.claim (h : IsHeld s exchange) {hash : Text} (hother : exchange.challenge.hash ≠ hash)
    (now : ℕ) :
    IsHeld (s.claim hash now) exchange := by
  obtain ⟨challenge, hmem, hsame, hopen⟩ := h
  have hne : challenge.hash ≠ hash := hsame ▸ hother
  exact ⟨challenge, mem_claim.mpr ⟨challenge, hmem, (if_neg hne).symm⟩, hsame, hopen⟩

/-- A good code that is lost may be the window's fifth failure, and then the QR code was exchanged
in the window or after it. -/
theorem lost_bounded (h : Bounded start last (failures both instanceId start s.log) throttle)
    (hwithin : inWindow start exchange.now → failures both instanceId start s.log < maxAttempts)
    (hpast : exchange.now ≤ last) (htaken : both → IsTaken s instanceId last exchange) :
    HasExchange both instanceId start (.lost instanceId exchange.now :: s.log) ∨
      Bounded start last (failures both instanceId start (.lost instanceId exchange.now :: s.log)) throttle := by
  by_cases hcounted : both ∧ inWindow start exchange.now
  · obtain ⟨hboth, hwindow⟩ := hcounted
    subst hboth
    obtain ⟨now, hmem, hafter, hbefore⟩ := htaken rfl
    have hinside := inWindow_iff.mp hwindow
    by_cases hlate : start + lockMs ≤ now
    · have hcount : failures true instanceId start (.lost instanceId exchange.now :: s.log) =
          failures true instanceId start s.log + 1 := by
        rw [failures_cons, if_pos (by simpa [Event.failedAt] using hwindow)]
      refine .inr ⟨?_, fun hearly => ?_, .past (hlate.trans hbefore)⟩
      · rw [hcount]
        exact hwithin hwindow
      · omega
    · refine .inl ⟨_, mem_cons_of_mem _ hmem, ?_⟩
      have hnow : inWindow start now := inWindow_iff.mpr ⟨by omega, by omega⟩
      simpa [Event.exchangedAt] using hnow
  · have hcount : failures both instanceId start (.lost instanceId exchange.now :: s.log) =
        failures both instanceId start s.log := by
      rw [failures_cons, if_neg, Nat.add_zero]
      cases both with
      | false => exact Bool.false_ne_true
      | true => simpa [Event.failedAt] using hcounted
    rw [hcount]
    exact .inr h

section

variable (h : Throttled both instanceId start last s)
include h

theorem throttled_start (owner : Owner) (challenge shortCode : Text) (now : ℕ) :
    Throttled both instanceId start last (s.start runtime owner challenge shortCode now) := by
  unfold State.start
  dsimp only
  split
  · exact h
  · refine h.of_same le_rfl rfl rfl (fun hexchange => hexchange.cons _) (failures_cons_none rfl) ?_ ?_
    · exact fun exchange htaken => htaken.mono le_rfl fun event hevent => mem_cons_of_mem _ hevent
    · rintro - exchange - - ⟨row, hrow, hopen⟩
      exact .inl ⟨row, mem_cons_of_mem _ hrow, hopen⟩

theorem throttled_confirm (userId spaceId id : Text) (allow : Bool) (grantId : Text) (now : ℕ) :
    Throttled both instanceId start last (s.confirm userId spaceId id allow grantId now) := by
  unfold State.confirm
  split
  · exact h
  · split <;>
    · refine h.of_same le_rfl rfl rfl (fun hexchange => hexchange.cons _) (failures_cons_none rfl) ?_ ?_
      · exact fun exchange htaken => htaken.mono le_rfl fun event hevent => mem_cons_of_mem _ hevent
      · exact fun _ exchange _ _ hopen => .inl hopen

theorem throttled_complete (hcore : Core s) (other : Text) (input : PairDeviceInput)
    (requireTrusted : Option Bool) (grantId : Text) (now : ℕ)
    (hle : last ≤ ((Op.complete other input requireTrusted grantId now).attemptAt both instanceId).getD last) :
    Throttled both instanceId start
      (((Op.complete other input requireTrusted grantId now).attemptAt both instanceId).getD last)
      (s.complete runtime other input requireTrusted grantId now) := by
  have hsame : Throttled both instanceId start
      (((Op.complete other input requireTrusted grantId now).attemptAt both instanceId).getD last) s :=
    h.of_same hle rfl rfl id rfl (fun exchange htaken => htaken.mono hle fun _ => id)
      fun _ exchange _ _ hopen => .inl hopen
  unfold State.complete
  split
  · split
    · exact hsame
    · next challenge hfound =>
      have hmem := mem_of_find?_eq_some hfound
      have hkeys := find?_some hfound
      simp only [Bool.and_eq_true, decide_eq_true_eq] at hkeys
      split
      · exact hsame
      · next trusted =>
        refine h.of_same hle rfl rfl (fun hexchange => (hexchange.cons _).cons _) ?_ ?_ ?_
        · exact (failures_cons_none rfl).trans (failures_cons_none rfl)
        · exact fun exchange htaken => htaken.mono hle fun event hevent =>
            mem_cons_of_mem _ (mem_cons_of_mem _ hevent)
        · intro hboth exchange hexchange hpast hopen
          by_cases hclaimed : exchange.challenge.hash = challenge.hash
          · obtain ⟨row, hrow, hhash, hinstance, -⟩ := hcore.exchanging instanceId exchange hexchange
            have hrow : row = challenge := hcore.eq_of_hash hrow hmem (hhash.trans hclaimed)
            have hother : other = instanceId := by rw [← hkeys.1.2, ← hinstance, hrow]
            subst hother
            have htime : (Op.complete other input (some trusted) grantId now).attemptAt both other = some now := by
              simp [Op.attemptAt, hboth]
            rw [htime] at hle ⊢
            exact .inr ⟨now, mem_cons_of_mem _ mem_cons_self, hpast.trans hle, le_rfl⟩
          · exact .inl (hopen.claim hclaimed now)
  · exact hsame

theorem throttled_request_other {other : Text} (hother : instanceId ≠ other)
    (input : PairDeviceInput) (now : ℕ) :
    Throttled both instanceId start last (s.request runtime other input now) := by
  have hfail : Throttled both instanceId start last (s.fail other now) := by
    have hnone : (Event.failed other now).failedAt both instanceId = none := if_neg hother.symm
    refine h.of_same le_rfl (update_of_ne hother _ _) rfl (fun hexchange => hexchange.cons _)
      (failures_cons_none hnone) ?_ fun _ exchange _ _ hopen => .inl hopen
    exact fun exchange htaken => htaken.mono le_rfl fun event hevent => mem_cons_of_mem _ hevent
  unfold State.request
  split
  · exact h
  · split
    · exact hfail
    · split
      · exact h.of_same le_rfl rfl (update_of_ne hother _ _) id rfl (fun _ htaken => htaken)
          fun _ exchange _ _ hopen => .inl hopen
      · exact hfail

theorem throttled_request_own (input : PairDeviceInput) (hle : last ≤ now) :
    Throttled both instanceId start now (s.request runtime instanceId input now) := by
  have hsame : Throttled both instanceId start now s :=
    h.of_same hle rfl rfl id rfl (fun exchange htaken => htaken.mono hle fun _ => id)
      fun _ exchange _ _ hopen => .inl hopen
  unfold State.request
  split
  · exact hsame
  · next hunlocked =>
    rw [Bool.or_eq_true, not_or, Bool.not_eq_true, Bool.not_eq_true, isSome_eq_false_iff, isNone_iff_eq_none]
      at hunlocked
    obtain ⟨hnone, hunlocked⟩ := hunlocked
    have hfail : Throttled both instanceId start now (s.fail instanceId now) := by
      obtain hexchange | ⟨hbounded, -⟩ := h
      · exact .inl (hexchange.cons _)
      · refine .inr ⟨?_, fun exchange hexchange => absurd (hnone.symm.trans hexchange) (some_ne_none _).symm⟩
        have htime : (Event.failed instanceId now).failedAt both instanceId = some now := if_pos rfl
        unfold State.fail
        dsimp only
        rw [failures_cons, htime, update_self, any_some]
        exact hbounded.fail hle hunlocked rfl
    split
    · exact hfail
    · next challenge hfound =>
      split
      · obtain hexchange | ⟨hbounded, -⟩ := h
        · exact .inl hexchange
        · refine .inr ⟨hbounded.mono hle, fun exchange hexchange => ?_⟩
          dsimp only at hexchange
          rw [update_self] at hexchange
          cases hexchange
          have hkeys := find?_some hfound
          simp only [Bool.and_eq_true, decide_eq_true_eq] at hkeys
          refine ⟨le_rfl, fun hearly => hbounded.early (lt_of_le_of_lt hle hearly),
            fun hwindow => ?_, fun _ => .inl ?_⟩
          · exact (hbounded.lt_of_open hle hunlocked hwindow).1
          · exact ⟨challenge, mem_of_find?_eq_some hfound, rfl, hkeys.2⟩
      · exact hfail

theorem throttled_request (other : Text) (input : PairDeviceInput) (now : ℕ)
    (hle : last ≤ ((Op.request other input now).attemptAt both instanceId).getD last) :
    Throttled both instanceId start (((Op.request other input now).attemptAt both instanceId).getD last)
      (s.request runtime other input now) := by
  by_cases hsame : other = instanceId
  · subst hsame
    have htime : (Op.request other input now).attemptAt both other = some now := if_pos rfl
    rw [htime] at hle ⊢
    exact throttled_request_own h input hle
  · have htime : (Op.request other input now).attemptAt both instanceId = none := if_neg hsame
    rw [htime]
    exact throttled_request_other h (fun heq => hsame heq.symm) input now

theorem throttled_settle_other (hcore : Core s) {other : Text} (hother : instanceId ≠ other)
    (pendingId : Text) :
    Throttled both instanceId start last (s.settle other pendingId) := by
  unfold State.settle
  split
  · exact h
  · next theirs htheirs =>
    split
    · have hnone : (Event.exchanged other theirs.now).failedAt both instanceId = none := rfl
      refine h.of_same le_rfl (update_of_ne hother _ _) (update_of_ne hother _ _)
        (fun hexchange => hexchange.cons _) (failures_cons_none hnone) ?_ fun _ exchange hexchange _ hopen => .inl ?_
      · exact fun exchange htaken => htaken.mono le_rfl fun event hevent => mem_cons_of_mem _ hevent
      · refine hopen.claim (fun hclaimed => hother ?_) theirs.now
        obtain ⟨row, hrow, hhash, hinstance, -⟩ := hcore.exchanging instanceId exchange hexchange
        obtain ⟨row', hrow', hhash', hinstance', -⟩ := hcore.exchanging other theirs htheirs
        rw [← hinstance, ← hinstance', hcore.eq_of_hash hrow hrow' (by rw [hhash, hhash', hclaimed])]
    · have hnone : (Event.lost other theirs.now).failedAt both instanceId = none := by
        simp [Event.failedAt, hother.symm]
      refine h.of_same le_rfl rfl (update_of_ne hother _ _) (fun hexchange => hexchange.cons _)
        (failures_cons_none hnone) ?_ fun _ exchange _ _ hopen => .inl hopen
      exact fun exchange htaken => htaken.mono le_rfl fun event hevent => mem_cons_of_mem _ hevent

theorem throttled_settle_own (pendingId : Text) :
    Throttled both instanceId start last (s.settle instanceId pendingId) := by
  unfold State.settle
  split
  · exact h
  · next exchange hexchange =>
    obtain hexchanged | ⟨hbounded, hexchanges⟩ := h
    · dsimp only
      split <;> exact .inl (hexchanged.cons _)
    · obtain ⟨hpast, hearly, hwithin, hheld⟩ := hexchanges exchange hexchange
      have hreleased : ∀ other, Function.update s.exchanging instanceId none instanceId ≠ some other := by
        intro other
        rw [update_self]
        exact (some_ne_none other).symm
      split
      · by_cases hwindow : inWindow start exchange.now
        · refine .inl ⟨_, mem_cons_self, ?_⟩
          simpa [Event.exchangedAt] using hwindow
        · refine .inr ⟨?_, fun other hother => absurd hother (hreleased other)⟩
          rw [failures_cons_none rfl]
          dsimp only
          rw [update_self]
          exact hbounded.cleared hpast hearly hwindow
      · next hclosed =>
        have htaken : both → IsTaken s instanceId last exchange := by
          intro hboth
          refine (hheld hboth).resolve_left ?_
          rintro ⟨challenge, hmem, hsame, hopen⟩
          exact hclosed (any_eq_true.mpr ⟨challenge, hmem, by rw [decide_eq_true hsame, hopen]; rfl⟩)
        obtain hexchanged | hlost := lost_bounded hbounded hwithin hpast htaken
        · exact .inl hexchanged
        · exact .inr ⟨hlost, fun other hother => absurd hother (hreleased other)⟩

end

theorem throttled_settle (h : Throttled both instanceId start last s) (hcore : Core s)
    (other pendingId : Text) :
    Throttled both instanceId start last (s.settle other pendingId) := by
  by_cases hsame : instanceId = other
  · subst hsame
    exact throttled_settle_own h pendingId
  · exact throttled_settle_other h hcore hsame pendingId

theorem throttled_step (h : Throttled both instanceId start last s) (hcore : Core s) (op : Op)
    (hle : last ≤ (op.attemptAt both instanceId).getD last) :
    Throttled both instanceId start ((op.attemptAt both instanceId).getD last) (step runtime s op) := by
  unfold step
  split
  · cases op with
    | start owner challenge shortCode now => exact throttled_start h owner challenge shortCode now
    | complete other input requireTrusted grantId now =>
      exact throttled_complete h hcore other input requireTrusted grantId now hle
    | request other input now => exact throttled_request h other input now hle
    | settle other pendingId => exact throttled_settle h hcore other pendingId
    | confirm userId spaceId id allow grantId now => exact throttled_confirm h userId spaceId id allow grantId now
  · exact h.of_same hle rfl rfl id rfl (fun exchange htaken => htaken.mono hle fun _ => id) fun _
      exchange _ _ hopen => .inl hopen

theorem throttled_after {ops : List Op} (h : Throttled both instanceId start last s)
    (hcore : Core s) (htimed : Timed both instanceId last ops) :
    ∃ last', Throttled both instanceId start last' (Run.after (step runtime) s ops) := by
  induction ops generalizing s last with
  | nil => exact ⟨last, h⟩
  | cons op ops ih => exact ih (throttled_step h hcore op htimed.1) (core_step hcore op) htimed.2

/-- A challenge is answered once, before it expires, and no more than five codes fail in a window
without an exchange. Those that were lost to a QR code are failures as well, if its exchange is
one. -/
theorem pairing_ok (runtime : Runtime) (ops : List Op) : History.Ok EventOk (after runtime ops).log ∧
      (after runtime ops).grants.map DeviceGrant.id = (after runtime ops).log.filterMap Event.newGrant ∧
      ∀ both instanceId, Timed both instanceId 0 ops → ∀ start, ¬ HasExchange both instanceId start (after runtime ops).log →
        failures both instanceId start (after runtime ops).log ≤ maxAttempts := by
  have hcore := core_after runtime ops
  refine ⟨hcore.history, hcore.grants, fun both instanceId htimed start hnone => ?_⟩
  have hinit : Throttled both instanceId start 0 State.init :=
    .inr ⟨⟨Nat.zero_le _, fun _ => rfl, .counted rfl le_rfl (Nat.zero_lt_succ 4)⟩, nofun⟩
  have hrun : ∃ last, Throttled both instanceId start last (after runtime ops) :=
    throttled_after hinit core_init htimed
  obtain ⟨last, hexchange | ⟨hbounded, -⟩⟩ := hrun
  · exact absurd hexchange hnone
  · exact hbounded.le

section

def anyRuntime : Runtime := ⟨id, id, fun _ _ _ _ => [], fun _ _ _ => true⟩

def codeAt (code : Text) (now : ℕ) : Op := .request [1] ⟨none, code, [1], [2], [3], [4], []⟩ now

def sixCodes : List Op :=
  [.start ⟨[5], [6], [1], []⟩ [7] [8] 0, codeAt [9] 1, codeAt [8] 3, .settle [1] [10],
    .confirm [5] [6] [10] true [11] 4] ++
    [4, 5, 6, 7, 8, 9].map (codeAt [9])

theorem pairing_ok_six : (after anyRuntime sixCodes).grants.map DeviceGrant.id = [[11]] ∧
    failures true [1] 4 (after anyRuntime sixCodes).log = 5 ∧
    failures true [1] 4 (after anyRuntime sixCodes).log ≤ maxAttempts := by
  refine ⟨by decide, by decide, (pairing_ok anyRuntime sixCodes).2.2 true [1] ?_ 4 ?_⟩
  · simp [sixCodes, codeAt, Timed, Op.attemptAt]
  · unfold HasExchange
    decide

end

end ArdurBot.Devices
