import ArdurBot.Computers.Control

/-!
# What each call keeps

Every entry of the history is in order: an expiry acts on a lease only after it found the lease run
out, an id leaves the row only after its lease was revoked or there was nothing to revoke, and a
call touches no lease but its own.
-/

namespace ArdurBot.ComputerControl

open List Utf16

/-- The provider revoked the lease, or had nothing to revoke. -/
def Revoked (leaseId : Text) (history : List Event) : Prop :=
  (∃ call cause deadline time, .acted call leaseId cause .revoked deadline time ∈ history) ∨
    ∃ call, .spared call leaseId ∈ history

structure ActedOk (earlier : List Event) (call : ℕ) (leaseId : Text) (cause : Cause) (deed : Deed)
  (deadline : Option ℕ)
    (time : ℕ) : Prop where
  known : cause ≠ .other
  called : cause ≠ .swept → .called call leaseId ∈ earlier
  looked : cause = .expired → ∃ read ≤ time, .looked call leaseId read ∈ earlier
  revoked : deed = .cleared → cause ≠ .swept → Revoked leaseId earlier
  swept : cause = .swept → ∀ expiresAt ∈ deadline, expiresAt ≤ time

def EventOk (earlier : List Event) : Event → Prop
  | .called call leaseId => ∀ other, .called call other ∈ earlier → other = leaseId
  | .extended _ _ _ => True
  | .looked _ leaseId time => ∀ expiresAt, lastExtension leaseId earlier = some expiresAt → expiresAt ≤ time
  | .acted call leaseId cause deed deadline time => ActedOk earlier call leaseId cause deed deadline time
  | .spared call leaseId => .called call leaseId ∈ earlier

variable {history : List Event} {call : Call} {leaseId : Text} {s' : System} {event : Event}
  {x : Expiry} {d : Deed} {deadline : Option ℕ} {before : Computer}

theorem called_unique (h : History.Ok EventOk history) {call : ℕ} {a b : Text}
    (ha : .called call a ∈ history) (hb : .called call b ∈ history) : a = b := by
  induction history with
  | nil => cases ha
  | cons event earlier ih =>
    obtain ⟨hevent, hearlier⟩ := h
    obtain heqa | ha := mem_cons.mp ha
    · obtain heqb | hb := mem_cons.mp hb
      · rw [← heqa] at heqb
        exact ((Event.called.inj heqb).2).symm
      · rw [← heqa] at hevent
        exact (hevent b hb).symm
    · obtain heqb | hb := mem_cons.mp hb
      · rw [← heqb] at hevent
        exact hevent a ha
      · exact ih hearlier ha hb

theorem mem_of_lastExtension {expiresAt : ℕ} (h : lastExtension leaseId history = some expiresAt) :
    ∃ call, .extended call leaseId expiresAt ∈ history := by
  induction history with
  | nil => cases h
  | cons event earlier ih =>
    have hearlier : lastExtension leaseId earlier = some expiresAt →
        ∃ call, .extended call leaseId expiresAt ∈ event :: earlier := by
      intro hlast
      obtain ⟨call, hmem⟩ := ih hlast
      exact ⟨call, mem_cons_of_mem _ hmem⟩
    cases event with
    | extended call other at' =>
      rw [lastExtension] at h
      split at h
      next heq =>
        cases h
        exact ⟨call, heq ▸ mem_cons_self⟩
      next => exact hearlier h
    | _ => exact hearlier h

structure SystemOk (s : System) : Prop where
  history : History.Ok EventOk s.history
  deadline : ∀ leaseId, s.lease = some leaseId →
    ∀ expiresAt, lastExtension leaseId s.history = some expiresAt →
    s.computer.bind (·.controlLeaseExpiresAt) = some expiresAt
  issued : ∀ leaseId, s.lease = some leaseId → leaseId ∈ s.issued
  extended : ∀ call leaseId expiresAt, .extended call leaseId expiresAt ∈ s.history → leaseId ∈ s.issued

/-- An expiry that goes on was called for its lease, and found it run out. -/
structure Going (s : System) (index : ℕ) (x : Expiry) : Prop where
  called : .called index x.leaseId ∈ s.history
  looked : x.ended = none → ∃ read ≤ s.now, .looked index x.leaseId read ∈ s.history

def CallOk (s : System) (index : ℕ) : Call → Prop
  | .expire leaseId _ => ∀ other, .called index other ∈ s.history → other = leaseId
  | .expireRead leaseId _ now => .called index leaseId ∈ s.history ∧ now ≤ s.now
  | .orphanRevoke x => Going s index x
  | .orphanClear x => Going s index x ∧ Revoked x.leaseId s.history
  | .claim x _ => Going s index x
  | .revoke x _ => Going s index x
  | .finalize x _ => Going s index x ∧ Revoked x.leaseId s.history
  | .releaseRead _ _ => ∀ other, .called index other ∉ s.history
  | .release _ _ computer => ∀ leaseId, computer.controlLeaseId = some leaseId →
    .called index leaseId ∈ s.history
  | .sweep now => now ≤ s.now
  | .releaseDeny x _ => .called index x.leaseId ∈ s.history
  | .releaseRevoke x => .called index x.leaseId ∈ s.history
  | .releaseFinalize x => .called index x.leaseId ∈ s.history ∧ Revoked x.leaseId s.history
  | _ => True

/-- No more of a call than its lease is on record. -/
def Idle (s : System) (index : ℕ) : Prop := ∀ other, .called index other ∉ s.history

theorem Revoked.mono {later : List Event} (h : Revoked leaseId history)
    (hsub : ∀ event ∈ history, event ∈ later) :
    Revoked leaseId later := by
  obtain ⟨call, cause, deadline, time, hmem⟩ | ⟨call, hmem⟩ := h
  · exact .inl ⟨call, cause, deadline, time, hsub _ hmem⟩
  · exact .inr ⟨call, hsub _ hmem⟩

/-- The state of a call is kept while time passes and the history grows, if it is not called
again. -/
theorem CallOk.mono {s : System} {index : ℕ} (h : CallOk s index call) (hnow : s.now ≤ s'.now)
    (hsub : ∀ event ∈ s.history, event ∈ s'.history)
    (hcalled : ∀ other, .called index other ∈ s'.history → .called index other ∈ s.history) :
    CallOk s' index call := by
  have hgoing : ∀ {x : Expiry}, Going s index x → Going s' index x := by
    intro x hx
    refine ⟨hsub _ hx.called, fun hended => ?_⟩
    obtain ⟨read, hread, hmem⟩ := hx.looked hended
    exact ⟨read, hread.trans hnow, hsub _ hmem⟩
  cases call with
  | expire | releaseRead => exact fun other hother => h other (hcalled other hother)
  | expireRead leaseId ended now => exact ⟨hsub _ h.1, h.2.trans hnow⟩
  | orphanRevoke | claim | revoke => exact hgoing h
  | orphanClear | finalize => exact ⟨hgoing h.1, h.2.mono hsub⟩
  | release botId skipped computer => exact fun leaseId hlease => hsub _ (h leaseId hlease)
  | sweep now => exact Nat.le_trans h hnow
  | releaseDeny | releaseRevoke => exact hsub _ h
  | releaseFinalize x => exact ⟨hsub _ h.1, h.2.mono hsub⟩
  | _ => exact trivial

/-- An act of a call, before it is noted what became of the lease. -/
structure Acted (s : System) (index : ℕ) (cause : Cause) (result : System × Call) : Prop where
  system : SystemOk result.1
  grew : History.GrewBy Event.call index s.history result.1.history
  now : result.1.now = s.now
  deed : ∀ leaseId d, s.lease = some leaseId → deed s result.1 = some d →
    EventOk result.1.history (.acted index leaseId cause d (s.deadline leaseId) s.now)
  call : CallOk result.1 index result.2

variable {s : System} {index : ℕ} {cause : Cause}

theorem deed_same (h : s'.computer = s.computer) : deed s s' = none := by
  unfold deed
  rw [System.lease, System.lease, h, if_neg (by simp), if_neg (by simp)]

section

variable (h : SystemOk s)
include h

theorem acted_quiet (s' : System) (hnow : s'.now = s.now) (hcomputer : s'.computer = s.computer)
    (hissued : s'.issued = s.issued) (hhistory : s'.history = s.history) (hcall : CallOk s index call) :
    Acted s index cause (s', call) := by
  have hlease : s'.lease = s.lease := congrArg (Option.bind · _) hcomputer
  refine ⟨⟨?_, ?_, ?_, ?_⟩, ?_, hnow, ?_, ?_⟩
  · rw [hhistory]
    exact h.history
  · rw [hlease, hhistory, hcomputer]
    exact h.deadline
  · rw [hlease, hissued]
    exact h.issued
  · rw [hhistory, hissued]
    exact h.extended
  · rw [hhistory]
    exact .refl _ _ _
  · intro leaseId d _ hdeed
    rw [deed_same hcomputer] at hdeed
    cases hdeed
  · refine hcall.mono (by rw [hnow]) ?_ ?_
    · rw [hhistory]
      exact fun _ hmem => hmem
    · rw [hhistory]
      exact fun _ hmem => hmem

theorem acted_stay (hcall : CallOk s index call) : Acted s index cause (s, call) :=
  acted_quiet h s rfl rfl rfl rfl hcall

theorem acted_awaited {done : System × Call} (hdone : Acted s index cause done) (answer : Answer) :
    Acted s index cause (awaited s answer done) := by
  cases answer with
  | fails => exact acted_stay h trivial
  | lost => exact { hdone with call := trivial }
  | _ => exact hdone

theorem systemOk_record (hevent : EventOk s.history event)
    (hlast : ∀ leaseId, lastExtension leaseId (event :: s.history) = lastExtension leaseId s.history)
    (hextended : ∀ call leaseId expiresAt, event ≠ .extended call leaseId expiresAt) :
    SystemOk (s.record event) := by
  refine ⟨⟨hevent, h.history⟩, fun leaseId hlease expiresAt hat => ?_, h.issued,
    fun call leaseId expiresAt hmem => ?_⟩
  · exact h.deadline leaseId hlease expiresAt ((hlast leaseId).symm.trans hat)
  · obtain heq | hmem := mem_cons.mp hmem
    · exact absurd heq.symm (hextended call leaseId expiresAt)
    · exact h.extended call leaseId expiresAt hmem

theorem acted_record (event : Event) (hevent : EventOk s.history event)
    (hlast : ∀ leaseId, lastExtension leaseId (event :: s.history) = lastExtension leaseId s.history)
    (hextended : ∀ call leaseId expiresAt, event ≠ .extended call leaseId expiresAt)
    (hcall : event.call = index)
    (hok : CallOk (s.record event) index call) : Acted s index cause (s.record event, call) := by
  refine ⟨systemOk_record h hevent hlast hextended, (History.GrewBy.refl _ _ _).cons hcall, rfl, ?_, hok⟩
  intro leaseId d _ hdeed
  have hsame : deed s (s.record event) = none := deed_same rfl
  rw [hsame] at hdeed
  cases hdeed

theorem acted_called (hown : ∀ other, .called index other ∈ s.history → other = leaseId)
    (hok : CallOk (s.record (.called index leaseId)) index call) :
    Acted s index cause (s.record (.called index leaseId), call) :=
  acted_record h (.called index leaseId) hown (fun _ => rfl) (fun _ _ _ heq => by cases heq) rfl hok

end

theorem mem_record : ∀ other ∈ s.history, other ∈ (s.record event).history :=
  fun _ hmem => mem_cons_of_mem _ hmem

theorem Going.record (h : Going s index x) (event : Event) : Going (s.record event) index x := by
  refine ⟨mem_record _ h.called, fun hended => ?_⟩
  obtain ⟨read, hread, hmem⟩ := h.looked hended
  exact ⟨read, hread, mem_record _ hmem⟩

theorem acted_spared (h : SystemOk s) (hcalled : .called index leaseId ∈ s.history)
    (hok : Revoked leaseId (s.record (.spared index leaseId)).history →
      CallOk (s.record (.spared index leaseId)) index call) :
    Acted s index cause (s.record (.spared index leaseId), call) :=
  acted_record h (.spared index leaseId) hcalled (fun _ => rfl) (fun _ _ _ heq => by cases heq) rfl
    (hok (.inr ⟨index, mem_cons_self⟩))

theorem expiry_cause (x : Expiry) :
    x.cause ≠ .other ∧ x.cause ≠ .swept ∧ (x.cause = .expired → x.ended = none) := by
  unfold Expiry.cause
  cases h : x.ended with
  | none | some => simp

theorem Going.acted (h : Going s index x) (hrevoked : d = .cleared → Revoked x.leaseId s.history) :
    ActedOk s.history index x.leaseId x.cause d deadline s.now := by
  obtain ⟨hother, hswept, hexpired⟩ := expiry_cause x
  exact ⟨hother, fun _ => h.called, fun hcause => h.looked (hexpired hcause), fun hd _ => hrevoked hd,
    fun hcause => absurd hcause hswept⟩

theorem released_acted (hcalled : .called index leaseId ∈ s.history)
    (hrevoked : d = .cleared → Revoked leaseId s.history) :
    ActedOk s.history index leaseId .released d deadline s.now :=
  ⟨by decide, fun _ => hcalled, fun hcause => absurd hcause (by decide), fun hd _ => hrevoked hd,
    fun hcause => absurd hcause (by decide)⟩

theorem acted_revoke (h : SystemOk s) (hcalled : .called index leaseId ∈ s.history)
    (hacted : ∀ deadline, ActedOk s.history index leaseId cause .revoked deadline s.now)
    {refused next : Call} (hrefused : CallOk s index refused)
    (hnext : ∀ event, Revoked leaseId (s.record event).history → CallOk (s.record event) index next)
    (answer : Answer) :
    Acted s index cause (revokeScreenControl s index leaseId cause refused next answer) := by
  cases answer with
  | ok =>
    refine acted_record h (.acted index leaseId cause .revoked _ _) (hacted _) (fun _ => rfl)
      (fun _ _ _ heq => by cases heq) rfl (hnext _ ?_)
    exact .inl ⟨index, cause, _, _, mem_cons_self⟩
  | missing | absent => exact acted_spared h hcalled (hnext _)
  | fails | lost => exact acted_stay h hrefused

theorem updateManyAt_cases (s : System) (stamp : ℕ) (matching : Computer → Bool)
    (data : Computer → Computer) :
    s.updateManyAt stamp matching data = (s, false) ∨
      ∃ computer, s.computer = some computer ∧ matching computer ∧ s.updateManyAt stamp matching data =
        ({ s with computer := some { data computer with updatedAt := stamp } }, true) := by
  unfold System.updateManyAt
  rcases hcomputer : s.computer with _ | computer
  · exact .inl rfl
  cases hmatching : matching computer with
  | false =>
    left
    dsimp only
    rw [hmatching]
    rfl
  | true =>
    right
    refine ⟨computer, rfl, hmatching, ?_⟩
    dsimp only
    rw [hmatching]
    rfl

/-- A row that keeps its lease with its deadline, or has none. -/
structure Milder (before after : Computer) : Prop where
  lease : after.controlLeaseId = before.controlLeaseId ∧
      after.controlLeaseExpiresAt = before.controlLeaseExpiresAt ∨ after.controlLeaseId = none

theorem systemOk_row (h : SystemOk s) {after : Computer} (hbefore : s.computer = some before)
    (hmilder : Milder before after) :
    SystemOk { s with computer := some after } := by
  have hlease : ∀ leaseId, after.controlLeaseId = some leaseId →
      s.lease = some leaseId ∧ after.controlLeaseExpiresAt = before.controlLeaseExpiresAt := by
    intro leaseId hafter
    obtain ⟨hsame, hexpires⟩ | hnone := hmilder.lease
    · refine ⟨?_, hexpires⟩
      rw [System.lease, hbefore, ← hafter, hsame]
      rfl
    · rw [hnone] at hafter
      cases hafter
  refine ⟨h.history, fun leaseId hafter expiresAt hlast => ?_, fun leaseId hafter => ?_, h.extended⟩
  · obtain ⟨hbeforeLease, hexpires⟩ := hlease leaseId hafter
    have hdeadline := h.deadline leaseId hbeforeLease expiresAt hlast
    rw [hbefore] at hdeadline
    exact hexpires.trans hdeadline
  · exact h.issued leaseId (hlease leaseId hafter).1

theorem lease_of_computer {computer : Computer} (h : s.computer = some computer) :
    s.lease = computer.controlLeaseId := by
  rw [System.lease, h]
  rfl

theorem acted_row (h : SystemOk s) (after : Computer) (hbefore : s.computer = some before)
    (hmilder : Milder before after) (runs : List Run) (jobs : List Job)
    (hcall : CallOk s index call) (hdeed : ∀ leaseId d, before.controlLeaseId = some leaseId →
      deed s { s with computer := some after, runs, jobs } = some d →
      ActedOk s.history index leaseId cause d (s.deadline leaseId) s.now) :
    Acted s index cause ({ s with computer := some after, runs, jobs }, call) := by
  have hrow := systemOk_row h hbefore hmilder
  refine ⟨{ hrow with }, .refl _ _ _, rfl, ?_, ?_⟩
  · intro leaseId d hlease hd
    rw [lease_of_computer hbefore] at hlease
    exact hdeed leaseId d hlease hd
  · exact hcall.mono (Nat.le_refl _) (fun _ hmem => hmem) fun _ hmem => hmem

section

variable (after : Computer) (hbefore : s.computer = some before) (hafter : s'.computer = some after)
  (hlease : after.controlLeaseId = before.controlLeaseId)
include hbefore hafter hlease

theorem deed_of_same_lease : deed s s' ≠ some .cleared := by
  have hsame : s'.lease = s.lease := by rw [lease_of_computer hafter, lease_of_computer hbefore, hlease]
  unfold deed
  rw [if_neg (by rw [hsame]; simp)]
  split <;> simp

theorem deed_of_same_control (hholder : after.controlHolder = before.controlHolder) : deed s s' = none := by
  have hsame : s'.lease = s.lease := by rw [lease_of_computer hafter, lease_of_computer hbefore, hlease]
  have huser : isUser s'.computer = isUser s.computer := by
    rw [hafter, hbefore, isUser, isUser, Option.any_some, Option.any_some, hholder]
  unfold deed
  rw [if_neg (by rw [hsame]; simp), huser, if_neg (by simp)]

end

end ArdurBot.ComputerControl
