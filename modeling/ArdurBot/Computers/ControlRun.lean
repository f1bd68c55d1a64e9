import ArdurBot.Computers.ControlOk

/-!
# Every interleaving of extensions, expiries, releases and boots
-/

namespace ArdurBot.ComputerControl

open List Utf16 Option

variable {s : System} {index : ℕ} {cause : Cause}

/-! ### The acts of a call -/

variable {leaseId : Text} {call : Call} {now : ℕ} {matching : Computer → Bool} {x : Expiry}

theorem ActedOk.mono {earlier later : List Event} {d : Deed} {deadline : Option ℕ} {time : ℕ}
    (h : ActedOk earlier index leaseId cause d deadline time) (hsub : ∀ event ∈ earlier, event ∈ later) :
    ActedOk later index leaseId cause d deadline time := by
  refine ⟨h.known, fun hcause => hsub _ (h.called hcause), fun hcause => ?_, fun hd hcause => ?_, h.swept⟩
  · obtain ⟨read, hread, hmem⟩ := h.looked hcause
    exact ⟨read, hread, hsub _ hmem⟩
  · exact (h.revoked hd hcause).mono hsub

theorem acted_then_spared {s₁ : System} {call' : Call} (h : Acted s index cause (s₁, call))
    (hcalled : .called index leaseId ∈ s₁.history)
    (hok : Revoked leaseId (s₁.record (.spared index leaseId)).history →
      CallOk (s₁.record (.spared index leaseId)) index call') :
    Acted s index cause (s₁.record (.spared index leaseId), call') := by
  have hspared : Acted s₁ index cause (s₁.record (.spared index leaseId), call') :=
    acted_spared h.system hcalled hok
  refine ⟨hspared.system, h.grew.trans hspared.grew, h.now, fun lease d hlease hdeed => ?_, hspared.call⟩
  exact (h.deed lease d hlease hdeed).mono mem_record

theorem acted_expireRead (h : SystemOk s) {ended : Option Ended}
    (hcalled : .called index leaseId ∈ s.history) (hnow : now ≤ s.now) :
    Acted s index cause (expireRead s index leaseId ended now) := by
  unfold expireRead
  split
  next => exact acted_stay h trivial
  next computer hcomputer =>
    split
    next => exact acted_stay h trivial
    next hlease =>
      rw [not_not] at hlease
      split
      next => exact acted_stay h trivial
      next =>
        split
        next => exact acted_stay h trivial
        next hpast =>
          have hgo : ∀ x : Expiry, x.leaseId = leaseId → x.ended = ended → ∀ call : Call,
              (∀ s₁, Going s₁ index x → CallOk s₁ index call) →
              Acted s index cause (if ended.isSome then s else s.record (.looked index leaseId now), call) := by
            intro x hxlease hxended call hok
            cases hended : ended with
            | some e =>
              refine acted_stay h (hok s ⟨hxlease ▸ hcalled, fun hnone => ?_⟩)
              rw [hxended, hended] at hnone
              cases hnone
            | none =>
              refine acted_record h (.looked index leaseId now) ?_ (fun _ => rfl)
                (fun _ _ _ heq => by cases heq) rfl ?_
              · intro expiresAt hlast
                have hdeadline := h.deadline leaseId ((lease_of_computer hcomputer).trans hlease) expiresAt hlast
                rw [hcomputer] at hdeadline
                have hexpires : computer.controlLeaseExpiresAt = some expiresAt := hdeadline
                rw [hended, hexpires] at hpast
                simpa using hpast
              · exact hok _ ⟨mem_record _ (hxlease ▸ hcalled), fun _ => ⟨now, hnow, hxlease ▸ mem_cons_self⟩⟩
          have hcalled' : .called index leaseId ∈
              (if ended.isSome then s else s.record (.looked index leaseId now)).history := by
            split
            · exact hcalled
            · exact mem_record _ hcalled
          dsimp only
          split
          next botId _ => exact hgo _ rfl rfl _ fun _ hgoing => hgoing
          next =>
            split
            next => exact hgo _ rfl rfl _ fun _ hgoing => hgoing
            next =>
              have hready :=
                hgo ⟨leaseId, ended, now, computer⟩ rfl rfl
                (.orphanRevoke ⟨leaseId, ended, now, computer⟩)
                fun _ hgoing => hgoing
              exact acted_then_spared hready hcalled' fun hrevoked => ⟨Going.record hready.call _, hrevoked⟩

theorem acted_clear (h : SystemOk s) (holder : Holder) (stamp : ℕ)
    (hlease : ∀ computer, matching computer → computer.controlLeaseId = some leaseId)
    (hacted : ∀ d deadline, ActedOk s.history index leaseId cause d deadline s.now)
    (runs : List Run) (call : Bool → Call) (hcall : ∀ matched, CallOk s index (call matched)) :
    Acted s index cause ({ (s.updateManyAt stamp matching (clearControl holder)).1 with runs },
      call (s.updateManyAt stamp matching (clearControl holder)).2) := by
  obtain hno | ⟨computer, hcomputer, hmatching, hyes⟩ :=
    updateManyAt_cases s stamp matching (clearControl holder)
  · rw [hno]
    exact acted_quiet h { s with runs } rfl rfl rfl rfl (hcall false)
  · rw [hyes]
    refine acted_row h { clearControl holder computer with updatedAt := stamp } hcomputer ⟨.inr rfl⟩ runs s.jobs
      (hcall true) fun lease d hbefore _ => ?_
    rw [hlease computer hmatching] at hbefore
    rw [← some.inj hbefore]
    exact hacted d _

variable (cause) in
theorem acted_deny (h : SystemOk s) (matching : Computer → Bool)
    (hlease : ∀ computer, matching computer → computer.controlLeaseId = some leaseId)
    (hacted : ∀ d deadline, d ≠ .cleared → ActedOk s.history index leaseId cause d deadline s.now)
    (call : Call) (hcall : CallOk s index call) :
    Acted s index cause ((s.updateMany matching denyUser).1, call) := by
  obtain hno | ⟨computer, hcomputer, hmatching, hyes⟩ := updateManyAt_cases s s.now matching denyUser
  · rw [System.updateMany, hno]
    exact acted_stay h hcall
  · rw [System.updateMany, hyes]
    refine acted_row h { denyUser computer with updatedAt := s.now } hcomputer ⟨.inl ⟨rfl, rfl⟩⟩
      s.runs s.jobs hcall fun lease d hbefore hdeed => ?_
    have hd : d ≠ .cleared := by
      intro hd
      rw [hd] at hdeed
      exact deed_of_same_lease { denyUser computer with updatedAt := s.now } hcomputer rfl rfl hdeed
    rw [hlease computer hmatching] at hbefore
    rw [← some.inj hbefore]
    exact hacted d _ hd

theorem called_of_releaseRead (h : SystemOk s) {computer : Computer}
    (hidle : ∀ other, .called index other ∉ s.history) (botId : Text) (skipped : Bool) :
    Acted s index cause ((computer.controlLeaseId.map fun leaseId => s.record (.called index leaseId)).getD s,
      .release botId skipped computer) := by
  cases hlease : computer.controlLeaseId with
  | none =>
    refine acted_stay h fun leaseId hother => ?_
    rw [hlease] at hother
    cases hother
  | some leaseId =>
    refine acted_called h (fun other hother => absurd hother (hidle other)) fun other hother => ?_
    rw [hlease] at hother
    rw [← some.inj hother]
    exact mem_cons_self

theorem acted_finalize (h : SystemOk s) (x : Finalize) (hacted : ∀ d deadline,
      ActedOk s.history index x.leaseId cause d deadline s.now)
    (hcall : CallOk s index call) : Acted s index cause ((finalizeComputerControlRelease s x).1, call) := by
  have hlease : ∀ computer, x.matches computer → computer.controlLeaseId = some x.leaseId := by
    intro computer hmatches
    simp only [Finalize.matches, Bool.and_eq_true, decide_eq_true_eq] at hmatches
    exact hmatches.1.2
  have hclear := acted_clear h x.holder s.now hlease hacted (resume s.runs x).1 (fun _ => call) fun _ => hcall
  unfold finalizeComputerControlRelease System.updateMany
  obtain hno | ⟨computer, -, -, hyes⟩ := updateManyAt_cases s s.now x.matches (clearControl x.holder)
  · rw [hno]
    exact acted_stay h hcall
  · rw [hyes] at hclear ⊢
    exact hclear

theorem acted_extendWrite (h : SystemOk s) (botId leaseId : Text) (expiresAt : ℕ) : Acted s index cause (
      match s.updateMany
        (fun computer => computer.controlHolder = .user && computer.controlBotId = some botId &&
          computer.controlLeaseId = some leaseId)
        (fun computer => { computer with controlLeaseExpiresAt := some expiresAt }) with
      | (written, matched) =>
        if matched then (written.record (.extended index leaseId expiresAt), .extendSchedule leaseId expiresAt)
        else (s, .done false)) := by
  unfold System.updateMany
  obtain hno | ⟨computer, hcomputer, hmatching, hyes⟩ := updateManyAt_cases s s.now
    (fun computer => computer.controlHolder = .user && computer.controlBotId = some botId &&
      computer.controlLeaseId = some leaseId)
    fun computer => { computer with controlLeaseExpiresAt := some expiresAt }
  · rw [hno]
    exact acted_stay h trivial
  · rw [hyes]
    simp only [Bool.and_eq_true, decide_eq_true_eq] at hmatching
    have hlease : s.lease = some leaseId := (lease_of_computer hcomputer).trans hmatching.2
    refine ⟨⟨⟨trivial, h.history⟩, ?_, ?_, ?_⟩, (History.GrewBy.refl _ _ _).cons rfl, rfl, ?_, trivial⟩
    · intro other hother at' hlast
      have hsame : leaseId = other := some.inj (hmatching.2.symm.trans hother)
      have hlast' : (if leaseId = other then some expiresAt else lastExtension other s.history) = some at' := hlast
      rw [if_pos hsame] at hlast'
      exact hlast'
    · intro other hother
      exact h.issued other ((lease_of_computer hcomputer).trans hother)
    · intro call other at' hmem
      obtain heq | hmem := mem_cons.mp hmem
      · cases heq
        exact h.issued leaseId hlease
      · exact h.extended call other at' hmem
    · intro other d _ hdeed
      rw [deed_of_same_control { computer with controlLeaseExpiresAt := some expiresAt, updatedAt := s.now } hcomputer rfl
        rfl rfl] at hdeed
      cases hdeed

theorem acted_sweep (h : SystemOk s) (hnow : now ≤ s.now) : Acted s index .swept ((s.updateMany
      (fun computer => computer.controlHolder = .user &&
        (computer.controlLeaseId.isNone || computer.controlLeaseExpiresAt.all fun expiresAt => expiresAt ≤ now))
      (clearControl .none)).1, .done true) := by
  obtain hno | ⟨computer, hcomputer, hmatching, hyes⟩ := updateManyAt_cases s s.now
    (fun computer => computer.controlHolder = .user &&
      (computer.controlLeaseId.isNone || computer.controlLeaseExpiresAt.all fun expiresAt => expiresAt ≤ now))
    (clearControl .none)
  · rw [System.updateMany, hno]
    exact acted_stay h trivial
  · rw [System.updateMany, hyes]
    refine acted_row h { clearControl .none computer with updatedAt := s.now } hcomputer ⟨.inr rfl⟩
      s.runs s.jobs trivial
      fun leaseId d hbefore _ => ⟨by decide, fun hne => absurd rfl hne, fun hcause => absurd hcause (by decide),
        fun _ hne => absurd rfl hne, fun _ expiresAt hexpires => ?_⟩
    have hlease : s.lease = some leaseId := (lease_of_computer hcomputer).trans hbefore
    rw [System.deadline, if_pos hlease, hcomputer] at hexpires
    have hdeadline : computer.controlLeaseExpiresAt = some expiresAt := hexpires
    rw [hbefore, hdeadline] at hmatching
    simp at hmatching
    omega

variable (index cause) in
theorem acted_bootActivate (h : SystemOk s) (x : Boot) (stamp : ℕ) (call : Call)
    (hcall : CallOk s index call) :
    Acted s index cause ((s.updateManyAt stamp
      (fun computer => !computer.running && computer.provisioningId = some x.provisioningId)
        (activate x.ref)).1, call) := by
  obtain hno | ⟨computer, hcomputer, -, hyes⟩ := updateManyAt_cases s stamp
    (fun computer => !computer.running && computer.provisioningId = some x.provisioningId) (activate x.ref)
  · rw [hno]
    exact acted_stay h hcall
  · rw [hyes]
    refine acted_row h { activate x.ref computer with updatedAt := stamp } hcomputer
      ⟨.inl ⟨rfl, rfl⟩⟩ s.runs s.jobs hcall fun leaseId d _ hdeed => ?_
    rw [deed_of_same_control { activate x.ref computer with updatedAt := stamp } hcomputer rfl rfl rfl] at hdeed
    cases hdeed

theorem acted_bootClear (h : SystemOk s) (stamp : ℕ) (holder : Holder)
    (hmatching : ∀ computer, matching computer → computer.controlLeaseId = none) :
    Acted s index cause ((s.updateManyAt stamp matching (clearControl holder)).1, .done true) := by
  obtain hno | ⟨computer, hcomputer, hmatches, hyes⟩ :=
    updateManyAt_cases s stamp matching (clearControl holder)
  · rw [hno]
    exact acted_stay h trivial
  · rw [hyes]
    refine acted_row h { clearControl holder computer with updatedAt := stamp } hcomputer ⟨.inr rfl⟩
      s.runs s.jobs trivial
      fun leaseId d hbefore _ => ?_
    rw [hmatching computer hmatches] at hbefore
    cases hbefore

/-! ### One act -/

theorem expiry_matches {computer : Computer} (h : x.matches computer) :
    computer.controlLeaseId = some x.leaseId := by
  simp only [Expiry.matches, Bool.and_eq_true, decide_eq_true_eq] at h
  exact h.1

theorem acted_jobs (h : SystemOk s) (jobs : List Job) (call : Call) (hcall : CallOk s index call) :
    Acted s index cause ({ s with jobs }, call) :=
  acted_quiet h { s with jobs } rfl rfl rfl rfl hcall

theorem acted_expiry (h : SystemOk s) (hgoing : Going s index x) {refused next : Call}
    (hrefused : CallOk s index refused)
    (hnext : ∀ event, Going (s.record event) index x ∧ Revoked x.leaseId (s.record event).history →
      CallOk (s.record event) index next) (answer : Answer) :
    Acted s index x.cause (revokeScreenControl s index x.leaseId x.cause refused next answer) :=
  acted_revoke h hgoing.called (fun _ => hgoing.acted (by simp)) hrefused
    (fun event hrevoked => hnext event ⟨hgoing.record event, hrevoked⟩) answer

theorem acted_next (ttl : ℕ) (h : SystemOk s) (hcall : CallOk s index call) (answer : Answer) :
    Acted s index call.cause (next ttl s index call answer) := by
  cases call with
  | extendRead | bootRead =>
    refine acted_awaited h (acted_stay h ?_) answer
    cases s.computer <;> exact trivial
  | extend botId deadline computer =>
    dsimp only [next]
    split
    next => split <;> exact acted_stay h trivial
    next => exact acted_stay h trivial
  | extendWrite botId leaseId expiresAt =>
    exact acted_awaited h (acted_extendWrite h botId leaseId expiresAt) answer
  | extendSchedule leaseId expiresAt => exact acted_awaited h (acted_jobs h _ (.done true) trivial) answer
  | expire leaseId ended => exact acted_called h hcall ⟨mem_cons_self, Nat.le_refl _⟩
  | expireRead leaseId ended now => exact acted_awaited h (acted_expireRead h hcall.1 hcall.2) answer
  | reschedule leaseId availableAt => exact acted_awaited h (acted_jobs h _ (.done false) trivial) answer
  | orphanRevoke x =>
    have hretry : CallOk s index (.orphanRetry x.leaseId (x.now + 30000)) := trivial
    have hnext : ∀ event, Going (s.record event) index x ∧ Revoked x.leaseId (s.record event).history →
        CallOk (s.record event) index (.orphanClear x) := fun _ hready => hready
    exact acted_expiry h hcall hretry hnext answer
  | orphanRetry leaseId availableAt =>
    dsimp only [next]
    split
    · exact acted_stay h trivial
    · exact acted_jobs h _ (.done false) trivial
  | orphanClear x =>
    obtain ⟨hgoing, hrevoked⟩ := hcall
    exact acted_awaited h
      (acted_clear h .none s.now (fun _ => expiry_matches)
      (fun _ _ => hgoing.acted fun _ => hrevoked)
      (s.updateMany x.matches (clearControl .none)).1.runs Call.done fun _ => trivial) answer
  | claim x botId =>
    have hgoing : Going s index x := hcall
    have hdeny := acted_deny x.cause h x.matches (fun _ => expiry_matches)
      (fun _ _ hd => hgoing.acted fun heq => absurd heq hd) (.revoke x botId) hgoing
    refine acted_awaited h ?_ answer
    show Acted s index x.cause (
      if !(s.updateMany x.matches denyUser).2 then (s, .done false)
      else if x.computer.providerRef.isSome then ((s.updateMany x.matches denyUser).1, .revoke x botId)
      else ((s.updateMany x.matches denyUser).1.record (.spared index x.leaseId), .finalize x botId))
    by_cases hmatched : (s.updateMany x.matches denyUser).2
    · rw [if_neg (by simp [hmatched])]
      split
      · exact hdeny
      · have hgoing' : Going (s.updateMany x.matches denyUser).1 index x := hdeny.call
        have hfinalize :
            Revoked x.leaseId
            ((s.updateMany x.matches denyUser).1.record (.spared index x.leaseId)).history →
            CallOk ((s.updateMany x.matches denyUser).1.record (.spared index x.leaseId)) index (.finalize x botId) :=
          fun hrevoked => ⟨hgoing'.record _, hrevoked⟩
        exact acted_then_spared hdeny hgoing'.called hfinalize
    · rw [if_pos (by simpa using hmatched)]
      exact acted_stay h trivial
  | revoke x botId =>
    have hfailed : CallOk s index .failed := trivial
    have hnext : ∀ event, Going (s.record event) index x ∧ Revoked x.leaseId (s.record event).history →
        CallOk (s.record event) index (.finalize x botId) := fun _ hready => hready
    exact acted_expiry h hcall hfailed hnext answer
  | finalize x botId =>
    obtain ⟨hgoing, hrevoked⟩ := hcall
    refine acted_awaited h (acted_finalize h ⟨botId, x.computer.controlRunId, x.leaseId, .none, true⟩
      (fun d deadline => hgoing.acted fun _ => hrevoked) ?_) answer
    split <;> exact trivial
  | releaseRead botId skipped =>
    refine acted_awaited h ?_ answer
    split
    next => exact acted_stay h trivial
    next computer _ =>
      split
      next => exact called_of_releaseRead h hcall botId skipped
      next => exact acted_stay h trivial
  | release botId skipped computer =>
    dsimp only [next, release]
    split
    next => exact acted_stay h (Nat.le_refl _)
    next leaseId hlease =>
      have hcalled := hcall leaseId hlease
      split
      · exact acted_stay h hcalled
      · exact acted_stay h fun other hother => called_unique h.history hother hcalled
  | sweep now => exact acted_awaited h (acted_sweep h hcall) answer
  | releaseDeny x providerRef =>
    have hdeny := acted_deny .released h (fun computer => computer.controlLeaseId = some x.leaseId)
      (fun _ hmatches => of_decide_eq_true hmatches)
      (fun _ _ hd => released_acted hcall fun heq => absurd heq hd) (.releaseRevoke x) hcall
    refine acted_awaited h ?_ answer
    split
    · exact hdeny
    · have hcalled : Event.called index x.leaseId ∈
          (s.updateMany (fun computer => computer.controlLeaseId = some x.leaseId) denyUser).1.history := hdeny.call
      exact acted_then_spared hdeny hcalled fun hrevoked => ⟨mem_record _ hcalled, hrevoked⟩
  | releaseRevoke x =>
    have hfailed : CallOk s index .failed := trivial
    have hnext : ∀ event, Revoked x.leaseId (s.record event).history →
        CallOk (s.record event) index (.releaseFinalize x) := fun _ hrevoked => ⟨mem_record _ hcall, hrevoked⟩
    exact acted_revoke h hcall (fun _ => released_acted hcall (by simp)) hfailed hnext answer
  | releaseFinalize x =>
    obtain ⟨hcalled, hrevoked⟩ := hcall
    refine acted_awaited h (acted_finalize h x (fun d deadline => released_acted hcalled fun _ => hrevoked) ?_) answer
    split <;> exact trivial
  | releaseCancel leaseId runId =>
    dsimp only [next]
    have hnext : CallOk s index ((runId.map Call.continuation).getD (.done true)) := by
      cases runId <;> exact trivial
    split
    · exact acted_stay h hnext
    · exact acted_jobs h _ _ hnext
  | continuation runId =>
    dsimp only [next]
    split
    · exact acted_stay h trivial
    · exact acted_jobs h _ (.done true) trivial
  | bootPrepared x =>
    refine acted_stay h ?_
    split <;> exact trivial
  | bootActivate x stamp =>
    refine acted_awaited h ?_ answer
    have hboot := acted_bootActivate index .other h x stamp
    show Acted s index .other (
      if !(s.updateManyAt stamp (fun computer => !computer.running &&
        computer.provisioningId = some x.provisioningId) (activate x.ref)).2 then (s, .failed)
      else if x.clears s.now then ((s.updateManyAt stamp (fun computer => !computer.running &&
        computer.provisioningId = some x.provisioningId) (activate x.ref)).1, .bootClear x stamp)
      else ((s.updateManyAt stamp (fun computer => !computer.running &&
        computer.provisioningId = some x.provisioningId) (activate x.ref)).1, .done true))
    split
    · exact acted_stay h trivial
    · split
      · exact hboot (.bootClear x stamp) trivial
      · exact hboot (.done true) trivial
  | bootClear x stamp =>
    refine acted_awaited h (acted_bootClear h stamp x.holder fun computer hmatches => ?_) answer
    simp only [Bool.and_eq_true, isNone_iff_eq_none] at hmatches
    exact hmatches.1.1.1.2
  | done | failed => exact acted_stay h trivial

/-! ### Every run -/

/-- What an act leaves, once it is noted what became of the lease. -/
structure Noted (s : System) (index : ℕ) (result : System × Call) : Prop where
  system : SystemOk result.1
  grew : History.GrewBy Event.call index s.history result.1.history
  now : result.1.now = s.now
  call : CallOk result.1 index result.2

theorem noted_act (ttl : ℕ) (h : SystemOk s) (hcall : CallOk s index call) (answer : Answer) :
    Noted s index (act ttl s index call answer) := by
  have hacted := acted_next ttl h hcall answer
  unfold act note
  generalize next ttl s index call answer = result at hacted
  dsimp only
  split
  next leaseId d hlease hdeed =>
    have hevent := hacted.deed leaseId d hlease hdeed
    refine ⟨systemOk_record hacted.system hevent (fun _ => rfl) (fun _ _ _ heq => by cases heq),
      hacted.grew.cons rfl, hacted.now, hacted.call.mono (Nat.le_refl _) mem_record fun other hother => ?_⟩
    obtain heq | hother := mem_cons.mp hother
    · cases heq
    · exact hother
  next => exact { hacted with }

theorem callOk_start (hstart : call.isStart) (hidle : Idle s index) : CallOk s index call := by
  cases call with
  | expire leaseId ended => exact fun other hother => absurd hother (hidle other)
  | releaseRead botId skipped => exact hidle
  | extendRead | bootRead => exact trivial
  | _ => cases hstart

theorem systemOk_happen (h : SystemOk s) (happening : Happening) : SystemOk (happen s happening) := by
  cases happening with
  | computer row =>
    show SystemOk (if s.allows row then _ else s)
    split
    next hallowed =>
      have hlease : ∀ computer leaseId, row = some computer → computer.controlLeaseId = some leaseId →
          leaseId ∉ s.issued ∨ s.lease = some leaseId ∧
            s.computer.bind (·.controlLeaseExpiresAt) = computer.controlLeaseExpiresAt := by
        intro computer leaseId hrow hcomputer
        rw [System.allows, hrow, all_some, hcomputer, all_some] at hallowed
        simpa using hallowed
      refine ⟨h.history, fun leaseId hafter expiresAt hlast => ?_, fun leaseId hafter => ?_,
        fun call leaseId expiresAt hmem => mem_append_right _ (h.extended call leaseId expiresAt hmem)⟩
      · obtain ⟨computer, hrow, hcomputer⟩ := bind_eq_some_iff.mp hafter
        obtain hfresh | ⟨hbefore, hexpires⟩ := hlease computer leaseId hrow hcomputer
        · obtain ⟨call, hmem⟩ := mem_of_lastExtension hlast
          exact absurd (h.extended call leaseId expiresAt hmem) hfresh
        · have hdeadline := h.deadline leaseId hbefore expiresAt hlast
          show row.bind (·.controlLeaseExpiresAt) = some expiresAt
          have hrow' : row = some computer := hrow
          rw [hrow', ← hdeadline, hexpires]
          rfl
      · have hafter' : row.bind (·.controlLeaseId) = some leaseId := hafter
        exact mem_append_left _ (mem_toList.mpr hafter')
    next => exact h
  | _ => exact { h with }

theorem happen_history (s : System) (happening : Happening) :
    (happen s happening).history = s.history ∧ s.now ≤ (happen s happening).now := by
  cases happening with
  | pass ms => exact ⟨rfl, Nat.le_add_right _ _⟩
  | computer row =>
    show (if s.allows row then _ else s).history = s.history ∧ s.now ≤ (if s.allows row then _ else s).now
    split <;> exact ⟨rfl, Nat.le_refl _⟩
  | _ => exact ⟨rfl, Nat.le_refl _⟩

theorem keeps_program (ttl : ℕ) :
    Calls.Keeps (program ttl) SystemOk CallOk Idle (fun call => call.isStart) fun _ _ _ _ => True where
  start _ _ _ _ hidle hstart := callOk_start hstart hidle
  act s index call answer h hcall _ := by
    have hnoted := noted_act ttl h hcall answer
    exact ⟨hnoted.system, hnoted.call⟩
  others s index call answer index' call' h hcall _ hne hother := by
    have hnoted := noted_act ttl h hcall answer
    refine hother.mono (Nat.le_of_eq hnoted.now.symm) (fun _ hmem => hnoted.grew.mem hmem) fun other hmem => ?_
    exact hnoted.grew.mem_other hmem hne
  idle s index call answer index' h hcall _ hne hidle other hmem := by
    have hnoted := noted_act ttl h hcall answer
    exact hidle other (hnoted.grew.mem_other hmem hne)
  environment s happening h := systemOk_happen h happening
  environmentLocal s happening index call h hcall := by
    obtain ⟨hhistory, hnow⟩ := happen_history s happening
    refine hcall.mono hnow (fun event hmem => ?_) fun other hmem => ?_
    · show event ∈ (happen s happening).history
      rw [hhistory]
      exact hmem
    · rw [← hhistory]
      exact hmem
  environmentIdle s happening index h hidle other hmem := by
    obtain ⟨hhistory, -⟩ := happen_history s happening
    refine hidle other ?_
    rw [← hhistory]
    exact hmem

structure ControlOk (history : List Event) : Prop where
  /-- An expiry does nothing to a lease before the deadline that the latest extension set, of those
  before it read the row. -/
  honoured : ∀ call leaseId deed deadline time earlier,
    .acted call leaseId .expired deed deadline time :: earlier <:+ history →
      ∃ read before, .looked call leaseId read :: before <:+ earlier ∧ read ≤ time ∧
        ∀ expiresAt, lastExtension leaseId before = some expiresAt → expiresAt ≤ time
  /-- An id leaves the row after its lease was revoked, or there was nothing to revoke. -/
  kept : ∀ call leaseId cause deadline time earlier,
    .acted call leaseId cause .cleared deadline time :: earlier <:+ history → cause ≠ .swept → Revoked leaseId earlier
  /-- A call touches the lease that it was called for, and no other. -/
  own : ∀ call leaseId cause deed deadline time, .acted call leaseId cause deed deadline time ∈
    history → cause ≠ .swept →
    .called call leaseId ∈ history ∧ ∀ other, .called call other ∈ history → other = leaseId
  /-- A release that found no lease takes only one that has run out. -/
  swept : ∀ call leaseId deed deadline time, .acted call leaseId .swept deed deadline time ∈ history →
    ∀ expiresAt ∈ deadline, expiresAt ≤ time
  /-- Extensions and boots touch no lease. -/
  others : ∀ call leaseId deed deadline time, .acted call leaseId .other deed deadline time ∉ history

theorem controlOk_of_history {history : List Event} (h : History.Ok EventOk history) : ControlOk history where
  honoured call leaseId deed deadline time earlier hsuffix := by
    have hacted : ActedOk earlier call leaseId .expired deed deadline time := h.of_suffix hsuffix
    obtain ⟨read, hread, hmem⟩ := hacted.looked rfl
    obtain ⟨before, hbefore⟩ := History.exists_suffix hmem
    have hlooked : EventOk before (.looked call leaseId read) :=
      h.of_suffix (hbefore.trans ((suffix_cons _ _).trans hsuffix))
    exact ⟨read, before, hbefore, hread, fun expiresAt hlast => (hlooked expiresAt hlast).trans hread⟩
  kept call leaseId cause deadline time earlier hsuffix hswept := by
    have hacted : ActedOk earlier call leaseId cause .cleared deadline time := h.of_suffix hsuffix
    exact hacted.revoked rfl hswept
  own call leaseId cause deed deadline time hmem hswept := by
    obtain ⟨earlier, hsuffix⟩ := History.exists_suffix hmem
    have hacted : ActedOk earlier call leaseId cause deed deadline time := h.of_suffix hsuffix
    have hcalled : Event.called call leaseId ∈ history :=
      ((suffix_cons _ _).trans hsuffix).subset (hacted.called hswept)
    exact ⟨hcalled, fun other hother => called_unique h hother hcalled⟩
  swept call leaseId deed deadline time hmem := by
    obtain ⟨earlier, hsuffix⟩ := History.exists_suffix hmem
    have hacted : ActedOk earlier call leaseId .swept deed deadline time := h.of_suffix hsuffix
    exact hacted.swept rfl
  others call leaseId deed deadline time hmem := by
    obtain ⟨earlier, hsuffix⟩ := History.exists_suffix hmem
    have hacted : ActedOk earlier call leaseId .other deed deadline time := h.of_suffix hsuffix
    exact hacted.known rfl

def newSystem (computer : Option Computer) (runs : List Run) (jobs : List Job) (now : ℕ) :
    Calls.State System Call where
  shared := ⟨now, computer, runs, jobs, (computer.bind (·.controlLeaseId)).toList, []⟩
  calls := []

/-- Every interleaving of the calls, with any failures, from any row. -/
theorem control_holds (takeoverLeaseMs : ℕ) (computer : Option Computer) (runs : List Run) (jobs : List Job) (now : ℕ)
    (ops : List (Calls.Op Call Answer Happening)) (hstart : ∀ op ∈ ops, Calls.OnStarts (fun call => call.isStart = true) op) :
    ControlOk (Run.after (Calls.step (program takeoverLeaseMs)) (newSystem computer runs jobs now) ops).shared.history := by
  have hfirst : SystemOk (newSystem computer runs jobs now).shared := by
    refine ⟨trivial, ?_, fun leaseId hlease => mem_toList.mpr hlease, ?_⟩
    · intro _ _ _ hlast
      cases hlast
    · intro _ _ _ hmem
      cases hmem
  have hholds : Calls.Holds SystemOk CallOk Idle (newSystem computer runs jobs now) := by
    refine ⟨hfirst, ?_, ?_⟩
    · intro index call hcall
      cases hcall
    · intro index _ other hmem
      cases hmem
  exact controlOk_of_history (Calls.holds_every (keeps_program takeoverLeaseMs) hholds hstart).shared.history

def heldComputer : Computer where
  controlHolder := .user
  controlLeaseId := some (lit "lease")
  controlLeaseExpiresAt := some 1000
  controlBotId := some (lit "bot")
  controlRunId := none
  controlFence := 0
  providerRef := some (lit "machine")
  screenGeneration := 0
  running := true
  provisioningId := none
  updatedAt := 0

def runHeld (ops : List (Calls.Op Call Answer Happening)) : Calls.State System Call :=
  Run.after (Calls.step (program 900000)) (newSystem (some heldComputer) [] [] 0) ops

/-- An extension, then an expiry before and one after the new deadline; the first revocation
fails. -/
def extendedRun : List (Calls.Op Call Answer Happening) :=
  [.start (.extendRead (lit "bot") 2000000), .act 0 .ok, .act 0 .ok, .act 0 .ok, .act 0 .ok,
    .environment (.pass 1500000), .start (.expire (lit "lease") none), .act 1 .ok, .act 1 .ok, .act 1 .ok,
    .environment (.pass 1500000), .start (.expire (lit "lease") none), .act 2 .ok, .act 2 .ok, .act 2 .ok, .act 2 .fails,
    .start (.expire (lit "lease") none), .act 3 .ok, .act 3 .ok, .act 3 .ok, .act 3 .ok, .act 3 .ok]

theorem control_holds_extended : ControlOk (runHeld extendedRun).shared.history ∧ (runHeld extendedRun).shared.lease = none :=
  ⟨control_holds 900000 (some heldComputer) [] [] 0 extendedRun (by decide), by decide +kernel⟩

/-- There is no engine for the computer: nothing is revoked, and the id leaves the row. -/
def engineMissing : List (Calls.Op Call Answer Happening) :=
  [.environment (.pass 1000), .start (.expire (lit "lease") none), .act 0 .ok, .act 0 .ok, .act 0 .ok, .act 0 .missing,
    .act 0 .ok]

def isRevocation : Event → Bool
  | .acted _ _ _ .revoked _ _ => true
  | _ => false

theorem control_fails_missing : heldComputer.controlLeaseId = some (lit "lease") ∧
    (runHeld engineMissing).shared.lease = none ∧ (runHeld engineMissing).shared.history.any isRevocation = false := by
  decide +kernel

end ArdurBot.ComputerControl
