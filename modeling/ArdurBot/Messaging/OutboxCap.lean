import ArdurBot.Lib.Table
import ArdurBot.Messaging.OutboxOnce

/-!
# The cap on direct messages

A message that was sent is counted, or a drain is about to count it. The counter together with what
the drains have in flight stays at the cap or under it. So no body is sent twice, none is lost as
sent, and the cap is kept, when nothing fails between the provider's success and the end of a row's
turn, when the catch block's write succeeds, and when no counter is read below the cap that the
messages in flight have used up.
-/

namespace ArdurBot.Messaging

open List Utf16 Json
open Bool

section

variable {s t : Outbox} {drain drain' : Drain} {i : ℕ}

theorem sendsSinceInbound_call (identityId rowId : ℕ) (owner : Option ℕ) (body : Text) (ok : Bool)
    (log : List Event) :
    sendsSinceInbound identityId (.call rowId owner body ok :: log) =
      sendsSinceInbound identityId log + (ok && decide (owner = some identityId)).toNat := by
  cases ok with
  | false => rfl
  | true =>
    rw [Bool.true_and, sendsSinceInbound]
    split
    · rename_i howner
      rw [decide_eq_true howner]
      rfl
    · rename_i howner
      rw [decide_eq_false howner]
      rfl

theorem sendsSinceInbound_inbound (identityId other : ℕ) (log : List Event) :
    sendsSinceInbound identityId (.inbound other :: log) ≤ sendsSinceInbound identityId log := by
  rw [sendsSinceInbound]
  split
  · omega
  · omega

def Drain.uncounted (identityId : ℕ) (drain : Drain) : Bool :=
  match drain.phase with
  | .claimed _ stage => stage.uncounted = some identityId
  | _ => false

def Outbox.uncounted (s : Outbox) (identityId : ℕ) : ℕ :=
  s.drains.countP (Drain.uncounted identityId)

theorem uncounted_le_inFlight (s : Outbox) (identityId : ℕ) :
    s.uncounted identityId ≤ s.inFlight identityId := by
  refine countP_mono_left ?_
  intro drain _ huncounted
  unfold Drain.uncounted at huncounted
  unfold Drain.inFlight
  cases hphase : drain.phase <;> rw [hphase] at huncounted
  case claimed row stage => exact or_eq_true_iff.mpr (.inr huncounted)
  all_goals cases huncounted

theorem countP_set {drains : List Drain} (hi : drains[i]? = some drain) (drain' : Drain) (p : Drain → Bool) :
    (drains.set i drain').countP p + (p drain).toNat = drains.countP p + (p drain').toNat := by
  obtain ⟨hlt, rfl⟩ := List.getElem?_eq_some_iff.mp hi
  have hpos : p drains[i] → 0 < drains.countP p :=
    fun hp => countP_pos_iff.mpr ⟨drains[i], getElem_mem hlt, hp⟩
  rw [List.countP_set hlt]
  cases hold : p drains[i]
  · cases p drain'
    · simp
    · simp
  · have hone := hpos hold
    cases p drain'
    · simp
      omega
    · simp
      omega

/-! ### The invariant -/

structure CapOk (s : Outbox) : Prop where
  ids : (s.identities.map (·.id)).Nodup
  fresh : ∀ identity ∈ s.identities, identity.id < s.nextIdentityId
  known : ∀ drain ∈ s.drains, ∀ id, drain.inFlight id → id < s.nextIdentityId
  counted : ∀ identity ∈ s.identities, identity.provider = lit "sendblue" →
    sendsSinceInbound identity.id s.log ≤ identity.outboundSinceInbound + s.uncounted identity.id
  capped : ∀ identity ∈ s.identities, identity.provider = lit "sendblue" →
    identity.outboundSinceInbound + s.inFlight identity.id ≤ messagingDmOutboundCap

theorem CapOk.sends_le (h : CapOk s) {identity : IdentityRow} (hidentity : identity ∈ s.identities)
    (hprovider : identity.provider = lit "sendblue") :
    sendsSinceInbound identity.id s.log ≤ messagingDmOutboundCap := by
  have hcounted := h.counted identity hidentity hprovider
  have hcapped := h.capped identity hidentity hprovider
  have hle := uncounted_le_inFlight s identity.id
  omega

structure SameIdentity (data : IdentityRow → IdentityRow) : Prop where
  id : ∀ identity, (data identity).id = identity.id
  provider : ∀ identity, (data identity).provider = identity.provider

theorem sameIdentity_if {id : ℕ} {data : IdentityRow → IdentityRow} (h : SameIdentity data) :
    SameIdentity fun identity => if identity.id = id then data identity else identity := by
  constructor
  all_goals
    intro identity
    split
  · exact h.id identity
  · rfl
  · exact h.provider identity
  · rfl

variable {data : IdentityRow → IdentityRow}

section

variable (h : CapOk s) (hi : s.drains[i]? = some drain) (hdata : SameIdentity data)
  (hidentities : t.identities = s.identities.map data)
include h hi hdata hidentities

/-- A step of a drain, by what it does to the counter, to what was sent, and to what is in
flight. -/
theorem CapOk.frame (hnext : t.nextIdentityId = s.nextIdentityId)
    (hdrains : t.drains = s.drains) (hknown : ∀ id, drain'.inFlight id → id < s.nextIdentityId)
    (hcounted : ∀ identity ∈ s.identities, identity.provider = lit "sendblue" →
      sendsSinceInbound identity.id t.log + identity.outboundSinceInbound + (drain.uncounted identity.id).toNat ≤
        sendsSinceInbound identity.id s.log + (data identity).outboundSinceInbound +
          (drain'.uncounted identity.id).toNat) (hcapped :
          ∀ identity ∈ s.identities, identity.provider = lit "sendblue" →
      (data identity).outboundSinceInbound + s.inFlight identity.id + (drain'.inFlight identity.id).toNat ≤
        messagingDmOutboundCap + (drain.inFlight identity.id).toNat) :
    CapOk { t with drains := t.drains.set i drain' } := by
  constructor
  · show (t.identities.map (·.id)).Nodup
    have hids : (s.identities.map data).map (·.id) = s.identities.map (·.id) := by
      rw [map_map]
      exact map_congr_left fun identity _ => hdata.id identity
    rw [hidentities, hids]
    exact h.ids
  · intro identity hidentity
    dsimp only at hidentity ⊢
    rw [hidentities] at hidentity
    obtain ⟨old, hold, rfl⟩ := mem_map.mp hidentity
    rw [hnext, hdata.id]
    exact h.fresh old hold
  · intro other hother id hflight
    dsimp only at hother ⊢
    rw [hdrains] at hother
    rw [hnext]
    obtain ⟨j, hj⟩ := getElem?_of_mem hother
    obtain ⟨_, rfl⟩ | ⟨_, hold⟩ := getElem?_of_set hj
    · exact hknown id hflight
    · exact h.known other (mem_of_getElem? hold) id hflight
  · intro identity hidentity hprovider
    dsimp only at hidentity ⊢
    rw [hidentities] at hidentity
    obtain ⟨old, hold, rfl⟩ := mem_map.mp hidentity
    rw [hdata.provider] at hprovider
    rw [hdata.id]
    have hset := countP_set hi drain' (Drain.uncounted old.id)
    have hcount := hcounted old hold hprovider
    have hbefore := h.counted old hold hprovider
    unfold Outbox.uncounted at hbefore ⊢
    dsimp only
    rw [hdrains]
    omega
  · intro identity hidentity hprovider
    dsimp only at hidentity ⊢
    rw [hidentities] at hidentity
    obtain ⟨old, hold, rfl⟩ := mem_map.mp hidentity
    rw [hdata.provider] at hprovider
    rw [hdata.id]
    have hset := countP_set hi drain' (Drain.inFlight old.id)
    have hcap := hcapped old hold hprovider
    unfold Outbox.inFlight at hcap ⊢
    dsimp only
    rw [hdrains]
    omega

theorem CapOk.stay (hcounter : ∀ identity, (data identity).outboundSinceInbound = identity.outboundSinceInbound)
    (hnext : t.nextIdentityId = s.nextIdentityId) (hdrains : t.drains = s.drains)
    (hlog : ∀ id, sendsSinceInbound id t.log = sendsSinceInbound id s.log)
    (huncounted : ∀ id, drain.uncounted id → drain'.uncounted id)
    (hflight : ∀ id, drain'.inFlight id → drain.inFlight id) :
    CapOk { t with drains := t.drains.set i drain' } := by
  refine h.frame hi hdata hidentities hnext hdrains ?_ ?_ ?_
  · exact fun id hafter => h.known drain (mem_of_getElem? hi) id (hflight id hafter)
  · intro identity _ _
    rw [hlog, hcounter]
    have hle := toNat_le_toNat (huncounted identity.id)
    omega
  · intro identity hidentity hprovider
    rw [hcounter]
    have hcapped := h.capped identity hidentity hprovider
    have hle := toNat_le_toNat (hflight identity.id)
    omega

end

section

variable {row : Outbound} {stage : Stage} {pending : List Outbound} {phase : Phase}

/-! ### Steps of a drain -/

theorem SameIdentity.self : SameIdentity fun identity => identity := ⟨fun _ => rfl, fun _ => rfl⟩

section

variable (h : CapOk s) (hi : s.drains[i]? = some ⟨pending, .claimed row stage⟩)
  (hidentities : t.identities = s.identities) (hnext : t.nextIdentityId = s.nextIdentityId)
  (hdrains : t.drains = s.drains)
include h hi hidentities hnext hdrains

theorem CapOk.quiet (hlog : ∀ id, sendsSinceInbound id t.log = sendsSinceInbound id s.log)
    (huncounted : stage.uncounted = none)
    (hflight : ∀ id, (Drain.mk pending phase).inFlight id → stage.bound = some id) :
    CapOk { t with drains := t.drains.set i ⟨pending, phase⟩ } := by
  refine h.stay hi SameIdentity.self ?_ (fun _ => rfl) hnext hdrains hlog ?_ ?_
  · rw [map_id']
    exact hidentities
  · intro id hbefore
    have hbefore : stage.uncounted = some id := of_decide_eq_true hbefore
    rw [huncounted] at hbefore
    cases hbefore
  · intro id hafter
    exact or_eq_true_iff.mpr (.inl (decide_eq_true (hflight id hafter)))

theorem CapOk.call {owner : Option ℕ} {ok : Bool} (body : Text)
    (hlog : t.log = .call row.id owner body ok :: s.log) (hbound : stage.bound = owner)
    (huncounted : stage.uncounted = none) {stage' : Stage} (hbound' : stage'.bound = none)
    (huncounted' : stage'.uncounted = if ok then owner else none) :
    CapOk { t with drains := t.drains.set i ⟨pending, .claimed row stage'⟩ } := by
  have hflight : ∀ id, (Drain.mk pending (.claimed row stage)).inFlight id = decide (owner = some id) := by
    intro id
    show (decide (stage.bound = some id) || decide (stage.uncounted = some id)) = decide (owner = some id)
    rw [hbound, huncounted]
    exact or_false _
  have hflight' : ∀ id, (Drain.mk pending (.claimed row stage')).inFlight id = (ok && decide (owner = some id)) := by
    intro id
    show (decide (stage'.bound = some id) || decide (stage'.uncounted = some id)) = (ok && decide (owner = some id))
    rw [hbound', huncounted']
    cases ok
    · rfl
    · rfl
  have hcount : ∀ id, (Drain.mk pending (.claimed row stage)).uncounted id = false := by
    intro id
    show decide (stage.uncounted = some id) = false
    rw [huncounted]
    rfl
  have hcount' : ∀ id, (Drain.mk pending (.claimed row stage')).uncounted id = (ok && decide (owner = some id)) := by
    intro id
    show decide (stage'.uncounted = some id) = (ok && decide (owner = some id))
    rw [huncounted']
    cases ok
    · rfl
    · rfl
  refine h.frame hi SameIdentity.self ?_ hnext hdrains ?_ ?_ ?_
  · rw [map_id']
    exact hidentities
  · intro id hafter
    rw [hflight'] at hafter
    refine h.known _ (mem_of_getElem? hi) id ?_
    rw [hflight]
    exact (and_eq_true_iff.mp hafter).2
  · intro identity _ _
    rw [hlog, sendsSinceInbound_call, hcount, hcount']
    simp only [toNat_false]
    omega
  · intro identity hidentity hprovider
    have hcapped := h.capped identity hidentity hprovider
    have hle : (ok && decide (owner = some identity.id)).toNat ≤ (decide (owner = some identity.id)).toNat :=
      toNat_le_toNat fun hboth => (and_eq_true_iff.mp hboth).2
    rw [hflight, hflight']
    omega

end

section

variable (row : Outbound) (identity : IdentityRow)

theorem bound_directStage (threadId : Text) :
    (directStage row identity threadId).bound = some identity.id := by
  unfold directStage
  split
  · rfl
  · rfl

theorem uncounted_directStage (threadId : Text) : (directStage row identity threadId).uncounted = none := by
  unfold directStage
  split
  · rfl
  · rfl

theorem resolveDirectThread_cases : (resolveDirectThread row identity).uncounted = none ∧
      ((resolveDirectThread row identity).bound = none ∨
        (resolveDirectThread row identity).bound = some identity.id ∧
          (identity.provider = lit "sendblue" → identity.outboundSinceInbound < messagingDmOutboundCap)) := by
  unfold resolveDirectThread
  split
  · exact ⟨rfl, .inl rfl⟩
  rename_i hcap
  have hunder : identity.provider = lit "sendblue" → identity.outboundSinceInbound < messagingDmOutboundCap := by
    intro hprovider
    rw [decide_eq_true hprovider, Bool.true_and, decide_eq_true_eq] at hcap
    omega
  split
  · exact ⟨uncounted_directStage _ _ _, .inr ⟨bound_directStage _ _ _, hunder⟩⟩
  · exact ⟨rfl, .inr ⟨rfl, hunder⟩⟩

end

variable {identity : IdentityRow} {threadId : Text} {outcome : Outcome}

section

variable (h : CapOk s)
include h

theorem CapOk.lookup {identityId : ℕ} (hi : s.drains[i]? = some ⟨pending, .claimed row (.lookup identityId)⟩)
    (hfind : s.findIdentity identityId = some identity)
    (hsound : ∀ identity ∈ s.identities, identity.id = identityId → identity.provider = lit "sendblue" →
      identity.outboundSinceInbound < messagingDmOutboundCap →
        identity.outboundSinceInbound + s.inFlight identityId < messagingDmOutboundCap) :
    CapOk { s with drains := s.drains.set i ⟨pending, .claimed row (resolveDirectThread row identity)⟩ } := by
  have hmem : identity ∈ s.identities := mem_of_find?_eq_some hfind
  have hid : identity.id = identityId := by simpa using find?_some hfind
  obtain ⟨huncounted, hbound⟩ := resolveDirectThread_cases row identity
  have hflight' : ∀ id, (Drain.mk pending (.claimed row (resolveDirectThread row identity))).inFlight id =
      decide ((resolveDirectThread row identity).bound = some id) := by
    intro id
    show (_ || decide ((resolveDirectThread row identity).uncounted = some id)) = _
    rw [huncounted]
    exact or_false _
  obtain hnone | ⟨hbound, hunder⟩ := hbound
  · refine h.quiet (t := s) hi rfl rfl rfl (fun _ => rfl) rfl ?_
    intro id hafter
    rw [hflight', hnone] at hafter
    cases hafter
  · refine h.frame (t := s) hi SameIdentity.self (map_id' _).symm rfl rfl ?_ ?_ ?_
    · intro id hafter
      rw [hflight', hbound] at hafter
      obtain rfl := Option.some.inj (of_decide_eq_true hafter)
      exact h.fresh identity hmem
    · intro other _ _
      show _ + (false).toNat ≤ _
      simp only [toNat_false]
      omega
    · intro other hother hprovider
      have hcapped := h.capped other hother hprovider
      rw [hflight', hbound]
      by_cases heq : identity.id = other.id
      · obtain rfl := Table.eq_of_key h.ids hmem hother heq
        have hroom := hsound identity hmem hid hprovider (hunder hprovider)
        rw [hid]
        have hle := toNat_le (decide (some identityId = some identityId))
        omega
      · rw [decide_eq_false fun h => heq (Option.some.inj h)]
        simp only [toNat_false]
        omega

theorem CapOk.updateClaimed (hi : s.drains[i]? = some ⟨pending, .claimed row stage⟩)
    (huncounted : stage.uncounted = none) (outcome : Outcome) (data : Outbound → Outbound) :
    CapOk { (s.updateClaimed row outcome data).1 with
      drains := (s.updateClaimed row outcome data).1.drains.set i ⟨pending,
        (s.updateClaimed row outcome data).2⟩ } := by
  unfold Outbox.updateClaimed
  split
  · exact h.quiet (t := s.updateRow row.id data) hi rfl rfl rfl (fun _ => rfl) huncounted nofun
  · exact h.quiet (t := s) hi rfl rfl rfl (fun _ => rfl) huncounted nofun

theorem CapOk.inviteStep {pair : Text × Text}
    (hi : s.drains[i]? = some ⟨pending, .claimed row (.invite identity threadId pair)⟩)
    (hsound : StageSound s row outcome (.invite identity threadId pair)) :
    CapOk { (s.inviteStep row identity outcome).1 with
      drains := (s.inviteStep row identity outcome).1.drains.set i ⟨pending,
        (s.inviteStep row identity outcome).2⟩ } := by
  unfold Outbox.inviteStep Outbox.sendConnectInvite
  by_cases hlocks : outcome.locks
  · rw [hlocks, Bool.not_true, if_neg Bool.false_ne_true]
    by_cases hconnection : outcome.connection ≠ some (lit "pending")
    · rw [if_pos hconnection]
      by_cases hcommits : outcome.commits
      · rw [if_pos hcommits]
        exact h.quiet (t := s.updateRow row.id _) hi rfl rfl rfl (fun _ => rfl) rfl nofun
      · rw [if_neg hcommits]
        exact h.quiet (t := { s with unknown := row.id :: s.unknown }) hi rfl rfl rfl (fun _ => rfl) rfl
          nofun
    rw [if_neg hconnection]
    by_cases hrow : s.hasRow row.id
    · rw [hrow, Bool.not_true, if_neg Bool.false_ne_true]
      by_cases hsent : (outcome.succeeds && outcome.commits) = true
      · rw [if_pos hsent]
        rw [(and_eq_true_iff.mp hsent).1]
        exact h.call (t := (s.record (.call row.id (some identity.id) row.body true)).updateRow
          row.id _) hi rfl rfl rfl
          row.body rfl rfl rfl rfl rfl
      · rw [if_neg hsent]
        have hfailed : outcome.succeeds = false := by
          rw [eq_false_iff]
          intro hyes
          exact hsent (and_eq_true_iff.mpr ⟨hyes, hsound hlocks (not_not.mp hconnection) hyes⟩)
        rw [hfailed]
        exact h.quiet (t := { s.record (.call row.id (some identity.id) row.body false) with
          unknown := row.id :: s.unknown }) hi rfl rfl rfl (fun _ => rfl) rfl nofun
    · rw [eq_false_iff.mpr hrow, Bool.not_false, if_pos rfl]
      exact h.quiet (t := s) hi rfl rfl rfl (fun _ => rfl) rfl nofun
  · rw [eq_false_iff.mpr hlocks, Bool.not_false, if_pos rfl]
    exact h.quiet (t := { s with unknown := row.id :: s.unknown }) hi rfl rfl rfl (fun _ => rfl) rfl
      nofun

theorem CapOk.saveThread (hi : s.drains[i]? = some ⟨pending, .claimed row (.saveThread identity threadId)⟩) :
    CapOk { s.updateIdentity identity.id fun identity => { identity with dmThreadId := some threadId } with
      drains := s.drains.set i ⟨pending, .claimed row (directStage row identity threadId)⟩ } := by
  have hdata : SameIdentity fun other => { other with dmThreadId := some threadId } :=
    ⟨fun _ => rfl, fun _ => rfl⟩
  refine h.stay (t := s.updateIdentity identity.id _) hi (@sameIdentity_if identity.id _ hdata) rfl ?_ rfl rfl
    (fun _ => rfl) ?_ ?_
  · intro other
    split
    · rfl
    · rfl
  · intro id hbefore
    cases hbefore
  · intro id hafter
    have hafter : (decide ((directStage row identity threadId).bound = some id) ||
        decide ((directStage row identity threadId).uncounted = some id)) = true := hafter
    rw [bound_directStage, uncounted_directStage] at hafter
    exact hafter

theorem CapOk.count (hi : s.drains[i]? = some ⟨pending, .claimed row (.count identity)⟩) :
    CapOk { s.updateIdentity identity.id (fun identity =>
        { identity with outboundSinceInbound := identity.outboundSinceInbound + 1 }) with
      drains := s.drains.set i ⟨pending, .next⟩ } := by
  have hflag : ∀ id, (Drain.mk pending (.claimed row (.count identity))).uncounted id =
      decide (some identity.id = some id) :=
    fun _ => rfl
  have hflight : ∀ id, (Drain.mk pending (.claimed row (.count identity))).inFlight id =
      decide (some identity.id = some id) :=
    fun _ => rfl
  have hdata : SameIdentity fun other => { other with outboundSinceInbound := other.outboundSinceInbound + 1 } :=
    ⟨fun _ => rfl, fun _ => rfl⟩
  refine h.frame (t := s.updateIdentity identity.id _) hi (@sameIdentity_if identity.id _ hdata) rfl rfl rfl
    nofun ?_ ?_
  · intro other _ _
    show _ ≤ _ + _ + (false).toNat
    rw [hflag]
    by_cases heq : other.id = identity.id
    · rw [if_pos heq, heq, decide_eq_true rfl]
      simp only [toNat_true, toNat_false]
      show sendsSinceInbound _ s.log + _ + 1 ≤ _
      omega
    · rw [if_neg heq, decide_eq_false fun h => heq (Option.some.inj h).symm]
      simp only [toNat_false]
      show sendsSinceInbound _ s.log + _ + 0 ≤ _
      omega
  · intro other hother hprovider
    have hcapped := h.capped other hother hprovider
    show _ + _ + (false).toNat ≤ _
    rw [hflight]
    by_cases heq : other.id = identity.id
    · rw [if_pos heq, heq, decide_eq_true rfl]
      rw [heq] at hcapped
      simp only [toNat_true, toNat_false]
      omega
    · rw [if_neg heq, decide_eq_false fun h => heq (Option.some.inj h).symm]
      simp only [toNat_false]
      omega

theorem CapOk.stageStep (hi : s.drains[i]? = some ⟨pending, .claimed row stage⟩)
    (hsound : StageSound s row outcome stage) :
    CapOk { (s.stageStep row outcome stage).1 with
      drains := (s.stageStep row outcome stage).1.drains.set i ⟨pending, (s.stageStep row outcome stage).2⟩ } := by
  cases stage with
  | fail | release => exact h.updateClaimed hi rfl outcome _
  | lookup identityId =>
    dsimp only [Outbox.stageStep]
    split
    · rename_i hsucceeds
      split
      · exact h.quiet (t := s) hi rfl rfl rfl (fun _ => rfl) rfl nofun
      · rename_i hfind
        exact h.lookup hi hfind (hsound hsucceeds)
    · exact h.quiet (t := s) hi rfl rfl rfl (fun _ => rfl) rfl nofun
  | openDirectThread identity =>
    dsimp only [Outbox.stageStep]
    split
    · refine h.quiet (t := s) hi rfl rfl rfl (fun _ => rfl) rfl fun id hafter => ?_
      simpa [Drain.inFlight, Stage.bound, Stage.uncounted] using hafter
    · exact h.quiet (t := s) hi rfl rfl rfl (fun _ => rfl) rfl nofun
  | saveThread identity threadId =>
    dsimp only [Outbox.stageStep]
    unfold Outbox.updateOwner
    split
    · exact h.saveThread hi
    · exact h.quiet (t := s) hi rfl rfl rfl (fun _ => rfl) rfl nofun
  | invite identity threadId pair => exact h.inviteStep hi hsound
  | send identity threadId =>
    dsimp only [Outbox.stageStep]
    unfold Outbox.sendStep
    refine h.call (t := s.record _) hi rfl rfl rfl row.body rfl rfl rfl ?_ ?_
    · split
      · rfl
      · rfl
    · split
      · rfl
      · rfl
  | saveHandle identity handle =>
    rcases identity with _ | identity
    · dsimp only [Outbox.stageStep]
      exact h.updateClaimed hi rfl outcome _
    have hsound : outcome.succeeds := hsound
    dsimp only [Outbox.stageStep]
    rw [if_pos hsound]
    refine h.stay (t := s.updateRow row.id _) hi SameIdentity.self (map_id' _).symm (fun _ => rfl) rfl rfl
      (fun _ => rfl) ?_ ?_
    · exact fun _ hbefore => hbefore
    · exact fun _ hafter => hafter
  | count identity =>
    dsimp only [Outbox.stageStep]
    unfold Outbox.updateOwner
    rw [hsound.1, hsound.2, Bool.and_true, if_pos rfl]
    exact h.count hi
  | recover =>
    dsimp only [Outbox.stageStep]
    unfold Outbox.recoverStep
    split
    · exact h.quiet (t := s) hi rfl rfl rfl (fun _ => rfl) rfl nofun
    dsimp only
    split
    · exact h.quiet (t := s.updateRow row.id _) hi rfl rfl rfl (fun _ => rfl) rfl nofun
    · exact h.quiet (t := s.updateRow row.id _) hi rfl rfl rfl (fun _ => rfl) rfl nofun

theorem CapOk.idle (hi : s.drains[i]? = some drain) (hbefore : ∀ id, drain.uncounted id = false)
    (hafter : ∀ id, drain'.inFlight id = false) : CapOk { s with drains := s.drains.set i drain' } := by
  refine h.stay (t := s) hi SameIdentity.self (map_id' _).symm (fun _ => rfl) rfl rfl (fun _ => rfl) ?_ ?_
  · intro id huncounted
    rw [hbefore] at huncounted
    cases huncounted
  · intro id hflight
    rw [hafter] at hflight
    cases hflight

end

theorem inFlight_firstStage (pending : List Outbound) (row : Outbound) (id : ℕ) :
    (Drain.mk pending (.claimed row (firstStage row))).inFlight id = false := by
  unfold firstStage
  split
  · split
    · rfl
    · rfl
  · split
    · rfl
    · rfl

theorem CapOk.claimStep (h : CapOk s) (hi : s.drains[i]? = some ⟨pending, .next⟩)
    (outcome : Outcome) (rest : List Outbound) :
    CapOk { (s.claimStep row outcome).1 with
      drains := (s.claimStep row outcome).1.drains.set i ⟨rest, (s.claimStep row outcome).2⟩ } := by
  unfold Outbox.claimStep
  split
  · exact h.idle hi (fun _ => rfl) fun _ => rfl
  split
  · refine h.stay (t := s.updateRow row.id _) hi SameIdentity.self (map_id' _).symm (fun _ => rfl) rfl rfl
      (fun _ => rfl) nofun ?_
    intro id hflight
    rw [inFlight_firstStage] at hflight
    cases hflight
  · exact h.idle hi (fun _ => rfl) fun _ => rfl

theorem CapOk.step (h : CapOk s) (hsound : Sound s (.step i outcome)) : CapOk (s.step i outcome) := by
  unfold Outbox.step
  dsimp only [Sound] at hsound
  rcases hi : s.drains[i]? with _ | drain
  · exact h
  rw [hi] at hsound
  obtain ⟨pending, phase⟩ := drain
  dsimp only at hsound ⊢
  unfold Outbox.drainStep
  cases phase with
  | next =>
    cases pending with
    | nil => exact h.idle hi (fun _ => rfl) fun _ => rfl
    | cons row rest => exact h.claimStep hi outcome rest
  | claimed row stage => exact h.stageStep hi hsound
  | enqueue retryAt =>
    dsimp only
    split
    · exact h.idle hi (fun _ => rfl) fun _ => rfl
    · exact h.idle hi (fun _ => rfl) fun _ => rfl
  | done => exact h.idle hi (fun _ => rfl) fun _ => rfl

end

/-! ### Other operations -/

theorem CapOk.of_same (h : CapOk s) (hidentities : t.identities = s.identities)
    (hnext : t.nextIdentityId = s.nextIdentityId) (hdrains : t.drains = s.drains)
    (hlog : t.log = s.log) : CapOk t := by
  constructor
  · rw [hidentities]
    exact h.ids
  · rw [hidentities, hnext]
    exact h.fresh
  · rw [hdrains, hnext]
    exact h.known
  · unfold Outbox.uncounted
    rw [hidentities, hlog, hdrains]
    exact h.counted
  · unfold Outbox.inFlight
    rw [hidentities, hdrains]
    exact h.capped

theorem createMany_same (s : Outbox) (rows : List OutboundData) :
    (s.createMany rows).identities = s.identities ∧ (s.createMany rows).nextIdentityId = s.nextIdentityId ∧
      (s.createMany rows).drains = s.drains ∧ (s.createMany rows).log = s.log := by
  unfold Outbox.createMany
  induction rows generalizing s with
  | nil => exact ⟨rfl, rfl, rfl, rfl⟩
  | cons data rows ih =>
    obtain ⟨hidentities, hnext, hdrains, hlog⟩ := ih (s.createRow data)
    rw [foldl_cons, hidentities, hnext, hdrains, hlog]
    unfold Outbox.createRow
    split
    · exact ⟨rfl, rfl, rfl, rfl⟩
    · exact ⟨rfl, rfl, rfl, rfl⟩

theorem CapOk.createMany (h : CapOk s) (rows : List OutboundData) : CapOk (s.createMany rows) := by
  obtain ⟨hidentities, hnext, hdrains, hlog⟩ := createMany_same s rows
  exact h.of_same hidentities hnext hdrains hlog

theorem CapOk.startDrain (h : CapOk s) : CapOk s.startDrain := by
  have hcount : ∀ p : Drain → Bool, (∀ drain : Drain, drain.phase = .next → p drain = false) →
      s.startDrain.drains.countP p = s.drains.countP p := by
    intro p hp
    unfold Outbox.startDrain
    rw [countP_append, countP_singleton, hp _ rfl, if_neg Bool.false_ne_true]
    rfl
  constructor
  · exact h.ids
  · exact h.fresh
  · intro drain hdrain id hflight
    obtain hdrain | hdrain := mem_append.mp hdrain
    · exact h.known drain hdrain id hflight
    · obtain rfl := mem_singleton.mp hdrain
      cases hflight
  · intro identity hidentity hprovider
    unfold Outbox.uncounted
    rw [hcount _ fun drain hphase => by unfold Drain.uncounted; rw [hphase]]
    exact h.counted identity hidentity hprovider
  · intro identity hidentity hprovider
    unfold Outbox.inFlight
    rw [hcount _ fun drain hphase => by unfold Drain.inFlight; rw [hphase]]
    exact h.capped identity hidentity hprovider

theorem CapOk.received (h : CapOk s) (identityId : ℕ) {data : IdentityRow → IdentityRow}
    (hdata : SameIdentity data)
    (hcounter : ∀ identity ∈ s.identities, (data identity).outboundSinceInbound = identity.outboundSinceInbound ∨
      identity.id = identityId ∧ (data identity).outboundSinceInbound = 0) :
    CapOk { s.record (.inbound identityId) with identities := s.identities.map data } := by
  constructor
  · show ((s.identities.map data).map (·.id)).Nodup
    have hids : (s.identities.map data).map (·.id) = s.identities.map (·.id) := by
      rw [map_map]
      exact map_congr_left fun identity _ => hdata.id identity
    rw [hids]
    exact h.ids
  · intro identity hidentity
    obtain ⟨old, hold, rfl⟩ := mem_map.mp hidentity
    rw [hdata.id]
    exact h.fresh old hold
  · exact h.known
  · intro identity hidentity hprovider
    obtain ⟨old, hold, rfl⟩ := mem_map.mp hidentity
    rw [hdata.provider] at hprovider
    rw [hdata.id]
    have hcounted := h.counted old hold hprovider
    have hle := sendsSinceInbound_inbound old.id identityId s.log
    show sendsSinceInbound old.id (.inbound identityId :: s.log) ≤ (data old).outboundSinceInbound +
      s.uncounted old.id
    obtain hsame | ⟨rfl, _⟩ := hcounter old hold
    · omega
    · rw [sendsSinceInbound, if_pos rfl]
      omega
  · intro identity hidentity hprovider
    obtain ⟨old, hold, rfl⟩ := mem_map.mp hidentity
    rw [hdata.provider] at hprovider
    rw [hdata.id]
    have hcapped := h.capped old hold hprovider
    show (data old).outboundSinceInbound + s.inFlight old.id ≤ _
    obtain hsame | ⟨_, hzero⟩ := hcounter old hold
    · omega
    · omega

theorem CapOk.link (h : CapOk s) (provider address threadId : Text) : CapOk { s with
      nextIdentityId := s.nextIdentityId + 1
      identities := s.identities ++ [{ id := s.nextIdentityId, provider, address, dmThreadId := some threadId }]
      log := .inbound s.nextIdentityId :: s.log } := by
  have hnone : s.inFlight s.nextIdentityId = 0 := by
    unfold Outbox.inFlight
    rw [countP_eq_zero]
    intro drain hdrain hflight
    exact absurd (h.known drain hdrain _ hflight) (Nat.lt_irrefl _)
  constructor
  · dsimp only
    rw [map_append, nodup_append]
    refine ⟨h.ids, nodup_singleton _, ?_⟩
    intro id hid other hother heq
    obtain ⟨identity, hidentity, rfl⟩ := mem_map.mp hid
    obtain rfl := mem_singleton.mp hother
    have hlt := h.fresh identity hidentity
    dsimp only at heq
    omega
  · intro identity hidentity
    obtain hidentity | hidentity := mem_append.mp hidentity
    · exact Nat.lt_succ_of_lt (h.fresh identity hidentity)
    · obtain rfl := mem_singleton.mp hidentity
      exact Nat.lt_succ_self _
  · exact fun drain hdrain id hflight => Nat.lt_succ_of_lt (h.known drain hdrain id hflight)
  · intro identity hidentity hprovider
    obtain hidentity | hidentity := mem_append.mp hidentity
    · have hcounted := h.counted identity hidentity hprovider
      have hle := sendsSinceInbound_inbound identity.id s.nextIdentityId s.log
      show sendsSinceInbound identity.id (.inbound s.nextIdentityId :: s.log) ≤ _ + s.uncounted identity.id
      omega
    · obtain rfl := mem_singleton.mp hidentity
      rw [sendsSinceInbound, if_pos rfl]
      exact Nat.zero_le _
  · intro identity hidentity hprovider
    obtain hidentity | hidentity := mem_append.mp hidentity
    · exact h.capped identity hidentity hprovider
    · obtain rfl := mem_singleton.mp hidentity
      show 0 + s.inFlight s.nextIdentityId ≤ _
      rw [hnone]
      exact Nat.zero_le _

theorem CapOk.inbound (h : CapOk s) (provider address threadId : Text) (links succeeds : Bool) :
    CapOk (s.inbound provider address threadId links succeeds) := by
  unfold Outbox.inbound
  split
  · rename_i identity _
    split
    · have hdata : SameIdentity fun other => { other with outboundSinceInbound := 0, dmThreadId := some threadId } :=
        ⟨fun _ => rfl, fun _ => rfl⟩
      refine h.received identity.id (@sameIdentity_if identity.id _ hdata) ?_
      intro other _
      split
      · rename_i heq
        exact .inr ⟨heq, rfl⟩
      · exact .inl rfl
    · have hsame := h.received identity.id SameIdentity.self fun _ _ => .inl rfl
      rw [map_id'] at hsame
      exact hsame
  · split
    · exact h.link provider address threadId
    · exact h

theorem capOk_apply (s : Outbox) (op : Op) (h : CapOk s) (hsound : Sound s op) : CapOk (s.apply op) := by
  cases op with
  | tick | delete => exact h.of_same rfl rfl rfl rfl
  | mirror | create => exact h.createMany _
  | startDrain => exact h.startDrain
  | step i outcome => exact h.step hsound
  | inbound provider address threadId links succeeds =>
    exact h.inbound provider address threadId links succeeds
  | webhook handle status =>
    dsimp only [Outbox.apply]
    unfold Outbox.applyMessagingOutboundStatus
    split
    · exact h
    · exact h.of_same rfl rfl rfl rfl

end

/-- Every run whose steps meet the condition, after each of them. -/
theorem outbox_holds (ops : List Op) (h : Run.Meets Outbox.apply Sound newOutbox ops) :
    OutboxHolds (Run.after Outbox.apply newOutbox ops) := by
  have hrows : RowsOk (Run.after Outbox.apply newOutbox ops).rows :=
    @Run.inv_after _ _ Outbox.apply (fun s => RowsOk s.rows) rows_apply newOutbox ⟨nodup_nil, nofun⟩ ops
  have hhand := Run.inv_of_meets handOver_apply (show HandOver newOutbox from
    ⟨forall_mem_nil _, fun _ hyes => absurd hyes Bool.false_ne_true, forall_mem_nil _, .nil,
      forall_mem_nil _, forall_mem_nil _, fun _ _ _ _ _ ha => absurd (mem_of_getElem? ha) not_mem_nil⟩) h
  have hcap := Run.inv_of_meets capOk_apply (show CapOk newOutbox from
    ⟨nodup_nil, forall_mem_nil _, forall_mem_nil _, forall_mem_nil _, forall_mem_nil _⟩) h
  constructor
  · exact hhand.once
  · exact hrows.mirrored
  · intro row hrow hsent
    exact (hhand.rows row hrow).sent hsent
  · intro identity hidentity hprovider
    exact hcap.sends_le hidentity hprovider

def hello : MirrorRead :=
  { found := true, originDeviceGrant := false, trigger := lit "bot_message", sourceBlocks := .null, identityId := some 0,
    channelThreadId := none, ownerName := none,
    messages := [{
      id := lit "m1"
      blocks := .arr [.obj [(lit "kind", .str (lit "text")), (lit "text", .str (lit "hello"))]] }] }

/-- The provider takes a message, and the database then fails on the handle, or does not. The row's
next turn comes when its time has. -/
def helloRun (saves : Bool) : List Op :=
  [.inbound (lit "sendblue") (lit "+15550100") (lit "thread") true true, .mirror hello, .startDrain, .step 0 {}, .step 0 {},
    .step 0 {}, .step 0 { succeeds := saves }, .step 0 {}, .step 0 {}, .tick 2000, .startDrain, .step 1 {}, .step 1 {},
    .step 1 {}]

/-- A message that is sent and counted, and a drain after it. -/
theorem outbox_holds_hello : OutboxHolds (Run.after Outbox.apply newOutbox (helloRun true)) :=
  outbox_holds (helloRun true) (by decide +kernel)

/-- After a success the catch block makes the row pending, and the next drain sends the body
again. -/
theorem sent_again : ¬ ∀ ops, OutboxHolds (Run.after Outbox.apply newOutbox ops) := by
  intro h
  have hrepeated : ¬ NotRepeated (Run.after Outbox.apply newOutbox (helloRun false)).log := by decide +kernel
  exact hrepeated (h (helloRun false)).once

end ArdurBot.Messaging
