import ArdurBot.Devices.Pairing
import ArdurBot.Lib.History
import ArdurBot.Lib.Table

/-!
# One grant for a challenge

Both ways of pairing use up the challenge before a device is granted: the QR code in the transaction
that grants it, the short code in the one that leaves a pairing to be confirmed. So a challenge is
answered once, by a grant or a denial, and a grant is given before the challenge expires.
-/

namespace ArdurBot.Devices

open List Utf16 Bool Function
open Option hiding any any_eq_false map map_map

variable {runtime : Runtime} {s : State} {log : List Event} {hash hash' : Text} {now expiresAt : ℕ}

def Event.answered : Event → Option Text
  | .granted hash _ _ => some hash
  | .denied hash _ => some hash
  | _ => none

def Event.newGrant : Event → Option Text
  | .granted _ grantId _ => some grantId
  | _ => none

def Unanswered (log : List Event) (hash : Text) : Prop := ∀ event ∈ log, event.answered ≠ some hash

/-- A grant is the first answer to a challenge that was created and has not expired. -/
def EventOk (earlier : List Event) : Event → Prop
  | .granted hash _ now => Unanswered earlier hash ∧ (∃ expiresAt, .created hash expiresAt ∈ earlier) ∧
      ∀ expiresAt, .created hash expiresAt ∈ earlier → now < expiresAt
  | _ => True

theorem Unanswered.cons (h : Unanswered log hash) {event : Event} (hevent : event.answered ≠ some hash) :
    Unanswered (event :: log) hash := by
  intro other hother
  obtain rfl | hother := mem_cons.mp hother
  · exact hevent
  · exact h other hother

def HasRow (s : State) (hash : Text) (expiresAt : ℕ) : Prop :=
  ∃ challenge ∈ s.challenges, challenge.hash = hash ∧ challenge.expiresAt = expiresAt

def IsUsed (s : State) (hash : Text) : Prop :=
  ∃ challenge ∈ s.challenges, challenge.hash = hash ∧ challenge.usedAt ≠ none

structure PendingOk (s : State) (pending : PendingDevicePairing) : Prop where
  used : IsUsed s pending.challengeHash
  created : .created pending.challengeHash pending.expiresAt ∈ s.log
  unanswered : pending.grantId = none → pending.deniedAt = none → Unanswered s.log pending.challengeHash

/-- An exchange is of a challenge that was created for its instance. -/
def ExchangeOk (s : State) (instanceId : Text) (exchange : Exchange) : Prop :=
  ∃ challenge ∈ s.challenges, challenge.hash = exchange.challenge.hash ∧
    challenge.owner.instanceId = instanceId ∧
    challenge.expiresAt = exchange.challenge.expiresAt

structure Core (s : State) : Prop where
  hashes : (s.challenges.map PairingChallenge.hash).Nodup
  created : ∀ hash expiresAt, .created hash expiresAt ∈ s.log ↔ HasRow s hash expiresAt
  answered : ∀ hash, ¬ Unanswered s.log hash → IsUsed s hash
  pendings : ∀ pending ∈ s.pendings, PendingOk s pending
  distinct : (s.pendings.map PendingDevicePairing.challengeHash).Nodup
  ids : (s.pendings.map PendingDevicePairing.id).Nodup
  history : History.Ok EventOk s.log
  grants : s.grants.map DeviceGrant.id = s.log.filterMap Event.newGrant
  exchanging : ∀ instanceId exchange, s.exchanging instanceId = some exchange →
    ExchangeOk s instanceId exchange

theorem core_init : Core State.init where
  hashes := nodup_nil
  created := by simp [State.init, HasRow]
  answered hash h := absurd (forall_mem_nil _) h
  pendings _ hnone := absurd hnone not_mem_nil
  distinct := nodup_nil
  ids := nodup_nil
  history := trivial
  grants := rfl
  exchanging _ _ hnone := by cases hnone

section

variable (h : Core s)
include h

theorem Core.eq_of_hash {challenge other : PairingChallenge} (hmem : challenge ∈ s.challenges)
    (hother : other ∈ s.challenges)
    (hsame : challenge.hash = other.hash) : challenge = other := Table.eq_of_key h.hashes hmem hother hsame

section

variable {challenge : PairingChallenge} (hmem : challenge ∈ s.challenges)
include hmem

theorem Core.unanswered_of_open (hopen : challenge.usedAt = none) :
    Unanswered s.log challenge.hash ∧ ∀ pending ∈ s.pendings, pending.challengeHash ≠ challenge.hash := by
  have hunused : ¬ IsUsed s challenge.hash := by
    rintro ⟨other, hother, hsame, hused⟩
    rw [h.eq_of_hash hother hmem hsame] at hused
    exact hused hopen
  refine ⟨?_, fun pending hpending hsame => hunused (hsame ▸ (h.pendings pending hpending).used)⟩
  by_contra hanswered
  exact hunused (h.answered challenge.hash hanswered)

theorem Core.created_eq :
    .created challenge.hash challenge.expiresAt ∈ s.log ∧
      ∀ expiresAt, .created challenge.hash expiresAt ∈ s.log → expiresAt = challenge.expiresAt := by
  refine ⟨(h.created _ _).mpr ⟨challenge, hmem, rfl, rfl⟩, fun expiresAt hcreated => ?_⟩
  obtain ⟨other, hother, hsame, hexpires⟩ := (h.created _ _).mp hcreated
  rw [← hexpires, h.eq_of_hash hother hmem hsame]

end

end

variable {challenge : PairingChallenge} {event : Event}
  {update : PendingDevicePairing → PendingDevicePairing} {pending : PendingDevicePairing}

theorem mem_claim : challenge ∈ (s.claim hash now).challenges ↔
    ∃ old ∈ s.challenges, challenge = if old.hash = hash then { old with usedAt := some now } else old := by
  unfold State.claim
  rw [List.mem_map]
  exact exists_congr fun old => and_congr_right fun _ => eq_comm

theorem hasRow_claim : HasRow (s.claim hash now) hash' expiresAt ↔ HasRow s hash' expiresAt := by
  constructor
  · rintro ⟨challenge, hmem, rfl, rfl⟩
    obtain ⟨old, hold, rfl⟩ := mem_claim.mp hmem
    refine ⟨old, hold, ?_, ?_⟩ <;> split <;> rfl
  · rintro ⟨old, hold, rfl, rfl⟩
    refine ⟨_, mem_claim.mpr ⟨old, hold, rfl⟩, ?_, ?_⟩ <;> split <;> rfl

theorem isUsed_claim_of (h : IsUsed s hash') : IsUsed (s.claim hash now) hash' := by
  obtain ⟨old, hold, rfl, hused⟩ := h
  refine ⟨_, mem_claim.mpr ⟨old, hold, rfl⟩, ?_, ?_⟩
  · split <;> rfl
  · split
    · exact some_ne_none now
    · exact hused

theorem isUsed_claim (h : challenge ∈ s.challenges) : IsUsed (s.claim challenge.hash now) challenge.hash := by
  refine ⟨{ challenge with usedAt := some now }, mem_claim.mpr ⟨challenge, h, (if_pos rfl).symm⟩, rfl, ?_⟩
  exact some_ne_none now

theorem hashes_claim :
    (s.claim hash now).challenges.map PairingChallenge.hash =
    s.challenges.map PairingChallenge.hash := by
  unfold State.claim
  rw [map_map]
  refine map_congr_left fun challenge _ => ?_
  rw [comp_apply]
  split <;> rfl

theorem Core.claim (h : Core s) (hash : Text) (now : ℕ) : Core (s.claim hash now) where
  hashes := by
    rw [hashes_claim]
    exact h.hashes
  created hash expiresAt := (h.created hash expiresAt).trans hasRow_claim.symm
  answered hash hanswered := isUsed_claim_of (h.answered hash hanswered)
  pendings pending hpending :=
    ⟨isUsed_claim_of (h.pendings pending hpending).used, (h.pendings pending hpending).created,
      (h.pendings pending hpending).unanswered⟩
  __ := h
  exchanging instanceId exchange hexchange := by
    obtain ⟨challenge, hmem, hchallenge⟩ := h.exchanging instanceId exchange hexchange
    refine ⟨_, mem_claim.mpr ⟨challenge, hmem, rfl⟩, ?_⟩
    split <;> exact hchallenge

/-- An event that neither creates nor answers. -/
def Event.IsPlain (event : Event) : Prop :=
  event.answered = none ∧ ∀ hash expiresAt, event ≠ .created hash expiresAt

theorem Event.IsPlain.newGrant (h : event.IsPlain) : event.newGrant = none := by
  cases event <;> first | rfl | cases h.1

theorem Event.IsPlain.ok (h : event.IsPlain) (earlier : List Event) : EventOk earlier event := by
  cases event <;> first | trivial | cases h.1

theorem unanswered_cons_iff (hevent : event.answered = none) :
    Unanswered (event :: log) hash ↔ Unanswered log hash := by
  unfold Unanswered
  rw [forall_mem_cons, hevent]
  simp

theorem Core.record (h : Core s) (hplain : event.IsPlain) : Core (s.record event) where
  hashes := h.hashes
  created hash expiresAt := by
    refine Iff.trans ?_ (h.created hash expiresAt)
    exact mem_cons.trans (or_iff_right fun heq => hplain.2 hash expiresAt heq.symm)
  answered hash hanswered := h.answered hash fun hunanswered =>
    hanswered ((unanswered_cons_iff hplain.1).mpr hunanswered)
  pendings pending hpending :=
    ⟨(h.pendings pending hpending).used, mem_cons_of_mem _ (h.pendings pending hpending).created,
      fun hgrant hdenied =>
        (unanswered_cons_iff hplain.1).mpr
        ((h.pendings pending hpending).unanswered hgrant hdenied)⟩
  __ := h
  history := ⟨hplain.ok s.log, h.history⟩
  grants := by
    have hlog : (s.record event).log = event :: s.log := rfl
    rw [hlog, filterMap_cons, hplain.newGrant]
    exact h.grants

/-- No pairing that waits for an answer is of the challenge. -/
def NoneWaits (s : State) (hash : Text) : Prop :=
  ∀ pending ∈ s.pendings, pending.grantId = none → pending.deniedAt = none → pending.challengeHash ≠ hash

section

variable (h : Core s)
include h

theorem Core.answer (hanswers : event.answered = some hash) (hused : IsUsed s hash)
    (hok : EventOk s.log event) (hwaits : NoneWaits s hash) {grants : List DeviceGrant}
    (hgrants : grants.map DeviceGrant.id = (event :: s.log).filterMap Event.newGrant) :
    Core { s with grants, log := event :: s.log } where
  hashes := h.hashes
  created hash' expiresAt := by
    refine Iff.trans ?_ (h.created hash' expiresAt)
    refine mem_cons.trans (or_iff_right fun heq => ?_)
    rw [← heq] at hanswers
    cases hanswers
  answered hash' hanswered := by
    by_cases hsame : hash = hash'
    · exact hsame ▸ hused
    · refine h.answered hash' fun hunanswered => hanswered (hunanswered.cons ?_)
      rw [hanswers]
      exact fun heq => hsame (some.inj heq)
  pendings pending hpending := by
    refine ⟨(h.pendings pending hpending).used, mem_cons_of_mem _ (h.pendings pending hpending).created,
      fun hgrant hdenied => ((h.pendings pending hpending).unanswered hgrant hdenied).cons ?_⟩
    rw [hanswers]
    exact fun heq => hwaits pending hpending hgrant hdenied (some.inj heq).symm
  __ := h
  history := ⟨hok, h.history⟩
  grants := hgrants

theorem Core.addGrant (hused : IsUsed s hash) (hwaits : NoneWaits s hash) {grant : DeviceGrant}
    (hok : EventOk s.log (.granted hash grant.id now)) : Core (s.addGrant hash grant now) := by
  refine h.answer rfl hused hok hwaits ?_
  rw [map_cons, h.grants]
  rfl

theorem Core.updatePending (id : Text)
    (hsame : ∀ pending, (update pending).id = pending.id ∧ (update pending).challengeHash = pending.challengeHash ∧
      (update pending).expiresAt = pending.expiresAt)
    (hanswered : ∀ pending, (update pending).grantId = none → (update pending).deniedAt = none →
      pending.grantId = none ∧ pending.deniedAt = none) : Core (s.updatePending id update) := by
  have hkeep : ∀ {α : Type} (f : PendingDevicePairing → α), (∀ pending, f (update pending) = f pending) →
      (s.updatePending id update).pendings.map f = s.pendings.map f := by
    intro α f hf
    unfold State.updatePending
    rw [map_map]
    refine map_congr_left fun pending _ => ?_
    rw [comp_apply]
    split
    · exact hf pending
    · rfl
  refine
    { hashes := h.hashes, created := h.created, answered := h.answered, pendings := ?_, distinct := ?_, ids := ?_
      history := h.history, grants := h.grants, exchanging := h.exchanging }
  · intro pending hpending
    obtain ⟨old, hold, rfl⟩ := mem_map.mp hpending
    have hok := h.pendings old hold
    split
    · refine ⟨?_, ?_, fun hgrant hdenied => ?_⟩
      · rw [(hsame old).2.1]
        exact hok.used
      · rw [(hsame old).2.1, (hsame old).2.2]
        exact hok.created
      · obtain ⟨hgrant', hdenied'⟩ := hanswered old hgrant hdenied
        rw [(hsame old).2.1]
        exact hok.unanswered hgrant' hdenied'
    · exact { hok with }
  · rw [hkeep _ fun pending => (hsame pending).2.1]
    exact h.distinct
  · rw [hkeep _ fun pending => (hsame pending).1]
    exact h.ids

theorem Core.noneWaits (hmem : pending ∈ s.pendings)
    (hanswered : ∀ pending, (update pending).grantId ≠ none ∨ (update pending).deniedAt ≠ none) :
    NoneWaits (s.updatePending pending.id update) pending.challengeHash := by
  intro other hother hgrant hdenied hsame
  obtain ⟨old, hold, rfl⟩ := mem_map.mp hother
  split at hgrant
  · next hid =>
    rw [if_pos hid] at hdenied
    obtain hgranted | hdenied' := hanswered old
    · exact hgranted hgrant
    · exact hdenied' hdenied
  · next hid =>
    rw [if_neg hid] at hsame
    have heq : old = pending := inj_on_of_nodup_map h.distinct hold hmem hsame
    exact hid (congrArg PendingDevicePairing.id heq)

theorem core_start (owner : Owner) (challenge shortCode : Text) (now : ℕ) :
    Core (s.start runtime owner challenge shortCode now) := by
  unfold State.start
  dsimp only
  split
  · exact h
  · next hnew =>
    rw [not_eq_true, any_eq_false] at hnew
    have hfresh : ∀ other ∈ s.challenges, other.hash ≠ runtime.deviceDigest challenge := by
      intro other hother heq
      exact hnew other hother (by rw [decide_eq_true heq, Bool.true_or])
    have hmono : ∀ (row : PairingChallenge) {hash}, IsUsed s hash →
        ∃ other ∈ row :: s.challenges, other.hash = hash ∧ other.usedAt ≠ none :=
      fun _ _ ⟨other, hother, hsame⟩ => ⟨other, mem_cons_of_mem _ hother, hsame⟩
    refine
      { hashes := ?_, created := ?_, answered := ?_, pendings := ?_, distinct := h.distinct, ids := h.ids
        history := ⟨trivial, h.history⟩, grants := h.grants, exchanging := ?_ }
    · exact Table.nodup_cons h.hashes hfresh
    · intro hash expiresAt
      constructor
      · intro hmem
        obtain heq | hmem := mem_cons.mp hmem
        · cases heq
          exact ⟨_, mem_cons_self, rfl, rfl⟩
        · obtain ⟨other, hother, hsame⟩ := (h.created hash expiresAt).mp hmem
          exact ⟨other, mem_cons_of_mem _ hother, hsame⟩
      · rintro ⟨other, hother, rfl, rfl⟩
        obtain rfl | hother := mem_cons.mp hother
        · exact mem_cons_self
        · exact mem_cons_of_mem _ ((h.created _ _).mpr ⟨other, hother, rfl, rfl⟩)
    · exact fun hash hanswered => hmono _ (h.answered hash fun hunanswered => hanswered (hunanswered.cons nofun))
    · intro pending hpending
      have hok := h.pendings pending hpending
      exact ⟨hmono _ hok.used, mem_cons_of_mem _ hok.created,
        fun hgrant hdenied => (hok.unanswered hgrant hdenied).cons nofun⟩
    · intro instanceId exchange hexchange
      obtain ⟨other, hother, hsame⟩ := h.exchanging instanceId exchange hexchange
      exact ⟨other, mem_cons_of_mem _ hother, hsame⟩

theorem Core.grantOk (hmem : challenge ∈ s.challenges) (hopen : challenge.isOpen now) :
    Unanswered s.log challenge.hash ∧ (∃ expiresAt, .created challenge.hash expiresAt ∈ s.log) ∧
      ∀ expiresAt, .created challenge.hash expiresAt ∈ s.log → now < expiresAt := by
  unfold PairingChallenge.isOpen at hopen
  rw [and_eq_true, decide_eq_true_iff, decide_eq_true_iff] at hopen
  obtain ⟨hcreated, honly⟩ := h.created_eq hmem
  refine ⟨(h.unanswered_of_open hmem hopen.1).1, ⟨_, hcreated⟩, fun expiresAt hexpires => ?_⟩
  rw [honly expiresAt hexpires]
  exact hopen.2

theorem core_complete (instanceId : Text) (input : PairDeviceInput) (requireTrusted : Option Bool)
    (grantId : Text) (now : ℕ) : Core (s.complete runtime instanceId input requireTrusted grantId now) := by
  unfold State.complete
  split
  · split
    · exact h
    · next challenge hfound =>
      have hmem := mem_of_find?_eq_some hfound
      have hkeys := find?_some hfound
      simp only [and_eq_true, decide_eq_true_eq] at hkeys
      have hopen : challenge.isOpen now := hkeys.2
      obtain ⟨hunanswered, ⟨expiresAt, hcreated⟩, hexpires⟩ := h.grantOk hmem hopen
      have hused : challenge.usedAt = none := by
        unfold PairingChallenge.isOpen at hopen
        exact of_decide_eq_true (and_eq_true_iff.mp hopen).1
      have hnone := (h.unanswered_of_open hmem hused).2
      have hplain : Event.IsPlain (.scanned instanceId now) := ⟨rfl, nofun⟩
      split
      · exact h
      · refine ((h.claim challenge.hash now).record hplain).addGrant (isUsed_claim hmem) ?_ ?_
        · exact fun pending hpending _ _ => hnone pending hpending
        · refine ⟨hunanswered.cons nofun, ⟨expiresAt, mem_cons_of_mem _ hcreated⟩, fun other hother => ?_⟩
          obtain heq | hother := mem_cons.mp hother
          · cases heq
          · exact hexpires other hother
  · exact h

theorem core_fail (instanceId : Text) (now : ℕ) : Core (s.fail instanceId now) := by
  have hrecord : Core (s.record (.failed instanceId now)) := h.record ⟨rfl, nofun⟩
  exact
    { hashes := hrecord.hashes, created := hrecord.created, answered := hrecord.answered,
      pendings := fun pending hpending =>
        ⟨(hrecord.pendings pending hpending).used, (hrecord.pendings pending hpending).created,
          (hrecord.pendings pending hpending).unanswered⟩
      distinct := hrecord.distinct, ids := hrecord.ids, history := hrecord.history, grants := hrecord.grants
      exchanging := hrecord.exchanging }

section

variable (throttle : Text → PairingThrottle) (instanceId : Text)

theorem Core.throttled {exchanging : Option Exchange}
    (hok : ∀ exchange, exchanging = some exchange → ExchangeOk s instanceId exchange) :
    Core { s with throttle, exchanging := Function.update s.exchanging instanceId exchanging } where
  __ := h
  pendings pending hpending :=
    ⟨(h.pendings pending hpending).used, (h.pendings pending hpending).created,
      (h.pendings pending hpending).unanswered⟩
  exchanging other exchange hexchange := by
    dsimp only at hexchange
    by_cases hsame : other = instanceId
    · rw [hsame, update_self] at hexchange
      exact hsame ▸ hok exchange hexchange
    · rw [update_of_ne hsame] at hexchange
      exact h.exchanging other exchange hexchange

theorem Core.released :
    Core { s with throttle, exchanging := Function.update s.exchanging instanceId none } :=
  h.throttled throttle instanceId fun _ hnone => absurd hnone.symm (some_ne_none _)

end

theorem core_request (instanceId : Text) (input : PairDeviceInput) (now : ℕ) :
    Core (s.request runtime instanceId input now) := by
  unfold State.request
  split
  · exact h
  · split
    · exact core_fail h instanceId now
    · next challenge hfound =>
      split
      · have hmem := mem_of_find?_eq_some hfound
        have hkeys := find?_some hfound
        simp only [and_eq_true, decide_eq_true_eq] at hkeys
        refine h.throttled s.throttle instanceId fun exchange hexchange => ?_
        cases hexchange
        exact ⟨challenge, hmem, rfl, hkeys.1.2, rfl⟩
      · exact core_fail h instanceId now

theorem Core.addPending (hok : PendingOk s pending)
    (hdistinct : ∀ other ∈ s.pendings, other.challengeHash ≠ pending.challengeHash)
    (hfresh : ∀ other ∈ s.pendings, other.id ≠ pending.id) :
    Core { s with pendings := pending :: s.pendings } where
  __ := h
  pendings other hother := by
    obtain rfl | hother := mem_cons.mp hother
    · exact { hok with }
    · have hother := h.pendings other hother
      exact { hother with }
  distinct := Table.nodup_cons h.distinct hdistinct
  ids := Table.nodup_cons h.ids hfresh

theorem core_settle (instanceId pendingId : Text) (hfresh : s.isFresh (.settle instanceId pendingId)) :
    Core (s.settle instanceId pendingId) := by
  unfold State.settle
  split
  · exact h
  · next exchange hexchange =>
    dsimp only
    split
    · next hopen =>
      obtain ⟨challenge, hmem, hchallenge⟩ := any_eq_true.mp hopen
      rw [and_eq_true, decide_eq_true_iff] at hchallenge
      obtain ⟨hsame, hopen⟩ := hchallenge
      have hunused : challenge.usedAt = none := by
        unfold PairingChallenge.isOpen at hopen
        exact of_decide_eq_true (and_eq_true_iff.mp hopen).1
      obtain ⟨hunanswered, hnone⟩ := h.unanswered_of_open hmem hunused
      obtain ⟨row, hrow, hhash, -, hexpires⟩ := h.exchanging instanceId exchange hexchange
      have hplain : Event.IsPlain (.exchanged instanceId exchange.now) := ⟨rfl, nofun⟩
      have hclaimed := ((h.released (Function.update s.throttle instanceId ⟨0, none⟩) instanceId).claim
        exchange.challenge.hash exchange.now).record hplain
      refine hclaimed.addPending ⟨?_, ?_, fun _ _ => ?_⟩ ?_ ?_
      · rw [← hsame]
        exact isUsed_claim hmem
      · refine mem_cons_of_mem _ ((h.created _ _).mpr ⟨row, hrow, hhash, hexpires⟩)
      · rw [← hsame]
        exact hunanswered.cons nofun
      · rw [← hsame]
        exact hnone
      · intro other hother
        exact of_decide_eq_true (all_eq_true.mp hfresh other hother)
    · exact (h.released s.throttle instanceId).record ⟨rfl, nofun⟩

theorem core_confirm (userId spaceId id : Text) (allow : Bool) (grantId : Text) (now : ℕ) :
    Core (s.confirm userId spaceId id allow grantId now) := by
  unfold State.confirm
  split
  · exact h
  · next pending hfound =>
    have hmem := mem_of_find?_eq_some hfound
    have hkeys := find?_some hfound
    simp only [and_eq_true, decide_eq_true_eq] at hkeys
    obtain ⟨⟨⟨⟨⟨hid, -⟩, -⟩, hgrant⟩, hdenied⟩, hexpires⟩ := hkeys
    subst hid
    have hok := h.pendings pending hmem
    have hunanswered := hok.unanswered hgrant hdenied
    obtain ⟨challenge, hchallenge, hhash, hexpiresAt⟩ := (h.created _ _).mp hok.created
    have honly : ∀ expiresAt, .created pending.challengeHash expiresAt ∈ s.log → now < expiresAt := by
      intro expiresAt hcreated
      rw [← hhash] at hcreated
      rw [(h.created_eq hchallenge).2 expiresAt hcreated, hexpiresAt]
      exact hexpires
    split
    · refine (h.updatePending pending.id ?_ ?_).addGrant hok.used (h.noneWaits hmem ?_) ?_
      · exact fun _ => ⟨rfl, rfl, rfl⟩
      · exact fun other hnone => absurd hnone (some_ne_none grantId)
      · exact fun _ => .inl (some_ne_none grantId)
      · exact ⟨hunanswered, ⟨_, hok.created⟩, honly⟩
    · have hdeny : EventOk s.log (.denied pending.challengeHash now) := trivial
      refine (h.updatePending pending.id ?_ ?_).answer rfl hok.used hdeny (h.noneWaits hmem ?_) h.grants
      · exact fun _ => ⟨rfl, rfl, rfl⟩
      · exact fun other _ hnone => absurd hnone (some_ne_none now)
      · exact fun _ => .inr (some_ne_none now)

theorem core_step (op : Op) : Core (step runtime s op) := by
  unfold step
  split
  · next hfresh =>
    cases op with
    | start owner challenge shortCode now => exact core_start h owner challenge shortCode now
    | complete instanceId input requireTrusted grantId now =>
      exact core_complete h instanceId input requireTrusted grantId now
    | request instanceId input now => exact core_request h instanceId input now
    | settle instanceId pendingId => exact core_settle h instanceId pendingId hfresh
    | confirm userId spaceId id allow grantId now => exact core_confirm h userId spaceId id allow grantId now
  · exact h

end

theorem core_after (runtime : Runtime) (ops : List Op) : Core (after runtime ops) := by
  have hstep : ∀ s op, Core s → Core (step runtime s op) := fun _ op h => core_step h op
  exact Run.inv_after hstep core_init ops

end ArdurBot.Devices
