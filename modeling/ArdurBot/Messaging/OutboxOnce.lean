import ArdurBot.Messaging.Outbox

/-!
# One drain for a row

A row that was claimed belongs to the drain that claimed it until the drain has written what came of
it. While it does, no other drain claims the row, and once the provider took the body no drain has
the row before its hand-over.
-/

namespace ArdurBot.Messaging

open List Utf16
open Bool
open Option hiding map map_map

variable {s t : Outbox} {drain drain' : Drain} {i : ℕ}

@[simp] theorem accepted_call (rowId id : ℕ) (identityId : Option ℕ) (body : Text) (ok : Bool)
    (log : List Event) :
    accepted (.call id identityId body ok :: log) rowId = (ok && decide (id = rowId) || accepted log rowId) := by
  cases ok
  · rfl
  · rfl

variable {log log' : List Event} {rows : List Outbound} {data : Outbound → Outbound}
  {unknown : List ℕ} {drains : List Drain} {j : ℕ} {new other : Drain} {id : ℕ}

theorem NotRepeated.call (h : NotRepeated log) (hid : accepted log id = false)
    (identityId : Option ℕ) (body : Text)
    (ok : Bool) : NotRepeated (.call id identityId body ok :: log) := by
  refine pairwise_cons.mpr ⟨?_, h⟩
  intro earlier hearlier
  split
  · rename_i hlater
    cases hlater
    rintro rfl
    have hno := any_eq_false.mp hid _ hearlier
    simp at hno
  · trivial

theorem NotRepeated.inbound (h : NotRepeated log) (identityId : ℕ) :
    NotRepeated (.inbound identityId :: log) := by
  refine pairwise_cons.mpr ⟨?_, h⟩
  intro earlier _
  trivial

/-! ### Keys -/

/-- The key of a row is its own, and tells the message that it is a copy of. -/
structure RowsOk (rows : List Outbound) : Prop where
  keys : (rows.map (·.idempotencyKey)).Nodup
  source : ∀ row ∈ rows, ∀ messageId, row.sourceMessageId = some messageId → row.idempotencyKey =
    messageKey messageId

structure SameRow (data : Outbound → Outbound) : Prop where
  id : ∀ row, (data row).id = row.id
  key : ∀ row, (data row).idempotencyKey = row.idempotencyKey
  source : ∀ row, (data row).sourceMessageId = row.sourceMessageId

theorem RowsOk.map (h : RowsOk rows) (hdata : SameRow data) : RowsOk (rows.map data) where
  keys := by
    have hkeys : (rows.map data).map (·.idempotencyKey) = rows.map (·.idempotencyKey) := by
      rw [map_map]
      exact map_congr_left fun row _ => hdata.key row
    rw [hkeys]
    exact h.keys
  source := by
    intro row hrow messageId hsource
    obtain ⟨old, hold, rfl⟩ := mem_map.mp hrow
    rw [hdata.source] at hsource
    rw [hdata.key]
    exact h.source old hold messageId hsource

theorem sameRow_if {data : Outbound → Outbound} (hdata : SameRow data) :
    SameRow fun row => if row.id = id then data row else row := by
  constructor
  all_goals
    intro row
    split
  · exact hdata.id row
  · rfl
  · exact hdata.key row
  · rfl
  · exact hdata.source row
  · rfl

theorem RowsOk.updateRow (h : RowsOk s.rows) (id : ℕ) (hdata : SameRow data) :
    RowsOk (s.updateRow id data).rows := h.map (sameRow_if hdata)

theorem RowsOk.mirrored (h : RowsOk rows) (messageId : Text) :
    (rows.countP fun row => row.sourceMessageId = some messageId) ≤ 1 := by
  obtain ⟨hkeys, hsource⟩ := h
  induction rows with
  | nil => exact Nat.zero_le 1
  | cons row rows ih =>
    rw [map_cons, nodup_cons] at hkeys
    have hrest := ih hkeys.2 fun row hrow => hsource row (mem_cons_of_mem _ hrow)
    rw [countP_cons]
    split
    · rename_i hrow
      have hkey := hsource row mem_cons_self messageId (of_decide_eq_true hrow)
      have hzero : (rows.countP fun row => row.sourceMessageId = some messageId) = 0 := by
        rw [countP_eq_zero]
        intro other hother
        rw [decide_eq_true_eq]
        intro hsame
        apply hkeys.1
        rw [hkey, ← hsource other (mem_cons_of_mem _ hother) messageId hsame]
        exact mem_map_of_mem hother
      omega
    · omega

theorem RowsOk.createRow (h : RowsOk s.rows) {data : OutboundData}
    (hdata : ∀ messageId, data.sourceMessageId = some messageId → data.idempotencyKey = messageKey messageId) :
    RowsOk (s.createRow data).rows := by
  unfold Outbox.createRow
  split
  · exact h
  rename_i hfresh
  constructor
  · dsimp only
    rw [map_append, nodup_append]
    refine ⟨h.keys, nodup_singleton _, ?_⟩
    intro key hkey other hother heq
    obtain ⟨row, hrow, rfl⟩ := mem_map.mp hkey
    obtain rfl := mem_singleton.mp hother
    exact hfresh (any_eq_true.mpr ⟨row, hrow, decide_eq_true heq⟩)
  · intro row hrow messageId hsource
    obtain hrow | hrow := mem_append.mp hrow
    · exact h.source row hrow messageId hsource
    · obtain rfl := mem_singleton.mp hrow
      exact hdata messageId hsource

theorem RowsOk.createMany {rows : List OutboundData} (h : RowsOk s.rows)
    (hdata : ∀ row ∈ rows, ∀ messageId, row.sourceMessageId = some messageId →
      row.idempotencyKey = messageKey messageId) : RowsOk (s.createMany rows).rows := by
  unfold Outbox.createMany
  induction rows generalizing s with
  | nil => exact h
  | cons data rows ih =>
    exact ih (h.createRow (hdata data mem_cons_self)) fun row hrow => hdata row (mem_cons_of_mem _ hrow)

theorem key_mirrorRun {read : MirrorRead} {row : OutboundData} (h : row ∈ mirrorRun read) {messageId : Text}
    (hsource : row.sourceMessageId = some messageId) : row.idempotencyKey = messageKey messageId := by
  unfold mirrorRun at h
  split at h
  · cases h
  split at h
  · unfold mirrorChannelRun at h
    split at h
    · split at h
      · cases h
      · obtain ⟨message, _, rfl⟩ := mem_map.mp h
        obtain rfl := some.inj hsource
        rfl
    · cases h
  split at h
  · split at h
    · obtain ⟨message, _, rfl⟩ := mem_map.mp (mem_filter.mp h).1
      obtain rfl := some.inj hsource
      rfl
    · cases h
  · cases h

/-! ### Rows that a step of a drain writes -/

section

variable (h : RowsOk s.rows) (row : Outbound)
include h

theorem rows_sendConnectInvite (identityId : ℕ) (outcome : Outcome) :
    RowsOk (s.sendConnectInvite row identityId outcome).1.rows := by
  unfold Outbox.sendConnectInvite
  split
  · exact h
  split
  · split
    · exact h.updateRow _ ⟨fun _ => rfl, fun _ => rfl, fun _ => rfl⟩
    · exact h
  split
  · exact h
  split
  · exact RowsOk.updateRow (s := s.record _) h _ ⟨fun _ => rfl, fun _ => rfl, fun _ => rfl⟩
  · exact h

theorem rows_updateClaimed (outcome : Outcome) (hdata : SameRow data) :
    RowsOk (s.updateClaimed row outcome data).1.rows := by
  unfold Outbox.updateClaimed
  split
  · exact h.updateRow _ hdata
  · exact h

theorem rows_updateOwner (identity : IdentityRow) (outcome : Outcome)
    (data : IdentityRow → IdentityRow) (after : Phase) :
    RowsOk (s.updateOwner row identity outcome data after).1.rows := by
  unfold Outbox.updateOwner
  split
  · exact h
  · exact h

theorem rows_inviteStep (identity : IdentityRow) (outcome : Outcome) :
    RowsOk (s.inviteStep row identity outcome).1.rows := by
  have hrows := rows_sendConnectInvite h row identity.id outcome
  unfold Outbox.inviteStep
  split
  all_goals
    rename_i hsent
    rw [hsent] at hrows
    exact hrows

theorem rows_stageStep (outcome : Outcome) (stage : Stage) :
    RowsOk (s.stageStep row outcome stage).1.rows := by
  cases stage with
  | fail | release => exact rows_updateClaimed h row outcome ⟨fun _ => rfl, fun _ => rfl, fun _ => rfl⟩
  | lookup identityId =>
    dsimp only [Outbox.stageStep]
    split
    · split
      · exact h
      · exact h
    · exact h
  | openDirectThread | send => exact h
  | saveThread identity threadId | count identity => exact rows_updateOwner h row identity outcome _ _
  | invite identity threadId pair => exact rows_inviteStep h row identity outcome
  | saveHandle identity handle =>
    rcases identity with _ | identity
    · exact rows_updateClaimed h row outcome ⟨fun _ => rfl, fun _ => rfl, fun _ => rfl⟩
    dsimp only [Outbox.stageStep]
    split
    · exact h.updateRow _ ⟨fun _ => rfl, fun _ => rfl, fun _ => rfl⟩
    · exact h
  | recover =>
    dsimp only [Outbox.stageStep]
    unfold Outbox.recoverStep
    split
    · exact h
    dsimp only
    split
    · exact h.updateRow _ ⟨fun _ => rfl, fun _ => rfl, fun _ => rfl⟩
    · exact h.updateRow _ ⟨fun _ => rfl, fun _ => rfl, fun _ => rfl⟩

end

theorem rows_step (h : RowsOk s.rows) (i : ℕ) (outcome : Outcome) : RowsOk (s.step i outcome).rows := by
  unfold Outbox.step
  split
  · exact h
  rename_i drain _
  unfold Outbox.drainStep
  dsimp only
  split
  · split
    · exact h
    · rename_i row _ _
      unfold Outbox.claimStep
      split
      · exact h
      · split
        · exact h.updateRow row.id ⟨fun _ => rfl, fun _ => rfl, fun _ => rfl⟩
        · exact h
  · exact rows_stageStep h _ outcome _
  · exact h
  · exact h

theorem rows_apply (s : Outbox) (op : Op) (h : RowsOk s.rows) : RowsOk (s.apply op).rows := by
  cases op with
  | tick | startDrain => exact h
  | mirror read => exact h.createMany fun row hrow messageId hsource => key_mirrorRun hrow hsource
  | delete key =>
    constructor
    · exact h.keys.sublist (filter_sublist.map _)
    · exact fun row hrow => h.source row (mem_filter.mp hrow).1
  | create row =>
    refine h.createMany ?_
    intro data hdata messageId hsource
    obtain rfl := mem_singleton.mp hdata
    cases hsource
  | step i outcome => exact rows_step h i outcome
  | inbound provider address threadId links succeeds =>
    dsimp only [Outbox.apply]
    unfold Outbox.inbound
    split
    · dsimp only
      split
      · exact h
      · exact h
    · split
      · exact h
      · exact h
  | webhook handle status =>
    dsimp only [Outbox.apply]
    unfold Outbox.applyMessagingOutboundStatus
    split
    · exact h
    · apply h.map
      constructor
      all_goals
        intro row
        split
        · rfl
        · rfl

/-! ### Custody -/

/-- The provider has taken the body when these statements are reached. -/
def Stage.isAfter : Stage → Bool
  | .saveHandle _ _ => true
  | .count _ => true
  | _ => false

/-- What a drain that has a row knows: the body was taken, or the row is still as the claim left
it. -/
def DrainOk (rows : List Outbound) (log : List Event) (drain : Drain) : Prop :=
  match drain.phase with
  | .claimed row stage =>
    if stage.isAfter then accepted log row.id = true
    else accepted log row.id = false ∧ ∀ other ∈ rows, other.id = row.id → other.status = .sent
  | _ => True

/-- A row's status and handle go with what came of its body; `held` tells whether a drain has it. -/
structure RowOk (log : List Event) (unknown : List ℕ) (held : Prop) (row : Outbound) : Prop where
  handle : row.providerHandle ≠ none → accepted log row.id = true
  pending : row.status = .pending → accepted log row.id = false
  sent : row.status = .sent → accepted log row.id = true ∨ row.id ∈ unknown ∨ held

structure HandOver (s : Outbox) : Prop where
  freshRows : ∀ row ∈ s.rows, row.id < s.nextId
  freshLog : ∀ id, accepted s.log id = true → id < s.nextId
  freshDrains : ∀ drain ∈ s.drains, ∀ id, drain.row = some id → id < s.nextId
  once : NotRepeated s.log
  rows : ∀ row ∈ s.rows, RowOk s.log s.unknown (∃ drain ∈ s.drains, drain.row = some row.id) row
  drains : ∀ drain ∈ s.drains, DrainOk s.rows s.log drain
  alone : ∀ (i j : ℕ) (a b : Drain) (id : ℕ), s.drains[i]? = some a → s.drains[j]? = some b →
    a.row = some id → b.row = some id → i = j

theorem RowOk.imp {unknown' : List ℕ} {held held' : Prop} {row : Outbound} (h : RowOk log unknown held row)
    (hunknown : ∀ id ∈ unknown, id ∈ unknown') (hheld : held → held') :
    RowOk log unknown' held' row where
  __ := h
  sent := fun hsent => (h.sent hsent).imp_right (Or.imp (hunknown row.id) hheld)

theorem RowOk.of_log {held : Prop} {row : Outbound} (h : RowOk log unknown held row)
    (hlog : accepted log' row.id = accepted log row.id) :
    RowOk log' unknown held row where
  handle := fun hhandle => hlog ▸ h.handle hhandle
  pending := fun hpending => hlog ▸ h.pending hpending
  sent := fun hsent => hlog ▸ h.sent hsent

theorem mem_set_of_ne (h : drains[j]? = some other) (hne : j ≠ i) : other ∈ drains.set i new := by
  refine mem_of_getElem? (i := j) ?_
  rw [getElem?_set_ne (fun h => hne h.symm)]
  exact h

theorem mem_set_self (h : drains[i]? = some drain) (new : Drain) : new ∈ drains.set i new := by
  obtain ⟨hi, _⟩ := List.getElem?_eq_some_iff.mp h
  refine mem_of_getElem? (i := i) ?_
  rw [getElem?_set_self hi]

theorem getElem?_of_set (h : (drains.set i new)[j]? = some other) :
    (j = i ∧ other = new) ∨ (j ≠ i ∧ drains[j]? = some other) := by
  by_cases hij : i = j
  · subst hij
    left
    obtain ⟨hi, hother⟩ := List.getElem?_eq_some_iff.mp h
    rw [getElem_set_self] at hother
    exact ⟨rfl, hother.symm⟩
  · right
    rw [getElem?_set_ne hij] at h
    exact ⟨fun h => hij h.symm, h⟩

/-- What a drain knows is about the row it has. -/
theorem DrainOk.imp {rows' : List Outbound} (h : DrainOk rows log drain)
    (hlog : ∀ id, drain.row = some id → accepted log' id = accepted log id)
    (hrows : ∀ row ∈ rows', drain.row = some row.id → accepted log row.id = false →
      ∃ old ∈ rows, old.id = row.id ∧ old.status = row.status) : DrainOk rows' log' drain := by
  unfold DrainOk at h ⊢
  unfold Drain.row at hlog hrows
  split at h
  · rename_i row stage hphase
    rw [hphase] at hlog hrows
    rw [hlog row.id rfl]
    split at h
    · rename_i hafter
      rw [if_pos hafter]
      exact h
    · rename_i hafter
      rw [if_neg hafter]
      refine ⟨h.1, ?_⟩
      intro other hother hid
      obtain ⟨old, hold, hsame, hstatus⟩ := hrows other hother (congrArg some hid.symm) (hid ▸ h.1)
      rw [← hstatus]
      exact h.2 old hold (hsame.trans hid)
  · trivial

/-- A drain goes on with its row, or takes one that no drain has: what is about rows that are not
its own stays. -/
theorem HandOver.frame (h : HandOver s) (hi : s.drains[i]? = some drain) (own : Option ℕ)
    (hid : ∀ id ∈ own, id < s.nextId) (hnext : t.nextId = s.nextId) (hdrains : t.drains = s.drains)
    (hrows : ∀ row ∈ t.rows, ∃ old ∈ s.rows, old.id = row.id ∧ (own ≠ some row.id → row = old))
    (hlog : ∀ other, own ≠ some other → accepted t.log other = accepted s.log other)
    (honce : NotRepeated t.log) (hunknown : ∀ other ∈ s.unknown, other ∈ t.unknown)
    (hbefore : ∀ other, drain.row = some other → own = some other)
    (hafter : ∀ other, drain'.row = some other → own = some other)
    (halone : ∀ j other id, s.drains[j]? = some other → other.row = some id → own = some id → j = i)
    (hrow : ∀ row ∈ t.rows, own = some row.id → RowOk t.log t.unknown (drain'.row = some row.id) row)
    (hdrain : DrainOk t.rows t.log drain') : HandOver { t with drains := t.drains.set i drain' } := by
  have hothers : ∀ j other id, j ≠ i → s.drains[j]? = some other → other.row = some id → own ≠ some id :=
    fun j other id hj hother hheld hown => hj (halone j other id hother hheld hown)
  constructor
  · intro row hrow
    obtain ⟨old, hold, hsame, _⟩ := hrows row hrow
    show row.id < t.nextId
    rw [hnext, ← hsame]
    exact h.freshRows old hold
  · intro other hother
    show other < t.nextId
    rw [hnext]
    by_cases hown : own = some other
    · exact hid other hown
    · exact h.freshLog other (hlog other hown ▸ hother)
  · intro other hother held hheld
    show held < t.nextId
    rw [hnext]
    obtain ⟨j, hj⟩ := getElem?_of_mem hother
    obtain ⟨_, rfl⟩ | ⟨_, hold⟩ := getElem?_of_set hj
    · exact hid held (hafter held hheld)
    · rw [hdrains] at hold
      exact h.freshDrains other (mem_of_getElem? hold) held hheld
  · exact honce
  · intro row hmem
    dsimp only at hmem ⊢
    by_cases hown : own = some row.id
    · refine (hrow row hmem hown).imp (fun _ h => h) ?_
      intro hheld
      rw [hdrains]
      exact ⟨drain', mem_set_self hi drain', hheld⟩
    · obtain ⟨old, hold, _, hsame⟩ := hrows row hmem
      obtain rfl := hsame hown
      refine ((h.rows row hold).of_log (hlog row.id hown)).imp hunknown ?_
      rintro ⟨other, hother, hheld⟩
      obtain ⟨j, hj⟩ := getElem?_of_mem hother
      refine ⟨other, ?_, hheld⟩
      rw [hdrains]
      refine mem_set_of_ne hj ?_
      rintro rfl
      obtain rfl := some.inj (hi.symm.trans hj)
      exact hown (hbefore row.id hheld)
  · intro other hother
    obtain ⟨j, hj⟩ := getElem?_of_mem hother
    obtain ⟨_, rfl⟩ | ⟨hne, hold⟩ := getElem?_of_set hj
    · exact hdrain
    · rw [hdrains] at hold
      refine (h.drains other (mem_of_getElem? hold)).imp (fun id hheld =>
        hlog id (hothers j other id hne hold hheld)) ?_
      intro row hmem hheld _
      obtain ⟨old, hmem, hsame, heq⟩ := hrows row hmem
      exact ⟨old, hmem, hsame, congrArg Outbound.status (heq (hothers j other row.id hne hold hheld)).symm⟩
  · intro j k a b held ha hb haheld hbheld
    dsimp only at ha hb
    rw [hdrains] at ha hb
    obtain ⟨rfl, rfl⟩ | ⟨hj, hja⟩ := getElem?_of_set ha
    · obtain ⟨rfl, _⟩ | ⟨hk, hkb⟩ := getElem?_of_set hb
      · rfl
      · exact absurd (hafter held haheld) (hothers k b held hk hkb hbheld)
    · obtain ⟨rfl, rfl⟩ | ⟨hk, hkb⟩ := getElem?_of_set hb
      · exact absurd (hafter held hbheld) (hothers j a held hj hja haheld)
      · exact h.alone j k a b held hja hkb haheld hbheld

/-- A row after an update of the rows that have an id. -/
theorem mem_updateRow {data : Outbound → Outbound} {row : Outbound}
    (h : row ∈ (s.updateRow id data).rows) (hid : ∀ other, (data other).id = other.id) :
    ∃ old ∈ s.rows, old.id = row.id ∧ (row.id ≠ id → row = old) ∧ (row.id = id → row = data old) := by
  obtain ⟨old, hold, rfl⟩ := mem_map.mp h
  refine ⟨old, hold, ?_⟩
  split
  · rename_i hsame
    exact ⟨(hid old).symm, fun hne => absurd ((hid old).trans hsame) hne, fun _ => rfl⟩
  · rename_i hne
    exact ⟨rfl, fun _ => rfl, fun hsame => absurd hsame hne⟩

section

variable {row : Outbound} {stage : Stage} {pending : List Outbound} {phase : Phase}

/-- What a drain's next phase keeps of the row it has. -/
def Phase.Keeps (row : Outbound) : Phase → Prop
  | .claimed other _ => other = row
  | _ => True

theorem Phase.Keeps.eq_id (h : phase.Keeps row) (hheld : (Drain.mk pending phase).row = some id) :
    id = row.id := by
  cases phase with
  | claimed other stage =>
    obtain rfl := some.inj hheld
    exact congrArg Outbound.id h
  | next | enqueue | done => cases hheld

theorem HandOver.move (h : HandOver s) (hi : s.drains[i]? = some ⟨pending, .claimed row stage⟩)
    (hnext : t.nextId = s.nextId) (hdrains : t.drains = s.drains)
    (hrows : ∀ other ∈ t.rows, ∃ old ∈ s.rows, old.id = other.id ∧ (other.id ≠ row.id → other = old))
    (hlog : ∀ other, other ≠ row.id → accepted t.log other = accepted s.log other)
    (honce : NotRepeated t.log) (hunknown : ∀ other ∈ s.unknown, other ∈ t.unknown)
    (hphase : phase.Keeps row) (hrow : ∀ other ∈ t.rows, other.id = row.id →
      RowOk t.log t.unknown ((Drain.mk pending phase).row = some row.id) other)
    (hdrain : DrainOk t.rows t.log ⟨pending, phase⟩) :
    HandOver { t with drains := t.drains.set i ⟨pending, phase⟩ } := by
  have hown : ∀ {id}, some row.id = some id → id = row.id := fun heq => (some.inj heq).symm
  refine h.frame hi (some row.id) ?_ hnext hdrains ?_ ?_ honce hunknown (fun _ hheld => hheld) ?_ ?_ ?_ hdrain
  · rintro _ ⟨⟩
    exact h.freshDrains _ (mem_of_getElem? hi) row.id rfl
  · intro other hother
    obtain ⟨old, hold, hsame, heq⟩ := hrows other hother
    exact ⟨old, hold, hsame, fun hne => heq fun hid => hne (congrArg some hid.symm)⟩
  · exact fun other hne => hlog other fun hid => hne (congrArg some hid.symm)
  · exact fun other hheld => congrArg some (Phase.Keeps.eq_id hphase hheld).symm
  · intro j other id hj hheld heq
    exact h.alone j i other _ row.id hj hi (hown heq ▸ hheld) rfl
  · intro other hother heq
    rw [hown heq]
    exact hrow other hother (hown heq)

variable {stage' : Stage} {data : Outbound → Outbound} {outcome : Outcome}

section

variable (h : HandOver s) (hi : s.drains[i]? = some ⟨pending, .claimed row stage⟩)
include h hi

theorem HandOver.stay (hnext : t.nextId = s.nextId)
    (hdrains : t.drains = s.drains) (hrows : t.rows = s.rows) (hlog : t.log = s.log)
    (hunknown : t.unknown = s.unknown) (hstage : stage'.isAfter = stage.isAfter) :
    HandOver { t with drains := t.drains.set i ⟨pending, .claimed row stage'⟩ } := by
  have hmem := mem_of_getElem? hi
  refine h.move hi hnext hdrains ?_ ?_ (hlog ▸ h.once) (fun _ hother => hunknown ▸ hother) rfl ?_ ?_
  · rw [hrows]
    exact fun other hother => ⟨other, hother, rfl, fun _ => rfl⟩
  · rw [hlog]
    exact fun _ _ => rfl
  · rw [hrows, hlog, hunknown]
    intro other hother hid
    exact (h.rows other hother).imp (fun _ h => h) fun _ => rfl
  · rw [hrows, hlog]
    have hok := h.drains _ hmem
    unfold DrainOk at hok ⊢
    dsimp only at hok ⊢
    rw [hstage]
    exact hok

theorem HandOver.write
    (hid : ∀ other, (data other).id = other.id) (hphase : phase.Keeps row)
    (hrow : ∀ other ∈ s.rows, other.id = row.id →
      RowOk s.log s.unknown ((Drain.mk pending phase).row = some row.id) (data other))
    (hdrain : DrainOk (s.updateRow row.id data).rows s.log ⟨pending, phase⟩) :
    HandOver { s.updateRow row.id data with drains := s.drains.set i ⟨pending, phase⟩ } := by
  refine h.move (t := s.updateRow row.id data) hi rfl rfl ?_ (fun _ _ => rfl) h.once (fun _ h => h)
    hphase ?_ hdrain
  · intro other hother
    obtain ⟨old, hold, hsame, heq, _⟩ := mem_updateRow hother hid
    exact ⟨old, hold, hsame, heq⟩
  · intro other hother hsame
    obtain ⟨old, hold, heq, _, hdata⟩ := mem_updateRow hother hid
    rw [hdata hsame]
    exact hrow old hold (heq.trans hsame)

theorem HandOver.before (hstage : stage.isAfter = false) :
    accepted s.log row.id = false ∧ ∀ other ∈ s.rows, other.id = row.id → other.status = .sent := by
  have hok := h.drains _ (mem_of_getElem? hi)
  unfold DrainOk at hok
  dsimp only at hok
  rw [hstage] at hok
  exact hok

theorem HandOver.after (hstage : stage.isAfter) : accepted s.log row.id := by
  have hok := h.drains _ (mem_of_getElem? hi)
  unfold DrainOk at hok
  dsimp only at hok
  rw [hstage] at hok
  exact hok

theorem HandOver.giveBack (hstage : stage.isAfter = false) (hid : ∀ other, (data other).id = other.id)
    (hhandle : ∀ other, (data other).providerHandle = other.providerHandle)
    (hstatus : ∀ other, (data other).status ≠ .sent)
    (hphase : (Drain.mk pending phase).row = none) :
    HandOver { s.updateRow row.id data with drains := s.drains.set i ⟨pending, phase⟩ } := by
  obtain ⟨hno, _⟩ := h.before hi hstage
  refine h.write hi hid ?_ ?_ ?_
  · cases phase with
    | claimed other stage => cases hphase
    | next | enqueue | done => trivial
  · intro other hother hsame
    constructor
    · intro hne
      rw [hhandle] at hne
      rw [hid]
      exact (h.rows other hother).handle hne
    · intro _
      rw [hid, hsame]
      exact hno
    · exact fun hsent => absurd hsent (hstatus other)
  · unfold DrainOk
    cases phase with
    | claimed other stage => cases hphase
    | next | enqueue | done => trivial

theorem HandOver.saveHandle (hstage : stage.isAfter) (handle : Text) (hphase : phase.Keeps row)
    (hdrain : ∀ other stage, phase = .claimed other stage → stage.isAfter) :
    HandOver { s.updateRow row.id fun row => { row with providerHandle := some handle } with
      drains := s.drains.set i ⟨pending, phase⟩ } := by
  have hyes := h.after hi hstage
  refine h.write hi (fun _ => rfl) hphase ?_ ?_
  · intro other hother hsame
    have hother' := h.rows other hother
    constructor
    · intro _
      show accepted s.log other.id
      rw [hsame]
      exact hyes
    · exact hother'.pending
    · intro _
      left
      show accepted s.log other.id
      rw [hsame]
      exact hyes
  · unfold DrainOk
    split
    · rename_i other stage hclaimed
      dsimp only at hclaimed
      rw [if_pos (hdrain other stage hclaimed)]
      rw [hclaimed] at hphase
      rw [show other = row from hphase]
      exact hyes
    · trivial

theorem HandOver.settle (hstage : stage.isAfter) (hnext : t.nextId = s.nextId) (hdrains : t.drains = s.drains)
    (hrows : t.rows = s.rows) (hlog : t.log = s.log) (hunknown : t.unknown = s.unknown) :
    HandOver { t with drains := t.drains.set i ⟨pending, .next⟩ } := by
  have hyes := h.after hi hstage
  refine h.move hi hnext hdrains ?_ ?_ (hlog ▸ h.once) (fun _ hother => hunknown ▸ hother) trivial ?_ trivial
  · rw [hrows]
    exact fun other hother => ⟨other, hother, rfl, fun _ => rfl⟩
  · rw [hlog]
    exact fun _ _ => rfl
  · rw [hrows, hlog, hunknown]
    intro other hother hsame
    have hok := h.rows other hother
    exact ⟨hok.handle, hok.pending, fun _ => .inl (hsame ▸ hyes)⟩

section

variable (hstage : stage.isAfter = false)
include hstage

theorem HandOver.call (identityId : Option ℕ) (body : Text) {ok : Bool} (hstage' : stage'.isAfter = ok) :
    HandOver { s.record (.call row.id identityId body ok) with drains := s.drains.set i ⟨pending,
      .claimed row stage'⟩ } := by
  obtain ⟨hno, hsent⟩ := h.before hi hstage
  refine h.move (t := s.record (.call row.id identityId body ok)) hi rfl rfl ?_ ?_
    (h.once.call hno identityId body ok)
    (fun _ h => h) rfl ?_ ?_
  · exact fun other hother => ⟨other, hother, rfl, fun _ => rfl⟩
  · intro other hne
    show accepted (.call row.id identityId body ok :: s.log) other = accepted s.log other
    rw [accepted_call, decide_eq_false fun heq => hne heq.symm, Bool.and_false, Bool.false_or]
  · intro other hother hsame
    have hok := h.rows other hother
    constructor
    · intro hne
      have hyes := hok.handle hne
      rw [hsame, hno] at hyes
      cases hyes
    · intro hpending
      rw [hsent other hother hsame] at hpending
      cases hpending
    · exact fun _ => .inr (.inr rfl)
  · unfold DrainOk
    show if stage'.isAfter = true then accepted (.call row.id identityId body ok :: s.log) row.id = true
      else accepted (.call row.id identityId body ok :: s.log) row.id = false ∧ _
    rw [accepted_call, hno, decide_eq_true rfl, Bool.and_true, Bool.or_false, hstage']
    split
    · assumption
    · rename_i hfailed
      exact ⟨eq_false_iff.mpr hfailed, hsent⟩

theorem HandOver.held (hnext : t.nextId = s.nextId) (hdrains : t.drains = s.drains)
    (hrows : t.rows = s.rows) (hlog : ∀ other, other ≠ row.id → accepted t.log other = accepted s.log other)
    (honce : NotRepeated t.log) (hunknown : t.unknown = row.id :: s.unknown) :
    HandOver { t with drains := t.drains.set i ⟨pending, .next⟩ } := by
  obtain ⟨hno, hsent⟩ := h.before hi hstage
  refine h.move hi hnext hdrains ?_ hlog honce ?_ trivial ?_ trivial
  · rw [hrows]
    exact fun other hother => ⟨other, hother, rfl, fun _ => rfl⟩
  · intro other hother
    rw [hunknown]
    exact mem_cons_of_mem _ hother
  · rw [hrows, hunknown]
    intro other hother hsame
    constructor
    · intro hne
      have hyes := (h.rows other hother).handle hne
      rw [hsame, hno] at hyes
      cases hyes
    · intro hpending
      rw [hsent other hother hsame] at hpending
      cases hpending
    · intro _
      right
      left
      rw [hsame]
      exact mem_cons_self

theorem HandOver.updateClaimed (outcome : Outcome) (hid : ∀ other, (data other).id = other.id)
    (hhandle : ∀ other, (data other).providerHandle = other.providerHandle)
    (hstatus : ∀ other, (data other).status ≠ .sent) :
    HandOver { (s.updateClaimed row outcome data).1 with
      drains := (s.updateClaimed row outcome data).1.drains.set i ⟨pending,
        (s.updateClaimed row outcome data).2⟩ } := by
  unfold Outbox.updateClaimed
  split
  · exact h.giveBack hi hstage hid hhandle hstatus rfl
  · exact h.stay hi rfl rfl rfl rfl rfl hstage.symm

end

end

theorem HandOver.inviteStep (h : HandOver s) {identity : IdentityRow} {threadId : Text} {pair : Text × Text}
    (hi : s.drains[i]? = some ⟨pending, .claimed row (.invite identity threadId pair)⟩) (outcome : Outcome) :
    HandOver { (s.inviteStep row identity outcome).1 with
      drains := (s.inviteStep row identity outcome).1.drains.set i ⟨pending,
        (s.inviteStep row identity outcome).2⟩ } := by
  obtain ⟨hno, _⟩ := h.before hi rfl
  unfold Outbox.inviteStep Outbox.sendConnectInvite
  by_cases hlocks : outcome.locks
  · rw [hlocks, Bool.not_true, if_neg Bool.false_ne_true]
    by_cases hconnection : outcome.connection ≠ some (lit "pending")
    · rw [if_pos hconnection]
      by_cases hcommits : outcome.commits
      · rw [if_pos hcommits]
        exact h.giveBack hi rfl (fun _ => rfl) (fun _ => rfl) (fun _ heq => by cases heq) rfl
      · rw [if_neg hcommits]
        exact h.held (t := { s with unknown := row.id :: s.unknown }) hi rfl rfl rfl rfl (fun _ _ => rfl) h.once rfl
    rw [if_neg hconnection]
    by_cases hrow : s.hasRow row.id
    · rw [hrow, Bool.not_true, if_neg Bool.false_ne_true]
      by_cases hsent : (outcome.succeeds && outcome.commits) = true
      · rw [if_pos hsent]
        rw [(and_eq_true_iff.mp hsent).1]
        have hcall : HandOver { s.record (.call row.id (some identity.id) row.body true) with
            drains := s.drains.set i ⟨pending, .claimed row (.count identity)⟩ } := h.call hi rfl _ _ rfl
        have hcount : (s.drains.set i ⟨pending, .claimed row (.count identity)⟩)[i]? =
            some ⟨pending, .claimed row (.count identity)⟩ := by
          obtain ⟨hlt, _⟩ := List.getElem?_eq_some_iff.mp hi
          rw [getElem?_set_self hlt]
        have hkeeps : (Phase.claimed row (.count identity)).Keeps row := rfl
        have hstays : ∀ other stage, Phase.claimed row (.count identity) = .claimed other stage → stage.isAfter := by
          intro other stage heq
          cases heq
          rfl
        have hsaved := hcall.saveHandle hcount rfl outcome.answer hkeeps hstays
        rw [set_set] at hsaved
        exact hsaved
      · rw [if_neg hsent]
        refine h.held (t := { s.record (.call row.id (some identity.id) row.body outcome.succeeds) with
          unknown := row.id :: s.unknown }) hi rfl rfl rfl rfl ?_ (h.once.call hno _ _ _) rfl
        intro other hne
        show accepted (.call row.id (some identity.id) row.body outcome.succeeds :: s.log) other =
          accepted s.log other
        rw [accepted_call, decide_eq_false fun heq => hne heq.symm, Bool.and_false, Bool.false_or]
    · rw [eq_false_iff.mpr hrow, Bool.not_false, if_pos rfl]
      refine h.move (t := s) hi rfl rfl ?_ (fun _ _ => rfl) h.once (fun _ h => h) trivial ?_ trivial
      · exact fun other hother => ⟨other, hother, rfl, fun _ => rfl⟩
      · intro other hother hsame
        exact absurd (any_eq_true.mpr ⟨other, hother, decide_eq_true hsame⟩) hrow
  · rw [eq_false_iff.mpr hlocks, Bool.not_false, if_pos rfl]
    exact h.held (t := { s with unknown := row.id :: s.unknown }) hi rfl rfl rfl rfl (fun _ _ => rfl) h.once rfl

theorem isAfter_directStage (row : Outbound) (identity : IdentityRow) (threadId : Text) :
    (directStage row identity threadId).isAfter = false := by
  unfold directStage
  split
  · rfl
  · rfl

theorem isAfter_resolveDirectThread (row : Outbound) (identity : IdentityRow) :
    (resolveDirectThread row identity).isAfter = false := by
  unfold resolveDirectThread
  split
  · rfl
  split
  · exact isAfter_directStage row identity _
  · rfl

theorem isAfter_firstStage (row : Outbound) : (firstStage row).isAfter = false := by
  unfold firstStage
  split
  · split
    · rfl
    · rfl
  · split
    · rfl
    · rfl

section

variable (h : HandOver s)
include h

theorem HandOver.stageStep (hi : s.drains[i]? = some ⟨pending, .claimed row stage⟩)
    (hsound : StageSound s row outcome stage) :
    HandOver { (s.stageStep row outcome stage).1 with
      drains := (s.stageStep row outcome stage).1.drains.set i ⟨pending, (s.stageStep row outcome stage).2⟩ } := by
  cases stage with
  | fail | release => exact h.updateClaimed hi rfl outcome (fun _ => rfl) (fun _ => rfl) fun _ heq => by cases heq
  | lookup identityId =>
    dsimp only [Outbox.stageStep]
    split
    · split
      · exact h.stay hi rfl rfl rfl rfl rfl rfl
      · exact h.stay hi rfl rfl rfl rfl rfl (isAfter_resolveDirectThread row _)
    · exact h.stay hi rfl rfl rfl rfl rfl rfl
  | openDirectThread identity =>
    dsimp only [Outbox.stageStep]
    split
    · exact h.stay hi rfl rfl rfl rfl rfl rfl
    · exact h.stay hi rfl rfl rfl rfl rfl rfl
  | saveThread identity threadId =>
    dsimp only [Outbox.stageStep]
    unfold Outbox.updateOwner
    split
    · exact h.stay (t := s.updateIdentity identity.id _) hi rfl rfl rfl rfl rfl (isAfter_directStage row identity threadId)
    · exact h.stay hi rfl rfl rfl rfl rfl rfl
  | invite identity threadId pair => exact h.inviteStep hi outcome
  | send identity threadId =>
    dsimp only [Outbox.stageStep]
    unfold Outbox.sendStep
    refine h.call hi rfl (identity.map (·.id)) row.body ?_
    split
    · rename_i hok
      exact hok.symm
    · rename_i hfailed
      exact (eq_false_iff.mpr hfailed).symm
  | saveHandle identity handle =>
    cases identity with
    | none =>
      dsimp only [Outbox.stageStep]
      unfold Outbox.updateClaimed
      rw [hsound.1, hsound.2, Bool.and_true, if_pos rfl]
      exact h.saveHandle hi rfl handle trivial fun _ _ heq => by cases heq
    | some identity =>
      have hsound : outcome.succeeds := hsound
      dsimp only [Outbox.stageStep]
      rw [if_pos hsound]
      refine h.saveHandle hi rfl handle rfl fun _ _ heq => ?_
      cases heq
      rfl
  | count identity =>
    dsimp only [Outbox.stageStep]
    unfold Outbox.updateOwner
    rw [hsound.1, hsound.2, Bool.and_true, if_pos rfl]
    exact h.settle (t := s.updateIdentity identity.id _) hi rfl rfl rfl rfl rfl rfl
  | recover =>
    dsimp only [Outbox.stageStep]
    unfold Outbox.recoverStep
    have hsound : outcome.succeeds := hsound
    rw [hsound, Bool.not_true, if_neg Bool.false_ne_true]
    dsimp only
    split
    · exact h.giveBack hi rfl (fun _ => rfl) (fun _ => rfl) (fun _ heq => by cases heq) rfl
    · exact h.giveBack hi rfl (fun _ => rfl) (fun _ => rfl) (fun _ heq => by cases heq) rfl

theorem HandOver.idle (hi : s.drains[i]? = some drain) (hbefore : drain.row = none)
    (hafter : drain'.row = none) : HandOver { s with drains := s.drains.set i drain' } := by
  refine h.frame (t := s) hi none nofun rfl rfl ?_ (fun _ _ => rfl) h.once (fun _ h => h) ?_ ?_
    (fun _ _ _ _ _ hown => absurd hown.symm (some_ne_none _)) (fun _ _ hown => absurd hown.symm (some_ne_none _)) ?_
  · exact fun row hrow => ⟨row, hrow, rfl, fun _ => rfl⟩
  · exact fun other hheld => hbefore.symm.trans hheld
  · exact fun other hheld => hafter.symm.trans hheld
  · unfold DrainOk
    unfold Drain.row at hafter
    split
    · rename_i hphase
      rw [hphase] at hafter
      cases hafter
    · trivial

theorem HandOver.free {other : Outbound} (hother : other ∈ s.rows) (hpending : other.status = .pending)
    (hdrain : drain ∈ s.drains) : drain.row ≠ some other.id := by
  intro hheld
  have hok := h.drains drain hdrain
  have hno := (h.rows other hother).pending hpending
  unfold Drain.row at hheld
  unfold DrainOk at hok
  split at hheld
  · rename_i row stage hphase
    rw [hphase] at hok
    have hid : row.id = other.id := some.inj hheld
    dsimp only at hok
    rw [hid] at hok
    split at hok
    · rw [hno] at hok
      cases hok
    · rw [hok.2 other hother rfl] at hpending
      cases hpending
  · cases hheld

theorem HandOver.claimStep (hi : s.drains[i]? = some drain) (hnone : drain.row = none)
    (row : Outbound) (outcome : Outcome) (rest : List Outbound) :
    HandOver { (s.claimStep row outcome).1 with
      drains := (s.claimStep row outcome).1.drains.set i ⟨rest, (s.claimStep row outcome).2⟩ } := by
  unfold Outbox.claimStep
  split
  · exact h.idle hi hnone rfl
  split
  · rename_i hclaims
    obtain ⟨other, hother, hclaim⟩ := any_eq_true.mp hclaims
    rw [and_eq_true, decide_eq_true_eq, decide_eq_true_eq] at hclaim
    obtain ⟨hid, hpending⟩ := hclaim
    have hno := (h.rows other hother).pending hpending
    have hfree : ∀ (j : ℕ) (other' : Drain), s.drains[j]? = some other' → other'.row ≠ some row.id := by
      intro j other' hj
      rw [← hid]
      exact h.free hother hpending (mem_of_getElem? hj)
    rw [hid] at hno
    have hown : ∀ {id}, some row.id = some id → id = row.id := fun heq => (some.inj heq).symm
    refine h.frame (t := s.updateRow row.id _) hi (some row.id) ?_ rfl rfl ?_ (fun _ _ => rfl)
      h.once (fun _ h => h) ?_
      (fun _ hheld => hheld) ?_ ?_ ?_
    · rintro _ ⟨⟩
      exact hid ▸ h.freshRows other hother
    · intro new hnew
      obtain ⟨old, hold, hsame, heq, _⟩ := mem_updateRow hnew fun _ => rfl
      exact ⟨old, hold, hsame, fun hne => heq fun hid => hne (congrArg some hid.symm)⟩
    · intro held hheld
      rw [hnone] at hheld
      cases hheld
    · intro j other' id hj hheld heq
      exact absurd (hown heq ▸ hheld) (hfree j other' hj)
    · intro new hnew heq
      obtain ⟨old, hold, _, _, hdata⟩ := mem_updateRow hnew fun _ => rfl
      rw [hdata (hown heq)]
      exact ⟨(h.rows old hold).handle, nofun,
        fun _ => .inr (.inr (congrArg some (hown heq ▸ hdata (hown heq) ▸ rfl)))⟩
    · unfold DrainOk
      dsimp only
      rw [isAfter_firstStage, if_neg Bool.false_ne_true]
      refine ⟨hno, ?_⟩
      intro new hnew hsame
      obtain ⟨old, _, _, _, hdata⟩ := mem_updateRow hnew fun _ => rfl
      rw [hdata hsame]
  · exact h.idle hi hnone rfl

theorem HandOver.step (hsound : Sound s (.step i outcome)) : HandOver (s.step i outcome) := by
  unfold Outbox.step
  dsimp only [Sound] at hsound
  rcases hi : s.drains[i]? with _ | drain
  · exact h
  rw [hi] at hsound
  obtain ⟨pending, phase⟩ := drain
  dsimp only at hsound ⊢
  unfold Outbox.drainStep
  cases phase with
  | next =>
    cases pending with
    | nil => exact h.idle hi rfl rfl
    | cons row rest => exact h.claimStep hi rfl row outcome rest
  | claimed row stage => exact h.stageStep hi hsound
  | enqueue retryAt =>
    dsimp only
    split
    · exact h.idle hi rfl rfl
    · exact h.idle hi rfl rfl
  | done => exact h.idle hi rfl rfl

end

end

/-! ### Other operations -/

theorem HandOver.createRow (h : HandOver s) (data : OutboundData) : HandOver (s.createRow data) := by
  unfold Outbox.createRow
  split
  · exact h
  constructor
  · intro row hrow
    show row.id < s.nextId + 1
    obtain hrow | hrow := mem_append.mp hrow
    · exact Nat.lt_succ_of_lt (h.freshRows row hrow)
    · obtain rfl := mem_singleton.mp hrow
      exact Nat.lt_succ_self _
  · exact fun id hid => Nat.lt_succ_of_lt (h.freshLog id hid)
  · exact fun drain hdrain id hid => Nat.lt_succ_of_lt (h.freshDrains drain hdrain id hid)
  · exact h.once
  · intro row hrow
    obtain hrow | hrow := mem_append.mp hrow
    · exact h.rows row hrow
    · obtain rfl := mem_singleton.mp hrow
      constructor
      · exact fun hne => absurd rfl hne
      · intro _
        rw [eq_false_iff]
        intro hyes
        exact absurd (h.freshLog _ hyes) (Nat.lt_irrefl _)
      · intro hsent
        cases hsent
  · intro drain hdrain
    refine (h.drains drain hdrain).imp (fun _ _ => rfl) ?_
    intro row hrow hheld _
    obtain hrow | hrow := mem_append.mp hrow
    · exact ⟨row, hrow, rfl, rfl⟩
    · obtain rfl := mem_singleton.mp hrow
      exact absurd (h.freshDrains drain hdrain _ hheld) (Nat.lt_irrefl _)
  · exact h.alone

theorem HandOver.createMany (h : HandOver s) (rows : List OutboundData) : HandOver (s.createMany rows) := by
  unfold Outbox.createMany
  induction rows generalizing s with
  | nil => exact h
  | cons data rows ih => exact ih (h.createRow data)

theorem HandOver.delete (h : HandOver s) (key : Text) :
    HandOver { s with rows := s.rows.filter fun row => row.idempotencyKey ≠ key } where
  freshRows row hrow := h.freshRows row (mem_filter.mp hrow).1
  __ := h
  rows row hrow := h.rows row (mem_filter.mp hrow).1
  drains drain hdrain :=
    (h.drains drain hdrain).imp (fun _ _ => rfl) fun row hrow _ _ => ⟨row, (mem_filter.mp hrow).1, rfl, rfl⟩

theorem HandOver.webhook (h : HandOver s) (handle status : Text) :
    HandOver (s.applyMessagingOutboundStatus handle status) := by
  unfold Outbox.applyMessagingOutboundStatus
  split
  · exact h
  rename_i status hstatus
  have hne : status ≠ .pending := by
    unfold statusOfWebhook at hstatus
    rintro rfl
    split at hstatus
    · cases hstatus
    · split at hstatus
      · cases hstatus
      · cases hstatus
  constructor
  · intro row hrow
    obtain ⟨old, hold, rfl⟩ := mem_map.mp hrow
    split
    · exact h.freshRows old hold
    · exact h.freshRows old hold
  · exact h.freshLog
  · exact h.freshDrains
  · exact h.once
  · intro row hrow
    obtain ⟨old, hold, rfl⟩ := mem_map.mp hrow
    have hok := h.rows old hold
    split
    · rename_i hhas
      have hyes := hok.handle (by rw [hhas]; exact some_ne_none _)
      exact ⟨fun _ => hyes, fun hpending => absurd hpending hne, fun _ => .inl hyes⟩
    · exact hok
  · intro drain hdrain
    refine (h.drains drain hdrain).imp (fun _ _ => rfl) ?_
    intro row hrow _ hno
    obtain ⟨old, hold, rfl⟩ := mem_map.mp hrow
    refine ⟨old, hold, ?_⟩
    split
    · rename_i hhas
      have hyes := (h.rows old hold).handle (by rw [hhas]; exact some_ne_none _)
      rw [if_pos hhas] at hno
      rw [show accepted s.log old.id = false from hno] at hyes
      cases hyes
    · exact ⟨rfl, rfl⟩
  · exact h.alone

theorem HandOver.startDrain (h : HandOver s) : HandOver s.startDrain := by
  have hnew : ∀ drain ∈ s.startDrain.drains, drain ∈ s.drains ∨ drain.row = none := by
    intro drain hdrain
    obtain hdrain | hdrain := mem_append.mp hdrain
    · exact .inl hdrain
    · obtain rfl := mem_singleton.mp hdrain
      exact .inr rfl
  have hold : ∀ (j : ℕ) (drain : Drain) (id : ℕ), s.startDrain.drains[j]? = some drain →
      drain.row = some id → s.drains[j]? = some drain := by
    intro j drain id hj hheld
    unfold Outbox.startDrain at hj
    by_cases hlt : j < s.drains.length
    · rwa [getElem?_append_left hlt] at hj
    · rw [getElem?_append_right (by omega)] at hj
      obtain rfl := mem_singleton.mp (mem_of_getElem? hj)
      cases hheld
  constructor
  · exact h.freshRows
  · exact h.freshLog
  · intro drain hdrain id hid
    obtain hdrain | hnone := hnew drain hdrain
    · exact h.freshDrains drain hdrain id hid
    · rw [hnone] at hid
      cases hid
  · exact h.once
  · intro row hrow
    refine (h.rows row hrow).imp (fun _ h => h) ?_
    rintro ⟨drain, hdrain, hheld⟩
    exact ⟨drain, mem_append_left _ hdrain, hheld⟩
  · intro drain hdrain
    obtain hdrain | hdrain := mem_append.mp hdrain
    · exact h.drains drain hdrain
    · obtain rfl := mem_singleton.mp hdrain
      trivial
  · intro j k a b id ha hb haheld hbheld
    exact h.alone j k a b id (hold j a id ha haheld) (hold k b id hb hbheld) haheld hbheld

theorem HandOver.of_inbound (h : HandOver s) (identityId nextIdentityId : ℕ) (identities : List IdentityRow) :
    HandOver { s with
      identities
      nextIdentityId
      log := .inbound identityId :: s.log } where
  __ := h
  once := h.once.inbound identityId
  rows row hrow := (h.rows row hrow).of_log rfl
  drains drain hdrain := (h.drains drain hdrain).imp (fun _ _ => rfl) fun row hrow _ _ =>
    ⟨row, hrow, rfl, rfl⟩

theorem handOver_apply (s : Outbox) (op : Op) (h : HandOver s) (hsound : Sound s op) :
    HandOver (s.apply op) := by
  cases op with
  | tick ms => exact { h with }
  | mirror | create => exact h.createMany _
  | delete key => exact h.delete key
  | startDrain => exact h.startDrain
  | step i outcome => exact h.step hsound
  | inbound provider address threadId links succeeds =>
    dsimp only [Outbox.apply]
    unfold Outbox.inbound
    split
    · dsimp only
      split
      · exact h.of_inbound _ s.nextIdentityId _
      · exact h.of_inbound _ s.nextIdentityId s.identities
    · split
      · exact h.of_inbound _ (s.nextIdentityId + 1) _
      · exact h
  | webhook handle status => exact h.webhook handle status

end ArdurBot.Messaging
