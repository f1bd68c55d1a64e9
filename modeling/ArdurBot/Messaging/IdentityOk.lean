import ArdurBot.Messaging.Identity
import ArdurBot.Lib.Table

/-!
# What the database keeps of identities and codes

The unique keys, with what the calls rely on between their statements: rows that are locked, and
what was found before and is never taken back.
-/

namespace ArdurBot.MessagingIdentity

open List Utf16 Json
open Option hiding any any_eq_false map map_map

variable {db : Database} {sha256 : Text → Text}

/-- A user's first membership is of the organization that is made for the user, if there is one. -/
def Settled (db : Database) (userId : Text) : Prop :=
  ∀ spaceId ∈ db.findMembership userId, { id := spaceId, slug := slug userId } ∈ db.organizations

structure Grows (db later : Database) : Prop where
  history : ∀ identity ∈ db.history, identity ∈ later.history
  organizations : ∀ organization ∈ db.organizations, organization ∈ later.organizations
  membership : ∀ userId, ∀ spaceId ∈ db.findMembership userId, spaceId ∈ later.findMembership userId
  settled : ∀ userId, Settled db userId → Settled later userId
  thread : ∀ botId, ∀ threadId ∈ db.findThread botId, threadId ∈ later.findThread botId
  bot : ∀ spaceId userId, (db.findBot spaceId userId).isSome → (later.findBot spaceId userId).isSome

theorem Grows.refl (db : Database) : Grows db db :=
  ⟨fun _ h => h, fun _ h => h, fun _ _ h => h, fun _ h => h, fun _ _ h => h, fun _ _ h => h⟩

theorem Grows.of_same {later : Database} (hhistory : ∀ identity ∈ db.history, identity ∈ later.history)
    (horganizations : later.organizations = db.organizations)
    (hmembers : later.spaceMembers = db.spaceMembers)
    (hbots : later.bots = db.bots) : Grows db later := by
  have hmembership : ∀ userId, later.findMembership userId = db.findMembership userId := by
    intro userId
    unfold Database.findMembership
    rw [hmembers]
  refine ⟨hhistory, ?_, ?_, ?_, ?_, ?_⟩
  · rw [horganizations]
    exact fun _ h => h
  · intro userId spaceId h
    rwa [hmembership]
  · intro userId h spaceId hspace
    rw [hmembership] at hspace
    rw [horganizations]
    exact h spaceId hspace
  · intro botId threadId h
    unfold Database.findThread at h ⊢
    rwa [hbots]
  · intro spaceId userId h
    unfold Database.findBot at h ⊢
    rwa [hbots]

theorem grows_addOrganization (userId : Text) : Grows db (db.addOrganization userId) where
  history _ h := h
  organizations _ h := mem_append_left _ h
  membership _ _ h := h
  settled _ h spaceId hspace := mem_append_left _ (h spaceId hspace)
  thread _ _ h := h
  bot _ _ h := h

theorem findMembership_addSpaceMember (spaceId : ℕ) (userId userId' : Text) :
    (db.addSpaceMember spaceId userId).findMembership userId' =
      (db.findMembership userId').or (if userId = userId' then some spaceId else none) := by
  unfold Database.addSpaceMember
  split
  · next hmem =>
    -- The membership is there already, so the user has a first one.
    split
    · next hsame =>
      subst hsame
      have hsome : (db.spaceMembers.find? fun member => member.userId = userId).isSome = true :=
        find?_isSome.mpr ⟨_, hmem, decide_eq_true rfl⟩
      obtain ⟨member, hmember⟩ := isSome_iff_exists.mp hsome
      unfold Database.findMembership
      rw [hmember]
      rfl
    · rw [or_none]
  · unfold Database.findMembership
    rw [find?_append, find?_singleton]
    cases db.spaceMembers.find? fun member => member.userId = userId' with
    | some member => rfl
    | none =>
      by_cases hsame : userId = userId'
      · rw [if_pos hsame]
        simp [hsame]
      · rw [if_neg hsame]
        simp [hsame]

variable {spaceId : ℕ} {userId : Text} {row : LinkCode}

theorem grows_addSpaceMember (h : { id := spaceId, slug := slug userId } ∈ db.organizations) :
    Grows db (db.addSpaceMember spaceId userId) := by
  have hsame : (db.addSpaceMember spaceId userId).organizations = db.organizations := by
    unfold Database.addSpaceMember
    split <;> rfl
  refine ⟨?_, ?_, ?_, ?_, ?_, ?_⟩
  · unfold Database.addSpaceMember
    split <;> exact fun _ h => h
  · rw [hsame]
    exact fun _ h => h
  · intro userId' spaceId' hspace
    rw [findMembership_addSpaceMember, mem_def.mp hspace]
    rfl
  · intro userId' hsettled spaceId' hspace
    rw [findMembership_addSpaceMember, mem_def, or_eq_some_iff] at hspace
    rw [hsame]
    obtain hspace | ⟨-, hspace⟩ := hspace
    · exact hsettled spaceId' hspace
    · split at hspace
      · next huser =>
        rw [← some.inj hspace, ← huser]
        exact h
      · cases hspace
  · unfold Database.addSpaceMember
    split <;> exact fun _ _ h => h
  · unfold Database.addSpaceMember
    split <;> exact fun _ _ h => h

theorem grows_addBot (spaceId : ℕ) (userId : Text) : Grows db (db.addBot spaceId userId) where
  history _ h := h
  organizations _ h := h
  membership _ _ h := h
  settled _ h := h
  thread botId threadId h := by
    unfold Database.findThread Database.addBot at *
    obtain ⟨bot, hbot, hthread⟩ := bind_eq_some_iff.mp h
    rw [find?_append, hbot]
    exact hthread
  bot spaceId' userId' h := by
    unfold Database.findBot Database.addBot at *
    rw [find?_append]
    obtain ⟨bot, hbot⟩ := isSome_iff_exists.mp h
    rw [hbot]
    rfl

/-- The unique keys, and what was stored, redeemed and made so far. -/
structure DatabaseOk (db : Database) : Prop where
  identityIds : (db.identities.map Identity.id).Nodup
  identityBelow : ∀ identity ∈ db.identities, identity.id < db.nextId
  addresses : (db.identities.map Identity.key).Nodup
  identityBots : (db.identities.map Identity.botId).Nodup
  slugs : (db.organizations.map Organization.slug).Nodup
  codeBelow : ∀ row ∈ db.codes, row.id < db.nextId
  redeemedBelow : ∀ entry ∈ db.redeemed, entry.1.id < db.nextId
  redeemedGone : ∀ entry ∈ db.redeemed, ∀ row ∈ db.codes, row.id ≠ entry.1.id
  redeemedOnce : (db.redeemed.map fun entry => entry.1.id).Nodup
  redeemedInTime : ∀ entry ∈ db.redeemed, entry.2 ≤ entry.1.expiresAt
  oneCode : ∀ a ∈ db.codes, ∀ b ∈ db.codes, a.userId = b.userId → db.now ≤ a.expiresAt →
    db.now ≤ b.expiresAt → a = b
  locks : (db.locks.map Prod.fst).Nodup
  stored : ∀ identity ∈ db.identities, identity ∈ db.history
  kept : ∀ identity ∈ db.history, ∃ other ∈ db.identities, other.key = identity.key ∧
    other.userId = identity.userId
  madeUsers : ∀ userId ∈ db.madeUsers, userId ∈ db.users
  madeUsersOnce : db.madeUsers.Nodup
  madeSpaces : ∀ userId ∈ db.madeSpaces, ∃ spaceId ∈ db.spaces,
    { id := spaceId, slug := slug userId } ∈ db.organizations
  madeSpacesOnce : db.madeSpaces.Nodup
  madeBots : ∀ userId ∈ db.madeBots, ∃ spaceId ∈ db.findMembership userId, (db.findBot spaceId userId).isSome
  madeBotsOnce : db.madeBots.Nodup

theorem DatabaseOk.eq_of_slug (h : DatabaseOk db) {a b : Organization} (ha : a ∈ db.organizations)
    (hb : b ∈ db.organizations) (hslug : a.slug = b.slug) : a = b := Table.eq_of_key h.slugs ha hb hslug

section

variable (h : DatabaseOk db)
include h

theorem databaseOk_release (index : ℕ) : DatabaseOk (db.release index) :=
  { h with locks := h.locks.sublist (filter_sublist.map Prod.fst) }

theorem databaseOk_codes (keep : LinkCode → Bool) : DatabaseOk { db with codes := db.codes.filter keep } :=
  { h with
    codeBelow := fun row hrow => h.codeBelow row (mem_of_mem_filter hrow)
    redeemedGone := fun entry hentry row hrow => h.redeemedGone entry hentry row (mem_of_mem_filter hrow)
    oneCode := fun a ha b hb => h.oneCode a (mem_of_mem_filter ha) b (mem_of_mem_filter hb) }

theorem databaseOk_lock {rowId : ℕ} (hfree : db.isLocked rowId = false) (index : ℕ) :
    DatabaseOk { db with locks := db.locks ++ [(rowId, index)] } := by
  refine { h with locks := ?_ }
  apply Table.nodup_concat h.locks
  intro lock hlock hid
  exact any_eq_false.mp hfree lock hlock (decide_eq_true hid)

theorem databaseOk_addCode (hid : row.id = db.nextId)
    (hone : ∀ other ∈ db.codes, other.userId = row.userId → other.expiresAt < db.now) :
    DatabaseOk { db with codes := db.codes ++ [row], nextId := db.nextId + 1 } := by
  refine { h with
    identityBelow := fun identity hidentity => Nat.lt_succ_of_lt (h.identityBelow identity hidentity)
    codeBelow := ?_
    redeemedBelow := fun entry hentry => Nat.lt_succ_of_lt (h.redeemedBelow entry hentry)
    redeemedGone := ?_
    oneCode := ?_ }
  · intro other hother
    obtain hother | hother := mem_append.mp hother
    · exact Nat.lt_succ_of_lt (h.codeBelow other hother)
    · rw [mem_singleton.mp hother, hid]
      exact Nat.lt_succ_self _
  · intro entry hentry other hother
    obtain hother | hother := mem_append.mp hother
    · exact h.redeemedGone entry hentry other hother
    · have hbelow := h.redeemedBelow entry hentry
      rw [mem_singleton.mp hother]
      omega
  · intro a ha b hb huser hatime hbtime
    dsimp only at hatime hbtime
    rcases mem_append.mp ha with ha | ha <;> rcases mem_append.mp hb with hb | hb
    · exact h.oneCode a ha b hb huser hatime hbtime
    · have hgone := hone a ha (by rw [huser, mem_singleton.mp hb])
      omega
    · have hgone := hone b hb (by rw [← huser, mem_singleton.mp ha])
      omega
    · rw [mem_singleton.mp ha, mem_singleton.mp hb]

theorem databaseOk_addUser (hnew : userId ∉ db.users) : DatabaseOk (db.addUser userId) := by
  refine { h with
    madeUsers := ?_
    madeUsersOnce := h.madeUsersOnce.append (nodup_singleton _)
      (disjoint_singleton.mpr fun hmade => hnew (h.madeUsers userId hmade)) }
  intro other hother
  obtain hother | hother := mem_append.mp hother
  · exact mem_append_left _ (h.madeUsers other hother)
  · exact mem_append_right _ hother

theorem databaseOk_addOrganization (hnew : ∀ organization ∈ db.organizations, organization.slug ≠ slug userId) :
    DatabaseOk (db.addOrganization userId) := by
  refine { h with
    identityBelow := fun identity hidentity => Nat.lt_succ_of_lt (h.identityBelow identity hidentity)
    slugs := ?_
    codeBelow := fun row hrow => Nat.lt_succ_of_lt (h.codeBelow row hrow)
    redeemedBelow := fun entry hentry => Nat.lt_succ_of_lt (h.redeemedBelow entry hentry)
    madeSpaces := ?_ }
  · change ((db.organizations ++ [_]).map Organization.slug).Nodup
    exact Table.nodup_concat h.slugs hnew
  · intro other hother
    obtain ⟨spaceId, hspace, horganization⟩ := h.madeSpaces other hother
    exact ⟨spaceId, hspace, mem_append_left _ horganization⟩

theorem databaseOk_addMember (spaceId : ℕ) (userId : Text) : DatabaseOk (db.addMember spaceId userId) := by
  unfold Database.addMember
  split
  · exact h
  · exact { h with }

theorem databaseOk_addSpace (horganization : { id := spaceId, slug := slug userId } ∈ db.organizations) :
    DatabaseOk (db.addSpace spaceId userId) := by
  unfold Database.addSpace
  split
  · exact h
  · next hnew =>
    refine { h with madeSpaces := ?_, madeSpacesOnce := h.madeSpacesOnce.append (nodup_singleton _) (disjoint_singleton.mpr ?_) }
    · intro other hother
      obtain hother | hother := mem_append.mp hother
      · obtain ⟨spaceId', hspace, horganization'⟩ := h.madeSpaces other hother
        exact ⟨spaceId', mem_append_left _ hspace, horganization'⟩
      · rw [mem_singleton.mp hother]
        exact ⟨spaceId, mem_append_right _ mem_cons_self, horganization⟩
    · intro hmade
      obtain ⟨spaceId', hspace, horganization'⟩ := h.madeSpaces userId hmade
      have hsame := h.eq_of_slug horganization' horganization rfl
      rw [Organization.mk.injEq] at hsame
      exact hnew (hsame.1 ▸ hspace)

theorem DatabaseOk.madeBots_grow {later : Database} (hgrows : Grows db later) {userId : Text}
    (hmade : userId ∈ db.madeBots) :
    ∃ spaceId ∈ later.findMembership userId, (later.findBot spaceId userId).isSome := by
  obtain ⟨spaceId, hspace, hbot⟩ := h.madeBots userId hmade
  exact ⟨spaceId, hgrows.membership userId spaceId hspace, hgrows.bot spaceId userId hbot⟩

theorem databaseOk_addSpaceMember
    (horganization : { id := spaceId, slug := slug userId } ∈ db.organizations) :
    DatabaseOk (db.addSpaceMember spaceId userId) := by
  have hmade := fun userId' => @DatabaseOk.madeBots_grow db h _ (grows_addSpaceMember horganization) userId'
  unfold Database.addSpaceMember at *
  split
  · exact h
  · next hnew =>
    rw [if_neg hnew] at hmade
    exact { h with madeBots := hmade }

/-- A call creates a bot when the user has none in the space that the user is first a member of. -/
theorem databaseOk_addBot (hspace : spaceId ∈ db.findMembership userId)
    (hnew : db.findBot spaceId userId = none) : DatabaseOk (db.addBot spaceId userId) := by
  refine { h with
    identityBelow := fun identity hidentity => Nat.lt_add_right 2 (h.identityBelow identity hidentity)
    codeBelow := fun row hrow => Nat.lt_add_right 2 (h.codeBelow row hrow)
    redeemedBelow := fun entry hentry => Nat.lt_add_right 2 (h.redeemedBelow entry hentry)
    madeBots := ?_
    madeBotsOnce := h.madeBotsOnce.append (nodup_singleton _) (disjoint_singleton.mpr ?_) }
  · intro other hother
    obtain hother | hother := mem_append.mp hother
    · exact h.madeBots_grow (grows_addBot spaceId userId) hother
    · rw [mem_singleton.mp hother]
      refine ⟨spaceId, hspace, ?_⟩
      unfold Database.findBot Database.addBot
      rw [find?_isSome]
      exact ⟨_, mem_append_right _ mem_cons_self, by simp⟩
  · intro hmade
    obtain ⟨spaceId', hspace', hbot⟩ := h.madeBots userId hmade
    rw [mem_unique hspace' hspace, hnew] at hbot
    cases hbot

theorem databaseOk_addIdentity (index : ℕ) {data : Identity}
    (hfree : db.isFree data.key data.botId) : DatabaseOk (db.addIdentity index data) := by
  have hnone : ∀ identity ∈ db.identities, identity.key ≠ data.key ∧ identity.botId ≠ data.botId := by
    intro identity hidentity
    unfold Database.isFree at hfree
    rw [Bool.not_eq_true', any_eq_false] at hfree
    simpa using hfree identity hidentity
  refine { h with
    identityIds := ?_
    identityBelow := ?_
    addresses := ?_
    identityBots := ?_
    codeBelow := fun row hrow => Nat.lt_succ_of_lt (h.codeBelow row hrow)
    redeemedBelow := fun entry hentry => Nat.lt_succ_of_lt (h.redeemedBelow entry hentry)
    stored := ?_
    kept := ?_ }
  · change ((db.identities ++ [_]).map Identity.id).Nodup
    exact Table.nodup_concat h.identityIds fun identity hidentity => Nat.ne_of_lt (h.identityBelow identity hidentity)
  · intro identity hidentity
    obtain hidentity | hidentity := mem_append.mp hidentity
    · exact Nat.lt_succ_of_lt (h.identityBelow identity hidentity)
    · rw [mem_singleton.mp hidentity]
      exact Nat.lt_succ_self _
  · change ((db.identities ++ [_]).map Identity.key).Nodup
    exact Table.nodup_concat h.addresses fun identity hidentity => (hnone identity hidentity).1
  · change ((db.identities ++ [_]).map Identity.botId).Nodup
    exact Table.nodup_concat h.identityBots fun identity hidentity => (hnone identity hidentity).2
  · intro identity hidentity
    obtain hidentity | hidentity := mem_append.mp hidentity
    · exact mem_append_left _ (h.stored identity hidentity)
    · exact mem_append_right _ hidentity
  · intro identity hidentity
    obtain hidentity | hidentity := mem_append.mp hidentity
    · obtain ⟨other, hother, hsame⟩ := h.kept identity hidentity
      exact ⟨other, mem_append_left _ hother, hsame⟩
    · exact ⟨identity, mem_append_right _ hidentity, rfl, rfl⟩

theorem databaseOk_relink (index : ℕ) (request : RedeemRequest) {id : ℕ}
    (hfree : ∀ identity ∈ db.identities, identity.id ≠ id → identity.botId ≠ row.botId) :
    DatabaseOk (db.relink index request row id) := by
  let update : Identity → Identity := fun identity =>
    if identity.id = id then Database.relinked request row identity else identity
  have hid : ∀ identity, (update identity).id = identity.id := by
    intro identity
    dsimp only [update]
    split <;> rfl
  have hkey : ∀ identity, (update identity).key = identity.key := by
    intro identity
    dsimp only [update]
    split <;> rfl
  have huser : ∀ identity, (update identity).userId = identity.userId := by
    intro identity
    dsimp only [update]
    split <;> rfl
  refine { h with
    identityIds := Table.nodup_map h.identityIds hid
    identityBelow := ?_
    addresses := Table.nodup_map h.addresses hkey
    identityBots := ?_
    stored := ?_
    kept := ?_ }
  · intro identity hidentity
    obtain ⟨old, hold, rfl⟩ := mem_map.mp hidentity
    change (update old).id < db.nextId
    rw [hid]
    exact h.identityBelow old hold
  · change ((db.identities.map update).map Identity.botId).Nodup
    rw [map_map]
    refine (nodup_map_iff_inj_on h.identityIds.of_map).mpr ?_
    intro a ha b hb hsame
    change (update a).botId = (update b).botId at hsame
    dsimp only [update] at hsame
    split at hsame <;> split at hsame
    · next ha' hb' => exact Table.eq_of_key h.identityIds ha hb (ha'.trans hb'.symm)
    · next hb' => exact absurd hsame.symm (hfree b hb hb')
    · next ha' _ => exact absurd hsame (hfree a ha ha')
    · exact Table.eq_of_key h.identityBots ha hb hsame
  · intro identity hidentity
    obtain ⟨old, hold, rfl⟩ := mem_map.mp hidentity
    split
    · next hold' =>
      refine mem_append_right _ (mem_map_of_mem ?_)
      exact mem_filter.mpr ⟨hold, decide_eq_true hold'⟩
    · exact mem_append_left _ (h.stored old hold)
  · have hupdate : ∀ old ∈ db.identities, ∃ other ∈ db.identities.map update,
        other.key = old.key ∧ other.userId = old.userId := by
      intro old hold
      exact ⟨update old, mem_map_of_mem hold, hkey old, huser old⟩
    intro identity hidentity
    obtain hidentity | hidentity := mem_append.mp hidentity
    · obtain ⟨old, hold, hsame⟩ := h.kept identity hidentity
      obtain ⟨other, hother, hsame'⟩ := hupdate old hold
      exact ⟨other, hother, hsame'.1.trans hsame.1, hsame'.2.trans hsame.2⟩
    · obtain ⟨old, hold, rfl⟩ := mem_map.mp hidentity
      exact hupdate old (mem_of_mem_filter hold)

theorem databaseOk_redeem (hbelow : row.id < db.nextId) (hgone : ∀ other ∈ db.codes, other.id ≠ row.id)
    (hnew : ∀ entry ∈ db.redeemed, entry.1.id ≠ row.id) (htime : db.now ≤ row.expiresAt) :
    DatabaseOk (db.redeem row) := by
  have hall : ∀ {P : LinkCode × ℕ → Prop}, (∀ entry ∈ db.redeemed, P entry) → P (row, db.now) →
      ∀ entry ∈ db.redeemed ++ [(row, db.now)], P entry := by
    intro P hold hrow entry hentry
    obtain hentry | hentry := mem_append.mp hentry
    · exact hold entry hentry
    · rw [mem_singleton.mp hentry]
      exact hrow
  refine { h with
    redeemedBelow := hall h.redeemedBelow hbelow
    redeemedGone := hall h.redeemedGone hgone
    redeemedOnce := ?_
    redeemedInTime := hall h.redeemedInTime htime }
  change ((db.redeemed ++ [(row, db.now)]).map fun entry => entry.1.id).Nodup
  exact Table.nodup_concat h.redeemedOnce hnew

theorem databaseOk_tick (ms : ℕ) : DatabaseOk (tick db ms) :=
  { h with
    oneCode := fun a ha b hb huser hatime hbtime =>
      h.oneCode a ha b hb huser (Nat.le_trans (Nat.le_add_right _ _) hatime)
        (Nat.le_trans (Nat.le_add_right _ _) hbtime) }

end

end ArdurBot.MessagingIdentity
