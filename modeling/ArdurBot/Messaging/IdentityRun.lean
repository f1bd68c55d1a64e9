import ArdurBot.Messaging.IdentityOk

/-!
# Every interleaving of the calls

An act of a call keeps the database well formed and leaves alone what other calls have found or
locked, on a condition: a code is created while its user has none, it is redeemed before it expires,
and a bot is created while its user has none.
-/

namespace ArdurBot.MessagingIdentity

open List Utf16 Json

variable {db : Database} {sha256 : Text → Text} {index : ℕ}

def Knows (db : Database) : Call → Prop
  | .existingThread request existing => existing ∈ db.history ∧
    existing.key = (request.provider, request.address)
  | .createOrganization _ userId => Settled db userId
  | .joinOrganization _ userId => Settled db userId
  | .createMember _ userId spaceId => { id := spaceId, slug := slug userId } ∈ db.organizations ∧
    Settled db userId
  | .createSpace _ userId spaceId => { id := spaceId, slug := slug userId } ∈ db.organizations ∧
    Settled db userId
  | .createSpaceMember _ userId spaceId => { id := spaceId, slug := slug userId } ∈
    db.organizations ∧ Settled db userId
  | .findBot _ userId spaceId => spaceId ∈ db.findMembership userId
  | .createBot _ userId spaceId => spaceId ∈ db.findMembership userId
  | .findThread _ userId spaceId _ => spaceId ∈ db.findMembership userId
  | .createIdentity _ _ _ botId threadId => threadId ∈ db.findThread botId
  | .findWinner _ botId threadId => threadId ∈ db.findThread botId
  | .winnerThread request winner => winner ∈ db.history ∧ winner.key = (request.provider, request.address)
  | .provisioned result => result.threadId ∈ db.findThread result.botId ∧ ∃ identity ∈ db.history,
      identity.key = (result.provider, result.address) ∧ identity.userId = result.userId ∧
        identity.spaceId = result.spaceId ∧ identity.botId = result.botId
  | _ => True

variable {call : Call} {later : Database} {row : LinkCode} {identity : Identity}
  {threadId : ℕ} {fate : Fate}

theorem Knows.grow (h : Knows db call) (hgrows : Grows db later) : Knows later call := by
  cases call with
  | existingThread | winnerThread => exact ⟨hgrows.history _ h.1, h.2⟩
  | createOrganization request userId | joinOrganization request userId => exact hgrows.settled userId h
  | createMember request userId spaceId | createSpace request userId spaceId
  | createSpaceMember request userId spaceId => exact ⟨hgrows.organizations _ h.1, hgrows.settled userId h.2⟩
  | findBot request userId spaceId | createBot request userId spaceId
  | findThread request userId spaceId botId => exact hgrows.membership userId spaceId h
  | createIdentity request userId spaceId botId threadId | findWinner request botId threadId =>
    exact hgrows.thread botId threadId h
  | provisioned result =>
    obtain ⟨hthread, identity, hidentity, hsame⟩ := h
    exact ⟨hgrows.thread _ _ hthread, identity, hgrows.history _ hidentity, hsame⟩
  | _ => trivial

/-- A redemption in its transaction has the row of its code, and locks it. -/
def InTransaction (db : Database) (index : ℕ) : Call → Prop
  | .redeemIdentity _ row => row ∈ db.codes ∧ (row.id, index) ∈ db.locks
  | .redeemWrite _ row _ => row ∈ db.codes ∧ (row.id, index) ∈ db.locks
  | _ => True

def Call.binds : Call → Bool
  | redeemed link => link.isSome
  | provisioned _ => true
  | _ => false

structure CallOk (db : Database) (index : ℕ) (call : Call) : Prop where
  knows : Knows db call
  transaction : InTransaction db index call
  bound : index ∈ db.bound → call.binds

/-- What an act leaves of its call and of all others. -/
structure Acted (db : Database) (index : ℕ) (result : Database × Call) : Prop where
  ok : DatabaseOk result.1
  grows : Grows db result.1
  knows : Knows result.1 result.2
  transaction : InTransaction result.1 index result.2
  bound : ∀ other ∈ result.1.bound, other ∈ db.bound ∨ other = index ∧ result.2.binds
  locks : ∀ lock ∈ db.locks, lock.2 ≠ index → lock ∈ result.1.locks
  codes : ∀ row ∈ db.codes, ∀ holder, holder ≠ index → (row.id, holder) ∈ db.locks → row ∈ result.1.codes

theorem acted_read (h : DatabaseOk db) (hknows : Knows db call) (htransaction : InTransaction db index call) :
    Acted db index (db, call) :=
  ⟨h, .refl db, hknows, htransaction, fun _ hother => .inl hother, fun _ hlock _ => hlock,
    fun _ hrow _ _ _ => hrow⟩

theorem acted_write (h : DatabaseOk later) (hgrows : Grows db later) (hknows : Knows later call)
    (htransaction : InTransaction later index call) (hbound : later.bound = db.bound)
    (hlocks : later.locks = db.locks)
    (hcodes : later.codes = db.codes) : Acted db index (later, call) := by
  refine ⟨h, hgrows, hknows, htransaction, ?_, ?_, ?_⟩
  · intro other hother
    exact .inl (hbound ▸ hother)
  · intro lock hlock _
    exact hlocks ▸ hlock
  · intro row hrow _ _ _
    exact hcodes ▸ hrow

section

variable (h : DatabaseOk db) (request : CodeRequest) (code : Text) (expiresAt : ℕ)
include h

theorem acted_issueDelete : Acted db index (issueDelete db request code expiresAt) := by
  unfold issueDelete
  split
  · exact acted_read h trivial trivial
  · next hfree =>
    refine ⟨databaseOk_codes h _, .of_same (fun _ h => h) rfl rfl rfl, trivial, trivial, fun _ hother => .inl hother,
      fun _ hlock _ => hlock, ?_⟩
    intro row hrow holder _ hlock
    refine mem_filter.mpr ⟨hrow, decide_eq_true fun huser => hfree ?_⟩
    refine any_eq_true.mpr ⟨row, hrow, ?_⟩
    rw [decide_eq_true huser, Bool.true_and]
    exact any_eq_true.mpr ⟨_, hlock, decide_eq_true rfl⟩

theorem acted_issueCreate (hone : ∀ row ∈ db.codes, row.userId = request.userId → row.expiresAt < db.now) :
    Acted db index (issueCreate db request code expiresAt) := by
  unfold issueCreate
  split
  · exact acted_read h trivial trivial
  · refine ⟨databaseOk_addCode h rfl hone, .of_same (fun _ h => h) rfl rfl rfl, trivial, trivial,
      fun _ hother => .inl hother, fun _ hlock _ => hlock, ?_⟩
    intro row hrow _ _ _
    exact mem_append_left _ hrow

end

/-! ### Redeeming -/

theorem acted_redeemFind (h : DatabaseOk db) (request : RedeemRequest) :
    Acted db index (db, redeemFind db request) := by
  unfold redeemFind
  split
  · exact acted_read h trivial trivial
  · split
    · exact acted_read h trivial trivial
    · exact acted_read h trivial trivial

theorem acted_redeemClaim (h : DatabaseOk db) (request : RedeemRequest) (row : LinkCode) :
    Acted db index (redeemClaim db index request row) := by
  unfold redeemClaim
  split
  · exact acted_read h trivial trivial
  · next hfree =>
    split
    · next hrow =>
      refine ⟨databaseOk_lock h (Bool.eq_false_of_not_eq_true hfree) index,
        .of_same (fun _ h => h) rfl rfl rfl, trivial,
        ⟨hrow, mem_append_right _ mem_cons_self⟩, fun _ hother => .inl hother, ?_, fun _ hrow _ _ _ => hrow⟩
      intro lock hlock _
      exact mem_append_left _ hlock
    · exact acted_read h trivial trivial

theorem mem_locks_release {lock : ℕ × ℕ} (hlock : lock ∈ db.locks) (hother : lock.2 ≠ index) :
    lock ∈ (db.release index).locks := mem_filter.mpr ⟨hlock, decide_eq_true hother⟩

section

variable (h : DatabaseOk db)
include h

theorem acted_release (hknows : Knows db call) (htransaction : InTransaction (db.release index) index call) :
    Acted db index (db.release index, call) := by
  have hgrows : Grows db (db.release index) := .of_same (fun _ h => h) rfl rfl rfl
  exact ⟨databaseOk_release h index, hgrows, hknows.grow hgrows, htransaction, fun _ hother => .inl hother,
    fun _ hlock hother => mem_locks_release hlock hother, fun _ hrow _ _ _ => hrow⟩

/-- A redemption that commits: what else it has written leaves the codes and the locks as they
are. -/
theorem acted_spend (hlock : (row.id, index) ∈ db.locks) (hok : DatabaseOk later)
    (hgrows : Grows db later) {link : Option RedeemedLink}
    (hbound : ∀ other ∈ later.bound, other ∈ db.bound ∨ other = index ∧ link.isSome)
    (hlocks : later.locks = (db.spend index row).locks) (hcodes : later.codes = (db.spend index row).codes) :
    Acted db index (later, .redeemed link) := by
  refine ⟨hok, hgrows, trivial, trivial, hbound, ?_, ?_⟩
  · intro lock hlock hother
    rw [hlocks]
    exact mem_locks_release hlock hother
  · intro other hother holder hholder hlocked
    rw [hcodes]
    refine mem_filter.mpr ⟨hother, decide_eq_true fun hid => hholder ?_⟩
    exact congrArg Prod.snd (Table.eq_of_key h.locks hlocked hlock hid)

theorem databaseOk_spend_redeem {row : LinkCode} (hrow : row ∈ db.codes) {later : Database}
    (hok : DatabaseOk later) (hnow : later.now = db.now) (hnext : db.nextId ≤ later.nextId)
    (hcodes : later.codes = (db.spend index row).codes) (hredeemed : later.redeemed = db.redeemed)
    (htime : db.now ≤ row.expiresAt) : DatabaseOk (later.redeem row) := by
  refine databaseOk_redeem hok ?_ ?_ ?_ ?_
  · exact Nat.lt_of_lt_of_le (h.codeBelow row hrow) hnext
  · intro other hother
    rw [hcodes] at hother
    exact of_decide_eq_true (mem_filter.mp hother).2
  · intro entry hentry hid
    rw [hredeemed] at hentry
    exact h.redeemedGone entry hentry row hrow hid.symm
  · rwa [hnow]

theorem acted_redeemWrite (request : RedeemRequest) (existing : Option Identity)
    (hrow : row ∈ db.codes) (hlock : (row.id, index) ∈ db.locks)
    (htime : existing.all (fun identity => identity.userId = row.userId) = true → db.now ≤ row.expiresAt) :
    Acted db index (redeemWrite db index request row existing) := by
  have hspend : DatabaseOk (db.spend index row) := databaseOk_codes (databaseOk_release h index) _
  cases existing with
  | some existing =>
    unfold redeemWrite
    dsimp only
    split
    · exact acted_spend h hlock hspend (.of_same (fun _ h => h) rfl rfl rfl) (fun _ hother => .inl hother) rfl rfl
    · next huser =>
      split
      · exact acted_release h trivial trivial
      · next hfree =>
        have htime' : db.now ≤ row.expiresAt := htime (decide_eq_true (not_not.mp huser))
        have hothers : ∀ identity ∈ (db.spend index row).identities, identity.id ≠ existing.id →
            identity.botId ≠ row.botId := by
          intro identity hidentity hid hbot
          refine hfree (any_eq_true.mpr ⟨identity, hidentity, ?_⟩)
          rw [decide_eq_true hid, decide_eq_true hbot]
          rfl
        have hrelink := databaseOk_relink hspend index request hothers
        have hredeem := @databaseOk_spend_redeem db index h row hrow _ hrelink rfl (Nat.le_refl _) rfl rfl htime'
        refine acted_spend h hlock hredeem ?_ ?_ rfl rfl
        · exact .of_same (fun _ h => mem_append_left _ h) rfl rfl rfl
        · intro other hother
          obtain hother | hother := mem_append.mp hother
          · exact .inl hother
          · exact .inr ⟨mem_singleton.mp hother, rfl⟩
  | none =>
    unfold redeemWrite
    dsimp only
    split
    · next hfree =>
      have hadd := @databaseOk_addIdentity _ hspend index
        { id := 0, provider := request.provider, address := request.address, dmThreadId := request.dmThreadId,
          userId := row.userId, spaceId := row.spaceId, botId := row.botId } hfree
      have hredeem := @databaseOk_spend_redeem db index h row hrow _ hadd rfl (Nat.le_succ _) rfl rfl (htime rfl)
      refine acted_spend h hlock hredeem ?_ ?_ rfl rfl
      · exact .of_same (fun _ h => mem_append_left _ h) rfl rfl rfl
      · intro other hother
        obtain hother | hother := mem_append.mp hother
        · exact .inl hother
        · exact .inr ⟨mem_singleton.mp hother, rfl⟩
    · exact acted_release h trivial trivial

theorem mem_history_of_find {provider address : Text}
    (hfind : db.findIdentity provider address = some identity) :
    identity ∈ db.history ∧ identity.key = (provider, address) := by
  unfold Database.findIdentity at hfind
  have hkey : identity.key = (provider, address) := by simpa using find?_some hfind
  exact ⟨h.stored identity (mem_of_find?_eq_some hfind), hkey⟩

end

theorem knows_provisionedFrom (request : IdentityRequest) (created : Bool)
    (hidentity : identity ∈ db.history) (hkey : identity.key = (request.provider, request.address))
    (hthread : threadId ∈ db.findThread identity.botId) :
    Knows db (provisionedFrom request identity threadId created) :=
  ⟨hthread, identity, hidentity, hkey, rfl, rfl, rfl⟩

theorem acted_createSpaceMember (h : DatabaseOk db) (request : IdentityRequest) {userId : Text} {spaceId : ℕ}
    (horganization : { id := spaceId, slug := slug userId } ∈ db.organizations)
    (hsettled : Settled db userId) :
    Acted db index (db.addSpaceMember spaceId userId, .findBot request userId spaceId) := by
  have hsame : ∀ {α : Type} (field : Database → α),
      (∀ members, field { db with spaceMembers := members } = field db) →
      field (db.addSpaceMember spaceId userId) = field db := by
    intro α field hfield
    unfold Database.addSpaceMember
    split
    · rfl
    · exact hfield _
  refine acted_write (databaseOk_addSpaceMember h horganization)
    (grows_addSpaceMember horganization) ?_ trivial
    (hsame Database.bound fun _ => rfl) (hsame Database.locks fun _ => rfl) (hsame Database.codes fun _ => rfl)
  change spaceId ∈ (db.addSpaceMember spaceId userId).findMembership userId
  rw [findMembership_addSpaceMember, if_pos rfl]
  rcases hfirst : db.findMembership userId with _ | spaceId'
  · rfl
  have hspace := h.eq_of_slug (hsettled spaceId' hfirst) horganization rfl
  rw [Organization.mk.injEq] at hspace
  rw [hspace.1]
  rfl

theorem acted_createIdentity (h : DatabaseOk db) (request : IdentityRequest) (userId : Text)
    (spaceId : ℕ) {botId : ℕ} (hthread : threadId ∈ db.findThread botId) :
    Acted db index (createIdentity db index request userId spaceId botId threadId) := by
  unfold createIdentity
  dsimp only
  split
  · next hfree =>
    refine ⟨databaseOk_addIdentity h index hfree, .of_same (fun _ h => mem_append_left _ h) rfl rfl rfl, ?_, trivial,
      ?_, fun _ hlock _ => hlock, fun _ hrow _ _ _ => hrow⟩
    · exact ⟨hthread, _, mem_append_right _ mem_cons_self, rfl, rfl, rfl, rfl⟩
    · intro other hother
      obtain hother | hother := mem_append.mp hother
      · exact .inl hother
      · exact .inr ⟨mem_singleton.mp hother, rfl⟩
  · exact acted_read h hthread trivial

/-! ### Acts of all calls -/

/-- A code is created while its user has no other that is good, redeemed before it expires, and a
bot is created while its user has none in the space. -/
def InTime (db : Database) (_ : ℕ) (call : Call) (fate : Fate) : Prop :=
  fate = .answered →
    match call with
    | .issueCreate request _ _ => ∀ row ∈ db.codes, row.userId = request.userId → row.expiresAt < db.now
    | .redeemWrite _ row existing =>
      existing.all (fun identity => identity.userId = row.userId) = true → db.now ≤ row.expiresAt
    | .createBot _ userId spaceId => db.findBot spaceId userId = none
    | _ => True

instance (db : Database) (index : ℕ) (call : Call) (fate : Fate) : Decidable (InTime db index call fate) := by
  unfold InTime
  cases call <;> infer_instance

theorem acted_next (h : DatabaseOk db) (hcall : CallOk db index call)
    (htime : InTime db index call .answered) (hopen : call.isDone = false) :
    Acted db index (next sha256 db index call) := by
  have htime' := htime rfl
  obtain ⟨hknows, htransaction, -⟩ := hcall
  cases call with
  | issue request code => exact acted_read h trivial trivial
  | issueDelete request code expiresAt => exact acted_issueDelete h request code expiresAt
  | issueCreate request code expiresAt => exact acted_issueCreate h request code expiresAt htime'
  | redeemFind request => exact acted_redeemFind h request
  | redeemClaim request row => exact acted_redeemClaim h request row
  | redeemIdentity request row => exact acted_read h trivial htransaction
  | redeemWrite request row existing =>
    exact acted_redeemWrite h request existing htransaction.1 htransaction.2 htime'
  | findIdentity request =>
    dsimp only [next]
    split
    · exact acted_read h trivial trivial
    · split
      · next existing hfind => exact acted_read h (mem_history_of_find h hfind) trivial
      · exact acted_read h trivial trivial
  | existingThread request existing | winnerThread request winner =>
    dsimp only [next]
    split
    · exact acted_read h trivial trivial
    · next thread hthread =>
      exact acted_read h (knows_provisionedFrom request false hknows.1 hknows.2 hthread) trivial
  | findUser | joinUser =>
    dsimp only [next]
    split <;> exact acted_read h trivial trivial
  | createUser request userId =>
    dsimp only [next]
    split
    · exact acted_read h trivial trivial
    · next hnew =>
      have hgrows : Grows db (db.addUser userId) := .of_same (fun _ h => h) rfl rfl rfl
      have hknows' : Knows (db.addUser userId) (.findMembership request userId) := trivial
      exact acted_write (databaseOk_addUser h hnew) hgrows hknows' trivial rfl rfl rfl
  | findMembership request userId =>
    dsimp only [next]
    split
    · next spaceId hspace => exact acted_read h hspace trivial
    · next hnone =>
      refine acted_read h ?_ trivial
      intro spaceId hspace
      rw [hnone] at hspace
      cases hspace
  | createOrganization request userId =>
    dsimp only [next]
    split
    · exact acted_read h hknows trivial
    · next hnew =>
      have hnew' : ∀ organization ∈ db.organizations, organization.slug ≠ slug userId := by simpa using hnew
      refine acted_write (databaseOk_addOrganization h hnew') (grows_addOrganization userId) ?_ trivial rfl rfl rfl
      exact ⟨mem_append_right _ mem_cons_self, (grows_addOrganization userId).settled userId hknows⟩
  | joinOrganization request userId =>
    dsimp only [next]
    split
    · next organization hfind =>
      refine acted_read h ⟨?_, hknows⟩ trivial
      have hslug : organization.slug = slug userId := by simpa using find?_some hfind
      rw [← hslug]
      exact mem_of_find?_eq_some hfind
    · exact acted_read h trivial trivial
  | createMember request userId spaceId =>
    have hsame : ∀ {α : Type} (field : Database → α), (∀ members, field { db with members } = field db) →
        field (db.addMember spaceId userId) = field db := by
      intro α field hfield
      unfold Database.addMember
      split
      · rfl
      · exact hfield _
    have hgrows : Grows db (db.addMember spaceId userId) :=
      .of_same (fun identity hidentity => hsame Database.history (fun _ => rfl) ▸ hidentity)
        (hsame Database.organizations fun _ => rfl) (hsame Database.spaceMembers fun _ => rfl)
        (hsame Database.bots fun _ => rfl)
    exact acted_write (databaseOk_addMember h spaceId userId) hgrows
      ⟨hgrows.organizations _ hknows.1, hgrows.settled userId hknows.2⟩ trivial (hsame Database.bound fun _ => rfl)
      (hsame Database.locks fun _ => rfl) (hsame Database.codes fun _ => rfl)
  | createSpace request userId spaceId =>
    have hsame : ∀ {α : Type} (field : Database → α),
        (∀ spaces made, field { db with spaces, madeSpaces := made } = field db) →
        field (db.addSpace spaceId userId) = field db := by
      intro α field hfield
      unfold Database.addSpace
      split
      · rfl
      · exact hfield _ _
    have hgrows : Grows db (db.addSpace spaceId userId) :=
      .of_same (fun identity hidentity => hsame Database.history (fun _ _ => rfl) ▸ hidentity)
        (hsame Database.organizations fun _ _ => rfl) (hsame Database.spaceMembers fun _ _ => rfl)
        (hsame Database.bots fun _ _ => rfl)
    exact acted_write (databaseOk_addSpace h hknows.1) hgrows
      ⟨hgrows.organizations _ hknows.1, hgrows.settled userId hknows.2⟩ trivial (hsame Database.bound fun _ _ => rfl)
      (hsame Database.locks fun _ _ => rfl) (hsame Database.codes fun _ _ => rfl)
  | createSpaceMember request userId spaceId => exact acted_createSpaceMember h request hknows.1 hknows.2
  | findBot request userId spaceId =>
    dsimp only [next]
    split <;> exact acted_read h hknows trivial
  | createBot request userId spaceId =>
    exact acted_write (databaseOk_addBot h hknows htime') (grows_addBot spaceId userId)
      ((grows_addBot spaceId userId).membership userId spaceId hknows) trivial rfl rfl rfl
  | findThread request userId spaceId botId =>
    dsimp only [next]
    split
    · exact acted_read h trivial trivial
    · next thread hthread => exact acted_read h hthread trivial
  | createIdentity request userId spaceId botId threadId =>
    exact acted_createIdentity h request userId spaceId hknows
  | findWinner request botId threadId =>
    dsimp only [next]
    split
    · exact acted_read h trivial trivial
    · next winner hfind =>
      obtain ⟨hwinner, hkey⟩ := mem_history_of_find h hfind
      split
      · next hbot => exact acted_read h (knows_provisionedFrom request false hwinner hkey (hbot ▸ hknows)) trivial
      · exact acted_read h ⟨hwinner, hkey⟩ trivial
  | issued | redeemed | provisioned | failed => cases hopen

theorem next_done (hdone : call.isDone) : next sha256 db index call = (db, call) := by
  cases call <;> first | rfl | cases hdone

theorem act_done (hdone : call.isDone) (fate : Fate) : act sha256 db index call fate = (db, call) := by
  cases fate with
  | answered => exact next_done hdone
  | lost => exact if_pos hdone

theorem acted_act (h : DatabaseOk db) {call : Call} (hcall : CallOk db index call) {fate : Fate}
    (htime : InTime db index call fate) : Acted db index (act sha256 db index call fate) := by
  cases hdone : call.isDone with
  | true =>
    rw [act_done hdone]
    exact acted_read h hcall.knows hcall.transaction
  | false =>
    cases fate with
    | answered => exact acted_next h hcall htime hdone
    | lost =>
      unfold act
      rw [hdone]
      exact acted_release h trivial trivial

section

variable (h : DatabaseOk db) (hcall : CallOk db index call) (htime : InTime db index call fate)
include h hcall htime

theorem callOk_act : CallOk (act sha256 db index call fate).1 index (act sha256 db index call fate).2 := by
  have hacted := @acted_act db sha256 index h call hcall fate htime
  refine ⟨hacted.knows, hacted.transaction, ?_⟩
  intro hbound
  obtain hold | ⟨-, hbinds⟩ := hacted.bound index hbound
  · have hdone : call.isDone := by
      have hbinds := hcall.bound hold
      cases call <;> first | rfl | cases hbinds
    rw [act_done hdone]
    exact hcall.bound hold
  · exact hbinds

theorem callOk_others {index' : ℕ} {call' : Call} (hother : index' ≠ index)
    (hcall' : CallOk db index' call') :
    CallOk (act sha256 db index call fate).1 index' call' := by
  have hacted := @acted_act db sha256 index h call hcall fate htime
  have hlocked : ∀ row : LinkCode, row ∈ db.codes ∧ (row.id, index') ∈ db.locks →
      row ∈ (act sha256 db index call fate).1.codes ∧ (row.id, index') ∈ (act sha256 db index call fate).1.locks := by
    rintro row ⟨hrow, hlock⟩
    exact ⟨hacted.codes row hrow index' hother hlock, hacted.locks _ hlock hother⟩
  refine ⟨hcall'.knows.grow hacted.grows, ?_, ?_⟩
  · have htransaction := hcall'.transaction
    cases call' with
    | redeemIdentity request row | redeemWrite request row existing => exact hlocked row htransaction
    | _ => trivial
  · intro hbound
    obtain hold | ⟨hsame, -⟩ := hacted.bound index' hbound
    · exact hcall'.bound hold
    · exact absurd hsame hother

end

theorem callOk_start (hstart : call.isStart) (hidle : index ∉ db.bound) : CallOk db index call := by
  cases call <;> first | exact ⟨trivial, trivial, fun hbound => absurd hbound hidle⟩ | cases hstart

theorem keeps_program : Calls.Keeps (program sha256) DatabaseOk CallOk (fun db index => index ∉ db.bound)
    (fun call => call.isStart) InTime where
  start _ _ _ _ hidle hstart := callOk_start hstart hidle
  act _ _ _ _ h hcall htime := ⟨(acted_act h hcall htime).ok, callOk_act h hcall htime⟩
  others _ _ _ _ _ _ h hcall htime hother hcall' := callOk_others h hcall htime hother hcall'
  idle _ _ _ _ index' h hcall htime hother hidle := by
    intro hbound
    obtain hold | ⟨hsame, -⟩ := (acted_act h hcall htime).bound index' hbound
    · exact hidle hold
    · exact hother hsame
  environment _ ms h := databaseOk_tick h ms
  environmentLocal _ _ _ _ _ hcall :=
    ⟨hcall.knows.grow (.of_same (fun _ h => h) rfl rfl rfl), hcall.transaction, hcall.bound⟩
  environmentIdle _ _ _ _ hidle := hidle

/-! ### Runs -/

/-- A database before any of the calls: its unique keys hold, and no user has two codes that are
good. -/
structure Ready (db : Database) : Prop where
  identityIds : (db.identities.map Identity.id).Nodup
  identityBelow : ∀ identity ∈ db.identities, identity.id < db.nextId
  addresses : (db.identities.map Identity.key).Nodup
  identityBots : (db.identities.map Identity.botId).Nodup
  slugs : (db.organizations.map Organization.slug).Nodup
  codeBelow : ∀ row ∈ db.codes, row.id < db.nextId
  oneCode : ∀ a ∈ db.codes, ∀ b ∈ db.codes, a.userId = b.userId → db.now ≤ a.expiresAt →
    db.now ≤ b.expiresAt → a = b
  locks : db.locks = []
  redeemed : db.redeemed = []
  bound : db.bound = []
  history : db.history = db.identities
  madeUsers : db.madeUsers = []
  madeSpaces : db.madeSpaces = []
  madeBots : db.madeBots = []

theorem databaseOk_ready (h : Ready db) : DatabaseOk db where
  __ := h
  redeemedBelow entry hentry := absurd (h.redeemed ▸ hentry) not_mem_nil
  redeemedGone entry hentry := absurd (h.redeemed ▸ hentry) not_mem_nil
  redeemedOnce := by
    rw [h.redeemed]
    exact nodup_nil
  redeemedInTime entry hentry := absurd (h.redeemed ▸ hentry) not_mem_nil
  locks := by
    rw [h.locks]
    exact nodup_nil
  stored identity hidentity := h.history ▸ hidentity
  kept identity hidentity := ⟨identity, h.history ▸ hidentity, rfl, rfl⟩
  madeUsers userId hmade := absurd (h.madeUsers ▸ hmade) not_mem_nil
  madeUsersOnce := h.madeUsers ▸ nodup_nil
  madeSpaces userId hmade := absurd (h.madeSpaces ▸ hmade) not_mem_nil
  madeSpacesOnce := h.madeSpaces ▸ nodup_nil
  madeBots userId hmade := absurd (h.madeBots ▸ hmade) not_mem_nil
  madeBotsOnce := h.madeBots ▸ nodup_nil

/-- What holds of identities and codes: each code is redeemed once and in time; an address is of one
user, ever since it was bound, and has one identity, and a bot too; a user has one code that is
good; a redemption without a result has stored nothing; a user is made once, and once a space and a
bot for it; and what a provisioning call returns was stored for its address, with the bot's
thread. -/
structure IdentityOk (s : Calls.State Database Call) : Prop where
  redeemedOnce : (s.shared.redeemed.map fun entry => entry.1.id).Nodup
  redeemedInTime : ∀ entry ∈ s.shared.redeemed, entry.2 ≤ entry.1.expiresAt
  oneUser : ∀ a ∈ s.shared.history, ∀ b ∈ s.shared.history, a.key = b.key → a.userId = b.userId
  stillBound : ∀ a ∈ s.shared.history, ∃ b ∈ s.shared.identities, b.key = a.key ∧ b.userId = a.userId
  addresses : (s.shared.identities.map Identity.key).Nodup
  bots : (s.shared.identities.map Identity.botId).Nodup
  oneCode : ∀ a ∈ s.shared.codes, ∀ b ∈ s.shared.codes, a.userId = b.userId → s.shared.now ≤ a.expiresAt →
    s.shared.now ≤ b.expiresAt → a = b
  nothingBound : ∀ index : ℕ, s.calls[index]? = some (.redeemed none) → index ∉ s.shared.bound
  madeUsers : s.shared.madeUsers.Nodup
  madeSpaces : s.shared.madeSpaces.Nodup
  madeBots : s.shared.madeBots.Nodup
  returned : ∀ (index : ℕ) (result : ProvisionedIdentity), s.calls[index]? = some (.provisioned result) →
    result.threadId ∈ s.shared.findThread result.botId ∧ ∃ identity ∈ s.shared.history,
      identity.key = (result.provider, result.address) ∧ identity.userId = result.userId ∧
        identity.spaceId = result.spaceId ∧ identity.botId = result.botId

theorem identityOk_of_holds {s : Calls.State Database Call}
    (h : Calls.Holds DatabaseOk CallOk (fun db index => index ∉ db.bound) s) : IdentityOk s where
  __ := h.shared
  oneUser a ha b hb hkey := by
    obtain ⟨a', ha', hakey, hauser⟩ := h.shared.kept a ha
    obtain ⟨b', hb', hbkey, hbuser⟩ := h.shared.kept b hb
    have hsame : a' = b' := Table.eq_of_key h.shared.addresses ha' hb' (by rw [hakey, hbkey, hkey])
    rw [← hauser, ← hbuser, hsame]
  stillBound := h.shared.kept
  bots := h.shared.identityBots
  nothingBound index hcall hbound := absurd ((h.calls index _ hcall).bound hbound) Bool.false_ne_true
  madeUsers := h.shared.madeUsersOnce
  madeSpaces := h.shared.madeSpacesOnce
  madeBots := h.shared.madeBotsOnce
  returned index result hcall := (h.calls index _ hcall).knows

def newState (db : Database) : Calls.State Database Call where
  shared := db
  calls := []

def emptyDatabase : Database where
  now := 0
  users := []
  organizations := []
  members := []
  spaces := []
  spaceMembers := []
  bots := []
  identities := []
  codes := []
  locks := []
  nextId := 0
  redeemed := []
  bound := []
  history := []
  madeUsers := []
  madeSpaces := []
  madeBots := []

def knownHash (_ : Text) : Text :=
  lit "162f83a5c479da6d7142300f5fb5858f860ab33915447a4bb4185791d74e23b9"

def firstText : IdentityRequest where
  provider := lit "sms"
  address := lit "+15550100"
  dmThreadId := none

def userCode : CodeRequest where
  userId := lit "user"
  spaceId := 1
  botId := 2

def typedCode : RedeemRequest where
  code := lit "ABCDEFGH"
  provider := lit "sms"
  address := lit "+15550101"
  dmThreadId := none

def acts (index count : ℕ) : List (Calls.Op Call Fate ℕ) :=
  List.replicate count (.act index .answered)

def runFrom (ops : List (Calls.Op Call Fate ℕ)) : Calls.State Database Call :=
  Run.after (Calls.step (program knownHash)) (newState emptyDatabase) ops

def oneAfterTheOther : List (Calls.Op Call Fate ℕ) :=
  [.start (.findIdentity firstText), .start (.issue userCode typedCode.code),
    .start (.redeemFind typedCode)] ++
    acts 0 13 ++ acts 1 3 ++ [.environment 1000] ++ acts 2 4

/-- Two codes are issued at once, a redemption waits until its code is expired, and two texts of a
new address each make a bot. -/
def twoCodes : List (Calls.Op Call Fate ℕ) :=
  [.start (.issue userCode (lit "AAAAAAAA")), .start (.issue userCode (lit "BBBBBBBB"))] ++
    acts 0 2 ++ acts 1 2 ++
    acts 0 1 ++ acts 1 1

def lateRedemption : List (Calls.Op Call Fate ℕ) :=
  [.start (.issue userCode typedCode.code), .start (.redeemFind typedCode)] ++ acts 0 3 ++ acts 1 1 ++
    [.environment (messagingLinkCodeTtlMs + 1)] ++ acts 1 3

def twoBots : List (Calls.Op Call Fate ℕ) :=
  [.start (.findIdentity firstText), .start (.findIdentity firstText)] ++ acts 0 9 ++ acts 1 4 ++
    acts 0 2 ++ acts 1 1

end ArdurBot.MessagingIdentity
