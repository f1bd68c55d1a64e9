import ArdurBot.Lib.Json.Text

/-!
# Scopes of memory

`packages/memory/src/scope.ts` and the scopes of `packages/contracts/src/memory-documents.ts`. The
key of a scope is the text it is stored and compared under: the bot and the group of a group's note,
and JSON for any other.
-/

namespace ArdurBot.Memory

open List Utf16 Json

def isIdentityUnit (u : CodeUnit) : Bool :=
  isWordUnit u || u = unit '-'

/-- `MemoryIdentity` -/
def isIdentity (id : Text) : Bool := 1 ≤ id.length && id.length ≤ 160 && id.all isIdentityUnit

inductive DocumentScope where
  | group (spaceId userId botId groupId : Text)
  | bot (spaceId userId botId : Text)
  | user (spaceId userId : Text)
  | spaceShared (spaceId : Text)
deriving DecidableEq

/-- The kinds, as a list is asked for them and as rows store them. -/
inductive ScopeKind where
  | group
  | bot
  | user
  | spaceShared
deriving DecidableEq

def DocumentScope.kind : DocumentScope → ScopeKind
  | group .. => .group
  | bot .. => .bot
  | user .. => .user
  | spaceShared .. => .spaceShared

def DocumentScope.spaceId : DocumentScope → Text
  | group spaceId _ _ _ => spaceId
  | bot spaceId _ _ => spaceId
  | user spaceId _ => spaceId
  | spaceShared spaceId => spaceId

def DocumentScope.botId : DocumentScope → Option Text
  | group _ _ botId _ => some botId
  | bot _ _ botId => some botId
  | user .. => none
  | spaceShared .. => none

def DocumentScope.groupId : DocumentScope → Option Text
  | group _ _ _ groupId => some groupId
  | bot .. => none
  | user .. => none
  | spaceShared .. => none

/-- `DocumentScopeSchema` -/
def DocumentScope.isValid : DocumentScope → Bool
  | group spaceId userId botId groupId =>
    isIdentity spaceId && isIdentity userId && isIdentity botId && isIdentity groupId
  | bot spaceId userId botId => isIdentity spaceId && isIdentity userId && isIdentity botId
  | user spaceId userId => isIdentity spaceId && isIdentity userId
  | spaceShared spaceId => isIdentity spaceId

def groupKey (botId groupId : Text) : Text := botId ++ unit ':' :: groupId

def jsonKey (parts : List Text) : Text := (JsValue.arr (parts.map .str)).stringify

def scopeKey : DocumentScope → Text
  | .group _ _ botId groupId => groupKey botId groupId
  | .bot spaceId userId botId => jsonKey [spaceId, lit "bot", userId, botId]
  | .user spaceId userId => jsonKey [spaceId, lit "user", userId]
  | .spaceShared spaceId => jsonKey [spaceId, lit "space-shared"]

/-- What a reader or writer may see. A text that may be missing counts as missing when it is empty,
but for `groupId`. -/
structure MemoryAccess where
  spaceId : Text
  userId : Text
  botId : Option Text
  runId : Option Text
  botIds : List Text
  groupIds : List Text
  groupId : Option Text
  knownSecrets : List Text

def present (text : Option Text) : Option Text := text.filter (· ≠ [])

def direct : Text := lit "direct"

def canAccessBot (access : MemoryAccess) (botId : Text) : Bool :=
  botId ∈ access.botIds && (present access.botId).all (· = botId)

def canAccessGroup (access : MemoryAccess) (groupId : Text) : Bool :=
  (groupId = direct || groupId ∈ access.groupIds) &&
    ((present access.runId).isNone || groupId = access.groupId.getD direct)

def canAccess (scope : DocumentScope) (access : MemoryAccess) : Bool :=
  match scope with
  | .group spaceId userId botId groupId =>
    spaceId = access.spaceId && canAccessGroup access groupId && (userId = access.userId && canAccessBot access botId)
  | .bot spaceId userId botId => spaceId = access.spaceId &&
    (userId = access.userId && canAccessBot access botId)
  | .user spaceId userId => spaceId = access.spaceId && userId = access.userId
  | .spaceShared spaceId => spaceId = access.spaceId

theorem not_isIdentityUnit :
    isIdentityUnit (unit ':') = false ∧ isIdentityUnit (unit '[') = false := by decide

theorem isIdentity_iff {id : Text} :
    isIdentity id ↔ (1 ≤ id.length ∧ id.length ≤ 160) ∧ ∀ u ∈ id, isIdentityUnit u := by
  simp only [isIdentity, Bool.and_eq_true, decide_eq_true_eq, all_eq_true]

theorem groupKey_inj {botId botId' groupId groupId' : Text} (hbot : unit ':' ∉ botId)
    (hbot' : unit ':' ∉ botId')
    (h : groupKey botId groupId = groupKey botId' groupId') : botId = botId' ∧ groupId = groupId' := by
  induction botId generalizing botId' with
  | nil =>
    cases botId' with
    | nil => exact ⟨rfl, (cons.inj h).2⟩
    | cons u botId' =>
      have hhead : unit ':' = u := (cons.inj h).1
      exact absurd (hhead ▸ mem_cons_self) hbot'
  | cons u botId ih =>
    cases botId' with
    | nil =>
      have hhead : u = unit ':' := (cons.inj h).1
      exact absurd (hhead ▸ mem_cons_self) hbot
    | cons u' botId' =>
      obtain ⟨rfl, htail⟩ := cons.inj h
      obtain ⟨hid, hgroup⟩ := ih (fun hmem => hbot (mem_cons_of_mem _ hmem))
        (fun hmem => hbot' (mem_cons_of_mem _ hmem)) htail
      exact ⟨by rw [hid], hgroup⟩

theorem jsonKey_inj {parts parts' : List Text} (h : jsonKey parts = jsonKey parts') : parts = parts' := by
  have hplain : ∀ parts : List Text, (JsValue.arr (parts.map .str)).Plain := by
    intro parts
    show AllItems _ _ _
    rw [allItems_iff]
    intro value hvalue
    obtain ⟨text, -, rfl⟩ := mem_map.mp hvalue
    trivial
  have hparse : parse (jsonKey parts) = parse (jsonKey parts') := by rw [h]
  unfold jsonKey at hparse
  rw [parse_stringify (hplain parts), parse_stringify (hplain parts')] at hparse
  injection hparse with hvalue
  injection hvalue with hitems
  exact map_injective_iff.mpr (fun _ _ heq => by injection heq) hitems

theorem colon_notMem {id : Text} (h : isIdentity id) : unit ':' ∉ id := by
  intro hmem
  have hunit := (isIdentity_iff.mp h).2 _ hmem
  rw [not_isIdentityUnit.1] at hunit
  cases hunit

theorem groupKey_ne_jsonKey {botId groupId : Text} (h : isIdentity botId) (parts : List Text) :
    groupKey botId groupId ≠ jsonKey parts := by
  intro heq
  cases botId with
  | nil => cases h
  | cons u botId =>
    have hhead : u = unit '[' := (cons.inj heq).1
    have hunit := (isIdentity_iff.mp h).2 u mem_cons_self
    rw [hhead, not_isIdentityUnit.2] at hunit
    cases hunit

theorem scope_eq_of_key {a b : DocumentScope} {access : MemoryAccess} (ha : a.isValid) (hb : b.isValid)
    (hsee : canAccess a access) (hsee' : canAccess b access) (h : scopeKey a = scopeKey b) : a = b := by
  cases a <;> cases b <;>
    simp only [DocumentScope.isValid, canAccess, scopeKey, Bool.and_eq_true, decide_eq_true_eq] at ha hb hsee hsee' h
  case group.group =>
    obtain ⟨rfl, rfl⟩ := groupKey_inj (colon_notMem ha.1.2) (colon_notMem hb.1.2) h
    rw [hsee.1.1, hsee'.1.1, hsee.2.1, hsee'.2.1]
  case group.bot => exact absurd h (groupKey_ne_jsonKey ha.1.2 _)
  case group.user => exact absurd h (groupKey_ne_jsonKey ha.1.2 _)
  case group.spaceShared => exact absurd h (groupKey_ne_jsonKey ha.1.2 _)
  case bot.group => exact absurd h.symm (groupKey_ne_jsonKey hb.1.2 _)
  case user.group => exact absurd h.symm (groupKey_ne_jsonKey hb.1.2 _)
  case spaceShared.group => exact absurd h.symm (groupKey_ne_jsonKey hb.1.2 _)
  case bot.bot =>
    have hparts := jsonKey_inj h
    simp only [cons.injEq, and_true, true_and] at hparts
    rw [hparts.1, hparts.2.1, hparts.2.2]
  case user.user =>
    have hparts := jsonKey_inj h
    simp only [cons.injEq, and_true, true_and] at hparts
    rw [hparts.1, hparts.2]
  case spaceShared.spaceShared =>
    have hparts := jsonKey_inj h
    simp only [cons.injEq, and_true] at hparts
    rw [hparts]
  all_goals
    have hlength := congrArg length (jsonKey_inj h)
    cases hlength

end ArdurBot.Memory
