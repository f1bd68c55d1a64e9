import Mathlib.Data.List.Induction
import Mathlib.Data.List.Nodup

/-!
# Dictionaries

A dictionary in the order its keys were first set, as a JavaScript `Map` is.
-/

namespace ArdurBot.Dict

open List

variable {κ β : Type*} [DecidableEq κ]

section

variable (entries : List (κ × β)) (key : κ)

def get : Option β := (entries.find? fun entry => entry.1 = key).map Prod.snd

def set (value : β) : List (κ × β) :=
  if entries.any fun entry => entry.1 = key then entries.map fun entry => if entry.1 = key then
    (key, value) else entry
  else entries ++ [(key, value)]

def delete : List (κ × β) := entries.filter fun entry => entry.1 ≠ key

end

section

variable {entries : List (κ × β)} {key : κ} {value : β} {entry : κ × β}

theorem mem_set : entry ∈ set entries key value ↔ entry = (key, value) ∨ entry ∈ entries ∧ entry.1 ≠ key := by
  unfold set
  split
  · rename_i hany
    obtain ⟨old, hold, heq⟩ := any_eq_true.mp hany
    rw [decide_eq_true_eq] at heq
    rw [mem_map]
    constructor
    · rintro ⟨other, hother, rfl⟩
      split
      · exact .inl rfl
      · rename_i hne
        exact .inr ⟨hother, hne⟩
    · rintro (rfl | ⟨hentry, hne⟩)
      · exact ⟨old, hold, if_pos heq⟩
      · exact ⟨entry, hentry, if_neg hne⟩
  · rename_i hnone
    have hne : ∀ other ∈ entries, other.1 ≠ key := fun other hother heq =>
      hnone (any_eq_true.mpr ⟨other, hother, decide_eq_true heq⟩)
    rw [mem_append, mem_singleton]
    constructor
    · rintro (hentry | rfl)
      · exact .inr ⟨hentry, hne entry hentry⟩
      · exact .inl rfl
    · rintro (rfl | ⟨hentry, -⟩)
      · exact .inr rfl
      · exact .inl hentry

theorem nodup_set (h : (entries.map Prod.fst).Nodup) : ((set entries key value).map Prod.fst).Nodup := by
  unfold set
  split
  · have hkeys : (fun entry : κ × β => (if entry.1 = key then (key, value) else entry).1) = Prod.fst := by
      funext entry
      split
      · next hkey => exact hkey.symm
      · rfl
    rwa [map_map, Function.comp_def, hkeys]
  · next hnone =>
    have hnew : key ∉ entries.map Prod.fst := by simpa using hnone
    rw [map_append, map_singleton]
    exact h.append (nodup_singleton key) (by simpa using hnew)

theorem mem_set_self : (key, value) ∈ set entries key value := mem_set.mpr (.inl rfl)

theorem get_map_ne {other : κ} (hne : other ≠ key) :
    get (entries.map fun entry => if entry.1 = key then (key, value) else entry) other = get entries other := by
  unfold get
  induction entries with
  | nil => rfl
  | cons entry entries ih =>
    rw [map_cons, find?_cons, find?_cons]
    by_cases hkey : entry.1 = key
    · have hother : ¬ key = other := fun heq => hne heq.symm
      rw [if_pos hkey, hkey, decide_eq_false hother]
      exact ih
    · rw [if_neg hkey]
      cases decide (entry.1 = other) with
      | true => rfl
      | false => exact ih

theorem get_set_ne {other : κ} (hne : other ≠ key) :
    get (set entries key value) other = get entries other := by
  unfold set
  split
  · exact get_map_ne hne
  · have hother : ¬ key = other := fun heq => hne heq.symm
    unfold get
    rw [find?_append, find?_singleton, decide_eq_false hother]
    cases entries.find? fun entry => entry.1 = other <;> rfl

theorem get_set_self : get (set entries key value) key = some value := by
  have hmem : (key, value) ∈ set entries key value := mem_set_self
  rcases hfind : (set entries key value).find? fun entry => entry.1 = key with _ | entry
  · exact absurd (decide_eq_true rfl) (find?_eq_none.mp hfind _ hmem)
  have hkey : entry.1 = key := by simpa using find?_some hfind
  obtain rfl | ⟨-, hne⟩ := mem_set.mp (mem_of_find?_eq_some hfind)
  · unfold get
    rw [hfind]
    rfl
  · exact absurd hkey hne

end

section

variable {α : Type*}

section

variable (items : List α)

def numbered : List (ℕ × α) := items.mapIdx Prod.mk

theorem numbered_concat (item : α) : numbered (items ++ [item]) = numbered items ++ [(items.length, item)] :=
  mapIdx_concat

theorem map_snd_numbered : (numbered items).map Prod.snd = items := by
  refine ext_getElem? fun index => ?_
  rw [getElem?_map, numbered, getElem?_mapIdx, Option.map_map]
  exact congrFun Option.map_id items[index]?

theorem get_numbered (index : ℕ) : get (numbered items) index = items[index]? := by
  induction items using reverseRecOn with
  | nil => rfl
  | append_singleton items item ih =>
    rw [get, numbered_concat, find?_append, Option.map_or]
    rw [get] at ih
    rw [ih]
    by_cases hlt : index < items.length
    · rw [getElem?_append_left hlt, getElem?_eq_getElem hlt, Option.some_or]
    · rw [getElem?_eq_none (by omega), Option.none_or, getElem?_append_right (by omega)]
      by_cases heq : items.length = index
      · subst heq
        simp
      · have hpos : index - items.length ≠ 0 := by omega
        obtain ⟨n, hn⟩ := Nat.exists_eq_succ_of_ne_zero hpos
        rw [hn]
        simp [heq]

end

variable {items : List α} {index : ℕ}

theorem mem_numbered {item : α} : (index, item) ∈ numbered items ↔ items[index]? = some item := by
  rw [numbered, mem_mapIdx]
  constructor
  · intro ⟨i, hi, heq⟩
    cases heq
    exact getElem?_eq_getElem hi
  · intro h
    obtain ⟨hi, heq⟩ := List.getElem?_eq_some_iff.mp h
    exact ⟨index, hi, by rw [heq]⟩

theorem set_numbered (h : index < items.length) (item : α) :
    set (numbered items) index item = numbered (items.set index item) := by
  have hany : ((numbered items).any fun entry => entry.1 = index) = true :=
    any_eq_true.mpr ⟨_, mem_numbered.mpr (getElem?_eq_getElem h), decide_eq_true rfl⟩
  rw [set, if_pos hany]
  refine ext_getElem? fun i => ?_
  rw [getElem?_map, numbered, numbered, getElem?_mapIdx, getElem?_mapIdx, getElem?_set]
  by_cases hi : index = i
  · subst hi
    simp [h]
  · rw [if_neg hi, Option.map_map]
    refine congrArg (fun f => Option.map f items[i]?) (funext fun x => ?_)
    exact if_neg (Ne.symm hi)

theorem set_numbered_length (items : List α) (item : α) :
    set (numbered items) items.length item = numbered (items ++ [item]) := by
  have hany : ¬ ((numbered items).any fun entry => entry.1 = items.length) = true := by
    intro hany
    obtain ⟨⟨i, x⟩, hmem, hi⟩ := any_eq_true.mp hany
    have hlt := (List.getElem?_eq_some_iff.mp (mem_numbered.mp hmem)).1
    have heq : i = items.length := of_decide_eq_true hi
    omega
  rw [set, if_neg hany, numbered_concat]

theorem set_get_numbered (h : index < items.length) (change : α → α) (default : α) :
    set (numbered items) index (change ((get (numbered items) index).getD default)) =
      numbered (items.modify index change) := by
  rw [set_numbered h, get_numbered, getElem?_eq_getElem h, Option.getD_some, modify_eq_set_getElem?,
    getElem?_eq_getElem h]
  rfl

end

end ArdurBot.Dict
