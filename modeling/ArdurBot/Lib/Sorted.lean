import Mathlib.Data.List.Sort

/-!
# Items sorted by a key

Sorting keeps the items, and goes along with a map that keeps their keys. Where the keys differ, the
order in which the items came does not matter.
-/

namespace ArdurBot.Sorted

open List

variable {α β γ κ : Type*} [LinearOrder κ] {key : α → κ} {items items' : List α} {item : α}

def sortByKey (key : α → κ) (items : List α) : List α :=
  items.insertionSort fun a b => key a ≤ key b

abbrev SortedByKey (key : α → κ) (items : List α) : Prop := items.Pairwise fun a b => key a ≤ key b

theorem sortByKey_perm (key : α → κ) (items : List α) : (sortByKey key items).Perm items :=
  perm_insertionSort _ _

theorem mem_sortByKey : item ∈ sortByKey key items ↔ item ∈ items := mem_insertionSort _

theorem length_sortByKey (items : List α) : (sortByKey key items).length = items.length :=
  (sortByKey_perm key items).length_eq

theorem sortedByKey_sortByKey (key : α → κ) (items : List α) : SortedByKey key (sortByKey key items) := by
  have : IsTrans α fun a b => key a ≤ key b := ⟨fun _ _ _ => le_trans⟩
  have : Std.Total fun a b => key a ≤ key b := ⟨fun a b => le_total (key a) (key b)⟩
  exact pairwise_insertionSort _ _

theorem sortByKey_of_sorted (h : SortedByKey key items) : sortByKey key items = items :=
  h.insertionSort_eq

theorem sortByKey_map (f : α → β) (key : β → κ) (items : List α) :
    sortByKey key (items.map f) = (sortByKey (fun item => key (f item)) items).map f :=
  (map_insertionSort (fun a b => key (f a) ≤ key (f b)) (fun a b => key a ≤ key b) f items
    fun _ _ _ _ => Iff.rfl).symm

theorem sortByKey_map_snd (f : β → γ) (entries : List (κ × β)) :
    sortByKey Prod.fst (entries.map fun entry => (entry.1, f entry.2)) =
      (sortByKey Prod.fst entries).map fun entry => (entry.1, f entry.2) :=
  sortByKey_map _ _ _

theorem SortedByKey.map_snd {entries : List (κ × β)} (h : SortedByKey Prod.fst entries) (f : β → γ) :
    SortedByKey Prod.fst (entries.map fun entry => (entry.1, f entry.2)) :=
  pairwise_map.mpr h

theorem sortByKey_eq_of_perm (hperm : items.Perm items') (hkeys : (items.map key).Nodup) :
    sortByKey key items = sortByKey key items' := by
  have hsorted : (sortByKey key items).Perm (sortByKey key items') :=
    (sortByKey_perm key items).trans (hperm.trans (sortByKey_perm key items').symm)
  refine List.Perm.eq_of_pairwise ?_ (sortedByKey_sortByKey key items)
    (sortedByKey_sortByKey key items') hsorted
  intro a b ha hb hab hba
  have hmem : b ∈ items := hperm.mem_iff.mpr (mem_sortByKey.mp hb)
  exact inj_on_of_nodup_map hkeys (mem_sortByKey.mp ha) hmem (le_antisymm hab hba)

end ArdurBot.Sorted
