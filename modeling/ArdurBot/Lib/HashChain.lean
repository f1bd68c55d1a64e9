import Mathlib.Data.List.Induction

/-!
# Hash chains

Each record of a chain names the hash of the record before it, and the first names none. If the hash
tells the records of two chains apart, then the last record determines the whole chain: nothing can
be dropped, added, reordered or replaced in front of it.
-/

namespace ArdurBot.HashChain

open List

variable {α β : Type} {link : α → Option β} {hash : α → β}

/-- Each element has its place: `R` holds of it, the one before it and its index. `previous` is the
one in front of the list, if there is one, and `index` that of the first. -/
def ChainedFrom (R : Option α → ℕ → α → Prop) : Option α → ℕ → List α → Prop
  | _, _, [] => True
  | previous, index, a :: rest => R previous index a ∧ ChainedFrom R (some a) (index + 1) rest

theorem chainedFrom_concat {R : Option α → ℕ → α → Prop} {previous : Option α} {index : ℕ}
    {l : List α} {a : α} :
    ChainedFrom R previous index (l ++ [a]) ↔
      ChainedFrom R previous index l ∧ R (l.getLast?.or previous) (index + l.length) a := by
  induction l generalizing previous index with
  | nil => simp [ChainedFrom]
  | cons b l ih =>
    rw [cons_append, ChainedFrom, ChainedFrom, ih, and_assoc]
    have hlast : (b :: l).getLast?.or previous = l.getLast?.or (some b) := by
      cases l with
      | nil => rfl
      | cons c l => simp [getLast?_cons]
    have hindex : index + (b :: l).length = index + 1 + l.length := by
      rw [length_cons]
      omega
    rw [hlast, hindex]

/-- The hash chain: no element is before the first, and the links do not depend on the index. -/
abbrev Linked (link : α → Option β) (hash : α → β) (records : List α) : Prop :=
  ChainedFrom (fun previous _ a => link a = previous.map hash) none 0 records

theorem linked_concat {records : List α} {a : α} :
    Linked link hash (records ++ [a]) ↔ Linked link hash records ∧ link a = records.getLast?.map hash := by
  rw [Linked, chainedFrom_concat, Option.or_none]

/-- **The last record determines the chain**, going back link by link. -/
theorem eq_of_getLast?_eq {l l' : List α} (hl : Linked link hash l) (hl' : Linked link hash l')
    (hinj : ∀ a ∈ l, ∀ b ∈ l', hash a = hash b → a = b) (hlast : l.getLast? = l'.getLast?) : l = l' := by
  induction l using reverseRecOn generalizing l' with
  | nil =>
    have hnone : l'.getLast? = none := hlast.symm
    exact (getLast?_eq_none_iff.mp hnone).symm
  | append_singleton records a ih =>
    induction l' using reverseRecOn with
    | nil => simp at hlast
    | append_singleton records' a' _ =>
      have ha : a = a' := by simpa using hlast
      subst ha
      obtain ⟨hlinked, hlink⟩ := linked_concat.mp hl
      obtain ⟨hlinked', hlink'⟩ := linked_concat.mp hl'
      have hprevious : records.getLast? = records'.getLast? := by
        have hhash : records.getLast?.map hash = records'.getLast?.map hash := hlink.symm.trans hlink'
        cases hb : records.getLast? with
        | none => cases hb' : records'.getLast? with
          | none => rfl
          | some b' => simp [hb, hb'] at hhash
        | some b => cases hb' : records'.getLast? with
          | none => simp [hb, hb'] at hhash
          | some b' =>
            have hsame : hash b = hash b' := by simpa [hb, hb'] using hhash
            have hmem := mem_append_left [a] (mem_of_getLast? hb)
            have hmem' := mem_append_left [a] (mem_of_getLast? hb')
            rw [hinj b hmem b' hmem' hsame]
      have hfront := ih hlinked hlinked'
        (fun b hb b' hb' => hinj b (mem_append_left _ hb) b' (mem_append_left _ hb')) hprevious
      rw [hfront]

end ArdurBot.HashChain
