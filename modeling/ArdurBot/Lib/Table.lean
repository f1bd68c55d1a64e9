import Mathlib.Data.List.Nodup

/-!
# Tables with a key

The rows of a table are a list in which no two have the same key.
-/

namespace ArdurBot.Table

open List

variable {ρ κ : Type*} {key : ρ → κ} {rows : List ρ}

theorem eq_of_key (h : (rows.map key).Nodup) {a b : ρ} (ha : a ∈ rows) (hb : b ∈ rows)
    (hkey : key a = key b) : a = b :=
  inj_on_of_nodup_map h ha hb hkey

variable {k : κ} {row : ρ} {update : ρ → ρ}

theorem find_eq_some [DecidableEq κ] (h : (rows.map key).Nodup) :
    (rows.find? fun row => key row = k) = some row ↔ row ∈ rows ∧ key row = k := by
  constructor
  · intro hfind
    exact ⟨mem_of_find?_eq_some hfind, by simpa using find?_some hfind⟩
  · rintro ⟨hmem, rfl⟩
    cases hfind : rows.find? fun other => key other = key row with
    | none =>
      rw [find?_eq_none] at hfind
      exact absurd (decide_eq_true rfl) (hfind row hmem)
    | some other =>
      have hkey : key other = key row := by simpa using find?_some hfind
      rw [eq_of_key h (mem_of_find?_eq_some hfind) hmem hkey]

theorem find_eq_none [DecidableEq κ] : (rows.find? fun row => key row = k) = none ↔ ∀ row ∈ rows,
    key row ≠ k := by
  simp [find?_eq_none]

section

variable (h : (rows.map key).Nodup) (hfresh : ∀ other ∈ rows, key other ≠ key row)
include h hfresh

theorem nodup_cons : ((row :: rows).map key).Nodup := by
  rw [map_cons, List.nodup_cons]
  refine ⟨?_, h⟩
  intro hmem
  obtain ⟨other, hother, hkey⟩ := mem_map.mp hmem
  exact hfresh other hother hkey

theorem nodup_concat : ((rows ++ [row]).map key).Nodup :=
  (((perm_append_singleton row rows).map key).nodup_iff).mpr (nodup_cons h hfresh)

end

theorem map_key (hupdate : ∀ row, key (update row) = key row) : (rows.map update).map key = rows.map key := by
  rw [map_map]
  exact map_congr_left fun row _ => hupdate row

theorem nodup_map (h : (rows.map key).Nodup) (hupdate : ∀ row, key (update row) = key row) :
    ((rows.map update).map key).Nodup := by
  rwa [map_key hupdate]

theorem countP_map_le (h : (rows.map key).Nodup) {p q : ρ → Bool}
    (hother : ∀ row ∈ rows, key row ≠ k → p (update row) → q row) :
    (rows.map update).countP p ≤ rows.countP q + 1 := by
  classical
  induction rows with
  | nil => exact Nat.zero_le _
  | cons row rows ih =>
    have hnodup : (rows.map key).Nodup := (List.nodup_cons.mp h).2
    have hrest : ∀ other ∈ rows, key other ≠ k → p (update other) → q other :=
      fun other hmem => hother other (mem_cons_of_mem _ hmem)
    rw [map_cons, countP_cons, countP_cons]
    by_cases hkey : key row = k
    · have hmono : (rows.map update).countP p ≤ rows.countP q := by
        rw [countP_map]
        refine countP_mono_left fun other hmem hp => hrest other hmem ?_ hp
        intro hsame
        exact (List.nodup_cons.mp h).1 (mem_map.mpr ⟨other, hmem, hsame.trans hkey.symm⟩)
      split <;> omega
    · have htail := ih hnodup hrest
      by_cases hp : p (update row)
      · rw [if_pos hp, if_pos (hother row mem_cons_self hkey hp)]
        omega
      · rw [if_neg hp]
        omega

end ArdurBot.Table
