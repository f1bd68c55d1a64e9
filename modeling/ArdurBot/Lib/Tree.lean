import ArdurBot.Lib.Table

/-!
# Trees of directories

A tree is the list of what is in it, by path: a directory, or a leaf with a value. What has a path
has its parents. A leaf is below a directory only through one of the directory's children.
-/

namespace ArdurBot

open List

variable {α β γ : Type*}

/-- Entries by path; a directory has no value. -/
abbrev Tree (α β : Type*) := List (List α × Option β)

namespace Tree

structure Ok (tree : Tree α β) : Prop where
  paths : (tree.map (·.1)).Nodup
  named : ∀ entry ∈ tree, entry.1 ≠ []
  parents : ∀ entry ∈ tree, ∀ path, path ≠ [] → path <+: entry.1 → path ≠ entry.1 → (path, none) ∈ tree

def mapValues (f : β → γ) (tree : Tree α β) : Tree α γ :=
  tree.map fun entry => (entry.1, entry.2.map f)

theorem mem_mapValues {f : β → γ} {tree : Tree α β} {path : List α} {value : Option γ} :
    (path, value) ∈ mapValues f tree ↔ ∃ old, (path, old) ∈ tree ∧ old.map f = value := by
  constructor
  · intro h
    obtain ⟨entry, hentry, heq⟩ := mem_map.mp h
    obtain ⟨rfl, rfl⟩ := Prod.mk.inj heq
    exact ⟨entry.2, hentry, rfl⟩
  · rintro ⟨old, hold, rfl⟩
    exact mem_map.mpr ⟨(path, old), hold, rfl⟩

theorem map_fst_mapValues (f : β → γ) (tree : Tree α β) : (mapValues f tree).map (·.1) = tree.map (·.1) := by
  unfold mapValues
  rw [map_map]
  rfl

theorem ok_of_mapValues {f : β → γ} {tree : Tree α β} (h : (mapValues f tree).Ok) : tree.Ok := by
  have hmem : ∀ entry ∈ tree, (entry.1, entry.2.map f) ∈ mapValues f tree := fun entry => mem_map_of_mem
  constructor
  · rw [← map_fst_mapValues f]
    exact h.paths
  · exact fun entry hentry => h.named _ (hmem entry hentry)
  · intro entry hentry path hpath hpre hne
    obtain ⟨old, hold, hnone⟩ := mem_mapValues.mp (h.parents _ (hmem entry hentry) path hpath hpre hne)
    rw [Option.map_eq_none_iff] at hnone
    exact hnone ▸ hold

variable {tree : Tree α β} {path : List α} {value : Option β}

theorem Ok.eq_of_mem (h : tree.Ok) {other : Option β} (hvalue : (path, value) ∈ tree)
    (hother : (path, other) ∈ tree) :
    value = other := congrArg Prod.snd (Table.eq_of_key h.paths hvalue hother rfl)

theorem Ok.eq_of_isPrefix (h : tree.Ok) {leaf : β} (hleaf : (path, some leaf) ∈ tree)
    {entry : List α × Option β}
    (hentry : entry ∈ tree) (hpre : path <+: entry.1) : entry = (path, some leaf) := by
  by_cases hsame : path = entry.1
  · subst hsame
    exact Table.eq_of_key h.paths hentry hleaf rfl
  · have hdir := h.parents entry hentry path (h.named _ hleaf) hpre hsame
    cases h.eq_of_mem hleaf hdir

section

variable [DecidableEq α]

/-- What is at a path; the tree itself is a directory. -/
def find (tree : Tree α β) (path : List α) : Option (Option β) :=
  if path = [] then some none else (tree.find? fun entry => entry.1 = path).map (·.2)

def children (tree : Tree α β) (path : List α) : List (List α) :=
  (tree.filter fun entry => entry.1 ≠ [] && entry.1.dropLast = path).map (·.1)

theorem find_nil (tree : Tree α β) : find tree [] = some none := if_pos rfl

theorem Ok.find_eq_some (h : tree.Ok) (hpath : path ≠ []) :
    find tree path = some value ↔ (path, value) ∈ tree := by
  unfold find
  rw [if_neg hpath, Option.map_eq_some_iff]
  constructor
  · rintro ⟨entry, hfind, rfl⟩
    obtain ⟨hentry, rfl⟩ := (Table.find_eq_some h.paths).mp hfind
    exact hentry
  · exact fun hmem => ⟨(path, value), (Table.find_eq_some h.paths).mpr ⟨hmem, rfl⟩, rfl⟩

theorem Ok.find_of_mem (h : tree.Ok) (hmem : (path, value) ∈ tree) : find tree path = some value :=
  (h.find_eq_some (h.named _ hmem)).mpr hmem

theorem Ok.find_eq_none (h : tree.Ok) :
    find tree path = none ↔ path ≠ [] ∧ ∀ value, (path, value) ∉ tree := by
  constructor
  · intro hnone
    have hpath : path ≠ [] := by
      rintro rfl
      rw [find_nil] at hnone
      cases hnone
    refine ⟨hpath, ?_⟩
    intro value hmem
    rw [h.find_of_mem hmem] at hnone
    cases hnone
  · rintro ⟨hpath, hno⟩
    cases hfind : find tree path with
    | none => rfl
    | some value => exact absurd ((h.find_eq_some hpath).mp hfind) (hno value)

theorem Ok.exists_child (h : tree.Ok) (hdir : find tree path = some none)
    {leaf : List α} {value : β} (hleaf : (leaf, some value) ∈ tree) (hpre : path <+: leaf) :
    ∃ child ∈ children tree path, child <+: leaf := by
  obtain ⟨rest, rfl⟩ := hpre
  cases rest with
  | nil =>
    rw [append_nil] at hleaf
    rw [h.find_of_mem hleaf] at hdir
    cases hdir
  | cons name rest =>
    have hmem : ∃ child, (path ++ [name], child) ∈ tree := by
      cases rest with
      | nil => exact ⟨_, hleaf⟩
      | cons next rest =>
        refine ⟨none, h.parents _ hleaf (path ++ [name]) (by simp) ⟨next :: rest, by simp⟩ ?_⟩
        intro heq
        simpa using congrArg length heq
    obtain ⟨child, hchild⟩ := hmem
    refine ⟨path ++ [name], ?_, ⟨rest, by simp⟩⟩
    exact mem_map.mpr ⟨_, mem_filter.mpr ⟨hchild, by simp⟩, rfl⟩

theorem Ok.add (h : tree.Ok) (hnew : find tree path = none) (hparent : find tree path.dropLast = some none)
    (value : Option β) : Ok (tree ++ [(path, value)]) := by
  obtain ⟨hpath, hno⟩ := h.find_eq_none.mp hnew
  constructor
  · rw [map_append, nodup_append]
    refine ⟨h.paths, nodup_singleton _, ?_⟩
    intro old hold other hother heq
    obtain ⟨entry, hentry, rfl⟩ := mem_map.mp hold
    obtain rfl := mem_singleton.mp hother
    exact hno entry.2 (heq ▸ hentry)
  · intro entry hentry
    obtain hentry | hentry := mem_append.mp hentry
    · exact h.named entry hentry
    · obtain rfl := mem_singleton.mp hentry
      exact hpath
  · intro entry hentry above habove hpre hne
    rw [mem_append]
    left
    obtain hentry | hentry := mem_append.mp hentry
    · exact h.parents entry hentry above habove hpre hne
    · obtain rfl := mem_singleton.mp hentry
      dsimp only at hpre hne
      have hlast : above <+: path.dropLast := by
        rw [← dropLast_append_getLast hpath] at hpre hne
        obtain hpre | heq := prefix_concat_iff.mp hpre |>.symm
        · exact hpre
        · exact absurd heq hne
      by_cases hsame : above = path.dropLast
      · rw [← hsame] at hparent
        exact (h.find_eq_some habove).mp hparent
      · have hdir : path.dropLast ≠ [] := by
          intro hnil
          rw [hnil, prefix_nil] at hlast
          exact habove hlast
        exact h.parents _ ((h.find_eq_some hdir).mp hparent) above habove hlast hsame

theorem find_append_of_some {more : Tree α β} (h : find tree path = some value) :
    find (tree ++ more) path = some value := by
  unfold find at h ⊢
  split
  · rename_i hpath
    rw [if_pos hpath] at h
    exact h
  · rename_i hpath
    rw [if_neg hpath, Option.map_eq_some_iff] at h
    obtain ⟨entry, hfind, rfl⟩ := h
    rw [find?_append, hfind]
    rfl

end

end Tree

end ArdurBot
