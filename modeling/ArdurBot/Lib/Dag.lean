import Mathlib.Algebra.GroupWithZero.Nat
import Mathlib.Algebra.Order.BigOperators.Group.List
import Mathlib.Algebra.Order.Group.Nat
import Mathlib.Data.List.Perm.Subperm

/-!
# Finite directed acyclic graphs

A graph is given by the list of its nodes and the successors of each. The depth-first search
`hasCycle` keeps the nodes it is in the middle of on a path, and reports a cycle when it comes back
to one of them. If it reports none, the finished nodes are in an order in which the successors of a
node come after it, and so there is no cycle.

A rule that gives the value of a node from those of its successors has one solution on such a graph.
`iterate_sweep_agree` says that sweeping over the nodes in any order, again and again, arrives at it
after as many sweeps as there are nodes.
-/

namespace ArdurBot.Dag

open List Relation

variable {α : Type}

def Sorted (next : α → List α) : List α → Prop
  | [] => True
  | a :: rest => (∀ b ∈ next a, b ∈ rest) ∧ Sorted next rest

variable {next : α → List α}

variable {order : List α} {a b : α}

section

variable (h : Sorted next order) (ha : a ∈ order)
include h ha

theorem Sorted.closed (hb : b ∈ next a) : b ∈ order := by
  induction order with
  | nil => simp at ha
  | cons c rest ih =>
    obtain rfl | ha := mem_cons.mp ha
    · exact mem_cons_of_mem _ (h.1 b hb)
    · exact mem_cons_of_mem _ (ih h.2 ha)

theorem Sorted.reaches (hab : TransGen (fun a b => b ∈ next a) a b) : b ∈ order := by
  induction hab with
  | single hb => exact h.closed ha hb
  | tail _ hc ih => exact h.closed ih hc

theorem Sorted.acyclic : ¬ TransGen (fun a b => b ∈ next a) a a := by
  induction order with
  | nil => simp at ha
  | cons c rest ih =>
    intro hcycle
    obtain rfl | ha := mem_cons.mp ha
    · -- the first step of the cycle leaves the head for good
      have hrest : a ∈ rest := by
        obtain ⟨b, hb, hba⟩ := TransGen.head'_iff.mp hcycle
        obtain rfl | hba := reflTransGen_iff_eq_or_transGen.mp hba
        · exact h.1 _ hb
        · exact h.2.reaches (h.1 b hb) hba
      exact ih h.2 hrest hcycle
    · exact ih h.2 ha hcycle

end

/-- More than any list of successors is long. -/
def width (ids : List α) (next : α → List α) : ℕ := (ids.map fun a => (next a).length).sum + 2

theorem length_lt_width {ids : List α} {a : α} (ha : a ∈ ids) : (next a).length + 1 < width ids next := by
  have hle : (next a).length ≤ (ids.map fun a => (next a).length).sum :=
    le_sum_of_mem (mem_map_of_mem ha)
  rw [width]
  omega

section Search

variable [DecidableEq α]

def remaining (ids path : List α) : ℕ := (ids.filter (· ∉ path)).length

theorem remaining_lt {ids path : List α} {a : α} (ha : a ∈ ids) (hpath : a ∉ path) :
    remaining ids (a :: path) < remaining ids path := by
  rw [remaining, remaining]
  have hsub : ids.filter (· ∉ a :: path) = (ids.filter (· ∉ path)).filter (· ≠ a) := by
    rw [filter_filter]
    apply filter_congr
    intro b _
    simp
  rw [hsub]
  apply length_filter_lt_length_iff_exists.mpr
  exact ⟨a, by simp [ha, hpath], by simp⟩

theorem search_decreases {ids path : List α} {a : α} (ha : a ∈ ids) (hpath : a ∉ path) :
    remaining ids (a :: path) * width ids next + ((next a).length + 1) < remaining ids path * width ids next := by
  have hlt : remaining ids (a :: path) + 1 ≤ remaining ids path := remaining_lt ha hpath
  have hmul := Nat.mul_le_mul_right (width ids next) hlt
  have hwidth := @length_lt_width _ next _ _ ha
  rw [Nat.add_mul, Nat.one_mul] at hmul
  omega

mutual

/-- Nothing if there is a cycle, and else the nodes that are done. -/
def visit (ids : List α) (next : α → List α) (path done : List α) (a : α) (ha : a ∈ ids) : Option (List α) :=
  if a ∈ done then some done
  else if hpath : a ∈ path then none
  else (visitAll ids next (a :: path) done (next a)).map (a :: ·)
termination_by remaining ids path * width ids next
decreasing_by exact search_decreases ha hpath

def visitAll (ids : List α) (next : α → List α) (path done : List α) : List α → Option (List α)
  | [] => some done
  | b :: rest =>
    if hb : b ∈ ids then
      match visit ids next path done b hb with
      | none => none
      | some done => visitAll ids next path done rest
    else visitAll ids next path done rest
termination_by l => remaining ids path * width ids next + (l.length + 1)
decreasing_by
  · exact Nat.lt_add_of_pos_right (Nat.succ_pos _)
  · exact Nat.add_lt_add_left (Nat.lt_succ_self _) _
  · exact Nat.add_lt_add_left (Nat.lt_succ_self _) _

end

def hasCycle (ids : List α) (next : α → List α) : Bool := (visitAll ids next [] [] ids).isNone

/-- What a search adds to the nodes that are done. -/
structure Extends (ids : List α) (next : α → List α) (path done done' : List α) : Prop where
  sorted : Sorted (fun a => (next a).filter (· ∈ ids)) done'
  nodup : done'.Nodup
  mem_ids : ∀ a ∈ done', a ∈ ids
  mono : ∀ a ∈ done, a ∈ done'
  avoids : ∀ a ∈ path, a ∉ done → a ∉ done'

theorem extends_of_search {ids : List α} (n : ℕ) :
    ∀ path done, remaining ids path = n → Extends ids next path done done →
      (∀ a ha done', visit ids next path done a ha = some done' → Extends ids next path done done' ∧ a ∈ done') ∧
      ∀ l done', visitAll ids next path done l = some done' →
        Extends ids next path done done' ∧ ∀ b ∈ l, b ∈ ids → b ∈ done' := by
  induction n using Nat.strongRecOn with
  | _ n ih =>
    have hvisit : ∀ path done, remaining ids path = n → Extends ids next path done done →
        ∀ a ha done', visit ids next path done a ha = some done' → Extends ids next path done done' ∧ a ∈ done' := by
      intro path done hn h a ha done' hresult
      rw [visit] at hresult
      by_cases hdone : a ∈ done
      · rw [if_pos hdone, Option.some.injEq] at hresult
        rw [← hresult]
        exact ⟨h, hdone⟩
      rw [if_neg hdone] at hresult
      by_cases hpath : a ∈ path
      · simp [hpath] at hresult
      rw [dif_neg hpath, Option.map_eq_some_iff] at hresult
      obtain ⟨inner, hinner, rfl⟩ := hresult
      have hless : remaining ids (a :: path) < n := hn ▸ remaining_lt ha hpath
      have hstart : Extends ids next (a :: path) done done :=
        ⟨h.sorted, h.nodup, h.mem_ids, fun _ hb => hb, fun _ _ hb => hb⟩
      obtain ⟨hext, hall⟩ := (ih _ hless (a :: path) done rfl hstart).2 _ _ hinner
      have hnew : a ∉ inner := hext.avoids a mem_cons_self hdone
      refine ⟨⟨⟨?_, hext.sorted⟩, nodup_cons.mpr ⟨hnew, hext.nodup⟩, ?_, ?_, ?_⟩, mem_cons_self⟩
      · intro b hb
        rw [mem_filter, decide_eq_true_eq] at hb
        exact hall b hb.1 hb.2
      · intro b hb
        obtain rfl | hb := mem_cons.mp hb
        · exact ha
        · exact hext.mem_ids b hb
      · exact fun b hb => mem_cons_of_mem _ (hext.mono b hb)
      · intro b hb hbdone hmem
        obtain rfl | hmem := mem_cons.mp hmem
        · exact hpath hb
        · exact hext.avoids b (mem_cons_of_mem _ hb) hbdone hmem
    intro path done hn h
    refine ⟨hvisit path done hn h, ?_⟩
    intro l
    induction l generalizing done with
    | nil =>
      intro done' hresult
      rw [visitAll, Option.some.injEq] at hresult
      rw [← hresult]
      exact ⟨h, by simp⟩
    | cons b rest ihl =>
      intro done' hresult
      rw [visitAll] at hresult
      by_cases hb : b ∈ ids
      · rw [dif_pos hb] at hresult
        rcases hfirst : visit ids next path done b hb with _ | middle
        · simp [hfirst] at hresult
        rw [hfirst] at hresult
        obtain ⟨hmiddle, hmem⟩ := hvisit path done hn h b hb middle hfirst
        have hagain : Extends ids next path middle middle :=
          ⟨hmiddle.sorted, hmiddle.nodup, hmiddle.mem_ids, fun _ hc => hc, fun _ _ hc => hc⟩
        obtain ⟨hext, hall⟩ := ihl middle hagain done' hresult
        refine ⟨⟨hext.sorted, hext.nodup, hext.mem_ids, fun c hc => hext.mono c (hmiddle.mono c hc),
          fun c hc hdone => hext.avoids c hc (hmiddle.avoids c hc hdone)⟩, ?_⟩
        intro c hc hcids
        obtain rfl | hc := mem_cons.mp hc
        · exact hext.mono c hmem
        · exact hall c hc hcids
      · rw [dif_neg hb] at hresult
        obtain ⟨hext, hall⟩ := ihl done h done' hresult
        refine ⟨hext, ?_⟩
        intro c hc hcids
        obtain rfl | hc := mem_cons.mp hc
        · exact absurd hcids hb
        · exact hall c hc hcids

/-- **A graph in which the search finds no cycle can be sorted.** -/
theorem sorted_of_not_hasCycle {ids : List α} (hids : ids.Nodup) (h : hasCycle ids next = false) :
    ∃ order, order.Perm ids ∧ Sorted (fun a => (next a).filter (· ∈ ids)) order := by
  rw [hasCycle, Option.isNone_eq_false_iff, Option.isSome_iff_exists] at h
  obtain ⟨order, horder⟩ := h
  have hstart : Extends ids next [] [] [] := ⟨trivial, nodup_nil, by simp, by simp, by simp⟩
  obtain ⟨hext, hall⟩ := (extends_of_search _ [] [] rfl hstart).2 ids order horder
  refine ⟨order, ?_, hext.sorted⟩
  exact (perm_ext_iff_of_nodup hext.nodup hids).mpr fun a =>
    ⟨hext.mem_ids a, fun ha => hall a ha ha⟩

end Search

section Sweep

variable [DecidableEq α] {σ β : Type} {value : σ → α → β} {relax : α → σ → σ}
  {rule : α → (α → β) → β} {target : α → β} {Inv : σ → Prop}

/-- Each node gets the value that the rule gives it, one after the other. -/
def sweep (relax : α → σ → σ) (ids : List α) (s : σ) : σ := ids.foldl (fun s a => relax a s) s

/-- `relax` applies the rule to one node, the rule looks at the successors only, and `target` solves
it. -/
structure Solves (next : α → List α) (value : σ → α → β) (relax : α → σ → σ) (rule : α → (α → β) →
  β)
    (target : α → β) (Inv : σ → Prop) : Prop where
  inv : ∀ a s, Inv s → Inv (relax a s)
  relax : ∀ a s, Inv s → ∀ b, value (relax a s) b = if b = a then rule a (value s) else value s b
  local_ : ∀ a v w, (∀ b ∈ next a, v b = w b) → rule a v = rule a w
  solution : ∀ a, rule a target = target a

def Agree (value : σ → α → β) (target : α → β) (l : List α) (s : σ) : Prop :=
  ∀ a ∈ l, value s a = target a

variable (h : Solves next value relax rule target Inv)
include h

variable {s : σ} {ids l : List α}

theorem Solves.inv_sweep (hs : Inv s) (ids : List α) : Inv (sweep relax ids s) := by
  induction ids generalizing s with
  | nil => exact hs
  | cons a ids ih => exact ih (h.inv a s hs)

section

variable (hl : Sorted next l) (hs : Inv s) (hagree : Agree value target l s)
include hl hs hagree

theorem Solves.agree_relax (a : α) : Agree value target l (relax a s) := by
  intro b hb
  rw [h.relax a s hs]
  split
  · next hba =>
    have hlocal := h.local_ a (value s) target fun c hc => hagree c (hl.closed (hba ▸ hb) hc)
    rw [hlocal, h.solution, hba]
  · exact hagree b hb

theorem Solves.agree_sweep (ids : List α) : Agree value target l (sweep relax ids s) := by
  induction ids generalizing s with
  | nil => exact hagree
  | cons a ids ih => exact ih (h.inv a s hs) (h.agree_relax hl hs hagree a)

end

theorem Solves.agree_cons {a : α} (hl : Sorted next (a :: l)) (hs : Inv s)
    (hagree : Agree value target l s) (ha : a ∈ ids) :
    Agree value target (a :: l) (sweep relax ids s) := by
  obtain ⟨front, rest, rfl⟩ := append_of_mem ha
  have hfront := h.agree_sweep hl.2 hs hagree front
  have hinv := h.inv_sweep hs front
  have hhere : Agree value target (a :: l) (relax a (sweep relax front s)) := by
    intro b hb
    obtain rfl | hb := mem_cons.mp hb
    · rw [h.relax b _ hinv, if_pos rfl, h.local_ b _ target fun c hc => hfront c (hl.1 c hc), h.solution]
    · exact h.agree_relax hl.2 hinv hfront a b hb
  have hsplit : sweep relax (front ++ a :: rest) s = sweep relax rest (relax a (sweep relax front s)) := by
    rw [sweep, foldl_append]
    rfl
  rw [hsplit]
  exact h.agree_sweep hl (h.inv a _ hinv) hhere rest

/-- **As many sweeps as there are nodes settle them all**, in whatever order a sweep goes. -/
theorem Solves.agree_iterate {order : List α} (horder : Sorted next order)
    (hsub : ∀ a ∈ order, a ∈ ids) (hs : Inv s) :
    Agree value target order ((sweep relax ids)^[order.length] s) := by
  induction order with
  | nil => simp [Agree]
  | cons a l ih =>
    rw [length_cons, Function.iterate_succ_apply']
    have hinv : ∀ n, Inv ((sweep relax ids)^[n] s) := by
      intro n
      induction n with
      | zero => exact hs
      | succ n ihn =>
        rw [Function.iterate_succ_apply']
        exact h.inv_sweep ihn ids
    exact h.agree_cons horder (hinv _) (ih horder.2 fun b hb => hsub b (mem_cons_of_mem _ hb))
      (hsub a mem_cons_self)

end Sweep

end ArdurBot.Dag
