import Mathlib.Algebra.BigOperators.Group.List.Basic
import Mathlib.Algebra.Order.Monoid.Defs
import Mathlib.Data.Option.NAry

/-!
# Sums of values that may be missing

`knownSum` adds the values that are there, `fullSum` is there only if each value is. Neither depends
on the order of the values.
-/

namespace ArdurBot.PartialSum

open Option

variable {M : Type*} [AddCommMonoid M] {values others : List (Option M)}

/-- What is known of two values, or of either. -/
def plus : Option M → Option M → Option M
  | none, value => value
  | some value, none => some value
  | some value, some other => some (value + other)

@[simp]
theorem none_plus (value : Option M) : plus none value = value := rfl

@[simp]
theorem plus_none (value : Option M) : plus value none = value := by
  cases value <;> simp [plus]

@[simp]
theorem some_plus_some (value other : M) : plus (some value) (some other) = some (value + other) :=
  rfl

theorem plus_assoc (a b c : Option M) : plus (plus a b) c = plus a (plus b c) := by
  cases a <;> cases b <;> cases c <;> simp [add_assoc]

theorem plus_left_comm (a b c : Option M) : plus a (plus b c) = plus b (plus a c) := by
  cases a <;> cases b <;> cases c <;> simp [add_left_comm, add_comm]

theorem plus_eq_none {a b : Option M} : plus a b = none ↔ a = none ∧ b = none := by
  cases a <;> cases b <;> simp

/-- The sum of the values that are known, if one is. -/
def knownSum (values : List (Option M)) : Option M :=
  values.foldr plus none

@[simp]
theorem knownSum_nil : knownSum ([] : List (Option M)) = none := rfl

@[simp]
theorem knownSum_cons (value : Option M) (values : List (Option M)) :
    knownSum (value :: values) = plus value (knownSum values) := rfl

theorem knownSum_append (values others : List (Option M)) :
    knownSum (values ++ others) = plus (knownSum values) (knownSum others) := by
  induction values with
  | nil => simp
  | cons value values ih => simp only [List.cons_append, knownSum_cons, ih, plus_assoc]

theorem knownSum_perm (h : values.Perm others) : knownSum values = knownSum others := by
  induction h with
  | nil => simp
  | cons value _ ih => simp only [knownSum_cons, ih]
  | swap value other values => simp only [knownSum_cons, plus_left_comm]
  | trans _ _ ih ih' => exact ih.trans ih'

theorem knownSum_eq_none : knownSum values = none ↔ ∀ value ∈ values, value = none := by
  induction values with
  | nil => simp
  | cons value values ih => simp [plus_eq_none, ih]

def fullSum (values : List (Option M)) : Option M :=
  values.foldr (Option.map₂ (· + ·)) (some 0)

@[simp]
theorem fullSum_nil : fullSum ([] : List (Option M)) = some 0 := rfl

@[simp]
theorem fullSum_cons (value : Option M) (values : List (Option M)) :
    fullSum (value :: values) = map₂ (· + ·) value (fullSum values) := rfl

theorem fullSum_append (values others : List (Option M)) :
    fullSum (values ++ others) = map₂ (· + ·) (fullSum values) (fullSum others) := by
  induction values with
  | nil => cases h : fullSum others <;> simp [h]
  | cons value values ih =>
    simp only [List.cons_append, fullSum_cons, ih]
    exact (map₂_assoc (fun a b c => add_assoc a b c)).symm

theorem fullSum_perm (h : values.Perm others) : fullSum values = fullSum others := by
  induction h with
  | nil => simp
  | cons value _ ih => simp only [fullSum_cons, ih]
  | swap value other values =>
    simp only [fullSum_cons]
    exact map₂_left_comm fun a b c => add_left_comm a b c
  | trans _ _ ih ih' => exact ih.trans ih'

end ArdurBot.PartialSum
