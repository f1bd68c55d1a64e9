import Mathlib.Logic.Basic

/-!
# Computations that may fail

A computation in `Except` goes on with a value, or fails. What it returned, each of its parts
returned; and a failure that no part has, it does not have.
-/

namespace ArdurBot.Checked

universe u v

variable {ε : Type u} {α β : Type v} {failure : ε} {x : Except ε α} {f : α → Except ε β}

theorem bind_eq_ok {b : β} : (x >>= f) = .ok b ↔ ∃ a, x = .ok a ∧ f a = .ok b := by
  cases x with
  | error e =>
    constructor
    · intro h
      cases h
    · rintro ⟨a, ha, -⟩
      cases ha
  | ok a =>
    constructor
    · exact fun h => ⟨a, rfl, h⟩
    · rintro ⟨a', ha, h⟩
      cases ha
      exact h

/-- Goes on unless the condition, which refuses, holds. -/
def refuseIf (condition : Bool) (failure : ε) : Except ε Unit :=
  if condition then .error failure else .ok ()

theorem refuseIf_eq_ok {condition : Bool} {u : Unit} :
    refuseIf condition failure = .ok u ↔ condition = false := by
  cases condition <;> simp [refuseIf]

def Avoids (failure : ε) (x : Except ε α) : Prop := x ≠ .error failure

theorem Avoids.ok (a : α) : Avoids failure (.ok a : Except ε α) := nofun

theorem Avoids.error {other : ε} (h : other ≠ failure) : Avoids failure (.error other : Except ε α) := by
  rintro heq
  cases heq
  exact h rfl

theorem Avoids.bind (hx : Avoids failure x) (hf : ∀ a, x = .ok a → Avoids failure (f a)) :
    Avoids failure (x >>= f) := by
  cases x with
  | error e =>
    intro h
    cases h
    exact hx rfl
  | ok a => exact hf a rfl

theorem Avoids.refuseIf {condition : Bool} {other : ε} (h : other ≠ failure) :
    Avoids failure (refuseIf condition other) := by
  cases condition
  · exact .ok ()
  · exact .error h

theorem Avoids.of_eq_ok {a : α} (h : x = .ok a) : Avoids failure x := h ▸ .ok a

end ArdurBot.Checked
