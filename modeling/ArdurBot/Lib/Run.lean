import Mathlib.Logic.Basic

/-!
# Runs of a system

A system goes from a state to the next by one operation at a time. What each step keeps holds after
every run, and so does what each step keeps on a condition, after every run whose steps meet the
condition.
-/

namespace ArdurBot.Run

variable {σ ω : Type*} {step : σ → ω → σ}

def after (step : σ → ω → σ) (s : σ) (ops : List ω) : σ := ops.foldl step s

/-- Each step of the run meets the condition in the state it is taken in. -/
def Meets (step : σ → ω → σ) (condition : σ → ω → Prop) : σ → List ω → Prop
  | _, [] => True
  | s, op :: ops => condition s op ∧ Meets step condition (step s op) ops

instance Meets.decidable (condition : σ → ω → Prop) [∀ s op, Decidable (condition s op)] :
    ∀ (s : σ) (ops : List ω), Decidable (Meets step condition s ops)
  | _, [] => inferInstanceAs (Decidable True)
  | s, op :: ops =>
    have := Meets.decidable condition (step s op) ops
    inferInstanceAs (Decidable (condition s op ∧ Meets step condition (step s op) ops))

theorem after_append (s : σ) (ops ops' : List ω) :
    after step s (ops ++ ops') = after step (after step s ops) ops' := List.foldl_append

theorem after_concat (s : σ) (ops : List ω) (op : ω) :
    after step s (ops ++ [op]) = step (after step s ops) op := by
  rw [after_append]
  rfl

theorem Meets.append {condition : σ → ω → Prop} {s : σ} {ops ops' : List ω}
    (h : Meets step condition s (ops ++ ops')) :
    Meets step condition s ops ∧ Meets step condition (after step s ops) ops' := by
  induction ops generalizing s with
  | nil => exact ⟨trivial, h⟩
  | cons op ops ih =>
    obtain ⟨hfirst, hrest⟩ := h
    obtain ⟨hops, hops'⟩ := ih hrest
    exact ⟨⟨hfirst, hops⟩, hops'⟩

theorem inv_of_meets {Inv : σ → Prop} {condition : σ → ω → Prop}
    (hstep : ∀ s op, Inv s → condition s op → Inv (step s op)) {s : σ} (hs : Inv s) {ops : List ω}
    (hops : Meets step condition s ops) : Inv (after step s ops) := by
  induction ops generalizing s with
  | nil => exact hs
  | cons op ops ih => exact ih (hstep s op hs hops.1) hops.2

theorem inv_of_allowed {Inv : σ → Prop} {allowed : ω → Prop} {condition : σ → ω → Prop}
    (hstep : ∀ s op, Inv s → allowed op → condition s op → Inv (step s op)) {s : σ} (hs : Inv s)
    {ops : List ω}
    (hallowed : ∀ op ∈ ops, allowed op) (hops : Meets step condition s ops) : Inv (after step s ops) := by
  induction ops generalizing s with
  | nil => exact hs
  | cons op ops ih =>
    have hfirst := hstep s op hs (hallowed op List.mem_cons_self) hops.1
    exact ih hfirst (fun other hother => hallowed other (List.mem_cons_of_mem _ hother)) hops.2

theorem inv_after {Inv : σ → Prop} (hstep : ∀ s op, Inv s → Inv (step s op)) {s : σ} (hs : Inv s)
    (ops : List ω) :
    Inv (after step s ops) := by
  induction ops generalizing s with
  | nil => exact hs
  | cons op ops ih => exact ih (hstep s op hs)

theorem rel_after {R : σ → σ → Prop} {Inv : σ → Prop} (hinv : ∀ s op, Inv s → Inv (step s op))
    (hrefl : ∀ s, R s s) (htrans : ∀ {a b c}, R a b → R b c → R a c) (hstep : ∀ s op, Inv s → R s (step s op))
    {s : σ} (hs : Inv s) (ops : List ω) : R s (after step s ops) := by
  induction ops generalizing s with
  | nil => exact hrefl s
  | cons op ops ih => exact htrans (hstep s op hs) (ih (hinv s op hs))

end ArdurBot.Run
