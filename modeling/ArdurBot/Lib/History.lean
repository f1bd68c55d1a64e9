import Mathlib.Data.List.Basic

/-!
# Histories

A history is the list of what happened, the newest first. Each event may be judged by those before
it; a history is in order if each of its events is.
-/

namespace ArdurBot.History

open List

variable {ε : Type*} {EventOk : List ε → ε → Prop} {history earlier : List ε} {event : ε}

/-- Each event is in order, given those before it. -/
def Ok (EventOk : List ε → ε → Prop) : List ε → Prop
  | [] => True
  | event :: earlier => EventOk earlier event ∧ Ok EventOk earlier

theorem Ok.of_suffix (h : Ok EventOk history) (hsuffix : event :: earlier <:+ history) :
    EventOk earlier event := by
  induction history with
  | nil => exact absurd (suffix_nil.mp hsuffix) (cons_ne_nil _ _)
  | cons last history ih =>
    obtain heq | hrest := suffix_cons_iff.mp hsuffix
    · obtain ⟨rfl, rfl⟩ := cons.inj heq
      exact h.1
    · exact ih h.2 hrest

theorem exists_suffix (h : event ∈ history) : ∃ earlier, event :: earlier <:+ history := by
  obtain ⟨later, earlier, heq⟩ := append_of_mem h
  exact ⟨earlier, later, heq.symm⟩

/-- What was recorded of one actor only: the history grew by events of its own. -/
def GrewBy (actor : ε → ℕ) (index : ℕ) (before after : List ε) : Prop :=
  ∃ new, after = new ++ before ∧ ∀ event ∈ new, actor event = index

section

variable {actor : ε → ℕ} {index : ℕ} {before after later : List ε}

theorem GrewBy.refl (actor : ε → ℕ) (index : ℕ) (history : List ε) : GrewBy actor index history history :=
  ⟨[], rfl, forall_mem_nil _⟩

section

variable (h : GrewBy actor index before after)
include h

theorem GrewBy.cons (hevent : actor event = index) : GrewBy actor index before (event :: after) := by
  obtain ⟨new, rfl, hnew⟩ := h
  refine ⟨event :: new, rfl, fun other hother => ?_⟩
  obtain rfl | hother := mem_cons.mp hother
  · exact hevent
  · exact hnew other hother

theorem GrewBy.mem (hmem : event ∈ before) : event ∈ after := by
  obtain ⟨new, rfl, -⟩ := h
  exact mem_append_right new hmem

theorem GrewBy.trans (h' : GrewBy actor index after later) : GrewBy actor index before later := by
  obtain ⟨new, rfl, hnew⟩ := h
  obtain ⟨more, rfl, hmore⟩ := h'
  refine ⟨more ++ new, (append_assoc _ _ _).symm, fun event hevent => ?_⟩
  obtain hevent | hevent := mem_append.mp hevent
  · exact hmore event hevent
  · exact hnew event hevent

theorem GrewBy.mem_other (hmem : event ∈ after) (hother : actor event ≠ index) : event ∈ before := by
  obtain ⟨new, rfl, hnew⟩ := h
  obtain hevent | hevent := mem_append.mp hmem
  · exact absurd (hnew event hevent) hother
  · exact hevent

end

end

end ArdurBot.History
