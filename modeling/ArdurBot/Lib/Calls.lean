import Mathlib.Data.List.Basic
import ArdurBot.Lib.Run

/-!
# Calls that interleave

Calls run over a shared state, each with a state of its own, one act of one call at a time. A call
that is not acted on again has stopped. An invariant of the shared state and one of each call hold
after every run if each act keeps the invariant of its own call, and does not disturb those of the
others.
-/

namespace ArdurBot.Calls

open List

variable {σ κ ι ε : Type*}

structure State (σ κ : Type*) where
  shared : σ
  calls : List κ

inductive Op (κ ι ε : Type*) where
  | start (call : κ)
  | act (index : ℕ) (choice : ι)
  | environment (event : ε)

/-- How a call acts, given its index, and what happens to the shared state beside the calls. -/
structure Program (σ κ ι ε : Type*) where
  act : σ → ℕ → κ → ι → σ × κ
  environment : σ → ε → σ

variable (program : Program σ κ ι ε)

def step (s : State σ κ) : Op κ ι ε → State σ κ
  | .start call => { s with calls := s.calls ++ [call] }
  | .act index choice =>
    match s.calls[index]? with
    | none => s
    | some call =>
      { shared := (program.act s.shared index call choice).1
        calls := s.calls.set index (program.act s.shared index call choice).2 }
  | .environment event => { s with shared := program.environment s.shared event }

/-- A condition on the acts of calls, as a condition on steps. -/
def OnActs (condition : σ → ℕ → κ → ι → Prop) (s : State σ κ) : Op κ ι ε → Prop
  | .act index choice => ∀ call ∈ s.calls[index]?, condition s.shared index call choice
  | _ => True

instance OnActs.decidable (condition : σ → ℕ → κ → ι → Prop) [∀ s index call choice,
    Decidable (condition s index call choice)] (s : State σ κ) (op :
    Op κ ι ε) : Decidable (OnActs condition s op) :=
  match op with
  | .act index choice =>
    inferInstanceAs (Decidable (∀ call ∈ s.calls[index]?, condition s.shared index call choice))
  | .start _ => inferInstanceAs (Decidable True)
  | .environment _ => inferInstanceAs (Decidable True)

def OnStarts (isStart : κ → Prop) : Op κ ι ε → Prop
  | .start call => isStart call
  | _ => True

instance OnStarts.decidable (isStart : κ → Prop) [∀ call, Decidable (isStart call)] (op : Op κ ι ε) :
    Decidable (OnStarts isStart op) :=
  match op with
  | .start call => inferInstanceAs (Decidable (isStart call))
  | .act _ _ => inferInstanceAs (Decidable True)
  | .environment _ => inferInstanceAs (Decidable True)

/-- An invariant of the shared state, one of each call, and one of each index that no call has
yet. -/
structure Holds (Shared : σ → Prop) (Local : σ → ℕ → κ → Prop) (Idle : σ → ℕ →
  Prop) (s : State σ κ) : Prop where
  shared : Shared s.shared
  calls : ∀ index call, s.calls[index]? = some call → Local s.shared index call
  idle : ∀ index, s.calls.length ≤ index → Idle s.shared index

/-- What an act and an event of the environment have to keep. -/
structure Keeps (Shared : σ → Prop) (Local : σ → ℕ → κ → Prop) (Idle : σ → ℕ →
  Prop) (isStart : κ → Prop)
    (condition : σ → ℕ → κ → ι → Prop) : Prop where
  start : ∀ s index call, Shared s → Idle s index → isStart call → Local s index call
  act : ∀ s index call choice, Shared s → Local s index call → condition s index call choice →
    Shared (program.act s index call choice).1 ∧
      Local (program.act s index call choice).1 index (program.act s index call choice).2
  others : ∀ s index call choice index' call', Shared s → Local s index call → condition s index call choice →
    index' ≠ index → Local s index' call' → Local (program.act s index call choice).1 index' call'
  idle : ∀ s index call choice index', Shared s → Local s index call → condition s index call choice →
    index' ≠ index → Idle s index' → Idle (program.act s index call choice).1 index'
  environment : ∀ s event, Shared s → Shared (program.environment s event)
  environmentLocal : ∀ s event index call, Shared s → Local s index call →
    Local (program.environment s event) index call
  environmentIdle : ∀ s event index, Shared s → Idle s index → Idle (program.environment s event) index

variable {program} {Shared : σ → Prop} {Local : σ → ℕ → κ → Prop} {Idle : σ → ℕ → Prop}
  {isStart : κ → Prop} {condition : σ → ℕ → κ → ι → Prop}

variable {s : State σ κ} {ops : List (Op κ ι ε)}

section

variable (h : Keeps program Shared Local Idle isStart condition) (hs : Holds Shared Local Idle s)
include h hs

theorem holds_step {op : Op κ ι ε} (hstart : OnStarts isStart op) (hact : OnActs condition s op) :
    Holds Shared Local Idle (step program s op) := by
  cases op with
  | start call =>
    refine ⟨hs.shared, ?_, ?_⟩
    · intro index call' hcall
      unfold step at hcall
      rw [getElem?_append] at hcall
      split at hcall
      · exact hs.calls index call' hcall
      · next hnew =>
        have hsame : call = call' := by
          rw [getElem?_singleton] at hcall
          split at hcall
          · exact Option.some.inj hcall
          · cases hcall
        rw [← hsame]
        exact h.start _ _ _ hs.shared (hs.idle index (by omega)) hstart
    · intro index hindex
      refine hs.idle index (Nat.le_trans ?_ hindex)
      change s.calls.length ≤ (s.calls ++ [call]).length
      rw [length_append]
      omega
  | act index choice =>
    unfold step
    dsimp only
    rcases hcall : s.calls[index]? with _ | call
    · exact hs
    have hlocal := hs.calls index call hcall
    have hmet := hact call hcall
    obtain ⟨hshared', hlocal'⟩ := h.act _ _ _ choice hs.shared hlocal hmet
    have hbound : index < s.calls.length := (List.getElem?_eq_some_iff.mp hcall).1
    refine ⟨hshared', ?_, ?_⟩
    · intro index' call' hcall'
      dsimp only at hcall'
      rw [getElem?_set] at hcall'
      split at hcall'
      · next hsame =>
        subst hsame
        rw [← Option.some.inj hcall']
        exact hlocal'
      · next hother =>
        exact h.others _ _ _ choice _ _ hs.shared hlocal hmet (fun hsame => hother hsame.symm)
          (hs.calls index' call' hcall')
    · intro index' hindex'
      dsimp only at hindex'
      rw [length_set] at hindex'
      exact h.idle _ _ _ choice _ hs.shared hlocal hmet (by omega) (hs.idle index' hindex')
  | environment event =>
    refine ⟨h.environment _ event hs.shared, ?_, ?_⟩
    · intro index call hcall
      exact h.environmentLocal _ event _ _ hs.shared (hs.calls index call hcall)
    · intro index hindex
      exact h.environmentIdle _ event _ hs.shared (hs.idle index hindex)

theorem holds_after (hstart : ∀ op ∈ ops, OnStarts isStart op)
    (hops : Run.Meets (step program) (OnActs condition) s ops) :
    Holds Shared Local Idle (Run.after (step program) s ops) := by
  have hstep : ∀ (s : State σ κ) (op : Op κ ι ε), Holds Shared Local Idle s → OnStarts isStart op →
      OnActs condition s op → Holds Shared Local Idle (step program s op) :=
    fun _ _ hs hstart hact => holds_step h hs hstart hact
  exact Run.inv_of_allowed hstep hs hstart hops

end

theorem holds_every (h : Keeps program Shared Local Idle isStart fun _ _ _ _ => True)
    (hs : Holds Shared Local Idle s) (hstart : ∀ op ∈ ops, OnStarts isStart op) :
    Holds Shared Local Idle (Run.after (step program) s ops) := by
  induction ops generalizing s with
  | nil => exact hs
  | cons op ops ih =>
    have hact : OnActs (fun _ _ _ _ => True) s op := by
      cases op with
      | start | environment => exact trivial
      | act index choice => exact fun _ _ => trivial
    have hfirst := holds_step h hs (hstart op mem_cons_self) hact
    exact ih hfirst fun other hother => hstart other (mem_cons_of_mem _ hother)

end ArdurBot.Calls
