import Mathlib.Tactic

/-!
# Runs of a partial step function

A component is a state type and a function that performs one action, where the
action is possible.  A run is the list of its actions in order together with the
state it ends in.  Whatever a scheduler or a caller is free to choose is part of the
action.

`Run.invariant` is the induction over runs; `performAll` evaluates a concrete list
of actions.
-/

namespace CoherentDB
namespace Runs

variable {σ α : Type}

/-- The runs from `start` whose steps are all `allowed`. -/
inductive Run (step : σ → α → Option σ) (allowed : σ → α → Prop) (start : σ) :
    List α → σ → Prop
  | start : Run step allowed start [] start
  | step {actions : List α} {s s' : σ} {action : α} (hrun : Run step allowed start actions s)
      (hallowed : allowed s action) (hstep : step s action = some s') :
      Run step allowed start (actions ++ [action]) s'

/-- The action is possible or not, nothing more is asked. -/
def anyAction (_ : σ) (_ : α) : Prop := True

instance (s : σ) (action : α) : Decidable (anyAction s action) := isTrue trivial

section Rules

variable {step : σ → α → Option σ} {allowed : σ → α → Prop} {start s : σ} {actions : List α}

/-- What holds of the start and is preserved by every allowed step holds of every run. -/
theorem Run.invariant {P : List α → σ → Prop} (hstart : P [] start)
    (hpreserved : ∀ actions s s' action, P actions s → allowed s action →
      step s action = some s' → P (actions ++ [action]) s')
    (hrun : Run step allowed start actions s) : P actions s := by
  induction hrun with
  | start => exact hstart
  | step hrun hallowed hstep ih => exact hpreserved _ _ _ _ ih hallowed hstep

/-- A weaker condition allows all the same runs. -/
theorem Run.mono {allowed' : σ → α → Prop} (hweaker : ∀ s action, allowed s action →
    allowed' s action) (hrun : Run step allowed start actions s) :
    Run step allowed' start actions s := by
  induction hrun with
  | start => exact .start
  | step hrun hallowed hstep ih => exact .step ih (hweaker _ _ hallowed) hstep

end Rules

/-- The actions are allowed and possible one after the other, and lead to `s'`. -/
def Follows (step : σ → α → Option σ) (allowed : σ → α → Prop) : σ → List α → σ → Prop
  | s, [], s' => s' = s
  | s, action :: rest, s' =>
      allowed s action ∧ ∃ s₁, step s action = some s₁ ∧ Follows step allowed s₁ rest s'

/-- Actions that follow each other continue a run. -/
theorem Run.follows {step : σ → α → Option σ} {allowed : σ → α → Prop} {start s s' : σ}
    {done : List α} (hrun : Run step allowed start done s) (actions : List α)
    (h : Follows step allowed s actions s') : Run step allowed start (done ++ actions) s' := by
  induction actions generalizing s done with
  | nil =>
      obtain rfl := h
      rw [List.append_nil]
      exact hrun
  | cons action rest ih =>
      obtain ⟨hallowed, s₁, hstep, hrest⟩ := h
      -- The first action belongs to the run already when the induction hypothesis is used.
      have hlonger := ih (hrun.step hallowed hstep) hrest
      rw [List.append_assoc] at hlonger
      exact hlonger

/-- Perform a list of actions, all of them possible and allowed. -/
def performAll (step : σ → α → Option σ) (allowed : σ → α → Prop)
    [∀ s action, Decidable (allowed s action)] : σ → List α → Option σ
  | s, [] => some s
  | s, action :: rest =>
      if allowed s action then (step s action).bind fun s' => performAll step allowed s' rest
      else none

/-- A list of actions that can be performed continues a run. -/
theorem Run.performAll {step : σ → α → Option σ} {allowed : σ → α → Prop}
    [∀ s action, Decidable (allowed s action)] {start s s' : σ} {done : List α}
    (hrun : Run step allowed start done s) (actions : List α)
    (h : Runs.performAll step allowed s actions = some s') :
    Run step allowed start (done ++ actions) s' := by
  refine hrun.follows actions ?_
  clear hrun
  induction actions generalizing s with
  | nil => exact (Option.some.inj h).symm
  | cons action rest ih =>
      rw [Runs.performAll] at h
      split_ifs at h with hallowed
      obtain ⟨s₁, hstep, hrest⟩ := Option.bind_eq_some_iff.mp h
      exact ⟨hallowed, s₁, hstep, ih hrest⟩

end Runs
end CoherentDB
