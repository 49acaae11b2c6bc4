import CoherentDB.Debug.Asserts

/-!
# Computations that stop at their first problem

A computation in `Except` is described by the list of the problems that its input has, in the
order in which the computation looks for them: it ends with the first of them, or with a result
if there is none.  `Reports.bind` puts the descriptions of two computations one after the other.
-/

namespace CoherentDB
namespace FirstProblem

open Debug

variable {ε α β : Type}

/-- `x` ends with the first of the problems, or with a result that satisfies `P`. -/
def Reports (problems : List ε) (P : α → Prop) (x : Except ε α) : Prop :=
  match problems with
  | problem :: _ => x = .error problem
  | [] => ∃ a, x = .ok a ∧ P a

section Rules

variable {problems more : List ε} {P : α → Prop} {Q : β → Prop} {x : Except ε α}

theorem Reports.pure {a : α} (h : P a) : Reports ([] : List ε) P (.ok a) := ⟨a, rfl, h⟩

theorem Reports.bind {f : α → Except ε β} (hx : Reports problems P x)
    (hf : ∀ a, P a → Reports more Q (f a)) : Reports (problems ++ more) Q (x >>= f) := by
  cases problems with
  | cons problem rest =>
      have herror : x = .error problem := hx
      rw [herror]
      rfl
  | nil =>
      obtain ⟨a, rfl, ha⟩ := hx
      rw [List.nil_append, ok_bind]
      exact hf a ha

theorem Reports.mono {P' : α → Prop} (hx : Reports problems P x) (h : ∀ a, P a → P' a) :
    Reports problems P' x := by
  cases problems with
  | cons problem rest => exact hx
  | nil =>
      obtain ⟨a, hok, ha⟩ := hx
      exact ⟨a, hok, h a ha⟩

/-- A check of all entries of a list. -/
theorem Reports.forM {problem : α → Option ε} {check : α → Except ε Unit}
    (hcheck : ∀ a, Reports (problem a).toList (fun _ => True) (check a)) (l : List α) :
    Reports (l.filterMap problem) (fun _ => True) (l.forM check) := by
  induction l with
  | nil => exact .pure trivial
  | cons a rest ih =>
      have hrest : Reports _ _ ((a :: rest).forM check) := (hcheck a).bind fun _ _ => ih
      cases hproblem : problem a with
      | none =>
          rw [hproblem] at hrest
          rw [List.filterMap_cons_none hproblem]
          exact hrest
      | some e =>
          rw [hproblem] at hrest
          rw [List.filterMap_cons_some hproblem]
          exact hrest

end Rules

end FirstProblem
end CoherentDB
