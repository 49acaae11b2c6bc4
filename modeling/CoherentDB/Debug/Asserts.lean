import Mathlib.Tactic

/-!
# `d_assert` and calls that can fail

A call that can end without a result is a value of `Except ε`, with `ε` the ways
in which the functions of one component can end.  A failed `d_assert` aborts the
process, so it is one of them.
-/

namespace CoherentDB
namespace Debug

variable {ε α β : Type}

/-- `d_assert` where a failed assertion shows as `aborted`. -/
def dAssertElse (aborted : ε) (condition : Prop) [Decidable condition] : Except ε Unit :=
  if condition then .ok () else .error aborted

theorem dAssertElse_of {aborted : ε} {condition : Prop} [Decidable condition] (h : condition) :
    dAssertElse aborted condition = .ok () :=
  if_pos h

theorem dAssertElse_of_not {aborted : ε} {condition : Prop} [Decidable condition]
    (h : ¬ condition) : dAssertElse aborted condition = .error aborted :=
  if_neg h

@[simp] theorem ok_bind (x : α) (f : α → Except ε β) : (Except.ok x >>= f) = f x := rfl

@[simp] theorem error_bind (e : ε) (f : α → Except ε β) :
    (Except.error e >>= f) = Except.error e := rfl

/-- A sequence that returned went through both of its calls. -/
theorem ok_of_bind {x : Except ε α} {f : α → Except ε β} {b : β} (h : (x >>= f) = .ok b) :
    ∃ a, x = .ok a ∧ f a = .ok b := by
  cases x with
  | error e => cases h
  | ok a => exact ⟨a, rfl, h⟩

/-- An assertion in front of a call that returns. -/
theorem dAssertElse_bind_ok {aborted : ε} {condition : Prop} [Decidable condition]
    {next : Unit → Except ε α} {x : α} (h : (dAssertElse aborted condition >>= next) = .ok x) :
    condition ∧ next () = .ok x := by
  by_cases hc : condition
  · rw [dAssertElse_of hc, ok_bind] at h
    exact ⟨hc, h⟩
  · rw [dAssertElse_of_not hc, error_bind] at h
    cases h

theorem toOption_eq_some {x : Except ε α} {a : α} : x.toOption = some a ↔ x = .ok a := by
  cases x with
  | error e => simp [Except.toOption]
  | ok b => simp [Except.toOption]

/-- A call of whose result only the second part is kept. -/
theorem map_snd_eq_ok {x : Except ε (β × α)} {a : α} :
    x.map Prod.snd = .ok a ↔ ∃ b, x = .ok (b, a) := by
  cases x with
  | error e => simp [Except.map]
  | ok res => simp [Except.map, Prod.ext_iff]

end Debug
end CoherentDB
