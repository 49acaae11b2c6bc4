import Mathlib.Tactic

/-!
# A token that parties hand on through a shared place

A token lies in a shared place, or one of the parties has it.  A step of one party takes it
from the place, gives it back or leaves it where it is, and the other parties are not
affected.  Then at most one party has it at any time, and none while it lies in the place
(`Exclusive.handed`).
-/

namespace CoherentDB
namespace Token

variable {ι : Type}

/-- The token is in one place at a time. -/
structure Exclusive (free : Prop) (holds : ι → Prop) : Prop where
  free_iff : free ↔ ∀ i, ¬ holds i
  unique : ∀ i j, holds i → holds j → i = j

/-- What one step does with the token, as seen from the party that performs it. -/
inductive Handed (free free' : Prop) (holds holds' : Prop) : Prop
  | keeps (hfree : free' ↔ free) (hholds : holds' ↔ holds)
  | takes (hfree : free) (htaken : ¬ free') (hholds' : holds')
  | gives (hholds : holds) (hfree' : free') (hgiven : ¬ holds')

/-- A place that starts with the token. -/
theorem Exclusive.of_none {free : Prop} {holds : ι → Prop} (hfree : free)
    (hnone : ∀ i, ¬ holds i) : Exclusive free holds :=
  ⟨⟨fun _ => hnone, fun _ => hfree⟩, fun i _ hi _ => absurd hi (hnone i)⟩

/-- While a party has the token, it is not in the place. -/
theorem Exclusive.not_free {free : Prop} {holds : ι → Prop} (h : Exclusive free holds) {i : ι}
    (hi : holds i) : ¬ free :=
  fun hfree => h.free_iff.mp hfree i hi

/-- A step of one party keeps the token in one place. -/
theorem Exclusive.handed {free free' : Prop} {holds holds' : ι → Prop}
    (h : Exclusive free holds) (i : ι) (hothers : ∀ j, j ≠ i → (holds' j ↔ holds j))
    (hstep : Handed free free' (holds i) (holds' i)) : Exclusive free' holds' := by
  cases hstep with
  | keeps hfree hholds =>
      have hall : ∀ j, holds' j ↔ holds j := by
        intro j
        by_cases hj : j = i
        · rw [hj]
          exact hholds
        · exact hothers j hj
      have hsame : holds' = holds := funext fun j => propext (hall j)
      rw [hsame, propext hfree]
      exact h
  | takes hfree htaken hholds' =>
      -- Nobody had the token, so only this party has it now.
      have honly : ∀ j, holds' j → j = i := by
        intro j hj
        by_contra hne
        exact h.free_iff.mp hfree j ((hothers j hne).mp hj)
      refine ⟨⟨fun hfree' => absurd hfree' htaken, fun hnone => absurd hholds' (hnone i)⟩, ?_⟩
      intro j k hj hk
      rw [honly j hj, honly k hk]
  | gives hholds hfree' hgiven =>
      have hnone : ∀ j, ¬ holds' j := by
        intro j hj
        by_cases hne : j = i
        · rw [hne] at hj
          exact hgiven hj
        · exact hne (h.unique j i ((hothers j hne).mp hj) hholds)
      exact Exclusive.of_none hfree' hnone

end Token
end CoherentDB
