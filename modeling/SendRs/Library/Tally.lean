/-
**The weight of the items that are counted.**

A counter that is kept beside a set of marks adds the weight of an item when it comes to be counted.
`talliedSum` is what the counter should be: the sum of the weights of the items that are counted. It is
determined by the items that weigh something (`talliedSum_congr`), grows by the weight of an item that
comes in (`talliedSum_insert`) and never exceeds the whole (`talliedSum_le`).
-/

import Mathlib.Algebra.Order.BigOperators.Group.Finset
import Mathlib.Data.Finset.Sigma
import Mathlib.Algebra.BigOperators.Group.Finset.Sigma

namespace Tally

variable {ι : Type*}

open Classical in
/-- The weight of the items that are counted. -/
noncomputable def talliedSum (items : Finset ι) (weight : ι → ℕ) (counted : ι → Prop) : ℕ :=
  ∑ x ∈ items with counted x, weight x

variable {items : Finset ι} {weight : ι → ℕ} {counted counted' : ι → Prop}

theorem talliedSum_eq_sum [DecidablePred counted] :
    talliedSum items weight counted = ∑ x ∈ items, if counted x then weight x else 0 := by
  unfold talliedSum
  rw [Finset.sum_filter]
  refine Finset.sum_congr rfl fun x _ => ?_
  by_cases holds : counted x
  · rw [if_pos holds, if_pos holds]
  · rw [if_neg holds, if_neg holds]

/-- Only the items that weigh something matter. -/
theorem talliedSum_congr (same : ∀ x ∈ items, weight x ≠ 0 → (counted x ↔ counted' x)) :
    talliedSum items weight counted = talliedSum items weight counted' := by
  classical
  rw [talliedSum_eq_sum, talliedSum_eq_sum]
  refine Finset.sum_congr rfl fun x member => ?_
  by_cases zero : weight x = 0
  · rw [zero, ite_self, ite_self]
  · by_cases holds : counted x
    · rw [if_pos holds, if_pos ((same x member zero).mp holds)]
    · rw [if_neg holds, if_neg fun holds' => holds ((same x member zero).mpr holds')]

/-- The tally never exceeds the whole. -/
theorem talliedSum_le (items : Finset ι) (weight : ι → ℕ) (counted : ι → Prop) :
    talliedSum items weight counted ≤ ∑ x ∈ items, weight x := by
  classical
  unfold talliedSum
  exact Finset.sum_le_sum_of_subset (Finset.filter_subset _ _)

/-- When everything is counted, the tally is the whole. -/
theorem talliedSum_all (all : ∀ x ∈ items, weight x ≠ 0 → counted x) :
    talliedSum items weight counted = ∑ x ∈ items, weight x := by
  classical
  have everything : talliedSum items weight counted = talliedSum items weight fun _ => True :=
    talliedSum_congr fun x member nonzero => iff_true_intro (all x member nonzero)
  rw [everything, talliedSum_eq_sum]
  exact Finset.sum_congr rfl fun x _ => if_pos trivial

/-- An item that is counted is part of the tally. -/
theorem le_talliedSum {x : ι} (member : x ∈ items) (holds : counted x) :
    weight x ≤ talliedSum items weight counted := by
  classical
  unfold talliedSum
  exact Finset.single_le_sum (fun _ _ => Nat.zero_le _) (Finset.mem_filter.mpr ⟨member, holds⟩)

/-- **An item that comes in adds its weight.** -/
theorem talliedSum_insert {x : ι} (member : x ∈ items) (out : ¬ counted x) (into : counted' x)
    (same : ∀ y, y ≠ x → (counted' y ↔ counted y)) :
    talliedSum items weight counted' = talliedSum items weight counted + weight x := by
  classical
  have grown : (items.filter counted') = insert x (items.filter counted) := by
    ext y
    rw [Finset.mem_insert, Finset.mem_filter, Finset.mem_filter]
    by_cases here : y = x
    · subst here
      exact iff_of_true ⟨member, into⟩ (Or.inl rfl)
    · rw [same y here]
      exact (or_iff_right here).symm
  have fresh : x ∉ items.filter counted := fun inside => out (Finset.mem_filter.mp inside).2
  unfold talliedSum
  rw [grown, Finset.sum_insert fresh, Nat.add_comm]

end Tally
