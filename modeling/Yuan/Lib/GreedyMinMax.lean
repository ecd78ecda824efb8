import Mathlib.Algebra.BigOperators.Group.Finset.Piecewise
import Mathlib.Algebra.BigOperators.Ring.Finset
import Mathlib.Algebra.Order.BigOperators.Group.Finset
import Mathlib.Data.Finset.Lattice.Fold

/-!
# Greedy minimisation of a maximum

Units are dealt to items, at least one to each, and an item costs the less the more units it has. Whoever gives
every further unit to an item that costs the most minimises the largest cost.

The invariant is an exchange: no item costs more than any item with several units would with one unit less.
-/

namespace Yuan

section

variable {ι α : Type} [DecidableEq ι] [LinearOrder α] {items : Finset ι} {cost : ι → Nat → α} {units : ι → Nat}

/-- More units never cost more. -/
def Falling (items : Finset ι) (cost : ι → Nat → α) : Prop :=
  ∀ i ∈ items, ∀ n n', 1 ≤ n → n ≤ n' → cost i n' ≤ cost i n

/-- Every item has a unit, and there are `total` units. -/
structure IsAssignment (items : Finset ι) (total : Nat) (units : ι → Nat) : Prop where
  one_le : ∀ i ∈ items, 1 ≤ units i
  sum_eq : ∑ i ∈ items, units i = total

/-- Taking a unit from an item does not make the largest cost smaller. -/
def Balanced (items : Finset ι) (cost : ι → Nat → α) (units : ι → Nat) : Prop :=
  ∀ i ∈ items, ∀ j ∈ items, 2 ≤ units j → cost i (units i) ≤ cost j (units j - 1)

omit [DecidableEq ι] in
theorem Balanced.of_one : Balanced items cost fun _ => 1 :=
  fun _ _ _ _ hj => absurd hj (Nat.not_le_of_lt Nat.one_lt_two)

omit [DecidableEq ι] [LinearOrder α] in
theorem IsAssignment.of_one : IsAssignment items items.card fun _ => 1 :=
  ⟨fun _ _ => le_rfl, by rw [Finset.sum_const, nsmul_eq_mul, Nat.mul_one, Nat.cast_id]⟩

omit [LinearOrder α] in
theorem IsAssignment.add {total : Nat} {r : ι} (h : IsAssignment items total units) (hr : r ∈ items) :
    IsAssignment items (total + 1) (Function.update units r (units r + 1)) := by
  refine ⟨fun i hi => ?_, ?_⟩
  · rcases eq_or_ne i r with rfl | hne
    · rw [Function.update_self]
      omega
    · rw [Function.update_of_ne hne]
      exact h.one_le i hi
  · rw [Finset.sum_update_of_mem hr, ← h.sum_eq, ← Finset.sum_sdiff (Finset.singleton_subset_iff.mpr hr),
      Finset.sum_singleton]
    omega

/-- A unit for an item that costs the most keeps the exchange. -/
theorem Balanced.add {r : ι} (h : Balanced items cost units) (hcost : Falling items cost)
    (hone : ∀ i ∈ items, 1 ≤ units i) (hr : r ∈ items) (hmax : ∀ i ∈ items, cost i (units i) ≤ cost r (units r)) :
    Balanced items cost (Function.update units r (units r + 1)) := by
  have hle : ∀ i ∈ items, cost i (Function.update units r (units r + 1) i) ≤ cost i (units i) := by
    intro i hi
    rcases eq_or_ne i r with rfl | hne
    · rw [Function.update_self]
      exact hcost i hi _ _ (hone i hi) (Nat.le_succ _)
    · rw [Function.update_of_ne hne]
  intro i hi j hj htwo
  rcases eq_or_ne j r with rfl | hne
  · rw [Function.update_self j]
    exact (hle i hi).trans (hmax i hi)
  · rw [Function.update_of_ne hne] at htwo ⊢
    exact (hle i hi).trans (h i hi j hj htwo)

omit [DecidableEq ι] in
/-- No other assignment of as many units has only smaller costs. -/
theorem Balanced.exists_le {total : Nat} {units' : ι → Nat} (h : Balanced items cost units)
    (hcost : Falling items cost) (hunits : IsAssignment items total units) (hunits' : IsAssignment items total units')
    {i : ι} (hi : i ∈ items) : ∃ j ∈ items, cost i (units i) ≤ cost j (units' j) := by
  by_cases hfew : units' i ≤ units i
  · exact ⟨i, hi, hcost i hi _ _ (hunits'.one_le i hi) hfew⟩
  · -- somebody pays for what `i` has more
    obtain ⟨j, hj, hlt⟩ : ∃ j ∈ items, units' j < units j := by
      by_contra hnone
      push Not at hnone
      have hsum : ∑ k ∈ items, units k < ∑ k ∈ items, units' k := Finset.sum_lt_sum hnone ⟨i, hi, by omega⟩
      rw [hunits.sum_eq, hunits'.sum_eq] at hsum
      exact lt_irrefl _ hsum
    have hone := hunits'.one_le j hj
    refine ⟨j, hj, (h i hi j hj (by omega)).trans ?_⟩
    exact hcost j hj _ _ hone (by omega)

/-- The largest cost, of no item `⊥`. -/
def maxCost (items : Finset ι) (cost : ι → Nat → α) (units : ι → Nat) : WithBot α :=
  items.sup fun i => (cost i (units i) : WithBot α)

omit [DecidableEq ι] in
theorem Balanced.maxCost_le {total : Nat} {units' : ι → Nat} (h : Balanced items cost units)
    (hcost : Falling items cost) (hunits : IsAssignment items total units)
    (hunits' : IsAssignment items total units') : maxCost items cost units ≤ maxCost items cost units' := by
  refine Finset.sup_le fun i hi => ?_
  obtain ⟨j, hj, hle⟩ := h.exists_le hcost hunits hunits' hi
  calc (cost i (units i) : WithBot α) ≤ cost j (units' j) := WithBot.coe_le_coe.mpr hle
    _ ≤ maxCost items cost units' := Finset.le_sup (f := fun j => (cost j (units' j) : WithBot α)) hj

end

end Yuan
