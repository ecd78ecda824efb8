import Yuan.Lib.Repeats
import Mathlib.Algebra.BigOperators.Group.List.Basic
import Mathlib.Algebra.BigOperators.Ring.List
import Mathlib.Algebra.Order.BigOperators.Group.List
import Mathlib.Algebra.Order.Field.Basic
import Mathlib.Tactic.FieldSimp
import Mathlib.Tactic.Linarith
import Mathlib.Tactic.Positivity
import Mathlib.Tactic.Ring

/-!
# Samples

The mean of a sample and the sum of the squared deviations from it, which the standard deviations are made of. Both
depend on the values alone, not on their order. Taking every value `k` times keeps the mean and multiplies the
squared deviations by `k`.
-/

namespace Yuan

section

variable {K : Type} [Field K]

/-- The mean of a sample. -/
def mean (l : List K) : K := l.sum / l.length

/-- The sum of the squared deviations from the mean. -/
def squaredDeviations (l : List K) : K := (l.map fun x => (x - mean l) ^ 2).sum

theorem mean_perm {l l' : List K} (h : l.Perm l') : mean l = mean l' := by
  unfold mean
  rw [h.sum_eq, h.length_eq]

theorem squaredDeviations_perm {l l' : List K} (h : l.Perm l') : squaredDeviations l = squaredDeviations l' := by
  unfold squaredDeviations
  rw [mean_perm h]
  exact (h.map _).sum_eq

theorem sum_map_copies (k : Nat) (l : List K) (f : K → K) : ((copies k l).map f).sum = k * (l.map f).sum := by
  induction k with
  | zero => simp [copies]
  | succ k ih =>
    rw [copies_succ, List.map_append, List.sum_append, ih]
    push_cast
    ring

variable [LinearOrder K] [IsStrictOrderedRing K]

theorem squaredDeviations_nonneg (l : List K) : 0 ≤ squaredDeviations l := by
  apply List.sum_nonneg
  intro y hy
  obtain ⟨x, -, rfl⟩ := List.mem_map.mp hy
  apply sq_nonneg

/-- There is no deviation exactly if every value is the mean. -/
theorem squaredDeviations_eq_zero {l : List K} : squaredDeviations l = 0 ↔ ∀ x ∈ l, x = mean l := by
  unfold squaredDeviations
  generalize mean l = m
  induction l with
  | nil => simp
  | cons x l ih =>
    have hrest : 0 ≤ (l.map fun x => (x - m) ^ 2).sum := by
      apply List.sum_nonneg
      intro y hy
      obtain ⟨x, -, rfl⟩ := List.mem_map.mp hy
      exact sq_nonneg _
    rw [List.map_cons, List.sum_cons, add_eq_zero_iff_of_nonneg (sq_nonneg _) hrest, ih, List.forall_mem_cons]
    rw [pow_eq_zero_iff two_ne_zero, sub_eq_zero]

/-- Every value is the mean exactly if all values are equal. -/
theorem forall_eq_mean {l : List K} : (∀ x ∈ l, x = mean l) ↔ ∀ x ∈ l, ∀ y ∈ l, x = y := by
  constructor
  · intro h x hx y hy
    rw [h x hx, h y hy]
  · intro h x hx
    have hsum : l.sum = l.length * x := by
      rw [List.eq_replicate_of_mem fun y hy => h y hy x hx, List.sum_replicate, List.length_replicate, nsmul_eq_mul]
    have hlength : (l.length : K) ≠ 0 := Nat.cast_ne_zero.mpr (List.length_pos_of_mem hx).ne'
    unfold mean
    rw [hsum, mul_div_cancel_left₀ x hlength]

theorem mean_copies {k : Nat} (hk : 0 < k) (l : List K) : mean (copies k l) = mean l := by
  unfold mean
  have hsum := sum_map_copies k l id
  rw [List.map_id, List.map_id] at hsum
  rw [hsum, length_copies, Nat.cast_mul]
  exact mul_div_mul_left _ _ (Nat.cast_ne_zero.mpr hk.ne')

/-- Taking a sample `k` times multiplies the deviations by `k`. -/
theorem squaredDeviations_copies {k : Nat} (hk : 0 < k) (l : List K) :
    squaredDeviations (copies k l) = k * squaredDeviations l := by
  unfold squaredDeviations
  rw [mean_copies hk, sum_map_copies]

end

end Yuan
