import Mathlib.Tactic.Common
import Mathlib.Algebra.Order.Ring.Nat

/-!
# Interleaving

Numbers are dealt to `w` ranks, `i` at a time: rank 0 takes the first `i` of them, rank 1 the next `i`, and after rank
`w - 1` it is rank 0's turn again. Every rank numbers what it takes from 0 on. If `i` divides `k`, the first `k * w`
numbers fill the first `k` places of every rank.
-/

namespace Yuan.Interleave

/-- The rank that takes `v`. -/
def rankOf (i w v : Nat) : Nat := v / i % w

/-- The place that it has there. -/
def offsetOf (i w v : Nat) : Nat := v / (w * i) * i + v % i

/-- The number at a place of a rank. -/
def joined (i w rank offset : Nat) : Nat := (offset / i * w + rank) * i + offset % i

section

variable {i w k v rank offset : Nat}

theorem rankOf_lt (hw : 0 < w) : rankOf i w v < w := Nat.mod_lt _ hw

theorem offsetOf_eq : offsetOf i w v = v / i / w * i + v % i := by
  rw [offsetOf, Nat.mul_comm w i, Nat.div_div_eq_div_mul]

variable (hi : 0 < i)
include hi

theorem joined_of_parts : joined i w (rankOf i w v) (offsetOf i w v) = v := by
  have hmod := Nat.mod_lt v hi
  have hdiv : offsetOf i w v / i = v / i / w := by
    rw [offsetOf_eq, Nat.mul_comm, Nat.mul_add_div hi, Nat.div_eq_of_lt hmod, Nat.add_zero]
  have hrest : offsetOf i w v % i = v % i := by
    rw [offsetOf_eq, Nat.mul_comm, Nat.mul_add_mod, Nat.mod_mod]
  rw [joined, hdiv, hrest, rankOf, Nat.div_add_mod', Nat.div_add_mod']

theorem joined_div : joined i w rank offset / i = offset / i * w + rank := by
  rw [joined, Nat.mul_comm, Nat.mul_add_div hi, Nat.div_eq_of_lt (Nat.mod_lt _ hi), Nat.add_zero]

theorem rankOf_joined (hrank : rank < w) : rankOf i w (joined i w rank offset) = rank := by
  rw [rankOf, joined_div hi, Nat.mul_comm, Nat.mul_add_mod, Nat.mod_eq_of_lt hrank]

theorem offsetOf_joined (hrank : rank < w) : offsetOf i w (joined i w rank offset) = offset := by
  have hrest : joined i w rank offset % i = offset % i := by
    rw [joined, Nat.mul_comm, Nat.mul_add_mod, Nat.mod_mod]
  rw [offsetOf_eq, joined_div hi, hrest, Nat.mul_comm _ w, Nat.mul_add_div (Nat.zero_lt_of_lt hrank),
    Nat.div_eq_of_lt hrank, Nat.add_zero, Nat.div_add_mod']

theorem offsetOf_lt (hdvd : i ∣ k) (hv : v < k * w) : offsetOf i w v < k := by
  obtain ⟨q, rfl⟩ := hdvd
  have hrow : v / i / w < q := by
    rw [Nat.div_div_eq_div_mul]
    exact Nat.div_lt_of_lt_mul (by rwa [Nat.mul_right_comm] at hv)
  calc offsetOf i w v < v / i / w * i + i := by
        rw [offsetOf_eq]
        exact Nat.add_lt_add_left (Nat.mod_lt v hi) _
    _ = (v / i / w + 1) * i := (Nat.succ_mul _ _).symm
    _ ≤ q * i := Nat.mul_le_mul_right i hrow
    _ = i * q := Nat.mul_comm q i

theorem joined_lt (hdvd : i ∣ k) (hrank : rank < w) (hoffset : offset < k) : joined i w rank offset < k * w := by
  obtain ⟨q, rfl⟩ := hdvd
  have hrow : offset / i < q := Nat.div_lt_of_lt_mul hoffset
  calc joined i w rank offset < (offset / i * w + rank) * i + i := Nat.add_lt_add_left (Nat.mod_lt _ hi) _
    _ = (offset / i * w + rank + 1) * i := (Nat.succ_mul _ _).symm
    _ ≤ (offset / i * w + w) * i := Nat.mul_le_mul_right i (Nat.add_le_add_left hrank _)
    _ = (offset / i + 1) * w * i := by rw [Nat.succ_mul]
    _ ≤ q * w * i := Nat.mul_le_mul_right i (Nat.mul_le_mul_right w hrow)
    _ = i * q * w := by rw [Nat.mul_comm, Nat.mul_assoc]

/-- Otherwise rank 0 takes a number that its first `k` places cannot hold. -/
theorem exists_offsetOf_eq (hdvd : ¬ i ∣ k) (hw : 1 < w) : ∃ v, v < k * w ∧ rankOf i w v = 0 ∧ offsetOf i w v = k := by
  have hrest : 0 < k % i := Nat.pos_of_ne_zero fun h => hdvd (Nat.dvd_of_mod_eq_zero h)
  refine ⟨joined i w 0 k, ?_, rankOf_joined hi (Nat.zero_lt_of_lt hw), offsetOf_joined hi (Nat.zero_lt_of_lt hw)⟩
  have hsplit := Nat.div_add_mod' k i
  calc joined i w 0 k = k / i * i * w + k % i := by rw [joined, Nat.add_zero, Nat.mul_right_comm]
    _ < k / i * i * w + k % i * w := Nat.add_lt_add_left (lt_mul_of_one_lt_right hrest hw) _
    _ = k * w := by rw [← Nat.add_mul, hsplit]

end

end Yuan.Interleave
