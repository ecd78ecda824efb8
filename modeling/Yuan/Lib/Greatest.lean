import Mathlib.Order.Bounds.Basic
import Mathlib.Tactic.Linarith

/-!
# Greatest elements below a bound

A search from above answers with the greatest element below its bound that has some property.
The rules here compose such answers: a candidate that fails is skipped, a search within the answer of
another one finds the greatest element with both properties, and a round of searches that leaves its
bound in place has found an element with all of them.
-/

namespace Yuan

/-- `n` is the greatest element at most `m` with property `P`. -/
def GreatestBelow {α : Type} [Preorder α] (P : α → Prop) (m n : α) : Prop :=
  IsGreatest {x | x ≤ m ∧ P x} n

namespace GreatestBelow

section Preorder

variable {α : Type} [Preorder α] {P Q : α → Prop} {m n k : α}

theorem le (h : GreatestBelow P m n) : n ≤ m := h.1.1

theorem holds (h : GreatestBelow P m n) : P n := h.1.2

/-- Nothing below the bound with the property lies above the answer. -/
theorem bound (h : GreatestBelow P m n) (hle : k ≤ m) (hk : P k) : k ≤ n := h.2 ⟨hle, hk⟩

theorem self (h : P m) : GreatestBelow P m m := ⟨⟨le_rfl, h⟩, fun _ hx => hx.1⟩

end Preorder

/-- A candidate that fails is skipped. -/
theorem succ {P : Nat → Prop} {m n : Nat} (hm : ¬ P (m + 1)) (h : GreatestBelow P m n) : GreatestBelow P (m + 1) n := by
  constructor
  · exact ⟨Nat.le_succ_of_le h.le, h.holds⟩
  · rintro x ⟨hle, hx⟩
    rcases Nat.lt_or_eq_of_le hle with hlt | rfl
    · exact h.bound (Nat.le_of_lt_succ hlt) hx
    · exact absurd hx hm

/-- A run of failing candidates is skipped. -/
theorem skip {P : Nat → Prop} {m m' n : Nat} (hle : m ≤ m') (hfail : ∀ x, m < x → x ≤ m' → ¬ P x)
    (h : GreatestBelow P m n) : GreatestBelow P m' n := by
  constructor
  · exact ⟨h.le.trans hle, h.holds⟩
  · rintro x ⟨hx, hP⟩
    rcases Nat.lt_or_ge m x with hlt | hge
    · exact absurd hP (hfail x hlt hx)
    · exact h.bound hge hP

end GreatestBelow

end Yuan
