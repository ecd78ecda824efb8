import Mathlib.Data.List.Basic

/-!
# Repeated blocks

Copies of one block behind each other. A list is made of them if and only if every element is the one at the same place
of the last block.
-/

namespace Yuan

variable {α : Type}

/-- The list taken `k` times. -/
def copies (k : Nat) (l : List α) : List α := (List.replicate k l).flatten

theorem length_copies (k : Nat) (l : List α) : (copies k l).length = k * l.length := by
  unfold copies
  simp

theorem copies_succ (k : Nat) (l : List α) : copies (k + 1) l = l ++ copies k l := rfl

theorem getElem?_copies {n m k : Nat} {block : List α} (hm : m < n) (hk : k < block.length) :
    (copies n block)[block.length * m + k]? = block[k]? := by
  induction n generalizing m with
  | zero => exact absurd hm (Nat.not_lt_zero m)
  | succ n ih =>
    rw [copies_succ]
    cases m with
    | zero => rw [Nat.mul_zero, Nat.zero_add, List.getElem?_append_left hk]
    | succ m =>
      have hoffset : block.length * (m + 1) + k = block.length + (block.length * m + k) := by
        rw [Nat.mul_succ]
        omega
      rw [hoffset, List.getElem?_append_right (Nat.le_add_right _ _), Nat.add_sub_cancel_left,
        ih (Nat.lt_of_succ_lt_succ hm)]

/-- A list of `n + 1` blocks is made of copies of its last block if its columns are constant. -/
theorem eq_copies_iff {l : List α} {size n : Nat} (hlen : l.length = size * (n + 1)) :
    (∃ block, block.length = size ∧ l = copies (n + 1) block) ↔
      ∀ k < size, ∀ m < n, l[size * m + k]? = l[size * n + k]? := by
  constructor
  · rintro ⟨block, rfl, rfl⟩ k hk m hm
    rw [getElem?_copies (Nat.lt_succ_of_lt hm) hk, getElem?_copies (Nat.lt_succ_self n) hk]
  · intro hcolumns
    have hlast : (l.drop (size * n)).length = size := by
      rw [List.length_drop, hlen, Nat.mul_succ, Nat.add_sub_cancel_left]
    refine ⟨l.drop (size * n), hlast, List.ext_getElem? fun i => ?_⟩
    by_cases hi : i < size * (n + 1)
    · have hsize : 0 < size := Nat.pos_of_mul_pos_right (Nat.zero_lt_of_lt hi)
      have hk := Nat.mod_lt i hsize
      have hm : i / size < n + 1 := Nat.div_lt_of_lt_mul hi
      have hsplit : size * (i / size) + i % size = i := Nat.div_add_mod i size
      have hcopies := getElem?_copies hm (hlast.symm ▸ hk)
      rw [hlast, hsplit, List.getElem?_drop] at hcopies
      rw [hcopies]
      rcases Nat.lt_succ_iff_lt_or_eq.mp hm with hm | hm
      · rw [← hcolumns _ hk _ hm, hsplit]
      · rw [← hm, hsplit]
    · rw [List.getElem?_eq_none (by omega), List.getElem?_eq_none]
      rw [length_copies, hlast, Nat.mul_comm]
      omega

end Yuan
