import Mathlib.Data.List.Infix
import Mathlib.Data.Int.Basic

/-!
# Searching a text for a substring

Python's `str.find`: the first index at or behind a start at which the substring occurs. The lemmas
say where it occurs in a text that grows at its end.
-/

namespace Yuan

variable {α : Type} {sub text : List α}

/-- `sub` stands in `text` from index `i` on. -/
def OccursAt (sub text : List α) (i : Nat) : Prop := sub <+: text.drop i

theorem OccursAt.length_le {i : Nat} (h : OccursAt sub text i) (hsub : sub ≠ []) : i + sub.length ≤ text.length := by
  have hle := List.IsPrefix.length_le h
  have hpos := List.length_pos_iff.mpr hsub
  rw [List.length_drop] at hle
  omega

/-- What occurs in a text still does when the text grows. -/
theorem OccursAt.append {i : Nat} (h : OccursAt sub text i) (hi : i ≤ text.length) (more : List α) :
    OccursAt sub (text ++ more) i := by
  rw [OccursAt, List.drop_append_of_le_length hi]
  exact h.trans (List.prefix_append _ _)

/-- What occurs within the first part of a text occurs in that part. -/
theorem OccursAt.of_append {more : List α} {i : Nat} (h : OccursAt sub (text ++ more) i)
    (hi : i + sub.length ≤ text.length) : OccursAt sub text i := by
  rw [OccursAt, List.drop_append_of_le_length (by omega)] at h
  exact List.prefix_of_prefix_length_le h (List.prefix_append _ _)
    (by rw [List.length_drop]; omega)

variable [DecidableEq α]

instance (sub text : List α) (i : Nat) : Decidable (OccursAt sub text i) :=
  inferInstanceAs (Decidable (sub <+: text.drop i))

/-- The first occurrence at or behind `start`. -/
def findFrom (text sub : List α) (start : Nat) : Option Nat :=
  (List.range' start (text.length + 1 - start)).find? fun i => decide (OccursAt sub text i)

/-- `text.find(sub, start)`, with `none` for `-1`. A negative start counts from the end and is cut
off at the beginning. -/
def find (text sub : List α) (start : Int) : Option Nat :=
  findFrom text sub (if start < 0 then (start + text.length).toNat else start.toNat)

theorem findFrom_eq_some {start i : Nat} :
    findFrom text sub start = some i ↔ start ≤ i ∧ i ≤ text.length ∧ OccursAt sub text i ∧
        ∀ j, start ≤ j → j < i → ¬ OccursAt sub text j := by
  rw [findFrom, List.find?_range'_eq_some]
  simp only [decide_eq_true_eq, List.mem_range'_1, Bool.not_eq_eq_eq_not, Bool.not_true,
    decide_eq_false_iff_not]
  constructor
  · rintro ⟨hoccurs, ⟨hstart, hend⟩, hfirst⟩
    exact ⟨hstart, by omega, hoccurs, hfirst⟩
  · rintro ⟨hstart, hend, hoccurs, hfirst⟩
    exact ⟨hoccurs, ⟨hstart, by omega⟩, hfirst⟩

theorem findFrom_eq_none {start : Nat} :
    findFrom text sub start = none ↔ ∀ i, start ≤ i → i ≤ text.length → ¬ OccursAt sub text i := by
  rw [findFrom, List.find?_range'_eq_none]
  simp only [Bool.not_eq_eq_eq_not, Bool.not_true, decide_eq_false_iff_not]
  constructor
  · intro h i hstart hend
    exact h i hstart (by omega)
  · intro h i hstart hend
    exact h i hstart (by omega)

end Yuan
