import Mathlib.Data.List.Basic
import Mathlib.Data.List.Infix

/-!
# Borders of the prefixes of a word

A border of a prefix is a shorter prefix that is also its suffix. The borders of a prefix are linearly ordered:
of two of them, the shorter one is a border of the longer one.
-/

namespace Yuan

variable {α : Type} {t : List α} {m v w : Nat}

/-- The prefix of length `v` is a proper suffix of the prefix of length `m`. -/
def Border (t : List α) (m v : Nat) : Prop := v < m ∧ t.take v <:+ t.take m

/-- The border of length `v` is the longest one of the prefix of length `m`. -/
def LongestBorder (t : List α) (m v : Nat) : Prop := Border t m v ∧ ∀ w, Border t m w → w ≤ v

namespace Border

theorem zero (h : 0 < m) : Border t m 0 := ⟨h, by simp⟩

theorem trans (h : Border t m v) (h' : Border t v w) : Border t m w :=
  ⟨h'.1.trans h.1, h'.2.trans h.2⟩

theorem of_lt (h : Border t m v) (h' : Border t m w) (hlt : w < v) : Border t v w := by
  refine ⟨hlt, List.suffix_of_suffix_length_le h'.2 h.2 ?_⟩
  simp only [List.length_take]
  omega

end Border

theorem concat_suffix_concat {l l' : List α} {a b : α} : l ++ [a] <:+ l' ++ [b] ↔ a = b ∧ l <:+ l' := by
  rw [← List.reverse_prefix, List.reverse_concat', List.reverse_concat', List.cons_prefix_cons, List.reverse_prefix]

/-- A border grows by one symbol with its prefix. -/
theorem border_succ (hm : m < t.length) (hv : v < m) : Border t (m + 1) (v + 1) ↔ Border t m v ∧ t[v]? = t[m]? := by
  have hv' : v < t.length := hv.trans hm
  rw [Border, Border, List.take_succ_eq_append_getElem hv', List.take_succ_eq_append_getElem hm, concat_suffix_concat,
    List.getElem?_eq_getElem hv', List.getElem?_eq_getElem hm]
  simp only [hv, Nat.add_lt_add_iff_right, true_and, Option.some_inj]
  exact And.comm

theorem longestBorder_one : LongestBorder t 1 0 :=
  ⟨.zero Nat.one_pos, fun _ h => Nat.le_of_lt_succ h.1⟩

/-- Below the longest border of a border there is no other one of the prefix. -/
theorem LongestBorder.le_of_lt (h : LongestBorder t v w) (hv : Border t m v) {w' : Nat} (hw' : Border t m w')
    (hlt : w' < v) : w' ≤ w :=
  h.2 w' (hv.of_lt hw' hlt)

end Yuan
