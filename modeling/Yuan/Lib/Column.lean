import Mathlib.Logic.Equiv.Basic
import Mathlib.Data.List.GetD
import Mathlib.Tactic.Common
import Yuan.Lib.Py

/-!
# Columns and rows of preallocated tables

A table with preallocated cells is a column of rows. What it holds for one row index is only a prefix
of that row; the cells behind are leftovers. A row `Shows` a list of cells when its prefix agrees with
every cell that the list knows. Writing makes cells known, and copying a prefix that covers the list
keeps them.
-/

namespace Yuan

namespace Column

variable {α : Type}

/-- The column with the values at two indices exchanged. -/
def swap (col : Nat → α) (i j : Nat) : Nat → α :=
  Function.update (Function.update col i (col j)) j (col i)

theorem swap_apply (col : Nat → α) (i j k : Nat) : swap col i j k = col (Equiv.swap i j k) := by
  unfold swap
  rcases eq_or_ne k j with rfl | hj
  · rw [Function.update_self, Equiv.swap_apply_right]
  · rw [Function.update_of_ne hj]
    rcases eq_or_ne k i with rfl | hi
    · rw [Function.update_self, Equiv.swap_apply_left]
    · rw [Function.update_of_ne hi, Equiv.swap_apply_of_ne_of_ne hi hj]

end Column

/-! ## A list as a column with a default value -/

section

variable {α : Type}

theorem getD_set {l : List α} {i : Nat} (h : i < l.length) (x d : α) (k : Nat) :
    (l.set i x).getD k d = Function.update (fun k => l.getD k d) i x k := by
  rcases eq_or_ne k i with rfl | hk
  · rw [Function.update_self, List.getD_eq_getElem?_getD, List.getElem?_set_self h]
    rfl
  · rw [Function.update_of_ne hk, List.getD_eq_getElem?_getD, List.getElem?_set_ne hk.symm,
      List.getD_eq_getElem?_getD]

theorem getD_append_singleton (l : List α) (x d : α) (k : Nat) :
    (l ++ [x]).getD k d = Function.update (fun k => l.getD k d) l.length x k := by
  simp only [List.getD_eq_getElem?_getD]
  rcases Nat.lt_trichotomy k l.length with hlt | rfl | hgt
  · rw [Function.update_of_ne hlt.ne, List.getElem?_append_left hlt]
  · simp
  · rw [Function.update_of_ne hgt.ne', List.getElem?_eq_none (by simp; omega),
      List.getElem?_eq_none hgt.le]

theorem getD_take (l : List α) (n : Nat) (d : α) (k : Nat) :
    (l.take n).getD k d = if k < n then l.getD k d else d := by
  simp only [List.getD_eq_getElem?_getD, List.getElem?_take]
  split <;> rfl

/-- `l[i], l[j] = l[j], l[i]`. -/
def swapEntries (l : List α) (i j : Nat) : Except PyError (List α) :=
  match l[i]?, l[j]? with
  | some x, some y => .ok ((l.set i y).set j x)
  | _, _ => .error (.indexError "list index out of range")

theorem swapEntries_eq_ok {l l' : List α} {i j : Nat} (h : swapEntries l i j = .ok l') :
    i < l.length ∧ j < l.length ∧ l'.length = l.length ∧ ∀ d k, l'.getD k d = l.getD (Equiv.swap i j k) d := by
  unfold swapEntries at h
  split at h
  · next x y hx hy =>
      cases h
      obtain ⟨hi, rfl⟩ := List.getElem?_eq_some_iff.mp hx
      obtain ⟨hj, rfl⟩ := List.getElem?_eq_some_iff.mp hy
      refine ⟨hi, hj, by simp, ?_⟩
      intro d k
      have hfirst : (fun k => (l.set i l[j]).getD k d) =
          Function.update (fun k => l.getD k d) i l[j] := funext fun k => getD_set hi _ d k
      have hswap := Column.swap_apply (fun k => l.getD k d) i j k
      rw [getD_set (by rwa [List.length_set]), hfirst, ← hswap]
      unfold Column.swap
      simp only [List.getD_eq_getElem?_getD, hx, hy, Option.getD_some]
  · cases h

end

namespace Row

variable {α : Type}

/-- The row with the given values written from `start` on. -/
def write (row : Nat → α) (start : Nat) (vals : List α) : Nat → α :=
  fun k => if start ≤ k then (vals[k - start]?).getD (row k) else row k

/-- The target row with its first `n` cells taken from the source row. -/
def copyPrefix (src tgt : Nat → α) (n : Nat) : Nat → α := fun k => if k < n then src k else tgt k

theorem write_of_lt (row : Nat → α) {start k : Nat} (vals : List α) (h : k < start) :
    write row start vals k = row k := if_neg (by omega)

theorem write_of_getElem? (row : Nat → α) {start k : Nat} {vals : List α} {v : α} (hle : start ≤ k)
    (h : vals[k - start]? = some v) : write row start vals k = v := by
  unfold write
  rw [if_pos hle, h]
  rfl

theorem copyPrefix_of_lt (src tgt : Nat → α) {n k : Nat} (h : k < n) :
    copyPrefix src tgt n k = src k := if_pos h

/-- The row agrees with every cell the list knows. -/
def Shows (row : Nat → α) (cells : List (Option α)) : Prop :=
  ∀ k v, cells[k]? = some (some v) → row k = v

variable {row : Nat → α} {cells : List (Option α)}

theorem shows_nil (row : Nat → α) : Shows row [] := by
  intro k v h
  simp at h

/-- The first `n` cells, with unknown ones where the list is shorter. -/
def cut (cells : List (Option α)) (n : Nat) : List (Option α) :=
  cells.take n ++ List.replicate (n - cells.length) none

@[simp] theorem length_cut (cells : List (Option α)) (n : Nat) : (cut cells n).length = n := by
  simp only [cut, List.length_append, List.length_take, List.length_replicate]
  omega

theorem cut_of_length_eq {n : Nat} (h : cells.length = n) : cut cells n = cells := by
  simp [cut, ← h]

section

variable (h : Shows row cells)
include h

theorem Shows.append_unknown (n : Nat) : Shows row (cells ++ List.replicate n none) := by
  intro k v hk
  rcases Nat.lt_or_ge k cells.length with hlt | hge
  · rw [List.getElem?_append_left hlt] at hk
    exact h k v hk
  · rw [List.getElem?_append_right hge, List.getElem?_replicate] at hk
    split at hk <;> cases hk

theorem Shows.cut (n : Nat) : Shows row (cut cells n) := by
  apply Shows.append_unknown
  intro k v hk
  rw [List.getElem?_take] at hk
  split at hk
  · exact h k v hk
  · cases hk

/-- Writing keeps the known cells before the place of writing, and makes those written known. -/
theorem Shows.write (start : Nat) (vals : List α) :
    Shows (write row start vals) (Row.cut cells start ++ vals.map some) := by
  intro k v hk
  rcases Nat.lt_or_ge k start with hlt | hge
  · rw [List.getElem?_append_left (by rwa [length_cut])] at hk
    rw [write_of_lt row vals hlt]
    exact h.cut start k v hk
  · rw [List.getElem?_append_right (by rwa [length_cut]), length_cut, List.getElem?_map,
      Option.map_eq_some_iff] at hk
    obtain ⟨w, hw, heq⟩ := hk
    cases heq
    exact write_of_getElem? row hge hw

theorem Shows.copyPrefix {n : Nat} (hn : cells.length ≤ n) (tgt : Nat → α) : Shows (copyPrefix row tgt n) cells := by
  intro k v hk
  have hlt : k < cells.length := (List.getElem?_eq_some_iff.mp hk).1
  rw [copyPrefix_of_lt row tgt (by omega)]
  exact h k v hk

end

end Row

end Yuan
