import Mathlib.Data.List.Nodup
import Mathlib.Data.List.Perm.Basic
import Mathlib.Data.List.Range

/-!
# Strides and columns of lists

Two ways of cutting things up so that nothing is lost and nothing is taken twice: a list into the
slices with the same step and different starts, and a list of rows of unequal length into its columns.
-/

namespace Yuan

variable {α : Type} {rows : List (List α)}

/-- Every `step`-th element from index `start` on. -/
def stride (step : Nat) : Nat → List α → List α
  | _, [] => []
  | 0, x :: l => x :: stride step (step - 1) l
  | start + 1, _ :: l => stride step start l

/-- The slices with starts below the step make up the list. -/
theorem flatMap_stride_perm {step : Nat} (hpos : 0 < step) (l : List α) :
    ((List.range step).flatMap fun start => stride step start l).Perm l := by
  obtain ⟨n, rfl⟩ := Nat.exists_eq_succ_of_ne_zero hpos.ne'
  induction l with
  | nil =>
    have hnil : (List.range (n + 1)).flatMap (fun start => stride (n + 1) start ([] : List α)) = [] := by
      rw [List.flatMap_eq_nil_iff]
      intro start _
      cases start <;> rfl
    rw [hnil]
  | cons x l ih =>
    have hsplit : (List.range (n + 1)).flatMap (fun start => stride (n + 1) start (x :: l)) =
        x :: (stride (n + 1) n l ++
          (List.range n).flatMap fun start => stride (n + 1) start l) := by
      rw [List.range_succ_eq_map, List.flatMap_cons, List.flatMap_map]
      rfl
    rw [hsplit]
    apply List.Perm.cons
    have hlast : (List.range (n + 1)).flatMap (fun start => stride (n + 1) start l) =
        ((List.range n).flatMap fun start => stride (n + 1) start l) ++ stride (n + 1) n l := by
      rw [List.range_succ, List.flatMap_append, List.flatMap_singleton]
    rw [hlast] at ih
    exact List.perm_append_comm.trans ih

/-- The elements at index `i` of the rows that are long enough. -/
def column (rows : List (List α)) (i : Nat) : List α := rows.filterMap fun row => row[i]?

theorem mem_column {i : Nat} {a : α} : a ∈ column rows i ↔ ∃ row ∈ rows, row[i]? = some a := List.mem_filterMap

/-- The columns make up the rows. -/
theorem flatMap_column_perm {width : Nat} (hwidth : ∀ row ∈ rows, row.length ≤ width) :
    ((List.range width).flatMap (column rows)).Perm rows.flatten := by
  induction rows with
  | nil =>
    have hnil : (List.range width).flatMap (column ([] : List (List α))) = [] := by
      rw [List.flatMap_eq_nil_iff]
      exact fun _ _ => rfl
    rw [hnil]
    exact List.Perm.refl _
  | cons row rows ih =>
    have hcolumn : column (row :: rows) = fun i => row[i]?.toList ++ column rows i := by
      funext i
      unfold column
      rw [List.filterMap_cons]
      cases row[i]? <;> rfl
    have hrow : (List.range width).flatMap (fun i => row[i]?.toList) = row := by
      have hle := hwidth row List.mem_cons_self
      rw [← Nat.add_sub_cancel' hle, List.range_add, List.flatMap_append]
      have hrest : ((List.range (width - row.length)).map (row.length + ·)).flatMap
          (fun i => row[i]?.toList) = [] := by
        rw [List.flatMap_eq_nil_iff]
        intro i hi
        obtain ⟨k, -, rfl⟩ := List.mem_map.mp hi
        rw [List.getElem?_eq_none (Nat.le_add_right _ _)]
        rfl
      rw [hrest]
      clear hrest ih hcolumn hwidth hle
      induction row with
      | nil => rfl
      | cons x row ih =>
        rw [List.length_cons, List.range_succ_eq_map, List.flatMap_cons, List.flatMap_map]
        simpa using ih
    rw [hcolumn]
    refine (List.flatMap_append_perm _ _ _).symm.trans ?_
    rw [hrow]
    exact (ih fun r hr => hwidth r (List.mem_cons_of_mem _ hr)).append_left row

/-- When no element is in two rows, the row of an element is the only one that has it. -/
theorem row_unique (hnodup : rows.flatten.Nodup) {row row' : List α} (hrow : row ∈ rows) (hrow' : row' ∈ rows) {a : α}
    (ha : a ∈ row) (ha' : a ∈ row') : row = row' := by
  have hsymm : Std.Symm (List.Disjoint (α := α)) := ⟨fun _ _ h => List.disjoint_symm h⟩
  by_contra hne
  exact (List.nodup_flatten.mp hnodup).2.forall hrow hrow' hne ha ha'

/-- A column then meets every row at most once. -/
theorem column_unique (hnodup : rows.flatten.Nodup) {i : Nat} {row : List α} (hrow : row ∈ rows) {a b : α}
    (ha : a ∈ column rows i) (hb : b ∈ column rows i) (har : a ∈ row) (hbr : b ∈ row) : a = b := by
  have hin : ∀ x ∈ column rows i, x ∈ row → row[i]? = some x := by
    intro x hx hxr
    obtain ⟨row', hrow', hget⟩ := mem_column.mp hx
    rw [row_unique hnodup hrow hrow' hxr (List.mem_of_getElem? hget)]
    exact hget
  exact Option.some.inj ((hin a ha har).symm.trans (hin b hb hbr))

end Yuan
