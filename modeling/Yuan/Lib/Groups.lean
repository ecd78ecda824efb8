import Yuan.Lib.Dict

/-!
# Grouping rows by a key

A dictionary of lists that is filled row by row has the rows of each key, in their order.
-/

namespace Yuan.Dict

variable {α β γ : Type} [DecidableEq α]

/-- `d[key(x)].append(val(x))` for every row. -/
def groupBy (key : γ → α) (val : γ → β) (l : List γ) : Dict α (List β) :=
  l.foldl (fun d x => d.set (key x) ((d.get? (key x)).getD [] ++ [val x])) empty

variable {key : γ → α} {val : γ → β}

theorem groupBy_append_singleton (l : List γ) (x : γ) :
    groupBy key val (l ++ [x]) =
      (groupBy key val l).set (key x) (((groupBy key val l).get? (key x)).getD [] ++ [val x]) := by
  unfold groupBy
  rw [List.foldl_append]
  rfl

/-- The keys are those of the rows. -/
theorem mem_keys_groupBy {l : List γ} {k : α} : k ∈ (groupBy key val l).keys ↔ k ∈ l.map key := by
  induction l using List.reverseRecOn with
  | nil => exact Iff.rfl
  | append_singleton l x ih =>
    rw [groupBy_append_singleton, mem_keys_set, ih, List.map_append, List.mem_append, List.map_singleton,
      List.mem_singleton]
    exact or_comm

/-- Under a key stand the values of its rows. -/
theorem getD_get?_groupBy (l : List γ) (k : α) :
    ((groupBy key val l).get? k).getD [] = (l.filter fun x => decide (key x = k)).map val := by
  induction l using List.reverseRecOn with
  | nil => rfl
  | append_singleton l x ih =>
    rw [groupBy_append_singleton, get?_set, List.filter_append, List.map_append, ← ih]
    by_cases hk : k = key x
    · rw [if_pos hk, hk, List.filter_cons_of_pos (by simp)]
      rfl
    · rw [if_neg hk, List.filter_cons_of_neg (by simpa using Ne.symm hk), List.filter_nil, List.map_nil,
        List.append_nil]

theorem get?_groupBy_of_mem {l : List γ} {k : α} (h : k ∈ l.map key) :
    (groupBy key val l).get? k = some ((l.filter fun x => decide (key x = k)).map val) := by
  obtain ⟨vals, hvals⟩ := Option.isSome_iff_exists.mp (isSome_get?.mpr (mem_keys_groupBy.mpr h))
  have hget : ((groupBy key val l).get? k).getD [] = _ := getD_get?_groupBy l k
  rw [hvals, Option.getD_some] at hget
  rw [hvals, hget]

end Yuan.Dict
