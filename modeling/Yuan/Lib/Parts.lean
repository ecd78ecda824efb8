import Mathlib.Data.List.Range
import Mathlib.Tactic.Common

/-!
# Parts of a list

The chunks of a fixed size, by their numbers, and the two parts of a queue of which every element is taken or left.
-/

namespace Yuan

/-! ## Chunks -/

section

variable {α β : Type}

/-- Chunk `i` of chunks of `size` elements. -/
def chunkAt (rows : List α) (size i : Nat) : List α := (rows.drop (i * size)).take size

theorem flatten_chunks (rows : List α) (size n : Nat) :
    ((List.range n).map (chunkAt rows size)).flatten = rows.take (n * size) := by
  induction n with
  | zero => rw [Nat.zero_mul, List.take_zero, List.range_zero, List.map_nil, List.flatten_nil]
  | succ n ih =>
    rw [List.range_succ, List.map_append, List.flatten_append, ih, Nat.succ_mul, List.take_add]
    simp [chunkAt]

theorem flatten_map_chunks (f : α → β) {rows : List α} {chunks size : Nat} (hlen : rows.length = chunks * size) :
    ((List.range chunks).map fun i => (chunkAt rows size i).map f).flatten = rows.map f := by
  have h := flatten_chunks rows size chunks
  rw [← hlen, List.take_length] at h
  conv_rhs => rw [← h]
  rw [List.map_flatten, List.map_map]
  rfl

theorem length_chunkAt {rows : List α} {chunks size i : Nat} (hlen : rows.length = chunks * size) (hi : i < chunks) :
    (chunkAt rows size i).length = size := by
  have hnext : (i + 1) * size ≤ rows.length := by
    rw [hlen]
    exact Nat.mul_le_mul_right size hi
  rw [Nat.succ_mul] at hnext
  rw [chunkAt, List.length_take, List.length_drop]
  omega

end

/-! ## A queue in two parts -/

/-- `taken` and `left` are the two parts of `queue`. -/
inductive Splits {α : Type} : List α → List α → List α → Prop where
  | nil : Splits [] [] []
  | take {queue taken left : List α} (x : α) (h : Splits queue taken left) : Splits (x :: queue) (x :: taken) left
  | leave {queue taken left : List α} (x : α) (h : Splits queue taken left) : Splits (x :: queue) taken (x :: left)

namespace Splits

variable {α : Type} {queue queue' taken taken' left left' : List α}

theorem all_left (queue : List α) : Splits queue [] queue := by
  induction queue with
  | nil => exact .nil
  | cons x queue ih => exact .leave x ih

theorem left_of_nil (h : Splits queue [] left) : left = queue := by
  generalize htaken : ([] : List α) = taken at h
  induction h with
  | nil => rfl
  | take => cases htaken
  | leave x _ ih => rw [ih htaken]

theorem append (h : Splits queue taken left) (h' : Splits queue' taken' left') :
    Splits (queue ++ queue') (taken ++ taken') (left ++ left') := by
  induction h with
  | nil => exact h'
  | take x _ ih => exact .take x ih
  | leave x _ ih => exact .leave x ih

end Splits

end Yuan
