import Mathlib.Data.List.Perm.Basic
import Mathlib.Data.List.Nodup

/-!
# Binary heaps in a list

The heap operations of Python's `heapq` over a comparison `lt`. The children of position `i` are
`2 * i + 1` and `2 * i + 2`. A sift moves an item by exchanging neighbours, which leaves the list the
module's own moves of the hole leave.

Whether a list is in heap order is no invariant here: a comparison may read data that changes while
an item is in the heap. What every operation keeps, in order or not, are the items.
-/

namespace Yuan.Heap

variable {α : Type}

/-- Exchange two positions. -/
def swap (heap : List α) (i j : Nat) : List α :=
  match heap[i]?, heap[j]? with
  | some a, some b => (heap.set i b).set j a
  | _, _ => heap

theorem swap_perm (heap : List α) (i j : Nat) : (swap heap i j).Perm heap := by
  unfold swap
  split
  case h_1 a b hi hj =>
    obtain ⟨hi', rfl⟩ := List.getElem?_eq_some_iff.mp hi
    obtain ⟨hj', rfl⟩ := List.getElem?_eq_some_iff.mp hj
    exact List.set_set_perm hi' hj'
  case h_2 => exact .refl _

variable (lt : α → α → Bool)

/-- Whether the item at position `i` is smaller than the one at position `j`. -/
def less (heap : List α) (i j : Nat) : Bool :=
  match heap[i]?, heap[j]? with
  | some a, some b => lt a b
  | _, _ => false

/-- `_siftdown`: move an item towards the root while it is smaller than its parent. -/
def siftdown (startpos : Nat) : Nat → Nat → List α → List α
  | 0, _, heap => heap
  | fuel + 1, pos, heap =>
    if startpos < pos ∧ less lt heap pos ((pos - 1) / 2) then
      siftdown startpos fuel ((pos - 1) / 2) (swap heap pos ((pos - 1) / 2))
    else heap

/-- The first half of `_siftup`: move an item to a leaf, exchanging it with the smaller child. -/
def siftup (startpos : Nat) : Nat → Nat → List α → List α
  | 0, pos, heap => siftdown lt startpos (pos + 1) pos heap
  | fuel + 1, pos, heap =>
    if 2 * pos + 1 < heap.length then
      let child :=
        if 2 * pos + 2 < heap.length ∧ less lt heap (2 * pos + 1) (2 * pos + 2) = false then
          2 * pos + 2
        else 2 * pos + 1
      siftup startpos fuel child (swap heap pos child)
    else siftdown lt startpos (pos + 1) pos heap

/-- `heappush`. -/
def heappush (heap : List α) (item : α) : List α :=
  siftdown lt 0 (heap.length + 1) heap.length (heap ++ [item])

/-- `heappop`: the item at the root, and the heap without it. -/
def heappop (heap : List α) : Option (α × List α) :=
  match heap with
  | [] => none
  | root :: rest =>
    match rest.getLast? with
    | none => some (root, [])
    | some last => some (root, siftup lt 0 rest.length 0 (last :: rest.dropLast))

/-- The loop of `heapify`: sift the positions below `n`, the highest first. -/
def heapifyLoop : Nat → List α → List α
  | 0, heap => heap
  | n + 1, heap => heapifyLoop n (siftup lt n heap.length n heap)

/-- `heapify`. -/
def heapify (heap : List α) : List α := heapifyLoop lt (heap.length / 2) heap

/-- The items in the order in which they are popped. -/
def popAll : Nat → List α → List α
  | 0, _ => []
  | fuel + 1, heap =>
    match heappop lt heap with
    | none => []
    | some (item, rest) => item :: popAll fuel rest

/-! ## The items stay -/

variable {lt}

theorem siftdown_perm (startpos fuel pos : Nat) (heap : List α) : (siftdown lt startpos fuel pos heap).Perm heap := by
  induction fuel generalizing pos heap with
  | zero => exact .refl _
  | succ fuel ih =>
    rw [siftdown]
    split
    · exact (ih _ _).trans (swap_perm heap _ _)
    · exact .refl _

theorem siftup_perm (startpos fuel pos : Nat) (heap : List α) : (siftup lt startpos fuel pos heap).Perm heap := by
  induction fuel generalizing pos heap with
  | zero => exact siftdown_perm ..
  | succ fuel ih =>
    rw [siftup]
    split
    · exact (ih _ _).trans (swap_perm heap _ _)
    · exact siftdown_perm ..

theorem heappush_perm (heap : List α) (item : α) : (heappush lt heap item).Perm (item :: heap) :=
  (siftdown_perm ..).trans (List.perm_append_singleton item heap)

theorem heappop_perm {heap rest : List α} {item : α} (h : heappop lt heap = some (item, rest)) :
    (item :: rest).Perm heap := by
  cases heap with
  | nil => simp [heappop] at h
  | cons root tail =>
    cases hlast : tail.getLast? with
    | none =>
      simp only [heappop, hlast, Option.some.injEq] at h
      obtain ⟨rfl, rfl⟩ := h
      rw [List.getLast?_eq_none_iff.mp hlast]
    | some last =>
      simp only [heappop, hlast, Option.some.injEq] at h
      obtain ⟨rfl, rfl⟩ := h
      apply List.Perm.cons
      apply (siftup_perm ..).trans
      obtain ⟨init, rfl⟩ := List.getLast?_eq_some_iff.mp hlast
      rw [List.dropLast_concat]
      exact (List.perm_append_singleton last init).symm

/-- There is an item to pop, unless there is none at all. -/
theorem heappop_isSome {heap : List α} (h : heap ≠ []) : (heappop lt heap).isSome := by
  cases heap with
  | nil => exact absurd rfl h
  | cons root tail => cases hlast : tail.getLast? <;> simp [heappop, hlast]

theorem heapifyLoop_perm (n : Nat) (heap : List α) : (heapifyLoop lt n heap).Perm heap := by
  induction n generalizing heap with
  | zero => exact .refl _
  | succ n ih => exact (ih _).trans (siftup_perm ..)

theorem heapify_perm (heap : List α) : (heapify lt heap).Perm heap := heapifyLoop_perm _ heap

theorem popAll_perm {fuel : Nat} {heap : List α} (h : heap.length ≤ fuel) : (popAll lt fuel heap).Perm heap := by
  induction fuel generalizing heap with
  | zero => rw [List.length_eq_zero_iff.mp (Nat.le_zero.mp h)]; exact .refl _
  | succ fuel ih =>
    rw [popAll]
    cases hpop : heappop lt heap with
    | none =>
      have hnil : heap = [] := by
        rcases heap with _ | ⟨root, tail⟩
        · rfl
        · have hsome : (heappop lt (root :: tail)).isSome :=
            heappop_isSome (List.cons_ne_nil root tail)
          simp [hpop] at hsome
      subst hnil
      exact .refl _
    | some popped =>
      obtain ⟨item, rest⟩ := popped
      have hperm := heappop_perm hpop
      have hlen := hperm.length_eq
      rw [List.length_cons] at hlen
      exact ((ih (by omega)).cons item).trans hperm

example : heappop (fun a b : Nat => decide (a < b)) (heapify (fun a b => decide (a < b)) [5, 3, 8, 1])
    = some (1, [3, 5, 8]) := by decide

end Yuan.Heap
