import Mathlib.Data.Finset.Dedup
import Mathlib.Data.Finset.Range
import Mathlib.Data.List.Lex
import Mathlib.Data.List.Sort
import Mathlib.Data.Prod.Lex
import Yuan.Lib.Parts
import Yuan.Lib.HeapReduce
import Yuan.Lib.Py

/-!
# Balanced partitions of sequence lengths

The largest differencing method. A state divides some of the sequences into `k` sets, in decreasing order. The two
states that come first in a heap are merged, the largest sets of the one with the smallest of the other.
-/

namespace Yuan.Balancing

/-- `Set`: indices with their lengths, and the sum of these. -/
structure ItemSet where
  sum : Nat
  items : List (Nat × Nat)
  sum_eq : sum = (items.map Prod.snd).sum
  deriving DecidableEq

namespace ItemSet

def empty : ItemSet := ⟨0, [], rfl⟩

def add (s : ItemSet) (idx val : Nat) : ItemSet where
  sum := s.sum + val
  items := s.items ++ [(idx, val)]
  sum_eq := by rw [List.map_append, List.sum_append, ← s.sum_eq]; rfl

def merge (s other : ItemSet) : ItemSet := other.items.foldl (fun s item => s.add item.1 item.2) s

/-- `__lt__`. -/
def lt (s other : ItemSet) : Bool :=
  if s.sum ≠ other.sum then s.sum < other.sum
  else if s.items.length ≠ other.items.length then s.items.length < other.items.length
  else s.items.map toLex < other.items.map toLex

/-- What `__lt__` compares. -/
def key (s : ItemSet) : ℕ ×ₗ ℕ ×ₗ List (ℕ ×ₗ ℕ) := toLex (s.sum, toLex (s.items.length, s.items.map toLex))

theorem lt_iff {s other : ItemSet} : s.lt other = true ↔ s.key < other.key := by
  unfold lt key
  rw [Prod.Lex.toLex_lt_toLex, Prod.Lex.toLex_lt_toLex]
  by_cases hsum : s.sum = other.sum
  · by_cases hlen : s.items.length = other.items.length
    · rw [if_neg (not_not.mpr hsum), if_neg (not_not.mpr hlen), decide_eq_true_eq]
      simp only [hsum, hlen, lt_irrefl, true_and, false_or]
    · rw [if_neg (not_not.mpr hsum), if_pos hlen, decide_eq_true_eq]
      simp only [hsum, hlen, lt_irrefl, true_and, false_and, false_or, or_false]
  · rw [if_pos hsum, decide_eq_true_eq]
    simp only [hsum, false_and, or_false]

/-- `sorted(sets, reverse=True)`. -/
def sortedReverse (sets : List ItemSet) : List ItemSet := sets.insertionSort fun s other => ¬ s.lt other = true

theorem sortedReverse_perm (sets : List ItemSet) : (sortedReverse sets).Perm sets := List.perm_insertionSort _ _

theorem sortedReverse_sorted (sets : List ItemSet) :
    (sortedReverse sets).Pairwise fun s other => other.key ≤ s.key := by
  have hrel : ∀ s other : ItemSet, ¬ s.lt other = true ↔ other.key ≤ s.key := fun s other => by
    rw [lt_iff, not_lt]
  have : Std.Total fun s other : ItemSet => ¬ s.lt other = true :=
    ⟨fun s other => by rw [hrel, hrel]; exact le_total _ _⟩
  have : IsTrans ItemSet fun s other => ¬ s.lt other = true :=
    ⟨fun s other t h h' => by
      rw [hrel] at h h' ⊢
      exact le_trans h' h⟩
  exact (List.pairwise_insertionSort _ sets).imp fun h => (hrel _ _).mp h

end ItemSet

/-- `State`, with at least one set. -/
structure State (k : Nat) where
  sets : List ItemSet
  length_eq : sets.length = k
  sorted : sets.Pairwise fun s other => other.key ≤ s.key
  pos : 0 < k

namespace State

variable {k : Nat}

/-- The state of sets that are still to be sorted. -/
def ofSets (sets : List ItemSet) (hlen : sets.length = k) (hpos : 0 < k) : State k where
  sets := ItemSet.sortedReverse sets
  length_eq := (ItemSet.sortedReverse_perm sets).length_eq.trans hlen
  sorted := ItemSet.sortedReverse_sorted sets
  pos := hpos

/-- Set `i` with its item, if there is one. -/
def initialSet (items : List (Nat × Nat)) (i : Nat) : ItemSet :=
  match items[i]? with
  | some item => ItemSet.empty.add item.1 item.2
  | none => ItemSet.empty

/-- The sets that `__init__` fills. -/
def initialSets (items : List (Nat × Nat)) (k : Nat) : List ItemSet := (List.range k).map (initialSet items)

theorem length_initialSets (items : List (Nat × Nat)) (k : Nat) : (initialSets items k).length = k := by
  rw [initialSets, List.length_map, List.length_range]

/-- `__init__`. -/
def init (items : List (Nat × Nat)) (k : Nat) : Except PyError (State k) := do
  pyAssert (items.length = 1 ∨ items.length = k) s!"{items.length} not in [1, {k}]"
  if hpos : 0 < k then return ofSets (initialSets items k) (length_initialSets items k) hpos
  -- there is no set for the first item
  else throw (.indexError "list index out of range")

theorem ne_nil (s : State k) : s.sets ≠ [] := by
  intro h
  have hlen := s.length_eq
  rw [h] at hlen
  exact absurd hlen s.pos.ne

/-- `self.sets[0]`. -/
def first (s : State k) : ItemSet := s.sets.head s.ne_nil

/-- `self.sets[-1]`. -/
def last (s : State k) : ItemSet := s.sets.getLast s.ne_nil

/-- `spread`. The first set has the largest sum. -/
def spread (s : State k) : Nat := s.first.sum - s.last.sum

/-- `__lt__`: the largest spread comes first, then the largest set. -/
def lt (s other : State k) : Bool :=
  if s.spread ≠ other.spread then other.spread < s.spread else other.first.lt s.first

/-- The sets of `merge`: set `i` with set `k - 1 - i` of the other state. -/
def mergedSets (s other : State k) : List ItemSet := List.zipWith ItemSet.merge s.sets other.sets.reverse

theorem length_mergedSets (s other : State k) : (mergedSets s other).length = k := by
  rw [mergedSets, List.length_zipWith, List.length_reverse, s.length_eq, other.length_eq, Nat.min_self]

def merge (s other : State k) : State k := ofSets (mergedSets s other) (length_mergedSets s other) s.pos

def getPartitions (s : State k) : List (List Nat) := s.sets.map fun set => set.items.map Prod.fst

end State

/-- `sorted([(seqlen, i) for i, seqlen in enumerate(seqlen_list)])`. -/
def sortedSeqlenList (seqlens : List Nat) : List (Nat × Nat) :=
  seqlens.zipIdx.insertionSort fun a b => toLex a ≤ toLex b

/-- The items of the states that are pushed at first: one sequence each, or `k` sequences that follow each other in the
sorted list. -/
def initialItems (seqlens : List Nat) (kPartitions : Nat) (equalSize : Bool) :
    Except PyError (List (List (Nat × Nat))) :=
  let sorted := (sortedSeqlenList seqlens).map Prod.swap
  if equalSize then
    if kPartitions = 0 then .error (.zeroDivisionError "integer modulo by zero")
    else do
      pyAssert (seqlens.length % kPartitions = 0) s!"{seqlens.length} % {kPartitions} != 0"
      return (List.range (seqlens.length / kPartitions)).map (chunkAt sorted kPartitions)
  else .ok (sorted.map fun item => [item])

/-- `karmarkar_karp`. -/
def karmarkarKarp (seqlens : List Nat) (kPartitions : Nat) (equalSize : Bool) : Except PyError (List (List Nat)) := do
  let items ← initialItems seqlens kPartitions equalSize
  let states ← items.mapM fun items => State.init items kPartitions
  let statesPq := Heap.pushAll State.lt states
  match Heap.reduce State.lt State.merge statesPq.length statesPq with
  | [] => throw (.indexError "list index out of range")
  | finalState :: _ =>
    let partitions := finalState.getPartitions
    if equalSize then
      partitions.forM fun p =>
        pyAssert (p.length * kPartitions = seqlens.length) s!"{p.length} * {kPartitions} != {seqlens.length}"
    return partitions

/-- `_check_and_sort_partitions`. -/
def checkAndSortPartitions (n kPartitions : Nat) (partitions : List (List Nat)) :
    Except PyError (List (List Nat)) := do
  pyAssert (partitions.length = kPartitions) s!"{partitions.length} != {kPartitions}"
  let sortedPartitions ← partitions.zipIdx.mapM fun p => do
    pyAssert (0 < p.1.length) s!"the {p.2}-th partition is empty"
    return p.1.insertionSort (· ≤ ·)
  pyAssert (partitions.flatten.toFinset = Finset.range n) ""
  return sortedPartitions

/-- `get_seqlen_balanced_partitions`. -/
def getSeqlenBalancedPartitions (seqlens : List Nat) (kPartitions : Nat) (equalSize : Bool) :
    Except PyError (List (List Nat)) := do
  pyAssert (kPartitions ≤ seqlens.length)
    s!"number of items:[{seqlens.length}] < k_partitions:[{kPartitions}]"
  let partitions ← karmarkarKarp seqlens kPartitions equalSize
  checkAndSortPartitions seqlens.length kPartitions partitions

example : getSeqlenBalancedPartitions [8, 7, 6, 5, 4] 2 false = .ok [[1, 3, 4], [0, 2]] := by decide

end Yuan.Balancing
