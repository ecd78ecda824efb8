import Yuan.Core.FreeQueue

/-!
# The free queue refines a list

Whatever is popped, removed and appended, the queue hands out what the list hands out, and the way from the
fake head to the fake tail goes over the blocks of the list.
-/

namespace Yuan.Core

open LinkedQueue

inductive QueueOp where
  | popleft
  | popleftN (n : Int)
  | remove (block : Nat)
  | append (block : Nat)
  | appendN (blocks : List Nat)

namespace QueueOp

/-- What an operation is on a list: the blocks it returns, none when there is no block to pop, and the list
it leaves. -/
def onList (l : List Nat) : QueueOp → Option (List Nat) × List Nat
  | .popleft => (l.head?.map fun b => [b], l.tail)
  | .popleftN n => (some (l.take n.toNat), l.drop n.toNat)
  | .remove block => (some [], l.erase block)
  | .append block => (some [], l ++ [block])
  | .appendN blocks => (some [], l ++ blocks)

/-- Removed blocks are in the list and appended ones are not, and no more blocks are asked for than there are. -/
def Allowed (l : List Nat) : QueueOp → Prop
  | .popleft => True
  | .popleftN n => 0 ≤ n ∧ n ≤ l.length
  | .remove block => block ∈ l
  | .append block => block ∉ l
  | .appendN blocks => blocks.Nodup ∧ ∀ b ∈ blocks, b ∉ l

/-- The operation on the queue. The `ValueError` of an empty queue is raised before anything is written. -/
def exec (q : FreeKVCacheBlockQueue) : QueueOp → Except PyError (Option (List Nat) × FreeKVCacheBlockQueue)
  | .popleft =>
    match q.popleft with
    | .ok (b, q') => .ok (some [b], q')
    | .error (.valueError _) => .ok (none, q)
    | .error e => .error e
  | .popleftN n => do
    let (ret, q') ← q.popleftN n
    return (some ret, q')
  | .remove block => do return (some [], ← q.remove block)
  | .append block => do return (some [], ← q.append block)
  | .appendN blocks => do return (some [], ← q.appendN blocks)

end QueueOp

def execAll (q : FreeKVCacheBlockQueue) :
    List QueueOp → Except PyError (List (Option (List Nat)) × FreeKVCacheBlockQueue)
  | [] => .ok ([], q)
  | op :: ops => do
    let (ret, q) ← op.exec q
    let (rets, q) ← execAll q ops
    return (ret :: rets, q)

def onListAll (l : List Nat) : List QueueOp → List (Option (List Nat)) × List Nat
  | [] => ([], l)
  | op :: ops => ((op.onList l).1 :: (onListAll (op.onList l).2 ops).1, (onListAll (op.onList l).2 ops).2)

def AllowedAll (l : List Nat) : List QueueOp → Prop
  | [] => True
  | op :: ops => op.Allowed l ∧ AllowedAll (op.onList l).2 ops

/-- The queue spells the list, forwards and backwards, and links nothing else. -/
structure Spells (q : FreeKVCacheBlockQueue) (l : List Nat) : Prop where
  forwards : List.IsChain (fun u v => q.links.next u = some v) (nodes l)
  getAllFreeBlocks : ∀ fuel, l.length < fuel → q.getAllFreeBlocks fuel = .ok (l.map .elem)
  backwards : ∀ u v, q.links.next u = some v ↔ q.links.prev v = some u
  ends : q.links.prev .head = none ∧ q.links.next .tail = none
  outside : ∀ b, b ∉ l → q.links.prev (.elem b) = none ∧ q.links.next (.elem b) = none
  count : q.numFreeBlocks = l.length

variable {q : FreeKVCacheBlockQueue} {l : List Nat}

theorem FreeKVCacheBlockQueue.Holds.spells (h : q.Holds l) : Spells q l where
  forwards := h.links.chain.imp fun _ _ hlinked => hlinked.1
  getAllFreeBlocks _ hfuel := h.getAllFreeBlocks hfuel
  backwards _ _ := h.links.next_iff_prev
  ends := ⟨h.links.prev_head, h.links.next_tail⟩
  outside := h.links.outside
  count := h.count

/-- One operation does to the queue what it does to the list. -/
theorem FreeKVCacheBlockQueue.Holds.exec {op : QueueOp} (h : q.Holds l) (hop : op.Allowed l) :
    ∃ q', op.exec q = .ok ((op.onList l).1, q') ∧ q'.Holds (op.onList l).2 := by
  cases op with
  | popleft =>
    cases l with
    | nil => exact ⟨q, by simp [QueueOp.exec, h.popleft_nil, QueueOp.onList], h⟩
    | cons b l =>
      obtain ⟨q', hq', hold⟩ := h.popleft
      exact ⟨q', by simp [QueueOp.exec, hq', QueueOp.onList], hold⟩
  | popleftN n =>
    obtain ⟨hpos, hle⟩ := hop
    obtain ⟨n, rfl⟩ := Int.eq_ofNat_of_zero_le hpos
    obtain ⟨q', hq', hold⟩ := h.popleftN (n := n) (by exact_mod_cast hle)
    exact ⟨q', by rw [QueueOp.exec, hq']; rfl, hold⟩
  | remove block =>
    obtain ⟨q', hq', hold⟩ := h.remove hop
    exact ⟨q', by rw [QueueOp.exec, hq']; rfl, hold⟩
  | append block =>
    obtain ⟨q', hq', hold⟩ := h.append hop
    exact ⟨q', by rw [QueueOp.exec, hq']; rfl, hold⟩
  | appendN blocks =>
    obtain ⟨q', hq', hold⟩ := h.appendN hop.1 hop.2
    exact ⟨q', by rw [QueueOp.exec, hq']; rfl, hold⟩

theorem FreeKVCacheBlockQueue.Holds.execAll {ops : List QueueOp} (h : q.Holds l) (hops : AllowedAll l ops) :
    ∃ q', execAll q ops = .ok ((onListAll l ops).1, q') ∧ q'.Holds (onListAll l ops).2 := by
  induction ops generalizing q l with
  | nil => exact ⟨q, rfl, h⟩
  | cons op ops ih =>
    obtain ⟨q', hop, hold⟩ := h.exec hops.1
    obtain ⟨q'', hrest, hold'⟩ := ih hold hops.2
    refine ⟨q'', ?_, hold'⟩
    rw [Core.execAll, hop, ok_bind]
    dsimp only
    rw [hrest]
    rfl

/-- A queue built from distinct blocks does what the list does, through every sequence of operations: the
same blocks come out, nothing but the `ValueError` of an empty queue is raised, and it spells the list. -/
theorem free_queue_refines_list {blocks : List Nat} (hblocks : blocks.Nodup) {ops : List QueueOp}
    (hops : AllowedAll blocks ops) :
    ∃ q, execAll (FreeKVCacheBlockQueue.init blocks) ops = .ok ((onListAll blocks ops).1, q) ∧
      Spells q (onListAll blocks ops).2 := by
  obtain ⟨q, hq, hold⟩ := (FreeKVCacheBlockQueue.holds_init hblocks).execAll hops
  exact ⟨q, hq, hold.spells⟩

theorem free_queue_refines_list_splice :
    AllowedAll [0, 1, 2, 3] [.remove 1, .popleftN 2, .appendN [1, 0], .popleftN 3, .popleft, .append 2] ∧
      ∃ q, execAll (FreeKVCacheBlockQueue.init [0, 1, 2, 3])
          [.remove 1, .popleftN 2, .appendN [1, 0], .popleftN 3, .popleft, .append 2]
        = .ok ([some [], some [0, 2], some [], some [3, 1, 0], none, some []], q) ∧ Spells q [2] := by
  have hops : AllowedAll [0, 1, 2, 3]
      [.remove 1, .popleftN 2, .appendN [1, 0], .popleftN 3, .popleft, .append 2] := by
    simp [AllowedAll, QueueOp.Allowed, QueueOp.onList]
  exact ⟨hops, free_queue_refines_list (by decide) hops⟩

/-- Asking for more blocks than there are runs into an assertion. -/
theorem popleft_n_of_empty_queue_asserts :
    execAll (FreeKVCacheBlockQueue.init []) [.popleftN 1] = .error (.assertionError "") := rfl

end Yuan.Core
