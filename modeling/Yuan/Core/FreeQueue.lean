import Yuan.Lib.LinkedQueue
import Yuan.Lib.Py
import Mathlib.Data.List.Basic

/-!
# `FreeKVCacheBlockQueue`: the free queue of the block pool

The queue of free blocks is a doubly linked list threaded through the blocks themselves: the
attributes `prev_free_block` and `next_free_block` of every block, and of the fake head and the fake
tail, are the only state besides the counter `num_free_blocks`. A block is its id here; the two
attributes of all blocks are the two maps of `Links`.

`Holds q l` says that the queue spells the list `l`. Each operation has one lemma, giving the list
it leaves behind and excluding every exception it could raise.
-/

namespace Yuan.Core

open LinkedQueue

/-- The free queue: a counter, and the `prev_free_block` / `next_free_block` of every block. -/
structure FreeKVCacheBlockQueue where
  numFreeBlocks : Int
  links : Links Nat

namespace FreeKVCacheBlockQueue

/-- `__init__`: the blocks in order, between the fake head and the fake tail. -/
def init (blocks : List Nat) : FreeKVCacheBlockQueue :=
  let noLinks : Links Nat := ⟨fun _ => none, fun _ => none⟩
  match blocks with
  | [] => ⟨0, noLinks.connect .head .tail⟩
  | b :: bs =>
    -- doubly links of consecutive blocks, then the fake head and the fake tail
    let inner := noLinks.connectFrom (.elem b) (bs.map .elem)
    ⟨blocks.length, (inner.connect .head (.elem b)).connect (lastNode blocks) .tail⟩

/-- Pop the first free block. -/
def popleft (q : FreeKVCacheBlockQueue) : Except PyError (Nat × FreeKVCacheBlockQueue) :=
  match q.links.next .head with
  | some (.elem first) =>
    match q.links.next (.elem first) with
    | none => .error (.runtimeError
        "Invalid block found in popleft() which doesn't have a valid next_free_block")
    | some second =>
      .ok (first, ⟨q.numFreeBlocks - 1, (q.links.connect .head second).clear (.elem first)⟩)
  | _ =>
    -- the next block is the fake tail, or missing
    if q.numFreeBlocks = 0 then .error (.valueError "No free blocks available")
    else .error (.assertionError
      s!"num_free_blocks ({q.numFreeBlocks}) is out of sync with the free list.")

/-- The loop of `popleft_n`: detach `n` blocks, starting with `curr`. The fake tail is reached only
if the counter is out of sync with the list, which the code does not look for. -/
def popLoop : Nat → Option (Node Nat) → Links Nat →
    Except PyError (List Nat × Option (Node Nat) × Links Nat)
  | 0, curr, L => .ok ([], curr, L)
  | n + 1, some (.elem b), L => do
    let (ret, curr, L') ← popLoop n (L.next (.elem b)) (L.clear (.elem b))
    return (b :: ret, curr, L')
  | _ + 1, _, _ => .error (.assertionError "curr_block is not None")

/-- Pop the first `n` free blocks. -/
def popleftN (q : FreeKVCacheBlockQueue) (n : Int) :
    Except PyError (List Nat × FreeKVCacheBlockQueue) := do
  if n = 0 then return ([], q)
  pyAssert (q.numFreeBlocks ≥ n) ""
  let (ret, curr, L) ← popLoop n.toNat (q.links.next .head) q.links
  match curr with
  | none => return (ret, ⟨q.numFreeBlocks - n, L⟩)
  -- connect the fake head to the new first block
  | some c => return (ret, ⟨q.numFreeBlocks - n, L.connect .head c⟩)

/-- Remove a block from the middle of the queue. -/
def remove (q : FreeKVCacheBlockQueue) (block : Nat) : Except PyError FreeKVCacheBlockQueue :=
  match q.links.prev (.elem block), q.links.next (.elem block) with
  | some p, some n => .ok ⟨q.numFreeBlocks - 1, (q.links.connect p n).clear (.elem block)⟩
  | _, _ => .error (.runtimeError s!"remove() called on an invalid block: {block}")

/-- Put a block back at the end of the queue. -/
def append (q : FreeKVCacheBlockQueue) (block : Nat) : Except PyError FreeKVCacheBlockQueue :=
  match q.links.prev .tail with
  | none => .error (.runtimeError "prev_free_block of fake_free_list_tail should always exist")
  | some last =>
    .ok ⟨q.numFreeBlocks + 1, (q.links.connect last (.elem block)).connect (.elem block) .tail⟩

/-- Put a list of blocks back at the end of the queue. -/
def appendN (q : FreeKVCacheBlockQueue) (blocks : List Nat) :
    Except PyError FreeKVCacheBlockQueue :=
  match blocks with
  | [] => .ok q
  | b :: bs =>
    match q.links.prev .tail with
    | none => .error (.assertionError "prev_free_block of fake_free_list_tail should always exist")
    | some last =>
      let L := q.links.connectFrom last ((b :: bs).map .elem)
      .ok ⟨q.numFreeBlocks + (b :: bs).length, L.connect (.elem ((b :: bs).getLast (by simp))) .tail⟩

/-- Walk the queue from the fake head to the fake tail, at most `fuel` blocks. -/
def getAllFreeBlocks (q : FreeKVCacheBlockQueue) (fuel : Nat) : Except PyError (List (Node Nat)) :=
  match q.links.next .head with
  | none => .error (.runtimeError "next_free_block of fake_free_list_head should always exist")
  | some first => .ok (walk q.links.next fuel first)

/-! ## The list the queue holds -/

/-- The queue spells `l`, and its counter is the length of `l`. -/
structure Holds (q : FreeKVCacheBlockQueue) (l : List Nat) : Prop where
  links : Represents q.links l
  count : q.numFreeBlocks = l.length

variable {q : FreeKVCacheBlockQueue} {l : List Nat}

/-- A queue built from distinct blocks holds them in order. -/
theorem holds_init {blocks : List Nat} (h : blocks.Nodup) : Holds (init blocks) blocks := by
  cases blocks with
  | nil => exact ⟨OpenBack.nil.close, rfl⟩
  | cons b bs =>
    have hb : Node.elem b ∉ bs.map Node.elem := by
      simpa using (List.nodup_cons.mp h).1
    have hnil : OpenBack ⟨fun _ => none, fun _ => none⟩ ([] : List Nat) := OpenBack.nil
    have hpush := hnil.pushAll h (by simp)
    refine ⟨?_, rfl⟩
    -- the fake head is connected last, which makes no difference
    simp only [init]
    rw [Links.connectFrom_comm _ (by simp) hb]
    exact hpush.close

theorem Holds.getAllFreeBlocks (h : Holds q l) {fuel : Nat} (hfuel : l.length < fuel) :
    q.getAllFreeBlocks fuel = .ok (l.map .elem) := by
  unfold FreeKVCacheBlockQueue.getAllFreeBlocks
  rw [h.links.next_head]
  simp only
  rw [walk_eq_of_isChain h.links.next_tail h.links.openFront.chain hfuel]

theorem Holds.popleft {b : Nat} (h : Holds q (b :: l)) : ∃ q', q.popleft = .ok (b, q') ∧ Holds q' l := by
  have hnext := h.links.next_head
  have hprev : q.links.prev (.elem b) = some .head := by
    have hchain := h.links.chain
    rw [nodes, List.map_cons, List.cons_append, List.isChain_cons_cons] at hchain
    exact hchain.1.2
  have hsecond := h.links.openFront.next_elem
  refine ⟨⟨q.numFreeBlocks - 1, (q.links.connect .head (firstNode l)).clear (.elem b)⟩, ?_, ?_, ?_⟩
  · simp [FreeKVCacheBlockQueue.popleft, hnext, hsecond]
  · have hlinks : Represents q.links ([] ++ b :: l) := h.links
    exact hlinks.remove hprev hsecond
  · have := h.count
    simp only [List.length_cons, Nat.cast_add] at this
    simp only
    omega

theorem Holds.popleft_nil (h : Holds q []) : q.popleft = .error (.valueError "No free blocks available") := by
  simp [FreeKVCacheBlockQueue.popleft, h.links.next_head, h.count]

/-- What the loop of `popleft_n` detaches, and the state it leaves for the last write. -/
theorem popLoop_spec {L : Links Nat} {n : Nat} (h : OpenFront L l) (hn : n ≤ l.length) :
    ∃ L', popLoop n (some (firstNode l)) L = .ok (l.take n, some (firstNode (l.drop n)), L') ∧
      OpenFront L' (l.drop n) := by
  induction n generalizing L l with
  | zero => exact ⟨L, by simp [popLoop], by simpa using h⟩
  | succ n ih =>
    cases l with
    | nil => simp at hn
    | cons b l =>
      obtain ⟨L', hrun, hL'⟩ := ih h.pop (by simpa using hn)
      refine ⟨L', ?_, by simpa using hL'⟩
      simp only [firstNode_cons, popLoop, h.next_elem, hrun, List.take_succ_cons]
      rfl

theorem Holds.popleftN {n : Nat} (h : Holds q l) (hn : n ≤ l.length) :
    ∃ q', q.popleftN n = .ok (l.take n, q') ∧ Holds q' (l.drop n) := by
  by_cases hzero : n = 0
  · subst hzero
    exact ⟨q, by simp [FreeKVCacheBlockQueue.popleftN, pure, Except.pure], by simpa using h⟩
  · obtain ⟨L', hrun, hL'⟩ := popLoop_spec h.links.openFront hn
    refine ⟨⟨q.numFreeBlocks - n, L'.connect .head (firstNode (l.drop n))⟩, ?_, hL'.close, ?_⟩
    · have hcount : (n : Int) ≤ q.numFreeBlocks := by rw [h.count]; exact_mod_cast hn
      simp only [FreeKVCacheBlockQueue.popleftN, Int.natCast_eq_zero, hzero, 
        hcount, h.links.next_head]
      simp [bind, Except.bind, hrun, pure, Except.pure]
    · simp only [h.count, List.length_drop]
      omega

/-- The assertion of `popleft_n`: it pops no more than the queue counts. -/
theorem le_of_popleftN {n : Nat} {r : List Nat × FreeKVCacheBlockQueue}
    (h : q.popleftN n = .ok r) : n = 0 ∨ (n : Int) ≤ q.numFreeBlocks := by
  by_cases hzero : (n : Int) = 0
  · exact Or.inl (by omega)
  · simp only [FreeKVCacheBlockQueue.popleftN, if_neg hzero] at h
    obtain ⟨u, hassert, -⟩ := bind_eq_ok.mp h
    exact Or.inr (by simpa using pyAssert_eq_ok.mp hassert)

theorem Holds.remove {b : Nat} (h : Holds q l) (hb : b ∈ l) : ∃ q', q.remove b = .ok q' ∧ Holds q' (l.erase b) := by
  obtain ⟨l₁, l₂, hl₁, rfl, herase⟩ := List.exists_erase_eq hb
  obtain ⟨p, hp⟩ := h.links.prev_ne_none (a := b) hb
  obtain ⟨n, hn⟩ := h.links.next_ne_none (a := b) hb
  refine ⟨⟨q.numFreeBlocks - 1, (q.links.connect p n).clear (.elem b)⟩, ?_, ?_, ?_⟩
  · simp [FreeKVCacheBlockQueue.remove, hp, hn]
  · rw [herase]
    exact h.links.remove hp hn
  · have := h.count
    rw [herase]
    simp only [List.length_append, List.length_cons] at this ⊢
    omega

theorem Holds.appendN {bs : List Nat} (h : Holds q l) (hbs : bs.Nodup)
    (hdisj : ∀ b ∈ bs, b ∉ l) : ∃ q', q.appendN bs = .ok q' ∧ Holds q' (l ++ bs) := by
  cases bs with
  | nil => exact ⟨q, rfl, by simpa using h⟩
  | cons b bs =>
    have hpush := h.links.openBack.pushAll hbs hdisj
    have hlast := lastNode_append_cons l b bs
    refine ⟨_, by simp only [FreeKVCacheBlockQueue.appendN, h.links.prev_tail]; rfl, ?_, ?_⟩
    · rw [← hlast]
      exact hpush.close
    · simp only [h.count, List.length_append]
      rfl

theorem Holds.append {b : Nat} (h : Holds q l) (hb : b ∉ l) : ∃ q', q.append b = .ok q' ∧ Holds q' (l ++ [b]) := by
  obtain ⟨q', hq', hold⟩ := h.appendN (List.nodup_singleton b) (by simpa using hb)
  refine ⟨q', ?_, hold⟩
  simp only [FreeKVCacheBlockQueue.appendN, h.links.prev_tail] at hq'
  simp only [FreeKVCacheBlockQueue.append, h.links.prev_tail, ← hq']
  simp [Links.connectFrom]

end FreeKVCacheBlockQueue
end Yuan.Core
