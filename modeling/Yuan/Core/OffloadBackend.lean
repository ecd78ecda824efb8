import Yuan.Lib.Dict
import Yuan.Lib.Py
import Mathlib.Data.List.Range

/-!
# Offloaded blocks and the CPU backend

A block of the CPU cache has a status: how many transfers read it, or that it is still being written.
The backend hands out block ids, fresh ones first, and takes freed ones back. What a manager keeps and
what the backend has free are together the ids handed out so far, each once.
-/

namespace Yuan.Core

/-- Status of one offloaded block. A reference count of -1: not yet ready to be read. -/
structure CPUBlockStatus where
  refCnt : Int := -1
  blockId : Nat
  deriving DecidableEq, Repr

/-- `is_ready`. -/
def CPUBlockStatus.isReady (block : CPUBlockStatus) : Bool := decide (0 ≤ block.refCnt)

/-- `ref_cnt += 1`. The count is a `c_int32`, which wraps around. -/
def CPUBlockStatus.addRef (block : CPUBlockStatus) : CPUBlockStatus :=
  { block with refCnt := (block.refCnt + 1).bmod (2 ^ 32) }

theorem CPUBlockStatus.refCnt_addRef {block : CPUBlockStatus} (hready : 0 ≤ block.refCnt)
    (hfits : block.refCnt + 1 < 2 ^ 31) : block.addRef.refCnt = block.refCnt + 1 := by
  apply Int.bmod_eq_of_le
  · omega
  · omega

structure CPUBackend where
  blockSize : Nat
  numBlocks : Nat
  numAllocatedBlocks : Nat := 0
  allocatedBlocksFreeList : List Nat := []
  deriving DecidableEq, Repr

/-- `CPULoadStoreSpec.medium()`. -/
def CPUBackend.medium : String := "CPU"

/-- What a manager reports about its cache: blocks removed, or stored. -/
structure OffloadingEvent (α : Type) where
  blockHashes : List α
  blockSize : Nat
  medium : String
  removed : Bool
  deriving DecidableEq, Repr

/-- The store specification is the list of block ids to write to. -/
structure PrepareStoreOutput (α : Type) where
  blockHashesToStore : List α
  storeSpec : List Nat
  blockHashesEvicted : List α
  deriving DecidableEq, Repr

namespace CPUBackend

variable {α : Type} (backend : CPUBackend)

def getNumFreeBlocks : Int :=
  backend.allocatedBlocksFreeList.length + backend.numBlocks - backend.numAllocatedBlocks

/-- One block for each hash: fresh ids as long as there are some, then the ids freed last. -/
def allocateBlocks (blockHashes : List α) : Except PyError (List CPUBlockStatus × CPUBackend) := do
  let numFreshBlocks := min blockHashes.length (backend.numBlocks - backend.numAllocatedBlocks)
  let numReusedBlocks := blockHashes.length - numFreshBlocks
  pyAssert (decide (numReusedBlocks ≤ backend.allocatedBlocksFreeList.length)) ""
  let fresh := List.range' backend.numAllocatedBlocks numFreshBlocks
  let reused := backend.allocatedBlocksFreeList.reverse.take numReusedBlocks
  return ((fresh ++ reused).map fun blockId => { blockId := blockId },
    { backend with
      numAllocatedBlocks := backend.numAllocatedBlocks + numFreshBlocks
      allocatedBlocksFreeList := backend.allocatedBlocksFreeList.take
        (backend.allocatedBlocksFreeList.length - numReusedBlocks) })

def free (block : CPUBlockStatus) : CPUBackend :=
  { backend with allocatedBlocksFreeList := backend.allocatedBlocksFreeList ++ [block.blockId] }

/-- Free the blocks of a list of entries, in order. -/
def freeAll (entries : List (α × CPUBlockStatus)) : CPUBackend :=
  entries.foldl (fun backend e => backend.free e.2) backend

variable {backend}

@[simp] theorem freeAll_nil : backend.freeAll ([] : List (α × CPUBlockStatus)) = backend := rfl

@[simp] theorem freeAll_cons (e : α × CPUBlockStatus) (entries : List (α × CPUBlockStatus)) :
    backend.freeAll (e :: entries) = (backend.free e.2).freeAll entries := rfl

@[simp] theorem blockSize_freeAll (entries : List (α × CPUBlockStatus)) :
    (backend.freeAll entries).blockSize = backend.blockSize := by
  induction entries generalizing backend with
  | nil => rfl
  | cons e entries ih => rw [freeAll_cons, ih]; rfl

@[simp] theorem numBlocks_freeAll (entries : List (α × CPUBlockStatus)) :
    (backend.freeAll entries).numBlocks = backend.numBlocks := by
  induction entries generalizing backend with
  | nil => rfl
  | cons e entries ih => rw [freeAll_cons, ih]; rfl

/-- What an allocation returns. -/
theorem allocateBlocks_spec {blockHashes : List α} {blocks : List CPUBlockStatus}
    {backend' : CPUBackend} (h : backend.allocateBlocks blockHashes = .ok (blocks, backend')) :
    blocks.length = blockHashes.length ∧ (∀ block ∈ blocks, block.refCnt = -1) ∧
      backend'.numBlocks = backend.numBlocks ∧ ∃ numFresh numReused, numFresh + numReused = blockHashes.length ∧
        numFresh ≤ backend.numBlocks - backend.numAllocatedBlocks ∧
        backend'.numAllocatedBlocks = backend.numAllocatedBlocks + numFresh ∧
        (blocks.map CPUBlockStatus.blockId ++ backend'.allocatedBlocksFreeList).Perm
          (List.range' backend.numAllocatedBlocks numFresh ++ backend.allocatedBlocksFreeList) := by
  obtain ⟨_, hassert, h⟩ := bind_eq_ok.mp h
  cases h
  have hroom := of_decide_eq_true (pyAssert_eq_ok.mp hassert)
  refine ⟨?_, ?_, rfl, _, _, Nat.add_sub_cancel' (Nat.min_le_left _ _), Nat.min_le_right _ _, rfl, ?_⟩
  · rw [List.length_map, List.length_append, List.length_range', List.length_take,
      List.length_reverse]
    omega
  · intro block hblock
    obtain ⟨_, -, rfl⟩ := List.mem_map.mp hblock
    rfl
  · rw [List.map_map]
    have hid : ((CPUBlockStatus.blockId) ∘ fun blockId => ({ blockId := blockId } : CPUBlockStatus)) =
        id := rfl
    rw [hid, List.map_id, List.append_assoc, List.take_reverse]
    apply List.Perm.append_left
    apply ((List.reverse_perm _).append_right _).trans
    apply List.perm_append_comm.trans
    rw [List.take_append_drop]

end CPUBackend

/-! ## Conservation -/

/-- Live entries and the free list hold the ids handed out so far, each once, and no hash has two
entries. -/
structure Conserves {α : Type} (entries : List (α × CPUBlockStatus)) (backend : CPUBackend) : Prop where
  nodup : (entries.map Prod.fst).Nodup
  perm : (entries.map (·.2.blockId) ++ backend.allocatedBlocksFreeList).Perm
    (List.range backend.numAllocatedBlocks)
  le : backend.numAllocatedBlocks ≤ backend.numBlocks

namespace Conserves

variable {α : Type} {entries entries' : List (α × CPUBlockStatus)} {backend : CPUBackend} {blockHashes : List α}
  {blocks : List CPUBlockStatus}

theorem map_snd_zip (hlen : blocks.length = blockHashes.length) :
    (blockHashes.zip blocks).map (·.2.blockId) = blocks.map CPUBlockStatus.blockId := by
  have hblocks : (blockHashes.zip blocks).map Prod.snd = blocks :=
    List.map_snd_zip (Nat.le_of_eq hlen)
  have := congrArg (List.map CPUBlockStatus.blockId) hblocks
  rw [List.map_map] at this
  exact this

section

variable (h : Conserves entries backend)
include h

theorem nodup_ids : (entries.map (·.2.blockId)).Nodup :=
  (List.nodup_append.mp (h.perm.nodup_iff.mpr List.nodup_range)).1

theorem lt_numBlocks {e : α × CPUBlockStatus} (he : e ∈ entries) : e.2.blockId < backend.numBlocks := by
  have hmem : e.2.blockId ∈ List.range backend.numAllocatedBlocks :=
    h.perm.mem_iff.mp (List.mem_append_left _ (List.mem_map_of_mem he))
  exact Nat.lt_of_lt_of_le (List.mem_range.mp hmem) h.le

theorem length_add_free : (entries.length : Int) + backend.getNumFreeBlocks = backend.numBlocks := by
  have hlen := h.perm.length_eq
  rw [List.length_append, List.length_map, List.length_range] at hlen
  unfold CPUBackend.getNumFreeBlocks
  omega

/-- Changing nothing but reference counts and the order of entries. -/
theorem congr (hsame : (entries'.map fun e => (e.1, e.2.blockId)).Perm
      (entries.map fun e => (e.1, e.2.blockId))) : Conserves entries' backend := by
  have hkeys : (entries'.map Prod.fst).Perm (entries.map Prod.fst) := by
    have := hsame.map Prod.fst
    rw [List.map_map, List.map_map] at this
    exact this
  have hids : (entries'.map (·.2.blockId)).Perm (entries.map (·.2.blockId)) := by
    have := hsame.map Prod.snd
    rw [List.map_map, List.map_map] at this
    exact this
  exact ⟨hkeys.nodup_iff.mpr h.nodup, (hids.append_right _).trans h.perm, h.le⟩

/-- Dropping an entry and freeing its block. -/
theorem free {e : α × CPUBlockStatus} (hsplit : entries.Perm (e :: entries')) :
    Conserves entries' (backend.free e.2) := by
  refine ⟨?_, ?_, h.le⟩
  · have hkeys := (hsplit.map Prod.fst).nodup_iff.mp h.nodup
    rw [List.map_cons, List.nodup_cons] at hkeys
    exact hkeys.2
  · apply List.Perm.trans _ h.perm
    apply List.Perm.trans _ ((hsplit.map (·.2.blockId)).symm.append_right _)
    show (entries'.map (·.2.blockId) ++ (backend.allocatedBlocksFreeList ++ [e.2.blockId])).Perm
      (e.2.blockId :: (entries'.map (·.2.blockId) ++ backend.allocatedBlocksFreeList))
    rw [← List.append_assoc]
    exact List.perm_append_singleton _ _

theorem freeAll {removed : List (α × CPUBlockStatus)} (hsplit : entries.Perm (removed ++ entries')) :
    Conserves entries' (backend.freeAll removed) := by
  induction removed generalizing entries backend with
  | nil =>
    exact h.congr (hsplit.symm.map _)
  | cons e removed ih =>
    exact ih (h.free hsplit) (.refl _)

/-- Allocating a block for each of some new hashes. -/
theorem allocate {backend' : CPUBackend} (halloc : backend.allocateBlocks blockHashes = .ok (blocks, backend'))
    (hnodup : blockHashes.Nodup) (hnew : ∀ hash ∈ blockHashes, hash ∉ entries.map Prod.fst) :
    Conserves (entries ++ blockHashes.zip blocks) backend' := by
  obtain ⟨hlen, -, hnum, numFresh, numReused, -, hfresh, hallocated, hids⟩ :=
    CPUBackend.allocateBlocks_spec halloc
  have hfst : (blockHashes.zip blocks).map Prod.fst = blockHashes :=
    List.map_fst_zip (Nat.le_of_eq hlen.symm)
  refine ⟨?_, ?_, by rw [hallocated]; have := h.le; omega⟩
  · rw [List.map_append, hfst]
    apply List.nodup_append.mpr
    refine ⟨h.nodup, hnodup, ?_⟩
    intro hash hold hash' hmem heq
    subst heq
    exact hnew hash hmem hold
  · rw [List.map_append, map_snd_zip hlen, List.append_assoc, hallocated]
    apply (hids.append_left _).trans
    have hrange : List.range (backend.numAllocatedBlocks + numFresh) =
        List.range backend.numAllocatedBlocks ++ List.range' backend.numAllocatedBlocks numFresh := by
      have := List.range'_append_1 (s := 0) (m := backend.numAllocatedBlocks) (n := numFresh)
      rw [Nat.zero_add] at this
      rw [List.range_eq_range', List.range_eq_range', this]
    rw [hrange]
    apply (List.perm_append_comm_assoc _ _ _).trans
    exact (List.perm_append_comm).trans (h.perm.append_right _)

end

end Conserves

end Yuan.Core
