import Yuan.Core.BlockTables
import Yuan.Core.CacheHit
import Yuan.Core.Request

/-!
# `KVCacheManager`: slots for the tokens of a request

One single-type manager per KV cache group keeps the block table of every request. `allocate_slots`
first drops the blocks behind the attention window, then counts the blocks it would take from the
free queue, and only if there are enough of them adds cache hits, blocks for external tokens and
blocks for new tokens.

The methods of a manager are defined first, those of the coordinator and of `KVCacheManager` on top.
Then every method of a manager gets its lemma: what it does to its row, and how many free blocks it
takes.
-/

namespace Yuan.Core

variable {total ext : Int}

/-- A request in one KV cache group. -/
abbrev Row := Nat × Nat

/-- A single-type manager for attention layers: its spec, and the group it serves. -/
structure SingleTypeKVCacheManager where
  kvCacheSpec : KVCacheSpec
  kvCacheGroupId : Nat
  deriving DecidableEq

namespace SingleTypeKVCacheManager

variable {κ : Type} [DecidableEq κ]
variable (m : SingleTypeKVCacheManager) (s : KVState κ Row) (requestId : Nat)

/-- The row of a request. -/
def row : Row := (m.kvCacheGroupId, requestId)

/-- The block size as a token count. -/
def blockSize : Int := m.kvCacheSpec.blockSize

omit [DecidableEq κ] in
/-- `_get_num_evictable_blocks`: the blocks that stand in the free queue. -/
def getNumEvictableBlocks (pool : BlockPool κ) (blocks : List Nat) : Nat :=
  blocks.countP fun b => (pool.blocks b).refCnt = 0 ∧ (pool.blocks b).isNull = false

omit [DecidableEq κ] in
/-- The number of blocks to take from the free queue for a request. -/
def getNumBlocksToAllocate (numTokens : Int) (newComputedBlocks : List Nat)
    (totalComputedTokens : Int) : Except PyError Int :=
  let numRequiredBlocks := cdiv numTokens m.blockSize
  let numReqBlocks : Int := (s.blocksOf (m.row requestId)).length
  if s.numCachedBlock.contains (m.row requestId) then do
    -- fast path: a running request has no new prefix-cache hits
    pyAssert newComputedBlocks.isEmpty ""
    return max (numRequiredBlocks - numReqBlocks) 0
  else
    let numSkippedTokens := m.kvCacheSpec.getNumSkippedTokens totalComputedTokens
    let numLocalComputedBlocks := (newComputedBlocks.length : Int) + numReqBlocks
    let numSkippedBlocks := numSkippedTokens / m.blockSize
    let numNewBlocks := max (numRequiredBlocks - max numSkippedBlocks numLocalComputedBlocks) 0
    let numSkippedNewComputedBlocks := max 0 (numSkippedBlocks - numReqBlocks)
    let numEvictableBlocks := getNumEvictableBlocks s.pool
      (newComputedBlocks.drop numSkippedNewComputedBlocks.toNat)
    return numNewBlocks + numEvictableBlocks

/-- Allocate blocks for the external computed tokens, if any are left. -/
def allocateExternal (numTotalComputedTokens numExternalComputedTokens : Int) :
    Except PyError (KVState κ Row) :=
  if 0 < numExternalComputedTokens then do
    let (_, s) ← s.appendNewBlocks (m.row requestId)
      (cdiv numTotalComputedTokens m.blockSize - (s.blocksOf (m.row requestId)).length)
    return s
  else return s

/-- Add the cache hits to the table of a new request, with null blocks for what its window skips, and
blocks for external computed tokens. -/
def allocateNewComputedBlocks (newComputedBlocks : List Nat)
    (numLocalComputedTokens numExternalComputedTokens : Int) : Except PyError (KVState κ Row) :=
  if s.numCachedBlock.contains (m.row requestId) then do
    pyAssert newComputedBlocks.isEmpty ""
    return s
  else do
    pyAssert (s.blocksOf (m.row requestId)).isEmpty ""
    let numTotalComputedTokens := numLocalComputedTokens + numExternalComputedTokens
    let numSkippedTokens := m.kvCacheSpec.getNumSkippedTokens numTotalComputedTokens
    let numSkippedBlocks := numSkippedTokens / m.blockSize
    -- the skipped hits are dropped; some external tokens may be skipped too
    let newComputedBlocks :=
      if 0 < numSkippedBlocks then newComputedBlocks.drop numSkippedBlocks.toNat
      else newComputedBlocks
    let numExternalComputedTokens :=
      if 0 < numSkippedBlocks then
        min (numTotalComputedTokens - numSkippedTokens) numExternalComputedTokens
      else numExternalComputedTokens
    let s ← s.addComputedBlocks (m.row requestId) numSkippedBlocks.toNat newComputedBlocks
    m.allocateExternal s requestId numTotalComputedTokens numExternalComputedTokens

/-- Give a request slots for `numTokens` tokens. -/
def allocateNewBlocks (numTokens : Int) : Except PyError (List Nat × KVState κ Row) :=
  let numNewBlocks :=
    cdiv numTokens m.blockSize - ((s.blocksOf (m.row requestId)).length : Int)
  if numNewBlocks ≤ 0 then return ([], s)
  else s.appendNewBlocks (m.row requestId) numNewBlocks

omit [DecidableEq κ] in
/-- Free the blocks the window has left behind. -/
def removeSkippedBlocks (totalComputedTokens : Int) : Except PyError (KVState κ Row) :=
  let numSkippedTokens := m.kvCacheSpec.getNumSkippedTokens totalComputedTokens
  if numSkippedTokens ≤ 0 then return s
  else s.removeSkippedBlocks (m.row requestId) (numSkippedTokens / m.blockSize).toNat

/-- The hashes of a request at the block size of the group, with the group id. -/
def blockHashKeys {β : Type} (hashBlockSize : Nat) (blockHashes : List (List β)) :
    List (List β × Nat) :=
  (CacheHit.getBlockHashes hashBlockSize blockHashes m.kvCacheSpec.blockSize).map
    fun blockHash => (blockHash, m.kvCacheGroupId)

/-- Cache the blocks that are full with the first `numTokens` tokens. -/
def cacheBlocks {β : Type} [DecidableEq β] (s : KVState (List β × Nat) Row) (hashBlockSize : Nat)
    (blockHashes : List (List β)) (numTokens : Int) : Except PyError (KVState (List β × Nat) Row) :=
  s.cacheBlocks (m.row requestId) blockHashes.length (numTokens / m.blockSize).toNat
    (m.blockHashKeys hashBlockSize blockHashes)

end SingleTypeKVCacheManager

/-- A spec of attention layers, as `SingleTypeKVCacheManager` serves them: full attention, a sliding
window or local chunks, with blocks of whole hash blocks. -/
def KVCacheSpec.Attention (spec : KVCacheSpec) (hashBlockSize : Nat) : Prop :=
  0 < spec.blockSize ∧ hashBlockSize ∣ spec.blockSize ∧
    match spec.attention with
    | .fullAttention => True
    | .slidingWindow w => 1 ≤ w
    | .chunkedLocal c => 1 ≤ c
    | .mamba => False

/-- `KVCacheManager` with its coordinator: what is fixed at start-up. -/
structure KVCacheManager where
  kvCacheGroups : List KVCacheSpec
  hashBlockSize : Nat
  maxModelLen : Nat
  attention : ∀ spec ∈ kvCacheGroups, spec.Attention hashBlockSize

namespace KVCacheManager

/-- `single_type_managers`. -/
def singleTypeManagers (k : KVCacheManager) : List SingleTypeKVCacheManager :=
  k.kvCacheGroups.zipIdx.map fun (spec, i) => ⟨spec, i⟩

section Coordinator

variable {κ : Type} [DecidableEq κ] (ms : List SingleTypeKVCacheManager) (s : KVState κ Row)
variable (requestId : Nat)

omit [DecidableEq κ] in
/-- `coordinator.get_num_blocks_to_allocate`; the hits are given per group. -/
def getNumBlocksToAllocate (numTokens : Int) (newComputedBlocks : Nat → List Nat)
    (totalComputedTokens : Int) : Except PyError Int :=
  ms.foldlM (fun numBlocksToAllocate m => do
    let n ← m.getNumBlocksToAllocate s requestId numTokens (newComputedBlocks m.kvCacheGroupId)
      totalComputedTokens
    return numBlocksToAllocate + n) 0

/-- `coordinator.allocate_new_computed_blocks`. -/
def allocateNewComputedBlocks (newComputedBlocks : Nat → List Nat)
    (numLocalComputedTokens numExternalComputedTokens : Int) : Except PyError (KVState κ Row) :=
  ms.foldlM (fun s m => m.allocateNewComputedBlocks s requestId (newComputedBlocks m.kvCacheGroupId)
    numLocalComputedTokens numExternalComputedTokens) s

/-- `coordinator.allocate_new_blocks`: the new blocks of each group. -/
def allocateNewBlocks : List SingleTypeKVCacheManager → KVState κ Row → Nat → Int →
    Except PyError (List (List Nat) × KVState κ Row)
  | [], s, _, _ => return ([], s)
  | m :: ms, s, requestId, numTokens => do
    let (newBlocks, s) ← m.allocateNewBlocks s requestId numTokens
    let (rest, s) ← allocateNewBlocks ms s requestId numTokens
    return (newBlocks :: rest, s)

omit [DecidableEq κ] in
/-- `coordinator.remove_skipped_blocks`. -/
def removeSkippedBlocks (totalComputedTokens : Int) : Except PyError (KVState κ Row) :=
  ms.foldlM (fun s m => m.removeSkippedBlocks s requestId totalComputedTokens) s

/-- `coordinator.cache_blocks`. -/
def cacheBlocks {β : Type} [DecidableEq β] (s : KVState (List β × Nat) Row) (hashBlockSize : Nat)
    (blockHashes : List (List β)) (numTokens : Int) : Except PyError (KVState (List β × Nat) Row) :=
  ms.foldlM (fun s m => m.cacheBlocks requestId s hashBlockSize blockHashes numTokens) s

omit [DecidableEq κ] in
/-- `coordinator.free`. -/
def free : Except PyError (KVState κ Row) :=
  ms.foldlM (fun s m => s.free (m.row requestId)) s

end Coordinator

variable {β : Type} [DecidableEq β] (k : KVCacheManager) (s : KVState (List β × Nat) Row)

/-- The arguments of `allocate_slots` next to the request. -/
structure AllocateArgs where
  numNewTokens : Int
  numNewComputedTokens : Int := 0
  /-- The hits of each group; no hits stand for `None` and for `empty_kv_cache_blocks`. -/
  newComputedBlocks : Nat → List Nat := fun _ => []
  numLookaheadTokens : Nat := 0
  numExternalComputedTokens : Int := 0
  delayCacheBlocks : Bool := false

namespace AllocateArgs

variable (a : AllocateArgs) (request : Request (List β))

/-- `num_local_computed_tokens`. -/
def numLocalComputedTokens : Int := request.numComputedTokens + a.numNewComputedTokens

/-- `total_computed_tokens`, capped at the model length. -/
def totalComputedTokens (maxModelLen : Nat) : Int :=
  min (a.numLocalComputedTokens request + a.numExternalComputedTokens) maxModelLen

/-- `num_tokens_need_slot`. -/
def numTokensNeedSlot (maxModelLen : Nat) : Int :=
  min (a.totalComputedTokens request maxModelLen + a.numNewTokens + a.numLookaheadTokens) maxModelLen

end AllocateArgs

/-- Whether there are hits or external tokens to add first. -/
def hasComputed (a : AllocateArgs) : Bool :=
  k.singleTypeManagers.any (fun m => !(a.newComputedBlocks m.kvCacheGroupId).isEmpty) ||
    decide (0 < a.numExternalComputedTokens)

/-- Add the hits and the blocks for external tokens, if there are any. -/
def addComputed (request : Request (List β)) (a : AllocateArgs) :
    Except PyError (KVState (List β × Nat) Row) :=
  if k.hasComputed a then
    allocateNewComputedBlocks k.singleTypeManagers s request.requestId a.newComputedBlocks
      (a.numLocalComputedTokens request) a.numExternalComputedTokens
  else return s

/-- Cache the finalized tokens, unless caching is off or delayed. -/
def cacheNew (request : Request (List β)) (a : AllocateArgs) :
    Except PyError (KVState (List β × Nat) Row) :=
  if !s.pool.enableCaching || a.delayCacheBlocks then return s
  else
    cacheBlocks k.singleTypeManagers request.requestId s k.hashBlockSize request.blockHashes
      (min (a.totalComputedTokens request k.maxModelLen + a.numNewTokens) request.numTokens)

/-- The part of `allocate_slots` behind the free-block check. -/
def allocateChecked (request : Request (List β)) (a : AllocateArgs) :
    Except PyError (List (List Nat) × KVState (List β × Nat) Row) := do
  let s ← k.addComputed s request a
  let (newBlocks, s) ← allocateNewBlocks k.singleTypeManagers s request.requestId
    (a.numTokensNeedSlot request k.maxModelLen)
  let s ← k.cacheNew s request a
  return (newBlocks, s)

/-- The count `allocate_slots` compares with the free blocks. -/
def numBlocksToAllocate (request : Request (List β)) (a : AllocateArgs) : Except PyError Int :=
  getNumBlocksToAllocate k.singleTypeManagers s request.requestId
    (a.numTokensNeedSlot request k.maxModelLen) a.newComputedBlocks
    (a.numLocalComputedTokens request + a.numExternalComputedTokens)

/-- The free-block check, and the allocation behind it. -/
def checkAndAllocate (request : Request (List β)) (a : AllocateArgs) (numBlocksToAllocate : Int) :
    Except PyError (Option (List (List Nat)) × KVState (List β × Nat) Row) :=
  if numBlocksToAllocate > s.pool.getNumFreeBlocks then return (none, s)
  else do
    let (newBlocks, s) ← k.allocateChecked s request a
    return (some newBlocks, s)

/-- `allocate_slots`: the new blocks of each group, or `none` if there are too few free blocks. -/
def allocateSlots (request : Request (List β)) (a : AllocateArgs) :
    Except PyError (Option (List (List Nat)) × KVState (List β × Nat) Row) :=
  if a.numNewTokens = 0 ∧ a.numExternalComputedTokens = 0 then
    .error (.valueError
      "num_new_tokens must be greater than 0 when there are no external computed tokens")
  else do
    -- blocks behind the window go even if the request cannot be scheduled
    let s ← removeSkippedBlocks k.singleTypeManagers s request.requestId
      (a.totalComputedTokens request k.maxModelLen)
    let n ← k.numBlocksToAllocate s request a
    k.checkAndAllocate s request a n

end KVCacheManager

/-! ## Windows -/

namespace KVCacheSpec

variable {spec : KVCacheSpec} {hashBlockSize : Nat} {n : Int}

section

variable (h : spec.Attention hashBlockSize)
include h

theorem Attention.pos : (0 : Int) < spec.blockSize := by
  exact_mod_cast h.1

theorem Attention.getNumSkippedTokens_nonneg (hn : 0 ≤ n) : 0 ≤ spec.getNumSkippedTokens n := by
  obtain ⟨_, _, h⟩ := h
  unfold getNumSkippedTokens
  cases hspec : spec.attention with
  | fullAttention => exact le_rfl
  | slidingWindow w => exact le_max_left _ _
  | chunkedLocal c => positivity
  | mamba => simp [hspec] at h

/-- A window never skips tokens that are not computed. -/
theorem Attention.getNumSkippedTokens_le (hn : 0 ≤ n) : spec.getNumSkippedTokens n ≤ n := by
  obtain ⟨_, _, h⟩ := h
  unfold getNumSkippedTokens
  cases hspec : spec.attention with
  | fullAttention => exact hn
  | slidingWindow w =>
    have hw : 1 ≤ w := by simpa [hspec] using h
    exact max_le hn (by omega)
  | chunkedLocal c =>
    have hc : 1 ≤ c := by simpa [hspec] using h
    exact Int.ediv_mul_le n (by omega)
  | mamba => simp [hspec] at h

end

end KVCacheSpec

/-! ## What a method of a manager changes -/

namespace KVState

variable {κ ρ : Type} [DecidableEq ρ] {s s' s'' : KVState κ ρ} {r : ρ}
variable {cfg : BlockPool.Config} {l l' : List Nat}

/-- The rows without property `P` are as before. -/
structure RowsOnly (P : ρ → Prop) (s s' : KVState κ ρ) : Prop where
  blocksOf : ∀ r, ¬ P r → s'.blocksOf r = s.blocksOf r
  contains : ∀ r, ¬ P r → s'.numCachedBlock.contains r = s.numCachedBlock.contains r

/-- The rows other than `r` are as before. -/
abbrev RowOnly (r : ρ) (s s' : KVState κ ρ) : Prop := RowsOnly (· = r) s s'

variable {P Q : ρ → Prop}

theorem RowsOnly.refl (P : ρ → Prop) (s : KVState κ ρ) : RowsOnly P s s :=
  ⟨fun _ _ => rfl, fun _ _ => rfl⟩

theorem RowsOnly.trans (h : RowsOnly P s s') (h' : RowsOnly P s' s'') : RowsOnly P s s'' :=
  ⟨fun r' hr => (h'.blocksOf r' hr).trans (h.blocksOf r' hr),
    fun r' hr => (h'.contains r' hr).trans (h.contains r' hr)⟩

theorem RowsOnly.mono (h : RowsOnly P s s') (hPQ : ∀ r, P r → Q r) : RowsOnly Q s s' :=
  ⟨fun r' hr => h.blocksOf r' fun hp => hr (hPQ r' hp),
    fun r' hr => h.contains r' fun hp => hr (hPQ r' hp)⟩

/-- No block lost a reference. -/
def RefsGrow (s s' : KVState κ ρ) : Prop :=
  ∀ b, b ≠ 0 → (s.pool.blocks b).refCnt ≤ (s'.pool.blocks b).refCnt

/-- A block becomes no eviction candidate while references only grow. -/
theorem evictable_mono (h : Ok cfg s l) (h' : Ok cfg s' l') (hgrow : RefsGrow s s') (blocks : List Nat) :
    SingleTypeKVCacheManager.getNumEvictableBlocks s'.pool blocks ≤
      SingleTypeKVCacheManager.getNumEvictableBlocks s.pool blocks := by
  apply List.countP_mono_left
  intro b _ hb
  simp only [decide_eq_true_eq] at hb ⊢
  have h0 : b ≠ 0 := h'.pool.isNull_false.mp hb.2
  have hpos := h.refs b h0
  have hle := hgrow b h0
  exact ⟨by omega, h.pool.isNull_false.mpr h0⟩

/-- Touching hits takes at most the evictable ones from the free queue. -/
theorem length_le_evictable (h : Ok cfg s l) (hits : List Nat) :
    l.length ≤ (l.filter (· ∉ hits)).length + SingleTypeKVCacheManager.getNumEvictableBlocks s.pool hits := by
  have hsplit : l.length = (l.filter (· ∉ hits)).length + (l.filter (· ∈ hits)).length := by
    rw [← List.countP_eq_length_filter, ← List.countP_eq_length_filter]
    have hlen : l.length = _ := List.length_eq_countP_add_countP fun b => decide (b ∉ hits)
    simpa using hlen
  have hnodup : (l.filter (· ∈ hits)).Nodup := h.pool.holds.links.nodup.filter _
  have hsub : l.filter (· ∈ hits) ⊆
      hits.filter fun b => (s.pool.blocks b).refCnt = 0 ∧ (s.pool.blocks b).isNull = false := by
    intro b hb
    obtain ⟨hbl, hbh⟩ := List.mem_filter.mp hb
    obtain ⟨husable, href⟩ := (h.pool.mem_free b).mp hbl
    refine List.mem_filter.mpr ⟨by simpa using hbh, ?_⟩
    simpa using ⟨href, h.pool.isNull_false.mpr husable.1⟩
  have hle := (List.subperm_of_subset hnodup hsub).length_le
  rw [← List.countP_eq_length_filter (l := hits)] at hle
  unfold SingleTypeKVCacheManager.getNumEvictableBlocks
  omega

end KVState

namespace SingleTypeKVCacheManager

open KVState

variable {κ : Type} [DecidableEq κ] {m : SingleTypeKVCacheManager} {s : KVState κ Row}
variable {cfg : BlockPool.Config} {l : List Nat} {requestId hashBlockSize : Nat}

omit [DecidableEq κ] in
/-- Removing skipped blocks leaves null blocks behind the window only, and takes one reference from
each block removed. -/
theorem removeSkippedBlocks_spec (h : s.Ok cfg l) (hspec : m.kvCacheSpec.Attention hashBlockSize)
    (requestId : Nat) (n : Int) :
    ∃ s' l', m.removeSkippedBlocks s requestId n = .ok s' ∧ s'.Ok cfg l' ∧ l.length ≤ l'.length ∧
      RowOnly (m.row requestId) s s' ∧ s'.numCachedBlock = s.numCachedBlock ∧
      Nulled (s.blocksOf (m.row requestId)) (s'.blocksOf (m.row requestId)) ∧
      (∀ k : Nat, m.kvCacheSpec.getNumSkippedTokens n < (k + 1) * m.kvCacheSpec.blockSize →
        (s'.blocksOf (m.row requestId))[k]? = (s.blocksOf (m.row requestId))[k]?) ∧
      (∀ b, b ≠ 0 → (s'.pool.blocks b).refCnt + (s.blocksOf (m.row requestId)).count b =
        (s.pool.blocks b).refCnt + (s'.blocksOf (m.row requestId)).count b) := by
  unfold removeSkippedBlocks
  by_cases hnone : m.kvCacheSpec.getNumSkippedTokens n ≤ 0
  · rw [if_pos hnone]
    exact ⟨s, l, rfl, h, le_rfl, .refl _ s, rfl, .refl _, fun _ _ => rfl, fun _ _ => rfl⟩
  · rw [if_neg hnone]
    obtain ⟨s', removed, hrun, hok, honly, hrow, hremoved, hcached, href, -⟩ :=
      h.removeSkippedBlocks (m.row requestId)
        (m.kvCacheSpec.getNumSkippedTokens n / m.blockSize).toNat
    obtain ⟨hnulled, -, hcount, hdrop⟩ := nullOut_spec
      (min (m.kvCacheSpec.getNumSkippedTokens n / m.blockSize).toNat
        (s.blocksOf (m.row requestId)).length) (s.blocksOf (m.row requestId))
    rw [← hrow] at hnulled hcount hdrop
    rw [← hremoved] at hcount
    refine ⟨s', _, hrun, hok, by simp, ⟨fun r' hr => honly.blocksOf hr, fun r' _ => by rw [hcached]⟩,
      hcached, hnulled, ?_, ?_⟩
    · intro k hk
      have hle : (m.kvCacheSpec.getNumSkippedTokens n / m.blockSize).toNat ≤ k := by
        have hlt : m.kvCacheSpec.getNumSkippedTokens n / m.blockSize < k + 1 :=
          Int.ediv_lt_of_lt_mul hspec.pos hk
        omega
      have hget := congrArg (fun bs => bs[k - min (m.kvCacheSpec.getNumSkippedTokens n /
        m.blockSize).toNat (s.blocksOf (m.row requestId)).length]?) hdrop
      simp only [List.getElem?_drop] at hget
      rwa [Nat.add_sub_cancel' (by omega)] at hget
    · intro b hb
      have h1 := hcount b hb
      have h2 := href b
      omega

/-- New blocks reach up to the tokens, and are all that leaves the free queue. -/
theorem allocateNewBlocks_spec (h : s.Ok cfg l) (requestId : Nat) (numTokens : Int)
    (hfree : (cdiv numTokens m.blockSize - (s.blocksOf (m.row requestId)).length).toNat ≤ l.length) :
    ∃ bs s' l', m.allocateNewBlocks s requestId numTokens = .ok (bs, s') ∧ s'.Ok cfg l' ∧ l.length = l'.length +
        (cdiv numTokens m.blockSize - (s.blocksOf (m.row requestId)).length).toNat ∧
      RowOnly (m.row requestId) s s' ∧ s'.numCachedBlock = s.numCachedBlock ∧
      s'.blocksOf (m.row requestId) = s.blocksOf (m.row requestId) ++ bs ∧
      cdiv numTokens m.blockSize ≤ (s'.blocksOf (m.row requestId)).length := by
  unfold allocateNewBlocks
  by_cases hnone : cdiv numTokens m.blockSize - ((s.blocksOf (m.row requestId)).length : Int) ≤ 0
  · rw [if_pos hnone]
    exact ⟨[], s, l, rfl, h, by omega, .refl _ s, rfl, by simp, by omega⟩
  · rw [if_neg hnone]
    obtain ⟨n, hn⟩ := Int.eq_ofNat_of_zero_le (by omega :
      0 ≤ cdiv numTokens m.blockSize - ((s.blocksOf (m.row requestId)).length : Int))
    rw [hn] at hfree ⊢
    obtain ⟨s', hrun, hok, honly, hrow, hcached, -, -⟩ :=
      h.appendNewBlocks (r := m.row requestId) (by simpa using hfree)
    refine ⟨_, s', _, hrun, hok, ?_, ⟨fun r' hr => honly.blocksOf hr, fun r' _ => by rw [hcached]⟩,
      hcached, hrow, ?_⟩
    · rw [List.length_drop]
      omega
    · rw [hrow, List.length_append, List.length_take]
      omega

/-- Blocks for the external tokens behind a table. -/
theorem allocateExternal_spec (h : s.Ok cfg l) (requestId : Nat)
    (hge : 0 < ext → ((s.blocksOf (m.row requestId)).length : Int) ≤ cdiv total m.blockSize)
    (hfree : (if 0 < ext then (cdiv total m.blockSize -
      (s.blocksOf (m.row requestId)).length).toNat else 0) ≤ l.length) :
    ∃ s' l', m.allocateExternal s requestId total ext = .ok s' ∧ s'.Ok cfg l' ∧
      l.length = l'.length + (if 0 < ext then (cdiv total m.blockSize -
        (s.blocksOf (m.row requestId)).length).toNat else 0) ∧
      RowOnly (m.row requestId) s s' ∧ s'.numCachedBlock = s.numCachedBlock ∧
      (s'.blocksOf (m.row requestId)).length = (s.blocksOf (m.row requestId)).length +
        (if 0 < ext then (cdiv total m.blockSize -
          (s.blocksOf (m.row requestId)).length).toNat else 0) ∧ RefsGrow s s' := by
  unfold allocateExternal
  by_cases hext : 0 < ext
  · simp only [if_pos hext] at hfree ⊢
    obtain ⟨n, hn⟩ := Int.eq_ofNat_of_zero_le (by omega :
      0 ≤ cdiv total m.blockSize - ((s.blocksOf (m.row requestId)).length : Int))
    rw [hn] at hfree ⊢
    simp only [Int.toNat_natCast] at hfree ⊢
    obtain ⟨s', hrun, hok, honly, hrow, hcached, -, hout⟩ :=
      h.appendNewBlocks (r := m.row requestId) hfree
    refine ⟨s', _, by rw [hrun]; rfl, hok, by rw [List.length_drop]; omega,
      ⟨fun r' hr => honly.blocksOf hr, fun r' _ => by rw [hcached]⟩, hcached, ?_, ?_⟩
    · rw [hrow, List.length_append, List.length_take, Nat.min_eq_left hfree]
    · intro b hb
      by_cases hmem : b ∈ l.take n
      · have h1 := ((h.pool.mem_free b).mp (List.mem_of_mem_take hmem)).2
        have h2 := hok.refs b hb
        omega
      · rw [(hout b hmem).1]
  · simp only [if_neg hext]
    exact ⟨s, l, rfl, h, rfl, .refl _ s, rfl, rfl, fun _ _ => le_rfl⟩

/-- The whole blocks a window skips. -/
def numSkippedBlocks (m : SingleTypeKVCacheManager) (total : Int) : Nat :=
  (m.kvCacheSpec.getNumSkippedTokens total / m.blockSize).toNat

/-- The external tokens left when the window skips some. -/
def externalLeft (m : SingleTypeKVCacheManager) (total ext : Int) : Int :=
  if 0 < m.kvCacheSpec.getNumSkippedTokens total / m.blockSize then
    min (total - m.kvCacheSpec.getNumSkippedTokens total) ext
  else ext

/-- The blocks taken for external tokens behind `numHits` hits. -/
def numExternalBlocks (m : SingleTypeKVCacheManager) (total ext : Int) (numHits : Nat) : Nat :=
  if 0 < m.externalLeft total ext then
    (cdiv total m.blockSize - max (m.numSkippedBlocks total) numHits).toNat
  else 0

theorem numSkippedBlocks_le (hspec : m.kvCacheSpec.Attention hashBlockSize) (htotal : 0 ≤ total) :
    (m.numSkippedBlocks total : Int) * m.blockSize ≤ total := by
  have hnonneg := hspec.getNumSkippedTokens_nonneg htotal
  have hdiv : 0 ≤ m.kvCacheSpec.getNumSkippedTokens total / m.blockSize :=
    Int.ediv_nonneg hnonneg hspec.pos.le
  unfold numSkippedBlocks
  rw [Int.toNat_of_nonneg hdiv]
  exact (Int.ediv_mul_le _ hspec.pos.ne').trans (hspec.getNumSkippedTokens_le htotal)

theorem externalLeft_pos (h : 0 < m.externalLeft total ext) : 0 < ext := by
  unfold externalLeft at h
  split at h
  · exact lt_of_lt_of_le h (min_le_right _ _)
  · exact h

/-- The blocks for external tokens are among those for all tokens. -/
theorem numExternalBlocks_le (hspec : m.kvCacheSpec.Attention hashBlockSize) {numTokens : Int} {numHits : Nat}
    (hle : 0 < ext → total ≤ numTokens) : m.numExternalBlocks total ext numHits ≤
      (cdiv numTokens m.blockSize - max (m.numSkippedBlocks total) numHits).toNat := by
  unfold numExternalBlocks
  split
  case isTrue h =>
    have hmono := cdiv_mono hspec.pos (hle (externalLeft_pos h))
    show (cdiv total (m.kvCacheSpec.blockSize : Int) - _).toNat ≤
      (cdiv numTokens (m.kvCacheSpec.blockSize : Int) - _).toNat
    omega
  case isFalse => exact Nat.zero_le _

/-- A new request's table starts with null blocks for what the window skips, then the hits behind
them, then blocks for external tokens. -/
theorem allocateNewComputedBlocks_spec (h : s.Ok cfg l) (hspec : m.kvCacheSpec.Attention hashBlockSize)
    (requestId : Nat) {hits : List Nat} {localTokens : Int} (hnil : s.blocksOf (m.row requestId) = [])
    (hnew : s.numCachedBlock.contains (m.row requestId) = false) (htotal : 0 ≤ localTokens + ext)
    (husable : ∀ b ∈ hits, b = 0 ∨ cfg.Usable b) (hnodup : (hits.filter (· ≠ 0)).Nodup)
    (hcaching : cfg.enableCaching = true ∨ hits = [])
    (hlen : 0 < ext → (hits.length : Int) * m.blockSize ≤ localTokens + ext)
    (hfree : getNumEvictableBlocks s.pool (hits.drop (m.numSkippedBlocks (localTokens + ext))) +
      m.numExternalBlocks (localTokens + ext) ext hits.length ≤ l.length) :
    ∃ s' l', m.allocateNewComputedBlocks s requestId hits localTokens ext = .ok s' ∧ s'.Ok cfg l' ∧
      l.length ≤ l'.length +
        (getNumEvictableBlocks s.pool (hits.drop (m.numSkippedBlocks (localTokens + ext))) +
          m.numExternalBlocks (localTokens + ext) ext hits.length) ∧
      RowOnly (m.row requestId) s s' ∧ s'.numCachedBlock.contains (m.row requestId) = true ∧
      (s'.blocksOf (m.row requestId)).length = max (m.numSkippedBlocks (localTokens + ext)) hits.length +
          m.numExternalBlocks (localTokens + ext) ext hits.length ∧ RefsGrow s s' := by
  set total := localTokens + ext with htotalDef
  set skip := m.numSkippedBlocks total with hskip
  have hskipLe := numSkippedBlocks_le hspec htotal
  have hdrop : (if 0 < m.kvCacheSpec.getNumSkippedTokens total / m.blockSize then
      hits.drop (m.kvCacheSpec.getNumSkippedTokens total / m.blockSize).toNat else hits) =
      hits.drop skip := by
    split
    case isTrue => rfl
    case isFalse hle =>
      have hzero : skip = 0 := by
        rw [hskip, numSkippedBlocks]
        omega
      rw [hzero, List.drop_zero]
  have husable₁ : ∀ b ∈ hits.drop skip, b = 0 ∨ cfg.Usable b :=
    fun b hb => husable b (List.mem_of_mem_drop hb)
  obtain ⟨s₁, hrun₁, hok₁, honly₁, hrow₁, hcached₁, href₁, -⟩ :=
    h.addComputedBlocks hnil skip husable₁ (((List.drop_sublist _ _).filter _).nodup hnodup)
      (hcaching.imp_right fun hh => by simp [hh])
  have hlen₁ : (s₁.blocksOf (m.row requestId)).length = max skip hits.length := by
    rw [hrow₁, List.length_append, List.length_replicate, List.length_drop]
    omega
  have hfree₁ := length_le_evictable h (hits.drop skip)
  have hge : 0 < m.externalLeft total ext →
      ((s₁.blocksOf (m.row requestId)).length : Int) ≤ cdiv total m.blockSize := by
    intro hpos
    have h1 : (skip : Int) ≤ cdiv total m.blockSize := le_cdiv hspec.pos hskipLe
    have h2 : (hits.length : Int) ≤ cdiv total m.blockSize :=
      le_cdiv hspec.pos (hlen (externalLeft_pos hpos))
    omega
  have hext : (if 0 < m.externalLeft total ext then (cdiv total m.blockSize -
      (s₁.blocksOf (m.row requestId)).length).toNat else 0) =
      m.numExternalBlocks total ext hits.length := by
    rw [hlen₁]
    rfl
  obtain ⟨s', l', hrun', hok', hfree', honly', hcached', hlen', hgrow'⟩ :=
    allocateExternal_spec (m := m) hok₁ requestId hge (by rw [hext]; omega)
  rw [hext] at hfree' hlen'
  refine ⟨s', l', ?_, hok', by omega, ?_, ?_, by rw [hlen', hlen₁], ?_⟩
  · unfold allocateNewComputedBlocks
    simp only [hnew, hnil, Bool.false_eq_true]
    rw [← htotalDef, hdrop]
    show (s.addComputedBlocks (m.row requestId) skip (hits.drop skip) >>= _) = _
    rw [hrun₁]
    exact hrun'
  · refine RowsOnly.trans ⟨fun r' hr => honly₁.blocksOf hr, fun r' hr => ?_⟩ honly'
    rw [hcached₁, Dict.contains, Dict.contains, Dict.get?_set_of_ne _ _ hr]
  · rw [hcached', hcached₁]
    simp [Dict.contains]
  · intro b hb
    have h1 := href₁ b
    have h2 := hgrow' b hb
    omega

omit [DecidableEq κ] in
/-- The count of a new request: the blocks behind skipped ones and hits, and the hits that leave the
free queue. -/
theorem getNumBlocksToAllocate_new (hspec : m.kvCacheSpec.Attention hashBlockSize) {requestId : Nat} {hits : List Nat}
    (numTokens : Int) (htotal : 0 ≤ total) (hnil : s.blocksOf (m.row requestId) = [])
    (hnew : s.numCachedBlock.contains (m.row requestId) = false) :
    m.getNumBlocksToAllocate s requestId numTokens hits total =
      .ok (((cdiv numTokens m.blockSize - max (m.numSkippedBlocks total) hits.length).toNat +
        getNumEvictableBlocks s.pool (hits.drop (m.numSkippedBlocks total)) : Nat)) := by
  have hdiv : 0 ≤ m.kvCacheSpec.getNumSkippedTokens total / m.blockSize :=
    Int.ediv_nonneg (hspec.getNumSkippedTokens_nonneg htotal) hspec.pos.le
  have hskip : (m.numSkippedBlocks total : Int) =
      m.kvCacheSpec.getNumSkippedTokens total / m.blockSize := Int.toNat_of_nonneg hdiv
  unfold getNumBlocksToAllocate
  simp only [hnew, hnil, List.length_nil, Bool.false_eq_true, if_false, ← hskip]
  have hdropped : (max (0 : Int) ((m.numSkippedBlocks total : Int) - ((0 : Nat) : Int))).toNat =
      m.numSkippedBlocks total := by omega
  rw [hdropped]
  simp only [pure, Except.pure, Except.ok.injEq, Nat.cast_add]
  omega

omit [DecidableEq κ] in
/-- The count without hits, of a request whose table covers what its window skips. -/
theorem getNumBlocksToAllocate_running (hspec : m.kvCacheSpec.Attention hashBlockSize) {requestId : Nat}
    (numTokens : Int) (htotal : 0 ≤ total) (hcover : s.numCachedBlock.contains (m.row requestId) = true ∨
      total ≤ (s.blocksOf (m.row requestId)).length * m.blockSize) :
    m.getNumBlocksToAllocate s requestId numTokens [] total =
      .ok ((cdiv numTokens m.blockSize - (s.blocksOf (m.row requestId)).length).toNat : Nat) := by
  unfold getNumBlocksToAllocate
  cases hcached : s.numCachedBlock.contains (m.row requestId) with
  | true =>
    simp only [if_true, List.isEmpty_nil, pyAssert_true, ok_bind, pure, Except.pure,
      Except.ok.injEq]
    omega
  | false =>
    have hle := hcover.resolve_left (by simp [hcached])
    have hskip : m.kvCacheSpec.getNumSkippedTokens total / m.blockSize ≤
        (s.blocksOf (m.row requestId)).length := by
      have h1 := hspec.getNumSkippedTokens_le htotal
      have h2 := Int.ediv_le_ediv hspec.pos (h1.trans hle)
      rwa [blockSize, Int.mul_ediv_cancel _ hspec.pos.ne'] at h2
    simp only [Bool.false_eq_true, if_false, List.length_nil, Nat.cast_zero, zero_add,
      List.drop_nil, getNumEvictableBlocks, List.countP_nil, add_zero, pure, Except.pure,
      Except.ok.injEq]
    rw [max_eq_right hskip]
    omega

end SingleTypeKVCacheManager

end Yuan.Core
