import Yuan.Core.KVCacheManager

/-!
# `MambaManager` in align mode

A mamba layer keeps one state instead of the KV of all tokens. The running state of a request stands in
the block of its last scheduled token, `num_speculative_blocks` before the end of the table; the blocks
behind it take the states after each draft. The blocks before it are null, or hold states that are
cached. When the table grows, the speculative blocks that end up before the running state are moved to
the new end, and one new block is enough for the rest.

Row and pool are those of every single-type manager, so the invariant `KVState.Ok` is kept too.
-/

namespace Yuan.Core

/-- The manager of a group of mamba layers, with `mamba_cache_mode` `align`. -/
structure MambaManager extends SingleTypeKVCacheManager where
  numSpeculativeBlocks : Nat
  mamba : kvCacheSpec.attention = .mamba
  blockSize_pos : 0 < kvCacheSpec.blockSize

/-- What the manager keeps: the pool and the tables, the index of the state block before the last
growth of a table, the requests that were given blocks, and the blocks cached in this step. -/
structure MambaState (κ : Type) where
  kv : KVState κ Row
  lastStateBlockIdx : Dict Nat Nat := .empty
  allocatedBlockReqs : List Nat := []
  cachedBlocksThisStep : List κ := []

/-! ## Tables -/

/-- The loop that reuses speculative blocks: move the blocks at these indices to the end, up to the
first one that is not skipped. -/
def reuseSpeculative (nullBlock numSkippedBlocks : Nat) : List Nat → List Nat → List Nat
  | [], reqBlocks => reqBlocks
  | blockIdx :: rest, reqBlocks =>
    if blockIdx < numSkippedBlocks then
      reuseSpeculative nullBlock numSkippedBlocks rest
        ((reqBlocks ++ [reqBlocks.getD blockIdx nullBlock]).set blockIdx nullBlock)
    else reqBlocks

namespace KVState

variable {κ ρ : Type} [DecidableEq ρ]

/-- Free one block of a row, unless it is null already, and leave a null block in its place. -/
def freeBlockAt (s : KVState κ ρ) (r : ρ) (idx : Nat) : Except PyError (KVState κ ρ) :=
  match (s.blocksOf r)[idx]? with
  | none => .error (.indexError "list index out of range")
  | some block =>
    if block = s.pool.nullBlock then return s
    else do
      let pool ← s.pool.freeBlocks [block]
      return { s with
        pool, reqToBlocks := s.reqToBlocks.set r ((s.blocksOf r).set idx s.pool.nullBlock) }

end KVState

namespace MambaManager

section Methods

variable {κ : Type} [DecidableEq κ]
variable (m : MambaManager) (s : MambaState κ) (requestId : Nat)

/-- The blocks a request of `numTokens` tokens needs, the speculative ones included. -/
def numRequiredBlocks (numTokens : Int) : Int := cdiv numTokens m.blockSize + m.numSpeculativeBlocks

omit [DecidableEq κ] in
/-- `remove_skipped_blocks`. Drafts among the computed tokens may still be rejected. -/
def removeSkippedBlocks (numComputedTokens : Int) : Except PyError (MambaState κ) := do
  let numComputedTokens := max 0 (numComputedTokens - m.numSpeculativeBlocks)
  let kv ← m.toSingleTypeKVCacheManager.removeSkippedBlocks s.kv requestId numComputedTokens
  match s.lastStateBlockIdx.get? requestId with
  | none => return { s with kv }
  | some lastStateBlockIdx =>
    if (lastStateBlockIdx : Int) < cdiv numComputedTokens m.blockSize - 1 then do
      let kv ← kv.freeBlockAt (m.row requestId) lastStateBlockIdx
      return { s with kv }
    else return { s with kv }

omit [DecidableEq κ] in
/-- The index of the block with the running state, before a table of `prevBlockLen` blocks grows: the
speculative blocks are behind it, or it is the last block of a cache hit. -/
def growLastState (prevBlockLen : Nat) : Dict Nat Nat :=
  if requestId ∈ s.allocatedBlockReqs then
    s.lastStateBlockIdx.set requestId (prevBlockLen - 1 - m.numSpeculativeBlocks)
  else if 0 < prevBlockLen then s.lastStateBlockIdx.set requestId (prevBlockLen - 1)
  else s.lastStateBlockIdx

omit [DecidableEq κ] in
/-- The table of a request with its old blocks in their new places, where the first
`numSkippedBlocks` positions are skipped. -/
def placeOldBlocks (numSkippedBlocks : Nat) : List Nat :=
  let reqBlocks := s.kv.blocksOf (m.row requestId)
  let nullBlock := s.kv.pool.nullBlock
  let padded := reqBlocks ++ List.replicate (numSkippedBlocks - reqBlocks.length) nullBlock
  if requestId ∈ s.allocatedBlockReqs then
    -- an allocated request has more than `num_speculative_blocks` blocks
    reuseSpeculative nullBlock numSkippedBlocks
      (List.range' (reqBlocks.length - m.numSpeculativeBlocks) m.numSpeculativeBlocks) padded
  else padded

/-- `allocate_new_blocks`: the new part of the table. -/
def allocateNewBlocks (numTokensMainModel : Int) : Except PyError (List Nat × MambaState κ) := do
  let prevBlockLen := (s.kv.blocksOf (m.row requestId)).length
  let numRequiredBlocks := m.numRequiredBlocks numTokensMainModel
  if numRequiredBlocks = prevBlockLen then return ([], s)
  else do
    pyAssert (prevBlockLen < numRequiredBlocks)
      s!"num_required_blocks {numRequiredBlocks} < len(req_blocks) {prevBlockLen}"
    let numSkippedBlocks := (numRequiredBlocks - m.numSpeculativeBlocks - 1).toNat
    let reqBlocks := m.placeOldBlocks s requestId numSkippedBlocks
    let numNewBlocks := numRequiredBlocks - reqBlocks.length
    pyAssert (numNewBlocks ≤
      if requestId ∈ s.allocatedBlockReqs then 1 else m.numSpeculativeBlocks + 1) ""
    let kv := { s.kv with reqToBlocks := s.kv.reqToBlocks.set (m.row requestId) reqBlocks }
    let (_, kv) ← kv.appendNewBlocks (m.row requestId) numNewBlocks
    return ((kv.blocksOf (m.row requestId)).drop prevBlockLen, { s with
      kv
      lastStateBlockIdx := m.growLastState s requestId prevBlockLen
      allocatedBlockReqs := s.allocatedBlockReqs.insert requestId })

/-- `allocate_new_computed_blocks`; there are no external tokens in align mode. -/
def allocateNewComputedBlocks (newComputedBlocks : List Nat)
    (numLocalComputedTokens : Int) : Except PyError (MambaState κ) := do
  let kv ← m.toSingleTypeKVCacheManager.allocateNewComputedBlocks s.kv requestId newComputedBlocks
    numLocalComputedTokens 0
  return { s with kv }

omit [DecidableEq κ] in
/-- The hashes of blocks that were just cached; null blocks have none. -/
def cachedHashes (pool : BlockPool κ) : List Nat → Except PyError (List κ)
  | [] => return []
  | block :: rest =>
    if block = pool.nullBlock then cachedHashes pool rest
    else
      match (pool.blocks block).blockHash with
      | none => .error (.assertionError "block.block_hash is not None")
      | some blockHash => do
        let hashes ← cachedHashes pool rest
        return blockHash :: hashes

/-- `cache_blocks`: remember what was cached in this step. -/
def cacheBlocks (numBlockHashes : Nat) (blockHashes : List κ) (numTokens : Int) :
    Except PyError (MambaState κ) := do
  let numCachedBlocksBefore := s.kv.cachedOf (m.row requestId)
  let kv ← s.kv.cacheBlocks (m.row requestId) numBlockHashes (numTokens / m.blockSize).toNat blockHashes
  let numCachedBlocksAfter := kv.cachedOf (m.row requestId)
  let hashes ← cachedHashes kv.pool
    (((kv.blocksOf (m.row requestId)).take numCachedBlocksAfter).drop numCachedBlocksBefore)
  return { s with kv, cachedBlocksThisStep := hashes ++ s.cachedBlocksThisStep }

omit [DecidableEq κ] in
/-- `free`. -/
def free : Except PyError (MambaState κ) := do
  let kv ← s.kv.free (m.row requestId)
  return { s with
    kv
    allocatedBlockReqs := s.allocatedBlockReqs.filter (· ≠ requestId)
    lastStateBlockIdx := s.lastStateBlockIdx.erase requestId }

omit [DecidableEq κ] in
/-- `new_step_starts`. -/
def newStepStarts : MambaState κ := { s with cachedBlocksThisStep := [] }

end Methods

/-! ## The worker -/

section Worker

variable (m : MambaManager)

/-- `curr_state_idx` of `preprocess_mamba`: where the running state of a step goes. -/
def currStateIdx (numComputedTokens numScheduledTokens : Int) : Int :=
  m.numRequiredBlocks (numComputedTokens + numScheduledTokens) - 1 - m.numSpeculativeBlocks

/-- The indices of the table that the worker reads in a step of a request: it copies the state of the
step before, `acceptTokenBias` behind the running state for a temporal state, and the kernels get the
running state and the speculative blocks. A new or resumed request has no index of its own yet. -/
def stateReads (mambaStateIdx : Option Int) (numComputedTokens numScheduledTokens : Int)
    (acceptTokenBias : Nat) : List Int :=
  let prevStateIdx := mambaStateIdx.getD ((numComputedTokens - 1) / m.blockSize)
  let currStateIdx := m.currStateIdx numComputedTokens numScheduledTokens
  (if prevStateIdx ≠ -1 ∧ prevStateIdx ≠ currStateIdx then
    [prevStateIdx, prevStateIdx + acceptTokenBias] else []) ++
    (List.range (1 + m.numSpeculativeBlocks)).map fun offset => currStateIdx + offset

end Worker

end MambaManager
end Yuan.Core
