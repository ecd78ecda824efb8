import Yuan.Core.FreeQueue
import Mathlib.Data.List.Count

/-!
# `BlockPool`: reference counts, the free queue and the prefix cache

The pool owns every block. Free blocks stand in the free queue in eviction order; a full block that
carries a hash is also stored in `cached_block_hash_to_block`, whether it is in use or free. Block 0
is popped at start-up as the null block, a placeholder whose reference count means nothing.

`Ok sinks p l` is what the pool keeps true of itself when its free list is `l`. Every method has one
lemma: under the method's precondition it returns, `Ok` holds again, and the lemma says which blocks
changed and how.
-/

namespace Yuan.Core

/-! ## `BlockHashToBlockMap` -/

/-- The inner dictionary of the hash map, from block id to block: a nonempty list of ids. -/
structure BlockIds where
  ids : List Nat
  ne_nil : ids ≠ []
  nodup : ids.Nodup

namespace BlockIds

/-- `{a.block_id: a, b.block_id: b}`. -/
def pair (a b : Nat) : BlockIds :=
  if h : a = b then ⟨[a], by simp, by simp⟩ else ⟨[a, b], by simp, by simp [h]⟩

/-- `blocks[b.block_id] = b`. -/
def insert (s : BlockIds) (b : Nat) : BlockIds :=
  if h : b ∈ s.ids then s
  else ⟨s.ids ++ [b], by simp, by
    rw [List.nodup_append]
    exact ⟨s.nodup, by simp, by rintro x hx y hy rfl; exact h ((List.mem_singleton.mp hy) ▸ hx)⟩⟩

@[simp] theorem mem_pair {a b x : Nat} : x ∈ (pair a b).ids ↔ x = a ∨ x = b := by
  unfold pair
  split
  case isTrue h => subst h; simp
  case isFalse => simp

@[simp] theorem mem_insert {s : BlockIds} {b x : Nat} : x ∈ (s.insert b).ids ↔ x ∈ s.ids ∨ x = b := by
  unfold insert
  split
  case isTrue h =>
    constructor
    · exact Or.inl
    · rintro (hx | rfl)
      · exact hx
      · exact h
  case isFalse => simp

end BlockIds

/-- A value of the hash map: a block, or a dictionary of blocks. -/
inductive KVCacheBlocks where
  | block (b : Nat)
  | dict (blocks : BlockIds)

/-- The prefix cache: from a block hash with group id to the blocks that carry it. -/
structure BlockHashToBlockMap (κ : Type) where
  cache : κ → Option KVCacheBlocks

namespace BlockHashToBlockMap

variable {κ : Type}

/-- `__init__`: nothing is cached. -/
def init : BlockHashToBlockMap κ := ⟨fun _ => none⟩

/-- Any block with the given key; the first inserted one. -/
def getOneBlock (m : BlockHashToBlockMap κ) (key : κ) : Option Nat :=
  match m.cache key with
  | none => none
  | some (.block b) => some b
  | some (.dict s) => s.ids.head?

variable [DecidableEq κ]

/-- Store a block under a key, next to the blocks already there. -/
def insert (m : BlockHashToBlockMap κ) (key : κ) (b : Nat) : BlockHashToBlockMap κ :=
  match m.cache key with
  | none => ⟨Function.update m.cache key (some (.block b))⟩
  | some (.block a) => ⟨Function.update m.cache key (some (.dict (.pair a b)))⟩
  | some (.dict s) => ⟨Function.update m.cache key (some (.dict (s.insert b)))⟩

/-- Take a block out of the cache, if it is stored under the key. -/
def pop (m : BlockHashToBlockMap κ) (key : κ) (b : Nat) : Option Nat × BlockHashToBlockMap κ :=
  match m.cache key with
  | none => (none, m)
  | some (.block a) =>
    -- a single block with another id is put back
    if a = b then (some a, ⟨Function.update m.cache key none⟩) else (none, m)
  | some (.dict s) =>
    let popped := if b ∈ s.ids then some b else none
    if h : s.ids.erase b = [] then (popped, ⟨Function.update m.cache key none⟩)
    else
      let rest : BlockIds := ⟨s.ids.erase b, h, s.nodup.erase b⟩
      (popped, ⟨Function.update m.cache key (some (.dict rest))⟩)

/-- The blocks stored under a key, oldest first. -/
def stored (m : BlockHashToBlockMap κ) (key : κ) : List Nat :=
  match m.cache key with
  | none => []
  | some (.block b) => [b]
  | some (.dict s) => s.ids

variable {m : BlockHashToBlockMap κ} {key key' : κ} {b b' : Nat}

omit [DecidableEq κ] in
@[simp] theorem stored_init : (init : BlockHashToBlockMap κ).stored key = [] := rfl

theorem stored_update_of_ne {v : Option KVCacheBlocks} (h : key' ≠ key) :
    stored ⟨Function.update m.cache key v⟩ key' = m.stored key' := by
  simp [stored, Function.update_of_ne h]

theorem mem_stored_insert : b' ∈ (m.insert key b).stored key' ↔ (key' = key ∧ b' = b) ∨ b' ∈ m.stored key' := by
  by_cases hkey : key' = key
  · subst hkey
    unfold insert
    cases hc : m.cache key' with
    | none => simp [stored, hc]
    | some v =>
      cases v with
      | block a => simp [stored, hc, or_comm]
      | dict s => simp [stored, hc, or_comm]
  · have hsame : (m.insert key b).stored key' = m.stored key' := by
      unfold insert
      split <;> exact stored_update_of_ne hkey
    simp [hsame, hkey]

/-- A stored block is popped, and nothing else leaves the cache. -/
theorem pop_of_mem (h : b ∈ m.stored key) :
    ∃ m', m.pop key b = (some b, m') ∧
      ∀ key' b', b' ∈ m'.stored key' ↔ b' ∈ m.stored key' ∧ ¬ (key' = key ∧ b' = b) := by
  unfold pop
  cases hc : m.cache key with
  | none => simp [stored, hc] at h
  | some v =>
    cases v with
    | block a =>
      obtain rfl : b = a := by simpa [stored, hc] using h
      refine ⟨_, by simp; rfl, fun key' b' => ?_⟩
      by_cases hkey : key' = key
      · subst hkey; simp [stored, hc]
      · simp [stored_update_of_ne hkey, hkey]
    | dict s =>
      have hb : b ∈ s.ids := by simpa [stored, hc] using h
      by_cases hnil : s.ids.erase b = []
      · refine ⟨_, by simp [hb, hnil]; rfl, fun key' b' => ?_⟩
        by_cases hkey : key' = key
        · subst hkey
          have : b' ∈ s.ids → b' = b := fun hb' => by
            by_contra hne
            have := (List.mem_erase_of_ne hne).mpr hb'
            simp [hnil] at this
          simp only [stored, hc, Function.update_self, List.not_mem_nil, true_and, false_iff,
            not_and, not_not]
          exact this
        · simp [stored_update_of_ne hkey, hkey]
      · refine ⟨_, by simp [hb, hnil]; rfl, fun key' b' => ?_⟩
        by_cases hkey : key' = key
        · subst hkey
          simp [stored, hc, s.nodup.mem_erase_iff, and_comm]
        · simp [stored_update_of_ne hkey, hkey]

end BlockHashToBlockMap

/-! ## The pool -/

/-- The metadata of a block; its id is its index in the pool. -/
structure KVCacheBlock (κ : Type) where
  refCnt : Int := 0
  blockHash : Option κ := none
  isNull : Bool := false

/-- All blocks, the queue of the free ones and the prefix cache. -/
structure BlockPool (κ : Type) where
  numGpuBlocks : Nat
  enableCaching : Bool
  blocks : Nat → KVCacheBlock κ
  freeBlockQueue : FreeKVCacheBlockQueue
  cachedBlockHashToBlock : BlockHashToBlockMap κ
  nullBlock : Nat

namespace BlockPool

variable {κ : Type}

/-- Change the metadata of one block. -/
def modify (p : BlockPool κ) (b : Nat) (f : KVCacheBlock κ → KVCacheBlock κ) : BlockPool κ :=
  { p with blocks := Function.update p.blocks b (f (p.blocks b)) }

/-- Add to the reference count of a block. -/
def addRef (p : BlockPool κ) (b : Nat) (d : Int) : BlockPool κ :=
  p.modify b fun blk => { blk with refCnt := blk.refCnt + d }

/-- `__init__`: all blocks are free, then the first one becomes the null block. -/
def init (numGpuBlocks : Nat) (enableCaching : Bool) : Except PyError (BlockPool κ) := do
  pyAssert (numGpuBlocks > 0) ""
  let queue := FreeKVCacheBlockQueue.init (List.range numGpuBlocks)
  let (nullBlock, queue) ← queue.popleft
  let p : BlockPool κ :=
    { numGpuBlocks, enableCaching, blocks := fun _ => {}, freeBlockQueue := queue,
      cachedBlockHashToBlock := .init, nullBlock }
  return p.modify nullBlock fun blk => { blk with isNull := true }

/-- Number of free blocks. -/
def getNumFreeBlocks (p : BlockPool κ) : Int := p.freeBlockQueue.numFreeBlocks

/-- The cached block of every group, or nothing on a miss in any of them. -/
def getCachedBlock (p : BlockPool κ) (keys : List κ) : Option (List Nat) :=
  keys.mapM p.cachedBlockHashToBlock.getOneBlock

variable [DecidableEq κ]

/-- Reset the hash of a cached block and take it out of the prefix cache. -/
def maybeEvictCachedBlock (p : BlockPool κ) (b : Nat) : BlockPool κ :=
  match (p.blocks b).blockHash with
  | none => p
  | some key =>
    match p.cachedBlockHashToBlock.pop key b with
    | (none, m) => { p with cachedBlockHashToBlock := m }
    | (some _, m) =>
      { p with cachedBlockHashToBlock := m }.modify b fun blk => { blk with blockHash := none }

/-- The loop of `get_new_blocks`: evict each popped block and count its first reference. -/
def takeBlocks (p : BlockPool κ) : List Nat → Except PyError (BlockPool κ)
  | [] => .ok p
  | b :: bs => do
    let p := if p.enableCaching then p.maybeEvictCachedBlock b else p
    pyAssert ((p.blocks b).refCnt = 0) "block.ref_cnt == 0"
    (p.addRef b 1).takeBlocks bs

/-- Get new blocks from the front of the free queue. -/
def getNewBlocks (p : BlockPool κ) (numBlocks : Int) :
    Except PyError (List Nat × BlockPool κ) := do
  if numBlocks > p.getNumFreeBlocks then
    throw (.valueError s!"Cannot get {numBlocks} free blocks from the pool")
  let (ret, queue) ← p.freeBlockQueue.popleftN numBlocks
  let p ← { p with freeBlockQueue := queue }.takeBlocks ret
  return (ret, p)

section

omit [DecidableEq κ]

/-- A block without references is in the free queue, as an eviction candidate: take it out. -/
def touchQueue (p : BlockPool κ) (b : Nat) : Except PyError FreeKVCacheBlockQueue :=
  if (p.blocks b).refCnt = 0 ∧ (p.blocks b).isNull = false then p.freeBlockQueue.remove b
  else .ok p.freeBlockQueue

/-- Reference blocks once more; a block that was free leaves the free queue. -/
def touch (p : BlockPool κ) : List Nat → Except PyError (BlockPool κ)
  | [] => .ok p
  | b :: bs => do
    let queue ← p.touchQueue b
    ({ p with freeBlockQueue := queue }.addRef b 1).touch bs

/-- Drop one reference of each block; those left without any go to the end of the free queue. -/
def freeBlocks (p : BlockPool κ) (orderedBlocks : List Nat) : Except PyError (BlockPool κ) := do
  let p := orderedBlocks.foldl (fun p b => p.addRef b (-1)) p
  let queue ← p.freeBlockQueue.appendN
    (orderedBlocks.filter fun b => (p.blocks b).refCnt = 0 ∧ (p.blocks b).isNull = false)
  return { p with freeBlockQueue := queue }

end

/-- The loop of `cache_full_blocks`: give each new full block its hash. Null blocks are skipped. -/
def cacheLoop (p : BlockPool κ) : List Nat → List κ → Except PyError (BlockPool κ)
  | [], _ => .ok p
  | b :: bs, newBlockHashes =>
    if (p.blocks b).isNull then p.cacheLoop bs newBlockHashes.tail
    else do
      pyAssert ((p.blocks b).blockHash = none) "blk.block_hash is None"
      match newBlockHashes with
      | [] => throw (.indexError "list index out of range")
      | key :: keys =>
        let p := p.modify b fun blk => { blk with blockHash := some key }
        { p with cachedBlockHashToBlock := p.cachedBlockHashToBlock.insert key b }.cacheLoop bs keys

/-- Cache the blocks `num_cached_blocks .. num_full_blocks` of a request. `blockHashes` are the
request's hashes at this group's block size, with the group id; `numBlockHashes` is the length of
`request.block_hashes`. -/
def cacheFullBlocks (p : BlockPool κ) (numBlockHashes : Nat) (blocks : List Nat)
    (numCachedBlocks numFullBlocks : Nat) (blockHashes : List κ) :
    Except PyError (BlockPool κ) := do
  if numCachedBlocks ≥ numFullBlocks then return p
  pyAssert (numBlockHashes ≥ numFullBlocks) "len(request.block_hashes) >= num_full_blocks"
  p.cacheLoop ((blocks.take numFullBlocks).drop numCachedBlocks) (blockHashes.drop numCachedBlocks)

/-- Evict blocks from the prefix cache by their ids. -/
def evictBlocks (p : BlockPool κ) : List Nat → Except PyError (BlockPool κ)
  | [] => .ok p
  | b :: bs => do
    pyAssert (b < p.numGpuBlocks) (s!"Invalid block_id {b} >= {p.numGpuBlocks}. " ++
      "This indicates a bug in the KV connector - workers should " ++
      "only report block IDs that were allocated by the scheduler.")
    (p.maybeEvictCachedBlock b).evictBlocks bs

omit [DecidableEq κ] in
/-- Forget all hashes, unless some block is in use. -/
def resetPrefixCache (p : BlockPool κ) : Bool × BlockPool κ :=
  let numUsedBlocks := p.numGpuBlocks - p.getNumFreeBlocks
  -- the null block is always marked as used
  if numUsedBlocks ≠ 1 then (false, p)
  else (true, { p with
    cachedBlockHashToBlock := .init
    blocks := fun b => { p.blocks b with blockHash := none } })

/-- `SinkFullAttentionManager.__init__`: take the sink blocks out of the free queue for good. -/
def popSinkBlocks (p : BlockPool κ) (numSinkBlock : Int) :
    Except PyError (List Nat × BlockPool κ) := do
  let (sinkBlocks, queue) ← p.freeBlockQueue.popleftN numSinkBlock
  return (sinkBlocks, { p with freeBlockQueue := queue })

/-! ## Reading a changed pool -/

section Projections

variable {p : BlockPool κ} {a b : Nat} {d : Int}

omit [DecidableEq κ]

theorem blocks_modify {f : KVCacheBlock κ → KVCacheBlock κ} :
    (p.modify a f).blocks b = if b = a then f (p.blocks a) else p.blocks b := by
  simp only [modify, Function.update_apply]

@[simp] theorem refCnt_addRef :
    ((p.addRef a d).blocks b).refCnt = (p.blocks b).refCnt + if b = a then d else 0 := by
  by_cases h : b = a <;> simp [addRef, blocks_modify, h]

@[simp] theorem blockHash_addRef : ((p.addRef a d).blocks b).blockHash = (p.blocks b).blockHash := by
  by_cases h : b = a <;> simp [addRef, blocks_modify, h]

@[simp] theorem isNull_addRef : ((p.addRef a d).blocks b).isNull = (p.blocks b).isNull := by
  by_cases h : b = a <;> simp [addRef, blocks_modify, h]

@[simp] theorem freeBlockQueue_addRef : (p.addRef a d).freeBlockQueue = p.freeBlockQueue := rfl

end Projections

/-! ## What the pool keeps true of itself -/

/-- What never changes after start-up: the size, the caching switch and the sink blocks. -/
structure Config where
  numGpuBlocks : Nat
  enableCaching : Bool
  sinkBlocks : List Nat

/-- A block that requests can hold: not the null block, not a sink block. -/
def Config.Usable (cfg : Config) (b : Nat) : Prop :=
  b ≠ 0 ∧ b < cfg.numGpuBlocks ∧ b ∉ cfg.sinkBlocks

/-- The hash map and the block metadata agree, and the null block is only a placeholder. -/
structure Wf (cfg : Config) (p : BlockPool κ) : Prop where
  numGpuBlocks : p.numGpuBlocks = cfg.numGpuBlocks
  enableCaching : p.enableCaching = cfg.enableCaching
  nullBlock : p.nullBlock = 0
  null_lt : 0 < cfg.numGpuBlocks
  stored : ∀ key b, b ∈ p.cachedBlockHashToBlock.stored key ↔ (p.blocks b).blockHash = some key
  isNull : ∀ b, (p.blocks b).isNull = true ↔ b = 0
  hash_usable : ∀ b, (p.blocks b).blockHash ≠ none → cfg.Usable b
  uncached : cfg.enableCaching = false → ∀ b, (p.blocks b).blockHash = none
  nonneg : ∀ b, cfg.Usable b → 0 ≤ (p.blocks b).refCnt

/-- A well-formed pool whose free queue spells `l`: the usable blocks without a reference. -/
structure Ok (cfg : Config) (p : BlockPool κ) (l : List Nat) : Prop extends Wf cfg p where
  holds : p.freeBlockQueue.Holds l
  mem_free : ∀ b, b ∈ l ↔ cfg.Usable b ∧ (p.blocks b).refCnt = 0

section Specs

variable {cfg : Config} {p : BlockPool κ} {l : List Nat} {bs : List Nat}

section

omit [DecidableEq κ]

theorem Ok.getNumFreeBlocks (h : Ok cfg p l) : p.getNumFreeBlocks = l.length := h.holds.count

theorem Wf.isNull_false (h : Wf cfg p) {b : Nat} : (p.blocks b).isNull = false ↔ b ≠ 0 := by
  rw [ne_eq, ← h.isNull b]
  simp

/-- `Wf` does not read the free queue. -/
theorem Wf.withQueue (h : Wf cfg p) (q : FreeKVCacheBlockQueue) :
    Wf cfg { p with freeBlockQueue := q } :=
  { h with }

theorem Wf.addRef (h : Wf cfg p) {b : Nat} {d : Int} (hd : cfg.Usable b → 0 ≤ (p.blocks b).refCnt + d) :
    Wf cfg (p.addRef b d) where
  numGpuBlocks := h.numGpuBlocks
  enableCaching := h.enableCaching
  nullBlock := h.nullBlock
  null_lt := h.null_lt
  stored := fun key c => by
    rw [blockHash_addRef]
    exact h.stored key c
  isNull := by simpa using h.isNull
  hash_usable := by simpa using h.hash_usable
  uncached := by simpa using h.uncached
  nonneg := by
    intro c hc
    have hc0 := h.nonneg c hc
    by_cases hcb : c = b
    · subst hcb; simpa using hd hc
    · simpa [hcb] using hc0

end

/-! ## Eviction -/

theorem maybeEvictCachedBlock_eq (h : Wf cfg p) (b : Nat) :
    ∃ m, p.maybeEvictCachedBlock b =
        { p with cachedBlockHashToBlock := m }.modify b (fun blk => { blk with blockHash := none }) ∧
      ∀ key c, c ∈ m.stored key ↔ c ∈ p.cachedBlockHashToBlock.stored key ∧ c ≠ b := by
  unfold maybeEvictCachedBlock
  cases hhash : (p.blocks b).blockHash with
  | none =>
    refine ⟨p.cachedBlockHashToBlock, ?_, ?_⟩
    · have hsame : { p.blocks b with blockHash := none } = p.blocks b := by
        rw [← hhash]
      simp [modify, hsame]
    · intro key c
      constructor
      · intro hc
        refine ⟨hc, ?_⟩
        rintro rfl
        rw [h.stored, hhash] at hc
        cases hc
      · exact And.left
  | some key =>
    have hb : b ∈ p.cachedBlockHashToBlock.stored key := (h.stored key b).mpr hhash
    obtain ⟨m, hpop, hm⟩ := BlockHashToBlockMap.pop_of_mem hb
    refine ⟨m, by simp only [hpop], ?_⟩
    intro key' c
    rw [hm]
    constructor
    · rintro ⟨hc, hne⟩
      refine ⟨hc, ?_⟩
      rintro rfl
      refine hne ⟨?_, rfl⟩
      rw [h.stored, hhash] at hc
      exact (Option.some.inj hc).symm
    · rintro ⟨hc, hne⟩
      exact ⟨hc, fun he => hne he.2⟩

/-- Evicting changes the hash of one block, and nothing else. -/
theorem Wf.maybeEvictCachedBlock (h : Wf cfg p) (b : Nat) :
    Wf cfg (p.maybeEvictCachedBlock b) ∧
      (p.maybeEvictCachedBlock b).freeBlockQueue = p.freeBlockQueue ∧
      (∀ c, ((p.maybeEvictCachedBlock b).blocks c).refCnt = (p.blocks c).refCnt) ∧
      (∀ c, ((p.maybeEvictCachedBlock b).blocks c).blockHash =
        if c = b then none else (p.blocks c).blockHash) := by
  obtain ⟨m, heq, hm⟩ := maybeEvictCachedBlock_eq h b
  rw [heq]
  have href : ∀ c, (({ p with cachedBlockHashToBlock := m }.modify b
      (fun blk => { blk with blockHash := none })).blocks c).refCnt = (p.blocks c).refCnt := by
    intro c
    by_cases hc : c = b <;> simp [blocks_modify, hc]
  have hhash : ∀ c, (({ p with cachedBlockHashToBlock := m }.modify b
      (fun blk => { blk with blockHash := none })).blocks c).blockHash =
      if c = b then none else (p.blocks c).blockHash := by
    intro c
    by_cases hc : c = b <;> simp [blocks_modify, hc]
  refine ⟨?_, rfl, href, hhash⟩
  constructor
  case numGpuBlocks => exact h.numGpuBlocks
  case enableCaching => exact h.enableCaching
  case nullBlock => exact h.nullBlock
  case null_lt => exact h.null_lt
  case stored =>
    intro key c
    rw [hhash]
    show c ∈ m.stored key ↔ _
    rw [hm, h.stored]
    by_cases hc : c = b <;> simp [hc]
  case isNull =>
    intro c
    rw [← h.isNull c]
    by_cases hc : c = b <;> simp [blocks_modify, hc]
  case hash_usable =>
    intro c
    rw [hhash]
    by_cases hc : c = b
    · simp [hc]
    · simpa [hc] using h.hash_usable c
  case uncached =>
    intro hoff c
    rw [hhash, h.uncached hoff c]
    simp
  case nonneg =>
    intro c hc
    rw [href]
    exact h.nonneg c hc

theorem Ok.evictBlocks (h : Ok cfg p l) {ids : List Nat} (hids : ∀ b ∈ ids, b < cfg.numGpuBlocks) :
    ∃ p', p.evictBlocks ids = .ok p' ∧ Ok cfg p' l ∧
      (∀ b, (p'.blocks b).refCnt = (p.blocks b).refCnt) ∧
      (∀ b, (p'.blocks b).blockHash = if b ∈ ids then none else (p.blocks b).blockHash) := by
  induction ids generalizing p with
  | nil => exact ⟨p, rfl, h, fun _ => rfl, by simp⟩
  | cons b ids ih =>
    obtain ⟨hwf, hqueue, href, hhash⟩ := h.toWf.maybeEvictCachedBlock b
    have hok : Ok cfg (p.maybeEvictCachedBlock b) l :=
      { hwf with holds := hqueue ▸ h.holds, mem_free := fun c => by rw [h.mem_free, href] }
    obtain ⟨p', hrun, hok', href', hhash'⟩ := ih hok (fun c hc => hids c (List.mem_cons_of_mem _ hc))
    refine ⟨p', ?_, hok', fun c => by rw [href', href], ?_⟩
    · have hb : b < p.numGpuBlocks := by
        rw [h.numGpuBlocks]
        exact hids b List.mem_cons_self
      simp only [BlockPool.evictBlocks, hb]
      exact hrun
    · intro c
      rw [hhash', hhash]
      by_cases hc : c ∈ ids <;> by_cases hcb : c = b <;> simp [hc]

omit [DecidableEq κ] in
theorem Ok.resetPrefixCache (h : Ok cfg p l) :
    Ok cfg p.resetPrefixCache.2 l ∧
      (∀ b, (p.resetPrefixCache.2.blocks b).refCnt = (p.blocks b).refCnt) ∧
      (∀ b, (p.resetPrefixCache.2.blocks b).blockHash =
        if p.resetPrefixCache.1 then none else (p.blocks b).blockHash) := by
  unfold BlockPool.resetPrefixCache
  by_cases hused : p.numGpuBlocks - p.getNumFreeBlocks ≠ 1
  · rw [if_pos hused]
    exact ⟨h, fun _ => rfl, fun _ => by simp⟩
  · rw [if_neg hused]
    refine ⟨?_, fun _ => rfl, fun _ => by simp⟩
    exact { h with
      stored := by simp
      hash_usable := by simp
      uncached := by simp }

/-! ## Taking blocks from the free queue -/

theorem Wf.takeBlocks (h : Wf cfg p) (hbs : bs.Nodup) (hfree : ∀ b ∈ bs, (p.blocks b).refCnt = 0) :
    ∃ p', p.takeBlocks bs = .ok p' ∧ Wf cfg p' ∧ p'.freeBlockQueue = p.freeBlockQueue ∧
      (∀ b ∈ bs, (p'.blocks b).refCnt = 1 ∧ (p'.blocks b).blockHash = none) ∧
      (∀ b, b ∉ bs → (p'.blocks b).refCnt = (p.blocks b).refCnt ∧
        (p'.blocks b).blockHash = (p.blocks b).blockHash) := by
  induction bs generalizing p with
  | nil => exact ⟨p, rfl, h, rfl, by simp, by simp⟩
  | cons b bs ih =>
    obtain ⟨hb, hbs'⟩ := List.nodup_cons.mp hbs
    -- the state after the eviction, whether or not caching is enabled
    obtain ⟨p₁, hp₁, hwf₁, hqueue₁, href₁, hhash₁⟩ : ∃ p₁,
        (if p.enableCaching then p.maybeEvictCachedBlock b else p) = p₁ ∧ Wf cfg p₁ ∧
        p₁.freeBlockQueue = p.freeBlockQueue ∧
        (∀ c, (p₁.blocks c).refCnt = (p.blocks c).refCnt) ∧
        (∀ c, (p₁.blocks c).blockHash = if c = b then none else (p.blocks c).blockHash) := by
      by_cases hcaching : p.enableCaching = true
      · rw [if_pos hcaching]
        obtain ⟨hwf, hrest⟩ := h.maybeEvictCachedBlock b
        exact ⟨_, rfl, hwf, hrest⟩
      · rw [if_neg hcaching]
        have hoff : cfg.enableCaching = false := by
          rw [← h.enableCaching]
          simpa using hcaching
        refine ⟨_, rfl, h, rfl, fun _ => rfl, fun c => ?_⟩
        rw [h.uncached hoff c]
        simp
    have hzero : (p₁.blocks b).refCnt = 0 := by
      rw [href₁]
      exact hfree b List.mem_cons_self
    have hwf₂ : Wf cfg (p₁.addRef b 1) := hwf₁.addRef (by omega)
    obtain ⟨p', hrun, hwf', hqueue', hin, hout⟩ := ih hwf₂ hbs' (fun c hc => by
      have hcb : c ≠ b := fun e => hb (e ▸ hc)
      rw [refCnt_addRef, href₁, hfree c (List.mem_cons_of_mem _ hc)]
      simp [hcb])
    refine ⟨p', ?_, hwf', by rw [hqueue', freeBlockQueue_addRef, hqueue₁], ?_, ?_⟩
    · simp only [BlockPool.takeBlocks, hp₁, hzero]
      exact hrun
    · intro c hc
      rcases List.mem_cons.mp hc with rfl | hc
      · obtain ⟨hr, hh⟩ := hout c hb
        rw [hr, hh, refCnt_addRef, blockHash_addRef, hzero, hhash₁]
        simp
      · exact hin c hc
    · intro c hc
      simp only [List.mem_cons, not_or] at hc
      obtain ⟨hr, hh⟩ := hout c hc.2
      rw [hr, hh, refCnt_addRef, blockHash_addRef, href₁, hhash₁]
      simp [hc.1]

theorem Ok.getNewBlocks (h : Ok cfg p l) {n : Nat} (hn : n ≤ l.length) :
    ∃ p', p.getNewBlocks n = .ok (l.take n, p') ∧ Ok cfg p' (l.drop n) ∧
      (∀ b ∈ l.take n, (p'.blocks b).refCnt = 1 ∧ (p'.blocks b).blockHash = none) ∧
      (∀ b, b ∉ l.take n → (p'.blocks b).refCnt = (p.blocks b).refCnt ∧
        (p'.blocks b).blockHash = (p.blocks b).blockHash) := by
  obtain ⟨q, hpop, hq⟩ := h.holds.popleftN hn
  have hnd : (l.take n ++ l.drop n).Nodup := by
    rw [List.take_append_drop]
    exact h.holds.links.nodup
  obtain ⟨hndt, hndd, hdisj⟩ := List.nodup_append.mp hnd
  have hwf : Wf cfg { p with freeBlockQueue := q } := h.toWf.withQueue q
  obtain ⟨p', hrun, hwf', hqueue, hin, hout⟩ := hwf.takeBlocks hndt (fun b hb =>
    ((h.mem_free b).mp (List.mem_of_mem_take hb)).2)
  refine ⟨p', ?_, { hwf' with holds := ?_, mem_free := ?_ }, hin, hout⟩
  · have hle : ¬ ((n : Int) > p.getNumFreeBlocks) := by
      rw [h.getNumFreeBlocks]
      omega
    simp only [BlockPool.getNewBlocks, if_neg hle, hpop]
    simp [bind, Except.bind, pure, Except.pure, hrun]
  · rw [hqueue]
    exact hq
  · intro b
    by_cases hb : b ∈ l.take n
    · have hnot : b ∉ l.drop n := fun hb' => hdisj b hb b hb' rfl
      simp [hnot, (hin b hb).1]
    · rw [(hout b hb).1]
      rw [← h.mem_free]
      constructor
      · exact List.mem_of_mem_drop
      · intro hb'
        rw [← List.take_append_drop n l] at hb'
        exact (List.mem_append.mp hb').resolve_left hb

section

omit [DecidableEq κ]

/-- Taking blocks away for good makes them sink blocks. -/
theorem Ok.popSinkBlocks (h : Ok cfg p l) {n : Nat} (hn : n ≤ l.length)
    (hunused : ∀ b, (p.blocks b).blockHash = none) :
    ∃ p', p.popSinkBlocks n = .ok (l.take n, p') ∧
      Ok { cfg with sinkBlocks := l.take n ++ cfg.sinkBlocks } p' (l.drop n) ∧
      p'.blocks = p.blocks := by
  obtain ⟨q, hpop, hq⟩ := h.holds.popleftN hn
  refine ⟨{ p with freeBlockQueue := q }, ?_, ?_, rfl⟩
  · simp [BlockPool.popSinkBlocks, hpop, bind, Except.bind, pure, Except.pure]
  · have hnd : (l.take n ++ l.drop n).Nodup := by
      rw [List.take_append_drop]
      exact h.holds.links.nodup
    have hdisj := (List.nodup_append.mp hnd).2.2
    exact { numGpuBlocks := h.numGpuBlocks, enableCaching := h.enableCaching,
            nullBlock := h.nullBlock, null_lt := h.null_lt, stored := h.stored,
            isNull := h.isNull, uncached := h.uncached, holds := hq
            hash_usable := fun b hb => absurd (hunused b) hb
            nonneg := fun b hb => h.nonneg b ⟨hb.1, hb.2.1, fun hs => hb.2.2 (by simp [hs])⟩
            mem_free := by
              intro b
              have hmem := h.mem_free b
              simp only [Config.Usable, List.mem_append, not_or] at hmem ⊢
              constructor
              · intro hb
                obtain ⟨⟨h0, hlt, hs⟩, hr⟩ := hmem.mp (List.mem_of_mem_drop hb)
                exact ⟨⟨h0, hlt, fun ht => hdisj b ht b hb rfl, hs⟩, hr⟩
              · rintro ⟨⟨h0, hlt, ht, hs⟩, hr⟩
                have hb := hmem.mpr ⟨⟨h0, hlt, hs⟩, hr⟩
                rw [← List.take_append_drop n l] at hb
                exact (List.mem_append.mp hb).resolve_left ht }

/-! ## Referencing and freeing -/

theorem Ok.touch (h : Ok cfg p l) (hbs : ∀ b ∈ bs, b = 0 ∨ cfg.Usable b) :
    ∃ p', p.touch bs = .ok p' ∧ Ok cfg p' (l.filter (· ∉ bs)) ∧
      (∀ b, (p'.blocks b).refCnt = (p.blocks b).refCnt + bs.count b) ∧
      (∀ b, (p'.blocks b).blockHash = (p.blocks b).blockHash) := by
  induction bs generalizing p l with
  | nil => exact ⟨p, rfl, by simpa using h, by simp, fun _ => rfl⟩
  | cons b bs ih =>
    -- the queue loses `b` exactly when `b` was free
    obtain ⟨q, hq, hold⟩ : ∃ q, p.touchQueue b = .ok q ∧ q.Holds (l.filter (· ≠ b)) := by
      unfold touchQueue
      by_cases hfree : (p.blocks b).refCnt = 0 ∧ (p.blocks b).isNull = false
      · rw [if_pos hfree]
        have husable := (hbs b List.mem_cons_self).resolve_left (h.isNull_false.mp hfree.2)
        have hb : b ∈ l := (h.mem_free b).mpr ⟨husable, hfree.1⟩
        obtain ⟨q, hrun, hold⟩ := h.holds.remove hb
        rw [h.holds.links.nodup.erase_eq_filter] at hold
        refine ⟨q, hrun, ?_⟩
        convert hold using 2
        funext c
        by_cases hcb : c = b <;> simp [hcb]
      · rw [if_neg hfree]
        refine ⟨_, rfl, ?_⟩
        have hb : b ∉ l := fun hb => hfree ⟨((h.mem_free b).mp hb).2,
          h.isNull_false.mpr ((h.mem_free b).mp hb).1.1⟩
        have hall : l.filter (· ≠ b) = l := by
          rw [List.filter_eq_self]
          intro c hc
          simp only [decide_eq_true_eq]
          rintro rfl
          exact hb hc
        rw [hall]
        exact h.holds
    have hwf : Wf cfg ({ p with freeBlockQueue := q }.addRef b 1) :=
      (h.toWf.withQueue q).addRef (fun hu => by have := h.nonneg b hu; simp only; omega)
    have hok : Ok cfg ({ p with freeBlockQueue := q }.addRef b 1) (l.filter (· ≠ b)) := by
      refine { hwf with holds := hold, mem_free := fun c => ?_ }
      rw [refCnt_addRef, List.mem_filter, h.mem_free]
      by_cases hcb : c = b
      · subst hcb
        simp only [ne_eq, not_true_eq_false, decide_false, Bool.false_eq_true, and_false,
          if_true, false_iff, not_and]
        intro hu
        have := h.nonneg c hu
        omega
      · simp [hcb]
    obtain ⟨p', hrun, hok', href, hhash⟩ := ih hok (fun c hc => hbs c (List.mem_cons_of_mem _ hc))
    refine ⟨p', ?_, ?_, ?_, ?_⟩
    · simp only [BlockPool.touch, hq]
      exact hrun
    · rw [List.filter_filter] at hok'
      convert hok' using 2
      funext c
      by_cases hcb : c = b <;> simp [hcb]
    · intro c
      rw [href]
      by_cases hcb : c = b
      · subst hcb; simp; ring
      · simp [hcb, Ne.symm hcb]
    · intro c
      rw [hhash, blockHash_addRef]

theorem refCnt_foldl_addRef (bs : List Nat) (b : Nat) :
    ((bs.foldl (fun p b => p.addRef b (-1)) p).blocks b).refCnt = (p.blocks b).refCnt - bs.count b := by
  induction bs generalizing p with
  | nil => simp
  | cons c bs ih =>
    rw [List.foldl_cons, ih]
    by_cases hcb : c = b
    · subst hcb; simp; ring
    · simp [hcb, Ne.symm hcb]

theorem freeBlockQueue_foldl_addRef (bs : List Nat) :
    (bs.foldl (fun p b => p.addRef b (-1)) p).freeBlockQueue = p.freeBlockQueue := by
  induction bs generalizing p with
  | nil => rfl
  | cons c bs ih => rw [List.foldl_cons, ih, freeBlockQueue_addRef]

theorem blockHash_foldl_addRef (bs : List Nat) (b : Nat) :
    ((bs.foldl (fun p b => p.addRef b (-1)) p).blocks b).blockHash = (p.blocks b).blockHash := by
  induction bs generalizing p with
  | nil => rfl
  | cons c bs ih => rw [List.foldl_cons, ih, blockHash_addRef]

theorem Wf.foldl_addRef (h : Wf cfg p) (hbs : ∀ b, cfg.Usable b → (bs.count b : Int) ≤ (p.blocks b).refCnt) :
    Wf cfg (bs.foldl (fun p b => p.addRef b (-1)) p) := by
  induction bs generalizing p with
  | nil => exact h
  | cons c bs ih =>
    apply ih
    · apply h.addRef
      intro hu
      have := hbs c hu
      rw [List.count_cons_self] at this
      omega
    · intro b hu
      have := hbs b hu
      by_cases hcb : c = b
      · subst hcb; simp at this ⊢; omega
      · simpa [hcb, Ne.symm hcb] using this

theorem Ok.freeBlocks (h : Ok cfg p l) (hbs : ∀ b ∈ bs, b = 0 ∨ cfg.Usable b) (hnd : (bs.filter (· ≠ 0)).Nodup)
    (href : ∀ b ∈ bs, b ≠ 0 → 0 < (p.blocks b).refCnt) :
    ∃ p', p.freeBlocks bs = .ok p' ∧
      Ok cfg p' (l ++ bs.filter fun b => b ≠ 0 ∧ (p.blocks b).refCnt = 1) ∧
      (∀ b, (p'.blocks b).refCnt = (p.blocks b).refCnt - bs.count b) ∧
      (∀ b, (p'.blocks b).blockHash = (p.blocks b).blockHash) := by
  have hcount : ∀ b, b ≠ 0 → bs.count b ≤ 1 := by
    intro b hb
    have := List.nodup_iff_count_le_one.mp hnd b
    rwa [List.count_filter (by simpa using hb)] at this
  have hwf : Wf cfg (bs.foldl (fun p b => p.addRef b (-1)) p) := by
    apply h.toWf.foldl_addRef
    intro b hu
    by_cases hb : b ∈ bs
    · have := href b hb hu.1
      have := hcount b hu.1
      omega
    · rw [List.count_eq_zero.mpr hb]
      exact h.nonneg b hu
  -- the blocks whose last reference went are those that had exactly one
  have hlist : (bs.filter fun b => ((bs.foldl (fun p b => p.addRef b (-1)) p).blocks b).refCnt = 0 ∧
      ((bs.foldl (fun p b => p.addRef b (-1)) p).blocks b).isNull = false) =
      bs.filter fun b => b ≠ 0 ∧ (p.blocks b).refCnt = 1 := by
    apply List.filter_congr
    intro b hb
    apply decide_eq_decide.mpr
    rw [refCnt_foldl_addRef, hwf.isNull_false]
    constructor
    · rintro ⟨hr, h0⟩
      have := List.count_pos_iff.mpr hb
      have := hcount b h0
      exact ⟨h0, by omega⟩
    · rintro ⟨h0, hr⟩
      have := List.count_pos_iff.mpr hb
      have := hcount b h0
      exact ⟨by omega, h0⟩
  have hndl : (bs.filter fun b => b ≠ 0 ∧ (p.blocks b).refCnt = 1).Nodup := by
    refine List.Nodup.sublist ?_ hnd
    apply List.monotone_filter_right
    intro b hb
    simp only [decide_eq_true_eq] at hb ⊢
    exact hb.1
  obtain ⟨q, hrun, hold⟩ := h.holds.appendN hndl (fun b hb hl => by
    have hr := ((h.mem_free b).mp hl).2
    simp only [List.mem_filter, decide_eq_true_eq] at hb
    omega)
  refine ⟨{ bs.foldl (fun p b => p.addRef b (-1)) p with freeBlockQueue := q }, ?_, ?_, ?_, ?_⟩
  · simp only [BlockPool.freeBlocks, hlist, freeBlockQueue_foldl_addRef, hrun]
    rfl
  · refine { hwf.withQueue q with holds := hold, mem_free := fun b => ?_ }
    rw [refCnt_foldl_addRef, List.mem_append, h.mem_free, List.mem_filter, decide_eq_true_eq]
    by_cases hb : b ∈ bs
    · have hpos := List.count_pos_iff.mpr hb
      constructor
      · rintro (⟨hu, hr⟩ | ⟨-, h0, hr⟩)
        · have := href b hb hu.1
          omega
        · have := hcount b h0
          exact ⟨(hbs b hb).resolve_left h0, by omega⟩
      · rintro ⟨hu, hr⟩
        have := hcount b hu.1
        exact Or.inr ⟨hb, hu.1, by omega⟩
    · simp [hb, List.count_eq_zero.mpr hb]
  · exact refCnt_foldl_addRef bs
  · exact blockHash_foldl_addRef bs

end

/-! ## Caching full blocks -/

theorem Ok.cacheLoop (h : Ok cfg p l) (hcaching : cfg.enableCaching = true) {keys : List κ}
    (hlen : bs.length ≤ keys.length) (hbs : ∀ b ∈ bs, b = 0 ∨ cfg.Usable b) (hnd : (bs.filter (· ≠ 0)).Nodup)
    (hnone : ∀ b ∈ bs, b ≠ 0 → (p.blocks b).blockHash = none) :
    ∃ p', p.cacheLoop bs keys = .ok p' ∧ Ok cfg p' l ∧ (∀ b, (p'.blocks b).refCnt = (p.blocks b).refCnt) ∧
      (∀ b, b ∉ bs ∨ b = 0 → (p'.blocks b).blockHash = (p.blocks b).blockHash) ∧
      (∀ (i b : Nat) (key : κ), b ≠ 0 → bs[i]? = some b → keys[i]? = some key →
        (p'.blocks b).blockHash = some key) := by
  induction bs generalizing p keys with
  | nil => exact ⟨p, rfl, h, fun _ => rfl, fun _ _ => rfl, by simp⟩
  | cons b bs ih =>
    obtain ⟨key, keys, rfl⟩ : ∃ key ks, keys = key :: ks := by
      cases keys with
      | nil => simp at hlen
      | cons key ks => exact ⟨key, ks, rfl⟩
    have hlen' : bs.length ≤ keys.length := by simpa using hlen
    have hbs' : ∀ c ∈ bs, c = 0 ∨ cfg.Usable c := fun c hc => hbs c (List.mem_cons_of_mem _ hc)
    by_cases h0 : b = 0
    · -- the null block is skipped
      subst h0
      obtain ⟨p', hrun, hok, href, hout, hin⟩ := ih h hlen' hbs' hnd
        (fun c hc => hnone c (List.mem_cons_of_mem _ hc))
      refine ⟨p', ?_, hok, href, ?_, ?_⟩
      · simpa [BlockPool.cacheLoop, (h.isNull 0).mpr rfl] using hrun
      · rintro c (hc | hc)
        · exact hout c (Or.inl fun hc' => hc (List.mem_cons_of_mem _ hc'))
        · exact hout c (Or.inr hc)
      · intro i c k hc hi hk
        cases i with
        | zero =>
          simp only [List.getElem?_cons_zero, Option.some.injEq] at hi
          exact absurd hi.symm hc
        | succ i => exact hin i c k hc (by simpa using hi) (by simpa using hk)
    · have hnull : (p.blocks b).isNull = false := h.isNull_false.mpr h0
      have hbnone := hnone b List.mem_cons_self h0
      have husable := (hbs b List.mem_cons_self).resolve_left h0
      rw [List.filter_cons_of_pos (by simpa using h0), List.nodup_cons] at hnd
      have hb : b ∉ bs := fun hb => hnd.1 (List.mem_filter.mpr ⟨hb, by simpa using h0⟩)
      let p₁ : BlockPool κ :=
        { p.modify b (fun blk => { blk with blockHash := some key }) with
          cachedBlockHashToBlock := p.cachedBlockHashToBlock.insert key b }
      have href₁ : ∀ c, (p₁.blocks c).refCnt = (p.blocks c).refCnt := by
        intro c
        by_cases hc : c = b <;> simp [p₁, blocks_modify, hc]
      have hhash₁ : ∀ c, (p₁.blocks c).blockHash =
          if c = b then some key else (p.blocks c).blockHash := by
        intro c
        by_cases hc : c = b <;> simp [p₁, blocks_modify, hc]
      have hok₁ : Ok cfg p₁ l := by
        constructor
        case holds => exact h.holds
        case mem_free => intro c; rw [href₁]; exact h.mem_free c
        case toWf =>
          constructor
          case numGpuBlocks => exact h.numGpuBlocks
          case enableCaching => exact h.enableCaching
          case nullBlock => exact h.nullBlock
          case null_lt => exact h.null_lt
          case stored =>
            intro k c
            rw [hhash₁]
            rw [BlockHashToBlockMap.mem_stored_insert, h.stored]
            by_cases hc : c = b
            · subst hc
              simp [hbnone, eq_comm]
            · simp [hc]
          case isNull =>
            intro c
            rw [← h.isNull c]
            by_cases hc : c = b <;> simp [p₁, blocks_modify, hc]
          case hash_usable =>
            intro c
            rw [hhash₁]
            by_cases hc : c = b
            · subst hc; exact fun _ => husable
            · simpa [hc] using h.hash_usable c
          case uncached =>
            intro hoff
            rw [hcaching] at hoff
            cases hoff
          case nonneg => intro c hc; rw [href₁]; exact h.nonneg c hc
      obtain ⟨p', hrun, hok, href, hout, hin⟩ := ih hok₁ hlen' hbs' hnd.2 (fun c hc hc0 => by
        have hcb : c ≠ b := fun e => hb (e ▸ hc)
        rw [hhash₁, if_neg hcb]
        exact hnone c (List.mem_cons_of_mem _ hc) hc0)
      refine ⟨p', ?_, hok, fun c => by rw [href, href₁], ?_, ?_⟩
      · simp only [BlockPool.cacheLoop, hnull, hbnone, decide_true]
        exact hrun
      · intro c hc
        have hcb : c ≠ b := by
          rintro rfl
          rcases hc with hc | hc
          · exact hc List.mem_cons_self
          · exact h0 hc
        rw [hout c (hc.imp_left fun hc hc' => hc (List.mem_cons_of_mem _ hc')), hhash₁,
          if_neg hcb]
      · intro i c k hc0 hi hk
        cases i with
        | zero =>
          simp only [List.getElem?_cons_zero, Option.some.injEq] at hi hk
          subst hi hk
          rw [hout b (Or.inl hb), hhash₁, if_pos rfl]
        | succ i => exact hin i c k hc0 (by simpa using hi) (by simpa using hk)

/-! ## Start-up -/

omit [DecidableEq κ] in
theorem ok_init (κ : Type) {n : Nat} (hn : 0 < n) (enableCaching : Bool) :
    ∃ p : BlockPool κ, init n enableCaching = .ok p ∧ Ok ⟨n, enableCaching, []⟩ p ((List.range n).drop 1) ∧
      ∀ b, (p.blocks b).refCnt = 0 ∧ (p.blocks b).blockHash = none := by
  obtain ⟨m, rfl⟩ : ∃ m, n = m + 1 := ⟨n - 1, by omega⟩
  have hrange : List.range (m + 1) = 0 :: (List.range (m + 1)).drop 1 := by
    rw [List.range_succ_eq_map]
    rfl
  have hinit := FreeKVCacheBlockQueue.holds_init (List.nodup_range (n := m + 1))
  rw [hrange] at hinit
  obtain ⟨q, hpop, hold⟩ := hinit.popleft
  have hblk : ∀ b, (((⟨m + 1, enableCaching, fun _ => {}, q, .init, 0⟩ : BlockPool κ).modify 0
      fun blk => { blk with isNull := true }).blocks b).refCnt = 0 ∧
      (((⟨m + 1, enableCaching, fun _ => {}, q, .init, 0⟩ : BlockPool κ).modify 0
      fun blk => { blk with isNull := true }).blocks b).blockHash = none := by
    intro b
    by_cases hb : b = 0 <;> simp [blocks_modify, hb]
  refine ⟨(⟨m + 1, enableCaching, fun _ => {}, q, .init, 0⟩ : BlockPool κ).modify 0
    fun blk => { blk with isNull := true }, ?_, ?_, hblk⟩
  · rw [← hrange] at hpop
    simp [init, hpop, bind, Except.bind, pure, Except.pure]
  · constructor
    case holds => exact hold
    case mem_free =>
      intro b
      rw [(hblk b).1]
      have hmem : b ∈ List.range (m + 1) ↔ b = 0 ∨ b ∈ (List.range (m + 1)).drop 1 := by
        conv_lhs => rw [hrange]
        exact List.mem_cons
      have hnd := List.nodup_range (n := m + 1)
      rw [hrange, List.nodup_cons] at hnd
      rw [List.mem_range] at hmem
      simp only [Config.Usable, List.not_mem_nil, not_false_eq_true, and_true]
      constructor
      · intro hb
        exact ⟨fun h0 => hnd.1 (h0 ▸ hb), hmem.mpr (Or.inr hb)⟩
      · rintro ⟨h0, hlt⟩
        exact (hmem.mp hlt).resolve_left h0
    case toWf =>
      constructor
      case numGpuBlocks => rfl
      case enableCaching => rfl
      case nullBlock => rfl
      case null_lt => exact Nat.succ_pos m
      case stored => intro key b; rw [(hblk b).2]; simp [modify]
      case isNull => intro b; by_cases hb : b = 0 <;> simp [blocks_modify, hb]
      case hash_usable => intro b hb; exact absurd (hblk b).2 hb
      case uncached => intro _ b; exact (hblk b).2
      case nonneg => intro b _; rw [(hblk b).1]

end Specs

end BlockPool
end Yuan.Core
