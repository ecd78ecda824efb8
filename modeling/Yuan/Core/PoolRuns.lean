import Yuan.Core.BlockTables

/-!
# Runs of the block pool

The managers issue seven operations on the pool, in any order and for any number of rows. `Reachable`
collects the states of all such runs, from start-up on. Every operation keeps `KVState.Ok` and, when
its precondition holds, returns: none of the pool's assertions can fail in a run.
-/

namespace Yuan.Core.PoolRuns

variable {κ ρ : Type} [DecidableEq κ] [DecidableEq ρ] {sinkBlocks : List Nat} {s : KVState κ ρ}

/-- What a manager asks of the pool. -/
inductive Op (κ ρ : Type) where
  | getNewBlocks (r : ρ) (numBlocks : Nat)
  | touch (r : ρ) (numSkippedBlocks : Nat) (newComputedBlocks : List Nat)
  | cacheFullBlocks (r : ρ) (numBlockHashes numFullBlocks : Nat) (blockHashes : List κ)
  | freeBlocks (r : ρ)
  | removeSkippedBlocks (r : ρ) (numSkippedBlocks : Nat)
  | evictBlocks (blockIds : List Nat)
  | resetPrefixCache

/-- One operation. -/
def step (s : KVState κ ρ) : Op κ ρ → Except PyError (KVState κ ρ)
  | .getNewBlocks r numBlocks => do
    let (_, s) ← s.appendNewBlocks r numBlocks
    return s
  | .touch r numSkippedBlocks newComputedBlocks =>
    s.addComputedBlocks r numSkippedBlocks newComputedBlocks
  | .cacheFullBlocks r numBlockHashes numFullBlocks blockHashes =>
    s.cacheBlocks r numBlockHashes numFullBlocks blockHashes
  | .freeBlocks r => s.free r
  | .removeSkippedBlocks r numSkippedBlocks => s.removeSkippedBlocks r numSkippedBlocks
  | .evictBlocks blockIds => s.evictBlocks blockIds
  | .resetPrefixCache => .ok s.resetPrefixCache.2

/-- The sink managers take their blocks one after the other. -/
def popSinks (pool : BlockPool κ) (sinkBlocks : List Nat) :
    List Nat → Except PyError (List Nat × BlockPool κ)
  | [] => .ok (sinkBlocks, pool)
  | numSinkBlock :: rest => do
    let (blocks, pool) ← pool.popSinkBlocks numSinkBlock
    popSinks pool (blocks ++ sinkBlocks) rest

/-- Start-up: a pool, from which each sink manager takes its blocks, and empty tables. -/
def start (numGpuBlocks : Nat) (enableCaching : Bool) (numSinkBlocks : List Nat) :
    Except PyError (List Nat × KVState κ ρ) := do
  let pool ← BlockPool.init numGpuBlocks enableCaching
  let (sinkBlocks, pool) ← popSinks pool [] numSinkBlocks
  return (sinkBlocks, ⟨pool, .empty, .empty⟩)

/-- Blocks a prefix-cache lookup returned: null blocks, and blocks requests can hold, each at most
once. They may have lost their hash since the lookup. -/
def ComputedBlocks (sinkBlocks : List Nat) (s : KVState κ ρ) (blocks : List Nat) : Prop :=
  (∀ b ∈ blocks, b ≠ s.pool.nullBlock → b < s.pool.numGpuBlocks ∧ b ∉ sinkBlocks) ∧
    (blocks.filter (· ≠ s.pool.nullBlock)).Nodup

/-- What the callers of an operation see to. -/
def Enabled (sinkBlocks : List Nat) (s : KVState κ ρ) : Op κ ρ → Prop
  | .getNewBlocks _ numBlocks => numBlocks ≤ s.pool.getNumFreeBlocks
  | .touch r _ newComputedBlocks =>
    -- a new request, as `allocate_new_computed_blocks` asserts
    s.blocksOf r = [] ∧ (s.pool.enableCaching = true ∨ newComputedBlocks = []) ∧
      ComputedBlocks sinkBlocks s newComputedBlocks
  | .cacheFullBlocks _ numBlockHashes numFullBlocks blockHashes =>
    s.pool.enableCaching = true ∧ numFullBlocks ≤ numBlockHashes ∧
      numFullBlocks ≤ blockHashes.length
  | .freeBlocks _ => True
  | .removeSkippedBlocks _ _ => True
  | .evictBlocks blockIds => ∀ b ∈ blockIds, b < s.pool.numGpuBlocks
  | .resetPrefixCache => True

/-- The states of all runs, with the sink blocks of the run. -/
inductive Reachable (sinkBlocks : List Nat) : KVState κ ρ → Prop where
  | start {numGpuBlocks : Nat} {enableCaching : Bool} {numSinkBlocks : List Nat} {s : KVState κ ρ}
      (h : start numGpuBlocks enableCaching numSinkBlocks = .ok (sinkBlocks, s)) :
      Reachable sinkBlocks s
  | step {s s' : KVState κ ρ} {op : Op κ ρ} (h : Reachable sinkBlocks s)
      (henabled : Enabled sinkBlocks s op) (hstep : step s op = .ok s') : Reachable sinkBlocks s'

/-! ## The invariant of runs -/

omit [DecidableEq κ] in
theorem ok_popSinks (cfg : BlockPool.Config) {p p' : BlockPool κ} {l : List Nat} {counts : List Nat} (h : p.Ok cfg l)
    (hunused : ∀ b, (p.blocks b).refCnt = 0 ∧ (p.blocks b).blockHash = none)
    (hrun : popSinks p cfg.sinkBlocks counts = .ok (sinkBlocks, p')) :
    (∃ l', p'.Ok { cfg with sinkBlocks := sinkBlocks } l') ∧
      ∀ b, (p'.blocks b).refCnt = 0 ∧ (p'.blocks b).blockHash = none := by
  induction counts generalizing cfg p l with
  | nil =>
    simp only [popSinks, Except.ok.injEq, Prod.mk.injEq] at hrun
    obtain ⟨rfl, rfl⟩ := hrun
    exact ⟨⟨l, h⟩, hunused⟩
  | cons n counts ih =>
    simp only [popSinks] at hrun
    obtain ⟨⟨blocks, p₁⟩, hpop, hrest⟩ := bind_eq_ok.mp hrun
    have hn : n ≤ l.length := by
      obtain ⟨⟨_, q⟩, hq, -⟩ := bind_eq_ok.mp hpop
      have := FreeKVCacheBlockQueue.le_of_popleftN hq
      rw [h.holds.count] at this
      omega
    obtain ⟨p₁', hpop', hok, hblocks⟩ := h.popSinkBlocks hn (fun b => (hunused b).2)
    rw [hpop, Except.ok.injEq, Prod.mk.injEq] at hpop'
    obtain ⟨rfl, rfl⟩ := hpop'
    exact ih { cfg with sinkBlocks := l.take n ++ cfg.sinkBlocks } hok (by rw [hblocks]; exact hunused) hrest

omit [DecidableEq κ] in
theorem start_spec {n : Nat} {enableCaching : Bool} {counts : List Nat}
    (h : start n enableCaching counts = .ok (sinkBlocks, s)) :
    (∃ l, s.Ok ⟨n, enableCaching, sinkBlocks⟩ l) ∧ ∀ b, (s.pool.blocks b).blockHash = none := by
  obtain ⟨p, hinit, hrest⟩ := bind_eq_ok.mp h
  have hn : 0 < n := by
    obtain ⟨u, hassert, -⟩ := bind_eq_ok.mp hinit
    simpa using pyAssert_eq_ok.mp hassert
  obtain ⟨p₀, hinit', hok, hunused⟩ := BlockPool.ok_init κ hn enableCaching
  obtain rfl : p = p₀ := Except.ok.inj (hinit.symm.trans hinit')
  obtain ⟨⟨sinks, p'⟩, hpop, hs⟩ := bind_eq_ok.mp hrest
  simp only [pure, Except.pure, Except.ok.injEq, Prod.mk.injEq] at hs
  obtain ⟨rfl, rfl⟩ := hs
  obtain ⟨⟨l, hl⟩, hunused'⟩ := ok_popSinks ⟨n, enableCaching, []⟩ hok hunused hpop
  refine ⟨⟨l, ⟨hl, fun b _ => ?_, fun r b hb => ?_, fun r => ?_, fun b _ => ?_, fun b hb => ?_⟩⟩,
    fun b => (hunused' b).2⟩
  · simp [(hunused' b).1, KVState.occurrences]
  · simp [KVState.blocksOf] at hb
  · simp [KVState.blocksOf]
  · simp [KVState.uncached]
  · exact absurd (hunused' b).2 hb

omit [DecidableEq κ] in
theorem ok_start {n : Nat} {enableCaching : Bool} {counts : List Nat}
    (h : start n enableCaching counts = .ok (sinkBlocks, s)) : ∃ l, s.Ok ⟨n, enableCaching, sinkBlocks⟩ l :=
  (start_spec h).1

/-- Under its precondition an operation returns, in a state in order again. -/
theorem step_ok {cfg : BlockPool.Config} {l : List Nat} (h : s.Ok cfg l) {op : Op κ ρ}
    (henabled : Enabled cfg.sinkBlocks s op) : ∃ s', step s op = .ok s' ∧ ∃ l', s'.Ok cfg l' := by
  cases op with
  | getNewBlocks r n =>
    simp only [Enabled, h.pool.getNumFreeBlocks, Nat.cast_le] at henabled
    obtain ⟨s', hrun, hok, -⟩ := h.appendNewBlocks (r := r) henabled
    exact ⟨s', by simp only [step, hrun]; rfl, _, hok⟩
  | touch r n hits =>
    obtain ⟨hnil, hcaching, hvalid, hnd⟩ := henabled
    rw [h.pool.enableCaching] at hcaching
    rw [h.pool.nullBlock] at hvalid hnd
    rw [h.pool.numGpuBlocks] at hvalid
    obtain ⟨s', hrun, hok, -⟩ := h.addComputedBlocks hnil n (fun b hb => by
      by_cases h0 : b = 0
      · exact Or.inl h0
      · exact Or.inr ⟨h0, hvalid b hb h0⟩) hnd hcaching
    exact ⟨s', hrun, _, hok⟩
  | cacheFullBlocks r nh n hashes =>
    obtain ⟨hcaching, hnum, hlen⟩ := henabled
    rw [h.pool.enableCaching] at hcaching
    obtain ⟨s', hrun, hok, -⟩ := h.cacheBlocks (r := r) hcaching hnum hlen
    exact ⟨s', hrun, _, hok⟩
  | freeBlocks r =>
    obtain ⟨s', hrun, hok, -⟩ := h.free r
    exact ⟨s', hrun, _, hok⟩
  | removeSkippedBlocks r n =>
    obtain ⟨s', _, hrun, hok, -⟩ := h.removeSkippedBlocks r n
    exact ⟨s', hrun, _, hok⟩
  | evictBlocks ids =>
    simp only [Enabled, h.pool.numGpuBlocks] at henabled
    obtain ⟨s', hrun, hok⟩ := h.evictBlocks henabled
    exact ⟨s', hrun, _, hok⟩
  | resetPrefixCache => exact ⟨_, rfl, l, h.resetPrefixCache⟩

theorem Reachable.ok (h : Reachable sinkBlocks s) : ∃ cfg l, cfg.sinkBlocks = sinkBlocks ∧ s.Ok cfg l := by
  induction h with
  | start h =>
    obtain ⟨l, hok⟩ := ok_start h
    exact ⟨_, l, rfl, hok⟩
  | step _ henabled hstep ih =>
    obtain ⟨cfg, l, hsinks, hok⟩ := ih
    rw [← hsinks] at henabled
    obtain ⟨s'', hrun, l', hok'⟩ := step_ok hok henabled
    rw [hstep, Except.ok.injEq] at hrun
    subst hrun
    exact ⟨cfg, l', hsinks, hok'⟩

/-! ## What holds in every reachable state -/

/-- The free queue, the reference counts, the hash map and the tables agree. -/
structure PoolInvariant (sinkBlocks : List Nat) (s : KVState κ ρ) : Prop where
  /-- Walking the free queue from the fake head to the fake tail meets exactly the blocks without
  references that are neither the null block nor a sink block, each once. -/
  free_queue : ∃ l : List Nat, l.Nodup ∧ s.pool.freeBlockQueue.numFreeBlocks = l.length ∧
    (∀ fuel, l.length < fuel →
      s.pool.freeBlockQueue.getAllFreeBlocks fuel = .ok (l.map .elem)) ∧
    ∀ b, b ∈ l ↔ b < s.pool.numGpuBlocks ∧ (s.pool.blocks b).isNull = false ∧ b ∉ sinkBlocks ∧
      (s.pool.blocks b).refCnt = 0
  /-- References count occurrences in the tables. -/
  ref_cnt : ∀ b, (s.pool.blocks b).isNull = false →
    (s.pool.blocks b).refCnt = s.occurrences b
  /-- A block is stored under its hash, and only there. -/
  cached : ∀ key b, b ∈ s.pool.cachedBlockHashToBlock.stored key ↔
    (s.pool.blocks b).blockHash = some key
  /-- One block is the null block, and it is never cached. -/
  null_block : ∀ b, (s.pool.blocks b).isNull = true ↔ b = s.pool.nullBlock
  null_not_cached : ∀ key, s.pool.nullBlock ∉ s.pool.cachedBlockHashToBlock.stored key

omit [DecidableEq κ] in
theorem poolInvariant_of_ok {cfg : BlockPool.Config} {l : List Nat} (h : s.Ok cfg l) :
    PoolInvariant cfg.sinkBlocks s where
  free_queue := by
    refine ⟨l, h.pool.holds.links.nodup, h.pool.holds.count,
      fun fuel => h.pool.holds.getAllFreeBlocks, fun b => ?_⟩
    rw [h.pool.mem_free, BlockPool.Config.Usable, h.pool.isNull_false, h.pool.numGpuBlocks]
    constructor
    · rintro ⟨⟨h0, hlt, hs⟩, hr⟩
      exact ⟨hlt, h0, hs, hr⟩
    · rintro ⟨hlt, h0, hs, hr⟩
      exact ⟨⟨h0, hlt, hs⟩, hr⟩
  ref_cnt b hb := h.refs b (h.pool.isNull_false.mp hb)
  cached := h.pool.stored
  null_block b := by rw [h.pool.isNull, h.pool.nullBlock]
  null_not_cached key hmem := by
    rw [h.pool.nullBlock, h.pool.stored] at hmem
    exact (h.pool.hash_usable 0 (by rw [hmem]; simp)).1 rfl

/-- In every reachable state the pool's invariant holds, and every operation whose precondition holds
returns. -/
theorem blockPool_invariant {sinkBlocks : List Nat} {s : KVState κ ρ} (h : Reachable sinkBlocks s) :
    PoolInvariant sinkBlocks s ∧ ∀ op : Op κ ρ, Enabled sinkBlocks s op → ∃ s', step s op = .ok s' := by
  obtain ⟨cfg, l, rfl, hok⟩ := h.ok
  refine ⟨poolInvariant_of_ok hok, fun op henabled => ?_⟩
  obtain ⟨s', hrun, -⟩ := step_ok hok henabled
  exact ⟨s', hrun⟩

/-- A run with a sink block, in which a row takes two blocks. -/
theorem blockPool_invariant_two_blocks : ∃ s s' : KVState Nat Nat,
    start 5 true [1] = .ok ([1], s) ∧ step s (.getNewBlocks 7 2) = .ok s' ∧
      PoolInvariant [1] s' ∧ ∀ op : Op Nat Nat, Enabled [1] s' op → ∃ s'', step s' op = .ok s'' := by
  obtain ⟨s, hs, hfree⟩ : ∃ s : KVState Nat Nat,
      start 5 true [1] = .ok ([1], s) ∧ s.pool.getNumFreeBlocks = 3 := ⟨_, rfl, rfl⟩
  have hreach : Reachable [1] s := .start hs
  have henabled : Enabled [1] s (Op.getNewBlocks 7 2) := by
    rw [Enabled, hfree]
    decide
  obtain ⟨s', hstep⟩ := (blockPool_invariant hreach).2 _ henabled
  exact ⟨s, s', hs, hstep, blockPool_invariant (.step hreach henabled hstep)⟩

end Yuan.Core.PoolRuns
