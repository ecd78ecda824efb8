import Yuan.Core.BlockPool
import Yuan.Lib.Dict
import Mathlib.Algebra.Order.BigOperators.Group.List

/-!
# The block tables of the single-type managers

Every single-type manager keeps two dictionaries, `req_to_blocks` and `num_cached_block`, next to
the block pool it shares with the others. A *row* is a request in one manager; the dictionaries of
all managers are one dictionary over rows here.

The methods that touch the pool are defined first. `KVState.Ok` then says what they keep: the pool
is in order, reference counts count occurrences in the tables, and a block is waiting for its hash
in one place only. All methods replace one row, so they share one rule, `Ok.update`. The invariant
of whole runs is at the end.
-/

namespace Yuan.Core

/-- The block pool, with the tables of all managers. -/
structure KVState (κ ρ : Type) where
  pool : BlockPool κ
  reqToBlocks : Dict ρ (List Nat)
  numCachedBlock : Dict ρ Nat

namespace KVState

variable {κ ρ : Type} [DecidableEq ρ]

/-- `req_to_blocks[request_id]`, with the default of a `defaultdict(list)`. -/
def blocksOf (s : KVState κ ρ) (r : ρ) : List Nat := (s.reqToBlocks.get? r).getD []

/-- `num_cached_block.get(request_id, 0)`. -/
def cachedOf (s : KVState κ ρ) (r : ρ) : Nat := (s.numCachedBlock.get? r).getD 0

section Methods

variable [DecidableEq κ]

/-- Take new blocks from the pool and append them to a row. -/
def appendNewBlocks (s : KVState κ ρ) (r : ρ) (numNewBlocks : Int) :
    Except PyError (List Nat × KVState κ ρ) := do
  let (newBlocks, pool) ← s.pool.getNewBlocks numNewBlocks
  return (newBlocks, { s with pool, reqToBlocks := s.reqToBlocks.set r (s.blocksOf r ++ newBlocks) })

omit [DecidableEq κ] [DecidableEq ρ] in
/-- Touch the computed blocks, so that they are not evicted. -/
def touchComputed (s : KVState κ ρ) (newComputedBlocks : List Nat) :
    Except PyError (BlockPool κ) :=
  if s.pool.enableCaching then s.pool.touch newComputedBlocks
  else if newComputedBlocks.isEmpty then .ok s.pool
  else .error (.assertionError "Computed blocks should be empty when prefix caching is disabled")

omit [DecidableEq κ] in
/-- Start a row with cache hits: touch them, and pad the skipped blocks before them with the null
block. All of them count as cached. -/
def addComputedBlocks (s : KVState κ ρ) (r : ρ) (numSkippedBlocks : Nat)
    (newComputedBlocks : List Nat) : Except PyError (KVState κ ρ) := do
  let pool ← s.touchComputed newComputedBlocks
  let reqBlocks :=
    s.blocksOf r ++ List.replicate numSkippedBlocks s.pool.nullBlock ++ newComputedBlocks
  return { pool, reqToBlocks := s.reqToBlocks.set r reqBlocks
           numCachedBlock := s.numCachedBlock.set r reqBlocks.length }

/-- Cache the full blocks of a row that are not cached yet. -/
def cacheBlocks (s : KVState κ ρ) (r : ρ) (numBlockHashes numFullBlocks : Nat)
    (blockHashes : List κ) : Except PyError (KVState κ ρ) := do
  if s.cachedOf r ≥ numFullBlocks then return s
  let pool ← s.pool.cacheFullBlocks numBlockHashes (s.blocksOf r) (s.cachedOf r) numFullBlocks
    blockHashes
  return { s with pool, numCachedBlock := s.numCachedBlock.set r numFullBlocks }

omit [DecidableEq κ] in
/-- Free a row; the tail blocks are freed first. -/
def free (s : KVState κ ρ) (r : ρ) : Except PyError (KVState κ ρ) := do
  let pool ← s.pool.freeBlocks (s.blocksOf r).reverse
  return { pool, reqToBlocks := s.reqToBlocks.erase r, numCachedBlock := s.numCachedBlock.erase r }

/-- The loop of `remove_skipped_blocks`: replace the first `n` blocks by the null block, from right
to left, up to the first one that is null already. -/
def nullOut (nullBlock : Nat) : Nat → List Nat → List Nat × List Nat
  | 0, blocks => ([], blocks)
  | i + 1, blocks =>
    match blocks[i]? with
    | none => ([], blocks)
    | some b =>
      -- the blocks before a null block were set to null by previous calls
      if b = nullBlock then ([], blocks)
      else
        let (removedBlocks, blocks') := nullOut nullBlock i (blocks.set i nullBlock)
        (b :: removedBlocks, blocks')

omit [DecidableEq κ] in
/-- Free the first `num_skipped_blocks` blocks of a row, leaving null blocks in their place. -/
def removeSkippedBlocks (s : KVState κ ρ) (r : ρ) (numSkippedBlocks : Nat) :
    Except PyError (KVState κ ρ) := do
  let blocks := s.blocksOf r
  let (removedBlocks, blocks) := nullOut s.pool.nullBlock (min numSkippedBlocks blocks.length) blocks
  let pool ← s.pool.freeBlocks removedBlocks
  return { s with pool, reqToBlocks := s.reqToBlocks.set r blocks }

/-- Evict blocks from the prefix cache. -/
def evictBlocks (s : KVState κ ρ) (blockIds : List Nat) : Except PyError (KVState κ ρ) := do
  let pool ← s.pool.evictBlocks blockIds
  return { s with pool }

omit [DecidableEq κ] in
/-- Forget all hashes, unless some block is in use. -/
def resetPrefixCache (s : KVState κ ρ) : Bool × KVState κ ρ :=
  (s.pool.resetPrefixCache.1, { s with pool := s.pool.resetPrefixCache.2 })

end Methods

/-! ## Counting occurrences -/

omit [DecidableEq ρ] in
/-- How often a block occurs over all rows. -/
def occurrences (s : KVState κ ρ) (b : Nat) : Nat := s.reqToBlocks.sum fun _ bs => bs.count b

/-- How often a block occurs behind the cached blocks of its row, waiting for its hash. -/
def uncached (s : KVState κ ρ) (b : Nat) : Nat :=
  s.reqToBlocks.sum fun r bs => (bs.drop (s.cachedOf r)).count b

/-- The occurrences of a block outside one row. -/
def occurrencesBut (s : KVState κ ρ) (r : ρ) (b : Nat) : Nat :=
  (s.reqToBlocks.erase r).sum fun _ bs => bs.count b

/-- The occurrences waiting for a hash outside one row. -/
def uncachedBut (s : KVState κ ρ) (r : ρ) (b : Nat) : Nat :=
  (s.reqToBlocks.erase r).sum fun r' bs => (bs.drop (s.cachedOf r')).count b

variable {s s' : KVState κ ρ} {r : ρ} {bs : List Nat} {b : Nat} {pool : BlockPool κ}

theorem occurrences_eq (s : KVState κ ρ) (r : ρ) (b : Nat) :
    s.occurrences b = s.occurrencesBut r b + (s.blocksOf r).count b :=
  (Dict.sum_erase_getD s.reqToBlocks r [] (fun _ bs => bs.count b) (by simp)).symm

theorem uncached_eq (s : KVState κ ρ) (r : ρ) (b : Nat) :
    s.uncached b = s.uncachedBut r b + ((s.blocksOf r).drop (s.cachedOf r)).count b :=
  (Dict.sum_erase_getD s.reqToBlocks r [] (fun r' bs => (bs.drop (s.cachedOf r')).count b)
    (by simp)).symm

theorem blocksOf_eq_of_mem (h : (r, bs) ∈ s.reqToBlocks.entries) : s.blocksOf r = bs := by
  rw [blocksOf, Dict.get?_eq_some.mpr h]
  rfl

/-- Only row `r` differs between two states. -/
structure OnlyRow (r : ρ) (s s' : KVState κ ρ) : Prop where
  reqToBlocks : s'.reqToBlocks.erase r = s.reqToBlocks.erase r
  numCachedBlock : ∀ r', r' ≠ r → s'.cachedOf r' = s.cachedOf r'

namespace OnlyRow

theorem occurrencesBut (h : OnlyRow r s s') (b : Nat) : s'.occurrencesBut r b = s.occurrencesBut r b := by
  unfold KVState.occurrencesBut
  rw [h.reqToBlocks]

theorem uncachedBut (h : OnlyRow r s s') (b : Nat) : s'.uncachedBut r b = s.uncachedBut r b := by
  unfold KVState.uncachedBut
  rw [h.reqToBlocks]
  apply Dict.sum_congr
  intro r' bs hmem
  rw [h.numCachedBlock r' (Dict.mem_erase.mp hmem).1]

theorem blocksOf (h : OnlyRow r s s') {r' : ρ} (hr : r' ≠ r) : s'.blocksOf r' = s.blocksOf r' := by
  unfold KVState.blocksOf
  rw [← Dict.get?_erase_of_ne s'.reqToBlocks hr, h.reqToBlocks, Dict.get?_erase_of_ne _ hr]

theorem trans {s'' : KVState κ ρ} (h : OnlyRow r s s') (h' : OnlyRow r s' s'') : OnlyRow r s s'' :=
  ⟨h'.reqToBlocks.trans h.reqToBlocks, fun r' hr =>
    (h'.numCachedBlock r' hr).trans (h.numCachedBlock r' hr)⟩

end OnlyRow

/-! ## The invariant -/

/-- The pool is in order, with free list `l`; a row holds usable blocks, each at most once, next to
null blocks; references are occurrences; and a block waits for its hash in at most one place, where
it has none yet. -/
structure Ok (cfg : BlockPool.Config) (s : KVState κ ρ) (l : List Nat) : Prop where
  pool : s.pool.Ok cfg l
  refs : ∀ b, b ≠ 0 → (s.pool.blocks b).refCnt = s.occurrences b
  usable : ∀ r, ∀ b ∈ s.blocksOf r, b = 0 ∨ cfg.Usable b
  nodup : ∀ r, ((s.blocksOf r).filter (· ≠ 0)).Nodup
  fresh : ∀ b, b ≠ 0 → s.uncached b ≤ 1
  fresh_hash : ∀ b, (s.pool.blocks b).blockHash ≠ none → s.uncached b = 0

variable {cfg : BlockPool.Config} {l l' : List Nat}

/-- A block occurs at most once in a row. -/
theorem count_le_one (h : (bs.filter (· ≠ 0)).Nodup) (hb : b ≠ 0) : bs.count b ≤ 1 := by
  have := List.nodup_iff_count_le_one.mp h b
  rwa [List.count_filter (by simpa using hb)] at this

theorem nodup_of_count (h : ∀ b, b ≠ 0 → bs.count b ≤ 1) : (bs.filter (· ≠ 0)).Nodup := by
  rw [List.nodup_iff_count_le_one]
  intro b
  by_cases hb : b = 0
  · subst hb
    rw [List.count_eq_zero.mpr (by simp)]
    exact Nat.zero_le 1
  · rw [List.count_filter (by simpa using hb)]
    exact h b hb

/-- Free blocks stand in no row. -/
theorem Ok.occurrences_of_free (h : Ok cfg s l) (hb : b ∈ l) : s.occurrences b = 0 := by
  obtain ⟨hu, hr⟩ := (h.pool.mem_free b).mp hb
  have := h.refs b hu.1
  omega

theorem uncached_le_occurrences (b : Nat) (r : ρ) :
    ((s.blocksOf r).drop (s.cachedOf r)).count b ≤ (s.blocksOf r).count b :=
  (List.drop_sublist _ _).count_le b

theorem blocksOf_count_le (b : Nat) (r : ρ) : (s.blocksOf r).count b ≤ s.occurrences b := by
  rw [occurrences_eq s r b]
  exact Nat.le_add_left _ _

/-- A block occurs where some row holds it. -/
theorem occurrences_pos : 0 < s.occurrences b ↔ ∃ r, b ∈ s.blocksOf r := by
  constructor
  · intro hpos
    by_contra hnone
    have hzero : s.occurrences b = 0 := by
      unfold occurrences Dict.sum
      rw [List.sum_eq_zero_iff]
      intro n hn
      obtain ⟨⟨r, bs⟩, hmem, rfl⟩ := List.mem_map.mp hn
      rw [List.count_eq_zero]
      intro hb
      exact hnone ⟨r, by rwa [blocksOf_eq_of_mem hmem]⟩
    omega
  · rintro ⟨r, hb⟩
    have hle := blocksOf_count_le (s := s) b r
    have hpos := List.count_pos_iff.mpr hb
    omega

/-- A block in a row is referenced. -/
theorem Ok.ref_pos (h : Ok cfg s l) (hb : b ∈ s.blocksOf r) (h0 : b ≠ 0) : 0 < (s.pool.blocks b).refCnt := by
  have hle := blocksOf_count_le (s := s) b r
  have hpos := List.count_pos_iff.mpr hb
  rw [h.refs b h0]
  omega

/-- The rule for a change of one row. -/
theorem Ok.update (h : Ok cfg s l) (hrow : OnlyRow r s s') (hpool : s'.pool.Ok cfg l')
    (husable : ∀ b ∈ s'.blocksOf r, b = 0 ∨ cfg.Usable b)
    (hnodup : ((s'.blocksOf r).filter (· ≠ 0)).Nodup)
    (hrefs : ∀ b, b ≠ 0 → (s'.pool.blocks b).refCnt + (s.blocksOf r).count b =
      (s.pool.blocks b).refCnt + (s'.blocksOf r).count b)
    (hfresh : ∀ b, b ≠ 0 →
      s.uncachedBut r b + ((s'.blocksOf r).drop (s'.cachedOf r)).count b ≤ 1)
    (hhash : ∀ b, b ≠ 0 → (s'.pool.blocks b).blockHash ≠ none →
      s.uncachedBut r b + ((s'.blocksOf r).drop (s'.cachedOf r)).count b = 0) : Ok cfg s' l' where
  pool := hpool
  refs b hb := by
    have hold := h.refs b hb
    have hupd := hrefs b hb
    have h1 := occurrences_eq s r b
    have h2 := occurrences_eq s' r b
    rw [hrow.occurrencesBut] at h2
    omega
  usable r' := by
    by_cases hr : r' = r
    · subst hr; exact husable
    · rw [hrow.blocksOf hr]; exact h.usable r'
  nodup r' := by
    by_cases hr : r' = r
    · subst hr; exact hnodup
    · rw [hrow.blocksOf hr]; exact h.nodup r'
  fresh b hb := by
    rw [uncached_eq s' r b, hrow.uncachedBut]
    exact hfresh b hb
  fresh_hash b hb := by
    have h0 : b ≠ 0 := (hpool.hash_usable b hb).1
    rw [uncached_eq s' r b, hrow.uncachedBut]
    exact hhash b h0 hb

/-! ## The methods keep the invariant -/

theorem onlyRow_set :
    OnlyRow r s { s with pool := pool, reqToBlocks := s.reqToBlocks.set r bs } :=
  ⟨Dict.erase_set _ _ _, fun _ _ => rfl⟩

theorem onlyRow_set_cached {n : Nat} : OnlyRow r s ⟨pool, s.reqToBlocks.set r bs, s.numCachedBlock.set r n⟩ :=
  ⟨Dict.erase_set _ _ _, fun r' hr => by simp [cachedOf, Dict.get?_set_of_ne _ _ hr]⟩

@[simp] theorem blocksOf_set {d : Dict ρ Nat} : (⟨pool, s.reqToBlocks.set r bs, d⟩ : KVState κ ρ).blocksOf r = bs := by
  simp [blocksOf]

@[simp] theorem cachedOf_set {d : Dict ρ (List Nat)} {n : Nat} :
    (⟨pool, d, s.numCachedBlock.set r n⟩ : KVState κ ρ).cachedOf r = n := by
  simp [cachedOf]

/-- The occurrences of a block that waits for its hash in row `r`, seen from the other rows. -/
theorem Ok.uncachedBut_le (h : Ok cfg s l) (hb : b ≠ 0) :
    s.uncachedBut r b + ((s.blocksOf r).drop (s.cachedOf r)).count b ≤ 1 := by
  rw [← uncached_eq]
  exact h.fresh b hb

theorem Ok.uncachedBut_hash (h : Ok cfg s l) (hb : (s.pool.blocks b).blockHash ≠ none) :
    s.uncachedBut r b + ((s.blocksOf r).drop (s.cachedOf r)).count b = 0 := by
  rw [← uncached_eq]
  exact h.fresh_hash b hb

theorem uncachedBut_le_occurrences (s : KVState κ ρ) (r : ρ) (b : Nat) : s.uncachedBut r b ≤ s.occurrencesBut r b := by
  apply List.sum_le_sum
  intro e _
  exact (List.drop_sublist _ _).count_le b

theorem Ok.appendNewBlocks [DecidableEq κ] (h : Ok cfg s l) {n : Nat} (hn : n ≤ l.length) :
    ∃ s', s.appendNewBlocks r n = .ok (l.take n, s') ∧ Ok cfg s' (l.drop n) ∧ OnlyRow r s s' ∧
      s'.blocksOf r = s.blocksOf r ++ l.take n ∧ s'.numCachedBlock = s.numCachedBlock ∧
      (∀ b ∈ l.take n, (s'.pool.blocks b).blockHash = none) ∧
      (∀ b, b ∉ l.take n → (s'.pool.blocks b).refCnt = (s.pool.blocks b).refCnt ∧
        (s'.pool.blocks b).blockHash = (s.pool.blocks b).blockHash) := by
  obtain ⟨pool, hrun, hpool, hin, hout⟩ := h.pool.getNewBlocks hn
  have hnd : (l.take n).Nodup := (List.take_sublist n l).nodup h.pool.holds.links.nodup
  have hfree : ∀ b ∈ l.take n, s.occurrences b = 0 ∧ cfg.Usable b := fun b hb =>
    ⟨h.occurrences_of_free (List.mem_of_mem_take hb),
      ((h.pool.mem_free b).mp (List.mem_of_mem_take hb)).1⟩
  have hcount : ∀ b, b ∈ l.take n → (s.blocksOf r).count b = 0 ∧ s.uncachedBut r b = 0 := by
    intro b hb
    have h1 := occurrences_eq s r b
    have h2 := uncachedBut_le_occurrences s r b
    have h3 := (hfree b hb).1
    omega
  have hdrop : ∀ b, ((s.blocksOf r ++ l.take n).drop (s.cachedOf r)).count b ≤
      ((s.blocksOf r).drop (s.cachedOf r)).count b + (l.take n).count b := by
    intro b
    rw [List.drop_append, List.count_append]
    have := (List.drop_sublist (s.cachedOf r - (s.blocksOf r).length) (l.take n)).count_le b
    omega
  refine ⟨{ s with pool, reqToBlocks := s.reqToBlocks.set r (s.blocksOf r ++ l.take n) }, ?_, ?_,
    onlyRow_set, by simp, rfl, fun b hb => (hin b hb).2, hout⟩
  · simp only [KVState.appendNewBlocks, hrun]
    rfl
  · apply h.update onlyRow_set hpool
    case husable =>
      intro b hb
      rw [blocksOf_set, List.mem_append] at hb
      rcases hb with hb | hb
      · exact h.usable r b hb
      · exact Or.inr (hfree b hb).2
    case hnodup =>
      rw [blocksOf_set]
      apply nodup_of_count
      intro b h0
      rw [List.count_append]
      by_cases hb : b ∈ l.take n
      · rw [(hcount b hb).1, zero_add]
        exact List.nodup_iff_count_le_one.mp hnd b
      · rw [List.count_eq_zero.mpr hb]
        exact count_le_one (h.nodup r) h0
    case hrefs =>
      intro b h0
      rw [blocksOf_set, List.count_append]
      by_cases hb : b ∈ l.take n
      · have h1 := (hcount b hb).1
        have h2 := List.count_eq_one_of_mem hnd hb
        have h3 : (s.pool.blocks b).refCnt = 0 := by
          rw [h.refs b h0, (hfree b hb).1]
          rfl
        have h4 := (hin b hb).1
        simp only [h1, h2, h3, h4]
        norm_num
      · rw [(hout b hb).1, List.count_eq_zero.mpr hb, add_zero]
    case hfresh =>
      intro b h0
      have hle := hdrop b
      rw [blocksOf_set]
      show s.uncachedBut r b + ((s.blocksOf r ++ l.take n).drop (s.cachedOf r)).count b ≤ 1
      by_cases hb : b ∈ l.take n
      · have h1 := uncached_le_occurrences (s := s) b r
        have h2 := List.nodup_iff_count_le_one.mp hnd b
        have h3 := hcount b hb
        omega
      · have h1 := h.uncachedBut_le (r := r) h0
        rw [List.count_eq_zero.mpr hb] at hle
        omega
    case hhash =>
      intro b h0 hne
      have hle := hdrop b
      rw [blocksOf_set]
      show s.uncachedBut r b + ((s.blocksOf r ++ l.take n).drop (s.cachedOf r)).count b = 0
      have hb : b ∉ l.take n := fun hb => hne (hin b hb).2
      have h1 := h.uncachedBut_hash (r := r) (b := b) (by rw [← (hout b hb).2]; exact hne)
      rw [List.count_eq_zero.mpr hb] at hle
      omega

theorem Ok.addComputedBlocks (h : Ok cfg s l) (hnil : s.blocksOf r = []) (n : Nat) {hits : List Nat}
    (husable : ∀ b ∈ hits, b = 0 ∨ cfg.Usable b) (hnd : (hits.filter (· ≠ 0)).Nodup)
    (hcaching : cfg.enableCaching = true ∨ hits = []) :
    ∃ s', s.addComputedBlocks r n hits = .ok s' ∧ Ok cfg s' (l.filter (· ∉ hits)) ∧
      OnlyRow r s s' ∧ s'.blocksOf r = List.replicate n 0 ++ hits ∧
      s'.numCachedBlock = s.numCachedBlock.set r (n + hits.length) ∧
      (∀ b, (s'.pool.blocks b).refCnt = (s.pool.blocks b).refCnt + hits.count b) ∧
      (∀ b, (s'.pool.blocks b).blockHash = (s.pool.blocks b).blockHash) := by
  obtain ⟨pool, hrun, hpool, href, hhash⟩ : ∃ pool,
      s.touchComputed hits = .ok pool ∧ pool.Ok cfg (l.filter (· ∉ hits)) ∧
      (∀ b, (pool.blocks b).refCnt = (s.pool.blocks b).refCnt + hits.count b) ∧
      (∀ b, (pool.blocks b).blockHash = (s.pool.blocks b).blockHash) := by
    unfold touchComputed
    rw [h.pool.enableCaching]
    by_cases hon : cfg.enableCaching = true
    · rw [if_pos hon]
      exact h.pool.touch husable
    · obtain rfl := hcaching.resolve_left hon
      rw [if_neg hon]
      exact ⟨s.pool, rfl, by simpa using h.pool, by simp, fun _ => rfl⟩
  refine ⟨⟨pool, s.reqToBlocks.set r (List.replicate n 0 ++ hits),
    s.numCachedBlock.set r (n + hits.length)⟩, ?_, ?_, onlyRow_set_cached, by simp, rfl, href, hhash⟩
  · simp [KVState.addComputedBlocks, hrun, bind, Except.bind, pure, Except.pure, hnil,
      h.pool.nullBlock]
  · have hcount : ∀ b, b ≠ 0 → (List.replicate n 0 ++ hits).count b = hits.count b := by
      intro b h0
      simp [List.count_replicate, Ne.symm h0]
    have hdone : ∀ b, ((List.replicate n 0 ++ hits).drop (n + hits.length)).count b = 0 := by
      intro b
      rw [List.drop_eq_nil_of_le (by simp)]
      rfl
    apply h.update onlyRow_set_cached hpool
    case husable =>
      intro b hb
      rw [blocksOf_set, List.mem_append] at hb
      rcases hb with hb | hb
      · exact Or.inl (List.eq_of_mem_replicate hb)
      · exact husable b hb
    case hnodup =>
      rw [blocksOf_set]
      apply nodup_of_count
      intro b h0
      rw [hcount b h0]
      exact count_le_one hnd h0
    case hrefs =>
      intro b h0
      rw [blocksOf_set, hcount b h0, hnil, href]
      simp
    case hfresh =>
      intro b h0
      rw [blocksOf_set, cachedOf_set, hdone]
      have := h.uncachedBut_le (r := r) h0
      omega
    case hhash =>
      intro b h0 hne
      rw [blocksOf_set, cachedOf_set, hdone]
      have := h.uncachedBut_hash (r := r) (b := b) (by rw [← hhash]; exact hne)
      omega

/-- The blocks of a row behind the cached ones, split at the number of full blocks. -/
theorem drop_split (bs : List Nat) {c f : Nat} (h : c ≤ f) : bs.drop c = (bs.take f).drop c ++ bs.drop f := by
  conv_lhs => rw [← List.take_append_drop f bs]
  rw [List.drop_append]
  by_cases hf : f ≤ bs.length
  · rw [List.length_take, min_eq_left hf, Nat.sub_eq_zero_of_le h, List.drop_zero]
  · rw [List.drop_eq_nil_of_le (by omega : bs.length ≤ f), List.drop_nil]

theorem Ok.cacheBlocks [DecidableEq κ] (h : Ok cfg s l) (hcaching : cfg.enableCaching = true)
    {numBlockHashes numFullBlocks : Nat} {blockHashes : List κ}
    (hnum : numFullBlocks ≤ numBlockHashes) (hlen : numFullBlocks ≤ blockHashes.length) :
    ∃ s', s.cacheBlocks r numBlockHashes numFullBlocks blockHashes = .ok s' ∧ Ok cfg s' l ∧
      s'.reqToBlocks = s.reqToBlocks ∧
      (∀ r', s'.cachedOf r' = if r' = r then max (s.cachedOf r) numFullBlocks else s.cachedOf r') ∧
      (∀ b, (s'.pool.blocks b).refCnt = (s.pool.blocks b).refCnt) ∧
      (∀ b, b ∉ ((s.blocksOf r).take numFullBlocks).drop (s.cachedOf r) ∨ b = 0 →
        (s'.pool.blocks b).blockHash = (s.pool.blocks b).blockHash) ∧
      (∀ (i b : Nat) (key : κ), b ≠ 0 → s.cachedOf r ≤ i → i < numFullBlocks →
        (s.blocksOf r)[i]? = some b → blockHashes[i]? = some key →
        (s'.pool.blocks b).blockHash = some key) := by
  by_cases hdone : s.cachedOf r ≥ numFullBlocks
  · refine ⟨s, by simp [KVState.cacheBlocks, hdone, pure, Except.pure], h, rfl, ?_, fun _ => rfl,
      fun _ _ => rfl, by omega⟩
    intro r'
    by_cases hr : r' = r
    · subst hr; rw [if_pos rfl, max_eq_left hdone]
    · rw [if_neg hr]
  · have hlt : s.cachedOf r ≤ numFullBlocks := by omega
    have hsub : ∀ b ∈ ((s.blocksOf r).take numFullBlocks).drop (s.cachedOf r), b ∈ s.blocksOf r :=
      fun b hb => List.mem_of_mem_take (List.mem_of_mem_drop hb)
    have hcount := fun b => congrArg (List.count b) (drop_split (s.blocksOf r) hlt)
    simp only [List.count_append] at hcount
    -- a block of the slice waits for its hash there, so it has none
    have hpos : ∀ b ∈ ((s.blocksOf r).take numFullBlocks).drop (s.cachedOf r),
        0 < s.uncached b := by
      intro b hb
      have h1 := List.count_pos_iff.mpr hb
      have h2 := hcount b
      rw [uncached_eq s r b]
      omega
    have henough : (((s.blocksOf r).take numFullBlocks).drop (s.cachedOf r)).length ≤
        (blockHashes.drop (s.cachedOf r)).length := by
      simp only [List.length_drop, List.length_take]
      omega
    obtain ⟨pool, hrun, hpool, href, hout, hin⟩ := h.pool.cacheLoop hcaching henough
      (fun b hb => h.usable r b (hsub b hb))
      ((((List.drop_sublist _ _).trans (List.take_sublist _ _)).filter _).nodup (h.nodup r))
      (fun b hb _ => by
        by_contra hne
        have := h.fresh_hash b hne
        have := hpos b hb
        omega)
    refine ⟨{ s with pool, numCachedBlock := s.numCachedBlock.set r numFullBlocks }, ?_, ?_, rfl, ?_,
      href, hout, ?_⟩
    · simp only [KVState.cacheBlocks, BlockPool.cacheFullBlocks, if_neg hdone, hnum, decide_true]
      simp [bind, Except.bind, hrun, pure, Except.pure]
    · have hrow : OnlyRow r s { s with pool, numCachedBlock := s.numCachedBlock.set r numFullBlocks } :=
        ⟨rfl, fun r' hr => by simp [cachedOf, Dict.get?_set_of_ne _ _ hr]⟩
      apply h.update hrow hpool
      case husable => exact h.usable r
      case hnodup => exact h.nodup r
      case hrefs => intro b h0; rw [href]; rfl
      case hfresh =>
        intro b h0
        rw [cachedOf_set]
        show s.uncachedBut r b + ((s.blocksOf r).drop numFullBlocks).count b ≤ 1
        have h1 := h.uncachedBut_le (r := r) h0
        have h2 := hcount b
        omega
      case hhash =>
        intro b h0 hne
        rw [cachedOf_set]
        show s.uncachedBut r b + ((s.blocksOf r).drop numFullBlocks).count b = 0
        have h2 := hcount b
        by_cases hb : b ∈ ((s.blocksOf r).take numFullBlocks).drop (s.cachedOf r)
        · have h1 := h.uncachedBut_le (r := r) h0
          have h3 := List.count_pos_iff.mpr hb
          omega
        · have h1 := h.uncachedBut_hash (r := r) (b := b) (by
            rw [← hout b (Or.inl hb)]
            exact hne)
          omega
    · intro r'
      by_cases hr : r' = r
      · subst hr; rw [if_pos rfl, max_eq_right hlt, cachedOf_set]
      · simp [cachedOf, Dict.get?_set_of_ne _ _ hr, hr]
    · intro i b key h0 hci hif hb hkey
      apply hin (i - s.cachedOf r) b key h0
      · rw [List.getElem?_drop, Nat.add_sub_cancel' hci, List.getElem?_take_of_lt hif]
        exact hb
      · rw [List.getElem?_drop, Nat.add_sub_cancel' hci]
        exact hkey

theorem Ok.free (h : Ok cfg s l) (r : ρ) :
    ∃ s', s.free r = .ok s' ∧
      Ok cfg s' (l ++ (s.blocksOf r).reverse.filter fun b => b ≠ 0 ∧ (s.pool.blocks b).refCnt = 1) ∧
      OnlyRow r s s' ∧ s'.blocksOf r = [] ∧
      s'.reqToBlocks = s.reqToBlocks.erase r ∧ s'.numCachedBlock = s.numCachedBlock.erase r ∧
      (∀ b, (s'.pool.blocks b).blockHash = (s.pool.blocks b).blockHash) := by
  have hnd : ((s.blocksOf r).reverse.filter (· ≠ 0)).Nodup := by
    rw [List.filter_reverse, List.nodup_reverse]
    exact h.nodup r
  obtain ⟨pool, hrun, hpool, href, hhash⟩ := h.pool.freeBlocks
    (fun b hb => h.usable r b (List.mem_reverse.mp hb)) hnd
    (fun b hb h0 => h.ref_pos (List.mem_reverse.mp hb) h0)
  have hrow : OnlyRow r s ⟨pool, s.reqToBlocks.erase r, s.numCachedBlock.erase r⟩ :=
    ⟨Dict.erase_erase _ _, fun r' hr => by simp [cachedOf, Dict.get?_erase_of_ne _ hr]⟩
  have hnil : (⟨pool, s.reqToBlocks.erase r, s.numCachedBlock.erase r⟩ : KVState κ ρ).blocksOf r
      = [] := by
    simp [blocksOf]
  refine ⟨⟨pool, s.reqToBlocks.erase r, s.numCachedBlock.erase r⟩, ?_, ?_, hrow, hnil, rfl, rfl,
    hhash⟩
  · simp only [KVState.free, hrun]
    rfl
  · apply h.update hrow hpool
    case husable => rw [hnil]; simp
    case hnodup => rw [hnil]; simp
    case hrefs =>
      intro b _
      rw [hnil, href]
      simp
    case hfresh =>
      intro b h0
      have := h.uncachedBut_le (r := r) h0
      rw [hnil, List.drop_nil, List.count_nil]
      omega
    case hhash =>
      intro b _ hne
      have := h.uncachedBut_hash (r := r) (b := b) (by rw [← hhash]; exact hne)
      rw [hnil, List.drop_nil, List.count_nil]
      omega

/-! ## Leaving null blocks behind -/

/-- A row in which some blocks became null. -/
def Nulled (bs bs' : List Nat) : Prop := List.Forall₂ (fun b b' => b' = b ∨ b' = 0) bs bs'

theorem Nulled.refl (bs : List Nat) : Nulled bs bs :=
  List.forall₂_same.mpr fun _ _ => Or.inl rfl

theorem Nulled.trans {as cs : List Nat} (h₁ : Nulled as bs) (h₂ : Nulled bs cs) : Nulled as cs := by
  induction h₁ generalizing cs with
  | nil => exact h₂
  | cons hab _ ih =>
    obtain _ | ⟨hbc, htail⟩ := h₂
    refine List.Forall₂.cons ?_ (ih htail)
    rcases hbc with rfl | rfl
    · exact hab
    · exact Or.inr rfl

theorem Nulled.set_zero (bs : List Nat) (i : Nat) : Nulled bs (bs.set i 0) := by
  induction bs generalizing i with
  | nil => exact List.Forall₂.nil
  | cons b bs ih =>
    cases i with
    | zero => exact List.Forall₂.cons (Or.inr rfl) (Nulled.refl bs)
    | succ i => exact List.Forall₂.cons (Or.inl rfl) (ih i)

theorem Nulled.count_le {bs' : List Nat} (h : Nulled bs bs') (hb : b ≠ 0) : bs'.count b ≤ bs.count b := by
  induction h with
  | nil => rfl
  | cons hc _ ih =>
    rw [List.count_cons, List.count_cons]
    rcases hc with rfl | rfl
    · omega
    · simp only [beq_iff_eq, Ne.symm hb, if_false]
      omega

theorem Nulled.mem {bs' : List Nat} (h : Nulled bs bs') (hb : b ∈ bs') : b = 0 ∨ b ∈ bs := by
  by_cases h0 : b = 0
  · exact Or.inl h0
  · have := h.count_le h0
    have := List.count_pos_iff.mpr hb
    exact Or.inr (List.count_pos_iff.mp (by omega))

theorem count_set_zero {i c : Nat} (hi : bs[i]? = some b) (hc : c ≠ 0) :
    (bs.set i 0).count c + (if b = c then 1 else 0) = bs.count c := by
  induction bs generalizing i with
  | nil => simp at hi
  | cons d bs ih =>
    cases i with
    | zero =>
      simp only [List.getElem?_cons_zero, Option.some.injEq] at hi
      subst hi
      simp [List.count_cons, Ne.symm hc]
    | succ i =>
      rw [List.set_cons_succ, List.count_cons, List.count_cons, ← ih (by simpa using hi)]
      omega

/-- What `remove_skipped_blocks` takes out of a row, and what it leaves there. -/
theorem nullOut_spec (n : Nat) (bs : List Nat) :
    Nulled bs (nullOut 0 n bs).2 ∧ 0 ∉ (nullOut 0 n bs).1 ∧
      (∀ b, b ≠ 0 → (nullOut 0 n bs).2.count b + (nullOut 0 n bs).1.count b = bs.count b) ∧
      (nullOut 0 n bs).2.drop n = bs.drop n := by
  induction n generalizing bs with
  | zero => exact ⟨Nulled.refl bs, by simp [nullOut], by simp [nullOut], rfl⟩
  | succ i ih =>
    unfold nullOut
    cases hi : bs[i]? with
    | none => exact ⟨Nulled.refl bs, by simp, by simp, rfl⟩
    | some b =>
      by_cases h0 : b = 0
      · simp only [if_pos h0]
        exact ⟨Nulled.refl bs, by simp, by simp, trivial⟩
      · simp only [if_neg h0]
        obtain ⟨hnulled, hzero, hcount, hdrop⟩ := ih (bs.set i 0)
        refine ⟨(Nulled.set_zero bs i).trans hnulled, ?_, ?_, ?_⟩
        · simpa [Ne.symm h0] using hzero
        · intro c hc
          have h1 := hcount c hc
          have h2 := count_set_zero hi hc
          rw [List.count_cons]
          simp only [beq_iff_eq]
          omega
        · have := congrArg (List.drop 1) hdrop
          rw [List.drop_drop, List.drop_drop] at this
          rw [this]
          exact List.drop_set_of_lt (by omega)

section

variable (h : Ok cfg s l)
include h

/-- The rule for freeing blocks of a row and leaving null blocks in their place. -/
theorem Ok.leaveNull {removed left : List Nat} (hnulled : Nulled (s.blocksOf r) left) (hzero : 0 ∉ removed)
    (hcount : ∀ b, b ≠ 0 → left.count b + removed.count b = (s.blocksOf r).count b) :
    ∃ pool, s.pool.freeBlocks removed = .ok pool ∧
      Ok cfg { s with pool, reqToBlocks := s.reqToBlocks.set r left }
        (l ++ removed.filter fun b => b ≠ 0 ∧ (s.pool.blocks b).refCnt = 1) ∧
      (∀ b, (pool.blocks b).refCnt = (s.pool.blocks b).refCnt - removed.count b) ∧
      (∀ b, (pool.blocks b).blockHash = (s.pool.blocks b).blockHash) := by
  have hmem : ∀ b ∈ removed, b ≠ 0 ∧ b ∈ s.blocksOf r := by
    intro b hb
    have h0 : b ≠ 0 := fun e => hzero (e ▸ hb)
    have h1 := hcount b h0
    have h2 := List.count_pos_iff.mpr hb
    exact ⟨h0, List.count_pos_iff.mp (by omega)⟩
  have hnd : (removed.filter (· ≠ 0)).Nodup := nodup_of_count fun b h0 => by
    have h1 := hcount b h0
    have h2 := count_le_one (h.nodup r) h0
    omega
  obtain ⟨pool, hrun, hpool, href, hhash⟩ := h.pool.freeBlocks
    (fun b hb => h.usable r b (hmem b hb).2) hnd (fun b hb h0 => h.ref_pos (hmem b hb).2 h0)
  have hdrop : ∀ b, b ≠ 0 →
      (left.drop (s.cachedOf r)).count b ≤ ((s.blocksOf r).drop (s.cachedOf r)).count b :=
    fun b h0 => Nulled.count_le (List.forall₂_drop (s.cachedOf r) hnulled) h0
  refine ⟨pool, hrun, ?_, href, hhash⟩
  apply h.update onlyRow_set hpool
  case husable =>
    intro b hb
    rw [blocksOf_set] at hb
    rcases hnulled.mem hb with h0 | hb
    · exact Or.inl h0
    · exact h.usable r b hb
  case hnodup =>
    rw [blocksOf_set]
    exact nodup_of_count fun b h0 => (hnulled.count_le h0).trans (count_le_one (h.nodup r) h0)
  case hrefs =>
    intro b h0
    rw [blocksOf_set, href]
    have := hcount b h0
    omega
  case hfresh =>
    intro b h0
    rw [blocksOf_set]
    show s.uncachedBut r b + (left.drop (s.cachedOf r)).count b ≤ 1
    have h1 := h.uncachedBut_le (r := r) h0
    have h2 := hdrop b h0
    omega
  case hhash =>
    intro b h0 hne
    rw [blocksOf_set]
    show s.uncachedBut r b + (left.drop (s.cachedOf r)).count b = 0
    have h1 := h.uncachedBut_hash (r := r) (b := b) (by rw [← hhash]; exact hne)
    have h2 := hdrop b h0
    omega

theorem Ok.removeSkippedBlocks (r : ρ) (n : Nat) :
    ∃ s' removed, s.removeSkippedBlocks r n = .ok s' ∧
      Ok cfg s' (l ++ removed.filter fun b => b ≠ 0 ∧ (s.pool.blocks b).refCnt = 1) ∧ OnlyRow r s s' ∧
      s'.blocksOf r = (nullOut 0 (min n (s.blocksOf r).length) (s.blocksOf r)).2 ∧
      removed = (nullOut 0 (min n (s.blocksOf r).length) (s.blocksOf r)).1 ∧ s'.numCachedBlock = s.numCachedBlock ∧
      (∀ b, (s'.pool.blocks b).refCnt = (s.pool.blocks b).refCnt - removed.count b) ∧
      (∀ b, (s'.pool.blocks b).blockHash = (s.pool.blocks b).blockHash) := by
  obtain ⟨hnulled, hzero, hcount, -⟩ :=
    nullOut_spec (min n (s.blocksOf r).length) (s.blocksOf r)
  generalize hremoved :
    (nullOut 0 (min n (s.blocksOf r).length) (s.blocksOf r)).1 = removed at hzero hcount
  generalize hleft :
    (nullOut 0 (min n (s.blocksOf r).length) (s.blocksOf r)).2 = left at hnulled hcount
  obtain ⟨pool, hrun, hok, href, hhash⟩ := h.leaveNull hnulled hzero hcount
  refine ⟨{ s with pool, reqToBlocks := s.reqToBlocks.set r left }, removed, ?_, hok,
    onlyRow_set, by simp, rfl, rfl, href, hhash⟩
  simp only [KVState.removeSkippedBlocks, h.pool.nullBlock, hremoved, hleft, hrun]
  rfl

/-! ## Forgetting hashes -/

/-- A change of the pool that leaves references alone and only takes hashes away. -/
theorem Ok.withPool (hpool : pool.Ok cfg l) (href : ∀ b, (pool.blocks b).refCnt = (s.pool.blocks b).refCnt)
    (hhash : ∀ b, (pool.blocks b).blockHash ≠ none → (s.pool.blocks b).blockHash ≠ none) :
    Ok cfg { s with pool } l where
  pool := hpool
  refs b h0 := by rw [href]; exact h.refs b h0
  usable := h.usable
  nodup := h.nodup
  fresh := h.fresh
  fresh_hash b hb := h.fresh_hash b (hhash b hb)

theorem Ok.evictBlocks [DecidableEq κ] {ids : List Nat} (hids : ∀ b ∈ ids, b < cfg.numGpuBlocks) :
    ∃ s', s.evictBlocks ids = .ok s' ∧ Ok cfg s' l := by
  obtain ⟨pool, hrun, hpool, href, hhash⟩ := h.pool.evictBlocks hids
  refine ⟨{ s with pool }, ?_, h.withPool hpool href fun b hb => ?_⟩
  · simp only [KVState.evictBlocks, hrun]
    rfl
  · rw [hhash] at hb
    by_cases hmem : b ∈ ids
    · simp [hmem] at hb
    · simpa [hmem] using hb

theorem Ok.resetPrefixCache : Ok cfg s.resetPrefixCache.2 l := by
  obtain ⟨hpool, href, hhash⟩ := h.pool.resetPrefixCache
  refine h.withPool hpool href fun b hb => ?_
  rw [hhash] at hb
  by_cases hdone : s.pool.resetPrefixCache.1 = true
  · simp [hdone] at hb
  · simpa [hdone] using hb

end

end KVState
end Yuan.Core
