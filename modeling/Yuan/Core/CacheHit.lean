import Yuan.Core.BlockPool
import Yuan.Core.KVCacheSpec
import Yuan.Lib.Greatest

/-!
# `find_longest_cache_hit` of the single-type managers

Each manager scans the block hashes of a request for the longest prefix its attention groups can take
from the prefix cache. A group of ids is searched at once: a position is a hit when every id has a
cached block there, and the hits are kept as rows, one block per id.

Every manager gets the same lemma: it returns rows that spell the greatest aligned length the
groups can serve, with the cached blocks at all positions that this length needs.
-/

namespace Yuan.Core

namespace CacheHit

variable {β : Type}

/-! ## Block hashes at a coarser block size -/

/-- `BlockHashListWithBlockSize`: each value joins `scaleFactor` consecutive hashes. -/
def blockHashListWithBlockSize (blockHashes : List (List β)) (scaleFactor : Nat) : List (List β) :=
  (List.range (blockHashes.length / scaleFactor)).map fun idx =>
    ((blockHashes.drop (idx * scaleFactor)).take scaleFactor).flatten

/-- `_get_block_hashes`: the hashes at the block size of a spec. -/
def getBlockHashes (hashBlockSize : Nat) (blockHashes : List (List β)) (blockSize : Nat) :
    List (List β) :=
  if blockSize = hashBlockSize then blockHashes
  else blockHashListWithBlockSize blockHashes (blockSize / hashBlockSize)

/-- There are enough coarse hashes for a length, if there are enough fine ones. -/
theorem div_le_length_getBlockHashes {hashBlockSize blockSize maxLength : Nat}
    {blockHashes : List (List β)} (hpos : 0 < blockSize) (hdvd : hashBlockSize ∣ blockSize)
    (hlen : maxLength / hashBlockSize ≤ blockHashes.length) :
    maxLength / blockSize ≤ (getBlockHashes hashBlockSize blockHashes blockSize).length := by
  unfold getBlockHashes
  split
  case isTrue h => rw [h]; exact hlen
  case isFalse =>
    obtain ⟨scale, rfl⟩ := hdvd
    have hhash : 0 < hashBlockSize := Nat.pos_of_mul_pos_right hpos
    simp only [blockHashListWithBlockSize, List.length_map, List.length_range,
      Nat.mul_div_cancel_left scale hhash]
    rw [← Nat.div_div_eq_div_mul]
    exact Nat.div_le_div_right hlen

/-! ## The scans -/

/-- One search: the hashes, the groups searched and the pool. -/
structure Search (β : Type) where
  blockHashes : List (List β)
  kvCacheGroupIds : List Nat
  blockPool : BlockPool (List β × Nat)
  kvCacheSpec : KVCacheSpec
  useEagle : Bool
  alignmentTokens : Nat

namespace Search

variable (q : Search β)

/-- `block_pool.get_cached_block(block_hash, kv_cache_group_ids)`. -/
def getCachedBlock (blockHash : List β) : Option (List Nat) :=
  q.blockPool.getCachedBlock (q.kvCacheGroupIds.map fun groupId => (blockHash, groupId))

/-- The cached blocks under the hash at index `i`, if any. -/
def cachedAt (i : Nat) : Option (List Nat) := q.blockHashes[i]?.bind q.getCachedBlock

/-- `block_pool.get_cached_block(block_hashes[i], kv_cache_group_ids)`. -/
def lookup (i : Nat) : Except PyError (Option (List Nat)) :=
  match q.blockHashes[i]? with
  | none => .error (.indexError "list index out of range")
  | some h => .ok (q.getCachedBlock h)

/-- `null_block` for each group. -/
def nullRow : List Nat := q.kvCacheGroupIds.map fun _ => q.blockPool.nullBlock

/-- Neither the common case of one block size nor a length on the alignment. -/
def unaligned (numBlocks : Nat) : Bool :=
  q.kvCacheSpec.blockSize ≠ q.alignmentTokens ∧
    numBlocks * q.kvCacheSpec.blockSize % q.alignmentTokens ≠ 0

/-- How many of `n` blocks are left after popping to an aligned length. -/
def alignedLength : Nat → Nat
  | 0 => 0
  | n + 1 => if q.unaligned (n + 1) then alignedLength n else n + 1

/-- `while ...: computed.pop()`. -/
def popUnaligned (computedBlocks : List (List Nat)) : List (List Nat) :=
  computedBlocks.take (q.alignedLength computedBlocks.length)

/-- The cached blocks under the leading hashes, up to the first miss. -/
def takeCached : List (List β) → List (List Nat)
  | [] => []
  | h :: hs =>
    match q.getCachedBlock h with
    | some cached => cached :: takeCached hs
    | none => []

/-- `FullAttentionManager.find_longest_cache_hit`: left to right up to the first miss. -/
def findFullAttention (maxLength : Nat) : Except PyError (List (List Nat)) := do
  let maxNumBlocks := maxLength / q.kvCacheSpec.blockSize
  let computedBlocks := q.takeCached (q.blockHashes.take maxNumBlocks)
  let computedBlocks := if q.useEagle then computedBlocks.dropLast else computedBlocks
  return q.popUnaligned computedBlocks

/-- The right-to-left loop over the blocks below `i`: the blocks kept, after the trailing ones are
trimmed on a match, or cut to the contiguous ones at the start. -/
def slidingLoop (contiguousBlocks : Nat) :
    Nat → Nat → List (List Nat) → Except PyError (List (List Nat))
  | 0, numContiguousBlocks, computedBlocks =>
    return q.popUnaligned (computedBlocks.take numContiguousBlocks)
  | i + 1, numContiguousBlocks, computedBlocks => do
      match ← q.lookup i with
      | some cached =>
        if numContiguousBlocks = 0 ∧ q.unaligned (i + 1) then
          slidingLoop contiguousBlocks i numContiguousBlocks computedBlocks
        else
          let computedBlocks := computedBlocks.set i cached
          if contiguousBlocks ≤ numContiguousBlocks + 1 then
            return computedBlocks.take (i + (numContiguousBlocks + 1))
          else slidingLoop contiguousBlocks i (numContiguousBlocks + 1) computedBlocks
      | none => slidingLoop contiguousBlocks i 0 computedBlocks

/-- Drop the last matched block for eagle. -/
def dropEagle (computedBlocks : List (List Nat)) : Except PyError (List (List Nat)) :=
  if q.useEagle ∧ computedBlocks ≠ [] then do
    pyAssert (q.kvCacheSpec.blockSize = q.alignmentTokens)
      "aligned_length is not compatible with eagle now"
    return computedBlocks.dropLast
  else return computedBlocks

/-- The number of contiguous blocks a hit of a window needs; the next token is in the window too. -/
def contiguousBlocks (slidingWindow : Nat) : Nat :=
  (cdiv ((slidingWindow : Int) - 1) q.kvCacheSpec.blockSize).toNat + if q.useEagle then 1 else 0

/-- `SlidingWindowManager.find_longest_cache_hit`: right to left until the window is covered. -/
def findSlidingWindow (slidingWindow maxLength : Nat) : Except PyError (List (List Nat)) := do
  let maxNumBlocks := maxLength / q.kvCacheSpec.blockSize
  let computedBlocks ← q.slidingLoop (q.contiguousBlocks slidingWindow) maxNumBlocks 0
    (List.replicate maxNumBlocks q.nullRow)
  q.dropEagle computedBlocks

/-- `for i in range(...)` up to the first miss. -/
def chunkedLoop : List Nat → Except PyError (List (List Nat))
  | [] => return []
  | i :: is => do
      match ← q.lookup i with
      | some cached => return cached :: (← chunkedLoop is)
      | none => return []

/-- Where the chunk of the next token starts. -/
def localAttentionStartIdx (attentionChunkSize maxLength : Nat) : Nat :=
  if 0 < maxLength then maxLength / attentionChunkSize * attentionChunkSize else 0

/-- `ChunkedLocalAttentionManager.find_longest_cache_hit`: null blocks before the chunk, then left to
right up to the first miss. -/
def findChunkedLocal (attentionChunkSize maxLength : Nat) : Except PyError (List (List Nat)) := do
  pyAssert (!q.useEagle)
    "Hybrid KV cache is not supported for eagle + chunked local attention."
  pyAssert (q.kvCacheSpec.blockSize = q.alignmentTokens)
    ("KV cache groups with different block sizes are not compatible with " ++
      "chunked local attention now")
  let maxNumBlocks := maxLength / q.kvCacheSpec.blockSize
  let start := localAttentionStartIdx attentionChunkSize maxLength / q.kvCacheSpec.blockSize
  let found ← q.chunkedLoop (List.range' start (maxNumBlocks - start))
  return List.replicate start q.nullRow ++ found

/-- The right-to-left loop over the blocks below `i`: one aligned hit suffices. -/
def mambaLoop : Nat → Except PyError (List (List Nat))
  | 0 => return []
  | i + 1 => do
      match ← q.lookup i with
      | some cached =>
        if q.unaligned (i + 1) then mambaLoop i
        -- dummy blocks stand before the hit, so that the length says how long it is
        else return List.replicate i q.nullRow ++ [cached]
      | none => mambaLoop i

/-- `MambaManager.find_longest_cache_hit`. -/
def findMamba (maxLength : Nat) : Except PyError (List (List Nat)) :=
  q.mambaLoop (maxLength / q.kvCacheSpec.blockSize)

/-- `manager_cls.find_longest_cache_hit`. -/
def findLongestCacheHit (maxLength : Nat) : Except PyError (List (List Nat)) :=
  match q.kvCacheSpec.attention with
  | .fullAttention => q.findFullAttention maxLength
  | .slidingWindow w => q.findSlidingWindow w maxLength
  | .chunkedLocal c => q.findChunkedLocal c maxLength
  | .mamba => q.findMamba maxLength

/-! ## What a search answers -/

/-- The groups can take a prefix of `L` tokens from the cache: all blocks it needs are cached. -/
def Serves (L : Nat) : Prop := ∀ k, q.kvCacheSpec.Needs L k → (q.cachedAt k).isSome

/-- An aligned length that can be served. -/
def Servable (L : Nat) : Prop := q.alignmentTokens ∣ L ∧ q.Serves L

/-- The bounds of a spec: windows of at least two tokens, chunks of whole blocks, and chunked-local
groups only where all block sizes are equal. -/
def SpecOk (spec : KVCacheSpec) (alignmentTokens : Nat) : Prop :=
  match spec.attention with
  | .slidingWindow w => 2 ≤ w
  | .chunkedLocal c => 0 < c ∧ spec.blockSize ∣ c ∧ spec.blockSize = alignmentTokens
  | _ => True

/-- What the callers promise about a search for at most `maxLength` tokens. -/
structure Ready (maxLength : Nat) : Prop where
  blockSize_pos : 0 < q.kvCacheSpec.blockSize
  alignment_pos : 0 < q.alignmentTokens
  dvd : q.kvCacheSpec.blockSize ∣ q.alignmentTokens
  hashes : maxLength / q.kvCacheSpec.blockSize ≤ q.blockHashes.length
  noEagle : q.useEagle = false
  specOk : SpecOk q.kvCacheSpec q.alignmentTokens

/-- The rows spell the greatest servable length: at each position the cached or the null blocks, and
the cached ones where the length needs them. -/
structure IsHit (maxLength : Nat) (rows : List (List Nat)) : Prop where
  greatest : GreatestBelow q.Servable maxLength (rows.length * q.kvCacheSpec.blockSize)
  row : ∀ k row, rows[k]? = some row → row = q.nullRow ∨ q.cachedAt k = some row
  needed : ∀ k, q.kvCacheSpec.Needs (rows.length * q.kvCacheSpec.blockSize) k →
    rows[k]? = q.cachedAt k

variable {q} {maxLength : Nat}

section

variable (hr : q.Ready maxLength)
include hr

theorem lookup_eq {i : Nat} (hi : i < maxLength / q.kvCacheSpec.blockSize) : q.lookup i = .ok (q.cachedAt i) := by
  have hlt : i < q.blockHashes.length := Nat.lt_of_lt_of_le hi hr.hashes
  simp [lookup, cachedAt, List.getElem?_eq_getElem hlt]

theorem unaligned_eq_false {n : Nat} : q.unaligned n = false ↔ q.alignmentTokens ∣ n * q.kvCacheSpec.blockSize := by
  unfold unaligned
  constructor
  · intro h
    rcases Nat.eq_or_lt_of_le (Nat.le_of_dvd hr.alignment_pos hr.dvd) with heq | hlt
    · exact heq ▸ Nat.dvd_mul_left _ _
    · have hne : q.kvCacheSpec.blockSize ≠ q.alignmentTokens := Nat.ne_of_lt hlt
      simpa [hne, Nat.dvd_iff_mod_eq_zero] using h
  · intro h
    simp [Nat.mod_eq_zero_of_dvd h]

theorem unaligned_eq_true {n : Nat} : q.unaligned n = true ↔ ¬ q.alignmentTokens ∣ n * q.kvCacheSpec.blockSize := by
  rw [← unaligned_eq_false hr, Bool.not_eq_false]

/-- Popping stops at the greatest aligned length. -/
theorem alignedLength_greatest (n : Nat) : GreatestBelow (fun m => q.alignmentTokens ∣ m * q.kvCacheSpec.blockSize) n
      (q.alignedLength n) := by
  induction n with
  | zero => exact .self (by simp)
  | succ n ih =>
    unfold alignedLength
    split
    case isTrue h => exact ih.succ ((unaligned_eq_true hr).mp h)
    case isFalse h =>
      rw [Bool.not_eq_true] at h
      exact .self ((unaligned_eq_false hr).mp h)

/-- An aligned list is left alone. -/
theorem popUnaligned_of_dvd {rows : List (List Nat)} (h : q.alignmentTokens ∣ rows.length * q.kvCacheSpec.blockSize) :
    q.popUnaligned rows = rows := by
  have hlen : rows.length ≤ q.alignedLength rows.length :=
    (alignedLength_greatest hr rows.length).bound le_rfl h
  exact List.take_of_length_le hlen

/-- A servable length is a number of blocks, so the search may count blocks. -/
theorem greatest_of_blocks {n : Nat} (h : GreatestBelow (fun m => q.Servable (m * q.kvCacheSpec.blockSize))
      (maxLength / q.kvCacheSpec.blockSize) n) : GreatestBelow q.Servable maxLength (n * q.kvCacheSpec.blockSize) := by
  constructor
  · exact ⟨(Nat.le_div_iff_mul_le hr.blockSize_pos).mp h.le, h.holds⟩
  · rintro L ⟨hle, hL⟩
    obtain ⟨m, rfl⟩ : q.kvCacheSpec.blockSize ∣ L := hr.dvd.trans hL.1
    rw [Nat.mul_comm] at hle hL ⊢
    have hm : m ≤ n := h.bound ((Nat.le_div_iff_mul_le hr.blockSize_pos).mpr hle) hL
    exact Nat.mul_le_mul_right _ hm

end

/-! ## Full attention -/

theorem takeCached_spec (hs : List (List β)) :
    (q.takeCached hs).length ≤ hs.length ∧
      (∀ k, k < (q.takeCached hs).length → (q.takeCached hs)[k]? = hs[k]?.bind q.getCachedBlock) ∧
      ((q.takeCached hs).length < hs.length → hs[(q.takeCached hs).length]?.bind q.getCachedBlock = none) := by
  induction hs with
  | nil => simp [takeCached]
  | cons h hs ih =>
    obtain ⟨hlen, hrow, hmiss⟩ := ih
    unfold takeCached
    cases hc : q.getCachedBlock h with
    | none => simp [hc]
    | some cached =>
      refine ⟨by simpa using hlen, ?_, ?_⟩
      · rintro (_ | k) hk
        · simp [hc]
        · simpa using hrow k (by simpa using hk)
      · intro hlt
        simpa using hmiss (by simpa using hlt)

theorem findFullAttention_isHit (hr : q.Ready maxLength) (hspec : q.kvCacheSpec.attention = .fullAttention) :
    ∃ rows, q.findFullAttention maxLength = .ok rows ∧ q.IsHit maxLength rows := by
  have hpos := hr.blockSize_pos
  obtain ⟨hlen, hrow, hmiss⟩ :=
    takeCached_spec (q := q) (q.blockHashes.take (maxLength / q.kvCacheSpec.blockSize))
  set computed := q.takeCached (q.blockHashes.take (maxLength / q.kvCacheSpec.blockSize)) with hdef
  have hle : computed.length ≤ maxLength / q.kvCacheSpec.blockSize := by
    simpa [Nat.min_eq_left hr.hashes] using hlen
  have hcached : ∀ k, k < computed.length → computed[k]? = q.cachedAt k := by
    intro k hk
    rw [hrow k hk, List.getElem?_take_of_lt (by omega)]
    rfl
  have hserves : ∀ n, n ≤ maxLength / q.kvCacheSpec.blockSize →
      (q.Serves (n * q.kvCacheSpec.blockSize) ↔ n ≤ computed.length) := by
    intro n hn
    simp only [Serves, KVCacheSpec.needs_fullAttention hpos hspec]
    constructor
    · intro hall
      by_contra hlt
      -- the first miss is among the blocks of the prefix
      have hnone : q.cachedAt computed.length = none := by
        have := hmiss (by simp only [List.length_take, Nat.min_eq_left hr.hashes]; omega)
        rwa [List.getElem?_take_of_lt (by omega)] at this
      have hsome := hall computed.length (by omega)
      rw [hnone] at hsome
      simp at hsome
    · intro hle k hk
      rw [← hcached k (by omega), List.getElem?_eq_getElem (by omega)]
      rfl
  have hpop := alignedLength_greatest hr computed.length
  have hlenPop : (q.popUnaligned computed).length = q.alignedLength computed.length := by
    unfold popUnaligned
    rw [List.length_take, Nat.min_eq_left hpop.le]
  refine ⟨q.popUnaligned computed, by simp [findFullAttention, hr.noEagle]; rfl, ?_⟩
  have hget : ∀ k, k < (q.popUnaligned computed).length →
      (q.popUnaligned computed)[k]? = q.cachedAt k := by
    intro k hk
    have hk' : k < q.alignedLength computed.length := hlenPop ▸ hk
    have hpopLe := hpop.le
    unfold popUnaligned
    rw [List.getElem?_take_of_lt hk', hcached k (by omega)]
  refine ⟨greatest_of_blocks hr ?_, ?_, ?_⟩
  · rw [hlenPop]
    constructor
    · refine ⟨hpop.le.trans hle, hpop.holds, ?_⟩
      exact (hserves _ (hpop.le.trans hle)).mpr hpop.le
    · rintro n ⟨hn, hdvd, hn'⟩
      exact hpop.bound ((hserves n hn).mp hn') hdvd
  · intro k row hk
    have hlt : k < (q.popUnaligned computed).length := (List.getElem?_eq_some_iff.mp hk).1
    exact Or.inr ((hget k hlt) ▸ hk)
  · intro k hk
    exact hget k ((KVCacheSpec.needs_fullAttention hpos hspec).mp hk)

/-! ## Sliding window -/

/-- The right-to-left loop has looked at the blocks from `i` on: it holds a run of
`numContiguousBlocks` hits that ends at an aligned length, and no longer length is servable. -/
structure SlidingScan (q : Search β) (maxNumBlocks contiguousBlocks i numContiguousBlocks : Nat)
    (computedBlocks : List (List Nat)) : Prop where
  length : computedBlocks.length = maxNumBlocks
  fits : i + numContiguousBlocks ≤ maxNumBlocks
  short : numContiguousBlocks < contiguousBlocks
  row : ∀ k row, computedBlocks[k]? = some row → row = q.nullRow ∨ q.cachedAt k = some row
  run : ∀ k, i ≤ k → k < i + numContiguousBlocks →
    computedBlocks[k]? = q.cachedAt k ∧ (q.cachedAt k).isSome
  aligned : numContiguousBlocks ≠ 0 →
    q.alignmentTokens ∣ (i + numContiguousBlocks) * q.kvCacheSpec.blockSize
  fail : ∀ n, i + numContiguousBlocks < n → n ≤ maxNumBlocks →
    ¬ q.Servable (n * q.kvCacheSpec.blockSize)

section

variable (hr : q.Ready maxLength)
include hr

/-- `n` blocks that end a run of hits are the answer, once no longer length is servable. -/
theorem isHit_of_run {w : Nat} (hspec : q.kvCacheSpec.attention = .slidingWindow w)
    {computed : List (List Nat)} {i n : Nat} (hn : n ≤ computed.length)
    (hlen : computed.length = maxLength / q.kvCacheSpec.blockSize)
    (hrow : ∀ k row, computed[k]? = some row → row = q.nullRow ∨ q.cachedAt k = some row)
    (hrun : ∀ k, i ≤ k → k < n → computed[k]? = q.cachedAt k ∧ (q.cachedAt k).isSome)
    (hcover : ∀ k, k < n → n ≤ k + (cdiv ((w : Int) - 1) q.kvCacheSpec.blockSize).toNat → i ≤ k)
    (haligned : q.alignmentTokens ∣ n * q.kvCacheSpec.blockSize)
    (hfail : ∀ m, n < m → m ≤ computed.length → ¬ q.Servable (m * q.kvCacheSpec.blockSize)) :
    q.IsHit maxLength (computed.take n) := by
  have hneeds := fun m k => KVCacheSpec.needs_slidingWindow (n := m) (k := k) hr.blockSize_pos hspec
  have hlenTake : (computed.take n).length = n := by rw [List.length_take, Nat.min_eq_left hn]
  refine ⟨greatest_of_blocks hr ?_, ?_, ?_⟩
  · rw [hlenTake, ← hlen]
    refine GreatestBelow.skip hn hfail (.self ⟨haligned, ?_⟩)
    intro k hk
    obtain ⟨hkn, hnk⟩ := (hneeds n k).mp hk
    exact (hrun k (hcover k hkn hnk) hkn).2
  · intro k row hk
    rw [List.getElem?_take] at hk
    split at hk
    · exact hrow k row hk
    · simp at hk
  · intro k hk
    rw [hlenTake] at hk
    obtain ⟨hkn, hnk⟩ := (hneeds n k).mp hk
    rw [List.getElem?_take_of_lt hkn]
    exact (hrun k (hcover k hkn hnk) hkn).1

theorem slidingLoop_isHit {w : Nat} (hspec : q.kvCacheSpec.attention = .slidingWindow w)
    (i numContiguousBlocks : Nat) (computedBlocks : List (List Nat))
    (hscan : SlidingScan q (maxLength / q.kvCacheSpec.blockSize)
      (cdiv ((w : Int) - 1) q.kvCacheSpec.blockSize).toNat i numContiguousBlocks computedBlocks) :
    ∃ rows, q.slidingLoop (cdiv ((w : Int) - 1) q.kvCacheSpec.blockSize).toNat i numContiguousBlocks
        computedBlocks = .ok rows ∧ q.IsHit maxLength rows := by
  have hneeds := fun m k =>
    KVCacheSpec.needs_slidingWindow (n := m) (k := k) hr.blockSize_pos hspec
  induction i generalizing numContiguousBlocks computedBlocks with
  | zero =>
    have hfits := hscan.fits
    have haligned : q.alignmentTokens ∣ numContiguousBlocks * q.kvCacheSpec.blockSize := by
      rcases Nat.eq_zero_or_pos numContiguousBlocks with rfl | hpos
      · simp
      · simpa using hscan.aligned (by omega)
    have hlen : (computedBlocks.take numContiguousBlocks).length = numContiguousBlocks := by
      rw [List.length_take, hscan.length]
      omega
    refine ⟨computedBlocks.take numContiguousBlocks, ?_, ?_⟩
    · simp only [slidingLoop]
      rw [popUnaligned_of_dvd hr (by rwa [hlen])]
      rfl
    · apply isHit_of_run (i := 0) hr hspec (by rw [hscan.length]; omega) hscan.length
        hscan.row
      · exact fun k hk hlt => hscan.run k hk (by omega)
      · exact fun k _ _ => Nat.zero_le k
      · exact haligned
      · intro m hm hle
        exact hscan.fail m (by omega) (hscan.length ▸ hle)
  | succ i ih =>
    have hfits := hscan.fits
    have hshort := hscan.short
    have hlookup := lookup_eq hr (by omega : i < maxLength / q.kvCacheSpec.blockSize)
    simp only [slidingLoop, hlookup, ok_bind]
    cases hc : q.cachedAt i with
    | none =>
      -- a miss: every length the run could still have grown to needs this block
      apply ih 0 computedBlocks
      refine ⟨hscan.length, by omega, by omega, hscan.row, by omega, by simp, ?_⟩
      intro n hlt hle hserv
      rcases Nat.lt_or_ge (i + 1 + numContiguousBlocks) n with hgt | hge
      · exact hscan.fail n hgt hle hserv
      · have hsome := hserv.2 i ((hneeds n i).mpr ⟨by omega, by omega⟩)
        rw [hc] at hsome
        simp at hsome
    | some cached =>
      by_cases hskip : numContiguousBlocks = 0 ∧ q.unaligned (i + 1) = true
      · obtain ⟨rfl, hun⟩ := hskip
        simp only [hun, and_self, ite_true]
        apply ih 0 computedBlocks
        refine ⟨hscan.length, by omega, by omega, hscan.row, by omega, by simp, ?_⟩
        intro n hlt hle hserv
        rcases Nat.lt_or_ge (i + 1) n with hgt | hge
        · exact hscan.fail n (by omega) hle hserv
        · obtain rfl : n = i + 1 := by omega
          exact (unaligned_eq_true hr).mp hun hserv.1
      · have haligned : q.alignmentTokens ∣
            (i + 1 + numContiguousBlocks) * q.kvCacheSpec.blockSize := by
          rcases Nat.eq_zero_or_pos numContiguousBlocks with rfl | hpos
          · have hun : q.unaligned (i + 1) = false := by simpa using hskip
            simpa using (unaligned_eq_false hr).mp hun
          · exact hscan.aligned (by omega)
        have hrow : ∀ k row, (computedBlocks.set i cached)[k]? = some row →
            row = q.nullRow ∨ q.cachedAt k = some row := by
          intro k row hk
          rw [List.getElem?_set] at hk
          split at hk
          case isTrue heq =>
            subst heq
            split at hk
            · obtain rfl : cached = row := by simpa using hk
              exact Or.inr hc
            · simp at hk
          case isFalse => exact hscan.row k row hk
        have hrun : ∀ k, i ≤ k → k < i + (numContiguousBlocks + 1) →
            (computedBlocks.set i cached)[k]? = q.cachedAt k ∧ (q.cachedAt k).isSome := by
          intro k hik hk
          rcases Nat.eq_or_lt_of_le hik with rfl | hlt
          · have hilen : i < computedBlocks.length := by rw [hscan.length]; omega
            simp [List.getElem?_set_self hilen, hc]
          · rw [List.getElem?_set_ne (by omega)]
            exact hscan.run k (by omega) (by omega)
        simp only [hskip, ite_false]
        by_cases hmatch : (cdiv ((w : Int) - 1) q.kvCacheSpec.blockSize).toNat ≤
            numContiguousBlocks + 1
        · rw [if_pos hmatch]
          refine ⟨_, rfl, ?_⟩
          apply isHit_of_run (i := i) hr hspec (by rw [List.length_set, hscan.length]; omega)
            (by rw [List.length_set, hscan.length]) hrow hrun
          · intro k _ hle
            omega
          · rwa [show i + (numContiguousBlocks + 1) = i + 1 + numContiguousBlocks by omega]
          · intro m hm hle
            rw [List.length_set, hscan.length] at hle
            exact hscan.fail m (by omega) hle
        · rw [if_neg hmatch]
          apply ih (numContiguousBlocks + 1) (computedBlocks.set i cached)
          refine ⟨by rw [List.length_set, hscan.length], by omega, by omega, hrow, hrun, ?_, ?_⟩
          · intro _
            rwa [show i + (numContiguousBlocks + 1) = i + 1 + numContiguousBlocks by omega]
          · intro n hlt hle
            exact hscan.fail n (by omega) hle

theorem findSlidingWindow_isHit {w : Nat} (hspec : q.kvCacheSpec.attention = .slidingWindow w) :
    ∃ rows, q.findSlidingWindow w maxLength = .ok rows ∧ q.IsHit maxLength rows := by
  have hw : 2 ≤ w := by simpa [SpecOk, hspec] using hr.specOk
  have hbs : (0 : Int) < q.kvCacheSpec.blockSize := by exact_mod_cast hr.blockSize_pos
  have hcontiguous : 1 ≤ cdiv ((w : Int) - 1) q.kvCacheSpec.blockSize := by
    rw [cdiv_eq hbs]
    exact (Int.le_ediv_iff_mul_le hbs).mpr (by omega)
  have hscan : SlidingScan q (maxLength / q.kvCacheSpec.blockSize)
      (cdiv ((w : Int) - 1) q.kvCacheSpec.blockSize).toNat (maxLength / q.kvCacheSpec.blockSize) 0
      (List.replicate (maxLength / q.kvCacheSpec.blockSize) q.nullRow) := by
    refine ⟨by simp, by omega, by omega, ?_, by omega, by simp, by omega⟩
    intro k row hk
    rw [List.getElem?_replicate] at hk
    split at hk
    · exact Or.inl (by simpa using hk.symm)
    · simp at hk
  obtain ⟨rows, hrows, hhit⟩ := slidingLoop_isHit hr hspec _ _ _ hscan
  refine ⟨rows, ?_, hhit⟩
  simp [findSlidingWindow, contiguousBlocks, hr.noEagle, hrows, dropEagle]

/-! ## Chunked local attention -/

/-- The loop takes the hits from `i` on, up to the first miss. -/
theorem chunkedLoop_spec (i n : Nat) (hn : i + n ≤ maxLength / q.kvCacheSpec.blockSize) :
    ∃ found, q.chunkedLoop (List.range' i n) = .ok found ∧ found.length ≤ n ∧
      (∀ k, k < found.length → found[k]? = q.cachedAt (i + k) ∧ (q.cachedAt (i + k)).isSome) ∧
      (found.length < n → q.cachedAt (i + found.length) = none) := by
  induction n generalizing i with
  | zero => exact ⟨[], rfl, le_rfl, by simp, by simp⟩
  | succ n ih =>
    have hlookup := lookup_eq hr (by omega : i < maxLength / q.kvCacheSpec.blockSize)
    simp only [List.range'_succ, chunkedLoop, hlookup, ok_bind]
    cases hc : q.cachedAt i with
    | none => exact ⟨[], rfl, by simp, by simp, fun _ => hc⟩
    | some cached =>
      obtain ⟨found, hfound, hlen, hrow, hmiss⟩ := ih (i + 1) (by omega)
      refine ⟨cached :: found, by simp [hfound], by simpa using hlen, ?_, ?_⟩
      · rintro (_ | k) hk
        · simp [hc]
        · have := hrow k (by simpa using hk)
          rwa [show i + 1 + k = i + (k + 1) by omega] at this
      · intro hlt
        have := hmiss (by simpa using hlt)
        rwa [show i + 1 + found.length = i + (cached :: found).length by simp; omega] at this

theorem findChunkedLocal_isHit {c : Nat} (hspec : q.kvCacheSpec.attention = .chunkedLocal c) :
    ∃ rows, q.findChunkedLocal c maxLength = .ok rows ∧ q.IsHit maxLength rows := by
  have hpos := hr.blockSize_pos
  obtain ⟨hc, ⟨d, rfl⟩, halign⟩ : 0 < c ∧ q.kvCacheSpec.blockSize ∣ c ∧
      q.kvCacheSpec.blockSize = q.alignmentTokens := by simpa [SpecOk, hspec] using hr.specOk
  have hneeds := fun m k => KVCacheSpec.needs_chunkedLocal (n := m) (k := k) hpos hspec
  set maxNumBlocks := maxLength / q.kvCacheSpec.blockSize with hmax
  have hstart : localAttentionStartIdx (q.kvCacheSpec.blockSize * d) maxLength /
      q.kvCacheSpec.blockSize = maxNumBlocks / d * d := by
    unfold localAttentionStartIdx
    split
    case isTrue =>
      rw [← Nat.div_div_eq_div_mul, Nat.mul_left_comm, Nat.mul_div_cancel_left _ hpos]
    case isFalse h =>
      have : maxNumBlocks = 0 := by simp [hmax, show maxLength = 0 by omega]
      simp [this]
  have hle : maxNumBlocks / d * d ≤ maxNumBlocks := Nat.div_mul_le_self _ _
  obtain ⟨found, hfound, hlen, hrow, hmiss⟩ := chunkedLoop_spec hr (maxNumBlocks / d * d)
    (maxNumBlocks - maxNumBlocks / d * d) (by omega)
  set start := maxNumBlocks / d * d with hstartDef
  have hlength : (List.replicate start q.nullRow ++ found).length = start + found.length := by simp
  have hafter : ∀ k, start ≤ k → k < start + found.length →
      (List.replicate start q.nullRow ++ found)[k]? = q.cachedAt k ∧ (q.cachedAt k).isSome := by
    intro k hk hlt
    rw [List.getElem?_append_right (by simpa using hk), List.length_replicate]
    have := hrow (k - start) (by omega)
    rwa [show start + (k - start) = k by omega] at this
  -- a length found starts in the chunk that was searched
  have hchunk : ∀ k, (start + found.length) / d * d ≤ k → start ≤ k := by
    intro k hk
    have hmono : maxNumBlocks / d ≤ (start + found.length) / d := by
      rcases Nat.eq_zero_or_pos d with rfl | hd
      · simp
      · exact (Nat.le_div_iff_mul_le hd).mpr (by omega)
    exact (Nat.mul_le_mul_right d hmono).trans hk
  refine ⟨List.replicate start q.nullRow ++ found, ?_, greatest_of_blocks hr ?_, ?_, ?_⟩
  · simp only [findChunkedLocal, hr.noEagle, halign]
    rw [← halign, hstart, hfound]
    rfl
  · rw [hlength]
    constructor
    · refine ⟨by omega, halign ▸ Nat.dvd_mul_left _ _, ?_⟩
      intro k hk
      obtain ⟨hlt, hge⟩ := (hneeds _ k).mp hk
      exact (hafter k (hchunk k hge) hlt).2
    · rintro n ⟨hn, _, hserves⟩
      by_contra hgt
      have hmono : n / d * d ≤ start := Nat.mul_le_mul_right d (Nat.div_le_div_right hn)
      have hsome := hserves (start + found.length) ((hneeds n _).mpr ⟨by omega, by omega⟩)
      rw [hmiss (by omega)] at hsome
      simp at hsome
  · intro k row hk
    rcases Nat.lt_or_ge k start with hlt | hge
    · rw [List.getElem?_append_left (by simpa using hlt), List.getElem?_replicate_of_lt hlt] at hk
      exact Or.inl (by simpa using hk.symm)
    · have hklt : k < start + found.length := hlength ▸ (List.getElem?_eq_some_iff.mp hk).1
      exact Or.inr ((hafter k hge hklt).1 ▸ hk)
  · intro k hk
    rw [hlength] at hk
    obtain ⟨hlt, hge⟩ := (hneeds _ k).mp hk
    exact (hafter k (hchunk k hge) hlt).1

/-! ## Mamba -/

/-- The loop over the blocks below `i` finds the last aligned hit. -/
theorem mambaLoop_spec (hspec : q.kvCacheSpec.attention = .mamba) (i : Nat)
    (hi : i ≤ maxLength / q.kvCacheSpec.blockSize) :
    ∃ rows, q.mambaLoop i = .ok rows ∧
      GreatestBelow (fun n => q.Servable (n * q.kvCacheSpec.blockSize)) i rows.length ∧ ∀ k row, rows[k]? = some row →
        (k + 1 ≠ rows.length ∧ row = q.nullRow) ∨ (k + 1 = rows.length ∧ q.cachedAt k = some row) := by
  have hneeds := fun m k => KVCacheSpec.needs_mamba (n := m) (k := k) hr.blockSize_pos hspec
  induction i with
  | zero =>
    refine ⟨[], rfl, .self ⟨by simp, ?_⟩, by simp⟩
    intro k hk
    have := (hneeds 0 k).mp (by simpa using hk)
    omega
  | succ i ih =>
    have hlookup := lookup_eq hr (by omega : i < maxLength / q.kvCacheSpec.blockSize)
    obtain ⟨rows, hrows, hgreatest, hrow⟩ := ih (by omega)
    simp only [mambaLoop, hlookup, ok_bind]
    cases hc : q.cachedAt i with
    | none =>
      refine ⟨rows, hrows, hgreatest.succ ?_, hrow⟩
      intro hserv
      have hsome := hserv.2 i ((hneeds _ i).mpr rfl)
      rw [hc] at hsome
      simp at hsome
    | some cached =>
      cases hun : q.unaligned (i + 1) with
      | true =>
        refine ⟨rows, by simpa using hrows, hgreatest.succ ?_, hrow⟩
        exact fun hserv => (unaligned_eq_true hr).mp hun hserv.1
      | false =>
        refine ⟨List.replicate i q.nullRow ++ [cached], rfl, ?_, ?_⟩
        · simp only [List.length_append, List.length_replicate]
          refine .self ⟨(unaligned_eq_false hr).mp hun, ?_⟩
          intro k hk
          obtain rfl : k = i := by have := (hneeds _ k).mp hk; omega
          simp [hc]
        · intro k row hk
          simp only [List.length_append, List.length_replicate, List.length_singleton]
          rcases Nat.lt_trichotomy k i with hlt | rfl | hgt
          · rw [List.getElem?_append_left (by simpa using hlt),
              List.getElem?_replicate_of_lt hlt] at hk
            exact Or.inl ⟨by omega, by simpa using hk.symm⟩
          · rw [List.getElem?_append_right (by simp)] at hk
            exact Or.inr ⟨rfl, by simpa [hc] using hk⟩
          · have hlt := (List.getElem?_eq_some_iff.mp hk).1
            simp only [List.length_append, List.length_replicate, List.length_singleton] at hlt
            omega

theorem findMamba_isHit (hspec : q.kvCacheSpec.attention = .mamba) :
    ∃ rows, q.findMamba maxLength = .ok rows ∧ q.IsHit maxLength rows := by
  obtain ⟨rows, hrows, hgreatest, hrow⟩ := mambaLoop_spec hr hspec _ le_rfl
  refine ⟨rows, hrows, greatest_of_blocks hr hgreatest, ?_, ?_⟩
  · intro k row hk
    rcases hrow k row hk with ⟨_, hnull⟩ | ⟨_, hcached⟩
    · exact Or.inl hnull
    · exact Or.inr hcached
  · intro k hk
    have hlast : rows.length = k + 1 := (KVCacheSpec.needs_mamba hr.blockSize_pos hspec).mp hk
    obtain ⟨row, hk'⟩ : ∃ row, rows[k]? = some row := ⟨_, List.getElem?_eq_getElem (by omega)⟩
    rcases hrow k _ hk' with ⟨hne, _⟩ | ⟨_, hcached⟩
    · exact absurd hlast.symm hne
    · rw [hcached, hk']

/-! ## Every manager -/

/-- Every manager's search returns the greatest aligned length its groups can serve. -/
theorem findLongestCacheHit_isHit : ∃ rows, q.findLongestCacheHit maxLength = .ok rows ∧ q.IsHit maxLength rows := by
  unfold findLongestCacheHit
  cases hspec : q.kvCacheSpec.attention with
  | fullAttention => exact findFullAttention_isHit hr hspec
  | slidingWindow w => exact findSlidingWindow_isHit hr hspec
  | chunkedLocal c => exact findChunkedLocal_isHit hr hspec
  | mamba => exact findMamba_isHit hr hspec

end

/-! ## Where the blocks come from -/

/-- Every row is that of the null blocks, or that of the blocks cached under the hash at its position. -/
def FromCache (q : Search β) (rows : List (List Nat)) : Prop :=
  ∀ k row, rows[k]? = some row → row = q.nullRow ∨ q.cachedAt k = some row

theorem FromCache.mono {rows rows' : List (List Nat)} (h : q.FromCache rows) (hsub : rows' <+: rows) :
    q.FromCache rows' := by
  obtain ⟨rest, rfl⟩ := hsub
  intro k row hk
  have hlt := (List.getElem?_eq_some_iff.mp hk).1
  exact h k row (by rwa [List.getElem?_append_left hlt])

theorem cachedAt_of_lookup {i : Nat} {cached : List Nat} (h : q.lookup i = .ok (some cached)) :
    q.cachedAt i = some cached := by
  unfold lookup at h
  unfold cachedAt
  cases hh : q.blockHashes[i]? with
  | none =>
    rw [hh] at h
    cases h
  | some blockHash =>
    rw [hh] at h
    exact Except.ok.inj h

theorem fromCache_takeCached (n : Nat) : q.FromCache (q.takeCached (q.blockHashes.take n)) := by
  intro k row hk
  have hlt := (List.getElem?_eq_some_iff.mp hk).1
  obtain ⟨hlen, hrow, -⟩ := takeCached_spec (q := q) (q.blockHashes.take n)
  have hkn : k < n := by
    rw [List.length_take] at hlen
    omega
  rw [hrow k hlt, List.getElem?_take_of_lt hkn] at hk
  exact Or.inr hk

theorem fromCache_slidingLoop (c i n : Nat) {computed rows : List (List Nat)} (h : q.FromCache computed)
    (hrun : q.slidingLoop c i n computed = .ok rows) : q.FromCache rows := by
  induction i generalizing n computed with
  | zero =>
    cases hrun
    exact h.mono ((List.take_prefix _ _).trans (List.take_prefix _ _))
  | succ i ih =>
    obtain ⟨cached, hlookup, hrun⟩ := bind_eq_ok.mp hrun
    cases cached with
    | none => exact ih 0 h hrun
    | some cached =>
      have hset : q.FromCache (computed.set i cached) := by
        intro k row hk
        by_cases hik : i = k
        · subst hik
          obtain ⟨hlt, hrow⟩ := List.getElem?_eq_some_iff.mp hk
          rw [List.getElem_set_self] at hrow
          exact Or.inr (hrow ▸ cachedAt_of_lookup hlookup)
        · rw [List.getElem?_set_ne hik] at hk
          exact h k row hk
      dsimp only at hrun
      split at hrun
      · exact ih n h hrun
      · split at hrun
        · cases hrun
          exact hset.mono (List.take_prefix _ _)
        · exact ih (n + 1) hset hrun

theorem chunkedLoop_cached {is : List Nat} {found : List (List Nat)} (hrun : q.chunkedLoop is = .ok found) (j : Nat)
    (row : List Nat) (hj : found[j]? = some row) : ∃ i, is[j]? = some i ∧ q.cachedAt i = some row := by
  induction is generalizing found j with
  | nil =>
    cases hrun
    cases hj
  | cons i is ih =>
    obtain ⟨cached, hlookup, hrun⟩ := bind_eq_ok.mp hrun
    cases cached with
    | none =>
      cases hrun
      cases hj
    | some cached =>
      obtain ⟨rest, hrest, hrun⟩ := bind_eq_ok.mp hrun
      cases hrun
      cases j with
      | zero =>
        obtain rfl := Option.some.inj hj
        exact ⟨i, rfl, cachedAt_of_lookup hlookup⟩
      | succ j => exact ih hrest j hj

theorem fromCache_mambaLoop {i : Nat} {rows : List (List Nat)} (hrun : q.mambaLoop i = .ok rows) :
    q.FromCache rows := by
  induction i with
  | zero =>
    cases hrun
    exact fun k row hk => by cases hk
  | succ i ih =>
    obtain ⟨cached, hlookup, hrun⟩ := bind_eq_ok.mp hrun
    cases cached with
    | none => exact ih hrun
    | some cached =>
      dsimp only at hrun
      split at hrun
      · exact ih hrun
      · cases hrun
        intro k row hk
        rcases Nat.lt_or_ge k i with hlt | hge
        · rw [List.getElem?_append_left (by simpa using hlt), List.getElem?_replicate_of_lt hlt] at hk
          exact Or.inl (Option.some.inj hk).symm
        · have hlast := (List.getElem?_eq_some_iff.mp hk).1
          simp only [List.length_append, List.length_replicate, List.length_singleton] at hlast
          obtain rfl : k = i := by omega
          rw [List.getElem?_append_right (by simp)] at hk
          simp only [List.length_replicate, Nat.sub_self] at hk
          exact Or.inr (hk ▸ cachedAt_of_lookup hlookup)

/-- No search returns a block that is not cached under the hash at its position. -/
theorem fromCache_of_findLongestCacheHit {rows : List (List Nat)} (hrun : q.findLongestCacheHit maxLength = .ok rows) :
    q.FromCache rows := by
  unfold findLongestCacheHit at hrun
  cases hspec : q.kvCacheSpec.attention with
  | fullAttention =>
    rw [hspec] at hrun
    cases hrun
    refine FromCache.mono ?_ (List.take_prefix _ _)
    split
    · exact (fromCache_takeCached _).mono (List.dropLast_prefix _)
    · exact fromCache_takeCached _
  | slidingWindow w =>
    rw [hspec] at hrun
    obtain ⟨computed, hloop, hdrop⟩ := bind_eq_ok.mp hrun
    have hnull : q.FromCache (List.replicate (maxLength / q.kvCacheSpec.blockSize) q.nullRow) := by
      intro k row hk
      exact Or.inl (List.eq_of_mem_replicate (List.mem_of_getElem? hk))
    have hcomputed := fromCache_slidingLoop _ _ _ hnull hloop
    unfold dropEagle at hdrop
    split at hdrop
    · obtain ⟨-, -, hdrop⟩ := bind_eq_ok.mp hdrop
      cases hdrop
      exact hcomputed.mono (List.dropLast_prefix _)
    · cases hdrop
      exact hcomputed
  | chunkedLocal c =>
    rw [hspec] at hrun
    obtain ⟨-, -, hrun⟩ := bind_eq_ok.mp hrun
    obtain ⟨-, -, hrun⟩ := bind_eq_ok.mp hrun
    obtain ⟨found, hloop, hrun⟩ := bind_eq_ok.mp hrun
    cases hrun
    intro k row hk
    rcases Nat.lt_or_ge k (localAttentionStartIdx c maxLength / q.kvCacheSpec.blockSize) with hlt | hge
    · rw [List.getElem?_append_left (by simpa using hlt), List.getElem?_replicate_of_lt hlt] at hk
      exact Or.inl (Option.some.inj hk).symm
    · rw [List.getElem?_append_right (by simpa using hge), List.length_replicate] at hk
      obtain ⟨i, hi, hcached⟩ := chunkedLoop_cached hloop _ row hk
      obtain ⟨hlt, hi⟩ := List.getElem?_eq_some_iff.mp hi
      rw [List.getElem_range', Nat.one_mul, Nat.add_sub_cancel' hge] at hi
      exact Or.inr (hi ▸ hcached)
  | mamba =>
    rw [hspec] at hrun
    exact fromCache_mambaLoop hrun

/-- Full attention serves every shorter prefix too. -/
theorem Serves.mono (hpos : 0 < q.kvCacheSpec.blockSize)
    (hspec : q.kvCacheSpec.attention = .fullAttention) {m n : Nat} (hle : m ≤ n)
    (h : q.Serves (n * q.kvCacheSpec.blockSize)) : q.Serves (m * q.kvCacheSpec.blockSize) := by
  intro k hk
  have hlt : k < m := (KVCacheSpec.needs_fullAttention hpos hspec).mp hk
  exact h k ((KVCacheSpec.needs_fullAttention hpos hspec).mpr (by omega))

end Search

end CacheHit

end Yuan.Core
