import Yuan.Core.MambaTables

/-!
# Where the blocks of a `MambaManager` stand

The lemmas of `MambaTables` count the blocks of a table; these say at which positions they are. A table
only loses blocks that lie before the computed tokens, and growing leaves what stands before the
speculative blocks, and puts blocks at the last `1 + num_speculative_blocks` positions.
-/

namespace Yuan.Core

/-- There is a block at this position, and not the null block. -/
def HoldsBlock (blocks : List Nat) (p : Nat) : Prop := ∃ b, blocks[p]? = some b ∧ b ≠ 0

theorem HoldsBlock.congr {blocks blocks' : List Nat} {p p' : Nat} (h : HoldsBlock blocks p)
    (hsame : blocks'[p']? = blocks[p]?) : HoldsBlock blocks' p' := by
  obtain ⟨b, hb, hne⟩ := h
  exact ⟨b, hsame.trans hb, hne⟩

/-- What stands before the speculative blocks stays where it is. -/
theorem reuseSpeculative_of_lt {n a c p : Nat} {blocks : List Nat} (hp : p < a) (h : a + c ≤ blocks.length) :
    (reuseSpeculative 0 n (List.range' a c) blocks)[p]? = blocks[p]? := by
  induction c generalizing a blocks with
  | zero => rfl
  | succ c ih =>
    rw [List.range'_succ, reuseSpeculative]
    split
    · rw [ih (by omega) (by simp only [List.length_set, List.length_append]; omega)]
      rw [List.getElem?_set_ne (by omega), List.getElem?_append_left (by omega)]
    · rfl

namespace MambaManager

open KVState

variable {κ : Type} [DecidableEq κ] {m : MambaManager} {s s' : MambaState κ} {requestId : Nat}
variable {cfg : BlockPool.Config} {l : List Nat} {numTokens : Int} {newBlocks : List Nat}

/-! ## Blocks that are skipped -/

section

omit [DecidableEq κ]

theorem base_removeSkippedBlocks_kept (h : s.kv.Ok cfg l) {numComputedTokens : Int} {kv : KVState κ Row}
    (hrun : m.toSingleTypeKVCacheManager.removeSkippedBlocks s.kv requestId numComputedTokens = .ok kv)
    {p : Nat} (hp : numComputedTokens ≤ (p + 1) * m.blockSize) :
    (kv.blocksOf (m.row requestId))[p]? = (s.kv.blocksOf (m.row requestId))[p]? := by
  unfold SingleTypeKVCacheManager.removeSkippedBlocks KVCacheSpec.getNumSkippedTokens at hrun
  rw [m.mamba] at hrun
  dsimp only at hrun
  split at hrun
  · cases hrun
    rfl
  · next hpos =>
    obtain ⟨kv', removed, hrun', -, -, hrow, -⟩ := h.removeSkippedBlocks (m.row requestId)
      ((numComputedTokens - 1) / m.blockSize).toNat
    obtain rfl : kv' = kv := Except.ok.inj (hrun'.symm.trans hrun)
    have hle : ((numComputedTokens - 1) / m.blockSize).toNat ≤ p := by
      have hlt : (numComputedTokens - 1) / m.blockSize < p + 1 := by
        rw [Int.ediv_lt_iff_lt_mul m.blockSize_pos']
        omega
      omega
    obtain ⟨-, -, -, hdrop⟩ := nullOut_spec
      (min ((numComputedTokens - 1) / m.blockSize).toNat (s.kv.blocksOf (m.row requestId)).length)
      (s.kv.blocksOf (m.row requestId))
    rw [hrow]
    generalize hn : min ((numComputedTokens - 1) / m.blockSize).toNat
      (s.kv.blocksOf (m.row requestId)).length = n at hdrop ⊢
    obtain ⟨i, rfl⟩ := Nat.exists_eq_add_of_le (show n ≤ p by omega)
    rw [← List.getElem?_drop, ← List.getElem?_drop, hdrop]

/-- Only blocks before the computed tokens, of which the drafts may still be rejected, are removed. -/
theorem removeSkippedBlocks_kept (h : s.kv.Ok cfg l) {numComputedTokens : Int}
    (hrun : m.removeSkippedBlocks s requestId numComputedTokens = .ok s') {p : Nat}
    (hp : numComputedTokens - m.numSpeculativeBlocks ≤ (p + 1) * m.blockSize) :
    (s'.kv.blocksOf (m.row requestId))[p]? = (s.kv.blocksOf (m.row requestId))[p]? := by
  have hpos := m.blockSize_pos'
  have hp : max 0 (numComputedTokens - m.numSpeculativeBlocks) ≤ (p + 1) * m.blockSize :=
    max_le (by positivity) hp
  obtain ⟨kv, hkv, hrest⟩ := bind_eq_ok.mp hrun
  have hkept := base_removeSkippedBlocks_kept h hkv hp
  have hok : ∃ l', kv.Ok cfg l' := by
    unfold SingleTypeKVCacheManager.removeSkippedBlocks at hkv
    dsimp only at hkv
    split at hkv
    · cases hkv
      exact ⟨l, h⟩
    · obtain ⟨kv', removed, hrun', hok, -⟩ := h.removeSkippedBlocks (m.row requestId) _
      obtain rfl : kv' = kv := Except.ok.inj (hrun'.symm.trans hkv)
      exact ⟨_, hok⟩
  obtain ⟨l', hok⟩ := hok
  split at hrest
  · cases hrest
    exact hkept
  · next idx _ =>
    split at hrest
    · next hidx =>
      obtain ⟨kv', hfree, hrest⟩ := bind_eq_ok.mp hrest
      have hlt : idx < (kv.blocksOf (m.row requestId)).length := by
        by_contra hge
        unfold KVState.freeBlockAt at hfree
        rw [List.getElem?_eq_none (by omega)] at hfree
        cases hfree
      obtain ⟨kv'', hrun', -, -, hrow, -⟩ := hok.freeBlockAt hlt
      obtain rfl : kv'' = kv' := Except.ok.inj (hrun'.symm.trans hfree)
      cases hrest
      -- the block of the state two steps ago ends before the computed tokens
      have hne : idx ≠ p := by
        rintro rfl
        have hbefore : ((idx : Int) + 1) * m.blockSize <
            max 0 (numComputedTokens - m.numSpeculativeBlocks) := (lt_cdiv_iff hpos).mp (by omega)
        omega
      rw [hrow, List.getElem?_set_ne hne]
      exact hkept
    · cases hrest
      exact hkept

/-! ## Growth -/

/-- The old blocks in their new places, with `n` positions before the running state: what stood before
the speculative blocks has not moved, and those are at the end now. -/
theorem placeOldBlocks_holds (h : s.kv.Ok cfg l) {kept n : Nat}
    (hlength : (s.kv.blocksOf (m.row requestId)).length = kept + m.numSpeculativeBlocks)
    (hallocated : requestId ∈ s.allocatedBlockReqs) (hn : kept ≤ n)
    (hholds : ∀ p, kept ≤ p → p < kept + m.numSpeculativeBlocks → HoldsBlock (s.kv.blocksOf (m.row requestId)) p) :
    (m.placeOldBlocks s requestId n).length = n + m.numSpeculativeBlocks ∧
      (∀ p, p < kept → (m.placeOldBlocks s requestId n)[p]? = (s.kv.blocksOf (m.row requestId))[p]?) ∧
      ∀ p, n ≤ p → p < n + m.numSpeculativeBlocks → HoldsBlock (m.placeOldBlocks s requestId n) p := by
  unfold placeOldBlocks
  rw [h.pool.nullBlock, if_pos hallocated]
  generalize s.kv.blocksOf (m.row requestId) = blocks at hlength hholds ⊢
  rw [show blocks.length - m.numSpeculativeBlocks = kept by omega]
  generalize hpadded : blocks ++ List.replicate (n - blocks.length) 0 = padded
  have hlen : padded.length = max blocks.length n := by
    rw [← hpadded, List.length_append, List.length_replicate]
    omega
  have hold : ∀ p, p < blocks.length → padded[p]? = blocks[p]? := by
    intro p hp
    rw [← hpadded, List.getElem?_append_left hp]
  obtain ⟨hmovedLen, -, hstay, hmoved⟩ :=
    reuseSpeculative_spec n kept m.numSpeculativeBlocks padded (by omega)
  refine ⟨by omega, ?_, ?_⟩
  · intro p hp
    rw [reuseSpeculative_of_lt hp (by omega), hold p (by omega)]
  · intro p hle hlt
    by_cases hp : p < padded.length
    · apply (hholds p (by omega) (by omega)).congr
      rw [hstay p (by omega) hp, hold p (by omega)]
    · obtain ⟨i, rfl⟩ := Nat.exists_eq_add_of_le (not_lt.mp hp)
      apply (hholds (kept + i) (by omega) (by omega)).congr
      rw [hmoved i (by omega), hold _ (by omega)]

theorem placeOldBlocks_of_new (h : s.kv.Ok cfg l) {n : Nat} (hnew : requestId ∉ s.allocatedBlockReqs)
    (hn : (s.kv.blocksOf (m.row requestId)).length ≤ n) :
    (m.placeOldBlocks s requestId n).length = n ∧ ∀ p, p < (s.kv.blocksOf (m.row requestId)).length →
        (m.placeOldBlocks s requestId n)[p]? = (s.kv.blocksOf (m.row requestId))[p]? := by
  unfold placeOldBlocks
  rw [h.pool.nullBlock, if_neg hnew]
  refine ⟨?_, fun p hp => List.getElem?_append_left hp⟩
  rw [List.length_append, List.length_replicate]
  omega

end

/-- Blocks from the free queue are never the null block. -/
theorem appendNewBlocks_holds {ρ : Type} [DecidableEq ρ] {kv kv' : KVState κ ρ} (h : kv.Ok cfg l) {r : ρ}
    {n : Nat} {taken : List Nat} (hrun : kv.appendNewBlocks r n = .ok (taken, kv')) :
    (kv'.blocksOf r).length = (kv.blocksOf r).length + n ∧
      (∀ p, p < (kv.blocksOf r).length → (kv'.blocksOf r)[p]? = (kv.blocksOf r)[p]?) ∧
      ∀ p, (kv.blocksOf r).length ≤ p → p < (kv.blocksOf r).length + n → HoldsBlock (kv'.blocksOf r) p := by
  have hfree := Nat.cast_le.mp (h.le_length_of_appendNewBlocks hrun)
  obtain ⟨kv'', hrun', -, -, hrow, -⟩ := h.appendNewBlocks (r := r) hfree
  obtain ⟨rfl, rfl⟩ := Prod.mk.inj (Except.ok.inj (hrun'.symm.trans hrun))
  have htake : (l.take n).length = n := by
    rw [List.length_take]
    omega
  rw [hrow]
  refine ⟨by rw [List.length_append, htake], fun p hp => List.getElem?_append_left hp, ?_⟩
  intro p hle hlt
  obtain ⟨i, rfl⟩ := Nat.exists_eq_add_of_le hle
  have hi : i < (l.take n).length := by omega
  have hmem := List.mem_of_mem_take (List.getElem_mem hi)
  refine ⟨(l.take n)[i], ?_, ((h.pool.mem_free _).mp hmem).1.1⟩
  rw [List.getElem?_append_right (by omega), Nat.add_sub_cancel_left, List.getElem?_eq_getElem hi]

/-- When the pool runs out of blocks, that is no failed assertion. -/
theorem appendNewBlocks_no_assertion {ρ : Type} [DecidableEq ρ] {kv : KVState κ ρ} (h : kv.Ok cfg l) {r : ρ}
    {n : Nat} {msg : String} : kv.appendNewBlocks r n ≠ .error (.assertionError msg) := by
  intro hrun
  by_cases hn : n ≤ l.length
  · obtain ⟨kv', hrun', -⟩ := h.appendNewBlocks (r := r) hn
    rw [hrun] at hrun'
    cases hrun'
  · unfold KVState.appendNewBlocks BlockPool.getNewBlocks at hrun
    rw [h.pool.getNumFreeBlocks, if_pos (by omega)] at hrun
    cases hrun

/-- A table that is not changed has its length already. -/
theorem allocateNewBlocks_inv (hrun : m.allocateNewBlocks s requestId numTokens = .ok (newBlocks, s')) :
    (m.numRequiredBlocks numTokens = (s.kv.blocksOf (m.row requestId)).length ∧ s' = s) ∨
      ∃ placed kv taken,
        m.placeOldBlocks s requestId (m.numRequiredBlocks numTokens - m.numSpeculativeBlocks - 1).toNat = placed ∧
        ((s.kv.blocksOf (m.row requestId)).length : Int) < m.numRequiredBlocks numTokens ∧
        KVState.appendNewBlocks { s.kv with reqToBlocks := s.kv.reqToBlocks.set (m.row requestId) placed }
          (m.row requestId) (m.numRequiredBlocks numTokens - placed.length) = .ok (taken, kv) ∧
        s' = { s with
          kv
          lastStateBlockIdx := m.growLastState s requestId (s.kv.blocksOf (m.row requestId)).length
          allocatedBlockReqs := s.allocatedBlockReqs.insert requestId } := by
  unfold allocateNewBlocks at hrun
  dsimp only at hrun
  split at hrun
  · next hlen =>
    cases hrun
    exact Or.inl ⟨hlen, rfl⟩
  · obtain ⟨_, hgrow, hrun⟩ := bind_eq_ok.mp hrun
    obtain ⟨_, -, hrun⟩ := bind_eq_ok.mp hrun
    obtain ⟨⟨taken, kv⟩, happend, hrun⟩ := bind_eq_ok.mp hrun
    cases hrun
    exact Or.inr ⟨_, kv, taken, rfl, by simpa using pyAssert_eq_ok.mp hgrow, happend, rfl⟩

/-- The table in the end, when the old blocks are in their places: what is missing of its length is new. -/
theorem appendMissing_holds (h : s.kv.Ok cfg l)
    (hbehind : requestId ∈ s.allocatedBlockReqs →
      s.kv.cachedOf (m.row requestId) + m.numSpeculativeBlocks ≤ (s.kv.blocksOf (m.row requestId)).length)
    {n missing : Nat} {placed taken : List Nat} {kv : KVState κ Row}
    (hplaced : m.placeOldBlocks s requestId n = placed)
    {numNewBlocks : Int} (hmissing : numNewBlocks = missing)
    (happend : KVState.appendNewBlocks { s.kv with reqToBlocks := s.kv.reqToBlocks.set (m.row requestId) placed }
      (m.row requestId) numNewBlocks = .ok (taken, kv)) :
    (kv.blocksOf (m.row requestId)).length = placed.length + missing ∧
      (∀ p, p < placed.length → (kv.blocksOf (m.row requestId))[p]? = placed[p]?) ∧
      ∀ p, placed.length ≤ p → p < placed.length + missing → HoldsBlock (kv.blocksOf (m.row requestId)) p := by
  obtain ⟨-, hcount⟩ := placeOldBlocks_spec h hbehind n
  rw [hplaced] at hcount
  rw [hmissing] at happend
  have hend := appendNewBlocks_holds (h.rearrange hcount) happend
  rwa [blocksOf_set] at hend

/-- The table of a request that was given blocks grows: the blocks before the speculative ones stay, and
the last `1 + num_speculative_blocks` positions hold blocks. -/
theorem allocateNewBlocks_allocated (h : s.kv.Ok cfg l) (hallocated : requestId ∈ s.allocatedBlockReqs)
    (hbehind : s.kv.cachedOf (m.row requestId) + m.numSpeculativeBlocks ≤
      (s.kv.blocksOf (m.row requestId)).length) {q q' : Nat}
    (hlength : (s.kv.blocksOf (m.row requestId)).length = q + m.numSpeculativeBlocks)
    (hholds : ∀ p, q ≤ p + 1 → p < q + m.numSpeculativeBlocks → HoldsBlock (s.kv.blocksOf (m.row requestId)) p)
    (hq' : cdiv numTokens m.blockSize = q') (hrun : m.allocateNewBlocks s requestId numTokens = .ok (newBlocks, s')) :
    q ≤ q' ∧ (s'.kv.blocksOf (m.row requestId)).length = q' + m.numSpeculativeBlocks ∧
      (∀ p, p < q → (s'.kv.blocksOf (m.row requestId))[p]? = (s.kv.blocksOf (m.row requestId))[p]?) ∧
      (∀ p, q' ≤ p + 1 → p < q' + m.numSpeculativeBlocks → HoldsBlock (s'.kv.blocksOf (m.row requestId)) p) ∧
      requestId ∈ s'.allocatedBlockReqs := by
  have hrequired : m.numRequiredBlocks numTokens = (q' + m.numSpeculativeBlocks : Nat) := by
    unfold numRequiredBlocks
    omega
  rcases allocateNewBlocks_inv hrun with ⟨hsame, rfl⟩ | ⟨placed, kv, taken, hplaced, hgrow, happend, rfl⟩
  · obtain rfl : q' = q := by omega
    exact ⟨le_rfl, hlength, fun _ _ => rfl, hholds, hallocated⟩
  · have hgrow : q < q' := by omega
    rw [show (m.numRequiredBlocks numTokens - m.numSpeculativeBlocks - 1).toNat = q' - 1 by omega] at hplaced
    obtain ⟨hlen, hkept, hmoved⟩ := placeOldBlocks_holds h hlength hallocated (show q ≤ q' - 1 by omega)
      (fun p hle hlt => hholds p (by omega) hlt)
    rw [hplaced] at hlen hkept hmoved
    obtain ⟨hend, hold, hnew⟩ := appendMissing_holds h (fun _ => hbehind) hplaced
      (show _ = ((1 : Nat) : Int) by omega) happend
    refine ⟨hgrow.le, ?_, ?_, ?_, by simp⟩
    · show (kv.blocksOf (m.row requestId)).length = _
      omega
    · intro p hp
      exact (hold p (by omega)).trans (hkept p hp)
    · intro p hle hlt
      by_cases hp : p < placed.length
      · exact (hmoved p (by omega) (by omega)).congr (hold p hp)
      · exact hnew p (by omega) (by omega)

/-- The first prefill of a request: its hits stay, and the running state and the speculative blocks are
new. -/
theorem allocateNewBlocks_new (h : s.kv.Ok cfg l) (hnew : requestId ∉ s.allocatedBlockReqs) {q' : Nat}
    (hhits : (s.kv.blocksOf (m.row requestId)).length < q') (hq' : cdiv numTokens m.blockSize = q')
    (hrun : m.allocateNewBlocks s requestId numTokens = .ok (newBlocks, s')) :
    (s'.kv.blocksOf (m.row requestId)).length = q' + m.numSpeculativeBlocks ∧
      (∀ p, q' ≤ p + 1 → p < q' + m.numSpeculativeBlocks → HoldsBlock (s'.kv.blocksOf (m.row requestId)) p) ∧
      requestId ∈ s'.allocatedBlockReqs := by
  have hrequired : m.numRequiredBlocks numTokens = (q' + m.numSpeculativeBlocks : Nat) := by
    unfold numRequiredBlocks
    omega
  rcases allocateNewBlocks_inv hrun with ⟨hsame, rfl⟩ | ⟨placed, kv, taken, hplaced, -, happend, rfl⟩
  · omega
  · rw [show (m.numRequiredBlocks numTokens - m.numSpeculativeBlocks - 1).toNat = q' - 1 by omega] at hplaced
    obtain ⟨hlen, -⟩ := placeOldBlocks_of_new h hnew (Nat.le_sub_one_of_lt hhits)
    rw [hplaced] at hlen
    obtain ⟨hend, -, hholds⟩ := appendMissing_holds h (fun hr => absurd hr hnew) hplaced
      (show _ = ((1 + m.numSpeculativeBlocks : Nat) : Int) by omega) happend
    refine ⟨?_, fun p hle hlt => hholds p (by omega) (by omega), by simp⟩
    show (kv.blocksOf (m.row requestId)).length = _
    omega

/-! ## The assertions -/

/-- An allocation fails its assertions exactly when the request has more blocks than it needs. -/
theorem allocateNewBlocks_asserts (h : s.kv.Ok cfg l) (hbehind : requestId ∈ s.allocatedBlockReqs →
      s.kv.cachedOf (m.row requestId) + m.numSpeculativeBlocks ≤ (s.kv.blocksOf (m.row requestId)).length)
    (hhits : requestId ∉ s.allocatedBlockReqs →
      ((s.kv.blocksOf (m.row requestId)).length : Int) ≤ cdiv numTokens m.blockSize) :
    (∃ msg, m.allocateNewBlocks s requestId numTokens = .error (.assertionError msg)) ↔
      m.numRequiredBlocks numTokens < (s.kv.blocksOf (m.row requestId)).length := by
  constructor
  · rintro ⟨msg, hrun⟩
    by_contra hle
    unfold allocateNewBlocks at hrun
    dsimp only at hrun
    split at hrun
    · cases hrun
    · next hne =>
      have hgrow : ((s.kv.blocksOf (m.row requestId)).length : Int) < m.numRequiredBlocks numTokens := by omega
      rw [decide_eq_true hgrow, pyAssert_true, ok_bind] at hrun
      generalize hn : (m.numRequiredBlocks numTokens - m.numSpeculativeBlocks - 1).toNat = n at hrun
      obtain ⟨hlen, hcount⟩ := placeOldBlocks_spec h hbehind n
      generalize m.placeOldBlocks s requestId n = placed at hrun hlen hcount
      -- one block is missing, and for a first prefill the speculative blocks too
      have hnew : (placed.length : Int) ≤ m.numRequiredBlocks numTokens ∧
          m.numRequiredBlocks numTokens - placed.length ≤
          ((if requestId ∈ s.allocatedBlockReqs then 1 else m.numSpeculativeBlocks + 1 : Nat) : Int) := by
        split at hlen
        · next hallocated =>
          rw [if_pos hallocated]
          have := hbehind hallocated
          omega
        · next hnew =>
          rw [if_neg hnew]
          have := hhits hnew
          omega
      rw [decide_eq_true hnew.2, pyAssert_true, ok_bind] at hrun
      obtain ⟨missing, hmissing⟩ := Int.eq_ofNat_of_zero_le (Int.sub_nonneg.mpr hnew.1)
      rw [hmissing] at hrun
      rcases bind_eq_error.mp hrun with hfail | ⟨⟨taken, kv⟩, -, hok⟩
      · exact appendNewBlocks_no_assertion (h.rearrange hcount) hfail
      · cases hok
  · intro hlt
    unfold allocateNewBlocks
    rw [if_neg (by omega), decide_eq_false (by omega)]
    exact ⟨_, rfl⟩

/-! ## First and last -/

/-- The hits of a new request are its table, with null blocks for all but the last one. -/
theorem allocateNewComputedBlocks_length {hits : List Nat} {numLocalComputedTokens : Int}
    (hnil : s.kv.blocksOf (m.row requestId) = []) (htotal : numLocalComputedTokens = hits.length * m.blockSize)
    (hrun : m.allocateNewComputedBlocks s requestId hits numLocalComputedTokens = .ok s') :
    (s'.kv.blocksOf (m.row requestId)).length = hits.length ∧ s'.allocatedBlockReqs = s.allocatedBlockReqs := by
  obtain ⟨kv, hkv, hrest⟩ := bind_eq_ok.mp hrun
  cases hrest
  refine ⟨?_, rfl⟩
  unfold SingleTypeKVCacheManager.allocateNewComputedBlocks at hkv
  split at hkv
  · obtain ⟨_, hempty, hkv⟩ := bind_eq_ok.mp hkv
    cases hkv
    rw [hnil, List.isEmpty_iff.mp (pyAssert_eq_ok.mp hempty)]
  · obtain ⟨_, -, hkv⟩ := bind_eq_ok.mp hkv
    unfold KVCacheSpec.getNumSkippedTokens at hkv
    rw [m.mamba] at hkv
    dsimp only at hkv
    have hskipped : (numLocalComputedTokens + 0 - 1) / m.blockSize = (hits.length : Int) - 1 := by
      have hpos := m.blockSize_pos'
      rw [htotal, show (hits.length : Int) * m.blockSize + 0 - 1 = (m.blockSize - 1) + (hits.length - 1) * m.blockSize
        by ring, Int.add_mul_ediv_right _ _ (by omega), Int.ediv_eq_zero_of_lt (by omega) (by omega)]
      ring
    rw [hskipped] at hkv
    obtain ⟨kv', hadd, hexternal⟩ := bind_eq_ok.mp hkv
    have hzero : ¬ 0 < (if 0 < (hits.length : Int) - 1 then
        min (numLocalComputedTokens + 0 - (numLocalComputedTokens + 0 - 1)) 0 else (0 : Int)) := by
      split <;> omega
    unfold SingleTypeKVCacheManager.allocateExternal at hexternal
    rw [if_neg hzero] at hexternal
    cases hexternal
    obtain ⟨pool, -, hadd⟩ := bind_eq_ok.mp hadd
    cases hadd
    rw [blocksOf_set, hnil, List.nil_append, List.length_append, List.length_replicate]
    split
    · rw [List.length_drop]
      omega
    · omega

omit [DecidableEq κ] in
theorem free_blocksOf (h : s.kv.Ok cfg l) (hrun : m.free s requestId = .ok s') :
    s'.kv.blocksOf (m.row requestId) = [] := by
  obtain ⟨kv, hkv, hrest⟩ := bind_eq_ok.mp hrun
  cases hrest
  obtain ⟨kv', hrun', -, -, hnil, -⟩ := h.free (m.row requestId)
  obtain rfl : kv' = kv := Except.ok.inj (hrun'.symm.trans hkv)
  exact hnil

end MambaManager
end Yuan.Core
