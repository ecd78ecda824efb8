import Yuan.Core.MambaManager

/-!
# What `MambaManager` does to a table

Each method gets its lemma here. Moving blocks within a row keeps the invariant of the block tables as
long as no block moves out of the cached part, and the speculative blocks are behind it.
-/

namespace Yuan.Core

/-! ## Moving blocks -/

theorem count_drop_move {blocks : List Nat} {a cached b : Nat} (ha : a < blocks.length)
    (hcached : cached ≤ a) (hb : b ≠ 0) :
    (((blocks ++ [blocks.getD a 0]).set a 0).drop cached).count b = (blocks.drop cached).count b := by
  have hget : ((blocks ++ [blocks.getD a 0]).drop cached)[a - cached]? = some (blocks.getD a 0) := by
    rw [List.getElem?_drop, Nat.add_sub_cancel' hcached, List.getElem?_append_left ha,
      List.getD_eq_getElem?_getD, List.getElem?_eq_getElem ha, Option.getD_some]
  have hset := KVState.count_set_zero hget hb
  rw [List.drop_set, if_neg (by omega)]
  rw [List.drop_append_of_le_length (by omega), List.count_append, List.count_singleton] at hset
  rw [List.drop_append_of_le_length (by omega)]
  by_cases hsame : blocks.getD a 0 = b
  · simp only [hsame, beq_self_eq_true] at hset ⊢
    omega
  · rw [if_neg hsame, if_neg (by simpa using hsame)] at hset
    simpa using hset

/-- Of the blocks at `a .. a + c`, those before `n` move to the end. -/
theorem reuseSpeculative_spec (n a c : Nat) (blocks : List Nat) (h : a + c ≤ blocks.length) :
    let moved := reuseSpeculative 0 n (List.range' a c) blocks
    let j := min c (n - a)
    moved.length = blocks.length + j ∧
      (∀ cached b, cached ≤ a → b ≠ 0 → (moved.drop cached).count b = (blocks.drop cached).count b) ∧
      (∀ p, a + j ≤ p → p < blocks.length → moved[p]? = blocks[p]?) ∧
      ∀ i, i < j → moved[blocks.length + i]? = blocks[a + i]? := by
  induction c generalizing a blocks with
  | zero =>
    rw [List.range'_zero]
    dsimp only [reuseSpeculative]
    exact ⟨by omega, fun _ _ _ _ => rfl, fun _ _ _ => rfl, fun i hi => by omega⟩
  | succ c ih =>
    have ha : a < blocks.length := by omega
    rw [List.range'_succ, reuseSpeculative]
    by_cases hn : a < n
    · rw [if_pos hn]
      generalize hblocks : (blocks ++ [blocks.getD a 0]).set a 0 = blocks'
      have hlength : blocks'.length = blocks.length + 1 := by
        rw [← hblocks, List.length_set, List.length_append, List.length_singleton]
      have hsame : ∀ p, p ≠ a → p < blocks.length → blocks'[p]? = blocks[p]? := by
        intro p hp hlt
        rw [← hblocks, List.getElem?_set_ne (Ne.symm hp), List.getElem?_append_left hlt]
      have hlast : blocks'[blocks.length]? = blocks[a]? := by
        rw [← hblocks, List.getElem?_set_ne (by omega), List.getElem?_append_right le_rfl, Nat.sub_self,
          List.getElem?_cons_zero, List.getD_eq_getElem?_getD, List.getElem?_eq_getElem ha, Option.getD_some]
      obtain ⟨hlen, hcount, hkept, hmoved⟩ := ih (a + 1) blocks' (by omega)
      refine ⟨by omega, ?_, ?_, ?_⟩
      · intro cached b hcached hb
        rw [hcount cached b (by omega) hb, ← hblocks]
        exact count_drop_move ha hcached hb
      · intro p hp hlt
        rw [hkept p (by omega) (by omega)]
        exact hsame p (by omega) hlt
      · intro i hi
        cases i with
        | zero =>
          rw [Nat.add_zero, hkept _ (by omega) (by omega)]
          exact hlast
        | succ i =>
          rw [show blocks.length + (i + 1) = blocks'.length + i by omega, hmoved i (by omega),
            show a + 1 + i = a + (i + 1) by omega]
          exact hsame _ (by omega) (by omega)
    · rw [if_neg hn]
      have hj : min (c + 1) (n - a) = 0 := by omega
      rw [hj]
      exact ⟨rfl, fun _ _ _ _ => rfl, fun _ _ _ => rfl, fun i hi => by omega⟩

namespace KVState

variable {κ ρ : Type} [DecidableEq ρ] {s s' : KVState κ ρ} {r : ρ}
variable {cfg : BlockPool.Config} {l : List Nat}

/-- The blocks of a row may change places, if none leaves the cached part. -/
theorem Ok.rearrange (h : Ok cfg s l) {blocks : List Nat}
    (hcount : ∀ cached b, cached ≤ s.cachedOf r → b ≠ 0 →
      (blocks.drop cached).count b = ((s.blocksOf r).drop cached).count b) :
    Ok cfg { s with reqToBlocks := s.reqToBlocks.set r blocks } l := by
  have htotal : ∀ b, b ≠ 0 → blocks.count b = (s.blocksOf r).count b :=
    fun b hb => hcount 0 b (Nat.zero_le _) hb
  apply h.update (onlyRow_set : s.OnlyRow r ⟨s.pool, s.reqToBlocks.set r blocks, s.numCachedBlock⟩) h.pool
  case husable =>
    intro b hb
    rw [blocksOf_set] at hb
    by_cases h0 : b = 0
    · exact Or.inl h0
    · apply h.usable r b
      rw [← List.count_pos_iff, ← htotal b h0]
      exact List.count_pos_iff.mpr hb
  case hnodup =>
    rw [blocksOf_set]
    apply nodup_of_count
    intro b h0
    rw [htotal b h0]
    exact count_le_one (h.nodup r) h0
  case hrefs =>
    intro b h0
    rw [blocksOf_set, htotal b h0]
  case hfresh =>
    intro b h0
    rw [blocksOf_set]
    show s.uncachedBut r b + (blocks.drop (s.cachedOf r)).count b ≤ 1
    rw [hcount _ b le_rfl h0]
    exact h.uncachedBut_le h0
  case hhash =>
    intro b h0 hne
    rw [blocksOf_set]
    show s.uncachedBut r b + (blocks.drop (s.cachedOf r)).count b = 0
    rw [hcount _ b le_rfl h0]
    exact h.uncachedBut_hash hne

theorem Ok.freeBlockAt (h : Ok cfg s l) {idx : Nat} (hidx : idx < (s.blocksOf r).length) :
    ∃ s', s.freeBlockAt r idx = .ok s' ∧ (∃ l', Ok cfg s' l') ∧ OnlyRow r s s' ∧
      s'.blocksOf r = (s.blocksOf r).set idx 0 ∧ s'.numCachedBlock = s.numCachedBlock := by
  have hget := List.getElem?_eq_getElem hidx
  unfold KVState.freeBlockAt
  rw [hget, h.pool.nullBlock]
  dsimp only
  split
  · next hnull =>
    refine ⟨s, rfl, ⟨l, h⟩, ⟨rfl, fun _ _ => rfl⟩, ?_, rfl⟩
    rw [← hnull, List.set_getElem_self]
  · next hne =>
    generalize hb : (s.blocksOf r)[idx] = b at hget hne
    have hcount : ∀ c, c ≠ 0 → ((s.blocksOf r).set idx 0).count c + [b].count c = (s.blocksOf r).count c := by
      intro c hc
      have := count_set_zero hget hc
      rw [List.count_singleton]
      simpa using this
    obtain ⟨pool, hrun, hok, -⟩ := h.leaveNull (Nulled.set_zero (s.blocksOf r) idx)
      (by simpa using Ne.symm hne) hcount
    refine ⟨_, ?_, ⟨_, hok⟩, onlyRow_set, by simp, rfl⟩
    rw [hrun]
    rfl

/-- New blocks are only handed out when there are enough free ones. -/
theorem Ok.le_length_of_appendNewBlocks [DecidableEq κ] (h : Ok cfg s l) {n : Int}
    {result : List Nat × KVState κ ρ} (hrun : s.appendNewBlocks r n = .ok result) : n ≤ l.length := by
  obtain ⟨taken, hget, -⟩ := bind_eq_ok.mp hrun
  by_contra hlt
  unfold BlockPool.getNewBlocks at hget
  rw [h.pool.getNumFreeBlocks, if_pos (by omega)] at hget
  cases hget

end KVState

namespace MambaManager

open KVState

variable {κ : Type} [DecidableEq κ] {m : MambaManager} {s s' : MambaState κ} {requestId : Nat}
variable {cfg : BlockPool.Config} {l : List Nat}

theorem blockSize_pos' (m : MambaManager) : 0 < m.blockSize := by
  have := m.blockSize_pos
  unfold SingleTypeKVCacheManager.blockSize
  omega

/-! ## What a method changes -/

omit [DecidableEq κ] in
/-- Blocks are only removed from the row of the request, and leave null blocks. -/
theorem removeSkippedBlocks_spec (h : s.kv.Ok cfg l) {numComputedTokens : Int}
    (hrun : m.removeSkippedBlocks s requestId numComputedTokens = .ok s') :
    ∃ kv, s' = { s with kv } ∧ (∃ l', kv.Ok cfg l') ∧ OnlyRow (m.row requestId) s.kv kv ∧
      kv.numCachedBlock = s.kv.numCachedBlock ∧
      (kv.blocksOf (m.row requestId)).length = (s.kv.blocksOf (m.row requestId)).length := by
  obtain ⟨kv, hkv, hrest⟩ := bind_eq_ok.mp hrun
  have hbase : (∃ l', kv.Ok cfg l') ∧ OnlyRow (m.row requestId) s.kv kv ∧
      kv.numCachedBlock = s.kv.numCachedBlock ∧
      (kv.blocksOf (m.row requestId)).length = (s.kv.blocksOf (m.row requestId)).length := by
    unfold SingleTypeKVCacheManager.removeSkippedBlocks at hkv
    dsimp only at hkv
    split at hkv
    · cases hkv
      exact ⟨⟨l, h⟩, ⟨rfl, fun _ _ => rfl⟩, rfl, rfl⟩
    · obtain ⟨kv', removed, hrun', hok, honly, hrow, -, hcached, -⟩ :=
        h.removeSkippedBlocks (m.row requestId) _
      obtain rfl : kv' = kv := Except.ok.inj (hrun'.symm.trans hkv)
      refine ⟨⟨_, hok⟩, honly, hcached, ?_⟩
      rw [hrow]
      exact (nullOut_spec _ _).1.length_eq.symm
  obtain ⟨⟨l', hok⟩, honly, hcached, hlen⟩ := hbase
  have hsame : s' = { s with kv } → ∃ kv, s' = { s with kv } ∧ (∃ l', kv.Ok cfg l') ∧
      OnlyRow (m.row requestId) s.kv kv ∧ kv.numCachedBlock = s.kv.numCachedBlock ∧
      (kv.blocksOf (m.row requestId)).length = (s.kv.blocksOf (m.row requestId)).length :=
    fun heq => ⟨kv, heq, ⟨l', hok⟩, honly, hcached, hlen⟩
  split at hrest
  · exact hsame (Except.ok.inj hrest).symm
  · next idx _ =>
    split at hrest
    · obtain ⟨kv', hfree, hrest⟩ := bind_eq_ok.mp hrest
      have hidx : idx < (kv.blocksOf (m.row requestId)).length := by
        by_contra hge
        unfold KVState.freeBlockAt at hfree
        rw [List.getElem?_eq_none (by omega)] at hfree
        cases hfree
      obtain ⟨kv'', hrun', hok', honly', hrow', hcached'⟩ := hok.freeBlockAt hidx
      obtain rfl : kv'' = kv' := Except.ok.inj (hrun'.symm.trans hfree)
      refine ⟨kv'', (Except.ok.inj hrest).symm, hok', honly.trans honly', hcached'.trans hcached, ?_⟩
      rw [hrow', List.length_set, hlen]
    · exact hsame (Except.ok.inj hrest).symm

omit [DecidableEq κ] in
/-- Old blocks change places without leaving the cached part, and the table grows to all but the blocks
that are missing. -/
theorem placeOldBlocks_spec (h : s.kv.Ok cfg l)
    (hbehind : requestId ∈ s.allocatedBlockReqs →
      s.kv.cachedOf (m.row requestId) + m.numSpeculativeBlocks ≤ (s.kv.blocksOf (m.row requestId)).length)
    (n : Nat) :
    let moved := if requestId ∈ s.allocatedBlockReqs then
      min m.numSpeculativeBlocks (n - ((s.kv.blocksOf (m.row requestId)).length - m.numSpeculativeBlocks))
      else 0
    (m.placeOldBlocks s requestId n).length = max (s.kv.blocksOf (m.row requestId)).length n + moved ∧
      ∀ cached b, cached ≤ s.kv.cachedOf (m.row requestId) → b ≠ 0 →
        ((m.placeOldBlocks s requestId n).drop cached).count b =
          ((s.kv.blocksOf (m.row requestId)).drop cached).count b := by
  unfold placeOldBlocks
  rw [h.pool.nullBlock]
  generalize s.kv.blocksOf (m.row requestId) = blocks at hbehind ⊢
  generalize s.kv.cachedOf (m.row requestId) = c at hbehind ⊢
  dsimp only
  have hpadded : ∀ cached b, b ≠ 0 →
      ((blocks ++ List.replicate (n - blocks.length) 0).drop cached).count b = (blocks.drop cached).count b := by
    intro cached b hb
    rw [List.drop_append, List.count_append, List.drop_replicate, List.count_replicate,
      if_neg (by simpa using Ne.symm hb), Nat.add_zero]
  have hlength : (blocks ++ List.replicate (n - blocks.length) 0).length = max blocks.length n := by
    rw [List.length_append, List.length_replicate]
    omega
  split
  · next hallocated =>
    have hk := hbehind hallocated
    obtain ⟨hlen, hcount, -, -⟩ := reuseSpeculative_spec n (blocks.length - m.numSpeculativeBlocks)
      m.numSpeculativeBlocks (blocks ++ List.replicate (n - blocks.length) 0) (by omega)
    refine ⟨by rw [hlen, hlength], fun cached b hcached hb => ?_⟩
    rw [hcount cached b (by omega) hb, hpadded cached b hb]
  · exact ⟨hlength, fun cached b _ hb => hpadded cached b hb⟩

/-- A table has its required length in the end. It is only changed if it is too short. -/
theorem allocateNewBlocks_spec (h : s.kv.Ok cfg l)
    (hbehind : requestId ∈ s.allocatedBlockReqs →
      s.kv.cachedOf (m.row requestId) + m.numSpeculativeBlocks ≤ (s.kv.blocksOf (m.row requestId)).length)
    {numTokens : Int} (hhits : requestId ∉ s.allocatedBlockReqs →
      ((s.kv.blocksOf (m.row requestId)).length : Int) ≤ cdiv numTokens m.blockSize)
    {newBlocks : List Nat} (hrun : m.allocateNewBlocks s requestId numTokens = .ok (newBlocks, s')) :
    (∃ l', s'.kv.Ok cfg l') ∧ OnlyRow (m.row requestId) s.kv s'.kv ∧ s'.kv.numCachedBlock = s.kv.numCachedBlock ∧
      ((s'.kv.blocksOf (m.row requestId)).length : Int) = m.numRequiredBlocks numTokens ∧
      (s.kv.blocksOf (m.row requestId)).length ≤ (s'.kv.blocksOf (m.row requestId)).length ∧
      (s' = s ∨ s'.allocatedBlockReqs = s.allocatedBlockReqs.insert requestId) := by
  unfold allocateNewBlocks at hrun
  dsimp only at hrun
  split at hrun
  · next hlen =>
    cases hrun
    exact ⟨⟨l, h⟩, ⟨rfl, fun _ _ => rfl⟩, rfl, hlen.symm, le_rfl, Or.inl rfl⟩
  · obtain ⟨u, hgrow, hrun⟩ := bind_eq_ok.mp hrun
    have hgrow : ((s.kv.blocksOf (m.row requestId)).length : Int) < m.numRequiredBlocks numTokens := by
      simpa using pyAssert_eq_ok.mp hgrow
    obtain ⟨_, -, hrun⟩ := bind_eq_ok.mp hrun
    obtain ⟨⟨taken, kv⟩, happend, hrun⟩ := bind_eq_ok.mp hrun
    cases hrun
    generalize hn : (m.numRequiredBlocks numTokens - m.numSpeculativeBlocks - 1).toNat = n at happend
    obtain ⟨hplaced, hcount⟩ := placeOldBlocks_spec h hbehind n
    generalize hold : m.placeOldBlocks s requestId n = placed at happend hplaced hcount
    have hok : Ok cfg { s.kv with reqToBlocks := s.kv.reqToBlocks.set (m.row requestId) placed } l :=
      h.rearrange hcount
    -- the running state is missing, and for a first prefill the speculative blocks too
    have hmissing : ((s.kv.blocksOf (m.row requestId)).length : Int) ≤ placed.length ∧
        (placed.length : Int) ≤ m.numRequiredBlocks numTokens := by
      unfold numRequiredBlocks at hgrow hn ⊢
      split at hplaced
      · next hallocated =>
        have hk := hbehind hallocated
        omega
      · next hnew =>
        have := hhits hnew
        omega
    obtain ⟨missing, hcast⟩ := Int.eq_ofNat_of_zero_le (Int.sub_nonneg.mpr hmissing.2)
    rw [hcast] at happend
    have hfree := hok.le_length_of_appendNewBlocks happend
    obtain ⟨kv', hrun', hok', honly, hrow, hcached, -⟩ :=
      hok.appendNewBlocks (r := m.row requestId) (Nat.cast_le.mp hfree)
    obtain ⟨-, rfl⟩ := Prod.mk.inj (Except.ok.inj (hrun'.symm.trans happend))
    rw [blocksOf_set] at hrow
    have hlength : (kv'.blocksOf (m.row requestId)).length = placed.length + missing := by
      rw [hrow, List.length_append, List.length_take]
      omega
    refine ⟨⟨_, hok'⟩, onlyRow_set.trans honly, hcached, ?_, ?_, Or.inr rfl⟩
    · show ((kv'.blocksOf (m.row requestId)).length : Int) = _
      omega
    · show _ ≤ (kv'.blocksOf (m.row requestId)).length
      omega

/-- The hits and null blocks before them are the table of a new request, all of it cached. -/
theorem allocateNewComputedBlocks_spec (h : s.kv.Ok cfg l) {hits : List Nat}
    (husable : ∀ b ∈ hits, b = 0 ∨ cfg.Usable b) (hnodup : (hits.filter (· ≠ 0)).Nodup)
    (hcaching : cfg.enableCaching = true ∨ hits = []) {numLocalComputedTokens : Int}
    (hrun : m.allocateNewComputedBlocks s requestId hits numLocalComputedTokens = .ok s') :
    ∃ kv, s' = { s with kv } ∧ (∃ l', kv.Ok cfg l') ∧ OnlyRow (m.row requestId) s.kv kv ∧
      (kv = s.kv ∨ s.kv.blocksOf (m.row requestId) = [] ∧
        kv.cachedOf (m.row requestId) = (kv.blocksOf (m.row requestId)).length) := by
  obtain ⟨kv, hkv, hrest⟩ := bind_eq_ok.mp hrun
  refine ⟨kv, (Except.ok.inj hrest).symm, ?_⟩
  unfold SingleTypeKVCacheManager.allocateNewComputedBlocks at hkv
  split at hkv
  · obtain ⟨_, -, hkv⟩ := bind_eq_ok.mp hkv
    cases hkv
    exact ⟨⟨l, h⟩, ⟨rfl, fun _ _ => rfl⟩, Or.inl rfl⟩
  · obtain ⟨_, hnil, hkv⟩ := bind_eq_ok.mp hkv
    have hnil : s.kv.blocksOf (m.row requestId) = [] := by simpa using pyAssert_eq_ok.mp hnil
    dsimp only at hkv
    generalize hskipped : m.kvCacheSpec.getNumSkippedTokens (numLocalComputedTokens + 0) / m.blockSize =
      skipped at hkv
    obtain ⟨kept, hkept, hsub⟩ : ∃ kept, (if 0 < skipped then hits.drop skipped.toNat else hits) = kept ∧
        kept.Sublist hits := by
      refine ⟨_, rfl, ?_⟩
      split
      · exact List.drop_sublist _ _
      · exact List.Sublist.refl _
    rw [hkept] at hkv
    obtain ⟨kv', hadd, hexternal⟩ := bind_eq_ok.mp hkv
    -- there are no external tokens
    have hzero : ¬ 0 < (if 0 < skipped then
        min (numLocalComputedTokens + 0 - m.kvCacheSpec.getNumSkippedTokens (numLocalComputedTokens + 0)) 0
        else (0 : Int)) := by
      split <;> omega
    unfold SingleTypeKVCacheManager.allocateExternal at hexternal
    rw [if_neg hzero] at hexternal
    obtain rfl := Except.ok.inj hexternal
    obtain ⟨kv'', hrun', hok, honly, hrow, hcached, -⟩ := h.addComputedBlocks hnil skipped.toNat
      (fun b hb => husable b (hsub.subset hb)) ((hsub.filter _).nodup hnodup)
      (hcaching.imp_right fun hempty => by rw [hempty] at hsub; exact List.sublist_nil.mp hsub)
    obtain rfl : kv'' = kv' := Except.ok.inj (hrun'.symm.trans hadd)
    refine ⟨⟨_, hok⟩, honly, Or.inr ⟨hnil, ?_⟩⟩
    rw [hrow, List.length_append, List.length_replicate, KVState.cachedOf, hcached, Dict.get?_set_self]
    rfl

/-- Caching changes no table. -/
theorem cacheBlocks_spec (h : s.kv.Ok cfg l) (hcaching : cfg.enableCaching = true)
    {numBlockHashes : Nat} {blockHashes : List κ} {numTokens : Int}
    (hnum : (numTokens / m.blockSize).toNat ≤ numBlockHashes)
    (hlen : (numTokens / m.blockSize).toNat ≤ blockHashes.length)
    (hrun : m.cacheBlocks s requestId numBlockHashes blockHashes numTokens = .ok s') :
    ∃ kv hashes, s' = { s with kv, cachedBlocksThisStep := hashes } ∧ kv.Ok cfg l ∧
      OnlyRow (m.row requestId) s.kv kv ∧ kv.reqToBlocks = s.kv.reqToBlocks ∧
      kv.cachedOf (m.row requestId) =
        max (s.kv.cachedOf (m.row requestId)) (numTokens / m.blockSize).toNat := by
  obtain ⟨kv, hkv, hrest⟩ := bind_eq_ok.mp hrun
  obtain ⟨hashes, -, hrest⟩ := bind_eq_ok.mp hrest
  obtain ⟨kv', hrun', hok, htables, hcached, -⟩ := h.cacheBlocks (r := m.row requestId) hcaching hnum hlen
  obtain rfl : kv' = kv := Except.ok.inj (hrun'.symm.trans hkv)
  refine ⟨kv', _, (Except.ok.inj hrest).symm, hok, ⟨by rw [htables], fun r' hr => ?_⟩, htables, ?_⟩
  · rw [hcached, if_neg hr]
  · rw [hcached, if_pos rfl]

omit [DecidableEq κ] in
/-- A freed request is new again. -/
theorem free_spec (h : s.kv.Ok cfg l) (hrun : m.free s requestId = .ok s') :
    (∃ l', s'.kv.Ok cfg l') ∧ OnlyRow (m.row requestId) s.kv s'.kv ∧ s'.kv.cachedOf (m.row requestId) = 0 ∧
      s'.allocatedBlockReqs = s.allocatedBlockReqs.filter (· ≠ requestId) := by
  obtain ⟨kv, hkv, hrest⟩ := bind_eq_ok.mp hrun
  cases hrest
  obtain ⟨kv', hrun', hok, honly, -, -, hcached, -⟩ := h.free (m.row requestId)
  obtain rfl : kv' = kv := Except.ok.inj (hrun'.symm.trans hkv)
  refine ⟨⟨_, hok⟩, honly, ?_, rfl⟩
  show kv'.cachedOf (m.row requestId) = 0
  rw [KVState.cachedOf, hcached, Dict.get?_erase_self]
  rfl

end MambaManager
end Yuan.Core
