import Yuan.Core.KVCacheManager
import Yuan.Core.PoolRuns

/-!
# Admission by `allocate_slots`

`allocate_slots` counts the blocks it needs before it takes any, with code that is written apart from
the code that takes them. The two agree: the managers are visited twice, once for hits and external
tokens and once for new tokens, and what both visits take from the free queue is at most the count.
A request that is turned away has lost only blocks behind its own window.

The visits are inductions over the managers; the rows of different managers do not touch. `Reachable`
then collects the states of all runs of the manager.
-/

namespace Yuan.Core.KVCacheManager

open KVState SingleTypeKVCacheManager

section Visits

variable {κ : Type} [DecidableEq κ] {ms : List SingleTypeKVCacheManager} {s : KVState κ Row}
variable {cfg : BlockPool.Config} {l : List Nat} {hashBlockSize : Nat} {m : SingleTypeKVCacheManager} {requestId : Nat}
  {hits : Nat → List Nat}

/-- A row of a request in one of the groups. -/
def IsRowOf (ms : List SingleTypeKVCacheManager) (requestId : Nat) (row : Row) : Prop :=
  ∃ m ∈ ms, row = m.row requestId

/-- The managers of attention layers, one per group. -/
structure Managers (ms : List SingleTypeKVCacheManager) (hashBlockSize : Nat) : Prop where
  attention : ∀ m ∈ ms, m.kvCacheSpec.Attention hashBlockSize
  nodup : (ms.map (·.kvCacheGroupId)).Nodup

section

variable (h : Managers (m :: ms) hashBlockSize)
include h

theorem Managers.tail : Managers ms hashBlockSize :=
  ⟨fun m' hm' => h.attention m' (List.mem_cons_of_mem _ hm'), (List.nodup_cons.mp h.nodup).2⟩

/-- The row of the first manager is not one of the others'. -/
theorem Managers.head_not (requestId : Nat) : ¬ IsRowOf ms requestId (m.row requestId) := by
  rintro ⟨m', hm', hrow⟩
  apply (List.nodup_cons.mp h.nodup).1
  exact List.mem_map.mpr ⟨m', hm', (Prod.mk.inj hrow).1.symm⟩

theorem Managers.tail_ne {m' : SingleTypeKVCacheManager} (requestId : Nat) (hm' : m' ∈ ms) :
    ¬ m'.row requestId = m.row requestId := by
  intro hrow
  exact h.head_not requestId ⟨m', hm', hrow.symm⟩

end

theorem isRowOf_cons {row : Row} :
    IsRowOf (m :: ms) requestId row ↔ row = m.row requestId ∨ IsRowOf ms requestId row := by
  simp [IsRowOf]

/-- How often a block occurs in the tables of a request. -/
def heldBy (ms : List SingleTypeKVCacheManager) (s : KVState κ Row) (requestId b : Nat) : Nat :=
  (ms.map fun m => (s.blocksOf (m.row requestId)).count b).sum

omit [DecidableEq κ] in
theorem heldBy_congr {s s' : KVState κ Row} (h : ∀ m ∈ ms, s'.blocksOf (m.row requestId) = s.blocksOf (m.row requestId))
    (b : Nat) : heldBy ms s' requestId b = heldBy ms s requestId b := by
  unfold heldBy
  congr 1
  apply List.map_congr_left
  intro m hm
  rw [h m hm]

/-- What dropping blocks behind the window does to a request: its tables lose blocks there and
nowhere else, and every loss takes one reference from the block. -/
structure WindowOnly (ms : List SingleTypeKVCacheManager) (requestId : Nat) (total : Int)
    (s s' : KVState κ Row) : Prop where
  others : RowsOnly (IsRowOf ms requestId) s s'
  cached : s'.numCachedBlock = s.numCachedBlock
  nulled : ∀ m ∈ ms, Nulled (s.blocksOf (m.row requestId)) (s'.blocksOf (m.row requestId))
  window : ∀ m ∈ ms, ∀ k : Nat,
    m.kvCacheSpec.getNumSkippedTokens total < (k + 1) * m.kvCacheSpec.blockSize →
      (s'.blocksOf (m.row requestId))[k]? = (s.blocksOf (m.row requestId))[k]?
  refs : ∀ b, b ≠ 0 → (s'.pool.blocks b).refCnt + heldBy ms s requestId b =
    (s.pool.blocks b).refCnt + heldBy ms s' requestId b

omit [DecidableEq κ] in
theorem removeSkippedBlocks_windowOnly (h : s.Ok cfg l) (hms : Managers ms hashBlockSize)
    (requestId : Nat) (total : Int) :
    ∃ s' l', removeSkippedBlocks ms s requestId total = .ok s' ∧ s'.Ok cfg l' ∧
      l.length ≤ l'.length ∧ WindowOnly ms requestId total s s' := by
  induction ms generalizing s l with
  | nil =>
    refine ⟨s, l, rfl, h, le_rfl, .refl _ s, rfl, by simp, by simp, fun b _ => rfl⟩
  | cons m ms ih =>
    obtain ⟨s₁, l₁, hrun₁, hok₁, hlen₁, honly₁, hcached₁, hnulled₁, hwindow₁, href₁⟩ :=
      removeSkippedBlocks_spec h (hms.attention m (by simp)) requestId total
    obtain ⟨s', l', hrun', hok', hlen', hw⟩ := ih hok₁ hms.tail
    have hsame : s'.blocksOf (m.row requestId) = s₁.blocksOf (m.row requestId) :=
      hw.others.blocksOf _ (hms.head_not requestId)
    have hrest : ∀ m' ∈ ms, s₁.blocksOf (m'.row requestId) = s.blocksOf (m'.row requestId) :=
      fun m' hm' => honly₁.blocksOf _ (hms.tail_ne requestId hm')
    refine ⟨s', l', ?_, hok', hlen₁.trans hlen', ?_, ?_, ?_, ?_, ?_⟩
    · rw [removeSkippedBlocks, List.foldlM_cons, hrun₁, ok_bind]
      exact hrun'
    · exact (honly₁.mono fun row hrow => isRowOf_cons.mpr (Or.inl hrow)).trans
        (hw.others.mono fun row hrow => isRowOf_cons.mpr (Or.inr hrow))
    · rw [hw.cached, hcached₁]
    · intro m' hm'
      rcases List.mem_cons.mp hm' with rfl | hm'
      · rwa [hsame]
      · rw [← hrest m' hm']
        exact hw.nulled m' hm'
    · intro m' hm' k hk
      rcases List.mem_cons.mp hm' with rfl | hm'
      · rw [hsame]
        exact hwindow₁ k hk
      · rw [← hrest m' hm']
        exact hw.window m' hm' k hk
    · intro b hb
      have h1 := href₁ b hb
      have h2 := hw.refs b hb
      have h3 := heldBy_congr hrest b
      simp only [heldBy, List.map_cons, List.sum_cons, hsame] at h3 ⊢
      simp only [heldBy] at h2
      omega

/-! ## The visit for new tokens -/

/-- The blocks the tables of a request lack for `numTokens` tokens. -/
def numMissing (ms : List SingleTypeKVCacheManager) (s : KVState κ Row) (requestId : Nat)
    (numTokens : Int) : Nat :=
  (ms.map fun m =>
    (cdiv numTokens m.blockSize - (s.blocksOf (m.row requestId)).length).toNat).sum

theorem allocateNewBlocks_ok (h : s.Ok cfg l) (hms : Managers ms hashBlockSize) (requestId : Nat)
    (numTokens : Int) (hfree : numMissing ms s requestId numTokens ≤ l.length) :
    ∃ blocks s' l', allocateNewBlocks ms s requestId numTokens = .ok (blocks, s') ∧ s'.Ok cfg l' ∧
      l.length = l'.length + numMissing ms s requestId numTokens ∧
      RowsOnly (IsRowOf ms requestId) s s' ∧ s'.numCachedBlock = s.numCachedBlock ∧
      ∀ m ∈ ms, (∃ bs, s'.blocksOf (m.row requestId) = s.blocksOf (m.row requestId) ++ bs) ∧
        cdiv numTokens m.blockSize ≤ (s'.blocksOf (m.row requestId)).length := by
  induction ms generalizing s l with
  | nil => exact ⟨[], s, l, rfl, h, rfl, .refl _ s, rfl, by simp⟩
  | cons m ms ih =>
    simp only [numMissing, List.map_cons, List.sum_cons] at hfree ⊢
    obtain ⟨bs, s₁, l₁, hrun₁, hok₁, hlen₁, honly₁, hcached₁, hrow₁, hcover₁⟩ :=
      allocateNewBlocks_spec (m := m) h requestId numTokens (by omega)
    have hrest : ∀ m' ∈ ms, s₁.blocksOf (m'.row requestId) = s.blocksOf (m'.row requestId) :=
      fun m' hm' => honly₁.blocksOf _ (hms.tail_ne requestId hm')
    have hmissing : numMissing ms s₁ requestId numTokens = numMissing ms s requestId numTokens := by
      unfold numMissing
      congr 1
      exact List.map_congr_left fun m' hm' => by rw [hrest m' hm']
    obtain ⟨rest, s', l', hrun', hok', hlen', honly', hcached', hrows'⟩ :=
      ih hok₁ hms.tail (by rw [hmissing, numMissing]; omega)
    have hsame : s'.blocksOf (m.row requestId) = s₁.blocksOf (m.row requestId) :=
      honly'.blocksOf _ (hms.head_not requestId)
    rw [hmissing, numMissing] at hlen'
    refine ⟨bs :: rest, s', l', ?_, hok', by omega, ?_, by rw [hcached', hcached₁], ?_⟩
    · simp only [allocateNewBlocks, hrun₁, ok_bind, hrun']
      rfl
    · exact (honly₁.mono fun row hrow => isRowOf_cons.mpr (Or.inl hrow)).trans
        (honly'.mono fun row hrow => isRowOf_cons.mpr (Or.inr hrow))
    · intro m' hm'
      rcases List.mem_cons.mp hm' with rfl | hm'
      · rw [hsame]
        exact ⟨⟨bs, hrow₁⟩, hcover₁⟩
      · rw [← hrest m' hm']
        exact hrows' m' hm'

/-! ## The visit for hits and external tokens -/

/-- The arguments for a new request: hits that can be touched, behind which the external tokens come. -/
structure NewRequest (ms : List SingleTypeKVCacheManager) (cfg : BlockPool.Config)
    (s : KVState κ Row) (requestId : Nat) (hits : Nat → List Nat) (localTokens ext : Int) : Prop where
  unallocated : ∀ m ∈ ms, s.blocksOf (m.row requestId) = [] ∧
    s.numCachedBlock.contains (m.row requestId) = false
  total : 0 ≤ localTokens + ext
  usable : ∀ m ∈ ms, ∀ b ∈ hits m.kvCacheGroupId, b = 0 ∨ cfg.Usable b
  nodup : ∀ m ∈ ms, ((hits m.kvCacheGroupId).filter (· ≠ 0)).Nodup
  caching : ∀ m ∈ ms, cfg.enableCaching = true ∨ hits m.kvCacheGroupId = []
  length : ∀ m ∈ ms, 0 < ext →
    ((hits m.kvCacheGroupId).length : Int) * m.blockSize ≤ localTokens + ext

/-- The hits that leave the free queue, over all groups. -/
def numEvictable (ms : List SingleTypeKVCacheManager) (s : KVState κ Row) (hits : Nat → List Nat)
    (total : Int) : Nat :=
  (ms.map fun m => getNumEvictableBlocks s.pool
    ((hits m.kvCacheGroupId).drop (m.numSkippedBlocks total))).sum

/-- The blocks for external tokens, over all groups. -/
def numExternal (ms : List SingleTypeKVCacheManager) (hits : Nat → List Nat) (total ext : Int) : Nat :=
  (ms.map fun m => m.numExternalBlocks total ext (hits m.kvCacheGroupId).length).sum

omit [DecidableEq κ] in
theorem numEvictable_mono (ms : List SingleTypeKVCacheManager) {s s' : KVState κ Row} {l' : List Nat}
    (h : s.Ok cfg l) (h' : s'.Ok cfg l') (hgrow : RefsGrow s s') (hits : Nat → List Nat) (total : Int) :
    numEvictable ms s' hits total ≤ numEvictable ms s hits total := by
  unfold numEvictable
  apply List.sum_le_sum
  intro m _
  exact evictable_mono h h' hgrow _

/-- The visit takes at most the evictable hits and the blocks for external tokens. A manager that has
not been visited yet may lose a hit to the external tokens of one that has, never gain one. -/
theorem allocateNewComputedBlocks_ok (h : s.Ok cfg l) (hms : Managers ms hashBlockSize) {localTokens ext : Int}
    (hnew : NewRequest ms cfg s requestId hits localTokens ext)
    (hfree : numEvictable ms s hits (localTokens + ext) + numExternal ms hits (localTokens + ext) ext ≤ l.length) :
    ∃ s' l', allocateNewComputedBlocks ms s requestId hits localTokens ext = .ok s' ∧ s'.Ok cfg l' ∧
      l.length ≤ l'.length + (numEvictable ms s hits (localTokens + ext) +
        numExternal ms hits (localTokens + ext) ext) ∧ RowsOnly (IsRowOf ms requestId) s s' ∧
      ∀ m ∈ ms, (s'.blocksOf (m.row requestId)).length =
        max (m.numSkippedBlocks (localTokens + ext)) (hits m.kvCacheGroupId).length +
          m.numExternalBlocks (localTokens + ext) ext (hits m.kvCacheGroupId).length := by
  induction ms generalizing s l with
  | nil => exact ⟨s, l, rfl, h, by omega, .refl _ s, by simp⟩
  | cons m ms ih =>
    obtain ⟨hnil, hcontains⟩ := hnew.unallocated m (by simp)
    simp only [numEvictable, numExternal, List.map_cons, List.sum_cons] at hfree ⊢
    obtain ⟨s₁, l₁, hrun₁, hok₁, hlen₁, honly₁, -, hrow₁, hgrow₁⟩ :=
      allocateNewComputedBlocks_spec h (hms.attention m (by simp)) requestId hnil hcontains
        hnew.total (hnew.usable m (by simp)) (hnew.nodup m (by simp)) (hnew.caching m (by simp))
        (hnew.length m (by simp)) (by omega)
    have hnew₁ : NewRequest ms cfg s₁ requestId hits localTokens ext := by
      refine ⟨fun m' hm' => ?_, hnew.total, fun m' hm' => hnew.usable m' (by simp [hm']),
        fun m' hm' => hnew.nodup m' (by simp [hm']), fun m' hm' => hnew.caching m' (by simp [hm']),
        fun m' hm' => hnew.length m' (by simp [hm'])⟩
      have hne := hms.tail_ne requestId hm'
      rw [honly₁.blocksOf _ hne, honly₁.contains _ hne]
      exact hnew.unallocated m' (by simp [hm'])
    have hmono := numEvictable_mono ms h hok₁ hgrow₁ hits (localTokens + ext)
    simp only [numEvictable, numExternal] at ih hmono
    obtain ⟨s', l', hrun', hok', hlen', honly', hrows'⟩ := ih hok₁ hms.tail hnew₁ (by omega)
    refine ⟨s', l', ?_, hok', by omega, ?_, ?_⟩
    · rw [allocateNewComputedBlocks, List.foldlM_cons, hrun₁]
      exact hrun'
    · exact (honly₁.mono fun row hrow => isRowOf_cons.mpr (Or.inl hrow)).trans
        (honly'.mono fun row hrow => isRowOf_cons.mpr (Or.inr hrow))
    · intro m' hm'
      rcases List.mem_cons.mp hm' with rfl | hm'
      · rw [honly'.blocksOf _ (hms.head_not requestId), hrow₁]
      · exact hrows' m' hm'

/-! ## The count -/

section

omit [DecidableEq κ]

theorem foldlM_count {f : SingleTypeKVCacheManager → Except PyError Int}
    {n : SingleTypeKVCacheManager → Nat} (hf : ∀ m ∈ ms, f m = .ok (n m : Int)) (acc : Int) :
    ms.foldlM (fun acc m => do
      let x ← f m
      return acc + x) acc = .ok (acc + ((ms.map n).sum : Nat)) := by
  induction ms generalizing acc with
  | nil => simp [pure, Except.pure]
  | cons m ms ih =>
    rw [List.foldlM_cons, hf m (by simp)]
    show ms.foldlM _ (acc + (n m : Int)) = _
    rw [ih fun m' hm' => hf m' (List.mem_cons_of_mem _ hm')]
    simp only [List.map_cons, List.sum_cons, Nat.cast_add]
    ring

/-- The count without hits is the number of blocks the tables lack. -/
theorem getNumBlocksToAllocate_missing (hms : Managers ms hashBlockSize) {total : Int} (numTokens : Int)
    (htotal : 0 ≤ total) (hhits : ∀ m ∈ ms, hits m.kvCacheGroupId = [])
    (hcover : ∀ m ∈ ms, total ≤ (s.blocksOf (m.row requestId)).length * m.blockSize) :
    getNumBlocksToAllocate ms s requestId numTokens hits total = .ok (numMissing ms s requestId numTokens : Int) := by
  unfold getNumBlocksToAllocate numMissing
  rw [foldlM_count (n := fun m =>
    (cdiv numTokens m.blockSize - (s.blocksOf (m.row requestId)).length).toNat), zero_add]
  intro m hm
  rw [hhits m hm]
  exact getNumBlocksToAllocate_running (hms.attention m hm) numTokens htotal (Or.inr (hcover m hm))

/-- The count of a new request: the blocks behind skipped ones and hits, and the evictable hits. -/
theorem getNumBlocksToAllocate_hits (hms : Managers ms hashBlockSize) {localTokens ext : Int} (numTokens : Int)
    (hnew : NewRequest ms cfg s requestId hits localTokens ext) :
    getNumBlocksToAllocate ms s requestId numTokens hits (localTokens + ext) =
      .ok (((ms.map fun m => (cdiv numTokens m.blockSize -
        max (m.numSkippedBlocks (localTokens + ext)) (hits m.kvCacheGroupId).length).toNat).sum +
          numEvictable ms s hits (localTokens + ext) : Nat)) := by
  unfold getNumBlocksToAllocate numEvictable
  rw [foldlM_count (n := fun m => (cdiv numTokens m.blockSize -
    max (m.numSkippedBlocks (localTokens + ext)) (hits m.kvCacheGroupId).length).toNat +
      getNumEvictableBlocks s.pool
        ((hits m.kvCacheGroupId).drop (m.numSkippedBlocks (localTokens + ext)))), zero_add,
    List.sum_map_add]
  intro m hm
  obtain ⟨hnil, hcontains⟩ := hnew.unallocated m hm
  exact getNumBlocksToAllocate_new (hms.attention m hm) numTokens hnew.total hnil hcontains

end

end Visits

/-! ## Caching the new blocks -/

section Caching

variable {κ ρ β : Type} [DecidableEq κ] [DecidableEq ρ] [DecidableEq β]
variable {ms : List SingleTypeKVCacheManager} {cfg : BlockPool.Config} {l : List Nat}
variable {hashBlockSize : Nat}

/-- Caching the blocks of a row marks no other row. -/
theorem contains_cacheBlocks {s s' : KVState κ ρ} {r r' : ρ} {nh n : Nat} {hashes : List κ}
    (h : s.cacheBlocks r nh n hashes = .ok s') (hr : r' ≠ r) :
    s'.numCachedBlock.contains r' = s.numCachedBlock.contains r' := by
  unfold KVState.cacheBlocks at h
  split at h
  · cases h
    rfl
  · obtain ⟨pool, -, h⟩ := bind_eq_ok.mp h
    cases h
    rw [Dict.contains, Dict.contains, Dict.get?_set_of_ne _ _ hr]

omit [DecidableEq β] in
/-- A request has a hash for every block full of its tokens. -/
theorem numFull_le {m : SingleTypeKVCacheManager} (hspec : m.kvCacheSpec.Attention hashBlockSize)
    {blockHashes : List (List β)} {n : Int} {numTokens : Nat} (hn : n ≤ numTokens)
    (hhashes : numTokens / hashBlockSize ≤ blockHashes.length) :
    (n / m.blockSize).toNat ≤ blockHashes.length ∧
      (n / m.blockSize).toNat ≤ (m.blockHashKeys hashBlockSize blockHashes).length := by
  have hle : (n / m.blockSize).toNat ≤ numTokens / m.kvCacheSpec.blockSize := by
    have h1 : n / m.blockSize ≤ (numTokens : Int) / m.kvCacheSpec.blockSize :=
      Int.ediv_le_ediv hspec.pos hn
    apply Int.toNat_le.mpr
    push_cast
    exact h1
  constructor
  · obtain ⟨scale, hscale⟩ := hspec.2.1
    have hpos : 0 < hashBlockSize := Nat.pos_of_dvd_of_pos hspec.2.1 hspec.1
    exact hle.trans ((Nat.div_le_div_left (Nat.le_of_dvd hspec.1 hspec.2.1) hpos).trans hhashes)
  · rw [blockHashKeys, List.length_map]
    exact hle.trans (CacheHit.div_le_length_getBlockHashes hspec.1 hspec.2.1 hhashes)

theorem cacheBlocks_ok {s : KVState (List β × Nat) Row} (h : s.Ok cfg l)
    (hms : Managers ms hashBlockSize) (requestId : Nat) (hcaching : cfg.enableCaching = true)
    {blockHashes : List (List β)} {n : Int} {numTokens : Nat} (hn : n ≤ numTokens)
    (hhashes : numTokens / hashBlockSize ≤ blockHashes.length) :
    ∃ s', cacheBlocks ms requestId s hashBlockSize blockHashes n = .ok s' ∧ s'.Ok cfg l ∧
      s'.reqToBlocks = s.reqToBlocks ∧ RowsOnly (IsRowOf ms requestId) s s' := by
  induction ms generalizing s with
  | nil => exact ⟨s, rfl, h, rfl, .refl _ s⟩
  | cons m ms ih =>
    obtain ⟨hnum, hlen⟩ := numFull_le (hms.attention m (by simp)) hn hhashes
    obtain ⟨s₁, hrun₁, hok₁, hreq₁, -⟩ := h.cacheBlocks (r := m.row requestId) hcaching hnum hlen
    obtain ⟨s', hrun', hok', hreq', honly'⟩ := ih hok₁ hms.tail
    refine ⟨s', ?_, hok', hreq'.trans hreq₁, ?_⟩
    · rw [cacheBlocks]
      show (s.cacheBlocks _ _ _ _ >>= _) = _
      rw [hrun₁]
      exact hrun'
    · refine RowsOnly.trans ⟨fun row _ => ?_, fun row hrow => ?_⟩
        (honly'.mono fun row hrow => isRowOf_cons.mpr (Or.inr hrow))
      · rw [KVState.blocksOf, KVState.blocksOf, hreq₁]
      · exact contains_cacheBlocks hrun₁ fun heq => hrow (isRowOf_cons.mpr (Or.inl heq))

end Caching

/-! ## `allocate_slots` -/

section AllocateSlots

variable {β : Type} [DecidableEq β] {k : KVCacheManager} {s : KVState (List β × Nat) Row}
variable {cfg : BlockPool.Config} {l : List Nat} {request : Request (List β)} {a : AllocateArgs}

theorem managers (k : KVCacheManager) : Managers k.singleTypeManagers k.hashBlockSize := by
  refine ⟨?_, ?_⟩
  · intro m hm
    obtain ⟨⟨spec, i⟩, hmem, rfl⟩ := List.mem_map.mp hm
    exact k.attention spec (List.fst_mem_of_mem_zipIdx hmem)
  · have hids : k.singleTypeManagers.map (·.kvCacheGroupId) = List.range k.kvCacheGroups.length := by
      simp [singleTypeManagers, Function.comp_def, List.range_eq_range']
    rw [hids]
    exact List.nodup_range

/-- What the scheduler passes for a request that holds blocks: no hits and no external tokens, and
every computed token has a slot. -/
structure RunningArgs (k : KVCacheManager) (s : KVState (List β × Nat) Row)
    (request : Request (List β)) (a : AllocateArgs) : Prop where
  hits : ∀ m ∈ k.singleTypeManagers, a.newComputedBlocks m.kvCacheGroupId = []
  numNewComputedTokens : a.numNewComputedTokens = 0
  ext : a.numExternalComputedTokens = 0
  computed : 0 ≤ request.numComputedTokens
  cover : ∀ m ∈ k.singleTypeManagers,
    request.numComputedTokens ≤ (s.blocksOf (m.row request.requestId)).length * m.blockSize

/-- What the scheduler passes for a request without blocks: the hits that `get_computed_blocks`
found, and external tokens within the model length. -/
structure NewArgs (k : KVCacheManager) (sinkBlocks : List Nat) (s : KVState (List β × Nat) Row)
    (request : Request (List β)) (a : AllocateArgs) : Prop where
  computed : request.numComputedTokens = 0
  numNewTokens : 0 ≤ a.numNewTokens
  numNewComputedTokens : 0 ≤ a.numNewComputedTokens
  ext : 0 ≤ a.numExternalComputedTokens
  maxModelLen : 0 < a.numExternalComputedTokens →
    a.numNewComputedTokens + a.numExternalComputedTokens ≤ k.maxModelLen
  hits : ∀ m ∈ k.singleTypeManagers,
    PoolRuns.ComputedBlocks sinkBlocks s (a.newComputedBlocks m.kvCacheGroupId) ∧
      (s.pool.enableCaching = true ∨ a.newComputedBlocks m.kvCacheGroupId = [])
  covered : ∀ m ∈ k.singleTypeManagers,
    a.numNewComputedTokens ≤ (a.newComputedBlocks m.kvCacheGroupId).length * m.blockSize
  length : ∀ m ∈ k.singleTypeManagers, 0 < a.numExternalComputedTokens →
    ((a.newComputedBlocks m.kvCacheGroupId).length : Int) * m.blockSize ≤
      a.numNewComputedTokens + a.numExternalComputedTokens

/-- The request has no blocks, in any group. -/
def Unallocated (k : KVCacheManager) (s : KVState (List β × Nat) Row) (requestId : Nat) : Prop :=
  ∀ m ∈ k.singleTypeManagers, s.blocksOf (m.row requestId) = [] ∧
    s.numCachedBlock.contains (m.row requestId) = false

/-- The arguments of a call: there are tokens to allocate for, the request's hashes are current, and
the rest is as for a new or a running request. -/
structure Args (k : KVCacheManager) (sinkBlocks : List Nat) (s : KVState (List β × Nat) Row)
    (request : Request (List β)) (a : AllocateArgs) : Prop where
  some : ¬ (a.numNewTokens = 0 ∧ a.numExternalComputedTokens = 0)
  hashes : s.pool.enableCaching = true →
    request.numTokens / k.hashBlockSize ≤ request.blockHashes.length
  cases : RunningArgs k s request a ∨
    (Unallocated k s request.requestId ∧ NewArgs k sinkBlocks s request a)

/-- `numTokens` tokens of the request have slots in every group. -/
def Covers (k : KVCacheManager) (s : KVState (List β × Nat) Row) (requestId : Nat)
    (numTokens : Int) : Prop :=
  ∀ m ∈ k.singleTypeManagers, numTokens ≤ (s.blocksOf (m.row requestId)).length * m.blockSize

omit [DecidableEq β] in
theorem covers_of_cdiv {requestId : Nat} {numTokens : Int}
    (h : ∀ m ∈ k.singleTypeManagers, cdiv numTokens m.blockSize ≤ (s.blocksOf (m.row requestId)).length) :
    k.Covers s requestId numTokens := by
  intro m hm
  have hpos : 0 < m.blockSize := (k.managers.attention m hm).pos
  exact (le_cdiv_mul hpos).trans (Int.mul_le_mul_of_nonneg_right (h m hm) hpos.le)

theorem sum_sub_add {α : Type} (l : List α) (x y : α → Nat) (h : ∀ a ∈ l, x a ≤ y a) :
    (l.map fun a => y a - x a).sum + (l.map x).sum = (l.map y).sum := by
  rw [← List.sum_map_add]
  congr 1
  apply List.map_congr_left
  intro a ha
  exact Nat.sub_add_cancel (h a ha)

/-- The blocks taken behind the free-block check are at most the count. -/
def TakesAtMost (k : KVCacheManager) (cfg : BlockPool.Config) (s : KVState (List β × Nat) Row) (l : List Nat)
    (request : Request (List β)) (a : AllocateArgs) : Prop :=
  ∃ n : Nat, k.numBlocksToAllocate s request a = .ok (n : Int) ∧
    (n ≤ l.length → ∃ s₂ blocks s₃ l₃, k.addComputed s request a = .ok s₂ ∧
      allocateNewBlocks k.singleTypeManagers s₂ request.requestId
        (a.numTokensNeedSlot request k.maxModelLen) = .ok (blocks, s₃) ∧ s₃.Ok cfg l₃ ∧
      l.length ≤ l₃.length + n ∧ RowsOnly (IsRowOf k.singleTypeManagers request.requestId) s s₃ ∧
      k.Covers s₃ request.requestId (a.numTokensNeedSlot request k.maxModelLen))

theorem allocateTaken (h : s.Ok cfg l) (hargs : Args k cfg.sinkBlocks s request a) :
    k.TakesAtMost cfg s l request a := by
  have hms := k.managers
  -- without hits and external tokens, the count is what the tables lack
  have hplain : k.hasComputed a = false →
      (∀ m ∈ k.singleTypeManagers, a.newComputedBlocks m.kvCacheGroupId = []) →
      0 ≤ a.numLocalComputedTokens request + a.numExternalComputedTokens →
      k.Covers s request.requestId (a.numLocalComputedTokens request + a.numExternalComputedTokens) →
      k.TakesAtMost cfg s l request a := by
    intro hnone hhits htotal hcover
    refine ⟨_, getNumBlocksToAllocate_missing hms _ htotal hhits hcover, fun hn => ?_⟩
    obtain ⟨blocks, s₃, l₃, hrun, hok, hlen, honly, -, hrows⟩ := allocateNewBlocks_ok h hms _ _ hn
    exact ⟨s, blocks, s₃, l₃, by simp [addComputed, hnone, pure, Except.pure], hrun, hok, hlen.le,
      honly, covers_of_cdiv fun m hm => (hrows m hm).2⟩
  rcases hargs.cases with hrunning | ⟨hun, hnew⟩
  · have htotal : a.numLocalComputedTokens request + a.numExternalComputedTokens =
        request.numComputedTokens := by
      rw [AllocateArgs.numLocalComputedTokens, hrunning.numNewComputedTokens, hrunning.ext]
      omega
    apply hplain _ hrunning.hits
    · rw [htotal]
      exact hrunning.computed
    · rw [htotal]
      exact hrunning.cover
    · simp only [hasComputed, hrunning.ext, lt_irrefl, decide_false, Bool.or_false,
        List.any_eq_false]
      intro m hm
      simp [hrunning.hits m hm]
  · have hlocal : a.numLocalComputedTokens request = a.numNewComputedTokens := by
      rw [AllocateArgs.numLocalComputedTokens, hnew.computed]
      omega
    cases hhas : k.hasComputed a with
    | false =>
      simp only [hasComputed, Bool.or_eq_false_iff, List.any_eq_false, decide_eq_false_iff_not] at hhas
      have hext : a.numExternalComputedTokens = 0 := by
        have := hnew.ext
        omega
      have hhits : ∀ m ∈ k.singleTypeManagers, a.newComputedBlocks m.kvCacheGroupId = [] := by
        intro m hm
        simpa using hhas.1 m hm
      apply hplain _ hhits
      · rw [hlocal]
        have := hnew.numNewComputedTokens
        omega
      · intro m hm
        have hcov := hnew.covered m hm
        rw [hhits m hm] at hcov
        rw [(hun m hm).1, hlocal, hext]
        simpa using hcov
      · simp only [hasComputed, hext, lt_irrefl, decide_false, Bool.or_false, List.any_eq_false]
        intro m hm
        simp [hhits m hm]
    | true =>
      have hvalid : NewRequest k.singleTypeManagers cfg s request.requestId a.newComputedBlocks
          (a.numLocalComputedTokens request) a.numExternalComputedTokens := by
        rw [hlocal]
        refine ⟨hun, Int.add_nonneg hnew.numNewComputedTokens hnew.ext, ?_, ?_, ?_, hnew.length⟩
        · intro m hm b hb
          obtain ⟨⟨hus, -⟩, -⟩ := hnew.hits m hm
          rw [h.pool.nullBlock, h.pool.numGpuBlocks] at hus
          by_cases h0 : b = 0
          · exact Or.inl h0
          · exact Or.inr ⟨h0, hus b hb h0⟩
        · intro m hm
          have hnd := (hnew.hits m hm).1.2
          rwa [h.pool.nullBlock] at hnd
        · intro m hm
          have hc := (hnew.hits m hm).2
          rwa [h.pool.enableCaching] at hc
      set total := a.numLocalComputedTokens request + a.numExternalComputedTokens with htotal
      set need := a.numTokensNeedSlot request k.maxModelLen with hneed
      -- external tokens have slots among those needed
      have hle : 0 < a.numExternalComputedTokens → total ≤ need := by
        intro hpos
        have h1 := hnew.maxModelLen hpos
        have h2 := hnew.numNewTokens
        rw [hneed, AllocateArgs.numTokensNeedSlot, AllocateArgs.totalComputedTokens]
        omega
      have hsplit := sum_sub_add k.singleTypeManagers
        (fun m => m.numExternalBlocks total a.numExternalComputedTokens
          (a.newComputedBlocks m.kvCacheGroupId).length)
        (fun m => (cdiv need m.blockSize -
          max (m.numSkippedBlocks total) (a.newComputedBlocks m.kvCacheGroupId).length).toNat)
        (fun m hm => numExternalBlocks_le (hms.attention m hm) hle)
      refine ⟨_, getNumBlocksToAllocate_hits hms need hvalid, fun hn => ?_⟩
      rw [← htotal] at hn ⊢
      obtain ⟨s₂, l₂, hrun₂, hok₂, hlen₂, honly₂, hrows₂⟩ :=
        allocateNewComputedBlocks_ok h hms hvalid (by rw [← htotal, numExternal]; omega)
      rw [← htotal, numExternal] at hlen₂
      have hmissing : numMissing k.singleTypeManagers s₂ request.requestId need =
          (k.singleTypeManagers.map fun m => (cdiv need m.blockSize -
            max (m.numSkippedBlocks total)
              (a.newComputedBlocks m.kvCacheGroupId).length).toNat -
            m.numExternalBlocks total a.numExternalComputedTokens
              (a.newComputedBlocks m.kvCacheGroupId).length).sum := by
        unfold numMissing
        congr 1
        apply List.map_congr_left
        intro m hm
        have hrow := hrows₂ m hm
        rw [← htotal] at hrow
        omega
      obtain ⟨blocks, s₃, l₃, hrun₃, hok₃, hlen₃, honly₃, -, hrows₃⟩ :=
        allocateNewBlocks_ok hok₂ hms request.requestId need (by rw [hmissing]; omega)
      refine ⟨s₂, blocks, s₃, l₃, ?_, hrun₃, hok₃, by omega, honly₂.trans honly₃,
        covers_of_cdiv fun m hm => (hrows₃ m hm).2⟩
      unfold addComputed
      rw [hhas]
      exact hrun₂

omit [DecidableEq β] in
theorem Unallocated.windowOnly {s₁ : KVState (List β × Nat) Row} {requestId requestId' : Nat}
    {total : Int} (h : Unallocated k s requestId)
    (hw : WindowOnly k.singleTypeManagers requestId' total s s₁) : Unallocated k s₁ requestId := by
  intro m hm
  obtain ⟨hnil, hcontains⟩ := h m hm
  rw [hw.cached]
  refine ⟨?_, hcontains⟩
  by_cases hr : requestId = requestId'
  · subst hr
    have hnulled := hw.nulled m hm
    rw [hnil] at hnulled
    exact List.forall₂_nil_left_iff.mp hnulled
  · rw [hw.others.blocksOf, hnil]
    rintro ⟨m', -, hrow⟩
    exact hr (Prod.mk.inj hrow).2

omit [DecidableEq β] in
/-- Dropping skipped blocks changes none of the conditions on the arguments. -/
theorem Args.windowOnly {s₁ : KVState (List β × Nat) Row} {l₁ : List Nat} (h : s.Ok cfg l)
    (h₁ : s₁.Ok cfg l₁) {total : Int} (hw : WindowOnly k.singleTypeManagers request.requestId total s s₁)
    (hargs : Args k cfg.sinkBlocks s request a) : Args k cfg.sinkBlocks s₁ request a := by
  have hcaching : s₁.pool.enableCaching = s.pool.enableCaching :=
    h₁.pool.enableCaching.trans h.pool.enableCaching.symm
  refine ⟨hargs.some, ?_, ?_⟩
  · rw [hcaching]
    exact hargs.hashes
  · rcases hargs.cases with hrunning | ⟨hun, hnew⟩
    · refine Or.inl ⟨hrunning.hits, hrunning.numNewComputedTokens, hrunning.ext, hrunning.computed, ?_⟩
      intro m hm
      rw [← (hw.nulled m hm).length_eq]
      exact hrunning.cover m hm
    · refine Or.inr ⟨hun.windowOnly hw, hnew.computed, hnew.numNewTokens, hnew.numNewComputedTokens,
        hnew.ext, hnew.maxModelLen, ?_, hnew.covered, hnew.length⟩
      intro m hm
      have hhits := hnew.hits m hm
      unfold PoolRuns.ComputedBlocks at hhits ⊢
      rwa [hcaching, h₁.pool.nullBlock, h₁.pool.numGpuBlocks, ← h.pool.nullBlock,
        ← h.pool.numGpuBlocks]

/-- `allocate_slots` drops blocks behind the window, counts, and either stops there or completes with
at most the count taken from the free queue. -/
theorem allocateSlots_spec (h : s.Ok cfg l) (hargs : Args k cfg.sinkBlocks s request a) :
    ∃ s₁ l₁, removeSkippedBlocks k.singleTypeManagers s request.requestId
        (a.totalComputedTokens request k.maxModelLen) = .ok s₁ ∧ s₁.Ok cfg l₁ ∧
      WindowOnly k.singleTypeManagers request.requestId (a.totalComputedTokens request k.maxModelLen) s s₁ ∧
      ∃ n : Nat, k.numBlocksToAllocate s₁ request a = .ok (n : Int) ∧
        (l₁.length < n → k.allocateSlots s request a = .ok (none, s₁)) ∧
        (n ≤ l₁.length → ∃ blocks s' l', k.allocateSlots s request a = .ok (some blocks, s') ∧
          s'.Ok cfg l' ∧ l₁.length ≤ l'.length + n ∧ RowsOnly (IsRowOf k.singleTypeManagers request.requestId) s s' ∧
          k.Covers s' request.requestId (a.numTokensNeedSlot request k.maxModelLen)) := by
  obtain ⟨s₁, l₁, hrun₁, hok₁, -, hw⟩ := removeSkippedBlocks_windowOnly h k.managers
    request.requestId (a.totalComputedTokens request k.maxModelLen)
  have hargs₁ := hargs.windowOnly h hok₁ hw
  obtain ⟨n, hcount, htaken⟩ := allocateTaken hok₁ hargs₁
  have hslots : k.allocateSlots s request a = k.checkAndAllocate s₁ request a n := by
    unfold allocateSlots
    rw [if_neg hargs.some, hrun₁, ok_bind, hcount, ok_bind]
  refine ⟨s₁, l₁, hrun₁, hok₁, hw, n, hcount, fun hlt => ?_, fun hle => ?_⟩
  · rw [hslots, checkAndAllocate, hok₁.pool.getNumFreeBlocks, if_pos (by exact_mod_cast hlt)]
    rfl
  · obtain ⟨s₂, blocks, s₃, l₃, hrun₂, hrun₃, hok₃, hlen₃, honly₃, hcover₃⟩ := htaken hle
    obtain ⟨s', hrun', hok', hreq', honly'⟩ : ∃ s', k.cacheNew s₃ request a = .ok s' ∧ s'.Ok cfg l₃ ∧
        s'.reqToBlocks = s₃.reqToBlocks ∧
        RowsOnly (IsRowOf k.singleTypeManagers request.requestId) s₃ s' := by
      unfold cacheNew
      rw [hok₃.pool.enableCaching]
      split
      case isTrue => exact ⟨s₃, rfl, hok₃, rfl, .refl _ s₃⟩
      case isFalse hon =>
        simp only [Bool.or_eq_true, Bool.not_eq_true', not_or, Bool.not_eq_false] at hon
        apply cacheBlocks_ok hok₃ k.managers _ hon.1 (min_le_right _ _)
        apply hargs₁.hashes
        rw [hok₁.pool.enableCaching]
        exact hon.1
    have hchecked : k.allocateChecked s₁ request a = .ok (blocks, s') := by
      rw [allocateChecked, hrun₂, ok_bind, hrun₃]
      show (k.cacheNew s₃ request a >>= _) = _
      rw [hrun']
      rfl
    refine ⟨blocks, s', l₃, ?_, hok', hlen₃, ?_, ?_⟩
    · rw [hslots, checkAndAllocate, hok₁.pool.getNumFreeBlocks, if_neg (by simpa using hle), hchecked]
      rfl
    · refine RowsOnly.trans (RowsOnly.trans ?_ honly₃) honly'
      exact ⟨hw.others.blocksOf, hw.others.contains⟩
    · intro m hm
      have hcov := hcover₃ m hm
      rwa [KVState.blocksOf, hreq']

end AllocateSlots

/-! ## Runs of the manager -/

/-- The manager's state, and which requests hold blocks. -/
structure ManagerState (β : Type) where
  kv : KVState (List β × Nat) Row
  allocated : Nat → Bool

/-- The calls of the scheduler. -/
inductive Op (β : Type) where
  | allocateSlots (request : Request (List β)) (a : AllocateArgs)
  | cacheBlocks (request : Request (List β)) (numComputedTokens : Int)
  | removeSkippedBlocks (requestId : Nat) (totalComputedTokens : Int)
  | free (requestId : Nat)
  | evictBlocks (blockIds : List Nat)
  | resetPrefixCache

section Runs

variable {β : Type} [DecidableEq β]

/-- `KVCacheManager.cache_blocks`. -/
def cacheIfEnabled (k : KVCacheManager) (s : KVState (List β × Nat) Row)
    (request : Request (List β)) (numComputedTokens : Int) :
    Except PyError (KVState (List β × Nat) Row) :=
  if s.pool.enableCaching then
    cacheBlocks k.singleTypeManagers request.requestId s k.hashBlockSize request.blockHashes
      numComputedTokens
  else return s

/-- One call. -/
def step (k : KVCacheManager) (st : ManagerState β) : Op β → Except PyError (ManagerState β)
  | .allocateSlots request a => do
    let (blocks, kv) ← k.allocateSlots st.kv request a
    let allocated :=
      if blocks.isSome then Function.update st.allocated request.requestId true else st.allocated
    return { kv, allocated }
  | .cacheBlocks request numComputedTokens => do
    let kv ← k.cacheIfEnabled st.kv request numComputedTokens
    return { st with kv }
  | .removeSkippedBlocks requestId totalComputedTokens => do
    let kv ← KVCacheManager.removeSkippedBlocks k.singleTypeManagers st.kv requestId
      totalComputedTokens
    return { st with kv }
  | .free requestId => do
    let kv ← KVCacheManager.free k.singleTypeManagers st.kv requestId
    return { kv, allocated := Function.update st.allocated requestId false }
  | .evictBlocks blockIds => do
    let kv ← st.kv.evictBlocks blockIds
    return { st with kv }
  | .resetPrefixCache => return { st with kv := st.kv.resetPrefixCache.2 }

/-- What the scheduler sees to: a request that holds blocks gets the arguments of a running one, any
other those of a new one; only a request that holds blocks has them cached. -/
def Enabled (k : KVCacheManager) (sinkBlocks : List Nat) (st : ManagerState β) : Op β → Prop
  | .allocateSlots request a =>
    ¬ (a.numNewTokens = 0 ∧ a.numExternalComputedTokens = 0) ∧
      (st.kv.pool.enableCaching = true →
        request.numTokens / k.hashBlockSize ≤ request.blockHashes.length) ∧
      if st.allocated request.requestId then RunningArgs k st.kv request a
      else NewArgs k sinkBlocks st.kv request a
  | .cacheBlocks request numComputedTokens =>
    st.allocated request.requestId = true ∧ numComputedTokens ≤ request.numTokens ∧
      request.numTokens / k.hashBlockSize ≤ request.blockHashes.length
  | .removeSkippedBlocks _ _ => True
  | .free _ => True
  | .evictBlocks blockIds => ∀ b ∈ blockIds, b < st.kv.pool.numGpuBlocks
  | .resetPrefixCache => True

/-- The states of all runs, with the sink blocks of the run. -/
inductive Reachable (k : KVCacheManager) (sinkBlocks : List Nat) : ManagerState β → Prop where
  | start {numGpuBlocks : Nat} {enableCaching : Bool} {numSinkBlocks : List Nat}
      {kv : KVState (List β × Nat) Row}
      (h : PoolRuns.start numGpuBlocks enableCaching numSinkBlocks = .ok (sinkBlocks, kv)) :
      Reachable k sinkBlocks ⟨kv, fun _ => false⟩
  | step {st st' : ManagerState β} {op : Op β} (h : Reachable k sinkBlocks st)
      (henabled : Enabled k sinkBlocks st op) (hstep : step k st op = .ok st') :
      Reachable k sinkBlocks st'

/-- The tables are in order, and those of requests that hold no blocks are empty. -/
def Invariant (k : KVCacheManager) (sinkBlocks : List Nat) (st : ManagerState β) : Prop :=
  ∃ cfg l, cfg.sinkBlocks = sinkBlocks ∧ st.kv.Ok cfg l ∧
    ∀ requestId, st.allocated requestId = false → Unallocated k st.kv requestId

variable {k : KVCacheManager} {sinkBlocks : List Nat} {st st' : ManagerState β}

section

omit [DecidableEq β]

/-- Another request's tables are as before. -/
theorem Unallocated.rowsOnly {s s' : KVState (List β × Nat) Row} {requestId requestId' : Nat}
    (h : Unallocated k s requestId) (hne : requestId ≠ requestId')
    (honly : RowsOnly (IsRowOf k.singleTypeManagers requestId') s s') : Unallocated k s' requestId := by
  intro m hm
  have hnot : ¬ IsRowOf k.singleTypeManagers requestId' (m.row requestId) := by
    rintro ⟨m', -, hrow⟩
    exact hne (Prod.mk.inj hrow).2
  rw [honly.blocksOf _ hnot, honly.contains _ hnot]
  exact h m hm

/-- Freeing a request empties its tables. -/
theorem free_ok {ms : List SingleTypeKVCacheManager} {hashBlockSize : Nat}
    {s : KVState (List β × Nat) Row} {cfg : BlockPool.Config} {l : List Nat} (h : s.Ok cfg l)
    (hms : Managers ms hashBlockSize) (requestId : Nat) :
    ∃ s' l', free ms s requestId = .ok s' ∧ s'.Ok cfg l' ∧ RowsOnly (IsRowOf ms requestId) s s' ∧
      ∀ m ∈ ms, s'.blocksOf (m.row requestId) = [] ∧ s'.numCachedBlock.contains (m.row requestId) = false := by
  induction ms generalizing s l with
  | nil => exact ⟨s, l, rfl, h, .refl _ s, by simp⟩
  | cons m ms ih =>
    obtain ⟨s₁, hrun₁, hok₁, honly₁, hnil₁, -, hcached₁, -⟩ := h.free (m.row requestId)
    obtain ⟨s', l', hrun', hok', honly', hrows'⟩ := ih hok₁ hms.tail
    refine ⟨s', l', ?_, hok', ?_, ?_⟩
    · rw [free, List.foldlM_cons, hrun₁]
      exact hrun'
    · refine RowsOnly.trans ⟨fun row hrow => ?_, fun row hrow => ?_⟩
        (honly'.mono fun row hrow => isRowOf_cons.mpr (Or.inr hrow))
      · exact honly₁.blocksOf fun heq => hrow (isRowOf_cons.mpr (Or.inl heq))
      · rw [hcached₁, Dict.contains, Dict.contains, Dict.get?_erase_of_ne _ fun heq =>
          hrow (isRowOf_cons.mpr (Or.inl heq))]
    · intro m' hm'
      rcases List.mem_cons.mp hm' with rfl | hm'
      · rw [honly'.blocksOf _ (hms.head_not requestId), honly'.contains _ (hms.head_not requestId),
          hcached₁]
        exact ⟨hnil₁, by simp [Dict.contains]⟩
      · exact hrows' m' hm'

/-- The conditions on a call give those on its arguments. -/
theorem Enabled.args {cfg : BlockPool.Config} {request : Request (List β)} {a : AllocateArgs}
    (hun : ∀ requestId, st.allocated requestId = false → Unallocated k st.kv requestId)
    (henabled : Enabled k cfg.sinkBlocks st (.allocateSlots request a)) : Args k cfg.sinkBlocks st.kv request a := by
  obtain ⟨hsome, hhashes, hcases⟩ := henabled
  refine ⟨hsome, hhashes, ?_⟩
  cases halloc : st.allocated request.requestId with
  | true =>
    rw [halloc] at hcases
    exact Or.inl hcases
  | false =>
    rw [halloc] at hcases
    exact Or.inr ⟨hun _ halloc, hcases⟩

end

/-- A call keeps the invariant. -/
theorem Invariant.step {op : Op β} (h : Invariant k sinkBlocks st)
    (henabled : Enabled k sinkBlocks st op) (hstep : KVCacheManager.step k st op = .ok st') :
    Invariant k sinkBlocks st' := by
  obtain ⟨cfg, l, rfl, hok, hun⟩ := h
  cases op with
  | allocateSlots request a =>
    obtain ⟨⟨out, kv⟩, hrun, hrest⟩ := bind_eq_ok.mp hstep
    cases hrest
    obtain ⟨s₁, l₁, -, hok₁, hw, n, -, hnone, hsome⟩ := allocateSlots_spec hok (henabled.args hun)
    rcases Nat.lt_or_ge l₁.length n with hlt | hge
    · rw [hnone hlt] at hrun
      cases hrun
      exact ⟨cfg, l₁, rfl, hok₁, fun r hr => (hun r hr).windowOnly hw⟩
    · obtain ⟨blocks, s', l', hrun', hok', -, honly, -⟩ := hsome hge
      rw [hrun'] at hrun
      cases hrun
      refine ⟨cfg, l', rfl, hok', fun r hr => ?_⟩
      have hne : r ≠ request.requestId := by
        rintro rfl
        simp at hr
      have hr' : st.allocated r = false := by simpa [Function.update_of_ne hne] using hr
      exact (hun r hr').rowsOnly hne honly
  | cacheBlocks request n =>
    obtain ⟨kv, hrun, hrest⟩ := bind_eq_ok.mp hstep
    cases hrest
    obtain ⟨halloc, hn, hhashes⟩ := henabled
    unfold cacheIfEnabled at hrun
    cases hcaching : cfg.enableCaching with
    | false =>
      rw [hok.pool.enableCaching, hcaching] at hrun
      cases hrun
      exact ⟨cfg, l, rfl, hok, hun⟩
    | true =>
      rw [hok.pool.enableCaching, hcaching] at hrun
      obtain ⟨s', hrun', hok', -, honly⟩ :=
        cacheBlocks_ok hok k.managers request.requestId hcaching hn hhashes
      rw [hrun'] at hrun
      cases hrun
      refine ⟨cfg, l, rfl, hok', fun r hr => ?_⟩
      have hne : r ≠ request.requestId := by
        rintro rfl
        rw [halloc] at hr
        simp at hr
      exact (hun r hr).rowsOnly hne honly
  | removeSkippedBlocks requestId total =>
    obtain ⟨kv, hrun, hrest⟩ := bind_eq_ok.mp hstep
    cases hrest
    obtain ⟨s', l', hrun', hok', -, hw⟩ :=
      removeSkippedBlocks_windowOnly hok k.managers requestId total
    rw [hrun'] at hrun
    cases hrun
    exact ⟨cfg, l', rfl, hok', fun r hr => (hun r hr).windowOnly hw⟩
  | free requestId =>
    obtain ⟨kv, hrun, hrest⟩ := bind_eq_ok.mp hstep
    cases hrest
    obtain ⟨s', l', hrun', hok', honly, hrows⟩ := free_ok hok k.managers requestId
    rw [hrun'] at hrun
    cases hrun
    refine ⟨cfg, l', rfl, hok', fun r hr => ?_⟩
    by_cases hne : r = requestId
    · subst hne
      exact hrows
    · have hr' : st.allocated r = false := by simpa [Function.update_of_ne hne] using hr
      exact (hun r hr').rowsOnly hne honly
  | evictBlocks ids =>
    obtain ⟨kv, hrun, hrest⟩ := bind_eq_ok.mp hstep
    cases hrest
    simp only [Enabled, hok.pool.numGpuBlocks] at henabled
    obtain ⟨s', hrun', hok'⟩ := hok.evictBlocks henabled
    rw [hrun'] at hrun
    cases hrun
    obtain ⟨pool, -, hpool⟩ := bind_eq_ok.mp hrun'
    cases hpool
    exact ⟨cfg, l, rfl, hok', hun⟩
  | resetPrefixCache =>
    cases hstep
    exact ⟨cfg, l, rfl, hok.resetPrefixCache, hun⟩

theorem Reachable.invariant (h : Reachable k sinkBlocks st) : Invariant k sinkBlocks st := by
  induction h with
  | start h =>
    obtain ⟨l, hok⟩ := PoolRuns.ok_start h
    refine ⟨_, l, rfl, hok, fun r _ m _ => ?_⟩
    obtain ⟨p, -, hrest⟩ := bind_eq_ok.mp h
    obtain ⟨⟨sinks, p'⟩, -, hrest⟩ := bind_eq_ok.mp hrest
    cases hrest
    exact ⟨rfl, rfl⟩
  | step _ henabled hstep ih => exact ih.step henabled hstep

/-- Admission is exact and rejection is clean. In every reachable state and for all arguments of the
scheduler, `allocate_slots` first drops blocks behind the window of its request: it replaces them by
null blocks, and takes one reference per replaced entry. Then it counts. If the count passes the check
it completes, with at most that many blocks taken from the free queue. If not it stops there. -/
theorem admission_exact (h : Reachable k sinkBlocks st) {request : Request (List β)}
    {a : AllocateArgs} (henabled : Enabled k sinkBlocks st (.allocateSlots request a)) :
    ∃ s₁ n, removeSkippedBlocks k.singleTypeManagers st.kv request.requestId
        (a.totalComputedTokens request k.maxModelLen) = .ok s₁ ∧ k.numBlocksToAllocate s₁ request a = .ok n ∧
      (n ≤ s₁.pool.getNumFreeBlocks → ∃ blocks s', k.allocateSlots st.kv request a = .ok (some blocks, s') ∧
          s₁.pool.getNumFreeBlocks ≤ s'.pool.getNumFreeBlocks + n) ∧
      (s₁.pool.getNumFreeBlocks < n → k.allocateSlots st.kv request a = .ok (none, s₁)) ∧
      WindowOnly k.singleTypeManagers request.requestId (a.totalComputedTokens request k.maxModelLen) st.kv s₁ ∧
      ∀ row, ∀ b ∈ s₁.blocksOf row, b ≠ 0 → 0 < (s₁.pool.blocks b).refCnt := by
  obtain ⟨cfg, l, rfl, hok, hun⟩ := h.invariant
  obtain ⟨s₁, l₁, hrun₁, hok₁, hw, n, hcount, hnone, hsome⟩ :=
    allocateSlots_spec hok (henabled.args hun)
  refine ⟨s₁, n, hrun₁, hcount, fun hle => ?_, fun hlt => ?_, hw, fun row b hb h0 => hok₁.ref_pos hb h0⟩
  · rw [hok₁.pool.getNumFreeBlocks] at hle ⊢
    obtain ⟨blocks, s', l', hrun', hok', hlen, -, -⟩ := hsome (by exact_mod_cast hle)
    refine ⟨blocks, s', hrun', ?_⟩
    rw [hok'.pool.getNumFreeBlocks]
    exact_mod_cast hlen
  · rw [hok₁.pool.getNumFreeBlocks] at hlt
    exact hnone (by exact_mod_cast hlt)

end Runs

/-! ## Runs at fixed inputs -/

/-- One group of blocks of one token, with a window of two tokens. -/
def windowOfTwo : KVCacheManager where
  kvCacheGroups := [⟨1, .slidingWindow 2, 0⟩]
  hashBlockSize := 1
  maxModelLen := 10
  attention := by simp [KVCacheSpec.Attention]

/-- A request with tokens `1 .. n`, each hashed to itself. -/
def countingRequest (requestId n numComputedTokens : Nat) : Request (List Nat) where
  requestId
  promptTokenIds := none
  numPromptTokens := n
  allTokenIds := List.range' 1 n
  numComputedTokens
  blockHashes := (List.range' 1 n).map fun t => [t]

/-- A pool of four blocks, of which the null block is not free. -/
def fourBlocks : Except PyError (ManagerState Nat) := do
  let (_, kv) ← PoolRuns.start 4 true []
  return ⟨kv, fun _ => false⟩

/-- Request 0 computes and caches two tokens. -/
def cacheTwo : Op Nat := .allocateSlots (countingRequest 0 2 0) { numNewTokens := 2 }

/-- Request 1 hits the second of them, behind a null block, and computes a third token. -/
def hitSecond : Op Nat := .allocateSlots (countingRequest 1 4 0)
  { numNewTokens := 1, numNewComputedTokens := 2, newComputedBlocks := fun _ => [0, 2] }

/-- One group of full attention, for a model of two tokens. -/
def fullOfTwo : KVCacheManager where
  kvCacheGroups := [⟨1, .fullAttention, 0⟩]
  hashBlockSize := 1
  maxModelLen := 2
  attention := by simp [KVCacheSpec.Attention]

theorem reachable_fourBlocks : ∃ st, fourBlocks = .ok st ∧ Reachable windowOfTwo [] st :=
  ⟨_, rfl, .start (show PoolRuns.start 4 true [] = .ok _ from rfl)⟩

theorem newArgs_of_noHits {request : Request (List Nat)} {n : Nat} {st : KVState (List Nat × Nat) Row}
    (h : request.numComputedTokens = 0) : NewArgs windowOfTwo [] st request { numNewTokens := n } := by
  refine ⟨h, Int.natCast_nonneg n, le_rfl, le_rfl, ?_, ?_, ?_, ?_⟩
  · exact fun hpos => absurd hpos (lt_irrefl 0)
  · exact fun _ _ => ⟨⟨by simp, by simp⟩, Or.inr rfl⟩
  · simp
  · exact fun _ _ hpos => absurd hpos (lt_irrefl 0)

/-- The first allocation in a pool of four blocks: two tokens are counted as two blocks. -/
theorem admission_exact_two_tokens :
    ∃ st, fourBlocks = .ok st ∧ ∃ blocks s', windowOfTwo.allocateSlots st.kv (countingRequest 0 2 0)
      { numNewTokens := 2 } = .ok (some blocks, s') ∧ 1 ≤ s'.pool.getNumFreeBlocks := by
  obtain ⟨st, hst, hreach⟩ := reachable_fourBlocks
  have henabled : Enabled windowOfTwo [] st
      (.allocateSlots (countingRequest 0 2 0) { numNewTokens := 2 }) := by
    cases hst
    exact ⟨by decide, by decide, newArgs_of_noHits rfl⟩
  obtain ⟨s₁, n, hremove, hcount, hsome, -⟩ := admission_exact hreach henabled
  cases hst
  cases hremove
  cases hcount
  obtain ⟨blocks, s', hrun, hfree⟩ := hsome (by decide)
  refine ⟨_, rfl, blocks, s', hrun, ?_⟩
  have hthree : (3 : Int) ≤ s'.pool.getNumFreeBlocks + 2 := hfree
  omega

/-- A request that is turned away gives up its reference to a block behind its window, although
another request holds the block too. And with more external tokens than the model length, the count
passes the check but the allocation raises. -/
theorem admission_not_clean :
    (∃ st s₁, Reachable windowOfTwo [] st ∧
      Enabled windowOfTwo [] st (.allocateSlots (countingRequest 1 4 3) { numNewTokens := 1 }) ∧
      windowOfTwo.allocateSlots st.kv (countingRequest 1 4 3) { numNewTokens := 1 } = .ok (none, s₁) ∧
      s₁.blocksOf (0, 0) = [1, 2] ∧ (st.kv.pool.blocks 2).refCnt = 2 ∧ (s₁.pool.blocks 2).refCnt = 1) ∧
    ∃ st, fourBlocks = .ok st ∧ fullOfTwo.numBlocksToAllocate st.kv (countingRequest 0 2 0)
        { numNewTokens := 0, numExternalComputedTokens := 4 } = .ok 2 ∧ st.kv.pool.getNumFreeBlocks = 3 ∧
      fullOfTwo.allocateSlots st.kv (countingRequest 0 2 0) { numNewTokens := 0, numExternalComputedTokens := 4 } =
        .error (.valueError "Cannot get 4 free blocks from the pool") := by
  refine ⟨?_, ⟨_, rfl, by decide, by decide, by rfl⟩⟩
  obtain ⟨st₀, hst₀, hreach₀⟩ := reachable_fourBlocks
  obtain ⟨st₁, hst₁⟩ : ∃ st₁, (fourBlocks >>= fun st => step windowOfTwo st cacheTwo) = .ok st₁ :=
    ⟨_, rfl⟩
  obtain ⟨st₂, hst₂⟩ : ∃ st₂, (fourBlocks >>= fun st => step windowOfTwo st cacheTwo >>= fun st =>
      step windowOfTwo st hitSecond) = .ok st₂ := ⟨_, rfl⟩
  have hstep₁ : step windowOfTwo st₀ cacheTwo = .ok st₁ := by
    rwa [hst₀] at hst₁
  have hstep₂ : step windowOfTwo st₁ hitSecond = .ok st₂ := by
    rwa [hst₀, ok_bind, hstep₁] at hst₂
  have henabled₀ : Enabled windowOfTwo [] st₀ cacheTwo := by
    cases hst₀
    exact ⟨by decide, by decide, newArgs_of_noHits rfl⟩
  have henabled₁ : Enabled windowOfTwo [] st₁ hitSecond := by
    cases hst₁
    refine ⟨by decide, by decide, rfl, by decide, by decide, by decide, by decide, ?_, by decide,
      by decide⟩
    intro m hm
    obtain rfl : m = ⟨⟨1, .slidingWindow 2, 0⟩, 0⟩ := List.mem_singleton.mp hm
    exact ⟨⟨by decide, by decide⟩, Or.inl rfl⟩
  have hreach₂ := (hreach₀.step henabled₀ hstep₁).step henabled₁ hstep₂
  cases hst₂
  refine ⟨_, _, hreach₂, ?_, rfl, by decide, by decide, by decide⟩
  exact ⟨by decide, by decide, by decide, rfl, rfl, by decide, by decide⟩

end Yuan.Core.KVCacheManager
