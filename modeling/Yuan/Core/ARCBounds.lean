import Yuan.Core.OffloadConservation

/-!
# Ghost lists and target size of the ARC manager

The ghost lists are cut to the capacity whenever a store is prepared, but not when it is refused. The
target size stays within the capacity whatever the rounding of floating-point numbers does, as long as
it is monotone and leaves the block counts alone.
-/

namespace Yuan.Core

open OffloadRun

/-- Rounding to floating-point numbers, exact on block counts. -/
structure Rounding (capacity : Nat) where
  round : ℚ → ℚ
  mono : Monotone round
  exact : ∀ n : Nat, n ≤ capacity → round n = n

variable {α : Type}

namespace ARCOffloadingManager

variable {m m' : ARCOffloadingManager α} {capacity : Nat}

/-- Ghost lists and target size are within the capacity. -/
structure Bounded (m : ARCOffloadingManager α) (capacity : Nat) : Prop where
  cap : m.cacheCapacity = capacity
  b1 : m.b1.entries.length ≤ capacity
  b2 : m.b2.entries.length ≤ capacity
  nonneg : 0 ≤ m.targetT1Size
  le : m.targetT1Size ≤ capacity

/-- Nothing that `Bounded` speaks of is changed. -/
structure SameGhosts (m m' : ARCOffloadingManager α) : Prop where
  b1 : m'.b1 = m.b1
  b2 : m'.b2 = m.b2
  target : m'.targetT1Size = m.targetT1Size
  cap : m'.cacheCapacity = m.cacheCapacity

theorem SameGhosts.refl (m : ARCOffloadingManager α) : SameGhosts m m := ⟨rfl, rfl, rfl, rfl⟩

theorem SameGhosts.trans {m'' : ARCOffloadingManager α} (h : SameGhosts m m')
    (h' : SameGhosts m' m'') : SameGhosts m m'' :=
  ⟨h'.b1.trans h.b1, h'.b2.trans h.b2, h'.target.trans h.target, h'.cap.trans h.cap⟩

theorem Bounded.same (h : m.Bounded capacity) (hsame : SameGhosts m m') : m'.Bounded capacity :=
  ⟨hsame.cap.trans h.cap, hsame.b1 ▸ h.b1, hsame.b2 ▸ h.b2, hsame.target ▸ h.nonneg,
    hsame.target ▸ h.le⟩

variable [DecidableEq α] {blockHashes : List α}

theorem sameGhosts_setBlock (blockHash : α) (block : CPUBlockStatus) : SameGhosts m (m.setBlock blockHash block) := by
  unfold setBlock
  split <;> exact ⟨rfl, rfl, rfl, rfl⟩

theorem sameGhosts_popBlock (blockHash : α) : SameGhosts m (m.popBlock blockHash) := by
  unfold popBlock
  split <;> exact ⟨rfl, rfl, rfl, rfl⟩

theorem sameGhosts_prepareLoad {ids : List Nat} (h : m.prepareLoad blockHashes = .ok (ids, m')) : SameGhosts m m' := by
  induction blockHashes generalizing m ids with
  | nil =>
    cases h
    exact .refl _
  | cons blockHash rest ih =>
    obtain ⟨block, -, h⟩ := bind_eq_ok.mp h
    obtain ⟨_, -, h⟩ := bind_eq_ok.mp h
    obtain ⟨⟨ids', m''⟩, hrest, h⟩ := bind_eq_ok.mp h
    cases h
    exact (sameGhosts_setBlock _ _).trans (ih hrest)

theorem sameGhosts_completeLoad (h : m.completeLoad blockHashes = .ok m') : SameGhosts m m' := by
  induction blockHashes generalizing m with
  | nil =>
    cases h
    exact .refl _
  | cons blockHash rest ih =>
    obtain ⟨block, -, h⟩ := bind_eq_ok.mp h
    obtain ⟨_, -, h⟩ := bind_eq_ok.mp h
    exact (sameGhosts_setBlock _ _).trans (ih h)

theorem sameGhosts_markReady (blockHashes : List α) : SameGhosts m (m.markReady blockHashes).2 := by
  induction blockHashes generalizing m with
  | nil => exact .refl _
  | cons blockHash rest ih =>
    rw [markReady]
    cases m.get? blockHash with
    | none => exact ih
    | some block =>
      dsimp only
      split
      case isTrue => exact ih
      case isFalse => exact (sameGhosts_setBlock _ _).trans ih

theorem sameGhosts_dropBlocks (blockHashes : List α) : SameGhosts m (m.dropBlocks blockHashes) := by
  induction blockHashes generalizing m with
  | nil => exact .refl _
  | cons blockHash rest ih =>
    rw [dropBlocks]
    cases m.get? blockHash with
    | none => exact ih
    | some block =>
      have hpop := sameGhosts_popBlock (m := m) blockHash
      dsimp only
      split
      case isTrue => exact hpop.trans ih
      case isFalse =>
        have hfree : SameGhosts (m.popBlock blockHash)
            { m.popBlock blockHash with
              backend := (m.popBlock blockHash).backend.free block } := ⟨rfl, rfl, rfl, rfl⟩
        exact (hpop.trans hfree).trans ih

/-! ## Touching -/

theorem Bounded.touchOne (h : m.Bounded capacity) (rounding : Rounding capacity) (blockHash : α) :
    (m.touchOne rounding.round blockHash).Bounded capacity := by
  have hcap : (m.cacheCapacity : ℚ) = capacity := by
    rw [h.cap]
    rfl
  have hzero : rounding.round 0 = 0 := rounding.exact 0 (Nat.zero_le _)
  unfold ARCOffloadingManager.touchOne
  split
  case h_1 =>
    split
    case isTrue => exact h.same ⟨rfl, rfl, rfl, rfl⟩
    case isFalse => exact h.same ⟨rfl, rfl, rfl, rfl⟩
  case h_2 =>
    split
    case isTrue => exact h.same ⟨rfl, rfl, rfl, rfl⟩
    case isFalse =>
      split
      case isTrue =>
        refine ⟨h.cap, ?_, h.b2, ?_, ?_⟩
        · show (m.b1.moveToEnd blockHash).entries.length ≤ capacity
          rw [(Dict.perm_moveToEnd m.b1 blockHash).length_eq]
          exact h.b1
        · -- the target grows from a non-negative number
          rw [hcap]
          apply le_min
          · rw [← hzero]
            apply rounding.mono
            exact add_nonneg h.nonneg (zero_le_one.trans (le_max_left _ _))
          · exact Nat.cast_nonneg _
        · dsimp only
          rw [hcap]
          exact min_le_right _ _
      case isFalse =>
        split
        case isTrue =>
          refine ⟨h.cap, h.b1, ?_, ?_, ?_⟩
          · show (m.b2.moveToEnd blockHash).entries.length ≤ capacity
            rw [(Dict.perm_moveToEnd m.b2 blockHash).length_eq]
            exact h.b2
          · exact le_max_right _ _
          · -- the target shrinks from a number within the capacity
            apply max_le
            · rw [← rounding.exact capacity le_rfl]
              apply rounding.mono
              exact (sub_le_self _ (zero_le_one.trans (le_max_left _ _))).trans h.le
            · exact Nat.cast_nonneg _
        case isFalse => exact h

theorem Bounded.touch (h : m.Bounded capacity) (rounding : Rounding capacity)
    (blockHashes : List α) : (m.touch rounding.round blockHashes).Bounded capacity := by
  unfold ARCOffloadingManager.touch
  induction blockHashes.reverse generalizing m with
  | nil => exact h
  | cons blockHash rest ih => exact ih (h.touchOne rounding blockHash)

/-! ## Storing -/

/-- A refused store leaves the ghost lists within the capacity: there are enough blocks to evict, or
room for all that are evicted in vain. -/
def GhostsFit (m : ARCOffloadingManager α) (blockHashes : List α) : Prop :=
  m.toStore blockHashes = [] ∨ m.numBlocksToEvict blockHashes ≤ m.evictable ∨
    (m.b1.entries.length + m.evictableT1 ≤ m.cacheCapacity ∧
      m.b2.entries.length + m.evictableT2 ≤ m.cacheCapacity)

theorem length_set_le (b : Dict α Unit) (blockHash : α) :
    (b.set blockHash ()).entries.length ≤ b.entries.length + 1 := by
  by_cases h : blockHash ∈ b.keys
  · rw [Dict.entries_set_of_mem h, Dict.replace, List.length_map]
    omega
  · rw [Dict.entries_set_of_not_mem h, List.length_append, List.length_singleton]

/-- Every eviction adds at most one ghost, and uses up one evictable block of the same list. -/
theorem evictLoop_ghosts {n : Nat} {toEvict : List α} {enough : Bool} (h : evictLoop n m = (toEvict, m', enough)) :
    m'.b1.entries.length ≤ m.b1.entries.length + m.evictableT1 ∧
      m'.b2.entries.length ≤ m.b2.entries.length + m.evictableT2 ∧
      m'.targetT1Size = m.targetT1Size ∧ m'.cacheCapacity = m.cacheCapacity := by
  induction n generalizing m toEvict with
  | zero =>
    obtain ⟨-, hrest⟩ := Prod.mk.inj h
    cases hrest
    exact ⟨Nat.le_add_right _ _, Nat.le_add_right _ _, rfl, rfl⟩
  | succ n ih =>
    rw [evictLoop] at h
    cases hone : m.evictOne with
    | none =>
      rw [hone] at h
      obtain ⟨-, hrest⟩ := Prod.mk.inj h
      cases hrest
      exact ⟨Nat.le_add_right _ _, Nat.le_add_right _ _, rfl, rfl⟩
    | some first =>
      obtain ⟨blockHash, m₁⟩ := first
      rw [hone] at h
      cases h
      obtain ⟨hb1, hb2, htarget, hcap⟩ := ih rfl
      rcases evictOne_cases hone with ⟨block, hroom, hget, hunused, rfl⟩ |
        ⟨block, -, hget, hunused, rfl⟩
      · have hlen := length_set_le m.b1 blockHash
        obtain ⟨hcount, hsize⟩ := countP_erase hget hunused
        refine ⟨?_, hb2, htarget, hcap⟩
        unfold evictableT1 targetSize at *
        dsimp only at *
        omega
      · have hlen := length_set_le m.b2 blockHash
        obtain ⟨hcount, -⟩ := countP_erase hget hunused
        refine ⟨hb1, ?_, htarget, hcap⟩
        unfold evictableT2 at *
        dsimp only at *
        omega

theorem length_eraseAll_le (b : Dict α Unit) (ks : List α) : (b.eraseAll ks).entries.length ≤ b.entries.length := by
  induction ks generalizing b with
  | nil => exact le_rfl
  | cons k ks ih => exact (ih _).trans (List.length_filter_le _ _)

theorem Bounded.prepareStore (h : m.Bounded capacity) (hfit : m.GhostsFit blockHashes)
    {r : Option (PrepareStoreOutput α)} (hstore : m.prepareStore blockHashes = .ok (r, m')) : m'.Bounded capacity := by
  unfold ARCOffloadingManager.prepareStore at hstore
  dsimp only at hstore
  split at hstore
  case isTrue =>
    cases hstore
    exact h
  case isFalse hne =>
    split at hstore
    case h_1 toEvict m₁ hloop =>
      cases hstore
      obtain ⟨hb1, hb2, htarget, hcap⟩ := evictLoop_ghosts hloop
      rcases hfit with hnil | henough | ⟨hfit1, hfit2⟩
      · exact absurd hnil hne
      · cases (evictLoop_enough hloop).1.mpr henough
      · have hcapacity := h.cap
        exact ⟨hcap.trans hcapacity, by omega, by omega, htarget ▸ h.nonneg, htarget ▸ h.le⟩
    case h_2 toEvict m₁ hloop =>
      obtain ⟨⟨blocks, backend⟩, -, hstore⟩ := bind_eq_ok.mp hstore
      obtain ⟨_, -, hstore⟩ := bind_eq_ok.mp hstore
      cases hstore
      obtain ⟨-, -, htarget, hcap⟩ := evictLoop_ghosts hloop
      have hcapacity : m₁.cacheCapacity = capacity := hcap.trans h.cap
      -- the ghost lists are cut to the capacity, and then lose the stored hashes
      have htrim : ∀ b : Dict α Unit,
          (b.dropOldest (b.entries.length - m₁.cacheCapacity).toNat).entries.length ≤ capacity := by
        intro b
        show (b.entries.drop _).length ≤ capacity
        rw [List.length_drop]
        omega
      refine ⟨hcapacity, ?_, ?_, htarget ▸ h.nonneg, htarget ▸ h.le⟩
      · exact (length_eraseAll_le _ _).trans (htrim m₁.b1)
      · exact (length_eraseAll_le _ _).trans (htrim m₁.b2)

/-! ## Runs -/

/-- Steps in which no hash to store is named twice, except in a store that cannot get the blocks it needs,
the ghosts fit, and failed stores list no block that is ready. -/
def Meets (m : ARCOffloadingManager α) : OffloadOp α → Prop
  | .prepareStore blockHashes =>
    (m.evictable < m.numBlocksToEvict blockHashes ∨ (m.toStore blockHashes).Nodup) ∧ m.GhostsFit blockHashes
  | .completeStore blockHashes false => m.MayFail blockHashes
  | _ => True

theorem enough_of_prepareStore {out : PrepareStoreOutput α} (h : m.prepareStore blockHashes = .ok (some out, m')) :
    m.toStore blockHashes = [] ∨ m.numBlocksToEvict blockHashes ≤ m.evictable := by
  unfold ARCOffloadingManager.prepareStore at h
  dsimp only at h
  split at h
  case isTrue hnil => exact Or.inl hnil
  case isFalse =>
    split at h
    case h_1 => cases h
    case h_2 toEvict m₁ hloop => exact Or.inr ((evictLoop_enough hloop).1.mp rfl)

theorem orderly_meets (round : ℚ → ℚ) : Orderly (manager round) view MayFail (Meets (α := α)) where
  nodup m hs out m' h hstore := by
    rw [← toStore_eq]
    rcases enough_of_prepareStore hstore with hnil | henough
    · rw [hnil]
      exact List.nodup_nil
    · exact h.1.resolve_left (Nat.not_lt.mpr henough)
  mayFail _ _ h := h

theorem Bounded.step (rounding : Rounding capacity) {run run' : OffloadRun α (ARCOffloadingManager α)}
    (h : run.manager.Bounded capacity) {op : OffloadOp α} (hop : run.manager.Meets op)
    (hstep : run.step (manager rounding.round) op = .ok run') : run'.manager.Bounded capacity := by
  cases OffloadRun.stepped hstep with
  | lookup hs => exact h
  | touch hs => exact h.touch rounding hs
  | prepareLoad hload => exact h.same (sameGhosts_prepareLoad hload)
  | completeLoad hload => exact h.same (sameGhosts_completeLoad hload)
  | refused hstore => exact h.prepareStore hop.2 hstore
  | prepared hstore => exact h.prepareStore hop.2 hstore
  | @stored hs s hstore =>
    cases hstore
    exact h.same ((sameGhosts_markReady hs).trans ⟨rfl, rfl, rfl, rfl⟩)
  | @failed hs s hstore =>
    cases hstore
    exact h.same (sameGhosts_dropBlocks hs)
  | takeEvents => exact h.same ⟨rfl, rfl, rfl, rfl⟩

theorem Bounded.reachable (rounding : Rounding capacity) {start : ARCOffloadingManager α}
    (hstart : start.Bounded capacity) {run : OffloadRun α (ARCOffloadingManager α)}
    (h : Reachable (manager rounding.round) Meets start run) : run.manager.Bounded capacity := by
  induction h with
  | start => exact hstart
  | step _ op hop hstep ih => exact ih.step rounding hop hstep

end ARCOffloadingManager

/-- Steps in which no hash to store is named twice, except in a store that cannot get the blocks it needs. -/
def LRUOffloadingManager.Meets [DecidableEq α] (m : LRUOffloadingManager α) : OffloadOp α → Prop
  | .prepareStore blockHashes =>
    m.blocks.entries.countP (fun e => decide (e.2.refCnt = 0)) < m.numBlocksToEvict blockHashes ∨
      (blockHashes.filter fun h => h ∉ m.blocks.keys).Nodup
  | _ => True

theorem LRUOffloadingManager.orderly_meets [DecidableEq α] :
    Orderly LRUOffloadingManager.manager LRUOffloadingManager.view (fun _ _ => True)
      (LRUOffloadingManager.Meets (α := α)) where
  nodup _ _ _ _ h hstore := h.resolve_left (Nat.not_lt.mpr (LRUOffloadingManager.enough_of_prepareStore hstore))
  mayFail _ _ _ := trivial

/-- A new backend has handed out nothing. -/
theorem conserves_new (blockSize numBlocks : Nat) :
    Conserves ([] : List (α × CPUBlockStatus)) { blockSize := blockSize, numBlocks := numBlocks } :=
  ⟨List.nodup_nil, .refl _, Nat.zero_le _⟩

/-- In every run of the LRU manager over a CPU backend the blocks are conserved and those in use are
kept, if no hash that gets a block is named twice. So they are in every run of the ARC manager in which, too,
failed stores list no block that is ready and refused stores leave the ghost lists within the capacity;
there the four lists are disjoint, and ghost lists and target size are within the capacity. -/
theorem offload_conserves_blocks [DecidableEq α] (blockSize numBlocks : Nat) (enableEvents : Bool)
    (rounding : Rounding numBlocks) :
    (∀ run : OffloadRun α (LRUOffloadingManager α), Reachable LRUOffloadingManager.manager LRUOffloadingManager.Meets
        (LRUOffloadingManager.init { blockSize := blockSize, numBlocks := numBlocks } enableEvents) run →
      BlocksConserved run.manager.view numBlocks ∧
      KeepsUsed LRUOffloadingManager.manager LRUOffloadingManager.view LRUOffloadingManager.Meets run) ∧
    (∀ run : OffloadRun α (ARCOffloadingManager α),
      Reachable (ARCOffloadingManager.manager rounding.round) ARCOffloadingManager.Meets
        (ARCOffloadingManager.init { blockSize := blockSize, numBlocks := numBlocks } enableEvents) run →
      BlocksConserved run.manager.view numBlocks ∧
      KeepsUsed (ARCOffloadingManager.manager rounding.round) ARCOffloadingManager.view ARCOffloadingManager.Meets run ∧
      run.manager.Apart ∧ run.manager.Bounded numBlocks) := by
  constructor
  · intro run hrun
    have hstart : Accounted LRUOffloadingManager.view (fun _ => True) numBlocks
        (LRUOffloadingManager.init { blockSize := blockSize, numBlocks := numBlocks } enableEvents :
          LRUOffloadingManager α) :=
      ⟨trivial, conserves_new blockSize numBlocks, rfl⟩
    have h := hstart.reachable LRUOffloadingManager.refines LRUOffloadingManager.orderly_meets hrun
    exact ⟨h.blocksConserved,
      h.keepsUsed LRUOffloadingManager.refines LRUOffloadingManager.orderly_meets⟩
  · intro run hrun
    have hrefines := ARCOffloadingManager.refines (α := α) rounding.round
    have hstart : Accounted ARCOffloadingManager.view ARCOffloadingManager.Apart numBlocks
        (ARCOffloadingManager.init { blockSize := blockSize, numBlocks := numBlocks } enableEvents :
          ARCOffloadingManager α) :=
      ⟨⟨by simp [ARCOffloadingManager.init], by simp [ARCOffloadingManager.init],
        by simp [ARCOffloadingManager.init]⟩, conserves_new blockSize numBlocks, rfl⟩
    have hbounded : (ARCOffloadingManager.init { blockSize := blockSize, numBlocks := numBlocks }
        enableEvents : ARCOffloadingManager α).Bounded numBlocks :=
      ⟨by simp [ARCOffloadingManager.init, CPUBackend.getNumFreeBlocks], Nat.zero_le _, Nat.zero_le _,
        le_rfl, Nat.cast_nonneg _⟩
    have h := hstart.reachable hrefines (ARCOffloadingManager.orderly_meets _) hrun
    exact ⟨h.blocksConserved, h.keepsUsed hrefines (ARCOffloadingManager.orderly_meets _), h.ok,
      hbounded.reachable rounding hrun⟩

/-- Exact arithmetic. -/
def exactRounding (capacity : Nat) : Rounding capacity := ⟨id, monotone_id, fun _ _ => rfl⟩

/-- Blocks 1 and 2 are stored, and 1 makes room for 3. While 2 and 3 are read a store of 4 is refused, and when 2
has been read, one that names 4 twice: it has evicted 2 before. -/
theorem offload_conserves_blocks_two_reads :
    ∃ run : OffloadRun Nat (ARCOffloadingManager Nat), run.manager.lookup [3] = 1 ∧ run.manager.b1.keys = [1, 2] ∧
      BlocksConserved run.manager.view 2 ∧
      KeepsUsed (ARCOffloadingManager.manager id) ARCOffloadingManager.view ARCOffloadingManager.Meets run ∧
      run.manager.Apart ∧ run.manager.Bounded 2 := by
  have hstart : Reachable (ARCOffloadingManager.manager id) ARCOffloadingManager.Meets smallARC
      { manager := smallARC } := .start
  have hprepared := hstart.step (.prepareStore [1, 2]) ⟨Or.inr (by decide), Or.inr (Or.inl (by decide))⟩ rfl
  have hstored := hprepared.step (.completeStore [1, 2] true) trivial rfl
  have hloading := hstored.step (.prepareLoad [2]) trivial rfl
  have hevicting := hloading.step (.prepareStore [3]) ⟨Or.inr (by decide), Or.inr (Or.inl (by decide))⟩ rfl
  have hreplaced := hevicting.step (.completeStore [3] true) trivial rfl
  have hreading := hreplaced.step (.prepareLoad [3]) trivial rfl
  have hrefused := hreading.step (.prepareStore [4]) ⟨Or.inr (by decide), Or.inr (Or.inr (by decide))⟩ rfl
  have hread := hrefused.step (.completeLoad [2]) trivial rfl
  have hrepeated := hread.step (.prepareStore [4, 4]) ⟨Or.inl (by decide), Or.inr (Or.inr (by decide))⟩ rfl
  exact ⟨_, rfl, rfl, (offload_conserves_blocks 16 2 true (exactRounding 2)).2 _ hrepeated⟩

/-- Blocks 1 and 2 are evicted for 3 and 4, of which 4 is being read. A store of two more evicts 3, and
is refused then: `B1` remembers three blocks in a cache of two. -/
theorem offload_conserves_blocks_not_always :
    ¬ ∀ run : OffloadRun Nat (ARCOffloadingManager Nat),
      Reachable (ARCOffloadingManager.manager id)
        (fun m op => match op with
          | .prepareStore blockHashes => (m.toStore blockHashes).Nodup
          | .completeStore blockHashes false => m.MayFail blockHashes
          | _ => True) smallARC run →
      run.manager.b1.entries.length ≤ 2 := by
  intro h
  have hstart : Reachable (ARCOffloadingManager.manager id)
      (fun m op => match op with
        | .prepareStore blockHashes => (m.toStore blockHashes).Nodup
        | .completeStore blockHashes false => m.MayFail blockHashes
        | _ => True) smallARC { manager := smallARC } := .start
  have hfirst := hstart.step (.prepareStore [1, 2]) (by decide) rfl
  have hfirst' := hfirst.step (.completeStore [1, 2] true) trivial rfl
  have hsecond := hfirst'.step (.prepareStore [3, 4]) (by decide) rfl
  have hsecond' := hsecond.step (.completeStore [3, 4] true) trivial rfl
  have hloading := hsecond'.step (.prepareLoad [4]) trivial rfl
  have hrefused := hloading.step (.prepareStore [5, 6]) (by decide) rfl
  have hle := h _ hrefused
  revert hle
  decide

end Yuan.Core
