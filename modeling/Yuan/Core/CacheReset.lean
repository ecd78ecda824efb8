import Yuan.Core.ManagerRuns
import Mathlib.Data.Finset.Card
import Mathlib.Data.Finset.Range

/-!
# Resetting the prefix cache

`reset_prefix_cache` forgets all hashes, unless some block is in use: it takes the null block for the only
one that is never free. The blocks of attention sinks are never free either. So the reset works in all runs
without sink blocks, and with sink blocks it fails even when no request holds any block.
-/

namespace Yuan.Core

section Unused

variable {κ ρ : Type} [DecidableEq ρ]

/-- Some request holds a block. The null block is a placeholder in the tables. -/
def KVState.HoldsBlocks (s : KVState κ ρ) : Prop := ∃ r, ∃ b ∈ s.blocksOf r, b ≠ s.pool.nullBlock

/-- Every lookup misses, and nothing but the hashes has changed. -/
structure Forgotten (s s' : KVState κ ρ) : Prop where
  getOneBlock : ∀ key, s'.pool.cachedBlockHashToBlock.getOneBlock key = none
  getCachedBlock : ∀ keys, keys ≠ [] → s'.pool.getCachedBlock keys = none
  blockHash : ∀ b, (s'.pool.blocks b).blockHash = none
  freeBlockQueue : s'.pool.freeBlockQueue = s.pool.freeBlockQueue
  refCnt : ∀ b, (s'.pool.blocks b).refCnt = (s.pool.blocks b).refCnt
  reqToBlocks : s'.reqToBlocks = s.reqToBlocks
  numCachedBlock : s'.numCachedBlock = s.numCachedBlock

/-- The prefix cache is reset if no request holds a block, and nothing happens otherwise. -/
structure ResetWorks (s : KVState κ ρ) : Prop where
  unused : ¬ s.HoldsBlocks → s.resetPrefixCache.1 = true ∧ Forgotten s s.resetPrefixCache.2
  used : s.HoldsBlocks → s.resetPrefixCache = (false, s)

omit [DecidableEq ρ] in
/-- All blocks but the null block are free if their number says so. -/
theorem BlockPool.Ok.length_free {p : BlockPool κ} {cfg : BlockPool.Config} {l : List Nat} (h : p.Ok cfg l) :
    l.length + 1 = cfg.numGpuBlocks ↔ ∀ b, b ≠ 0 → b < cfg.numGpuBlocks → b ∈ l := by
  have hnodup := h.holds.links.nodup
  have hsub : l.toFinset ⊆ (Finset.range cfg.numGpuBlocks).erase 0 := by
    intro b hb
    obtain ⟨⟨h0, hlt, -⟩, -⟩ := (h.mem_free b).mp (List.mem_toFinset.mp hb)
    exact Finset.mem_erase.mpr ⟨h0, Finset.mem_range.mpr hlt⟩
  have hcard : ((Finset.range cfg.numGpuBlocks).erase 0).card + 1 = cfg.numGpuBlocks := by
    rw [Finset.card_erase_add_one (Finset.mem_range.mpr h.null_lt), Finset.card_range]
  have hlength := List.toFinset_card_of_nodup hnodup
  constructor
  · intro hfull b h0 hlt
    have heq := Finset.eq_of_subset_of_card_le hsub (by omega)
    rw [← List.mem_toFinset, heq]
    exact Finset.mem_erase.mpr ⟨h0, Finset.mem_range.mpr hlt⟩
  · intro hall
    have hsup : (Finset.range cfg.numGpuBlocks).erase 0 ⊆ l.toFinset := by
      intro b hb
      obtain ⟨h0, hlt⟩ := Finset.mem_erase.mp hb
      exact List.mem_toFinset.mpr (hall b h0 (Finset.mem_range.mp hlt))
    have := Finset.card_le_card hsub
    have := Finset.card_le_card hsup
    omega

variable {s : KVState κ ρ} {cfg : BlockPool.Config} {l : List Nat}

/-- The count of used blocks is one when there are no sink blocks and no request holds a block. -/
theorem KVState.Ok.unused_iff (h : s.Ok cfg l) (hsinks : ∀ b ∈ cfg.sinkBlocks, b ≠ 0 ∧ b < cfg.numGpuBlocks) :
    s.pool.numGpuBlocks - s.pool.getNumFreeBlocks = 1 ↔ cfg.sinkBlocks = [] ∧ ¬ s.HoldsBlocks := by
  have hcount : s.pool.numGpuBlocks - s.pool.getNumFreeBlocks = 1 ↔ l.length + 1 = cfg.numGpuBlocks := by
    rw [h.pool.numGpuBlocks, h.pool.getNumFreeBlocks]
    omega
  rw [hcount, h.pool.length_free]
  constructor
  · intro hall
    constructor
    · rw [List.eq_nil_iff_forall_not_mem]
      intro b hb
      obtain ⟨h0, hlt⟩ := hsinks b hb
      obtain ⟨⟨-, -, hnot⟩, -⟩ := (h.pool.mem_free b).mp (hall b h0 hlt)
      exact hnot hb
    · rintro ⟨r, b, hb, hnull⟩
      rw [h.pool.nullBlock] at hnull
      obtain ⟨-, hlt, -⟩ := (h.usable r b hb).resolve_left hnull
      have hzero := h.occurrences_of_free (hall b hnull hlt)
      have hpos := occurrences_pos.mpr ⟨r, hb⟩
      omega
  · rintro ⟨hnil, hnone⟩ b h0 hlt
    refine (h.pool.mem_free b).mpr ⟨⟨h0, hlt, by rw [hnil]; exact List.not_mem_nil⟩, ?_⟩
    rw [h.refs b h0]
    have hzero : ¬ 0 < s.occurrences b := fun hpos => by
      obtain ⟨r, hb⟩ := occurrences_pos.mp hpos
      exact hnone ⟨r, b, hb, by rwa [h.pool.nullBlock]⟩
    omega

omit [DecidableEq ρ] in
/-- A reset that is carried out forgets all hashes. -/
theorem forgotten_resetPrefixCache (hused : s.pool.numGpuBlocks - s.pool.getNumFreeBlocks = 1) :
    s.resetPrefixCache.1 = true ∧ Forgotten s s.resetPrefixCache.2 := by
  unfold KVState.resetPrefixCache BlockPool.resetPrefixCache
  rw [if_neg (fun h => h hused)]
  refine ⟨rfl, ⟨fun key => rfl, fun keys hkeys => ?_, fun b => rfl, rfl, fun b => rfl, rfl, rfl⟩⟩
  cases keys with
  | nil => exact absurd rfl hkeys
  | cons key keys => rfl

omit [DecidableEq ρ] in
theorem resetPrefixCache_of_used (hused : s.pool.numGpuBlocks - s.pool.getNumFreeBlocks ≠ 1) :
    s.resetPrefixCache = (false, s) := by
  unfold KVState.resetPrefixCache BlockPool.resetPrefixCache
  rw [if_pos hused]

end Unused

namespace Managers

variable {κ : Type} [DecidableEq κ]

/-- In every reachable state the reset works exactly when there are no sink blocks, or some request holds a
block. With sink blocks it never succeeds. -/
theorem resetPrefixCache_works_iff {mambaManagers : List MambaManager} {sinkBlocks : List Nat}
    {s : Managers κ} (h : Reachable mambaManagers sinkBlocks s) :
    ResetWorks s.kv ↔ sinkBlocks = [] ∨ s.kv.HoldsBlocks := by
  obtain ⟨⟨cfg, l, rfl, hok, hsinks⟩, -⟩ := h.ok
  have hunused := hok.unused_iff hsinks
  constructor
  · intro hworks
    by_contra hnot
    obtain ⟨hsink, hnone⟩ := not_or.mp hnot
    have hfalse := resetPrefixCache_of_used (s := s.kv) fun hused => hsink (hunused.mp hused).1
    have htrue := (hworks.unused hnone).1
    rw [hfalse] at htrue
    cases htrue
  · intro hcondition
    constructor
    · intro hnone
      exact forgotten_resetPrefixCache (hunused.mpr ⟨hcondition.resolve_right hnone, hnone⟩)
    · intro hholds
      exact resetPrefixCache_of_used fun hused => (hunused.mp hused).2 hholds

/-- A model with one sink block, and a mamba group next to it: before and after a request takes a block. -/
theorem resetPrefixCache_works_iff_one_sink : ∃ s s' : Managers Nat,
    start 5 true [1] = .ok ([1], s) ∧ s.step (.pool (.getNewBlocks (0, 7) 2)) = .ok s' ∧
      (ResetWorks s.kv ↔ [1] = [] ∨ s.kv.HoldsBlocks) ∧ (ResetWorks s'.kv ↔ [1] = [] ∨ s'.kv.HoldsBlocks) := by
  let m : MambaManager := ⟨⟨{ blockSize := 4, attention := .mamba }, 1⟩, 2, rfl, by decide⟩
  obtain ⟨s, hs, s', hstep, hfree⟩ : ∃ s : Managers Nat, start 5 true [1] = .ok ([1], s) ∧
      ∃ s', s.step (.pool (.getNewBlocks (0, 7) 2)) = .ok s' ∧ s.kv.pool.getNumFreeBlocks = 3 :=
    ⟨_, rfl, _, rfl, rfl⟩
  have hreach : Reachable [m] [1] s := .start (by simp) hs
  have henabled : Enabled [m] [1] s (.pool (.getNewBlocks (0, 7) 2)) := by
    refine ⟨?_, fun m' hm' r hr => ?_⟩
    · rw [PoolRuns.Enabled, hfree]
      decide
    · obtain rfl := List.mem_singleton.mp hm'
      have hgroup := congrArg Prod.fst (Option.some.inj hr)
      cases hgroup
  exact ⟨s, s', hs, hstep, resetPrefixCache_works_iff hreach,
    resetPrefixCache_works_iff (.step hreach henabled hstep)⟩

/-- With a sink block the reset fails before the first request. -/
theorem resetPrefixCache_fails_unused : ¬ ∀ (mambaManagers : List MambaManager) (sinkBlocks : List Nat)
    (s : Managers Nat), Reachable mambaManagers sinkBlocks s → ResetWorks s.kv := by
  intro hall
  obtain ⟨s, hs, hfalse, hempty⟩ : ∃ s : Managers Nat, start 3 true [1] = .ok ([1], s) ∧
      s.kv.resetPrefixCache.1 = false ∧ s.kv.reqToBlocks = .empty := ⟨_, rfl, rfl, rfl⟩
  have hworks := hall [] [1] s (.start List.nodup_nil hs)
  have hnone : ¬ s.kv.HoldsBlocks := by
    rintro ⟨r, b, hb, -⟩
    rw [KVState.blocksOf, hempty] at hb
    cases hb
  have htrue := (hworks.unused hnone).1
  rw [hfalse] at htrue
  cases htrue

end Managers
end Yuan.Core
