import Yuan.Core.OffloadLedger

/-!
# What a store may evict

`prepare_store` promises that the given blocks are protected from eviction until the store completes. Both
managers filter out the hashes that are cached already before they choose what to evict, by recency and by
reference count alone, so a given block may be the next to go.

Both choices have a closed form here: so many of the oldest unused blocks, of one list or of two. The
promise is kept exactly where no given hash is among them.
-/

namespace Yuan.Core

variable {α : Type} {out : PrepareStoreOutput α} {blockHashes : List α}

/-! ## Unused blocks -/

/-- The hashes of the blocks that nobody uses, oldest first. -/
def unused (blocks : Dict α CPUBlockStatus) : List α :=
  (blocks.entries.filter fun e => decide (e.2.refCnt = 0)).map Prod.fst

namespace OffloadView

/-- None of the given hashes is evicted, and all of them are cached afterwards. -/
def Protects (v' : OffloadView α) (hashes : List α) (out : PrepareStoreOutput α) : Prop :=
  ∀ h ∈ hashes, h ∉ out.blockHashesEvicted ∧ h ∈ v'.entries.map Prod.fst

variable [DecidableEq α] {v v' : OffloadView α}

/-- What is not evicted stays or is stored. -/
theorem Prepared.protects_iff {hashes : List α} (h : v.Prepared v' hashes out) :
    v'.Protects hashes out ↔ ∀ hash ∈ hashes, hash ∉ out.blockHashesEvicted := by
  obtain ⟨removed, kept, added, blocks, hperm, -, hevicted, hstore, -, -, hperm', hadded, -⟩ := h
  constructor
  · intro hprotects hash hmem
    exact (hprotects hash hmem).1
  · intro hspared hash hmem
    have hnot := hspared hash hmem
    refine ⟨hnot, ?_⟩
    rw [(hperm'.map Prod.fst).mem_iff, List.map_append, List.mem_append]
    by_cases hold : hash ∈ v.entries.map Prod.fst
    · left
      rw [(hperm.map Prod.fst).mem_iff, List.map_append, List.mem_append] at hold
      rw [hevicted] at hnot
      exact hold.resolve_left hnot
    · right
      rw [hadded, hstore]
      exact List.mem_filter.mpr ⟨hmem, by simpa using hold⟩

end OffloadView

/-! ## The LRU manager -/

namespace LRUOffloadingManager

/-- The blocks found are the oldest unused ones. -/
theorem findEvictable_eq {entries : List (α × CPUBlockStatus)} {n : Nat} {found : List α}
    (h : findEvictable entries n = some found) :
    found = ((entries.filter fun e => decide (e.2.refCnt = 0)).map Prod.fst).take n := by
  induction entries generalizing n found with
  | nil =>
    cases n with
    | zero => exact (Option.some.inj h).symm
    | succ n => cases h
  | cons e entries ih =>
    cases n with
    | zero => exact (Option.some.inj h).symm
    | succ n =>
      rw [findEvictable] at h
      split at h
      · next hunused =>
        obtain ⟨rest, hrest, rfl⟩ := Option.map_eq_some_iff.mp h
        rw [List.filter_cons_of_pos (by simpa using hunused), List.map_cons, List.take_succ_cons, ih hrest]
      · next hused =>
        rw [List.filter_cons_of_neg (by simpa using hused)]
        exact ih h

variable [DecidableEq α]

/-- None of the given hashes is among the oldest unused blocks that have to go. -/
def Spares (m : LRUOffloadingManager α) (blockHashes : List α) : Prop :=
  ∀ h ∈ blockHashes, h ∉ (unused m.blocks).take (m.numBlocksToEvict blockHashes)

theorem prepareStore_evicts {m m' : LRUOffloadingManager α} (h : m.prepareStore blockHashes = .ok (some out, m')) :
    out.blockHashesEvicted = (unused m.blocks).take (m.numBlocksToEvict blockHashes) := by
  unfold prepareStore at h
  dsimp only at h
  split at h
  · cases (ok_pair h).1
  · next toEvict hfind =>
    obtain ⟨evicted, -, h⟩ := bind_eq_ok.mp h
    obtain ⟨⟨blocks, backend⟩, -, h⟩ := bind_eq_ok.mp h
    obtain ⟨_, -, h⟩ := bind_eq_ok.mp h
    obtain ⟨hout, -⟩ := ok_pair h
    rw [← Option.some.inj hout]
    exact findEvictable_eq hfind

theorem protects_iff {m m' : LRUOffloadingManager α} (h : m.prepareStore blockHashes = .ok (some out, m')) :
    m'.view.Protects blockHashes out ↔ m.Spares blockHashes := by
  have hprepared : m.view.Prepared m'.view blockHashes out := prepareStore_spec h
  rw [hprepared.protects_iff, prepareStore_evicts h]
  rfl

end LRUOffloadingManager

/-! ## The ARC manager -/

theorem unused_erase [DecidableEq α] {t : Dict α CPUBlockStatus} {blockHash : α} {block : CPUBlockStatus}
    (h : ARCOffloadingManager.oldestUnused t = some (blockHash, block)) :
    unused t = blockHash :: unused (t.erase blockHash) := by
  unfold ARCOffloadingManager.oldestUnused at h
  rw [← List.head?_filter] at h
  have hnodup : ((t.entries.filter fun e => decide (e.2.refCnt = 0)).map Prod.fst).Nodup :=
    (List.filter_sublist.map Prod.fst).nodup t.nodup
  have herase : (t.erase blockHash).entries.filter (fun e => decide (e.2.refCnt = 0)) =
      (t.entries.filter fun e => decide (e.2.refCnt = 0)).filter fun e => decide (e.1 ≠ blockHash) := by
    show (t.entries.filter _).filter _ = _
    rw [List.filter_filter, List.filter_filter]
    apply List.filter_congr
    intro e _
    rw [Bool.and_comm]
  unfold unused
  rw [herase]
  generalize t.entries.filter (fun e => decide (e.2.refCnt = 0)) = l at h hnodup
  cases l with
  | nil => cases h
  | cons e l =>
    cases h
    rw [List.map_cons, List.nodup_cons] at hnodup
    rw [List.filter_cons_of_neg (by simp), List.filter_eq_self.mpr, List.map_cons]
    intro e he
    have hmem : e.1 ∈ l.map Prod.fst := List.mem_map_of_mem he
    have hne : e.1 ≠ blockHash := fun heq => hnodup.1 (heq ▸ hmem)
    simpa using hne

namespace ARCOffloadingManager

variable [DecidableEq α] {m m' : ARCOffloadingManager α}

/-- One eviction takes the oldest unused block of `T1`, or of `T2` if `T1` must keep what it has. -/
theorem evictOne_unused {blockHash : α} (h : m.evictOne = some (blockHash, m')) :
    (0 < m.evictableT1 ∧ unused m.t1 = blockHash :: unused m'.t1 ∧ unused m.t2 = unused m'.t2 ∧
        m.evictableT1 = m'.evictableT1 + 1) ∨
      (m.evictableT1 = 0 ∧ m'.evictableT1 = 0 ∧ unused m.t2 = blockHash :: unused m'.t2) := by
  have hcount := (evictable_evictOne h).2
  unfold evictOne at h
  split at h
  · next heq =>
    obtain ⟨rfl, rfl⟩ := Prod.mk.inj (Option.some.inj h)
    split at heq
    · have hzero : m.evictableT2 ≠ m.evictableT2 + 1 := by omega
      rcases hcount with ⟨hT1, -⟩ | ⟨-, -, hT2⟩
      · exact Or.inl ⟨by omega, unused_erase heq, rfl, hT1⟩
      · exact absurd hT2 hzero
    · cases heq
  · next heq =>
    split at h
    · next hfound =>
      obtain ⟨rfl, rfl⟩ := Prod.mk.inj (Option.some.inj h)
      rcases hcount with ⟨hT1, -⟩ | ⟨hzero, hzero', -⟩
      · have hsame : m.evictableT1 ≠ m.evictableT1 + 1 := by omega
        exact absurd hT1 hsame
      · exact Or.inr ⟨hzero, hzero', unused_erase hfound⟩
    · cases h

/-- The loop empties `T1` as far as it may, and takes the rest from `T2`. -/
theorem evictLoop_eq {n : Nat} {toEvict : List α} (h : evictLoop n m = (toEvict, m', true)) :
    toEvict = (unused m.t1).take (min n m.evictableT1) ++ (unused m.t2).take (n - m.evictableT1) := by
  induction n generalizing m toEvict with
  | zero =>
    cases h
    rw [Nat.zero_min, Nat.zero_sub, List.take_zero, List.take_zero, List.append_nil]
  | succ n ih =>
    rw [evictLoop] at h
    cases hone : m.evictOne with
    | none =>
      rw [hone] at h
      cases (Prod.mk.inj (Prod.mk.inj h).2).2
    | some first =>
      obtain ⟨blockHash, m₁⟩ := first
      rw [hone] at h
      obtain ⟨rfl, hrest⟩ := Prod.mk.inj h
      obtain ⟨rfl, henough⟩ := Prod.mk.inj hrest
      have hloop := ih (Prod.ext rfl (Prod.ext rfl henough))
      rcases evictOne_unused hone with ⟨hpos, hT1, hT2, hcount⟩ | ⟨hzero, hzero', hT2⟩
      · refine (congrArg (blockHash :: ·) hloop).trans ?_
        rw [hT1, hT2, hcount, Nat.add_min_add_right, List.take_succ_cons, List.cons_append,
          Nat.add_sub_add_right]
      · refine (congrArg (blockHash :: ·) hloop).trans ?_
        rw [hT2, hzero, hzero', Nat.min_zero, Nat.min_zero, List.take_zero, List.take_zero,
          List.nil_append, List.nil_append, Nat.sub_zero, Nat.sub_zero, List.take_succ_cons]

/-- There is nothing to store, or none of the given hashes is among the oldest unused blocks that have to
go: those that `T1` may lose, and for the rest those of `T2`. -/
def Spares (m : ARCOffloadingManager α) (blockHashes : List α) : Prop :=
  m.toStore blockHashes = [] ∨ ∀ h ∈ blockHashes,
    h ∉ (unused m.t1).take (min (m.numBlocksToEvict blockHashes) m.evictableT1) ∧
      h ∉ (unused m.t2).take (m.numBlocksToEvict blockHashes - m.evictableT1)

theorem prepareStore_evicts (h : m.prepareStore blockHashes = .ok (some out, m')) :
    out.blockHashesEvicted = if m.toStore blockHashes = [] then [] else
      (unused m.t1).take (min (m.numBlocksToEvict blockHashes) m.evictableT1) ++
        (unused m.t2).take (m.numBlocksToEvict blockHashes - m.evictableT1) := by
  unfold prepareStore at h
  dsimp only at h
  split at h
  · next hnone =>
    obtain ⟨hout, -⟩ := ok_pair h
    rw [← Option.some.inj hout, if_pos hnone]
  · next hsome =>
    rw [if_neg hsome]
    split at h
    · cases (ok_pair h).1
    · next toEvict evicted hloop =>
      obtain ⟨⟨blocks, backend⟩, -, h⟩ := bind_eq_ok.mp h
      obtain ⟨_, -, h⟩ := bind_eq_ok.mp h
      obtain ⟨hout, -⟩ := ok_pair h
      rw [← Option.some.inj hout]
      exact evictLoop_eq hloop

theorem protects_iff (hapart : m.Apart) (h : m.prepareStore blockHashes = .ok (some out, m')) :
    m'.view.Protects blockHashes out ↔ m.Spares blockHashes := by
  have hprepared : m.view.Prepared m'.view blockHashes out := (prepareStore_spec hapart h).2
  rw [hprepared.protects_iff, prepareStore_evicts h, Spares]
  by_cases hnone : m.toStore blockHashes = []
  · rw [if_pos hnone]
    simp [hnone]
  · rw [if_neg hnone]
    simp only [hnone, List.mem_append, not_or, false_or]

end ARCOffloadingManager

/-! ## Both managers -/

open OffloadRun

/-- In every reachable state of either manager, a store that returns an output protects the given hashes
exactly if none of them is among the oldest unused blocks that have to go. -/
theorem prepareStore_protects [DecidableEq α] (backend : CPUBackend) (enableEvents : Bool) (round : ℚ → ℚ) :
    (∀ run : OffloadRun α (LRUOffloadingManager α),
      Reachable LRUOffloadingManager.manager (fun _ _ => True) (LRUOffloadingManager.init backend enableEvents) run →
      ∀ blockHashes out s, run.manager.prepareStore blockHashes = .ok (some out, s) →
        (s.view.Protects blockHashes out ↔ run.manager.Spares blockHashes)) ∧
    (∀ run : OffloadRun α (ARCOffloadingManager α),
      Reachable (ARCOffloadingManager.manager round) (fun _ _ => True)
        (ARCOffloadingManager.init backend enableEvents) run →
      ∀ blockHashes out s, run.manager.prepareStore blockHashes = .ok (some out, s) →
        (s.view.Protects blockHashes out ↔ run.manager.Spares blockHashes)) := by
  constructor
  · intro run _ blockHashes out s hstore
    exact LRUOffloadingManager.protects_iff hstore
  · intro run hrun blockHashes out s hstore
    have hapart := ARCOffloadingManager.apart_of_reachable round
      (ARCOffloadingManager.apart_init backend enableEvents) hrun
    exact ARCOffloadingManager.protects_iff hapart hstore

/-- Blocks 1 and 2 fill a cache of two. A store of 2 and 3 evicts 1 and keeps 2, in either manager. -/
theorem prepareStore_protects_two_blocks :
    (∃ run : OffloadRun Nat (LRUOffloadingManager Nat),
      Reachable LRUOffloadingManager.manager (fun _ _ => True)
        (LRUOffloadingManager.init ⟨16, 2, 0, []⟩ true) run ∧ ∃ out s,
        run.manager.prepareStore [2, 3] = .ok (some out, s) ∧ out.blockHashesEvicted = [1] ∧
          s.view.Protects [2, 3] out) ∧ ∃ run : OffloadRun Nat (ARCOffloadingManager Nat),
      Reachable (ARCOffloadingManager.manager id) (fun _ _ => True) smallARC run ∧ ∃ out s,
        run.manager.prepareStore [2, 3] = .ok (some out, s) ∧ out.blockHashesEvicted = [1] ∧
          s.view.Protects [2, 3] out := by
  have hprotects := prepareStore_protects (α := Nat) ⟨16, 2, 0, []⟩ true id
  constructor
  · have hstart : Reachable LRUOffloadingManager.manager (fun _ _ => True)
        (LRUOffloadingManager.init ⟨16, 2, 0, []⟩ true : LRUOffloadingManager Nat) _ := .start
    have hprepared := hstart.step (.prepareStore [1, 2]) trivial rfl
    have hstored := hprepared.step (.completeStore [1, 2] true) trivial rfl
    have hspares := hprotects.1 _ hstored [2, 3] _ _ rfl
    exact ⟨_, hstored, _, _, rfl, rfl, hspares.mpr (show ∀ h ∈ [2, 3], h ∉ _ from by decide)⟩
  · have hstart : Reachable (ARCOffloadingManager.manager id) (fun _ _ => True) smallARC
        { manager := smallARC } := .start
    have hprepared := hstart.step (.prepareStore [1, 2]) trivial rfl
    have hstored := hprepared.step (.completeStore [1, 2] true) trivial rfl
    exact ⟨_, hstored, _, _, rfl, rfl, (hprotects.2 _ hstored [2, 3] _ _ rfl).mpr (Or.inr (by decide))⟩

/-- Blocks 1 and 2 fill a cache of two. A store of 1 and 3 evicts 1, in either manager. -/
theorem prepareStore_protects_not_always :
    ¬ ((∀ run : OffloadRun Nat (LRUOffloadingManager Nat),
      Reachable LRUOffloadingManager.manager (fun _ _ => True) (LRUOffloadingManager.init ⟨16, 2, 0, []⟩ true) run →
      ∀ blockHashes out s, run.manager.prepareStore blockHashes = .ok (some out, s) → s.view.Protects blockHashes out) ∨
    (∀ run : OffloadRun Nat (ARCOffloadingManager Nat),
      Reachable (ARCOffloadingManager.manager id) (fun _ _ => True) smallARC run →
      ∀ blockHashes out s, run.manager.prepareStore blockHashes = .ok (some out, s) →
        s.view.Protects blockHashes out)) := by
  rintro (hall | hall)
  · have hstart : Reachable LRUOffloadingManager.manager (fun _ _ => True)
        (LRUOffloadingManager.init ⟨16, 2, 0, []⟩ true : LRUOffloadingManager Nat) _ := .start
    have hprepared := hstart.step (.prepareStore [1, 2]) trivial rfl
    have hstored := hprepared.step (.completeStore [1, 2] true) trivial rfl
    have hkept := (hall _ hstored [1, 3] _ _ rfl 1 List.mem_cons_self).1
    revert hkept
    decide
  · have hstart : Reachable (ARCOffloadingManager.manager id) (fun _ _ => True) smallARC
        { manager := smallARC } := .start
    have hprepared := hstart.step (.prepareStore [1, 2]) trivial rfl
    have hstored := hprepared.step (.completeStore [1, 2] true) trivial rfl
    have hkept := (hall _ hstored [1, 3] _ _ rfl 1 List.mem_cons_self).1
    revert hkept
    decide

end Yuan.Core
