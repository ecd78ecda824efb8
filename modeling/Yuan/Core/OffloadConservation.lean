import Yuan.Core.OffloadLedger
import Mathlib.Order.Monotone.Defs

/-!
# The offloading managers conserve blocks

Over every run of either manager, the cached blocks and the backend's free blocks are all blocks, each
once, and a block that is being read or written is neither evicted nor handed out again. For the ARC
manager the four lists are disjoint, the ghost lists fit the capacity and the target size lies within
it.

Where a list to store names a hash twice, one of its blocks is lost. The ARC manager loses the blocks
that are ready when a failed store lists them, and does not trim the ghost lists when it refuses a
store.
-/

namespace Yuan.Core

open OffloadRun

variable {α σ : Type} [DecidableEq α]

/-! ## Conservation -/

namespace Conserves

variable {v v' : OffloadView α}

omit [DecidableEq α] in
theorem counted (h : Conserves v.entries v.backend) (hcounted : v.Counted v') : Conserves v'.entries v'.backend := by
  obtain ⟨hids, hbackend, -⟩ := hcounted
  rw [hbackend]
  exact h.congr hids

section

variable (h : Conserves v.entries v.backend)
include h

omit [DecidableEq α] in
theorem evicted {removed : List (α × CPUBlockStatus)} (hevicted : v.Evicted v' removed) :
    Conserves v'.entries v'.backend := by
  obtain ⟨hperm, -, hbackend, -⟩ := hevicted
  rw [hbackend]
  exact h.freeAll hperm

theorem prepared {hashes : List α} {out : PrepareStoreOutput α} (hprepared : v.Prepared v' hashes out)
    (hnodup : out.blockHashesToStore.Nodup) : Conserves v'.entries v'.backend := by
  obtain ⟨removed, kept, added, blocks, hperm, -, -, hstore, halloc, -, hperm', -, -, hsame, -⟩ :=
    hprepared
  have hnew : ∀ hash ∈ out.blockHashesToStore, hash ∉ kept.map Prod.fst := by
    intro hash hhash hold
    rw [hstore, List.mem_filter, decide_eq_true_eq] at hhash
    obtain ⟨e, he, rfl⟩ := List.mem_map.mp hold
    exact hhash.2 (List.mem_map.mpr ⟨e, hperm.mem_iff.mpr (List.mem_append_right _ he), rfl⟩)
  have hall := (h.freeAll hperm).allocate halloc hnodup hnew
  apply hall.congr
  exact (hperm'.trans ((hsame hnodup).append_left _)).map _

theorem stored {hashes : List α} (hstored : v.Stored v' hashes) : Conserves v'.entries v'.backend := by
  obtain ⟨hentries, hbackend, -⟩ := hstored
  rw [hbackend]
  apply h.congr
  have := hentries.map fun t => (t.1, t.2.1)
  rw [List.map_map, List.map_map] at this
  exact this

end

omit [DecidableEq α] in
theorem failed (h : Conserves v.entries v.backend) {hashes : List α} (hfailed : v.Failed v' hashes) :
    Conserves v'.entries v'.backend := by
  obtain ⟨removed, hperm, -, -, hbackend, -⟩ := hfailed
  rw [hbackend]
  exact h.freeAll hperm

end Conserves

/-! ## Runs of either manager -/

variable {m : OffloadingManager α σ} {view : σ → OffloadView α} {Ok : σ → Prop}
  {MayFail MayRefuse : σ → List α → Prop} {Meets : σ → OffloadOp α → Prop} {numBlocks : Nat} {run : OffloadRun α σ}

/-- Steps that keep the books: no hash that gets a block is named twice, and stores fail only where they
may. -/
structure Orderly (m : OffloadingManager α σ) (view : σ → OffloadView α) (MayFail : σ → List α → Prop)
    (Meets : σ → OffloadOp α → Prop) : Prop where
  nodup : ∀ s hs out s', Meets s (.prepareStore hs) → m.prepareStore s hs = .ok (some out, s') →
    (hs.filter fun h => h ∉ (view s).entries.map Prod.fst).Nodup
  mayFail : ∀ s hs, Meets s (.completeStore hs false) → MayFail s hs

/-- Invariant of orderly runs. -/
structure Accounted (view : σ → OffloadView α) (Ok : σ → Prop) (numBlocks : Nat) (s : σ) : Prop where
  ok : Ok s
  conserves : Conserves (view s).entries (view s).backend
  numBlocks : (view s).backend.numBlocks = numBlocks

theorem Accounted.step (hm : m.Refines view Ok MayFail MayRefuse) (hmeets : Orderly m view MayFail Meets)
    {run' : OffloadRun α σ} (h : Accounted view Ok numBlocks run.manager) {op : OffloadOp α}
    (hop : Meets run.manager op) (hstep : run.step m op = .ok run') : Accounted view Ok numBlocks run'.manager := by
  cases stepped hstep with
  | lookup hs => exact h
  | touch hs =>
    obtain ⟨hok, hkept⟩ := hm.touch run.manager hs h.ok
    exact ⟨hok, h.conserves.counted hkept.counted, hkept.2.1 ▸ h.numBlocks⟩
  | prepareLoad hload =>
    obtain ⟨hok, hcounted, -⟩ := hm.prepareLoad _ _ _ _ h.ok hload
    exact ⟨hok, h.conserves.counted hcounted, hcounted.2.1 ▸ h.numBlocks⟩
  | completeLoad hload =>
    obtain ⟨hok, hkept⟩ := hm.completeLoad _ _ _ h.ok hload
    exact ⟨hok, h.conserves.counted hkept.counted, hkept.2.1 ▸ h.numBlocks⟩
  | @refused _ s hstore =>
    obtain ⟨hok, ⟨removed, hevicted⟩, -⟩ := hm.prepareStore _ _ _ _ h.ok hstore
    refine ⟨hok, h.conserves.evicted hevicted, ?_⟩
    rw [hevicted.2.2.1, CPUBackend.numBlocks_freeAll, h.numBlocks]
  | prepared hstore =>
    obtain ⟨hok, hspec⟩ := hm.prepareStore _ _ _ _ h.ok hstore
    have hnodup := hmeets.nodup _ _ _ _ hop hstore
    rw [← hspec.toStore] at hnodup
    exact ⟨hok, h.conserves.prepared hspec hnodup, hspec.numBlocks.trans h.numBlocks⟩
  | stored hstore =>
    obtain ⟨hok, hstored⟩ := hm.stored _ _ _ h.ok hstore
    exact ⟨hok, h.conserves.stored hstored, hstored.2.1 ▸ h.numBlocks⟩
  | @failed _ s hstore =>
    obtain ⟨hok, hfailed⟩ := hm.failed _ _ _ h.ok (hmeets.mayFail _ _ hop) hstore
    refine ⟨hok, h.conserves.failed hfailed, ?_⟩
    obtain ⟨removed, -, -, -, hbackend, -⟩ := hfailed
    rw [hbackend, CPUBackend.numBlocks_freeAll, h.numBlocks]
  | takeEvents =>
    obtain ⟨hok, hentries, hbackend, -⟩ := hm.takeEvents run.manager h.ok
    refine ⟨hok, ?_, hbackend ▸ h.numBlocks⟩
    rw [hentries, hbackend]
    exact h.conserves

theorem Accounted.reachable (hm : m.Refines view Ok MayFail MayRefuse) (hmeets : Orderly m view MayFail Meets)
    {start : σ} (hstart : Accounted view Ok numBlocks start) (h : Reachable m Meets start run) :
    Accounted view Ok numBlocks run.manager := by
  induction h with
  | start => exact hstart
  | step _ op hop hstep ih => exact ih.step hm hmeets hop hstep

/-- The ids of the live blocks are distinct and within bounds, and live and free blocks are all. -/
structure BlocksConserved (v : OffloadView α) (numBlocks : Nat) : Prop where
  nodup : (v.entries.map (·.2.blockId)).Nodup
  lt : ∀ e ∈ v.entries, e.2.blockId < numBlocks
  total : (v.entries.length : Int) + v.backend.getNumFreeBlocks = numBlocks

/-- A block that is read or written stays with its hash in every step, unless its own store fails; it
is not reported as evicted, and its id is not handed out. -/
def KeepsUsed (m : OffloadingManager α σ) (view : σ → OffloadView α)
    (Meets : σ → OffloadOp α → Prop) (run : OffloadRun α σ) : Prop :=
  ∀ op run', Meets run.manager op → run.step m op = .ok run' →
    ∀ e ∈ (view run.manager).entries, e.2.refCnt ≠ 0 →
      ((∃ e' ∈ (view run'.manager).entries, e'.1 = e.1 ∧ e'.2.blockId = e.2.blockId) ∨
        ∃ hs, op = .completeStore hs false ∧ e.1 ∈ hs ∧ e.2.isReady = false) ∧
      ∀ hs out s, op = .prepareStore hs → m.prepareStore run.manager hs = .ok (some out, s) →
        e.1 ∉ out.blockHashesEvicted ∧ e.2.blockId ∉ out.storeSpec

section

omit [DecidableEq α]

theorem Accounted.blocksConserved {s : σ} (h : Accounted view Ok numBlocks s) : BlocksConserved (view s) numBlocks := by
  rw [← h.numBlocks]
  exact ⟨h.conserves.nodup_ids, fun e he => h.conserves.lt_numBlocks he, h.conserves.length_add_free⟩

theorem exists_of_map {entries entries' : List (α × CPUBlockStatus)}
    (h : (entries'.map fun e => (e.1, e.2.blockId)).Perm (entries.map fun e => (e.1, e.2.blockId)))
    {e : α × CPUBlockStatus} (he : e ∈ entries) : ∃ e' ∈ entries', e'.1 = e.1 ∧ e'.2.blockId = e.2.blockId := by
  have hmem : (e.1, e.2.blockId) ∈ entries'.map fun e => (e.1, e.2.blockId) :=
    h.mem_iff.mpr (List.mem_map.mpr ⟨e, he, rfl⟩)
  obtain ⟨e', he', heq⟩ := List.mem_map.mp hmem
  exact ⟨e', he', (Prod.mk.inj heq).1, (Prod.mk.inj heq).2⟩

end

theorem Accounted.keepsUsed (hm : m.Refines view Ok MayFail MayRefuse) (hmeets : Orderly m view MayFail Meets)
    (h : Accounted view Ok numBlocks run.manager) : KeepsUsed m view Meets run := by
  intro op run' hop hstep e he hused
  constructor
  · cases stepped hstep with
    | lookup hs => exact Or.inl ⟨e, he, rfl, rfl⟩
    | touch hs => exact Or.inl (exists_of_map (hm.touch run.manager hs h.ok).2.counted.1 he)
    | prepareLoad hload => exact Or.inl (exists_of_map (hm.prepareLoad _ _ _ _ h.ok hload).2.1.1 he)
    | completeLoad hload => exact Or.inl (exists_of_map (hm.completeLoad _ _ _ h.ok hload).2.counted.1 he)
    | refused hstore =>
      obtain ⟨-, ⟨removed, hperm, hunused, -⟩, -⟩ := hm.prepareStore _ _ _ _ h.ok hstore
      rcases List.mem_append.mp (hperm.mem_iff.mp he) with hin | hin
      · exact absurd (hunused e hin) hused
      · exact Or.inl ⟨e, hin, rfl, rfl⟩
    | prepared hstore =>
      obtain ⟨-, removed, kept, added, blocks, hperm, hunused, -, -, -, -, hperm', -⟩ :=
        hm.prepareStore _ _ _ _ h.ok hstore
      rcases List.mem_append.mp (hperm.mem_iff.mp he) with hin | hin
      · exact absurd (hunused e hin) hused
      · exact Or.inl ⟨e, hperm'.mem_iff.mpr (List.mem_append_left _ hin), rfl, rfl⟩
    | stored hstore =>
      obtain ⟨hentries, -⟩ := (hm.stored _ _ _ h.ok hstore).2
      have := hentries.map fun t => (t.1, t.2.1)
      rw [List.map_map, List.map_map] at this
      exact Or.inl (exists_of_map this he)
    | @failed hs s hstore =>
      obtain ⟨removed, hperm, hremoved, -⟩ :=
        (hm.failed _ _ _ h.ok (hmeets.mayFail _ _ hop) hstore).2
      rcases List.mem_append.mp (hperm.mem_iff.mp he) with hin | hin
      · exact Or.inr ⟨hs, rfl, hremoved e hin⟩
      · exact Or.inl ⟨e, hin, rfl, rfl⟩
    | takeEvents =>
      obtain ⟨-, hentries, -⟩ := hm.takeEvents run.manager h.ok
      refine Or.inl ⟨e, ?_, rfl, rfl⟩
      rw [hentries]
      exact he
  · rintro hs out s rfl hstore
    have hprepared : (view run.manager).Prepared (view s) hs out :=
      (hm.prepareStore _ _ _ _ h.ok hstore).2
    have hnodup := hmeets.nodup _ _ _ _ hop hstore
    rw [← hprepared.toStore] at hnodup
    have hids := (h.conserves.prepared hprepared hnodup).nodup_ids
    obtain ⟨removed, kept, added, blocks, hperm, hunused, hevicted, -, halloc, hspec, hperm', -, -,
      hsame, -⟩ := hprepared
    have hkeys : ((removed ++ kept).map Prod.fst).Nodup :=
      (hperm.map Prod.fst).nodup_iff.mp h.conserves.nodup
    rw [List.map_append, List.nodup_append] at hkeys
    have hkept : e ∈ kept := by
      rcases List.mem_append.mp (hperm.mem_iff.mp he) with hin | hin
      · exact absurd (hunused e hin) hused
      · exact hin
    refine ⟨?_, ?_⟩
    · rw [hevicted]
      intro hin
      exact hkeys.2.2 e.1 hin e.1 (List.mem_map.mpr ⟨e, hkept, rfl⟩) rfl
    · -- the new ids are those of the new entries, and all ids are distinct
      have hall := hperm'.trans ((hsame hnodup).append_left kept)
      rw [(hall.map (·.2.blockId)).nodup_iff, List.map_append,
        Conserves.map_snd_zip (CPUBackend.allocateBlocks_spec halloc).1, ← hspec,
        List.nodup_append] at hids
      intro hin
      exact hids.2.2 e.2.blockId (List.mem_map.mpr ⟨e, hkept, rfl⟩) e.2.blockId hin rfl

end Yuan.Core
