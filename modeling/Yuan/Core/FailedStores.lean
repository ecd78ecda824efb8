import Yuan.Core.StoreProtection

/-!
# What a failed store removes

When a store has failed, the listed blocks that are not ready yet are to go, and nothing else. The LRU
manager tests a block before it drops it, and raises where it finds none. The ARC manager drops a block
before it tests it, so a ready block that is listed is lost, and its backend block with it.
-/

namespace Yuan.Core

open OffloadRun

variable {α : Type} [DecidableEq α]

namespace OffloadView

/-- Listed, and not ready. -/
def Unstored (hashes : List α) (e : α × CPUBlockStatus) : Bool := e.1 ∈ hashes && !e.2.isReady

/-- Exactly the listed blocks that are not ready are gone, and their backend blocks are free. All other
blocks are as before. -/
structure RemovesUnstored (v v' : OffloadView α) (hashes : List α) : Prop where
  entries : v'.entries.Perm (v.entries.filter fun e => !Unstored hashes e)
  free : v'.backend.allocatedBlocksFreeList.Perm (v.backend.allocatedBlocksFreeList ++
    (v.entries.filter (Unstored hashes)).map (·.2.blockId))
  backend : v'.backend =
    { v.backend with allocatedBlocksFreeList := v'.backend.allocatedBlocksFreeList }
  events : v'.events = v.events

omit [DecidableEq α] in
theorem freeAll_eq (backend : CPUBackend) (removed : List (α × CPUBlockStatus)) :
    backend.freeAll removed = { backend with
      allocatedBlocksFreeList := backend.allocatedBlocksFreeList ++ removed.map (·.2.blockId) } := by
  induction removed generalizing backend with
  | nil => rw [CPUBackend.freeAll_nil, List.map_nil, List.append_nil]
  | cons e removed ih =>
    rw [CPUBackend.freeAll_cons, ih]
    unfold CPUBackend.free
    rw [List.append_assoc]
    rfl

variable {v v' : OffloadView α}

theorem Failed.removesUnstored {hashes : List α} (h : v.Failed v' hashes) : v.RemovesUnstored v' hashes := by
  obtain ⟨removed, hperm, hremoved, hkept, hbackend, hevents⟩ := h
  have hgone : ∀ e ∈ removed, Unstored hashes e = true := by
    intro e he
    obtain ⟨hlisted, hunready⟩ := hremoved e he
    simp [Unstored, hlisted, hunready]
  have hleft : ∀ e ∈ v'.entries, Unstored hashes e = false := by
    intro e he
    by_cases hlisted : e.1 ∈ hashes
    · simp [Unstored, hkept e he hlisted]
    · simp [Unstored, hlisted]
  have hunstored : removed.filter (Unstored hashes) = removed ∧
      v'.entries.filter (Unstored hashes) = [] :=
    ⟨List.filter_eq_self.mpr hgone, List.filter_eq_nil_iff.mpr fun e he => by simp [hleft e he]⟩
  have hstored : removed.filter (fun e => !Unstored hashes e) = [] ∧
      v'.entries.filter (fun e => !Unstored hashes e) = v'.entries :=
    ⟨List.filter_eq_nil_iff.mpr fun e he => by simp [hgone e he],
      List.filter_eq_self.mpr fun e he => by simp [hleft e he]⟩
  rw [freeAll_eq] at hbackend
  refine ⟨?_, ?_, by rw [hbackend], hevents⟩
  · have hfilter := hperm.filter fun e => !Unstored hashes e
    rw [List.filter_append, hstored.1, hstored.2] at hfilter
    exact hfilter.symm
  · have hfilter := hperm.filter (Unstored hashes)
    rw [List.filter_append, hunstored.1, hunstored.2, List.append_nil] at hfilter
    rw [hbackend]
    exact (hfilter.symm.map _).append_left _

end OffloadView

/-- A failed store removes exactly what was not stored. -/
def FailsCleanly {σ : Type} (m : OffloadingManager α σ) (view : σ → OffloadView α) (s : σ)
    (hashes : List α) : Prop :=
  ∃ s', m.completeStore s hashes false = .ok s' ∧ (view s).RemovesUnstored (view s') hashes

namespace LRUOffloadingManager

/-- All listed hashes are cached, and none that is not ready is listed twice. -/
structure MayFail (m : LRUOffloadingManager α) (hashes : List α) : Prop where
  cached : ∀ h ∈ hashes, h ∈ m.blocks.keys
  once : ∀ h block, (h, block) ∈ m.blocks.entries → block.isReady = false → hashes.count h ≤ 1

variable {m : LRUOffloadingManager α}

theorem mayFail_cons_ready {h : α} {block : CPUBlockStatus} (hget : m.blocks.get? h = some block)
    (hready : block.isReady = true) (rest : List α) : m.MayFail (h :: rest) ↔ m.MayFail rest := by
  have hmem := Dict.get?_eq_some.mp hget
  have hcount : ∀ h' block', (h', block') ∈ m.blocks.entries → block'.isReady = false →
      (h :: rest).count h' = rest.count h' := by
    intro h' block' hmem' hunready
    have hne : h ≠ h' := by
      rintro rfl
      rw [Dict.value_unique hmem' hmem, hready] at hunready
      cases hunready
    exact List.count_cons_of_ne hne
  constructor
  · intro hfail
    refine ⟨fun h' hh' => hfail.cached h' (List.mem_cons_of_mem _ hh'), fun h' block' hmem' hunready => ?_⟩
    rw [← hcount h' block' hmem' hunready]
    exact hfail.once h' block' hmem' hunready
  · intro hfail
    refine ⟨fun h' hh' => ?_, fun h' block' hmem' hunready => ?_⟩
    · rcases List.mem_cons.mp hh' with rfl | hh'
      · exact Dict.mem_keys_of_mem hmem
      · exact hfail.cached h' hh'
    · rw [hcount h' block' hmem' hunready]
      exact hfail.once h' block' hmem' hunready

theorem mayFail_cons_unready {h : α} {block : CPUBlockStatus} (hget : m.blocks.get? h = some block)
    (hunready : block.isReady = false) (rest : List α) :
    m.MayFail (h :: rest) ↔ (m.freeBlock h block).MayFail rest := by
  have hmem := Dict.get?_eq_some.mp hget
  constructor
  · intro hfail
    have hnot : h ∉ rest := by
      have hone := hfail.once h block hmem hunready
      rw [List.count_cons_self] at hone
      rw [← List.count_eq_zero]
      omega
    refine ⟨fun h' hh' => ?_, fun h' block' hmem' hunready' => ?_⟩
    · exact Dict.mem_keys_erase.mpr ⟨fun heq => hnot (heq ▸ hh'),
        hfail.cached h' (List.mem_cons_of_mem _ hh')⟩
    · obtain ⟨hne, hold⟩ := Dict.mem_erase.mp hmem'
      rw [← List.count_cons_of_ne (Ne.symm hne)]
      exact hfail.once h' block' hold hunready'
  · intro hfail
    have hnot : h ∉ rest := fun hh => (Dict.mem_keys_erase.mp (hfail.cached h hh)).1 rfl
    refine ⟨fun h' hh' => ?_, fun h' block' hmem' hunready' => ?_⟩
    · rcases List.mem_cons.mp hh' with rfl | hh'
      · exact Dict.mem_keys_of_mem hmem
      · exact (Dict.mem_keys_erase.mp (hfail.cached h' hh')).2
    · by_cases heq : h' = h
      · subst heq
        rw [List.count_cons_self, List.count_eq_zero.mpr hnot]
      · rw [List.count_cons_of_ne (Ne.symm heq)]
        exact hfail.once h' block' (Dict.mem_erase.mpr ⟨heq, hmem'⟩) hunready'

/-- Without an error exactly if all listed hashes are found. -/
theorem dropUnready_returns (hashes : List α) : (∃ m', m.dropUnready hashes = .ok m') ↔ m.MayFail hashes := by
  induction hashes generalizing m with
  | nil => exact ⟨fun _ => ⟨by simp, by simp⟩, fun _ => ⟨m, rfl⟩⟩
  | cons h rest ih =>
    rw [dropUnready]
    cases hget : m.blocks.get? h with
    | none =>
      constructor
      · rintro ⟨m', hrun⟩
        obtain ⟨block, hblock, -⟩ := bind_eq_ok.mp hrun
        rw [block_eq_ok, hget] at hblock
        cases hblock
      · intro hfail
        exact absurd (hfail.cached h List.mem_cons_self) (Dict.get?_eq_none.mp hget)
    | some block =>
      rw [block_eq_ok.mpr hget, ok_bind]
      cases hready : block.isReady with
      | true =>
        rw [if_pos rfl, mayFail_cons_ready hget hready]
        exact ih
      | false =>
        rw [if_neg Bool.false_ne_true, mayFail_cons_unready hget hready]
        exact ih

theorem failsCleanly_iff (hashes : List α) : FailsCleanly manager view m hashes ↔ m.MayFail hashes := by
  rw [← dropUnready_returns]
  constructor
  · rintro ⟨m', hrun, -⟩
    exact ⟨m', hrun⟩
  · rintro ⟨m', hrun⟩
    exact ⟨m', hrun, (dropUnready_spec hrun).removesUnstored⟩

end LRUOffloadingManager

namespace ARCOffloadingManager

variable {m : ARCOffloadingManager α}

/-- Whatever is listed is gone, ready or not. -/
theorem dropBlocks_gone (h : m.Apart) (hashes : List α) :
    ∀ e ∈ (m.dropBlocks hashes).view.entries, e ∈ m.view.entries ∧ e.1 ∉ hashes := by
  induction hashes generalizing m with
  | nil => exact fun e he => ⟨he, List.not_mem_nil⟩
  | cons blockHash rest ih =>
    rw [dropBlocks]
    cases hget : m.get? blockHash with
    | none =>
      intro e he
      obtain ⟨hold, hnot⟩ := ih h e he
      refine ⟨hold, fun hlisted => ?_⟩
      rcases List.mem_cons.mp hlisted with heq | hlisted
      · obtain ⟨hash, block⟩ := e
        obtain rfl : hash = blockHash := heq
        rw [h.get?_eq_some.mpr hold] at hget
        cases hget
      · exact hnot hlisted
    | some block =>
      have hpop := perm_popBlock hget
      have hkeys := (hpop.map Prod.fst).nodup_iff.mp h.nodup
      rw [List.map_cons, List.nodup_cons] at hkeys
      have hdropped : ∀ m' : ARCOffloadingManager α, m'.Apart →
          m'.view.entries = (m.popBlock blockHash).view.entries →
          ∀ e ∈ (m'.dropBlocks rest).view.entries, e ∈ m.view.entries ∧ e.1 ∉ blockHash :: rest := by
        intro m' hapart hsame e he
        obtain ⟨hold, hnot⟩ := ih hapart e he
        rw [hsame] at hold
        have hkey : e.1 ∈ (m.popBlock blockHash).view.entries.map Prod.fst := List.mem_map_of_mem hold
        refine ⟨hpop.mem_iff.mpr (List.mem_cons_of_mem _ hold), fun hlisted => ?_⟩
        rcases List.mem_cons.mp hlisted with heq | hlisted
        · exact hkeys.1 (heq ▸ hkey)
        · exact hnot hlisted
      dsimp only
      split
      · exact hdropped _ (apart_popBlock h blockHash) rfl
      · exact hdropped _ ((apart_popBlock h blockHash).mono (fun _ => id) (fun _ => id) (fun _ => id)
          fun _ => id) rfl

theorem failsCleanly_iff (round : ℚ → ℚ) (h : m.Apart) (hashes : List α) :
    FailsCleanly (manager round) view m hashes ↔ m.MayFail hashes := by
  constructor
  · rintro ⟨m', hrun, hremoves⟩ hash hlisted block hget
    cases hrun
    cases hready : block.isReady with
    | false => rfl
    | true =>
      -- it would have to be there still
      have hkept : (hash, block) ∈ (m.dropBlocks hashes).view.entries := by
        rw [hremoves.entries.mem_iff]
        exact List.mem_filter.mpr ⟨h.get?_eq_some.mp hget, by simp [OffloadView.Unstored, hready]⟩
      exact absurd hlisted (dropBlocks_gone h hashes _ hkept).2
  · intro hfail
    exact ⟨m.dropBlocks hashes, rfl, (dropBlocks_spec h hfail).2.removesUnstored⟩

end ARCOffloadingManager

/-- In every reachable state a failed store removes exactly what was not stored: in the LRU manager if the
listed hashes are cached, and those not ready listed once; in the ARC manager if no block that is listed is
ready. -/
theorem completeStore_fails_cleanly (backend : CPUBackend) (enableEvents : Bool) (round : ℚ → ℚ) :
    (∀ run : OffloadRun α (LRUOffloadingManager α),
      Reachable LRUOffloadingManager.manager (fun _ _ => True) (LRUOffloadingManager.init backend enableEvents) run →
      ∀ hashes, FailsCleanly LRUOffloadingManager.manager LRUOffloadingManager.view run.manager hashes ↔
        run.manager.MayFail hashes) ∧ (∀ run : OffloadRun α (ARCOffloadingManager α),
      Reachable (ARCOffloadingManager.manager round) (fun _ _ => True)
        (ARCOffloadingManager.init backend enableEvents) run →
      ∀ hashes, FailsCleanly (ARCOffloadingManager.manager round) ARCOffloadingManager.view run.manager
        hashes ↔ run.manager.MayFail hashes) := by
  constructor
  · intro run _ hashes
    exact LRUOffloadingManager.failsCleanly_iff hashes
  · intro run hrun hashes
    have hapart := ARCOffloadingManager.apart_of_reachable round
      (ARCOffloadingManager.apart_init backend enableEvents) hrun
    exact ARCOffloadingManager.failsCleanly_iff round hapart hashes

/-- Block 1 is stored, and the store of block 2 fails, in the LRU manager with 1 listed, too. -/
theorem completeStore_fails_cleanly_two_blocks :
    (∃ run : OffloadRun Nat (LRUOffloadingManager Nat),
      Reachable LRUOffloadingManager.manager (fun _ _ => True) (LRUOffloadingManager.init ⟨16, 2, 0, []⟩ true) run ∧
      FailsCleanly LRUOffloadingManager.manager LRUOffloadingManager.view run.manager [1, 2]) ∧
    ∃ run : OffloadRun Nat (ARCOffloadingManager Nat),
      Reachable (ARCOffloadingManager.manager id) (fun _ _ => True) smallARC run ∧
      FailsCleanly (ARCOffloadingManager.manager id) ARCOffloadingManager.view run.manager [2] := by
  constructor
  · have hstart : Reachable LRUOffloadingManager.manager (fun _ _ => True)
        (LRUOffloadingManager.init ⟨16, 2, 0, []⟩ true : LRUOffloadingManager Nat) _ := .start
    have hfirst := hstart.step (.prepareStore [1]) trivial rfl
    have hstored := hfirst.step (.completeStore [1] true) trivial rfl
    have hsecond := hstored.step (.prepareStore [2]) trivial rfl
    have h := (completeStore_fails_cleanly ⟨16, 2, 0, []⟩ true id).1 _ hsecond [1, 2]
    refine ⟨_, hsecond, h.mpr ⟨by decide, ?_⟩⟩
    intro hash block _ _
    exact List.nodup_iff_count_le_one.mp (by decide) hash
  · have hstart : Reachable (ARCOffloadingManager.manager id) (fun _ _ => True) smallARC
        { manager := smallARC } := .start
    have hfirst := hstart.step (.prepareStore [1]) trivial rfl
    have hstored := hfirst.step (.completeStore [1] true) trivial rfl
    have hsecond := hstored.step (.prepareStore [2]) trivial rfl
    have h := (completeStore_fails_cleanly ⟨16, 2, 0, []⟩ true id).2 _ hsecond [2]
    refine ⟨_, hsecond, h.mpr ?_⟩
    intro hash hlisted block hget
    obtain rfl := List.mem_singleton.mp hlisted
    rw [← Option.some.inj hget]
    rfl

/-- Block 1 is stored, and a failed store lists it: the ARC manager drops it. -/
theorem completeStore_fails_cleanly_not_always :
    ¬ ∀ run : OffloadRun Nat (ARCOffloadingManager Nat),
      Reachable (ARCOffloadingManager.manager id) (fun _ _ => True) smallARC run →
      ∀ hashes, FailsCleanly (ARCOffloadingManager.manager id) ARCOffloadingManager.view run.manager hashes := by
  intro hall
  have hstart : Reachable (ARCOffloadingManager.manager id) (fun _ _ => True) smallARC
      { manager := smallARC } := .start
  have hprepared := hstart.step (.prepareStore [1]) trivial rfl
  have hstored := hprepared.step (.completeStore [1] true) trivial rfl
  obtain ⟨s', hrun, hremoves⟩ := hall _ hstored [1]
  cases hrun
  have hlen := hremoves.entries.length_eq
  revert hlen
  decide

end Yuan.Core
