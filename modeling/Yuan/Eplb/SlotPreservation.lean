import Yuan.Eplb.DefaultEplbPolicy

/-!
# Preserving slots

The new slots of a GPU are permuted. An expert that the GPU already had is put in one of its old slots.
-/

namespace Yuan.Eplb

variable {m : Mapping} {slotsPerGpu start : Nat} {old : Nat → Int} {before source : Nat → Nat} {s : Slots}

/-- The slot of each entry of the two arrays, in the new mapping. -/
structure Slots.From (m : Mapping) (s : Slots) (source : Nat → Nat) : Prop where
  phy2log : s.postPhy2log = fun i => m.phy2log (source i)
  replicaIdx : s.postPhyReplicasIdx = fun i => m.replicaIdx (source i)

/-- The first pass after `t` slots. -/
structure Matched (m : Mapping) (slotsPerGpu start : Nat) (old : Nat → Int) (before : Nat → Nat) (t : Nat)
    (source : Nat → Nat) (s : Slots) : Prop where
  arrays : s.From m source
  outside : ∀ i, (∀ slot, slot < t → i ≠ start + slot) → source i = before i
  preserved_lt : ∀ slot, s.preservedPositions slot = true → slot < t
  matched : ∀ slot, s.preservedPositions slot = true → ∃ j, j < slotsPerGpu ∧ source (start + slot) = start + j ∧
    s.usedNewIndices j = true ∧ (m.phy2log (start + j) : Int) = old (start + slot)
  used : ∀ j, s.usedNewIndices j = true → ∃ slot, s.preservedPositions slot = true ∧ source (start + slot) = start + j
  unique : ∀ slot slot', s.preservedPositions slot = true → s.preservedPositions slot' = true →
    source (start + slot) = source (start + slot') → slot = slot'
  missed : ∀ slot, slot < t → ¬ s.preservedPositions slot = true → ∀ j, j < slotsPerGpu →
    (m.phy2log (start + j) : Int) = old (start + slot) → s.usedNewIndices j = true

theorem Matched.preserve {t : Nat} (h : Matched m slotsPerGpu start old before t source s) :
    ∃ source', Matched m slotsPerGpu start old before (t + 1) source' (s.preserve m slotsPerGpu start old t) := by
  have hnew : ¬ s.preservedPositions t = true := fun ht => Nat.lt_irrefl t (h.preserved_lt t ht)
  have hne : ∀ slot, s.preservedPositions slot = true → start + slot ≠ start + t := fun slot hslot heq =>
    Nat.ne_of_lt (h.preserved_lt slot hslot) (Nat.add_left_cancel heq)
  unfold Slots.preserve
  cases hfind : (List.range slotsPerGpu).find? (isMatch m start old s.usedNewIndices t) with
  | none =>
    refine ⟨source, h.arrays, fun i hi => h.outside i fun slot hslot => hi slot (Nat.lt_succ_of_lt hslot),
      fun slot hslot => Nat.lt_succ_of_lt (h.preserved_lt slot hslot), h.matched, h.used, h.unique, ?_⟩
    intro slot hslot hfree j hj heq
    rcases Nat.lt_succ_iff_lt_or_eq.mp hslot with hlt | rfl
    · exact h.missed slot hlt hfree j hj heq
    · have hno := List.find?_eq_none.mp hfind j (List.mem_range.mpr hj)
      unfold isMatch at hno
      simpa [heq] using hno
  | some j =>
    have hj := List.mem_range.mp (List.mem_of_find?_eq_some hfind)
    have hmatch := List.find?_some hfind
    unfold isMatch at hmatch
    rw [Bool.and_eq_true, decide_eq_true_iff, Bool.not_eq_true'] at hmatch
    obtain ⟨heq, hunused⟩ := hmatch
    have hkeep : ∀ j', s.usedNewIndices j' = true → Function.update s.usedNewIndices j true j' = true := by
      intro j' hj'
      rw [Function.update_apply]
      split <;> trivial
    refine ⟨Function.update source (start + t) (start + j), ?_⟩
    constructor
    case arrays =>
      constructor
      · rw [h.arrays.phy2log]
        exact (Function.comp_update m.phy2log source (start + t) (start + j)).symm
      · rw [h.arrays.replicaIdx]
        exact (Function.comp_update m.replicaIdx source (start + t) (start + j)).symm
    case outside =>
      intro i hi
      rw [Function.update_of_ne (hi t (Nat.lt_succ_self t))]
      exact h.outside i fun slot hslot => hi slot (Nat.lt_succ_of_lt hslot)
    case preserved_lt =>
      intro slot hslot
      dsimp only at hslot
      by_cases hslott : slot = t
      · rw [hslott]
        exact Nat.lt_succ_self t
      · rw [Function.update_of_ne hslott] at hslot
        exact Nat.lt_succ_of_lt (h.preserved_lt slot hslot)
    case matched =>
      intro slot hslot
      dsimp only at hslot ⊢
      by_cases hslott : slot = t
      · rw [hslott]
        exact ⟨j, hj, Function.update_self _ _ _, Function.update_self _ _ _, heq⟩
      · rw [Function.update_of_ne hslott] at hslot
        obtain ⟨j', hj', hsource, hused, heq'⟩ := h.matched slot hslot
        rw [Function.update_of_ne (hne slot hslot)]
        exact ⟨j', hj', hsource, hkeep j' hused, heq'⟩
    case used =>
      intro j' hj'
      dsimp only at hj' ⊢
      by_cases hjj : j' = j
      · rw [hjj]
        exact ⟨t, Function.update_self _ _ _, Function.update_self _ _ _⟩
      · rw [Function.update_of_ne hjj] at hj'
        obtain ⟨slot, hslot, hsource⟩ := h.used j' hj'
        refine ⟨slot, ?_, ?_⟩
        · rw [Function.update_of_ne fun hst : slot = t => hnew (hst ▸ hslot)]
          exact hslot
        · rw [Function.update_of_ne (hne slot hslot)]
          exact hsource
    case unique =>
      -- the new index was not used, so that no older slot has it
      have hfresh : ∀ slot, s.preservedPositions slot = true → source (start + slot) ≠ start + j := by
        intro slot hslot hsource
        obtain ⟨j', -, hsource', hused, -⟩ := h.matched slot hslot
        rw [Nat.add_left_cancel (hsource'.symm.trans hsource), hunused] at hused
        cases hused
      intro slot slot' hslot hslot' hsource
      dsimp only at hslot hslot'
      by_cases hslott : slot = t
      · by_cases hslott' : slot' = t
        · rw [hslott, hslott']
        · rw [Function.update_of_ne hslott'] at hslot'
          rw [hslott, Function.update_self, Function.update_of_ne (hne slot' hslot')] at hsource
          exact absurd hsource.symm (hfresh slot' hslot')
      · rw [Function.update_of_ne hslott] at hslot
        rw [Function.update_of_ne (hne slot hslot)] at hsource
        by_cases hslott' : slot' = t
        · rw [hslott', Function.update_self] at hsource
          exact absurd hsource (hfresh slot hslot)
        · rw [Function.update_of_ne hslott'] at hslot'
          rw [Function.update_of_ne (hne slot' hslot')] at hsource
          exact h.unique slot slot' hslot hslot' hsource
    case missed =>
      intro slot hslot hfree j' hj' heq'
      dsimp only at hfree ⊢
      rcases Nat.lt_succ_iff_lt_or_eq.mp hslot with hlt | rfl
      · rw [Function.update_of_ne (Nat.ne_of_lt hlt)] at hfree
        exact hkeep j' (h.missed slot hlt hfree j' hj' heq')
      · exact absurd (Function.update_self _ _ _) hfree

/-- The first pass as a whole. -/
theorem matched_first_pass (slotsPerGpu start : Nat) (old : Nat → Int) (h : s.From m before) (t : Nat) :
    ∃ source, Matched m slotsPerGpu start old before t source
      ((List.range t).foldl (Slots.preserve m slotsPerGpu start old)
        { s with
          usedNewIndices := fun _ => false
          preservedPositions := fun _ => false }) := by
  induction t with
  | zero =>
    refine ⟨before, ⟨h.phy2log, h.replicaIdx⟩, fun _ _ => rfl, fun _ hslot => (by cases hslot),
      fun _ hslot => (by cases hslot), fun _ hj => (by cases hj), fun _ _ hslot => (by cases hslot),
      fun slot hslot => absurd hslot (Nat.not_lt_zero slot)⟩
  | succ t ih =>
    obtain ⟨source, hmatched⟩ := ih
    rw [List.range_succ, List.foldl_append]
    exact hmatched.preserve

/-- The slots of one GPU after both passes. -/
structure BlockKept (m : Mapping) (slotsPerGpu start : Nat) (old : Nat → Int) (source : Nat → Nat) : Prop where
  permutes : ∃ perm, Permutes slotsPerGpu perm ∧ ∀ slot, slot < slotsPerGpu → source (start + slot) = start + perm slot
  kept : ∀ slot j, slot < slotsPerGpu → j < slotsPerGpu → (m.phy2log (start + j) : Int) = old (start + slot) →
    ∃ slot', slot' < slotsPerGpu ∧ old (start + slot') = old (start + slot) ∧
      (m.phy2log (source (start + slot')) : Int) = old (start + slot)

/-- As many new experts are left as slots. -/
theorem Matched.counts (h : Matched m slotsPerGpu start old before slotsPerGpu source s) :
    maskCount s.preservedPositions slotsPerGpu = maskCount s.usedNewIndices slotsPerGpu := by
  refine maskCount_eq (fun slot => source (start + slot) - start) (fun slot _ hslot => ?_)
    (fun slot slot' _ _ hslot hslot' heq => ?_) (fun j _ hj => ?_)
  · obtain ⟨j, hj, hsource, hused, -⟩ := h.matched slot hslot
    rw [hsource, Nat.add_sub_cancel_left]
    exact ⟨hj, hused⟩
  · obtain ⟨j, -, hsource, -, -⟩ := h.matched slot hslot
    obtain ⟨j', -, hsource', -, -⟩ := h.matched slot' hslot'
    apply h.unique slot slot' hslot hslot'
    rw [hsource, hsource', Nat.add_sub_cancel_left, Nat.add_sub_cancel_left] at heq
    rw [hsource, hsource', heq]
  · obtain ⟨slot, hslot, hsource⟩ := h.used j hj
    exact ⟨slot, h.preserved_lt slot hslot, hslot, by rw [hsource, Nat.add_sub_cancel_left]⟩

theorem Matched.fill (np : ArgSort) (h : Matched m slotsPerGpu start old before slotsPerGpu source s) :
    ∃ source', (s.fill np m slotsPerGpu start).From m source' ∧
      (∀ i, (∀ slot, slot < slotsPerGpu → i ≠ start + slot) → source' i = before i) ∧
      BlockKept m slotsPerGpu start old source' := by
  have hcount : maskCount (fun j => !s.usedNewIndices j) slotsPerGpu =
      maskCount (fun j => !s.preservedPositions j) slotsPerGpu := by
    rw [maskCount_not, maskCount_not, h.counts]
  unfold Slots.fill
  dsimp only
  rw [hcount, Nat.min_self]
  have hsrcPerm := np.permutes (maskPriority (fun j => !s.usedNewIndices j) slotsPerGpu) slotsPerGpu
  have hdstPerm := np.permutes (maskPriority (fun j => !s.preservedPositions j) slotsPerGpu) slotsPerGpu
  have hk := maskCount_le (fun j => !s.preservedPositions j) slotsPerGpu
  have hsrc : ∀ i, i < maskCount (fun j => !s.preservedPositions j) slotsPerGpu →
      s.usedNewIndices
        (np.argsort (maskPriority (fun j => !s.usedNewIndices j) slotsPerGpu) slotsPerGpu i) = false := by
    intro i hi
    rw [← hcount] at hi
    exact Bool.not_eq_true' _ ▸ np.mask_of_lt hi
  have hdst : ∀ i, i < maskCount (fun j => !s.preservedPositions j) slotsPerGpu →
      s.preservedPositions
        (np.argsort (maskPriority (fun j => !s.preservedPositions j) slotsPerGpu) slotsPerGpu i) = false := by
    intro i hi
    exact Bool.not_eq_true' _ ▸ np.mask_of_lt hi
  have hexists : ∀ slot, slot < slotsPerGpu → s.preservedPositions slot = false →
      ∃ i, i < maskCount (fun j => !s.preservedPositions j) slotsPerGpu ∧
        np.argsort (maskPriority (fun j => !s.preservedPositions j) slotsPerGpu) slotsPerGpu i = slot := by
    intro slot hslot hfree
    exact np.exists_of_mask hslot (by rw [hfree]; rfl)
  generalize np.argsort (maskPriority (fun j => !s.usedNewIndices j) slotsPerGpu) slotsPerGpu = srcPos at *
  generalize np.argsort (maskPriority (fun j => !s.preservedPositions j) slotsPerGpu) slotsPerGpu = dstPos at *
  generalize maskCount (fun j => !s.preservedPositions j) slotsPerGpu = k at *
  have hdstInj : ∀ i j, i < k → j < k → start + dstPos i = start + dstPos j → i = j := fun i j hi hj heq =>
    hdstPerm.inj i j (Nat.lt_of_lt_of_le hi hk) (Nat.lt_of_lt_of_le hj hk) (Nat.add_left_cancel heq)
  -- a preserved slot keeps its source, every other slot gets one that is left
  have hpreserved : ∀ slot, s.preservedPositions slot = true →
      scatter k (fun i => start + dstPos i) (fun i => start + srcPos i) source (start + slot) =
        source (start + slot) := by
    intro slot hslot
    apply scatter_of_ne
    intro i hi heq
    have hfree := hdst i hi
    rw [Nat.add_left_cancel heq, hslot] at hfree
    cases hfree
  have hfilled : ∀ slot, slot < slotsPerGpu → s.preservedPositions slot = false → ∃ i, i < k ∧ dstPos i = slot ∧
      scatter k (fun i => start + dstPos i) (fun i => start + srcPos i) source (start + slot) = start + srcPos i := by
    intro slot hslot hfree
    obtain ⟨i, hi, rfl⟩ := hexists slot hslot hfree
    exact ⟨i, hi, rfl, scatter_of_inj (fun i => start + dstPos i) hdstInj hi⟩
  refine ⟨scatter k (fun i => start + dstPos i) (fun i => start + srcPos i) source, ⟨?_, ?_⟩, fun i hi => ?_, ?_, ?_⟩
  · rw [← scatter_comp, h.arrays.phy2log]
  · rw [← scatter_comp, h.arrays.replicaIdx]
  · rw [scatter_of_ne fun n hn heq => hi (dstPos n) (hdstPerm.lt n (Nat.lt_of_lt_of_le hn hk)) heq.symm]
    exact h.outside i hi
  case refine_4 =>
    generalize scatter k (fun i => start + dstPos i) (fun i => start + srcPos i) source = source' at hpreserved hfilled
    have hlocal : ∀ slot, slot < slotsPerGpu → ∃ j, j < slotsPerGpu ∧ source' (start + slot) = start + j ∧
        s.usedNewIndices j = s.preservedPositions slot := by
      intro slot hslot
      cases hstate : s.preservedPositions slot with
      | true =>
        obtain ⟨j, hj, hsource, hused, -⟩ := h.matched slot hstate
        exact ⟨j, hj, (hpreserved slot hstate).trans hsource, hused⟩
      | false =>
        obtain ⟨i, hi, -, hsource⟩ := hfilled slot hslot hstate
        exact ⟨srcPos i, hsrcPerm.lt i (Nat.lt_of_lt_of_le hi hk), hsource, hsrc i hi⟩
    refine ⟨fun slot => source' (start + slot) - start, ⟨fun slot hslot => ?_, fun slot slot' hslot hslot' heq => ?_⟩,
      fun slot hslot => ?_⟩
    · obtain ⟨j, hj, hsource, -⟩ := hlocal slot hslot
      rw [hsource, Nat.add_sub_cancel_left]
      exact hj
    · obtain ⟨j, hj, hsource, hused⟩ := hlocal slot hslot
      obtain ⟨j', hj', hsource', hused'⟩ := hlocal slot' hslot'
      rw [hsource, hsource', Nat.add_sub_cancel_left, Nat.add_sub_cancel_left] at heq
      have hboth : source' (start + slot) = source' (start + slot') := by rw [hsource, hsource', heq]
      have hstate : s.preservedPositions slot = s.preservedPositions slot' := by rw [← hused, ← hused', heq]
      cases hslotState : s.preservedPositions slot with
      | true =>
        rw [hslotState] at hstate
        rw [hpreserved slot hslotState, hpreserved slot' hstate.symm] at hboth
        exact h.unique slot slot' hslotState hstate.symm hboth
      | false =>
        rw [hslotState] at hstate
        obtain ⟨i, hi, hdsti, hsourcei⟩ := hfilled slot hslot hslotState
        obtain ⟨i', hi', hdsti', hsourcei'⟩ := hfilled slot' hslot' hstate.symm
        rw [hsourcei, hsourcei'] at hboth
        have hii := hsrcPerm.inj i i' (Nat.lt_of_lt_of_le hi hk) (Nat.lt_of_lt_of_le hi' hk)
          (Nat.add_left_cancel hboth)
        rw [← hdsti, ← hdsti', hii]
    · obtain ⟨j, -, hsource, -⟩ := hlocal slot hslot
      show source' (start + slot) = start + (source' (start + slot) - start)
      rw [hsource, Nat.add_sub_cancel_left]
  case refine_5 =>
    intro slot j hslot hj heq
    by_cases hstate : s.preservedPositions slot = true
    · obtain ⟨j', -, hsource, -, heq'⟩ := h.matched slot hstate
      refine ⟨slot, hslot, rfl, ?_⟩
      rw [hpreserved slot hstate, hsource, heq']
    · -- the index was used for another of the expert's old slots
      obtain ⟨slot', hslot', hsource'⟩ := h.used j (h.missed slot hslot hstate j hj heq)
      obtain ⟨j', -, hsource, -, heq'⟩ := h.matched slot' hslot'
      rw [hsource] at hsource'
      rw [Nat.add_left_cancel hsource', heq] at heq'
      refine ⟨slot', h.preserved_lt slot' hslot', heq'.symm, ?_⟩
      rw [hpreserved slot' hslot', hsource, Nat.add_left_cancel hsource', heq]

/-- One GPU: its own slots are permuted, the others are left alone. -/
theorem Slots.From.gpu (np : ArgSort) (slotsPerGpu start : Nat) (old : Nat → Int) (h : s.From m before) :
    ∃ source, (s.gpu np m slotsPerGpu start old).From m source ∧
      (∀ i, (∀ slot, slot < slotsPerGpu → i ≠ start + slot) → source i = before i) ∧
      BlockKept m slotsPerGpu start old source := by
  obtain ⟨source, hmatched⟩ := matched_first_pass slotsPerGpu start old h slotsPerGpu
  exact hmatched.fill np

/-- All GPUs, one after the other. -/
theorem preserveLayer_kept (np : ArgSort) (m : Mapping) (slotsPerGpu : Nat) (old : Nat → Int) (numRanks : Nat) :
    ∃ source, (preserveLayer np m slotsPerGpu numRanks old).From m source ∧
      (∀ i, numRanks * slotsPerGpu ≤ i → source i = i) ∧
      ∀ rank, rank < numRanks → BlockKept m slotsPerGpu (rank * slotsPerGpu) old source := by
  induction numRanks with
  | zero => exact ⟨fun i => i, ⟨rfl, rfl⟩, fun _ _ => rfl, fun rank hrank => absurd hrank (Nat.not_lt_zero rank)⟩
  | succ numRanks ih =>
    obtain ⟨before, hfrom, hlater, hblocks⟩ := ih
    unfold preserveLayer at hfrom ⊢
    rw [List.range_succ, List.foldl_append]
    obtain ⟨source, hfrom', houtside, hkept⟩ := hfrom.gpu np slotsPerGpu (numRanks * slotsPerGpu) old
    refine ⟨source, hfrom', fun i hi => ?_, fun rank hrank => ?_⟩
    · rw [Nat.succ_mul] at hi
      rw [houtside i fun slot hslot heq => by omega]
      exact hlater i (Nat.le_of_add_right_le hi)
    · rcases Nat.lt_succ_iff_lt_or_eq.mp hrank with hlt | rfl
      · have hsame : ∀ slot, slot < slotsPerGpu →
            source (rank * slotsPerGpu + slot) = before (rank * slotsPerGpu + slot) := by
          intro slot hslot
          apply houtside
          intro slot' _ heq
          have hle : rank * slotsPerGpu + slotsPerGpu ≤ numRanks * slotsPerGpu := by
            rw [← Nat.succ_mul]
            exact Nat.mul_le_mul_right slotsPerGpu hlt
          omega
        obtain ⟨⟨perm, hperm, hsource⟩, hkeeps⟩ := hblocks rank hlt
        refine ⟨⟨perm, hperm, fun slot hslot => (hsame slot hslot).trans (hsource slot hslot)⟩, ?_⟩
        intro slot j hslot hj heq
        obtain ⟨slot', hslot', hold, hnew⟩ := hkeeps slot j hslot hj heq
        exact ⟨slot', hslot', hold, by rw [hsame slot' hslot']; exact hnew⟩
      · exact hkept

end Yuan.Eplb
