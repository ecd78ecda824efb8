import Yuan.Lib.Parts
import Yuan.SingleController.Decorator

/-!
# Dispatch followed by collect

With the chunks of data ranks, collecting gives the rows in the order of the batch. With the chunks of data, context
and pipeline ranks, dispatch takes the pipeline ranks as the fastest and collect as the slowest.
-/

namespace Yuan.SingleController

section

variable {α β : Type}

/-! ## Chunks -/

theorem chunk_eq {rows : List α} {chunks size : Nat} (hpos : 0 < chunks) (hlen : rows.length = chunks * size) :
    chunk rows chunks = .ok ((List.range chunks).map (chunkAt rows size)) := by
  have hmod : decide (rows.length % chunks = 0) = true := by rw [hlen, Nat.mul_mod_right, decide_eq_true rfl]
  have hdiv : rows.length / chunks = size := by rw [hlen, Nat.mul_div_cancel_left _ hpos]
  unfold chunk
  rw [hmod, pyAssert_true, ok_bind, hdiv]
  rfl

theorem item_map_range {c : Nat → α} {n i : Nat} (hi : i < n) : item ((List.range n).map c) i = .ok (c i) := by
  have hget : ((List.range n).map c)[i]? = some (c i) := by
    rw [List.getElem?_map, List.getElem?_range hi]
    rfl
  rw [item, hget]

theorem concatDataProto_map {c : Nat → List β} {n : Nat} (hpos : 0 < n) :
    concatDataProto ((List.range n).map c) = .ok ((List.range n).map c).flatten := by
  obtain ⟨m, rfl⟩ := Nat.exists_eq_add_of_lt hpos
  rw [List.range_succ_eq_map]
  rfl

/-! ## The ranks that are collected -/

theorem range_mul_succ (m n : Nat) :
    List.range (m * (n + 1)) = List.range (m * n) ++ (List.range m).map fun r => m * n + r := by
  rw [Nat.mul_succ, List.range_add]

/-- The multiples of `m` among the first `m * n` numbers. -/
theorem filter_range_mul {m : Nat} (hm : 0 < m) (n : Nat) (p : Nat → Bool) :
    (List.range (m * n)).filter (fun k => decide (k % m = 0) && p (k / m))
      = ((List.range n).filter p).map fun q => m * q := by
  induction n with
  | zero => rfl
  | succ n ih =>
    have hblock : ((List.range m).map fun r => m * n + r).filter (fun k => decide (k % m = 0) && p (k / m))
        = ([n].filter p).map fun q => m * q := by
      obtain ⟨k, rfl⟩ := Nat.exists_eq_succ_of_ne_zero hm.ne'
      have hrest : (((List.range k).map Nat.succ).map fun r => (k + 1) * n + r).filter
          (fun x => decide (x % (k + 1) = 0) && p (x / (k + 1))) = [] := by
        rw [List.filter_eq_nil_iff]
        intro x hx
        obtain ⟨y, hy, rfl⟩ := List.mem_map.mp hx
        obtain ⟨r, hr, rfl⟩ := List.mem_map.mp hy
        have hlt := List.mem_range.mp hr
        have hmod : ((k + 1) * n + r.succ) % (k + 1) = r + 1 := by
          rw [Nat.mul_add_mod, Nat.mod_eq_of_lt (by omega)]
        rw [hmod]
        simp
      rw [List.range_succ_eq_map, List.map_cons, List.filter_cons, hrest, Nat.add_zero, Nat.mul_mod_right,
        Nat.mul_div_cancel_left _ hm, List.filter_cons]
      cases p n <;> rfl
    rw [range_mul_succ, List.filter_append, ih, hblock, List.range_succ, List.filter_append, List.map_append]

/-- The last block of `m` numbers. -/
theorem filter_range_last {m n : Nat} (hm : 0 < m) (hn : 0 < n) :
    (List.range (m * n)).filter (fun k => decide (k / m = n - 1)) = (List.range m).map fun d => m * (n - 1) + d := by
  obtain ⟨k, rfl⟩ := Nat.exists_eq_succ_of_ne_zero hn.ne'
  have hfront : (List.range (m * k)).filter (fun x => decide (x / m = k)) = [] := by
    rw [List.filter_eq_nil_iff]
    intro x hx
    have hlt : x / m < k := Nat.div_lt_of_lt_mul (List.mem_range.mp hx)
    simp only [decide_eq_true_eq]
    omega
  have hlast : ((List.range m).map fun r => m * k + r).filter (fun x => decide (x / m = k))
      = (List.range m).map fun r => m * k + r := by
    rw [List.filter_eq_self]
    intro x hx
    obtain ⟨r, hr, rfl⟩ := List.mem_map.mp hx
    rw [Nat.mul_add_div hm, Nat.div_eq_of_lt (List.mem_range.mp hr), Nat.add_zero, decide_eq_true rfl]
  rw [Nat.succ_sub_one, Nat.succ_eq_add_one, range_mul_succ, List.filter_append, hfront, hlast, List.nil_append]

theorem collect_ranks {o : Nat → β} {n : Nat} (p : Nat → Bool) :
    ((List.range n).filter p).mapM (item ((List.range n).map o)) = .ok (((List.range n).filter p).map o) :=
  mapM_ok fun _ hrank => item_map_range (List.mem_range.mp (List.mem_of_mem_filter hrank))

variable (g : ParallelSizes) {batch : List α} {size : Nat} (f : α → β)

theorem worldSize_pos : 0 < g.worldSize :=
  Nat.mul_pos g.tp_pos (Nat.mul_pos g.cp_pos (Nat.mul_pos g.dp_pos g.pp_pos))

/-- The ranks whose outputs `collect_megatron_compute` takes are those of the data ranks, in order. -/
theorem megatron_compute_ranks :
    (List.range g.worldSize).filter (fun globalRank => decide ((g.rankInfo globalRank).tpRank = 0 ∧
        (g.rankInfo globalRank).ppRank = g.ppSize - 1 ∧ (g.rankInfo globalRank).cpRank = 0))
      = (List.range g.dpSize).map fun d => g.tpSize * (g.cpSize * (g.dpSize * (g.ppSize - 1) + d)) := by
  have hcond : (fun globalRank => decide ((g.rankInfo globalRank).tpRank = 0 ∧
        (g.rankInfo globalRank).ppRank = g.ppSize - 1 ∧ (g.rankInfo globalRank).cpRank = 0))
      = fun k => decide (k % g.tpSize = 0) &&
          (decide (k / g.tpSize % g.cpSize = 0) && decide (k / g.tpSize / g.cpSize / g.dpSize = g.ppSize - 1)) := by
    funext k
    unfold ParallelSizes.rankInfo
    rw [Bool.decide_and, Bool.decide_and, Bool.and_comm (decide (_ = g.ppSize - 1))]
  rw [hcond, ParallelSizes.worldSize,
    filter_range_mul g.tp_pos _ fun k => decide (k % g.cpSize = 0) && decide (k / g.cpSize / g.dpSize = g.ppSize - 1),
    filter_range_mul g.cp_pos _ fun k => decide (k / g.dpSize = g.ppSize - 1),
    filter_range_last g.dp_pos g.pp_pos, List.map_map, List.map_map]
  rfl

theorem dpRank_of_collected (d : Nat) (hd : d < g.dpSize) :
    (g.rankInfo (g.tpSize * (g.cpSize * (g.dpSize * (g.ppSize - 1) + d)))).dpRank = d := by
  unfold ParallelSizes.rankInfo
  rw [Nat.mul_div_cancel_left _ g.tp_pos, Nat.mul_div_cancel_left _ g.cp_pos, Nat.mul_add_mod, Nat.mod_eq_of_lt hd]

theorem call_megatronComputeProto (hlen : batch.length = g.dpSize * size) :
    Dispatch.megatronComputeProto.call g (fun rows => rows.map f) batch = .ok (batch.map f) := by
  have hdispatch : Dispatch.megatronComputeProto.dispatchFn g batch
      = .ok ((List.range g.worldSize).map fun i => chunkAt batch size (g.rankInfo i).dpRank) := by
    unfold Dispatch.dispatchFn dispatchMegatronComputeDataProto dispatchMegatronCompute
    dsimp only
    rw [chunk_eq g.dp_pos hlen, ok_bind, List.length_map, List.length_range, decide_eq_true rfl, pyAssert_true]
    exact mapM_ok fun i _ => item_map_range (Nat.mod_lt _ g.dp_pos)
  have hcollect : collectMegatronCompute g
      ((List.range g.worldSize).map fun i => (chunkAt batch size (g.rankInfo i).dpRank).map f)
      = .ok ((List.range g.dpSize).map fun d => (chunkAt batch size d).map f) := by
    unfold collectMegatronCompute
    rw [collect_ranks, megatron_compute_ranks, List.map_map]
    refine congrArg Except.ok (List.map_congr_left fun d hd => ?_)
    rw [Function.comp_apply, dpRank_of_collected g d (List.mem_range.mp hd)]
  unfold Dispatch.call
  rw [hdispatch, ok_bind, List.map_map]
  unfold Dispatch.collectFn collectMegatronComputeDataProto
  dsimp only
  have hargs : ((fun rows : List α => rows.map f) ∘ fun i => chunkAt batch size (g.rankInfo i).dpRank)
      = fun i => (chunkAt batch size (g.rankInfo i).dpRank).map f := rfl
  rw [hargs, hcollect, ok_bind, concatDataProto_map g.dp_pos, flatten_map_chunks f hlen]

theorem call_dpComputeProto (hlen : batch.length = g.worldSize * size) :
    Dispatch.dpComputeProto.call g (fun rows => rows.map f) batch = .ok (batch.map f) := by
  have hdispatch : Dispatch.dpComputeProto.dispatchFn g batch
      = .ok ((List.range g.worldSize).map (chunkAt batch size)) := chunk_eq (worldSize_pos g) hlen
  unfold Dispatch.call
  rw [hdispatch, ok_bind, List.map_map]
  unfold Dispatch.collectFn collectDpComputeDataProto collectDpCompute
  dsimp only
  rw [List.length_map, List.length_range, decide_eq_true rfl, pyAssert_true, ok_bind, pure_bind,
    concatDataProto_map (worldSize_pos g)]
  exact congrArg Except.ok (flatten_map_chunks f hlen)

/-! ## Pipeline ranks as data ranks -/

/-- The chunk whose output is collected as number `k`. -/
def collectedChunk (k : Nat) : Nat :=
  (k % g.cpSize * g.dpSize + k / g.cpSize % g.dpSize) * g.ppSize + k / g.cpSize / g.dpSize

theorem megatron_pp_as_dp_ranks :
    (List.range g.worldSize).filter (fun globalRank => decide ((g.rankInfo globalRank).tpRank = 0))
      = (List.range (g.cpSize * (g.dpSize * g.ppSize))).map fun k => g.tpSize * k := by
  have hcond : (fun globalRank => decide ((g.rankInfo globalRank).tpRank = 0))
      = fun k => decide (k % g.tpSize = 0) && true := by
    funext k
    rw [Bool.and_true]
    rfl
  rw [hcond, ParallelSizes.worldSize, filter_range_mul g.tp_pos _ fun _ => true, List.filter_true]

/-- The chunk that a rank gets. -/
def argRank (rank : Nat) : Nat :=
  ((g.rankInfo rank).cpRank * g.dpSize + (g.rankInfo rank).dpRank) * g.ppSize + (g.rankInfo rank).ppRank

theorem argRank_lt {rank : Nat} (hrank : rank < g.worldSize) : argRank g rank < g.dpSize * g.ppSize * g.cpSize := by
  have hcp : (g.rankInfo rank).cpRank < g.cpSize := Nat.mod_lt _ g.cp_pos
  have hdp : (g.rankInfo rank).dpRank < g.dpSize := Nat.mod_lt _ g.dp_pos
  have hpp : (g.rankInfo rank).ppRank < g.ppSize :=
    Nat.div_lt_of_lt_mul (Nat.div_lt_of_lt_mul (Nat.div_lt_of_lt_mul hrank))
  unfold argRank
  generalize (g.rankInfo rank).cpRank = c at hcp ⊢
  generalize (g.rankInfo rank).dpRank = d at hdp ⊢
  generalize (g.rankInfo rank).ppRank = p at hpp ⊢
  calc (c * g.dpSize + d) * g.ppSize + p < (c * g.dpSize + d) * g.ppSize + g.ppSize := Nat.add_lt_add_left hpp _
    _ = (c * g.dpSize + d + 1) * g.ppSize := by ring
    _ ≤ (c * g.dpSize + g.dpSize) * g.ppSize := Nat.mul_le_mul_right _ (by omega)
    _ = (c + 1) * g.dpSize * g.ppSize := by ring
    _ ≤ g.cpSize * g.dpSize * g.ppSize := Nat.mul_le_mul_right _ (Nat.mul_le_mul_right _ hcp)
    _ = g.dpSize * g.ppSize * g.cpSize := by ring

theorem argRank_of_collected (k : Nat) : argRank g (g.tpSize * k) = collectedChunk g k := by
  unfold argRank ParallelSizes.rankInfo collectedChunk
  rw [Nat.mul_div_cancel_left _ g.tp_pos]

theorem call_megatronPpAsDpProto (hlen : batch.length = g.dpSize * g.ppSize * g.cpSize * size) :
    Dispatch.megatronPpAsDpProto.call g (fun rows => rows.map f) batch
      = .ok ((List.range (g.cpSize * (g.dpSize * g.ppSize))).map fun k =>
          (chunkAt batch size (collectedChunk g k)).map f).flatten := by
  have hchunks : 0 < g.dpSize * g.ppSize * g.cpSize := Nat.mul_pos (Nat.mul_pos g.dp_pos g.pp_pos) g.cp_pos
  have hsame : g.dpSize * g.ppSize * g.cpSize = g.ppSize * g.dpSize * g.cpSize := by ring
  have hdispatch : Dispatch.megatronPpAsDpProto.dispatchFn g batch
      = .ok ((List.range g.worldSize).map fun i => chunkAt batch size (argRank g i)) := by
    unfold Dispatch.dispatchFn dispatchMegatronPpAsDpDataProto dispatchMegatronPpAsDp
    dsimp only
    rw [chunk_eq hchunks hlen, ok_bind, List.length_map, List.length_range, decide_eq_true hsame, pyAssert_true]
    exact mapM_ok fun i hi => item_map_range (argRank_lt g (List.mem_range.mp hi))
  have hcollect : collectMegatronPpAsDp g
      ((List.range g.worldSize).map fun i => (chunkAt batch size (argRank g i)).map f)
      = .ok ((List.range (g.cpSize * (g.dpSize * g.ppSize))).map fun k =>
          (chunkAt batch size (collectedChunk g k)).map f) := by
    unfold collectMegatronPpAsDp
    rw [collect_ranks, megatron_pp_as_dp_ranks, List.map_map]
    refine congrArg Except.ok (List.map_congr_left fun k _ => ?_)
    rw [Function.comp_apply, argRank_of_collected]
  have hpos : 0 < g.cpSize * (g.dpSize * g.ppSize) := Nat.mul_pos g.cp_pos (Nat.mul_pos g.dp_pos g.pp_pos)
  unfold Dispatch.call
  rw [hdispatch, ok_bind, List.map_map]
  unfold Dispatch.collectFn collectMegatronPpAsDpDataProto
  dsimp only
  have hargs : ((fun rows : List α => rows.map f) ∘ fun i => chunkAt batch size (argRank g i))
      = fun i => (chunkAt batch size (argRank g i)).map f := rfl
  rw [hargs, hcollect, ok_bind, concatDataProto_map hpos]

end

/-! ## When the order is kept -/

/-- Context, data and pipeline ranks: at most one of the sizes is not one. -/
def SingleAxis (g : ParallelSizes) : Prop :=
  (g.dpSize = 1 ∧ g.ppSize = 1) ∨ (g.cpSize = 1 ∧ g.ppSize = 1) ∨ (g.cpSize = 1 ∧ g.dpSize = 1)

/-- The method's function of the rows of every batch that can be divided, each once and in order. -/
def KeepsOrder (g : ParallelSizes) (mode : Dispatch) : Prop :=
  ∀ (α β : Type) (f : α → β) (batch : List α), batch.length % mode.chunks g = 0 →
    mode.call g (fun rows => rows.map f) batch = .ok (batch.map f)

theorem collectedChunk_eq {g : ParallelSizes} (h : SingleAxis g) {k : Nat}
    (hk : k < g.cpSize * (g.dpSize * g.ppSize)) : collectedChunk g k = k := by
  unfold collectedChunk
  rcases h with ⟨hdp, hpp⟩ | ⟨hcp, hpp⟩ | ⟨hcp, hdp⟩
  · rw [hdp, hpp, Nat.mul_one] at hk
    rw [hdp, hpp, Nat.mod_one, Nat.div_one, Nat.mod_eq_of_lt hk, Nat.div_eq_of_lt hk]
    omega
  · rw [hcp, hpp, Nat.mul_one, Nat.one_mul] at hk
    rw [hcp, hpp, Nat.mod_one, Nat.div_one, Nat.mod_eq_of_lt hk, Nat.div_eq_of_lt hk]
    omega
  · rw [hcp, hdp, Nat.mod_one, Nat.mod_one, Nat.div_one]
    omega

/-- Where two sizes are not one, some chunk is collected out of order. -/
theorem singleAxis_of_collectedChunk {g : ParallelSizes}
    (h : ∀ k < g.cpSize * (g.dpSize * g.ppSize), collectedChunk g k = k) : SingleAxis g := by
  by_cases hpp : g.ppSize = 1
  · by_cases hcp : g.cpSize = 1
    · exact Or.inr (Or.inl ⟨hcp, hpp⟩)
    · -- the second context rank
      have hlt : 1 < g.cpSize := by have := g.cp_pos; omega
      have hone := h 1 (Nat.lt_of_lt_of_le hlt (Nat.le_mul_of_pos_right _ (Nat.mul_pos g.dp_pos g.pp_pos)))
      rw [collectedChunk, Nat.mod_eq_of_lt hlt, Nat.div_eq_of_lt hlt, Nat.zero_mod, Nat.zero_div, hpp] at hone
      exact Or.inl ⟨by omega, hpp⟩
  · -- the second pipeline rank
    have hlt : 1 < g.ppSize := by have := g.pp_pos; omega
    have hk : g.cpSize * g.dpSize < g.cpSize * (g.dpSize * g.ppSize) :=
      Nat.mul_lt_mul_of_pos_left (lt_mul_of_one_lt_right g.dp_pos hlt) g.cp_pos
    have hone := h _ hk
    rw [collectedChunk, Nat.mul_mod_right, Nat.mul_div_cancel_left _ g.cp_pos, Nat.mod_self, Nat.div_self g.dp_pos,
      Nat.zero_mul, Nat.add_zero, Nat.zero_mul] at hone
    exact Or.inr (Or.inr ⟨Nat.eq_one_of_mul_eq_one_right hone.symm, Nat.eq_one_of_mul_eq_one_left hone.symm⟩)

theorem chunkAt_range {n i : Nat} (hi : i < n) : chunkAt (List.range n) 1 i = [i] := by
  rw [chunkAt, Nat.mul_one, List.drop_eq_getElem_cons (by rwa [List.length_range]), List.take_succ_cons,
    List.take_zero, List.getElem_range]

/-- Dispatch followed by collect keeps the rows and their order, with pipeline ranks as data ranks exactly when only
one of the three sizes is not one. -/
theorem keepsOrder_iff (g : ParallelSizes) (mode : Dispatch) :
    KeepsOrder g mode ↔ (mode = .megatronPpAsDpProto → SingleAxis g) := by
  have hcount : g.dpSize * g.ppSize * g.cpSize = g.cpSize * (g.dpSize * g.ppSize) := by ring
  constructor
  · rintro h rfl
    refine singleAxis_of_collectedChunk fun k hk => ?_
    have hlen : (List.range (g.dpSize * g.ppSize * g.cpSize)).length = g.dpSize * g.ppSize * g.cpSize * 1 := by
      rw [List.length_range, Nat.mul_one]
    have hcall := h Nat Nat id (List.range (g.dpSize * g.ppSize * g.cpSize)) (by
      rw [List.length_range]
      exact Nat.mod_self _)
    rw [call_megatronPpAsDpProto g id hlen, List.map_id] at hcall
    have hrows : ((List.range (g.cpSize * (g.dpSize * g.ppSize))).map fun k =>
        (chunkAt (List.range (g.dpSize * g.ppSize * g.cpSize)) 1 (collectedChunk g k)).map id)
        = ((List.range (g.cpSize * (g.dpSize * g.ppSize))).map (collectedChunk g)).map fun i => [i] := by
      rw [List.map_map]
      refine List.map_congr_left fun k hk => ?_
      have hlt : collectedChunk g k < g.dpSize * g.ppSize * g.cpSize := by
        rw [← argRank_of_collected]
        exact argRank_lt g (Nat.mul_lt_mul_of_pos_left (List.mem_range.mp hk) g.tp_pos)
      rw [chunkAt_range hlt]
      rfl
    rw [hrows, ← List.flatMap_def, List.flatMap_singleton', hcount] at hcall
    have hmap : (List.range (g.cpSize * (g.dpSize * g.ppSize))).map (collectedChunk g)
        = (List.range (g.cpSize * (g.dpSize * g.ppSize))).map id := by
      rw [List.map_id]
      exact Except.ok.inj hcall
    exact List.map_inj_left.mp hmap k (List.mem_range.mpr hk)
  · intro h α β f batch hdvd
    obtain ⟨size, hlen⟩ := Nat.dvd_of_mod_eq_zero hdvd
    cases mode with
    | megatronComputeProto => exact call_megatronComputeProto g f hlen
    | dpComputeProto => exact call_dpComputeProto g f hlen
    | megatronPpAsDpProto =>
      have hrows : ((List.range (g.cpSize * (g.dpSize * g.ppSize))).map fun k =>
          (chunkAt batch size (collectedChunk g k)).map f)
          = (List.range (g.cpSize * (g.dpSize * g.ppSize))).map fun k => (chunkAt batch size k).map f := by
        refine List.map_congr_left fun k hk => ?_
        rw [collectedChunk_eq (h rfl) (List.mem_range.mp hk)]
      rw [call_megatronPpAsDpProto g f hlen, hrows]
      refine congrArg Except.ok (flatten_map_chunks f ?_)
      rw [← hcount]
      exact hlen

/-- Two pipeline ranks and four data ranks: the outputs of the first pipeline rank come first. -/
theorem order_lost_with_two_pipeline_ranks :
    ¬ KeepsOrder ⟨1, 1, 4, 2, by decide, by decide, by decide, by decide⟩ .megatronPpAsDpProto := by
  intro h
  have hcall := h Nat Nat id [0, 1, 2, 3, 4, 5, 6, 7] rfl
  revert hcall
  decide

end Yuan.SingleController
