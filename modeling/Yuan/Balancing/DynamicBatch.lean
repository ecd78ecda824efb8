import Yuan.Balancing.SelectedRows

/-!
# Dynamic batching is undone

The micro-batches have the rows that their index lists select. Restoring puts what a row-wise function makes of them
back into the order of the batch.
-/

namespace Yuan.Balancing

variable {α β : Type} {data : DataProto α β}

/-! ## Micro-batches -/

theorem reorder_perm (o : MicroBatchOptions) (lens : List Nat) (microBszIdx : List (List Nat)) :
    (reorder o lens microBszIdx).Perm microBszIdx := by
  unfold reorder
  split
  · exact List.perm_insertionSort _ _
  · exact .refl _

/-- The slices of the rows that a partition names. -/
def slices (rows : List α) (partition : List Nat) : List α := partition.flatMap fun idx => (rows.drop idx).take 1

/-- The micro-batches are the slices of the partitions that the differencing method makes. -/
theorem rearrangeMicroBatches_spec {batch : TensorBatch α} {limit : Nat} {o : MicroBatchOptions} {k : Nat}
    (hwidth : batch.width ≤ limit) (hnum : numMicroBatches o (seqLenEffective batch.rows) limit = .ok k) (hk : 1 ≤ k)
    (hle : k ≤ (seqLenEffective batch.rows).length) :
    ∃ parts, karmarkarKarp (seqLenEffective batch.rows) k false = .ok parts ∧
      ∃ idxs, idxs.Perm (parts.map fun p => p.insertionSort (· ≤ ·)) ∧
        Balanced (seqLenEffective batch.rows) k false idxs ∧
        rearrangeMicroBatches batch limit o = .ok (idxs.map (slices batch.rows), idxs) := by
  obtain ⟨parts, hparts, heq, hbalanced⟩ := getSeqlenBalancedPartitions_eq false hk hle fun h => (by cases h)
  have hperm := reorder_perm o (seqLenEffective batch.rows) (parts.map fun p => p.insertionSort (· ≤ ·))
  have hreordered := hbalanced.of_perm hperm
  have hcat := mapM_ok (f := catRows batch.rows) (c := slices batch.rows) fun p hp => if_neg (hreordered.ne_nil p hp)
  refine ⟨parts, hparts, _, hperm, hreordered, ?_⟩
  unfold rearrangeMicroBatches
  rw [decide_eq_true hwidth, pyAssert_true, ok_bind]
  dsimp only
  rw [hnum, ok_bind, decide_eq_true hle, pyAssert_true, ok_bind, heq, ok_bind, hcat]
  rfl

theorem length_seqLenEffective (rows : List (Row α)) : (seqLenEffective rows).length = rows.length := List.length_map _

/-! ## Rows with their non-tensors -/

namespace DataProto

theorem length_rows (data : DataProto α β) : data.rows.length = data.batch.rows.length := by
  rw [rows, List.length_map, List.length_zipIdx]

theorem getElem?_rows (data : DataProto α β) (i : Nat) :
    data.rows[i]? = data.batch.rows[i]?.map fun row => data.rowAt row i := by
  rw [rows, List.getElem?_map, List.getElem?_zipIdx, Option.map_map]
  cases data.batch.rows[i]? with
  | none => rfl
  | some row =>
    rw [Option.map_some, Option.map_some, Function.comp_apply, Nat.zero_add]

end DataProto

/-- Rows and arrays that are selected make up selected rows. -/
theorem selected_rows {micro : DataProto α β} {idx : List Nat} (hrows : Selected data.batch.rows idx micro.batch.rows)
    (harrays : List.Forall₂ (fun kv kv' : String × List β => kv.1 = kv'.1 ∧ Selected kv.2 idx kv'.2)
      data.nonTensorBatch micro.nonTensorBatch) : Selected data.rows idx micro.rows := by
  refine List.ext_getElem? fun j => ?_
  rw [List.getElem?_map, List.getElem?_map, micro.getElem?_rows]
  cases hj : idx[j]? with
  | none =>
    have hlen : micro.batch.rows.length ≤ j := by
      rw [hrows.length_eq]
      exact List.getElem?_eq_none_iff.mp hj
    rw [List.getElem?_eq_none_iff.mpr hlen]
    rfl
  | some i =>
    obtain ⟨row, hrow, hmicro⟩ := hrows.exists_getElem? hj
    rw [hmicro, Option.map_some, Option.map_some, Option.map_some, data.getElem?_rows, hrow]
    -- entry `i` of an array has become entry `j`
    refine congrArg some (congrArg some (congrArg (Prod.mk row) ?_))
    clear hrows hrow hmicro
    generalize data.nonTensorBatch = arrays at harrays
    generalize micro.nonTensorBatch = arrays' at harrays
    induction harrays with
    | nil => rfl
    | cons hab _ ih =>
      obtain ⟨v, hv, hv'⟩ := hab.2.exists_getElem? hj
      rw [List.filterMap_cons, List.filterMap_cons, hv, hv', hab.1, ih]

theorem microBatch_spec {idx : List Nat} (h : ∀ i ∈ idx, i < data.batch.rows.length) :
    ∃ micro, microBatch data (slices data.batch.rows idx) idx = .ok micro ∧ Selected data.rows idx micro.rows := by
  have hrows := selected_slices h
  obtain ⟨arrays, harrays, hall⟩ := exists_mapM (f := fun kv : String × List β => do return (kv.1, ← gather kv.2 idx))
    (R := fun kv kv' => kv.1 = kv'.1 ∧ Selected kv.2 idx kv'.2) fun kv hkv => by
      have hlt : ∀ i ∈ idx, i < kv.2.length := fun i hi => by
        rw [data.consistent kv hkv]
        exact h i hi
      obtain ⟨out, hout, hsel⟩ := selected_gather hlt
      refine ⟨(kv.1, out), ?_, rfl, hsel⟩
      rw [hout]
      rfl
  have hwidth : ∀ row ∈ slices data.batch.rows idx, row.attentionMask.length = data.batch.width := by
    intro row hrow
    obtain ⟨i, -, hi⟩ := List.mem_flatMap.mp hrow
    exact data.batch.width_eq row (List.mem_of_mem_drop (List.mem_of_mem_take hi))
  have hconsistent : ∀ kv ∈ arrays, kv.2.length = (slices data.batch.rows idx).length := by
    intro kv hkv
    obtain ⟨kv', -, hsel⟩ := exists_of_mem_of_forall₂ hall hkv
    exact hsel.2.length_eq.trans hrows.length_eq.symm
  refine ⟨⟨⟨slices data.batch.rows idx, data.batch.width, hwidth⟩, arrays, hconsistent⟩, ?_, ?_⟩
  · unfold microBatch
    rw [harrays, ok_bind, dif_pos hwidth]
    exact dif_pos hconsistent
  · exact selected_rows hrows hall

/-! ## Restoring -/

/-- `prepare_dynamic_batch` returns, and every row-wise function of its micro-batches comes back in the order of the
batch. -/
def Undone (data : DataProto α β) (limit : Nat) (otherRanks : Option Nat) : Prop :=
  ∃ micro idxs, prepareDynamicBatch data limit otherRanks = .ok (micro, idxs) ∧
    ∀ (γ : Type) (f : Row α × List (String × β) → γ),
      restoreDynamicBatch (micro.map fun m => m.rows.map f).flatten idxs = .ok (data.rows.map f)

/-- What the guards ask for: the padded rows fit the limit, there is a token here or a micro-batch on another rank, and
no other rank has more micro-batches than there are rows. -/
structure Fits (data : DataProto α β) (limit : Nat) (otherRanks : Option Nat) : Prop where
  limit_pos : 0 < limit
  width_le : data.batch.width ≤ limit
  tokens : 0 < (seqLenEffective data.batch.rows).sum ∨ 0 < otherRanks.getD 0
  others_le : otherRanks.getD 0 ≤ data.batch.rows.length

theorem Fits.numMicroBatches_eq {limit : Nat} {otherRanks : Option Nat} (h : Fits data limit otherRanks) :
    ∃ k, numMicroBatches { otherRanks := otherRanks } (seqLenEffective data.batch.rows) limit = .ok k ∧ 1 ≤ k ∧
      k ≤ (seqLenEffective data.batch.rows).length := by
  have hothers := h.others_le
  rw [← length_seqLenEffective] at hothers
  have htokens := h.tokens
  -- without rows there are no tokens, and no micro-batches on other ranks
  have hrows : 0 < (seqLenEffective data.batch.rows).length := by
    rcases htokens with hsum | hother
    · refine Nat.pos_of_ne_zero fun hzero => ?_
      rw [List.length_eq_zero_iff.mp hzero] at hsum
      exact Nat.lt_irrefl 0 hsum
    · exact Nat.lt_of_lt_of_le hother hothers
  generalize seqLenEffective data.batch.rows = lens at hothers htokens hrows ⊢
  have hceil : 0 < lens.sum → 0 < (lens.sum + limit - 1) / limit := fun hsum =>
    Nat.div_pos (by omega) h.limit_pos
  refine ⟨max (otherRanks.getD (min lens.length ((lens.sum + limit - 1) / limit)))
    (min lens.length ((lens.sum + limit - 1) / limit)), ?_, ?_, ?_⟩
  · unfold numMicroBatches ceildiv
    rw [if_neg h.limit_pos.ne', ok_bind]
    dsimp only
    rw [Option.getD_none, Nat.max_self]
    rfl
  · cases otherRanks with
    | none =>
      rcases htokens with hsum | hother
      · have hpos := hceil hsum
        omega
      · exact absurd hother (Nat.lt_irrefl 0)
    | some n =>
      rw [Option.getD_some] at htokens ⊢
      rcases htokens with hsum | hother
      · have hpos := hceil hsum
        omega
      · omega
  · cases otherRanks with
    | none =>
      rw [Option.getD_none]
      omega
    | some n =>
      rw [Option.getD_some] at hothers ⊢
      omega

theorem undone_of_fits (data : DataProto α β) (limit : Nat) (otherRanks : Option Nat)
    (h : Fits data limit otherRanks) : Undone data limit otherRanks := by
  obtain ⟨k, hnum, hk, hle⟩ := h.numMicroBatches_eq
  obtain ⟨parts, -, idxs, hperm, hbalanced, hrearrange⟩ := rearrangeMicroBatches_spec h.width_le hnum hk hle
  have hflatten : idxs.flatten.Perm (List.range data.rows.length) := by
    rw [data.length_rows, ← length_seqLenEffective]
    exact hbalanced.flatten_perm
  have hzip : (idxs.map (slices data.batch.rows)).zip idxs = idxs.map fun idx => (slices data.batch.rows idx, idx) := by
    rw [List.zip_map_left, List.zip_eq_zipWith, List.zipWith_self, List.map_map]
    rfl
  obtain ⟨micro, hmicro, hall⟩ := exists_mapM
    (f := fun p : List (Row α) × List Nat => microBatch data p.1 p.2)
    (R := fun p m => Selected data.rows p.2 m.rows)
    (l := (idxs.map (slices data.batch.rows)).zip idxs) fun p hp => by
      rw [hzip] at hp
      obtain ⟨idx, hidx, rfl⟩ := List.mem_map.mp hp
      refine microBatch_spec fun i hi => ?_
      rw [← data.length_rows]
      exact List.mem_range.mp (hflatten.mem_iff.mp (List.mem_flatten.mpr ⟨idx, hidx, hi⟩))
  rw [hzip, List.forall₂_map_left_iff] at hall
  refine ⟨micro, idxs, ?_, fun γ f => ?_⟩
  · unfold prepareDynamicBatch
    rw [hrearrange, ok_bind]
    dsimp only
    rw [hmicro]
    rfl
  · refine restoreDynamicBatch_of_selected ?_ (selected_flatten ?_)
    · rwa [List.length_map]
    · exact List.forall₂_map_right_iff.mpr (hall.imp fun _ _ hsel => hsel.map f)

/-- Rows of one, two and three tokens; the last row is a micro-batch of its own and comes first. -/
def growingRows : DataProto String Unit :=
  ⟨⟨[⟨[true, false, false], "a"⟩, ⟨[true, true, false], "b"⟩, ⟨[true, true, true], "c"⟩], 3, by decide⟩, [], by decide⟩

theorem undone_of_fits_three_rows :
    (prepareDynamicBatch growingRows 3 none).map Prod.snd = .ok [[2], [0, 1]] ∧ Undone growingRows 3 none :=
  ⟨by decide +kernel, undone_of_fits _ _ _ ⟨by decide, by decide, by decide, by decide⟩⟩

/-- A padded row that is wider than the limit: the assertion fails. -/
theorem not_undone_of_wide_row :
    ¬ Undone (⟨⟨[⟨[true, false], "a"⟩], 2, by decide⟩, [], by decide⟩ : DataProto String Unit) 1 none := by
  rintro ⟨micro, idxs, h, -⟩
  cases h

end Yuan.Balancing
