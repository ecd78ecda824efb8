import Yuan.Core.KVCacheConfigs

/-!
# The KV cache layout is a partition

Every layer of a worker is in one group and has its KV cache in one tensor; two layers of one group
never share a tensor. As long as the number of blocks is not overridden, the tensors of a worker fit
into its memory, also after all workers were given the same number of blocks.
-/

namespace Yuan.Core

variable {specs : Dict String LayerKVCacheSpec} {layers : List String}

/-- The layers are divided among the groups and among the tensors, tensors have a layer of each group at
most, and their sizes are whole pages. -/
structure LaidOut (layers : List String) (kvCacheConfig : KVCacheConfig) : Prop where
  groups : (kvCacheConfig.kvCacheGroups.flatMap KVCacheGroupSpec.layerNames).Perm layers
  tensors : (kvCacheConfig.kvCacheTensors.flatMap KVCacheTensor.sharedBy).Perm layers
  separate : ∀ tensor ∈ kvCacheConfig.kvCacheTensors, ∀ group ∈ kvCacheConfig.kvCacheGroups,
    ∀ a ∈ tensor.sharedBy, ∀ b ∈ tensor.sharedBy, a ∈ group.layerNames → b ∈ group.layerNames → a = b
  size : ∀ tensor ∈ kvCacheConfig.kvCacheTensors, ∀ group ∈ kvCacheConfig.kvCacheGroups,
    ∀ layer ∈ tensor.sharedBy, layer ∈ group.layerNames → ∃ pageSize : Nat,
      group.kvCacheSpec.pageSizeOf layer = .ok pageSize ∧
        tensor.size = kvCacheConfig.numBlocks * pageSize

/-- A group with one spec for each of its layers is the only one. -/
def SingleUniformType (groups : List KVCacheGroupSpec) : Prop :=
  groups.length ≤ 1 ∨ ∀ group ∈ groups, group.HasLayerSpec

/-! ## One worker -/

section

variable {config : VllmConfig} {groups : List KVCacheGroupSpec} {availableMemory : Int}
  {kvCacheConfig : KVCacheConfig} {numBlocksOld minNumBlocks : Int}

theorem foldr_max_le {l : List Nat} {n : Nat} (h : n ∈ l) : n ≤ l.foldr max 0 := by
  induction l with
  | nil => cases h
  | cons m l ih =>
    rcases List.mem_cons.mp h with rfl | h
    · exact le_max_left _ _
    · exact le_trans (ih h) (le_max_right _ _)

theorem length_le_largestGroup {group : KVCacheGroupSpec} (h : group ∈ groups) :
    group.layerNames.length ≤ largestGroup groups :=
  foldr_max_le (List.mem_map_of_mem h)

/-- All specs have the page size. -/
theorem getUniformPageSize_eq_ok {specs : List GroupKVCacheSpec} {pageSize : Nat}
    (h : getUniformPageSize specs = .ok pageSize) : ∀ spec ∈ specs, spec.pageSizeBytes = .ok pageSize := by
  obtain ⟨pageSizes, hsizes, h⟩ := bind_eq_ok.mp h
  split at h
  · next page hdedup =>
      cases h
      have hforall := mapM_eq_ok.mp hsizes
      intro spec hspec
      obtain ⟨size, hsize, hspec⟩ := exists_of_mem_of_forall₂ hforall.flip hspec
      have hmem : size ∈ pageSizes.dedup := List.mem_dedup.mpr hsize
      rw [hdedup, List.mem_singleton] at hmem
      rw [← hmem]
      exact hspec
  · cases h

theorem getKVCacheConfigFromGroups_cases
    (h : getKVCacheConfigFromGroups config groups availableMemory = .ok kvCacheConfig) :
    (groups = [] ∧ kvCacheConfig = ⟨1, [], []⟩) ∨
    (∃ layerNames spec pageSize numBlocks kvCacheTensors, groups = [⟨layerNames, .uniformType spec⟩] ∧
      spec.pageSizeBytes = .ok pageSize ∧ floorDiv availableMemory pageSize = .ok numBlocks ∧
      kvCacheConfig = ⟨mayOverrideNumBlocks config numBlocks, kvCacheTensors, groups⟩ ∧
      List.Forall₂ (fun layerName tensor => ∃ layerSpec layerPageSize,
        lookupSpec spec.kvCacheSpecs layerName = .ok layerSpec ∧ layerSpec.pageSizeBytes = .ok layerPageSize ∧
        tensor = ⟨layerPageSize * mayOverrideNumBlocks config numBlocks, [layerName]⟩) layerNames kvCacheTensors) ∨
    (groups ≠ [] ∧ (∀ layerNames spec, groups ≠ [⟨layerNames, .uniformType spec⟩]) ∧
      ∃ pageSize numBlocks, getUniformPageSize (groups.map KVCacheGroupSpec.kvCacheSpec) = .ok pageSize ∧
        0 < largestGroup groups ∧ getNumBlocks config (largestGroup groups) availableMemory pageSize = .ok numBlocks ∧
        kvCacheConfig = ⟨numBlocks, (List.range (largestGroup groups)).map fun i =>
          ⟨pageSize * numBlocks, column (groups.map KVCacheGroupSpec.layerNames) i⟩, groups⟩) := by
  unfold getKVCacheConfigFromGroups at h
  split at h
  · cases h
    exact Or.inl ⟨rfl, rfl⟩
  · next layerNames spec =>
      obtain ⟨pageSize, hpage, h⟩ := bind_eq_ok.mp h
      obtain ⟨numBlocks, hnum, h⟩ := bind_eq_ok.mp h
      obtain ⟨kvCacheTensors, htensors, h⟩ := bind_eq_ok.mp h
      cases h
      right
      left
      refine ⟨layerNames, spec, pageSize, numBlocks, kvCacheTensors, rfl, hpage, hnum, rfl, ?_⟩
      apply (mapM_eq_ok.mp htensors).imp
      intro layerName tensor htensor
      obtain ⟨layerSpec, hspec, htensor⟩ := bind_eq_ok.mp htensor
      obtain ⟨layerPageSize, hsize, htensor⟩ := bind_eq_ok.mp htensor
      cases htensor
      exact ⟨layerSpec, layerPageSize, hspec, hsize, rfl⟩
  · next hne hne' =>
      obtain ⟨pageSize, hpage, h⟩ := bind_eq_ok.mp h
      obtain ⟨_, hpos, h⟩ := bind_eq_ok.mp h
      obtain ⟨numBlocks, hnum, h⟩ := bind_eq_ok.mp h
      cases h
      right
      right
      exact ⟨hne, hne', pageSize, numBlocks, hpage, of_decide_eq_true (pyAssert_eq_ok.mp hpos), hnum,
        rfl⟩

theorem lookupSpec_eq_ok {layerName : String} {spec : LayerKVCacheSpec} : lookupSpec specs layerName = .ok spec ↔
      specs.get? layerName = some spec := by
  unfold lookupSpec
  cases specs.get? layerName with
  | none => exact iff_of_false nofun nofun
  | some spec' =>
    constructor
    · intro h
      rw [Except.ok.inj h]
    · intro h
      rw [Option.some.inj h]

/-- One tensor for each layer. -/
theorem flatMap_sharedBy_of_forall₂ {numBlocks : Int} {layerNames : List String} {kvCacheTensors : List KVCacheTensor}
    (h : List.Forall₂ (fun layerName tensor => ∃ layerSpec layerPageSize, lookupSpec specs layerName = .ok layerSpec ∧
      LayerKVCacheSpec.pageSizeBytes layerSpec = .ok layerPageSize ∧
      tensor = ⟨layerPageSize * numBlocks, [layerName]⟩) layerNames kvCacheTensors) :
    kvCacheTensors.flatMap KVCacheTensor.sharedBy = layerNames := by
  induction h with
  | nil => rfl
  | cons htensor _ ih =>
    obtain ⟨layerSpec, layerPageSize, -, -, rfl⟩ := htensor
    rw [List.flatMap_cons, ih]
    rfl

theorem laidOut_getKVCacheConfigFromGroups
    (h : getKVCacheConfigFromGroups config groups availableMemory = .ok kvCacheConfig)
    (hperm : (groups.flatMap KVCacheGroupSpec.layerNames).Perm layers) (hnodup : layers.Nodup)
    (hsingle : SingleUniformType groups) : LaidOut layers kvCacheConfig := by
  rcases getKVCacheConfigFromGroups_cases h with ⟨rfl, rfl⟩ |
    ⟨layerNames, spec, pageSize, numBlocks, kvCacheTensors, rfl, -, -, rfl, hforall⟩ |
    ⟨hne, hnot, pageSize, numBlocks, hpage, -, -, rfl⟩
  · exact ⟨hperm, hperm, nofun, nofun⟩
  · refine ⟨hperm, ?_, ?_, ?_⟩
    · rw [List.flatMap_singleton] at hperm
      rw [flatMap_sharedBy_of_forall₂ hforall]
      exact hperm
    · intro tensor htensor group _ a ha b hb _ _
      obtain ⟨layerName, -, layerSpec, layerPageSize, -, -, rfl⟩ :=
        exists_of_mem_of_forall₂ hforall htensor
      rw [List.mem_singleton.mp ha, List.mem_singleton.mp hb]
    · intro tensor htensor group hgroup layer hlayer _
      obtain ⟨layerName, -, layerSpec, layerPageSize, hspec, hsize, rfl⟩ :=
        exists_of_mem_of_forall₂ hforall htensor
      rw [List.mem_singleton.mp hgroup, List.mem_singleton.mp hlayer]
      refine ⟨layerPageSize, ?_, mul_comm _ _⟩
      unfold GroupKVCacheSpec.pageSizeOf
      dsimp only
      rw [lookupSpec_eq_ok.mp hspec]
      exact hsize
  · -- one tensor for each index, shared by the layers that the groups have there
    have hflatten : (groups.map KVCacheGroupSpec.layerNames).flatten.Perm layers := by
      exact hperm
    have hwidth : ∀ row ∈ groups.map KVCacheGroupSpec.layerNames, row.length ≤ largestGroup groups := by
      intro row hrow
      obtain ⟨group, hgroup, rfl⟩ := List.mem_map.mp hrow
      exact length_le_largestGroup hgroup
    refine ⟨hperm, ?_, ?_, ?_⟩
    · dsimp only
      rw [List.flatMap_map]
      exact (flatMap_column_perm hwidth).trans hflatten
    · intro tensor htensor group hgroup a ha b hb hag hbg
      obtain ⟨i, -, rfl⟩ := List.mem_map.mp htensor
      exact column_unique (hflatten.nodup_iff.mpr hnodup) (List.mem_map_of_mem hgroup) ha hb hag hbg
    · intro tensor htensor group hgroup layer _ _
      obtain ⟨i, -, rfl⟩ := List.mem_map.mp htensor
      refine ⟨pageSize, ?_, mul_comm _ _⟩
      obtain ⟨spec, hspec⟩ : group.HasLayerSpec := by
        rcases hsingle with hlen | hall
        · have hone : groups = [group] := by
            obtain ⟨g, rfl⟩ := List.length_eq_one_iff.mp
              (le_antisymm hlen (List.length_pos_iff.mpr hne))
            rw [List.mem_singleton.mp hgroup]
          cases hspec : group.kvCacheSpec with
          | layer spec => exact ⟨spec, hspec⟩
          | uniformType spec =>
            apply absurd hone
            rw [show group = ⟨group.layerNames, .uniformType spec⟩ by rw [← hspec]]
            exact hnot _ _
        · exact hall group hgroup
      have hsize := getUniformPageSize_eq_ok hpage _ (List.mem_map_of_mem hgroup)
      rw [hspec] at hsize ⊢
      exact hsize

/-! ## The size of all tensors -/

/-- The bytes of one block in all tensors of a worker. -/
def bytesPerBlock : List KVCacheGroupSpec → Except PyError Nat
  | [] => .ok 0
  | [⟨_, .uniformType spec⟩] => spec.pageSizeBytes
  | groups => do
    let pageSize ← getUniformPageSize (groups.map KVCacheGroupSpec.kvCacheSpec)
    return largestGroup groups * pageSize

def totalSize (kvCacheConfig : KVCacheConfig) : Int :=
  (kvCacheConfig.kvCacheTensors.map KVCacheTensor.size).sum

/-- A group with a spec for each of its layers has no other layers. -/
def NamesOwnLayers (groups : List KVCacheGroupSpec) : Prop :=
  ∀ group ∈ groups, ∀ spec, group.kvCacheSpec = .uniformType spec →
    group.layerNames = [] ∨ group.layerNames = spec.kvCacheSpecs.keys

theorem bytesPerBlock_of_ne (hnil : groups ≠ [])
    (hnot : ∀ layerNames spec, groups ≠ [⟨layerNames, .uniformType spec⟩]) :
    bytesPerBlock groups = do
      let pageSize ← getUniformPageSize (groups.map KVCacheGroupSpec.kvCacheSpec)
      return largestGroup groups * pageSize := by
  unfold bytesPerBlock
  split
  · exact absurd rfl hnil
  · exact absurd rfl (hnot _ _)
  · rfl

/-- The tensors of the single group have the page sizes of its layers, for every block. -/
theorem sum_size_of_forall₂ {spec : UniformTypeKVCacheSpecs} {numBlocks : Int} {pageSize : Nat}
    {kvCacheTensors : List KVCacheTensor} (hpage : spec.pageSizeBytes = .ok pageSize)
    (h : List.Forall₂ (fun layerName tensor => ∃ layerSpec layerPageSize,
      lookupSpec spec.kvCacheSpecs layerName = .ok layerSpec ∧
      LayerKVCacheSpec.pageSizeBytes layerSpec = .ok layerPageSize ∧
      tensor = ⟨layerPageSize * numBlocks, [layerName]⟩) spec.kvCacheSpecs.keys kvCacheTensors) :
    (kvCacheTensors.map KVCacheTensor.size).sum = numBlocks * pageSize := by
  obtain ⟨pageSizes, hsizes, hok⟩ := bind_eq_ok.mp hpage
  cases hok
  have hforall := mapM_eq_ok.mp hsizes
  have hentries : ∀ e ∈ spec.kvCacheSpecs.entries, spec.kvCacheSpecs.get? e.1 = some e.2 :=
    fun e he => Dict.get?_eq_some.mpr he
  unfold Dict.keys at h
  unfold Dict.values at hforall
  revert h hforall hentries
  generalize spec.kvCacheSpecs.entries = entries
  intro h hforall hentries
  clear hsizes hpage
  induction entries generalizing kvCacheTensors pageSizes with
  | nil =>
    cases h
    cases hforall
    simp
  | cons e entries ih =>
    cases h with
    | cons htensor h =>
      cases hforall with
      | cons hsize hforall =>
        obtain ⟨layerSpec, layerPageSize, hspec, hsize', rfl⟩ := htensor
        have hsame := (lookupSpec_eq_ok.mp hspec).symm.trans (hentries e List.mem_cons_self)
        rw [Option.some.inj hsame, hsize] at hsize'
        rw [List.map_cons, List.sum_cons, List.sum_cons,
          ih _ h hforall fun e he => hentries e (List.mem_cons_of_mem _ he),
          Except.ok.inj hsize']
        push_cast
        ring

section

variable (h : getKVCacheConfigFromGroups config groups availableMemory = .ok kvCacheConfig)
include h

/-- The tensors have at most the bytes of all blocks. -/
theorem totalSize_le {bytes : Nat} (hnames : NamesOwnLayers groups) (hbytes : bytesPerBlock groups = .ok bytes)
    (hpos : 0 ≤ kvCacheConfig.numBlocks) : totalSize kvCacheConfig ≤ kvCacheConfig.numBlocks * bytes := by
  rcases getKVCacheConfigFromGroups_cases h with ⟨rfl, rfl⟩ |
    ⟨layerNames, spec, pageSize, numBlocks, kvCacheTensors, rfl, hpage, -, rfl, hforall⟩ |
    ⟨hnil, hnot, pageSize, numBlocks, hpage, -, -, rfl⟩
  · cases hbytes
    exact le_refl _
  · have hbytes' : spec.pageSizeBytes = .ok bytes := hbytes
    rcases hnames _ List.mem_cons_self spec rfl with hempty | hkeys
    · have hempty' : layerNames = [] := hempty
      subst hempty'
      cases hforall
      exact Int.mul_nonneg hpos (Int.natCast_nonneg _)
    · have hkeys' : layerNames = spec.kvCacheSpecs.keys := hkeys
      subst hkeys'
      exact le_of_eq (sum_size_of_forall₂ hbytes' hforall)
  · rw [bytesPerBlock_of_ne hnil hnot, hpage] at hbytes
    cases hbytes
    apply le_of_eq
    unfold totalSize
    rw [List.map_map]
    have hconst : (KVCacheTensor.size ∘ fun i => (⟨pageSize * numBlocks,
        column (groups.map KVCacheGroupSpec.layerNames) i⟩ : KVCacheTensor)) =
        fun _ => pageSize * numBlocks := rfl
    rw [hconst, List.map_const', List.length_range, List.sum_replicate]
    push_cast
    ring

/-- The number of blocks that fit, if it is not overridden. -/
theorem numBlocks_eq {bytes : Nat} (hbytes : bytesPerBlock groups = .ok bytes) (hnil : groups ≠ [])
    (hpos : 0 ≤ availableMemory) :
    0 < bytes ∧ kvCacheConfig.numBlocks = mayOverrideNumBlocks config (availableMemory / bytes) := by
  rcases getKVCacheConfigFromGroups_cases h with ⟨rfl, -⟩ |
    ⟨layerNames, spec, pageSize, numBlocks, kvCacheTensors, rfl, hpage, hnum, rfl, -⟩ |
    ⟨-, hnot, pageSize, numBlocks, hpage, hlarge, hnum, rfl⟩
  · exact absurd rfl hnil
  · have hbytes' : spec.pageSizeBytes = .ok bytes := hbytes
    rw [hbytes'] at hpage
    cases hpage
    obtain ⟨hne, rfl⟩ := floorDiv_eq_ok (Int.natCast_nonneg _) hnum
    exact ⟨by exact_mod_cast hne, rfl⟩
  · rw [bytesPerBlock_of_ne hnil hnot, hpage] at hbytes
    cases hbytes
    obtain ⟨numPages, hpages, hnum⟩ := bind_eq_ok.mp hnum
    obtain ⟨numFit, hfit, hnum⟩ := bind_eq_ok.mp hnum
    obtain ⟨hpage0, rfl⟩ := floorDiv_eq_ok (Int.natCast_nonneg _) hpages
    obtain ⟨-, rfl⟩ := floorDiv_eq_ok (Int.natCast_nonneg _) hfit
    cases hnum
    have hpage0' : 0 < pageSize := by exact_mod_cast hpage0
    refine ⟨Nat.mul_pos hlarge hpage0', ?_⟩
    have hdiv : availableMemory / pageSize / largestGroup groups =
        availableMemory / ((largestGroup groups * pageSize : Nat) : Int) := by
      rw [Int.ediv_ediv_of_nonneg (Int.natCast_nonneg _), mul_comm]
      rfl
    rw [hdiv, max_eq_left]
    exact Int.ediv_nonneg hpos (Int.natCast_nonneg _)

end

/-- An overriding number of blocks fits, if there is one. -/
def OverrideFits (config : VllmConfig) (bytes : Nat) (availableMemory : Int) : Prop :=
  ∀ numBlocks ∈ config.numGpuBlocksOverride, (numBlocks * bytes : Int) ≤ availableMemory

theorem totalSize_le_availableMemory {bytes : Nat}
    (h : getKVCacheConfigFromGroups config groups availableMemory = .ok kvCacheConfig)
    (hnames : NamesOwnLayers groups) (hbytes : bytesPerBlock groups = .ok bytes) (hnil : groups ≠ [])
    (hpos : 0 ≤ availableMemory) (hfits : OverrideFits config bytes availableMemory) :
    0 ≤ kvCacheConfig.numBlocks ∧ totalSize kvCacheConfig ≤ availableMemory := by
  obtain ⟨hbytes0, hnum⟩ := numBlocks_eq h hbytes hnil hpos
  have hbound : 0 ≤ kvCacheConfig.numBlocks ∧ kvCacheConfig.numBlocks * bytes ≤ availableMemory := by
    rw [hnum]
    unfold mayOverrideNumBlocks
    split
    · exact ⟨Int.ediv_nonneg hpos (Int.natCast_nonneg _), Int.ediv_mul_le _ (by omega)⟩
    · next numBlocks hoverride => exact ⟨Int.natCast_nonneg _, hfits numBlocks hoverride⟩
  exact ⟨hbound.1, (totalSize_le h hnames hbytes hbound.1).trans hbound.2⟩

/-! ## Shrinking -/

/-- Each tensor with the blocks it is shrunk to. -/
def ShrunkTo (numBlocksOld minNumBlocks : Int) (tensor tensor' : KVCacheTensor) : Prop :=
  numBlocksOld ≠ 0 ∧ tensor' = { tensor with size := tensor.size.fdiv numBlocksOld * minNumBlocks }

theorem shrinkTensor_eq_ok {tensor tensor' : KVCacheTensor}
    (h : shrinkTensor numBlocksOld minNumBlocks tensor = .ok tensor') :
    ShrunkTo numBlocksOld minNumBlocks tensor tensor' := by
  obtain ⟨blockBytes, hdiv, h⟩ := bind_eq_ok.mp h
  obtain ⟨-, -, h⟩ := bind_eq_ok.mp h
  cases h
  unfold floorDiv at hdiv
  split at hdiv
  · cases hdiv
  · next hne =>
      cases hdiv
      exact ⟨hne, rfl⟩

theorem shrink_eq_ok {kvCacheConfig' : KVCacheConfig} (h : shrink minNumBlocks kvCacheConfig = .ok kvCacheConfig') :
    kvCacheConfig'.numBlocks = minNumBlocks ∧ kvCacheConfig'.kvCacheGroups = kvCacheConfig.kvCacheGroups ∧
      List.Forall₂ (ShrunkTo kvCacheConfig.numBlocks minNumBlocks)
        kvCacheConfig.kvCacheTensors kvCacheConfig'.kvCacheTensors := by
  obtain ⟨kvCacheTensors, htensors, h⟩ := bind_eq_ok.mp h
  cases h
  refine ⟨rfl, rfl, ?_⟩
  exact (mapM_eq_ok.mp htensors).imp fun _ _ htensor => shrinkTensor_eq_ok htensor

theorem flatMap_sharedBy_shrunk {tensors tensors' : List KVCacheTensor}
    (h : List.Forall₂ (ShrunkTo numBlocksOld minNumBlocks) tensors tensors') :
    tensors'.flatMap KVCacheTensor.sharedBy = tensors.flatMap KVCacheTensor.sharedBy := by
  induction h with
  | nil => rfl
  | cons htensor _ ih => rw [List.flatMap_cons, List.flatMap_cons, ih, htensor.2]

/-- Fewer blocks, less memory. -/
theorem sum_size_shrunk_le {tensors tensors' : List KVCacheTensor}
    (h : List.Forall₂ (ShrunkTo numBlocksOld minNumBlocks) tensors tensors') (hmin : 0 ≤ minNumBlocks)
    (hle : minNumBlocks ≤ numBlocksOld) (hsize : ∀ tensor ∈ tensors, 0 ≤ tensor.size) :
    (tensors'.map KVCacheTensor.size).sum ≤ (tensors.map KVCacheTensor.size).sum := by
  induction h with
  | nil => exact le_refl _
  | @cons tensor tensor' tensors tensors' htensor _ ih =>
    obtain ⟨hne, rfl⟩ := htensor
    have hpos : 0 < numBlocksOld := lt_of_le_of_ne (hmin.trans hle) hne.symm
    have hdiv : 0 ≤ tensor.size / numBlocksOld :=
      Int.ediv_nonneg (hsize tensor List.mem_cons_self) hpos.le
    apply add_le_add _ (ih fun tensor h => hsize tensor (List.mem_cons_of_mem _ h))
    rw [Int.fdiv_eq_ediv_of_nonneg _ hpos.le]
    calc tensor.size / numBlocksOld * minNumBlocks
        ≤ tensor.size / numBlocksOld * numBlocksOld := mul_le_mul_of_nonneg_left hle hdiv
      _ ≤ tensor.size := Int.ediv_mul_le _ hne

theorem LaidOut.shrink {kvCacheConfig' : KVCacheConfig} (h : LaidOut layers kvCacheConfig)
    (hshrink : shrink minNumBlocks kvCacheConfig = .ok kvCacheConfig') : LaidOut layers kvCacheConfig' := by
  obtain ⟨hnum, hgroups, hforall⟩ := shrink_eq_ok hshrink
  have hshared := flatMap_sharedBy_shrunk hforall
  refine ⟨hgroups ▸ h.groups, hshared ▸ h.tensors, ?_, ?_⟩
  · intro tensor' htensor' group hgroup
    obtain ⟨tensor, htensor, -, rfl⟩ := exists_of_mem_of_forall₂ hforall htensor'
    exact h.separate tensor htensor group (hgroups ▸ hgroup)
  · intro tensor' htensor' group hgroup layer hlayer hmem
    obtain ⟨tensor, htensor, hne, rfl⟩ := exists_of_mem_of_forall₂ hforall htensor'
    obtain ⟨pageSize, hpage, hsize⟩ := h.size tensor htensor group (hgroups ▸ hgroup) layer hlayer hmem
    refine ⟨pageSize, hpage, ?_⟩
    rw [hnum, hsize, Int.mul_fdiv_cancel_left _ hne, mul_comm]

variable (h : getKVCacheConfigFromGroups config groups availableMemory = .ok kvCacheConfig)
include h

/-- A worker that passed the check has no negative number of blocks, and no negative sizes. -/
theorem numBlocks_nonneg (hpos : groups ≠ [] → 0 ≤ availableMemory) : 0 ≤ kvCacheConfig.numBlocks ∧
      ∀ tensor ∈ kvCacheConfig.kvCacheTensors, 0 ≤ tensor.size := by
  have hoverride : ∀ n : Int, 0 ≤ n → 0 ≤ mayOverrideNumBlocks config n := by
    intro n hn
    unfold mayOverrideNumBlocks
    split
    · exact hn
    · exact Int.natCast_nonneg _
  rcases getKVCacheConfigFromGroups_cases h with ⟨rfl, rfl⟩ |
    ⟨layerNames, spec, pageSize, numBlocks, kvCacheTensors, rfl, -, hnum, rfl, hforall⟩ |
    ⟨hnil, -, pageSize, numBlocks, -, -, hnum, rfl⟩
  · exact ⟨by decide, nofun⟩
  · obtain ⟨-, rfl⟩ := floorDiv_eq_ok (Int.natCast_nonneg _) hnum
    have hnum' := hoverride _ (Int.ediv_nonneg (hpos (List.cons_ne_nil _ _))
      (Int.natCast_nonneg pageSize))
    refine ⟨hnum', ?_⟩
    intro tensor htensor
    obtain ⟨layerName, -, layerSpec, layerPageSize, -, -, rfl⟩ :=
      exists_of_mem_of_forall₂ hforall htensor
    exact Int.mul_nonneg (Int.natCast_nonneg _) hnum'
  · obtain ⟨numPages, -, hnum⟩ := bind_eq_ok.mp hnum
    obtain ⟨numFit, -, hnum⟩ := bind_eq_ok.mp hnum
    cases hnum
    have hnum' := hoverride _ (le_max_right numFit 0)
    refine ⟨hnum', ?_⟩
    intro tensor htensor
    obtain ⟨i, -, rfl⟩ := List.mem_map.mp htensor
    exact Int.mul_nonneg (Int.natCast_nonneg _) hnum'

theorem exists_bytesPerBlock : kvCacheConfig.kvCacheGroups = groups ∧ ∃ bytes, bytesPerBlock groups = .ok bytes := by
  rcases getKVCacheConfigFromGroups_cases h with ⟨rfl, rfl⟩ |
    ⟨layerNames, spec, pageSize, numBlocks, kvCacheTensors, rfl, hpage, -, rfl, -⟩ |
    ⟨hnil, hnot, pageSize, numBlocks, hpage, -, -, rfl⟩
  · exact ⟨rfl, 0, rfl⟩
  · exact ⟨rfl, pageSize, hpage⟩
  · refine ⟨rfl, largestGroup groups * pageSize, ?_⟩
    rw [bytesPerBlock_of_ne hnil hnot, hpage]
    rfl

end

/-! ## The groups of a worker -/

section

variable {workerSpec : Dict String LayerKVCacheSpec}

theorem map_fst_lookups {names : List String} {entries : List (String × LayerKVCacheSpec)}
    (h : List.Forall₂ (fun name e => (do return (name, ← lookupSpec specs name)) = Except.ok e)
      names entries) : entries.map Prod.fst = names := by
  induction h with
  | nil => rfl
  | cons he _ ih =>
    obtain ⟨layerSpec, -, he⟩ := bind_eq_ok.mp he
    cases he
    rw [List.map_cons, ih]

theorem projectGroup_eq_ok {group group' : KVCacheGroupSpec} (hnodup : group.layerNames.Nodup)
    (h : projectGroup workerSpec group = .ok group') :
    group'.layerNames = group.layerNames.filter (fun layerName => workerSpec.contains layerName) ∧
      (group.HasLayerSpec → group'.HasLayerSpec) ∧ ∀ spec, group'.kvCacheSpec = .uniformType spec →
        group'.layerNames = [] ∨ group'.layerNames = spec.kvCacheSpecs.keys := by
  unfold projectGroup at h
  dsimp only at h
  split at h
  · next name names spec hnames hspec =>
      obtain ⟨entries, hentries, h⟩ := bind_eq_ok.mp h
      cases h
      refine ⟨rfl, ?_, ?_⟩
      · rintro ⟨layerSpec, hlayer⟩
        rw [hspec] at hlayer
        cases hlayer
      · intro spec' hspec'
        cases hspec'
        right
        have hfst := map_fst_lookups (mapM_eq_ok.mp hentries)
        rw [Dict.keys, Dict.entries_insertAll_empty (hfst ▸ hnodup.filter _)]
        exact hfst.symm
  · next hnot =>
      cases h
      refine ⟨rfl, id, ?_⟩
      intro spec hspec
      left
      cases hnames : group.layerNames.filter (fun layerName => workerSpec.contains layerName) with
      | nil => rfl
      | cons name names => exact absurd hspec (hnot name names spec hnames)

/-- The layers of all groups, on one worker. -/
theorem flatMap_layerNames_projected {groups projected : List KVCacheGroupSpec}
    (h : List.Forall₂ (fun group group' : KVCacheGroupSpec => group'.layerNames =
      group.layerNames.filter (fun layerName => workerSpec.contains layerName)) groups projected) :
    projected.flatMap KVCacheGroupSpec.layerNames = (groups.flatMap KVCacheGroupSpec.layerNames).filter
      (fun layerName => workerSpec.contains layerName) := by
  induction h with
  | nil => rfl
  | cons hgroup _ ih => rw [List.flatMap_cons, List.flatMap_cons, List.filter_append, ih, hgroup]

/-- What the projection to one worker keeps. -/
structure Projected (workerSpec : Dict String LayerKVCacheSpec) (groups projected : List KVCacheGroupSpec) :
    Prop where
  layers : (projected.flatMap KVCacheGroupSpec.layerNames).Perm workerSpec.keys
  single : SingleUniformType projected
  names : NamesOwnLayers projected
  nil : projected = [] ↔ groups = []

theorem projected_eq_ok {groups projected : List KVCacheGroupSpec}
    (h : projectKVCacheGroupsToWorker groups workerSpec = .ok projected)
    (hperm : (groups.flatMap KVCacheGroupSpec.layerNames).Perm layers) (hnodup : layers.Nodup)
    (hsingle : SingleUniformType groups) (hsub : ∀ layer ∈ workerSpec.keys, layer ∈ layers) :
    Projected workerSpec groups projected := by
  have hforall := mapM_eq_ok.mp h
  have hnodup' := hperm.nodup_iff.mpr hnodup
  have hgroups : ∀ group ∈ groups, group.layerNames.Nodup := by
    intro group hgroup
    exact (List.nodup_flatMap.mp hnodup').1 group hgroup
  have hnames : List.Forall₂ (fun group group' : KVCacheGroupSpec => group'.layerNames =
      group.layerNames.filter (fun layerName => workerSpec.contains layerName)) groups projected := by
    rw [List.forall₂_iff_get] at hforall ⊢
    refine ⟨hforall.1, ?_⟩
    intro i hi hi'
    exact (projectGroup_eq_ok (hgroups _ (List.get_mem _ _)) (hforall.2 i hi hi')).1
  refine ⟨?_, ?_, ?_, ?_⟩
  · rw [flatMap_layerNames_projected hnames]
    refine (hperm.filter _).trans ?_
    rw [List.perm_ext_iff_of_nodup (hnodup.filter _) workerSpec.nodup_keys]
    intro layer
    rw [List.mem_filter, Dict.contains_iff]
    exact and_iff_right_of_imp (hsub layer)
  · rcases hsingle with hlen | hall
    · left
      rw [← hforall.length_eq]
      exact hlen
    · right
      intro group' hgroup'
      obtain ⟨group, hgroup, hproject⟩ := exists_of_mem_of_forall₂ hforall hgroup'
      exact (projectGroup_eq_ok (hgroups group hgroup) hproject).2.1 (hall group hgroup)
  · intro group' hgroup'
    obtain ⟨group, hgroup, hproject⟩ := exists_of_mem_of_forall₂ hforall hgroup'
    exact (projectGroup_eq_ok (hgroups group hgroup) hproject).2.2
  · rw [← List.length_eq_zero_iff, ← List.length_eq_zero_iff, hforall.length_eq]

theorem mergeWorkerSpecs_eq_ok {merged merged' : Dict String LayerKVCacheSpec}
    {entries : List (String × LayerKVCacheSpec)} (h : mergeWorkerSpecs merged entries = .ok merged') :
    (∀ layer ∈ merged.keys, layer ∈ merged'.keys) ∧ ∀ e ∈ entries, e.1 ∈ merged'.keys := by
  induction entries generalizing merged with
  | nil =>
    cases h
    exact ⟨fun _ h => h, nofun⟩
  | cons e entries ih =>
    unfold mergeWorkerSpecs at h
    split at h
    · next hnone =>
        obtain ⟨hkeys, hentries⟩ := ih h
        refine ⟨fun layer hlayer => hkeys layer (Dict.mem_keys_set.mpr (Or.inr hlayer)), ?_⟩
        intro e' he'
        rcases List.mem_cons.mp he' with rfl | he'
        · exact hkeys _ (Dict.mem_keys_set.mpr (Or.inl rfl))
        · exact hentries e' he'
    · next old hold =>
        obtain ⟨-, -, h⟩ := bind_eq_ok.mp h
        obtain ⟨hkeys, hentries⟩ := ih h
        refine ⟨hkeys, ?_⟩
        intro e' he'
        rcases List.mem_cons.mp he' with rfl | he'
        · apply hkeys
          rw [← Dict.isSome_get?, hold]
          rfl
        · exact hentries e' he'

end

/-! ## All workers -/

section

variable {config config' : VllmConfig} {projecteds : List (List KVCacheGroupSpec)} {kvCacheConfigs : List KVCacheConfig}

theorem checkWorkers_eq_ok {workers : List (List KVCacheGroupSpec × Int)}
    (h : checkWorkers config workers = .ok ()) : ∀ worker ∈ workers, worker.1 ≠ [] → 0 < worker.2 ∧
      ∃ neededMemory, maxMemoryUsageBytesFromGroups config worker.1 = .ok neededMemory ∧ neededMemory ≤ worker.2 := by
  induction workers with
  | nil => nofun
  | cons worker workers ih =>
    obtain ⟨groups, availableMemory⟩ := worker
    intro worker hworker hne
    cases groups with
    | nil =>
      rcases List.mem_cons.mp hworker with rfl | hworker
      · exact absurd rfl hne
      · exact ih h worker hworker hne
    | cons group groups =>
      obtain ⟨_, hcheck, hrest⟩ := bind_eq_ok.mp h
      rcases List.mem_cons.mp hworker with rfl | hworker
      · unfold checkEnoughKVCacheMemory at hcheck
        split at hcheck
        · cases hcheck
        · next hpos =>
            obtain ⟨neededMemory, hneeded, hcheck⟩ := bind_eq_ok.mp hcheck
            split at hcheck
            · obtain ⟨_, -, hcheck⟩ := bind_eq_ok.mp hcheck
              cases hcheck
            · next hle => exact ⟨not_le.mp hpos, neededMemory, hneeded, not_lt.mp hle⟩
      · exact ih hrest worker hworker hne

theorem workerConfigs_eq_ok {workerSpecs : List (Dict String LayerKVCacheSpec)} {availableMemory : List Int}
    (h : workerConfigs config projecteds workerSpecs availableMemory = .ok kvCacheConfigs) {i : Nat}
    {kvCacheConfig : KVCacheConfig} (hi : kvCacheConfigs[i]? = some kvCacheConfig) :
    ∃ projected workerSpec available, projecteds[i]? = some projected ∧
      workerSpecs[i]? = some workerSpec ∧ availableMemory[i]? = some available ∧
      getKVCacheConfigFromGroups config projected available = .ok kvCacheConfig := by
  induction projecteds generalizing workerSpecs availableMemory kvCacheConfigs i with
  | nil =>
    cases h
    cases hi
  | cons projected projecteds ih =>
    cases workerSpecs with
    | nil =>
      cases h
      cases hi
    | cons workerSpec workerSpecs =>
      cases availableMemory with
      | nil =>
        cases h
        cases hi
      | cons available availableMemory =>
        obtain ⟨first, hfirst, h⟩ := bind_eq_ok.mp h
        obtain ⟨rest, hrest, h⟩ := bind_eq_ok.mp h
        cases h
        cases i with
        | zero =>
          cases hi
          obtain ⟨_, -, hfirst⟩ := bind_eq_ok.mp hfirst
          exact ⟨projected, workerSpec, available, rfl, rfl, rfl, hfirst⟩
        | succ i => exact ih hrest hi

theorem length_workerConfigs {workerSpecs : List (Dict String LayerKVCacheSpec)} {availableMemory : List Int}
    (h : workerConfigs config projecteds workerSpecs availableMemory = .ok kvCacheConfigs)
    (hlen : projecteds.length = workerSpecs.length) :
    kvCacheConfigs.length = min workerSpecs.length availableMemory.length := by
  induction projecteds generalizing workerSpecs availableMemory kvCacheConfigs with
  | nil =>
    cases h
    rw [← hlen]
    exact (Nat.zero_min _).symm
  | cons projected projecteds ih =>
    cases workerSpecs with
    | nil => cases hlen
    | cons workerSpec workerSpecs =>
      cases availableMemory with
      | nil =>
        cases h
        rfl
      | cons available availableMemory =>
        obtain ⟨first, -, h⟩ := bind_eq_ok.mp h
        obtain ⟨rest, hrest, h⟩ := bind_eq_ok.mp h
        cases h
        rw [List.length_cons, ih hrest (Nat.succ.inj hlen), List.length_cons, List.length_cons]
        omega

theorem shrinkAll_eq_ok {kvCacheConfigs' : List KVCacheConfig} (h : shrinkAll kvCacheConfigs = .ok kvCacheConfigs') :
    ∃ minNumBlocks, (∃ kvCacheConfig ∈ kvCacheConfigs, kvCacheConfig.numBlocks = minNumBlocks) ∧
      (∀ kvCacheConfig ∈ kvCacheConfigs, minNumBlocks ≤ kvCacheConfig.numBlocks) ∧
      List.Forall₂ (fun kvCacheConfig kvCacheConfig' =>
        shrink minNumBlocks kvCacheConfig = .ok kvCacheConfig') kvCacheConfigs kvCacheConfigs' := by
  unfold shrinkAll at h
  split at h
  · cases h
  · next minNumBlocks hmin =>
      obtain ⟨hmem, hle⟩ := List.min?_eq_some_iff.mp hmin
      refine ⟨minNumBlocks, List.mem_map.mp hmem, ?_, mapM_eq_ok.mp h⟩
      intro kvCacheConfig hconfig
      exact hle _ (List.mem_map_of_mem hconfig)

/-- Fitting the model length changes nothing else. -/
theorem fittedConfig_eq_ok {projected : List (List KVCacheGroupSpec)} {availableMemory : List Int}
    (h : fittedConfig config projected availableMemory = .ok config') :
    ∃ maxModelLen, config' = { config with maxModelLen } := by
  unfold fittedConfig at h
  split at h
  · unfold autoFitMaxModelLen at h
    split at h
    · cases h
      exact ⟨config.maxModelLen, rfl⟩
    · obtain ⟨autoFitMax, -, h⟩ := bind_eq_ok.mp h
      split at h
      · cases h
      · cases h
        exact ⟨autoFitMax, rfl⟩
  · cases h
    exact ⟨config.maxModelLen, rfl⟩

/-- The steps of `get_kv_cache_configs`. -/
structure Configured (config : VllmConfig) (kvCacheSpecs : List (Dict String LayerKVCacheSpec))
    (availableMemory : List Int) (kvCacheConfigs : List KVCacheConfig) (config' : VllmConfig)
    (groups : List KVCacheGroupSpec) (projecteds : List (List KVCacheGroupSpec))
    (unshrunk : List KVCacheConfig) : Prop where
  grouped : ∃ merged unified, mergeWorkerSpecs .empty (kvCacheSpecs.flatMap Dict.entries) = .ok merged ∧
    getKVCacheGroups config merged = .ok groups ∧ Unified merged unified ∧ Grouped unified groups
  projected : List.Forall₂ (fun workerSpec projected =>
    projectKVCacheGroupsToWorker groups workerSpec = .ok projected) kvCacheSpecs projecteds
  fitted : ∃ maxModelLen, config' = { config with maxModelLen }
  checked : checkWorkers config' (projecteds.zip availableMemory) = .ok ()
  configs : workerConfigs config' projecteds kvCacheSpecs availableMemory = .ok unshrunk
  shrunk : shrinkAll unshrunk = .ok kvCacheConfigs

theorem getKVCacheConfigs_eq_ok {kvCacheSpecs : List (Dict String LayerKVCacheSpec)} {availableMemory : List Int}
    (h : getKVCacheConfigs config kvCacheSpecs availableMemory = .ok (kvCacheConfigs, config')) :
    ∃ groups projecteds unshrunk, Configured config kvCacheSpecs availableMemory kvCacheConfigs config'
      groups projecteds unshrunk := by
  obtain ⟨merged, hmerged, h⟩ := bind_eq_ok.mp h
  obtain ⟨groups, hgroups, h⟩ := bind_eq_ok.mp h
  obtain ⟨projecteds, hprojected, h⟩ := bind_eq_ok.mp h
  obtain ⟨fitted, hfitted, h⟩ := bind_eq_ok.mp h
  obtain ⟨_, hchecked, h⟩ := bind_eq_ok.mp h
  obtain ⟨unshrunk, hunshrunk, h⟩ := bind_eq_ok.mp h
  obtain ⟨shrunk, hshrunk, h⟩ := bind_eq_ok.mp h
  cases h
  obtain ⟨unified, hunified, hgrouped⟩ := getKVCacheGroups_eq_ok hgroups
  exact ⟨groups, projecteds, unshrunk, ⟨merged, unified, hmerged, hgroups, hunified, hgrouped⟩,
    mapM_eq_ok.mp hprojected, fittedConfig_eq_ok hfitted, hchecked, hunshrunk, hshrunk⟩

/-- The configuration of one worker before it is shrunk. -/
structure WorkerConfigured (config' : VllmConfig) (workerSpec : Dict String LayerKVCacheSpec)
    (groups : List KVCacheGroupSpec) (availableMemory : Int) (minNumBlocks : Int)
    (kvCacheConfig : KVCacheConfig) : Prop where
  projected : ∃ projected unshrunk, Projected workerSpec groups projected ∧
    (projected ≠ [] → 0 < availableMemory ∧ ∃ neededMemory,
      maxMemoryUsageBytesFromGroups config' projected = .ok neededMemory ∧
        neededMemory ≤ availableMemory) ∧
    getKVCacheConfigFromGroups config' projected availableMemory = .ok unshrunk ∧
    shrink minNumBlocks unshrunk = .ok kvCacheConfig ∧ minNumBlocks ≤ unshrunk.numBlocks

theorem Configured.worker {kvCacheSpecs : List (Dict String LayerKVCacheSpec)} {availableMemory : List Int}
    {groups : List KVCacheGroupSpec} {unshrunk : List KVCacheConfig}
    (h : Configured config kvCacheSpecs availableMemory kvCacheConfigs config' groups projecteds unshrunk) :
    ∃ minNumBlocks, 0 ≤ minNumBlocks ∧ ∀ (i : Nat) kvCacheConfig,
      kvCacheConfigs[i]? = some kvCacheConfig → ∃ workerSpec available,
        kvCacheSpecs[i]? = some workerSpec ∧ availableMemory[i]? = some available ∧
        WorkerConfigured config' workerSpec groups available minNumBlocks kvCacheConfig := by
  obtain ⟨minNumBlocks, ⟨smallest, hsmallest, hmin⟩, hle, hshrunk⟩ := shrinkAll_eq_ok h.shrunk
  have hworker : ∀ (i : Nat) first, unshrunk[i]? = some first → ∃ projected workerSpec available,
      kvCacheSpecs[i]? = some workerSpec ∧ availableMemory[i]? = some available ∧
      Projected workerSpec groups projected ∧ (projected ≠ [] → 0 < available ∧ ∃ neededMemory,
        maxMemoryUsageBytesFromGroups config' projected = .ok neededMemory ∧
          neededMemory ≤ available) ∧
      getKVCacheConfigFromGroups config' projected available = .ok first := by
    intro i first hi
    obtain ⟨projected, workerSpec, available, hprojected, hspec, havailable, hconfig⟩ :=
      workerConfigs_eq_ok h.configs hi
    obtain ⟨merged, unified, hmerged, -, hunified, hgrouped⟩ := h.grouped
    have hkeys := hunified.keys
    have hperm := hgrouped.layers
    rw [hkeys] at hperm
    have hproject : projectKVCacheGroupsToWorker groups workerSpec = .ok projected := by
      obtain ⟨hi1, hspec'⟩ := List.getElem?_eq_some_iff.mp hspec
      obtain ⟨hi2, hprojected'⟩ := List.getElem?_eq_some_iff.mp hprojected
      rw [← hspec', ← hprojected']
      exact h.projected.get hi1 hi2
    refine ⟨projected, workerSpec, available, hspec, havailable, ?_, ?_, hconfig⟩
    · apply projected_eq_ok hproject hperm merged.nodup_keys hgrouped.single
      intro layer hlayer
      obtain ⟨spec, hentry⟩ := Dict.mem_keys.mp hlayer
      have hmem := List.mem_of_getElem? hspec
      exact (mergeWorkerSpecs_eq_ok hmerged).2 _ (List.mem_flatMap.mpr ⟨workerSpec, hmem, hentry⟩)
    · intro hne
      have hzip : (projecteds.zip availableMemory)[i]? = some (projected, available) :=
        List.getElem?_zip_eq_some.mpr ⟨hprojected, havailable⟩
      exact checkWorkers_eq_ok h.checked _ (List.mem_of_getElem? hzip) hne
  refine ⟨minNumBlocks, ?_, ?_⟩
  · obtain ⟨i, hi, hget⟩ := List.mem_iff_getElem.mp hsmallest
    obtain ⟨projected, workerSpec, available, -, -, -, hpos, hconfig⟩ :=
      hworker i smallest (List.getElem?_eq_some_iff.mpr ⟨hi, hget⟩)
    rw [← hmin]
    exact (numBlocks_nonneg hconfig fun hne => (hpos hne).1.le).1
  · intro i kvCacheConfig hi
    obtain ⟨hi', hget⟩ := List.getElem?_eq_some_iff.mp hi
    have hlt : i < unshrunk.length := hshrunk.length_eq ▸ hi'
    have hshrink := hshrunk.get hlt hi'
    obtain ⟨projected, workerSpec, available, hspec, havailable, hprojected, hpos, hconfig⟩ :=
      hworker i unshrunk[i] (List.getElem?_eq_getElem hlt)
    refine ⟨workerSpec, available, hspec, havailable, projected, unshrunk[i], hprojected, hpos, hconfig,
      ?_, hle _ (List.getElem_mem hlt)⟩
    rw [← hget]
    exact hshrink

/-- What the final configuration of a worker is. -/
structure WorkerLaidOut (config : VllmConfig) (workerSpec : Dict String LayerKVCacheSpec)
    (availableMemory numBlocks : Int) (kvCacheConfig : KVCacheConfig) : Prop where
  layout : LaidOut workerSpec.keys kvCacheConfig
  numBlocks : kvCacheConfig.numBlocks = numBlocks
  memory : ∃ bytes, bytesPerBlock kvCacheConfig.kvCacheGroups = .ok bytes ∧
    (OverrideFits config bytes availableMemory → totalSize kvCacheConfig ≤ max availableMemory 0)

theorem WorkerConfigured.laidOut {workerSpec : Dict String LayerKVCacheSpec}
    {groups : List KVCacheGroupSpec} {availableMemory minNumBlocks : Int}
    {kvCacheConfig : KVCacheConfig} {maxModelLen : Nat}
    (h : WorkerConfigured { config with maxModelLen } workerSpec groups availableMemory minNumBlocks
      kvCacheConfig) (hmin : 0 ≤ minNumBlocks) :
    WorkerLaidOut config workerSpec availableMemory minNumBlocks kvCacheConfig := by
  obtain ⟨projected, unshrunk, hprojected, hchecked, hconfig, hshrink, hle⟩ := h
  have hlaid := laidOut_getKVCacheConfigFromGroups hconfig hprojected.layers workerSpec.nodup_keys
    hprojected.single
  obtain ⟨hnum, hgroups, hforall⟩ := shrink_eq_ok hshrink
  obtain ⟨hgroups', bytes, hbytes⟩ := exists_bytesPerBlock hconfig
  refine ⟨hlaid.shrink hshrink, hnum, bytes, ?_, ?_⟩
  · rw [hgroups, hgroups']
    exact hbytes
  · intro hfits
    obtain ⟨-, hsize⟩ := numBlocks_nonneg hconfig fun hne => (hchecked hne).1.le
    have hshrunk := sum_size_shrunk_le hforall hmin hle hsize
    rcases eq_or_ne projected [] with rfl | hne
    · cases hconfig
      exact hshrunk.trans (le_max_right _ _)
    · have hpos := (hchecked hne).1.le
      have htotal := totalSize_le_availableMemory hconfig hprojected.names hbytes hne hpos hfits
      exact hshrunk.trans (htotal.2.trans (le_max_left _ _))

/-- The layers are divided among groups that can be merged and among tensors, by
`get_kv_cache_config_from_groups` and for every worker in the end, and the tensors of each worker fit
into its memory unless too large a number of blocks was asked for. -/
theorem kv_cache_layout_partitions (config : VllmConfig) :
    (∀ specs groups, getKVCacheGroups config specs = .ok groups →
      (∃ unified, Unified specs unified ∧ Grouped unified groups) ∧ ∀ availableMemory kvCacheConfig,
        getKVCacheConfigFromGroups config groups availableMemory = .ok kvCacheConfig →
          LaidOut specs.keys kvCacheConfig) ∧ ∀ kvCacheSpecs availableMemory kvCacheConfigs config',
      getKVCacheConfigs config kvCacheSpecs availableMemory = .ok (kvCacheConfigs, config') →
      kvCacheConfigs.length = min kvCacheSpecs.length availableMemory.length ∧
      ∃ numBlocks, ∀ (i : Nat) kvCacheConfig, kvCacheConfigs[i]? = some kvCacheConfig →
        ∃ workerSpec available, kvCacheSpecs[i]? = some workerSpec ∧ availableMemory[i]? = some available ∧
          WorkerLaidOut config workerSpec available numBlocks kvCacheConfig := by
  refine ⟨?_, ?_⟩
  · intro specs groups hgroups
    obtain ⟨unified, hunified, hgrouped⟩ := getKVCacheGroups_eq_ok hgroups
    refine ⟨⟨unified, hunified, hgrouped⟩, ?_⟩
    intro availableMemory kvCacheConfig hconfig
    have hperm := hgrouped.layers
    rw [hunified.keys] at hperm
    exact laidOut_getKVCacheConfigFromGroups hconfig hperm specs.nodup_keys hgrouped.single
  · intro kvCacheSpecs availableMemory kvCacheConfigs config' h
    obtain ⟨groups, projecteds, unshrunk, hconfigured⟩ := getKVCacheConfigs_eq_ok h
    obtain ⟨maxModelLen, rfl⟩ := hconfigured.fitted
    obtain ⟨minNumBlocks, hmin, hworkers⟩ := hconfigured.worker
    obtain ⟨_, -, -, hshrunk⟩ := shrinkAll_eq_ok hconfigured.shrunk
    have hlen := length_workerConfigs hconfigured.configs hconfigured.projected.length_eq.symm
    refine ⟨hshrunk.length_eq.symm.trans hlen, minNumBlocks, ?_⟩
    intro i kvCacheConfig hi
    obtain ⟨workerSpec, available, hspec, havailable, hworker⟩ := hworkers i kvCacheConfig hi
    exact ⟨workerSpec, available, hspec, havailable, hworker.laidOut hmin⟩

end

/-- Layers with pages of 64 bytes. -/
def smallLayer : AttentionSpec :=
  { blockSize := 16, numKVHeads := 1, headSize := 1, dtype := ⟨"float16", 2⟩ }

def smallFull : LayerKVCacheSpec := .fullAttention { toAttentionSpec := smallLayer, headSizeV := 1 }

def smallSliding : LayerKVCacheSpec := .slidingWindow smallLayer 8

/-- A hybrid model on two workers. -/
def hybridWorkers : List (Dict String LayerKVCacheSpec) :=
  [Dict.empty.insertAll [("full.0", smallFull), ("sw.0", smallSliding), ("sw.1", smallSliding)],
    Dict.empty.insertAll [("full.1", smallFull), ("sw.2", smallSliding)]]

theorem kv_cache_layout_two_workers : ∃ kvCacheConfigs numBlocks,
    getKVCacheConfigs { maxModelLen := 32, maxNumBatchedTokens := 16 } hybridWorkers [1000, 700] =
      .ok (kvCacheConfigs, { maxModelLen := 32, maxNumBatchedTokens := 16 }) ∧
    ∀ (i : Nat) kvCacheConfig, kvCacheConfigs[i]? = some kvCacheConfig → ∃ workerSpec available,
      hybridWorkers[i]? = some workerSpec ∧ [1000, 700][i]? = some available ∧
      WorkerLaidOut { maxModelLen := 32, maxNumBatchedTokens := 16 } workerSpec available numBlocks kvCacheConfig := by
  obtain ⟨-, numBlocks, hworkers⟩ := (kv_cache_layout_partitions
    { maxModelLen := 32, maxNumBatchedTokens := 16 }).2 hybridWorkers [1000, 700] _ _ rfl
  exact ⟨_, numBlocks, rfl, hworkers⟩

/-- A full attention layer with larger values, whose pages have 96 bytes. -/
def wideValues : LayerKVCacheSpec := .fullAttention { toAttentionSpec := smallLayer, headSizeV := 2 }

/-- Five blocks that were asked for take more than the memory for two. And the merge of two full attention layers does
not compare the sizes of their values, so the tensor of the second has not its own pages. -/
theorem kv_cache_layout_overridden :
    (¬ ∀ config kvCacheSpecs availableMemory kvCacheConfigs config',
      getKVCacheConfigs config kvCacheSpecs availableMemory = .ok (kvCacheConfigs, config') →
      ∀ (i : Nat) kvCacheConfig available, kvCacheConfigs[i]? = some kvCacheConfig →
        availableMemory[i]? = some available → totalSize kvCacheConfig ≤ available) ∧
    ∃ (kvCacheConfig : KVCacheConfig) (tensor : KVCacheTensor) (pageSize : Nat),
      getKVCacheConfigs { maxModelLen := 16, maxNumBatchedTokens := 16 }
          [Dict.empty.insertAll [("full.0", smallFull), ("full.1", wideValues)]] [1000] =
        .ok ([kvCacheConfig], { maxModelLen := 16, maxNumBatchedTokens := 16 }) ∧
      tensor ∈ kvCacheConfig.kvCacheTensors ∧ tensor.sharedBy = ["full.1"] ∧
      wideValues.pageSizeBytes = .ok pageSize ∧ tensor.size ≠ kvCacheConfig.numBlocks * pageSize := by
  constructor
  · intro h
    have hle := h { maxModelLen := 16, maxNumBatchedTokens := 16, numGpuBlocksOverride := some 5 }
      [Dict.empty.insertAll [("full.0", smallFull)]] [128] _ _ rfl 0 _ 128 rfl rfl
    revert hle
    decide
  · exact ⟨_, _, _, rfl, List.mem_cons_of_mem _ List.mem_cons_self, rfl, rfl, by decide⟩

end Yuan.Core
