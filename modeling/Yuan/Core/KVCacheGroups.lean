import Yuan.Core.KVCacheInterface
import Yuan.Lib.Strides
import Mathlib.Data.List.MinMax

/-!
# Grouping layers

`get_kv_cache_groups` puts all layers into one group when their specs can be merged or are of one type.
Otherwise the page sizes are unified, and the layers of each spec are dealt out to groups of about the
size of the smallest class. Whichever way is taken, every layer is in one group.
-/

namespace Yuan.Core

open LayerKVCacheSpec

/-- `kv_cache_spec[layer_name]`. -/
def lookupSpec (specs : Dict String LayerKVCacheSpec) (layerName : String) :
    Except PyError LayerKVCacheSpec :=
  match specs.get? layerName with
  | none => .error (.keyError layerName)
  | some spec => .ok spec

/-- One group with the merged spec of its layers. -/
def createKVCacheGroupSpec (specs : Dict String LayerKVCacheSpec) (layerNames : List String) :
    Except PyError KVCacheGroupSpec := do
  let layerSpecs ← layerNames.mapM (lookupSpec specs)
  let merged ← merge layerSpecs
  return ⟨layerNames, .layer merged⟩

def createKVCacheGroupSpecs (specs : Dict String LayerKVCacheSpec)
    (groupedLayerNames : List (List String)) : Except PyError (List KVCacheGroupSpec) :=
  groupedLayerNames.mapM (createKVCacheGroupSpec specs)

/-- `is_kv_cache_spec_uniform`: only a failed assertion counts as a no. -/
def isKVCacheSpecUniform (specs : Dict String LayerKVCacheSpec) : Except PyError Bool :=
  if specs.entries = [] then .ok true
  else
    match merge specs.values with
    | .ok _ => .ok true
    | .error (.assertionError _) => .ok false
    | .error e => .error e

/-! ## Unifying specs -/

/-- The full attention spec that takes the place of a windowed one. -/
def asFullAttention : LayerKVCacheSpec → LayerKVCacheSpec
  | .slidingWindow spec window => .fullAttention
    { toAttentionSpec := spec, headSizeV := spec.headSize, slidingWindow := some window }
  | .chunkedLocalAttention spec chunk => .fullAttention
    { toAttentionSpec := spec, headSizeV := spec.headSize, attentionChunkSize := some chunk }
  | spec => spec

def isWindowed : LayerKVCacheSpec → Bool
  | .slidingWindow _ _ | .chunkedLocalAttention _ _ => true
  | _ => false

/-- The dictionary with new specs for the same layers. -/
def withSpecs (specs : Dict String LayerKVCacheSpec)
    (convert : LayerKVCacheSpec → Except PyError LayerKVCacheSpec) :
    Except PyError (Dict String LayerKVCacheSpec) := do
  let entries ← specs.entries.mapM fun e => do return (e.1, ← convert e.2)
  return Dict.empty.insertAll entries

/-- `is_kv_cache_spec_uniform(spec) or UniformTypeKVCacheSpecs.is_uniform_type(spec)`. -/
def isUnified (specs : Dict String LayerKVCacheSpec) : Except PyError Bool := do
  if ← isKVCacheSpecUniform specs then return true
  else UniformTypeKVCacheSpecs.isUniformType specs

/-- Windowed layers next to full attention ones get full attention specs. -/
def convertHybridKVCacheSpecs (specs : Dict String LayerKVCacheSpec) :
    Except PyError (Dict String LayerKVCacheSpec) :=
  if specs.values.any isFullAttention && specs.values.any isWindowed then
    withSpecs specs fun spec => .ok (asFullAttention spec)
  else .ok specs

def unifyHybridKVCacheSpecs (specs : Dict String LayerKVCacheSpec) :
    Except PyError (Dict String LayerKVCacheSpec) := do
  if ← isUnified specs then return specs
  else do
    let unified ← convertHybridKVCacheSpecs specs
    if ← isUnified unified then return unified
    else .error (.valueError
      "Hybrid KV cache manager is disabled but failed to convert the KV cache specs to one unified type.")

/-- The block size of a layer with smaller pages grows until its page has the largest size. -/
def unifyPageSize (maxPageSize : Nat) (spec : LayerKVCacheSpec) : Except PyError LayerKVCacheSpec := do
  let layerPageSize ← spec.pageSizeBytes
  if layerPageSize = maxPageSize then return spec
  else do
    let ratio ← floorDiv maxPageSize layerPageSize
    if maxPageSize % layerPageSize ≠ 0 then
      .error (.notImplementedError
        ("The page size of the layer is not divisible by the maximum page size. " ++
          "Cannot unify by adjusting block_size."))
    else do
      let newSpec := spec.withBlockSize (spec.blockSize * ratio.toNat)
      let newPageSize ← newSpec.pageSizeBytes
      pyAssert (newPageSize = maxPageSize) ""
      return newSpec

def unifyKVCacheSpecPageSize (specs : Dict String LayerKVCacheSpec) :
    Except PyError (Dict String LayerKVCacheSpec) := do
  let pageSizes ← specs.values.mapM pageSizeBytes
  if pageSizes.dedup.length ≤ 1 then return specs
  else withSpecs specs (unifyPageSize (pageSizes.foldr max 0))

theorem UniformTypeKVCacheSpecs.fromSpecs_eq_ok {specs : Dict String LayerKVCacheSpec}
    {uniformSpec : UniformTypeKVCacheSpecs} (h : fromSpecs specs = .ok (some uniformSpec)) :
    uniformSpec.kvCacheSpecs = specs ∧ isUniformType specs = .ok true := by
  obtain ⟨uniform, huniform, h⟩ := bind_eq_ok.mp h
  split at h
  · next htrue =>
      split at h
      · cases h
      · cases h
        exact ⟨rfl, htrue ▸ huniform⟩
  · cases h

/-! ## Groups of one page size -/

/-- `same_type_layers`. -/
def sameTypeLayers (specs : Dict String LayerKVCacheSpec) : Dict LayerKVCacheSpec (List String) :=
  specs.entries.foldl (fun layers e => layers.set e.2 ((layers.get? e.2).getD [] ++ [e.1])) .empty

/-- The number of layers in a group: that of the smallest class, or that of the largest one if it is
less than `1.25` times as large. -/
def groupSizeOf (numLayers : List Nat) : Except PyError Nat :=
  match numLayers.min?, numLayers.max? with
  | some minNumLayers, some maxNumLayers =>
    .ok (if 4 * maxNumLayers < 5 * minNumLayers then maxNumLayers else minNumLayers)
  | _, _ => .error (.valueError "min() arg is an empty sequence")

/-- `layers[i::num_groups]` for every group of one class. -/
def dealLayers (groupSize : Nat) (layers : List String) : Except PyError (List (List String)) := do
  let numGroups ← ceilDiv layers.length groupSize
  return (List.range numGroups.toNat).map fun i => stride numGroups.toNat i layers

def getKVCacheGroupsUniformPageSize (specs : Dict String LayerKVCacheSpec) :
    Except PyError (List KVCacheGroupSpec) := do
  let classes := (sameTypeLayers specs).values
  let groupSize ← groupSizeOf (classes.map List.length)
  let groupedLayers ← classes.mapM (dealLayers groupSize)
  createKVCacheGroupSpecs specs groupedLayers.flatten

/-- The specs to group: those of one type if there is no hybrid KV cache manager. -/
def specsToGroup (config : VllmConfig) (specs : Dict String LayerKVCacheSpec) :
    Except PyError (Dict String LayerKVCacheSpec) :=
  if config.disableHybridKVCacheManager then unifyHybridKVCacheSpecs specs else .ok specs

/-- `get_kv_cache_groups`. -/
def getKVCacheGroups (config : VllmConfig) (specs : Dict String LayerKVCacheSpec) :
    Except PyError (List KVCacheGroupSpec) := do
  let specs ← specsToGroup config specs
  if specs.entries = [] then return []
  else if ← isKVCacheSpecUniform specs then createKVCacheGroupSpecs specs [specs.keys]
  else
    match ← UniformTypeKVCacheSpecs.fromSpecs specs with
    | some uniformSpec => return [⟨uniformSpec.kvCacheSpecs.keys, .uniformType uniformSpec⟩]
    | none => do
      let unified ← unifyKVCacheSpecPageSize specs
      getKVCacheGroupsUniformPageSize unified

/-! ## Unified specs -/

section

variable {specs specs' : Dict String LayerKVCacheSpec}
  {convert : LayerKVCacheSpec → Except PyError LayerKVCacheSpec}

/-- What unification may do to the spec of a layer. -/
def UnifiedFrom (spec spec' : LayerKVCacheSpec) : Prop :=
  ∃ blockSize, spec' = spec.withBlockSize blockSize ∨ spec' = (asFullAttention spec).withBlockSize blockSize

section

variable (spec : LayerKVCacheSpec)

theorem withBlockSize_blockSize : spec.withBlockSize spec.blockSize = spec := by
  cases spec <;> rfl

theorem unifiedFrom_refl : UnifiedFrom spec spec :=
  ⟨spec.blockSize, Or.inl (withBlockSize_blockSize spec).symm⟩

@[simp] theorem withBlockSize_withBlockSize (m n : Nat) :
    (spec.withBlockSize m).withBlockSize n = spec.withBlockSize n := by
  cases spec <;> rfl

@[simp] theorem asFullAttention_withBlockSize (n : Nat) :
    asFullAttention (spec.withBlockSize n) = (asFullAttention spec).withBlockSize n := by
  cases spec <;> rfl

@[simp] theorem asFullAttention_asFullAttention : asFullAttention (asFullAttention spec) = asFullAttention spec := by
  cases spec <;> rfl

end

theorem UnifiedFrom.trans {a b c : LayerKVCacheSpec} (h : UnifiedFrom a b) (h' : UnifiedFrom b c) :
    UnifiedFrom a c := by
  obtain ⟨m, rfl | rfl⟩ := h
  · obtain ⟨n, rfl | rfl⟩ := h'
    · exact ⟨n, Or.inl (by simp)⟩
    · exact ⟨n, Or.inr (by simp)⟩
  · obtain ⟨n, rfl | rfl⟩ := h'
    · exact ⟨n, Or.inr (by simp)⟩
    · exact ⟨n, Or.inr (by simp)⟩

/-- The same layers with unified specs. -/
structure Unified (specs specs' : Dict String LayerKVCacheSpec) : Prop where
  keys : specs'.keys = specs.keys
  unifiedFrom : ∀ name spec spec', specs.get? name = some spec → specs'.get? name = some spec' →
    UnifiedFrom spec spec'

theorem Unified.refl (specs : Dict String LayerKVCacheSpec) : Unified specs specs := by
  refine ⟨rfl, ?_⟩
  intro name spec spec' h h'
  rw [h] at h'
  cases h'
  exact unifiedFrom_refl spec

theorem Unified.trans {a b c : Dict String LayerKVCacheSpec} (h : Unified a b) (h' : Unified b c) : Unified a c := by
  refine ⟨h'.keys.trans h.keys, ?_⟩
  intro name spec spec'' hspec hspec''
  have hmem : name ∈ b.keys := by
    rw [h.keys, ← Dict.isSome_get?, hspec]
    rfl
  obtain ⟨spec', hspec'⟩ := Option.isSome_iff_exists.mp (Dict.isSome_get?.mpr hmem)
  exact (h.unifiedFrom name spec spec' hspec hspec').trans
    (h'.unifiedFrom name spec' spec'' hspec' hspec'')

theorem map_fst_of_forall₂ {l l' : List (String × LayerKVCacheSpec)}
    (h : List.Forall₂ (fun e e' => e'.1 = e.1 ∧ convert e.2 = .ok e'.2) l l') : l'.map Prod.fst = l.map Prod.fst := by
  induction h with
  | nil => rfl
  | cons he _ ih => rw [List.map_cons, List.map_cons, ih, he.1]

section

variable (h : withSpecs specs convert = .ok specs')
include h

theorem entries_withSpecs :
    List.Forall₂ (fun e e' => e'.1 = e.1 ∧ convert e.2 = .ok e'.2) specs.entries specs'.entries := by
  obtain ⟨entries, hentries, hok⟩ := bind_eq_ok.mp h
  cases hok
  have hforall : List.Forall₂ (fun e e' : String × LayerKVCacheSpec =>
      e'.1 = e.1 ∧ convert e.2 = .ok e'.2) specs.entries entries := by
    apply (mapM_eq_ok.mp hentries).imp
    intro e e' he
    obtain ⟨spec', hspec', hok⟩ := bind_eq_ok.mp he
    cases hok
    exact ⟨rfl, hspec'⟩
  have hnodup : (entries.map Prod.fst).Nodup := map_fst_of_forall₂ hforall ▸ specs.nodup
  rw [Dict.entries_insertAll_empty hnodup]
  exact hforall

theorem keys_withSpecs : specs'.keys = specs.keys :=
  map_fst_of_forall₂ (entries_withSpecs h)

/-- Every layer's new spec is its old one converted. -/
theorem get?_withSpecs {name : String} {spec spec' : LayerKVCacheSpec} (hspec : specs.get? name = some spec)
    (hspec' : specs'.get? name = some spec') : convert spec = .ok spec' := by
  have hforall := entries_withSpecs h
  have hmem := Dict.get?_eq_some.mp hspec
  have hmem' := Dict.get?_eq_some.mp hspec'
  obtain ⟨i, hi, hget⟩ := List.mem_iff_getElem.mp hmem
  have hi' : i < specs'.entries.length := hforall.length_eq ▸ hi
  obtain ⟨hname, hconvert⟩ := hforall.get hi hi'
  have hsame : specs'.entries.get ⟨i, hi'⟩ = (name, spec') := by
    apply List.inj_on_of_nodup_map specs'.nodup (List.get_mem _ _) hmem'
    rw [hname]
    show specs.entries[i].1 = name
    rw [hget]
  rw [hsame] at hconvert
  have hfirst : specs.entries.get ⟨i, hi⟩ = (name, spec) := hget
  rw [hfirst] at hconvert
  exact hconvert

theorem Unified.ofWithSpecs (hconvert : ∀ spec spec', convert spec = .ok spec' → UnifiedFrom spec spec') :
    Unified specs specs' :=
  ⟨keys_withSpecs h, fun _ spec spec' hspec hspec' =>
    hconvert spec spec' (get?_withSpecs h hspec hspec')⟩

end

theorem convertHybridKVCacheSpecs_eq_ok (h : convertHybridKVCacheSpecs specs = .ok specs') : Unified specs specs' := by
  unfold convertHybridKVCacheSpecs at h
  split at h
  · apply Unified.ofWithSpecs h
    intro spec spec' hok
    cases hok
    exact ⟨(asFullAttention spec).blockSize, Or.inr (withBlockSize_blockSize _).symm⟩
  · cases h
    exact Unified.refl specs

theorem unifyHybridKVCacheSpecs_eq_ok (h : unifyHybridKVCacheSpecs specs = .ok specs') : Unified specs specs' := by
  obtain ⟨unified, -, h⟩ := bind_eq_ok.mp h
  split at h
  · cases h
    exact Unified.refl specs
  · obtain ⟨converted, hconverted, h⟩ := bind_eq_ok.mp h
    obtain ⟨uniform, -, h⟩ := bind_eq_ok.mp h
    split at h
    · cases h
      exact convertHybridKVCacheSpecs_eq_ok hconverted
    · cases h

theorem unifyPageSize_eq_ok {maxPageSize : Nat} {spec spec' : LayerKVCacheSpec}
    (h : unifyPageSize maxPageSize spec = .ok spec') : UnifiedFrom spec spec' := by
  obtain ⟨layerPageSize, -, h⟩ := bind_eq_ok.mp h
  split at h
  · cases h
    exact unifiedFrom_refl spec
  · obtain ⟨ratio, -, h⟩ := bind_eq_ok.mp h
    split at h
    · cases h
    · obtain ⟨newPageSize, -, h⟩ := bind_eq_ok.mp h
      obtain ⟨-, -, h⟩ := bind_eq_ok.mp h
      cases h
      exact ⟨_, Or.inl rfl⟩

theorem unifyKVCacheSpecPageSize_eq_ok (h : unifyKVCacheSpecPageSize specs = .ok specs') : Unified specs specs' := by
  obtain ⟨pageSizes, -, h⟩ := bind_eq_ok.mp h
  split at h
  · cases h
    exact Unified.refl specs
  · exact Unified.ofWithSpecs h fun _ _ hok => unifyPageSize_eq_ok hok

end

/-! ## Every layer in one group -/

theorem sameTypeLayers_perm (specs : Dict String LayerKVCacheSpec) :
    (sameTypeLayers specs).values.flatten.Perm specs.keys := by
  suffices hfold : ∀ (entries : List (String × LayerKVCacheSpec))
      (layers : Dict LayerKVCacheSpec (List String)),
      (entries.foldl (fun layers e => layers.set e.2 ((layers.get? e.2).getD [] ++ [e.1]))
        layers).values.flatten.Perm (layers.values.flatten ++ entries.map Prod.fst) by
    exact hfold specs.entries .empty
  intro entries
  induction entries with
  | nil =>
    intro layers
    rw [List.map_nil, List.append_nil]
    exact List.Perm.refl _
  | cons e entries ih =>
    intro layers
    refine (ih _).trans ?_
    refine ((layers.flatten_values_append_perm e.2 e.1).append_right _).trans ?_
    rw [List.append_assoc]
    exact List.Perm.refl _

theorem dealLayers_perm {groupSize : Nat} {layers : List String} {groups : List (List String)}
    (h : dealLayers groupSize layers = .ok groups) : groups.flatten.Perm layers := by
  obtain ⟨numGroups, hnum, hok⟩ := bind_eq_ok.mp h
  cases hok
  obtain ⟨hne, rfl⟩ := ceilDiv_eq_ok hnum
  have hpos : (0 : Int) < groupSize := by omega
  cases layers with
  | nil =>
    exact List.Perm.refl _
  | cons name layers =>
    apply flatMap_stride_perm
    have hle : (1 : Int) ≤ cdiv ((name :: layers).length : Int) groupSize := by
      rw [cdiv_eq hpos, Int.le_ediv_iff_mul_le hpos, List.length_cons]
      omega
    omega

theorem flatten_dealLayers_perm {groupSize : Nat} {classes : List (List String)}
    {grouped : List (List (List String))} (h : classes.mapM (dealLayers groupSize) = .ok grouped) :
    grouped.flatten.flatten.Perm classes.flatten := by
  have hforall := mapM_eq_ok.mp h
  clear h
  induction hforall with
  | nil => exact List.Perm.refl _
  | cons hdeal _ ih =>
    rw [List.flatten_cons, List.flatten_append]
    exact (dealLayers_perm hdeal).append ih

/-- The specs of the group's layers can be put under one spec, and the group has this spec. -/
def KVCacheGroupSpec.MergedFrom (specs : Dict String LayerKVCacheSpec) (group : KVCacheGroupSpec) :
    Prop :=
  match group.kvCacheSpec with
  | .layer merged => ∃ layerSpecs, group.layerNames.mapM (lookupSpec specs) = .ok layerSpecs ∧
      merge layerSpecs = .ok merged
  | .uniformType uniformSpec => uniformSpec.kvCacheSpecs = specs ∧ group.layerNames = specs.keys ∧
      UniformTypeKVCacheSpecs.isUniformType specs = .ok true

/-- The group has one spec for all its layers. -/
def KVCacheGroupSpec.HasLayerSpec (group : KVCacheGroupSpec) : Prop :=
  ∃ spec, group.kvCacheSpec = .layer spec

/-- Every layer is in one group, whose layers have mergeable specs. A group with a spec for each of its
layers is the only one. -/
structure Grouped (specs : Dict String LayerKVCacheSpec) (groups : List KVCacheGroupSpec) : Prop where
  layers : (groups.flatMap KVCacheGroupSpec.layerNames).Perm specs.keys
  merged : ∀ group ∈ groups, group.MergedFrom specs
  single : groups.length ≤ 1 ∨ ∀ group ∈ groups, group.HasLayerSpec

section

variable {specs : Dict String LayerKVCacheSpec} {groups : List KVCacheGroupSpec}

theorem grouped_createKVCacheGroupSpecs {groupedLayerNames : List (List String)}
    (h : createKVCacheGroupSpecs specs groupedLayerNames = .ok groups)
    (hperm : groupedLayerNames.flatten.Perm specs.keys) : Grouped specs groups := by
  have hforall := mapM_eq_ok.mp h
  have hnames : groups.map KVCacheGroupSpec.layerNames = groupedLayerNames := by
    clear hperm h
    induction hforall with
    | nil => rfl
    | cons hgroup _ ih =>
      obtain ⟨layerSpecs, -, hgroup⟩ := bind_eq_ok.mp hgroup
      obtain ⟨merged, -, hgroup⟩ := bind_eq_ok.mp hgroup
      cases hgroup
      rw [List.map_cons, ih]
  have hmerged : ∀ group ∈ groups, group.MergedFrom specs ∧ group.HasLayerSpec := by
    intro group hmem
    obtain ⟨layerNames, -, hgroup⟩ := exists_of_mem_of_forall₂ hforall hmem
    obtain ⟨layerSpecs, hspecs, hgroup⟩ := bind_eq_ok.mp hgroup
    obtain ⟨merged, hmerged, hgroup⟩ := bind_eq_ok.mp hgroup
    cases hgroup
    exact ⟨⟨layerSpecs, hspecs, hmerged⟩, merged, rfl⟩
  refine ⟨?_, fun group hmem => (hmerged group hmem).1, Or.inr fun group hmem => (hmerged group hmem).2⟩
  rw [List.flatMap_def, hnames]
  exact hperm

theorem getKVCacheGroupsUniformPageSize_eq_ok
    (h : getKVCacheGroupsUniformPageSize specs = .ok groups) : Grouped specs groups := by
  obtain ⟨groupSize, -, h⟩ := bind_eq_ok.mp h
  obtain ⟨grouped, hgrouped, h⟩ := bind_eq_ok.mp h
  exact grouped_createKVCacheGroupSpecs h
    ((flatten_dealLayers_perm hgrouped).trans (sameTypeLayers_perm specs))

/-- Whichever way the layers are grouped, every layer is in one group of layers that can be merged. -/
theorem getKVCacheGroups_eq_ok {config : VllmConfig} (h : getKVCacheGroups config specs = .ok groups) :
    ∃ unified, Unified specs unified ∧ Grouped unified groups := by
  obtain ⟨first, hfirst, h⟩ := bind_eq_ok.mp h
  have hunified : Unified specs first := by
    unfold specsToGroup at hfirst
    split at hfirst
    · exact unifyHybridKVCacheSpecs_eq_ok hfirst
    · cases hfirst
      exact Unified.refl specs
  split at h
  · next hnil =>
      cases h
      refine ⟨first, hunified, ?_, nofun, Or.inl (Nat.zero_le _)⟩
      rw [List.flatMap_nil, Dict.keys, hnil]
      exact List.Perm.refl _
  · obtain ⟨uniform, -, h⟩ := bind_eq_ok.mp h
    split at h
    · refine ⟨first, hunified, grouped_createKVCacheGroupSpecs h ?_⟩
      rw [List.flatten_singleton]
    · obtain ⟨uniformSpec, huniform, h⟩ := bind_eq_ok.mp h
      split at h
      · next uniformSpec =>
          cases h
          obtain ⟨hspecs, htype⟩ := UniformTypeKVCacheSpecs.fromSpecs_eq_ok huniform
          refine ⟨first, hunified, ?_, ?_, Or.inl (le_refl _)⟩
          · rw [List.flatMap_singleton, hspecs]
          · intro group hgroup
            rw [List.mem_singleton] at hgroup
            subst hgroup
            exact ⟨hspecs, by rw [hspecs], htype⟩
      · obtain ⟨unified, hpages, h⟩ := bind_eq_ok.mp h
        exact ⟨unified, hunified.trans (unifyKVCacheSpecPageSize_eq_ok hpages),
          getKVCacheGroupsUniformPageSize_eq_ok h⟩

end

end Yuan.Core
