import Yuan.Lib.Dict
import Yuan.Lib.Py

/-!
# The KV cache format of layers

Each attention or mamba layer of a model has a spec of its KV cache. Layers whose specs can be merged
form a group with one spec; a group whose layers differ only in their sizes keeps one spec for each.
-/

namespace Yuan.Core

/-- An element type, with the bytes of one element. -/
structure DType where
  name : String
  itemsize : Nat
  deriving DecidableEq, Repr

inductive MambaCacheMode where
  | none
  | all
  | align
  deriving DecidableEq, Repr

/-- What the KV cache computations read of the configuration. -/
structure VllmConfig where
  maxModelLen : Nat
  /-- `original_max_model_len == -1`: the length is to be fitted to the memory. -/
  autoFitMaxModelLen : Bool := false
  decodeContextParallelSize : Nat := 1
  prefillContextParallelSize : Nat := 1
  maxNumBatchedTokens : Nat
  maxNumEncoderInputTokens : Nat := 0
  mambaCacheMode : MambaCacheMode := .none
  numGpuBlocksOverride : Option Nat := none
  disableHybridKVCacheManager : Bool := false

structure AttentionSpec where
  blockSize : Nat
  numKVHeads : Nat
  headSize : Nat
  dtype : DType
  pageSizePadded : Option Nat := none
  deriving DecidableEq, Repr

structure FullAttentionSpec extends AttentionSpec where
  headSizeV : Nat
  slidingWindow : Option Nat := none
  attentionChunkSize : Option Nat := none
  deriving DecidableEq, Repr

structure MambaSpec where
  blockSize : Nat
  shapes : List (List Nat)
  dtypes : List DType
  pageSizePadded : Option Nat := none
  mambaType : String := "mamba2"
  mambaCacheMode : MambaCacheMode := .none
  numSpeculativeBlocks : Nat := 0
  deriving DecidableEq, Repr

/-- The spec of one layer. -/
inductive LayerKVCacheSpec where
  | fullAttention (spec : FullAttentionSpec)
  | mlaAttention (spec : FullAttentionSpec) (cacheDtypeStr : Option String)
  | sinkFullAttention (spec : FullAttentionSpec) (sinkLen : Option Nat)
  | chunkedLocalAttention (spec : AttentionSpec) (attentionChunkSize : Nat)
  | slidingWindow (spec : AttentionSpec) (slidingWindow : Nat)
  | mamba (spec : MambaSpec)
  | encoderOnlyAttention (spec : AttentionSpec)
  | crossAttention (spec : AttentionSpec)
  deriving DecidableEq, Repr

namespace LayerKVCacheSpec

/-- The fields of `FullAttentionSpec`, for it and its subclasses. -/
def full? : LayerKVCacheSpec → Option FullAttentionSpec
  | .fullAttention spec | .mlaAttention spec _ | .sinkFullAttention spec _ => some spec
  | _ => none

/-- `isinstance(spec, FullAttentionSpec)`. -/
def isFullAttention (s : LayerKVCacheSpec) : Bool := s.full?.isSome

/-- `isinstance(spec, MLAAttentionSpec)`. -/
def isMLAAttention : LayerKVCacheSpec → Bool
  | .mlaAttention _ _ => true
  | _ => false

def blockSize : LayerKVCacheSpec → Nat
  | .fullAttention spec | .mlaAttention spec _ | .sinkFullAttention spec _ => spec.blockSize
  | .chunkedLocalAttention spec _ | .slidingWindow spec _ | .encoderOnlyAttention spec
  | .crossAttention spec => spec.blockSize
  | .mamba spec => spec.blockSize

/-- `replace(spec, block_size=block_size)`. -/
def withBlockSize (blockSize : Nat) : LayerKVCacheSpec → LayerKVCacheSpec
  | .fullAttention spec => .fullAttention { spec with blockSize }
  | .mlaAttention spec cacheDtypeStr => .mlaAttention { spec with blockSize } cacheDtypeStr
  | .sinkFullAttention spec sinkLen => .sinkFullAttention { spec with blockSize } sinkLen
  | .chunkedLocalAttention spec chunk => .chunkedLocalAttention { spec with blockSize } chunk
  | .slidingWindow spec window => .slidingWindow { spec with blockSize } window
  | .mamba spec => .mamba { spec with blockSize }
  | .encoderOnlyAttention spec => .encoderOnlyAttention { spec with blockSize }
  | .crossAttention spec => .crossAttention { spec with blockSize }

end LayerKVCacheSpec

/-! ## Page sizes -/

def AttentionSpec.realPageSizeBytes (spec : AttentionSpec) : Nat :=
  2 * spec.blockSize * spec.numKVHeads * spec.headSize * spec.dtype.itemsize

def FullAttentionSpec.realPageSizeBytes (spec : FullAttentionSpec) : Nat :=
  spec.blockSize * spec.numKVHeads * (spec.headSize + spec.headSizeV) * spec.dtype.itemsize

namespace LayerKVCacheSpec

/-- The size of a page before it is padded, and the size it is padded to. -/
def pageSizes : LayerKVCacheSpec → Nat × Option Nat
  | .fullAttention spec | .sinkFullAttention spec _ => (spec.realPageSizeBytes, spec.pageSizePadded)
  | .mlaAttention spec cacheDtypeStr =>
    (if cacheDtypeStr = some "fp8_ds_mla" then spec.blockSize * 656
      else spec.blockSize * spec.numKVHeads * spec.headSize * spec.dtype.itemsize,
      spec.pageSizePadded)
  | .chunkedLocalAttention spec _ | .slidingWindow spec _ | .encoderOnlyAttention spec
  | .crossAttention spec => (spec.realPageSizeBytes, spec.pageSizePadded)
  | .mamba spec =>
    ((List.zipWith (fun shape dtype => shape.prod * dtype.itemsize) spec.shapes spec.dtypes).sum,
      spec.pageSizePadded)

def pageSizeBytes (s : LayerKVCacheSpec) : Except PyError Nat :=
  match s.pageSizes with
  | (pageSize, none) => .ok pageSize
  | (pageSize, some padded) => do
    pyAssert (pageSize ≤ padded) ""
    return padded

/-- As many pages as hold some tokens, in bytes. -/
def pagesFor (s : LayerKVCacheSpec) (numTokens : Nat) (extraPages : Nat) : Except PyError Int := do
  let numPages ← ceilDiv numTokens s.blockSize
  let pageSize ← s.pageSizeBytes
  return (numPages + extraPages) * pageSize

/-- `max_memory_usage_bytes`. -/
def maxMemoryUsageBytes (config : VllmConfig) (s : LayerKVCacheSpec) : Except PyError Int :=
  let contextParallel := config.decodeContextParallelSize * config.prefillContextParallelSize
  match s with
  | .fullAttention _ | .mlaAttention _ _ | .sinkFullAttention _ _ =>
    if contextParallel > 1 then
      s.pagesFor (cdiv config.maxModelLen contextParallel).toNat 0
    else s.pagesFor config.maxModelLen 0
  | .chunkedLocalAttention _ chunk =>
    s.pagesFor (min (chunk + config.maxNumBatchedTokens) config.maxModelLen) 0
  | .slidingWindow _ window => do
    pyAssert (config.decodeContextParallelSize = 1) "DCP not support sliding window."
    -- one more page: a window may start in the middle of a block
    s.pagesFor (min (window + config.maxNumBatchedTokens - 1) config.maxModelLen) 1
  | .mamba spec => do
    match config.mambaCacheMode with
    | .all => s.pagesFor config.maxModelLen 0
    | .align => return (← s.pageSizeBytes) * (2 + spec.numSpeculativeBlocks)
    | .none => return (← s.pageSizeBytes) * (1 + spec.numSpeculativeBlocks)
  | .encoderOnlyAttention _ => .ok 0
  | .crossAttention _ => s.pagesFor config.maxNumEncoderInputTokens 0

/-! ## Merging -/

/-- `merge_window_sizes`. -/
def mergeWindowSizes (windowSizes : List Nat) : Except PyError (Option Nat) :=
  match windowSizes.dedup with
  | [] => .ok none
  | [windowSize] => .ok (some windowSize)
  | _ => .error (.valueError
      "All attention layers in the same KV cache group must have the same window size.")

/-- The merged fields of `FullAttentionSpec`; the head size of the values is not compared. -/
def mergeFullAttention (head : FullAttentionSpec) (specs : List LayerKVCacheSpec) :
    Except PyError FullAttentionSpec := do
  pyAssert (specs.all isFullAttention)
    "All attention layers in the same KV cache group must be FullAttentionSpec."
  pyAssert (!specs.any isMLAAttention) "MLAAttentionSpec should be merged in MLAAttentionSpec.merge"
  let slidingWindow ← mergeWindowSizes
    (specs.filterMap fun s => s.full?.bind FullAttentionSpec.slidingWindow)
  let attentionChunkSize ← mergeWindowSizes
    (specs.filterMap fun s => s.full?.bind FullAttentionSpec.attentionChunkSize)
  pyAssert (specs.all fun s => s.full?.map (·.toAttentionSpec) = some head.toAttentionSpec)
    "All attention layers in the same KV cache group must have the same attention spec."
  pyAssert (!(slidingWindow.isSome && attentionChunkSize.isSome))
    "Model with both sliding window layers and chunked local attention layers is not supported."
  return { head with slidingWindow, attentionChunkSize }

def cacheDtypeStr? : LayerKVCacheSpec → Option (Option String)
  | .mlaAttention _ cacheDtypeStr => some cacheDtypeStr
  | _ => none

/-- `merge`, as the class of the first spec defines it. -/
def merge (specs : List LayerKVCacheSpec) : Except PyError LayerKVCacheSpec :=
  match specs with
  | [] => .error (.indexError "list index out of range")
  | .fullAttention head :: _ => do
    return .fullAttention (← mergeFullAttention head specs)
  | .sinkFullAttention head sinkLen :: _ => do
    return .sinkFullAttention (← mergeFullAttention head specs) sinkLen
  | .mlaAttention head cacheDtypeStr :: _ => do
    pyAssert (specs.all isMLAAttention)
      "All attention layers in the same KV cache group must be MLAAttentionSpec."
    pyAssert ((specs.filterMap cacheDtypeStr?).dedup.length = 1)
      "All attention layers in the same KV cache group must use the same quantization method."
    return .mlaAttention { toAttentionSpec := head.toAttentionSpec, headSizeV := head.headSize }
      cacheDtypeStr
  | head :: _ => do
    pyAssert (specs.all (· = head)) "All layers in the same KV cache group must be the same."
    return head

end LayerKVCacheSpec

/-! ## Groups -/

/-- Layers of one type with different sizes, each with its own spec. -/
structure UniformTypeKVCacheSpecs where
  blockSize : Nat
  kvCacheSpecs : Dict String LayerKVCacheSpec

namespace UniformTypeKVCacheSpecs

def pageSizeBytes (spec : UniformTypeKVCacheSpecs) : Except PyError Nat := do
  let pageSizes ← spec.kvCacheSpecs.values.mapM LayerKVCacheSpec.pageSizeBytes
  return pageSizes.sum

/-- The pages that one layer needs. -/
def maxNumPages (config : VllmConfig) (s : LayerKVCacheSpec) : Except PyError Int := do
  let memory ← s.maxMemoryUsageBytes config
  ceilDiv memory (← s.pageSizeBytes)

def maxMemoryUsageBytes (config : VllmConfig) (spec : UniformTypeKVCacheSpecs) :
    Except PyError Int := do
  let numPages ← spec.kvCacheSpecs.values.mapM (maxNumPages config)
  match numPages.max? with
  | none => .error (.valueError "max() arg is an empty sequence")
  | some maxNumPages => return maxNumPages * (← spec.pageSizeBytes)

/-- Whether a layer has the type of the first one. -/
def sameType : LayerKVCacheSpec → LayerKVCacheSpec → Except PyError Bool
  | .fullAttention _, s | .mlaAttention _ _, s | .sinkFullAttention _ _, s => .ok s.isFullAttention
  | .crossAttention _, .crossAttention _ => .ok true
  | .slidingWindow _ w, .slidingWindow _ w' => .ok (w' = w)
  | .chunkedLocalAttention _ c, .chunkedLocalAttention _ c' => .ok (c' = c)
  | .mamba spec, .mamba spec' => .ok (spec'.numSpeculativeBlocks = spec.numSpeculativeBlocks)
  | .encoderOnlyAttention _, _ => .error (.notImplementedError "Unsupported KV cache spec type")
  | _, _ => .ok false

/-- `is_uniform_type`. -/
def isUniformType (kvCacheSpecs : Dict String LayerKVCacheSpec) : Except PyError Bool :=
  match kvCacheSpecs.values with
  | [] => .error (.runtimeError "StopIteration")
  | oneSpec :: rest =>
    if (oneSpec :: rest).any fun s => s.blockSize ≠ oneSpec.blockSize then .ok false
    else do
      let same ← (oneSpec :: rest).mapM (sameType oneSpec)
      return same.all id

/-- `from_specs`. -/
def fromSpecs (kvCacheSpecs : Dict String LayerKVCacheSpec) :
    Except PyError (Option UniformTypeKVCacheSpecs) := do
  if ← isUniformType kvCacheSpecs then
    match kvCacheSpecs.values with
    | [] => .error (.runtimeError "StopIteration")
    | oneSpec :: _ => return some ⟨oneSpec.blockSize, kvCacheSpecs⟩
  else return none

end UniformTypeKVCacheSpecs

/-- The spec of a group: one for all its layers, or one for each. -/
inductive GroupKVCacheSpec where
  | layer (spec : LayerKVCacheSpec)
  | uniformType (spec : UniformTypeKVCacheSpecs)

namespace GroupKVCacheSpec

def pageSizeBytes : GroupKVCacheSpec → Except PyError Nat
  | .layer spec => spec.pageSizeBytes
  | .uniformType spec => spec.pageSizeBytes

def maxMemoryUsageBytes (config : VllmConfig) : GroupKVCacheSpec → Except PyError Int
  | .layer spec => spec.maxMemoryUsageBytes config
  | .uniformType spec => spec.maxMemoryUsageBytes config

/-- The page size of one layer of the group. -/
def pageSizeOf : GroupKVCacheSpec → String → Except PyError Nat
  | .layer spec, _ => spec.pageSizeBytes
  | .uniformType spec, layerName =>
    match spec.kvCacheSpecs.get? layerName with
    | none => .error (.keyError layerName)
    | some layerSpec => layerSpec.pageSizeBytes

end GroupKVCacheSpec

structure KVCacheGroupSpec where
  layerNames : List String
  kvCacheSpec : GroupKVCacheSpec

structure KVCacheTensor where
  size : Int
  sharedBy : List String
  deriving DecidableEq, Repr

structure KVCacheConfig where
  numBlocks : Int
  kvCacheTensors : List KVCacheTensor
  kvCacheGroups : List KVCacheGroupSpec

end Yuan.Core
