import Yuan.Core.KVCacheGroups

/-!
# KV cache configurations of the workers

The groups of the whole model are projected to each worker. If its memory is enough for a request of
the maximal length, a worker gets as many blocks as fit, in tensors that are shared by one layer of each
group. In the end every worker gets the smallest number of blocks, and its tensors shrink accordingly.
-/

namespace Yuan.Core

/-! ## The number of blocks -/

/-- `may_override_num_blocks`. -/
def mayOverrideNumBlocks (config : VllmConfig) (numBlocks : Int) : Int :=
  match config.numGpuBlocksOverride with
  | none => numBlocks
  | some numGpuBlocksOverride => numGpuBlocksOverride

def getNumBlocks (config : VllmConfig) (numLayers : Nat) (availableMemory : Int) (pageSize : Nat) :
    Except PyError Int := do
  let numPages ← floorDiv availableMemory pageSize
  let numBlocks ← floorDiv numPages numLayers
  return mayOverrideNumBlocks config (max numBlocks 0)

def getUniformPageSize (specs : List GroupKVCacheSpec) : Except PyError Nat := do
  let pageSizes ← specs.mapM GroupKVCacheSpec.pageSizeBytes
  match pageSizes.dedup with
  | [pageSize] => return pageSize
  | _ => .error (.assertionError "")

/-- The number of layers in the largest group. -/
def largestGroup (groups : List KVCacheGroupSpec) : Nat :=
  (groups.map fun group => group.layerNames.length).foldr max 0

/-! ## The memory check -/

/-- `_max_memory_usage_bytes_from_groups`. -/
def maxMemoryUsageBytesFromGroups (config : VllmConfig) : List KVCacheGroupSpec → Except PyError Int
  | [] => .ok 0
  | [⟨_, .uniformType spec⟩] => do
    let memory ← spec.kvCacheSpecs.values.mapM (LayerKVCacheSpec.maxMemoryUsageBytes config)
    return memory.sum
  | anyGroup :: groups => do
    let groupSize := largestGroup (anyGroup :: groups)
    let pageSize ← getUniformPageSize ((anyGroup :: groups).map KVCacheGroupSpec.kvCacheSpec)
    -- the blocks of the first group stand for all of them
    let memory ← anyGroup.kvCacheSpec.maxMemoryUsageBytes config
    let blocksNeeded ← ceilDiv memory pageSize
    return groupSize * pageSize * blocksNeeded

/-- Whether a request of some length fits. -/
def fitsInMemory (config : VllmConfig) (groups : List KVCacheGroupSpec) (availableMemory : Int)
    (modelLen : Nat) : Except PyError Bool := do
  let memory ← maxMemoryUsageBytesFromGroups { config with maxModelLen := modelLen } groups
  return memory ≤ availableMemory

/-- The binary search for the largest length that fits. The first argument bounds its turns. -/
def estimateLoop (fits : Nat → Except PyError Bool) : Nat → Nat → Nat → Nat → Except PyError Nat
  | 0, _, _, result => .ok result
  | turns + 1, left, right, result =>
    if left ≤ right then do
      let mid := (left + right) / 2
      if ← fits mid then estimateLoop fits turns (mid + 1) right mid
      else estimateLoop fits turns left (mid - 1) result
    else .ok result

/-- `_estimate_max_model_len_from_groups`. -/
def estimateMaxModelLenFromGroups (config : VllmConfig) (groups : List KVCacheGroupSpec)
    (availableMemory : Int) : Except PyError Nat := do
  if ← fitsInMemory config groups availableMemory 1 then
    estimateLoop (fitsInMemory config groups availableMemory) config.maxModelLen 1 config.maxModelLen 1
  else return 0

/-- The largest length that fits on all workers, if that is less than the first argument. -/
def autoFitLoop (config : VllmConfig) : Nat → List (List KVCacheGroupSpec × Int) → Except PyError Nat
  | autoFitMax, [] => .ok autoFitMax
  | autoFitMax, ([], _) :: workers => autoFitLoop config autoFitMax workers
  | autoFitMax, (groups, availableMemory) :: workers => do
    let workerMax ← estimateMaxModelLenFromGroups config groups availableMemory
    autoFitLoop config (min workerMax autoFitMax) workers

/-- `_auto_fit_max_model_len`, with the changed configuration as its result. -/
def autoFitMaxModelLen (config : VllmConfig) (projected : List (List KVCacheGroupSpec))
    (availableMemory : List Int) : Except PyError VllmConfig :=
  if projected.all List.isEmpty then .ok config
  else do
    let autoFitMax ← autoFitLoop config config.maxModelLen (projected.zip availableMemory)
    if autoFitMax = 0 then
      .error (.valueError ("Cannot auto-fit max_model_len: not enough GPU memory available " ++
        "to serve even a single token. Try increasing `gpu_memory_utilization`."))
    else return { config with maxModelLen := autoFitMax }

/-- `_check_enough_kv_cache_memory`; the message is without the amounts in GiB. -/
def checkEnoughKVCacheMemory (config : VllmConfig) (groups : List KVCacheGroupSpec)
    (availableMemory : Int) : Except PyError Unit :=
  if availableMemory ≤ 0 then
    .error (.valueError ("No available memory for the cache blocks. " ++
      "Try increasing `gpu_memory_utilization` when initializing the engine. " ++
      "See https://docs.vllm.ai/en/latest/configuration/conserving_memory/ for more details."))
  else do
    let neededMemory ← maxMemoryUsageBytesFromGroups config groups
    if neededMemory > availableMemory then do
      let estimatedMaxLen ← estimateMaxModelLenFromGroups config groups availableMemory
      .error (.valueError ("To serve at least one request with the models's max seq len (" ++
        toString config.maxModelLen ++ "), more KV cache memory is needed than is available. " ++
        (if 0 < estimatedMaxLen then "Based on the available memory, the estimated maximum model " ++
          "length is " ++ toString estimatedMaxLen ++ ". " else "") ++
        "Try increasing `gpu_memory_utilization` or decreasing `max_model_len` " ++
        "when initializing the engine. " ++
        "See https://docs.vllm.ai/en/latest/configuration/conserving_memory/ for more details."))
    else return ()

/-- The check of every worker that has groups. -/
def checkWorkers (config : VllmConfig) : List (List KVCacheGroupSpec × Int) → Except PyError Unit
  | [] => .ok ()
  | ([], _) :: workers => checkWorkers config workers
  | (groups, availableMemory) :: workers => do
    checkEnoughKVCacheMemory config groups availableMemory
    checkWorkers config workers

/-! ## The configuration of a worker -/

/-- `get_kv_cache_config_from_groups`. -/
def getKVCacheConfigFromGroups (config : VllmConfig) (groups : List KVCacheGroupSpec)
    (availableMemory : Int) : Except PyError KVCacheConfig :=
  match groups with
  | [] => .ok ⟨1, [], []⟩
  | [⟨layerNames, .uniformType spec⟩] => do
    let pageSize ← spec.pageSizeBytes
    let numBlocks ← floorDiv availableMemory pageSize
    let numBlocks := mayOverrideNumBlocks config numBlocks
    let kvCacheTensors ← layerNames.mapM fun layerName => do
      let layerSpec ← lookupSpec spec.kvCacheSpecs layerName
      let layerPageSize ← layerSpec.pageSizeBytes
      return { size := layerPageSize * numBlocks, sharedBy := [layerName] }
    return ⟨numBlocks, kvCacheTensors, groups⟩
  | _ => do
    let groupSize := largestGroup groups
    let pageSize ← getUniformPageSize (groups.map KVCacheGroupSpec.kvCacheSpec)
    pyAssert (0 < groupSize) "group_size must be greater than 0"
    let numBlocks ← getNumBlocks config groupSize availableMemory pageSize
    let kvCacheTensors := (List.range groupSize).map fun i =>
      { size := pageSize * numBlocks, sharedBy := column (groups.map KVCacheGroupSpec.layerNames) i }
    return ⟨numBlocks, kvCacheTensors, groups⟩

/-- The group with the layers of one worker only. -/
def projectGroup (workerSpec : Dict String LayerKVCacheSpec) (group : KVCacheGroupSpec) :
    Except PyError KVCacheGroupSpec :=
  let workerLayerNames := group.layerNames.filter fun layerName => workerSpec.contains layerName
  match workerLayerNames, group.kvCacheSpec with
  | _ :: _, .uniformType spec => do
    let entries ← workerLayerNames.mapM fun layerName => do
      return (layerName, ← lookupSpec spec.kvCacheSpecs layerName)
    return ⟨workerLayerNames, .uniformType ⟨spec.blockSize, Dict.empty.insertAll entries⟩⟩
  | _, groupSpec => .ok ⟨workerLayerNames, groupSpec⟩

/-- `_project_kv_cache_groups_to_worker`. -/
def projectKVCacheGroupsToWorker (globalKVCacheGroups : List KVCacheGroupSpec)
    (workerSpec : Dict String LayerKVCacheSpec) : Except PyError (List KVCacheGroupSpec) :=
  globalKVCacheGroups.mapM (projectGroup workerSpec)

/-! ## All workers -/

/-- The specs of one more worker. -/
def mergeWorkerSpecs (merged : Dict String LayerKVCacheSpec) :
    List (String × LayerKVCacheSpec) → Except PyError (Dict String LayerKVCacheSpec)
  | [] => .ok merged
  | (layerName, layerSpec) :: rest =>
    match merged.get? layerName with
    | none => mergeWorkerSpecs (merged.set layerName layerSpec) rest
    | some old => do
      pyAssert (old = layerSpec) ("The KV cache specs for the same layer are different " ++
        "across workers. This is not supported yet.")
      mergeWorkerSpecs merged rest

/-- `get_kv_cache_config_from_groups` for one worker, with the check that no layer is left out. -/
def workerConfig (config : VllmConfig) (projected : List KVCacheGroupSpec)
    (workerSpec : Dict String LayerKVCacheSpec) (availableMemory : Int) :
    Except PyError KVCacheConfig := do
  pyAssert ((projected.map fun group => group.layerNames.length).sum = workerSpec.keys.length)
    "Some layers are not assigned to any group."
  getKVCacheConfigFromGroups config projected availableMemory

def workerConfigs (config : VllmConfig) :
    List (List KVCacheGroupSpec) → List (Dict String LayerKVCacheSpec) → List Int →
      Except PyError (List KVCacheConfig)
  | projected :: projecteds, workerSpec :: workerSpecs, availableMemory :: rest => do
    let kvCacheConfig ← workerConfig config projected workerSpec availableMemory
    let kvCacheConfigs ← workerConfigs config projecteds workerSpecs rest
    return kvCacheConfig :: kvCacheConfigs
  | _, _, _ => .ok []

def shrinkTensor (numBlocksOld minNumBlocks : Int) (tensor : KVCacheTensor) :
    Except PyError KVCacheTensor := do
  let blockBytes ← floorDiv tensor.size numBlocksOld
  pyAssert (tensor.size.fmod numBlocksOld = 0) ""
  return { tensor with size := blockBytes * minNumBlocks }

/-- The configuration with the smallest number of blocks of all workers. -/
def shrink (minNumBlocks : Int) (kvCacheConfig : KVCacheConfig) : Except PyError KVCacheConfig := do
  let kvCacheTensors ← kvCacheConfig.kvCacheTensors.mapM
    (shrinkTensor kvCacheConfig.numBlocks minNumBlocks)
  return { kvCacheConfig with numBlocks := minNumBlocks, kvCacheTensors }

/-- The configuration with a fitted model length, if that is asked for. -/
def fittedConfig (config : VllmConfig) (projected : List (List KVCacheGroupSpec))
    (availableMemory : List Int) : Except PyError VllmConfig :=
  if config.autoFitMaxModelLen then autoFitMaxModelLen config projected availableMemory
  else .ok config

def shrinkAll (kvCacheConfigs : List KVCacheConfig) : Except PyError (List KVCacheConfig) :=
  match (kvCacheConfigs.map KVCacheConfig.numBlocks).min? with
  | none => .error (.valueError "min() arg is an empty sequence")
  | some minNumBlocks => kvCacheConfigs.mapM (shrink minNumBlocks)

/-- `get_kv_cache_configs`, next to the configuration it may have changed. -/
def getKVCacheConfigs (config : VllmConfig) (kvCacheSpecs : List (Dict String LayerKVCacheSpec))
    (availableMemory : List Int) : Except PyError (List KVCacheConfig × VllmConfig) := do
  let merged ← mergeWorkerSpecs .empty (kvCacheSpecs.flatMap Dict.entries)
  let globalKVCacheGroups ← getKVCacheGroups config merged
  let projected ← kvCacheSpecs.mapM (projectKVCacheGroupsToWorker globalKVCacheGroups)
  let config ← fittedConfig config projected availableMemory
  checkWorkers config (projected.zip availableMemory)
  let kvCacheConfigs ← workerConfigs config projected kvCacheSpecs availableMemory
  let kvCacheConfigs ← shrinkAll kvCacheConfigs
  return (kvCacheConfigs, config)

end Yuan.Core
