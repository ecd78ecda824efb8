import Yuan.Core.AllocateSlots
import Yuan.Core.EncoderCacheManager
import Yuan.Core.HybridCacheHit
import Yuan.Core.RequestQueue
import Yuan.Core.StopCheck

/-!
# The scheduler: its state, and the methods that move requests between queues

`self.requests` maps ids to request objects, and the queues hold objects. Here the queues hold ids,
`request` gives the object with an id, and `requests` lists the keys of the dictionary: an object that
was deleted from the dictionary can still be read while a queue holds it.

A KV connector and an encoder-cache connector live outside of the scheduler. What they answer is an
argument of the methods that ask them. Models with mamba layers and encoder-decoder models are left
out, and so are events, statistics and log output.
-/

namespace Yuan.Core

/-- `PauseState`. -/
inductive PauseState where
  | unpaused
  | pausedNew
  | pausedAll
  deriving DecidableEq, Repr

/-- What the scheduler asks a KV connector class about itself. -/
structure KVConnector where
  supportsHma : Bool
  deriving DecidableEq, Repr

/-- How the prefix cache is searched: by the one manager, or by the hybrid coordinator. -/
inductive KVCacheCoordinator where
  | unitary (useEagle : Bool)
  | hybrid (c : HybridKVCacheCoordinator)

/-- What is fixed at start-up. -/
structure SchedulerConfig (β : Type) where
  policy : SchedulingPolicy := .fcfs
  maxNumRunningReqs : Nat
  maxNumScheduledTokens : Nat
  pipelineParallelSize : Nat := 1
  useRayV2ExecutorBackend : Bool := false
  longPrefillTokenThreshold : Nat := 0
  enableChunkedPrefill : Bool := true
  disableChunkedMmInput : Bool := false
  asyncScheduling : Bool := false
  useV2ModelRunner : Bool := false
  maxLoras : Option Nat := none
  numSpecTokens : Nat := 0
  numLookaheadTokens : Nat := 0
  useEagle : Bool := false
  maxNumEncoderInputTokens : Nat := 0
  connector : Option KVConnector := none
  recomputeKvLoadFailures : Bool := true
  hasEcConnector : Bool := false
  kvCacheManager : KVCacheManager
  coordinator : KVCacheCoordinator
  hashes : HashFunctions (List β)

namespace SchedulerConfig

variable {β : Type} (cfg : SchedulerConfig β)

/-- `self.max_model_len`. -/
def maxModelLen : Nat := cfg.kvCacheManager.maxModelLen

/-- `self.block_size`. -/
def blockSize : Nat := cfg.kvCacheManager.hashBlockSize

/-- The managers of the KV cache groups. -/
def managers : List SingleTypeKVCacheManager := cfg.kvCacheManager.singleTypeManagers

/-- `self.max_num_pre_pipeline_reqs`. -/
def maxNumPrePipelineReqs : Nat :=
  (cfg.maxNumRunningReqs + cfg.pipelineParallelSize - 1) / cfg.pipelineParallelSize

/-- Whether steps are limited by the pipeline. -/
def limitsPipeline : Bool := !cfg.useRayV2ExecutorBackend && decide (1 < cfg.pipelineParallelSize)

end SchedulerConfig

/-- The scheduler. The sets of ids are lists without duplicates. -/
structure Scheduler (β : Type) where
  request : Nat → Request (List β)
  requests : List Nat
  waiting : List Nat
  running : List Nat
  prevStepScheduledReqIds : List Nat
  finishedReqIds : List Nat
  numWaitingForStreamingInput : Int
  finishedRecvingKvReqIds : List Nat
  failedRecvingKvReqIds : List Nat
  encoderCacheManager : EncoderCacheManager
  kv : KVState (List β × Nat) Row
  pauseState : PauseState

/-- `StreamingUpdate.from_request`; only a resumable request continues a session. -/
def StreamingUpdate.fromRequest {β : Type} (request : Request β) : Option StreamingUpdate :=
  if request.resumable then
    some {
      mmFeatures := some request.mmFeatures
      promptTokenIds := request.promptTokenIds
      maxTokens := request.maxTokens
      arrivalTime := request.arrivalTime
      samplingParams := request.samplingParams }
  else none

namespace Scheduler

variable {β : Type}

/-- `__init__`. -/
def init (kv : KVState (List β × Nat) Row) (encoderCacheSize : Nat) : Scheduler β where
  request := fun requestId =>
    { requestId, promptTokenIds := none, numPromptTokens := 0, allTokenIds := [] }
  requests := []
  waiting := []
  running := []
  prevStepScheduledReqIds := []
  finishedReqIds := []
  numWaitingForStreamingInput := 0
  finishedRecvingKvReqIds := []
  failedRecvingKvReqIds := []
  encoderCacheManager := .init encoderCacheSize
  kv
  pauseState := .unpaused

variable [DecidableEq β] (cfg : SchedulerConfig β) (s : Scheduler β)

section

omit [DecidableEq β]

/-- `request < other`. -/
def requestLt (a b : Nat) : Bool := (s.request a).lt (s.request b)

/-- Assign to attributes of a request. -/
def modify (id : Nat) (f : Request (List β) → Request (List β)) : Scheduler β :=
  { s with request := Function.update s.request id (f (s.request id)) }

/-- `self.waiting.add_request`. -/
def addWaiting (id : Nat) : Scheduler β :=
  { s with waiting := RequestQueue.addRequest cfg.policy s.requestLt s.waiting id }

/-- `self.waiting.prepend_request`. -/
def prependWaiting (id : Nat) : Scheduler β :=
  { s with waiting := RequestQueue.prependRequest cfg.policy s.requestLt s.waiting id }

end

/-- `kv_cache_manager.get_computed_blocks`: the blocks of each group, and the number of tokens. -/
def getComputedBlocks (id : Nat) : Except PyError ((Nat → List Nat) × Int) :=
  let r := s.request id
  if !s.kv.pool.enableCaching || r.skipReadingPrefixCache then return (fun _ => [], 0)
  else
    let maxCacheHitLength := r.numTokens - 1
    match cfg.coordinator, cfg.kvCacheManager.kvCacheGroups with
    | .hybrid c, _ => do
      let (blocks, n) ← c.findLongestCacheHit s.kv.pool r.blockHashes maxCacheHitLength
      return (fun groupId => blocks.getD groupId [], n)
    | .unitary useEagle, spec :: _ => do
      let q : CacheHit.Search β := {
        blockHashes := r.blockHashes, kvCacheGroupIds := [0], blockPool := s.kv.pool
        kvCacheSpec := spec, useEagle, alignmentTokens := spec.blockSize }
      let rows ← q.findLongestCacheHit maxCacheHitLength
      let blocks := rows.map fun row => row.headD s.kv.pool.nullBlock
      return (fun groupId => if groupId = 0 then blocks else [],
        (blocks.length * spec.blockSize : Nat))
    | .unitary _, [] => .error (.assertionError
        "UnitaryKVCacheCoordinator assumes only one kv cache group")

section

omit [DecidableEq β]

/-- `(block_ids,) = kv_cache_manager.get_block_ids(request_id)`. -/
def soleBlockIds (id : Nat) : Except PyError (List Nat) :=
  match cfg.managers with
  | [m] => .ok (s.kv.blocksOf (m.row id))
  | _ => .error (.valueError "too many values to unpack (expected 1)")

/-! ## Finishing requests -/

/-- `_free_blocks`. -/
def freeBlocks (id : Nat) : Except PyError (Scheduler β) := do
  pyAssert (s.request id).isFinished "request.is_finished()"
  let kv ← KVCacheManager.free cfg.managers s.kv id
  if id ∈ s.requests then return { s with kv, requests := s.requests.erase id }
  else .error (.keyError (toString id))

/-- `_connector_finished`: whether the connector keeps the blocks for now. -/
def connectorFinished (requestFinished : Nat → Bool) (id : Nat) :
    Except PyError (Bool × Scheduler β) :=
  match cfg.connector with
  | none => return (false, s)
  | some connector => do
    -- out-of-window blocks go before the connector gets the block table
    let kv ← KVCacheManager.removeSkippedBlocks cfg.managers s.kv id (s.request id).numTokens
    pyAssert (connector.supportsHma || cfg.managers.length = 1)
      "len(self.kv_cache_config.kv_cache_groups) == 1"
    return (requestFinished id, { s with kv })

/-- `_free_request`. -/
def freeRequest (requestFinished : Nat → Bool) (id : Nat) (delayFreeBlocks : Bool) :
    Except PyError (Scheduler β) := do
  pyAssert (s.request id).isFinished "request.is_finished()"
  let (connectorDelayFreeBlocks, s) ← s.connectorFinished cfg requestFinished id
  let s := { s with
    encoderCacheManager := s.encoderCacheManager.free id (s.request id).mmFeatures
    finishedReqIds := s.finishedReqIds.insert id }
  if delayFreeBlocks || connectorDelayFreeBlocks then return s else s.freeBlocks cfg id

/-- A request that waits for a transfer is no longer among those that were received. -/
def discardTransfer (id : Nat) : Scheduler β :=
  { s with
    finishedRecvingKvReqIds :=
      if (s.request id).status = .waitingForRemoteKvs then s.finishedRecvingKvReqIds.erase id
      else s.finishedRecvingKvReqIds
    failedRecvingKvReqIds :=
      if (s.request id).status = .waitingForRemoteKvs then s.failedRecvingKvReqIds.erase id
      else s.failedRecvingKvReqIds }

/-- The second pass of `finish_requests` over one request. -/
def finishRequest (requestFinished : Nat → Bool) (finishedStatus : RequestStatus) (id : Nat) :
    Except PyError (Scheduler β) :=
  let delayFreeBlocks := decide ((s.request id).status = .waitingForRemoteKvs) &&
    decide (id ∉ s.finishedRecvingKvReqIds)
  let s := (s.discardTransfer id).modify id fun r => { r with status := finishedStatus }
  s.freeRequest cfg requestFinished id delayFreeBlocks

/-- The requests that `finish_requests` handles: those that are there and not finished. -/
def validRequests (requestIds : Option (List Nat)) : List Nat :=
  (match requestIds with
    | none => s.requests
    | some ids => ids.dedup).filter fun id => id ∈ s.requests && !(s.request id).isFinished

/-- The first pass of `finish_requests`: take the requests out of the queues, by status. -/
def removeFromQueues (valid : List Nat) : Scheduler β :=
  let runningRequestsToRemove := valid.filter fun id => (s.request id).status = .running
  let waitingRequestsToRemove := valid.filter fun id => (s.request id).status ≠ .running
  { s with
    running := removeAll s.running runningRequestsToRemove
    waiting :=
      if waitingRequestsToRemove = [] then s.waiting
      else RequestQueue.removeRequests cfg.policy s.requestLt s.waiting waitingRequestsToRemove
    numWaitingForStreamingInput := s.numWaitingForStreamingInput -
      valid.countP fun id => (s.request id).status = .waitingForStreamingReq }

/-- `finish_requests`; without ids, all requests are finished. -/
def finishRequests (requestFinished : Nat → Bool) (requestIds : Option (List Nat))
    (finishedStatus : RequestStatus) : Except PyError (Scheduler β) := do
  pyAssert finishedStatus.isFinished "RequestStatus.is_finished(finished_status)"
  let valid := s.validRequests requestIds
  valid.foldlM (fun s id => s.finishRequest cfg requestFinished finishedStatus id)
    (s.removeFromQueues cfg valid)

/-! ## Adding and preempting requests -/

/-- `_update_request_as_session`. -/
def updateRequestAsSession (id : Nat) (update : StreamingUpdate) : Except PyError (Scheduler β) := do
  let session ← Core.updateRequestAsSession cfg.hashes cfg.blockSize (s.request id) update
  return { s with
    request := Function.update s.request id session
    numWaitingForStreamingInput :=
      if (s.request id).status = .waitingForStreamingReq then s.numWaitingForStreamingInput - 1
      else s.numWaitingForStreamingInput }

/-- `add_request` for an id that is in use: new input for a session, or its end. -/
def addToSession (requestFinished : Nat → Bool) (id : Nat) (update : Option StreamingUpdate) :
    Except PyError (Scheduler β) :=
  if (s.request id).status ≠ .waitingForStreamingReq then
    match (s.request id).streamingQueue with
    | none => .error (.assertionError "duplicate request id")
    | some queue => return s.modify id fun r => { r with streamingQueue := some (queue ++ [update]) }
  else
    match update with
    | some update => s.updateRequestAsSession cfg id update
    | none => s.finishRequests cfg requestFinished (some [id]) .finishedAborted

/-- `add_request` for a new id; a resumable request starts with an empty streaming queue. -/
def addNewRequest (request : Request (List β)) : Scheduler β :=
  let id := request.requestId
  let s := { s with request := Function.update s.request id { request with
    streamingQueue := if request.resumable then some [] else request.streamingQueue } }
  { s.addWaiting cfg id with requests := s.requests ++ [id] }

/-- `add_request`. -/
def addRequest (requestFinished : Nat → Bool) (request : Request (List β)) :
    Except PyError (Scheduler β) :=
  if request.requestId ∈ s.requests then
    s.addToSession cfg requestFinished request.requestId
      (StreamingUpdate.fromRequest request)
  else return s.addNewRequest cfg request

/-- `_preempt_request`: back to the waiting queue. -/
def preemptRequest (id : Nat) : Except PyError (Scheduler β) := do
  pyAssert ((s.request id).status = .running) "Only running requests can be preempted"
  let kv ← KVCacheManager.free cfg.managers s.kv id
  let encoderCacheManager := s.encoderCacheManager.free id (s.request id).mmFeatures
  let s := { s with kv, encoderCacheManager }
  let s := s.modify id fun r => { r with
    status := .preempted
    numComputedTokens := 0
    specTokenIds := []
    numPreemptions := r.numPreemptions + 1 }
  return s.prependWaiting cfg id

/-- `while self.running`, in `reset_prefix_cache`: preempt in reverse order, so that the requests come
back in the order in which they ran. -/
def preemptAll : Nat → Scheduler β → Except PyError (Scheduler β)
  | 0, s => return s
  | fuel + 1, s =>
    match s.running.getLast? with
    | none => return s
    | some id => do
      let s ← { s with running := s.running.dropLast }.preemptRequest cfg id
      -- the output on the fly would repeat a token
      preemptAll fuel (s.modify id fun r => { r with
        numOutputPlaceholders := 0, discardLatestAsyncTokens := true })

/-- Invalidate all running requests, as if nothing was scheduled in the step before. -/
def resetRunning (resetRunningRequests : Bool) : Except PyError (Scheduler β) :=
  if resetRunningRequests then do
    let s ← s.preemptAll cfg s.running.length
    return { s with prevStepScheduledReqIds := [] }
  else return s

/-- `reset_prefix_cache`. -/
def resetPrefixCache (resetRunningRequests : Bool) : Except PyError (Bool × Scheduler β) := do
  let s ← s.resetRunning cfg resetRunningRequests
  let (resetSuccessful, kv) := s.kv.resetPrefixCache
  if resetRunningRequests && !resetSuccessful then
    .error (.runtimeError ("Failed to reset KV cache even when all the running requests are " ++
      "preempted and moved to the waiting queue. This is likely due to the presence of running " ++
      "requests waiting for remote KV transfer, which is not supported yet."))
  else return (resetSuccessful, { s with kv })

end

end Scheduler
end Yuan.Core
