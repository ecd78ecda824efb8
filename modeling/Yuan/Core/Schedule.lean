import Yuan.Core.Scheduler

/-!
# `Scheduler.schedule`

A step first gives tokens to the running requests, in order, preempting others where blocks are
missing, and then admits waiting requests, unless something was preempted. What the method keeps in
local variables is a `Plan`; a plan that passes the final checks becomes a `SchedulerOutput`.

Each loop takes as fuel the number of requests it can still visit.
-/

namespace Yuan.Core

/-- What a step asks the world outside of the scheduler. A request is asked about once in a step, and
so is each of its encoder inputs. -/
structure ScheduleEnv where
  getNumNewMatchedTokens : Nat → Option Nat × Bool := fun _ => (some 0, false)
  hasCacheItem : Nat → Nat → Bool := fun _ _ => false
  hasGrammar : Nat → Bool := fun _ => false

/-- An encoder input of a request: its item, and its index. -/
abbrev EncoderInput := MultiModalFeatureSpec × Nat

/-- The local variables of `schedule`. -/
structure Plan where
  scheduledNewReqs : List Nat := []
  scheduledResumedReqs : List Nat := []
  scheduledRunningReqs : List Nat := []
  preemptedReqs : List Nat := []
  reqToNewBlocks : Dict Nat (List (List Nat)) := .empty
  numScheduledTokens : Dict Nat Int := .empty
  tokenBudget : Int
  scheduledEncoderInputs : Dict Nat (List EncoderInput) := .empty
  encoderComputeBudget : Int
  scheduledSpecDecodeTokens : Dict Nat (List Int) := .empty
  scheduledLoras : List Nat := []
  /-- The items that the encoder-cache connector was told to load in this step. -/
  externalLoads : List EncoderInput := []

/-- `CachedRequestData`. -/
structure CachedRequestData where
  reqIds : List Nat
  resumedReqIds : List Nat
  allTokenIds : List (Nat × List Nat)
  newBlockIds : List (Option (List (List Nat)))
  numComputedTokens : List Int
  numOutputTokens : List Int

/-- `SchedulerOutput`; the metadata of the encoder-cache connector are the items to load. -/
structure SchedulerOutput where
  scheduledNewReqs : List (Nat × List (List Nat))
  scheduledCachedReqs : CachedRequestData
  numScheduledTokens : Dict Nat Int
  totalNumScheduledTokens : Int
  scheduledSpecDecodeTokens : Dict Nat (List Int)
  scheduledEncoderInputs : Dict Nat (List EncoderInput)
  preemptedReqIds : List Nat
  finishedReqIds : List Nat
  freeEncoderMmHashes : List String
  ecConnectorMetadata : List EncoderInput

/-- The locals of `_try_schedule_encoder_inputs`. -/
structure EncoderPlan where
  encoderInputsToSchedule : List EncoderInput := []
  numNewTokens : Int
  encoderComputeBudget : Int
  externalLoadEncoderInput : List EncoderInput := []
  mmHashesToSchedule : List String := []
  numEmbedsToSchedule : Int := 0

section Encoder

variable {β : Type} (cfg : SchedulerConfig β) (env : ScheduleEnv)
variable (requestId : Nat) (numComputedTokens shiftComputedTokens : Int)

/-- The part of `_try_schedule_encoder_inputs` for an item that fits: load it, compute it, or leave it
out because no embedding of it is in the range of tokens. -/
def takeEncoderInput (input : EncoderInput) (t : EncoderPlan) : EncoderPlan :=
  let feature := input.1
  let startPos : Int := feature.offset
  let startIdxRel := max 0 (numComputedTokens - startPos)
  let endIdxRel := min (feature.mmPosition.length : Int) (numComputedTokens + t.numNewTokens - startPos)
  let (currEmbedsStart, currEmbedsEnd) :=
    feature.mmPosition.getEmbedsIndicesInRange startIdxRel endIdxRel
  if currEmbedsEnd - currEmbedsStart = 0 then t
  else if cfg.hasEcConnector && env.hasCacheItem requestId input.2 then { t with
    mmHashesToSchedule := feature.identifier :: t.mmHashesToSchedule
    externalLoadEncoderInput := t.externalLoadEncoderInput ++ [input]
    numEmbedsToSchedule := t.numEmbedsToSchedule + feature.mmPosition.getNumEmbeds }
  else { t with
    numEmbedsToSchedule := t.numEmbedsToSchedule + feature.mmPosition.getNumEmbeds
    encoderComputeBudget := t.encoderComputeBudget - feature.mmPosition.getNumEmbeds
    mmHashesToSchedule := feature.identifier :: t.mmHashesToSchedule
    encoderInputsToSchedule := t.encoderInputsToSchedule ++ [input] }

/-- The tokens left where an item does not fit: those before it, or none. -/
def tokensBefore (feature : MultiModalFeatureSpec) : Int :=
  if numComputedTokens + shiftComputedTokens < feature.offset then
    feature.offset - (numComputedTokens + shiftComputedTokens)
  else 0

/-- The loop of `_try_schedule_encoder_inputs` over the items. -/
def encoderLoop : List EncoderInput → EncoderPlan → EncoderCacheManager →
    Except PyError (EncoderPlan × EncoderCacheManager)
  | [], t, m => return (t, m)
  | input :: rest, t, m =>
    let feature := input.1
    if feature.offset ≥ numComputedTokens + t.numNewTokens + shiftComputedTokens then
      -- not needed in this step, and neither are the items behind it
      return (t, m)
    else if feature.stop ≤ numComputedTokens then
      -- in the KV cache of the decoder already
      encoderLoop rest t m
    else if feature.identifier ∈ t.mmHashesToSchedule then encoderLoop rest t m
    else do
      let (cached, m) ← m.checkAndUpdateCache requestId feature
      if cached then encoderLoop rest t m
      else if cfg.disableChunkedMmInput ∧ numComputedTokens < feature.offset ∧
          numComputedTokens + t.numNewTokens < feature.stop then
        -- roll back to before the item
        return ({ t with
          numNewTokens := max 0 (feature.offset - (numComputedTokens + shiftComputedTokens)) }, m)
      else do
        let (fits, m) ← m.canAllocate feature t.encoderComputeBudget t.numEmbedsToSchedule
        if fits then
          encoderLoop rest (takeEncoderInput cfg env requestId numComputedTokens input t) m
        else
          return ({ t with
            numNewTokens := tokensBefore numComputedTokens shiftComputedTokens feature }, m)

/-- `_try_schedule_encoder_inputs`. -/
def tryScheduleEncoderInputs (mmFeatures : List MultiModalFeatureSpec) (t : EncoderPlan)
    (m : EncoderCacheManager) : Except PyError (EncoderPlan × EncoderCacheManager) :=
  if t.numNewTokens = 0 ∨ mmFeatures.isEmpty then return (t, m)
  else encoderLoop cfg env requestId numComputedTokens shiftComputedTokens mmFeatures.zipIdx t m

end Encoder

namespace Plan

variable (p : Plan)

/-- Take back what was planned for a running request in this step. -/
def withdraw (id : Nat) : Except PyError Plan :=
  match p.numScheduledTokens.get? id, p.reqToNewBlocks.get? id with
  | some numNewTokens, some _ =>
    let preemptedEncoderInputs := (p.scheduledEncoderInputs.get? id).getD []
    return { p with
      scheduledRunningReqs := p.scheduledRunningReqs.erase id
      tokenBudget := p.tokenBudget + numNewTokens
      numScheduledTokens := p.numScheduledTokens.erase id
      reqToNewBlocks := p.reqToNewBlocks.erase id
      scheduledSpecDecodeTokens := p.scheduledSpecDecodeTokens.erase id
      scheduledEncoderInputs := p.scheduledEncoderInputs.erase id
      encoderComputeBudget := p.encoderComputeBudget +
        (preemptedEncoderInputs.map fun input => (input.1.mmPosition.getNumEmbeds : Int)).sum }
  | _, _ => .error (.keyError (toString id))

/-- Plan `numNewTokens` tokens for a request. -/
def assign (id : Nat) (newBlocks : List (List Nat)) (numNewTokens : Int) : Plan :=
  { p with
    reqToNewBlocks := p.reqToNewBlocks.set id newBlocks
    numScheduledTokens := p.numScheduledTokens.set id numNewTokens
    tokenBudget := p.tokenBudget - numNewTokens }

/-- Plan the encoder inputs of a request, and the loads of others. -/
def assignEncoder (id : Nat) (t : EncoderPlan) : Plan :=
  let p := { p with externalLoads := p.externalLoads ++ t.externalLoadEncoderInput }
  if t.encoderInputsToSchedule = [] then p
  else { p with
    scheduledEncoderInputs := p.scheduledEncoderInputs.set id t.encoderInputsToSchedule
    encoderComputeBudget := t.encoderComputeBudget }

end Plan

namespace Scheduler

variable {β : Type} [DecidableEq β] (cfg : SchedulerConfig β) (env : ScheduleEnv)
variable (s : Scheduler β) (p : Plan)

/-- `self.kv_cache_manager.allocate_slots`. -/
def allocateSlots (id : Nat) (a : KVCacheManager.AllocateArgs) :
    Except PyError (Option (List (List Nat)) × Scheduler β) := do
  let (newBlocks, kv) ← cfg.kvCacheManager.allocateSlots s.kv (s.request id) a
  return (newBlocks, { s with kv })

section

omit [DecidableEq β]

/-- `_try_schedule_encoder_inputs` for a request, if it has any. -/
def planEncoder (id : Nat) (numComputedTokens numNewTokens encoderComputeBudget : Int) :
    Except PyError (EncoderPlan × Scheduler β) := do
  let (t, encoderCacheManager) ← tryScheduleEncoderInputs cfg env id numComputedTokens
    (if cfg.useEagle then 1 else 0) (s.request id).mmFeatures
    { numNewTokens, encoderComputeBudget } s.encoderCacheManager
  return (t, { s with encoderCacheManager })

/-- Allocate the encoder cache for planned inputs. -/
def allocateEncoder (id : Nat) (t : EncoderPlan) : Except PyError (Scheduler β) := do
  let encoderCacheManager ←
    (t.encoderInputsToSchedule ++ t.externalLoadEncoderInput).foldlM
      (fun m input => m.allocate id input.1) s.encoderCacheManager
  return { s with encoderCacheManager }

/-! ## Running requests -/

/-- Async scheduling: the step in flight reaches `max_tokens` for sure. -/
def reachesMaxTokens (r : Request (List β)) : Bool :=
  decide (r.numOutputPlaceholders > 0) &&
    decide (r.numComputedTokens + 2 - r.numOutputPlaceholders ≥ r.numPromptTokens + r.maxTokens)

/-- The tokens a running request asks for, before its encoder inputs are looked at. -/
def numNewTokensOf (r : Request (List β)) (tokenBudget : Int) : Int :=
  let numNewTokens : Int := r.numTokensWithSpec + r.numOutputPlaceholders - r.numComputedTokens
  let threshold : Int := cfg.longPrefillTokenThreshold
  let numNewTokens := if 0 < threshold ∧ threshold < numNewTokens then threshold else numNewTokens
  min (min numNewTokens tokenBudget) (cfg.maxModelLen - 1 - r.numComputedTokens)

/-- The stage of the pipeline has enough requests. -/
def stageIsFull (numScheduledRunning : Nat) : Bool :=
  cfg.limitsPipeline && decide (min cfg.maxNumPrePipelineReqs
    ((s.running.length + cfg.pipelineParallelSize - 1) / cfg.pipelineParallelSize) ≤
      numScheduledRunning)

/-- The comparison of `(r.priority, r.arrival_time)`. -/
def yieldsTo (r r' : Request β) : Bool :=
  decide (r.priority < r'.priority ∨ r.priority = r'.priority ∧ r.arrivalTime < r'.arrivalTime)

/-- `max(self.running, key=lambda r: (r.priority, r.arrival_time))`: the first of the greatest. -/
def lowestPriority : Option Nat :=
  match s.running with
  | [] => none
  | first :: rest =>
    some (rest.foldl (fun best id =>
      if yieldsTo (s.request best) (s.request id) then id else best) first)

/-- Choose a request to preempt and take it out of `self.running`: the lowest-priority one, whose plan
for this step is withdrawn, or the last one. -/
def popPreempted (reqIndex : Nat) : Except PyError (Nat × Nat × Scheduler β × Plan) :=
  match cfg.policy with
  | .priority =>
    match s.lowestPriority with
    | none => .error (.valueError "max() arg is an empty sequence")
    | some preempted => do
      let s := { s with running := s.running.erase preempted }
      if preempted ∈ p.scheduledRunningReqs then do
        let p ← p.withdraw preempted
        return (preempted, reqIndex - 1, s, p)
      else return (preempted, reqIndex, s, p)
  | .fcfs =>
    match s.running.getLast? with
    | none => .error (.indexError "pop from empty list")
    | some preempted => return (preempted, reqIndex, { s with running := s.running.dropLast }, p)

end

/-- `while True`: allocate slots for a running request, preempting until there are enough blocks or the
request itself is preempted. -/
def allocateRunning (id : Nat) (numNewTokens : Int) : Nat → Nat → Scheduler β → Plan →
    Except PyError (Option (List (List Nat)) × Nat × Scheduler β × Plan)
  | 0, reqIndex, s, p => return (none, reqIndex, s, p)
  | fuel + 1, reqIndex, s, p => do
    let (newBlocks, s) ← s.allocateSlots cfg id
      { numNewTokens, numLookaheadTokens := cfg.numLookaheadTokens }
    match newBlocks with
    | some newBlocks => return (some newBlocks, reqIndex, s, p)
    | none => do
      let (preempted, reqIndex, s, p) ← s.popPreempted cfg p reqIndex
      let s ← s.preemptRequest cfg preempted
      let p := { p with preemptedReqs := p.preemptedReqs ++ [preempted] }
      if preempted = id then return (none, reqIndex, s, p)
      else allocateRunning id numNewTokens fuel reqIndex s p

/-- Plan the drafts of a request that are part of its new tokens. -/
def planSpecTokens (r : Request (List β)) (id : Nat) (numNewTokens : Int) : Plan :=
  let numScheduledSpecTokens :=
    numNewTokens + r.numComputedTokens - r.numTokens - r.numOutputPlaceholders
  if r.specTokenIds ≠ [] ∧ 0 < numScheduledSpecTokens then
    { p with scheduledSpecDecodeTokens :=
        p.scheduledSpecDecodeTokens.set id (r.specTokenIds.take numScheduledSpecTokens.toNat) }
  else p

omit [DecidableEq β] in
/-- Schedule a running request. -/
def scheduleRunning (id : Nat) (newBlocks : List (List Nat)) (t : EncoderPlan) :
    Except PyError (Scheduler β × Plan) := do
  let p := { p with scheduledRunningReqs := p.scheduledRunningReqs ++ [id] }
  let p := p.assign id newBlocks t.numNewTokens
  let p := planSpecTokens p (s.request id) id t.numNewTokens
  let s := s.modify id fun r => { r with specTokenIds := [] }
  let s ← s.allocateEncoder id t
  return (s, p.assignEncoder id t)

/-- The loop over the running requests. -/
def runningLoop : Nat → Nat → Scheduler β → Plan → Except PyError (Scheduler β × Plan)
  | 0, _, s, p => return (s, p)
  | fuel + 1, reqIndex, s, p =>
    match s.running[reqIndex]? with
    | none => return (s, p)
    | some id =>
      if p.tokenBudget ≤ 0 then return (s, p)
      else if s.stageIsFull cfg p.scheduledRunningReqs.length then return (s, p)
      else if reachesMaxTokens (s.request id) then runningLoop fuel (reqIndex + 1) s p
      else do
        let (t, s) ← s.planEncoder cfg env id (s.request id).numComputedTokens
          (numNewTokensOf cfg (s.request id) p.tokenBudget) p.encoderComputeBudget
        -- by going on, lower-priority requests may be scheduled
        if t.numNewTokens = 0 then runningLoop fuel (reqIndex + 1) s p
        else do
          let (newBlocks, reqIndex, s, p) ←
            allocateRunning cfg id t.numNewTokens s.running.length reqIndex s p
          match newBlocks with
          | none => return (s, p)
          | some newBlocks => do
            let (s, p) ← s.scheduleRunning p id newBlocks t
            runningLoop fuel (reqIndex + 1) s p

omit [DecidableEq β] in
/-- Record the LoRAs of the scheduled running requests. -/
def recordLoras : Except PyError Plan :=
  match cfg.maxLoras with
  | none => return p
  | some maxLoras => do
    let scheduledLoras := (p.scheduledRunningReqs.filterMap fun id =>
      ((s.request id).loraRequest.map (·.loraIntId)).filter (0 < ·)).dedup
    pyAssert (scheduledLoras.length ≤ maxLoras) "len(scheduled_loras) <= self.lora_config.max_loras"
    return { p with scheduledLoras }

/-! ## Waiting requests -/

/-- After a failed load: cache any valid computed tokens, or release the blocks. -/
def cacheValidTokens (id : Nat) : Except PyError (KVState (List β × Nat) Row) :=
  if (s.request id).numComputedTokens ≠ 0 then
    cfg.kvCacheManager.cacheIfEnabled s.kv (s.request id) (s.request id).numComputedTokens
  else KVCacheManager.free cfg.managers s.kv id

/-- `_update_waiting_for_remote_kv`: whether the transfer is done. -/
def updateWaitingForRemoteKv (id : Nat) : Except PyError (Bool × Scheduler β) := do
  pyAssert cfg.connector.isSome "self.connector is not None"
  if id ∉ s.finishedRecvingKvReqIds then return (false, s)
  else if id ∈ s.failedRecvingKvReqIds then do
    let kv ← s.cacheValidTokens cfg id
    return (true, { s with
      kv
      failedRecvingKvReqIds := s.failedRecvingKvReqIds.erase id
      finishedRecvingKvReqIds := s.finishedRecvingKvReqIds.erase id })
  else do
    let blockIds ← s.soleBlockIds cfg id
    let numTokens : Int := (s.request id).numTokens
    let numComputedTokens := min ((blockIds.length : Int) * cfg.blockSize) numTokens
    let numComputedTokens :=
      if numComputedTokens = numTokens then numComputedTokens - 1 else numComputedTokens
    let kv ← cfg.kvCacheManager.cacheIfEnabled s.kv (s.request id) numComputedTokens
    let s := { s with kv, finishedRecvingKvReqIds := s.finishedRecvingKvReqIds.erase id }
    return (true, s.modify id fun r => { r with numComputedTokens })

/-- Whether a waiting request can go on, with its new status if so. -/
def unblock (id : Nat) : Except PyError (Bool × Scheduler β) :=
  match (s.request id).status with
  | .waitingForRemoteKvs => do
    let (isReady, s) ← s.updateWaitingForRemoteKv cfg id
    if isReady then
      return (true, s.modify id fun r =>
        { r with status := if r.numPreemptions ≠ 0 then .preempted else .waiting })
    else return (false, s)
  | .waitingForFsm =>
    if (s.request id).useStructuredOutput && env.hasGrammar id then
      return (true, s.modify id fun r => { r with status := .waiting })
    else return (false, s)
  | .waitingForStreamingReq => do
    pyAssert ((s.request id).streamingQueue.getD []).isEmpty "not request.streaming_queue"
    return (false, s)
  | _ => return (true, s)

omit [DecidableEq β] in
/-- Scheduling the request would exceed `max_loras`. -/
def exceedsLoras (r : Request (List β)) : Bool :=
  match cfg.maxLoras, r.loraRequest with
  | some maxLoras, some lora =>
    decide (p.scheduledLoras.length = maxLoras) && decide (lora.loraIntId ∉ p.scheduledLoras)
  | _, _ => false

/-- What is computed already for a waiting request. -/
structure ComputedTokens where
  newComputedBlocks : Nat → List Nat := fun _ => []
  numNewLocalComputedTokens : Int := 0
  numExternalComputedTokens : Int := 0
  loadKvAsync : Bool := false
  numComputedTokens : Int

/-- Look for computed tokens: in the prefix cache, and at the connector. Without an answer of the
connector, the request is skipped. -/
def computedTokens (id : Nat) : Except PyError (Option ComputedTokens × Scheduler β) :=
  if (s.request id).numComputedTokens = 0 then do
    let (newComputedBlocks, numNewLocalComputedTokens) ← s.getComputedBlocks cfg id
    if cfg.connector.isNone then
      return (some { newComputedBlocks, numNewLocalComputedTokens
                     numComputedTokens := numNewLocalComputedTokens }, s)
    else
      match env.getNumNewMatchedTokens id with
      | (none, _) => return (none, s)
      | (some extTokens, loadKvAsync) =>
        return (some {
            newComputedBlocks, numNewLocalComputedTokens, loadKvAsync
            numExternalComputedTokens := extTokens
            numComputedTokens := numNewLocalComputedTokens + extTokens },
          s.modify id fun r => { r with numExternalComputedTokens := extTokens })
  else return (some { numComputedTokens := (s.request id).numComputedTokens }, s)

section

omit [DecidableEq β]

/-- The number of new tokens for a waiting request and its encoder inputs; `none` ends the loop. -/
def planWaiting (id : Nat) (c : ComputedTokens) :
    Except PyError (Option EncoderPlan × Scheduler β) :=
  if c.loadKvAsync then do
    -- loading remote KV, no allocation for new work
    pyAssert (0 < c.numExternalComputedTokens) "num_external_computed_tokens > 0"
    return (some { numNewTokens := 0, encoderComputeBudget := p.encoderComputeBudget }, s)
  else
    let numNewTokens : Int := (s.request id).numTokens - c.numComputedTokens
    let threshold : Int := cfg.longPrefillTokenThreshold
    let numNewTokens := if 0 < threshold ∧ threshold < numNewTokens then threshold else numNewTokens
    if !cfg.enableChunkedPrefill && decide (numNewTokens > p.tokenBudget) then return (none, s)
    else do
      let numNewTokens := min numNewTokens p.tokenBudget
      pyAssert (0 < numNewTokens) "num_new_tokens > 0"
      let (t, s) ← s.planEncoder cfg env id c.numComputedTokens numNewTokens p.encoderComputeBudget
      if t.numNewTokens = 0 then return (none, s) else return (some t, s)

/-- The lists of scheduled requests, with a waiting one added by its status. -/
def addScheduled (id : Nat) : Except PyError Plan :=
  match (s.request id).status with
  | .waiting => return { p with scheduledNewReqs := p.scheduledNewReqs ++ [id] }
  | .preempted => return { p with scheduledResumedReqs := p.scheduledResumedReqs ++ [id] }
  | _ => .error (.runtimeError "Invalid request status")

/-- Schedule a waiting request that has its slots. -/
def scheduleWaiting (id : Nat) (c : ComputedTokens) (t : EncoderPlan) :
    Except PyError (Scheduler β × Plan) := do
  let s := { s with running := s.running ++ [id] }
  let p ← addScheduled s p id
  let p := match cfg.maxLoras, (s.request id).loraRequest with
    | some _, some lora => { p with scheduledLoras := p.scheduledLoras.insert lora.loraIntId }
    | _, _ => p
  let blocks := cfg.managers.map fun m => s.kv.blocksOf (m.row id)
  let p := p.assign id blocks t.numNewTokens
  let s := s.modify id fun r => { r with
    status := .running
    numComputedTokens := c.numComputedTokens
    numCachedTokens := if r.numCachedTokens < 0 then c.numComputedTokens else r.numCachedTokens }
  let s ← s.allocateEncoder id t
  return (s, p.assignEncoder id t)

end

/-- The arguments of `allocate_slots` for a waiting request. -/
def waitingArgs (r : Request (List β)) (c : ComputedTokens) (numNewTokens : Int) :
    KVCacheManager.AllocateArgs where
  numNewTokens
  numNewComputedTokens := c.numNewLocalComputedTokens
  newComputedBlocks := c.newComputedBlocks
  numLookaheadTokens := if r.numComputedTokens = 0 then 0 else cfg.numLookaheadTokens
  numExternalComputedTokens := c.numExternalComputedTokens
  delayCacheBlocks := c.loadKvAsync

omit [DecidableEq β] in
/-- `self.waiting.pop_request`. -/
def popWaiting : Except PyError (Nat × Scheduler β) := do
  let (id, waiting) ← RequestQueue.popRequest cfg.policy s.requestLt s.waiting
  return (id, { s with waiting })

omit [DecidableEq β] in
/-- Pop a request and keep it for later. -/
def skipWaiting (skipped : List Nat) : Except PyError (Scheduler β × List Nat) := do
  let (id, s) ← s.popWaiting cfg
  return (s, RequestQueue.prependRequest cfg.policy s.requestLt skipped id)

/-- How the visit of a waiting request ends. -/
inductive Visit (β : Type) where
  | stop (s : Scheduler β)
  | skip (s : Scheduler β)
  | load (s : Scheduler β)
  | accept (s : Scheduler β) (c : ComputedTokens) (t : EncoderPlan)

omit [DecidableEq β] in
/-- Without slots, the request drops its references to the encoder cache. -/
def freeEncoder (id : Nat) : Scheduler β :=
  { s with encoderCacheManager := s.encoderCacheManager.free id (s.request id).mmFeatures }

/-- Allocate slots for a waiting request. -/
def allocateWaiting (id : Nat) (c : ComputedTokens) (t : EncoderPlan) :
    Except PyError (Visit β) := do
  let (newBlocks, s) ← s.allocateSlots cfg id (waitingArgs cfg (s.request id) c t.numNewTokens)
  match newBlocks with
  | none => return .stop (s.freeEncoder id)
  | some _ => return if c.loadKvAsync then .load s else .accept s c t

/-- Visit the first waiting request: everything up to the point where it leaves the queue. -/
def visitWaiting (id : Nat) : Except PyError (Visit β) := do
  let (ready, s) ← s.unblock cfg env id
  if !ready || exceedsLoras cfg p (s.request id) then return .skip s
  else do
    let (computed, s) ← s.computedTokens cfg env id
    match computed with
    | none => return .skip s
    | some c => do
      let (planned, s) ← s.planWaiting cfg env p id c
      match planned with
      | none => return .stop s
      | some t => s.allocateWaiting cfg id c t

omit [DecidableEq β] in
/-- The step has as many requests as the pipeline takes. -/
def pipelineIsFull : Bool :=
  cfg.limitsPipeline && decide (cfg.maxNumPrePipelineReqs ≤
    p.scheduledNewReqs.length + p.scheduledRunningReqs.length + p.scheduledResumedReqs.length)

/-- The loop over the waiting requests; `skipped` is put back behind the loop. -/
def waitingLoop : Nat → Scheduler β → Plan → List Nat →
    Except PyError (Scheduler β × Plan × List Nat)
  | 0, s, p, skipped => return (s, p, skipped)
  | fuel + 1, s, p, skipped =>
    if s.waiting = [] ∨ p.tokenBudget ≤ 0 then return (s, p, skipped)
    else if pipelineIsFull cfg p then return (s, p, skipped)
    else if s.running.length = cfg.maxNumRunningReqs then return (s, p, skipped)
    else do
      let id ← RequestQueue.peekRequest cfg.policy s.waiting
      match ← s.visitWaiting cfg env p id with
      | .stop s => return (s, p, skipped)
      | .skip s => do
        let (s, skipped) ← s.skipWaiting cfg skipped
        waitingLoop fuel s p skipped
      | .load s => do
        let (s, skipped) ← s.skipWaiting cfg skipped
        waitingLoop fuel (s.modify id fun r => { r with status := .waitingForRemoteKvs }) p skipped
      | .accept s c t => do
        let (id, s) ← s.popWaiting cfg
        let (s, p) ← s.scheduleWaiting cfg p id c t
        waitingLoop fuel s p skipped

/-- Schedule the waiting requests, and put the skipped ones back. -/
def scheduleWaitingReqs : Except PyError (Scheduler β × Plan) :=
  if p.preemptedReqs = [] ∧ s.pauseState = .unpaused then do
    let (s, p, skipped) ← waitingLoop cfg env s.waiting.length s p []
    if skipped = [] then return (s, p)
    else return ({ s with
      waiting := RequestQueue.prependRequests cfg.policy s.requestLt s.waiting skipped }, p)
  else return (s, p)

/-! ## The output -/

omit [DecidableEq β] in
/-- The locals at the start of a step. -/
def initialPlan : Plan where
  tokenBudget := if s.pauseState = .pausedAll then 0 else cfg.maxNumScheduledTokens
  encoderComputeBudget := cfg.maxNumEncoderInputTokens

/-- Everything up to the final checks. -/
def makePlan : Except PyError (Scheduler β × Plan) := do
  let (s, p) ← runningLoop cfg env s.running.length 0 s (s.initialPlan cfg)
  let p ← recordLoras cfg s p
  s.scheduleWaitingReqs cfg env p

omit [DecidableEq β] in
/-- The checks at the end of a step: the number of tokens planned. -/
def checkPlan : Except PyError Int := do
  let totalNumScheduledTokens := p.numScheduledTokens.values.sum
  pyAssert (totalNumScheduledTokens ≤ cfg.maxNumScheduledTokens)
    "total_num_scheduled_tokens <= self.max_num_scheduled_tokens"
  pyAssert (0 ≤ p.tokenBudget) "token_budget >= 0"
  pyAssert (s.running.length ≤ cfg.maxNumRunningReqs)
    "len(self.running) <= self.max_num_running_reqs"
  pyAssert (p.scheduledNewReqs.length + p.scheduledResumedReqs.length +
      p.scheduledRunningReqs.length ≤ s.running.length)
    ("len(scheduled_new_reqs) + len(scheduled_resumed_reqs) + len(scheduled_running_reqs) " ++
      "<= len(self.running)")
  return totalNumScheduledTokens

/-- `req_to_new_blocks[req_id]`. -/
def newBlocksOf (id : Nat) : Except PyError (List (List Nat)) :=
  match p.reqToNewBlocks.get? id with
  | some blocks => .ok blocks
  | none => .error (.keyError (toString id))

/-- `get_block_ids(allow_none=True)`. -/
def allowNone (blocks : List (List Nat)) : Option (List (List Nat)) :=
  if blocks.all (·.isEmpty) then none else some blocks

section

omit [DecidableEq β]

/-- `_make_cached_request_data`. -/
def makeCachedRequestData (runningReqs resumedReqs : List Nat) : Except PyError CachedRequestData := do
  let reqIds := runningReqs ++ resumedReqs
  pyAssert (resumedReqs.all (· ∉ s.prevStepScheduledReqIds)) "not scheduled_in_prev_step"
  let newBlockIds ← reqIds.mapM (newBlocksOf p)
  return {
    reqIds
    resumedReqIds := resumedReqs
    allTokenIds := (reqIds.filter (· ∉ s.prevStepScheduledReqIds)).map fun id =>
      (id, (s.request id).allTokenIds)
    newBlockIds := newBlockIds.map allowNone
    numComputedTokens := reqIds.map fun id => (s.request id).numComputedTokens
    numOutputTokens := reqIds.map fun id =>
      (s.request id).numOutputTokens + (s.request id).numOutputPlaceholders }

/-- Construct the output. -/
def makeOutput (totalNumScheduledTokens : Int) : Except PyError (SchedulerOutput × Scheduler β) := do
  let newReqs :=
    if cfg.useV2ModelRunner then p.scheduledNewReqs ++ p.scheduledResumedReqs else p.scheduledNewReqs
  let resumedReqs := if cfg.useV2ModelRunner then [] else p.scheduledResumedReqs
  let newBlockIds ← newReqs.mapM (newBlocksOf p)
  let scheduledCachedReqs ← s.makeCachedRequestData p p.scheduledRunningReqs resumedReqs
  let (freeEncoderMmHashes, encoderCacheManager) := s.encoderCacheManager.getFreedMmHashes
  let output := {
    scheduledNewReqs := newReqs.zip newBlockIds
    scheduledCachedReqs
    numScheduledTokens := p.numScheduledTokens
    totalNumScheduledTokens
    scheduledSpecDecodeTokens := p.scheduledSpecDecodeTokens
    scheduledEncoderInputs := p.scheduledEncoderInputs
    preemptedReqIds := p.preemptedReqs.dedup
    finishedReqIds := s.finishedReqIds
    freeEncoderMmHashes
    ecConnectorMetadata := p.externalLoads }
  return (output, { s with
    encoderCacheManager, prevStepScheduledReqIds := p.numScheduledTokens.keys })

/-- `_free_encoder_inputs`: the inputs that are in the decoder's KV cache. -/
def freeEncoderInputs (id : Nat) : Scheduler β :=
  let r := s.request id
  let done := (s.encoderCacheManager.getCachedInputIds r.mmFeatures).filter fun feature =>
    (feature.stop : Int) ≤ r.numComputedTokens
  { s with encoderCacheManager :=
      done.foldl (fun m feature => m.freeEncoderInput id feature) s.encoderCacheManager }

/-- `_update_after_schedule` for one request. -/
def advanceRequest (id : Nat) (numScheduledToken : Int) : Scheduler β :=
  let s := s.modify id fun r => { r with
    numComputedTokens := r.numComputedTokens + numScheduledToken
    isPrefillChunk :=
      r.numComputedTokens + numScheduledToken < r.numTokens + r.numOutputPlaceholders }
  s.freeEncoderInputs id

/-- `AsyncScheduler._update_after_schedule` for one request: placeholders for what the step samples. -/
def addPlaceholders (numDrafts : Nat) (id : Nat) : Scheduler β :=
  if (s.request id).isPrefillChunk then s
  else s.modify id fun r => { r with
    numOutputPlaceholders := r.numOutputPlaceholders + (1 + numDrafts)
    specTokenIds := List.replicate cfg.numSpecTokens (-1) }

/-- `_update_after_schedule`. -/
def updateAfterSchedule (output : SchedulerOutput) : Scheduler β :=
  let s := output.numScheduledTokens.entries.foldl (fun s e => s.advanceRequest e.1 e.2) s
  let s := { s with finishedReqIds := [] }
  if cfg.asyncScheduling then
    output.numScheduledTokens.keys.foldl (fun s id => s.addPlaceholders cfg
      ((output.scheduledSpecDecodeTokens.get? id).getD []).length id) s
  else s

end

/-- `schedule`. -/
def schedule : Except PyError (SchedulerOutput × Scheduler β) := do
  let (s, p) ← s.makePlan cfg env
  let totalNumScheduledTokens ← checkPlan cfg s p
  let (output, s) ← makeOutput cfg s p totalNumScheduledTokens
  return (output, s.updateAfterSchedule cfg output)

end Scheduler
end Yuan.Core
