import Yuan.Core.Schedule

/-!
# `Scheduler.update_from_output`

The output of the model for one scheduled step: accepted drafts, sampled tokens, requests that stop.
Requests that stop leave the queues in one batch behind the loop, by the status they had before they
stopped. Around the loop, the KV connector reports loads that failed and transfers that are done.

The outputs sent to the front-ends are left out.
-/

namespace Yuan.Core

/-- `KVConnectorOutput`. -/
structure KVConnectorOutput where
  finishedSending : List Nat := []
  finishedRecving : List Nat := []
  invalidBlockIds : List Nat := []

/-- `ModelRunnerOutput`, with the answers of the connector about finished requests. -/
structure ModelRunnerOutput where
  sampledTokenIds : Nat → List Nat := fun _ => []
  hasPoolerOutput : Nat → Bool := fun _ => false
  kvConnectorOutput : Option KVConnectorOutput := none
  requestFinished : Nat → Bool := fun _ => false

/-- The locals of the loop: which requests stopped. -/
structure Stopped where
  stoppedRunningReqs : List Nat := []
  stoppedPreemptedReqs : List Nat := []

namespace Scheduler

variable {β : Type} [DecidableEq β] (cfg : SchedulerConfig β) (s : Scheduler β)

/-! ## Failed loads -/

/-- The locals of the scan over the blocks of a request. -/
structure InvalidScan where
  isAffected : Bool := false
  markedInvalidBlock : Bool := false
  markedInvalidBlockIds : List Nat
  /-- Where the request's first marked block is. -/
  firstInvalid : Option Nat := none

/-- The scan over the blocks of a request, from block index `idx` on. -/
def scanBlocks (invalidBlockIds : List Nat) : Nat → List Nat → InvalidScan → InvalidScan
  | _, [], c => c
  | idx, blockId :: rest, c =>
    if blockId ∉ invalidBlockIds then scanBlocks invalidBlockIds (idx + 1) rest c
    else if blockId ∈ c.markedInvalidBlockIds then
      -- shared with a request before, which recomputes it
      scanBlocks invalidBlockIds (idx + 1) rest { c with isAffected := true }
    else
      scanBlocks invalidBlockIds (idx + 1) rest {
        isAffected := true
        markedInvalidBlock := true
        markedInvalidBlockIds := blockId :: c.markedInvalidBlockIds
        firstInvalid := if c.markedInvalidBlock then c.firstInvalid else some idx }

omit [DecidableEq β] in
/-- The tokens of a request that may have been computed externally. -/
def externallyComputed (id : Nat) (numBlocks : Nat) : Int :=
  let r := s.request id
  if r.status = .waitingForRemoteKvs then
    if id ∈ s.failedRecvingKvReqIds then r.numComputedTokens else numBlocks * cfg.blockSize
  else r.numCachedTokens

/-- The locals of `_update_requests_with_invalid_blocks`. -/
structure InvalidBlocks where
  affectedReqIds : List Nat := []
  blocksToEvict : List Nat := []
  markedInvalidBlockIds : List Nat := []

omit [DecidableEq β] in
/-- `_update_requests_with_invalid_blocks` for one request. -/
def updateRequestWithInvalidBlocks (invalidBlockIds : List Nat) (evictBlocks : Bool)
    (acc : Scheduler β × InvalidBlocks) (id : Nat) :
    Except PyError (Scheduler β × InvalidBlocks) := do
  let (s, b) := acc
  let reqBlockIds ← s.soleBlockIds cfg id
  let reqNumComputedTokens := s.externallyComputed cfg id reqBlockIds.length
  let reqNumComputedBlocks := (reqNumComputedTokens + cfg.blockSize - 1) / cfg.blockSize
  let c := scanBlocks invalidBlockIds 0 (reqBlockIds.take reqNumComputedBlocks.toNat)
    { markedInvalidBlockIds := b.markedInvalidBlockIds }
  let b := { b with
    markedInvalidBlockIds := c.markedInvalidBlockIds
    affectedReqIds := if c.isAffected then b.affectedReqIds.insert id else b.affectedReqIds }
  match c.firstInvalid with
  | some idx =>
    -- truncate the computed tokens at the first failed block
    let numComputedTokens : Int := idx * cfg.blockSize
    let s := s.modify id fun r => { r with
      numComputedTokens
      numExternalComputedTokens :=
        r.numExternalComputedTokens - (reqNumComputedTokens - numComputedTokens) }
    return (s, { b with
      blocksToEvict := if evictBlocks then b.blocksToEvict ++ reqBlockIds.drop idx
        else b.blocksToEvict })
  | none =>
    if c.isAffected then
      -- all invalid blocks are recomputed by requests before
      return (s.modify id fun r => { r with numComputedTokens := r.numCachedTokens }, b)
    else return (s, b)

/-- Evict invalid blocks and what depends on them, if there are any. -/
def evictInvalid (blocksToEvict : List Nat) : Except PyError (KVState (List β × Nat) Row) :=
  if blocksToEvict = [] then return s.kv else s.kv.evictBlocks blocksToEvict.dedup

/-- `_handle_invalid_blocks`: the requests to skip. -/
def handleInvalidBlocks (invalidBlockIds : List Nat) : Except PyError (List Nat × Scheduler β) := do
  let asyncLoadReqs := (RequestQueue.iter cfg.policy s.requestLt s.waiting).filter fun id =>
    (s.request id).status = .waitingForRemoteKvs
  let (s, async) ← asyncLoadReqs.foldlM (updateRequestWithInvalidBlocks cfg invalidBlockIds false)
    (s, {})
  let (s, sync) ← s.running.foldlM (updateRequestWithInvalidBlocks cfg invalidBlockIds true) (s, {})
  if async.affectedReqIds = [] ∧ sync.affectedReqIds = [] then return ([], s)
  else if cfg.recomputeKvLoadFailures then
    return (sync.affectedReqIds, { s with
      failedRecvingKvReqIds := s.failedRecvingKvReqIds ∪ async.affectedReqIds })
  else do
    let kv ← s.evictInvalid sync.blocksToEvict
    return (async.affectedReqIds ∪ sync.affectedReqIds, { s with kv })

/-! ## Stopping -/

/-- Cache the new tokens of a request that was running before it got them. -/
def cacheNewTokens (id : Nat) (statusBeforeUpdate : RequestStatus) :
    Except PyError (KVState (List β × Nat) Row) :=
  if statusBeforeUpdate = .running then
    cfg.kvCacheManager.cacheIfEnabled s.kv (s.request id)
      ((s.request id).numComputedTokens - (s.request id).numOutputPlaceholders)
  else return s.kv

/-- `_update_request_with_output`, of either scheduler. -/
def updateRequestWithOutput (id : Nat) (newTokenIds : List Nat) :
    Except PyError (List Nat × Bool × Scheduler β) :=
  let r := s.request id
  if cfg.asyncScheduling && r.discardLatestAsyncTokens then
    -- force-preempted in `reset_prefix_cache`
    return ([], false, s.modify id fun r => { r with discardLatestAsyncTokens := false })
  else do
    let (r', newTokenIds, stopped) ←
      Core.updateRequestWithOutput cfg.hashes cfg.blockSize cfg.maxModelLen r newTokenIds
    let s := s.modify id fun _ => r'
    if !cfg.asyncScheduling then return (newTokenIds, stopped, s)
    else do
      let s := s.modify id fun r => { r with
        numOutputPlaceholders := r.numOutputPlaceholders - newTokenIds.length }
      pyAssert (0 ≤ (s.request id).numOutputPlaceholders) "request.num_output_placeholders >= 0"
      let kv ← s.cacheNewTokens cfg id r.status
      return (newTokenIds, stopped, { s with kv })

omit [DecidableEq β] in
/-- `_handle_stopped_request`: whether the request is finished, which a resumable one need not be. -/
def handleStoppedRequest (id : Nat) : Except PyError (Bool × Scheduler β) :=
  let r := s.request id
  if !r.resumable then return (true, s)
  else
    match r.streamingQueue.getD [] with
    | update :: rest =>
      let s := s.modify id fun r => { r with streamingQueue := some rest }
      match update with
      | none => return (true, s)
      | some update => do
        let s ← s.updateRequestAsSession cfg id update
        return (false, s.addWaiting cfg id)
    | [] =>
      let s := s.modify id fun r => { r with status := .waitingForStreamingReq }
      let s := { s with numWaitingForStreamingInput := s.numWaitingForStreamingInput + 1 }
      return (false, s.addWaiting cfg id)

omit [DecidableEq β] in
/-- Adjust a request for the drafts that were rejected. -/
def rejectDrafts (id : Nat) (numDraftTokens : Nat) (generatedTokenIds : List Nat) : Scheduler β :=
  if numDraftTokens = 0 ∨ generatedTokenIds = [] then s
  else
    let numAccepted : Int := generatedTokenIds.length - 1
    let numRejected := numDraftTokens - numAccepted
    s.modify id fun r => { r with
      numComputedTokens :=
        if 0 < r.numComputedTokens then r.numComputedTokens - numRejected else r.numComputedTokens
      numOutputPlaceholders :=
        if 0 < r.numOutputPlaceholders then r.numOutputPlaceholders - numRejected
        else r.numOutputPlaceholders }

/-- Check for stop and update the status of a request. -/
def checkOutput (id : Nat) (newTokenIds : List Nat) (hasPoolerOutput : Bool) :
    Except PyError (Bool × Scheduler β) :=
  if newTokenIds ≠ [] then do
    let (_, stopped, s) ← s.updateRequestWithOutput cfg id newTokenIds
    return (stopped, s)
  else if (s.request id).pooling && hasPoolerOutput then
    -- pooling stops as soon as there is output
    return (true, s.modify id fun r => { r with status := .finishedStopped })
  else return (false, s)

omit [DecidableEq β] in
/-- What happens to a request that stopped. -/
def handleStopped (requestFinished : Nat → Bool) (id : Nat) : Except PyError (Scheduler β) := do
  let (finished, s) ← s.handleStoppedRequest cfg id
  if finished then s.freeRequest cfg requestFinished id false else return s

/-- The body of the loop of `update_from_output`. -/
def processOutput (output : SchedulerOutput) (out : ModelRunnerOutput)
    (failedKvLoadReqIds : List Nat) (acc : Scheduler β × Stopped) (entry : Nat × Int) :
    Except PyError (Scheduler β × Stopped) := do
  let (s, c) := acc
  let (id, numTokensScheduled) := entry
  pyAssert (0 < numTokensScheduled) "num_tokens_scheduled > 0"
  if id ∈ failedKvLoadReqIds then return (s, c)
  -- finished already: aborted while the model was executing it
  else if id ∉ s.requests ∨ (s.request id).isFinished then return (s, c)
  else do
    let s := s.rejectDrafts id ((output.scheduledSpecDecodeTokens.get? id).getD []).length
      (out.sampledTokenIds id)
    let statusBeforeStop := (s.request id).status
    let (stopped, s) ← s.checkOutput cfg id (out.sampledTokenIds id) (out.hasPoolerOutput id)
    if !stopped then return (s, c)
    else do
      let s ← s.handleStopped cfg out.requestFinished id
      if statusBeforeStop = .running then
        return (s, { c with stoppedRunningReqs := c.stoppedRunningReqs ++ [id] })
      else return (s, { c with stoppedPreemptedReqs := c.stoppedPreemptedReqs ++ [id] })

section

omit [DecidableEq β]

/-- Remove the stopped requests from the queues. -/
def removeStopped (c : Stopped) : Scheduler β :=
  { s with
    running := removeAll s.running c.stoppedRunningReqs
    waiting :=
      if c.stoppedPreemptedReqs = [] then s.waiting
      else RequestQueue.removeRequests cfg.policy s.requestLt s.waiting c.stoppedPreemptedReqs }

/-! ## Finished transfers -/

/-- A transfer to here is done: the request can be scheduled, or its blocks can go. -/
def finishedRecving (id : Nat) : Except PyError (Scheduler β) := do
  pyAssert (id ∈ s.requests) "req_id in self.requests"
  if (s.request id).status = .waitingForRemoteKvs then
    return { s with finishedRecvingKvReqIds := s.finishedRecvingKvReqIds.insert id }
  else do
    pyAssert (s.request id).isFinished "RequestStatus.is_finished(req.status)"
    s.freeBlocks cfg id

/-- A transfer from here is done. -/
def finishedSending (id : Nat) : Except PyError (Scheduler β) := do
  pyAssert (id ∈ s.requests) "req_id in self.requests"
  s.freeBlocks cfg id

/-- `_update_from_kv_xfer_finished`. -/
def updateFromKvXferFinished (k : KVConnectorOutput) : Except PyError (Scheduler β) := do
  let s ← k.finishedRecving.foldlM (fun s id => s.finishedRecving cfg id) s
  k.finishedSending.foldlM (fun s id => s.finishedSending cfg id) s

/-- Finish the requests whose loads failed, unless they are recomputed. -/
def failKvLoads (requestFinished : Nat → Bool) (failedKvLoadReqIds : List Nat) :
    Except PyError (Scheduler β) :=
  if failedKvLoadReqIds = [] ∨ cfg.recomputeKvLoadFailures then return s
  else s.finishRequests cfg requestFinished (some failedKvLoadReqIds) .finishedError

end

/-- The failed loads of a step, if the connector reports any. -/
def failedKvLoads (k : Option KVConnectorOutput) : Except PyError (List Nat × Scheduler β) :=
  match k with
  | none => return ([], s)
  | some k => if k.invalidBlockIds = [] then return ([], s) else s.handleInvalidBlocks cfg k.invalidBlockIds

/-- `update_from_output`. -/
def updateFromOutput (output : SchedulerOutput) (out : ModelRunnerOutput) :
    Except PyError (Scheduler β) := do
  let (failedKvLoadReqIds, s) ← s.failedKvLoads cfg out.kvConnectorOutput
  let (s, c) ← output.numScheduledTokens.entries.foldlM
    (processOutput cfg output out failedKvLoadReqIds) (s, {})
  let s := s.removeStopped cfg c
  let s ← s.failKvLoads cfg out.requestFinished failedKvLoadReqIds
  match out.kvConnectorOutput with
  | none => return s
  | some k => s.updateFromKvXferFinished cfg k

/-! ## Drafts -/

section

omit [DecidableEq β]

/-- `update_draft_token_ids` for one request. -/
def updateDraft (validateTokens : Nat → List Int → List Int) (draft : Nat × List Int) :
    Scheduler β :=
  let (id, specTokenIds) := draft
  if id ∉ s.requests ∨ (s.request id).isFinished then s
  -- no drafts for prefill chunks
  else if (s.request id).isPrefillChunk then s.modify id fun r => { r with specTokenIds := [] }
  else s.modify id fun r => { r with specTokenIds := validateTokens id specTokenIds }

/-- `update_draft_token_ids`. -/
def updateDraftTokenIds (validateTokens : Nat → List Int → List Int)
    (drafts : List (Nat × List Int)) : Scheduler β :=
  drafts.foldl (fun s draft => s.updateDraft validateTokens draft) s

/-- `update_draft_token_ids_in_output`: real drafts in the place of the placeholders. -/
def updateDraftTokenIdsInOutput (validateTokens : Nat → List Int → List Int)
    (drafts : List (Nat × List Int)) (output : SchedulerOutput) : SchedulerOutput :=
  drafts.foldl (fun output (id, specTokenIds) =>
    if id ∉ s.requests ∨ (s.request id).isFinished then output
    else
      match output.scheduledSpecDecodeTokens.get? id with
      | none => output
      | some placeholders =>
        if placeholders = [] then output
        else
          -- trimmed to what was scheduled, and padded to it again
          let valid := validateTokens id (specTokenIds.take placeholders.length)
          let padded := valid ++ List.replicate (placeholders.length - valid.length) (-1)
          { output with
            scheduledSpecDecodeTokens := output.scheduledSpecDecodeTokens.set id padded }) output

end

end Scheduler
end Yuan.Core
