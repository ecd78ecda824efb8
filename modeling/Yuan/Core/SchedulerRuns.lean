import Yuan.Core.UpdateFromOutput

/-!
# Runs of the scheduler

A run is any sequence of calls. Several steps may be in flight: `schedule` adds its output at the end
of a queue, and `update_from_output` gets the oldest one together with what the model made of it. The
worker sees the outputs in the order in which they were scheduled.
-/

namespace Yuan.Core

namespace Request

variable {β : Type}

/-- A request as `__init__` leaves it. -/
structure IsNew (hashes : HashFunctions β) (blockSize : Nat) (r : Request β) : Prop where
  status : r.status = if r.useStructuredOutput then .waitingForFsm else .waiting
  numPromptTokens : r.numPromptTokens = r.allTokenIds.length
  promptTokenIds : ∀ prompt, r.promptTokenIds = some prompt → r.allTokenIds = prompt
  outputTokenIds : r.outputTokenIds = []
  numOutputPlaceholders : r.numOutputPlaceholders = 0
  specTokenIds : r.specTokenIds = []
  numComputedTokens : r.numComputedTokens = 0
  numCachedTokens : r.numCachedTokens = -1
  isPrefillChunk : r.isPrefillChunk = false
  numPreemptions : r.numPreemptions = 0
  blockHashes : r.blockHashes = requestBlockHasher hashes blockSize { r with blockHashes := [] }
  streamingQueue : r.streamingQueue = none

end Request

/-- The scheduler, with the outputs that were scheduled and not processed yet, oldest first. -/
structure SchedulerRun (β : Type) where
  scheduler : Scheduler β
  inFlight : List SchedulerOutput := []

namespace SchedulerRun

/-- The calls of the engine. -/
inductive Op (β : Type) where
  | addRequest (requestFinished : Nat → Bool) (request : Request (List β))
  | schedule (env : ScheduleEnv)
  | updateFromOutput (out : ModelRunnerOutput)
  | updateDraftTokenIds (validateTokens : Nat → List Int → List Int) (drafts : List (Nat × List Int))
  | updateDraftTokenIdsInOutput (i : Nat) (validateTokens : Nat → List Int → List Int)
      (drafts : List (Nat × List Int))
  | finishRequests (requestFinished : Nat → Bool) (requestIds : Option (List Nat))
      (finishedStatus : RequestStatus)
  | resetPrefixCache (resetRunningRequests : Bool)
  | setPauseState (pauseState : PauseState)

variable {β : Type} [DecidableEq β] (cfg : SchedulerConfig β)

/-- `update_from_output` for the oldest output. -/
def updateOldest (r : SchedulerRun β) (out : ModelRunnerOutput) : Except PyError (SchedulerRun β) :=
  match r.inFlight with
  | [] => .error (.indexError "pop from an empty deque")
  | output :: inFlight => do
    let scheduler ← r.scheduler.updateFromOutput cfg output out
    return { scheduler, inFlight }

/-- One call. -/
def step (r : SchedulerRun β) : Op β → Except PyError (SchedulerRun β)
  | .addRequest requestFinished request => do
    let scheduler ← r.scheduler.addRequest cfg requestFinished request
    return { r with scheduler }
  | .schedule env => do
    let (output, scheduler) ← r.scheduler.schedule cfg env
    return { scheduler, inFlight := r.inFlight ++ [output] }
  | .updateFromOutput out => r.updateOldest cfg out
  | .updateDraftTokenIds validateTokens drafts =>
    return { r with scheduler := r.scheduler.updateDraftTokenIds validateTokens drafts }
  | .updateDraftTokenIdsInOutput i validateTokens drafts =>
    return { r with inFlight :=
      r.inFlight.modify i (r.scheduler.updateDraftTokenIdsInOutput validateTokens drafts) }
  | .finishRequests requestFinished requestIds finishedStatus => do
    let scheduler ← r.scheduler.finishRequests cfg requestFinished requestIds finishedStatus
    return { r with scheduler }
  | .resetPrefixCache resetRunningRequests => do
    let (_, scheduler) ← r.scheduler.resetPrefixCache cfg resetRunningRequests
    return { r with scheduler }
  | .setPauseState pauseState =>
    return { r with scheduler := { r.scheduler with pauseState } }

/-- What the callers see to: a request that is added is a new one. -/
def Op.Enabled : Op β → Prop
  | .addRequest _ request => request.IsNew cfg.hashes cfg.blockSize
  | _ => True

/-- The states of all runs whose steps meet a condition. -/
inductive ReachableWith (Meets : SchedulerRun β → Op β → Prop) : SchedulerRun β → Prop where
  | start {numGpuBlocks : Nat} {enableCaching : Bool} {encoderCacheSize : Nat}
      {numSinkBlocks sinkBlocks : List Nat} {kv : KVState (List β × Nat) Row}
      (h : PoolRuns.start numGpuBlocks enableCaching numSinkBlocks = .ok (sinkBlocks, kv)) :
      ReachableWith Meets { scheduler := .init kv encoderCacheSize }
  | step {r r' : SchedulerRun β} {op : Op β} (h : ReachableWith Meets r) (henabled : op.Enabled cfg)
      (hmeets : Meets r op) (hstep : r.step cfg op = .ok r') : ReachableWith Meets r'

/-- The states of all runs. -/
abbrev Reachable : SchedulerRun β → Prop := ReachableWith cfg fun _ _ => True

theorem ReachableWith.reachable {Meets : SchedulerRun β → Op β → Prop} {r : SchedulerRun β}
    (h : ReachableWith cfg Meets r) : Reachable cfg r := by
  induction h with
  | start h => exact .start h
  | step h henabled hmeets hstep ih => exact .step ih henabled trivial hstep

end SchedulerRun
end Yuan.Core
