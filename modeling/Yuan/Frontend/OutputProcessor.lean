import Yuan.Frontend.ParallelSampling

/-!
# The output processor

It keeps a state for each live request, an index from external to internal request ids, and the parents
of parallel sampling whose children are live. Requests are added by the front end, their states advance
with the engine's outputs, and they are removed when they finish or are aborted.
-/

namespace Yuan.Frontend

variable {L : Type}

/-- The data of a pooling output, which is only passed on. -/
abbrev Tensor := List Int

/-- `EMPTY_CPU_TENSOR`. -/
def emptyCpuTensor : Tensor := []

structure RequestOutput (L : Type) where
  requestId : String
  prompt : Option String
  promptTokenIds : List Nat
  promptLogprobs : Option (List (Option L))
  outputs : List (Option (CompletionOutput L))
  finished : Bool
  numCachedTokens : Nat
  deriving DecidableEq, Repr

structure PoolingRequestOutput where
  requestId : String
  outputs : Tensor
  promptTokenIds : List Nat
  numCachedTokens : Nat
  finished : Bool
  deriving DecidableEq, Repr

/-- What is handed to the user; `streamFinished` is the sentinel for streaming inputs. -/
inductive Output (L : Type) where
  | request (output : RequestOutput L)
  | pooling (output : PoolingRequestOutput)
  | streamFinished
  deriving DecidableEq, Repr

/-- `request_output.finished = False`. -/
def Output.unfinished : Output L → Output L
  | .request output => .request { output with finished := false }
  | .pooling output => .pooling { output with finished := false }
  | .streamFinished => .streamFinished

structure StreamingUpdate where
  prompt : Option String
  promptTokenIds : Option (List Nat)
  final : Bool := false
  deriving DecidableEq, Repr

/-- An output of the engine for one request. -/
structure EngineCoreOutput (L : Type) where
  requestId : String
  newTokenIds : List Nat := []
  newLogprobs : Option (List L) := none
  newPromptLogprobs : Option (List L) := none
  poolingOutput : Option Tensor := none
  finishReason : Option FinishReason := none
  stopReason : Option StopReason := none
  numCachedTokens : Nat := 0
  deriving DecidableEq, Repr

/-! ## The state of one request -/

/-- `parent_req` is given by the id of the parent; `queue` says whether outputs are put into a queue. -/
structure RequestState (L : Type) where
  requestId : String
  externalReqId : String
  parentReq : Option String
  requestIndex : Nat
  outputKind : RequestOutputKind
  prompt : Option String
  promptTokenIds : Option (List Nat)
  promptEmbeds : Option Nat
  promptLen : Nat
  logprobsProcessor : Option (LogprobsProcessor L)
  detokenizer : Option IncrementalDetokenizer
  isPrefilling : Bool := true
  queue : Bool
  numCachedTokens : Nat := 0
  streamInterval : Nat
  sentTokensOffset : Nat := 0
  streamingInput : Bool
  inputChunkQueue : Option (List StreamingUpdate)

namespace RequestState

/-- `apply_streaming_update`. -/
def applyStreamingUpdate (rs : RequestState L) (update : StreamingUpdate) : RequestState L :=
  let new := update.promptTokenIds.getD []
  let promptTokenIds := match rs.promptTokenIds with
    | some (tokenId :: tokenIds) => tokenId :: tokenIds ++ new
    | _ => new
  { rs with
    streamingInput := !update.final
    prompt := match update.prompt with
      | none => rs.prompt
      | some text => if text = "" then rs.prompt else some (rs.prompt.getD "" ++ text)
    promptTokenIds := some promptTokenIds
    promptLen := promptTokenIds.length
    isPrefilling := true }

/-- The kind of output, the log probabilities and the detokenizer, by the kind of request. -/
def outputTools (tokenizer : Option Tokenizer) (request : EngineCoreRequest) :
    Except PyError
      (RequestOutputKind × Option (LogprobsProcessor L) × Option IncrementalDetokenizer) :=
  match request.samplingParams, request.poolingParams with
  | some params, _ => do
    let detokenizer ← IncrementalDetokenizer.fromNewRequest
      (if params.detokenize then tokenizer else none) request params
    return (params.outputKind, some (LogprobsProcessor.fromNewRequest params), some detokenizer)
  | none, some outputKind => .ok (outputKind, none, none)
  | none, none => .error (.assertionError "request.pooling_params is not None")

/-- `from_new_request`. -/
def fromNewRequest (tokenizer : Option Tokenizer) (request : EngineCoreRequest)
    (prompt : Option String) (parentReq : Option String) (requestIndex : Nat) (queue : Bool)
    (streamInterval : Nat) : Except PyError (RequestState L) := do
  let (outputKind, logprobsProcessor, detokenizer) ← outputTools tokenizer request
  match request.externalReqId with
  | none => .error (.assertionError "request.external_req_id is not None")
  | some externalReqId =>
    let promptLen ← promptLength request.promptTokenIds request.promptEmbeds
    return {
      requestId := request.requestId
      externalReqId := externalReqId
      parentReq := parentReq
      requestIndex := requestIndex
      outputKind := outputKind
      prompt := prompt
      promptTokenIds := request.promptTokenIds
      promptEmbeds := request.promptEmbeds
      promptLen := promptLen
      logprobsProcessor := logprobsProcessor
      detokenizer := detokenizer
      queue := queue
      streamInterval := streamInterval
      streamingInput := request.resumable
      inputChunkQueue := if request.resumable then some [] else none }

/-- `make_request_output`: the tokens to send now, `none` where the output is skipped. -/
def tokensToSend (rs : RequestState L) (newTokenIds : List Nat) (finished : Bool) :
    Except PyError (Option (RequestState L × List Nat)) :=
  if rs.streamInterval > 1 then
    match rs.detokenizer with
    | none => .error (.assertionError "self.detokenizer is not None")
    | some detokenizer =>
      if finished || rs.sentTokensOffset = 0 ||
          (detokenizer.numOutputTokens : Int) - rs.sentTokensOffset ≥ rs.streamInterval then
        if rs.outputKind = .delta then
          .ok (some ({ rs with sentTokensOffset := detokenizer.numOutputTokens },
            detokenizer.outputTokenIds.drop rs.sentTokensOffset))
        else .ok (some (rs, newTokenIds))
      else .ok none
  else .ok (some (rs, newTokenIds))

/-- `logprobs[-count:]`, which for `count = 0` is the whole list. -/
def lastLogprobs (logprobs : List L) (count : Nat) : List L :=
  if count = 0 then logprobs else logprobs.drop (logprobs.length - count)

/-- `_new_completion_output`. -/
def newCompletionOutput (rs : RequestState L) (tokenIds : List Nat)
    (finishReason : Option FinishReason) (stopReason : Option StopReason) :
    Except PyError (RequestState L × CompletionOutput L) :=
  match rs.detokenizer, rs.logprobsProcessor with
  | none, _ => .error (.assertionError "self.detokenizer is not None")
  | some _, none => .error (.assertionError "self.logprobs_processor is not None")
  | some detokenizer, some logprobsProcessor =>
    let finished := finishReason.isSome
    let delta := decide (rs.outputKind = .delta)
    let (detokenizer, text) := detokenizer.getNextOutputText finished delta
    let tokenIds := if delta then tokenIds else detokenizer.outputTokenIds
    let logprobs := match logprobsProcessor.logprobs with
      | none => none
      | some logprobs =>
        some (if delta ∧ logprobs ≠ [] then lastLogprobs logprobs tokenIds.length else logprobs)
    .ok ({ rs with detokenizer := some detokenizer }, {
      index := rs.requestIndex
      text := text
      tokenIds := tokenIds
      logprobs := logprobs
      finishReason := finishReason
      stopReason := if finished then stopReason else none })

/-- The prompt's token ids in an output; prompt embeddings have placeholders. -/
def outputPromptTokenIds (rs : RequestState L) : Except PyError (List Nat) :=
  match rs.promptTokenIds, rs.promptEmbeds with
  | some tokenIds, _ => .ok tokenIds
  | none, some embeds => .ok (List.replicate embeds 0)
  | none, none => .error (.assertionError "prompt_token_ids is not None")

/-- `_new_request_output` of a pooling output. -/
def newPoolingRequestOutput (rs : RequestState L) (externalReqId : String) (data : Tensor)
    (finished : Bool) : Except PyError (Output L) := do
  let promptTokenIds ← rs.outputPromptTokenIds
  return .pooling {
    requestId := externalReqId
    outputs := data
    promptTokenIds := promptTokenIds
    numCachedTokens := rs.numCachedTokens
    finished := finished }

/-- `_new_request_output` of completions. -/
def newRequestOutput (rs : RequestState L) (externalReqId : String)
    (outputs : List (Option (CompletionOutput L))) (finished : Bool) :
    Except PyError (RequestState L × Output L) := do
  let promptTokenIds ← rs.outputPromptTokenIds
  match rs.logprobsProcessor with
  | none => .error (.assertionError "self.logprobs_processor is not None")
  | some logprobsProcessor =>
    let (logprobsProcessor, promptLogprobs) :=
      if rs.outputKind = .delta then logprobsProcessor.popPromptLogprobs
      else (logprobsProcessor, logprobsProcessor.promptLogprobs)
    return ({ rs with logprobsProcessor := some logprobsProcessor }, .request {
      requestId := externalReqId
      prompt := rs.prompt
      promptTokenIds := promptTokenIds
      promptLogprobs := promptLogprobs
      outputs := outputs
      finished := finished
      numCachedTokens := rs.numCachedTokens })

/-- A request output for what `get_outputs` returns, if it returns anything. -/
def newParentOutput (rs : RequestState L) (parent : ParentRequest L)
    (outputs : List (Option (CompletionOutput L))) (finished : Bool) :
    Except PyError (RequestState L × Option (Output L)) :=
  if outputs = [] then .ok (rs, none)
  else do
    let (rs, output) ← rs.newRequestOutput parent.externalReqId outputs finished
    return (rs, some output)

/-- The completion goes into a request output directly, or through the parent. -/
def dispatch (rs : RequestState L) (parent : Option (ParentRequest L)) (output : CompletionOutput L)
    (finished : Bool) :
    Except PyError (RequestState L × Option (ParentRequest L) × Option (Output L)) :=
  match parent with
  | none => do
    let (rs, output) ← rs.newRequestOutput rs.externalReqId [some output] finished
    return (rs, none, some output)
  | some parent => do
    let (parent, outputs, finished) ← parent.getOutputs rs.requestId output
    let (rs, output) ← rs.newParentOutput parent outputs finished
    return (rs, some parent, output)

/-- `make_request_output` behind the stream interval. -/
def buildOutput (rs : RequestState L) (parent : Option (ParentRequest L)) (newTokenIds : List Nat)
    (poolingOutput : Option Tensor) (finishReason : Option FinishReason)
    (stopReason : Option StopReason) :
    Except PyError (RequestState L × Option (ParentRequest L) × Option (Output L)) :=
  match poolingOutput with
  | some data => do
    let output ← rs.newPoolingRequestOutput rs.externalReqId data finishReason.isSome
    return (rs, parent, some output)
  | none => do
    let (rs, completion) ← rs.newCompletionOutput newTokenIds finishReason stopReason
    rs.dispatch parent completion finishReason.isSome

/-- `make_request_output`. -/
def makeRequestOutput (rs : RequestState L) (parent : Option (ParentRequest L))
    (newTokenIds : List Nat) (poolingOutput : Option Tensor) (finishReason : Option FinishReason)
    (stopReason : Option StopReason) :
    Except PyError (RequestState L × Option (ParentRequest L) × Option (Output L)) :=
  if finishReason = none ∧ rs.outputKind = .finalOnly then .ok (rs, parent, none)
  else do
    match ← rs.tokensToSend newTokenIds finishReason.isSome with
    | none => return (rs, parent, none)
    | some (rs, newTokenIds) =>
      rs.buildOutput parent newTokenIds poolingOutput finishReason stopReason

/-- `process_outputs`, steps 2 and 3: detokenizes, checks for stop strings, and adds the log
probabilities. Returns the reasons to finish. -/
def decodeOutput (rs : RequestState L) (o : EngineCoreOutput L) :
    Except PyError (RequestState L × Option FinishReason × Option StopReason) :=
  let rs := { rs with numCachedTokens := o.numCachedTokens, isPrefilling := false }
  match o.poolingOutput, rs.detokenizer, rs.logprobsProcessor with
  | some _, _, _ => .ok (rs, o.finishReason, o.stopReason)
  | none, none, _ => .error (.assertionError "req_state.detokenizer is not None")
  | none, some _, none => .error (.assertionError "req_state.logprobs_processor is not None")
  | none, some detokenizer, some logprobsProcessor => do
    let (detokenizer, stopString) :=
      detokenizer.update o.newTokenIds (decide (o.finishReason = some .stop))
    let logprobsProcessor ← logprobsProcessor.updateFromOutput o.newLogprobs o.newPromptLogprobs
    let rs := { rs with
      detokenizer := some detokenizer, logprobsProcessor := some logprobsProcessor }
    match stopString with
    | some (c :: s) => return (rs, some .stop, some (.str (c :: s)))
    | _ => return (rs, o.finishReason, o.stopReason)

/-- `process_outputs`, steps 2 to 4, up to the delivery of the output. -/
def advance (rs : RequestState L) (parent : Option (ParentRequest L)) (o : EngineCoreOutput L) :
    Except PyError (RequestState L × Option (ParentRequest L) × Option (Output L) ×
      Option FinishReason) := do
  let (rs, finishReason, stopReason) ← rs.decodeOutput o
  let (rs, parent, output) ← rs.makeRequestOutput parent o.newTokenIds o.poolingOutput finishReason
    stopReason
  let output := if rs.streamingInput then output.map Output.unfinished else output
  return (rs, parent, output, finishReason)

/-- The final output of a request that is aborted. -/
def abortOutput (rs : RequestState L) (parent : Option (ParentRequest L)) :
    Except PyError (RequestState L × Option (ParentRequest L) × Option (Output L)) :=
  rs.makeRequestOutput parent [] (if rs.detokenizer.isNone then some emptyCpuTensor else none)
    (some .abort) none

end RequestState

/-! ## The processor -/

/-- `parents` are the parent objects, which the states, the index and the fan-out share; `sent` records
what was put into the queues, with the id of the request that it was put for. -/
structure OutputProcessor (L : Type) where
  tokenizer : Option Tokenizer
  streamInterval : Nat := 1
  requestStates : Dict String (RequestState L) := .empty
  parentRequests : List String := []
  externalReqIds : Dict String (List String) := .empty
  parents : String → Option (ParentRequest L) := fun _ => none
  sent : List (String × Output L) := []

namespace OutputProcessor

/-- The parent object of a state. -/
def parentOf (p : OutputProcessor L) (rs : RequestState L) : Option (ParentRequest L) :=
  rs.parentReq.bind p.parents

@[simp]
theorem parentOf_of_none {p : OutputProcessor L} {rs : RequestState L} (halone : rs.parentReq = none) :
    p.parentOf rs = none := by
  simp [parentOf, halone]

@[simp]
theorem parentOf_of_some {p : OutputProcessor L} {rs : RequestState L} {q : String}
    (hq : rs.parentReq = some q) : p.parentOf rs = p.parents q := by
  simp [parentOf, hq]

def setParent (p : OutputProcessor L) (id : Option String) (parent : Option (ParentRequest L)) :
    OutputProcessor L :=
  match id, parent with
  | some id, some parent => { p with parents := Function.update p.parents id (some parent) }
  | _, _ => p

def setState (p : OutputProcessor L) (rs : RequestState L) : OutputProcessor L :=
  { p with requestStates := p.requestStates.set rs.requestId rs }

/-- Puts an output into the queue of a request. -/
def put (p : OutputProcessor L) (rs : RequestState L) (output : Option (Output L)) :
    OutputProcessor L :=
  { p with sent := p.sent ++ output.toList.map fun output => (rs.requestId, output) }

section Fields

variable (p : OutputProcessor L) (rs : RequestState L) (id : Option String)
  (parent : Option (ParentRequest L)) (output : Option (Output L))

@[simp] theorem setParent_requestStates : (p.setParent id parent).requestStates = p.requestStates := by
  unfold setParent
  split <;> rfl

@[simp] theorem setParent_externalReqIds : (p.setParent id parent).externalReqIds = p.externalReqIds := by
  unfold setParent
  split <;> rfl

@[simp] theorem setParent_parentRequests : (p.setParent id parent).parentRequests = p.parentRequests := by
  unfold setParent
  split <;> rfl

@[simp] theorem setParent_streamInterval : (p.setParent id parent).streamInterval = p.streamInterval := by
  unfold setParent
  split <;> rfl

@[simp] theorem setParent_tokenizer : (p.setParent id parent).tokenizer = p.tokenizer := by
  unfold setParent
  split <;> rfl

@[simp] theorem put_requestStates : (p.put rs output).requestStates = p.requestStates := rfl

@[simp] theorem put_externalReqIds : (p.put rs output).externalReqIds = p.externalReqIds := rfl

@[simp] theorem put_parentRequests : (p.put rs output).parentRequests = p.parentRequests := rfl

@[simp] theorem put_parents : (p.put rs output).parents = p.parents := rfl

end Fields

/-- Removes an internal id from `external_req_ids`, and the list with its last id. A missing list is a
new empty one. -/
def removeInternalId (p : OutputProcessor L) (rs : RequestState L) :
    Except PyError (OutputProcessor L) :=
  let internalIds := (p.externalReqIds.get? rs.externalReqId).getD []
  if rs.requestId ∈ internalIds then
    let rest := internalIds.erase rs.requestId
    if rest = [] then .ok { p with externalReqIds := p.externalReqIds.erase rs.externalReqId }
    else .ok { p with externalReqIds := p.externalReqIds.set rs.externalReqId rest }
  else .error (.valueError "list.remove(x): x not in list")

/-- The parent is dropped with its last child. -/
def removeParent (p : OutputProcessor L) (rs : RequestState L) : OutputProcessor L :=
  match rs.parentReq, p.parentOf rs with
  | some id, some parent =>
    if parent.childRequests = [] then { p with parentRequests := p.parentRequests.erase id } else p
  | _, _ => p

/-- `_finish_request`. -/
def finishRequest (p : OutputProcessor L) (rs : RequestState L) :
    Except PyError (OutputProcessor L) :=
  match p.requestStates.get? rs.requestId with
  | none => .error (.keyError rs.requestId)
  | some _ => do
    let p ← { p with requestStates := p.requestStates.erase rs.requestId }.removeInternalId rs
    return p.removeParent rs

/-- `_update_streaming_request_state`. -/
def updateStreamingRequestState (p : OutputProcessor L) (rs : RequestState L)
    (request : EngineCoreRequest) (prompt : Option String) : Except PyError (OutputProcessor L) :=
  let update : StreamingUpdate := { prompt := prompt, promptTokenIds := request.promptTokenIds }
  if request.resumable then
    match rs.inputChunkQueue with
    -- the last input has completed already
    | none => .ok (p.setState { rs.applyStreamingUpdate update with inputChunkQueue := some [] })
    | some chunks => .ok (p.setState { rs with inputChunkQueue := some (chunks ++ [update]) })
  else
    match rs.inputChunkQueue with
    | none => do
      let p ← p.finishRequest rs
      return if rs.queue then p.put rs (some .streamFinished) else p
    | some chunks =>
      match chunks.getLast? with
      | some last =>
        let chunks := chunks.dropLast ++ [{ last with final := true }]
        .ok (p.setState { rs with inputChunkQueue := some chunks })
      | none => .ok (p.setState { rs with streamingInput := false })

/-- Appends to the list of an external id, a new one if there is none. -/
def appendInternalId (p : OutputProcessor L) (rs : RequestState L) : OutputProcessor L :=
  let internalIds := (p.externalReqIds.get? rs.externalReqId).getD []
  { p with externalReqIds := p.externalReqIds.set rs.externalReqId (internalIds ++ [rs.requestId]) }

/-- `self.parent_requests[parent_req.request_id] = parent_req`. -/
def addParent (p : OutputProcessor L) : Option String → OutputProcessor L
  | none => p
  | some id =>
    if id ∈ p.parentRequests then p else { p with parentRequests := p.parentRequests ++ [id] }

/-- `add_request`. -/
def addRequest (p : OutputProcessor L) (request : EngineCoreRequest) (prompt : Option String)
    (parentReq : Option String) (requestIndex : Nat) (queue : Bool) :
    Except PyError (OutputProcessor L) :=
  match p.requestStates.get? request.requestId with
  | some rs => p.updateStreamingRequestState rs request prompt
  | none => do
    let rs ← RequestState.fromNewRequest p.tokenizer request prompt parentReq requestIndex queue
      p.streamInterval
    return ((p.setState rs).addParent parentReq).appendInternalId rs

/-! ## Outputs of the engine -/

/-- The end of an input of a streaming session, or of the request. The id is returned if the engine has
to be told. -/
def complete (p : OutputProcessor L) (rs : RequestState L) (o : EngineCoreOutput L) :
    Except PyError (OutputProcessor L × List String) :=
  if rs.streamingInput then
    match rs.inputChunkQueue with
    | some (update :: chunks) =>
      .ok (p.setState ({ rs with inputChunkQueue := some chunks }.applyStreamingUpdate update), [])
    | _ => .ok (p.setState { rs with inputChunkQueue := none }, [])
  else do
    let p ← p.finishRequest rs
    return (p, if o.finishReason = none then [rs.requestId] else [])

/-- `complete`, for a reason to finish. -/
def completeFor (p : OutputProcessor L) (rs : RequestState L) (o : EngineCoreOutput L) :
    Option FinishReason → Except PyError (OutputProcessor L × List String)
  | none => .ok (p, [])
  | some _ => p.complete rs o

/-- `process_outputs` for the output of a live request: the outputs that are returned, and the requests
to abort. -/
def processLive (p : OutputProcessor L) (rs : RequestState L) (o : EngineCoreOutput L) :
    Except PyError (OutputProcessor L × List (Output L) × List String) := do
  let (rs, parent, output, finishReason) ← rs.advance (p.parentOf rs) o
  let p := (p.setState rs).setParent rs.parentReq parent
  let p := if rs.queue then p.put rs output else p
  let (p, reqsToAbort) ← p.completeFor rs o finishReason
  return (p, if rs.queue then [] else output.toList, reqsToAbort)

/-- `process_outputs` for one output. One for a request that is gone is ignored. -/
def processOutput (p : OutputProcessor L) (o : EngineCoreOutput L) :
    Except PyError (OutputProcessor L × List (Output L) × List String) :=
  match p.requestStates.get? o.requestId with
  | none => .ok (p, [], [])
  | some rs => p.processLive rs o

/-- `process_outputs`. -/
def processOutputs (p : OutputProcessor L) :
    List (EngineCoreOutput L) → Except PyError (OutputProcessor L × List (Output L) × List String)
  | [] => .ok (p, [], [])
  | o :: outputs => do
    let (p, requestOutputs, reqsToAbort) ← p.processOutput o
    let (p, moreOutputs, moreAborts) ← p.processOutputs outputs
    return (p, requestOutputs ++ moreOutputs, reqsToAbort ++ moreAborts)

/-! ## Aborts -/

/-- `abort_requests`, first loop, for one id: the internal ids to abort. -/
def collectId (p : OutputProcessor L) (internal : Bool) (id : String) :
    Except PyError (OutputProcessor L × List String) :=
  if internal then
    match p.requestStates.get? id with
    | none => .ok (p, [id])
    | some rs => do
      let p ← p.removeInternalId rs
      return (p, [id])
  else
    match p.externalReqIds.get? id with
    | none => .ok (p, [])
    | some internalIds => .ok ({ p with externalReqIds := p.externalReqIds.erase id }, internalIds)

/-- The first loop. -/
def collectIds (p : OutputProcessor L) (internal : Bool) :
    List String → Except PyError (OutputProcessor L × List String)
  | [] => .ok (p, [])
  | id :: ids => do
    let (p, internalIds) ← p.collectId internal id
    let (p, more) ← p.collectIds internal ids
    return (p, internalIds ++ more)

/-- A request that has a queue gets a final output. -/
def putAbortOutput (p : OutputProcessor L) (rs : RequestState L) : Except PyError (OutputProcessor L) :=
  if rs.queue then do
    let (rs, parent, output) ← rs.abortOutput (p.parentOf rs)
    return (p.setParent rs.parentReq parent).put rs output
  else .ok p

/-- A child-by-child abort, for the children that are left. -/
def abortChildren
    (recurse : OutputProcessor L → List String → Except PyError (OutputProcessor L × List String))
    (p : OutputProcessor L) (childRequests : List String) :
    Except PyError (OutputProcessor L × List String) :=
  if childRequests = [] then .ok (p, []) else recurse p childRequests

/-- The second loop of `abort_requests`, for one internal id. -/
def abortOne
    (recurse : OutputProcessor L → List String → Except PyError (OutputProcessor L × List String))
    (p : OutputProcessor L) (id : String) : Except PyError (OutputProcessor L × List String) :=
  match p.requestStates.get? id with
  | some rs => do
    let p ← { p with requestStates := p.requestStates.erase id }.putAbortOutput rs
    return (p, [id])
  | none =>
    if id ∈ p.parentRequests then do
      -- children are aborted before the parent is removed
      let (p, aborted) ← abortChildren recurse p
        (((p.parents id).map ParentRequest.childRequests).getD [])
      return ({ p with parentRequests := p.parentRequests.erase id }, aborted)
    else .ok (p, [])

/-- The second loop. -/
def abortEach
    (recurse : OutputProcessor L → List String → Except PyError (OutputProcessor L × List String))
    (p : OutputProcessor L) : List String → Except PyError (OutputProcessor L × List String)
  | [] => .ok (p, [])
  | id :: ids => do
    let (p, aborted) ← abortOne recurse p id
    let (p, more) ← abortEach recurse p ids
    return (p, aborted ++ more)

/-- `abort_requests`, to a depth of recursion. -/
def abortRequestsTo : Nat → OutputProcessor L → Bool → List String →
    Except PyError (OutputProcessor L × List String)
  | 0, _, _, _ => .error (.runtimeError "maximum recursion depth exceeded")
  | depth + 1, p, internal, ids => do
    let (p, internalReqIds) ← p.collectIds internal ids
    abortEach (fun p childRequests => abortRequestsTo depth p true childRequests) p internalReqIds

/-- `abort_requests`. A parent's children are not parents themselves, but each level of the recursion
would be one of the parents. -/
def abortRequests (p : OutputProcessor L) (ids : List String) (internal : Bool) :
    Except PyError (OutputProcessor L × List String) :=
  abortRequestsTo (p.parentRequests.length + 2) p internal ids

end OutputProcessor

end Yuan.Frontend
