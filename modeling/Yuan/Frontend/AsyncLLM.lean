import Yuan.Frontend.OutputProcessor

/-!
# The front end

`AsyncLLM` puts the outputs of a request into its queue, `LLMEngine` returns them. Both add requests to the
output processor, fan out those with `n > 1` child by child, hand it the engine's outputs, and abort
requests. In `AsyncLLM` the rounds of a fan-out and everything else may come in any order.
-/

namespace Yuan.Frontend

variable {L : Type}

/-- A request that is fanned out, with the index of the next child. -/
structure FanOut where
  request : EngineCoreRequest
  params : SamplingParams
  prompt : Option String
  next : Nat := 0

/-- `queue` says whether requests have queues. -/
structure AsyncLLM (L : Type) where
  processor : OutputProcessor L
  queue : Bool
  fanOuts : String → Option FanOut := fun _ => none

inductive FrontendOp (L : Type) where
  /-- A request with `n = 1`, or an input of a streaming session. -/
  | addRequest (request : EngineCoreRequest) (prompt : Option String)
  /-- The start of a fan-out. -/
  | parentRequest (request : EngineCoreRequest) (prompt : Option String)
  /-- A round of the loop of a fan-out. -/
  | addChild (parentId : String)
  | processOutputs (outputs : List (EngineCoreOutput L))
  | abort (requestIds : List String) (internal : Bool)

namespace AsyncLLM

/-- `parent_request = ParentRequest(request)`. -/
def parentRequest (llm : AsyncLLM L) (request : EngineCoreRequest) (prompt : Option String) :
    Except PyError (AsyncLLM L) :=
  match request.externalReqId, request.samplingParams with
  | none, _ => .error (.assertionError "request.external_req_id is not None")
  | some _, none => .error (.assertionError "isinstance(parent_params, SamplingParams)")
  | some externalReqId, some params =>
    let parent := ParentRequest.new request.requestId externalReqId params
    let processor := { llm.processor with
      parents := Function.update llm.processor.parents request.requestId (some parent) }
    let fanOut : FanOut := { request := request, params := params, prompt := prompt }
    .ok { llm with
      processor := processor
      fanOuts := Function.update llm.fanOuts request.requestId (some fanOut) }

/-- A round of `for idx in range(parent_params.n)`, up to the send to the engine. -/
def addChild (llm : AsyncLLM L) (parentId : String) : Except PyError (AsyncLLM L) :=
  match llm.fanOuts parentId, llm.processor.parents parentId with
  | some fanOut, some parent =>
    if fanOut.next < fanOut.params.n then do
      let (parent, requestId, childParams) := parent.getChildInfo fanOut.next
      let processor := { llm.processor with
        parents := Function.update llm.processor.parents parentId (some parent) }
      let childRequest := { fanOut.request with
        requestId := requestId, samplingParams := some childParams }
      let processor ← processor.addRequest childRequest fanOut.prompt (some parentId) fanOut.next
        llm.queue
      return { llm with
        processor := processor
        fanOuts := Function.update llm.fanOuts parentId
          (some { fanOut with next := fanOut.next + 1 }) }
    else .ok llm
  | _, _ => .ok llm

def step (llm : AsyncLLM L) : FrontendOp L → Except PyError (AsyncLLM L)
  | .addRequest request prompt => do
    let processor ← llm.processor.addRequest request prompt none 0 llm.queue
    return { llm with processor := processor }
  | .parentRequest request prompt => llm.parentRequest request prompt
  | .addChild parentId => llm.addChild parentId
  | .processOutputs outputs => do
    let (processor, _, _) ← llm.processor.processOutputs outputs
    return { llm with processor := processor }
  | .abort requestIds internal => do
    let (processor, _) ← llm.processor.abortRequests requestIds internal
    return { llm with processor := processor }

/-! ## What the callers promise -/

end AsyncLLM

/-- A request that passed the input processor. -/
def EngineCoreRequest.Valid (request : EngineCoreRequest) : Prop :=
  request.externalReqId.isSome ∧ (promptLength request.promptTokenIds request.promptEmbeds).toOption.isSome ∧
    (request.samplingParams.isSome ∨ request.poolingParams.isSome)

/-- The engine returns what the request asked for: pooling outputs or tokens, and log probabilities only
if they were asked for. -/
def RequestState.Answers (rs : RequestState L) (o : EngineCoreOutput L) : Prop :=
  (o.poolingOutput.isSome ↔ rs.detokenizer = none) ∧
    ∀ lp, rs.logprobsProcessor = some lp →
      (o.newLogprobs.isSome → lp.numLogprobs.isSome) ∧
      (o.newPromptLogprobs.isSome → lp.numPromptLogprobs.isSome)

namespace AsyncLLM

/-- An id that no live request, no parent and no child has. -/
def NewId (llm : AsyncLLM L) (id : String) : Prop :=
  llm.processor.requestStates.get? id = none ∧ llm.processor.parents id = none ∧
    ∀ q i, (llm.processor.parents q).isSome → id ≠ ParentRequest.childReqId q i

/-- What holds before an operation: ids are new, but for the inputs of a session; the engine answers
requests as they asked. -/
def Admits (llm : AsyncLLM L) : FrontendOp L → Prop
  | .addRequest request _ => request.Valid ∧
      ((∃ rs, llm.processor.requestStates.get? request.requestId = some rs ∧ rs.parentReq = none) ∨
        llm.NewId request.requestId)
  | .parentRequest request _ => request.Valid ∧ request.resumable = false ∧
      (∃ params, request.samplingParams = some params ∧ 1 < params.n) ∧
      llm.NewId request.requestId ∧
      ∀ i, llm.processor.requestStates.get? (ParentRequest.childReqId request.requestId i) = none ∧
        llm.processor.parents (ParentRequest.childReqId request.requestId i) = none
  | .addChild _ => True
  | .processOutputs outputs => ∀ o ∈ outputs, ∀ rs,
      llm.processor.requestStates.get? o.requestId = some rs → rs.Answers o
  | .abort _ _ => True

end AsyncLLM

end Yuan.Frontend
