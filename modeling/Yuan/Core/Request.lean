import Mathlib.Data.List.Basic
import Mathlib.Order.Basic

/-!
# `Request` and what it is made of

A request's token lists, its multi-modal items and the counters the scheduler keeps on it. Token
counts are `Int`s, because the scheduler subtracts from them. The type `β` of block hashes is a
parameter: what a digest looks like matters to nobody but the hash function.
-/

namespace Yuan.Core

/-- The place of a multi-modal item in the prompt; `isEmbed` marks the positions that take an
embedding, and all of them do when it is missing. -/
structure PlaceholderRange where
  offset : Nat
  length : Nat
  isEmbed : Option (List Bool) := none
  deriving DecidableEq, Repr

namespace PlaceholderRange

/-- `embeds_cumsum[i]`; a negative index counts from the end. -/
def embedsCumsum (mask : List Bool) (i : Int) : Int :=
  let i := if i < 0 then mask.length + i else i
  ((mask.take (i + 1).toNat).count true : Nat)

/-- Number of embeddings of the item. -/
def getNumEmbeds (p : PlaceholderRange) : Nat :=
  match p.isEmbed with
  | none => p.length
  | some mask => mask.count true

/-- Indices of the embeddings for the placeholders `start_idx .. end_idx`. -/
def getEmbedsIndicesInRange (p : PlaceholderRange) (startIdx endIdx : Int) : Int × Int :=
  match p.isEmbed with
  | none => (startIdx, endIdx)
  | some mask =>
    (if startIdx > 0 then embedsCumsum mask (startIdx - 1) else 0, embedsCumsum mask (endIdx - 1))

end PlaceholderRange

/-- A multi-modal item; items with one identifier have the same encoder output. -/
structure MultiModalFeatureSpec where
  identifier : String
  mmPosition : PlaceholderRange
  deriving DecidableEq, Repr

/-- The adapter a request asks for. -/
structure LoRARequest where
  loraName : String
  loraIntId : Nat
  deriving DecidableEq, Repr

/-- The status of a request, in the order of the enumeration. -/
inductive RequestStatus where
  | waiting
  | waitingForFsm
  | waitingForRemoteKvs
  | waitingForStreamingReq
  | running
  | preempted
  | finishedStopped
  | finishedLengthCapped
  | finishedAborted
  | finishedIgnored
  | finishedError
  | finishedRepetition
  deriving DecidableEq, Repr

/-- Every status behind `PREEMPTED` is a finished one. -/
def RequestStatus.isFinished : RequestStatus → Bool
  | .waiting | .waitingForFsm | .waitingForRemoteKvs | .waitingForStreamingReq | .running
  | .preempted => false
  | .finishedStopped | .finishedLengthCapped | .finishedAborted | .finishedIgnored
  | .finishedError | .finishedRepetition => true

/-- When a repeating tail of the output counts as a loop. -/
structure RepetitionDetectionParams where
  maxPatternSize : Nat
  minPatternSize : Nat
  minCount : Nat
  deriving DecidableEq, Repr

/-- The sampling parameters that decide when a request stops. -/
structure SamplingParams where
  minTokens : Nat := 0
  eosTokenId : Option Nat := none
  stopTokenIds : List Nat := []
  repetitionDetection : Option RepetitionDetectionParams := none
  deriving DecidableEq, Repr

/-- What stopped a request: a stop token, or a loop in its output. -/
inductive StopReason where
  | token (tokenId : Nat)
  | repetitionDetected
  deriving DecidableEq, Repr

/-- New input for a streaming session. -/
structure StreamingUpdate where
  mmFeatures : Option (List MultiModalFeatureSpec)
  promptTokenIds : Option (List Nat)
  maxTokens : Nat
  arrivalTime : Int
  samplingParams : Option SamplingParams := some {}
  deriving DecidableEq, Repr

/-- A request. `promptEmbeds` holds the bytes of one embedding per prompt token; a pooling request has
no sampling parameters. -/
structure Request (β : Type) where
  requestId : Nat
  priority : Int := 0
  arrivalTime : Int := 0
  status : RequestStatus := .waiting
  pooling : Bool := false
  samplingParams : Option SamplingParams := some {}
  stopReason : Option StopReason := none
  useStructuredOutput : Bool := false
  maxTokens : Nat := 16
  promptTokenIds : Option (List Nat)
  promptEmbeds : Option (List (List Nat)) := none
  numPromptTokens : Nat
  outputTokenIds : List Nat := []
  allTokenIds : List Nat
  numOutputPlaceholders : Int := 0
  discardLatestAsyncTokens : Bool := false
  specTokenIds : List Int := []
  numComputedTokens : Int := 0
  cacheSalt : Option String := none
  mmFeatures : List MultiModalFeatureSpec := []
  loraRequest : Option LoRARequest := none
  numCachedTokens : Int := -1
  isPrefillChunk : Bool := false
  numPreemptions : Nat := 0
  numExternalComputedTokens : Int := 0
  blockHashes : List β := []
  skipReadingPrefixCache : Bool := false
  resumable : Bool := false
  /-- An entry `none` in the queue means finished. -/
  streamingQueue : Option (List (Option StreamingUpdate)) := none
  deriving Repr

namespace Request

variable {β : Type}

/-- Number of tokens, without speculative ones. -/
def numTokens (r : Request β) : Nat := r.allTokenIds.length

/-- Number of tokens, with the speculative ones. -/
def numTokensWithSpec (r : Request β) : Nat := r.allTokenIds.length + r.specTokenIds.length

/-- Number of output tokens. -/
def numOutputTokens (r : Request β) : Nat := r.outputTokenIds.length

/-- Whether the request is finished. -/
def isFinished (r : Request β) : Bool := r.status.isFinished

/-- The order of the priority queue: priority, arrival time, request id. Two live requests have
different ids, so the comparison by address is left out. -/
def lt (a b : Request β) : Bool :=
  if a.priority ≠ b.priority then a.priority < b.priority
  else if a.arrivalTime ≠ b.arrivalTime then a.arrivalTime < b.arrivalTime
  else a.requestId < b.requestId

end Request
end Yuan.Core
