import Yuan.Core.BlockHash

/-!
# When a request stops

`check_stop` looks at the last output token of a request; `_update_request_with_output` appends sampled
tokens one by one and checks after each of them.
-/

namespace Yuan.Core

/-- `token_ids[-n]`. -/
def fromEnd (tokenIds : List Nat) (n : Nat) : Option Nat := tokenIds[tokenIds.length - n]?

/-- Whether the last `patternLen` tokens repeat the ones before them, `repetitionMinCount` times in
all. -/
def hasRepeatingPattern (tokenIds : List Nat) (patternLen repetitionMinCount : Nat) : Bool :=
  (List.range' 1 patternLen).all fun n =>
    (List.range' 1 (repetitionMinCount - 1)).all fun m =>
      fromEnd tokenIds (patternLen * m + n) = fromEnd tokenIds n

/-- The loop of `check_sequence_repetition` over the pattern lengths. -/
def repetitionLoop (tokenIds : List Nat) (minCount : Nat) : List Nat → Bool
  | [] => false
  | patternLen :: rest =>
    if patternLen * minCount > tokenIds.length then false
    else if hasRepeatingPattern tokenIds patternLen minCount then true
    else repetitionLoop tokenIds minCount rest

/-- `check_sequence_repetition`. -/
def checkSequenceRepetition (tokenIds : List Nat) (params : RepetitionDetectionParams) : Bool :=
  let minPatternSize := if params.minPatternSize = 0 then 1 else params.minPatternSize
  if params.maxPatternSize = 0 ∨ params.minCount < 2 ∨ minPatternSize > params.maxPatternSize then
    false
  else
    repetitionLoop tokenIds params.minCount
      (List.range' minPatternSize (params.maxPatternSize + 1 - minPatternSize))

variable {β : Type} {request : Request β} {maxModelLen : Nat}

/-- The status a request stops with after its last output token, if it stops, and the reason it gives
for it, if any. -/
def stopStatus (request : Request β) (params : SamplingParams) (maxModelLen lastTokenId : Nat) :
    Option (RequestStatus × Option StopReason) :=
  if request.numOutputTokens < params.minTokens then none
  else if some lastTokenId = params.eosTokenId then some (.finishedStopped, none)
  else if lastTokenId ∈ params.stopTokenIds then
    some (.finishedStopped, some (.token lastTokenId))
  else if request.numTokens ≥ maxModelLen ∨ request.numOutputTokens ≥ request.maxTokens then
    some (.finishedLengthCapped, none)
  else if params.repetitionDetection.any (checkSequenceRepetition request.outputTokenIds) then
    some (.finishedRepetition, some .repetitionDetected)
  else none

/-- `check_stop`. -/
def checkStop (request : Request β) (maxModelLen : Nat) : Except PyError (Request β × Bool) := do
  pyAssert (!request.pooling) "not request.pooling_params"
  match request.samplingParams, request.outputTokenIds.getLast? with
  | none, _ => .error (.assertionError "sampling_params is not None")
  | some _, none => .error (.indexError "list index out of range")
  | some params, some lastTokenId =>
    match stopStatus request params maxModelLen lastTokenId with
    | some (status, reason) =>
      return ({ request with status, stopReason := reason <|> request.stopReason }, true)
    | none => return (request, false)

/-- `_update_request_with_output`: the request, the tokens that were kept, and whether it stopped. -/
def updateRequestWithOutput (fns : HashFunctions β) (blockSize maxModelLen : Nat) :
    Request β → List Nat → Except PyError (Request β × List Nat × Bool)
  | request, [] => .ok (request, [], false)
  | request, outputTokenId :: newTokenIds => do
    let request := appendOutputTokenIds fns blockSize request [outputTokenId]
    let (request, stopped) ← checkStop request maxModelLen
    if stopped then return (request, [outputTokenId], true)
    else do
      let (request, kept, stopped) ←
        updateRequestWithOutput fns blockSize maxModelLen request newTokenIds
      return (request, outputTokenId :: kept, stopped)

/-! ## What it changes -/

/-- Everything that decides which queue a request belongs to, but its status. -/
structure SameRole (r r' : Request β) : Prop where
  requestId : r'.requestId = r.requestId
  resumable : r'.resumable = r.resumable
  streamingQueue : r'.streamingQueue = r.streamingQueue

theorem SameRole.refl (r : Request β) : SameRole r r := ⟨rfl, rfl, rfl⟩

theorem SameRole.trans {r r' r'' : Request β} (h : SameRole r r') (h' : SameRole r' r'') : SameRole r r'' :=
  ⟨h'.requestId.trans h.requestId, h'.resumable.trans h.resumable,
    h'.streamingQueue.trans h.streamingQueue⟩

theorem stopStatus_finished {params : SamplingParams} {lastTokenId : Nat} {status : RequestStatus}
    {reason : Option StopReason} (h : stopStatus request params maxModelLen lastTokenId = some (status, reason)) :
    status.isFinished = true := by
  unfold stopStatus at h
  grind [RequestStatus.isFinished]

/-- A check that stops a request leaves it finished; one that does not leaves it alone. -/
theorem checkStop_spec {request' : Request β} {stopped : Bool}
    (h : checkStop request maxModelLen = .ok (request', stopped)) :
    SameRole request request' ∧
      (stopped = true → request'.status.isFinished = true) ∧ (stopped = false → request' = request) := by
  obtain ⟨_, -, h⟩ := bind_eq_ok.mp h
  split at h
  case h_1 => cases h
  case h_2 => cases h
  case h_3 params lastTokenId hparams hlast =>
    split at h
    case h_1 status reason hstatus =>
      cases h
      exact ⟨⟨rfl, rfl, rfl⟩, fun _ => stopStatus_finished hstatus, nofun⟩
    case h_2 =>
      cases h
      exact ⟨.refl _, nofun, fun _ => rfl⟩

/-- Sampled tokens change the status of a request only if they stop it, and then it is finished. -/
theorem updateRequestWithOutput_spec {fns : HashFunctions β} {blockSize : Nat} {request' : Request β}
    {newTokenIds kept : List Nat} {stopped : Bool}
    (h : updateRequestWithOutput fns blockSize maxModelLen request newTokenIds = .ok (request', kept, stopped)) :
    SameRole request request' ∧ (stopped = true → request'.status.isFinished = true) ∧
      (stopped = false → request'.status = request.status) := by
  induction newTokenIds generalizing request kept with
  | nil =>
    obtain ⟨rfl, hrest⟩ := ok_pair h
    cases hrest
    exact ⟨.refl _, nofun, fun _ => rfl⟩
  | cons token rest ih =>
    obtain ⟨⟨checked, done⟩, hcheck, h⟩ := bind_eq_ok.mp h
    obtain ⟨hrole, hdone, hgoes⟩ := checkStop_spec hcheck
    have happend : SameRole request (appendOutputTokenIds fns blockSize request [token]) :=
      ⟨rfl, rfl, rfl⟩
    have hrole' : SameRole request checked := happend.trans hrole
    cases done with
    | true =>
      obtain ⟨rfl, hrest⟩ := ok_pair h
      cases hrest
      exact ⟨hrole', hdone, nofun⟩
    | false =>
      obtain ⟨⟨last, kept', stopped'⟩, hloop, h⟩ := bind_eq_ok.mp h
      obtain ⟨rfl, hrest⟩ := ok_pair h
      cases hrest
      obtain ⟨hrole'', hfin, hsame⟩ := ih hloop
      refine ⟨hrole'.trans hrole'', hfin, fun hfalse => (hsame hfalse).trans ?_⟩
      rw [hgoes rfl]
      rfl

end Yuan.Core
