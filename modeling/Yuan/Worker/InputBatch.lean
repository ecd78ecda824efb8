import Yuan.Lib.Dict
import Yuan.Worker.BlockTable
import Yuan.Worker.BatchUpdate

/-!
# The persistent batch

`InputBatch` keeps the state of its requests in parallel columns indexed by slot. Requests are added
at the lowest freed slot or at the end, `condense` moves the last ones down into the slots that stay
free, and `swap_states` exchanges two slots. Collections keyed by request id and the columns kept on
the device are left out: they do not depend on slots.
-/

namespace Yuan.Worker

structure PoolingParams where
  requiresTokenIds : Bool := false

/-- A request as the model runner holds it; `E` is an embedding, `G` a random generator. -/
structure CachedRequestState (E G : Type) where
  reqId : String
  promptTokenIds : Option (List Int) := none
  promptEmbeds : Option (List E) := none
  outputTokenIds : List Int := []
  samplingParams : Option SamplingParams := none
  poolingParams : Option PoolingParams := none
  generator : Option G := none
  blockIds : List (List Nat) := []
  numComputedTokens : Nat := 0
  /-- `lora_request.lora_int_id`. -/
  loraIntId : Option Nat := none

structure InputBatch (E G : Type) where
  isPoolingModel : Bool
  maxNumReqs : Nat
  vocabSize : Nat
  reqIds : List (Option String) := []
  reqIdToIndex : Dict String Nat := .empty
  reqOutputTokenIds : List (Option (List Int)) := []
  specTokenIds : List (List Int) := List.replicate maxNumReqs []
  tokenIdsCpu : Nat → Nat → Int := fun _ _ => 0
  isTokenIds : Nat → Nat → Bool := fun _ _ => false
  reqPromptEmbeds : Nat → Option (List E) := fun _ => none
  numTokensNoSpec : Nat → Nat := fun _ => 0
  numPromptTokens : Nat → Nat := fun _ => 0
  numComputedTokensCpu : Nat → Nat := fun _ => 0
  blockTable : MultiGroupBlockTable
  requestLoraMapping : Nat → Nat := fun _ => 0
  logitsProcessingNeedsTokenIds : Nat → Bool := fun _ => false
  temperatureCpu : Nat → Rat := fun _ => 0
  topPCpu : Nat → Rat := fun _ => 0
  topKCpu : Nat → Int := fun _ => 0
  frequencyPenaltiesCpu : Nat → Rat := fun _ => 0
  presencePenaltiesCpu : Nat → Rat := fun _ => 0
  repetitionPenaltiesCpu : Nat → Rat := fun _ => 0
  numAcceptedTokensCpu : Nat → Nat := fun _ => 1
  generators : Nat → Option G := fun _ => none
  badWordsTokenIds : Nat → Option (List (List Nat)) := fun _ => none
  /-- True for the tokens that are masked out; allocated by the first request that needs it. -/
  allowedTokenIdsMaskCpu : Option (Nat → Nat → Bool) := none
  batchUpdateBuilder : BatchUpdateBuilder := {}

/-- `length_from_prompt_token_ids_or_embeds`. -/
def lengthFromPromptTokenIdsOrEmbeds {E : Type} :
    Option (List Int) → Option (List E) → Except PyError Nat
  | none, none => .error (.valueError "Neither prompt_token_ids nor prompt_embeds were defined.")
  | none, some embeds => .ok embeds.length
  | some ids, none => .ok ids.length
  | some ids, some embeds =>
    if embeds.length ≠ ids.length then
      .error (.valueError ("Prompt token ids and prompt embeds had different lengths prompt_token_ids="
        ++ toString ids.length ++ " prompt_embeds=" ++ toString embeds.length))
    else .ok ids.length

/-- `swap_dict_values`, for a dictionary with slots as keys. -/
def swapDictValues {α : Type} (obj : Nat → Option α) (key1 key2 : Nat) : Nat → Option α :=
  Function.update (Function.update obj key2 (obj key1)) key1 (obj key2)

/-- The entry of `src`, if there is one, put in the place of the entry of `tgt`. -/
def moveEntry {α : Type} (obj : Nat → Option α) (src tgt : Nat) : Nat → Option α :=
  match obj src with
  | none => obj
  | some v => Function.update (Function.update obj src none) tgt (some v)

namespace InputBatch

variable {E G : Type}

/-- `num_reqs`. -/
def numReqs (b : InputBatch E G) : Nat := b.reqIdToIndex.keys.length

/-- The spec tokens of a slot. -/
def specAt (b : InputBatch E G) (i : Nat) : List Int := b.specTokenIds.getD i []

/-! ## Adding a request -/

def registerAddRequest (b : InputBatch E G) (request : CachedRequestState E G) :
    Except PyError (Nat × InputBatch E G) := do
  let (popped, builder) := b.batchUpdateBuilder.popRemoved
  let newReqIndex := popped.getD b.numReqs
  pyAssert (newReqIndex < b.maxNumReqs) "new_req_index < self.max_num_reqs"
  let builder := { builder with
    batchChanged := true
    added := match request.samplingParams with
      | none => builder.added
      | some params => builder.added ++
        [⟨newReqIndex, params, request.promptTokenIds, request.outputTokenIds⟩] }
  return (newReqIndex, { b with batchUpdateBuilder := builder })

/-- The first part of `add_request`: the lists indexed by slot. -/
def addEntry (b : InputBatch E G) (i : Nat) (request : CachedRequestState E G) : InputBatch E G :=
  if i = b.reqIds.length then
    { b with
      reqIds := b.reqIds ++ [some request.reqId]
      reqOutputTokenIds := b.reqOutputTokenIds ++ [some request.outputTokenIds]
      specTokenIds := b.specTokenIds ++ [[]]
      reqIdToIndex := b.reqIdToIndex.set request.reqId i }
  else
    { b with
      reqIds := b.reqIds.set i (some request.reqId)
      reqOutputTokenIds := b.reqOutputTokenIds.set i (some request.outputTokenIds)
      specTokenIds := b.specTokenIds.set i []
      reqIdToIndex := b.reqIdToIndex.set request.reqId i }

/-- The row of token ids after the prompt, if its ids are known, and the output were copied to it. -/
def tokenRow (row : Nat → Int) (numPromptTokens : Nat) (request : CachedRequestState E G) :
    Nat → Int :=
  Row.write (match request.promptTokenIds with
    | none => row
    | some ids => Row.write row 0 ids) numPromptTokens request.outputTokenIds

def isTokenRow (row : Nat → Bool) (numPromptTokens : Nat) (request : CachedRequestState E G) :
    Nat → Bool :=
  Row.write (Row.write row 0 (List.replicate numPromptTokens request.promptTokenIds.isSome))
    numPromptTokens (List.replicate request.outputTokenIds.length true)

def addTokens (b : InputBatch E G) (i numPromptTokens : Nat) (request : CachedRequestState E G) :
    InputBatch E G :=
  { b with
    numPromptTokens := Function.update b.numPromptTokens i numPromptTokens
    tokenIdsCpu := Function.update b.tokenIdsCpu i (tokenRow (b.tokenIdsCpu i) numPromptTokens request)
    isTokenIds := Function.update b.isTokenIds i (isTokenRow (b.isTokenIds i) numPromptTokens request)
    reqPromptEmbeds := match request.promptEmbeds with
      | none => b.reqPromptEmbeds
      | some embeds => Function.update b.reqPromptEmbeds i (some embeds)
    numTokensNoSpec :=
      Function.update b.numTokensNoSpec i (numPromptTokens + request.outputTokenIds.length)
    numComputedTokensCpu := Function.update b.numComputedTokensCpu i request.numComputedTokens }

/-- The mask row of a request that allows only some tokens. -/
def allowedRow (allowedTokenIds : List Nat) : Nat → Bool := fun token => token ∉ allowedTokenIds

def addSamplingParams (b : InputBatch E G) (i : Nat) (params : SamplingParams)
    (generator : Option G) : InputBatch E G :=
  { b with
    temperatureCpu :=
      Function.update b.temperatureCpu i (if params.greedy then 0 else params.temperature)
    topPCpu := Function.update b.topPCpu i params.topP
    topKCpu := Function.update b.topKCpu i
      (if 0 < params.topK ∧ params.topK < b.vocabSize then params.topK else b.vocabSize)
    frequencyPenaltiesCpu := Function.update b.frequencyPenaltiesCpu i params.frequencyPenalty
    presencePenaltiesCpu := Function.update b.presencePenaltiesCpu i params.presencePenalty
    repetitionPenaltiesCpu := Function.update b.repetitionPenaltiesCpu i params.repetitionPenalty
    generators := match generator with
      | none => b.generators
      | some g => Function.update b.generators i (some g)
    allowedTokenIdsMaskCpu :=
      if params.allowedTokenIds = [] then b.allowedTokenIdsMaskCpu
      else some (Function.update (b.allowedTokenIdsMaskCpu.getD fun _ _ => false) i
        (allowedRow params.allowedTokenIds))
    badWordsTokenIds :=
      if params.badWordsTokenIds = [] then b.badWordsTokenIds
      else Function.update b.badWordsTokenIds i (some params.badWordsTokenIds) }

def addParams (b : InputBatch E G) (i : Nat) (request : CachedRequestState E G) :
    Except PyError (InputBatch E G) :=
  match request.samplingParams, request.poolingParams with
  | some params, _ => .ok (b.addSamplingParams i params request.generator)
  | none, some params =>
    .ok { b with logitsProcessingNeedsTokenIds :=
            Function.update b.logitsProcessingNeedsTokenIds i params.requiresTokenIds }
  | none, none => .error (.notImplementedError "Unrecognized request type")

def addRequest (b : InputBatch E G) (request : CachedRequestState E G) :
    Except PyError (Nat × InputBatch E G) := do
  let (i, b) ← b.registerAddRequest request
  let b := b.addEntry i request
  let numPromptTokens ←
    lengthFromPromptTokenIdsOrEmbeds request.promptTokenIds request.promptEmbeds
  let b := b.addTokens i numPromptTokens request
  let blockTable ← b.blockTable.addRow request.blockIds i
  let b ← { b with blockTable }.addParams i request
  return (i, { b with
    numAcceptedTokensCpu := Function.update b.numAcceptedTokensCpu i 1
    requestLoraMapping := Function.update b.requestLoraMapping i (request.loraIntId.getD 0) })

/-! ## Removing a request -/

/-- `remove_request`, with the index of the removed request. -/
def removeRequest (b : InputBatch E G) (reqId : String) :
    Except PyError (Option Nat × InputBatch E G) :=
  match b.reqIdToIndex.get? reqId with
  | none => .ok (none, b)
  | some i => do
    let builder ← b.batchUpdateBuilder.removedAppend i
    let b := { b with
      reqIdToIndex := b.reqIdToIndex.erase reqId
      batchUpdateBuilder := builder
      reqIds := b.reqIds.set i none
      reqOutputTokenIds := b.reqOutputTokenIds.set i none
      specTokenIds := b.specTokenIds.set i []
      requestLoraMapping :=
        if b.requestLoraMapping i ≠ 0 then Function.update b.requestLoraMapping i 0
        else b.requestLoraMapping }
    if b.isPoolingModel then return (some i, b)
    else return (some i, { b with
      generators := Function.update b.generators i none
      allowedTokenIdsMaskCpu :=
        b.allowedTokenIdsMaskCpu.map fun mask => Function.update mask i fun _ => false
      badWordsTokenIds := Function.update b.badWordsTokenIds i none })

/-! ## Exchanging two slots -/

/-- `mask[i1], mask[i2] = mask[i2], mask[i1]` for rows of a tensor: the right-hand side is two views,
so the second assignment reads the row that the first one has overwritten. -/
def swapMaskRows (mask : Nat → Nat → Bool) (i1 i2 : Nat) : Nat → Nat → Bool :=
  let mask := Function.update mask i1 (mask i2)
  Function.update mask i2 (mask i1)

def swapSamplingStates (b : InputBatch E G) (i1 i2 : Nat) : InputBatch E G :=
  { b with
    batchUpdateBuilder := { b.batchUpdateBuilder with
      moved := b.batchUpdateBuilder.moved ++ [⟨i1, i2, .swap⟩] }
    temperatureCpu := Column.swap b.temperatureCpu i1 i2
    topPCpu := Column.swap b.topPCpu i1 i2
    topKCpu := Column.swap b.topKCpu i1 i2
    frequencyPenaltiesCpu := Column.swap b.frequencyPenaltiesCpu i1 i2
    presencePenaltiesCpu := Column.swap b.presencePenaltiesCpu i1 i2
    repetitionPenaltiesCpu := Column.swap b.repetitionPenaltiesCpu i1 i2
    numAcceptedTokensCpu := Column.swap b.numAcceptedTokensCpu i1 i2
    generators := swapDictValues b.generators i1 i2
    badWordsTokenIds := swapDictValues b.badWordsTokenIds i1 i2
    allowedTokenIdsMaskCpu := b.allowedTokenIdsMaskCpu.map fun mask => swapMaskRows mask i1 i2 }

/-- The columns that every model uses, next to the exchanged lists. -/
def swapColumns (b : InputBatch E G) (reqIds : List (Option String))
    (reqOutputTokenIds : List (Option (List Int))) (specTokenIds : List (List Int))
    (reqIdToIndex : Dict String Nat) (i1 i2 : Nat) : InputBatch E G :=
  { b with
    reqIds, reqOutputTokenIds, specTokenIds, reqIdToIndex
    numTokensNoSpec := Column.swap b.numTokensNoSpec i1 i2
    numPromptTokens := Column.swap b.numPromptTokens i1 i2
    numComputedTokensCpu := Column.swap b.numComputedTokensCpu i1 i2
    tokenIdsCpu := Column.swap b.tokenIdsCpu i1 i2
    isTokenIds := Column.swap b.isTokenIds i1 i2
    reqPromptEmbeds := swapDictValues b.reqPromptEmbeds i1 i2
    blockTable := b.blockTable.swapRow i1 i2
    requestLoraMapping := Column.swap b.requestLoraMapping i1 i2 }

def swapStates (b : InputBatch E G) (i1 i2 : Nat) : Except PyError (InputBatch E G) := do
  let reqIds ← swapEntries b.reqIds i1 i2
  let reqOutputTokenIds ← swapEntries b.reqOutputTokenIds i1 i2
  let specTokenIds ← swapEntries b.specTokenIds i1 i2
  match b.reqIds.getD i1 none, b.reqIds.getD i2 none with
  | some oldId1, some oldId2 =>
    match b.reqIdToIndex.get? oldId1, b.reqIdToIndex.get? oldId2 with
    | some index1, some index2 =>
      let reqIdToIndex := (b.reqIdToIndex.set oldId1 index2).set oldId2 index1
      let b := b.swapColumns reqIds reqOutputTokenIds specTokenIds reqIdToIndex i1 i2
      if b.isPoolingModel then return b else return b.swapSamplingStates i1 i2
    | _, _ => .error (.keyError "req_id_to_index")
  | _, _ => .error (.assertionError "old_id_i1 is not None and old_id_i2 is not None")

/-! ## Condensing the batch -/

/-- The sampling part of one move of `condense`. -/
def moveSamplingStates (b : InputBatch E G) (last empty : Nat) : InputBatch E G :=
  { b with
    batchUpdateBuilder := { b.batchUpdateBuilder with
      moved := b.batchUpdateBuilder.moved ++ [⟨last, empty, .unidirectional⟩] }
    temperatureCpu := Function.update b.temperatureCpu empty (b.temperatureCpu last)
    topPCpu := Function.update b.topPCpu empty (b.topPCpu last)
    topKCpu := Function.update b.topKCpu empty (b.topKCpu last)
    frequencyPenaltiesCpu :=
      Function.update b.frequencyPenaltiesCpu empty (b.frequencyPenaltiesCpu last)
    presencePenaltiesCpu :=
      Function.update b.presencePenaltiesCpu empty (b.presencePenaltiesCpu last)
    repetitionPenaltiesCpu :=
      Function.update b.repetitionPenaltiesCpu empty (b.repetitionPenaltiesCpu last)
    numAcceptedTokensCpu := Function.update b.numAcceptedTokensCpu empty (b.numAcceptedTokensCpu last)
    generators := moveEntry b.generators last empty
    allowedTokenIdsMaskCpu :=
      b.allowedTokenIdsMaskCpu.map fun mask => Function.update mask empty (mask last)
    badWordsTokenIds := moveEntry b.badWordsTokenIds last empty }

/-- The columns that every model uses, in one move of `condense`. -/
def moveStates (b : InputBatch E G) (reqId : String) (specTokenIds : List (List Int))
    (last empty : Nat) : InputBatch E G :=
  let numTokens := b.numTokensNoSpec last + (b.specAt last).length
  { b with
    reqIds := (b.reqIds.set empty (some reqId)).set last none
    reqOutputTokenIds :=
      (b.reqOutputTokenIds.set empty (b.reqOutputTokenIds.getD last none)).set last none
    reqIdToIndex := b.reqIdToIndex.set reqId empty
    specTokenIds := specTokenIds.set last []
    tokenIdsCpu := Function.update b.tokenIdsCpu empty
      (Row.copyPrefix (b.tokenIdsCpu last) (b.tokenIdsCpu empty) numTokens)
    isTokenIds := Function.update b.isTokenIds empty
      (Row.copyPrefix (b.isTokenIds last) (b.isTokenIds empty) numTokens)
    reqPromptEmbeds := moveEntry b.reqPromptEmbeds last empty
    numTokensNoSpec := Function.update b.numTokensNoSpec empty (b.numTokensNoSpec last)
    numPromptTokens := Function.update b.numPromptTokens empty (b.numPromptTokens last)
    numComputedTokensCpu :=
      Function.update b.numComputedTokensCpu empty (b.numComputedTokensCpu last)
    blockTable := b.blockTable.moveRow last empty
    requestLoraMapping := Function.update b.requestLoraMapping empty (b.requestLoraMapping last) }

/-- The request of slot `last` moves down to the free slot `empty`: the body of the loop of
`condense`. -/
def moveDown (b : InputBatch E G) (last empty : Nat) : Except PyError (InputBatch E G) :=
  match b.reqIds.getD last none with
  | none => .error (.assertionError "req_id is not None")
  | some reqId => do
    let specTokenIds ← swapEntries b.specTokenIds last empty
    let b := b.moveStates reqId specTokenIds last empty
    if b.isPoolingModel then return b else return b.moveSamplingStates last empty

/-- `while last_req_index in empty_req_indices: last_req_index -= 1`. -/
def largestNonEmpty (emptyReqIndices : List Nat) : Nat → Nat
  | 0 => 0
  | last + 1 =>
    if last + 1 ∈ emptyReqIndices then largestNonEmpty emptyReqIndices last else last + 1

/-- The loop of `condense`. The first argument bounds the number of its turns: each of them takes one
index from the empty ones. -/
def condenseLoop : Nat → Nat → InputBatch E G → Except PyError (InputBatch E G)
  | 0, _, b => .ok b
  | turns + 1, lastReqIndex, b =>
    if b.batchUpdateBuilder.removed = [] then .ok b
    else
      let last := largestNonEmpty b.batchUpdateBuilder.removed lastReqIndex
      match b.batchUpdateBuilder.peekRemoved with
      | (none, _) => .error (.assertionError "empty_index is not None")
      | (some empty, builder) =>
        if empty ≥ last then .ok { b with batchUpdateBuilder := builder }
        else do
          let moved ← { b with batchUpdateBuilder := builder.popRemoved.2 }.moveDown last empty
          condenseLoop turns (last - 1) moved

/-- The batch after the property `batch_update_builder.removed` was read. -/
def readRemoved (b : InputBatch E G) : InputBatch E G :=
  { b with batchUpdateBuilder := b.batchUpdateBuilder.ensureRemovedSorted }

/-- `del l[n:]` for the lists indexed by slot. -/
def trim (b : InputBatch E G) (n : Nat) : InputBatch E G :=
  { b with
    reqIds := b.reqIds.take n
    reqOutputTokenIds := b.reqOutputTokenIds.take n
    specTokenIds := b.specTokenIds.take n }

def condense (b : InputBatch E G) : Except PyError (InputBatch E G) :=
  let emptyReqIndices := b.readRemoved.batchUpdateBuilder.removed
  if emptyReqIndices = [] then .ok b.readRemoved
  else if b.numReqs = 0 then
    .ok { b.readRemoved with reqIds := [], reqOutputTokenIds := [], specTokenIds := [] }
  else do
    let condensed ← condenseLoop emptyReqIndices.length (b.numReqs + emptyReqIndices.length - 1)
      b.readRemoved
    return condensed.trim b.numReqs

/-! ## The end of a step -/

/-- `refresh_metadata`, with the batch update that the logits processors are given. A pooling model
has none. -/
def refreshMetadata (b : InputBatch E G) : Option BatchUpdate × InputBatch E G :=
  if b.isPoolingModel then
    (none, { b with batchUpdateBuilder := b.batchUpdateBuilder.reset.2 })
  else
    let (batchUpdate, builder) := b.batchUpdateBuilder.getAndReset b.numReqs
    (batchUpdate, { b with batchUpdateBuilder := builder })

/-! ## Updates of a request in the batch -/

/-- What the model runner changes in the columns of one request while it is in the batch. -/
inductive RequestUpdate where
  /-- The number of computed tokens the scheduler reports. -/
  | computedTokens (n : Nat)
  | newBlocks (blockIds : List (List Nat))
  /-- Sampled tokens, or on a rank before the last those sent back by the scheduler, which are not
  marked in `is_token_ids`. -/
  | newTokens (start : Nat) (tokenIds : List Int) (mark : Bool)
  /-- Output tokens are discarded after a failed load. -/
  | discardTokens (numTokens : Nat)
  /-- `update_req_spec_token_ids`. -/
  | specTokens (tokenIds : List Int)
  | acceptedTokens (n : Nat)

def updateSlot (b : InputBatch E G) (i : Nat) : RequestUpdate → Except PyError (InputBatch E G)
  | .computedTokens n =>
    .ok { b with numComputedTokensCpu := Function.update b.numComputedTokensCpu i n }
  | .newBlocks blockIds => do
    let blockTable ← b.blockTable.appendRow blockIds i
    return { b with blockTable }
  | .newTokens start tokenIds mark =>
    .ok { b with
      tokenIdsCpu := Function.update b.tokenIdsCpu i (Row.write (b.tokenIdsCpu i) start tokenIds)
      isTokenIds :=
        if mark then Function.update b.isTokenIds i
          (Row.write (b.isTokenIds i) start (List.replicate tokenIds.length true))
        else b.isTokenIds
      numTokensNoSpec := Function.update b.numTokensNoSpec i (start + tokenIds.length) }
  | .discardTokens numTokens =>
    .ok { b with numTokensNoSpec := Function.update b.numTokensNoSpec i numTokens }
  | .specTokens tokenIds =>
    .ok { b with
      specTokenIds := b.specTokenIds.set i tokenIds
      tokenIdsCpu := Function.update b.tokenIdsCpu i
        (Row.write (b.tokenIdsCpu i) (b.numTokensNoSpec i) tokenIds) }
  | .acceptedTokens n =>
    .ok { b with numAcceptedTokensCpu := Function.update b.numAcceptedTokensCpu i n }

def updateRequest (b : InputBatch E G) (reqId : String) (u : RequestUpdate) :
    Except PyError (InputBatch E G) :=
  match b.reqIdToIndex.get? reqId with
  | none => .error (.keyError "req_id_to_index")
  | some i => b.updateSlot i u

end InputBatch

end Yuan.Worker
