import Yuan.Worker.InputBatch

/-!
# What a slot holds

A `Slot` gathers what all columns of the batch have for one index. What `add_request` wrote for a
request, and later updates of the same request changed, is kept next to the batch as `Written`. A slot
holds it when every value that was written is found in it. For each operation it is said here which
request sits in which slot afterwards, and what happened to the slots.
-/

namespace Yuan.Worker

open InputBatch (RequestUpdate)

/-- The columns that only models with sampling use. -/
structure SamplingSlot (G : Type) where
  temperature : Rat
  topP : Rat
  topK : Int
  frequencyPenalty : Rat
  presencePenalty : Rat
  repetitionPenalty : Rat
  numAcceptedTokens : Nat
  generator : Option G
  badWordsTokenIds : Option (List (List Nat))
  /-- The row of the mask; nothing is masked out before the mask is allocated. -/
  mask : Nat → Bool

structure Slot (E G : Type) where
  outputTokenIds : Option (List Int)
  specTokenIds : List Int
  tokenIds : Nat → Int
  isTokenIds : Nat → Bool
  promptEmbeds : Option (List E)
  numTokensNoSpec : Nat
  numPromptTokens : Nat
  numComputedTokens : Nat
  blocks : List (List Nat)
  lora : Nat
  needsTokenIds : Bool
  sampling : SamplingSlot G

namespace InputBatch

variable {E G : Type}

/-- A row of the mask of tokens that are not allowed. -/
def rowOfMask (mask : Option (Nat → Nat → Bool)) (i : Nat) : Nat → Bool :=
  match mask with
  | none => fun _ => false
  | some mask => mask i

theorem rowOfMask_map_update_of_ne (mask : Option (Nat → Nat → Bool)) (row : (Nat → Nat → Bool) → Nat → Bool)
    {i k : Nat} (h : k ≠ i) :
    rowOfMask (mask.map fun mask => Function.update mask i (row mask)) k = rowOfMask mask k := by
  cases mask with
  | none => rfl
  | some mask => exact Function.update_of_ne h _ _

/-- The request in a slot. -/
def occupant (b : InputBatch E G) (i : Nat) : Option String := b.reqIds.getD i none

def maskRow (b : InputBatch E G) (i : Nat) : Nat → Bool := rowOfMask b.allowedTokenIdsMaskCpu i

def samplingSlot (b : InputBatch E G) (i : Nat) : SamplingSlot G where
  temperature := b.temperatureCpu i
  topP := b.topPCpu i
  topK := b.topKCpu i
  frequencyPenalty := b.frequencyPenaltiesCpu i
  presencePenalty := b.presencePenaltiesCpu i
  repetitionPenalty := b.repetitionPenaltiesCpu i
  numAcceptedTokens := b.numAcceptedTokensCpu i
  generator := b.generators i
  badWordsTokenIds := b.badWordsTokenIds i
  mask := b.maskRow i

def slot (b : InputBatch E G) (i : Nat) : Slot E G where
  outputTokenIds := b.reqOutputTokenIds.getD i none
  specTokenIds := b.specAt i
  tokenIds := b.tokenIdsCpu i
  isTokenIds := b.isTokenIds i
  promptEmbeds := b.reqPromptEmbeds i
  numTokensNoSpec := b.numTokensNoSpec i
  numPromptTokens := b.numPromptTokens i
  numComputedTokens := b.numComputedTokensCpu i
  blocks := b.blockTable.rows i
  lora := b.requestLoraMapping i
  needsTokenIds := b.logitsProcessingNeedsTokenIds i
  sampling := b.samplingSlot i

end InputBatch

/-! ## What was written for a request -/

/-- A list of cells for `n` tokens and at most `m` speculative ones. -/
def Spans {α : Type} (cells : List α) (n m : Nat) : Prop := n ≤ cells.length ∧ cells.length ≤ n + m

/-- The values written for a request. The token cells are those of the tokens without the
speculative ones, and as long as nothing was written behind them also those of the speculative ones;
`none` is a cell that nothing was written to. Fields that `add_request` does not write for this kind of
request are `none`. -/
structure Written (E G : Type) where
  outputTokenIds : List Int
  tokenIds : List (Option Int)
  isTokenIds : List (Option Bool)
  promptEmbeds : Option (List E)
  numTokensNoSpec : Nat
  numPromptTokens : Nat
  numComputedTokens : Nat
  specTokenIds : List Int
  blocks : List (List Nat)
  lora : Nat
  needsTokenIds : Option Bool
  sampling : Option (SamplingSlot G)
  tokenIds_spans : Spans tokenIds numTokensNoSpec specTokenIds.length
  isTokenIds_spans : Spans isTokenIds numTokensNoSpec specTokenIds.length

namespace CachedRequestState

variable {E G : Type}

/-- `num_prompt_tokens`. -/
def numPromptTokens (request : CachedRequestState E G) : Nat :=
  match request.promptTokenIds with
  | some ids => ids.length
  | none => (request.promptEmbeds.getD []).length

/-- The cells of the prompt. -/
def promptCells (request : CachedRequestState E G) : List (Option Int) :=
  match request.promptTokenIds with
  | some ids => ids.map some
  | none => List.replicate request.numPromptTokens none

theorem length_promptCells (request : CachedRequestState E G) :
    request.promptCells.length = request.numPromptTokens := by
  unfold promptCells numPromptTokens
  split <;> simp

theorem lengthFrom_eq_ok {request : CachedRequestState E G} {n : Nat}
    (h : lengthFromPromptTokenIdsOrEmbeds request.promptTokenIds request.promptEmbeds = .ok n) :
    n = request.numPromptTokens := by
  unfold lengthFromPromptTokenIdsOrEmbeds at h
  split at h
  · cases h
  · next embeds hids hembeds =>
      cases h
      simp [numPromptTokens, hids, hembeds]
  · next ids hids hembeds =>
      cases h
      simp [numPromptTokens, hids]
  · next ids embeds hids hembeds =>
      split at h
      · cases h
      · cases h
        simp [numPromptTokens, hids]

/-- The sampling columns that `add_request` writes. -/
def samplingSlot (vocabSize : Nat) (params : SamplingParams) (generator : Option G) :
    SamplingSlot G where
  temperature := if params.greedy then 0 else params.temperature
  topP := params.topP
  topK := if 0 < params.topK ∧ params.topK < vocabSize then params.topK else vocabSize
  frequencyPenalty := params.frequencyPenalty
  presencePenalty := params.presencePenalty
  repetitionPenalty := params.repetitionPenalty
  numAcceptedTokens := 1
  generator := generator
  badWordsTokenIds := if params.badWordsTokenIds = [] then none else some params.badWordsTokenIds
  mask := if params.allowedTokenIds = [] then fun _ => false
    else InputBatch.allowedRow params.allowedTokenIds

/-- What `add_request` writes. -/
def written (request : CachedRequestState E G) (vocabSize : Nat) (blocksPerKVBlock : List Nat) :
    Written E G where
  outputTokenIds := request.outputTokenIds
  tokenIds := request.promptCells ++ request.outputTokenIds.map some
  isTokenIds := List.replicate request.numPromptTokens (some request.promptTokenIds.isSome) ++
    List.replicate request.outputTokenIds.length (some true)
  promptEmbeds := request.promptEmbeds
  numTokensNoSpec := request.numPromptTokens + request.outputTokenIds.length
  numPromptTokens := request.numPromptTokens
  numComputedTokens := request.numComputedTokens
  specTokenIds := []
  blocks := MultiGroupBlockTable.kernelRows blocksPerKVBlock request.blockIds
  lora := request.loraIntId.getD 0
  needsTokenIds := match request.samplingParams with
    | some _ => none
    | none => request.poolingParams.map PoolingParams.requiresTokenIds
  sampling := request.samplingParams.map fun params =>
    samplingSlot vocabSize params request.generator
  tokenIds_spans := by simp [Spans, length_promptCells]
  isTokenIds_spans := by simp [Spans]

end CachedRequestState

namespace Written

variable {E G : Type} {w : Written E G} {isPoolingModel : Bool}

/-- What an update of the request changes. -/
def update (w : Written E G) (blocksPerKVBlock : List Nat) : RequestUpdate → Written E G
  | .computedTokens n => { w with numComputedTokens := n }
  | .newBlocks blockIds => { w with
      blocks := List.zipWith (· ++ ·) w.blocks
        (MultiGroupBlockTable.kernelRows blocksPerKVBlock blockIds) }
  | .newTokens start tokenIds mark => { w with
      tokenIds := Row.cut w.tokenIds start ++ tokenIds.map some
      isTokenIds := Row.cut w.isTokenIds start ++
        List.replicate tokenIds.length (if mark then some true else none)
      numTokensNoSpec := start + tokenIds.length
      tokenIds_spans := by simp [Spans]
      isTokenIds_spans := by simp [Spans] }
  | .discardTokens numTokens => { w with
      tokenIds := Row.cut w.tokenIds numTokens
      isTokenIds := Row.cut w.isTokenIds numTokens
      numTokensNoSpec := numTokens
      tokenIds_spans := by simp [Spans]
      isTokenIds_spans := by simp [Spans] }
  | .specTokens tokenIds => { w with
      specTokenIds := tokenIds
      tokenIds := Row.cut w.tokenIds w.numTokensNoSpec ++ tokenIds.map some
      isTokenIds := Row.cut w.isTokenIds w.numTokensNoSpec
      tokenIds_spans := by simp [Spans]
      isTokenIds_spans := by simp [Spans] }
  | .acceptedTokens n => { w with
      sampling := w.sampling.map fun s => { s with numAcceptedTokens := n } }

/-- Every value that was written is in the slot. -/
structure HeldBy (w : Written E G) (s : Slot E G) : Prop where
  outputTokenIds : s.outputTokenIds = some w.outputTokenIds
  tokenIds : Row.Shows s.tokenIds w.tokenIds
  isTokenIds : Row.Shows s.isTokenIds w.isTokenIds
  promptEmbeds : s.promptEmbeds = w.promptEmbeds
  numTokensNoSpec : s.numTokensNoSpec = w.numTokensNoSpec
  numPromptTokens : s.numPromptTokens = w.numPromptTokens
  numComputedTokens : s.numComputedTokens = w.numComputedTokens
  specTokenIds : s.specTokenIds = w.specTokenIds
  blocks : s.blocks = w.blocks
  lora : s.lora = w.lora
  needsTokenIds : ∀ flag ∈ w.needsTokenIds, s.needsTokenIds = flag
  sampling : ∀ p ∈ w.sampling, s.sampling = p

/-- The values are those of a request of the kind that the model is for. -/
def Fits (w : Written E G) (isPoolingModel : Bool) : Prop :=
  if isPoolingModel then w.sampling = none ∧ w.needsTokenIds ≠ none
  else w.needsTokenIds = none ∧ w.sampling ≠ none

theorem Fits.sampling (h : w.Fits isPoolingModel) (hpooling : isPoolingModel = true) : w.sampling = none := by
  unfold Fits at h
  rw [if_pos hpooling] at h
  exact h.1

theorem Fits.needsTokenIds (h : w.Fits isPoolingModel) (hpooling : ¬ isPoolingModel = true) :
    w.needsTokenIds = none := by
  unfold Fits at h
  rw [if_neg hpooling] at h
  exact h.1

theorem Fits.update (h : w.Fits isPoolingModel) (blocksPerKVBlock : List Nat) (u : RequestUpdate) :
    (w.update blocksPerKVBlock u).Fits isPoolingModel := by
  cases u with
  | acceptedTokens n =>
    unfold Fits at h ⊢
    simp only [Written.update, ne_eq, Option.map_eq_none_iff]
    exact h
  | _ => exact h

end Written

end Yuan.Worker
