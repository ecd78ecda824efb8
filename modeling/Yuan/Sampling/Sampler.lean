import Yuan.Sampling.LogitsOperations

/-!
# The logits processors of the two samplers

The sampler has a row of logits for each slot. The rejection sampler has a row for each draft token, those of
a slot one after the other.
-/

namespace Yuan.Sampling

section

variable {F : Type} {V : Nat}

/-- `bool(bad_words_token_ids)`. -/
def SamplingMetadata.hasBadWords (m : SamplingMetadata F V) : Bool := m.badWordsTokenIds.any fun words => words ≠ []

variable [FloatOps F]

namespace Sampler

/-- `_combine_outputs_with_spec_tokens`. -/
def combineOutputsWithSpecTokens (outputTokenIds specTokenIds : List (List Int)) : List (List Int) :=
  outputTokenIds.zipWith (fun out spec => if spec ≠ [] then out ++ spec else out) specTokenIds

def applyPenalties (logits : Logits F V) (m : SamplingMetadata F V) (outputTokenIds : List (List Int)) :
    Except PyError (Logits F V) :=
  if m.noPenalties then .ok logits
  else
    match m.promptTokenIds with
    | none => .error (.assertionError "")
    | some promptTokenIds => applyAllPenalties logits promptTokenIds m.penalties outputTokenIds

/-- The history that `apply_logits_processors` uses. -/
def outputTokenIds (m : SamplingMetadata F V) (predictBonusToken : Bool) : List (List Int) :=
  let anyPenaltiesOrBadWords := m.hasBadWords || !m.noPenalties
  if predictBonusToken && anyPenaltiesOrBadWords then combineOutputsWithSpecTokens m.outputTokenIds m.specTokenIds
  else m.outputTokenIds

def applyAllowedTokenIds (logits : Logits F V) : Option (List (Fin V → Bool)) → Except PyError (Logits F V)
  | some mask => maskedFill logits mask
  | none => .ok logits

def applyBadWordsExclusion (logits : Logits F V) (m : SamplingMetadata F V) (outputTokenIds : List (List Int)) :
    Except PyError (Logits F V) :=
  if m.hasBadWords then applyBadWords outputTokenIds 0 m.badWordsTokenIds logits else .ok logits

def applyLogitsProcessors (logits : Logits F V) (m : SamplingMetadata F V) (predictBonusToken : Bool) :
    Except PyError (Logits F V) := do
  let outputTokenIds := outputTokenIds m predictBonusToken
  let logits ← applyAllowedTokenIds logits m.allowedTokenIdsMask
  let logits ← applyBadWordsExclusion logits m outputTokenIds
  let logits ← minTokensApply 0 m.minToks logits
  applyPenalties logits m outputTokenIds

end Sampler

namespace RejectionSampler

/-- The histories of the draft tokens of a slot: each has the tokens before it. -/
def extend (result : List Int) : List Int → List (List Int)
  | [] => []
  | [_] => [result]
  | token :: spec => result :: extend (result ++ [token]) spec

/-- `_combine_outputs_with_spec_tokens`. -/
def combineOutputsWithSpecTokens (outputTokenIds specTokenIds : List (List Int)) : List (List Int) :=
  (outputTokenIds.zipWith extend specTokenIds).flatten

def applyPenalties (logits : Logits F V) (m : SamplingMetadata F V) (repeatIndices : List Nat)
    (outputTokenIds : List (List Int)) : Except PyError (Logits F V) :=
  if m.noPenalties then .ok logits
  else
    match m.promptTokenIds with
    | none => .error (.assertionError "")
    | some promptTokenIds => do
      applyAllPenalties logits (← gather promptTokenIds repeatIndices) (← gather m.penalties repeatIndices)
        outputTokenIds

def applyAllowedTokenIds (logits : Logits F V) (mask : Option (List (Fin V → Bool))) (repeatIndices : List Nat) :
    Except PyError (Logits F V) :=
  match mask with
  | some mask => do maskedFill logits (← gather mask repeatIndices)
  | none => .ok logits

/-- Penalties and allowed tokens, which need the slot of each row. -/
def applyPenaltiesAndMask (logits : Logits F V) (m : SamplingMetadata F V) (numDraftTokens : List Nat)
    (outputTokenIds : List (List Int)) : Except PyError (Logits F V) :=
  let hasPenalties := !m.noPenalties
  if m.allowedTokenIdsMask.isSome || hasPenalties then do
    let repeatIndices ← repeatInterleave m.outputTokenIds.length numDraftTokens
    let logits ← applyPenalties logits m repeatIndices outputTokenIds
    applyAllowedTokenIds logits m.allowedTokenIdsMask repeatIndices
  else .ok logits

def applyBadWordsExclusion (logits : Logits F V) (m : SamplingMetadata F V) (numDraftTokens : List Nat)
    (outputTokenIds : List (List Int)) : Except PyError (Logits F V) :=
  if m.hasBadWords then
    applyBadWordsWithDrafts outputTokenIds 0 (m.badWordsTokenIds.countP (· ≠ [])) m.badWordsTokenIds numDraftTokens
      logits
  else .ok logits

/-- The histories that `apply_logits_processors` uses. -/
def outputTokenIds (m : SamplingMetadata F V) : List (List Int) :=
  let anyPenaltiesOrBadWords := m.hasBadWords || !m.noPenalties
  if anyPenaltiesOrBadWords then combineOutputsWithSpecTokens m.outputTokenIds m.specTokenIds else m.outputTokenIds

def applyLogitsProcessors (logits : Logits F V) (m : SamplingMetadata F V) (numDraftTokens : List Nat) :
    Except PyError (Logits F V) := do
  let outputTokenIds := outputTokenIds m
  let logits ← applyPenaltiesAndMask logits m numDraftTokens outputTokenIds
  let logits ← applyBadWordsExclusion logits m numDraftTokens outputTokenIds
  minTokensApplyWithSpecDecode numDraftTokens 0 m.minToks logits

end RejectionSampler

end

end Yuan.Sampling
