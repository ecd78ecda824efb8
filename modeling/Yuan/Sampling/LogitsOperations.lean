import Yuan.Lib.Buffer
import Yuan.Sampling.SamplingMetadata

/-!
# Masks and penalties

The operations on a matrix of logits, row by row: an index out of range and tensors of different
lengths raise.
-/

namespace Yuan.Sampling

/-- A row of logits. -/
abbrev Row (F : Type) (V : Nat) : Type := Fin V → F

abbrev Logits (F : Type) (V : Nat) : Type := List (Row F V)

def indexOutOfRange : PyError := .indexError "index out of range"

def shapeMismatch : PyError :=
  .runtimeError "The size of tensor a must match the size of tensor b at non-singleton dimension 0"

/-- The place of a token in a row; a negative one counts from the end. -/
def tokenIndex? (V : Nat) (token : Int) : Option (Fin V) :=
  if h : (if token < 0 then token + V else token).toNat < V ∧ -(V : Int) ≤ token then some ⟨_, h.1⟩ else none

section

variable {F : Type} {V : Nat}

/-- `tensor[indices]`. -/
def gather {α : Type} (tensor : List α) (indices : List Nat) : Except PyError (List α) :=
  indices.mapM fun i =>
    match tensor[i]? with
    | some a => .ok a
    | none => .error indexOutOfRange

/-- `torch.arange(numRequests).repeat_interleave(repeats)`; a single number of repeats is for all. -/
def repeatInterleave (numRequests : Nat) (repeats : List Nat) : Except PyError (List Nat) :=
  match repeats with
  | [n] => .ok ((List.range numRequests).flatMap fun i => List.replicate n i)
  | _ =>
    if repeats.length = numRequests then
      .ok (repeats.zipIdx.flatMap fun r => List.replicate r.1 r.2)
    else .error (.runtimeError "repeats must have the same size as input along dim")

/-- `logits[k] = f(logits[k])`. -/
def modifyRow (logits : Logits F V) (k : Nat) (f : Row F V → Except PyError (Row F V)) :
    Except PyError (Logits F V) :=
  match logits[k]? with
  | some row => do return logits.set k (← f row)
  | none => .error indexOutOfRange

/-- The rows with certain indices, one after the other. -/
def modifyRows (f : Nat → Row F V → Except PyError (Row F V)) :
    List Nat → Logits F V → Except PyError (Logits F V)
  | [], logits => .ok logits
  | k :: ks, logits => do modifyRows f ks (← modifyRow logits k (f k))

variable [FloatOps F]

/-- `row[token] = -inf`. -/
def maskToken (row : Row F V) (token : Int) : Except PyError (Row F V) :=
  match tokenIndex? V token with
  | some t => .ok (Function.update row t FloatOps.negInf)
  | none => .error indexOutOfRange

def maskTokens (row : Row F V) (tokens : List Int) : Except PyError (Row F V) := tokens.foldlM maskToken row

/-- `logits.masked_fill_(mask, -inf)`. -/
def maskedFill : Logits F V → List (Fin V → Bool) → Except PyError (Logits F V)
  | [], [] => .ok []
  | row :: logits, mask :: masks => do
    return (fun t => if mask t then FloatOps.negInf else row t) :: (← maskedFill logits masks)
  | _, _ => .error shapeMismatch

/-! ## Bad words -/

/-- `_apply_bad_words_single_batch`. -/
def applyBadWordsSingleBatch (pastTokensIds : List Int) :
    List (List Int) → Row F V → Except PyError (Row F V)
  | [], row => .ok row
  | badWordIds :: words, row =>
    if badWordIds.length > pastTokensIds.length + 1 then applyBadWordsSingleBatch pastTokensIds words row
    else do
      let prefixLength := badWordIds.length - 1
      match badWordIds.getLast? with
      | none => .error indexOutOfRange
      | some lastTokenId =>
        let actual := if 0 < prefixLength then pastTokensIds.drop (pastTokensIds.length - prefixLength) else []
        let expected := badWordIds.take prefixLength
        pyAssert (actual.length = expected.length) ""
        let row ← if actual = expected then maskToken row lastTokenId else pure row
        applyBadWordsSingleBatch pastTokensIds words row

/-- `past_tokens_ids[k]`, for the words of a slot that has any. -/
def badWordsRow (pastTokensIds : List (List Int)) (words : List (List Int)) (k : Nat) (row : Row F V) :
    Except PyError (Row F V) :=
  match pastTokensIds[k]? with
  | some past => applyBadWordsSingleBatch past words row
  | none => .error indexOutOfRange

/-- `apply_bad_words`, over the slots from `i` on. -/
def applyBadWords (pastTokensIds : List (List Int)) :
    Nat → List (List (List Int)) → Logits F V → Except PyError (Logits F V)
  | _, [], logits => .ok logits
  | i, words :: badWords, logits =>
    if words = [] then applyBadWords pastTokensIds (i + 1) badWords logits
    else do
      applyBadWords pastTokensIds (i + 1) badWords (← modifyRow logits i (badWordsRow pastTokensIds words i))

/-- `apply_bad_words_with_drafts`, over the slots from the one on whose drafts start at `startIdx`. The loop
ends with the last slot that has bad words. -/
def applyBadWordsWithDrafts (pastTokensIds : List (List Int)) :
    Nat → Nat → List (List (List Int)) → List Nat → Logits F V → Except PyError (Logits F V)
  | _, _, _, [], logits => .ok logits
  | startIdx, remaining, badWords, n :: numDraftTokens, logits =>
    if badWords.headD [] = [] then
      applyBadWordsWithDrafts pastTokensIds (startIdx + n) remaining badWords.tail numDraftTokens logits
    else do
      let logits ← modifyRows (badWordsRow pastTokensIds (badWords.headD [])) (List.range' startIdx n) logits
      if remaining - 1 = 0 then return logits
      else applyBadWordsWithDrafts pastTokensIds (startIdx + n) (remaining - 1) badWords.tail numDraftTokens logits

/-! ## Minimum tokens -/

/-- `MinTokensLogitsProcessor.apply`, over the slots from `i` on. -/
def minTokensApply : Nat → List (Option MinTokensEntry) → Logits F V → Except PyError (Logits F V)
  | _, [], logits => .ok logits
  | i, none :: minToks, logits => minTokensApply (i + 1) minToks logits
  | i, some entry :: minToks, logits =>
    if entry.stopTokIds = [] then minTokensApply (i + 1) minToks logits
    else do
      minTokensApply (i + 1) minToks (← modifyRow logits i fun row => maskTokens row entry.stopTokIds)

/-- `apply_with_spec_decode`, over the slots from `i` on. -/
def minTokensApplyWithSpecDecode (numDraftTokens : List Nat) :
    Nat → List (Option MinTokensEntry) → Logits F V → Except PyError (Logits F V)
  | _, [], logits => .ok logits
  | i, none :: minToks, logits => minTokensApplyWithSpecDecode numDraftTokens (i + 1) minToks logits
  | i, some entry :: minToks, logits =>
    if entry.stopTokIds = [] then minTokensApplyWithSpecDecode numDraftTokens (i + 1) minToks logits
    else
      match numDraftTokens[i]?, (0 :: cumsum numDraftTokens)[i]? with
      | some n, some offset => do
        let nMask := min (entry.minToks - entry.numOutputTokens) n
        let logits ← modifyRows (fun _ row => maskTokens row entry.stopTokIds) (List.range' offset nMask) logits
        minTokensApplyWithSpecDecode numDraftTokens (i + 1) minToks logits
      | _, _ => .error indexOutOfRange

/-! ## Penalties -/

/-- `make_tensor_with_pad(rows, pad=vocab_size)`. -/
def makeTensorWithPad (V : Nat) (rows : List (List Int)) : List (List Int) :=
  let maxLen := (rows.map List.length).foldl max 0
  rows.map fun row => row ++ List.replicate (maxLen - row.length) (V : Int)

/-- `_convert_to_tensors`, and placeholders replaced by the padding. -/
def convertToTensors (V : Nat) (rows : List (List Int)) : List (List Int) :=
  (makeTensorWithPad V rows).map fun row => row.map fun token => if token = -1 then (V : Int) else token

/-- A row of `get_token_bin_counts_and_mask`. -/
def binCounts (V : Nat) (tokens : List Int) : Except PyError (Fin V → Nat) :=
  if tokens.all fun token => 0 ≤ token ∧ token ≤ V then .ok fun t => tokens.count (t.val : Int)
  else .error (.runtimeError "index out of bounds")

/-- A row of `apply_penalties`. -/
def penaliseRow (promptCounts outputCounts : Fin V → Nat) (p : Penalties F) (row : Row F V) : Row F V := fun t =>
  let seen := 0 < promptCounts t ∨ 0 < outputCounts t
  let penalty := if seen then p.repetition else FloatOps.one
  let scaling := if FloatOps.pos (row t) then FloatOps.div FloatOps.one penalty else penalty
  let x := FloatOps.mul (row t) scaling
  let x := FloatOps.sub x (FloatOps.mul p.frequency (FloatOps.ofNat (outputCounts t)))
  FloatOps.sub x (FloatOps.mul p.presence (FloatOps.ofNat (if 0 < outputCounts t then 1 else 0)))

/-- `apply_penalties`, row by row. -/
def penaliseRows : Logits F V → List (List Int) → List (Penalties F) → List (List Int) →
    Except PyError (Logits F V)
  | [], [], [], [] => .ok []
  | row :: logits, prompt :: prompts, p :: penalties, output :: outputs => do
    let promptCounts ← binCounts V prompt
    let outputCounts ← binCounts V output
    return penaliseRow promptCounts outputCounts p row :: (← penaliseRows logits prompts penalties outputs)
  | _, _, _, _ => .error shapeMismatch

/-- `apply_all_penalties`. -/
def applyAllPenalties (logits : Logits F V) (promptTokenIds : List (List Int)) (penalties : List (Penalties F))
    (outputTokenIds : List (List Int)) : Except PyError (Logits F V) :=
  penaliseRows logits promptTokenIds penalties (convertToTensors V outputTokenIds)

end

end Yuan.Sampling
