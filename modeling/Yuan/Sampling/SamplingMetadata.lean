import Yuan.Lib.Py

/-!
# What sampling needs to know

The persistent batch has, slot by slot, the tokens of its requests and what their sampling parameters
ask for. The sampling metadata is built from it: columns that no request needs are left out, the output
tokens among them.
-/

namespace Yuan.Sampling

/-- Floating-point numbers, as far as logits and penalties use them. `bounded` is the range in which
presence and frequency penalties are accepted. -/
class FloatOps (F : Type) where
  negInf : F
  zero : F
  one : F
  ofNat : Nat → F
  mul : F → F → F
  sub : F → F → F
  div : F → F → F
  /-- `x > 0`. -/
  pos : F → Bool
  bounded : F → Bool
  pos_negInf : pos negInf = false
  pos_zero : pos zero = false
  pos_one : pos one = true
  mul_negInf : ∀ p, pos p = true → mul negInf p = negInf
  sub_negInf : ∀ f n, bounded f = true → n < 2 ^ 63 → sub negInf (mul f (ofNat n)) = negInf
  zero_ne_negInf : ∀ p f f' n n', pos p = true → bounded f = true → bounded f' = true → n < 2 ^ 63 →
    n' < 2 ^ 63 → sub (sub (mul zero p) (mul f (ofNat n))) (mul f' (ofNat n')) ≠ negInf

structure Penalties (F : Type) where
  presence : F
  frequency : F
  repetition : F

/-- What the batch holds for a request; `allowedMask` is its row of `allowed_token_ids_mask`, true for the
tokens that are masked, and no bad words means no entry in `bad_words_token_ids`. -/
structure Slot (F : Type) (V : Nat) where
  promptTokenIds : List Int
  outputTokenIds : List Int
  specTokenIds : List Int
  penalties : Penalties F
  allowedMask : Fin V → Bool
  badWordsTokenIds : List (List Int)
  minTokens : Nat
  allStopTokenIds : List Int

/-- The batch: whether there is an allocated mask with a request that has `allowed_token_ids`, and whether no
request has a penalty. -/
structure InputBatch (F : Type) (V : Nat) where
  slots : List (Slot F V)
  hasAllowedTokenIds : Bool
  noPenalties : Bool

/-- An entry of `min_toks`; of the output tokens only the number is read. -/
structure MinTokensEntry where
  minToks : Nat
  numOutputTokens : Nat
  stopTokIds : List Int

structure SamplingMetadata (F : Type) (V : Nat) where
  noPenalties : Bool
  promptTokenIds : Option (List (List Int))
  penalties : List (Penalties F)
  outputTokenIds : List (List Int)
  specTokenIds : List (List Int)
  allowedTokenIdsMask : Option (List (Fin V → Bool))
  /-- The words of each slot; none are no entry. -/
  badWordsTokenIds : List (List (List Int))
  /-- The state of `MinTokensLogitsProcessor`, slot by slot. -/
  minToks : List (Option MinTokensEntry)

variable {F : Type} {V : Nat}

/-- `MinTokensLogitsProcessor.add_request`, and the pruning of `update_state`: the entry that is left. -/
def minTokensEntry (s : Slot F V) : Option MinTokensEntry :=
  if s.minTokens = 0 ∨ s.minTokens ≤ s.outputTokenIds.length then none
  else some ⟨s.minTokens, s.outputTokenIds.length, s.allStopTokenIds⟩

namespace InputBatch

variable (b : InputBatch F V)

/-- `bool(self.bad_words_token_ids)`. -/
def hasBadWords : Bool := b.slots.any fun s => s.badWordsTokenIds ≠ []

/-- Without processors of its own, the batch needs the output tokens for penalties and bad words only. -/
def needsOutputTokenIds : Bool := !b.noPenalties || b.hasBadWords

/-- `_make_sampling_metadata`. -/
def makeSamplingMetadata : SamplingMetadata F V where
  noPenalties := b.noPenalties
  promptTokenIds := if b.noPenalties then none else some (b.slots.map Slot.promptTokenIds)
  penalties := b.slots.map Slot.penalties
  outputTokenIds := if b.needsOutputTokenIds then b.slots.map Slot.outputTokenIds else []
  specTokenIds := b.slots.map Slot.specTokenIds
  allowedTokenIdsMask := if b.hasAllowedTokenIds then some (b.slots.map Slot.allowedMask) else none
  badWordsTokenIds := b.slots.map Slot.badWordsTokenIds
  minToks := b.slots.map minTokensEntry

end InputBatch

/-- A token that the vocabulary has. -/
def IsToken (V : Nat) (token : Int) : Prop := 0 ≤ token ∧ token < V

instance (V : Nat) (token : Int) : Decidable (IsToken V token) := inferInstanceAs (Decidable (_ ∧ _))

/-- What is checked when a request is added, and what the sampler and the proposers give: tokens of the
vocabulary, or placeholders in the place of sampled ones. -/
structure Slot.Valid [FloatOps F] (s : Slot F V) : Prop where
  prompt : ∀ token ∈ s.promptTokenIds, IsToken V token
  output : ∀ token ∈ s.outputTokenIds, token = -1 ∨ IsToken V token
  spec : ∀ token ∈ s.specTokenIds, token = -1 ∨ IsToken V token
  badWords : ∀ word ∈ s.badWordsTokenIds, word ≠ [] ∧ ∀ token ∈ word, IsToken V token
  presence : FloatOps.bounded s.penalties.presence = true
  frequency : FloatOps.bounded s.penalties.frequency = true
  repetition : FloatOps.pos s.penalties.repetition = true
  length : s.outputTokenIds.length + s.specTokenIds.length < 2 ^ 63

/-- A batch without requests has none that asks for something. -/
structure InputBatch.Valid [FloatOps F] (b : InputBatch F V) : Prop where
  slots : ∀ s ∈ b.slots, s.Valid
  asked : b.hasAllowedTokenIds = true ∨ b.noPenalties = false → b.slots ≠ []

end Yuan.Sampling
