import Yuan.Lib.Py
import Yuan.Core.StopStrings

/-!
# Detokenizer and log probabilities of a request

The front end keeps the output tokens of a request, their text and their log probabilities. Text is
handed out from an offset on, and held back by the length of the longest stop string.
-/

namespace Yuan.Frontend

open Yuan.Core (StopParams)

inductive RequestOutputKind where
  | cumulative
  | delta
  | finalOnly
  deriving DecidableEq, Repr

inductive FinishReason where
  | stop
  | length
  | abort
  | error
  | repetition
  deriving DecidableEq, Repr

inductive StopReason where
  | int (tokenId : Nat)
  | str (stopString : List Char)
  deriving DecidableEq, Repr

/-- What the front end reads of the sampling parameters. -/
structure SamplingParams where
  n : Nat := 1
  outputKind : RequestOutputKind := .cumulative
  detokenize : Bool := true
  stopParams : StopParams := {}
  logprobs : Option Int := none
  promptLogprobs : Option Int := none
  seed : Option Int := none
  deriving DecidableEq, Repr

/-- A request as the front end sends it to the engine. Of prompt embeddings only their number matters
here, of pooling parameters only the kind of output. -/
structure EngineCoreRequest where
  requestId : String
  externalReqId : Option String := none
  promptTokenIds : Option (List Nat) := none
  promptEmbeds : Option Nat := none
  samplingParams : Option SamplingParams := none
  poolingParams : Option RequestOutputKind := none
  resumable : Bool := false
  deriving DecidableEq, Repr

/-- `length_from_prompt_token_ids_or_embeds`. -/
def promptLength (promptTokenIds : Option (List Nat)) (promptEmbeds : Option Nat) :
    Except PyError Nat :=
  match promptTokenIds, promptEmbeds with
  | none, none => .error (.valueError "Neither prompt_token_ids nor prompt_embeds were defined.")
  | none, some embeds => .ok embeds
  | some tokenIds, none => .ok tokenIds.length
  | some tokenIds, some embeds =>
    if embeds ≠ tokenIds.length then
      .error (.valueError "Prompt token ids and prompt embeds had different lengths")
    else .ok tokenIds.length

/-! ## Text -/

/-- The tokenizer of the model: `decode_next` of a request, which depends on the prompt and on the
output tokens decoded before. -/
structure Tokenizer where
  fast : Bool
  decodeNext : EngineCoreRequest → List Nat → Nat → List Char

/-- What a detokenizer that decodes has beside the token ids. -/
structure Decoder where
  params : StopParams
  decodeNext : List Nat → Nat → List Char
  decodedIds : List Nat := []
  text : Core.BaseIncrementalDetokenizer := {}
  lastOutputTextOffset : Int := 0

/-- A detokenizer of one of the three classes. Only the slow one keeps the prompt before the output
tokens; one without a decoder skips detokenization. -/
structure IncrementalDetokenizer where
  promptLen : Nat := 0
  tokenIds : List Nat := []
  decoder : Option Decoder := none

/-- The texts of tokens that are decoded one after another. -/
def decodePieces (decodeNext : List Nat → Nat → List Char) : List Nat → List Nat → List (List Char)
  | _, [] => []
  | decodedIds, tokenId :: tokenIds =>
    decodeNext decodedIds tokenId :: decodePieces decodeNext (decodedIds ++ [tokenId]) tokenIds

/-- `text[:stop]`. -/
def sliceTo (text : List Char) (stop : Int) : List Char :=
  text.take (if stop < 0 then text.length + stop else stop).toNat

/-- `max(len(s) for s in stop)`. -/
def longest (stop : List (List Char)) : Nat := (stop.map List.length).foldl max 0

namespace Decoder

/-- The number of characters to hold back. -/
def stopBufferLength (params : StopParams) : Int :=
  if params.stop ≠ [] ∧ params.includeStopStrInOutput = false then (longest params.stop : Int) - 1
  else 0

/-- `BaseIncrementalDetokenizer.update`. -/
def update (d : Decoder) (newTokenIds : List Nat) (stopTerminated : Bool) :
    Decoder × Option (List Char) :=
  let (text, stopString) :=
    d.text.update d.params (decodePieces d.decodeNext d.decodedIds newTokenIds) stopTerminated
  -- the token that ended the request is not decoded
  let decoded := if stopTerminated && !d.params.includeStopStrInOutput then newTokenIds.dropLast
    else newTokenIds
  ({ d with text := text, decodedIds := d.decodedIds ++ decoded }, stopString)

/-- `BaseIncrementalDetokenizer.get_next_output_text`. -/
def getNextOutputText (d : Decoder) (finished delta : Bool) : Decoder × List Char :=
  let bufferLength := if finished then 0 else stopBufferLength d.params
  if !delta then
    if bufferLength = 0 then (d, d.text.outputText)
    else (d, sliceTo d.text.outputText (-bufferLength))
  else
    let length := d.text.outputText.length - bufferLength
    if d.lastOutputTextOffset < length then
      ({ d with lastOutputTextOffset := length },
        (sliceTo d.text.outputText length).drop d.lastOutputTextOffset.toNat)
    else (d, [])

end Decoder

namespace IncrementalDetokenizer

/-- `from_new_request`. -/
def fromNewRequest (tokenizer : Option Tokenizer) (request : EngineCoreRequest)
    (params : SamplingParams) : Except PyError IncrementalDetokenizer :=
  match tokenizer with
  | none => .ok {}
  | some tokenizer =>
    let decoder := some { params := params.stopParams, decodeNext := tokenizer.decodeNext request }
    if tokenizer.fast then .ok { decoder := decoder }
    else do
      let promptLen ← promptLength request.promptTokenIds request.promptEmbeds
      -- `request.prompt_token_ids or [0] * self.prompt_len`
      let promptIds := match request.promptTokenIds with
        | some (tokenId :: tokenIds) => tokenId :: tokenIds
        | _ => List.replicate promptLen 0
      return { promptLen := promptLen, tokenIds := promptIds, decoder := decoder }

def outputTokenIds (d : IncrementalDetokenizer) : List Nat := d.tokenIds.drop d.promptLen

def numOutputTokens (d : IncrementalDetokenizer) : Nat := d.tokenIds.length - d.promptLen

/-- `update`: the new tokens, and the stop string that was found. -/
def update (d : IncrementalDetokenizer) (newTokenIds : List Nat) (stopTerminated : Bool) :
    IncrementalDetokenizer × Option (List Char) :=
  let d := { d with tokenIds := d.tokenIds ++ newTokenIds }
  match d.decoder with
  | none => (d, none)
  | some decoder =>
    if newTokenIds = [] then (d, none)
    else
      let (decoder, stopString) := decoder.update newTokenIds stopTerminated
      ({ d with decoder := some decoder }, stopString)

def getNextOutputText (d : IncrementalDetokenizer) (finished delta : Bool) :
    IncrementalDetokenizer × List Char :=
  match d.decoder with
  | none => (d, [])
  | some decoder =>
    let (decoder, text) := decoder.getNextOutputText finished delta
    ({ d with decoder := some decoder }, text)

end IncrementalDetokenizer

/-! ## Log probabilities -/

variable {L : Type}

/-- The log probabilities of a request; `L` is the entry for one position. -/
structure LogprobsProcessor (L : Type) where
  logprobs : Option (List L)
  promptLogprobs : Option (List (Option L))
  numLogprobs : Option Int
  numPromptLogprobs : Option Int

namespace LogprobsProcessor

/-- `from_new_request`; the first prompt token has no log probability. -/
def fromNewRequest (params : SamplingParams) : LogprobsProcessor L where
  logprobs := params.logprobs.map fun _ => []
  promptLogprobs := params.promptLogprobs.map fun _ => [none]
  numLogprobs := params.logprobs
  numPromptLogprobs := params.promptLogprobs

/-- `_update_sample_logprobs`, if the output has any. -/
def updateSampleLogprobs (p : LogprobsProcessor L) :
    Option (List L) → Except PyError (LogprobsProcessor L)
  | none => .ok p
  | some new =>
    match p.numLogprobs, p.logprobs with
    | some _, some logprobs => .ok { p with logprobs := some (logprobs ++ new) }
    | some _, none => .error (.assertionError "self.logprobs is not None")
    | none, _ => .error (.assertionError "self.num_logprobs is not None")

/-- `_update_prompt_logprobs`, if the output has any. -/
def updatePromptLogprobs (p : LogprobsProcessor L) :
    Option (List L) → Except PyError (LogprobsProcessor L)
  | none => .ok p
  | some new =>
    match p.numPromptLogprobs, p.promptLogprobs with
    | some _, some logprobs => .ok { p with promptLogprobs := some (logprobs ++ new.map some) }
    | some _, none => .error (.assertionError "self.prompt_logprobs is not None")
    | none, _ => .error (.assertionError "self.num_prompt_logprobs is not None")

/-- `update_from_output`. -/
def updateFromOutput (p : LogprobsProcessor L) (newLogprobs newPromptLogprobs : Option (List L)) :
    Except PyError (LogprobsProcessor L) := do
  let p ← p.updateSampleLogprobs newLogprobs
  p.updatePromptLogprobs newPromptLogprobs

/-- `pop_prompt_logprobs`: returns the prompt's log probabilities and forgets them. -/
def popPromptLogprobs (p : LogprobsProcessor L) :
    LogprobsProcessor L × Option (List (Option L)) :=
  match p.promptLogprobs with
  | some (head :: tail) => ({ p with promptLogprobs := some [] }, some (head :: tail))
  | plp => (p, plp)

end LogprobsProcessor

end Yuan.Frontend
