import Yuan.Core.Request
import Yuan.Lib.Py
import Mathlib.Data.List.TakeWhile

/-!
# Block hashes of a request

A full block of a request is hashed together with the hash of the block before it and with *extra
keys*: the LoRA name, the identifiers of the multi-modal items in the block, the cache salt (in the
first block) and a digest of the block's prompt embeddings.

`request_block_hasher` continues where `request.block_hashes` ends. It walks the items along with the
blocks, so it needs the index of the first item to look at; when it does not start at the first block
it takes the last item. `chain` is the same list without that index: every block gets the items a walk
from the first block would give it. The two agree as long as the index is right (`IndexOk`).
-/

namespace Yuan.Core

/-- An extra key: a string, or the digest of prompt embeddings. -/
inductive ExtraKey (β : Type) where
  | str (s : String)
  | digest (d : β)

/-- What the hash functions of the prefix cache are: `hashFunction` hashes the tuple of parent hash,
token ids and extra keys, `embedsHash` the bytes of a slice of prompt embeddings. -/
structure HashFunctions (β : Type) where
  noneHash : β
  hashFunction : β × List Nat × Option (List (ExtraKey β)) → β
  embedsHash : List (List Nat) → β

namespace MultiModalFeatureSpec

/-- First position of an item. -/
def offset (f : MultiModalFeatureSpec) : Nat := f.mmPosition.offset

/-- First position behind an item. -/
def stop (f : MultiModalFeatureSpec) : Nat := f.mmPosition.offset + f.mmPosition.length

end MultiModalFeatureSpec

/-- The loop of `_gen_mm_extra_hash_keys` over the items from index `i` on. -/
def mmLoop (startTokenIdx endTokenIdx : Nat) :
    List MultiModalFeatureSpec → Nat → List String × Nat
  | [], i => ([], i)
  | f :: fs, i =>
    if endTokenIdx > f.offset then
      -- this block has passed the item
      if startTokenIdx > f.stop then mmLoop startTokenIdx endTokenIdx fs (i + 1)
      else if endTokenIdx ≥ f.stop then
        -- the item ends in this block, which may also contain the next one
        let (keys, j) := mmLoop startTokenIdx endTokenIdx fs (i + 1)
        (f.identifier :: keys, j)
      else ([f.identifier], i)
    -- this block has not reached the item
    else ([], i)

/-- The identifiers of the items in a block, and the index of the next item. A negative index counts
from the end; the only one that occurs is `-1`, so the assertion on its range holds. -/
def genMmExtraHashKeys (mmFeatures : List MultiModalFeatureSpec) (startTokenIdx endTokenIdx : Nat)
    (startMmIdx : Int) : List String × Int :=
  match mmFeatures.getLast? with
  | none => ([], startMmIdx)
  | some last =>
    if last.stop < startTokenIdx then ([], startMmIdx)
    else
      let startMmIdx := if startMmIdx < 0 then mmFeatures.length + startMmIdx else startMmIdx
      let (keys, i) := mmLoop startTokenIdx endTokenIdx (mmFeatures.drop startMmIdx.toNat)
        startMmIdx.toNat
      (keys, i)

section Hashing

variable {β : Type} (fns : HashFunctions β)

/-- The LoRA name, if the request has one. -/
def genLoraExtraHashKeys (r : Request β) : List (ExtraKey β) :=
  match r.loraRequest with
  | none => []
  | some lora => [.str lora.loraName]

/-- The salt is a key of the first block only; the empty salt counts as none. -/
def genSaltExtraHashKeys (r : Request β) (startTokenIdx : Nat) : List (ExtraKey β) :=
  match r.cacheSalt with
  | none => []
  | some salt => if startTokenIdx = 0 ∧ salt ≠ "" then [.str salt] else []

/-- A digest of the block's prompt embeddings, if the request has any. -/
def genPromptEmbedsExtraHashKeys (r : Request β) (startTokenIdx endTokenIdx : Nat) :
    List (ExtraKey β) :=
  match r.promptEmbeds with
  | none => []
  | some embeds => [.digest (fns.embedsHash ((embeds.take endTokenIdx).drop startTokenIdx))]

/-- The extra keys of a block, given the identifiers of its items. -/
def extraKeys (r : Request β) (startTokenIdx endTokenIdx : Nat) (mmKeys : List String) :
    Option (List (ExtraKey β)) :=
  let keys := genLoraExtraHashKeys r ++ mmKeys.map .str ++ genSaltExtraHashKeys r startTokenIdx ++
    genPromptEmbedsExtraHashKeys fns r startTokenIdx endTokenIdx
  if keys.isEmpty then none else some keys

/-- The extra keys of a block, and the index of the next item. -/
def generateBlockHashExtraKeys (r : Request β) (startTokenIdx endTokenIdx : Nat)
    (startMmIdx : Int) : Option (List (ExtraKey β)) × Int :=
  let (mmKeys, newStartMmIdx) :=
    genMmExtraHashKeys r.mmFeatures startTokenIdx endTokenIdx startMmIdx
  (extraKeys fns r startTokenIdx endTokenIdx mmKeys, newStartMmIdx)

/-- The hash of a block, given the hash of the block before it. -/
def hashBlockTokens (parentBlockHash : Option β) (currBlockTokenIds : List Nat)
    (extraKeys : Option (List (ExtraKey β))) : β :=
  fns.hashFunction (parentBlockHash.getD fns.noneHash, currBlockTokenIds, extraKeys)

/-- The loop of `request_block_hasher`; `fuel` bounds the number of blocks. -/
def hashLoop (blockSize : Nat) (r : Request β) :
    Nat → Nat → Int → Option β → List β
  | 0, _, _, _ => []
  | fuel + 1, startTokenIdx, currMmIdx, prevBlockHashValue =>
    let endTokenIdx := startTokenIdx + blockSize
    -- only full blocks are hashed
    if endTokenIdx > r.numTokens then []
    else
      let (extraKeys, currMmIdx) :=
        generateBlockHashExtraKeys fns r startTokenIdx endTokenIdx currMmIdx
      let blockTokens := (r.allTokenIds.take endTokenIdx).drop startTokenIdx
      let blockHash := hashBlockTokens fns prevBlockHashValue blockTokens extraKeys
      blockHash :: hashLoop blockSize r fuel endTokenIdx currMmIdx (some blockHash)

/-- The hashes of the full blocks that `request.block_hashes` does not cover yet. -/
def requestBlockHasher (blockSize : Nat) (r : Request β) : List β :=
  let startTokenIdx := r.blockHashes.length * blockSize
  if startTokenIdx + blockSize > r.numTokens then []
  else
    -- -1 indicates the last item
    let currMmIdx := if startTokenIdx > 0 then -1 else 0
    hashLoop fns blockSize r r.numTokens startTokenIdx currMmIdx r.blockHashes.getLast?

/-- `Request.update_block_hashes`. -/
def updateBlockHashes (blockSize : Nat) (r : Request β) : Request β :=
  { r with blockHashes := r.blockHashes ++ requestBlockHasher fns blockSize r }

/-- The end of `Request.__init__`: hash the blocks of the prompt. -/
def initBlockHashes (blockSize : Nat) (r : Request β) : Request β :=
  updateBlockHashes fns blockSize { r with blockHashes := [] }

/-- `Request.append_output_token_ids`. -/
def appendOutputTokenIds (blockSize : Nat) (r : Request β) (tokenIds : List Nat) : Request β :=
  updateBlockHashes fns blockSize { r with
    outputTokenIds := r.outputTokenIds ++ tokenIds
    allTokenIds := r.allTokenIds ++ tokenIds }

/-- Move an item of new input behind the tokens of the session. -/
def shiftFeature (base : Nat) (f : MultiModalFeatureSpec) : MultiModalFeatureSpec :=
  { f with mmPosition := { f.mmPosition with offset := f.mmPosition.offset + base } }

/-- The tokens and items of a session that continues with new input. Only the computed output tokens
are kept. -/
def sessionInput (session : Request β) (update : StreamingUpdate) : Request β :=
  let allTokenIds := pyTake session.allTokenIds session.numComputedTokens
  { session with
    mmFeatures := session.mmFeatures ++
      (update.mmFeatures.getD []).map (shiftFeature allTokenIds.length)
    outputTokenIds := []
    allTokenIds := allTokenIds ++ update.promptTokenIds.getD [] }

/-- `Scheduler._update_request_as_session`: continue a session with new input. -/
def updateRequestAsSession (blockSize : Nat) (session : Request β) (update : StreamingUpdate) :
    Except PyError (Request β) :=
  match session.promptTokenIds with
  | none => .error (.assertionError "session.prompt_token_ids is not None")
  | some promptTokenIds =>
    let keptOutputTokens :=
      (pyTake session.allTokenIds session.numComputedTokens).drop session.numPromptTokens
    let promptTokenIds := promptTokenIds ++ keptOutputTokens ++ update.promptTokenIds.getD []
    .ok { updateBlockHashes fns blockSize (sessionInput session update) with
      promptTokenIds := some promptTokenIds
      numPromptTokens := promptTokenIds.length
      arrivalTime := update.arrivalTime
      samplingParams := update.samplingParams
      status := .waiting }

/-- The hashes of a request computed once, from scratch. -/
def scratchBlockHashes (blockSize : Nat) (r : Request β) : List β :=
  requestBlockHasher fns blockSize { r with blockHashes := [] }

end Hashing

/-! ## Symbolic digests -/

/-- A digest that spells out what was hashed. -/
inductive Digest where
  | none
  | block (parent : Digest) (tokenIds : List Nat) (extraKeys : Option (List (ExtraKey Digest)))
  | embeds (rows : List (List Nat))

/-- Hash functions without collisions. -/
def symbolicHash : HashFunctions Digest where
  noneHash := .none
  hashFunction := fun (parent, tokenIds, extraKeys) => .block parent tokenIds extraKeys
  embedsHash := .embeds

end Yuan.Core
