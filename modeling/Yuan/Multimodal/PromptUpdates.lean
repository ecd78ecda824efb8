import Yuan.Lib.Edits
import Yuan.Lib.Groups
import Mathlib.Data.List.Sort

/-!
# Updates of a token prompt

`_apply_matches` and `find_mm_placeholders` of the multimodal processor. The tokenizer is a parameter: its `encode` is
what a text in an update becomes before it is looked for or written. The loops run for as long as their fuel lasts.
-/

namespace Yuan.Multimodal

/-- A text, or token ids. -/
inductive PromptSeq where
  | text (s : String)
  | ids (tokenIds : List Int)
  deriving DecidableEq

/-- `_seq2tokens`, with a tokenizer. -/
def seq2tokens (encode : String → List Int) : PromptSeq → List Int
  | .text s => encode s
  | .ids tokenIds => tokenIds

/-- `PromptIndexTargets`. -/
inductive PromptIndexTargets where
  | atStart
  | afterPrefix (seq : PromptSeq)
  | atEnd
  deriving DecidableEq

inductive UpdateTarget where
  | seq (s : PromptSeq)
  | index (i : PromptIndexTargets)
  deriving DecidableEq

inductive UpdateMode where
  | insert
  | replace
  deriving DecidableEq

/-- What an update writes, and which of it are embeddings. -/
structure PromptUpdateDetails where
  full : PromptSeq
  isEmbed : Option (PromptSeq → List Bool) := none

structure ResolvedPromptUpdate where
  mode : UpdateMode
  target : UpdateTarget
  content : PromptUpdateDetails

structure PromptTargetMatch where
  startIdx : Nat
  endIdx : Nat
  deriving DecidableEq

/-- For each modality the updates of each item, of which one is applied. -/
abbrev MultiModalPromptUpdates := Dict String (List (List ResolvedPromptUpdate))

/-- A modality and the index of an item. -/
abbrev ItemKey := String × Nat

/-- For each item the index of its update that has been applied. -/
abbrev MultiModalPromptUpdatesApplyResult := ItemKey → Option Nat

section

variable (encode : String → List Int)

/-! ## Matches of one update -/

/-- `get_match_index`. -/
def PromptIndexTargets.getMatchIndex (prompt : List Int) (startIdx : Nat) : PromptIndexTargets → Option Nat
  | .atStart => some 0
  | .afterPrefix seq =>
    if startIdx ≠ 0 then none
    else if prompt.take (seq2tokens encode seq).length = seq2tokens encode seq then
      some (seq2tokens encode seq).length
    else none
  | .atEnd => some prompt.length

/-- The loop of `iter_token_matches`. -/
def tokenMatchesFrom (tokenIds matchIds : List Int) : Nat → Nat → List PromptTargetMatch
  | 0, _ => []
  | fuel + 1, startIdx =>
    if startIdx + matchIds.length < tokenIds.length + 1 then
      if (tokenIds.take (startIdx + matchIds.length)).drop startIdx = matchIds then
        ⟨startIdx, startIdx + matchIds.length⟩ :: tokenMatchesFrom tokenIds matchIds fuel (startIdx + matchIds.length)
      else tokenMatchesFrom tokenIds matchIds fuel (startIdx + 1)
    else []

/-- Each occurrence of `match_ids`, without the overlapping ones. -/
def iterTokenMatches (tokenIds matchIds : List Int) (startIdx : Nat) : List PromptTargetMatch :=
  if matchIds.length = 0 then [] else tokenMatchesFrom tokenIds matchIds (tokenIds.length + 1) startIdx

/-- `ResolvedPromptUpdate.iter_token_matches`. -/
def ResolvedPromptUpdate.iterTokenMatches (update : ResolvedPromptUpdate) (prompt : List Int) (startIdx : Nat) :
    List PromptTargetMatch :=
  match update.target with
  | .index i => ((i.getMatchIndex encode prompt startIdx).map fun idx => ⟨idx, idx⟩).toList
  | .seq s => Multimodal.iterTokenMatches prompt (seq2tokens encode s) startIdx

/-! ## `_find_matches` -/

/-- An item, its match, and the index of the update that is matched. -/
abbrev MatchToApply := ItemKey × PromptTargetMatch × Nat

/-- The first match of an update of the mode that all matches share. -/
def firstValid (mode : Option UpdateMode) (updateMode : UpdateMode) : List PromptTargetMatch → Option PromptTargetMatch
  | [] => none
  | found :: rest =>
    match mode with
    | none => some found
    | some m => if m ≠ updateMode then firstValid mode updateMode rest else some found

/-- The updates of one item, from `update_idx` on: the shared mode, and the match with the index of its update. -/
def findItemMatch (prompt : List Int) (prevEndIdx : Nat) (mode : Option UpdateMode) :
    Nat → List ResolvedPromptUpdate → Option UpdateMode × Option (PromptTargetMatch × Nat)
  | _, [] => (mode, none)
  | updateIdx, update :: updates =>
    match firstValid mode update.mode (update.iterTokenMatches encode prompt prevEndIdx) with
    | some found => (some update.mode, some (found, updateIdx))
    | none => findItemMatch prompt prevEndIdx mode (updateIdx + 1) updates

/-- The items of all modalities, in the order of the two loops. -/
def itemUpdates (updates : MultiModalPromptUpdates) : List (ItemKey × List ResolvedPromptUpdate) :=
  updates.entries.flatMap fun e => e.2.zipIdx.map fun p => ((e.1, p.2), p.1)

/-- The loop over the items. -/
def collectMatches (prompt : List Int) (prevEndIdx : Nat) (current : MultiModalPromptUpdatesApplyResult) :
    Option UpdateMode → List (ItemKey × List ResolvedPromptUpdate) → Option UpdateMode × List MatchToApply
  | mode, [] => (mode, [])
  | mode, (key, updates) :: items =>
    if (current key).isSome then collectMatches prompt prevEndIdx current mode items
    else
      match findItemMatch encode prompt prevEndIdx mode 0 updates with
      | (mode, none) => collectMatches prompt prevEndIdx current mode items
      | (mode, some found) =>
        ((collectMatches prompt prevEndIdx current mode items).1,
          (key, found) :: (collectMatches prompt prevEndIdx current mode items).2)

/-- The order of matches: by `start_idx`, then by `end_idx`. -/
def PromptTargetMatch.le (a b : PromptTargetMatch) : Prop :=
  a.startIdx < b.startIdx ∨ a.startIdx = b.startIdx ∧ a.endIdx ≤ b.endIdx

instance : DecidableRel PromptTargetMatch.le := fun _ _ => inferInstanceAs (Decidable (_ ∨ _))

/-- All empty matches, and the first of the others. -/
def oneNonEmpty : Bool → List MatchToApply → List MatchToApply
  | _, [] => []
  | hasNonEmptyMatches, item :: items =>
    if item.2.1.startIdx = item.2.1.endIdx then item :: oneNonEmpty hasNonEmptyMatches items
    else if ¬ hasNonEmptyMatches then item :: oneNonEmpty true items
    else oneNonEmpty hasNonEmptyMatches items

/-- `_find_matches`. -/
def findMatches (prompt : List Int) (updates : MultiModalPromptUpdates) (prevEndIdx : Nat)
    (current : MultiModalPromptUpdatesApplyResult) : Option UpdateMode × List MatchToApply :=
  let found := collectMatches encode prompt prevEndIdx current none (itemUpdates updates)
  let sorted := found.2.insertionSort fun a b => a.2.1.le b.2.1
  (found.1, if found.1 = some .replace then oneNonEmpty false sorted else sorted)

/-! ## `_apply_matches` -/

/-- `_all_items_found`, with the number of items of each modality and the number of those that are found. -/
def allItemsFound (updates : MultiModalPromptUpdates) (foundCounts : String → Nat) : Bool :=
  updates.entries.all fun e => e.2.length ≤ foundCounts e.1

/-- The number of items of a modality that have a result. -/
def resultCount (updates : MultiModalPromptUpdates) (result : MultiModalPromptUpdatesApplyResult) (modality : String) :
    Nat :=
  (List.range ((updates.get? modality).getD []).length).countP fun i => (result (modality, i)).isSome

/-- A match that the loop has applied. -/
structure Applied where
  key : ItemKey
  updateIdx : Nat
  mode : UpdateMode
  found : PromptTargetMatch
  content : List Int
  deriving DecidableEq

/-- What a match does to the prompt. -/
def Applied.edit (a : Applied) : Edit Int :=
  match a.mode with
  | .insert => ⟨a.found.endIdx, a.found.endIdx, a.content⟩
  | .replace => ⟨a.found.startIdx, a.found.endIdx, a.content⟩

/-- The variables of the loop. The source does not keep `applied`, the matches that have been applied. -/
structure ApplyState where
  prevEndIdx : Nat := 0
  outSeqs : List (List Int) := []
  outResult : MultiModalPromptUpdatesApplyResult := fun _ => none
  applied : List Applied := []

/-- `mm_prompt_updates[modality][item_idx][update_idx]`. -/
def updateAt? (updates : MultiModalPromptUpdates) (key : ItemKey) (updateIdx : Nat) : Option ResolvedPromptUpdate := do
  let modalityUpdates ← updates.get? key.1
  let itemUpdates ← modalityUpdates[key.2]?
  itemUpdates[updateIdx]?

/-- One turn of the inner loop. An update that is not there is left out. -/
def ApplyState.applyMatch (prompt : List Int) (updates : MultiModalPromptUpdates) (mode : UpdateMode) (s : ApplyState)
    (item : MatchToApply) : ApplyState :=
  match updateAt? updates item.1 item.2.2 with
  | none => s
  | some matchedUpdate =>
    let endIdxToInsert := match mode with
      | .insert => item.2.1.endIdx
      | .replace => item.2.1.startIdx
    let matchedContent := seq2tokens encode matchedUpdate.content.full
    { prevEndIdx := item.2.1.endIdx
      outSeqs := s.outSeqs ++ [(prompt.take endIdxToInsert).drop s.prevEndIdx, matchedContent]
      outResult := Function.update s.outResult item.1 (some item.2.2)
      applied := s.applied ++ [⟨item.1, item.2.2, mode, item.2.1, matchedContent⟩] }

/-- The outer loop. -/
def applyLoop (prompt : List Int) (updates : MultiModalPromptUpdates) : Nat → ApplyState → Option ApplyState
  | 0, _ => none
  | fuel + 1, s =>
    match findMatches encode prompt updates s.prevEndIdx s.outResult with
    | (none, _) => some s
    | (some mode, matchesToApply) =>
      let s := matchesToApply.foldl (ApplyState.applyMatch encode prompt updates mode) s
      if allItemsFound updates (resultCount updates s.outResult) then some s else applyLoop prompt updates fuel s

/-- The loop with its early exit; there are at most as many turns as items. -/
def applyRun (prompt : List Int) (updates : MultiModalPromptUpdates) : Option ApplyState :=
  if allItemsFound updates (resultCount updates fun _ => none) then some {}
  else applyLoop encode prompt updates ((itemUpdates updates).length + 1) {}

/-- `apply_token_matches`. -/
def applyTokenMatches (prompt : List Int) (updates : MultiModalPromptUpdates) :
    Option (List Int × MultiModalPromptUpdatesApplyResult) :=
  (applyRun encode prompt updates).map fun s => ((s.outSeqs ++ [prompt.drop s.prevEndIdx]).flatten, s.outResult)

/-! ## `find_mm_placeholders` -/

structure PlaceholderFeaturesInfo where
  modality : String
  itemIdx : Nat
  startIdx : Nat
  tokens : List Int
  isEmbed : Option (List Bool)
  deriving DecidableEq

/-- The updates of an item: the first whose content stands at `start_idx`. -/
def findContent (prompt : List Int) (startIdx : Nat) : List ResolvedPromptUpdate → Option PromptUpdateDetails
  | [] => none
  | update :: updates =>
    let contentTokensFull := seq2tokens encode update.content.full
    if contentTokensFull.length = 0 ∨ prompt.length < startIdx + contentTokensFull.length then
      findContent prompt startIdx updates
    else if (prompt.take (startIdx + contentTokensFull.length)).drop startIdx = contentTokensFull then
      some update.content
    else findContent prompt startIdx updates

/-- The modalities: the first whose next item stands at `start_idx`. -/
def findItem (prompt : List Int) (startIdx : Nat) (itemIdxByModality : String → Nat) :
    List (String × List (List ResolvedPromptUpdate)) → Option PlaceholderFeaturesInfo
  | [] => none
  | (modality, modalityUpdates) :: entries =>
    match modalityUpdates[itemIdxByModality modality]? with
    | none => findItem prompt startIdx itemIdxByModality entries
    | some updates =>
      match findContent encode prompt startIdx updates with
      | none => findItem prompt startIdx itemIdxByModality entries
      | some content =>
        some ⟨modality, itemIdxByModality modality, startIdx, seq2tokens encode content.full,
          content.isEmbed.map fun isEmbed => isEmbed content.full⟩

/-- The loop of `_iter_placeholders`. -/
def placeholdersFrom (prompt : List Int) (updates : MultiModalPromptUpdates) :
    Nat → Nat → (String → Nat) → List PlaceholderFeaturesInfo
  | 0, _, _ => []
  | fuel + 1, startIdx, itemIdxByModality =>
    if startIdx < prompt.length then
      match findItem encode prompt startIdx itemIdxByModality updates.entries with
      | none => placeholdersFrom prompt updates fuel (startIdx + 1) itemIdxByModality
      | some info =>
        let next := Function.update itemIdxByModality info.modality (info.itemIdx + 1)
        if allItemsFound updates next then [info]
        else info :: placeholdersFrom prompt updates fuel (startIdx + info.tokens.length) next
    else []

/-- `_iter_placeholders`; there are at most as many turns as tokens. -/
def iterPlaceholders (prompt : List Int) (updates : MultiModalPromptUpdates) : List PlaceholderFeaturesInfo :=
  if allItemsFound updates fun _ => 0 then []
  else placeholdersFrom encode prompt updates prompt.length 0 fun _ => 0

/-- `find_mm_placeholders`. -/
def findMmPlaceholders (prompt : List Int) (updates : MultiModalPromptUpdates) :
    Dict String (List PlaceholderFeaturesInfo) :=
  Dict.groupBy PlaceholderFeaturesInfo.modality id (iterPlaceholders encode prompt updates)

end

end Yuan.Multimodal
