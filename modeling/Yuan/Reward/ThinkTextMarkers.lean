import Yuan.Lib.Dict
import Yuan.Reward.ThinkTextSplits

/-!
# Markers in a think text

A model is asked where a think text gives the answer. The places it names are looked up in the segments of the text,
and a marker is put behind each.

What the model answers, what the fuzzy matcher finds and what the regular expressions match are parameters.
-/

namespace Yuan.Reward

/-- The prompt templates. -/
inductive PromptTemplate where
  | cnTrue
  | cnFalse
  | other
  deriving DecidableEq

/-- What is called from outside, and the regular expressions of `eval_process.py`. -/
structure MarkerTools extends Regexes where
  format : PromptTemplate → (question solution inputText : Text) → Text
  qwenVllmInference : (idx : Nat) → (inputText api : Text) → Except PyError Text
  extractOne : Text → List Text → Option Text
  partialRatio : Text → Text → Nat
  splitLocations : Text → List Text
  answerLocations : Text → List Text
  hasChinese : Text → Bool
  isCapital : Text → Bool
  capitals : Text → List Text
  dropBlankLines : Text → Text
  closeBoxed : Text → Text

def verifyMarker : Text := "</verify>".toList

def firstAnswerMarker : Text := "<1st_answer>".toList

/-! ## One part of the text -/

/-- An entry of `Insert_verify_blocks`. -/
structure VerifyBlock where
  endText : Text
  endMatchText : Option Text := none
  endMatchIndex : Option Nat := none
  endSimilarity : Option Nat := none

/-- What `get_insert_verify_res_onlyend` returns. -/
structure InsertResult where
  matchs : List VerifyBlock
  sftThinkTextVerify : Text
  endIndexLst : Dict Nat (List Text)

/-- The text without markers. -/
def unmarked (sftThinkText : Text) : InsertResult := ⟨[], sftThinkText, .empty⟩

variable (t : MarkerTools)

/-- `Insert_verify_blocks`, from the model's answer. -/
def insertVerifyBlocks (sftThinkText verifyLocationRes : Text) : List VerifyBlock :=
  let verifySplit := (((t.splitLocations ('\n' :: verifyLocationRes)).drop 1).filter fun item => Text.strip item ≠ []).map
    fun item => (Text.split "<get_answer>".toList (Text.strip item)).head?.getD []
  verifySplit.filterMap fun item =>
    if t.hasChinese item ∧ t.hasChinese sftThinkText = false then none
    else
      let endText := ((t.answerLocations item).filter fun subText => Text.strip subText ≠ []).head?.getD item
      if endText = [] then none
      else some { endText := Text.strip (Text.stripChar ']' (Text.stripChar '[' (Text.strip endText))) }

/-- What is looked up: the last characters of a long text. -/
def lookedUp (block : VerifyBlock) : Text :=
  let endText := Text.stripChar ']' (Text.stripChar '[' (Text.stripChar '"'
    (Text.strip (Text.replace "<n>".toList "\n".toList block.endText))))
  if 50 < endText.length then endText.drop (endText.length - 40) else endText

/-- The search for `end_index`: the first segment from `find_index` on that is the match, or one behind all segments
that were matched before. Each turn starts further back, so there are at most as many as segments. -/
def findEndIndex (segments : List Text) (best : Text) (keys : List Nat) :
    Nat → Nat → Option Nat → Except PyError (Option Nat)
  | 0, _, endIndex => .ok endIndex
  | turns + 1, findIndex, endIndex =>
    if findIndex < segments.length then
      match (segments.drop findIndex).findIdx? (· = best) with
      | none => .error (.valueError "is not in list")
      | some i =>
        if i + findIndex ∉ keys then .ok (some (i + findIndex))
        else findEndIndex segments best keys turns (keys.foldr max 0 + 1) (some (i + findIndex))
    else .ok endIndex

/-- What the loop over the blocks changes. -/
structure InsertState where
  segments : List Text
  endIndexLst : Dict Nat (List Text)
  blocks : List VerifyBlock

/-- One turn of the loop. -/
def insertBlock (s : InsertState) (p : VerifyBlock × Nat) : Except PyError InsertState := do
  let endText := lookedUp p.1
  let newTextSplit := (s.segments.zipIdx.filter fun q => q.2 ∉ s.endIndexLst.keys).map Prod.fst
  match t.extractOne endText newTextSplit with
  | none => return s
  | some best =>
    match ← findEndIndex s.segments best s.endIndexLst.keys s.segments.length 0 none with
    | none => return s
    | some endIndex =>
      let endSimilarity := t.partialRatio endText (Text.replace verifyMarker [] best)
      let s := { s with
        endIndexLst := s.endIndexLst.set endIndex ((s.endIndexLst.get? endIndex).getD [] ++ [best])
        blocks := s.blocks.modify p.2 fun block => { block with
          endMatchText := some best, endMatchIndex := some endIndex, endSimilarity := some endSimilarity } }
      if endSimilarity < 65 then return s
      else return { s with segments := s.segments.modify endIndex (· ++ verifyMarker) }

/-- Whether the reward method is one for images. -/
def isMllm (rewardMethod : Text) : Bool := Text.contains "mllm" rewardMethod

/-- `sft_think_text_split`. -/
def thinkTextSegments (rewardMethod sftThinkText : Text) : Except PyError (List Text) :=
  if isMllm rewardMethod then combineSmallLstMllm t.toRegexes sftThinkText 50 20
  else .ok (combineSmallLst sftThinkText 50 20)

/-- What the segments are joined with. -/
def segmentSep (rewardMethod : Text) : Text := if isMllm rewardMethod then [] else ['\n']

/-- `get_insert_verify_res_onlyend`. -/
def getInsertVerifyResOnlyend (sftThinkText insertVerify rewardMethod : Text) : Except PyError InsertResult :=
  let verifyLocationRes := (Text.split "</think>".toList insertVerify).getLast?.getD []
  if sftThinkText = [] ∨ insertVerify = [] ∨
      Text.contains "InputText does not contain content providing the correct answer to the question"
        verifyLocationRes ∨
      Text.contains "输入文本不包含给出了问题最终答案的内容" verifyLocationRes then
    .ok (unmarked sftThinkText)
  else do
    let blocks := insertVerifyBlocks t sftThinkText verifyLocationRes
    let segments ← thinkTextSegments t rewardMethod sftThinkText
    let s ← blocks.zipIdx.foldlM (insertBlock t) ⟨segments, .empty, blocks⟩
    return ⟨s.blocks, List.intercalate (segmentSep rewardMethod) s.segments, s.endIndexLst⟩

/-- What `process_split_text` returns. -/
structure SplitResult extends InsertResult where
  questionBlock : Text
  generateBlock : Text

/-- `generate_text_block`: nothing if the model fails. -/
def generateTextBlock (idx : Nat) (questionBlock api : Text) : Text :=
  match t.qwenVllmInference idx questionBlock api with
  | .ok text => text
  | .error _ => []

/-- `res_insert`: the part without markers if there is no answer or reading it fails. -/
def resInsert (splitText generateTextBlockNew rewardMethod : Text) : InsertResult :=
  if generateTextBlockNew = [] then unmarked splitText
  else
    match getInsertVerifyResOnlyend t splitText generateTextBlockNew rewardMethod with
    | .ok result => result
    | .error _ => unmarked splitText

/-- `process_split_text`. -/
def processSplitText (idx : Nat) (splitText question ansEnd api : Text) (template : PromptTemplate)
    (rewardMethod : Text) : SplitResult :=
  let questionBlock := t.format template question ansEnd splitText
  let generated := generateTextBlock t idx questionBlock api
  let generateTextBlockNew := (Text.split "</think>".toList generated).getLast?.getD []
  { resInsert t splitText generateTextBlockNew rewardMethod with
    questionBlock := questionBlock, generateBlock := generated }

/-- `process_with_multithreading_map`: the results in the order of the parts. -/
def processWithMultithreadingMap (splitThinkTextMerge : List Text) (question ansEnd api : Text)
    (template : PromptTemplate) (rewardMethod : Text) : Text × List SplitResult :=
  let results := splitThinkTextMerge.zipIdx.map fun p =>
    processSplitText t p.2 p.1 question ansEnd api template rewardMethod
  (results.flatMap fun result => result.sftThinkTextVerify, results)

/-! ## Answers -/

/-- `get_answer`: the last lines with `boxed`, as far as only blank lines are between them. -/
def getAnswer (line : Text) : Text :=
  let items := Text.split "<n>".toList (Text.replace "\n".toList "<n>".toList (Text.strip line))
  let result := (((items.reverse.filter fun item => Text.strip item ≠ []).dropWhile fun item =>
    Text.contains "boxed" item = false).takeWhile fun item => Text.contains "boxed" item)
  Text.strip (List.intercalate ['\n'] result.reverse)

/-- `get_boxed_answer_text`, which returns nothing for a blank text and one that does not stop to think. -/
def getBoxedAnswerText (aText : Text) : Option Text :=
  let aText := Text.replace "\n".toList "<n>".toList (Text.strip aText)
  let solution := Text.replace "</think>".toList "</eog>".toList (Text.replace "<think>".toList "<eog>".toList aText)
  if Text.strip aText = [] then none
  else if Text.contains "<eog>" solution ∧ Text.contains "</eog>" solution = false then none
  else
    let realsolution :=
      if Text.contains "</eog>" solution then ((Text.split "</eog>".toList solution)[1]?).getD [] else solution
    let realsolution := t.closeBoxed (t.dropBlankLines (Text.strip (Text.replace "<n>".toList "\n".toList realsolution)))
    let realsolution := Text.replace "\n".toList "<n>".toList (Text.replace "\n\n".toList "\n".toList realsolution)
    let solutionSplit := Text.split "<n>".toList realsolution
    let answer := (solutionSplit.reverse.find? fun item => Text.contains "boxed\x7b" item).getD []
    if answer = [] then some (List.intercalate ['\n'] (solutionSplit.drop (solutionSplit.length - 5))) else some answer

/-! ## A line of data -/

/-- What `process_line` reads of `data`. -/
structure LineData where
  question : Text
  response : Text
  answer : Text
  rewardVllmApi : Text
  accScore : Int
  enableThinkingFlag : Bool
  rewardMethod : Text

/-- What `process_line` adds to `data`. -/
structure LineResult where
  sftThinkTextOriginal : Text
  sftThinkTextFinal : Text
  matchs : List SplitResult
  flagInsert : Bool

/-- What is read from the inputs before markers are put in. -/
structure ParsedLine where
  question : Text
  thinkText : Text
  ansEnd : Text
  template : PromptTemplate
  flagInsert : Bool

/-- `pieces[i]`. -/
def pieceAt (pieces : List Text) (i : Nat) : Except PyError Text :=
  match pieces[i]? with
  | some piece => .ok piece
  | none => .error (.indexError "list index out of range")

/-- `text.strip().replace('<n>', '\n').strip()`. -/
def stripLines (text : Text) : Text := Text.strip (Text.replace "<n>".toList "\n".toList (Text.strip text))

/-- `think_text` and `answer_text`. -/
def thinkAndAnswer (data : LineData) : Except PyError (Text × Text) :=
  let solution := Text.strip (["<｜User｜>", "<｜Assistant｜>", "<｜end▁of▁sentence｜>", "<|end_of_sentence|><eod>"].foldl
    (fun text sub => Text.replace sub.toList [] text) data.response)
  if data.enableThinkingFlag then do
    let solution := "<think>".toList ++ Text.strip solution
    let behind ← pieceAt (Text.split "<think>".toList solution) 1
    if Text.contains "</think>" solution then do
      let thought ← pieceAt (Text.split "</think>".toList behind) 0
      let answer ← pieceAt (Text.split "</think>".toList solution) 1
      return (stripLines thought,
        Text.strip (Text.replace "<n>".toList "\n".toList (Text.replace "<|end_of_sentence|>".toList [] answer)))
    else return (stripLines behind, [])
  else return (Text.strip (Text.replace "<n>".toList "\n".toList solution), [])

/-- `ans_end`, from an answer that is right. -/
def answerEnd (data : LineData) (answerText : Text) : Text :=
  if data.accScore = 1 ∧ answerText ≠ [] then
    let final :=
      if Text.contains "**Final Answer**" answerText then
        Text.strip ((Text.split "**Final Answer**".toList answerText).getLast?.getD [])
      else []
    let ansEnd := if final = [] then getAnswer answerText else getAnswer final
    if ansEnd = [] then (getBoxedAnswerText t answerText).getD [] else ansEnd
  else []

/-- The first part of `process_line`, inside its `try`. -/
def parseLine (data : LineData) : Except PyError ParsedLine := do
  let question := Text.replace
    "Choose the correct answer from the options after each question.\n".toList [] data.question
  let question := Text.strip ([("<｜User｜>", "<|User|>"), ("<｜Assistant｜>", "<|Assistant|>"), ("<think>", "")].foldl
    (fun text r => Text.replace r.1.toList r.2.toList text) question)
  let question := (Text.split "<|User|>".toList question).getLast?.getD []
  let question := (Text.split "<|Assistant|>".toList question).head?.getD []
  let (thinkText, answerText) ← thinkAndAnswer data
  let ansEnd := answerEnd t data answerText
  match getBoxedAnswerText t data.answer with
  | none => throw (.typeError "expected string or bytes-like object, got 'NoneType'")
  | some answerTrueNew =>
    let choice := data.rewardMethod = "llm_choice".toList ∨ data.rewardMethod = "mllm_choice".toList ∨
      t.isCapital (Text.strip answerTrueNew) = true
    let answerTrue :=
      if choice ∧ (t.capitals answerTrueNew).head? = some answerTrueNew then
        "The answer is \\boxed\x7b".toList ++ answerTrueNew ++ "\x7d.".toList
      else data.answer
    let template := if choice then (if data.accScore = 1 then .cnTrue else .cnFalse) else .other
    let flagInsert := ¬ (choice ∧ data.accScore ≠ 1 ∧ 25000 < thinkText.length)
    return ⟨question, thinkText, if ansEnd = [] then answerTrue else ansEnd, template, flagInsert⟩

/-- `sft_think_text_final`: the first marker becomes another one, and a marker is put at the end of a right answer. -/
def finishMarkers (accScore : Int) (sftThinkTextVerify : Text) : Text :=
  let marked := Text.replaceFirst verifyMarker firstAnswerMarker sftThinkTextVerify
  if accScore = 1 ∧ Text.contains "<1st_answer>" marked ∧
      Text.endsWithAny ["</verify>", "<1st_answer>"] (Text.strip marked) = false then marked ++ verifyMarker
  else marked

/-- `split_think_text_merge`. -/
def thinkTextParts (thinkText : Text) : Except PyError (List Text) :=
  if 1400 < thinkText.length then mergeClosestSum t.toRegexes thinkText 1000 else .ok [thinkText]

/-- `process_line`. An exception while the inputs are read leaves both texts empty. -/
def processLine (data : LineData) : Except PyError LineResult :=
  match parseLine t data with
  | .error _ => .ok ⟨[], [], [], false⟩
  | .ok p =>
    if p.flagInsert then do
      let parts ← thinkTextParts t p.thinkText
      let inserted := processWithMultithreadingMap t parts p.question p.ansEnd data.rewardVllmApi p.template
        data.rewardMethod
      return ⟨p.thinkText, finishMarkers data.accScore inserted.1, inserted.2, true⟩
    else .ok ⟨p.thinkText, p.thinkText, [], false⟩

end Yuan.Reward
