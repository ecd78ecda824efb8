import Yuan.Lib.Py
import Yuan.Lib.Text

/-!
# Splitting a think text

Long texts are split into parts, and parts into lines or steps, where small pieces are combined with their neighbours.
What the regular expressions find is a parameter.
-/

namespace Yuan.Reward

abbrev Text := List Char

/-- What the regular expressions of `tools.py` and `merge_closest_sum` find in a text. A mark is found behind the text
in front of it, and its length is given. -/
structure Regexes where
  chineseRun : Text → Bool
  wordCount : Text → Nat
  chineseCount : Text → Nat
  isDigit : Char → Bool
  stepMark : Text → Text → Option Nat
  isStepMark : Text → Bool
  startsStepOrAnswer : Text → Bool
  isOption : Text → Bool

/-- `re.split`: the text in front of the first match, and each match with the text behind it. -/
def reSplit (mark : Text → Text → Option Nat) : Nat → Text → Text → Text → Text × List (Text × Text)
  | 0, _, piece, rest => (piece ++ rest, [])
  | _ + 1, _, piece, [] => (piece, [])
  | fuel + 1, before, piece, c :: rest =>
    match mark before (c :: rest) with
    | some (n + 1) =>
      let found := (c :: rest).take (n + 1)
      let split := reSplit mark fuel (before ++ found) [] ((c :: rest).drop (n + 1))
      (piece, (found, split.1) :: split.2)
    | _ => reSplit mark fuel (before ++ [c]) (piece ++ [c]) rest

/-- `re.split(r'(?<!\d)\.(?!\d)', text)`. -/
def dotMark (isDigit : Char → Bool) (before rest : Text) : Option Nat :=
  match rest with
  | '.' :: behind =>
    if before.getLast?.any isDigit ∨ behind.head?.any isDigit then none else some 1
  | _ => none

def dotPieces (r : Regexes) (text : Text) : List Text :=
  let split := reSplit (dotMark r.isDigit) text.length [] [] text
  split.1 :: split.2.map Prod.snd

/-! ## Steps -/

/-- The pieces with what they were split at, but for the last. -/
def withBound (bound : Char) : List Text → List Text
  | [] => []
  | [piece] => [piece]
  | piece :: rest => (piece ++ [bound]) :: withBound bound rest

/-- A blank piece joins the one in front of it. -/
def joinBlanks (pieces : List Text) : List Text :=
  pieces.foldl (fun subs piece =>
    match subs.getLast? with
    | some last => if Text.strip piece = [] then subs.dropLast ++ [last ++ piece] else subs ++ [piece]
    | none => [piece]) []

/-- `and_strip`. -/
def andStrip (text : Text) (splitText : List Text) (bound : Char) : List Text :=
  let pieces := withBound bound splitText
  let pieces :=
    match pieces.getLast? with
    | some last =>
      if ¬ [bound] <:+ text ∧ [bound] <:+ last then pieces.dropLast ++ [last.dropLast] else pieces
    | none => pieces
  let pieces :=
    match pieces with
    | first :: rest => if ¬ [bound] <+: text ∧ [bound] <+: first then first.tail :: rest else pieces
    | [] => []
  joinBlanks pieces

/-- The steps at first. Groups that take no part in a match are left out; the code skips them below. -/
def firstSplit (r : Regexes) (text : Text) : List Text :=
  let split := reSplit r.stepMark text.length [] [] text
  if split.2 = [] then
    let lines := andStrip text (text.splitOn '\n') '\n'
    if lines.length = 1 then
      if r.chineseRun text ∧ 30 < r.chineseCount text then andStrip text (text.splitOn '。') '。'
      else if ¬ r.chineseRun text ∧ 30 < r.wordCount text then andStrip text (dotPieces r text) '.'
      else lines
    else lines
  else split.1 :: split.2.flatMap fun p => [p.1, p.2]

/-- `split_text_mid` of a long step. At new lines and Chinese full stops it stays empty. -/
def splitTextMid (r : Regexes) (flagChi : Bool) (text : Text) : List Text :=
  if '\n' ∈ Text.strip text then andStrip text [] '\n'
  else if '。' ∈ Text.rstripChar '。' text then andStrip text [] '。'
  else if '.' ∈ Text.rstripChar '.' text ∧ flagChi = false then andStrip text (dotPieces r text) '.'
  else []

/-- A long step is split at its full stops. -/
def splitLong (r : Regexes) (flagChi : Bool) (text : Text) : List Text :=
  if 30 < r.wordCount (Text.strip text) + r.chineseCount (Text.strip text) then
    if splitTextMid r flagChi text = [] then [text] else splitTextMid r flagChi text
  else [text]

/-- The mark of a step joins the next piece that is not empty. -/
def joinMarks (r : Regexes) : Nat → List Text → List Text
  | 0, pieces => pieces
  | _ + 1, [] => []
  | fuel + 1, text :: rest =>
    if r.isStepMark text then
      match rest.dropWhile (· = []) with
      | next :: rest' => (text ++ next) :: joinMarks r fuel rest'
      | [] => text :: joinMarks r fuel rest
    else text :: joinMarks r fuel rest

/-- Where `sub` begins in a text. -/
def find (sub : String) : Text → Option Nat
  | [] => none
  | c :: rest => if sub.toList <+: c :: rest then some 0 else (find sub rest).map (· + 1)

/-- The answer is a step of its own. -/
def splitAnswer (r : Regexes) (steps : List Text) : List Text :=
  match steps.getLast? with
  | some last =>
    if ¬ r.startsStepOrAnswer last ∧ Text.contains "The answer is" last then
      match find "The answer is" last with
      | some (n + 1) => steps.dropLast ++ [last.take (n + 1), last.drop (n + 1)]
      | _ => steps
    else steps
  | none => steps

/-- `split_step_text`. -/
def splitStepText (r : Regexes) (text : Text) : List Text :=
  let text := Text.replace "<n>".toList "\n".toList text
  let steps := ((firstSplit r text).filter (· ≠ [])).flatMap (splitLong r (r.chineseRun text))
  if steps.length < 2 then steps else splitAnswer r (joinMarks r steps.length steps)

/-! ## Small pieces -/

/-- The characters that count. -/
def wordsNum (text : Text) : Nat := (text.filter fun c => c ≠ ' ' ∧ c ≠ '\n').length

/-- Whether a line joins the one in front of it. -/
def joinsLast (maxWords minWords : Nat) (last current : Text) (isLast : Bool) : Bool :=
  if wordsNum current < minWords then
    Text.startsWithAny ["\\]", "\\)", "\\\x7d", "]", ")", "\x7d", ","] (Text.strip current) ∨
      wordsNum current = 0 ∨ isLast ∨
      Text.endsWithAny [":", "：", "\x7b", "[", "(", "（"] (Text.strip last) ∨
      (¬ Text.endsWithAny [".", "?", "!", "]", "\x7d", ")", "。", "？", "！", "）"] (Text.strip last) ∧
        wordsNum current + wordsNum last < maxWords) ∨
      wordsNum last < minWords
  else
    wordsNum last < minWords ∨
      Text.endsWithAny [":", "：", "\x7b", "[", "(", "（", ",", "+", "-", "/"] (Text.strip last)

/-- The loop of both functions, with what is put between two lines that are joined. -/
def combineLoop (sep : Text) (maxWords minWords : Nat) : List Text → Text → List Text → List Text
  | combined, last, [] => combined ++ [last]
  | combined, last, current :: rest =>
    if joinsLast maxWords minWords last current (rest = []) then
      combineLoop sep maxWords minWords combined (last ++ sep ++ current) rest
    else combineLoop sep maxWords minWords (combined ++ [last]) current rest

/-- `combine_small_lst`, which returns an empty text as it is. -/
def combineSmallLst (inputText : Text) (maxWords minWords : Nat) : List Text :=
  if inputText = [] then []
  else
    match inputText.splitOn '\n' with
    | first :: second :: rest => combineLoop ['\n'] maxWords minWords [] first (second :: rest)
    | inputLst => inputLst

/-- What `input_lst` becomes with the next line. -/
def addLine (r : Regexes) (inputLst : List Text) (middleText : Text) (isLast : Bool) : List Text :=
  let inputLst :=
    if 1200 < middleText.length then
      inputLst ++ splitStepText r (Text.replace "<n>".toList "\n".toList middleText)
    else if (Text.strip middleText).length = 0 then
      inputLst.dropLast ++ [inputLst.getLast?.getD [] ++ middleText]
    else inputLst ++ [middleText]
  if isLast then inputLst else inputLst.dropLast ++ [inputLst.getLast?.getD [] ++ ['\n']]

def addLines (r : Regexes) : List Text → List Text → List Text
  | inputLst, [] => inputLst
  | inputLst, middleText :: rest => addLines r (addLine r inputLst middleText (rest = [])) rest

/-- `combine_small_lst_mllm`. -/
def combineSmallLstMllm (r : Regexes) (inputText : Text) (maxWords minWords : Nat) : Except PyError (List Text) :=
  if inputText = [] then .ok []
  else
    match addLines r [[]] ((Text.replace "<n>".toList "\n".toList inputText).splitOn '\n') with
    | first :: second :: rest => do
      let combinedLst := combineLoop [] maxWords minWords [] first (second :: rest)
      pyAssert (combinedLst.flatten = inputText) "The combined string does not match the input text"
      return combinedLst
    | inputLst => .ok inputLst

/-! ## Parts of a long text -/

/-- Where a part does not end: the text ends so. -/
def openEnds : List String := [",", ":", "+", "/", "[", "\x7b", "(", ";", "，", "：", "【", "（"]

/-- Whether the part goes on after an item. -/
def continuesPart (r : Regexes) (targetLength : Int) (combineText item : Text) (isLast : Bool) : Bool :=
  (r.isOption item ∧ (Text.strip item).length < 100 ∧ isLast = false) ∨
    (Text.endsWithAny openEnds (Text.strip combineText) ∧ isLast = false ∧
      5 * (combineText.length : Int) < 6 * targetLength) ∨
    ((Text.strip item).length < 20 ∧ ¬ Text.endsWithAny openEnds (Text.strip item) ∧ isLast = false ∧
      5 * (combineText.length : Int) < 6 * targetLength)

/-- The loop of `merge_closest_sum`. -/
def mergeLoop (r : Regexes) (targetLength : Int) : List Text → Text → List Text → List Text
  | result, _, [] => result
  | result, combineText, item :: rest =>
    let combineText := combineText ++ '\n' :: item
    if continuesPart r targetLength combineText item (rest = []) then mergeLoop r targetLength result combineText rest
    else if targetLength < combineText.length ∨ rest = [] then
      mergeLoop r targetLength (result ++ [combineText]) [] rest
    else mergeLoop r targetLength result combineText rest

/-- `merge_closest_sum`. -/
def mergeClosestSum (r : Regexes) (inputText : Text) (targetLength : Int) : Except PyError (List Text) :=
  match (Text.replace "<n>".toList "\n".toList inputText).splitOn '\n' with
  | first :: second :: rest =>
    let targetLength :=
      if (inputText.length : Int) < targetLength * 2 then (inputText.length / 2 + 1 : Int) else targetLength
    let result := mergeLoop r targetLength [] first (second :: rest)
    match result.getLast? with
    | none => .error (.indexError "list index out of range")
    | some last =>
      if 3 * (last.length : Int) < targetLength then
        match result.dropLast.getLast? with
        | none => .error (.indexError "list index out of range")
        | some previous => .ok (result.dropLast.dropLast ++ [previous ++ last])
      else .ok result
  | _ => .ok [inputText]

end Yuan.Reward
