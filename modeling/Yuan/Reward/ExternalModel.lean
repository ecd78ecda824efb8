import Mathlib.Algebra.Order.Ring.Rat
import Mathlib.Data.List.Infix
import Yuan.Lib.Dict
import Yuan.Lib.Py

/-!
# Scoring by external models

The rewards of a batch are computed in two steps: a scorer for each sample, and then, where the method asks
for it, a model behind an API. The calls of the second step run in a pool, and their results come back in any
order; they are sorted by the index of the sample.

What a scoring call returns for the sample at some position of the batch is a parameter. Scores are rational
numbers.
-/

namespace Yuan.Reward

/-- What a dictionary of scores holds. `item` is an output of `process_line`. -/
inductive Value where
  | none
  | bool (b : Bool)
  | num (x : ℚ)
  | nums (xs : List ℚ)
  | text (s : String)
  | item
  deriving DecidableEq

/-- Python's truth value. -/
def Value.truthy : Value → Bool
  | .none => false
  | .bool b => b
  | .num x => x ≠ 0
  | .nums xs => xs ≠ []
  | .text s => s ≠ ""
  | .item => true

/-- A number; `True` and `False` are 1 and 0. -/
def Value.asNum : Value → Option ℚ
  | .num x => some x
  | .bool b => some (if b then 1 else 0)
  | _ => Option.none

/-- `values[i]`. -/
def Value.at (values : Value) (i : Nat) : Except PyError Value :=
  match values with
  | .nums xs =>
    match xs[i]? with
    | some x => .ok (.num x)
    | Option.none => .error (.indexError "list index out of range")
  | .text s =>
    match s.toList[i]? with
    | some c => .ok (.text (String.singleton c))
    | Option.none => .error (.indexError "string index out of range")
  | _ => .error (.typeError "object is not subscriptable")

/-- The scores of one sample. -/
abbrev Score := Dict String Value

/-- `score[key]`. -/
def Score.getItem (score : Score) (key : String) : Except PyError Value :=
  match score.get? key with
  | some value => .ok value
  | none => .error (.keyError key)

/-- `score[key] = value`, where `score` may be `None`. -/
def Score.setItem (score : Option Score) (key : String) (value : Value) : Except PyError Score :=
  match score with
  | some score => .ok (score.set key value)
  | none => .error (.typeError "'NoneType' object does not support item assignment")

/-- What the reward manager knows of a sample before it is scored. -/
structure RewardInput where
  response : List Char
  rewardMethod : String
  overlongFilterFlag : Bool
  responseList : Option (List (List Char)) := none
  rewardFlag : Option Bool := none
  rewardVllmApi : String := "none"
  deriving DecidableEq

/-- A sample with its position in the batch and its score. `processed` says that `process_line` has put its
output in the place of the input. -/
structure Question where
  index : Nat
  input : RewardInput
  score : Option Score
  processed : Bool := false

/-- The outcomes of the scoring calls for the sample at each position. -/
structure Calls where
  computeScore : Nat → Except PyError (Option Score)
  /-- `llm_general_reward` and `mllm_general_reward`: the scores of a list of responses, and the judgement. -/
  generalReward : Nat → Except PyError (Value × Value)
  /-- `compute_score_model` and `compute_score_summary`. -/
  scoreModel : Nat → Except PyError Value
  processLine : Nat → Except PyError Unit
  processScoring : Nat → Except PyError (ℚ × Value)

/-- The methods that are scored by a judge, a group at a time. -/
def generalMethods : List String := ["llm_general", "mllm_general2"]

section External

variable (calls : Calls) (llmProcessMethodFlag : List String)

/-- `general_reward_model_acc`: the first sample of a group asks the judge. -/
def generalRewardModelAcc (data : Question) : Except PyError (Value × Value) :=
  if data.input.rewardFlag = some false then
    match data.input.responseList with
    | some responses => .ok (.nums (responses.map fun _ => -42), .none)
    | none => .error (.keyError "response_list")
  else calls.generalReward data.index

/-- `llm_process`. -/
def llmProcess (data : Question) : Except PyError Question :=
  let method := data.input.rewardMethod
  if method ∈ generalMethods then do
    let (accScore, judgement) ← generalRewardModelAcc calls data
    let score ← Score.setItem data.score "acc_score" accScore
    return { data with score := some (score.set "llm_general_judgement" judgement) }
  else if method ∈ ["rag_frames", "rag_alpaca", "rag_simpleqa"] then do
    let iscore ← calls.scoreModel data.index
    let score ← Score.setItem data.score "acc_score" iscore
    return { data with score := some (score.set "reward_score" iscore) }
  else if method ∈ llmProcessMethodFlag then
    match data.score with
    | none => .error (.typeError "'NoneType' object is not a mapping")
    | some _ => do
      calls.processLine data.index
      return { data with processed := true }
  else if method = "rag_summary" then do
    let iscore ← calls.scoreModel data.index
    let score ← Score.setItem data.score "acc_score" iscore
    return { data with score := some (score.set "reward_score" iscore) }
  else return data

/-- The order in which the results of a pool's chunks come back. -/
structure Completion where
  asCompleted : Nat → List (Option Question) → List (Option Question)
  perm : ∀ chunk results, (asCompleted chunk results).Perm results

/-- `thread_func`: a call that raises leaves `None`. -/
def threadFunc (completion : Completion) (chunk : Nat) (questions : List Question) :
    List (Option Question) :=
  completion.asCompleted chunk (questions.map fun q => (llmProcess calls llmProcessMethodFlag q).toOption)

/-- `zigzag_map`. -/
def zigzagMap (n total : Nat) : Nat :=
  let block := n / total
  let offset := n % total
  if block % 2 = 0 then offset else total - 1 - offset

/-- Consecutive parts of the given lengths. -/
def parts {α : Type} : List Nat → List α → List (List α)
  | [], _ => []
  | size :: sizes, xs => xs.take size :: parts sizes (xs.drop size)

/-- `np.array_split`: `n` parts, the first `len(xs) % n` of them one longer. -/
def arraySplit {α : Type} (xs : List α) (n : Nat) : List (List α) :=
  parts (List.replicate (xs.length % n) (xs.length / n + 1) ++
    List.replicate (n - xs.length % n) (xs.length / n)) xs

/-- `split_list_2`. -/
def splitList2 {α : Type} (xs : List α) (n : Nat) : List (List α) :=
  if xs.length < n then arraySplit xs xs.length else arraySplit xs n

/-- The questions for each API, and those that no API is asked about. -/
structure Dealt where
  content : Dict String (List Question) := .empty
  allResults : List (Option Question) := []
  rewardProcessNum : Nat := 0

/-- The loop that deals the questions to the APIs. -/
def deal (rewardApiLst : List String) : Dealt → List Question → Except PyError Dealt
  | dealt, [] => .ok dealt
  | dealt, data :: questions =>
    if data.input.rewardVllmApi = "none" then
      deal rewardApiLst { dealt with allResults := dealt.allResults ++ [some data] } questions
    else if data.input.rewardMethod ∈ llmProcessMethodFlag then
      match rewardApiLst[zigzagMap dealt.rewardProcessNum rewardApiLst.length]? with
      | none => .error (.indexError "list index out of range")
      | some api =>
        let data := { data with input := { data.input with rewardVllmApi := api } }
        deal rewardApiLst { dealt with
          content := dealt.content.set api ((dealt.content.get? api).getD [] ++ [data])
          rewardProcessNum := dealt.rewardProcessNum + 1 } questions
    else
      let api := data.input.rewardVllmApi
      deal rewardApiLst { dealt with
        content := dealt.content.set api ((dealt.content.get? api).getD [] ++ [data]) } questions

/-- The chunks of work for the pool. -/
def inputLst (content : Dict String (List Question)) : List (List Question) :=
  let splitNum := 64 / content.keys.length
  if 0 < splitNum then content.values.flatMap fun value => splitList2 value splitNum
  else content.values

/-- The key of the sort: `x[0]['index']`. -/
def indexed (result : Option Question) : Except PyError Question :=
  match result with
  | some data => .ok data
  | none => .error (.typeError "'NoneType' object is not subscriptable")

/-- `process_inputs_externalmodel`. -/
def processInputsExternalmodel (completion : Completion) (rewardInputs : List RewardInput)
    (scores : List (Option Score)) : Except PyError (List Question) := do
  let rewardApiLst :=
    (rewardInputs.filter fun input => input.rewardMethod ∈ llmProcessMethodFlag).map
      RewardInput.rewardVllmApi
  let questions := (rewardInputs.zip scores).zipIdx.map fun ((input, score), index) =>
    ({ index, input, score } : Question)
  let questions := questions.mergeSort fun a b => b.input.response.length ≤ a.input.response.length
  let dealt ← deal llmProcessMethodFlag rewardApiLst {} questions
  let allResults := dealt.allResults ++ (inputLst dealt.content).zipIdx.flatMap fun (chunk, i) =>
    threadFunc calls llmProcessMethodFlag completion i chunk
  let results ← allResults.mapM indexed
  return results.mergeSort fun a b => a.index ≤ b.index

end External

end Yuan.Reward
