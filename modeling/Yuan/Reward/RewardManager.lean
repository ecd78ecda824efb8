import Yuan.Reward.ExternalModel

/-!
# `MPDapoYuanRewardManager`

The samples of a batch are turned into reward inputs, scored in two steps, and their scores are put into rows:
the reward of each sample, and the lists of extra information. A group of `n_samples_per_prompt` samples of a
judged method is scored by one call for its first sample; a running counter for each method says where in its
group a sample is.

Batches that bring their own `rm_scores` are left out, and so is the debug output.
-/

namespace Yuan.Reward

/-- A sample of the batch, with its response decoded. -/
structure DataItem where
  response : List Char
  rewardMethod : String
  uid : String

/-- The manager. `textAnswer` stands for the regular expressions that look for an answer in text. -/
structure RewardManager where
  nSamplesPerPrompt : Nat
  samples_pos : 0 < nSamplesPerPrompt
  qwen72bInstHost : List String
  inst_ne : qwen72bInstHost ≠ []
  qwen72bVlHost : List String
  vl_ne : qwen72bVlHost ≠ []
  yuanm32Host : List String
  m32_ne : yuanm32Host ≠ []
  bertHost : String
  processRewardHost : List String
  process_ne : processRewardHost ≠ []
  llmProcessMethodFlag : List String
  textAnswer : DataItem → Bool

namespace RewardManager

variable (m : RewardManager)

/-- `self.qwen72b_inst_api`. -/
def qwen72bInstApi : List String := m.qwen72bInstHost.flatMap fun ip => [ip ++ ":7210", ip ++ ":7211"]

/-- `self.qwen72b_vl_api`. -/
def qwen72bVlApi : List String := m.qwen72bVlHost.flatMap fun ip => [ip ++ ":7220", ip ++ ":7221"]

/-- `self.yuan_m32_api`. -/
def yuanM32Api : List String :=
  m.yuanm32Host.flatMap fun ip => [ip ++ ":7230", ip ++ ":7231", ip ++ ":7232", ip ++ ":7233"]

/-- `self.bert_api`. -/
def bertApi : String := m.bertHost ++ ":8019"

/-- `self.process_reward_api`. -/
def processRewardApi : List String :=
  m.processRewardHost.flatMap fun ip => [ip ++ ":7240", ip ++ ":7241", ip ++ ":7242", ip ++ ":7243"]

/-! ## Inputs -/

/-- An entry of `reward_counters`. -/
structure Counter where
  idx : Int := -1
  responseList : List (List Char) := []

/-- The locals of the loop over the samples. -/
structure InputCounters where
  rewardCounters : String → Counter := fun _ => {}
  numberQwen72bInst : Nat := 0
  numberQwen72bVl : Nat := 0
  numberYuanM32 : Nat := 0
  numberProcessReward : Nat := 0

/-- `get_reward_input`. -/
def getRewardInput (item : DataItem) : RewardInput where
  response := item.response
  rewardMethod := item.rewardMethod
  overlongFilterFlag := decide ¬ "<eod>".toList <:+: item.response

/-- `process_general_reward`: the first sample of a group brings the responses of the slice behind it. -/
def processGeneralReward (c : InputCounters) (method : String) (dataSlice : List DataItem)
    (input : RewardInput) : InputCounters × RewardInput :=
  let idx := (c.rewardCounters method).idx + 1
  let first := decide (idx % m.nSamplesPerPrompt = 0)
  let responseList :=
    if first then dataSlice.map DataItem.response else (c.rewardCounters method).responseList
  ({ c with rewardCounters := Function.update c.rewardCounters method { idx, responseList } },
    { input with responseList := some responseList, rewardFlag := some first })

/-- `lst[i % len(lst)]`. -/
def pick (apis : List String) (i : Nat) : String := apis.getD (i % apis.length) ""

/-- The API of a sample, dealt out in turns. -/
def assignApi (c : InputCounters) (input : RewardInput) : InputCounters × RewardInput :=
  let method := input.rewardMethod
  if method ∈ ["mllm_general1", "rag_alpaca", "rag_simpleqa", "rag_frames"] then
    ({ c with numberQwen72bInst := c.numberQwen72bInst + 1 },
      { input with rewardVllmApi := pick m.qwen72bInstApi c.numberQwen72bInst })
  else if method ∈ ["mllm_general2"] then
    ({ c with numberQwen72bVl :=
        if input.rewardFlag = some true then c.numberQwen72bVl + 1 else c.numberQwen72bVl },
      { input with rewardVllmApi := pick m.qwen72bVlApi c.numberQwen72bVl })
  else if method ∈ ["llm_general"] then
    ({ c with numberYuanM32 :=
        if input.rewardFlag = some true then c.numberYuanM32 + 1 else c.numberYuanM32 },
      { input with rewardVllmApi := pick m.yuanM32Api c.numberYuanM32 })
  else if method = "rag_summary" then (c, { input with rewardVllmApi := m.bertApi })
  else if method ∈ m.llmProcessMethodFlag then
    ({ c with numberProcessReward := c.numberProcessReward + 1 },
      { input with rewardVllmApi := pick m.processRewardApi c.numberProcessReward })
  else (c, { input with rewardVllmApi := "none" })

/-- The loop over the samples. -/
def makeInputs : InputCounters → List DataItem → List RewardInput
  | _, [] => []
  | c, item :: rest =>
    let input := getRewardInput item
    let (c, input) :=
      if item.rewardMethod ∈ generalMethods then
        m.processGeneralReward c item.rewardMethod ((item :: rest).take m.nSamplesPerPrompt) input
      else (c, input)
    let (c, input) := m.assignApi c input
    input :: makeInputs c rest

/-- The loop starts with the first sample: it does not test for an empty batch. -/
def rewardInputs (data : List DataItem) : Except PyError (List RewardInput) :=
  if data = [] then .error (.indexError "index 0 is out of bounds") else .ok (m.makeInputs {} data)

/-! ## Scores -/

/-- `step1_process`. -/
def step1Process (calls : Calls) (inputs : List RewardInput) : Except PyError (List (Option Score)) :=
  inputs.zipIdx.mapM fun (_, i) => calls.computeScore i

/-- `process_scoring`, which reads keys that only an output of `process_line` has. -/
def processScoring (calls : Calls) (data : Question) : Except PyError (ℚ × Value) :=
  if data.processed then calls.processScoring data.index else .error (.keyError "acc_score")

/-- The body of the second loop of `llm_process_reward_process_scoring`. -/
def processScore (calls : Calls) (data : Question) : Except PyError Score := do
  let scoring := (processScoring calls data).toOption
  let res ← match scoring with
    | some (rewardScore, _) =>
      (Score.setItem data.score "reward_score" (.num rewardScore)).map some
    | none => .ok data.score
  let res ← Score.setItem res "process_stuff" .item
  let res := res.set "process_scores" ((scoring.map Prod.snd).getD .none)
  return res.set "process_vlimits" (.nums [0, 3])

/-- The body of the first loop of `llm_process_reward_process_scoring`. -/
def plainScore (data : Question) : Except PyError Score := do
  let res ← Score.setItem data.score "process_stuff" .none
  return (res.set "process_scores" .none).set "process_vlimits" .none

/-- `llm_process_reward_process_scoring`: the first of the group says what is done. -/
def llmProcessRewardProcessScoring (calls : Calls) (groupInput : List Question) :
    Except PyError (List Score) :=
  match groupInput with
  | [] => .error (.indexError "list index out of range")
  | first :: _ =>
    if first.input.rewardMethod ∈ m.llmProcessMethodFlag then groupInput.mapM (processScore calls)
    else groupInput.mapM plainScore

/-- The groups of eight. -/
def groupInputs (inputs : List Question) : List (List Question) :=
  (List.range ((inputs.length + 7) / 8)).map fun i => (inputs.drop (8 * i)).take 8

/-! ## Samples with several answers -/

/-- An entry of `uid_dict_mllm`. -/
structure UidEntry where
  accScoreAll : List ℚ := []
  textAll : List Bool := []

/-- The `acc_score` of a sample, which must be 1 or -1. -/
def mllmAccScore (score : Score) : Except PyError ℚ :=
  match score.get? "acc_score" with
  | none => .error (.assertionError "check mllm acc_score")
  | some (.num x) =>
    if x = 1 ∨ x = -1 then .ok x
    else .error (.assertionError "i_acc_score can only =1 or =-1")
  | some (.bool true) => .ok 1
  | some _ => .error (.assertionError "i_acc_score can only =1 or =-1")

/-- The loop that collects the samples of each prompt. -/
def collectUids : Dict String UidEntry → List (DataItem × Score) → Except PyError (Dict String UidEntry)
  | uids, [] => .ok uids
  | uids, (item, score) :: rest =>
    if item.rewardMethod ∈ ["mllm_normal", "mllm_choice"] then do
      let accScore ← mllmAccScore score
      let entry := (uids.get? item.uid).getD {}
      collectUids (uids.set item.uid {
        accScoreAll := entry.accScoreAll ++ [accScore]
        textAll := entry.textAll ++ [m.textAnswer item] }) rest
    else collectUids uids rest

/-- The prompts whose samples are to be deleted, for all that were collected. -/
def deleteFlags (uids : Dict String UidEntry) : Except PyError (List (String × Bool)) :=
  uids.entries.mapM fun (uid, entry) => do
    pyAssert (entry.accScoreAll.length = m.nSamplesPerPrompt)
      "len(acc_score_all) == self.n_samples_per_prompt"
    return (uid, decide (entry.accScoreAll.sum ≤ 0) && entry.textAll.any id)

/-! ## Rows -/

/-- An entry of `reward_counters_results`. -/
structure ResultCounter where
  idx : Int := -1
  accScores : Value := .none
  llmGeneralJudgement : Value := .none

/-- `process_general_reward_results`: the first of a group brings the scores of all. -/
def processGeneralRewardResults (counter : ResultCounter) (score : Score) :
    Except PyError (ResultCounter × Score) := do
  let idx := counter.idx + 1
  let repIdx := (idx % m.nSamplesPerPrompt).toNat
  let (counter, score) ←
    if repIdx = 0 then do
      let accScores ← Score.getItem score "acc_score"
      let llmGeneralJudgement ← Score.getItem score "llm_general_judgement"
      let acc ← Value.at accScores repIdx
      pure (({ idx, accScores, llmGeneralJudgement } : ResultCounter), score.set "acc_score" acc)
    else do
      let acc ← Value.at counter.accScores repIdx
      pure ({ counter with idx },
        (score.set "acc_score" acc).set "llm_general_judgement" counter.llmGeneralJudgement)
  let rewardScore ← Score.getItem score "reward_score"
  let rewardScore ←
    if rewardScore ≠ .num (-1) then Value.at counter.accScores repIdx else pure rewardScore
  return (counter, score.set "reward_score" rewardScore)

/-- `score["reward_score"] = score["reward_score"] + score[key]`. -/
def addToReward (score : Score) (key : String) : Except PyError Score := do
  let rewardScore ← Score.getItem score "reward_score"
  let value ← Score.getItem score key
  match rewardScore.asNum, value.asNum with
  | some x, some y => return score.set "reward_score" (.num (x + y))
  | _, _ => .error (.typeError "unsupported operand type(s) for +")

/-- The same, if the value is below zero. -/
def addPenalty (score : Score) (key : String) : Except PyError Score := do
  let value ← Score.getItem score key
  match value.asNum with
  | some x => if x < 0 then addToReward score key else return score
  | none => .error (.typeError "'<' not supported")

/-- `needle in s`. -/
def contains (s needle : String) : Bool := decide (needle.toList <:+: s.toList)

/-- The sample was scored. -/
def isScored (score : Score) : Bool :=
  let error := (score.get? "error").getD .none
  !score.entries.isEmpty && !(error.truthy || decide (error = .text "")) &&
    decide ((score.get? "reward_score").getD .none ≠ .none)

/-- The reward of a sample that was scored. -/
def rewardScored (counters : String → ResultCounter) (item : DataItem) (overlongFilterFlag : Bool)
    (score : Score) : Except PyError ((String → ResultCounter) × Score) := do
  let method := item.rewardMethod
  let (counters, score) ←
    if method ∈ generalMethods then do
      let (counter, score) ← m.processGeneralRewardResults (counters method) score
      pure (Function.update counters method counter, score)
    else pure (counters, score)
  -- process rewards have no length penalty
  let score ←
    if method ∉ m.llmProcessMethodFlag then addToReward score "overlong_reward" else pure score
  let score := score.set "overlong_filter_flag" (.bool overlongFilterFlag)
  let score ←
    if !contains method "mllm" && !contains method "sft" && decide (method ∉ m.llmProcessMethodFlag) then
      addPenalty score "lang_consistency_ratio"
    else pure score
  let score ←
    if !contains method "general" && !contains method "sft" && decide (method ∉ m.llmProcessMethodFlag) then
      addPenalty score "format"
    else pure score
  return (counters, score)

/-- The reward of a sample that was not. -/
def rewardFailed (score : Score) : Score :=
  (((((score.set "reward_score" (.num (-3))).set "acc_score" (.num (-1))).set
    "overlong_reward" (.num (-1))).set "overlong" (.bool true)).set "overlong_filter_flag" .none).set
      "lang_consistency_ratio" (.num (-1))

/-- `all_keys`. -/
def allKeys (scores : List Score) : List String :=
  (scores.flatMap Dict.keys).dedup

/-- `for key in all_keys`: keys that are missing get `None`. -/
def fillKeys (keys : List String) (score : Score) : Score :=
  keys.foldl (fun score key => if key ∈ score.keys then score else score.set key .none) score

/-- Append a row to the lists of extra information. -/
def appendExtraInfo (info : Dict String (List Value)) (score : Score) : Dict String (List Value) :=
  score.entries.foldl (fun info (key, value) =>
    if contains key "process" then info
    else
      let key := if key = "acc_score" then "acc" else key
      info.set key ((info.get? key).getD [] ++ [value])) info

/-- The locals of the last loop. -/
structure Rows where
  counters : String → ResultCounter := fun _ => {}
  /-- The value written into each row of the reward tensor. -/
  rewardTensor : List ℚ := []
  rewardExtraInfo : Dict String (List Value) := .empty
  deleteSetMllm : List String := []

/-- The body of the last loop. -/
def addRow (keys : List String) (deleteFlags : List (String × Bool)) (rows : Rows) (item : DataItem)
    (overlongFilterFlag : Bool) (score : Score) : Except PyError Rows := do
  let (counters, score) ←
    if isScored score then m.rewardScored rows.counters item overlongFilterFlag score
    else pure (rows.counters, rewardFailed score)
  let delete := deleteFlags.lookup item.uid = some true
  let score := if delete then score.set "reward_score" (.num (-111)) else score
  let rewardScore ← Score.getItem score "reward_score"
  match rewardScore.asNum with
  | none => .error (.typeError "can't convert to a number")
  | some x => return {
      counters
      rewardTensor := rows.rewardTensor ++ [x]
      rewardExtraInfo := appendExtraInfo rows.rewardExtraInfo (fillKeys keys score)
      deleteSetMllm := if delete then rows.deleteSetMllm.insert item.uid else rows.deleteSetMllm }

/-- The last loop. -/
def makeRows (keys : List String) (deleteFlags : List (String × Bool)) :
    Rows → List (DataItem × Bool × Score) → Except PyError Rows
  | rows, [] => .ok rows
  | rows, (item, overlongFilterFlag, score) :: rest => do
    let rows ← m.addRow keys deleteFlags rows item overlongFilterFlag score
    makeRows keys deleteFlags rows rest

/-- The scores behind all calls. -/
def allScores (calls : Calls) (completion : Completion) (inputs : List RewardInput) :
    Except PyError (List Score) := do
  let scores ← step1Process calls inputs
  let results ← processInputsExternalmodel calls m.llmProcessMethodFlag completion inputs scores
  let scores ← (groupInputs results).mapM (m.llmProcessRewardProcessScoring calls)
  return scores.flatten

/-- `__call__`. -/
def call (calls : Calls) (completion : Completion) (data : List DataItem) : Except PyError Rows := do
  let inputs ← m.rewardInputs data
  let scores ← m.allScores calls completion inputs
  let uids ← m.collectUids .empty (data.zip scores)
  let deleteFlags ← m.deleteFlags uids
  m.makeRows (allKeys scores) deleteFlags {}
    (data.zip ((inputs.map RewardInput.overlongFilterFlag).zip scores))

end RewardManager

end Yuan.Reward
