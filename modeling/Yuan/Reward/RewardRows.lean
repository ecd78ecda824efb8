import Yuan.Reward.ExtraInfo
import Yuan.Reward.Outcomes

/-!
# The row of a sample

A sample that was scored gets its reward from its score; one of a judged method takes its value out of the
scores that the counter of its method holds. The rest of the row does not depend on the counters.
-/

namespace Yuan.Reward.RewardManager

variable {m : RewardManager} {item : DataItem} {s f s' : Score} {counters : String → ResultCounter}
  {overlongFilterFlag : Bool} {judgement : Value} {method key : String} {v acc r : Value}

/-- The score of a sample that was scored, behind all calls. -/
structure Ready (method : String) (f : Score) : Prop where
  noError : f.get? "error" = none
  noAcc : f.get? "acc" = none
  rewardScore : (∃ x, f.get? "reward_score" = some (.num x)) ∨ f.get? "reward_score" = some .none
  accScore : (f.get? "acc_score").isSome
  format : ∃ x, f.get? "format" = some (.num x)
  langConsistencyRatio : ∃ x, f.get? "lang_consistency_ratio" = some (.num x)
  overlongReward : ∃ x, f.get? "overlong_reward" = some (.num x)
  overlong : (f.get? "overlong").isSome
  judged : method ∈ generalMethods →
    (∃ x, f.get? "reward_score" = some (.num x)) ∧ (f.get? "llm_general_judgement").isSome

theorem FinalScore.ready {calls : Calls} {data : List DataItem} {p : Nat} (h : m.FinalScore calls data p item s f)
    (hs : Scored item.rewardMethod s) : Ready item.rewardMethod f := by
  refine ⟨?_, ?_, ?_, h.accScore hs.accScore, ?_, ?_, ?_, ?_, fun hjudged => ⟨?_, (h.judged hjudged).1⟩⟩
  · rw [h.same _ (by decide)]
    exact hs.noError
  · rw [h.same _ (by decide)]
    exact hs.noAcc
  · rcases h.rewardScore with heq | hnum
    · rw [heq]
      exact hs.rewardScore.imp id And.right
    · exact .inl hnum
  · rw [h.same _ (by decide)]
    exact hs.format
  · rw [h.same _ (by decide)]
    exact hs.langConsistencyRatio
  · rw [h.same _ (by decide)]
    exact hs.overlongReward
  · rw [h.same _ (by decide)]
    exact hs.overlong
  · have hmodel : item.rewardMethod ∉ modelScored := by
      rcases List.mem_pair.mp hjudged with heq | heq
      · rw [heq]
        decide
      · rw [heq]
        decide
    rcases h.rewardScore with heq | hnum
    · rw [heq]
      exact hs.rewardScore.resolve_right fun h => hmodel h.1
    · exact hnum

theorem isScored_eq_false_of_failed {text : String} (h : f.get? "error" = some (.text text)) : isScored f = false := by
  unfold isScored
  rw [h]
  dsimp only [Value.truthy]
  by_cases htext : text = ""
  · rw [htext]
    simp
  · simp [htext]

theorem Ready.isScored_iff (h : Ready method f) : isScored f = true ↔ ∃ x, f.get? "reward_score" = some (.num x) := by
  have hne : f.entries.isEmpty = false := by
    obtain ⟨x, hx⟩ := h.format
    rw [List.isEmpty_eq_false_iff]
    exact List.ne_nil_of_mem (Dict.get?_eq_some.mp hx)
  unfold isScored
  rw [h.noError, hne]
  rcases h.rewardScore with ⟨x, hx⟩ | hnone
  · rw [hx]
    exact iff_of_true rfl ⟨x, rfl⟩
  · rw [hnone]
    exact iff_of_false (by decide) (by rintro ⟨x, hx⟩; cases hx)

/-! ## Rewards -/

/-- The numbers that make up a reward. -/
structure Counts (s : Score) : Prop where
  rewardScore : ∃ x, s.get? "reward_score" = some (.num x)
  format : ∃ x, s.get? "format" = some (.num x)
  langConsistencyRatio : ∃ x, s.get? "lang_consistency_ratio" = some (.num x)
  overlongReward : ∃ x, s.get? "overlong_reward" = some (.num x)

/-- Only the reward and the overlong flag change. -/
structure Adjusted (s s' : Score) : Prop where
  same : ∀ key, key ≠ "reward_score" → key ≠ "overlong_filter_flag" → s'.get? key = s.get? key
  flag : (s.get? "overlong_filter_flag").isSome → (s'.get? "overlong_filter_flag").isSome
  counts : Counts s'

theorem Counts.set (h : Counts s)
    (hkey : key ∉ ["reward_score", "format", "lang_consistency_ratio", "overlong_reward"]) : Counts (s.set key v) := by
  have hother : ∀ k ∈ ["reward_score", "format", "lang_consistency_ratio", "overlong_reward"],
      (s.set key v).get? k = s.get? k := fun k hk => Dict.get?_set_of_ne _ _ fun heq => hkey (heq ▸ hk)
  refine ⟨?_, ?_, ?_, ?_⟩
  · rw [hother _ (by decide)]
    exact h.rewardScore
  · rw [hother _ (by decide)]
    exact h.format
  · rw [hother _ (by decide)]
    exact h.langConsistencyRatio
  · rw [hother _ (by decide)]
    exact h.overlongReward

theorem Counts.setReward (h : Counts s) (x : ℚ) : Counts (s.set "reward_score" (.num x)) := by
  refine ⟨⟨x, Dict.get?_set_self _ _ _⟩, ?_, ?_, ?_⟩
  · rw [Dict.get?_set_of_ne _ _ (by decide)]
    exact h.format
  · rw [Dict.get?_set_of_ne _ _ (by decide)]
    exact h.langConsistencyRatio
  · rw [Dict.get?_set_of_ne _ _ (by decide)]
    exact h.overlongReward

theorem Adjusted.refl (h : Counts s) : Adjusted s s := ⟨fun _ _ _ => rfl, id, h⟩

theorem Adjusted.setReward (h : Adjusted s s') (x : ℚ) : Adjusted s (s'.set "reward_score" (.num x)) := by
  refine ⟨fun key hreward hflag => ?_, fun hsome => ?_, h.counts.setReward x⟩
  · rw [Dict.get?_set_of_ne _ _ hreward, h.same key hreward hflag]
  · rw [Dict.get?_set_of_ne _ _ (by decide)]
    exact h.flag hsome

theorem Adjusted.setFlag (h : Adjusted s s') (b : Bool) : Adjusted s (s'.set "overlong_filter_flag" (.bool b)) := by
  refine ⟨fun key hreward hflag => ?_, fun _ => ?_, h.counts.set (by decide)⟩
  · rw [Dict.get?_set_of_ne _ _ hflag, h.same key hreward hflag]
  · rw [Dict.get?_set_self]
    rfl

theorem addToReward_ok (h : Adjusted s s') (hkey : ∃ y, s'.get? key = some (.num y)) :
    ∃ s'', addToReward s' key = .ok s'' ∧ Adjusted s s'' ∧
      s''.get? "overlong_filter_flag" = s'.get? "overlong_filter_flag" := by
  obtain ⟨x, hx⟩ := h.counts.rewardScore
  obtain ⟨y, hy⟩ := hkey
  refine ⟨s'.set "reward_score" (.num (x + y)), ?_, h.setReward _, Dict.get?_set_of_ne _ _ (by decide)⟩
  unfold addToReward Score.getItem
  rw [hx, hy]
  rfl

theorem addPenalty_ok (h : Adjusted s s') (hkey : ∃ y, s'.get? key = some (.num y)) :
    ∃ s'', addPenalty s' key = .ok s'' ∧ Adjusted s s'' ∧
      s''.get? "overlong_filter_flag" = s'.get? "overlong_filter_flag" := by
  obtain ⟨y, hy⟩ := hkey
  unfold addPenalty Score.getItem
  rw [hy]
  show ∃ s'', (if y < 0 then addToReward s' key else .ok s') = .ok s'' ∧ _
  split
  · exact addToReward_ok h ⟨y, hy⟩
  · exact ⟨s', rfl, h, rfl⟩

/-- The reward with the length penalty. -/
def lengthAdjusted (m : RewardManager) (item : DataItem) (score : Score) : Except PyError Score :=
  if item.rewardMethod ∉ m.llmProcessMethodFlag then addToReward score "overlong_reward" else pure score

/-- The reward with the penalty for a mix of languages. -/
def languageAdjusted (m : RewardManager) (item : DataItem) (score : Score) : Except PyError Score :=
  if !contains item.rewardMethod "mllm" && !contains item.rewardMethod "sft" &&
      decide (item.rewardMethod ∉ m.llmProcessMethodFlag) then
    addPenalty score "lang_consistency_ratio"
  else pure score

/-- The reward with the format penalty. -/
def formatAdjusted (m : RewardManager) (item : DataItem) (score : Score) : Except PyError Score :=
  if !contains item.rewardMethod "general" && !contains item.rewardMethod "sft" &&
      decide (item.rewardMethod ∉ m.llmProcessMethodFlag) then
    addPenalty score "format"
  else pure score

/-- The part of the reward that follows the judge's. -/
def adjust (m : RewardManager) (item : DataItem) (overlongFilterFlag : Bool) (score : Score) : Except PyError Score :=
  m.lengthAdjusted item score >>= fun score =>
    m.languageAdjusted item (score.set "overlong_filter_flag" (.bool overlongFilterFlag)) >>= m.formatAdjusted item

theorem adjust_ok (item : DataItem) (overlongFilterFlag : Bool) (h : Counts s) :
    ∃ s', m.adjust item overlongFilterFlag s = .ok s' ∧ Adjusted s s' ∧ (s'.get? "overlong_filter_flag").isSome := by
  unfold adjust
  obtain ⟨s1, hs1, hadjusted1⟩ : ∃ s1, m.lengthAdjusted item s = .ok s1 ∧ Adjusted s s1 := by
    unfold lengthAdjusted
    split
    · obtain ⟨s1, hs1, hadjusted1, -⟩ := addToReward_ok (Adjusted.refl h) h.overlongReward
      exact ⟨s1, hs1, hadjusted1⟩
    · exact ⟨s, rfl, Adjusted.refl h⟩
  rw [hs1, ok_bind]
  have hadjusted2 := hadjusted1.setFlag overlongFilterFlag
  have hflag2 : ((s1.set "overlong_filter_flag" (.bool overlongFilterFlag)).get? "overlong_filter_flag").isSome := by
    rw [Dict.get?_set_self]
    rfl
  generalize s1.set "overlong_filter_flag" (.bool overlongFilterFlag) = s2 at hadjusted2 hflag2 ⊢
  obtain ⟨s3, hs3, hadjusted3, hflag3⟩ : ∃ s3, m.languageAdjusted item s2 = .ok s3 ∧ Adjusted s s3 ∧
      (s3.get? "overlong_filter_flag").isSome := by
    unfold languageAdjusted
    split
    · obtain ⟨s3, hs3, hadjusted3, hflag3⟩ := addPenalty_ok hadjusted2 hadjusted2.counts.langConsistencyRatio
      exact ⟨s3, hs3, hadjusted3, by rw [hflag3]; exact hflag2⟩
    · exact ⟨s2, rfl, hadjusted2, hflag2⟩
  rw [hs3]
  unfold formatAdjusted
  split
  · obtain ⟨s4, hs4, hadjusted4, hflag4⟩ := addPenalty_ok hadjusted3 hadjusted3.counts.format
    exact ⟨s4, hs4, hadjusted4, by rw [hflag4]; exact hflag3⟩
  · exact ⟨s3, rfl, hadjusted3, hflag3⟩

theorem rewardScored_judged {score : Score} (h : item.rewardMethod ∈ generalMethods) :
    m.rewardScored counters item overlongFilterFlag score =
      m.processGeneralRewardResults (counters item.rewardMethod) score >>= fun r =>
        m.adjust item overlongFilterFlag r.2 >>= fun s =>
          .ok (Function.update counters item.rewardMethod r.1, s) := by
  unfold rewardScored adjust lengthAdjusted languageAdjusted formatAdjusted
  rw [if_pos h]
  refine congrArg (Except.bind _) (funext fun ⟨counter, score⟩ => ?_)
  simp only [pure_bind]
  split <;> split <;> split <;> simp only [bind_assoc] <;> rfl

theorem rewardScored_other {score : Score} (h : item.rewardMethod ∉ generalMethods) :
    m.rewardScored counters item overlongFilterFlag score =
      m.adjust item overlongFilterFlag score >>= fun s => .ok (counters, s) := by
  unfold rewardScored adjust lengthAdjusted languageAdjusted formatAdjusted
  rw [if_neg h]
  split <;> split <;> split <;> simp only [bind_assoc] <;> rfl

/-! ## The judge's value -/

/-- The place of the next sample in its group. -/
def repIdx (m : RewardManager) (counter : ResultCounter) : Nat := ((counter.idx + 1) % m.nSamplesPerPrompt).toNat

/-- The counter with the next sample: the first of a group brings the scores. -/
def held (m : RewardManager) (counter : ResultCounter) (acc judgement : Value) : ResultCounter where
  idx := counter.idx + 1
  accScores := if m.repIdx counter = 0 then acc else counter.accScores
  llmGeneralJudgement := if m.repIdx counter = 0 then judgement else counter.llmGeneralJudgement

/-- The score of a sample with its value. -/
def judgedScore (f : Score) (repIdx : Nat) (judgement v r : Value) : Score :=
  (if repIdx = 0 then f.set "acc_score" v
    else (f.set "acc_score" v).set "llm_general_judgement" judgement).set "reward_score"
      (if r ≠ .num (-1) then v else r)

theorem processGeneralRewardResults_eq {counter : ResultCounter} (hacc : f.get? "acc_score" = some acc)
    (hjudgement : f.get? "llm_general_judgement" = some judgement) (hr : f.get? "reward_score" = some r) :
    m.processGeneralRewardResults counter f =
      Value.at (m.held counter acc judgement).accScores (m.repIdx counter) >>= fun v =>
        .ok (m.held counter acc judgement,
          judgedScore f (m.repIdx counter) (m.held counter acc judgement).llmGeneralJudgement v r) := by
  have hreward : ∀ v w : Value, Score.getItem (f.set "acc_score" v) "reward_score" = .ok r ∧
      Score.getItem ((f.set "acc_score" v).set "llm_general_judgement" w) "reward_score" = .ok r := by
    intro v w
    unfold Score.getItem
    rw [Dict.get?_set_of_ne _ _ (by decide), Dict.get?_set_of_ne _ _ (by decide),
      Dict.get?_set_of_ne _ _ (by decide), hr]
    exact ⟨rfl, rfl⟩
  have hgetAcc : Score.getItem f "acc_score" = .ok acc := by
    unfold Score.getItem
    rw [hacc]
  have hgetJudgement : Score.getItem f "llm_general_judgement" = .ok judgement := by
    unfold Score.getItem
    rw [hjudgement]
  unfold processGeneralRewardResults held judgedScore
  dsimp only
  rw [show ((counter.idx + 1) % m.nSamplesPerPrompt).toNat = m.repIdx counter from rfl]
  by_cases hrep : m.repIdx counter = 0
  · simp only [hrep, if_true, hgetAcc, hgetJudgement, ok_bind]
    cases hat : Value.at acc 0 with
    | error e => rfl
    | ok v =>
      simp only [ok_bind, pure_bind, (hreward v .none).1, hat]
      split <;> rfl
  · simp only [hrep, if_false]
    cases hat : Value.at counter.accScores (m.repIdx counter) with
    | error e => rfl
    | ok v =>
      simp only [ok_bind, pure_bind, (hreward v counter.llmGeneralJudgement).2, hat]
      split <;> rfl

theorem get?_judgedScore {repIdx : Nat} (hkey : key ∉ ["acc_score", "llm_general_judgement", "reward_score"]) :
    (judgedScore f repIdx judgement v r).get? key = f.get? key := by
  unfold judgedScore
  rw [Dict.get?_set_of_not_mem hkey _ (by decide)]
  split
  · exact Dict.get?_set_of_not_mem hkey _ (by decide)
  · rw [Dict.get?_set_of_not_mem hkey _ (by decide), Dict.get?_set_of_not_mem hkey _ (by decide)]

theorem judgedScore_acc (f : Score) (repIdx : Nat) (judgement v r : Value) :
    (judgedScore f repIdx judgement v r).get? "acc_score" = some v := by
  unfold judgedScore
  rw [Dict.get?_set_of_ne _ _ (by decide)]
  split
  · exact Dict.get?_set_self _ _ _
  · rw [Dict.get?_set_of_ne _ _ (by decide), Dict.get?_set_self]

theorem isSome_judgedScore {repIdx : Nat} (hacc : (f.get? "acc_score").isSome)
    (hjudgement : (f.get? "llm_general_judgement").isSome) (hr : (f.get? "reward_score").isSome) (key : String) :
    ((judgedScore f repIdx judgement v r).get? key).isSome ↔ (f.get? key).isSome := by
  by_cases hkey : key ∈ ["acc_score", "llm_general_judgement", "reward_score"]
  · simp only [List.mem_cons, List.not_mem_nil, or_false] at hkey
    rcases hkey with rfl | rfl | rfl
    · rw [judgedScore_acc]
      exact iff_of_true rfl hacc
    · refine iff_of_true ?_ hjudgement
      unfold judgedScore
      rw [Dict.get?_set_of_ne _ _ (by decide)]
      split
      · rw [Dict.get?_set_of_ne _ _ (by decide)]
        exact hjudgement
      · rw [Dict.get?_set_self]
        rfl
    · refine iff_of_true ?_ hr
      unfold judgedScore
      rw [Dict.get?_set_self]
      rfl
  · rw [get?_judgedScore hkey]

theorem counts_judgedScore (h : Ready method f) (repIdx : Nat) (judgement : Value) (x y : ℚ) :
    Counts (judgedScore f repIdx judgement (.num x) (.num y)) := by
  refine ⟨?_, ?_, ?_, ?_⟩
  · unfold judgedScore
    rw [Dict.get?_set_self]
    split
    · exact ⟨x, rfl⟩
    · exact ⟨y, rfl⟩
  · rw [get?_judgedScore (by decide)]
    exact h.format
  · rw [get?_judgedScore (by decide)]
    exact h.langConsistencyRatio
  · rw [get?_judgedScore (by decide)]
    exact h.overlongReward

/-! ## Rows -/

/-- The score of the row, before the deletions. -/
def rowScore (m : RewardManager) (counters : String → ResultCounter) (item : DataItem) (overlongFilterFlag : Bool)
    (score : Score) : Except PyError ((String → ResultCounter) × Score) :=
  if isScored score then m.rewardScored counters item overlongFilterFlag score
  else pure (counters, rewardFailed score)

/-- The reward of a sample that is to be deleted. -/
def deleted (delete : Prop) [Decidable delete] (score : Score) : Score :=
  if delete then score.set "reward_score" (.num (-111)) else score

theorem addRow_eq (keys : List String) (deleteFlags : List (String × Bool)) (rows : Rows) (item : DataItem)
    (overlongFilterFlag : Bool) (score : Score) :
    m.addRow keys deleteFlags rows item overlongFilterFlag score =
      m.rowScore rows.counters item overlongFilterFlag score >>= fun r =>
        Score.getItem (deleted (deleteFlags.lookup item.uid = some true) r.2) "reward_score" >>= fun rewardScore =>
          match rewardScore.asNum with
          | none => .error (.typeError "can't convert to a number")
          | some x => .ok {
              counters := r.1
              rewardTensor := rows.rewardTensor ++ [x]
              rewardExtraInfo := appendExtraInfo rows.rewardExtraInfo
                (fillKeys keys (deleted (deleteFlags.lookup item.uid = some true) r.2))
              deleteSetMllm := if deleteFlags.lookup item.uid = some true then rows.deleteSetMllm.insert item.uid
                else rows.deleteSetMllm } := by
  unfold addRow rowScore
  split <;> rfl

/-- The keys of a failed row. -/
def failedKeys : List String :=
  ["reward_score", "acc_score", "overlong_reward", "overlong", "overlong_filter_flag", "lang_consistency_ratio"]

theorem isSome_rewardFailed (f : Score) (key : String) :
    ((rewardFailed f).get? key).isSome ↔ (f.get? key).isSome ∨ key ∈ failedKeys := by
  unfold rewardFailed failedKeys
  simp only [Dict.get?_set]
  by_cases h1 : key = "lang_consistency_ratio"
  · simp [h1]
  · by_cases h2 : key = "overlong_filter_flag"
    · simp [h2]
    · by_cases h3 : key = "overlong"
      · simp [h3]
      · by_cases h4 : key = "overlong_reward"
        · simp [h4]
        · by_cases h5 : key = "acc_score"
          · simp [h5]
          · by_cases h6 : key = "reward_score"
            · simp [h6]
            · simp [h1, h2, h3, h4, h5, h6]

theorem isSome_deleted (delete : Prop) [Decidable delete] (h : ∃ x, s.get? "reward_score" = some (.num x)) :
    (∃ x, (deleted delete s).get? "reward_score" = some (.num x)) ∧
      (deleted delete s).get? "acc_score" = s.get? "acc_score" ∧
      ∀ key, ((deleted delete s).get? key).isSome ↔ (s.get? key).isSome := by
  unfold deleted
  split
  · refine ⟨⟨-111, Dict.get?_set_self _ _ _⟩, Dict.get?_set_of_ne _ _ (by decide), fun key => ?_⟩
    by_cases hkey : key = "reward_score"
    · obtain ⟨x, hx⟩ := h
      rw [hkey, Dict.get?_set_self, hx]
      rfl
    · rw [Dict.get?_set_of_ne _ _ hkey]
  · exact ⟨h, rfl, fun _ => Iff.rfl⟩

/-- What is added to the keys of a score. -/
def addedKeys (f : Score) : List String := if isScored f then ["overlong_filter_flag"] else failedKeys

/-- A row has its reward, and the keys of its score. -/
structure RowFor (f r : Score) : Prop where
  rewardScore : ∃ x, r.get? "reward_score" = some (.num x)
  keys : ∀ key, (r.get? key).isSome ↔ (f.get? key).isSome ∨ key ∈ addedKeys f

theorem Adjusted.rowFor (h : Adjusted s s') (hs : Counts s) (hscored : isScored f = true)
    (hflag : (s'.get? "overlong_filter_flag").isSome) (hkeys : ∀ key, (s.get? key).isSome ↔ (f.get? key).isSome) :
    RowFor f s' := by
  refine ⟨h.counts.rewardScore, fun key => ?_⟩
  unfold addedKeys
  rw [hscored, if_pos rfl, List.mem_singleton, ← hkeys key]
  by_cases hkey : key = "overlong_filter_flag"
  · rw [hkey]
    exact iff_of_true hflag (.inr rfl)
  · by_cases hreward : key = "reward_score"
    · obtain ⟨x, hx⟩ := hs.rewardScore
      obtain ⟨x', hx'⟩ := h.counts.rewardScore
      rw [hreward, hx, hx']
      exact iff_of_true rfl (.inl rfl)
    · rw [h.same key hreward hkey]
      exact (or_iff_left hkey).symm

/-- The row of a sample that was not scored. -/
theorem rowScore_failed (h : isScored f = false) :
    RowFor f (rewardFailed f) ∧ ∀ counters item overlongFilterFlag,
      m.rowScore counters item overlongFilterFlag f = .ok (counters, rewardFailed f) := by
  refine ⟨⟨?_, fun key => ?_⟩, fun counters item overlongFilterFlag => ?_⟩
  · unfold rewardFailed
    rw [Dict.get?_set_of_ne _ _ (by decide), Dict.get?_set_of_ne _ _ (by decide), Dict.get?_set_of_ne _ _ (by decide),
      Dict.get?_set_of_ne _ _ (by decide), Dict.get?_set_of_ne _ _ (by decide), Dict.get?_set_self]
    exact ⟨-3, rfl⟩
  · unfold addedKeys
    rw [h]
    exact isSome_rewardFailed f key
  · unfold rowScore
    rw [h]
    rfl

theorem Ready.counts (h : Ready method f) (hscored : isScored f = true) : Counts f :=
  ⟨h.isScored_iff.mp hscored, h.format, h.langConsistencyRatio, h.overlongReward⟩

/-- The row of a sample that no judge scores. -/
theorem rowScore_other (h : Ready item.rewardMethod f) (hscored : isScored f = true)
    (hjudged : item.rewardMethod ∉ generalMethods) (overlongFilterFlag : Bool) :
    ∃ r, RowFor f r ∧ ∀ counters, m.rowScore counters item overlongFilterFlag f = .ok (counters, r) := by
  obtain ⟨r, hr, hadjusted, hflag⟩ := m.adjust_ok item overlongFilterFlag (h.counts hscored)
  refine ⟨r, hadjusted.rowFor (h.counts hscored) hscored hflag fun _ => Iff.rfl, fun counters => ?_⟩
  unfold rowScore
  rw [hscored, if_pos rfl, rewardScored_other hjudged, hr]
  rfl

/-- The row of a sample with its judge's value depends on the counters only through the value, the judgement and
the place in the group. -/
theorem rowScore_judged (h : Ready item.rewardMethod f) (hscored : isScored f = true)
    (hjudged : item.rewardMethod ∈ generalMethods) (hacc : f.get? "acc_score" = some acc)
    (hjudgement : f.get? "llm_general_judgement" = some judgement) (overlongFilterFlag : Bool) (place : Nat)
    (heldJudgement : Value) (x : ℚ) :
    ∃ r, RowFor f r ∧ r.get? "acc_score" = some (.num x) ∧ ∀ counters : String → ResultCounter,
      m.repIdx (counters item.rewardMethod) = place →
      (m.held (counters item.rewardMethod) acc judgement).llmGeneralJudgement = heldJudgement →
      Value.at (m.held (counters item.rewardMethod) acc judgement).accScores place = .ok (.num x) →
      m.rowScore counters item overlongFilterFlag f = .ok
        (Function.update counters item.rewardMethod (m.held (counters item.rewardMethod) acc judgement), r) := by
  obtain ⟨y, hy⟩ := (h.judged hjudged).1
  have hcounts := counts_judgedScore h place heldJudgement x y
  obtain ⟨r, hr, hadjusted, hflag⟩ := m.adjust_ok item overlongFilterFlag hcounts
  refine ⟨r, hadjusted.rowFor hcounts hscored hflag fun key => ?_, ?_, ?_⟩
  · exact isSome_judgedScore h.accScore (h.judged hjudged).2 (by rw [hy]; rfl) key
  · rw [hadjusted.same _ (by decide) (by decide), judgedScore_acc]
  · intro counters hplace hheld hat
    unfold rowScore
    rw [hscored, if_pos rfl, rewardScored_judged hjudged, processGeneralRewardResults_eq hacc hjudgement hy, hplace,
      hat, ok_bind, ok_bind, hheld, hr]
    rfl

/-- A row that was made took its value out of the counter. -/
theorem rowScore_judged_ok (h : Ready item.rewardMethod f) (hscored : isScored f = true)
    (hjudged : item.rewardMethod ∈ generalMethods) (hacc : f.get? "acc_score" = some acc)
    (hjudgement : f.get? "llm_general_judgement" = some judgement) {r : (String → ResultCounter) × Score}
    (hr : m.rowScore counters item overlongFilterFlag f = .ok r) :
    ∃ v, Value.at (m.held (counters item.rewardMethod) acc judgement).accScores
      (m.repIdx (counters item.rewardMethod)) = .ok v := by
  obtain ⟨y, hy⟩ := (h.judged hjudged).1
  unfold rowScore at hr
  rw [hscored, if_pos rfl, rewardScored_judged hjudged, processGeneralRewardResults_eq hacc hjudgement hy] at hr
  obtain ⟨p, hp, -⟩ := bind_eq_ok.mp hr
  obtain ⟨v, hv, -⟩ := bind_eq_ok.mp hp
  exact ⟨v, hv⟩

end Yuan.Reward.RewardManager
