import Yuan.Reward.ExternalResults
import Yuan.Reward.RewardInputs

/-!
# The score of a sample behind all calls

What a scorer returns for a sample is kept by the models and the process scoring, up to the keys that they
write. No sample is left without a score.
-/

namespace Yuan.Reward

/-- What the scorer of a sample comes to: it raises, or returns `None`, an error, or scores. -/
inductive Outcome where
  | raises
  | none
  | error
  | scored
  deriving DecidableEq

/-- A pattern of success and failure: `returns` says that the model that is asked about a sample returns. -/
structure Pattern where
  computeScore : Nat → Outcome
  returns : Nat → Bool

/-- The methods whose scorer leaves the score to a model. -/
def modelScored : List String := ["rag_frames", "rag_alpaca", "rag_simpleqa", "rag_summary"]

/-- The scores of a sample, as the scorers return them. -/
structure Scored (method : String) (score : Score) : Prop where
  noError : score.get? "error" = none
  noAcc : score.get? "acc" = none
  rewardScore : (∃ x, score.get? "reward_score" = some (.num x)) ∨
    method ∈ modelScored ∧ score.get? "reward_score" = some .none
  accScore : (score.get? "acc_score").isSome
  answered : method ∈ ["mllm_normal", "mllm_choice"] →
    score.get? "acc_score" = some (.num 1) ∨ score.get? "acc_score" = some (.num (-1))
  format : ∃ x, score.get? "format" = some (.num x)
  langConsistencyRatio : ∃ x, score.get? "lang_consistency_ratio" = some (.num x)
  overlongReward : ∃ x, score.get? "overlong_reward" = some (.num x)
  overlong : (score.get? "overlong").isSome

/-- The scores of a sample that could not be scored: a text, and no score. -/
structure Failed (score : Score) : Prop where
  error : ∃ text, score.get? "error" = some (.text text)
  noAcc : score.get? "acc" = none
  noScore : score.get? "acc_score" = none

/-- What a scorer returns. -/
def Comes (method : String) : Outcome → Except PyError (Option Score) → Prop
  | .raises, r => ∃ e, r = .error e
  | .none, r => r = .ok none
  | .error, r => ∃ score, r = .ok (some score) ∧ Failed score
  | .scored, r => ∃ score, r = .ok (some score) ∧ Scored method score

/-- A call returns something of this kind, or raises. -/
def Returns {α : Type} (returns : Bool) (r : Except PyError α) (P : α → Prop) : Prop :=
  if returns then ∃ a, r = .ok a ∧ P a else ∃ e, r = .error e

namespace RewardManager

variable (m : RewardManager)

/-- Calls with the pattern. The judge has a score for each response of its list. -/
structure Follows (data : List DataItem) (pattern : Pattern) (calls : Calls) : Prop where
  computeScore : ∀ p item, data[p]? = some item →
    Comes item.rewardMethod (pattern.computeScore p) (calls.computeScore p)
  generalReward : ∀ p, Returns (pattern.returns p) (calls.generalReward p) fun r =>
    ∃ xs, r.1 = .nums xs ∧ xs.length = min m.nSamplesPerPrompt (data.length - p)
  scoreModel : ∀ p, Returns (pattern.returns p) (calls.scoreModel p) fun v => ∃ x, v = .num x
  processLine : ∀ p, Returns (pattern.returns p) (calls.processLine p) fun _ => True

/-- The sample is the first of a group of its method. -/
def leads (data : List DataItem) (p : Nat) (item : DataItem) : Prop :=
  methodCount data item.rewardMethod p % m.nSamplesPerPrompt = 0

instance (data : List DataItem) (p : Nat) (item : DataItem) : Decidable (m.leads data p item) :=
  inferInstanceAs (Decidable (_ = _))

/-- A model is asked about the sample. -/
def isAsked (data : List DataItem) (p : Nat) (item : DataItem) : Prop :=
  if item.rewardMethod ∈ generalMethods then m.leads data p item
  else item.rewardMethod ∈ modelScored ∨ item.rewardMethod ∈ m.llmProcessMethodFlag

/-- The keys that the models and the process scoring write. -/
def writtenKeys : List String :=
  ["acc_score", "llm_general_judgement", "reward_score", "process_stuff", "process_scores", "process_vlimits"]

/-- What becomes of the score `s` of a sample. -/
structure FinalScore (calls : Calls) (data : List DataItem) (p : Nat) (item : DataItem) (s f : Score) : Prop where
  same : ∀ key, key ∉ writtenKeys → f.get? key = s.get? key
  accScore : (s.get? "acc_score").isSome → (f.get? "acc_score").isSome
  unjudged : item.rewardMethod ∉ generalMethods → item.rewardMethod ∉ modelScored →
    f.get? "acc_score" = s.get? "acc_score"
  rewardScore : f.get? "reward_score" = s.get? "reward_score" ∨ ∃ x, f.get? "reward_score" = some (.num x)
  judged : item.rewardMethod ∈ generalMethods → (f.get? "llm_general_judgement").isSome ∧
    (m.leads data p item → ∃ acc judgement, calls.generalReward p = .ok (acc, judgement) ∧
      f.get? "acc_score" = some acc ∧ f.get? "llm_general_judgement" = some judgement) ∧
    (¬ m.leads data p item → ∃ xs, f.get? "acc_score" = some (.nums xs) ∧ ∀ x ∈ xs, x = -42)

variable {m : RewardManager} {calls : Calls} {data : List DataItem} {pattern : Pattern} {p : Nat} {item : DataItem}
  {s : Score} {q r : Question} {inputs : List RewardInput}

/-! ## The models -/

/-- A model writes into the score of a sample. -/
theorem FinalScore.trans {s' f : Score} (h : m.FinalScore calls data p item s s')
    (hsame : ∀ key, key ∉ ["reward_score", "process_stuff", "process_scores", "process_vlimits"] →
      f.get? key = s'.get? key)
    (hreward : f.get? "reward_score" = s'.get? "reward_score" ∨ ∃ x, f.get? "reward_score" = some (.num x)) :
    m.FinalScore calls data p item s f := by
  have hacc : f.get? "acc_score" = s'.get? "acc_score" := hsame _ (by decide)
  have hjudgement : f.get? "llm_general_judgement" = s'.get? "llm_general_judgement" := hsame _ (by decide)
  refine ⟨fun key hkey => ?_, ?_, ?_, ?_, ?_⟩
  · rw [hsame key fun hmem => hkey (List.mem_cons_of_mem _ (List.mem_cons_of_mem _ hmem)), h.same key hkey]
  · rw [hacc]
    exact h.accScore
  · rw [hacc]
    exact h.unjudged
  · rcases hreward with heq | hnum
    · rw [heq]
      exact h.rewardScore
    · exact .inr hnum
  · rw [hacc, hjudgement]
    exact h.judged

/-- The question of a sample. -/
structure QuestionFor (m : RewardManager) (data : List DataItem) (p : Nat) (item : DataItem) (s : Option Score)
    (q : Question) : Prop where
  index : q.index = p
  input : m.InputFor data p item q.input
  score : q.score = s
  processed : q.processed = false

/-- The result of a sample. -/
structure ResultFor (m : RewardManager) (calls : Calls) (data : List DataItem) (p : Nat) (item : DataItem)
    (s : Score) (r : Question) : Prop where
  index : r.index = p
  method : r.input.rewardMethod = item.rewardMethod
  score : ∃ s', r.score = some s' ∧ m.FinalScore calls data p item s s'

theorem generalRewardModelAcc_eq (calls : Calls) {s : Option Score} (hq : QuestionFor m data p item s q)
    (hjudged : item.rewardMethod ∈ generalMethods) :
    (m.leads data p item → generalRewardModelAcc calls q = calls.generalReward p) ∧
      (¬ m.leads data p item → ∃ xs, generalRewardModelAcc calls q = .ok (.nums xs, .none) ∧ ∀ x ∈ xs, x = -42) := by
  obtain ⟨hresponses, hflag⟩ := hq.input.judged hjudged
  unfold generalRewardModelAcc
  rw [hflag, hq.index]
  constructor
  · intro hlead
    rw [decide_eq_true (show _ % _ = 0 from hlead)]
    exact if_neg (by decide)
  · intro hlead
    rw [decide_eq_false (show ¬ _ % _ = 0 from hlead)]
    obtain ⟨responses, hresponses⟩ := Option.isSome_iff_exists.mp hresponses
    rw [hresponses]
    refine ⟨_, rfl, fun x hx => ?_⟩
    obtain ⟨response, -, rfl⟩ := List.mem_map.mp hx
    rfl

/-- No model has written into the score. -/
theorem FinalScore.refl (s : Score) (h : item.rewardMethod ∉ generalMethods) : m.FinalScore calls data p item s s :=
  ⟨fun _ _ => rfl, id, fun _ _ => rfl, .inl rfl, fun hmem => absurd hmem h⟩

/-- The judge's scores. -/
theorem FinalScore.judge (s : Score) {acc judgement : Value} (hjudged : item.rewardMethod ∈ generalMethods)
    (h : m.leads data p item → calls.generalReward p = .ok (acc, judgement))
    (hnot : ¬ m.leads data p item → ∃ xs, acc = .nums xs ∧ ∀ x ∈ xs, x = -42) :
    m.FinalScore calls data p item s ((s.set "acc_score" acc).set "llm_general_judgement" judgement) := by
  have hacc : ((s.set "acc_score" acc).set "llm_general_judgement" judgement).get? "acc_score" = some acc := by
    rw [Dict.get?_set_of_ne _ _ (by decide), Dict.get?_set_self]
  refine ⟨fun key hkey => ?_, fun _ => ?_, fun hmem => absurd hjudged hmem, .inl ?_,
    fun _ => ⟨?_, fun hlead => ?_, fun hlead => ?_⟩⟩
  · rw [Dict.get?_set_of_not_mem hkey _ (by decide), Dict.get?_set_of_not_mem hkey _ (by decide)]
  · rw [hacc]
    rfl
  · rw [Dict.get?_set_of_ne _ _ (by decide), Dict.get?_set_of_ne _ _ (by decide)]
  · rw [Dict.get?_set_self]
    rfl
  · exact ⟨acc, judgement, h hlead, hacc, Dict.get?_set_self _ _ _⟩
  · obtain ⟨xs, rfl, hxs⟩ := hnot hlead
    exact ⟨xs, hacc, hxs⟩

/-- A model's score. -/
theorem FinalScore.model (s : Score) (x : ℚ) (hjudged : item.rewardMethod ∉ generalMethods)
    (hmodel : item.rewardMethod ∈ modelScored) :
    m.FinalScore calls data p item s ((s.set "acc_score" (.num x)).set "reward_score" (.num x)) := by
  refine ⟨fun key hkey => ?_, fun _ => ?_, fun _ hmem => absurd hmodel hmem, .inr ⟨x, Dict.get?_set_self _ _ _⟩,
    fun hmem => absurd hmem hjudged⟩
  · rw [Dict.get?_set_of_not_mem hkey _ (by decide), Dict.get?_set_of_not_mem hkey _ (by decide)]
  · rw [Dict.get?_set_of_ne _ _ (by decide), Dict.get?_set_self]
    rfl

theorem Returns.ok {α : Type} {returns : Bool} {r : Except PyError α} {P : α → Prop} {a : α}
    (h : Returns returns r P) (hr : r = .ok a) : returns = true ∧ P a := by
  unfold Returns at h
  split at h
  case isTrue hreturns =>
    obtain ⟨b, hb, hP⟩ := h
    rw [hr] at hb
    cases hb
    exact ⟨hreturns, hP⟩
  case isFalse =>
    obtain ⟨e, he⟩ := h
    rw [hr] at he
    cases he

theorem Returns.exists {α : Type} {r : Except PyError α} {P : α → Prop} (h : Returns true r P) : ∃ a, r = .ok a :=
  h.imp fun _ h => h.1

/-- A call about a sample returns if the model that it asks does. -/
theorem llmProcess_isOk (hfollows : m.Follows data pattern calls) (hq : QuestionFor m data p item (some s) q)
    (h : m.isAsked data p item → pattern.returns p = true) :
    ∃ r, llmProcess calls m.llmProcessMethodFlag q = .ok r := by
  unfold isAsked at h
  unfold llmProcess
  rw [hq.input.method, hq.index, hq.score]
  by_cases hjudged : item.rewardMethod ∈ generalMethods
  · rw [if_pos hjudged] at h
    rw [if_pos hjudged]
    obtain ⟨hleads, hnot⟩ := generalRewardModelAcc_eq calls hq hjudged
    by_cases hlead : m.leads data p item
    · have hreturns := hfollows.generalReward p
      rw [h hlead] at hreturns
      obtain ⟨scores, hscores⟩ := Returns.exists hreturns
      rw [hleads hlead, hscores]
      exact ⟨_, rfl⟩
    · obtain ⟨xs, hxs, -⟩ := hnot hlead
      rw [hxs]
      exact ⟨_, rfl⟩
  · rw [if_neg hjudged] at h
    rw [if_neg hjudged]
    have hmodel : pattern.returns p = true → ∃ v, calls.scoreModel p = .ok v := fun hreturns =>
      Returns.exists (hreturns ▸ hfollows.scoreModel p)
    by_cases hrag : item.rewardMethod ∈ ["rag_frames", "rag_alpaca", "rag_simpleqa"]
    · rw [if_pos hrag]
      obtain ⟨v, hv⟩ := hmodel (h (.inl (List.mem_append_left ["rag_summary"] hrag)))
      rw [hv]
      exact ⟨_, rfl⟩
    · rw [if_neg hrag]
      by_cases hflag : item.rewardMethod ∈ m.llmProcessMethodFlag
      · rw [if_pos hflag]
        have hreturns := hfollows.processLine p
        rw [h (.inr hflag)] at hreturns
        obtain ⟨u, hu⟩ := Returns.exists hreturns
        rw [hu]
        exact ⟨_, rfl⟩
      · rw [if_neg hflag]
        by_cases hsummary : item.rewardMethod = "rag_summary"
        · rw [if_pos hsummary]
          obtain ⟨v, hv⟩ := hmodel (h (.inl (by rw [hsummary]; decide)))
          rw [hv]
          exact ⟨_, rfl⟩
        · rw [if_neg hsummary]
          exact ⟨_, rfl⟩

/-- A call that returns has asked a model that returned, and keeps the sample's score. -/
theorem llmProcess_result (hfollows : m.Follows data pattern calls) (hq : QuestionFor m data p item (some s) q)
    (h : llmProcess calls m.llmProcessMethodFlag q = .ok r) :
    ResultFor m calls data p item s r ∧ (m.isAsked data p item → pattern.returns p = true) := by
  have hindex : r.index = p ∧ r.input.rewardMethod = item.rewardMethod := by
    obtain ⟨hindex, hinput⟩ := llmProcess_index h
    rw [hindex, hinput]
    exact ⟨hq.index, hq.input.method⟩
  suffices hsuffices : (∃ s', r.score = some s' ∧ m.FinalScore calls data p item s s') ∧
      (m.isAsked data p item → pattern.returns p = true) from
    ⟨⟨hindex.1, hindex.2, hsuffices.1⟩, hsuffices.2⟩
  unfold isAsked
  unfold llmProcess at h
  rw [hq.input.method, hq.index, hq.score] at h
  by_cases hjudged : item.rewardMethod ∈ generalMethods
  · rw [if_pos hjudged] at h
    rw [if_pos hjudged]
    obtain ⟨hleads, hnot⟩ := generalRewardModelAcc_eq calls hq hjudged
    obtain ⟨⟨acc, judgement⟩, hscores, h⟩ := bind_eq_ok.mp h
    cases h
    refine ⟨⟨_, rfl, FinalScore.judge s hjudged (fun hlead => ?_) fun hlead => ?_⟩, fun hlead => ?_⟩
    · rw [← hleads hlead]
      exact hscores
    · obtain ⟨xs, hxs, hall⟩ := hnot hlead
      rw [hscores] at hxs
      cases hxs
      exact ⟨xs, rfl, hall⟩
    · rw [hleads hlead] at hscores
      exact (Returns.ok (hfollows.generalReward p) hscores).1
  · rw [if_neg hjudged] at h
    rw [if_neg hjudged]
    have hmodel : ∀ v, calls.scoreModel p = .ok v → item.rewardMethod ∈ modelScored →
        m.FinalScore calls data p item s ((s.set "acc_score" v).set "reward_score" v) ∧ pattern.returns p = true := by
      intro v hv hmem
      obtain ⟨hreturns, x, rfl⟩ := Returns.ok (hfollows.scoreModel p) hv
      exact ⟨FinalScore.model s x hjudged hmem, hreturns⟩
    by_cases hrag : item.rewardMethod ∈ ["rag_frames", "rag_alpaca", "rag_simpleqa"]
    · rw [if_pos hrag] at h
      obtain ⟨v, hv, h⟩ := bind_eq_ok.mp h
      cases h
      obtain ⟨hfinal, hreturns⟩ := hmodel v hv (List.mem_append_left ["rag_summary"] hrag)
      exact ⟨⟨_, rfl, hfinal⟩, fun _ => hreturns⟩
    · rw [if_neg hrag] at h
      by_cases hflag : item.rewardMethod ∈ m.llmProcessMethodFlag
      · rw [if_pos hflag] at h
        obtain ⟨u, hu, h⟩ := bind_eq_ok.mp h
        cases h
        exact ⟨⟨s, rfl, FinalScore.refl s hjudged⟩, fun _ => (Returns.ok (hfollows.processLine p) hu).1⟩
      · rw [if_neg hflag] at h
        by_cases hsummary : item.rewardMethod = "rag_summary"
        · rw [if_pos hsummary] at h
          obtain ⟨v, hv, h⟩ := bind_eq_ok.mp h
          cases h
          obtain ⟨hfinal, hreturns⟩ := hmodel v hv (by rw [hsummary]; decide)
          exact ⟨⟨_, rfl, hfinal⟩, fun _ => hreturns⟩
        · rw [if_neg hsummary] at h
          cases h
          refine ⟨⟨s, hq.score, FinalScore.refl s hjudged⟩, ?_⟩
          rintro (hmem | hmem)
          · have happend : _ ∈ ["rag_frames", "rag_alpaca", "rag_simpleqa"] ++ ["rag_summary"] := hmem
            rcases List.mem_append.mp happend with hmem | hmem
            · exact absurd hmem hrag
            · exact absurd (List.mem_singleton.mp hmem) hsummary
          · exact absurd hmem hflag

theorem not_asked (data : List DataItem) (p : Nat) (h : m.asksModel item.rewardMethod = false) :
    item.rewardMethod ∉ generalMethods ∧ ¬ m.isAsked data p item := by
  have hnot := of_decide_eq_false h
  have hjudged : item.rewardMethod ∉ generalMethods := by
    intro hmem
    apply hnot
    rcases List.mem_pair.mp hmem with heq | heq
    · exact .inr (.inr (.inl (List.mem_singleton.mpr heq)))
    · exact .inr (.inl (List.mem_singleton.mpr heq))
  refine ⟨hjudged, ?_⟩
  unfold isAsked
  rw [if_neg hjudged]
  rintro (hmem | hmem)
  · apply hnot
    rcases List.mem_append.mp (show _ ∈ ["rag_frames", "rag_alpaca", "rag_simpleqa"] ++ ["rag_summary"] from hmem) with
      hmem | hmem
    · left
      simp only [List.mem_cons] at hmem ⊢
      tauto
    · exact .inr (.inr (.inr (.inl (List.mem_singleton.mp hmem))))
  · exact hnot (.inr (.inr (.inr (.inr hmem))))

/-- Every sample has an answer if the models return. -/
theorem answer_isSome (hfollows : m.Follows data pattern calls) (hq : QuestionFor m data p item (some s) q)
    (h : m.isAsked data p item → pattern.returns p = true) : (answer calls m.llmProcessMethodFlag q).isSome := by
  unfold answer
  split
  · rfl
  · obtain ⟨r, hr⟩ := llmProcess_isOk hfollows hq h
    rw [← llmProcess_plain, hr]
    rfl

theorem answer_result (hfollows : m.Follows data pattern calls) (hq : QuestionFor m data p item (some s) q)
    (h : answer calls m.llmProcessMethodFlag q = some r.plain) :
    ResultFor m calls data p item s r ∧ (m.isAsked data p item → pattern.returns p = true) := by
  have hsame : ∀ r' : Question, r'.plain = r.plain →
      r.index = r'.index ∧ r.input.rewardMethod = r'.input.rewardMethod ∧ r.score = r'.score := by
    intro r' heq
    have hindex := congrArg Question.index heq
    have hmethod := congrArg (fun q => q.input.rewardMethod) heq
    have hscore := congrArg Question.score heq
    exact ⟨hindex.symm, hmethod.symm, hscore.symm⟩
  unfold answer at h
  split at h
  case isTrue hnone =>
    obtain ⟨hjudged, hasked⟩ := not_asked data p (hq.input.api.mp hnone)
    obtain ⟨hindex, hmethod, hscore⟩ := hsame q (Option.some.inj h)
    refine ⟨⟨hindex.trans hq.index, hmethod.trans hq.input.method, s, hscore.trans hq.score, ?_⟩,
      fun h => absurd h hasked⟩
    exact FinalScore.refl s hjudged
  case isFalse =>
    rw [← llmProcess_plain] at h
    cases hcall : llmProcess calls m.llmProcessMethodFlag q with
    | error e =>
      rw [hcall] at h
      cases h
    | ok r' =>
      rw [hcall] at h
      obtain ⟨hindex, hmethod, hscore⟩ := hsame r' (Option.some.inj h)
      obtain ⟨hresult, hreturns⟩ := llmProcess_result hfollows hq hcall
      obtain ⟨s', hs', hfinal⟩ := hresult.score
      exact ⟨⟨hindex.trans hresult.index, hmethod.trans hresult.method, s', hscore.trans hs', hfinal⟩, hreturns⟩

/-- A call cannot write into `None`. -/
theorem answer_isSome_score (h : answer calls m.llmProcessMethodFlag q = some r.plain) (hsome : r.score.isSome) :
    q.score.isSome := by
  cases hscore : q.score with
  | some s => rfl
  | none =>
    exfalso
    have hnone : ∀ r' : Question, r'.score = none → r'.plain ≠ r.plain := by
      intro r' hr' heq
      have hsame := congrArg Question.score heq
      rw [show r.score = r'.score from hsame.symm, hr'] at hsome
      cases hsome
    unfold answer at h
    split at h
    · exact hnone q hscore (Option.some.inj h)
    · rw [← llmProcess_plain] at h
      cases hcall : llmProcess calls m.llmProcessMethodFlag q with
      | error e =>
        rw [hcall] at h
        cases h
      | ok r' =>
        rw [hcall] at h
        refine hnone r' ?_ (Option.some.inj h)
        unfold llmProcess at hcall
        dsimp only at hcall
        rw [hscore] at hcall
        split at hcall
        · obtain ⟨scores, -, hcall⟩ := bind_eq_ok.mp hcall
          cases hcall
        · split at hcall
          · obtain ⟨v, -, hcall⟩ := bind_eq_ok.mp hcall
            cases hcall
          · split at hcall
            · cases hcall
            · split at hcall
              · obtain ⟨v, -, hcall⟩ := bind_eq_ok.mp hcall
                cases hcall
              · cases hcall
                exact hscore

/-! ## The process scoring -/

/-- The score of a result behind the process scoring. -/
def ScoringOf (calls : Calls) (r : Question) (f : Score) : Prop :=
  processScore calls r = .ok f ∨ plainScore r = .ok f

theorem scoringOf_final {f : Score} (hr : ResultFor m calls data p item s r) (h : ScoringOf calls r f) :
    m.FinalScore calls data p item s f := by
  obtain ⟨s', hs', hfinal⟩ := hr.score
  have hplain (stuff scores vlimits : Value) : m.FinalScore calls data p item s
      (((s'.set "process_stuff" stuff).set "process_scores" scores).set "process_vlimits" vlimits) := by
    refine hfinal.trans (fun key hkey => ?_) (.inl ?_)
    · rw [Dict.get?_set_of_not_mem hkey _ (by decide), Dict.get?_set_of_not_mem hkey _ (by decide),
        Dict.get?_set_of_not_mem hkey _ (by decide)]
    · rw [Dict.get?_set_of_ne _ _ (by decide), Dict.get?_set_of_ne _ _ (by decide),
        Dict.get?_set_of_ne _ _ (by decide)]
  rcases h with h | h
  · unfold processScore at h
    rw [hs'] at h
    dsimp only at h
    split at h
    case h_1 rewardScore processScores _ =>
      cases h
      refine hfinal.trans (fun key hkey => ?_) (.inr ⟨rewardScore, ?_⟩)
      · rw [Dict.get?_set_of_not_mem hkey _ (by decide), Dict.get?_set_of_not_mem hkey _ (by decide),
          Dict.get?_set_of_not_mem hkey _ (by decide), Dict.get?_set_of_not_mem hkey _ (by decide)]
      · rw [Dict.get?_set_of_ne _ _ (by decide), Dict.get?_set_of_ne _ _ (by decide),
          Dict.get?_set_of_ne _ _ (by decide), Dict.get?_set_self]
    case h_2 =>
      cases h
      exact hplain ..
  · unfold plainScore at h
    rw [hs'] at h
    cases h
    exact hplain ..

theorem processScore_isOk (h : r.score = some s) : ∃ f, processScore calls r = .ok f := by
  unfold processScore
  rw [h]
  dsimp only
  split <;> exact ⟨_, rfl⟩

theorem plainScore_isOk (h : r.score = some s) : ∃ f, plainScore r = .ok f := by
  unfold plainScore
  rw [h]
  exact ⟨_, rfl⟩

/-- There is nothing to write the scoring into without a score. -/
theorem scoringOf_isSome {f : Score} (h : ScoringOf calls r f) : r.score.isSome := by
  cases hscore : r.score with
  | some s => rfl
  | none =>
    rcases h with h | h
    · unfold processScore at h
      rw [hscore] at h
      dsimp only at h
      split at h <;> cases h
    · unfold plainScore at h
      rw [hscore] at h
      cases h

theorem flatten_groupInputs (inputs : List Question) : (groupInputs inputs).flatten = inputs := by
  have htake : ∀ k, ((List.range k).map fun i => (inputs.drop (8 * i)).take 8).flatten = inputs.take (8 * k) := by
    intro k
    induction k with
    | zero => rfl
    | succ k ih =>
      rw [List.range_succ, List.map_append, List.flatten_append, ih, Nat.mul_succ, List.take_add]
      rw [List.map_singleton, List.flatten_singleton]
  unfold groupInputs
  rw [htake]
  exact List.take_of_length_le (by omega)

theorem ne_nil_of_mem_groupInputs {inputs group : List Question} (h : group ∈ groupInputs inputs) : group ≠ [] := by
  obtain ⟨i, hi, rfl⟩ := List.mem_map.mp h
  rw [List.mem_range] at hi
  apply List.ne_nil_of_length_pos
  rw [List.length_take, List.length_drop]
  omega

theorem forall₂_flatten {α β : Type} {R : α → β → Prop} {l : List (List α)} {r : List (List β)}
    (h : List.Forall₂ (List.Forall₂ R) l r) : List.Forall₂ R l.flatten r.flatten := by
  induction h with
  | nil => exact .nil
  | cons hab _ ih => exact List.rel_append hab ih

theorem llmProcessRewardProcessScoring_scores {group : List Question} {scores : List Score}
    (h : m.llmProcessRewardProcessScoring calls group = .ok scores) : List.Forall₂ (ScoringOf calls) group scores := by
  unfold llmProcessRewardProcessScoring at h
  split at h
  · cases h
  · split at h
    · exact (mapM_eq_ok.mp h).imp fun r f h => .inl h
    · exact (mapM_eq_ok.mp h).imp fun r f h => .inr h

theorem exists_mapM {α β : Type} {f : α → Except PyError β} {l : List α} (h : ∀ a ∈ l, ∃ b, f a = .ok b) :
    ∃ r, l.mapM f = .ok r := by
  induction l with
  | nil => exact ⟨[], rfl⟩
  | cons a l ih =>
    obtain ⟨b, hb⟩ := h a List.mem_cons_self
    obtain ⟨r, hr⟩ := ih fun a ha => h a (List.mem_cons_of_mem _ ha)
    rw [List.mapM_cons, hb, hr]
    exact ⟨b :: r, rfl⟩

/-- The groups of eight keep the order. -/
theorem processScoring_scores {results : List Question} {scores : List (List Score)}
    (h : (groupInputs results).mapM (m.llmProcessRewardProcessScoring calls) = .ok scores) :
    List.Forall₂ (ScoringOf calls) results scores.flatten := by
  conv_lhs => rw [← flatten_groupInputs results]
  exact forall₂_flatten ((mapM_eq_ok.mp h).imp fun _ _ => llmProcessRewardProcessScoring_scores)

theorem processScoring_isOk (m : RewardManager) (calls : Calls) (results : List Question)
    (h : ∀ r ∈ results, r.score.isSome) :
    ∃ scores, (groupInputs results).mapM (m.llmProcessRewardProcessScoring calls) = .ok scores := by
  apply exists_mapM
  intro group hgroup
  have hsome : ∀ r ∈ group, r.score.isSome := fun r hr =>
    h r (flatten_groupInputs results ▸ List.mem_flatten_of_mem hgroup hr)
  unfold llmProcessRewardProcessScoring
  split
  · exact absurd rfl (ne_nil_of_mem_groupInputs hgroup)
  · split
    · refine exists_mapM fun r hr => ?_
      obtain ⟨s, hs⟩ := Option.isSome_iff_exists.mp (hsome r hr)
      exact processScore_isOk hs
    · refine exists_mapM fun r hr => ?_
      obtain ⟨s, hs⟩ := Option.isSome_iff_exists.mp (hsome r hr)
      exact plainScore_isOk hs

/-! ## The scores of a batch -/

theorem getElem?_questionsOf {scores : List (Option Score)} {input : RewardInput} {score : Option Score}
    (hinput : inputs[p]? = some input) (hscore : scores[p]? = some score) :
    (questionsOf inputs scores)[p]? = some ⟨p, input, score, false⟩ := by
  unfold questionsOf
  have hzip : (inputs.zip scores)[p]? = some (input, score) := List.getElem?_zip_eq_some.mpr ⟨hinput, hscore⟩
  rw [List.getElem?_map, List.getElem?_zipIdx, hzip, Nat.zero_add]
  rfl

theorem step1Process_eq_ok {scores : List (Option Score)} :
    step1Process calls inputs = .ok scores ↔
      List.Forall₂ (fun input score => calls.computeScore input.2 = .ok score) inputs.zipIdx scores :=
  mapM_eq_ok

theorem allScores_eq_ok {completion : Completion} {finals : List Score} :
    m.allScores calls completion inputs = .ok finals ↔ ∃ scores results groups, step1Process calls inputs = .ok scores ∧
      processInputsExternalmodel calls m.llmProcessMethodFlag completion inputs scores = .ok results ∧
      (groupInputs results).mapM (m.llmProcessRewardProcessScoring calls) = .ok groups ∧ groups.flatten = finals := by
  unfold allScores
  constructor
  · intro h
    obtain ⟨scores, hscores, h⟩ := bind_eq_ok.mp h
    obtain ⟨results, hresults, h⟩ := bind_eq_ok.mp h
    obtain ⟨groups, hgroups, h⟩ := bind_eq_ok.mp h
    exact ⟨scores, results, groups, hscores, hresults, hgroups, Except.ok.inj h⟩
  · rintro ⟨scores, results, groups, hscores, hresults, hgroups, rfl⟩
    rw [hscores, ok_bind, hresults, ok_bind, hgroups]
    rfl

/-- The score of each sample behind all calls. -/
structure SampleScore (m : RewardManager) (calls : Calls) (data : List DataItem) (pattern : Pattern)
    (p : Nat) (item : DataItem) (f : Score) : Prop where
  scored : ∃ s, calls.computeScore p = .ok (some s) ∧ m.FinalScore calls data p item s f
  returned : m.isAsked data p item → pattern.returns p = true

theorem allScores_scores {completion : Completion} {finals : List Score} (hfollows : m.Follows data pattern calls)
    (h : m.allScores calls completion (m.makeInputs {} data) = .ok finals) :
    finals.length = data.length ∧ ∀ p item, data[p]? = some item →
      ∃ f, finals[p]? = some f ∧ SampleScore m calls data pattern p item f := by
  obtain ⟨scores, results, groups, hscores, hresults, hgroups, rfl⟩ := allScores_eq_ok.mp h
  have hinputsOf := m.makeInputs_spec data
  have hscoresOf := step1Process_eq_ok.mp hscores
  have hanswers := processInputsExternalmodel_results hresults
  have hfinals := processScoring_scores hgroups
  have hlengthInputs := hinputsOf.length_eq
  have hlengthScores := hscoresOf.length_eq
  rw [List.length_zipIdx] at hlengthInputs hlengthScores
  constructor
  · rw [← hfinals.length_eq, ← hanswers.length_eq]
    unfold questionsOf
    rw [List.length_map, List.length_zipIdx, List.length_zip, ← hlengthScores, ← hlengthInputs, Nat.min_self]
  · intro p item hitem
    obtain ⟨input, hinput, hfor⟩ := getElem?_of_forall₂ hinputsOf
      (i := p) (a := (item, p)) (by rw [List.getElem?_zipIdx, hitem, Nat.zero_add]; rfl)
    obtain ⟨score, hscore, hcall⟩ := getElem?_of_forall₂ hscoresOf
      (i := p) (a := (input, p)) (by rw [List.getElem?_zipIdx, hinput, Nat.zero_add]; rfl)
    obtain ⟨r, hr, hanswer⟩ := getElem?_of_forall₂ hanswers (getElem?_questionsOf hinput hscore)
    obtain ⟨f, hf, hscoring⟩ := getElem?_of_forall₂ hfinals hr
    obtain ⟨s, rfl⟩ := Option.isSome_iff_exists.mp (answer_isSome_score hanswer (scoringOf_isSome hscoring))
    obtain ⟨hresult, hreturned⟩ := answer_result hfollows ⟨rfl, hfor, rfl, rfl⟩ hanswer
    exact ⟨f, hf, ⟨s, hcall, scoringOf_final hresult hscoring⟩, hreturned⟩

theorem allScores_isOk (completion : Completion) (hfollows : m.Follows data pattern calls)
    (hscored : ∀ p item, data[p]? = some item → ∃ s, calls.computeScore p = .ok (some s))
    (hreturned : ∀ p item, data[p]? = some item → m.isAsked data p item → pattern.returns p = true) :
    ∃ finals, m.allScores calls completion (m.makeInputs {} data) = .ok finals := by
  have hinputsOf := m.makeInputs_spec data
  have hlengthInputs := hinputsOf.length_eq
  rw [List.length_zipIdx] at hlengthInputs
  -- the input at a position is that of the sample there
  have hinputAt : ∀ p input, (m.makeInputs {} data)[p]? = some input →
      ∃ item, data[p]? = some item ∧ m.InputFor data p item input := by
    intro p input hinput
    have hlt := (List.getElem?_eq_some_iff.mp hinput).1
    have hitem : data[p]? = some data[p] := List.getElem?_eq_getElem (by omega)
    obtain ⟨input', hinput', hfor⟩ := getElem?_of_forall₂ hinputsOf
      (i := p) (a := (data[p], p)) (by rw [List.getElem?_zipIdx, hitem, Nat.zero_add]; rfl)
    rw [hinput] at hinput'
    cases hinput'
    exact ⟨_, hitem, hfor⟩
  obtain ⟨scores, hscores⟩ : ∃ scores, step1Process calls (m.makeInputs {} data) = .ok scores := by
    apply exists_mapM
    rintro ⟨input, p⟩ hmem
    obtain ⟨item, hitem, -⟩ := hinputAt p input (List.mem_zipIdx_iff_getElem?.mp hmem)
    obtain ⟨s, hs⟩ := hscored p item hitem
    exact ⟨_, hs⟩
  have hscoresOf := step1Process_eq_ok.mp hscores
  have hlengthScores := hscoresOf.length_eq
  rw [List.length_zipIdx] at hlengthScores
  have hquestion : ∀ q ∈ questionsOf (m.makeInputs {} data) scores,
      ∃ p item s, data[p]? = some item ∧ QuestionFor m data p item (some s) q := by
    intro q hq
    obtain ⟨⟨⟨input, score⟩, p⟩, hmem, rfl⟩ := List.mem_map.mp hq
    obtain ⟨hinput, hscore⟩ := List.getElem?_zip_eq_some.mp (List.mem_zipIdx_iff_getElem?.mp hmem)
    obtain ⟨item, hitem, hfor⟩ := hinputAt p input hinput
    obtain ⟨score', hscore', hcall⟩ := getElem?_of_forall₂ hscoresOf
      (i := p) (a := (input, p)) (by rw [List.getElem?_zipIdx, hinput, Nat.zero_add]; rfl)
    obtain ⟨s, hs⟩ := hscored p item hitem
    rw [hscore] at hscore'
    cases hscore'
    rw [hs] at hcall
    cases hcall
    exact ⟨p, item, s, hitem, rfl, hfor, rfl, rfl⟩
  obtain ⟨results, hresults⟩ := processInputsExternalmodel_ok calls m.llmProcessMethodFlag
    completion hlengthScores fun q hq => by
      obtain ⟨p, item, s, hitem, hfor⟩ := hquestion q hq
      exact answer_isSome hfollows hfor (hreturned p item hitem)
  obtain ⟨groups, hgroups⟩ := m.processScoring_isOk calls results fun r hr => by
    obtain ⟨q, hq, hanswer⟩ := exists_of_mem_of_forall₂ (processInputsExternalmodel_results hresults) hr
    obtain ⟨p, item, s, hitem, hfor⟩ := hquestion q hq
    obtain ⟨hresult, -⟩ := answer_result hfollows hfor hanswer
    obtain ⟨s', hs', -⟩ := hresult.score
    rw [hs']
    rfl
  exact ⟨groups.flatten, allScores_eq_ok.mpr ⟨scores, results, groups, hscores, hresults, hgroups, rfl⟩⟩

end RewardManager

end Yuan.Reward
