import Yuan.Reward.Outcomes

/-!
# The neighbours of a sample in the process scoring

The samples of a batch are scored in groups of eight, and the first of a group says whether the group is
scored by process. A sample that is configured for process scoring is scored as it is alone if the first of its
group is configured too.
-/

namespace Yuan.Reward

/-- Position `n * k + j` of lists put together is position `j` of the list at `k`, if those before have length
`n`. -/
theorem getElem?_flatten_of_length {α : Type} {n k j : Nat} {L : List (List α)} {l : List α}
    (hbefore : ∀ k' < k, ∃ x, L[k']? = some x ∧ x.length = n) (hl : L[k]? = some l) (hj : j < l.length) :
    L.flatten[n * k + j]? = l[j]? := by
  induction k generalizing L with
  | zero =>
    obtain ⟨tail, rfl⟩ : ∃ tail, L = l :: tail := by
      cases L with
      | nil => cases hl
      | cons x tail => exact ⟨tail, by rw [Option.some.inj hl]⟩
    rw [Nat.mul_zero, Nat.zero_add, List.flatten_cons, List.getElem?_append_left hj]
  | succ k ih =>
    cases L with
    | nil => cases hl
    | cons x tail =>
      obtain ⟨y, hy, hlength⟩ := hbefore 0 (Nat.succ_pos k)
      cases Option.some.inj hy
      have hrest := ih (L := tail) (fun k' hk' => hbefore (k' + 1) (Nat.succ_lt_succ hk')) hl
      have hindex : n * (k + 1) + j - x.length = n * k + j := by rw [hlength, Nat.mul_succ]; omega
      rw [List.flatten_cons, List.getElem?_append_right (by rw [hlength, Nat.mul_succ]; omega), hindex, hrest]

namespace RewardManager

theorem getElem?_groupInputs {inputs : List Question} {i : Nat} (hi : 8 * i < inputs.length) :
    (groupInputs inputs)[i]? = some ((inputs.drop (8 * i)).take 8) := by
  unfold groupInputs
  rw [List.getElem?_map, List.getElem?_range (by omega)]
  rfl

variable (m : RewardManager) (calls : Calls)

/-- The scores that the sample at a position gets back from the process scoring of a list. -/
def processRow (results : List Question) (i : Nat) : Option Score :=
  match (groupInputs results).mapM (m.llmProcessRewardProcessScoring calls) with
  | .ok scores => scores.flatten[i]?
  | .error _ => none

/-- The reward among them. -/
def processReward (results : List Question) (i : Nat) : Option (Option Value) :=
  (m.processRow calls results i).map fun row => row.get? "reward_score"

/-- The sample is configured for process scoring. -/
def configured (q : Question) : Prop := q.input.rewardMethod ∈ m.llmProcessMethodFlag

instance (q : Question) : Decidable (m.configured q) :=
  inferInstanceAs (Decidable (q.input.rewardMethod ∈ m.llmProcessMethodFlag))

/-- The first of the group of eight that position `i` is in. -/
def firstOfGroup (results : List Question) (i : Nat) : Option Question := results[8 * (i / 8)]?

/-- The body of one of the two loops, as the first of the group says. -/
def scoreAs (first : Option Question) (q : Question) : Except PyError Score :=
  if ∃ f ∈ first, m.configured f then processScore calls q else plainScore q

variable {m calls}

theorem llmProcessRewardProcessScoring_getElem? {group : List Question} {rows : List Score} {j : Nat} {q : Question}
    (h : m.llmProcessRewardProcessScoring calls group = .ok rows) (hq : group[j]? = some q) :
    ∃ row, rows[j]? = some row ∧ m.scoreAs calls group[0]? q = .ok row := by
  cases group with
  | nil => cases hq
  | cons first rest =>
    unfold llmProcessRewardProcessScoring at h
    dsimp only at h
    unfold scoreAs configured
    simp only [List.getElem?_cons_zero, Option.mem_some_iff, exists_eq_left']
    split_ifs at h with hfirst
    · rw [if_pos hfirst]
      exact getElem?_of_forall₂ (mapM_eq_ok.mp h) hq
    · rw [if_neg hfirst]
      exact getElem?_of_forall₂ (mapM_eq_ok.mp h) hq

variable (calls)

/-- The row of a sample, if each sample has scores to write into. -/
theorem processRow_of_scored {results : List Question} {i : Nat} {q : Question} (hq : results[i]? = some q)
    (hscored : ∀ r ∈ results, r.score.isSome) :
    m.processRow calls results i = (m.scoreAs calls (firstOfGroup results i) q).toOption := by
  obtain ⟨scores, hscores⟩ := m.processScoring_isOk calls results hscored
  have hgroups := mapM_eq_ok.mp hscores
  have hi : i < results.length := (List.getElem?_eq_some_iff.mp hq).1
  have hmod : i % 8 < 8 := Nat.mod_lt i (by decide)
  have hdiv : 8 * (i / 8) + i % 8 = i := Nat.div_add_mod i 8
  -- the sample in its group
  obtain ⟨rows, hrows, hgroup⟩ := getElem?_of_forall₂ hgroups (getElem?_groupInputs (i := i / 8) (by omega))
  have hmember : ((results.drop (8 * (i / 8))).take 8)[i % 8]? = some q := by
    rw [List.getElem?_take_of_lt hmod, List.getElem?_drop, hdiv]
    exact hq
  have hfirst : ((results.drop (8 * (i / 8))).take 8)[0]? = firstOfGroup results i := by
    rw [List.getElem?_take_of_lt (by decide), List.getElem?_drop]
    rfl
  obtain ⟨row, hrow, hscore⟩ := llmProcessRewardProcessScoring_getElem? hgroup hmember
  -- the groups before are full
  have hbefore : ∀ k < i / 8, ∃ x, scores[k]? = some x ∧ x.length = 8 := by
    intro k hk
    obtain ⟨x, hx, hgroup⟩ := getElem?_of_forall₂ hgroups (getElem?_groupInputs (i := k) (by omega))
    have hlength := (llmProcessRewardProcessScoring_scores hgroup).length_eq
    rw [List.length_take, List.length_drop] at hlength
    exact ⟨x, hx, by omega⟩
  have hplace := getElem?_flatten_of_length hbefore hrows (List.getElem?_eq_some_iff.mp hrow).1
  unfold processRow
  rw [hscores]
  dsimp only
  rw [hdiv] at hplace
  rw [hplace, hrow, ← hfirst, hscore]
  rfl

/-- Without scores there is nothing to write into: the call raises. -/
theorem processRow_of_not_scored {results : List Question} {r : Question} (hr : r ∈ results) (hnone : r.score = none)
    (i : Nat) : m.processRow calls results i = none := by
  unfold processRow
  cases hscores : (groupInputs results).mapM (m.llmProcessRewardProcessScoring calls) with
  | error e => rfl
  | ok scores =>
    obtain ⟨j, hj⟩ := List.mem_iff_getElem?.mp hr
    obtain ⟨f, -, hf⟩ := getElem?_of_forall₂ (processScoring_scores hscores) hj
    have hsome := scoringOf_isSome hf
    rw [hnone] at hsome
    cases hsome

/-! ## A sample alone -/

theorem processRow_alone {q : Question} {s : Score} (hs : q.score = some s) (hq : m.configured q) :
    m.processRow calls [q] 0 = (processScore calls q).toOption := by
  have hscored : ∀ r ∈ [q], r.score.isSome := by
    intro r hr
    rw [List.mem_singleton.mp hr, hs]
    rfl
  have hrow : m.processRow calls [q] 0 = (m.scoreAs calls (firstOfGroup [q] 0) q).toOption :=
    processRow_of_scored calls rfl hscored
  rw [hrow]
  unfold scoreAs
  rw [if_pos ⟨q, rfl, hq⟩]

/-- The process score of the sample does not change its reward: it raises, or is the reward the sample has. -/
def KeepsReward (calls : Calls) (q : Question) : Prop :=
  ∀ s ∈ q.score, ∀ x, processScoring calls q = .ok x → s.get? "reward_score" = some (.num x.1)

theorem processScore_row {q : Question} {s : Score} (hs : q.score = some s) :
    ∃ row, processScore calls q = .ok row ∧ row.get? "process_vlimits" = some (.nums [0, 3]) ∧
      (∀ x, processScoring calls q = .ok x → row.get? "reward_score" = some (.num x.1)) ∧
      ((∀ x, processScoring calls q ≠ .ok x) → row.get? "reward_score" = s.get? "reward_score") := by
  unfold processScore
  rw [hs]
  cases hscoring : processScoring calls q with
  | ok x =>
    refine ⟨_, rfl, Dict.get?_set_self _ _ _, fun y hy => ?_, fun hne => absurd rfl (hne x)⟩
    rw [Dict.get?_set_of_ne _ _ (by decide), Dict.get?_set_of_ne _ _ (by decide),
      Dict.get?_set_of_ne _ _ (by decide), Dict.get?_set_self, Except.ok.inj hy]
  | error e =>
    refine ⟨_, rfl, Dict.get?_set_self _ _ _, (fun y hy => by cases hy), fun _ => ?_⟩
    rw [Dict.get?_set_of_ne _ _ (by decide), Dict.get?_set_of_ne _ _ (by decide),
      Dict.get?_set_of_ne _ _ (by decide)]

theorem plainScore_row {q : Question} {s : Score} (hs : q.score = some s) :
    ∃ row, plainScore q = .ok row ∧ row.get? "process_vlimits" = some .none ∧
      row.get? "reward_score" = s.get? "reward_score" := by
  unfold plainScore
  rw [hs]
  refine ⟨_, rfl, Dict.get?_set_self _ _ _, ?_⟩
  rw [Dict.get?_set_of_ne _ _ (by decide), Dict.get?_set_of_ne _ _ (by decide), Dict.get?_set_of_ne _ _ (by decide)]

/-- Each sample has scores. -/
def AllScored (results : List Question) : Prop := ∀ r ∈ results, r.score.isSome

/-- The group of the sample at `i` is scored by process. -/
def ScoredByProcess (m : RewardManager) (results : List Question) (i : Nat) : Prop :=
  ∃ f ∈ firstOfGroup results i, m.configured f

instance (results : List Question) (i : Nat) : Decidable (m.ScoredByProcess results i) :=
  inferInstanceAs (Decidable (∃ f ∈ firstOfGroup results i, m.configured f))

section Rows

variable {results : List Question} {i : Nat} {q : Question} {s : Score}

theorem processRow_of_process (hq : results[i]? = some q) (hscored : AllScored results)
    (hprocess : m.ScoredByProcess results i) : m.processRow calls results i = (processScore calls q).toOption := by
  rw [processRow_of_scored calls hq hscored]
  exact congrArg Except.toOption (if_pos hprocess)

theorem processRow_of_plain (hq : results[i]? = some q) (hscored : AllScored results)
    (hplain : ¬ m.ScoredByProcess results i) : m.processRow calls results i = (plainScore q).toOption := by
  rw [processRow_of_scored calls hq hscored]
  exact congrArg Except.toOption (if_neg hplain)

theorem processRow_of_not_allScored (hscored : ¬ AllScored results) (i : Nat) :
    m.processRow calls results i = none := by
  unfold AllScored at hscored
  push Not at hscored
  obtain ⟨r, hr, hnone⟩ := hscored
  exact processRow_of_not_scored calls hr (Option.not_isSome_iff_eq_none.mp hnone) i

/-- The row of a sample of a group that is not scored by process has no limits. -/
theorem processRow_plain_ne (hq : results[i]? = some q) (hs : q.score = some s) (hscored : AllScored results)
    (hplain : ¬ m.ScoredByProcess results i) : m.processRow calls results i ≠ (processScore calls q).toOption := by
  obtain ⟨row, hrow, hlimits, -⟩ := processScore_row calls hs
  obtain ⟨row', hrow', hlimits', -⟩ := plainScore_row hs
  rw [processRow_of_plain calls hq hscored hplain, hrow, hrow']
  intro heq
  cases Option.some.inj heq
  rw [hlimits] at hlimits'
  cases hlimits'

theorem processReward_plain_iff (hq : results[i]? = some q) (hs : q.score = some s) (hscored : AllScored results)
    (hplain : ¬ m.ScoredByProcess results i) :
    m.processReward calls results i = (processScore calls q).toOption.map (fun row => row.get? "reward_score") ↔
      KeepsReward calls q := by
  obtain ⟨row, hrow, -, hscore, hraised⟩ := processScore_row calls hs
  obtain ⟨row', hrow', -, hreward⟩ := plainScore_row hs
  unfold processReward KeepsReward
  rw [processRow_of_plain calls hq hscored hplain, hrow, hrow', hs]
  simp only [Except.toOption, Option.map_some, Option.some.injEq, Option.mem_def, forall_eq', hreward]
  constructor
  · intro heq x hx
    rw [heq, hscore x hx]
  · intro hkeeps
    by_cases hsome : ∃ x, processScoring calls q = .ok x
    · obtain ⟨x, hx⟩ := hsome
      rw [hkeeps x hx, hscore x hx]
    · rw [hraised fun x hx => hsome ⟨x, hx⟩]

end Rows

/-- A sample that is configured for process scoring gets back what it gets alone exactly if all samples have scores
and its group is scored by process. It gets the same reward also if its process score would not change the
reward. -/
theorem process_reward_alone_iff (m : RewardManager) (calls : Calls) {results : List Question} {i : Nat} {q : Question}
    (hq : results[i]? = some q) (hconfigured : m.configured q) :
    (m.processRow calls results i = m.processRow calls [q] 0 ↔
      (q.score.isSome → AllScored results ∧ m.ScoredByProcess results i)) ∧
    (m.processReward calls results i = m.processReward calls [q] 0 ↔
      (q.score.isSome → AllScored results ∧ (m.ScoredByProcess results i ∨ KeepsReward calls q))) := by
  have hmem : q ∈ results := List.mem_iff_getElem?.mpr ⟨i, hq⟩
  cases hs : q.score with
  | none =>
    -- the call raises, with the others and without them
    have hall : m.processRow calls results i = none := processRow_of_not_scored calls hmem hs i
    have halone : m.processRow calls [q] 0 = none :=
      processRow_of_not_scored calls (List.mem_singleton_self q) hs 0
    unfold processReward
    rw [hall, halone]
    simp
  | some s =>
    obtain ⟨row, hrow, -⟩ := processScore_row calls hs
    have halone := processRow_alone calls hs hconfigured
    simp only [Option.isSome_some, true_implies]
    by_cases hscored : AllScored results
    · by_cases hprocess : m.ScoredByProcess results i
      · have hall := processRow_of_process calls hq hscored hprocess
        unfold processReward
        simp only [hall, halone, hscored, hprocess, true_or, and_self]
      · have hne := processRow_plain_ne calls hq hs hscored hprocess
        have hiff := processReward_plain_iff calls hq hs hscored hprocess
        rw [halone]
        simp only [hne, hprocess, false_or, true_and, hscored, ← hiff]
        unfold processReward
        rw [halone]
    · have hall : m.processRow calls results i = none := processRow_of_not_allScored calls hscored i
      unfold processReward
      rw [hall, halone, hrow]
      simp only [Except.toOption, hscored, false_and, reduceCtorEq, Option.map_some, Option.map_none, 
        and_self]

/-! ## Two samples -/

/-- A reward manager that scores `llm_math` by process. -/
def mathManager : RewardManager where
  nSamplesPerPrompt := 1
  samples_pos := Nat.one_pos
  qwen72bInstHost := ["host"]
  inst_ne := List.cons_ne_nil _ _
  qwen72bVlHost := ["host"]
  vl_ne := List.cons_ne_nil _ _
  yuanm32Host := ["host"]
  m32_ne := List.cons_ne_nil _ _
  bertHost := "host"
  processRewardHost := ["host"]
  process_ne := List.cons_ne_nil _ _
  llmProcessMethodFlag := ["llm_math"]
  textAnswer _ := true

/-- Every process score is 3. -/
def calls3 : Calls where
  computeScore _ := .error (.runtimeError "scoring failed")
  generalReward _ := .error (.runtimeError "the judge failed")
  scoreModel _ := .error (.runtimeError "the model failed")
  processLine _ := .ok ()
  processScoring _ := .ok (3, .nums [1, 1, 1])

/-- A sample of the method, rewarded 1 so far. -/
def sampleOf (method : String) (index : Nat) : Question where
  index := index
  input := { response := [], rewardMethod := method, overlongFilterFlag := false }
  score := some ⟨[("reward_score", .num 1)], by decide⟩
  processed := true

theorem process_reward_alone_iff_two :
    mathManager.processRow calls3 [sampleOf "llm_math" 0, sampleOf "llm_code" 1] 0 =
      mathManager.processRow calls3 [sampleOf "llm_math" 0] 0 :=
  have hfirst : [sampleOf "llm_math" 0, sampleOf "llm_code" 1][0]? = some (sampleOf "llm_math" 0) := rfl
  (process_reward_alone_iff mathManager calls3 hfirst (by decide)).1.mpr fun _ =>
    ⟨by simp [AllScored, sampleOf], by decide⟩

/-- Behind a sample that is not configured, the sample keeps the reward 1 that is 3 when it is alone. -/
theorem process_reward_alone_fails :
    ¬ ∀ (m : RewardManager) (calls : Calls) (results : List Question) (i : Nat) (q : Question),
      results[i]? = some q → m.configured q → AllScored results →
        m.processReward calls results i = m.processReward calls [q] 0 := by
  intro h
  have heq := h mathManager calls3 [sampleOf "llm_code" 0, sampleOf "llm_math" 1] 1 (sampleOf "llm_math" 1) rfl
    (by decide) (by simp [AllScored, sampleOf])
  exact absurd heq (by decide +kernel)

end RewardManager

end Yuan.Reward
