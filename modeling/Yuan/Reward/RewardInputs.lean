import Yuan.Lib.Leaders
import Yuan.Reward.RewardManager

/-!
# What the loop over the samples makes of each

A judged sample counts those of its method before it: every `n_samples_per_prompt`-th asks the judge.
-/

namespace Yuan.Reward

variable {data rest : List DataItem} {item : DataItem} {p : Nat}

/-- The sample at a position is of the method. -/
def ofMethod (data : List DataItem) (method : String) (p : Nat) : Bool :=
  decide (data[p]?.map DataItem.rewardMethod = some method)

/-- The samples before `p` that are of the method. -/
def methodCount (data : List DataItem) (method : String) (p : Nat) : Nat :=
  countBefore (ofMethod data method) p

section

variable (h : data.drop p = item :: rest)
include h

theorem ofMethod_of_drop (method : String) : ofMethod data method p = decide (item.rewardMethod = method) := by
  have hitem : data[p]? = some item := by
    rw [← List.head?_drop, h]
    rfl
  unfold ofMethod
  rw [hitem]
  simp only [Option.map_some, Option.some.injEq]

theorem methodCount_succ : methodCount data item.rewardMethod (p + 1) = methodCount data item.rewardMethod p + 1 :=
  countBefore_succ (by rw [ofMethod_of_drop h]; exact decide_eq_true rfl)

theorem methodCount_succ_of_ne {method : String} (hne : item.rewardMethod ≠ method) :
    methodCount data method (p + 1) = methodCount data method p :=
  countBefore_succ_of_not (by rw [ofMethod_of_drop h]; simpa using hne)

end

theorem drop_succ_of_drop {α : Type} {l rest : List α} {a : α} (h : l.drop p = a :: rest) : l.drop (p + 1) = rest := by
  rw [← List.tail_drop, h]
  rfl

namespace RewardManager

variable (m : RewardManager)

/-- The methods that have an API. -/
def asksModel (method : String) : Bool :=
  decide (method ∈ ["mllm_general1", "rag_alpaca", "rag_simpleqa", "rag_frames"] ∨ method ∈ ["mllm_general2"] ∨
    method ∈ ["llm_general"] ∨ method = "rag_summary" ∨ method ∈ m.llmProcessMethodFlag)

/-- What the loop makes of a sample. -/
structure InputFor (data : List DataItem) (p : Nat) (item : DataItem) (input : RewardInput) : Prop where
  method : input.rewardMethod = item.rewardMethod
  filter : input.overlongFilterFlag = (getRewardInput item).overlongFilterFlag
  judged : item.rewardMethod ∈ generalMethods → input.responseList.isSome ∧
    input.rewardFlag = some (decide (methodCount data item.rewardMethod p % m.nSamplesPerPrompt = 0))
  api : input.rewardVllmApi = "none" ↔ m.asksModel item.rewardMethod = false

variable {m : RewardManager}

/-! ## The API of a sample -/

/-- A port is part of every address. -/
theorem append_ne_none (ip : String) {port : String} (h : ¬ port.toList <:+ "none".toList) : ip ++ port ≠ "none" := by
  intro heq
  apply h
  rw [← heq, String.toList_append]
  exact List.suffix_append _ _

theorem pick_ne_none {apis : List String} (h : "none" ∉ apis) (i : Nat) : pick apis i ≠ "none" := by
  unfold pick
  rw [List.getD_eq_getElem?_getD]
  intro heq
  cases hget : apis[i % apis.length]? with
  | none =>
    rw [hget] at heq
    exact absurd heq (by decide)
  | some api =>
    rw [hget] at heq
    cases heq
    exact h (List.mem_of_getElem? hget)

theorem assignApi_eq (c : InputCounters) (input : RewardInput) :
    (m.assignApi c input).1.rewardCounters = c.rewardCounters ∧
      ∃ api, (m.assignApi c input).2 = { input with rewardVllmApi := api } ∧
        (api = "none" ↔ m.asksModel input.rewardMethod = false) := by
  unfold assignApi asksModel
  by_cases hinst : input.rewardMethod ∈ ["mllm_general1", "rag_alpaca", "rag_simpleqa", "rag_frames"]
  · rw [if_pos hinst]
    refine ⟨rfl, _, rfl, iff_of_false (pick_ne_none (fun hmem => ?_) _) (by simp [hinst])⟩
    obtain ⟨ip, -, hip⟩ := List.mem_flatMap.mp hmem
    rcases List.mem_pair.mp hip with heq | heq
    · exact append_ne_none ip (by decide) heq.symm
    · exact append_ne_none ip (by decide) heq.symm
  · rw [if_neg hinst]
    by_cases hvl : input.rewardMethod ∈ ["mllm_general2"]
    · rw [if_pos hvl]
      refine ⟨rfl, _, rfl, iff_of_false (pick_ne_none (fun hmem => ?_) _) (by simp [hvl])⟩
      obtain ⟨ip, -, hip⟩ := List.mem_flatMap.mp hmem
      rcases List.mem_pair.mp hip with heq | heq
      · exact append_ne_none ip (by decide) heq.symm
      · exact append_ne_none ip (by decide) heq.symm
    · rw [if_neg hvl]
      by_cases hm32 : input.rewardMethod ∈ ["llm_general"]
      · rw [if_pos hm32]
        refine ⟨rfl, _, rfl, iff_of_false (pick_ne_none (fun hmem => ?_) _) (by simp [hm32])⟩
        obtain ⟨ip, -, hip⟩ := List.mem_flatMap.mp hmem
        simp only [List.mem_cons, List.not_mem_nil, or_false] at hip
        rcases hip with heq | heq | heq | heq <;> exact append_ne_none ip (by decide) heq.symm
      · rw [if_neg hm32]
        by_cases hsummary : input.rewardMethod = "rag_summary"
        · rw [if_pos hsummary]
          exact ⟨rfl, _, rfl, iff_of_false (append_ne_none _ (by decide)) (by simp [hsummary])⟩
        · rw [if_neg hsummary]
          by_cases hflag : input.rewardMethod ∈ m.llmProcessMethodFlag
          · rw [if_pos hflag]
            refine ⟨rfl, _, rfl, iff_of_false (pick_ne_none (fun hmem => ?_) _) (by simp [hflag])⟩
            obtain ⟨ip, -, hip⟩ := List.mem_flatMap.mp hmem
            simp only [List.mem_cons, List.not_mem_nil, or_false] at hip
            rcases hip with heq | heq | heq | heq <;> exact append_ne_none ip (by decide) heq.symm
          · rw [if_neg hflag]
            exact ⟨rfl, _, rfl, iff_of_true rfl (decide_eq_false (by
              rintro (h | h | h | h | h)
              · exact hinst h
              · exact hvl h
              · exact hm32 h
              · exact hsummary h
              · exact hflag h))⟩

/-! ## The loop -/

theorem makeInputs_judged (c : InputCounters) (rest : List DataItem) (h : item.rewardMethod ∈ generalMethods) :
    m.makeInputs c (item :: rest) =
      let judged := m.processGeneralReward c item.rewardMethod ((item :: rest).take m.nSamplesPerPrompt)
        (getRewardInput item)
      (m.assignApi judged.1 judged.2).2 :: m.makeInputs (m.assignApi judged.1 judged.2).1 rest := by
  simp only [makeInputs, if_pos h]

theorem makeInputs_other (c : InputCounters) (rest : List DataItem) (h : item.rewardMethod ∉ generalMethods) :
    m.makeInputs c (item :: rest) = (m.assignApi c (getRewardInput item)).2 ::
      m.makeInputs (m.assignApi c (getRewardInput item)).1 rest := by
  simp only [makeInputs, if_neg h]

/-- A judged sample gets the number that its method counts. -/
theorem makeInputs_inputs {c : InputCounters} (h : data.drop p = rest)
    (hcount : ∀ method ∈ generalMethods, (c.rewardCounters method).idx = (methodCount data method p : Int) - 1) :
    List.Forall₂ (fun item input => m.InputFor data item.2 item.1 input) (rest.zipIdx p) (m.makeInputs c rest) := by
  induction rest generalizing p c with
  | nil => exact .nil
  | cons item rest ih =>
    by_cases hjudged : item.rewardMethod ∈ generalMethods
    · rw [makeInputs_judged c rest hjudged]
      obtain ⟨hcounters, api, hinput, hapi⟩ := assignApi_eq (m := m)
        (m.processGeneralReward c item.rewardMethod ((item :: rest).take m.nSamplesPerPrompt) (getRewardInput item)).1
        (m.processGeneralReward c item.rewardMethod ((item :: rest).take m.nSamplesPerPrompt) (getRewardInput item)).2
      have hidx : (c.rewardCounters item.rewardMethod).idx + 1 = (methodCount data item.rewardMethod p : Int) := by
        rw [hcount _ hjudged, Int.sub_add_cancel]
      refine .cons ?_ (ih (drop_succ_of_drop h) ?_)
      · rw [hinput]
        refine ⟨rfl, rfl, fun _ => ⟨rfl, ?_⟩, hapi⟩
        show some (decide (((c.rewardCounters item.rewardMethod).idx + 1) % m.nSamplesPerPrompt = 0)) = _
        rw [hidx]
        congr 2
        dsimp only
        exact propext (by omega)
      · intro method hmethod
        rw [hcounters]
        show (Function.update c.rewardCounters item.rewardMethod _ method).idx = _
        by_cases heq : method = item.rewardMethod
        · subst heq
          rw [Function.update_self, methodCount_succ h]
          dsimp only
          omega
        · rw [Function.update_of_ne heq, hcount _ hmethod, methodCount_succ_of_ne h (Ne.symm heq)]
    · rw [makeInputs_other c rest hjudged]
      obtain ⟨hcounters, api, hinput, hapi⟩ := assignApi_eq (m := m) c (getRewardInput item)
      refine .cons ?_ (ih (drop_succ_of_drop h) ?_)
      · rw [hinput]
        exact ⟨rfl, rfl, fun hmem => absurd hmem hjudged, hapi⟩
      · intro method hmethod
        have hne : item.rewardMethod ≠ method := fun heq => hjudged (heq ▸ hmethod)
        rw [hcounters, hcount _ hmethod, methodCount_succ_of_ne h hne]

theorem rewardInputs_eq_ok {inputs : List RewardInput} :
    m.rewardInputs data = .ok inputs ↔ data ≠ [] ∧ m.makeInputs {} data = inputs := by
  unfold rewardInputs
  split
  case isTrue hnil => exact iff_of_false (fun h => (by cases h)) fun h => h.1 hnil
  case isFalse hne => exact ⟨fun h => ⟨hne, Except.ok.inj h⟩, fun h => congrArg _ h.2⟩

/-- Each sample has its input. -/
theorem makeInputs_spec (data : List DataItem) :
    List.Forall₂ (fun item input => m.InputFor data item.2 item.1 input) data.zipIdx (m.makeInputs {} data) :=
  makeInputs_inputs List.drop_zero fun _ _ => rfl

end RewardManager

end Yuan.Reward
