import Yuan.Reward.ExternalModel

/-!
# One result per input, in order

Whatever order the calls come back in, their results are those of the inputs in order. A call that raises
leaves nothing to sort by.
-/

namespace Yuan.Reward

variable {α : Type}

/-! ## Parts -/

theorem flatten_parts {sizes : List Nat} {xs : List α} (h : xs.length ≤ sizes.sum) : (parts sizes xs).flatten = xs := by
  induction sizes generalizing xs with
  | nil =>
    rw [List.sum_nil, Nat.le_zero, List.length_eq_zero_iff] at h
    rw [h]
    rfl
  | cons size sizes ih =>
    rw [List.sum_cons] at h
    rw [parts, List.flatten_cons, ih (by rw [List.length_drop]; omega), List.take_append_drop]

theorem flatten_arraySplit (xs : List α) {n : Nat} (hn : 0 < n) : (arraySplit xs n).flatten = xs := by
  apply flatten_parts
  rw [List.sum_append, List.sum_replicate, List.sum_replicate, nsmul_eq_mul, nsmul_eq_mul, Nat.cast_id, Nat.cast_id]
  have hmod := Nat.mod_lt xs.length hn
  have hdiv := Nat.div_add_mod xs.length n
  obtain ⟨rest, hrest⟩ := Nat.exists_eq_add_of_lt hmod
  calc
    xs.length = n * (xs.length / n) + xs.length % n := hdiv.symm
    _ = (xs.length % n + (n - xs.length % n)) * (xs.length / n) + xs.length % n := by
        rw [Nat.add_sub_cancel' hmod.le]
    _ ≤ _ := by
        rw [Nat.add_mul, Nat.mul_add]
        omega

theorem flatten_splitList2 (xs : List α) {n : Nat} (hn : 0 < n) : (splitList2 xs n).flatten = xs := by
  unfold splitList2
  split
  case isTrue =>
    rcases Nat.eq_zero_or_pos xs.length with hnil | hpos
    · rw [List.length_eq_zero_iff.mp hnil]
      rfl
    · exact flatten_arraySplit xs hpos
  case isFalse => exact flatten_arraySplit xs hn

theorem flatten_inputLst (content : Dict String (List Question)) :
    (inputLst content).flatten = content.values.flatten := by
  unfold inputLst
  dsimp only
  split
  case isTrue hpos =>
    rw [List.flatMap_def, List.flatten_flatten, List.map_map]
    congr 1
    calc
      content.values.map (List.flatten ∘ fun value => splitList2 value (64 / content.keys.length)) =
          content.values.map id := List.map_congr_left fun value _ => flatten_splitList2 value hpos
      _ = content.values := List.map_id _
  case isFalse => rfl

/-! ## Calls -/

/-- A question without its API, on which no call depends. -/
def Question.plain (q : Question) : Question :=
  { q with input := { q.input with rewardVllmApi := "" } }

theorem exists_map_some {l : List (Option α)} (h : ∀ a ∈ l, a.isSome) : ∃ r : List α, l = r.map some := by
  induction l with
  | nil => exact ⟨[], rfl⟩
  | cons a l ih =>
    obtain ⟨x, rfl⟩ := Option.isSome_iff_exists.mp (h a List.mem_cons_self)
    obtain ⟨r, rfl⟩ := ih fun b hb => h b (List.mem_cons_of_mem _ hb)
    exact ⟨x :: r, rfl⟩

section Calls

variable {calls : Calls} {flags : List String} {completion : Completion} {apis : List String}
  {questions : List Question} {dealt : Dealt}

/-- What a call leaves of a question, but for the API. -/
def asked (calls : Calls) (flags : List String) (q : Question) : Option Question :=
  (llmProcess calls flags q.plain).toOption.map Question.plain

/-- The result for a question: it is not asked without an API. -/
def answer (calls : Calls) (flags : List String) (q : Question) : Option Question :=
  if q.input.rewardVllmApi = "none" then some q.plain else asked calls flags q

theorem llmProcess_plain (q : Question) :
    (llmProcess calls flags q).toOption.map Question.plain = asked calls flags q := by
  have hgeneral : generalRewardModelAcc calls q.plain = generalRewardModelAcc calls q := rfl
  unfold asked llmProcess
  rw [hgeneral]
  unfold Question.plain
  by_cases hjudged : q.input.rewardMethod ∈ generalMethods
  · rw [if_pos hjudged, if_pos hjudged]
    cases generalRewardModelAcc calls q with
    | error e => rfl
    | ok scores => cases q.score <;> rfl
  · rw [if_neg hjudged, if_neg hjudged]
    by_cases hrag : q.input.rewardMethod ∈ ["rag_frames", "rag_alpaca", "rag_simpleqa"]
    · rw [if_pos hrag, if_pos hrag]
      cases calls.scoreModel q.index with
      | error e => rfl
      | ok score => cases q.score <;> rfl
    · rw [if_neg hrag, if_neg hrag]
      by_cases hflag : q.input.rewardMethod ∈ flags
      · rw [if_pos hflag, if_pos hflag]
        cases q.score with
        | none => rfl
        | some score => cases calls.processLine q.index <;> rfl
      · rw [if_neg hflag, if_neg hflag]
        by_cases hsummary : q.input.rewardMethod = "rag_summary"
        · rw [if_pos hsummary, if_pos hsummary]
          cases calls.scoreModel q.index with
          | error e => rfl
          | ok score => cases q.score <;> rfl
        · rw [if_neg hsummary, if_neg hsummary]
          rfl

/-- A call keeps the position and the input. -/
theorem llmProcess_index {q r : Question} (h : llmProcess calls flags q = .ok r) :
    r.index = q.index ∧ r.input = q.input := by
  unfold llmProcess at h
  dsimp only at h
  split at h
  · obtain ⟨scores, -, h⟩ := bind_eq_ok.mp h
    obtain ⟨score, -, h⟩ := bind_eq_ok.mp h
    cases h
    exact ⟨rfl, rfl⟩
  · split at h
    · obtain ⟨scores, -, h⟩ := bind_eq_ok.mp h
      obtain ⟨score, -, h⟩ := bind_eq_ok.mp h
      cases h
      exact ⟨rfl, rfl⟩
    · split at h
      · split at h
        · cases h
        · obtain ⟨u, -, h⟩ := bind_eq_ok.mp h
          cases h
          exact ⟨rfl, rfl⟩
      · split at h
        · obtain ⟨scores, -, h⟩ := bind_eq_ok.mp h
          obtain ⟨score, -, h⟩ := bind_eq_ok.mp h
          cases h
          exact ⟨rfl, rfl⟩
        · cases h
          exact ⟨rfl, rfl⟩

theorem answer_index {q r : Question} (h : answer calls flags q = some r) : r.index = q.index := by
  unfold answer at h
  split at h
  · cases h
    rfl
  · obtain ⟨r', hr', rfl⟩ := Option.map_eq_some_iff.mp h
    cases hcall : llmProcess calls flags q.plain with
    | error e =>
      rw [hcall] at hr'
      cases hr'
    | ok r'' =>
      rw [hcall] at hr'
      cases hr'
      exact (llmProcess_index hcall).1

/-! ## The pool -/

theorem threadFunc_perm (chunk : Nat) (questions : List Question) :
    ((threadFunc calls flags completion chunk questions).map (Option.map Question.plain)).Perm
      (questions.map (asked calls flags)) := by
  refine ((completion.perm chunk _).map _).trans ?_
  rw [List.map_map]
  refine List.Perm.of_eq (List.map_congr_left fun q _ => ?_)
  exact llmProcess_plain q

theorem pool_perm (chunks : List (List Question)) (start : Nat) :
    (((chunks.zipIdx start).flatMap fun c => threadFunc calls flags completion c.2 c.1).map
      (Option.map Question.plain)).Perm (chunks.flatten.map (asked calls flags)) := by
  induction chunks generalizing start with
  | nil => exact List.Perm.refl _
  | cons chunk chunks ih =>
    rw [List.zipIdx_cons, List.flatMap_cons, List.map_append, List.flatten_cons, List.map_append]
    exact (threadFunc_perm start chunk).append (ih (start + 1))

/-- What has been dealt so far. -/
def Dealt.answers (calls : Calls) (flags : List String) (dealt : Dealt) : List (Option Question) :=
  dealt.allResults.map (Option.map Question.plain) ++
    dealt.content.values.flatten.map (asked calls flags)

/-- A question is dealt to an API. -/
theorem Dealt.answers_ask (dealt : Dealt) (api : String) (q : Question) (n : Nat) :
    (Dealt.answers calls flags { dealt with
        content := dealt.content.set api ((dealt.content.get? api).getD [] ++ [q])
        rewardProcessNum := n }).Perm (dealt.answers calls flags ++ [asked calls flags q]) := by
  unfold answers
  rw [List.append_assoc]
  refine List.Perm.append_left _ ?_
  refine ((Dict.flatten_values_append_perm dealt.content api q).map _).trans ?_
  rw [List.map_append, List.map_singleton]

theorem deal_perm {dealt' : Dealt} (h : deal flags apis dealt questions = .ok dealt') :
    (dealt'.answers calls flags).Perm (dealt.answers calls flags ++ questions.map (answer calls flags)) := by
  induction questions generalizing dealt with
  | nil =>
    cases h
    rw [List.map_nil, List.append_nil]
  | cons q questions ih =>
    rw [deal] at h
    rw [List.map_cons, List.append_cons]
    split at h
    case isTrue hnone =>
      refine (ih h).trans (List.Perm.append_right _ ?_)
      unfold answer Dealt.answers
      rw [if_pos hnone, List.map_append, List.append_assoc, List.append_assoc]
      exact List.perm_append_comm.append_left _
    case isFalse hapi =>
      have hanswer : answer calls flags q = asked calls flags q := if_neg hapi
      rw [hanswer]
      split at h
      · split at h
        · cases h
        case h_2 api happ =>
          exact (ih h).trans (List.Perm.append_right _ (dealt.answers_ask api _ _))
      · exact (ih h).trans (List.Perm.append_right _ (dealt.answers_ask _ q _))

/-- There is an API for each question that the pool is asked about by its flag. -/
theorem deal_ok (h : dealt.rewardProcessNum +
      (questions.filter fun q => q.input.rewardMethod ∈ flags).length ≤ apis.length) :
    ∃ dealt', deal flags apis dealt questions = .ok dealt' := by
  induction questions generalizing dealt with
  | nil => exact ⟨dealt, rfl⟩
  | cons q questions ih =>
    rw [deal]
    by_cases hflag : q.input.rewardMethod ∈ flags
    · rw [List.filter_cons_of_pos (by simpa using hflag), List.length_cons] at h
      split
      · exact ih (by dsimp only; omega)
      · have hlt : dealt.rewardProcessNum < apis.length := by omega
        have hzigzag : zigzagMap dealt.rewardProcessNum apis.length = dealt.rewardProcessNum := by
          unfold zigzagMap
          rw [Nat.div_eq_of_lt hlt, Nat.mod_eq_of_lt hlt]
          rfl
        rw [hzigzag, List.getElem?_eq_getElem hlt]
        exact ih (by dsimp only; omega)
    · rw [List.filter_cons_of_neg (by simpa using hflag)] at h
      split
      · exact ih h
      · exact ih h

/-- All results, in the order in which they come back. -/
theorem results_perm (h : deal flags apis {} questions = .ok dealt) :
    ((dealt.allResults ++ (inputLst dealt.content).zipIdx.flatMap fun c =>
      threadFunc calls flags completion c.2 c.1).map (Option.map Question.plain)).Perm
      (questions.map (answer calls flags)) := by
  rw [List.map_append]
  calc
    List.Perm _ (dealt.answers calls flags) := by
      refine List.Perm.append_left _ ?_
      rw [← flatten_inputLst]
      exact pool_perm _ 0
    List.Perm _ _ := deal_perm h

/-! ## Sorting -/

theorem mapM_indexed_eq_ok {results : List (Option Question)} {sorted : List Question} :
    results.mapM indexed = .ok sorted ↔ results = sorted.map some := by
  rw [mapM_eq_ok]
  constructor
  · intro h
    induction h with
    | nil => rfl
    | @cons result q results sorted hr _ ih =>
      rw [List.map_cons, ← ih]
      cases result with
      | none => cases hr
      | some r =>
        cases hr
        rfl
  · rintro rfl
    induction sorted with
    | nil => exact .nil
    | cons q sorted ih => exact .cons rfl ih

/-- The questions of a batch, in order. -/
def questionsOf (inputs : List RewardInput) (scores : List (Option Score)) : List Question :=
  (inputs.zip scores).zipIdx.map fun p => ⟨p.2, p.1.1, p.1.2, false⟩

theorem pairwise_questionsOf (inputs : List RewardInput) (scores : List (Option Score)) :
    (questionsOf inputs scores).Pairwise fun a b => a.index < b.index := by
  unfold questionsOf
  rw [List.pairwise_map]
  have hrange := List.pairwise_lt_range' (s := 0) (n := (inputs.zip scores).length)
  rw [← List.zipIdx_map_snd, List.pairwise_map] at hrange
  exact hrange

theorem map_index_of_answers {answers : List Question}
    (h : List.Forall₂ (fun q r => answer calls flags q = some r) questions answers) :
    answers.map Question.index = questions.map Question.index := by
  induction h with
  | nil => rfl
  | cons hr _ ih => rw [List.map_cons, List.map_cons, ih, answer_index hr]

/-- The results come back in the order of the inputs. -/
theorem processInputsExternalmodel_results {inputs : List RewardInput} {scores : List (Option Score)}
    {results : List Question} (h : processInputsExternalmodel calls flags completion inputs scores = .ok results) :
    List.Forall₂ (fun q r => answer calls flags q = some r.plain) (questionsOf inputs scores) results := by
  obtain ⟨dealt, hdeal, h⟩ := bind_eq_ok.mp h
  obtain ⟨sorted, hsorted, h⟩ := bind_eq_ok.mp h
  cases h
  rw [mapM_indexed_eq_ok] at hsorted
  have hperm : ((sorted.map Question.plain).map some).Perm
      ((questionsOf inputs scores).map (answer calls flags)) := by
    have hplain : (sorted.map Question.plain).map some = (sorted.map some).map (Option.map Question.plain) := by
      rw [List.map_map, List.map_map]
      rfl
    rw [hplain, ← hsorted]
    exact (results_perm hdeal).trans (List.Perm.map _ (List.mergeSort_perm _ _))
  -- every question has an answer
  obtain ⟨answers, hanswers⟩ : ∃ answers : List Question,
      (questionsOf inputs scores).map (answer calls flags) = answers.map some := by
    apply exists_map_some
    intro a ha
    obtain ⟨r, -, rfl⟩ := List.mem_map.mp (hperm.mem_iff.mpr ha)
    rfl
  have hforall : List.Forall₂ (fun q r => answer calls flags q = some r) (questionsOf inputs scores) answers := by
    have hsame : List.Forall₂ (fun a r => a = some r) (answers.map some) answers := by
      rw [List.forall₂_map_left_iff]
      exact List.forall₂_same.mpr fun _ _ => rfl
    rw [← hanswers, List.forall₂_map_left_iff] at hsame
    exact hsame
  rw [hanswers, List.map_perm_map_iff (Option.some_injective _)] at hperm
  -- they are sorted by index already
  have hindex := map_index_of_answers hforall
  have hstrict : answers.Pairwise fun a b => a.index < b.index := by
    have hpairwise := pairwise_questionsOf inputs scores
    rw [← List.pairwise_map, ← hindex, List.pairwise_map] at hpairwise
    exact hpairwise
  have hnodup : (answers.map Question.index).Nodup := by
    rw [List.Nodup, List.pairwise_map]
    exact hstrict.imp fun h => Nat.ne_of_lt h
  have hback := ((List.mergeSort_perm sorted fun a b => a.index ≤ b.index).map Question.plain).trans hperm
  have hsorted : ((sorted.mergeSort fun a b => a.index ≤ b.index).map Question.plain).Pairwise
      fun a b => a.index ≤ b.index := by
    rw [List.pairwise_map]
    refine (List.pairwise_mergeSort (fun a b c hab hbc => ?_) (fun a b => ?_) sorted).imp fun h => ?_
    · simp only [decide_eq_true_eq] at hab hbc ⊢
      exact Nat.le_trans hab hbc
    · simpa using Nat.le_total a.index b.index
    · exact of_decide_eq_true h
  have hsame : (sorted.mergeSort fun a b => a.index ≤ b.index).map Question.plain = answers := by
    refine List.Perm.eq_of_pairwise (fun a b ha hb hab hba => ?_) hsorted
      (hstrict.imp fun h => Nat.le_of_lt h) hback
    exact List.inj_on_of_nodup_map hnodup (hback.mem_iff.mp ha) hb (Nat.le_antisymm hab hba)
  rw [← hsame, List.forall₂_map_right_iff] at hforall
  exact hforall

/-- Calls that all return lead to results. -/
theorem processInputsExternalmodel_ok (calls : Calls) (flags : List String) (completion : Completion)
    {inputs : List RewardInput} {scores : List (Option Score)} (hlength : inputs.length = scores.length)
    (h : ∀ q ∈ questionsOf inputs scores, (answer calls flags q).isSome) :
    ∃ results, processInputsExternalmodel calls flags completion inputs scores = .ok results := by
  let apis := (inputs.filter fun input => input.rewardMethod ∈ flags).map RewardInput.rewardVllmApi
  let questions := (questionsOf inputs scores).mergeSort fun a b =>
    b.input.response.length ≤ a.input.response.length
  have hsortPerm : questions.Perm (questionsOf inputs scores) := List.mergeSort_perm _ _
  have hflagged : (questions.filter fun q => q.input.rewardMethod ∈ flags).length ≤ apis.length := by
    rw [(hsortPerm.filter _).length_eq]
    rw [List.length_map]
    have hinputs : (questionsOf inputs scores).map Question.input = inputs := by
      unfold questionsOf
      rw [List.map_map]
      show (inputs.zip scores).zipIdx.map (Prod.fst ∘ Prod.fst) = inputs
      rw [← List.map_map, List.zipIdx_map_fst, List.map_fst_zip (Nat.le_of_eq hlength)]
    conv_rhs => rw [← hinputs]
    rw [List.filter_map, List.length_map]
    exact Nat.le_refl _
  obtain ⟨dealt, hdeal⟩ : ∃ dealt, deal flags apis {} questions = .ok dealt :=
    deal_ok (by rw [Nat.zero_add]; exact hflagged)
  obtain ⟨sorted, hsorted⟩ := exists_map_some (l := dealt.allResults ++
      (inputLst dealt.content).zipIdx.flatMap fun c => threadFunc calls flags completion c.2 c.1) (by
    intro a ha
    obtain ⟨q, hq, hqa⟩ := List.mem_map.mp
      ((results_perm hdeal).mem_iff.mp (List.mem_map_of_mem (f := Option.map Question.plain) ha))
    have hsome := h q (hsortPerm.mem_iff.mp hq)
    rw [hqa, Option.isSome_map] at hsome
    exact hsome)
  refine ⟨sorted.mergeSort fun a b => a.index ≤ b.index, ?_⟩
  show deal flags apis {} questions >>= _ = _
  rw [hdeal]
  show List.mapM indexed (_ ++ _) >>= _ = _
  rw [mapM_indexed_eq_ok.mpr hsorted]
  rfl

end Calls

end Yuan.Reward
