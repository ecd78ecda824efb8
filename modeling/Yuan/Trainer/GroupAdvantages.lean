import Yuan.Trainer.GroupFiltering

/-!
# Advantages of padded groups

The GRPO advantage of a trajectory compares its reward with those of all rows that have its uid, so the copies of a
padded group count as responses of their own. The mean stays as it was, but the standard deviation has one less than
the number of rows below it, and a group of one response is no longer one.
-/

namespace Yuan.Trainer

/-! ## The advantage -/

section Advantage

/-- `token_level_rewards.sum(dim=-1)`. -/
def Trajectory.score {υ : Type} (t : Trajectory υ) : ℚ := t.tokenLevelRewards.sum

/-- `id2mean`: a single score is not compared. -/
def id2Mean (scores : List ℚ) : ℚ := if scores.length = 1 then 0 else mean scores

/-- `id2std`: `torch.std`, which divides by one less than the number of scores. -/
noncomputable def id2Std (scores : List ℚ) : ℝ :=
  if scores.length = 1 then 1 else Real.sqrt ((squaredDeviations scores / (scores.length - 1) : ℚ) : ℝ)

/-- The default of `epsilon`. -/
noncomputable def epsilon : ℝ := 1 / 1000000

/-- The advantage of a score among those of its uid. -/
noncomputable def advantage (normAdvByStdInGrpo : Bool) (scores : List ℚ) (score : ℚ) : ℝ :=
  if normAdvByStdInGrpo then ((score - id2Mean scores : ℚ) : ℝ) / (id2Std scores + epsilon)
  else ((score - id2Mean scores : ℚ) : ℝ)

variable {υ : Type} [DecidableEq υ]

/-- `compute_grpo_outcome_advantage`: a row of advantages for each row of the batch. -/
noncomputable def computeGrpoOutcomeAdvantage (normAdvByStdInGrpo : Bool) (batch : List (Trajectory υ)) :
    List (List ℝ) :=
  let id2score := Dict.groupBy Trajectory.uid Trajectory.score batch
  batch.map fun t => t.responseMask.map fun mask : Nat =>
    advantage normAdvByStdInGrpo ((id2score.get? t.uid).getD []) t.score * mask

/-- The scores of a prompt. -/
def groupScores (batch : List (Trajectory υ)) (uid : υ) : List ℚ := (group batch uid).map Trajectory.score

theorem computeGrpoOutcomeAdvantage_eq (norm : Bool) (batch : List (Trajectory υ)) :
    computeGrpoOutcomeAdvantage norm batch = batch.map fun t => t.responseMask.map fun mask : Nat =>
      advantage norm (groupScores batch t.uid) t.score * mask := by
  unfold computeGrpoOutcomeAdvantage
  simp only [Dict.getD_get?_groupBy]
  rfl

end Advantage

/-! ## Copies of a group -/

section Copies

variable {norm : Bool} {scores scores' : List ℚ} {score : ℚ}

/-- The advantage depends on the scores of the group, not on their order. -/
theorem advantage_perm (h : scores.Perm scores') : advantage norm scores score = advantage norm scores' score := by
  unfold advantage id2Mean id2Std
  rw [h.length_eq, mean_perm h, squaredDeviations_perm h]

theorem epsilon_pos : 0 < epsilon := by
  unfold epsilon
  norm_num

theorem id2Std_nonneg (scores : List ℚ) : 0 ≤ id2Std scores := by
  unfold id2Std
  split
  · exact zero_le_one
  · exact Real.sqrt_nonneg _

/-- With more than one score, copies of the group make the standard deviation smaller, unless it is 0. -/
theorem id2Std_copies_lt {k : Nat} (hk : 1 < k) (hmany : 1 < scores.length) (hspread : squaredDeviations scores ≠ 0) :
    id2Std (copies k scores) < id2Std scores := by
  have hpos : 0 < squaredDeviations scores := lt_of_le_of_ne (squaredDeviations_nonneg scores) hspread.symm
  have hcopies : (copies k scores).length ≠ 1 := by
    rw [length_copies]
    have hle := Nat.mul_le_mul_right scores.length hk.le
    omega
  unfold id2Std
  rw [if_neg hcopies, if_neg (by omega)]
  have hn : (1 : ℚ) < scores.length := by exact_mod_cast hmany
  have hk' : (1 : ℚ) < k := by exact_mod_cast hk
  have hbelow : (0 : ℚ) < k * scores.length - 1 := by nlinarith
  apply Real.sqrt_lt_sqrt
  · exact_mod_cast div_nonneg (squaredDeviations_nonneg _) (by rw [length_copies]; push_cast; linarith)
  · rw [Rat.cast_lt, squaredDeviations_copies (by omega), length_copies]
    push_cast
    rw [div_lt_div_iff₀ hbelow (by linarith)]
    nlinarith

/-- A single score, among copies of itself. -/
theorem advantage_copies_single {k : Nat} (hk : 1 < k) :
    advantage norm (copies k [score]) score = advantage norm [score] score ↔ score = 0 := by
  have hcopies : (copies k [score]).length ≠ 1 := by
    rw [length_copies, List.length_singleton]
    omega
  have hmean : mean [score] = score := by
    unfold mean
    simp
  have hleft : advantage norm (copies k [score]) score = 0 := by
    unfold advantage id2Mean
    rw [if_neg hcopies, mean_copies (by omega), hmean, sub_self, Rat.cast_zero, zero_div, ite_self]
  have hone : (0 : ℝ) < 1 + epsilon := add_pos one_pos epsilon_pos
  rw [hleft]
  unfold advantage id2Mean id2Std
  rw [if_pos List.length_singleton, if_pos List.length_singleton, sub_zero]
  cases norm with
  | true =>
    rw [if_pos rfl, eq_comm, div_eq_zero_iff, Rat.cast_eq_zero]
    exact or_iff_left hone.ne'
  | false => rw [if_neg Bool.false_ne_true, eq_comm, Rat.cast_eq_zero]

/-- More than one score, among copies of all. -/
theorem advantage_copies_many {k : Nat} (hk : 1 < k) (hmany : 1 < scores.length) (hscore : score ∈ scores) :
    advantage norm (copies k scores) score = advantage norm scores score ↔ norm = false ∨ score = mean scores := by
  have hcopies : (copies k scores).length ≠ 1 := by
    rw [length_copies]
    have hle := Nat.mul_le_mul_right scores.length hk.le
    omega
  have hmean : id2Mean (copies k scores) = id2Mean scores := by
    unfold id2Mean
    rw [if_neg hcopies, if_neg (by omega), mean_copies (by omega)]
  have hmean' : id2Mean scores = mean scores := if_neg (by omega)
  unfold advantage
  rw [hmean, hmean']
  cases norm with
  | false => simp
  | true =>
    simp only [if_true, Bool.true_eq_false, false_or]
    constructor
    · intro h
      by_contra hne
      have hspread : squaredDeviations scores ≠ 0 :=
        fun hzero => hne (squaredDeviations_eq_zero.mp hzero score hscore)
      have hlt := id2Std_copies_lt hk hmany hspread
      have hpos := add_pos_of_nonneg_of_pos (id2Std_nonneg scores) epsilon_pos
      have hpos' := add_pos_of_nonneg_of_pos (id2Std_nonneg (copies k scores)) epsilon_pos
      have hdiff : ((score - mean scores : ℚ) : ℝ) ≠ 0 := Rat.cast_ne_zero.mpr (sub_ne_zero.mpr hne)
      rw [div_eq_div_iff hpos'.ne' hpos.ne'] at h
      have hsame := mul_left_cancel₀ hdiff h
      linarith
    · rintro rfl
      rw [sub_self, Rat.cast_zero, zero_div, zero_div]

end Copies

/-! ## Padded batches -/

section Padding

variable {υ : Type} [DecidableEq υ] {batch : List (Trajectory υ)}

/-- The trajectories of the prompts that are not dropped: the batch without padding. -/
def unpadded (metric : String) (batch : List (Trajectory υ)) : List (Trajectory υ) :=
  batch.filter fun t => decide (¬ Dropped metric batch t.uid)

/-- The filter keeps whole groups: of the prompts that are not dropped every trajectory is there, some of these
prompts are there once more with all their trajectories, and the number of prompts is a multiple of the mini batch
size. -/
structure WholeGroups (config : FilterGroupsConfig) (batch : List (Trajectory υ)) (out : FilteredBatch υ)
    (kept added : List υ) : Prop where
  nodup : kept.Nodup
  mem_kept : ∀ uid, uid ∈ kept ↔ uid ∈ batch.map Trajectory.uid ∧ ¬ Dropped config.metric batch uid
  added_kept : ∀ uid ∈ added, uid ∈ kept
  rows : out.newBatch.Perm (unpadded config.metric batch ++ added.flatMap (group batch))
  numPrompts : out.numPromptInBatch = added.length + kept.length
  multiple : config.ppoMiniBatchSize ∣ out.numPromptInBatch

/-- Every trajectory has the advantage that it has without padding. -/
def SameAdvantages (norm : Bool) (metric : String) (batch : List (Trajectory υ)) (out : FilteredBatch υ) : Prop :=
  ∀ (i j : Nat) (t : Trajectory υ), out.newBatch[i]? = some t → (unpadded metric batch)[j]? = some t →
    (computeGrpoOutcomeAdvantage norm out.newBatch)[i]? =
      (computeGrpoOutcomeAdvantage norm (unpadded metric batch))[j]?

/-- The copies do no harm to a trajectory: a single one has the reward 0, one of many is not divided by the standard
deviation or has the mean reward. -/
def HarmlessCopies (norm : Bool) (batch : List (Trajectory υ)) (t : Trajectory υ) : Prop :=
  if (group batch t.uid).length = 1 then t.score = 0
  else norm = false ∨ t.score = mean (groupScores batch t.uid)

/-- The copies do no harm to the trajectories that have a response, of the prompts that the padding takes. -/
def HarmlessPadding (norm : Bool) (config : FilterGroupsConfig) (shuffle : Shuffle υ)
    (batch : List (Trajectory υ)) : Prop :=
  ∀ metricVals order, promptUid2MetricVals config.metric batch = .ok metricVals →
    sortedPromptUids config shuffle (groupAcc metricVals) (keptPromptUids metricVals) = .ok order →
      ∀ uid ∈ order.take (numMissing config (keptPromptUids metricVals)), ∀ t ∈ group batch uid,
        (∃ mask ∈ t.responseMask, mask ≠ 0) → HarmlessCopies norm batch t

theorem mem_unpadded {metric : String} {t : Trajectory υ} :
    t ∈ unpadded metric batch ↔ t ∈ batch ∧ ¬ Dropped metric batch t.uid := by
  unfold unpadded
  rw [List.mem_filter, decide_eq_true_iff]

theorem mem_group {uid : υ} {t : Trajectory υ} : t ∈ group batch uid ↔ t ∈ batch ∧ t.uid = uid := by
  unfold group
  rw [List.mem_filter, decide_eq_true_iff]

theorem group_append (l l' : List (Trajectory υ)) (uid : υ) : group (l ++ l') uid = group l uid ++ group l' uid :=
  List.filter_append l l'

/-- The rows of a prompt among added groups. -/
theorem group_flatMap (added : List υ) (uid : υ) :
    group (added.flatMap (group batch)) uid = copies (added.count uid) (group batch uid) := by
  induction added with
  | nil => rfl
  | cons u added ih =>
    rw [List.flatMap_cons, group_append, ih]
    by_cases hu : u = uid
    · subst hu
      rw [List.count_cons_self]
      congr 1
      unfold group
      rw [List.filter_filter]
      simp only [Bool.and_self]
    · rw [List.count_cons_of_ne hu]
      have hnone : group (group batch u) uid = [] := by
        apply List.filter_eq_nil_iff.mpr
        intro t ht
        rw [(mem_group.mp ht).2, decide_eq_true_iff]
        exact hu
      rw [hnone, List.nil_append]

/-- Without padding the group of a kept prompt is what it was. -/
theorem group_unpadded {metric : String} {uid : υ} (h : ¬ Dropped metric batch uid) :
    group (unpadded metric batch) uid = group batch uid := by
  unfold group unpadded
  rw [List.filter_filter]
  apply List.filter_congr
  intro t _
  by_cases ht : t.uid = uid
  · simp [ht, h]
  · simp [ht]

theorem map_copies {α β : Type} (f : α → β) (k : Nat) (l : List α) : (copies k l).map f = copies k (l.map f) := by
  unfold copies
  rw [List.map_flatten, List.map_replicate]

theorem copies_one {α : Type} (l : List α) : copies 1 l = l := by
  unfold copies
  simp

/-- Two rows of advantages are equal exactly if the advantages are, unless the response is empty. -/
theorem map_mul_eq_iff {masks : List Nat} {a b : ℝ} :
    (masks.map fun mask : Nat => a * (mask : ℝ)) = (masks.map fun mask : Nat => b * (mask : ℝ)) ↔
      ((∃ mask ∈ masks, mask ≠ 0) → a = b) := by
  rw [List.map_inj_left]
  constructor
  · rintro h ⟨mask, hmask, hne⟩
    exact mul_right_cancel₀ (Nat.cast_ne_zero.mpr hne) (h mask hmask)
  · intro h mask hmask
    by_cases hne : mask = 0
    · rw [hne, Nat.cast_zero, mul_zero, mul_zero]
    · rw [h ⟨mask, hmask, hne⟩]

variable {norm : Bool} {config : FilterGroupsConfig} {shuffle : Shuffle υ} {shuffleIdx : Shuffle Nat}
variable {deleteSetMllm : List υ} {out : FilteredBatch υ}

/-- What a run of the filter went through. -/
structure Filtered (config : FilterGroupsConfig) (shuffle : Shuffle υ) (batch : List (Trajectory υ))
    (out : FilteredBatch υ) (metricVals : Dict υ (List ℚ)) (toAdd : List υ) : Prop where
  vals : promptUid2MetricVals config.metric batch = .ok metricVals
  padding : promptUidsToAdd config shuffle (groupAcc metricVals) (keptPromptUids metricVals) = .ok toAdd
  rows : out.newBatch.Perm (unpadded config.metric batch ++ toAdd.flatMap (group batch))
  numPrompts : out.numPromptInBatch = toAdd.length + (keptPromptUids metricVals).length

theorem filtered_of_run (h : filterGroups config shuffle shuffleIdx deleteSetMllm batch = .ok out) :
    ∃ metricVals toAdd, Filtered config shuffle batch out metricVals toAdd := by
  obtain ⟨metricVals, hvals, h⟩ := bind_eq_ok.mp h
  obtain ⟨_, -, h⟩ := bind_eq_ok.mp h
  obtain ⟨toAdd, htoAdd, h⟩ := bind_eq_ok.mp h
  cases h
  refine ⟨metricVals, toAdd, hvals, htoAdd, ?_, rfl⟩
  refine (reorderBatch_perm config shuffleIdx _ _).trans (.of_eq (congrArg (· ++ _) ?_))
  apply List.filter_congr
  intro t ht
  rw [decide_eq_decide, mem_keptPromptUids hvals]
  exact and_iff_right (List.mem_map_of_mem ht)

section Run

variable {metricVals : Dict υ (List ℚ)} {toAdd : List υ}

section

variable (hrun : Filtered config shuffle batch out metricVals toAdd)
include hrun

theorem Filtered.mem_kept {uid : υ} (h : uid ∈ toAdd) : uid ∈ keptPromptUids metricVals := by
  obtain ⟨-, order, hperm, hmem, -⟩ := promptUidsToAdd_eq_ok hrun.padding
  exact hperm.mem_iff.mp (List.mem_of_mem_take ((hmem uid).mp h))

theorem Filtered.wholeGroups : WholeGroups config batch out (keptPromptUids metricVals) toAdd where
  nodup := nodup_keptPromptUids metricVals
  mem_kept _ := mem_keptPromptUids hrun.vals
  added_kept _ := hrun.mem_kept
  rows := hrun.rows
  numPrompts := hrun.numPrompts
  multiple := hrun.numPrompts ▸ (promptUidsToAdd_eq_ok hrun.padding).1

/-- After the filter a kept prompt has its own scores, and those of its copies. -/
theorem Filtered.groupScores_perm {uid : υ} (hkept : ¬ Dropped config.metric batch uid) :
    (groupScores out.newBatch uid).Perm (copies (toAdd.count uid + 1) (groupScores batch uid)) := by
  unfold groupScores
  have hperm : (group out.newBatch uid).Perm (copies (toAdd.count uid + 1) (group batch uid)) := by
    refine (hrun.rows.filter _).trans (.of_eq ?_)
    have hsplit := group_append (unpadded config.metric batch) (toAdd.flatMap (group batch)) uid
    rw [group_unpadded hkept, group_flatMap] at hsplit
    exact hsplit
  rw [← map_copies]
  exact hperm.map _

/-- The row of advantages of a trajectory, with padding and without it. -/
theorem Filtered.row_eq_iff {i j : Nat} {t : Trajectory υ} (hi : out.newBatch[i]? = some t)
    (hj : (unpadded config.metric batch)[j]? = some t) :
    (computeGrpoOutcomeAdvantage norm out.newBatch)[i]? =
        (computeGrpoOutcomeAdvantage norm (unpadded config.metric batch))[j]? ↔
      (t.uid ∈ toAdd → (∃ mask ∈ t.responseMask, mask ≠ 0) → HarmlessCopies norm batch t) := by
  obtain ⟨ht, hkept⟩ := mem_unpadded.mp (List.mem_of_getElem? hj)
  have hgroup : t ∈ group batch t.uid := mem_group.mpr ⟨ht, rfl⟩
  have hscore : t.score ∈ groupScores batch t.uid := List.mem_map_of_mem hgroup
  have hscores : groupScores (unpadded config.metric batch) t.uid = groupScores batch t.uid :=
    congrArg (List.map Trajectory.score) (group_unpadded hkept)
  rw [computeGrpoOutcomeAdvantage_eq, computeGrpoOutcomeAdvantage_eq, List.getElem?_map, List.getElem?_map, hi, hj]
  simp only [Option.map_some, Option.some.injEq]
  rw [map_mul_eq_iff, hscores, advantage_perm (hrun.groupScores_perm hkept)]
  by_cases htoAdd : t.uid ∈ toAdd
  · have hcount := List.count_pos_iff.mpr htoAdd
    have hsingle : (groupScores batch t.uid).length = (group batch t.uid).length := List.length_map _
    have hsame : advantage norm (copies (toAdd.count t.uid + 1) (groupScores batch t.uid)) t.score =
        advantage norm (groupScores batch t.uid) t.score ↔ HarmlessCopies norm batch t := by
      unfold HarmlessCopies
      by_cases hone : (group batch t.uid).length = 1
      · rw [if_pos hone]
        obtain ⟨score, hlist⟩ := List.length_eq_one_iff.mp (hsingle.trans hone)
        rw [hlist] at hscore ⊢
        rw [List.mem_singleton.mp hscore]
        exact advantage_copies_single (by omega)
      · rw [if_neg hone]
        have hpos := List.length_pos_of_mem hgroup
        exact advantage_copies_many (by omega) (by omega) hscore
    rw [hsame]
    exact ⟨fun h _ => h, fun h => h htoAdd⟩
  · rw [List.count_eq_zero_of_not_mem htoAdd, Nat.zero_add, copies_one]
    exact ⟨fun _ h => absurd h htoAdd, fun _ _ => rfl⟩

theorem Filtered.sameAdvantages_iff :
    SameAdvantages norm config.metric batch out ↔ HarmlessPadding norm config shuffle batch := by
  obtain ⟨-, order, -, hmem, horder⟩ := promptUidsToAdd_eq_ok hrun.padding
  constructor
  · intro hsame metricVals' order' hvals' horder' uid huid t ht hmask
    rw [hrun.vals] at hvals'
    cases hvals'
    have hmissing : numMissing config (keptPromptUids metricVals) ≠ 0 := by
      intro hzero
      rw [hzero] at huid
      cases huid
    rw [horder hmissing] at horder'
    cases horder'
    obtain ⟨htbatch, rfl⟩ := mem_group.mp ht
    have htoAdd := (hmem t.uid).mpr huid
    -- the trajectory is in the batch with and without padding
    have hin : t ∈ unpadded config.metric batch :=
      mem_unpadded.mpr ⟨htbatch, ((mem_keptPromptUids hrun.vals).mp (hrun.mem_kept htoAdd)).2⟩
    obtain ⟨j, hj⟩ := List.getElem?_of_mem hin
    obtain ⟨i, hi⟩ := List.getElem?_of_mem (hrun.rows.mem_iff.mpr (List.mem_append_left _ hin))
    exact (hrun.row_eq_iff hi hj).mp (hsame i j t hi hj) htoAdd hmask
  · intro hharmless i j t hi hj
    rw [hrun.row_eq_iff hi hj]
    intro htoAdd hmask
    have htake := (hmem t.uid).mp htoAdd
    have hmissing : numMissing config (keptPromptUids metricVals) ≠ 0 := by
      intro hzero
      rw [hzero] at htake
      cases htake
    have ht := (mem_unpadded.mp (List.mem_of_getElem? hj)).1
    exact hharmless metricVals order hrun.vals (horder hmissing) t.uid htake t (mem_group.mpr ⟨ht, rfl⟩) hmask

end

end Run

end Padding

/-! ## Two prompts -/

section Examples

/-- A response of one token. -/
def oneToken (uid : Nat) (reward : ℚ) : Trajectory Nat := ⟨uid, [reward], [reward], [1], .empty⟩

/-- Two prompts with two responses each; only those to the first one differ. -/
def twoPrompts : List (Trajectory Nat) := [oneToken 0 0, oneToken 0 1, oneToken 1 1, oneToken 1 1]

/-- Mini batches of two prompts, the hard ones first. -/
def miniBatchOfTwo : FilterGroupsConfig := { metric := "seq_final_reward", ppoMiniBatchSize := 2, hardToEasy := true }

/-- A shuffle that changes nothing. -/
def inOrder : Shuffle Nat := ⟨id, .refl⟩

theorem exists_filterGroups_twoPrompts :
    ∃ out, filterGroups miniBatchOfTwo inOrder inOrder [] twoPrompts = .ok out := by
  have hsome : (filterGroups miniBatchOfTwo inOrder inOrder [] twoPrompts).toOption.isSome = true := by
    decide +kernel
  cases hrun : filterGroups miniBatchOfTwo inOrder inOrder [] twoPrompts with
  | error e =>
    rw [hrun] at hsome
    cases hsome
  | ok out => exact ⟨out, rfl⟩

theorem keptPromptUids_twoPrompts {metricVals : Dict Nat (List ℚ)}
    (h : promptUid2MetricVals miniBatchOfTwo.metric twoPrompts = .ok metricVals) : keptPromptUids metricVals = [0] := by
  have hkept : (promptUid2MetricVals miniBatchOfTwo.metric twoPrompts).toOption.map keptPromptUids = some [0] := by
    decide +kernel
  rw [h] at hkept
  exact Option.some.inj hkept

end Examples

end Yuan.Trainer
