import Yuan.Lib.Groups
import Yuan.Lib.Py
import Yuan.Lib.Sample
import Mathlib.Analysis.Real.Sqrt
import Mathlib.Data.List.Sort
import Mathlib.Data.Rat.Cast.Order

/-!
# Filtering groups

With group filtering on, the trainer drops the prompts whose responses all got the same reward, since they teach
nothing. If the number of the kept prompts is not a multiple of the mini batch size, some of them are taken once
more, with all their trajectories, under the same uid.
-/

namespace Yuan.Trainer

/-- A row of a batch: a response to the prompt with this uid. -/
structure Trajectory (υ : Type) where
  uid : υ
  tokenLevelScores : List ℚ
  tokenLevelRewards : List ℚ
  responseMask : List Nat
  /-- The other columns that a metric may name. -/
  nonTensorBatch : Dict String ℚ

/-- What the filter reads of the configuration: `algorithm.filter_groups` and the mini batch size. -/
structure FilterGroupsConfig where
  metric : String
  ppoMiniBatchSize : Nat
  hardToEasy : Bool := false
  easyToHard : Bool := false
  centerToSides : Bool := false
  reorderBatchEnable : Bool := false
  reorderBatchHardToEasy : Bool := false
  reorderBatchEasyToHard : Bool := false

/-- `random.shuffle`: some order of the same elements. -/
structure Shuffle (α : Type) where
  run : List α → List α
  perm : ∀ l, (run l).Perm l

/-! ## Multiples and orders -/

section Lists

variable {α : Type} {lst : List α}

/-- `increase_to_min_multiple`: in spite of the name, only what is to be added. -/
def increaseToMinMultiple (lst : List α) (n : Nat) : Except PyError (List α) :=
  if n = 0 then .error (.valueError "n must be a positive integer")
  else
    let originalLength := lst.length
    if originalLength = 0 then .ok lst
    else
      let minMultiple := (originalLength + n - 1) / n
      let targetLength := minMultiple * n
      let numToAdd := targetLength - originalLength
      if numToAdd = 0 then .ok lst
      else .ok ((List.range numToAdd).filterMap fun i => lst[i % originalLength]?)

/-- The `while` loop of `arrange_from_center`: one from the left, one from the right, as long as there are any. -/
def arrangeLoop : List α → List α → List α
  | [], right => right
  | left, [] => left
  | a :: left, b :: right => a :: b :: arrangeLoop left right

/-- `arrange_from_center`. -/
def arrangeFromCenter (sortedList : List α) : Except PyError (List α) :=
  let center := sortedList.length / 2
  match sortedList.drop center with
  | [] => .error (.indexError "list index out of range")
  | c :: right => .ok (c :: arrangeLoop (sortedList.take center).reverse right)

/-- `sorted(lst, key=key, reverse=reverse)`, which is stable both ways. -/
def pySorted (key : α → ℚ) (reverse : Bool) (lst : List α) : List α :=
  lst.insertionSort fun a b => if reverse then key b ≤ key a else key a ≤ key b

theorem pySorted_perm (key : α → ℚ) (reverse : Bool) (lst : List α) : (pySorted key reverse lst).Perm lst :=
  List.perm_insertionSort _ _

theorem arrangeLoop_perm (left right : List α) : (arrangeLoop left right).Perm (left ++ right) := by
  fun_induction arrangeLoop left right with
  | case1 right => exact .refl _
  | case2 left => rw [List.append_nil]
  | case3 a left b right ih => exact (((ih.cons b).trans List.perm_middle.symm).cons a)

theorem arrangeFromCenter_perm {sortedList arranged : List α} (h : arrangeFromCenter sortedList = .ok arranged) :
    arranged.Perm sortedList := by
  unfold arrangeFromCenter at h
  dsimp only at h
  split at h
  · cases h
  · next c right hdrop =>
      cases h
      have hsplit := List.take_append_drop (sortedList.length / 2) sortedList
      rw [hdrop] at hsplit
      refine ((arrangeLoop_perm _ right).cons c).trans ?_
      refine (((List.reverse_perm _).append_right right).cons c).trans ?_
      exact List.perm_middle.symm.trans (.of_eq hsplit)

/-- The elements at positions that go round the list. -/
theorem length_filterMap_mod (hne : lst ≠ []) (n : Nat) :
    ((List.range n).filterMap fun i => lst[i % lst.length]?).length = n := by
  have hpos := List.length_pos_iff.mpr hne
  induction n with
  | zero => rfl
  | succ n ih =>
    rw [List.range_succ, List.filterMap_append, List.length_append, ih, List.filterMap_cons, List.filterMap_nil,
      List.getElem?_eq_getElem (Nat.mod_lt n hpos)]
    rfl

theorem mem_filterMap_mod {n : Nat} {a : α} :
    a ∈ (List.range n).filterMap (fun i => lst[i % lst.length]?) ↔ a ∈ lst.take n := by
  rw [List.mem_filterMap, List.mem_take_iff_getElem]
  constructor
  · rintro ⟨i, hi, ha⟩
    obtain ⟨hlt, hget⟩ := List.getElem?_eq_some_iff.mp ha
    have hle := Nat.mod_le i lst.length
    rw [List.mem_range] at hi
    exact ⟨i % lst.length, by omega, hget⟩
  · rintro ⟨i, hi, rfl⟩
    have hlt : i < lst.length := by omega
    refine ⟨i, List.mem_range.mpr (by omega), ?_⟩
    rw [Nat.mod_eq_of_lt hlt, List.getElem?_eq_getElem hlt]

/-- The padding goes round the list: it has as many elements as are missing to a multiple, which are the first so
many of the list. -/
theorem increaseToMinMultiple_eq_ok {added : List α} {n : Nat} (hne : lst.length % n ≠ 0)
    (h : increaseToMinMultiple lst n = .ok added) :
    added.length = n - lst.length % n ∧ ∀ a, a ∈ added ↔ a ∈ lst.take (n - lst.length % n) := by
  unfold increaseToMinMultiple at h
  by_cases hn : n = 0
  · rw [if_pos hn] at h
    cases h
  · have hpos : 0 < n := Nat.pos_of_ne_zero hn
    have hlst : lst ≠ [] := by
      rintro rfl
      exact hne (Nat.zero_mod n)
    have hlength := (List.length_pos_iff.mpr hlst).ne'
    have hmissing : (lst.length + n - 1) / n * n - lst.length = n - lst.length % n := by
      have hdiv := Nat.div_add_mod lst.length n
      have hlt := Nat.mod_lt lst.length hpos
      have hceil : (lst.length + n - 1) / n = lst.length / n + 1 := by
        apply Nat.div_eq_of_lt_le
        · rw [Nat.add_mul, Nat.one_mul, Nat.mul_comm]
          omega
        · rw [Nat.add_mul, Nat.add_mul, Nat.one_mul, Nat.mul_comm]
          omega
      rw [hceil, Nat.add_mul, Nat.one_mul, Nat.mul_comm]
      omega
    have hmod := Nat.mod_lt lst.length hpos
    rw [if_neg hn] at h
    dsimp only at h
    rw [if_neg hlength, hmissing, if_neg (by omega)] at h
    cases h
    exact ⟨length_filterMap_mod hlst _, fun a => mem_filterMap_mod⟩

/-- The elements at all positions, in some order. -/
theorem filterMap_getElem?_perm {idxs : List Nat} (h : idxs.Perm (List.range lst.length)) :
    (idxs.filterMap fun i => lst[i]?).Perm lst := by
  refine (h.filterMap _).trans (.of_eq ?_)
  clear h
  induction lst using List.reverseRecOn with
  | nil => rfl
  | append_singleton lst a ih =>
    rw [List.length_append, List.length_singleton, List.range_succ, List.filterMap_append]
    have hsame : (List.range lst.length).filterMap (fun i => (lst ++ [a])[i]?) =
        (List.range lst.length).filterMap fun i => lst[i]? := by
      apply List.filterMap_congr
      intro i hi
      exact List.getElem?_append_left (List.mem_range.mp hi)
    rw [hsame, ih, List.filterMap_cons, List.filterMap_nil, List.getElem?_concat_length]

end Lists

/-! ## The filter -/

section Filter

variable {υ : Type} [DecidableEq υ] {vals : List ℚ}

/-- What the rewards of a group are compared by. -/
def metricVal (metric : String) (t : Trajectory υ) : Except PyError ℚ :=
  if metric = "seq_final_reward" then .ok t.tokenLevelRewards.sum
  else if metric = "seq_reward" then .ok t.tokenLevelScores.sum
  else
    match t.nonTensorBatch.get? metric with
    | none => .error (.keyError metric)
    | some val => .ok val

/-- `prompt_uid2metric_vals`. -/
def promptUid2MetricVals (metric : String) (batch : List (Trajectory υ)) : Except PyError (Dict υ (List ℚ)) := do
  let vals ← batch.mapM (metricVal metric)
  return Dict.groupBy Prod.fst Prod.snd ((batch.map Trajectory.uid).zip vals)

/-- `np.std`. -/
noncomputable def npStd (vals : List ℚ) : ℝ := Real.sqrt ((squaredDeviations vals / vals.length : ℚ) : ℝ)

theorem npStd_pos : 0 < npStd vals ↔ 0 < squaredDeviations vals / vals.length := by
  unfold npStd
  rw [Real.sqrt_pos, Rat.cast_pos]

instance (vals : List ℚ) : Decidable (0 < npStd vals) := decidable_of_iff _ npStd_pos.symm

/-- The prompts whose rewards differ, and those with one response. -/
def keptPromptUids (promptUid2MetricVals : Dict υ (List ℚ)) : List υ :=
  (promptUid2MetricVals.entries.filter fun e => decide (0 < npStd e.2 ∨ e.2.length = 1)).map Prod.fst

/-- `prompt_uid2group_acc[uid]`: how many responses of a prompt got the reward 1. -/
def groupAcc (promptUid2MetricVals : Dict υ (List ℚ)) (uid : υ) : ℚ :=
  let metricVals := (promptUid2MetricVals.get? uid).getD []
  (metricVals.filter fun x => decide (x = 1)).length / metricVals.length

/-- The order in which prompts are taken for the padding. -/
def sortedPromptUids (config : FilterGroupsConfig) (shuffle : Shuffle υ) (acc : υ → ℚ) (keptPromptUids : List υ) :
    Except PyError (List υ) :=
  if config.hardToEasy then .ok (pySorted acc false keptPromptUids)
  else if config.easyToHard then .ok (pySorted acc true keptPromptUids)
  else if config.centerToSides then arrangeFromCenter (pySorted acc false keptPromptUids)
  else .ok (shuffle.run keptPromptUids)

/-- `prompt_uids_to_add`. -/
def promptUidsToAdd (config : FilterGroupsConfig) (shuffle : Shuffle υ) (acc : υ → ℚ) (keptPromptUids : List υ) :
    Except PyError (List υ) :=
  if config.ppoMiniBatchSize = 0 then .error (.zeroDivisionError "integer division or modulo by zero")
  else if keptPromptUids.length % config.ppoMiniBatchSize ≠ 0 ∧ keptPromptUids.length ≠ 0 then do
    let sorted ← sortedPromptUids config shuffle acc keptPromptUids
    let toAdd ← increaseToMinMultiple sorted config.ppoMiniBatchSize
    pyAssert ((keptPromptUids ++ toAdd).length % config.ppoMiniBatchSize = 0)
      "kept_prompts still not multiple of mini batch"
    return toAdd
  else .ok []

/-- The trajectories of a prompt, in the order of the batch. -/
def group (batch : List (Trajectory υ)) (uid : υ) : List (Trajectory υ) :=
  batch.filter fun t => decide (t.uid = uid)

/-- The reordering of the batch by pass rate. -/
def reorderBatch (config : FilterGroupsConfig) (shuffle : Shuffle Nat) (acc : υ → ℚ) (batch : List (Trajectory υ)) :
    List (Trajectory υ) :=
  if config.reorderBatchEnable then
    let passRates := batch.map fun t => acc t.uid
    let idxs := List.range batch.length
    let sortedIdx :=
      if config.reorderBatchHardToEasy then pySorted (fun i => passRates.getD i 0) false idxs
      else if config.reorderBatchEasyToHard then pySorted (fun i => passRates.getD i 0) true idxs
      else shuffle.run idxs
    sortedIdx.filterMap fun i => batch[i]?
  else batch

/-- The batch after the filter, with the number of its prompts. -/
structure FilteredBatch (υ : Type) where
  newBatch : List (Trajectory υ)
  numPromptInBatch : Nat

/-- The group filter of `fit`. -/
def filterGroups (config : FilterGroupsConfig) (shuffle : Shuffle υ) (shuffleIdx : Shuffle Nat)
    (deleteSetMllm : List υ) (newBatch : List (Trajectory υ)) : Except PyError (FilteredBatch υ) := do
  let metricVals ← promptUid2MetricVals config.metric newBatch
  let kept := keptPromptUids metricVals
  pyAssert (deleteSetMllm.all fun uid => decide (uid ∉ kept))
    "使用了多模态文本相关数据删除代码，但是重要性采样没有剔除成功"
  let toAdd ← promptUidsToAdd config shuffle (groupAcc metricVals) kept
  let keptTrajs := newBatch.filter fun t => decide (t.uid ∈ kept)
  let addedTrajs := toAdd.flatMap (group newBatch)
  return {
    newBatch := reorderBatch config shuffleIdx (groupAcc metricVals) (keptTrajs ++ addedTrajs)
    numPromptInBatch := toAdd.length + kept.length }

/-! ## What is dropped -/

/-- The prompt has more than one response, and all of them have the same reward. -/
def Dropped (metric : String) (batch : List (Trajectory υ)) (uid : υ) : Prop :=
  1 < (group batch uid).length ∧
    ∀ t ∈ group batch uid, ∀ t' ∈ group batch uid, metricVal metric t = metricVal metric t'

instance (metric : String) (batch : List (Trajectory υ)) (uid : υ) : Decidable (Dropped metric batch uid) :=
  inferInstanceAs (Decidable (_ ∧ _))

variable {metric : String} {batch : List (Trajectory υ)} {metricVals : Dict υ (List ℚ)}

/-- The rewards of a group, out of those of the batch. -/
theorem mapM_group (h : List.Forall₂ (fun t val => metricVal metric t = .ok val) batch vals) (uid : υ) :
    (group batch uid).mapM (metricVal metric) =
      .ok ((((batch.map Trajectory.uid).zip vals).filter fun e => decide (e.1 = uid)).map Prod.snd) := by
  rw [mapM_eq_ok]
  unfold group
  induction h with
  | nil => exact .nil
  | @cons t val batch vals hval _ ih =>
    rw [List.map_cons, List.zip_cons_cons]
    by_cases ht : t.uid = uid
    · rw [List.filter_cons_of_pos (by simpa using ht), List.filter_cons_of_pos (by simpa using ht)]
      exact .cons hval ih
    · rw [List.filter_cons_of_neg (by simpa using ht), List.filter_cons_of_neg (by simpa using ht)]
      exact ih

/-- The keys are the prompts of the batch, and under each stand the rewards of its group. -/
theorem promptUid2MetricVals_eq_ok (h : promptUid2MetricVals metric batch = .ok metricVals) :
    (∀ uid, uid ∈ metricVals.keys ↔ uid ∈ batch.map Trajectory.uid) ∧
      ∀ uid ∈ batch.map Trajectory.uid, ∃ vals, metricVals.get? uid = some vals ∧
        (group batch uid).mapM (metricVal metric) = .ok vals := by
  obtain ⟨vals, hvals, h⟩ := bind_eq_ok.mp h
  cases h
  have hforall := mapM_eq_ok.mp hvals
  have hfst : ((batch.map Trajectory.uid).zip vals).map Prod.fst = batch.map Trajectory.uid := by
    apply List.map_fst_zip
    rw [List.length_map, hforall.length_eq]
  constructor
  · intro uid
    rw [Dict.mem_keys_groupBy, hfst]
  · intro uid huid
    rw [← hfst] at huid
    exact ⟨_, Dict.get?_groupBy_of_mem huid, mapM_group hforall uid⟩

/-- All values are equal exactly if the standard deviation is 0. -/
theorem not_npStd_pos (hne : vals ≠ []) : ¬ 0 < npStd vals ↔ ∀ x ∈ vals, ∀ y ∈ vals, x = y := by
  have hpos : (0 : ℚ) < vals.length := Nat.cast_pos.mpr (List.length_pos_iff.mpr hne)
  rw [npStd_pos, div_pos_iff_of_pos_right hpos, ← forall_eq_mean, ← squaredDeviations_eq_zero]
  constructor
  · intro h
    exact le_antisymm (not_lt.mp h) (squaredDeviations_nonneg vals)
  · intro h
    exact not_lt.mpr h.le

theorem dropped_iff {uid : υ} (huid : uid ∈ batch.map Trajectory.uid)
    (h : (group batch uid).mapM (metricVal metric) = .ok vals) :
    Dropped metric batch uid ↔ ¬ (0 < npStd vals ∨ vals.length = 1) := by
  have hforall := mapM_eq_ok.mp h
  have hpos : 0 < (group batch uid).length := by
    obtain ⟨t, ht, htuid⟩ := List.mem_map.mp huid
    exact List.length_pos_of_mem (List.mem_filter.mpr ⟨ht, decide_eq_true htuid⟩)
  have hlength := hforall.length_eq
  have hne : vals ≠ [] := List.ne_nil_of_length_pos (hlength ▸ hpos)
  have hequal : (∀ t ∈ group batch uid, ∀ t' ∈ group batch uid, metricVal metric t = metricVal metric t') ↔
      ∀ x ∈ vals, ∀ y ∈ vals, x = y := by
    constructor
    · intro hsame x hx y hy
      obtain ⟨t, ht, htx⟩ := exists_of_mem_of_forall₂ hforall hx
      obtain ⟨t', ht', hty⟩ := exists_of_mem_of_forall₂ hforall hy
      exact Except.ok.inj (htx.symm.trans ((hsame t ht t' ht').trans hty))
    · intro hsame t ht t' ht'
      obtain ⟨x, hx, htx⟩ := exists_of_mem_of_forall₂ (R := fun x t => metricVal metric t = .ok x) hforall.flip ht
      obtain ⟨y, hy, hty⟩ := exists_of_mem_of_forall₂ (R := fun x t => metricVal metric t = .ok x) hforall.flip ht'
      rw [htx, hty, hsame x hx y hy]
  unfold Dropped
  rw [hequal, not_or, not_npStd_pos hne]
  constructor
  · rintro ⟨hmany, hsame⟩
    exact ⟨hsame, by omega⟩
  · rintro ⟨hsame, hmany⟩
    exact ⟨by omega, hsame⟩

/-- A prompt is kept exactly if it is in the batch and not to be dropped. -/
theorem mem_keptPromptUids (h : promptUid2MetricVals metric batch = .ok metricVals) {uid : υ} :
    uid ∈ keptPromptUids metricVals ↔ uid ∈ batch.map Trajectory.uid ∧ ¬ Dropped metric batch uid := by
  obtain ⟨hkeys, hvals⟩ := promptUid2MetricVals_eq_ok h
  have hmem : uid ∈ keptPromptUids metricVals ↔
      ∃ vals, metricVals.get? uid = some vals ∧ (0 < npStd vals ∨ vals.length = 1) := by
    unfold keptPromptUids
    rw [List.mem_map]
    constructor
    · rintro ⟨e, he, rfl⟩
      obtain ⟨hin, hkept⟩ := List.mem_filter.mp he
      exact ⟨e.2, Dict.get?_eq_some.mpr hin, of_decide_eq_true hkept⟩
    · rintro ⟨vals, hget, hkept⟩
      exact ⟨(uid, vals), List.mem_filter.mpr ⟨Dict.get?_eq_some.mp hget, decide_eq_true hkept⟩, rfl⟩
  rw [hmem]
  constructor
  · rintro ⟨vals, hget, hkept⟩
    have huid : uid ∈ batch.map Trajectory.uid := by
      rw [← hkeys, ← Dict.isSome_get?, hget]
      rfl
    obtain ⟨vals', hget', hgroup⟩ := hvals uid huid
    rw [hget, Option.some.injEq] at hget'
    subst hget'
    exact ⟨huid, fun hdropped => (dropped_iff huid hgroup).mp hdropped hkept⟩
  · rintro ⟨huid, hkept⟩
    obtain ⟨vals, hget, hgroup⟩ := hvals uid huid
    rw [dropped_iff huid hgroup, not_not] at hkept
    exact ⟨vals, hget, hkept⟩

section

omit [DecidableEq υ]

theorem nodup_keptPromptUids (metricVals : Dict υ (List ℚ)) : (keptPromptUids metricVals).Nodup :=
  metricVals.nodup.sublist (List.filter_sublist.map Prod.fst)

/-! ## The filtered batch -/

theorem sortedPromptUids_perm {config : FilterGroupsConfig} {shuffle : Shuffle υ} {acc : υ → ℚ} {kept sorted : List υ}
    (h : sortedPromptUids config shuffle acc kept = .ok sorted) : sorted.Perm kept := by
  unfold sortedPromptUids at h
  split_ifs at h
  · cases h
    exact pySorted_perm _ _ _
  · cases h
    exact pySorted_perm _ _ _
  · exact (arrangeFromCenter_perm h).trans (pySorted_perm _ _ _)
  · cases h
    exact shuffle.perm kept

theorem reorderBatch_perm (config : FilterGroupsConfig) (shuffle : Shuffle Nat) (acc : υ → ℚ)
    (batch : List (Trajectory υ)) : (reorderBatch config shuffle acc batch).Perm batch := by
  unfold reorderBatch
  split_ifs
  · exact filterMap_getElem?_perm (pySorted_perm _ _ _)
  · exact filterMap_getElem?_perm (pySorted_perm _ _ _)
  · exact filterMap_getElem?_perm (shuffle.perm _)
  · exact .refl _

end

/-- How many prompts the padding takes. -/
def numMissing (config : FilterGroupsConfig) (kept : List υ) : Nat :=
  if kept.length % config.ppoMiniBatchSize = 0 then 0
  else config.ppoMiniBatchSize - kept.length % config.ppoMiniBatchSize

omit [DecidableEq υ] in
/-- The padding takes the first prompts of the order, as many as are missing. -/
theorem promptUidsToAdd_eq_ok {config : FilterGroupsConfig} {shuffle : Shuffle υ} {acc : υ → ℚ} {kept toAdd : List υ}
    (h : promptUidsToAdd config shuffle acc kept = .ok toAdd) :
    config.ppoMiniBatchSize ∣ toAdd.length + kept.length ∧ ∃ order : List υ, order.Perm kept ∧
      (∀ uid, uid ∈ toAdd ↔ uid ∈ order.take (numMissing config kept)) ∧
        (numMissing config kept ≠ 0 → sortedPromptUids config shuffle acc kept = .ok order) := by
  unfold promptUidsToAdd at h
  unfold numMissing
  split_ifs at h with hzero hmissing
  · obtain ⟨order, horder, h⟩ := bind_eq_ok.mp h
    obtain ⟨added, hadded, h⟩ := bind_eq_ok.mp h
    obtain ⟨_, -, h⟩ := bind_eq_ok.mp h
    cases h
    have hperm := sortedPromptUids_perm horder
    rw [if_neg hmissing.1]
    rw [← hperm.length_eq] at hmissing ⊢
    obtain ⟨hlength, hmem⟩ := increaseToMinMultiple_eq_ok hmissing.1 hadded
    refine ⟨?_, order, hperm, hmem, fun _ => horder⟩
    have hlt := Nat.mod_lt order.length (Nat.pos_of_ne_zero hzero)
    have hdiv := Nat.div_add_mod order.length config.ppoMiniBatchSize
    refine ⟨order.length / config.ppoMiniBatchSize + 1, ?_⟩
    rw [Nat.mul_add, Nat.mul_one]
    omega
  · cases h
    have hmultiple : kept.length % config.ppoMiniBatchSize = 0 := by
      by_contra hne
      refine hmissing ⟨hne, fun hnil => hne ?_⟩
      rw [hnil]
      exact Nat.zero_mod _
    rw [if_pos hmultiple]
    refine ⟨?_, kept, .refl _, fun uid => ?_, fun hne => absurd rfl hne⟩
    · rw [List.length_nil, Nat.zero_add]
      exact Nat.dvd_of_mod_eq_zero hmultiple
    · rw [List.take_zero]

end Filter

end Yuan.Trainer
