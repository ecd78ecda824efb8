import Mathlib.Tactic.FieldSimp
import Yuan.Reward.ExternalModel

/-!
# The reward of a thinking process

`process_scoring` rewards a text in which the first answer and the verifications behind it are marked. A text
that ends at its first answer is scored as its answer is; otherwise each verification costs, from `v_exp` on
and up to `v_max`.

The penalty of the verifications grows with their number. That is not enough for an order of the texts: a text
that ends at its first answer is not compared with the others by its verifications.
-/

namespace Yuan.Reward

/-! ## Texts -/

/-- The characters that `str.strip` removes. -/
def isSpace (c : Char) : Bool :=
  let n := c.toNat
  (9 ≤ n && n ≤ 13) || (28 ≤ n && n ≤ 32) || n = 0x85 || n = 0xa0 || n = 0x1680 || (0x2000 ≤ n && n ≤ 0x200a) ||
    n = 0x2028 || n = 0x2029 || n = 0x202f || n = 0x205f || n = 0x3000

/-- `text.strip()`. -/
def strip (text : List Char) : List Char :=
  ((text.dropWhile isSpace).reverse.dropWhile isSpace).reverse

/-- The occurrences of `sub` that do not overlap, behind the next `skip` characters. -/
def countFrom (sub : List Char) : Nat → List Char → Nat
  | _, [] => 0
  | skip + 1, _ :: rest => countFrom sub skip rest
  | 0, c :: rest =>
    if sub <+: c :: rest then 1 + countFrom sub (sub.length - 1) rest else countFrom sub 0 rest

/-- `text.count(sub)`, where `sub` is not empty. -/
def count (text sub : List Char) : Nat := countFrom sub 0 text

example : count "a</v></v>b</v".toList "</v>".toList = 2 := by decide

/-! ## The scores -/

def firstAnswer : List Char := "<1st_answer>".toList

def verifyEnd : List Char := "</verify>".toList

/-- What `process_scoring` reads of an output of `process_line`. -/
structure RewardOutput where
  accScore : ℚ
  format : ℚ
  langConsistencyRatio : ℚ
  repetitionPenalty : ℚ
  sftThinkTextFinal : List Char
  deriving DecidableEq

/-- `verify_score`. -/
def verifyScore (markedTxt : List Char) (accScore vExp vMax : ℚ) : ℚ :=
  let v : ℚ := count markedTxt verifyEnd
  if v = 0 ∧ accScore < 0 ∧ ¬ firstAnswer <:+: markedTxt then -1
  else if accScore > 0 then
    if v ≤ vExp then 1
    else if vExp < v ∧ v ≤ vMax then 1 - (v - vExp) / (vMax - vExp)
    else 0
  else
    if v ≤ vExp then 0
    else if vExp < v ∧ v ≤ vMax then -((v - vExp) / (vMax - vExp))
    else -1

/-- The test for the branch that gives the verifications the score of the answer. -/
def RewardOutput.endsAtAnswer (output : RewardOutput) : Prop :=
  firstAnswer <:+ strip output.sftThinkTextFinal

instance (output : RewardOutput) : Decidable output.endsAtAnswer :=
  inferInstanceAs (Decidable (firstAnswer <:+ strip output.sftThinkTextFinal))

/-- `process_scoring`: the reward, and the scores of the first answer, the verifications and the answer. -/
def processScoring (output : RewardOutput) (vExp vMax : ℚ) : ℚ × List ℚ :=
  let accScore := output.accScore
  let rSide : ℚ :=
    if [decide (output.format < 0), decide (output.langConsistencyRatio < 0),
      decide (output.repetitionPenalty < 0)].any id then -1 else 0
  let markedTxt := output.sftThinkTextFinal
  let rTri :=
    if ¬ firstAnswer <:+: markedTxt then [-1, -1, -1]
    else if output.endsAtAnswer then [1, accScore, accScore]
    else [1, verifyScore markedTxt accScore vExp vMax, accScore]
  (rTri.sum + rSide, rTri)

/-! ## The penalty of the verifications -/

/-- What `v` verifications cost. -/
def verifyPenalty (v vExp vMax : ℚ) : ℚ :=
  if v ≤ vExp then 0 else if v ≤ vMax then (v - vExp) / (vMax - vExp) else 1

section Penalty

variable {v w vExp vMax : ℚ}

theorem verifyPenalty_nonneg (v : ℚ) (hlt : vExp < vMax) : 0 ≤ verifyPenalty v vExp vMax := by
  unfold verifyPenalty
  split_ifs with h h'
  · exact le_rfl
  · apply div_nonneg <;> linarith
  · exact zero_le_one

theorem verifyPenalty_le_one (v : ℚ) (hlt : vExp < vMax) : verifyPenalty v vExp vMax ≤ 1 := by
  unfold verifyPenalty
  split_ifs with h h'
  · exact zero_le_one
  · rw [div_le_one₀ (by linarith)]
    linarith
  · exact le_rfl

theorem verifyPenalty_mono (hlt : vExp < vMax) (hvw : v ≤ w) :
    verifyPenalty v vExp vMax ≤ verifyPenalty w vExp vMax := by
  by_cases hv : v ≤ vExp
  · have hzero : verifyPenalty v vExp vMax = 0 := if_pos hv
    rw [hzero]
    exact verifyPenalty_nonneg w hlt
  · by_cases hw : w ≤ vMax
    · -- both are on the slope
      unfold verifyPenalty
      rw [if_neg hv, if_pos (by linarith), if_neg (by linarith), if_pos hw]
      apply div_le_div_of_nonneg_right <;> linarith
    · have hone : verifyPenalty w vExp vMax = 1 := by
        unfold verifyPenalty
        rw [if_neg (by linarith), if_neg hw]
      rw [hone]
      exact verifyPenalty_le_one v hlt

theorem verifyPenalty_eq_zero_iff (hlt : vExp < vMax) : verifyPenalty v vExp vMax = 0 ↔ v ≤ vExp := by
  unfold verifyPenalty
  split_ifs with h h'
  · exact iff_of_true rfl h
  · apply iff_of_false _ h
    apply ne_of_gt
    apply div_pos <;> linarith
  · exact iff_of_false one_ne_zero h

theorem verifyPenalty_eq_one_iff (hlt : vExp < vMax) : verifyPenalty v vExp vMax = 1 ↔ vMax ≤ v := by
  unfold verifyPenalty
  split_ifs with h h'
  · exact iff_of_false zero_ne_one (by linarith)
  · rw [div_eq_one_iff_eq (by linarith)]
    constructor <;> intro <;> linarith
  · exact iff_of_true rfl (by linarith)

end Penalty

/-- The number of verifications. -/
def RewardOutput.reflections (output : RewardOutput) : Nat := count output.sftThinkTextFinal verifyEnd

/-- The score of a correct answer less the penalty; a wrong answer has the penalty only. -/
theorem verifyScore_eq {output : RewardOutput} (hmarked : firstAnswer <:+: output.sftThinkTextFinal) (vExp vMax : ℚ) :
    verifyScore output.sftThinkTextFinal output.accScore vExp vMax =
      (if 0 < output.accScore then 1 else 0) - verifyPenalty output.reflections vExp vMax := by
  unfold verifyScore verifyPenalty RewardOutput.reflections
  split_ifs <;> grind

/-- The score of the verifications. -/
def RewardOutput.verifyReward (output : RewardOutput) (vExp vMax : ℚ) : ℚ :=
  if output.endsAtAnswer then output.accScore
  else (if 0 < output.accScore then 1 else 0) - verifyPenalty output.reflections vExp vMax

/-- The penalties of format, language and repetition. -/
def RewardOutput.sideReward (output : RewardOutput) : ℚ :=
  if output.format < 0 ∨ output.langConsistencyRatio < 0 ∨ output.repetitionPenalty < 0 then -1 else 0

theorem processScoring_reward {output : RewardOutput} (hmarked : firstAnswer <:+: output.sftThinkTextFinal)
    (vExp vMax : ℚ) :
    (processScoring output vExp vMax).1 = 1 + output.verifyReward vExp vMax + output.accScore + output.sideReward := by
  have hside : ([decide (output.format < 0), decide (output.langConsistencyRatio < 0),
      decide (output.repetitionPenalty < 0)].any id) = true ↔
      output.format < 0 ∨ output.langConsistencyRatio < 0 ∨ output.repetitionPenalty < 0 := by
    simp
  unfold processScoring RewardOutput.verifyReward RewardOutput.sideReward
  simp only [hmarked, not_true_eq_false, if_false, hside]
  by_cases hend : output.endsAtAnswer
  · simp only [if_pos hend, List.sum_cons, List.sum_nil]
    ring
  · simp only [if_neg hend, List.sum_cons, List.sum_nil, verifyScore_eq hmarked]
    ring

/-! ## The order of two texts -/

/-- The two texts have their first answers marked, and are told apart by verifications and answers only. -/
structure Comparable (a b : RewardOutput) : Prop where
  marked_left : firstAnswer <:+: a.sftThinkTextFinal
  marked_right : firstAnswer <:+: b.sftThinkTextFinal
  format : a.format = b.format
  language : a.langConsistencyRatio = b.langConsistencyRatio
  repetition : a.repetitionPenalty = b.repetitionPenalty
  scored_left : a.accScore = 1 ∨ a.accScore = -1
  scored_right : b.accScore = 1 ∨ b.accScore = -1

/-- The rewards of two texts are in the order that the mechanism is described by. -/
structure OrdersAsDocumented (vExp vMax : ℚ) (a b : RewardOutput) : Prop where
  fewer : a.accScore = b.accScore → a.reflections ≤ b.reflections →
    (processScoring b vExp vMax).1 ≤ (processScoring a vExp vMax).1
  correct : a.accScore = 1 → b.accScore = -1 → (processScoring b vExp vMax).1 ≤ (processScoring a vExp vMax).1

/-- Of two texts with equally correct answers, the first with no more verifications: where only the second of two
correct ones ends at its first answer, the first is not penalised; where only the first of two wrong ones does,
the second has the full penalty. -/
structure EndsMatch (vExp vMax : ℚ) (a b : RewardOutput) : Prop where
  correct : a.accScore = 1 → b.endsAtAnswer → a.endsAtAnswer ∨ (a.reflections : ℚ) ≤ vExp
  wrong : a.accScore = -1 → a.endsAtAnswer → b.endsAtAnswer ∨ vMax ≤ b.reflections

section Order

variable {vExp vMax : ℚ} {a b : RewardOutput}

theorem Comparable.sideReward (h : Comparable a b) : a.sideReward = b.sideReward := by
  unfold RewardOutput.sideReward
  rw [h.format, h.language, h.repetition]

theorem Comparable.reward_le_iff (h : Comparable a b) (hacc : a.accScore = b.accScore) :
    (processScoring b vExp vMax).1 ≤ (processScoring a vExp vMax).1 ↔
      b.verifyReward vExp vMax ≤ a.verifyReward vExp vMax := by
  rw [processScoring_reward h.marked_left, processScoring_reward h.marked_right, h.sideReward]
  constructor <;> intro <;> linarith

theorem verifyReward_correct (hacc : a.accScore = 1) :
    a.verifyReward vExp vMax =
      if a.endsAtAnswer then 1 else 1 - verifyPenalty a.reflections vExp vMax := by
  unfold RewardOutput.verifyReward
  rw [hacc, if_pos one_pos]

theorem verifyReward_wrong (hacc : a.accScore = -1) :
    a.verifyReward vExp vMax =
      if a.endsAtAnswer then -1 else - verifyPenalty a.reflections vExp vMax := by
  unfold RewardOutput.verifyReward
  rw [hacc, if_neg (show ¬ (0 : ℚ) < -1 by norm_num), zero_sub]

theorem verifyReward_correct_nonneg (hlt : vExp < vMax) (hacc : a.accScore = 1) : 0 ≤ a.verifyReward vExp vMax := by
  have hle := verifyPenalty_le_one a.reflections hlt
  rw [verifyReward_correct hacc]
  split_ifs <;> linarith

theorem verifyReward_wrong_nonpos (hlt : vExp < vMax) (hacc : a.accScore = -1) : a.verifyReward vExp vMax ≤ 0 := by
  have hle := verifyPenalty_nonneg a.reflections hlt
  rw [verifyReward_wrong hacc]
  split_ifs <;> linarith

/-- Two correct answers. -/
theorem verifyReward_le_iff_correct (hlt : vExp < vMax) (ha : a.accScore = 1) (hb : b.accScore = 1)
    (hle : a.reflections ≤ b.reflections) :
    b.verifyReward vExp vMax ≤ a.verifyReward vExp vMax ↔
      (b.endsAtAnswer → a.endsAtAnswer ∨ (a.reflections : ℚ) ≤ vExp) := by
  have hmono : verifyPenalty a.reflections vExp vMax ≤ verifyPenalty b.reflections vExp vMax :=
    verifyPenalty_mono hlt (by exact_mod_cast hle)
  have hnonneg := verifyPenalty_nonneg a.reflections hlt
  have hzero := verifyPenalty_eq_zero_iff (v := (a.reflections : ℚ)) hlt
  rw [verifyReward_correct ha, verifyReward_correct hb]
  by_cases hend : a.endsAtAnswer <;> by_cases hend' : b.endsAtAnswer
  · simp only [hend, hend', if_true, le_refl, true_or, implies_true]
  · simp only [hend, hend', if_true, if_false, true_or, implies_true, iff_true]
    linarith
  · -- only the second ends at its first answer: it has the full score
    simp only [hend, hend', if_true, if_false, false_or, true_implies]
    rw [← hzero]
    constructor <;> intro <;> linarith
  · simp only [hend, hend', if_false, false_implies, iff_true]
    linarith

/-- Two wrong answers. -/
theorem verifyReward_le_iff_wrong (hlt : vExp < vMax) (ha : a.accScore = -1) (hb : b.accScore = -1)
    (hle : a.reflections ≤ b.reflections) :
    b.verifyReward vExp vMax ≤ a.verifyReward vExp vMax ↔ (a.endsAtAnswer → b.endsAtAnswer ∨ vMax ≤ b.reflections) := by
  have hmono : verifyPenalty a.reflections vExp vMax ≤ verifyPenalty b.reflections vExp vMax :=
    verifyPenalty_mono hlt (by exact_mod_cast hle)
  have hone'' := verifyPenalty_le_one b.reflections hlt
  have hone := verifyPenalty_eq_one_iff (v := (b.reflections : ℚ)) hlt
  rw [verifyReward_wrong ha, verifyReward_wrong hb]
  by_cases hend : a.endsAtAnswer <;> by_cases hend' : b.endsAtAnswer
  · simp only [hend, hend', if_true, le_refl, true_or, implies_true]
  · -- only the first ends at its first answer: it has the lowest score
    simp only [hend, hend', if_true, if_false, false_or, true_implies]
    rw [← hone]
    constructor <;> intro <;> linarith
  · simp only [hend, hend', if_true, if_false, false_implies, iff_true]
    linarith
  · simp only [hend, hend', if_false, false_implies, iff_true]
    linarith

/-- A correct answer never scores below a wrong one. -/
theorem Comparable.correct_le (h : Comparable a b) (hlt : vExp < vMax) (ha : a.accScore = 1) (hb : b.accScore = -1) :
    (processScoring b vExp vMax).1 ≤ (processScoring a vExp vMax).1 := by
  have hnonneg := verifyReward_correct_nonneg hlt ha
  have hnonpos := verifyReward_wrong_nonpos hlt hb
  rw [processScoring_reward h.marked_left, processScoring_reward h.marked_right, h.sideReward, ha]
  linarith

/-- The rewards of two texts are ordered as described exactly if their ends match. -/
theorem orders_as_documented_iff (hlt : vExp < vMax) (h : Comparable a b) :
    OrdersAsDocumented vExp vMax a b ↔
      (a.accScore = b.accScore → a.reflections ≤ b.reflections → EndsMatch vExp vMax a b) := by
  constructor
  · intro horders hacc hle
    have hreward := (h.reward_le_iff hacc).mp (horders.fewer hacc hle)
    exact {
      correct := fun ha => (verifyReward_le_iff_correct hlt ha (hacc ▸ ha) hle).mp hreward
      wrong := fun ha => (verifyReward_le_iff_wrong hlt ha (hacc ▸ ha) hle).mp hreward }
  · intro hends
    refine ⟨fun hacc hle => ?_, h.correct_le hlt⟩
    rw [h.reward_le_iff hacc]
    rcases h.scored_left with ha | ha
    · exact (verifyReward_le_iff_correct hlt ha (hacc ▸ ha) hle).mpr ((hends hacc hle).correct ha)
    · exact (verifyReward_le_iff_wrong hlt ha (hacc ▸ ha) hle).mpr ((hends hacc hle).wrong ha)

end Order

/-- A wrong answer without penalties and the text it is marked in. -/
def wrongAnswer (markedTxt : String) : RewardOutput :=
  { accScore := -1, format := 0, langConsistencyRatio := 0, repetitionPenalty := 0,
    sftThinkTextFinal := markedTxt.toList }

theorem comparable_wrongAnswer {s t : String} (hs : firstAnswer <:+: s.toList) (ht : firstAnswer <:+: t.toList) :
    Comparable (wrongAnswer s) (wrongAnswer t) :=
  ⟨hs, ht, rfl, rfl, rfl, .inr rfl, .inr rfl⟩

/-- Two wrong answers that are both verified, the second more often. -/
theorem orders_as_documented_iff_verified :
    OrdersAsDocumented 0 3 (wrongAnswer "4<1st_answer>so</verify>.")
      (wrongAnswer "4<1st_answer>so</verify>or</verify>.") :=
  (orders_as_documented_iff (by norm_num) (comparable_wrongAnswer (by decide) (by decide))).mpr fun _ _ =>
    { correct := fun h => absurd h (by decide)
      wrong := fun _ hend => absurd hend (by decide) }

/-- A wrong text that ends at its first answer scores below one that goes on to a verification. -/
theorem orders_as_documented_fails :
    ¬ ∀ (vExp vMax : ℚ) (a b : RewardOutput), vExp < vMax → Comparable a b → OrdersAsDocumented vExp vMax a b := by
  intro h
  have horders := h 0 3 (wrongAnswer "4<1st_answer>") (wrongAnswer "4<1st_answer>so</verify>.") (by norm_num)
    (comparable_wrongAnswer (by decide) (by decide))
  have hle := horders.fewer rfl (by decide)
  exact absurd hle (by decide +kernel)

end Yuan.Reward
