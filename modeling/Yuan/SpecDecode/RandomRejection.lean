import Yuan.SpecDecode.RejectionKernels
import Yuan.Lib.RejectionLaw
import Mathlib.Data.List.GetD

/-!
# Random rejection sampling keeps the target distribution

The random kernel keeps a draft token with probability `min(1, p / q)` and else takes the recovered token. When the
draft token is drawn from `q` and the recovered token in proportion to the score of the recovery kernel, the token
emitted at the first position of a request has the target distribution `p`.
-/

namespace Yuan.SpecDecode

/-- The arguments of the random kernel, with the shapes that `rejection_sample` gives them. -/
structure RandomBatch (vocabSize : Nat) (K : Type) where
  drafts : List (List Int)
  draftProbs : Option (List K)
  targetProbs : List K
  bonusTokenIds : List Int
  recoveredTokenIds : List Int
  uniformProbs : List K
  isGreedy : List Bool
  maxSpecLen : Nat
  /-- The rows of the output before the program runs. -/
  rows : List (List Int)
  drafts_mem : ∀ draft ∈ drafts, ∀ id ∈ draft, 0 ≤ id ∧ id < vocabSize
  drafts_length : ∀ draft ∈ drafts, draft.length ≤ maxSpecLen
  draftProbs_length : ∀ probs, draftProbs = some probs → probs.length = drafts.flatten.length * vocabSize
  targetProbs_length : targetProbs.length = drafts.flatten.length * vocabSize
  bonusTokenIds_length : bonusTokenIds.length = drafts.length
  recoveredTokenIds_length : recoveredTokenIds.length = drafts.flatten.length
  uniformProbs_length : uniformProbs.length = drafts.flatten.length
  isGreedy_length : isGreedy.length = drafts.length
  rows_length : rows.length = drafts.length
  rows_grid : Grid (maxSpecLen + 1) rows

namespace RandomBatch

variable {vocabSize : Nat} {K : Type} [Field K] [LinearOrder K] (b : RandomBatch vocabSize K)

/-- The program of a request. -/
def program (reqIdx : Nat) (output : List Int) : Option (List Int) :=
  rejectionRandomSampleKernel (cumsum (b.drafts.map List.length)) b.drafts.flatten b.draftProbs b.targetProbs
    b.bonusTokenIds b.recoveredTokenIds b.uniformProbs b.isGreedy b.maxSpecLen vocabSize reqIdx output

/-- The token of one position, and whether its draft is rejected. -/
def choice (tokenIdx : Nat) : Option (Int × Bool) :=
  chooseRandom b.drafts.flatten b.draftProbs b.targetProbs b.recoveredTokenIds b.uniformProbs vocabSize tokenIdx

/-- The token that a program leaves at the first position of its request. -/
def firstToken (reqIdx : Nat) : Option Int := do
  load (← b.program reqIdx b.rows.flatten) (reqIdx * (b.maxSpecLen + 1))

omit [Field K] [LinearOrder K] in
theorem loadProb_isSome {probs : List K} {numTokens tokenIdx : Nat} {id : Int}
    (hprobs : probs.length = numTokens * vocabSize) (hidx : tokenIdx < numTokens) (hid : 0 ≤ id ∧ id < vocabSize) :
    ∃ prob, loadProb probs vocabSize tokenIdx id = some prob := by
  have hnat : id.toNat? = some id.toNat := by
    obtain ⟨n, rfl⟩ := Int.eq_ofNat_of_zero_le hid.1
    rfl
  have hlt : tokenIdx * vocabSize + id.toNat < probs.length := by
    rw [hprobs]
    calc tokenIdx * vocabSize + id.toNat < tokenIdx * vocabSize + vocabSize := by omega
      _ = (tokenIdx + 1) * vocabSize := by ring
      _ ≤ numTokens * vocabSize := Nat.mul_le_mul_right _ hidx
  exact ⟨probs[tokenIdx * vocabSize + id.toNat], by
    rw [loadProb, hnat]
    exact List.getElem?_eq_getElem hlt⟩

/-- No position of the batch makes the kernel fault. -/
theorem choice_isSome {tokenIdx : Nat} (hidx : tokenIdx < b.drafts.flatten.length) :
    ∃ c, b.choice tokenIdx = some c := by
  have hdraft : b.drafts.flatten[tokenIdx]? = some b.drafts.flatten[tokenIdx] := List.getElem?_eq_getElem hidx
  generalize b.drafts.flatten[tokenIdx] = id at hdraft
  obtain ⟨draft, hmem, hid⟩ := List.mem_flatten.mp (List.mem_of_getElem? hdraft)
  have hid := b.drafts_mem draft hmem id hid
  have hdraftProb : ∃ q, b.draftProbs.elim (some 1) (fun probs => loadProb probs vocabSize tokenIdx id) = some q := by
    cases hprobs : b.draftProbs with
    | none => exact ⟨1, rfl⟩
    | some probs => exact loadProb_isSome (b.draftProbs_length probs hprobs) hidx hid
  obtain ⟨q, hq⟩ := hdraftProb
  obtain ⟨p, hp⟩ := loadProb_isSome b.targetProbs_length hidx hid
  obtain ⟨u, hu⟩ : ∃ u, load b.uniformProbs tokenIdx = some u :=
    ⟨_, List.getElem?_eq_getElem (b.uniformProbs_length.symm ▸ hidx)⟩
  obtain ⟨ρ, hr⟩ : ∃ ρ, load b.recoveredTokenIds tokenIdx = some ρ :=
    ⟨_, List.getElem?_eq_getElem (b.recoveredTokenIds_length.symm ▸ hidx)⟩
  rw [choice, chooseRandom, load, hdraft]
  simp only [Option.bind_eq_bind, Option.bind_some, hq, hp, hu, hr]
  split <;> exact ⟨_, rfl⟩

/-- The choices at the drafts of a request. -/
def choices (reqIdx : Nat) (draft : List Int) : List (Int × Bool) :=
  (List.range draft.length).map fun pos => (b.choice (rowStart b.drafts reqIdx + pos)).getD (0, false)

theorem choices_length (reqIdx : Nat) (draft : List Int) : (b.choices reqIdx draft).length = draft.length := by
  rw [choices, List.length_map, List.length_range]

variable {b} {reqIdx : Nat} {draft : List Int}

omit [Field K] [LinearOrder K] in
theorem rowStart_add_lt (hdraft : b.drafts[reqIdx]? = some draft) {pos : Nat} (hpos : pos < draft.length) :
    rowStart b.drafts reqIdx + pos < b.drafts.flatten.length := by
  have h := getElem?_flatten hdraft hpos
  rw [List.getElem?_eq_getElem hpos] at h
  exact (List.getElem?_eq_some_iff.mp h).1

theorem choices_getElem? (hdraft : b.drafts[reqIdx]? = some draft) {pos : Nat} {c : Int × Bool}
    (h : (b.choices reqIdx draft)[pos]? = some c) : b.choice (rowStart b.drafts reqIdx + pos) = some c := by
  have hpos : pos < draft.length := by simpa [choices] using (List.getElem?_eq_some_iff.mp h).1
  obtain ⟨c', hc'⟩ := b.choice_isSome (rowStart_add_lt hdraft hpos)
  have hget : (b.choices reqIdx draft)[pos]? = some c' := by simp [choices, hpos, hc']
  rw [hc', ← hget, h]

/-- The program of a random request writes its tokens over its row. -/
theorem program_eq (hrandom : b.isGreedy[reqIdx]? = some false) (hdraft : b.drafts[reqIdx]? = some draft) :
    ∃ row bonus, b.program reqIdx b.rows.flatten =
      some (b.rows.set reqIdx (overwrite row (emitted (b.choices reqIdx draft) bonus))).flatten ∧
      b.rows[reqIdx]? = some row := by
  have hreq : reqIdx < b.drafts.length := (List.getElem?_eq_some_iff.mp hdraft).1
  obtain ⟨bonus, hbonus⟩ : ∃ bonus, load b.bonusTokenIds reqIdx = some bonus :=
    ⟨_, List.getElem?_eq_getElem (b.bonusTokenIds_length.symm ▸ hreq)⟩
  obtain ⟨row, hrow⟩ : ∃ row, b.rows[reqIdx]? = some row :=
    ⟨_, List.getElem?_eq_getElem (b.rows_length.symm ▸ hreq)⟩
  have hchosen := b.choices_length reqIdx draft
  have hfit := b.drafts_length draft (List.mem_of_getElem? hdraft)
  refine ⟨row, bonus, ?_, hrow⟩
  rw [program, rejectionRandomSampleKernel, load, hrandom, draftRange_cumsum hdraft, hbonus]
  simp only [Option.bind_eq_bind, Option.bind_some, Nat.add_sub_cancel_left]
  rw [← hchosen]
  exact sampleRequest_eq b.rows_grid hrow (by omega) fun pos c hc => choices_getElem? hdraft hc

/-- The first token of a random request with drafts is the choice at its first draft. -/
theorem firstToken_eq {id : Int} {draft : List Int} (hrandom : b.isGreedy[reqIdx]? = some false)
    (hdraft : b.drafts[reqIdx]? = some (id :: draft)) {c : Int × Bool}
    (hc : b.choice (rowStart b.drafts reqIdx) = some c) : b.firstToken reqIdx = some c.1 := by
  obtain ⟨row, bonus, hprogram, hrow⟩ := program_eq hrandom hdraft
  obtain ⟨chosen, hchosen⟩ : ∃ chosen, b.choices reqIdx (id :: draft) = c :: chosen := by
    rw [choices, List.length_cons, List.range_succ_eq_map, List.map_cons, Nat.add_zero, hc]
    exact ⟨_, rfl⟩
  have hlength : (overwrite row (emitted (b.choices reqIdx (id :: draft)) bonus)).length = b.maxSpecLen + 1 := by
    have hfit := b.drafts_length _ (List.mem_of_getElem? hdraft)
    have hemitted := emitted_length_le (b.choices reqIdx (id :: draft)) bonus
    have hwidth := b.rows_grid row (List.mem_of_getElem? hrow)
    rw [choices_length] at hemitted
    rw [overwrite_length (by omega), hwidth]
  have hset := List.getElem?_set_self (List.getElem?_eq_some_iff.mp hrow).1
    (a := overwrite row (emitted (b.choices reqIdx (id :: draft)) bonus))
  have hload := (b.rows_grid.set hlength).load hset (Nat.succ_pos b.maxSpecLen)
  rw [firstToken, hprogram]
  refine hload.trans ?_
  rw [hchosen]
  rfl

end RandomBatch

/-! ## The law of the first token -/

/-- Nonnegative weights with sum 1. -/
structure Distribution {V : Nat} (p : Fin V → ℝ) : Prop where
  nonneg : ∀ v, 0 ≤ p v
  sum : ∑ v, p v = 1

section Law

variable {V : Nat} {p : Fin V → ℝ} {q : Option (Fin V → ℝ)}

/-- The score of token `v` in the recovery after draft `d`. -/
noncomputable def score (p : Fin V → ℝ) (q : Option (Fin V → ℝ)) (d v : Fin V) : ℝ :=
  q.elim (if v = d then 0 else p v) fun q => max (p v - q v) 0

/-- In this batch the request has draft `d`, uniform value `u` and recovered token `ρ` at its first position, where
the target has the probabilities `p` and the draft model the probabilities `q`, if any. -/
structure DrawnAt (b : RandomBatch V ℝ) (reqIdx : Nat) (p : Fin V → ℝ) (q : Option (Fin V → ℝ)) (d : Fin V) (u : ℝ)
    (ρ : Fin V) : Prop where
  draft : ∃ draft, b.drafts[reqIdx]? = some ((d.val : Int) :: draft)
  random : b.isGreedy[reqIdx]? = some false
  uniform : b.uniformProbs[rowStart b.drafts reqIdx]? = some u
  recovered : b.recoveredTokenIds[rowStart b.drafts reqIdx]? = some (ρ.val : Int)
  target : ∀ v : Fin V, b.targetProbs[rowStart b.drafts reqIdx * V + v.val]? = some (p v)
  noDraftProbs : q = none → b.draftProbs = none
  draftProbs : ∀ q', q = some q' → ∃ probs, b.draftProbs = some probs ∧
    ∀ v : Fin V, probs[rowStart b.drafts reqIdx * V + v.val]? = some (q' v)

/-- `draft_prob`, with its value without draft probabilities. -/
noncomputable def draftProb (q : Option (Fin V → ℝ)) (d : Fin V) : ℝ := q.elim 1 fun q => q d

namespace DrawnAt

variable {b : RandomBatch V ℝ} {reqIdx : Nat} {d ρ : Fin V} {u : ℝ}

section

variable (h : DrawnAt b reqIdx p q d u ρ)
include h

theorem load_draft : load b.drafts.flatten (rowStart b.drafts reqIdx) = some (d.val : Int) := by
  obtain ⟨draft, hdraft⟩ := h.draft
  have hpos : 0 < ((d.val : Int) :: draft).length := Nat.succ_pos _
  have hget := getElem?_flatten hdraft hpos
  rw [Nat.add_zero] at hget
  rw [load, hget]
  rfl

/-- The draft is kept when it passes the test, and replaced by the recovered token when not. -/
theorem firstToken_eq :
    b.firstToken reqIdx = some (if accepts (draftProb q d) (p d) u then (d.val : Int) else (ρ.val : Int)) := by
  obtain ⟨draft, hdraft⟩ := h.draft
  have hq : b.draftProbs.elim (some 1)
      (fun probs => loadProb probs V (rowStart b.drafts reqIdx) (d.val : Int)) = some (draftProb q d) := by
    cases hq : q with
    | none => rw [h.noDraftProbs hq]; rfl
    | some q' =>
      obtain ⟨probs, hprobs, hload⟩ := h.draftProbs q' hq
      rw [hprobs]
      exact hload d
  have hp : loadProb b.targetProbs V (rowStart b.drafts reqIdx) (d.val : Int) = some (p d) := h.target d
  have hc : b.choice (rowStart b.drafts reqIdx) =
      some (if accepts (draftProb q d) (p d) u then ((d.val : Int), false) else ((ρ.val : Int), true)) := by
    rw [RandomBatch.choice, chooseRandom, h.load_draft]
    simp only [Option.bind_eq_bind, Option.bind_some, hq, hp]
    rw [load, h.uniform, load, h.recovered]
    simp only [Option.bind_some]
    split <;> rfl
  rw [RandomBatch.firstToken_eq h.random hdraft hc]
  split <;> rfl

/-- `score` is what the recovery kernel computes. -/
theorem recoveredProb_eq (v : Fin V) :
    recoveredProb b.drafts.flatten b.draftProbs b.targetProbs V (rowStart b.drafts reqIdx) v.val =
      some (score p q d v) := by
  have hp : load b.targetProbs (rowStart b.drafts reqIdx * V + v.val) = some (p v) := h.target v
  cases hq : q with
  | none =>
    have hsame : ((v.val : Int) = (d.val : Int)) ↔ v = d := by rw [Int.ofNat_inj, Fin.ext_iff]
    rw [h.noDraftProbs hq, recoveredProb]
    simp only [h.load_draft, Option.bind_eq_bind, Option.bind_some, hsame, hp, score]
    split <;> rfl
  | some q' =>
    obtain ⟨probs, hprobs, hload⟩ := h.draftProbs q' hq
    have hload : load probs (rowStart b.drafts reqIdx * V + v.val) = some (q' v) := hload v
    rw [hprobs, recoveredProb]
    simp only [hload, hp]
    rfl

end

end DrawnAt

open MeasureTheory

/-- The probability that a draft is kept. -/
noncomputable def acceptProb (p : Fin V → ℝ) (q : Option (Fin V → ℝ)) (d : Fin V) : ℝ :=
  volume.real {u | u ∈ Set.Ico (0 : ℝ) 1 ∧ u ∈ {u | accepts (draftProb q d) (p d) u = true}}

theorem accepts_eq_true {draftProb targetProb u : ℝ} :
    accepts draftProb targetProb u = true ↔ 0 < draftProb ∧ u ≤ targetProb / draftProb := by
  rw [accepts, decide_eq_true_iff]

theorem measurableSet_accepts (draftProb targetProb : ℝ) :
    MeasurableSet {u | accepts draftProb targetProb u = true} := by
  simp only [accepts_eq_true]
  by_cases h : 0 < draftProb
  · simp only [h, true_and]
    exact measurableSet_Iic
  · simp [h]

theorem acceptProb_eq {d : Fin V} (hp : 0 ≤ p d) :
    acceptProb p q d = if 0 < draftProb q d then min 1 (p d / draftProb q d) else 0 := by
  simp only [acceptProb, accepts_eq_true]
  split
  · rename_i hpos
    simp only [hpos, true_and]
    exact volume_uniform_le (div_nonneg hp hpos.le)
  · rename_i hpos
    simp [hpos]

/-- The law of the draft token: the draft probabilities, or a fixed token without them. -/
inductive DraftLaw : Option (Fin V → ℝ) → (Fin V → ℝ) → Prop where
  | drawn {δ : Fin V → ℝ} (h : Distribution δ) : DraftLaw (some δ) δ
  | fixed (d : Fin V) : DraftLaw none (Pi.single d 1)

/-- Kept drafts and the score make up the target distribution. -/
theorem DraftLaw.kept_add_score {δ : Fin V → ℝ} (hp : Distribution p) (hδ : DraftLaw q δ) :
    ∃ s : Fin V → ℝ, (∀ t, 0 ≤ s t) ∧ (∀ t, δ t * acceptProb p q t + s t = p t) ∧ ∀ d, δ d ≠ 0 → s = score p q d := by
  cases hδ with
  | drawn h =>
    refine ⟨fun t => max (p t - δ t) 0, fun t => le_max_right _ _, fun t => ?_, fun d _ => rfl⟩
    rw [acceptProb_eq (hp.nonneg t)]
    show δ t * (if 0 < δ t then min 1 (p t / δ t) else 0) + max (p t - δ t) 0 = p t
    by_cases hpos : 0 < δ t
    · rw [if_pos hpos, mul_min_of_nonneg _ _ hpos.le, mul_one, mul_div_cancel₀ _ hpos.ne']
      rcases le_total (δ t) (p t) with hle | hle
      · rw [min_eq_left hle, max_eq_left (sub_nonneg.mpr hle)]
        ring
      · rw [min_eq_right hle, max_eq_right (sub_nonpos.mpr hle), add_zero]
    · have hzero : δ t = 0 := le_antisymm (not_lt.mp hpos) (h.nonneg t)
      rw [if_neg hpos, mul_zero, zero_add, hzero, sub_zero, max_eq_left (hp.nonneg t)]
  | fixed d₀ =>
    have hle : p d₀ ≤ 1 := hp.sum ▸ Finset.single_le_sum (fun v _ => hp.nonneg v) (Finset.mem_univ d₀)
    refine ⟨fun t => if t = d₀ then 0 else p t, fun t => ?_, fun t => ?_, fun d hd => ?_⟩
    · dsimp only
      split
      · exact le_rfl
      · exact hp.nonneg t
    · rw [acceptProb_eq (hp.nonneg t)]
      by_cases ht : t = d₀
      · subst ht
        simp [draftProb, hle]
      · simp [ht]
    · have hd : d = d₀ := by
        by_contra hne
        exact hd (Pi.single_eq_of_ne hne 1)
      rw [hd]
      rfl

/-- The probability that the first token is `t`: the draft token has law `δ`, the recovered token after it the law
`recovered d`, and the uniform value is uniform on `[0, 1)`. -/
noncomputable def firstTokenLaw (batch : Fin V → ℝ → Fin V → RandomBatch V ℝ) (reqIdx : Nat) (δ : Fin V → ℝ)
    (recovered : Fin V → Fin V → ℝ) (t : Fin V) : ℝ :=
  ∑ d, δ d * ∑ ρ, recovered d ρ *
    volume.real {u | u ∈ Set.Ico (0 : ℝ) 1 ∧ (batch d u ρ).firstToken reqIdx = some (t.val : Int)}

/-- For every vocabulary, target distribution and draft distribution or fixed draft, in every batch: when the
recovered token is drawn in proportion to the score of the recovery kernel, the first token of a request that the
random kernel emits has the target distribution. -/
theorem random_rejection_keeps_target {V : Nat} {p : Fin V → ℝ} {q : Option (Fin V → ℝ)} {δ : Fin V → ℝ}
    {recovered : Fin V → Fin V → ℝ} {batch : Fin V → ℝ → Fin V → RandomBatch V ℝ} {reqIdx : Nat}
    (hp : Distribution p) (hδ : DraftLaw q δ) (hrecovered : ∀ d, Distribution (recovered d))
    (hscore : ∀ d t, δ d ≠ 0 → recovered d t * ∑ v, score p q d v = score p q d t)
    (hbatch : ∀ d u ρ, u ∈ Set.Ico (0 : ℝ) 1 → DrawnAt (batch d u ρ) reqIdx p q d u ρ) :
    (∀ d u ρ, u ∈ Set.Ico (0 : ℝ) 1 → ∀ v : Fin V,
      recoveredProb (batch d u ρ).drafts.flatten (batch d u ρ).draftProbs (batch d u ρ).targetProbs V
        (rowStart (batch d u ρ).drafts reqIdx) v.val = some (score p q d v)) ∧
    ∀ t, firstTokenLaw batch reqIdx δ recovered t = p t := by
  refine ⟨fun d u ρ hu v => (hbatch d u ρ hu).recoveredProb_eq v, fun t => ?_⟩
  obtain ⟨s, hs₀, hs, hsscore⟩ := hδ.kept_add_score hp
  have hδdist : Distribution δ := by
    cases hδ with
    | drawn h => exact h
    | fixed d => exact ⟨fun v => by by_cases hv : v = d <;> simp [hv], by simp⟩
  have hα : ∀ d, acceptProb p q d ≤ 1 := fun d => by
    rw [acceptProb_eq (hp.nonneg d)]
    split
    · exact min_le_left _ _
    · exact zero_le_one
  have hemits : ∀ d ρ, volume.real {u | u ∈ Set.Ico (0 : ℝ) 1 ∧ (batch d u ρ).firstToken reqIdx = some (t.val : Int)} =
      (if d = t then acceptProb p q d else 0) + if ρ = t then 1 - acceptProb p q d else 0 := by
    intro d ρ
    have hsame : ∀ v w : Fin V, (some (v.val : Int) = some (w.val : Int)) ↔ v = w := fun v w => by
      rw [Option.some_inj, Int.ofNat_inj, Fin.ext_iff]
    have hvalue := volume_uniform_eq (measurableSet_accepts (draftProb q d) (p d))
      (f := fun u => (batch d u ρ).firstToken reqIdx) (x := some (d.val : Int)) (y := some (ρ.val : Int))
      (t := some (t.val : Int))
      (fun u hu hmem => by
        rw [Set.mem_ofPred_eq] at hmem
        rw [(hbatch d u ρ hu).firstToken_eq, if_pos hmem])
      (fun u hu hmem => by
        rw [Set.mem_ofPred_eq] at hmem
        rw [(hbatch d u ρ hu).firstToken_eq, if_neg hmem])
    simp only [hsame] at hvalue
    exact hvalue
  have hmass : firstTokenLaw batch reqIdx δ recovered t = rejectionMass δ (acceptProb p q) recovered t := by
    rw [firstTokenLaw]
    simp only [hemits]
    exact sum_sum_eq_rejectionMass (fun d => (hrecovered d).sum) t
  rw [hmass]
  refine rejectionMass_eq hp.sum hδdist.sum hδdist.nonneg hα hs₀ hs (fun d t hd => ?_) t
  rw [hsscore d (left_ne_zero_of_mul hd)]
  exact hscore d t (left_ne_zero_of_mul hd)

/-- A batch of one request with one draft, where the draft model always proposes token 0. -/
noncomputable def coinBatch (d : Fin 2) (u : ℝ) (ρ : Fin 2) : RandomBatch 2 ℝ :=
  { drafts := [[d.val]], draftProbs := some [1, 0], targetProbs := [1 / 2, 1 / 2], bonusTokenIds := [0],
    recoveredTokenIds := [ρ.val], uniformProbs := [u], isGreedy := [false], maxSpecLen := 1,
    rows := [[PLACEHOLDER_TOKEN_ID, PLACEHOLDER_TOKEN_ID]]
    drafts_mem := by
      intro draft hdraft id hid
      rw [List.mem_singleton.mp hdraft] at hid
      rw [List.mem_singleton.mp hid]
      exact ⟨Int.natCast_nonneg _, Int.ofNat_lt.mpr d.isLt⟩
    drafts_length := by simp
    draftProbs_length := by simp
    targetProbs_length := rfl
    bonusTokenIds_length := rfl
    recoveredTokenIds_length := rfl
    uniformProbs_length := rfl
    isGreedy_length := rfl
    rows_length := rfl
    rows_grid := by simp [Grid] }

theorem random_rejection_keeps_target_coin :
    firstTokenLaw coinBatch 0 (Pi.single 0 1) (fun _ => Pi.single 1 1) 1 = 1 / 2 := by
  have hsingle : ∀ v : Fin 2, Distribution (Pi.single v 1) := fun v =>
    ⟨fun w => by by_cases hw : w = v <;> simp [hw], by simp⟩
  refine (random_rejection_keeps_target (p := fun _ => 1 / 2) (q := some (Pi.single 0 1)) ⟨?_, ?_⟩
    (.drawn (hsingle 0)) (fun _ => hsingle 1) (fun d t _ => ?_) fun d u ρ _ => ?_).2 1
  · intro v
    norm_num
  · norm_num
  · fin_cases t <;> norm_num [score, Fin.sum_univ_two, Pi.single_apply]
  · refine ⟨⟨[], rfl⟩, rfl, rfl, rfl, fun v => ?_, fun h => (by cases h), fun q' hq' => ⟨[1, 0], rfl, fun v => ?_⟩⟩
    · fin_cases v <;> rfl
    · cases hq'
      fin_cases v <;> simp [rowStart]

end Law

/-! ## The recovered token

The recovery kernel takes the tokens in tiles. It finds the first token with the largest score, so that scores
weighted by inverses of independent exponential values give a token in proportion to the scores. -/

section Recovery

variable {K : Type} [Field K] [LinearOrder K]

omit [Field K] in
theorem tileMax_spec {scores : List K} {m : K} {i : Nat} (h : tileMax scores = some (m, i)) :
    scores[i]? = some m ∧ (∀ (j : Nat) x, scores[j]? = some x → x ≤ m) ∧
      ∀ (j : Nat) x, j < i → scores[j]? = some x → x < m := by
  induction scores generalizing m i with
  | nil => cases h
  | cons x scores ih =>
    unfold tileMax at h
    split at h
    case h_1 htail =>
      have hnil : scores = [] := by
        cases scores with
        | nil => rfl
        | cons y scores => grind [tileMax]
      grind
    case h_2 localMax localId htail =>
      have htail := ih htail
      refine ⟨by grind, fun j y hj => ?_, fun j y hlt hj => ?_⟩
      · cases j <;> grind
      · cases j <;> grind

omit [Field K] in
theorem tileMax_isSome {scores : List K} (h : scores ≠ []) : ∃ best, tileMax scores = some best := by
  cases scores with
  | nil => exact absurd rfl h
  | cons x scores =>
    unfold tileMax
    split
    · exact ⟨_, rfl⟩
    · split <;> exact ⟨_, rfl⟩

variable {prob invQ : Nat → Option K} {s : Nat → K} {vocabSize blockSize : Nat}

/-- `s` are the weighted scores of the vocabulary; the lanes behind it have score 0. -/
structure Scores (prob invQ : Nat → Option K) (vocabSize : Nat) (s : Nat → K) : Prop where
  inside : ∀ v < vocabSize, ∃ a c, prob v = some a ∧ invQ v = some c ∧ s v = a * c
  nonneg : ∀ v, 0 ≤ s v
  outside : ∀ v, vocabSize ≤ v → s v = 0

/-- The first one of the largest scores below `n`. -/
structure Best (s : Nat → K) (vocabSize n : Nat) (state : Option K × Nat) : Prop where
  max_val : state.1 = some (s state.2)
  recovered_id : state.2 < vocabSize
  le : ∀ v < n, s v ≤ s state.2
  lt : ∀ v < state.2, s v < s state.2

section

variable (h : Scores prob invQ vocabSize s)
include h

theorem tile_scores (v n : Nat) : ((List.range n).mapM fun lane =>
      if v + lane < vocabSize then do return (← prob (v + lane)) * (← invQ (v + lane)) else some 0) =
    some ((List.range n).map fun lane => s (v + lane)) := by
  have hlane : (fun lane => if v + lane < vocabSize then do return (← prob (v + lane)) * (← invQ (v + lane))
      else some 0) = fun lane => (pure (s (v + lane)) : Option K) := by
    funext lane
    split_ifs with hv
    · obtain ⟨a, c, ha, hc, hs⟩ := h.inside _ hv
      simp [ha, hc, hs]
    · simp [h.outside _ (not_lt.mp hv)]
  rw [hlane, List.mapM_pure]
  rfl

/-- One tile: the state before it is the initial one or the best token of the tiles before. -/
theorem recoverTile_best (hblock : 0 < blockSize) {tile : Nat} (htile : tile * blockSize < vocabSize)
    {state : Option K × Nat} (hstate : tile = 0 ∧ state.1 = none ∨ Best s vocabSize (tile * blockSize) state) :
    ∃ state', recoverTile prob invQ vocabSize blockSize state tile = some state' ∧
      Best s vocabSize ((tile + 1) * blockSize) state' := by
  obtain ⟨best, hbest⟩ := @tileMax_isSome K _ ((List.range blockSize).map fun lane => s (tile * blockSize + lane))
    (by simpa using hblock.ne')
  obtain ⟨hget, hle, hlt⟩ := tileMax_spec (m := best.1) (i := best.2) hbest
  have hlanes : ∀ lane < blockSize,
      ((List.range blockSize).map fun lane => s (tile * blockSize + lane))[lane]? =
        some (s (tile * blockSize + lane)) := fun lane hlane => by simp [hlane]
  have hid : best.2 < blockSize := by simpa using (List.getElem?_eq_some_iff.mp hget).1
  have hmax : s (tile * blockSize + best.2) = best.1 := Option.some.inj ((hlanes _ hid).symm.trans hget)
  have hle' : ∀ v < (tile + 1) * blockSize, tile * blockSize ≤ v → s v ≤ best.1 := by
    intro v hv hlow
    obtain ⟨lane, rfl⟩ := Nat.exists_eq_add_of_le hlow
    rw [Nat.succ_mul] at hv
    exact hle lane _ (hlanes lane (by omega))
  have hlt' : ∀ v < tile * blockSize + best.2, tile * blockSize ≤ v → s v < best.1 := by
    intro v hv hlow
    obtain ⟨lane, rfl⟩ := Nat.exists_eq_add_of_le hlow
    exact hlt lane _ (by omega) (hlanes lane (by omega))
  -- a lane behind the vocabulary is never the first largest one, as lane 0 is inside
  have hreal : tile * blockSize + best.2 < vocabSize := by
    by_contra hout
    have hfirst := hlt' (tile * blockSize) (by omega) le_rfl
    rw [← hmax, h.outside _ (not_lt.mp hout)] at hfirst
    exact absurd (h.nonneg _) hfirst.not_ge
  rw [recoverTile, tile_scores h]
  simp only [Option.bind_eq_bind, Option.bind_some, hbest]
  rcases hstate with ⟨rfl, hnone⟩ | hold
  · exact ⟨(some best.1, 0 * blockSize + best.2), by rw [hnone]; rfl, by grind [Best]⟩
  · rw [hold.max_val]
    by_cases hbetter : s state.2 < best.1
    · refine ⟨(some best.1, tile * blockSize + best.2), by simp [hbetter], by rw [hmax], hreal, fun v hv => ?_,
        fun v hv => ?_⟩
      · rw [hmax]
        rcases Nat.lt_or_ge v (tile * blockSize) with hlow | hhigh
        · exact (hold.le v hlow).trans hbetter.le
        · exact hle' v hv hhigh
      · rw [hmax]
        rcases Nat.lt_or_ge v (tile * blockSize) with hlow | hhigh
        · exact (hold.le v hlow).trans_lt hbetter
        · exact hlt' v hv hhigh
    · refine ⟨state, by simp [hbetter], hold.max_val, hold.recovered_id, fun v hv => ?_, hold.lt⟩
      rcases Nat.lt_or_ge v (tile * blockSize) with hlow | hhigh
      · exact hold.le v hlow
      · exact (hle' v hv hhigh).trans (not_lt.mp hbetter)

/-- The loop over the tiles finds the first token with the largest weighted score. -/
theorem recovered_best (hvocab : 0 < vocabSize) (hblock : 0 < blockSize) :
    ∃ state, (List.range ((vocabSize + blockSize - 1) / blockSize)).foldlM
        (recoverTile prob invQ vocabSize blockSize) (none, 0) = some state ∧ Best s vocabSize vocabSize state := by
  have hrun : ∀ n, n ≤ (vocabSize + blockSize - 1) / blockSize → ∃ state : Option K × Nat,
      (List.range n).foldlM (recoverTile prob invQ vocabSize blockSize) (none, 0) = some state ∧
        (n = 0 ∧ state.1 = none ∨ Best s vocabSize (n * blockSize) state) := by
    intro n
    induction n with
    | zero => exact fun _ => ⟨(none, 0), rfl, .inl ⟨rfl, rfl⟩⟩
    | succ n ih =>
      intro hn
      obtain ⟨state, hloop, hold⟩ := ih (by omega)
      have hmul := (Nat.le_div_iff_mul_le hblock).mp hn
      rw [Nat.add_mul] at hmul
      obtain ⟨state', hstep, hbest⟩ := recoverTile_best h hblock (by omega) hold
      exact ⟨state', by simp [List.range_succ, hloop, hstep], .inr hbest⟩
  obtain ⟨state, hloop, hempty | hbest⟩ := hrun _ le_rfl
  · have htiles := Nat.div_pos (by omega : blockSize ≤ vocabSize + blockSize - 1) hblock
    omega
  · refine ⟨state, hloop, ⟨hbest.max_val, hbest.recovered_id, fun v hv => hbest.le v (hv.trans_le ?_), hbest.lt⟩⟩
    have hdiv := Nat.div_add_mod (vocabSize + blockSize - 1) blockSize
    have hmod := Nat.mod_lt (vocabSize + blockSize - 1) hblock
    rw [Nat.mul_comm] at hdiv
    omega

end

/-- A program of the recovery kernel stores that token for its position. -/
theorem sampleRecoveredTokensKernel_eq {drafts : List (List Int)} {draft output : List Int}
    {draftProbs : Option (List K)} {targetProbs invQs : List K} {reqIdx pos : Nat} (hvocab : 0 < vocabSize)
    (hblock : 0 < blockSize) (hdraft : drafts[reqIdx]? = some draft) (hpos : pos < draft.length)
    (houtput : output.length = drafts.flatten.length)
    (h : Scores (recoveredProb drafts.flatten draftProbs targetProbs vocabSize (rowStart drafts reqIdx + pos))
      (fun v => load invQs (reqIdx * vocabSize + v)) vocabSize s) :
    ∃ state, Best s vocabSize vocabSize state ∧
      sampleRecoveredTokensKernel (cumsum (drafts.map List.length)) drafts.flatten draftProbs targetProbs invQs
        vocabSize blockSize (reqIdx, pos) output =
        some (output.set (rowStart drafts reqIdx + pos) (state.2 : Int)) := by
  obtain ⟨state, hloop, hbest⟩ := recovered_best h hvocab hblock
  have hlt : rowStart drafts reqIdx + pos < output.length := by
    have hget := getElem?_flatten hdraft hpos
    rw [List.getElem?_eq_getElem hpos] at hget
    rw [houtput]
    exact (List.getElem?_eq_some_iff.mp hget).1
  refine ⟨state, hbest, ?_⟩
  rw [sampleRecoveredTokensKernel, draftRange_cumsum hdraft]
  simp only [Option.bind_eq_bind, Option.bind_some, Nat.add_sub_cancel_left, Nat.not_le.mpr hpos, if_false, hloop]
  rw [store, if_pos hlt]

/-- The second draft of the second request is token 4, which is left out with its 9, so the first 3 is taken. The third
tile holds one token of the vocabulary and one place behind it. -/
theorem sampleRecoveredTokensKernel_eq_first :
    ∃ state, Best (fun v => ([1, 3, 2, 3].getD v 0 : ℚ)) 5 5 state ∧
      sampleRecoveredTokensKernel (K := ℚ) [1, 3] [0, 2, 4] none
        [1, 1, 1, 1, 1, 1, 1, 1, 1, 1, 1, 3, 1, 1, 9] [1, 1, 1, 1, 1, 1, 1, 2, 3, 1] 5 2 (1, 1) [7, 7, 7] =
        some [7, 7, (state.2 : Int)] := by
  have hdraft : ([[0], [2, 4]] : List (List Int))[1]? = some [2, 4] := rfl
  refine sampleRecoveredTokensKernel_eq (by decide) Nat.two_pos hdraft Nat.one_lt_two rfl
    ⟨fun v hv => ?_, fun v => ?_, fun v hv => ?_⟩
  · interval_cases v
    · exact ⟨1, 1, rfl, rfl, by norm_num⟩
    · exact ⟨3, 1, rfl, rfl, by norm_num⟩
    · exact ⟨1, 2, rfl, rfl, by norm_num⟩
    · exact ⟨1, 3, rfl, rfl, by norm_num⟩
    · exact ⟨0, 1, rfl, rfl, by norm_num⟩
  · by_cases hv : v < 4
    · interval_cases v <;> norm_num
    · exact (List.getD_eq_default _ _ (by simpa using hv)).ge
  · exact List.getD_eq_default _ _ (by simp; omega)

end Recovery

end Yuan.SpecDecode
