import Mathlib.Algebra.BigOperators.Ring.Finset
import Mathlib.Algebra.BigOperators.Intervals
import Mathlib.Algebra.Order.Field.Rat
import Mathlib.Tactic.Ring

/-!
# Generalised advantage estimation over masked responses

Tool outputs inside a response are masked. The backward loop steps over them, so that the tokens of the model are
estimated as if there were no others.
-/

namespace Yuan.Trainer

/-- A position of a row: the entries of `token_level_rewards`, `values` and `response_mask`. -/
structure ResponseToken where
  reward : ℚ
  value : ℚ
  mask : Bool

/-- An entry of `response_mask` as a number. -/
def maskValue (mask : Bool) : ℚ := if mask then 1 else 0

/-! ## The loop -/

/-- What the loop carries from a position to the one before it. -/
structure GaeState where
  nextvalues : ℚ
  lastgaelam : ℚ

/-- The body of the loop, in one row. -/
def GaeState.step (gamma lam : ℚ) (token : ResponseToken) (s : GaeState) : GaeState :=
  let delta := token.reward + gamma * s.nextvalues - token.value
  let lastgaelam_ := delta + gamma * lam * s.lastgaelam
  { nextvalues := token.value * maskValue token.mask + (1 - maskValue token.mask) * s.nextvalues
    lastgaelam := lastgaelam_ * maskValue token.mask + (1 - maskValue token.mask) * s.lastgaelam }

/-- The loop over the positions of a row from the last one on, and its `advantages`. -/
def gaeLoop (gamma lam : ℚ) : List ResponseToken → GaeState × List ℚ
  | [] => (⟨0, 0⟩, [])
  | token :: row =>
    let s := (gaeLoop gamma lam row).1.step gamma lam token
    (s, s.lastgaelam :: (gaeLoop gamma lam row).2)

/-- `compute_gae_advantage_return`, row by row. -/
def computeGaeAdvantageReturn {β : Type} (maskedWhiten : List (List ℚ) → List (List Bool) → β) (gamma lam : ℚ)
    (batch : List (List ResponseToken)) : β × List (List ℚ) :=
  let advantages := batch.map fun row => (gaeLoop gamma lam row).2
  let returns := batch.map fun row => (gaeLoop gamma lam row).2.zipWith (· + ·) (row.map ResponseToken.value)
  (maskedWhiten advantages (batch.map fun row => row.map ResponseToken.mask), returns)

/-! ## The textbook -/

section Textbook

variable (gamma lam : ℚ)

/-- `V(s_t)`, which is zero behind the last token. -/
def valueAt (row : List ResponseToken) (t : Nat) : ℚ := (row[t]?.map ResponseToken.value).getD 0

def rewardAt (row : List ResponseToken) (t : Nat) : ℚ := (row[t]?.map ResponseToken.reward).getD 0

/-- `r_t + γ V(s_{t+1}) - V(s_t)`. -/
def tdError (row : List ResponseToken) (t : Nat) : ℚ := rewardAt row t + gamma * valueAt row (t + 1) - valueAt row t

/-- The sum of the discounted errors from `t` on. -/
def generalizedAdvantage (row : List ResponseToken) (t : Nat) : ℚ :=
  ∑ l ∈ Finset.range (row.length - t), (gamma * lam) ^ l * tdError gamma row (t + l)

variable {gamma lam} {token : ResponseToken} {row : List ResponseToken} {t : Nat}

theorem generalizedAdvantage_nil : generalizedAdvantage gamma lam [] t = 0 := by
  rw [generalizedAdvantage, List.length_nil, Nat.zero_sub, Finset.range_zero, Finset.sum_empty]

theorem tdError_cons_succ : tdError gamma (token :: row) (t + 1) = tdError gamma row t := rfl

theorem generalizedAdvantage_cons_succ :
    generalizedAdvantage gamma lam (token :: row) (t + 1) = generalizedAdvantage gamma lam row t := by
  unfold generalizedAdvantage
  rw [List.length_cons, Nat.add_sub_add_right]
  refine Finset.sum_congr rfl fun l _ => ?_
  rw [Nat.add_right_comm, tdError_cons_succ]

/-- The recurrence. -/
theorem generalizedAdvantage_cons_zero : generalizedAdvantage gamma lam (token :: row) 0
    = token.reward + gamma * valueAt row 0 - token.value + gamma * lam * generalizedAdvantage gamma lam row 0 := by
  have hrest : ∀ l, (gamma * lam) ^ (l + 1) * tdError gamma (token :: row) (0 + (l + 1))
      = gamma * lam * ((gamma * lam) ^ l * tdError gamma row (0 + l)) := by
    intro l
    rw [← Nat.add_assoc, tdError_cons_succ]
    ring
  have hfirst : tdError gamma (token :: row) 0 = token.reward + gamma * valueAt row 0 - token.value := rfl
  unfold generalizedAdvantage
  rw [List.length_cons, Nat.sub_zero, Nat.sub_zero, Finset.sum_range_succ', Finset.mul_sum, pow_zero, one_mul, hfirst,
    add_comm]
  exact congrArg _ (Finset.sum_congr rfl fun l _ => hrest l)

theorem generalizedAdvantage_append (front row : List ResponseToken) :
    generalizedAdvantage gamma lam (front ++ row) front.length = generalizedAdvantage gamma lam row 0 := by
  induction front with
  | nil => rfl
  | cons token front ih => rw [List.cons_append, List.length_cons, generalizedAdvantage_cons_succ, ih]

end Textbook

/-! ## Masked positions -/

variable {gamma lam : ℚ}

/-- The row without its masked positions. -/
def unmasked (row : List ResponseToken) : List ResponseToken := row.filter ResponseToken.mask

/-- What the loop carries belongs to the first unmasked position of what it has gone over. -/
theorem gaeLoop_state (row : List ResponseToken) :
    (gaeLoop gamma lam row).1 = ⟨valueAt (unmasked row) 0, generalizedAdvantage gamma lam (unmasked row) 0⟩ := by
  induction row with
  | nil => exact congrArg (GaeState.mk 0) generalizedAdvantage_nil.symm
  | cons token row ih =>
    unfold gaeLoop
    rw [ih, GaeState.step]
    cases hmask : token.mask with
    | false =>
      have hskip : unmasked (token :: row) = unmasked row := List.filter_cons_of_neg (by simp [hmask])
      rw [hskip]
      simp [maskValue]
    | true =>
      have hkeep : unmasked (token :: row) = token :: unmasked row := List.filter_cons_of_pos hmask
      have hvalue : valueAt (token :: unmasked row) 0 = token.value := rfl
      rw [hkeep, generalizedAdvantage_cons_zero, hvalue]
      simp [maskValue]

theorem gaeLoop_getElem? {row : List ResponseToken} {t : Nat} (ht : t < row.length) :
    (gaeLoop gamma lam row).2[t]? = some (generalizedAdvantage gamma lam (unmasked (row.drop t)) 0) := by
  induction row generalizing t with
  | nil => exact absurd ht (Nat.not_lt_zero t)
  | cons token row ih =>
    cases t with
    | zero =>
      exact congrArg (fun s : GaeState => some s.lastgaelam) (gaeLoop_state (token :: row))
    | succ t => exact ih (Nat.lt_of_succ_lt_succ ht)

/-- The advantage at a position is that of the next unmasked position in the row without the masked ones. -/
theorem gaeLoop_eq_generalizedAdvantage {row : List ResponseToken} {t : Nat} (ht : t < row.length) :
    (gaeLoop gamma lam row).2[t]?
      = some (generalizedAdvantage gamma lam (unmasked row) ((row.take t).countP ResponseToken.mask)) := by
  have hsplit : unmasked row = unmasked (row.take t) ++ unmasked (row.drop t) := by
    rw [unmasked, unmasked, unmasked, ← List.filter_append, List.take_append_drop]
  have hcount : (row.take t).countP ResponseToken.mask = (unmasked (row.take t)).length :=
    List.countP_eq_length_filter
  rw [gaeLoop_getElem? ht, hsplit, hcount, generalizedAdvantage_append]

/-- The place of a position in the row without the masked ones. -/
def unmaskedIndex (row : List ResponseToken) (t : Nat) : Nat := (row.take t).countP ResponseToken.mask

/-- At the unmasked positions, a row of advantages and one of returns are those of the textbook. -/
structure MatchesTextbook (gamma lam : ℚ) (row : List ResponseToken) (advantages returns : List ℚ) : Prop where
  place : ∀ t token, row[t]? = some token → token.mask = true → (unmasked row)[unmaskedIndex row t]? = some token
  advantage : ∀ t token, row[t]? = some token → token.mask = true →
    advantages[t]? = some (generalizedAdvantage gamma lam (unmasked row) (unmaskedIndex row t))
  ret : ∀ t token, row[t]? = some token → token.mask = true →
    returns[t]? = some (generalizedAdvantage gamma lam (unmasked row) (unmaskedIndex row t) + token.value)
  length : advantages.length = row.length ∧ returns.length = row.length

theorem length_gaeLoop (row : List ResponseToken) : (gaeLoop gamma lam row).2.length = row.length := by
  induction row with
  | nil => rfl
  | cons token row ih => exact congrArg Nat.succ ih

theorem unmasked_getElem? {row : List ResponseToken} {t : Nat} {token : ResponseToken} (ht : row[t]? = some token)
    (hmask : token.mask = true) : (unmasked row)[unmaskedIndex row t]? = some token := by
  obtain ⟨hlt, htoken⟩ := List.getElem?_eq_some_iff.mp ht
  have hsplit : row = row.take t ++ token :: row.drop (t + 1) := by
    rw [← htoken, ← List.drop_eq_getElem_cons hlt, List.take_append_drop]
  have hcount : unmaskedIndex row t = (unmasked (row.take t)).length := List.countP_eq_length_filter
  have hunmasked : unmasked row = unmasked (row.take t) ++ token :: unmasked (row.drop (t + 1)) := by
    conv_lhs => rw [hsplit]
    rw [unmasked, List.filter_append, List.filter_cons_of_pos hmask]
    rfl
  rw [hunmasked, hcount, List.getElem?_append_right le_rfl, Nat.sub_self]
  rfl

theorem matchesTextbook (gamma lam : ℚ) (row : List ResponseToken) :
    MatchesTextbook gamma lam row (gaeLoop gamma lam row).2
      ((gaeLoop gamma lam row).2.zipWith (· + ·) (row.map ResponseToken.value)) where
  place _ _ ht hmask := unmasked_getElem? ht hmask
  advantage _ _ ht _ := gaeLoop_eq_generalizedAdvantage (List.getElem?_eq_some_iff.mp ht).1
  ret t token ht _ := by
    have hadvantage : (gaeLoop gamma lam row).2[t]? = _ :=
      gaeLoop_eq_generalizedAdvantage (List.getElem?_eq_some_iff.mp ht).1
    have hvalue : (row.map ResponseToken.value)[t]? = some token.value := by rw [List.getElem?_map, ht]; rfl
    rw [List.getElem?_zipWith, hadvantage, hvalue]
    rfl
  length := ⟨length_gaeLoop row, by rw [List.length_zipWith, length_gaeLoop, List.length_map, Nat.min_self]⟩

/-- In every row, the advantages before whitening and the returns are at the unmasked positions those of the textbook
on the row with the masked positions deleted. -/
theorem masked_gae_ignores_masked {β : Type} (maskedWhiten : List (List ℚ) → List (List Bool) → β) (gamma lam : ℚ)
    (batch : List (List ResponseToken)) :
    ∃ advantages : List (List ℚ), (computeGaeAdvantageReturn maskedWhiten gamma lam batch).1
        = maskedWhiten advantages (batch.map fun row => row.map ResponseToken.mask) ∧
      ∀ (i : Nat) (row : List ResponseToken), batch[i]? = some row → ∃ rowAdvantages rowReturns,
        advantages[i]? = some rowAdvantages ∧
        (computeGaeAdvantageReturn maskedWhiten gamma lam batch).2[i]? = some rowReturns ∧
        MatchesTextbook gamma lam row rowAdvantages rowReturns := by
  refine ⟨batch.map fun row => (gaeLoop gamma lam row).2, rfl, fun i row hrow => ?_⟩
  refine ⟨_, _, ?_, ?_, matchesTextbook gamma lam row⟩
  · rw [List.getElem?_map, hrow]
    rfl
  · rw [computeGaeAdvantageReturn, List.getElem?_map, hrow]
    rfl

end Yuan.Trainer
