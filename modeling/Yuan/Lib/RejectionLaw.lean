import Mathlib.MeasureTheory.Measure.Lebesgue.Basic
import Mathlib.MeasureTheory.Measure.Real
import Mathlib.Tactic.Linarith

/-!
# The law of rejection sampling

A proposal `d` is drawn with weight `δ d` and kept with probability `α d`; else the value is redrawn from `ρ d`. When
the redraw is proportional to what the kept proposals leave of a distribution `p`, the value has law `p`.
-/

namespace Yuan

open MeasureTheory

variable {ι : Type} [Fintype ι]

/-- The mass of `t`: kept, or redrawn after another proposal. -/
def rejectionMass (δ α : ι → ℝ) (ρ : ι → ι → ℝ) (t : ι) : ℝ := δ t * α t + ∑ d, δ d * (1 - α d) * ρ d t

/-- The mass as a sum over the proposals and the redrawn values. -/
theorem sum_sum_eq_rejectionMass [DecidableEq ι] {δ α : ι → ℝ} {ρ : ι → ι → ℝ} (hρ : ∀ d, ∑ v, ρ d v = 1) (t : ι) :
    ∑ d, δ d * ∑ v, ρ d v * ((if d = t then α d else 0) + if v = t then 1 - α d else 0) =
      rejectionMass δ α ρ t := by
  have hinner : ∀ (d : ι) (a b : ℝ), ∑ v, ρ d v * (a + if v = t then b else 0) = a + b * ρ d t := by
    intro d a b
    simp only [mul_add, mul_ite, mul_zero]
    rw [Finset.sum_add_distrib, ← Finset.sum_mul, hρ d, one_mul, Finset.sum_ite_eq', if_pos (Finset.mem_univ t),
      mul_comm b]
  simp only [hinner]
  simp only [mul_add, mul_ite, mul_zero, ← mul_assoc]
  rw [Finset.sum_add_distrib, Finset.sum_ite_eq', if_pos (Finset.mem_univ t), rejectionMass]

/-- `s` is what the kept proposals leave of `p`. No condition on `ρ` is needed after proposals that are always
kept. -/
theorem rejectionMass_eq {p δ α s : ι → ℝ} {ρ : ι → ι → ℝ} (hp : ∑ t, p t = 1) (hδ : ∑ t, δ t = 1)
    (hδ₀ : ∀ t, 0 ≤ δ t) (hα : ∀ t, α t ≤ 1) (hs₀ : ∀ t, 0 ≤ s t) (hs : ∀ t, δ t * α t + s t = p t)
    (hρ : ∀ d t, δ d * (1 - α d) ≠ 0 → ρ d t * ∑ t, s t = s t) (t : ι) : rejectionMass δ α ρ t = p t := by
  have hweight₀ : ∀ d, 0 ≤ δ d * (1 - α d) := fun d => mul_nonneg (hδ₀ d) (by linarith [hα d])
  have hmass : ∑ d, δ d * (1 - α d) = ∑ t, s t := by
    have hkept : ∑ t, δ t * α t + ∑ t, s t = 1 := by
      rw [← Finset.sum_add_distrib, ← hp]
      exact Finset.sum_congr rfl fun t _ => hs t
    have hsplit : ∑ d, δ d * (1 - α d) = ∑ d, δ d - ∑ d, δ d * α d := by
      rw [← Finset.sum_sub_distrib]
      exact Finset.sum_congr rfl fun d _ => by ring
    linarith
  have hredrawn : ∑ d, δ d * (1 - α d) * ρ d t = s t := by
    by_cases hzero : ∑ t, s t = 0
    · -- nothing is ever redrawn
      have hweight := (Finset.sum_eq_zero_iff_of_nonneg fun d _ => hweight₀ d).mp (hmass.trans hzero)
      have hst := (Finset.sum_eq_zero_iff_of_nonneg fun t _ => hs₀ t).mp hzero t (Finset.mem_univ t)
      rw [hst]
      exact Finset.sum_eq_zero fun d hd => by rw [hweight d hd, zero_mul]
    · have hterm : ∀ d, δ d * (1 - α d) * ρ d t = δ d * (1 - α d) * (s t / ∑ t, s t) := by
        intro d
        by_cases hd : δ d * (1 - α d) = 0
        · rw [hd, zero_mul, zero_mul]
        · rw [eq_div_of_mul_eq hzero (hρ d t hd)]
      calc ∑ d, δ d * (1 - α d) * ρ d t = (∑ d, δ d * (1 - α d)) * (s t / ∑ t, s t) := by
            rw [Finset.sum_mul]
            exact Finset.sum_congr rfl fun d _ => hterm d
        _ = s t := by rw [hmass, mul_div_cancel₀ _ hzero]
  rw [rejectionMass, hredrawn, hs]

/-- A uniform value of `[0, 1)` is at most `c` with probability `min 1 c`. -/
theorem volume_uniform_le {c : ℝ} (hc : 0 ≤ c) : volume.real {u | u ∈ Set.Ico (0 : ℝ) 1 ∧ u ≤ c} = min 1 c := by
  by_cases h : c < 1
  · have hset : {u | u ∈ Set.Ico (0 : ℝ) 1 ∧ u ≤ c} = Set.Icc 0 c := by
      ext u
      constructor
      · rintro ⟨⟨h₀, -⟩, huc⟩
        exact ⟨h₀, huc⟩
      · rintro ⟨h₀, huc⟩
        exact ⟨⟨h₀, huc.trans_lt h⟩, huc⟩
    rw [hset, Real.volume_real_Icc_of_le hc, min_eq_right h.le, sub_zero]
  · have hset : {u | u ∈ Set.Ico (0 : ℝ) 1 ∧ u ≤ c} = Set.Ico 0 1 := by
      ext u
      simp only [Set.mem_ofPred_eq, and_iff_left_iff_imp]
      rintro ⟨-, hu⟩
      exact hu.le.trans (not_lt.mp h)
    rw [hset, Real.volume_real_Ico_of_le zero_le_one, min_eq_left (not_lt.mp h), sub_zero]

/-- The mass of a test's failure is what its success leaves. -/
theorem volume_uniform_not {A : Set ℝ} (hA : MeasurableSet A) :
    volume.real {u | u ∈ Set.Ico (0 : ℝ) 1 ∧ u ∉ A} = 1 - volume.real {u | u ∈ Set.Ico (0 : ℝ) 1 ∧ u ∈ A} := by
  have hunit : volume.real (Set.Ico (0 : ℝ) 1) = 1 := by rw [Real.volume_real_Ico_of_le zero_le_one, sub_zero]
  have hsplit := measureReal_inter_add_sdiff (μ := volume) (s := Set.Ico (0 : ℝ) 1) hA (by simp)
  have hin : {u | u ∈ Set.Ico (0 : ℝ) 1 ∧ u ∈ A} = Set.Ico 0 1 ∩ A := rfl
  have hout : {u | u ∈ Set.Ico (0 : ℝ) 1 ∧ u ∉ A} = Set.Ico 0 1 \ A := rfl
  rw [hin, hout]
  linarith

/-- A function of the uniform value that is `x` on `A` and `y` elsewhere. -/
theorem volume_uniform_eq {β : Type} [DecidableEq β] {A : Set ℝ} (hA : MeasurableSet A) {f : ℝ → β} {x y t : β}
    (hx : ∀ u ∈ Set.Ico (0 : ℝ) 1, u ∈ A → f u = x) (hy : ∀ u ∈ Set.Ico (0 : ℝ) 1, u ∉ A → f u = y) :
    volume.real {u | u ∈ Set.Ico (0 : ℝ) 1 ∧ f u = t} =
      (if x = t then volume.real {u | u ∈ Set.Ico (0 : ℝ) 1 ∧ u ∈ A} else 0) +
        if y = t then 1 - volume.real {u | u ∈ Set.Ico (0 : ℝ) 1 ∧ u ∈ A} else 0 := by
  have hunit : volume.real (Set.Ico (0 : ℝ) 1) = 1 := by rw [Real.volume_real_Ico_of_le zero_le_one, sub_zero]
  have hvalue : ∀ u ∈ Set.Ico (0 : ℝ) 1, (f u = t ↔ u ∈ A ∧ x = t ∨ u ∉ A ∧ y = t) := by
    intro u hu
    by_cases hmem : u ∈ A
    · simp [hx u hu hmem, hmem]
    · simp [hy u hu hmem, hmem]
  have hset : {u | u ∈ Set.Ico (0 : ℝ) 1 ∧ f u = t} =
      {u | u ∈ Set.Ico (0 : ℝ) 1 ∧ (u ∈ A ∧ x = t ∨ u ∉ A ∧ y = t)} := by
    ext u
    exact and_congr_right (hvalue u)
  rw [hset, ← volume_uniform_not hA]
  by_cases hxt : x = t <;> by_cases hyt : y = t
  · simp only [hxt, hyt, and_true, em, if_true]
    rw [volume_uniform_not hA]
    exact hunit.trans (by ring)
  · simp [hxt, hyt]
  · simp [hxt, hyt]
  · simp [hxt, hyt]

end Yuan
