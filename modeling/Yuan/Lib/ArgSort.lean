import Mathlib.Data.List.GetD
import Mathlib.Data.List.Sort
import Yuan.Lib.Replicas

/-!
# Orders of indices

The index of a least or a greatest entry, and an order of all indices by their entries.
-/

namespace Yuan

variable {mask : Nat → Bool} {n i : Nat}

section

variable {α : Type} [LinearOrder α]

/-- `np.argmin`: the first of the least entries. -/
def argmin (row : Nat → α) : Nat → Nat
  | 0 => 0
  | n + 1 => if row n < row (argmin row n) then n else argmin row n

/-- `np.argmax`: the first of the greatest entries. -/
def argmax (row : Nat → α) : Nat → Nat
  | 0 => 0
  | n + 1 => if row (argmax row n) < row n then n else argmax row n

theorem argmin_lt (row : Nat → α) (hn : 0 < n) : argmin row n < n := by
  induction n with
  | zero => exact absurd hn (Nat.lt_irrefl 0)
  | succ n ih =>
    unfold argmin
    split
    · exact Nat.lt_succ_self n
    · rcases Nat.eq_zero_or_pos n with rfl | hpos
      · exact Nat.one_pos
      · exact Nat.lt_succ_of_lt (ih hpos)

theorem argmin_le {row : Nat → α} (hi : i < n) : row (argmin row n) ≤ row i := by
  induction n with
  | zero => exact absurd hi (Nat.not_lt_zero i)
  | succ n ih =>
    unfold argmin
    split
    · next hlt =>
      rcases Nat.lt_succ_iff_lt_or_eq.mp hi with hlti | rfl
      · exact le_trans (le_of_lt hlt) (ih hlti)
      · exact le_refl _
    · next hlt =>
      rcases Nat.lt_succ_iff_lt_or_eq.mp hi with hlti | rfl
      · exact ih hlti
      · exact le_of_not_gt hlt

theorem argmax_lt (row : Nat → α) (hn : 0 < n) : argmax row n < n := by
  induction n with
  | zero => exact absurd hn (Nat.lt_irrefl 0)
  | succ n ih =>
    unfold argmax
    split
    · exact Nat.lt_succ_self n
    · rcases Nat.eq_zero_or_pos n with rfl | hpos
      · exact Nat.one_pos
      · exact Nat.lt_succ_of_lt (ih hpos)

theorem le_argmax {row : Nat → α} (hi : i < n) : row i ≤ row (argmax row n) := by
  induction n with
  | zero => exact absurd hi (Nat.not_lt_zero i)
  | succ n ih =>
    unfold argmax
    split
    · next hlt =>
      rcases Nat.lt_succ_iff_lt_or_eq.mp hi with hlti | rfl
      · exact le_trans (ih hlti) (le_of_lt hlt)
      · exact le_refl _
    · next hlt =>
      rcases Nat.lt_succ_iff_lt_or_eq.mp hi with hlti | rfl
      · exact ih hlti
      · exact le_of_not_gt hlt

end

/-- `np.argsort`: the indices below `n` by their entries, in any order where these are equal. -/
structure ArgSort where
  argsort : ∀ {α : Type} [LinearOrder α], (Nat → α) → Nat → Nat → Nat
  permutes : ∀ {α : Type} [LinearOrder α] (row : Nat → α) (n : Nat), Permutes n (argsort row n)
  sorted : ∀ {α : Type} [LinearOrder α] (row : Nat → α) (n i j : Nat), i < j → j < n →
    row (argsort row n i) ≤ row (argsort row n j)

/-- The order that keeps equal entries as they come. -/
def stableArgSort : ArgSort where
  argsort row n i := ((List.range n).insertionSort fun a b => row a ≤ row b).getD i i
  permutes row n := by
    have hperm := List.perm_insertionSort (fun a b => row a ≤ row b) (List.range n)
    have hlength := hperm.length_eq
    have hnodup := hperm.nodup_iff.mpr List.nodup_range
    generalize (List.range n).insertionSort (fun a b => row a ≤ row b) = order at hperm hlength hnodup
    rw [List.length_range] at hlength
    refine ⟨fun i hi => ?_, fun i j hi hj heq => ?_⟩
    · rw [List.getD_eq_getElem _ _ (hlength ▸ hi)]
      exact List.mem_range.mp (hperm.mem_iff.mp (List.getElem_mem _))
    · rw [List.getD_eq_getElem _ _ (hlength ▸ hi), List.getD_eq_getElem _ _ (hlength ▸ hj)] at heq
      exact (List.Nodup.getElem_inj_iff hnodup).mp heq
  sorted row n i j hij hj := by
    have hlength := (List.perm_insertionSort (fun a b => row a ≤ row b) (List.range n)).length_eq
    have hsorted : ((List.range n).insertionSort fun a b => row a ≤ row b).Pairwise fun a b => row a ≤ row b :=
      have : Std.Total fun a b => row a ≤ row b := ⟨fun a b => le_total (row a) (row b)⟩
      have : IsTrans Nat fun a b => row a ≤ row b := ⟨fun a b c => le_trans⟩
      List.pairwise_insertionSort _ _
    generalize (List.range n).insertionSort (fun a b => row a ≤ row b) = order at hlength hsorted
    rw [List.length_range] at hlength
    rw [List.getD_eq_getElem _ _ (hlength ▸ lt_trans hij hj), List.getD_eq_getElem _ _ (hlength ▸ hj)]
    exact List.pairwise_iff_getElem.mp hsorted i j _ _ hij

/-! ## Masks -/

/-- `mask.sum()`. -/
def maskCount (mask : Nat → Bool) (n : Nat) : Nat := ((Finset.range n).filter fun i => mask i = true).card

/-- The indices in a mask, followed by a sentinel. -/
def maskPriority (mask : Nat → Bool) (n i : Nat) : Nat := if mask i then i else n + 1

theorem maskPriority_of_mem (h : mask i = true) : maskPriority mask n i = i := if_pos h

theorem maskPriority_of_not_mem (h : ¬ mask i = true) : maskPriority mask n i = n + 1 := if_neg h

/-- The first indices by their priorities are those in the mask. -/
theorem ArgSort.mask_of_lt (np : ArgSort) (hi : i < maskCount mask n) :
    mask (np.argsort (maskPriority mask n) n i) = true := by
  by_contra hmask
  have hperm := np.permutes (maskPriority mask n) n
  -- from position `i` on there are sentinels only, so that the mask lies in front of it
  have hfront : maskCount mask n ≤ i := by
    have hsub : ((Finset.range n).filter fun j => mask j = true) ⊆
        (Finset.range i).image (np.argsort (maskPriority mask n) n) := by
      intro j hj
      obtain ⟨hjn, hjmask⟩ := Finset.mem_filter.mp hj
      obtain ⟨k, hk, rfl⟩ := hperm.surj (Finset.mem_range.mp hjn)
      refine Finset.mem_image.mpr ⟨k, Finset.mem_range.mpr ?_, rfl⟩
      by_contra hki
      rcases Nat.lt_or_eq_of_le (Nat.le_of_not_lt hki) with hlt | rfl
      · have hsorted := np.sorted (maskPriority mask n) n i k hlt hk
        have hlt := hperm.lt k hk
        rw [maskPriority_of_not_mem hmask, maskPriority_of_mem hjmask] at hsorted
        omega
      · exact hmask hjmask
    calc
      maskCount mask n ≤ ((Finset.range i).image (np.argsort (maskPriority mask n) n)).card := Finset.card_le_card hsub
      _ ≤ (Finset.range i).card := Finset.card_image_le
      _ = i := Finset.card_range i
  exact absurd hi (Nat.not_lt_of_le hfront)

theorem maskCount_not (mask : Nat → Bool) (n : Nat) : maskCount (fun i => !mask i) n = n - maskCount mask n := by
  have hsplit := Finset.card_filter_add_card_filter_not (s := Finset.range n) fun i => mask i = true
  have hnot : ((Finset.range n).filter fun i => ¬ mask i = true) = (Finset.range n).filter fun i => (!mask i) = true :=
    Finset.filter_congr fun i _ => by simp
  rw [hnot, Finset.card_range] at hsplit
  exact Nat.eq_sub_of_add_eq' hsplit

/-- Masks that correspond to each other have as many indices. -/
theorem maskCount_eq {mask' : Nat → Bool} (f : Nat → Nat)
    (hmaps : ∀ i, i < n → mask i = true → f i < n ∧ mask' (f i) = true)
    (hinj : ∀ i j, i < n → j < n → mask i = true → mask j = true → f i = f j → i = j)
    (hsurj : ∀ j, j < n → mask' j = true → ∃ i, i < n ∧ mask i = true ∧ f i = j) :
    maskCount mask n = maskCount mask' n := by
  refine Finset.card_bij (fun i _ => f i) (fun i hi => ?_) (fun i hi j hj heq => ?_) (fun j hj => ?_)
  · obtain ⟨hlt, hmask⟩ := Finset.mem_filter.mp hi
    obtain ⟨hflt, hfmask⟩ := hmaps i (Finset.mem_range.mp hlt) hmask
    exact Finset.mem_filter.mpr ⟨Finset.mem_range.mpr hflt, hfmask⟩
  · obtain ⟨hlti, hmaski⟩ := Finset.mem_filter.mp hi
    obtain ⟨hltj, hmaskj⟩ := Finset.mem_filter.mp hj
    exact hinj i j (Finset.mem_range.mp hlti) (Finset.mem_range.mp hltj) hmaski hmaskj heq
  · obtain ⟨hlt, hmask⟩ := Finset.mem_filter.mp hj
    obtain ⟨i, hi, hmaski, heq⟩ := hsurj j (Finset.mem_range.mp hlt) hmask
    exact ⟨i, Finset.mem_filter.mpr ⟨Finset.mem_range.mpr hi, hmaski⟩, heq⟩

theorem maskCount_le (mask : Nat → Bool) (n : Nat) : maskCount mask n ≤ n :=
  (Finset.card_filter_le _ _).trans_eq (Finset.card_range n)

/-- Every index in the mask is one of the first. -/
theorem ArgSort.exists_of_mask (np : ArgSort) {j : Nat} (hj : j < n) (hmask : mask j = true) :
    ∃ i, i < maskCount mask n ∧ np.argsort (maskPriority mask n) n i = j := by
  have hperm := np.permutes (maskPriority mask n) n
  have hsurj : Set.SurjOn (np.argsort (maskPriority mask n) n) (Finset.range (maskCount mask n))
      ((Finset.range n).filter fun j => mask j = true : Finset Nat) := by
    refine Finset.surjOn_of_injOn_of_card_le _ (fun i hi => ?_) (fun i hi k hk heq => ?_) ?_
    · have hlt := Finset.mem_range.mp (Finset.mem_coe.mp hi)
      exact Finset.mem_coe.mpr (Finset.mem_filter.mpr
        ⟨Finset.mem_range.mpr (hperm.lt i (Nat.lt_of_lt_of_le hlt (maskCount_le mask n))), np.mask_of_lt hlt⟩)
    · have hlti := Finset.mem_range.mp (Finset.mem_coe.mp hi)
      have hltk := Finset.mem_range.mp (Finset.mem_coe.mp hk)
      exact hperm.inj i k (Nat.lt_of_lt_of_le hlti (maskCount_le mask n))
        (Nat.lt_of_lt_of_le hltk (maskCount_le mask n)) heq
    · rw [Finset.card_range]
      exact Nat.le_refl _
  obtain ⟨i, hi, heq⟩ := hsurj (Finset.mem_coe.mpr (Finset.mem_filter.mpr ⟨Finset.mem_range.mpr hj, hmask⟩))
  exact ⟨i, Finset.mem_range.mp (Finset.mem_coe.mp hi), heq⟩

end Yuan
