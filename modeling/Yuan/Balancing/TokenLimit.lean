import Mathlib.Algebra.Order.BigOperators.Group.List
import Yuan.Balancing.DynamicBatch

/-!
# The limit of tokens

The number of micro-batches comes from the total number of tokens. The differencing method then balances the lengths
without regard to the limit, so a micro-batch may be over it although every row fits. It is kept where the total leaves
room for the spread between the partitions, and only where the lengths can be packed within it at all.
-/

namespace Yuan.Balancing

variable {α : Type} {lens : List Nat} {partitions : List (List Nat)} {limit : Nat} {batch : TensorBatch α}
  {o : MicroBatchOptions} {p : List Nat} {k : Nat}

/-- The micro-batches have every row once, and none has more tokens than the limit. -/
def RespectsLimit (batch : TensorBatch α) (limit : Nat) (o : MicroBatchOptions) : Prop :=
  ∃ micro idxs, rearrangeMicroBatches batch limit o = .ok (micro, idxs) ∧
    idxs.flatten.Perm (List.range batch.rows.length) ∧ List.Forall₂ (Selected batch.rows) idxs micro ∧
    ∀ rows ∈ micro, (seqLenEffective rows).sum ≤ limit

/-! ## Tokens of the partitions -/

theorem sum_of_selected {rows out : List (Row α)} (h : Selected rows p out) :
    (seqLenEffective out).sum = partitionSum (seqLenEffective rows) p := by
  have hlens : Selected (seqLenEffective rows) p (seqLenEffective out) := h.map _
  refine congrArg List.sum (List.map_inj_right (fun _ _ => Option.some.inj) |>.mp (hlens.trans ?_))
  rw [List.map_map]
  refine List.map_congr_left fun i hi => ?_
  obtain ⟨j, hj⟩ := List.mem_iff_getElem?.mp hi
  obtain ⟨n, hn, -⟩ := hlens.exists_getElem? hj
  rw [Function.comp_apply, List.getD_eq_getElem?_getD, hn, Option.getD_some]

theorem sum_partitions (h : partitions.flatten.Perm (List.range lens.length)) :
    (partitions.map (partitionSum lens)).sum = lens.sum := by
  have hflatten : (partitions.map (partitionSum lens)).sum = partitionSum lens partitions.flatten := by
    unfold partitionSum
    rw [List.map_flatten, List.sum_flatten, List.map_map]
    rfl
  have hrange : (List.range lens.length).map (fun idx => lens.getD idx 0) = lens := by
    refine List.ext_getElem (by simp) ?_
    grind
  rw [hflatten, partitionSum_perm h, partitionSum, hrange]

/-- Sums that are close to each other are close to their mean. -/
theorem length_mul_le {l : List Nat} {x bound : Nat} (hx : x ∈ l) (h : ∀ y ∈ l, x ≤ y + bound) :
    l.length * x ≤ l.sum + (l.length - 1) * bound := by
  have hrest : ∀ l' : List Nat, (∀ y ∈ l', x ≤ y + bound) → l'.length * x ≤ l'.sum + l'.length * bound := by
    intro l' h
    have hsum := List.card_nsmul_le_sum (l'.map (· + bound)) x (by simpa using h)
    simpa [List.sum_map_add] using hsum
  obtain ⟨front, back, rfl⟩ := List.append_of_mem hx
  have hothers := hrest (front ++ back) fun y hy => h y (by grind)
  simp at hothers ⊢
  nlinarith

theorem Balanced.sum_le_of_total (h : Balanced lens k false partitions) (hk : 0 < k)
    (htotal : lens.sum + (k - 1) * lens.max?.getD 0 ≤ k * limit) (hp : p ∈ partitions) :
    partitionSum lens p ≤ limit := by
  have hclose : ∀ y ∈ partitions.map (partitionSum lens), partitionSum lens p ≤ y + lens.max?.getD 0 := by
    intro y hy
    obtain ⟨q, hq, rfl⟩ := List.mem_map.mp hy
    exact h.sum_le p hp q hq
  have hmul := length_mul_le (List.mem_map_of_mem hp) hclose
  rw [List.length_map, h.length_eq, sum_partitions h.flatten_perm] at hmul
  exact Nat.le_of_mul_le_mul_left (hmul.trans htotal) hk

/-- As many partitions as sequences have one each. -/
theorem Balanced.length_eq_one (h : Balanced lens lens.length false partitions) (hp : p ∈ partitions) :
    p.length = 1 := by
  have hlen := h.length_eq
  have htotal := h.flatten_perm.length_eq
  have hpos := List.length_pos_of_ne_nil (h.ne_nil p hp)
  have hne := h.ne_nil
  obtain ⟨front, back, rfl⟩ := List.append_of_mem hp
  have hothers := List.card_nsmul_le_sum ((front ++ back).map List.length) 1 (by simp; grind)
  simp at hothers htotal hlen
  omega

/-! ## When the limit is kept -/

theorem pos_of_getSeqlenBalancedPartitions (h : getSeqlenBalancedPartitions lens k false = .ok partitions) : 1 ≤ k := by
  obtain ⟨-, -, h⟩ := bind_eq_ok.mp h
  obtain ⟨parts, hparts, -⟩ := bind_eq_ok.mp h
  obtain ⟨items, -, h⟩ := bind_eq_ok.mp hparts
  obtain ⟨states, -, h⟩ := bind_eq_ok.mp h
  dsimp only at h
  split at h
  case h_1 => cases h
  case h_2 finalState _ _ => exact finalState.pos

/-- There are `k` micro-batches: the padded rows fit the limit, and `k` lies between one and the number of rows. -/
structure MicroBatchCount (batch : TensorBatch α) (limit : Nat) (o : MicroBatchOptions) (k : Nat) : Prop where
  width_le : batch.width ≤ limit
  num : numMicroBatches o (seqLenEffective batch.rows) limit = .ok k
  pos : 1 ≤ k
  le : k ≤ batch.rows.length

/-- Each row has a micro-batch of its own, or the limit leaves room for the longest row in all micro-batches but one. -/
def Roomy (batch : TensorBatch α) (limit k : Nat) : Prop :=
  k = batch.rows.length ∨
    (seqLenEffective batch.rows).sum + (k - 1) * (seqLenEffective batch.rows).max?.getD 0 ≤ k * limit

/-- The lengths can be packed into `k` sets within the limit. -/
def Packable (lens : List Nat) (limit k : Nat) : Prop :=
  ∃ sets : List (List Nat), sets.length = k ∧ sets.flatten.Perm (List.range lens.length) ∧
    ∀ p ∈ sets, partitionSum lens p ≤ limit

theorem tokens_of_slices {idxs : List (List Nat)} (h : idxs.flatten.Perm (List.range batch.rows.length)) :
    List.Forall₂ (Selected batch.rows) idxs (idxs.map (slices batch.rows)) ∧
      ∀ p ∈ idxs, (seqLenEffective (slices batch.rows p)).sum = partitionSum (seqLenEffective batch.rows) p := by
  have hselected : ∀ p ∈ idxs, Selected batch.rows p (slices batch.rows p) := fun p hp =>
    selected_slices fun i hi => List.mem_range.mp (h.mem_iff.mp (List.mem_flatten.mpr ⟨p, hp, hi⟩))
  exact ⟨List.forall₂_map_right_iff.mpr (List.forall₂_same.mpr hselected), fun p hp => sum_of_selected (hselected p hp)⟩

theorem respectsLimit_of_fits (hwidth : batch.width ≤ limit)
    (hnum : numMicroBatches o (seqLenEffective batch.rows) limit = .ok k) (hk : 1 ≤ k) (hle : k ≤ batch.rows.length)
    (hfits : ∀ partitions, Balanced (seqLenEffective batch.rows) k false partitions →
      ∀ p ∈ partitions, partitionSum (seqLenEffective batch.rows) p ≤ limit) : RespectsLimit batch limit o := by
  rw [← length_seqLenEffective] at hle
  obtain ⟨parts, hparts, idxs, hperm, hbalanced, heq⟩ := rearrangeMicroBatches_spec hwidth hnum hk hle
  have hflatten := hbalanced.flatten_perm
  rw [length_seqLenEffective] at hflatten
  obtain ⟨hselected, htokens⟩ := tokens_of_slices hflatten
  refine ⟨_, idxs, heq, hflatten, hselected, fun rows hrows => ?_⟩
  obtain ⟨p, hp, rfl⟩ := List.mem_map.mp hrows
  rw [htokens p hp]
  exact hfits idxs hbalanced p hp

/-- Where there is room, no balanced partition is over the limit. -/
theorem Roomy.partitionSum_le (hroom : Roomy batch limit k) (hwidth : batch.width ≤ limit) (hk : 1 ≤ k)
    (h : Balanced (seqLenEffective batch.rows) k false partitions) (hp : p ∈ partitions) :
    partitionSum (seqLenEffective batch.rows) p ≤ limit := by
  rcases hroom with rfl | htotal
  · rw [← length_seqLenEffective] at h
    obtain ⟨i, rfl⟩ := List.length_eq_one_iff.mp (h.length_eq_one hp)
    have hrow : ∀ row ∈ batch.rows, row.attentionMask.count true ≤ limit := fun row hrow =>
      List.count_le_length.trans ((batch.width_eq row hrow).trans_le hwidth)
    show (seqLenEffective batch.rows).getD i 0 ≤ limit
    grind [seqLenEffective]
  · exact h.sum_le_of_total hk htotal hp

/-- The limit is kept with one micro-batch for each row, and where the total leaves room for the balance of the
partitions. -/
theorem respectsLimit_of_room (hwidth : batch.width ≤ limit)
    (hnum : numMicroBatches o (seqLenEffective batch.rows) limit = .ok k) (hk : 1 ≤ k) (hle : k ≤ batch.rows.length)
    (hroom : k = batch.rows.length ∨ (seqLenEffective batch.rows).sum +
      (k - 1) * (seqLenEffective batch.rows).max?.getD 0 ≤ k * limit) : RespectsLimit batch limit o :=
  respectsLimit_of_fits hwidth hnum hk hle fun _ hbalanced _ hp => Roomy.partitionSum_le hroom hwidth hk hbalanced hp

theorem respectsLimit_of_room_three_rows :
    RespectsLimit (⟨List.replicate 3 ⟨List.replicate 6 true, ()⟩, 6, by decide⟩ : TensorBatch Unit) 12 {} :=
  respectsLimit_of_room (by decide) (rfl : numMicroBatches _ _ _ = .ok 2) (by decide) (by decide) (.inr (by decide))

/-- What rearranging has checked where it returns. -/
theorem rearrangeMicroBatches_ok {r : List (List (Row α)) × List (List Nat)}
    (h : rearrangeMicroBatches batch limit o = .ok r) :
    batch.width ≤ limit ∧ ∃ k, numMicroBatches o (seqLenEffective batch.rows) limit = .ok k ∧ 1 ≤ k ∧
      k ≤ (seqLenEffective batch.rows).length := by
  obtain ⟨_, hwidth, h⟩ := bind_eq_ok.mp h
  obtain ⟨k, hnum, h⟩ := bind_eq_ok.mp h
  obtain ⟨_, hle, h⟩ := bind_eq_ok.mp h
  obtain ⟨partitions, hpartitions, -⟩ := bind_eq_ok.mp h
  exact ⟨of_decide_eq_true (pyAssert_eq_ok.mp hwidth), k, hnum, pos_of_getSeqlenBalancedPartitions hpartitions,
    of_decide_eq_true (pyAssert_eq_ok.mp hle)⟩

/-- The limit is kept where there is room, and only where the lengths can be packed. -/
theorem respectsLimit_between (batch : TensorBatch α) (limit : Nat) (o : MicroBatchOptions) :
    ((∃ k, MicroBatchCount batch limit o k ∧ Roomy batch limit k) → RespectsLimit batch limit o) ∧
      (RespectsLimit batch limit o →
        ∃ k, MicroBatchCount batch limit o k ∧ Packable (seqLenEffective batch.rows) limit k) := by
  constructor
  · rintro ⟨k, ⟨hwidth, hnum, hk, hle⟩, hroom⟩
    exact respectsLimit_of_fits hwidth hnum hk hle fun _ hbalanced _ hp => hroom.partitionSum_le hwidth hk hbalanced hp
  · rintro ⟨micro, idxs, h, -, -, hlimit⟩
    obtain ⟨hwidth, k, hnum, hk, hkn⟩ := rearrangeMicroBatches_ok h
    obtain ⟨-, -, idxs', -, hbalanced, heq⟩ := rearrangeMicroBatches_spec hwidth hnum hk hkn
    rw [h] at heq
    cases heq
    have hflatten := hbalanced.flatten_perm
    rw [length_seqLenEffective] at hflatten hkn
    refine ⟨k, ⟨hwidth, hnum, hk, hkn⟩, idxs, hbalanced.length_eq, hbalanced.flatten_perm, fun p hp => ?_⟩
    rw [← (tokens_of_slices hflatten).2 p hp]
    exact hlimit _ (List.mem_map_of_mem hp)

/-- Rows of six, two and four tokens fit into two micro-batches of at most nine. -/
theorem respectsLimit_between_three_rows :
    RespectsLimit (⟨[⟨List.replicate 6 true, ()⟩, ⟨[true, true, false, false, false, false], ()⟩,
      ⟨[true, true, true, true, false, false], ()⟩], 6, by decide⟩ : TensorBatch Unit) 9 {} :=
  (respectsLimit_between _ 9 {}).1 ⟨2, ⟨by decide, rfl, by decide, by decide⟩, Or.inr (by decide)⟩

/-- Three rows of six tokens with a limit of ten: two micro-batches, so one has two of the rows. -/
theorem limit_exceeded_by_three_rows :
    ¬ RespectsLimit (⟨List.replicate 3 ⟨List.replicate 6 true, ()⟩, 6, by decide⟩ : TensorBatch Unit) 10 {} := by
  rintro ⟨micro, idxs, h, -, -, hle⟩
  revert hle
  cases h
  decide

end Yuan.Balancing
