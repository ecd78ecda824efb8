import Mathlib.Algebra.BigOperators.Group.Finset.Piecewise
import Mathlib.Algebra.Order.BigOperators.Group.Finset
import Yuan.Eplb.DefaultEplbPolicy

/-!
# Packing and replication

Every place in a pack is taken by exactly one group, and every replica of an expert has its slot, whatever the
loads are.
-/

namespace Yuan.Eplb

variable {W : Type} [LinearOrder W]

/-! ## Packing -/

section

variable (A : Loads W) (weight : Nat → W) {numPacks groupsPerPack : Nat} {indices : Nat → Nat} {n : Nat} {s : Packs W}

/-- What the loop has done after `n` groups. -/
structure Packed (numPacks groupsPerPack : Nat) (indices : Nat → Nat) (n : Nat) (s : Packs W) : Prop where
  items_le : ∀ p, p < numPacks → s.itemsRow p ≤ groupsPerPack
  full : ∀ p, p < numPacks → (s.weightsRow p = ⊤ ↔ s.itemsRow p = groupsPerPack)
  items_sum : ∑ p ∈ Finset.range numPacks, s.itemsRow p = n
  written : ∀ i, i < n → ∃ p r : Nat, s.packIndex (indices i) = p ∧ s.rankInPack (indices i) = r ∧
    p < numPacks ∧ r < s.itemsRow p
  unique : ∀ i j, i < n → j < n → s.packIndex (indices i) = s.packIndex (indices j) →
    s.rankInPack (indices i) = s.rankInPack (indices j) → i = j

/-- While groups are left, the lightest pack is not full. -/
theorem Packed.argmin_not_full (h : Packed numPacks groupsPerPack indices n s) (hn : n < numPacks * groupsPerPack) :
    argmin s.weightsRow numPacks < numPacks ∧ s.itemsRow (argmin s.weightsRow numPacks) < groupsPerPack := by
  have hpacks : 0 < numPacks := Nat.pos_of_ne_zero fun hzero => by
    rw [hzero, Nat.zero_mul] at hn
    exact Nat.not_lt_zero _ hn
  have hlt := argmin_lt s.weightsRow hpacks
  refine ⟨hlt, Nat.lt_of_le_of_ne (h.items_le _ hlt) fun hfull => ?_⟩
  have htop := (h.full _ hlt).mpr hfull
  have hall : ∀ p ∈ Finset.range numPacks, s.itemsRow p = groupsPerPack := by
    intro p hp
    apply (h.full p (Finset.mem_range.mp hp)).mp
    apply top_le_iff.mp
    rw [← htop]
    exact argmin_le (Finset.mem_range.mp hp)
  have hsum := h.items_sum
  rw [Finset.sum_const_nat hall, Finset.card_range] at hsum
  exact Nat.ne_of_lt hn hsum.symm

theorem Packed.put (h : Packed numPacks groupsPerPack indices n s) (hn : n < numPacks * groupsPerPack)
    (hnew : ∀ i, i < n → indices i ≠ indices n) :
    Packed numPacks groupsPerPack indices (n + 1) (s.put A numPacks groupsPerPack weight (indices n)) := by
  obtain ⟨hpack, hroom⟩ := h.argmin_not_full hn
  unfold Packs.put
  generalize argmin s.weightsRow numPacks = pack at hpack hroom
  have hitems : ∀ p, s.itemsRow p ≤ Function.update s.itemsRow pack (s.itemsRow pack + 1) p := by
    intro p
    by_cases hp : p = pack
    · rw [hp, Function.update_self]
      exact Nat.le_succ _
    · rw [Function.update_of_ne hp]
  have hold : ∀ i, i < n → ∀ row : Nat → Int, ∀ v, Function.update row (indices n) v (indices i) = row (indices i) :=
    fun i hi row v => Function.update_of_ne (hnew i hi) v row
  -- an older group is not in the new place
  have hfresh : ∀ i, i < n → s.packIndex (indices i) = pack → s.rankInPack (indices i) ≠ s.itemsRow pack := by
    intro i hi hpackIndex hrank
    obtain ⟨p, r, hp, hr, -, hlt⟩ := h.written i hi
    rw [hp, Int.natCast_inj] at hpackIndex
    rw [hr, Int.natCast_inj] at hrank
    rw [hpackIndex, hrank] at hlt
    exact Nat.lt_irrefl _ hlt
  constructor
  case items_le =>
    intro p hp
    dsimp only
    by_cases heq : p = pack
    · rw [heq, Function.update_self]
      exact hroom
    · rw [Function.update_of_ne heq]
      exact h.items_le p hp
  case full =>
    intro p hp
    dsimp only
    by_cases heq : p = pack
    · rw [heq, Function.update_self, Function.update_self]
      by_cases hfull : s.itemsRow pack + 1 = groupsPerPack
      · rw [if_pos hfull]
        exact iff_of_true rfl hfull
      · rw [if_neg hfull]
        refine iff_of_false (fun htop => ?_) hfull
        rw [WithTop.map_eq_top_iff] at htop
        exact Nat.ne_of_lt hroom ((h.full pack hpack).mp htop)
    · rw [Function.update_of_ne heq, Function.update_of_ne heq]
      exact h.full p hp
  case items_sum =>
    rw [Finset.sum_update_of_mem (Finset.mem_range.mpr hpack), ← h.items_sum,
      Finset.sum_eq_add_sum_sdiff_singleton_of_mem (Finset.mem_range.mpr hpack) s.itemsRow]
    omega
  case written =>
    intro i hi
    dsimp only
    rcases Nat.lt_succ_iff_lt_or_eq.mp hi with hlt | rfl
    · obtain ⟨p, r, hp, hr, hlp, hlr⟩ := h.written i hlt
      exact ⟨p, r, (hold i hlt _ _).trans hp, (hold i hlt _ _).trans hr, hlp, Nat.lt_of_lt_of_le hlr (hitems p)⟩
    · refine ⟨pack, s.itemsRow pack, Function.update_self _ _ _, Function.update_self _ _ _, hpack, ?_⟩
      rw [Function.update_self]
      exact Nat.lt_succ_self _
  case unique =>
    intro i j hi hj hpackIndex hrank
    dsimp only at hpackIndex hrank
    rcases Nat.lt_succ_iff_lt_or_eq.mp hi with hlti | rfl
    · rcases Nat.lt_succ_iff_lt_or_eq.mp hj with hltj | rfl
      · rw [hold i hlti, hold j hltj] at hpackIndex hrank
        exact h.unique i j hlti hltj hpackIndex hrank
      · rw [hold i hlti, Function.update_self] at hpackIndex hrank
        exact absurd hrank (hfresh i hlti hpackIndex)
    · rcases Nat.lt_succ_iff_lt_or_eq.mp hj with hltj | rfl
      · rw [hold j hltj, Function.update_self] at hpackIndex hrank
        exact absurd hrank.symm (hfresh j hltj hpackIndex.symm)
      · rfl

theorem packGroups_packed {numGroups : Nat} (hperm : Permutes numGroups indices) (hpos : 0 < groupsPerPack)
    (hgroups : numGroups = numPacks * groupsPerPack) (hn : n ≤ numGroups) :
    Packed numPacks groupsPerPack indices n (packGroups A numPacks groupsPerPack weight indices n) := by
  induction n with
  | zero =>
    refine ⟨fun p _ => Nat.zero_le _, fun p _ => iff_of_false WithTop.coe_ne_top (Nat.ne_of_lt hpos),
      Finset.sum_const_zero, fun i hi => absurd hi (Nat.not_lt_zero i), fun i _ hi => absurd hi (Nat.not_lt_zero i)⟩
  | succ n ih =>
    unfold packGroups
    rw [List.range_succ, List.foldl_append]
    refine (ih (Nat.le_of_succ_le hn)).put A weight (hgroups ▸ hn) fun i hi heq => ?_
    exact Nat.ne_of_lt hi (hperm.inj i n (Nat.lt_trans hi hn) hn heq)

end

/-- The place of a group: the packs one after the other. -/
def Packing.place (groupsPerPack : Nat) (p : Packing) (group : Nat) : Nat :=
  p.packIndex group * groupsPerPack + p.rankInPack group

/-- Every place of every pack is taken once. -/
theorem balancedPacking_permutes (A : Loads W) (np : ArgSort) (weight : Nat → Nat → W) {numGroups numPacks : Nat}
    (hpos : 0 < numGroups) (hdiv : numGroups % numPacks = 0) :
    ∃ packing, balancedPacking A np weight numGroups numPacks = some packing ∧
      ∀ layer, Permutes numGroups ((packing layer).place (numGroups / numPacks)) := by
  unfold balancedPacking
  rw [if_pos hdiv]
  have hgroups : numGroups = numPacks * (numGroups / numPacks) :=
    (Nat.mul_div_cancel' (Nat.dvd_of_mod_eq_zero hdiv)).symm
  have hper : 0 < numGroups / numPacks := Nat.pos_of_ne_zero fun hzero => by
    rw [hzero] at hgroups
    exact Nat.ne_of_gt hpos hgroups
  split
  · next hone =>
    refine ⟨_, rfl, fun layer => ?_⟩
    unfold Packing.place
    simp only [hone, Nat.mul_one]
    exact ⟨fun _ hi => hi, fun _ _ _ _ heq => heq⟩
  · refine ⟨_, rfl, fun layer => ?_⟩
    have hperm := np.permutes (fun group => OrderDual.toDual (weight layer group)) numGroups
    have hpacked := packGroups_packed A (weight layer) hperm hper hgroups (Nat.le_refl _)
    generalize numGroups / numPacks = groupsPerPack at hgroups hper hpacked
    generalize np.argsort (fun group => OrderDual.toDual (weight layer group)) numGroups = indices at hperm hpacked
    generalize packGroups A numPacks groupsPerPack (weight layer) indices numGroups = s at hpacked
    have hplace : ∀ i, i < numGroups → ∃ p r : Nat, s.packIndex (indices i) = p ∧ s.rankInPack (indices i) = r ∧
        p < numPacks ∧ r < groupsPerPack ∧ s.toPacking.place groupsPerPack (indices i) = p * groupsPerPack + r := by
      intro i hi
      obtain ⟨p, r, hp, hr, hlp, hlr⟩ := hpacked.written i hi
      refine ⟨p, r, hp, hr, hlp, Nat.lt_of_lt_of_le hlr (hpacked.items_le p hlp), ?_⟩
      unfold Packing.place Packs.toPacking
      dsimp only
      rw [hp, hr, Int.toNat_natCast, Int.toNat_natCast]
    refine ⟨fun g hg => ?_, fun g g' hg hg' heq => ?_⟩
    · obtain ⟨i, hi, rfl⟩ := hperm.surj hg
      obtain ⟨p, r, -, -, hp, hr, hval⟩ := hplace i hi
      rw [hval, hgroups]
      calc
        p * groupsPerPack + r < p * groupsPerPack + groupsPerPack := Nat.add_lt_add_left hr _
        _ = (p + 1) * groupsPerPack := (Nat.succ_mul _ _).symm
        _ ≤ numPacks * groupsPerPack := Nat.mul_le_mul_right _ hp
    · obtain ⟨i, hi, rfl⟩ := hperm.surj hg
      obtain ⟨j, hj, rfl⟩ := hperm.surj hg'
      obtain ⟨p, r, hp, hr, -, hlr, hval⟩ := hplace i hi
      obtain ⟨p', r', hp', hr', -, hlr', hval'⟩ := hplace j hj
      rw [hval, hval'] at heq
      have hdiv := congrArg (· / groupsPerPack) heq
      have hmod := congrArg (· % groupsPerPack) heq
      rw [Nat.mul_comm, Nat.mul_comm p', Nat.mul_add_div hper, Nat.mul_add_div hper, Nat.div_eq_of_lt hlr,
        Nat.div_eq_of_lt hlr'] at hdiv
      rw [Nat.mul_add_mod_of_lt hlr, Nat.mul_add_mod_of_lt hlr'] at hmod
      have hpp : p = p' := hdiv
      rw [hpacked.unique i j hi hj (by rw [hp, hp', hpp]) (by rw [hr, hr', hmod])]

/-! ## Replication -/

theorem addReplicas_placement (A : Loads W) (weight : Nat → W) {numLog : Nat} (hpos : 0 < numLog) (n : Nat) :
    Placement (numLog + n) numLog (addReplicas A numLog weight n).phy2log (addReplicas A numLog weight n).replicaIdx
      (addReplicas A numLog weight n).logcnt := by
  induction n with
  | zero => exact Placement.refl numLog
  | succ n ih =>
    unfold addReplicas
    rw [List.range_succ, List.foldl_append]
    exact ih.add (argmax_lt _ hpos)

theorem replicateExperts_placement (A : Loads W) (weight : Nat → Nat → W) {numLog numPhy : Nat} (hpos : 0 < numLog)
    (hle : numLog ≤ numPhy) :
    ∃ experts, replicateExperts A weight numLog numPhy = some experts ∧
      ∀ row, Placement numPhy numLog (experts row).phy2log (experts row).replicaIdx (experts row).logcnt := by
  unfold replicateExperts
  rw [if_pos hle]
  refine ⟨_, rfl, fun row => ?_⟩
  have hplacement := addReplicas_placement A (weight row) hpos (numPhy - numLog)
  rw [Nat.add_sub_cancel' hle] at hplacement
  exact hplacement

end Yuan.Eplb
