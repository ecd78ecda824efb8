import Yuan.Eplb.HierarchicalPolicy
import Yuan.Eplb.SlotPreservation

/-!
# Rebalanced experts

The three maps that `rebalance_experts` returns agree with each other, for any loads.
-/

namespace Yuan.Eplb

variable {W : Type} [LinearOrder W]

/-! ## The slots of an expert -/

section

variable {m : Mapping} {numReplicas numLogicalExperts : Nat}
  (h : Placement numReplicas numLogicalExperts m.phy2log m.replicaIdx m.logcnt)
include h

theorem log2phyRow_of_lt {e r : Nat} (he : e < numLogicalExperts) (hr : r < m.logcnt e) :
    ∃ i, i < numReplicas ∧ log2phyRow m numReplicas (e, r) = i ∧ m.phy2log i = e ∧ m.replicaIdx i = r := by
  obtain ⟨i, hi, rfl, rfl⟩ := h.placed e he r hr
  refine ⟨i, hi, ?_, rfl, rfl⟩
  refine scatter_of_inj (fun i => (m.phy2log i, m.replicaIdx i)) (fun i j hi hj heq => ?_) hi
  exact h.unique i j hi hj (congrArg Prod.fst heq) (congrArg Prod.snd heq)

theorem log2phyRow_of_le {e r : Nat} (hr : m.logcnt e ≤ r) : log2phyRow m numReplicas (e, r) = -1 := by
  refine scatter_of_ne fun i hi heq => ?_
  have hlt := h.replica_lt i hi
  rw [show m.phy2log i = e from congrArg Prod.fst heq, show m.replicaIdx i = r from congrArg Prod.snd heq] at hlt
  exact Nat.not_le_of_lt hlt hr

end

/-- What the results say about one layer. -/
structure ValidLayer (numLogicalExperts numReplicas numRanks : Nat) (phy2log : Nat → Nat) (log2phy : Nat → Nat → Int)
    (logcnt : Nat → Nat) : Prop where
  /-- The slots hold logical experts, and every logical expert has a slot. -/
  logical : ∀ i, i < numReplicas → phy2log i < numLogicalExperts
  occurs : ∀ e, e < numLogicalExperts → ∃ i, i < numReplicas ∧ phy2log i = e
  counted : ∀ e, e < numLogicalExperts → logcnt e = ((Finset.range numReplicas).filter fun i => phy2log i = e).card
  /-- The first entries are the slots of the expert, each once. The others are `-1`. -/
  slot : ∀ e r, e < numLogicalExperts → r < logcnt e → ∃ i, i < numReplicas ∧ log2phy e r = i ∧ phy2log i = e
  distinct : ∀ e r r', e < numLogicalExperts → r < logcnt e → r' < logcnt e → log2phy e r = log2phy e r' → r = r'
  listed : ∀ i, i < numReplicas → ∃ r, r < logcnt (phy2log i) ∧ log2phy (phy2log i) r = i
  rest : ∀ e r, e < numLogicalExperts → logcnt e ≤ r → log2phy e r = -1
  /-- The first entries are in the array. -/
  width : ∀ e, e < numLogicalExperts → logcnt e ≤ numReplicas - numLogicalExperts + 1
  share : ∀ rank, rank < numRanks →
    ((Finset.range numReplicas).filter fun i => i / (numReplicas / numRanks) = rank).card = numReplicas / numRanks

/-- The ranks have as many slots as each other. -/
theorem card_slots {numReplicas numRanks rank : Nat} (hpos : 0 < numReplicas) (hdiv : numReplicas % numRanks = 0)
    (hrank : rank < numRanks) :
    ((Finset.range numReplicas).filter fun i => i / (numReplicas / numRanks) = rank).card = numReplicas / numRanks := by
  have hslots : numReplicas = numRanks * (numReplicas / numRanks) :=
    (Nat.mul_div_cancel' (Nat.dvd_of_mod_eq_zero hdiv)).symm
  generalize numReplicas / numRanks = slots at hslots ⊢
  have hslotsPos : 0 < slots := Nat.pos_of_ne_zero fun hzero => by
    rw [hzero] at hslots
    exact Nat.ne_of_gt hpos hslots
  have hfilter : ((Finset.range numReplicas).filter fun i => i / slots = rank) =
      Finset.Ico (rank * slots) ((rank + 1) * slots) := by
    ext i
    rw [Finset.mem_filter, Finset.mem_range, Finset.mem_Ico, Nat.div_eq_iff hslotsPos]
    have hle : (rank + 1) * slots ≤ numReplicas := hslots ▸ Nat.mul_le_mul_right slots hrank
    rw [Nat.succ_mul] at hle ⊢
    omega
  rw [hfilter, Nat.card_Ico, Nat.succ_mul, Nat.add_sub_cancel_left]

theorem ValidLayer.of_placement {m : Mapping} {numReplicas numLogicalExperts numRanks : Nat}
    (h : Placement numReplicas numLogicalExperts m.phy2log m.replicaIdx m.logcnt) (hpos : 0 < numReplicas)
    (hdiv : numReplicas % numRanks = 0) :
    ValidLayer numLogicalExperts numReplicas numRanks m.phy2log (fun e r => log2phyRow m numReplicas (e, r))
      m.logcnt where
  logical := h.object_lt
  occurs e he := by
    obtain ⟨i, hi, hobject, -⟩ := h.placed e he 0 (h.pos e he)
    exact ⟨i, hi, hobject⟩
  counted e he := (h.count_eq he).symm
  slot e r he hr := by
    obtain ⟨i, hi, hrow, hobject, -⟩ := log2phyRow_of_lt h he hr
    exact ⟨i, hi, hrow, hobject⟩
  distinct e r r' he hr hr' heq := by
    obtain ⟨i, -, hrow, -, rfl⟩ := log2phyRow_of_lt h he hr
    obtain ⟨i', -, hrow', -, rfl⟩ := log2phyRow_of_lt h he hr'
    rw [hrow, hrow', Int.natCast_inj] at heq
    rw [heq]
  listed i hi := by
    refine ⟨m.replicaIdx i, h.replica_lt i hi, ?_⟩
    obtain ⟨j, hj, hrow, hobject, hreplica⟩ := log2phyRow_of_lt h (h.object_lt i hi) (h.replica_lt i hi)
    rw [hrow, h.unique j i hj hi hobject hreplica]
  rest _ _ _ hr := log2phyRow_of_le h hr
  width _ he := h.count_le he
  share _ hrank := card_slots hpos hdiv hrank

/-! ## The old slots -/

/-- The slots of each rank are permuted, and an expert that the rank had stays in one of its old slots. -/
structure SlotsKept (slotsPerRank numRanks : Nat) (phy2log : Nat → Nat) (old : Nat → Int) (post : Nat → Nat) :
    Prop where
  permuted : ∀ rank, rank < numRanks → ∃ perm, Permutes slotsPerRank perm ∧ ∀ slot, slot < slotsPerRank →
    post (rank * slotsPerRank + slot) = phy2log (rank * slotsPerRank + perm slot)
  kept : ∀ rank slot j, rank < numRanks → slot < slotsPerRank → j < slotsPerRank →
    (phy2log (rank * slotsPerRank + j) : Int) = old (rank * slotsPerRank + slot) →
    ∃ slot', slot' < slotsPerRank ∧ old (rank * slotsPerRank + slot') = old (rank * slotsPerRank + slot) ∧
      (post (rank * slotsPerRank + slot') : Int) = old (rank * slotsPerRank + slot)

/-- Permuted blocks are a permutation of all slots. -/
theorem permutes_of_blocks {m : Mapping} {slotsPerGpu numRanks : Nat} {old : Nat → Int} {source : Nat → Nat}
    (h : ∀ rank, rank < numRanks → BlockKept m slotsPerGpu (rank * slotsPerGpu) old source) :
    Permutes (numRanks * slotsPerGpu) source := by
  have hlocal : ∀ rank, rank < numRanks →
      Permutes slotsPerGpu fun slot => source (rank * slotsPerGpu + slot) - rank * slotsPerGpu := by
    intro rank hrank
    obtain ⟨perm, hperm, hsource⟩ := (h rank hrank).permutes
    refine hperm.congr fun slot hslot => ?_
    rw [hsource slot hslot, Nat.add_sub_cancel_left]
  refine (Permutes.blocks hlocal).congr fun i hi => ?_
  have hslots : 0 < slotsPerGpu := Nat.pos_of_ne_zero fun hzero => by
    rw [hzero] at hi
    exact Nat.not_lt_zero _ hi
  obtain ⟨perm, -, hsource⟩ :=
    (h (i / slotsPerGpu) (Nat.div_lt_of_lt_mul (Nat.mul_comm numRanks slotsPerGpu ▸ hi))).permutes
  have hi' := hsource _ (Nat.mod_lt i hslots)
  rw [Nat.mul_comm (i / slotsPerGpu), Nat.div_add_mod] at hi'
  rw [Nat.mul_comm (i / slotsPerGpu), Nat.div_add_mod, hi', Nat.add_sub_cancel_left]

theorem preserveIntragpuSlots_kept (np : ArgSort) {mapping : Nat → Mapping}
    {numReplicas numRanks numLogicalExperts : Nat} {old : OldIndices} (hranks : 0 < numRanks)
    (hdiv : numReplicas % numRanks = 0) (hold : numReplicas ≤ old.width)
    (h : ∀ layer, Placement numReplicas numLogicalExperts (mapping layer).phy2log (mapping layer).replicaIdx
      (mapping layer).logcnt) :
    ∃ post, preserveIntragpuSlots np mapping numReplicas numRanks old = some post ∧
      ∀ layer, Placement numReplicas numLogicalExperts (post layer).phy2log (post layer).replicaIdx
          (post layer).logcnt ∧
        SlotsKept (numReplicas / numRanks) numRanks (mapping layer).phy2log (old.entry layer) (post layer).phy2log := by
  unfold preserveIntragpuSlots
  have hcond : ¬ (numRanks = 0 ∨ numReplicas % numRanks ≠ 0) := by
    rintro (hzero | hne)
    · exact Nat.ne_of_gt hranks hzero
    · exact hne hdiv
  rw [if_neg hcond, if_neg (Nat.not_lt_of_le hold)]
  refine ⟨_, rfl, fun layer => ?_⟩
  have hslots : numReplicas = numRanks * (numReplicas / numRanks) :=
    (Nat.mul_div_cancel' (Nat.dvd_of_mod_eq_zero hdiv)).symm
  obtain ⟨source, hfrom, -, hblocks⟩ := preserveLayer_kept np (mapping layer) (numReplicas / numRanks) (old.entry layer)
    numRanks
  dsimp only
  rw [hfrom.phy2log, hfrom.replicaIdx]
  constructor
  · apply (h layer).permute
    have hperm := permutes_of_blocks hblocks
    rw [← hslots] at hperm
    exact hperm
  · refine ⟨fun rank hrank => ?_, fun rank slot j hrank hslot hj heq => (hblocks rank hrank).kept slot j hslot hj heq⟩
    obtain ⟨perm, hperm, hsource⟩ := (hblocks rank hrank).permutes
    exact ⟨perm, hperm, fun slot hslot => by rw [hsource slot hslot]⟩

/-! ## The entry point -/

theorem finish_eq_some {mapping : Nat → Mapping} {numLayers numReplicas numLogicalExperts : Nat}
    (h : ∀ layer, Placement numReplicas numLogicalExperts (mapping layer).phy2log (mapping layer).replicaIdx
      (mapping layer).logcnt) :
    finish numLayers numReplicas numLogicalExperts mapping = some {
      phy2log := fun layer => (mapping layer).phy2log
      log2phy := fun layer e r => log2phyRow (mapping layer) numReplicas (e, r)
      logcnt := fun layer => (mapping layer).logcnt } := by
  unfold finish
  rw [if_pos]
  intro layer _ i hi
  have hobject := (h layer).object_lt i hi
  exact ⟨hobject, Nat.lt_of_lt_of_le ((h layer).replica_lt i hi) ((h layer).count_le hobject)⟩

section

variable {numLayers numLogicalExperts numReplicas numGroups numNodes numRanks : Nat}
variable {old : Option OldIndices}

theorem policyShape_logical (numLogicalExperts numReplicas numGroups numNodes numRanks : Nat) :
    (policyShape numLogicalExperts numReplicas numGroups numNodes numRanks).numLogicalExperts = numLogicalExperts ∧
      (policyShape numLogicalExperts numReplicas numGroups numNodes numRanks).numPhysicalExperts = numReplicas ∧
      (policyShape numLogicalExperts numReplicas numGroups numNodes numRanks).numGpus = numRanks := by
  unfold policyShape
  split <;> exact ⟨rfl, rfl, rfl⟩

theorem policyShape_ample (hlogical : 0 < numLogicalExperts) (hgroups : 0 < numGroups) (hnodes : 0 < numNodes)
    (hranks : 0 < numRanks) (henough : numLogicalExperts ≤ numReplicas) :
    (policyShape numLogicalExperts numReplicas numGroups numNodes numRanks).Ample := by
  unfold policyShape
  split
  · exact ⟨hlogical, hgroups, hnodes, hranks, henough⟩
  · exact ⟨hlogical, Nat.one_pos, Nat.one_pos, hranks, henough⟩

/-- For any loads, the maps of every layer agree with each other, and an old map only moves experts within their
ranks, so that those that stay keep a slot. -/
theorem rebalanceExperts_valid (A : Loads W) (np : ArgSort) (weight : Nat → Nat → W) (hlogical : 0 < numLogicalExperts)
    (hgroups : 0 < numGroups) (hnodes : 0 < numNodes) (hranks : 0 < numRanks)
    (hdivides : (policyShape numLogicalExperts numReplicas numGroups numNodes numRanks).Divides)
    (henough : numLogicalExperts ≤ numReplicas) (hold : ∀ indices, old = some indices → numReplicas ≤ indices.width) :
    ∃ mapping result,
      rebalanceExpertsHierarchical A np (policyShape numLogicalExperts numReplicas numGroups numNodes numRanks) weight =
        some mapping ∧
      rebalanceExperts A np weight numLayers numLogicalExperts numReplicas numGroups numNodes numRanks old =
        some result ∧
      ∀ layer, ValidLayer numLogicalExperts numReplicas numRanks (result.phy2log layer) (result.log2phy layer)
          (result.logcnt layer) ∧ (old = none → result.phy2log layer = (mapping layer).phy2log) ∧
        ∀ indices, old = some indices →
          SlotsKept (numReplicas / numRanks) numRanks (mapping layer).phy2log (indices.entry layer)
            (result.phy2log layer) := by
  have hample := policyShape_ample hlogical hgroups hnodes hranks henough
  obtain ⟨mapping, hmapping, hplacement⟩ :=
    rebalanceExpertsHierarchical_placement A np weight hdivides hample
  have hdiv := hdivides.2.2.2
  obtain ⟨hL, hP, hR⟩ := policyShape_logical numLogicalExperts numReplicas numGroups numNodes numRanks
  rw [hP, hR] at hdiv
  rw [hL, hP] at hplacement
  have hreplicas : 0 < numReplicas := Nat.lt_of_lt_of_le hlogical henough
  unfold rebalanceExperts
  rw [hmapping, Option.bind_some]
  cases old with
  | none =>
    rw [Option.bind_some, finish_eq_some hplacement]
    exact ⟨mapping, _, rfl, rfl, fun layer => ⟨ValidLayer.of_placement (hplacement layer) hreplicas hdiv,
      fun _ => rfl, fun _ h => (by cases h)⟩⟩
  | some indices =>
    obtain ⟨post, hpost, hkept⟩ :=
      preserveIntragpuSlots_kept np hranks hdiv (hold indices rfl) hplacement
    dsimp only
    rw [hpost, Option.bind_some, finish_eq_some fun layer => (hkept layer).1]
    refine ⟨mapping, _, rfl, rfl, fun layer => ⟨ValidLayer.of_placement (hkept layer).1 hreplicas hdiv,
      fun h => (by cases h), fun indices' h => ?_⟩⟩
    cases h
    exact (hkept layer).2

end

/-- Loads in whole tokens. -/
def tokenLoads : Loads Nat where
  zero := 0
  add := Nat.add
  sum := List.foldr Nat.add 0
  div := Nat.div

/-- Four experts in two groups, six slots on two ranks, and an old map. -/
theorem rebalanceExperts_valid_six :
    ∃ mapping result,
      rebalanceExpertsHierarchical tokenLoads stableArgSort (policyShape 4 6 2 1 2) (fun _ e => 12 * e) = some mapping ∧
      rebalanceExperts tokenLoads stableArgSort (fun _ e => 12 * e) 1 4 6 2 1 2 (some ⟨6, fun _ i => i % 4⟩) =
        some result ∧ ∀ layer, ValidLayer 4 6 2 (result.phy2log layer) (result.log2phy layer) (result.logcnt layer) ∧
        (some (⟨6, fun _ i => i % 4⟩ : OldIndices) = none → result.phy2log layer = (mapping layer).phy2log) ∧
        ∀ indices, some (⟨6, fun _ i => i % 4⟩ : OldIndices) = some indices →
          SlotsKept (6 / 2) 2 (mapping layer).phy2log (indices.entry layer) (result.phy2log layer) :=
  rebalanceExperts_valid tokenLoads stableArgSort (fun _ e => 12 * e) (by decide) (by decide) (by decide) (by decide)
    (by decide) (by decide) fun indices h => by
      cases h
      exact Nat.le_refl 6

/-- With fewer slots than experts an assertion fails, and with an old map for fewer slots an index is out of range,
though all numbers divide each other. -/
theorem rebalanceExperts_fails :
    ((policyShape 2 1 1 1 1).Divides ∧
      rebalanceExperts tokenLoads stableArgSort (fun _ e => 12 * e) 1 2 1 1 1 1 none = none) ∧
    (policyShape 1 2 1 1 1).Divides ∧
      rebalanceExperts tokenLoads stableArgSort (fun _ e => 12 * e) 1 1 2 1 1 1 (some ⟨1, fun _ _ => 0⟩) = none := by
  refine ⟨⟨by decide, ?_⟩, by decide, ?_⟩
  · unfold rebalanceExperts
    rw [rebalanceExpertsHierarchical_eq_none tokenLoads stableArgSort _ (by decide) (by decide), Option.bind_none]
  · unfold rebalanceExperts
    obtain ⟨mapping, hmapping, -⟩ := rebalanceExpertsHierarchical_placement tokenLoads stableArgSort
      (fun _ e => 12 * e) (show (policyShape 1 2 1 1 1).Divides by decide)
      (policyShape_ample (by decide) (by decide) (by decide) (by decide) (by decide))
    rfl

end Yuan.Eplb
