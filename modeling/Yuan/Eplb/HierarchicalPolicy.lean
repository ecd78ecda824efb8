import Yuan.Eplb.Packing

/-!
# The hierarchical policy

The reshapes and the inverse permutations between the levels keep every replica of every expert in one slot.
-/

namespace Yuan.Eplb

variable {W : Type} [LinearOrder W] {perm : Nat → Nat}

/-! ## Inverses -/

theorem inverse_apply {n i : Nat} (h : Permutes n perm) (hi : i < n) :
    inverse perm n (perm i) = i := scatter_of_inj perm h.inj hi

theorem inverse_permutes {n : Nat} (h : Permutes n perm) : Permutes n (inverse perm n) :=
  (h.of_leftInverse fun _ hi => inverse_apply h hi).1

/-- The other side. -/
theorem apply_inverse {n j : Nat} (h : Permutes n perm) (hj : j < n) :
    perm (inverse perm n j) = j := (h.of_leftInverse fun _ hi => inverse_apply h hi).2 j hj

/-! ## Shapes -/

namespace Shape

/-- All numbers are positive, and every expert can have a slot. -/
structure Ample (d : Shape) : Prop where
  logical : 0 < d.numLogicalExperts
  groups : 0 < d.numGroups
  nodes : 0 < d.numNodes
  gpus : 0 < d.numGpus
  enough : d.numLogicalExperts ≤ d.numPhysicalExperts

variable {d : Shape}

theorem Divides.logical_groups (h : d.Divides) : d.numLogicalExperts = d.numGroups * d.groupSize :=
  (Nat.mul_div_cancel' (Nat.dvd_of_mod_eq_zero h.1)).symm

theorem Divides.logical_nodes (h : d.Divides) : d.numLogicalExperts = d.numNodes * d.logicalPerNode :=
  (Nat.mul_div_cancel' ((Nat.dvd_of_mod_eq_zero h.2.1).trans (Nat.dvd_of_mod_eq_zero h.1))).symm

theorem Divides.physical_nodes (h : d.Divides) : d.numPhysicalExperts = d.numNodes * d.physicalPerNode :=
  (Nat.mul_div_cancel' ((Nat.dvd_of_mod_eq_zero h.2.2.1).trans (Nat.dvd_of_mod_eq_zero h.2.2.2))).symm

theorem Divides.logicalPerNode_pos (h : d.Divides) (hd : d.Ample) : 0 < d.logicalPerNode :=
  Nat.pos_of_ne_zero fun hzero => by
    have hnodes := h.logical_nodes
    rw [hzero] at hnodes
    exact Nat.ne_of_gt hd.logical hnodes

theorem Ample.perNode_le (hd : d.Ample) : d.logicalPerNode ≤ d.physicalPerNode := Nat.div_le_div_right hd.enough

/-- The slots of a node are divided among its GPUs as those of all nodes are. -/
theorem Divides.physical_gpus (h : d.Divides) (hd : d.Ample) :
    d.physicalPerNode % d.gpusPerNode = 0 ∧ d.physicalPerNode / d.gpusPerNode = d.phyExpertsPerGpu := by
  obtain ⟨m, hm⟩ := Nat.dvd_of_mod_eq_zero h.2.2.1
  obtain ⟨k, hk⟩ := Nat.dvd_of_mod_eq_zero h.2.2.2
  have hmpos : 0 < m := Nat.pos_of_ne_zero fun hzero => by
    rw [hzero] at hm
    exact Nat.ne_of_gt hd.gpus hm
  have hgpus : d.gpusPerNode = m := by
    unfold gpusPerNode
    rw [hm, Nat.mul_div_cancel_left m hd.nodes]
  have hphysical : d.physicalPerNode = m * k := by
    unfold physicalPerNode
    rw [hk, hm, Nat.mul_assoc, Nat.mul_div_cancel_left _ hd.nodes]
  have hper : d.phyExpertsPerGpu = k := by
    unfold phyExpertsPerGpu
    rw [hk, Nat.mul_div_cancel_left k hd.gpus]
  rw [hphysical, hgpus, hper]
  exact ⟨Nat.mul_mod_right m k, Nat.mul_div_cancel_left k hmpos⟩

end Shape

/-! ## The composition -/

section

variable {d : Shape}

theorem log2mlog_permutes {groups : Packing} (h : d.Divides)
    (hgroups : Permutes d.numGroups (groups.place d.groupsPerNode)) :
    Permutes d.numLogicalExperts (log2mlog d groups) := by
  rw [h.logical_groups]
  exact hgroups.expand

/-- The experts of the nodes side by side, in the slots of their GPUs and under their own names. -/
theorem hierarchicalMapping_placement {groups : Nat → Packing} {experts : Nat → Mapping} {gpus : Nat → Packing}
    {layer : Nat} (h : d.Divides) (hgroups : Permutes d.numGroups ((groups layer).place d.groupsPerNode))
    (hexperts : ∀ row, Placement d.physicalPerNode d.logicalPerNode (experts row).phy2log (experts row).replicaIdx
      (experts row).logcnt) (hgpus : ∀ row, Permutes d.physicalPerNode ((gpus row).place d.phyExpertsPerGpu)) :
    Placement d.numPhysicalExperts d.numLogicalExperts (hierarchicalMapping d groups experts gpus layer).phy2log
      (hierarchicalMapping d groups experts gpus layer).replicaIdx
      (hierarchicalMapping d groups experts gpus layer).logcnt := by
  have hlog2mlog := log2mlog_permutes h hgroups
  have hmlog2log : Permutes d.numLogicalExperts (mlog2log d (groups layer)) := inverse_permutes hlog2mlog
  have hnodes := Placement.sideBySide (n := d.numNodes) fun node _ =>
    (hexperts (layer * d.numNodes + node)).permute (inverse_permutes (hgpus (layer * d.numNodes + node)))
  rw [← h.physical_nodes, ← h.logical_nodes] at hnodes
  exact hnodes.rename hmlog2log fun e he => apply_inverse hlog2mlog he

/-- The hierarchical policy places every expert, for any loads. -/
theorem rebalanceExpertsHierarchical_placement (A : Loads W) (np : ArgSort) (weight : Nat → Nat → W)
    (h : d.Divides) (hd : d.Ample) :
    ∃ mapping, rebalanceExpertsHierarchical A np d weight = some mapping ∧
      ∀ layer, Placement d.numPhysicalExperts d.numLogicalExperts (mapping layer).phy2log (mapping layer).replicaIdx
        (mapping layer).logcnt := by
  obtain ⟨groups, hgroups, hgroupsPerm⟩ :=
    balancedPacking_permutes A np (tokensPerGroup A d weight) hd.groups h.2.1
  obtain ⟨experts, hexperts, hplacement⟩ :=
    replicateExperts_placement A (tokensPerMlog d weight groups) (h.logicalPerNode_pos hd) hd.perNode_le
  obtain ⟨hdiv, hper⟩ := h.physical_gpus hd
  obtain ⟨gpus, hgpus, hgpusPerm⟩ :=
    balancedPacking_permutes A np (tokensPerPhy A d weight groups experts)
      (Nat.lt_of_lt_of_le (h.logicalPerNode_pos hd) hd.perNode_le) hdiv
  refine ⟨hierarchicalMapping d groups experts gpus, ?_, fun layer => ?_⟩
  · unfold rebalanceExpertsHierarchical
    rw [if_pos h, hgroups, Option.bind_some, hexperts, Option.bind_some, hgpus, Option.map_some]
  · apply hierarchicalMapping_placement h (hgroupsPerm layer) hplacement
    intro row
    rw [← hper]
    exact hgpusPerm row

/-- With fewer slots than experts the assertion of `replicate_experts` fails. -/
theorem rebalanceExpertsHierarchical_eq_none (A : Loads W) (np : ArgSort) (weight : Nat → Nat → W)
    (h : d.Divides) (hfew : d.numPhysicalExperts < d.numLogicalExperts) :
    rebalanceExpertsHierarchical A np d weight = none := by
  have hper : ¬ d.logicalPerNode ≤ d.physicalPerNode := by
    intro hle
    have hmul := Nat.mul_le_mul_left d.numNodes hle
    rw [← h.logical_nodes, ← h.physical_nodes] at hmul
    exact Nat.not_le_of_lt hfew hmul
  unfold rebalanceExpertsHierarchical
  rw [if_pos h]
  cases balancedPacking A np (tokensPerGroup A d weight) d.numGroups d.numNodes with
  | none => rfl
  | some groups =>
    rw [Option.bind_some]
    unfold replicateExperts
    rw [if_neg hper]
    rfl

end

end Yuan.Eplb
