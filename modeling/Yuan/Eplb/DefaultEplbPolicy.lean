import Mathlib.Order.WithBot
import Yuan.Lib.ArgSort

/-!
# The expert parallelism load balancer

The default policy gives every logical expert one or more of the physical slots: groups of experts are packed to
nodes, the experts of a node are replicated, and the replicas of a node are packed to its GPUs.

An array `[X, n]` is a function of the row and the column. A failed assertion or an index out of range is `none`.
-/

namespace Yuan.Eplb

/-- The arithmetic of loads, however it rounds. The values are finite; `np.inf` is put on top of them. -/
structure Loads (W : Type) where
  zero : W
  add : W → W → W
  sum : List W → W
  div : W → Nat → W

variable {W : Type} [LinearOrder W] (A : Loads W) (np : ArgSort)

/-! ## Packing -/

/-- One row of `pack_index` and `rank_in_pack`. -/
structure Packing where
  packIndex : Nat → Nat
  rankInPack : Nat → Nat

/-- The arrays of `balanced_packing` for one layer. -/
structure Packs (W : Type) where
  packIndex : Nat → Int
  rankInPack : Nat → Int
  weightsRow : Nat → WithTop W
  itemsRow : Nat → Nat

/-- The body of the loop over the groups of a layer. -/
def Packs.put (numPacks groupsPerPack : Nat) (weight : Nat → W) (s : Packs W) (group : Nat) : Packs W :=
  let pack := argmin s.weightsRow numPacks
  { packIndex := Function.update s.packIndex group pack
    rankInPack := Function.update s.rankInPack group (s.itemsRow pack)
    weightsRow := Function.update s.weightsRow pack
      (if s.itemsRow pack + 1 = groupsPerPack then ⊤ else (s.weightsRow pack).map (A.add · (weight group)))
    itemsRow := Function.update s.itemsRow pack (s.itemsRow pack + 1) }

/-- The loop over the first `n` of the sorted groups of a layer. -/
def packGroups (numPacks groupsPerPack : Nat) (weight : Nat → W) (indices : Nat → Nat) (n : Nat) : Packs W :=
  (List.range n).foldl (fun s i => s.put A numPacks groupsPerPack weight (indices i))
    { packIndex := fun _ => -1
      rankInPack := fun _ => -1
      weightsRow := fun _ => A.zero
      itemsRow := fun _ => 0 }

/-- The rows of `pack_index` and `rank_in_pack`. No entry is `-1` after the loop. -/
def Packs.toPacking (s : Packs W) : Packing where
  packIndex group := (s.packIndex group).toNat
  rankInPack group := (s.rankInPack group).toNat

/-- `balanced_packing`. The order dual stands for the sign in `np.argsort(-weight)`. -/
def balancedPacking (weight : Nat → Nat → W) (numGroups numPacks : Nat) : Option (Nat → Packing) :=
  if numGroups % numPacks = 0 then
    if numGroups / numPacks = 1 then some fun _ => { packIndex := fun group => group, rankInPack := fun _ => 0 }
    else
      some fun layer =>
        (packGroups A numPacks (numGroups / numPacks) (weight layer)
          (np.argsort (fun group => OrderDual.toDual (weight layer group)) numGroups) numGroups).toPacking
  else none

/-! ## Replication -/

/-- One row of `phy2log`, `replica_idx` and `logcnt`. -/
structure Mapping where
  phy2log : Nat → Nat
  replicaIdx : Nat → Nat
  logcnt : Nat → Nat

/-- The body of the loop over the redundant slots, in one row. -/
def Mapping.addReplica (numLog : Nat) (weight : Nat → W) (m : Mapping) (i : Nat) : Mapping :=
  let redundant := argmax (fun e => A.div (weight e) (m.logcnt e)) numLog
  { phy2log := Function.update m.phy2log i redundant
    replicaIdx := Function.update m.replicaIdx i (m.logcnt redundant)
    logcnt := Function.update m.logcnt redundant (m.logcnt redundant + 1) }

/-- The loop over the first `n` redundant slots, in one row. -/
def addReplicas (numLog : Nat) (weight : Nat → W) (n : Nat) : Mapping :=
  (List.range n).foldl (fun m k => m.addReplica A numLog weight (numLog + k))
    { phy2log := fun i => i
      replicaIdx := fun _ => 0
      logcnt := fun _ => 1 }

/-- `replicate_experts`. -/
def replicateExperts (weight : Nat → Nat → W) (numLog numPhy : Nat) : Option (Nat → Mapping) :=
  if numLog ≤ numPhy then some fun row => addReplicas A numLog (weight row) (numPhy - numLog) else none

/-! ## The hierarchical policy -/

/-- `inverse`, in one row. The entries of `np.empty_like` are all written. -/
def inverse (perm : Nat → Nat) (n : Nat) : Nat → Nat := scatter n perm (fun i => i) fun _ => 0

/-- The shape of the problem. -/
structure Shape where
  numLogicalExperts : Nat
  numPhysicalExperts : Nat
  numGroups : Nat
  numNodes : Nat
  numGpus : Nat
  deriving DecidableEq

namespace Shape

variable (d : Shape)

def groupSize : Nat := d.numLogicalExperts / d.numGroups

def groupsPerNode : Nat := d.numGroups / d.numNodes

def phyExpertsPerGpu : Nat := d.numPhysicalExperts / d.numGpus

/-- The columns of `tokens_per_mlog`. -/
def logicalPerNode : Nat := d.numLogicalExperts / d.numNodes

/-- The columns of `phy2mlog`. -/
def physicalPerNode : Nat := d.numPhysicalExperts / d.numNodes

def gpusPerNode : Nat := d.numGpus / d.numNodes

/-- The assertions of `rebalance_experts_hierarchical`. -/
def Divides : Prop :=
  d.numLogicalExperts % d.numGroups = 0 ∧ d.numGroups % d.numNodes = 0 ∧ d.numGpus % d.numNodes = 0 ∧
    d.numPhysicalExperts % d.numGpus = 0

instance : Decidable d.Divides := by
  unfold Divides
  infer_instance

end Shape

section

variable (d : Shape) (weight : Nat → Nat → W)

def tokensPerGroup (layer group : Nat) : W :=
  A.sum ((List.range d.groupSize).map fun k => weight layer (group * d.groupSize + k))

/-- One row of `log2mlog`. -/
def log2mlog (groups : Packing) (e : Nat) : Nat :=
  (groups.packIndex (e / d.groupSize) * d.groupsPerNode + groups.rankInPack (e / d.groupSize)) * d.groupSize +
    e % d.groupSize

/-- One row of `mlog2log`. -/
def mlog2log (groups : Packing) : Nat → Nat := inverse (log2mlog d groups) d.numLogicalExperts

/-- `tokens_per_mlog`: after the reshape, node `n` of layer `l` is row `l * num_nodes + n`. -/
def tokensPerMlog (groups : Nat → Packing) (row e : Nat) : W :=
  weight (row / d.numNodes) (mlog2log d (groups (row / d.numNodes)) (row % d.numNodes * d.logicalPerNode + e))

def tokensPerPhy (groups : Nat → Packing) (experts : Nat → Mapping) (row i : Nat) : W :=
  A.div (tokensPerMlog d weight groups row ((experts row).phy2log i))
    ((experts row).logcnt ((experts row).phy2log i))

/-- One row of `phy2pphy`. -/
def phy2pphy (gpus : Packing) (i : Nat) : Nat := gpus.packIndex i * d.phyExpertsPerGpu + gpus.rankInPack i

/-- One row of `pphy2phy`. -/
def pphy2phy (gpus : Packing) : Nat → Nat := inverse (phy2pphy d gpus) d.physicalPerNode

/-- One layer of `pphy2mlog`, after the second reshape. -/
def pphy2mlog (experts : Nat → Mapping) (gpus : Nat → Packing) (layer i : Nat) : Nat :=
  let row := layer * d.numNodes + i / d.physicalPerNode
  (experts row).phy2log (pphy2phy d (gpus row) (i % d.physicalPerNode)) + i / d.physicalPerNode * d.logicalPerNode

/-- The three results for one layer. -/
def hierarchicalMapping (groups : Nat → Packing) (experts : Nat → Mapping) (gpus : Nat → Packing) (layer : Nat) :
    Mapping where
  phy2log i := mlog2log d (groups layer) (pphy2mlog d experts gpus layer i)
  replicaIdx i :=
    let row := layer * d.numNodes + i / d.physicalPerNode
    (experts row).replicaIdx (pphy2phy d (gpus row) (i % d.physicalPerNode))
  logcnt e :=
    let m := log2mlog d (groups layer) e
    (experts (layer * d.numNodes + m / d.logicalPerNode)).logcnt (m % d.logicalPerNode)

/-- `rebalance_experts_hierarchical`. -/
def rebalanceExpertsHierarchical : Option (Nat → Mapping) :=
  if d.Divides then
    (balancedPacking A np (tokensPerGroup A d weight) d.numGroups d.numNodes).bind fun groups =>
    (replicateExperts A (tokensPerMlog d weight groups) d.logicalPerNode d.physicalPerNode).bind fun experts =>
    (balancedPacking A np (tokensPerPhy A d weight groups experts) d.physicalPerNode d.gpusPerNode).map fun gpus =>
    hierarchicalMapping d groups experts gpus
  else none

end

/-! ## Preserving slots -/

/-- The arrays of `preserve_intragpu_slots` for one layer. The masks are those of one GPU. -/
structure Slots where
  postPhy2log : Nat → Nat
  postPhyReplicasIdx : Nat → Nat
  usedNewIndices : Nat → Bool
  preservedPositions : Nat → Bool

section

variable (m : Mapping) (slotsPerGpu start : Nat) (old : Nat → Int)

/-- A new local expert that matches the old one in slot `slotIdx` and is not used yet. -/
def isMatch (used : Nat → Bool) (slotIdx j : Nat) : Bool :=
  decide ((m.phy2log (start + j) : Int) = old (start + slotIdx)) && !used j

/-- The body of the first pass, for one layer. -/
def Slots.preserve (s : Slots) (slotIdx : Nat) : Slots :=
  match (List.range slotsPerGpu).find? (isMatch m start old s.usedNewIndices slotIdx) with
  | none => s
  | some firstIdx =>
    { postPhy2log := Function.update s.postPhy2log (start + slotIdx) (m.phy2log (start + firstIdx))
      postPhyReplicasIdx := Function.update s.postPhyReplicasIdx (start + slotIdx) (m.replicaIdx (start + firstIdx))
      usedNewIndices := Function.update s.usedNewIndices firstIdx true
      preservedPositions := Function.update s.preservedPositions slotIdx true }

/-- The second pass, for one layer. Its guard on the masks of all layers changes nothing. -/
def Slots.fill (s : Slots) : Slots :=
  let remaining := fun j => !s.usedNewIndices j
  let free := fun j => !s.preservedPositions j
  let srcPos := np.argsort (maskPriority remaining slotsPerGpu) slotsPerGpu
  let dstPos := np.argsort (maskPriority free slotsPerGpu) slotsPerGpu
  let k := min (maskCount remaining slotsPerGpu) (maskCount free slotsPerGpu)
  { s with
    postPhy2log := scatter k (fun i => start + dstPos i) (fun i => m.phy2log (start + srcPos i)) s.postPhy2log
    postPhyReplicasIdx :=
      scatter k (fun i => start + dstPos i) (fun i => m.replicaIdx (start + srcPos i)) s.postPhyReplicasIdx }

/-- The body of the loop over the GPUs, for one layer. -/
def Slots.gpu (s : Slots) : Slots :=
  ((List.range slotsPerGpu).foldl (Slots.preserve m slotsPerGpu start old)
    { s with
      usedNewIndices := fun _ => false
      preservedPositions := fun _ => false }).fill np m slotsPerGpu start

end

/-- One layer of `preserve_intragpu_slots`. -/
def preserveLayer (m : Mapping) (slotsPerGpu numRanks : Nat) (old : Nat → Int) : Slots :=
  (List.range numRanks).foldl (fun s gpuIdx => s.gpu np m slotsPerGpu (gpuIdx * slotsPerGpu) old)
    { postPhy2log := m.phy2log
      postPhyReplicasIdx := m.replicaIdx
      usedNewIndices := fun _ => false
      preservedPositions := fun _ => false }

/-- `old_global_expert_indices`, with the number of its columns. -/
structure OldIndices where
  width : Nat
  entry : Nat → Nat → Int

/-- `preserve_intragpu_slots`. The columns of the old array are read up to the last slot. -/
def preserveIntragpuSlots (mapping : Nat → Mapping) (numPhyExperts numRanks : Nat) (old : OldIndices) :
    Option (Nat → Mapping) :=
  if numRanks = 0 ∨ numPhyExperts % numRanks ≠ 0 then some mapping
  else if old.width < numPhyExperts then none
  else
    some fun layer =>
      { mapping layer with
        phy2log := (preserveLayer np (mapping layer) (numPhyExperts / numRanks) numRanks (old.entry layer)).postPhy2log
        replicaIdx :=
          (preserveLayer np (mapping layer) (numPhyExperts / numRanks) numRanks (old.entry layer)).postPhyReplicasIdx }

/-! ## The entry point -/

/-- The results of `rebalance_experts`. -/
structure Rebalanced where
  phy2log : Nat → Nat → Nat
  log2phy : Nat → Nat → Nat → Int
  logcnt : Nat → Nat → Nat

/-- One layer of `log2phy_np`, with expert and replica as the key. -/
def log2phyRow (m : Mapping) (numReplicas : Nat) : Nat × Nat → Int :=
  scatter numReplicas (fun i => (m.phy2log i, m.replicaIdx i)) (fun i => i) fun _ => -1

/-- The assignment to `log2phy_np` and the results. -/
def finish (numLayers numReplicas numLogicalExperts : Nat) (mapping : Nat → Mapping) : Option Rebalanced :=
  if ∀ layer, layer < numLayers → ∀ i, i < numReplicas →
    (mapping layer).phy2log i < numLogicalExperts ∧
      (mapping layer).replicaIdx i < numReplicas - numLogicalExperts + 1 then
    some {
      phy2log := fun layer => (mapping layer).phy2log
      log2phy := fun layer e r => log2phyRow (mapping layer) numReplicas (e, r)
      logcnt := fun layer => (mapping layer).logcnt }
  else none

/-- The shape for the hierarchical or for the global policy. -/
def policyShape (numLogicalExperts numReplicas numGroups numNodes numRanks : Nat) : Shape :=
  if numGroups % numNodes = 0 then ⟨numLogicalExperts, numReplicas, numGroups, numNodes, numRanks⟩
  else ⟨numLogicalExperts, numReplicas, 1, 1, numRanks⟩

/-- `rebalance_experts`. -/
def rebalanceExperts (weight : Nat → Nat → W)
    (numLayers numLogicalExperts numReplicas numGroups numNodes numRanks : Nat) (old : Option OldIndices) :
    Option Rebalanced :=
  (rebalanceExpertsHierarchical A np (policyShape numLogicalExperts numReplicas numGroups numNodes numRanks)
    weight).bind fun mapping =>
  (match old with
    | none => some mapping
    | some old => preserveIntragpuSlots np mapping numReplicas numRanks old).bind fun mapping =>
  finish numLayers numReplicas numLogicalExperts mapping

end Yuan.Eplb
