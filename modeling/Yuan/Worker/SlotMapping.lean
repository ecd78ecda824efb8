import Yuan.Lib.Interleave
import Yuan.Worker.BlockTable

/-!
# Slots of a context-parallel block table

With context parallelism the ranks share a request's tokens. A block of the table stands for a virtual block, which is
as many times as long as there are ranks, and whose tokens are dealt to the ranks `cp_kv_cache_interleave_size` at a
time. Every rank computes the slots of its own tokens, and -1 for the others'. The product of block number and block
size is computed in 32 bits.
-/

namespace Yuan.Worker

open Interleave

structure CpBlockTable extends BlockTable where
  /-- The size of the kernel's blocks. -/
  blockSize : Nat
  maxNumBlocksPerReq : Nat
  slotMapping : List Int
  pcpWorldSize : Nat
  pcpRank : Nat
  dcpWorldSize : Nat
  dcpRank : Nat
  cpKVCacheInterleaveSize : Nat

namespace CpBlockTable

/-- `BlockTable.__init__`, with the groups' sizes and the ranks in them. -/
def init (blockSize maxNumBlocksPerReq maxNumBatchedTokens kernelBlockSize cpKVCacheInterleaveSize : Nat)
    (pcpWorldSize pcpRank dcpWorldSize dcpRank : Nat) : Except PyError CpBlockTable :=
  let table (size blocksPerKVBlock : Nat) : CpBlockTable :=
    ⟨⟨blocksPerKVBlock, fun _ _ => 0, fun _ => 0⟩, size, maxNumBlocksPerReq * blocksPerKVBlock,
      List.replicate maxNumBatchedTokens 0, pcpWorldSize, pcpRank, dcpWorldSize, dcpRank, cpKVCacheInterleaveSize⟩
  if kernelBlockSize = blockSize then .ok (table blockSize 1)
  else if kernelBlockSize = 0 then .error (.zeroDivisionError "integer modulo by zero")
  else if blockSize % kernelBlockSize ≠ 0 then
    .error (.valueError (s!"kernel_block_size {kernelBlockSize} must divide " ++
      s!"kv_manager_block_size size {blockSize} evenly"))
  else .ok (table kernelBlockSize (blockSize / kernelBlockSize))

/-- `self.block_table.np.ravel()[index]`. -/
def ravel (t : CpBlockTable) (index : Nat) : Nat :=
  t.blockTable (index / t.maxNumBlocksPerReq) (index % t.maxNumBlocksPerReq)

/-- What an array of 32-bit integers holds. -/
def int32 (x : Int) : Int := x.bmod (2 ^ 32)

def totalCpWorldSize (t : CpBlockTable) : Nat := t.pcpWorldSize * t.dcpWorldSize

def totalCpRank (t : CpBlockTable) : Nat := t.pcpRank * t.dcpWorldSize + t.dcpRank

/-- One entry of `compute_slot_mapping`. -/
def slot (t : CpBlockTable) (reqIndex position : Nat) : Int :=
  if 1 < t.totalCpWorldSize then
    let virtualBlockSize := t.blockSize * t.totalCpWorldSize
    let blockTableIndex := reqIndex * t.maxNumBlocksPerReq + position / virtualBlockSize
    let blockNumber := t.ravel blockTableIndex
    let virtualBlockOffset := position % virtualBlockSize
    let mask := virtualBlockOffset / t.cpKVCacheInterleaveSize % t.totalCpWorldSize = t.totalCpRank
    let blockOffset :=
      virtualBlockOffset / (t.totalCpWorldSize * t.cpKVCacheInterleaveSize) * t.cpKVCacheInterleaveSize +
        virtualBlockOffset % t.cpKVCacheInterleaveSize
    if mask then int32 (blockNumber * t.blockSize) + blockOffset else -1
  else
    let blockTableIndex := reqIndex * t.maxNumBlocksPerReq + position / t.blockSize
    let blockNumber := t.ravel blockTableIndex
    let blockOffset := position % t.blockSize
    int32 (blockNumber * t.blockSize) + blockOffset

/-- `compute_slot_mapping`, for tokens of a request each at a position. -/
def computeSlotMapping (t : CpBlockTable) (tokens : List (Nat × Nat)) : Except PyError CpBlockTable :=
  if 2 ^ 31 ≤ t.blockSize then
    .error (.overflowError s!"Python integer {t.blockSize} out of bounds for int32")
  else if t.slotMapping.length < tokens.length then
    .error (.valueError "could not broadcast input array")
  else
    .ok { t with slotMapping := tokens.map (fun token => t.slot token.1 token.2) ++ t.slotMapping.drop tokens.length }

/-! ## Ranks -/

/-- The same table on another rank of the two groups. -/
def onRank (t : CpBlockTable) (rank : Nat × Nat) : CpBlockTable := { t with pcpRank := rank.1, dcpRank := rank.2 }

/-- A rank of the prefill group and one of the decode group. -/
def IsRank (t : CpBlockTable) (rank : Nat × Nat) : Prop := rank.1 < t.pcpWorldSize ∧ rank.2 < t.dcpWorldSize

def virtualBlockSize (t : CpBlockTable) : Nat := t.blockSize * t.totalCpWorldSize

/-- How many tokens are dealt at a time: a single rank takes all of them. -/
def dealt (t : CpBlockTable) : Nat := if t.totalCpWorldSize = 1 then 1 else t.cpKVCacheInterleaveSize

section

variable {t : CpBlockTable} {rank rank' : Nat × Nat} {r p : Nat}

theorem totalCpRank_lt (h : t.IsRank rank) : (t.onRank rank).totalCpRank < t.totalCpWorldSize := by
  calc rank.1 * t.dcpWorldSize + rank.2 < rank.1 * t.dcpWorldSize + t.dcpWorldSize := Nat.add_lt_add_left h.2 _
    _ = (rank.1 + 1) * t.dcpWorldSize := (Nat.succ_mul _ _).symm
    _ ≤ t.pcpWorldSize * t.dcpWorldSize := Nat.mul_le_mul_right _ h.1

/-- The ranks of the two groups are numbered without repetition. -/
theorem eq_of_totalCpRank_eq (h : t.IsRank rank) (h' : t.IsRank rank')
    (heq : (t.onRank rank).totalCpRank = (t.onRank rank').totalCpRank) : rank = rank' := by
  have hpos : 0 < t.dcpWorldSize := Nat.zero_lt_of_lt h.2
  have heq : rank.1 * t.dcpWorldSize + rank.2 = rank'.1 * t.dcpWorldSize + rank'.2 := heq
  have hdiv := congrArg (· / t.dcpWorldSize) heq
  have hmod := congrArg (· % t.dcpWorldSize) heq
  simp only [Nat.mul_comm _ t.dcpWorldSize, Nat.mul_add_div hpos, Nat.mul_add_mod, Nat.div_eq_of_lt h.2,
    Nat.div_eq_of_lt h'.2, Nat.mod_eq_of_lt h.2, Nat.mod_eq_of_lt h'.2] at hdiv hmod
  exact Prod.ext hdiv hmod

theorem exists_rank (hpos : 0 < t.dcpWorldSize) {total : Nat} (htotal : total < t.totalCpWorldSize) :
    ∃ rank, t.IsRank rank ∧ (t.onRank rank).totalCpRank = total := by
  refine ⟨(total / t.dcpWorldSize, total % t.dcpWorldSize), ⟨?_, Nat.mod_lt _ hpos⟩, Nat.div_add_mod' _ _⟩
  exact Nat.div_lt_of_lt_mul (by rwa [totalCpWorldSize, Nat.mul_comm] at htotal)

theorem ravel_eq {c : Nat} (hc : c < t.maxNumBlocksPerReq) :
    t.ravel (r * t.maxNumBlocksPerReq + c) = t.blockTable r c := by
  have hpos := Nat.zero_lt_of_lt hc
  rw [ravel, Nat.mul_comm, Nat.mul_add_div hpos, Nat.div_eq_of_lt hc, Nat.add_zero, Nat.mul_add_mod,
    Nat.mod_eq_of_lt hc]

/-- Whether there are other ranks or not, an entry follows from the place of the token among the dealt ones. -/
theorem slot_onRank (hrank : t.IsRank rank) (hp : p / t.virtualBlockSize < t.maxNumBlocksPerReq) :
    (t.onRank rank).slot r p =
      if rankOf t.dealt t.totalCpWorldSize (p % t.virtualBlockSize) = (t.onRank rank).totalCpRank then
        int32 (t.blockTable r (p / t.virtualBlockSize) * t.blockSize) +
          offsetOf t.dealt t.totalCpWorldSize (p % t.virtualBlockSize)
      else -1 := by
  have hlt := totalCpRank_lt hrank
  by_cases hmany : 1 < t.totalCpWorldSize
  · rw [dealt, if_neg hmany.ne']
    refine (if_pos hmany).trans ?_
    have hblock : (t.onRank rank).ravel (r * t.maxNumBlocksPerReq + p / t.virtualBlockSize) =
        t.blockTable r (p / t.virtualBlockSize) := @ravel_eq (t.onRank rank) r _ hp
    show (if _ then int32 (((t.onRank rank).ravel (r * t.maxNumBlocksPerReq + p / t.virtualBlockSize) : Nat) *
      t.blockSize) + _ else -1) = _
    rw [hblock]
    rfl
  · have hone : t.totalCpWorldSize = 1 := by omega
    have hzero : (t.onRank rank).totalCpRank = 0 := by omega
    have hvirtual : t.virtualBlockSize = t.blockSize := by rw [virtualBlockSize, hone, Nat.mul_one]
    rw [hvirtual] at hp
    have hlocal : rankOf 1 1 (p % t.blockSize) = 0 := Nat.mod_one _
    rw [dealt, if_pos hone, hone, hzero, hvirtual, if_pos hlocal]
    refine (if_neg hmany).trans ?_
    have hblock : (t.onRank rank).ravel (r * t.maxNumBlocksPerReq + p / t.blockSize) =
        t.blockTable r (p / t.blockSize) := @ravel_eq (t.onRank rank) r _ hp
    show int32 (((t.onRank rank).ravel (r * t.maxNumBlocksPerReq + p / t.blockSize) : Nat) * t.blockSize) +
      ((p % t.blockSize : Nat) : Int) = _
    rw [hblock, offsetOf, Nat.mul_one, Nat.div_one, Nat.mod_one, Nat.add_zero]

theorem int32_of_lt {x : Nat} (h : x < 2 ^ 31) : int32 x = x := by
  exact Int.bmod_eq_of_le (by omega) (by omega)

theorem int32_lt (x : Int) : int32 x < 2 ^ 31 := by
  have hlt := Int.bmod_lt (x := x) (m := 2 ^ 32) (by decide)
  rw [int32]
  omega

end

end CpBlockTable

end Yuan.Worker
