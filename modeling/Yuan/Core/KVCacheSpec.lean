import Yuan.Lib.Py
import Mathlib.Data.Nat.Init

/-!
# `KVCacheSpec`: what a layer group's attention looks back at

A group of layers shares one spec. The spec says which of the tokens before the next one are still
read: all of them, those of a sliding window, those of the current chunk, or the last state only.
-/

namespace Yuan.Core

/-- The kinds of spec whose managers search the prefix cache. -/
inductive AttentionType where
  | fullAttention
  | slidingWindow (slidingWindow : Nat)
  | chunkedLocal (attentionChunkSize : Nat)
  | mamba
  deriving DecidableEq, Repr

/-- A spec. `layout` names the values of the remaining fields (heads, head size, dtype), which are
only ever compared. -/
structure KVCacheSpec where
  blockSize : Nat
  attention : AttentionType
  layout : Nat := 0
  deriving DecidableEq, Repr

namespace KVCacheSpec

/-- `isinstance(spec, FullAttentionSpec)`. -/
def isFullAttention (spec : KVCacheSpec) : Bool := spec.attention = .fullAttention

/-- How many leading tokens the next token does not read any more. -/
def getNumSkippedTokens (spec : KVCacheSpec) (numComputedTokens : Int) : Int :=
  match spec.attention with
  | .fullAttention => 0
  | .slidingWindow w => max 0 (numComputedTokens - w + 1)
  | .chunkedLocal c => numComputedTokens / c * c
  | .mamba => numComputedTokens - 1

/-- Block `k` holds tokens that the token after the first `L` ones reads. -/
def Needs (spec : KVCacheSpec) (L k : Nat) : Prop :=
  k * spec.blockSize < L ∧ spec.getNumSkippedTokens L < (k + 1) * spec.blockSize

variable {spec : KVCacheSpec} {n k : Nat}

section

variable (hpos : 0 < spec.blockSize)
include hpos

/-- Full attention needs all blocks. -/
theorem needs_fullAttention (h : spec.attention = .fullAttention) : spec.Needs (n * spec.blockSize) k ↔ k < n := by
  have hskip : (0 : Int) < (k + 1) * spec.blockSize := by positivity
  simp [Needs, getNumSkippedTokens, h, hskip, Nat.mul_lt_mul_right hpos]

/-- A sliding window needs the last blocks, as many as cover the window without the next token. -/
theorem needs_slidingWindow {w : Nat} (h : spec.attention = .slidingWindow w) :
    spec.Needs (n * spec.blockSize) k ↔ k < n ∧ n ≤ k + (cdiv ((w : Int) - 1) spec.blockSize).toNat := by
  have hbs : (0 : Int) < spec.blockSize := by exact_mod_cast hpos
  have hskip : ((n * spec.blockSize : Nat) : Int) - w + 1 < (k + 1) * spec.blockSize ↔
      (n : Int) ≤ k + ((w : Int) - 1 + spec.blockSize - 1) / spec.blockSize := by
    rw [← sub_le_iff_le_add', Int.le_ediv_iff_mul_le hbs]
    push_cast
    constructor <;> intro _ <;> nlinarith
  have hpos' : (0 : Int) < (k + 1) * spec.blockSize := by positivity
  simp only [Needs, getNumSkippedTokens, h, Nat.mul_lt_mul_right hpos, cdiv_eq hbs]
  omega

/-- Chunks of `d` blocks need the blocks from the start of the last chunk on. -/
theorem needs_chunkedLocal {d : Nat} (h : spec.attention = .chunkedLocal (spec.blockSize * d)) :
    spec.Needs (n * spec.blockSize) k ↔ k < n ∧ n / d * d ≤ k := by
  have hstart : n * spec.blockSize / (spec.blockSize * d) * (spec.blockSize * d) =
      n / d * d * spec.blockSize := by
    rw [Nat.mul_comm n, Nat.mul_div_mul_left _ _ hpos]
    ring
  have hskip : ((n * spec.blockSize : Nat) : Int) / ((spec.blockSize * d : Nat) : Int) *
      ((spec.blockSize * d : Nat) : Int) < (k + 1) * spec.blockSize ↔ n / d * d ≤ k := by
    have hlt : n / d * d ≤ k ↔ n / d * d * spec.blockSize < (k + 1) * spec.blockSize := by
      rw [Nat.mul_lt_mul_right hpos, Nat.lt_succ_iff]
    rw [hlt, ← hstart]
    exact_mod_cast Iff.rfl
  simp only [Needs, getNumSkippedTokens, h, Nat.mul_lt_mul_right hpos, hskip]

/-- Mamba needs the last block. -/
theorem needs_mamba (h : spec.attention = .mamba) : spec.Needs (n * spec.blockSize) k ↔ n = k + 1 := by
  have hle : n * spec.blockSize ≤ (k + 1) * spec.blockSize ↔ n ≤ k + 1 := Nat.mul_le_mul_right_iff hpos
  have hskip : ((n * spec.blockSize : Nat) : Int) - 1 < (k + 1) * spec.blockSize ↔ n ≤ k + 1 := by
    rw [← hle, Int.sub_one_lt_iff]
    exact_mod_cast Iff.rfl
  simp only [Needs, getNumSkippedTokens, h, Nat.mul_lt_mul_right hpos]
  omega

end

end KVCacheSpec

end Yuan.Core
