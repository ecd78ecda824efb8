import Yuan.Worker.SlotMapping
import Mathlib.Data.List.Nodup

/-!
# Every token has one slot

A table is filled with the blocks of its requests, no block twice. Over all ranks, every token that the blocks cover has
one slot, inside the token's block, and the tokens of a whole virtual block fill the block on every rank.
-/

namespace Yuan.Worker

open Interleave

/-! ## Kernel blocks -/

theorem getElem?_mapToKernelBlocks {n : Nat} (hn : 0 < n) (ids : List Nat) (j : Nat) :
    (mapToKernelBlocks ids n)[j]? = (ids[j / n]?).map fun id => id * n + j % n := by
  unfold mapToKernelBlocks
  split
  · rename_i hone
    subst hone
    simp only [Nat.div_one, Nat.mod_one, Nat.mul_one, Nat.add_zero, Option.map_id']
  · induction ids generalizing j with
    | nil => rfl
    | cons id ids ih =>
      have hlength : ((List.range n).map fun k => id * n + k).length = n := by
        rw [List.length_map, List.length_range]
      rw [List.flatMap_cons]
      rcases Nat.lt_or_ge j n with hlt | hge
      · rw [List.getElem?_append_left (by rwa [hlength]), List.getElem?_map, List.getElem?_range hlt,
          Nat.div_eq_of_lt hlt, Nat.mod_eq_of_lt hlt]
        rfl
      · obtain ⟨i, rfl⟩ := Nat.exists_eq_add_of_le hge
        rw [List.getElem?_append_right (by rwa [hlength]), hlength, Nat.add_sub_cancel_left, ih,
          Nat.add_div_left _ hn, Nat.add_mod_left, List.getElem?_cons_succ]

theorem length_mapToKernelBlocks (ids : List Nat) (n : Nat) : (mapToKernelBlocks ids n).length = ids.length * n := by
  unfold mapToKernelBlocks
  split
  · rename_i hone
    rw [hone, Nat.mul_one]
  · induction ids with
    | nil => rw [List.flatMap_nil, List.length_nil, Nat.zero_mul]
    | cons id ids ih =>
      rw [List.flatMap_cons, List.length_append, ih, List.length_map, List.length_range, List.length_cons,
        Nat.succ_mul, Nat.add_comm]

/-- An element of lists without repetitions is at one place. -/
theorem place_unique {rows : List (List Nat)} (hdistinct : rows.flatten.Nodup) {r r' i i' x : Nat} {ids ids' : List Nat}
    (hids : rows[r]? = some ids) (hx : ids[i]? = some x) (hids' : rows[r']? = some ids') (hx' : ids'[i']? = some x) :
    r = r' ∧ i = i' := by
  obtain ⟨hrows, happart⟩ := List.nodup_flatten.mp hdistinct
  obtain ⟨hr, rfl⟩ := List.getElem?_eq_some_iff.mp hids
  obtain ⟨hr', rfl⟩ := List.getElem?_eq_some_iff.mp hids'
  have hmem := List.mem_of_getElem? hx
  have hmem' := List.mem_of_getElem? hx'
  rw [List.pairwise_iff_getElem] at happart
  rcases Nat.lt_trichotomy r r' with hlt | rfl | hgt
  · exact absurd hmem' (happart r r' hr hr' hlt hmem)
  · obtain ⟨hi, heq⟩ := List.getElem?_eq_some_iff.mp hx
    obtain ⟨hi', heq'⟩ := List.getElem?_eq_some_iff.mp hx'
    exact ⟨rfl, (hrows _ (List.getElem_mem hr)).getElem_inj_iff.mp (heq.trans heq'.symm)⟩
  · exact absurd hmem (happart r' r hr' hr hgt hmem')

/-! ## Filled tables -/

/-- The rows of `t` are the requests' blocks as kernel blocks, no block twice. -/
structure Filled (t : CpBlockTable) (rows : List (List Nat)) : Prop where
  split_pos : 0 < t.blocksPerKVBlock
  row : ∀ r ids, rows[r]? = some ids → t.toBlockTable.row r = mapToKernelBlocks ids t.blocksPerKVBlock
  width : ∀ r, r < rows.length → t.numBlocksPerRow r ≤ t.maxNumBlocksPerReq
  distinct : rows.flatten.Nodup

/-- Position `p` of request `r` is in one of its blocks. -/
def Covers (t : CpBlockTable) (rows : List (List Nat)) (r p : Nat) : Prop :=
  r < rows.length ∧ p / t.virtualBlockSize < t.numBlocksPerRow r

namespace Filled

variable {t : CpBlockTable} {rows : List (List Nat)} {r r' j j' : Nat}

theorem numBlocksPerRow_eq (h : Filled t rows) {ids : List Nat} (hids : rows[r]? = some ids) :
    t.numBlocksPerRow r = ids.length * t.blocksPerKVBlock := by
  have hlength := congrArg List.length (h.row r ids hids)
  rwa [length_mapToKernelBlocks, BlockTable.row, List.length_map, List.length_range] at hlength

/-- A cell in use has a kernel block of one of the request's blocks. -/
theorem cell_eq (h : Filled t rows) (hr : r < rows.length) (hj : j < t.numBlocksPerRow r) :
    ∃ ids id, rows[r]? = some ids ∧ ids[j / t.blocksPerKVBlock]? = some id ∧
      t.blockTable r j = id * t.blocksPerKVBlock + j % t.blocksPerKVBlock := by
  have hids : rows[r]? = some rows[r] := List.getElem?_eq_getElem hr
  have hcell : (t.toBlockTable.row r)[j]? = some (t.blockTable r j) := by
    rw [BlockTable.row, List.getElem?_map, List.getElem?_range hj]
    rfl
  rw [h.row r _ hids, getElem?_mapToKernelBlocks h.split_pos, Option.map_eq_some_iff] at hcell
  obtain ⟨id, hid, hcell⟩ := hcell
  exact ⟨_, id, hids, hid, hcell.symm⟩

/-- No kernel block is in two cells. -/
theorem cell_inj (h : Filled t rows) (hr : r < rows.length) (hj : j < t.numBlocksPerRow r) (hr' : r' < rows.length)
    (hj' : j' < t.numBlocksPerRow r') (heq : t.blockTable r j = t.blockTable r' j') : r = r' ∧ j = j' := by
  obtain ⟨ids, id, hids, hid, hcell⟩ := h.cell_eq hr hj
  obtain ⟨ids', id', hids', hid', hcell'⟩ := h.cell_eq hr' hj'
  have hpos := h.split_pos
  rw [hcell, hcell'] at heq
  have hdiv := congrArg (· / t.blocksPerKVBlock) heq
  have hmod := congrArg (· % t.blocksPerKVBlock) heq
  simp only [Nat.mul_comm _ t.blocksPerKVBlock, Nat.mul_add_div hpos, Nat.mul_add_mod, Nat.mod_mod,
    Nat.div_eq_of_lt (Nat.mod_lt _ hpos)] at hdiv hmod
  subst hdiv
  obtain ⟨rfl, hplace⟩ := place_unique h.distinct hids hid hids' hid'
  refine ⟨rfl, ?_⟩
  rw [← Nat.div_add_mod j t.blocksPerKVBlock, ← Nat.div_add_mod j' t.blocksPerKVBlock, hplace, hmod]

theorem width_of_covers (h : Filled t rows) {p : Nat} (hp : Covers t rows r p) :
    p / t.virtualBlockSize < t.maxNumBlocksPerReq := hp.2.trans_le (h.width r hp.1)

end Filled

/-- Over all ranks, every covered token has one slot, and virtual blocks fill their blocks. -/
structure SlotsBijective (t : CpBlockTable) (rows : List (List Nat)) : Prop where
  /-- The entries are computed. -/
  computed : ∀ rank tokens, t.IsRank rank → tokens.length ≤ t.slotMapping.length →
    ∃ t', (t.onRank rank).computeSlotMapping tokens = .ok t' ∧
      t'.slotMapping.take tokens.length = tokens.map fun token => (t.onRank rank).slot token.1 token.2
  one_rank : ∀ r p, Covers t rows r p → ∃ rank, t.IsRank rank ∧ 0 ≤ (t.onRank rank).slot r p ∧
    ∀ rank', t.IsRank rank' → rank' ≠ rank → (t.onRank rank').slot r p = -1
  inside : ∀ rank r p, t.IsRank rank → Covers t rows r p → (t.onRank rank).slot r p ≠ -1 →
    (t.blockTable r (p / t.virtualBlockSize) * t.blockSize : Nat) ≤ (t.onRank rank).slot r p ∧
      (t.onRank rank).slot r p < (t.blockTable r (p / t.virtualBlockSize) * t.blockSize + t.blockSize : Nat)
  apart : ∀ rank r p r' p', t.IsRank rank → Covers t rows r p → Covers t rows r' p' →
    (t.onRank rank).slot r p ≠ -1 → (t.onRank rank).slot r p = (t.onRank rank).slot r' p' → r = r' ∧ p = p'
  full : ∀ rank r j s, t.IsRank rank → r < rows.length → j < t.numBlocksPerRow r →
    ((∃ p, p / t.virtualBlockSize = j ∧ (t.onRank rank).slot r p = s ∧ s ≠ -1) ↔
      (t.blockTable r j * t.blockSize : Nat) ≤ s ∧ s < (t.blockTable r j * t.blockSize + t.blockSize : Nat))
  /-- The same for the scheduler's blocks. -/
  full_kv_block : ∀ rank r ids j id s, t.IsRank rank → rows[r]? = some ids → ids[j]? = some id →
    ((∃ p, p / (t.virtualBlockSize * t.blocksPerKVBlock) = j ∧ (t.onRank rank).slot r p = s ∧ s ≠ -1) ↔
      (id * (t.blockSize * t.blocksPerKVBlock) : Nat) ≤ s ∧
        s < (id * (t.blockSize * t.blocksPerKVBlock) + t.blockSize * t.blocksPerKVBlock : Nat))

/-- What the sizes must be for that: slots fit in 32 bits, and what is dealt to a rank at a time divides a block. -/
structure SizesFit (t : CpBlockTable) (rows : List (List Nat)) : Prop where
  size_lt : t.blockSize < 2 ^ 31
  slots_lt : ∀ r j, r < rows.length → j < t.numBlocksPerRow r → t.blockTable r j * t.blockSize < 2 ^ 31
  interleave : t.totalCpWorldSize = 1 ∨ t.cpKVCacheInterleaveSize ∣ t.blockSize ∨ ∀ ids ∈ rows, ids = []

/-! ## One token -/

section

variable {t : CpBlockTable} {rows : List (List Nat)} {rank : Nat × Nat} {r p : Nat}

theorem dealt_pos (hinterleave : 0 < t.cpKVCacheInterleaveSize) : 0 < t.dealt := by
  rw [CpBlockTable.dealt]
  split
  · exact Nat.one_pos
  · exact hinterleave

theorem SizesFit.dealt_dvd (h : SizesFit t rows) (hfilled : Filled t rows) (hr : r < rows.length) {j : Nat}
    (hj : j < t.numBlocksPerRow r) : t.dealt ∣ t.blockSize := by
  rw [CpBlockTable.dealt]
  split
  · exact one_dvd _
  · rename_i hmany
    rcases h.interleave with hone | hdvd | hempty
    · exact absurd hone hmany
    · exact hdvd
    · have hids : rows[r]? = some rows[r] := List.getElem?_eq_getElem hr
      rw [hfilled.numBlocksPerRow_eq hids, hempty _ (List.getElem_mem hr), List.length_nil, Nat.zero_mul] at hj
      exact absurd hj (Nat.not_lt_zero _)

/-- The owner's slot. -/
theorem slot_of_local (hfilled : Filled t rows) (hrank : t.IsRank rank) (hp : Covers t rows r p)
    (hlt : t.blockTable r (p / t.virtualBlockSize) * t.blockSize < 2 ^ 31)
    (hlocal : rankOf t.dealt t.totalCpWorldSize (p % t.virtualBlockSize) = (t.onRank rank).totalCpRank) :
    (t.onRank rank).slot r p = (t.blockTable r (p / t.virtualBlockSize) * t.blockSize +
      offsetOf t.dealt t.totalCpWorldSize (p % t.virtualBlockSize) : Nat) := by
  rw [CpBlockTable.slot_onRank hrank (hfilled.width_of_covers hp), if_pos hlocal, ← Int.natCast_mul,
    CpBlockTable.int32_of_lt hlt, Int.natCast_add]

/-- The others' slot. -/
theorem slot_of_remote (hfilled : Filled t rows) (hrank : t.IsRank rank) (hp : Covers t rows r p)
    (hremote : rankOf t.dealt t.totalCpWorldSize (p % t.virtualBlockSize) ≠ (t.onRank rank).totalCpRank) :
    (t.onRank rank).slot r p = -1 := by
  rw [CpBlockTable.slot_onRank hrank (hfilled.width_of_covers hp), if_neg hremote]

/-- The token of a slot. -/
theorem exists_position (hfilled : Filled t rows) (hfits : SizesFit t rows)
    (hinterleave : 0 < t.cpKVCacheInterleaveSize) (hrank : t.IsRank rank) (hr : r < rows.length) {j offset : Nat}
    (hj : j < t.numBlocksPerRow r) (hoffset : offset < t.blockSize) :
    ∃ p, p / t.virtualBlockSize = j ∧ (t.onRank rank).slot r p = (t.blockTable r j * t.blockSize + offset : Nat) := by
  have hpos := dealt_pos hinterleave
  have htotal := CpBlockTable.totalCpRank_lt hrank
  have hjoined : joined t.dealt t.totalCpWorldSize (t.onRank rank).totalCpRank offset < t.virtualBlockSize :=
    joined_lt hpos (hfits.dealt_dvd hfilled hr hj) htotal hoffset
  have hvirtual : 0 < t.virtualBlockSize := Nat.zero_lt_of_lt hjoined
  generalize hv : joined t.dealt t.totalCpWorldSize (t.onRank rank).totalCpRank offset = v at hjoined
  have hdiv : (t.virtualBlockSize * j + v) / t.virtualBlockSize = j := by
    rw [Nat.mul_add_div hvirtual, Nat.div_eq_of_lt hjoined, Nat.add_zero]
  have hmod : (t.virtualBlockSize * j + v) % t.virtualBlockSize = v := by
    rw [Nat.mul_add_mod, Nat.mod_eq_of_lt hjoined]
  refine ⟨t.virtualBlockSize * j + v, hdiv, ?_⟩
  have hcovers : Covers t rows r (t.virtualBlockSize * j + v) := by
    refine ⟨hr, ?_⟩
    rwa [hdiv]
  have hlt : t.blockTable r ((t.virtualBlockSize * j + v) / t.virtualBlockSize) * t.blockSize < 2 ^ 31 := by
    rw [hdiv]
    exact hfits.slots_lt r j hr hj
  have hlocal : rankOf t.dealt t.totalCpWorldSize ((t.virtualBlockSize * j + v) % t.virtualBlockSize) =
      (t.onRank rank).totalCpRank := by
    rw [hmod, ← hv, rankOf_joined hpos htotal]
  rw [slot_of_local hfilled hrank hcovers hlt hlocal, hdiv, hmod, ← hv, offsetOf_joined hpos htotal]

end

/-! ## The bijection -/

section

variable {t : CpBlockTable} {rows : List (List Nat)}

theorem computed_of_size_lt (hsize : t.blockSize < 2 ^ 31) {rank : Nat × Nat} {tokens : List (Nat × Nat)}
    (hroom : tokens.length ≤ t.slotMapping.length) :
    ∃ t', (t.onRank rank).computeSlotMapping tokens = .ok t' ∧
      t'.slotMapping.take tokens.length = tokens.map fun token => (t.onRank rank).slot token.1 token.2 := by
  refine ⟨_, (if_neg (not_le.mpr hsize)).trans (if_neg (not_lt.mpr hroom)), ?_⟩
  exact List.take_left' (List.length_map _)

section Fits

variable (hfits : SizesFit t rows) (hfilled : Filled t rows) (hsize : 0 < t.blockSize)
  (hinterleave : 0 < t.cpKVCacheInterleaveSize) (hpcp : 0 < t.pcpWorldSize) (hdcp : 0 < t.dcpWorldSize)

include hpcp hdcp in
theorem totalCpWorldSize_pos : 0 < t.totalCpWorldSize := Nat.mul_pos hpcp hdcp

include hsize hpcp hdcp in
theorem virtualBlockSize_pos : 0 < t.virtualBlockSize := Nat.mul_pos hsize (totalCpWorldSize_pos hpcp hdcp)

include hfilled in
theorem owner_of_slot {rank : Nat × Nat} {r p : Nat} (hrank : t.IsRank rank) (hp : Covers t rows r p)
    (hslot : (t.onRank rank).slot r p ≠ -1) :
    rankOf t.dealt t.totalCpWorldSize (p % t.virtualBlockSize) = (t.onRank rank).totalCpRank := by
  by_contra hremote
  exact hslot (slot_of_remote hfilled hrank hp hremote)

include hfits hfilled hsize hinterleave hpcp hdcp

theorem offset_lt {r p : Nat} (hp : Covers t rows r p) :
    offsetOf t.dealt t.totalCpWorldSize (p % t.virtualBlockSize) < t.blockSize :=
  offsetOf_lt (dealt_pos hinterleave) (hfits.dealt_dvd hfilled hp.1 hp.2)
    (Nat.mod_lt p (virtualBlockSize_pos hsize hpcp hdcp))

theorem slot_inside {rank : Nat × Nat} {r p : Nat} (hrank : t.IsRank rank) (hp : Covers t rows r p)
    (hslot : (t.onRank rank).slot r p ≠ -1) :
    (t.blockTable r (p / t.virtualBlockSize) * t.blockSize : Nat) ≤ (t.onRank rank).slot r p ∧
      (t.onRank rank).slot r p < (t.blockTable r (p / t.virtualBlockSize) * t.blockSize + t.blockSize : Nat) := by
  rw [slot_of_local hfilled hrank hp (hfits.slots_lt r _ hp.1 hp.2) (owner_of_slot hfilled hrank hp hslot)]
  have hoffset := offset_lt hfits hfilled hsize hinterleave hpcp hdcp hp
  exact ⟨Int.ofNat_le.mpr (Nat.le_add_right _ _), Int.ofNat_lt.mpr (Nat.add_lt_add_left hoffset _)⟩

theorem slot_unique {rank : Nat × Nat} {r p r' p' : Nat} (hrank : t.IsRank rank) (hp : Covers t rows r p)
    (hp' : Covers t rows r' p') (hslot : (t.onRank rank).slot r p ≠ -1)
    (heq : (t.onRank rank).slot r p = (t.onRank rank).slot r' p') : r = r' ∧ p = p' := by
  have hpos := dealt_pos hinterleave
  have hoffset := offset_lt hfits hfilled hsize hinterleave hpcp hdcp hp
  have hoffset' := offset_lt hfits hfilled hsize hinterleave hpcp hdcp hp'
  have hown := owner_of_slot hfilled hrank hp hslot
  have hown' := owner_of_slot hfilled hrank hp' (heq ▸ hslot)
  rw [slot_of_local hfilled hrank hp (hfits.slots_lt r _ hp.1 hp.2) hown,
    slot_of_local hfilled hrank hp' (hfits.slots_lt r' _ hp'.1 hp'.2) hown'] at heq
  have heq := Int.ofNat_inj.mp heq
  -- the block of a slot, and its place in the block
  have hdiv := congrArg (· / t.blockSize) heq
  have hmod := congrArg (· % t.blockSize) heq
  simp only [Nat.mul_comm _ t.blockSize, Nat.mul_add_div hsize, Nat.mul_add_mod, Nat.div_eq_of_lt hoffset,
    Nat.div_eq_of_lt hoffset', Nat.mod_eq_of_lt hoffset, Nat.mod_eq_of_lt hoffset'] at hdiv hmod
  obtain ⟨rfl, hblock⟩ := hfilled.cell_inj hp.1 hp.2 hp'.1 hp'.2 hdiv
  refine ⟨rfl, ?_⟩
  have hplace : p % t.virtualBlockSize = p' % t.virtualBlockSize := by
    rw [← joined_of_parts (w := t.totalCpWorldSize) (v := p % t.virtualBlockSize) hpos,
      ← joined_of_parts (w := t.totalCpWorldSize) (v := p' % t.virtualBlockSize) hpos, hown, hown', hmod]
  rw [← Nat.div_add_mod p t.virtualBlockSize, ← Nat.div_add_mod p' t.virtualBlockSize, hblock, hplace]

theorem full_block {rank : Nat × Nat} {r j : Nat} (s : Int) (hrank : t.IsRank rank) (hr : r < rows.length)
    (hj : j < t.numBlocksPerRow r) :
    (∃ p, p / t.virtualBlockSize = j ∧ (t.onRank rank).slot r p = s ∧ s ≠ -1) ↔
      (t.blockTable r j * t.blockSize : Nat) ≤ s ∧ s < (t.blockTable r j * t.blockSize + t.blockSize : Nat) := by
  constructor
  · rintro ⟨p, rfl, rfl, hslot⟩
    exact slot_inside hfits hfilled hsize hinterleave hpcp hdcp hrank ⟨hr, hj⟩ hslot
  · rintro ⟨hlow, hhigh⟩
    obtain ⟨n, rfl⟩ := Int.eq_ofNat_of_zero_le ((Int.natCast_nonneg _).trans hlow)
    obtain ⟨offset, rfl⟩ := Nat.exists_eq_add_of_le (Int.ofNat_le.mp hlow)
    obtain ⟨p, hp, hslot⟩ := exists_position hfilled hfits hinterleave hrank hr hj
      (Nat.lt_of_add_lt_add_left (Int.ofNat_lt.mp hhigh))
    exact ⟨p, hp, hslot, by omega⟩

theorem full_kv_block {rank : Nat × Nat} {r j id : Nat} {ids : List Nat} (s : Int) (hrank : t.IsRank rank)
    (hids : rows[r]? = some ids) (hid : ids[j]? = some id) :
    (∃ p, p / (t.virtualBlockSize * t.blocksPerKVBlock) = j ∧ (t.onRank rank).slot r p = s ∧ s ≠ -1) ↔
      (id * (t.blockSize * t.blocksPerKVBlock) : Nat) ≤ s ∧
        s < (id * (t.blockSize * t.blocksPerKVBlock) + t.blockSize * t.blocksPerKVBlock : Nat) := by
  obtain ⟨hr, -⟩ := List.getElem?_eq_some_iff.mp hids
  obtain ⟨hjlt, -⟩ := List.getElem?_eq_some_iff.mp hid
  have hn := hfilled.split_pos
  -- the kernel blocks of the scheduler's block
  have hcell {c : Nat} (hc : c / t.blocksPerKVBlock = j) : c < t.numBlocksPerRow r ∧
      t.blockTable r c * t.blockSize =
        id * (t.blockSize * t.blocksPerKVBlock) + c % t.blocksPerKVBlock * t.blockSize := by
    have hlt : c < t.numBlocksPerRow r := by
      rw [hfilled.numBlocksPerRow_eq hids, ← Nat.div_lt_iff_lt_mul hn, hc]
      exact hjlt
    obtain ⟨ids', id', hids', hid', hblock⟩ := hfilled.cell_eq hr hlt
    obtain rfl := Option.some.inj (hids.symm.trans hids')
    rw [hc] at hid'
    obtain rfl := Option.some.inj (hid.symm.trans hid')
    exact ⟨hlt, by rw [hblock]; ring⟩
  have hinside (c : Nat) : c % t.blocksPerKVBlock * t.blockSize + t.blockSize ≤ t.blockSize * t.blocksPerKVBlock := by
    rw [← Nat.succ_mul, Nat.mul_comm t.blockSize]
    exact Nat.mul_le_mul_right _ (Nat.mod_lt c hn)
  constructor
  · rintro ⟨p, hp, hslot⟩
    rw [← Nat.div_div_eq_div_mul] at hp
    obtain ⟨hlt, hblock⟩ := hcell hp
    obtain ⟨hlow, hhigh⟩ := (full_block hfits hfilled hsize hinterleave hpcp hdcp s hrank hr hlt).mp ⟨p, rfl, hslot⟩
    have hinside := hinside (p / t.virtualBlockSize)
    exact ⟨by omega, by omega⟩
  · rintro ⟨hlow, hhigh⟩
    obtain ⟨n, rfl⟩ := Int.eq_ofNat_of_zero_le ((Int.natCast_nonneg _).trans hlow)
    obtain ⟨d, rfl⟩ := Nat.exists_eq_add_of_le (Int.ofNat_le.mp hlow)
    have hd : d < t.blockSize * t.blocksPerKVBlock := Nat.lt_of_add_lt_add_left (Int.ofNat_lt.mp hhigh)
    have hrow : d / t.blockSize < t.blocksPerKVBlock := Nat.div_lt_of_lt_mul hd
    have hc : (t.blocksPerKVBlock * j + d / t.blockSize) / t.blocksPerKVBlock = j := by
      rw [Nat.mul_add_div hn, Nat.div_eq_of_lt hrow, Nat.add_zero]
    obtain ⟨hlt, hblock⟩ := hcell hc
    rw [Nat.mul_add_mod, Nat.mod_eq_of_lt hrow] at hblock
    have hsplit := Nat.div_add_mod' d t.blockSize
    have hplace := Nat.mod_lt d hsize
    obtain ⟨p, hp, hslot⟩ :=
      (full_block hfits hfilled hsize hinterleave hpcp hdcp
        (id * (t.blockSize * t.blocksPerKVBlock) + d : Nat) hrank hr hlt).mpr
        ⟨by rw [hblock]; omega, by rw [hblock]; omega⟩
    refine ⟨p, ?_, hslot⟩
    rw [← Nat.div_div_eq_div_mul, hp, hc]

theorem bijective_of_sizesFit : SlotsBijective t rows := by
  constructor
  case computed => exact fun rank tokens _ hroom => computed_of_size_lt hfits.size_lt hroom
  case one_rank =>
    intro r p hp
    obtain ⟨rank, hrank, htotal⟩ := CpBlockTable.exists_rank hdcp
      (rankOf_lt (i := t.dealt) (v := p % t.virtualBlockSize) (totalCpWorldSize_pos hpcp hdcp))
    refine ⟨rank, hrank, ?_, fun rank' hrank' hne => ?_⟩
    · rw [slot_of_local hfilled hrank hp (hfits.slots_lt r _ hp.1 hp.2) htotal.symm]
      exact Int.natCast_nonneg _
    · refine slot_of_remote hfilled hrank' hp fun heq => hne ?_
      exact CpBlockTable.eq_of_totalCpRank_eq hrank' hrank (heq.symm.trans htotal.symm)
  case inside =>
    intro rank r p hrank hp hslot
    exact slot_inside hfits hfilled hsize hinterleave hpcp hdcp hrank hp hslot
  case apart =>
    intro rank r p r' p' hrank hp hp' hslot heq
    exact slot_unique hfits hfilled hsize hinterleave hpcp hdcp hrank hp hp' hslot heq
  case full =>
    intro rank r j s hrank hr hj
    exact full_block hfits hfilled hsize hinterleave hpcp hdcp s hrank hr hj
  case full_kv_block =>
    intro rank r ids j id s hrank hids hid
    exact full_kv_block hfits hfilled hsize hinterleave hpcp hdcp s hrank hids hid

end Fits

/-- Where a slot is beyond 32 bits, the first token of its block already has a wrong slot. -/
theorem slots_lt_of_bijective (h : SlotsBijective t rows) (hfilled : Filled t rows) (hsize : 0 < t.blockSize)
    (hpcp : 0 < t.pcpWorldSize) (hdcp : 0 < t.dcpWorldSize) {r j : Nat} (hr : r < rows.length)
    (hj : j < t.numBlocksPerRow r) : t.blockTable r j * t.blockSize < 2 ^ 31 := by
  have hvirtual := virtualBlockSize_pos hsize hpcp hdcp
  have hdiv : t.virtualBlockSize * j / t.virtualBlockSize = j := Nat.mul_div_cancel_left j hvirtual
  have hmod : t.virtualBlockSize * j % t.virtualBlockSize = 0 := Nat.mul_mod_right _ _
  have hcovers : Covers t rows r (t.virtualBlockSize * j) := by
    refine ⟨hr, ?_⟩
    rwa [hdiv]
  obtain ⟨rank, hrank, hnonneg, -⟩ := h.one_rank r _ hcovers
  have hslot : (t.onRank rank).slot r (t.virtualBlockSize * j) ≠ -1 := by omega
  have hlow := (h.inside rank r _ hrank hcovers hslot).1
  have hoffset : offsetOf t.dealt t.totalCpWorldSize 0 = 0 := by
    rw [offsetOf, Nat.zero_div, Nat.zero_mul, Nat.zero_mod]
  rw [CpBlockTable.slot_onRank hrank (hfilled.width_of_covers hcovers),
    if_pos (owner_of_slot hfilled hrank hcovers hslot), hdiv, hmod, hoffset, Int.natCast_zero, Int.add_zero] at hlow
  have hlt := hlow.trans_lt (CpBlockTable.int32_lt _)
  exact_mod_cast hlt

/-- Where what is dealt does not divide a block, rank 0 gets a token behind the end of the block. -/
theorem interleave_of_bijective (h : SlotsBijective t rows) (hfilled : Filled t rows) (hsize : 0 < t.blockSize)
    (hinterleave : 0 < t.cpKVCacheInterleaveSize) (hpcp : 0 < t.pcpWorldSize) (hdcp : 0 < t.dcpWorldSize) :
    t.totalCpWorldSize = 1 ∨ t.cpKVCacheInterleaveSize ∣ t.blockSize ∨ ∀ ids ∈ rows, ids = [] := by
  by_contra hnot
  rw [not_or, not_or] at hnot
  obtain ⟨hmany, hdvd, hrows⟩ := hnot
  obtain ⟨ids, hrows⟩ := not_forall.mp hrows
  obtain ⟨hmem, hids⟩ := Classical.not_imp.mp hrows
  obtain ⟨r, hr⟩ := List.mem_iff_getElem?.mp hmem
  obtain ⟨hrlt, -⟩ := List.getElem?_eq_some_iff.mp hr
  have hworld := totalCpWorldSize_pos hpcp hdcp
  have hblocks : 0 < t.numBlocksPerRow r := by
    rw [hfilled.numBlocksPerRow_eq hr]
    exact Nat.mul_pos (List.length_pos_of_ne_nil hids) hfilled.split_pos
  obtain ⟨v, hv, hrank₀, hoffset⟩ :=
    exists_offsetOf_eq (w := t.totalCpWorldSize) hinterleave hdvd (by omega)
  have hv : v < t.virtualBlockSize := hv
  have hdiv : v / t.virtualBlockSize = 0 := Nat.div_eq_of_lt hv
  have hcovers : Covers t rows r v := by
    refine ⟨hrlt, ?_⟩
    rwa [hdiv]
  have hdealt : t.dealt = t.cpKVCacheInterleaveSize := if_neg hmany
  obtain ⟨rank, hrank, htotal⟩ := CpBlockTable.exists_rank hdcp hworld
  have hslot := slot_of_local hfilled hrank hcovers
    (slots_lt_of_bijective h hfilled hsize hpcp hdcp hrlt hcovers.2)
    (by rw [hdealt, Nat.mod_eq_of_lt hv, hrank₀, htotal])
  rw [hdealt, Nat.mod_eq_of_lt hv, hoffset] at hslot
  have hhigh := (h.inside rank r v hrank hcovers (by omega)).2
  rw [hslot] at hhigh
  exact absurd (Int.ofNat_lt.mp hhigh) (lt_irrefl _)

theorem sizesFit_of_bijective (h : SlotsBijective t rows) (hfilled : Filled t rows) (hsize : 0 < t.blockSize)
    (hinterleave : 0 < t.cpKVCacheInterleaveSize) (hpcp : 0 < t.pcpWorldSize) (hdcp : 0 < t.dcpWorldSize) :
    SizesFit t rows := by
  constructor
  case size_lt =>
    by_contra hlarge
    obtain ⟨t', hcomputed, -⟩ := h.computed (0, 0) [] ⟨hpcp, hdcp⟩ (Nat.zero_le _)
    have herror : (t.onRank (0, 0)).computeSlotMapping [] = .error _ := if_pos (not_lt.mp hlarge)
    rw [herror] at hcomputed
    cases hcomputed
  case slots_lt => exact fun r j hr hj => slots_lt_of_bijective h hfilled hsize hpcp hdcp hr hj
  case interleave => exact interleave_of_bijective h hfilled hsize hinterleave hpcp hdcp

end

/-! ## Tables of requests -/

/-- The table after the blocks of requests `i` on are added, request by request. -/
def BlockTable.addRows (t : BlockTable) : List (List Nat) → Nat → BlockTable
  | [], _ => t
  | ids :: rows, i => addRows (t.addRow ids i) rows (i + 1)

def CpBlockTable.addRows (t : CpBlockTable) (rows : List (List Nat)) : CpBlockTable :=
  { t with toBlockTable := t.toBlockTable.addRows rows 0 }

namespace BlockTable

variable {t : BlockTable} {rows : List (List Nat)}

theorem blocksPerKVBlock_addRows (i : Nat) : (t.addRows rows i).blocksPerKVBlock = t.blocksPerKVBlock := by
  induction rows generalizing t i with
  | nil => rfl
  | cons ids rows ih => rw [addRows, ih, blocksPerKVBlock_addRow]

theorem row_addRows_of_lt {i k : Nat} (hk : k < i) : (t.addRows rows i).row k = t.row k := by
  induction rows generalizing t i with
  | nil => rfl
  | cons ids rows ih => rw [addRows, ih (Nat.lt_succ_of_lt hk), row_addRow_of_ne t ids hk.ne]

theorem row_addRows {i k : Nat} {ids : List Nat} (hids : rows[k]? = some ids) :
    (t.addRows rows i).row (i + k) = mapToKernelBlocks ids t.blocksPerKVBlock := by
  induction rows generalizing t i k with
  | nil => cases hids
  | cons first rows ih =>
    cases k with
    | zero =>
      obtain rfl := Option.some.inj hids
      show ((t.addRow first i).addRows rows (i + 1)).row i = _
      rw [row_addRows_of_lt (Nat.lt_add_one i), row_addRow_self]
    | succ k =>
      have hrow := ih (t := t.addRow first i) (i := i + 1) hids
      rw [blocksPerKVBlock_addRow] at hrow
      rwa [addRows, ← Nat.add_assoc, Nat.add_right_comm]

end BlockTable

/-- What the constructor checks. -/
theorem init_eq_ok {blockSize maxBlocks maxTokens kernelBlockSize interleave pcp pcpRank dcp dcpRank : Nat}
    {t : CpBlockTable} (h : CpBlockTable.init blockSize maxBlocks maxTokens kernelBlockSize interleave pcp pcpRank dcp
      dcpRank = .ok t) (hblock : 0 < blockSize) :
    0 < t.blockSize ∧ 0 < t.blocksPerKVBlock ∧ t.maxNumBlocksPerReq = maxBlocks * t.blocksPerKVBlock ∧
      t.cpKVCacheInterleaveSize = interleave ∧ t.pcpWorldSize = pcp ∧ t.dcpWorldSize = dcp := by
  unfold CpBlockTable.init at h
  split at h
  · cases h
    exact ⟨hblock, Nat.one_pos, rfl, rfl, rfl, rfl⟩
  · split at h
    · cases h
    · rename_i hkernel
      split at h
      · cases h
      · rename_i hdvd
        cases h
        have hdvd := Nat.dvd_of_mod_eq_zero (not_not.mp hdvd)
        exact ⟨Nat.pos_of_ne_zero hkernel, Nat.div_pos (Nat.le_of_dvd hblock hdvd) (Nat.pos_of_ne_zero hkernel), rfl,
          rfl, rfl, rfl⟩

theorem filled_addRows {t : CpBlockTable} {rows : List (List Nat)} {maxBlocks : Nat}
    (hsplit : 0 < t.blocksPerKVBlock) (hmax : t.maxNumBlocksPerReq = maxBlocks * t.blocksPerKVBlock)
    (hwidth : ∀ ids ∈ rows, ids.length ≤ maxBlocks) (hdistinct : rows.flatten.Nodup) :
    Filled (t.addRows rows) rows := by
  have hper : (t.addRows rows).blocksPerKVBlock = t.blocksPerKVBlock := BlockTable.blocksPerKVBlock_addRows 0
  have hrow (r : Nat) (ids : List Nat) (hids : rows[r]? = some ids) :
      (t.addRows rows).toBlockTable.row r = mapToKernelBlocks ids (t.addRows rows).blocksPerKVBlock := by
    have hrow := BlockTable.row_addRows (t := t.toBlockTable) (i := 0) hids
    rw [Nat.zero_add] at hrow
    rw [hper]
    exact hrow
  refine ⟨hper ▸ hsplit, hrow, fun r hr => ?_, hdistinct⟩
  have hids : rows[r]? = some rows[r] := List.getElem?_eq_getElem hr
  have hlength := congrArg List.length (hrow r _ hids)
  rw [length_mapToKernelBlocks, BlockTable.row, List.length_map, List.length_range] at hlength
  show (t.addRows rows).numBlocksPerRow r ≤ t.maxNumBlocksPerReq
  rw [hlength, hper, hmax]
  exact Nat.mul_le_mul_right _ (hwidth _ (List.getElem_mem hr))

section

variable {blockSize maxBlocks maxTokens kernelBlockSize interleave pcp pcpRank dcp dcpRank : Nat} {t : CpBlockTable}
  {rows : List (List Nat)}

/-- The slots are a bijection exactly if the sizes fit. -/
theorem slots_bijective_iff
    (hinit : CpBlockTable.init blockSize maxBlocks maxTokens kernelBlockSize interleave pcp pcpRank dcp dcpRank = .ok t)
    (hblock : 0 < blockSize) (hinterleave : 0 < interleave) (hpcp : 0 < pcp) (hdcp : 0 < dcp)
    (hwidth : ∀ ids ∈ rows, ids.length ≤ maxBlocks) (hdistinct : rows.flatten.Nodup) :
    SlotsBijective (t.addRows rows) rows ↔ SizesFit (t.addRows rows) rows := by
  obtain ⟨hsize, hsplit, hmax, rfl, rfl, rfl⟩ := init_eq_ok hinit hblock
  have hfilled := filled_addRows hsplit hmax hwidth hdistinct
  exact ⟨fun h => sizesFit_of_bijective h hfilled hsize hinterleave hpcp hdcp,
    fun h => bijective_of_sizesFit h hfilled hsize hinterleave hpcp hdcp⟩

/-- Two kernel blocks for a block of four tokens, on two ranks. -/
theorem slots_bijective_of_two_ranks : ∃ t, CpBlockTable.init 4 1 8 2 1 1 0 2 0 = .ok t ∧
    SlotsBijective (t.addRows [[1]]) [[1]] := by
  refine ⟨_, rfl, (slots_bijective_iff (rfl : CpBlockTable.init 4 1 8 2 1 1 0 2 0 = .ok _) (by decide) (by decide)
    (by decide) (by decide) (by decide) (by decide)).mpr ⟨by decide, fun r j hr hj => ?_, .inr (.inl (by decide))⟩⟩
  obtain rfl : r = 0 := Nat.lt_one_iff.mp hr
  rcases Nat.lt_succ_iff_lt_or_eq.mp hj with hlt | rfl
  · obtain rfl := Nat.lt_one_iff.mp hlt
    decide
  · decide

/-- A rank is dealt 32 tokens at a time, which divides the scheduler's block but not the kernel's. -/
theorem slots_not_bijective_of_split : ¬ ∀ (blockSize maxBlocks maxTokens kernelBlockSize interleave pcp dcp : Nat)
    (t : CpBlockTable) (rows : List (List Nat)),
    CpBlockTable.init blockSize maxBlocks maxTokens kernelBlockSize interleave pcp 0 dcp 0 = .ok t → 0 < blockSize →
    0 < interleave → interleave ∣ blockSize → 0 < pcp → 0 < dcp → (∀ ids ∈ rows, ids.length ≤ maxBlocks) →
    rows.flatten.Nodup → SlotsBijective (t.addRows rows) rows := by
  intro h
  have hbijective := h 32 1 64 16 32 1 2 _ [[0]] rfl (by decide) (by decide) (by decide) (by decide) (by decide)
    (by decide) (by decide)
  have hwidth : ∀ ids ∈ [[0]], ids.length ≤ 1 := by decide
  have hfilled : Filled (CpBlockTable.addRows
      ⟨⟨2, fun _ _ => 0, fun _ => 0⟩, 16, 2, List.replicate 64 0, 1, 0, 2, 0, 32⟩ [[0]]) [[0]] :=
    filled_addRows (by decide) rfl hwidth (by decide)
  rcases interleave_of_bijective hbijective hfilled (by decide) (by decide) (by decide) (by decide) with
    hone | hdvd | hempty
  · exact absurd hone (by decide)
  · exact absurd hdvd (by decide)
  · exact absurd (hempty [0] (List.mem_singleton_self _)) (by decide)

end

end Yuan.Worker
