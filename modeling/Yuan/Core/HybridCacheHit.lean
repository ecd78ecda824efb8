import Yuan.Core.CacheHit
import Mathlib.Algebra.GCDMonoid.Nat

/-!
# `HybridKVCacheCoordinator.find_longest_cache_hit`

The KV cache groups of a hybrid model are split by spec. Starting from the longest length allowed,
every attention group in turn cuts the candidate length to what it can serve, and rounds are repeated
until one of them leaves the length in place.

A round never cuts below a length that all groups can serve, and a length it leaves in place is one.
So the search stops with the greatest common length. Full attention is searched in the first round
only: its blocks serve every shorter length as well.
-/

namespace Yuan.Core

open CacheHit

variable {i L curr hitLength : Nat}

/-- The KV cache groups that share a spec, and with it a manager class. -/
structure AttentionGroup where
  kvCacheSpec : KVCacheSpec
  groupIds : List Nat
  deriving DecidableEq, Repr

/-- `HybridKVCacheCoordinator`: the specs of the KV cache groups, split by type. -/
structure HybridKVCacheCoordinator where
  kvCacheGroups : List KVCacheSpec
  hashBlockSize : Nat
  useEagle : Bool
  attentionGroups : List AttentionGroup
  lcmBlockSize : Nat

namespace HybridKVCacheCoordinator

variable {β : Type}

/-! ## The coordinator -/

/-- Add a group to the attention group with its spec, or open a new one at the end. -/
def addGroup (spec : KVCacheSpec) (i : Nat) : List AttentionGroup → List AttentionGroup
  | [] => [⟨spec, [i]⟩]
  | g :: gs =>
    if g.kvCacheSpec = spec then { g with groupIds := g.groupIds ++ [i] } :: gs
    else g :: addGroup spec i gs

/-- The attention groups in the order in which their specs first occur. -/
def splitGroups (kvCacheGroups : List KVCacheSpec) : List AttentionGroup :=
  kvCacheGroups.zipIdx.foldl (fun gs (spec, i) => addGroup spec i gs) []

/-- `__init__` with `verify_and_split_kv_cache_groups`. The sort by "not full attention" is stable, so
it is the full attention groups followed by the others. -/
def init (kvCacheGroups : List KVCacheSpec) (hashBlockSize : Nat) (useEagle : Bool)
    (dcpWorldSize pcpWorldSize : Nat) : Except PyError HybridKVCacheCoordinator := do
  pyAssert (kvCacheGroups.all fun spec => spec.blockSize % hashBlockSize = 0)
    "block_size must be divisible by hash_block_size"
  pyAssert (dcpWorldSize = 1) "DCP not support hybrid attn now."
  pyAssert (pcpWorldSize = 1) "PCP not support hybrid attn now."
  let attentionGroups := splitGroups kvCacheGroups
  pyAssert (1 < attentionGroups.length)
    "HybridKVCacheCoordinator requires at least two attention groups."
  return {
    kvCacheGroups, hashBlockSize, useEagle
    attentionGroups := attentionGroups.filter (·.kvCacheSpec.isFullAttention) ++
      attentionGroups.filter (!·.kvCacheSpec.isFullAttention)
    lcmBlockSize := (attentionGroups.map (·.kvCacheSpec.blockSize)).foldl Nat.lcm 1 }

/-- `hit_blocks_by_group`. -/
abbrev HitBlocks := Nat → Option (List Nat)

/-- `[None] * num_groups`. -/
def noHits : HitBlocks := fun _ => none

variable (c : HybridKVCacheCoordinator) (p : BlockPool (List β × Nat)) (blockHashes : List (List β))

/-- The search of one attention group. -/
def search (g : AttentionGroup) : Search β where
  blockHashes := getBlockHashes c.hashBlockSize blockHashes g.kvCacheSpec.blockSize
  kvCacheGroupIds := g.groupIds
  blockPool := p
  kvCacheSpec := g.kvCacheSpec
  useEagle := c.useEagle
  alignmentTokens := c.lcmBlockSize

/-- The blocks of one group, out of the rows of its attention group. -/
def column (g : AttentionGroup) (rows : List (List Nat)) (groupId : Nat) : List Nat :=
  rows.map fun row => row.getD (g.groupIds.idxOf groupId) p.nullBlock

/-- `hit_blocks_by_group[group_id] = blocks`, for each group of the attention group. -/
def storeHits (g : AttentionGroup) (rows : List (List Nat)) (hits : HitBlocks) : HitBlocks :=
  fun groupId => if groupId ∈ g.groupIds then some (column p g rows groupId) else hits groupId

/-- The body of the loop over attention groups, on `curr_hit_length` and `hit_blocks_by_group`. -/
def visitGroup (s : Nat × HitBlocks) (g : AttentionGroup) : Except PyError (Nat × HitBlocks) :=
  if g.kvCacheSpec.isFullAttention ∧ (s.2 (g.groupIds.headD 0)).isSome then
    -- reuse the blocks of the first round
    return (s.1 / g.kvCacheSpec.blockSize * g.kvCacheSpec.blockSize, s.2)
  else do
    let hitBlocks ← (c.search p blockHashes g).findLongestCacheHit s.1
    return (hitBlocks.length * g.kvCacheSpec.blockSize, storeHits p g hitBlocks s.2)

/-- One full attention group and one other: a single round suffices. -/
def isSimpleHybrid : Bool :=
  c.attentionGroups.length = 2 ∧ c.attentionGroups.head?.any (·.kvCacheSpec.isFullAttention)

/-- `while True`: rounds over the attention groups. A further round starts at a smaller length. -/
def hitLoop (hitLength : Nat) (hits : HitBlocks) : Except PyError (Nat × HitBlocks) :=
  match c.attentionGroups.foldlM (c.visitGroup p blockHashes) (hitLength, hits) with
  | .error e => .error e
  | .ok (currHitLength, hits) =>
    if hitLength ≤ currHitLength then return (hitLength, hits)
    else if c.isSimpleHybrid then return (currHitLength, hits)
    else hitLoop currHitLength hits
  termination_by hitLength

/-- `del blks[num_blocks:]` for the groups of the first attention group, if it is full attention. -/
def truncateFirst (hitLength : Nat) (hits : HitBlocks) : HitBlocks :=
  match c.attentionGroups with
  | g :: _ =>
    if g.kvCacheSpec.isFullAttention then fun groupId =>
      if groupId ∈ g.groupIds then
        (hits groupId).map (·.take (hitLength / g.kvCacheSpec.blockSize))
      else hits groupId
    else hits
  | [] => hits

/-- `find_longest_cache_hit`: the cached blocks of each group, and the length of the hit. -/
def findLongestCacheHit (maxCacheHitLength : Nat) : Except PyError (List (List Nat) × Nat) := do
  let (hitLength, hits) ← c.hitLoop p blockHashes maxCacheHitLength noHits
  return ((List.range c.kvCacheGroups.length).map fun groupId =>
    (c.truncateFirst hitLength hits groupId).getD [], hitLength)

/-! ## The split by spec -/

variable {c p blockHashes}

theorem map_spec_addGroup (spec : KVCacheSpec) (i : Nat) (gs : List AttentionGroup) :
    (addGroup spec i gs).map (·.kvCacheSpec) =
      if spec ∈ gs.map (·.kvCacheSpec) then gs.map (·.kvCacheSpec)
      else gs.map (·.kvCacheSpec) ++ [spec] := by
  induction gs with
  | nil => simp [addGroup]
  | cons g gs ih =>
    unfold addGroup
    by_cases h : g.kvCacheSpec = spec
    · simp [h]
    · have h' : ¬ spec = g.kvCacheSpec := fun heq => h heq.symm
      simp only [h, if_false, List.map_cons, ih, List.mem_cons, h', false_or]
      split <;> simp

/-- The new id stands in the group of its spec, the old ids where they were. -/
theorem mem_addGroup {spec : KVCacheSpec} {gs : List AttentionGroup} (hnodup : (gs.map (·.kvCacheSpec)).Nodup)
    {g : AttentionGroup} (hg : g ∈ addGroup spec i gs) :
    (g.kvCacheSpec ≠ spec ∧ g ∈ gs) ∨
      (g.kvCacheSpec = spec ∧ ((∃ old ∈ gs, old.kvCacheSpec = spec ∧ g.groupIds = old.groupIds ++ [i]) ∨
          ((∀ old ∈ gs, old.kvCacheSpec ≠ spec) ∧ g.groupIds = [i]))) := by
  induction gs with
  | nil =>
    obtain rfl : g = ⟨spec, [i]⟩ := by simpa [addGroup] using hg
    exact Or.inr ⟨rfl, Or.inr ⟨by simp, rfl⟩⟩
  | cons g' gs ih =>
    obtain ⟨hnotin, hnodup'⟩ : g'.kvCacheSpec ∉ gs.map (·.kvCacheSpec) ∧
        (gs.map (·.kvCacheSpec)).Nodup := by simpa using hnodup
    unfold addGroup at hg
    split at hg
    case isTrue heq =>
      rcases List.mem_cons.mp hg with rfl | hmem
      · exact Or.inr ⟨heq, Or.inl ⟨g', by simp, heq, rfl⟩⟩
      · refine Or.inl ⟨?_, List.mem_cons_of_mem _ hmem⟩
        intro hspec
        exact hnotin (List.mem_map.mpr ⟨g, hmem, hspec.trans heq.symm⟩)
    case isFalse hne =>
      rcases List.mem_cons.mp hg with rfl | hmem
      · exact Or.inl ⟨hne, by simp⟩
      · rcases ih hnodup' hmem with ⟨hspec, hold⟩ | ⟨hspec, ⟨old, hold, hids⟩ | ⟨hnone, hids⟩⟩
        · exact Or.inl ⟨hspec, List.mem_cons_of_mem _ hold⟩
        · exact Or.inr ⟨hspec, Or.inl ⟨old, List.mem_cons_of_mem _ hold, hids⟩⟩
        · refine Or.inr ⟨hspec, Or.inr ⟨?_, hids⟩⟩
          intro old hold
          rcases List.mem_cons.mp hold with rfl | hold
          · exact hne
          · exact hnone old hold

/-- The attention groups partition the groups by spec. -/
structure IsSplit (kvCacheGroups : List KVCacheSpec) (gs : List AttentionGroup) : Prop where
  nodup : (gs.map (·.kvCacheSpec)).Nodup
  mem_ids : ∀ g ∈ gs, ∀ i, i ∈ g.groupIds ↔ kvCacheGroups[i]? = some g.kvCacheSpec
  ne_nil : ∀ g ∈ gs, g.groupIds ≠ []
  cover : ∀ spec ∈ kvCacheGroups, ∃ g ∈ gs, g.kvCacheSpec = spec

theorem splitGroups_concat (specs : List KVCacheSpec) (spec : KVCacheSpec) :
    splitGroups (specs ++ [spec]) = addGroup spec specs.length (splitGroups specs) := by
  simp [splitGroups, List.zipIdx_append]

theorem isSplit_splitGroups (specs : List KVCacheSpec) : IsSplit specs (splitGroups specs) := by
  induction specs using List.reverseRecOn with
  | nil => exact ⟨by simp [splitGroups], by simp [splitGroups], by simp [splitGroups], by simp⟩
  | append_singleton specs spec ih =>
    rw [splitGroups_concat]
    have hget : ∀ i (s : KVCacheSpec), (specs ++ [spec])[i]? = some s ↔
        specs[i]? = some s ∨ (i = specs.length ∧ s = spec) := by
      intro i s
      rcases Nat.lt_trichotomy i specs.length with hlt | rfl | hgt
      · rw [List.getElem?_append_left hlt]
        simp [Nat.ne_of_lt hlt]
      · simp [eq_comm]
      · rw [List.getElem?_eq_none (by simp; omega), List.getElem?_eq_none (by omega)]
        simp [Nat.ne_of_gt hgt]
    refine ⟨?_, ?_, ?_, ?_⟩
    · rw [map_spec_addGroup]
      split
      · exact ih.nodup
      · rename_i hnew
        refine List.nodup_append.mpr ⟨ih.nodup, by simp, ?_⟩
        rintro a ha b hb rfl
        exact hnew (List.mem_singleton.mp hb ▸ ha)
    · intro g hg i
      rw [hget]
      rcases mem_addGroup ih.nodup hg with ⟨hspec, hold⟩ | ⟨hspec, ⟨old, hold, hospec, hids⟩ | ⟨hnone, hids⟩⟩
      · rw [ih.mem_ids g hold]
        simp [hspec]
      · rw [hids, List.mem_append, ih.mem_ids old hold, hospec, hspec]
        simp
      · rw [hids, List.mem_singleton, hspec]
        constructor
        · exact fun h => Or.inr ⟨h, rfl⟩
        · rintro (h | ⟨h, _⟩)
          · obtain ⟨g', hg', hspec'⟩ := ih.cover spec (List.mem_of_getElem? h)
            exact absurd hspec' (hnone g' hg')
          · exact h
    · intro g hg
      rcases mem_addGroup ih.nodup hg with ⟨_, hold⟩ | ⟨_, ⟨old, _, _, hids⟩ | ⟨_, hids⟩⟩
      · exact ih.ne_nil g hold
      · simp [hids]
      · simp [hids]
    · intro s hs
      have hmem : s ∈ (addGroup spec specs.length (splitGroups specs)).map (·.kvCacheSpec) := by
        rw [map_spec_addGroup]
        rcases List.mem_append.mp hs with hs | hs
        · have hin : s ∈ (splitGroups specs).map (·.kvCacheSpec) := by
            simpa using ih.cover s hs
          split
          · exact hin
          · exact List.mem_append_left _ hin
        · obtain rfl : s = spec := by simpa using hs
          split
          · assumption
          · simp
      simpa using hmem

/-- The first full attention spec among the attention groups is the first one of the model. -/
theorem find?_splitGroups (specs : List KVCacheSpec) :
    ((splitGroups specs).map (·.kvCacheSpec)).find? (·.isFullAttention) = specs.find? (·.isFullAttention) := by
  induction specs using List.reverseRecOn with
  | nil => rfl
  | append_singleton specs spec ih =>
    rw [splitGroups_concat, map_spec_addGroup, List.find?_append, ← ih]
    split
    case isTrue hmem =>
      cases hfind : ((splitGroups specs).map (·.kvCacheSpec)).find? (·.isFullAttention) with
      | some s => rfl
      | none =>
        have hnot : ¬ spec.isFullAttention := by
          have := List.find?_eq_none.mp hfind spec hmem
          simpa using this
        simp [hnot]
    case isFalse => rw [List.find?_append]

theorem dvd_foldl_lcm {l : List Nat} {a x : Nat} (h : x ∣ a ∨ x ∈ l) : x ∣ l.foldl Nat.lcm a := by
  induction l generalizing a with
  | nil => simpa using h
  | cons b l ih =>
    apply ih
    rcases h with h | h
    · exact Or.inl (h.trans (Nat.dvd_lcm_left a b))
    · rcases List.mem_cons.mp h with rfl | h
      · exact Or.inl (Nat.dvd_lcm_right a x)
      · exact Or.inr h

theorem foldl_lcm_pos {l : List Nat} {a : Nat} (ha : 0 < a) (hl : ∀ x ∈ l, 0 < x) : 0 < l.foldl Nat.lcm a := by
  induction l generalizing a with
  | nil => exact ha
  | cons b l ih =>
    apply ih
    · exact Nat.lcm_pos ha (hl b (by simp))
    · exact fun x hx => hl x (List.mem_cons_of_mem _ hx)

/-- What `__init__` establishes. -/
structure Ok (c : HybridKVCacheCoordinator) : Prop where
  split : IsSplit c.kvCacheGroups c.attentionGroups
  hashDvd : ∀ spec ∈ c.kvCacheGroups, c.hashBlockSize ∣ spec.blockSize
  lcmDvd : ∀ spec ∈ c.kvCacheGroups, spec.blockSize ∣ c.lcmBlockSize
  lcmPos : (∀ spec ∈ c.kvCacheGroups, 0 < spec.blockSize) → 0 < c.lcmBlockSize
  ne_nil : c.attentionGroups ≠ []
  head : c.attentionGroups.head?.bind (fun g =>
      if g.kvCacheSpec.isFullAttention then some g.kvCacheSpec else none) =
    c.kvCacheGroups.find? (·.isFullAttention)

theorem init_ok {kvCacheGroups : List KVCacheSpec} {hashBlockSize dcp pcp : Nat} {useEagle : Bool}
    (h : init kvCacheGroups hashBlockSize useEagle dcp pcp = .ok c) :
    c.Ok ∧ c.kvCacheGroups = kvCacheGroups ∧ c.hashBlockSize = hashBlockSize ∧ c.useEagle = useEagle := by
  obtain ⟨_, hdvd, h⟩ := bind_eq_ok.mp h
  obtain ⟨_, _, h⟩ := bind_eq_ok.mp h
  obtain ⟨_, _, h⟩ := bind_eq_ok.mp h
  obtain ⟨_, hlen, h⟩ := bind_eq_ok.mp h
  rw [pyAssert_eq_ok] at hdvd hlen
  have hsplit := isSplit_splitGroups kvCacheGroups
  have hspecs : ∀ spec ∈ kvCacheGroups,
      spec.blockSize ∈ (splitGroups kvCacheGroups).map (·.kvCacheSpec.blockSize) := by
    intro spec hspec
    obtain ⟨g, hg, rfl⟩ := hsplit.cover spec hspec
    exact List.mem_map.mpr ⟨g, hg, rfl⟩
  cases h
  -- sorting moves the attention groups, it neither drops nor adds one
  have hperm : (splitGroups kvCacheGroups).Perm
      ((splitGroups kvCacheGroups).filter (·.kvCacheSpec.isFullAttention) ++
        (splitGroups kvCacheGroups).filter (!·.kvCacheSpec.isFullAttention)) :=
    (List.filter_append_perm _ _).symm
  refine ⟨⟨⟨?_, ?_, ?_, ?_⟩, ?_, ?_, ?_, ?_, ?_⟩, rfl, rfl, rfl⟩
  · exact (hperm.map _).nodup_iff.mp hsplit.nodup
  · exact fun g hg => hsplit.mem_ids g (hperm.mem_iff.mpr hg)
  · exact fun g hg => hsplit.ne_nil g (hperm.mem_iff.mpr hg)
  · intro spec hspec
    obtain ⟨g, hg, hgspec⟩ := hsplit.cover spec hspec
    exact ⟨g, hperm.mem_iff.mp hg, hgspec⟩
  · intro spec hspec
    have := List.all_eq_true.mp hdvd spec hspec
    exact Nat.dvd_of_mod_eq_zero (by simpa using this)
  · exact fun spec hspec => dvd_foldl_lcm (Or.inr (hspecs spec hspec))
  · intro hpos
    apply foldl_lcm_pos Nat.one_pos
    intro x hx
    obtain ⟨g, hg, rfl⟩ := List.mem_map.mp hx
    obtain ⟨i, hi⟩ := List.exists_mem_of_ne_nil _ (hsplit.ne_nil g hg)
    exact hpos _ (List.mem_of_getElem? ((hsplit.mem_ids g hg i).mp hi))
  · intro hnil
    have hlen' : 1 < (splitGroups kvCacheGroups).length := by simpa using hlen
    dsimp only at hnil
    rw [hperm.length_eq, hnil] at hlen'
    simp at hlen'
  · dsimp only
    rw [← find?_splitGroups, List.find?_map, List.head?_append, List.head?_filter]
    have hother : ((splitGroups kvCacheGroups).filter (!·.kvCacheSpec.isFullAttention)).head?.bind
        (fun g => if g.kvCacheSpec.isFullAttention then some g.kvCacheSpec else none) = none := by
      rw [List.head?_filter]
      cases hfind : (splitGroups kvCacheGroups).find? (!·.kvCacheSpec.isFullAttention) with
      | none => rfl
      | some g =>
        have := List.find?_some hfind
        simpa using this
    show _ = Option.map _ ((splitGroups kvCacheGroups).find? (·.kvCacheSpec.isFullAttention))
    cases hfind : (splitGroups kvCacheGroups).find? (·.kvCacheSpec.isFullAttention) with
    | none => simpa using hother
    | some g =>
      have : g.kvCacheSpec.isFullAttention = true := by simpa using List.find?_some hfind
      simp [this]

/-! ## One attention group -/

/-- What the callers promise about a search, and the specs it is made for. -/
structure Ready (c : HybridKVCacheCoordinator) (blockHashes : List (List β))
    (maxCacheHitLength : Nat) : Prop where
  ok : c.Ok
  noEagle : c.useEagle = false
  pos : ∀ spec ∈ c.kvCacheGroups, 0 < spec.blockSize
  specOk : ∀ spec ∈ c.kvCacheGroups, Search.SpecOk spec c.lcmBlockSize
  hashes : maxCacheHitLength / c.hashBlockSize ≤ blockHashes.length

variable {maxCacheHitLength : Nat} {g g' : AttentionGroup} {hits hits' : HitBlocks}

theorem Ok.spec_mem (hc : c.Ok) (hg : g ∈ c.attentionGroups) : g.kvCacheSpec ∈ c.kvCacheGroups := by
  obtain ⟨i, hi⟩ := List.exists_mem_of_ne_nil _ (hc.split.ne_nil g hg)
  exact List.mem_of_getElem? ((hc.split.mem_ids g hg i).mp hi)

theorem Ok.headD_mem (hc : c.Ok) (hg : g ∈ c.attentionGroups) : g.groupIds.headD 0 ∈ g.groupIds := by
  cases hids : g.groupIds with
  | nil => exact absurd hids (hc.split.ne_nil g hg)
  | cons i is => simp

/-- Two attention groups with a common id are the same one. -/
theorem Ok.eq_of_mem (hc : c.Ok) (hg : g ∈ c.attentionGroups) (hg' : g' ∈ c.attentionGroups) (hi : i ∈ g.groupIds)
    (hi' : i ∈ g'.groupIds) : g = g' := by
  have hspec : g.kvCacheSpec = g'.kvCacheSpec := by
    have h := (hc.split.mem_ids g hg i).mp hi
    rw [(hc.split.mem_ids g' hg' i).mp hi'] at h
    exact (Option.some.inj h).symm
  exact List.inj_on_of_nodup_map hc.split.nodup hg hg' hspec

theorem Ready.search (hr : c.Ready blockHashes maxCacheHitLength) (hg : g ∈ c.attentionGroups)
    {maxLength : Nat} (hle : maxLength ≤ maxCacheHitLength) : (c.search p blockHashes g).Ready maxLength := by
  have hmem := hr.ok.spec_mem hg
  have hpos := hr.pos _ hmem
  refine ⟨hpos, hr.ok.lcmPos hr.pos, hr.ok.lcmDvd _ hmem, ?_, hr.noEagle, hr.specOk _ hmem⟩
  have hlen : maxLength / c.hashBlockSize ≤ blockHashes.length :=
    (Nat.div_le_div_right hle).trans hr.hashes
  exact div_le_length_getBlockHashes hpos (hr.ok.hashDvd _ hmem) hlen

/-- The hits stored for an attention group serve some length, at least `lo`; for a group other than
full attention it is at most `hi`. -/
def Held (c : HybridKVCacheCoordinator) (p : BlockPool (List β × Nat)) (blockHashes : List (List β))
    (lo hi : Nat) (hits : HitBlocks) (g : AttentionGroup) : Prop :=
  ∃ rows,
    (∀ i ∈ g.groupIds, hits i = some (column p g rows i)) ∧
    (∀ k row, rows[k]? = some row → row = (c.search p blockHashes g).nullRow ∨
      (c.search p blockHashes g).cachedAt k = some row) ∧
    (∀ k, g.kvCacheSpec.Needs (rows.length * g.kvCacheSpec.blockSize) k →
      rows[k]? = (c.search p blockHashes g).cachedAt k) ∧
    (c.search p blockHashes g).Serves (rows.length * g.kvCacheSpec.blockSize) ∧
    lo ≤ rows.length * g.kvCacheSpec.blockSize ∧
    (g.kvCacheSpec.isFullAttention = false → rows.length * g.kvCacheSpec.blockSize ≤ hi)

/-- Bounds may move apart, and hits stored for other groups do not matter. -/
theorem Held.mono {lo hi lo' hi' : Nat} (h : c.Held p blockHashes lo hi hits g) (hlo : lo' ≤ lo)
    (hhi : hi ≤ hi') (hframe : ∀ i ∈ g.groupIds, hits' i = hits i) : c.Held p blockHashes lo' hi' hits' g := by
  obtain ⟨rows, hstored, hrow, hneeded, hserves, hle, hge⟩ := h
  refine ⟨rows, ?_, hrow, hneeded, hserves, hlo.trans hle, fun hfull => (hge hfull).trans hhi⟩
  intro i hi
  rw [hframe i hi, hstored i hi]

section

variable (hr : c.Ready blockHashes maxCacheHitLength)
include hr

/-- A length at which the bounds meet is served. -/
theorem Held.serves (hg : g ∈ c.attentionGroups) (h : c.Held p blockHashes L L hits g) (hdvd : c.lcmBlockSize ∣ L) :
    (c.search p blockHashes g).Serves L := by
  obtain ⟨rows, _, _, _, hserves, hle, hge⟩ := h
  have hpos := hr.pos _ (hr.ok.spec_mem hg)
  obtain ⟨n, rfl⟩ := exists_eq_mul_left_of_dvd ((hr.ok.lcmDvd _ (hr.ok.spec_mem hg)).trans hdvd)
  cases hfull : g.kvCacheSpec.isFullAttention with
  | true =>
    have hspec : g.kvCacheSpec.attention = .fullAttention := by
      simpa [KVCacheSpec.isFullAttention] using hfull
    apply Search.Serves.mono hpos hspec ?_ hserves
    exact (Nat.mul_le_mul_right_iff hpos).mp hle
  | false =>
    rw [Nat.le_antisymm hle (hge hfull)]
    exact hserves

/-- Visiting a group cuts the candidate to the greatest length it serves, and holds its hits. -/
theorem visitGroup_spec (hg : g ∈ c.attentionGroups) {hi : Nat} (hcurr : curr ≤ maxCacheHitLength)
    (hstored : g.kvCacheSpec.isFullAttention → hits (g.groupIds.headD 0) = none ∨
        (c.Held p blockHashes curr hi hits g ∧ c.lcmBlockSize ∣ curr)) :
    ∃ curr' hits', c.visitGroup p blockHashes (curr, hits) g = .ok (curr', hits') ∧
      curr' ≤ curr ∧ c.lcmBlockSize ∣ curr' ∧ (∀ L ≤ curr, (c.search p blockHashes g).Servable L → L ≤ curr') ∧
      c.Held p blockHashes curr' curr' hits' g ∧ (∀ i ∉ g.groupIds, hits' i = hits i) := by
  unfold visitGroup
  by_cases hreuse : g.kvCacheSpec.isFullAttention ∧ (hits (g.groupIds.headD 0)).isSome
  · rw [if_pos hreuse]
    obtain ⟨hfull, hsome⟩ := hreuse
    rcases hstored hfull with hnone | ⟨hheld, hdvd⟩
    · rw [hnone] at hsome
      simp at hsome
    · have heq : curr / g.kvCacheSpec.blockSize * g.kvCacheSpec.blockSize = curr :=
        Nat.div_mul_cancel ((hr.ok.lcmDvd _ (hr.ok.spec_mem hg)).trans hdvd)
      refine ⟨curr, hits, by simp only [heq]; rfl, le_rfl, hdvd, fun L hL _ => hL, ?_, fun _ _ => rfl⟩
      obtain ⟨rows, hrest⟩ := hheld
      exact ⟨rows, hrest.1, hrest.2.1, hrest.2.2.1, hrest.2.2.2.1, hrest.2.2.2.2.1, by simp [hfull]⟩
  · rw [if_neg hreuse]
    obtain ⟨rows, hrows, hhit⟩ := Search.findLongestCacheHit_isHit (hr.search (p := p) hg hcurr)
    refine ⟨rows.length * g.kvCacheSpec.blockSize, storeHits p g rows hits, by simp only [hrows]; rfl,
      hhit.greatest.le, hhit.greatest.holds.1, fun L hL hserv => hhit.greatest.bound hL hserv, ?_, ?_⟩
    · refine ⟨rows, ?_, hhit.row, hhit.needed, hhit.greatest.holds.2, le_rfl, fun _ => le_rfl⟩
      intro i hi
      simp [storeHits, hi]
    · intro i hi
      simp [storeHits, hi]

/-! ## A round -/

/-- One round over some of the attention groups. -/
theorem round_spec (gs : List AttentionGroup) (hgs : ∀ g ∈ gs, g ∈ c.attentionGroups) (hnodup : gs.Nodup) {hi : Nat}
    (hcurr : curr ≤ maxCacheHitLength) (hstored : ∀ g ∈ gs, g.kvCacheSpec.isFullAttention →
      hits (g.groupIds.headD 0) = none ∨ (c.Held p blockHashes curr hi hits g ∧ c.lcmBlockSize ∣ curr)) :
    ∃ curr' hits', gs.foldlM (c.visitGroup p blockHashes) (curr, hits) = .ok (curr', hits') ∧
      curr' ≤ curr ∧ (gs ≠ [] → c.lcmBlockSize ∣ curr') ∧
      (∀ L ≤ curr, (∀ g ∈ gs, (c.search p blockHashes g).Servable L) → L ≤ curr') ∧
      (∀ g ∈ gs, c.Held p blockHashes curr' curr hits' g) ∧
      (∀ g, gs.getLast? = some g → c.Held p blockHashes curr' curr' hits' g) ∧
      (∀ i, (∀ g ∈ gs, i ∉ g.groupIds) → hits' i = hits i) := by
  induction gs generalizing curr hits with
  | nil => exact ⟨curr, hits, rfl, le_rfl, by simp, by simp, by simp, by simp, fun _ _ => rfl⟩
  | cons g gs ih =>
    obtain ⟨hnotin, hnodup⟩ := List.nodup_cons.mp hnodup
    have hg := hgs g (by simp)
    obtain ⟨curr₁, hits₁, hvisit, hle₁, hdvd₁, hbound₁, hheld₁, hframe₁⟩ :=
      visitGroup_spec hr hg hcurr (hstored g (by simp))
    have hother : ∀ g' ∈ gs, ∀ i ∈ g'.groupIds, i ∉ g.groupIds := by
      intro g' hg' i hi hmem
      obtain rfl := hr.ok.eq_of_mem hg (hgs g' (List.mem_cons_of_mem _ hg')) hmem hi
      exact hnotin hg'
    have hstored₁ : ∀ g' ∈ gs, g'.kvCacheSpec.isFullAttention →
        hits₁ (g'.groupIds.headD 0) = none ∨
          (c.Held p blockHashes curr₁ hi hits₁ g' ∧ c.lcmBlockSize ∣ curr₁) := by
      intro g' hg' hfull
      have hg'' := List.mem_cons_of_mem g hg'
      rcases hstored g' hg'' hfull with hnone | ⟨hheld, _⟩
      · left
        rw [hframe₁ _ (hother g' hg' _ (hr.ok.headD_mem (hgs g' hg''))), hnone]
      · exact Or.inr ⟨hheld.mono hle₁ le_rfl fun i hi => hframe₁ i (hother g' hg' i hi), hdvd₁⟩
    obtain ⟨curr', hits', hrest, hle', hdvd', hbound', hheld', hlast', hframe'⟩ :=
      ih (fun g' hg' => hgs g' (List.mem_cons_of_mem _ hg')) hnodup (hle₁.trans hcurr) hstored₁
    have hkeep : ∀ i ∈ g.groupIds, hits' i = hits₁ i :=
      fun i hi => hframe' i fun g' hg' hmem => hother g' hg' i hmem hi
    refine ⟨curr', hits', ?_, hle'.trans hle₁, ?_, ?_, ?_, ?_, ?_⟩
    · rw [List.foldlM_cons, hvisit, ok_bind, hrest]
    · intro _
      cases gs with
      | nil =>
        obtain ⟨rfl, rfl⟩ : curr₁ = curr' ∧ hits₁ = hits' := by simpa using Except.ok.inj hrest
        exact hdvd₁
      | cons => exact hdvd' (by simp)
    · intro L hL hserv
      apply hbound' L (hbound₁ L hL (hserv g (by simp)))
      exact fun g' hg' => hserv g' (List.mem_cons_of_mem _ hg')
    · intro g' hg'
      rcases List.mem_cons.mp hg' with rfl | hg'
      · exact hheld₁.mono hle' hle₁ hkeep
      · exact (hheld' g' hg').mono le_rfl hle₁ fun _ _ => rfl
    · intro g' hg'
      cases gs with
      | nil =>
        obtain ⟨rfl, rfl⟩ : curr₁ = curr' ∧ hits₁ = hits' := by simpa using Except.ok.inj hrest
        obtain rfl : g = g' := by simpa using hg'
        exact hheld₁
      | cons => exact hlast' g' (by simpa using hg')
    · intro i hi
      rw [hframe' i fun g' hg' => hi g' (List.mem_cons_of_mem _ hg'), hframe₁ i (hi g (by simp))]

end

/-! ## The loop -/

/-- A length every group serves. -/
def Common (c : HybridKVCacheCoordinator) (p : BlockPool (List β × Nat)) (blockHashes : List (List β))
    (L : Nat) : Prop :=
  ∀ g ∈ c.attentionGroups, (c.search p blockHashes g).Servable L

/-- The rounds end with the greatest common length and the hits that spell it. -/
theorem hitLoop_spec (hr : c.Ready blockHashes maxCacheHitLength) (hitLength : Nat)
    (hle : hitLength ≤ maxCacheHitLength) (hbound : ∀ L ≤ maxCacheHitLength, c.Common p blockHashes L → L ≤ hitLength)
    (hstored : ∀ g ∈ c.attentionGroups, g.kvCacheSpec.isFullAttention → hits (g.groupIds.headD 0) = none ∨
        (∃ hi, c.Held p blockHashes hitLength hi hits g) ∧ c.lcmBlockSize ∣ hitLength) :
    ∃ L hits', c.hitLoop p blockHashes hitLength hits = .ok (L, hits') ∧
      GreatestBelow (c.Common p blockHashes) maxCacheHitLength L ∧
      ∀ g ∈ c.attentionGroups, c.Held p blockHashes L L hits' g := by
  induction hitLength using Nat.strong_induction_on generalizing hits with
  | _ hitLength ih =>
    have hnodup : c.attentionGroups.Nodup := hr.ok.split.nodup.of_map _
    -- one upper bound for all stored hits: only full attention is reused, which has none
    have hstored' : ∀ g ∈ c.attentionGroups, g.kvCacheSpec.isFullAttention →
        hits (g.groupIds.headD 0) = none ∨
          (c.Held p blockHashes hitLength hitLength hits g ∧ c.lcmBlockSize ∣ hitLength) := by
      intro g hg hfull
      rcases hstored g hg hfull with hnone | ⟨⟨hi, rows, hs, hrow, hn, hserv, hlo, _⟩, hdvd⟩
      · exact Or.inl hnone
      · exact Or.inr ⟨⟨rows, hs, hrow, hn, hserv, hlo, by simp [hfull]⟩, hdvd⟩
    obtain ⟨curr, hits₁, hround, hle₁, hdvd₁, hbound₁, hheld₁, hlast₁, _⟩ :=
      round_spec hr c.attentionGroups (fun g hg => hg) hnodup hle hstored'
    have hdvd := hdvd₁ hr.ok.ne_nil
    have hbound' : ∀ L ≤ maxCacheHitLength, c.Common p blockHashes L → L ≤ curr :=
      fun L hL hcommon => hbound₁ L (hbound L hL hcommon) hcommon
    -- hits that meet at the candidate make it the answer
    have hdone : (∀ g ∈ c.attentionGroups, c.Held p blockHashes curr curr hits₁ g) →
        GreatestBelow (c.Common p blockHashes) maxCacheHitLength curr := by
      intro hheld
      constructor
      · exact ⟨hle₁.trans hle, fun g hg => ⟨hdvd, (hheld g hg).serves hr hg hdvd⟩⟩
      · exact fun L ⟨hL, hcommon⟩ => hbound' L hL hcommon
    unfold hitLoop
    rw [hround]
    dsimp only
    by_cases hstable : hitLength ≤ curr
    · obtain rfl : hitLength = curr := Nat.le_antisymm hstable hle₁
      rw [if_pos hstable]
      exact ⟨hitLength, hits₁, rfl, hdone hheld₁, hheld₁⟩
    · rw [if_neg hstable]
      by_cases hsimple : c.isSimpleHybrid
      · rw [if_pos hsimple]
        have hheld : ∀ g ∈ c.attentionGroups, c.Held p blockHashes curr curr hits₁ g := by
          obtain ⟨f, o, hgroups, hfull⟩ : ∃ f o, c.attentionGroups = [f, o] ∧
              f.kvCacheSpec.isFullAttention = true := by
            unfold isSimpleHybrid at hsimple
            rcases hgs : c.attentionGroups with _ | ⟨f, _ | ⟨o, _ | ⟨_, _⟩⟩⟩ <;>
              simp [hgs] at hsimple ⊢
            exact hsimple
          intro g hg
          have hheldg := hheld₁ g hg
          rw [hgroups] at hg
          rcases List.mem_cons.mp hg with rfl | hg
          · obtain ⟨rows, hs, hrow, hn, hserv, hlo, _⟩ := hheldg
            exact ⟨rows, hs, hrow, hn, hserv, hlo, by simp [hfull]⟩
          · obtain rfl : g = o := by simpa using hg
            exact hlast₁ g (by simp [hgroups])
        exact ⟨curr, hits₁, rfl, hdone hheld, hheld⟩
      · rw [if_neg hsimple]
        apply ih curr (by omega) (hle₁.trans hle) hbound'
        exact fun g hg _ => Or.inr ⟨⟨hitLength, hheld₁ g hg⟩, hdvd⟩

/-! ## The hit of each KV cache group -/

/-- The cached block of a group at block position `k`, if any. -/
def cachedBlock (c : HybridKVCacheCoordinator) (p : BlockPool (List β × Nat))
    (blockHashes : List (List β)) (spec : KVCacheSpec) (groupId k : Nat) : Option Nat :=
  (getBlockHashes c.hashBlockSize blockHashes spec.blockSize)[k]?.bind fun h =>
    p.cachedBlockHashToBlock.getOneBlock (h, groupId)

/-- A length that every group can serve from the cache, on the common block size. -/
def Servable (c : HybridKVCacheCoordinator) (p : BlockPool (List β × Nat))
    (blockHashes : List (List β)) (L : Nat) : Prop :=
  c.lcmBlockSize ∣ L ∧ ∀ groupId spec, c.kvCacheGroups[groupId]? = some spec →
    ∀ k, spec.Needs L k → (c.cachedBlock p blockHashes spec groupId k).isSome

theorem mapM_isSome {α γ : Type} {f : α → Option γ} {l : List α} : (l.mapM f).isSome ↔ ∀ a ∈ l, (f a).isSome := by
  induction l with
  | nil => simp
  | cons a l ih =>
    cases ha : f a with
    | none => simp [ha]
    | some b =>
      cases hl : l.mapM f with
      | none => simpa [ha, hl] using ih
      | some bs => simpa [ha, hl] using ih

theorem getElem?_of_mapM {α γ : Type} {f : α → Option γ} {l : List α} {r : List γ} (h : l.mapM f = some r) {a : α}
    (ha : l[i]? = some a) : f a = r[i]? := by
  induction l generalizing r i with
  | nil => simp at ha
  | cons x l ih =>
    rw [List.mapM_cons] at h
    obtain ⟨b, hb, h⟩ := Option.bind_eq_some_iff.mp h
    obtain ⟨bs, hbs, h⟩ := Option.bind_eq_some_iff.mp h
    obtain rfl : b :: bs = r := by simpa using h
    cases i with
    | zero =>
      obtain rfl : x = a := by simpa using ha
      simpa using hb
    | succ i => simpa using ih hbs (by simpa using ha)

/-- A row of an attention group is cached when each of its groups has the block. -/
theorem cachedAt_isSome (hne : g.groupIds ≠ []) {k : Nat} :
    ((c.search p blockHashes g).cachedAt k).isSome ↔
      ∀ i ∈ g.groupIds, (c.cachedBlock p blockHashes g.kvCacheSpec i k).isSome := by
  obtain ⟨j, hj⟩ := List.exists_mem_of_ne_nil _ hne
  unfold Search.cachedAt cachedBlock search
  cases (getBlockHashes c.hashBlockSize blockHashes g.kvCacheSpec.blockSize)[k]? with
  | none =>
    simp only [Option.bind_none, Option.isSome_none, Bool.false_eq_true, false_iff, not_forall]
    exact ⟨j, hj, by simp⟩
  | some h =>
    simp only [Option.bind_some, Search.getCachedBlock, BlockPool.getCachedBlock]
    rw [mapM_isSome]
    simp

/-- The entries of a cached row are the cached blocks of the groups. -/
theorem cachedBlock_of_cachedAt {k : Nat} {row : List Nat} (h : (c.search p blockHashes g).cachedAt k = some row)
    (hi : i ∈ g.groupIds) :
    c.cachedBlock p blockHashes g.kvCacheSpec i k = some (row.getD (g.groupIds.idxOf i) p.nullBlock) := by
  have hidx : g.groupIds[g.groupIds.idxOf i]? = some i := List.getElem?_idxOf hi
  unfold Search.cachedAt search at h
  obtain ⟨hash, hhash, h⟩ := Option.bind_eq_some_iff.mp h
  have hrow := getElem?_of_mapM h (i := g.groupIds.idxOf i) (a := (hash, i)) (by simp [hidx])
  unfold cachedBlock
  rw [hhash, Option.bind_some, hrow]
  have hsome : ((g.groupIds.map fun groupId => (hash, groupId)).mapM
      p.cachedBlockHashToBlock.getOneBlock).isSome := Option.isSome_iff_exists.mpr ⟨row, h⟩
  have hblock := mapM_isSome.mp hsome (hash, i) (List.mem_map.mpr ⟨i, hi, rfl⟩)
  rw [hrow] at hblock
  obtain ⟨b, hb⟩ := Option.isSome_iff_exists.mp hblock
  rw [List.getD_eq_getElem?_getD, hb]
  rfl

/-- Serving all attention groups is serving all groups. -/
theorem common_iff_servable (hc : c.Ok) : c.Common p blockHashes L ↔ c.Servable p blockHashes L := by
  constructor
  · intro hcommon
    obtain ⟨g₀, hg₀⟩ := List.exists_mem_of_ne_nil _ hc.ne_nil
    refine ⟨(hcommon g₀ hg₀).1, ?_⟩
    intro groupId spec hspec k hk
    obtain ⟨g, hg, rfl⟩ := hc.split.cover spec (List.mem_of_getElem? hspec)
    have hmem := (hc.split.mem_ids g hg groupId).mpr hspec
    exact (cachedAt_isSome (hc.split.ne_nil g hg)).mp ((hcommon g hg).2 k hk) groupId hmem
  · rintro ⟨hdvd, hserv⟩ g hg
    refine ⟨hdvd, fun k hk => (cachedAt_isSome (hc.split.ne_nil g hg)).mpr ?_⟩
    intro i hi
    exact hserv i g.kvCacheSpec ((hc.split.mem_ids g hg i).mp hi) k hk

/-- What a group is handed for a hit of `L` tokens: at every position the cached block or the null
block, the null block only where the prefix does not need the block. -/
def IsGroupHit (c : HybridKVCacheCoordinator) (p : BlockPool (List β × Nat))
    (blockHashes : List (List β)) (L : Nat) (spec : KVCacheSpec) (groupId : Nat)
    (blocks : List Nat) : Prop :=
  ∀ k, k < L / spec.blockSize → ∃ b, blocks[k]? = some b ∧
    (c.cachedBlock p blockHashes spec groupId k = some b ∨ (b = p.nullBlock ∧ ¬ spec.Needs L k))

theorem Held.isGroupHit (hr : c.Ready blockHashes maxCacheHitLength) (hg : g ∈ c.attentionGroups)
    (h : c.Held p blockHashes L L hits g) (hdvd : c.lcmBlockSize ∣ L) (hi : i ∈ g.groupIds) :
    ∃ blocks, hits i = some blocks ∧ L / g.kvCacheSpec.blockSize ≤ blocks.length ∧
      (g.kvCacheSpec.isFullAttention = false → blocks.length = L / g.kvCacheSpec.blockSize) ∧
      c.IsGroupHit p blockHashes L g.kvCacheSpec i blocks := by
  obtain ⟨rows, hstored, hrow, hneeded, hserves, hle, hge⟩ := h
  have hpos := hr.pos _ (hr.ok.spec_mem hg)
  obtain ⟨n, rfl⟩ := exists_eq_mul_left_of_dvd ((hr.ok.lcmDvd _ (hr.ok.spec_mem hg)).trans hdvd)
  have hn : n ≤ rows.length := (Nat.mul_le_mul_right_iff hpos).mp hle
  refine ⟨column p g rows i, hstored i hi, ?_, ?_, ?_⟩
  · rw [Nat.mul_div_cancel _ hpos]
    simpa [column] using hn
  · intro hfull
    rw [Nat.mul_div_cancel _ hpos, column, List.length_map]
    exact Nat.le_antisymm ((Nat.mul_le_mul_right_iff hpos).mp (hge hfull)) hn
  · intro k hk
    rw [Nat.mul_div_cancel _ hpos] at hk
    obtain ⟨row, hget⟩ : ∃ row, rows[k]? = some row := ⟨_, List.getElem?_eq_getElem (by omega)⟩
    refine ⟨row.getD (g.groupIds.idxOf i) p.nullBlock, by simp [column, hget], ?_⟩
    -- what `n` blocks need, the stored rows need as well
    have hneed : g.kvCacheSpec.Needs (n * g.kvCacheSpec.blockSize) k →
        g.kvCacheSpec.Needs (rows.length * g.kvCacheSpec.blockSize) k := by
      intro hk'
      cases hfull : g.kvCacheSpec.isFullAttention with
      | true =>
        have hspec : g.kvCacheSpec.attention = .fullAttention := by
          simpa [KVCacheSpec.isFullAttention] using hfull
        exact (KVCacheSpec.needs_fullAttention hpos hspec).mpr (by omega)
      | false => rwa [Nat.le_antisymm (hge hfull) hle]
    by_cases hk' : g.kvCacheSpec.Needs (n * g.kvCacheSpec.blockSize) k
    · exact Or.inl (cachedBlock_of_cachedAt ((hneeded k (hneed hk')).symm.trans hget) hi)
    · rcases hrow k _ hget with hnull | hcached
      · refine Or.inr ⟨?_, hk'⟩
        have hidx : g.groupIds[g.groupIds.idxOf i]? = some i := List.getElem?_idxOf hi
        rw [hnull, List.getD_eq_getElem?_getD, Search.nullRow, List.getElem?_map]
        simp [search, hidx]
      · exact Or.inl (cachedBlock_of_cachedAt hcached hi)

/-- The first attention group's lists are cut to the length of the hit. -/
theorem truncateFirst_spec (hc : c.Ok) (hg : g ∈ c.attentionGroups) {blocks : List Nat} (hi : i ∈ g.groupIds)
    (h : hits i = some blocks) :
    c.truncateFirst L hits i = some blocks ∨
      c.truncateFirst L hits i = some (blocks.take (L / g.kvCacheSpec.blockSize)) := by
  unfold truncateFirst
  cases hgroups : c.attentionGroups with
  | nil => exact Or.inl h
  | cons f gs =>
    dsimp only
    split
    · by_cases hmem : i ∈ f.groupIds
      · obtain rfl := hc.eq_of_mem hg (by simp [hgroups]) hi hmem
        simp [hmem, h]
      · simp [hmem, h]
    · exact Or.inl h

/-- A full attention group with the first full attention spec is cut. -/
theorem truncateFirst_of_first (hc : c.Ok) (hg : g ∈ c.attentionGroups) {blocks : List Nat} (hi : i ∈ g.groupIds)
    (h : hits i = some blocks) (hfirst : c.kvCacheGroups.find? (·.isFullAttention) = some g.kvCacheSpec) :
    c.truncateFirst L hits i = some (blocks.take (L / g.kvCacheSpec.blockSize)) := by
  have hhead := hc.head.trans hfirst
  unfold truncateFirst
  cases hgroups : c.attentionGroups with
  | nil => simp [hgroups] at hhead
  | cons f gs =>
    simp only [hgroups, List.head?_cons, Option.bind_some] at hhead
    split at hhead
    case isTrue hfull =>
      have hfg : f = g :=
        List.inj_on_of_nodup_map hc.split.nodup (by simp [hgroups]) hg (Option.some.inj hhead)
      subst hfg
      simp [hfull, hi, h]
    case isFalse => simp at hhead

/-! ## Where the blocks come from -/

/-- What is kept for a group is null blocks, and blocks cached under the hashes at their positions. -/
def FromCache (c : HybridKVCacheCoordinator) (p : BlockPool (List β × Nat)) (blockHashes : List (List β))
    (hits : HitBlocks) : Prop :=
  ∀ i blocks, hits i = some blocks → ∃ g ∈ c.attentionGroups, i ∈ g.groupIds ∧
    ∀ (k b : Nat), blocks[k]? = some b → b ≠ p.nullBlock →
      ∃ row, (c.search p blockHashes g).cachedAt k = some row ∧ b ∈ row

/-- The blocks of a group are those of its column, if they are no null blocks. -/
theorem mem_of_column {rows : List (List Nat)} {k b : Nat} (hb : (column p g rows i)[k]? = some b)
    (hnull : b ≠ p.nullBlock) : ∃ row, rows[k]? = some row ∧ b ∈ row := by
  rw [column, List.getElem?_map, Option.map_eq_some_iff] at hb
  obtain ⟨row, hrow, rfl⟩ := hb
  refine ⟨row, hrow, ?_⟩
  rw [List.getD_eq_getElem?_getD] at hnull ⊢
  cases hidx : row[g.groupIds.idxOf i]? with
  | none => simp [hidx] at hnull
  | some b => exact List.mem_of_getElem? hidx

theorem fromCache_visitGroup (hg : g ∈ c.attentionGroups) (h : c.FromCache p blockHashes hits)
    (hrun : c.visitGroup p blockHashes (hitLength, hits) g = .ok (curr, hits')) : c.FromCache p blockHashes hits' := by
  unfold visitGroup at hrun
  split at hrun
  · cases hrun
    exact h
  · obtain ⟨rows, hsearch, hrun⟩ := bind_eq_ok.mp hrun
    cases hrun
    intro i blocks hi
    unfold storeHits at hi
    split at hi
    case isFalse => exact h i blocks hi
    case isTrue hmem =>
      obtain rfl := Option.some.inj hi
      refine ⟨g, hg, hmem, fun k b hb hnull => ?_⟩
      obtain ⟨row, hrow, hbrow⟩ := mem_of_column hb hnull
      rcases Search.fromCache_of_findLongestCacheHit hsearch k row hrow with rfl | hcached
      · obtain ⟨-, -, rfl⟩ := List.mem_map.mp hbrow
        exact absurd rfl hnull
      · exact ⟨row, hcached, hbrow⟩

theorem fromCache_round {gs : List AttentionGroup} (hgs : ∀ g ∈ gs, g ∈ c.attentionGroups)
    (h : c.FromCache p blockHashes hits)
    (hrun : gs.foldlM (c.visitGroup p blockHashes) (hitLength, hits) = .ok (curr, hits')) :
    c.FromCache p blockHashes hits' := by
  induction gs generalizing hitLength hits with
  | nil =>
    cases hrun
    exact h
  | cons g gs ih =>
    obtain ⟨⟨len, hits₁⟩, hvisit, hrest⟩ := bind_eq_ok.mp hrun
    exact ih (fun g' hg' => hgs g' (List.mem_cons_of_mem g hg'))
      (fromCache_visitGroup (hgs g List.mem_cons_self) h hvisit) hrest

theorem fromCache_hitLoop (h : c.FromCache p blockHashes hits)
    (hrun : c.hitLoop p blockHashes hitLength hits = .ok (L, hits')) : c.FromCache p blockHashes hits' := by
  induction hitLength using Nat.strong_induction_on generalizing hits with
  | _ hitLength ih =>
    rw [hitLoop] at hrun
    split at hrun
    · cases hrun
    next curr hits₁ hround =>
      have hnext := fromCache_round (fun g hg => hg) h hround
      split at hrun
      · cases hrun
        exact hnext
      next hlt =>
        split at hrun
        · cases hrun
          exact hnext
        · exact ih curr (Nat.not_le.mp hlt) hnext hrun

theorem fromCache_truncateFirst (h : c.FromCache p blockHashes hits) :
    c.FromCache p blockHashes (c.truncateFirst L hits) := by
  unfold truncateFirst
  split
  case h_2 => exact h
  case h_1 f gs hgroups =>
    split
    case isFalse => exact h
    case isTrue =>
      intro i blocks hi
      dsimp only at hi
      split at hi
      case isFalse => exact h i blocks hi
      case isTrue =>
        obtain ⟨longer, hlonger, rfl⟩ := Option.map_eq_some_iff.mp hi
        obtain ⟨g, hg, hmem, hcached⟩ := h i longer hlonger
        refine ⟨g, hg, hmem, fun k b hb => hcached k b ?_⟩
        rw [List.getElem?_take] at hb
        split at hb
        · exact hb
        · cases hb

/-- The hybrid search returns null blocks, and blocks cached under the hashes at their positions. -/
theorem cachedAt_of_findLongestCacheHit {groups : List (List Nat)}
    (hrun : c.findLongestCacheHit p blockHashes maxCacheHitLength = .ok (groups, L)) {blocks : List Nat}
    (hblocks : groups[i]? = some blocks) {k b : Nat} (hb : blocks[k]? = some b) (hnull : b ≠ p.nullBlock) :
    ∃ g ∈ c.attentionGroups, i ∈ g.groupIds ∧ ∃ row, (c.search p blockHashes g).cachedAt k = some row ∧ b ∈ row := by
  obtain ⟨⟨len, hits⟩, hloop, hrest⟩ := bind_eq_ok.mp hrun
  cases hrest
  have hfound := fromCache_truncateFirst (L := L) (fromCache_hitLoop (fun i blocks hi => by cases hi) hloop)
  rw [List.getElem?_map, Option.map_eq_some_iff] at hblocks
  obtain ⟨i', hi', rfl⟩ := hblocks
  obtain rfl : i' = i := by
    obtain ⟨hlt, hrange⟩ := List.getElem?_eq_some_iff.mp hi'
    rw [List.getElem_range] at hrange
    exact hrange.symm
  cases hkept : c.truncateFirst L hits i' with
  | none => simp [hkept] at hb
  | some blocks =>
    rw [hkept] at hb
    obtain ⟨g, hg, hmem, hcached⟩ := hfound i' blocks hkept
    exact ⟨g, hg, hmem, hcached k b hb hnull⟩

/-- The hybrid search is sound and maximal. It returns the greatest length on the common block size,
within the bound, that every group can serve, and hands each group the cached blocks of that prefix.
The list of a group is as long as the prefix, except that of a full attention group whose spec is not
the first one of its kind. -/
theorem findLongestCacheHit_greatest {kvCacheGroups : List KVCacheSpec} {hashBlockSize : Nat}
    (c : HybridKVCacheCoordinator) (p : BlockPool (List β × Nat)) (blockHashes : List (List β))
    (maxCacheHitLength : Nat) (hinit : init kvCacheGroups hashBlockSize false 1 1 = .ok c)
    (hpos : ∀ spec ∈ kvCacheGroups, 0 < spec.blockSize)
    (hwindow : ∀ spec ∈ kvCacheGroups, ∀ w, spec.attention = .slidingWindow w → 2 ≤ w)
    (hchunk : ∀ spec ∈ kvCacheGroups, ∀ chunk, spec.attention = .chunkedLocal chunk →
      0 < chunk ∧ spec.blockSize ∣ chunk ∧ spec.blockSize = c.lcmBlockSize)
    (hhashes : maxCacheHitLength / hashBlockSize ≤ blockHashes.length) :
    ∃ blocks L, c.findLongestCacheHit p blockHashes maxCacheHitLength = .ok (blocks, L) ∧
      GreatestBelow (c.Servable p blockHashes) maxCacheHitLength L ∧ blocks.length = kvCacheGroups.length ∧
      ∀ groupId spec, kvCacheGroups[groupId]? = some spec → ∃ groupBlocks, blocks[groupId]? = some groupBlocks ∧
          c.IsGroupHit p blockHashes L spec groupId groupBlocks ∧
          ((spec.isFullAttention = true → kvCacheGroups.find? (·.isFullAttention) = some spec) →
            groupBlocks.length = L / spec.blockSize) := by
  obtain ⟨hok, rfl, rfl, heagle⟩ := init_ok hinit
  have hr : c.Ready blockHashes maxCacheHitLength := by
    refine ⟨hok, heagle, hpos, ?_, hhashes⟩
    intro spec hspec
    unfold Search.SpecOk
    split
    case h_1 w h => exact hwindow spec hspec w h
    case h_2 chunk h => exact hchunk spec hspec chunk h
    case h_3 => trivial
  have hstored : ∀ g ∈ c.attentionGroups, g.kvCacheSpec.isFullAttention →
      noHits (g.groupIds.headD 0) = none ∨
        (∃ hi, c.Held p blockHashes maxCacheHitLength hi noHits g) ∧
          c.lcmBlockSize ∣ maxCacheHitLength := fun _ _ _ => Or.inl rfl
  obtain ⟨L, hits, hloop, hgreatest, hheld⟩ :=
    hitLoop_spec hr maxCacheHitLength le_rfl (fun L hL _ => hL) hstored
  have hcommon : GreatestBelow (c.Servable p blockHashes) maxCacheHitLength L := by
    have heq : c.Common p blockHashes = c.Servable p blockHashes :=
      funext fun L => propext (common_iff_servable hok)
    rwa [heq] at hgreatest
  refine ⟨_, L, by simp only [findLongestCacheHit, hloop]; rfl, hcommon, by simp, ?_⟩
  intro groupId spec hspec
  obtain ⟨g, hg, rfl⟩ := hok.split.cover spec (List.mem_of_getElem? hspec)
  have hmem := (hok.split.mem_ids g hg groupId).mpr hspec
  have hlt : groupId < c.kvCacheGroups.length := (List.getElem?_eq_some_iff.mp hspec).1
  obtain ⟨blocks, hblocks, hlen, hlenEq, hhit⟩ :=
    (hheld g hg).isGroupHit hr hg hcommon.holds.1 hmem
  refine ⟨(c.truncateFirst L hits groupId).getD [], by simp [hlt], ?_, ?_⟩
  · rcases truncateFirst_spec hok hg (L := L) hmem hblocks with h | h
    · rwa [h]
    · rw [h]
      intro k hk
      obtain ⟨b, hb, hb'⟩ := hhit k hk
      exact ⟨b, by rw [Option.getD_some, List.getElem?_take_of_lt hk, hb], hb'⟩
  · intro hfirst
    cases hfull : g.kvCacheSpec.isFullAttention with
    | false =>
      rcases truncateFirst_spec hok hg (L := L) hmem hblocks with h | h
      · rw [h, Option.getD_some, hlenEq hfull]
      · rw [h, Option.getD_some, List.length_take, hlenEq hfull, Nat.min_self]
    | true =>
      rw [truncateFirst_of_first hok hg hmem hblocks (hfirst hfull), Option.getD_some,
        List.length_take, Nat.min_eq_left hlen]

/-- A pool with given cached blocks, for the concrete searches below. -/
def poolWith (cache : List Nat × Nat → Option KVCacheBlocks) : BlockPool (List Nat × Nat) where
  numGpuBlocks := 8
  enableCaching := true
  blocks := fun _ => {}
  freeBlockQueue := .init []
  cachedBlockHashToBlock := ⟨cache⟩
  nullBlock := 0

/-- Two full attention groups with blocks of 2 tokens and a window of 3 tokens with blocks of 4, where
only the first two full attention blocks and the first window block are cached. -/
theorem findLongestCacheHit_greatest_three_groups :
    ∃ c, init [⟨2, .fullAttention, 0⟩, ⟨4, .slidingWindow 3, 0⟩, ⟨2, .fullAttention, 0⟩] 2 false 1 1 =
        .ok c ∧
      ∃ blocks L, c.findLongestCacheHit
          (poolWith fun key => if key ∈ [([1], 0), ([1], 2), ([2], 0), ([2], 2), ([1, 2], 1)] then
            some (.block 1) else none) [[1], [2], [3], [4]] 9 = .ok (blocks, L) ∧
        c.lcmBlockSize ∣ L ∧ L ≤ 9 ∧ blocks.length = 3 := by
  obtain ⟨c, hc⟩ : ∃ c, init [⟨2, .fullAttention, 0⟩, ⟨4, .slidingWindow 3, 0⟩,
      ⟨2, .fullAttention, 0⟩] 2 false 1 1 = .ok c := ⟨_, rfl⟩
  obtain ⟨blocks, L, hfind, hgreatest, hlen, _⟩ := findLongestCacheHit_greatest c
    (poolWith fun key => if key ∈ [([1], 0), ([1], 2), ([2], 0), ([2], 2), ([1, 2], 1)] then
      some (.block 1) else none) [[1], [2], [3], [4]] 9 hc (by decide) (by simp) (by simp) (by decide)
  exact ⟨c, hc, blocks, L, hfind, hgreatest.holds.1, hgreatest.le, hlen⟩

theorem hitLoop_of_error {e : PyError}
    (h : c.attentionGroups.foldlM (c.visitGroup p blockHashes) (hitLength, hits) = .error e) :
    c.hitLoop p blockHashes hitLength hits = .error e := by
  rw [hitLoop, h]

section

variable (h : c.attentionGroups.foldlM (c.visitGroup p blockHashes) (hitLength, hits) = .ok (curr, hits'))
include h

theorem hitLoop_of_stable (hle : hitLength ≤ curr) :
    c.hitLoop p blockHashes hitLength hits = .ok (hitLength, hits') := by
  rw [hitLoop, h]
  simp only [hle]
  rfl

theorem hitLoop_of_lt (hlt : curr < hitLength) (hsimple : c.isSimpleHybrid = false) :
    c.hitLoop p blockHashes hitLength hits = c.hitLoop p blockHashes curr hits' := by
  rw [hitLoop, h]
  simp only [Nat.not_le.mpr hlt, hsimple, ite_false, Bool.false_eq_true]

end

/-- A chunked-local group next to one with another block size makes the search raise, and so does a window with
fewer hashes than blocks. And of two full attention groups with different specs the second keeps a block too many
when a window of 2 tokens cuts the hit from 2 tokens to 1. -/
theorem findLongestCacheHit_not_always :
    (∃ c, init [⟨2, .chunkedLocal 4, 0⟩, ⟨4, .slidingWindow 3, 0⟩] 2 false 1 1 = .ok c ∧
      c.lcmBlockSize = 4 ∧
      c.findLongestCacheHit (poolWith fun _ => none) [[1], [2]] 4 =
        .error (.assertionError ("KV cache groups with different block sizes are not compatible with " ++
          "chunked local attention now"))) ∧
    (∃ c, init [⟨2, .slidingWindow 3, 0⟩, ⟨2, .mamba, 0⟩] 2 false 1 1 = .ok c ∧
      c.findLongestCacheHit (poolWith fun _ => none) [[1]] 4 =
        .error (.indexError "list index out of range")) ∧
    ∃ c, init [⟨1, .fullAttention, 0⟩, ⟨1, .fullAttention, 1⟩, ⟨1, .slidingWindow 2, 0⟩] 1 false 1 1 =
        .ok c ∧
      c.findLongestCacheHit (poolWith fun key => if key = ([2], 2) then none else some (.block 3))
        [[1], [2]] 2 = .ok ([[3], [3, 3], [3]], 1) := by
  refine ⟨⟨_, rfl, rfl, ?_⟩, ⟨_, rfl, ?_⟩, ⟨_, rfl, ?_⟩⟩
  · rw [findLongestCacheHit, hitLoop_of_error rfl]
    rfl
  · rw [findLongestCacheHit, hitLoop_of_error rfl]
    rfl
  · rw [findLongestCacheHit, hitLoop_of_lt rfl (by decide) (by decide),
      hitLoop_of_stable rfl (by decide)]
    rfl

end HybridKVCacheCoordinator

end Yuan.Core
