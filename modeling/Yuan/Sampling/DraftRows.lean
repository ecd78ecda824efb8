import Yuan.Sampling.SamplerRows

/-!
# The rows of the rejection sampler

The rows of the drafts of a slot are a block, and the blocks follow one another. What is computed for a row
from its index is what its slot and its place in the block ask for.
-/

namespace Yuan.Sampling

section

variable {F : Type} {V : Nat}

/-- The rows by their slots and their places in the blocks. -/
def positions (slots : List (Slot F V)) : List (Slot F V × Nat) :=
  slots.flatMap fun s => (List.range s.specTokenIds.length).map fun j => (s, j)

/-- Every slot has a block with a row for each draft. -/
abbrev Blocks (slots : List (Slot F V)) (blocks : List (Logits F V)) : Prop :=
  List.Forall₂ (fun s block => block.length = s.specTokenIds.length) slots blocks

/-- To each row what its slot and its place ask for. -/
def byDraft (f : Slot F V → Nat → Row F V → Row F V) (slots : List (Slot F V)) (blocks : List (Logits F V)) :
    List (Logits F V) :=
  slots.zipWith (fun s block => block.mapIdx (f s)) blocks

/-- The tokens before draft `j`. -/
def Slot.historyAt (s : Slot F V) (j : Nat) : List Int := s.outputTokenIds ++ s.specTokenIds.take j

/-- With the first `j` drafts, the slot still has fewer tokens than it needs. -/
def Slot.belowAt (s : Slot F V) (j : Nat) : Bool := s.outputTokenIds.length + j < s.minTokens

variable {slots : List (Slot F V)} {blocks : List (Logits F V)} {f g : Slot F V → Nat → Row F V → Row F V} {α : Type}
  {tensor : List α}

theorem byDraft_cons (s : Slot F V) (block : Logits F V) :
    byDraft f (s :: slots) (block :: blocks) = block.mapIdx (f s) :: byDraft f slots blocks := rfl

theorem Blocks.byDraft (h : Blocks slots blocks) : Blocks slots (byDraft f slots blocks) := by
  induction h with
  | nil => exact List.Forall₂.nil
  | cons hlen _ ih => exact List.Forall₂.cons (by rw [List.length_mapIdx, hlen]) ih

theorem byDraft_byDraft (slots : List (Slot F V)) (blocks : List (Logits F V)) :
    byDraft f slots (byDraft g slots blocks) = byDraft (fun s j row => f s j (g s j row)) slots blocks := by
  unfold byDraft
  rw [zipWith_zipWith_self]
  refine zipWith_congr_mem (fun s _ => funext fun block => ?_) blocks
  rw [List.mapIdx_mapIdx]
  rfl

theorem byDraft_congr (h : ∀ s ∈ slots, ∀ j < s.specTokenIds.length, f s j = g s j) (hblocks : Blocks slots blocks) :
    byDraft f slots blocks = byDraft g slots blocks := by
  induction hblocks with
  | nil => rfl
  | @cons s block slots blocks hlen _ ih =>
    have hblock : block.mapIdx (f s) = block.mapIdx (g s) := by
      refine List.mapIdx_eq_mapIdx_iff.mpr fun j hj => ?_
      rw [h s List.mem_cons_self j (by omega)]
    exact congrArg₂ List.cons hblock (ih fun s' hs' => h s' (List.mem_cons_of_mem _ hs'))

theorem byDraft_id (h : ∀ s ∈ slots, ∀ j row, f s j row = row) (hblocks : Blocks slots blocks) :
    byDraft f slots blocks = blocks := by
  induction hblocks with
  | nil => rfl
  | @cons s block slots blocks _ _ ih =>
    have hblock : block.mapIdx (f s) = block :=
      List.ext_getElem (by simp) fun j _ _ => by rw [List.getElem_mapIdx, h s List.mem_cons_self]
    exact congrArg₂ List.cons hblock (ih fun s' hs' => h s' (List.mem_cons_of_mem _ hs'))

theorem positions_cons (s : Slot F V) (slots : List (Slot F V)) :
    positions (s :: slots) = (List.range s.specTokenIds.length).map (fun j => (s, j)) ++ positions slots := rfl

theorem length_positions (h : Blocks slots blocks) : (positions slots).length = blocks.flatten.length := by
  induction h with
  | nil => rfl
  | cons hlen _ ih =>
    rw [positions_cons, List.length_append, List.length_map, List.length_range, ih, List.flatten_cons,
      List.length_append, hlen]

/-- An operation on all rows goes over the blocks. -/
theorem zipWith_positions (h : Blocks slots blocks) :
    (positions slots).zipWith (fun p row => f p.1 p.2 row) blocks.flatten = (byDraft f slots blocks).flatten := by
  induction h with
  | nil => rfl
  | @cons s block slots blocks hlen _ ih =>
    have hblock : ((List.range s.specTokenIds.length).map fun j => (s, j)).zipWith (fun p row => f p.1 p.2 row) block
        = block.mapIdx (f s) := by
      refine List.ext_getElem (by simp [hlen]) fun j _ _ => ?_
      simp
    rw [positions_cons, List.flatten_cons, List.zipWith_append (by simp [hlen]), ih, hblock]
    rfl

/-! ## The slot of each row -/

theorem gather_append {indices indices' : List Nat} {as as' : List α} (h : gather tensor indices = .ok as)
    (h' : gather tensor indices' = .ok as') : gather tensor (indices ++ indices') = .ok (as ++ as') := by
  unfold gather at h h' ⊢
  rw [List.mapM_append, h, ok_bind, h']
  rfl

theorem gather_replicate {i : Nat} {a : α} (h : tensor[i]? = some a) (n : Nat) :
    gather tensor (List.replicate n i) = .ok (List.replicate n a) := by
  induction n with
  | zero => rfl
  | succ n ih =>
    unfold gather at ih ⊢
    rw [List.replicate_succ, List.mapM_cons, h]
    rw [ok_bind, ih]
    rfl

/-- The indices of the slots, each as often as it has drafts. -/
def repeatIndices (slots : List (Slot F V)) (i : Nat) : List Nat :=
  ((slots.map fun s => s.specTokenIds.length).zipIdx i).flatMap fun r => List.replicate r.1 r.2

theorem gather_repeatIndices (column : Slot F V → α) {i : Nat} (htensor : tensor.drop i = slots.map column) :
    gather tensor (repeatIndices slots i) = .ok ((positions slots).map fun p => column p.1) := by
  induction slots generalizing i with
  | nil => rfl
  | cons s slots ih =>
    have hget : tensor[i]? = some (column s) := by
      rw [← Nat.add_zero i, ← List.getElem?_drop, htensor]
      rfl
    have hdrop : tensor.drop (i + 1) = slots.map column := by
      rw [← List.drop_drop, htensor]
      rfl
    have hblock : ((List.range s.specTokenIds.length).map fun j => (s, j)).map (fun p => column p.1)
        = List.replicate s.specTokenIds.length (column s) := by
      rw [List.map_map, ← List.length_range (n := s.specTokenIds.length), ← List.map_const, List.length_range]
      rfl
    have hrow := gather_replicate hget s.specTokenIds.length
    rw [← hblock] at hrow
    rw [positions_cons, List.map_append]
    exact gather_append hrow (ih hdrop)

theorem repeatInterleave_eq (slots : List (Slot F V)) :
    repeatInterleave slots.length (slots.map fun s => s.specTokenIds.length) = .ok (repeatIndices slots 0) := by
  unfold repeatInterleave
  split
  · rename_i n hone
    obtain ⟨s, rfl, rfl⟩ := List.map_eq_singleton_iff.mp hone
    simp [repeatIndices]
  · rw [if_pos (List.length_map _)]
    rfl

theorem extend_eq (out spec : List Int) :
    RejectionSampler.extend out spec = (List.range spec.length).map fun j => out ++ spec.take j := by
  induction spec generalizing out with
  | nil => rfl
  | cons token spec ih =>
    cases spec with
    | nil => simp [RejectionSampler.extend]
    | cons token' spec =>
      have hrange : List.range (token :: token' :: spec).length
          = 0 :: (List.range (token' :: spec).length).map Nat.succ := List.range_succ_eq_map
      rw [RejectionSampler.extend, ih, hrange, List.map_cons, List.map_map, List.take_zero, List.append_nil]
      · refine congrArg (List.cons out) (List.map_congr_left fun j _ => ?_)
        rw [Function.comp_apply, Nat.succ_eq_add_one, List.take_succ_cons, List.append_assoc]
        rfl
      · simp

theorem combine_drafts (slots : List (Slot F V)) :
    RejectionSampler.combineOutputsWithSpecTokens (slots.map Slot.outputTokenIds) (slots.map Slot.specTokenIds)
      = (positions slots).map fun p => p.1.historyAt p.2 := by
  unfold RejectionSampler.combineOutputsWithSpecTokens
  rw [List.zipWith_map, List.zipWith_self]
  induction slots with
  | nil => rfl
  | cons s slots ih =>
    rw [List.map_cons, List.flatten_cons, ih, positions_cons, List.map_append, extend_eq, List.map_map]
    rfl

/-! ## Operations on blocks -/

theorem modifyRows_block {f : Nat → Row F V → Except PyError (Row F V)} {g : Nat → Row F V → Row F V}
    {front block rest : Logits F V} {start : Nat} (hfront : front.length = start)
    (hf : ∀ j < block.length, ∀ row, f (start + j) row = .ok (g j row)) :
    modifyRows f (List.range' start block.length) (front ++ (block ++ rest))
      = .ok (front ++ (block.mapIdx g ++ rest)) := by
  induction block generalizing front start g with
  | nil => rfl
  | cons row block ih =>
    have hfront' : (front ++ [g 0 row]).length = start + 1 := by simp [hfront]
    have hf' : ∀ j < block.length, ∀ row', f (start + 1 + j) row' = .ok (g (j + 1) row') := by
      intro j hj row'
      rw [Nat.add_right_comm]
      exact hf (j + 1) (by simpa using hj) row'
    have hrest := ih hfront' hf'
    rw [List.append_assoc, List.singleton_append, List.append_assoc] at hrest
    have hrow : f start row = .ok (g 0 row) := hf 0 (by simp) row
    rw [List.length_cons, List.range'_succ, modifyRows, List.cons_append, modifyRow_append hfront hrow, ok_bind,
      List.mapIdx_cons]
    exact hrest

end

section

variable {F : Type} {V : Nat} [FloatOps F] {slots : List (Slot F V)} {blocks : List (Logits F V)}

theorem applyBadWordsWithDrafts_eq (hblocks : Blocks slots blocks) {past : List (List Int)} {front : Logits F V}
    {start remaining : Nat} (hfront : front.length = start)
    (hpast : past.drop start = (positions slots).map fun p => p.1.historyAt p.2)
    (hremaining : remaining = (slots.map Slot.badWordsTokenIds).countP (· ≠ [])) (hslots : ∀ s ∈ slots, s.Valid) :
    applyBadWordsWithDrafts past start remaining (slots.map Slot.badWordsTokenIds)
        (slots.map fun s => s.specTokenIds.length) (front ++ blocks.flatten)
      = .ok (front ++
          (byDraft (fun s j => masked (banned s.badWordsTokenIds (s.historyAt j))) slots blocks).flatten) := by
  induction hblocks generalizing front start remaining with
  | nil => rfl
  | @cons s block slots blocks hlen hblocks ih =>
    have hget : ∀ j < s.specTokenIds.length, past[start + j]? = some (s.historyAt j) := by
      intro j hj
      rw [← List.getElem?_drop, hpast, positions_cons, List.map_append, List.getElem?_append_left (by simpa using hj)]
      simp [hj]
    have hdrop : past.drop (start + s.specTokenIds.length) = (positions slots).map fun p => p.1.historyAt p.2 := by
      rw [← List.drop_drop, hpast, positions_cons, List.map_append, List.drop_left' (by simp)]
    have hvalid : ∀ s' ∈ slots, s'.Valid := fun s' h => hslots s' (List.mem_cons_of_mem _ h)
    rw [List.map_cons, List.map_cons, applyBadWordsWithDrafts, List.headD_cons, List.tail_cons, List.flatten_cons,
      byDraft_cons, List.flatten_cons]
    by_cases hnone : s.badWordsTokenIds = []
    · have hcount : remaining = (slots.map Slot.badWordsTokenIds).countP (· ≠ []) := by
        rw [hremaining, List.map_cons, List.countP_cons_of_neg (by simp [hnone])]
      have hfront' : (front ++ block).length = start + s.specTokenIds.length := by
        rw [List.length_append, hfront, hlen]
      have hrest := ih hfront' hdrop hcount hvalid
      have hblock : block.mapIdx (fun j => masked (banned s.badWordsTokenIds (s.historyAt j))) = block := by
        rw [hnone]
        exact List.ext_getElem (by simp) fun j _ _ => by rw [List.getElem_mapIdx]; rfl
      rw [if_pos hnone, hblock, ← List.append_assoc, ← List.append_assoc]
      exact hrest
    · have hcount : remaining - 1 = (slots.map Slot.badWordsTokenIds).countP (· ≠ []) := by
        rw [hremaining, List.map_cons, List.countP_cons_of_pos (by simp [hnone]), Nat.add_sub_cancel]
      have hrows : modifyRows (badWordsRow past s.badWordsTokenIds) (List.range' start block.length)
            (front ++ (block ++ blocks.flatten))
          = .ok (front ++ (block.mapIdx (fun j => masked (banned s.badWordsTokenIds (s.historyAt j)))
            ++ blocks.flatten)) :=
        modifyRows_block hfront fun j hj row =>
          badWordsRow_eq (hget j (by omega)) (hslots s List.mem_cons_self).badWords row
      rw [hlen] at hrows
      rw [if_neg hnone, hrows, ok_bind]
      by_cases hlast : remaining - 1 = 0
      · have hnothing : ∀ s' ∈ slots, s'.badWordsTokenIds = [] := by
          intro s' hs'
          rw [hcount, List.countP_eq_zero] at hlast
          simpa using hlast _ (List.mem_map_of_mem hs')
        rw [if_pos hlast, byDraft_id (fun s' hs' j row => by rw [hnothing s' hs']; rfl) hblocks]
        rfl
      · have hfront' :
            (front ++ block.mapIdx fun j => masked (banned s.badWordsTokenIds (s.historyAt j))).length
              = start + s.specTokenIds.length := by
          rw [List.length_append, List.length_mapIdx, hfront, hlen]
        have hrest := ih hfront' hdrop hcount hvalid
        rw [if_neg hlast, ← List.append_assoc, ← List.append_assoc]
        exact hrest

theorem offset_eq {counts : List Nat} {i : Nat} (hi : i < counts.length) :
    (0 :: cumsum counts)[i]? = some (counts.take i).sum := by
  cases i with
  | zero => rfl
  | succ i => exact load_cumsum (by omega)

/-- The leading rows of a block are masked, those at which the slot still has too few tokens. -/
theorem mask_leading_rows {s : Slot F V} {block : Logits F V} (hlen : block.length = s.specTokenIds.length)
    (mask : Fin V → Bool) :
    let nMask := min (s.minTokens - s.outputTokenIds.length) s.specTokenIds.length
    (block.take nMask).mapIdx (fun _ => masked mask) ++ block.drop nMask
      = block.mapIdx fun j => masked fun t => s.belowAt j && mask t := by
  intro nMask
  have hle : nMask ≤ block.length := by
    rw [hlen]
    exact Nat.min_le_right _ _
  conv_rhs => rw [← List.take_append_drop nMask block]
  rw [List.mapIdx_append, List.length_take, Nat.min_eq_left hle]
  congr 1
  · refine List.mapIdx_eq_mapIdx_iff.mpr fun j hj => ?_
    have hbelow : s.belowAt j = true := by
      rw [List.length_take] at hj
      rw [Slot.belowAt, decide_eq_true_eq]
      omega
    simp only [hbelow, Bool.true_and]
  · refine (List.ext_getElem (by simp) fun j hj _ => ?_).symm
    have hnot : s.belowAt (j + nMask) = false := by
      rw [List.length_mapIdx, List.length_drop] at hj
      rw [Slot.belowAt, decide_eq_false_iff_not]
      omega
    rw [List.getElem_mapIdx]
    simp only [hnot, Bool.false_and, masked_false]

theorem minTokensApplyWithSpecDecode_eq (hblocks : Blocks slots blocks) {counts : List Nat} {front : Logits F V}
    {i : Nat} (hfront : front.length = (counts.take i).sum)
    (hcounts : counts.drop i = slots.map fun s => s.specTokenIds.length)
    (hstop : ∀ s ∈ slots, StopTokensInRange V (minTokensEntry s)) :
    minTokensApplyWithSpecDecode counts i (slots.map minTokensEntry) (front ++ blocks.flatten)
      = .ok (front ++
          (byDraft (fun s j => masked fun t => s.belowAt j && hits s.allStopTokenIds t) slots blocks).flatten) := by
  induction hblocks generalizing front i with
  | nil => rfl
  | @cons s block slots blocks hlen hblocks ih =>
    have hlt : i < counts.length := by
      have := congrArg List.length hcounts
      simp only [List.length_drop, List.length_map, List.length_cons] at this
      omega
    have hget : counts[i]? = some s.specTokenIds.length := by
      rw [← Nat.add_zero i, ← List.getElem?_drop, hcounts]
      rfl
    have hdrop : counts.drop (i + 1) = slots.map fun s => s.specTokenIds.length := by
      rw [← List.drop_drop, hcounts]
      rfl
    have hsum : (counts.take (i + 1)).sum = front.length + block.length := by
      rw [List.take_add_one, hget, Option.toList_some, List.sum_append, List.sum_singleton, hfront, hlen]
    have hrest : ∀ block' : Logits F V, block'.length = block.length →
        minTokensApplyWithSpecDecode counts (i + 1) (slots.map minTokensEntry) (front ++ (block' ++ blocks.flatten))
          = .ok (front ++ (block' ++
            (byDraft (fun s j => masked fun t => s.belowAt j && hits s.allStopTokenIds t) slots blocks).flatten)) := by
      intro block' hlen'
      rw [← List.append_assoc, ← List.append_assoc]
      exact ih (by rw [List.length_append, hlen', hsum]) hdrop fun s' h => hstop s' (List.mem_cons_of_mem _ h)
    rw [List.map_cons, List.flatten_cons, byDraft_cons]
    rw [← mask_leading_rows hlen (hits s.allStopTokenIds), minTokensEntry_eq]
    by_cases hbelow : s.below = true
    · have hentry : minTokensEntry s = some ⟨s.minTokens, s.outputTokenIds.length, s.allStopTokenIds⟩ := by
        rw [minTokensEntry_eq, if_pos hbelow]
      rw [if_pos hbelow, minTokensApplyWithSpecDecode]
      generalize hk : min (s.minTokens - s.outputTokenIds.length) s.specTokenIds.length = k
      have hle : k ≤ block.length := by
        rw [hlen, ← hk]
        exact Nat.min_le_right _ _
      by_cases hnone : s.allStopTokenIds = []
      · have hblock : (block.take k).mapIdx (fun _ => masked (hits s.allStopTokenIds)) = block.take k := by
          rw [hnone]
          exact List.ext_getElem (by simp) fun j _ _ => by rw [List.getElem_mapIdx]; rfl
        rw [if_pos hnone, hblock, List.take_append_drop]
        exact hrest block rfl
      · have hrows : modifyRows (fun _ row => maskTokens row s.allStopTokenIds)
              (List.range' front.length (block.take k).length)
              (front ++ (block.take k ++ (block.drop k ++ blocks.flatten)))
            = .ok (front ++ ((block.take k).mapIdx (fun _ => masked (hits s.allStopTokenIds))
              ++ (block.drop k ++ blocks.flatten))) :=
          modifyRows_block rfl fun _ _ row => maskTokens_eq (hstop s List.mem_cons_self _ hentry) row
        rw [List.length_take, Nat.min_eq_left hle, ← List.append_assoc (block.take k), List.take_append_drop,
          ← List.append_assoc (List.mapIdx _ _)] at hrows
        rw [if_neg hnone, hget, offset_eq hlt]
        dsimp only
        rw [hk, ← hfront, hrows]
        exact hrest _ (by rw [List.length_append, List.length_mapIdx, List.length_take, List.length_drop]; omega)
    · have hzero : s.minTokens - s.outputTokenIds.length = 0 := by
        rw [Slot.below, decide_eq_true_eq] at hbelow
        omega
      rw [if_neg hbelow, hzero]
      exact hrest block rfl

/-! ## The whole call -/

theorem Slot.Valid.historyAt {s : Slot F V} (hs : s.Valid) (j : Nat) :
    ∀ token ∈ s.historyAt j, token = -1 ∨ IsToken V token := by
  intro token htoken
  rcases List.mem_append.mp htoken with h | h
  · exact hs.output token h
  · exact hs.spec token (List.mem_of_mem_take h)

omit [FloatOps F] in
theorem length_historyAt_le (s : Slot F V) (j : Nat) :
    (s.historyAt j).length ≤ s.outputTokenIds.length + s.specTokenIds.length := by
  rw [Slot.historyAt, List.length_append, List.length_take]
  omega

omit [FloatOps F] in
theorem mem_positions {p : Slot F V × Nat} (hp : p ∈ positions slots) : p.1 ∈ slots := by
  obtain ⟨s, hs, h⟩ := List.mem_flatMap.mp hp
  obtain ⟨j, -, rfl⟩ := List.mem_map.mp h
  exact hs

namespace InputBatch

variable {b : InputBatch F V}

omit [FloatOps F] in
theorem rejection_outputTokenIds (hneeds : b.needsOutputTokenIds = true) :
    RejectionSampler.outputTokenIds b.makeSamplingMetadata = (positions b.slots).map fun p => p.1.historyAt p.2 := by
  obtain ⟨hany, hout⟩ := metadata_outputTokenIds hneeds
  unfold RejectionSampler.outputTokenIds
  rw [if_pos hany, hout]
  exact combine_drafts b.slots

theorem rejection_applyPenalties (hb : b.Valid) (hblocks : Blocks b.slots blocks) :
    RejectionSampler.applyPenalties blocks.flatten b.makeSamplingMetadata (repeatIndices b.slots 0)
        (RejectionSampler.outputTokenIds b.makeSamplingMetadata)
      = .ok (byDraft (fun s j => b.penalised s (s.historyAt j)) b.slots blocks).flatten := by
  have hnoPenalties : b.makeSamplingMetadata.noPenalties = b.noPenalties := rfl
  unfold RejectionSampler.applyPenalties
  rw [hnoPenalties]
  by_cases hnone : b.noPenalties = true
  · have hsame : byDraft (fun s j => b.penalised s (s.historyAt j)) b.slots blocks = blocks :=
      byDraft_id (fun s _ j row => if_pos hnone) hblocks
    rw [if_pos hnone, hsame]
  · have hneeds : b.needsOutputTokenIds = true := by
      rw [needsOutputTokenIds, Bool.eq_false_of_not_eq_true hnone]
      rfl
    have hprompt : b.makeSamplingMetadata.promptTokenIds = some (b.slots.map Slot.promptTokenIds) := if_neg hnone
    have hpenalties : b.makeSamplingMetadata.penalties = b.slots.map Slot.penalties := rfl
    rw [if_neg hnone, hprompt]
    dsimp only
    rw [gather_repeatIndices Slot.promptTokenIds rfl, ok_bind, hpenalties, gather_repeatIndices Slot.penalties rfl,
      ok_bind, rejection_outputTokenIds hneeds, ← zipWith_positions hblocks]
    simp only [penalised, hnone]
    exact applyAllPenalties_eq Prod.fst (fun p => p.1.historyAt p.2) (length_positions hblocks)
      (fun p hp => hb.slots p.1 (mem_positions hp)) fun p hp => (hb.slots p.1 (mem_positions hp)).historyAt p.2

theorem rejection_applyAllowedTokenIds (hblocks : Blocks b.slots blocks) :
    RejectionSampler.applyAllowedTokenIds blocks.flatten b.makeSamplingMetadata.allowedTokenIdsMask
        (repeatIndices b.slots 0)
      = .ok (byDraft (fun s _ => masked fun t => b.hasAllowedTokenIds && s.allowedMask t) b.slots blocks).flatten := by
  unfold makeSamplingMetadata
  cases b.hasAllowedTokenIds with
  | true =>
    have hmask := maskedFill_eq (F := F) (fun p : Slot F V × Nat => p.1.allowedMask) (length_positions hblocks)
    rw [← zipWith_positions hblocks]
    unfold RejectionSampler.applyAllowedTokenIds
    rw [if_pos rfl]
    dsimp only
    rw [gather_repeatIndices Slot.allowedMask rfl]
    exact hmask
  | false => exact congrArg Except.ok (congrArg _ (byDraft_id (fun _ _ _ _ => rfl) hblocks).symm)

/-- The output tokens are in the metadata where their number is taken for that of the requests. -/
def HistoryKept (b : InputBatch F V) : Prop :=
  b.hasAllowedTokenIds = false ∨ b.needsOutputTokenIds = true ∨
    b.slots.length ≤ 1 ∧ ∀ s ∈ b.slots, s.specTokenIds = []

theorem rejection_applyPenaltiesAndMask (hb : b.Valid) (hkept : b.HistoryKept) (hblocks : Blocks b.slots blocks) :
    RejectionSampler.applyPenaltiesAndMask blocks.flatten b.makeSamplingMetadata
        (b.slots.map fun s => s.specTokenIds.length) (RejectionSampler.outputTokenIds b.makeSamplingMetadata)
      = .ok (byDraft (fun s j row => masked (fun t => b.hasAllowedTokenIds && s.allowedMask t)
          (b.penalised s (s.historyAt j) row)) b.slots blocks).flatten := by
  have hisSome : b.makeSamplingMetadata.allowedTokenIdsMask.isSome = b.hasAllowedTokenIds := by
    unfold makeSamplingMetadata
    cases b.hasAllowedTokenIds <;> rfl
  have hnoPenalties : b.makeSamplingMetadata.noPenalties = b.noPenalties := rfl
  unfold RejectionSampler.applyPenaltiesAndMask
  rw [hisSome, hnoPenalties]
  by_cases hany : (b.hasAllowedTokenIds || !b.noPenalties) = true
  · have hrepeat : repeatInterleave b.makeSamplingMetadata.outputTokenIds.length
        (b.slots.map fun s => s.specTokenIds.length) = .ok (repeatIndices b.slots 0) := by
      by_cases hneeds : b.needsOutputTokenIds = true
      · have hout : b.makeSamplingMetadata.outputTokenIds = b.slots.map Slot.outputTokenIds := if_pos hneeds
        rw [hout, List.length_map]
        exact repeatInterleave_eq b.slots
      · -- nobody has asked for the output tokens, and a single slot without drafts needs none
        have hout : b.makeSamplingMetadata.outputTokenIds = [] := if_neg hneeds
        have hnone : b.noPenalties = true := by
          rw [needsOutputTokenIds, Bool.or_eq_true, not_or] at hneeds
          simpa using hneeds.1
        have hallowed : b.hasAllowedTokenIds = true := by simpa [hnone] using hany
        obtain hno | hneeds' | ⟨hle, hspec⟩ := hkept
        · rw [hallowed] at hno
          cases hno
        · exact absurd hneeds' hneeds
        · have hne := hb.asked (Or.inl hallowed)
          obtain ⟨s, hs⟩ : ∃ s, b.slots = [s] :=
            List.length_eq_one_iff.mp (by have := List.length_pos_of_ne_nil hne; omega)
          have hempty : s.specTokenIds = [] := hspec s (by simp [hs])
          rw [hout, hs]
          simp [repeatInterleave, repeatIndices, hempty]
    rw [if_pos hany, hrepeat, ok_bind, rejection_applyPenalties hb hblocks, ok_bind,
      rejection_applyAllowedTokenIds hblocks.byDraft, byDraft_byDraft]
  · rw [Bool.not_eq_true, Bool.or_eq_false_iff, Bool.not_eq_false'] at hany
    have hsame : byDraft (fun s j row => masked (fun t => b.hasAllowedTokenIds && s.allowedMask t)
        (b.penalised s (s.historyAt j) row)) b.slots blocks = blocks := by
      refine byDraft_id (fun s _ j row => ?_) hblocks
      rw [hany.1, penalised, if_pos hany.2]
      rfl
    rw [hsame, hany.1, hany.2]
    rfl

theorem rejection_applyBadWordsExclusion (hb : b.Valid) (hblocks : Blocks b.slots blocks) :
    RejectionSampler.applyBadWordsExclusion blocks.flatten b.makeSamplingMetadata
        (b.slots.map fun s => s.specTokenIds.length) (RejectionSampler.outputTokenIds b.makeSamplingMetadata)
      = .ok (byDraft (fun s j => masked (banned s.badWordsTokenIds (s.historyAt j))) b.slots blocks).flatten := by
  unfold RejectionSampler.applyBadWordsExclusion
  rw [metadata_hasBadWords]
  by_cases hwords : b.hasBadWords = true
  · have hneeds : b.needsOutputTokenIds = true := by rw [needsOutputTokenIds, hwords, Bool.or_true]
    rw [if_pos hwords]
    have hfront : ([] : Logits F V).length = 0 := rfl
    exact applyBadWordsWithDrafts_eq hblocks hfront (rejection_outputTokenIds hneeds) rfl hb.slots
  · have hsame : byDraft (fun s j => masked (banned s.badWordsTokenIds (s.historyAt j))) b.slots blocks = blocks := by
      refine byDraft_id (fun s hs j row => ?_) hblocks
      rw [banned_of_hasBadWords_eq_false (Bool.eq_false_of_not_eq_true hwords) hs]
      rfl
    rw [if_neg hwords, hsame]

/-- When the output tokens are kept and the stop tokens that are masked have a place, every row becomes what its
slot asks for at its place. -/
theorem rejection_applyLogitsProcessors (hb : b.Valid) (hkept : b.HistoryKept) (hblocks : Blocks b.slots blocks)
    (hstop : ∀ s ∈ b.slots, StopTokensInRange V (minTokensEntry s)) :
    RejectionSampler.applyLogitsProcessors blocks.flatten b.makeSamplingMetadata
        (b.slots.map fun s => s.specTokenIds.length)
      = .ok (byDraft (fun s j => b.constrain s (s.historyAt j) (s.belowAt j)) b.slots blocks).flatten := by
  have hmin : ∀ blocks : List (Logits F V), Blocks b.slots blocks →
      minTokensApplyWithSpecDecode (b.slots.map fun s => s.specTokenIds.length) 0 b.makeSamplingMetadata.minToks
          blocks.flatten
        = .ok (byDraft (fun s j => masked fun t => s.belowAt j && hits s.allStopTokenIds t) b.slots blocks).flatten :=
    fun blocks hblocks => by
      have hfront : ([] : Logits F V).length = ((b.slots.map fun s => s.specTokenIds.length).take 0).sum := rfl
      exact minTokensApplyWithSpecDecode_eq hblocks hfront rfl hstop
  unfold RejectionSampler.applyLogitsProcessors
  dsimp only
  rw [rejection_applyPenaltiesAndMask hb hkept hblocks, ok_bind, rejection_applyBadWordsExclusion hb hblocks.byDraft,
    ok_bind, hmin _ hblocks.byDraft.byDraft, byDraft_byDraft, byDraft_byDraft]
  refine congrArg (fun blocks => Except.ok (List.flatten blocks)) (byDraft_congr (fun s hs j _ => ?_) hblocks)
  funext row
  rw [masked_masked, masked_masked]
  refine congrArg (fun mask => masked mask _) (funext fun t => ?_)
  rw [mask, Bool.or_comm, Bool.or_comm (s.belowAt j && _), Bool.or_assoc]

end InputBatch

end

end Yuan.Sampling
