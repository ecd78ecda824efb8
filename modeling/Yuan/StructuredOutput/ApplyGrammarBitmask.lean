import Yuan.StructuredOutput.BitmaskRows

/-!
# `apply_grammar_bitmask`: the masks in the worker

The scheduler sends the rows of the structured requests in its own order. The worker has the requests in the order of
its batch, with a row of logits for each draft and one more. It finds the first row of every structured request of
its batch, copies the masks to their places, and masks the logits.
-/

namespace Yuan.StructuredOutput

open Yuan.Core StructuredOutputManager

/-- `GrammarOutput`. -/
structure GrammarOutput where
  structuredOutputRequestIds : List Nat
  grammarBitmask : List Bitmask

section Scheduler

variable {σ β : Type} (manager : StructuredOutputManager σ) (requests : List Nat) (request : Nat → Request β)
  (numScheduledTokens : Dict Nat Int)

/-- A scheduled request needs a mask when it is structured and samples in this step. -/
def needsMask (reqId : Nat) : Bool := (request reqId).useStructuredOutput && !(request reqId).isPrefillChunk

/-- `scheduler_output.has_structured_output_requests`. -/
def hasStructuredOutputRequests : Bool := numScheduledTokens.keys.any (needsMask request)

/-- The scheduled requests that need a mask. -/
def structuredOutputRequestIds : List Nat :=
  numScheduledTokens.keys.filter fun reqId => decide (reqId ∈ requests) && needsMask request reqId

/-- `get_grammar_bitmask`. -/
def getGrammarBitmask (specTokens : Dict Nat (List Int)) (state : MaskState σ) :
    Except PyError (Option GrammarOutput × MaskState σ) :=
  let ids := structuredOutputRequestIds requests request numScheduledTokens
  if !hasStructuredOutputRequests request numScheduledTokens then return (none, state)
  else if ids.isEmpty then return (none, state)
  else do
    let result ← manager.grammarBitmask request ids specTokens state
    return (result.1.map fun bitmask => ⟨ids, bitmask⟩, result.2)

end Scheduler

section Worker

variable {L : Type}

/-- A row of logits, with the tokens that the mask does not allow at minus infinity. -/
def maskLogits (negInf : L) (mask : Bitmask) (row : Nat → L) : Nat → L :=
  fun token => if mask token then row token else negInf

theorem maskLogits_fullMask (negInf : L) (row : Nat → L) : maskLogits negInf fullMask row = row := rfl

/-- `xgr.apply_token_bitmask_inplace`: each of the rows `indices`, or every row, is masked by the row of the bitmask
with the same index. -/
structure TokenBitmaskKernel (L : Type) where
  negInf : L
  apply : List (Nat → L) → List Bitmask → Option (List Nat) → List (Nat → L)
  apply_row : ∀ logits bitmask indices x row mask, logits[x]? = some row → bitmask[x]? = some mask →
    (apply logits bitmask indices)[x]? =
      some (if indices.all (fun indices => decide (x ∈ indices)) then maskLogits negInf mask row else row)

variable (kernel : TokenBitmaskKernel L) (specTokens : Dict Nat (List Int))

/-- `struct_out_req_batch_indices`: the first rows of the structured requests of the batch. -/
def structOutReqBatchIndices (structOutReqIds : List Nat) : Nat → Nat → List Nat → Dict Nat Nat → Dict Nat Nat
  | _, _, [], indices => indices
  | batchIndex, cumulativeOffset, reqId :: reqIds, indices =>
    let logitIndex := batchIndex + cumulativeOffset
    structOutReqBatchIndices structOutReqIds (batchIndex + 1) (cumulativeOffset + (reqTokens specTokens reqId).length)
      reqIds (if reqId ∈ structOutReqIds then indices.set reqId logitIndex else indices)

/-- The locals of the loop that sorts the bitmask. -/
structure SortState where
  sortedBitmask : List Bitmask
  outIndices : List Nat := []
  cumulativeIndex : Nat := 0

/-- One row of a request. -/
def copyRow (grammarBitmask : List Bitmask) (logitIdx : Nat) (s : SortState) (i : Nat) : Except PyError SortState :=
  match grammarBitmask[s.cumulativeIndex + i]? with
  | none => .error (.indexError "index out of range")
  | some row => do
    let sortedBitmask ← writeRow s.sortedBitmask (logitIdx + i) row
    return { s with sortedBitmask, outIndices := s.outIndices ++ [logitIdx + i] }

/-- The rows of a request, when it is in the batch. -/
def copyRequest (grammarBitmask : List Bitmask) (indices : Dict Nat Nat) (s : SortState) (reqId : Nat) :
    Except PyError SortState := do
  let numSpecTokens := (reqTokens specTokens reqId).length
  let s ← (indices.get? reqId).elim (pure s) fun logitIdx =>
    (List.range (1 + numSpecTokens)).foldlM (copyRow grammarBitmask logitIdx) s
  return { s with cumulativeIndex := s.cumulativeIndex + (1 + numSpecTokens) }

/-- `apply_grammar_bitmask`. -/
def applyGrammarBitmask (grammarOutput : GrammarOutput) (reqIds : List Nat) (logits : List (Nat → L)) :
    Except PyError (List (Nat → L)) := do
  let indices := structOutReqBatchIndices specTokens grammarOutput.structuredOutputRequestIds 0 0 reqIds Dict.empty
  let s ← grammarOutput.structuredOutputRequestIds.foldlM
    (copyRequest specTokens grammarOutput.grammarBitmask indices)
    { sortedBitmask := List.replicate logits.length fullMask }
  let skipOutIndices := s.outIndices.length = logits.length
  return kernel.apply logits s.sortedBitmask (if skipOutIndices then none else some s.outIndices)

/-- The masks of one step, from the scheduler to the logits of the worker. -/
def maskStep {σ β : Type} (manager : StructuredOutputManager σ) (requests : List Nat) (request : Nat → Request β)
    (numScheduledTokens : Dict Nat Int) (reqIds : List Nat) (state : MaskState σ) (logits : List (Nat → L)) :
    Except PyError (List (Nat → L) × MaskState σ) := do
  let result ← getGrammarBitmask manager requests request numScheduledTokens specTokens state
  let logits ← result.1.elim (pure logits) fun grammarOutput =>
    applyGrammarBitmask kernel specTokens grammarOutput reqIds logits
  return (logits, result.2)

/-- The first row of the request at place `batchIndex` of the batch. -/
def logitIndex (reqIds : List Nat) (batchIndex : Nat) : Nat :=
  ((reqIds.map fun reqId => (reqTokens specTokens reqId).length + 1).take batchIndex).sum

/-! ## Where the rows of a request are -/

variable {specTokens} {structOutReqIds reqIds : List Nat} {reqId : Nat}

theorem structOutReqBatchIndices_others {batchIndex cumulativeOffset : Nat} {indices : Dict Nat Nat}
    (h : reqId ∉ reqIds ∨ reqId ∉ structOutReqIds) :
    (structOutReqBatchIndices specTokens structOutReqIds batchIndex cumulativeOffset reqIds indices).get? reqId =
      indices.get? reqId := by
  induction reqIds generalizing batchIndex cumulativeOffset indices with
  | nil => rfl
  | cons first reqIds ih =>
    rw [structOutReqBatchIndices, ih (h.imp_left fun h hmem => h (List.mem_cons_of_mem _ hmem))]
    split
    · rename_i hfirst
      have hne : first ≠ reqId := by
        rintro rfl
        rcases h with h | h
        · exact h List.mem_cons_self
        · exact h hfirst
      exact Dict.get?_set_of_ne _ _ hne.symm
    · rfl

theorem structOutReqBatchIndices_get? {batchIndex cumulativeOffset b : Nat} {indices : Dict Nat Nat}
    (hnodup : reqIds.Nodup) (hb : reqIds[b]? = some reqId) (hmem : reqId ∈ structOutReqIds) :
    (structOutReqBatchIndices specTokens structOutReqIds batchIndex cumulativeOffset reqIds indices).get? reqId =
      some (batchIndex + cumulativeOffset + logitIndex specTokens reqIds b) := by
  induction reqIds generalizing batchIndex cumulativeOffset b indices with
  | nil => simp at hb
  | cons first reqIds ih =>
    obtain ⟨hnot, hnodup⟩ := List.nodup_cons.mp hnodup
    rw [structOutReqBatchIndices]
    cases b with
    | zero =>
      obtain rfl : first = reqId := by simpa using hb
      rw [structOutReqBatchIndices_others (.inl hnot), if_pos hmem, Dict.get?_set_self]
      rfl
    | succ b =>
      have hindex : logitIndex specTokens (first :: reqIds) (b + 1) =
          (reqTokens specTokens first).length + 1 + logitIndex specTokens reqIds b := by simp [logitIndex]
      rw [ih hnodup (by simpa using hb)]
      congr 1
      omega

/-! ## Sorting the rows -/

theorem rowStart_set {blocks : List (List Bitmask)} {b : Nat} {block : List Bitmask} :
    rowStart (blocks.set b block) b = rowStart blocks b := by
  rw [rowStart, List.map_set, List.take_set_of_le le_rfl, rowStart]

/-- The first rows of a request, copied over its block. -/
theorem foldlM_copyRow {grammarBitmask : List Bitmask} {blocks : List (List Bitmask)} {b cumulativeIndex : Nat}
    {old new : List Bitmask} {outIndices : List Nat} (hblock : blocks[b]? = some old)
    (hlength : old.length = new.length)
    (hread : ∀ (i : Nat) row, new[i]? = some row → grammarBitmask[cumulativeIndex + i]? = some row) {n : Nat}
    (hn : n ≤ new.length) :
    (List.range n).foldlM (copyRow grammarBitmask (rowStart blocks b))
        { sortedBitmask := blocks.flatten, outIndices, cumulativeIndex } =
      .ok {
        sortedBitmask := (blocks.set b (new.take n ++ old.drop n)).flatten
        outIndices := outIndices ++ (List.range n).map (rowStart blocks b + ·)
        cumulativeIndex } := by
  obtain ⟨hb, hget⟩ := List.getElem?_eq_some_iff.mp hblock
  induction n with
  | zero =>
    rw [List.take_zero, List.nil_append, List.drop_zero, ← hget]
    simp [pure, Except.pure]
  | succ n ih =>
    have hrow : new[n]? = some new[n] := List.getElem?_eq_getElem hn
    have hcurrent : (blocks.set b (new.take n ++ old.drop n))[b]? = some (new.take n ++ old.drop n) :=
      List.getElem?_set_self hb
    have hwidth : (new.take n ++ old.drop n).length = new.length := by
      rw [List.length_append, List.length_take, List.length_drop]
      omega
    have hpos : n < (new.take n ++ old.drop n).length := by omega
    have hwrite := set_flatten (a := new[n]) hcurrent hpos
    have hbound : rowStart blocks b + n < (blocks.set b (new.take n ++ old.drop n)).flatten.length := by
      have h := getElem?_flatten hcurrent hpos
      rw [rowStart_set, List.getElem?_eq_getElem hpos] at h
      exact (List.getElem?_eq_some_iff.mp h).1
    have hnext : (new.take n ++ old.drop n).set n new[n] = new.take (n + 1) ++ old.drop (n + 1) := by
      have htake : (new.take n).length = n := by
        rw [List.length_take]
        omega
      have hold : n < old.length := by omega
      rw [List.set_append_right _ _ htake.le, htake, Nat.sub_self, List.drop_eq_getElem_cons hold, List.set_cons_zero,
        List.take_add_one, hrow, Option.toList_some, List.append_assoc, List.singleton_append]
    rw [rowStart_set, List.set_set, hnext] at hwrite
    rw [List.range_succ, List.foldlM_append, ih (by omega), ok_bind, List.foldlM_cons, copyRow, hread n _ hrow]
    simp only [writeRow, if_pos hbound, hwrite, List.map_append, List.append_assoc]
    rfl

/-- The requests of the batch with the masks of those that were copied. -/
def sortedBlocks (specTokens : Dict Nat (List Int)) (rows : Nat → List Bitmask) (reqIds copied : List Nat) :
    List (List Bitmask) :=
  reqIds.map fun reqId =>
    if reqId ∈ copied then rows reqId else List.replicate ((reqTokens specTokens reqId).length + 1) fullMask

variable {rows : Nat → List Bitmask} {copied : List Nat}

theorem rowStart_sortedBlocks (hrows : ∀ reqId, (rows reqId).length = (reqTokens specTokens reqId).length + 1)
    (b : Nat) : rowStart (sortedBlocks specTokens rows reqIds copied) b = logitIndex specTokens reqIds b := by
  rw [rowStart, sortedBlocks, List.map_map]
  congr 3
  funext reqId
  rw [Function.comp]
  split
  · exact hrows reqId
  · exact List.length_replicate

/-- Copying the rows of a request sets its block. -/
theorem sortedBlocks_set (hnodup : reqIds.Nodup) {b : Nat} (hb : reqIds[b]? = some reqId) :
    (sortedBlocks specTokens rows reqIds copied).set b (rows reqId) =
      sortedBlocks specTokens rows reqIds (copied ++ [reqId]) := by
  obtain ⟨hlt, hget⟩ := List.getElem?_eq_some_iff.mp hb
  apply List.ext_getElem?
  intro b'
  rw [List.getElem?_set, sortedBlocks, sortedBlocks, List.getElem?_map, List.getElem?_map]
  by_cases hbb : b = b'
  · subst hbb
    simp [hlt, hget]
  · rw [if_neg hbb]
    cases hb' : reqIds[b']? with
    | none => rfl
    | some other =>
      have hne : other ≠ reqId := by
        rintro rfl
        obtain ⟨hlt', hget'⟩ := List.getElem?_eq_some_iff.mp hb'
        exact hbb ((List.Nodup.getElem_inj_iff hnodup).mp (hget.trans hget'.symm))
      simp [hne]

theorem sortedBlocks_absent (h : reqId ∉ reqIds) :
    sortedBlocks specTokens rows reqIds (copied ++ [reqId]) = sortedBlocks specTokens rows reqIds copied := by
  apply List.map_congr_left
  intro other hother
  have hne : other ≠ reqId := fun heq => h (heq ▸ hother)
  simp [hne]

/-- One request, in the batch or not. -/
theorem copyRequest_eq {ids : List Nat} {s : SortState} {k : Nat}
    (hrows : ∀ reqId, (rows reqId).length = (reqTokens specTokens reqId).length + 1) (hnodup : reqIds.Nodup)
    (hk : ids[k]? = some reqId) (hnew : reqId ∉ copied)
    (hsorted : s.sortedBitmask = (sortedBlocks specTokens rows reqIds copied).flatten)
    (hindex : s.cumulativeIndex = rowStart (ids.map rows) k) :
    ∃ s', copyRequest specTokens (ids.map rows).flatten
        (structOutReqBatchIndices specTokens ids 0 0 reqIds Dict.empty) s reqId = .ok s' ∧
      s'.sortedBitmask = (sortedBlocks specTokens rows reqIds (copied ++ [reqId])).flatten ∧
      s'.cumulativeIndex = rowStart (ids.map rows) (k + 1) ∧ (∀ x ∈ s.outIndices, x ∈ s'.outIndices) ∧
      ∀ (b j : Nat), reqIds[b]? = some reqId → j ≤ (reqTokens specTokens reqId).length →
        logitIndex specTokens reqIds b + j ∈ s'.outIndices := by
  have hblock : (ids.map rows)[k]? = some (rows reqId) := by rw [List.getElem?_map, hk, Option.map_some]
  have hnext : rowStart (ids.map rows) k + (1 + (reqTokens specTokens reqId).length) =
      rowStart (ids.map rows) (k + 1) := by
    rw [rowStart_succ hblock, hrows]
    omega
  have hmem : reqId ∈ ids := List.mem_of_getElem? hk
  by_cases hin : reqId ∈ reqIds
  · obtain ⟨b, hb⟩ := List.mem_iff_getElem?.mp hin
    have hget := @structOutReqBatchIndices_get? specTokens ids reqIds reqId 0 0 b Dict.empty hnodup hb hmem
    have hold : (sortedBlocks specTokens rows reqIds copied)[b]? =
        some (List.replicate ((reqTokens specTokens reqId).length + 1) fullMask) := by
      rw [sortedBlocks, List.getElem?_map, hb, Option.map_some, if_neg hnew]
    have hcopy := @foldlM_copyRow (ids.map rows).flatten (sortedBlocks specTokens rows reqIds copied) b
      (rowStart (ids.map rows) k) _ (rows reqId) s.outIndices hold (by rw [List.length_replicate, hrows])
      (fun i row hi => (getElem?_flatten hblock (List.getElem?_eq_some_iff.mp hi).1).trans hi)
      (1 + (reqTokens specTokens reqId).length) (by rw [hrows, Nat.add_comm])
    have htake : (rows reqId).take (1 + (reqTokens specTokens reqId).length) = rows reqId := by
      rw [List.take_of_length_le (by rw [hrows, Nat.add_comm])]
    have hdrop : (List.replicate ((reqTokens specTokens reqId).length + 1) fullMask).drop
        (1 + (reqTokens specTokens reqId).length) = [] := by
      rw [List.drop_of_length_le (by rw [List.length_replicate, Nat.add_comm])]
    rw [htake, hdrop, List.append_nil, sortedBlocks_set hnodup hb, rowStart_sortedBlocks hrows] at hcopy
    obtain ⟨sorted, outIndices, cumulativeIndex⟩ := s
    subst hsorted hindex
    have hrun : copyRequest specTokens (ids.map rows).flatten
        (structOutReqBatchIndices specTokens ids 0 0 reqIds Dict.empty)
        ⟨(sortedBlocks specTokens rows reqIds copied).flatten, outIndices, rowStart (ids.map rows) k⟩ reqId = .ok {
          sortedBitmask := (sortedBlocks specTokens rows reqIds (copied ++ [reqId])).flatten
          outIndices := outIndices ++ (List.range (1 + (reqTokens specTokens reqId).length)).map
            (logitIndex specTokens reqIds b + ·)
          cumulativeIndex := rowStart (ids.map rows) k + (1 + (reqTokens specTokens reqId).length) } := by
      rw [copyRequest, hget, Option.elim_some, Nat.zero_add, hcopy]
      rfl
    refine ⟨_, hrun, rfl, hnext, fun x hx => List.mem_append_left _ hx, fun b' j hb' hj => ?_⟩
    · have hbb : b' = b := by
        obtain ⟨hlt, hget⟩ := List.getElem?_eq_some_iff.mp hb
        obtain ⟨hlt', hget'⟩ := List.getElem?_eq_some_iff.mp hb'
        exact (List.Nodup.getElem_inj_iff hnodup).mp (hget'.trans hget.symm)
      subst hbb
      exact List.mem_append_right _ (List.mem_map.mpr ⟨j, List.mem_range.mpr (by omega), rfl⟩)
  · have hget : (structOutReqBatchIndices specTokens ids 0 0 reqIds Dict.empty).get? reqId = none :=
      structOutReqBatchIndices_others (.inl hin)
    refine ⟨{ s with cumulativeIndex := s.cumulativeIndex + (1 + (reqTokens specTokens reqId).length) }, ?_, ?_, ?_,
      fun x hx => hx, fun b j hb => absurd (List.mem_of_getElem? hb) hin⟩
    · rw [copyRequest, hget]
      rfl
    · rw [sortedBlocks_absent hin]
      exact hsorted
    · rw [← hnext, ← hindex]

/-- The loop over the structured requests, behind the first `k` of them. -/
theorem foldlM_copyRequest {ids : List Nat}
    (hrows : ∀ reqId, (rows reqId).length = (reqTokens specTokens reqId).length + 1)
    (hnodup : reqIds.Nodup) (hids : ids.Nodup) {rest : List Nat} {s : SortState} (hsplit : ids = copied ++ rest)
    (hsorted : s.sortedBitmask = (sortedBlocks specTokens rows reqIds copied).flatten)
    (hindex : s.cumulativeIndex = rowStart (ids.map rows) copied.length)
    (hout : ∀ (b j : Nat) reqId, reqId ∈ copied → reqIds[b]? = some reqId → j ≤ (reqTokens specTokens reqId).length →
      logitIndex specTokens reqIds b + j ∈ s.outIndices) :
    ∃ s', rest.foldlM (copyRequest specTokens (ids.map rows).flatten
        (structOutReqBatchIndices specTokens ids 0 0 reqIds Dict.empty)) s = .ok s' ∧
      s'.sortedBitmask = (sortedBlocks specTokens rows reqIds ids).flatten ∧
      ∀ (b j : Nat) reqId, reqId ∈ ids → reqIds[b]? = some reqId → j ≤ (reqTokens specTokens reqId).length →
        logitIndex specTokens reqIds b + j ∈ s'.outIndices := by
  induction rest generalizing s copied with
  | nil =>
    rw [List.append_nil] at hsplit
    subst hsplit
    exact ⟨s, rfl, hsorted, hout⟩
  | cons reqId rest ih =>
    have hk : ids[copied.length]? = some reqId := by rw [hsplit, List.getElem?_append_right le_rfl, Nat.sub_self]; rfl
    have hnew : reqId ∉ copied := by
      rw [hsplit] at hids
      intro hmem
      exact (List.disjoint_of_nodup_append hids) hmem List.mem_cons_self
    obtain ⟨s₁, hrun₁, hsorted₁, hindex₁, hkept, hout₁⟩ := copyRequest_eq hrows hnodup hk hnew hsorted hindex
    obtain ⟨s', hrun, hresult⟩ := @ih (copied ++ [reqId]) s₁ (by rw [hsplit, List.append_assoc]; rfl) hsorted₁
      (by rw [hindex₁, List.length_append, List.length_singleton]) fun b j other hother hb hj => by
        rcases List.mem_append.mp hother with hmem | hmem
        · exact hkept _ (hout b j other hmem hb hj)
        · rw [List.mem_singleton] at hmem
          exact hout₁ b j (hmem ▸ hb) (hmem ▸ hj)
    exact ⟨s', by rw [List.foldlM_cons, hrun₁, ok_bind, hrun], hresult⟩

/-- The worker masks the rows of the structured requests of its batch with their rows of the bitmask, and no other
row. -/
theorem applyGrammarBitmask_eq {kernel : TokenBitmaskKernel L} {ids : List Nat} {logits : List (Nat → L)}
    (hrows : ∀ reqId, (rows reqId).length = (reqTokens specTokens reqId).length + 1) (hnodup : reqIds.Nodup)
    (hids : ids.Nodup) (hlogits : logits.length = logitIndex specTokens reqIds reqIds.length) :
    ∃ logits', applyGrammarBitmask kernel specTokens ⟨ids, (ids.map rows).flatten⟩ reqIds logits = .ok logits' ∧
      ∀ (b j : Nat) reqId row, reqIds[b]? = some reqId → j ≤ (reqTokens specTokens reqId).length →
        logits[logitIndex specTokens reqIds b + j]? = some row →
        logits'[logitIndex specTokens reqIds b + j]? = some (maskLogits kernel.negInf
          (if reqId ∈ ids then (rows reqId).getD j fullMask else fullMask) row) := by
  have hinit : List.replicate logits.length fullMask = (sortedBlocks specTokens rows reqIds []).flatten := by
    rw [hlogits, logitIndex, ← List.length_map, List.take_length]
    have hblocks : sortedBlocks specTokens rows reqIds [] =
        (reqIds.map fun reqId => (reqTokens specTokens reqId).length + 1).map fun n => List.replicate n fullMask := by
      rw [List.map_map]
      exact List.map_congr_left fun reqId _ => by simp
    rw [hblocks]
    induction reqIds.map fun reqId => (reqTokens specTokens reqId).length + 1 with
    | nil => rfl
    | cons n counts ih => rw [List.sum_cons, List.map_cons, List.flatten_cons, List.replicate_add, ih]
  obtain ⟨s', hrun, hsorted, hout⟩ := @foldlM_copyRequest specTokens reqIds rows [] ids hrows hnodup hids ids
    { sortedBitmask := List.replicate logits.length fullMask } rfl hinit rfl fun _ _ _ h => (by cases h)
  refine ⟨_, by rw [applyGrammarBitmask, hrun]; rfl, fun b j reqId row hb hj hrow => ?_⟩
  have hblock : (sortedBlocks specTokens rows reqIds ids)[b]? =
      some (if reqId ∈ ids then rows reqId else List.replicate ((reqTokens specTokens reqId).length + 1) fullMask) := by
    rw [sortedBlocks, List.getElem?_map, hb, Option.map_some]
  have hmask : s'.sortedBitmask[logitIndex specTokens reqIds b + j]? =
      some (if reqId ∈ ids then (rows reqId).getD j fullMask else fullMask) := by
    rw [hsorted, ← rowStart_sortedBlocks hrows]
    split at hblock
    · rename_i hmem
      have hlt : j < (rows reqId).length := by rw [hrows]; omega
      rw [getElem?_flatten hblock hlt, if_pos hmem, List.getElem?_eq_getElem hlt, List.getD_eq_getElem?_getD,
        List.getElem?_eq_getElem hlt, Option.getD_some]
    · rename_i hmem
      have hlt : j < (List.replicate ((reqTokens specTokens reqId).length + 1) fullMask).length := by
        rw [List.length_replicate]
        omega
      rw [getElem?_flatten hblock hlt, if_neg hmem, List.getElem?_replicate, if_pos (by omega)]
  have hall : reqId ∈ ids → (if s'.outIndices.length = logits.length then none else some s'.outIndices).all
      (fun indices => decide (logitIndex specTokens reqIds b + j ∈ indices)) = true := by
    intro hmem
    split
    · rfl
    · simpa using hout b j reqId hmem hb hj
  rw [kernel.apply_row _ _ _ _ _ _ hrow hmask]
  by_cases hmem : reqId ∈ ids
  · rw [if_pos (hall hmem)]
  · rw [if_neg hmem, maskLogits_fullMask, ite_self]

/-! ## One step -/

section Step

variable {σ β : Type} {manager : StructuredOutputManager σ} {requests : List Nat} {request : Nat → Request β}
  {numScheduledTokens : Dict Nat Int} {state : MaskState σ}

/-- The mask of row `j` of a request: the expected one of a structured request, and none of another. -/
def expectedMask (manager : StructuredOutputManager σ) (requests : List Nat) (request : Nat → Request β)
    (numScheduledTokens : Dict Nat Int) (specTokens : Dict Nat (List Int)) (state : MaskState σ) (reqId j : Nat) :
    Bitmask :=
  if reqId ∈ structuredOutputRequestIds requests request numScheduledTokens then
    expectedRow manager.matcher (state.structured reqId).grammar
      (manager.shouldFillBitmask (request reqId) (state.structured reqId)).1 (reqTokens specTokens reqId) j
  else fullMask

theorem getGrammarBitmask_eq (hm : manager.matcher.Lawful)
    (hfits : manager.Fits specTokens (structuredOutputRequestIds requests request numScheduledTokens) state)
    (hvalid : manager.ValidDrafts request specTokens state.structured
      (structuredOutputRequestIds requests request numScheduledTokens)) :
    ∃ bitmask, getGrammarBitmask manager requests request numScheduledTokens specTokens state =
        .ok (if structuredOutputRequestIds requests request numScheduledTokens = [] then none
          else some ⟨structuredOutputRequestIds requests request numScheduledTokens,
            ((structuredOutputRequestIds requests request numScheduledTokens).map
              (manager.requestRows request specTokens state.structured)).flatten⟩,
          { grammarBitmask := bitmask
            structured := manager.setFlags request (structuredOutputRequestIds requests request numScheduledTokens)
              state.structured }) ∧
      ∀ rows, bitmask = some rows → rows.length = manager.numRows := by
  have hnodup : (structuredOutputRequestIds requests request numScheduledTokens).Nodup :=
    numScheduledTokens.nodup_keys.filter _
  have hhas : structuredOutputRequestIds requests request numScheduledTokens ≠ [] →
      hasStructuredOutputRequests request numScheduledTokens = true := by
    intro hne
    obtain ⟨reqId, hmem⟩ := List.exists_mem_of_ne_nil _ hne
    obtain ⟨hkey, hneeds⟩ := List.mem_filter.mp hmem
    exact List.any_eq_true.mpr ⟨reqId, hkey, (Bool.and_eq_true_iff.mp hneeds).2⟩
  rw [getGrammarBitmask]
  generalize structuredOutputRequestIds requests request numScheduledTokens = ids at *
  by_cases hids : ids = []
  · subst hids
    refine ⟨state.grammarBitmask, ?_, hfits.allocated⟩
    split <;> rfl
  · obtain ⟨bitmask, hrun, hlength⟩ := grammarBitmask_eq hm hids hnodup hfits hvalid
    refine ⟨some bitmask, ?_, fun rows hrows => by cases hrows; exact hlength⟩
    simp only [hhas hids, List.isEmpty_iff, hids, hrun]
    rfl

/-- For every batch, every order of the worker's batch, every valid drafts and all thresholds: no step fails, every
row of logits gets the mask of its own request and position, all grammars are as before, and the parallel filling
does what the serial one does. -/
theorem grammar_masks {σ β L : Type} {manager : StructuredOutputManager σ} {kernel : TokenBitmaskKernel L}
    (hm : manager.matcher.Lawful) {requests reqIds : List Nat} {request : Nat → Request β}
    {numScheduledTokens : Dict Nat Int} {specTokens : Dict Nat (List Int)} {state : MaskState σ}
    {logits : List (Nat → L)}
    (hfits : manager.Fits specTokens (structuredOutputRequestIds requests request numScheduledTokens) state)
    (hvalid : manager.ValidDrafts request specTokens state.structured
      (structuredOutputRequestIds requests request numScheduledTokens))
    (hreqIds : reqIds.Nodup) (hlogits : logits.length = logitIndex specTokens reqIds reqIds.length) :
    (∃ logits' state', maskStep kernel specTokens manager requests request numScheduledTokens reqIds state logits =
        .ok (logits', state') ∧ (∀ reqId, (state'.structured reqId).grammar = (state.structured reqId).grammar) ∧
      (∀ bitmask, state'.grammarBitmask = some bitmask → bitmask.length = manager.numRows) ∧
      ∀ (b j : Nat) reqId row, reqIds[b]? = some reqId → j ≤ (reqTokens specTokens reqId).length →
        logits[logitIndex specTokens reqIds b + j]? = some row →
        logits'[logitIndex specTokens reqIds b + j]? = some (maskLogits kernel.negInf
          (expectedMask manager requests request numScheduledTokens specTokens state reqId j) row)) ∧
    ((∀ reqId ∈ structuredOutputRequestIds requests request numScheduledTokens, reqTokens specTokens reqId = []) →
      ∀ bitmask, bitmask.length = manager.numRows →
        manager.parallelFill request (structuredOutputRequestIds requests request numScheduledTokens) bitmask
            state.structured =
          manager.serialFill request (structuredOutputRequestIds requests request numScheduledTokens) specTokens bitmask
            state.structured) := by
  have hnodup : (structuredOutputRequestIds requests request numScheduledTokens).Nodup :=
    numScheduledTokens.nodup_keys.filter _
  constructor
  · obtain ⟨bitmask, hrun, hlength⟩ := getGrammarBitmask_eq hm hfits hvalid
    by_cases hids : structuredOutputRequestIds requests request numScheduledTokens = []
    · rw [if_pos hids] at hrun
      refine ⟨logits, _, by rw [maskStep, hrun]; rfl, fun reqId => setFlags_grammar reqId, hlength,
        fun b j reqId row _ _ hrow => ?_⟩
      rw [expectedMask, hids, if_neg List.not_mem_nil, maskLogits_fullMask, hrow]
    · rw [if_neg hids] at hrun
      obtain ⟨logits', happly, hmasked⟩ := @applyGrammarBitmask_eq L specTokens reqIds
        (manager.requestRows request specTokens state.structured) kernel _ logits (fun _ => requestRows_length) hreqIds
        hnodup hlogits
      refine ⟨logits', _, by rw [maskStep, hrun, ok_bind, Option.elim_some, happly]; rfl,
        fun reqId => setFlags_grammar reqId, hlength, fun b j reqId row hb hj hrow => ?_⟩
      have hexpected : (manager.requestRows request specTokens state.structured reqId).getD j fullMask =
          expectedRow manager.matcher (state.structured reqId).grammar
            (manager.shouldFillBitmask (request reqId) (state.structured reqId)).1 (reqTokens specTokens reqId) j := by
        rw [requestRows, expectedRows, List.getD_eq_getElem?_getD, List.getElem?_map,
          List.getElem?_range (Nat.lt_succ_of_le hj)]
        rfl
      rw [hmasked b j reqId row hb hj hrow, hexpected, expectedMask]
  · intro hdrafts bitmask hlength
    have hrows : ((structuredOutputRequestIds requests request numScheduledTokens).map
        (manager.requestRows request specTokens state.structured)).flatten.length ≤ bitmask.length := by
      rw [hlength]
      exact hfits.rows_length
    have hserial := @foldlM_fillRequest σ β manager request specTokens state.structured [] bitmask _ hm hnodup hrows
      hvalid
    rw [parallelFill_eq hnodup hdrafts (hlength ▸ hfits.numSeqs.trans (Nat.le_mul_of_pos_right _ (by omega)))]
    exact hserial.symm

end Step

end Worker

/-! ## A batch of two requests -/

/-- The grammar `0 1`: the matcher counts the tokens it has accepted. -/
def countingMatcher : GrammarMatcher Nat :=
  { acceptToken := fun s token => if s < 2 ∧ token = s then some (s + 1) else none
    rollback := fun s n => s - n
    isTerminated := fun s => decide (2 ≤ s)
    fillNextTokenBitmask := fun s token => decide (token = s) }

theorem countingMatcher_lawful : countingMatcher.Lawful := by
  have hcount : ∀ (tokens : List Int) s s', runAll countingMatcher.acceptToken s tokens = some s' →
      s' = s + tokens.length := by
    intro tokens
    induction tokens with
    | nil =>
      intro s s' h
      exact (Option.some.inj h).symm
    | cons token tokens ih =>
      intro s s' h
      obtain ⟨s₁, hs₁, hrest⟩ := Option.bind_eq_some_iff.mp h
      simp only [countingMatcher] at hs₁
      split at hs₁
      · cases hs₁
        rw [ih _ _ hrest, List.length_cons]
        omega
      · cases hs₁
  refine ⟨fun s s' tokens h => ?_, fun s token h => ?_⟩
  · show s' - tokens.length = s
    rw [hcount tokens s s' h, Nat.add_sub_cancel]
  · have hs : 2 ≤ s := by simpa [countingMatcher] using h
    exact if_neg fun haccept => absurd haccept.1 (Nat.not_lt.mpr hs)

/-- The kernel, as it is documented. -/
def plainKernel {L : Type} (negInf : L) : TokenBitmaskKernel L :=
  { negInf
    apply := fun logits bitmask indices => logits.mapIdx fun x row =>
      if indices.all (fun indices => decide (x ∈ indices)) then maskLogits negInf (bitmask.getD x fullMask) row else row
    apply_row := fun logits bitmask indices x row mask hrow hmask => by
      rw [List.getElem?_mapIdx, hrow, List.getD_eq_getElem?_getD, hmask]
      rfl }

def twoRequests (reqId : Nat) : Request Unit :=
  { requestId := reqId, promptTokenIds := some [7], numPromptTokens := 1, allTokenIds := [7]
    useStructuredOutput := reqId == 0 }

def countingManager : StructuredOutputManager Nat :=
  { matcher := countingMatcher, numSpeculativeTokens := some 2, maxNumSeqs := 2 }

def countingState : MaskState Nat := { structured := fun _ => { grammar := { matcher := 0 } } }

/-- Request 0 has one valid draft and one padding token. -/
def paddedDrafts : Dict Nat (List Int) := ⟨[(0, [0, -1])], by decide⟩

theorem grammar_masks_two_requests :
    ∃ logits' state', maskStep (plainKernel (-1 : Int)) paddedDrafts countingManager [0, 1] twoRequests
        ⟨[(0, 3), (1, 1)], by decide⟩ [1, 0] countingState (List.replicate 4 fun _ => 5) = .ok (logits', state') ∧
      (state'.structured 0).grammar = (countingState.structured 0).grammar ∧
      logits'[1]? = some (maskLogits (-1 : Int) (fun token => decide (token = 0)) fun _ => 5) := by
  have hvalid : countingManager.ValidDrafts twoRequests paddedDrafts countingState.structured
      (structuredOutputRequestIds [0, 1] twoRequests ⟨[(0, 3), (1, 1)], by decide⟩) := by
    intro reqId hmem _
    obtain rfl : reqId = 0 := List.mem_singleton.mp hmem
    exact .inr (.inr ⟨rfl, .inl rfl⟩)
  have hfits : countingManager.Fits paddedDrafts
      (structuredOutputRequestIds [0, 1] twoRequests ⟨[(0, 3), (1, 1)], by decide⟩) countingState :=
    ⟨by decide, fun reqId hmem => (by
      obtain rfl : reqId = 0 := List.mem_singleton.mp hmem
      decide), fun bitmask h => by cases h⟩
  obtain ⟨logits', state', hrun, hgrammar, -, hmasked⟩ :=
    (@grammar_masks Nat Unit Int countingManager (plainKernel (-1)) countingMatcher_lawful [0, 1] [1, 0] twoRequests
      ⟨[(0, 3), (1, 1)], by decide⟩ paddedDrafts countingState (List.replicate 4 fun _ => 5) hfits hvalid (by decide)
      rfl).1
  exact ⟨logits', state', hrun, hgrammar 0, hmasked 1 0 0 _ rfl (Nat.zero_le _) rfl⟩

/-- The row at the first padding token, row 2 here, is masked: only the rows behind it are not. -/
theorem padding_position_masked :
    ∃ logits' state', maskStep (plainKernel (-1 : Int)) paddedDrafts countingManager [0, 1] twoRequests
        ⟨[(0, 3), (1, 1)], by decide⟩ [1, 0] countingState (List.replicate 4 fun _ => 5) = .ok (logits', state') ∧
      reqTokens paddedDrafts 0 = [0, -1] ∧ logitIndex paddedDrafts [1, 0] 1 = 1 ∧
      (logits'.map fun row => row 0) = [5, 5, -1, 5] :=
  ⟨_, _, rfl, rfl, rfl, rfl⟩

end Yuan.StructuredOutput
