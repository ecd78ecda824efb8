import Yuan.SpecDecode.RejectionKernels

/-!
# Greedy rejection sampling is lossless

A request that decodes greedily without drafts appends, again and again, the next token of its context. With drafts
the target model gives the next token of the context extended by each prefix of the drafts. The row that the greedy
kernel writes is the start of the plain continuation: the drafts that match it, and one token more.
-/

namespace Yuan.SpecDecode

/-- A request of a step: its tokens, its drafts, and the next-token function of the target model for it. -/
structure DraftedRequest (vocabSize : Nat) (K : Type) where
  context : List Int
  draftTokenIds : List Int
  next : List Int → Fin vocabSize
  temperature : K

section Continuation

variable {vocabSize : Nat} (next : List Int → Fin vocabSize)

/-- The next token of a context, as the tensors hold it. -/
def nextTokenId (context : List Int) : Int := (next context).val

/-- Plain greedy decoding: `n` tokens, each the next one of all tokens before it. -/
def greedyContinuation (context : List Int) : Nat → List Int
  | 0 => []
  | n + 1 => nextTokenId next context :: greedyContinuation (context ++ [nextTokenId next context]) n

/-- The number of leading drafts that match `tokens`. -/
def leadingMatches : List Int → List Int → Nat
  | draft :: drafts, token :: tokens => if draft = token then leadingMatches drafts tokens + 1 else 0
  | _, _ => 0

/-- `target_argmax` at the drafts of a request: at draft `j` the next token after the first `j` drafts. -/
def targetArgmaxIds (context drafts : List Int) : List Int :=
  (List.range drafts.length).map fun j => nextTokenId next (context ++ drafts.take j)

theorem greedyContinuation_length (context : List Int) (n : Nat) : (greedyContinuation next context n).length = n := by
  induction n generalizing context with
  | zero => rfl
  | succ n ih => rw [greedyContinuation, List.length_cons, ih]

theorem mem_greedyContinuation {context : List Int} {n : Nat} {token : Int}
    (h : token ∈ greedyContinuation next context n) : 0 ≤ token ∧ token < vocabSize := by
  induction n generalizing context with
  | zero => cases h
  | succ n ih =>
    rcases List.mem_cons.mp h with rfl | h
    · exact ⟨Int.natCast_nonneg _, Int.ofNat_lt.mpr (next context).isLt⟩
    · exact ih h

theorem leadingMatches_le (drafts tokens : List Int) : leadingMatches drafts tokens ≤ drafts.length := by
  fun_induction leadingMatches drafts tokens with
  | case1 drafts token tokens ih => simpa using ih
  | case2 => exact Nat.zero_le _
  | case3 => exact Nat.zero_le _

theorem targetArgmaxIds_cons (context : List Int) (draft : Int) (drafts : List Int) :
    targetArgmaxIds next context (draft :: drafts) =
      nextTokenId next context :: targetArgmaxIds next (context ++ [draft]) drafts := by
  simp [targetArgmaxIds, List.range_succ_eq_map]

/-- The tokens that the greedy kernel chooses, and whether they reject the drafts. -/
def greedyChoice (drafts targets : List Int) : List (Int × Bool) :=
  List.zipWith (fun draft target => (target, draft != target)) drafts targets

/-- What the kernel emits is the continuation, up to the first draft that differs from it. -/
theorem emitted_greedyChoice (context drafts : List Int) :
    emitted (greedyChoice drafts (targetArgmaxIds next context drafts)) (nextTokenId next (context ++ drafts)) =
      greedyContinuation next context (1 + leadingMatches drafts (greedyContinuation next context drafts.length)) := by
  induction drafts generalizing context with
  | nil => simp [emitted, greedyChoice, upToReject, leadingMatches, greedyContinuation]
  | cons draft drafts ih =>
    rw [targetArgmaxIds_cons, List.length_cons, greedyContinuation, leadingMatches]
    by_cases hmatch : draft = nextTokenId next context
    · have hrest := ih (context ++ [draft])
      rw [List.append_assoc] at hrest
      rw [if_pos hmatch, ← Nat.add_assoc, greedyContinuation, ← hmatch, ← hrest]
      rw [greedyChoice, List.zipWith_cons_cons, emitted_cons, bne_self_eq_false]
      rfl
    · rw [if_neg hmatch, greedyChoice, List.zipWith_cons_cons, emitted_cons, bne_iff_ne.mpr hmatch]
      rfl

end Continuation

/-! ## The rows of the output -/

theorem outputBuffer_eq (batchSize maxSpecLen : Nat) :
    outputBuffer batchSize maxSpecLen =
      (List.replicate batchSize (List.replicate (maxSpecLen + 1) PLACEHOLDER_TOKEN_ID)).flatten := by
  rw [outputBuffer, List.flatten_replicate_replicate]

theorem grid_replicate (n w : Nat) (a : Int) : Grid w (List.replicate n (List.replicate w a)) := fun row hrow => by
  rw [List.eq_of_mem_replicate hrow, List.length_replicate]

/-- The placeholders behind a request's tokens are filtered out. -/
theorem filter_overwrite {l : List Int} {w vocabSize : Nat} (h : ∀ id ∈ l, 0 ≤ id ∧ id < vocabSize) :
    (overwrite (List.replicate w PLACEHOLDER_TOKEN_ID) l).filter
      (fun id => id ≠ PLACEHOLDER_TOKEN_ID ∧ id < vocabSize) = l := by
  rw [overwrite, List.filter_append]
  have hl : l.filter (fun id => id ≠ PLACEHOLDER_TOKEN_ID ∧ id < vocabSize) = l := by
    rw [List.filter_eq_self]
    intro id hid
    have hne : id ≠ PLACEHOLDER_TOKEN_ID := fun heq => by
      have := (h id hid).1
      rw [heq, PLACEHOLDER_TOKEN_ID] at this
      omega
    simp [hne, (h id hid).2]
  rw [hl]
  simp

section

variable {cuNumDraftTokens : List Nat} {drafts targets : List (List Int)} {bonusTokenIds : List Int}
  {isGreedy : Option (List Bool)} {maxSpecLen i : Nat} {rows : List (List Int)} {row draft target : List Int}
  {bonus : Int}

/-- The program of a greedy request writes its tokens over its row. -/
theorem rejectionGreedySampleKernel_of_greedy
    (hgreedy : isGreedy.elim (some true) (fun flags => load flags i) = some true)
    (hlengths : targets.map List.length = drafts.map List.length) (hdraft : drafts[i]? = some draft)
    (htarget : targets[i]? = some target) (hbonus : bonusTokenIds[i]? = some bonus) (hlen : draft.length ≤ maxSpecLen)
    (hrows : Grid (maxSpecLen + 1) rows) (hrow : rows[i]? = some row) :
    rejectionGreedySampleKernel (cumsum (drafts.map List.length)) drafts.flatten targets.flatten bonusTokenIds isGreedy
        maxSpecLen i rows.flatten =
      some (rows.set i (overwrite row (emitted (greedyChoice draft target) bonus))).flatten := by
  have hlength : target.length = draft.length := by
    have h := congrArg (·[i]?) hlengths
    simpa [hdraft, htarget] using h
  have hchosen : (greedyChoice draft target).length = draft.length := by
    rw [greedyChoice, List.length_zipWith, hlength, Nat.min_self]
  have hstart : rowStart targets i = rowStart drafts i := by rw [rowStart, rowStart, hlengths]
  rw [rejectionGreedySampleKernel, hgreedy, draftRange_cumsum hdraft]
  simp only [Option.bind_eq_bind, Option.bind_some, 
    Nat.add_sub_cancel_left, load, hbonus]
  rw [← hchosen]
  refine sampleRequest_eq hrows hrow (by omega) fun pos c hc => ?_
  obtain ⟨d, t, hd, ht, rfl⟩ := List.getElem?_zipWith_eq_some.mp hc
  have hpos : pos < draft.length := (List.getElem?_eq_some_iff.mp hd).1
  have ht' : targets.flatten[rowStart drafts i + pos]? = some t := by
    rw [← hstart, getElem?_flatten htarget (hlength ▸ hpos), ht]
  rw [getElem?_flatten hdraft hpos, hd, ht']
  rfl

end

/-! ## The batch -/

section Batch

variable {vocabSize : Nat} {K : Type} [Field K] [LinearOrder K]

namespace DraftedRequest

/-- The number of leading drafts that match the plain continuation. -/
def matching (r : DraftedRequest vocabSize K) : Nat :=
  leadingMatches r.draftTokenIds (greedyContinuation r.next r.context r.draftTokenIds.length)

/-- `target_argmax` of a batch. -/
def targetArgmax (reqs : List (DraftedRequest vocabSize K)) : List Int :=
  (reqs.map fun r => targetArgmaxIds r.next r.context r.draftTokenIds).flatten

/-- The bonus tokens of a batch. -/
def bonusTokenIds (reqs : List (DraftedRequest vocabSize K)) : List Int :=
  reqs.map fun r => nextTokenId r.next (r.context ++ r.draftTokenIds)

def metadata (reqs : List (DraftedRequest vocabSize K)) : SpecDecodeMetadata :=
  SpecDecodeMetadata.make (reqs.map (·.draftTokenIds))

def sampling (reqs : List (DraftedRequest vocabSize K)) : SamplingMetadata K :=
  SamplingMetadata.make (reqs.map (·.temperature))

/-- What the greedy kernel makes of row `i`. -/
def greedyRow (reqs : List (DraftedRequest vocabSize K)) (i : Nat) (row : List Int) : List Int :=
  reqs[i]?.elim row fun r =>
    if r.temperature = (GREEDY_TEMPERATURE : K) then
      overwrite row (greedyContinuation r.next r.context (1 + r.matching))
    else row

end DraftedRequest

open DraftedRequest

variable {reqs : List (DraftedRequest vocabSize K)} {r : DraftedRequest vocabSize K} {i maxSpecLen : Nat}

theorem isGreedy_sampling (hr : reqs[i]? = some r) :
    (sampling reqs).isGreedy.elim (some true) (fun flags => load flags i) =
      some (decide (r.temperature = (GREEDY_TEMPERATURE : K))) := by
  cases hall : (sampling reqs).allGreedy with
  | true =>
    have hmem : r.temperature ∈ reqs.map (·.temperature) := List.mem_map_of_mem (List.mem_of_getElem? hr)
    have htemp := List.all_eq_true.mp hall _ hmem
    rw [SamplingMetadata.isGreedy, hall, if_pos rfl, Option.elim_none, htemp]
  | false =>
    rw [SamplingMetadata.isGreedy, hall]
    simp [load, sampling, SamplingMetadata.make, hr]

omit [Field K] [LinearOrder K] in
theorem maxSpecLen_metadata (hreqs : reqs ≠ []) :
    ∃ maxSpecLen, (metadata reqs).maxSpecLen = some maxSpecLen ∧ ∀ r ∈ reqs, r.draftTokenIds.length ≤ maxSpecLen := by
  cases hmax : (metadata reqs).maxSpecLen with
  | none =>
    have hnil := List.max?_eq_none_iff.mp hmax
    simp [hreqs] at hnil
  | some maxSpecLen =>
    refine ⟨maxSpecLen, rfl, fun r hr => ?_⟩
    have hmem : r.draftTokenIds.length ∈ (reqs.map (·.draftTokenIds)).map List.length :=
      List.mem_map_of_mem (List.mem_map_of_mem hr)
    exact (List.max?_le_iff hmax).mp le_rfl _ hmem

theorem greedyRow_length {row : List Int} (hlen : ∀ r ∈ reqs, r.draftTokenIds.length ≤ maxSpecLen)
    (hrow : row.length = maxSpecLen + 1) : (greedyRow reqs i row).length = maxSpecLen + 1 := by
  unfold greedyRow
  cases hr : reqs[i]? with
  | none => exact hrow
  | some r =>
    rw [Option.elim_some]
    split
    · have hmatch : r.matching ≤ r.draftTokenIds.length := leadingMatches_le _ _
      have hfit := hlen r (List.mem_of_getElem? hr)
      rw [overwrite_length (by rw [greedyContinuation_length]; omega), hrow]
    · exact hrow

/-- One program of the greedy kernel. -/
theorem greedy_program {rows : List (List Int)} {row : List Int}
    (hlen : ∀ r ∈ reqs, r.draftTokenIds.length ≤ maxSpecLen) (hn : rows.length = reqs.length)
    (hrows : Grid (maxSpecLen + 1) rows) (hrow : rows[i]? = some row) :
    rejectionGreedySampleKernel (metadata reqs).cuNumDraftTokens (metadata reqs).draftTokenIds (targetArgmax reqs)
        (bonusTokenIds reqs) (sampling reqs).isGreedy maxSpecLen i rows.flatten =
      some (rows.set i (greedyRow reqs i row)).flatten := by
  obtain ⟨hi, hget⟩ := List.getElem?_eq_some_iff.mp hrow
  have hr : reqs[i]? = some reqs[i] := List.getElem?_eq_getElem (hn ▸ hi)
  generalize reqs[i] = r at hr
  have hflag := isGreedy_sampling hr
  by_cases hgreedy : r.temperature = (GREEDY_TEMPERATURE : K)
  · have hlengths : (reqs.map fun r => targetArgmaxIds r.next r.context r.draftTokenIds).map List.length =
        (reqs.map (·.draftTokenIds)).map List.length := by simp [targetArgmaxIds]
    have hdraft : (reqs.map (·.draftTokenIds))[i]? = some r.draftTokenIds := by simp [hr]
    have htarget : (reqs.map fun r => targetArgmaxIds r.next r.context r.draftTokenIds)[i]? =
        some (targetArgmaxIds r.next r.context r.draftTokenIds) := by simp [hr]
    have hbonus : (bonusTokenIds reqs)[i]? = some (nextTokenId r.next (r.context ++ r.draftTokenIds)) := by
      simp [bonusTokenIds, hr]
    have hkernel := rejectionGreedySampleKernel_of_greedy (by simpa [hgreedy] using hflag) hlengths hdraft htarget
      hbonus (hlen r (List.mem_of_getElem? hr)) hrows hrow
    rw [emitted_greedyChoice] at hkernel
    rw [greedyRow, hr, Option.elim_some, if_pos hgreedy]
    exact hkernel
  · have hset : rows.set i row = rows := by rw [← hget, List.set_getElem_self]
    rw [greedyRow, hr, Option.elim_some, if_neg hgreedy, hset, rejectionGreedySampleKernel, hflag]
    simp [hgreedy]

theorem sampleGreedy_eq {order : List Nat} (horder : order.Perm (List.range reqs.length))
    (hmax : (metadata reqs).maxSpecLen = some maxSpecLen) (hlen : ∀ r ∈ reqs, r.draftTokenIds.length ≤ maxSpecLen) :
    sampleGreedy order (metadata reqs) (sampling reqs) (targetArgmax reqs) (bonusTokenIds reqs) =
      some ((List.replicate reqs.length (List.replicate (maxSpecLen + 1) PLACEHOLDER_TOKEN_ID)).mapIdx
        (greedyRow reqs)).flatten := by
  have hbatch : (metadata reqs).numDraftTokens.length = reqs.length := by simp [metadata, SpecDecodeMetadata.make]
  rw [sampleGreedy, hmax, hbatch]
  simp only [outputBuffer_eq]
  split
  · rename_i hrandom
    have hkeep : ∀ i row, greedyRow reqs i row = row := by
      intro i row
      unfold greedyRow
      cases hr : reqs[i]? with
      | none => rfl
      | some r =>
        have hmem : r.temperature ∈ reqs.map (·.temperature) := List.mem_map_of_mem (List.mem_of_getElem? hr)
        have htemp : r.temperature ≠ (GREEDY_TEMPERATURE : K) := by
          simpa using List.all_eq_true.mp hrandom _ hmem
        rw [Option.elim_some, if_neg htemp]
    refine congrArg (fun rows => some (List.flatten rows)) (List.ext_getElem? fun i => ?_)
    rw [List.getElem?_mapIdx]
    cases (List.replicate reqs.length (List.replicate (maxSpecLen + 1) PLACEHOLDER_TOKEN_ID))[i]? with
    | none => rfl
    | some row => rw [Option.map_some, hkeep]
  · exact launch_all_rows (fun i rows row hn hrows hrow => greedy_program hlen hn hrows hrow)
      (fun i row hrow _ => greedyRow_length hlen hrow) horder (List.length_replicate) (grid_replicate _ _ _)

/-- A row of tokens of the vocabulary, parsed. -/
theorem parseOutput_getElem? {outputRows : List (List Int)} {row : List Int} (hrow : outputRows[i]? = some row) :
    (parseOutput outputRows vocabSize [])[i]? =
      some (row.filter fun id => id ≠ PLACEHOLDER_TOKEN_ID ∧ id < vocabSize) := by
  simp [parseOutput, hrow]

/-- The random kernel leaves the rows of greedy requests alone. -/
theorem random_program_agree {draftProbs : Option (List K)} {targetProbs uniformProbs : List K}
    {recoveredTokenIds : List Int} {isGreedy : List Bool} (hi : isGreedy[i]? = some true)
    (hlen : ∀ r ∈ reqs, r.draftTokenIds.length ≤ maxSpecLen) {j : Nat} {output output' : List Int}
    (h : rejectionRandomSampleKernel (metadata reqs).cuNumDraftTokens (metadata reqs).draftTokenIds draftProbs
      targetProbs (bonusTokenIds reqs) recoveredTokenIds uniformProbs isGreedy maxSpecLen vocabSize j output =
        some output') {x : Nat} (hx : i * (maxSpecLen + 1) ≤ x) (hx' : x < i * (maxSpecLen + 1) + (maxSpecLen + 1)) :
    output'[x]? = output[x]? := by
  obtain ⟨greedy, hgreedy, h⟩ := Option.bind_eq_some_iff.mp h
  split at h
  · cases h
    rfl
  · rename_i hnot
    have hj : j ≠ i := fun heq => by
      rw [load, heq, hi] at hgreedy
      exact hnot (Option.some.inj hgreedy).symm
    obtain ⟨range, hrange, h⟩ := Option.bind_eq_some_iff.mp h
    obtain ⟨draft, hdraft, hlength⟩ := draftRange_eq_some hrange
    obtain ⟨r, hr, rfl⟩ := List.mem_map.mp (List.mem_of_getElem? hdraft)
    have hfit : range.2 - range.1 < maxSpecLen + 1 := hlength ▸ Nat.lt_succ_of_le (hlen r hr)
    refine sampleRequest_agree hfit h x ?_
    rcases Nat.lt_or_gt_of_ne hj with hlt | hgt
    · right
      calc j * (maxSpecLen + 1) + (maxSpecLen + 1) = (j + 1) * (maxSpecLen + 1) := by ring
        _ ≤ i * (maxSpecLen + 1) := Nat.mul_le_mul_right _ hlt
        _ ≤ x := hx
    · left
      calc x < i * (maxSpecLen + 1) + (maxSpecLen + 1) := hx'
        _ = (i + 1) * (maxSpecLen + 1) := by ring
        _ ≤ j * (maxSpecLen + 1) := Nat.mul_le_mul_right _ hgt

/-- `rejection_sample` keeps the rows that the greedy kernel wrote for greedy requests. -/
theorem rejectionSample_greedy_row {order order' : List Nat} {draftProbs : Option (List K)}
    {targetProbs uniformProbs : List K} {recoveredTokenIds output output' : List Int}
    (hmax : (metadata reqs).maxSpecLen = some maxSpecLen) (hlen : ∀ r ∈ reqs, r.draftTokenIds.length ≤ maxSpecLen)
    (houtput : sampleGreedy order (metadata reqs) (sampling reqs) (targetArgmax reqs) (bonusTokenIds reqs) =
      some output)
    (houtput' : rejectionSample order order' (metadata reqs) (sampling reqs) (targetArgmax reqs) (bonusTokenIds reqs)
      draftProbs targetProbs uniformProbs recoveredTokenIds vocabSize = some output')
    (hr : reqs[i]? = some r) (hgreedy : r.temperature = (GREEDY_TEMPERATURE : K)) :
    (toRows reqs.length (maxSpecLen + 1) output')[i]? = (toRows reqs.length (maxSpecLen + 1) output)[i]? := by
  have hflag := isGreedy_sampling hr
  rw [rejectionSample, hmax, houtput] at houtput'
  cases hall : (sampling reqs).isGreedy with
  | none =>
    rw [hall] at houtput'
    cases houtput'
    rfl
  | some isGreedy =>
    rw [hall, Option.elim_some, load, decide_eq_true hgreedy] at hflag
    rw [hall] at houtput'
    apply toRows_getElem?_congr
    exact launch_invariant
      (P := fun buf => ∀ x, i * (maxSpecLen + 1) ≤ x → x < i * (maxSpecLen + 1) + (maxSpecLen + 1) →
        buf[x]? = output[x]?)
      (fun j buf buf' hbuf hstep x hx hx' =>
        (random_program_agree hflag hlen hstep hx hx').trans (hbuf x hx hx'))
      (fun _ _ _ => rfl) houtput'

/-- For every batch and every next-token functions the greedy kernel runs without a fault, in any order of its
programs, and the parsed row of a greedy request is the plain continuation, of length one plus the number of leading
drafts that match it. The random kernel keeps these rows. -/
theorem greedy_rejection_lossless {vocabSize : Nat} {K : Type} [Field K] [LinearOrder K]
    {reqs : List (DraftedRequest vocabSize K)} (hreqs : reqs ≠ []) {order : List Nat}
    (horder : order.Perm (List.range reqs.length)) :
    ∃ maxSpecLen output, (metadata reqs).maxSpecLen = some maxSpecLen ∧
      sampleGreedy order (metadata reqs) (sampling reqs) (targetArgmax reqs) (bonusTokenIds reqs) = some output ∧
      ∀ (i : Nat) (r : DraftedRequest vocabSize K), reqs[i]? = some r →
        (parseOutput (toRows reqs.length (maxSpecLen + 1) output) vocabSize [])[i]? =
          some (if r.temperature = (GREEDY_TEMPERATURE : K) then
            greedyContinuation r.next r.context (1 + r.matching) else []) ∧
        ∀ order' draftProbs targetProbs uniformProbs recoveredTokenIds output',
          rejectionSample order order' (metadata reqs) (sampling reqs) (targetArgmax reqs) (bonusTokenIds reqs)
            draftProbs targetProbs uniformProbs recoveredTokenIds vocabSize = some output' →
          r.temperature = (GREEDY_TEMPERATURE : K) →
          (parseOutput (toRows reqs.length (maxSpecLen + 1) output') vocabSize [])[i]? =
            some (greedyContinuation r.next r.context (1 + r.matching)) := by
  obtain ⟨maxSpecLen, hmax, hlen⟩ := maxSpecLen_metadata hreqs
  have hrun := sampleGreedy_eq horder hmax hlen
  have hgrid : Grid (maxSpecLen + 1) ((List.replicate reqs.length
      (List.replicate (maxSpecLen + 1) PLACEHOLDER_TOKEN_ID)).mapIdx (greedyRow reqs)) := by
    intro row hrow
    obtain ⟨i, hi, rfl⟩ := List.mem_mapIdx.mp hrow
    exact greedyRow_length hlen (by simp)
  have hrows := hgrid.toRows
  rw [List.length_mapIdx, List.length_replicate] at hrows
  have hrow : ∀ (i : Nat) (r : DraftedRequest vocabSize K), reqs[i]? = some r →
      (toRows reqs.length (maxSpecLen + 1) ((List.replicate reqs.length
        (List.replicate (maxSpecLen + 1) PLACEHOLDER_TOKEN_ID)).mapIdx (greedyRow reqs)).flatten)[i]? =
      some (if r.temperature = (GREEDY_TEMPERATURE : K) then
        overwrite (List.replicate (maxSpecLen + 1) PLACEHOLDER_TOKEN_ID)
          (greedyContinuation r.next r.context (1 + r.matching))
      else List.replicate (maxSpecLen + 1) PLACEHOLDER_TOKEN_ID) := by
    intro i r hr
    have hi : i < reqs.length := (List.getElem?_eq_some_iff.mp hr).1
    rw [hrows, List.getElem?_mapIdx, List.getElem?_replicate, if_pos hi, Option.map_some, greedyRow, hr,
      Option.elim_some]
  have hparse : ∀ r : DraftedRequest vocabSize K, (overwrite (List.replicate (maxSpecLen + 1) PLACEHOLDER_TOKEN_ID)
      (greedyContinuation r.next r.context (1 + r.matching))).filter
        (fun id => id ≠ PLACEHOLDER_TOKEN_ID ∧ id < vocabSize) =
      greedyContinuation r.next r.context (1 + r.matching) :=
    fun r => filter_overwrite fun _ hid => mem_greedyContinuation r.next hid
  refine ⟨maxSpecLen, _, hmax, hrun, fun i r hr => ⟨?_, ?_⟩⟩
  · rw [parseOutput_getElem? (hrow i r hr)]
    split
    · rw [hparse]
    · simp
  · intro order' draftProbs targetProbs uniformProbs recoveredTokenIds output' houtput' hgreedy
    have hkept := (rejectionSample_greedy_row hmax hlen hrun houtput' hr hgreedy).trans (hrow i r hr)
    rw [if_pos hgreedy] at hkept
    rw [parseOutput_getElem? hkept, hparse]

/-- A request whose next token is the length of its context, with a third draft that differs. -/
def countingRequest : DraftedRequest 5 ℚ :=
  { context := [], draftTokenIds := [0, 1, 7, 3], next := fun l => Fin.ofNat 5 l.length, temperature := 0 }

/-- A request whose only draft is the next token. -/
def matchedRequest : DraftedRequest 5 ℚ :=
  { context := [0], draftTokenIds := [1], next := fun l => Fin.ofNat 5 l.length, temperature := 0 }

/-- Requests with four drafts, with one and with none, the last one not greedy; the programs run from the last. -/
def countingBatch : List (DraftedRequest 5 ℚ) :=
  [countingRequest, matchedRequest, { matchedRequest with draftTokenIds := [], temperature := 1 }]

theorem greedy_rejection_lossless_counting :
    ∃ maxSpecLen output, (metadata countingBatch).maxSpecLen = some maxSpecLen ∧
      sampleGreedy [2, 1, 0] (metadata countingBatch) (sampling countingBatch) (targetArgmax countingBatch)
        (bonusTokenIds countingBatch) = some output ∧
      (parseOutput (toRows 3 (maxSpecLen + 1) output) 5 [])[0]? = some [0, 1, 2] ∧
      (parseOutput (toRows 3 (maxSpecLen + 1) output) 5 [])[1]? = some [1, 2] ∧
      (parseOutput (toRows 3 (maxSpecLen + 1) output) 5 [])[2]? = some [] := by
  obtain ⟨maxSpecLen, output, hmax, hrun, hrows⟩ := @greedy_rejection_lossless 5 ℚ _ _ countingBatch
    (List.cons_ne_nil _ _) [2, 1, 0] (by decide)
  refine ⟨maxSpecLen, output, hmax, hrun, ?_, ?_, ?_⟩
  · exact ((hrows 0 _ rfl).1).trans (by decide +kernel)
  · exact ((hrows 1 _ rfl).1).trans (by decide +kernel)
  · exact ((hrows 2 _ rfl).1).trans (by decide +kernel)

end Batch

end Yuan.SpecDecode
