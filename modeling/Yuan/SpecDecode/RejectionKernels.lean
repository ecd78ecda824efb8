import Yuan.Lib.Buffer
import Mathlib.Algebra.Order.Field.Basic

/-!
# `RejectionSampler`: the kernels

One program of a kernel samples one request: it goes over the request's draft tokens until it rejects one, and
appends the bonus token when it rejects none. The tokens of all requests lie one behind the other, found through
the running sums of the numbers of drafts; the output is a grid that starts with placeholders.

The two rejection kernels differ in how they choose the token of a position, and share the loop.
-/

namespace Yuan.SpecDecode

def PLACEHOLDER_TOKEN_ID : Int := -1

def GREEDY_TEMPERATURE : Nat := 0

/-! ## The loop over the drafts -/

/-- One position: `choose` gives its token, and whether the draft is rejected. -/
def samplePosition (choose : Nat → Option (Int × Bool)) (base : Nat) (state : Bool × List Int) (pos : Nat) :
    Option (Bool × List Int) :=
  if state.1 then some state
  else do
    let chosen ← choose pos
    let output ← store state.2 (base + pos) chosen.1
    return (chosen.2, output)

/-- The loop over the drafts, and the bonus token behind them when all are accepted. -/
def sampleRequest (choose : Nat → Option (Int × Bool)) (bonusTokenId : Option Int) (base numDraftTokens : Nat)
    (output : List Int) : Option (List Int) := do
  let state ← (List.range numDraftTokens).foldlM (samplePosition choose base) (false, output)
  if state.1 then return state.2
  else store state.2 (base + numDraftTokens) (← bonusTokenId)

/-- `start_idx` and `end_idx` of a request. -/
def draftRange (cuNumDraftTokens : List Nat) (reqIdx : Nat) : Option (Nat × Nat) := do
  let startIdx ← if reqIdx = 0 then some 0 else load cuNumDraftTokens (reqIdx - 1)
  let endIdx ← load cuNumDraftTokens reqIdx
  return (startIdx, endIdx)

/-! ## The kernels -/

/-- `rejection_greedy_sample_kernel`. Without `isGreedy` all requests are greedy. -/
def rejectionGreedySampleKernel (cuNumDraftTokens : List Nat) (draftTokenIds targetArgmax bonusTokenIds : List Int)
    (isGreedy : Option (List Bool)) (maxSpecLen reqIdx : Nat) (output : List Int) : Option (List Int) := do
  let greedy ← isGreedy.elim (some true) fun flags => load flags reqIdx
  if !greedy then return output
  let range ← draftRange cuNumDraftTokens reqIdx
  sampleRequest (fun pos => do
      let draftTokenId ← load draftTokenIds (range.1 + pos)
      let targetArgmaxId ← load targetArgmax (range.1 + pos)
      return (targetArgmaxId, draftTokenId != targetArgmaxId))
    (load bonusTokenIds reqIdx) (reqIdx * (maxSpecLen + 1)) (range.2 - range.1) output

section Random

variable {K : Type} [Field K] [LinearOrder K]

/-- The probability of a token in row `tokenIdx`. -/
def loadProb (probs : List K) (vocabSize tokenIdx : Nat) (tokenId : Int) : Option K := do
  load probs (tokenIdx * vocabSize + (← tokenId.toNat?))

/-- The test of a draft token. A draft with probability 0 is rejected. -/
def accepts (draftProb targetProb uniformProb : K) : Bool := 0 < draftProb ∧ uniformProb ≤ targetProb / draftProb

/-- The token of one position, and whether the draft is rejected. `NO_DRAFT_PROBS` is the case of no `draftProbs`. -/
def chooseRandom (draftTokenIds : List Int) (draftProbs : Option (List K)) (targetProbs : List K)
    (recoveredTokenIds : List Int) (uniformProbs : List K) (vocabSize tokenIdx : Nat) : Option (Int × Bool) := do
  let draftTokenId ← load draftTokenIds tokenIdx
  let draftProb ← draftProbs.elim (some 1) fun probs => loadProb probs vocabSize tokenIdx draftTokenId
  let targetProb ← loadProb targetProbs vocabSize tokenIdx draftTokenId
  let uniformProb ← load uniformProbs tokenIdx
  if accepts draftProb targetProb uniformProb then return (draftTokenId, false)
  else return (← load recoveredTokenIds tokenIdx, true)

/-- `rejection_random_sample_kernel`. -/
def rejectionRandomSampleKernel (cuNumDraftTokens : List Nat) (draftTokenIds : List Int)
    (draftProbs : Option (List K)) (targetProbs : List K) (bonusTokenIds recoveredTokenIds : List Int)
    (uniformProbs : List K) (isGreedy : List Bool) (maxSpecLen vocabSize reqIdx : Nat) (output : List Int) :
    Option (List Int) := do
  let greedy ← load isGreedy reqIdx
  if greedy then return output
  let range ← draftRange cuNumDraftTokens reqIdx
  sampleRequest (fun pos =>
      chooseRandom draftTokenIds draftProbs targetProbs recoveredTokenIds uniformProbs vocabSize (range.1 + pos))
    (load bonusTokenIds reqIdx) (reqIdx * (maxSpecLen + 1)) (range.2 - range.1) output

/-- `prob` of one token in `sample_recovered_tokens_kernel`: what the target gives to it above the draft, or, without
draft probabilities, the target probability of any token but the draft. -/
def recoveredProb (draftTokenIds : List Int) (draftProbs : Option (List K)) (targetProbs : List K)
    (vocabSize tokenIdx vocabOffset : Nat) : Option K :=
  match draftProbs with
  | none => do
    let draftTokenId ← load draftTokenIds tokenIdx
    if (vocabOffset : Int) = draftTokenId then return 0
    else load targetProbs (tokenIdx * vocabSize + vocabOffset)
  | some probs => do
    let draftProb ← load probs (tokenIdx * vocabSize + vocabOffset)
    let targetProb ← load targetProbs (tokenIdx * vocabSize + vocabOffset)
    return max (targetProb - draftProb) 0

/-- `tl.max(score, axis=0, return_indices=True)`: the first one of the largest scores of a tile. -/
def tileMax : List K → Option (K × Nat)
  | [] => none
  | x :: scores =>
    match tileMax scores with
    | none => some (x, 0)
    | some (localMax, localId) => if localMax ≤ x then some (x, 0) else some (localMax, localId + 1)

/-- One tile of `sample_recovered_tokens_kernel`. The state is `max_val`, without a value for `-inf`, and
`recovered_id`. A lane behind the vocabulary has score 0. -/
def recoverTile (prob invQ : Nat → Option K) (vocabSize blockSize : Nat) (state : Option K × Nat) (tile : Nat) :
    Option (Option K × Nat) := do
  let v := tile * blockSize
  let scores ← (List.range blockSize).mapM fun lane =>
    if v + lane < vocabSize then do return (← prob (v + lane)) * (← invQ (v + lane)) else some 0
  let best ← tileMax scores
  if state.1.all (· < best.1) then return (some best.1, v + best.2) else return state

/-- `sample_recovered_tokens_kernel`. -/
def sampleRecoveredTokensKernel (cuNumDraftTokens : List Nat) (draftTokenIds : List Int)
    (draftProbs : Option (List K)) (targetProbs invQ : List K) (vocabSize blockSize : Nat) (program : Nat × Nat)
    (output : List Int) : Option (List Int) := do
  let range ← draftRange cuNumDraftTokens program.1
  if range.2 - range.1 ≤ program.2 then return output
  let tokenIdx := range.1 + program.2
  let state ← (List.range ((vocabSize + blockSize - 1) / blockSize)).foldlM
    (recoverTile (recoveredProb draftTokenIds draftProbs targetProbs vocabSize tokenIdx)
      (fun vocabOffset => load invQ (program.1 * vocabSize + vocabOffset)) vocabSize blockSize)
    (none, 0)
  store output tokenIdx state.2

/-! ## `rejection_sample` -/

/-- What the sampler knows of the requests' temperatures. -/
structure SamplingMetadata (K : Type) where
  allGreedy : Bool
  allRandom : Bool
  temperature : List K

/-- The metadata of a batch. -/
def SamplingMetadata.make (temperature : List K) : SamplingMetadata K :=
  { allGreedy := temperature.all (· = (GREEDY_TEMPERATURE : K))
    allRandom := temperature.all (· ≠ (GREEDY_TEMPERATURE : K))
    temperature }

/-- `SpecDecodeMetadata`, of the drafts of the requests. -/
structure SpecDecodeMetadata where
  draftTokenIds : List Int
  numDraftTokens : List Nat
  cuNumDraftTokens : List Nat
  /-- `max(self.num_draft_tokens)`, which needs a request. -/
  maxSpecLen : Option Nat

def SpecDecodeMetadata.make (draftTokenIds : List (List Int)) : SpecDecodeMetadata :=
  { draftTokenIds := draftTokenIds.flatten
    numDraftTokens := draftTokenIds.map List.length
    cuNumDraftTokens := cumsum (draftTokenIds.map List.length)
    maxSpecLen := (draftTokenIds.map List.length).max? }

/-- `is_greedy`. -/
def SamplingMetadata.isGreedy (sampling : SamplingMetadata K) : Option (List Bool) :=
  if sampling.allGreedy then none else some (sampling.temperature.map fun t => t = (GREEDY_TEMPERATURE : K))

/-- The output buffer before the kernels. -/
def outputBuffer (batchSize maxSpecLen : Nat) : List Int :=
  List.replicate (batchSize * (maxSpecLen + 1)) PLACEHOLDER_TOKEN_ID

/-- The first half of `rejection_sample`: the output buffer and the greedy kernel, unless all requests are random. -/
def sampleGreedy (order : List Nat) (metadata : SpecDecodeMetadata) (sampling : SamplingMetadata K)
    (targetArgmax bonusTokenIds : List Int) : Option (List Int) := do
  let maxSpecLen ← metadata.maxSpecLen
  let output := outputBuffer metadata.numDraftTokens.length maxSpecLen
  if sampling.allRandom then return output
  else launch (rejectionGreedySampleKernel metadata.cuNumDraftTokens metadata.draftTokenIds targetArgmax bonusTokenIds
    sampling.isGreedy maxSpecLen) order output

/-- `rejection_sample`, with the programs of its two kernels in the orders `order` and `order'`. The probabilities,
the uniform values and the recovered tokens are not used when all requests are greedy. -/
def rejectionSample (order order' : List Nat) (metadata : SpecDecodeMetadata) (sampling : SamplingMetadata K)
    (targetArgmax bonusTokenIds : List Int) (draftProbs : Option (List K)) (targetProbs uniformProbs : List K)
    (recoveredTokenIds : List Int) (vocabSize : Nat) : Option (List Int) := do
  let maxSpecLen ← metadata.maxSpecLen
  let output ← sampleGreedy order metadata sampling targetArgmax bonusTokenIds
  match sampling.isGreedy with
  | none => return output
  | some isGreedy =>
    launch (rejectionRandomSampleKernel metadata.cuNumDraftTokens metadata.draftTokenIds draftProbs targetProbs
      bonusTokenIds recoveredTokenIds uniformProbs isGreedy maxSpecLen vocabSize) order' output

end Random

/-! ## What a program writes -/

/-- The tokens up to the first rejected draft. -/
def upToReject : List (Int × Bool) → List Int
  | [] => []
  | c :: chosen => c.1 :: if c.2 then [] else upToReject chosen

/-- The tokens of a request: those up to the first rejected draft, or all of them and the bonus token. -/
def emitted (chosen : List (Int × Bool)) (bonus : Int) : List Int :=
  upToReject chosen ++ if chosen.any (·.2) then [] else [bonus]

/-- `row` with `l` written over its start. -/
def overwrite (row l : List Int) : List Int := l ++ row.drop l.length

theorem overwrite_nil (row : List Int) : overwrite row [] = row := rfl

theorem overwrite_length {row l : List Int} (h : l.length ≤ row.length) : (overwrite row l).length = row.length := by
  rw [overwrite, List.length_append, List.length_drop]
  omega

theorem overwrite_set {row l : List Int} {a : Int} (h : l.length < row.length) :
    (overwrite row l).set l.length a = overwrite row (l ++ [a]) := by
  rw [overwrite, overwrite, List.set_append_right _ _ le_rfl, Nat.sub_self, List.drop_eq_getElem_cons h,
    List.set_cons_zero, List.length_append, List.length_singleton, List.append_assoc, List.singleton_append]

theorem upToReject_concat (chosen : List (Int × Bool)) (c : Int × Bool) :
    upToReject (chosen ++ [c]) = upToReject chosen ++ if chosen.any (·.2) then [] else [c.1] := by
  induction chosen with
  | nil => simp [upToReject]
  | cons c' chosen ih =>
    obtain ⟨token, reject⟩ := c'
    rw [List.cons_append, upToReject, ih, upToReject, List.any_cons]
    cases reject
    · rw [Bool.false_or]
      rfl
    · rw [Bool.true_or]
      rfl

theorem upToReject_length_le (chosen : List (Int × Bool)) : (upToReject chosen).length ≤ chosen.length := by
  induction chosen with
  | nil => rfl
  | cons c chosen ih =>
    rw [upToReject]
    cases c.2
    · simpa using ih
    · simp

theorem upToReject_length {chosen : List (Int × Bool)} (h : chosen.any (·.2) = false) :
    (upToReject chosen).length = chosen.length := by
  induction chosen with
  | nil => rfl
  | cons c chosen ih =>
    rw [List.any_cons, Bool.or_eq_false_iff] at h
    rw [upToReject, h.1, List.length_cons]
    exact congrArg (· + 1) (ih h.2)

theorem emitted_cons (token : Int) (reject : Bool) (chosen : List (Int × Bool)) (bonus : Int) :
    emitted ((token, reject) :: chosen) bonus = token :: if reject then [] else emitted chosen bonus := by
  rw [emitted, upToReject, List.any_cons]
  cases reject
  · rw [Bool.false_or]
    rfl
  · rw [Bool.true_or]
    rfl

theorem emitted_length_le (chosen : List (Int × Bool)) (bonus : Int) :
    (emitted chosen bonus).length ≤ chosen.length + 1 := by
  have h := upToReject_length_le chosen
  rw [emitted]
  split <;> simp <;> omega

section

variable {choose : Nat → Option (Int × Bool)} {chosen : List (Int × Bool)} {rows : List (List Int)} {row : List Int}
  {i w : Nat}

/-- After `n` positions the row starts with the tokens up to the first rejected one among them. -/
theorem foldlM_samplePosition (hrows : Grid w rows) (hrow : rows[i]? = some row) (hw : chosen.length < w)
    (hchoose : ∀ pos c, chosen[pos]? = some c → choose pos = some c) {n : Nat} (hn : n ≤ chosen.length) :
    (List.range n).foldlM (samplePosition choose (i * w)) (false, rows.flatten) =
      some ((chosen.take n).any (·.2), (rows.set i (overwrite row (upToReject (chosen.take n)))).flatten) := by
  obtain ⟨hi, rfl⟩ := List.getElem?_eq_some_iff.mp hrow
  induction n with
  | zero => simp [upToReject, overwrite_nil]
  | succ n ih =>
    have hget : chosen[n]? = some chosen[n] := List.getElem?_eq_getElem hn
    have htake : chosen.take (n + 1) = chosen.take n ++ [chosen[n]] := by
      rw [List.take_add_one, hget, Option.toList_some]
    rw [List.range_succ, List.foldlM_append, ih (by omega), htake, upToReject_concat, List.any_append]
    rw [Option.bind_eq_bind, Option.bind_some, List.foldlM_cons, samplePosition]
    cases hany : (chosen.take n).any (·.2) with
    | true => simp
    | false =>
      have hlength : (upToReject (chosen.take n)).length = n := by
        rw [upToReject_length hany, List.length_take]
        omega
      have hwidth : rows[i].length = w := hrows _ (List.getElem_mem hi)
      have hgrid : Grid w (rows.set i (overwrite rows[i] (upToReject (chosen.take n)))) :=
        hrows.set ((overwrite_length (by omega)).trans hwidth)
      have hstore := hgrid.store (a := chosen[n].1) (List.getElem?_set_self hi) (show n < w by omega)
      have hset := @overwrite_set rows[i] (upToReject (chosen.take n)) chosen[n].1 (by omega)
      rw [hlength] at hset
      rw [List.set_set, hset] at hstore
      simp [hchoose n _ hget, hstore]

/-- A program writes its tokens over the start of its row and changes no other row. -/
theorem sampleRequest_eq {bonus : Int} (hrows : Grid w rows) (hrow : rows[i]? = some row) (hw : chosen.length < w)
    (hchoose : ∀ pos c, chosen[pos]? = some c → choose pos = some c) :
    sampleRequest choose (some bonus) (i * w) chosen.length rows.flatten =
      some (rows.set i (overwrite row (emitted chosen bonus))).flatten := by
  have hloop := foldlM_samplePosition hrows hrow hw hchoose le_rfl
  obtain ⟨hi, rfl⟩ := List.getElem?_eq_some_iff.mp hrow
  rw [List.take_length] at hloop
  rw [sampleRequest, hloop, emitted]
  cases hany : chosen.any (·.2) with
  | true => simp
  | false =>
    have hlength : (upToReject chosen).length = chosen.length := upToReject_length hany
    have hwidth : rows[i].length = w := hrows _ (List.getElem_mem hi)
    have hgrid : Grid w (rows.set i (overwrite rows[i] (upToReject chosen))) :=
      hrows.set ((overwrite_length (by omega)).trans hwidth)
    have hstore := hgrid.store (a := bonus) (List.getElem?_set_self hi) hw
    have hset := @overwrite_set rows[i] (upToReject chosen) bonus (by omega)
    rw [hlength] at hset
    rw [List.set_set, hset] at hstore
    simpa using hstore

theorem samplePosition_agree {base pos : Nat} {state state' : Bool × List Int} (hpos : pos < w)
    (h : samplePosition choose base state pos = some state') : AgreeOutside base w state.2 state'.2 := by
  unfold samplePosition at h
  split at h
  · cases h
    exact .refl
  · obtain ⟨c, -, h⟩ := Option.bind_eq_some_iff.mp h
    obtain ⟨output, hstore, h⟩ := Option.bind_eq_some_iff.mp h
    cases h
    exact .of_store hstore hpos

theorem foldlM_samplePosition_agree {base n : Nat} {output : List Int} {state : Bool × List Int} (hn : n < w)
    (h : (List.range n).foldlM (samplePosition choose base) (false, output) = some state) :
    AgreeOutside base w output state.2 := by
  induction n generalizing state with
  | zero =>
    cases h
    exact .refl
  | succ n ih =>
    rw [List.range_succ, List.foldlM_append] at h
    obtain ⟨state₁, hfirst, hlast⟩ := Option.bind_eq_some_iff.mp h
    obtain ⟨state₂, hposition, hnil⟩ := Option.bind_eq_some_iff.mp hlast
    cases hnil
    exact (ih (by omega) hfirst).trans (samplePosition_agree (by omega) hposition)

/-- A program writes in its own row only, whatever it chooses. -/
theorem sampleRequest_agree {bonusTokenId : Option Int} {base n : Nat} {output output' : List Int} (hn : n < w)
    (h : sampleRequest choose bonusTokenId base n output = some output') : AgreeOutside base w output output' := by
  obtain ⟨state, hloop, h⟩ := Option.bind_eq_some_iff.mp h
  have hstate := foldlM_samplePosition_agree hn hloop
  split at h
  · cases h
    exact hstate
  · obtain ⟨bonus, -, hstore⟩ := Option.bind_eq_some_iff.mp h
    exact hstate.trans (.of_store hstore hn)

theorem draftRange_cumsum {drafts : List (List Int)} {draft : List Int} (hdraft : drafts[i]? = some draft) :
    draftRange (cumsum (drafts.map List.length)) i = some (rowStart drafts i, rowStart drafts i + draft.length) := by
  have hi : i < (drafts.map List.length).length := by
    rw [List.length_map]
    exact (List.getElem?_eq_some_iff.mp hdraft).1
  rw [draftRange, load_cumsum hi, ← rowStart_succ hdraft]
  cases i with
  | zero => rfl
  | succ i =>
    rw [if_neg (Nat.succ_ne_zero i), Nat.add_sub_cancel, load_cumsum (Nat.lt_of_succ_lt hi)]
    rfl

theorem draftRange_eq_some {drafts : List (List Int)} {range : Nat × Nat}
    (h : draftRange (cumsum (drafts.map List.length)) i = some range) :
    ∃ draft, drafts[i]? = some draft ∧ range.2 - range.1 = draft.length := by
  cases hdraft : drafts[i]? with
  | some draft =>
    rw [draftRange_cumsum hdraft] at h
    cases h
    exact ⟨draft, rfl, Nat.add_sub_cancel_left _ _⟩
  | none =>
    have hnone : load (cumsum (drafts.map List.length)) i = none := by
      rw [load, List.getElem?_eq_none_iff, cumsum, cumsumFrom_length, List.length_map]
      exact List.getElem?_eq_none_iff.mp hdraft
    simp [draftRange, hnone] at h

end

/-! ## The parsed output -/

/-- `parse_output`, without log-probabilities. -/
def parseOutput (outputTokenIds : List (List Int)) (vocabSize : Nat) (discardReqIndices : List Nat) :
    List (List Int) :=
  outputTokenIds.mapIdx fun i row =>
    if i ∈ discardReqIndices then [] else row.filter fun id => id ≠ PLACEHOLDER_TOKEN_ID ∧ id < vocabSize

end Yuan.SpecDecode
