import Yuan.Worker.Slots

/-!
# What the operations do to slots

One lemma for each operation of the batch: which slots it leaves alone, and what it does to the
others. Where an operation forgets a column, the condition under which that does no harm is a
hypothesis here.
-/

namespace Yuan.Worker

open InputBatch (RequestUpdate)

namespace InputBatch

variable {E G : Type} {b b' : InputBatch E G} {b'' : InputBatch E G} {α : Type}

/-- The lists indexed by slot fit together; behind the slots in use there are no spec tokens. -/
structure Shape (b : InputBatch E G) : Prop where
  outputs : b.reqOutputTokenIds.length = b.reqIds.length
  specs : b.reqIds.length ≤ b.specTokenIds.length
  unused : ∀ i, b.reqIds.length ≤ i → b.specAt i = []

/-- The parts of a batch that no operation changes. -/
structure SameConfig (b b' : InputBatch E G) : Prop where
  isPoolingModel : b'.isPoolingModel = b.isPoolingModel
  maxNumReqs : b'.maxNumReqs = b.maxNumReqs
  vocabSize : b'.vocabSize = b.vocabSize
  blocksPerKVBlock : b'.blockTable.blocksPerKVBlock = b.blockTable.blocksPerKVBlock

theorem SameConfig.refl (b : InputBatch E G) : SameConfig b b := ⟨rfl, rfl, rfl, rfl⟩

theorem SameConfig.trans (h : SameConfig b b') (h' : SameConfig b' b'') : SameConfig b b'' :=
  ⟨h'.1.trans h.1, h'.2.trans h.2, h'.3.trans h.3, h'.4.trans h.4⟩

/-- The requests sit where they sat. -/
structure SameOccupants (b b' : InputBatch E G) : Prop where
  config : SameConfig b b'
  reqIds : b'.reqIds = b.reqIds
  reqIdToIndex : b'.reqIdToIndex = b.reqIdToIndex
  batchUpdateBuilder : b'.batchUpdateBuilder = b.batchUpdateBuilder

/-- Only columns changed, and these only at slot `i`. -/
structure ChangedAt (b b' : InputBatch E G) (i : Nat) : Prop where
  same : SameOccupants b b'
  outputs : b'.reqOutputTokenIds = b.reqOutputTokenIds
  specs : b'.specTokenIds = b.specTokenIds
  slot_ne : ∀ k, k ≠ i → b'.slot k = b.slot k

theorem SameOccupants.trans (h : SameOccupants b b') (h' : SameOccupants b' b'') : SameOccupants b b'' :=
  ⟨h.config.trans h'.config, h'.2.trans h.2, h'.3.trans h.3, h'.4.trans h.4⟩

theorem ChangedAt.trans {i : Nat} (h : ChangedAt b b' i) (h' : ChangedAt b' b'' i) : ChangedAt b b'' i :=
  ⟨h.same.trans h'.same, h'.2.trans h.2, h'.3.trans h.3,
    fun k hk => (h'.slot_ne k hk).trans (h.slot_ne k hk)⟩

theorem ChangedAt.shape {i : Nat} (h : ChangedAt b b' i) (hshape : Shape b) : Shape b' := by
  refine ⟨?_, ?_, ?_⟩
  · rw [h.outputs, h.same.reqIds]
    exact hshape.outputs
  · rw [h.specs, h.same.reqIds]
    exact hshape.specs
  · intro k hk
    rw [h.same.reqIds] at hk
    rw [specAt, h.specs]
    exact hshape.unused k hk

theorem occupant_lt {i : Nat} {id : String} (h : b.occupant i = some id) : i < b.reqIds.length := by
  by_contra hge
  rw [occupant, List.getD_eq_default _ _ (by omega)] at h
  cases h

/-! ## Updates of one request -/

theorem updateSlot_eq_ok {i : Nat} {u : RequestUpdate} (h : b.updateSlot i u = .ok b')
    (hshape : Shape b) (hi : i < b.reqIds.length) :
    SameOccupants b b' ∧ Shape b' ∧ ∀ k, k ≠ i → b'.slot k = b.slot k := by
  cases u with
  | computedTokens n =>
    cases h
    refine ⟨⟨⟨rfl, rfl, rfl, rfl⟩, rfl, rfl, rfl⟩, ⟨hshape.1, hshape.2, hshape.3⟩, ?_⟩
    intro k hk
    simp only [slot, Function.update_of_ne hk]
    rfl
  | newBlocks blockIds =>
    obtain ⟨blockTable, htable, hok⟩ := bind_eq_ok.mp h
    cases hok
    obtain ⟨-, hrows, hgroups⟩ := MultiGroupBlockTable.appendRow_eq_ok htable
    refine ⟨⟨⟨rfl, rfl, rfl, hgroups⟩, rfl, rfl, rfl⟩, ⟨hshape.1, hshape.2, hshape.3⟩, ?_⟩
    intro k hk
    simp only [slot, hrows k hk]
    rfl
  | newTokens start tokenIds mark =>
    cases h
    refine ⟨⟨⟨rfl, rfl, rfl, rfl⟩, rfl, rfl, rfl⟩, ⟨hshape.1, hshape.2, hshape.3⟩, ?_⟩
    intro k hk
    simp only [slot, Function.update_of_ne hk]
    cases mark
    · rfl
    · simp only [if_true, Function.update_of_ne hk]
      rfl
  | discardTokens numTokens =>
    cases h
    refine ⟨⟨⟨rfl, rfl, rfl, rfl⟩, rfl, rfl, rfl⟩, ⟨hshape.1, hshape.2, hshape.3⟩, ?_⟩
    intro k hk
    simp only [slot, Function.update_of_ne hk]
    rfl
  | specTokens tokenIds =>
    cases h
    have hlt : i < b.specTokenIds.length := lt_of_lt_of_le hi hshape.specs
    have hspec : ∀ k, k ≠ i → (b.specTokenIds.set i tokenIds).getD k [] = b.specTokenIds.getD k [] := by
      intro k hk
      rw [getD_set hlt, Function.update_of_ne hk]
    refine ⟨⟨⟨rfl, rfl, rfl, rfl⟩, rfl, rfl, rfl⟩, ⟨hshape.1, ?_, ?_⟩, ?_⟩
    · simpa only [List.length_set] using hshape.specs
    · intro k hk
      have hne : k ≠ i := (lt_of_lt_of_le hi hk).ne'
      exact (hspec k hne).trans (hshape.unused k hk)
    · intro k hk
      simp only [slot, specAt, Function.update_of_ne hk, hspec k hk]
      rfl
  | acceptedTokens n =>
    cases h
    refine ⟨⟨⟨rfl, rfl, rfl, rfl⟩, rfl, rfl, rfl⟩, ⟨hshape.1, hshape.2, hshape.3⟩, ?_⟩
    intro k hk
    simp only [slot, samplingSlot, Function.update_of_ne hk]
    rfl

/-- The updated slot holds what the update wrote. -/
theorem updateSlot_heldBy {i : Nat} {u : RequestUpdate} {w : Written E G}
    (h : b.updateSlot i u = .ok b') (hshape : Shape b) (hi : i < b.reqIds.length) (hheld : w.HeldBy (b.slot i)) :
    (w.update b.blockTable.blocksPerKVBlock u).HeldBy (b'.slot i) := by
  obtain ⟨h1, h2, h3, h4, h5, h6, h7, h8, h9, h10, h11, h12⟩ := hheld
  cases u with
  | computedTokens n =>
    cases h
    exact ⟨h1, h2, h3, h4, h5, h6, Function.update_self .., h8, h9, h10, h11, h12⟩
  | newBlocks blockIds =>
    obtain ⟨blockTable, htable, hok⟩ := bind_eq_ok.mp h
    cases hok
    obtain ⟨hself, -, -⟩ := MultiGroupBlockTable.appendRow_eq_ok htable
    refine ⟨h1, h2, h3, h4, h5, h6, h7, h8, ?_, h10, h11, h12⟩
    show blockTable.rows i = _
    rw [hself]
    show List.zipWith _ (b.slot i).blocks _ = _
    rw [h9]
    rfl
  | newTokens start tokenIds mark =>
    cases h
    refine ⟨h1, ?_, ?_, h4, Function.update_self .., h6, h7, h8, h9, h10, h11, h12⟩
    · simp only [slot, Function.update_self]
      exact h2.write start tokenIds
    · simp only [slot]
      cases mark with
      | true =>
        simp only [if_true, Function.update_self]
        have hwrite := h3.write start (List.replicate tokenIds.length true)
        rwa [List.map_replicate] at hwrite
      | false =>
        exact (h3.cut start).append_unknown tokenIds.length
  | discardTokens numTokens =>
    cases h
    exact ⟨h1, h2.cut numTokens, h3.cut numTokens, h4, Function.update_self .., h6, h7, h8, h9, h10,
      h11, h12⟩
  | specTokens tokenIds =>
    cases h
    have hlt : i < b.specTokenIds.length := lt_of_lt_of_le hi hshape.specs
    refine ⟨h1, ?_, h3.cut _, h4, h5, h6, h7, ?_, h9, h10, h11, h12⟩
    · have hnospec : b.numTokensNoSpec i = w.numTokensNoSpec := h5
      simp only [slot, Function.update_self, hnospec]
      exact h2.write w.numTokensNoSpec tokenIds
    · show (b.specTokenIds.set i tokenIds).getD i [] = tokenIds
      rw [getD_set hlt, Function.update_self]
  | acceptedTokens n =>
    cases h
    refine ⟨h1, h2, h3, h4, h5, h6, h7, h8, h9, h10, h11, ?_⟩
    intro p hp
    obtain ⟨q, hq, rfl⟩ := Option.map_eq_some_iff.mp hp
    rw [← h12 q hq]
    simp only [slot, samplingSlot, Function.update_self]
    rfl

/-! ## Removing -/

/-- No generator and no bad words are left. -/
structure Vacant (s : Slot E G) : Prop where
  generator : s.sampling.generator = none
  badWordsTokenIds : s.sampling.badWordsTokenIds = none

/-- A request was taken out of slot `i`. -/
structure RemovedAt (b b' : InputBatch E G) (reqId : String) (i : Nat) : Prop where
  index : b.reqIdToIndex.get? reqId = some i
  builder : b.batchUpdateBuilder.removedAppend i = .ok b'.batchUpdateBuilder
  reqIds : b'.reqIds = b.reqIds.set i none
  reqIdToIndex : b'.reqIdToIndex = b.reqIdToIndex.erase reqId
  config : SameConfig b b'
  shape : Shape b'
  slot_ne : ∀ k, k ≠ i → b'.slot k = b.slot k
  vacant : b.isPoolingModel = false → Vacant (b'.slot i)

theorem removeRequest_eq_ok {reqId : String} {r : Option Nat}
    (h : b.removeRequest reqId = .ok (r, b')) (hshape : Shape b)
    (hlt : ∀ i, b.reqIdToIndex.get? reqId = some i → i < b.reqIds.length) :
    (b' = b ∧ r = none ∧ b.reqIdToIndex.get? reqId = none) ∨ ∃ i, r = some i ∧ RemovedAt b b' reqId i := by
  unfold removeRequest at h
  split at h
  · next hnone =>
      cases h
      exact Or.inl ⟨rfl, rfl, hnone⟩
  · next i hi =>
      obtain ⟨builder, hbuilder, h⟩ := bind_eq_ok.mp h
      have hi' := hlt i hi
      have hspecs : i < b.specTokenIds.length := lt_of_lt_of_le hi' hshape.specs
      have houtputs : i < b.reqOutputTokenIds.length := hshape.outputs ▸ hi'
      have hlora : ∀ k, k ≠ i →
          (if b.requestLoraMapping i ≠ 0 then Function.update b.requestLoraMapping i 0
            else b.requestLoraMapping) k = b.requestLoraMapping k := by
        intro k hk
        split
        · exact Function.update_of_ne hk _ _
        · rfl
      have hshape' : (b.reqOutputTokenIds.set i none).length = (b.reqIds.set i none).length ∧
          (b.reqIds.set i none).length ≤ (b.specTokenIds.set i []).length := by
        simp only [List.length_set]
        exact ⟨hshape.outputs, hshape.specs⟩
      have hunused : ∀ k, (b.reqIds.set i none).length ≤ k → (b.specTokenIds.set i []).getD k [] = [] := by
        intro k hk
        rw [List.length_set] at hk
        rw [getD_set hspecs, Function.update_of_ne (lt_of_lt_of_le hi' hk).ne']
        exact hshape.unused k hk
      right
      refine ⟨i, ?_⟩
      cases hpooling : b.isPoolingModel with
      | true =>
        rw [if_pos hpooling] at h
        cases h
        refine ⟨rfl, hi, hbuilder, rfl, rfl, ⟨rfl, rfl, rfl, rfl⟩,
          ⟨hshape'.1, hshape'.2, hunused⟩, ?_, ?_⟩
        · intro k hk
          simp only [slot, specAt, getD_set hspecs, getD_set houtputs, Function.update_of_ne hk,
            hlora k hk]
          rfl
        · intro hfalse
          rw [hpooling] at hfalse
          cases hfalse
      | false =>
        rw [if_neg (by rw [hpooling]; decide)] at h
        cases h
        refine ⟨rfl, hi, hbuilder, rfl, rfl, ⟨rfl, rfl, rfl, rfl⟩,
          ⟨hshape'.1, hshape'.2, hunused⟩, ?_, ?_⟩
        · intro k hk
          simp only [slot, samplingSlot, maskRow, specAt, getD_set hspecs, getD_set houtputs,
            Function.update_of_ne hk, hlora k hk,
            rowOfMask_map_update_of_ne _ _ hk]
        · intro _
          exact ⟨Function.update_self .., Function.update_self ..⟩

/-! ## Adding -/

section

variable {request : CachedRequestState E G} {i : Nat}

theorem slot_addEntry_ne (hshape : Shape b) (hi : i ≤ b.reqIds.length) {k : Nat} (hk : k ≠ i) :
    (b.addEntry i request).slot k = b.slot k := by
  unfold addEntry
  split
  · next heq =>
      have hk' : k ≠ b.reqOutputTokenIds.length := by rwa [hshape.outputs, ← heq]
      have hspec : (b.specTokenIds ++ [[]]).getD k [] = b.specTokenIds.getD k [] := by
        rw [getD_append_singleton]
        rcases eq_or_ne k b.specTokenIds.length with rfl | hne
        · rw [Function.update_self, List.getD_eq_default _ _ (le_refl _)]
        · rw [Function.update_of_ne hne]
      simp only [slot, specAt, getD_append_singleton, Function.update_of_ne hk', ← hspec]
      rfl
  · next hne =>
      have hlt : i < b.reqIds.length := lt_of_le_of_ne hi hne
      have houtputs : i < b.reqOutputTokenIds.length := hshape.outputs ▸ hlt
      simp only [slot, specAt, getD_set houtputs, getD_set (lt_of_lt_of_le hlt hshape.specs),
        Function.update_of_ne hk]
      rfl

theorem slot_addEntry_self (hshape : Shape b) (hi : i ≤ b.reqIds.length) :
    (b.addEntry i request).slot i =
      { b.slot i with outputTokenIds := some request.outputTokenIds, specTokenIds := [] } := by
  unfold addEntry
  split
  · next heq =>
      have hspec : (b.specTokenIds ++ [[]]).getD i [] = [] := by
        rw [getD_append_singleton]
        rcases eq_or_ne i b.specTokenIds.length with heq' | hne
        · rw [heq', Function.update_self]
        · rw [Function.update_of_ne hne]
          exact hshape.unused i heq.ge
      have houtput : (b.reqOutputTokenIds ++ [some request.outputTokenIds]).getD i none =
          some request.outputTokenIds := by
        rw [getD_append_singleton, hshape.outputs, ← heq, Function.update_self]
      simp only [slot, specAt, hspec, houtput]
      rfl
  · next hne =>
      have hlt : i < b.reqIds.length := lt_of_le_of_ne hi hne
      have houtputs : i < b.reqOutputTokenIds.length := hshape.outputs ▸ hlt
      simp only [slot, specAt, getD_set houtputs, getD_set (lt_of_lt_of_le hlt hshape.specs),
        Function.update_self]
      rfl

theorem shape_addEntry (hshape : Shape b) (hi : i ≤ b.reqIds.length) : Shape (b.addEntry i request) := by
  unfold addEntry
  split
  · refine ⟨?_, ?_, ?_⟩
    · simpa using hshape.outputs
    · simpa using hshape.specs
    · intro k hk
      have hk' : b.reqIds.length ≤ k := by
        simp only [List.length_append] at hk
        omega
      show (b.specTokenIds ++ [[]]).getD k [] = []
      rw [getD_append_singleton]
      rcases eq_or_ne k b.specTokenIds.length with rfl | hne
      · exact Function.update_self ..
      · rw [Function.update_of_ne hne]
        exact hshape.unused k hk'
  · next hne =>
      have hlt : i < b.reqIds.length := lt_of_le_of_ne hi hne
      refine ⟨?_, ?_, ?_⟩
      · simpa using hshape.outputs
      · simpa using hshape.specs
      · intro k hk
        simp only [List.length_set] at hk
        show (b.specTokenIds.set i []).getD k [] = []
        rw [getD_set (lt_of_lt_of_le hlt hshape.specs), Function.update_of_ne (lt_of_lt_of_le hlt hk).ne']
        exact hshape.unused k hk

theorem changedAt_addTokens (n : Nat) : ChangedAt b (b.addTokens i n request) i := by
  refine ⟨⟨⟨rfl, rfl, rfl, rfl⟩, rfl, rfl, rfl⟩, rfl, rfl, ?_⟩
  intro k hk
  simp only [slot, addTokens, Function.update_of_ne hk]
  cases request.promptEmbeds with
  | none => rfl
  | some embeds =>
    simp only [Function.update_of_ne hk]
    rfl

theorem slot_addTokens_self (n : Nat) :
    (b.addTokens i n request).slot i =
      { b.slot i with
        numPromptTokens := n
        tokenIds := tokenRow (b.slot i).tokenIds n request
        isTokenIds := isTokenRow (b.slot i).isTokenIds n request
        promptEmbeds := request.promptEmbeds.or (b.slot i).promptEmbeds
        numTokensNoSpec := n + request.outputTokenIds.length
        numComputedTokens := request.numComputedTokens } := by
  simp only [slot, addTokens, Function.update_self]
  cases request.promptEmbeds with
  | none => rfl
  | some embeds =>
    simp only [Function.update_self]
    rfl

theorem rowOfMask_getD_update_of_ne (mask : Option (Nat → Nat → Bool)) (row : Nat → Bool) {k : Nat} (hk : k ≠ i) :
    rowOfMask (some (Function.update (mask.getD fun _ _ => false) i row)) k = rowOfMask mask k := by
  have hrow : rowOfMask (some (Function.update (mask.getD fun _ _ => false) i row)) k =
      (mask.getD fun _ _ => false) k := Function.update_of_ne hk _ _
  rw [hrow]
  cases mask <;> rfl

theorem slot_addSamplingParams_ne (params : SamplingParams) (generator : Option G) {k : Nat}
    (hk : k ≠ i) : (b.addSamplingParams i params generator).slot k = b.slot k := by
  have hmask : rowOfMask (b.addSamplingParams i params generator).allowedTokenIdsMaskCpu k =
      rowOfMask b.allowedTokenIdsMaskCpu k := by
    simp only [addSamplingParams]
    split
    · rfl
    · exact rowOfMask_getD_update_of_ne _ _ hk
  have hgenerator : (b.addSamplingParams i params generator).generators k = b.generators k := by
    cases generator with
    | none => rfl
    | some g => exact Function.update_of_ne hk _ _
  have hbad : (b.addSamplingParams i params generator).badWordsTokenIds k = b.badWordsTokenIds k := by
    simp only [addSamplingParams]
    split
    · rfl
    · exact Function.update_of_ne hk _ _
  simp only [slot, samplingSlot, maskRow, hmask, hgenerator, hbad]
  simp only [addSamplingParams, Function.update_of_ne hk]
  rfl

/-- The sampling columns of a slot without a generator, bad words or masked tokens. -/
theorem slot_addSamplingParams_self (params : SamplingParams) (generator : Option G)
    (hvacant : Vacant (b.slot i))
    (hmask : params.allowedTokenIds = [] → (b.slot i).sampling.mask = fun _ => false) :
    (b.addSamplingParams i params generator).slot i =
      { b.slot i with sampling :=
          { CachedRequestState.samplingSlot b.vocabSize params generator with
            numAcceptedTokens := b.numAcceptedTokensCpu i } } := by
  have hmask' : rowOfMask (b.addSamplingParams i params generator).allowedTokenIdsMaskCpu i =
      if params.allowedTokenIds = [] then fun _ => false else allowedRow params.allowedTokenIds := by
    simp only [addSamplingParams]
    split
    · next hnil => exact hmask hnil
    · exact Function.update_self ..
  have hgenerator : (b.addSamplingParams i params generator).generators i = generator := by
    cases generator with
    | none => exact hvacant.generator
    | some g => exact Function.update_self ..
  have hbad : (b.addSamplingParams i params generator).badWordsTokenIds i =
      if params.badWordsTokenIds = [] then none else some params.badWordsTokenIds := by
    simp only [addSamplingParams]
    split
    · exact hvacant.badWordsTokenIds
    · exact Function.update_self ..
  simp only [slot, samplingSlot, maskRow, hmask', hgenerator, hbad]
  simp only [addSamplingParams, Function.update_self]
  rfl

theorem shows_tokenRow (row : Nat → Int) (request : CachedRequestState E G) :
    Row.Shows (tokenRow row request.numPromptTokens request)
      (request.promptCells ++ request.outputTokenIds.map some) := by
  have hlen := request.length_promptCells
  unfold tokenRow
  cases hids : request.promptTokenIds with
  | none =>
    have hprompt : Row.Shows row request.promptCells := by
      unfold CachedRequestState.promptCells
      rw [hids]
      exact (Row.shows_nil row).append_unknown _
    have hwrite := hprompt.write request.numPromptTokens request.outputTokenIds
    rwa [Row.cut_of_length_eq hlen] at hwrite
  | some ids =>
    have hprompt : Row.Shows (Row.write row 0 ids) request.promptCells := by
      unfold CachedRequestState.promptCells
      rw [hids]
      exact (Row.shows_nil row).write 0 ids
    have hwrite := hprompt.write request.numPromptTokens request.outputTokenIds
    rwa [Row.cut_of_length_eq hlen] at hwrite

theorem shows_isTokenRow (row : Nat → Bool) (request : CachedRequestState E G) :
    Row.Shows (isTokenRow row request.numPromptTokens request)
      (List.replicate request.numPromptTokens (some request.promptTokenIds.isSome) ++
        List.replicate request.outputTokenIds.length (some true)) := by
  have hprompt := (Row.shows_nil row).write 0
    (List.replicate request.numPromptTokens request.promptTokenIds.isSome)
  rw [List.map_replicate] at hprompt
  have hwrite := hprompt.write request.numPromptTokens
    (List.replicate request.outputTokenIds.length true)
  rwa [Row.cut_of_length_eq (by simp), List.map_replicate] at hwrite

/-- The slot that the next request is added at. -/
def nextIndex (b : InputBatch E G) : Nat := b.batchUpdateBuilder.popRemoved.1.getD b.numReqs

/-- The builder after a request was registered. -/
def registered (b : InputBatch E G) (request : CachedRequestState E G) : BatchUpdateBuilder :=
  { b.batchUpdateBuilder.popRemoved.2 with
    batchChanged := true
    added := match request.samplingParams with
      | none => b.batchUpdateBuilder.popRemoved.2.added
      | some params => b.batchUpdateBuilder.popRemoved.2.added ++
        [⟨b.nextIndex, params, request.promptTokenIds, request.outputTokenIds⟩] }

/-- The slot that a request is added at holds nothing that `add_request` does not overwrite. -/
structure Blank (s : Slot E G) (request : CachedRequestState E G) : Prop where
  promptEmbeds : request.promptEmbeds = none → s.promptEmbeds = none
  mask : ∀ params ∈ request.samplingParams,
    params.allowedTokenIds = [] → s.sampling.mask = fun _ => false

/-- A request was put into slot `i`. -/
structure AddedAt (b b' : InputBatch E G) (request : CachedRequestState E G) (i : Nat) : Prop where
  index : i = b.nextIndex
  lt_max : i < b.maxNumReqs
  builder : b'.batchUpdateBuilder = b.registered request
  reqIds : b'.reqIds = (b.addEntry i request).reqIds
  reqIdToIndex : b'.reqIdToIndex = b.reqIdToIndex.set request.reqId i
  config : SameConfig b b'
  shape : Shape b'
  params : request.samplingParams ≠ none ∨ request.poolingParams ≠ none
  slot_ne : ∀ k, k ≠ i → b'.slot k = b.slot k
  heldBy : Blank (b.slot i) request → (request.samplingParams ≠ none → Vacant (b.slot i)) →
    (request.written b.vocabSize b.blockTable.blocksPerKVBlock).HeldBy (b'.slot i)

theorem addParams_eq_ok (h : b.addParams i request = .ok b') :
    (∃ params, request.samplingParams = some params ∧
      b' = b.addSamplingParams i params request.generator) ∨
    (∃ params, request.samplingParams = none ∧ request.poolingParams = some params ∧
      b' = { b with logitsProcessingNeedsTokenIds :=
              Function.update b.logitsProcessingNeedsTokenIds i params.requiresTokenIds }) := by
  unfold addParams at h
  split at h
  · next params hsampling =>
      exact Or.inl ⟨params, hsampling, (Except.ok.inj h).symm⟩
  · next params hsampling hpooling =>
      exact Or.inr ⟨params, hsampling, hpooling, (Except.ok.inj h).symm⟩
  · cases h

theorem changedAt_addParams (h : b.addParams i request = .ok b') : ChangedAt b b' i := by
  rcases addParams_eq_ok h with ⟨params, -, rfl⟩ | ⟨params, -, -, rfl⟩
  · exact ⟨⟨⟨rfl, rfl, rfl, rfl⟩, rfl, rfl, rfl⟩, rfl, rfl,
      fun k hk => slot_addSamplingParams_ne params _ hk⟩
  · refine ⟨⟨⟨rfl, rfl, rfl, rfl⟩, rfl, rfl, rfl⟩, rfl, rfl, ?_⟩
    intro k hk
    simp only [slot, Function.update_of_ne hk]
    rfl

theorem changedAt_addRow {blockTable : MultiGroupBlockTable} {blockIds : List (List Nat)}
    (h : b.blockTable.addRow blockIds i = .ok blockTable) :
    ChangedAt b { b with blockTable } i := by
  obtain ⟨-, hrows, hgroups⟩ := MultiGroupBlockTable.addRow_eq_ok h
  refine ⟨⟨⟨rfl, rfl, rfl, hgroups⟩, rfl, rfl, rfl⟩, rfl, rfl, ?_⟩
  intro k hk
  simp only [slot, hrows k hk]
  rfl

/-- The last writes of `add_request`. -/
theorem changedAt_accepted (b : InputBatch E G) (i lora : Nat) :
    ChangedAt b { b with
      numAcceptedTokensCpu := Function.update b.numAcceptedTokensCpu i 1
      requestLoraMapping := Function.update b.requestLoraMapping i lora } i := by
  refine ⟨⟨⟨rfl, rfl, rfl, rfl⟩, rfl, rfl, rfl⟩, rfl, rfl, ?_⟩
  intro k hk
  simp only [slot, samplingSlot, Function.update_of_ne hk]
  rfl

theorem addEntry_same (b : InputBatch E G) (i : Nat) (request : CachedRequestState E G) :
    SameConfig b (b.addEntry i request) ∧ (b.addEntry i request).reqIdToIndex = b.reqIdToIndex.set request.reqId i ∧
      (b.addEntry i request).batchUpdateBuilder = b.batchUpdateBuilder := by
  unfold addEntry
  split <;> exact ⟨⟨rfl, rfl, rfl, rfl⟩, rfl, rfl⟩

/-- The stages of `add_request`. -/
theorem addRequest_stages (h : b.addRequest request = .ok (i, b')) :
    i = b.nextIndex ∧ b.nextIndex < b.maxNumReqs ∧ ∃ blockTable b4,
      let b1 := { b with batchUpdateBuilder := b.registered request }.addEntry i request
      let b2 := b1.addTokens i request.numPromptTokens request
      b2.blockTable.addRow request.blockIds i = .ok blockTable ∧
      { b2 with blockTable }.addParams i request = .ok b4 ∧
      b' = { b4 with
        numAcceptedTokensCpu := Function.update b4.numAcceptedTokensCpu i 1
        requestLoraMapping := Function.update b4.requestLoraMapping i (request.loraIntId.getD 0) } := by
  obtain ⟨⟨j, b0⟩, hregister, h⟩ := bind_eq_ok.mp h
  obtain ⟨_, hassert, hregister⟩ := bind_eq_ok.mp hregister
  have hlt : b.nextIndex < b.maxNumReqs := of_decide_eq_true (pyAssert_eq_ok.mp hassert)
  obtain ⟨hj, hb0⟩ := ok_pair hregister
  obtain ⟨n, hn, h⟩ := bind_eq_ok.mp h
  obtain ⟨blockTable, htable, h⟩ := bind_eq_ok.mp h
  obtain ⟨b4, hparams, h⟩ := bind_eq_ok.mp h
  obtain ⟨hij, hb'⟩ := ok_pair h
  have hj' : j = b.nextIndex := hj.symm
  have hb0' : b0 = { b with batchUpdateBuilder := b.registered request } := hb0.symm
  rw [CachedRequestState.lengthFrom_eq_ok hn] at htable hparams
  subst hij hj' hb0'
  exact ⟨rfl, hlt, blockTable, b4, htable, hparams, hb'.symm⟩

theorem addRequest_eq_ok (h : b.addRequest request = .ok (i, b')) (hshape : Shape b)
    (hi : b.nextIndex ≤ b.reqIds.length) : AddedAt b b' request i := by
  obtain ⟨hnext, hlt, blockTable, b4, htable, hparams, hb'⟩ := addRequest_stages h
  subst hnext
  set i := b.nextIndex
  set b0 : InputBatch E G := { b with batchUpdateBuilder := b.registered request } with hb0
  set b1 := b0.addEntry i request with hb1
  set b2 := b1.addTokens i request.numPromptTokens request with hb2
  have hshape0 : Shape b0 := ⟨hshape.1, hshape.2, hshape.3⟩
  have hshape1 : Shape b1 := shape_addEntry hshape0 hi
  obtain ⟨hconfig, hdict, hbuilder⟩ := addEntry_same b0 i request
  have hchanged : ChangedAt b1 b' i := by
    have h2 : ChangedAt b1 b2 i := changedAt_addTokens request.numPromptTokens
    have h4 := (h2.trans (changedAt_addRow htable)).trans (changedAt_addParams hparams)
    rw [hb']
    exact h4.trans (changedAt_accepted b4 i _)
  have hconfig' : SameConfig b b1 := ⟨hconfig.1, hconfig.2, hconfig.3, hconfig.4⟩
  have hkind : request.samplingParams ≠ none ∨ request.poolingParams ≠ none := by
    rcases addParams_eq_ok hparams with ⟨params, hparams, -⟩ | ⟨params, -, hparams, -⟩
    · exact Or.inl (by rw [hparams]; nofun)
    · exact Or.inr (by rw [hparams]; nofun)
  refine ⟨rfl, hlt, ?_, ?_, ?_, hconfig'.trans hchanged.same.config, hchanged.shape hshape1, hkind, ?_,
    ?_⟩
  · exact hchanged.same.batchUpdateBuilder.trans hbuilder
  · rw [hchanged.same.reqIds, hb1]
    unfold addEntry
    split <;> rfl
  · exact hchanged.same.reqIdToIndex.trans hdict
  · intro k hk
    rw [hchanged.slot_ne k hk]
    exact slot_addEntry_ne hshape0 hi hk
  · intro hblank hvacant
    -- the slot after the tokens were written
    have hslot2 : b2.slot i = _ := slot_addTokens_self request.numPromptTokens
    rw [slot_addEntry_self hshape0 hi] at hslot2
    have hslot' : b'.slot i = { b4.slot i with
        lora := request.loraIntId.getD 0
        sampling := { (b4.slot i).sampling with numAcceptedTokens := 1 } } := by
      rw [hb']
      simp only [slot, samplingSlot, Function.update_self]
      rfl
    have hrow : blockTable.rows i =
        MultiGroupBlockTable.kernelRows b.blockTable.blocksPerKVBlock request.blockIds := by
      rw [(MultiGroupBlockTable.addRow_eq_ok htable).1]
      exact congrArg (MultiGroupBlockTable.kernelRows · request.blockIds) hconfig.blocksPerKVBlock
    have hembeds : (b2.slot i).promptEmbeds = request.promptEmbeds := by
      rw [hslot2]
      cases hreq : request.promptEmbeds with
      | none => exact hblank.promptEmbeds hreq
      | some embeds => rfl
    have htokens : Row.Shows (b2.slot i).tokenIds
        (request.promptCells ++ request.outputTokenIds.map some) := by
      rw [hslot2]
      exact shows_tokenRow _ request
    have hisTokens : Row.Shows (b2.slot i).isTokenIds
        (List.replicate request.numPromptTokens (some request.promptTokenIds.isSome) ++
          List.replicate request.outputTokenIds.length (some true)) := by
      rw [hslot2]
      exact shows_isTokenRow _ request
    have houtputs := congrArg Slot.outputTokenIds hslot2
    have hnoSpec := congrArg Slot.numTokensNoSpec hslot2
    have hprompt := congrArg Slot.numPromptTokens hslot2
    have hcomputed := congrArg Slot.numComputedTokens hslot2
    have hspecs := congrArg Slot.specTokenIds hslot2
    rcases addParams_eq_ok hparams with ⟨params, hsampling, hb4⟩ | ⟨params, hnone, hpooling, hb4⟩
    · have hslot4 := slot_addSamplingParams_self (b := { b2 with blockTable }) (i := i) params
        request.generator
        (by
          have hv := hvacant (by rw [hsampling]; nofun)
          refine ⟨?_, ?_⟩
          · exact (congrArg (fun s => s.sampling.generator) hslot2).trans hv.generator
          · exact (congrArg (fun s => s.sampling.badWordsTokenIds) hslot2).trans hv.badWordsTokenIds)
        (by
          intro hnil
          exact (congrArg (fun s => s.sampling.mask) hslot2).trans
            (hblank.mask params hsampling hnil))
      rw [hslot', hb4, hslot4]
      refine ⟨houtputs, htokens, hisTokens, hembeds, hnoSpec, hprompt, hcomputed, hspecs, hrow, rfl, ?_, ?_⟩
      · intro flag hflag
        simp only [CachedRequestState.written, hsampling] at hflag
        cases hflag
      · intro p hp
        simp only [CachedRequestState.written, hsampling] at hp
        cases hp
        have hvocab : b2.vocabSize = b.vocabSize := hconfig.vocabSize
        simp only [hvocab]
        rfl
    · have hslot4 : b4.slot i = { b2.slot i with
          blocks := blockTable.rows i, needsTokenIds := params.requiresTokenIds } := by
        rw [hb4]
        simp only [slot, Function.update_self]
        rfl
      rw [hslot', hslot4]
      refine ⟨houtputs, htokens, hisTokens, hembeds, hnoSpec, hprompt, hcomputed, hspecs, hrow, rfl, ?_, ?_⟩
      · intro flag hflag
        simp only [CachedRequestState.written, hnone, hpooling] at hflag
        cases hflag
        rfl
      · intro p hp
        simp only [CachedRequestState.written, hnone] at hp
        cases hp

end

/-! ## Moving down -/

theorem moveEntry_tgt (obj : Nat → Option α) (src tgt : Nat) (htgt : obj src = none → obj tgt = none) :
    moveEntry obj src tgt tgt = obj src := by
  unfold moveEntry
  cases hsrc : obj src with
  | none => exact htgt hsrc
  | some v => exact Function.update_self ..

theorem moveEntry_src (obj : Nat → Option α) {src tgt : Nat} (h : src ≠ tgt) : moveEntry obj src tgt src = none := by
  unfold moveEntry
  cases hsrc : obj src with
  | none => exact hsrc
  | some v =>
    show Function.update (Function.update obj src none) tgt (some v) src = none
    rw [Function.update_of_ne h, Function.update_self]

theorem moveEntry_ne (obj : Nat → Option α) {src tgt k : Nat} (hsrc : k ≠ src) (htgt : k ≠ tgt) :
    moveEntry obj src tgt k = obj k := by
  unfold moveEntry
  cases obj src with
  | none => rfl
  | some v =>
    show Function.update (Function.update obj src none) tgt (some v) k = obj k
    rw [Function.update_of_ne htgt, Function.update_of_ne hsrc]

/-- The request of one slot moves to a free one without harm: no prompt embeddings stay there that it
does not have, and in a pooling model both slots have the same flag. -/
structure MovesCleanly (isPoolingModel : Bool) (last empty : Slot E G) : Prop where
  promptEmbeds : last.promptEmbeds = none → empty.promptEmbeds = none
  needsTokenIds : isPoolingModel = true → empty.needsTokenIds = last.needsTokenIds

/-- The request of slot `last` was moved to slot `empty`. -/
structure MovedDown (b b' : InputBatch E G) (reqId : String) (last empty : Nat) : Prop where
  builder : b'.batchUpdateBuilder = if b.isPoolingModel then b.batchUpdateBuilder
    else { b.batchUpdateBuilder with
      moved := b.batchUpdateBuilder.moved ++ [⟨last, empty, .unidirectional⟩] }
  reqIds : b'.reqIds = (b.reqIds.set empty (some reqId)).set last none
  reqIdToIndex : b'.reqIdToIndex = b.reqIdToIndex.set reqId empty
  config : SameConfig b b'
  shape : Shape b'
  slot_ne : ∀ k, k ≠ last → k ≠ empty → b'.slot k = b.slot k
  vacant : b.isPoolingModel = false → Vacant (b'.slot last)
  heldBy : ∀ w : Written E G, w.HeldBy (b.slot last) → w.Fits b.isPoolingModel →
    MovesCleanly b.isPoolingModel (b.slot last) (b.slot empty) →
    (b.isPoolingModel = false → Vacant (b.slot empty)) → w.HeldBy (b'.slot empty)

section

variable {last empty : Nat}

theorem moveDown_stages (h : b.moveDown last empty = .ok b') :
    ∃ reqId specTokenIds, b.occupant last = some reqId ∧
      swapEntries b.specTokenIds last empty = .ok specTokenIds ∧
      b' = if b.isPoolingModel then b.moveStates reqId specTokenIds last empty
        else (b.moveStates reqId specTokenIds last empty).moveSamplingStates last empty := by
  unfold moveDown at h
  split at h
  · cases h
  · next reqId hreqId =>
      obtain ⟨specTokenIds, hspec, h⟩ := bind_eq_ok.mp h
      have hcases : (if b.isPoolingModel then
            Except.ok (b.moveStates reqId specTokenIds last empty)
          else .ok ((b.moveStates reqId specTokenIds last empty).moveSamplingStates last empty)) =
          (Except.ok b' : Except PyError (InputBatch E G)) := h
      refine ⟨reqId, specTokenIds, hreqId, hspec, ?_⟩
      split at hcases
      · next hpooling =>
          rw [if_pos hpooling]
          exact (Except.ok.inj hcases).symm
      · next hpooling =>
          rw [if_neg hpooling]
          exact (Except.ok.inj hcases).symm

variable {specTokenIds : List (List Int)}

theorem slot_moveStates_ne (reqId : String) (hspec : swapEntries b.specTokenIds last empty = .ok specTokenIds)
    (houtputs : last < b.reqOutputTokenIds.length) (hempty : empty < b.reqOutputTokenIds.length)
    {k : Nat} (hlast : k ≠ last) (hk : k ≠ empty) : (b.moveStates reqId specTokenIds last empty).slot k = b.slot k := by
  obtain ⟨hlt, -, hlen, hget⟩ := swapEntries_eq_ok hspec
  have hset : ((b.reqOutputTokenIds.set empty (b.reqOutputTokenIds.getD last none)).set last none).getD
      k none = b.reqOutputTokenIds.getD k none := by
    rw [getD_set (by rwa [List.length_set]), Function.update_of_ne hlast, getD_set hempty,
      Function.update_of_ne hk]
  have hspec' : (specTokenIds.set last []).getD k [] = b.specTokenIds.getD k [] := by
    rw [getD_set (by rwa [hlen]), Function.update_of_ne hlast, hget,
      Equiv.swap_apply_of_ne_of_ne hlast hk]
  simp only [slot, specAt, moveStates, hset, hspec', Function.update_of_ne hk,
    moveEntry_ne _ hlast hk, MultiGroupBlockTable.rows_moveRow_of_ne _ hk]
  rfl

theorem slot_moveStates_empty (reqId : String) (hne : last ≠ empty)
    (hspec : swapEntries b.specTokenIds last empty = .ok specTokenIds)
    (houtputs : last < b.reqOutputTokenIds.length) (hempty : empty < b.reqOutputTokenIds.length) :
    (b.moveStates reqId specTokenIds last empty).slot empty =
      { b.slot last with
        tokenIds := Row.copyPrefix (b.slot last).tokenIds (b.slot empty).tokenIds
          ((b.slot last).numTokensNoSpec + (b.slot last).specTokenIds.length)
        isTokenIds := Row.copyPrefix (b.slot last).isTokenIds (b.slot empty).isTokenIds
          ((b.slot last).numTokensNoSpec + (b.slot last).specTokenIds.length)
        promptEmbeds := moveEntry b.reqPromptEmbeds last empty empty
        needsTokenIds := (b.slot empty).needsTokenIds
        sampling := (b.slot empty).sampling } := by
  obtain ⟨hlt, -, hlen, hget⟩ := swapEntries_eq_ok hspec
  have hset : ((b.reqOutputTokenIds.set empty (b.reqOutputTokenIds.getD last none)).set last none).getD
      empty none = b.reqOutputTokenIds.getD last none := by
    rw [getD_set (by rwa [List.length_set]), Function.update_of_ne hne.symm, getD_set hempty,
      Function.update_self]
  have hspec' : (specTokenIds.set last []).getD empty [] = b.specTokenIds.getD last [] := by
    rw [getD_set (by rwa [hlen]), Function.update_of_ne hne.symm, hget, Equiv.swap_apply_right]
  simp only [slot, specAt, moveStates, hset, hspec', Function.update_self,
    MultiGroupBlockTable.rows_moveRow_self]
  rfl

theorem shape_moveStates (reqId : String) (hshape : Shape b)
    (hspec : swapEntries b.specTokenIds last empty = .ok specTokenIds)
    (hlast : last < b.reqIds.length) (hempty : empty < b.reqIds.length) :
    Shape (b.moveStates reqId specTokenIds last empty) := by
  obtain ⟨hlt, -, hlen, hget⟩ := swapEntries_eq_ok hspec
  refine ⟨?_, ?_, ?_⟩
  · simpa [moveStates] using hshape.outputs
  · simpa [moveStates, hlen] using hshape.specs
  · intro k hk
    have hk' : b.reqIds.length ≤ k := by simpa [moveStates] using hk
    show (specTokenIds.set last []).getD k [] = []
    rw [getD_set (by rwa [hlen]), Function.update_of_ne (by omega), hget,
      Equiv.swap_apply_of_ne_of_ne (by omega) (by omega)]
    exact hshape.unused k hk'

theorem slot_moveSamplingStates_ne {k : Nat} (hlast : k ≠ last) (hk : k ≠ empty) :
    (b.moveSamplingStates last empty).slot k = b.slot k := by
  simp only [slot, samplingSlot, maskRow, moveSamplingStates, Function.update_of_ne hk,
    moveEntry_ne _ hlast hk, rowOfMask_map_update_of_ne _ _ hk]
  rfl

theorem slot_moveSamplingStates_empty (hvacant : Vacant (b.slot empty)) :
    (b.moveSamplingStates last empty).slot empty =
      { b.slot empty with sampling := (b.slot last).sampling } := by
  have hmask : rowOfMask (b.allowedTokenIdsMaskCpu.map fun mask =>
      Function.update mask empty (mask last)) empty = rowOfMask b.allowedTokenIdsMaskCpu last := by
    cases b.allowedTokenIdsMaskCpu with
    | none => rfl
    | some mask => exact Function.update_self ..
  have hgenerator := moveEntry_tgt b.generators last empty fun _ => hvacant.generator
  have hbad := moveEntry_tgt b.badWordsTokenIds last empty fun _ => hvacant.badWordsTokenIds
  simp only [slot, samplingSlot, maskRow, moveSamplingStates, Function.update_self, hmask, hgenerator,
    hbad]
  rfl

theorem vacant_moveSamplingStates (hne : last ≠ empty) : Vacant ((b.moveSamplingStates last empty).slot last) :=
  ⟨moveEntry_src b.generators hne, moveEntry_src b.badWordsTokenIds hne⟩

theorem moveDown_eq_ok (h : b.moveDown last empty = .ok b') (hshape : Shape b)
    (hempty : empty < b.reqIds.length) (hne : last ≠ empty) :
    ∃ reqId, b.occupant last = some reqId ∧ MovedDown b b' reqId last empty := by
  obtain ⟨reqId, specTokenIds, hoccupant, hspec, hb'⟩ := moveDown_stages h
  have hlast := occupant_lt hoccupant
  have houtputs : last < b.reqOutputTokenIds.length := hshape.outputs ▸ hlast
  have houtputs' : empty < b.reqOutputTokenIds.length := hshape.outputs ▸ hempty
  have hconfig : SameConfig b (b.moveStates reqId specTokenIds last empty) :=
    ⟨rfl, rfl, rfl, MultiGroupBlockTable.blocksPerKVBlock_moveRow _ _ _⟩
  have hshape' := shape_moveStates reqId hshape hspec hlast hempty
  have hslot_ne : ∀ k, k ≠ last → k ≠ empty → _ = b.slot k := fun k =>
    slot_moveStates_ne reqId hspec houtputs houtputs'
  have hslot := slot_moveStates_empty reqId hne hspec houtputs houtputs'
  have hrows : ∀ w : Written E G, w.HeldBy (b.slot last) →
      w.tokenIds.length ≤ (b.slot last).numTokensNoSpec + (b.slot last).specTokenIds.length ∧
      w.isTokenIds.length ≤ (b.slot last).numTokensNoSpec + (b.slot last).specTokenIds.length := by
    intro w hw
    rw [hw.numTokensNoSpec, hw.specTokenIds]
    exact ⟨w.tokenIds_spans.2, w.isTokenIds_spans.2⟩
  have hembeds : ∀ w : Written E G, w.HeldBy (b.slot last) →
      MovesCleanly b.isPoolingModel (b.slot last) (b.slot empty) →
      moveEntry b.reqPromptEmbeds last empty empty = w.promptEmbeds := by
    intro w hw hclean
    exact (moveEntry_tgt b.reqPromptEmbeds last empty hclean.promptEmbeds).trans hw.promptEmbeds
  refine ⟨reqId, hoccupant, ?_⟩
  cases hpooling : b.isPoolingModel with
  | true =>
    rw [if_pos hpooling] at hb'
    subst hb'
    refine ⟨by rw [if_pos hpooling]; rfl, rfl, rfl, hconfig, hshape',
      fun k hk hk' => hslot_ne k hk hk', ?_, ?_⟩
    · intro hfalse
      rw [hpooling] at hfalse
      cases hfalse
    · intro w hw hfits hclean _
      rw [hslot]
      refine ⟨hw.outputTokenIds, hw.tokenIds.copyPrefix (hrows w hw).1 _,
        hw.isTokenIds.copyPrefix (hrows w hw).2 _, hembeds w hw hclean, hw.numTokensNoSpec,
        hw.numPromptTokens, hw.numComputedTokens, hw.specTokenIds, hw.blocks, hw.lora, ?_, ?_⟩
      · intro flag hflag
        exact (hclean.needsTokenIds hpooling).trans (hw.needsTokenIds flag hflag)
      · intro p hp
        rw [hfits.sampling hpooling] at hp
        cases hp
  | false =>
    have hpooling' : ¬ b.isPoolingModel = true := by rw [hpooling]; decide
    rw [if_neg hpooling'] at hb'
    subst hb'
    refine ⟨by rw [if_neg hpooling']; rfl, rfl, rfl,
      ⟨hconfig.1, hconfig.2, hconfig.3, hconfig.4⟩, ⟨hshape'.1, hshape'.2, hshape'.3⟩, ?_, ?_, ?_⟩
    · intro k hk hk'
      rw [slot_moveSamplingStates_ne hk hk']
      exact hslot_ne k hk hk'
    · intro _
      exact vacant_moveSamplingStates hne
    · intro w hw hfits hclean hvacant
      have hvacant' : Vacant ((b.moveStates reqId specTokenIds last empty).slot empty) := by
        exact ⟨(hvacant hpooling).generator, (hvacant hpooling).badWordsTokenIds⟩
      rw [slot_moveSamplingStates_empty hvacant', hslot]
      refine ⟨hw.outputTokenIds, hw.tokenIds.copyPrefix (hrows w hw).1 _,
        hw.isTokenIds.copyPrefix (hrows w hw).2 _, hembeds w hw hclean, hw.numTokensNoSpec,
        hw.numPromptTokens, hw.numComputedTokens, hw.specTokenIds, hw.blocks, hw.lora, ?_,
        hw.sampling⟩
      intro flag hflag
      rw [hfits.needsTokenIds hpooling'] at hflag
      cases hflag

end

/-! ## Exchanging -/

/-- Two slots are exchanged without harm: of what is not exchanged rightly both have the same. -/
def SwapsCleanly (isPoolingModel : Bool) (s1 s2 : Slot E G) : Prop :=
  if isPoolingModel then s1.needsTokenIds = s2.needsTokenIds else s1.sampling.mask = s2.sampling.mask

/-- The requests of slots `i` and `j` were exchanged. -/
structure Swapped (b b' : InputBatch E G) (i j : Nat) : Prop where
  occupied : ∃ id1 id2, b.occupant i = some id1 ∧ b.occupant j = some id2 ∧
    ∀ index1 index2, b.reqIdToIndex.get? id1 = some index1 → b.reqIdToIndex.get? id2 = some index2 →
      b'.reqIdToIndex = (b.reqIdToIndex.set id1 index2).set id2 index1
  builder : b'.batchUpdateBuilder = if b.isPoolingModel then b.batchUpdateBuilder
    else { b.batchUpdateBuilder with moved := b.batchUpdateBuilder.moved ++ [⟨i, j, .swap⟩] }
  length : b'.reqIds.length = b.reqIds.length
  occupant : ∀ k, b'.occupant k = b.occupant (Equiv.swap i j k)
  config : SameConfig b b'
  shape : Shape b'
  slot_ne : ∀ k, k ≠ i → k ≠ j → b'.slot k = b.slot k
  heldBy : ∀ (w : Written E G) k, w.HeldBy (b.slot (Equiv.swap i j k)) → w.Fits b.isPoolingModel →
    SwapsCleanly b.isPoolingModel (b.slot i) (b.slot j) → w.HeldBy (b'.slot k)

theorem swapDictValues_apply (obj : Nat → Option α) (i j k : Nat) :
    swapDictValues obj i j k = obj (Equiv.swap i j k) := by
  rw [Equiv.swap_comm]
  exact Column.swap_apply obj j i k

section

variable {i j : Nat}

theorem rowOfMask_swapMaskRows (mask : Option (Nat → Nat → Bool)) (h : rowOfMask mask i = rowOfMask mask j) (k : Nat) :
    rowOfMask (mask.map fun mask => swapMaskRows mask i j) k = rowOfMask mask (Equiv.swap i j k) := by
  cases mask with
  | none => rfl
  | some mask =>
    have h' : mask i = mask j := h
    have hsame : ∀ k, mask (Equiv.swap i j k) = mask k := by
      intro k
      rcases eq_or_ne k i with rfl | hi
      · rw [Equiv.swap_apply_left, h']
      · rcases eq_or_ne k j with rfl | hj
        · rw [Equiv.swap_apply_right, h']
        · rw [Equiv.swap_apply_of_ne_of_ne hi hj]
    show swapMaskRows mask i j k = mask (Equiv.swap i j k)
    rw [hsame]
    simp only [swapMaskRows, ← h', Function.update_eq_self]
    rw [h', Function.update_eq_self]

theorem swapStates_stages (h : b.swapStates i j = .ok b') :
    ∃ reqIds outputs specs id1 id2 index1 index2,
      swapEntries b.reqIds i j = .ok reqIds ∧ swapEntries b.reqOutputTokenIds i j = .ok outputs ∧
      swapEntries b.specTokenIds i j = .ok specs ∧
      b.occupant i = some id1 ∧ b.occupant j = some id2 ∧
      b.reqIdToIndex.get? id1 = some index1 ∧ b.reqIdToIndex.get? id2 = some index2 ∧
      b' = if b.isPoolingModel then
          b.swapColumns reqIds outputs specs ((b.reqIdToIndex.set id1 index2).set id2 index1) i j
        else (b.swapColumns reqIds outputs specs ((b.reqIdToIndex.set id1 index2).set id2 index1)
          i j).swapSamplingStates i j := by
  obtain ⟨reqIds, hreqIds, h⟩ := bind_eq_ok.mp h
  obtain ⟨outputs, houtputs, h⟩ := bind_eq_ok.mp h
  obtain ⟨specs, hspecs, h⟩ := bind_eq_ok.mp h
  split at h
  · next id1 id2 hid1 hid2 =>
      split at h
      · next index1 index2 hindex1 hindex2 =>
          refine ⟨reqIds, outputs, specs, id1, id2, index1, index2, hreqIds, houtputs, hspecs, hid1,
            hid2, hindex1, hindex2, ?_⟩
          have hcases : (if b.isPoolingModel then
                Except.ok (b.swapColumns reqIds outputs specs
                  ((b.reqIdToIndex.set id1 index2).set id2 index1) i j)
              else .ok ((b.swapColumns reqIds outputs specs
                  ((b.reqIdToIndex.set id1 index2).set id2 index1) i j).swapSamplingStates i j)) =
              (Except.ok b' : Except PyError (InputBatch E G)) := h
          split at hcases
          · next hpooling =>
              rw [if_pos hpooling]
              exact (Except.ok.inj hcases).symm
          · next hpooling =>
              rw [if_neg hpooling]
              exact (Except.ok.inj hcases).symm
      · cases h
  · cases h

theorem slot_swapColumns {outputs : List (Option (List Int))} {specs : List (List Int)}
    (houtputs : swapEntries b.reqOutputTokenIds i j = .ok outputs)
    (hspecs : swapEntries b.specTokenIds i j = .ok specs) (reqIds : List (Option String))
    (reqIdToIndex : Dict String Nat) (k : Nat) :
    (b.swapColumns reqIds outputs specs reqIdToIndex i j).slot k =
      { b.slot (Equiv.swap i j k) with
        needsTokenIds := (b.slot k).needsTokenIds
        sampling := (b.slot k).sampling } := by
  have houtput : outputs.getD k none = b.reqOutputTokenIds.getD (Equiv.swap i j k) none :=
    (swapEntries_eq_ok houtputs).2.2.2 none k
  have hspec : specs.getD k [] = b.specTokenIds.getD (Equiv.swap i j k) [] :=
    (swapEntries_eq_ok hspecs).2.2.2 [] k
  simp only [slot, specAt, swapColumns, houtput, hspec, Column.swap_apply, swapDictValues_apply,
    MultiGroupBlockTable.rows_swapRow]
  rfl

theorem slot_swapSamplingStates (b : InputBatch E G) (i j k : Nat) :
    (b.swapSamplingStates i j).slot k =
      { b.slot k with sampling :=
          { (b.slot (Equiv.swap i j k)).sampling with
            mask := rowOfMask (b.allowedTokenIdsMaskCpu.map fun mask => swapMaskRows mask i j) k } } := by
  simp only [slot, samplingSlot, swapSamplingStates, Column.swap_apply, swapDictValues_apply]
  rfl

theorem rowOfMask_swapMaskRows_ne (mask : Option (Nat → Nat → Bool)) {k : Nat} (hi : k ≠ i)
    (hj : k ≠ j) : rowOfMask (mask.map fun mask => swapMaskRows mask i j) k = rowOfMask mask k := by
  cases mask with
  | none => rfl
  | some mask =>
    show swapMaskRows mask i j k = mask k
    simp only [swapMaskRows, Function.update_of_ne hi, Function.update_of_ne hj]

theorem swapStates_eq_ok (h : b.swapStates i j = .ok b') (hshape : Shape b) : Swapped b b' i j := by
  obtain ⟨reqIds, outputs, specs, id1, id2, index1, index2, hreqIds, houtputs, hspecs, hid1, hid2,
    hindex1, hindex2, hb'⟩ := swapStates_stages h
  obtain ⟨hi, hj, hlen, hget⟩ := swapEntries_eq_ok hreqIds
  have hslot := slot_swapColumns houtputs hspecs reqIds
  have hoccupied : ∃ id1 id2, b.occupant i = some id1 ∧ b.occupant j = some id2 ∧
      ∀ n1 n2, b.reqIdToIndex.get? id1 = some n1 → b.reqIdToIndex.get? id2 = some n2 →
        b'.reqIdToIndex = (b.reqIdToIndex.set id1 n2).set id2 n1 := by
    refine ⟨id1, id2, hid1, hid2, ?_⟩
    intro n1 n2 hn1 hn2
    rw [hindex1] at hn1
    rw [hindex2] at hn2
    cases hn1
    cases hn2
    rw [hb']
    split <;> rfl
  have hshape' : Shape (b.swapColumns reqIds outputs specs
      ((b.reqIdToIndex.set id1 index2).set id2 index1) i j) := by
    refine ⟨?_, ?_, ?_⟩
    · show outputs.length = reqIds.length
      rw [(swapEntries_eq_ok houtputs).2.2.1, hlen]
      exact hshape.outputs
    · show reqIds.length ≤ specs.length
      rw [(swapEntries_eq_ok hspecs).2.2.1, hlen]
      exact hshape.specs
    · intro k hk
      have hk' : b.reqIds.length ≤ k := by
        rw [← hlen]
        exact hk
      show specs.getD k [] = []
      rw [(swapEntries_eq_ok hspecs).2.2.2, Equiv.swap_apply_of_ne_of_ne (by omega) (by omega)]
      exact hshape.unused k hk'
  have hconfig : SameConfig b (b.swapColumns reqIds outputs specs
      ((b.reqIdToIndex.set id1 index2).set id2 index1) i j) :=
    ⟨rfl, rfl, rfl, MultiGroupBlockTable.blocksPerKVBlock_swapRow _ _ _⟩
  cases hpooling : b.isPoolingModel with
  | true =>
    rw [if_pos hpooling] at hb'
    subst hb'
    refine ⟨hoccupied, by rw [if_pos hpooling]; rfl, hlen, hget none, hconfig, hshape', ?_, ?_⟩
    · intro k hki hkj
      rw [hslot, Equiv.swap_apply_of_ne_of_ne hki hkj]
    · intro w k hw hfits hclean
      have hnone := hfits.sampling hpooling
      have hflag : (b.slot k).needsTokenIds = (b.slot (Equiv.swap i j k)).needsTokenIds := by
        unfold SwapsCleanly at hclean
        rw [if_pos hpooling] at hclean
        rcases eq_or_ne k i with rfl | hki
        · rw [Equiv.swap_apply_left, hclean]
        · rcases eq_or_ne k j with rfl | hkj
          · rw [Equiv.swap_apply_right, hclean]
          · rw [Equiv.swap_apply_of_ne_of_ne hki hkj]
      rw [hslot]
      refine ⟨hw.outputTokenIds, hw.tokenIds, hw.isTokenIds, hw.promptEmbeds, hw.numTokensNoSpec,
        hw.numPromptTokens, hw.numComputedTokens, hw.specTokenIds, hw.blocks, hw.lora, ?_, ?_⟩
      · intro flag hmem
        exact hflag.trans (hw.needsTokenIds flag hmem)
      · intro p hp
        rw [hnone] at hp
        cases hp
  | false =>
    have hpooling' : ¬ b.isPoolingModel = true := by rw [hpooling]; decide
    rw [if_neg hpooling'] at hb'
    subst hb'
    refine ⟨hoccupied, by rw [if_neg hpooling']; rfl, hlen, hget none,
      ⟨hconfig.1, hconfig.2, hconfig.3, hconfig.4⟩, ⟨hshape'.1, hshape'.2, hshape'.3⟩, ?_, ?_⟩
    · intro k hki hkj
      have hmask := rowOfMask_swapMaskRows_ne b.allowedTokenIdsMaskCpu hki hkj
      rw [slot_swapSamplingStates, hslot, Equiv.swap_apply_of_ne_of_ne hki hkj, hslot]
      simp only [swapColumns, hmask]
      rfl
    · intro w k hw hfits hclean
      have hnone := hfits.needsTokenIds hpooling'
      unfold SwapsCleanly at hclean
      rw [if_neg hpooling'] at hclean
      have hmask := rowOfMask_swapMaskRows b.allowedTokenIdsMaskCpu hclean k
      rw [slot_swapSamplingStates, hslot]
      refine ⟨hw.outputTokenIds, hw.tokenIds, hw.isTokenIds, hw.promptEmbeds, hw.numTokensNoSpec,
        hw.numPromptTokens, hw.numComputedTokens, hw.specTokenIds, hw.blocks, hw.lora, ?_, ?_⟩
      · intro flag hmem
        rw [hnone] at hmem
        cases hmem
      · intro p hp
        rw [← hw.sampling p hp]
        simp only [swapColumns, hmask]
        rfl

end

end InputBatch

end Yuan.Worker
