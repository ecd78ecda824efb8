import Yuan.Core.Schedule

/-!
# `EncoderDecoderCacheManager`

Encoder-decoder models do not cache encoder outputs: their manager only counts the embeddings of a step. Every
input of a request counts as cached, and to free an input is to add its embeddings to the free slots, whether or
not they were taken from them.

The scheduler plans the inputs of a request where no token of it has been computed.
-/

namespace Yuan.Core

/-- The number of embeddings of an input. -/
def EncoderInput.embeds (input : EncoderInput) : Int := input.1.mmPosition.getNumEmbeds

theorem EncoderInput.embeds_nonneg (input : EncoderInput) : 0 ≤ input.embeds := Int.natCast_nonneg _

/-- The bookkeeping for encoder-decoder models. -/
structure EncoderDecoderCacheManager where
  cacheSize : Int
  numFreeSlots : Int
  allocated : List String
  toFree : List String

namespace EncoderDecoderCacheManager

variable (m : EncoderDecoderCacheManager)

/-- `__init__`. -/
def init (cacheSize : Nat) : EncoderDecoderCacheManager where
  cacheSize := cacheSize
  numFreeSlots := cacheSize
  allocated := []
  toFree := []

/-- `reset`. -/
def reset : EncoderDecoderCacheManager :=
  { m with numFreeSlots := m.cacheSize, allocated := [], toFree := [] }

/-- `can_allocate`. -/
def canAllocate (feature : MultiModalFeatureSpec) (encoderComputeBudget numEmbedsToSchedule : Int) : Bool :=
  let numEncoderEmbeds : Int := feature.mmPosition.getNumEmbeds
  -- not enough compute budget
  if numEncoderEmbeds > encoderComputeBudget then false
  -- enough free slots
  else decide (numEncoderEmbeds + numEmbedsToSchedule ≤ m.numFreeSlots)

/-- `allocate`. -/
def allocate (feature : MultiModalFeatureSpec) : EncoderDecoderCacheManager :=
  { m with
    numFreeSlots := m.numFreeSlots - feature.mmPosition.getNumEmbeds
    allocated := m.allocated ++ [feature.identifier] }

/-- `free_encoder_input`. -/
def freeEncoderInput (feature : MultiModalFeatureSpec) : EncoderDecoderCacheManager :=
  { m with numFreeSlots := m.numFreeSlots + feature.mmPosition.getNumEmbeds }

/-- `free`: all inputs of a request. -/
def free (mmFeatures : List MultiModalFeatureSpec) : EncoderDecoderCacheManager :=
  mmFeatures.foldl freeEncoderInput m

/-- `get_cached_input_ids`: every input counts as cached. -/
def getCachedInputIds (mmFeatures : List MultiModalFeatureSpec) : List EncoderInput := mmFeatures.zipIdx

/-- Inputs of one content are still different inputs. -/
theorem nodup_getCachedInputIds (mmFeatures : List MultiModalFeatureSpec) : (getCachedInputIds mmFeatures).Nodup := by
  apply List.Nodup.of_map Prod.snd
  unfold getCachedInputIds
  rw [List.zipIdx_map_snd]
  exact List.nodup_range'

/-- `get_freed_mm_hashes`: what was allocated is freed a step later. -/
def getFreedMmHashes : List String × EncoderDecoderCacheManager :=
  (m.toFree, { m with toFree := m.allocated, allocated := [] })

/-- `_free_encoder_inputs` of the scheduler, where every input goes once a token has been computed. -/
def freeEncoderInputs (mmFeatures : List MultiModalFeatureSpec) (numComputedTokens : Int) :
    EncoderDecoderCacheManager :=
  let done := (getCachedInputIds mmFeatures).filter fun input =>
    decide (numComputedTokens > 0) || decide (input.1.stop ≤ numComputedTokens)
  done.foldl (fun m input => m.freeEncoderInput input.1) m

/-! ## What the methods do to the free slots -/

variable {m}

theorem freeAll (inputs : List EncoderInput) (m : EncoderDecoderCacheManager) :
    inputs.foldl (fun m input => m.freeEncoderInput input.1) m =
      { m with numFreeSlots := m.numFreeSlots + (inputs.map EncoderInput.embeds).sum } := by
  induction inputs generalizing m with
  | nil => rw [List.map_nil, List.sum_nil, add_zero]; rfl
  | cons input inputs ih =>
    rw [List.foldl_cons, ih, List.map_cons, List.sum_cons, ← add_assoc]
    rfl

theorem free_eq (m : EncoderDecoderCacheManager) (mmFeatures : List MultiModalFeatureSpec) :
    m.free mmFeatures =
      { m with numFreeSlots := m.numFreeSlots + ((getCachedInputIds mmFeatures).map EncoderInput.embeds).sum } := by
  have hfst : mmFeatures = (getCachedInputIds mmFeatures).map Prod.fst := (List.zipIdx_map_fst 0 mmFeatures).symm
  rw [← freeAll]
  unfold free
  conv_lhs => rw [hfst, List.foldl_map]

/-- Behind a step that computed tokens, all inputs go. -/
theorem freeEncoderInputs_eq (m : EncoderDecoderCacheManager) (mmFeatures : List MultiModalFeatureSpec)
    {numComputedTokens : Int} (h : 0 < numComputedTokens) :
    m.freeEncoderInputs mmFeatures numComputedTokens = m.free mmFeatures := by
  have hall : (getCachedInputIds mmFeatures).filter (fun input =>
      decide (numComputedTokens > 0) || decide (input.1.stop ≤ numComputedTokens)) = getCachedInputIds mmFeatures := by
    rw [List.filter_eq_self]
    intro input _
    rw [decide_eq_true h, Bool.true_or]
  unfold freeEncoderInputs
  rw [hall, freeAll, free_eq]

theorem allocateAll (inputs : List EncoderInput) (m : EncoderDecoderCacheManager) :
    (inputs.foldl (fun m input => m.allocate input.1) m).numFreeSlots =
        m.numFreeSlots - (inputs.map EncoderInput.embeds).sum ∧
      (inputs.foldl (fun m input => m.allocate input.1) m).cacheSize = m.cacheSize := by
  induction inputs generalizing m with
  | nil => exact ⟨by rw [List.map_nil, List.sum_nil, sub_zero]; rfl, rfl⟩
  | cons input inputs ih =>
    obtain ⟨hslots, hsize⟩ := ih (m.allocate input.1)
    rw [List.foldl_cons, hslots, List.map_cons, List.sum_cons, ← sub_sub]
    exact ⟨rfl, hsize⟩

end EncoderDecoderCacheManager

/-! ## Planning the inputs of a request -/

section Planning

variable {β : Type} (cfg : SchedulerConfig β) (env : ScheduleEnv)
variable (requestId : Nat) (numComputedTokens shiftComputedTokens : Int)

/-- The loop of `_try_schedule_encoder_inputs` over the items, for encoder-decoder models. -/
def encoderDecoderLoop (m : EncoderDecoderCacheManager) :
    List EncoderInput → EncoderPlan → Except PyError EncoderPlan
  | [], t => return t
  | input :: rest, t =>
    let feature := input.1
    if feature.offset ≥ numComputedTokens + t.numNewTokens + shiftComputedTokens then return t
    else if numComputedTokens > 0 then do
      pyAssert (feature.offset = 0)
        "Encoder input should be processed at the beginning of the sequence when encoder-decoder models are used."
      -- computed with the first tokens of the decoder
      encoderDecoderLoop m rest t
    else if feature.stop ≤ numComputedTokens then encoderDecoderLoop m rest t
    else if cfg.disableChunkedMmInput ∧ numComputedTokens < feature.offset ∧
        numComputedTokens + t.numNewTokens < feature.stop then
      return { t with numNewTokens := max 0 (feature.offset - (numComputedTokens + shiftComputedTokens)) }
    else if m.canAllocate feature t.encoderComputeBudget t.numEmbedsToSchedule then
      encoderDecoderLoop m rest (takeEncoderInput cfg env requestId numComputedTokens input t)
    else return { t with numNewTokens := tokensBefore numComputedTokens shiftComputedTokens feature }

/-- `_try_schedule_encoder_inputs` for encoder-decoder models. -/
def tryScheduleEncoderDecoderInputs (m : EncoderDecoderCacheManager) (mmFeatures : List MultiModalFeatureSpec)
    (t : EncoderPlan) : Except PyError EncoderPlan :=
  if t.numNewTokens = 0 ∨ mmFeatures.isEmpty then return t
  else encoderDecoderLoop cfg env requestId numComputedTokens shiftComputedTokens m mmFeatures.zipIdx t

end Planning

/-- The inputs that a plan allocates: those to compute and those to load. -/
def EncoderPlan.inputs (t : EncoderPlan) : List EncoderInput :=
  t.encoderInputsToSchedule ++ t.externalLoadEncoderInput

/-- A plan in the middle of the loop: no input is planned twice, and those planned fit. -/
structure EncoderPlan.Fits (t : EncoderPlan) (m : EncoderDecoderCacheManager) (all rest : List EncoderInput) :
    Prop where
  nodup : (t.inputs ++ rest).Nodup
  planned : ∀ input ∈ t.inputs, input ∈ all
  embeds : (t.inputs.map EncoderInput.embeds).sum = t.numEmbedsToSchedule
  fits : t.numEmbedsToSchedule ≤ m.numFreeSlots

section Fits

variable {β : Type} {cfg : SchedulerConfig β} {env : ScheduleEnv} {requestId : Nat}
variable {numComputedTokens shiftComputedTokens : Int} {m : EncoderDecoderCacheManager}
variable {all rest : List EncoderInput} {input : EncoderInput} {t t' : EncoderPlan}

/-- An item is left out of the plan, or joins it. -/
theorem takeEncoderInput_inputs (cfg : SchedulerConfig β) (env : ScheduleEnv) (requestId : Nat)
    (numComputedTokens : Int) (input : EncoderInput) (t : EncoderPlan) :
    takeEncoderInput cfg env requestId numComputedTokens input t = t ∨
      ((takeEncoderInput cfg env requestId numComputedTokens input t).inputs.Perm (input :: t.inputs) ∧
        (takeEncoderInput cfg env requestId numComputedTokens input t).numEmbedsToSchedule =
          t.numEmbedsToSchedule + input.embeds) := by
  unfold takeEncoderInput EncoderPlan.inputs
  dsimp only
  split_ifs
  · exact .inl rfl
  · right
    refine ⟨?_, rfl⟩
    rw [← List.append_assoc]
    exact List.perm_append_comm
  · right
    refine ⟨?_, rfl⟩
    rw [List.append_assoc]
    exact List.perm_middle

theorem EncoderPlan.Fits.skip (h : t.Fits m all (input :: rest)) : t.Fits m all rest where
  nodup := h.nodup.sublist ((List.sublist_cons_self _ _).append_left _)
  planned := h.planned
  embeds := h.embeds
  fits := h.fits

theorem EncoderPlan.Fits.take (h : t.Fits m all (input :: rest)) (hmem : input ∈ all)
    (hroom : m.canAllocate input.1 t.encoderComputeBudget t.numEmbedsToSchedule = true) :
    (takeEncoderInput cfg env requestId numComputedTokens input t).Fits m all rest := by
  rcases takeEncoderInput_inputs cfg env requestId numComputedTokens input t with heq | ⟨hinputs, hembeds⟩
  · rw [heq]
    exact h.skip
  · constructor
    case nodup => exact ((hinputs.append_right rest).trans List.perm_middle.symm).nodup_iff.mpr h.nodup
    case planned =>
      intro x hx
      rcases List.mem_cons.mp (hinputs.mem_iff.mp hx) with rfl | hx
      · exact hmem
      · exact h.planned x hx
    case embeds =>
      rw [(hinputs.map EncoderInput.embeds).sum_eq, List.map_cons, List.sum_cons, h.embeds, hembeds, add_comm]
    case fits =>
      unfold EncoderDecoderCacheManager.canAllocate at hroom
      dsimp only at hroom
      split at hroom
      · cases hroom
      · rw [hembeds, add_comm]
        exact of_decide_eq_true hroom

/-- Only the number of tokens changes. -/
theorem EncoderPlan.Fits.withTokens (h : t.Fits m all rest) (numNewTokens : Int) :
    ({ t with numNewTokens } : EncoderPlan).Fits m all rest :=
  ⟨h.nodup, h.planned, h.embeds, h.fits⟩

theorem encoderDecoderLoop_fits (h : t.Fits m all rest) (hall : ∀ input ∈ rest, input ∈ all)
    (hrun : encoderDecoderLoop cfg env requestId numComputedTokens shiftComputedTokens m rest t = .ok t') :
    ∃ rest', t'.Fits m all rest' := by
  induction rest generalizing t with
  | nil => exact ⟨[], Except.ok.inj hrun ▸ h⟩
  | cons input rest ih =>
    have hrest : ∀ input ∈ rest, input ∈ all := fun x hx => hall x (List.mem_cons_of_mem _ hx)
    unfold encoderDecoderLoop at hrun
    dsimp only at hrun
    split_ifs at hrun with hbehind hcomputed hdone hroll hroom
    · exact ⟨_, Except.ok.inj hrun ▸ h⟩
    · obtain ⟨-, -, hrun⟩ := bind_eq_ok.mp hrun
      exact ih h.skip hrest hrun
    · exact ih h.skip hrest hrun
    · exact ⟨_, Except.ok.inj hrun ▸ h.withTokens _⟩
    · exact ih (h.take (hall input List.mem_cons_self) hroom) hrest hrun
    · exact ⟨_, Except.ok.inj hrun ▸ h.withTokens _⟩

/-- The plan for a request names inputs of it, each once, and there is room for all of them. -/
theorem tryScheduleEncoderDecoderInputs_fits {mmFeatures : List MultiModalFeatureSpec}
    {numNewTokens encoderComputeBudget : Int} (hroom : 0 ≤ m.numFreeSlots)
    (hrun : tryScheduleEncoderDecoderInputs cfg env requestId numComputedTokens shiftComputedTokens m mmFeatures
      { numNewTokens, encoderComputeBudget } = .ok t) :
    t.inputs.Nodup ∧ (∀ input ∈ t.inputs, input ∈ mmFeatures.zipIdx) ∧
      (t.inputs.map EncoderInput.embeds).sum ≤ m.numFreeSlots := by
  have hstart : ({ numNewTokens, encoderComputeBudget } : EncoderPlan).Fits m mmFeatures.zipIdx mmFeatures.zipIdx :=
    ⟨EncoderDecoderCacheManager.nodup_getCachedInputIds mmFeatures,
      (fun input hinput => absurd hinput List.not_mem_nil), rfl, hroom⟩
  have hfits : ∃ rest, t.Fits m mmFeatures.zipIdx rest := by
    unfold tryScheduleEncoderDecoderInputs at hrun
    split_ifs at hrun
    · exact ⟨_, Except.ok.inj hrun ▸ hstart⟩
    · exact encoderDecoderLoop_fits hstart (fun _ hinput => hinput) hrun
  obtain ⟨rest, hfits⟩ := hfits
  exact ⟨(List.nodup_append.mp hfits.nodup).1, hfits.planned, hfits.embeds ▸ hfits.fits⟩

end Fits

end Yuan.Core
