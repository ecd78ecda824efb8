import Yuan.Frontend.AsyncLLM
import Yuan.Frontend.StreamedResult

/-!
# The outputs of a live request

A request that was admitted makes its outputs without an error. What it is does not change, and its parent
sees a completion of it.
-/

namespace Yuan.Frontend

variable {L : Type} {o : EngineCoreOutput L} {finishReason : Option FinishReason}

/-! ## Parents -/

/-- What `get_outputs` does. -/
structure ParentRequest.Collects (q : ParentRequest L) (id : String) (c : CompletionOutput L)
    (q' : ParentRequest L) (outputs : List (Option (CompletionOutput L))) : Prop where
  requestId : q'.requestId = q.requestId
  samplingParams : q'.samplingParams = q.samplingParams
  cachedChildSamplingParams : q'.cachedChildSamplingParams = q.cachedChildSamplingParams
  childRequests : q'.childRequests = if c.finished then q.childRequests.erase id else q.childRequests
  outputAggregator : q'.outputAggregator = if q.samplingParams.outputKind = .finalOnly then
    q.outputAggregator.set c.index (some c) else q.outputAggregator
  reports : q'.reports = q.reports ++ [⟨id, c, outputs, q'.childRequests.isEmpty⟩]
  streamed : q.samplingParams.outputKind ≠ .finalOnly → id ∈ q.childRequests → outputs = [some c]
  collected : q.samplingParams.outputKind = .finalOnly →
    outputs = if q'.childRequests ≠ [] then [] else q'.outputAggregator

theorem ParentRequest.getOutputs_ok {q : ParentRequest L} {c : CompletionOutput L}
    (hindex : q.samplingParams.outputKind = .finalOnly → c.index < q.outputAggregator.length) (id : String) :
    ∃ q' outputs, q.getOutputs id c = .ok (q', outputs, q'.childRequests.isEmpty) ∧ q.Collects id c q' outputs := by
  have hremove : q.removeChild id c =
      { q with childRequests := if c.finished then q.childRequests.erase id else q.childRequests } := by
    unfold removeChild
    by_cases hfinished : c.finished = true
    · by_cases hmem : id ∈ q.childRequests
      · rw [if_pos ⟨hfinished, hmem⟩, if_pos hfinished]
      · rw [if_neg (fun h => hmem h.2), if_pos hfinished, List.erase_of_not_mem hmem]
    · rw [if_neg (fun h => hfinished h.1), if_neg hfinished]
  unfold getOutputs
  rw [hremove]
  dsimp only
  unfold collect
  by_cases hkind : q.samplingParams.outputKind = .finalOnly
  · rw [if_neg (fun h => h hkind), if_pos (hindex hkind)]
    refine ⟨_, _, rfl, ?_⟩
    exact ⟨rfl, rfl, rfl, rfl, (if_pos hkind).symm, rfl, fun hne => absurd hkind hne, fun _ => rfl⟩
  · rw [if_pos hkind]
    refine ⟨_, _, rfl, ?_⟩
    refine ⟨rfl, rfl, rfl, rfl, (if_neg hkind).symm, rfl, fun _ hmem => ?_, fun h => absurd h hkind⟩
    have hnew : (c.finished && decide (id ∉ q.childRequests)) = false := by simp [hmem]
    rw [hnew]
    rfl

/-! ## Requests -/

/-- The log probabilities that are kept are those that were asked for. -/
def LogprobsProcessor.Consistent (lp : LogprobsProcessor L) : Prop :=
  lp.logprobs.isSome = lp.numLogprobs.isSome ∧ lp.promptLogprobs.isSome = lp.numPromptLogprobs.isSome

/-- What does not change while a request is served. -/
structure SameRequest (rs rs' : RequestState L) : Prop where
  requestId : rs'.requestId = rs.requestId
  externalReqId : rs'.externalReqId = rs.externalReqId
  parentReq : rs'.parentReq = rs.parentReq
  requestIndex : rs'.requestIndex = rs.requestIndex
  outputKind : rs'.outputKind = rs.outputKind
  queue : rs'.queue = rs.queue
  streamInterval : rs'.streamInterval = rs.streamInterval
  streamingInput : rs'.streamingInput = rs.streamingInput
  inputChunkQueue : rs'.inputChunkQueue = rs.inputChunkQueue
  prompt : (rs'.promptTokenIds.isSome ∨ rs'.promptEmbeds.isSome) ↔
    (rs.promptTokenIds.isSome ∨ rs.promptEmbeds.isSome)
  detokenizer : rs'.detokenizer.isSome = rs.detokenizer.isSome
  logprobsProcessor : rs'.logprobsProcessor.map (fun lp => (lp.numLogprobs, lp.numPromptLogprobs)) =
    rs.logprobsProcessor.map (fun lp => (lp.numLogprobs, lp.numPromptLogprobs))

namespace SameRequest

variable {rs rs' rs'' : RequestState L}

theorem rfl' (rs : RequestState L) : SameRequest rs rs :=
  ⟨rfl, rfl, rfl, rfl, rfl, rfl, rfl, rfl, rfl, Iff.rfl, rfl, rfl⟩

theorem trans (h : SameRequest rs rs') (h' : SameRequest rs' rs'') : SameRequest rs rs'' where
  requestId := h'.requestId.trans h.requestId
  externalReqId := h'.externalReqId.trans h.externalReqId
  parentReq := h'.parentReq.trans h.parentReq
  requestIndex := h'.requestIndex.trans h.requestIndex
  outputKind := h'.outputKind.trans h.outputKind
  queue := h'.queue.trans h.queue
  streamInterval := h'.streamInterval.trans h.streamInterval
  streamingInput := h'.streamingInput.trans h.streamingInput
  inputChunkQueue := h'.inputChunkQueue.trans h.inputChunkQueue
  prompt := h'.prompt.trans h.prompt
  detokenizer := h'.detokenizer.trans h.detokenizer
  logprobsProcessor := h'.logprobsProcessor.trans h.logprobsProcessor

/-- The engine answers the same request in the same way. -/
theorem answers (h : SameRequest rs rs') (ho : rs.Answers o) : rs'.Answers o := by
  refine ⟨?_, fun lp' hlp' => ?_⟩
  · rw [ho.1, ← Option.not_isSome_iff_eq_none, ← Option.not_isSome_iff_eq_none, h.detokenizer]
  · have hsame := h.logprobsProcessor
    rw [hlp'] at hsame
    obtain ⟨lp, hlp, hnum⟩ := Option.map_eq_some_iff.mp hsame.symm
    obtain ⟨hnum, hnumPrompt⟩ := Prod.mk.inj hnum
    obtain ⟨hnew, hnewPrompt⟩ := ho.2 lp hlp
    rw [← hnum, ← hnumPrompt]
    exact ⟨hnew, hnewPrompt⟩

end SameRequest

/-- A request with what it needs for its outputs: a detokenizer and log probabilities, or none of them
for pooling. -/
structure RequestState.Ready (rs : RequestState L) : Prop where
  prompt : rs.promptTokenIds.isSome ∨ rs.promptEmbeds.isSome
  tools : (∃ d lp, rs.detokenizer = some d ∧ rs.logprobsProcessor = some lp ∧ lp.Consistent) ∨
    (rs.detokenizer = none ∧ rs.logprobsProcessor = none ∧ rs.streamInterval ≤ 1 ∧ rs.parentReq = none)

/-- The parent has the request's kind of output, and room for its completion. -/
def RequestState.ChildOf (rs : RequestState L) (parent : Option (ParentRequest L)) : Prop :=
  ∀ q, parent = some q → q.samplingParams.outputKind = rs.outputKind ∧ rs.parentReq.isSome ∧
    (rs.outputKind = .finalOnly → rs.requestIndex < q.outputAggregator.length)

/-- What an output does to the parent. -/
inductive Reported (rs : RequestState L) (finishReason : Option FinishReason) :
    Option (ParentRequest L) → Option (ParentRequest L) → Prop where
  | alone : Reported rs finishReason none none
  | skipped (q : ParentRequest L) (hunfinished : finishReason = none) :
      Reported rs finishReason (some q) (some q)
  | reported (q q' : ParentRequest L) (c : CompletionOutput L)
      (outputs : List (Option (CompletionOutput L))) (hindex : c.index = rs.requestIndex)
      (hfinished : c.finished = finishReason.isSome)
      (hfinal : q.samplingParams.outputKind = .finalOnly → finishReason.isSome)
      (hcollects : q.Collects rs.requestId c q' outputs) :
      Reported rs finishReason (some q) (some q')

theorem Reported.isSome {rs : RequestState L} {parent parent' : Option (ParentRequest L)}
    (h : Reported rs finishReason parent parent') : parent'.isSome = parent.isSome := by
  cases h <;> rfl

theorem Reported.of_same {rs rs' : RequestState L} (hsame : SameRequest rs rs')
    {parent parent' : Option (ParentRequest L)} (h : Reported rs' finishReason parent parent') :
    Reported rs finishReason parent parent' := by
  cases h with
  | alone => exact .alone
  | skipped q hunfinished => exact .skipped q hunfinished
  | reported q q' c outputs hindex hfinished hfinal hcollects =>
    rw [hsame.requestIndex] at hindex
    rw [hsame.requestId] at hcollects
    exact .reported q q' c outputs hindex hfinished hfinal hcollects

namespace RequestState

variable {rs : RequestState L} {d : IncrementalDetokenizer} {parent : Option (ParentRequest L)}

/-- The new log probabilities are those that were asked for. -/
theorem updateFromOutput_ok {lp : LogprobsProcessor L} (h : lp.Consistent)
    {new newPrompt : Option (List L)} (hnew : new.isSome → lp.numLogprobs.isSome)
    (hnewPrompt : newPrompt.isSome → lp.numPromptLogprobs.isSome) :
    ∃ lp', lp.updateFromOutput new newPrompt = .ok lp' ∧ lp'.Consistent ∧
      lp'.numLogprobs = lp.numLogprobs ∧ lp'.numPromptLogprobs = lp.numPromptLogprobs := by
  have hsample : ∃ lp', lp.updateSampleLogprobs new = .ok lp' ∧ lp'.Consistent ∧
      lp'.numLogprobs = lp.numLogprobs ∧ lp'.numPromptLogprobs = lp.numPromptLogprobs := by
    cases new with
    | none => exact ⟨lp, rfl, h, rfl, rfl⟩
    | some more =>
      obtain ⟨count, hcount⟩ := Option.isSome_iff_exists.mp (hnew rfl)
      obtain ⟨old, hold⟩ := Option.isSome_iff_exists.mp (h.1.trans (by rw [hcount]; rfl))
      refine ⟨{ lp with logprobs := some (old ++ more) }, ?_, ⟨?_, h.2⟩, rfl, rfl⟩
      · unfold LogprobsProcessor.updateSampleLogprobs
        rw [hcount, hold]
      · rw [hcount]
        rfl
  obtain ⟨lp₁, hupdate, hconsistent, hnum, hnumPrompt⟩ := hsample
  unfold LogprobsProcessor.updateFromOutput
  rw [hupdate, ok_bind, ← hnum, ← hnumPrompt]
  rw [← hnumPrompt] at hnewPrompt
  cases newPrompt with
  | none => exact ⟨lp₁, rfl, hconsistent, rfl, rfl⟩
  | some more =>
    obtain ⟨count, hcount⟩ := Option.isSome_iff_exists.mp (hnewPrompt rfl)
    obtain ⟨old, hold⟩ := Option.isSome_iff_exists.mp (hconsistent.2.trans (by rw [hcount]; rfl))
    refine ⟨{ lp₁ with promptLogprobs := some (old ++ more.map some) }, ?_, ⟨hconsistent.1, ?_⟩, rfl, rfl⟩
    · unfold LogprobsProcessor.updatePromptLogprobs
      rw [hcount, hold]
    · rw [hcount]
      rfl

section

variable (h : rs.Ready)
include h

/-- The tokens to send are determined. -/
theorem tokensToSend_ok (newTokenIds : List Nat) (finished : Bool) :
    (rs.tokensToSend newTokenIds finished = .ok none ∧ finished = false) ∨
      ∃ rs' tokenIds, rs.tokensToSend newTokenIds finished = .ok (some (rs', tokenIds)) ∧
        SameRequest rs rs' ∧ rs'.Ready := by
  unfold tokensToSend
  by_cases hinterval : rs.streamInterval > 1
  · rw [if_pos hinterval]
    rcases h.tools with ⟨d, lp, hd, hlp, hconsistent⟩ | ⟨-, -, hle, -⟩
    · rw [hd]
      dsimp only
      split
      case isTrue =>
        right
        split
        · exact ⟨_, _, rfl, ⟨rfl, rfl, rfl, rfl, rfl, rfl, rfl, rfl, rfl, Iff.rfl, by rw [hd], rfl⟩,
            ⟨h.prompt, Or.inl ⟨d, lp, rfl, hlp, hconsistent⟩⟩⟩
        · exact ⟨rs, newTokenIds, rfl, .rfl' rs, h⟩
      case isFalse hnot =>
        left
        refine ⟨rfl, ?_⟩
        cases finished with
        | false => rfl
        | true => simp at hnot
    · omega
  · rw [if_neg hinterval]
    exact Or.inr ⟨rs, newTokenIds, rfl, .rfl' rs, h⟩

/-- A request output for completions. -/
theorem newRequestOutput_ok (hd : rs.detokenizer = some d) (externalReqId : String)
    (outputs : List (Option (CompletionOutput L))) (finished : Bool) :
    ∃ rs' output, rs.newRequestOutput externalReqId outputs finished = .ok (rs', output) ∧
      SameRequest rs rs' ∧ rs'.Ready := by
  obtain ⟨promptTokenIds, hprompt⟩ := outputPromptTokenIds_ok h.prompt
  rcases h.tools with ⟨d', lp, hd', hlp, hconsistent⟩ | ⟨hnone, -, -, -⟩
  · unfold newRequestOutput
    rw [hprompt, ok_bind, hlp]
    dsimp only
    -- in DELTA mode the prompt's log probabilities are handed out once
    split
    · obtain ⟨hlogprobs, hnum, hnumPrompt, hpop⟩ := lp.popPromptLogprobs_spec
      refine ⟨_, _, rfl, ⟨rfl, rfl, rfl, rfl, rfl, rfl, rfl, rfl, rfl, Iff.rfl, rfl, ?_⟩, h.prompt,
        Or.inl ⟨d', _, hd', rfl, ?_⟩⟩
      · rw [hlp]
        exact congrArg some (Prod.ext hnum hnumPrompt)
      · unfold LogprobsProcessor.Consistent
        rw [hlogprobs, hnum, hnumPrompt, hpop]
        exact hconsistent
    · refine ⟨_, _, rfl, ⟨rfl, rfl, rfl, rfl, rfl, rfl, rfl, rfl, rfl, Iff.rfl, rfl, ?_⟩, h.prompt,
        Or.inl ⟨d', _, hd', rfl, hconsistent⟩⟩
      rw [hlp]
  · cases hd.symm.trans hnone

/-- A completion. -/
theorem newCompletionOutput_ok (hd : rs.detokenizer = some d) (tokenIds : List Nat) (finishReason : Option FinishReason)
    (stopReason : Option StopReason) :
    ∃ rs' c d', rs.newCompletionOutput tokenIds finishReason stopReason = .ok (rs', c) ∧
      c.index = rs.requestIndex ∧ c.finished = finishReason.isSome ∧ SameRequest rs rs' ∧ rs'.Ready ∧
      rs'.detokenizer = some d' := by
  rcases h.tools with ⟨d', lp, hd', hlp, hconsistent⟩ | ⟨hnone, -, -, -⟩
  · unfold newCompletionOutput
    rw [hd, hlp]
    refine ⟨_, _, _, rfl, rfl, rfl, ⟨rfl, rfl, rfl, rfl, rfl, rfl, rfl, rfl, rfl, Iff.rfl, ?_, ?_⟩,
      ⟨h.prompt, Or.inl ⟨_, lp, rfl, rfl, hconsistent⟩⟩, rfl⟩
    · rw [hd]
      rfl
    · rw [hlp]
  · cases hd.symm.trans hnone

/-- The completion is sent, or the parent collects it. -/
theorem dispatch_ok (hd : rs.detokenizer = some d) (hchild : rs.ChildOf parent) {c : CompletionOutput L}
    (hindex : c.index = rs.requestIndex) (hfinished : c.finished = finishReason.isSome)
    (hfinal : rs.outputKind = .finalOnly → finishReason.isSome) (finished : Bool) :
    ∃ rs' parent' output, rs.dispatch parent c finished = .ok (rs', parent', output) ∧
      SameRequest rs rs' ∧ rs'.Ready ∧ Reported rs finishReason parent parent' := by
  unfold dispatch
  cases parent with
  | none =>
    obtain ⟨rs', output, hnew, hsame, hready⟩ :=
      newRequestOutput_ok h hd rs.externalReqId [some c] finished
    rw [hnew]
    exact ⟨rs', none, some output, rfl, hsame, hready, .alone⟩
  | some q =>
    obtain ⟨hkind, -, hroom⟩ := hchild q rfl
    obtain ⟨q', outputs, hget, hcollects⟩ := ParentRequest.getOutputs_ok (q := q) (c := c)
      (fun hq => hindex ▸ hroom (hkind ▸ hq)) rs.requestId
    dsimp only
    rw [hget, ok_bind]
    have hreported : Reported rs finishReason (some q) (some q') :=
      .reported q q' c outputs hindex hfinished (fun hq => hfinal (hkind ▸ hq)) hcollects
    unfold newParentOutput
    by_cases hnil : outputs = []
    · rw [if_pos hnil]
      exact ⟨rs, some q', none, rfl, .rfl' rs, h, hreported⟩
    · obtain ⟨rs', output, hnew, hsame, hready⟩ :=
        newRequestOutput_ok h hd q'.externalReqId outputs q'.childRequests.isEmpty
      rw [if_neg hnil, hnew]
      exact ⟨rs', some q', some output, rfl, hsame, hready, hreported⟩

/-- `make_request_output` of a live request. -/
theorem makeRequestOutput_ok (hchild : rs.ChildOf parent) (newTokenIds : List Nat) {poolingOutput : Option Tensor}
    (hpooling : poolingOutput.isSome ↔ rs.detokenizer = none) (finishReason : Option FinishReason)
    (stopReason : Option StopReason) :
    ∃ rs' parent' output, rs.makeRequestOutput parent newTokenIds poolingOutput finishReason stopReason =
        .ok (rs', parent', output) ∧ SameRequest rs rs' ∧ rs'.Ready ∧ Reported rs finishReason parent parent' := by
  have hskipped : finishReason = none → Reported rs finishReason parent parent := by
    intro hnone
    cases parent with
    | none => exact .alone
    | some q => exact .skipped q hnone
  unfold makeRequestOutput
  by_cases hskip : finishReason = none ∧ rs.outputKind = .finalOnly
  · rw [if_pos hskip]
    exact ⟨rs, parent, none, rfl, .rfl' rs, h, hskipped hskip.1⟩
  · rw [if_neg hskip]
    have hfinal : rs.outputKind = .finalOnly → finishReason.isSome := by
      intro hkind
      rw [Option.isSome_iff_ne_none]
      exact fun hnone => hskip ⟨hnone, hkind⟩
    rcases tokensToSend_ok h newTokenIds finishReason.isSome with ⟨htokens, hfinished⟩ |
      ⟨rs₁, tokenIds, htokens, hsame₁, hready₁⟩
    · rw [htokens]
      exact ⟨rs, parent, none, rfl, .rfl' rs, h,
        hskipped (Option.not_isSome_iff_eq_none.mp (by simp [hfinished]))⟩
    · rw [htokens, ok_bind]
      dsimp only
      unfold buildOutput
      cases poolingOutput with
      | some data =>
        obtain ⟨promptTokenIds, hprompt⟩ := outputPromptTokenIds_ok hready₁.prompt
        have hnone : parent = none := by
          cases parent with
          | none => rfl
          | some q =>
            rcases h.tools with ⟨d, lp, hd, -, -⟩ | ⟨-, -, -, halone⟩
            · cases hd.symm.trans (hpooling.mp rfl)
            · have hparent := (hchild q rfl).2.1
              rw [halone] at hparent
              cases hparent
        subst hnone
        unfold newPoolingRequestOutput
        rw [hprompt]
        exact ⟨rs₁, none, _, rfl, hsame₁, hready₁, .alone⟩
      | none =>
        obtain ⟨d, hd⟩ : ∃ d, rs.detokenizer = some d :=
          Option.ne_none_iff_exists'.mp fun hnone => by cases hpooling.mpr hnone
        obtain ⟨d₁, hd₁⟩ := Option.isSome_iff_exists.mp
          (hsame₁.detokenizer.trans (by rw [hd]; rfl))
        obtain ⟨rs₂, c, d₂, hcompletion, hindex, hfinished, hsame₂, hready₂, hd₂⟩ :=
          newCompletionOutput_ok hready₁ hd₁ tokenIds finishReason stopReason
        have hsame := hsame₁.trans hsame₂
        have hchild₂ : rs₂.ChildOf parent := by
          intro q hq
          rw [hsame.outputKind, hsame.parentReq, hsame.requestIndex]
          exact hchild q hq
        obtain ⟨rs₃, parent', output, hdispatch, hsame₃, hready₃, hreported⟩ :=
          dispatch_ok hready₂ hd₂ hchild₂ (hindex.trans (by rw [hsame₂.requestIndex])) hfinished
            (fun hkind => hfinal (hsame.outputKind ▸ hkind)) finishReason.isSome
        rw [hcompletion]
        exact ⟨rs₃, parent', output, hdispatch, hsame.trans hsame₃, hready₃, hreported.of_same hsame⟩

/-- `process_outputs`, steps 2 and 3, of a live request. -/
theorem decodeOutput_ok (ho : rs.Answers o) :
    ∃ rs' finishReason stopReason, rs.decodeOutput o = .ok (rs', finishReason, stopReason) ∧
      SameRequest rs rs' ∧ rs'.Ready := by
  unfold decodeOutput
  rcases h.tools with ⟨d, lp, hd, hlp, hconsistent⟩ | ⟨hnone, hnoLogprobs, hinterval, halone⟩
  · have hpooling : o.poolingOutput = none := by
      apply Option.not_isSome_iff_eq_none.mp
      intro hsome
      cases hd.symm.trans (ho.1.mp hsome)
    obtain ⟨hnew, hnewPrompt⟩ := ho.2 lp hlp
    obtain ⟨lp', hupdate, hconsistent', hnum, hnumPrompt⟩ := updateFromOutput_ok hconsistent hnew hnewPrompt
    rw [hpooling, hd, hlp]
    dsimp only
    rw [hupdate]
    have hsame : ∀ d', SameRequest rs { rs with
        numCachedTokens := o.numCachedTokens, isPrefilling := false
        detokenizer := some d', logprobsProcessor := some lp' } := by
      intro d'
      refine ⟨rfl, rfl, rfl, rfl, rfl, rfl, rfl, rfl, rfl, Iff.rfl, ?_, ?_⟩
      · rw [hd]
        rfl
      · rw [hlp]
        exact congrArg some (Prod.ext hnum hnumPrompt)
    have hready : ∀ d', RequestState.Ready { rs with
        numCachedTokens := o.numCachedTokens, isPrefilling := false
        detokenizer := some d', logprobsProcessor := some lp' } :=
      fun d' => ⟨h.prompt, Or.inl ⟨d', lp', rfl, rfl, hconsistent'⟩⟩
    split
    · exact ⟨_, _, _, rfl, hsame _, hready _⟩
    · exact ⟨_, _, _, rfl, hsame _, hready _⟩
  · obtain ⟨data, hdata⟩ := Option.isSome_iff_exists.mp (ho.1.mpr hnone)
    rw [hdata]
    exact ⟨_, _, _, rfl, ⟨rfl, rfl, rfl, rfl, rfl, rfl, rfl, rfl, rfl, Iff.rfl, rfl, rfl⟩, h.prompt,
      Or.inr ⟨hnone, hnoLogprobs, hinterval, halone⟩⟩

/-- `process_outputs`, steps 2 to 4, of a live request. -/
theorem advance_ok (hchild : rs.ChildOf parent) (ho : rs.Answers o) :
    ∃ rs' parent' output finishReason, rs.advance parent o = .ok (rs', parent', output, finishReason) ∧
      SameRequest rs rs' ∧ rs'.Ready ∧ Reported rs finishReason parent parent' ∧
      ∃ rs₁ stopReason, rs.decodeOutput o = .ok (rs₁, finishReason, stopReason) := by
  obtain ⟨rs₁, finishReason, stopReason, hdecode, hsame₁, hready₁⟩ := decodeOutput_ok h ho
  have hchild₁ : rs₁.ChildOf parent := by
    intro q hq
    rw [hsame₁.outputKind, hsame₁.parentReq, hsame₁.requestIndex]
    exact hchild q hq
  obtain ⟨rs₂, parent', output, hmake, hsame₂, hready₂, hreported⟩ := makeRequestOutput_ok hready₁ hchild₁
    o.newTokenIds (hsame₁.answers ho).1 finishReason stopReason
  have hadvance : rs.advance parent o = .ok (rs₂, parent',
      if rs₂.streamingInput then output.map Output.unfinished else output, finishReason) := by
    unfold advance
    rw [hdecode, ok_bind]
    dsimp only
    rw [hmake]
    rfl
  exact ⟨rs₂, parent', _, finishReason, hadvance, hsame₁.trans hsame₂, hready₂,
    hreported.of_same hsame₁, rs₁, stopReason, hdecode⟩

end

end RequestState

end Yuan.Frontend
