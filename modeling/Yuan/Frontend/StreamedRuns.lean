import Yuan.Frontend.StreamedDeltas

/-!
# Streamed runs

A request goes through the engine's outputs to its end. What is decoded does not depend on what was sent
before, so a request in FINAL_ONLY mode decodes the same text. In DELTA mode the pieces add up to it.
-/

namespace Yuan.Frontend

variable {L : Type}

/-! ## What is decoded -/

/-- The stop string that is found is one of the request's. -/
theorem mem_stop_of_update {params : Core.StopParams} {d : Core.BaseIncrementalDetokenizer}
    {pieces : List (List Char)} {stopTerminated : Bool} {s : List Char}
    (h : (d.update params pieces stopTerminated).2 = some s) : s ∈ params.stop := by
  have hevaluate : ∀ (d : Core.BaseIncrementalDetokenizer) (offset : Nat),
      (d.evaluateStop params offset).2 = some s → s ∈ params.stop := by
    intro d offset h
    unfold Core.BaseIncrementalDetokenizer.evaluateStop at h
    split at h
    case isFalse => cases h
    case isTrue =>
      split at h
      case h_1 => cases h
      case h_2 stopString truncateTo hfound =>
        have hs : stopString = s := by
          split at h <;> exact Option.some.inj h
        subst hs
        unfold Core.checkStopStrings at hfound
        split at hfound
        · cases hfound
        · obtain ⟨t, ht, hfind⟩ := List.exists_of_findSome?_eq_some hfound
          split at hfind
          · cases hfind
          · split at hfind
            · split at hfind <;> cases hfind <;> exact ht
            · cases hfind
              exact ht
  unfold Core.BaseIncrementalDetokenizer.update at h
  split at h
  · cases h
  · split at h <;> exact hevaluate _ _ h

/-- The decoder as if nothing was sent. -/
def Decoder.unsent (decoder : Decoder) : Decoder := { decoder with lastOutputTextOffset := 0 }

theorem Decoder.unsent_getNextOutputText (decoder : Decoder) (finished delta : Bool) :
    (decoder.getNextOutputText finished delta).1.unsent = decoder.unsent := by
  unfold getNextOutputText
  simp only
  repeat' split
  all_goals rfl

namespace IncrementalDetokenizer

variable {d : IncrementalDetokenizer}

/-- The detokenizer as if nothing was sent. -/
def unsent (d : IncrementalDetokenizer) : IncrementalDetokenizer :=
  { d with decoder := d.decoder.map Decoder.unsent }

section

variable (d : IncrementalDetokenizer)

@[simp] theorem outputTokenIds_unsent : d.unsent.outputTokenIds = d.outputTokenIds := rfl

theorem outputText_unsent : d.unsent.outputText = d.outputText := by
  obtain ⟨promptLen, tokenIds, decoder⟩ := d
  cases decoder <;> rfl

theorem update_unsent (newTokenIds : List Nat) (stopTerminated : Bool) :
    d.unsent.update newTokenIds stopTerminated =
      ((d.update newTokenIds stopTerminated).1.unsent, (d.update newTokenIds stopTerminated).2) := by
  obtain ⟨promptLen, tokenIds, decoder⟩ := d
  cases decoder with
  | none => rfl
  | some decoder =>
    by_cases hne : newTokenIds = []
    · subst hne
      rw [update_nil, update_nil]
    · rw [decoder_update_of_some rfl hne, decoder_update_of_some rfl hne]
      rfl

theorem unsent_getNextOutputText (finished delta : Bool) :
    (d.getNextOutputText finished delta).1.unsent = d.unsent := by
  obtain ⟨promptLen, tokenIds, decoder⟩ := d
  cases decoder with
  | none => rfl
  | some decoder =>
    exact congrArg (fun decoder => IncrementalDetokenizer.mk promptLen tokenIds (some decoder))
      (decoder.unsent_getNextOutputText finished delta)

theorem tokenIds_update (newTokenIds : List Nat) (stopTerminated : Bool) :
    (d.update newTokenIds stopTerminated).1.tokenIds = d.tokenIds ++ newTokenIds ∧
      (d.update newTokenIds stopTerminated).1.promptLen = d.promptLen := by
  by_cases hne : newTokenIds = []
  · subst hne
    rw [update_nil, List.append_nil]
    exact ⟨rfl, rfl⟩
  · cases hdecoder : d.decoder with
    | none =>
      rw [decoder_update_of_none hdecoder]
      exact ⟨rfl, rfl⟩
    | some decoder =>
      rw [decoder_update_of_some hdecoder hne]
      exact ⟨rfl, rfl⟩

end

/-- A request without stop strings does not find any. -/
theorem update_found_mem {params : Core.StopParams} {text : List Char} (h : Held params d text)
    {newTokenIds : List Nat} {stopTerminated : Bool} {s : List Char}
    (hfound : (d.update newTokenIds stopTerminated).2 = some s) : s ∈ params.stop := by
  by_cases hne : newTokenIds = []
  · subst hne
    rw [update_nil] at hfound
    cases hfound
  · cases hdecoder : d.decoder with
    | none =>
      rw [decoder_update_of_none hdecoder] at hfound
      cases hfound
    | some decoder =>
      rw [decoder_update_of_some hdecoder hne] at hfound
      rw [← (h decoder hdecoder).1]
      exact mem_stop_of_update hfound

end IncrementalDetokenizer

namespace RequestEvent

/-- Decodes the tokens of an event: the stop string that is found. -/
def decode (d : IncrementalDetokenizer) :
    RequestEvent L → IncrementalDetokenizer × Option (List Char)
  | .output o _ => d.update o.newTokenIds (decide (o.finishReason = some .stop))
  | .abort _ => (d, none)
  | .streamingUpdate _ => (d, none)

/-- The event ends the request, or an input of its session. -/
def finishes (d : IncrementalDetokenizer) (event : RequestEvent L) : Bool :=
  event.closes || (event.decode d).2.isSome

theorem decode_unsent (d : IncrementalDetokenizer) (event : RequestEvent L) :
    event.decode d.unsent = ((event.decode d).1.unsent, (event.decode d).2) := by
  cases event with
  | output o parent => exact d.update_unsent _ _
  | abort parent => rfl
  | streamingUpdate update => rfl

theorem finishes_unsent (d : IncrementalDetokenizer) (event : RequestEvent L) :
    event.finishes d.unsent = event.finishes d := by
  unfold finishes
  rw [decode_unsent]

end RequestEvent

/-- A request that has sent nothing has nothing to cut off. -/
theorem IncrementalDetokenizer.Held.decode {params : Core.StopParams} {d : IncrementalDetokenizer}
    (h : d.Held params []) (event : RequestEvent L) : (event.decode d).1.Held params [] := by
  cases event with
  | abort parent => exact h
  | streamingUpdate update => exact h
  | output o parent =>
    show IncrementalDetokenizer.Held params (d.update _ _).1 []
    by_cases hne : o.newTokenIds = []
    · rw [hne, update_nil]
      exact h
    · cases hdecoder : d.decoder with
      | none =>
        rw [decoder_update_of_none hdecoder]
        intro decoder hsome
        rw [hdecoder] at hsome
        cases hsome
      | some decoder =>
        rw [decoder_update_of_some hdecoder hne]
        intro decoder' hsome
        cases hsome
        exact ⟨(h decoder hdecoder).1, Or.inl rfl⟩

/-- Decodes the tokens of all events. -/
def decodeAll (d : IncrementalDetokenizer) : List (RequestEvent L) → IncrementalDetokenizer
  | [] => d
  | event :: events => decodeAll (event.decode d).1 events

theorem decodeAll_unsent (d : IncrementalDetokenizer) (events : List (RequestEvent L)) :
    decodeAll d.unsent events = (decodeAll d events).unsent := by
  induction events generalizing d with
  | nil => rfl
  | cons event events ih =>
    show decodeAll (event.decode d.unsent).1 events = (decodeAll (event.decode d).1 events).unsent
    rw [RequestEvent.decode_unsent]
    exact ih _

/-- The last of the events finishes the request, as the decoded text has it. -/
def Ends (d : IncrementalDetokenizer) : List (RequestEvent L) → Prop
  | [] => False
  | [event] => event.finishes d = true
  | event :: next :: events => Ends (event.decode d).1 (next :: events)

theorem ends_unsent (d : IncrementalDetokenizer) (events : List (RequestEvent L)) :
    Ends d.unsent events ↔ Ends d events := by
  induction events generalizing d with
  | nil => exact Iff.rfl
  | cons event events ih =>
    cases events with
    | nil =>
      show event.finishes d.unsent = true ↔ event.finishes d = true
      rw [RequestEvent.finishes_unsent]
    | cons next events =>
      show Ends (event.decode d.unsent).1 (next :: events) ↔ Ends (event.decode d).1 (next :: events)
      rw [RequestEvent.decode_unsent]
      exact ih _

theorem Output.completions_unfinished (output : Output L) : output.unfinished.completions = output.completions := by
  cases output <;> rfl

/-- The completions of an output do not depend on whether it is marked as unfinished. -/
theorem completions_marked (streamingInput : Bool) (output : Option (Output L)) :
    (if streamingInput then output.map Output.unfinished else output).toList.flatMap
      Output.completions = output.toList.flatMap Output.completions := by
  cases streamingInput with
  | false => rfl
  | true =>
    cases output with
    | none => rfl
    | some output =>
      show (output.unfinished.completions ++ []) = output.completions ++ []
      rw [Output.completions_unfinished]

/-! ## A request that is served -/

/-- A request that asked for tokens: with what it decodes, and with one entry of log probabilities for
each token if it asked for them. -/
structure Serving (params : SamplingParams) (rs : RequestState L) (d : IncrementalDetokenizer)
    (lp : LogprobsProcessor L) : Prop where
  detokenizer : rs.detokenizer = some d
  logprobsProcessor : rs.logprobsProcessor = some lp
  prompt : rs.promptTokenIds.isSome ∨ rs.promptEmbeds.isSome
  promptLen : d.promptLen ≤ d.tokenIds.length
  numLogprobs : lp.numLogprobs = params.logprobs
  logprobs : lp.logprobs.map List.length = params.logprobs.map fun _ => d.numOutputTokens
  numPromptLogprobs : lp.numPromptLogprobs = params.promptLogprobs
  promptLogprobs : lp.promptLogprobs.isSome = params.promptLogprobs.isSome

/-- The new log probabilities are appended. -/
theorem LogprobsProcessor.updateFromOutput_ok {lp : LogprobsProcessor L} {params : SamplingParams}
    (hnum : lp.numLogprobs = params.logprobs)
    (hlogprobs : lp.logprobs.isSome = params.logprobs.isSome)
    (hprompt : lp.numPromptLogprobs = params.promptLogprobs)
    (hpromptLogprobs : lp.promptLogprobs.isSome = params.promptLogprobs.isSome)
    {new newPrompt : Option (List L)} (hnew : new.isSome → params.logprobs.isSome)
    (hnewPrompt : newPrompt.isSome → params.promptLogprobs.isSome) :
    ∃ promptLogprobs, lp.updateFromOutput new newPrompt = .ok
      { lp with logprobs := lp.logprobs.map (· ++ new.getD []), promptLogprobs := promptLogprobs } ∧
        promptLogprobs.isSome = params.promptLogprobs.isSome := by
  have hsample : lp.updateSampleLogprobs new =
      .ok { lp with logprobs := lp.logprobs.map (· ++ new.getD []) } := by
    cases hparams : params.logprobs with
    | none =>
      rw [hparams] at hlogprobs hnew
      have hold : lp.logprobs = none := Option.not_isSome_iff_eq_none.mp (by simp [hlogprobs])
      have hmore : new = none := Option.not_isSome_iff_eq_none.mp fun hsome => by cases hnew hsome
      have hmap : lp.logprobs.map (· ++ new.getD []) = lp.logprobs := by
        rw [hold]
        rfl
      rw [hmap, hmore]
      rfl
    | some count =>
      rw [hparams] at hnum hlogprobs
      obtain ⟨old, hold⟩ := Option.isSome_iff_exists.mp hlogprobs
      unfold updateSampleLogprobs
      cases new with
      | none =>
        have hmap : lp.logprobs.map (· ++ (none : Option (List L)).getD []) = lp.logprobs := by
          simp
        rw [hmap]
      | some more =>
        rw [hnum, hold]
        rfl
  unfold updateFromOutput
  rw [hsample, ok_bind]
  cases newPrompt with
  | none => exact ⟨lp.promptLogprobs, rfl, hpromptLogprobs⟩
  | some more =>
    obtain ⟨count, hcount⟩ := Option.isSome_iff_exists.mp (hnewPrompt rfl)
    rw [hcount] at hprompt hpromptLogprobs
    obtain ⟨old, hold⟩ := Option.isSome_iff_exists.mp hpromptLogprobs
    refine ⟨some (old ++ more.map some), ?_, ?_⟩
    · unfold updatePromptLogprobs
      rw [hprompt, hold]
    · rw [hcount]
      rfl

/-- The state behind `decodeOutput`. -/
def RequestState.decoded (rs : RequestState L) (o : EngineCoreOutput L) (d : IncrementalDetokenizer)
    (lp : LogprobsProcessor L) : RequestState L :=
  { rs with
    numCachedTokens := o.numCachedTokens
    isPrefilling := false
    detokenizer := some d
    logprobsProcessor := some lp }

namespace Serving

variable {params : SamplingParams} {rs : RequestState L} {d : IncrementalDetokenizer}
  {lp : LogprobsProcessor L}

section

variable (h : Serving params rs d lp) {requestId : String}
include h

/-- An output of the engine is decoded. A stop string ends the request, otherwise the engine's reason
does. -/
theorem decodeOutput (hstop : ∀ s ∈ params.stopParams.stop, s ≠ []) {text : List Char}
    (hheld : d.Held params.stopParams text) {o : EngineCoreOutput L} {parent : Option (ParentRequest L)}
    (hfits : (RequestEvent.output o parent).Fits params requestId) :
    ∃ lp' finishReason stopReason,
      rs.decodeOutput o = .ok (rs.decoded o ((RequestEvent.output o parent).decode d).1 lp', finishReason, stopReason) ∧
      Serving params (rs.decoded o ((RequestEvent.output o parent).decode d).1 lp')
        ((RequestEvent.output o parent).decode d).1 lp' ∧
      lp'.logprobs = lp.logprobs.map (· ++ (RequestEvent.output o parent).newLogprobs) ∧
      finishReason.isSome = (RequestEvent.output o parent).finishes d := by
  obtain ⟨hpooling, hasked, hcount, hprompt, -⟩ := hfits
  obtain ⟨promptLogprobs, hupdate, hpromptLogprobs⟩ := LogprobsProcessor.updateFromOutput_ok
    h.numLogprobs (by simpa using congrArg Option.isSome h.logprobs) h.numPromptLogprobs
    h.promptLogprobs hasked hprompt
  let lp' : LogprobsProcessor L :=
    { lp with
      logprobs := lp.logprobs.map (· ++ o.newLogprobs.getD []), promptLogprobs := promptLogprobs }
  obtain ⟨htokens, hpromptLen⟩ :=
    d.tokenIds_update o.newTokenIds (decide (o.finishReason = some .stop))
  have hserving : Serving params
      (rs.decoded o (d.update o.newTokenIds (decide (o.finishReason = some .stop))).1 lp')
      (d.update o.newTokenIds (decide (o.finishReason = some .stop))).1 lp' := by
    refine ⟨rfl, rfl, h.prompt, ?_, h.numLogprobs, ?_, h.numPromptLogprobs, hpromptLogprobs⟩
    · rw [htokens, hpromptLen, List.length_append]
      exact Nat.le_add_right_of_le h.promptLen
    · have hold := h.logprobs
      show (lp.logprobs.map (· ++ o.newLogprobs.getD [])).map List.length = _
      unfold IncrementalDetokenizer.numOutputTokens at hold ⊢
      rw [htokens, hpromptLen, List.length_append]
      cases hparams : params.logprobs with
      | none =>
        rw [hparams, Option.map_none, Option.map_eq_none_iff] at hold
        rw [hold]
        rfl
      | some count =>
        rw [hparams] at hold hcount
        obtain ⟨old, hold, hlength⟩ := Option.map_eq_some_iff.mp hold
        rw [hold, Option.map_some, Option.map_some, List.length_append, hlength, hcount rfl, Option.map_some]
        rw [Nat.sub_add_comm h.promptLen]
  have hopen : (d.update o.newTokenIds (decide (o.finishReason = some .stop))).2 = none →
      rs.decodeOutput o = .ok
        (rs.decoded o (d.update o.newTokenIds (decide (o.finishReason = some .stop))).1 lp',
          o.finishReason, o.stopReason) := by
    intro hfound
    unfold RequestState.decodeOutput
    rw [hpooling, h.detokenizer, h.logprobsProcessor]
    dsimp only
    rw [hupdate]
    rw [hfound]
    rfl
  have hstopped : ∀ c s,
      (d.update o.newTokenIds (decide (o.finishReason = some .stop))).2 = some (c :: s) →
      rs.decodeOutput o = .ok
        (rs.decoded o (d.update o.newTokenIds (decide (o.finishReason = some .stop))).1 lp',
          some .stop, some (.str (c :: s))) := by
    intro c s hfound
    unfold RequestState.decodeOutput
    rw [hpooling, h.detokenizer, h.logprobsProcessor]
    dsimp only
    rw [hupdate]
    rw [hfound]
    rfl
  cases hfound : (d.update o.newTokenIds (decide (o.finishReason = some .stop))).2 with
  | none =>
    refine ⟨lp', _, _, hopen hfound, hserving, rfl, ?_⟩
    show _ = (o.finishReason.isSome || (d.update _ _).2.isSome)
    rw [hfound, Option.isSome_none, Bool.or_false]
  | some s =>
    cases s with
    | nil => exact absurd rfl (hstop [] (IncrementalDetokenizer.update_found_mem hheld hfound))
    | cons c s =>
      refine ⟨lp', _, _, hstopped c s hfound, hserving, rfl, ?_⟩
      show _ = (o.finishReason.isSome || (d.update _ _).2.isSome)
      rw [hfound]
      simp

/-! ## FINAL_ONLY mode -/

/-- A request that ends sends all its text. -/
theorem makeRequestOutput_finalOnly (hkind : rs.outputKind = .finalOnly) (newTokenIds : List Nat)
    (finishReason : FinishReason) (stopReason : Option StopReason) :
    ∃ rs' output c, rs.makeRequestOutput none newTokenIds none (some finishReason) stopReason =
        .ok (rs', none, some output) ∧ output.completions = [c] ∧ c.text = d.outputText ∧
      Serving params rs' d lp ∧ rs'.outputKind = .finalOnly := by
  obtain ⟨promptTokenIds, hprompt⟩ := RequestState.outputPromptTokenIds_ok h.prompt
  have htokens : rs.tokensToSend newTokenIds true = .ok (some (rs, newTokenIds)) := by
    unfold RequestState.tokensToSend
    rw [h.detokenizer, hkind]
    simp
  have hcompletion : ∃ c, rs.newCompletionOutput newTokenIds (some finishReason) stopReason =
      .ok ({ rs with detokenizer := some d }, c) ∧ c.text = d.outputText := by
    have hall : d.getNextOutputText true false = (d, d.outputText) := by
      obtain ⟨promptLen, tokenIds, decoder⟩ := d
      cases decoder <;> rfl
    unfold RequestState.newCompletionOutput
    rw [h.detokenizer, h.logprobsProcessor, hkind]
    simp only [reduceCtorEq, decide_false, Option.isSome_some, hall]
    exact ⟨_, rfl, rfl⟩
  obtain ⟨c, hcompletion, htext⟩ := hcompletion
  let output : RequestOutput L := {
    requestId := rs.externalReqId
    prompt := rs.prompt
    promptTokenIds := promptTokenIds
    promptLogprobs := lp.promptLogprobs
    outputs := [some c]
    finished := true
    numCachedTokens := rs.numCachedTokens }
  refine ⟨{ rs with detokenizer := some d, logprobsProcessor := some lp }, .request output, c, ?_, rfl,
    htext, ?_, hkind⟩
  · unfold RequestState.makeRequestOutput
    rw [if_neg (by simp), Option.isSome_some, htokens, ok_bind]
    unfold RequestState.buildOutput
    dsimp only
    rw [hcompletion, ok_bind]
    unfold RequestState.dispatch RequestState.newRequestOutput
    have hprompt' : RequestState.outputPromptTokenIds { rs with detokenizer := some d } =
        .ok promptTokenIds := hprompt
    rw [hprompt', ok_bind, h.logprobsProcessor, hkind]
    rfl
  · exact ⟨rfl, rfl, h.prompt, h.promptLen, h.numLogprobs, h.logprobs, h.numPromptLogprobs,
      h.promptLogprobs⟩

/-- An update of the prompt does not touch what is decoded. -/
theorem applyStreamingUpdate (update : StreamingUpdate) : Serving params (rs.applyStreamingUpdate update) d lp :=
  ⟨h.detokenizer, h.logprobsProcessor, Or.inl rfl, h.promptLen, h.numLogprobs, h.logprobs,
    h.numPromptLogprobs, h.promptLogprobs⟩

/-- One event in FINAL_ONLY mode: what ends sends the text that was decoded. -/
theorem react_finalOnly (hkind : rs.outputKind = .finalOnly) (hstop : ∀ s ∈ params.stopParams.stop, s ≠ [])
    (hheld : d.Held params.stopParams []) {event : RequestEvent L} (hfits : event.Fits params requestId) :
    ∃ rs' lp' sent, rs.react event.alone = .ok (rs', sent, event.finishes d) ∧
      Serving params rs' (event.decode d).1 lp' ∧ rs'.outputKind = .finalOnly ∧
      (event.finishes d = true → ∃ c, sent = [c] ∧ c.text = (event.decode d).1.outputText) := by
  cases event with
  | streamingUpdate update =>
    exact ⟨_, lp, [], rfl, h.applyStreamingUpdate update, hkind, fun h => by cases h⟩
  | abort parent =>
    obtain ⟨rs', output, c, hmake, hcompletions, htext, hserving, hkind'⟩ :=
      h.makeRequestOutput_finalOnly hkind [] .abort none
    refine ⟨rs', lp, [c], ?_, hserving, hkind', fun _ => ⟨c, rfl, htext⟩⟩
    unfold RequestEvent.alone RequestState.react RequestState.abortOutput
    rw [h.detokenizer]
    simp only [Option.isNone_some, Bool.false_eq_true, ↓reduceIte]
    rw [hmake, ok_bind]
    simp [hcompletions, RequestEvent.finishes]
    rfl
  | output o parent =>
    obtain ⟨lp', finishReason, stopReason, hdecode, hserving, -, hfinishes⟩ :=
      h.decodeOutput hstop hheld hfits
    have hpooling : o.poolingOutput = none := hfits.1
    have hadvance : ∀ rs' output,
        (rs.decoded o ((RequestEvent.output o parent).decode d).1 lp').makeRequestOutput none
          o.newTokenIds none finishReason stopReason = .ok (rs', none, output) →
        rs.react (RequestEvent.output o parent).alone =
          .ok (rs', output.toList.flatMap Output.completions, finishReason.isSome) := by
      intro rs' output hmake
      unfold RequestEvent.alone RequestState.react RequestState.advance
      dsimp only
      rw [hdecode, ok_bind, hpooling, hmake]
      show Except.ok _ = _
      rw [completions_marked]
    rw [← hfinishes]
    cases finishReason with
    | none =>
      refine ⟨_, lp', [], hadvance _ none ?_, hserving, hkind, fun h => by cases h⟩
      exact if_pos ⟨rfl, hkind⟩
    | some finishReason =>
      obtain ⟨rs', output, c, hmake, hcompletions, htext, hserving', hkind'⟩ :=
        hserving.makeRequestOutput_finalOnly hkind o.newTokenIds finishReason stopReason
      refine ⟨rs', lp', [c], ?_, hserving', hkind', fun _ => ⟨c, rfl, htext⟩⟩
      rw [hadvance rs' (some output) hmake]
      simp [hcompletions]

/-- A whole run in FINAL_ONLY mode: the last output has all the text that was decoded. -/
theorem serve_finalOnly (hkind : rs.outputKind = .finalOnly) (hstop : ∀ s ∈ params.stopParams.stop, s ≠ [])
    (hheld : d.Held params.stopParams []) {events : List (RequestEvent L)}
    (hfits : ∀ event ∈ events, event.Fits params requestId) (hends : Ends d events) :
    ∃ rs' sent last, rs.serve (events.map RequestEvent.alone) = .ok (rs', sent) ∧
      sent.getLast? = some last ∧ last.text = (decodeAll d events).outputText := by
  induction events generalizing rs d lp with
  | nil => cases hends
  | cons event events ih =>
    obtain ⟨rs₁, lp₁, sent₁, hreact, hserving, hkind₁, hlast⟩ :=
      h.react_finalOnly hkind hstop hheld (hfits event List.mem_cons_self)
    unfold RequestState.serve
    rw [List.map_cons]
    dsimp only
    rw [hreact, ok_bind]
    cases events with
    | nil =>
      obtain ⟨c, hsent, htext⟩ := hlast hends
      exact ⟨rs₁, sent₁ ++ [], c, rfl, by rw [hsent]; rfl, htext⟩
    | cons next events =>
      obtain ⟨rs₂, sent₂, last, hserve, hgetLast, htext⟩ := ih hserving hkind₁
        (hheld.decode event) (fun e he => hfits e (List.mem_cons_of_mem _ he)) hends
      rw [hserve]
      refine ⟨rs₂, sent₁ ++ sent₂, last, rfl, ?_, htext⟩
      rw [List.getLast?_append, hgetLast]
      rfl

end

end Serving

end Yuan.Frontend
