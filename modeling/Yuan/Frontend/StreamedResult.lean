import Yuan.Frontend.StreamedRuns

/-!
# The result of a streamed request

The invariant of a request in DELTA mode: what was sent is a prefix of what is there, and has at least one
entry of log probabilities for each token. It has exactly one for each as long as no output without a
token was sent behind a first token.
-/

namespace Yuan.Frontend

variable {L : Type}

/-- What was sent has one entry of log probabilities for each token. -/
def OneEach (cs : List (CompletionOutput L)) : Prop := (logprobsOf cs).length = (tokensOf cs).length

/-- A request in DELTA mode that has sent `cs`; `newTokenIds` are the tokens of the last output. -/
structure Streaming (params : SamplingParams) (id : String) (interval : Nat) (rs : RequestState L)
    (d : IncrementalDetokenizer) (lp : LogprobsProcessor L) (cs : List (CompletionOutput L))
    (newTokenIds : List Nat) : Prop where
  serving : Serving params rs d lp
  requestId : rs.requestId = id
  outputKind : rs.outputKind = .delta
  streamInterval : rs.streamInterval = interval
  text : d.Sent (textOf cs)
  tokens : tokensOf cs <+: d.outputTokenIds
  now : interval ≤ 1 → d.outputTokenIds = tokensOf cs ++ newTokenIds
  offset : 1 < interval → rs.sentTokensOffset = (tokensOf cs).length
  entries : ∀ l, lp.logprobs = some l → (tokensOf cs).length ≤ (logprobsOf cs).length ∧
    (OneEach cs → logprobsOf cs = l.take (tokensOf cs).length)

/-- What sending an output, or skipping it, leads to. -/
structure Sending (params : SamplingParams) (id : String) (interval : Nat) (d : IncrementalDetokenizer)
    (lp : LogprobsProcessor L) (cs : List (CompletionOutput L)) (finished : Bool)
    (rs' : RequestState L) (d' : IncrementalDetokenizer) (lp' : LogprobsProcessor L)
    (sent : List (CompletionOutput L)) : Prop where
  streaming : Streaming params id interval rs' d' lp' (cs ++ sent) []
  unsent : d'.unsent = d.unsent
  logprobs : lp'.logprobs = lp.logprobs
  text : finished = true → textOf (cs ++ sent) = d.outputText
  held : finished = false ∨ params.stopParams.stop = [] → d.Held params.stopParams (textOf cs) →
    d'.Held params.stopParams (textOf (cs ++ sent))
  skips : ¬ Sends interval d.numOutputTokens (tokensOf cs).length finished → sent = []
  sends : Sends interval d.numOutputTokens (tokensOf cs).length finished →
    tokensOf (cs ++ sent) = d.outputTokenIds ∧
      ∀ l, lp.logprobs = some l → (OneEach (cs ++ sent) ↔ OneEach cs ∧
        ((tokensOf cs).length < d.numOutputTokens ∨ d.numOutputTokens = 0))

section

variable (cs more : List (CompletionOutput L))

@[simp] theorem textOf_append : textOf (cs ++ more) = textOf cs ++ textOf more := List.flatMap_append

@[simp] theorem tokensOf_append : tokensOf (cs ++ more) = tokensOf cs ++ tokensOf more := List.flatMap_append

@[simp] theorem logprobsOf_append : logprobsOf (cs ++ more) = logprobsOf cs ++ logprobsOf more := List.flatMap_append

end

theorem IncrementalDetokenizer.length_outputTokenIds (d : IncrementalDetokenizer) :
    d.outputTokenIds.length = d.numOutputTokens := List.length_drop

theorem numOutputTokens_decode {d : IncrementalDetokenizer} (h : d.promptLen ≤ d.tokenIds.length)
    (event : RequestEvent L) : (event.decode d).1.numOutputTokens = d.numOutputTokens + event.newTokenIds.length := by
  cases event with
  | abort parent => rfl
  | streamingUpdate update => rfl
  | output o parent =>
    obtain ⟨htokens, hpromptLen⟩ :=
      d.tokenIds_update o.newTokenIds (decide (o.finishReason = some .stop))
    show (d.update _ _).1.tokenIds.length - (d.update _ _).1.promptLen =
      d.tokenIds.length - d.promptLen + o.newTokenIds.length
    rw [htokens, hpromptLen, List.length_append, Nat.sub_add_comm h]

/-- The log probabilities that go with the tokens from `sent` on: theirs, or all if there are none. -/
theorem lastLogprobs_drop {l : List L} {tokenIds : List Nat} (hlength : l.length = tokenIds.length)
    {sent : Nat} (hsent : sent ≤ tokenIds.length) :
    (if l ≠ [] then RequestState.lastLogprobs l (tokenIds.drop sent).length else l) =
      if sent < tokenIds.length then l.drop sent else l := by
  by_cases hnil : l = []
  · subst hnil
    simp
  · rw [if_pos hnil]
    unfold RequestState.lastLogprobs
    rw [List.length_drop]
    by_cases hlt : sent < tokenIds.length
    · rw [if_neg (by omega), if_pos hlt]
      congr 1
      omega
    · rw [if_pos (by omega), if_neg hlt]

theorem LogprobsProcessor.popPromptLogprobs_spec (lp : LogprobsProcessor L) :
    lp.popPromptLogprobs.1.logprobs = lp.logprobs ∧ lp.popPromptLogprobs.1.numLogprobs = lp.numLogprobs ∧
      lp.popPromptLogprobs.1.numPromptLogprobs = lp.numPromptLogprobs ∧
      lp.popPromptLogprobs.1.promptLogprobs.isSome = lp.promptLogprobs.isSome := by
  unfold popPromptLogprobs
  split
  case h_1 head tail hlogprobs =>
    rw [hlogprobs]
    exact ⟨rfl, rfl, rfl, rfl⟩
  case h_2 => exact ⟨rfl, rfl, rfl, rfl⟩

/-- Without stop strings nothing is cut off. -/
theorem IncrementalDetokenizer.Held.of_nil {params : Core.StopParams} {d : IncrementalDetokenizer}
    {text text' : List Char} (h : d.Held params text) (hstop : params.stop = []) (finished delta : Bool)
    (hle : text'.length ≤ d.outputText.length) : (d.getNextOutputText finished delta).1.Held params text' := by
  intro decoder hsome
  rw [outputText_getNextOutputText]
  have hparams : decoder.params = params := by
    unfold getNextOutputText at hsome
    cases hdecoder : d.decoder with
    | none =>
      rw [hdecoder] at hsome
      cases hdecoder.symm.trans hsome
    | some old =>
      rw [hdecoder] at hsome
      rw [← Option.some.inj hsome]
      have hsame := congrArg Decoder.params (old.unsent_getNextOutputText finished delta)
      exact hsame.trans (h old hdecoder).1
  refine ⟨hparams, Or.inr ?_⟩
  unfold Decoder.stopBufferLength
  rw [if_neg (by simp [hstop])]
  omega

/-- An event behind which the request goes on has no stop string. -/
theorem found_of_goesOn {params : Core.StopParams} {d : IncrementalDetokenizer} {text : List Char}
    (hheld : d.Held params text) {event : RequestEvent L}
    (hgoes : event.finishes d = false ∨ params.stop = []) : (event.decode d).2 = none := by
  rcases hgoes with hgoes | hnil
  · unfold RequestEvent.finishes at hgoes
    rw [Bool.or_eq_false_iff] at hgoes
    exact Option.not_isSome_iff_eq_none.mp (by simp [hgoes.2])
  · cases event with
    | abort parent => rfl
    | streamingUpdate update => rfl
    | output o parent =>
      apply Option.eq_none_iff_forall_not_mem.mpr
      intro s hfound
      have hmem := IncrementalDetokenizer.update_found_mem hheld hfound
      rw [hnil] at hmem
      cases hmem

namespace Serving

variable {params : SamplingParams} {rs : RequestState L} {d : IncrementalDetokenizer}
  {lp : LogprobsProcessor L}

theorem length_logprobs (h : Serving params rs d lp) {l : List L} (hl : lp.logprobs = some l) :
    l.length = d.numOutputTokens := by
  have hcount := h.logprobs
  rw [hl] at hcount
  cases hparams : params.logprobs with
  | none =>
    rw [hparams] at hcount
    cases hcount
  | some count =>
    rw [hparams] at hcount
    exact Option.some.inj hcount

theorem afterSending (h : Serving params rs d lp) (finished : Bool) :
    Serving params (rs.afterSending d lp finished) (d.getNextOutputText finished true).1 lp.popPromptLogprobs.1 := by
  obtain ⟨htokens, hpromptLen⟩ := d.tokenIds_getNextOutputText finished true
  obtain ⟨hlogprobs, hnum, hnumPrompt, hprompt⟩ := lp.popPromptLogprobs_spec
  constructor
  case detokenizer => rfl
  case logprobsProcessor => rfl
  case prompt => exact h.prompt
  case promptLen =>
    rw [htokens, hpromptLen]
    exact h.promptLen
  case numLogprobs => exact hnum.trans h.numLogprobs
  case logprobs =>
    unfold IncrementalDetokenizer.numOutputTokens
    rw [hlogprobs, htokens, hpromptLen]
    exact h.logprobs
  case numPromptLogprobs => exact hnumPrompt.trans h.numPromptLogprobs
  case promptLogprobs => exact hprompt.trans h.promptLogprobs

end Serving

namespace Streaming

variable {params : SamplingParams} {id : String} {interval : Nat} {rs : RequestState L}
  {d : IncrementalDetokenizer} {lp : LogprobsProcessor L} {cs : List (CompletionOutput L)}
  {newTokenIds : List Nat} {parent : Option (ParentRequest L)}

section

variable (h : Streaming params id interval rs d lp cs newTokenIds)
include h

/-- An output is sent. -/
theorem sendOutput (hkind : params.outputKind = .delta) (hparent : RequestEvent.ParentFits params id parent)
    (finishReason : Option FinishReason) (stopReason : Option StopReason)
    (hheld : finishReason = none → d.Held params.stopParams (textOf cs)) (hstop : ∀ s ∈ params.stopParams.stop, s ≠ [])
    (hsends : Sends interval d.numOutputTokens (tokensOf cs).length finishReason.isSome) :
    ∃ rs' d' lp' parent' output,
      rs.makeRequestOutput parent newTokenIds none finishReason stopReason = .ok (rs', parent', output) ∧
      Sending params id interval d lp cs finishReason.isSome rs' d' lp' (output.toList.flatMap Output.completions) := by
  have hlen : (tokensOf cs).length ≤ d.outputTokenIds.length := h.tokens.length_le
  have hdrop : tokensOf cs ++ d.outputTokenIds.drop (tokensOf cs).length = d.outputTokenIds :=
    (List.prefix_append_drop h.tokens).symm
  let c := rs.deltaCompletion d lp (tokensOf cs).length finishReason stopReason
  let rs' := rs.afterSending d lp finishReason.isSome
  have htext : textOf (cs ++ [c]) =
      textOf cs ++ (d.getNextOutputText finishReason.isSome true).2 := by
    rw [textOf_append]
    exact congrArg (textOf cs ++ ·) (List.append_nil _)
  have htokens : tokensOf (cs ++ [c]) = d.outputTokenIds := by
    rw [tokensOf_append]
    exact (congrArg (tokensOf cs ++ ·) (List.append_nil _)).trans hdrop
  have hlogprobs : ∀ l, lp.logprobs = some l → logprobsOf (cs ++ [c]) =
      logprobsOf cs ++ if (tokensOf cs).length < d.numOutputTokens then l.drop (tokensOf cs).length else l := by
    intro l hl
    have hlength : l.length = d.outputTokenIds.length :=
      (h.serving.length_logprobs hl).trans d.length_outputTokenIds.symm
    have hpiece : c.logprobs = some (if (tokensOf cs).length < d.numOutputTokens then
        l.drop (tokensOf cs).length else l) := by
      rw [← d.length_outputTokenIds, ← lastLogprobs_drop hlength hlen]
      show lp.logprobs.map _ = _
      rw [hl]
      rfl
    rw [logprobsOf_append]
    show logprobsOf cs ++ (c.logprobs.getD [] ++ []) = _
    rw [hpiece, List.append_nil, Option.getD_some]
  have hlen' : (tokensOf cs).length ≤ d.numOutputTokens := hlen.trans_eq d.length_outputTokenIds
  have hone : ∀ l, lp.logprobs = some l → (OneEach (cs ++ [c]) ↔ OneEach cs ∧
      ((tokensOf cs).length < d.numOutputTokens ∨ d.numOutputTokens = 0)) := by
    intro l hl
    have hl' := h.serving.length_logprobs hl
    have hmore := (h.entries l hl).1
    unfold OneEach
    rw [hlogprobs l hl, htokens, d.length_outputTokenIds, List.length_append]
    split
    · rw [List.length_drop]
      omega
    · omega
  have hsent : (d.getNextOutputText finishReason.isSome true).1.Sent (textOf (cs ++ [c])) ∧
      (finishReason.isSome = true → textOf (cs ++ [c]) = d.outputText) ∧
      (finishReason.isSome = false ∨ params.stopParams.stop = [] →
        d.Held params.stopParams (textOf cs) →
        (d.getNextOutputText finishReason.isSome true).1.Held params.stopParams (textOf (cs ++ [c]))) := by
    rw [htext]
    cases finishReason with
    | none =>
      obtain ⟨hsent, hheld'⟩ := h.text.unfinished (hheld rfl) hstop
      exact ⟨hsent, nofun, fun _ _ => hheld'⟩
    | some reason =>
      obtain ⟨hall, hsent⟩ := h.text.finished
      refine ⟨?_, fun _ => hall, fun hnil hheld => ?_⟩
      · show (d.getNextOutputText true true).1.Sent (textOf cs ++ (d.getNextOutputText true true).2)
        rw [hall]
        exact hsent
      · show (d.getNextOutputText true true).1.Held _ (textOf cs ++ (d.getNextOutputText true true).2)
        rw [hall]
        exact hheld.of_nil (hnil.resolve_left (by simp)) true true (Nat.le_refl _)
  obtain ⟨hsent, hall, hheld'⟩ := hsent
  obtain ⟨htokenIds, hpromptLen⟩ := d.tokenIds_getNextOutputText finishReason.isSome true
  have houtputTokenIds : (d.getNextOutputText finishReason.isSome true).1.outputTokenIds =
      d.outputTokenIds := by
    unfold IncrementalDetokenizer.outputTokenIds
    rw [htokenIds, hpromptLen]
  obtain ⟨parent', output, hmake, hcompletions⟩ := RequestState.makeRequestOutput_delta h.outputKind
    h.serving.detokenizer h.serving.logprobsProcessor h.serving.prompt
    (fun p hp => ⟨h.requestId ▸ (hparent p hp).1, (hparent p hp).2.trans hkind⟩)
    (fun hle => by
      rw [h.now (h.streamInterval ▸ hle), List.drop_left])
    (fun hlt => h.offset (h.streamInterval ▸ hlt)) finishReason stopReason (h.streamInterval ▸ hsends)
  refine ⟨rs', (d.getNextOutputText finishReason.isSome true).1, lp.popPromptLogprobs.1, parent',
    some output, hmake, ?_⟩
  have houtput : (some output).toList.flatMap Output.completions = [c] := by
    show output.completions ++ [] = [c]
    rw [hcompletions]
    rfl
  rw [houtput]
  constructor
  case unsent => exact d.unsent_getNextOutputText _ _
  case logprobs => exact lp.popPromptLogprobs_spec.1
  case text => exact hall
  case held => exact hheld'
  case skips => exact fun hskips => absurd hsends hskips
  case sends => exact fun _ => ⟨htokens, hone⟩
  case streaming =>
    constructor
    case serving => exact h.serving.afterSending _
    case requestId => exact h.requestId
    case outputKind => exact h.outputKind
    case streamInterval => exact h.streamInterval
    case text => exact hsent
    case tokens =>
      rw [htokens, houtputTokenIds]
    case now =>
      intro _
      rw [htokens, houtputTokenIds, List.append_nil]
    case offset =>
      intro hlt
      show (if rs.streamInterval > 1 then d.numOutputTokens else rs.sentTokensOffset) = _
      rw [if_pos (h.streamInterval ▸ hlt), htokens, d.length_outputTokenIds]
    case entries =>
      intro l hl
      rw [lp.popPromptLogprobs_spec.1] at hl
      have hl' := h.serving.length_logprobs hl
      have hmore := (h.entries l hl).1
      rw [htokens, d.length_outputTokenIds]
      refine ⟨?_, fun heach => ?_⟩
      · rw [hlogprobs l hl, List.length_append]
        split
        · rw [List.length_drop]
          omega
        · omega
      · obtain ⟨hold, hcarries⟩ := (hone l hl).mp heach
        rw [hlogprobs l hl, (h.entries l hl).2 hold, List.take_of_length_le (Nat.le_of_eq hl')]
        split
        · exact List.take_append_drop _ _
        · have hzero : (tokensOf cs).length = 0 := by omega
          rw [hzero]
          rfl

/-- An output is skipped: its tokens are sent later. -/
theorem skipOutput (parent : Option (ParentRequest L)) (finishReason : Option FinishReason)
    (stopReason : Option StopReason)
    (hskips : ¬ Sends interval d.numOutputTokens (tokensOf cs).length finishReason.isSome) :
    ∃ rs' d' lp' parent' output,
      rs.makeRequestOutput parent newTokenIds none finishReason stopReason = .ok (rs', parent', output) ∧
      Sending params id interval d lp cs finishReason.isSome rs' d' lp' (output.toList.flatMap Output.completions) := by
  have hmake : rs.makeRequestOutput parent newTokenIds none finishReason stopReason =
      .ok (rs, parent, none) :=
    RequestState.makeRequestOutput_skip h.outputKind h.serving.detokenizer parent
      (fun hlt => h.offset (h.streamInterval ▸ hlt)) finishReason stopReason
      (h.streamInterval ▸ hskips)
  refine ⟨rs, d, lp, parent, none, hmake, ?_⟩
  show Sending params id interval d lp cs finishReason.isSome rs d lp []
  obtain ⟨hinterval, hskips'⟩ := not_or.mp hskips
  obtain ⟨hfinished, -⟩ := not_or.mp hskips'
  constructor
  case unsent => rfl
  case logprobs => rfl
  case text => exact fun hfinish => absurd hfinish hfinished
  case held =>
    intro _ hheld
    rw [List.append_nil]
    exact hheld
  case skips => exact fun _ => rfl
  case sends => exact fun hsends => absurd hsends hskips
  case streaming =>
    rw [List.append_nil]
    exact ⟨h.serving, h.requestId, h.outputKind, h.streamInterval, h.text, h.tokens,
      fun hle => absurd hle hinterval, h.offset, h.entries⟩

/-- An output is sent or skipped. -/
theorem makeOutput (hkind : params.outputKind = .delta) (hparent : RequestEvent.ParentFits params id parent)
    (finishReason : Option FinishReason) (stopReason : Option StopReason)
    (hheld : finishReason = none → d.Held params.stopParams (textOf cs))
    (hstop : ∀ s ∈ params.stopParams.stop, s ≠ []) :
    ∃ rs' d' lp' parent' output,
      rs.makeRequestOutput parent newTokenIds none finishReason stopReason = .ok (rs', parent', output) ∧
      Sending params id interval d lp cs finishReason.isSome rs' d' lp' (output.toList.flatMap Output.completions) := by
  by_cases hsends : Sends interval d.numOutputTokens (tokensOf cs).length finishReason.isSome
  · exact h.sendOutput hkind hparent finishReason stopReason hheld hstop hsends
  · exact h.skipOutput parent finishReason stopReason hsends

end

section

variable (h : Streaming params id interval rs d lp cs []) (hheld : d.Held params.stopParams (textOf cs))
  (hstop : ∀ s ∈ params.stopParams.stop, s ≠ [])
include h hheld hstop

/-- Tokens are decoded: nothing that was sent is cut off. -/
theorem decoded {o : EngineCoreOutput L} {lp' : LogprobsProcessor L}
    (hserving : Serving params (rs.decoded o ((RequestEvent.output o parent).decode d).1 lp')
      ((RequestEvent.output o parent).decode d).1 lp')
    (hlogprobs : lp'.logprobs = lp.logprobs.map (· ++ (RequestEvent.output o parent).newLogprobs)) :
    Streaming params id interval (rs.decoded o ((RequestEvent.output o parent).decode d).1 lp')
      ((RequestEvent.output o parent).decode d).1 lp' cs o.newTokenIds := by
  have htokens : ((RequestEvent.output o parent).decode d).1.outputTokenIds =
      d.outputTokenIds ++ o.newTokenIds := by
    obtain ⟨htokens, hpromptLen⟩ :=
      d.tokenIds_update o.newTokenIds (decide (o.finishReason = some .stop))
    unfold IncrementalDetokenizer.outputTokenIds
    show (d.update _ _).1.tokenIds.drop (d.update _ _).1.promptLen = _
    rw [htokens, hpromptLen, List.drop_append_of_le_length h.serving.promptLen]
  constructor
  case serving => exact hserving
  case requestId => exact h.requestId
  case outputKind => exact h.outputKind
  case streamInterval => exact h.streamInterval
  case text => exact h.text.update hheld hstop _ _
  case tokens =>
    rw [htokens]
    exact h.tokens.trans (List.prefix_append _ _)
  case now =>
    intro hle
    rw [htokens, h.now hle, List.append_nil]
  case offset => exact h.offset
  case entries =>
    intro l' hl'
    rw [hlogprobs] at hl'
    obtain ⟨l, hl, happend⟩ := Option.map_eq_some_iff.mp hl'
    obtain ⟨hmore, heach⟩ := h.entries l hl
    have hlen : (tokensOf cs).length ≤ l.length := by
      rw [h.serving.length_logprobs hl, ← d.length_outputTokenIds]
      exact h.tokens.length_le
    refine ⟨hmore, fun hone => ?_⟩
    rw [← happend, heach hone, List.take_append_of_le_length hlen]

variable (hkind : params.outputKind = .delta)
include hkind

/-- An output of the engine, or an abort. -/
theorem react_sends {event : RequestEvent L} (hfits : event.Fits params id)
    (hevent : ∀ update, event ≠ .streamingUpdate update) :
    ∃ rs' d' lp₁ lp' sent, rs.react event = .ok (rs', sent, event.finishes d) ∧
      lp₁.logprobs = lp.logprobs.map (· ++ event.newLogprobs) ∧
      (event.finishes d = false ∨ params.stopParams.stop = [] → (event.decode d).1.Held params.stopParams (textOf cs)) ∧
      Sending params id interval (event.decode d).1 lp₁ cs (event.finishes d) rs' d' lp' sent := by
  cases event with
  | streamingUpdate update => exact absurd rfl (hevent update)
  | abort parent =>
    obtain ⟨rs', d', lp', parent', output, hmake, hsending⟩ :=
      h.makeOutput hkind hfits (some .abort) none nofun hstop
    refine ⟨rs', d', lp, lp', _, ?_, ?_, fun _ => hheld, hsending⟩
    · unfold RequestState.react RequestState.abortOutput
      rw [h.serving.detokenizer]
      simp only [Option.isNone_some, Bool.false_eq_true, ↓reduceIte]
      rw [hmake]
      rfl
    · show lp.logprobs = lp.logprobs.map (· ++ [])
      simp
  | output o parent =>
    obtain ⟨lp₁, finishReason, stopReason, hdecode, hserving, hlogprobs, hfinishes⟩ :=
      h.serving.decodeOutput hstop hheld hfits
    -- where no stop string is found, what was held back stays so
    have hheld₁ : (RequestEvent.output o parent).finishes d = false ∨ params.stopParams.stop = [] →
        ((RequestEvent.output o parent).decode d).1.Held params.stopParams (textOf cs) := by
      intro hnone
      exact hheld.update hstop _ _ (found_of_goesOn hheld hnone)
    have hdecoded := h.decoded hheld hstop hserving hlogprobs
    obtain ⟨rs', d', lp', parent', output, hmake, hsending⟩ :=
      hdecoded.makeOutput hkind hfits.2.2.2.2 finishReason stopReason
        (fun hnone => hheld₁ (Or.inl (by rw [← hfinishes, hnone]; rfl))) hstop
    refine ⟨rs', d', lp₁, lp', _, ?_, hlogprobs, hheld₁, hfinishes ▸ hsending⟩
    have hpooling : o.poolingOutput = none := hfits.1
    unfold RequestState.react RequestState.advance
    dsimp only
    rw [hdecode, ok_bind, hpooling, hmake, ← hfinishes]
    show Except.ok _ = _
    rw [completions_marked]

/-- One event, with what it does to the log probabilities: whether there is one entry for each token at
the end depends on the outputs to come. -/
theorem react {event : RequestEvent L} (hfits : event.Fits params id) :
    ∃ rs' d' lp' sent, rs.react event = .ok (rs', sent, event.finishes d) ∧
      Streaming params id interval rs' d' lp' (cs ++ sent) [] ∧ d'.unsent = (event.decode d).1.unsent ∧
      lp'.logprobs = lp.logprobs.map (· ++ event.newLogprobs) ∧
      (event.finishes d = true → textOf (cs ++ sent) = d'.outputText ∧ tokensOf (cs ++ sent) = d'.outputTokenIds) ∧
      (event.finishes d = false ∨ params.stopParams.stop = [] → d'.Held params.stopParams (textOf (cs ++ sent))) ∧
      ∀ l events, lp.logprobs = some l → event.finishes d = (event.closes || events.isEmpty) →
        (OneEach (cs ++ sent) ∧ CarriesTokens interval d'.numOutputTokens (tokensOf (cs ++ sent)).length events ↔
          OneEach cs ∧ CarriesTokens interval d.numOutputTokens (tokensOf cs).length (event :: events)) := by
  by_cases hevent : ∃ update, event = .streamingUpdate update
  · obtain ⟨update, rfl⟩ := hevent
    refine ⟨rs.applyStreamingUpdate update, d, lp, [], rfl, ?_⟩
    rw [List.append_nil]
    refine ⟨⟨h.serving.applyStreamingUpdate update, h.requestId, h.outputKind, h.streamInterval, h.text,
      h.tokens, h.now, h.offset, h.entries⟩, rfl, ?_, nofun, fun _ => hheld, fun _ _ _ _ => Iff.rfl⟩
    show lp.logprobs = lp.logprobs.map (· ++ [])
    simp
  · obtain ⟨rs', d', lp₁, lp', sent, hreact, hlogprobs, hheld₁, hsending⟩ :=
      h.react_sends hheld hstop hkind hfits fun update hupdate => hevent ⟨update, hupdate⟩
    have htext : d'.outputText = (event.decode d).1.outputText := by
      rw [← IncrementalDetokenizer.outputText_unsent, hsending.unsent,
        IncrementalDetokenizer.outputText_unsent]
    have htokens : d'.outputTokenIds = (event.decode d).1.outputTokenIds := by
      rw [← IncrementalDetokenizer.outputTokenIds_unsent, hsending.unsent,
        IncrementalDetokenizer.outputTokenIds_unsent]
    have htotal : d'.numOutputTokens = (event.decode d).1.numOutputTokens := by
      rw [← d'.length_outputTokenIds, htokens, IncrementalDetokenizer.length_outputTokenIds]
    refine ⟨rs', d', lp', sent, hreact, hsending.streaming, hsending.unsent,
      hsending.logprobs.trans hlogprobs, fun hfinishes => ⟨(hsending.text hfinishes).trans htext.symm, ?_⟩,
      fun hnone => hsending.held hnone (hheld₁ hnone), ?_⟩
    · rw [htokens]
      exact (hsending.sends (Or.inr (Or.inl hfinishes))).1
    · intro l events hl hlast
      have hcount : d'.numOutputTokens = d.numOutputTokens + event.newTokenIds.length := by
        rw [htotal, numOutputTokens_decode h.serving.promptLen]
      have hunfold : CarriesTokens interval d.numOutputTokens (tokensOf cs).length (event :: events) ↔
          (Sends interval d'.numOutputTokens (tokensOf cs).length (event.finishes d) →
            ((tokensOf cs).length < d'.numOutputTokens ∨ d'.numOutputTokens = 0) ∧
              CarriesTokens interval d'.numOutputTokens d'.numOutputTokens events) ∧
          (¬ Sends interval d'.numOutputTokens (tokensOf cs).length (event.finishes d) →
            CarriesTokens interval d'.numOutputTokens (tokensOf cs).length events) := by
        rw [hcount, hlast]
        cases event with
        | streamingUpdate update => exact absurd ⟨update, rfl⟩ hevent
        | abort parent => exact Iff.rfl
        | output o parent => exact Iff.rfl
      rw [hunfold]
      by_cases hsends : Sends interval d'.numOutputTokens (tokensOf cs).length (event.finishes d)
      · obtain ⟨hsent, hone⟩ := hsending.sends (htotal ▸ hsends)
        have hl₁ : lp₁.logprobs = some (l ++ event.newLogprobs) := by
          rw [hlogprobs, hl]
          rfl
        rw [hone _ hl₁, hsent, IncrementalDetokenizer.length_outputTokenIds, ← htotal]
        constructor
        · rintro ⟨⟨hold, hnew⟩, hrest⟩
          exact ⟨hold, fun _ => ⟨hnew, hrest⟩, fun hskips => absurd hsends hskips⟩
        · rintro ⟨hold, hnew, -⟩
          exact ⟨⟨hold, (hnew hsends).1⟩, (hnew hsends).2⟩
      · rw [hsending.skips (htotal ▸ hsends), List.append_nil]
        constructor
        · rintro ⟨hold, hrest⟩
          exact ⟨hold, fun hskips => absurd hskips hsends, fun _ => hrest⟩
        · rintro ⟨hold, -, hrest⟩
          exact ⟨hold, hrest hsends⟩

/-- A whole run. -/
theorem serve {events : List (RequestEvent L)} (hfits : ∀ event ∈ events, event.Fits params id)
    (hlives : rs.Lives params.stopParams.stop events) :
    Ends d events ∧ ∃ rs' d' lp' sent, rs.serve events = .ok (rs', sent) ∧
      Streaming params id interval rs' d' lp' (cs ++ sent) [] ∧ d'.unsent = (decodeAll d events).unsent ∧
      lp'.logprobs = lp.logprobs.map (· ++ events.flatMap RequestEvent.newLogprobs) ∧
      textOf (cs ++ sent) = d'.outputText ∧ tokensOf (cs ++ sent) = d'.outputTokenIds ∧
      ∀ l, lp.logprobs = some l → (OneEach (cs ++ sent) ↔
        OneEach cs ∧ CarriesTokens interval d.numOutputTokens (tokensOf cs).length events) := by
  induction events generalizing rs d lp cs with
  | nil => cases hlives
  | cons event events ih =>
    obtain ⟨rs₁, d₁, lp₁, sent₁, hreact, hstreaming, hunsent, hlogprobs, hall, hheld₁, hcarries⟩ :=
      h.react hheld hstop hkind (hfits event List.mem_cons_self)
    unfold RequestState.serve
    rw [hreact, ok_bind]
    dsimp only
    rcases hlives rs₁ sent₁ (event.finishes d) hreact with ⟨rfl, hfinishes⟩ | ⟨hgoes, hlives₁⟩
    · obtain ⟨htext, htokens⟩ := hall hfinishes
      refine ⟨hfinishes, rs₁, d₁, lp₁, sent₁ ++ [], rfl, ?_⟩
      rw [List.append_nil]
      refine ⟨hstreaming, hunsent, ?_, htext, htokens, fun l hl => ?_⟩
      · rw [hlogprobs, List.flatMap_cons, List.flatMap_nil, List.append_nil]
      · rw [← hcarries l [] hl (by rw [hfinishes, List.isEmpty_nil, Bool.or_true])]
        exact (and_iff_left trivial).symm
    · obtain ⟨hends, rs₂, d₂, lp₂, sent₂, hserve, hstreaming₂, hunsent₂, hlogprobs₂, htext, htokens,
        hone⟩ := ih hstreaming (hheld₁ hgoes) (fun e he => hfits e (List.mem_cons_of_mem _ he)) hlives₁
      have hne : events ≠ [] := by
        rintro rfl
        exact hlives₁
      have hends' : Ends (event.decode d).1 events := by
        rw [← ends_unsent, ← hunsent, ends_unsent]
        exact hends
      refine ⟨?_, rs₂, d₂, lp₂, sent₁ ++ sent₂, by rw [hserve]; rfl, ?_⟩
      · obtain ⟨next, rest, rfl⟩ := List.exists_cons_of_ne_nil hne
        exact hends'
      · rw [← List.append_assoc]
        refine ⟨hstreaming₂, ?_, ?_, htext, htokens, fun l hl => ?_⟩
        · rw [hunsent₂, ← decodeAll_unsent, hunsent, decodeAll_unsent]
          rfl
        · rw [hlogprobs₂, hlogprobs, Option.map_map]
          congr 1
          funext l
          exact List.append_assoc _ _ _
        · have hl₁ : lp₁.logprobs = some (l ++ event.newLogprobs) := by
            rw [hlogprobs, hl]
            rfl
          rw [hone _ hl₁]
          apply hcarries l events hl
          unfold RequestEvent.finishes
          rw [found_of_goesOn hheld hgoes, List.isEmpty_eq_false_iff.mpr hne]
          rfl

end

end Streaming

/-! ## The start -/

theorem isSome_of_promptLength {promptTokenIds : Option (List Nat)} {promptEmbeds : Option Nat}
    {n : Nat} (h : promptLength promptTokenIds promptEmbeds = .ok n) : promptTokenIds.isSome ∨ promptEmbeds.isSome := by
  cases promptTokenIds with
  | some tokenIds => exact Or.inl rfl
  | none =>
    cases promptEmbeds with
    | some embeds => exact Or.inr rfl
    | none => cases h

theorem promptLength_tokenIds {tokenIds : List Nat} {promptEmbeds : Option Nat} {n : Nat}
    (h : promptLength (some tokenIds) promptEmbeds = .ok n) : tokenIds.length = n := by
  cases promptEmbeds with
  | none => exact Except.ok.inj h
  | some embeds =>
    dsimp only [promptLength] at h
    split at h
    · cases h
    · exact Except.ok.inj h

/-- A new detokenizer has no output yet. -/
theorem IncrementalDetokenizer.fromNewRequest_spec {tokenizer : Option Tokenizer}
    {request : EngineCoreRequest} {params : SamplingParams} {d : IncrementalDetokenizer}
    (h : fromNewRequest tokenizer request params = .ok d) :
    d.promptLen = d.tokenIds.length ∧ d.Sent [] ∧ d.Held params.stopParams [] := by
  unfold fromNewRequest at h
  cases tokenizer with
  | none =>
    cases h
    exact ⟨rfl, ⟨List.prefix_rfl, nofun⟩, nofun⟩
  | some tokenizer =>
    dsimp only at h
    split at h
    · cases h
      refine ⟨rfl, ⟨List.prefix_rfl, ?_⟩, ?_⟩
      · intro decoder hsome
        cases hsome
        rfl
      · intro decoder hsome
        cases hsome
        exact ⟨rfl, Or.inl rfl⟩
    · obtain ⟨promptLen, hpromptLen, hd⟩ := bind_eq_ok.mp h
      cases hd
      refine ⟨?_, ⟨List.prefix_rfl, ?_⟩, ?_⟩
      · show promptLen = List.length _
        split
        case h_1 tokenId tokenIds hprompt =>
          rw [hprompt] at hpromptLen
          exact (promptLength_tokenIds hpromptLen).symm
        case h_2 => exact List.length_replicate.symm
      · intro decoder hsome
        cases hsome
        rfl
      · intro decoder hsome
        cases hsome
        exact ⟨rfl, Or.inl rfl⟩

/-- A new request in DELTA mode has sent nothing. -/
theorem streaming_fromNewRequest {tokenizer : Option Tokenizer} {request : EngineCoreRequest}
    {params : SamplingParams} (hparams : request.samplingParams = some params)
    (hkind : params.outputKind = .delta) {prompt parentReq : Option String} {index : Nat} {queue : Bool}
    {interval : Nat} {rs : RequestState L}
    (h : RequestState.fromNewRequest tokenizer request prompt parentReq index queue interval = .ok rs) :
    ∃ d, Streaming params rs.requestId interval rs d (LogprobsProcessor.fromNewRequest params) [] [] ∧
      d.Held params.stopParams [] ∧ d.promptLen = d.tokenIds.length := by
  obtain ⟨⟨kind, lp, tools⟩, htools, h⟩ := bind_eq_ok.mp h
  unfold RequestState.outputTools at htools
  rw [hparams] at htools
  obtain ⟨d, hd, htools⟩ := bind_eq_ok.mp htools
  cases htools
  obtain ⟨hpromptLen, hsent, hheld⟩ := IncrementalDetokenizer.fromNewRequest_spec hd
  have hnumOutputTokens : d.numOutputTokens = 0 := by
    unfold IncrementalDetokenizer.numOutputTokens
    omega
  dsimp only at h
  split at h
  · cases h
  · obtain ⟨promptLen, hprompt, h⟩ := bind_eq_ok.mp h
    cases h
    refine ⟨d, ?_, hheld, hpromptLen⟩
    constructor
    case serving =>
      constructor
      case detokenizer => rfl
      case logprobsProcessor => rfl
      case prompt => exact isSome_of_promptLength hprompt
      case promptLen => exact Nat.le_of_eq hpromptLen
      case numLogprobs => rfl
      case logprobs =>
        rw [hnumOutputTokens]
        show (params.logprobs.map fun _ => []).map List.length = _
        rw [Option.map_map]
        rfl
      case numPromptLogprobs => rfl
      case promptLogprobs =>
        show (params.promptLogprobs.map fun _ => [none]).isSome = _
        rw [Option.isSome_map]
    case requestId => rfl
    case outputKind => exact hkind
    case streamInterval => rfl
    case text => exact hsent
    case tokens => exact List.nil_prefix
    case now =>
      intro _
      have hlength := d.length_outputTokenIds
      rw [hnumOutputTokens] at hlength
      exact List.length_eq_zero_iff.mp hlength
    case offset => exact fun _ => rfl
    case entries => exact fun l _ => ⟨Nat.le_refl _, fun _ => rfl⟩

/-! ## The result -/

theorem outputTokenIds_decodeAll {d : IncrementalDetokenizer} (h : d.promptLen ≤ d.tokenIds.length)
    (events : List (RequestEvent L)) :
    (decodeAll d events).outputTokenIds = d.outputTokenIds ++ events.flatMap RequestEvent.newTokenIds := by
  induction events generalizing d with
  | nil => exact (List.append_nil _).symm
  | cons event events ih =>
    have hone : (event.decode d).1.promptLen ≤ (event.decode d).1.tokenIds.length ∧
        (event.decode d).1.outputTokenIds = d.outputTokenIds ++ event.newTokenIds := by
      cases event with
      | abort parent => exact ⟨h, (List.append_nil _).symm⟩
      | streamingUpdate update => exact ⟨h, (List.append_nil _).symm⟩
      | output o parent =>
        obtain ⟨htokens, hpromptLen⟩ :=
          d.tokenIds_update o.newTokenIds (decide (o.finishReason = some .stop))
        unfold IncrementalDetokenizer.outputTokenIds RequestEvent.decode RequestEvent.newTokenIds
        rw [htokens, hpromptLen, List.drop_append_of_le_length h, List.length_append]
        exact ⟨by omega, rfl⟩
    show (decodeAll (event.decode d).1 events).outputTokenIds = _
    rw [ih hone.1, hone.2, List.flatMap_cons, List.append_assoc]

/-- Streamed deltas add up to the final result, and their log probabilities have one entry for each token
if and only if they were not asked for, or no output without a token is sent behind a first token. -/
theorem deltas_add_up_iff {tokenizer : Option Tokenizer} {request : EngineCoreRequest}
    {params : SamplingParams} (hparams : request.samplingParams = some params)
    (hkind : params.outputKind = .delta) (hstop : ∀ s ∈ params.stopParams.stop, s ≠ [])
    {prompt parentReq : Option String} {index : Nat} {queue : Bool} {streamInterval : Nat}
    {rs : RequestState L} (hnew : RequestState.fromNewRequest tokenizer request prompt parentReq index
      queue streamInterval = .ok rs)
    {events : List (RequestEvent L)} (hfits : ∀ event ∈ events, event.Fits params rs.requestId)
    (hlives : rs.Lives params.stopParams.stop events) :
    ∃ rs' sent rf final last, rs.serve events = .ok (rs', sent) ∧
      rs.finalOnly.serve (events.map RequestEvent.alone) = .ok (rf, final) ∧ final.getLast? = some last ∧
      textOf sent = last.text ∧ tokensOf sent = events.flatMap RequestEvent.newTokenIds ∧
      ((textOf sent = last.text ∧ tokensOf sent = events.flatMap RequestEvent.newTokenIds ∧
          (params.logprobs.isSome → logprobsOf sent = events.flatMap RequestEvent.newLogprobs ∧
            (logprobsOf sent).length = (tokensOf sent).length)) ↔
        (params.logprobs = none ∨ CarriesTokens streamInterval 0 0 events)) := by
  obtain ⟨d, hstreaming, hheld, hpromptLen⟩ := streaming_fromNewRequest hparams hkind hnew
  obtain ⟨hends, rs', d', lp', sent, hserve, hstreaming', hunsent, hlogprobs, htext, htokens, hone⟩ :=
    hstreaming.serve hheld hstop hkind hfits hlives
  rw [List.nil_append] at hstreaming' htext htokens hone
  have hfinal : Serving params rs.finalOnly d (LogprobsProcessor.fromNewRequest params) :=
    ⟨hstreaming.serving.detokenizer, hstreaming.serving.logprobsProcessor, hstreaming.serving.prompt,
      hstreaming.serving.promptLen, hstreaming.serving.numLogprobs, hstreaming.serving.logprobs,
      hstreaming.serving.numPromptLogprobs, hstreaming.serving.promptLogprobs⟩
  obtain ⟨rf, final, last, hserveFinal, hlast, hlastText⟩ :=
    hfinal.serve_finalOnly rfl hstop hheld hfits hends
  have hsame : textOf sent = last.text := by
    rw [htext, hlastText, ← IncrementalDetokenizer.outputText_unsent, hunsent,
      IncrementalDetokenizer.outputText_unsent]
  have hnone : d.outputTokenIds = [] := by
    unfold IncrementalDetokenizer.outputTokenIds
    rw [hpromptLen, List.drop_length]
  have hall : tokensOf sent = events.flatMap RequestEvent.newTokenIds := by
    rw [htokens, ← IncrementalDetokenizer.outputTokenIds_unsent, hunsent,
      IncrementalDetokenizer.outputTokenIds_unsent, outputTokenIds_decodeAll (Nat.le_of_eq hpromptLen),
      hnone, List.nil_append]
  refine ⟨rs', sent, rf, final, last, hserve, hserveFinal, hlast, hsame, hall, ?_⟩
  cases hrequested : params.logprobs with
  | none => exact iff_of_true ⟨hsame, hall, nofun⟩ (Or.inl rfl)
  | some count =>
    have hfresh : (LogprobsProcessor.fromNewRequest params : LogprobsProcessor L).logprobs = some [] := by
      show params.logprobs.map _ = _
      rw [hrequested]
      rfl
    have hzero : d.numOutputTokens = 0 := by
      rw [← d.length_outputTokenIds, hnone]
      rfl
    have hcarries := hone [] hfresh
    rw [hzero] at hcarries
    have hentries : lp'.logprobs = some (events.flatMap RequestEvent.newLogprobs) := by
      rw [hlogprobs, hfresh]
      rfl
    have hlength := hstreaming'.serving.length_logprobs hentries
    rw [← d'.length_outputTokenIds, ← htokens] at hlength
    constructor
    · rintro ⟨-, -, heach⟩
      exact Or.inr (hcarries.mp (heach rfl).2).2
    · intro hcarried
      have heach := hcarries.mpr ⟨rfl, hcarried.resolve_left (by simp)⟩
      refine ⟨hsame, hall, fun _ => ⟨?_, heach⟩⟩
      rw [(hstreaming'.entries _ hentries).2 heach, ← hlength, List.take_length]

/-- A request that asked for the log probabilities of the tokens that are sampled. -/
def sampleRequest : EngineCoreRequest where
  requestId := "request-0"
  externalReqId := some "request"
  promptTokenIds := some [1]
  samplingParams := some { outputKind := .delta, logprobs := some 0 }

/-- Two outputs, the second of which ends the request. -/
def twoOutputs : List (RequestEvent Nat) :=
  [.output { requestId := "request-0", newTokenIds := [5], newLogprobs := some [50] } none,
    .output { requestId := "request-0", newTokenIds := [6], newLogprobs := some [60],
              finishReason := some .length } none]

theorem deltas_add_up_two_outputs :
    ∃ rs, RequestState.fromNewRequest none sampleRequest none none 0 true 1 = .ok rs ∧
      ∃ rs' sent rf final last, rs.serve twoOutputs = .ok (rs', sent) ∧
        rs.finalOnly.serve (twoOutputs.map RequestEvent.alone) = .ok (rf, final) ∧
        final.getLast? = some last ∧ textOf sent = last.text ∧ tokensOf sent = [5, 6] ∧ logprobsOf sent = [50, 60] := by
  have hparams : sampleRequest.samplingParams = some { outputKind := .delta, logprobs := some 0 } := rfl
  obtain ⟨rs, hnew⟩ : ∃ rs : RequestState Nat,
      RequestState.fromNewRequest none sampleRequest none none 0 true 1 = .ok rs := ⟨_, rfl⟩
  have hfits : ∀ event ∈ twoOutputs, event.Fits { outputKind := .delta, logprobs := some 0 }
      rs.requestId := by
    intro event hevent
    simp only [twoOutputs, List.mem_cons, List.not_mem_nil, or_false] at hevent
    rcases hevent with rfl | rfl
    · exact ⟨rfl, fun _ => rfl, fun _ => rfl, (fun hprompt => by cases hprompt), (fun p hp => by cases hp)⟩
    · exact ⟨rfl, fun _ => rfl, fun _ => rfl, (fun hprompt => by cases hprompt), (fun p hp => by cases hp)⟩
  have hlives : rs.Lives [] twoOutputs := by
    cases hnew
    intro rs' sent finished hreact
    cases hreact
    refine Or.inr ⟨Or.inl rfl, ?_⟩
    intro rs' sent finished hreact
    cases hreact
    exact Or.inl ⟨rfl, rfl⟩
  obtain ⟨rs', sent, rf, final, last, hserve, hfinal, hlast, htext, htokens, hiff⟩ :=
    deltas_add_up_iff hparams rfl (fun s hs => by cases hs) hnew hfits hlives
  refine ⟨rs, hnew, ?_⟩
  have hcarries : CarriesTokens 1 0 0 twoOutputs := by
    simp [CarriesTokens, twoOutputs, RequestEvent.newTokenIds]
  exact ⟨rs', sent, rf, final, last, hserve, hfinal, hlast, htext, htokens,
    ((hiff.mpr (Or.inr hcarries)).2.2 rfl).1⟩

/-- A request is aborted behind its first token: the output of the abort has no token, and repeats the log
probabilities of the first. -/
theorem abort_repeats_logprobs :
    ∃ rs rs' sent, RequestState.fromNewRequest none sampleRequest none none 0 true 1 = .ok rs ∧
      rs.serve [.output { requestId := "request-0", newTokenIds := [5], newLogprobs := some [50] } none,
        .abort none] = .ok (rs', sent) ∧ tokensOf sent = [5] ∧ logprobsOf sent = [50, 50] :=
  ⟨_, _, _, rfl, rfl, rfl, rfl⟩

end Yuan.Frontend
