import Yuan.Frontend.StreamedText

/-!
# Streamed deltas

A request in DELTA mode sends its text, its tokens and its log probabilities in pieces. The log
probabilities of a piece are counted from the end by the number of tokens sent with them, and a count of
zero takes them all: an output without a token repeats every entry so far.
-/

namespace Yuan.Frontend

variable {L : Type}

/-- What happens to a live request, with its parent at that time. -/
inductive RequestEvent (L : Type) where
  | output (o : EngineCoreOutput L) (parent : Option (ParentRequest L))
  | abort (parent : Option (ParentRequest L))
  | streamingUpdate (update : StreamingUpdate)

/-- The completions in an output. -/
def Output.completions : Output L → List (CompletionOutput L)
  | .request output => output.outputs.reduceOption
  | .pooling _ => []
  | .streamFinished => []

namespace RequestEvent

def newTokenIds : RequestEvent L → List Nat
  | .output o _ => o.newTokenIds
  | .abort _ => []
  | .streamingUpdate _ => []

def newLogprobs : RequestEvent L → List L
  | .output o _ => o.newLogprobs.getD []
  | .abort _ => []
  | .streamingUpdate _ => []

/-- The parent still waits for the child, and has its kind of output. -/
def ParentFits (params : SamplingParams) (requestId : String) (parent : Option (ParentRequest L)) :
    Prop :=
  ∀ p, parent = some p → requestId ∈ p.childRequests ∧
    p.samplingParams.outputKind = params.outputKind

/-- What the engine returns for a request that asked for tokens: one entry of log probabilities for
each new token, if they were asked for; none need be returned where there is no token. -/
def Fits (params : SamplingParams) (requestId : String) : RequestEvent L → Prop
  | .output o parent => o.poolingOutput = none ∧
      (o.newLogprobs.isSome → params.logprobs.isSome) ∧
      (params.logprobs.isSome → (o.newLogprobs.getD []).length = o.newTokenIds.length) ∧
      (o.newPromptLogprobs.isSome → params.promptLogprobs.isSome) ∧
      ParentFits params requestId parent
  | .abort parent => ParentFits params requestId parent
  | .streamingUpdate _ => True

/-- The event without the parent. -/
def alone : RequestEvent L → RequestEvent L
  | .output o _ => .output o none
  | .abort _ => .abort none
  | .streamingUpdate update => .streamingUpdate update

/-- The event sends an output whatever the stream interval, because it ends the request or an input of
its session. -/
def closes : RequestEvent L → Bool
  | .output o _ => o.finishReason.isSome
  | .abort _ => true
  | .streamingUpdate _ => false

end RequestEvent

namespace RequestState

/-- One event: the completions that are sent, and whether it finishes the request (or an input of its
session). -/
def react (rs : RequestState L) :
    RequestEvent L → Except PyError (RequestState L × List (CompletionOutput L) × Bool)
  | .output o parent => do
    let (rs, _, output, finishReason) ← rs.advance parent o
    return (rs, output.toList.flatMap Output.completions, finishReason.isSome)
  | .abort parent => do
    let (rs, _, output) ← rs.abortOutput parent
    return (rs, output.toList.flatMap Output.completions, true)
  | .streamingUpdate update => .ok (rs.applyStreamingUpdate update, [], false)

/-- All completions that are sent. -/
def serve (rs : RequestState L) :
    List (RequestEvent L) → Except PyError (RequestState L × List (CompletionOutput L))
  | [] => .ok (rs, [])
  | event :: events => do
    let (rs, sent, _) ← rs.react event
    let (rs, more) ← rs.serve events
    return (rs, sent ++ more)

/-- The last of the events finishes the request. Those before do not, or they finish an input of a
streaming session, which has no stop strings. -/
def Lives (stop : List (List Char)) (rs : RequestState L) : List (RequestEvent L) → Prop
  | [] => False
  | event :: events => ∀ rs' sent finished, rs.react event = .ok (rs', sent, finished) →
      events = [] ∧ finished = true ∨
        (finished = false ∨ stop = []) ∧ Lives stop rs' events

/-- The same request in FINAL_ONLY mode. -/
def finalOnly (rs : RequestState L) : RequestState L := { rs with outputKind := .finalOnly }

end RequestState

/-- An output is sent when `total` tokens are there, of which `sent` were sent. -/
def Sends (streamInterval total sent : Nat) (finished : Bool) : Prop :=
  streamInterval ≤ 1 ∨ finished = true ∨ sent = 0 ∨ streamInterval ≤ total - sent

/-- Each output that is sent has a token, or there is none yet. The last event finishes the request. -/
def CarriesTokens (streamInterval : Nat) : Nat → Nat → List (RequestEvent L) → Prop
  | _, _, [] => True
  | total, sent, event :: events =>
    let total := total + event.newTokenIds.length
    match event with
    | .streamingUpdate _ => CarriesTokens streamInterval total sent events
    | _ =>
      (Sends streamInterval total sent (event.closes || events.isEmpty) →
        (sent < total ∨ total = 0) ∧ CarriesTokens streamInterval total total events) ∧
      (¬ Sends streamInterval total sent (event.closes || events.isEmpty) →
        CarriesTokens streamInterval total sent events)

/-- The concatenated texts, tokens and log probabilities. -/
def textOf (sent : List (CompletionOutput L)) : List Char := sent.flatMap CompletionOutput.text

def tokensOf (sent : List (CompletionOutput L)) : List Nat := sent.flatMap CompletionOutput.tokenIds

def logprobsOf (sent : List (CompletionOutput L)) : List L :=
  sent.flatMap fun c => c.logprobs.getD []

/-- A parent that streams passes on what a child that it waits for returns. -/
theorem ParentRequest.getOutputs_delta {parent : ParentRequest L} {id : String}
    (hchild : id ∈ parent.childRequests) (hkind : parent.samplingParams.outputKind = .delta) (c : CompletionOutput L) :
    ∃ parent', parent.getOutputs id c = .ok (parent', [some c], parent'.childRequests.isEmpty) ∧
      parent'.externalReqId = parent.externalReqId := by
  have hremove : (parent.removeChild id c).samplingParams = parent.samplingParams ∧
      (parent.removeChild id c).externalReqId = parent.externalReqId := by
    unfold removeChild
    split <;> exact ⟨rfl, rfl⟩
  have hcollect : (parent.removeChild id c).collect (c.finished && decide (id ∉ parent.childRequests)) c =
      .ok (parent.removeChild id c, [some c]) := by
    unfold collect
    rw [hremove.1, hkind]
    simp [hchild]
  refine ⟨{ parent.removeChild id c with
    reports := (parent.removeChild id c).reports ++
      [⟨id, c, [some c], (parent.removeChild id c).childRequests.isEmpty⟩] }, ?_, hremove.2⟩
  unfold getOutputs
  simp only
  rw [hcollect]
  rfl

namespace RequestState

/-! ## One output -/

variable {rs : RequestState L} {d : IncrementalDetokenizer} {lp : LogprobsProcessor L}
  {params : SamplingParams} {newTokenIds : List Nat} {sent : Nat}

theorem outputPromptTokenIds_ok (h : rs.promptTokenIds.isSome ∨ rs.promptEmbeds.isSome) :
    ∃ tokenIds, rs.outputPromptTokenIds = .ok tokenIds := by
  unfold outputPromptTokenIds
  cases h₁ : rs.promptTokenIds with
  | some tokenIds => exact ⟨tokenIds, rfl⟩
  | none =>
    cases h₂ : rs.promptEmbeds with
    | some embeds => exact ⟨_, rfl⟩
    | none => simp [h₁, h₂] at h

/-- What a completion holds in DELTA mode when the tokens from `sent` on are sent. -/
def deltaCompletion (rs : RequestState L) (d : IncrementalDetokenizer) (lp : LogprobsProcessor L)
    (sent : Nat) (finishReason : Option FinishReason) (stopReason : Option StopReason) :
    CompletionOutput L where
  index := rs.requestIndex
  text := (d.getNextOutputText finishReason.isSome true).2
  tokenIds := d.outputTokenIds.drop sent
  logprobs := lp.logprobs.map fun logprobs =>
    if logprobs ≠ [] then lastLogprobs logprobs (d.outputTokenIds.drop sent).length else logprobs
  finishReason := finishReason
  stopReason := if finishReason.isSome then stopReason else none

theorem newCompletionOutput_delta (hkind : rs.outputKind = .delta) (hd : rs.detokenizer = some d)
    (hlp : rs.logprobsProcessor = some lp) (sent : Nat) (finishReason : Option FinishReason)
    (stopReason : Option StopReason) :
    rs.newCompletionOutput (d.outputTokenIds.drop sent) finishReason stopReason =
      .ok ({ rs with detokenizer := some (d.getNextOutputText finishReason.isSome true).1 },
        deltaCompletion rs d lp sent finishReason stopReason) := by
  unfold newCompletionOutput
  rw [hd, hlp, hkind]
  simp only [decide_true, true_and]
  congr 2
  congr 1
  cases lp.logprobs <;> rfl

/-- A completion is sent as it is: directly, or through a parent that does not collect. -/
theorem dispatch_delta (hlp : rs.logprobsProcessor = some lp)
    (hprompt : rs.promptTokenIds.isSome ∨ rs.promptEmbeds.isSome) (hkind : rs.outputKind = .delta)
    {parent : Option (ParentRequest L)} (hparent : ∀ p, parent = some p →
      rs.requestId ∈ p.childRequests ∧ p.samplingParams.outputKind = .delta)
    (c : CompletionOutput L) (finished : Bool) :
    ∃ parent' output, rs.dispatch parent c finished =
      .ok ({ rs with logprobsProcessor := some lp.popPromptLogprobs.1 }, parent', some output) ∧
        output.completions = [c] := by
  obtain ⟨promptTokenIds, hprompt⟩ := outputPromptTokenIds_ok hprompt
  have hnew : ∀ (externalReqId : String) (finished : Bool), ∃ output : Output L,
      rs.newRequestOutput externalReqId [some c] finished =
        .ok ({ rs with logprobsProcessor := some lp.popPromptLogprobs.1 }, output) ∧
          output.completions = [c] := by
    intro externalReqId finished
    unfold newRequestOutput
    rw [hprompt, ok_bind, hlp, hkind]
    exact ⟨_, rfl, rfl⟩
  cases parent with
  | none =>
    obtain ⟨output, houtput, hcompletions⟩ := hnew rs.externalReqId finished
    refine ⟨none, output, ?_, hcompletions⟩
    unfold dispatch
    rw [houtput]
    rfl
  | some p =>
    obtain ⟨hchild, hpkind⟩ := hparent p rfl
    obtain ⟨p', hget, hexternal⟩ := ParentRequest.getOutputs_delta hchild hpkind c
    obtain ⟨output, houtput, hcompletions⟩ := hnew p'.externalReqId p'.childRequests.isEmpty
    refine ⟨some p', output, ?_, hcompletions⟩
    unfold dispatch
    dsimp only
    rw [hget, ok_bind]
    unfold newParentOutput
    rw [if_neg (by simp), houtput]
    rfl

/-- The state behind an output that was sent. -/
def afterSending (rs : RequestState L) (d : IncrementalDetokenizer) (lp : LogprobsProcessor L)
    (finished : Bool) : RequestState L :=
  { rs with
    sentTokensOffset := if rs.streamInterval > 1 then d.numOutputTokens else rs.sentTokensOffset
    detokenizer := some (d.getNextOutputText finished true).1
    logprobsProcessor := some lp.popPromptLogprobs.1 }

theorem tokensToSend_delta (hkind : rs.outputKind = .delta) (hd : rs.detokenizer = some d)
    (hnow : rs.streamInterval ≤ 1 →
      newTokenIds = d.outputTokenIds.drop sent) (hoffset : 1 < rs.streamInterval → rs.sentTokensOffset = sent)
    {finished : Bool} (hsends : Sends rs.streamInterval d.numOutputTokens sent finished) :
    rs.tokensToSend newTokenIds finished = .ok (some
      ({ rs with sentTokensOffset :=
          if rs.streamInterval > 1 then d.numOutputTokens else rs.sentTokensOffset },
        d.outputTokenIds.drop sent)) := by
  unfold tokensToSend
  by_cases hinterval : rs.streamInterval > 1
  · rw [if_pos hinterval, hd]
    dsimp only
    rw [hoffset hinterval, hkind, if_pos, if_pos rfl, if_pos hinterval]
    rcases hsends with h | h | h | h
    · omega
    · simp [h]
    · simp [h]
    · have : (rs.streamInterval : Int) ≤ (d.numOutputTokens : Int) - sent := by omega
      simp [this]
  · rw [if_neg hinterval, if_neg hinterval, hnow (by omega)]

theorem tokensToSend_skip (hd : rs.detokenizer = some d) (hoffset : 1 < rs.streamInterval → rs.sentTokensOffset = sent)
    {finished : Bool} (hskips : ¬ Sends rs.streamInterval d.numOutputTokens sent finished) :
    rs.tokensToSend newTokenIds finished = .ok none := by
  obtain ⟨hinterval, hskips⟩ := not_or.mp hskips
  obtain ⟨hfinished, hskips⟩ := not_or.mp hskips
  obtain ⟨hzero, hfew⟩ := not_or.mp hskips
  unfold tokensToSend
  have hlt : ¬ (rs.streamInterval : Int) ≤ (d.numOutputTokens : Int) - sent := by omega
  rw [if_pos (by omega), hd]
  dsimp only
  rw [hoffset (by omega)]
  simp [hfinished, hzero, hlt]

/-- An output in DELTA mode sends the tokens from `sent` on, or it is skipped. -/
theorem makeRequestOutput_delta (hkind : rs.outputKind = .delta) (hd : rs.detokenizer = some d)
    (hlp : rs.logprobsProcessor = some lp) (hprompt : rs.promptTokenIds.isSome ∨ rs.promptEmbeds.isSome)
    {parent : Option (ParentRequest L)} (hparent : ∀ p, parent = some p →
      rs.requestId ∈ p.childRequests ∧ p.samplingParams.outputKind = .delta) (hnow : rs.streamInterval ≤ 1 →
      newTokenIds = d.outputTokenIds.drop sent) (hoffset : 1 < rs.streamInterval → rs.sentTokensOffset = sent)
    (finishReason : Option FinishReason) (stopReason : Option StopReason)
    (hsends : Sends rs.streamInterval d.numOutputTokens sent finishReason.isSome) :
    ∃ parent' output, rs.makeRequestOutput parent newTokenIds none finishReason stopReason =
        .ok (afterSending rs d lp finishReason.isSome, parent', some output) ∧
      output.completions = [deltaCompletion rs d lp sent finishReason stopReason] := by
  let rs' : RequestState L := { rs with
    sentTokensOffset := if rs.streamInterval > 1 then d.numOutputTokens else rs.sentTokensOffset }
  let rs'' : RequestState L :=
    { rs' with detokenizer := some (d.getNextOutputText finishReason.isSome true).1 }
  have hcompletion : rs'.newCompletionOutput (d.outputTokenIds.drop sent) finishReason stopReason =
      .ok (rs'', deltaCompletion rs' d lp sent finishReason stopReason) := by
    apply newCompletionOutput_delta
    · exact hkind
    · exact hd
    · exact hlp
  have hlp' : rs''.logprobsProcessor = some lp := hlp
  obtain ⟨parent', output, hdispatch, hcompletions⟩ := dispatch_delta hlp' hprompt hkind hparent
    (deltaCompletion rs d lp sent finishReason stopReason) finishReason.isSome
  refine ⟨parent', output, ?_, hcompletions⟩
  unfold makeRequestOutput
  rw [if_neg (by rw [hkind]; simp), tokensToSend_delta hkind hd hnow hoffset hsends]
  show rs'.buildOutput parent _ none finishReason stopReason = _
  unfold buildOutput
  rw [hcompletion]
  exact hdispatch

theorem makeRequestOutput_skip (hkind : rs.outputKind = .delta) (hd : rs.detokenizer = some d)
    (parent : Option (ParentRequest L)) (hoffset : 1 < rs.streamInterval → rs.sentTokensOffset = sent)
    (finishReason : Option FinishReason) (stopReason : Option StopReason)
    (hskips : ¬ Sends rs.streamInterval d.numOutputTokens sent finishReason.isSome) :
    rs.makeRequestOutput parent newTokenIds none finishReason stopReason = .ok (rs, parent, none) := by
  unfold makeRequestOutput
  rw [if_neg (by rw [hkind]; simp), tokensToSend_skip hd hoffset hskips]
  rfl

end RequestState

end Yuan.Frontend
