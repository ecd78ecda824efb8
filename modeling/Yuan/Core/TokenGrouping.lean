import Yuan.Core.QueueRuns
import Yuan.Core.SessionRuns

/-!
# Stopping and the number of tokens a step brings

Speculative decoding brings several tokens in one step. `_update_request_with_output` checks for stop
after each of them, so splitting a step into two changes nothing while the request goes on, and a request
that is finished takes nothing more. Only a session that stops and is not over takes the tokens of the
steps behind its stop; the condition of `grouping_irrelevant_iff` is that this does not happen.
-/

namespace Yuan.Core

section Steps

variable {β : Type} (fns : HashFunctions β) (blockSize maxModelLen : Nat) (asyncScheduling : Bool)

/-- What a step brings for one request: how many drafts were scheduled, and the tokens generated. -/
structure StepOutput where
  numDraftTokens : Nat := 0
  tokenIds : List Nat
  deriving DecidableEq, Repr

/-- Adjust a request for the drafts that were rejected. -/
def rejectDrafts (request : Request β) (numDraftTokens : Nat) (generatedTokenIds : List Nat) : Request β :=
  if numDraftTokens = 0 ∨ generatedTokenIds = [] then request
  else
    let numAccepted : Int := generatedTokenIds.length - 1
    let numRejected := numDraftTokens - numAccepted
    { request with
      numComputedTokens :=
        if 0 < request.numComputedTokens then request.numComputedTokens - numRejected
        else request.numComputedTokens
      numOutputPlaceholders :=
        if 0 < request.numOutputPlaceholders then request.numOutputPlaceholders - numRejected
        else request.numOutputPlaceholders }

/-- `_handle_stopped_request`, for the request alone: whether it is finished. A session goes on with the
next input in its queue, or waits for it. -/
def handleStoppedRequest (request : Request β) : Except PyError (Bool × Request β) :=
  if !request.resumable then return (true, request)
  else
    match request.streamingQueue.getD [] with
    | update :: rest =>
      let request := { request with streamingQueue := some rest }
      match update with
      | none => return (true, request)
      | some update => do
        let request ← updateRequestAsSession fns blockSize request update
        return (false, request)
    | [] => return (false, { request with status := .waitingForStreamingReq })

/-- The next output of the request was in flight when the prefix cache was reset, and is discarded. -/
def Request.discards (request : Request β) : Bool := asyncScheduling && request.discardLatestAsyncTokens

/-- The tokens of an asynchronous step are no placeholders any more. -/
def Request.withoutPlaceholders (request : Request β) (kept : List Nat) : Request β :=
  { request with numOutputPlaceholders :=
      if asyncScheduling then request.numOutputPlaceholders - kept.length else request.numOutputPlaceholders }

/-- The body of the loop of `update_from_output` for one request: the request, and the tokens that were
kept. -/
def processStep (request : Request β) (step : StepOutput) : Except PyError (Request β × List Nat) :=
  -- finished already: aborted while the model was executing it
  if request.isFinished then return (request, [])
  else
    let request := rejectDrafts request step.numDraftTokens step.tokenIds
    -- force-preempted in `reset_prefix_cache`
    if step.tokenIds ≠ [] ∧ request.discards asyncScheduling then
      return ({ request with discardLatestAsyncTokens := false }, [])
    else do
      let (request, kept, stopped) ← updateRequestWithOutput fns blockSize maxModelLen request step.tokenIds
      let request := request.withoutPlaceholders asyncScheduling kept
      if stopped then do
        let (_, request) ← handleStoppedRequest fns blockSize request
        return (request, kept)
      else return (request, kept)

/-- The outputs of several steps for one request, one after the other. -/
def updateInSteps : Request β → List StepOutput → Except PyError (Request β × List Nat)
  | request, [] => return (request, [])
  | request, step :: steps => do
    let (request, kept) ← processStep fns blockSize maxModelLen asyncScheduling request step
    let (request, keptLater) ← updateInSteps request steps
    return (request, kept ++ keptLater)

/-- What is compared of two runs: the tokens that were kept, the status and the stop reason. -/
def result (run : Except PyError (Request β × List Nat)) :
    Except PyError (List Nat × RequestStatus × Option StopReason) :=
  run.map fun (request, kept) => (kept, request.status, request.stopReason)

/-- Tokens appended one by one. -/
def appendEach (request : Request β) (tokenIds : List Nat) : Request β :=
  tokenIds.foldl (fun request tokenId => appendOutputTokenIds fns blockSize request [tokenId]) request

/-- Steps that bring these tokens, each at least one of them. -/
def CutInto (steps : List StepOutput) (tokenIds : List Nat) : Prop :=
  (∀ step ∈ steps, step.tokenIds ≠ []) ∧ steps.flatMap StepOutput.tokenIds = tokenIds

instance (steps : List StepOutput) (tokenIds : List Nat) : Decidable (CutInto steps tokenIds) :=
  inferInstanceAs (Decidable (_ ∧ _))

/-- A request that generates tokens, with its sampling parameters. -/
def Generates (request : Request β) (params : SamplingParams) : Prop :=
  request.pooling = false ∧ request.samplingParams = some params

/-- Behind these tokens the request stops: it has enough of them, and the last one ends it, or it is as
long as it may be, or its output repeats itself. -/
def StopsBehind (request : Request β) (params : SamplingParams) (tokenIds : List Nat) : Prop :=
  params.minTokens ≤ (request.outputTokenIds ++ tokenIds).length ∧
    ((∃ t ∈ tokenIds.getLast?, some t = params.eosTokenId ∨ t ∈ params.stopTokenIds) ∨
      maxModelLen ≤ request.numTokens + tokenIds.length ∨
      request.maxTokens ≤ (request.outputTokenIds ++ tokenIds).length ∨
      ∃ p ∈ params.repetitionDetection, checkSequenceRepetition (request.outputTokenIds ++ tokenIds) p = true)

/-- A session that takes further tokens when it has stopped: it waits for input, or goes on with the one
in its queue. -/
def SessionGoesOn (request : Request β) : Prop :=
  request.resumable = true ∧ (request.streamingQueue.getD [] = [] ∨
    request.promptTokenIds ≠ none ∧ ∃ update rest, request.streamingQueue.getD [] = some update :: rest)

/-- The tokens up to the first one behind which the request stops, and all of them if there is none. -/
structure UpToStop (request : Request β) (params : SamplingParams) (tokenIds kept : List Nat) : Prop where
  isPrefix : kept <+: tokenIds
  goes : ∀ before after, kept = before ++ after → before ≠ [] → after ≠ [] →
    ¬ StopsBehind maxModelLen request params before
  stops : kept ≠ tokenIds → kept ≠ [] ∧ StopsBehind maxModelLen request params kept

/-- It does not matter how the tokens are cut into steps: the tokens that are kept, the status and the
stop reason are the same, and the tokens are kept up to the first one that stops the request. -/
structure GroupingIrrelevant (request : Request β) (params : SamplingParams) (tokenIds : List Nat) : Prop where
  same : ∀ steps steps', CutInto steps tokenIds → CutInto steps' tokenIds →
    result (updateInSteps fns blockSize maxModelLen asyncScheduling request steps) =
      result (updateInSteps fns blockSize maxModelLen asyncScheduling request steps')
  kept : request.isFinished = false → ∀ steps, CutInto steps tokenIds → ∀ request' kept,
    updateInSteps fns blockSize maxModelLen asyncScheduling request steps = .ok (request', kept) →
      UpToStop maxModelLen request params tokenIds kept

/-- The request does not go on when it stops, or does not stop before the last token. -/
def DropsRest (request : Request β) (params : SamplingParams) (tokenIds : List Nat) : Prop :=
  ¬ SessionGoesOn request ∨ ∀ before after, tokenIds = before ++ after → before ≠ [] → after ≠ [] →
    ¬ StopsBehind maxModelLen request params before

end Steps

variable {β : Type} {fns : HashFunctions β} {blockSize maxModelLen : Nat} {asyncScheduling : Bool}
  {request : Request β} {params : SamplingParams}

/-! ## Counters -/

/-- A request with other counters, and another mark of a reset. -/
def Request.counted (r : Request β) (numComputedTokens numOutputPlaceholders : Int)
    (discardLatestAsyncTokens : Bool) : Request β :=
  { r with numComputedTokens, numOutputPlaceholders, discardLatestAsyncTokens }

variable (fns blockSize request) in
/-- The hasher does not read the counters. -/
theorem hashLoop_counted (c p : Int) (d : Bool) (fuel start : Nat) (i : Int) (prev : Option β) :
    hashLoop fns blockSize (request.counted c p d) fuel start i prev =
      hashLoop fns blockSize request fuel start i prev := by
  induction fuel generalizing start i prev with
  | zero => rfl
  | succ fuel ih =>
    rw [hashLoop, hashLoop]
    simp only [ih]
    rfl

theorem appendOutputTokenIds_counted (c p : Int) (d : Bool) (tokenIds : List Nat) :
    appendOutputTokenIds fns blockSize (request.counted c p d) tokenIds =
      (appendOutputTokenIds fns blockSize request tokenIds).counted c p d := by
  have hhash := hashLoop_counted fns blockSize
    { request with
      outputTokenIds := request.outputTokenIds ++ tokenIds, allTokenIds := request.allTokenIds ++ tokenIds } c p d
  unfold appendOutputTokenIds updateBlockHashes requestBlockHasher
  unfold Request.counted at hhash ⊢
  simp only [hhash]
  rfl

theorem checkStop_counted (c p : Int) (d : Bool) :
    checkStop (request.counted c p d) maxModelLen =
      (checkStop request maxModelLen).map fun (r, stopped) => (r.counted c p d, stopped) := by
  have hstatus : ∀ params lastTokenId, stopStatus (request.counted c p d) params maxModelLen lastTokenId =
      stopStatus request params maxModelLen lastTokenId := fun _ _ => rfl
  have hparams : (request.counted c p d).samplingParams = request.samplingParams := rfl
  have hout : (request.counted c p d).outputTokenIds = request.outputTokenIds := rfl
  have hpooling : (request.counted c p d).pooling = request.pooling := rfl
  unfold checkStop
  rw [hparams, hout, hpooling]
  cases request.pooling with
  | true => rfl
  | false =>
    cases request.samplingParams with
    | none => rfl
    | some params =>
      cases request.outputTokenIds.getLast? with
      | none => rfl
      | some lastTokenId =>
        simp only [hstatus]
        cases stopStatus request params maxModelLen lastTokenId <;> rfl

theorem updateRequestWithOutput_counted (c p : Int) (d : Bool) (tokenIds : List Nat) :
    updateRequestWithOutput fns blockSize maxModelLen (request.counted c p d) tokenIds =
      (updateRequestWithOutput fns blockSize maxModelLen request tokenIds).map
        fun (r, kept, stopped) => (r.counted c p d, kept, stopped) := by
  induction tokenIds generalizing request with
  | nil => rfl
  | cons tokenId rest ih =>
    rw [updateRequestWithOutput, updateRequestWithOutput, appendOutputTokenIds_counted, checkStop_counted]
    cases checkStop (appendOutputTokenIds fns blockSize request [tokenId]) maxModelLen with
    | error e => rfl
    | ok checked =>
      obtain ⟨r, stopped⟩ := checked
      cases stopped with
      | true => rfl
      | false =>
        show updateRequestWithOutput fns blockSize maxModelLen (r.counted c p d) rest >>= _ =
          (updateRequestWithOutput fns blockSize maxModelLen r rest >>= _).map _
        rw [ih]
        cases updateRequestWithOutput fns blockSize maxModelLen r rest <;> rfl

/-- Rejected drafts change counters only. -/
theorem rejectDrafts_eq (request : Request β) (numDraftTokens : Nat) (generatedTokenIds : List Nat) :
    ∃ c p, rejectDrafts request numDraftTokens generatedTokenIds =
      request.counted c p request.discardLatestAsyncTokens := by
  unfold rejectDrafts
  split
  · exact ⟨request.numComputedTokens, request.numOutputPlaceholders, rfl⟩
  · exact ⟨_, _, rfl⟩

/-- What a stopped request becomes does not depend on the counters, the tokens of a session apart. -/
theorem result_handleStoppedRequest (kept : List Nat) (c p : Int) (d : Bool) :
    result (handleStoppedRequest fns blockSize (request.counted c p d) >>= fun x => pure (x.2, kept)) =
      result (handleStoppedRequest fns blockSize request >>= fun x => pure (x.2, kept)) := by
  have hresumable : (request.counted c p d).resumable = request.resumable := rfl
  have hqueue : (request.counted c p d).streamingQueue = request.streamingQueue := rfl
  unfold handleStoppedRequest
  rw [hresumable, hqueue]
  cases request.resumable with
  | false => rfl
  | true =>
    rcases request.streamingQueue.getD [] with _ | ⟨_ | update, rest⟩
    · rfl
    · rfl
    · simp only [Request.counted]
      cases request.promptTokenIds <;> rfl

variable (fns blockSize maxModelLen asyncScheduling request) in
/-- What a step does with a request that is not finished, the counters apart. -/
theorem processStep_eq (h : request.isFinished = false) (hkeeps : request.discards asyncScheduling = false)
    (step : StepOutput) :
    ∃ (c : Int) (p : List Nat → Int), processStep fns blockSize maxModelLen asyncScheduling request step =
      (do
        let (r, kept, stopped) ← updateRequestWithOutput fns blockSize maxModelLen request step.tokenIds
        let r := r.counted c (p kept) request.discardLatestAsyncTokens
        if stopped then do
          let (_, r) ← handleStoppedRequest fns blockSize r
          return (r, kept)
        else return (r, kept)) := by
  obtain ⟨c, p, hreject⟩ := rejectDrafts_eq request step.numDraftTokens step.tokenIds
  refine ⟨c, fun kept => if asyncScheduling then p - kept.length else p, ?_⟩
  have hkeeps' : (request.counted c p request.discardLatestAsyncTokens).discards asyncScheduling = false := hkeeps
  rw [processStep, if_neg (by simp [h]), hreject]
  dsimp only
  rw [if_neg (by simp [hkeeps']), updateRequestWithOutput_counted]
  cases updateRequestWithOutput fns blockSize maxModelLen request step.tokenIds <;> rfl

variable (fns blockSize maxModelLen request) in
/-- The result of tokens that come in one step, for which the counters do not matter. -/
def resultOfTokens (tokenIds : List Nat) : Except PyError (List Nat × RequestStatus × Option StopReason) :=
  result (do
    let (r, kept, stopped) ← updateRequestWithOutput fns blockSize maxModelLen request tokenIds
    if stopped then handleStoppedRequest fns blockSize r >>= fun x => pure (x.2, kept)
    else return (r, kept))

theorem resultOfTokens_counted (c p : Int) (d : Bool) (tokenIds : List Nat) :
    resultOfTokens fns blockSize maxModelLen (request.counted c p d) tokenIds =
      resultOfTokens fns blockSize maxModelLen request tokenIds := by
  unfold resultOfTokens
  rw [updateRequestWithOutput_counted]
  cases updateRequestWithOutput fns blockSize maxModelLen request tokenIds with
  | error e => rfl
  | ok updated =>
    obtain ⟨r, kept, stopped⟩ := updated
    cases stopped with
    | true => exact result_handleStoppedRequest kept c p d
    | false => rfl

/-! ## Stopping -/

/-- Two steps have the effect of one, unless the first one stops the request. -/
theorem updateRequestWithOutput_append (request : Request β) (first second : List Nat) :
    updateRequestWithOutput fns blockSize maxModelLen request (first ++ second) =
      (do
        let (request, kept, stopped) ←
          updateRequestWithOutput fns blockSize maxModelLen request first
        if stopped then return (request, kept, true)
        else do
          let (request, keptLater, stopped) ←
            updateRequestWithOutput fns blockSize maxModelLen request second
          return (request, kept ++ keptLater, stopped)) := by
  induction first generalizing request with
  | nil =>
    rw [List.nil_append]
    show _ = (updateRequestWithOutput fns blockSize maxModelLen request second >>= _)
    cases updateRequestWithOutput fns blockSize maxModelLen request second <;> rfl
  | cons tokenId rest ih =>
    rw [List.cons_append, updateRequestWithOutput, updateRequestWithOutput]
    cases hcheck : checkStop (appendOutputTokenIds fns blockSize request [tokenId]) maxModelLen with
    | error e => rfl
    | ok checked =>
      obtain ⟨request', stopped⟩ := checked
      cases stopped with
      | true => rfl
      | false =>
        show (updateRequestWithOutput fns blockSize maxModelLen request' (rest ++ second) >>= _) =
          ((updateRequestWithOutput fns blockSize maxModelLen request' rest >>= _) >>= _)
        rw [ih]
        cases updateRequestWithOutput fns blockSize maxModelLen request' rest with
        | error e => rfl
        | ok first' =>
          obtain ⟨request'', kept, stopped⟩ := first'
          cases stopped with
          | true => rfl
          | false =>
            show (updateRequestWithOutput fns blockSize maxModelLen request'' second >>= _)
              >>= _ = (updateRequestWithOutput fns blockSize maxModelLen request'' second >>= _)
            cases updateRequestWithOutput fns blockSize maxModelLen request'' second <;> rfl


variable (fns blockSize maxModelLen asyncScheduling) in
/-- A finished request takes no more tokens. -/
theorem updateInSteps_of_finished (h : request.isFinished = true) (steps : List StepOutput) :
    updateInSteps fns blockSize maxModelLen asyncScheduling request steps = .ok (request, []) := by
  induction steps with
  | nil => rfl
  | cons step steps ih =>
    rw [updateInSteps, processStep, if_pos h]
    show (updateInSteps fns blockSize maxModelLen asyncScheduling request steps >>= _) = _
    rw [ih]
    rfl

theorem appendEach_cons (tokenId : Nat) (rest : List Nat) :
    appendEach fns blockSize request (tokenId :: rest) =
      appendEach fns blockSize (appendOutputTokenIds fns blockSize request [tokenId]) rest := rfl

variable (fns blockSize) in
theorem outputTokenIds_appendEach (request : Request β) (tokenIds : List Nat) :
    (appendEach fns blockSize request tokenIds).outputTokenIds = request.outputTokenIds ++ tokenIds := by
  induction tokenIds generalizing request with
  | nil => simp [appendEach]
  | cons tokenId rest ih =>
    rw [appendEach_cons, ih]
    simp [appendOutputTokenIds, updateBlockHashes]

variable (fns blockSize) in
theorem numTokens_appendEach (request : Request β) (tokenIds : List Nat) :
    (appendEach fns blockSize request tokenIds).numTokens = request.numTokens + tokenIds.length := by
  induction tokenIds generalizing request with
  | nil => rfl
  | cons tokenId rest ih =>
    rw [appendEach_cons, ih]
    simp only [Request.numTokens, appendOutputTokenIds, updateBlockHashes, List.length_append,
      List.length_cons, List.length_nil]
    omega

variable (fns blockSize) in
/-- Appending tokens changes tokens and hashes only. -/
theorem appendEach_eq (request : Request β) (tokenIds : List Nat) :
    ∃ outputTokenIds allTokenIds blockHashes, appendEach fns blockSize request tokenIds =
      { request with outputTokenIds, allTokenIds, blockHashes } := by
  induction tokenIds generalizing request with
  | nil => exact ⟨request.outputTokenIds, request.allTokenIds, request.blockHashes, rfl⟩
  | cons tokenId rest ih =>
    obtain ⟨o, a, b, h⟩ := ih (appendOutputTokenIds fns blockSize request [tokenId])
    exact ⟨o, a, b, h⟩

theorem stopStatus_isSome {lastTokenId : Nat} :
    (stopStatus request params maxModelLen lastTokenId).isSome = true ↔ params.minTokens ≤ request.numOutputTokens ∧
        ((some lastTokenId = params.eosTokenId ∨ lastTokenId ∈ params.stopTokenIds) ∨
          maxModelLen ≤ request.numTokens ∨ request.maxTokens ≤ request.numOutputTokens ∨
          ∃ p ∈ params.repetitionDetection, checkSequenceRepetition request.outputTokenIds p = true) := by
  unfold stopStatus
  cases params.repetitionDetection <;> grind

theorem checkStop_eq (hg : Generates request params) {lastTokenId : Nat}
    (hlast : request.outputTokenIds.getLast? = some lastTokenId) :
    checkStop request maxModelLen =
      match stopStatus request params maxModelLen lastTokenId with
      | some (status, reason) =>
        .ok ({ request with status, stopReason := reason <|> request.stopReason }, true)
      | none => .ok (request, false) := by
  have hassert : pyAssert (!request.pooling) "not request.pooling_params" = .ok () := by
    rw [hg.1]
    rfl
  unfold checkStop
  rw [hassert]
  split
  case h_1 hnone => cases hg.2.symm.trans hnone
  case h_2 hnone => cases hlast.symm.trans hnone
  case h_3 params' last' hparams hlast' =>
    cases hg.2.symm.trans hparams
    cases hlast.symm.trans hlast'
    rfl

variable (fns blockSize maxModelLen) in
/-- The check behind appended tokens says whether the request stops there. -/
theorem checkStop_appendEach (hg : Generates request params) {tokenIds : List Nat} (hne : tokenIds ≠ []) :
    (StopsBehind maxModelLen request params tokenIds ∧ ∃ status stopReason,
      checkStop (appendEach fns blockSize request tokenIds) maxModelLen =
        .ok ({ appendEach fns blockSize request tokenIds with status, stopReason }, true)) ∨
    (¬ StopsBehind maxModelLen request params tokenIds ∧
      checkStop (appendEach fns blockSize request tokenIds) maxModelLen =
        .ok (appendEach fns blockSize request tokenIds, false)) := by
  have hout := outputTokenIds_appendEach fns blockSize request tokenIds
  have hnum := numTokens_appendEach fns blockSize request tokenIds
  obtain ⟨o, a, b, hsame⟩ := appendEach_eq fns blockSize request tokenIds
  have hgen : Generates (appendEach fns blockSize request tokenIds) params := by
    rw [hsame]
    exact hg
  have hmax : (appendEach fns blockSize request tokenIds).maxTokens = request.maxTokens := by rw [hsame]
  generalize appendEach fns blockSize request tokenIds = r at hout hnum hgen hmax
  obtain ⟨last, hlast⟩ : ∃ last, tokenIds.getLast? = some last :=
    ⟨_, List.getLast?_eq_some_getLast hne⟩
  have hlast' : r.outputTokenIds.getLast? = some last := by
    rw [hout, List.getLast?_append, hlast]
    rfl
  have hstops : (stopStatus r params maxModelLen last).isSome = true ↔
      StopsBehind maxModelLen request params tokenIds := by
    rw [stopStatus_isSome, StopsBehind, hlast, Request.numOutputTokens, hout, hnum, hmax]
    simp
  rw [checkStop_eq hgen hlast', ← hstops]
  cases stopStatus r params maxModelLen last with
  | none => exact Or.inr ⟨by simp, rfl⟩
  | some stop => exact Or.inl ⟨rfl, stop.1, stop.2 <|> r.stopReason, rfl⟩

variable (fns blockSize) in
/-- What stopped tokens say about longer lists of tokens. -/
theorem stopsBehind_append (before after : List Nat) (hne : after ≠ []) :
    StopsBehind maxModelLen (appendEach fns blockSize request before) params after ↔
      StopsBehind maxModelLen request params (before ++ after) := by
  obtain ⟨o, a, b, hsame⟩ := appendEach_eq fns blockSize request before
  have hmax : (appendEach fns blockSize request before).maxTokens = request.maxTokens := by rw [hsame]
  have hlen : (before ++ after).length = before.length + after.length := List.length_append
  unfold StopsBehind
  rw [outputTokenIds_appendEach, numTokens_appendEach, hmax, List.append_assoc, hlen,
    List.getLast?_append_of_ne_nil _ hne, Nat.add_assoc]

variable (fns blockSize maxModelLen) in
/-- One step appends the tokens up to the first one that stops the request. -/
theorem updateRequestWithOutput_run (hg : Generates request params) (tokenIds : List Nat) :
    ∃ kept stopped r, updateRequestWithOutput fns blockSize maxModelLen request tokenIds = .ok (r, kept, stopped) ∧
      UpToStop maxModelLen request params tokenIds kept ∧
      if stopped then
        kept ≠ [] ∧ StopsBehind maxModelLen request params kept ∧ r.isFinished = true ∧
          ∃ status stopReason, r = { appendEach fns blockSize request kept with status, stopReason }
      else
        kept = tokenIds ∧ r = appendEach fns blockSize request kept ∧
          (kept ≠ [] → ¬ StopsBehind maxModelLen request params kept) := by
  induction tokenIds generalizing request with
  | nil =>
    refine ⟨[], false, request, rfl, ⟨List.prefix_rfl, ?_, fun h => absurd rfl h⟩, rfl, rfl, fun h => absurd rfl h⟩
    intro before after hsplit hbefore
    exact absurd (List.append_eq_nil_iff.mp hsplit.symm).1 hbefore
  | cons tokenId rest ih =>
    have hnext : Generates (appendOutputTokenIds fns blockSize request [tokenId]) params := hg
    rw [updateRequestWithOutput]
    rcases checkStop_appendEach fns blockSize maxModelLen hg
      (List.cons_ne_nil tokenId []) with ⟨hstops, status, stopReason, hcheck⟩ | ⟨hgoes, hcheck⟩
    · -- the request stops here
      refine ⟨[tokenId], true, _, ?_, ⟨⟨rest, rfl⟩, ?_, fun _ => ⟨List.cons_ne_nil _ _, hstops⟩⟩,
        List.cons_ne_nil _ _, hstops, ?_, status, stopReason, rfl⟩
      · show (checkStop (appendEach fns blockSize request [tokenId]) maxModelLen >>= _) = _
        rw [hcheck]
        rfl
      · intro before after hsplit hbefore hafter
        rcases before with _ | ⟨b, before⟩
        · exact absurd rfl hbefore
        · exact absurd (List.append_eq_nil_iff.mp (List.cons.inj hsplit).2.symm).2 hafter
      · exact (checkStop_spec hcheck).2.1 rfl
    · -- it goes on with the rest
      obtain ⟨kept, stopped, r, hrun, hup, hend⟩ := ih hnext
      have hone : ∀ l, l ≠ [] → (StopsBehind maxModelLen (appendOutputTokenIds fns blockSize request [tokenId])
          params l ↔ StopsBehind maxModelLen request params (tokenId :: l)) :=
        fun l hl => stopsBehind_append fns blockSize [tokenId] l hl
      refine ⟨tokenId :: kept, stopped, r, ?_, ⟨?_, ?_, ?_⟩, ?_⟩
      · show (checkStop (appendEach fns blockSize request [tokenId]) maxModelLen >>= _) = _
        rw [hcheck, ok_bind]
        show (updateRequestWithOutput fns blockSize maxModelLen
          (appendOutputTokenIds fns blockSize request [tokenId]) rest >>= _) = _
        rw [hrun]
        rfl
      · exact (List.prefix_cons_inj tokenId).mpr hup.isPrefix
      · intro before after hsplit hbefore hafter
        rcases before with _ | ⟨b, before⟩
        · exact absurd rfl hbefore
        · obtain ⟨rfl, htail⟩ := List.cons.inj hsplit
          by_cases hnil : before = []
          · rw [hnil]
            exact hgoes
          · rw [← hone before hnil]
            exact hup.goes before after htail hnil hafter
      · intro hne
        obtain ⟨hkept, hstops⟩ := hup.stops fun heq => hne (by rw [heq])
        exact ⟨List.cons_ne_nil _ _, (hone kept hkept).mp hstops⟩
      · cases stopped with
        | true =>
          simp only [if_true] at hend ⊢
          obtain ⟨hkept, hstops, hfin, hr⟩ := hend
          exact ⟨List.cons_ne_nil _ _, (hone kept hkept).mp hstops, hfin, hr⟩
        | false =>
          simp only [Bool.false_eq_true, if_false] at hend ⊢
          obtain ⟨rfl, hr, hlast⟩ := hend
          refine ⟨rfl, hr, fun _ => ?_⟩
          by_cases hnil : kept = []
          · rw [hnil]
            exact hgoes
          · rw [← hone kept hnil]
            exact hlast hnil

/-! ## Cutting the tokens into steps -/

/-- Tokens and counters do not decide whether a session goes on. -/
theorem sessionGoesOn_stopped (c p : Int) (d : Bool) (kept : List Nat) (status : RequestStatus)
    (stopReason : Option StopReason) :
    SessionGoesOn (({ appendEach fns blockSize request kept with status, stopReason } : Request β).counted c p d) ↔
      SessionGoesOn request := by
  obtain ⟨o, a, b, hsame⟩ := appendEach_eq fns blockSize request kept
  rw [hsame]
  rfl

variable (fns blockSize) in
/-- A stopped request that is no session, or one whose end is queued, is finished. -/
theorem handleStoppedRequest_of_done (h : ¬ SessionGoesOn request) (hfin : request.isFinished = true) :
    (∃ e, handleStoppedRequest fns blockSize request = .error e) ∨
      ∃ r, handleStoppedRequest fns blockSize request = .ok (true, r) ∧ r.isFinished = true := by
  unfold handleStoppedRequest
  cases hresumable : request.resumable with
  | false => exact Or.inr ⟨request, rfl, hfin⟩
  | true =>
    rcases hqueue : request.streamingQueue.getD [] with _ | ⟨_ | update, rest⟩
    · exact absurd ⟨hresumable, Or.inl hqueue⟩ h
    · exact Or.inr ⟨_, rfl, hfin⟩
    · refine Or.inl ?_
      have hprompt : request.promptTokenIds = none := by
        by_contra hne
        exact h ⟨hresumable, Or.inr ⟨hne, update, rest, hqueue⟩⟩
      simp only [updateRequestAsSession, hprompt]
      exact ⟨_, rfl⟩

variable (fns blockSize) in
/-- A session that goes on is not finished. -/
theorem handleStoppedRequest_of_goesOn (h : SessionGoesOn request) :
    ∃ r, handleStoppedRequest fns blockSize request = .ok (false, r) ∧ r.isFinished = false ∧
      r.discardLatestAsyncTokens = request.discardLatestAsyncTokens := by
  unfold handleStoppedRequest
  obtain ⟨hresumable, hqueue | ⟨hprompt, update, rest, hqueue⟩⟩ := h
  · rw [hresumable, hqueue]
    exact ⟨_, rfl, rfl, rfl⟩
  · obtain ⟨promptTokenIds, hprompt⟩ := Option.ne_none_iff_exists'.mp hprompt
    rw [hresumable, hqueue]
    simp only [updateRequestAsSession, hprompt]
    exact ⟨_, rfl, rfl, rfl⟩

theorem result_prepend (kept : List Nat) (run : Except PyError (Request β × List Nat)) :
    result (run >>= fun x => pure (x.1, kept ++ x.2)) = (result run).map fun x => (kept ++ x.1, x.2) := by
  cases run <;> rfl

/-- The steps together have the result of one step, if nothing is taken behind a stop. -/
theorem result_updateInSteps (hg : Generates request params) (hlive : request.isFinished = false)
    (hkeeps : request.discards asyncScheduling = false) {steps : List StepOutput}
    (hsteps : ∀ step ∈ steps, step.tokenIds ≠ [])
    (hdrops : DropsRest maxModelLen request params (steps.flatMap StepOutput.tokenIds)) :
    result (updateInSteps fns blockSize maxModelLen asyncScheduling request steps) =
      resultOfTokens fns blockSize maxModelLen request (steps.flatMap StepOutput.tokenIds) := by
  induction steps generalizing request with
  | nil => rfl
  | cons step steps ih =>
    obtain ⟨c, p, hstep⟩ := processStep_eq fns blockSize maxModelLen asyncScheduling request hlive hkeeps step
    obtain ⟨kept, stopped, r, hrun, hup, hend⟩ :=
      updateRequestWithOutput_run fns blockSize maxModelLen hg step.tokenIds
    rw [List.flatMap_cons] at hdrops ⊢
    rw [updateInSteps, hstep, resultOfTokens, updateRequestWithOutput_append, hrun, ok_bind, ok_bind]
    cases stopped with
    | true =>
      obtain ⟨hkept, hstops, hfin, status, stopReason, hr⟩ := hend
      have hgoesOn : SessionGoesOn (r.counted c (p kept) request.discardLatestAsyncTokens) ↔
          SessionGoesOn request := by
        rw [hr]
        exact sessionGoesOn_stopped c (p kept) _ kept status stopReason
      show result ((handleStoppedRequest fns blockSize (r.counted c (p kept) request.discardLatestAsyncTokens)
          >>= fun x => pure (x.2, kept)) >>= _) =
        result (handleStoppedRequest fns blockSize r >>= fun x => pure (x.2, kept))
      rw [← result_handleStoppedRequest kept c (p kept) request.discardLatestAsyncTokens]
      by_cases hnil : steps = []
      · -- the last step
        subst hnil
        cases handleStoppedRequest fns blockSize (r.counted c (p kept) request.discardLatestAsyncTokens) with
        | error e => rfl
        | ok done => simp [updateInSteps]
      · -- behind a stop nothing is taken
        have hrest : steps.flatMap StepOutput.tokenIds ≠ [] := by
          obtain ⟨next, rest, rfl⟩ := List.exists_cons_of_ne_nil hnil
          exact fun h => hsteps next (by simp) (List.append_eq_nil_iff.mp h).1
        obtain ⟨dropped, hsplit⟩ := hup.isPrefix
        have hover : ¬ SessionGoesOn request := by
          rcases hdrops with hover | hnone
          · exact hover
          · refine absurd hstops (hnone kept (dropped ++ steps.flatMap StepOutput.tokenIds) ?_ hkept ?_)
            · rw [← hsplit, List.append_assoc]
            · exact fun h => hrest (List.append_eq_nil_iff.mp h).2
        rcases handleStoppedRequest_of_done fns blockSize
          (mt hgoesOn.mp hover) hfin with ⟨e, hdone⟩ | ⟨done, hdone, hfin'⟩
        · rw [hdone]
          rfl
        · have hlater := updateInSteps_of_finished fns blockSize maxModelLen asyncScheduling hfin' steps
          rw [hdone]
          simp [hlater, ok_bind]
    | false =>
      obtain ⟨rfl, rfl, hgoes⟩ := hend
      obtain ⟨o, a, b, hsame⟩ := appendEach_eq fns blockSize request step.tokenIds
      have hdrops' : DropsRest maxModelLen ((appendEach fns blockSize request step.tokenIds).counted c
          (p step.tokenIds) request.discardLatestAsyncTokens) params (steps.flatMap StepOutput.tokenIds) := by
        rcases hdrops with hover | hnone
        · refine Or.inl ?_
          rw [hsame]
          exact hover
        · refine Or.inr fun before after hsplit hbefore hafter => ?_
          show ¬ StopsBehind maxModelLen (appendEach fns blockSize request step.tokenIds) params before
          rw [stopsBehind_append _ _ _ _ hbefore]
          refine hnone (step.tokenIds ++ before) after ?_ ?_ hafter
          · rw [hsplit, List.append_assoc]
          · exact fun h => hbefore (List.append_eq_nil_iff.mp h).2
      have hkeeps' : ((appendEach fns blockSize request step.tokenIds).counted c (p step.tokenIds)
          request.discardLatestAsyncTokens).discards asyncScheduling = false := hkeeps
      have hnext := ih (by rw [hsame]; exact hg) (by rw [hsame]; exact hlive) hkeeps'
        (fun next hnext => hsteps next (List.mem_cons_of_mem _ hnext)) hdrops'
      show result (updateInSteps fns blockSize maxModelLen asyncScheduling _ steps >>= fun x =>
        pure (x.1, step.tokenIds ++ x.2)) = _
      rw [result_prepend, hnext, resultOfTokens_counted, resultOfTokens, ← result_prepend]
      simp only [Bool.false_eq_true, if_false]
      cases updateRequestWithOutput fns blockSize maxModelLen
        (appendEach fns blockSize request step.tokenIds) (steps.flatMap StepOutput.tokenIds) with
      | error e => rfl
      | ok updated =>
        obtain ⟨r', later, stopped⟩ := updated
        cases stopped with
        | true => simp only [ok_bind, if_true, bind_assoc, pure_bind]
        | false => rfl

/-- Whatever the steps, the tokens kept are those of one step. -/
theorem upToStop_of_result (hg : Generates request params) {tokenIds kept : List Nat}
    {run : Except PyError (Request β × List Nat)} {request' : Request β} (hrun : run = .ok (request', kept))
    (hsame : result run = resultOfTokens fns blockSize maxModelLen request tokenIds) :
    UpToStop maxModelLen request params tokenIds kept := by
  obtain ⟨kept', stopped, r, hupdate, hup, -⟩ := updateRequestWithOutput_run fns blockSize maxModelLen hg tokenIds
  rw [hrun, resultOfTokens, hupdate, ok_bind] at hsame
  have hkept : kept = kept' := by
    cases stopped with
    | false => exact (Prod.mk.inj (Except.ok.inj hsame)).1
    | true =>
      simp only [if_true] at hsame
      cases hdone : handleStoppedRequest fns blockSize r with
      | error e =>
        rw [hdone] at hsame
        cases hsame
      | ok done =>
        rw [hdone] at hsame
        exact (Prod.mk.inj (Except.ok.inj hsame)).1
  rw [hkept]
  exact hup

variable (fns blockSize) in
/-- A request that stops before the last token: the tokens that one step keeps, and that a step of these
tokens keeps as well. -/
theorem exists_upToStop (hg : Generates request params) {tokenIds before after : List Nat}
    (hsplit : tokenIds = before ++ after) (hbefore : before ≠ []) (hafter : after ≠ [])
    (hstops : StopsBehind maxModelLen request params before) :
    ∃ kept dropped status stopReason, tokenIds = kept ++ dropped ∧ kept ≠ [] ∧ dropped ≠ [] ∧
      ∀ l ∈ [kept, tokenIds], updateRequestWithOutput fns blockSize maxModelLen request l =
        .ok ({ appendEach fns blockSize request kept with status, stopReason }, kept, true) := by
  obtain ⟨kept, stopped, r, hrun, hup, hend⟩ := updateRequestWithOutput_run fns blockSize maxModelLen hg tokenIds
  have hne : kept ≠ tokenIds := by
    rintro rfl
    exact hup.goes before after hsplit hbefore hafter hstops
  obtain ⟨hkept, hstop⟩ := hup.stops hne
  obtain ⟨dropped, hdropped⟩ := hup.isPrefix
  cases stopped with
  | false => exact absurd hend.1 hne
  | true =>
    obtain ⟨-, -, -, status, stopReason, rfl⟩ := hend
    refine ⟨kept, dropped, status, stopReason, hdropped.symm, hkept, ?_, ?_⟩
    · rintro rfl
      exact hne (by simpa using hdropped)
    · -- the kept tokens alone stop the request at their end
      obtain ⟨kept₁, stopped₁, r₁, hrun₁, hup₁, hend₁⟩ :=
        updateRequestWithOutput_run fns blockSize maxModelLen hg kept
      have hall : kept₁ = kept := by
        by_contra hne₁
        obtain ⟨hkept₁, hstop₁⟩ := hup₁.stops hne₁
        obtain ⟨rest, hrest⟩ := hup₁.isPrefix
        refine hup.goes kept₁ rest hrest.symm hkept₁ ?_ hstop₁
        rintro rfl
        exact hne₁ (by simpa using hrest)
      subst hall
      cases stopped₁ with
      | false => exact absurd hstop (hend₁.2.2 hkept)
      | true =>
        have hwhole := hrun
        rw [← hdropped, updateRequestWithOutput_append, hrun₁] at hwhole
        have hone := hrun₁.trans hwhole
        simp [hone, hrun]

/-- A token that is processed is kept. -/
theorem kept_ne_nil {tokenIds kept : List Nat} {stopped : Bool} {r : Request β} (hne : tokenIds ≠ [])
    (hrun : updateRequestWithOutput fns blockSize maxModelLen request tokenIds = .ok (r, kept, stopped)) :
    kept ≠ [] := by
  obtain ⟨tokenId, rest, rfl⟩ := List.exists_cons_of_ne_nil hne
  obtain ⟨⟨checked, done⟩, -, hrun⟩ := bind_eq_ok.mp hrun
  cases done with
  | true =>
    cases hrun
    exact List.cons_ne_nil _ _
  | false =>
    obtain ⟨later, -, hrun⟩ := bind_eq_ok.mp hrun
    cases hrun
    exact List.cons_ne_nil _ _

variable (fns blockSize maxModelLen asyncScheduling) in
/-- A stop of a session that goes on: the session it becomes takes the tokens of the next step. -/
theorem processStep_of_goesOn (step : StepOutput) (hlive : request.isFinished = false)
    (hkeeps : request.discards asyncScheduling = false) (hgoes : SessionGoesOn request) {kept : List Nat}
    {status : RequestStatus} {stopReason : Option StopReason}
    (hrun : updateRequestWithOutput fns blockSize maxModelLen request step.tokenIds =
      .ok ({ appendEach fns blockSize request kept with status, stopReason }, kept, true)) :
    ∃ r, processStep fns blockSize maxModelLen asyncScheduling request step = .ok (r, kept) ∧
      r.isFinished = false ∧ r.discards asyncScheduling = false := by
  obtain ⟨c, p, hstep⟩ := processStep_eq fns blockSize maxModelLen asyncScheduling request hlive hkeeps step
  obtain ⟨r, hr, hlive', hsame⟩ := handleStoppedRequest_of_goesOn fns blockSize
    ((sessionGoesOn_stopped c (p kept) request.discardLatestAsyncTokens kept status stopReason).mpr hgoes)
  refine ⟨r, ?_, hlive', ?_⟩
  · rw [hstep, hrun, ok_bind]
    show (handleStoppedRequest fns blockSize _ >>= fun x => pure (x.2, kept)) = _
    rw [hr]
    rfl
  · rw [Request.discards, hsame]
    exact hkeeps

variable (fns blockSize maxModelLen) in
/-- A session that stops before the last token: cut behind its stop, the tokens are all taken. -/
theorem not_groupingIrrelevant (hg : Generates request params) (hlive : request.isFinished = false)
    (hkeeps : request.discards asyncScheduling = false) {tokenIds : List Nat}
    (hdrops : ¬ DropsRest maxModelLen request params tokenIds) :
    ¬ GroupingIrrelevant fns blockSize maxModelLen asyncScheduling request params tokenIds := by
  intro h
  obtain ⟨hon, hstops⟩ := not_or.mp hdrops
  push Not at hstops
  obtain ⟨before, after, hsplit, hbefore, hafter, hstop⟩ := hstops
  have hon := not_not.mp hon
  obtain ⟨kept, dropped, status, stopReason, htokens, hkept, hdropped, hstopped⟩ :=
    exists_upToStop fns blockSize hg hsplit hbefore hafter hstop
  have hsame := h.same [⟨0, tokenIds⟩] [⟨0, kept⟩, ⟨0, dropped⟩]
    ⟨by simp [htokens, hkept], by simp⟩ ⟨by simp [hkept, hdropped], by simp [htokens]⟩
  -- the session takes the rest of the tokens when they come in a step of their own
  obtain ⟨r₁, hfirst, hlive₁, hkeeps₁⟩ := processStep_of_goesOn fns blockSize maxModelLen asyncScheduling
    ⟨0, kept⟩ hlive hkeeps hon (hstopped _ (by simp))
  obtain ⟨r₂, hone, -⟩ := processStep_of_goesOn fns blockSize maxModelLen asyncScheduling ⟨0, tokenIds⟩
    hlive hkeeps hon (hstopped _ (by simp))
  obtain ⟨c, p, hlater⟩ := processStep_eq fns blockSize maxModelLen asyncScheduling r₁ hlive₁ hkeeps₁ ⟨0, dropped⟩
  simp only [updateInSteps, hfirst, hone, hlater, ok_bind] at hsame
  have hlength : ∀ {x : Request β} {later : List Nat}, later ≠ [] →
      result (.ok (r₂, kept ++ [])) ≠ result (.ok (x, kept ++ (later ++ []))) := by
    intro x later hne heq
    have := congrArg List.length (Prod.mk.inj (Except.ok.inj heq)).1
    simp only [List.length_append, List.length_nil] at this
    exact hne (List.length_eq_zero_iff.mp (by omega))
  cases hrun : updateRequestWithOutput fns blockSize maxModelLen r₁ dropped with
  | error e =>
    rw [hrun] at hsame
    cases hsame
  | ok updated =>
    obtain ⟨r, later, stopped⟩ := updated
    have hmore := kept_ne_nil hdropped hrun
    rw [hrun, ok_bind] at hsame
    cases stopped with
    | false => exact hlength hmore hsame
    | true =>
      simp only [if_true] at hsame
      cases hdone : handleStoppedRequest fns blockSize (r.counted c (p later) r₁.discardLatestAsyncTokens) with
      | error e =>
        rw [hdone] at hsame
        cases hsame
      | ok done =>
        rw [hdone] at hsame
        exact hlength hmore hsame

/-- How the generated tokens are cut into steps makes no difference, if and only if there are none or the request
is finished, or no output is discarded for a reset and no session takes tokens behind its stop. -/
theorem grouping_irrelevant_iff (hg : Generates request params) (tokenIds : List Nat) :
    GroupingIrrelevant fns blockSize maxModelLen asyncScheduling request params tokenIds ↔
      request.isFinished = true ∨ tokenIds = [] ∨
        request.discards asyncScheduling = false ∧ DropsRest maxModelLen request params tokenIds := by
  constructor
  · intro h
    by_contra hnot
    simp only [not_or, not_and, Bool.not_eq_true] at hnot
    obtain ⟨hlive, hne, hdrops⟩ := hnot
    cases hkeeps : request.discards asyncScheduling with
    | false => exact not_groupingIrrelevant fns blockSize maxModelLen hg hlive hkeeps (hdrops hkeeps) h
    | true =>
      -- all tokens are discarded if they come in one step
      obtain ⟨c, p, hreject⟩ := rejectDrafts_eq request 0 tokenIds
      have hkeeps' : (request.counted c p request.discardLatestAsyncTokens).discards asyncScheduling = true := hkeeps
      have hstep : processStep fns blockSize maxModelLen asyncScheduling request ⟨0, tokenIds⟩ =
          .ok (request.counted c p false, []) := by
        rw [processStep, if_neg (by simp [hlive])]
        rw [hreject, if_pos ⟨hne, hkeeps'⟩]
        rfl
      have hup := h.kept hlive [⟨0, tokenIds⟩] ⟨by simpa using hne, by simp⟩ _ [] (by
        rw [updateInSteps, hstep]
        rfl)
      exact (hup.stops (Ne.symm hne)).1 rfl
  · rintro (hfin | rfl | ⟨hkeeps, hdrops⟩)
    · refine ⟨fun steps steps' _ _ => ?_, fun hlive => ?_⟩
      · rw [updateInSteps_of_finished _ _ _ _ hfin, updateInSteps_of_finished _ _ _ _ hfin]
      · rw [hfin] at hlive
        cases hlive
    · have hnil : ∀ steps, CutInto steps [] → steps = [] := by
        rintro steps ⟨hsteps, hflat⟩
        refine List.eq_nil_iff_forall_not_mem.mpr fun step hstep => hsteps step hstep ?_
        exact List.flatMap_eq_nil_iff.mp hflat step hstep
      refine ⟨fun steps steps' hcut hcut' => by rw [hnil steps hcut, hnil steps' hcut'], ?_⟩
      intro _ steps hcut request' kept hrun
      rw [hnil steps hcut] at hrun
      cases hrun
      exact ⟨List.prefix_rfl, fun before after hsplit hbefore _ =>
        absurd (List.append_eq_nil_iff.mp hsplit.symm).1 hbefore, fun hne => absurd rfl hne⟩
    · have hone : ∀ steps, CutInto steps tokenIds → request.isFinished = false →
          result (updateInSteps fns blockSize maxModelLen asyncScheduling request steps) =
            resultOfTokens fns blockSize maxModelLen request tokenIds := by
        rintro steps ⟨hsteps, rfl⟩ hlive
        exact result_updateInSteps hg hlive hkeeps hsteps hdrops
      constructor
      · intro steps steps' hcut hcut'
        cases hfin : request.isFinished with
        | true => rw [updateInSteps_of_finished _ _ _ _ hfin, updateInSteps_of_finished _ _ _ _ hfin]
        | false => rw [hone steps hcut hfin, hone steps' hcut' hfin]
      · intro hlive steps hcut request' kept hrun
        exact upToStop_of_result hg hrun (hone steps hcut hlive)

/-! ## The loop of the scheduler

`processStep` is what the body of the loop of `update_from_output` does with its request, for both
schedulers. -/

section Scheduler

variable {cfg : SchedulerConfig β} {s s' : Scheduler β} {output : SchedulerOutput} {out : ModelRunnerOutput}
  {failed : List Nat} {acc acc' : Scheduler β × Stopped} {id : Nat}

theorem rejectDrafts_request (s : Scheduler β) (id numDraftTokens : Nat) (generatedTokenIds : List Nat) :
    (s.rejectDrafts id numDraftTokens generatedTokenIds).request id =
      rejectDrafts (s.request id) numDraftTokens generatedTokenIds := by
  unfold Scheduler.rejectDrafts rejectDrafts
  split
  · rfl
  · rw [Scheduler.modify_request_self]

/-- A stopped request is handled as if it was alone, and is freed if it is finished. -/
theorem handleStopped_eq {requestFinished : Nat → Bool} (hid : id ∈ s.requests)
    (hrun : s.handleStopped cfg requestFinished id = .ok s') :
    (∃ finished, handleStoppedRequest cfg.hashes cfg.blockSize (s.request id) = .ok (finished, s'.request id)) ∧
      (id ∈ s'.requests ∨ (s'.request id).isFinished = true) := by
  obtain ⟨⟨finished, s₁⟩, hstopped, hrun⟩ := bind_eq_ok.mp hrun
  have halone : handleStoppedRequest cfg.hashes cfg.blockSize (s.request id) = .ok (finished, s₁.request id) ∧
      s₁.requests = s.requests := by
    unfold Scheduler.handleStoppedRequest at hstopped
    unfold handleStoppedRequest
    dsimp only at hstopped
    split at hstopped
    · next hnot =>
      cases hstopped
      rw [if_pos hnot]
      exact ⟨rfl, rfl⟩
    · next hresumable =>
      rw [if_neg hresumable]
      rcases hqueue : (s.request id).streamingQueue.getD [] with _ | ⟨_ | update, rest⟩ <;> rw [hqueue] at hstopped
      · cases hstopped
        refine ⟨congrArg (fun r => Except.ok (false, r)) (Scheduler.modify_request_self s id fun r =>
          { r with status := .waitingForStreamingReq }).symm, rfl⟩
      · cases hstopped
        rw [Scheduler.modify_request_self]
        exact ⟨rfl, rfl⟩
      · obtain ⟨s₂, hupdate, hstopped⟩ := bind_eq_ok.mp hstopped
        cases hstopped
        obtain ⟨session, hsession, hrequest⟩ := Scheduler.updateRequestAsSession_request hupdate
        rw [Scheduler.modify_request_self] at hsession
        refine ⟨?_, (Scheduler.updateRequestAsSession_spec hupdate).1.requests⟩
        show updateRequestAsSession cfg.hashes cfg.blockSize
          { s.request id with streamingQueue := some rest } update >>= _ = .ok (false, s₂.request id)
        rw [hsession, hrequest, Function.update_self]
        rfl
  dsimp only at hrun
  split at hrun
  · obtain ⟨hfin, hfreed⟩ := Scheduler.freeRequest_spec hrun
    rw [hfreed.request]
    exact ⟨⟨finished, halone.1⟩, .inr hfin⟩
  · cases hrun
    exact ⟨⟨finished, halone.1⟩, .inl (halone.2 ▸ hid)⟩

variable [DecidableEq β]

/-- The loop of `update_from_output` does with a request what `processStep` does with it. -/
theorem processOutput_request {n : Int} (hfailed : id ∉ failed) (hsampled : out.sampledTokenIds id ≠ [])
    (hthere : id ∈ acc.1.requests ∨ (acc.1.request id).isFinished = true)
    (hrun : Scheduler.processOutput cfg output out failed acc (id, n) = .ok acc') :
    (∃ kept, processStep cfg.hashes cfg.blockSize cfg.maxModelLen cfg.asyncScheduling (acc.1.request id)
        ⟨((output.scheduledSpecDecodeTokens.get? id).getD []).length, out.sampledTokenIds id⟩ =
          .ok (acc'.1.request id, kept)) ∧ (id ∈ acc'.1.requests ∨ (acc'.1.request id).isFinished = true) := by
  obtain ⟨s, c⟩ := acc
  obtain ⟨_, -, hrun⟩ := bind_eq_ok.mp hrun
  rw [if_neg hfailed] at hrun
  split at hrun
  case isTrue hdone =>
    -- finished already
    cases hrun
    have hfin : (s.request id).isFinished = true := hdone.elim hthere.resolve_left fun hfin => hfin
    refine ⟨⟨[], ?_⟩, hthere⟩
    rw [processStep, if_pos hfin]
    rfl
  case isFalse hlive =>
    obtain ⟨hid, hlive⟩ := not_or.mp hlive
    have hid := not_not.mp hid
    obtain ⟨⟨stopped, s₁⟩, hcheck, hrun⟩ := bind_eq_ok.mp hrun
    have hid₁ : id ∈ s₁.requests := by
      rw [(Scheduler.checkOutput_spec hcheck).1.requests, (Scheduler.rejectDrafts_onlyRequest s _ _ _).requests]
      exact hid
    unfold Scheduler.checkOutput at hcheck
    rw [if_pos hsampled] at hcheck
    obtain ⟨⟨kept, stopped', s₀⟩, hupdate, hcheck⟩ := bind_eq_ok.mp hcheck
    cases hcheck
    unfold Scheduler.updateRequestWithOutput at hupdate
    rw [rejectDrafts_request] at hupdate
    dsimp only at hupdate
    rw [processStep, if_neg hlive]
    dsimp only
    split at hupdate
    case isTrue hdiscards =>
      cases hupdate
      cases hrun
      refine ⟨⟨[], ?_⟩, .inl hid₁⟩
      rw [if_pos ⟨hsampled, hdiscards⟩]
      rw [Scheduler.modify_request_self, rejectDrafts_request]
      rfl
    case isFalse hkeeps =>
      obtain ⟨⟨r, kept', stopped'⟩, hrequest, hupdate⟩ := bind_eq_ok.mp hupdate
      rw [if_neg fun hand => hkeeps hand.2, hrequest, ok_bind]
      obtain ⟨rfl, rfl, hr⟩ : stopped' = stopped ∧ kept' = kept ∧
          s₁.request id = r.withoutPlaceholders cfg.asyncScheduling kept' := by
        cases hasync : cfg.asyncScheduling with
        | false =>
          rw [hasync] at hupdate
          cases hupdate
          exact ⟨rfl, rfl, Scheduler.modify_request_self ..⟩
        | true =>
          rw [hasync] at hupdate
          obtain ⟨_, -, hupdate⟩ := bind_eq_ok.mp hupdate
          obtain ⟨kv, -, hupdate⟩ := bind_eq_ok.mp hupdate
          cases hupdate
          refine ⟨rfl, rfl, ?_⟩
          rw [Scheduler.modify_request_self, Scheduler.modify_request_self]
          rfl
      cases stopped' with
      | false =>
        cases hrun
        exact ⟨⟨kept', congrArg (fun r => Except.ok (r, kept')) hr.symm⟩, .inl hid₁⟩
      | true =>
        obtain ⟨s₂, hstopped, hrun⟩ := bind_eq_ok.mp hrun
        obtain ⟨⟨finished, hdone⟩, hthere₂⟩ := handleStopped_eq hid₁ hstopped
        have hlast : acc'.1 = s₂ := by
          split at hrun <;> cases hrun <;> rfl
        rw [hlast]
        refine ⟨⟨kept', ?_⟩, hthere₂⟩
        rw [← hr, hdone]
        rfl

/-- What an output of the model brings for a request. -/
def stepOutput (id : Nat) (step : SchedulerOutput × ModelRunnerOutput) : StepOutput :=
  ⟨((step.1.scheduledSpecDecodeTokens.get? id).getD []).length, step.2.sampledTokenIds id⟩

/-- `updateInSteps` is the loop of `update_from_output`, run over the outputs of several steps, as it
shows in one request. -/
theorem processOutputs_request {outputs : List (SchedulerOutput × ModelRunnerOutput)}
    (hsampled : ∀ step ∈ outputs, step.2.sampledTokenIds id ≠ [])
    (hthere : id ∈ acc.1.requests ∨ (acc.1.request id).isFinished = true)
    (hrun : outputs.foldlM (fun acc step => Scheduler.processOutput cfg step.1 step.2 [] acc (id, 1)) acc = .ok acc') :
    ∃ kept, updateInSteps cfg.hashes cfg.blockSize cfg.maxModelLen cfg.asyncScheduling (acc.1.request id)
      (outputs.map (stepOutput id)) = .ok (acc'.1.request id, kept) := by
  induction outputs generalizing acc with
  | nil =>
    cases hrun
    exact ⟨[], rfl⟩
  | cons step outputs ih =>
    obtain ⟨acc₁, hone, hrun⟩ := bind_eq_ok.mp hrun
    obtain ⟨⟨kept₁, hstep⟩, hthere₁⟩ := processOutput_request List.not_mem_nil
      (hsampled step List.mem_cons_self) hthere hone
    obtain ⟨kept₂, hlater⟩ := ih (fun next hnext => hsampled next (List.mem_cons_of_mem _ hnext)) hthere₁ hrun
    refine ⟨kept₁ ++ kept₂, ?_⟩
    rw [List.map_cons, updateInSteps, stepOutput, hstep, ok_bind]
    dsimp only
    rw [hlater]
    rfl

end Scheduler

/-- A prompt of two tokens that may get four more, and stops at token 9. -/
def stoppingRequest (resumable : Bool) : Request Digest where
  requestId := 0
  maxTokens := 4
  samplingParams := some { minTokens := 1, stopTokenIds := [9] }
  promptTokenIds := some [1, 2]
  numPromptTokens := 2
  allTokenIds := [1, 2]
  resumable

theorem grouping_irrelevant_iff_no_session :
    result (updateInSteps symbolicHash 4 100 true (stoppingRequest false) [⟨2, [5, 9, 6]⟩]) =
      result (updateInSteps symbolicHash 4 100 true (stoppingRequest false) [⟨0, [5]⟩, ⟨1, [9]⟩, ⟨0, [6]⟩]) :=
  ((grouping_irrelevant_iff ⟨rfl, rfl⟩ [5, 9, 6]).mpr (Or.inr (Or.inr ⟨rfl, Or.inl fun h =>
    Bool.false_ne_true h.1⟩))).same _ _
    (by decide) (by decide)

/-- A session that stops at token 9 takes the 6 of the next step, which is dropped when it comes in the
same step. -/
theorem session_takes_tokens_behind_stop :
    ¬ GroupingIrrelevant symbolicHash 4 100 true (stoppingRequest true) { minTokens := 1, stopTokenIds := [9] }
      [9, 6] := by
  intro h
  have hsame := h.same [⟨0, [9, 6]⟩] [⟨0, [9]⟩, ⟨0, [6]⟩] (by decide) (by decide)
  have hkept := (Prod.mk.inj (Except.ok.inj hsame)).1
  exact absurd hkept (by decide)

end Yuan.Core
