import Yuan.Core.StreamingSessions

/-!
# Sessions in runs of the scheduler

A session gets its next chunk in two places: in `add_request`, when it waits for input, and at the end
of a stopped step, when input is queued already. In between, the scheduler may preempt it, with outputs
in flight, and process these outputs while it waits.
-/

namespace Yuan.Core

namespace Scheduler

variable {β : Type} [DecidableEq β] {cfg : SchedulerConfig β} {s s' : Scheduler β} {id : Nat}
variable {output : SchedulerOutput} {out : ModelRunnerOutput} {failed : List Nat} {acc acc' : Scheduler β × Stopped}

/-- The output of a step stops a session, and the session takes an update from its queue. -/
inductive TakesUpdate (cfg : SchedulerConfig β) (output : SchedulerOutput) (out : ModelRunnerOutput)
    (failed : List Nat) (s : Scheduler β) (id : Nat) : Request (List β) → StreamingUpdate → Prop where
  | intro {s' : Scheduler β} {update : StreamingUpdate} {rest : List (Option StreamingUpdate)}
      (hlive : id ∉ failed ∧ id ∈ s.requests ∧ (s.request id).isFinished = false)
      (hstop : (s.rejectDrafts id ((output.scheduledSpecDecodeTokens.get? id).getD []).length
        (out.sampledTokenIds id)).checkOutput cfg id (out.sampledTokenIds id) (out.hasPoolerOutput id) =
        .ok (true, s'))
      (hresumable : (s'.request id).resumable = true)
      (hqueue : (s'.request id).streamingQueue.getD [] = some update :: rest) :
      TakesUpdate cfg output out failed s id { s'.request id with streamingQueue := some rest } update

/-! ## One request of a step -/

theorem checkOutput_history {newTokenIds : List Nat} {hasPoolerOutput stopped : Bool} (h : (s.request id).History)
    (hrun : s.checkOutput cfg id newTokenIds hasPoolerOutput = .ok (stopped, s')) : (s'.request id).History := by
  unfold checkOutput at hrun
  split at hrun
  · obtain ⟨⟨kept, stopped', s₁⟩, hupdate, hrun⟩ := bind_eq_ok.mp hrun
    cases hrun
    unfold updateRequestWithOutput at hupdate
    dsimp only at hupdate
    split at hupdate
    · simp only [pure] at hupdate
      obtain ⟨-, -, rfl⟩ := hupdate
      rw [modify_request_self]
      exact h
    · obtain ⟨⟨r', kept', done⟩, hrequest, hupdate⟩ := bind_eq_ok.mp hupdate
      have hr' := h.updateRequestWithOutput hrequest
      split at hupdate
      · simp only [pure] at hupdate
        obtain ⟨-, -, rfl⟩ := hupdate
        rw [modify_request_self]
        exact hr'
      · obtain ⟨_, -, hupdate⟩ := bind_eq_ok.mp hupdate
        obtain ⟨kv, -, hupdate⟩ := bind_eq_ok.mp hupdate
        obtain ⟨-, -, rfl⟩ := hupdate
        rw [modify_request_self, modify_request_self]
        exact hr'
  · split at hrun
    · cases hrun
      rw [modify_request_self]
      exact h
    · cases hrun
      exact h

omit [DecidableEq β] in
theorem updateRequestAsSession_request {update : StreamingUpdate}
    (hrun : s.updateRequestAsSession cfg id update = .ok s') :
    ∃ session, Core.updateRequestAsSession cfg.hashes cfg.blockSize (s.request id) update = .ok session ∧
      s'.request = Function.update s.request id session := by
  obtain ⟨session, hsession, hrun⟩ := bind_eq_ok.mp hrun
  cases hrun
  exact ⟨session, hsession, rfl⟩

omit [DecidableEq β] in
/-- A stopped request is as before, but for its queue and its status, or a session with its update. -/
theorem handleStopped_request {requestFinished : Nat → Bool}
    (hrun : s.handleStopped cfg requestFinished id = .ok s') :
    ∃ r', s'.request = Function.update s.request id r' ∧
      ((∃ status streamingQueue, r' = { s.request id with status, streamingQueue }) ∨
        (s.request id).resumable = true ∧ ∃ update rest,
          (s.request id).streamingQueue.getD [] = some update :: rest ∧
          Core.updateRequestAsSession cfg.hashes cfg.blockSize
            { s.request id with streamingQueue := some rest } update = .ok r') := by
  obtain ⟨⟨finished, s₁⟩, hstopped, hrun⟩ := bind_eq_ok.mp hrun
  have hafter : s'.request = s₁.request := by
    dsimp only at hrun
    split at hrun
    · exact (freeRequest_spec hrun).2.request
    · cases hrun
      rfl
  rw [hafter]
  unfold handleStoppedRequest at hstopped
  dsimp only at hstopped
  split at hstopped
  · cases hstopped
    exact ⟨s.request id, by rw [Function.update_eq_self], Or.inl ⟨_, _, rfl⟩⟩
  · next hresumable =>
    rw [Bool.not_eq_true, Bool.not_eq_false'] at hresumable
    split at hstopped
    · next update rest hqueue =>
      cases update with
      | none =>
        cases hstopped
        exact ⟨_, rfl, Or.inl ⟨_, _, rfl⟩⟩
      | some update =>
        obtain ⟨s₂, hupdate, hstopped⟩ := bind_eq_ok.mp hstopped
        cases hstopped
        obtain ⟨session, hsession, hrequest⟩ := updateRequestAsSession_request hupdate
        rw [modify_request_self] at hsession
        refine ⟨session, ?_, Or.inr ⟨hresumable, update, rest, hqueue, hsession⟩⟩
        show s₂.request = _
        rw [hrequest]
        show Function.update (Function.update s.request id _) id session = _
        rw [Function.update_idem]
    · cases hstopped
      exact ⟨_, rfl, Or.inl ⟨_, _, rfl⟩⟩

/-- Only the request of the entry changes. -/
theorem processOutput_others {entry : Nat × Int} (hrun : processOutput cfg output out failed acc entry = .ok acc')
    {x : Nat} (hx : x ≠ entry.1) : acc'.1.request x = acc.1.request x := by
  obtain ⟨_, -, hrun⟩ := bind_eq_ok.mp hrun
  dsimp only at hrun
  split at hrun
  · cases hrun
    rfl
  · split at hrun
    · cases hrun
      rfl
    · obtain ⟨⟨stopped, s₁⟩, hcheck, hrun⟩ := bind_eq_ok.mp hrun
      have hchecked := ((checkOutput_spec hcheck).1.others x hx).trans
        ((rejectDrafts_onlyRequest acc.1 _ _ _).others x hx)
      split at hrun
      · cases hrun
        exact hchecked
      · obtain ⟨s₂, hstopped, hrun⟩ := bind_eq_ok.mp hrun
        obtain ⟨r', hr', -⟩ := handleStopped_request hstopped
        have hsame : s₂.request x = acc.1.request x := by
          rw [hr', Function.update_of_ne hx, hchecked]
        split at hrun
        · cases hrun
          exact hsame
        · cases hrun
          exact hsame

/-- The prompt and the output stay all tokens of the request, if an update it takes keeps the prompt. -/
theorem processOutput_history {entry : Nat × Int} (h : (acc.1.request entry.1).History)
    (hkeeps : ∀ session update, TakesUpdate cfg output out failed acc.1 entry.1 session update →
      session.KeepsPrompt) (hrun : processOutput cfg output out failed acc entry = .ok acc') :
    (acc'.1.request entry.1).History := by
  obtain ⟨_, -, hrun⟩ := bind_eq_ok.mp hrun
  split at hrun
  · cases hrun
    exact h
  · next hfailed =>
    split at hrun
    · cases hrun
      exact h
    · next hlive =>
      obtain ⟨⟨stopped, s₁⟩, hcheck, hrun⟩ := bind_eq_ok.mp hrun
      have hrejected := h.rescheduled ((rejectDrafts_steps acc.1 entry.1
        ((output.scheduledSpecDecodeTokens.get? entry.1).getD []).length
        (out.sampledTokenIds entry.1)).rescheduled entry.1)
      have hchecked := checkOutput_history hrejected hcheck
      cases stopped with
      | false =>
        cases hrun
        exact hchecked
      | true =>
        obtain ⟨s₂, hstopped, hrun⟩ := bind_eq_ok.mp hrun
        obtain ⟨r', hr', hcases⟩ := handleStopped_request hstopped
        have hlast : (s₂.request entry.1).History := by
          rw [hr', Function.update_self]
          rcases hcases with ⟨status, streamingQueue, rfl⟩ | ⟨hresumable, update, rest, hqueue, hsession⟩
          · exact hchecked
          · have htakes : TakesUpdate cfg output out failed acc.1 entry.1
                { s₁.request entry.1 with streamingQueue := some rest } update := by
              refine .intro ⟨hfailed, ?_, ?_⟩ hcheck hresumable hqueue
              · exact not_not.mp fun hnot => hlive (Or.inl hnot)
              · rw [← Bool.not_eq_true]
                exact fun hfinished => hlive (Or.inr hfinished)
            have hhistory : ({ s₁.request entry.1 with streamingQueue := some rest } :
              Request (List β)).History := hchecked
            exact ((continuesSession_iff hhistory hsession).mpr (hkeeps _ _ htakes)).history
        split at hrun
        · cases hrun
          exact hlast
        · cases hrun
          exact hlast

/-! ## A whole step -/

theorem foldlM_processOutput_others {entries : List (Nat × Int)}
    (hrun : entries.foldlM (processOutput cfg output out failed) acc = .ok acc') {x : Nat}
    (hx : x ∉ entries.map Prod.fst) : acc'.1.request x = acc.1.request x := by
  induction entries generalizing acc with
  | nil =>
    cases hrun
    rfl
  | cons entry entries ih =>
    obtain ⟨acc₁, hstep, hrun⟩ := bind_eq_ok.mp hrun
    rw [List.map_cons, List.mem_cons, not_or] at hx
    rw [ih hrun hx.2, processOutput_others hstep hx.1]

theorem foldlM_processOutput_history {entries : List (Nat × Int)} (h : ∀ x, (acc.1.request x).History)
    (hkeeps : ∀ before id n after acc₁ session update, entries = before ++ (id, n) :: after →
      before.foldlM (processOutput cfg output out failed) acc = .ok acc₁ →
      TakesUpdate cfg output out failed acc₁.1 id session update → session.KeepsPrompt)
    (hrun : entries.foldlM (processOutput cfg output out failed) acc = .ok acc') : ∀ x, (acc'.1.request x).History := by
  induction entries generalizing acc with
  | nil =>
    cases hrun
    exact h
  | cons entry entries ih =>
    obtain ⟨acc₁, hstep, hrun⟩ := bind_eq_ok.mp hrun
    refine ih ?_ ?_ hrun
    · intro x
      by_cases hx : x = entry.1
      · subst hx
        exact processOutput_history (h entry.1) (fun session update htakes =>
          hkeeps [] entry.1 entry.2 entries acc session update rfl rfl htakes) hstep
      · rw [processOutput_others hstep hx]
        exact h x
    · intro before id n after acc₂ session update hentries hbefore htakes
      refine hkeeps (entry :: before) id n after acc₂ session update ?_ ?_ htakes
      · rw [hentries, List.cons_append]
      · rw [List.foldlM_cons, hstep]
        exact hbefore

end Scheduler

namespace SchedulerRun

open Scheduler

variable {β : Type} [DecidableEq β] {cfg : SchedulerConfig β} {r : SchedulerRun β}

/-- A call runs `_update_request_as_session` on this session, with this update. -/
inductive Updates (cfg : SchedulerConfig β) (r : SchedulerRun β) :
    Op β → Request (List β) → StreamingUpdate → Prop where
  | addRequest {requestFinished : Nat → Bool} {request : Request (List β)} {update : StreamingUpdate}
      (hid : request.requestId ∈ r.scheduler.requests)
      (hwaits : (r.scheduler.request request.requestId).status = .waitingForStreamingReq)
      (hupdate : StreamingUpdate.fromRequest request = some update) :
      Updates cfg r (.addRequest requestFinished request)
        (r.scheduler.request request.requestId) update
  | updateFromOutput {output : SchedulerOutput} {inFlight : List SchedulerOutput} {out : ModelRunnerOutput}
      {failed : List Nat} {s : Scheduler β} {before after : List (Nat × Int)} {id : Nat} {n : Int}
      {acc : Scheduler β × Stopped} {session : Request (List β)} {update : StreamingUpdate}
      (hinFlight : r.inFlight = output :: inFlight)
      (hfailed : r.scheduler.failedKvLoads cfg out.kvConnectorOutput = .ok (failed, s))
      (hentries : output.numScheduledTokens.entries = before ++ (id, n) :: after)
      (hbefore : before.foldlM (processOutput cfg output out failed) (s, {}) = .ok acc)
      (htakes : TakesUpdate cfg output out failed acc.1 id session update) :
      Updates cfg r (.updateFromOutput out) session update

/-- Every update that a call makes keeps the prompt. -/
def KeepsPrompts (cfg : SchedulerConfig β) (r : SchedulerRun β) (op : Op β) : Prop :=
  ∀ session update, Updates cfg r op session update → session.KeepsPrompt

section

variable (h : ∀ x, (r.scheduler.request x).History)
include h

theorem addRequest_history {requestFinished : Nat → Bool} {request : Request (List β)} {s' : Scheduler β}
    (hnew : request.IsNew cfg.hashes cfg.blockSize) (hkeeps : KeepsPrompts cfg r (.addRequest requestFinished request))
    (hrun : r.scheduler.addRequest cfg requestFinished request = .ok s') : ∀ x, (s'.request x).History := by
  unfold Scheduler.addRequest at hrun
  split at hrun
  · next hid =>
    unfold addToSession at hrun
    split at hrun
    · split at hrun
      · cases hrun
      · next queue hqueue =>
        cases hrun
        intro x
        by_cases hx : x = request.requestId
        · subst hx
          rw [modify_request_self]
          exact h _
        · rw [modify_request_of_ne _ hx]
          exact h x
    · next hstatus =>
      rw [not_not] at hstatus
      cases hupdate : StreamingUpdate.fromRequest request with
      | none =>
        rw [hupdate] at hrun
        intro x
        exact (h x).rescheduled (finishRequests_rescheduled hrun x)
      | some update =>
        rw [hupdate] at hrun
        obtain ⟨session, hsession, hrequest⟩ := updateRequestAsSession_request hrun
        have hcontinues := (continuesSession_iff (h request.requestId) hsession).mpr
          (hkeeps _ _ (.addRequest hid hstatus hupdate))
        intro x
        rw [hrequest]
        by_cases hx : x = request.requestId
        · subst hx
          rw [Function.update_self]
          exact hcontinues.history
        · rw [Function.update_of_ne hx]
          exact h x
  · cases hrun
    intro x
    show (Function.update r.scheduler.request request.requestId _ x).History
    by_cases hx : x = request.requestId
    · subst hx
      rw [Function.update_self]
      intro prompt hprompt
      have hall := hnew.promptTokenIds prompt hprompt
      refine ⟨?_, ?_⟩
      · show request.allTokenIds = prompt ++ request.outputTokenIds
        rw [hnew.outputTokenIds, List.append_nil, hall]
      · show request.numPromptTokens = prompt.length
        rw [hnew.numPromptTokens, hall]
    · rw [Function.update_of_ne hx]
      exact h x

theorem updateFromOutput_history {inFlight : List SchedulerOutput} {output : SchedulerOutput} {out : ModelRunnerOutput}
    {s' : Scheduler β} (hinFlight : r.inFlight = output :: inFlight)
    (hkeeps : KeepsPrompts cfg r (.updateFromOutput out))
    (hrun : r.scheduler.updateFromOutput cfg output out = .ok s') : ∀ x, (s'.request x).History := by
  obtain ⟨⟨failed, s₀⟩, hfailed, hrun⟩ := bind_eq_ok.mp hrun
  obtain ⟨⟨s₁, c⟩, hloop, hrun⟩ := bind_eq_ok.mp hrun
  obtain ⟨s₂, hfail, hrun⟩ := bind_eq_ok.mp hrun
  have hstart : ∀ x, (s₀.request x).History := fun x =>
    (h x).rescheduled ((failedKvLoads_steps hfailed).rescheduled x)
  have hlooped : ∀ x, (s₁.request x).History := by
    refine foldlM_processOutput_history ?_ ?_ hloop
    · exact hstart
    · intro before id n after acc₁ session update hentries hbefore htakes
      exact hkeeps session update (.updateFromOutput hinFlight hfailed hentries hbefore htakes)
  have hremoved : Rescheduled s₁ (s₁.removeStopped cfg c) := rescheduled_of_request rfl
  have hend : ∀ x, (s₂.request x).History := fun x =>
    (hlooped x).rescheduled ((hremoved.trans (failKvLoads_rescheduled hfail)) x)
  split at hrun
  · cases hrun
    exact hend
  · exact fun x => (hend x).rescheduled (updateFromKvXferFinished_rescheduled hrun x)

/-- Calls whose updates keep the prompts keep the histories. -/
theorem step_history {r' : SchedulerRun β} {op : Op β} (henabled : op.Enabled cfg) (hkeeps : KeepsPrompts cfg r op)
    (hstep : r.step cfg op = .ok r') : ∀ x, (r'.scheduler.request x).History := by
  have hrescheduled : ∀ {s' : Scheduler β}, Rescheduled r.scheduler s' → ∀ x, (s'.request x).History :=
    fun hs x => (h x).rescheduled (hs x)
  cases op with
  | addRequest requestFinished request =>
    obtain ⟨s', hrun, hstep⟩ := bind_eq_ok.mp hstep
    cases hstep
    exact addRequest_history h henabled hkeeps hrun
  | schedule env =>
    obtain ⟨⟨output, s'⟩, hrun, hstep⟩ := bind_eq_ok.mp hstep
    cases hstep
    exact hrescheduled (schedule_rescheduled hrun)
  | updateFromOutput out =>
    change r.updateOldest cfg out = .ok r' at hstep
    unfold updateOldest at hstep
    split at hstep
    · cases hstep
    · next output inFlight hinFlight =>
      obtain ⟨s', hrun, hstep⟩ := bind_eq_ok.mp hstep
      cases hstep
      exact updateFromOutput_history h hinFlight hkeeps hrun
  | updateDraftTokenIds validateTokens drafts =>
    cases hstep
    exact hrescheduled (updateDraftTokenIds_steps r.scheduler validateTokens drafts).rescheduled
  | updateDraftTokenIdsInOutput i validateTokens drafts =>
    cases hstep
    exact h
  | finishRequests requestFinished requestIds finishedStatus =>
    obtain ⟨s', hrun, hstep⟩ := bind_eq_ok.mp hstep
    cases hstep
    exact hrescheduled (finishRequests_rescheduled hrun)
  | resetPrefixCache resetRunningRequests =>
    obtain ⟨⟨successful, s'⟩, hrun, hstep⟩ := bind_eq_ok.mp hstep
    cases hstep
    exact hrescheduled (resetPrefixCache_rescheduled hrun)
  | setPauseState pauseState =>
    cases hstep
    exact h

end

/-- In every run whose updates kept the prompts, all tokens are the prompt and the output. -/
theorem ReachableWith.history (h : ReachableWith cfg (KeepsPrompts cfg) r) : ∀ x, (r.scheduler.request x).History := by
  induction h with
  | start h =>
    intro x prompt hprompt
    cases hprompt
  | step h henabled hmeets hstep ih => exact step_history ih henabled hmeets hstep

/-- The session that a call updates has its prompt and its output for tokens. -/
theorem Updates.history {op : Op β} {session : Request (List β)} {update : StreamingUpdate}
    (hupdates : Updates cfg r op session update) (h : ∀ x, (r.scheduler.request x).History) : session.History := by
  cases hupdates with
  | addRequest hid hwaits hupdate => exact h _
  | @updateFromOutput output inFlight out failed s before after id n acc _ _ hinFlight hfailed hentries
      hbefore htakes =>
      -- the entries before have other ids
      have hnot : id ∉ before.map Prod.fst := by
        have hnodup := output.numScheduledTokens.nodup
        rw [hentries, List.map_append] at hnodup
        intro hmem
        exact (List.nodup_append.mp hnodup).2.2 id hmem id List.mem_cons_self rfl
      have hacc : (acc.1.request id).History := by
        rw [foldlM_processOutput_others hbefore hnot]
        exact (h id).rescheduled ((failedKvLoads_steps hfailed).rescheduled id)
      cases htakes with
      | intro hlive hstop hresumable hqueue =>
        exact checkOutput_history (hacc.rescheduled ((rejectDrafts_steps acc.1 id _ _).rescheduled id)) hstop

/-- In every run whose updates kept the prompts, an update continues the session exactly if it keeps the
prompt too. -/
theorem session_continues {r : SchedulerRun β} (h : ReachableWith cfg (KeepsPrompts cfg) r) {op : Op β}
    {session session' : Request (List β)} {update : StreamingUpdate} (hupdates : Updates cfg r op session update)
    (hrun : updateRequestAsSession cfg.hashes cfg.blockSize session update = .ok session') :
    ContinuesSession session update session' ↔ session.KeepsPrompt :=
  continuesSession_iff (hupdates.history h.history) hrun

/-! ## A session with a chunk queued -/

/-- Steps of up to eight tokens, with blocks of one token. -/
def streaming : SchedulerConfig Nat where
  maxNumRunningReqs := 4
  maxNumScheduledTokens := 8
  kvCacheManager := KVCacheManager.windowOfTwo
  coordinator := .unitary false
  hashes := ⟨[], fun _ => [], fun _ => []⟩

/-- A chunk of input for session 0, which samples one token. -/
def chunk (tokenIds : List Nat) : Request (List Nat) :=
  initBlockHashes streaming.hashes streaming.blockSize {
    requestId := 0
    promptTokenIds := some tokenIds
    numPromptTokens := tokenIds.length
    allTokenIds := tokenIds
    maxTokens := 1
    resumable := true }

/-- Two chunks are added, and the first is scheduled. -/
def twoChunks : Except PyError (SchedulerRun Nat) := do
  let (_, kv) ← PoolRuns.start 4 true []
  let r : SchedulerRun Nat := { scheduler := .init kv 0 }
  let r ← r.step streaming (.addRequest (fun _ => false) (chunk [1, 2]))
  let r ← r.step streaming (.addRequest (fun _ => false) (chunk [7, 8]))
  r.step streaming (.schedule {})

theorem chunk_isNew (tokenIds : List Nat) :
    (chunk tokenIds).IsNew streaming.hashes streaming.blockSize where
  status := rfl
  numPromptTokens := rfl
  promptTokenIds _ h := Option.some.inj h
  outputTokenIds := rfl
  numOutputPlaceholders := rfl
  specTokenIds := rfl
  numComputedTokens := rfl
  numCachedTokens := rfl
  isPrefillChunk := rfl
  numPreemptions := rfl
  blockHashes := rfl
  streamingQueue := rfl

theorem twoChunks_reachable {r : SchedulerRun Nat} (hr : twoChunks = .ok r) :
    ReachableWith streaming (KeepsPrompts streaming) r := by
  obtain ⟨⟨sinkBlocks, kv⟩, hstart, hr⟩ := bind_eq_ok.mp hr
  obtain ⟨r₁, h₁, hr⟩ := bind_eq_ok.mp hr
  obtain ⟨r₂, h₂, hr⟩ := bind_eq_ok.mp hr
  have hreach₁ : ReachableWith streaming (KeepsPrompts streaming) r₁ := by
    refine .step (.start hstart) ?_ ?_ h₁
    · exact chunk_isNew [1, 2]
    intro session update hupdates
    cases hupdates with
    | addRequest hid hwaits hupdate => cases hid
  have hwaiting : (r₁.scheduler.request 0).status = .waiting := by
    cases h₁
    rfl
  have hreach₂ : ReachableWith streaming (KeepsPrompts streaming) r₂ := by
    refine .step hreach₁ ?_ ?_ h₂
    · exact chunk_isNew [7, 8]
    intro session update hupdates
    cases hupdates with
    | addRequest hid hwaits hupdate =>
      have hwaits' : (r₁.scheduler.request 0).status = .waitingForStreamingReq := hwaits
      rw [hwaiting] at hwaits'
      cases hwaits'
  refine .step hreach₂ ?_ ?_ hr
  · exact trivial
  intro session update hupdates
  cases hupdates

/-- The first chunk stops after one token, which is dropped, and the second one follows it. -/
theorem session_continues_twoChunks :
    ∃ r session update session', twoChunks = .ok r ∧
      Updates streaming r (.updateFromOutput { sampledTokenIds := fun _ => [5] }) session update ∧
      updateRequestAsSession streaming.hashes streaming.blockSize session update = .ok session' ∧
      session'.allTokenIds = [1, 2, 7, 8] ∧ ContinuesSession session update session' := by
  obtain ⟨r, hr⟩ : ∃ r, twoChunks = .ok r := ⟨_, rfl⟩
  have hreach := twoChunks_reachable hr
  obtain ⟨session, update, session', hupdates, hrun, htokens, hkeeps⟩ : ∃ session update session',
      Updates streaming r (.updateFromOutput { sampledTokenIds := fun _ => [5] }) session update ∧
      updateRequestAsSession streaming.hashes streaming.blockSize session update = .ok session' ∧
      session'.allTokenIds = [1, 2, 7, 8] ∧ session.KeepsPrompt := by
    cases hr
    refine ⟨_, _, _, .updateFromOutput rfl rfl (show [(0, (2 : Int))] = [] ++ (0, 2) :: [] from rfl) rfl
      (.intro ?_ rfl rfl rfl), rfl, rfl, ?_⟩
    · decide +kernel
    · exact ⟨by decide +kernel, by decide +kernel⟩
  exact ⟨r, session, update, session', hr, hupdates, hrun, htokens,
    (session_continues hreach hupdates hrun).mpr hkeeps⟩

/-- Preempted with its step in flight, the session loses its prompt. -/
theorem session_continues_fails :
    ∃ r r' session update session', twoChunks = .ok r ∧ r.step streaming (.resetPrefixCache true) = .ok r' ∧
      Reachable streaming r' ∧
      Updates streaming r' (.updateFromOutput { sampledTokenIds := fun _ => [5] }) session update ∧
      updateRequestAsSession streaming.hashes streaming.blockSize session update = .ok session' ∧
      session'.promptTokenIds = some [1, 2, 7, 8] ∧ session'.allTokenIds = [7, 8] ∧
      ¬ ContinuesSession session update session' := by
  obtain ⟨r, hr⟩ : ∃ r, twoChunks = .ok r := ⟨_, rfl⟩
  obtain ⟨r', hr'⟩ : ∃ r', (twoChunks >>= fun r => r.step streaming (.resetPrefixCache true)) = .ok r' :=
    ⟨_, rfl⟩
  have hstep : r.step streaming (.resetPrefixCache true) = .ok r' := by rwa [hr] at hr'
  have hreach : Reachable streaming r' := by
    refine .step (twoChunks_reachable hr).reachable ?_ trivial hstep
    exact trivial
  obtain ⟨session, update, session', hupdates, hrun, hprompt, htokens⟩ : ∃ session update session',
      Updates streaming r' (.updateFromOutput { sampledTokenIds := fun _ => [5] }) session update ∧
      updateRequestAsSession streaming.hashes streaming.blockSize session update = .ok session' ∧
      session'.promptTokenIds = some [1, 2, 7, 8] ∧ session'.allTokenIds = [7, 8] := by
    cases hr'
    refine ⟨_, _, _, .updateFromOutput rfl rfl (show [(0, (2 : Int))] = [] ++ (0, 2) :: [] from rfl) rfl
      (.intro ?_ rfl rfl rfl), rfl, rfl, rfl⟩
    decide +kernel
  refine ⟨r, r', session, update, session', hr, hstep, hreach, hupdates, hrun, hprompt, htokens, ?_⟩
  intro hcontinues
  have hsame := hcontinues.promptTokenIds
  rw [hprompt, ← hcontinues.allTokenIds, htokens] at hsame
  cases hsame

end SchedulerRun
end Yuan.Core
