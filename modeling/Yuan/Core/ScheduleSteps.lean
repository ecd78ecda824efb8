import Yuan.Core.UpdateFromOutput
import Yuan.Lib.Runs

/-!
# The steps of a schedule

Everything `schedule` does to the scheduler and its plan, as steps: what holds of every step, and is
reflexive and transitive, holds of a whole loop.
-/

namespace Yuan.Core

namespace Scheduler

variable {β : Type} [DecidableEq β] {cfg : SchedulerConfig β} {env : ScheduleEnv}
variable {s s' : Scheduler β} {p p' : Plan} {id : Nat} {t : EncoderPlan} {reqIndex fuel : Nat}

/-! ## What stays as it is -/

/-- The requests and the queues are as before. -/
structure Untouched (s s' : Scheduler β) : Prop where
  request : s'.request = s.request
  requests : s'.requests = s.requests
  running : s'.running = s.running
  waiting : s'.waiting = s.waiting
  num : s'.numWaitingForStreamingInput = s.numWaitingForStreamingInput
  pauseState : s'.pauseState = s.pauseState

theorem allocateSlots_untouched {a : KVCacheManager.AllocateArgs} {newBlocks : Option (List (List Nat))}
    (hrun : s.allocateSlots cfg id a = .ok (newBlocks, s')) : Untouched s s' := by
  obtain ⟨⟨blocks, kv⟩, -, hrun⟩ := bind_eq_ok.mp hrun
  cases hrun
  exact ⟨rfl, rfl, rfl, rfl, rfl, rfl⟩

omit [DecidableEq β] in
theorem planEncoder_untouched {n m b : Int} (hrun : s.planEncoder cfg env id n m b = .ok (t, s')) : Untouched s s' := by
  obtain ⟨⟨t', m'⟩, -, hrun⟩ := bind_eq_ok.mp hrun
  cases hrun
  exact ⟨rfl, rfl, rfl, rfl, rfl, rfl⟩

omit [DecidableEq β] in
theorem allocateEncoder_untouched (hrun : s.allocateEncoder id t = .ok s') : Untouched s s' := by
  obtain ⟨m, -, hrun⟩ := bind_eq_ok.mp hrun
  cases hrun
  exact ⟨rfl, rfl, rfl, rfl, rfl, rfl⟩

/-! ## Counting -/

/-- Requests and queues are as before, but for the counters and the drafts of one request. -/
inductive CountStep : Scheduler β → Scheduler β → Prop where
  | untouched {s s' : Scheduler β} (h : Untouched s s') : CountStep s s'
  | counted {s s' : Scheduler β} (id : Nat)
      (h : ∃ specTokenIds numComputedTokens numOutputPlaceholders isPrefillChunk numExternalComputedTokens,
        s' = s.modify id fun r => { r with
          specTokenIds, numComputedTokens, numOutputPlaceholders, isPrefillChunk, numExternalComputedTokens }) :
      CountStep s s'

/-- Several such steps. -/
abbrev CountSteps : Scheduler β → Scheduler β → Prop := Relation.ReflTransGen CountStep

section

omit [DecidableEq β]

theorem CountSteps.foldl {α : Type} {f : Scheduler β → α → Scheduler β} (hf : ∀ s a, CountSteps s (f s a))
    (l : List α) (s : Scheduler β) : CountSteps s (l.foldl f s) := by
  induction l generalizing s with
  | nil => exact .refl
  | cons a l ih => exact (hf s a).trans (ih (f s a))

theorem advanceRequest_steps (s : Scheduler β) (id : Nat) (n : Int) : CountSteps s (s.advanceRequest id n) :=
  .tail (.single (.counted id ⟨_, _, _, _, _, rfl⟩)) (.untouched ⟨rfl, rfl, rfl, rfl, rfl, rfl⟩)

theorem addPlaceholders_steps (s : Scheduler β) (n id : Nat) : CountSteps s (s.addPlaceholders cfg n id) := by
  unfold addPlaceholders
  split
  · exact .refl
  · exact .single (.counted id ⟨_, _, _, _, _, rfl⟩)

theorem updateAfterSchedule_steps (cfg : SchedulerConfig β) (s : Scheduler β) (output : SchedulerOutput) :
    CountSteps s (s.updateAfterSchedule cfg output) := by
  unfold updateAfterSchedule
  have hadvance := CountSteps.foldl (fun s (e : Nat × Int) => advanceRequest_steps s e.1 e.2)
    output.numScheduledTokens.entries s
  generalize output.numScheduledTokens.entries.foldl (fun s e => s.advanceRequest e.1 e.2) s = s₁ at hadvance
  have hclear : CountSteps s { s₁ with finishedReqIds := [] } :=
    hadvance.tail (.untouched ⟨rfl, rfl, rfl, rfl, rfl, rfl⟩)
  split
  · exact hclear.trans (CountSteps.foldl (fun s id => addPlaceholders_steps s _ id) _ _)
  · exact hclear

theorem updateRequestWithInvalidBlocks_steps {invalidBlockIds : List Nat} {evictBlocks : Bool}
    {acc acc' : Scheduler β × InvalidBlocks}
    (hrun : updateRequestWithInvalidBlocks cfg invalidBlockIds evictBlocks acc id = .ok acc') :
    CountSteps acc.1 acc'.1 := by
  obtain ⟨blockIds, -, hrun⟩ := bind_eq_ok.mp hrun
  dsimp only at hrun
  split at hrun
  · cases hrun
    exact .single (.counted id ⟨_, _, _, _, _, rfl⟩)
  · split at hrun
    · cases hrun
      exact .single (.counted id ⟨_, _, _, _, _, rfl⟩)
    · cases hrun
      exact .refl

theorem foldlM_invalidBlocks_steps {invalidBlockIds : List Nat} {evictBlocks : Bool} {l : List Nat}
    {acc acc' : Scheduler β × InvalidBlocks}
    (hrun : l.foldlM (updateRequestWithInvalidBlocks cfg invalidBlockIds evictBlocks) acc = .ok acc') :
    CountSteps acc.1 acc'.1 :=
  holds_of_foldlM (R := fun x y => CountSteps x.1 y.1) (fun _ => .refl) .trans updateRequestWithInvalidBlocks_steps hrun

theorem rejectDrafts_steps (s : Scheduler β) (id numDraftTokens : Nat) (generatedTokenIds : List Nat) :
    CountSteps s (s.rejectDrafts id numDraftTokens generatedTokenIds) := by
  unfold rejectDrafts
  split
  · exact .refl
  · exact .single (.counted id ⟨_, _, _, _, _, rfl⟩)

theorem updateDraftTokenIds_steps (s : Scheduler β) (validateTokens : Nat → List Int → List Int)
    (drafts : List (Nat × List Int)) : CountSteps s (s.updateDraftTokenIds validateTokens drafts) := by
  apply CountSteps.foldl
  intro s draft
  unfold updateDraft
  dsimp only
  split_ifs
  · exact .refl
  · exact .single (.counted draft.1 ⟨_, _, _, _, _, rfl⟩)
  · exact .single (.counted draft.1 ⟨_, _, _, _, _, rfl⟩)

theorem scheduleRunning_steps {newBlocks : List (List Nat)} {t : EncoderPlan}
    (hrun : s.scheduleRunning p id newBlocks t = .ok (s', p')) : CountSteps s s' := by
  obtain ⟨s₁, hencoder, hrun⟩ := bind_eq_ok.mp hrun
  cases hrun
  exact .tail (.single (.counted id ⟨_, _, _, _, _, rfl⟩)) (.untouched (allocateEncoder_untouched hencoder))

end

theorem failedKvLoads_steps {k : Option KVConnectorOutput} {failed : List Nat}
    (hrun : s.failedKvLoads cfg k = .ok (failed, s')) : CountSteps s s' := by
  unfold failedKvLoads at hrun
  split at hrun
  · cases hrun
    exact .refl
  · split at hrun
    · cases hrun
      exact .refl
    · obtain ⟨⟨s₁, async⟩, hasync, hrun⟩ := bind_eq_ok.mp hrun
      obtain ⟨⟨s₂, sync⟩, hsync, hrun⟩ := bind_eq_ok.mp hrun
      have hboth : CountSteps s s₂ := (foldlM_invalidBlocks_steps hasync).trans (foldlM_invalidBlocks_steps hsync)
      dsimp only at hrun
      split at hrun
      · cases hrun
        exact hboth
      · split at hrun
        · cases hrun
          exact hboth.tail (.untouched ⟨rfl, rfl, rfl, rfl, rfl, rfl⟩)
        · obtain ⟨kv, -, hrun⟩ := bind_eq_ok.mp hrun
          cases hrun
          exact hboth.tail (.untouched ⟨rfl, rfl, rfl, rfl, rfl, rfl⟩)

/-! ## Visits -/

/-- The scheduler at the end of a visit. -/
def Visit.state : Visit β → Scheduler β
  | .stop s => s
  | .skip s => s
  | .load s => s
  | .accept s _ _ => s

/-- What a visit does to the request it is about: a load that is done, a status that lets the request
go on, or an answer of the connector about a request without computed tokens. -/
inductive VisitStep (id : Nat) : Scheduler β → Scheduler β → Prop where
  | untouched {s s' : Scheduler β} (h : Untouched s s') : VisitStep id s s'
  | loaded {s : Scheduler β} (numComputedTokens : Int)
      (hstatus : (s.request id).status = .waitingForRemoteKvs) :
      VisitStep id s (s.modify id fun r => { r with numComputedTokens })
  | unblocked {s : Scheduler β} (status : RequestStatus)
      (hstatus : (s.request id).status = .waitingForRemoteKvs ∨ (s.request id).status = .waitingForFsm)
      (hnew : status = .waiting ∨ status = .preempted) :
      VisitStep id s (s.modify id fun r => { r with status })
  | matched {s : Scheduler β} (extTokens : Int) (hzero : (s.request id).numComputedTokens = 0) :
      VisitStep id s (s.modify id fun r => { r with numExternalComputedTokens := extTokens })

/-- Several steps of a visit. -/
abbrev VisitSteps (id : Nat) : Scheduler β → Scheduler β → Prop := Relation.ReflTransGen (VisitStep id)

theorem updateWaitingForRemoteKv_steps {isReady : Bool} (hstatus : (s.request id).status = .waitingForRemoteKvs)
    (hrun : s.updateWaitingForRemoteKv cfg id = .ok (isReady, s')) :
    VisitSteps id s s' ∧ (s'.request id).status = .waitingForRemoteKvs := by
  obtain ⟨_, -, hrun⟩ := bind_eq_ok.mp hrun
  split at hrun
  · cases hrun
    exact ⟨.refl, hstatus⟩
  · split at hrun
    · -- the load failed: the report of it has already put the computed tokens right
      obtain ⟨kv, -, hrun⟩ := bind_eq_ok.mp hrun
      cases hrun
      exact ⟨.single (.untouched ⟨rfl, rfl, rfl, rfl, rfl, rfl⟩), hstatus⟩
    · obtain ⟨blockIds, -, hrun⟩ := bind_eq_ok.mp hrun
      obtain ⟨kv, -, hrun⟩ := bind_eq_ok.mp hrun
      cases hrun
      have hkv : VisitStep id s { s with kv, finishedRecvingKvReqIds := s.finishedRecvingKvReqIds.erase id } :=
        .untouched ⟨rfl, rfl, rfl, rfl, rfl, rfl⟩
      refine ⟨.tail (.single hkv) (.loaded (s := { s with
        kv, finishedRecvingKvReqIds := s.finishedRecvingKvReqIds.erase id }) _ hstatus), ?_⟩
      simpa [modify] using hstatus

/-- A request that can go on does not wait for the input of a session. -/
theorem unblock_steps {ready : Bool} (hrun : s.unblock cfg env id = .ok (ready, s')) :
    VisitSteps id s s' ∧ (ready = true → (s'.request id).status ≠ .waitingForStreamingReq) := by
  unfold unblock at hrun
  split at hrun
  case h_1 hstatus =>
    obtain ⟨⟨isReady, s₁⟩, hremote, hrun⟩ := bind_eq_ok.mp hrun
    obtain ⟨hsteps, hstatus₁⟩ := updateWaitingForRemoteKv_steps hstatus hremote
    dsimp only at hrun
    split at hrun
    · cases hrun
      refine ⟨hsteps.tail (.unblocked _ (.inl hstatus₁) ?_), fun _ => ?_⟩
      · split <;> simp
      · simp only [modify]
        split <;> simp
    · cases hrun
      exact ⟨hsteps, by simp⟩
  case h_2 hstatus =>
    split at hrun
    · cases hrun
      exact ⟨.single (.unblocked .waiting (.inr hstatus) (.inl rfl)), by simp [modify]⟩
    · cases hrun
      exact ⟨.refl, by simp⟩
  case h_3 =>
    obtain ⟨_, -, hrun⟩ := bind_eq_ok.mp hrun
    cases hrun
    exact ⟨.refl, by simp⟩
  case h_4 hnot =>
    -- every other status is ready at once
    cases hrun
    exact ⟨.refl, fun _ => hnot⟩

omit [DecidableEq β] in
/-- Only a request without computed tokens loads some. -/
theorem computedTokens_steps {c : Option ComputedTokens} (hrun : s.computedTokens cfg env id = .ok (c, s')) :
    VisitSteps id s s' ∧ (s'.request id).status = (s.request id).status ∧
      ∀ c', c = some c' → c'.loadKvAsync = true → (s'.request id).numComputedTokens = 0 := by
  unfold computedTokens at hrun
  split at hrun
  · next hzero =>
    obtain ⟨⟨blocks, n⟩, -, hrun⟩ := bind_eq_ok.mp hrun
    dsimp only at hrun
    split at hrun
    · cases hrun
      exact ⟨.refl, rfl, fun _ _ _ => hzero⟩
    · split at hrun
      · cases hrun
        exact ⟨.refl, rfl, fun _ _ _ => hzero⟩
      · -- the external tokens are counted even if the request is not scheduled then
        cases hrun
        refine ⟨.single (.matched _ hzero), ?_, fun _ _ _ => ?_⟩
        · simp [modify]
        · simpa [modify] using hzero
  · cases hrun
    refine ⟨.refl, rfl, fun c' hc hload => ?_⟩
    cases hc
    cases hload

omit [DecidableEq β] in
theorem planWaiting_untouched {c : ComputedTokens} {t : Option EncoderPlan}
    (hrun : s.planWaiting cfg env p id c = .ok (t, s')) : Untouched s s' := by
  unfold planWaiting at hrun
  split at hrun
  · obtain ⟨_, -, hrun⟩ := bind_eq_ok.mp hrun
    cases hrun
    exact ⟨rfl, rfl, rfl, rfl, rfl, rfl⟩
  · dsimp only at hrun
    generalize (if 0 < (cfg.longPrefillTokenThreshold : Int) ∧
        (cfg.longPrefillTokenThreshold : Int) < (s.request id).numTokens - c.numComputedTokens then
      (cfg.longPrefillTokenThreshold : Int) else (s.request id).numTokens - c.numComputedTokens) = n at hrun
    split at hrun
    · cases hrun
      exact ⟨rfl, rfl, rfl, rfl, rfl, rfl⟩
    · obtain ⟨_, -, hrun⟩ := bind_eq_ok.mp hrun
      obtain ⟨⟨t', s₁⟩, hplan, hrun⟩ := bind_eq_ok.mp hrun
      dsimp only at hrun
      split at hrun
      · cases hrun
        exact planEncoder_untouched hplan
      · cases hrun
        exact planEncoder_untouched hplan

theorem allocateWaiting_untouched {c : ComputedTokens} {v : Visit β} (hrun : s.allocateWaiting cfg id c t = .ok v) :
    Untouched s v.state ∧ ∀ s₁, v = .load s₁ → c.loadKvAsync = true := by
  obtain ⟨⟨newBlocks, s₁⟩, halloc, hrun⟩ := bind_eq_ok.mp hrun
  have h := allocateSlots_untouched halloc
  dsimp only at hrun
  split at hrun
  · cases hrun
    exact ⟨⟨h.request, h.requests, h.running, h.waiting, h.num, h.pauseState⟩, nofun⟩
  · split at hrun
    · next hload =>
      cases hrun
      exact ⟨h, fun _ _ => hload⟩
    · cases hrun
      exact ⟨h, nofun⟩

/-- A visit is some steps for its request. One that is left loading has no computed tokens and does
not wait for the input of a session. -/
theorem visitWaiting_steps {v : Visit β} (hrun : s.visitWaiting cfg env p id = .ok v) :
    VisitSteps id s v.state ∧ ∀ s₁, v = .load s₁ →
      (s₁.request id).status ≠ .waitingForStreamingReq ∧ (s₁.request id).numComputedTokens = 0 := by
  obtain ⟨⟨ready, s₁⟩, hunblock, hrun⟩ := bind_eq_ok.mp hrun
  obtain ⟨hsteps₁, hstatus₁⟩ := unblock_steps hunblock
  dsimp only at hrun
  split at hrun
  · cases hrun
    exact ⟨hsteps₁, nofun⟩
  · next hready =>
    obtain ⟨⟨computed, s₂⟩, hcomputed, hrun⟩ := bind_eq_ok.mp hrun
    obtain ⟨hsteps₂, hstatus₂, hzero⟩ := computedTokens_steps hcomputed
    dsimp only at hrun
    split at hrun
    · cases hrun
      exact ⟨hsteps₁.trans hsteps₂, nofun⟩
    · next c =>
      obtain ⟨⟨planned, s₃⟩, hplanned, hrun⟩ := bind_eq_ok.mp hrun
      have h₃ := planWaiting_untouched hplanned
      have hsteps₃ := (hsteps₁.trans hsteps₂).tail (.untouched h₃)
      dsimp only at hrun
      split at hrun
      · cases hrun
        exact ⟨hsteps₃, nofun⟩
      · obtain ⟨h₄, hloads⟩ := allocateWaiting_untouched hrun
        refine ⟨hsteps₃.tail (.untouched h₄), fun s₄ hv => ?_⟩
        have hrequest : s₄.request = s₂.request := by
          rw [hv] at h₄
          exact h₄.request.trans h₃.request
        rw [hrequest, hstatus₂]
        exact ⟨hstatus₁ (by grind), hzero c rfl (hloads s₄ hv)⟩

/-! ## Running requests -/

omit [DecidableEq β] in
/-- A running request is taken out of the list; if it was scheduled, its plan is withdrawn. -/
theorem popPreempted_cases {reqIndex' : Nat} (hrun : s.popPreempted cfg p reqIndex = .ok (id, reqIndex', s', p')) :
    (cfg.policy = .priority ∧ s.lowestPriority = some id ∧ s' = { s with running := s.running.erase id } ∧
      (p' = p ∨ id ∈ p.scheduledRunningReqs ∧ p.withdraw id = .ok p')) ∨
    (cfg.policy = .fcfs ∧ s.running.getLast? = some id ∧
      s' = { s with running := s.running.dropLast } ∧ p' = p) := by
  unfold popPreempted at hrun
  split at hrun
  · next hpolicy =>
    split at hrun
    · cases hrun
    · next preempted hlowest =>
      dsimp only at hrun
      split at hrun
      · next hmem =>
        obtain ⟨p₁, hwithdraw, hrun⟩ := bind_eq_ok.mp hrun
        cases hrun
        exact .inl ⟨hpolicy, hlowest, rfl, .inr ⟨hmem, hwithdraw⟩⟩
      · cases hrun
        exact .inl ⟨hpolicy, hlowest, rfl, .inl rfl⟩
  · next hpolicy =>
    split at hrun
    · cases hrun
    · next last hlast =>
      cases hrun
      exact .inr ⟨hpolicy, hlast, rfl, rfl⟩

/-- A step of the loop around `allocate_slots`. -/
inductive AllocateStep (cfg : SchedulerConfig β) : Scheduler β × Plan → Scheduler β × Plan → Prop where
  | slots {s s' : Scheduler β} {p : Plan} {id : Nat} {a : KVCacheManager.AllocateArgs}
      {newBlocks : Option (List (List Nat))}
      (halloc : s.allocateSlots cfg id a = .ok (newBlocks, s')) : AllocateStep cfg (s, p) (s', p)
  | preempt {s s₁ s' : Scheduler β} {p p₁ : Plan} {id reqIndex reqIndex' : Nat}
      (hpop : s.popPreempted cfg p reqIndex = .ok (id, reqIndex', s₁, p₁))
      (hpreempt : s₁.preemptRequest cfg id = .ok s') :
      AllocateStep cfg (s, p) (s', { p₁ with preemptedReqs := p₁.preemptedReqs ++ [id] })

theorem allocateRunning_steps {numNewTokens : Int} {reqIndex' : Nat} {newBlocks : Option (List (List Nat))}
    (hrun : allocateRunning cfg id numNewTokens fuel reqIndex s p = .ok (newBlocks, reqIndex', s', p')) :
    Relation.ReflTransGen (AllocateStep cfg) (s, p) (s', p') := by
  induction fuel generalizing reqIndex s p with
  | zero =>
    cases hrun
    exact .refl
  | succ fuel ih =>
    obtain ⟨⟨blocks, s₁⟩, halloc, hrun⟩ := bind_eq_ok.mp hrun
    refine .head (.slots halloc) ?_
    dsimp only at hrun
    split at hrun
    · cases hrun
      exact .refl
    · obtain ⟨⟨preempted, reqIndex₁, s₂, p₁⟩, hpop, hrun⟩ := bind_eq_ok.mp hrun
      obtain ⟨s₃, hpreempt, hrun⟩ := bind_eq_ok.mp hrun
      refine .head (.preempt hpop hpreempt) ?_
      split at hrun
      · cases hrun
        exact .refl
      · exact ih hrun

/-- A step of the loop over the running requests. -/
inductive RunStep (cfg : SchedulerConfig β) (env : ScheduleEnv) :
    Scheduler β × Plan → Scheduler β × Plan → Prop where
  | encode {s s' : Scheduler β} {p : Plan} {id : Nat} {n m b : Int} {t : EncoderPlan}
      (hplan : s.planEncoder cfg env id n m b = .ok (t, s')) : RunStep cfg env (s, p) (s', p)
  | allocate {x y : Scheduler β × Plan} (hstep : AllocateStep cfg x y) : RunStep cfg env x y
  | schedule {s s' : Scheduler β} {p p' : Plan} {id : Nat} {newBlocks : List (List Nat)} {t : EncoderPlan}
      (hschedule : s.scheduleRunning p id newBlocks t = .ok (s', p')) : RunStep cfg env (s, p) (s', p')

theorem runningLoop_steps (hrun : runningLoop cfg env fuel reqIndex s p = .ok (s', p')) :
    Relation.ReflTransGen (RunStep cfg env) (s, p) (s', p') := by
  induction fuel generalizing reqIndex s p with
  | zero =>
    cases hrun
    exact .refl
  | succ fuel ih =>
    rw [runningLoop] at hrun
    split at hrun
    · cases hrun
      exact .refl
    · split_ifs at hrun
      · cases hrun
        exact .refl
      · cases hrun
        exact .refl
      · exact ih hrun
      · obtain ⟨⟨t, s₁⟩, hplan, hrun⟩ := bind_eq_ok.mp hrun
        refine .head (.encode hplan) ?_
        dsimp only at hrun
        split at hrun
        · exact ih hrun
        · obtain ⟨⟨newBlocks, reqIndex₁, s₂, p₁⟩, halloc, hrun⟩ := bind_eq_ok.mp hrun
          refine (Relation.ReflTransGen.mono (fun _ _ => .allocate) _ _ (allocateRunning_steps halloc)).trans ?_
          split at hrun
          · cases hrun
            exact .refl
          · obtain ⟨⟨s₃, p₂⟩, hschedule, hrun⟩ := bind_eq_ok.mp hrun
            exact .head (.schedule hschedule) (ih hrun)

/-! ## Waiting requests -/

/-- A step of the loop over the waiting requests; the last component is what was skipped. -/
inductive WaitStep (cfg : SchedulerConfig β) :
    Scheduler β × Plan × List Nat → Scheduler β × Plan × List Nat → Prop where
  | visit {s s' : Scheduler β} {p : Plan} {id : Nat} {skipped : List Nat} (hvisit : VisitStep id s s') :
      WaitStep cfg (s, p, skipped) (s', p, skipped)
  | skip {s s' : Scheduler β} {p : Plan} {skipped skipped' : List Nat}
      (hskip : s.skipWaiting cfg skipped = .ok (s', skipped')) : WaitStep cfg (s, p, skipped) (s', p, skipped')
  | load {s s' : Scheduler β} {p : Plan} {id : Nat} {skipped skipped' : List Nat} (hmem : id ∈ s.waiting)
      (hstatus : (s.request id).status ≠ .waitingForStreamingReq)
      (hzero : (s.request id).numComputedTokens = 0)
      (hskip : s.skipWaiting cfg skipped = .ok (s', skipped')) :
      WaitStep cfg (s, p, skipped) (s'.modify id fun r => { r with status := .waitingForRemoteKvs }, p, skipped')
  | accept {s s₁ s' : Scheduler β} {p p' : Plan} {id : Nat} {skipped : List Nat} {c : ComputedTokens}
      {t : EncoderPlan} (hroom : pipelineIsFull cfg p = false) (hpop : s.popWaiting cfg = .ok (id, s₁))
      (hschedule : s₁.scheduleWaiting cfg p id c t = .ok (s', p')) :
      WaitStep cfg (s, p, skipped) (s', p', skipped)

omit [DecidableEq β] in
/-- The steps of a visit, as steps of the loop. -/
theorem VisitSteps.wait (h : VisitSteps id s s') (p : Plan) (skipped : List Nat) :
    Relation.ReflTransGen (WaitStep cfg) (s, p, skipped) (s', p, skipped) :=
  h.lift (fun s => (s, p, skipped)) fun _ _ => .visit

omit [DecidableEq β] in
theorem VisitSteps.waiting (h : VisitSteps id s s') : s'.waiting = s.waiting := by
  apply holds_of_steps (R := fun s s' : Scheduler β => s'.waiting = s.waiting) (fun _ => rfl)
    (fun h h' => h'.trans h) _ h
  rintro _ _ (h | _ | _ | _)
  · exact h.waiting
  all_goals rfl

theorem waitingLoop_steps {skipped skipped' : List Nat}
    (hrun : waitingLoop cfg env fuel s p skipped = .ok (s', p', skipped')) :
    Relation.ReflTransGen (WaitStep cfg) (s, p, skipped) (s', p', skipped') := by
  induction fuel generalizing s p skipped with
  | zero =>
    cases hrun
    exact .refl
  | succ fuel ih =>
    rw [waitingLoop] at hrun
    split_ifs at hrun with _ hfull
    · cases hrun
      exact .refl
    · cases hrun
      exact .refl
    · cases hrun
      exact .refl
    · obtain ⟨id, hpeek, hrun⟩ := bind_eq_ok.mp hrun
      obtain ⟨v, hvisit, hrun⟩ := bind_eq_ok.mp hrun
      obtain ⟨hsteps, hloads⟩ := visitWaiting_steps hvisit
      refine (hsteps.wait p skipped).trans ?_
      cases v with
      | stop s₁ =>
        cases hrun
        exact .refl
      | skip s₁ =>
        obtain ⟨⟨s₂, skipped₁⟩, hskip, hrun⟩ := bind_eq_ok.mp hrun
        exact .head (.skip hskip) (ih hrun)
      | load s₁ =>
        obtain ⟨⟨s₂, skipped₁⟩, hskip, hrun⟩ := bind_eq_ok.mp hrun
        obtain ⟨hstatus, hzero⟩ := hloads s₁ rfl
        have hwaiting : s₁.waiting = s.waiting := hsteps.waiting
        have hmem : id ∈ s₁.waiting := by
          rw [hwaiting]
          exact List.mem_of_head? (RequestQueue.peekRequest_head hpeek)
        exact .head (.load hmem hstatus hzero hskip) (ih hrun)
      | accept s₁ c t =>
        obtain ⟨⟨id', s₂⟩, hpop, hrun⟩ := bind_eq_ok.mp hrun
        obtain ⟨⟨s₃, p₁⟩, hschedule, hrun⟩ := bind_eq_ok.mp hrun
        exact .head (.accept (Bool.eq_false_iff.mpr hfull) hpop hschedule) (ih hrun)

/-- What was skipped is put back in front of the queue. -/
theorem scheduleWaitingReqs_steps (hrun : s.scheduleWaitingReqs cfg env p = .ok (s', p')) :
    ∃ s₁ skipped, Relation.ReflTransGen (WaitStep cfg) (s, p, []) (s₁, p', skipped) ∧
      s' = { s₁ with waiting := RequestQueue.prependRequests cfg.policy s₁.requestLt s₁.waiting skipped } ∧
      (p.preemptedReqs ≠ [] → s' = s) := by
  unfold scheduleWaitingReqs at hrun
  split at hrun
  · next hnone =>
    obtain ⟨⟨s₁, p₁, skipped⟩, hloop, hrun⟩ := bind_eq_ok.mp hrun
    refine ⟨s₁, skipped, ?_⟩
    dsimp only at hrun
    split at hrun
    · next hnil =>
      cases hrun
      exact ⟨waitingLoop_steps hloop, by simp [hnil], fun h => absurd hnone.1 h⟩
    · cases hrun
      exact ⟨waitingLoop_steps hloop, rfl, fun h => absurd hnone.1 h⟩
  · cases hrun
    exact ⟨s, [], .refl, by simp, fun _ => rfl⟩

omit [DecidableEq β] in
theorem makeOutput_untouched {n : Int} {output : SchedulerOutput} (hrun : makeOutput cfg s p n = .ok (output, s')) :
    Untouched s s' := by
  obtain ⟨_, -, hrun⟩ := bind_eq_ok.mp hrun
  obtain ⟨_, -, hrun⟩ := bind_eq_ok.mp hrun
  cases hrun
  exact ⟨rfl, rfl, rfl, rfl, rfl, rfl⟩

/-- The parts of `schedule`. -/
theorem schedule_parts {output : SchedulerOutput} (hrun : s.schedule cfg env = .ok (output, s')) :
    ∃ s₁ s₂ s₃ p₁ p₂ p n, runningLoop cfg env s.running.length 0 s (s.initialPlan cfg) = .ok (s₁, p₁) ∧
      recordLoras cfg s₁ p₁ = .ok p₂ ∧ s₁.scheduleWaitingReqs cfg env p₂ = .ok (s₂, p) ∧
      checkPlan cfg s₂ p = .ok n ∧ makeOutput cfg s₂ p n = .ok (output, s₃) ∧
      s' = s₃.updateAfterSchedule cfg output := by
  obtain ⟨⟨s₂, p⟩, hplan, hrun⟩ := bind_eq_ok.mp hrun
  obtain ⟨n, hcheck, hrun⟩ := bind_eq_ok.mp hrun
  obtain ⟨⟨output', s₃⟩, houtput, hrun⟩ := bind_eq_ok.mp hrun
  cases hrun
  obtain ⟨⟨s₁, p₁⟩, hloop, hplan⟩ := bind_eq_ok.mp hplan
  obtain ⟨p₂, hloras, hplan⟩ := bind_eq_ok.mp hplan
  exact ⟨s₁, s₂, s₃, p₁, p₂, p, n, hloop, hloras, hplan, hcheck, houtput, rfl⟩

end Scheduler
end Yuan.Core
